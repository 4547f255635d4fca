import Gdnp.Server

/-!
# The loop of the server

`select` watches every accepted connection, but the branches of `run` know only the one accepted
last, `tcp_sock`.  A PDU on another connection is left to no branch, and the lock taken before
them is not released: the next iteration waits for it for ever (`not_lock_free`).  This is the
only way in which the loop keeps the lock (`lock_free`).  A connection request that comes when
`MAX_CLIENTS_NUM` connections are open is not accepted and keeps PDUs from being read;
`inputs_served` says when an iteration takes some input.
-/

open CMem

namespace Gdnp

namespace MasterEvent

/-- An input is taken from a descriptor. -/
def TakesFrom (fd : ℤ) : MasterEvent → Prop
  | received sock _ | accepted sock _ | read sock _ => sock = fd
  | _ => False

end MasterEvent

namespace ServerMaster

variable {o : ByteOrder} {sm sm' : ServerMaster} {a : MasterAct} {es : List MasterEvent}
  {env : LoopEnv}

/-- One of the branches of `run` handles a descriptor in `flags`. -/
def Branches (sm : ServerMaster) (flags : List ℤ) : Prop :=
  sm.udpSock ∈ flags ∨ (sm.listenSock ≠ -1 ∧ sm.listenSock ∈ flags) ∨
    (sm.tcpSock ≠ -1 ∧ sm.tcpSock ∈ flags)

/-- Whatever `select` reports, a branch handles one of the descriptors. -/
def Handles (sm : ServerMaster) : MasterAct → Prop
  | .iterate env => sm.udpSock ≠ -1 → ∀ ready ∈ env.ready, sm.flagged ready ≠ [] →
      sm.Branches (sm.flagged ready)
  | _ => True

instance (sm : ServerMaster) (flags : List ℤ) : Decidable (sm.Branches flags) :=
  inferInstanceAs (Decidable (_ ∨ _))

instance (sm : ServerMaster) : DecidablePred sm.Handles
  | .iterate env => inferInstanceAs (Decidable (_ → ∀ ready ∈ env.ready, _))
  | .listen _ => inferInstanceAs (Decidable True)
  | .session _ _ => inferInstanceAs (Decidable True)

/-- A branch takes some input: a datagram, a connection request when there is room for it, or a
PDU on the connection accepted last when no connection request waits. -/
def Takes (sm : ServerMaster) (flags : List ℤ) : Prop :=
  sm.udpSock ∈ flags ∨
    if sm.listenSock ≠ -1 ∧ sm.listenSock ∈ flags then sm.tcpAccepted < maxClientsNum
    else sm.tcpSock ≠ -1 ∧ sm.tcpSock ∈ flags

/-- Whatever `select` reports, a branch takes some input. -/
def HasRoom (sm : ServerMaster) : MasterAct → Prop
  | .iterate env => sm.udpSock ≠ -1 → ∀ ready ∈ env.ready, sm.flagged ready ≠ [] →
      sm.Takes (sm.flagged ready)
  | _ => True

instance (sm : ServerMaster) (flags : List ℤ) : Decidable (sm.Takes flags) := by
  unfold Takes
  infer_instance

instance (sm : ServerMaster) : DecidablePred sm.HasRoom
  | .iterate env => inferInstanceAs (Decidable (_ → ∀ ready ∈ env.ready, _))
  | .listen _ => inferInstanceAs (Decidable True)
  | .session _ _ => inferInstanceAs (Decidable True)

/-- An iteration takes an input from one of the descriptors that `select` reports, if any. -/
def Serves (o : ByteOrder) (sm : ServerMaster) : MasterAct → Prop
  | .iterate env => sm.udpSock ≠ -1 → ∀ ready ∈ env.ready, sm.flagged ready ≠ [] →
      ∃ sm' es, sm.iterate o env = some (sm', es) ∧
        ∃ fd ∈ sm.flagged ready, ∃ e ∈ es, e.TakesFrom fd
  | _ => True

theorem acceptClient_fdsetLock : (sm.acceptClient env).1.fdsetLock = sm.fdsetLock := by
  unfold acceptClient
  split_ifs <;> rfl

theorem acceptClient_udpSock : (sm.acceptClient env).1.udpSock = sm.udpSock := by
  unfold acceptClient
  split_ifs <;> rfl

theorem readClient_fdsetLock : (sm.readClient env).1.fdsetLock = sm.fdsetLock := by
  obtain ⟨ssMap, h⟩ := sm.readClient_eq env
  rw [h]

theorem readClient_udpSock : (sm.readClient env).1.udpSock = sm.udpSock := by
  obtain ⟨ssMap, h⟩ := sm.readClient_eq env
  rw [h]

theorem dispatch_udpSock (o : ByteOrder) (env : LoopEnv) (sm : ServerMaster) :
    (sm.dispatch o env).1.udpSock = sm.udpSock := by
  unfold dispatch
  split_ifs
  · rfl
  · exact acceptClient_udpSock
  · exact readClient_udpSock
  · rfl

/-- Every branch releases the lock. -/
theorem dispatch_fdsetLock (o : ByteOrder) (env : LoopEnv) (h : sm.fdsetLock = true) :
    (sm.dispatch o env).1.fdsetLock = false ↔ sm.Branches sm.readFlags := by
  unfold dispatch Branches
  split_ifs with hudp hlisten htcp
  · simp [unlock, hudp]
  · rw [acceptClient_fdsetLock]
    simp [unlock, hlisten]
  · rw [readClient_fdsetLock]
    simp [unlock, htcp]
  · simp [h, hudp, hlisten, htcp]

/-- Only an iteration changes the lock, and nothing changes `udp_sock`. -/
theorem step_fdsetLock (h : sm.step o a = some (sm', es)) (ha : ∀ env, a ≠ .iterate env) :
    sm'.fdsetLock = sm.fdsetLock ∧ sm'.udpSock = sm.udpSock := by
  unfold step at h
  split at h
  case h_1 env => exact absurd rfl (ha env)
  case h_2 sock =>
    cases h
    exact ⟨rfl, rfl⟩
  case h_3 => cases h
  case h_4 sessionId a _ =>
    obtain ⟨ss, -, h⟩ := Option.bind_eq_some_iff.1 h
    obtain ⟨r, -, h⟩ := Option.map_eq_some_iff.1 h
    split_ifs at h <;> cases h <;> exact ⟨rfl, rfl⟩

/-- An iteration that begins without the lock ends without it exactly when a branch handles one of
the descriptors that `select` reports. -/
theorem iterate_fdsetLock (hlock : sm.fdsetLock = false)
    (h : sm.iterate o env = some (sm', es)) :
    sm'.fdsetLock = false ↔ sm.Handles (.iterate env) := by
  obtain ⟨hudp, ready, hready, hflags, heq⟩ | ⟨hnone, -, flags, rfl⟩ := iterate_inv h
  · have hdispatch := dispatch_fdsetLock o env (show (sm.testing ready).fdsetLock = true from rfl)
    rw [heq] at hdispatch
    rw [hdispatch]
    constructor
    · rintro hb - ready' hready' -
      cases hready.symm.trans hready'
      exact hb
    · intro hh
      exact hh hudp ready hready hflags
  · refine ⟨fun _ hudp ready hready hflags => ?_, fun _ => hlock⟩
    exact absurd (hnone hudp ready hready) hflags

theorem step_fdsetLock_iff (hlock : sm.fdsetLock = false) (h : sm.step o a = some (sm', es)) :
    sm'.fdsetLock = false ↔ sm.Handles a := by
  by_cases ha : ∃ env, a = .iterate env
  · obtain ⟨env, rfl⟩ := ha
    exact iterate_fdsetLock hlock h
  · rw [(step_fdsetLock h fun env he => ha ⟨env, he⟩).1]
    refine ⟨fun _ => ?_, fun _ => hlock⟩
    cases a with
    | iterate env => exact absurd ⟨env, rfl⟩ ha
    | listen sock => trivial
    | session sessionId a => trivial

theorem step_udpSock (h : sm.step o a = some (sm', es)) : sm'.udpSock = sm.udpSock := by
  by_cases ha : ∃ env, a = .iterate env
  · obtain ⟨env, rfl⟩ := ha
    obtain ⟨-, ready, -, -, heq⟩ | ⟨-, -, flags, rfl⟩ := iterate_inv h
    · have hdispatch := dispatch_udpSock o env (sm.testing ready)
      rw [heq] at hdispatch
      exact hdispatch
    · rfl
  · exact (step_fdsetLock h fun env he => ha ⟨env, he⟩).2

/-- The loop thread waits for a lock that it holds. -/
def Blocked (sm : ServerMaster) : Prop := sm.fdsetLock = true ∧ sm.udpSock ≠ -1

theorem step_blocked_of_not_handles (hlock : sm.fdsetLock = false) (ha : ¬ sm.Handles a)
    (h : sm.step o a = some (sm', es)) : sm'.Blocked := by
  constructor
  · rw [← step_fdsetLock_iff hlock h] at ha
    exact Bool.eq_true_of_not_eq_false ha
  · rw [step_udpSock h]
    intro hudp
    cases a with
    | iterate env => exact ha fun hne => absurd hudp hne
    | listen sock => exact ha trivial
    | session sessionId a => exact ha trivial

theorem step_blocked (hs : sm.Blocked) (h : sm.step o a = some (sm', es)) : sm'.Blocked := by
  refine ⟨?_, by rw [step_udpSock h]; exact hs.2⟩
  rw [← hs.1]
  apply (step_fdsetLock h _).1
  rintro env rfl
  rw [step, iterate_of_locked hs.2 hs.1] at h
  cases h

theorem iterate_isSome (hlock : sm.fdsetLock = false) (env : LoopEnv) :
    (sm.iterate o env).isSome := by
  obtain ⟨-, ready, -, -, heq⟩ | ⟨-, flags, heq⟩ := iterate_cases o env hlock
  all_goals rw [heq]; rfl

theorem Takes.branches {flags : List ℤ} (h : sm.Takes flags) : sm.Branches flags := by
  unfold Takes at h
  refine h.imp_right fun h => ?_
  split_ifs at h with hlisten
  · exact .inl hlisten
  · exact .inr h

theorem handles_of_hasRoom (h : sm.HasRoom a) : sm.Handles a := by
  cases a with
  | iterate env => exact fun hudp ready hready hflags => (h hudp ready hready hflags).branches
  | listen sock => trivial
  | session sessionId a => trivial

theorem acceptClient_takes (sm : ServerMaster) (env : LoopEnv) (h : sm.listenSock ∈ sm.readFlags) :
    (∃ fd ∈ sm.readFlags, ∃ e ∈ (sm.acceptClient env).2, e.TakesFrom fd) ↔
      sm.tcpAccepted < maxClientsNum := by
  unfold acceptClient
  split_ifs with hroom
  · exact iff_of_true ⟨sm.listenSock, h, _, List.mem_cons_self, rfl⟩ hroom
  · exact iff_of_false (by simp) hroom

theorem readClient_takes (sm : ServerMaster) (env : LoopEnv) :
    ∃ e ∈ (sm.readClient env).2, e.TakesFrom sm.tcpSock := by
  unfold readClient
  cases recvPdu sm.tcpSock env.pdu with
  | error e => exact ⟨_, List.mem_cons_self, rfl⟩
  | ok d => exact ⟨_, List.mem_cons_self, rfl⟩

theorem dispatch_takes (o : ByteOrder) (env : LoopEnv) (sm : ServerMaster) :
    (∃ fd ∈ sm.readFlags, ∃ e ∈ (sm.dispatch o env).2, e.TakesFrom fd) ↔
      sm.Takes sm.readFlags := by
  unfold dispatch Takes
  by_cases hudp : sm.udpSock ∈ sm.readFlags
  · rw [if_pos hudp]
    exact iff_of_true ⟨sm.udpSock, hudp, _, List.mem_cons_self, rfl⟩ (.inl hudp)
  rw [if_neg hudp, or_iff_right hudp]
  by_cases hlisten : sm.listenSock ≠ -1 ∧ sm.listenSock ∈ sm.readFlags
  · rw [if_pos hlisten, if_pos hlisten]
    exact sm.unlock.acceptClient_takes env hlisten.2
  rw [if_neg hlisten, if_neg hlisten]
  split_ifs with htcp
  · exact iff_of_true ⟨sm.tcpSock, htcp.2, sm.unlock.readClient_takes env⟩ htcp
  · exact iff_of_false (by simp) htcp

/-- An iteration that begins without the lock. -/
theorem serves_iff_hasRoom (hlock : sm.fdsetLock = false) : sm.Serves o a ↔ sm.HasRoom a := by
  cases a with
  | iterate env =>
    refine forall_congr' fun hudp => forall₂_congr fun ready hready => ?_
    apply imp_congr_right
    intro hflags
    obtain ⟨-, ready', hready', -, heq⟩ | ⟨hnone, -⟩ :=
      iterate_cases o env hlock
    · cases hready.symm.trans hready'
      have hdispatch := dispatch_takes o env (sm.testing ready)
      rw [heq]
      refine Iff.trans ?_ hdispatch
      constructor
      · rintro ⟨sm', es, h, htakes⟩
        rw [Option.some.inj h]
        exact htakes
      · exact fun htakes => ⟨_, _, rfl, htakes⟩
    · exact absurd (hnone hudp ready hready) hflags
  | listen sock => rfl
  | session sessionId a => rfl

section Runs

variable {udpSock : ℤ} {localInterfaces : List CString} {fds : ℕ → ℤ} {as : List MasterAct}

/-- The loop thread does not hold the lock, and the next iteration ends, exactly when each
iteration so far had a branch for one of the descriptors that `select` reported. -/
theorem lock_free
    (hrun : (machine o).run (start udpSock localInterfaces fds) as = some (sm, es)) :
    (sm.fdsetLock = false ∧ ∀ env, (sm.iterate o env).isSome) ↔
      (machine o).Guarded Handles (start udpSock localInterfaces fds) as := by
  rw [and_iff_left_of_imp iterate_isSome]
  exact EventMachine.guarded_iff_of_absorbing (I := fun sm => sm.fdsetLock = false) (J := Blocked)
    (fun _ _ _ _ hlock ha h => (step_fdsetLock_iff hlock h).2 ha)
    (fun _ _ _ _ hlock ha h => step_blocked_of_not_handles hlock ha h)
    (fun _ _ _ _ hs h => step_blocked hs h)
    (fun sm hs => by rw [hs.1]; decide) rfl hrun

/-- Every iteration in which `select` reports a descriptor takes an input from one exactly when
each finds a datagram, or a connection request and room for it, or no connection request but a PDU
on the connection accepted last. -/
theorem inputs_served (as : List MasterAct) :
    (machine o).Guarded (Serves o) (start udpSock localInterfaces fds) as ↔
      (machine o).Guarded HasRoom (start udpSock localInterfaces fds) as := by
  symm
  exact EventMachine.guarded_congr (I := fun sm => sm.fdsetLock = false)
    (fun _ _ _ _ hlock ha h => (step_fdsetLock_iff hlock h).2 (handles_of_hasRoom ha))
    (fun _ _ hlock => (serves_iff_hasRoom hlock).symm) rfl as

end Runs

/-- Input waits on `ready`, `accept` gives `acceptSock`, and `read` gives `pdu`. -/
def inputEnv (ready : List ℕ) (acceptSock : ℤ) (pdu : Option Msg) : LoopEnv :=
  ⟨some ready, none, ⟨0, 0⟩, ⟨.success, 0⟩, acceptSock, pdu, default, CharArray.zero _,
    ⟨.requestMsg, CharArray.zero _⟩⟩

def input (ready : List ℕ) (acceptSock : ℤ) (pdu : Option Msg) : MasterAct :=
  .iterate (inputEnv ready acceptSock pdu)

/-- Two clients connect, on the descriptors 5 and 6. -/
def twoClients : List MasterAct := [.listen 4, input [4] 5 none, input [4] 6 none]

/-- The first of two clients sends a PDU. -/
theorem not_lock_free :
    ¬ ∀ (o : ByteOrder) (udpSock : ℤ) (localInterfaces : List CString) (fds : ℕ → ℤ)
        (as : List MasterAct) (sm : ServerMaster) (es : List MasterEvent),
      (machine o).run (start udpSock localInterfaces fds) as = some (sm, es) →
      sm.fdsetLock = false := by
  intro h
  have hsample : ((machine .little).run (start 3 [] fun _ => 0)
      (twoClients ++ [input [5] 0 none])).map (·.1.fdsetLock) = some true := by
    decide +kernel
  obtain ⟨⟨sm, es⟩, hrun, hlock⟩ := Option.map_eq_some_iff.1 hsample
  exact absurd ((h _ _ _ _ _ sm es hrun).symm.trans hlock) (by decide)

/-- The first of two clients waits for the lock with its PDU on; the second is served. -/
theorem lock_free_second :
    ∃ sm es, (machine .little).run (start 3 [] fun _ => 0) (twoClients ++ [input [6] 0 none]) =
        some (sm, es) ∧
      sm.fdsetLock = false ∧ ∀ env, (sm.iterate .little env).isSome := by
  have hsample : ((machine .little).run (start 3 [] fun _ => 0)
      (twoClients ++ [input [6] 0 none])).map (·.1.tcpSock) = some 6 := by
    decide +kernel
  obtain ⟨⟨sm, es⟩, hrun, -⟩ := Option.map_eq_some_iff.1 hsample
  exact ⟨sm, es, hrun, (lock_free hrun).2 (by decide +kernel)⟩

/-- The PDU of the first of two clients is not read. -/
theorem not_inputs_served :
    ¬ ∀ (o : ByteOrder) (udpSock : ℤ) (localInterfaces : List CString) (fds : ℕ → ℤ)
        (as : List MasterAct),
      (machine o).Guarded (Serves o) (start udpSock localInterfaces fds) as := by
  intro h
  have hsample : ((machine .little).run (start 3 [] fun _ => 0) twoClients).map
      (fun r => (r.1.fdsetLock, decide (r.1.HasRoom (input [5] 0 none)))) =
      some (false, false) := by
    decide +kernel
  obtain ⟨⟨sm, es⟩, hrun, hs⟩ := Option.map_eq_some_iff.1 hsample
  obtain ⟨hlock, hroom⟩ := Prod.mk.inj hs
  have hserves := h .little 3 [] (fun _ => 0) (twoClients ++ [input [5] 0 none])
  rw [EventMachine.guarded_append_iff hrun] at hserves
  exact of_decide_eq_false hroom ((serves_iff_hasRoom hlock).1 hserves.2.1)

end ServerMaster

end Gdnp
