import Gdnp.Distribute
import Gdnp.Isolation

/-!
# What an iteration of the loop does

An iteration of `run` accepts a connection, gives a PDU to `distribute`, or leaves the tables of the
server alone (`Iteration`, `iterate_iteration`), and so does what comes after `select` in it
(`Dispatch`, `dispatch_cases`).
-/

open CMem

namespace Gdnp

namespace ServerMaster

variable {o : ByteOrder} {sm sm' : ServerMaster} {env : LoopEnv} {es : List MasterEvent}
  {id sessionId : UInt32} {buffer : List UInt8} {type : MsgType}
  {uninit : CharArray maxStringLength} {last : Content}

instance (sm : ServerMaster) (env : LoopEnv) : Decidable (sm.Reads env) :=
  inferInstanceAs (Decidable (_ ∧ ∃ ready ∈ env.ready, _))

/-- `select` flags no descriptor below 0. -/
theorem Reads.nonneg (h : sm.Reads env) : ¬ sm.tcpSock < 0 := by
  obtain ⟨-, ready, -, -, -, -, hflag⟩ := h
  have hready := of_decide_eq_true (List.mem_filter.1 hflag).2
  obtain ⟨k, -, hk⟩ := List.mem_map.1 hready
  rw [← hk]
  exact (Int.natCast_nonneg k).not_gt

/-- `distribute` looks at the table and at `tcp_sock`. -/
theorem distribute_congr (hmap : sm'.ssMap = sm.ssMap) (htcp : sm'.tcpSock = sm.tcpSock) :
    (sm'.distribute sessionId buffer type uninit last).1.ssMap =
      (sm.distribute sessionId buffer type uninit last).1.ssMap := by
  unfold distribute
  rw [hmap]
  split <;> split_ifs
  · exact hmap
  · simp only [setEntry, hmap]
  · exact hmap
  · simp only [setEntry, hmap, htcp]

/-- An entry keeps its descriptor; a new one gets that of the last connection, for a REQUEST_MSG. -/
theorem distribute_tcpSock {ss : SessionEntry}
    (h : (sm.distribute sessionId buffer type uninit last).1.ssMap id = some ss) :
    (∃ ss₀, sm.ssMap id = some ss₀ ∧ ss₀.tcpSock = ss.tcpSock) ∨
      (id = sessionId ∧ sm.ssMap id = none ∧ type = .requestMsg ∧ ss.tcpSock = sm.tcpSock) := by
  unfold distribute at h
  split at h
  case h_1 ss₀ hss₀ =>
    split_ifs at h
    · exact .inl ⟨ss, h, rfl⟩
    · obtain ⟨rfl, rfl⟩ | ⟨-, hss⟩ := setEntry_ssMap_eq_some.1 h
      · exact .inl ⟨ss₀, hss₀, rfl⟩
      · exact .inl ⟨ss, hss, rfl⟩
  case h_2 hnone =>
    split_ifs at h with ht
    · exact .inl ⟨ss, h, rfl⟩
    · obtain ⟨rfl, rfl⟩ | ⟨-, hss⟩ := setEntry_ssMap_eq_some.1 h
      · exact .inr ⟨rfl, hnone, not_not.1 ht, rfl⟩
      · exact .inl ⟨ss, hss, rfl⟩

/-- Nothing among the events is done by a session. -/
def NoSession (es : List MasterEvent) : Prop :=
  ∀ id tcpSock e, MasterEvent.session id tcpSock e ∉ es

theorem noSession_recvDiscovery : NoSession (sm.recvDiscovery o env) := by
  unfold recvDiscovery
  intro id tcpSock e
  cases recvPdu sm.udpSock env.datagram with
  | error e => simp
  | ok d =>
    dsimp only
    split_ifs <;> simp

theorem noSession_distribute :
    NoSession (sm.distribute sessionId buffer type uninit last).2 := by
  unfold distribute
  intro id tcpSock e
  split <;> split_ifs <;> simp

/-- `run` goes on with `accept`. -/
def AboutToAccept (sm : ServerMaster) : Prop :=
  sm.udpSock ∉ sm.readFlags ∧ (sm.listenSock ≠ -1 ∧ sm.listenSock ∈ sm.readFlags) ∧
    sm.tcpAccepted < maxClientsNum

/-- `run` goes on with `read_pdu`. -/
def AboutToRead (sm : ServerMaster) : Prop :=
  sm.udpSock ∉ sm.readFlags ∧ ¬ (sm.listenSock ≠ -1 ∧ sm.listenSock ∈ sm.readFlags) ∧
    (sm.tcpSock ≠ -1 ∧ sm.tcpSock ∈ sm.readFlags)

instance (sm : ServerMaster) : Decidable sm.AboutToAccept := inferInstanceAs (Decidable (_ ∧ _))

instance (sm : ServerMaster) : Decidable sm.AboutToRead := inferInstanceAs (Decidable (_ ∧ _))

/-- The branches for the descriptors that are set; in `idle` a discovery message may have been
answered. -/
inductive Dispatch (sm : ServerMaster) (env : LoopEnv) : ServerMaster → Prop
  | idle {fdsetLock} (haccepts : ¬ sm.AboutToAccept)
      (hreads : ∀ d, sm.AboutToRead → recvPdu sm.tcpSock env.pdu ≠ .ok d) :
    Dispatch sm env { sm with fdsetLock := fdsetLock }
  | accept {fdsetLock} (haccepts : sm.AboutToAccept) :
    Dispatch sm env
      { sm with
        fdsetLock := fdsetLock
        tcpSock := env.acceptSock
        tcpFdSet := Function.update sm.tcpFdSet sm.tcpAccepted env.acceptSock
        tcpAccepted := sm.tcpAccepted + 1 }
  | read {fdsetLock d} (hreads : sm.AboutToRead) (hd : recvPdu sm.tcpSock env.pdu = .ok d) :
    Dispatch sm env
      { sm with
        fdsetLock := fdsetLock
        ssMap := (sm.distribute d.sessionId d.data.bytes d.type env.uninit env.last).1.ssMap }

theorem AboutToRead.not_aboutToAccept (h : sm.AboutToRead) : ¬ sm.AboutToAccept := fun ha =>
  h.2.1 ha.2.1

theorem dispatch_cases (h : sm.dispatch o env = (sm', es)) :
    Dispatch sm env sm' ∧ NoSession es := by
  unfold dispatch at h
  split_ifs at h with hflag hlisten htcp
  · cases h
    exact ⟨.idle (fun ha => ha.1 hflag) fun d hr => absurd hflag hr.1, noSession_recvDiscovery⟩
  · unfold acceptClient at h
    split_ifs at h with hroom <;> cases h
    · exact ⟨.accept ⟨hflag, hlisten, hroom⟩, by simp [NoSession]⟩
    · exact ⟨.idle (fun ha => hroom ha.2.2) fun d hr => absurd hlisten hr.2.1, by simp [NoSession]⟩
  · have hr : sm.AboutToRead := ⟨hflag, hlisten, htcp⟩
    have hsock : sm.unlock.tcpSock = sm.tcpSock := rfl
    unfold readClient at h
    rw [hsock] at h
    cases houtcome : recvPdu sm.tcpSock env.pdu with
    | error e =>
      rw [houtcome] at h
      cases h
      refine ⟨.idle hr.not_aboutToAccept fun d _ hd => ?_, by simp [NoSession]⟩
      cases houtcome.symm.trans hd
    | ok d =>
      rw [houtcome] at h
      obtain ⟨ssMap, hmap⟩ := sm.unlock.distribute_eq d.sessionId d.data.bytes d.type env.uninit
        env.last
      have hcongr : ssMap =
          (sm.distribute d.sessionId d.data.bytes d.type env.uninit env.last).1.ssMap :=
        (congrArg ServerMaster.ssMap hmap).symm.trans (distribute_congr rfl rfl)
      obtain rfl : _ = sm' := congrArg Prod.fst h
      obtain rfl : _ = es := congrArg Prod.snd h
      dsimp only
      rw [hmap, hcongr]
      refine ⟨.read hr houtcome, ?_⟩
      intro id tcpSock e he
      rcases List.mem_cons.1 he with he | he
      · cases he
      · exact noSession_distribute id tcpSock e he
  · cases h
    exact ⟨.idle (fun ha => hlisten ha.2.1) fun d hr => absurd hr.2.2 htcp, by simp [NoSession]⟩

/-- The branches of an iteration; in `idle` a discovery message may have been answered. -/
inductive Iteration (sm : ServerMaster) (env : LoopEnv) : ServerMaster → Prop
  | idle {fdsetLock readFlags} (haccepts : ¬ sm.Accepts env)
      (hreads : ∀ d, sm.Reads env → recvPdu sm.tcpSock env.pdu ≠ .ok d) :
    Iteration sm env { sm with fdsetLock := fdsetLock, readFlags := readFlags }
  | accept {fdsetLock readFlags} (haccepts : sm.Accepts env) (hreads : ¬ sm.Reads env) :
    Iteration sm env
      { sm with
        fdsetLock := fdsetLock
        readFlags := readFlags
        tcpSock := env.acceptSock
        tcpFdSet := Function.update sm.tcpFdSet sm.tcpAccepted env.acceptSock
        tcpAccepted := sm.tcpAccepted + 1 }
  | read {fdsetLock readFlags d} (haccepts : ¬ sm.Accepts env) (hreads : sm.Reads env)
      (hd : recvPdu sm.tcpSock env.pdu = .ok d) :
    Iteration sm env
      { sm with
        fdsetLock := fdsetLock
        readFlags := readFlags
        ssMap := (sm.distribute d.sessionId d.data.bytes d.type env.uninit env.last).1.ssMap }

/-- Every iteration is one of the branches. -/
theorem iterate_iteration (h : sm.iterate o env = some (sm', es)) :
    Iteration sm env sm' ∧ NoSession es := by
  obtain ⟨hudp, ready, hready, -, heq⟩ | ⟨hnone, rfl, flags, rfl⟩ := iterate_inv h
  · have hreads : sm.Reads env ↔ (sm.testing ready).AboutToRead := by
      simp only [Reads, hready, Option.mem_some_iff, exists_eq_left', and_iff_right hudp]
      rfl
    have haccepts : sm.Accepts env ↔ (sm.testing ready).AboutToAccept := by
      simp only [Accepts, hready, Option.mem_some_iff, exists_eq_left', and_iff_right hudp]
      rfl
    obtain ⟨hdispatch, hes⟩ := dispatch_cases heq
    refine ⟨?_, hes⟩
    cases hdispatch with
    | idle ha hr => exact .idle (ha ∘ haccepts.1) fun d h => hr d (hreads.1 h)
    | accept ha => exact .accept (haccepts.2 ha) fun h => (hreads.1 h).not_aboutToAccept ha
    | @read _ d hr hd =>
      have hcongr := @distribute_congr sm (sm.testing ready) d.sessionId d.data.bytes d.type
        env.uninit env.last rfl rfl
      rw [hcongr]
      exact .read (hr.not_aboutToAccept ∘ haccepts.1) (hreads.2 hr) hd
  · refine ⟨.idle ?_ ?_, by simp [NoSession]⟩
    · rintro ⟨hudp, ready, hready, -, ⟨-, hflag⟩, -⟩
      rw [hnone hudp ready hready] at hflag
      exact absurd hflag List.not_mem_nil
    · rintro d ⟨hudp, ready, hready, -, -, -, hflag⟩
      rw [hnone hudp ready hready] at hflag
      exact absurd hflag List.not_mem_nil

end ServerMaster

end Gdnp
