import Gdnp.ServerLoop

/-!
# Sessions and connections

A session is found by its id alone, which the client chooses: when two clients choose the same, the
PDUs of one go to the session of the other, which replies to its own client (`not_isolated`).

`Traffic` is what an observer knows who numbers the connections.  When no connection gets a
descriptor that a session in the table still uses, the sessions are isolated exactly when every PDU
for a session in the table comes on its descriptor (`isolated`).
-/

open CMem

namespace Gdnp

structure Traffic where
  /-- The connection that `accept` gave last on each descriptor. -/
  connection : ℤ → ℕ
  /-- How many connections were accepted. -/
  accepted : ℕ
  /-- The connection on which the last PDU was read. -/
  reading : ℕ
  /-- The connection on which the REQUEST_MSG of each session was read. -/
  origin : UInt32 → ℕ

namespace Traffic

def start : Traffic := ⟨fun _ => 0, 0, 0, fun _ => 0⟩

def observe (t : Traffic) : MasterEvent → Traffic
  | .accepted _ tcpSock =>
    { t with
      connection := Function.update t.connection tcpSock (t.accepted + 1)
      accepted := t.accepted + 1 }
  | .read sock _ => { t with reading := t.connection sock }
  | .created sessionId _ => { t with origin := Function.update t.origin sessionId t.reading }
  | _ => t

/-- A PDU goes to a session created on its connection, and a session writes to the connection on
which it was created. -/
def Keeps (t : Traffic) : MasterEvent → Prop
  | .pushed sessionId _ => t.reading = t.origin sessionId
  | .session sessionId tcpSock (.wrote _ _) => t.connection tcpSock = t.origin sessionId
  | _ => True

instance (t : Traffic) : DecidablePred t.Keeps
  | .pushed _ _ => inferInstanceAs (Decidable (_ = _))
  | .session _ _ (.wrote _ _) => inferInstanceAs (Decidable (_ = _))
  | .session _ _ (.popped _ _) | .session _ _ (.replied _ _ _) | .received _ _ | .responded _ _
  | .accepted _ _ | .read _ _ | .created _ _ | .cleared _ => inferInstanceAs (Decidable True)

/-- Each of the events keeps the sessions apart. -/
def Isolated : Traffic → List MasterEvent → Prop
  | _, [] => True
  | t, e :: es => t.Keeps e ∧ Isolated (t.observe e) es

instance decidableIsolated : ∀ (t : Traffic) (es : List MasterEvent), Decidable (t.Isolated es)
  | _, [] => inferInstanceAs (Decidable True)
  | t, e :: es =>
    have := decidableIsolated (t.observe e) es
    inferInstanceAs (Decidable (t.Keeps e ∧ _))

theorem isolated_append {t : Traffic} {es es' : List MasterEvent} :
    t.Isolated (es ++ es') ↔ t.Isolated es ∧ (es.foldl observe t).Isolated es' := by
  induction es generalizing t with
  | nil => simp [Isolated]
  | cons e es ih => rw [List.cons_append, Isolated, Isolated, ih, List.foldl_cons, and_assoc]

/-- What a session does is no matter of which connections there are. -/
theorem foldl_session (t : Traffic) (sessionId : UInt32) (tcpSock : ℤ) (es : List SessionEvent) :
    (es.map (.session sessionId tcpSock)).foldl observe t = t := by
  induction es with
  | nil => rfl
  | cons e es ih => exact ih

theorem isolated_session {t : Traffic} {sessionId : UInt32} {tcpSock : ℤ}
    (h : t.connection tcpSock = t.origin sessionId) (es : List SessionEvent) :
    t.Isolated (es.map (.session sessionId tcpSock)) := by
  induction es with
  | nil => trivial
  | cons e es ih =>
    refine ⟨?_, ih⟩
    cases e with
    | wrote answers msg => exact h
    | popped c skipped => trivial
    | replied c r rtnval => trivial

end Traffic

namespace ServerMaster

variable {o : ByteOrder} {sm sm' : ServerMaster} {a : MasterAct} {es : List MasterEvent}
  {env : LoopEnv} {t : Traffic}

/-- A connection is accepted in the iteration. -/
def Accepts (sm : ServerMaster) (env : LoopEnv) : Prop :=
  sm.udpSock ≠ -1 ∧ ∃ ready ∈ env.ready, sm.udpSock ∉ sm.flagged ready ∧
    (sm.listenSock ≠ -1 ∧ sm.listenSock ∈ sm.flagged ready) ∧ sm.tcpAccepted < maxClientsNum

/-- A PDU is read in the iteration. -/
def Reads (sm : ServerMaster) (env : LoopEnv) : Prop :=
  sm.udpSock ≠ -1 ∧ ∃ ready ∈ env.ready, sm.udpSock ∉ sm.flagged ready ∧
    ¬ (sm.listenSock ≠ -1 ∧ sm.listenSock ∈ sm.flagged ready) ∧
    (sm.tcpSock ≠ -1 ∧ sm.tcpSock ∈ sm.flagged ready)

instance (sm : ServerMaster) (env : LoopEnv) : Decidable (sm.Accepts env) :=
  inferInstanceAs (Decidable (_ ∧ ∃ ready ∈ env.ready, _))

/-- `accept` gives no descriptor that a session in the table uses. -/
def AcceptsFresh (sm : ServerMaster) : MasterAct → Prop
  | .iterate env => sm.Accepts env →
      ∀ sessionId ss, sm.ssMap sessionId = some ss → ss.tcpSock ≠ env.acceptSock
  | _ => True

/-- A PDU for a session in the table, other than a REQUEST_MSG, comes on its descriptor. -/
def ReadsOwn (sm : ServerMaster) : MasterAct → Prop
  | .iterate env => sm.Reads env → ∀ d, recvPdu sm.tcpSock env.pdu = .ok d →
      d.type ≠ .requestMsg → ∀ ss, sm.ssMap d.sessionId = some ss → ss.tcpSock = sm.tcpSock
  | _ => True

/-- The descriptors belong to different connections, and the sessions to the connection on their
descriptor. -/
structure Numbered (sm : ServerMaster) (t : Traffic) : Prop where
  le : ∀ fd, t.connection fd ≤ t.accepted
  inj : ∀ fd fd', 0 < t.connection fd → t.connection fd = t.connection fd' → fd = fd'
  last : sm.tcpSock ≠ -1 → 0 < t.connection sm.tcpSock
  entry : ∀ sessionId ss, sm.ssMap sessionId = some ss →
    0 < t.connection ss.tcpSock ∧ t.connection ss.tcpSock = t.origin sessionId

theorem numbered_start (udpSock : ℤ) (localInterfaces : List CString) (fds : ℕ → ℤ) :
    (start udpSock localInterfaces fds).Numbered .start where
  le := fun _ => le_rfl
  inj := fun _ _ h => absurd h (lt_irrefl 0)
  last := fun h => absurd rfl h
  entry := fun _ _ h => by cases h

theorem Numbered.congr (hs : sm.Numbered t) (hmap : sm'.ssMap = sm.ssMap)
    (htcp : sm'.tcpSock = sm.tcpSock) : sm'.Numbered t where
  le := hs.le
  inj := hs.inj
  last := by rw [htcp]; exact hs.last
  entry := by rw [hmap]; exact hs.entry

/-- A new connection on a descriptor that no session uses. -/
theorem Numbered.accept (hs : sm.Numbered t)
    (hfresh : ∀ sessionId ss, sm.ssMap sessionId = some ss → ss.tcpSock ≠ env.acceptSock)
    (hmap : sm'.ssMap = sm.ssMap) (htcp : sm'.tcpSock = env.acceptSock) (sock : ℤ) :
    sm'.Numbered (t.observe (.accepted sock env.acceptSock)) := by
  have hself : (t.observe (.accepted sock env.acceptSock)).connection env.acceptSock =
      t.accepted + 1 := Function.update_self ..
  have hne : ∀ fd, fd ≠ env.acceptSock →
      (t.observe (.accepted sock env.acceptSock)).connection fd = t.connection fd :=
    fun fd hfd => Function.update_of_ne hfd ..
  refine ⟨fun fd => ?_, fun fd fd' hpos heq => ?_, fun _ => ?_, fun sessionId ss hss => ?_⟩
  · by_cases hfd : fd = env.acceptSock
    · rw [hfd, hself]
      exact le_rfl
    · rw [hne fd hfd]
      exact (hs.le fd).trans (Nat.le_succ _)
  · have hle := hs.le fd
    have hle' := hs.le fd'
    by_cases hfd : fd = env.acceptSock <;> by_cases hfd' : fd' = env.acceptSock
    · rw [hfd, hfd']
    · rw [hfd, hself, hne fd' hfd'] at heq
      omega
    · rw [hfd', hself, hne fd hfd] at heq
      omega
    · rw [hne fd hfd] at hpos heq
      rw [hne fd' hfd'] at heq
      exact hs.inj fd fd' hpos heq
  · rw [htcp, hself]
    exact Nat.succ_pos _
  · rw [hmap] at hss
    rw [hne ss.tcpSock (hfresh sessionId ss hss)]
    exact hs.entry sessionId ss hss

theorem acceptClient_isolated (hs : sm.Numbered t)
    (hfresh : sm.tcpAccepted < maxClientsNum →
      ∀ sessionId ss, sm.ssMap sessionId = some ss → ss.tcpSock ≠ env.acceptSock)
    (h : sm.acceptClient env = (sm', es)) :
    sm'.Numbered (es.foldl Traffic.observe t) ∧ t.Isolated es := by
  unfold acceptClient at h
  split_ifs at h with hroom <;> cases h
  · refine ⟨hs.accept (hfresh hroom) ?_ ?_ sm.listenSock, trivial, trivial⟩
    · rfl
    · rfl
  · exact ⟨hs, trivial⟩

/-- What `distribute` does with a PDU that was read on `tcp_sock`. -/
theorem distribute_isolated (hs : sm.Numbered t) (htcp : sm.tcpSock ≠ -1)
    (hreading : t.reading = t.connection sm.tcpSock) (sessionId : UInt32) (buffer : List UInt8)
    (type : MsgType) (uninit : CharArray maxStringLength) (last : Content)
    (h : sm.distribute sessionId buffer type uninit last = (sm', es)) :
    sm'.Numbered (es.foldl Traffic.observe t) ∧ (t.Isolated es ↔
      (type ≠ .requestMsg → ∀ ss, sm.ssMap sessionId = some ss → ss.tcpSock = sm.tcpSock)) := by
  unfold distribute at h
  split at h
  case h_1 ss hss =>
    split_ifs at h with ht <;> cases h
    · exact ⟨hs, iff_of_true trivial fun hne => absurd ht hne⟩
    · obtain ⟨hpos, horigin⟩ := hs.entry sessionId ss hss
      refine ⟨⟨hs.le, hs.inj, hs.last, fun id ss' hss' => ?_⟩, ?_⟩
      · obtain ⟨rfl, rfl⟩ | ⟨-, hss'⟩ := setEntry_ssMap_eq_some.1 hss'
        · exact ⟨hpos, horigin⟩
        · exact hs.entry id ss' hss'
      · constructor
        · rintro ⟨hkeeps, -⟩ - ss' hss'
          cases hss.symm.trans hss'
          apply hs.inj _ _ hpos
          rw [horigin, ← hreading]
          exact hkeeps.symm
        · intro hsock
          refine ⟨?_, trivial⟩
          rw [Traffic.Keeps, hreading, ← hsock ht ss hss, horigin]
  case h_2 hss =>
    have hnone : ∀ ss, sm.ssMap sessionId = some ss → ss.tcpSock = sm.tcpSock := fun ss hss' => by
      cases hss.symm.trans hss'
    split_ifs at h with ht <;> cases h
    · exact ⟨hs, iff_of_true trivial fun _ => hnone⟩
    · refine ⟨⟨hs.le, hs.inj, hs.last, fun id ss' hss' => ?_⟩,
        iff_of_true ⟨trivial, trivial⟩ fun _ => hnone⟩
      obtain ⟨rfl, rfl⟩ | ⟨hid, hss'⟩ := setEntry_ssMap_eq_some.1 hss'
      · have hself : (t.observe (.created id ⟨type, uninit.memcpy buffer⟩)).origin id = t.reading :=
          Function.update_self ..
        exact ⟨hs.last htcp, hreading.symm.trans hself.symm⟩
      · obtain ⟨hpos, horigin⟩ := hs.entry id ss' hss'
        exact ⟨hpos, horigin.trans (Function.update_of_ne hid ..).symm⟩

theorem readClient_isolated (hs : sm.Numbered t) (htcp : sm.tcpSock ≠ -1)
    (h : sm.readClient env = (sm', es)) :
    sm'.Numbered (es.foldl Traffic.observe t) ∧ (t.Isolated es ↔
      ∀ d, recvPdu sm.tcpSock env.pdu = .ok d → d.type ≠ .requestMsg →
        ∀ ss, sm.ssMap d.sessionId = some ss → ss.tcpSock = sm.tcpSock) := by
  have hread : ∀ outcome,
      sm.Numbered (t.observe (.read sm.tcpSock outcome)) := fun _ =>
    ⟨hs.le, hs.inj, hs.last, hs.entry⟩
  unfold readClient at h
  cases houtcome : recvPdu sm.tcpSock env.pdu with
  | error e =>
    rw [houtcome] at h
    cases h
    exact ⟨hread (.error e), iff_of_true ⟨trivial, trivial⟩ nofun⟩
  | ok d =>
    rw [houtcome] at h
    rcases hd : sm.distribute d.sessionId d.data.bytes d.type env.uninit env.last with ⟨sm₁, es₁⟩
    simp only [hd] at h
    cases h
    have hdistribute := distribute_isolated (hread (.ok d)) htcp rfl _ _ _ _ _ hd
    refine ⟨hdistribute.1, ?_⟩
    rw [Traffic.Isolated, and_iff_right (show t.Keeps (.read sm.tcpSock (.ok d)) from trivial),
      hdistribute.2]
    constructor
    · rintro hsock d' ⟨⟩
      exact hsock
    · exact fun hsock => hsock d rfl

theorem recvDiscovery_isolated (o : ByteOrder) (env : LoopEnv) (sm : ServerMaster) (t : Traffic) :
    t.Isolated (sm.recvDiscovery o env) ∧
    (sm.recvDiscovery o env).foldl Traffic.observe t = t := by
  unfold recvDiscovery
  cases recvPdu sm.udpSock env.datagram with
  | error e => exact ⟨⟨trivial, trivial⟩, rfl⟩
  | ok d =>
    dsimp only
    split_ifs
    · rcases (sendPdu sm.udpSock _ .responseMsg d.sessionId env.send).2 with _ | msg
      · exact ⟨⟨trivial, trivial⟩, rfl⟩
      · exact ⟨⟨trivial, trivial, trivial⟩, rfl⟩
    · exact ⟨⟨trivial, trivial⟩, rfl⟩

/-- Among the steps of the loop, only the reading of a PDU may mix up the sessions. -/
theorem iterate_isolated (hs : sm.Numbered t) (hfresh : sm.AcceptsFresh (.iterate env))
    (h : sm.iterate o env = some (sm', es)) :
    sm'.Numbered (es.foldl Traffic.observe t) ∧
      (t.Isolated es ↔ sm.ReadsOwn (.iterate env)) := by
  obtain ⟨hudp, ready, hready, hflags, heq⟩ | ⟨hnone, rfl, flags, rfl⟩ := iterate_inv h
  · have hunlock : (sm.testing ready).unlock.Numbered t := hs.congr rfl rfl
    have hreads : (sm.udpSock ∉ sm.flagged ready →
        ¬ (sm.listenSock ≠ -1 ∧ sm.listenSock ∈ sm.flagged ready) →
        ¬ (sm.tcpSock ≠ -1 ∧ sm.tcpSock ∈ sm.flagged ready)) → sm.ReadsOwn (.iterate env) := by
      rintro hno ⟨-, ready', hready', hudp', hlisten', htcp'⟩
      cases hready.symm.trans hready'
      exact absurd htcp' (hno hudp' hlisten')
    unfold dispatch at heq
    split_ifs at heq with hflag hlisten htcp
    · cases heq
      have hdiscovery := recvDiscovery_isolated o env (sm.testing ready).unlock t
      rw [hdiscovery.2]
      exact ⟨hs.congr rfl rfl, iff_of_true hdiscovery.1 (hreads fun hn => absurd hflag hn)⟩
    · have haccept := acceptClient_isolated hunlock
        (fun hroom => hfresh ⟨hudp, ready, hready, hflag, hlisten, hroom⟩) heq
      exact ⟨haccept.1, iff_of_true haccept.2 (hreads fun _ hn => absurd hlisten hn)⟩
    · have hread := readClient_isolated hunlock htcp.1 heq
      refine ⟨hread.1, hread.2.trans ?_⟩
      constructor
      · exact fun hsock _ => hsock
      · exact fun hsock => hsock ⟨hudp, ready, hready, hflag, hlisten, htcp⟩
    · cases heq
      exact ⟨hs.congr rfl rfl, iff_of_true trivial (hreads fun _ _ => htcp)⟩
  · refine ⟨hs.congr rfl rfl, iff_of_true trivial ?_⟩
    rintro ⟨hudp, ready, hready, -, -, htcp⟩
    rw [hnone hudp ready hready] at htcp
    exact absurd htcp.2 List.not_mem_nil

/-- A session writes to its own connection. -/
theorem sessionStep_isolated {id : UInt32} {b : SessionAct} (hs : sm.Numbered t)
    (h : sm.sessionStep o id b = some (sm', es)) :
    sm'.Numbered (es.foldl Traffic.observe t) ∧ t.Isolated es := by
  obtain ⟨rfl, hmap, htcp⟩ | ⟨ss, s', es', hss, hstep, rfl, rfl⟩ := sessionStep_cases h
  · refine ⟨⟨hs.le, hs.inj, by rw [htcp]; exact hs.last, fun id' ss' hss' => ?_⟩, trivial, trivial⟩
    rw [hmap] at hss'
    by_cases hid : id' = id
    · subst hid
      rw [Function.update_self] at hss'
      cases hss'
    · rw [Function.update_of_ne hid] at hss'
      exact hs.entry id' ss' hss'
  · obtain ⟨hpos, horigin⟩ := hs.entry id ss hss
    rw [Traffic.foldl_session]
    refine ⟨⟨hs.le, hs.inj, hs.last, fun id' ss' hss' => ?_⟩, Traffic.isolated_session horigin es'⟩
    obtain ⟨rfl, rfl⟩ | ⟨-, hss'⟩ := setEntry_ssMap_eq_some.1 hss'
    · exact ⟨hpos, horigin⟩
    · exact hs.entry id' ss' hss'

theorem step_isolated (hs : sm.Numbered t) (hfresh : sm.AcceptsFresh a)
    (h : sm.step o a = some (sm', es)) :
    sm'.Numbered (es.foldl Traffic.observe t) ∧ (t.Isolated es ↔ sm.ReadsOwn a) := by
  cases a with
  | iterate env => exact iterate_isolated hs hfresh h
  | listen sock =>
    cases h
    exact ⟨hs.congr rfl rfl, Iff.rfl⟩
  | session id b =>
    have hsession := sessionStep_isolated hs (step_session h)
    exact ⟨hsession.1, iff_of_true hsession.2 trivial⟩

theorem run_isolated {as : List MasterAct} (hs : sm.Numbered t)
    (hfresh : (machine o).Guarded AcceptsFresh sm as)
    (hrun : (machine o).run sm as = some (sm', es)) :
    t.Isolated es ↔ (machine o).Guarded ReadsOwn sm as := by
  induction as generalizing sm t es with
  | nil =>
    obtain ⟨-, rfl⟩ := EventMachine.run_nil_iff.1 hrun
    exact Iff.rfl
  | cons a as ih =>
    obtain ⟨sm₁, es₁, es₂, h₁, h₂, rfl⟩ := EventMachine.run_cons_iff.1 hrun
    obtain ⟨ha, hrest⟩ := (EventMachine.guarded_cons_iff h₁).1 hfresh
    obtain ⟨hs₁, hiff⟩ := step_isolated hs ha h₁
    rw [Traffic.isolated_append, EventMachine.guarded_cons_iff h₁, hiff, ih hs₁ hrest h₂]

section Runs

variable {udpSock : ℤ} {localInterfaces : List CString} {fds : ℕ → ℤ} {as : List MasterAct}

/-- As long as no connection gets a descriptor that a session in the table still uses, every PDU
goes to a session that was created on its connection, and every session replies to the connection
on which it was created, exactly when each PDU for a session in the table comes on its
descriptor. -/
theorem isolated (hfresh : (machine o).Guarded AcceptsFresh (start udpSock localInterfaces fds) as)
    (hrun : (machine o).run (start udpSock localInterfaces fds) as = some (sm, es)) :
    Traffic.start.Isolated es ↔
      (machine o).Guarded ReadsOwn (start udpSock localInterfaces fds) as :=
  run_isolated (numbered_start udpSock localInterfaces fds) hfresh hrun

end Runs

/-- A client connects on descriptor 5. -/
def oneClient : List MasterAct := [.listen 4, input [4] 5 none]

/-- A PDU of session 7 comes on a descriptor. -/
def pduOn (fd : ℕ) (type : MsgType) : MasterAct :=
  input [fd] 6 (writePdu [] type 7 ⟨.success, 0⟩).2

/-- A second client chooses the session id of the first. -/
theorem not_isolated :
    ¬ ∀ (o : ByteOrder) (udpSock : ℤ) (localInterfaces : List CString) (fds : ℕ → ℤ)
        (as : List MasterAct) (sm : ServerMaster) (es : List MasterEvent),
      (machine o).run (start udpSock localInterfaces fds) as = some (sm, es) →
      Traffic.start.Isolated es := by
  intro h
  have hsample : ((machine .little).run (start 3 [] fun _ => 0)
      (oneClient ++ [pduOn 5 .requestMsg, input [4] 6 none, pduOn 6 .negoMsg])).map
      (fun r => decide (Traffic.start.Isolated r.2)) = some false := by
    decide +kernel
  obtain ⟨⟨sm, es⟩, hrun, hes⟩ := Option.map_eq_some_iff.1 hsample
  exact of_decide_eq_false hes (h _ _ _ _ _ sm es hrun)

/-- Nothing is accepted in the step. -/
def AcceptsNone (sm : ServerMaster) : MasterAct → Prop
  | .iterate env => ¬ sm.Accepts env
  | _ => True

instance (sm : ServerMaster) : DecidablePred sm.AcceptsNone
  | .iterate env => inferInstanceAs (Decidable (¬ sm.Accepts env))
  | .listen _ => inferInstanceAs (Decidable True)
  | .session _ _ => inferInstanceAs (Decidable True)

theorem AcceptsNone.acceptsFresh (h : sm.AcceptsNone a) : sm.AcceptsFresh a := by
  cases a with
  | iterate env => exact fun haccepts => absurd haccepts h
  | listen sock => trivial
  | session sessionId a => trivial

/-- The first client makes a request with the id 7, and then another connects on descriptor 6. -/
def firstRequest : List MasterAct := oneClient ++ [pduOn 5 .requestMsg]

/-- The second client makes a request with the id 8 and goes on, and session 7 answers meanwhile. -/
def secondRequest : List MasterAct :=
  input [6] 7 (writePdu [] .requestMsg 8 ⟨.success, 0⟩).2 ::
    List.replicate 13 (.session 7 (ServerSession.answer true)) ++
    [input [6] 7 (writePdu [] .negoMsg 8 ⟨.success, 0⟩).2]

theorem firstRequest_fresh :
    (machine .little).Guarded AcceptsFresh (start 3 [] fun _ => 0)
      (firstRequest ++ [input [4] 6 none]) := by
  have hlisten : (machine .little).run (start 3 [] fun _ => 0) [.listen 4] =
      some ((start 3 [] fun _ => 0).listenNegotiate 4, []) := rfl
  have hone : (machine .little).Guarded AcceptsFresh (start 3 [] fun _ => 0) oneClient := by
    refine EventMachine.guarded_concat hlisten ⟨trivial, trivial⟩ fun _ _ _ h => ?_
    cases h
  have hnone : ((machine .little).run (start 3 [] fun _ => 0) oneClient).map
      (fun r => decide (r.1.AcceptsNone (pduOn 5 .requestMsg))) = some true := by
    decide +kernel
  obtain ⟨⟨sm₁, es₁⟩, hrun₁, hnone⟩ := Option.map_eq_some_iff.1 hnone
  have hfirst : (machine .little).Guarded AcceptsFresh (start 3 [] fun _ => 0) firstRequest :=
    EventMachine.guarded_concat hrun₁ hone (AcceptsNone.acceptsFresh (of_decide_eq_true hnone))
  -- Only session 7 is in the table, on descriptor 5.
  obtain ⟨sm₂, es₂, e, hrun₂, hmap, hsock⟩ : ∃ sm es e,
      (machine .little).run (start 3 [] fun _ => 0) firstRequest = some (sm, es) ∧
        sm.ssMap = Function.update (fun _ => none) 7 (some e) ∧ e.tcpSock = 5 :=
    ⟨_, _, _, rfl, rfl, rfl⟩
  refine EventMachine.guarded_concat hrun₂ hfirst fun _ id ss hss => ?_
  rw [hmap, Function.update_apply] at hss
  split_ifs at hss
  rw [← Option.some.inj hss, hsock]
  decide

/-- Two clients with a session each; the session of the first writes when the second is the one
that connected last. -/
theorem isolated_twoClients :
    ∃ sm es, (machine .little).run (start 3 [] fun _ => 0)
        (firstRequest ++ [input [4] 6 none] ++ secondRequest) = some (sm, es) ∧
      es.countP MasterEvent.isCreated = 2 ∧
      (Traffic.start.Isolated es ↔ (machine .little).Guarded ReadsOwn (start 3 [] fun _ => 0)
        (firstRequest ++ [input [4] 6 none] ++ secondRequest)) ∧
      Traffic.start.Isolated es := by
  have hsample : ((machine .little).run (start 3 [] fun _ => 0)
      (firstRequest ++ [input [4] 6 none])).map
      (fun r => decide ((machine .little).Guarded AcceptsNone r.1 secondRequest)) =
      some true := by
    decide +kernel
  obtain ⟨⟨sm₁, es₁⟩, hone, hnone⟩ := Option.map_eq_some_iff.1 hsample
  have hfresh : (machine .little).Guarded AcceptsFresh (start 3 [] fun _ => 0)
      (firstRequest ++ [input [4] 6 none] ++ secondRequest) := by
    rw [EventMachine.guarded_append_iff hone]
    exact ⟨firstRequest_fresh, EventMachine.guarded_mono (fun _ _ h => h.acceptsFresh)
      (of_decide_eq_true hnone)⟩
  have hisolated : ((machine .little).run (start 3 [] fun _ => 0)
      (firstRequest ++ [input [4] 6 none] ++ secondRequest)).map
      (fun r => (r.2.countP MasterEvent.isCreated, decide (Traffic.start.Isolated r.2))) =
      some (2, true) := by
    decide +kernel
  obtain ⟨⟨sm, es⟩, hrun, hes⟩ := Option.map_eq_some_iff.1 hisolated
  obtain ⟨hcreated, hes⟩ := Prod.mk.inj hes
  exact ⟨sm, es, hrun, hcreated, isolated hfresh hrun, of_decide_eq_true hes⟩

end ServerMaster

end Gdnp
