import Gdnp.Refinement

/-!
# The lives of the sessions

Whatever the loop, the other sessions and the calls of `listen_negotiate` do in between, what the
server does for one session id is a run of a slot for a session: a REQUEST_MSG creates a session
when there is none, which then runs as if it were alone, with the messages that `distribute` gives
it, until it is cleared (`projects`).  So all that happens to an id is the lives of its sessions,
one after the other, each a run of a session (`sessions_live`), as long as each session has its
thread also in the process of the server (`threads_live`).
-/

open CMem

namespace Gdnp

/-- What can be seen of a session: the messages it is given, and what its threads do. -/
inductive SessionLabel where
  | pushed (c : Content)
  | did (e : SessionEvent)

/-- What `distribute` makes a session from, and what its uninitialised `last_content` holds. -/
structure Opening where
  request : Content
  last : Content
  isRequest : request.type = .requestMsg

namespace ServerSession

/-- The session with the messages it is given; it is given no REQUEST_MSG. -/
def traffic (o : ByteOrder) : EventMachine ServerSession SessionAct SessionLabel where
  step s
    | .push c => if c.type = .requestMsg then none else
        (s.step o (.push c)).map fun r => (r.1, [.pushed c])
    | a => (s.step o a).map fun r => (r.1, r.2.map .did)

def ofOpening (sessionId : UInt32) (k : Opening) : ServerSession := new sessionId k.request k.last

/-- The place of a session in the table. -/
def slot (o : ByteOrder) (sessionId : UInt32) :
    EventMachine (Option ServerSession) (EventMachine.SlotAct Opening SessionAct)
      (EventMachine.SlotEvent Content SessionLabel) :=
  EventMachine.slot (traffic o) (ofOpening sessionId) (·.request) (·.runPc.isDone)

/-- A session that is over emitted nothing in its last step. -/
theorem step_isDone {o : ByteOrder} {s s' : ServerSession} {a : SessionAct}
    {es : List SessionEvent} (h : s.step o a = some (s', es)) (hs : s.runPc.isDone = false)
    (hs' : s'.runPc.isDone = true) : es = [] := by
  obtain ⟨env, rfl⟩ | ha := a.run_or
  · have h' : s.runStep o env = some (s', es) := h
    cases runStep_cases h' with
    | close pc => rfl
    | popSkip pc hq hf | pop pc hq hf | sendRefused pc hst | sendFails pc hw | sendNego pc ht hw
    | sendEnd pc ht hw => cases hs'
    | _ => rfl
  · rw [(step_runPc h ha).1, hs] at hs'
    cases hs'

theorem traffic_step {o : ByteOrder} {s s' : ServerSession} {a : SessionAct}
    {es : List SessionEvent} (h : s.step o a = some (s', es)) (ha : ∀ c, a ≠ .push c) :
    (traffic o).step s a = some (s', es.map .did) := by
  cases a with
  | push c => exact absurd rfl (ha c)
  | _ => simp only [traffic, h, Option.map_some]

theorem traffic_push (o : ByteOrder) (s : ServerSession) {c : Content} (hc : c.type ≠ .requestMsg) :
    (traffic o).step s (.push c) = some ({ s with q := s.q ++ [c] }, [.pushed c]) :=
  if_neg hc

end ServerSession

/-- What an event of the server is for a session id. -/
def MasterEvent.label (sessionId : UInt32) :
    MasterEvent → Option (EventMachine.SlotEvent Content SessionLabel)
  | created id c => if id = sessionId then some (.created c) else none
  | pushed id c => if id = sessionId then some (.did (.pushed c)) else none
  | session id _ e => if id = sessionId then some (.did (.did e)) else none
  | cleared id => if id = sessionId then some .ended else none
  | _ => none

namespace ServerMaster

/-- The session of an id. -/
def sessionOf (sessionId : UInt32) (sm : ServerMaster) : Option ServerSession :=
  (sm.ssMap sessionId).map (·.session)

/-- The sessions in the table are running. -/
def Running (sm : ServerMaster) : Prop :=
  ∀ id ss, sm.ssMap id = some ss → ss.session.runPc.isDone = false

variable {o : ByteOrder} {sm sm' : ServerMaster} {a : MasterAct} {es : List MasterEvent}
  {env : LoopEnv} {sessionId : UInt32}

/-- The slot of the id can do what the server did. -/
def Follows (o : ByteOrder) (sessionId : UInt32) (sm sm' : ServerMaster)
    (es : List MasterEvent) : Prop :=
  ∃ bs, (ServerSession.slot o sessionId).run (sm.sessionOf sessionId) bs =
    some (sm'.sessionOf sessionId, es.filterMap (MasterEvent.label sessionId))

theorem follows_rfl (hs : sm'.sessionOf sessionId = sm.sessionOf sessionId)
    (hes : es.filterMap (MasterEvent.label sessionId) = []) : Follows o sessionId sm sm' es := by
  refine ⟨[], ?_⟩
  rw [hs, hes]
  rfl

theorem follows_step {b : EventMachine.SlotAct Opening SessionAct}
    (h : (ServerSession.slot o sessionId).step (sm.sessionOf sessionId) b =
      some (sm'.sessionOf sessionId, es.filterMap (MasterEvent.label sessionId))) :
    Follows o sessionId sm sm' es :=
  ⟨[b], EventMachine.run_singleton_iff.2 h⟩

theorem sessionOf_setEntry_self (ss : SessionEntry) :
    (sm.setEntry sessionId (some ss)).sessionOf sessionId = some ss.session := by
  rw [sessionOf, setEntry_ssMap_self]
  rfl

theorem sessionOf_setEntry_of_ne {id : UInt32} (h : sessionId ≠ id) (ss : Option SessionEntry) :
    (sm.setEntry id ss).sessionOf sessionId = sm.sessionOf sessionId := by
  rw [sessionOf, sessionOf, setEntry_ssMap_of_ne h]

theorem running_setEntry (hs : sm.Running) {id : UInt32} {ss : SessionEntry}
    (hss : ss.session.runPc.isDone = false) : (sm.setEntry id (some ss)).Running := by
  intro id' ss' hss'
  obtain ⟨-, rfl⟩ | ⟨-, hss'⟩ := setEntry_ssMap_eq_some.1 hss'
  · exact hss
  · exact hs id' ss' hss'

/-- `distribute` creates the session, gives it the message, or leaves the table alone. -/
theorem distribute_follows (sessionId : UInt32) (hs : sm.Running) (id : UInt32)
    (buffer : List UInt8) (type : MsgType) (uninit : CharArray maxStringLength) (last : Content)
    (h : sm.distribute id buffer type uninit last = (sm', es)) :
    sm'.Running ∧ Follows o sessionId sm sm' es := by
  unfold distribute at h
  split at h
  case h_1 ss hss =>
    split_ifs at h with ht <;> cases h
    · exact ⟨hs, follows_rfl rfl rfl⟩
    · refine ⟨running_setEntry hs (hs id ss hss), ?_⟩
      by_cases hid : id = sessionId
      · subst hid
        apply follows_step (b := .step (.push ⟨type, uninit.memcpy buffer⟩))
        rw [sessionOf_setEntry_self, sessionOf, hss]
        have hpush := ServerSession.traffic_push o ss.session (c := ⟨type, uninit.memcpy buffer⟩) ht
        simp [ServerSession.slot, EventMachine.slot, hpush, MasterEvent.label, hs id ss hss]
      · exact follows_rfl (sessionOf_setEntry_of_ne (Ne.symm hid) _)
          (by simp [MasterEvent.label, hid])
  case h_2 hss =>
    split_ifs at h with ht <;> cases h
    · exact ⟨hs, follows_rfl rfl rfl⟩
    · refine ⟨running_setEntry hs rfl, ?_⟩
      by_cases hid : id = sessionId
      · subst hid
        apply follows_step
          (b := .create ⟨⟨type, uninit.memcpy buffer⟩, last, not_not.1 ht⟩)
        rw [sessionOf_setEntry_self, sessionOf, hss]
        simp [ServerSession.slot, EventMachine.slot, ServerSession.ofOpening, MasterEvent.label]
      · exact follows_rfl (sessionOf_setEntry_of_ne (Ne.symm hid) _)
          (by simp [MasterEvent.label, hid])

theorem filterMap_label_session (id : UInt32) (tcpSock : ℤ) (es' : List SessionEvent) :
    (es'.map (.session id tcpSock)).filterMap (MasterEvent.label sessionId) =
      if id = sessionId then es'.map (.did ∘ .did) else [] := by
  rw [List.filterMap_map]
  split_ifs with hid
  · rw [← List.filterMap_eq_map]
    exact List.filterMap_congr fun e _ => if_pos hid
  · rw [List.filterMap_eq_nil_iff]
    exact fun e _ => if_neg hid

/-- A thread of the session, or of another one, takes a step; the last one clears the session. -/
theorem sessionStep_follows (sessionId : UInt32) (hs : sm.Running) {id : UInt32} {b : SessionAct}
    (h : sm.step o (.session id b) = some (sm', es)) :
    sm'.Running ∧ Follows o sessionId sm sm' es := by
  have hpush : ∀ c, b ≠ .push c := by
    rintro c rfl
    cases h
  obtain ⟨ss, hss, h⟩ := Option.bind_eq_some_iff.1 (step_session h)
  obtain ⟨⟨s', es'⟩, hstep, h⟩ := Option.map_eq_some_iff.1 h
  have htraffic := ServerSession.traffic_step hstep hpush
  have hof : sm.sessionOf id = some ss.session := by rw [sessionOf, hss]; rfl
  split_ifs at h with hdone <;> cases h
  · have hentry : (sm.clearWhenSessionEnd id ss.tcpSock).ssMap =
        Function.update sm.ssMap id none := rfl
    refine ⟨fun id' ss' hss' => ?_, ?_⟩
    · rw [hentry] at hss'
      by_cases hid : id' = id
      · rw [hid, Function.update_self] at hss'
        cases hss'
      · rw [Function.update_of_ne hid] at hss'
        exact hs id' ss' hss'
    · by_cases hid : id = sessionId
      · subst hid
        apply follows_step (b := .step b)
        rw [hof, sessionOf, hentry, Function.update_self]
        rw [ServerSession.step_isDone hstep (hs id ss hss) hdone] at htraffic
        simp [ServerSession.slot, EventMachine.slot, htraffic, hdone, MasterEvent.label]
      · refine follows_rfl ?_ (by simp [MasterEvent.label, hid])
        rw [sessionOf, hentry, Function.update_of_ne (Ne.symm hid)]
        rfl
  · refine ⟨running_setEntry hs (Bool.eq_false_of_not_eq_true hdone), ?_⟩
    by_cases hid : id = sessionId
    · subst hid
      apply follows_step (b := .step b)
      rw [hof, sessionOf_setEntry_self, filterMap_label_session, if_pos rfl]
      simp [ServerSession.slot, EventMachine.slot, htraffic, hdone]
    · refine follows_rfl (sessionOf_setEntry_of_ne (Ne.symm hid) _) ?_
      rw [filterMap_label_session, if_neg hid]

theorem recvDiscovery_label :
    (sm.recvDiscovery o env).filterMap (MasterEvent.label sessionId) = [] := by
  unfold recvDiscovery
  cases recvPdu sm.udpSock env.datagram with
  | error e => rfl
  | ok d =>
    dsimp only
    split_ifs
    · rcases (sendPdu sm.udpSock _ .responseMsg d.sessionId env.send).2 with _ | msg <;> rfl
    · rfl

/-- Of the branches of an iteration only the reading of a PDU touches the table. -/
theorem dispatch_follows (sessionId : UInt32) (hs : sm.Running)
    (h : sm.dispatch o env = (sm', es)) :
    sm'.Running ∧ Follows o sessionId sm sm' es := by
  unfold dispatch at h
  split_ifs at h
  · cases h
    exact ⟨hs, follows_rfl rfl recvDiscovery_label⟩
  · unfold acceptClient at h
    split_ifs at h <;> cases h <;> exact ⟨hs, follows_rfl rfl rfl⟩
  · unfold readClient at h
    cases houtcome : recvPdu sm.unlock.tcpSock env.pdu with
    | error e =>
      rw [houtcome] at h
      cases h
      exact ⟨hs, follows_rfl rfl rfl⟩
    | ok d =>
      rw [houtcome] at h
      rcases hd : sm.unlock.distribute d.sessionId d.data.bytes d.type env.uninit env.last with
        ⟨sm₁, es₁⟩
      simp only [hd] at h
      cases h
      have hunlock : sm.unlock.Running := hs
      obtain ⟨hs₁, bs, hbs⟩ := distribute_follows sessionId hunlock _ _ _ _ _ hd
      exact ⟨hs₁, bs, hbs⟩
  · cases h
    exact ⟨hs, follows_rfl rfl rfl⟩

theorem step_follows (sessionId : UInt32) (hs : sm.Running) (h : sm.step o a = some (sm', es)) :
    sm'.Running ∧ Follows o sessionId sm sm' es := by
  cases a with
  | iterate env =>
    obtain ⟨-, ready, -, -, heq⟩ | ⟨-, rfl, flags, rfl⟩ := iterate_inv h
    · have htesting : (sm.testing ready).Running := hs
      obtain ⟨hs', bs, hbs⟩ := dispatch_follows sessionId htesting heq
      exact ⟨hs', bs, hbs⟩
    · exact ⟨hs, follows_rfl rfl rfl⟩
  | listen sock =>
    cases h
    exact ⟨hs, follows_rfl rfl rfl⟩
  | session id b => exact sessionStep_follows sessionId hs h

/-- For each session id, the server is a slot for a session. -/
theorem projects (o : ByteOrder) (sessionId : UInt32) :
    (machine o).Projects (ServerSession.slot o sessionId) Running (sessionOf sessionId)
      (MasterEvent.label sessionId) where
  inv _ _ _ _ hs h := (step_follows sessionId hs h).1
  step _ _ _ _ hs h := (step_follows sessionId hs h).2

section Runs

variable {udpSock : ℤ} {localInterfaces : List CString} {fds : ℕ → ℤ} {as : List MasterAct}

theorem running_start : (start udpSock localInterfaces fds).Running := fun _ _ h => by cases h

/-- In every run of the server in which each session has one thread, what happens to a session id is
the lives of its sessions: each begins with a REQUEST_MSG and is a run of a session with the
messages it is given, each but the last is cleared when `run` is done, and the session in the table,
if there is one, is at the end of the last. -/
theorem sessions_live
    (hrun : (machine o).run (start udpSock localInterfaces fds) as = some (sm, es))
    (sessionId : UInt32) :
    ∃ past present, EventMachine.Lives (ServerSession.traffic o)
      (ServerSession.ofOpening sessionId) (·.request) (·.runPc.isDone)
      (sm.sessionOf sessionId) (es.filterMap (MasterEvent.label sessionId)) past present := by
  obtain ⟨-, bs, hslot⟩ := (projects o sessionId).run running_start hrun
  exact EventMachine.slot_lives hslot

end Runs

end ServerMaster

namespace ServerThreads

/-- In every run of the process in which each call of `distribute` returns only after its thread has
read its parameters, and each step stays inside its memory, the process stays defined, and what
happens to a session id is the lives of its sessions. -/
theorem threads_live {o : ByteOrder} {udpSock : ℤ} {localInterfaces : List CString} {fds : ℕ → ℤ}
    {stack : ℕ → SessionRunParms} {as : List (ThreadsAct × List ThreadsEvent)}
    {t : Option ServerThreads} {es : List ThreadsEvent}
    (hok : (machine o).Guarded (Sound o) (start (.start udpSock localInterfaces fds) stack)
      (as.map Prod.fst))
    (hrun : (process o).run (some (start (.start udpSock localInterfaces fds) stack)) as =
      some (t, es)) :
    ∃ s, t = some s ∧ ∀ sessionId, ∃ past present,
      EventMachine.Lives (ServerSession.traffic o) (ServerSession.ofOpening sessionId) (·.request)
        (·.runPc.isDone) (s.server.sessionOf sessionId)
        ((es.filterMap ThreadsEvent.master?).filterMap (MasterEvent.label sessionId))
        past present := by
  obtain ⟨s, rfl, -, bs, hbs⟩ := server_run hok hrun
  exact ⟨s, rfl, ServerMaster.sessions_live hbs⟩

/-! ### A sample run -/

/-- The server without a session. -/
def sample : ServerThreads := start (.start 3 [] fun _ => 0) fun _ => .own 0

/-- A client on a new connection makes a request, whose session gets the `k`-th thread; the thread
reads its parameters before `distribute` returns. -/
def connects (k : ℕ) (sock : ℕ) (sessionId : UInt32) : List ThreadsAct :=
  [.iterate (ServerMaster.inputEnv [4] sock none) 0,
    .iterate (ServerMaster.inputEnv [sock] 0 (writePdu
      ((objectiveOf .negotiation valueA 5 0).toBits .little) .requestMsg sessionId
      ⟨.success, 0⟩).2) 0,
    .start (.read k .ss), .start (.read k .sm), .start .ret]

/-- The `k`-th thread takes `n` steps, and its ASA accepts or not; from a session that it clears,
the iterator leads on to the next one. -/
def stepsOf (k n : ℕ) (geq : Bool) : List ThreadsAct :=
  List.replicate n (.run k (ServerSession.answerEnv geq) (some 0))

/-- The first of two clients has its request accepted, and makes another one when its session has
been cleared. -/
def twice : List ThreadsAct :=
  [.listen 4] ++ connects 0 5 7 ++ connects 1 6 8 ++ stepsOf 0 16 true ++
    .wait 7 0 ⟨.success, 0⟩ :: stepsOf 0 1 true ++ connects 2 5 7 ++ stepsOf 2 17 false

theorem twice_sound : (machine .little).Guarded (Sound .little) sample twice := by decide +kernel

/-- Two sessions are in the table, the second life of the first one and the other. -/
theorem threads_own_twice :
    ∃ s es, (process .little).run (some sample) (twice.map (·, [])) = some (some s, es) ∧
      (s.server.ssMap 7).isSome ∧ (s.server.ssMap 8).isSome ∧
      ∀ id ss, s.server.ssMap id = some ss → ∃! k : ℕ, ∃ fr : RunFrame,
        s.frames[k]? = some fr ∧ fr.sessionId = id ∧ fr.runPc.isDone = false := by
  have hsample : ((process .little).run (some sample) (twice.map (·, []))).bind (fun r =>
      r.1.map fun s => ((s.server.ssMap 7).isSome, (s.server.ssMap 8).isSome)) =
        some (true, true) := by
    decide +kernel
  obtain ⟨⟨t, es⟩, hrun, htable⟩ := Option.bind_eq_some_iff.1 hsample
  obtain ⟨s, rfl, hown, -⟩ := threads_own twice_sound hrun
  obtain ⟨hseven, height⟩ := Prod.mk.inj (Option.some.inj htable)
  exact ⟨s, es, hrun, hseven, height, hown⟩

/-- The first session is cleared, while the other one is in the table. -/
theorem clear_ends_twice :
    ∃ s es s' es', (process .little).run (some sample) ((twice.take 28).map (·, [])) =
        some (some s, es) ∧
      s.step .little (.run 0 (ServerSession.answerEnv true) (some 0)) = some (s', es') ∧
      ∃ (ss : SessionEntry) (r r' : Registry), s.server.ssMap 7 = some ss ∧
        ss.session.HelpersDone ∧ r.Represents s.server ∧
          r.clear (some 0) 7 ss.tcpSock = some r' ∧ r'.Represents s'.server := by
  have hsound : (machine .little).Guarded (Sound .little) sample
      (((twice.take 28).map (·, ([] : List ThreadsEvent))).map Prod.fst) := by decide +kernel
  have hsample : ((process .little).run (some sample) ((twice.take 28).map (·, []))).bind (fun r =>
      r.1.bind fun s => (s.step .little (.run 0 (ServerSession.answerEnv true) (some 0))).map
        fun r' => (decide (s.Sound .little (.run 0 (ServerSession.answerEnv true) (some 0))),
          r'.2.any fun | .master (.cleared id) => id = 7 | _ => false)) = some (true, true) := by
    decide +kernel
  simp only [Option.bind_eq_some_iff, Option.map_eq_some_iff, Prod.exists, Prod.mk.injEq,
    decide_eq_true_eq, List.any_eq_true] at hsample
  obtain ⟨_, es, hrun, s, rfl, s', es', hstep, ha, e, he, hcleared⟩ := hsample
  obtain ⟨_, hs, hends⟩ := clear_ends hsound hrun
  cases hs
  refine ⟨s, es, s', es', hrun, hstep, hends 0 _ _ s' es' 7 ha hstep ?_⟩
  split at hcleared
  · rwa [of_decide_eq_true hcleared] at he
  · cases hcleared

theorem threads_live_twice :
    ∃ s es, (process .little).run (some sample) (twice.map (·, [])) = some (some s, es) ∧
      ((es.filterMap ThreadsEvent.master?).filterMap (MasterEvent.label 7)).length = 9 ∧
      ∃ past present, EventMachine.Lives (ServerSession.traffic .little)
        (ServerSession.ofOpening 7) (·.request) (·.runPc.isDone) (s.server.sessionOf 7)
        ((es.filterMap ThreadsEvent.master?).filterMap (MasterEvent.label 7)) past present := by
  have hsample : ((process .little).run (some sample) (twice.map (·, []))).map (fun r =>
      ((r.2.filterMap ThreadsEvent.master?).filterMap (MasterEvent.label 7)).length) = some 9 := by
    decide +kernel
  obtain ⟨⟨t, es⟩, hrun, hlen⟩ := Option.map_eq_some_iff.1 hsample
  obtain ⟨s, rfl, hlives⟩ := threads_live twice_sound hrun
  exact ⟨s, es, hrun, hlen, hlives 7⟩

end ServerThreads

end Gdnp
