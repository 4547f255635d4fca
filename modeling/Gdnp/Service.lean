import Gdnp.Lib.Service
import Gdnp.Lifelong

/-!
# Every message is popped in bounded time

The session thread takes at most 17 steps from one message in its queue to the next (`step_rank`),
and it is never stuck (`Ready`).  So whatever the loop, the helper threads and the other sessions do
in between, all that is in the queue of a session has been popped after 17 steps of its thread for
each message, unless the session was cleared (`session_served`).
-/

open CMem

namespace Gdnp

/-- The steps from here until the session thread pops the next message, if there is one, or is
over. -/
def RunPc.rank : RunPc → ℕ
  | done => 0
  | pop | close => 1
  | setIdleCheck => 2
  | checkQueue => 3
  | head => 4
  | afterSend _ => 5
  | sendLaunchEnd => 6
  | sendClearIdleCheck => 7
  | sendSetState _ _ => 8
  | sendWrite _ _ => 9
  | sendSwitch _ _ => 10
  | decide _ _ => 11
  | setIdle _ _ => 12
  | upper _ => 13
  | checkEnd _ => 14
  | launchWait _ => 15
  | writeState _ _ => 16
  | setState _ => 17

theorem RunPc.rank_le (pc : RunPc) : pc.rank ≤ 17 := by
  cases pc <;> simp [rank]

theorem RunPc.rank_pos {pc : RunPc} (h : pc.isDone = false) : 0 < pc.rank := by
  cases pc with
  | done => cases h
  | _ => simp [rank]

def SessionAct.isRun : SessionAct → Bool
  | run _ => true
  | _ => false

/-- A step of the session thread of the id. -/
def MasterAct.runs (id : UInt32) : MasterAct → Bool
  | session sessionId a => sessionId = id && a.isRun
  | _ => false

/-- The message that a session pops. -/
def SlotEvent.popped? : EventMachine.SlotEvent Content SessionLabel → Option Content
  | .did (.did e) => (ServerSession.popped? e).map Prod.fst
  | _ => none

namespace ServerSession

variable {o : ByteOrder} {s s' : ServerSession} {a : SessionAct} {es : List SessionEvent}

/-- Unless the queue is empty, a step of the session thread comes closer to the next message, or
pops it. -/
theorem runStep_rank {env : RunEnv} (h : s.runStep o env = some (s', es)) (hq : s.q ≠ []) :
    s'.runPc.rank + 1 ≤ s.runPc.rank + 17 * (es.filterMap popped?).length := by
  cases runStep_cases h with
  | queueEmpty pc hnil => exact absurd hnil hq
  | popSkip pc _ _ =>
    rw [pc]
    show 4 + 1 ≤ 1 + 17 * 1
    decide
  | pop pc _ _ =>
    rw [pc]
    show 17 + 1 ≤ 1 + 17 * 1
    decide
  | sendRefused pc _ | sendFails pc _ | sendNego pc _ _ | sendEnd pc _ _ =>
    rw [pc]
    simp only [RunPc.rank]
    omega
  | _ => simp_all [RunPc.rank]

theorem step_rank (h : s.step o a = some (s', es)) (hq : s.q ≠ []) :
    s'.runPc.rank + (if a.isRun then 1 else 0) ≤
      s.runPc.rank + 17 * (es.filterMap popped?).length := by
  obtain ⟨env, rfl⟩ | ha := a.run_or
  · exact runStep_rank h hq
  · have hrun : a.isRun = false := by
      cases a with
      | run env => exact absurd rfl (ha env)
      | _ => rfl
    rw [(step_runPc h ha).1, hrun]
    exact Nat.le_add_right _ _

/-- Where the session thread is about to pop there is a message. -/
def Ready (s : ServerSession) : Prop :=
  s.runPc = .setIdleCheck ∨ s.runPc = .pop → s.q ≠ []

theorem ready_new (sessionId : UInt32) (c last : Content) : (new sessionId c last).Ready := by
  rintro -
  exact List.cons_ne_nil c []

theorem runStep_ready {env : RunEnv} (h : s.runStep o env = some (s', es)) (hs : s.Ready) :
    s'.Ready := by
  unfold Ready at hs ⊢
  cases runStep_cases h <;> simp_all

/-- Nobody else takes messages from the queue. -/
theorem step_ready (h : s.step o a = some (s', es)) (hs : s.Ready) : s'.Ready := by
  cases a with
  | push c =>
    cases h
    intro _ hnil
    cases List.append_eq_nil_iff.1 hnil with | intro _ hc => cases hc
  | run env => exact runStep_ready h hs
  | wait k env =>
    obtain ⟨t, t', -, -, rfl⟩ := step_wait_iff.1 h
    exact hs
  | ends k =>
    obtain ⟨t, t', s₁, -, hstep, rfl, -⟩ := step_ends_iff.1 h
    obtain rfl | rfl | ⟨-, rfl⟩ := endStep_cases hstep <;> exact hs

/-- A session thread that is ready can go on. -/
theorem Ready.runStep_isSome (hs : s.Ready) (hdone : s.runPc.isDone = false) (env : RunEnv) :
    (s.runStep o env).isSome :=
  ServerSession.runStep_isSome hdone (fun hpc => hs (.inr hpc)) env

end ServerSession

namespace ServerMaster

variable {o : ByteOrder} {sm sm' : ServerMaster} {a : MasterAct} {es : List MasterEvent}
  {env : LoopEnv} {id : UInt32} {s : ServerSession}

/-! ### What a step of the server does to a session -/

/-- What a step does to a session `s` in the table: it leaves it alone, gives it a message, or is a
step of one of its threads, with the last of which the session is cleared. -/
inductive Moves (o : ByteOrder) (id : UInt32) (s : ServerSession) : MasterAct →
    Option ServerSession → List (EventMachine.SlotEvent Content SessionLabel) → Prop
  | keeps {a : MasterAct} (ha : ∀ b, a ≠ .session id b) : Moves o id s a (some s) []
  | pushes {a : MasterAct} {c : Content} (ha : ∀ b, a ≠ .session id b) (hc : c.type ≠ .requestMsg) :
    Moves o id s a (some { s with q := s.q ++ [c] }) [.did (.pushed c)]
  | thread {b : SessionAct} {s' : ServerSession} {es : List SessionEvent} (hb : ∀ c, b ≠ .push c)
      (hstep : s.step o b = some (s', es)) (hdone : s'.runPc.isDone = false) :
    Moves o id s (.session id b) (some s') (es.map (.did ∘ .did))
  | clears {b : SessionAct} {s' : ServerSession} (hb : ∀ c, b ≠ .push c)
      (hstep : s.step o b = some (s', [])) (hdone : s'.runPc.isDone = true) :
    Moves o id s (.session id b) none [.ended]

theorem sessionOf_clear_self {tcpSock : ℤ} :
    (sm.clearWhenSessionEnd id tcpSock).sessionOf id = none := by
  show (Function.update sm.ssMap id none id).map _ = none
  rw [Function.update_self]
  rfl

theorem sessionOf_clear_of_ne {sessionId : UInt32} {tcpSock : ℤ} (h : id ≠ sessionId) :
    (sm.clearWhenSessionEnd sessionId tcpSock).sessionOf id = sm.sessionOf id := by
  show (Function.update sm.ssMap sessionId none id).map _ = _
  rw [Function.update_of_ne h]
  rfl

theorem distribute_moves (hs : sm.sessionOf id = some s) {sessionId : UInt32}
    {buffer : List UInt8} {type : MsgType} {uninit : CharArray maxStringLength} {last : Content}
    (ha : ∀ b, a ≠ .session id b)
    (h : sm.distribute sessionId buffer type uninit last = (sm', es)) :
    Moves o id s a (sm'.sessionOf id) (es.filterMap (MasterEvent.label id)) := by
  have hkeeps : Moves o id s a (some s) [] := .keeps ha
  obtain ⟨ss₀, hss₀, rfl⟩ := Option.map_eq_some_iff.1 hs
  unfold distribute at h
  split at h
  case h_1 ss hss =>
    split_ifs at h with ht <;> cases h
    · rw [hs]
      exact hkeeps
    · by_cases hid : sessionId = id
      · subst hid
        cases hss₀.symm.trans hss
        rw [sessionOf_setEntry_self]
        simpa [MasterEvent.label] using Moves.pushes (o := o) ha ht
      · rw [sessionOf_setEntry_of_ne (Ne.symm hid), hs]
        simpa [MasterEvent.label, hid] using hkeeps
  case h_2 hss =>
    split_ifs at h with ht <;> cases h
    · rw [hs]
      exact hkeeps
    · have hid : sessionId ≠ id := by
        rintro rfl
        cases hss₀.symm.trans hss
      rw [sessionOf_setEntry_of_ne (Ne.symm hid), hs]
      simpa [MasterEvent.label, hid] using hkeeps

theorem dispatch_moves (hs : sm.sessionOf id = some s) (ha : ∀ b, a ≠ .session id b)
    (h : sm.dispatch o env = (sm', es)) :
    Moves o id s a (sm'.sessionOf id) (es.filterMap (MasterEvent.label id)) := by
  have hkeeps : Moves o id s a (sm.sessionOf id) [] := by
    rw [hs]
    exact .keeps ha
  unfold dispatch at h
  split_ifs at h
  · cases h
    rw [recvDiscovery_label]
    exact hkeeps
  · unfold acceptClient at h
    split_ifs at h <;> cases h <;> exact hkeeps
  · unfold readClient at h
    cases houtcome : recvPdu sm.unlock.tcpSock env.pdu with
    | error e =>
      rw [houtcome] at h
      cases h
      exact hkeeps
    | ok d =>
      rw [houtcome] at h
      rcases hd : sm.unlock.distribute d.sessionId d.data.bytes d.type env.uninit env.last with
        ⟨sm₁, es₁⟩
      simp only [hd] at h
      cases h
      have hunlock : sm.unlock.sessionOf id = some s := hs
      have hmoves := distribute_moves (o := o) hunlock ha hd
      exact hmoves
  · cases h
    exact hkeeps

/-- Every step does one of these to a session in the table. -/
theorem step_moves (hs : sm.sessionOf id = some s) (hrunning : s.runPc.isDone = false)
    (h : sm.step o a = some (sm', es)) :
    Moves o id s a (sm'.sessionOf id) (es.filterMap (MasterEvent.label id)) := by
  cases a with
  | iterate env =>
    have hne : ∀ b, MasterAct.iterate env ≠ .session id b := fun _ he => by cases he
    obtain ⟨-, ready, -, -, heq⟩ | ⟨-, rfl, flags, rfl⟩ := iterate_inv h
    · have htesting : (sm.testing ready).sessionOf id = some s := hs
      exact dispatch_moves htesting hne heq
    · have hsame : sessionOf id { sm with readFlags := flags } = some s := hs
      rw [hsame]
      exact .keeps hne
  | listen sock =>
    have hne : ∀ b, MasterAct.listen sock ≠ .session id b := fun _ he => by cases he
    cases h
    have hsame : (sm.listenNegotiate sock).sessionOf id = some s := hs
    rw [hsame]
    exact .keeps hne
  | session sessionId b =>
    have hpush : ∀ c, b ≠ .push c := by
      rintro c rfl
      cases h
    obtain ⟨ss, hss, h⟩ := Option.bind_eq_some_iff.1 (step_session h)
    obtain ⟨⟨s', ses⟩, hstep, h⟩ := Option.map_eq_some_iff.1 h
    by_cases hid : sessionId = id
    · subst hid
      obtain rfl : ss.session = s := by
        rw [sessionOf, hss] at hs
        exact Option.some.inj hs
      split_ifs at h with hdone <;> cases h
      · rw [ServerSession.step_isDone hstep hrunning hdone] at hstep
        rw [sessionOf_clear_self]
        have hclears : Moves o sessionId ss.session (.session sessionId b) none [.ended] :=
          .clears hpush hstep hdone
        simpa [MasterEvent.label] using hclears
      · rw [sessionOf_setEntry_self, filterMap_label_session, if_pos rfl]
        exact .thread hpush hstep (Bool.eq_false_of_not_eq_true hdone)
    · have hne : ∀ b', MasterAct.session sessionId b ≠ .session id b' := by
        rintro b' he
        cases he
        exact hid rfl
      split_ifs at h with hdone <;> cases h
      · rw [sessionOf_clear_of_ne (Ne.symm hid), hs]
        simpa [MasterEvent.label, hid] using Moves.keeps (o := o) (s := s) hne
      · rw [sessionOf_setEntry_of_ne (Ne.symm hid), hs, filterMap_label_session, if_neg hid]
        exact .keeps hne

/-! ### The queue of a session -/

def queueOf (id : UInt32) (sm : ServerMaster) : List Content := (sm.sessionOf id).elim [] (·.q)

def rankOf (id : UInt32) (sm : ServerMaster) : ℕ := (sm.sessionOf id).elim 0 (·.runPc.rank)

/-- The session of the id is in the table. -/
def Hosting (id : UInt32) (sm : ServerMaster) : Prop :=
  ∃ s, sm.sessionOf id = some s ∧ s.runPc.isDone = false

theorem mem_label_ended : .ended ∈ es.filterMap (MasterEvent.label id) ↔ .cleared id ∈ es := by
  rw [List.mem_filterMap]
  constructor
  · rintro ⟨e, he, hlabel⟩
    cases e with
    | cleared sessionId =>
      rw [MasterEvent.label] at hlabel
      split_ifs at hlabel with hid
      rwa [← hid]
    | _ =>
      simp only [MasterEvent.label] at hlabel
      try split_ifs at hlabel
      all_goals cases hlabel
  · intro he
    exact ⟨_, he, if_pos rfl⟩

theorem filterMap_popped?_label : es.filterMap (MasterEvent.popped? id) =
    (es.filterMap (MasterEvent.label id)).filterMap SlotEvent.popped? := by
  rw [List.filterMap_filterMap]
  refine List.filterMap_congr fun e _ => ?_
  cases e <;> simp only [MasterEvent.popped?, MasterEvent.label] <;> try split_ifs
  all_goals rfl

theorem runs_of_ne (ha : ∀ b, a ≠ .session id b) : a.runs id = false := by
  cases a with
  | session sessionId b =>
    have hid : sessionId ≠ id := by
      rintro rfl
      exact ha b rfl
    simp [MasterAct.runs, hid]
  | _ => rfl

/-- The session thread serves its queue. -/
theorem serves (o : ByteOrder) (id : UInt32) : (machine o).Serves (Hosting id) (· = .cleared id)
    (MasterAct.runs id) (queueOf id) (MasterEvent.popped? id) (rankOf id) 17 where
  step := by
    rintro sm a sm' es ⟨s, hs, hrunning⟩ h
    have hmoves := step_moves hs hrunning h
    have hqueue : queueOf id sm = s.q := by rw [queueOf, hs]; rfl
    have hrank : rankOf id sm = s.runPc.rank := by rw [rankOf, hs]; rfl
    rw [filterMap_popped?_label, hqueue, hrank, queueOf, rankOf, Hosting]
    by_cases hcleared : .cleared id ∈ es
    · exact .inl ⟨_, hcleared, rfl⟩
    rw [← mem_label_ended] at hcleared
    right
    generalize sm'.sessionOf id = s?, es.filterMap (MasterEvent.label id) = ls at hmoves hcleared ⊢
    cases hmoves with
    | keeps ha =>
      refine ⟨⟨s, rfl, hrunning⟩, ⟨[], by simp⟩, fun _ => ?_⟩
      rw [runs_of_ne ha]
      exact Nat.le_add_right _ _
    | pushes ha hc =>
      refine ⟨⟨_, rfl, hrunning⟩, ⟨_, rfl⟩, fun _ => ?_⟩
      rw [runs_of_ne ha]
      exact Nat.le_add_right _ _
    | @thread b s' ses hb hstep hdone =>
      have hpopped : (ses.map (.did ∘ .did)).filterMap SlotEvent.popped? =
          (ses.filterMap ServerSession.popped?).map Prod.fst := by
        rw [List.filterMap_map, List.map_filterMap]
        rfl
      rw [hpopped, List.length_map]
      refine ⟨⟨s', rfl, hdone⟩, ⟨[], ?_⟩, fun hq => ?_⟩
      · rw [List.append_nil]
        exact ServerSession.step_queue hstep hb
      · simp only [MasterAct.runs, decide_true, Bool.true_and]
        exact ServerSession.step_rank hstep hq
    | clears => exact absurd (List.mem_singleton_self _) hcleared
  pos := by
    rintro sm ⟨s, hs, hrunning⟩
    rw [rankOf, hs]
    exact RunPc.rank_pos hrunning
  le sm := by
    rw [rankOf]
    cases sm.sessionOf id with
    | none => exact Nat.zero_le _
    | some s => exact s.runPc.rank_le

section Runs

variable {udpSock : ℤ} {localInterfaces : List CString} {fds : ℕ → ℤ} {as bs : List MasterAct}
  {es' : List MasterEvent}

/-- What holds of a new session and is kept by its steps holds of all sessions in the table. -/
theorem sessionOf_invariant {I : ServerSession → Prop}
    (hnew : ∀ sessionId c last, I (.new sessionId c last))
    (hstep : ∀ s a s' es, I s → ServerSession.step o s a = some (s', es) → I s')
    (hreach : (machine o).run (start udpSock localInterfaces fds) as = some (sm, es))
    (hs : sm.sessionOf id = some s) : I s := by
  have hlife : EachLife o sm es fun _ l => I l.state := by
    refine eachLife (fun sessionId l hl => ?_) hreach
    obtain ⟨bs, hbs, -, -⟩ := SessionLife.life_run hl
    exact EventMachine.run_invariant hstep (hnew _ _ _) hbs
  obtain ⟨past, present, hlives, hall⟩ := hlife id
  obtain ⟨l, hpresent, rfl⟩ := Option.map_eq_some_iff.1 (hlives.state.trans hs)
  exact hall l (List.mem_append_right _ (Option.mem_toList.2 hpresent))

/-- In every state that the server reaches, the thread of a session can go on; and when it has taken
17 steps for each message in its queue, it has popped all of them, in order, or the session was
cleared, whatever the loop, the helper threads and the other sessions do in between. -/
theorem session_served
    (hreach : (machine o).run (start udpSock localInterfaces fds) as = some (sm, es))
    (hs : sm.sessionOf id = some s) :
    (∀ env, (sm.step o (.session id (.run env))).isSome) ∧
      ∀ bs sm' es', (machine o).run sm bs = some (sm', es') →
        17 * s.q.length ≤ bs.countP (MasterAct.runs id) →
        .cleared id ∈ es' ∨ s.q <+: es'.filterMap (MasterEvent.popped? id) := by
  obtain ⟨ss, hss, rfl⟩ := Option.map_eq_some_iff.1 hs
  have hrunning : ss.session.runPc.isDone = false :=
    ((projects o id).run running_start hreach).1 id ss hss
  refine ⟨fun env => ?_, fun bs sm' es' hrun hlong => ?_⟩
  · have hready : ss.session.Ready := sessionOf_invariant ServerSession.ready_new
      (fun _ _ _ _ hs h => ServerSession.step_ready h hs) hreach hs
    obtain ⟨⟨s', ses⟩, hstep⟩ :=
      Option.isSome_iff_exists.1 (hready.runStep_isSome (o := o) hrunning env)
    have hstep : ss.session.step o (.run env) = some (s', ses) := hstep
    simp only [step, sessionStep, hss, Option.bind_some, hstep, Option.map_some, Option.isSome_some]
  · have hqueue : queueOf id sm = ss.session.q := by rw [queueOf, hs]; rfl
    rw [← hqueue] at hlong ⊢
    obtain ⟨_, he, rfl⟩ | hserved := (serves o id).run_served ⟨_, hs, hrunning⟩ hlong hrun
    · exact .inl he
    · exact .inr hserved

end Runs

end ServerMaster

/-! ### The threads -/

namespace ServerThreads

variable {o : ByteOrder} {s s' : ServerThreads} {a : ThreadsAct} {es : List ThreadsEvent}

/-- A step of a thread that was started for a session with the id. -/
def stepsFor (id : UInt32) (s : ServerThreads) : ThreadsAct → Bool
  | .run k _ _ => (s.frames[k]?).any (·.sessionId = id)
  | _ => false

theorem countP_masterAct? (id : UInt32) :
    (s.masterAct? a).toList.countP (MasterAct.runs id) = if s.stepsFor id a then 1 else 0 := by
  cases a with
  | run k env next =>
    cases hk : s.frames[k]? <;> simp [masterAct?, stepsFor, hk, MasterAct.runs, SessionAct.isRun]
  | _ => simp [masterAct?, stepsFor, MasterAct.runs, SessionAct.isRun]

/-- The steps of the threads are those of the sessions. -/
theorem Inv.run_countP (hs : s.Inv) {as : List ThreadsAct} (id : UInt32)
    (hok : (machine o).Guarded (Sound o) s as) (hrun : (machine o).run s as = some (s', es)) :
    ∃ bs, (ServerMaster.machine o).run s.server bs =
        some (s'.server, es.filterMap ThreadsEvent.master?) ∧
      bs.countP (MasterAct.runs id) = (machine o).countSteps (stepsFor id) s as := by
  induction as generalizing s es with
  | nil =>
    obtain ⟨rfl, rfl⟩ := EventMachine.run_nil_iff.1 hrun
    exact ⟨[], rfl, rfl⟩
  | cons a as ih =>
    obtain ⟨s₁, es₁, es₂, h₁, h₂, rfl⟩ := EventMachine.run_cons_iff.1 hrun
    obtain ⟨ha, hrest⟩ := (EventMachine.guarded_cons_iff h₁).1 hok
    obtain ⟨hs₁, hfirst⟩ := hs.step ha h₁
    obtain ⟨bs, hbs, hcount⟩ := ih hs₁ hrest h₂
    refine ⟨(s.masterAct? a).toList ++ bs, ?_, ?_⟩
    · rw [List.filterMap_append]
      exact EventMachine.run_append_iff.2 ⟨_, _, _, hfirst, hbs, rfl⟩
    · rw [List.countP_append, countP_masterAct?, hcount, EventMachine.countSteps, h₁]

/-- In every state that the process reaches, as long as each session has its thread, a thread that
has read its parameters can go on; and when it has taken 17 steps for each message in the queue of
its session, it has popped all of them, in order, or the session was cleared, whatever the others do
in between. -/
theorem thread_served {udpSock : ℤ} {localInterfaces : List CString} {fds : ℕ → ℤ}
    {stack : ℕ → SessionRunParms} {as : List (ThreadsAct × List ThreadsEvent)}
    {t : Option ServerThreads}
    (hok : (machine o).Guarded (Sound o) (start (.start udpSock localInterfaces fds) stack)
      (as.map Prod.fst))
    (hrun : (process o).run (some (start (.start udpSock localInterfaces fds) stack)) as =
      some (t, es)) :
    ∃ s, t = some s ∧ ∀ k id ss, s.runs? k = some (id, ss) →
      (∀ env next, ((machine o).step s (.run k env next)).isSome) ∧
      ∀ bs t' es', (machine o).Guarded (Sound o) s (bs.map Prod.fst) →
        (process o).run (some s) bs = some (t', es') →
        17 * ss.session.q.length ≤ (machine o).countSteps (stepsFor id) s (bs.map Prod.fst) →
        .master (.cleared id) ∈ es' ∨ ss.session.q <+:
          (es'.filterMap ThreadsEvent.master?).filterMap (MasterEvent.popped? id) := by
  obtain ⟨s, rfl, hs, as', has⟩ := server_run hok hrun
  refine ⟨s, rfl, fun k id ss hp => ?_⟩
  obtain ⟨-, fr, -, -, -, -, -, rfl, hss⟩ := hs.runs?_eq_some_iff.1 hp
  have hsession : s.server.sessionOf fr.sessionId = some ss.session := by
    rw [ServerMaster.sessionOf, hss]
    rfl
  obtain ⟨hcan, hserved⟩ := ServerMaster.session_served has hsession
  refine ⟨fun env next => ?_, fun bs t' es' hok' hrun' hlong => ?_⟩
  · obtain ⟨⟨sm', ses⟩, hstep⟩ := Option.isSome_iff_exists.1 (hcan env)
    exact Option.isSome_iff_exists.2 ⟨_, hs.runStep_of_runs? hp hstep⟩
  · obtain ⟨s', rfl, -, hmachine⟩ := hs.run hok' hrun'
    obtain ⟨ms, hms, hcount⟩ := hs.run_countP fr.sessionId hok' hmachine
    obtain hcleared | hpopped := hserved ms _ _ hms (by rw [hcount]; exact hlong)
    · obtain ⟨e, he, hlabel⟩ := List.mem_filterMap.1 hcleared
      cases e with
      | master e =>
        cases hlabel
        exact .inl he
      | start e => cases hlabel
    · exact .inr hpopped

/-- A client makes a request. -/
def requesting : List ThreadsAct := [.listen 4] ++ connects 0 5 7

/-- The request is handled while the loop waits. -/
theorem thread_served_request :
    ∃ s es ss t' es', (process .little).run (some sample) (requesting.map (·, [])) =
        some (some s, es) ∧
      s.runs? 0 = some (7, ss) ∧ ss.session.q.length = 1 ∧
      (process .little).run (some s) ((stepsOf 0 17 false).map (·, [])) = some (t', es') ∧
      (.master (.cleared 7) ∈ es' ∨ ss.session.q <+:
        (es'.filterMap ThreadsEvent.master?).filterMap (MasterEvent.popped? 7)) := by
  let after : List ThreadsAct :=
    ((stepsOf 0 17 false).map (·, ([] : List ThreadsEvent))).map Prod.fst
  have hsound : (machine .little).Guarded (Sound .little) sample
      ((requesting.map (·, ([] : List ThreadsEvent))).map Prod.fst) := by decide +kernel
  have hsample : ((process .little).run (some sample) (requesting.map (·, []))).bind
      (fun r => r.1.bind fun s => ((process .little).run (some s)
        ((stepsOf 0 17 false).map (·, []))).bind fun _ => (s.runs? 0).map fun p =>
          (p.1, p.2.session.q.length, (machine .little).countSteps (stepsFor 7) s after,
            decide ((machine .little).Guarded (Sound .little) s after))) =
      some (7, 1, 17, true) := by decide +kernel
  simp only [Option.bind_eq_some_iff, Option.map_eq_some_iff, Prod.exists, Prod.mk.injEq,
    decide_eq_true_eq] at hsample
  obtain ⟨t, es, hreach, s, rfl, t', es', hrun, id, ss, hp, rfl, hlen, hcount, hsound'⟩ := hsample
  refine ⟨s, es, ss, t', es', hreach, hp, hlen, hrun, ?_⟩
  obtain ⟨_, hs, hserved⟩ := thread_served hsound hreach
  cases hs
  refine (hserved 0 _ ss hp).2 _ t' es' hsound' hrun ?_
  rw [hlen]
  exact hcount.ge

end ServerThreads

end Gdnp
