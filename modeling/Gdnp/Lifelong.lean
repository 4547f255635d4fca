import Gdnp.Distribute
import Gdnp.Lives
import Gdnp.LoopCount
import Gdnp.Processing
import Gdnp.Replies
import Gdnp.Token

/-!
# What every session of a server keeps to

A life of a session is a run from its REQUEST_MSG on (`life_run`), so what holds of every such run
holds of every life of every session id of a server whose sessions have a thread each
(`ServerMaster.eachLife`), and so of its process (`ServerThreads.eachLife`).

A session pops what it is given in order, no second REQUEST_MSG among it, and is cleared in
SESSION_END only (`lives_in_order`).  What it writes on the connection carries its id; all but
WAIT_MSGs answer offers it took, in their order and each at most once, by the decision rule of `run`
(`lives_answer`).  It starts a wait thread at most for each offer it takes and an end thread for
each NEGO_MSG it writes (`lives_threads`).
-/

open CMem

namespace Gdnp

abbrev SessionLife := EventMachine.Life Opening ServerSession SessionLabel

def SessionLabel.event? : SessionLabel → Option SessionEvent
  | did e => some e
  | pushed _ => none

def SessionLabel.arrived? : SessionLabel → Option Content
  | did _ => none
  | pushed c => some c

def SessionAct.arrived? : SessionAct → Option Content
  | push c => some c
  | _ => none

namespace SessionLife

/-- What the threads of the session did. -/
def did (l : SessionLife) : List SessionEvent := l.events.filterMap SessionLabel.event?

/-- The messages the session was given, the REQUEST_MSG first. -/
def arrivals (l : SessionLife) : List Content :=
  l.birth.request :: l.events.filterMap SessionLabel.arrived?

end SessionLife

namespace ServerSession

variable {o : ByteOrder} {s s' : ServerSession} {a : SessionAct} {es : List SessionEvent}

theorem filterMap_event?_did (es : List SessionEvent) :
    (es.map SessionLabel.did).filterMap SessionLabel.event? = es := by
  rw [List.filterMap_map]
  exact List.filterMap_some

theorem filterMap_arrived?_did (es : List SessionEvent) :
    (es.map SessionLabel.did).filterMap SessionLabel.arrived? = [] := by
  rw [List.filterMap_map, List.filterMap_eq_nil_iff]
  exact fun _ _ => rfl

/-- What can be seen of a step is the message it is given, or what its threads do. -/
theorem traffic_cases {ls : List SessionLabel} (h : (traffic o).step s a = some (s', ls)) :
    s.step o a = some (s', ls.filterMap SessionLabel.event?) ∧
      [a].filterMap SessionAct.arrived? = ls.filterMap SessionLabel.arrived? ∧
      ∀ c ∈ ls.filterMap SessionLabel.arrived?, c.type ≠ .requestMsg := by
  cases a with
  | push c =>
    simp only [traffic] at h
    split_ifs at h with hc
    obtain ⟨⟨s₁, es⟩, hstep, heq⟩ := Option.map_eq_some_iff.1 h
    cases hstep
    cases heq
    refine ⟨rfl, rfl, fun c' hc' => ?_⟩
    rwa [List.mem_singleton.1 hc']
  | _ =>
    obtain ⟨⟨s₁, es⟩, hstep, heq⟩ := Option.map_eq_some_iff.1 h
    cases heq
    rw [filterMap_event?_did, filterMap_arrived?_did]
    exact ⟨hstep, rfl, by simp⟩

theorem traffic_run {as : List SessionAct} {ls : List SessionLabel}
    (h : (traffic o).run s as = some (s', ls)) :
    (machine o).run s as = some (s', ls.filterMap SessionLabel.event?) ∧
      as.filterMap SessionAct.arrived? = ls.filterMap SessionLabel.arrived? ∧
      ∀ c ∈ ls.filterMap SessionLabel.arrived?, c.type ≠ .requestMsg := by
  induction as generalizing s ls with
  | nil =>
    obtain ⟨rfl, rfl⟩ := EventMachine.run_nil_iff.1 h
    exact ⟨rfl, rfl, by simp⟩
  | cons a as ih =>
    obtain ⟨s₁, ls₁, ls₂, h₁, h₂, rfl⟩ := EventMachine.run_cons_iff.1 h
    obtain ⟨hstep, harrived, htyped⟩ := traffic_cases h₁
    obtain ⟨hrun, harrived', htyped'⟩ := ih h₂
    refine ⟨EventMachine.run_cons_iff.2 ⟨s₁, _, _, hstep, hrun, ?_⟩, ?_, ?_⟩
    · rw [List.filterMap_append]
    · rw [List.filterMap_append, ← harrived, ← harrived', ← List.filterMap_append]
      rfl
    · rw [List.filterMap_append, List.forall_mem_append]
      exact ⟨htyped, htyped'⟩

/-- A session pops what it is given, in order. -/
theorem run_queue {as : List SessionAct} (h : (machine o).run s as = some (s', es)) :
    (es.filterMap popped?).map Prod.fst ++ s'.q = s.q ++ as.filterMap SessionAct.arrived? := by
  induction as generalizing s es with
  | nil =>
    obtain ⟨rfl, rfl⟩ := EventMachine.run_nil_iff.1 h
    simp
  | cons a as ih =>
    obtain ⟨s₁, es₁, es₂, h₁, h₂, rfl⟩ := EventMachine.run_cons_iff.1 h
    have hrest := ih h₂
    by_cases ha : ∃ c, a = .push c
    · obtain ⟨c, rfl⟩ := ha
      cases h₁
      rw [List.nil_append, hrest]
      simp [SessionAct.arrived?]
    · have hfirst := step_queue h₁ fun c hc => ha ⟨c, hc⟩
      have hnone : a.arrived? = none := by
        cases a with
        | push c => exact absurd ⟨c, rfl⟩ ha
        | _ => rfl
      rw [List.filterMap_append, List.map_append, List.append_assoc, hrest, ← List.append_assoc,
        hfirst, List.filterMap_cons_none hnone]

end ServerSession

/-- A life is a run of a session from its REQUEST_MSG on. -/
theorem SessionLife.life_run {o : ByteOrder} {sessionId : UInt32} {l : SessionLife}
    (h : l.IsRun (ServerSession.traffic o) (ServerSession.ofOpening sessionId)) :
    ∃ as, (ServerSession.machine o).run (.new sessionId l.birth.request l.birth.last) as =
        some (l.state, l.did) ∧
      l.birth.request :: as.filterMap SessionAct.arrived? = l.arrivals ∧
      ∀ c ∈ l.arrivals.tail, c.type ≠ .requestMsg := by
  obtain ⟨as, has⟩ := h
  obtain ⟨hrun, harrived, htyped⟩ := ServerSession.traffic_run has
  exact ⟨as, hrun, by rw [harrived]; rfl, htyped⟩

namespace ServerMaster

variable {o : ByteOrder} {sm : ServerMaster} {es : List MasterEvent}

/-- What happened to each session id is lives with the property. -/
def EachLife (o : ByteOrder) (sm : ServerMaster) (es : List MasterEvent)
    (P : UInt32 → SessionLife → Prop) : Prop :=
  ∀ sessionId, ∃ past present, EventMachine.Lives (ServerSession.traffic o)
    (ServerSession.ofOpening sessionId) (·.request) (·.runPc.isDone)
    (sm.sessionOf sessionId) (es.filterMap (MasterEvent.label sessionId)) past present ∧
    ∀ l ∈ past ++ present.toList, P sessionId l

/-- What holds of every run of a session holds of every life, when each session has one thread. -/
theorem eachLife {P : UInt32 → SessionLife → Prop} {udpSock : ℤ}
    {localInterfaces : List CString} {fds : ℕ → ℤ} {as : List MasterAct}
    (hP : ∀ (sessionId : UInt32) (l : SessionLife),
      l.IsRun (ServerSession.traffic o) (ServerSession.ofOpening sessionId) → P sessionId l)
    (hrun : (machine o).run (start udpSock localInterfaces fds) as = some (sm, es)) :
    EachLife o sm es P := by
  intro sessionId
  obtain ⟨past, present, hlives⟩ := sessions_live hrun sessionId
  refine ⟨past, present, hlives, fun l hl => hP sessionId l ?_⟩
  rcases List.mem_append.1 hl with hl | hl
  · exact (hlives.past_isRun l hl).1
  · exact hlives.present_isRun l (Option.mem_toList.1 hl)

end ServerMaster

namespace ServerThreads

section Runs

variable {o : ByteOrder} {udpSock : ℤ} {localInterfaces : List CString} {fds : ℕ → ℤ}
  {stack : ℕ → SessionRunParms} {as : List (ThreadsAct × List ThreadsEvent)}
  {t : Option ServerThreads} {es : List ThreadsEvent}

/-- The process is defined, and each life of a session has the property. -/
def EachLife (o : ByteOrder) (t : Option ServerThreads) (es : List ThreadsEvent)
    (P : UInt32 → SessionLife → Prop) : Prop :=
  ∃ s, t = some s ∧ s.server.EachLife o (es.filterMap ThreadsEvent.master?) P

/-- What holds of every run of a session holds of every life, as long as each session has its
thread. -/
theorem eachLife {P : UInt32 → SessionLife → Prop}
    (hP : ∀ (sessionId : UInt32) (l : SessionLife),
      l.IsRun (ServerSession.traffic o) (ServerSession.ofOpening sessionId) → P sessionId l)
    (hok : (machine o).Guarded (Sound o) (start (.start udpSock localInterfaces fds) stack)
      (as.map Prod.fst))
    (hrun : (process o).run (some (start (.start udpSock localInterfaces fds) stack)) as =
      some (t, es)) :
    EachLife o t es P := by
  obtain ⟨s, rfl, -, bs, hbs⟩ := server_run hok hrun
  exact ⟨s, rfl, ServerMaster.eachLife hP hbs⟩

end Runs

/-- A request is answered by a counter-offer, and the client's next offer is accepted. -/
def haggling : List ThreadsAct :=
  [.listen 4] ++ connects 0 5 7 ++ stepsOf 0 17 false ++
    [.iterate (ServerMaster.inputEnv [5] 0 (writePdu
      ((objectiveOf .negotiation valueA 5 0).toBits .little) .negoMsg 7 ⟨.success, 0⟩).2) 0] ++
    stepsOf 0 15 true

theorem haggling_sound : (machine .little).Guarded (Sound .little) sample
    ((haggling.map (·, ([] : List ThreadsEvent))).map Prod.fst) := by
  decide +kernel

theorem haggling_run :
    ∃ t es, (process .little).run (some sample) (haggling.map (·, [])) = some (t, es) ∧
      ((es.filterMap ThreadsEvent.master?).filterMap (MasterEvent.label 7)).length = 8 := by
  have hsample : ((process .little).run (some sample) (haggling.map (·, []))).map (fun r =>
      ((r.2.filterMap ThreadsEvent.master?).filterMap (MasterEvent.label 7)).length) = some 8 := by
    decide +kernel
  obtain ⟨⟨t, es⟩, hrun, hlen⟩ := Option.map_eq_some_iff.1 hsample
  exact ⟨t, es, hrun, hlen⟩

end ServerThreads

/-! ## Delivery and the end -/

/-- What the session popped and still holds in its queue is what it was given, a REQUEST_MSG and no
other; at the loop head it is idle or at its end, and when it is over it is at its end. -/
structure SessionLife.InOrder (l : SessionLife) : Prop where
  queue : (l.did.filterMap ServerSession.popped?).map Prod.fst ++ l.state.q = l.arrivals
  request : l.birth.request.type = .requestMsg ∧ ∀ c ∈ l.arrivals.tail, c.type ≠ .requestMsg
  head : l.state.runPc = .head → l.state.curState = .idle ∨ l.state.curState = .sessionEnd
  done : l.state.runPc.isDone = true → l.state.curState = .sessionEnd

namespace ServerSession

variable {o : ByteOrder} {s s' : ServerSession} {a : SessionAct} {t es : List SessionEvent}
  {sessionId : UInt32} {c last : Content} {as : List SessionAct}

theorem run_inPhase (h : (machine o).run (new sessionId c last) as = some (s, es)) : s.InPhase := by
  apply EventMachine.run_invariant (I := InPhase) ?_ (inPhase_new sessionId c last) h
  exact fun _ _ _ _ hs h => step_inPhase h hs

theorem InPhase.done (hs : s.InPhase) (h : s.runPc.isDone = true) : s.curState = .sessionEnd := by
  obtain ⟨st, hw, hcur⟩ := hs
  cases hpc : s.runPc with
  | done =>
    rw [hpc] at hw
    obtain rfl : st = .sessionEnd := hw
    exact hcur.elim id id
  | _ =>
    rw [hpc] at h
    cases h

end ServerSession

namespace ServerThreads

variable {o : ByteOrder} {udpSock : ℤ} {localInterfaces : List CString} {fds : ℕ → ℤ}
  {stack : ℕ → SessionRunParms} {as : List (ThreadsAct × List ThreadsEvent)}
  {t : Option ServerThreads} {es : List ThreadsEvent}

/-- In every run of the process in which each session has its thread, every session pops what came
with its id since its REQUEST_MSG, in order; it is idle or at its end whenever it is at the loop
head, and cleared at its end only. -/
theorem lives_in_order
    (hok : (machine o).Guarded (Sound o) (start (.start udpSock localInterfaces fds) stack)
      (as.map Prod.fst))
    (hrun : (process o).run (some (start (.start udpSock localInterfaces fds) stack)) as =
      some (t, es)) :
    EachLife o t es fun _ l => l.InOrder := by
  refine eachLife (fun sessionId l hl => ?_) hok hrun
  obtain ⟨bs, hbs, harrived, htyped⟩ := SessionLife.life_run hl
  have hphase := ServerSession.run_inPhase hbs
  refine ⟨?_, ⟨l.birth.isRequest, htyped⟩, hphase.head, hphase.done⟩
  rw [ServerSession.run_queue hbs, ← harrived]
  rfl

theorem lives_in_order_haggling :
    ∃ t es, (process .little).run (some sample) (haggling.map (·, [])) = some (t, es) ∧
      ((es.filterMap ThreadsEvent.master?).filterMap (MasterEvent.label 7)).length = 8 ∧
      EachLife .little t es fun _ l => l.InOrder := by
  obtain ⟨t, es, hrun, hlen⟩ := haggling_run
  exact ⟨t, es, hrun, hlen, lives_in_order haggling_sound hrun⟩

end ServerThreads

/-! ## The answers on the connection -/

/-- The message that is answered on the connection. -/
def SessionEvent.answered? : SessionEvent → Option Content
  | wrote answers _ => answers
  | _ => none

/-- A message of a session with the given id: a WAIT_MSG, or what `run` makes of an offer. -/
def FromSession (o : ByteOrder) (sessionId : UInt32) (msg : Msg) : Option Content → Prop
  | none => decode (some msg) = .ok ⟨.waitMsg, sessionId,
      (CharArray.zero _).memcpy ((waitOption o).toBits o), maxStringLength + 1⟩
  | some c => c.IsOffer ∧ ∃ after uninit upperData geq, ∃ r : Reply,
      r = reply o (recvOption o c after uninit) upperData geq ∧ r.bits.length ≤ maxStringLength ∧
      decode (some msg) =
        .ok ⟨r.type, sessionId, (CharArray.zero _).memcpy r.bits, maxStringLength + 1⟩

/-- Everything the session wrote on the connection carries its id; its answers are those of `run`,
to offers it took, in their order, and at most one to each; a counter-offer has the loop count of
the offer less one, which is not 0, and its flag. -/
structure SessionLife.Answers (o : ByteOrder) (sessionId : UInt32) (l : SessionLife) : Prop where
  inOrder : (l.did.filterMap SessionEvent.answered?).Sublist
    (l.did.filterMap ServerSession.asked?)
  written : ∀ answers msg, .wrote answers msg ∈ l.did → FromSession o sessionId msg answers
  counterOffer : ∀ c msg k, .wrote (some c) msg ∈ l.did → Content.ofMsg msg = some k →
    k.type = .negoMsg →
    k.loopCount o = c.loopCount o - 1 ∧ k.loopCount o ≠ 0 ∧ k.flag o = c.flag o

namespace ServerSession

variable {o : ByteOrder} {s s' : ServerSession} {a : SessionAct} {t es : List SessionEvent}
  {sessionId : UInt32}

/-- What holds after every run of the session with the given id. -/
structure InTurn (o : ByteOrder) (sessionId : UInt32) (s : ServerSession)
    (es : List SessionEvent) : Prop where
  id : s.sessionId = sessionId
  held : s.runPc.HeldOk o
  inOrder : (es.filterMap repliedTo? ++ s.runPc.unanswered).Sublist (es.filterMap asked?)
  answered : (es.filterMap SessionEvent.answered?).Sublist (es.filterMap repliedTo?)
  written : ∀ answers msg, .wrote answers msg ∈ es → FromSession o sessionId msg answers

theorem fromSession_reply {r : Reply} {env : WriteEnv} {e : Errno} {msg : Msg} {c : Content}
    {after : Mem}
    {uninit : OptionType} {upperData : CString} {geq : Bool} (hc : c.IsOffer)
    (hr : r = reply o (recvOption o c after uninit) upperData geq)
    (hw : writePdu r.bits r.type sessionId env = (e, some msg)) :
    FromSession o sessionId msg (some c) := by
  obtain ⟨hwritable, hdecode⟩ := decode_of_writePdu (congrArg Prod.snd hw)
  exact ⟨hc, after, uninit, upperData, geq, r, hr, hwritable.1, hdecode⟩

/-- An offer in hand may be given up, but no other message is answered in its place. -/
theorem runStep_inTurn {env : RunEnv} (h : s.runStep o env = some (s', es))
    (hs : s.runPc.HeldOk o) :
    (es.filterMap repliedTo? ++ s'.runPc.unanswered).Sublist
        (s.runPc.unanswered ++ es.filterMap asked?) ∧
      (es.filterMap SessionEvent.answered?).Sublist (es.filterMap repliedTo?) ∧
      ∀ answers msg, .wrote answers msg ∈ es → FromSession o s.sessionId msg answers := by
  cases runStep_cases h
  case pop c q l pc hq hf =>
    refine ⟨?_, List.Sublist.refl _, by simp⟩
    simp only [pc, RunPc.unanswered, List.filterMap_cons, asked?, repliedTo?]
    split_ifs <;> exact List.Sublist.refl _
  case sendRefused c r e pc hst | sendFails c r e pc hw =>
    rw [pc] at hs ⊢
    rw [RunPc.unanswered, if_pos hs.1]
    refine ⟨List.Sublist.refl _, ?_, by simp⟩
    exact List.nil_sublist _
  case sendNego c r e msg pc ht hw | sendEnd c r e msg pc ht hw =>
    rw [pc] at hs ⊢
    obtain ⟨hc, after, uninit, d, geq, hr⟩ := hs
    rw [RunPc.unanswered, if_pos hc]
    refine ⟨List.Sublist.refl _, List.Sublist.refl _, fun answers m hm => ?_⟩
    simp only [List.mem_cons, reduceCtorEq, false_or, List.not_mem_nil, or_false] at hm
    cases hm
    exact fromSession_reply hc hr hw
  case popSkip c q l pc hq hf =>
    rw [pc]
    exact ⟨List.Sublist.refl _, List.Sublist.refl _, by simp⟩
  all_goals
    refine ⟨?_, List.Sublist.refl _, by simp⟩
    have pc : s.runPc = _ := ‹_›
    rw [pc]
    first
      | exact List.Sublist.refl _
      | exact List.nil_sublist _
      | simp [RunPc.unanswered]

/-- The helper threads answer nothing; they write WAIT_MSGs. -/
theorem step_helpers (h : s.step o a = some (s', es)) (ha : ∀ env, a ≠ .run env) :
    s'.sessionId = s.sessionId ∧ es.filterMap SessionEvent.answered? = [] ∧
      ∀ answers msg, .wrote answers msg ∈ es → FromSession o s.sessionId msg answers := by
  cases a with
  | push c =>
    cases h
    simp
  | run env => exact absurd rfl (ha env)
  | wait k env =>
    obtain ⟨t, t', -, hstep, rfl⟩ := step_wait_iff.1 h
    obtain rfl | ⟨msg, rfl, hw⟩ := waitStep_events hstep
    · simp
    · refine ⟨rfl, rfl, fun answers m hm => ?_⟩
      cases List.mem_singleton.1 hm
      exact (decode_of_writePdu hw).2
  | ends k =>
    obtain ⟨t, t', s₁, -, hstep, rfl, rfl⟩ := step_ends_iff.1 h
    obtain rfl | rfl | ⟨-, rfl⟩ := endStep_cases hstep <;> simp

theorem runStep_sessionId {env : RunEnv} (h : s.runStep o env = some (s', es)) :
    s'.sessionId = s.sessionId := by
  cases runStep_cases h <;> rfl

theorem inTurn_new (o : ByteOrder) (sessionId : UInt32) (c last : Content) :
    InTurn o sessionId (new sessionId c last) [] where
  id := rfl
  held := trivial
  inOrder := List.Sublist.refl _
  answered := List.Sublist.refl _
  written := by simp

theorem step_inTurn (h : s.step o a = some (s', es)) (hs : s.InTurn o sessionId t) :
    s'.InTurn o sessionId (t ++ es) := by
  obtain ⟨rfl, hheld, hinOrder, hanswered, hwritten⟩ := hs
  obtain ⟨env, rfl⟩ | ha := a.run_or
  · have h' : s.runStep o env = some (s', es) := h
    obtain ⟨hnext, hanswered', hwritten'⟩ := runStep_inTurn h' hheld
    refine ⟨runStep_sessionId h', runStep_heldOk h' hheld, ?_, ?_, ?_⟩
    · rw [List.filterMap_append, List.filterMap_append, List.append_assoc]
      apply ((List.Sublist.refl _).append hnext).trans
      rw [← List.append_assoc]
      exact hinOrder.append (List.Sublist.refl _)
    · rw [List.filterMap_append, List.filterMap_append]
      exact hanswered.append hanswered'
    · intro answers msg hm
      rcases List.mem_append.1 hm with hm | hm
      · exact hwritten answers msg hm
      · exact hwritten' answers msg hm
  · obtain ⟨hid, hnone, hwritten'⟩ := step_helpers h ha
    obtain ⟨hasked, hreplied, -⟩ := step_not_acts h ha
    have hpc := (step_runPc h ha).1
    refine ⟨hid, by rw [hpc]; exact hheld, ?_, ?_, ?_⟩
    · rw [List.filterMap_append, List.filterMap_append, hasked, hreplied, hpc, List.append_nil,
        List.append_nil]
      exact hinOrder
    · rw [List.filterMap_append, List.filterMap_append, hnone, hreplied, List.append_nil,
        List.append_nil]
      exact hanswered
    · intro answers msg hm
      rcases List.mem_append.1 hm with hm | hm
      · exact hwritten answers msg hm
      · exact hwritten' answers msg hm

theorem run_inTurn {c last : Content} {as : List SessionAct}
    (h : (machine o).run (new sessionId c last) as = some (s, es)) : s.InTurn o sessionId es := by
  apply EventMachine.run_invariant_trace (P := InTurn o sessionId) (t := []) ?_
    (inTurn_new o sessionId c last) h
  exact fun _ _ _ _ _ hs h => step_inTurn h hs

end ServerSession

/-- The counter-offers among the answers: the loop count is one less and not 0, the flag is that of
the offer. -/
theorem FromSession.counterOffer {o : ByteOrder} {sessionId : UInt32} {msg : Msg} {c k : Content}
    (h : FromSession o sessionId msg (some c)) (hk : Content.ofMsg msg = some k)
    (ht : k.type = .negoMsg) :
    k.loopCount o = c.loopCount o - 1 ∧ k.loopCount o ≠ 0 ∧ k.flag o = c.flag o := by
  obtain ⟨-, after, uninit, d, geq, r, hr, hlen, hdecode⟩ := h
  cases (Content.ofMsg_eq hdecode).symm.trans hk
  obtain ⟨type, -, hloop, hbits⟩ | hend :=
    reply_cases o (recvOption o c after uninit) d geq
  · rw [← hr] at hbits
    have hcarries : Content.Carries o ⟨r.type, (CharArray.zero _).memcpy r.bits⟩
        (objectiveOf type d (recvOption o c after uninit).loopCount
          (recvOption o c after uninit).flag) := ⟨_, by rw [hbits]⟩
    rw [hcarries.loopCount_eq, hcarries.flag_eq, ← recvOption_loopCount o c after uninit]
    exact ⟨rfl, hloop, recvOption_flag o c after uninit⟩
  · rw [← hr] at hend
    exact absurd (hend.symm.trans ht) (by decide)

namespace ServerThreads

variable {o : ByteOrder} {udpSock : ℤ} {localInterfaces : List CString} {fds : ℕ → ℤ}
  {stack : ℕ → SessionRunParms} {as : List (ThreadsAct × List ThreadsEvent)}
  {t : Option ServerThreads} {es : List ThreadsEvent}

/-- In every run of the process in which each session has its thread, everything a session writes
carries its id; its answers are those that `run` gives to offers it took, in their order, at most
one to each, and a counter-offer has the loop count of the offer less one, which is not 0, and its
flag. -/
theorem lives_answer
    (hok : (machine o).Guarded (Sound o) (start (.start udpSock localInterfaces fds) stack)
      (as.map Prod.fst))
    (hrun : (process o).run (some (start (.start udpSock localInterfaces fds) stack)) as =
      some (t, es)) :
    EachLife o t es fun sessionId l => l.Answers o sessionId := by
  refine eachLife (fun sessionId l hl => ?_) hok hrun
  obtain ⟨bs, hbs, -, -⟩ := SessionLife.life_run hl
  have hturn := ServerSession.run_inTurn hbs
  refine ⟨hturn.answered.trans ?_, hturn.written, fun c msg k hmem => ?_⟩
  · exact (List.sublist_append_left _ _).trans hturn.inOrder
  · exact (hturn.written _ _ hmem).counterOffer

theorem lives_answer_haggling :
    ∃ t es, (process .little).run (some sample) (haggling.map (·, [])) = some (t, es) ∧
      ((es.filterMap ThreadsEvent.master?).filterMap (MasterEvent.label 7)).length = 8 ∧
      EachLife .little t es fun sessionId l =>
        l.Answers .little sessionId := by
  obtain ⟨t, es, hrun, hlen⟩ := haggling_run
  exact ⟨t, es, hrun, hlen, lives_answer haggling_sound hrun⟩

end ServerThreads

/-! ## Threads -/

/-- The wait thread that the session thread is about to start for the offer in hand. -/
def RunPc.waitDue : RunPc → ℕ
  | setState c | writeState c _ | launchWait c => if c.IsOffer then 1 else 0
  | _ => 0

/-- The end thread that the session thread is about to start for the NEGO_MSG it has written. -/
def RunPc.endDue : RunPc → ℕ
  | sendSetState type _ => if type = .negoMsg then 1 else 0
  | sendClearIdleCheck | sendLaunchEnd => 1
  | _ => 0

/-- The session started at most a wait thread for each offer it took, and an end thread for each
NEGO_MSG it wrote; the last of these may be due. -/
structure SessionLife.Threads (l : SessionLife) : Prop where
  wait : l.state.waitThreads.length ≤ (l.did.filterMap ServerSession.asked?).length
  ends : l.state.endThreads.length + l.state.runPc.endDue = l.did.countP SessionEvent.isNego
  nego : l.did.countP SessionEvent.isNego ≤ (l.did.filterMap ServerSession.asked?).length
  asked : (l.did.filterMap ServerSession.asked?).length ≤ l.arrivals.countP (·.IsOffer)

namespace ServerSession

variable {o : ByteOrder} {s s' : ServerSession} {a : SessionAct} {t es : List SessionEvent}

/-- The helper threads start no threads. -/
theorem step_threads (h : s.step o a = some (s', es)) (ha : ∀ env, a ≠ .run env) :
    s'.waitThreads.length = s.waitThreads.length ∧ s'.endThreads.length = s.endThreads.length ∧
      es.countP SessionEvent.isNego = 0 := by
  cases a with
  | push c =>
    cases h
    simp
  | run env => exact absurd rfl (ha env)
  | wait k env =>
    obtain ⟨t, t', -, hstep, rfl⟩ := step_wait_iff.1 h
    exact ⟨List.length_set .., rfl, waitStep_isNego hstep⟩
  | ends k =>
    obtain ⟨t, t', s₁, -, hstep, rfl, rfl⟩ := step_ends_iff.1 h
    obtain rfl | rfl | ⟨-, rfl⟩ := endStep_cases hstep <;> simp

theorem runStep_waitDue {env : RunEnv} (h : s.runStep o env = some (s', es))
    (hs : s.InPhase) :
    s'.waitThreads.length + s'.runPc.waitDue ≤
      s.waitThreads.length + s.runPc.waitDue + (es.filterMap asked?).length := by
  cases runStep_cases h
  case pop c q l pc hq hf =>
    simp only [pc, RunPc.waitDue, List.filterMap_cons, asked?]
    split_ifs <;> simp
  case launchWait c pc hcur =>
    have hw := hs.wrote_processing hcur
    rw [pc] at hw
    have hc : c.IsOffer := by
      obtain ⟨hc, -⟩ | ⟨-, hst⟩ := setState_idle_eq_ok_iff.1 hw
      · exact hc
      · cases hst
    simp [pc, RunPc.waitDue, hc]
  all_goals simp_all [RunPc.waitDue, asked?]

theorem runStep_endDue {env : RunEnv} (h : s.runStep o env = some (s', es)) :
    s'.endThreads.length + s'.runPc.endDue =
      s.endThreads.length + s.runPc.endDue + es.countP SessionEvent.isNego := by
  cases runStep_cases h
  case sendNego c r e msg pc ht hw =>
    simp [pc, RunPc.endDue, SessionEvent.isNego, Msg.hasType_of_writePdu hw, ht]
  case sendEnd c r e msg pc ht hw =>
    simp [pc, RunPc.endDue, SessionEvent.isNego, Msg.hasType_of_writePdu hw, ht]
  all_goals simp_all [RunPc.endDue, SessionEvent.isNego]

theorem length_asked_le (es : List SessionEvent) :
    (es.filterMap asked?).length ≤ ((es.filterMap popped?).map Prod.fst).countP (·.IsOffer) := by
  rw [List.countP_map]
  induction es with
  | nil => exact le_rfl
  | cons e es ih =>
    cases e with
    | popped c skipped =>
      rw [List.filterMap_cons_some (show popped? (.popped c skipped) = some (c, skipped) from rfl),
        List.countP_cons]
      cases skipped
      · by_cases hc : c.IsOffer <;> simp [asked?, hc] <;> exact ih
      · rw [List.filterMap_cons_none (show asked? (.popped c true) = none from rfl)]
        exact ih.trans (Nat.le_add_right _ _)
    | _ => exact ih

/-- What holds after every run. -/
structure Launching (s : ServerSession) (es : List SessionEvent) : Prop where
  phase : s.InPhase
  wait : s.waitThreads.length + s.runPc.waitDue ≤ (es.filterMap asked?).length
  ends : s.endThreads.length + s.runPc.endDue = es.countP SessionEvent.isNego

theorem step_launching (h : s.step o a = some (s', es)) (hs : s.Launching t) :
    s'.Launching (t ++ es) := by
  obtain ⟨hphase, hwait, hends⟩ := hs
  obtain ⟨env, rfl⟩ | ha := a.run_or
  · have h' : s.runStep o env = some (s', es) := h
    have hwait' := runStep_waitDue h' hphase
    have hends' := runStep_endDue h'
    refine ⟨step_inPhase h hphase, ?_, ?_⟩
    · rw [List.filterMap_append, List.length_append]
      omega
    · rw [List.countP_append]
      omega
  · obtain ⟨hw, he, hnego⟩ := step_threads h ha
    obtain ⟨hasked, -, -⟩ := step_not_acts h ha
    have hpc := (step_runPc h ha).1
    refine ⟨step_inPhase h hphase, ?_, ?_⟩
    · rw [List.filterMap_append, hasked, List.append_nil, hw, hpc]
      exact hwait
    · rw [List.countP_append, hnego, Nat.add_zero, he, hpc]
      exact hends

theorem run_launching {sessionId : UInt32} {c last : Content} {as : List SessionAct}
    (h : (machine o).run (new sessionId c last) as = some (s, es)) : s.Launching es := by
  apply EventMachine.run_invariant_trace (P := Launching) (t := []) ?_ ⟨inPhase_new _ _ _, ?_, ?_⟩ h
  · exact fun _ _ _ _ _ hs h => step_launching h hs
  · exact le_rfl
  · rfl

/-- A NEGO_MSG answers an offer. -/
theorem InTurn.isNego_le {sessionId : UInt32} (hs : s.InTurn o sessionId es) :
    es.countP SessionEvent.isNego ≤ (es.filterMap asked?).length := by
  have hanswers : es.countP SessionEvent.isNego ≤ (es.filterMap SessionEvent.answered?).length := by
    rw [List.length_filterMap_eq_countP]
    apply List.countP_mono_left
    intro e he hnego
    cases e with
    | wrote answers msg =>
      cases answers with
      | some c => rfl
      | none =>
        have hwait := hs.written none msg he
        simp [SessionEvent.isNego, Msg.hasType, Content.ofMsg_eq hwait] at hnego
    | _ => cases hnego
  apply hanswers.trans
  exact (hs.answered.trans ((List.sublist_append_left _ _).trans hs.inOrder)).length_le

end ServerSession

namespace ServerThreads

variable {o : ByteOrder} {udpSock : ℤ} {localInterfaces : List CString} {fds : ℕ → ℤ}
  {stack : ℕ → SessionRunParms} {as : List (ThreadsAct × List ThreadsEvent)}
  {t : Option ServerThreads} {es : List ThreadsEvent}

/-- In every run of the process in which each session has its thread, the offers that come with a
session's id bound the threads it starts and the NEGO_MSGs it writes. -/
theorem lives_threads
    (hok : (machine o).Guarded (Sound o) (start (.start udpSock localInterfaces fds) stack)
      (as.map Prod.fst))
    (hrun : (process o).run (some (start (.start udpSock localInterfaces fds) stack)) as =
      some (t, es)) :
    EachLife o t es fun _ l => l.Threads := by
  refine eachLife (fun sessionId l hl => ?_) hok hrun
  obtain ⟨bs, hbs, harrived, -⟩ := SessionLife.life_run hl
  have hlaunching := ServerSession.run_launching hbs
  refine ⟨?_, hlaunching.ends, (ServerSession.run_inTurn hbs).isNego_le, ?_⟩
  · exact (Nat.le_add_right _ _).trans hlaunching.wait
  · apply (ServerSession.length_asked_le _).trans
    have hqueue := ServerSession.run_queue hbs
    rw [← harrived, ← List.singleton_append,
      show [l.birth.request] ++ _ = _ from hqueue.symm, List.countP_append]
    exact Nat.le_add_right _ _

theorem lives_threads_haggling :
    ∃ t es, (process .little).run (some sample) (haggling.map (·, [])) = some (t, es) ∧
      ((es.filterMap ThreadsEvent.master?).filterMap (MasterEvent.label 7)).length = 8 ∧
      EachLife .little t es fun _ l => l.Threads := by
  obtain ⟨t, es, hrun, hlen⟩ := haggling_run
  exact ⟨t, es, hrun, hlen, lives_threads haggling_sound hrun⟩

end ServerThreads

end Gdnp
