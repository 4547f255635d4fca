import Gdnp.Bounds
import Gdnp.Phase

/-!
# One reply for each request

As long as no end thread expires and the session thread stays inside its memory, it attempts exactly
one reply to each offer, in the order in which they are popped, and pops and replies to nothing more
once a NEGO_END_MSG was received or attempted (`one_reply_per_request`).  The reply to an offer
comes with the next few steps of the session thread (`run_toReply`), unless the value of the offer
does not fit into the block of `parse_bits`, which may be the end of the process
(`not_one_reply_per_request`).
-/

open CMem

namespace Gdnp

/-- The message whose reply is still to be attempted. -/
def RunPc.unanswered : RunPc → List Content
  | setState c | writeState c _ | launchWait c | checkEnd c | upper c | setIdle c _ | decide c _
  | sendSwitch c _ | sendWrite c _ => if c.IsOffer then [c] else []
  | _ => []

/-- The steps of the session thread up to its reply. -/
def RunPc.toReply : RunPc → ℕ
  | setState _ => 9
  | writeState _ _ => 8
  | launchWait _ => 7
  | checkEnd _ => 6
  | upper _ => 5
  | setIdle _ _ => 4
  | decide _ _ => 3
  | sendSwitch _ _ => 2
  | sendWrite _ _ => 1
  | _ => 0

namespace ServerSession

/-- The popped message, if it is an offer that is not skipped. -/
def asked? : SessionEvent → Option Content
  | .popped c false => if c.IsOffer then some c else none
  | _ => none

/-- The message to which a reply was attempted. -/
def repliedTo? : SessionEvent → Option Content
  | .replied c _ _ => some c
  | _ => none

end ServerSession

namespace SessionEvent

/-- A message is popped, or a reply attempted. -/
def Acts : SessionEvent → Prop
  | popped _ _ | replied _ _ _ => True
  | wrote _ _ => False

/-- A NEGO_END_MSG is received or attempted. -/
def Ends : SessionEvent → Prop
  | popped c skipped => skipped = false ∧ c.type = .negoEndMsg
  | replied _ r _ => r.type = .negoEndMsg
  | wrote _ _ => False

end SessionEvent

namespace ServerSession

/-- The session thread is on its way out of the loop. -/
def Over (s : ServerSession) : Prop :=
  match s.runPc with
  | .setState c => c.type = .negoEndMsg
  | .writeState _ st => st = .sessionEnd
  | .head | .launchWait _ | .checkEnd _ => s.curState = .sessionEnd
  | .sendSetState type st => type = .negoEndMsg ∧ st = .sessionEnd
  | .afterSend type => type = .negoEndMsg
  | .close | .done => True
  | _ => False

variable {o : ByteOrder} {s s' : ServerSession} {a : SessionAct} {es : List SessionEvent}

theorem not_isOffer_of_setState {c : Content} {e : Errno}
    (h : setState .idle c.type = .error e) : ¬ c.IsOffer := by
  rintro (hc | hc) <;> rw [hc] at h <;> cases h

/-- A step replies to the offer that was unanswered, or pops the one that then is. -/
theorem runStep_unanswered {env : RunEnv} (h : s.runStep o env = some (s', es))
    (hs : s.runPc.Wrote s.curState) :
    s.runPc.unanswered ++ es.filterMap asked? = es.filterMap repliedTo? ++ s'.runPc.unanswered := by
  cases runStep_cases h
  case pop c q l pc hq hf =>
    simp only [pc, RunPc.unanswered, List.filterMap_cons, asked?, repliedTo?]
    split_ifs <;> rfl
  case setStateErr c e pc hst =>
    rw [pc] at hs ⊢
    rw [show s.curState = .idle from hs] at hst
    simp [RunPc.unanswered, not_isOffer_of_setState hst]
  case checkEndHead c pc st =>
    rw [pc] at hs ⊢
    have hc : ¬ c.IsOffer := by
      intro hc
      obtain ⟨-, hp⟩ | ⟨he, -⟩ := setState_idle_eq_ok_iff.1 hs
      · exact st ⟨by rw [hp]; decide, hc.symm⟩
      · rcases hc with hc | hc <;> exact absurd (he.symm.trans hc) (by decide)
    simp [RunPc.unanswered, hc]
  case sendRefused c r e pc _ | sendFails c r e pc _ | sendNego c r e msg pc _ _
      | sendEnd c r e msg pc _ _ =>
    rw [pc] at hs
    rw [pc, RunPc.unanswered, if_pos hs.2.1]
    rfl
  case popSkip c q l pc hq hf =>
    rw [pc]
    rfl
  all_goals simp_all [RunPc.unanswered]

/-- What is received or attempted last is a NEGO_END_MSG only if the thread leaves the loop. -/
theorem runStep_ends {env : RunEnv} (h : s.runStep o env = some (s', es)) :
    (∀ e ∈ es, e.Ends → s'.Over) ∧ es.Pairwise fun e e' => e.Ends → ¬ e'.Acts := by
  cases runStep_cases h <;> simp_all [SessionEvent.Ends, SessionEvent.Acts, Over]

/-- On its way out of the loop the thread pops nothing and replies to nothing. -/
theorem runStep_over {env : RunEnv} (h : s.runStep o env = some (s', es))
    (hs : s.runPc.Wrote s.curState) (hover : s.Over) : s'.Over ∧ ∀ e ∈ es, ¬ e.Acts := by
  unfold Over at hover ⊢
  cases runStep_cases h
  case setStateErr c e pc hst =>
    rw [pc] at hs hover
    rw [show s.curState = .idle from hs, show c.type = .negoEndMsg from hover] at hst
    cases hst
  case setState c st pc hst =>
    rw [pc] at hs hover
    rw [show s.curState = .idle from hs, show c.type = .negoEndMsg from hover] at hst
    cases hst
    exact ⟨rfl, by simp⟩
  all_goals simp_all [RunPc.Wrote]

theorem Over.of_runPc (h : s.Over) (hpc : s'.runPc = s.runPc)
    (hcur : s'.curState = s.curState ∨ s'.curState = .sessionEnd) : s'.Over := by
  unfold Over at h ⊢
  rw [hpc]
  cases hr : s.runPc <;> simp_all

/-- What the helper threads do is no pop and no reply. -/
theorem step_not_acts (h : s.step o a = some (s', es)) (ha : ∀ env, a ≠ .run env) :
    es.filterMap asked? = [] ∧ es.filterMap repliedTo? = [] ∧ ∀ e ∈ es, ¬ e.Acts ∧ ¬ e.Ends := by
  cases a with
  | push c =>
    cases h
    simp
  | run env => exact absurd rfl (ha env)
  | wait k env =>
    obtain ⟨t, t', -, hstep, rfl⟩ := step_wait_iff.1 h
    obtain rfl | ⟨msg, rfl, -⟩ := waitStep_events hstep
    · simp
    · exact ⟨rfl, rfl, by simp [SessionEvent.Acts, SessionEvent.Ends]⟩
  | ends k =>
    obtain ⟨t, t', s₁, -, -, -, rfl⟩ := step_ends_iff.1 h
    simp

/-- What holds after every run in which no end thread expires. -/
structure Answering (s : ServerSession) (es : List SessionEvent) : Prop where
  wrote : s.runPc.Wrote s.curState
  inOrder : es.filterMap asked? = es.filterMap repliedTo? ++ s.runPc.unanswered
  typed : ∀ c r e, .replied c r e ∈ es → r.type = .negoMsg ∨ r.type = .negoEndMsg
  ending : ∀ e ∈ es, e.Ends → s.Over
  last : es.Pairwise fun e e' => e.Ends → ¬ e'.Acts

theorem answering_new (sessionId : UInt32) (c last : Content) :
    (new sessionId c last).Answering [] where
  wrote := (by decide : ServerState.idle ≠ .processing)
  inOrder := rfl
  typed := by simp
  ending := by simp
  last := .nil

theorem runStep_typed {env : RunEnv} (h : s.runStep o env = some (s', es))
    (hs : s.runPc.Wrote s.curState) :
    ∀ c r e, .replied c r e ∈ es → r.type = .negoMsg ∨ r.type = .negoEndMsg := by
  cases runStep_cases h <;> simp_all [RunPc.Wrote]

theorem step_answering {t : List SessionEvent} (h : s.step o a = some (s', es))
    (ha : s.NoExpire a) (hs : s.Answering t) : s'.Answering (t ++ es) := by
  obtain ⟨env, rfl⟩ | ha' := a.run_or
  · have h' : s.runStep o env = some (s', es) := h
    have hends := runStep_ends h'
    have hover := runStep_over h' hs.wrote
    have hunanswered := runStep_unanswered h' hs.wrote
    refine ⟨step_wrote h ha hs.wrote, ?_, ?_, ?_, ?_⟩
    · rw [List.filterMap_append, List.filterMap_append, hs.inOrder, List.append_assoc, hunanswered,
        List.append_assoc]
    · intro c r e he
      rcases List.mem_append.1 he with he | he
      · exact hs.typed c r e he
      · exact runStep_typed h' hs.wrote c r e he
    · intro e he hend
      rcases List.mem_append.1 he with he | he
      · exact (hover (hs.ending e he hend)).1
      · exact hends.1 e he hend
    · refine List.pairwise_append.2 ⟨hs.last, hends.2, fun e he e' he' hend => ?_⟩
      exact (hover (hs.ending e he hend)).2 e' he'
  · obtain ⟨hasked, hreplied, hacts⟩ := step_not_acts h ha'
    obtain ⟨hpc, hcur⟩ := step_runPc h ha'
    refine ⟨step_wrote h ha hs.wrote, ?_, ?_, ?_, ?_⟩
    · rw [List.filterMap_append, List.filterMap_append, hasked, hreplied, hs.inOrder, hpc]
      simp
    · intro c r e he
      rcases List.mem_append.1 he with he | he
      · exact hs.typed c r e he
      · exact absurd trivial (hacts _ he).1
    · intro e he hend
      rcases List.mem_append.1 he with he | he
      · exact (hs.ending e he hend).of_runPc hpc hcur
      · exact absurd hend (hacts e he).2
    · refine List.pairwise_append.2 ⟨hs.last, ?_, fun e he e' he' hend => (hacts e' he').1⟩
      exact List.pairwise_of_forall_mem_list fun e he e' he' _ => (hacts e' he').1

/-! ### The reply comes -/

/-- A message whose reply is due is an offer, and there are steps to come. -/
theorem of_mem_unanswered {c : Content} (h : c ∈ s.runPc.unanswered) :
    c.IsOffer ∧ 0 < s.runPc.toReply ∧ s.runPc.isDone = false ∧ s.runPc ≠ .pop := by
  cases hpc : s.runPc <;> simp_all [RunPc.unanswered, RunPc.toReply, RunPc.isDone]

/-- A step of a session thread whose reply to an offer is due brings it nearer, or is the reply. -/
theorem runStep_toReply {env : RunEnv} {c : Content} (h : s.runStep o env = some (s', es))
    (hs : s.runPc.Wrote s.curState) (hc : c ∈ s.runPc.unanswered) :
    (s.runPc.toReply = 1 ∧ es.filterMap repliedTo? = [c]) ∨
      (s.runPc.toReply = s'.runPc.toReply + 1 ∧ c ∈ s'.runPc.unanswered ∧
        es.filterMap repliedTo? = []) := by
  have hoffer := (of_mem_unanswered hc).1
  have hset : Gdnp.setState .idle c.type = .ok .processing :=
    setState_idle_eq_ok_iff.2 (.inl ⟨hoffer, rfl⟩)
  cases runStep_cases h
  -- `set_state` takes the offer, the session does not end meanwhile, and `send` takes the reply.
  case setStateErr d e pc hst =>
    rw [pc] at hs hc
    obtain rfl : c = d := by simpa using (List.mem_ite_nil_right.1 hc).2
    rw [show s.curState = .idle from hs, hset] at hst
    cases hst
  case checkEndHead d pc st =>
    rw [pc] at hs hc
    obtain rfl : c = d := by simpa using (List.mem_ite_nil_right.1 hc).2
    have hcur : s.curState = .processing := Except.ok.inj (hs.symm.trans hset)
    exact absurd ⟨by rw [hcur]; decide, hoffer.symm⟩ st
  case sendRefused d r e pc hst =>
    rw [pc] at hs
    rw [hs.1, sendAllowed_idle hs.2.2] at hst
    cases hst
  all_goals simp_all [RunPc.unanswered, RunPc.toReply, repliedTo?]

/-- The session thread replies in as many steps of its own as `toReply` says. -/
theorem run_toReply {c : Content} (hs : s.runPc.Wrote s.curState) (hc : c ∈ s.runPc.unanswered)
    {envs : List RunEnv} (henvs : envs.length = s.runPc.toReply) :
    ∃ s' es, (machine o).run s (envs.map .run) = some (s', es) ∧
      es.filterMap repliedTo? = [c] := by
  induction envs generalizing s with
  | nil => exact absurd henvs.symm (of_mem_unanswered hc).2.1.ne'
  | cons env envs ih =>
    obtain ⟨-, -, hdone, hpop⟩ := of_mem_unanswered hc
    obtain ⟨⟨s₁, es₁⟩, hstep⟩ := Option.isSome_iff_exists.1
      (runStep_isSome (o := o) hdone (fun hpc => absurd hpc hpop) env)
    obtain ⟨hone, hreplied⟩ | ⟨hmore, hdue, hnone⟩ := runStep_toReply hstep hs hc
    · obtain rfl : envs = [] := List.length_eq_zero_iff.1 (by simp at henvs; omega)
      exact ⟨s₁, es₁, EventMachine.run_singleton_iff.2 hstep, hreplied⟩
    · obtain ⟨s', es, hrun, hes⟩ := ih (runStep_wrote hstep hs) hdue (by simp at henvs; omega)
      refine ⟨s', es₁ ++ es, EventMachine.run_cons_iff.2 ⟨s₁, es₁, es, hstep, hrun, rfl⟩, ?_⟩
      rw [List.filterMap_append, hnone, hes, List.nil_append]

/-! ### Runs -/

/-- The messages whose replies are due; nothing more is to be expected of a process whose behaviour
is undefined. -/
def due (t : Option ServerSession) : List Content := t.elim [] fun s => s.runPc.unanswered

/-- What the session thread has done by the time the process is in state `t`: of the offers that it
popped and did not skip, it attempted one reply to each, in this order, but for those that are due;
`send` takes each reply; those due come with the next steps of the thread, if it can parse the
offer; and nothing follows a NEGO_END_MSG. -/
structure OneReply (o : ByteOrder) (t : Option ServerSession) (es : List SessionEvent) : Prop where
  inOrder : es.filterMap asked? = es.filterMap repliedTo? ++ due t
  typed : ∀ c r e, .replied c r e ∈ es → r.type = .negoMsg ∨ r.type = .negoEndMsg
  allowed : ∀ s ∈ t, ∀ c r, s.runPc = .sendSwitch c r → sendAllowed s.curState r.type = .ok ()
  comes : ∀ s ∈ t, ∀ c ∈ s.runPc.unanswered, c.InBlock o → ∀ envs : List RunEnv,
    envs.length = s.runPc.toReply → ∃ s' es', (machine o).run s (envs.map .run) = some (s', es') ∧
      es'.filterMap repliedTo? = [c]
  last : es.Pairwise fun e e' => e.Ends → ¬ e'.Acts

/-- In every run in which no end thread expires and the session thread stays inside its memory, it
attempts one reply to each offer that it pops and does not skip, in the order popped; `send` accepts
each; and nothing follows a NEGO_END_MSG. -/
theorem one_reply_per_request {sessionId : UInt32} {c last : Content}
    {as : List (SessionAct × List SessionEvent)} {t : Option ServerSession}
    (hok : (machine o).Guarded (fun s a => s.NoExpire a ∧ s.InBounds o a) (new sessionId c last)
      (as.map Prod.fst))
    (hrun : (process o).run (some (new sessionId c last)) as = some (t, es)) :
    OneReply o t es := by
  obtain ⟨s, rfl, hrun'⟩ := EventMachine.run_orUndefined (fun _ _ h => h.2) hok hrun
  have hs : s.Answering es :=
    EventMachine.run_preserves_trace (P := Answering) (t := [])
      (fun _ _ _ _ _ hi ha h => step_answering h ha.1 hi) (answering_new sessionId c last) hok hrun'
  refine ⟨hs.inOrder, hs.typed, ?_, ?_, hs.last⟩
  · rintro _ ⟨⟩ c r hpc
    have hw := hs.wrote
    rw [hpc] at hw
    rw [hw.1]
    exact sendAllowed_idle hw.2.2
  · rintro _ ⟨⟩ c hc - envs henvs
    exact run_toReply hs.wrote hc henvs

/-- The request is answered by a counter-offer, and the client's next offer is accepted. -/
def haggle : List SessionAct :=
  List.replicate 17 (answer false) ++ [.push (offer .negoMsg .negotiation 3)] ++
    List.replicate 15 (answer true)

theorem one_reply_per_request_accepted :
    ∃ s es, (process .little).run
        (some (new 0 (offer .requestMsg .negotiation 5) ⟨.requestMsg, CharArray.zero _⟩))
        (haggle.map (·, [])) = some (some s, es) ∧
      es.filterMap asked? = [offer .requestMsg .negotiation 5, offer .negoMsg .negotiation 3] ∧
      OneReply .little (some s) es := by
  have hsample : ((process .little).run
      (some (new 0 (offer .requestMsg .negotiation 5) ⟨.requestMsg, CharArray.zero _⟩))
      (haggle.map (·, []))).map
      (fun r => (r.1.isSome, r.2.filterMap asked?)) =
      some (true, [offer .requestMsg .negotiation 5, offer .negoMsg .negotiation 3]) := by
    decide +kernel
  obtain ⟨⟨t, es⟩, hrun, hs⟩ := Option.map_eq_some_iff.1 hsample
  obtain ⟨hsome, hasked⟩ := Prod.mk.inj hs
  obtain ⟨s, rfl⟩ := Option.isSome_iff_exists.1 hsome
  exact ⟨s, es, hrun, hasked, one_reply_per_request (by decide +kernel) hrun⟩

/-- The value of a request has 26 bytes, and the process does not survive its parsing. -/
theorem not_one_reply_per_request :
    ¬ ∀ (o : ByteOrder) (sessionId : UInt32) (c last : Content)
        (as : List (SessionAct × List SessionEvent)) (t : Option ServerSession)
        (es : List SessionEvent),
      (machine o).Guarded NoExpire (new sessionId c last) (as.map Prod.fst) →
      (process o).run (some (new sessionId c last)) as = some (t, es) → OneReply o t es := by
  intro h
  let c : Content := .ofBits .requestMsg ([6, 0, 26, 0, 0, 5] ++ List.replicate 26 97)
  have hsample : ((process .little).run (some (new 0 c ⟨.requestMsg, CharArray.zero _⟩))
      ((List.replicate 8 (answer true)).map (·, []))).map
      (fun r => (r.1.isSome, r.2.filterMap asked?, r.2.filterMap repliedTo?)) =
      some (false, [c], []) := by
    decide +kernel
  obtain ⟨⟨t, es⟩, hrun, hs⟩ := Option.map_eq_some_iff.1 hsample
  simp only [Prod.mk.injEq] at hs
  obtain ⟨hnone, hasked, hreplied⟩ := hs
  obtain rfl : t = none := by simpa using hnone
  have hone := (h .little 0 c _ _ none es (by decide +kernel) hrun).inOrder
  rw [hasked, hreplied] at hone
  cases hone

end ServerSession

end Gdnp
