import Gdnp.Phase

/-!
# Rounds of the session loop

A round of `run` takes a message off the queue and hands it to `set_state`, which refuses every
message in PROCESSING.  But a round that sets PROCESSING does not come back to the loop head before
the state is IDLE or SESSION_END, whatever the helper threads do meanwhile.  So no message is
refused for that reason (`rounds_over`).
-/

namespace Gdnp

/-- What happens to a message in a round of `run`. -/
inductive RoundEvent where
  /-- It is popped, and perhaps skipped as a duplicate. -/
  | popped (c : Content) (skipped : Bool)
  /-- `set_state` finds the state `cur`. -/
  | setState (cur : ServerState) (c : Content)

/-- A message that is popped and not skipped. -/
def RoundEvent.taken? : RoundEvent → Option Content
  | popped c false => some c
  | _ => none

/-- A message that does not get into the branch of `set_state` for PROCESSING. -/
def RoundEvent.passed? : RoundEvent → Option Content
  | setState cur c => if cur ≠ .processing then some c else none
  | _ => none

/-- The message that is popped and not yet handed to `set_state`. -/
def RunPc.inHand : RunPc → List Content
  | setState c => [c]
  | _ => []

namespace ServerSession

/-- What happens to messages in a step. -/
def roundEvents (s : ServerSession) (a : SessionAct) (es : List SessionEvent) : List RoundEvent :=
  match a, s.runPc with
  | .run _, .setState c => [.setState s.curState c]
  | _, _ => (es.filterMap popped?).map fun p => .popped p.1 p.2

/-- The session with the calls of `set_state`. -/
def rounds (o : ByteOrder) : EventMachine ServerSession SessionAct RoundEvent :=
  (machine o).relabel roundEvents

/-- At the end of the rounds `ls` no message has met PROCESSING. -/
structure RoundsOver (s : ServerSession) (ls : List RoundEvent) : Prop where
  head : s.runPc = .head → s.curState = .idle ∨ s.curState = .sessionEnd
  notProcessing : ∀ cur c, .setState cur c ∈ ls → cur ≠ .processing
  /-- Each popped message goes through another branch of `set_state`, unless it is a duplicate. -/
  passed : ls.filterMap (·.taken?) = ls.filterMap (·.passed?) ++ s.runPc.inHand

/-- On the way from `s` to `s'` no message meets PROCESSING, and the messages in hand are passed on
in order. -/
structure HandsOn (s s' : ServerSession) (ls : List RoundEvent) : Prop where
  notProcessing : ∀ cur c, .setState cur c ∈ ls → cur ≠ .processing
  passed : s.runPc.inHand ++ ls.filterMap (·.taken?) =
    ls.filterMap (·.passed?) ++ s'.runPc.inHand

variable {o : ByteOrder} {s s₁ s' : ServerSession} {a : SessionAct} {ls ls' : List RoundEvent}

theorem InPhase.head (hs : s.InPhase) (pc : s.runPc = .head) :
    s.curState = .idle ∨ s.curState = .sessionEnd := by
  rcases hcur : s.curState
  · exact .inl rfl
  · have hw := hs.wrote_processing hcur
    rw [pc] at hw
    exact absurd rfl hw
  · exact .inr rfl

theorem InPhase.setState {c : Content} (hs : s.InPhase) (pc : s.runPc = .setState c) :
    s.curState ≠ .processing := by
  intro hcur
  have hw := hs.wrote_processing hcur
  rw [pc] at hw
  cases hw

theorem handsOn_nil (h : s'.runPc.inHand = s.runPc.inHand) : HandsOn s s' [] :=
  ⟨nofun, (List.append_nil _).trans h.symm⟩

theorem HandsOn.append (h : HandsOn s s₁ ls) (h' : HandsOn s₁ s' ls') :
    HandsOn s s' (ls ++ ls') where
  notProcessing cur c hmem := by
    rcases List.mem_append.1 hmem with hmem | hmem
    · exact h.notProcessing cur c hmem
    · exact h'.notProcessing cur c hmem
  passed := by
    rw [List.filterMap_append, List.filterMap_append, ← List.append_assoc, h.passed,
      List.append_assoc, h'.passed, List.append_assoc]

/-- The helper threads have nothing to do with the messages. -/
theorem step_roundEvents {es : List SessionEvent} (h : s.step o a = some (s', es))
    (ha : ∀ env, a ≠ .run env) : s.roundEvents a es = [] := by
  cases a with
  | push c =>
    cases h
    rfl
  | run env => exact absurd rfl (ha env)
  | wait k env =>
    obtain ⟨t, t', -, hstep, -⟩ := step_wait_iff.1 h
    obtain rfl | ⟨msg, rfl, -⟩ := waitStep_events hstep <;> rfl
  | ends k =>
    obtain ⟨t, t', s₁, -, -, -, rfl⟩ := step_ends_iff.1 h
    rfl

/-- The session thread takes a message in hand when it pops it, and passes it on in `set_state`. -/
theorem runStep_handsOn {env : RunEnv} {es : List SessionEvent} (h : RunStep o env s s' es)
    (hs : s.InPhase) : HandsOn s s' (s.roundEvents (.run env) es) := by
  cases h
  case popSkip c q l pc _ _ | pop c q l pc _ _ =>
    constructor
    · simp [roundEvents, pc, popped?]
    · simp [roundEvents, pc, popped?, RoundEvent.taken?, RoundEvent.passed?, RunPc.inHand]
  case setStateErr c e pc _ | setState c st pc _ =>
    have hcur := hs.setState pc
    constructor
    · simp [roundEvents, pc, hcur]
    · simp [roundEvents, pc, hcur, RoundEvent.taken?, RoundEvent.passed?, RunPc.inHand]
  -- Elsewhere there is no message in hand.
  all_goals
    have pc : s.runPc = _ := ‹_›
    unfold roundEvents
    rw [pc]
    exact handsOn_nil (by rw [pc]; rfl)

theorem step_handsOn (h : (rounds o).step s a = some (s', ls)) (hs : s.InPhase) :
    s'.InPhase ∧ HandsOn s s' ls := by
  obtain ⟨es, hstep, rfl⟩ := EventMachine.relabel_step_iff.1 h
  refine ⟨step_inPhase hstep hs, ?_⟩
  obtain ⟨env, rfl⟩ | ha := a.run_or
  · exact runStep_handsOn (runStep_cases hstep) hs
  · rw [step_roundEvents hstep ha]
    exact handsOn_nil (congrArg RunPc.inHand (step_runPc hstep ha).1)

theorem run_handsOn {as : List SessionAct} (hs : s.InPhase)
    (hrun : (rounds o).run s as = some (s', ls)) : s'.InPhase ∧ HandsOn s s' ls := by
  have h₀ : s.InPhase ∧ HandsOn s s [] := ⟨hs, handsOn_nil rfl⟩
  apply EventMachine.run_invariant_trace (P := fun s' ls => s'.InPhase ∧ HandsOn s s' ls) ?_ h₀ hrun
  rintro s₁ t a s₂ ls ⟨hs₁, ht⟩ h
  obtain ⟨hs₂, hls⟩ := step_handsOn h hs₁
  exact ⟨hs₂, ht.append hls⟩

/-- In every run of a session the state is IDLE or SESSION_END at the loop head, and no popped
message meets PROCESSING in `set_state`. -/
theorem rounds_over {sessionId : UInt32} {c last : Content} {as : List SessionAct}
    (hrun : (rounds o).run (new sessionId c last) as = some (s, ls)) : s.RoundsOver ls := by
  obtain ⟨hs, hls⟩ := run_handsOn (inPhase_new sessionId c last) hrun
  exact ⟨hs.head, hls.notProcessing, hls.passed⟩

/-- A counter-offer to a request, while its wait thread runs. -/
theorem rounds_over_counter_offer :
    ∃ s ls, (rounds .little).run
        (new 0 (offer .requestMsg .negotiation 5) ⟨.requestMsg, CMem.CharArray.zero _⟩)
        (List.replicate 8 (answer false) ++ [.wait 0 ⟨.success, 0⟩] ++
          List.replicate 9 (answer false)) = some (s, ls) ∧
      s.curState = .idle ∧ ls.length = 2 ∧ s.RoundsOver ls := by
  have hsample : ((rounds .little).run
      (new 0 (offer .requestMsg .negotiation 5) ⟨.requestMsg, CMem.CharArray.zero _⟩)
      (List.replicate 8 (answer false) ++ [.wait 0 ⟨.success, 0⟩] ++
        List.replicate 9 (answer false))).map
      (fun r => (r.1.curState, r.2.length)) = some (.idle, 2) := by decide +kernel
  obtain ⟨⟨s, ls⟩, hrun, hs⟩ := Option.map_eq_some_iff.1 hsample
  obtain ⟨hcur, hlen⟩ := Prod.mk.inj hs
  exact ⟨s, ls, hrun, hcur, hlen, rounds_over hrun⟩

end ServerSession

end Gdnp
