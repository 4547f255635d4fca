import Gdnp.Session

/-!
# SESSION_END is not final

Each write of the state follows a check of it, but the two are separate steps.  An end thread that
expires between them has its SESSION_END overwritten (`not_sessionEnd_final`).  `Overwrites` says
when the session thread is at such a place; if no end thread expires there, SESSION_END is final
(`sessionEnd_final`), and if one does, the session can leave SESSION_END again
(`exists_leaves_sessionEnd`).
-/

open CMem

namespace Gdnp

/-- The session thread of session `sessionId` has made its last check of the state and goes on to
write another state than SESSION_END. -/
def RunPc.Overwrites (sessionId : UInt32) : RunPc → Prop
  | writeState _ st => st ≠ .sessionEnd
  | upper _ => True
  | setIdle _ _ => True
  | sendWrite _ r => r.type = .negoMsg ∧ Writable r.bits sessionId
  | sendSetState _ st => st ≠ .sessionEnd
  | _ => False

instance (sessionId : UInt32) (pc : RunPc) : Decidable (pc.Overwrites sessionId) := by
  cases pc <;> unfold RunPc.Overwrites <;> try infer_instance
  exact inferInstanceAs (Decidable (_ ∧ _ ∧ _))

namespace ServerSession

/-- An end thread does not expire while the session thread is about to overwrite the state. -/
def ExpiresInTime (s : ServerSession) : SessionAct → Prop
  | .ends k => ∀ t ∈ s.endThreads[k]?, t.pc = .expire → ¬ s.runPc.Overwrites s.sessionId
  | _ => True

instance (s : ServerSession) : DecidablePred s.ExpiresInTime
  | .push _ => inferInstanceAs (Decidable True)
  | .run _ => inferInstanceAs (Decidable True)
  | .wait _ _ => inferInstanceAs (Decidable True)
  | .ends k => inferInstanceAs (Decidable (∀ t ∈ s.endThreads[k]?, _))

/-- In SESSION_END no write of another state is pending. -/
def EndSettled (s : ServerSession) : Prop :=
  s.curState = .sessionEnd → ¬ s.runPc.Overwrites s.sessionId

variable {o : ByteOrder} {s s' : ServerSession} {a : SessionAct} {es : List SessionEvent}

theorem endSettled_new (sessionId : UInt32) (c last : Content) :
    (new sessionId c last).EndSettled := by
  rintro ⟨⟩

/-- The session thread overwrites SESSION_END only where `Overwrites` says so, and gets there only
from another state. -/
theorem runStep_endSettled {env : RunEnv} (h : s.runStep o env = some (s', es))
    (hs : s.EndSettled) :
    s'.EndSettled ∧ (s.curState = .sessionEnd → s'.curState = .sessionEnd) := by
  unfold EndSettled at *
  cases runStep_cases h with
  | setState pc hst =>
    refine ⟨fun hend => ?_, id⟩
    rw [show s.curState = .sessionEnd from hend] at hst
    cases hst
  | sendSwitch pc hst =>
    refine ⟨fun hend => ?_, id⟩
    rw [show s.curState = .sessionEnd from hend] at hst
    cases hst
  | sendNego pc ht hw =>
    have hwritable := (decode_of_writePdu (congrArg Prod.snd hw)).1
    exact ⟨fun hend => absurd (by rw [pc]; exact ⟨ht, hwritable⟩) (hs hend), id⟩
  | _ => simp_all [RunPc.Overwrites]

theorem step_endSettled (h : step o s a = some (s', es)) (ha : s.ExpiresInTime a)
    (hs : s.EndSettled) :
    s'.EndSettled ∧ (s.curState = .sessionEnd → s'.curState = .sessionEnd) := by
  cases a with
  | push c =>
    cases h
    exact ⟨hs, id⟩
  | run env => exact runStep_endSettled h hs
  | wait k env =>
    obtain ⟨t, t', -, -, rfl⟩ := step_wait_iff.1 h
    exact ⟨hs, id⟩
  | ends k =>
    obtain ⟨t, t', s₁, ht, hstep, rfl, -⟩ := step_ends_iff.1 h
    obtain rfl | rfl | ⟨hpc, rfl⟩ := endStep_cases hstep
    · exact ⟨hs, id⟩
    · exact ⟨hs, id⟩
    · exact ⟨fun _ => ha t ht hpc, fun _ => rfl⟩

/-- If no end thread expires while the session thread is about to overwrite the state, a session
that has come to SESSION_END stays there. -/
theorem sessionEnd_final {sessionId : UInt32} {c last : Content} {as bs : List SessionAct}
    {s s' : ServerSession} {es es' : List SessionEvent}
    (hok : (machine o).Guarded ExpiresInTime (new sessionId c last) (as ++ bs))
    (has : (machine o).run (new sessionId c last) as = some (s, es))
    (hend : s.curState = .sessionEnd) (hbs : (machine o).run s bs = some (s', es')) :
    s'.curState = .sessionEnd := by
  obtain ⟨hok₁, hok₂⟩ := (EventMachine.guarded_append_iff has).1 hok
  have hs : s.EndSettled :=
    EventMachine.run_preserves (I := EndSettled)
      (fun _ _ _ _ hi ha h => (step_endSettled h ha hi).1) (endSettled_new sessionId c last)
      hok₁ has
  exact (EventMachine.run_preserves (I := fun s => s.EndSettled ∧ s.curState = .sessionEnd)
    (fun _ _ _ _ hi ha h => (step_endSettled h ha hi.1).imp_right fun hkeep => hkeep hi.2)
    ⟨hs, hend⟩ hok₂ hbs).2

/-- Wherever `Overwrites` holds, the session thread can go on to another state than
SESSION_END. -/
theorem exists_leaves_sessionEnd (h : s.runPc.Overwrites s.sessionId) :
    ∃ as s' es, (machine o).run s as = some (s', es) ∧ s'.curState ≠ .sessionEnd := by
  cases hpc : s.runPc <;> rw [hpc] at h
  case writeState c st =>
    refine ⟨[answer true], { s with curState := st, runPc := .launchWait c }, [], ?_, h⟩
    simp [EventMachine.run, machine, step, answer, runStep, hpc]
  case setIdle c d =>
    refine ⟨[answer true], { s with curState := .idle, runPc := .decide c d }, [], ?_, by simp⟩
    simp [EventMachine.run, machine, step, answer, runStep, hpc]
  case upper c =>
    refine ⟨[answer true, answer true],
      { s with curState := .idle, runPc := .decide c valueB }, [], ?_, by simp⟩
    simp [EventMachine.run, machine, step, answer, runStep, hpc]
  case sendSetState type st =>
    refine ⟨[answer true], { s with
      curState := st
      runPc := if type = .negoMsg then .sendClearIdleCheck else .afterSend type }, [], ?_, h⟩
    simp [EventMachine.run, machine, step, answer, runStep, hpc]
  case sendWrite c r =>
    obtain ⟨ht, hw⟩ := h
    have hsucc : (writePdu r.bits .negoMsg s.sessionId ⟨.success, 0⟩).1 = .success :=
      writePdu_success_iff.2 ⟨hw, rfl⟩
    obtain ⟨msg, hmsg⟩ := Option.isSome_iff_exists.1 (writePdu_isSome_iff.2 hsucc)
    have hpair : writePdu r.bits .negoMsg s.sessionId ⟨.success, 0⟩ = (.success, some msg) :=
      Prod.ext hsucc hmsg
    refine ⟨[answer true, answer true], { s with curState := .idle, runPc := .sendClearIdleCheck },
      [.replied c r .success, .wrote (some c) msg], ?_, by simp⟩
    simp [EventMachine.run, machine, step, answer, runStep, hpc, ht, hpair]
  all_goals exact absurd h id

/-- The end thread started with the counter-offer expires after the session thread has looked at
the state to handle the next message, which then moves the session on to PROCESSING. -/
theorem not_sessionEnd_final :
    ¬ ∀ (o : ByteOrder) (sessionId : UInt32) (c last : Content) (as bs : List SessionAct)
        (s s' : ServerSession) (es es' : List SessionEvent),
      (machine o).run (new sessionId c last) as = some (s, es) → s.curState = .sessionEnd →
      (machine o).run s bs = some (s', es') → s'.curState = .sessionEnd := by
  intro h
  let start := new 0 (offer .requestMsg .negotiation 5) ⟨.requestMsg, CharArray.zero _⟩
  let as := List.replicate 17 (answer false) ++ List.replicate 40 (.ends 0) ++
    [.push (offer .negoMsg .negotiation 3)] ++ List.replicate 5 (answer false) ++ [.ends 0]
  have hend : ((machine .little).run start as).map (·.1.curState) = some .sessionEnd := by
    decide +kernel
  have hleft : ((machine .little).run start (as ++ [answer false])).map (·.1.curState) =
      some .processing := by decide +kernel
  obtain ⟨⟨s', es'⟩, hrun, hs'⟩ := Option.map_eq_some_iff.1 hleft
  obtain ⟨s, es, es₂, has, hbs, -⟩ := EventMachine.run_append_iff.1 hrun
  rw [has] at hend
  have hfinal := h _ _ _ _ _ _ s s' es es₂ has (Option.some.inj hend) hbs
  rw [hfinal] at hs'
  cases hs'

/-- A session whose end thread expires while it waits has ended for good, whatever comes then. -/
theorem sessionEnd_final_expired :
    ∃ s es, (machine .little).run
        (new 0 (offer .requestMsg .negotiation 5) ⟨.requestMsg, CharArray.zero _⟩)
        (List.replicate 17 (answer false) ++ List.replicate 41 (.ends 0) ++
          [.push (offer .negoMsg .negotiation 3), answer true, answer true]) = some (s, es) ∧
      s.curState = .sessionEnd := by
  have hsome : ((machine .little).run
      (new 0 (offer .requestMsg .negotiation 5) ⟨.requestMsg, CharArray.zero _⟩)
      (List.replicate 17 (answer false) ++ List.replicate 41 (.ends 0) ++
        [.push (offer .negoMsg .negotiation 3), answer true, answer true])).isSome := by
    decide +kernel
  obtain ⟨⟨s', es'⟩, hrun⟩ := Option.isSome_iff_exists.1 hsome
  obtain ⟨s, es, es₂, has, hbs, -⟩ := EventMachine.run_append_iff.1 hrun
  have hend : ((machine .little).run
      (new 0 (offer .requestMsg .negotiation 5) ⟨.requestMsg, CharArray.zero _⟩)
      (List.replicate 17 (answer false) ++ List.replicate 41 (.ends 0))).map (·.1.curState) =
      some .sessionEnd := by
    decide +kernel
  rw [has] at hend
  exact ⟨s', es', hrun, sessionEnd_final (by decide +kernel) has (Option.some.inj hend) hbs⟩

end ServerSession

end Gdnp
