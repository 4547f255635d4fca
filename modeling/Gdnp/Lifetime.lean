import Gdnp.EndTimer

/-!
# Helper threads and the end of their session

`run` ends with `clear_when_session_end`, which deletes the session.  The wait and end threads are
detached, and nothing waits for them: one that is still running goes on with the fields of the
deleted session (`not_helpers_done`).  A session is deleted with no helper thread left if it comes
to SESSION_END only when the others have returned (`EndsAlone`, `helpers_done`).
-/

open CMem

namespace Gdnp

/-- The session thread is about to call `clear_when_session_end`. -/
def RunPc.isClose : RunPc → Bool
  | close => true
  | _ => false

theorem RunPc.isClose_iff {pc : RunPc} : pc.isClose = true ↔ pc = .close := by
  cases pc <;> simp [isClose]

namespace ServerSession

variable {o : ByteOrder} {s s' : ServerSession} {a : SessionAct} {es : List SessionEvent}

/-- All wait and end threads started so far have returned. -/
def HelpersDone (s : ServerSession) : Prop :=
  (∀ t ∈ s.waitThreads, t.pc = .done) ∧ ∀ t ∈ s.endThreads, t.pc = .done

instance (s : ServerSession) : Decidable s.HelpersDone := inferInstanceAs (Decidable (_ ∧ _))

/-- SESSION_END is set only when all other helper threads have returned, and no end thread is
started in SESSION_END. -/
def EndsAlone (s : ServerSession) : SessionAct → Prop
  | .run _ => match s.runPc with
    | .writeState _ st | .sendSetState _ st => st = .sessionEnd → s.HelpersDone
    | .afterSend type => type = .negoEndMsg → s.HelpersDone
    | .sendLaunchEnd => s.curState ≠ .sessionEnd
    | _ => True
  | .ends k => ∀ t ∈ s.endThreads[k]?, t.pc = .expire →
      (∀ u ∈ s.waitThreads, u.pc = .done) ∧ ∀ u ∈ s.endThreads.eraseIdx k, u.pc = .done
  | _ => True

instance (s : ServerSession) : DecidablePred s.EndsAlone
  | .push _ => inferInstanceAs (Decidable True)
  | .run _ => by
    unfold EndsAlone
    generalize s.runPc = pc
    rcases pc with _ | _ <;> infer_instance
  | .wait _ _ => inferInstanceAs (Decidable True)
  | .ends k => inferInstanceAs (Decidable (∀ t ∈ s.endThreads[k]?, _))

theorem waitStep_eq_none_iff {env : WriteEnv} {t : WaitThread} :
    s.waitStep o env t = none ↔ t.pc = .done := by
  unfold waitStep
  cases t.pc <;> simp
  split <;> simp

theorem endStep_eq_none_iff {t : EndThread} : s.endStep t = none ↔ t.pc = .done := by
  unfold endStep
  cases t.pc <;> simp

/-- The helper threads that have all returned read and write nothing any more. -/
theorem helpersDone_iff :
    s.HelpersDone ↔ ∀ k env, s.step o (.wait k env) = none ∧ s.step o (.ends k) = none := by
  have hwait : ∀ k env, s.step o (.wait k env) = none ↔
      ∀ t, s.waitThreads[k]? = some t → t.pc = .done := fun k env => by
    simp only [step, Option.bind_eq_none_iff, Option.map_eq_none_iff, waitStep_eq_none_iff]
  have hends : ∀ k, s.step o (.ends k) = none ↔
      ∀ t, s.endThreads[k]? = some t → t.pc = .done := fun k => by
    simp only [step, Option.bind_eq_none_iff, Option.map_eq_none_iff, endStep_eq_none_iff]
  simp only [HelpersDone, List.mem_iff_getElem?, hwait, hends]
  constructor
  · rintro ⟨hw, he⟩ k -
    exact ⟨fun t ht => hw t ⟨k, ht⟩, fun t ht => he t ⟨k, ht⟩⟩
  · intro h
    constructor
    · rintro t ⟨k, ht⟩
      exact (h k ⟨.success, 0⟩).1 t ht
    · rintro t ⟨k, ht⟩
      exact (h k ⟨.success, 0⟩).2 t ht

/-- In SESSION_END no helper thread is left. -/
def EndedAlone (s : ServerSession) : Prop := s.curState = .sessionEnd → s.HelpersDone

theorem runStep_endedAlone {env : RunEnv} (h : s.runStep o env = some (s', es))
    (ha : s.EndsAlone (.run env)) (hs : s.EndedAlone) : s'.EndedAlone := by
  intro hend
  unfold EndsAlone at ha
  cases runStep_cases h
  case writeState c st pc | sendSetState type st pc _ =>
    rw [pc] at ha
    exact ha hend
  case launchWait c pc hp => exact absurd (hp.symm.trans hend) (by decide)
  case setIdle c d pc => cases hend
  case sendSetStateNego st pc =>
    rw [pc] at ha
    exact ha hend
  case sendLaunchEnd pc =>
    rw [pc] at ha
    exact absurd hend ha
  case afterSendEnd pc =>
    rw [pc] at ha
    exact ha rfl
  all_goals exact hs hend

theorem step_endedAlone (h : s.step o a = some (s', es)) (ha : s.EndsAlone a)
    (hs : s.EndedAlone) : s'.EndedAlone := by
  cases a with
  | push c =>
    cases h
    exact hs
  | run env => exact runStep_endedAlone h ha hs
  | wait k env =>
    obtain ⟨t, t', ht, hstep, rfl⟩ := step_wait_iff.1 h
    intro hend
    have hdone := (hs hend).1 t (List.mem_of_getElem? ht)
    rw [waitStep, hdone] at hstep
    cases hstep
  | ends k =>
    obtain ⟨t, t', s₁, ht, hstep, rfl, -⟩ := step_ends_iff.1 h
    intro hend
    by_cases hcur : s.curState = .sessionEnd
    · have hdone := (hs hcur).2 t (List.mem_of_getElem? ht)
      rw [endStep, hdone] at hstep
      cases hstep
    · cases endStep_inv hstep with
      | expire pc =>
        obtain ⟨hwait, hothers⟩ := ha t ht pc
        refine ⟨hwait, fun u hu => ?_⟩
        obtain ⟨j, hj⟩ := List.mem_iff_getElem?.1 hu
        by_cases hjk : k = j
        · subst hjk
          rw [List.getElem?_set_self (List.getElem?_eq_some_iff.1 ht).1] at hj
          rw [← Option.some.inj hj]
        · rw [List.getElem?_set_ne hjk] at hj
          exact hothers u (List.mem_eraseIdx_iff_getElem?.2 ⟨j, Ne.symm hjk, hj⟩)
      | _ => exact absurd hend hcur

/-- If a session comes to SESSION_END only when its other helper threads have returned, none of
them is left when `clear_when_session_end` deletes the session. -/
theorem helpers_done {sessionId : UInt32} {c last : Content} {as : List SessionAct}
    (hok : (machine o).Guarded EndsAlone (new sessionId c last) as)
    (hrun : (machine o).run (new sessionId c last) as = some (s, es)) (hpc : s.runPc = .close) :
    ∀ k env, s.step o (.wait k env) = none ∧ s.step o (.ends k) = none := by
  have hs : s.InPhase ∧ s.EndedAlone := by
    refine EventMachine.run_preserves (I := fun s => s.InPhase ∧ s.EndedAlone)
      (fun _ _ _ _ hi ha h => ⟨step_inPhase h hi.1, step_endedAlone h ha hi.2⟩) ?_ hok hrun
    exact ⟨inPhase_new sessionId c last, nofun⟩
  obtain ⟨⟨st, hw, hcur⟩, halone⟩ := hs
  rw [hpc] at hw
  apply helpersDone_iff.1
  apply halone
  exact hcur.elim (fun hcur => hcur.trans hw) id

/-- The client ends the negotiation while the end thread and the wait thread of its request
sleep. -/
theorem not_helpers_done :
    ¬ ∀ (o : ByteOrder) (sessionId : UInt32) (c last : Content) (as : List SessionAct)
        (s : ServerSession) (es : List SessionEvent),
      (machine o).run (new sessionId c last) as = some (s, es) → s.runPc = .close →
      ∀ k env, s.step o (.wait k env) = none ∧ s.step o (.ends k) = none := by
  intro h
  have hsample : ((machine .little).run
      (new 0 (offer .requestMsg .negotiation 5) ⟨.requestMsg, CharArray.zero _⟩)
      (List.replicate 17 (answer false) ++ [.push (offer .negoEndMsg .accept 0)] ++
        List.replicate 9 (answer false))).map
      (fun r => (r.1.runPc.isClose, decide r.1.HelpersDone)) = some (true, false) := by
    decide +kernel
  obtain ⟨⟨s, es⟩, hrun, hs⟩ := Option.map_eq_some_iff.1 hsample
  obtain ⟨hpc, hdone⟩ := Prod.mk.inj hs
  have hnone := h _ _ _ _ _ s es hrun (RunPc.isClose_iff.1 hpc)
  exact of_decide_eq_false hdone (helpersDone_iff.2 hnone)

/-- The wait thread has seen the reply before the session ends. -/
theorem helpers_done_accepted :
    ∃ s es, (machine .little).run
        (new 0 (offer .requestMsg .negotiation 5) ⟨.requestMsg, CharArray.zero _⟩)
        (List.replicate 10 (answer true) ++ [.wait 0 ⟨.success, 0⟩] ++
          List.replicate 6 (answer true)) = some (s, es) ∧
      ∀ k env, s.step .little (.wait k env) = none ∧ s.step .little (.ends k) = none := by
  have hsample : ((machine .little).run
      (new 0 (offer .requestMsg .negotiation 5) ⟨.requestMsg, CharArray.zero _⟩)
      (List.replicate 10 (answer true) ++ [.wait 0 ⟨.success, 0⟩] ++
        List.replicate 6 (answer true))).map (·.1.runPc.isClose) = some true := by
    decide +kernel
  obtain ⟨⟨s, es⟩, hrun, hpc⟩ := Option.map_eq_some_iff.1 hsample
  exact ⟨s, es, hrun, helpers_done (by decide +kernel) hrun (RunPc.isClose_iff.1 hpc)⟩

end ServerSession

end Gdnp
