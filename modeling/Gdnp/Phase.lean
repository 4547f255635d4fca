import Gdnp.Session
import Gdnp.Offer

/-!
# The session thread's own writes of the state

At each place of `run` the session thread knows which state it wrote last (`RunPc.Wrote`).  Only an
expired end thread can have put SESSION_END over it (`InPhase`); as long as none expires, the state
is the one the session thread wrote (`step_wrote`).
-/

namespace Gdnp

theorem setState_idle_eq_ok_iff {type : MsgType} {st : ServerState} :
    setState .idle type = .ok st ↔
      ((type = .requestMsg ∨ type = .negoMsg) ∧ st = .processing) ∨
        (type = .negoEndMsg ∧ st = .sessionEnd) := by
  cases type <;> simp [setState, eq_comm]

theorem sendAllowed_idle {type : MsgType} (h : type = .negoMsg ∨ type = .negoEndMsg) :
    sendAllowed .idle type = .ok () := by
  rcases h with rfl | rfl <;> rfl

theorem reply_type (o : ByteOrder) (recv : ObjectiveOption) (upperData : CMem.CString)
    (geq : Bool) :
    (reply o recv upperData geq).type = .negoMsg ∨
      (reply o recv upperData geq).type = .negoEndMsg := by
  unfold reply
  split_ifs
  exacts [.inr rfl, .inl rfl, .inr rfl, .inr rfl]

/-- At `pc` the state the session thread itself wrote last is `st`. -/
def RunPc.Wrote : RunPc → ServerState → Prop
  | head, st => st ≠ .processing
  | checkQueue, st | setIdleCheck, st | pop, st | setState _, st => st = .idle
  | writeState c st', st => st = .idle ∧ Gdnp.setState .idle c.type = .ok st'
  | launchWait c, st | checkEnd c, st => Gdnp.setState .idle c.type = .ok st
  | upper c, st | setIdle c _, st => st = .processing ∧ c.IsOffer
  | decide c _, st => st = .idle ∧ c.IsOffer
  | sendSwitch c r, st | sendWrite c r, st =>
    st = .idle ∧ c.IsOffer ∧ (r.type = .negoMsg ∨ r.type = .negoEndMsg)
  | sendSetState type st', st =>
    st = .idle ∧ (type = .negoMsg ∧ st' = .idle ∨ type = .negoEndMsg ∧ st' = .sessionEnd)
  | sendClearIdleCheck, st | sendLaunchEnd, st => st = .idle
  | afterSend type, st => type = .negoMsg ∧ st = .idle ∨ type = .negoEndMsg ∧ st ≠ .processing
  | close, st | done, st => st = .sessionEnd

namespace ServerSession

/-- The state is the one the session thread wrote last, or an end thread has expired since. -/
def InPhase (s : ServerSession) : Prop :=
  ∃ st, s.runPc.Wrote st ∧ (s.curState = st ∨ s.curState = .sessionEnd)

/-- No end thread expires in this step. -/
def NoExpire (s : ServerSession) : SessionAct → Prop
  | .ends k => ∀ t ∈ s.endThreads[k]?, t.pc ≠ .expire
  | _ => True

instance (s : ServerSession) : DecidablePred s.NoExpire
  | .push _ => inferInstanceAs (Decidable True)
  | .run _ => inferInstanceAs (Decidable True)
  | .wait _ _ => inferInstanceAs (Decidable True)
  | .ends k => inferInstanceAs (Decidable (∀ t ∈ s.endThreads[k]?, _))

variable {o : ByteOrder} {s s' : ServerSession} {a : SessionAct} {es : List SessionEvent}

/-- Until it is done, the session thread can go on, unless it is to pop from an empty queue. -/
theorem runStep_isSome (hdone : s.runPc.isDone = false) (hpop : s.runPc = .pop → s.q ≠ [])
    (env : RunEnv) : (s.runStep o env).isSome := by
  unfold runStep
  split
  case h_4 hpc =>
    split
    · exact absurd ‹_› (hpop hpc)
    · rfl
  case h_5 => split <;> rfl
  case h_7 => split_ifs <;> rfl
  case h_8 => split_ifs <;> rfl
  case h_12 => split <;> rfl
  case h_13 => split <;> rfl
  case h_17 => split_ifs <;> rfl
  case h_19 hpc =>
    rw [hpc] at hdone
    cases hdone
  all_goals rfl

/-- The session thread by itself leaves the state as `Wrote` says. -/
theorem runStep_wrote {env : RunEnv} (h : s.runStep o env = some (s', es))
    (hs : s.runPc.Wrote s.curState) : s'.runPc.Wrote s'.curState := by
  cases runStep_cases h
  case head pc st =>
    rw [pc] at hs
    show s.curState = .idle
    cases hcur : s.curState
    · rfl
    · exact absurd hcur hs
    · exact absurd hcur st
  case checkEnd c pc st hc =>
    rw [pc] at hs
    obtain ⟨-, hp⟩ | ⟨-, he⟩ := setState_idle_eq_ok_iff.1 hs
    · exact ⟨hp, hc.symm⟩
    · exact absurd he st
  case checkEndHead c pc st =>
    rw [pc] at hs
    intro hp
    obtain ⟨hc, -⟩ | ⟨-, he⟩ := setState_idle_eq_ok_iff.1 hs
    · apply st
      exact ⟨by rw [hp]; decide, hc.symm⟩
    · exact absurd (hp.symm.trans he) (by decide)
  case decide c d pc =>
    rw [pc] at hs
    exact ⟨hs.1, hs.2, reply_type _ _ _ _⟩
  all_goals simp_all [RunPc.Wrote]

/-- Where the state is checked an expired end thread makes the check fail; elsewhere the session
thread goes on as if it had not expired. -/
theorem runStep_inPhase {env : RunEnv} (h : s.runStep o env = some (s', es)) (hs : s.InPhase) :
    s'.InPhase := by
  obtain ⟨st, hw, hcur | hcur⟩ := hs
  · exact ⟨_, runStep_wrote h (hcur ▸ hw), .inl rfl⟩
  · cases runStep_cases h
    case headEnd | close => exact ⟨.sessionEnd, rfl, .inr hcur⟩
    case head | checkEnd => contradiction
    case launchWait c pc hp => exact absurd (hcur.symm.trans hp) (by decide)
    case setState c st' pc hst | sendSwitch c r pc hst =>
      rw [hcur] at hst
      cases hst
    case afterSendEnd => exact ⟨.sessionEnd, (by decide : ServerState.sessionEnd ≠ _), .inl rfl⟩
    case queueEmpty | popSkip | setStateErr | checkEndHead | afterSend =>
      exact ⟨.idle, (by decide : ServerState.idle ≠ .processing), .inr hcur⟩
    case writeState c st' pc =>
      rw [pc] at hw
      exact ⟨st', hw.2, .inl rfl⟩
    case decide c d pc =>
      rw [pc] at hw
      exact ⟨.idle, ⟨rfl, hw.2, reply_type _ _ _ _⟩, .inr hcur⟩
    case sendRefused c r e pc _ | sendFails c r e pc _ =>
      rw [pc] at hw
      obtain ⟨-, -, ht | ht⟩ := hw
      · exact ⟨.idle, .inl ⟨ht, rfl⟩, .inr hcur⟩
      · exact ⟨.idle, .inr ⟨ht, by decide⟩, .inr hcur⟩
    case sendSetState type st' pc ht =>
      rw [pc] at hw
      obtain ⟨-, ⟨ht', -⟩ | ⟨ht', rfl⟩⟩ := hw
      · exact absurd ht' ht
      · exact ⟨.sessionEnd, .inr ⟨ht', by decide⟩, .inl rfl⟩
    all_goals simp_all [InPhase, RunPc.Wrote]

/-- The helper threads leave the session thread where it is, and write at most SESSION_END. -/
theorem step_runPc (h : s.step o a = some (s', es)) (ha : ∀ env, a ≠ .run env) :
    s'.runPc = s.runPc ∧ (s'.curState = s.curState ∨ s'.curState = .sessionEnd) := by
  cases a with
  | push c =>
    cases h
    exact ⟨rfl, .inl rfl⟩
  | run env => exact absurd rfl (ha env)
  | wait k env =>
    obtain ⟨t, t', -, -, rfl⟩ := step_wait_iff.1 h
    exact ⟨rfl, .inl rfl⟩
  | ends k =>
    obtain ⟨t, t', s₁, -, hstep, rfl, -⟩ := step_ends_iff.1 h
    obtain rfl | rfl | ⟨-, rfl⟩ := endStep_cases hstep
    exacts [⟨rfl, .inl rfl⟩, ⟨rfl, .inl rfl⟩, ⟨rfl, .inr rfl⟩]

theorem step_inPhase (h : s.step o a = some (s', es)) (hs : s.InPhase) : s'.InPhase := by
  obtain ⟨env, rfl⟩ | ha := a.run_or
  · exact runStep_inPhase h hs
  · obtain ⟨hpc, hcur⟩ := step_runPc h ha
    obtain ⟨st, hw, hst⟩ := hs
    refine ⟨st, by rw [hpc]; exact hw, ?_⟩
    rcases hcur with hcur | hcur
    · rw [hcur]
      exact hst
    · exact .inr hcur

theorem inPhase_new (sessionId : UInt32) (c last : Content) :
    (new sessionId c last).InPhase :=
  ⟨.idle, (by decide : ServerState.idle ≠ .processing), .inl rfl⟩

/-- The state is PROCESSING only while an offer is handled. -/
theorem InPhase.wrote_processing (hs : s.InPhase) (hp : s.curState = .processing) :
    s.runPc.Wrote .processing := by
  obtain ⟨st, hw, hcur | hcur⟩ := hs
  · rw [← hp, hcur]
    exact hw
  · rw [hp] at hcur
    cases hcur

theorem step_wrote (h : s.step o a = some (s', es)) (ha : s.NoExpire a)
    (hs : s.runPc.Wrote s.curState) : s'.runPc.Wrote s'.curState := by
  cases a with
  | push c =>
    cases h
    exact hs
  | run env => exact runStep_wrote h hs
  | wait k env =>
    obtain ⟨t, t', -, -, rfl⟩ := step_wait_iff.1 h
    exact hs
  | ends k =>
    obtain ⟨t, t', s₁, ht, hstep, rfl, -⟩ := step_ends_iff.1 h
    obtain rfl | rfl | ⟨hpc, -⟩ := endStep_cases hstep
    exacts [hs, hs, absurd hpc (ha t ht)]

end ServerSession

end Gdnp
