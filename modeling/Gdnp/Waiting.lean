import Gdnp.EndTimer

/-!
# A waiting session and its timer

A counter-offer alone starts an end thread, while every message that is popped raises the flag on
which the running ones return.  A message that is skipped as a duplicate, rejected by `set_state`
or left without a reply because `write` failed can therefore leave the session waiting for ever
(`not_timer_running`).  If each such message is followed by another one in the queue
(`KeepsTimer`), a session that waits in IDLE has an end thread that will end it (`timer_running`).
-/

open CMem

namespace Gdnp

/-- The session thread is at the head of its loop. -/
def RunPc.isHead : RunPc → Bool
  | head => true
  | _ => false

theorem RunPc.isHead_iff {pc : RunPc} : pc.isHead = true ↔ pc = .head := by
  cases pc <;> simp [isHead]

namespace ServerSession

variable {o : ByteOrder} {s s' s₁ : ServerSession} {a : SessionAct} {es es' : List SessionEvent}
  {k n : ℕ} {t t' : EndThread}

/-- A step of end thread `k`. -/
def isEnds (k : ℕ) : SessionAct → Bool
  | .ends j => j = k
  | _ => false

/-- End thread `k` runs, and sets SESSION_END as its last step unless a further message is
popped. -/
def WillExpire (o : ByteOrder) (s : ServerSession) (k : ℕ) : Prop :=
  ∃ t, s.endThreads[k]? = some t ∧ t.pc ≠ .done ∧
    ∀ as s' es, (machine o).run s as = some (s', es) → es.filterMap popped? = [] →
      s'.runPc ≠ .pop →
      s'.curState = .sessionEnd ∨ ∃ t', s'.endThreads[k]? = some t' ∧ t'.pc ≠ .done ∧
        t'.stepsLeft + as.countP (isEnds k) ≤ t.stepsLeft

/-- A message that the session thread handles without starting an end thread is followed by
another one in the queue. -/
def KeepsTimer (s : ServerSession) : SessionAct → Prop
  | .run env => s.curState = .idle → match s.runPc with
    | .pop => ∀ c ∈ s.q.head?, ((filter s.lastContent c).getD env.overrun).1 = true →
        s.q.tail ≠ []
    | .setState c => c.type ≠ .requestMsg → c.type ≠ .negoMsg → c.type ≠ .negoEndMsg → s.q ≠ []
    | .sendWrite _ r => r.type = .negoMsg →
        (writePdu r.bits r.type s.sessionId env.write).2 = none → s.q ≠ []
    | _ => True
  | _ => True

instance (s : ServerSession) : DecidablePred s.KeepsTimer
  | .push _ => inferInstanceAs (Decidable True)
  | .run env => by
    unfold KeepsTimer
    generalize s.runPc = pc
    rcases pc with _ | _ <;> infer_instance
  | .wait _ _ => inferInstanceAs (Decidable True)
  | .ends _ => inferInstanceAs (Decidable True)

/-! ### An end thread on its way to SESSION_END -/

/-- End thread `k` expires within `n` of its steps if the flag stays down. -/
def Armed (k n : ℕ) (s : ServerSession) : Prop :=
  ∃ t, s.endThreads[k]? = some t ∧ (t.Looks ∧ s.idleCheck = 0 ∨ t.pc = .expire) ∧ t.stepsLeft ≤ n

theorem Armed.congr (h : s.Armed k n) (hk : s'.endThreads[k]? = s.endThreads[k]?)
    (hidle : s.idleCheck = 0 → s'.idleCheck = 0) : s'.Armed k n := by
  obtain ⟨t, ht, harmed, hn⟩ := h
  exact ⟨t, hk.trans ht, harmed.imp_left (And.imp_right hidle), hn⟩

theorem ne_done_of_armed (ht : t.Looks ∧ s.idleCheck = 0 ∨ t.pc = .expire) : t.pc ≠ .done := by
  intro hdone
  obtain ⟨hpc | hpc, -⟩ | hpc := ht <;>
  · rw [hdone] at hpc
    cases hpc

/-- With the flag down, an end thread comes closer to its end with each step, and ends with
SESSION_END. -/
theorem endStep_armed (h : EndStep s t t' s₁)
    (ht : t.Looks ∧ s.idleCheck = 0 ∨ t.pc = .expire) :
    s₁.curState = .sessionEnd ∨
      (t'.Looks ∧ s₁.idleCheck = 0 ∨ t'.pc = .expire) ∧ t'.stepsLeft + 1 ≤ t.stepsLeft := by
  cases h with
  | sleep pc =>
    obtain ⟨-, hidle⟩ | hpc := ht
    · refine .inr ⟨.inl ⟨.inr rfl, hidle⟩, ?_⟩
      simp only [EndThread.stepsLeft, pc]
      omega
    · rw [pc] at hpc
      cases hpc
  | seen pc hidle =>
    obtain ⟨-, hidle'⟩ | hpc := ht
    · rw [hidle'] at hidle
      cases hidle
    · rw [pc] at hpc
      cases hpc
  | again pc hidle hlt =>
    obtain ⟨-, hidle'⟩ | hpc := ht
    · refine .inr ⟨.inl ⟨.inl rfl, hidle'⟩, ?_⟩
      simp only [EndThread.stepsLeft, pc]
      omega
    · rw [pc] at hpc
      cases hpc
  | late pc hidle hle =>
    refine .inr ⟨.inr rfl, ?_⟩
    simp only [EndThread.stepsLeft, pc]
    omega
  | clear pc =>
    obtain ⟨hpc | hpc, -⟩ | hpc := ht <;>
    · rw [pc] at hpc
      cases hpc
  | expire pc => exact .inl rfl

/-- Only the session thread raises the flag. -/
theorem step_idleCheck (h : s.step o a = some (s', es)) (ha : ∀ env, a ≠ .run env)
    (hidle : s.idleCheck = 0) : s'.idleCheck = 0 := by
  cases a with
  | push c =>
    cases h
    exact hidle
  | run env => exact absurd rfl (ha env)
  | wait k env =>
    obtain ⟨u, u', -, -, rfl⟩ := step_wait_iff.1 h
    exact hidle
  | ends k =>
    obtain ⟨u, u', s₁, -, hstep, rfl, -⟩ := step_ends_iff.1 h
    obtain rfl | rfl | ⟨-, rfl⟩ := endStep_cases hstep
    exacts [hidle, rfl, hidle]

/-- As long as the session thread does not raise the flag, an armed end thread stays armed. -/
theorem step_armed (h : s.step o a = some (s', es)) (ha : ∀ env, a ≠ .run env)
    (hs : s.Armed k n) :
    s'.curState = .sessionEnd ∨ ∃ m, s'.Armed k m ∧ m + (if isEnds k a then 1 else 0) ≤ n := by
  obtain ⟨t, hk, ht, hn⟩ := hs
  obtain ⟨hk', hne⟩ | ⟨rfl, t', s₁, hstep, rfl, hk'⟩ := step_endThread h hk
  · have hends : isEnds k a = false := by
      cases a <;> simp_all [isEnds]
    rw [hends]
    exact .inr ⟨n, ⟨t, hk', ht.imp_left (And.imp_right (step_idleCheck h ha)), hn⟩, le_rfl⟩
  · refine (endStep_armed hstep ht).imp_right fun ⟨ht', hlt⟩ =>
      ⟨t'.stepsLeft, ⟨t', hk', ht', le_rfl⟩, ?_⟩
    simp only [isEnds, decide_true, if_true]
    omega

/-- The session thread looks for a message, or has left the loop. -/
def Seeks (s : ServerSession) : Prop :=
  match s.runPc with
  | .head | .checkQueue | .setIdleCheck | .close | .done => True
  | _ => False

/-- Until a message is popped, end thread `k` is on its way to SESSION_END. -/
def Expiring (k n : ℕ) (as : List SessionAct) (s : ServerSession) (es : List SessionEvent) :
    Prop :=
  es.filterMap popped? ≠ [] ∨ s.runPc = .pop ∨ s.Seeks ∧ (s.curState = .sessionEnd ∨
    ∃ m, s.Armed k m ∧ m + as.countP (isEnds k) ≤ n)

theorem runStep_seeks {env : RunEnv} (h : s.runStep o env = some (s', es)) (hs : s.Seeks) :
    (s'.runPc = .pop ∨ s'.Seeks) ∧ s'.curState = s.curState ∧ s'.endThreads = s.endThreads ∧
      (s'.runPc ≠ .pop → s'.idleCheck = s.idleCheck) := by
  unfold Seeks at hs ⊢
  cases runStep_cases h <;> simp_all

theorem step_expiring {as : List SessionAct} {u : List SessionEvent}
    (h : s.step o a = some (s', es)) (hs : s.Expiring k n as u) :
    s'.Expiring k n (as ++ [a]) (u ++ es) := by
  unfold Expiring at hs ⊢
  rw [List.filterMap_append, List.countP_append, List.countP_singleton]
  obtain ⟨env, rfl⟩ | ha := a.run_or
  · rcases hs with hpop | hpc | ⟨hseeks, hend⟩
    · exact .inl (by simp [hpop])
    · refine .inl ?_
      cases runStep_cases h <;> simp_all [popped?]
    · obtain ⟨hpc | hseeks', hcur, hthreads, hidle⟩ := runStep_seeks h hseeks
      · exact .inr (.inl hpc)
      · refine .inr (.inr ⟨hseeks', hend.imp hcur.trans ?_⟩)
        rintro ⟨m, harmed, hm⟩
        have hpc : s'.runPc ≠ .pop := by
          intro hpc
          rw [Seeks, hpc] at hseeks'
          exact hseeks'
        exact ⟨m, harmed.congr (by rw [hthreads]) (hidle hpc).trans, by simpa [isEnds] using hm⟩
  · obtain ⟨hpc, hcur⟩ := step_runPc h ha
    rcases hs with hpop | hpop | ⟨hseeks, hend⟩
    · exact .inl (by simp [hpop])
    · exact .inr (.inl (hpc.trans hpop))
    · refine .inr (.inr ⟨by unfold Seeks; rw [hpc]; exact hseeks, ?_⟩)
      rcases hend with hend | ⟨m, harmed, hm⟩
      · exact .inl (hcur.elim (Eq.trans · hend) id)
      · refine (step_armed h ha harmed).imp_right ?_
        rintro ⟨m', harmed', hm'⟩
        exact ⟨m', harmed', by omega⟩

theorem willExpire_of_armed (hpc : s.runPc = .head) (h : s.Armed k n) : s.WillExpire o k := by
  obtain ⟨t, hk, ht, -⟩ := h
  refine ⟨t, hk, ne_done_of_armed ht, fun as s' es hrun hpop hpc' => ?_⟩
  have hstart : s.Expiring k t.stepsLeft [] [] :=
    .inr (.inr ⟨by rw [Seeks, hpc]; trivial, .inr ⟨_, ⟨t, hk, ht, le_rfl⟩, by simp⟩⟩)
  have hs' : s'.Expiring k t.stepsLeft ([] ++ as) ([] ++ es) :=
    EventMachine.run_invariant_history (fun _ _ _ _ _ _ hs h => step_expiring h hs) hstart hrun
  obtain hpop' | hpop' | ⟨-, hend⟩ := hs'
  · exact absurd hpop hpop'
  · exact absurd hpop' hpc'
  · refine hend.imp_right ?_
    rintro ⟨m, ⟨t', hk', ht', hm⟩, hn⟩
    refine ⟨t', hk', ne_done_of_armed ht', ?_⟩
    rw [List.nil_append] at hn
    omega

/-! ### A session that waits has a timer -/

/-- The session has ended, or has another message, or an end thread that will end it. -/
def Provided (s : ServerSession) : Prop :=
  s.curState = .sessionEnd ∨ s.q ≠ [] ∨ ∃ k n, s.Armed k n

/-- A session that comes back to the head of the loop is provided for. -/
def Timed (s : ServerSession) : Prop :=
  match s.runPc with
  | .head | .checkQueue => s.Provided
  | .sendLaunchEnd => s.idleCheck = 0
  | .afterSend type => type = .negoEndMsg ∨ s.Provided
  | _ => True

/-- Where the session thread is when it gives up a message, the state is IDLE or SESSION_END. -/
theorem InPhase.idle_or_end (hs : s.InPhase) (hw : ∀ st, s.runPc.Wrote st → st = .idle) :
    s.curState = .idle ∨ s.curState = .sessionEnd := by
  obtain ⟨st, hst, hcur⟩ := hs
  rw [hw st hst] at hcur
  exact hcur

theorem runStep_timed {env : RunEnv} (h : s.runStep o env = some (s', es)) (hphase : s.InPhase)
    (ha : s.KeepsTimer (.run env)) (hs : s.Timed) : s'.Timed := by
  unfold Timed at hs
  unfold KeepsTimer at ha
  cases runStep_cases h
  case head pc _ | queueEmpty pc _ =>
    rw [pc] at hs
    exact hs
  case popSkip c q l pc hq hf =>
    rw [pc] at ha
    obtain hcur | hcur := hphase.idle_or_end fun st hst => by rw [pc] at hst; exact hst
    · refine .inr (.inl ?_)
      have hrest := ha hcur c (by rw [hq]; rfl) (by rw [hf])
      rw [hq] at hrest
      exact hrest
    · exact .inl hcur
  case setStateErr c e pc hst =>
    rw [pc] at ha
    obtain hcur | hcur := hphase.idle_or_end fun st hst => by rw [pc] at hst; exact hst
    · rw [hcur] at hst
      refine .inr (.inl (ha hcur ?_ ?_ ?_)) <;>
      · intro hc
        rw [hc] at hst
        cases hst
    · exact .inl hcur
  case checkEndHead c pc st =>
    obtain ⟨st', hw, rfl | hcur⟩ := hphase
    · rw [pc] at hw
      obtain ⟨hc, hp⟩ | ⟨-, he⟩ := setState_idle_eq_ok_iff.1 hw
      · exact absurd ⟨by rw [hp]; decide, hc.symm⟩ st
      · exact .inl he
    · exact .inl hcur
  case sendRefused c r e pc hst =>
    obtain ⟨st', hw, hcur⟩ := hphase
    rw [pc] at hw
    refine .inr (.inl (hcur.resolve_left fun hcur => ?_))
    rw [hcur, hw.1, sendAllowed_idle hw.2.2] at hst
    cases hst
  case sendFails c r e pc hw =>
    rw [pc] at ha
    obtain hcur | hcur := hphase.idle_or_end fun st hst => by rw [pc] at hst; exact hst.1
    · obtain ⟨st, hst, -⟩ := hphase
      rw [pc] at hst
      obtain ⟨-, -, ht | ht⟩ := hst
      · exact .inr (.inr (.inl (ha hcur ht (by rw [hw]))))
      · exact .inl ht
    · exact .inr (.inl hcur)
  case sendSetState type st pc ht =>
    obtain ⟨st', hw, -⟩ := hphase
    rw [pc] at hw
    obtain ⟨-, ⟨ht', -⟩ | ⟨ht', -⟩⟩ := hw
    · exact absurd ht' ht
    · exact .inl ht'
  case sendClearIdleCheck pc => rfl
  case sendLaunchEnd pc =>
    rw [pc] at hs
    refine .inr (.inr (.inr ⟨s.endThreads.length, _, ⟨.sleep, 0⟩, ?_, .inl ⟨.inl rfl, hs⟩, le_rfl⟩))
    exact List.getElem?_concat_length
  case afterSendEnd pc => exact .inl rfl
  case afterSend type pc ht =>
    rw [pc] at hs
    exact hs.resolve_left ht
  all_goals trivial

theorem Provided.step (h : s.step o a = some (s', es)) (ha : ∀ env, a ≠ .run env)
    (hs : s.Provided) : s'.Provided := by
  obtain ⟨-, hcur⟩ := step_runPc h ha
  obtain hend | hq | ⟨k, n, harmed⟩ := hs
  · exact .inl (hcur.elim (Eq.trans · hend) id)
  · refine .inr (.inl ?_)
    cases a with
    | push c =>
      cases h
      simp
    | run env => exact absurd rfl (ha env)
    | wait k env =>
      obtain ⟨t, t', -, -, rfl⟩ := step_wait_iff.1 h
      exact hq
    | ends k =>
      obtain ⟨t, t', s₁, -, hstep, rfl, -⟩ := step_ends_iff.1 h
      obtain rfl | rfl | ⟨-, rfl⟩ := endStep_cases hstep <;> exact hq
  · obtain hend | ⟨m, harmed', -⟩ := step_armed h ha harmed
    · exact .inl hend
    · exact .inr (.inr ⟨k, m, harmed'⟩)

theorem step_timed (h : s.step o a = some (s', es)) (hphase : s.InPhase) (ha : s.KeepsTimer a)
    (hs : s.Timed) : s'.Timed := by
  obtain ⟨env, rfl⟩ | ha' := a.run_or
  · exact runStep_timed h hphase ha hs
  · unfold Timed at hs ⊢
    rw [(step_runPc h ha').1]
    cases hpc : s.runPc <;> rw [hpc] at hs
    case head | checkQueue => exact Provided.step h ha' hs
    case sendLaunchEnd => exact step_idleCheck h ha' hs
    case afterSend type => exact hs.imp_right (Provided.step h ha')
    all_goals trivial

/-- If each message that is handled without a counter-offer is followed by another one, a session
that waits in IDLE for its next message has an end thread that will end it. -/
theorem timer_running {sessionId : UInt32} {c last : Content} {as : List SessionAct}
    (hok : (machine o).Guarded KeepsTimer (new sessionId c last) as)
    (hrun : (machine o).run (new sessionId c last) as = some (s, es))
    (hpc : s.runPc = .head) (hcur : s.curState = .idle) (hq : s.q = []) :
    ∃ k, s.WillExpire o k := by
  have hs : s.InPhase ∧ s.Timed := by
    refine EventMachine.run_preserves (I := fun s => s.InPhase ∧ s.Timed)
      (fun _ _ _ _ hi ha h => ⟨step_inPhase h hi.1, step_timed h hi.1 ha hi.2⟩) ?_ hok hrun
    exact ⟨inPhase_new sessionId c last, .inr (.inl (List.cons_ne_nil c []))⟩
  have hprovided := hs.2
  rw [Timed, hpc] at hprovided
  obtain hend | hne | ⟨k, n, harmed⟩ := hprovided
  · rw [hcur] at hend
    cases hend
  · exact absurd hq hne
  · exact ⟨k, willExpire_of_armed hpc harmed⟩

/-- A message of a type that `set_state` rejects makes the only end thread return. -/
theorem not_timer_running :
    ¬ ∀ (o : ByteOrder) (sessionId : UInt32) (c last : Content) (as : List SessionAct)
        (s : ServerSession) (es : List SessionEvent),
      (machine o).run (new sessionId c last) as = some (s, es) → es.filterMap popped? ≠ [] →
      s.runPc = .head → s.curState = .idle → s.q = [] → ∃ k, s.WillExpire o k := by
  intro h
  have hsample : ((machine .little).run
      (new 0 (offer .requestMsg .negotiation 5) ⟨.requestMsg, CharArray.zero _⟩)
      (List.replicate 17 (answer false) ++ [.push (offer .waitMsg .negotiation 3)] ++
        List.replicate 5 (answer false) ++ List.replicate 3 (.ends 0))).map
      (fun r => ((r.2.filterMap popped?).length, r.1.runPc.isHead, r.1.curState, r.1.q,
        r.1.endThreads.map (·.pc))) = some (2, true, .idle, [], [.done]) := by decide +kernel
  obtain ⟨⟨s, es⟩, hrun, hs⟩ := Option.map_eq_some_iff.1 hsample
  simp only [Prod.mk.injEq] at hs
  obtain ⟨hpop, hpc, hcur, hq, hthreads⟩ := hs
  have hne : es.filterMap popped? ≠ [] := by
    intro hnil
    rw [hnil] at hpop
    cases hpop
  obtain ⟨k, t, hk, hdone, -⟩ := h _ _ _ _ _ s es hrun hne (RunPc.isHead_iff.1 hpc) hcur hq
  have hmem : t.pc ∈ s.endThreads.map (·.pc) := List.mem_map_of_mem (List.mem_of_getElem? hk)
  rw [hthreads] at hmem
  exact hdone (List.mem_singleton.1 hmem)

/-- After a counter-offer its end thread will end the session. -/
theorem timer_running_offered :
    ∃ s es, (machine .little).run
        (new 0 (offer .requestMsg .negotiation 5) ⟨.requestMsg, CharArray.zero _⟩)
        (List.replicate 17 (answer false)) = some (s, es) ∧ ∃ k, s.WillExpire .little k := by
  have hsample : ((machine .little).run
      (new 0 (offer .requestMsg .negotiation 5) ⟨.requestMsg, CharArray.zero _⟩)
      (List.replicate 17 (answer false))).map
      (fun r => (r.1.runPc.isHead, r.1.curState, r.1.q)) = some (true, .idle, []) := by
    decide +kernel
  obtain ⟨⟨s, es⟩, hrun, hs⟩ := Option.map_eq_some_iff.1 hsample
  simp only [Prod.mk.injEq] at hs
  obtain ⟨hpc, hcur, hq⟩ := hs
  exact ⟨s, es, hrun, timer_running (by decide +kernel) hrun (RunPc.isHead_iff.1 hpc) hcur hq⟩

end ServerSession

end Gdnp
