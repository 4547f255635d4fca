import Gdnp.Phase

/-!
# The end timer

A session that made a counter-offer ends when it pops no message for `END_TIMEOUT_SECOND`
seconds.  The end thread that measures this sees a popped message only by the one flag
`idle_check`, which the next counter-offer and every other end thread take back
(`not_expires_idle`).  As long as no step takes the signal from an end thread that has still to see
it (`KeepsSignal`), only idle sessions expire (`expires_idle`).

An end thread is started by a counter-offer alone.  A message that is skipped, rejected or not
answered for a failing `write` uses up the signal, and leaves a session without a timer
(`not_timer_running`) unless another message is already queued (`KeepsTimer`, `timer_running`).
-/

open CMem

namespace Gdnp

/-- The end thread has still to look at `idle_check`. -/
def EndThread.Looks (t : EndThread) : Prop := t.pc = .sleep ∨ t.pc = .check

instance (t : EndThread) : Decidable t.Looks := inferInstanceAs (Decidable (_ ∨ _))

/-- The number of steps until an end thread returns, unless it sees a message. -/
def EndThread.stepsLeft (t : EndThread) : ℕ :=
  match t.pc with
  | .sleep => 2 * (endTimeoutSecond - 1 - t.totalSleep) + 3
  | .check => 2 * (endTimeoutSecond - t.totalSleep) + 2
  | .clear | .expire => 1
  | .done => 0

namespace ServerSession

/-- The branches of `endStep`. -/
inductive EndStep (s : ServerSession) (t : EndThread) : EndThread → ServerSession → Prop
  | sleep (pc : t.pc = .sleep) : EndStep s t ⟨.check, t.totalSleep + 1⟩ s
  | seen (pc : t.pc = .check) (hidle : s.idleCheck = 1) : EndStep s t { t with pc := .clear } s
  | again (pc : t.pc = .check) (hidle : s.idleCheck ≠ 1) (ht : t.totalSleep < endTimeoutSecond) :
    EndStep s t { t with pc := .sleep } s
  | late (pc : t.pc = .check) (hidle : s.idleCheck ≠ 1) (ht : endTimeoutSecond ≤ t.totalSleep) :
    EndStep s t { t with pc := .expire } s
  | clear (pc : t.pc = .clear) : EndStep s t { t with pc := .done } { s with idleCheck := 0 }
  | expire (pc : t.pc = .expire) :
    EndStep s t { t with pc := .done } { s with curState := .sessionEnd }

variable {o : ByteOrder} {s s' s₁ : ServerSession} {a : SessionAct} {es es' : List SessionEvent}
  {k : ℕ} {t t' : EndThread}

theorem endStep_inv (h : s.endStep t = some (t', s₁)) : EndStep s t t' s₁ := by
  unfold endStep at h
  split at h
  · cases h
    exact .sleep ‹_›
  · split_ifs at h with hidle ht <;> cases h
    · exact .seen ‹_› hidle
    · exact .again ‹_› hidle ht
    · exact .late ‹_› hidle (not_lt.1 ht)
  · cases h
    exact .clear ‹_›
  · cases h
    exact .expire ‹_›
  · cases h

/-- The session thread starts an end thread after the others, and leaves these alone. -/
theorem runStep_endThreads {env : RunEnv} (h : s.runStep o env = some (s', es)) :
    s'.endThreads = s.endThreads ∨
      (s.runPc = .sendLaunchEnd ∧ s'.endThreads = s.endThreads ++ [⟨.sleep, 0⟩] ∧
        s'.idleCheck = s.idleCheck) := by
  cases runStep_cases h with
  | sendLaunchEnd pc => exact .inr ⟨pc, rfl, rfl⟩
  | _ => exact .inl rfl

/-- What a step does to end thread `k`. -/
theorem step_endThread (h : s.step o a = some (s', es)) (hk : s.endThreads[k]? = some t) :
    s'.endThreads[k]? = some t ∧ a ≠ .ends k ∨
      a = .ends k ∧ ∃ t' s₁, EndStep s t t' s₁ ∧
        s' = { s₁ with endThreads := s.endThreads.set k t' } ∧ s'.endThreads[k]? = some t' := by
  have hlen := (List.getElem?_eq_some_iff.1 hk).1
  cases a with
  | push c =>
    cases h
    exact .inl ⟨hk, by simp⟩
  | run env =>
    refine .inl ⟨?_, by simp⟩
    obtain he | ⟨-, he, -⟩ := runStep_endThreads h
    · rw [he, hk]
    · rw [he, List.getElem?_append_left hlen, hk]
  | wait j env =>
    obtain ⟨u, u', -, -, rfl⟩ := step_wait_iff.1 h
    exact .inl ⟨hk, by simp⟩
  | ends j =>
    obtain ⟨u, u', s₁, hu, hstep, rfl, -⟩ := step_ends_iff.1 h
    by_cases hj : j = k
    · subst hj
      obtain rfl : t = u := Option.some.inj (hk.symm.trans hu)
      exact .inr ⟨rfl, u', s₁, endStep_inv hstep, rfl, List.getElem?_set_self hlen⟩
    · refine .inl ⟨?_, by simpa using hj⟩
      rw [← hk]
      exact List.getElem?_set_ne hj

/-! ### The clock of an end thread -/

/-- The sleeps an end thread has behind it where it is. -/
def EndClock (t : EndThread) : Prop :=
  match t.pc with
  | .sleep => t.totalSleep < endTimeoutSecond
  | .check => t.totalSleep ≤ endTimeoutSecond
  | .expire => t.totalSleep = endTimeoutSecond
  | .clear | .done => True

theorem endStep_clock (h : EndStep s t t' s₁) (ht : EndClock t) : EndClock t' := by
  unfold EndClock at ht
  cases h with
  | sleep pc =>
    rw [pc] at ht
    exact ht
  | again pc hidle hlt => exact hlt
  | late pc hidle hle =>
    rw [pc] at ht
    exact le_antisymm ht hle
  | _ => trivial

theorem step_endClock (h : s.step o a = some (s', es)) (hs : ∀ t ∈ s.endThreads, EndClock t) :
    ∀ t ∈ s'.endThreads, EndClock t := by
  cases a with
  | push c =>
    cases h
    exact hs
  | run env =>
    obtain he | ⟨-, he, -⟩ := runStep_endThreads h
    · rw [he]
      exact hs
    · rw [he]
      intro t ht
      rcases List.mem_append.1 ht with ht | ht
      · exact hs t ht
      · rw [List.mem_singleton.1 ht]
        exact (by decide : 0 < endTimeoutSecond)
  | wait j env =>
    obtain ⟨u, u', -, -, rfl⟩ := step_wait_iff.1 h
    exact hs
  | ends j =>
    obtain ⟨u, u', s₁, hu, hstep, rfl, -⟩ := step_ends_iff.1 h
    intro t ht
    rcases List.mem_or_eq_of_mem_set ht with ht | rfl
    · exact hs t ht
    · exact endStep_clock (endStep_inv hstep) (hs u (List.mem_of_getElem? hu))

/-- An end thread that is about to set SESSION_END has slept for `END_TIMEOUT_SECOND` seconds. -/
theorem totalSleep_of_expire {sessionId : UInt32} {c last : Content} {as : List SessionAct}
    (hrun : (machine o).run (new sessionId c last) as = some (s, es)) (ht : t ∈ s.endThreads)
    (hpc : t.pc = .expire) : t.totalSleep = endTimeoutSecond := by
  have hclock : ∀ t ∈ s.endThreads, EndClock t :=
    EventMachine.run_invariant (I := fun s => ∀ t ∈ s.endThreads, EndClock t)
      (fun _ _ _ _ hi h => step_endClock h hi) (by simp [new]) hrun
  have := hclock t ht
  rw [EndClock, hpc] at this
  exact this

/-! ### Only idle sessions expire -/

/-- The step takes no signal away from an end thread that has still to look at it, and pops no
message that an end thread past its last look cannot see. -/
def KeepsSignal (s : ServerSession) : SessionAct → Prop
  | .run _ => match s.runPc with
    | .sendClearIdleCheck => s.idleCheck = 1 → ∀ t ∈ s.endThreads, ¬ t.Looks
    | .pop => ∀ t ∈ s.endThreads, t.pc ≠ .expire
    | _ => True
  | .ends k => ∀ t ∈ s.endThreads[k]?, t.pc = .clear → s.idleCheck = 1 →
      ∀ u ∈ s.endThreads, ¬ u.Looks
  | _ => True

instance (s : ServerSession) : DecidablePred s.KeepsSignal
  | .push _ => inferInstanceAs (Decidable True)
  | .run _ => by
    unfold KeepsSignal
    generalize s.runPc = pc
    rcases pc with _ | _ <;> infer_instance
  | .wait _ _ => inferInstanceAs (Decidable True)
  | .ends k => inferInstanceAs (Decidable (∀ t ∈ s.endThreads[k]?, _))

/-- The message that is about to be popped has been signalled to the end threads. -/
def Signalled (s : ServerSession) : Prop :=
  s.runPc = .pop → s.idleCheck = 1 ∨ ∀ t ∈ s.endThreads, ¬ t.Looks

/-- End thread `k` sees, or has seen, that a message was popped. -/
def Heard (k : ℕ) (s : ServerSession) : Prop :=
  ∃ t, s.endThreads[k]? = some t ∧ (t.Looks ∧ s.idleCheck = 1 ∨ t.pc = .clear ∨ t.pc = .done)

theorem step_signalled (h : s.step o a = some (s', es)) (ha : s.KeepsSignal a)
    (hs : s.Signalled) : s'.Signalled := by
  cases a with
  | push c =>
    cases h
    exact hs
  | run env =>
    intro hpop
    cases runStep_cases h with
    | setIdleCheck pc => exact .inl rfl
    | _ => cases hpop
  | wait k env =>
    obtain ⟨u, u', -, -, rfl⟩ := step_wait_iff.1 h
    exact hs
  | ends k =>
    obtain ⟨u, u', s₁, hu, hstep, rfl, -⟩ := step_ends_iff.1 h
    have hmem := List.mem_of_getElem? hu
    intro hpop
    cases endStep_inv hstep
    case sleep pc =>
      refine (hs hpop).imp_right fun hno t ht => ?_
      rcases List.mem_or_eq_of_mem_set ht with ht | rfl
      · exact hno t ht
      · exact absurd (.inl pc) (hno u hmem)
    case seen pc _ | again pc _ _ | late pc _ _ =>
      refine (hs hpop).imp_right fun hno => absurd (.inr pc) (hno u hmem)
    case clear pc =>
      refine .inr fun t ht => ?_
      rcases List.mem_or_eq_of_mem_set ht with ht | rfl
      · by_cases hidle : s.idleCheck = 1
        · exact ha u hu pc hidle t ht
        · exact (hs hpop).resolve_left hidle t ht
      · rintro (hpc | hpc) <;> cases hpc
    case expire pc =>
      refine (hs hpop).imp_right fun hno t ht => ?_
      rcases List.mem_or_eq_of_mem_set ht with ht | rfl
      · exact hno t ht
      · rintro (hpc | hpc) <;> cases hpc

theorem step_heard (h : s.step o a = some (s', es)) (ha : s.KeepsSignal a) (hs : s.Heard k) :
    s'.Heard k := by
  obtain ⟨t, hk, ht⟩ := hs
  obtain ⟨hk', hne⟩ | ⟨rfl, t', s₁, hstep, rfl, hk'⟩ := step_endThread h hk
  · refine ⟨t, hk', ht.imp_left fun ⟨hlooks, hidle⟩ => ⟨hlooks, ?_⟩⟩
    cases a with
    | push c =>
      cases h
      exact hidle
    | run env =>
      cases runStep_cases h with
      | setIdleCheck pc => rfl
      | sendClearIdleCheck pc =>
        rw [KeepsSignal, pc] at ha
        exact absurd hlooks (ha hidle t (List.mem_of_getElem? hk))
      | _ => exact hidle
    | wait j env =>
      obtain ⟨u, u', -, -, rfl⟩ := step_wait_iff.1 h
      exact hidle
    | ends j =>
      obtain ⟨u, u', s₁, hu, hstep, rfl, -⟩ := step_ends_iff.1 h
      cases endStep_inv hstep with
      | clear pc => exact absurd hlooks (ha u hu pc hidle t (List.mem_of_getElem? hk))
      | _ => exact hidle
  · refine ⟨t', hk', ?_⟩
    cases hstep with
    | sleep pc =>
      obtain ⟨-, hidle⟩ | hpc | hpc := ht
      · exact .inl ⟨.inr rfl, hidle⟩
      all_goals rw [pc] at hpc; cases hpc
    | seen pc _ => exact .inr (.inl rfl)
    | again pc hidle _ | late pc hidle _ =>
      obtain ⟨-, hidle'⟩ | hpc | hpc := ht
      · exact absurd hidle' hidle
      all_goals rw [pc] at hpc; cases hpc
    | clear pc => exact .inr (.inr rfl)
    | expire pc => exact .inr (.inr rfl)

theorem runs_of_popped (h : s.step o a = some (s', es)) (hpop : es.filterMap popped? ≠ []) :
    ∃ env, a = .run env ∧ s.runPc = .pop ∧ s'.endThreads = s.endThreads ∧
      s'.idleCheck = s.idleCheck := by
  cases a with
  | push c =>
    cases h
    exact absurd rfl hpop
  | run env =>
    cases runStep_cases h with
    | popSkip pc hq hf => exact ⟨env, rfl, pc, rfl, rfl⟩
    | pop pc hq hf => exact ⟨env, rfl, pc, rfl, rfl⟩
    | _ => exact absurd rfl hpop
  | wait k env =>
    obtain ⟨u, u', -, hstep, -⟩ := step_wait_iff.1 h
    obtain rfl | ⟨msg, rfl, -⟩ := waitStep_events hstep <;> exact absurd rfl hpop
  | ends k =>
    obtain ⟨u, u', s₁, -, -, -, rfl⟩ := step_ends_iff.1 h
    exact absurd rfl hpop

/-- A message that is popped is seen by every end thread. -/
theorem heard_of_popped (h : s.step o a = some (s', es)) (ha : s.KeepsSignal a)
    (hs : s.Signalled) (hk : s.endThreads[k]? = some t) (hpop : es.filterMap popped? ≠ []) :
    s'.Heard k := by
  obtain ⟨env, rfl, pc, hthreads, hidle⟩ := runs_of_popped h hpop
  have hmem := List.mem_of_getElem? hk
  rw [KeepsSignal, pc] at ha
  refine ⟨t, by rw [hthreads, hk], ?_⟩
  rw [hidle]
  by_cases hlooks : t.Looks
  · exact .inl ⟨hlooks, (hs pc).resolve_right fun hno => hno t hmem hlooks⟩
  · have hexpire := ha t hmem
    unfold EndThread.Looks at hlooks
    cases hpc : t.pc <;> simp_all

theorem exists_endThread (h : s.step o a = some (s', es)) (hk : k < s.endThreads.length) :
    k < s'.endThreads.length := by
  obtain ⟨t, ht⟩ : ∃ t, s.endThreads[k]? = some t := ⟨_, List.getElem?_eq_getElem hk⟩
  obtain ⟨hk', -⟩ | ⟨-, t', s₁, -, -, hk'⟩ := step_endThread h ht <;>
    exact (List.getElem?_eq_some_iff.1 hk').1

/-- If no step takes the signal from an end thread that has still to see it, an end thread that is
about to set SESSION_END has slept `END_TIMEOUT_SECOND` times, and the session has popped no
message since it was started. -/
theorem expires_idle {sessionId : UInt32} {c last : Content} {as bs : List SessionAct}
    (hok : (machine o).Guarded KeepsSignal (new sessionId c last) (as ++ bs))
    (has : (machine o).run (new sessionId c last) as = some (s, es))
    (hk : k < s.endThreads.length) (hbs : (machine o).run s bs = some (s', es'))
    (ht : s'.endThreads[k]? = some t) (hpc : t.pc = .expire) :
    t.totalSleep = endTimeoutSecond ∧ es'.filterMap popped? = [] := by
  obtain ⟨hok₁, hok₂⟩ := (EventMachine.guarded_append_iff has).1 hok
  have hrun : (machine o).run (new sessionId c last) (as ++ bs) = some (s', es ++ es') :=
    EventMachine.run_append_iff.2 ⟨s, es, es', has, hbs, rfl⟩
  have hs : s.Signalled :=
    EventMachine.run_preserves (I := Signalled) (fun _ _ _ _ hi ha h => step_signalled h ha hi)
      (by rintro ⟨⟩) hok₁ has
  have hs' : s'.Signalled ∧ k < s'.endThreads.length ∧
      (([] ++ es').filterMap popped? = [] ∨ s'.Heard k) := by
    refine EventMachine.run_preserves_trace
      (P := fun s es => s.Signalled ∧ k < s.endThreads.length ∧
        (es.filterMap popped? = [] ∨ s.Heard k)) (t := []) ?_ ⟨hs, hk, .inl rfl⟩ hok₂ hbs
    rintro s t a s' es ⟨hsig, hlen, hheard⟩ ha h
    refine ⟨step_signalled h ha hsig, exists_endThread h hlen, ?_⟩
    rcases hheard with hnone | hheard
    · by_cases hpop : es.filterMap popped? = []
      · exact .inl (by rw [List.filterMap_append, hnone, hpop]; rfl)
      · exact .inr (heard_of_popped h ha hsig (List.getElem?_eq_getElem hlen) hpop)
    · exact .inr (step_heard h ha hheard)
  refine ⟨totalSleep_of_expire hrun (List.mem_of_getElem? ht) hpc, ?_⟩
  refine hs'.2.2.resolve_right ?_
  rintro ⟨u, hu, hheard⟩
  obtain rfl : t = u := Option.some.inj (ht.symm.trans hu)
  unfold EndThread.Looks at hheard
  simp [hpc] at hheard

/-- The counter-offer to the second message clears the flag before the end thread started with the
first counter-offer has looked at it. -/
theorem not_expires_idle :
    ¬ ∀ (o : ByteOrder) (sessionId : UInt32) (c last : Content) (as bs : List SessionAct)
        (s s' : ServerSession) (es es' : List SessionEvent) (k : ℕ) (t : EndThread),
      (machine o).run (new sessionId c last) as = some (s, es) → k < s.endThreads.length →
      (machine o).run s bs = some (s', es') → s'.endThreads[k]? = some t → t.pc = .expire →
      es'.filterMap popped? = [] := by
  intro h
  let start := new 0 (offer .requestMsg .negotiation 5) ⟨.requestMsg, CharArray.zero _⟩
  let as := List.replicate 17 (answer false)
  let bs := [.push (offer .negoMsg .negotiation 3)] ++ List.replicate 17 (answer false) ++
    List.replicate 40 (.ends 0)
  have hsample : ((machine .little).run start (as ++ bs)).map
      (fun r => ((r.1.endThreads[0]?).map (·.pc), (r.2.filterMap popped?).length)) =
      some (some .expire, 2) := by decide +kernel
  have hfirst : ((machine .little).run start as).map
      (fun r => (r.1.endThreads.length, (r.2.filterMap popped?).length)) =
      some (1, 1) := by decide +kernel
  obtain ⟨⟨s', es₁⟩, hrun, hs'⟩ := Option.map_eq_some_iff.1 hsample
  obtain ⟨s, es, es', has, hbs, rfl⟩ := EventMachine.run_append_iff.1 hrun
  rw [has] at hfirst
  obtain ⟨hlen, hcount⟩ := Prod.mk.inj (Option.some.inj hfirst)
  obtain ⟨hpc, hcount'⟩ := Prod.mk.inj hs'
  obtain ⟨t, ht, htpc⟩ := Option.map_eq_some_iff.1 hpc
  have hnone := h _ _ _ _ _ _ s s' es es' 0 t has (by rw [hlen]; decide) hbs ht htpc
  rw [List.filterMap_append, hnone, List.append_nil, hcount] at hcount'
  cases hcount'

/-- The client never answers the counter-offer, and the session ends. -/
theorem expires_idle_unanswered :
    ∃ s s' es es' t, (machine .little).run
        (new 0 (offer .requestMsg .negotiation 5) ⟨.requestMsg, CharArray.zero _⟩)
        (List.replicate 17 (answer false)) = some (s, es) ∧
      (machine .little).run s (List.replicate 40 (.ends 0)) = some (s', es') ∧
      s'.endThreads[0]? = some t ∧ t.pc = .expire ∧
      t.totalSleep = endTimeoutSecond ∧ es'.filterMap popped? = [] := by
  have hsample : ((machine .little).run
      (new 0 (offer .requestMsg .negotiation 5) ⟨.requestMsg, CharArray.zero _⟩)
      (List.replicate 17 (answer false) ++ List.replicate 40 (.ends 0))).map
        (fun r => (r.1.endThreads[0]?).map (·.pc)) = some (some .expire) := by decide +kernel
  have hfirst : ((machine .little).run
      (new 0 (offer .requestMsg .negotiation 5) ⟨.requestMsg, CharArray.zero _⟩)
      (List.replicate 17 (answer false))).map (·.1.endThreads.length) = some 1 := by
    decide +kernel
  obtain ⟨⟨s', es₁⟩, hrun, hs'⟩ := Option.map_eq_some_iff.1 hsample
  obtain ⟨s, es, es', has, hbs, -⟩ := EventMachine.run_append_iff.1 hrun
  rw [has] at hfirst
  have hlen : s.endThreads.length = 1 := Option.some.inj hfirst
  obtain ⟨t, ht, htpc⟩ := Option.map_eq_some_iff.1 hs'
  exact ⟨s, s', es, es', t, has, hbs, ht, htpc,
    expires_idle (by decide +kernel) has (by rw [hlen]; decide) hbs ht htpc⟩

end ServerSession

end Gdnp
