import Gdnp.Replies

/-!
# The WAIT_MSG discipline

A wait thread belongs to one request, but knows it only by the state PROCESSING.  One that is past
its last check writes its WAIT_MSG after the reply (`not_wait_msg_timely`), and one that sleeps
while the session replies and takes the next request goes on with the time of the old one.  If a
request is taken up only when the wait threads of the earlier ones have returned, and the state
does not leave PROCESSING while one is about to write (`KeepsWait`), each WAIT_MSG is written while
one request has been in PROCESSING for `PROCESSING_TIMEOUT_SECOND` seconds, and as many after the
last WAIT_MSG (`wait_msg_timely`).
-/

open CMem

namespace Gdnp

namespace ServerSession

variable {o : ByteOrder} {s s' : ServerSession} {a : SessionAct} {es : List SessionEvent} {k : ℕ}
  {t t' : WaitThread}

/-- Wait thread `k` sleeps for a second. -/
def isTick (k : ℕ) (s : ServerSession) : SessionAct → Bool
  | .wait j _ => j = k ∧ (s.waitThreads[k]?).any fun t => t.pc = .sleep
  | _ => false

/-- The state is left or set to PROCESSING only while no wait thread of another request runs, and
none is about to write. -/
def KeepsWait (s : ServerSession) : SessionAct → Prop
  | .run _ => match s.runPc with
    | .writeState _ st => st = .processing → ∀ t ∈ s.waitThreads, t.pc = .done
    | .setIdle _ _ => ∀ t ∈ s.waitThreads, t.pc ≠ .sendWrite
    | _ => True
  | .ends k => ∀ t ∈ s.endThreads[k]?, t.pc = .expire → ∀ u ∈ s.waitThreads, u.pc ≠ .sendWrite
  | _ => True

instance (s : ServerSession) : DecidablePred s.KeepsWait
  | .push _ => inferInstanceAs (Decidable True)
  | .run _ => by
    unfold KeepsWait
    generalize s.runPc = pc
    rcases pc with _ | _ <;> infer_instance
  | .wait _ _ => inferInstanceAs (Decidable True)
  | .ends k => inferInstanceAs (Decidable (∀ t ∈ s.endThreads[k]?, _))

/-! ### The steps of the wait threads -/

/-- The branches of `waitStep`. -/
inductive WaitStep (o : ByteOrder) (env : WriteEnv) (s : ServerSession) (t : WaitThread) :
    WaitThread → List SessionEvent → Prop
  | loop (pc : t.pc = .loop) (st : s.curState = .processing) :
    WaitStep o env s t { t with pc := .sleep } []
  | loopDone (pc : t.pc = .loop) (st : s.curState ≠ .processing) :
    WaitStep o env s t { t with pc := .done } []
  | sleep (pc : t.pc = .sleep) : WaitStep o env s t ⟨.check, t.totalSleep + 1⟩ []
  | check (pc : t.pc = .check) (st : s.curState = .processing) :
    WaitStep o env s t { t with pc := .recheck } []
  | checkDone (pc : t.pc = .check) (st : s.curState ≠ .processing) :
    WaitStep o env s t { t with pc := .done } []
  | recheck (pc : t.pc = .recheck) (st : s.curState = .processing)
      (ht : processingTimeoutSecond ≤ t.totalSleep) :
    WaitStep o env s t { t with pc := .sendSwitch } []
  | again (pc : t.pc = .recheck)
      (ht : ¬ (s.curState = .processing ∧ processingTimeoutSecond ≤ t.totalSleep)) :
    WaitStep o env s t { t with pc := .loop } []
  | sendRefused (pc : t.pc = .sendSwitch) : WaitStep o env s t ⟨.loop, 0⟩ []
  | sendSwitch (pc : t.pc = .sendSwitch) (st : s.curState = .processing) :
    WaitStep o env s t { t with pc := .sendWrite } []
  | sendWrite {es : List SessionEvent} (pc : t.pc = .sendWrite) : WaitStep o env s t ⟨.loop, 0⟩ es

theorem sendAllowed_waitMsg {cur : ServerState} (h : sendAllowed cur .waitMsg = .ok ()) :
    cur = .processing := by
  cases cur
  · cases h
  · rfl
  · cases h

theorem waitStep_inv {env : WriteEnv} (h : s.waitStep o env t = some (t', es)) :
    WaitStep o env s t t' es := by
  unfold waitStep at h
  split at h
  · split_ifs at h with st <;> cases h
    exacts [.loop ‹_› st, .loopDone ‹_› st]
  · cases h
    exact .sleep ‹_›
  · split_ifs at h with st <;> cases h
    exacts [.checkDone ‹_› st, .check ‹_› (not_not.1 st)]
  · split_ifs at h with st <;> cases h
    exacts [.recheck ‹_› st.1 st.2, .again ‹_› st]
  · split at h <;> cases h
    exacts [.sendRefused ‹_›, .sendSwitch ‹_› (sendAllowed_waitMsg ‹_›)]
  · cases h
    exact .sendWrite ‹_›
  · cases h

/-- Only a thread that has not returned makes a step. -/
theorem WaitStep.ne_done {env : WriteEnv} (h : WaitStep o env s t t' es) : t.pc ≠ .done := by
  intro hdone
  cases h <;> cases hdone.symm.trans ‹_›

theorem runStep_waitThreads {env : RunEnv} (h : s.runStep o env = some (s', es)) :
    s'.waitThreads = s.waitThreads ∨
      (∃ c, s.runPc = .launchWait c) ∧ s.curState = .processing ∧
        s'.waitThreads = s.waitThreads ++ [⟨.loop, 0⟩] := by
  cases runStep_cases h with
  | launchWait pc st => exact .inr ⟨⟨_, pc⟩, st, rfl⟩
  | _ => exact .inl rfl

/-- Where a wait thread comes from: it stays as it was, makes a step, or the session thread has
started it. -/
theorem step_waitThread (h : s.step o a = some (s', es)) (hk : s'.waitThreads[k]? = some t') :
    (s.waitThreads[k]? = some t' ∧ (∀ env, a ≠ .wait k env) ∧
        (s'.waitThreads.length = s.waitThreads.length ∨
          (∃ c, s.runPc = .launchWait c) ∧ s.curState = .processing)) ∨
      (∃ env t, a = .wait k env ∧ s.waitThreads[k]? = some t ∧ WaitStep o env s t t' es ∧
        s'.waitThreads.length = s.waitThreads.length) ∨
      ((∃ env, a = .run env) ∧ s'.waitThreads.length = k + 1 ∧ t' = ⟨.loop, 0⟩) := by
  cases a with
  | push c =>
    cases h
    exact .inl ⟨hk, by simp, .inl rfl⟩
  | run env =>
    obtain he | ⟨hpc, st, he⟩ := runStep_waitThreads h
    · rw [he] at hk ⊢
      exact .inl ⟨hk, by simp, .inl rfl⟩
    · rw [he] at hk ⊢
      rcases Nat.lt_trichotomy k s.waitThreads.length with hlt | rfl | hlt
      · rw [List.getElem?_append_left hlt] at hk
        exact .inl ⟨hk, by simp, .inr ⟨hpc, st⟩⟩
      · rw [List.getElem?_concat_length] at hk
        exact .inr (.inr ⟨⟨env, rfl⟩, by simp, (Option.some.inj hk).symm⟩)
      · rw [List.getElem?_eq_none (by simpa using hlt)] at hk
        cases hk
  | wait j env =>
    obtain ⟨u, u', hu, hstep, rfl⟩ := step_wait_iff.1 h
    by_cases hj : j = k
    · subst hj
      rw [List.getElem?_set_self (List.getElem?_eq_some_iff.1 hu).1] at hk
      obtain rfl := Option.some.inj hk
      exact .inr (.inl ⟨env, u, rfl, hu, waitStep_inv hstep, by simp⟩)
    · rw [List.getElem?_set_ne hj] at hk
      exact .inl ⟨hk, by simpa using hj, by simp⟩
  | ends j =>
    obtain ⟨u, u', s₁, -, hstep, rfl, -⟩ := step_ends_iff.1 h
    refine .inl ⟨?_, by simp, ?_⟩ <;> obtain rfl | rfl | ⟨-, rfl⟩ := endStep_cases hstep
    exacts [hk, hk, hk, .inl rfl, .inl rfl, .inl rfl]

/-! ### PROCESSING -/

/-- The session thread alone takes the session into PROCESSING, with a request. -/
theorem step_processing (h : s.step o a = some (s', es)) (hs : s.InPhase)
    (hp : s'.curState = .processing) :
    s.curState = .processing ∨ ∃ env c, a = .run env ∧ s.runPc = .writeState c .processing ∧
      s'.waitThreads = s.waitThreads ∧ es = [] := by
  obtain ⟨env, rfl⟩ | ha := a.run_or
  · cases runStep_cases h
    case writeState c st pc =>
      obtain rfl : st = .processing := hp
      exact .inr ⟨env, c, rfl, pc, rfl, rfl⟩
    case sendSetStateNego st pc | sendSetState type st pc _ =>
      obtain ⟨st', hw, -⟩ := hs
      obtain rfl : st = .processing := hp
      rw [pc] at hw
      obtain ⟨-, ⟨-, hw⟩ | ⟨-, hw⟩⟩ := hw <;> cases hw
    case setIdle | afterSendEnd => cases hp
    all_goals exact .inl hp
  · obtain ⟨-, hcur | hcur⟩ := step_runPc h ha
    · rw [hcur] at hp
      exact .inl hp
    · rw [hcur] at hp
      cases hp

/-- In PROCESSING the session thread replies to nothing, and only its return from the ASA or an
expiring end thread changes the state. -/
theorem step_in_processing (h : s.step o a = some (s', es)) (hs : s.InPhase)
    (hp : s.curState = .processing) :
    es.filterMap repliedTo? = [] ∧ (s'.curState = .processing ∨
      (∃ env c d, a = .run env ∧ s.runPc = .setIdle c d) ∨
        ∃ j, a = .ends j ∧ ∃ t ∈ s.endThreads[j]?, t.pc = .expire) := by
  cases a with
  | push c =>
    cases h
    exact ⟨rfl, .inl hp⟩
  | run env =>
    have hw := hs.wrote_processing hp
    cases runStep_cases h <;> simp_all [RunPc.Wrote]
  | wait j env =>
    obtain ⟨u, u', -, hstep, rfl⟩ := step_wait_iff.1 h
    obtain rfl | ⟨msg, rfl, -⟩ := waitStep_events hstep <;> exact ⟨rfl, .inl hp⟩
  | ends j =>
    obtain ⟨u, u', s₁, hu, hstep, rfl, rfl⟩ := step_ends_iff.1 h
    refine ⟨rfl, ?_⟩
    obtain rfl | rfl | ⟨hpc, rfl⟩ := endStep_cases hstep
    exacts [.inl hp, .inl hp, .inr (.inr ⟨j, rfl, u, hu, hpc⟩)]

/-! ### One wait thread at a time -/

/-- At most the last wait thread runs, and it writes only in PROCESSING and after its time. -/
structure WaitsAlone (s : ServerSession) : Prop where
  inPhase : s.InPhase
  solo : ∀ k t, s.waitThreads[k]? = some t → t.pc ≠ .done → s.waitThreads.length = k + 1
  fresh : ∀ c, s.runPc = .launchWait c → s.curState = .processing →
    ∀ t ∈ s.waitThreads, t.pc = .done
  clock : ∀ t ∈ s.waitThreads, t.pc = .sendSwitch ∨ t.pc = .sendWrite →
    processingTimeoutSecond ≤ t.totalSleep
  writing : ∀ t ∈ s.waitThreads, t.pc = .sendWrite → s.curState = .processing

theorem waitsAlone_new (sessionId : UInt32) (c last : Content) :
    (new sessionId c last).WaitsAlone where
  inPhase := inPhase_new sessionId c last
  solo := by simp [new]
  fresh := by simp [new]
  clock := by simp [new]
  writing := by simp [new]

/-- What holds of every wait thread is kept by a step, if their own steps keep it and it holds of
the one that the session thread may start. -/
theorem step_forall_waitThreads {P : WaitThread → Prop} (h : s.step o a = some (s', es))
    (hs : ∀ t ∈ s.waitThreads, P t)
    (hwait : ∀ k env t t', a = .wait k env → t ∈ s.waitThreads → WaitStep o env s t t' es →
      P t')
    (hrun : (∃ env, a = .run env) → P ⟨.loop, 0⟩) : ∀ t ∈ s'.waitThreads, P t := by
  intro t' ht
  obtain ⟨j, hj⟩ := List.mem_iff_getElem?.1 ht
  obtain ⟨hj', -⟩ | ⟨env, t, ha, hj', hstep, -⟩ | ⟨ha, -, rfl⟩ := step_waitThread h hj
  · exact hs t' (List.mem_of_getElem? hj')
  · exact hwait j env t t' ha (List.mem_of_getElem? hj') hstep
  · exact hrun ha

/-- A wait thread is started only when the others have returned. -/
theorem step_solo (h : s.step o a = some (s', es)) (hs : s.WaitsAlone)
    (hk : s'.waitThreads[k]? = some t') (hlive : t'.pc ≠ .done) :
    s'.waitThreads.length = k + 1 := by
  obtain ⟨hk', -, hlen | ⟨⟨c, hpc⟩, hp⟩⟩ | ⟨env, t, rfl, hk', hstep, hlen⟩ | ⟨-, hlen, -⟩ :=
    step_waitThread h hk
  · rw [hlen]
    exact hs.solo k t' hk' hlive
  · exact absurd (hs.fresh c hpc hp t' (List.mem_of_getElem? hk')) hlive
  · rw [hlen]
    exact hs.solo k t hk' hstep.ne_done
  · exact hlen

/-- The wait threads of earlier requests have returned when that of a request is started. -/
theorem step_fresh {c : Content} (h : s.step o a = some (s', es)) (ha : s.KeepsWait a)
    (hs : s.WaitsAlone) (hpc : s'.runPc = .launchWait c) (hp : s'.curState = .processing) :
    ∀ t ∈ s'.waitThreads, t.pc = .done := by
  obtain hp' | ⟨env, c', rfl, hpc', hthreads, -⟩ := step_processing h hs.inPhase hp
  · obtain ⟨env, rfl⟩ | hrun := a.run_or
    · have hw := hs.inPhase.wrote_processing hp'
      cases runStep_cases h <;> simp_all [RunPc.Wrote]
    · obtain ⟨hpc', -⟩ := step_runPc h hrun
      have hdone := hs.fresh c (hpc'.symm.trans hpc) hp'
      apply step_forall_waitThreads h hdone
      · exact fun k env t t' _ ht hstep => absurd (hdone t ht) hstep.ne_done
      · rintro ⟨env, he⟩
        exact absurd he (hrun env)
  · rw [KeepsWait, hpc'] at ha
    rw [hthreads]
    exact ha rfl

/-- The state does not leave PROCESSING while a wait thread is about to write. -/
theorem step_keeps_processing {t : WaitThread} (h : s.step o a = some (s', es))
    (ha : s.KeepsWait a) (hs : s.WaitsAlone) (ht : t ∈ s.waitThreads) (hpc : t.pc = .sendWrite) :
    s'.curState = .processing := by
  obtain ⟨-, hp | ⟨env, c, d, rfl, hpc'⟩ | ⟨i, rfl, u, hu, hexpire⟩⟩ :=
    step_in_processing h hs.inPhase (hs.writing t ht hpc)
  · exact hp
  · rw [KeepsWait, hpc'] at ha
    exact absurd hpc (ha t ht)
  · exact absurd hpc (ha u hu hexpire t ht)

theorem step_waitsAlone (h : s.step o a = some (s', es)) (ha : s.KeepsWait a)
    (hs : s.WaitsAlone) : s'.WaitsAlone where
  inPhase := step_inPhase h hs.inPhase
  solo := fun _ _ => step_solo h hs
  fresh := fun _ => step_fresh h ha hs
  clock := by
    apply step_forall_waitThreads h hs.clock
    · intro k env t t' _ ht hstep
      have hclock := hs.clock t ht
      cases hstep <;> simp_all
    · simp
  writing := by
    apply step_forall_waitThreads (P := fun t => t.pc = .sendWrite → s'.curState = .processing) h
    · exact fun t => step_keeps_processing h ha hs
    · rintro k env t t' rfl ht hstep hpc
      have hp : s.curState = .processing := by
        cases hstep <;> simp_all
      obtain ⟨-, -, -, -, rfl⟩ := step_wait_iff.1 h
      exact hp
    · simp

/-- The seconds that wait thread `k` counts, if it runs. -/
def waited (s : ServerSession) (k : ℕ) : ℕ :=
  match s.waitThreads[k]? with
  | some t => if t.pc = .done then 0 else t.totalSleep
  | none => 0

theorem step_waited (h : s.step o a = some (s', es)) :
    s'.waited k ≤ s.waited k + if isTick k s a then 1 else 0 := by
  rcases hk : s'.waitThreads[k]? with _ | t'
  · rw [waited, hk]
    exact Nat.zero_le _
  · obtain ⟨hk', -⟩ | ⟨env, t, rfl, hk', hstep, -⟩ | ⟨-, -, rfl⟩ := step_waitThread h hk
    · rw [waited, waited, hk, hk']
      exact Nat.le_add_right _ _
    · rw [waited, waited, hk, hk']
      cases hstep <;> simp_all [isTick]
    · rw [waited, hk]
      exact Nat.zero_le _

theorem waited_of_done (h : ∀ t ∈ s.waitThreads, t.pc = .done) : s.waited k = 0 := by
  unfold waited
  split
  · rename_i t ht
    rw [if_pos (h t (List.mem_of_getElem? ht))]
  · rfl

/-- Only a wait thread past its last check writes a WAIT_MSG, and it starts to count again. -/
theorem step_wrote_wait {env : WriteEnv} {msg : Msg}
    (h : s.step o (.wait k env) = some (s', [.wrote none msg])) :
    ∃ t, s.waitThreads[k]? = some t ∧ t.pc = .sendWrite ∧
      s' = { s with waitThreads := s.waitThreads.set k ⟨.loop, 0⟩ } := by
  obtain ⟨t, t', hk, hstep, rfl⟩ := step_wait_iff.1 h
  cases waitStep_inv hstep with
  | sendWrite pc => exact ⟨t, hk, pc, rfl⟩

theorem waited_of_wrote {env : WriteEnv} {msg : Msg} {j : ℕ} (hs : s.WaitsAlone)
    (h : s.step o (.wait j env) = some (s', [.wrote none msg])) : s'.waited k = 0 := by
  obtain ⟨t, hj, hpc, rfl⟩ := step_wrote_wait h
  have hlen := hs.solo j t hj (by rw [hpc]; decide)
  have hj' := (List.getElem?_eq_some_iff.1 hj).1
  unfold waited
  by_cases hjk : j = k
  · subst hjk
    rw [List.getElem?_set_self hj']
    rfl
  · rw [List.getElem?_set_ne hjk]
    split
    · rename_i u hu
      by_cases hdone : u.pc = .done
      · exact if_pos hdone
      · have hlen' := hs.solo k u hu hdone
        omega
    · rfl

/-! ### The time of a request -/

/-- For the last of the actions `as` from `start` to `s` one request has been in PROCESSING without
a reply, while wait thread `k` slept `n` times. -/
def InProcessing (o : ByteOrder) (start : ServerSession) (as : List SessionAct)
    (s : ServerSession) (k n : ℕ) : Prop :=
  ∃ bs env c cs s₀ s₁ es₀ es₁, as = bs ++ .run env :: cs ∧
    (machine o).run start bs = some (s₀, es₀) ∧ s₀.runPc = .writeState c .processing ∧
    s₀.step o (.run env) = some (s₁, []) ∧ (machine o).run s₁ cs = some (s, es₁) ∧
    (machine o).Guarded (fun s _ => s.curState = .processing) s₁ cs ∧
    s.curState = .processing ∧ es₁.filterMap repliedTo? = [] ∧
    n ≤ (machine o).countSteps (isTick k) s₁ cs

/-- Wait thread `k` has slept `n` times since each WAIT_MSG that was written on the way from `start`
to `s`. -/
def SinceWaitMsg (o : ByteOrder) (start : ServerSession) (as : List SessionAct)
    (s : ServerSession) (k n : ℕ) : Prop :=
  ∀ bs j env cs s₀ s₁ es₀ es₁ msg, as = bs ++ .wait j env :: cs →
    (machine o).run start bs = some (s₀, es₀) →
    s₀.step o (.wait j env) = some (s₁, [.wrote none msg]) →
    (machine o).run s₁ cs = some (s, es₁) → n ≤ (machine o).countSteps (isTick k) s₁ cs

variable {start : ServerSession} {as : List SessionAct} {n : ℕ}

theorem InProcessing.mono {m : ℕ} (hs : InProcessing o start as s k n) (hm : m ≤ n) :
    InProcessing o start as s k m := by
  obtain ⟨bs, env, c, cs, s₀, s₁, es₀, es₁, has, hbs, hpc, hstep, hcs, hguard, hcur, hno, hn⟩ := hs
  exact ⟨bs, env, c, cs, s₀, s₁, es₀, es₁, has, hbs, hpc, hstep, hcs, hguard, hcur, hno,
    hm.trans hn⟩

theorem InProcessing.concat (hs : InProcessing o start as s k n)
    (h : s.step o a = some (s', es)) (hp : s'.curState = .processing)
    (hes : es.filterMap repliedTo? = []) :
    InProcessing o start (as ++ [a]) s' k (n + if isTick k s a then 1 else 0) := by
  obtain ⟨bs, env, c, cs, s₀, s₁, es₀, es₁, rfl, hbs, hpc, hstep, hcs, hguard, hcur, hreply, hn⟩ :=
    hs
  refine ⟨bs, env, c, cs ++ [a], s₀, s₁, es₀, es₁ ++ es, by simp, hbs, hpc, hstep,
    EventMachine.run_concat hcs h, EventMachine.guarded_concat hcs hguard hcur, hp, ?_, ?_⟩
  · rw [List.filterMap_append, hreply, hes]
    rfl
  · rw [EventMachine.countSteps_concat hcs]
    omega

theorem SinceWaitMsg.concat {m : ℕ} {es₁ : List SessionEvent}
    (hs : SinceWaitMsg o start as s k n) (has : (machine o).run start as = some (s, es₁))
    (h : s.step o a = some (s', es))
    (hwrote : ∀ j env msg, a = .wait j env → es = [.wrote none msg] → m = 0)
    (hm : m ≤ n + if isTick k s a then 1 else 0) : SinceWaitMsg o start (as ++ [a]) s' k m := by
  intro bs j env cs s₀ s₁ es₂ es₃ msg heq hbs hstep hcs
  obtain rfl | ⟨cs, b, rfl⟩ := List.eq_nil_or_concat cs
  · obtain ⟨rfl, hlast⟩ := List.append_inj' heq rfl
    obtain rfl : a = .wait j env := List.head_eq_of_cons_eq hlast
    obtain ⟨rfl, -⟩ := Prod.mk.inj (Option.some.inj (has.symm.trans hbs))
    obtain ⟨-, rfl⟩ := Prod.mk.inj (Option.some.inj (h.symm.trans hstep))
    rw [hwrote j env msg rfl rfl]
    exact Nat.zero_le _
  · rw [List.concat_eq_append] at heq hcs ⊢
    have heq' : as ++ [a] = (bs ++ .wait j env :: cs) ++ [b] := by simp [heq]
    obtain ⟨rfl, hlast⟩ := List.append_inj' heq' rfl
    obtain rfl : a = b := List.head_eq_of_cons_eq hlast
    obtain ⟨s₂, es₄, es₅, hcs', -, rfl⟩ := EventMachine.run_append_iff.1 hcs
    have hall : (machine o).run start (bs ++ .wait j env :: cs) =
        some (s₂, es₂ ++ ([.wrote none msg] ++ es₄)) :=
      EventMachine.run_append_iff.2 ⟨s₀, es₂, _, hbs,
        EventMachine.run_cons_iff.2 ⟨s₁, _, es₄, hstep, hcs', rfl⟩, rfl⟩
    obtain ⟨rfl, -⟩ := Prod.mk.inj (Option.some.inj (has.symm.trans hall))
    have hn := hs bs j env cs s₀ s₁ es₂ es₄ msg rfl hbs hstep hcs'
    rw [EventMachine.countSteps_concat hcs']
    omega

/-- What holds after the actions `as` from `start`, when each step keeps the wait threads in
order. -/
structure Timely (o : ByteOrder) (start : ServerSession) (as : List SessionAct)
    (s : ServerSession) (es : List SessionEvent) : Prop where
  run : (machine o).run start as = some (s, es)
  alone : s.WaitsAlone
  inProcessing : s.curState = .processing → ∀ k, InProcessing o start as s k (s.waited k)
  sinceWaitMsg : ∀ k, SinceWaitMsg o start as s k (s.waited k)

theorem Timely.step {es' : List SessionEvent} (hs : Timely o start as s es)
    (ha : s.KeepsWait a) (h : s.step o a = some (s', es')) :
    Timely o start (as ++ [a]) s' (es ++ es') := by
  refine ⟨EventMachine.run_concat hs.run h, step_waitsAlone h ha hs.alone, fun hp k => ?_,
    fun k => (hs.sinceWaitMsg k).concat hs.run h ?_ (step_waited h)⟩
  · obtain hp' | ⟨env, c, rfl, hpc, hthreads, rfl⟩ := step_processing h hs.alone.inPhase hp
    · obtain ⟨hreply, -⟩ := step_in_processing h hs.alone.inPhase hp'
      exact ((hs.inProcessing hp' k).concat h hp hreply).mono (step_waited h)
    · refine ⟨as, env, c, [], s, s', es, [], rfl, hs.run, hpc, h,
        EventMachine.run_nil_iff.2 ⟨rfl, rfl⟩, trivial, hp, rfl, ?_⟩
      rw [KeepsWait, hpc] at ha
      rw [waited_of_done (by rw [hthreads]; exact ha rfl)]
      exact Nat.zero_le _
  · rintro j env msg rfl rfl
    exact waited_of_wrote hs.alone h

/-- If the wait threads of earlier requests have returned when a request is taken up, and none is
about to write when the state leaves PROCESSING, each WAIT_MSG is written while one request has
been in PROCESSING without a reply for `PROCESSING_TIMEOUT_SECOND` seconds, and as long after every
other WAIT_MSG. -/
theorem wait_msg_timely {sessionId : UInt32} {c last : Content} {env : WriteEnv} {msg : Msg}
    (hok : (machine o).Guarded KeepsWait (new sessionId c last) as)
    (has : (machine o).run (new sessionId c last) as = some (s, es))
    (hwrote : s.step o (.wait k env) = some (s', [.wrote none msg])) :
    InProcessing o (new sessionId c last) as s k processingTimeoutSecond ∧
      SinceWaitMsg o (new sessionId c last) as s k processingTimeoutSecond := by
  have hs : Timely o (new sessionId c last) ([] ++ as) s ([] ++ es) := by
    refine EventMachine.run_preserves_history (P := Timely o (new sessionId c last))
      (fun _ _ _ _ _ _ hi ha h => hi.step ha h) ?_ hok has
    refine ⟨EventMachine.run_nil_iff.2 ⟨rfl, rfl⟩, waitsAlone_new sessionId c last, nofun, ?_⟩
    intro k bs j env cs s₀ s₁ es₀ es₁ msg heq
    simp at heq
  obtain ⟨t, hk, hpc, -⟩ := step_wrote_wait hwrote
  have hmem := List.mem_of_getElem? hk
  have hwaited : processingTimeoutSecond ≤ s.waited k := by
    rw [waited, hk]
    simp only [hpc, reduceCtorEq, if_false]
    exact hs.alone.clock t hmem (.inr hpc)
  constructor
  · exact (hs.inProcessing (hs.alone.writing t hmem hpc) k).mono hwaited
  · intro bs j env cs s₀ s₁ es₀ es₁ msg heq hbs hstep hcs
    exact hwaited.trans (hs.sinceWaitMsg k bs j env cs s₀ s₁ es₀ es₁ msg heq hbs hstep hcs)

/-- Past its last check nothing keeps a wait thread from writing. -/
theorem exists_wrote_wait (hk : s.waitThreads[k]? = some t) (hpc : t.pc = .sendWrite)
    (hid : s.sessionId.toNat ≤ maxSessionId) :
    ∃ s' msg, s.step o (.wait k ⟨.success, 0⟩) = some (s', [.wrote none msg]) := by
  have hw : Writable ((waitOption o).toBits o) s.sessionId := by
    refine ⟨?_, hid⟩
    cases o <;> decide
  obtain ⟨msg, hmsg⟩ := Option.isSome_iff_exists.1
    (writePdu_isSome_iff.2 (writePdu_success_iff.2 ⟨hw, rfl⟩ :
      (writePdu _ .waitMsg s.sessionId ⟨.success, 0⟩).1 = .success))
  exact ⟨_, msg, step_wait_iff.2 ⟨t, ⟨.loop, 0⟩, hk, by rw [waitStep, hpc]; simp [hmsg], rfl⟩⟩

/-- The session replies to the request while its wait thread is past its last check. -/
theorem not_wait_msg_timely :
    ¬ ∀ (o : ByteOrder) (sessionId : UInt32) (c last : Content) (as : List SessionAct)
        (s s' : ServerSession) (es : List SessionEvent) (k : ℕ) (env : WriteEnv) (msg : Msg),
      (machine o).run (new sessionId c last) as = some (s, es) →
      s.step o (.wait k env) = some (s', [.wrote none msg]) →
      InProcessing o (new sessionId c last) as s k processingTimeoutSecond ∧
        SinceWaitMsg o (new sessionId c last) as s k processingTimeoutSecond := by
  intro h
  have hsample : ((machine .little).run
      (new 0 (offer .requestMsg .negotiation 5) ⟨.requestMsg, CharArray.zero _⟩)
      (List.replicate 8 (answer true) ++ List.replicate 33 (.wait 0 ⟨.success, 0⟩) ++
        List.replicate 5 (answer true))).map
      (fun r => (r.1.sessionId, r.1.curState, (r.1.waitThreads[0]?).map (·.pc))) =
      some (0, .idle, some .sendWrite) := by decide +kernel
  obtain ⟨⟨s, es⟩, hrun, hs⟩ := Option.map_eq_some_iff.1 hsample
  simp only [Prod.mk.injEq, Option.map_eq_some_iff] at hs
  obtain ⟨hid, hcur, t, hk, hpc⟩ := hs
  obtain ⟨s', msg, hwrote⟩ := exists_wrote_wait hk hpc (by rw [hid]; decide)
  obtain ⟨⟨-, -, -, -, -, -, -, -, -, -, -, -, -, -, hp, -⟩, -⟩ :=
    h _ _ _ _ _ s s' es 0 _ msg hrun hwrote
  rw [hcur] at hp
  cases hp

/-- The ASA takes its time for the request, and the wait thread writes a second WAIT_MSG. -/
theorem wait_msg_timely_slow :
    let c := offer .requestMsg .negotiation 5
    let last : Content := ⟨.requestMsg, CharArray.zero _⟩
    let tick : SessionAct := .wait 0 ⟨.success, 0⟩
    let first := List.replicate 8 (answer true) ++ List.replicate 33 tick
    let second := first ++ tick :: List.replicate 33 tick
    ∃ s₀ s₁ s s' es₀ es msg₀ msg,
      (machine .little).run (new 0 c last) first = some (s₀, es₀) ∧
      s₀.step .little tick = some (s₁, [.wrote none msg₀]) ∧
      (machine .little).run s₁ (List.replicate 33 tick) = some (s, es) ∧
      s.step .little tick = some (s', [.wrote none msg]) ∧
      InProcessing .little (new 0 c last) second s 0 processingTimeoutSecond ∧
      processingTimeoutSecond ≤
        (machine .little).countSteps (isTick 0) s₁ (List.replicate 33 tick) := by
  intro c last tick first second
  have hsample : ((machine .little).run (new 0 c last) first).map
      (fun r => (r.1.sessionId, (r.1.waitThreads[0]?).map (·.pc))) =
      some (0, some .sendWrite) := by decide +kernel
  obtain ⟨⟨s₀, es₀⟩, hfirst, hs₀⟩ := Option.map_eq_some_iff.1 hsample
  simp only [Prod.mk.injEq, Option.map_eq_some_iff] at hs₀
  obtain ⟨hid₀, t₀, hk₀, hpc₀⟩ := hs₀
  obtain ⟨s₁, msg₀, hwrote₀⟩ := exists_wrote_wait hk₀ hpc₀ (by rw [hid₀]; decide)
  have hsample : ((machine .little).run (new 0 c last) second).map
      (fun r => (r.1.sessionId, (r.1.waitThreads[0]?).map (·.pc))) =
      some (0, some .sendWrite) := by decide +kernel
  obtain ⟨⟨s, es⟩, hsecond, hs⟩ := Option.map_eq_some_iff.1 hsample
  simp only [Prod.mk.injEq, Option.map_eq_some_iff] at hs
  obtain ⟨hid, t, hk, hpc⟩ := hs
  obtain ⟨s', msg, hwrote⟩ := exists_wrote_wait hk hpc (by rw [hid]; decide)
  obtain ⟨s₂, es₁, es₂, hfirst', hrest, -⟩ := EventMachine.run_append_iff.1 hsecond
  cases hfirst.symm.trans hfirst'
  obtain ⟨s₂, es₁, es₃, hstep, hrest, -⟩ := EventMachine.run_cons_iff.1 hrest
  cases hwrote₀.symm.trans hstep
  obtain ⟨hprocessing, hsince⟩ := wait_msg_timely (by decide +kernel) hsecond hwrote
  exact ⟨s₀, s₁, s, s', es₀, es₃, msg₀, msg, hfirst, hwrote₀, hrest, hwrote, hprocessing,
    hsince first 0 _ _ s₀ s₁ es₀ es₃ msg₀ rfl hfirst hwrote₀ hrest⟩

end ServerSession

end Gdnp
