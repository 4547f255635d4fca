import Gdnp.Lib.EventMachine

/-!
# Undefined behaviour

Where the language does not say what a step does, everything may follow.  `orUndefined` adds a state
for this to a machine: a step that is not `defined` leads there, and from then on each step emits
whatever events it brings along.  A run that meets a condition under which all steps are defined, be
it by an invariant, is a run of the machine itself (`run_orUndefined`, `run_orUndefined_of_inv`).
-/

namespace EventMachine

variable {σ α ε : Type*} {M : EventMachine σ α ε} {defined ok : σ → α → Prop}
  [∀ s a, Decidable (defined s a)]

/-- The machine with undefined behaviour, the state `none`; each action comes with the events that
its step emits if it is not defined. -/
def orUndefined (M : EventMachine σ α ε) (defined : σ → α → Prop)
    [∀ s a, Decidable (defined s a)] : EventMachine (Option σ) (α × List ε) ε where
  step
    | none, a => some (none, a.2)
    | some s, a => (M.step s a.1).map fun r =>
        if defined s a.1 then (some r.1, r.2) else (none, a.2)

theorem orUndefined_step_iff {s : σ} {a : α × List ε} {t : Option σ} {es : List ε}
    (ha : defined s a.1) : (M.orUndefined defined).step (some s) a = some (t, es) ↔
      ∃ s', M.step s a.1 = some (s', es) ∧ t = some s' := by
  simp only [orUndefined, if_pos ha, Option.map_eq_some_iff, Prod.exists, Prod.mk.injEq]
  constructor
  · rintro ⟨s', es, h, rfl, rfl⟩
    exact ⟨s', h, rfl⟩
  · rintro ⟨s', h, rfl⟩
    exact ⟨s', es, h, rfl, rfl⟩

/-- What is undefined stays undefined. -/
theorem orUndefined_step_none (a : α × List ε) :
    (M.orUndefined defined).step none a = some (none, a.2) := rfl

theorem run_orUndefined_none {as : List (α × List ε)} {t : Option σ} {es : List ε}
    (hrun : (M.orUndefined defined).run none as = some (t, es)) : t = none := by
  induction as generalizing es with
  | nil => exact (run_nil_iff.1 hrun).1
  | cons a as ih =>
    obtain ⟨_, _, _, h₁, h₂, -⟩ := run_cons_iff.1 hrun
    cases (orUndefined_step_none a).symm.trans h₁
    exact ih h₂

/-- A run that stays defined is a run of the machine. -/
theorem run_of_orUndefined {s s' : σ} {as : List (α × List ε)} {es : List ε}
    (hrun : (M.orUndefined defined).run (some s) as = some (some s', es)) :
    M.run s (as.map Prod.fst) = some (s', es) := by
  induction as generalizing s es with
  | nil =>
    obtain ⟨hs, rfl⟩ := run_nil_iff.1 hrun
    cases hs
    rfl
  | cons a as ih =>
    obtain ⟨t₁, es₁, es₂, h₁, h₂, rfl⟩ := run_cons_iff.1 hrun
    by_cases ha : defined s a.1
    · obtain ⟨s₁, hstep, rfl⟩ := (orUndefined_step_iff ha).1 h₁
      exact run_cons_iff.2 ⟨s₁, es₁, es₂, hstep, ih h₂, rfl⟩
    · simp only [orUndefined, if_neg ha, Option.map_eq_some_iff, Prod.mk.injEq] at h₁
      obtain ⟨_, -, rfl, -⟩ := h₁
      cases run_orUndefined_none h₂

/-- If all steps that meet a condition are defined where an invariant of theirs holds, a run of such
steps is a run of the machine. -/
theorem run_orUndefined_of_inv {I : σ → Prop}
    (hinv : ∀ s a s' es, I s → ok s a → M.step s a = some (s', es) → I s')
    (hdefined : ∀ s a, I s → ok s a → defined s a) {s : σ} {t : Option σ}
    {as : List (α × List ε)} {es : List ε} (h₀ : I s) (hok : M.Guarded ok s (as.map Prod.fst))
    (hrun : (M.orUndefined defined).run (some s) as = some (t, es)) :
    ∃ s', t = some s' ∧ I s' ∧ M.run s (as.map Prod.fst) = some (s', es) := by
  induction as generalizing s es with
  | nil =>
    obtain ⟨rfl, rfl⟩ := run_nil_iff.1 hrun
    exact ⟨s, rfl, h₀, rfl⟩
  | cons a as ih =>
    obtain ⟨t₁, es₁, es₂, h₁, h₂, rfl⟩ := run_cons_iff.1 hrun
    have ha : defined s a.1 := hdefined s a.1 h₀ hok.1
    obtain ⟨s₁, hstep, rfl⟩ := (orUndefined_step_iff ha).1 h₁
    obtain ⟨hfirst, hrest⟩ := (guarded_cons_iff hstep).1 hok
    obtain ⟨s', rfl, hend, hrun'⟩ := ih (hinv s a.1 s₁ es₁ h₀ hfirst hstep) hrest h₂
    exact ⟨s', rfl, hend, run_cons_iff.2 ⟨s₁, es₁, es₂, hstep, hrun', rfl⟩⟩

/-- A run that meets a condition under which all steps are defined is a run of the machine. -/
theorem run_orUndefined (hdefined : ∀ s a, ok s a → defined s a) {s : σ} {t : Option σ}
    {as : List (α × List ε)} {es : List ε} (hok : M.Guarded ok s (as.map Prod.fst))
    (hrun : (M.orUndefined defined).run (some s) as = some (t, es)) :
    ∃ s', t = some s' ∧ M.run s (as.map Prod.fst) = some (s', es) := by
  obtain ⟨s', rfl, -, hrun'⟩ := run_orUndefined_of_inv (I := fun _ => True)
    (fun _ _ _ _ _ _ _ => trivial) (fun s a _ => hdefined s a) trivial hok hrun
  exact ⟨s', rfl, hrun'⟩

/-- The last step of such a run is a step of the machine. -/
theorem step_orUndefined (hdefined : ∀ s a, ok s a → defined s a) {s : σ} {t t' : Option σ}
    {as : List (α × List ε)} {a : α × List ε} {es es' : List ε}
    (hok : M.Guarded ok s ((as ++ [a]).map Prod.fst))
    (hrun : (M.orUndefined defined).run (some s) as = some (t, es))
    (hstep : (M.orUndefined defined).step t a = some (t', es')) :
    ∃ s₁ s₂, t = some s₁ ∧ M.Guarded ok s (as.map Prod.fst) ∧
      M.run s (as.map Prod.fst) = some (s₁, es) ∧ ok s₁ a.1 ∧ M.step s₁ a.1 = some (s₂, es') := by
  obtain ⟨s₂, rfl, hall⟩ := run_orUndefined hdefined hok (run_concat hrun hstep)
  rw [List.map_append] at hok hall
  obtain ⟨s₁, es₁, -, hfirst, -, -⟩ := run_append_iff.1 hall
  obtain ⟨hok, hlast, -⟩ := (guarded_append_iff hfirst).1 hok
  obtain ⟨_, rfl, hfirst'⟩ := run_orUndefined hdefined hok hrun
  cases hfirst.symm.trans hfirst'
  obtain ⟨_, h, -⟩ := (orUndefined_step_iff (hdefined s₁ a.1 hlast)).1 hstep
  exact ⟨s₁, _, rfl, hok, hfirst, hlast, h⟩

/-- A run of the machine that meets the condition is one of the machine with undefined behaviour. -/
theorem run_orUndefined_of_run {I : σ → Prop}
    (hinv : ∀ s a s' es, I s → ok s a → M.step s a = some (s', es) → I s')
    (hdefined : ∀ s a, I s → ok s a → defined s a) {s s' : σ} {as : List (α × List ε)}
    {es : List ε} (h₀ : I s) (hok : M.Guarded ok s (as.map Prod.fst))
    (hrun : M.run s (as.map Prod.fst) = some (s', es)) :
    (M.orUndefined defined).run (some s) as = some (some s', es) := by
  induction as generalizing s es with
  | nil =>
    obtain ⟨rfl, rfl⟩ := run_nil_iff.1 hrun
    rfl
  | cons a as ih =>
    obtain ⟨s₁, es₁, es₂, h₁, h₂, rfl⟩ := run_cons_iff.1 hrun
    obtain ⟨ha, hrest⟩ := (guarded_cons_iff h₁).1 hok
    have hstep := (orUndefined_step_iff (hdefined s a.1 h₀ ha)).2 ⟨s₁, h₁, rfl⟩
    exact run_cons_iff.2 ⟨some s₁, es₁, es₂, hstep, ih (hinv s a.1 s₁ es₁ h₀ ha h₁) hrest h₂, rfl⟩

end EventMachine
