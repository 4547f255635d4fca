import Mathlib.Tactic

/-!
# Machines that emit events

A machine steps from a state on an action; the step may be disabled (`none`), and otherwise gives
the next state and the events it emits.  `run` replays a list of actions and collects the events.
An execution may be restricted to steps that meet a condition `ok` on the state before the step
and the action (`Guarded`); what such steps preserve holds along every guarded run
(`run_preserves`, `run_preserves_trace`, `run_preserves_history`).  `run_countP_le` bounds the
number of events of a kind by a potential, and `countSteps` counts the steps of a kind.  `exec`
replays a list up to the first disabled step; two executions that a simulation relates emit the same
events (`exec_simulates`).  A machine may be observed by a history variable that its events update
(`observe`); whether an event is right may depend on it (`Kept`, `run_kept`).  What is of interest
in a step may not be its events alone; `relabel` lets a step emit labels instead.
-/

/-- A machine with states `σ`, actions `α` and events `ε`. -/
structure EventMachine (σ α ε : Type*) where
  step : σ → α → Option (σ × List ε)

namespace EventMachine

variable {σ α ε : Type*} (M : EventMachine σ α ε)

/-- Replay a list of actions, collecting the events. -/
def run : σ → List α → Option (σ × List ε)
  | s, [] => some (s, [])
  | s, a :: as => (M.step s a).bind fun r => (run r.1 as).map fun q => (q.1, r.2 ++ q.2)

/-- Every step of the run from `s` meets `ok`. -/
def Guarded (ok : σ → α → Prop) : σ → List α → Prop
  | _, [] => True
  | s, a :: as => ok s a ∧ match M.step s a with
    | none => True
    | some r => Guarded ok r.1 as

instance decidableGuarded (ok : σ → α → Prop) [∀ s a, Decidable (ok s a)] :
    ∀ s as, Decidable (M.Guarded ok s as)
  | _, [] => inferInstanceAs (Decidable True)
  | s, a :: as =>
    have : Decidable (match M.step s a with
        | none => True
        | some r => M.Guarded ok r.1 as) :=
      match M.step s a with
      | none => inferInstanceAs (Decidable True)
      | some r => decidableGuarded ok r.1 as
    inferInstanceAs (Decidable (_ ∧ _))

/-- The number of steps of the run from `s` that satisfy `p`. -/
def countSteps (p : σ → α → Bool) : σ → List α → ℕ
  | _, [] => 0
  | s, a :: as => (if p s a then 1 else 0) + match M.step s a with
    | none => 0
    | some r => countSteps p r.1 as

/-- Replay a list of actions up to the first one that is disabled. -/
def exec : σ → List α → σ × List ε
  | s, [] => (s, [])
  | s, a :: as => match M.step s a with
    | none => (s, [])
    | some r => ((exec r.1 as).1, r.2 ++ (exec r.1 as).2)

variable {M}

theorem run_nil_iff {s s' : σ} {es : List ε} : M.run s [] = some (s', es) ↔ s' = s ∧ es = [] := by
  simp [run, eq_comm]

theorem run_cons_iff {s s' : σ} {a : α} {as : List α} {es : List ε} :
    M.run s (a :: as) = some (s', es) ↔
      ∃ s₁ es₁ es₂, M.step s a = some (s₁, es₁) ∧ M.run s₁ as = some (s', es₂) ∧
        es = es₁ ++ es₂ := by
  simp only [run, Option.bind_eq_some_iff, Option.map_eq_some_iff, Prod.exists, Prod.mk.injEq]
  constructor
  · rintro ⟨s₁, es₁, h₁, s₂, es₂, h₂, rfl, rfl⟩
    exact ⟨s₁, es₁, es₂, h₁, h₂, rfl⟩
  · rintro ⟨s₁, es₁, es₂, h₁, h₂, rfl⟩
    exact ⟨s₁, es₁, h₁, s', es₂, h₂, rfl, rfl⟩

theorem run_append_iff {s s' : σ} {as bs : List α} {es : List ε} :
    M.run s (as ++ bs) = some (s', es) ↔
      ∃ s₁ es₁ es₂, M.run s as = some (s₁, es₁) ∧ M.run s₁ bs = some (s', es₂) ∧
        es = es₁ ++ es₂ := by
  induction as generalizing s es with
  | nil => simp [run_nil_iff]
  | cons a as ih =>
    simp only [List.cons_append, run_cons_iff, ih]
    constructor
    · rintro ⟨s₁, es₁, _, h₁, ⟨s₂, es₂, es₃, h₂, h₃, rfl⟩, rfl⟩
      exact ⟨s₂, es₁ ++ es₂, es₃, ⟨s₁, es₁, es₂, h₁, h₂, rfl⟩, h₃, by simp⟩
    · rintro ⟨s₂, _, es₃, ⟨s₁, es₁, es₂, h₁, h₂, rfl⟩, h₃, rfl⟩
      exact ⟨s₁, es₁, es₂ ++ es₃, h₁, ⟨s₂, es₂, es₃, h₂, h₃, rfl⟩, by simp⟩

theorem guarded_cons_iff {ok : σ → α → Prop} {s s₁ : σ} {a : α} {as : List α} {es : List ε}
    (h : M.step s a = some (s₁, es)) :
    M.Guarded ok s (a :: as) ↔ ok s a ∧ M.Guarded ok s₁ as := by
  rw [Guarded, h]

theorem guarded_append_iff {ok : σ → α → Prop} {s s₁ : σ} {as bs : List α} {es : List ε}
    (h : M.run s as = some (s₁, es)) :
    M.Guarded ok s (as ++ bs) ↔ M.Guarded ok s as ∧ M.Guarded ok s₁ bs := by
  induction as generalizing s es with
  | nil =>
    obtain ⟨rfl, -⟩ := run_nil_iff.1 h
    simp [Guarded]
  | cons a as ih =>
    obtain ⟨s₂, es₁, es₂, h₁, h₂, -⟩ := run_cons_iff.1 h
    rw [List.cons_append, guarded_cons_iff h₁, guarded_cons_iff h₁, ih h₂, and_assoc]

theorem run_singleton_iff {s s' : σ} {a : α} {es : List ε} :
    M.run s [a] = some (s', es) ↔ M.step s a = some (s', es) := by
  constructor
  · intro h
    obtain ⟨s₁, es₁, es₂, h₁, h₂, rfl⟩ := run_cons_iff.1 h
    obtain ⟨rfl, rfl⟩ := run_nil_iff.1 h₂
    rw [h₁, List.append_nil]
  · intro h
    exact run_cons_iff.2 ⟨s', es, [], h, run_nil_iff.2 ⟨rfl, rfl⟩, (List.append_nil es).symm⟩

theorem run_concat {s s₁ s' : σ} {a : α} {as : List α} {es es' : List ε}
    (h : M.run s as = some (s₁, es)) (h' : M.step s₁ a = some (s', es')) :
    M.run s (as ++ [a]) = some (s', es ++ es') :=
  run_append_iff.2 ⟨s₁, es, es', h, run_singleton_iff.2 h', rfl⟩

theorem countSteps_concat {p : σ → α → Bool} {s s₁ : σ} {a : α} {as : List α} {es : List ε}
    (h : M.run s as = some (s₁, es)) :
    M.countSteps p s (as ++ [a]) = M.countSteps p s as + if p s₁ a then 1 else 0 := by
  induction as generalizing s es with
  | nil =>
    obtain ⟨rfl, -⟩ := run_nil_iff.1 h
    simp only [List.nil_append, countSteps]
    cases M.step s₁ a <;> simp
  | cons b as ih =>
    obtain ⟨s₂, es₁, es₂, h₁, h₂, -⟩ := run_cons_iff.1 h
    simp only [List.cons_append, countSteps, h₁]
    rw [ih h₂, Nat.add_assoc]

theorem guarded_concat {ok : σ → α → Prop} {s s₁ : σ} {a : α} {as : List α} {es : List ε}
    (h : M.run s as = some (s₁, es)) (hok : M.Guarded ok s as) (ha : ok s₁ a) :
    M.Guarded ok s (as ++ [a]) := by
  refine (guarded_append_iff h).2 ⟨hok, ha, ?_⟩
  cases M.step s₁ a <;> trivial

/-- A property of the actions so far, the state and the events so far that every guarded step
preserves holds at the end of every guarded run. -/
theorem run_preserves_history {ok : σ → α → Prop} {P : List α → σ → List ε → Prop}
    (hstep : ∀ l s t a s' es, P l s t → ok s a → M.step s a = some (s', es) →
      P (l ++ [a]) s' (t ++ es))
    {l as : List α} {s s' : σ} {t es : List ε} (h₀ : P l s t) (hok : M.Guarded ok s as)
    (hrun : M.run s as = some (s', es)) : P (l ++ as) s' (t ++ es) := by
  induction as generalizing l s t es with
  | nil =>
    obtain ⟨rfl, rfl⟩ := run_nil_iff.1 hrun
    simpa using h₀
  | cons a as ih =>
    obtain ⟨s₁, es₁, es₂, h₁, h₂, rfl⟩ := run_cons_iff.1 hrun
    obtain ⟨hok₁, hok₂⟩ := (guarded_cons_iff h₁).1 hok
    rw [← List.append_assoc, List.append_cons l a as]
    exact ih (hstep l s t a s₁ es₁ h₀ hok₁ h₁) hok₂ h₂

/-- A property of the state and the events so far that every guarded step preserves holds at the
end of every guarded run. -/
theorem run_preserves_trace {ok : σ → α → Prop} {P : σ → List ε → Prop}
    (hstep : ∀ s t a s' es, P s t → ok s a → M.step s a = some (s', es) → P s' (t ++ es))
    {s s' : σ} {t es : List ε} {as : List α} (h₀ : P s t) (hok : M.Guarded ok s as)
    (hrun : M.run s as = some (s', es)) : P s' (t ++ es) :=
  run_preserves_history (P := fun _ => P) (l := [])
    (fun _ s t a s' es hs ha h => hstep s t a s' es hs ha h) h₀ hok hrun

/-- An invariant of guarded steps is an invariant of guarded runs. -/
theorem run_preserves {ok : σ → α → Prop} {I : σ → Prop}
    (hstep : ∀ s a s' es, I s → ok s a → M.step s a = some (s', es) → I s')
    {s s' : σ} {es : List ε} {as : List α} (h₀ : I s) (hok : M.Guarded ok s as)
    (hrun : M.run s as = some (s', es)) : I s' :=
  run_preserves_trace (P := fun s _ => I s) (t := [])
    (fun s _ a s' es hs ha h => hstep s a s' es hs ha h) h₀ hok hrun

theorem guarded_of_forall_mem {ok : σ → α → Prop} {s : σ} {as : List α}
    (h : ∀ a ∈ as, ∀ s, ok s a) : M.Guarded ok s as := by
  induction as generalizing s with
  | nil => trivial
  | cons a as ih =>
    obtain ⟨ha, has⟩ := List.forall_mem_cons.1 h
    refine ⟨ha s, ?_⟩
    cases M.step s a with
    | none => trivial
    | some r => exact ih has

theorem guarded_of_forall {ok : σ → α → Prop} (h : ∀ s a, ok s a) {s : σ} {as : List α} :
    M.Guarded ok s as :=
  guarded_of_forall_mem fun a _ s => h s a

/-- A property of the actions so far, the state and the events so far that all steps preserve holds
at the end of all runs. -/
theorem run_invariant_history {P : List α → σ → List ε → Prop}
    (hstep : ∀ l s t a s' es, P l s t → M.step s a = some (s', es) → P (l ++ [a]) s' (t ++ es))
    {l as : List α} {s s' : σ} {t es : List ε} (h₀ : P l s t) (hrun : M.run s as = some (s', es)) :
    P (l ++ as) s' (t ++ es) :=
  run_preserves_history (fun l s t a s' es hs _ => hstep l s t a s' es hs) h₀
    (guarded_of_forall fun _ _ => trivial) hrun

/-- A property of the state and the events so far that all steps preserve holds at the end of all
runs. -/
theorem run_invariant_trace {P : σ → List ε → Prop}
    (hstep : ∀ s t a s' es, P s t → M.step s a = some (s', es) → P s' (t ++ es))
    {s s' : σ} {t es : List ε} {as : List α} (h₀ : P s t) (hrun : M.run s as = some (s', es)) :
    P s' (t ++ es) :=
  run_preserves_trace (fun s t a s' es hs _ => hstep s t a s' es hs) h₀
    (guarded_of_forall fun _ _ => trivial) hrun

/-- An invariant of all steps is an invariant of all runs. -/
theorem run_invariant {I : σ → Prop}
    (hstep : ∀ s a s' es, I s → M.step s a = some (s', es) → I s')
    {s s' : σ} {es : List ε} {as : List α} (h₀ : I s) (hrun : M.run s as = some (s', es)) :
    I s' :=
  run_preserves (fun s a s' es hs _ => hstep s a s' es hs) h₀
    (guarded_of_forall fun _ _ => trivial) hrun

theorem guarded_mono {ok ok' : σ → α → Prop} (h : ∀ s a, ok s a → ok' s a) {s : σ} {as : List α}
    (hok : M.Guarded ok s as) : M.Guarded ok' s as := by
  induction as generalizing s with
  | nil => trivial
  | cons a as ih =>
    rw [Guarded] at hok ⊢
    refine ⟨h s a hok.1, ?_⟩
    cases hstep : M.step s a with
    | none => trivial
    | some r =>
      rw [hstep] at hok
      exact ih hok.2

theorem guarded_and_iff {ok ok' : σ → α → Prop} {s : σ} {as : List α} :
    M.Guarded (fun s a => ok s a ∧ ok' s a) s as ↔ M.Guarded ok s as ∧ M.Guarded ok' s as := by
  induction as generalizing s with
  | nil => simp [Guarded]
  | cons a as ih =>
    rw [Guarded, Guarded, Guarded, and_and_and_comm]
    apply and_congr_right
    intro
    cases M.step s a with
    | none => simp
    | some r => exact ih

/-- Two conditions that agree where `I` holds guard the same executions, if steps that meet the
first preserve `I`. -/
theorem guarded_congr {ok ok' : σ → α → Prop} {I : σ → Prop}
    (hstep : ∀ s a s' es, I s → ok s a → M.step s a = some (s', es) → I s')
    (hiff : ∀ s a, I s → (ok s a ↔ ok' s a)) {s : σ} (h₀ : I s) (as : List α) :
    M.Guarded ok s as ↔ M.Guarded ok' s as := by
  induction as generalizing s with
  | nil => exact Iff.rfl
  | cons a as ih =>
    rw [Guarded, Guarded, ← hiff s a h₀]
    apply and_congr_right
    intro ha
    cases h : M.step s a with
    | none => exact Iff.rfl
    | some r => exact ih (hstep s a r.1 r.2 h₀ ha h)

/-- If a step that meets `ok` keeps `I`, and any other leads out of `I` for good (to `J`), then a
run ends in `I` exactly when all its steps meet `ok`. -/
theorem guarded_iff_of_absorbing {ok : σ → α → Prop} {I J : σ → Prop}
    (hok : ∀ s a s' es, I s → ok s a → M.step s a = some (s', es) → I s')
    (hbad : ∀ s a s' es, I s → ¬ ok s a → M.step s a = some (s', es) → J s')
    (hJ : ∀ s a s' es, J s → M.step s a = some (s', es) → J s') (hIJ : ∀ s, J s → ¬ I s)
    {s s' : σ} {es : List ε} {as : List α} (h₀ : I s) (hrun : M.run s as = some (s', es)) :
    I s' ↔ M.Guarded ok s as := by
  refine ⟨fun hs' => ?_, fun h => run_preserves hok h₀ h hrun⟩
  induction as generalizing s es with
  | nil => trivial
  | cons a as ih =>
    obtain ⟨s₁, es₁, es₂, h₁, h₂, -⟩ := run_cons_iff.1 hrun
    rw [guarded_cons_iff h₁]
    by_cases ha : ok s a
    · exact ⟨ha, ih (hok s a s₁ es₁ h₀ ha h₁) h₂⟩
    · exact absurd hs' (hIJ s' (run_invariant hJ (hbad s a s₁ es₁ h₀ ha h₁) h₂))

/-- If each step emits at most as many events in `p` as it takes out of the potential `Φ`, up to
what its action in `r` or its events in `q` put in, then so does a whole run. -/
theorem run_countP_le {Φ : σ → ℕ} {p q : ε → Bool} {r : α → Bool}
    (hstep : ∀ s a s' es, M.step s a = some (s', es) →
      es.countP p + Φ s' ≤ Φ s + es.countP q + if r a then 1 else 0)
    {s s' : σ} {es : List ε} {as : List α} (hrun : M.run s as = some (s', es)) :
    es.countP p + Φ s' ≤ Φ s + es.countP q + as.countP r := by
  induction as generalizing s es with
  | nil =>
    obtain ⟨rfl, rfl⟩ := run_nil_iff.1 hrun
    simp
  | cons a as ih =>
    obtain ⟨s₁, es₁, es₂, h₁, h₂, rfl⟩ := run_cons_iff.1 hrun
    have hfirst := hstep s a s₁ es₁ h₁
    have hrest := ih h₂
    rw [List.countP_append, List.countP_append, List.countP_cons]
    omega

/-! ### Executions up to a disabled step -/

theorem exec_cons {s s₁ : σ} {a : α} {as : List α} {es : List ε} (h : M.step s a = some (s₁, es)) :
    M.exec s (a :: as) = ((M.exec s₁ as).1, es ++ (M.exec s₁ as).2) := by
  rw [exec, h]

theorem exec_of_disabled {s : σ} (h : ∀ a, M.step s a = none) (as : List α) :
    M.exec s as = (s, []) := by
  cases as with
  | nil => rfl
  | cons a as => rw [exec, h]

theorem exec_append {s s₁ : σ} {as : List α} {es : List ε} (h : M.run s as = some (s₁, es))
    (bs : List α) : M.exec s (as ++ bs) = ((M.exec s₁ bs).1, es ++ (M.exec s₁ bs).2) := by
  induction as generalizing s es with
  | nil =>
    obtain ⟨rfl, rfl⟩ := run_nil_iff.1 h
    rfl
  | cons a as ih =>
    obtain ⟨s₂, es₁, es₂, h₁, h₂, rfl⟩ := run_cons_iff.1 h
    rw [List.cons_append, exec_cons h₁, ih h₂, List.append_assoc]

/-- If related states take each step together, to related states and with the same events, then so
do their executions. -/
theorem exec_simulates {R : σ → σ → Prop}
    (hdisabled : ∀ s t a, R s t → M.step s a = none → M.step t a = none)
    (hstep : ∀ s t a s' es, R s t → M.step s a = some (s', es) →
      ∃ t', M.step t a = some (t', es) ∧ R s' t')
    {s t : σ} (h : R s t) (as : List α) :
    R (M.exec s as).1 (M.exec t as).1 ∧ (M.exec t as).2 = (M.exec s as).2 := by
  induction as generalizing s t with
  | nil => exact ⟨h, rfl⟩
  | cons a as ih =>
    cases hs : M.step s a with
    | none =>
      rw [exec, exec, hs, hdisabled s t a h hs]
      exact ⟨h, rfl⟩
    | some r =>
      obtain ⟨t', ht, h'⟩ := hstep s t a r.1 r.2 h hs
      obtain ⟨hrel, hes⟩ := ih h'
      rw [exec_cons hs, exec_cons ht]
      exact ⟨hrel, congrArg (r.2 ++ ·) hes⟩

/-! ### History variables -/

variable {γ : Type*}

/-- The machine with a history variable. -/
def observe (M : EventMachine σ α ε) (f : γ → ε → γ) : EventMachine (σ × γ) α ε :=
  ⟨fun s a => (M.step s.1 a).map fun r => ((r.1, r.2.foldl f s.2), r.2)⟩

/-- Each event is right for the value of the history variable before it. -/
def Kept (f : γ → ε → γ) (keeps : γ → ε → Prop) : γ → List ε → Prop
  | _, [] => True
  | g, e :: es => keeps g e ∧ Kept f keeps (f g e) es

theorem kept_append {f : γ → ε → γ} {keeps : γ → ε → Prop} {g : γ} {es es' : List ε} :
    Kept f keeps g (es ++ es') ↔ Kept f keeps g es ∧ Kept f keeps (es.foldl f g) es' := by
  induction es generalizing g with
  | nil => simp [Kept]
  | cons e es ih => rw [List.cons_append, Kept, Kept, ih, List.foldl_cons, and_assoc]

/-- If the events of each guarded step are right, so are those of a guarded run. -/
theorem run_kept {f : γ → ε → γ} {keeps : γ → ε → Prop} {ok : σ × γ → α → Prop}
    {I : σ → γ → Prop}
    (hstep : ∀ s g a s' es, I s g → ok (s, g) a → M.step s a = some (s', es) →
      I s' (es.foldl f g) ∧ Kept f keeps g es)
    {s s' : σ} {g : γ} {es : List ε} {as : List α} (h₀ : I s g)
    (hok : (M.observe f).Guarded ok (s, g) as) (hrun : M.run s as = some (s', es)) :
    Kept f keeps g es := by
  induction as generalizing s g es with
  | nil =>
    obtain ⟨-, rfl⟩ := run_nil_iff.1 hrun
    trivial
  | cons a as ih =>
    obtain ⟨s₁, es₁, es₂, h₁, h₂, rfl⟩ := run_cons_iff.1 hrun
    have hobserved : (M.observe f).step (s, g) a = some ((s₁, es₁.foldl f g), es₁) := by
      show (M.step s a).map _ = _
      rw [h₁]
      rfl
    obtain ⟨ha, has⟩ := (guarded_cons_iff hobserved).1 hok
    obtain ⟨hinv, hkept⟩ := hstep s g a s₁ es₁ h₀ ha h₁
    exact kept_append.2 ⟨hkept, ih hinv has h₂⟩

/-! ### Labels -/

variable {β : Type*}

/-- The machine whose steps emit labels in place of their events. -/
def relabel (M : EventMachine σ α ε) (f : σ → α → List ε → List β) : EventMachine σ α β :=
  ⟨fun s a => (M.step s a).map fun r => (r.1, f s a r.2)⟩

theorem relabel_step_iff {f : σ → α → List ε → List β} {s s' : σ} {a : α} {ls : List β} :
    (M.relabel f).step s a = some (s', ls) ↔ ∃ es, M.step s a = some (s', es) ∧ ls = f s a es := by
  simp only [relabel, Option.map_eq_some_iff, Prod.exists, Prod.mk.injEq]
  constructor
  · rintro ⟨_, es, h, rfl, rfl⟩
    exact ⟨es, h, rfl⟩
  · rintro ⟨es, h, rfl⟩
    exact ⟨s', es, h, rfl, rfl⟩

end EventMachine
