import Gdnp.Lib.EventMachine

/-!
# Components of a machine

A machine projects to another when each of its steps looks, through a view of the state and labels
for the events, like a run of the other one (`Projects`); then so does each of its runs
(`Projects.run`).  The view may be a relation, and the steps restricted to those that meet a
condition (`Simulates`, `Simulates.run`).

A component that comes into being, runs, ends, and may come into being again is an occupant of a
slot (`slot`).  A run of a slot consists of the lives of its occupants, one after the other
(`slot_lives`), so what holds of every run of a component from its birth holds of every life
(`Life.IsRun`).
-/

namespace EventMachine

variable {σ α ε τ β φ κ ω : Type*}

/-! ### Projections -/

/-- Steps of `M` from a state with `I` keep `I` and look like runs of `N`. -/
structure Projects (M : EventMachine σ α ε) (N : EventMachine τ β φ) (I : σ → Prop)
    (view : σ → τ) (label : ε → Option φ) : Prop where
  inv : ∀ s a s' es, I s → M.step s a = some (s', es) → I s'
  step : ∀ s a s' es, I s → M.step s a = some (s', es) →
    ∃ bs, N.run (view s) bs = some (view s', es.filterMap label)

/-- If the steps of a machine look like runs of another, so do its runs. -/
theorem Projects.run {M : EventMachine σ α ε} {N : EventMachine τ β φ} {I : σ → Prop}
    {view : σ → τ} {label : ε → Option φ} (h : M.Projects N I view label) {s s' : σ} {as : List α}
    {es : List ε} (h₀ : I s) (hrun : M.run s as = some (s', es)) :
    I s' ∧ ∃ bs, N.run (view s) bs = some (view s', es.filterMap label) := by
  induction as generalizing s es with
  | nil =>
    obtain ⟨rfl, rfl⟩ := run_nil_iff.1 hrun
    exact ⟨h₀, [], rfl⟩
  | cons a as ih =>
    obtain ⟨s₁, es₁, es₂, h₁, h₂, rfl⟩ := run_cons_iff.1 hrun
    obtain ⟨bs₁, hfirst⟩ := h.step s a s₁ es₁ h₀ h₁
    obtain ⟨hinv, bs₂, hrest⟩ := ih (h.inv s a s₁ es₁ h₀ h₁) h₂
    refine ⟨hinv, bs₁ ++ bs₂, run_append_iff.2 ⟨_, _, _, hfirst, hrest, ?_⟩⟩
    rw [List.filterMap_append]

/-- Steps of `M` that meet `ok` look like runs of `N`, from related states to related states. -/
def Simulates (M : EventMachine σ α ε) (N : EventMachine τ β φ) (ok : σ → α → Prop)
    (R : σ → τ → Prop) (label : ε → Option φ) : Prop :=
  ∀ s t a s' es, R s t → ok s a → M.step s a = some (s', es) →
    ∃ bs t', N.run t bs = some (t', es.filterMap label) ∧ R s' t'

/-- If the guarded steps of a machine look like runs of another, so do its guarded runs. -/
theorem Simulates.run {M : EventMachine σ α ε} {N : EventMachine τ β φ} {ok : σ → α → Prop}
    {R : σ → τ → Prop} {label : ε → Option φ} (h : M.Simulates N ok R label) {s s' : σ} {t : τ}
    {as : List α} {es : List ε} (h₀ : R s t) (hok : M.Guarded ok s as)
    (hrun : M.run s as = some (s', es)) :
    ∃ bs t', N.run t bs = some (t', es.filterMap label) ∧ R s' t' := by
  induction as generalizing s t es with
  | nil =>
    obtain ⟨rfl, rfl⟩ := run_nil_iff.1 hrun
    exact ⟨[], t, rfl, h₀⟩
  | cons a as ih =>
    obtain ⟨s₁, es₁, es₂, h₁, h₂, rfl⟩ := run_cons_iff.1 hrun
    obtain ⟨ha, hrest⟩ := (guarded_cons_iff h₁).1 hok
    obtain ⟨bs₁, t₁, hfirst, hR⟩ := h s t a s₁ es₁ h₀ ha h₁
    obtain ⟨bs₂, t', hsecond, hR'⟩ := ih hR hrest h₂
    refine ⟨bs₁ ++ bs₂, t', run_append_iff.2 ⟨t₁, _, _, hfirst, hsecond, ?_⟩, hR'⟩
    rw [List.filterMap_append]

/-! ### Slots -/

inductive SlotAct (κ β : Type*) where
  | create (k : κ)
  | step (b : β)

inductive SlotEvent (ω φ : Type*) where
  | created (w : ω)
  | did (e : φ)
  | ended

/-- A place for one component `N` at a time: an occupant is made from a `κ`, which is announced,
and leaves when it reaches a state with `ends`. -/
def slot (N : EventMachine τ β φ) (new : κ → τ) (announce : κ → ω) (ends : τ → Bool) :
    EventMachine (Option τ) (SlotAct κ β) (SlotEvent ω φ) where
  step
    | none, .create k => some (some (new k), [.created (announce k)])
    | some t, .step b => (N.step t b).map fun r =>
        if ends r.1 then (none, r.2.map .did ++ [.ended]) else (some r.1, r.2.map .did)
    | _, _ => none

/-- What an occupant did from its birth until now, or until it left. -/
structure Life (κ τ φ : Type*) where
  birth : κ
  events : List φ
  state : τ

namespace Life

/-- The life is a run of the component from its birth. -/
def IsRun (N : EventMachine τ β φ) (new : κ → τ) (l : Life κ τ φ) : Prop :=
  ∃ bs, N.run (new l.birth) bs = some (l.state, l.events)

/-- What can be seen of a life. -/
def trace (announce : κ → ω) (l : Life κ τ φ) : List (SlotEvent ω φ) :=
  .created (announce l.birth) :: l.events.map .did

end Life

/-- The lives in a slot: those that are over, and the present one, if any. -/
structure Lives (N : EventMachine τ β φ) (new : κ → τ) (announce : κ → ω) (ends : τ → Bool)
    (s : Option τ) (es : List (SlotEvent ω φ)) (past : List (Life κ τ φ))
    (present : Option (Life κ τ φ)) : Prop where
  past_isRun : ∀ l ∈ past, l.IsRun N new ∧ ends l.state = true
  present_isRun : ∀ l ∈ present, l.IsRun N new
  state : present.map (·.state) = s
  events : es = past.flatMap (fun l => l.trace announce ++ [.ended]) ++
    present.toList.flatMap (·.trace announce)

section Lives

variable {N : EventMachine τ β φ} {new : κ → τ} {announce : κ → ω} {ends : τ → Bool}
  {s s' : Option τ} {a : SlotAct κ β} {t es : List (SlotEvent ω φ)} {past : List (Life κ τ φ)}
  {present : Option (Life κ τ φ)}

/-- A step of a slot begins a life, continues the present one, or ends it. -/
theorem Lives.step (h : Lives N new announce ends s t past present)
    (hstep : (slot N new announce ends).step s a = some (s', es)) :
    ∃ past' present', Lives N new announce ends s' (t ++ es) past' present' := by
  obtain ⟨hpast, hpresent, rfl, rfl⟩ := h
  cases present with
  | none =>
    cases a with
    | create k =>
      cases hstep
      refine ⟨past, some ⟨k, [], new k⟩, hpast, ?_, rfl, by simp [Life.trace]⟩
      rintro _ ⟨⟩
      exact ⟨[], rfl⟩
    | step b => cases hstep
  | some l =>
    cases a with
    | create k => cases hstep
    | step b =>
      obtain ⟨⟨u, fs⟩, hN, heq⟩ := Option.map_eq_some_iff.1 hstep
      obtain ⟨bs, hl⟩ := hpresent l rfl
      -- The present life with the events of this step.
      have hlonger : Life.IsRun N new ⟨l.birth, l.events ++ fs, u⟩ := ⟨bs ++ [b], run_concat hl hN⟩
      dsimp only at heq
      split_ifs at heq with hends <;> cases heq
      · refine ⟨past ++ [⟨l.birth, l.events ++ fs, u⟩], none, ?_, by simp, rfl, ?_⟩
        · rw [List.forall_mem_append, List.forall_mem_singleton]
          exact ⟨hpast, hlonger, hends⟩
        · simp [Life.trace]
      · refine ⟨past, some ⟨l.birth, l.events ++ fs, u⟩, hpast, ?_, rfl, by simp [Life.trace]⟩
        rintro _ ⟨⟩
        exact hlonger

/-- A run of an empty slot consists of lives. -/
theorem slot_lives {as : List (SlotAct κ β)}
    (hrun : (slot N new announce ends).run none as = some (s, es)) :
    ∃ past present, Lives N new announce ends s es past present := by
  apply run_invariant_trace (t := []) (P := fun s es => ∃ past present,
    Lives N new announce ends s es past present) ?_ ⟨[], none, ?_⟩ hrun
  · rintro s t a s' es ⟨past, present, h⟩ hstep
    exact h.step hstep
  · exact ⟨by simp, by simp, rfl, rfl⟩

end Lives

end EventMachine
