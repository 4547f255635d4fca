import Gdnp.Lib.Component

/-!
# Parties on an unreliable medium

Parties exchange messages over a medium that may lose, repeat, delay and reorder them: a step may
take any message that was ever put on it (`network`).  What the steps of each party keep, as long as
it takes only messages that are justified by those before them, holds in every run of the network,
and then all messages are so justified (`Keeps.run`).

That a message need not be taken says nothing about what the parties can still do once it is gone.
For this a message may be lost for good (`lossy`); up to the messages on the medium, such a run is
one of the network (`lossy_run`).
-/

namespace EventMachine

/-! ### Causes -/

section Grounded

variable {μ : Type*} {R : List μ → μ → Prop} {l ms : List μ}

/-- Each message is justified by those that were sent before it. -/
def Grounded (R : List μ → μ → Prop) (l : List μ) : Prop :=
  ∀ before m after, l = before ++ m :: after → R before m

/-- What is justified by some messages stays so when more are sent. -/
def Persistent (R : List μ → μ → Prop) : Prop := ∀ ⦃l l' m⦄, l <+: l' → R l m → R l' m

theorem grounded_nil : Grounded R [] := by
  intro before m after h
  simp at h

theorem Grounded.append (hR : Persistent R) (hl : Grounded R l) (hms : ∀ m ∈ ms, R l m) :
    Grounded R (l ++ ms) := by
  intro before m after h
  obtain ⟨bs, rfl, hbs⟩ | ⟨bs, rfl, hbs⟩ := List.append_eq_append_iff.1 h
  · exact hR (List.prefix_append _ _) (hms m (by simp [hbs]))
  · cases bs with
    | nil =>
      obtain rfl : m :: after = ms := hbs
      exact hR (by simp) (hms m List.mem_cons_self)
    | cons b bs =>
      rw [List.cons_append, List.cons.injEq] at hbs
      obtain ⟨rfl, -⟩ := hbs
      exact hl before m bs rfl

theorem Grounded.of_mem (hR : Persistent R) (hl : Grounded R l) {m : μ} (hm : m ∈ l) : R l m := by
  obtain ⟨before, after, rfl⟩ := List.append_of_mem hm
  exact hR (List.prefix_append _ _) (hl before m after rfl)

end Grounded

/-! ### Networks -/

/-- A machine whose steps may take a message from a medium and whose events may put one on it. -/
structure Party (σ α ε μ : Type*) extends EventMachine σ α ε where
  takes : α → Option μ
  puts : ε → Option μ

/-- The states of the parties, and all messages that were ever sent, or those of them that are not
lost. -/
structure Medium {ι : Type*} (σ : ι → Type*) (μ : Type*) where
  party : ∀ i, σ i
  sent : List μ

variable {ι μ : Type*} [DecidableEq ι] [DecidableEq μ] {σ α ε : ι → Type*}

/-- The parties on the medium; each step is one of one party. -/
def network (P : ∀ i, Party (σ i) (α i) (ε i) μ) :
    EventMachine (Medium σ μ) (Σ i, α i) (Σ i, ε i) where
  step s a :=
    if ∀ m ∈ (P a.1).takes a.2, m ∈ s.sent then
      ((P a.1).step (s.party a.1) a.2).map fun r =>
        (⟨Function.update s.party a.1 r.1, s.sent ++ r.2.filterMap (P a.1).puts⟩,
          r.2.map (Sigma.mk a.1))
    else none

variable {P : ∀ i, Party (σ i) (α i) (ε i) μ} {s s' : Medium σ μ} {i : ι} {a : α i}
  {es : List (Σ i, ε i)}

theorem network_step_iff : (network P).step s ⟨i, a⟩ = some (s', es) ↔
    (∀ m ∈ (P i).takes a, m ∈ s.sent) ∧ ∃ t ds, (P i).step (s.party i) a = some (t, ds) ∧
      s' = ⟨Function.update s.party i t, s.sent ++ ds.filterMap (P i).puts⟩ ∧
      es = ds.map (Sigma.mk i) := by
  unfold network
  dsimp only
  rw [Option.ite_none_right_eq_some, Option.map_eq_some_iff]
  apply and_congr_right
  intro
  constructor
  · rintro ⟨⟨t, ds⟩, hstep, heq⟩
    cases heq
    exact ⟨t, ds, hstep, rfl, rfl⟩
  · rintro ⟨t, ds, hstep, rfl, rfl⟩
    exact ⟨(t, ds), hstep, rfl⟩

/-- As long as a party takes only messages that are justified, its steps keep its invariant and put
only messages that are justified. -/
structure Keeps (P : ∀ i, Party (σ i) (α i) (ε i) μ) (ok : ∀ i, α i → Prop)
    (I : ∀ i, List μ → σ i → Prop) (R : List μ → μ → Prop) : Prop where
  persistent : Persistent R
  weaken : ∀ ⦃i l l' s⦄, l <+: l' → I i l s → I i l' s
  step : ∀ i l s a s' es, I i l s → ok i a → (∀ m ∈ (P i).takes a, m ∈ l ∧ R l m) →
    (P i).step s a = some (s', es) →
    (∀ m ∈ es.filterMap (P i).puts, R l m) ∧ I i (l ++ es.filterMap (P i).puts) s'

/-- The invariants of the parties hold in every run of the network, whatever the medium does, and
every message in it is justified by those before it. -/
theorem Keeps.run {ok : ∀ i, α i → Prop} {I : ∀ i, List μ → σ i → Prop} {R : List μ → μ → Prop}
    (h : Keeps P ok I R) {as : List (Σ i, α i)} (h₀ : ∀ i, I i s.sent (s.party i))
    (hs : Grounded R s.sent) (hok : ∀ a ∈ as, ok a.1 a.2)
    (hrun : (network P).run s as = some (s', es)) :
    (∀ i, I i s'.sent (s'.party i)) ∧ Grounded R s'.sent := by
  refine run_preserves (I := fun s => (∀ i, I i s.sent (s.party i)) ∧ Grounded R s.sent) ?_ ⟨h₀, hs⟩
    (guarded_of_forall_mem fun a ha _ => hok a ha) hrun
  rintro s ⟨i, a⟩ s' es ⟨hinv, hs⟩ ha hstep
  obtain ⟨htakes, t, ds, ht, rfl, -⟩ := network_step_iff.1 hstep
  obtain ⟨hputs, ht'⟩ := h.step i s.sent (s.party i) a t ds (hinv i) ha
    (fun m hm => ⟨htakes m hm, hs.of_mem h.persistent (htakes m hm)⟩) ht
  refine ⟨fun j => ?_, hs.append h.persistent hputs⟩
  dsimp only
  by_cases hj : j = i
  · subst hj
    rw [Function.update_self]
    exact ht'
  · rw [Function.update_of_ne hj]
    exact h.weaken (List.prefix_append _ _) (hinv j)

/-! ### Loss -/

inductive LossyAct (κ μ : Type*) where
  | act (a : κ)
  | lose (m : μ)

/-- The network on a medium that may also lose a message, with all its copies. -/
def lossy (P : ∀ i, Party (σ i) (α i) (ε i) μ) :
    EventMachine (Medium σ μ) (LossyAct (Σ i, α i) μ) (Σ i, ε i) where
  step s
    | .act a => (network P).step s a
    | .lose m => some (⟨s.party, s.sent.filter (· ≠ m)⟩, [])

/-- The parties do on a lossy medium what they may do if nothing is lost. -/
theorem lossy_simulates :
    (lossy P).Simulates (network P) (fun _ _ => True)
      (fun s t => t.party = s.party ∧ s.sent ⊆ t.sent) some := by
  rintro s t a s' es ⟨hparty, hsent⟩ - hstep
  rw [List.filterMap_some]
  cases a with
  | act a =>
    obtain ⟨i, a⟩ := a
    obtain ⟨htakes, u, ds, hu, rfl, rfl⟩ := network_step_iff.1 hstep
    rw [← hparty] at hu
    refine ⟨[⟨i, a⟩], _, run_singleton_iff.2 (network_step_iff.2
      ⟨fun m hm => hsent (htakes m hm), u, ds, hu, rfl, rfl⟩), ?_, ?_⟩
    · rw [hparty]
    · exact List.append_subset.2 ⟨List.Subset.trans hsent (List.subset_append_left ..),
        List.subset_append_right ..⟩
  | lose m =>
    cases hstep
    exact ⟨[], t, rfl, hparty, fun m' hm' => hsent (List.mem_of_mem_filter hm')⟩

theorem lossy_run {as : List (LossyAct (Σ i, α i) μ)}
    (hrun : (lossy P).run s as = some (s', es)) :
    ∃ bs sent, (network P).run s bs = some (⟨s'.party, sent⟩, es) := by
  obtain ⟨bs, ⟨party, sent⟩, hbs, hparty, -⟩ := lossy_simulates.run
    (⟨rfl, List.Subset.refl _⟩ : s.party = s.party ∧ s.sent ⊆ s.sent)
    (guarded_of_forall fun _ _ => trivial) hrun
  obtain rfl : party = s'.party := hparty
  rw [List.filterMap_some] at hbs
  exact ⟨bs, sent, hbs⟩

/-- A run in which nothing is lost. -/
theorem lossy_run_map_act (s : Medium σ μ) (as : List (Σ i, α i)) :
    (lossy P).run s (as.map .act) = (network P).run s as := by
  induction as generalizing s with
  | nil => rfl
  | cons a as ih =>
    rw [List.map_cons, run, run]
    congr 1
    funext r
    rw [ih]

end EventMachine
