import Mathlib.Data.List.Destutter
import Mathlib.Tactic

/-!
# Adjacent repetitions in a list

`List.destutter' R a l` keeps of `l`, after `a`, each element that `R` relates to the one kept
before.  What it keeps of `l` depends on `a` only through `R` (`tail_destutter'_congr`), and if no
element is related to itself, repeating elements in place changes nothing (`destutter'_repeated`).
-/

namespace List

variable {α : Type*} {R : α → α → Prop} [DecidableRel R] {a b : α} {l : List α}

theorem destutter'_eq_cons_tail (R : α → α → Prop) [DecidableRel R] (a : α) (l : List α) :
    l.destutter' R a = a :: (l.destutter' R a).tail := by
  induction l generalizing a with
  | nil => rfl
  | cons b l ih =>
    by_cases h : R a b
    · rw [destutter'_cons_pos _ h, tail_cons]
    · rw [destutter'_cons_neg _ h]
      exact ih a

/-- Two elements that are related to the same ones let pass the same elements. -/
theorem tail_destutter'_congr (h : ∀ c, R a c ↔ R b c) (l : List α) :
    (l.destutter' R a).tail = (l.destutter' R b).tail := by
  induction l with
  | nil => rfl
  | cons c l ih =>
    by_cases hc : R a c
    · rw [destutter'_cons_pos _ hc, destutter'_cons_pos _ ((h c).1 hc), tail_cons, tail_cons]
    · rw [destutter'_cons_neg _ hc, destutter'_cons_neg _ fun hb => hc ((h c).2 hb)]
      exact ih

theorem destutter'_replicate_append (hb : ∀ c, R a c ↔ R b c) (h : ¬ R b b) (k : ℕ) :
    (replicate k b ++ l).destutter' R a = l.destutter' R a := by
  induction k with
  | zero => rfl
  | succ k ih =>
    rw [replicate_succ, cons_append, destutter'_cons_neg _ fun ha => h ((hb b).1 ha)]
    exact ih

/-- How often elements are repeated in place does not matter. -/
theorem destutter'_repeated (h : ∀ c, ¬ R c c) (hR : ∀ a b, ¬ R a b → ∀ c, R a c ↔ R b c) (a : α)
    (reps : List (α × ℕ)) :
    (reps.flatMap fun p => replicate (p.2 + 1) p.1).destutter' R a =
      (reps.map Prod.fst).destutter' R a := by
  induction reps generalizing a with
  | nil => rfl
  | cons p reps ih =>
    rw [flatMap_cons, map_cons, replicate_succ, cons_append]
    by_cases hp : R a p.1
    · rw [destutter'_cons_pos _ hp, destutter'_cons_pos _ hp,
        destutter'_replicate_append (fun _ => Iff.rfl) (h p.1), ih]
    · rw [destutter'_cons_neg _ hp, destutter'_cons_neg _ hp,
        destutter'_replicate_append (hR a p.1 hp) (h p.1), ih]

end List
