import Gdnp.Lib.EventMachine

/-!
# Bounded service

A machine serves a queue when what is put out is taken from its front, and each step of its server
comes closer to the next one that puts something out.  Then after boundedly many steps of the server
all that was in the queue is out, whatever steps of others come in between (`run_served`).
-/

namespace EventMachine

variable {σ α ε γ : Type*}

/-- Steps of `M` from a state with `I` keep `I` and take what they put out from the front of the
queue, unless an event makes it all over; those in `r` lower `rank`, which is positive and grows by
at most `B` for each item that is put out. -/
structure Serves (M : EventMachine σ α ε) (I : σ → Prop) (ends : ε → Prop) (r : α → Bool)
    (queue : σ → List γ) (out : ε → Option γ) (rank : σ → ℕ) (B : ℕ) : Prop where
  step : ∀ s a s' es, I s → M.step s a = some (s', es) → (∃ e ∈ es, ends e) ∨
    I s' ∧ (∃ cs, es.filterMap out ++ queue s' = queue s ++ cs) ∧
      (queue s ≠ [] →
        rank s' + (if r a then 1 else 0) ≤ rank s + B * (es.filterMap out).length)
  pos : ∀ s, I s → 0 < rank s
  le : ∀ s, rank s ≤ B

variable {M : EventMachine σ α ε} {I : σ → Prop} {ends : ε → Prop} {r : α → Bool}
  {queue : σ → List γ} {out : ε → Option γ} {rank : σ → ℕ} {B : ℕ} {s s' : σ} {as : List α}
  {es : List ε}

/-- Either it is over, or what is out and what is queued began with the queue, and until this is
out each step of the server counts. -/
theorem Serves.run_rank (h : M.Serves I ends r queue out rank B) (h₀ : I s)
    (hrun : M.run s as = some (s', es)) : (∃ e ∈ es, ends e) ∨
      I s' ∧ (∃ cs, es.filterMap out ++ queue s' = queue s ++ cs) ∧
        (queue s <+: es.filterMap out ∨
          as.countP r + rank s' ≤ rank s + B * (es.filterMap out).length) := by
  apply run_invariant_history (l := []) (t := []) (P := fun as s' es => (∃ e ∈ es, ends e) ∨
    I s' ∧ (∃ cs, es.filterMap out ++ queue s' = queue s ++ cs) ∧
      (queue s <+: es.filterMap out ∨
        as.countP r + rank s' ≤ rank s + B * (es.filterMap out).length)) ?_ ?_ hrun
  · rintro l s₁ t a s₂ es (⟨e, he, hends⟩ | ⟨hI, ⟨cs, hcs⟩, hserved⟩) hstep
    · exact .inl ⟨e, List.mem_append_left _ he, hends⟩
    rcases h.step s₁ a s₂ es hI hstep with ⟨e, he, hends⟩ | ⟨hI', ⟨cs', hcs'⟩, hrank⟩
    · exact .inl ⟨e, List.mem_append_right _ he, hends⟩
    rw [List.filterMap_append, List.countP_append, List.countP_singleton, List.length_append]
    refine .inr ⟨hI', ⟨cs ++ cs', ?_⟩, ?_⟩
    · rw [List.append_assoc, hcs', ← List.append_assoc, hcs, List.append_assoc]
    · rcases hserved with hserved | hserved
      · exact .inl (hserved.trans (List.prefix_append _ _))
      · by_cases hnil : queue s₁ = []
        · rw [hnil, List.append_nil] at hcs
          rw [hcs, List.append_assoc]
          exact .inl (List.prefix_append _ _)
        · have hone := hrank hnil
          rw [Nat.mul_add]
          exact .inr (by omega)
  · exact .inr ⟨h₀, ⟨[], by simp⟩, .inr (by simp)⟩

/-- After `B` steps of the server for each item in the queue, all of them are out. -/
theorem Serves.run_served (h : M.Serves I ends r queue out rank B) (h₀ : I s)
    (hlong : B * (queue s).length ≤ as.countP r) (hrun : M.run s as = some (s', es)) :
    (∃ e ∈ es, ends e) ∨ queue s <+: es.filterMap out := by
  obtain hends | ⟨hI, ⟨cs, hcs⟩, hserved | hserved⟩ := h.run_rank h₀ hrun
  · exact .inl hends
  · exact .inr hserved
  · right
    rcases Nat.lt_or_ge (es.filterMap out).length (queue s).length with hlt | hle
    · have hpos := h.pos s' hI
      have hB := h.le s
      have hmul : B * ((es.filterMap out).length + 1) ≤ B * (queue s).length :=
        Nat.mul_le_mul_left B hlt
      rw [Nat.mul_add, Nat.mul_one] at hmul
      omega
    · have hprefix : queue s <+: es.filterMap out ++ queue s' := hcs ▸ List.prefix_append _ _
      exact List.prefix_of_prefix_length_le hprefix (List.prefix_append _ _) hle

end EventMachine
