import Gdnp.Server

/-!
# The watch list under interleaving

The loop thread appends to `tcp_fd_set` when it accepts a connection, and every session thread that
ends takes a descriptor out in `clear_when_session_end`, without a lock.  Each statement is a step
here, and the steps of the loop thread and of any number of calls are interleaved
(`WatchState.step`).  Two calls may pass the test of their loop before either decrements
`tcp_accepted`, which then becomes negative (`not_watchList_bounded`); if no call passes the test
while as many others as there are descriptors are past it, the counter and all indices stay in
bounds (`watchList_bounded`), and if one does, the counter can become negative
(`exists_negative_of_not_inTurn`).  Statements that run alone do what they do in the server
(`run_clear_alone`, `run_accept_alone`).
-/

namespace Gdnp

/-- `tcp_fd_set` with the memory around it, and `tcp_accepted`. -/
structure WatchVars where
  tcpFdSet : ℤ → ℤ
  tcpAccepted : ℤ

/-- What a call of `clear_when_session_end` does next in its loop over the watch list. -/
inductive ClearPc where
  | test
  | compare
  | whileTest
  | shift
  | incJ
  | decrement
  | incI
  | done
  deriving DecidableEq

/-- A call of `clear_when_session_end`, with its locals. -/
structure ClearCall where
  tcpSock : ℤ
  i : ℤ
  j : ℤ
  pc : ClearPc

/-- The loop test was passed, and `tcp_accepted` is not yet decremented. -/
def ClearPc.pending : ClearPc → Bool
  | test | incI | done => false
  | _ => true

namespace ClearCall

/-- A new call. -/
def new (tcpSock : ℤ) : ClearCall := ⟨tcpSock, 0, 0, .test⟩

/-- One statement of the call, and the indices of `tcp_fd_set` that it accesses. -/
def step (t : ClearCall) (w : WatchVars) : Option (ClearCall × WatchVars × List ℤ) :=
  match t.pc with
  | .test => some ({ t with pc := if t.i < w.tcpAccepted then .compare else .done }, w, [])
  | .compare =>
    if w.tcpFdSet t.i = t.tcpSock then some ({ t with j := t.i, pc := .whileTest }, w, [t.i])
    else some ({ t with pc := .decrement }, w, [t.i])
  | .whileTest =>
    some ({ t with pc := if t.j < w.tcpAccepted - 1 then .shift else .decrement }, w, [])
  | .shift =>
    some ({ t with pc := .incJ },
      { w with tcpFdSet := Function.update w.tcpFdSet t.j (w.tcpFdSet (t.j + 1)) }, [t.j + 1, t.j])
  | .incJ => some ({ t with j := t.j + 1, pc := .whileTest }, w, [])
  | .decrement => some ({ t with pc := .incI }, { w with tcpAccepted := w.tcpAccepted - 1 }, [])
  | .incI => some ({ t with i := t.i + 1, pc := .test }, w, [])
  | .done => none

end ClearCall

/-- What the loop thread does next when a connection request waits. -/
inductive AcceptPc where
  | test
  | accept
  | store
  deriving DecidableEq

/-- The loop thread and the calls of `clear_when_session_end`; `tcp_sock` is that of the server. -/
structure WatchState where
  vars : WatchVars
  tcpSock : ℤ
  acceptPc : AcceptPc
  calls : List ClearCall

inductive WatchAct where
  /-- A statement of the loop thread; `accept` gives the descriptor. -/
  | accept (sock : ℤ)
  /-- A session with the given socket ends. -/
  | ends (tcpSock : ℤ)
  /-- A statement of the `k`-th call. -/
  | clear (k : ℕ)

namespace WatchState

/-- The server before the first connection. -/
def start (tcpFdSet : ℤ → ℤ) : WatchState := ⟨⟨tcpFdSet, 0⟩, -1, .test, []⟩

/-- The statements with which `run` takes a connection, and the index that is accessed. -/
def acceptStep (s : WatchState) (sock : ℤ) : WatchState × List ℤ :=
  match s.acceptPc with
  | .test =>
    ({ s with acceptPc := if s.vars.tcpAccepted < maxClientsNum then .accept else .test }, [])
  | .accept => ({ s with tcpSock := sock, acceptPc := .store }, [])
  | .store =>
    ({ s with
      vars := ⟨Function.update s.vars.tcpFdSet s.vars.tcpAccepted s.tcpSock,
        s.vars.tcpAccepted + 1⟩
      acceptPc := .test }, [s.vars.tcpAccepted])

def step (s : WatchState) : WatchAct → Option (WatchState × List ℤ)
  | .accept sock => some (s.acceptStep sock)
  | .ends tcpSock => some ({ s with calls := s.calls ++ [.new tcpSock] }, [])
  | .clear k => (s.calls[k]?).bind fun t => (t.step s.vars).map fun r =>
      ({ s with vars := r.2.1, calls := s.calls.set k r.1 }, r.2.2)

/-- The watch list as a machine; its events are the indices that are accessed. -/
def machine : EventMachine WatchState WatchAct ℤ := ⟨step⟩

/-- The number of calls that are past the loop test and have not decremented `tcp_accepted`. -/
def pending (s : WatchState) : ℕ := s.calls.countP (·.pc.pending)

/-- A call passes the loop test only while fewer others are past it than there are descriptors. -/
def InTurn (s : WatchState) : WatchAct → Prop
  | .clear k => ∀ t ∈ s.calls[k]?, t.pc = .test → t.i < s.vars.tcpAccepted →
      (s.pending : ℤ) < s.vars.tcpAccepted
  | _ => True

instance (s : WatchState) : DecidablePred s.InTurn
  | .accept _ => inferInstanceAs (Decidable True)
  | .ends _ => inferInstanceAs (Decidable True)
  | .clear k => inferInstanceAs (Decidable (∀ t ∈ s.calls[k]?, _))

end WatchState

/-! ### A single call -/

namespace ClearCall

/-- The branches of `step`. -/
inductive Step (t : ClearCall) (w : WatchVars) : ClearCall → WatchVars → List ℤ → Prop
  | enter (pc : t.pc = .test) (hi : t.i < w.tcpAccepted) : Step t w { t with pc := .compare } w []
  | leave (pc : t.pc = .test) (hi : ¬ t.i < w.tcpAccepted) : Step t w { t with pc := .done } w []
  | found (pc : t.pc = .compare) (hfd : w.tcpFdSet t.i = t.tcpSock) :
    Step t w { t with j := t.i, pc := .whileTest } w [t.i]
  | other (pc : t.pc = .compare) (hfd : w.tcpFdSet t.i ≠ t.tcpSock) :
    Step t w { t with pc := .decrement } w [t.i]
  | goOn (pc : t.pc = .whileTest) (hj : t.j < w.tcpAccepted - 1) :
    Step t w { t with pc := .shift } w []
  | stop (pc : t.pc = .whileTest) (hj : ¬ t.j < w.tcpAccepted - 1) :
    Step t w { t with pc := .decrement } w []
  | shift (pc : t.pc = .shift) :
    Step t w { t with pc := .incJ }
      { w with tcpFdSet := Function.update w.tcpFdSet t.j (w.tcpFdSet (t.j + 1)) } [t.j + 1, t.j]
  | incJ (pc : t.pc = .incJ) : Step t w { t with j := t.j + 1, pc := .whileTest } w []
  | decrement (pc : t.pc = .decrement) :
    Step t w { t with pc := .incI } { w with tcpAccepted := w.tcpAccepted - 1 } []
  | incI (pc : t.pc = .incI) : Step t w { t with i := t.i + 1, pc := .test } w []

variable {t t' : ClearCall} {w w' : WatchVars} {is : List ℤ}

theorem step_cases (h : t.step w = some (t', w', is)) : Step t w t' w' is := by
  unfold step at h
  split at h
  · cases h
    split_ifs with hi
    exacts [.enter ‹_› hi, .leave ‹_› hi]
  · split_ifs at h with hfd <;> cases h
    exacts [.found ‹_› hfd, .other ‹_› hfd]
  · cases h
    split_ifs with hj
    exacts [.goOn ‹_› hj, .stop ‹_› hj]
  · cases h
    exact .shift ‹_›
  · cases h
    exact .incJ ‹_›
  · cases h
    exact .decrement ‹_›
  · cases h
    exact .incI ‹_›
  · cases h

/-- The locals are where the tests that the call has passed put them. -/
structure Inside (t : ClearCall) : Prop where
  i_nonneg : 0 ≤ t.i
  i_lt : t.pc.pending → t.i < maxClientsNum
  j_nonneg : 0 ≤ t.j
  j_lt : t.pc = .shift → t.j + 1 < maxClientsNum

theorem inside_new (tcpSock : ℤ) : (new tcpSock).Inside :=
  ⟨le_rfl, by simp [new, ClearPc.pending], le_rfl, by simp [new]⟩

/-- A call stays inside the array if `tcp_accepted` does. -/
theorem step_inside (h : t.step w = some (t', w', is)) (ht : t.Inside)
    (hw : w.tcpAccepted ≤ maxClientsNum) :
    t'.Inside ∧ ∀ i ∈ is, 0 ≤ i ∧ i < maxClientsNum := by
  obtain ⟨hi, hlt, hj, hshift⟩ := ht
  cases step_cases h with
  | enter pc htest => exact ⟨⟨hi, fun _ => lt_of_lt_of_le htest hw, hj, by simp⟩, by simp⟩
  | leave pc => exact ⟨⟨hi, by simp [ClearPc.pending], hj, by simp⟩, by simp⟩
  | found pc =>
    have hlt' : t.i < maxClientsNum := hlt (by rw [pc]; rfl)
    exact ⟨⟨hi, fun _ => hlt', hi, by simp⟩, by simpa using ⟨hi, hlt'⟩⟩
  | other pc =>
    have hlt' : t.i < maxClientsNum := hlt (by rw [pc]; rfl)
    exact ⟨⟨hi, fun _ => hlt', hj, by simp⟩, by simpa using ⟨hi, hlt'⟩⟩
  | goOn pc htest =>
    have hlt' : t.i < maxClientsNum := hlt (by rw [pc]; rfl)
    exact ⟨⟨hi, fun _ => hlt', hj, fun _ => by dsimp only; omega⟩, by simp⟩
  | stop pc =>
    have hlt' : t.i < maxClientsNum := hlt (by rw [pc]; rfl)
    exact ⟨⟨hi, fun _ => hlt', hj, by simp⟩, by simp⟩
  | shift pc =>
    have hlt' : t.i < maxClientsNum := hlt (by rw [pc]; rfl)
    have hj' := hshift pc
    refine ⟨⟨hi, fun _ => hlt', hj, by simp⟩, ?_⟩
    simp only [List.mem_cons, List.not_mem_nil, or_false, forall_eq_or_imp, forall_eq]
    omega
  | incJ pc =>
    have hlt' : t.i < maxClientsNum := hlt (by rw [pc]; rfl)
    exact ⟨⟨hi, fun _ => hlt', by dsimp only; omega, by simp⟩, by simp⟩
  | decrement pc => exact ⟨⟨hi, by simp [ClearPc.pending], hj, by simp⟩, by simp⟩
  | incI pc => exact ⟨⟨by dsimp only; omega, by simp [ClearPc.pending], hj, by simp⟩, by simp⟩

/-- A call that becomes pending has just found its index below `tcp_accepted`, and one that is no
longer pending has decremented it. -/
theorem step_accepted (h : t.step w = some (t', w', is)) :
    (t.pc = .test ∧ t.i < w.tcpAccepted ∧ t'.pc = .compare ∧ w' = w) ∨
      (t.pc = .decrement ∧ t'.pc = .incI ∧ w'.tcpAccepted = w.tcpAccepted - 1) ∨
      (t'.pc.pending = t.pc.pending ∧ w'.tcpAccepted = w.tcpAccepted) := by
  cases step_cases h with
  | enter pc hi => exact .inl ⟨pc, hi, rfl, rfl⟩
  | decrement pc => exact .inr (.inl ⟨pc, rfl, rfl⟩)
  | leave pc | found pc | other pc | goOn pc | stop pc | shift pc | incJ pc | incI pc =>
    exact .inr (.inr ⟨by rw [pc]; rfl, rfl⟩)

/-- A call that runs alone. -/
def Steps : ClearCall × WatchVars → ClearCall × WatchVars → Prop :=
  Relation.ReflTransGen fun p q => ∃ is, p.1.step p.2 = some (q.1, q.2, is)

theorem Steps.cons {p : ClearCall × WatchVars} (h : t.step w = some (t', w', is))
    (hrest : Steps (t', w') p) : Steps (t, w) p :=
  .head ⟨is, h⟩ hrest

/-- The descriptors after the inner loop has run from `j` on. -/
def shifted (w : WatchVars) (j x : ℤ) : ℤ :=
  if j ≤ x ∧ x < w.tcpAccepted - 1 then w.tcpFdSet (x + 1) else w.tcpFdSet x

theorem shifted_of_le {j : ℤ} (h : w.tcpAccepted - 1 ≤ j) : shifted w j = w.tcpFdSet := by
  funext x
  exact if_neg (by omega)

/-- One round of the loop. -/
theorem shifted_update {j : ℤ} (h : j < w.tcpAccepted - 1) :
    shifted { w with tcpFdSet := Function.update w.tcpFdSet j (w.tcpFdSet (j + 1)) } (j + 1) =
      shifted w j := by
  funext x
  unfold shifted
  dsimp only
  by_cases hx : x = j
  · subst hx
    rw [if_neg (by omega), if_pos ⟨le_rfl, h⟩]
    exact Function.update_self ..
  · by_cases hin : j + 1 ≤ x ∧ x < w.tcpAccepted - 1
    · rw [if_pos hin, if_pos (by omega)]
      exact Function.update_of_ne (by omega) ..
    · rw [if_neg hin, if_neg (by omega)]
      exact Function.update_of_ne hx ..

/-- The inner loop moves the descriptors behind `j` up by one. -/
theorem shift_steps (hpc : t.pc = .whileTest) :
    ∃ j, Steps (t, w) ({ t with j := j, pc := .decrement },
      { w with tcpFdSet := shifted w t.j }) := by
  obtain ⟨n, hn⟩ : ∃ n, (w.tcpAccepted - 1 - t.j).toNat = n := ⟨_, rfl⟩
  induction n generalizing t w with
  | zero =>
    have hstop : t.step w = some ({ t with pc := .decrement }, w, []) := by
      rw [step, hpc]
      dsimp only
      rw [if_neg (by omega)]
    rw [shifted_of_le (by omega)]
    exact ⟨t.j, .cons hstop .refl⟩
  | succ n ih =>
    have hlt : t.j < w.tcpAccepted - 1 := by omega
    have hgo : t.step w = some ({ t with pc := .shift }, w, []) := by
      rw [step, hpc]
      dsimp only
      rw [if_pos hlt]
    let w₁ : WatchVars :=
      { w with tcpFdSet := Function.update w.tcpFdSet t.j (w.tcpFdSet (t.j + 1)) }
    have hmove : step { t with pc := .shift } w =
        some ({ t with pc := .incJ }, w₁, [t.j + 1, t.j]) := rfl
    have hinc : step { t with pc := .incJ } w₁ =
        some ({ t with j := t.j + 1, pc := .whileTest }, w₁, []) := rfl
    obtain ⟨j, hrest⟩ := ih (t := { t with j := t.j + 1, pc := .whileTest }) (w := w₁) rfl
      (by show (w.tcpAccepted - 1 - (t.j + 1)).toNat = n; omega)
    rw [← shifted_update hlt]
    exact ⟨j, .cons hgo (.cons hmove (.cons hinc hrest))⟩

theorem leave_step (hpc : t.pc = .test) (hi : ¬ t.i < w.tcpAccepted) :
    Steps (t, w) ({ t with pc := .done }, w) := by
  have hleave : t.step w = some ({ t with pc := .done }, w, []) := by
    rw [step, hpc]
    dsimp only
    rw [if_neg hi]
  exact .cons hleave .refl

theorem enter_step (hpc : t.pc = .test) (hi : t.i < w.tcpAccepted) :
    t.step w = some ({ t with pc := .compare }, w, []) := by
  rw [step, hpc]
  dsimp only
  rw [if_pos hi]

/-- A round of the outer loop that finds the socket. -/
theorem found_steps (hpc : t.pc = .test) (hi : t.i < w.tcpAccepted)
    (hfd : w.tcpFdSet t.i = t.tcpSock) :
    ∃ j, Steps (t, w) ({ t with i := t.i + 1, j := j, pc := .test },
      ⟨shifted w t.i, w.tcpAccepted - 1⟩) := by
  have hfound : step { t with pc := .compare } w =
      some ({ t with j := t.i, pc := .whileTest }, w, [t.i]) := by
    rw [step]
    dsimp only
    rw [if_pos hfd]
  obtain ⟨j, hshift⟩ := shift_steps (t := { t with j := t.i, pc := .whileTest }) (w := w) rfl
  have hdec : step { t with j := j, pc := .decrement } ⟨shifted w t.i, w.tcpAccepted⟩ =
      some ({ t with j := j, pc := .incI }, ⟨shifted w t.i, w.tcpAccepted - 1⟩, []) := rfl
  have hinc : step { t with j := j, pc := .incI } ⟨shifted w t.i, w.tcpAccepted - 1⟩ =
      some ({ t with i := t.i + 1, j := j, pc := .test },
        ⟨shifted w t.i, w.tcpAccepted - 1⟩, []) := rfl
  refine ⟨j, Steps.cons (enter_step hpc hi) (Steps.cons hfound (hshift.trans ?_))⟩
  exact Steps.cons hdec (Steps.cons hinc .refl)

/-- A round that does not. -/
theorem other_steps (hpc : t.pc = .test) (hi : t.i < w.tcpAccepted)
    (hfd : w.tcpFdSet t.i ≠ t.tcpSock) :
    Steps (t, w) ({ t with i := t.i + 1, pc := .test },
      { w with tcpAccepted := w.tcpAccepted - 1 }) := by
  have hother : step { t with pc := .compare } w =
      some ({ t with pc := .decrement }, w, [t.i]) := by
    rw [step]
    dsimp only
    rw [if_neg hfd]
  have hdec : step { t with pc := .decrement } w = some ({ t with pc := .incI },
      { w with tcpAccepted := w.tcpAccepted - 1 }, []) := rfl
  have hinc : step { t with pc := .incI } { w with tcpAccepted := w.tcpAccepted - 1 } =
      some ({ t with i := t.i + 1, pc := .test },
        { w with tcpAccepted := w.tcpAccepted - 1 }, []) := rfl
  refine Steps.cons (enter_step hpc hi) (Steps.cons hother ?_)
  exact Steps.cons hdec (Steps.cons hinc .refl)

/-- A call that runs alone from the loop test on does what `unwatch` says. -/
theorem test_steps {n i : ℕ} {fds : ℕ → ℤ} (hpc : t.pc = .test) (hi : t.i = i)
    (hn : w.tcpAccepted = n) (hfds : ∀ k : ℕ, w.tcpFdSet k = fds k) :
    ∃ t' w', Steps (t, w) (t', w') ∧ t'.pc = .done ∧
      w'.tcpAccepted = (unwatch t.tcpSock i fds n).2 ∧
      ∀ k : ℕ, w'.tcpFdSet k = (unwatch t.tcpSock i fds n).1 k := by
  induction n generalizing t w i fds with
  | zero => exact ⟨_, w, leave_step hpc (by omega), rfl, hn, hfds⟩
  | succ n ih =>
    rw [unwatch]
    by_cases hlt : i < n + 1
    · rw [if_pos hlt]
      have hlt' : t.i < w.tcpAccepted := by omega
      by_cases hfd : fds i = t.tcpSock
      · obtain ⟨j, hround⟩ := found_steps hpc hlt' (by rw [hi, hfds, hfd])
        have hfds' : ∀ k : ℕ, shifted w t.i k = if i ≤ k ∧ k < n then fds (k + 1) else fds k := by
          intro k
          unfold shifted
          by_cases hin : i ≤ k ∧ k < n
          · rw [if_pos hin, if_pos (by omega)]
            exact hfds (k + 1)
          · rw [if_neg hin, if_neg (by omega)]
            exact hfds k
        rw [if_pos hfd]
        obtain ⟨t', w', hrest, hdone⟩ := ih (t := { t with i := t.i + 1, j := j, pc := .test })
          (w := ⟨shifted w t.i, w.tcpAccepted - 1⟩) (i := i + 1) rfl (by dsimp only; omega)
          (by dsimp only; omega) hfds'
        exact ⟨t', w', hround.trans hrest, hdone⟩
      · have hround := other_steps hpc hlt' (by rw [hi, hfds]; exact hfd)
        rw [if_neg hfd]
        obtain ⟨t', w', hrest, hdone⟩ := ih (t := { t with i := t.i + 1, pc := .test })
          (w := { w with tcpAccepted := w.tcpAccepted - 1 }) (i := i + 1) rfl
          (by dsimp only; omega) (by dsimp only; omega) hfds
        exact ⟨t', w', hround.trans hrest, hdone⟩
    · rw [if_neg hlt]
      exact ⟨_, w, leave_step hpc (by omega), rfl, hn, hfds⟩

/-- When it runs alone, the call decrements `tcp_accepted` and is no longer pending. -/
def Decrements (t : ClearCall) (w : WatchVars) : Prop :=
  ∃ t' w', Steps (t, w) (t', w') ∧ t'.pc.pending = false ∧ w'.tcpAccepted = w.tcpAccepted - 1

theorem Decrements.of_step (h : t.step w = some (t', w', is))
    (haccepted : w'.tcpAccepted = w.tcpAccepted) (hrest : t'.Decrements w') : t.Decrements w := by
  obtain ⟨u, v, hsteps, hpending, hv⟩ := hrest
  exact ⟨u, v, .cons h hsteps, hpending, by rw [hv, haccepted]⟩

theorem decrements_of_decrement (hpc : t.pc = .decrement) : t.Decrements w := by
  have hstep : t.step w = some ({ t with pc := .incI },
      { w with tcpAccepted := w.tcpAccepted - 1 }, []) := by
    rw [step, hpc]
  exact ⟨_, _, .cons hstep .refl, rfl, rfl⟩

theorem decrements_of_whileTest (hpc : t.pc = .whileTest) : t.Decrements w := by
  obtain ⟨j, hshift⟩ := shift_steps (w := w) hpc
  obtain ⟨t', w', hsteps, hend⟩ := decrements_of_decrement
    (t := { t with j := j, pc := .decrement })
    (w := { w with tcpFdSet := shifted w t.j }) rfl
  exact ⟨t', w', hshift.trans hsteps, hend⟩

/-- A pending call cannot but decrement the counter. -/
theorem decrements_of_pending (hpending : t.pc.pending = true) : t.Decrements w := by
  cases hpc : t.pc with
  | compare =>
    by_cases hfd : w.tcpFdSet t.i = t.tcpSock
    · have hstep : t.step w = some ({ t with j := t.i, pc := .whileTest }, w, [t.i]) := by
        rw [step, hpc]
        dsimp only
        rw [if_pos hfd]
      exact .of_step hstep rfl (decrements_of_whileTest rfl)
    · have hstep : t.step w = some ({ t with pc := .decrement }, w, [t.i]) := by
        rw [step, hpc]
        dsimp only
        rw [if_neg hfd]
      exact .of_step hstep rfl (decrements_of_decrement rfl)
  | whileTest => exact decrements_of_whileTest hpc
  | shift =>
    let w₁ : WatchVars :=
      { w with tcpFdSet := Function.update w.tcpFdSet t.j (w.tcpFdSet (t.j + 1)) }
    have hstep : t.step w = some ({ t with pc := .incJ }, w₁, [t.j + 1, t.j]) := by
      rw [step, hpc]
    have hinc : step { t with pc := .incJ } w₁ =
        some ({ t with j := t.j + 1, pc := .whileTest }, w₁, []) := rfl
    exact .of_step hstep rfl (.of_step hinc rfl (decrements_of_whileTest rfl))
  | incJ =>
    have hstep : t.step w = some ({ t with j := t.j + 1, pc := .whileTest }, w, []) := by
      rw [step, hpc]
    exact .of_step hstep rfl (decrements_of_whileTest rfl)
  | decrement => exact decrements_of_decrement hpc
  | test | incI | done =>
    rw [hpc] at hpending
    cases hpending

end ClearCall

/-! ### All calls -/

namespace WatchState

variable {s s' : WatchState} {a : WatchAct} {is : List ℤ}

theorem step_clear_iff {k : ℕ} :
    s.step (.clear k) = some (s', is) ↔ ∃ t t' w, s.calls[k]? = some t ∧
      t.step s.vars = some (t', w, is) ∧ s' = { s with vars := w, calls := s.calls.set k t' } := by
  simp only [step, Option.bind_eq_some_iff, Option.map_eq_some_iff, Prod.exists, Prod.mk.injEq]
  constructor
  · rintro ⟨t, ht, t', w, _, h, rfl, rfl⟩
    exact ⟨t, t', w, ht, h, rfl⟩
  · rintro ⟨t, t', w, ht, h, rfl⟩
    exact ⟨t, ht, t', w, is, h, rfl, rfl⟩

/-- Every pending decrement has a descriptor, and there is room for one that is being stored. -/
structure Bounded (s : WatchState) : Prop where
  pending : (s.pending : ℤ) ≤ s.vars.tcpAccepted
  le_max : s.vars.tcpAccepted ≤ maxClientsNum
  room : s.acceptPc ≠ .test → s.vars.tcpAccepted < maxClientsNum
  inside : ∀ t ∈ s.calls, t.Inside

theorem bounded_start (tcpFdSet : ℤ → ℤ) : (start tcpFdSet).Bounded :=
  ⟨le_rfl, Int.natCast_nonneg _, by simp [start], by simp [start]⟩

theorem acceptStep_bounded (hs : s.Bounded) (sock : ℤ) :
    (s.acceptStep sock).1.Bounded ∧ ∀ i ∈ (s.acceptStep sock).2, 0 ≤ i ∧ i < maxClientsNum := by
  obtain ⟨hpending, hmax, hroom, hinside⟩ := hs
  unfold acceptStep
  cases hpc : s.acceptPc with
  | test =>
    refine ⟨⟨hpending, hmax, ?_, hinside⟩, by simp⟩
    by_cases hlt : s.vars.tcpAccepted < maxClientsNum
    · exact fun _ => hlt
    · simp [hlt]
  | accept => exact ⟨⟨hpending, hmax, fun _ => hroom (by simp [hpc]), hinside⟩, by simp⟩
  | store =>
    have hlt := hroom (by simp [hpc])
    have hle : (s.pending : ℤ) ≤ s.vars.tcpAccepted + 1 := by omega
    refine ⟨⟨hle, by dsimp only; omega, by simp, hinside⟩, ?_⟩
    simp only [List.mem_singleton, forall_eq]
    omega

theorem pending_set {k : ℕ} {t : ClearCall} (ht : s.calls[k]? = some t) (t' : ClearCall) :
    (s.calls.set k t').countP (·.pc.pending) + t.pc.pending.toNat =
      s.pending + t'.pc.pending.toNat := by
  obtain ⟨hk, rfl⟩ := List.getElem?_eq_some_iff.1 ht
  have hnat : ∀ b : Bool, (if b = true then 1 else 0) = b.toNat := by decide
  have hle : (if s.calls[k].pc.pending then 1 else 0) ≤ s.pending :=
    List.boole_getElem_le_countP (p := fun t : ClearCall => t.pc.pending) hk
  rw [hnat] at hle
  rw [List.countP_set hk, hnat, hnat]
  unfold pending at *
  omega

theorem step_bounded (h : s.step a = some (s', is)) (ha : s.InTurn a) (hs : s.Bounded) :
    s'.Bounded ∧ ∀ i ∈ is, 0 ≤ i ∧ i < maxClientsNum := by
  cases a with
  | accept sock =>
    have hstep : s.acceptStep sock = (s', is) := Option.some.inj h
    have hbounded := acceptStep_bounded hs sock
    rw [hstep] at hbounded
    exact hbounded
  | ends tcpSock =>
    cases h
    obtain ⟨hpending, hmax, hroom, hinside⟩ := hs
    refine ⟨⟨?_, hmax, hroom, ?_⟩, by simp⟩
    · simpa [pending, ClearCall.new, ClearPc.pending] using hpending
    · intro t ht
      rcases List.mem_append.1 ht with ht | ht
      · exact hinside t ht
      · rw [List.mem_singleton.1 ht]
        exact ClearCall.inside_new tcpSock
  | clear k =>
    obtain ⟨t, t', w, ht, hstep, rfl⟩ := step_clear_iff.1 h
    obtain ⟨hpending, hmax, hroom, hinside⟩ := hs
    obtain ⟨hinside', his⟩ := ClearCall.step_inside hstep (hinside t (List.mem_of_getElem? ht)) hmax
    have hcount := pending_set ht t'
    have hbound : ((s.calls.set k t').countP (·.pc.pending) : ℤ) ≤ w.tcpAccepted ∧
        w.tcpAccepted ≤ s.vars.tcpAccepted := by
      obtain ⟨hpc, hi, hpc', rfl⟩ | ⟨hpc, hpc', hw⟩ | ⟨hpc, hw⟩ := ClearCall.step_accepted hstep
      · have hturn : (s.pending : ℤ) < s.vars.tcpAccepted := ha t ht hpc hi
        rw [hpc, hpc'] at hcount
        replace hcount : _ + 0 = s.pending + 1 := hcount
        omega
      · rw [hpc, hpc'] at hcount
        replace hcount : _ + 1 = s.pending + 0 := hcount
        omega
      · rw [hpc] at hcount
        omega
    refine ⟨⟨hbound.1, hbound.2.trans hmax, fun hpc => hbound.2.trans_lt (hroom hpc), ?_⟩, his⟩
    intro u hu
    rcases List.mem_or_eq_of_mem_set hu with hu | rfl
    · exact hinside u hu
    · exact hinside'

/-- If no call passes the loop test while as many others are past it as there are descriptors,
`tcp_accepted` and all indices stay in bounds. -/
theorem watchList_bounded {tcpFdSet : ℤ → ℤ} {as : List WatchAct} {s : WatchState} {is : List ℤ}
    (hok : machine.Guarded InTurn (start tcpFdSet) as)
    (hrun : machine.run (start tcpFdSet) as = some (s, is)) :
    (0 ≤ s.vars.tcpAccepted ∧ s.vars.tcpAccepted ≤ maxClientsNum) ∧
      ∀ i ∈ is, 0 ≤ i ∧ i < maxClientsNum := by
  have hkept : s.Bounded ∧ ∀ i ∈ is, 0 ≤ i ∧ i < maxClientsNum := by
    refine EventMachine.run_preserves_trace (t := [])
      (P := fun s (is : List ℤ) => s.Bounded ∧ ∀ i ∈ is, 0 ≤ i ∧ i < maxClientsNum)
      ?_ ⟨bounded_start tcpFdSet, by simp⟩ hok hrun
    intro s t a s' es hs ha h
    obtain ⟨hs', hes⟩ := step_bounded h ha hs.1
    exact ⟨hs', List.forall_mem_append.2 ⟨hs.2, hes⟩⟩
  exact ⟨⟨(Int.natCast_nonneg _).trans hkept.1.pending, hkept.1.le_max⟩, hkept.2⟩

/-- A connection is accepted, and a session on it ends. -/
def oneClient : List WatchAct := [.accept 5, .accept 5, .accept 5, .ends 5]

/-- Two sessions on one connection end: both calls pass the test before either decrements the
counter. -/
theorem not_watchList_bounded :
    ¬ ∀ (tcpFdSet : ℤ → ℤ) (as : List WatchAct) (s : WatchState) (is : List ℤ),
      machine.run (start tcpFdSet) as = some (s, is) →
        (0 ≤ s.vars.tcpAccepted ∧ s.vars.tcpAccepted ≤ maxClientsNum) ∧
          ∀ i ∈ is, 0 ≤ i ∧ i < maxClientsNum := by
  intro h
  have hcount : ((machine.run (start fun _ => 0) (oneClient ++ [.ends 5, .clear 0, .clear 1] ++
      List.replicate 3 (.clear 0) ++ List.replicate 3 (.clear 1))).map
        fun r => r.1.vars.tcpAccepted) = some (-1) := by
    decide +kernel
  obtain ⟨⟨s, is⟩, hrun, hneg⟩ := Option.map_eq_some_iff.1 hcount
  have hnonneg := (h _ _ s is hrun).1.1
  dsimp only at hneg
  omega

/-- Two connections are accepted, and the sessions on both end: one call tests, compares and moves
descriptors while the other is past its test. -/
def twoEnd : List WatchAct :=
  List.replicate 3 (.accept 5) ++ List.replicate 3 (.accept 6) ++ [.ends 5, .ends 6] ++
    (List.replicate 5 [.clear 0, .clear 1]).flatten ++ List.replicate 4 (.clear 0)

theorem watchList_bounded_twoEnd :
    ∃ s is, machine.run (start fun _ => 0) twoEnd = some (s, is) ∧
      (0 ≤ s.vars.tcpAccepted ∧ s.vars.tcpAccepted ≤ maxClientsNum) ∧
      ∀ i ∈ is, 0 ≤ i ∧ i < maxClientsNum := by
  have hok : machine.Guarded InTurn (start fun _ => 0) twoEnd := by decide +kernel
  obtain ⟨⟨s, is⟩, hrun⟩ := Option.isSome_iff_exists.1
    (show (machine.run (start fun _ => 0) twoEnd).isSome by decide +kernel)
  exact ⟨s, is, hrun, watchList_bounded hok hrun⟩

/-! ### Calls that run alone -/

/-- The `k`-th call is `t`, and the variables are `w`. -/
def withCall (s : WatchState) (k : ℕ) (t : ClearCall) (w : WatchVars) : WatchState :=
  { s with vars := w, calls := s.calls.set k t }

theorem run_of_steps {k : ℕ} (hk : k < s.calls.length) {p q : ClearCall × WatchVars}
    (h : ClearCall.Steps p q) :
    ∃ n is, machine.run (s.withCall k p.1 p.2) (List.replicate n (.clear k)) =
      some (s.withCall k q.1 q.2, is) := by
  induction h using Relation.ReflTransGen.head_induction_on with
  | refl => exact ⟨0, [], rfl⟩
  | head hstep _ ih =>
    obtain ⟨is, hstep⟩ := hstep
    obtain ⟨n, is', hrun⟩ := ih
    refine ⟨n + 1, is ++ is', EventMachine.run_cons_iff.2 ⟨_, is, is', ?_, hrun, rfl⟩⟩
    refine step_clear_iff.2 ⟨_, _, _, ?_, hstep, ?_⟩
    · simp [withCall, hk]
    · simp [withCall]

theorem withCall_self {k : ℕ} {t : ClearCall} (ht : s.calls[k]? = some t) :
    s.withCall k t s.vars = s := by
  obtain ⟨hk, rfl⟩ := List.getElem?_eq_some_iff.1 ht
  simp [withCall]

/-- Where more calls are past the loop test than there are descriptors, the counter can become
negative, even if no other call begins. -/
theorem exists_negative (h : s.vars.tcpAccepted < s.pending) :
    ∃ as s' is, machine.run s as = some (s', is) ∧ s'.vars.tcpAccepted < 0 := by
  obtain ⟨n, hn⟩ : ∃ n, s.pending = n := ⟨_, rfl⟩
  induction n generalizing s with
  | zero => exact ⟨[], s, [], rfl, by omega⟩
  | succ n ih =>
    obtain ⟨t, hmem, hpending⟩ := List.countP_pos_iff.1 (show 0 < s.pending by omega)
    obtain ⟨k, hk, rfl⟩ := List.getElem_of_mem hmem
    have ht : s.calls[k]? = some s.calls[k] := List.getElem?_eq_getElem hk
    obtain ⟨t', w, hsteps, hpending', hw⟩ :=
      ClearCall.decrements_of_pending (w := s.vars) hpending
    obtain ⟨m, is, hrun⟩ := run_of_steps hk hsteps
    rw [withCall_self ht] at hrun
    have hcount := pending_set ht t'
    rw [hpending, hpending'] at hcount
    replace hcount : (s.withCall k t' w).pending + 1 = s.pending + 0 := hcount
    have hless : (s.withCall k t' w).vars.tcpAccepted < (s.withCall k t' w).pending := by
      show w.tcpAccepted < _
      omega
    obtain ⟨as, s', is', hrun', hneg⟩ := ih hless (by omega)
    exact ⟨_, s', _, EventMachine.run_append_iff.2 ⟨_, is, is', hrun, hrun', rfl⟩, hneg⟩

/-- A step that is out of turn leads there. -/
theorem exists_negative_of_not_inTurn (h : ¬ s.InTurn a) :
    ∃ as s' is, machine.run s (a :: as) = some (s', is) ∧ s'.vars.tcpAccepted < 0 := by
  cases a with
  | accept sock => exact absurd trivial h
  | ends tcpSock => exact absurd trivial h
  | clear k =>
    simp only [InTurn, not_forall, not_lt] at h
    obtain ⟨t, ht, hpc, hi, hpending⟩ := h
    have hstep := ClearCall.enter_step hpc hi
    let s₁ : WatchState := { s with calls := s.calls.set k { t with pc := .compare } }
    have hfirst : machine.step s (.clear k) = some (s₁, []) :=
      step_clear_iff.2 ⟨t, _, s.vars, ht, hstep, rfl⟩
    have hcount := pending_set ht { t with pc := .compare }
    rw [hpc] at hcount
    replace hcount : s₁.pending + 0 = s.pending + 1 := hcount
    obtain ⟨as, s', is, hrun, hneg⟩ := exists_negative (s := s₁) (by
      show s.vars.tcpAccepted < _
      omega)
    exact ⟨as, s', is, EventMachine.run_cons_iff.2 ⟨s₁, [], is, hfirst, hrun, rfl⟩, hneg⟩

/-! ### The server -/

/-- The variables are those of the server. -/
structure Represents (s : WatchState) (sm : ServerMaster) : Prop where
  tcpAccepted : s.vars.tcpAccepted = sm.tcpAccepted
  tcpFdSet : ∀ k : ℕ, s.vars.tcpFdSet k = sm.tcpFdSet k

variable {sm : ServerMaster}

/-- A call of `clear_when_session_end` that runs alone does what it does in the server. -/
theorem run_clear_alone (h : s.Represents sm) (sessionId : UInt32) (tcpSock : ℤ) :
    ∃ n s' is, machine.run s (.ends tcpSock :: List.replicate n (.clear s.calls.length)) =
        some (s', is) ∧ s'.Represents (sm.clearWhenSessionEnd sessionId tcpSock) := by
  let s₁ : WatchState := { s with calls := s.calls ++ [.new tcpSock] }
  obtain ⟨t', w', hsteps, -, hlen, hfds⟩ := ClearCall.test_steps (t := .new tcpSock) (w := s.vars)
    (i := 0) rfl rfl h.tcpAccepted h.tcpFdSet
  have hk : s.calls.length < s₁.calls.length := by simp [s₁]
  obtain ⟨n, is, hrun⟩ := run_of_steps hk hsteps
  rw [withCall_self (s := s₁) (by simp [s₁])] at hrun
  exact ⟨n, _, is, EventMachine.run_cons_iff.2 ⟨s₁, [], is, rfl, hrun, rfl⟩, hlen, hfds⟩

/-- The statements for a connection request do what they do in the server. -/
theorem run_accept_alone (h : s.Represents sm) (hpc : s.acceptPc = .test) (env : LoopEnv) :
    ∃ n s' is, machine.run s (List.replicate n (.accept env.acceptSock)) = some (s', is) ∧
      s'.Represents (sm.acceptClient env).1 := by
  unfold ServerMaster.acceptClient
  by_cases hlt : sm.tcpAccepted < maxClientsNum
  · have htest : s.acceptStep env.acceptSock = ({ s with acceptPc := .accept }, []) := by
      rw [acceptStep, hpc]
      dsimp only
      rw [if_pos (by rw [h.tcpAccepted]; exact_mod_cast hlt)]
    rw [if_pos hlt]
    refine ⟨3, _, _, EventMachine.run_cons_iff.2 ⟨_, [], _, congrArg some htest, rfl, rfl⟩, ?_, ?_⟩
    · show s.vars.tcpAccepted + 1 = _
      rw [h.tcpAccepted]
      rfl
    · intro k
      show Function.update s.vars.tcpFdSet s.vars.tcpAccepted env.acceptSock k =
        Function.update sm.tcpFdSet sm.tcpAccepted env.acceptSock k
      rw [h.tcpAccepted]
      by_cases hk : k = sm.tcpAccepted
      · subst hk
        rw [Function.update_self, Function.update_self]
      · rw [Function.update_of_ne hk, Function.update_of_ne (by exact_mod_cast hk), h.tcpFdSet]
  · rw [if_neg hlt]
    exact ⟨0, s, [], rfl, h⟩

end WatchState

end Gdnp
