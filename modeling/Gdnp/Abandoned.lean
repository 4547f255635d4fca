import Gdnp.Service
import Gdnp.Waiting

/-!
# Sessions that nobody ends

A session that waits in IDLE with nothing in its queue is ended by an end thread that expires, or
not at all.  It can still be ended exactly when an end thread is about to expire, or one has still
to look at `idle_check` and either finds it down or is not the last one whom it concerns
(`CanExpire`).  Otherwise the session waits for ever, unless another message comes
(`close_possible_iff`).
-/

open CMem

namespace Gdnp

/-- The end thread has still to look at `idle_check`, or has just seen it up. -/
def EndThread.Busy (t : EndThread) : Prop := t.Looks ∨ t.pc = .clear

instance (t : EndThread) : Decidable t.Busy := inferInstanceAs (Decidable (_ ∨ _))

namespace ServerSession

variable {o : ByteOrder} {s s' s₁ : ServerSession} {a : SessionAct} {es : List SessionEvent}
  {k : ℕ} {t t' u : EndThread}

/-- The session thread waits for a message. -/
def Waits (s : ServerSession) : Prop :=
  (s.runPc = .head ∨ s.runPc = .checkQueue) ∧ s.curState = .idle ∧ s.q = []

/-- An end thread can still set SESSION_END: the flag ends the first that looks, and no other. -/
def CanExpire (s : ServerSession) : Prop :=
  (∃ t ∈ s.endThreads, t.pc = .expire) ∨
    (∃ t ∈ s.endThreads, t.Looks) ∧ (s.idleCheck = 0 ∨ 2 ≤ s.endThreads.countP (·.Busy))

instance (s : ServerSession) : Decidable s.CanExpire := inferInstanceAs (Decidable (_ ∨ _ ∧ _))

/-- No end thread can set SESSION_END any more. -/
structure Abandoned (s : ServerSession) : Prop where
  unexpired : ∀ t ∈ s.endThreads, t.pc ≠ .expire
  last : (∀ t ∈ s.endThreads, ¬ t.Looks) ∨
    s.idleCheck = 1 ∧ s.endThreads.countP (·.Busy) ≤ 1

theorem abandoned_iff (hidle : s.idleCheck ≤ 1) : s.Abandoned ↔ ¬ s.CanExpire := by
  rw [CanExpire, not_or, not_and_or]
  constructor
  · rintro ⟨hexpire, hlast⟩
    refine ⟨fun ⟨t, ht, hpc⟩ => hexpire t ht hpc, hlast.imp ?_ ?_⟩
    · rintro hlooks ⟨t, ht, hpc⟩
      exact hlooks t ht hpc
    · omega
  · rintro ⟨hexpire, hlast⟩
    refine ⟨fun t ht hpc => hexpire ⟨t, ht, hpc⟩, hlast.imp ?_ ?_⟩
    · exact fun hlooks t ht hpc => hlooks ⟨t, ht, hpc⟩
    · omega

/-! ### No way out -/

theorem step_idleCheck_le (h : s.step o a = some (s', es)) (hs : s.idleCheck ≤ 1) :
    s'.idleCheck ≤ 1 := by
  cases a with
  | push c =>
    cases h
    exact hs
  | run env =>
    have h' : s.runStep o env = some (s', es) := h
    cases runStep_cases h' with
    | setIdleCheck pc => exact le_rfl
    | sendClearIdleCheck pc => exact Nat.zero_le _
    | _ => exact hs
  | wait k env =>
    obtain ⟨u, u', -, -, rfl⟩ := step_wait_iff.1 h
    exact hs
  | ends k =>
    obtain ⟨u, u', s₁, -, hstep, rfl, -⟩ := step_ends_iff.1 h
    obtain rfl | rfl | ⟨-, rfl⟩ := endStep_cases hstep
    exacts [hs, Nat.zero_le _, hs]

theorem two_le_countP_busy (ht : t ∈ s.endThreads) (hu : u ∈ s.endThreads) (hclear : t.pc = .clear)
    (hlooks : u.Looks) : 2 ≤ s.endThreads.countP (·.Busy) := by
  have hne : t ≠ u := by
    rintro rfl
    rcases hlooks with hpc | hpc <;>
    · rw [hclear] at hpc
      cases hpc
  have hsub : [t, u] ⊆ s.endThreads.filter (·.Busy) := by
    rw [List.cons_subset, List.cons_subset]
    exact ⟨List.mem_filter.2 ⟨ht, decide_eq_true (.inr hclear)⟩,
      List.mem_filter.2 ⟨hu, decide_eq_true (.inl hlooks)⟩, List.nil_subset _⟩
  have hnodup : [t, u].Nodup := by simp [hne]
  rw [List.countP_eq_length_filter]
  exact (List.subperm_of_subset hnodup hsub).length_le

/-- What an end thread does leaves the others as they were. -/
theorem endStep_abandoned (h : EndStep s t t' s₁) (ht : s.endThreads[k]? = some t)
    (hs : s.Abandoned) : Abandoned { s₁ with endThreads := s.endThreads.set k t' } := by
  obtain ⟨hexpire, hlast⟩ := hs
  have hmem : t ∈ s.endThreads := List.mem_of_getElem? ht
  obtain ⟨hk, hget⟩ := List.getElem?_eq_some_iff.1 ht
  have hset {p : EndThread → Prop} (hp : ∀ u ∈ s.endThreads, p u) (hp' : p t') :
      ∀ u ∈ s.endThreads.set k t', p u := by
    intro u hu
    rcases List.mem_or_eq_of_mem_set hu with hu | rfl
    exacts [hp u hu, hp']
  have hcount (hbusy : t.Busy) (hle : s.endThreads.countP (·.Busy) ≤ 1) :
      (s.endThreads.set k t').countP (·.Busy) ≤ 1 := by
    rw [List.countP_set hk, hget, if_pos (decide_eq_true hbusy)]
    split_ifs <;> omega
  cases h with
  | sleep pc =>
    obtain hlooks | ⟨hidle, hle⟩ := hlast
    · exact absurd (.inl pc) (hlooks t hmem)
    · exact ⟨hset hexpire (by simp), .inr ⟨hidle, hcount (.inl (.inl pc)) hle⟩⟩
  | seen pc =>
    obtain hlooks | ⟨hidle, hle⟩ := hlast
    · exact absurd (.inr pc) (hlooks t hmem)
    · exact ⟨hset hexpire (by simp), .inr ⟨hidle, hcount (.inl (.inr pc)) hle⟩⟩
  | again pc hne | late pc hne =>
    obtain hlooks | ⟨hidle, -⟩ := hlast
    · exact absurd (.inr pc) (hlooks t hmem)
    · exact absurd hidle hne
  | clear pc =>
    -- The flag goes down, but nobody is left to look at it.
    refine ⟨hset hexpire (by simp), .inl (hset (fun u hu hlooks => ?_) (by simp [EndThread.Looks]))⟩
    obtain hnone | ⟨-, hle⟩ := hlast
    · exact hnone u hu hlooks
    · have htwo := two_le_countP_busy hmem hu pc hlooks
      omega
  | expire pc => exact absurd pc (hexpire t hmem)

/-- Without a further message an abandoned session stays as it is. -/
theorem step_abandoned (h : s.step o a = some (s', es)) (ha : ∀ c, a ≠ .push c) (hs : s.Waits)
    (habandoned : s.Abandoned) : s'.Waits ∧ s'.Abandoned := by
  obtain ⟨hpc, hcur, hq⟩ := hs
  cases a with
  | push c => exact absurd rfl (ha c)
  | run env =>
    have h' : s.runStep o env = some (s', es) := h
    cases runStep_cases h' with
    | head => exact ⟨⟨.inr rfl, hcur, hq⟩, habandoned.unexpired, habandoned.last⟩
    | queueEmpty => exact ⟨⟨.inl rfl, hcur, hq⟩, habandoned.unexpired, habandoned.last⟩
    | headEnd pc st => simp [hcur] at st
    | queueNonempty pc hne => exact absurd hq hne
    | _ => simp_all
  | wait k env =>
    obtain ⟨u, u', -, -, rfl⟩ := step_wait_iff.1 h
    exact ⟨⟨hpc, hcur, hq⟩, habandoned.unexpired, habandoned.last⟩
  | ends k =>
    obtain ⟨t, t', s₁, ht, hstep, rfl, -⟩ := step_ends_iff.1 h
    refine ⟨?_, endStep_abandoned (endStep_inv hstep) ht habandoned⟩
    obtain rfl | rfl | ⟨hexpire, -⟩ := endStep_cases hstep
    · exact ⟨hpc, hcur, hq⟩
    · exact ⟨hpc, hcur, hq⟩
    · exact absurd hexpire (habandoned.unexpired t (List.mem_of_getElem? ht))

/-! ### A way out -/

/-- The end threads can do this by themselves. -/
def ByEnds (o : ByteOrder) (s s' : ServerSession) : Prop :=
  ∃ ks : List ℕ, (machine o).run s (ks.map .ends) = some (s', [])

theorem ByEnds.trans {s₂ : ServerSession} (h : ByEnds o s s') (h' : ByEnds o s' s₂) :
    ByEnds o s s₂ := by
  obtain ⟨ks, hks⟩ := h
  obtain ⟨ks', hks'⟩ := h'
  refine ⟨ks ++ ks', ?_⟩
  rw [List.map_append]
  exact EventMachine.run_append_iff.2 ⟨s', [], [], hks, hks', rfl⟩

theorem byEnds_step (ht : s.endThreads[k]? = some t) (h : s.endStep t = some (t', s₁)) :
    ByEnds o s { s₁ with endThreads := s.endThreads.set k t' } :=
  ⟨[k], EventMachine.run_singleton_iff.2 ((step_ends_iff (o := o)).2 ⟨t, t', s₁, ht, h, rfl, rfl⟩)⟩

theorem ByEnds.frame (h : ByEnds o s s') : s'.runPc = s.runPc ∧ s'.q = s.q := by
  obtain ⟨ks, hks⟩ := h
  induction ks generalizing s with
  | nil =>
    obtain ⟨rfl, -⟩ := EventMachine.run_nil_iff.1 hks
    exact ⟨rfl, rfl⟩
  | cons k ks ih =>
    obtain ⟨s₁, es₁, es₂, h₁, h₂, hnil⟩ := EventMachine.run_cons_iff.1 hks
    obtain ⟨rfl, rfl⟩ := List.append_eq_nil_iff.1 hnil.symm
    obtain ⟨hpc, hq⟩ := ih h₂
    obtain ⟨t, t', s₂, ht, hstep, rfl, -⟩ := (step_ends_iff (o := o)).1 h₁
    obtain rfl | rfl | ⟨-, rfl⟩ := endStep_cases hstep <;> exact ⟨hpc, hq⟩

theorem endStep_isSome (h : t.pc ≠ .done) : ∃ t' s₁, s.endStep t = some (t', s₁) := by
  unfold endStep
  split
  case h_5 hpc => exact absurd hpc h
  all_goals exact ⟨_, _, rfl⟩

theorem stepsLeft_pos (h : t.pc ≠ .done) : 0 < t.stepsLeft := by
  unfold EndThread.stepsLeft
  cases hpc : t.pc with
  | done => exact absurd hpc h
  | _ => simp

/-- An armed end thread can expire. -/
theorem Armed.byEnds {n : ℕ} (hs : s.Armed k n) :
    ∃ s', ByEnds o s s' ∧ s'.curState = .sessionEnd := by
  induction n generalizing s with
  | zero =>
    obtain ⟨t, -, harmed, hn⟩ := hs
    have hpos := stepsLeft_pos (ne_done_of_armed harmed)
    omega
  | succ n ih =>
    obtain ⟨t, ht, harmed, hn⟩ := hs
    obtain ⟨t', s₁, hstep⟩ := endStep_isSome (s := s) (ne_done_of_armed harmed)
    have hfirst := byEnds_step (o := o) ht hstep
    obtain hend | ⟨harmed', hlt⟩ := endStep_armed (endStep_inv hstep) harmed
    · exact ⟨_, hfirst, hend⟩
    · have hk : k < s.endThreads.length := (List.getElem?_eq_some_iff.1 ht).1
      obtain ⟨s', hrest, hend⟩ := ih (s := { s₁ with endThreads := s.endThreads.set k t' })
        ⟨t', List.getElem?_set_self hk, harmed', by omega⟩
      exact ⟨s', hfirst.trans hrest, hend⟩

/-- End thread `k` can take the flag down without touching the others. -/
def Lowers (o : ByteOrder) (k : ℕ) (s : ServerSession) : Prop :=
  ∃ s', ByEnds o s s' ∧ s'.idleCheck = 0 ∧ ∀ j, j ≠ k → s'.endThreads[j]? = s.endThreads[j]?

theorem Lowers.of_step (ht : s.endThreads[k]? = some t) (h : s.endStep t = some (t', s))
    (hs : Lowers o k { s with endThreads := s.endThreads.set k t' }) : Lowers o k s := by
  obtain ⟨s', hrest, hidle, hsame⟩ := hs
  refine ⟨s', (byEnds_step ht h).trans hrest, hidle, fun j hj => (hsame j hj).trans ?_⟩
  exact List.getElem?_set_ne (Ne.symm hj)

theorem lowers_of_busy (hidle : s.idleCheck = 1) (ht : s.endThreads[k]? = some t)
    (hbusy : t.Busy) : Lowers o k s := by
  have hclear {s : ServerSession} {t : EndThread} (ht : s.endThreads[k]? = some t)
      (hpc : t.pc = .clear) : Lowers o k s := by
    have hstep : s.endStep t = some ({ t with pc := .done }, { s with idleCheck := 0 }) := by
      simp only [endStep, hpc]
    exact ⟨_, byEnds_step ht hstep, rfl, fun j hj => List.getElem?_set_ne (Ne.symm hj)⟩
  have hcheck {s : ServerSession} {t : EndThread} (hidle : s.idleCheck = 1)
      (ht : s.endThreads[k]? = some t) (hpc : t.pc = .check) : Lowers o k s := by
    have hstep : s.endStep t = some ({ t with pc := .clear }, s) := by
      simp only [endStep, hpc, hidle, if_true]
    have hk := (List.getElem?_eq_some_iff.1 ht).1
    exact .of_step ht hstep (hclear (List.getElem?_set_self hk) rfl)
  obtain (hpc | hpc) | hpc := hbusy
  · have hstep : s.endStep t = some (⟨.check, t.totalSleep + 1⟩, s) := by
      simp only [endStep, hpc]
    have hk := (List.getElem?_eq_some_iff.1 ht).1
    exact .of_step ht hstep (hcheck hidle (List.getElem?_set_self hk) rfl)
  · exact hcheck hidle ht hpc
  · exact hclear ht hpc

/-- Of two busy end threads one is another. -/
theorem exists_busy (ht : s.endThreads[k]? = some t) (hbusy : t.Busy)
    (htwo : 2 ≤ s.endThreads.countP (·.Busy)) :
    ∃ j u, s.endThreads[j]? = some u ∧ j ≠ k ∧ u.Busy := by
  obtain ⟨hk, hget⟩ := List.getElem?_eq_some_iff.1 ht
  have hcount : 0 < (s.endThreads.set k ⟨.done, 0⟩).countP (·.Busy) := by
    rw [List.countP_set hk, hget, if_pos (decide_eq_true hbusy)]
    omega
  obtain ⟨u, hmem, hu⟩ := List.countP_pos_iff.1 hcount
  have hu : u.Busy := of_decide_eq_true hu
  obtain ⟨j, hj⟩ := List.getElem?_of_mem hmem
  have hne : j ≠ k := by
    rintro rfl
    rw [List.getElem?_set_self hk] at hj
    cases hj
    simp [EndThread.Busy, EndThread.Looks] at hu
  rw [List.getElem?_set_ne (Ne.symm hne)] at hj
  exact ⟨j, u, hj, hne, hu⟩

/-- A session that can expire is brought to SESSION_END by its end threads alone. -/
theorem CanExpire.byEnds (hs : s.CanExpire) (hidle : s.idleCheck ≤ 1) :
    ∃ s', ByEnds o s s' ∧ s'.curState = .sessionEnd := by
  obtain ⟨t, hmem, hpc⟩ | ⟨⟨t, hmem, hlooks⟩, hflag⟩ := hs
  · obtain ⟨k, hk⟩ := List.getElem?_of_mem hmem
    exact Armed.byEnds (k := k) ⟨t, hk, .inr hpc, le_rfl⟩
  · obtain ⟨k, hk⟩ := List.getElem?_of_mem hmem
    by_cases hdown : s.idleCheck = 0
    · exact Armed.byEnds (k := k) ⟨t, hk, .inl ⟨hlooks, hdown⟩, le_rfl⟩
    · -- Another end thread takes the flag down first.
      have htwo : 2 ≤ s.endThreads.countP (·.Busy) := hflag.resolve_left hdown
      obtain ⟨j, u, hj, hne, hbusy⟩ := exists_busy hk (.inl hlooks) htwo
      obtain ⟨s', hlower, hidle', hsame⟩ := lowers_of_busy (o := o) (by omega) hj hbusy
      have hk' : s'.endThreads[k]? = some t := (hsame k (Ne.symm hne)).trans hk
      obtain ⟨s₂, hrest, hend⟩ := Armed.byEnds (o := o) (k := k)
        ⟨t, hk', .inl ⟨hlooks, hidle'⟩, le_rfl⟩
      exact ⟨s₂, hlower.trans hrest, hend⟩

theorem waits_not_done (hs : s.Waits) : s.runPc.isDone = false := by
  obtain ⟨hpc | hpc, -, -⟩ := hs <;>
  · rw [hpc]
    rfl

end ServerSession

/-! ## In the table of the server -/

namespace ServerMaster

variable {o : ByteOrder} {sm sm' : ServerMaster} {es : List MasterEvent} {id : UInt32}
  {s s' : ServerSession} {b : SessionAct}

/-- A silent step of a thread, as a step of the server. -/
theorem step_thread (hs : sm.sessionOf id = some s) (hb : ∀ c, b ≠ .push c)
    (hstep : s.step o b = some (s', [])) (hdone : s'.runPc.isDone = false) :
    ∃ sm', (machine o).step sm (.session id b) = some (sm', []) ∧
      sm'.sessionOf id = some s' := by
  obtain ⟨ss, hss, rfl⟩ := Option.map_eq_some_iff.1 hs
  refine ⟨sm.setEntry id (some { ss with session := s' }), ?_, sessionOf_setEntry_self _⟩
  cases b with
  | push c => exact absurd rfl (hb c)
  | _ =>
    simp only [machine, step, sessionStep, hss, Option.bind_some, hstep, Option.map_some, hdone]
    rfl

theorem run_byEnds (hs : sm.sessionOf id = some s) (hrunning : s.runPc.isDone = false)
    (h : s.ByEnds o s') :
    ∃ (ks : List ℕ) (sm' : ServerMaster), (machine o).run sm
      (ks.map fun k => .session id (.ends k)) = some (sm', []) ∧ sm'.sessionOf id = some s' := by
  obtain ⟨ks, hks⟩ := h
  refine ⟨ks, ?_⟩
  induction ks generalizing sm s with
  | nil =>
    obtain ⟨rfl, -⟩ := EventMachine.run_nil_iff.1 hks
    exact ⟨sm, rfl, hs⟩
  | cons k ks ih =>
    obtain ⟨s₁, es₁, es₂, h₁, h₂, hnil⟩ := EventMachine.run_cons_iff.1 hks
    obtain ⟨rfl, rfl⟩ := List.append_eq_nil_iff.1 hnil.symm
    have h₁ : s.step o (.ends k) = some (s₁, []) := h₁
    have hpc : s₁.runPc = s.runPc := (ServerSession.step_runPc h₁ (by simp)).1
    have hrunning₁ : s₁.runPc.isDone = false := by rw [hpc, hrunning]
    obtain ⟨sm₁, hstep, hs₁⟩ := step_thread hs (by simp) h₁ hrunning₁
    obtain ⟨sm', hrest, hs'⟩ := ih hs₁ hrunning₁ h₂
    exact ⟨sm', EventMachine.run_cons_iff.2 ⟨sm₁, [], [], hstep, hrest, rfl⟩, hs'⟩

theorem mem_label_pushed {c : Content} :
    .did (.pushed c) ∈ es.filterMap (MasterEvent.label id) ↔ .pushed id c ∈ es := by
  rw [List.mem_filterMap]
  constructor
  · rintro ⟨e, he, hlabel⟩
    cases e with
    | pushed sessionId c' =>
      rw [MasterEvent.label] at hlabel
      split_ifs at hlabel with hid
      cases hlabel
      rwa [← hid]
    | _ =>
      simp only [MasterEvent.label] at hlabel
      try split_ifs at hlabel
      all_goals cases hlabel
  · intro he
    exact ⟨_, he, if_pos rfl⟩

/-- As long as no message is given to it, an abandoned session stays in the table as it is. -/
theorem run_abandoned {bs : List MasterAct} (hs : sm.sessionOf id = some s) (hwaits : s.Waits)
    (habandoned : s.Abandoned) (hrun : (machine o).run sm bs = some (sm', es))
    (hpushed : ∀ c, .pushed id c ∉ es) : ∃ s', sm'.sessionOf id = some s' ∧ s'.Waits := by
  have hkept : (∃ c, .pushed id c ∈ es) ∨
      ∃ s', sm'.sessionOf id = some s' ∧ s'.Waits ∧ s'.Abandoned := by
    apply EventMachine.run_invariant_trace (t := []) (P := fun sm es =>
      (∃ c, .pushed id c ∈ es) ∨ ∃ s', sm.sessionOf id = some s' ∧ s'.Waits ∧ s'.Abandoned) ?_
      (.inr ⟨s, hs, hwaits, habandoned⟩) hrun
    rintro sm t a sm' es (⟨c, hc⟩ | ⟨s, hs, hwaits, habandoned⟩) h
    · exact .inl ⟨c, List.mem_append_left _ hc⟩
    have hmoves := step_moves hs (ServerSession.waits_not_done hwaits) h
    have hgiven (c : Content) : .did (.pushed c) ∈ es.filterMap (MasterEvent.label id) ↔
      .pushed id c ∈ es := mem_label_pushed
    generalize sm'.sessionOf id = s?, es.filterMap (MasterEvent.label id) = ls at *
    cases hmoves with
    | keeps => exact .inr ⟨s, rfl, hwaits, habandoned⟩
    | @pushes _ c =>
      exact .inl ⟨c, List.mem_append_right _ ((hgiven c).1 (List.mem_singleton_self _))⟩
    | @thread b s' ses hb hstep hdone =>
      obtain ⟨hwaits', habandoned'⟩ := ServerSession.step_abandoned hstep hb hwaits habandoned
      exact .inr ⟨s', rfl, hwaits', habandoned'⟩
    | @clears b s' hb hstep hdone =>
      obtain ⟨hwaits', -⟩ := ServerSession.step_abandoned hstep hb hwaits habandoned
      rw [ServerSession.waits_not_done hwaits'] at hdone
      cases hdone
  obtain ⟨c, hc⟩ | ⟨s', hs', hwaits', -⟩ := hkept
  · exact absurd hc (hpushed c)
  · exact ⟨s', hs', hwaits'⟩

end ServerMaster

/-! ## In the process -/

namespace ServerThreads

variable {o : ByteOrder} {s s' : ServerThreads} {es : List ThreadsEvent} {id : UInt32} {k : ℕ}
  {ss : SessionEntry}

/-- The end threads of a session take their steps in the process. -/
theorem run_ends {ks : List ℕ} {sm : ServerMaster} (h : (ServerMaster.machine o).run s.server
    (ks.map fun k => .session id (.ends k)) = some (sm, [])) :
    (machine o).run s (ks.map (.ends id)) = some ({ s with server := sm }, []) := by
  induction ks generalizing s with
  | nil =>
    obtain ⟨rfl, -⟩ := EventMachine.run_nil_iff.1 h
    rfl
  | cons k ks ih =>
    obtain ⟨sm₁, es₁, es₂, h₁, h₂, hnil⟩ := EventMachine.run_cons_iff.1 h
    obtain ⟨rfl, rfl⟩ := List.append_eq_nil_iff.1 hnil.symm
    have h₁ : s.server.step o (.session id (.ends k)) = some (sm₁, []) := h₁
    have hfirst : (machine o).step s (.ends id k) = some ({ s with server := sm₁ }, []) := by
      simp only [machine, step, serverStep, h₁, Option.map_some, List.map_nil]
    have hserver : (ServerMaster.machine o).run ({ s with server := sm₁ } : ServerThreads).server
      (ks.map fun k => .session id (.ends k)) = some (sm, []) := h₂
    exact EventMachine.run_cons_iff.2 ⟨_, [], [], hfirst, ih hserver, rfl⟩

/-- The thread takes a silent step, and runs the session on from there. -/
theorem Inv.step_runs? (hs : s.Inv) (hp : s.runs? k = some (id, ss)) {env : RunEnv}
    {next : Option ℕ} (ha : s.Sound o (.run k env next)) {session : ServerSession}
    (hstep : ss.session.step o (.run env) = some (session, []))
    (hdone : session.runPc.isDone = false) :
    ∃ s', (machine o).step s (.run k env next) = some (s', []) ∧ s'.Inv ∧
      s'.runs? k = some (id, { ss with session := session }) := by
  obtain ⟨t, fr, ht, hk, hsees, hseem, -, rfl, hentry⟩ := hs.runs?_eq_some_iff.1 hp
  have hserver : s.server.sessionStep o fr.sessionId (.run env) =
      some (s.server.setEntry fr.sessionId (some { ss with session := session }), []) := by
    simp only [ServerMaster.sessionStep, hentry, Option.bind_some, hstep, Option.map_some, hdone]
    rfl
  have hrun := hs.runStep_of_runs? hp hserver
  have hs' := (hs.step ha hrun).1
  refine ⟨_, hrun, hs', hs'.runs?_eq_some_iff.2 ⟨t, fr.after (some { ss with session := session }),
    ht, ?_, hsees, hseem, hdone, rfl, ServerMaster.setEntry_ssMap_self⟩⟩
  simp [hk]

/-- A thread at the loop head touches no message and clears nothing. -/
theorem sound_head (hp : s.runs? k = some (id, ss))
    (hpc : ss.session.runPc = .head ∨ ss.session.runPc = .checkQueue) (env : RunEnv) :
    s.Sound o (.run k env none) := by
  intro p hp'
  cases hp.symm.trans hp'
  constructor
  · rcases hpc with hpc | hpc <;> simp [ServerSession.InBounds, hpc]
  · rcases hpc with hpc | hpc <;> simp [RunPc.isClose, hpc]

/-- The session can come to the end of `run` without a further message. -/
def Closes (o : ByteOrder) (id : UInt32) (s : ServerThreads) : Prop :=
  ∃ bs s' ss', (machine o).Guarded (Sound o) s bs ∧ (machine o).run s bs = some (s', []) ∧
    s'.server.ssMap id = some ss' ∧ ss'.session.runPc.isClose = true

theorem Closes.of_step {a : ThreadsAct} (ha : s.Sound o a)
    (hstep : (machine o).step s a = some (s', [])) (h : Closes o id s') : Closes o id s := by
  obtain ⟨bs, s₂, ss', hok, hrun, hss', hclose⟩ := h
  exact ⟨a :: bs, s₂, ss', (EventMachine.guarded_cons_iff hstep).2 ⟨ha, hok⟩,
    EventMachine.run_cons_iff.2 ⟨s', [], [], hstep, hrun, rfl⟩, hss', hclose⟩

/-- In SESSION_END the session thread comes to the end of `run`. -/
theorem Inv.closes (hs : s.Inv) (hp : s.runs? k = some (id, ss))
    (hpc : ss.session.runPc = .head ∨ ss.session.runPc = .checkQueue) (hq : ss.session.q = [])
    (hcur : ss.session.curState = .sessionEnd) (env : RunEnv) : Closes o id s := by
  have hhead {s : ServerThreads} {ss : SessionEntry} (hs : s.Inv)
      (hp : s.runs? k = some (id, ss)) (hpc : ss.session.runPc = .head)
      (hcur : ss.session.curState = .sessionEnd) : Closes o id s := by
    have hleave : ss.session.step o (.run env) =
        some ({ ss.session with runPc := .close }, []) := by
      simp only [ServerSession.step, ServerSession.runStep, hpc, hcur, if_true]
    have ha := sound_head (o := o) hp (.inl hpc) env
    obtain ⟨s', hstep, hs', hp'⟩ := hs.step_runs? hp ha hleave rfl
    obtain ⟨-, fr, -, -, -, -, -, rfl, hss'⟩ := hs'.runs?_eq_some_iff.1 hp'
    exact .of_step ha hstep ⟨[], s', _, trivial, rfl, hss', rfl⟩
  rcases hpc with hpc | hpc
  · exact hhead hs hp hpc hcur
  · have hback : ss.session.step o (.run env) = some ({ ss.session with runPc := .head }, []) := by
      simp only [ServerSession.step, ServerSession.runStep, hpc, hq, if_true]
    have ha := sound_head (o := o) hp (.inr hpc) env
    obtain ⟨s', hstep, hs', hp'⟩ := hs.step_runs? hp ha hback rfl
    exact .of_step ha hstep (hhead hs' hp' rfl hcur)

/-- A session that can expire can come to its end. -/
theorem Inv.closes_of_canExpire (hs : s.Inv) (hp : s.runs? k = some (id, ss))
    (hwaits : ss.session.Waits) (hidle : ss.session.idleCheck ≤ 1)
    (hexpire : ss.session.CanExpire) : Closes o id s := by
  obtain ⟨t, fr, ht, hk, hsees, hseem, hfr, rfl, hentry⟩ := hs.runs?_eq_some_iff.1 hp
  have hsession : s.server.sessionOf fr.sessionId = some ss.session := by
    rw [ServerMaster.sessionOf, hentry]
    rfl
  obtain ⟨session, hends, hcur⟩ := hexpire.byEnds (o := o) hidle
  obtain ⟨hpc, hq⟩ := hends.frame
  obtain ⟨ks, sm, hks, hsm⟩ := ServerMaster.run_byEnds hsession
    (ServerSession.waits_not_done hwaits) hends
  have hok : (machine o).Guarded (Sound o) s (ks.map (.ends fr.sessionId)) :=
    EventMachine.guarded_of_forall_mem fun a ha s => by
      obtain ⟨k, -, rfl⟩ := List.mem_map.1 ha
      trivial
  have hrun := run_ends hks
  have hs' : Inv { s with server := sm } :=
    EventMachine.run_preserves (I := Inv) (fun _ _ _ _ hs ha h => (hs.step ha h).1) hs hok hrun
  obtain ⟨ss', hentry', rfl⟩ := Option.map_eq_some_iff.1 hsm
  have hp' : runs? { s with server := sm } k = some (fr.sessionId, ss') :=
    hs'.runs?_eq_some_iff.2 ⟨t, fr, ht, hk, hsees, hseem, hfr, rfl, hentry'⟩
  have henv : RunEnv := ⟨default, true, ⟨.success, 0⟩, fun _ => 0, .divert, false,
    ss.session.lastContent⟩
  obtain ⟨bs, s₂, ss₂, hok', hrun', hss₂, hclose⟩ := hs'.closes (o := o) hp'
    (by rw [hpc]; exact hwaits.1) (hq.trans hwaits.2.2) hcur henv
  exact ⟨_, s₂, ss₂, (EventMachine.guarded_append_iff hrun).2 ⟨hok, hok'⟩,
    EventMachine.run_append_iff.2 ⟨_, [], [], hrun, hrun', rfl⟩, hss₂, hclose⟩

/-- Without a further message an abandoned session stays as it is. -/
theorem Inv.stays (hs : s.Inv) (hss : s.server.ssMap id = some ss) (hwaits : ss.session.Waits)
    (habandoned : ss.session.Abandoned) {bs : List ThreadsAct}
    (hok : (machine o).Guarded (Sound o) s bs) (hrun : (machine o).run s bs = some (s', es))
    (hpushed : ∀ c, .master (.pushed id c) ∉ es) :
    ∃ ss', s'.server.ssMap id = some ss' ∧ ss'.session.Waits := by
  have hsession : s.server.sessionOf id = some ss.session := by
    rw [ServerMaster.sessionOf, hss]
    rfl
  obtain ⟨ms, _, hms, -, rfl⟩ := (simulates o).run ⟨hs, rfl⟩ hok hrun
  have hpushed' : ∀ c, .pushed id c ∉ es.filterMap ThreadsEvent.master? := by
    intro c hc
    obtain ⟨e, he, hlabel⟩ := List.mem_filterMap.1 hc
    cases e with
    | master e =>
      cases hlabel
      exact hpushed c he
    | start e => cases hlabel
  obtain ⟨_, hs', hwaits'⟩ :=
    ServerMaster.run_abandoned hsession hwaits habandoned hms hpushed'
  obtain ⟨ss', hss', rfl⟩ := Option.map_eq_some_iff.1 hs'
  exact ⟨ss', hss', hwaits'⟩

section Runs

variable {udpSock : ℤ} {localInterfaces : List CString} {fds : ℕ → ℤ}
  {stack : ℕ → SessionRunParms} {as : List (ThreadsAct × List ThreadsEvent)}
  {t : Option ServerThreads}

/-- In every state that the process reaches, as long as each session has its thread, a session that
waits in IDLE can come to the end of `run` without a further message exactly when one of its end
threads can expire; otherwise it waits in the table, whatever the process does, until a message is
given to it. -/
theorem close_possible_iff
    (hok : (machine o).Guarded (Sound o) (start (.start udpSock localInterfaces fds) stack)
      (as.map Prod.fst))
    (hrun : (process o).run (some (start (.start udpSock localInterfaces fds) stack)) as =
      some (t, es)) :
    ∃ s, t = some s ∧ ∀ k id ss, s.runs? k = some (id, ss) → ss.session.Waits →
      ((∃ bs s' es' ss', (machine o).Guarded (Sound o) s (bs.map Prod.fst) ∧
          (process o).run (some s) bs = some (some s', es') ∧
          (∀ c, .master (.pushed id c) ∉ es') ∧
          s'.server.ssMap id = some ss' ∧ ss'.session.runPc.isClose = true) ↔
        ss.session.CanExpire) ∧
      (¬ ss.session.CanExpire → ∀ bs t' es',
        (machine o).Guarded (Sound o) s (bs.map Prod.fst) →
        (process o).run (some s) bs = some (t', es') → (∀ c, .master (.pushed id c) ∉ es') →
        ∃ s' ss', t' = some s' ∧ s'.server.ssMap id = some ss' ∧ ss'.session.Waits) := by
  obtain ⟨s, rfl, hs, as', has⟩ := server_run hok hrun
  refine ⟨s, rfl, fun k id ss hp hwaits => ?_⟩
  obtain ⟨-, fr, -, -, -, -, -, rfl, hss⟩ := hs.runs?_eq_some_iff.1 hp
  have hsession : s.server.sessionOf fr.sessionId = some ss.session := by
    rw [ServerMaster.sessionOf, hss]
    rfl
  have hidle : ss.session.idleCheck ≤ 1 :=
    ServerMaster.sessionOf_invariant (fun _ _ _ => Nat.zero_le 1)
      (fun _ _ _ _ hs h => ServerSession.step_idleCheck_le h hs) has hsession
  have hstays : ¬ ss.session.CanExpire → ∀ bs t' es',
      (machine o).Guarded (Sound o) s (bs.map Prod.fst) →
      (process o).run (some s) bs = some (t', es') →
      (∀ c, .master (.pushed fr.sessionId c) ∉ es') →
      ∃ s' ss', t' = some s' ∧ s'.server.ssMap fr.sessionId = some ss' ∧ ss'.session.Waits := by
    intro hno bs t' es' hok' hrun' hpushed
    obtain ⟨s', rfl, -, hmachine⟩ := hs.run hok' hrun'
    have habandoned := (ServerSession.abandoned_iff hidle).2 hno
    obtain ⟨ss', hss', hwaits'⟩ := hs.stays hss hwaits habandoned hok' hmachine hpushed
    exact ⟨s', ss', rfl, hss', hwaits'⟩
  refine ⟨⟨?_, fun hexpire => ?_⟩, hstays⟩
  · rintro ⟨bs, s', es', ss', hok', hrun', hpushed, hss', hclose⟩
    by_contra hno
    obtain ⟨_, ss₂, heq, hss₂, hpc, -⟩ := hstays hno bs _ es' hok' hrun' hpushed
    cases heq
    cases hss'.symm.trans hss₂
    rw [RunPc.isClose_iff.1 hclose] at hpc
    simp at hpc
  · obtain ⟨bs, s', ss', hok', hrun', hss', hclose⟩ :=
      hs.closes_of_canExpire (o := o) hp hwaits hidle hexpire
    have hfst : (bs.map (·, ([] : List ThreadsEvent))).map Prod.fst = bs := by
      rw [List.map_map]
      exact List.map_id bs
    refine ⟨bs.map (·, []), s', [], ss', by rwa [hfst], ?_, by simp, hss', hclose⟩
    exact hs.process_run (by rwa [hfst]) (by rwa [hfst])

end Runs

/-- After the counter-offer the client sends a message that `set_state` rejects. -/
def rejecting : List ThreadsAct :=
  [.listen 4] ++ connects 0 5 7 ++ stepsOf 0 17 false ++
    [.iterate (ServerMaster.inputEnv [5] 0 (writePdu
      ((objectiveOf .negotiation valueA 5 0).toBits .little) .waitMsg 7 ⟨.success, 0⟩).2) 0] ++
    stepsOf 0 5 false

/-- The end thread of the counter-offer will return on the flag, and nobody ends the session. -/
theorem close_possible_iff_rejecting :
    ∃ s es ss, (process .little).run (some sample) (rejecting.map (·, [])) = some (some s, es) ∧
      s.runs? 0 = some (7, ss) ∧ ss.session.Waits ∧
      ¬ ∃ bs s' es' ss', (machine .little).Guarded (Sound .little) s (bs.map Prod.fst) ∧
        (process .little).run (some s) bs = some (some s', es') ∧
        (∀ c, .master (.pushed 7 c) ∉ es') ∧
        s'.server.ssMap 7 = some ss' ∧ ss'.session.runPc.isClose = true := by
  have hsound : (machine .little).Guarded (Sound .little) sample
      ((rejecting.map (·, ([] : List ThreadsEvent))).map Prod.fst) := by decide +kernel
  have hsample : ((process .little).run (some sample) (rejecting.map (·, []))).bind
      (fun r => r.1.bind fun s => (s.runs? 0).map fun p =>
        (p.1, p.2.session.runPc.isHead, p.2.session.curState, p.2.session.q.length,
          decide p.2.session.CanExpire)) =
      some (7, true, .idle, 0, false) := by decide +kernel
  simp only [Option.bind_eq_some_iff, Option.map_eq_some_iff, Prod.exists, Prod.mk.injEq,
    decide_eq_false_iff_not, List.length_eq_zero_iff] at hsample
  obtain ⟨t, es, hreach, s, rfl, id, ss, hp, rfl, hhead, hcur, hq, hno⟩ := hsample
  have hwaits : ss.session.Waits := ⟨.inl (RunPc.isHead_iff.1 hhead), hcur, hq⟩
  obtain ⟨_, hs, hiff⟩ := close_possible_iff hsound hreach
  cases hs
  exact ⟨s, es, ss, hreach, hp, hwaits, fun h => hno ((hiff 0 _ ss hp hwaits).1.1 h)⟩

end ServerThreads

end Gdnp
