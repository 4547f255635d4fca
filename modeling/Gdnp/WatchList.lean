import Gdnp.Server

/-!
# The end of a session in the tables of the server

`clear_when_session_end` walks `ss_map` and `tcp_fd_set` while it takes elements out of them.  It
increments the iterator that it has just invalidated with `erase`; what this gives is an input
(`eraseSession`).  And it decrements `tcp_accepted` in every iteration of the second loop, found
descriptor or not, so that half of the watch list is lost (`unwatch_length`).  It removes just what
it is told to exactly when the invalidated iterator happens to be one of the map, and the watch list
is empty, or has at most two descriptors of which one is to be removed (`clearsExactly_iff`).
-/

namespace Gdnp

/-- The loop of `clear_when_session_end` over `ss_map`, from the entry at `iter` on; `next` is where
the increment of an erased iterator leads, if to an iterator of the map.  The answer is `none` when
the loop goes on with any other pointer. -/
def eraseSession (sessionId : UInt32) (next : Option ℕ) (ssMap : List (UInt32 × SessionEntry))
    (iter : ℕ) : Option (List (UInt32 × SessionEntry)) :=
  if h : iter < ssMap.length then
    if ssMap[iter].1 = sessionId then
      match next with
      | none => none
      | some i =>
        if i ≤ ssMap.length - 1 then eraseSession sessionId next (ssMap.eraseIdx iter) i else none
    else eraseSession sessionId next ssMap (iter + 1)
  else some ssMap
termination_by (ssMap.length, ssMap.length - iter)
decreasing_by
  · simp only [List.length_eraseIdx_of_lt h]
    exact Prod.Lex.left _ _ (by omega)
  · exact Prod.Lex.right _ (by omega)

variable {sessionId : UInt32} {next : Option ℕ} {ssMap ssMap' : List (UInt32 × SessionEntry)}
  {iter : ℕ}

/-- The loop only takes entries out. -/
theorem eraseSession_sublist (h : eraseSession sessionId next ssMap iter = some ssMap') :
    ssMap'.Sublist ssMap := by
  fun_induction eraseSession sessionId next ssMap iter with
  | case1 ssMap iter hlt hid => cases h
  | case2 ssMap iter hlt hid i hnext hi ih =>
    subst hnext
    exact (ih h).trans (List.eraseIdx_sublist ..)
  | case3 ssMap iter hlt hid i hnext hi => cases h
  | case4 ssMap iter hlt hid ih => exact ih h
  | case5 ssMap iter hlt =>
    cases h
    exact List.Sublist.refl _

/-- A loop that meets no entry of the session ends with the same map. -/
theorem eraseSession_of_absent (h : ∀ e ∈ ssMap, e.1 ≠ sessionId) :
    eraseSession sessionId next ssMap iter = some ssMap := by
  fun_induction eraseSession sessionId next ssMap iter with
  | case1 ssMap iter hlt hid => exact absurd hid (h _ (List.getElem_mem hlt))
  | case2 ssMap iter hlt hid => exact absurd hid (h _ (List.getElem_mem hlt))
  | case3 ssMap iter hlt hid => exact absurd hid (h _ (List.getElem_mem hlt))
  | case4 ssMap iter hlt hid ih => exact ih h
  | case5 => rfl

/-- The keys of a map tell its entries apart. -/
theorem eraseIdx_eq_filter {k : ℕ} (hk : k < ssMap.length) (hid : ssMap[k].1 = sessionId)
    (hkeys : (ssMap.map Prod.fst).Pairwise (· < ·)) :
    ssMap.eraseIdx k = ssMap.filter (·.1 ≠ sessionId) := by
  induction ssMap generalizing k with
  | nil => cases hk
  | cons e ssMap ih =>
    rw [List.map_cons, List.pairwise_cons] at hkeys
    cases k with
    | zero =>
      obtain rfl : e.1 = sessionId := hid
      rw [List.eraseIdx_cons_zero, List.filter_cons_of_neg (by simp), eq_comm,
        List.filter_eq_self]
      intro e' he'
      have hlt := hkeys.1 e'.1 (List.mem_map_of_mem he')
      exact decide_eq_true (UInt32.ne_of_lt hlt).symm
    | succ k =>
      rw [List.getElem_cons_succ] at hid
      have hlt : e.1 < sessionId := by
        rw [← hid]
        exact hkeys.1 _ (List.mem_map_of_mem (List.getElem_mem _))
      rw [List.eraseIdx_cons_succ, List.filter_cons_of_pos (by simpa using UInt32.ne_of_lt hlt),
        ih (Nat.lt_of_succ_lt_succ hk) hid hkeys.2]

/-- A loop that meets the entry of the session goes on from what the increment of its iterator
gives. -/
theorem eraseSession_of_present {k : ℕ} (hk : k < ssMap.length) (hid : ssMap[k].1 = sessionId)
    (hkeys : (ssMap.map Prod.fst).Pairwise (· < ·)) (hiter : iter ≤ k) :
    eraseSession sessionId next ssMap iter =
      (next.filter (· < ssMap.length)).map fun _ => ssMap.filter (·.1 ≠ sessionId) := by
  induction h : k - iter generalizing iter with
  | zero =>
    obtain rfl : iter = k := by omega
    unfold eraseSession
    rw [dif_pos hk, if_pos hid]
    cases next with
    | none => rfl
    | some i =>
      have habsent : ∀ e ∈ ssMap.filter (·.1 ≠ sessionId), e.1 ≠ sessionId := fun e he =>
        of_decide_eq_true (List.mem_filter.1 he).2
      by_cases hi : i < ssMap.length
      · rw [eraseIdx_eq_filter hk hid hkeys]
        simp only [Option.filter_some, decide_eq_true hi, if_true, Option.map_some]
        rw [if_pos (by omega), eraseSession_of_absent habsent]
      · simp only [Option.filter_some, decide_eq_false hi]
        rw [if_neg (by omega)]
        rfl
  | succ n ih =>
    have hlt := List.pairwise_iff_getElem.1 hkeys iter k (by simp; omega) (by simpa) (by omega)
    rw [List.getElem_map, List.getElem_map, hid] at hlt
    unfold eraseSession
    rw [dif_pos (by omega), if_neg (UInt32.ne_of_lt hlt)]
    exact ih (by omega) (by omega)

/-- The loop ends, with all other entries, exactly when the map has no entry of the session or the
increment of its erased iterator gives an iterator. -/
theorem eraseSession_eq_some_iff (hkeys : (ssMap.map Prod.fst).Pairwise (· < ·)) :
    eraseSession sessionId next ssMap 0 = some ssMap' ↔
      ssMap' = ssMap.filter (·.1 ≠ sessionId) ∧
        (sessionId ∈ ssMap.map Prod.fst → ∃ i ∈ next, i < ssMap.length) := by
  by_cases hmem : sessionId ∈ ssMap.map Prod.fst
  · obtain ⟨e, he, hid⟩ := List.mem_map.1 hmem
    obtain ⟨k, hk, rfl⟩ := List.getElem_of_mem he
    rw [eraseSession_of_present hk hid hkeys (Nat.zero_le k)]
    simp only [Option.map_eq_some_iff, Option.filter_eq_some_iff, decide_eq_true_eq, hmem,
      forall_const]
    constructor
    · rintro ⟨i, ⟨hi, hlt⟩, rfl⟩
      exact ⟨rfl, i, hi, hlt⟩
    · rintro ⟨rfl, i, hi, hlt⟩
      exact ⟨i, ⟨hi, hlt⟩, rfl⟩
  · have habsent : ∀ e ∈ ssMap, e.1 ≠ sessionId := fun e he hid =>
      hmem (List.mem_map.2 ⟨e, he, hid⟩)
    have hfilter : ssMap.filter (·.1 ≠ sessionId) = ssMap :=
      List.filter_eq_self.2 fun e he => decide_eq_true (habsent e he)
    rw [eraseSession_of_absent habsent, hfilter, Option.some.injEq, eq_comm]
    exact ⟨fun h => ⟨h, fun h' => absurd h' hmem⟩, And.left⟩

/-! ### The tables of the server -/

/-- What `clear_when_session_end` changes: `ss_map`, in the order of its keys, and the watch
list. -/
structure Registry where
  ssMap : List (UInt32 × SessionEntry)
  sorted : (ssMap.map Prod.fst).Pairwise (· < ·)
  tcpFdSet : ℕ → ℤ
  tcpAccepted : ℕ

namespace Registry

/-- The descriptors in `tcp_fd_set[0..tcp_accepted)`. -/
def watchList (r : Registry) : List ℤ := (List.range r.tcpAccepted).map r.tcpFdSet

/-- `clear_when_session_end`; `next` is where the increment of an erased iterator leads. -/
def clear (r : Registry) (next : Option ℕ) (sessionId : UInt32) (tcpSock : ℤ) : Option Registry :=
  (eraseSession sessionId next r.ssMap 0).pmap
    (fun ssMap h => ⟨ssMap, h, (unwatch tcpSock 0 r.tcpFdSet r.tcpAccepted).1,
      (unwatch tcpSock 0 r.tcpFdSet r.tcpAccepted).2⟩)
    fun _ h => r.sorted.sublist ((eraseSession_sublist h).map Prod.fst)

/-- The session and the descriptor are gone, and everything else is as before. -/
structure Cleared (r : Registry) (sessionId : UInt32) (tcpSock : ℤ) (r' : Registry) : Prop where
  ssMap : r'.ssMap = r.ssMap.filter (·.1 ≠ sessionId)
  watchList : r'.watchList = r.watchList.filter (· ≠ tcpSock)
  tcpAccepted : r'.tcpAccepted =
    if tcpSock ∈ r.watchList then r.tcpAccepted - 1 else r.tcpAccepted

variable {r r' : Registry} {tcpSock : ℤ} {sm : ServerMaster}

theorem clear_eq_some_iff :
    r.clear next sessionId tcpSock = some r' ↔
      (r'.ssMap = r.ssMap.filter (·.1 ≠ sessionId) ∧
        (sessionId ∈ r.ssMap.map Prod.fst → ∃ i ∈ next, i < r.ssMap.length)) ∧
      (r'.tcpFdSet, r'.tcpAccepted) = unwatch tcpSock 0 r.tcpFdSet r.tcpAccepted := by
  rw [clear, Option.pmap_eq_some_iff, ← eraseSession_eq_some_iff r.sorted]
  constructor
  · rintro ⟨ssMap, h, hssMap, rfl⟩
    exact ⟨hssMap, rfl⟩
  · rintro ⟨hssMap, hwatch⟩
    refine ⟨r'.ssMap, r'.sorted, hssMap, ?_⟩
    rw [← hwatch]

theorem exists_clear
    (hnext : sessionId ∈ r.ssMap.map Prod.fst → ∃ i ∈ next, i < r.ssMap.length) :
    ∃ r', r.clear next sessionId tcpSock = some r' := by
  let watch := unwatch tcpSock 0 r.tcpFdSet r.tcpAccepted
  let r' : Registry := ⟨r.ssMap.filter (·.1 ≠ sessionId),
    r.sorted.sublist (List.filter_sublist.map Prod.fst), watch.1, watch.2⟩
  exact ⟨r', clear_eq_some_iff.2 ⟨⟨rfl, hnext⟩, rfl⟩⟩

/-! ### The watch list -/

/-- Every iteration takes one off `tcp_accepted`, so the loop stops halfway. -/
theorem unwatch_length (tcpSock : ℤ) (i : ℕ) (fds : ℕ → ℤ) (n : ℕ) :
    (unwatch tcpSock i fds n).2 = n - (n - i + 1) / 2 := by
  induction n generalizing i fds with
  | zero =>
    rw [unwatch]
    omega
  | succ n ih =>
    rw [unwatch]
    by_cases hi : i < n + 1
    · rw [if_pos hi, ih]
      omega
    · rw [if_neg hi]
      show n + 1 = _
      omega

/-- The watch list loses just the descriptor. -/
def Unwatched (r : Registry) (tcpSock : ℤ) (fds : ℕ → ℤ) (n : ℕ) : Prop :=
  (List.range n).map fds = r.watchList.filter (· ≠ tcpSock) ∧
    n = if tcpSock ∈ r.watchList then r.tcpAccepted - 1 else r.tcpAccepted

theorem unwatched_iff (hdistinct : r.watchList.Nodup) (tcpSock : ℤ) :
    r.Unwatched tcpSock (unwatch tcpSock 0 r.tcpFdSet r.tcpAccepted).1
        (unwatch tcpSock 0 r.tcpFdSet r.tcpAccepted).2 ↔
      r.tcpAccepted = 0 ∨ (r.tcpAccepted ≤ 2 ∧ tcpSock ∈ r.watchList) := by
  obtain ⟨ssMap, sorted, fds, n⟩ := r
  unfold Unwatched watchList at *
  dsimp only at *
  constructor
  · rintro ⟨-, hlen⟩
    rw [unwatch_length] at hlen
    split_ifs at hlen with hmem
    · right
      exact ⟨by omega, hmem⟩
    · left
      omega
  · rintro (rfl | ⟨hle, hmem⟩)
    · simp [unwatch]
    · interval_cases n
      · simp at hmem
      · obtain rfl : tcpSock = fds 0 := by simpa using hmem
        simp [unwatch]
      · have hne : fds 0 ≠ fds 1 := by simpa [List.range_succ] using hdistinct
        obtain rfl | rfl : tcpSock = fds 0 ∨ tcpSock = fds 1 := by
          simpa [List.range_succ] using hmem
        · simp [unwatch, List.range_succ, hne.symm]
        · simp [unwatch, List.range_succ, hne]

/-! ### What is cleared -/

/-- `clear_when_session_end` removes just the session and the descriptor exactly when the increment
of the erased iterator, if there is one, gives an iterator of the map, and the watch list is empty,
or has at most two descriptors and the one to remove is among them. -/
theorem clearsExactly_iff (r : Registry) (next : Option ℕ) (sessionId : UInt32) (tcpSock : ℤ)
    (hdistinct : r.watchList.Nodup) :
    (∃ r', r.clear next sessionId tcpSock = some r' ∧ r.Cleared sessionId tcpSock r') ↔
      (sessionId ∈ r.ssMap.map Prod.fst → ∃ i ∈ next, i < r.ssMap.length) ∧
        (r.tcpAccepted = 0 ∨ (r.tcpAccepted ≤ 2 ∧ tcpSock ∈ r.watchList)) := by
  rw [← unwatched_iff hdistinct]
  constructor
  · rintro ⟨r', hclear, hcleared⟩
    obtain ⟨⟨-, hnext⟩, hwatch⟩ := clear_eq_some_iff.1 hclear
    rw [← hwatch]
    exact ⟨hnext, hcleared.watchList, hcleared.tcpAccepted⟩
  · rintro ⟨hnext, hlist, haccepted⟩
    obtain ⟨r', hclear⟩ := exists_clear hnext
    obtain ⟨⟨hssMap, -⟩, hwatch⟩ := clear_eq_some_iff.1 hclear
    rw [← hwatch] at hlist haccepted
    exact ⟨r', hclear, hssMap, hlist, haccepted⟩

/-- A new session with its socket. -/
def entry (sessionId : UInt32) (tcpSock : ℤ) : UInt32 × SessionEntry :=
  (sessionId, ⟨tcpSock, .new sessionId ⟨.requestMsg, CMem.CharArray.zero _⟩
    ⟨.requestMsg, CMem.CharArray.zero _⟩⟩)

/-- Three sessions on the descriptors 5, 6 and 7, of which the first ends. -/
theorem not_clearsExactly :
    ¬ ∀ (r : Registry) (next : Option ℕ) (sessionId : UInt32) (tcpSock : ℤ), r.watchList.Nodup →
      ∃ r', r.clear next sessionId tcpSock = some r' ∧ r.Cleared sessionId tcpSock r' := by
  intro h
  let r : Registry := ⟨[entry 7 5, entry 8 6, entry 9 7], by decide, fun k => 5 + k, 3⟩
  have hdistinct : r.watchList.Nodup := by decide
  obtain ⟨r', hclear, hcleared⟩ := h r (some 0) 7 5 hdistinct
  obtain ⟨-, hwatch⟩ := clear_eq_some_iff.1 hclear
  have haccepted : r'.tcpAccepted = 1 := congrArg Prod.snd hwatch
  have hremoved : r'.tcpAccepted = 2 := hcleared.tcpAccepted
  omega

/-- Two sessions, of which the first ends; its iterator leads on to the other. -/
theorem clearsExactly_two :
    ∃ r', Registry.clear ⟨[entry 7 5, entry 8 6], by decide, fun k => 5 + k, 2⟩ (some 0) 7 5 =
      some r' ∧ Registry.Cleared ⟨[entry 7 5, entry 8 6], by decide, fun k => 5 + k, 2⟩ 7 5 r' :=
  (clearsExactly_iff _ _ _ _ (by decide)).2 (by decide)

/-! ### The server -/

/-- The tables are those of the server. -/
structure Represents (r : Registry) (sm : ServerMaster) : Prop where
  ssMap : ∀ id, sm.ssMap id = (r.ssMap.find? (·.1 = id)).map Prod.snd
  tcpFdSet : sm.tcpFdSet = r.tcpFdSet
  tcpAccepted : sm.tcpAccepted = r.tcpAccepted

/-- The tables of a server whose sessions have the given ids. -/
theorem exists_represents {ids : List UInt32} (hids : ids.Nodup)
    (hmem : ∀ id, id ∈ ids ↔ sm.ssMap id ≠ none) :
    ∃ r : Registry, r.Represents sm ∧ r.ssMap.length = ids.length := by
  let le : UInt32 → UInt32 → Bool := fun a b => decide (a ≤ b)
  have hperm : (ids.mergeSort le).Perm ids := List.mergeSort_perm ids le
  have hle : (ids.mergeSort le).Pairwise fun a b => le a b = true :=
    List.pairwise_mergeSort (by simpa [le] using fun a b c => UInt32.le_trans)
      (by simpa [le] using UInt32.le_total) ids
  have hsorted : (ids.mergeSort le).Pairwise (· < ·) :=
    (hle.and (hperm.nodup_iff.2 hids)).imp fun h =>
      UInt32.lt_of_le_of_ne (by simpa [le] using h.1) h.2
  let f : UInt32 → Option (UInt32 × SessionEntry) := fun id => (sm.ssMap id).map (id, ·)
  have hsome : ∀ id ∈ ids.mergeSort le, (f id).map Prod.fst = some id := by
    intro id hid
    obtain ⟨ss, hss⟩ := Option.ne_none_iff_exists'.1 ((hmem id).1 (hperm.mem_iff.1 hid))
    simp [f, hss]
  have hfst : ((ids.mergeSort le).filterMap f).map Prod.fst = ids.mergeSort le := by
    rw [List.map_filterMap, List.filterMap_congr hsome, List.filterMap_some]
  have hentry : ∀ id ss, (id, ss) ∈ (ids.mergeSort le).filterMap f ↔ sm.ssMap id = some ss := by
    intro id ss
    simp only [List.mem_filterMap, hperm.mem_iff, f, Option.map_eq_some_iff, Prod.mk.injEq]
    constructor
    · rintro ⟨_, -, _, hss, rfl, rfl⟩
      exact hss
    · intro hss
      exact ⟨id, (hmem id).2 (by simp [hss]), ss, hss, rfl, rfl⟩
  refine ⟨⟨(ids.mergeSort le).filterMap f, by rw [hfst]; exact hsorted, sm.tcpFdSet,
    sm.tcpAccepted⟩, ⟨fun id => ?_, rfl, rfl⟩, ?_⟩
  · cases hfind : ((ids.mergeSort le).filterMap f).find? (·.1 = id) with
    | none =>
      rw [List.find?_eq_none] at hfind
      by_contra hne
      obtain ⟨ss, hss⟩ := Option.ne_none_iff_exists'.1 hne
      exact hfind (id, ss) ((hentry id ss).2 hss) (decide_eq_true rfl)
    | some e =>
      obtain rfl : e.1 = id := by simpa using List.find?_some hfind
      exact (hentry e.1 e.2).1 (List.mem_of_find?_eq_some hfind)
  · rw [← hperm.length_eq, ← congrArg List.length hfst, List.length_map]

/-- Where `clear_when_session_end` comes to an end, the server has cleared the session. -/
theorem clear_represents (h : r.Represents sm) (hclear : r.clear next sessionId tcpSock = some r') :
    r'.Represents (sm.clearWhenSessionEnd sessionId tcpSock) := by
  obtain ⟨⟨hssMap, -⟩, hwatch⟩ := clear_eq_some_iff.1 hclear
  have hrun : unwatch tcpSock 0 sm.tcpFdSet sm.tcpAccepted = (r'.tcpFdSet, r'.tcpAccepted) := by
    rw [hwatch, h.tcpFdSet, h.tcpAccepted]
  refine ⟨fun id => ?_, congrArg Prod.fst hrun, congrArg Prod.snd hrun⟩
  show Function.update sm.ssMap sessionId none id = _
  rw [hssMap, List.find?_filter]
  by_cases hid : id = sessionId
  · subst hid
    rw [Function.update_self, eq_comm, Option.map_eq_none_iff, List.find?_eq_none]
    simp
  · rw [Function.update_of_ne hid, h.ssMap]
    congr 2
    funext e
    have hkeep : e.1 = id → e.1 ≠ sessionId := fun he => he ▸ hid
    simpa using hkeep

end Registry

end Gdnp
