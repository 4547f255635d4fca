import Gdnp.Content

/-!
# The array accesses of the server's receive path

A PDU goes from the received `msg` through the buffer of `ServerMaster::run` into the data of a
`content`, and from there into the session's `last_content`.  Every copy on the way has its own
notion of the payload's size.  Here each function is given with the array positions it touches.

`decode` stays inside its arrays.  `distribute` copies the number of bytes `decode` reports and
always goes one past the end (`sessionAccesses_lt_iff`).  The filter stays inside exactly when the
payload has a zero byte (`filterAccesses_lt_iff`).
-/

open CMem

namespace Gdnp

/-- The arrays on the way of a PDU to the session thread. -/
inductive Region where
  | msgData
  | buffer
  | contentData
  | lastData
  deriving DecidableEq

/-- One position of an array that is read or written. -/
structure Access where
  region : Region
  index : ℕ

/-- The accesses of a function that walks through the first `n` positions of some arrays. -/
def touch (regions : List Region) (n : ℕ) : List Access :=
  (List.range n).flatMap fun i => regions.map (⟨·, i⟩)

theorem touch_lt_iff {regions : List Region} (h : regions ≠ []) (n k : ℕ) :
    (∀ a ∈ touch regions n, a.index < k) ↔ n ≤ k := by
  obtain ⟨r, rs, rfl⟩ := List.exists_cons_of_ne_nil h
  simp only [touch, List.mem_flatMap, List.mem_range, List.mem_map]
  constructor
  · intro hlt
    by_contra hn
    exact absurd (hlt ⟨r, k⟩ ⟨k, by omega, r, by simp, rfl⟩) (lt_irrefl k)
  · rintro hn a ⟨i, hi, r', -, rfl⟩
    exact lt_of_lt_of_le hi hn

/-- `read_pdu` on a PDU that has arrived: it clears the buffer, and `decode` fills it. -/
def readPduAccesses (msg : Msg) : List Access :=
  touch [.buffer] maxStringLength ++
    match decode (some msg) with
    | .error _ => []
    | .ok _ => touch [.msgData, .buffer] maxStringLength

/-- The `memcpy` of `ServerMaster::distribute`. -/
def distributeAccesses (bufferSize : ℕ) : List Access := touch [.buffer, .contentData] bufferSize

/-- `operator==` and, unless the message is skipped, `operator=` in `ServerSession::run`. -/
def filterAccesses (last c : Content) : List Access :=
  (if c.type = last.type then
      touch [.contentData, .lastData] (strcmpReads c.data.bytes last.data.bytes)
    else []) ++
    if c.eq last = some false then touch [.contentData, .lastData] (strcpyAccesses c.data.bytes)
    else []

/-- The accesses for the PDUs of one session, one after the other.  After a filter that ran past
an array `last_content` is taken to be unchanged. -/
def sessionAccesses (last : Content) : List Msg → List Access
  | [] => []
  | msg :: msgs => readPduAccesses msg ++
      match decode (some msg) with
      | .error _ => sessionAccesses last msgs
      | .ok d => distributeAccesses d.dataSize ++ filterAccesses last ⟨d.type, d.data⟩ ++
          sessionAccesses ((filter last ⟨d.type, d.data⟩).elim last Prod.snd) msgs

theorem readPduAccesses_lt (msg : Msg) : ∀ a ∈ readPduAccesses msg, a.index < maxStringLength := by
  unfold readPduAccesses
  rw [List.forall_mem_append, touch_lt_iff (by simp)]
  refine ⟨le_rfl, ?_⟩
  cases decode (some msg) with
  | error e => simp
  | ok d => exact (touch_lt_iff (by simp) _ _).2 le_rfl

/-- The filter stays inside its arrays exactly when the message has a zero byte. -/
theorem filterAccesses_lt_iff (last c : Content) :
    (∀ a ∈ filterAccesses last c, a.index < maxStringLength) ↔ c.Terminated := by
  have hlen : c.data.bytes.length = last.data.bytes.length := by
    rw [c.data.length_eq, last.data.length_eq]
  have hcopy := strcpyAccesses_le_iff c.data.bytes
  have hcmp := strcmpReads_le_iff hlen
  rw [c.data.length_eq] at hcopy hcmp
  rw [filterAccesses, List.forall_mem_append]
  constructor
  · rintro ⟨hread, hwrite⟩
    by_contra hn
    -- Without a zero byte `operator==` cannot answer "equal", so `strcpy` is reached or
    -- `strcmp` has already run past the end.
    rcases heq : c.eq last with _ | b
    · unfold Content.eq at heq
      split_ifs at heq with ht
      rw [if_pos ht, touch_lt_iff (by simp), hcmp] at hread
      exact hread (Option.map_eq_none_iff.1 heq)
    · cases b
      · rw [if_pos heq, touch_lt_iff (by simp), hcopy] at hwrite
        exact hn hwrite
      · have hnone : filter last c = none := filter_of_not_terminated hn
        rw [filter, heq] at hnone
        cases hnone
  · intro hc
    constructor
    · split_ifs
      · rw [touch_lt_iff (by simp), hcmp, Ne, strcmp_eq_none_iff hlen]
        exact fun hn => hn.2 hc
      · simp
    · split_ifs
      · exact (touch_lt_iff (by simp) _ _).2 (hcopy.2 hc)
      · simp

/-- The receive path stays inside its arrays only as long as `decode` accepts no PDU. -/
theorem sessionAccesses_lt_iff (last : Content) (msgs : List Msg) :
    (∀ a ∈ sessionAccesses last msgs, a.index < maxStringLength) ↔
      ∀ msg ∈ msgs, ¬ HeaderTyped msg := by
  induction msgs generalizing last with
  | nil => simp [sessionAccesses]
  | cons msg msgs ih =>
    rw [sessionAccesses, List.forall_mem_append, List.forall_mem_cons, ← decode_isOk_iff]
    rcases h : decode (some msg) with e | d
    · simp only [ih, reduceCtorEq, exists_false, not_false_eq_true, true_and, and_iff_right_iff_imp]
      exact fun _ => readPduAccesses_lt msg
    · simp only [List.forall_mem_append]
      refine iff_of_false ?_ (fun hn => hn.1 ⟨d, rfl⟩)
      rintro ⟨-, ⟨hcopy, -⟩, -⟩
      rw [distributeAccesses, touch_lt_iff (by simp), (decode_eq_ok_iff.1 h).2.2.2] at hcopy
      omega

/-- A REQUEST_MSG with no data is enough to leave the arrays. -/
theorem sessionAccesses_request_not_lt :
    ¬ ∀ a ∈ sessionAccesses ⟨.waitMsg, CharArray.zero _⟩ [⟨0x03000000, 0, CharArray.zero _⟩],
      a.index < maxStringLength := by
  intro h
  refine absurd (h ⟨.contentData, 1000⟩ ?_) (by decide)
  refine List.mem_append_right _ (List.mem_append_left _ (List.mem_append_left _ ?_))
  exact List.mem_flatMap.2 ⟨1000, List.mem_range.2 (by decide), by simp⟩

end Gdnp
