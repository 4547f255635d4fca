import Mathlib.Tactic
import Mathlib.Data.List.TakeWhile

/-!
# C arrays, pointers and strings

A `char` array of fixed size is a `CharArray`.  What a pointer shows is a `Mem`: the byte at every
offset, with no size attached.  The functions of `string.h` are given with the positions they
touch, so that what they compute and whether they stay inside their arrays are separate questions:
`strcmp` and `strcpy` answer `none` when they run past the end of an array.
-/

namespace CMem

/-- Memory seen through a pointer: the byte at each offset. -/
abbrev Mem := ℕ → UInt8

/-- The `n` bytes a pointer shows from offset `i` on. -/
def Mem.read (m : Mem) (i n : ℕ) : List UInt8 := (List.range n).map fun k => m (i + k)

@[simp] theorem Mem.length_read (m : Mem) (i n : ℕ) : (m.read i n).length = n := by
  simp [Mem.read]

theorem Mem.getElem_read (m : Mem) (i n k : ℕ) (h : k < (m.read i n).length) :
    (m.read i n)[k] = m (i + k) := by
  simp [Mem.read]

theorem Mem.read_congr {p q : Mem} {i n : ℕ} (h : ∀ k, i ≤ k → k < i + n → p k = q k) :
    p.read i n = q.read i n := by
  apply List.map_congr_left
  intro k hk
  rw [List.mem_range] at hk
  exact h (i + k) (by omega) (by omega)

/-- The memory from the start of a block on, with `after` behind its end. -/
def memOf (l : List UInt8) (after : Mem) : Mem := fun i => (l[i]?).getD (after (i - l.length))

theorem memOf_of_lt (l : List UInt8) (after : Mem) {i : ℕ} (h : i < l.length) :
    memOf l after i = l[i] := by
  simp [memOf, h]

/-- Reading inside a block does not see what lies behind it. -/
theorem read_memOf (l : List UInt8) (after : Mem) {i k : ℕ} (h : i + k ≤ l.length) :
    (memOf l after).read i k = (l.drop i).take k := by
  apply List.ext_getElem
  · simp only [Mem.length_read, List.length_take, List.length_drop]
    omega
  · intro j hj _
    rw [Mem.length_read] at hj
    rw [Mem.getElem_read, memOf_of_lt l after (by omega)]
    simp

theorem read_memOf_length (l : List UInt8) (after : Mem) : (memOf l after).read 0 l.length = l := by
  rw [read_memOf l after (by omega), List.drop_zero, List.take_length]

/-- A `char` array of `n` bytes. -/
structure CharArray (n : ℕ) where
  bytes : List UInt8
  length_eq : bytes.length = n
  deriving DecidableEq

namespace CharArray

variable {n : ℕ}

@[ext] theorem ext {a b : CharArray n} (h : a.bytes = b.bytes) : a = b := by
  cases a; cases b; simp_all

/-- The array `memset` leaves when it clears all bytes. -/
def zero (n : ℕ) : CharArray n := ⟨List.replicate n 0, List.length_replicate⟩

/-- The array `memcpy` leaves when it copies `src` to the start; bytes past the end of the array
do not belong to it. -/
def memcpy (a : CharArray n) (src : List UInt8) : CharArray n :=
  ⟨(src ++ a.bytes.drop src.length).take n, by
    rw [List.length_take, List.length_append, List.length_drop, a.length_eq]; omega⟩

/-- The memory from the start of the array on, with `after` behind its end. -/
def mem (a : CharArray n) (after : Mem) : Mem := memOf a.bytes after

theorem read_mem (a : CharArray n) (after : Mem) {i k : ℕ} (h : i + k ≤ n) :
    (a.mem after).read i k = (a.bytes.drop i).take k :=
  read_memOf _ _ (by rw [a.length_eq]; exact h)

theorem memcpy_bytes (a : CharArray n) (src : List UInt8) :
    (a.memcpy src).bytes = src.take n ++ a.bytes.drop src.length := by
  have hlen := a.length_eq
  show (src ++ _).take n = _
  rw [List.take_append, List.take_of_length_le (l := a.bytes.drop _)]
  rw [List.length_drop]
  omega

theorem memcpy_bytes_of_le (a : CharArray n) {src : List UInt8} (h : src.length ≤ n) :
    (a.memcpy src).bytes = src ++ a.bytes.drop src.length := by
  rw [memcpy_bytes, List.take_of_length_le h]

/-- In front the array shows what was copied there. -/
theorem mem_memcpy_of_lt (a : CharArray n) (src : List UInt8) (p q : Mem) {i : ℕ}
    (hi : i < src.length) (hn : i < n) : (a.memcpy src).mem p i = memOf src q i := by
  have hb : i < (a.memcpy src).bytes.length := by rw [(a.memcpy src).length_eq]; exact hn
  rw [mem, memOf_of_lt _ _ hb, memOf_of_lt _ _ hi]
  simp [memcpy, hi]

theorem read_memcpy (a : CharArray n) (src : List UInt8) (p q : Mem) {i k : ℕ}
    (hi : i + k ≤ src.length) (hn : i + k ≤ n) :
    ((a.memcpy src).mem p).read i k = (memOf src q).read i k :=
  Mem.read_congr fun _ _ hj => a.mem_memcpy_of_lt src p q (by omega) (by omega)

/-- After `memset` and `memcpy` the array holds the source followed by zeros. -/
theorem zero_memcpy_bytes {src : List UInt8} (h : src.length ≤ n) :
    ((zero n).memcpy src).bytes = src ++ List.replicate (n - src.length) 0 := by
  rw [memcpy_bytes_of_le _ h, zero, List.drop_replicate]

theorem getElem?_memcpy_of_lt (a : CharArray n) (src : List UInt8) {i : ℕ} (hi : i < src.length)
    (hn : i < n) : (a.memcpy src).bytes[i]? = src[i]? := by
  rw [memcpy, List.getElem?_take_of_lt hn, List.getElem?_append_left hi]

/-- Behind what was copied the array is as before. -/
theorem getElem?_memcpy_of_le (a : CharArray n) (src : List UInt8) {i : ℕ} (hi : src.length ≤ i)
    (hn : i < n) : (a.memcpy src).bytes[i]? = a.bytes[i]? := by
  rw [memcpy, List.getElem?_take_of_lt hn, List.getElem?_append_right hi, List.getElem?_drop,
    Nat.add_sub_cancel' hi]

/-- The array that holds the byte `b` everywhere. -/
def filled (n : ℕ) (b : UInt8) : CharArray n := ⟨List.replicate n b, List.length_replicate⟩

theorem getElem?_filled {b : UInt8} {i : ℕ} (h : i < n) : (filled n b).bytes[i]? = some b := by
  simp [filled, h]

/-- Copying a whole array leaves nothing of the old one. -/
theorem memcpy_bytes_self (a b : CharArray n) : a.memcpy b.bytes = b := by
  apply ext
  rw [memcpy_bytes_of_le a b.length_eq.le,
    List.drop_eq_nil_of_le (by rw [a.length_eq, b.length_eq]), List.append_nil]

/-- Two arrays are alike after the same bytes were copied to them exactly when they were alike
behind these. -/
theorem memcpy_eq_memcpy_iff (a b : CharArray n) (src : List UInt8) :
    a.memcpy src = b.memcpy src ↔ a.bytes.drop src.length = b.bytes.drop src.length := by
  constructor
  · intro h
    have hbytes := congrArg bytes h
    rw [memcpy_bytes, memcpy_bytes] at hbytes
    exact List.append_cancel_left hbytes
  · intro h
    apply ext
    rw [memcpy_bytes, memcpy_bytes, h]

end CharArray

/-! ## C strings -/

/-- The C string at the start of a block: its bytes up to the first zero. -/
def cstr (l : List UInt8) : List UInt8 := l.takeWhile (· ≠ 0)

@[simp] theorem cstr_nil : cstr [] = [] := rfl

theorem cstr_cons (b : UInt8) (l : List UInt8) :
    cstr (b :: l) = if b = 0 then [] else b :: cstr l := by
  by_cases h : b = 0 <;> simp [cstr, h]

theorem cstr_length_lt_iff (l : List UInt8) : (cstr l).length < l.length ↔ 0 ∈ l := by
  induction l with
  | nil => simp
  | cons b l ih =>
    by_cases h : b = 0
    · simp [cstr_cons, h]
    · simp [cstr_cons, h, ih, eq_comm]

theorem cstr_append_zero {l : List UInt8} (h : 0 ∉ l) (r : List UInt8) :
    cstr (l ++ 0 :: r) = l := by
  induction l with
  | nil => simp [cstr]
  | cons b l ih =>
    rw [List.mem_cons, not_or] at h
    rw [List.cons_append, cstr_cons, if_neg (Ne.symm h.1), ih h.2]

/-- A block is its C string and zeros behind it exactly when only zeros follow a zero. -/
theorem cstr_append_replicate_iff (l : List UInt8) :
    cstr l ++ List.replicate (l.length - (cstr l).length) 0 = l ↔
      l.Pairwise fun a b => a = 0 → b = 0 := by
  induction l with
  | nil => simp
  | cons b l ih =>
    rw [cstr_cons, List.pairwise_cons]
    by_cases h : b = 0
    · rw [if_pos h, List.nil_append, List.length_nil, Nat.sub_zero, eq_comm, List.eq_replicate_iff]
      constructor
      · rintro ⟨-, hzeros⟩
        rw [List.forall_mem_cons] at hzeros
        exact ⟨fun a ha _ => hzeros.2 a ha,
          List.pairwise_of_forall_mem_list fun _ _ a ha _ => hzeros.2 a ha⟩
      · rintro ⟨hzeros, -⟩
        exact ⟨rfl, List.forall_mem_cons.2 ⟨h, fun a ha => hzeros a ha h⟩⟩
    · rw [if_neg h, List.cons_append, List.cons.injEq, eq_self_iff_true, true_and,
        List.length_cons, List.length_cons, Nat.add_sub_add_right, ih]
      exact (and_iff_right fun a _ h0 => absurd h0 h).symm

theorem CharArray.length_cstr_le {n : ℕ} (a : CharArray n) : (cstr a.bytes).length ≤ n :=
  (List.takeWhile_sublist _).length_le.trans a.length_eq.le

/-- Copying the C string of an array into a cleared one gives the same array exactly when only zeros
follow a zero. -/
theorem CharArray.zero_memcpy_cstr_iff {n : ℕ} (a : CharArray n) :
    (zero n).memcpy (cstr a.bytes) = a ↔ a.bytes.Pairwise fun a b => a = 0 → b = 0 := by
  rw [← cstr_append_replicate_iff, CharArray.ext_iff, zero_memcpy_bytes a.length_cstr_le,
    a.length_eq]

/-- A block padded with zeros has a zero if it had one or is shorter than the array. -/
theorem CharArray.mem_zero_memcpy_iff {n : ℕ} {src : List UInt8} (h : src.length ≤ n) :
    0 ∈ ((zero n).memcpy src).bytes ↔ 0 ∈ src ∨ src.length < n := by
  rw [zero_memcpy_bytes h, List.mem_append, List.mem_replicate, and_iff_left rfl]
  apply or_congr_right
  omega

theorem CharArray.pairwise_zero_memcpy_iff {n : ℕ} {src : List UInt8} (h : src.length ≤ n) :
    (((zero n).memcpy src).bytes.Pairwise fun a b => a = 0 → b = 0) ↔
      src.Pairwise fun a b => a = 0 → b = 0 := by
  have hzeros : (List.replicate (n - src.length) (0 : UInt8)).Pairwise fun a b => a = 0 → b = 0 :=
    List.pairwise_replicate.2 (.inr fun _ => rfl)
  rw [zero_memcpy_bytes h, List.pairwise_append]
  refine ⟨fun hpadded => hpadded.1, fun hsrc => ⟨hsrc, hzeros, fun a _ b hb _ => ?_⟩⟩
  exact (List.mem_replicate.1 hb).2

/-- The C string at the start of an array: `none` when it has no end there. -/
def CharArray.cstr? {n : ℕ} (a : CharArray n) : Option (List UInt8) :=
  if 0 ∈ a.bytes then some (cstr a.bytes) else none

theorem cstr_append {l : List UInt8} (h : 0 ∉ l) (r : List UInt8) : cstr (l ++ r) = l ++ cstr r :=
  List.takeWhile_append_of_pos fun _ hb => decide_eq_true fun h0 => h (h0 ▸ hb)

/-- A string copied without its terminator is found again exactly when a zero happens to be behind
it. -/
theorem CharArray.cstr?_memcpy_iff {n : ℕ} (a : CharArray n) {src : List UInt8} (h : 0 ∉ src) :
    (a.memcpy src).cstr? = some src ↔ a.bytes[src.length]? = some 0 := by
  unfold cstr?
  rw [memcpy_bytes]
  by_cases hlen : src.length < n
  · have hbytes : src.length < a.bytes.length := by rwa [a.length_eq]
    rw [List.take_of_length_le hlen.le, List.getElem?_eq_getElem hbytes,
      List.drop_eq_getElem_cons hbytes, cstr_append h, cstr_cons]
    generalize a.bytes[src.length] = b
    by_cases hb : b = 0
    · simp [hb]
    · simp [hb]
  · have hbytes : a.bytes.length ≤ src.length := by rwa [a.length_eq, ← not_lt]
    rw [List.drop_eq_nil_of_le hbytes, List.append_nil,
      if_neg fun h0 => h (List.mem_of_mem_take h0), List.getElem?_eq_none hbytes]
    simp

/-- A string without its terminator: no byte of it is zero. -/
structure CString where
  bytes : List UInt8
  zero_notMem : 0 ∉ bytes
  deriving DecidableEq

instance : Inhabited CString := ⟨[], List.not_mem_nil⟩

/-- `strcmp`: `none` when it runs past the end of an array. -/
def strcmp : List UInt8 → List UInt8 → Option Ordering
  | a :: as, b :: bs =>
    if a ≠ b then some (compare a b) else if a = 0 then some .eq else strcmp as bs
  | _, _ => none

/-- How many positions of its arguments `strcmp` reads. -/
def strcmpReads : List UInt8 → List UInt8 → ℕ
  | a :: as, b :: bs => if a ≠ b ∨ a = 0 then 1 else strcmpReads as bs + 1
  | _, _ => 1

/-- `strcpy` between arrays of one size: `none` when the source has no terminator. -/
def strcpy {n : ℕ} (dst src : CharArray n) : Option (CharArray n) :=
  if 0 ∈ src.bytes then some (dst.memcpy (cstr src.bytes ++ [0])) else none

/-- How many positions of its arguments `strcpy` reads and writes. -/
def strcpyAccesses (src : List UInt8) : ℕ := (cstr src).length + 1

theorem strcmp_eq_iff (as bs : List UInt8) :
    strcmp as bs = some .eq ↔ 0 ∈ as ∧ 0 ∈ bs ∧ cstr as = cstr bs := by
  induction as generalizing bs with
  | nil => simp [strcmp]
  | cons a as ih =>
    cases bs with
    | nil => simp [strcmp]
    | cons b bs =>
      by_cases hab : a = b
      · subst hab
        by_cases h0 : a = 0
        · simp [strcmp, h0, cstr_cons]
        · simp [strcmp, h0, ih, cstr_cons, eq_comm (a := (0 : UInt8))]
      · have hc : compare a b ≠ .eq := fun h => hab (Std.LawfulEqCmp.eq_of_compare h)
        by_cases ha : a = 0 <;> by_cases hb : b = 0 <;>
          simp_all [strcmp, cstr_cons, eq_comm]

/-- Over arrays of one size `strcmp` runs past the end exactly when they are equal and have no
terminator. -/
theorem strcmp_eq_none_iff {as bs : List UInt8} (h : as.length = bs.length) :
    strcmp as bs = none ↔ as = bs ∧ 0 ∉ as := by
  induction as generalizing bs with
  | nil =>
    obtain rfl := List.length_eq_zero_iff.1 h.symm
    simp [strcmp]
  | cons a as ih =>
    cases bs with
    | nil => simp at h
    | cons b bs =>
      have hl : as.length = bs.length := by simpa using h
      by_cases hab : a = b
      · subst hab
        by_cases h0 : a = 0
        · simp [strcmp, h0]
        · simp [strcmp, h0, ih hl, eq_comm (a := (0 : UInt8))]
      · simp [strcmp, hab]

theorem strcmpReads_le_iff {as bs : List UInt8} (h : as.length = bs.length) :
    strcmpReads as bs ≤ as.length ↔ strcmp as bs ≠ none := by
  induction as generalizing bs with
  | nil => simp [strcmpReads, strcmp]
  | cons a as ih =>
    cases bs with
    | nil => simp at h
    | cons b bs =>
      have hl : as.length = bs.length := by simpa using h
      by_cases hab : a = b
      · by_cases h0 : a = 0
        · simp [strcmpReads, strcmp, hab, hab ▸ h0]
        · simpa [strcmpReads, strcmp, hab, hab ▸ h0] using ih hl
      · simp [strcmpReads, strcmp, hab]

theorem strcpyAccesses_le_iff (src : List UInt8) : strcpyAccesses src ≤ src.length ↔ 0 ∈ src := by
  rw [strcpyAccesses, Nat.succ_le_iff, cstr_length_lt_iff]

theorem zero_notMem_cstr (l : List UInt8) : 0 ∉ cstr l := fun hm => by
  simpa using List.mem_takeWhile_imp hm

/-- What `strcpy` leaves is terminated and holds the string it copied. -/
theorem cstr_strcpy {n : ℕ} {dst src out : CharArray n} (h : strcpy dst src = some out) :
    0 ∈ out.bytes ∧ cstr out.bytes = cstr src.bytes := by
  simp only [strcpy, Option.ite_none_right_eq_some, Option.some.injEq] at h
  obtain ⟨h0, rfl⟩ := h
  have hlen := (cstr_length_lt_iff src.bytes).2 h0
  rw [src.length_eq] at hlen
  rw [CharArray.memcpy_bytes_of_le _ (by simpa using hlen), List.append_assoc,
    List.singleton_append]
  exact ⟨by simp, cstr_append_zero (zero_notMem_cstr _) _⟩

/-! ## `strncpy` -/

/-- The `n` bytes `strncpy` writes: the source up to its first zero, then zeros. -/
def strncpy (src : Mem) : ℕ → List UInt8
  | 0 => []
  | n + 1 => if src 0 = 0 then List.replicate (n + 1) 0 else src 0 :: strncpy (src <| · + 1) n

/-- How many bytes of the source `strncpy` reads. -/
def strncpyReads (src : Mem) : ℕ → ℕ
  | 0 => 0
  | n + 1 => if src 0 = 0 then 1 else strncpyReads (src <| · + 1) n + 1

@[simp] theorem length_strncpy (src : Mem) (n : ℕ) : (strncpy src n).length = n := by
  induction n generalizing src with
  | zero => rfl
  | succ n ih => by_cases h : src 0 = 0 <;> simp [strncpy, h, ih]

/-- The first byte is copied whether or not it is zero. -/
theorem headD_strncpy (src : Mem) {n : ℕ} (h : n ≠ 0) (b : UInt8) :
    (strncpy src n).headD b = src 0 := by
  obtain ⟨n, rfl⟩ := Nat.exists_eq_succ_of_ne_zero h
  by_cases h0 : src 0 = 0
  · simp [strncpy, h0, List.replicate_succ]
  · simp [strncpy, h0]

theorem strncpyReads_le (src : Mem) (n : ℕ) : strncpyReads src n ≤ n := by
  induction n generalizing src with
  | zero => simp [strncpyReads]
  | succ n ih => by_cases h : src 0 = 0 <;> simp [strncpyReads, h, ih]

theorem Mem.read_succ (m : Mem) (n : ℕ) : m.read 0 (n + 1) = m 0 :: Mem.read (m <| · + 1) 0 n := by
  simp [Mem.read, List.range_succ_eq_map, Function.comp_def]

/-- `strncpy` copies its source faithfully exactly when only zeros follow a zero. -/
theorem strncpy_eq_read_iff (src : Mem) (n : ℕ) :
    strncpy src n = src.read 0 n ↔ (src.read 0 n).Pairwise fun a b => a = 0 → b = 0 := by
  induction n generalizing src with
  | zero => simp [strncpy, Mem.read]
  | succ n ih =>
    rw [Mem.read_succ, strncpy, List.pairwise_cons, ← ih]
    by_cases h : src 0 = 0
    · rw [if_pos h, h, List.replicate_succ, List.cons.injEq, eq_self_iff_true, true_and,
        eq_comm, List.eq_replicate_iff]
      constructor
      · rintro ⟨-, zeros⟩
        refine ⟨fun b hb _ => zeros b hb, ?_⟩
        rw [ih, List.pairwise_iff_forall_sublist]
        intro a b hab _
        exact zeros b (hab.subset (by simp))
      · rintro ⟨zeros, -⟩
        exact ⟨Mem.length_read _ _ _, fun b hb => zeros b hb trivial⟩
    · rw [if_neg h, List.cons.injEq, eq_self_iff_true, true_and]
      exact ⟨fun e => ⟨fun _ _ h0 => absurd h0 h, e⟩, fun e => e.2⟩

end CMem
