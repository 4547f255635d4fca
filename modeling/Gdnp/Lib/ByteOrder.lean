import Mathlib.Tactic

/-!
# Machine words as bytes

A word of `n` bytes is stored with its least or with its most significant byte first.  `toBytes`
and `ofBytes` convert between the value and the bytes in memory, for either order and any width,
and are inverse to each other (`ofBytes_toBytes`, `toBytes_ofBytes`).  A word read in another order
than it was written in has the same value exactly when its bytes read the same in both orders
(`ofBytes_toBytes_eq_iff`).
-/

/-- The order in which a host stores the bytes of a word. -/
inductive ByteOrder where
  | little
  | big
  deriving DecidableEq, Repr

namespace ByteOrder

/-- The `n` low base-256 digits of `x`, least significant first. -/
def digits : ℕ → ℕ → List UInt8
  | 0, _ => []
  | n + 1, x => UInt8.ofNat x :: digits n (x / 256)

/-- The value of a list of base-256 digits, least significant first. -/
def value : List UInt8 → ℕ
  | [] => 0
  | b :: bs => b.toNat + 256 * value bs

/-- The bytes of an `n`-byte word holding `x`. -/
def toBytes : ByteOrder → ℕ → ℕ → List UInt8
  | little, n, x => digits n x
  | big, n, x => (digits n x).reverse

/-- The value of a word with the given bytes. -/
def ofBytes : ByteOrder → List UInt8 → ℕ
  | little, bs => value bs
  | big, bs => value bs.reverse

@[simp] theorem length_digits (n x : ℕ) : (digits n x).length = n := by
  induction n generalizing x with
  | zero => rfl
  | succ n ih => simp [digits, ih]

@[simp] theorem length_toBytes (o : ByteOrder) (n x : ℕ) : (toBytes o n x).length = n := by
  cases o <;> simp [toBytes]

theorem value_digits (n x : ℕ) : value (digits n x) = x % 256 ^ n := by
  induction n generalizing x with
  | zero => simp [digits, value, Nat.mod_one]
  | succ n ih =>
    have low : (UInt8.ofNat x).toNat = x % 256 := by simp
    rw [digits, value, ih, low, pow_succ', Nat.mod_mul]

theorem ofBytes_toBytes (o : ByteOrder) (n x : ℕ) : ofBytes o (toBytes o n x) = x % 256 ^ n := by
  cases o <;> simp [ofBytes, toBytes, value_digits]

theorem ofBytes_toBytes_of_lt (o : ByteOrder) {n x : ℕ} (h : x < 256 ^ n) :
    ofBytes o (toBytes o n x) = x := by
  rw [ofBytes_toBytes, Nat.mod_eq_of_lt h]

theorem value_append (bs cs : List UInt8) :
    value (bs ++ cs) = value bs + 256 ^ bs.length * value cs := by
  induction bs with
  | nil => simp [value]
  | cons b bs ih =>
    rw [List.cons_append, value, value, ih, List.length_cons, pow_succ]
    ring

theorem value_lt (bs : List UInt8) : value bs < 256 ^ bs.length := by
  induction bs with
  | nil => simp [value]
  | cons b bs ih =>
    have hb : b.toNat < 2 ^ 8 := b.toNat_lt
    rw [value, List.length_cons, pow_succ]
    omega

theorem digits_value (bs : List UInt8) : digits bs.length (value bs) = bs := by
  induction bs with
  | nil => rfl
  | cons b bs ih =>
    have hb : b.toNat < 2 ^ 8 := b.toNat_lt
    have hrest : (b.toNat + 256 * value bs) / 256 = value bs := by omega
    rw [List.length_cons, value, digits, hrest, ih]
    congr 1
    apply UInt8.toNat_inj.1
    rw [UInt8.toNat_ofNat']
    omega

theorem toBytes_ofBytes (o : ByteOrder) (bs : List UInt8) :
    o.toBytes bs.length (o.ofBytes bs) = bs := by
  cases o with
  | little => exact digits_value bs
  | big =>
    have := digits_value bs.reverse
    rw [List.length_reverse] at this
    rw [toBytes, ofBytes, this, List.reverse_reverse]

theorem ofBytes_lt (o : ByteOrder) (bs : List UInt8) : o.ofBytes bs < 256 ^ bs.length := by
  cases o with
  | little => exact value_lt bs
  | big => simpa [ofBytes] using value_lt bs.reverse

theorem ofBytes_toBytes_eq_iff (o o' : ByteOrder) {n x : ℕ} (h : x < 256 ^ n) :
    o'.ofBytes (o.toBytes n x) = x ↔ o.toBytes n x = o'.toBytes n x := by
  constructor
  · intro hx
    have := o'.toBytes_ofBytes (o.toBytes n x)
    rw [length_toBytes, hx] at this
    exact this.symm
  · intro hbytes
    rw [hbytes, ofBytes_toBytes_of_lt o' h]

/-- The bytes of an `n`-byte word holding `x` read the same in both orders. -/
def Symmetric (n x : ℕ) : Prop := little.toBytes n x = big.toBytes n x

instance (n x : ℕ) : Decidable (Symmetric n x) := inferInstanceAs (Decidable (_ = _))

theorem toBytes_eq_iff (o o' : ByteOrder) (n x : ℕ) :
    o.toBytes n x = o'.toBytes n x ↔ o = o' ∨ Symmetric n x := by
  cases o <;> cases o' <;> simp [Symmetric, eq_comm]

theorem digits_concat (n x : ℕ) : digits (n + 1) x = digits n x ++ [UInt8.ofNat (x / 256 ^ n)] := by
  induction n generalizing x with
  | zero => simp [digits]
  | succ n ih => rw [digits, ih, digits, List.cons_append, Nat.div_div_eq_div_mul, pow_succ']

/-- Where the most significant of `n + 1` bytes stands. -/
def top : ByteOrder → ℕ → ℕ
  | little, n => n
  | big, _ => 0

theorem top_le (o : ByteOrder) (n : ℕ) : o.top n ≤ n := by
  cases o with
  | little => exact le_rfl
  | big => exact Nat.zero_le n

/-- The byte in front is the least or the most significant digit. -/
theorem headD_toBytes (o : ByteOrder) (n x : ℕ) (b : UInt8) :
    (o.toBytes (n + 1) x).headD b = UInt8.ofNat (x / 256 ^ (n - o.top n)) := by
  cases o with
  | little => simp [toBytes, top, digits]
  | big => simp [toBytes, top, digits_concat]

theorem value_concat_div (bs : List UInt8) (b : UInt8) :
    value (bs ++ [b]) / 256 ^ bs.length = b.toNat := by
  rw [value_append, value, value, mul_zero, add_zero,
    Nat.add_mul_div_left _ _ (Nat.pow_pos (by decide)), Nat.div_eq_of_lt (value_lt bs), zero_add]

theorem ofBytes_div (o : ByteOrder) {bs : List UInt8} {n : ℕ} {b : UInt8}
    (hn : bs.length = n + 1) (hb : bs[o.top n]? = some b) :
    o.ofBytes bs / 256 ^ n = b.toNat := by
  cases o with
  | little =>
    obtain ⟨cs, c, rfl⟩ := (List.eq_nil_or_concat bs).resolve_left (by rintro rfl; simp at hn)
    obtain rfl : cs.length = n := by simpa using hn
    obtain rfl : c = b := by simpa [top] using hb
    simpa [ofBytes] using value_concat_div cs c
  | big =>
    obtain ⟨c, cs, rfl⟩ := List.exists_cons_of_length_eq_add_one hn
    obtain rfl : cs.length = n := by simpa using hn
    obtain rfl : c = b := by simpa [top] using hb
    simpa [ofBytes] using value_concat_div cs.reverse c

end ByteOrder
