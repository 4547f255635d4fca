import Gdnp.Lib.ByteOrder
import Gdnp.Lib.CMem
import Gdnp.Msg

/-!
# Options

An option is a type, a length and a value; an objective option has a loop count and a flag besides.
`toBits` writes its fields in the host's byte order and copies the value by length.  `parseBits`
reads them back, but copies the value with `strncpy` into a block of `sizeof(len)` bytes.  A parsed
value is the list of the `len` bytes that `strncpy` writes, inside the block or not.

So parsing undoes `toBits` only for values of at most two bytes in which no byte follows a zero
(`roundTrips_iff`), and is safe only on buffers with a known type and a length of at most two
(`parseSafe_iff`).  The bytes alone, wherever they come to lie, are right whenever no byte follows
a zero (`GdnpOption.parseBits_toBits_value`).
-/

open CMem

namespace Gdnp

inductive OptionType where
  | divert
  | accept
  | decline
  | waitingTime
  | locator
  | discovery
  | negotiation
  | synchronization
  deriving DecidableEq, Repr

namespace OptionType

def code : OptionType → ℕ
  | divert => 0
  | accept => 1
  | decline => 2
  | waitingTime => 3
  | locator => 4
  | discovery => 5
  | negotiation => 6
  | synchronization => 7

/-- The `switch` of the two `parse_bits` on the type field. -/
def ofCode : ℕ → Option OptionType
  | 0 => some divert
  | 1 => some accept
  | 2 => some decline
  | 3 => some waitingTime
  | 4 => some locator
  | 5 => some discovery
  | 6 => some negotiation
  | 7 => some synchronization
  | _ => none

theorem code_le (t : OptionType) : t.code ≤ 7 := by cases t <;> decide

@[simp] theorem ofCode_code (t : OptionType) : ofCode t.code = some t := by cases t <;> rfl

theorem ofCode_eq_some_iff {n : ℕ} {t : OptionType} : ofCode n = some t ↔ n = t.code := by
  constructor
  · intro h
    unfold ofCode at h
    split at h <;> simp_all <;> subst h <;> rfl
  · rintro rfl
    exact ofCode_code t

theorem ofCode_eq_none_iff (n : ℕ) : ofCode n = none ↔ 8 ≤ n := by
  constructor
  · intro h
    by_contra hn
    interval_cases n <;> simp [ofCode] at h
  · intro h
    unfold ofCode
    split <;> first | omega | rfl

end OptionType

/-- Class `Option`.  The value is `NULL` or points to a block of at least `len` bytes. -/
structure GdnpOption where
  type : OptionType
  len : UInt16
  value : Option (List UInt8)
  readable : ∀ v ∈ value, len.toNat ≤ v.length

/-- Class `Objective_Option`. -/
structure ObjectiveOption extends GdnpOption where
  loopCount : UInt8
  flag : UInt8

namespace GdnpOption

/-- Octets of an option besides the value. -/
def lenExceptValue : ℕ := 4

/-- `get_value`: the empty string for `NULL`. -/
def getValue (opt : GdnpOption) : List UInt8 := opt.value.getD []

/-- The `len` octets of the value as `to_bits` writes them: zeros when there is no value. -/
def valueBytes (opt : GdnpOption) : List UInt8 :=
  match opt.value with
  | none => List.replicate opt.len.toNat 0
  | some v => v.take opt.len.toNat

@[simp] theorem length_valueBytes (opt : GdnpOption) : opt.valueBytes.length = opt.len.toNat := by
  rcases h : opt.value with _ | v
  · simp [valueBytes, h]
  · simp [valueBytes, h, opt.readable v h]

/-- `Option::to_bits` on a host with byte order `o`. -/
def toBits (o : ByteOrder) (opt : GdnpOption) : List UInt8 :=
  o.toBytes 2 opt.type.code ++ o.toBytes 2 opt.len.toNat ++ opt.valueBytes

theorem length_toBits (o : ByteOrder) (opt : GdnpOption) :
    (opt.toBits o).length = opt.len.toNat + lenExceptValue := by
  simp [toBits, lenExceptValue]
  omega

end GdnpOption

namespace ObjectiveOption

/-- Octets of an objective option besides the value. -/
def lenExceptValue : ℕ := 6

def flagBitsLen : UInt16 := 8

/-- Loop count and flag as they are packed in one word. -/
def packed (opt : ObjectiveOption) : UInt16 :=
  opt.loopCount.toUInt16 <<< flagBitsLen ||| opt.flag.toUInt16

/-- `Objective_Option::to_bits` on a host with byte order `o`. -/
def toBits (o : ByteOrder) (opt : ObjectiveOption) : List UInt8 :=
  o.toBytes 2 opt.type.code ++ o.toBytes 2 opt.len.toNat ++ o.toBytes 2 opt.packed.toNat ++
    opt.valueBytes

theorem length_toBits (o : ByteOrder) (opt : ObjectiveOption) :
    (opt.toBits o).length = opt.len.toNat + lenExceptValue := by
  simp [toBits, lenExceptValue]
  omega

theorem toNat_packed (opt : ObjectiveOption) :
    opt.packed.toNat = opt.loopCount.toNat * 2 ^ 8 + opt.flag.toNat := by
  have hl : opt.loopCount.toNat < 2 ^ 8 := opt.loopCount.toNat_lt
  have hf : opt.flag.toNat < 2 ^ 8 := opt.flag.toNat_lt
  have hs : (opt.loopCount.toUInt16 <<< flagBitsLen).toNat = opt.loopCount.toNat <<< 8 := by
    rw [UInt16.toNat_shiftLeft, UInt8.toNat_toUInt16]
    show opt.loopCount.toNat <<< 8 % 2 ^ 16 = _
    rw [Nat.mod_eq_of_lt]
    rw [Nat.shiftLeft_eq]
    omega
  rw [packed, UInt16.toNat_or, hs, UInt8.toNat_toUInt16, ← Nat.shiftLeft_add_eq_or_of_lt hf,
    Nat.shiftLeft_eq]

end ObjectiveOption

/-! ## The options of a negotiation -/

def acceptOption : GdnpOption := ⟨.accept, 0, none, by simp⟩

def declineOption : GdnpOption := ⟨.decline, 0, none, by simp⟩

/-- An objective option around a C string, whose length is narrowed to 16 bits. -/
def objectiveOf (type : OptionType) (value : CString) (loopCount flag : UInt8) :
    ObjectiveOption where
  type := type
  len := UInt16.ofNat value.bytes.length
  value := some value.bytes
  readable := by
    rintro v ⟨⟩
    rw [UInt16.toNat_ofNat']
    exact Nat.mod_le _ _
  loopCount := loopCount
  flag := flag

/-- A `Locator` option around an address text, whose length is narrowed to 16 bits. -/
def locatorOption (data : CString) : GdnpOption where
  type := .locator
  len := UInt16.ofNat data.bytes.length
  value := some data.bytes
  readable := by
    rintro v ⟨⟩
    rw [UInt16.toNat_ofNat']
    exact Nat.mod_le _ _

/-! ## Parsing -/

/-- The `i`-th 16-bit word behind `bits`. -/
def word (o : ByteOrder) (bits : Mem) (i : ℕ) : UInt16 :=
  UInt16.ofNat (o.ofBytes (bits.read (2 * i) 2))

theorem word_congr (o : ByteOrder) {p q : Mem} {i : ℕ} (h : p.read (2 * i) 2 = q.read (2 * i) 2) :
    word o p i = word o q i := by
  rw [word, word, h]

theorem toNat_word (o : ByteOrder) (bits : Mem) (i : ℕ) :
    (word o bits i).toNat = o.ofBytes (bits.read (2 * i) 2) := by
  have hlt : o.ofBytes (bits.read (2 * i) 2) < 2 ^ 16 := by
    have := o.ofBytes_lt (bits.read (2 * i) 2)
    rwa [Mem.length_read] at this
  rw [word, UInt16.toNat_ofNat', Nat.mod_eq_of_lt hlt]

theorem word_of_read {o : ByteOrder} {bits : Mem} {i n : ℕ}
    (h : bits.read (2 * i) 2 = o.toBytes 2 n) (hn : n < 2 ^ 16) : (word o bits i).toNat = n := by
  rw [toNat_word, h, ByteOrder.ofBytes_toBytes_of_lt o hn]

/-- The type field; for a number that names no option type the variable keeps the value `uninit`
it happened to have. -/
def parseType (o : ByteOrder) (bits : Mem) (uninit : OptionType) : OptionType :=
  (OptionType.ofCode (word o bits 0).toNat).getD uninit

theorem parseType_forall_iff (o : ByteOrder) (bits : Mem) (t : OptionType) :
    (∀ uninit, parseType o bits uninit = t) ↔ (word o bits 0).toNat = t.code := by
  rw [← OptionType.ofCode_eq_some_iff]
  unfold parseType
  rcases h : OptionType.ofCode (word o bits 0).toNat with _ | t'
  · refine iff_of_false (fun h' => ?_) nofun
    have h₀ : OptionType.divert = t := h' .divert
    cases h₀.trans (h' .accept).symm
  · rw [Option.some.injEq]
    exact ⟨fun h' => h' .divert, fun h' _ => h'⟩

/-- The value copied with `strncpy` from offset `off`. -/
def copyValue (bits : Mem) (off : ℕ) (len : UInt16) : Option (List UInt8) :=
  if len ≠ 0 then some (strncpy (fun i => bits (off + i)) len.toNat) else none

theorem readable_copyValue (bits : Mem) (off : ℕ) (len : UInt16) :
    ∀ v ∈ copyValue bits off len, len.toNat ≤ v.length := by
  intro v hv
  simp only [copyValue, Option.mem_def, Option.ite_none_right_eq_some, Option.some.injEq] at hv
  rw [← hv.2, length_strncpy]

/-- `Option::parse_bits`. -/
def GdnpOption.parseBits (o : ByteOrder) (bits : Mem) (uninit : OptionType) : GdnpOption where
  type := parseType o bits uninit
  len := word o bits 1
  value := copyValue bits lenExceptValue (word o bits 1)
  readable := readable_copyValue _ _ _

/-- `Objective_Option::parse_bits`. -/
def ObjectiveOption.parseBits (o : ByteOrder) (bits : Mem) (uninit : OptionType) :
    ObjectiveOption where
  type := parseType o bits uninit
  len := word o bits 1
  value := copyValue bits lenExceptValue (word o bits 1)
  readable := readable_copyValue _ _ _
  loopCount := (word o bits 2 >>> flagBitsLen).toUInt8
  flag := (word o bits 2).toUInt8

/-- What parsing touches: the positions of the buffer it reads, the size of the block it allocates
for the value, and the positions of that block it writes. -/
structure Footprint where
  reads : List ℕ
  block : ℕ
  writes : List ℕ

/-- The footprint of a `parse_bits` that reads `off` octets before the value.  The block is
allocated with `sizeof(len)`. -/
def parseFootprint (o : ByteOrder) (bits : Mem) (off : ℕ) : Footprint :=
  if word o bits 1 ≠ 0 then
    { reads := List.range (off + strncpyReads (fun i => bits (off + i)) (word o bits 1).toNat)
      block := 2
      writes := List.range (word o bits 1).toNat }
  else { reads := List.range off, block := 0, writes := [] }

/-- The positions written for the value all lie in the block allocated for it. -/
def WritesInBlock (o : ByteOrder) (bits : Mem) (off : ℕ) : Prop :=
  ∀ i ∈ (parseFootprint o bits off).writes, i < (parseFootprint o bits off).block

theorem writesInBlock_iff (o : ByteOrder) (bits : Mem) (off : ℕ) :
    WritesInBlock o bits off ↔ (word o bits 1).toNat ≤ 2 := by
  unfold WritesInBlock parseFootprint
  by_cases h : word o bits 1 = 0
  · simp [h]
  · simp only [ne_eq, h, not_false_eq_true, if_true, List.mem_range]
    constructor
    · intro hw
      by_contra hn
      exact absurd (hw 2 (by omega)) (by omega)
    · intro hn i hi
      omega

theorem toNat_unpack_loopCount (w : UInt16) :
    (w >>> ObjectiveOption.flagBitsLen).toUInt8.toNat = w.toNat / 2 ^ 8 := by
  have hw : w.toNat < 2 ^ 16 := w.toNat_lt
  rw [UInt16.toNat_toUInt8, UInt16.toNat_shiftRight, Nat.shiftRight_eq_div_pow]
  show w.toNat / 2 ^ 8 % 2 ^ 8 = _
  omega

/-- `copyValue` gives the bytes behind `off` exactly when only zeros follow a zero. -/
theorem copyValue_getD_eq_iff (bits : Mem) (off : ℕ) (len : UInt16) :
    (copyValue bits off len).getD [] = bits.read off len.toNat ↔
      (bits.read off len.toNat).Pairwise fun a b => a = 0 → b = 0 := by
  have shift : bits.read off len.toNat = Mem.read (fun i => bits (off + i)) 0 len.toNat := by
    simp [Mem.read]
  by_cases h : len = 0
  · subst h
    simp [copyValue, Mem.read]
  · rw [copyValue, if_pos h, Option.getD_some, shift, strncpy_eq_read_iff]

theorem headD_copyValue (bits : Mem) (off : ℕ) {len : UInt16} (h : len ≠ 0) (b : UInt8) :
    ((copyValue bits off len).getD []).headD b = bits off := by
  have hlen : len.toNat ≠ 0 := fun h0 => h (UInt16.toNat_inj.1 h0)
  rw [copyValue, if_pos h, Option.getD_some, headD_strncpy _ hlen, Nat.add_zero]

/-! ## Round trip -/

section RoundTrip

variable (o : ByteOrder) (after : Mem)

/-- The words and the value behind a pointer to three fields of the given widths. -/
theorem read_fields {h₀ h₁ v : List UInt8} (e₀ : h₀.length = 2) (e₁ : h₁.length = 2) :
    (memOf (h₀ ++ h₁ ++ v) after).read 0 2 = h₀ ∧
      (memOf (h₀ ++ h₁ ++ v) after).read 2 2 = h₁ ∧
      ∀ i k, i + k ≤ v.length →
        (memOf (h₀ ++ h₁ ++ v) after).read (4 + i) k = (v.drop i).take k := by
  refine ⟨?_, ?_, fun i k hik => ?_⟩
  · rw [read_memOf _ _ (by simp; omega), List.drop_zero, List.append_assoc,
      List.take_append_of_le_length (by omega), List.take_of_length_le (by omega)]
  · rw [read_memOf _ _ (by simp; omega), List.append_assoc,
      List.drop_append_of_le_length (by omega),
      List.drop_of_length_le (by omega), List.nil_append,
      List.take_append_of_le_length (by omega), List.take_of_length_le (by omega)]
  · rw [read_memOf _ _ (by simp; omega), List.drop_append,
      List.drop_of_length_le (by simp; omega), List.nil_append]
    congr 2
    simp only [List.length_append]
    omega

theorem OptionType.code_lt (t : OptionType) : t.code < 2 ^ 16 := by
  have := t.code_le
  omega

theorem parseType_of_read {bits : Mem} {t : OptionType} (h : bits.read 0 2 = o.toBytes 2 t.code)
    (uninit : OptionType) : parseType o bits uninit = t := by
  rw [parseType, word_of_read (i := 0) h t.code_lt, OptionType.ofCode_code, Option.getD_some]

/-- The bytes of the fields of an encoded option. -/
theorem GdnpOption.fields_toBits (opt : GdnpOption) :
    (memOf (opt.toBits o) after).read 0 2 = o.toBytes 2 opt.type.code ∧
      (memOf (opt.toBits o) after).read 2 2 = o.toBytes 2 opt.len.toNat ∧
      (memOf (opt.toBits o) after).read lenExceptValue opt.len.toNat = opt.valueBytes := by
  obtain ⟨h₀, h₁, hv⟩ := read_fields after (v := opt.valueBytes)
    (o.length_toBytes 2 opt.type.code) (o.length_toBytes 2 opt.len.toNat)
  refine ⟨h₀, h₁, ?_⟩
  have := hv 0 opt.len.toNat (by simp)
  rwa [List.drop_zero, List.take_of_length_le (by simp)] at this

/-- The fields of an encoded option, read back. -/
theorem GdnpOption.read_toBits (opt : GdnpOption) (uninit : OptionType) :
    parseType o (memOf (opt.toBits o) after) uninit = opt.type ∧
      word o (memOf (opt.toBits o) after) 1 = opt.len ∧
      (memOf (opt.toBits o) after).read lenExceptValue opt.len.toNat = opt.valueBytes := by
  obtain ⟨h₀, h₁, hv⟩ := opt.fields_toBits o after
  refine ⟨parseType_of_read o h₀ uninit, ?_, hv⟩
  exact UInt16.toNat_inj.1 (word_of_read (i := 1) h₁ opt.len.toNat_lt)

/-- The bytes of the fields of an encoded objective option. -/
theorem ObjectiveOption.fields_toBits (opt : ObjectiveOption) :
    (memOf (opt.toBits o) after).read 0 2 = o.toBytes 2 opt.type.code ∧
      (memOf (opt.toBits o) after).read 2 2 = o.toBytes 2 opt.len.toNat ∧
      (memOf (opt.toBits o) after).read 4 2 = o.toBytes 2 opt.packed.toNat ∧
      (memOf (opt.toBits o) after).read lenExceptValue opt.len.toNat = opt.valueBytes := by
  have shape : opt.toBits o = o.toBytes 2 opt.type.code ++ o.toBytes 2 opt.len.toNat ++
      (o.toBytes 2 opt.packed.toNat ++ opt.valueBytes) := by simp [toBits]
  obtain ⟨h₀, h₁, hv⟩ := read_fields after
    (v := o.toBytes 2 opt.packed.toNat ++ opt.valueBytes)
    (o.length_toBytes 2 opt.type.code) (o.length_toBytes 2 opt.len.toNat)
  rw [← shape] at h₀ h₁ hv
  refine ⟨h₀, h₁, ?_, ?_⟩
  · have := hv 0 2 (by simp)
    rwa [List.drop_zero, List.take_append_of_le_length (by simp),
      List.take_of_length_le (by simp)] at this
  · have := hv 2 opt.len.toNat (by simp)
    rwa [List.drop_append_of_le_length (by simp), List.drop_of_length_le (by simp),
      List.nil_append, List.take_of_length_le (by simp)] at this

/-- The fields of an encoded objective option, read back. -/
theorem ObjectiveOption.read_toBits (opt : ObjectiveOption) (uninit : OptionType) :
    parseType o (memOf (opt.toBits o) after) uninit = opt.type ∧
      word o (memOf (opt.toBits o) after) 1 = opt.len ∧
      word o (memOf (opt.toBits o) after) 2 = opt.packed ∧
      (memOf (opt.toBits o) after).read lenExceptValue opt.len.toNat = opt.valueBytes := by
  obtain ⟨h₀, h₁, h₂, hv⟩ := opt.fields_toBits o after
  refine ⟨parseType_of_read o h₀ uninit, ?_, ?_, hv⟩
  · exact UInt16.toNat_inj.1 (word_of_read (i := 1) h₁ opt.len.toNat_lt)
  · exact UInt16.toNat_inj.1 (word_of_read (i := 2) h₂ opt.packed.toNat_lt)

end RoundTrip

/-- The value bytes come back, wherever `strncpy` puts them, exactly when only zeros follow a
zero. -/
theorem GdnpOption.parseBits_toBits_value (o : ByteOrder) (opt : GdnpOption) (after : Mem)
    (uninit : OptionType) :
    (parseBits o (memOf (opt.toBits o) after) uninit).getValue = opt.valueBytes ↔
      opt.valueBytes.Pairwise fun a b => a = 0 → b = 0 := by
  obtain ⟨-, hlen, hval⟩ := opt.read_toBits o after uninit
  have := copyValue_getD_eq_iff (memOf (opt.toBits o) after) lenExceptValue opt.len
  rw [hval] at this
  simp only [parseBits, getValue, hlen, this]

theorem ObjectiveOption.parseBits_toBits_value (o : ByteOrder) (opt : ObjectiveOption) (after : Mem)
    (uninit : OptionType) :
    (parseBits o (memOf (opt.toBits o) after) uninit).getValue = opt.valueBytes ↔
      opt.valueBytes.Pairwise fun a b => a = 0 → b = 0 := by
  obtain ⟨-, hlen, -, hval⟩ := opt.read_toBits o after uninit
  have := copyValue_getD_eq_iff (memOf (opt.toBits o) after) lenExceptValue opt.len
  rw [hval] at this
  simp only [parseBits, GdnpOption.getValue, hlen, this]

theorem ObjectiveOption.parseBits_toBits_loopCount (o : ByteOrder) (opt : ObjectiveOption)
    (after : Mem) (uninit : OptionType) :
    (parseBits o (memOf (opt.toBits o) after) uninit).loopCount = opt.loopCount ∧
      (parseBits o (memOf (opt.toBits o) after) uninit).flag = opt.flag := by
  obtain ⟨-, -, hpacked, -⟩ := opt.read_toBits o after uninit
  have hl : opt.loopCount.toNat < 2 ^ 8 := opt.loopCount.toNat_lt
  have hf : opt.flag.toNat < 2 ^ 8 := opt.flag.toNat_lt
  constructor
  · apply UInt8.toNat_inj.1
    show (word o _ 2 >>> flagBitsLen).toUInt8.toNat = _
    rw [toNat_unpack_loopCount, hpacked, toNat_packed]
    omega
  · apply UInt8.toNat_inj.1
    show (word o _ 2).toUInt8.toNat = _
    rw [UInt16.toNat_toUInt8, hpacked, toNat_packed]
    omega

/-- Parsing the bits of an option gives an option with the same fields, whose value bytes lie in
the block allocated for them. -/
def GdnpOption.RoundTrips (o : ByteOrder) (opt : GdnpOption) : Prop :=
  ∀ (after : Mem) (uninit : OptionType),
    let bits := memOf (opt.toBits o) after
    let opt' := parseBits o bits uninit
    opt'.type = opt.type ∧ opt'.len = opt.len ∧ opt'.getValue = opt.valueBytes ∧
      WritesInBlock o bits lenExceptValue

/-- The same for an objective option, with its loop count and flag. -/
def ObjectiveOption.RoundTrips (o : ByteOrder) (opt : ObjectiveOption) : Prop :=
  ∀ (after : Mem) (uninit : OptionType),
    let bits := memOf (opt.toBits o) after
    let opt' := parseBits o bits uninit
    opt'.type = opt.type ∧ opt'.len = opt.len ∧ opt'.getValue = opt.valueBytes ∧
      opt'.loopCount = opt.loopCount ∧ opt'.flag = opt.flag ∧ WritesInBlock o bits lenExceptValue

/-- An option survives `to_bits` and `parse_bits` exactly when its value has at most two bytes and
only zeros follow a zero in it. -/
theorem roundTrips_iff (o : ByteOrder) (opt : GdnpOption) (obj : ObjectiveOption) :
    (opt.RoundTrips o ↔
        opt.len.toNat ≤ 2 ∧ opt.valueBytes.Pairwise fun a b => a = 0 → b = 0) ∧
      (obj.RoundTrips o ↔
        obj.len.toNat ≤ 2 ∧ obj.valueBytes.Pairwise fun a b => a = 0 → b = 0) := by
  constructor
  · constructor
    · intro h
      obtain ⟨-, hlen, hval, hblock⟩ := h (fun _ => 0) .divert
      rw [writesInBlock_iff] at hblock
      exact ⟨by rwa [← hlen], (opt.parseBits_toBits_value o _ _).1 hval⟩
    · rintro ⟨hle, htail⟩ after uninit
      obtain ⟨htype, hlen, -⟩ := opt.read_toBits o after uninit
      refine ⟨htype, hlen, (opt.parseBits_toBits_value o _ _).2 htail, ?_⟩
      rwa [writesInBlock_iff, hlen]
  · constructor
    · intro h
      obtain ⟨-, hlen, hval, -, -, hblock⟩ := h (fun _ => 0) .divert
      rw [writesInBlock_iff] at hblock
      exact ⟨by rwa [← hlen], (obj.parseBits_toBits_value o _ _).1 hval⟩
    · rintro ⟨hle, htail⟩ after uninit
      obtain ⟨htype, hlen, -, -⟩ := obj.read_toBits o after uninit
      obtain ⟨hloop, hflag⟩ := obj.parseBits_toBits_loopCount o after uninit
      refine ⟨htype, hlen, (obj.parseBits_toBits_value o _ _).2 htail, hloop, hflag, ?_⟩
      rwa [writesInBlock_iff, hlen]

/-- The two-byte value `00 01` comes back as `00 00`. -/
theorem not_roundTrips_zero_one :
    ¬ GdnpOption.RoundTrips .little ⟨.locator, 2, some [0, 1], by decide⟩ := by
  intro h
  have hval := (h (fun _ => 0) .divert).2.2.1
  revert hval
  decide

/-! ## Safety -/

/-- A `parse_bits` that reads `off` octets before the value is safe on a received buffer: whatever
lies behind the buffer and whatever the type variable held before, it reads inside the buffer,
writes inside the block it allocates, and finds a type that depends on the buffer alone. -/
def SafeAt (o : ByteOrder) (off : ℕ) (buffer : CharArray maxStringLength) : Prop :=
  (∀ after, (∀ i ∈ (parseFootprint o (buffer.mem after) off).reads, i < maxStringLength) ∧
      WritesInBlock o (buffer.mem after) off) ∧
    ∀ after uninit uninit',
      parseType o (buffer.mem after) uninit = parseType o (buffer.mem after) uninit'

/-- Both `parse_bits` are safe on the buffer. -/
def ParseSafe (o : ByteOrder) (buffer : CharArray maxStringLength) : Prop :=
  SafeAt o GdnpOption.lenExceptValue buffer ∧ SafeAt o ObjectiveOption.lenExceptValue buffer

theorem word_buffer (o : ByteOrder) (buffer : CharArray maxStringLength) (p q : Mem) {i : ℕ}
    (h : 2 * i + 2 ≤ maxStringLength) : word o (buffer.mem p) i = word o (buffer.mem q) i :=
  word_congr o (by rw [CharArray.read_mem _ p h, CharArray.read_mem _ q h])

theorem parseType_eq_iff (o : ByteOrder) (bits : Mem) :
    (∀ uninit uninit', parseType o bits uninit = parseType o bits uninit') ↔
      (word o bits 0).toNat < 8 := by
  unfold parseType
  rcases h : OptionType.ofCode (word o bits 0).toNat with _ | t
  · have hle := (OptionType.ofCode_eq_none_iff _).1 h
    refine iff_of_false (fun e => ?_) (by omega)
    exact absurd (e .divert .accept) (by simp)
  · refine iff_of_true (fun _ _ => rfl) ?_
    by_contra hn
    rw [(OptionType.ofCode_eq_none_iff _).2 (by omega)] at h
    cases h

theorem safeAt_iff (o : ByteOrder) {off : ℕ} (hoff : off + 2 ≤ maxStringLength)
    (buffer : CharArray maxStringLength) (after : Mem) :
    SafeAt o off buffer ↔
      (word o (buffer.mem after) 1).toNat ≤ 2 ∧ (word o (buffer.mem after) 0).toNat < 8 := by
  have h₀ (p : Mem) : word o (buffer.mem p) 0 = word o (buffer.mem after) 0 :=
    word_buffer o buffer p after (by decide)
  have h₁ (p : Mem) : word o (buffer.mem p) 1 = word o (buffer.mem after) 1 :=
    word_buffer o buffer p after (by decide)
  constructor
  · rintro ⟨hsafe, htype⟩
    exact ⟨(writesInBlock_iff ..).1 (hsafe after).2, (parseType_eq_iff ..).1 (htype after)⟩
  · rintro ⟨hlen, htype⟩
    refine ⟨fun p => ⟨fun i hi => ?_, (writesInBlock_iff ..).2 (by rwa [h₁])⟩,
      fun p => (parseType_eq_iff ..).2 (by rwa [h₀])⟩
    -- With at most two value bytes the copy stops two positions behind the header.
    have hreads := strncpyReads_le (fun i => buffer.mem p (off + i)) (word o (buffer.mem p) 1).toNat
    rw [h₁] at hreads
    unfold parseFootprint at hi
    rw [h₁] at hi
    split_ifs at hi <;> simp only [List.mem_range] at hi <;> omega

/-- Parsing a received buffer is safe exactly when its length field is at most two and its type
field names an option type. -/
theorem parseSafe_iff (o : ByteOrder) (buffer : CharArray maxStringLength) (after : Mem) :
    ParseSafe o buffer ↔
      (word o (buffer.mem after) 1).toNat ≤ 2 ∧ (word o (buffer.mem after) 0).toNat < 8 := by
  rw [ParseSafe, safeAt_iff o (by decide) buffer after, safeAt_iff o (by decide) buffer after,
    and_self]

/-- A received Locator option with a value of three bytes makes `parse_bits` write one byte past
the block. -/
theorem not_parseSafe_locator :
    ¬ ParseSafe .little ((CharArray.zero _).memcpy [4, 0, 3, 0, 58, 58, 49]) := by
  intro h
  have hwrites := (h.1.1 fun _ => 0).2 2
  revert hwrites
  decide +kernel

end Gdnp
