import Gdnp.Connection
import Gdnp.Content

/-!
# The objective a message carries

The fields of an objective option are read from the data of a message, whatever lies behind it
(`Content.loopCount`, `Content.flag`, `Content.value`), and `parse_bits` finds them there.  A
message into whose data an objective option was copied carries the fields of that option
(`Carries`).
-/

open CMem

namespace Gdnp

namespace Content

variable (o : ByteOrder) (c : Content)

/-- The words at the start of the data. -/
def field (i : ℕ) : UInt16 := word o (c.data.mem fun _ => 0) i

def optionType : Option OptionType := OptionType.ofCode (c.field o 0).toNat

def loopCount : UInt8 := (c.field o 2 >>> ObjectiveOption.flagBitsLen).toUInt8

def flag : UInt8 := (c.field o 2).toUInt8

/-- The bytes of the value, by its length. -/
def value : List UInt8 :=
  (c.data.mem fun _ => 0).read ObjectiveOption.lenExceptValue (c.field o 1).toNat

/-- `parse_bits` writes the value inside the block that it allocates. -/
def InBlock : Prop := WritesInBlock o (c.data.mem fun _ => 0) ObjectiveOption.lenExceptValue

/-- The value lies inside the data and is a C string. -/
def Fits : Prop :=
  ObjectiveOption.lenExceptValue + (c.field o 1).toNat ≤ maxStringLength ∧ 0 ∉ c.value o

variable {o c} {after : Mem} {uninit : OptionType}

theorem inBlock_iff : c.InBlock o ↔ (c.field o 1).toNat ≤ 2 := writesInBlock_iff ..

instance : Decidable (c.InBlock o) := decidable_of_iff _ inBlock_iff.symm

theorem word_eq_field {i : ℕ} (h : 2 * i + 2 ≤ maxStringLength) :
    word o (c.data.mem after) i = c.field o i :=
  word_buffer o c.data _ _ h

theorem parseBits_loopCount (after : Mem) (uninit : OptionType) :
    (ObjectiveOption.parseBits o (c.data.mem after) uninit).loopCount = c.loopCount o := by
  show (word o _ 2 >>> ObjectiveOption.flagBitsLen).toUInt8 = _
  rw [word_eq_field (by decide)]
  rfl

theorem parseBits_flag (after : Mem) (uninit : OptionType) :
    (ObjectiveOption.parseBits o (c.data.mem after) uninit).flag = c.flag o := by
  show (word o _ 2).toUInt8 = _
  rw [word_eq_field (by decide)]
  rfl

theorem parseBits_type :
    (GdnpOption.parseBits o (c.data.mem after) uninit).type = (c.optionType o).getD uninit := by
  show (OptionType.ofCode (word o _ 0).toNat).getD uninit = _
  rw [word_eq_field (by decide)]
  rfl

/-- `parse_bits` copies a value that lies inside the data and has no zero byte. -/
theorem parseBits_getValue (h : c.Fits o) (after : Mem) (uninit : OptionType) :
    (ObjectiveOption.parseBits o (c.data.mem after) uninit).getValue = c.value o := by
  have hread : (c.data.mem after).read ObjectiveOption.lenExceptValue (c.field o 1).toNat =
      c.value o := by
    rw [value, CharArray.read_mem _ _ h.1, CharArray.read_mem _ _ h.1]
  show (copyValue _ ObjectiveOption.lenExceptValue (word o _ 1)).getD [] = _
  rw [word_eq_field (by decide), ← hread, copyValue_getD_eq_iff, hread]
  apply List.pairwise_of_forall_mem_list
  intro a ha b _ h0
  exact absurd (h0 ▸ ha) h.2

end Content

/-! ## Messages on the connection -/

/-- What `decode` finds in a message, as an item of a queue. -/
def Content.ofMsg (msg : Msg) : Option Content :=
  match decode (some msg) with
  | .error _ => none
  | .ok d => some ⟨d.type, d.data⟩

theorem Content.ofMsg_eq {msg : Msg} {d : Decoded} (h : decode (some msg) = .ok d) :
    Content.ofMsg msg = some ⟨d.type, d.data⟩ := by
  rw [ofMsg, h]

theorem Content.ofMsg_of_writePdu {data : List UInt8} {type : MsgType} {sessionId : UInt32}
    {env : WriteEnv} {e : Errno} {msg : Msg}
    (h : writePdu data type sessionId env = (e, some msg)) :
    Content.ofMsg msg = some (.ofBits type data) :=
  ofMsg_eq (decode_of_writePdu (congrArg Prod.snd h)).2

theorem Content.ofBits_bytes (type : MsgType) (a : CharArray maxStringLength) :
    Content.ofBits type a.bytes = ⟨type, a⟩ := by
  rw [ofBits, CharArray.memcpy_bytes_self]

/-- REQUEST_MSG and NEGO_MSG carry offers. -/
def Content.IsOffer (c : Content) : Prop := c.type = .requestMsg ∨ c.type = .negoMsg

instance : DecidablePred Content.IsOffer := fun c =>
  inferInstanceAs (Decidable (c.type = .requestMsg ∨ c.type = .negoMsg))

/-- The message decodes to a type for which `p` holds. -/
def Msg.hasType (p : MsgType → Bool) (msg : Msg) : Bool :=
  (Content.ofMsg msg).any fun c => p c.type

theorem Msg.hasType_of_writePdu {data : List UInt8} {type : MsgType} {sessionId : UInt32}
    {env : WriteEnv} {e : Errno} {msg : Msg}
    (h : writePdu data type sessionId env = (e, some msg)) (p : MsgType → Bool) :
    msg.hasType p = p type := by
  rw [hasType, Content.ofMsg_of_writePdu h]
  rfl

/-- Data that begins with an option shows the type of the option. -/
theorem Content.optionType_eq {o : ByteOrder} {c : Content} {a : CharArray maxStringLength}
    {t : OptionType} {rest : List UInt8} (h : c.data = a.memcpy (o.toBytes 2 t.code ++ rest)) :
    c.optionType o = some t := by
  have hread : (c.data.mem fun _ => 0).read (2 * 0) 2 = o.toBytes 2 t.code := by
    rw [h, a.read_memcpy _ _ (fun _ => 0) (by simp) (by decide), read_memOf _ _ (by simp)]
    simp
  rw [optionType, field, word_of_read hread t.code_lt, OptionType.ofCode_code]

/-! ## Messages that carry a given objective -/

/-- The bits of the option were copied to the start of the data. -/
def Content.Carries (o : ByteOrder) (c : Content) (opt : ObjectiveOption) : Prop :=
  ∃ a : CharArray maxStringLength, c.data = a.memcpy (opt.toBits o)

namespace Content.Carries

variable {o : ByteOrder} {c : Content} {opt : ObjectiveOption}

theorem field_eq (h : c.Carries o opt) {i : ℕ} (hi : i < 3) :
    c.field o i = word o (memOf (opt.toBits o) fun _ => 0) i := by
  obtain ⟨a, ha⟩ := h
  have hlen := opt.length_toBits o
  unfold ObjectiveOption.lenExceptValue at hlen
  apply word_congr o
  rw [ha]
  exact a.read_memcpy _ _ _ (by omega) (by unfold maxStringLength; omega)

theorem loopCount_eq (h : c.Carries o opt) : c.loopCount o = opt.loopCount := by
  have hparse := (opt.parseBits_toBits_loopCount o (fun _ => 0) .divert).1
  rw [← hparse, Content.loopCount, h.field_eq (by omega)]
  rfl

theorem flag_eq (h : c.Carries o opt) : c.flag o = opt.flag := by
  have hparse := (opt.parseBits_toBits_loopCount o (fun _ => 0) .divert).2
  rw [← hparse, Content.flag, h.field_eq (by omega)]
  rfl

theorem value_eq (h : c.Carries o opt) (hlen : (opt.toBits o).length ≤ maxStringLength) :
    c.field o 1 = opt.len ∧ c.value o = opt.valueBytes := by
  obtain ⟨-, hl, -, hv⟩ := opt.read_toBits o (fun _ => 0) .divert
  have hfield : c.field o 1 = opt.len := by rw [h.field_eq (by omega), hl]
  refine ⟨hfield, ?_⟩
  obtain ⟨a, ha⟩ := h
  rw [opt.length_toBits] at hlen
  rw [Content.value, hfield, ← hv, ha]
  exact a.read_memcpy _ _ _ (by rw [opt.length_toBits]; omega) (by omega)

end Content.Carries

theorem valueBytes_objectiveOf (type : OptionType) (value : CString) (loopCount flag : UInt8) :
    0 ∉ (objectiveOf type value loopCount flag).valueBytes :=
  fun h => value.zero_notMem (List.mem_of_mem_take h)

/-- An objective around a C string fits when its bits fit into the data. -/
theorem Content.Carries.fits {o : ByteOrder} {c : Content} {type : OptionType} {value : CString}
    {loopCount flag : UInt8} (h : c.Carries o (objectiveOf type value loopCount flag))
    (hlen : ((objectiveOf type value loopCount flag).toBits o).length ≤ maxStringLength) :
    c.Fits o := by
  obtain ⟨hfield, hvalue⟩ := h.value_eq hlen
  rw [ObjectiveOption.length_toBits] at hlen
  refine ⟨by rw [hfield]; omega, ?_⟩
  rw [hvalue]
  exact valueBytes_objectiveOf type value loopCount flag

/-- A value that fits is carried whole. -/
theorem Content.Carries.value_objectiveOf {o : ByteOrder} {c : Content} {type : OptionType}
    {value : CString} {loopCount flag : UInt8}
    (h : c.Carries o (objectiveOf type value loopCount flag))
    (hlen : value.bytes.length + ObjectiveOption.lenExceptValue ≤ maxStringLength) :
    c.Fits o ∧ c.value o = value.bytes := by
  have hl : (objectiveOf type value loopCount flag).len.toNat = value.bytes.length := by
    show (UInt16.ofNat value.bytes.length).toNat = _
    unfold maxStringLength at hlen
    rw [UInt16.toNat_ofNat', Nat.mod_eq_of_lt (by omega)]
  have hbits : ((objectiveOf type value loopCount flag).toBits o).length ≤ maxStringLength := by
    rw [ObjectiveOption.length_toBits, hl]
    exact hlen
  refine ⟨h.fits hbits, ?_⟩
  rw [(h.value_eq hbits).2]
  show value.bytes.take _ = _
  rw [List.take_of_length_le hl.ge]

end Gdnp
