import Gdnp.Lib.CMem

/-!
# The message format

A PDU is a `Msg`: a header with the message type in its top byte and the session id in the other
three, a device id and a data field.  `encode` packs it and `decode` unpacks it.  Decoding undoes
encoding (`decode_encode_spec`); encoding does not undo decoding, because the size `decode` reports
is that of the data field, one byte more than `encode` takes (`reencodes_iff`).
-/

open CMem

namespace Gdnp

/-- Return codes. -/
inductive Errno where
  | sendErr
  | sendUnexpectedBytesErr
  | optionsTooLongErr
  | sessionIdTooLongErr
  | msgTypeErr
  | nullPointErr
  | encodeErr
  | recvErr
  | bindErr
  | serverSendUnexceptedMsgTypeErr
  | serverUnexceptedStateErr
  | serverRecvUnexceptedMsgTypeErr
  | clientSendUnexceptedMsgTypeErr
  | clientRecvNothingErr
  | clientUnexceptedStateErr
  | clientRecvUnexcepetdMsgTypeErr
  | selectErr
  | unexcepteServerSockaddr
  | addrErr
  | clientRecvNomatchedSessionIdErr
  | sockNotInit
  | error
  | success
  | timeout
  deriving DecidableEq, Repr

inductive MsgType where
  | discoveryMsg
  | responseMsg
  | requestMsg
  | negoMsg
  | negoEndMsg
  | waitMsg
  deriving DecidableEq, Repr

/-- The number that stands for a message type in the header. -/
def MsgType.code : MsgType → UInt32
  | discoveryMsg => 1
  | responseMsg => 2
  | requestMsg => 3
  | negoMsg => 4
  | negoEndMsg => 5
  | waitMsg => 6

/-- The `switch` of `decode` on the header's top byte. -/
def MsgType.ofCode : ℕ → Option MsgType
  | 1 => some discoveryMsg
  | 2 => some responseMsg
  | 3 => some requestMsg
  | 4 => some negoMsg
  | 5 => some negoEndMsg
  | 6 => some waitMsg
  | _ => none

/-- Bits of the session id in the header. -/
def sessionIdSize : UInt32 := 24

def maxSessionId : ℕ := 16777215

/-- `MAXSTRINGLENGTH`, the size of the buffers that hold a message's data. -/
def maxStringLength : ℕ := 1000

structure Msg where
  header : UInt32
  deviceId : UInt32
  data : CharArray (maxStringLength + 1)
  deriving DecidableEq

/-- `encode` over the message `msg`: `rand` is the answer of `generate_random`. -/
def encode (msg : Msg) (type : MsgType) (sessionId : UInt32) (data : Mem) (dataSize : ℕ)
    (rand : UInt32) : Errno × Msg :=
  if dataSize > maxStringLength then (.optionsTooLongErr, msg)
  else if sessionId.toNat > maxSessionId then (.sessionIdTooLongErr, msg)
  else (.success,
    { header := type.code <<< sessionIdSize ||| sessionId
      deviceId := rand
      data := (CharArray.zero _).memcpy (data.read 0 dataSize) })

/-- What `decode` writes to its output parameters. -/
structure Decoded where
  type : MsgType
  sessionId : UInt32
  data : CharArray maxStringLength
  dataSize : ℕ
  deriving DecidableEq

/-- The first `maxStringLength` bytes of the data field, which `decode` copies out. -/
def Msg.payload (msg : Msg) : CharArray maxStringLength :=
  ⟨msg.data.bytes.take maxStringLength, by rw [List.length_take, msg.data.length_eq]; simp⟩

/-- `decode`; on an error it leaves its output parameters alone. -/
def decode : Option Msg → Except Errno Decoded
  | none => .error .nullPointErr
  | some msg =>
    match MsgType.ofCode (msg.header >>> sessionIdSize).toNat with
    | none => .error .msgTypeErr
    | some type => .ok
      { type
        sessionId := msg.header - type.code <<< sessionIdSize
        data := msg.payload
        dataSize := maxStringLength + 1 }

theorem ne_success_of_decode {msg : Option Msg} {e : Errno} (h : decode msg = .error e) :
    e ≠ .success := by
  unfold decode at h
  split at h
  · cases h
    decide
  · split at h <;> cases h
    decide

/-! ## The header -/

@[simp] theorem MsgType.ofCode_code (t : MsgType) : ofCode t.code.toNat = some t := by
  cases t <;> rfl

theorem MsgType.ofCode_eq_some_iff {n : ℕ} {t : MsgType} :
    ofCode n = some t ↔ n = t.code.toNat := by
  constructor
  · intro h
    unfold ofCode at h
    split at h <;> simp_all <;> subst h <;> rfl
  · rintro rfl
    exact ofCode_code t

/-- The top byte of a header names a message type. -/
def HeaderTyped (msg : Msg) : Prop :=
  1 ≤ (msg.header >>> sessionIdSize).toNat ∧ (msg.header >>> sessionIdSize).toNat ≤ 6

theorem headerTyped_iff (msg : Msg) :
    HeaderTyped msg ↔ ∃ t : MsgType, (msg.header >>> sessionIdSize).toNat = t.code.toNat := by
  constructor
  · rintro ⟨h₁, h₂⟩
    interval_cases h : (msg.header >>> sessionIdSize).toNat
    exacts [⟨.discoveryMsg, rfl⟩, ⟨.responseMsg, rfl⟩, ⟨.requestMsg, rfl⟩, ⟨.negoMsg, rfl⟩,
      ⟨.negoEndMsg, rfl⟩, ⟨.waitMsg, rfl⟩]
  · rintro ⟨t, h⟩
    unfold HeaderTyped
    rw [h]
    cases t <;> decide

theorem toNat_code_shift (t : MsgType) :
    (t.code <<< sessionIdSize).toNat = t.code.toNat * 2 ^ 24 := by
  cases t <;> rfl

theorem toNat_header {t : MsgType} {sessionId : UInt32} (h : sessionId.toNat ≤ maxSessionId) :
    (t.code <<< sessionIdSize ||| sessionId).toNat = t.code.toNat * 2 ^ 24 + sessionId.toNat := by
  have hs : sessionId.toNat < 2 ^ 24 := by unfold maxSessionId at h; omega
  rw [UInt32.toNat_or, toNat_code_shift, ← Nat.shiftLeft_eq,
    Nat.shiftLeft_add_eq_or_of_lt hs]

theorem toNat_shiftRight_header (x : UInt32) : (x >>> sessionIdSize).toNat = x.toNat / 2 ^ 24 := by
  rw [UInt32.toNat_shiftRight, Nat.shiftRight_eq_div_pow]
  rfl

/-- The type and the session id can be read back from a header. -/
theorem header_split {t : MsgType} {sessionId : UInt32} (h : sessionId.toNat ≤ maxSessionId) :
    ((t.code <<< sessionIdSize ||| sessionId) >>> sessionIdSize).toNat = t.code.toNat ∧
      (t.code <<< sessionIdSize ||| sessionId) - t.code <<< sessionIdSize = sessionId := by
  have hs : sessionId.toNat < 2 ^ 24 := by unfold maxSessionId at h; omega
  refine ⟨?_, ?_⟩
  · rw [toNat_shiftRight_header, toNat_header h]
    omega
  · apply UInt32.toNat_inj.1
    rw [UInt32.toNat_sub_of_le, toNat_header h, toNat_code_shift]
    · omega
    · rw [UInt32.le_iff_toNat_le, toNat_header h, toNat_code_shift]
      omega

/-- A header with a known type is put together again from its two parts. -/
theorem header_join {x : UInt32} {t : MsgType} (h : (x >>> sessionIdSize).toNat = t.code.toNat) :
    (x - t.code <<< sessionIdSize).toNat ≤ maxSessionId ∧
      t.code <<< sessionIdSize ||| (x - t.code <<< sessionIdSize) = x := by
  rw [toNat_shiftRight_header] at h
  have hx : x.toNat < 2 ^ 32 := x.toNat_lt
  have hle : t.code <<< sessionIdSize ≤ x := by
    rw [UInt32.le_iff_toNat_le, toNat_code_shift]
    omega
  have hsub : (x - t.code <<< sessionIdSize).toNat ≤ maxSessionId := by
    rw [UInt32.toNat_sub_of_le _ _ hle, toNat_code_shift]
    unfold maxSessionId
    omega
  refine ⟨hsub, UInt32.toNat_inj.1 ?_⟩
  rw [toNat_header hsub, UInt32.toNat_sub_of_le _ _ hle, toNat_code_shift]
  omega

/-! ## Decoding what was encoded -/

theorem encode_eq_success_iff (msg : Msg) (type : MsgType) (sessionId : UInt32) (data : Mem)
    (dataSize : ℕ) (rand : UInt32) :
    (encode msg type sessionId data dataSize rand).1 = .success ↔
      dataSize ≤ maxStringLength ∧ sessionId.toNat ≤ maxSessionId := by
  unfold encode
  split_ifs with h₁ h₂ <;> simp <;> omega

theorem encode_error_untouched {msg : Msg} {type : MsgType} {sessionId : UInt32} {data : Mem}
    {dataSize : ℕ} {rand : UInt32}
    (h : (encode msg type sessionId data dataSize rand).1 ≠ .success) :
    (encode msg type sessionId data dataSize rand).2 = msg := by
  unfold encode at h ⊢
  split_ifs at h ⊢
  · rfl
  · rfl
  · exact absurd rfl h

theorem encode_of_le {msg : Msg} {type : MsgType} {sessionId : UInt32} {data : Mem}
    {dataSize : ℕ} {rand : UInt32} (hd : dataSize ≤ maxStringLength)
    (hs : sessionId.toNat ≤ maxSessionId) :
    encode msg type sessionId data dataSize rand =
      (.success, ⟨type.code <<< sessionIdSize ||| sessionId, rand,
        (CharArray.zero _).memcpy (data.read 0 dataSize)⟩) := by
  rw [encode, if_neg (by omega), if_neg (by omega)]

/-- The data of a message, padded with zeros to the size of a buffer. -/
def padded (data : Mem) (dataSize : ℕ) : CharArray maxStringLength :=
  (CharArray.zero _).memcpy (data.read 0 dataSize)

theorem padded_bytes (data : Mem) {dataSize : ℕ} (h : dataSize ≤ maxStringLength) :
    (padded data dataSize).bytes =
      data.read 0 dataSize ++ List.replicate (maxStringLength - dataSize) 0 := by
  rw [padded, CharArray.zero_memcpy_bytes (by simpa using h), Mem.length_read]

theorem payload_zero_memcpy (header rand : UInt32) (data : Mem) {dataSize : ℕ}
    (h : dataSize ≤ maxStringLength) :
    Msg.payload ⟨header, rand, (CharArray.zero _).memcpy (data.read 0 dataSize)⟩ =
      padded data dataSize := by
  apply CharArray.ext
  rw [padded_bytes data h]
  show List.take _ (CharArray.memcpy _ _).bytes = _
  rw [CharArray.zero_memcpy_bytes (by rw [Mem.length_read]; omega), Mem.length_read,
    List.take_append, Mem.length_read, List.take_of_length_le (by rw [Mem.length_read]; exact h),
    List.take_replicate]
  congr 2
  omega

/-- An accepted call of `encode`, decoded. -/
theorem decode_encode {msg : Msg} {type : MsgType} {sessionId : UInt32} {data : Mem}
    {dataSize : ℕ} {rand : UInt32} (hd : dataSize ≤ maxStringLength)
    (hs : sessionId.toNat ≤ maxSessionId) :
    decode (some (encode msg type sessionId data dataSize rand).2) =
      .ok ⟨type, sessionId, padded data dataSize, maxStringLength + 1⟩ := by
  obtain ⟨htype, hid⟩ := header_split (t := type) hs
  rw [encode_of_le hd hs, decode, htype, MsgType.ofCode_code, payload_zero_memcpy _ _ _ hd]
  simp only [hid]

/-- Decoding undoes encoding: `encode` fails exactly on a too long data block or session id, and
then leaves the message alone; otherwise `decode` gives back the type, the session id and the data
padded with zeros, so that different accepted calls give different messages. -/
theorem decode_encode_spec (msg : Msg) (type : MsgType) (sessionId : UInt32) (data : Mem)
    (dataSize : ℕ) (rand : UInt32) :
    ((encode msg type sessionId data dataSize rand).1 ≠ .success ↔
        dataSize > maxStringLength ∨ sessionId.toNat > maxSessionId) ∧
    ((encode msg type sessionId data dataSize rand).1 ≠ .success →
        (encode msg type sessionId data dataSize rand).2 = msg) ∧
    ((encode msg type sessionId data dataSize rand).1 = .success →
        ∃ d, decode (some (encode msg type sessionId data dataSize rand).2) = .ok d ∧
          d.type = type ∧ d.sessionId = sessionId ∧
          d.data.bytes = data.read 0 dataSize ++ List.replicate (maxStringLength - dataSize) 0) ∧
    ∀ (msg' : Msg) (type' : MsgType) (sessionId' : UInt32) (data' : Mem) (dataSize' : ℕ)
        (rand' : UInt32),
      (encode msg type sessionId data dataSize rand).1 = .success →
      (encode msg' type' sessionId' data' dataSize' rand').1 = .success →
      (type, sessionId, padded data dataSize) ≠ (type', sessionId', padded data' dataSize') →
      ((encode msg type sessionId data dataSize rand).2.header,
          (encode msg type sessionId data dataSize rand).2.data) ≠
        ((encode msg' type' sessionId' data' dataSize' rand').2.header,
          (encode msg' type' sessionId' data' dataSize' rand').2.data) := by
  refine ⟨?_, encode_error_untouched, ?_, ?_⟩
  · rw [Ne, encode_eq_success_iff]
    omega
  · intro h
    obtain ⟨hd, hs⟩ := (encode_eq_success_iff ..).1 h
    exact ⟨_, decode_encode hd hs, rfl, rfl, padded_bytes data hd⟩
  · intro msg' type' sessionId' data' dataSize' rand' h h' hne heq
    obtain ⟨hd, hs⟩ := (encode_eq_success_iff ..).1 h
    obtain ⟨hd', hs'⟩ := (encode_eq_success_iff ..).1 h'
    -- `decode` does not look at the device id, so equal header and data decode alike.
    have same : decode (some (encode msg type sessionId data dataSize rand).2) =
        decode (some (encode msg' type' sessionId' data' dataSize' rand').2) := by
      obtain ⟨hh, hdata⟩ := Prod.mk.inj heq
      simp only [decode, Msg.payload, hh, hdata]
    rw [decode_encode hd hs, decode_encode hd' hs'] at same
    obtain ⟨rfl, rfl, hp, -⟩ := Decoded.mk.inj (Except.ok.inj same)
    exact hne (by rw [hp])

/-! ## Encoding what was decoded -/

/-- `decode` accepts `msg` exactly when its top byte is a type code, and what it reports can be
encoded again to the same header and data. -/
def Reencodes (msg : Msg) : Prop :=
  ((∃ d, decode (some msg) = .ok d) ↔ HeaderTyped msg) ∧
    ∀ d, decode (some msg) = .ok d → ∀ (msg' : Msg) (after : Mem) (rand : UInt32),
      (encode msg' d.type d.sessionId (d.data.mem after) d.dataSize rand).1 = .success ∧
      (encode msg' d.type d.sessionId (d.data.mem after) d.dataSize rand).2.header = msg.header ∧
      (encode msg' d.type d.sessionId (d.data.mem after) d.dataSize rand).2.payload = msg.payload

theorem decode_eq_ok_iff {msg : Msg} {d : Decoded} :
    decode (some msg) = .ok d ↔ (msg.header >>> sessionIdSize).toNat = d.type.code.toNat ∧
      d.sessionId = msg.header - d.type.code <<< sessionIdSize ∧ d.data = msg.payload ∧
      d.dataSize = maxStringLength + 1 := by
  rcases h : MsgType.ofCode (msg.header >>> sessionIdSize).toNat with _ | t
  · simp only [decode, h, reduceCtorEq, false_iff]
    rintro ⟨e, -⟩
    rw [e, MsgType.ofCode_code] at h
    cases h
  · have ht := MsgType.ofCode_eq_some_iff.1 h
    obtain ⟨type, sessionId, data, dataSize⟩ := d
    simp only [decode, h, Except.ok.injEq, Decoded.mk.injEq]
    constructor
    · rintro ⟨rfl, rfl, rfl, rfl⟩
      exact ⟨ht, rfl, rfl, rfl⟩
    · rintro ⟨e, rfl, rfl, rfl⟩
      obtain rfl : t = type := by
        rw [e, MsgType.ofCode_code] at h
        exact (Option.some.inj h).symm
      exact ⟨rfl, rfl, rfl, rfl⟩

theorem decode_isOk_iff (msg : Msg) : (∃ d, decode (some msg) = .ok d) ↔ HeaderTyped msg := by
  rw [headerTyped_iff]
  constructor
  · rintro ⟨d, hd⟩
    exact ⟨d.type, (decode_eq_ok_iff.1 hd).1⟩
  · rintro ⟨t, ht⟩
    exact ⟨⟨t, msg.header - t.code <<< sessionIdSize, msg.payload, maxStringLength + 1⟩,
      decode_eq_ok_iff.2 ⟨ht, rfl, rfl, rfl⟩⟩

/-- With the size of the buffer in place of the reported size, encoding does undo decoding. -/
theorem encode_decode_maxStringLength {msg : Msg} {d : Decoded} (h : decode (some msg) = .ok d)
    (msg' : Msg) (after : Mem) (rand : UInt32) :
    encode msg' d.type d.sessionId (d.data.mem after) maxStringLength rand =
      (.success, { header := msg.header, deviceId := rand,
                   data := (CharArray.zero _).memcpy msg.payload.bytes }) := by
  obtain ⟨htype, hid, hdata, -⟩ := decode_eq_ok_iff.1 h
  obtain ⟨hle, hjoin⟩ := header_join htype
  rw [encode_of_le le_rfl (by rw [hid]; exact hle), hid, hjoin, hdata,
    CharArray.read_mem _ _ (by omega), List.drop_zero,
    List.take_of_length_le (by rw [msg.payload.length_eq])]

/-- No message that `decode` accepts can be encoded again from what `decode` reports: the reported
size is `sizeof` the data field and always one too long for `encode`. -/
theorem reencodes_iff (msg : Msg) : Reencodes msg ↔ ¬ HeaderTyped msg := by
  constructor
  · rintro ⟨-, h⟩ htyped
    obtain ⟨d, hd⟩ := (decode_isOk_iff msg).2 htyped
    obtain ⟨hsucc, -⟩ := h d hd msg (fun _ => 0) 0
    have hle := ((encode_eq_success_iff ..).1 hsucc).1
    rw [(decode_eq_ok_iff.1 hd).2.2.2] at hle
    omega
  · intro htyped
    refine ⟨decode_isOk_iff msg, fun d hd => ?_⟩
    exact absurd ((decode_isOk_iff msg).1 ⟨d, hd⟩) htyped

/-- An empty REQUEST_MSG of session `0` is decoded and cannot be encoded again. -/
theorem not_reencodes_request : ¬ Reencodes ⟨0x03000000, 0, CharArray.zero _⟩ := by
  rintro ⟨-, h⟩
  have hd : decode (some ⟨0x03000000, 0, CharArray.zero _⟩) =
      .ok ⟨.requestMsg, 0, Msg.payload ⟨0x03000000, 0, CharArray.zero _⟩, 1001⟩ := rfl
  obtain ⟨hsucc, -⟩ := h _ hd ⟨0, 0, CharArray.zero _⟩ (fun _ => 0) 0
  exact absurd hsucc (by decide)

end Gdnp
