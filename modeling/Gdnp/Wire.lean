import Gdnp.Datagram

/-!
# PDUs as bytes

`write` and `sendto` send the memory of a `msg`, with the words in the byte order of the host and
the padding of the structure (`Msg.toBytes`).  `read` and `recvfrom` put what they deliver over the
start of `pdu_buf`, which is not initialised; `recv_pdu` and `read_pdu` look at the whole of it
(`pduBuf`), as they check only for a negative length.

So what they report depends on the received bytes alone only if the payload is complete or the type
of the message is among these bytes and wrong (`determined_iff`).
-/

open CMem

namespace Gdnp

/-- `sizeof(msg)`: the fields, and three bytes of padding. -/
def msgSize : ℕ := 1012

/-- Bytes of a `msg` in front of its data. -/
def msgHeadSize : ℕ := 8

/-- The memory of a `msg` that `encode` has cleared and filled. -/
def Msg.toBytes (o : ByteOrder) (msg : Msg) : CharArray msgSize where
  bytes := o.toBytes 4 msg.header.toNat ++ o.toBytes 4 msg.deviceId.toNat ++ msg.data.bytes ++
    List.replicate 3 0
  length_eq := by simp [msg.data.length_eq, maxStringLength, msgSize]

/-- The `msg` in a block of memory. -/
def Msg.ofBytes (o : ByteOrder) (mem : CharArray msgSize) : Msg where
  header := UInt32.ofNat (o.ofBytes (mem.bytes.take 4))
  deviceId := UInt32.ofNat (o.ofBytes ((mem.bytes.drop 4).take 4))
  data := ⟨(mem.bytes.drop msgHeadSize).take (maxStringLength + 1), by
    simp [mem.length_eq, maxStringLength, msgSize, msgHeadSize]⟩

/-- What `pdu_buf` holds after a `read` or `recvfrom` that delivers `bytes`, when it held `stale`
before. -/
def pduBuf (o : ByteOrder) (stale : CharArray msgSize) (bytes : List UInt8) : Msg :=
  .ofBytes o (stale.memcpy bytes)

/-- A message in the memory of another host. -/
theorem Msg.ofBytes_toBytes_of (o o' : ByteOrder) (msg : Msg) :
    Msg.ofBytes o' (msg.toBytes o) =
      ⟨UInt32.ofNat (o'.ofBytes (o.toBytes 4 msg.header.toNat)),
        UInt32.ofNat (o'.ofBytes (o.toBytes 4 msg.deviceId.toNat)), msg.data⟩ := by
  have hlen := msg.data.length_eq
  have h₀ : (msg.toBytes o).bytes.take 4 = o.toBytes 4 msg.header.toNat := by
    simp [toBytes]
  have h₁ : ((msg.toBytes o).bytes.drop 4).take 4 = o.toBytes 4 msg.deviceId.toNat := by
    simp [toBytes]
  have h₂ : ((msg.toBytes o).bytes.drop msgHeadSize).take (maxStringLength + 1) =
      msg.data.bytes := by
    simp [toBytes, msgHeadSize, List.drop_append, List.take_append, hlen]
  simp only [ofBytes, h₀, h₁, h₂]

theorem Msg.ofBytes_toBytes (o : ByteOrder) (msg : Msg) : Msg.ofBytes o (msg.toBytes o) = msg := by
  rw [ofBytes_toBytes_of, ByteOrder.ofBytes_toBytes_of_lt o msg.header.toNat_lt,
    ByteOrder.ofBytes_toBytes_of_lt o msg.deviceId.toNat_lt, UInt32.ofNat_toNat,
    UInt32.ofNat_toNat]

/-- `read_pdu` looks at nothing but the header and the payload. -/
theorem decode_congr {msg msg' : Msg} (hheader : msg.header = msg'.header)
    (hpayload : msg.payload = msg'.payload) : decode (some msg) = decode (some msg') := by
  rw [decode, decode, hheader, hpayload]

theorem payload_ofBytes (o : ByteOrder) (mem : CharArray msgSize) :
    (Msg.ofBytes o mem).payload.bytes = (mem.bytes.drop msgHeadSize).take maxStringLength := by
  show List.take _ (List.take _ _) = _
  rw [List.take_take, Nat.min_eq_left (Nat.le_succ _)]

theorem recvPdu_some {sock : ℤ} (h : ¬ sock < 0) (msg : Msg) :
    recvPdu sock (some msg) = decode (some msg) := by
  rw [recvPdu, if_neg h]

/-- Behind a complete payload nothing of the old contents is left that matters. -/
theorem pduBuf_congr {o : ByteOrder} {bytes : List UInt8}
    (h : msgHeadSize + maxStringLength ≤ bytes.length) (stale stale' : CharArray msgSize) :
    decode (some (pduBuf o stale bytes)) = decode (some (pduBuf o stale' bytes)) := by
  have hfront (stale : CharArray msgSize) :
      (stale.memcpy bytes).bytes.take (msgHeadSize + maxStringLength) =
        bytes.take (msgHeadSize + maxStringLength) := by
    rw [CharArray.memcpy, List.take_take, Nat.min_eq_left (by decide),
      List.take_append_of_le_length h]
  have hhead (stale : CharArray msgSize) : (stale.memcpy bytes).bytes.take 4 = bytes.take 4 := by
    have := congrArg (List.take 4) (hfront stale)
    rwa [List.take_take, List.take_take] at this
  apply decode_congr
  · rw [pduBuf, pduBuf, Msg.ofBytes, Msg.ofBytes, hhead, hhead]
  · apply CharArray.ext
    rw [pduBuf, pduBuf, payload_ofBytes, payload_ofBytes, List.take_drop, List.take_drop,
      hfront, hfront]

/-- The type of the message is in the most significant byte of the header. -/
theorem typeCode_pduBuf {o : ByteOrder} {stale : CharArray msgSize} {bytes : List UInt8}
    {b : UInt8} (h : (stale.memcpy bytes).bytes[o.top 3]? = some b) :
    ((pduBuf o stale bytes).header >>> sessionIdSize).toNat = b.toNat := by
  have hlen : ((stale.memcpy bytes).bytes.take 4).length = 3 + 1 := by
    rw [List.length_take, (stale.memcpy bytes).length_eq]
    decide
  have hb : ((stale.memcpy bytes).bytes.take 4)[o.top 3]? = some b := by
    rw [List.getElem?_take_of_lt (Nat.lt_succ_of_le (o.top_le 3)), h]
  have hlt : o.ofBytes ((stale.memcpy bytes).bytes.take 4) < 2 ^ 32 := by
    have := o.ofBytes_lt ((stale.memcpy bytes).bytes.take 4)
    rwa [hlen] at this
  rw [toNat_shiftRight_header, pduBuf, Msg.ofBytes, UInt32.toNat_ofNat', Nat.mod_eq_of_lt hlt]
  exact o.ofBytes_div hlen hb

theorem decode_of_wrong_type {msg : Msg}
    (h : MsgType.ofCode (msg.header >>> sessionIdSize).toNat = none) :
    decode (some msg) = .error .msgTypeErr := by
  rw [decode, h]

/-! ## What a truncated PDU is taken for -/

/-- Whatever `pdu_buf` held before, `recv_pdu` and `read_pdu` report the same when `bytes` are
delivered. -/
def Determined (o : ByteOrder) (sock : ℤ) (bytes : List UInt8) : Prop :=
  ∀ stale stale', recvPdu sock (some (pduBuf o stale bytes)) =
    recvPdu sock (some (pduBuf o stale' bytes))

/-- The type of the message is among the delivered bytes, and wrong. -/
def WrongType (o : ByteOrder) (bytes : List UInt8) : Prop :=
  ∃ b, bytes[o.top 3]? = some b ∧ MsgType.ofCode b.toNat = none

theorem top_lt_msgSize (o : ByteOrder) : o.top 3 < msgSize :=
  lt_of_le_of_lt (o.top_le 3) (by decide)

theorem decode_of_wrongType {o : ByteOrder} {bytes : List UInt8} (h : WrongType o bytes)
    (stale : CharArray msgSize) :
    decode (some (pduBuf o stale bytes)) = .error .msgTypeErr := by
  obtain ⟨b, hb, hcode⟩ := h
  have hlt : o.top 3 < bytes.length := (List.getElem?_eq_some_iff.1 hb).1
  apply decode_of_wrong_type
  rw [typeCode_pduBuf (b := b), hcode]
  rw [CharArray.getElem?_memcpy_of_lt _ _ hlt (top_lt_msgSize o), hb]

/-- What is missing of the payload shows in the decoded data. -/
theorem data_of_truncated {o : ByteOrder} {bytes : List UInt8} {d : Decoded} (b : UInt8)
    (h : bytes.length < msgHeadSize + maxStringLength)
    (hd : decode (some (pduBuf o (.filled _ b) bytes)) = .ok d) :
    d.data.bytes[maxStringLength - 1]? = some b := by
  obtain ⟨-, -, hdata, -⟩ := decode_eq_ok_iff.1 hd
  have hle : bytes.length ≤ msgHeadSize + (maxStringLength - 1) := Nat.le_of_lt_succ h
  rw [hdata, pduBuf, payload_ofBytes, List.getElem?_take_of_lt (by decide), List.getElem?_drop,
    CharArray.getElem?_memcpy_of_le _ _ hle (by decide), CharArray.getElem?_filled (by decide)]

/-- The type that is read in old contents. -/
theorem typeCode_of_typeless {o : ByteOrder} {bytes : List UInt8} (h : bytes.length ≤ o.top 3)
    (b : UInt8) : ((pduBuf o (.filled _ b) bytes).header >>> sessionIdSize).toNat = b.toNat := by
  apply typeCode_pduBuf
  rw [CharArray.getElem?_memcpy_of_le _ _ h (top_lt_msgSize o),
    CharArray.getElem?_filled (top_lt_msgSize o)]

/-- If the type is not delivered, old zeros are no type, but old ones are. -/
theorem decode_ne_of_typeless {o : ByteOrder} {bytes : List UInt8} (h : bytes.length ≤ o.top 3) :
    decode (some (pduBuf o (.filled _ 0) bytes)) ≠
      decode (some (pduBuf o (.filled _ 1) bytes)) := by
  intro heq
  rw [decode_of_wrong_type (by rw [typeCode_of_typeless h]; rfl), decode,
    typeCode_of_typeless h] at heq
  cases heq

/-- If a right type is delivered, what is missing of the payload makes the difference. -/
theorem decode_ne_of_truncated {o : ByteOrder} {bytes : List UInt8} {b : UInt8} {type : MsgType}
    (h : bytes.length < msgHeadSize + maxStringLength) (hb : bytes[o.top 3]? = some b)
    (hcode : MsgType.ofCode b.toNat = some type) :
    decode (some (pduBuf o (.filled _ 0) bytes)) ≠
      decode (some (pduBuf o (.filled _ 1) bytes)) := by
  intro heq
  have hlt : o.top 3 < bytes.length := (List.getElem?_eq_some_iff.1 hb).1
  have hok : ∃ d, decode (some (pduBuf o (.filled _ 0) bytes)) = .ok d := by
    rw [decode, typeCode_pduBuf (b := b), hcode]
    · exact ⟨_, rfl⟩
    · rw [CharArray.getElem?_memcpy_of_lt _ _ hlt (top_lt_msgSize o), hb]
  obtain ⟨d, hd⟩ := hok
  have h0 := data_of_truncated 0 h hd
  have h1 := data_of_truncated 1 h (heq.symm.trans hd)
  cases h0.symm.trans h1

/-- The result of `recv_pdu` and `read_pdu` depends on the delivered bytes alone exactly when the
socket was never opened, the payload is complete, or a wrong type was delivered. -/
theorem determined_iff (o : ByteOrder) (sock : ℤ) (bytes : List UInt8) :
    Determined o sock bytes ↔
      sock < 0 ∨ msgHeadSize + maxStringLength ≤ bytes.length ∨ WrongType o bytes := by
  by_cases hsock : sock < 0
  · simp [Determined, recvPdu, hsock]
  simp only [Determined, recvPdu_some hsock, hsock, false_or]
  constructor
  · intro h
    by_contra! hn
    obtain ⟨hshort, htype⟩ := hn
    rcases hb : bytes[o.top 3]? with _ | b
    · exact decode_ne_of_typeless (List.getElem?_eq_none_iff.1 hb) (h _ _)
    · rcases hcode : MsgType.ofCode b.toNat with _ | t
      · exact htype ⟨b, hb, hcode⟩
      · exact decode_ne_of_truncated hshort hb hcode (h _ _)
  · rintro (hfull | htype) stale stale'
    · exact pduBuf_congr hfull stale stale'
    · rw [decode_of_wrongType htype, decode_of_wrongType htype]

/-- At the end of the stream `read` delivers nothing, and `read_pdu` reports what `pdu_buf`
happened to hold. -/
theorem not_determined_end : ¬ Determined .little 3 [] := by
  intro h
  have h01 := h (.filled _ 0) (.filled _ 1)
  revert h01
  decide +kernel

end Gdnp
