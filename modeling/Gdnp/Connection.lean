import Gdnp.Options

/-!
# Writing and reading PDUs over TCP

`write_pdu` encodes a message and hands it to `write`; `read_pdu` decodes a message that has
arrived.  What the system calls do is an input: a message is on the connection exactly when
`write_pdu` succeeds, and reading it gives what was written (`decode_of_writePdu`).
-/

open CMem

namespace Gdnp

/-- Inputs of one `write_pdu`: the code that follows from the outcome of `write`, and the answer of
`generate_random`. -/
structure WriteEnv where
  outcome : Errno
  rand : UInt32

/-- `write_pdu` of a block of bytes: the return code, and the message that is on the connection
when it succeeds. -/
def writePdu (data : List UInt8) (type : MsgType) (sessionId : UInt32) (env : WriteEnv) :
    Errno × Option Msg :=
  let pdu := encode ⟨0, 0, CharArray.zero _⟩ type sessionId (memOf data fun _ => 0) data.length
    env.rand
  if pdu.1 ≠ .success then (.encodeErr, none)
  else if env.outcome = .success then (.success, some pdu.2)
  else (env.outcome, none)

/-- `write_pdu` accepts the size of the data and the session id. -/
def Writable (data : List UInt8) (sessionId : UInt32) : Prop :=
  data.length ≤ maxStringLength ∧ sessionId.toNat ≤ maxSessionId

theorem writePdu_success_iff {data : List UInt8} {type : MsgType} {sessionId : UInt32}
    {env : WriteEnv} :
    (writePdu data type sessionId env).1 = .success ↔
      Writable data sessionId ∧ env.outcome = .success := by
  unfold writePdu Writable
  rw [← encode_eq_success_iff ⟨0, 0, CharArray.zero _⟩ type sessionId (memOf data fun _ => 0)
    data.length env.rand]
  dsimp only
  split_ifs with h₁ h₂ <;> simp_all

theorem writePdu_isSome_iff {data : List UInt8} {type : MsgType} {sessionId : UInt32}
    {env : WriteEnv} :
    (writePdu data type sessionId env).2.isSome ↔
      (writePdu data type sessionId env).1 = .success := by
  unfold writePdu
  dsimp only
  split_ifs <;> simp_all

theorem eq_success_of_writePdu {data : List UInt8} {type : MsgType} {sessionId : UInt32}
    {env : WriteEnv} {e : Errno} {msg : Msg}
    (h : writePdu data type sessionId env = (e, some msg)) : e = .success := by
  have hsome : (writePdu data type sessionId env).2.isSome := by rw [h]; rfl
  rw [writePdu_isSome_iff, h] at hsome
  exact hsome

theorem ne_success_of_writePdu {data : List UInt8} {type : MsgType} {sessionId : UInt32}
    {env : WriteEnv} {e : Errno} (h : writePdu data type sessionId env = (e, none)) :
    e ≠ .success := by
  intro he
  have hsome : (writePdu data type sessionId env).2.isSome := by
    rw [writePdu_isSome_iff, h]
    exact he
  rw [h] at hsome
  cases hsome

/-- Reading a message gives what was written. -/
theorem decode_of_writePdu {data : List UInt8} {type : MsgType} {sessionId : UInt32}
    {env : WriteEnv} {msg : Msg} (h : (writePdu data type sessionId env).2 = some msg) :
    Writable data sessionId ∧ decode (some msg) =
      .ok ⟨type, sessionId, (CharArray.zero _).memcpy data, maxStringLength + 1⟩ := by
  have hsucc : (writePdu data type sessionId env).1 = .success := by
    rw [← writePdu_isSome_iff, h]
    rfl
  obtain ⟨hw, ho⟩ := writePdu_success_iff.1 hsucc
  refine ⟨hw, ?_⟩
  have henc := (encode_eq_success_iff ⟨0, 0, CharArray.zero _⟩ type sessionId
    (memOf data fun _ => 0) data.length env.rand).2 hw
  unfold writePdu at h
  dsimp only at h
  rw [if_neg (not_not.2 henc), if_pos ho] at h
  rw [← Option.some.inj h, decode_encode hw.1 hw.2, padded, read_memOf_length]

theorem payload_of_writePdu {data : List UInt8} {type : MsgType} {sessionId : UInt32}
    {env : WriteEnv} {msg : Msg} (h : (writePdu data type sessionId env).2 = some msg) :
    msg.payload = (CharArray.zero _).memcpy data := by
  obtain ⟨-, -, hdata, -⟩ := decode_eq_ok_iff.1 (decode_of_writePdu h).2
  exact hdata.symm

/-- A whole buffer is sent as it is. -/
theorem payload_of_writePdu_bytes {a : CharArray maxStringLength} {type : MsgType}
    {sessionId : UInt32} {env : WriteEnv} {msg : Msg}
    (h : (writePdu a.bytes type sessionId env).2 = some msg) : msg.payload = a :=
  (payload_of_writePdu h).trans (CharArray.memcpy_bytes_self _ a)

end Gdnp
