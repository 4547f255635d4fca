import Gdnp.Connection

/-!
# PDUs over UDP

`send_pdu` and `recv_pdu` are `write_pdu` and `read_pdu` on a datagram socket.  All four refuse a
socket that was never opened.
-/

open CMem

namespace Gdnp

/-- The address and the port of a `sockaddr_in6`. -/
structure SockAddr where
  addr : BitVec 128
  port : UInt16
  deriving DecidableEq

/-- `send_pdu`: the return code, and the message that is sent when it succeeds. -/
def sendPdu (udpSock : ℤ) (data : List UInt8) (type : MsgType) (sessionId : UInt32)
    (env : WriteEnv) : Errno × Option Msg :=
  if udpSock < 0 then (.sockNotInit, none) else writePdu data type sessionId env

/-- `recv_pdu` and `read_pdu`: `none` is a failing `recvfrom` or `read`, and otherwise `pdu` is what
`pdu_buf` holds after it. -/
def recvPdu (sock : ℤ) (pdu : Option Msg) : Except Errno Decoded :=
  if sock < 0 then .error .sockNotInit
  else match pdu with
    | none => .error .recvErr
    | some msg => decode (some msg)

theorem ne_success_of_recvPdu {sock : ℤ} {pdu : Option Msg} {e : Errno}
    (h : recvPdu sock pdu = .error e) : e ≠ .success := by
  unfold recvPdu at h
  split_ifs at h
  · cases h
    decide
  · cases pdu with
    | none =>
      cases h
      decide
    | some msg => exact ne_success_of_decode h

theorem ne_timeout_of_recvPdu {sock : ℤ} {pdu : Option Msg} {e : Errno}
    (h : recvPdu sock pdu = .error e) : e ≠ .timeout := by
  unfold recvPdu decode at h
  split at h
  · cases h
    decide
  · split at h
    · cases h
      decide
    · dsimp only at h
      split at h <;> cases h
      decide

/-- The C string at the start of a block, when `behind` is what follows the block up to the next
zero byte. -/
def textAt (block : List UInt8) (behind : CString) : CString where
  bytes := if 0 ∈ block then cstr block else block ++ behind.bytes
  zero_notMem := by
    split_ifs with h
    · exact zero_notMem_cstr block
    · rw [List.mem_append, not_or]
      exact ⟨h, behind.zero_notMem⟩

end Gdnp
