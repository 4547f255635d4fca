import Gdnp.Lib.EventMachine
import Gdnp.Wire

/-!
# PDUs on a byte stream

TCP delivers the written bytes in order, but a `read` may return any number of them.  `read_pdu`
takes what one `read` returns for a whole PDU, so a PDU that arrives in two pieces is read as two
(`not_framed`).  If each `read` returns a whole PDU, the PDUs are read as they were written
(`framed`).
-/

open CMem

namespace Gdnp

/-- What `write_pdu` is given and `read_pdu` reports; shorter data is padded with zeros. -/
structure Pdu where
  type : MsgType
  sessionId : UInt32
  data : CharArray maxStringLength
  deriving DecidableEq

def Decoded.pdu (d : Decoded) : Pdu := ⟨d.type, d.sessionId, d.data⟩

/-- A call of `write_pdu`, or of `read_pdu` whose `read` returns `n` bytes while `pdu_buf` holds
`stale`. -/
inductive StreamAct where
  | write (data : List UInt8) (type : MsgType) (sessionId : UInt32) (env : WriteEnv)
  | read (n : ℕ) (stale : CharArray msgSize)

inductive StreamEvent where
  | wrote (pdu : Pdu)
  | readPdu (outcome : Except Errno Decoded)

namespace StreamEvent

def wrote? : StreamEvent → Option Pdu
  | wrote pdu => some pdu
  | readPdu _ => none

/-- What a successful `read_pdu` reports. -/
def read? : StreamEvent → Option Pdu
  | readPdu (.ok d) => some d.pdu
  | wrote _ | readPdu (.error _) => none

end StreamEvent

/-- A step of a connection; the state is the bytes that were written and not yet read, and `sock`
the descriptor of the reader. -/
def streamStep (o : ByteOrder) (sock : ℕ) (pending : List UInt8) :
    StreamAct → Option (List UInt8 × List StreamEvent)
  | .write data type sessionId env =>
    match (writePdu data type sessionId env).2 with
    | none => some (pending, [])
    | some msg => some (pending ++ (msg.toBytes o).bytes,
        [.wrote ⟨type, sessionId, (CharArray.zero _).memcpy data⟩])
  | .read n stale =>
    if 0 < n ∧ n ≤ msgSize ∧ n ≤ pending.length then
      some (pending.drop n,
        [.readPdu (recvPdu sock (some (pduBuf o stale (pending.take n))))])
    else none

/-- A connection as a machine. -/
def stream (o : ByteOrder) (sock : ℕ) : EventMachine (List UInt8) StreamAct StreamEvent :=
  ⟨streamStep o sock⟩

/-- The PDUs that were read are the first of those that were written, and all of them when no byte
is left. -/
def Framed (pending : List UInt8) (es : List StreamEvent) : Prop :=
  es.filterMap StreamEvent.read? <+: es.filterMap StreamEvent.wrote? ∧
    (pending = [] → es.filterMap StreamEvent.read? = es.filterMap StreamEvent.wrote?)

/-- A `read` returns a whole PDU. -/
def ReadsWhole (_ : List UInt8) : StreamAct → Prop
  | .read n _ => n = msgSize
  | .write .. => True

instance (pending : List UInt8) : DecidablePred (ReadsWhole pending)
  | .read _ _ => inferInstanceAs (Decidable (_ = _))
  | .write .. => inferInstanceAs (Decidable True)

section

variable {o : ByteOrder} {sock : ℕ} {pending pending' : List UInt8} {a : StreamAct}
  {es es' : List StreamEvent}

/-- A message in memory that holds the given PDU. -/
def Msg.Holds (msg : Msg) (pdu : Pdu) : Prop :=
  ∃ d, decode (some msg) = .ok d ∧ d.pdu = pdu

/-- The bytes that are not yet read are those of messages with the PDUs that are not yet read. -/
def Aligned (o : ByteOrder) (pending : List UInt8) (es : List StreamEvent) : Prop :=
  ∃ msgs pdus, pending = msgs.flatMap (fun msg : Msg => (msg.toBytes o).bytes) ∧
    List.Forall₂ Msg.Holds msgs pdus ∧
    es.filterMap StreamEvent.wrote? = es.filterMap StreamEvent.read? ++ pdus

theorem Aligned.framed_of_read (h : Aligned o pending es) : Framed pending es := by
  obtain ⟨msgs, pdus, rfl, hholds, hes⟩ := h
  refine ⟨⟨pdus, hes.symm⟩, fun hnil => ?_⟩
  cases hholds with
  | nil => rw [hes, List.append_nil]
  | cons h₁ h₂ =>
    rename_i msg _ _ _
    have hlen := congrArg List.length hnil
    rw [List.flatMap_cons, List.length_append, (msg.toBytes o).length_eq] at hlen
    simp [msgSize] at hlen

/-- A whole message is read as it was written, whatever `pdu_buf` held. -/
theorem pduBuf_toBytes (stale : CharArray msgSize) (msg : Msg) :
    pduBuf o stale (msg.toBytes o).bytes = msg := by
  rw [pduBuf, CharArray.memcpy_bytes_self, Msg.ofBytes_toBytes]

theorem step_aligned (h : streamStep o sock pending a = some (pending', es'))
    (ha : ReadsWhole pending a) (hs : Aligned o pending es) : Aligned o pending' (es ++ es') := by
  obtain ⟨msgs, pdus, rfl, hholds, hes⟩ := hs
  cases a with
  | write data type sessionId env =>
    rw [streamStep] at h
    rcases hw : (writePdu data type sessionId env).2 with _ | msg
    · rw [hw] at h
      cases h
      exact ⟨msgs, pdus, rfl, hholds, by rw [List.append_nil, hes]⟩
    · rw [hw] at h
      cases h
      refine ⟨msgs ++ [msg], pdus ++ [⟨type, sessionId, (CharArray.zero _).memcpy data⟩],
        by simp, ?_, ?_⟩
      · exact List.rel_append hholds (.cons ⟨_, (decode_of_writePdu hw).2, rfl⟩ .nil)
      · rw [List.filterMap_append, List.filterMap_append, hes]
        simp [StreamEvent.wrote?, StreamEvent.read?]
  | read n stale =>
    obtain rfl : n = msgSize := ha
    rw [streamStep] at h
    split_ifs at h with hn
    cases h
    cases hholds with
    | nil => simp [msgSize] at hn
    | cons h₁ h₂ =>
      rename_i msg pdu msgs pdus
      obtain ⟨d, hd, rfl⟩ := h₁
      have hlen := (msg.toBytes o).length_eq
      have hread : recvPdu sock (some (pduBuf o stale
          ((List.flatMap (fun msg => (msg.toBytes o).bytes) (msg :: msgs)).take msgSize))) =
          .ok d := by
        rw [List.flatMap_cons, List.take_left' hlen, pduBuf_toBytes, recvPdu_some (by omega), hd]
      refine ⟨msgs, pdus, by rw [List.flatMap_cons, List.drop_left' hlen], h₂, ?_⟩
      rw [List.filterMap_append, List.filterMap_append, hes, hread]
      simp [StreamEvent.wrote?, StreamEvent.read?]

/-- If each `read` returns a whole PDU, then at any time the PDUs read are the first of those
written, and all of them once all bytes have arrived. -/
theorem framed {as : List StreamAct} (hok : (stream o sock).Guarded ReadsWhole [] as)
    (hrun : (stream o sock).run [] as = some (pending, es)) : Framed pending es := by
  have halign : Aligned o pending ([] ++ es) :=
    EventMachine.run_preserves_trace (P := Aligned o) (t := [])
      (fun _ _ _ _ _ hs ha h => step_aligned h ha hs) ⟨[], [], rfl, .nil, rfl⟩ hok hrun
  exact halign.framed_of_read

end

/-- A REQUEST_MSG of which the first `read` returns only the header. -/
theorem not_framed :
    ¬ ∀ (o : ByteOrder) (sock : ℕ) (as : List StreamAct) (pending : List UInt8)
        (es : List StreamEvent),
      (stream o sock).run [] as = some (pending, es) → Framed pending es := by
  intro h
  have hsample : ((stream .little 3).run []
      [.write [6, 0] .requestMsg 0 ⟨.success, 0⟩, .read 4 (.zero _)]).map
      (fun r => decide (r.2.filterMap StreamEvent.read? <+: r.2.filterMap StreamEvent.wrote?)) =
      some false := by decide +kernel
  obtain ⟨⟨pending, es⟩, hrun, hs⟩ := Option.map_eq_some_iff.1 hsample
  exact of_decide_eq_false hs (h _ _ _ _ _ hrun).1

/-- Two PDUs, read one after the other. -/
theorem framed_two :
    ∃ pending es, (stream .little 3).run []
        [.write [6, 0] .requestMsg 0 ⟨.success, 0⟩, .write [1, 0] .negoEndMsg 0 ⟨.success, 0⟩,
          .read msgSize (.zero _), .read msgSize (.zero _)] = some (pending, es) ∧
      Framed pending es := by
  have hsample : ((stream .little 3).run []
      [.write [6, 0] .requestMsg 0 ⟨.success, 0⟩, .write [1, 0] .negoEndMsg 0 ⟨.success, 0⟩,
        .read msgSize (.zero _), .read msgSize (.zero _)]).isSome = true := by decide +kernel
  obtain ⟨⟨pending, es⟩, hrun⟩ := Option.isSome_iff_exists.1 hsample
  exact ⟨pending, es, hrun, framed (by decide +kernel) hrun⟩

end Gdnp
