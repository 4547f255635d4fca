import Gdnp.Leftover
import Gdnp.Session

/-!
# Values from one ASA to the other

A value that one ASA gives to its API reaches the other as a pointer into a block of `sizeof(len)`
bytes that `parse_bits` fills without a terminator.  Whichever message carries it (`Handed`), all
its bytes are copied, but inside the block it is the C string it was only if it has one byte and the
block happened to hold a zero behind it (`intact_iff`).
-/

open CMem

namespace Gdnp

/-- `get_value` as a C string inside its block, which `malloc` gave with the contents `heap`. -/
def GdnpOption.valueString (opt : GdnpOption) (heap : CharArray 2) : Option (List UInt8) :=
  match opt.value with
  | none => some []
  | some v => (heap.memcpy v).cstr?

theorem GdnpOption.valueString_iff {opt : GdnpOption} {value : CString}
    (hopt : opt.getValue = value.bytes) (hpos : 1 ≤ value.bytes.length) (heap : CharArray 2) :
    opt.valueString heap = some value.bytes ↔
      value.bytes.length = 1 ∧ heap.bytes[1]? = some 0 := by
  unfold getValue at hopt
  unfold valueString
  cases hvalue : opt.value with
  | none =>
    rw [hvalue, Option.getD_none] at hopt
    rw [← hopt] at hpos
    cases hpos
  | some v =>
    rw [hvalue, Option.getD_some] at hopt
    subst hopt
    show (heap.memcpy value.bytes).cstr? = _ ↔ _
    rw [heap.cstr?_memcpy_iff value.zero_notMem]
    constructor
    · intro h
      obtain ⟨hlt, -⟩ := List.getElem?_eq_some_iff.1 h
      rw [heap.length_eq] at hlt
      have hone : value.bytes.length = 1 := by omega
      rw [hone] at h
      exact ⟨hone, h⟩
    · rintro ⟨hone, h⟩
      rw [hone]
      exact h

/-! ## Answers of a session -/

/-- In some run of the session the ASA answers the message `request` with `value`, and the reply to
it is `msg`. -/
def ServerSession.Answers (o : ByteOrder) (request : Content) (value : CString) (msg : Msg) :
    Prop :=
  ∃ s s' as es, s.runPc = .setIdle request value ∧ (machine o).run s as = some (s', es) ∧
    (∀ c skipped, .popped c skipped ∉ es) ∧ .wrote (some request) msg ∈ es

/-- `write_pdu` puts `msg` on the connection for the reply. -/
def Reply.Writes (r : Reply) (msg : Msg) : Prop :=
  ∃ sessionId env e, writePdu r.bits r.type sessionId env = (e, some msg)

/-- The reply to `request` with the given answer of the ASA. -/
def IsReplyTo (o : ByteOrder) (request : Content) (value : CString) (r : Reply) : Prop :=
  ∃ after uninit geq, r = reply o (recvOption o request after uninit) value geq

/-- The session thread replies to `request` with the answer of the ASA, or is done with it. -/
def RunPc.Replying (o : ByteOrder) (request : Content) (value : CString) : RunPc → Prop
  | setIdle c d | decide c d => c = request ∧ d = value
  | sendSwitch c r | sendWrite c r => c = request ∧ IsReplyTo o request value r
  | setState _ | writeState _ _ | launchWait _ | checkEnd _ | upper _ => False
  | _ => True

namespace ServerSession

variable {o : ByteOrder} {request : Content} {value : CString} {s s' : ServerSession}
  {a : SessionAct} {es : List SessionEvent} {msg : Msg}

theorem runStep_replying {env : RunEnv} (h : s.runStep o env = some (s', es))
    (hs : s.runPc.Replying o request value) (hes : ∀ c skipped, .popped c skipped ∉ es) :
    s'.runPc.Replying o request value ∧
      ∀ c msg, .wrote (some c) msg ∈ es → ∃ r, IsReplyTo o request value r ∧ r.Writes msg := by
  cases runStep_cases h with
  | pop | popSkip => exact absurd (List.mem_singleton_self _) (hes _ _)
  | setState pc | writeState pc | launchWait pc | noWait pc | checkEnd pc | upper pc =>
    rw [pc] at hs
    exact hs.elim
  | setIdle pc =>
    rw [pc] at hs
    exact ⟨hs, by simp⟩
  | decide pc =>
    rw [pc] at hs
    obtain ⟨rfl, rfl⟩ := hs
    exact ⟨⟨rfl, env.after, env.uninit, env.geq, rfl⟩, by simp⟩
  | sendSwitch pc =>
    rw [pc] at hs
    exact ⟨hs, by simp⟩
  | sendNego pc ht hw | sendEnd pc ht hw =>
    rw [pc] at hs
    refine ⟨trivial, fun c msg hmem => ⟨_, hs.2, ?_⟩⟩
    obtain ⟨-, rfl⟩ : _ ∧ msg = _ := by simpa using hmem
    exact ⟨_, _, _, hw⟩
  | _ => exact ⟨trivial, by simp⟩

theorem step_replying (h : s.step o a = some (s', es)) (hs : s.runPc.Replying o request value)
    (hes : ∀ c skipped, .popped c skipped ∉ es) :
    s'.runPc.Replying o request value ∧
      ∀ c msg, .wrote (some c) msg ∈ es → ∃ r, IsReplyTo o request value r ∧ r.Writes msg := by
  cases a with
  | push c =>
    cases h
    exact ⟨hs, by simp⟩
  | run env => exact runStep_replying h hs hes
  | wait k env =>
    obtain ⟨t, t', -, hstep, rfl⟩ := step_wait_iff.1 h
    obtain rfl | ⟨msg, rfl, -⟩ := waitStep_events hstep
    · exact ⟨hs, by simp⟩
    · exact ⟨hs, by simp⟩
  | ends k =>
    obtain ⟨t, t', s₁, -, hstep, rfl, rfl⟩ := step_ends_iff.1 h
    obtain rfl | rfl | ⟨-, rfl⟩ := endStep_cases hstep <;> exact ⟨hs, by simp⟩

/-- What a session writes for the answer of the ASA is the reply with it. -/
theorem Answers.isReplyTo (h : Answers o request value msg) :
    ∃ r, IsReplyTo o request value r ∧ r.Writes msg := by
  obtain ⟨s, s', as, es, hpc, hrun, hes, hmem⟩ := h
  have hreplying := EventMachine.run_invariant_trace (t := []) (P := fun s t =>
      (∀ c skipped, .popped c skipped ∉ t) → s.runPc.Replying o request value ∧
        ∀ c msg, .wrote (some c) msg ∈ t → ∃ r, IsReplyTo o request value r ∧ r.Writes msg)
    (fun s t a s₁ es₁ hs h ht => ?_) (fun _ => ⟨by rw [hpc]; exact ⟨rfl, rfl⟩, by simp⟩) hrun
  · exact (hreplying hes).2 request msg hmem
  · simp only [List.mem_append, not_or] at ht ⊢
    obtain ⟨hpc, hwrote⟩ := hs fun c skipped => (ht c skipped).1
    obtain ⟨hpc', hwrote'⟩ := step_replying h hpc fun c skipped => (ht c skipped).2
    exact ⟨hpc', fun c msg hmem => hmem.elim (hwrote c msg) (hwrote' c msg)⟩

end ServerSession

/-! ## What the ASAs get -/

/-- The reply with a value, to a Synchronization or in a NEGO_MSG, carries the answer of the
ASA. -/
theorem reply_value {o : ByteOrder} {recv : ObjectiveOption} {d : CString} {geq : Bool}
    (h : (reply o recv d geq).type = .negoMsg ∨ recv.type = .synchronization) :
    ∃ type loopCount flag,
      (reply o recv d geq).bits = (objectiveOf type d loopCount flag).toBits o := by
  by_cases hsync : recv.type = .synchronization
  · refine ⟨recv.type, recv.loopCount, recv.flag, ?_⟩
    unfold reply
    dsimp only
    rw [if_pos hsync]
  · have hnego := h.resolve_right hsync
    unfold reply at hnego ⊢
    dsimp only at hnego ⊢
    rw [if_neg hsync] at hnego ⊢
    split_ifs at hnego with hcount
    rw [if_pos hcount]
    exact ⟨_, _, _, rfl⟩

section Handed

variable (o : ByteOrder) (inetPton : CString → Option (BitVec 128))
  (inetNtop : BitVec 128 → CString)

/-- One ASA gave the value, and the other gets the value of the option. -/
inductive Handed : CString → ObjectiveOption → Prop
  /-- The session calls `asa_negotiate_result` on a message of the client. -/
  | session {sender value earlier after uninit} {c : Content}
      (sent : ApiClient.Sends o inetPton inetNtop sender value earlier c.data) :
    Handed value (recvOption o c after uninit)
  /-- The client calls `asa_negotiate_result` or `do_configuration` on a NEGO_MSG. -/
  | negoMsg {request value msg env es type actual site after uninit} {v v' : Client}
      (answers : ServerSession.Answers o request value msg)
      (nego : msg.hasType (· = .negoMsg))
      (pc : v.pc = .read type actual site) (read : env.read = .pdu msg)
      (step : v.step o env = some (v', es)) (pc' : v'.pc = .doNegotiate .negoMsg) :
    Handed value (ObjectiveOption.parseBits o (v'.buffer.mem after) uninit)
  /-- `synchronize` calls `do_configuration` on what it read last. -/
  | synchronize {request value msg env env' es es' type actual site after uninit}
      {v v' v'' : Client} (answers : ServerSession.Answers o request value msg)
      (sync : request.optionType o = some .synchronization)
      (pc : v.pc = .read type actual site) (read : env.read = .pdu msg)
      (step : v.step o env = some (v', es)) (pc' : v'.pc = .doNegotiate .negoEndMsg)
      (step' : v'.step o env' = some (v'', es')) :
    Handed value (ObjectiveOption.parseBits o (v''.buffer.mem after) uninit)

end Handed

/-- A message that was read is in the buffer. -/
theorem Client.buffer_of_read {o : ByteOrder} {v v' : Client} {env : ClientEnv} {msg : Msg}
    {type : MsgType} {actual : UInt32} {site : ReadSite} {es : List ClientEvent}
    (pc : v.pc = .read type actual site) (hread : env.read = .pdu msg)
    (htyped : ∃ d, decode (some msg) = .ok d) (h : v.step o env = some (v', es)) :
    v'.buffer = msg.payload := by
  obtain ⟨d, hd⟩ := htyped
  have hdata : d.data = msg.payload := (decode_eq_ok_iff.1 hd).2.2.1
  rw [step, pc] at h
  replace h : v.readPdu type actual site env.read = (v', es) := Option.some.inj h
  rw [hread] at h
  simp only [readPdu, hd] at h
  unfold readDone at h
  split_ifs at h <;> cases h <;> exact hdata

namespace ServerSession

/-- The value in a reply, behind the pointer `bits`. -/
theorem Answers.carries {o : ByteOrder} {request : Content} {value : CString} {msg : Msg}
    (h : Answers o request value msg)
    (htype : msg.hasType (· = .negoMsg) ∨ request.optionType o = some .synchronization) :
    (∃ d, decode (some msg) = .ok d) ∧ ∀ type, ∃ t loopCount flag,
      Content.Carries o ⟨type, msg.payload⟩ (objectiveOf t value loopCount flag) := by
  obtain ⟨r, ⟨after, uninit, geq, rfl⟩, sessionId, env, e, hw⟩ := h.isReplyTo
  have hreply : (reply o (recvOption o request after uninit) value geq).type = .negoMsg ∨
      (recvOption o request after uninit).type = .synchronization := by
    rcases htype with hnego | hsync
    · rw [Msg.hasType_of_writePdu hw] at hnego
      exact .inl (of_decide_eq_true hnego)
    · right
      show (GdnpOption.parseBits o (request.data.mem after) uninit).type = _
      rw [Content.parseBits_type, hsync]
      rfl
  obtain ⟨t, loopCount, flag, hbits⟩ := reply_value hreply
  refine ⟨⟨_, (decode_of_writePdu (congrArg Prod.snd hw)).2⟩, fun type => ?_⟩
  refine ⟨t, loopCount, flag, CharArray.zero _, ?_⟩
  rw [← hbits]
  exact payload_of_writePdu (congrArg Prod.snd hw)

end ServerSession

variable {o : ByteOrder} {inetPton : CString → Option (BitVec 128)}
  {inetNtop : BitVec 128 → CString} {value : CString} {opt : ObjectiveOption}

/-- All bytes of the value are copied. -/
theorem Handed.getValue_eq (h : Handed o inetPton inetNtop value opt)
    (hlen : value.bytes.length + ObjectiveOption.lenExceptValue ≤ maxStringLength) :
    opt.getValue = value.bytes := by
  have parsed : ∀ {c : Content} {t : OptionType} {loopCount flag : UInt8},
      c.Carries o (objectiveOf t value loopCount flag) → ∀ after uninit,
        (ObjectiveOption.parseBits o (c.data.mem after) uninit).getValue = value.bytes := by
    intro c t loopCount flag hcarries after uninit
    obtain ⟨hfits, hvalue⟩ := hcarries.value_objectiveOf hlen
    rw [Content.parseBits_getValue hfits, hvalue]
  cases h with
  | @session sender _ earlier after uninit c sent =>
    have hdata := (ApiClient.payload_of_sends sent).1
    cases sender with
    | request op => cases op <;> exact parsed ⟨earlier, hdata⟩ after uninit
    | counterOffer loopCount flag => exact parsed ⟨earlier, hdata⟩ after uninit
  | negoMsg answers nego pc read step pc' =>
    obtain ⟨hdecode, hcarries⟩ := answers.carries (.inl nego)
    obtain ⟨t, loopCount, flag, hcarries⟩ := hcarries .negoMsg
    rw [Client.buffer_of_read pc read hdecode step]
    exact parsed hcarries _ _
  | @synchronize request _ msg env env' es es' _ _ _ after uninit v v' v'' answers sync pc read
      step pc' step' =>
    obtain ⟨hdecode, hcarries⟩ := answers.carries (.inr sync)
    obtain ⟨t, loopCount, flag, hcarries⟩ := hcarries .negoEndMsg
    have hbuffer : v''.buffer = v'.buffer := by
      rw [Client.step, pc'] at step'
      exact congrArg (fun r => r.1.buffer) (Option.some.inj step').symm
    rw [hbuffer, Client.buffer_of_read pc read hdecode step]
    exact parsed hcarries _ _

/-- The other ASA gets the value as the C string it was exactly when it has one byte, and the block
for it happened to hold a zero behind this. -/
theorem intact_iff (h : Handed o inetPton inetNtop value opt) (hpos : 1 ≤ value.bytes.length)
    (hlen : value.bytes.length ≤ maxStringLength - 6) (heap : CharArray 2) :
    opt.valueString heap = some value.bytes ↔
      value.bytes.length = 1 ∧ heap.bytes[1]? = some 0 := by
  have hfits : value.bytes.length + ObjectiveOption.lenExceptValue ≤ maxStringLength := by
    unfold ObjectiveOption.lenExceptValue maxStringLength at *
    omega
  exact GdnpOption.valueString_iff (h.getValue_eq hfits) hpos heap

def valueAB : CString := ⟨[97, 98], by decide⟩

/-- The value `ab` in a request. -/
theorem not_intact :
    ¬ ∃ (inetPton : CString → Option (BitVec 128)) (inetNtop : BitVec 128 → CString),
      ∀ (o : ByteOrder) (value : CString) (opt : ObjectiveOption) (heap : CharArray 2),
      Handed o inetPton inetNtop value opt → 1 ≤ value.bytes.length →
      value.bytes.length ≤ maxStringLength - 6 → opt.valueString heap = some value.bytes := by
  rintro ⟨inetPton, inetNtop, h⟩
  obtain ⟨payload, hsends⟩ := ApiClient.sends_request (o := .little) inetPton inetNtop .negoThread
    valueAB (CharArray.zero _)
  have hhanded : Handed .little inetPton inetNtop valueAB
      (recvOption .little ⟨.requestMsg, payload⟩ (fun _ => 0) .divert) := .session hsends
  have hstring := h _ _ _ (CharArray.zero 2) hhanded (by decide) (by decide)
  have hiff := GdnpOption.valueString_iff (hhanded.getValue_eq (by decide)) (by decide)
    (CharArray.zero 2)
  have hone : valueAB.bytes.length = 1 := (hiff.1 hstring).1
  cases hone

/-- The value `a` in a request, whose value is copied to a block of zeros. -/
theorem intact_letter :
    ∃ opt, Handed .little (fun _ => none) (fun _ => default) valueA opt ∧
      opt.valueString (CharArray.zero 2) = some valueA.bytes := by
  obtain ⟨payload, hsends⟩ := ApiClient.sends_request (o := .little) (fun _ => none)
    (fun _ => default) .synchronize valueA (CharArray.zero _)
  have hhanded : Handed .little (fun _ => none) (fun _ => default) valueA
      (recvOption .little ⟨.requestMsg, payload⟩ (fun _ => 0) .divert) := .session hsends
  exact ⟨_, hhanded, (intact_iff hhanded (by decide) (by decide) _).2 ⟨rfl, rfl⟩⟩

end Gdnp
