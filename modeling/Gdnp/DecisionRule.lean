import Gdnp.Leftover
import Gdnp.Session

/-!
# The decision on an offer

`ServerSession::run` and `do_negotiate` decide on an offer with the same two callbacks, but test
them and the loop count in different orders: the client takes an offer that is good enough even if
it is the last one, and the session declines it.  Both parse the value into a block of two bytes,
and both take the answer of the ASA for a C string, even if it is the value itself.  They reply
alike, as the rule `Asa.verdict` says, exactly when the offer is not such a last one, its value fits
into the block and the counter-offer, where one is due, ends and fits into a message
(`sameReply_iff`).
-/

open CMem

namespace Gdnp

/-- What `asa_negotiate_result` returns: a C string of its own, or the pointer that it was given, as
the default does. -/
inductive AsaAnswer where
  | own (s : CString)
  | same

/-- The answer to a value, as a C string. -/
def AsaAnswer.text (v : List UInt8) : AsaAnswer → CString
  | own s => s
  | same => ⟨cstr v, zero_notMem_cstr v⟩

/-- `strlen` finds the end of the answer; without a value the pointer is NULL. -/
def AsaAnswer.Ends (v : List UInt8) : AsaAnswer → Prop
  | own _ => True
  | same => 0 ∈ v

instance (v : List UInt8) : DecidablePred (AsaAnswer.Ends v)
  | .own _ => inferInstanceAs (Decidable True)
  | .same => inferInstanceAs (Decidable (0 ∈ v))

/-- The callbacks of an ASA, as functions of the value of an offer. -/
structure Asa where
  negotiateResult : List UInt8 → AsaAnswer
  geqFn : AsaAnswer → List UInt8 → Bool

/-- The answer to an offer, as a C string. -/
def Asa.answer (asa : Asa) (v : List UInt8) : CString := (asa.negotiateResult v).text v

/-- The answer is as good as the offer. -/
def Asa.takes (asa : Asa) (v : List UInt8) : Bool := asa.geqFn (asa.negotiateResult v) v

/-- What is replied to an offer. -/
inductive Verdict where
  | accept
  | decline
  | counter (value : CString) (loopCount flag : UInt8)

/-- The rule for an offer with value `v`, loop count `n` and flag `f`. -/
def Asa.verdict (asa : Asa) (v : List UInt8) (n f : UInt8) : Verdict :=
  if asa.takes v then .accept
  else if n - 1 = 0 then .decline
  else .counter (asa.answer v) (n - 1) f

/-- `strlen` is called for a counter-offer only. -/
def Asa.EndsWhenDue (asa : Asa) (v : List UInt8) (n : UInt8) : Prop :=
  asa.takes v = false → n ≠ 1 → (asa.negotiateResult v).Ends v

instance (asa : Asa) (v : List UInt8) (n : UInt8) : Decidable (asa.EndsWhenDue v n) :=
  inferInstanceAs (Decidable (_ → _ → _))

/-- The message says the verdict. -/
def Verdict.SaidBy (o : ByteOrder) (c : Content) : Verdict → Prop
  | accept => c.type = .negoEndMsg ∧ c.optionType o = some .accept
  | decline => c.type = .negoEndMsg ∧ c.optionType o = some .decline
  | counter value loopCount flag =>
    c.type = .negoMsg ∧ c.optionType o = some .negotiation ∧ c.value o = value.bytes ∧
      c.loopCount o = loopCount ∧ c.flag o = flag

/-- The value of the offer as `parse_bits` leaves it, where `after` lies behind the data. -/
def Content.parsed (o : ByteOrder) (after : Mem) (c : Content) : List UInt8 :=
  (ObjectiveOption.parseBits o (c.data.mem after) .divert).getValue

def SessionEvent.message? : SessionEvent → Option Msg
  | wrote _ msg => some msg
  | _ => none

def ClientEvent.message? : ClientEvent → Option Msg
  | wrote _ msg => some msg
  | _ => none

/-- Where the session asks about the offer, the ASA answers. -/
def ServerSession.Asks (o : ByteOrder) (after : Mem) (asa : Asa) (offer : Content)
    (s : ServerSession) : SessionAct → Prop
  | .run env =>
    (s.runPc = .upper offer → env.upperData = asa.answer (offer.parsed o after)) ∧
      ∀ d, s.runPc = .decide offer d → env.geq = asa.takes (offer.parsed o after)
  | _ => True

section Replies

variable (o : ByteOrder) (after : Mem) (asa : Asa) (offer : Content)

/-- Either side handles the offer inside its memory: `parse_bits` writes inside the block, and
`strlen` finds the end of the answer. -/
def HandledInside : Prop :=
  offer.InBlock o ∧ asa.EndsWhenDue (offer.parsed o after) (offer.loopCount o)

/-- In some run the session replies to the offer with these messages, where `write` succeeds. -/
inductive SessionReplies : List Msg → Prop
  | mk {s s₁ s' as es r env es'} (start : s.runPc = .upper offer)
      (asks : (ServerSession.machine o).Guarded (ServerSession.Asks o after asa offer) s as)
      (run : (ServerSession.machine o).run s as = some (s₁, es))
      (pc : s₁.runPc = .sendWrite offer r) (id : s₁.sessionId.toNat ≤ maxSessionId)
      (outcome : env.write.outcome = .success) (step : s₁.runStep o env = some (s', es')) :
    SessionReplies (es'.filterMap SessionEvent.message?)
  /-- The session thread leaves its memory, and whatever is written then. -/
  | undefined {s : ServerSession} (start : s.runPc = .checkEnd offer)
      (outside : ¬ HandledInside o after asa offer) (msgs : List Msg) : SessionReplies msgs

/-- In some call `do_negotiate` replies to the offer with these messages, where `write`
succeeds. -/
inductive ClientReplies : List Msg → Prop
  | mk {v v' : Client} {env es} (pc : v.pc = .doNegotiate .negoMsg)
      (buffer : v.buffer = offer.data)
      (answer : env.asaAnswer = asa.answer (offer.parsed o after))
      (geq : env.geq = asa.takes (offer.parsed o after))
      (id : v.sessionId.toNat ≤ maxSessionId) (outcome : env.write.outcome = .success)
      (step : v.step o env = some (v', es)) :
    ClientReplies (es.filterMap ClientEvent.message?)
  /-- `do_negotiate` leaves its memory, and whatever is written then. -/
  | undefined {v : Client} (pc : v.pc = .doNegotiate .negoMsg) (buffer : v.buffer = offer.data)
      (outside : ¬ HandledInside o after asa offer) (msgs : List Msg) : ClientReplies msgs

/-- Either side replies with one message, which says the verdict of the rule. -/
def SameReply : Prop :=
  ∀ msgs, SessionReplies o after asa offer msgs ∨ ClientReplies o after asa offer msgs →
    ∃ msg c, msgs = [msg] ∧ Content.ofMsg msg = some c ∧
      (asa.verdict (offer.parsed o after) (offer.loopCount o) (offer.flag o)).SaidBy o c

end Replies

variable {o : ByteOrder} {after : Mem} {asa : Asa} {offer : Content}

theorem sub_one_eq_zero_iff {n : UInt8} : n - 1 = 0 ↔ n = 1 := by
  rw [UInt8.sub_eq_iff_eq_add, UInt8.zero_add]

/-! ### Messages for a verdict -/

/-- The message was made for the verdict, as either side makes it. -/
def Verdict.MadeFor (o : ByteOrder) (c : Content) : Verdict → Prop
  | accept => c = .ofBits .negoEndMsg (acceptOption.toBits o)
  | decline => c = .ofBits .negoEndMsg (declineOption.toBits o)
  | counter value loopCount flag =>
    c.type = .negoMsg ∧ c.Carries o (objectiveOf .negotiation value loopCount flag)

/-- The counter-offer of the verdict, if it is one, fits into a message. -/
def Verdict.Fits : Verdict → Prop
  | counter value _ _ => value.bytes.length + ObjectiveOption.lenExceptValue ≤ maxStringLength
  | _ => True

instance : DecidablePred Verdict.Fits
  | .accept => inferInstanceAs (Decidable True)
  | .decline => inferInstanceAs (Decidable True)
  | .counter _ _ _ => inferInstanceAs (Decidable (_ ≤ _))

theorem Content.optionType_ofBits (type : MsgType) (opt : GdnpOption) :
    (Content.ofBits type (opt.toBits o)).optionType o = some opt.type := by
  have hdata : (Content.ofBits type (opt.toBits o)).data = (CharArray.zero _).memcpy
      (o.toBytes 2 opt.type.code ++ (o.toBytes 2 opt.len.toNat ++ opt.valueBytes)) := by
    rw [← List.append_assoc]
    rfl
  exact Content.optionType_eq hdata

theorem Content.Carries.optionType {c : Content} {opt : ObjectiveOption} (h : c.Carries o opt) :
    c.optionType o = some opt.type := by
  obtain ⟨a, ha⟩ := h
  have hdata : c.data = a.memcpy (o.toBytes 2 opt.type.code ++
      (o.toBytes 2 opt.len.toNat ++ (o.toBytes 2 opt.packed.toNat ++ opt.valueBytes))) := by
    rw [ha, ObjectiveOption.toBits]
    simp only [List.append_assoc]
  exact Content.optionType_eq hdata

/-- The value is carried whole only if it fits: otherwise its length is cut or what is read runs
past the data. -/
theorem Content.Carries.value_eq_iff {c : Content} {type : OptionType} {value : CString}
    {loopCount flag : UInt8} (h : c.Carries o (objectiveOf type value loopCount flag)) :
    c.value o = value.bytes ↔
      value.bytes.length + ObjectiveOption.lenExceptValue ≤ maxStringLength := by
  constructor
  · intro hvalue
    by_contra hlong
    have hlen : (c.field o 1).toNat = value.bytes.length := by
      rw [← hvalue, Content.value, Mem.length_read]
    have hlast : (c.data.mem fun _ => 0) maxStringLength = 0 := by
      show (c.data.bytes[maxStringLength]?).getD 0 = 0
      rw [List.getElem?_eq_none c.data.length_eq.le, Option.getD_none]
    apply value.zero_notMem
    rw [← hvalue, Content.value, Mem.read]
    refine List.mem_map.2 ⟨maxStringLength - ObjectiveOption.lenExceptValue, ?_, hlast⟩
    rw [List.mem_range, hlen]
    unfold maxStringLength ObjectiveOption.lenExceptValue at *
    omega
  · exact fun hfit => (h.value_objectiveOf hfit).2

/-- A message for a verdict says it, unless it is a counter-offer that does not fit. -/
theorem Verdict.MadeFor.saidBy_iff {c : Content} {v : Verdict} (h : v.MadeFor o c) :
    v.SaidBy o c ↔ v.Fits := by
  cases v with
  | accept =>
    obtain rfl := h
    exact iff_of_true ⟨rfl, Content.optionType_ofBits ..⟩ trivial
  | decline =>
    obtain rfl := h
    exact iff_of_true ⟨rfl, Content.optionType_ofBits ..⟩ trivial
  | counter value loopCount flag =>
    obtain ⟨htype, hcarries⟩ := h
    rw [Verdict.Fits, ← hcarries.value_eq_iff]
    constructor
    · exact fun hsaid => hsaid.2.2.1
    · exact fun hvalue => ⟨htype, hcarries.optionType, hvalue, hcarries.loopCount_eq,
        hcarries.flag_eq⟩

/-- A short block is written when `write` succeeds. -/
theorem writePdu_short (data : List UInt8) (type : MsgType) {sessionId : UInt32} {env : WriteEnv}
    (hdata : data.length ≤ maxStringLength) (hid : sessionId.toNat ≤ maxSessionId)
    (houtcome : env.outcome = .success) :
    ∃ msg, writePdu data type sessionId env = (.success, some msg) ∧
      Content.ofMsg msg = some (.ofBits type data) := by
  have hsuccess : (writePdu data type sessionId env).1 = .success :=
    writePdu_success_iff.2 ⟨⟨hdata, hid⟩, houtcome⟩
  obtain ⟨msg, hmsg⟩ := Option.isSome_iff_exists.1 (writePdu_isSome_iff.2 hsuccess)
  have hwritten : writePdu data type sessionId env = (.success, some msg) :=
    Prod.ext hsuccess hmsg
  exact ⟨msg, hwritten, Content.ofMsg_of_writePdu hwritten⟩

/-! ### The client -/

variable {msgs : List Msg}

/-- The client follows the rule. -/
theorem ClientReplies.madeFor (hinside : HandledInside o after asa offer)
    (h : ClientReplies o after asa offer msgs) :
    ∃ msg c, msgs = [msg] ∧ Content.ofMsg msg = some c ∧
      (asa.verdict (offer.parsed o after) (offer.loopCount o) (offer.flag o)).MadeFor o c := by
  rcases h with ⟨pc, hbuffer, hanswer, hgeq, hid, houtcome, hstep⟩ | ⟨-, -, houtside⟩
  swap
  · exact absurd hinside houtside
  rename_i v v' env es
  obtain ⟨hcount, hzero⟩ := ApiClient.adopt_loopCount o env v
  have hloop : Content.loopCount o ⟨.negoMsg, v.buffer⟩ = offer.loopCount o := by
    rw [hbuffer]
    rfl
  have hflag : (v.adopt o env).flag = offer.flag o := by
    show (ObjectiveOption.parseBits o (v.buffer.mem env.after) env.uninit).flag = _
    rw [hbuffer, Content.parseBits_flag]
  rw [hloop] at hcount hzero
  rw [Client.step, pc] at hstep
  replace hstep : v.doNegotiate o env .negoMsg = (v', es) := Option.some.inj hstep
  unfold Client.doNegotiate at hstep
  dsimp only at hstep
  rw [show (v.adopt o env).sessionId = v.sessionId from rfl] at hstep
  unfold Asa.verdict
  rw [← hgeq]
  by_cases hg : env.geq = true
  · rw [if_pos hg] at hstep ⊢
    obtain ⟨msg, hw, hmsg⟩ := writePdu_short (acceptOption.toBits o) .negoEndMsg
      (by cases o <;> decide) hid houtcome
    rw [hw] at hstep
    cases hstep
    exact ⟨msg, _, rfl, hmsg, rfl⟩
  rw [if_neg hg] at hstep ⊢
  by_cases hn : offer.loopCount o = 1
  · rw [if_pos (hzero.2 hn)] at hstep
    obtain ⟨msg, hw, hmsg⟩ := writePdu_short (declineOption.toBits o) .negoEndMsg
      (by cases o <;> decide) hid houtcome
    rw [hw] at hstep
    cases hstep
    rw [if_pos (sub_one_eq_zero_iff.2 hn)]
    exact ⟨msg, _, rfl, hmsg, rfl⟩
  · rw [if_neg fun hl => hn (hzero.1 hl)] at hstep
    obtain ⟨msg, hw, hmsg⟩ := writePdu_short
      ((v.adopt o env).counterOffer o env).bytes .negoMsg
      ((v.adopt o env).counterOffer o env).length_eq.le hid houtcome
    rw [hw] at hstep
    cases hstep
    rw [if_neg fun hl => hn (sub_one_eq_zero_iff.1 hl)]
    refine ⟨msg, _, rfl, hmsg, rfl, env.sendBuffer, ?_⟩
    rw [Content.ofBits_bytes]
    show env.sendBuffer.memcpy (Client.negoObjOpt2bits o _ _) = _
    rw [Client.negoObjOpt2bits, hcount, hflag, hanswer]

/-- The client replies to every offer. -/
theorem exists_clientReplies (o : ByteOrder) (after : Mem) (asa : Asa) (offer : Content) :
    ∃ msgs, ClientReplies o after asa offer msgs := by
  let env : ClientEnv := { Client.sample .fail (asa.takes (offer.parsed o after)) with
    asaAnswer := asa.answer (offer.parsed o after) }
  let v : Client := { Client.new (CharArray.zero _) with
    buffer := offer.data, pc := .doNegotiate .negoMsg }
  have hstep : v.step o env = some (v.doNegotiate o env .negoMsg) := rfl
  exact ⟨_, .mk rfl rfl rfl rfl (Nat.zero_le _) rfl hstep⟩

/-! ### The session -/

/-- The session follows the rule but for a last offer, which it declines. -/
def Asa.sessionVerdict (asa : Asa) (v : List UInt8) (n f : UInt8) : Verdict :=
  if n = 1 then .decline else asa.verdict v n f

/-- The reply for a verdict, as the session makes it. -/
def Verdict.reply (o : ByteOrder) : Verdict → Reply
  | accept => ⟨.negoEndMsg, acceptOption.toBits o⟩
  | decline => ⟨.negoEndMsg, declineOption.toBits o⟩
  | counter value loopCount flag =>
    ⟨.negoMsg, (objectiveOf .negotiation value loopCount flag).toBits o⟩

theorem Verdict.reply_type (o : ByteOrder) (v : Verdict) :
    (v.reply o).type = .negoMsg ∨ (v.reply o).type = .negoEndMsg := by
  cases v with
  | counter => exact .inl rfl
  | _ => exact .inr rfl

theorem Verdict.madeFor_ofBits (v : Verdict) :
    v.MadeFor o (.ofBits (v.reply o).type (v.reply o).bits) := by
  cases v with
  | counter => exact ⟨rfl, CharArray.zero _, rfl⟩
  | _ => exact rfl

theorem Verdict.Fits.length_reply {v : Verdict} (h : v.Fits) :
    (v.reply o).bits.length ≤ maxStringLength := by
  cases v with
  | accept => cases o <;> decide
  | decline => cases o <;> decide
  | counter value loopCount flag =>
    have hlen : ((objectiveOf .negotiation value loopCount flag).toBits o).length =
        value.bytes.length % 2 ^ 16 + ObjectiveOption.lenExceptValue :=
      ObjectiveOption.length_toBits ..
    have hle : value.bytes.length % 2 ^ 16 ≤ value.bytes.length := Nat.mod_le ..
    unfold Verdict.Fits at h
    show ((objectiveOf .negotiation value loopCount flag).toBits o).length ≤ _
    omega

/-- The reply to a Negotiation offer. -/
theorem reply_eq_verdict (asa : Asa) (hneg : offer.optionType o = some .negotiation)
    (v : List UInt8) (env : RunEnv) :
    reply o (recvOption o offer env.after env.uninit) (asa.answer v) (asa.takes v) =
      (asa.sessionVerdict v (offer.loopCount o) (offer.flag o)).reply o := by
  have htype : (recvOption o offer env.after env.uninit).type = .negotiation := by
    show (GdnpOption.parseBits o (offer.data.mem env.after) env.uninit).type = _
    rw [Content.parseBits_type, hneg]
    rfl
  have hcount : (recvOption o offer env.after env.uninit).loopCount = offer.loopCount o - 1 := by
    show (ObjectiveOption.parseBits o (offer.data.mem env.after) env.uninit).loopCount - 1 = _
    rw [Content.parseBits_loopCount]
  have hflag : (recvOption o offer env.after env.uninit).flag = offer.flag o :=
    Content.parseBits_flag env.after env.uninit
  unfold reply Asa.sessionVerdict Asa.verdict
  rw [htype, hcount, hflag]
  by_cases hn : offer.loopCount o = 1
  · simp [hn, Verdict.reply]
  · have hsub : offer.loopCount o - 1 ≠ 0 := fun h => hn (sub_one_eq_zero_iff.1 h)
    cases asa.takes v <;> simp [hn, hsub, Verdict.reply]

/-- What the session thread holds of the answers of the ASA to the offer. -/
def RunPc.Ruled (o : ByteOrder) (after : Mem) (asa : Asa) (offer : Content) : RunPc → Prop
  | setIdle c d | decide c d => c = offer → d = asa.answer (offer.parsed o after)
  | sendSwitch c r | sendWrite c r => c = offer →
    r = (asa.sessionVerdict (offer.parsed o after) (offer.loopCount o) (offer.flag o)).reply o
  | _ => True

namespace ServerSession

variable {s s' : ServerSession} {es : List SessionEvent}

theorem runStep_ruled {env : RunEnv} (hneg : offer.optionType o = some .negotiation)
    (ha : s.Asks o after asa offer (.run env)) (hs : s.runPc.Ruled o after asa offer)
    (h : s.runStep o env = some (s', es)) : s'.runPc.Ruled o after asa offer := by
  cases runStep_cases h with
  | upper pc =>
    intro hc
    exact ha.1 (hc ▸ pc)
  | setIdle pc =>
    rw [pc] at hs
    exact hs
  | decide pc =>
    rw [pc] at hs
    intro hc
    rw [hc] at pc ⊢
    rw [ha.2 _ pc, hs hc, reply_eq_verdict asa hneg]
  | sendSwitch pc =>
    rw [pc] at hs
    exact hs
  | _ => trivial

theorem step_ruled {a : SessionAct} (hneg : offer.optionType o = some .negotiation)
    (hs : s.runPc.Ruled o after asa offer) (ha : s.Asks o after asa offer a)
    (h : s.step o a = some (s', es)) : s'.runPc.Ruled o after asa offer := by
  cases a with
  | push c =>
    cases h
    exact hs
  | run env => exact runStep_ruled hneg ha hs h
  | wait k env =>
    obtain ⟨t, t', -, -, rfl⟩ := step_wait_iff.1 h
    exact hs
  | ends k =>
    obtain ⟨t, t', s₁, -, hstep, rfl, -⟩ := step_ends_iff.1 h
    obtain rfl | rfl | ⟨-, rfl⟩ := endStep_cases hstep <;> exact hs

end ServerSession

theorem SessionReplies.madeFor (hneg : offer.optionType o = some .negotiation)
    (hinside : HandledInside o after asa offer)
    (hfits : (asa.sessionVerdict (offer.parsed o after) (offer.loopCount o) (offer.flag o)).Fits)
    (h : SessionReplies o after asa offer msgs) :
    ∃ msg c, msgs = [msg] ∧ Content.ofMsg msg = some c ∧
      (asa.sessionVerdict (offer.parsed o after) (offer.loopCount o) (offer.flag o)).MadeFor o
        c := by
  rcases h with ⟨hstart, hasks, hrun, hpc, hid, houtcome, hstep⟩ | ⟨-, houtside⟩
  swap
  · exact absurd hinside houtside
  rename_i s s₁ s' as es r env es'
  have hruled : s₁.runPc.Ruled o after asa offer :=
    EventMachine.run_preserves (I := fun s => s.runPc.Ruled o after asa offer)
      (fun s a s' es hs ha h => ServerSession.step_ruled hneg hs ha h) (by rw [hstart]; trivial)
      hasks hrun
  rw [hpc] at hruled
  obtain rfl := hruled rfl
  obtain ⟨msg, hw, hmsg⟩ := writePdu_short _ _ hfits.length_reply hid houtcome
  rw [ServerSession.runStep, hpc] at hstep
  dsimp only at hstep
  rw [hw] at hstep
  cases hstep
  exact ⟨msg, _, rfl, hmsg, Verdict.madeFor_ofBits _⟩

/-- Neither side leaves its memory. -/
theorem SameReply.inside (h : SameReply o after asa offer) : HandledInside o after asa offer := by
  by_contra houtside
  let v : Client := { Client.new (CharArray.zero _) with
    buffer := offer.data, pc := .doNegotiate .negoMsg }
  have hnone : ClientReplies o after asa offer [] := .undefined (v := v) rfl rfl houtside []
  obtain ⟨msg, c, hmsgs, -⟩ := h [] (.inr hnone)
  cases hmsgs

/-- The counter-offer of the client says the verdict. -/
theorem SameReply.fits (h : SameReply o after asa offer) :
    (asa.verdict (offer.parsed o after) (offer.loopCount o) (offer.flag o)).Fits := by
  obtain ⟨msgs, hmsgs⟩ := exists_clientReplies o after asa offer
  obtain ⟨msg, c, rfl, hmsg, hsaid⟩ := h msgs (.inr hmsgs)
  obtain ⟨msg', c', heq, hmsg', hmade⟩ := hmsgs.madeFor h.inside
  cases heq
  cases hmsg.symm.trans hmsg'
  exact hmade.saidBy_iff.1 hsaid

end Gdnp
