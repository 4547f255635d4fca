import Gdnp.Bounds
import Gdnp.Conforming

/-!
# The configured value is the agreed one

When the client calls `do_configuration`, the session has accepted the client's most recent offer
and the value is that of this offer, or the client has accepted the session's counter-offer and the
value is that of the counter-offer (`Net.Agrees`).  This needs what the code does not see to
(`Net.NegotiateOk`): `lastTopOptions` is set to the request only when the negotiation is over, so
that at an Accept for the request it holds what earlier operations have left; a value is configured
even when the Accept for it cannot be written; and nothing keeps a value from running past the end
of `send_buffer`, or of the block of `parse_bits`, behind which the bits of the Accept may be
allocated before the value is configured (`Net.process`).
-/

open CMem

namespace Gdnp

variable {o : ByteOrder} {request : CharArray maxStringLength} {n n' : Net}

/-! ## The statement -/

/-- The session has written `c` in answer to the client's offer `offer`, its most recent one. -/
def Net.Answered (n : Net) (offer c : Content) : Prop :=
  ∃ msg, n.history.offer = some offer ∧ (offer, msg) ∈ n.history.replies ∧
    Content.ofMsg msg = some c

/-- The parties have settled on the value `v` when the client, at `recved`, does the events `es`. -/
def Net.Agrees (o : ByteOrder) (n : Net) (es : List NetEvent) (recved : Content)
    (v : List UInt8) : Prop :=
  (∃ offer, n.Answered offer recved ∧ recved.type = .negoEndMsg ∧
      recved.optionType o = some .accept ∧ v = offer.value o) ∨
    ((∃ offer, n.Answered offer recved) ∧ recved.type = .negoMsg ∧ v = recved.value o ∧
      ∃ msg k, .client (.wrote (some recved) msg) ∈ es ∧ Content.ofMsg msg = some k ∧
        k.type = .negoEndMsg ∧ k.optionType o = some .accept)

/-- What `do_negotiate` needs to configure the right value: a counter-offer that it accepts has its
value in the block of `parse_bits`, and the Accept can be written; one that it makes fits into the
buffer; and `lastTopOptions` holds the value of a request that the session accepts. -/
structure Net.NegotiateOk (o : ByteOrder) (n : Net) (env : ClientEnv) : Prop where
  inBlock : n.client.pc = .doNegotiate .negoMsg → env.geq = true →
    Content.InBlock o ⟨.negoMsg, n.client.buffer⟩
  accept : n.client.pc = .doNegotiate .negoMsg → env.geq = true → env.write.outcome = .success
  counter : n.client.pc = .doNegotiate .negoMsg → env.geq = false →
    Content.loopCount o ⟨.negoMsg, n.client.buffer⟩ ≠ 1 →
    env.asaAnswer.bytes.length + ObjectiveOption.lenExceptValue ≤ maxStringLength
  accepted : n.client.pc = .doNegotiate .negoEndMsg →
    Content.optionType o ⟨.negoEndMsg, n.client.buffer⟩ = some .accept →
    ∀ offer ∈ n.history.offer, offer.type = .requestMsg →
      Content.value o ⟨.requestMsg, n.client.lastTopOptions⟩ = offer.value o

instance (n : Net) (env : ClientEnv) : Decidable (n.NegotiateOk o env) :=
  decidable_of_iff
    ((n.client.pc = .doNegotiate .negoMsg → env.geq = true →
        Content.InBlock o ⟨.negoMsg, n.client.buffer⟩) ∧
      (n.client.pc = .doNegotiate .negoMsg → env.geq = true → env.write.outcome = .success) ∧
      (n.client.pc = .doNegotiate .negoMsg → env.geq = false →
        Content.loopCount o ⟨.negoMsg, n.client.buffer⟩ ≠ 1 →
        env.asaAnswer.bytes.length + ObjectiveOption.lenExceptValue ≤ maxStringLength) ∧
      (n.client.pc = .doNegotiate .negoEndMsg →
        Content.optionType o ⟨.negoEndMsg, n.client.buffer⟩ = some .accept →
        ∀ offer ∈ n.history.offer, offer.type = .requestMsg →
          Content.value o ⟨.requestMsg, n.client.lastTopOptions⟩ = offer.value o))
    ⟨fun h => ⟨h.1, h.2.1, h.2.2.1, h.2.2.2⟩,
      fun h => ⟨h.inBlock, h.accept, h.counter, h.accepted⟩⟩

/-- A step with which the parties stay in agreement. -/
def Agreeable (o : ByteOrder) (n : Net) : NetAct → Prop
  | .client env => NoPhantom n (.client env) ∧ n.NegotiateOk o env
  | _ => True

instance (n : Net) : DecidablePred (Agreeable o n)
  | .client env => inferInstanceAs (Decidable (NoPhantom n (.client env) ∧ n.NegotiateOk o env))
  | .recv _ => inferInstanceAs (Decidable True)
  | .deliver _ => inferInstanceAs (Decidable True)
  | .server _ => inferInstanceAs (Decidable True)

/-- The value that the client configures with its Accept stays as it was parsed: it lies in the
block, and not where `to_bits` allocates the bits of the Accept meanwhile. -/
def Net.InBounds (o : ByteOrder) (n : Net) : NetAct → Prop
  | .client env => n.client.pc = .doNegotiate .negoMsg → env.geq = true →
    Content.InBlock o ⟨.negoMsg, n.client.buffer⟩
  | _ => True

instance (n : Net) : DecidablePred (n.InBounds o)
  | .client _ => inferInstanceAs (Decidable (_ → _ → _))
  | .recv _ => inferInstanceAs (Decidable True)
  | .deliver _ => inferInstanceAs (Decidable True)
  | .server _ => inferInstanceAs (Decidable True)

/-- The exchange, where anything may happen once a value is configured that was not in bounds. -/
def Net.process (o : ByteOrder) :
    EventMachine (Option Net) (NetAct × List NetEvent) NetEvent :=
  (Net.machine o).orUndefined (Net.InBounds o)

theorem Agreeable.inBounds {a : NetAct} (h : Agreeable o n a) : n.InBounds o a := by
  cases a with
  | client env => exact h.2.inBlock
  | _ => trivial

theorem Agreeable.noPhantom {a : NetAct} (h : Agreeable o n a) : NoPhantom n a := by
  cases a with
  | client env => exact h.1
  | _ => rfl

/-! ## The offers of the client -/

/-- The client's most recent offer carries its value whole. -/
def OfferOk (o : ByteOrder) (n : Net) : Prop :=
  ∀ c ∈ n.history.offer, c.IsOffer ∧ c.Fits o

theorem Client.Step.offer_cases {c c' : Client} {env : ClientEnv} {es : List ClientEvent}
    (h : Client.Step o env c c' es) (hist : History) :
    ((es.map NetEvent.client).foldl History.next hist).offer = hist.offer ∨
      (c.pc = .request ∧ ((es.map NetEvent.client).foldl History.next hist).offer =
        some ⟨.requestMsg, c.buffer⟩) ∨
      (c.pc = .doNegotiate .negoMsg ∧ env.geq = false ∧ (c.adopt o env).loopCount ≠ 0 ∧
        ((es.map NetEvent.client).foldl History.next hist).offer =
          some ⟨.negoMsg, (c.adopt o env).counterOffer o env⟩) := by
  cases h with
  | request pc hloop hw =>
    refine .inr (.inl ⟨pc, ?_⟩)
    rw [List.map_singleton, List.foldl_cons, List.foldl_nil, next_wrote _ hw, if_pos (.inl rfl),
      Content.ofBits_bytes]
  | accept pc hgeq hw =>
    left
    show (hist.next (.client (.wrote (some ⟨.negoMsg, c.buffer⟩) _))).offer = _
    rw [next_wrote _ hw, if_neg (by decide)]
  | decline pc hgeq hloop hw =>
    left
    show (hist.next (.client (.wrote (some ⟨.negoMsg, c.buffer⟩) _))).offer = _
    rw [next_wrote _ hw, if_neg (by decide)]
  | counter pc hgeq hloop hw =>
    refine .inr (.inr ⟨pc, hgeq, hloop, ?_⟩)
    rw [List.map_singleton, List.foldl_cons, List.foldl_nil, next_wrote _ hw, if_pos (.inr rfl),
      Content.ofBits_bytes]
  | _ => exact .inl rfl

theorem History.foldl_server_offer (h : History) (es : List SessionEvent) :
    ((es.map NetEvent.server).foldl History.next h).offer = h.offer := by
  induction es generalizing h with
  | nil => rfl
  | cons e es ih =>
    rw [List.map_cons, List.foldl_cons, ih]
    cases e <;> rfl

theorem Inv.client_offerOk (hi : Inv o request n) (hreq : Content.Fits o ⟨.requestMsg, request⟩)
    {env : ClientEnv} (hok : n.NegotiateOk o env) {c : Client} {es : List ClientEvent}
    (h : Client.Step o env n.client c es) (hs : OfferOk o n) : OfferOk o (n.withClient c es) := by
  intro k hk
  obtain hsame | ⟨pc, hoffer⟩ | ⟨pc, hgeq, hloop, hoffer⟩ := h.offer_cases n.history
  · exact hs k (hsame ▸ hk)
  · obtain rfl := Option.some.inj (hoffer.symm.trans hk)
    rw [(hi.setup (by rw [pc]; trivial)).2.1]
    exact ⟨.inl rfl, hreq⟩
  · obtain rfl := Option.some.inj (hoffer.symm.trans hk)
    have hcarries : Content.Carries o ⟨.negoMsg, (n.client.adopt o env).counterOffer o env⟩
        (objectiveOf .negotiation env.asaAnswer (UInt8.ofInt (n.client.adopt o env).loopCount)
          (n.client.adopt o env).flag) := ⟨env.sendBuffer, rfl⟩
    refine ⟨.inr rfl, (hcarries.value_objectiveOf (hok.counter pc hgeq fun hone => hloop ?_)).1⟩
    show ((ObjectiveOption.parseBits o (n.client.buffer.mem env.after) env.uninit).loopCount.toNat :
      ℤ) - 1 = 0
    rw [show (ObjectiveOption.parseBits o (n.client.buffer.mem env.after) env.uninit).loopCount = 1
      from (Content.parseBits_loopCount (c := ⟨.negoMsg, n.client.buffer⟩) _ _).trans hone]
    rfl

theorem Inv.step_offerOk (hi : Inv o request n) (hreq : Content.Fits o ⟨.requestMsg, request⟩)
    {a : NetAct} (hok : Agreeable o n a) {es : List NetEvent} (h : n.step o a = some (n', es))
    (hs : OfferOk o n) : OfferOk o n' := by
  cases Net.step_cases h with
  | client hc => exact hi.client_offerOk hreq hok.2 hc hs
  | recv pc hn hc =>
    obtain hsame | ⟨hpc, -⟩ | ⟨hpc, -⟩ := hc.offer_cases n.history
    · exact fun k hk => hs k (hsame ▸ hk)
    · rw [pc] at hpc
      cases hpc
    · rw [pc] at hpc
      cases hpc
  | drop => exact hs
  | deliver =>
    intro k hk
    rw [(Net.distribute_client _ _ _).1] at hk
    exact hs k hk
  | server =>
    intro k hk
    exact hs k (History.foldl_server_offer _ _ ▸ hk)

/-! ## The value -/

/-- Equal values have equal lengths, so that one fits when the other does. -/
theorem Content.Fits.of_value_eq {c c' : Content} (hc : c'.Fits o) (h : c.value o = c'.value o) :
    c.Fits o := by
  have hlen : (c.field o 1).toNat = (c'.field o 1).toNat := by
    have := congrArg List.length h
    rwa [Content.value, Content.value, Mem.length_read, Mem.length_read] at this
  refine ⟨by rw [hlen]; exact hc.1, ?_⟩
  rw [h]
  exact hc.2

theorem IsReply.answered {loopCount : ℕ} {c : Content} (h : IsReply o loopCount n.history c) :
    ∃ offer, n.Answered offer c := by
  obtain ⟨offer, msg, hoffer, hreply, hmsg, -⟩ := h
  exact ⟨offer, msg, hoffer, hreply, hmsg⟩

theorem GdnpOption.optionType_ofBits (o : ByteOrder) (type : MsgType) (opt : GdnpOption) :
    (Content.ofBits type (opt.toBits o)).optionType o = some opt.type := by
  rw [toBits, List.append_assoc]
  exact Content.optionType_eq rfl

/-- With the client's Accept the parties settle on the value of the counter-offer. -/
theorem Inv.agrees_accept (hi : Inv o request n) {env : ClientEnv}
    (hpc : n.client.pc = .doNegotiate .negoMsg) {es : List NetEvent} {e : Errno} {msg : Msg}
    (hw : writePdu (acceptOption.toBits o) .negoEndMsg n.client.sessionId env.write =
      (e, some msg))
    (hes : .client (.wrote (some ⟨.negoMsg, n.client.buffer⟩) msg) ∈ es) :
    n.Agrees o es ⟨.negoMsg, n.client.buffer⟩
      (ObjectiveOption.parseBits o (n.client.buffer.mem env.after) env.uninit).getValue := by
  obtain ⟨-, -, hreply⟩ := hi.alone hpc (by decide)
  have hanswered := hreply.answered
  obtain ⟨-, -, -, -, -, -, hnego⟩ := hreply
  obtain ⟨-, -, hfits⟩ := hnego rfl
  have hvalue := Content.parseBits_getValue hfits env.after env.uninit
  exact .inr ⟨hanswered, rfl, hvalue, msg, _, hes, Content.ofMsg_of_writePdu hw, rfl,
    acceptOption.optionType_ofBits o _⟩

/-- With the session's Accept the parties settle on the value of the client's offer. -/
theorem Inv.agrees_accepted (hi : Inv o request n) (hoffer : OfferOk o n) {env : ClientEnv}
    (hok : n.NegotiateOk o env) (hpc : n.client.pc = .doNegotiate .negoEndMsg)
    (hopt : (GdnpOption.parseBits o (n.client.buffer.mem env.after) env.uninit).type = .accept)
    (es : List NetEvent) :
    n.Agrees o es ⟨.negoEndMsg, n.client.buffer⟩ (ObjectiveOption.parseBits o
      (n.client.lastTopOptions.mem env.afterLast) env.uninit).getValue := by
  obtain ⟨-, -, offer, msg, hlast, hreply, hmsg, htype, -⟩ := hi.alone hpc (by decide)
  have haccept : Content.optionType o ⟨.negoEndMsg, n.client.buffer⟩ = some .accept := by
    rw [Content.parseBits_type (c := ⟨.negoEndMsg, n.client.buffer⟩)] at hopt
    obtain ⟨t, ht⟩ := Option.ne_none_iff_exists'.1 htype
    rw [ht] at hopt ⊢
    exact congrArg some hopt
  obtain ⟨hisOffer, hfits⟩ := hoffer offer hlast
  have hvalue : Content.value o ⟨.requestMsg, n.client.lastTopOptions⟩ = offer.value o := by
    obtain hrequest | hnego := hisOffer
    · exact hok.accepted hpc haccept offer hlast hrequest
    · rw [hi.stored (by rw [hpc]; trivial) offer hlast hnego]
      rfl
  have hget := Content.parseBits_getValue (hfits.of_value_eq hvalue) env.afterLast env.uninit
  exact .inl ⟨offer, ⟨msg, hlast, hreply, hmsg⟩, rfl, haccept, hget.trans hvalue⟩

/-- The two calls of `do_configuration`. -/
theorem Client.Step.configured_cases {c c' : Client} {env : ClientEnv} {es : List ClientEvent}
    (h : Client.Step o env c c' es) {recved : Content} {v : List UInt8}
    (hv : .configured recved v ∈ es) :
    (c.pc = .doNegotiate .negoMsg ∧ env.geq = true ∧ recved = ⟨.negoMsg, c.buffer⟩ ∧
      v = (ObjectiveOption.parseBits o (c.buffer.mem env.after) env.uninit).getValue ∧
      ∀ msg, (writePdu (acceptOption.toBits o) .negoEndMsg c.sessionId env.write).2 = some msg →
        .wrote (some ⟨.negoMsg, c.buffer⟩) msg ∈ es) ∨
    (c.pc = .doNegotiate .negoEndMsg ∧ recved = ⟨.negoEndMsg, c.buffer⟩ ∧
      (GdnpOption.parseBits o (c.buffer.mem env.after) env.uninit).type = .accept ∧
      v = (ObjectiveOption.parseBits o
        (c.lastTopOptions.mem env.afterLast) env.uninit).getValue) := by
  cases h with
  | @accept e msg pc hgeq hw =>
    obtain ⟨rfl, rfl⟩ : recved = _ ∧ v = _ := by simpa using hv
    refine .inl ⟨pc, hgeq, rfl, rfl, fun m hm => ?_⟩
    rw [hw] at hm
    obtain rfl := Option.some.inj hm
    exact List.mem_cons_self
  | acceptFails pc hgeq hw =>
    obtain ⟨rfl, rfl⟩ : recved = _ ∧ v = _ := by simpa using hv
    refine .inl ⟨pc, hgeq, rfl, rfl, fun m hm => ?_⟩
    rw [hw] at hm
    cases hm
  | endAccept pc hopt =>
    obtain ⟨rfl, rfl⟩ : recved = _ ∧ v = _ := by simpa using hv
    exact .inr ⟨pc, rfl, hopt, rfl⟩
  | _ => simp at hv

/-- The Accept of the client can be written unless `write` fails. -/
theorem Inv.write_accept (hi : Inv o request n) {env : ClientEnv}
    (hpc : n.client.pc = .doNegotiate .negoMsg) (hout : env.write.outcome = .success) :
    ∃ e msg, writePdu (acceptOption.toBits o) .negoEndMsg n.client.sessionId env.write =
      (e, some msg) := by
  obtain ⟨-, -, offer, -, hlast, -⟩ := hi.alone hpc (by decide)
  have hwritable : Writable (acceptOption.toBits o) n.client.sessionId := by
    refine ⟨?_, hi.writable (by rw [hlast]; rfl)⟩
    rw [GdnpOption.length_toBits]
    decide
  have hsome : (writePdu (acceptOption.toBits o) .negoEndMsg n.client.sessionId
      env.write).2.isSome :=
    writePdu_isSome_iff.2 (writePdu_success_iff.2 ⟨hwritable, hout⟩)
  obtain ⟨msg, hmsg⟩ := Option.isSome_iff_exists.1 hsome
  exact ⟨_, msg, Prod.ext rfl hmsg⟩

theorem Inv.step_agrees (hi : Inv o request n) (hoffer : OfferOk o n) {a : NetAct}
    (hok : Agreeable o n a) {es : List NetEvent} (h : n.step o a = some (n', es))
    {recved : Content} {v : List UInt8} (hv : .client (.configured recved v) ∈ es) :
    n.Agrees o es recved v := by
  cases Net.step_cases h with
  | @client env c ces hc =>
    obtain ⟨e, hmem, he⟩ := List.mem_map.1 hv
    cases he
    obtain ⟨pc, hgeq, rfl, rfl, hwrote⟩ | ⟨pc, rfl, hopt, rfl⟩ := hc.configured_cases hmem
    · obtain ⟨e, msg, hw⟩ := hi.write_accept pc (hok.2.accept pc hgeq)
      exact hi.agrees_accept pc hw (List.mem_map_of_mem (hwrote msg (congrArg Prod.snd hw)))
    · exact hi.agrees_accepted hoffer hok.2 pc hopt _
  | recv hpc hn hc =>
    obtain ⟨e, hmem, he⟩ := List.mem_map.1 hv
    cases he
    obtain ⟨pc, -⟩ | ⟨pc, -⟩ := hc.configured_cases hmem <;>
    · rw [hpc] at pc
      cases pc
  | drop => exact absurd hv List.not_mem_nil
  | deliver => exact absurd hv List.not_mem_nil
  | server =>
    obtain ⟨e, -, he⟩ := List.mem_map.1 hv
    cases he

/-! ## Runs -/

/-- The value that is configured, and the type of the message on account of which. -/
def NetEvent.configured? : NetEvent → Option (MsgType × List UInt8)
  | client (.configured recved v) => some (recved.type, v)
  | _ => none

theorem mem_of_configured? {es : List NetEvent} {type : MsgType} {v : List UInt8}
    (h : es.filterMap NetEvent.configured? = [(type, v)]) :
    ∃ recved, recved.type = type ∧ .client (.configured recved v) ∈ es := by
  have hmem : (type, v) ∈ es.filterMap NetEvent.configured? := by
    rw [h]
    exact List.mem_singleton_self _
  obtain ⟨e, he, hv⟩ := List.mem_filterMap.1 hmem
  cases e with
  | client e =>
    cases e with
    | configured recved w =>
      obtain ⟨rfl, rfl⟩ := Prod.mk.inj (Option.some.inj hv)
      exact ⟨recved, rfl, he⟩
    | _ => cases hv
  | server e => cases hv

/-- In a run with a request that fits into its buffer and whose steps are agreeable, the client
configures no value but the one on which the parties have settled. -/
theorem configured_agrees {c : Client} {sessionId : UInt32} {bufferObj : CString}
    {loopCount flag : UInt8} {as : List (NetAct × List NetEvent)} {a : NetAct × List NetEvent}
    {t t' : Option Net} {es es' : List NetEvent}
    (hlen : bufferObj.bytes.length + ObjectiveOption.lenExceptValue ≤ maxStringLength)
    (hok : (Net.machine o).Guarded (Agreeable o)
      (.start (c.negotiate o sessionId bufferObj loopCount flag)) ((as ++ [a]).map Prod.fst))
    (hrun : (Net.process o).run (some (.start (c.negotiate o sessionId bufferObj loopCount flag)))
      as = some (t, es))
    (hstep : (Net.process o).step t a = some (t', es')) {recved : Content} {v : List UInt8}
    (hv : .client (.configured recved v) ∈ es') : ∃ n ∈ t, n.Agrees o es' recved v := by
  have hreq : Content.Fits o
      ⟨.requestMsg, (c.negotiate o sessionId bufferObj loopCount flag).buffer⟩ :=
    ((c.carries_negotiate sessionId bufferObj loopCount flag).value_objectiveOf hlen).1
  obtain ⟨n, n', rfl, hok, hmachine, hlast, hlaststep⟩ :=
    EventMachine.step_orUndefined (fun _ _ h => h.inBounds) hok hrun hstep
  have hstart : Inv o (c.negotiate o sessionId bufferObj loopCount flag).buffer _ ∧
      OfferOk o (.start (c.negotiate o sessionId bufferObj loopCount flag)) :=
    ⟨inv_negotiate c sessionId bufferObj loopCount flag, fun k hk => by cases hk⟩
  have hend := EventMachine.run_preserves
    (I := fun n => Inv o (c.negotiate o sessionId bufferObj loopCount flag).buffer n ∧ OfferOk o n)
    (fun n a n' es hn hok h => ⟨inv_step hn.1 hok.noPhantom h, hn.1.step_offerOk hreq hok h hn.2⟩)
    hstart hok hmachine
  exact ⟨n, rfl, hend.1.step_agrees hend.2 hlast hlaststep hv⟩

/-- A client whose `lastTopOptions` already holds the request, which the session accepts. -/
theorem configured_agrees_again :
    ∃ t es t' es' recved, (Net.process .little).run
        (some (.start ((Client.new (ServerSession.offer .requestMsg .negotiation 5).data).negotiate
          .little 0 valueA 5 0)))
        ((Net.opening ++ Net.answering true ++ [NetAct.recv (Client.sample .fail false)]).map
          (·, [])) = some (t, es) ∧
      (Net.process .little).step t (.client (Client.sample .fail false), []) = some (t', es') ∧
      .client (.configured recved valueA.bytes) ∈ es' ∧
      ∃ n ∈ t, n.Agrees .little es' recved valueA.bytes := by
  have hvalue : ((Net.process .little).run
      (some (.start ((Client.new (ServerSession.offer .requestMsg .negotiation 5).data).negotiate
        .little 0 valueA 5 0)))
      ((Net.opening ++ Net.answering true ++ [NetAct.recv (Client.sample .fail false)]).map
        (·, []))).bind
      (fun r => ((Net.process .little).step r.1 (.client (Client.sample .fail false), [])).map
        (·.2.filterMap NetEvent.configured?)) = some [(.negoEndMsg, valueA.bytes)] := by
    decide +kernel
  obtain ⟨⟨t, es⟩, hrun, hmap⟩ := Option.bind_eq_some_iff.1 hvalue
  obtain ⟨⟨t', es'⟩, hstep, hes⟩ := Option.map_eq_some_iff.1 hmap
  obtain ⟨recved, -, hmem⟩ := mem_of_configured? hes
  exact ⟨t, es, t', es', recved, hrun, hstep, hmem,
    configured_agrees (by decide) (by decide +kernel) hrun hstep hmem⟩

/-- When the session accepts the request of a new client at once, the client configures what the
zeros in `lastTopOptions` stand for, the empty value. -/
theorem not_configured_agrees :
    ¬ ∀ (o : ByteOrder) (c : Client) (sessionId : UInt32) (bufferObj : CString)
        (loopCount flag : UInt8) (as : List (NetAct × List NetEvent))
        (a : NetAct × List NetEvent) (t t' : Option Net) (es es' : List NetEvent)
        (recved : Content) (v : List UInt8),
      (Net.process o).run (some (.start (c.negotiate o sessionId bufferObj loopCount flag))) as =
        some (t, es) →
      (Net.process o).step t a = some (t', es') → .client (.configured recved v) ∈ es' →
      ∃ n ∈ t, n.Agrees o es' recved v := by
  intro h
  have hvalue : ((Net.process .little).run
      (some (.start ((Client.new (CharArray.zero _)).negotiate .little 0 valueA 5 0)))
      ((Net.opening ++ Net.answering true ++ [NetAct.recv (Client.sample .fail false)]).map
        (·, []))).bind
      (fun r => ((Net.process .little).step r.1 (.client (Client.sample .fail false), [])).map
        fun q => (q.2.filterMap NetEvent.configured?,
          r.1.map fun n => n.history.offer.map (Content.value .little))) =
      some ([(.negoEndMsg, [])], some (some valueA.bytes)) := by decide +kernel
  obtain ⟨⟨t, es⟩, hrun, hmap⟩ := Option.bind_eq_some_iff.1 hvalue
  obtain ⟨⟨t', es'⟩, hstep, hes⟩ := Option.map_eq_some_iff.1 hmap
  obtain ⟨hconfigured, hoffer⟩ := Prod.mk.inj hes
  obtain ⟨recved, htype, hmem⟩ := mem_of_configured? hconfigured
  obtain ⟨n, rfl, hagrees⟩ :=
    h .little _ 0 _ 5 0 _ _ t t' es es' recved [] hrun hstep hmem
  replace hoffer : n.history.offer.map (Content.value .little) = some valueA.bytes :=
    Option.some.inj hoffer
  obtain ⟨offer, ⟨msg, hlast, -⟩, -, -, hv⟩ | ⟨-, hnego, -⟩ := hagrees
  · rw [hlast, Option.map_some, ← hv] at hoffer
    cases hoffer
  · rw [htype] at hnego
    cases hnego

end Gdnp
