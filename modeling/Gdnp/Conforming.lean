import Gdnp.Token

/-!
# A conforming negotiation is bounded by its loop count

When the client takes no failed read for a message, every NEGO_MSG of an exchange is a counter-offer
to the message it answers, no decrement for an offer goes below zero, and the request and all
NEGO_MSGs together are at most as many as the loop count of the request
(`negotiation_le_loopCount`).

The client also takes over and decrements the loop count it reads in a WAIT_MSG and in a
NEGO_END_MSG, where it finds 0 in an Accept, but does not use it then.  If a failed read is taken
for a message, the client answers the message that is still in its buffer once more
(`not_negotiation_le_loopCount`).
-/

open CMem

namespace Gdnp

variable {o : ByteOrder} {request : CharArray maxStringLength} {n n' : Net}

/-! ## Written offers -/

/-- A NEGO_MSG is a counter-offer to the message it answers. -/
def NetEvent.Conforms (o : ByteOrder) : NetEvent → Prop
  | client (.wrote answers msg) => msg.hasType (· = .negoMsg) →
    ∃ c k, answers = some c ∧ Content.ofMsg msg = some k ∧ CounterOf o c k
  | server (.wrote answers msg) => msg.hasType (· = .negoMsg) →
    ∃ c k, answers = some c ∧ Content.ofMsg msg = some k ∧ CounterOf o c k
  | _ => True

theorem not_hasType_nego {data : List UInt8} {type : MsgType} {sessionId : UInt32} {env : WriteEnv}
    {e : Errno} {msg : Msg} (hw : writePdu data type sessionId env = (e, some msg))
    (ht : type ≠ .negoMsg) : ¬ msg.hasType (· = .negoMsg) := by
  rw [Msg.hasType_of_writePdu hw, decide_eq_true_eq]
  exact ht

theorem Client.Step.conforms {c c' : Client} {env : ClientEnv} {es : List ClientEvent}
    (h : Client.Step o env c c' es)
    (hpos : c.pc = .doNegotiate .negoMsg → 1 ≤ (Content.loopCount o ⟨.negoMsg, c.buffer⟩).toNat) :
    ∀ e ∈ es, (NetEvent.client e).Conforms o := by
  intro e he
  cases h with
  | request pc hloop hw =>
    rw [List.mem_singleton.1 he]
    exact fun ht => absurd ht (not_hasType_nego hw (by decide))
  | accept pc hgeq hw =>
    rcases List.mem_pair.1 he with rfl | rfl
    · exact fun ht => absurd ht (not_hasType_nego hw (by decide))
    · trivial
  | decline pc hgeq hloop hw =>
    rw [List.mem_singleton.1 he]
    exact fun ht => absurd ht (not_hasType_nego hw (by decide))
  | counter pc hgeq hloop hw =>
    rw [List.mem_singleton.1 he]
    intro _
    have hmsg := Content.ofMsg_of_writePdu hw
    rw [Content.ofBits_bytes] at hmsg
    exact ⟨_, _, rfl, hmsg, counterOf_counterOffer (hpos pc) hloop⟩
  | readMsg => rw [List.mem_singleton.1 he]; trivial
  | readPhantom => rw [List.mem_singleton.1 he]; trivial
  | acceptFails => rw [List.mem_singleton.1 he]; trivial
  | endAccept => rw [List.mem_singleton.1 he]; trivial
  | _ => exact absurd he List.not_mem_nil

theorem ServerSession.step_conforms {s s' : ServerSession} {a : SessionAct}
    {es : List SessionEvent} (h : s.step o a = some (s', es)) (hok : s.runPc.HeldOk o)
    (hpos : ∀ c ∈ s.msgs, c.IsOffer → 1 ≤ (c.loopCount o).toNat) :
    ∀ e ∈ es, (NetEvent.server e).Conforms o := by
  intro e he
  cases a with
  | push c =>
    cases h
    exact absurd he List.not_mem_nil
  | run env =>
    cases ServerSession.runStep_cases h with
    | @sendNego c r _ msg pc ht hw =>
      rw [pc] at hok
      obtain ⟨hoffer, after, uninit, d, geq, rfl⟩ := hok
      have hc : c ∈ s.msgs := ServerSession.mem_msgs (by rw [pc]; rfl)
      obtain ⟨k, hk, hcounter, -⟩ := counterOf_reply (hpos c hc hoffer) ht hw
      rcases List.mem_pair.1 he with rfl | rfl
      · trivial
      · exact fun _ => ⟨c, k, rfl, hk, hcounter⟩
    | sendEnd pc ht hw =>
      rcases List.mem_pair.1 he with rfl | rfl
      · trivial
      · exact fun hnego => absurd hnego (not_hasType_nego hw ht)
    | popSkip => rw [List.mem_singleton.1 he]; trivial
    | pop => rw [List.mem_singleton.1 he]; trivial
    | sendRefused => rw [List.mem_singleton.1 he]; trivial
    | sendFails => rw [List.mem_singleton.1 he]; trivial
    | _ => exact absurd he List.not_mem_nil
  | wait k env =>
    obtain ⟨t, t', -, hstep, -⟩ := ServerSession.step_wait_iff.1 h
    obtain rfl | ⟨msg, rfl, hw⟩ := ServerSession.waitStep_events hstep
    · exact absurd he List.not_mem_nil
    · rw [List.mem_singleton.1 he]
      exact fun hnego => absurd hnego (not_hasType_nego (Prod.ext rfl hw) (by decide))
  | ends k =>
    obtain ⟨t, t', s₁, -, -, -, rfl⟩ := ServerSession.step_ends_iff.1 h
    exact absurd he List.not_mem_nil

/-- While `do_negotiate` works on a counter-offer, its loop count is positive. -/
theorem Inv.one_le_buffer (hi : Inv o request n) (hpc : n.client.pc = .doNegotiate .negoMsg) :
    1 ≤ (Content.loopCount o ⟨.negoMsg, n.client.buffer⟩).toNat := by
  obtain ⟨-, -, offer, reply, -, -, -, -, hnego⟩ := hi.alone hpc (by decide)
  exact (hnego rfl).1

theorem Inv.step_conforms (hi : Inv o request n) {a : NetAct} {es : List NetEvent}
    (h : n.step o a = some (n', es)) : ∀ e ∈ es, e.Conforms o := by
  intro e he
  cases Net.step_cases h with
  | client hc =>
    obtain ⟨e, hmem, rfl⟩ := List.mem_map.1 he
    exact hc.conforms hi.one_le_buffer e hmem
  | recv pc hn hc =>
    obtain ⟨e, hmem, rfl⟩ := List.mem_map.1 he
    exact hc.conforms hi.one_le_buffer e hmem
  | drop => exact absurd he List.not_mem_nil
  | deliver => exact absurd he List.not_mem_nil
  | server ha hs hs' =>
    obtain ⟨e, hmem, rfl⟩ := List.mem_map.1 he
    exact ServerSession.step_conforms hs' (hi.session _ hs).2
      (fun c hc hoffer => (hi.session_offer hs hc hoffer).2.1) e hmem

/-! ## Decrements -/

/-- No decrement that a party may make next for an offer goes below zero. -/
structure Net.DecrementsOk (o : ByteOrder) (n : Net) : Prop where
  request : n.client.pc = .request → n.client.loopCount ≠ 0 → 0 ≤ n.client.loopCount - 1
  negoMsg : n.client.pc = .doNegotiate .negoMsg → ∀ env, 0 ≤ (n.client.adopt o env).loopCount
  server : ∀ s ∈ n.session, ∀ c d, s.runPc = .decide c d → ∀ after uninit,
    (recvOption o c after uninit).loopCount.toNat + 1 = (c.loopCount o).toNat

theorem Inv.decrementsOk (hi : Inv o request n) : n.DecrementsOk o where
  request pc hne := by
    have hloop := (hi.setup (by rw [pc]; trivial)).2.2
    omega
  negoMsg pc env := by
    have hpos := hi.one_le_buffer pc
    have hl : (n.client.adopt o env).loopCount =
        ((Content.loopCount o ⟨.negoMsg, n.client.buffer⟩).toNat : ℤ) - 1 := by
      rw [← Content.parseBits_loopCount env.after env.uninit]
      rfl
    omega
  server s hs c d pc after uninit := by
    have hheld := (hi.session s hs).2
    rw [pc] at hheld
    have hmem : c ∈ s.msgs := ServerSession.mem_msgs (by rw [pc]; rfl)
    rw [recvOption_loopCount]
    exact toNat_sub_one (hi.session_offer hs hmem hheld).2.1

/-! ## Counting -/

/-- `do_negotiate` is called on a NEGO_MSG. -/
def NetEvent.isNegotiated : NetEvent → Bool
  | client (.received c) => c.type = .negoMsg
  | _ => false

theorem History.foldl_offers (h : History) (es : List NetEvent) :
    (es.foldl History.next h).offers = h.offers + es.countP NetEvent.isOffer := by
  induction es generalizing h with
  | nil => rfl
  | cons e es ih =>
    rw [List.foldl_cons, ih, History.next_offers, List.countP_cons]
    omega

theorem Net.distribute_client (n : Net) (d : Decoded) (last : Content) :
    (n.distribute d last).history = n.history ∧ (n.distribute d last).toClient = n.toClient := by
  unfold distribute
  split <;> split_ifs <;> exact ⟨rfl, rfl⟩

theorem step_offers {a : NetAct} {es : List NetEvent} (h : n.step o a = some (n', es)) :
    n'.history.offers = n.history.offers + es.countP NetEvent.isOffer := by
  cases Net.step_cases h with
  | client => exact History.foldl_offers _ _
  | recv => exact History.foldl_offers _ _
  | drop => rfl
  | deliver =>
    rw [(Net.distribute_client _ _ _).1]
    rfl
  | server => exact History.foldl_offers _ _

/-- A step of the client that is not the end of a call of `read_pdu` calls no `do_negotiate`. -/
theorem Client.Step.countP_isNegotiated {c c' : Client} {env : ClientEnv} {es : List ClientEvent}
    (h : Client.Step o env c c' es) (hpc : ∀ type, c'.pc ≠ .doNegotiate type) :
    (es.map NetEvent.client).countP NetEvent.isNegotiated = 0 := by
  cases h with
  | readMsg => exact absurd rfl (hpc _)
  | readPhantom => exact absurd rfl (hpc _)
  | _ => rfl

/-- A message that `read_pdu` reads is handed to `do_negotiate` at most once. -/
theorem Client.Step.countP_isNegotiated_pdu {c c' : Client} {env : ClientEnv} {msg : Msg}
    {d : Decoded} {es : List ClientEvent} (h : Client.Step o env c c' es)
    (hr : env.read = .pdu msg) (hd : decode (some msg) = .ok d) :
    (es.map NetEvent.client).countP NetEvent.isNegotiated ≤
      [msg].countP (Msg.hasType (· = .negoMsg)) := by
  cases h with
  | readMsg pc hr' hd' hid =>
    rw [hr] at hr'
    cases hr'
    simp [NetEvent.isNegotiated, List.countP_cons, Msg.hasType, Content.ofMsg_eq hd']
  | readPhantom pc hsite hr' hid =>
    obtain ⟨hfail, -⟩ | ⟨msg', e, hpdu, he, -⟩ := hr'
    · rw [hr] at hfail
      cases hfail
    · rw [hr] at hpdu
      cases hpdu
      rw [hd] at he
      cases he
  | _ => exact Nat.zero_le _

/-- What the session writes goes onto the channel. -/
theorem countP_withSession (s : ServerSession) (es : List SessionEvent) (n : Net) :
    (n.withSession s es).toClient.countP (Msg.hasType (· = .negoMsg)) =
      n.toClient.countP (Msg.hasType (· = .negoMsg)) +
        (es.map NetEvent.server).countP NetEvent.isOffer := by
  rw [Net.withSession, List.countP_append, List.countP_filterMap, List.countP_map]
  congr 1
  apply List.countP_congr
  intro e _
  cases e <;> simp [SessionEvent.msg?, NetEvent.isOffer]

/-- A step hands at most as many NEGO_MSGs to `do_negotiate` as it takes off the channel to the
client. -/
theorem Inv.step_countP_isNegotiated (hi : Inv o request n) {a : NetAct} (hok : NoPhantom n a)
    {es : List NetEvent} (h : n.step o a = some (n', es)) :
    es.countP NetEvent.isNegotiated + n'.toClient.countP (Msg.hasType (· = .negoMsg)) ≤
      n.toClient.countP (Msg.hasType (· = .negoMsg)) + es.countP NetEvent.isOffer := by
  cases Net.step_cases h with
  | client hc =>
    rw [hc.countP_isNegotiated (not_doNegotiate_of_noPhantom hok hc), Nat.zero_add]
    exact Nat.le_add_right _ _
  | @recv _ _ _ _ msg msgs _ _ pc hn hc =>
    obtain ⟨d, hd, -⟩ := hi.link msg (.inr (by rw [hn]; exact List.mem_cons_self))
    have hone := hc.countP_isNegotiated_pdu rfl hd
    show _ + msgs.countP _ ≤ _
    rw [hn, List.countP_cons]
    rw [List.countP_singleton] at hone
    omega
  | drop => simp
  | deliver => simp [(Net.distribute_client _ _ _).2]
  | @server _ s s' ses ha hs hs' =>
    rw [countP_withSession]
    have hzero : (ses.map NetEvent.server).countP NetEvent.isNegotiated = 0 := by
      rw [List.countP_map, List.countP_eq_zero]
      intro e _
      exact Bool.false_ne_true
    omega

/-! ## Runs -/

/-- What holds along a run that starts with a request. -/
structure Conforming (o : ByteOrder) (request : CharArray maxStringLength) (n : Net)
    (es : List NetEvent) : Prop where
  inv : Inv o request n
  conforms : ∀ e ∈ es, e.Conforms o
  offers : n.history.offers = es.countP NetEvent.isOffer
  negotiated : es.countP NetEvent.isNegotiated + n.toClient.countP (Msg.hasType (· = .negoMsg)) ≤
    es.countP NetEvent.isOffer

theorem Conforming.step {a : NetAct} {es t : List NetEvent} (hc : Conforming o request n t)
    (hok : NoPhantom n a) (h : n.step o a = some (n', es)) : Conforming o request n' (t ++ es) where
  inv := inv_step hc.inv hok h
  conforms e he := (List.mem_append.1 he).elim (hc.conforms e) (hc.inv.step_conforms h e)
  offers := by rw [step_offers h, hc.offers, List.countP_append]
  negotiated := by
    have hstep := hc.inv.step_countP_isNegotiated hok h
    have hsofar := hc.negotiated
    rw [List.countP_append, List.countP_append]
    omega

theorem Conforming.run {as : List NetAct} {es t : List NetEvent} (hc : Conforming o request n t)
    (hok : (Net.machine o).Guarded NoPhantom n as)
    (hrun : (Net.machine o).run n as = some (n', es)) : Conforming o request n' (t ++ es) := by
  apply EventMachine.run_preserves_trace _ hc hok hrun
  intro n t a n' es hc hok h
  exact hc.step hok h

theorem Client.carries_negotiate (c : Client) (sessionId : UInt32) (bufferObj : CString)
    (loopCount flag : UInt8) :
    Content.Carries o ⟨.requestMsg, (c.negotiate o sessionId bufferObj loopCount flag).buffer⟩
      (objectiveOf .negotiation bufferObj loopCount flag) :=
  ⟨c.buffer, rfl⟩

/-- The invariant at the start of the thread. -/
theorem inv_negotiate (c : Client) (sessionId : UInt32) (bufferObj : CString)
    (loopCount flag : UInt8) :
    Inv o (c.negotiate o sessionId bufferObj loopCount flag).buffer
      (.start (c.negotiate o sessionId bufferObj loopCount flag)) := by
  refine inv_start trivial rfl ?_
  rw [(c.carries_negotiate sessionId bufferObj loopCount flag).loopCount_eq]
  rfl

/-- Every NEGO_MSG of an exchange is a counter-offer to the message it answers, no decrement for an
offer goes below zero, and the request and all NEGO_MSGs are together at most `loopCount`, as are
the calls of `do_negotiate` on a NEGO_MSG. -/
theorem negotiation_le_loopCount {c : Client} {sessionId : UInt32} {bufferObj : CString}
    {loopCount flag : UInt8} {as : List NetAct} {es : List NetEvent}
    (hok : (Net.machine o).Guarded NoPhantom
      (.start (c.negotiate o sessionId bufferObj loopCount flag)) as)
    (hrun : (Net.machine o).run (.start (c.negotiate o sessionId bufferObj loopCount flag)) as =
      some (n, es)) :
    (∀ e ∈ es, e.Conforms o) ∧ n.DecrementsOk o ∧ es.countP NetEvent.isOffer ≤ loopCount.toNat ∧
      es.countP NetEvent.isNegotiated ≤ loopCount.toNat := by
  have hstart : Conforming o _ (.start (c.negotiate o sessionId bufferObj loopCount flag)) [] :=
    ⟨inv_negotiate c sessionId bufferObj loopCount flag,
      fun e he => absurd he List.not_mem_nil, rfl, le_rfl⟩
  have hend := hstart.run hok hrun
  rw [List.nil_append] at hend
  have hbound := hend.inv.bound
  rw [(c.carries_negotiate sessionId bufferObj loopCount flag).loopCount_eq, hend.offers] at hbound
  have hnegotiated := hend.negotiated
  refine ⟨hend.conforms, hend.inv.decrementsOk, hbound, ?_⟩
  exact (Nat.le_add_right _ _).trans (hnegotiated.trans hbound)

/-- A client of loop count 5 that has answered one counter-offer. -/
theorem negotiation_le_loopCount_five :
    ∃ n es, (Net.machine .little).run
        (.start ((Client.new (CharArray.zero _)).negotiate .little 0 valueA 5 0))
        (Net.opening ++ Net.answering false ++
          [.recv (Client.sample .fail false), .client (Client.sample .fail false)]) =
          some (n, es) ∧
      es.countP NetEvent.isOffer = 3 ∧ (∀ e ∈ es, e.Conforms .little) ∧ n.DecrementsOk .little ∧
      es.countP NetEvent.isNegotiated ≤ 5 := by
  have hthree : ((Net.machine .little).run
      (.start ((Client.new (CharArray.zero _)).negotiate .little 0 valueA 5 0))
      (Net.opening ++ Net.answering false ++
        [.recv (Client.sample .fail false), .client (Client.sample .fail false)])).map
      (·.2.countP NetEvent.isOffer) = some 3 := by decide +kernel
  obtain ⟨⟨n, es⟩, hrun, hes⟩ := Option.map_eq_some_iff.1 hthree
  obtain ⟨hconforms, hdecrements, -, hnegotiated⟩ :=
    negotiation_le_loopCount (by decide +kernel) hrun
  exact ⟨n, es, hrun, hes, hconforms, hdecrements, hnegotiated⟩

/-- An Accept makes the client's loop count negative.  A client of loop count 3 that takes a failed
read for a message after its counter-offer writes that counter-offer again, the fourth offer. -/
theorem not_negotiation_le_loopCount :
    (¬ ∀ (o : ByteOrder) (c : Client) (sessionId : UInt32) (bufferObj : CString)
        (loopCount flag : UInt8) (as : List NetAct) (n : Net) (es : List NetEvent),
      1 ≤ loopCount.toNat → (Net.machine o).run
        (.start (c.negotiate o sessionId bufferObj loopCount flag)) as = some (n, es) →
      0 ≤ n.client.loopCount) ∧
    ¬ ∀ (o : ByteOrder) (c : Client) (sessionId : UInt32) (bufferObj : CString)
        (loopCount flag : UInt8) (as : List NetAct) (n : Net) (es : List NetEvent),
      1 ≤ loopCount.toNat → (Net.machine o).run
        (.start (c.negotiate o sessionId bufferObj loopCount flag)) as = some (n, es) →
      es.countP NetEvent.isOffer ≤ loopCount.toNat := by
  refine ⟨fun h => ?_, fun h => ?_⟩
  · have hneg : ((Net.machine .little).run
        (.start ((Client.new (CharArray.zero _)).negotiate .little 0 valueA 3 0))
        (Net.opening ++ Net.answering true ++
          [.recv (Client.sample .fail false), .client (Client.sample .fail false)])).map
        (·.1.client.loopCount) = some (-1) := by decide +kernel
    obtain ⟨⟨n, es⟩, hrun, hn⟩ := Option.map_eq_some_iff.1 hneg
    have hle := h .little _ 0 _ 3 0 _ n es (by decide) hrun
    rw [hn] at hle
    exact absurd hle (by decide)
  · let counter : NetAct := .client { Client.sample .fail false with actual := 0 }
    have hfour : ((Net.machine .little).run
        (.start ((Client.new (CharArray.zero _)).negotiate .little 0 valueA 3 0))
        (Net.opening ++ Net.answering false ++ [.recv (Client.sample .fail false), counter,
          .client (Client.sample .fail false), counter])).map
        (·.2.countP NetEvent.isOffer) = some 4 := by decide +kernel
    obtain ⟨⟨n, es⟩, hrun, hes⟩ := Option.map_eq_some_iff.1 hfour
    have hle := h .little _ 0 _ 3 0 _ n es (by decide) hrun
    rw [hes] at hle
    exact absurd hle (by decide)

end Gdnp
