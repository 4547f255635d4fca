import Gdnp.Exchange

/-!
# One message at a time

The client waits for an answer before it writes again, and a session answers a message at most
once.  So at any time at most one message of an exchange still counts, WAIT_MSGs apart: it is the
client's most recent offer or the answer to it, and it is on its way, in the session's queue, or
held by one of the parties (`Tokens`).  `Inv` adds what the parties and the channels agree on; every
step keeps it in which the client does not take a failed read for a message (`NoPhantom`).
-/

open CMem

namespace Gdnp

/-! ## Counter-offers -/

/-- `k` answers the offer `c`: its loop count is one less and still positive, its flag the same. -/
def CounterOf (o : ByteOrder) (c k : Content) : Prop :=
  k.type = .negoMsg ∧ 1 ≤ (k.loopCount o).toNat ∧
    (k.loopCount o).toNat + 1 = (c.loopCount o).toNat ∧ k.flag o = c.flag o

theorem recvOption_loopCount (o : ByteOrder) (c : Content) (after : Mem) (uninit : OptionType) :
    (recvOption o c after uninit).loopCount = c.loopCount o - 1 :=
  congrArg (· - 1) (Content.parseBits_loopCount after uninit)

theorem recvOption_flag (o : ByteOrder) (c : Content) (after : Mem) (uninit : OptionType) :
    (recvOption o c after uninit).flag = c.flag o :=
  Content.parseBits_flag after uninit

theorem toNat_sub_one {x : UInt8} (h : 1 ≤ x.toNat) : (x - 1).toNat + 1 = x.toNat := by
  rw [UInt8.toNat_sub_of_le x 1 (UInt8.le_iff_toNat_le.2 h)]
  exact Nat.sub_add_cancel h

/-- The reply of a session is a counter-offer around the ASA's answer or ends the negotiation. -/
theorem reply_cases (o : ByteOrder) (recv : ObjectiveOption) (d : CString) (geq : Bool) :
    (∃ type, (reply o recv d geq).type = .negoMsg ∧ recv.loopCount ≠ 0 ∧
        (reply o recv d geq).bits = (objectiveOf type d recv.loopCount recv.flag).toBits o) ∨
      (reply o recv d geq).type = .negoEndMsg := by
  unfold reply
  dsimp only
  split_ifs with h₁ h₂ h₃
  · exact .inr rfl
  · exact .inl ⟨_, rfl, h₂.2, rfl⟩
  · exact .inr rfl
  · exact .inr rfl

theorem counterOf_reply {o : ByteOrder} {c : Content} {after : Mem} {uninit : OptionType}
    {d : CString} {geq : Bool} {sessionId : UInt32} {env : WriteEnv} {e : Errno} {msg : Msg}
    (hc : 1 ≤ (c.loopCount o).toNat)
    (ht : (reply o (recvOption o c after uninit) d geq).type = .negoMsg)
    (hw : writePdu (reply o (recvOption o c after uninit) d geq).bits
      (reply o (recvOption o c after uninit) d geq).type sessionId env = (e, some msg)) :
    ∃ k, Content.ofMsg msg = some k ∧ CounterOf o c k ∧ k.Fits o := by
  obtain ⟨type, -, hloop, hbits⟩ | hend := reply_cases o (recvOption o c after uninit) d geq
  · refine ⟨_, Content.ofMsg_of_writePdu hw, ?_⟩
    rw [ht]
    have hlen : ((objectiveOf type d (recvOption o c after uninit).loopCount
        (recvOption o c after uninit).flag).toBits o).length ≤ maxStringLength := by
      rw [← hbits]
      exact (decode_of_writePdu (congrArg Prod.snd hw)).1.1
    have hcarries : (Content.ofBits .negoMsg
        (reply o (recvOption o c after uninit) d geq).bits).Carries o
        (objectiveOf type d (recvOption o c after uninit).loopCount
          (recvOption o c after uninit).flag) := ⟨_, by rw [hbits]; rfl⟩
    have hsub := toNat_sub_one hc
    rw [← recvOption_loopCount o c after uninit] at hsub
    have hpos : (recvOption o c after uninit).loopCount.toNat ≠ 0 :=
      fun h => hloop (UInt8.toNat_inj.1 h)
    have hk : (Content.ofBits .negoMsg (reply o (recvOption o c after uninit) d geq).bits).loopCount
        o = (recvOption o c after uninit).loopCount := hcarries.loopCount_eq
    refine ⟨⟨rfl, ?_, ?_, hcarries.flag_eq.trans (recvOption_flag o c after uninit)⟩,
      hcarries.fits hlen⟩
    · rw [hk]
      omega
    · rw [hk]
      exact hsub
  · rw [hend] at ht
    cases ht

/-- The bits of a reply begin with the type of an option. -/
theorem reply_bits (o : ByteOrder) (recv : ObjectiveOption) (d : CString) (geq : Bool) :
    ∃ (t : OptionType) (rest : List UInt8),
      (reply o recv d geq).bits = o.toBytes 2 t.code ++ rest := by
  unfold reply
  dsimp only
  split_ifs
  · exact ⟨recv.type, _, by simp only [ObjectiveOption.toBits, List.append_assoc]; rfl⟩
  · exact ⟨recv.type, _, by simp only [ObjectiveOption.toBits, List.append_assoc]; rfl⟩
  · exact ⟨.decline, _, by simp only [GdnpOption.toBits, List.append_assoc]; rfl⟩
  · exact ⟨.accept, _, by simp only [GdnpOption.toBits, List.append_assoc]; rfl⟩

/-- A counter-offer of the client, whose `buffer` holds an offer. -/
theorem counterOf_counterOffer {o : ByteOrder} {c : Client} {env : ClientEnv}
    (hc : 1 ≤ (Content.loopCount o ⟨.negoMsg, c.buffer⟩).toNat)
    (hloop : (c.adopt o env).loopCount ≠ 0) :
    CounterOf o ⟨.negoMsg, c.buffer⟩ ⟨.negoMsg, (c.adopt o env).counterOffer o env⟩ := by
  have hcarries : Content.Carries o ⟨.negoMsg, (c.adopt o env).counterOffer o env⟩
      (objectiveOf .negotiation env.asaAnswer (UInt8.ofInt (c.adopt o env).loopCount)
        (c.adopt o env).flag) := ⟨env.sendBuffer, rfl⟩
  have hl : (c.adopt o env).loopCount =
      ((Content.loopCount o ⟨.negoMsg, c.buffer⟩).toNat : ℤ) - 1 := by
    rw [← Content.parseBits_loopCount env.after env.uninit]
    rfl
  have hlt := (Content.loopCount o ⟨.negoMsg, c.buffer⟩).toNat_lt
  have hk : (Content.loopCount o ⟨.negoMsg, (c.adopt o env).counterOffer o env⟩).toNat =
      (Content.loopCount o ⟨.negoMsg, c.buffer⟩).toNat - 1 := by
    rw [hcarries.loopCount_eq]
    show (UInt8.ofInt (c.adopt o env).loopCount).toNat = _
    rw [hl, UInt8.ofInt, UInt8.toNat_ofNat']
    omega
  rw [hl] at hloop
  refine ⟨rfl, ?_, ?_, ?_⟩
  · rw [hk]
    omega
  · rw [hk]
    omega
  · rw [hcarries.flag_eq]
    exact Content.parseBits_flag (c := ⟨.negoMsg, c.buffer⟩) env.after env.uninit

/-! ## The messages that count -/

/-- The message `do_negotiate` works on; a WAIT_MSG does not count. -/
def Client.held (c : Client) : List Content :=
  match c.pc with
  | .doNegotiate type => if type = .waitMsg then [] else [⟨type, c.buffer⟩]
  | _ => []

/-- The message the session thread works on, until it is answered or given up. -/
def RunPc.held : RunPc → List Content
  | setState c => [c]
  | writeState c _ => [c]
  | launchWait c => [c]
  | checkEnd c => [c]
  | upper c => [c]
  | setIdle c _ => [c]
  | decide c _ => [c]
  | sendSwitch c _ => [c]
  | sendWrite c _ => [c]
  | _ => []

def ServerSession.msgs (s : ServerSession) : List Content := s.q ++ s.runPc.held

theorem ServerSession.mem_msgs {s : ServerSession} {c : Content} (h : s.runPc.held = [c]) :
    c ∈ s.msgs := by
  rw [msgs, h]
  exact List.mem_append_right _ List.mem_cons_self

namespace Net

/-- Messages of the client that have not been answered. -/
def clientMsgs (n : Net) : List Content :=
  n.toServer.filterMap Content.ofMsg ++ n.session.elim [] ServerSession.msgs

/-- Answers on their way to the client. -/
def answers (n : Net) : List Content :=
  (n.toClient.filterMap Content.ofMsg).filter (·.type ≠ .waitMsg)

/-- Answers the client has not dealt with. -/
def serverMsgs (n : Net) : List Content := n.answers ++ n.client.held

end Net

/-- `c` was written by the session in answer to the client's most recent offer. -/
def IsReply (o : ByteOrder) (loopCount : ℕ) (h : History) (c : Content) : Prop :=
  ∃ offer msg, h.offer = some offer ∧ (offer, msg) ∈ h.replies ∧ Content.ofMsg msg = some c ∧
    c.optionType o ≠ none ∧
    (c.type = .negoMsg → 1 ≤ (c.loopCount o).toNat ∧
      h.offers + (c.loopCount o).toNat ≤ loopCount + 1 ∧ c.Fits o)

/-- At most one message counts.  If it is an offer or a counter-offer, its loop count limits how
many may still follow; `loopCount` is that of the request. -/
structure Tokens (o : ByteOrder) (loopCount : ℕ) (h : History) (client server : List Content) :
    Prop where
  few : client.length + server.length ≤ 1
  offer : ∀ c ∈ client, c.IsOffer → h.offer = some c ∧ 1 ≤ (c.loopCount o).toNat ∧
    h.offers + (c.loopCount o).toNat ≤ loopCount + 1
  reply : ∀ c ∈ server, IsReply o loopCount h c

theorem Tokens.mono {o : ByteOrder} {loopCount : ℕ} {h : History} {as as' bs bs' : List Content}
    (ht : Tokens o loopCount h as bs) (has : as' ⊆ as) (hbs : bs' ⊆ bs)
    (hlen : as'.length + bs'.length ≤ as.length + bs.length) : Tokens o loopCount h as' bs' where
  few := hlen.trans ht.few
  offer c hc := ht.offer c (has hc)
  reply c hc := ht.reply c (hbs hc)

/-! ## The invariant -/

/-- What the session thread holds fits together. -/
def RunPc.HeldOk (o : ByteOrder) : RunPc → Prop
  | upper c => c.IsOffer
  | setIdle c _ => c.IsOffer
  | decide c _ => c.IsOffer
  | sendSwitch c r => c.IsOffer ∧
    ∃ after uninit d geq, r = reply o (recvOption o c after uninit) d geq
  | sendWrite c r => c.IsOffer ∧
    ∃ after uninit d geq, r = reply o (recvOption o c after uninit) d geq
  | _ => True

/-- The client has written its request and not yet given up. -/
def ClientPc.Busy : ClientPc → Prop
  | read _ _ _ => True
  | doNegotiate _ => True
  | _ => False

/-- The invariant of an exchange that starts with `request` as the data of the request. -/
structure Inv (o : ByteOrder) (request : CharArray maxStringLength) (n : Net) : Prop where
  tokens : Tokens o (Content.loopCount o ⟨.requestMsg, request⟩).toNat n.history n.clientMsgs
    n.serverMsgs
  bound : n.history.offers ≤ (Content.loopCount o ⟨.requestMsg, request⟩).toNat
  setup : n.client.pc.Setup → n = .start n.client ∧ n.client.buffer = request ∧
    n.client.loopCount = (Content.loopCount o ⟨.requestMsg, request⟩).toNat
  link : ∀ msg, msg ∈ n.toServer ∨ msg ∈ n.toClient →
    ∃ d, decode (some msg) = .ok d ∧ d.sessionId = n.client.sessionId
  session : ∀ s ∈ n.session, s.sessionId = n.client.sessionId ∧ s.runPc.HeldOk o
  stored : n.client.pc.Busy → ∀ c ∈ n.history.offer, c.type = .negoMsg →
    n.client.lastTopOptions = c.data
  writable : n.history.offer.isSome → n.client.sessionId.toNat ≤ maxSessionId

variable {o : ByteOrder} {request : CharArray maxStringLength} {n : Net}

theorem inv_start {c : Client} (hpc : c.pc.Setup) (hbuf : c.buffer = request)
    (hloop : c.loopCount = (Content.loopCount o ⟨.requestMsg, request⟩).toNat) :
    Inv o request (.start c) where
  tokens := by
    have hheld : c.held = [] := by
      unfold Client.held
      cases h : c.pc with
      | doNegotiate type => rw [h] at hpc; exact hpc.elim
      | _ => rfl
    refine ⟨?_, ?_, ?_⟩ <;> simp [Net.start, Net.clientMsgs, Net.serverMsgs, Net.answers, hheld]
  bound := Nat.zero_le _
  setup _ := ⟨rfl, hbuf, hloop⟩
  link msg h := by simp [Net.start] at h
  session s h := by cases h
  stored _ c h := by cases h
  writable h := by cases h

/-- Nothing has been sent before the request. -/
theorem Inv.not_setup (hi : Inv o request n)
    (h : n.toServer ≠ [] ∨ n.session ≠ none ∨ n.toClient ≠ []) : ¬ n.client.pc.Setup := by
  intro hpc
  rw [(hi.setup hpc).1] at h
  simp [Net.start] at h

/-- A message the session writes carries the id of the exchange. -/
theorem Inv.link_written (hi : Inv o request n) {s : ServerSession} {bits : List UInt8}
    {type : MsgType} {env : WriteEnv} {e : Errno} {msg : Msg} (hs : n.session = some s)
    (hw : writePdu bits type s.sessionId env = (e, some msg)) :
    ∀ m, m ∈ n.toServer ∨ m ∈ n.toClient ++ [msg] →
      ∃ d, decode (some m) = .ok d ∧ d.sessionId = n.client.sessionId := by
  intro m hm
  rw [List.mem_append, List.mem_singleton, ← or_assoc] at hm
  obtain hm | rfl := hm
  · exact hi.link m hm
  · exact ⟨_, (decode_of_writePdu (congrArg Prod.snd hw)).2, (hi.session s hs).1⟩

/-- A message the client writes carries the id of the exchange. -/
theorem Inv.link_sent (hi : Inv o request n) {data : List UInt8} {type : MsgType} {env : WriteEnv}
    {e : Errno} {msg : Msg} (hw : writePdu data type n.client.sessionId env = (e, some msg)) :
    ∀ m, m ∈ n.toServer ++ [msg] ∨ m ∈ n.toClient →
      ∃ d, decode (some m) = .ok d ∧ d.sessionId = n.client.sessionId := by
  intro m hm
  rw [List.mem_append, List.mem_singleton, or_right_comm] at hm
  obtain hm | rfl := hm
  · exact hi.link m hm
  · exact ⟨_, (decode_of_writePdu (congrArg Prod.snd hw)).2, rfl⟩

/-! ### Steps of the client -/

/-- A step after which the client holds no message and has written none. -/
theorem Inv.client_quiet (hi : Inv o request n) {c : Client} {es : List ClientEvent}
    (hes : es.filterMap ClientEvent.msg? = [])
    (hh : (es.map NetEvent.client).foldl History.next n.history = n.history)
    (hheld : c.held = []) (hpc : ¬ c.pc.Setup) (hid : c.sessionId = n.client.sessionId)
    (hbusy : c.pc.Busy → n.client.pc.Busy ∧ c.lastTopOptions = n.client.lastTopOptions) :
    Inv o request (n.withClient c es) := by
  have hn : n.withClient c es = { n with client := c } := by
    simp only [Net.withClient, hes, hh, List.append_nil]
  rw [hn]
  refine ⟨?_, hi.bound, fun h => absurd h hpc, ?_, ?_, ?_, ?_⟩
  · apply hi.tokens.mono (List.Subset.refl _)
    · simp [Net.serverMsgs, Net.answers, hheld]
    · simp [Net.serverMsgs, Net.answers, Net.clientMsgs, hheld]
  · rw [hid]
    exact hi.link
  · rw [hid]
    exact hi.session
  · intro h
    obtain ⟨hb, hl⟩ := hbusy h
    rw [hl]
    exact hi.stored hb
  · rw [hid]
    exact hi.writable

/-- A step with which the client writes a message while no other counts. -/
theorem Inv.client_writes (hi : Inv o request n) {c : Client} {es : List ClientEvent}
    {data : List UInt8} {type : MsgType} {env : WriteEnv} {e : Errno} {msg : Msg} {h : History}
    (hw : writePdu data type n.client.sessionId env = (e, some msg))
    (hmsgs : n.clientMsgs = []) (hanswers : n.answers = []) (hheld : c.held = [])
    (hes : es.filterMap ClientEvent.msg? = [msg])
    (hh : (es.map NetEvent.client).foldl History.next n.history = h)
    (hpc : ¬ c.pc.Setup) (hid : c.sessionId = n.client.sessionId)
    (hoffer : (Content.ofBits type data).IsOffer → h.offer = some (.ofBits type data) ∧
      1 ≤ ((Content.ofBits type data).loopCount o).toNat ∧
      h.offers + ((Content.ofBits type data).loopCount o).toNat ≤
        (Content.loopCount o ⟨.requestMsg, request⟩).toNat + 1)
    (hbound : h.offers ≤ (Content.loopCount o ⟨.requestMsg, request⟩).toNat)
    (hstored : c.pc.Busy → ∀ k ∈ h.offer, k.type = .negoMsg → c.lastTopOptions = k.data) :
    Inv o request (n.withClient c es) := by
  have hn : n.withClient c es =
      { n with client := c, toServer := n.toServer ++ [msg], history := h } := by
    simp only [Net.withClient, hes, hh]
  rw [Net.clientMsgs, List.append_eq_nil_iff] at hmsgs
  rw [hn]
  refine ⟨?_, hbound, fun h => absurd h hpc, ?_, ?_, hstored, ?_⟩
  · -- The message is the only one that counts.
    show Tokens o _ _ ((n.toServer ++ [msg]).filterMap Content.ofMsg ++
      n.session.elim [] ServerSession.msgs) (n.answers ++ c.held)
    rw [List.filterMap_append, hmsgs.1, hmsgs.2, hanswers, hheld]
    simp only [List.filterMap_cons, List.filterMap_nil, Content.ofMsg_of_writePdu hw,
      List.nil_append, List.append_nil]
    refine ⟨le_rfl, fun k hk hko => ?_, fun k hk => absurd hk List.not_mem_nil⟩
    rw [List.mem_singleton] at hk
    subst hk
    exact hoffer hko
  · intro m hm
    obtain ⟨d, hd, hsession⟩ := hi.link_sent hw m hm
    exact ⟨d, hd, hsession.trans hid.symm⟩
  · intro t ht
    obtain ⟨hsession, hok⟩ := hi.session t ht
    exact ⟨hsession.trans hid.symm, hok⟩
  · intro _
    show c.sessionId.toNat ≤ _
    rw [hid]
    exact (decode_of_writePdu (congrArg Prod.snd hw)).1.2

/-- While `do_negotiate` works on an answer, no other message counts. -/
theorem Inv.alone (hi : Inv o request n) {type : MsgType} (hpc : n.client.pc = .doNegotiate type)
    (htype : type ≠ .waitMsg) :
    n.clientMsgs = [] ∧ n.answers = [] ∧
      IsReply o (Content.loopCount o ⟨.requestMsg, request⟩).toNat n.history
        ⟨type, n.client.buffer⟩ := by
  have hheld : n.client.held = [⟨type, n.client.buffer⟩] := by
    rw [Client.held, hpc]
    exact if_neg htype
  have hfew := hi.tokens.few
  rw [Net.serverMsgs, hheld, List.length_append, List.length_singleton] at hfew
  refine ⟨List.length_eq_zero_iff.1 (by omega), List.length_eq_zero_iff.1 (by omega), ?_⟩
  apply hi.tokens.reply
  rw [Net.serverMsgs, hheld]
  simp

theorem next_wrote {h : History} (answers : Option Content) {data : List UInt8} {type : MsgType}
    {sessionId : UInt32} {env : WriteEnv} {e : Errno} {msg : Msg}
    (hw : writePdu data type sessionId env = (e, some msg)) :
    h.next (.client (.wrote answers msg)) =
      if type = .requestMsg ∨ type = .negoMsg then ⟨some (.ofBits type data), [], h.offers + 1⟩
      else h := by
  rw [History.next, Msg.hasType_of_writePdu hw, Content.ofMsg_of_writePdu hw]
  simp only [decide_eq_true_eq]

theorem ClientPc.Setup.ne_doNegotiate {pc : ClientPc} (h : pc.Setup) {type : MsgType} :
    pc ≠ .doNegotiate type := by
  rintro rfl
  exact h

/-- The client writes its request. -/
theorem Inv.client_requests (hi : Inv o request n) {c : Client} {env : WriteEnv} {e : Errno}
    {msg : Msg} (hpc : n.client.pc = .request) (hloop : n.client.loopCount ≠ 0)
    (hw : writePdu n.client.buffer.bytes .requestMsg n.client.sessionId env = (e, some msg))
    (hheld : c.held = []) (hset : ¬ c.pc.Setup) (hid : c.sessionId = n.client.sessionId) :
    Inv o request (n.withClient c [.wrote none msg]) := by
  obtain ⟨hn, hbuf, hL⟩ := hi.setup (by rw [hpc]; trivial)
  have hoffers : n.history.offers = 0 := by rw [hn]; rfl
  have hnext := next_wrote (h := n.history) none hw
  rw [if_pos (.inl rfl)] at hnext
  refine hi.client_writes hw (by rw [hn]; rfl) (by rw [hn]; rfl) hheld rfl hnext hset hid
    (fun _ => ⟨rfl, ?_, ?_⟩) ?_ (fun _ k hk ht => ?_)
  · rw [Content.ofBits_bytes, hbuf]
    omega
  · show n.history.offers + 1 + _ ≤ _
    rw [Content.ofBits_bytes, hbuf]
    omega
  · show n.history.offers + 1 ≤ _
    omega
  · rw [← Option.some.inj hk] at ht
    cases ht

/-- The client answers a counter-offer with a NEGO_END_MSG. -/
theorem Inv.client_ends (hi : Inv o request n) {c : Client} {es : List ClientEvent}
    {data : List UInt8} {env : WriteEnv} {e : Errno} {msg : Msg}
    (hpc : n.client.pc = .doNegotiate .negoMsg)
    (hw : writePdu data .negoEndMsg n.client.sessionId env = (e, some msg))
    (hes : es.filterMap ClientEvent.msg? = [msg])
    (hh : (es.map NetEvent.client).foldl History.next n.history =
      n.history.next (.client (.wrote (some ⟨.negoMsg, n.client.buffer⟩) msg)))
    (hret : c.pc = .ret e) (hid : c.sessionId = n.client.sessionId) :
    Inv o request (n.withClient c es) := by
  obtain ⟨hmsgs, hanswers, -⟩ := hi.alone hpc (by decide)
  rw [next_wrote _ hw, if_neg (by decide)] at hh
  have hoffer : ¬ (Content.ofBits .negoEndMsg data).IsOffer := by rintro (h | h) <;> cases h
  refine hi.client_writes hw hmsgs hanswers ?_ hes hh ?_ hid (fun h => absurd h hoffer) hi.bound ?_
  · rw [Client.held, hret]
  · rw [hret]
    exact id
  · rw [hret]
    exact fun h => h.elim

/-- The client answers a counter-offer with another. -/
theorem Inv.client_counters (hi : Inv o request n) {env : ClientEnv} {c : Client} {e : Errno}
    {msg : Msg} (hpc : n.client.pc = .doNegotiate .negoMsg)
    (hloop : (n.client.adopt o env).loopCount ≠ 0)
    (hw : writePdu ((n.client.adopt o env).counterOffer o env).bytes .negoMsg n.client.sessionId
      env.write = (e, some msg))
    (hheld : c.held = []) (hset : ¬ c.pc.Setup) (hid : c.sessionId = n.client.sessionId)
    (hlast : c.lastTopOptions = (n.client.adopt o env).counterOffer o env) :
    Inv o request (n.withClient c [.wrote (some ⟨.negoMsg, n.client.buffer⟩) msg]) := by
  obtain ⟨hmsgs, hanswers, offer, reply, -, -, -, -, hnego⟩ := hi.alone hpc (by decide)
  obtain ⟨hpos, hle, -⟩ := hnego rfl
  obtain ⟨-, hk, hlt, -⟩ := counterOf_counterOffer hpos hloop
  have hnext := next_wrote (h := n.history) (some ⟨.negoMsg, n.client.buffer⟩) hw
  rw [if_pos (.inr rfl)] at hnext
  refine hi.client_writes hw hmsgs hanswers hheld rfl hnext hset hid (fun _ => ⟨rfl, ?_, ?_⟩) ?_
    (fun _ k hk ht => ?_)
  · rw [Content.ofBits_bytes]
    exact hk
  · show n.history.offers + 1 + _ ≤ _
    rw [Content.ofBits_bytes]
    omega
  · show n.history.offers + 1 ≤ _
    omega
  · rw [← Option.some.inj hk, Content.ofBits_bytes]
    exact hlast

/-- Every step of the client that does not end a call of `read_pdu` with a message keeps the
invariant. -/
theorem Inv.clientStep (hi : Inv o request n) {env : ClientEnv} {c : Client}
    {es : List ClientEvent} (h : Client.Step o env n.client c es)
    (hpc : ∀ type, c.pc ≠ .doNegotiate type) : Inv o request (n.withClient c es) := by
  cases h with
  | setup pc hpc' =>
    obtain ⟨hn, hbuf, hloop⟩ := hi.setup pc
    obtain hpc' | ⟨e, -, rfl⟩ := hpc'
    · rw [hn]
      exact inv_start hpc' hbuf hloop
    · exact hi.client_quiet rfl rfl rfl id rfl (fun h => h.elim)
  | request pc hloop hw => exact hi.client_requests pc hloop hw rfl id rfl
  | readAgain pc hr =>
    exact hi.client_quiet rfl rfl rfl id rfl (fun _ => ⟨by rw [pc]; trivial, rfl⟩)
  | readMsg => exact absurd rfl (hpc _)
  | readPhantom => exact absurd rfl (hpc _)
  | accept pc hgeq hw => exact hi.client_ends pc hw rfl rfl rfl rfl
  | decline pc hgeq hloop hw => exact hi.client_ends pc hw rfl rfl rfl rfl
  | counter pc hgeq hloop hw =>
    exact hi.client_counters pc hloop hw rfl id rfl (CharArray.memcpy_bytes_self _ _)
  | wait pc => exact hi.client_quiet rfl rfl rfl id rfl (fun _ => ⟨by rw [pc]; trivial, rfl⟩)
  -- The other steps end in `ret` or `idle` and write nothing.
  | _ => exact hi.client_quiet rfl rfl rfl id rfl (fun h => h.elim)

/-! ### Messages received -/

/-- Taking a message off the channel to the client keeps the invariant. -/
theorem Inv.dropAnswer (hi : Inv o request n) {msg : Msg} {msgs : List Msg}
    (hn : n.toClient = msg :: msgs) : Inv o request { n with toClient := msgs } where
  tokens := by
    have hsub : (msgs.filterMap Content.ofMsg).Sublist (n.toClient.filterMap Content.ofMsg) :=
      hn ▸ (List.sublist_cons_self msg msgs).filterMap _
    have hans := (hsub.filter fun c : Content => decide (c.type ≠ .waitMsg)).append_right
      n.client.held
    apply hi.tokens.mono (List.Subset.refl _) hans.subset
    exact Nat.add_le_add_left hans.length_le _
  bound := hi.bound
  setup h := absurd h (hi.not_setup (.inr (.inr (by simp [hn]))))
  link m hm := hi.link m (hm.imp_right fun h => by rw [hn]; exact List.mem_cons_of_mem _ h)
  session := hi.session
  stored := hi.stored
  writable := hi.writable

/-- A message read from the channel is handed to `do_negotiate`. -/
theorem Inv.readMsg (hi : Inv o request n) {msg : Msg} {msgs : List Msg} {d : Decoded} {t : ℕ}
    (hn : n.toClient = msg :: msgs) (hd : decode (some msg) = .ok d) {type : MsgType}
    {actual : UInt32} {site : ReadSite} (hpc : n.client.pc = .read type actual site) :
    Inv o request ({ n with toClient := msgs }.withClient
      { n.client with buffer := d.data, recvTimeout := t, pc := .doNegotiate d.type }
      [.received ⟨d.type, d.data⟩]) := by
  have hmsg := Content.ofMsg_eq hd
  have hnil : [ClientEvent.received ⟨d.type, d.data⟩].filterMap ClientEvent.msg? = [] := rfl
  simp only [Net.withClient, hnil, List.append_nil]
  refine ⟨?_, hi.bound, fun h => h.elim, ?_, hi.session, ?_, hi.writable⟩
  · by_cases ht : d.type = .waitMsg
    · apply (hi.dropAnswer hn).tokens.mono
      all_goals simp [Net.clientMsgs, Net.serverMsgs, Net.answers, Client.held, ht, hpc]
    · apply hi.tokens.mono
      all_goals simp [Net.clientMsgs, Net.serverMsgs, Net.answers, Client.held, ht, hpc, hn, hmsg]
  · exact (hi.dropAnswer hn).link
  · exact fun _ => hi.stored (by rw [hpc]; trivial)

/-- A `read_pdu` of the client on a message of the channel keeps the invariant. -/
theorem Inv.recv (hi : Inv o request n) {env : ClientEnv} {msg : Msg} {msgs : List Msg}
    (hn : n.toClient = msg :: msgs) (hr : env.read = .pdu msg) {c : Client} {es : List ClientEvent}
    (h : Client.Step o env n.client c es) :
    Inv o request ({ n with toClient := msgs }.withClient c es) := by
  obtain ⟨d, hd, hid⟩ := hi.link msg (.inr (by rw [hn]; exact List.mem_cons_self))
  by_cases hpc : ∀ type, c.pc ≠ .doNegotiate type
  · exact (hi.dropAnswer hn).clientStep h hpc
  cases h with
  | @readMsg _ _ _ msg' d' t pc hr' hd' hid' =>
    obtain rfl : msg = msg' := by simpa using hr.symm.trans hr'
    exact hi.readMsg hn hd' pc
  | readPhantom pc hsite hr' hid' =>
    obtain ⟨hfail, -⟩ | ⟨msg', e, hpdu, he, -⟩ := hr'
    · rw [hr] at hfail
      cases hfail
    · obtain rfl : msg = msg' := by simpa using hr.symm.trans hpdu
      rw [hd] at he
      cases he
  | @setup _ _ pc' pc hpc' =>
    obtain hsetup | ⟨e, -, rfl⟩ := hpc'
    · exact absurd (fun _ => hsetup.ne_doNegotiate) hpc
    · exact absurd (fun _ => by simp) hpc
  | _ => exact absurd (fun _ => by simp) hpc

/-- Taking a message off the channel to the server keeps the invariant. -/
theorem Inv.dropMsg (hi : Inv o request n) {msg : Msg} {msgs : List Msg}
    (hn : n.toServer = msg :: msgs) : Inv o request { n with toServer := msgs } where
  tokens := by
    have hsub : (msgs.filterMap Content.ofMsg).Sublist (n.toServer.filterMap Content.ofMsg) :=
      hn ▸ (List.sublist_cons_self msg msgs).filterMap _
    have hmsgs := hsub.append_right (n.session.elim [] ServerSession.msgs)
    apply hi.tokens.mono hmsgs.subset (List.Subset.refl _)
    exact Nat.add_le_add_right hmsgs.length_le _
  bound := hi.bound
  setup h := absurd h (hi.not_setup (.inl (by simp [hn])))
  link m hm := hi.link m (hm.imp_left fun h => by rw [hn]; exact List.mem_cons_of_mem _ h)
  session := hi.session
  stored := hi.stored
  writable := hi.writable

/-- A message moves from the channel into the queue. -/
theorem Inv.enqueue (hi : Inv o request n) {msg : Msg} {msgs : List Msg} {c : Content}
    (hn : n.toServer = msg :: msgs) (hmsg : Content.ofMsg msg = some c) {s : ServerSession}
    (hs : s.sessionId = n.client.sessionId ∧ s.runPc.HeldOk o)
    (hsub : s.msgs ⊆ c :: n.session.elim [] ServerSession.msgs)
    (hlen : s.msgs.length ≤ (n.session.elim [] ServerSession.msgs).length + 1) :
    Inv o request { n with toServer := msgs, session := some s } where
  tokens := by
    refine hi.tokens.mono ?_ (List.Subset.refl _) ?_
    · intro k hk
      have hks := hsub
      simp only [Net.clientMsgs, hn, List.filterMap_cons, hmsg, Option.elim_some, List.mem_append,
        List.mem_cons] at hk ⊢
      obtain hk | hk := hk
      · exact .inl (.inr hk)
      · obtain rfl | hk := List.mem_cons.1 (hks hk)
        · exact .inl (.inl rfl)
        · exact .inr hk
    · simp only [Net.clientMsgs, hn, List.filterMap_cons, hmsg, Option.elim_some,
        List.length_append, List.length_cons]
      simp only [Net.serverMsgs, Net.answers]
      omega
  bound := hi.bound
  setup h := absurd h (hi.not_setup (.inl (by simp [hn])))
  link := (hi.dropMsg hn).link
  session t ht := by
    obtain rfl := Option.some.inj ht
    exact hs
  stored := hi.stored
  writable := hi.writable

/-- A message read by the server starts the session, goes into its queue or is ignored. -/
theorem Inv.deliver (hi : Inv o request n) {msg : Msg} {msgs : List Msg} {d : Decoded}
    {last : Content} (hn : n.toServer = msg :: msgs) (hd : decode (some msg) = .ok d) :
    Inv o request ({ n with toServer := msgs }.distribute d last) := by
  have hdrop := hi.dropMsg hn
  have hmsg := Content.ofMsg_eq hd
  have hid : d.sessionId = n.client.sessionId := by
    obtain ⟨d', hd', hid⟩ := hi.link msg (.inl (by rw [hn]; exact List.mem_cons_self))
    rw [hd] at hd'
    obtain rfl := Except.ok.inj hd'
    exact hid
  unfold Net.distribute
  rcases hs : n.session with _ | s
  · rw [hs] at hdrop
    dsimp only
    split_ifs with ht
    · refine hi.enqueue hn hmsg ⟨hid, trivial⟩ ?_ ?_ <;>
        simp [ServerSession.msgs, ServerSession.new, RunPc.held]
    · exact hdrop
  · rw [hs] at hdrop
    dsimp only
    split_ifs with ht
    · refine hi.enqueue hn hmsg (hi.session s hs) ?_ ?_
      · intro c hc
        simp only [ServerSession.msgs, hs, Option.elim_some, List.mem_append, List.mem_cons,
          List.not_mem_nil, or_false] at hc ⊢
        tauto
      · simp only [ServerSession.msgs, hs, Option.elim_some, List.length_append,
          List.length_singleton]
        omega
    · exact hdrop

/-! ### Steps of the session -/

/-- The messages that count stay the same, or fewer, when the session changes so. -/
theorem Inv.setSession (hi : Inv o request n) {s s' : ServerSession} (hs : n.session = some s)
    (hid : s'.sessionId = s.sessionId) (hok : s'.runPc.HeldOk o) (hsub : s'.msgs ⊆ s.msgs)
    (hlen : s'.msgs.length ≤ s.msgs.length) : Inv o request { n with session := some s' } where
  tokens := by
    refine hi.tokens.mono ?_ (List.Subset.refl _) ?_
    · simp only [Net.clientMsgs, hs, Option.elim_some]
      exact List.append_subset.2 ⟨List.subset_append_left _ _,
        List.Subset.trans hsub (List.subset_append_right _ _)⟩
    · simp only [Net.clientMsgs, hs, Option.elim_some, List.length_append]
      simp only [Net.serverMsgs, Net.answers]
      omega
  bound := hi.bound
  setup h := absurd h (hi.not_setup (.inr (.inl (by simp [hs]))))
  link := hi.link
  session t ht := by
    obtain rfl := Option.some.inj ht
    exact ⟨hid.trans (hi.session s hs).1, hok⟩
  stored := hi.stored
  writable := hi.writable

/-- A step of the session that writes nothing. -/
theorem Inv.session_quiet (hi : Inv o request n) {s s' : ServerSession} {es : List SessionEvent}
    (hs : n.session = some s) (hes : es.filterMap SessionEvent.msg? = [])
    (hh : (es.map NetEvent.server).foldl History.next n.history = n.history)
    (hid : s'.sessionId = s.sessionId) (hok : s'.runPc.HeldOk o) (hsub : s'.msgs ⊆ s.msgs)
    (hlen : s'.msgs.length ≤ s.msgs.length) : Inv o request (n.withSession s' es) := by
  have hn : n.withSession s' es = { n with session := some s' } := by
    simp only [Net.withSession, hes, hh, List.append_nil]
  rw [hn]
  exact hi.setSession hs hid hok hsub hlen

/-- A wait thread writes a WAIT_MSG, which does not count. -/
theorem Inv.session_waits (hi : Inv o request n) {s s' : ServerSession} {bits : List UInt8}
    {env : WriteEnv} {e : Errno} {msg : Msg} (hs : n.session = some s)
    (hw : writePdu bits .waitMsg s.sessionId env = (e, some msg))
    (hid : s'.sessionId = s.sessionId) (hok : s'.runPc.HeldOk o) (hsub : s'.msgs ⊆ s.msgs)
    (hlen : s'.msgs.length ≤ s.msgs.length) :
    Inv o request (n.withSession s' [.wrote none msg]) := by
  have hset := hi.setSession hs hid hok hsub hlen
  have hn : n.withSession s' [.wrote none msg] =
      { n with session := some s', toClient := n.toClient ++ [msg] } := by
    have hes : [SessionEvent.wrote none msg].filterMap SessionEvent.msg? = [msg] := rfl
    have hh : n.history.next (.server (.wrote none msg)) = n.history := by
      rw [History.next, Msg.hasType_of_writePdu hw]
      rfl
    simp only [Net.withSession, hes, List.map_cons, List.map_nil, List.foldl_cons, List.foldl_nil,
      hh]
  rw [hn]
  refine ⟨?_, hi.bound, fun h => ?_, ?_, hset.session, hi.stored, hi.writable⟩
  · have hans : { n with session := some s', toClient := n.toClient ++ [msg] }.answers =
        n.answers := by
      simp [Net.answers, Content.ofMsg_of_writePdu hw, Content.ofBits]
    have htokens := hset.tokens
    rw [Net.serverMsgs] at htokens ⊢
    rw [hans]
    exact htokens
  · exact absurd h (hi.not_setup (.inr (.inl (by simp [hs]))))
  · exact hi.link_written hs hw

/-- While the session thread works on a message, no other message counts. -/
theorem Inv.session_alone (hi : Inv o request n) {s : ServerSession} {c : Content}
    (hs : n.session = some s) (hheld : s.runPc.held = [c]) :
    n.toServer.filterMap Content.ofMsg = [] ∧ s.q = [] ∧ n.answers = [] ∧ n.client.held = [] := by
  have hfew := hi.tokens.few
  rw [Net.clientMsgs, hs, Option.elim_some, ServerSession.msgs, hheld, Net.serverMsgs] at hfew
  simp only [List.length_append, List.length_singleton] at hfew
  refine ⟨?_, ?_, ?_, ?_⟩ <;> apply List.length_eq_zero_iff.1 <;> omega

/-- The offer the session thread works on is the client's most recent one. -/
theorem Inv.session_offer (hi : Inv o request n) {s : ServerSession} {c : Content}
    (hs : n.session = some s) (hc : c ∈ s.msgs) (hoffer : c.IsOffer) :
    n.history.offer = some c ∧ 1 ≤ (c.loopCount o).toNat ∧
      n.history.offers + (c.loopCount o).toNat ≤
        (Content.loopCount o ⟨.requestMsg, request⟩).toNat + 1 := by
  apply hi.tokens.offer c _ hoffer
  rw [Net.clientMsgs, hs]
  exact List.mem_append_right _ hc

/-- The session after it has put a reply to the client's most recent offer on the connection. -/
theorem withSession_replied {s : ServerSession} {c : Content} {r : Reply} {sessionId : UInt32}
    {env : WriteEnv} {e : Errno} {msg : Msg}
    (hw : writePdu r.bits r.type sessionId env = (e, some msg))
    (hlast : n.history.offer = some c) :
    n.withSession s [.replied c r e, .wrote (some c) msg] =
      { n with
        session := some s
        toClient := n.toClient ++ [msg]
        history := ⟨some c, (c, msg) :: n.history.replies,
          n.history.offers + if r.type = .negoMsg then 1 else 0⟩ } := by
  have hes : [SessionEvent.replied c r e, .wrote (some c) msg].filterMap SessionEvent.msg? =
      [msg] := rfl
  have hh : n.history.next (.server (.wrote (some c) msg)) =
      ⟨some c, (c, msg) :: n.history.replies,
        n.history.offers + if r.type = .negoMsg then 1 else 0⟩ := by
    rw [History.next, Msg.hasType_of_writePdu hw, hlast]
    simp
  simp only [Net.withSession, hes, List.map_cons, List.map_nil, List.foldl_cons, List.foldl_nil]
  rw [show n.history.next (.server (.replied c r e)) = n.history from rfl, hh]

/-- A written reply is an answer that `IsReply` allows after it. -/
theorem isReply_reply {s : ServerSession} {c : Content} {after : Mem} {uninit : OptionType}
    {d : CString} {geq : Bool} {r : Reply} {env : WriteEnv} {e : Errno} {msg : Msg}
    {loopCount : ℕ} {h : History} (hr : r = reply o (recvOption o c after uninit) d geq)
    (hw : writePdu r.bits r.type s.sessionId env = (e, some msg))
    (hpos : 1 ≤ (c.loopCount o).toNat) (hle : h.offers + (c.loopCount o).toNat ≤ loopCount + 1) :
    IsReply o loopCount ⟨some c, (c, msg) :: h.replies,
        h.offers + if r.type = .negoMsg then 1 else 0⟩ (.ofBits r.type r.bits) ∧
      h.offers + (if r.type = .negoMsg then 1 else 0) ≤ loopCount ∧ r.type ≠ .waitMsg := by
  have hmsg := Content.ofMsg_of_writePdu hw
  have hnego (ht : r.type = .negoMsg) : CounterOf o c (.ofBits r.type r.bits) ∧
      (Content.ofBits r.type r.bits).Fits o := by
    subst hr
    obtain ⟨k, hk, hcounter, hfits⟩ := counterOf_reply hpos ht hw
    rw [hmsg] at hk
    obtain rfl := Option.some.inj hk
    exact ⟨hcounter, hfits⟩
  refine ⟨⟨c, msg, rfl, List.mem_cons_self, hmsg, ?_, fun ht => ?_⟩, ?_, ?_⟩
  · obtain ⟨t, rest, hbits⟩ := reply_bits o (recvOption o c after uninit) d geq
    rw [← hr] at hbits
    have ht : (Content.ofBits r.type r.bits).optionType o = some t :=
      Content.optionType_eq (by rw [hbits]; rfl)
    rw [ht]
    exact Option.some_ne_none t
  · obtain ⟨⟨-, hk, hlt, -⟩, hfits⟩ := hnego ht
    refine ⟨hk, ?_, hfits⟩
    show h.offers + (if r.type = .negoMsg then 1 else 0) + _ ≤ _
    rw [if_pos (show r.type = .negoMsg from ht)]
    omega
  · split_ifs with ht
    · obtain ⟨⟨-, hk, hlt, -⟩, -⟩ := hnego ht
      omega
    · omega
  · subst hr
    obtain ⟨_, ht, -⟩ | ht := reply_cases o (recvOption o c after uninit) d geq <;> rw [ht] <;>
      decide

/-- The session thread answers the message it holds. -/
theorem Inv.session_replies (hi : Inv o request n) {s s' : ServerSession} {c : Content} {r : Reply}
    {env : WriteEnv} {e : Errno} {msg : Msg} (hs : n.session = some s)
    (pc : s.runPc = .sendWrite c r)
    (hw : writePdu r.bits r.type s.sessionId env = (e, some msg))
    (hid : s'.sessionId = s.sessionId) (hok : s'.runPc.HeldOk o) (hmsgs : s'.msgs = s.q) :
    Inv o request (n.withSession s' [.replied c r e, .wrote (some c) msg]) := by
  obtain ⟨hids, hheld⟩ := hi.session s hs
  rw [pc] at hheld
  obtain ⟨hoffer, after, uninit, d, geq, hr⟩ := hheld
  have hpc : s.runPc.held = [c] := by rw [pc]; rfl
  obtain ⟨hto, hq, hanswers, hclient⟩ := hi.session_alone hs hpc
  obtain ⟨hlast, hpos, hle⟩ := hi.session_offer hs (ServerSession.mem_msgs hpc) hoffer
  obtain ⟨hreply, hbound, hwait⟩ := isReply_reply hr hw hpos hle
  rw [withSession_replied hw hlast]
  refine ⟨?_, hbound, fun h => ?_, ?_, ?_, ?_, ?_⟩
  · -- The reply takes the place of the message it answers.
    show Tokens o _ _ (n.toServer.filterMap Content.ofMsg ++ s'.msgs)
      (((n.toClient ++ [msg]).filterMap Content.ofMsg).filter (·.type ≠ .waitMsg) ++
        n.client.held)
    have hans : ((n.toClient ++ [msg]).filterMap Content.ofMsg).filter (·.type ≠ .waitMsg) =
        [.ofBits r.type r.bits] := by
      rw [List.filterMap_append, List.filter_append,
        show (n.toClient.filterMap Content.ofMsg).filter (·.type ≠ .waitMsg) = [] from hanswers]
      simp [Content.ofMsg_of_writePdu hw, Content.ofBits, hwait]
    rw [hto, hmsgs, hq, hans, hclient]
    refine ⟨le_rfl, fun k hk => absurd hk List.not_mem_nil, fun k hk => ?_⟩
    rw [List.append_nil, List.mem_singleton] at hk
    rw [hk]
    exact hreply
  · exact absurd h (hi.not_setup (.inr (.inl (by simp [hs]))))
  · exact hi.link_written hs hw
  · intro t ht
    obtain rfl := Option.some.inj ht
    exact ⟨hid.trans hids, hok⟩
  · intro hbusy k hk
    rw [← hlast] at hk
    exact hi.stored hbusy k hk
  · intro _
    exact hi.writable (by rw [hlast]; rfl)

theorem runStep_heldOk {s s' : ServerSession} {env : RunEnv} {es : List SessionEvent}
    (h : s.runStep o env = some (s', es)) (hs : s.runPc.HeldOk o) : s'.runPc.HeldOk o := by
  cases ServerSession.runStep_cases h with
  | checkEnd pc st hc => exact hc.symm
  | decide pc =>
    rw [pc] at hs
    exact ⟨hs, _, _, _, _, rfl⟩
  | _ => simp_all [RunPc.HeldOk]

theorem Inv.runStep (hi : Inv o request n) {s s' : ServerSession} {env : RunEnv}
    {es : List SessionEvent} (hs : n.session = some s) (h : s.runStep o env = some (s', es)) :
    Inv o request (n.withSession s' es) := by
  have hok := runStep_heldOk h (hi.session s hs).2
  cases ServerSession.runStep_cases h with
  | sendNego pc ht hw => exact hi.session_replies hs pc hw rfl hok (List.append_nil _)
  | sendEnd pc ht hw => exact hi.session_replies hs pc hw rfl hok (List.append_nil _)
  | _ =>
    refine hi.session_quiet hs rfl rfl rfl hok ?_ ?_
    all_goals simp_all [ServerSession.msgs, RunPc.held]

/-- Every step of the session's threads keeps the invariant. -/
theorem Inv.sessionStep (hi : Inv o request n) {s s' : ServerSession} {a : SessionAct}
    {es : List SessionEvent} (hs : n.session = some s) (ha : ∀ c, a ≠ .push c)
    (h : s.step o a = some (s', es)) : Inv o request (n.withSession s' es) := by
  have hok := (hi.session s hs).2
  cases a with
  | push c => exact absurd rfl (ha c)
  | run env => exact hi.runStep hs h
  | wait k env =>
    obtain ⟨t, t', -, hstep, rfl⟩ := ServerSession.step_wait_iff.1 h
    obtain rfl | ⟨msg, rfl, hw⟩ := ServerSession.waitStep_events hstep
    · exact hi.session_quiet hs rfl rfl rfl hok (List.Subset.refl _) le_rfl
    · exact hi.session_waits hs (Prod.ext rfl hw) rfl hok (List.Subset.refl _) le_rfl
  | ends k =>
    obtain ⟨t, t', s₁, -, hstep, rfl, rfl⟩ := ServerSession.step_ends_iff.1 h
    obtain rfl | rfl | ⟨-, rfl⟩ := ServerSession.endStep_cases hstep <;>
      exact hi.session_quiet hs rfl rfl rfl hok (List.Subset.refl _) le_rfl

/-! ### The whole exchange -/

/-- A call of `read_pdu` that gets no message from the channel leaves the loop around it all the
same. -/
def Client.takesRead (c : Client) (actual : UInt32) (site : ReadSite) : ReadEnv → Bool
  | .fail => site ≠ .wait ∧ actual = c.sessionId
  | .pdu msg =>
    match decode (some msg) with
    | .error _ => site ≠ .wait ∧ actual = c.sessionId
    | .ok d => d.sessionId = c.sessionId

def Net.takesFailedRead (n : Net) : NetAct → Bool
  | .client env =>
    match n.client.pc with
    | .read _ actual site => n.client.takesRead actual site env.read
    | _ => false
  | _ => false

/-- The client does not take a failed read for a message. -/
def NoPhantom (n : Net) (a : NetAct) : Prop := n.takesFailedRead a = false

instance (n : Net) : DecidablePred (NoPhantom n) := fun a =>
  inferInstanceAs (Decidable (n.takesFailedRead a = false))

theorem not_doNegotiate_of_noPhantom {env : ClientEnv} {c : Client} {es : List ClientEvent}
    (hok : NoPhantom n (.client env)) (h : Client.Step o env n.client c es) (type : MsgType) :
    c.pc ≠ .doNegotiate type := by
  unfold NoPhantom Net.takesFailedRead at hok
  cases h with
  | @setup _ _ pc' pc hpc' =>
    obtain hsetup | ⟨e, -, rfl⟩ := hpc'
    · exact hsetup.ne_doNegotiate
    · simp
  | readMsg pc hr hd hid =>
    simp only [pc, hr, Client.takesRead, hd, decide_eq_false_iff_not] at hok
    exact absurd hid hok
  | readPhantom pc hsite hr hid =>
    simp only [pc] at hok
    obtain ⟨hfail, -⟩ | ⟨msg, e, hpdu, he, -⟩ := hr
    · simp only [hfail, Client.takesRead, decide_eq_false_iff_not] at hok
      exact absurd ⟨hsite, hid⟩ hok
    · simp only [hpdu, Client.takesRead, he, decide_eq_false_iff_not] at hok
      exact absurd ⟨hsite, hid⟩ hok
  | _ => simp

/-- Every step keeps the invariant. -/
theorem inv_step {n' : Net} {a : NetAct} {es : List NetEvent} (hi : Inv o request n)
    (hok : NoPhantom n a) (h : n.step o a = some (n', es)) : Inv o request n' := by
  cases Net.step_cases h with
  | client hc => exact hi.clientStep hc (not_doNegotiate_of_noPhantom hok hc)
  | recv pc hn hc => exact hi.recv hn rfl hc
  | drop hn hd => exact hi.dropMsg hn
  | deliver hn hd => exact hi.deliver hn hd
  | server ha hs hs' => exact hi.sessionStep hs ha hs'

end Gdnp
