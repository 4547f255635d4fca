import Gdnp.Conforming
import Gdnp.Distribute
import Gdnp.LoopCount

/-!
# A negotiation stalls after its first counter-offer

The duplicate filter sees the type of an option and stops at its zero byte, so all NEGO_MSGs of a
client look alike to a session (`alike_clientNego`).  The session takes the first of them and skips
the others, up to the NEGO_END_MSG with which the client ends.  So it answers the request and one
counter-offer: it writes at most two NEGO_MSGs, whatever the loop count, and when the client takes
no failed read for a message, both together make at most five offers (`negotiation_stalls`).
-/

open CMem

namespace Gdnp

/-- What the filter sees of every NEGO_MSG of a client. -/
def clientNego (o : ByteOrder) : Content :=
  .ofBits .negoMsg (o.toBytes 2 OptionType.negotiation.code)

theorem terminated_clientNego (o : ByteOrder) : (clientNego o).Terminated := by
  have hlen : (o.toBytes 2 OptionType.negotiation.code).length < maxStringLength := by
    rw [o.length_toBytes]
    decide
  exact (CharArray.mem_zero_memcpy_iff hlen.le).2 (.inr hlen)

/-- However the buffer was filled before, a counter-offer of the client looks like any other. -/
theorem alike_clientNego (o : ByteOrder) (a : CharArray maxStringLength) (rest : List UInt8) :
    Content.Alike ⟨.negoMsg, a.memcpy (o.toBytes 2 OptionType.negotiation.code ++ rest)⟩
      (clientNego o) := by
  have hfield (a : CharArray maxStringLength) (rest : List UInt8) : ∃ rest',
      (a.memcpy (o.toBytes 2 OptionType.negotiation.code ++ rest)).bytes =
        o.toBytes 2 OptionType.negotiation.code ++ rest' := by
    rw [CharArray.memcpy_bytes, List.take_append, List.append_assoc,
      List.take_of_length_le (by rw [o.length_toBytes]; decide)]
    exact ⟨_, rfl⟩
  obtain ⟨rest₁, h₁⟩ := hfield a rest
  obtain ⟨rest₂, h₂⟩ := hfield (CharArray.zero _) []
  rw [List.append_nil] at h₂
  refine ⟨rfl, ?_⟩
  show cstr (a.memcpy _).bytes = cstr ((CharArray.zero _).memcpy _).bytes
  rw [h₁, h₂]
  exact cstr_type_field o .negotiation rest₁ rest₂

/-! ## What a session takes -/

/-- A message of the type is popped and not skipped. -/
def SessionEvent.takes (type : MsgType) : SessionEvent → Bool
  | popped c false => c.type = type
  | _ => false

namespace ServerSession

variable {o : ByteOrder} {s s' : ServerSession} {a : SessionAct} {es : List SessionEvent}

theorem countP_takes (type : MsgType) (es : List SessionEvent) :
    es.countP (·.takes type) =
      (es.filterMap popped?).countP fun p => !p.2 && decide (p.1.type = type) := by
  induction es with
  | nil => rfl
  | cons e es ih =>
    cases e with
    | popped c skipped =>
      rw [List.filterMap_cons_some (show popped? (.popped c skipped) = some (c, skipped) from rfl),
        List.countP_cons, List.countP_cons, ih]
      cases skipped <;> simp [SessionEvent.takes]
    | _ => exact ih

/-- A step leaves the queue alone, or pops a message, which then goes through the filter. -/
theorem step_takes (h : s.step o a = some (s', es)) (ha : ∀ c, a ≠ .push c) :
    (s'.q = s.q ∧ s'.lastContent = s.lastContent ∧ ∀ type, es.countP (·.takes type) = 0) ∨
      ∃ c skipped, s.q = c :: s'.q ∧
        (c.Terminated → filter s.lastContent c = some (skipped, s'.lastContent)) ∧
        ∀ type, es.countP (·.takes type) = if skipped = false ∧ c.type = type then 1 else 0 := by
  have hqueue := step_queue h ha
  obtain ⟨hes, hlast⟩ | ⟨c, skipped, hes, hfilter⟩ := step_popped h
  · rw [hes] at hqueue
    refine .inl ⟨hqueue, hlast, fun type => ?_⟩
    rw [countP_takes, hes]
    rfl
  · rw [hes] at hqueue
    refine .inr ⟨c, skipped, hqueue.symm, hfilter, fun type => ?_⟩
    rw [countP_takes, hes]
    cases skipped <;> simp [List.countP_cons]

/-- Every counter-offer uses up an offer that was taken. -/
theorem step_isNego_le (h : s.step o a = some (s', es)) (ha : ∀ c, a ≠ .push c) :
    es.countP SessionEvent.isNego + s'.runPc.pending ≤
      s.runPc.pending + es.countP (·.takes .requestMsg) + es.countP (·.takes .negoMsg) := by
  cases a with
  | push c => exact absurd rfl (ha c)
  | run env =>
    have h' : s.runStep o env = some (s', es) := h
    cases runStep_cases h' with
    | @pop c q l pc hq hf =>
      by_cases hr : c.type = .requestMsg <;> by_cases hn : c.type = .negoMsg <;>
        simp [pc, RunPc.pending, SessionEvent.isNego, SessionEvent.takes, Content.IsOffer, hr, hn]
    | @checkEnd c pc st hc =>
      have hoffer : c.IsOffer := hc.symm
      simp [pc, hoffer, RunPc.pending]
    | @sendNego c r e msg pc ht hw =>
      have hone := reply_isNego c r e msg
      simp only [pc, RunPc.pending]
      omega
    | @sendEnd c r e msg pc ht hw =>
      have hone := reply_isNego c r e msg
      simp only [pc, RunPc.pending]
      omega
    | _ => simp_all [RunPc.pending, SessionEvent.isNego]
  | wait k env =>
    obtain ⟨t, t', -, hstep, rfl⟩ := step_wait_iff.1 h
    rw [waitStep_isNego hstep]
    show 0 + s.runPc.pending ≤ _
    omega
  | ends k =>
    obtain ⟨t, t', s₁, ht, hstep, rfl, rfl⟩ := step_ends_iff.1 h
    obtain rfl | rfl | ⟨-, rfl⟩ := endStep_cases hstep <;> simp

end ServerSession

/-! ## What the client writes -/

/-- The client writes nothing more. -/
def ClientPc.Quiet : ClientPc → Prop
  | idle => True
  | ret _ => True
  | _ => False

/-- A request, a NEGO_MSG that looks like all others, or a NEGO_END_MSG. -/
def FromClient (o : ByteOrder) (c : Content) : Prop :=
  c.type = .requestMsg ∨ c.type = .negoEndMsg ∨ c.Alike (clientNego o)

theorem FromClient.alike {o : ByteOrder} {c : Content} (h : FromClient o c)
    (ht : c.type = .negoMsg) : c.Alike (clientNego o) := by
  obtain hr | he | ha := h
  · exact absurd (hr.symm.trans ht) (by decide)
  · exact absurd (he.symm.trans ht) (by decide)
  · exact ha

/-- A step of the client writes nothing, or one message, after a NEGO_END_MSG of which it is
quiet. -/
theorem Client.Step.writes {o : ByteOrder} {env : ClientEnv} {c c' : Client}
    {es : List ClientEvent} (h : Client.Step o env c c' es) :
    ((es.filterMap ClientEvent.msg?).filterMap Content.ofMsg = [] ∧ (c.pc.Quiet → c'.pc.Quiet)) ∨
      ∃ k, (es.filterMap ClientEvent.msg?).filterMap Content.ofMsg = [k] ∧ ¬ c.pc.Quiet ∧
        FromClient o k ∧ (k.type = .negoEndMsg → c'.pc.Quiet) := by
  cases h with
  | @request msg pc hloop hw =>
    have hk := Content.ofMsg_of_writePdu hw
    refine .inr ⟨_, List.filterMap_cons_some hk, by rw [pc]; exact id, .inl rfl, ?_⟩
    intro ht
    cases ht
  | @accept e msg pc hgeq hw =>
    have hk := Content.ofMsg_of_writePdu hw
    exact .inr ⟨_, List.filterMap_cons_some hk, by rw [pc]; exact id, .inr (.inl rfl),
      fun _ => trivial⟩
  | @decline e msg pc hgeq hloop hw =>
    have hk := Content.ofMsg_of_writePdu hw
    exact .inr ⟨_, List.filterMap_cons_some hk, by rw [pc]; exact id, .inr (.inl rfl),
      fun _ => trivial⟩
  | @counter msg pc hgeq hloop hw =>
    have hk := Content.ofMsg_of_writePdu hw
    rw [Content.ofBits_bytes] at hk
    refine .inr ⟨_, List.filterMap_cons_some hk, by rw [pc]; exact id, .inr (.inr ?_), ?_⟩
    · simp only [counterOffer, negoObjOpt2bits, ObjectiveOption.toBits, List.append_assoc]
      exact alike_clientNego o env.sendBuffer _
    · intro ht
      cases ht
  | setup pc _ =>
    refine .inl ⟨rfl, fun hquiet => ?_⟩
    cases hc : c.pc <;> simp_all [ClientPc.Setup, ClientPc.Quiet]
  | readAgain pc _ | readMsg pc _ _ _ | readPhantom pc _ _ _ | wait pc =>
    refine .inl ⟨rfl, fun hquiet => ?_⟩
    rw [pc] at hquiet
    exact hquiet.elim
  | _ => exact .inl ⟨rfl, fun _ => trivial⟩

/-! ## The exchange -/

/-- What the session has not popped yet, in the order in which it will come. -/
def Net.coming (n : Net) : List Content :=
  n.session.elim [] (·.q) ++ n.toServer.filterMap Content.ofMsg

namespace NetEvent

/-- The session takes a message of the type. -/
def takes (type : MsgType) : NetEvent → Bool
  | client _ => false
  | server e => e.takes type

/-- The session writes a NEGO_MSG. -/
def isCounter : NetEvent → Bool
  | client _ => false
  | server e => e.isNego

theorem countP_client {p : NetEvent → Bool} (hp : ∀ e, p (client e) = false)
    (es : List ClientEvent) : (es.map client).countP p = 0 := by
  rw [List.countP_map, List.countP_eq_zero]
  intro e _
  simp [hp]

end NetEvent

/-- The messages that are still to come are such as the client writes, nothing follows a
NEGO_END_MSG, and a session exists before anything is taken. -/
structure Channel (o : ByteOrder) (n : Net) : Prop where
  typed : ∀ c ∈ n.coming, FromClient o c
  ended : n.coming.Pairwise fun c _ => c.type ≠ .negoEndMsg
  quiet : (∃ c ∈ n.coming, c.type = .negoEndMsg) → n.client.pc.Quiet
  request : ∀ s ∈ n.session, ∀ c ∈ s.q.tail, c.type ≠ .requestMsg

/-- What the session has taken and written so far: `requests` REQUEST_MSGs and `negos` NEGO_MSGs
taken, and `counters` NEGO_MSGs written. -/
structure Taken (o : ByteOrder) (n : Net) (requests negos counters : ℕ) : Prop where
  none : n.session = none → requests = 0 ∧ negos = 0 ∧ counters = 0
  first : requests = 0 ∧ negos = 0 ∨ ∀ s ∈ n.session, ∀ c ∈ s.q, c.type ≠ .requestMsg
  requests_le : requests ≤ 1
  negos_le : negos = 0 ∨ negos = 1 ∧ ∀ s ∈ n.session, s.lastContent.Alike (clientNego o) ∨
    n.client.pc.Quiet ∧ ∀ c ∈ n.coming, c.type ≠ .negoMsg
  counters_le : ∀ s ∈ n.session, counters + s.runPc.pending ≤ requests + negos

variable {o : ByteOrder} {n n' : Net} {requests negos counters : ℕ}

theorem Net.coming_eq {s : ServerSession} (hs : n.session = some s) :
    n.coming = s.q ++ n.toServer.filterMap Content.ofMsg := by
  rw [coming, hs]
  rfl

theorem Net.coming_append {msgs : List Msg} (hsession : n'.session = n.session)
    (htoServer : n'.toServer = n.toServer ++ msgs) :
    n'.coming = n.coming ++ msgs.filterMap Content.ofMsg := by
  rw [coming, coming, hsession, htoServer, List.filterMap_append, List.append_assoc]

/-- A step of the client. -/
theorem Channel.clientStep (hn : Channel o n) {env : ClientEnv} {c : Client}
    {es : List ClientEvent} (h : Client.Step o env n.client c es) (hclient : n'.client = c)
    (hsession : n'.session = n.session)
    (htoServer : n'.toServer = n.toServer ++ es.filterMap ClientEvent.msg?) : Channel o n' := by
  have hcoming := Net.coming_append hsession htoServer
  refine ⟨?_, ?_, ?_, by rw [hsession]; exact hn.request⟩
  all_goals
    rw [hcoming]
    obtain ⟨hnil, hquiet⟩ | ⟨k, hk, hloud, htyped, hend⟩ := h.writes
  · rw [hnil, List.append_nil]
    exact hn.typed
  · rw [hk, List.forall_mem_append, List.forall_mem_singleton]
    exact ⟨hn.typed, htyped⟩
  · rw [hnil, List.append_nil]
    exact hn.ended
  · rw [hk, List.pairwise_append]
    refine ⟨hn.ended, List.pairwise_singleton .., fun c hc _ _ ht => ?_⟩
    exact hloud (hn.quiet ⟨c, hc, ht⟩)
  · rw [hnil, List.append_nil, hclient]
    exact fun he => hquiet (hn.quiet he)
  · rintro ⟨c', hc', ht⟩
    rw [hk, List.mem_append, List.mem_singleton] at hc'
    rw [hclient]
    obtain hc' | rfl := hc'
    · exact absurd (hn.quiet ⟨c', hc', ht⟩) hloud
    · exact hend ht

theorem Taken.clientStep (ht : Taken o n requests negos counters) {env : ClientEnv} {c : Client}
    {es : List ClientEvent} (h : Client.Step o env n.client c es) (hclient : n'.client = c)
    (hsession : n'.session = n.session)
    (htoServer : n'.toServer = n.toServer ++ es.filterMap ClientEvent.msg?) :
    Taken o n' requests negos counters := by
  have hcoming := Net.coming_append hsession htoServer
  refine ⟨?_, ?_, ht.requests_le, ht.negos_le.imp_right ?_, ?_⟩
  all_goals rw [hsession]
  · exact ht.none
  · exact ht.first
  · rintro ⟨hone, hlast⟩
    refine ⟨hone, fun s hs => (hlast s hs).imp_right ?_⟩
    rintro ⟨hq, hno⟩
    obtain ⟨hnil, hquiet⟩ | ⟨k, -, hloud, -⟩ := h.writes
    · rw [hclient, hcoming, hnil, List.append_nil]
      exact ⟨hquiet hq, hno⟩
    · exact absurd hq hloud
  · exact ht.counters_le

/-- The server gets a message of the client: it is lost, begins the session, or goes to its
queue. -/
theorem Net.distribute_cases (n : Net) (d : Decoded) (last : Content) :
    n.distribute d last = n ∨
      (n.session = none ∧ d.type = .requestMsg ∧ n.distribute d last =
        { n with session := some (.new d.sessionId ⟨d.type, d.data⟩ last) }) ∨
      ∃ s, n.session = some s ∧ d.type ≠ .requestMsg ∧ n.distribute d last =
        { n with session := some { s with q := s.q ++ [⟨d.type, d.data⟩] } } := by
  unfold distribute
  split
  · split_ifs with ht
    · exact .inr (.inl ⟨‹_›, ht, rfl⟩)
    · exact .inl rfl
  · split_ifs with ht
    · exact .inr (.inr ⟨_, ‹_›, ht.2.2, rfl⟩)
    · exact .inl rfl

theorem Channel.sub (hn : Channel o n) (hclient : n'.client = n.client)
    (hcoming : n'.coming.Sublist n.coming)
    (hrequest : ∀ s ∈ n'.session, ∀ c ∈ s.q.tail, c.type ≠ .requestMsg) : Channel o n' where
  typed c hc := hn.typed c (hcoming.subset hc)
  ended := hn.ended.sublist hcoming
  quiet := by
    rintro ⟨c, hc, ht⟩
    rw [hclient]
    exact hn.quiet ⟨c, hcoming.subset hc, ht⟩
  request := hrequest

theorem Net.coming_cons {msg : Msg} {msgs : List Msg} {d : Decoded} (hn : n.toServer = msg :: msgs)
    (hd : decode (some msg) = .ok d) :
    n.coming = n.session.elim [] (·.q) ++ ⟨d.type, d.data⟩ :: msgs.filterMap Content.ofMsg := by
  rw [coming, hn, List.filterMap_cons_some (Content.ofMsg_eq hd)]

theorem Channel.deliver (hn : Channel o n) {msg : Msg} {msgs : List Msg} {d : Decoded}
    (hmsgs : n.toServer = msg :: msgs) (hd : decode (some msg) = .ok d) (last : Content) :
    Channel o ({ n with toServer := msgs }.distribute d last) := by
  have hcoming := Net.coming_cons hmsgs hd
  obtain heq | ⟨hnone, ht, heq⟩ | ⟨s, hs, ht, heq⟩ :=
    Net.distribute_cases { n with toServer := msgs } d last
  all_goals
    rw [heq]
    refine hn.sub rfl ?_ ?_
    rw [hcoming]
  · exact (List.Sublist.refl _).append (List.sublist_cons_self _ _)
  · exact hn.request
  · rw [show n.session = none from hnone]
    exact List.Sublist.refl _
  · rintro _ ⟨⟩ c hc
    exact absurd hc List.not_mem_nil
  · rw [show n.session = some s from hs]
    show ((s.q ++ [Content.mk d.type d.data]) ++ _).Sublist (s.q ++ Content.mk d.type d.data :: _)
    rw [List.append_assoc]
    exact List.Sublist.refl _
  · rintro _ ⟨⟩ c hc
    cases hq : s.q with
    | nil => simp [hq] at hc
    | cons c' q =>
      rw [hq, List.cons_append, List.tail_cons, List.mem_append, List.mem_singleton] at hc
      obtain hc | rfl := hc
      · exact hn.request s hs c (by rw [hq]; exact hc)
      · exact ht

theorem Taken.deliver (ht : Taken o n requests negos counters) {msg : Msg} {msgs : List Msg}
    {d : Decoded} (hmsgs : n.toServer = msg :: msgs) (hd : decode (some msg) = .ok d)
    (last : Content) :
    Taken o ({ n with toServer := msgs }.distribute d last) requests negos counters := by
  have hcoming := Net.coming_cons hmsgs hd
  obtain heq | ⟨hnone, htype, heq⟩ | ⟨s, hs, htype, heq⟩ :=
    Net.distribute_cases { n with toServer := msgs } d last
  all_goals rw [heq]
  · refine ⟨ht.none, ht.first, ht.requests_le, ht.negos_le.imp_right ?_, ht.counters_le⟩
    rintro ⟨hone, hlast⟩
    refine ⟨hone, fun s hs => (hlast s hs).imp_right ?_⟩
    rintro ⟨hq, hno⟩
    refine ⟨hq, fun c hc => hno c ?_⟩
    rw [hcoming]
    exact ((List.Sublist.refl _).append (List.sublist_cons_self _ _)).subset hc
  · obtain ⟨rfl, rfl, rfl⟩ := ht.none hnone
    refine ⟨(fun h => by cases h), .inl ⟨rfl, rfl⟩, Nat.zero_le _, .inl rfl, ?_⟩
    rintro _ ⟨⟩
    exact le_rfl
  · have hs' : n.session = some s := hs
    refine ⟨(fun h => by cases h), ht.first.imp_right ?_, ht.requests_le,
      ht.negos_le.imp_right ?_, ?_⟩
    · rintro hfirst _ ⟨⟩ c hc
      rcases List.mem_append.1 hc with hc | hc
      · exact hfirst s hs' c hc
      · rwa [List.mem_singleton.1 hc]
    · rintro ⟨hone, hlast⟩
      refine ⟨hone, ?_⟩
      rintro _ ⟨⟩
      refine (hlast s hs').imp_right ?_
      rintro ⟨hq, hno⟩
      refine ⟨hq, fun c hc => hno c ?_⟩
      rw [hcoming, hs']
      have hc' : c ∈ (s.q ++ [⟨d.type, d.data⟩]) ++ msgs.filterMap Content.ofMsg := hc
      rwa [List.append_assoc] at hc'
    · rintro _ ⟨⟩
      exact ht.counters_le s hs'

section Session

variable {s s' : ServerSession} {a : SessionAct} {es : List SessionEvent}

theorem Channel.sessionStep (hn : Channel o n) (hs : n.session = some s)
    (h : s.step o a = some (s', es)) (ha : ∀ c, a ≠ .push c) : Channel o (n.withSession s' es) := by
  have hqueue : s'.q = s.q ∨ ∃ c, s.q = c :: s'.q := by
    obtain ⟨hq, -⟩ | ⟨c, skipped, hq, -⟩ := ServerSession.step_takes h ha
    · exact .inl hq
    · exact .inr ⟨c, hq⟩
  refine hn.sub rfl ?_ ?_
  · rw [Net.coming_eq hs]
    apply List.Sublist.append ?_ (List.Sublist.refl _)
    obtain hq | ⟨c, hq⟩ := hqueue
    · exact hq ▸ List.Sublist.refl _
    · exact hq ▸ List.sublist_cons_self c _
  · rintro _ ⟨⟩ c hc
    apply hn.request s hs
    obtain hq | ⟨c', hq⟩ := hqueue
    · rwa [hq] at hc
    · rw [hq]
      exact List.mem_of_mem_tail hc

/-- Whatever is popped after the NEGO_MSG, no other NEGO_MSG will look new. -/
theorem Taken.negos_skip (ht : Taken o n requests negos counters) (hn : Channel o n)
    (hs : n.session = some s) {c : Content} {skipped : Bool} (hq : s.q = c :: s'.q)
    (hfilter : c.Terminated → filter s.lastContent c = some (skipped, s'.lastContent))
    (hone : negos = 1) :
    s'.lastContent.Alike (clientNego o) ∨
      n.client.pc.Quiet ∧ ∀ k ∈ (n.withSession s' es).coming, k.type ≠ .negoMsg := by
  have hcoming : n.coming = c :: (n.withSession s' es).coming := by
    rw [Net.coming_eq hs, hq]
    rfl
  have hc : c ∈ n.coming := by
    rw [hcoming]
    exact List.mem_cons_self
  obtain hr | he | halike := hn.typed c hc
  · obtain ⟨-, hzero⟩ | hno := ht.first
    · omega
    · exact absurd hr (hno s hs c (by rw [hq]; exact List.mem_cons_self))
  · -- Nothing follows the NEGO_END_MSG.
    right
    refine ⟨hn.quiet ⟨c, hc, he⟩, fun k hk => ?_⟩
    have hended := hn.ended
    rw [hcoming, List.pairwise_cons] at hended
    exact absurd he (hended.1 k hk)
  · left
    have hterm := (terminated_clientNego o).of_alike halike.symm
    exact (filter_eq_some (hfilter hterm)).2.1.symm.trans halike

/-- The session takes a NEGO_MSG only once. -/
theorem Taken.negos_zero (ht : Taken o n requests negos counters) (hn : Channel o n)
    (hs : n.session = some s) {c : Content} (hq : s.q = c :: s'.q)
    (hfilter : c.Terminated → filter s.lastContent c = some (false, s'.lastContent))
    (hnego : c.type = .negoMsg) :
    negos = 0 ∧ s'.lastContent.Alike (clientNego o) := by
  have hc : c ∈ n.coming := by
    rw [Net.coming_eq hs, hq]
    exact List.mem_cons_self
  have halike := (hn.typed c hc).alike hnego
  have hterm := (terminated_clientNego o).of_alike halike.symm
  obtain ⟨-, hlast, hnew⟩ := filter_eq_some (hfilter hterm)
  refine ⟨?_, hlast.symm.trans halike⟩
  obtain hzero | ⟨-, hseen⟩ := ht.negos_le
  · exact hzero
  · obtain hsame | ⟨-, hno⟩ := hseen s hs
    · exact absurd (hnew.2 (halike.trans hsame.symm)) (by decide)
    · exact absurd hnego (hno c hc)

theorem Taken.sessionStep (ht : Taken o n requests negos counters) (hn : Channel o n)
    (hs : n.session = some s) (h : s.step o a = some (s', es)) (ha : ∀ c, a ≠ .push c) :
    Taken o (n.withSession s' es) (requests + es.countP (·.takes .requestMsg))
      (negos + es.countP (·.takes .negoMsg)) (counters + es.countP SessionEvent.isNego) := by
  have hcounters := ServerSession.step_isNego_le h ha
  have hsofar := ht.counters_le s hs
  obtain ⟨hq, hlast, hnone⟩ | ⟨c, skipped, hq, hfilter, htakes⟩ := ServerSession.step_takes h ha
  · rw [hnone, hnone] at hcounters ⊢
    refine ⟨(fun h => by cases h), ht.first.imp_right ?_, ht.requests_le,
      ht.negos_le.imp_right ?_, ?_⟩
    · rintro hno _ ⟨⟩
      rw [hq]
      exact hno s hs
    · rintro ⟨hone, hseen⟩
      refine ⟨hone, ?_⟩
      rintro _ ⟨⟩
      rw [hlast]
      have hcoming : (n.withSession s' es).coming = n.coming := by
        rw [Net.coming_eq hs, ← hq]
        rfl
      rw [hcoming]
      exact hseen s hs
    · rintro _ ⟨⟩
      omega
  · have hmem : c ∈ s.q := by
      rw [hq]
      exact List.mem_cons_self
    refine ⟨(fun h => by cases h), .inr ?_, ?_, ?_, ?_⟩
    · rintro _ ⟨⟩ k hk
      exact hn.request s hs k (by rw [hq]; exact hk)
    · rw [htakes]
      split_ifs with hr
      · obtain ⟨hzero, -⟩ | hno := ht.first
        · omega
        · exact absurd hr.2 (hno s hs c hmem)
      · exact ht.requests_le
    · rw [htakes]
      split_ifs with hnego
      · obtain ⟨rfl, hnego⟩ := hnego
        obtain ⟨rfl, halike⟩ := ht.negos_zero hn hs hq hfilter hnego
        refine .inr ⟨rfl, ?_⟩
        rintro _ ⟨⟩
        exact .inl halike
      · refine ht.negos_le.imp_right ?_
        rintro ⟨hone, -⟩
        refine ⟨hone, ?_⟩
        rintro _ ⟨⟩
        exact ht.negos_skip hn hs hq hfilter hone
    · rintro _ ⟨⟩
      omega

end Session

/-- What the session has taken and written, after the events `t`. -/
structure Stalled (o : ByteOrder) (n : Net) (t : List NetEvent) : Prop where
  channel : Channel o n
  taken : Taken o n (t.countP (NetEvent.takes .requestMsg)) (t.countP (NetEvent.takes .negoMsg))
    (t.countP NetEvent.isCounter)

theorem stalled_start (o : ByteOrder) (c : Client) : Stalled o (.start c) [] where
  channel := by
    refine ⟨?_, .nil, ?_, fun s hs => by cases hs⟩
    · exact fun c hc => absurd hc List.not_mem_nil
    · rintro ⟨c, hc, -⟩
      exact absurd hc List.not_mem_nil
  taken := ⟨fun _ => ⟨rfl, rfl, rfl⟩, .inl ⟨rfl, rfl⟩, Nat.zero_le _, .inl rfl,
    fun s hs => by cases hs⟩

/-- Events of the client are no matter here. -/
theorem Stalled.clientStep {t : List NetEvent} (hst : Stalled o n t) {env : ClientEnv} {c : Client}
    {es : List ClientEvent} (h : Client.Step o env n.client c es) (hclient : n'.client = c)
    (hsession : n'.session = n.session)
    (htoServer : n'.toServer = n.toServer ++ es.filterMap ClientEvent.msg?) :
    Stalled o n' (t ++ es.map .client) := by
  refine ⟨hst.channel.clientStep h hclient hsession htoServer, ?_⟩
  simp only [List.countP_append]
  rw [NetEvent.countP_client fun _ => rfl, NetEvent.countP_client fun _ => rfl,
    NetEvent.countP_client fun _ => rfl]
  exact hst.taken.clientStep h hclient hsession htoServer

theorem step_stalled {t es : List NetEvent} {a : NetAct} (hst : Stalled o n t)
    (h : n.step o a = some (n', es)) : Stalled o n' (t ++ es) := by
  cases Net.step_cases h with
  | client hc => exact hst.clientStep hc rfl rfl rfl
  | recv pc hn hc => exact hst.clientStep hc rfl rfl rfl
  | @drop _ msg msgs e hn hd =>
    rw [List.append_nil]
    have hnone : Content.ofMsg msg = none := by rw [Content.ofMsg, hd]
    have hcoming : (Net.mk n.client msgs n.session n.toClient n.history).coming = n.coming := by
      rw [Net.coming, Net.coming, hn, List.filterMap_cons_none hnone]
    refine ⟨hst.channel.sub rfl (hcoming ▸ List.Sublist.refl _) hst.channel.request, ?_⟩
    obtain ⟨hnone, hfirst, hrequests, hnegos, hcounters⟩ := hst.taken
    refine ⟨hnone, hfirst, hrequests, ?_, hcounters⟩
    rw [hcoming]
    exact hnegos
  | deliver hn hd =>
    rw [List.append_nil]
    exact ⟨hst.channel.deliver hn hd _, hst.taken.deliver hn hd _⟩
  | server ha hs hs' =>
    refine ⟨hst.channel.sessionStep hs hs' ha, ?_⟩
    simp only [List.countP_append, List.countP_map]
    exact hst.taken.sessionStep hst.channel hs hs' ha

/-- The session writes at most two NEGO_MSGs. -/
theorem Stalled.counters_le {t : List NetEvent} (hst : Stalled o n t) :
    t.countP (NetEvent.takes .negoMsg) ≤ 1 ∧ t.countP NetEvent.isCounter ≤ 2 := by
  have hrequests := hst.taken.requests_le
  have hnegos : t.countP (NetEvent.takes .negoMsg) ≤ 1 := by
    obtain hzero | ⟨hone, -⟩ := hst.taken.negos_le <;> omega
  refine ⟨hnegos, ?_⟩
  cases hs : n.session with
  | none =>
    have hzero := (hst.taken.none hs).2.2
    omega
  | some s =>
    have hcounters := hst.taken.counters_le s hs
    omega

/-! ## The offers of both parties -/

namespace NetEvent

/-- The client writes a REQUEST_MSG or a NEGO_MSG. -/
def isProposal : NetEvent → Bool
  | client e => (client e).isOffer
  | server _ => false

theorem countP_isOffer (t : List NetEvent) :
    t.countP isOffer = t.countP isProposal + t.countP isCounter := by
  induction t with
  | nil => rfl
  | cons e t ih =>
    rw [List.countP_cons, List.countP_cons, List.countP_cons, ih]
    cases e with
    | client e =>
      cases h : (client e).isOffer <;> simp [isProposal, isCounter, h]
      omega
    | server e =>
      have hsame : (server e).isOffer = e.isNego := by cases e <;> rfl
      cases h : e.isNego <;> simp [isProposal, isCounter, hsame, h]
      omega

end NetEvent

/-- Offers the client can still write before it is handed another NEGO_MSG. -/
def ClientPc.owed : ClientPc → ℕ
  | sendTcp | connect | retry | request => 1
  | doNegotiate .negoMsg => 1
  | _ => 0

theorem ClientPc.owed_doNegotiate (type : MsgType) :
    (doNegotiate type).owed = if type = .negoMsg then 1 else 0 := by
  cases type <;> rfl

theorem Client.Step.proposals_le {c c' : Client} {env : ClientEnv} {es : List ClientEvent}
    (h : Client.Step o env c c' es) :
    (es.map NetEvent.client).countP NetEvent.isProposal + c'.pc.owed ≤
      c.pc.owed + (es.map NetEvent.client).countP NetEvent.isNegotiated := by
  cases h with
  | @setup n t pc' pc hpc =>
    have hone : c.pc.owed = 1 := by
      cases hc : c.pc <;> simp_all [ClientPc.Setup, ClientPc.owed]
    have hle : pc'.owed ≤ 1 := by
      obtain hset | ⟨e, -, rfl⟩ := hpc
      · cases pc' <;> simp_all [ClientPc.Setup, ClientPc.owed]
      · exact Nat.zero_le _
    simpa [hone] using hle
  | request pc hloop hw =>
    simp [pc, ClientPc.owed, NetEvent.isProposal, NetEvent.isOffer, NetEvent.isNegotiated,
      Msg.hasType_of_writePdu hw]
  | accept pc hgeq hw =>
    simp [pc, ClientPc.owed, NetEvent.isProposal, NetEvent.isOffer, NetEvent.isNegotiated,
      Msg.hasType_of_writePdu hw]
  | decline pc hgeq hloop hw =>
    simp [pc, ClientPc.owed, NetEvent.isProposal, NetEvent.isOffer, NetEvent.isNegotiated,
      Msg.hasType_of_writePdu hw]
  | counter pc hgeq hloop hw =>
    simp [pc, ClientPc.owed, NetEvent.isProposal, NetEvent.isOffer, NetEvent.isNegotiated,
      Msg.hasType_of_writePdu hw]
  | readMsg | readPhantom =>
    simp [ClientPc.owed_doNegotiate, List.countP_singleton, NetEvent.isProposal, NetEvent.isOffer,
      NetEvent.isNegotiated]
  | _ => simp_all [ClientPc.owed, NetEvent.isProposal, NetEvent.isOffer, NetEvent.isNegotiated]

theorem NetEvent.countP_server {p : NetEvent → Bool} (hp : ∀ e, p (server e) = false)
    (es : List SessionEvent) : (es.map server).countP p = 0 := by
  rw [List.countP_map, List.countP_eq_zero]
  intro e _
  simp [hp]

theorem step_proposals_le {a : NetAct} {es : List NetEvent} (h : n.step o a = some (n', es)) :
    es.countP NetEvent.isProposal + n'.client.pc.owed ≤
      n.client.pc.owed + es.countP NetEvent.isNegotiated := by
  cases Net.step_cases h with
  | client hc => exact hc.proposals_le
  | recv pc hn hc => exact hc.proposals_le
  | drop hn hd => simp
  | @deliver last msg msgs d hn hd =>
    have hclient : (Net.distribute { n with toServer := msgs } d last).client = n.client := by
      obtain heq | ⟨-, -, heq⟩ | ⟨s, -, -, heq⟩ :=
        Net.distribute_cases { n with toServer := msgs } d last
      all_goals rw [heq]
    simp [hclient]
  | server ha hs hs' =>
    rw [NetEvent.countP_server fun _ => rfl]
    exact (Nat.zero_add _).le.trans (Nat.le_add_right _ _)

variable {request : CharArray maxStringLength}

/-- The client is handed at most the NEGO_MSGs that the session writes. -/
theorem Inv.step_negotiated_le (hi : Inv o request n) {a : NetAct} (hok : NoPhantom n a)
    {es : List NetEvent} (h : n.step o a = some (n', es)) :
    es.countP NetEvent.isNegotiated + n'.toClient.countP (Msg.hasType (· = .negoMsg)) ≤
      n.toClient.countP (Msg.hasType (· = .negoMsg)) + es.countP NetEvent.isCounter := by
  cases Net.step_cases h with
  | client hc =>
    rw [hc.countP_isNegotiated (not_doNegotiate_of_noPhantom hok hc), Nat.zero_add]
    exact Nat.le_add_right _ _
  | @recv _ _ _ _ msg msgs _ _ pc hn hc =>
    obtain ⟨d, hd, -⟩ := hi.link msg (.inr (by rw [hn]; exact List.mem_cons_self))
    have hone := hc.countP_isNegotiated_pdu rfl hd
    show _ + msgs.countP _ ≤ _
    rw [hn, List.countP_cons]
    rw [List.countP_singleton] at hone
    omega
  | drop => simp
  | deliver => simp [(Net.distribute_client _ _ _).2]
  | @server _ s s' ses ha hs hs' =>
    have hproposals := NetEvent.countP_server (p := NetEvent.isProposal) (fun _ => rfl) ses
    have hnegotiated := NetEvent.countP_server (p := NetEvent.isNegotiated) (fun _ => rfl) ses
    rw [countP_withSession, hnegotiated, NetEvent.countP_isOffer, hproposals, Nat.zero_add,
      Nat.zero_add]

/-- The offers of both parties, as long as the client takes no failed read for a message. -/
structure Proposed (o : ByteOrder) (request : CharArray maxStringLength) (n : Net)
    (t : List NetEvent) : Prop where
  inv : Inv o request n
  proposals : t.countP NetEvent.isProposal + n.client.pc.owed ≤
    1 + t.countP NetEvent.isNegotiated
  negotiated : t.countP NetEvent.isNegotiated +
    n.toClient.countP (Msg.hasType (· = .negoMsg)) ≤ t.countP NetEvent.isCounter

theorem Proposed.step {t es : List NetEvent} {a : NetAct} (hp : Proposed o request n t)
    (hok : NoPhantom n a) (h : n.step o a = some (n', es)) : Proposed o request n' (t ++ es) where
  inv := inv_step hp.inv hok h
  proposals := by
    have hsofar := hp.proposals
    have hstep := step_proposals_le h
    rw [List.countP_append, List.countP_append]
    omega
  negotiated := by
    have hsofar := hp.negotiated
    have hstep := hp.inv.step_negotiated_le hok h
    rw [List.countP_append, List.countP_append]
    omega

/-- In every exchange the session takes at most one NEGO_MSG and writes at most two. -/
theorem run_counters_le {c : Client} {as : List NetAct} {es : List NetEvent}
    (hrun : (Net.machine o).run (.start c) as = some (n, es)) :
    es.countP (NetEvent.takes .negoMsg) ≤ 1 ∧ es.countP NetEvent.isCounter ≤ 2 := by
  have hst : Stalled o n es :=
    EventMachine.run_invariant_trace (P := Stalled o) (t := [])
      (fun _ _ _ _ _ hst h => step_stalled hst h) (stalled_start o c) hrun
  exact hst.counters_le

/-- In every exchange over channels that deliver whole PDUs, whatever the ASAs answer, whatever the
loop count and whatever the client reads, the session takes at most one NEGO_MSG and writes at most
two.  As long as the client takes no failed read for a message, the client writes at most three
offers, so that there are at most five in all. -/
theorem negotiation_stalls {c : Client} {sessionId : UInt32} {bufferObj : CString}
    {loopCount flag : UInt8} {as : List NetAct} {es : List NetEvent}
    (hrun : (Net.machine o).run (.start (c.negotiate o sessionId bufferObj loopCount flag)) as =
      some (n, es)) :
    es.countP (NetEvent.takes .negoMsg) ≤ 1 ∧ es.countP NetEvent.isCounter ≤ 2 ∧
      ((Net.machine o).Guarded NoPhantom
          (.start (c.negotiate o sessionId bufferObj loopCount flag)) as →
        es.countP NetEvent.isProposal ≤ 3 ∧ es.countP NetEvent.isOffer ≤ 5) := by
  obtain ⟨htakes, hcounters⟩ := run_counters_le hrun
  refine ⟨htakes, hcounters, fun hok => ?_⟩
  have hp : Proposed o (c.negotiate o sessionId bufferObj loopCount flag).buffer n es :=
    EventMachine.run_preserves_trace (P := Proposed o _) (t := [])
      (fun _ _ _ _ _ hp hok h => hp.step hok h)
      ⟨inv_negotiate c sessionId bufferObj loopCount flag, le_rfl, le_rfl⟩ hok hrun
  have hproposals := hp.proposals
  have hnegotiated := hp.negotiated
  rw [NetEvent.countP_isOffer]
  omega

/-- The client reads a counter-offer, answers it with another, and the server gets that. -/
def Net.counteroffer : List NetAct :=
  [.recv (Client.sample .fail false), .client (Client.sample .fail false),
    .deliver ⟨.requestMsg, CharArray.zero _⟩]

/-- The answer to an offer, and the end of the round. -/
def Net.round : List NetAct := List.replicate 17 (.server (ServerSession.answer false))

/-- Nobody gives in, and the loop count is 9; the fifth offer is the last. -/
theorem negotiation_stalls_five :
    ∃ n es, (Net.machine .little).run
        (.start ((Client.new (CharArray.zero _)).negotiate .little 0 valueA 9 0))
        (Net.opening ++ Net.round ++ Net.counteroffer ++ Net.round ++ Net.counteroffer ++
          Net.round) = some (n, es) ∧
      es.countP NetEvent.isOffer = 5 ∧ es.countP (NetEvent.takes .negoMsg) ≤ 1 ∧
      es.countP NetEvent.isCounter ≤ 2 ∧ es.countP NetEvent.isProposal ≤ 3 := by
  have hfive : ((Net.machine .little).run
      (.start ((Client.new (CharArray.zero _)).negotiate .little 0 valueA 9 0))
      (Net.opening ++ Net.round ++ Net.counteroffer ++ Net.round ++ Net.counteroffer ++
        Net.round)).map (·.2.countP NetEvent.isOffer) = some 5 := by decide +kernel
  obtain ⟨⟨n, es⟩, hrun, hes⟩ := Option.map_eq_some_iff.1 hfive
  obtain ⟨htakes, hcounters, hproposals⟩ := negotiation_stalls hrun
  exact ⟨n, es, hrun, hes, htakes, hcounters, (hproposals (by decide +kernel)).1⟩

end Gdnp
