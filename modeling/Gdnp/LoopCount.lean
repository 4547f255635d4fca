import Gdnp.Client
import Gdnp.Offer
import Gdnp.Session

/-!
# The loop count does not limit a session

Both parties adopt the loop count of each offer they receive.  Against an arbitrary peer the number
of counter-offers is limited by the number of offers the peer sends, but not by the first loop
count (`not_negoMsgs_le_loopCount`); it is, when the loop counts of the offers received are
positive and each is smaller than the one before (`negoMsgs_le_loopCount`).
-/

open CMem

namespace Gdnp

/-- The loop counts of the offers are positive, at most `n`, and each is smaller than those
before. -/
def Descending (o : ByteOrder) (n : ℕ) (offers : List Content) : Prop :=
  (offers.map fun c => (c.loopCount o).toNat).Pairwise (· > ·) ∧
    ∀ c ∈ offers, 1 ≤ (c.loopCount o).toNat ∧ (c.loopCount o).toNat ≤ n

instance (o : ByteOrder) (n : ℕ) (offers : List Content) : Decidable (Descending o n offers) :=
  inferInstanceAs (Decidable (_ ∧ _))

theorem Descending.length_le {o : ByteOrder} {n : ℕ} {offers : List Content}
    (h : Descending o n offers) : offers.length ≤ n := by
  have hnodup : (offers.map fun c => (c.loopCount o).toNat).Nodup := h.1.imp ne_of_gt
  have hsub : (offers.map fun c => (c.loopCount o).toNat).toFinset ⊆ Finset.Icc 1 n := by
    intro k hk
    obtain ⟨c, hc, rfl⟩ := List.mem_map.1 (List.mem_toFinset.1 hk)
    exact Finset.mem_Icc.2 (h.2 c hc)
  have hcard := Finset.card_le_card hsub
  rwa [List.toFinset_card_of_nodup hnodup, List.length_map, Nat.card_Icc,
    Nat.add_sub_cancel] at hcard

/-! ## The server -/

/-- A NEGO_MSG is written. -/
def SessionEvent.isNego : SessionEvent → Bool
  | wrote _ msg => msg.hasType (· = .negoMsg)
  | _ => false

/-- An offer is put into the queue. -/
def SessionAct.isOffer : SessionAct → Bool
  | push c => c.IsOffer
  | _ => false

/-- The offers put into the queue. -/
def SessionAct.offers (as : List SessionAct) : List Content :=
  as.filterMap fun
    | push c => if c.IsOffer then some c else none
    | _ => none

theorem SessionAct.length_offers (as : List SessionAct) :
    (offers as).length = as.countP isOffer := by
  unfold offers
  rw [List.countP_eq_length_filter, List.length_filterMap_eq_countP]
  rw [← List.countP_eq_length_filter]
  apply List.countP_congr
  intro a _
  cases a with
  | push c => by_cases hc : c.IsOffer <;> simp [isOffer, hc]
  | _ => simp [isOffer]

/-- Counter-offers the session thread can still write for the message it holds. -/
def RunPc.pending : RunPc → ℕ
  | setState c => if c.IsOffer then 1 else 0
  | writeState c _ => if c.IsOffer then 1 else 0
  | launchWait c => if c.IsOffer then 1 else 0
  | checkEnd c => if c.IsOffer then 1 else 0
  | upper _ => 1
  | setIdle _ _ => 1
  | decide _ _ => 1
  | sendSwitch _ _ => 1
  | sendWrite _ _ => 1
  | _ => 0

namespace ServerSession

/-- Counter-offers the session can still write for the messages it has. -/
def pending (s : ServerSession) : ℕ := s.q.countP (·.IsOffer) + s.runPc.pending

variable {o : ByteOrder} {s s' : ServerSession} {a : SessionAct} {es : List SessionEvent}

theorem reply_isNego (c : Content) (r : Reply) (e : Errno) (msg : Msg) :
    [SessionEvent.replied c r e, .wrote (some c) msg].countP SessionEvent.isNego ≤ 1 := by
  by_cases h : msg.hasType (· = .negoMsg) = true <;> simp [SessionEvent.isNego, h]

theorem runStep_pending {env : RunEnv} (h : s.runStep o env = some (s', es)) :
    es.countP SessionEvent.isNego + s'.pending ≤ s.pending := by
  unfold pending
  cases runStep_cases h with
  | popSkip pc hq hf => simp [pc, hq, RunPc.pending, SessionEvent.isNego, List.countP_cons]
  | pop pc hq hf => simp [pc, hq, RunPc.pending, SessionEvent.isNego, List.countP_cons]
  | @checkEnd c pc st hc =>
    have hoffer : c.IsOffer := hc.symm
    simp [pc, hoffer, RunPc.pending]
  | @sendNego c r e msg pc ht hw =>
    have hone := reply_isNego c r e msg
    simp only [pc, RunPc.pending]
    omega
  | @sendEnd c r e msg pc ht hw =>
    have hone := reply_isNego c r e msg
    simp only [pc, RunPc.pending]
    omega
  | _ => simp_all [RunPc.pending, SessionEvent.isNego]

theorem waitStep_isNego {env : WriteEnv} {t t' : WaitThread}
    (h : s.waitStep o env t = some (t', es)) : es.countP SessionEvent.isNego = 0 := by
  obtain rfl | ⟨msg, rfl, hw⟩ := waitStep_events h
  · rfl
  · simp [SessionEvent.isNego, Msg.hasType_of_writePdu (Prod.ext rfl hw)]

/-- Every counter-offer uses up an offer. -/
theorem step_pending (h : step o s a = some (s', es)) :
    es.countP SessionEvent.isNego + s'.pending ≤
      s.pending + es.countP (fun _ => false) + if a.isOffer then 1 else 0 := by
  cases a with
  | push c =>
    cases h
    by_cases hc : c.IsOffer <;> simp [pending, SessionAct.isOffer, hc]
    omega
  | run env =>
    have hrun := runStep_pending h
    omega
  | wait k env =>
    obtain ⟨t, t', -, hstep, rfl⟩ := step_wait_iff.1 h
    rw [waitStep_isNego hstep]
    show 0 + s.pending ≤ _
    omega
  | ends k =>
    obtain ⟨t, t', s₁, ht, hstep, rfl, rfl⟩ := step_ends_iff.1 h
    obtain rfl | rfl | ⟨-, rfl⟩ := endStep_cases hstep <;> simp [pending]

/-- A session writes at most one NEGO_MSG for each offer in its queue, whatever the peer sends. -/
theorem run_isNego_le {sessionId : UInt32} {c last : Content} {as : List SessionAct}
    (h : (machine o).run (new sessionId c last) as = some (s', es)) :
    es.countP SessionEvent.isNego ≤ (c :: SessionAct.offers as).length := by
  have hle := EventMachine.run_countP_le (fun _ _ _ _ => step_pending) h
  have hnew : (new sessionId c last).pending ≤ 1 := by
    show [c].countP _ + 0 ≤ 1
    exact List.countP_le_length
  rw [List.length_cons, SessionAct.length_offers]
  rw [List.countP_false, Function.const_apply] at hle
  omega

end ServerSession

/-! ## The client -/

/-- A NEGO_MSG is written. -/
def ClientEvent.isNego : ClientEvent → Bool
  | wrote _ msg => msg.hasType (· = .negoMsg)
  | _ => false

/-- `do_negotiate` is called on a NEGO_MSG. -/
def ClientEvent.receivesNego : ClientEvent → Bool
  | received c => c.type = .negoMsg
  | _ => false

/-- The offers `do_negotiate` is called on. -/
def ClientEvent.offers (es : List ClientEvent) : List Content :=
  es.filterMap fun
    | received c => if c.type = .negoMsg then some c else none
    | _ => none

/-- Counter-offers the client can still write for the message it has. -/
def ClientPc.pending (pc : ClientPc) : ℕ := if pc = .doNegotiate .negoMsg then 1 else 0

namespace Client

variable {o : ByteOrder} {c c' : Client} {env : ClientEnv} {es : List ClientEvent}

/-- Every counter-offer uses up a received offer. -/
theorem step_pending (h : c.step o env = some (c', es)) :
    es.countP ClientEvent.isNego + c'.pc.pending ≤
      c.pc.pending + es.countP ClientEvent.receivesNego + 0 := by
  have hsetup (pc : ClientPc) (hpc : pc.Setup ∨ ∃ e, e ≠ .success ∧ pc = .ret e) :
      pc.pending = 0 := by
    apply if_neg
    rintro rfl
    simp [ClientPc.Setup] at hpc
  cases step_cases h with
  | setup pc hpc => simp [hsetup _ hpc]
  | request pc hloop hw =>
    simp [pc, ClientPc.pending, ClientEvent.isNego, Msg.hasType_of_writePdu hw]
  | accept pc hgeq hw =>
    simp [pc, ClientPc.pending, ClientEvent.isNego, Msg.hasType_of_writePdu hw, List.countP_cons]
  | decline pc hgeq hloop hw =>
    simp [pc, ClientPc.pending, ClientEvent.isNego, Msg.hasType_of_writePdu hw]
  | counter pc hgeq hloop hw =>
    simp [pc, ClientPc.pending, ClientEvent.isNego, Msg.hasType_of_writePdu hw]
  | _ => simp_all [ClientPc.pending, ClientEvent.receivesNego, ClientEvent.isNego]

theorem length_offers (es : List ClientEvent) :
    (ClientEvent.offers es).length = es.countP ClientEvent.receivesNego := by
  unfold ClientEvent.offers
  rw [List.length_filterMap_eq_countP]
  apply List.countP_congr
  intro e _
  cases e with
  | received c => by_cases hc : c.type = .negoMsg <;> simp [ClientEvent.receivesNego, hc]
  | _ => simp [ClientEvent.receivesNego]

/-- A client writes at most one NEGO_MSG for each it receives. -/
theorem run_isNego_le {as : List ClientEnv} (h : (machine o).run c as = some (c', es))
    (hpc : c.pc = .sendTcp) :
    es.countP ClientEvent.isNego ≤ (ClientEvent.offers es).length := by
  have hle := EventMachine.run_countP_le (r := fun _ => false) (fun _ _ _ _ => step_pending) h
  rw [hpc, List.countP_false, Function.const_apply] at hle
  rw [length_offers]
  exact (Nat.le_add_right _ _).trans (hle.trans (by simp [ClientPc.pending]))

end Client

/-! ## The bound -/

/-- Whatever the peer sends, a session writes at most one NEGO_MSG for each offer in its queue and a
client at most one for each NEGO_MSG it receives.  If the loop counts of these offers are positive
and descend, from the client's own loop count for the client, then the first loop count bounds the
number of NEGO_MSGs. -/
theorem negoMsgs_le_loopCount (o : ByteOrder) :
    (∀ (sessionId : UInt32) (c last : Content) (as : List SessionAct) (s : ServerSession)
        (es : List SessionEvent),
      (ServerSession.machine o).run (.new sessionId c last) as = some (s, es) →
      es.countP SessionEvent.isNego ≤ (c :: SessionAct.offers as).length ∧
        (Descending o (c.loopCount o).toNat (c :: SessionAct.offers as) →
          es.countP SessionEvent.isNego ≤ (c.loopCount o).toNat)) ∧
    (∀ (c c' : Client) (as : List ClientEnv) (es : List ClientEvent),
      c.pc = .sendTcp → (Client.machine o).run c as = some (c', es) →
      es.countP ClientEvent.isNego ≤ (ClientEvent.offers es).length ∧
        ∀ n : ℕ, c.loopCount = n → Descending o n (ClientEvent.offers es) →
          es.countP ClientEvent.isNego ≤ n) := by
  refine ⟨fun sessionId c last as s es h => ?_, fun c c' as es hpc h => ?_⟩
  · have hle := ServerSession.run_isNego_le h
    exact ⟨hle, fun hdesc => hle.trans hdesc.length_le⟩
  · have hle := Client.run_isNego_le h hpc
    exact ⟨hle, fun n _ hdesc => hle.trans hdesc.length_le⟩

/-- A session of loop count 5 that has written one counter-offer, and a client of loop count 5
that has answered one. -/
theorem negoMsgs_le_loopCount_five :
    (∃ s es, (ServerSession.machine .little).run
        (.new 0 (ServerSession.offer .requestMsg .negotiation 5) ⟨.requestMsg, CharArray.zero _⟩)
        (List.replicate 17 (ServerSession.answer false)) = some (s, es) ∧
      es.countP SessionEvent.isNego ≤ 5) ∧
    ∃ c es, (Client.machine .little).run
        ((Client.new (CharArray.zero _)).negotiate .little 0 valueA 5 0)
        (List.replicate 5 (Client.sample
          (.pdu ⟨0x04000000, 0, (CharArray.zero _).memcpy [6, 0, 1, 0, 0, 4, 97]⟩) false)) =
        some (c, es) ∧
      es.countP ClientEvent.isNego ≤ 5 := by
  refine ⟨?_, ?_⟩
  · have hsome : ((ServerSession.machine .little).run
        (.new 0 (ServerSession.offer .requestMsg .negotiation 5) ⟨.requestMsg, CharArray.zero _⟩)
        (List.replicate 17 (ServerSession.answer false))).isSome := by decide +kernel
    obtain ⟨⟨s, es⟩, hrun⟩ := Option.isSome_iff_exists.1 hsome
    have hle := ((negoMsgs_le_loopCount .little).1 _ _ _ _ s es hrun).2 (by decide +kernel)
    exact ⟨s, es, hrun, hle.trans (by decide +kernel)⟩
  · have hdesc : ((Client.machine .little).run
        ((Client.new (CharArray.zero _)).negotiate .little 0 valueA 5 0)
        (List.replicate 5 (Client.sample
          (.pdu ⟨0x04000000, 0, (CharArray.zero _).memcpy [6, 0, 1, 0, 0, 4, 97]⟩) false))).map
        (fun r => decide (Descending .little 5 (ClientEvent.offers r.2))) = some true := by
      decide +kernel
    obtain ⟨⟨c, es⟩, hrun, hes⟩ := Option.map_eq_some_iff.1 hdesc
    exact ⟨c, es, hrun, ((negoMsgs_le_loopCount .little).2 _ c _ es rfl hrun).2 5 rfl
      (of_decide_eq_true hes)⟩

/-- A peer that answers each counter-offer with loop count 255, in turn as a Negotiation and as a
Discovery objective, gets three counter-offers out of a session of loop count 2. -/
theorem not_negoMsgs_le_loopCount :
    ¬ ∀ (o : ByteOrder) (sessionId : UInt32) (c last : Content) (as : List SessionAct)
        (s : ServerSession) (es : List SessionEvent), c.type = .requestMsg →
      (ServerSession.machine o).run (.new sessionId c last) as = some (s, es) →
      es.countP SessionEvent.isNego ≤ (c.loopCount o).toNat := by
  intro h
  let as := List.replicate 17 (ServerSession.answer false) ++
    [.push (ServerSession.offer .negoMsg .negotiation 255)] ++
    List.replicate 17 (ServerSession.answer false) ++
    [.push (ServerSession.offer .negoMsg .discovery 255)] ++
    List.replicate 17 (ServerSession.answer false)
  have hthree : ((ServerSession.machine .little).run
      (.new 0 (ServerSession.offer .requestMsg .negotiation 2) ⟨.requestMsg, CharArray.zero _⟩)
      as).map (·.2.countP SessionEvent.isNego) = some 3 := by decide +kernel
  obtain ⟨⟨s, es⟩, hrun, hes⟩ := Option.map_eq_some_iff.1 hthree
  have hle := h .little 0 _ _ as s es rfl hrun
  rw [hes] at hle
  revert hle
  decide +kernel

end Gdnp
