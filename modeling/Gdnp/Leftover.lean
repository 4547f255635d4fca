import Gdnp.Offer
import Gdnp.Reuse

/-!
# Leftovers in payloads

The client sends its objectives in whole arrays of `MAXSTRINGLENGTH` bytes of which it sets only as
many as the option has: `negotiate` and `synchronize` in their REQUEST_MSG, and `do_negotiate` in a
counter-offer.  So a payload depends on what the array held behind the option (`payload_iff`).
-/

open CMem

namespace Gdnp

/-- Where the client sends an objective: the request of an operation, or a counter-offer with the
given loop count and flag. -/
inductive Sender where
  | request (op : Operation)
  | counterOffer (loopCount flag : UInt8)

namespace Sender

/-- The objective around a value. -/
def objective : Sender → CString → ObjectiveOption
  | request .negoThread, value => objectiveOf .negotiation value 5 0
  | request .synchronize, value => objectiveOf .synchronization value 1 0
  | counterOffer loopCount flag, value => objectiveOf .negotiation value loopCount flag

/-- With a loop count of zero there is no counter-offer. -/
def Silent : Sender → Prop
  | request _ => False
  | counterOffer loopCount _ => loopCount = 0

theorem length_toBits_objective (o : ByteOrder) (s : Sender) (value : CString) :
    ((s.objective value).toBits o).length =
      value.bytes.length % 2 ^ 16 + ObjectiveOption.lenExceptValue := by
  rw [ObjectiveOption.length_toBits]
  cases s with
  | request op => cases op <;> rfl
  | counterOffer => rfl

end Sender

/-- The call with which an operation begins. -/
def ApiAct.Calls (op : Operation) : ApiAct → Prop
  | negotiate _ _ _ => op = .negoThread
  | synchronize _ _ _ => op = .synchronize
  | _ => False

namespace ApiClient

section Sends

variable (o : ByteOrder) (inetPton : CString → Option (BitVec 128))
  (inetNtop : BitVec 128 → CString)

/-- In some run the value is sent with the given payload, in an array that held `earlier` before:
`buffer_nego_obj`, `buffer` of `synchronize` or `send_buffer` of `do_negotiate`. -/
inductive Sends : Sender → CString → CharArray maxStringLength → CharArray maxStringLength → Prop
  | negotiate {c c' : ApiClient} {value rand ret as es sock msg}
      (run : (machine o inetPton inetNtop).run c (.negotiate value rand ret :: as) =
        some (c', es))
      (once : ∀ a ∈ as, ¬ a.Calls .negoThread) (wrote : .wrote .negoThread sock none msg ∈ es) :
    Sends (.request .negoThread) value c.buffer msg.payload
  | synchronize {c c' : ApiClient} {value rand buffer as es sock msg}
      (run : (machine o inetPton inetNtop).run c (.synchronize value rand buffer :: as) =
        some (c', es))
      (once : ∀ a ∈ as, ¬ a.Calls .synchronize) (wrote : .wrote .synchronize sock none msg ∈ es) :
    Sends (.request .synchronize) value buffer msg.payload
  | counterOffer {c c' : ApiClient} {op env sock answers es sock' msg}
      (step : c.step o inetPton inetNtop (.operate op env sock) = some (c', es))
      (wrote : .wrote op sock' answers msg ∈ es)
      (type : msg.hasType (· = .negoMsg)) :
    Sends (.counterOffer (UInt8.ofInt ((c.view op).adopt o env).loopCount)
      ((c.view op).adopt o env).flag) env.asaAnswer env.sendBuffer msg.payload

end Sends

end ApiClient

/-! ### Requests -/

namespace Client

variable {o : ByteOrder} {env : ClientEnv} {v v' : Client} {es : List ClientEvent}
  {b : CharArray maxStringLength}

/-- Until the request is written, the buffer holds it. -/
def Requests (v : Client) (b : CharArray maxStringLength) : Prop := v.pc.Setup → v.buffer = b

theorem Requests.of_thread (h : v.Requests b) (hv : v'.thread = v.thread) : v'.Requests b := by
  obtain ⟨hpc, hbuffer⟩ := Prod.mk.inj hv
  unfold Requests
  rw [hpc, hbuffer]
  exact h

theorem step_requests (h : v.step o env = some (v', es)) (hv : v.Requests b) :
    v'.Requests b ∧ ∀ msg, .wrote none msg ∈ es → msg.payload = b := by
  cases step_cases h with
  | setup pc => exact ⟨fun _ => hv pc, by simp⟩
  | request pc hloop hw =>
    refine ⟨nofun, fun msg hmsg => ?_⟩
    have hbuffer : v.buffer = b := hv (by rw [pc]; trivial)
    obtain rfl : msg = _ := by simpa using hmsg
    rw [← hbuffer]
    exact payload_of_writePdu_bytes (congrArg Prod.snd hw)
  | _ => exact ⟨nofun, by simp⟩

end Client

namespace ApiClient

variable {o : ByteOrder} {inetPton : CString → Option (BitVec 128)}
  {inetNtop : BitVec 128 → CString} {c c' : ApiClient} {a : ApiAct} {es : List ApiEvent}
  {op op' : Operation} {env : ClientEnv} {sock sock' : ℤ} {answers : Option Content} {msg : Msg}
  {b : CharArray maxStringLength}

/-- What an operation writes is written by `send_tcp`. -/
theorem wrote_mem_operate (h : c.operate o op env sock = some (c', es))
    (hw : .wrote op' sock' answers msg ∈ es) :
    op' = op ∧ ∃ v' ces, (c.view op).step o env = some (v', ces) ∧ .wrote answers msg ∈ ces := by
  obtain ⟨v', ces, hstep, -, rfl⟩ := operate_cases h
  simp only [List.mem_append] at hw
  obtain (((hw | hw) | hw) | hw) | hw := hw
  · unfold tcpInit at hw
    split at hw
    · simp at hw
    · simp at hw
    · simp at hw
  · unfold readEvents at hw
    split at hw <;> simp at hw
  · obtain ⟨e, he, heq⟩ := List.mem_map.1 hw
    cases e <;> cases heq
    exact ⟨rfl, v', ces, hstep, he⟩
  · unfold storeEvents at hw
    split at hw
    · split_ifs at hw <;> simp at hw
    · split_ifs at hw <;> simp at hw
    · simp at hw
  · unfold returnEvents at hw
    split at hw <;> simp at hw

/-- A step other than a call keeps the request of an operation, and writes no other. -/
theorem step_requests (h : c.step o inetPton inetNtop a = some (c', es)) (ha : ¬ a.Calls op)
    (hc : (c.view op).Requests b) :
    (c'.view op).Requests b ∧ ∀ sock msg, .wrote op sock none msg ∈ es → msg.payload = b := by
  cases step_cases h with
  | discover => exact ⟨hc.of_thread (by cases op <;> rfl), by simp⟩
  | discoverStep hstep =>
    have hthread := (UdpClient.step_frame hstep).1
    refine ⟨hc.of_thread ?_, by simp⟩
    cases op with
    | negoThread => exact hthread
    | synchronize => rfl
  | refuseNegotiate | refuseSynchronize => exact ⟨hc, by simp⟩
  | noThread | negotiate =>
    cases op with
    | negoThread => exact absurd rfl ha
    | synchronize => exact ⟨hc, by simp⟩
  | synchronize =>
    cases op with
    | negoThread => exact ⟨hc, by simp⟩
    | synchronize => exact absurd rfl ha
  | @operate op' env sock v' ces es hstep hes =>
    by_cases hop : op = op'
    · subst hop
      obtain ⟨hrequests, hwrote⟩ := Client.step_requests hstep hc
      rw [view_put]
      refine ⟨hrequests, fun sock' msg hw => ?_⟩
      obtain ⟨-, v'', ces', hstep', hmem⟩ := wrote_mem_operate hes hw
      rw [hstep] at hstep'
      cases hstep'
      exact hwrote msg hmem
    · rw [view_put_of_ne hop, view_tcpInit]
      exact ⟨hc, fun sock' msg hw => absurd (wrote_mem_operate hes hw).1 hop⟩

/-- An operation that is not called again writes no other request than the one it holds. -/
theorem run_requests {as : List ApiAct}
    (hrun : (machine o inetPton inetNtop).run c as = some (c', es))
    (has : ∀ a ∈ as, ¬ a.Calls op) (hc : (c.view op).Requests b)
    (hw : .wrote op sock none msg ∈ es) : msg.payload = b := by
  have hguard : (machine o inetPton inetNtop).Guarded (fun _ a => ¬ a.Calls op) c as :=
    EventMachine.guarded_of_forall_mem fun a ha _ => has a ha
  have hrequests := EventMachine.run_preserves_trace (t := [])
    (P := fun c t => (c.view op).Requests b ∧
      ∀ sock msg, .wrote op sock none msg ∈ t → msg.payload = b)
    (fun c t a c₁ es₁ hc ha h => ?_) ⟨hc, by simp⟩ hguard hrun
  · exact hrequests.2 sock msg hw
  · obtain ⟨hrequests, hwrote⟩ := step_requests h ha hc.1
    refine ⟨hrequests, fun sock msg hmem => ?_⟩
    rw [List.mem_append] at hmem
    exact hmem.elim (hc.2 sock msg) (hwrote sock msg)

/-! ### What is sent -/

theorem negotiate_requests {value : CString} {rand : UInt32} {ret : ℤ}
    (h : (machine o inetPton inetNtop).step c (.negotiate value rand ret) = some (c', es)) :
    (c'.view .negoThread).Requests
        (c.buffer.memcpy ((objectiveOf .negotiation value 5 0).toBits o)) ∧
      ∀ sock msg, .wrote .negoThread sock none msg ∉ es := by
  replace h : c.step o inetPton inetNtop (.negotiate value rand ret) = some (c', es) := h
  have hidle (hpc : c.pc = .idle) : ¬ c.pc.Setup := by
    rw [hpc]
    exact id
  cases step_cases h with
  | refuseNegotiate _ hpc | noThread _ hpc =>
    exact ⟨fun hsetup => absurd hsetup (hidle hpc), by simp⟩
  | negotiate _ _ _ hv =>
    subst hv
    exact ⟨fun _ => rfl, by simp⟩

theorem synchronize_requests {value : CString} {rand : UInt32}
    {buffer : CharArray maxStringLength}
    (h : (machine o inetPton inetNtop).step c (.synchronize value rand buffer) =
      some (c', es)) :
    (c'.view .synchronize).Requests
        (buffer.memcpy ((objectiveOf .synchronization value 1 0).toBits o)) ∧
      ∀ sock msg, .wrote .synchronize sock none msg ∉ es := by
  replace h : c.step o inetPton inetNtop (.synchronize value rand buffer) = some (c', es) := h
  cases step_cases h with
  | refuseSynchronize hfree =>
    have hidle : ¬ c.sync.pc.Setup := by
      rw [hfree.1]
      exact id
    exact ⟨fun hsetup => absurd hsetup hidle, by simp⟩
  | synchronize _ _ hv =>
    subst hv
    exact ⟨fun _ => rfl, by simp⟩

/-- A NEGO_MSG is a counter-offer. -/
theorem counterOffer_of_wrote {v v' : Client} {ces : List ClientEvent}
    (h : v.step o env = some (v', ces)) (hw : .wrote answers msg ∈ ces)
    (htype : msg.hasType (· = .negoMsg)) :
    (v.adopt o env).loopCount ≠ 0 ∧ msg.payload = (v.adopt o env).counterOffer o env := by
  cases Client.step_cases h with
  | counter pc hgeq hloop hwrite =>
    obtain ⟨-, rfl⟩ : _ ∧ msg = _ := by simpa using hw
    exact ⟨hloop, payload_of_writePdu_bytes (congrArg Prod.snd hwrite)⟩
  | request pc hloop hwrite | accept pc hgeq hwrite | decline pc hgeq hloop hwrite =>
    obtain ⟨-, rfl⟩ : _ ∧ msg = _ := by simpa using hw
    rw [Msg.hasType_of_writePdu hwrite] at htype
    simp at htype
  | _ => simp at hw

/-- The loop count of a counter-offer is one less than that of the offer. -/
theorem adopt_loopCount (o : ByteOrder) (env : ClientEnv) (v : Client) :
    UInt8.ofInt (v.adopt o env).loopCount =
        Content.loopCount o ⟨.negoMsg, v.buffer⟩ - 1 ∧
      ((v.adopt o env).loopCount = 0 ↔ Content.loopCount o ⟨.negoMsg, v.buffer⟩ = 1) := by
  have hloop : (v.adopt o env).loopCount =
      ((Content.loopCount o ⟨.negoMsg, v.buffer⟩).toNat : ℤ) - 1 := by
    rw [← Content.parseBits_loopCount env.after env.uninit]
    rfl
  generalize Content.loopCount o ⟨.negoMsg, v.buffer⟩ = n at hloop ⊢
  have hlt : n.toNat < 2 ^ 8 := n.toNat_lt
  have hcast : UInt8.ofInt n.toNat = n := by
    rw [UInt8.ofInt, Int.emod_eq_of_lt (by omega) (by omega), Int.toNat_natCast,
      UInt8.ofNat_toNat]
  rw [hloop]
  constructor
  · rw [sub_eq_add_neg, UInt8.ofInt_add, hcast, UInt8.ofInt_neg_one, ← UInt8.sub_eq_add_neg]
  · rw [← UInt8.toNat_inj, sub_eq_zero]
    exact Nat.cast_eq_one

theorem ofInt_loopCount_ne {v : Client} (h : (v.adopt o env).loopCount ≠ 0) :
    UInt8.ofInt (v.adopt o env).loopCount ≠ 0 := by
  obtain ⟨hcount, hzero⟩ := adopt_loopCount o env v
  rw [hcount]
  exact fun h0 => h (hzero.2 (UInt8.sub_eq_iff_eq_add.1 h0))

/-- The payload is the option, and behind it what was there before. -/
theorem payload_of_sends {s : Sender} {value : CString}
    {earlier payload : CharArray maxStringLength}
    (h : Sends o inetPton inetNtop s value earlier payload) :
    payload = earlier.memcpy ((s.objective value).toBits o) ∧ ¬ s.Silent := by
  cases h with
  | negotiate run once wrote =>
    obtain ⟨c₁, es₁, es₂, hcall, hrun, rfl⟩ := EventMachine.run_cons_iff.1 run
    obtain ⟨hrequests, hnone⟩ := negotiate_requests hcall
    exact ⟨run_requests hrun once hrequests
      ((List.mem_append.1 wrote).resolve_left (hnone _ _)), id⟩
  | synchronize run once wrote =>
    obtain ⟨c₁, es₁, es₂, hcall, hrun, rfl⟩ := EventMachine.run_cons_iff.1 run
    obtain ⟨hrequests, hnone⟩ := synchronize_requests hcall
    exact ⟨run_requests hrun once hrequests
      ((List.mem_append.1 wrote).resolve_left (hnone _ _)), id⟩
  | @counterOffer c c' op env sock answers es sock' msg step wrote type =>
    obtain ⟨-, v', ces, hstep, hw⟩ := wrote_mem_operate step wrote
    obtain ⟨hloop, hpayload⟩ := counterOffer_of_wrote hstep hw type
    exact ⟨hpayload, ofInt_loopCount_ne hloop⟩

/-! ### What can be sent -/

theorem writePdu_succeeds (a : CharArray maxStringLength) (type : MsgType) {sessionId : UInt32}
    (hid : sessionId.toNat ≤ maxSessionId) {w : WriteEnv} (hw : w.outcome = .success) :
    ∃ msg, writePdu a.bytes type sessionId w = (.success, some msg) := by
  have hsuccess : (writePdu a.bytes type sessionId w).1 = .success :=
    writePdu_success_iff.2 ⟨⟨a.length_eq.le, hid⟩, hw⟩
  obtain ⟨msg, hmsg⟩ := Option.isSome_iff_exists.1 (writePdu_isSome_iff.2 hsuccess)
  exact ⟨msg, Prod.ext hsuccess hmsg⟩

/-- All calls but those of `read` succeed, and `actual_session_id` holds the given value before the
first one. -/
def unread (actual : UInt32) : ClientEnv := { Client.sample .fail false with actual := actual }

/-- The first three steps of `send_tcp`. -/
theorem request_run {v : Client} (hpc : v.pc = .sendTcp) (hcur : v.curStates = .off)
    (hloop : v.loopCount ≠ 0) (hid : v.sessionId.toNat ≤ maxSessionId) (actual : UInt32) :
    ∃ v' ces msg, (Client.machine o).run v (List.replicate 3 (unread actual)) = some (v', ces) ∧
      v'.pc = .read .requestMsg actual .reply ∧ v'.sessionId = v.sessionId ∧
      .wrote none msg ∈ ces := by
  obtain ⟨msg, hmsg⟩ := writePdu_succeeds v.buffer .requestMsg hid
    (w := (unread actual).write) rfl
  have hsend : v.step o (unread actual) = some ({ v with pc := .connect }, []) := by
    rw [Client.step, hpc]
    dsimp only
    rw [if_pos hcur]
  have hconnect : Client.step o { v with pc := .connect } (unread actual) =
      some ({ v with pc := .request }, []) := rfl
  obtain ⟨v', hrequest, hpc', hid'⟩ : ∃ v', Client.step o { v with pc := .request }
      (unread actual) = some (v', [.wrote none msg]) ∧
        v'.pc = .read .requestMsg actual .reply ∧ v'.sessionId = v.sessionId := by
    rw [Client.step]
    dsimp only
    rw [if_neg hloop, hmsg]
    exact ⟨_, rfl, rfl, rfl⟩
  refine ⟨v', [.wrote none msg], msg, ?_, hpc', hid', List.mem_singleton_self _⟩
  refine EventMachine.run_cons_iff.2 ⟨_, [], _, hsend, ?_, rfl⟩
  refine EventMachine.run_cons_iff.2 ⟨_, [], _, hconnect, ?_, rfl⟩
  exact EventMachine.run_singleton_iff.2 hrequest

/-- The client replies to an offer whose loop count allows it. -/
theorem counterOffer_step {v : Client} (hpc : v.pc = .doNegotiate .negoMsg)
    (hgeq : env.geq = false) (hloop : (v.adopt o env).loopCount ≠ 0)
    (hid : v.sessionId.toNat ≤ maxSessionId) (hw : env.write.outcome = .success) :
    ∃ v' answers msg, v.step o env = some (v', [.wrote answers msg]) ∧
      msg.hasType (· = .negoMsg) := by
  obtain ⟨msg, hmsg⟩ := writePdu_succeeds ((v.adopt o env).counterOffer o env) .negoMsg hid hw
  have hstep : ∃ v', v.step o env = some (v', [.wrote (some ⟨.negoMsg, v.buffer⟩) msg]) := by
    rw [Client.step, hpc]
    dsimp only
    rw [Client.doNegotiate]
    dsimp only
    rw [if_neg (Bool.eq_false_iff.1 hgeq), if_neg hloop,
      show (v.adopt o env).sessionId = v.sessionId from rfl, hmsg]
    exact ⟨_, rfl⟩
  obtain ⟨v', hstep⟩ := hstep
  refine ⟨v', _, msg, hstep, ?_⟩
  rw [Msg.hasType_of_writePdu hmsg]
  rfl

variable (inetPton) (inetNtop)

theorem operate_of_step {v' : Client} {ces : List ClientEvent}
    (h : (c.view op).step o env = some (v', ces)) (sock : ℤ) :
    ∃ c' es, c.step o inetPton inetNtop (.operate op env sock) = some (c', es) ∧
      c'.view op = v' ∧
      ∀ answers msg, .wrote answers msg ∈ ces → ∃ sock', .wrote op sock' answers msg ∈ es := by
  have hoperate : c.step o inetPton inetNtop (.operate op env sock) = some (_, _) :=
    congrArg (Option.map _) h
  refine ⟨_, _, hoperate, view_put _ _ _, fun answers msg hmem => ?_⟩
  refine ⟨(c.tcpInit op sock).1.tcpSock, ?_⟩
  have hmap := List.mem_map_of_mem
    (f := ApiEvent.ofClient op (c.tcpInit op sock).1.tcpSock env.read.sessionId?) hmem
  simp only [List.mem_append]
  exact .inl (.inl (.inr hmap))

/-- A run of `send_tcp` is one of the client. -/
theorem operate_of_run {v' : Client} {ces : List ClientEvent} {envs : List ClientEnv}
    (h : (Client.machine o).run (c.view op) envs = some (v', ces)) (sock : ℤ) :
    ∃ c' es, (machine o inetPton inetNtop).run c (envs.map (.operate op · sock)) =
        some (c', es) ∧ c'.view op = v' ∧
      ∀ answers msg, .wrote answers msg ∈ ces → ∃ sock', .wrote op sock' answers msg ∈ es := by
  induction envs generalizing c ces with
  | nil =>
    obtain ⟨rfl, rfl⟩ := EventMachine.run_nil_iff.1 h
    exact ⟨c, [], rfl, rfl, by simp⟩
  | cons env envs ih =>
    obtain ⟨v₁, ces₁, ces₂, hstep, hrun, rfl⟩ := EventMachine.run_cons_iff.1 h
    obtain ⟨c₁, es₁, hstep', hview, hwrote₁⟩ := operate_of_step inetPton inetNtop hstep sock
    rw [← hview] at hrun
    obtain ⟨c', es₂, hrun', hview', hwrote₂⟩ := ih hrun
    refine ⟨c', es₁ ++ es₂, EventMachine.run_cons_iff.2 ⟨c₁, es₁, es₂, hstep', hrun', rfl⟩,
      hview', ?_⟩
    intro answers msg hmem
    rcases List.mem_append.1 hmem with hmem | hmem
    · obtain ⟨sock', h'⟩ := hwrote₁ answers msg hmem
      exact ⟨sock', List.mem_append_left _ h'⟩
    · obtain ⟨sock', h'⟩ := hwrote₂ answers msg hmem
      exact ⟨sock', List.mem_append_right _ h'⟩

/-- A client whose `buffer_nego_obj` holds the given bytes. -/
def holding (buffer : CharArray maxStringLength) : ApiClient :=
  { new (CharArray.zero _) 0 with
    toUdpClient :=
      { UdpClient.new (CharArray.zero _) 0 with
        toClient := { Client.new (CharArray.zero _) with buffer := buffer } } }

theorem holding_negoAddr (buffer : CharArray maxStringLength) :
    ¬ sockAddrEqual inetNtop (holding buffer).negoAddr broadcastAddr := by
  rw [sockAddrEqual, decide_eq_true_eq]
  exact fun heq => absurd (show (0 : UInt16) = 4444 from heq.2) (by decide)

/-- An operation that has been called can send its request. -/
theorem request_sent (hpc : (c.view op).pc = .sendTcp) (hcur : (c.view op).curStates = .off)
    (hloop : (c.view op).loopCount ≠ 0) (hid : (c.view op).sessionId = 0) :
    ∃ as c' es sock msg, (machine o inetPton inetNtop).run c as = some (c', es) ∧
      (∀ a ∈ as, ¬ a.Calls op) ∧ .wrote op sock none msg ∈ es := by
  obtain ⟨v', ces, msg, hrun, -, -, hmem⟩ := request_run hpc hcur hloop (by rw [hid]; decide) 0
  obtain ⟨c', es, hrun', -, hwrote⟩ := operate_of_run inetPton inetNtop hrun 3
  obtain ⟨sock, hmem'⟩ := hwrote none msg hmem
  exact ⟨_, c', es, sock, msg, hrun', by simp [ApiAct.Calls], hmem'⟩

theorem sends_request (op : Operation) (value : CString) (earlier : CharArray maxStringLength) :
    ∃ payload, Sends o inetPton inetNtop (.request op) value earlier payload := by
  have hequal := holding_negoAddr inetNtop earlier
  cases op with
  | negoThread =>
    obtain ⟨c₁, es₁, hcall, hpc, hcur, hloop, hid⟩ : ∃ c₁ es₁, (machine o inetPton inetNtop).step
        (holding earlier) (.negotiate value 0 0) = some (c₁, es₁) ∧
          (c₁.view .negoThread).pc = .sendTcp ∧ (c₁.view .negoThread).curStates = .off ∧
          (c₁.view .negoThread).loopCount = 5 ∧ (c₁.view .negoThread).sessionId = 0 :=
      ⟨_, _, congrArg some (if_neg hequal), rfl, rfl, rfl, rfl⟩
    obtain ⟨as, c', es, sock, msg, hrun, honce, hwrote⟩ := request_sent inetPton inetNtop hpc hcur
      (by rw [hloop]; decide) hid
    exact ⟨_, .negotiate (EventMachine.run_cons_iff.2 ⟨c₁, es₁, es, hcall, hrun, rfl⟩) honce
      (List.mem_append_right es₁ hwrote)⟩
  | synchronize =>
    obtain ⟨c₁, es₁, hcall, hpc, hcur, hloop, hid⟩ : ∃ c₁ es₁, (machine o inetPton inetNtop).step
        (holding earlier) (.synchronize value 0 earlier) = some (c₁, es₁) ∧
          (c₁.view .synchronize).pc = .sendTcp ∧ (c₁.view .synchronize).curStates = .off ∧
          (c₁.view .synchronize).loopCount = 1 ∧ (c₁.view .synchronize).sessionId = 0 :=
      ⟨_, _, congrArg some (if_neg hequal), rfl, rfl, rfl, rfl⟩
    obtain ⟨as, c', es, sock, msg, hrun, honce, hwrote⟩ := request_sent inetPton inetNtop hpc hcur
      (by rw [hloop]; decide) hid
    exact ⟨_, .synchronize (EventMachine.run_cons_iff.2 ⟨c₁, es₁, es, hcall, hrun, rfl⟩) honce
      (List.mem_append_right es₁ hwrote)⟩

/-- A client that has received an offer to which it may reply with the given loop count and
flag. -/
def offered (o : ByteOrder) (loopCount flag : UInt8) : ApiClient :=
  let buffer := (CharArray.zero _).memcpy
    ((objectiveOf .negotiation default (loopCount + 1) flag).toBits o)
  { holding buffer with
    toUdpClient := { (holding buffer).toUdpClient with pc := .doNegotiate .negoMsg } }

theorem offered_adopt {loopCount : UInt8} (h : loopCount ≠ 0) (flag : UInt8) (env : ClientEnv) :
    (((offered o loopCount flag).view .negoThread).adopt o env).loopCount ≠ 0 ∧
      UInt8.ofInt (((offered o loopCount flag).view .negoThread).adopt o env).loopCount =
        loopCount ∧
      (((offered o loopCount flag).view .negoThread).adopt o env).flag = flag := by
  have hcarries : Content.Carries o ⟨.negoMsg, ((offered o loopCount flag).view .negoThread).buffer⟩
      (objectiveOf .negotiation default (loopCount + 1) flag) := ⟨_, rfl⟩
  obtain ⟨hcount, hzero⟩ := adopt_loopCount o env ((offered o loopCount flag).view .negoThread)
  rw [hcarries.loopCount_eq] at hcount hzero
  refine ⟨fun h0 => h (UInt8.add_eq_right.1 (hzero.1 h0)), ?_, ?_⟩
  · rw [hcount]
    exact UInt8.add_sub_cancel loopCount 1
  · exact (Content.parseBits_flag (c := ⟨.negoMsg, _⟩) env.after env.uninit).trans hcarries.flag_eq

/-- Every counter-offer with a loop count that is not zero is possible. -/
theorem sends_counterOffer {loopCount : UInt8} (h : loopCount ≠ 0) (flag : UInt8)
    (value : CString) (earlier : CharArray maxStringLength) :
    ∃ payload, Sends o inetPton inetNtop (.counterOffer loopCount flag) value earlier payload := by
  let env := { Client.sample .fail false with asaAnswer := value, sendBuffer := earlier }
  obtain ⟨hloop, hcount, hflag⟩ := offered_adopt (o := o) h flag env
  obtain ⟨v', answers, msg, hstep, htype⟩ := counterOffer_step
    (v := (offered o loopCount flag).view .negoThread) rfl rfl hloop (Nat.zero_le _) rfl
  obtain ⟨c', es, hstep', -, hwrote⟩ := operate_of_step inetPton inetNtop hstep 3
  obtain ⟨sock', hmem⟩ := hwrote answers msg (List.mem_singleton_self _)
  have hsends := Sends.counterOffer hstep' hmem htype
  rw [hcount, hflag] at hsends
  exact ⟨msg.payload, hsends⟩

theorem sends_of_not_silent {s : Sender} (h : ¬ s.Silent) (value : CString)
    (earlier : CharArray maxStringLength) :
    ∃ payload, Sends o inetPton inetNtop s value earlier payload := by
  cases s with
  | request op => exact sends_request inetPton inetNtop op value earlier
  | counterOffer loopCount flag =>
    exact sends_counterOffer inetPton inetNtop h flag value earlier

/-- The payload is the same on two arrays exactly when these are alike behind the option, or nothing
is sent. -/
theorem payload_iff (s : Sender) (value : CString)
    (earlier earlier' : CharArray maxStringLength) :
    (∀ payload payload', Sends o inetPton inetNtop s value earlier payload →
        Sends o inetPton inetNtop s value earlier' payload' → payload = payload') ↔
      s.Silent ∨
        earlier.bytes.drop (value.bytes.length % 2 ^ 16 + ObjectiveOption.lenExceptValue) =
          earlier'.bytes.drop (value.bytes.length % 2 ^ 16 + ObjectiveOption.lenExceptValue) := by
  rw [← s.length_toBits_objective o, ← CharArray.memcpy_eq_memcpy_iff]
  constructor
  · intro h
    by_contra! hnot
    obtain ⟨payload, hsends⟩ := sends_of_not_silent inetPton inetNtop hnot.1 value earlier
    obtain ⟨payload', hsends'⟩ := sends_of_not_silent inetPton inetNtop hnot.1 value earlier'
    have heq := h payload payload' hsends hsends'
    rw [(payload_of_sends hsends).1, (payload_of_sends hsends').1] at heq
    exact hnot.2 heq
  · intro h payload payload' hsends hsends'
    obtain ⟨rfl, hs⟩ := payload_of_sends hsends
    obtain ⟨rfl, -⟩ := payload_of_sends hsends'
    exact h.resolve_left hs

/-- A request for the value `a` on a buffer that held zeros, and on one that held ones. -/
theorem not_payload_determined :
    ¬ ∃ (inetPton : CString → Option (BitVec 128)) (inetNtop : BitVec 128 → CString),
      ∀ (o : ByteOrder) (s : Sender) (value : CString)
        (earlier earlier' payload payload' : CharArray maxStringLength),
      Sends o inetPton inetNtop s value earlier payload →
      Sends o inetPton inetNtop s value earlier' payload' → payload = payload' := by
  rintro ⟨inetPton, inetNtop, h⟩
  obtain ⟨payload, hsends⟩ := sends_request (o := .little) inetPton inetNtop .negoThread valueA
    (CharArray.zero _)
  obtain ⟨payload', hsends'⟩ := sends_request (o := .little) inetPton inetNtop .negoThread valueA
    (CharArray.filled _ 1)
  have heq := h _ _ _ _ _ _ _ hsends hsends'
  rw [(payload_of_sends hsends).1, (payload_of_sends hsends').1] at heq
  revert heq
  decide +kernel

end ApiClient

end Gdnp
