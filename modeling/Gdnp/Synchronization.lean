import Gdnp.Api
import Gdnp.Conforming
import Gdnp.DecisionRule

/-!
# A synchronization gives the answer of the other ASA

`synchronize` runs the same exchange as a negotiation, with a loop count of 1 and a Synchronization
option in its request.  The session answers that request only, with what its ASA gives for the value
and in a NEGO_END_MSG, whatever `asa_geq_fn` says.  Both values go through the block of
`parse_bits`, and the answer of the ASA is read as a C string while it may lie there, so the values
are to be short and the answer a string of its own.  Then in every run in which the client takes no
failed read for a message, the request is all that the client writes, and when `send_tcp` succeeds,
the value that `synchronize` configures is the one that the session's ASA has given for its own
(`synchronization_agrees`).
-/

open CMem

namespace Gdnp

/-- The answer of a session to a Synchronization, around a value of its ASA. -/
def syncAnswer (o : ByteOrder) (d : CString) : Content :=
  .ofBits .negoEndMsg ((objectiveOf .synchronization d 0 0).toBits o)

/-- The message on which the ASA of the session is asked next. -/
def RunPc.asks? : RunPc → Option Content
  | upper c => some c
  | _ => none

section Statement

variable (o : ByteOrder) (Gives : List UInt8 → CString → Prop)

/-- The session's ASA answers a value with one that `Gives` relates to it. -/
def Net.AsaGives (n : Net) : NetAct → Prop
  | .server (.run env) =>
    ∀ s ∈ n.session, ∀ c ∈ s.runPc.asks?, Gives (c.value o) env.upperData
  | _ => True

instance [∀ v d, Decidable (Gives v d)] (n : Net) : DecidablePred (n.AsaGives o Gives)
  | .server (.run _) => inferInstanceAs (Decidable (∀ s ∈ _, ∀ c ∈ RunPc.asks? _, Gives _ _))
  | .server (.push _) | .server (.wait _ _) | .server (.ends _) | .client _ | .recv _
  | .deliver _ => inferInstanceAs (Decidable True)

/-- A message answers a Synchronization of the value. -/
def Synced (value : List UInt8) (msg : Msg) : Prop :=
  ∃ d, Gives value d ∧ d.bytes.length + ObjectiveOption.lenExceptValue ≤ maxStringLength ∧
    Content.ofMsg msg = some (syncAnswer o d)

/-- The client writes the request and nothing else, and configures nothing before `send_tcp` has
returned; the session answers the request. -/
def NetEvent.Synchronizes (request : Content) (value : List UInt8) : NetEvent → Prop
  | client (.wrote _ msg) => Content.ofMsg msg = some request
  | client (.configured _ _) => False
  | server (.wrote (some c) msg) => c = request ∧ Synced o Gives value msg
  | _ => True

/-- The session thread answers with a value of its ASA. -/
def RunPc.Synchronizes (value : List UInt8) : RunPc → Prop
  | setIdle _ d => Gives value d
  | decide _ d => Gives value d
  | sendSwitch _ r => ∃ d, Gives value d ∧
    r = ⟨.negoEndMsg, (objectiveOf .synchronization d 0 0).toBits o⟩
  | sendWrite _ r => ∃ d, Gives value d ∧
    r = ⟨.negoEndMsg, (objectiveOf .synchronization d 0 0).toBits o⟩
  | _ => True

/-- What holds along a run of a synchronization. -/
structure Syncing (request : CharArray maxStringLength) (value : List UInt8) (n : Net)
    (t : List NetEvent) : Prop where
  inv : Inv o request n
  history : n.history = t.foldl History.next .empty
  events : ∀ e ∈ t, e.Synchronizes o Gives ⟨.requestMsg, request⟩ value
  session : ∀ s ∈ n.session, s.runPc.Synchronizes o Gives value
  success : n.client.pc = .ret .success → ∃ c msg, .server (.wrote (some c) msg) ∈ t ∧
    Content.ofMsg msg = some ⟨.negoEndMsg, n.client.buffer⟩

end Statement

/-! ## The history -/

theorem History.mem_next {h : History} {e : NetEvent} :
    (∀ c ∈ (h.next e).offer, c ∈ h.offer ∨
      ∃ answers msg, e = .client (.wrote answers msg) ∧ Content.ofMsg msg = some c) ∧
    ∀ p ∈ (h.next e).replies, p ∈ h.replies ∨ e = .server (.wrote (some p.1) p.2) := by
  unfold next
  split
  · split_ifs
    · exact ⟨fun c hc => .inr ⟨_, _, rfl, hc⟩, fun p hp => absurd hp List.not_mem_nil⟩
    · exact ⟨fun c hc => .inl hc, fun p hp => .inl hp⟩
  · rename_i answers msg
    refine ⟨fun c hc => .inl hc, fun p hp => ?_⟩
    cases answers with
    | none => exact .inl hp
    | some c =>
      obtain rfl | hp := List.mem_cons.1 hp
      · exact .inr rfl
      · exact .inl hp
  · exact ⟨fun c hc => .inl hc, fun p hp => .inl hp⟩

/-- The offer and the replies of the history are those of the events. -/
theorem History.mem_foldl (es : List NetEvent) :
    (∀ c ∈ (es.foldl next empty).offer,
      ∃ answers msg, .client (.wrote answers msg) ∈ es ∧ Content.ofMsg msg = some c) ∧
    ∀ p ∈ (es.foldl next empty).replies, .server (.wrote (some p.1) p.2) ∈ es := by
  induction es using List.reverseRecOn with
  | nil => exact ⟨fun c hc => (by cases hc), fun p hp => absurd hp List.not_mem_nil⟩
  | append_singleton es e ih =>
    obtain ⟨hoffer, hreplies⟩ := ih
    rw [List.foldl_append]
    refine ⟨fun c hc => ?_, fun p hp => ?_⟩
    · obtain hc | ⟨answers, msg, rfl, hmsg⟩ := mem_next.1 c hc
      · obtain ⟨answers, msg, hmem, hmsg⟩ := hoffer c hc
        exact ⟨answers, msg, List.mem_append_left _ hmem, hmsg⟩
      · exact ⟨answers, msg, List.mem_append_right _ List.mem_cons_self, hmsg⟩
    · obtain hp | rfl := mem_next.2 p hp
      · exact List.mem_append_left _ (hreplies p hp)
      · exact List.mem_append_right _ List.mem_cons_self

variable {o : ByteOrder} {n n' : Net}

theorem step_history {a : NetAct} {es : List NetEvent} (h : n.step o a = some (n', es)) :
    n'.history = es.foldl History.next n.history := by
  cases Net.step_cases h with
  | deliver => exact (Net.distribute_client _ _ _).1
  | _ => rfl

/-- A message that is distributed starts the session or leaves its thread where it is. -/
theorem Net.runPc_distribute {d : Decoded} {last : Content} {s : ServerSession}
    (h : (n.distribute d last).session = some s) :
    s.runPc = .head ∨ ∃ s₁, n.session = some s₁ ∧ s.runPc = s₁.runPc := by
  unfold distribute at h
  split at h
  · split_ifs at h
    · obtain rfl := Option.some.inj h
      exact .inl rfl
    · exact .inr ⟨s, h, rfl⟩
  · rename_i s₁ hs₁
    right
    split_ifs at h
    · obtain rfl := Option.some.inj h
      exact ⟨s₁, hs₁, rfl⟩
    · exact ⟨s, h, rfl⟩

/-! ## The answer of the session -/

section Reply

variable {c : Content} {value : CString}

/-- The last offer of a Synchronization gets the ASA's value, good enough or not. -/
theorem reply_synchronization
    (h : c.Carries o (objectiveOf .synchronization value 1 0)) (after : Mem) (uninit : OptionType)
    (d : CString) (geq : Bool) :
    reply o (recvOption o c after uninit) d geq =
      ⟨.negoEndMsg, (objectiveOf .synchronization d 0 0).toBits o⟩ := by
  have htype : (recvOption o c after uninit).type = .synchronization := by
    show (GdnpOption.parseBits o (c.data.mem after) uninit).type = _
    rw [Content.parseBits_type, h.optionType]
    rfl
  have hloop : (recvOption o c after uninit).loopCount = 0 := by
    rw [recvOption_loopCount, h.loopCount_eq]
    exact (by decide : (1 : UInt8) - 1 = 0)
  have hflag : (recvOption o c after uninit).flag = 0 :=
    (recvOption_flag o c after uninit).trans h.flag_eq
  unfold reply
  rw [if_pos htype, htype, hloop, hflag]

theorem syncAnswer_carries (d : CString) :
    (syncAnswer o d).Carries o (objectiveOf .synchronization d 0 0) := ⟨_, rfl⟩

end Reply

variable {Gives : List UInt8 → CString → Prop} {request : CharArray maxStringLength}
  {value : List UInt8}

/-! ## The steps -/

namespace Syncing

variable {t : List NetEvent}

/-- The only offer of the client is its request. -/
theorem offer (hs : Syncing o Gives request value n t) :
    ∀ c ∈ n.history.offer, c = ⟨.requestMsg, request⟩ := by
  intro c hc
  rw [hs.history] at hc
  obtain ⟨answers, msg, hmem, hmsg⟩ := (History.mem_foldl t).1 c hc
  exact Option.some.inj (hmsg.symm.trans (hs.events _ hmem))

/-- What `do_negotiate` works on, if not a WAIT_MSG, is the answer to the request. -/
theorem held (hs : Syncing o Gives request value n t) {type : MsgType}
    (hpc : n.client.pc = .doNegotiate type) (htype : type ≠ .waitMsg) :
    ∃ c msg d, .server (.wrote (some c) msg) ∈ t ∧
      Content.ofMsg msg = some ⟨type, n.client.buffer⟩ ∧
      ⟨type, n.client.buffer⟩ = syncAnswer o d := by
  obtain ⟨-, -, offer, msg, -, hreply, hmsg, -⟩ := hs.inv.alone hpc htype
  rw [hs.history] at hreply
  have hmem := (History.mem_foldl t).2 _ hreply
  obtain ⟨-, d, -, -, hd⟩ := hs.events _ hmem
  exact ⟨offer, msg, d, hmem, hmsg, Option.some.inj (hmsg.symm.trans hd)⟩

theorem ne_negoMsg (hs : Syncing o Gives request value n t) :
    n.client.pc ≠ .doNegotiate .negoMsg := by
  intro hpc
  obtain ⟨c, msg, d, -, -, hd⟩ := hs.held hpc (by decide)
  cases congrArg Content.type hd

theorem client_events (hs : Syncing o Gives request value n t) {env : ClientEnv} {c : Client}
    {es : List ClientEvent} (h : Client.Step o env n.client c es) :
    ∀ e ∈ es, (NetEvent.client e).Synchronizes o Gives ⟨.requestMsg, request⟩ value := by
  intro e he
  cases h with
  | request pc hloop hw =>
    rw [List.mem_singleton.1 he]
    show Content.ofMsg _ = some _
    rw [Content.ofMsg_of_writePdu hw, Content.ofBits_bytes,
      (hs.inv.setup (by rw [pc]; trivial)).2.1]
  | accept pc => exact absurd pc hs.ne_negoMsg
  | acceptFails pc => exact absurd pc hs.ne_negoMsg
  | decline pc => exact absurd pc hs.ne_negoMsg
  | counter pc => exact absurd pc hs.ne_negoMsg
  | endAccept pc hopt =>
    -- The option in the answer is no Accept.
    obtain ⟨c, msg, d, -, -, hd⟩ := hs.held pc (by decide)
    have hsync := (syncAnswer_carries (o := o) d).optionType
    rw [← hd] at hsync
    rw [Content.parseBits_type (c := ⟨.negoEndMsg, n.client.buffer⟩), hsync] at hopt
    cases hopt
  | readMsg | readPhantom => rw [List.mem_singleton.1 he]; trivial
  | _ => exact absurd he List.not_mem_nil

/-- When `do_negotiate` returns SUCCESS, the answer to the request is in the buffer. -/
theorem client_success (hs : Syncing o Gives request value n t) {env : ClientEnv} {c : Client}
    {es : List ClientEvent} (h : Client.Step o env n.client c es) (hpc : c.pc = .ret .success) :
    ∃ k msg, .server (.wrote (some k) msg) ∈ t ∧
      Content.ofMsg msg = some ⟨.negoEndMsg, c.buffer⟩ := by
  cases h with
  | @setup _ _ pc' pc hpc' =>
    replace hpc : pc' = .ret .success := hpc
    subst hpc
    obtain hsetup | ⟨e, he, hret⟩ := hpc'
    · exact hsetup.elim
    · exact absurd (ClientPc.ret.inj hret).symm he
  | requestFails pc he => exact absurd (ClientPc.ret.inj hpc) he
  | readRet pc hr he => exact absurd (ClientPc.ret.inj hpc) he
  | counterFails pc he => exact absurd (ClientPc.ret.inj hpc) he
  | accept pc => exact absurd pc hs.ne_negoMsg
  | acceptFails pc => exact absurd pc hs.ne_negoMsg
  | decline pc => exact absurd pc hs.ne_negoMsg
  | declineFails pc => exact absurd pc hs.ne_negoMsg
  | endAccept pc =>
    obtain ⟨k, msg, d, hmem, hmsg, -⟩ := hs.held pc (by decide)
    exact ⟨k, msg, hmem, hmsg⟩
  | endOther pc =>
    obtain ⟨k, msg, d, hmem, hmsg, -⟩ := hs.held pc (by decide)
    exact ⟨k, msg, hmem, hmsg⟩
  | _ => cases hpc

/-- The session thread works on the request only. -/
theorem session_offer (hs : Syncing o Gives request value n t) {s : ServerSession} {c : Content}
    (hsession : n.session = some s) (hheld : s.runPc.held = [c]) (hoffer : c.IsOffer) :
    c = ⟨.requestMsg, request⟩ :=
  hs.offer c (hs.inv.session_offer hsession (ServerSession.mem_msgs hheld) hoffer).1

theorem runStep (hs : Syncing o Gives request value n t) {w : CString}
    (hreq : Content.Carries o ⟨.requestMsg, request⟩ (objectiveOf .synchronization w 1 0))
    (hvalue : Content.value o ⟨.requestMsg, request⟩ = value)
    (hshort : ∀ d, Gives value d → d.bytes.length < 2 ^ 16) {s s' : ServerSession}
    (hsession : n.session = some s) {env : RunEnv}
    (hasa : n.AsaGives o Gives (.server (.run env))) {es : List SessionEvent}
    (h : s.runStep o env = some (s', es)) :
    s'.runPc.Synchronizes o Gives value ∧
      ∀ e ∈ es, (NetEvent.server e).Synchronizes o Gives ⟨.requestMsg, request⟩ value := by
  have hgives := hs.session s hsession
  have hok := (hs.inv.session s hsession).2
  have hoffer {c : Content} := hs.session_offer (c := c) hsession
  cases ServerSession.runStep_cases h with
  | @upper c pc =>
    rw [pc] at hok
    obtain rfl := hoffer (by rw [pc]; rfl) hok
    refine ⟨?_, by simp⟩
    rw [← hvalue]
    exact hasa s hsession _ (by rw [pc]; rfl)
  | @setIdle c d pc =>
    rw [pc] at hgives
    exact ⟨hgives, by simp⟩
  | @decide c d pc =>
    rw [pc] at hgives hok
    obtain rfl := hoffer (by rw [pc]; rfl) hok
    exact ⟨⟨d, hgives, reply_synchronization hreq _ _ _ _⟩, by simp⟩
  | sendSwitch pc =>
    rw [pc] at hgives
    exact ⟨hgives, by simp⟩
  | @sendNego c r e msg pc ht hw =>
    rw [pc] at hgives
    obtain ⟨d, -, rfl⟩ := hgives
    cases ht
  | @sendEnd c r e msg pc ht hw =>
    rw [pc] at hgives hok
    obtain ⟨d, hd, rfl⟩ := hgives
    obtain rfl := hoffer (by rw [pc]; rfl) hok.1
    refine ⟨trivial, fun e he => ?_⟩
    obtain rfl | rfl := List.mem_pair.1 he
    · trivial
    · -- What could be written fits into a message.
      have hlen := (decode_of_writePdu (congrArg Prod.snd hw)).1.1
      have hl : (objectiveOf .synchronization d 0 0).len.toNat = d.bytes.length := by
        show (UInt16.ofNat d.bytes.length).toNat = _
        rw [UInt16.toNat_ofNat', Nat.mod_eq_of_lt (hshort d hd)]
      rw [ObjectiveOption.length_toBits, hl] at hlen
      exact ⟨rfl, d, hd, hlen, Content.ofMsg_of_writePdu hw⟩
  | popSkip | pop | sendRefused | sendFails =>
    refine ⟨trivial, fun e he => ?_⟩
    rw [List.mem_singleton.1 he]
    trivial
  | _ => exact ⟨trivial, by simp⟩

theorem sessionStep (hs : Syncing o Gives request value n t) {w : CString}
    (hreq : Content.Carries o ⟨.requestMsg, request⟩ (objectiveOf .synchronization w 1 0))
    (hvalue : Content.value o ⟨.requestMsg, request⟩ = value)
    (hshort : ∀ d, Gives value d → d.bytes.length < 2 ^ 16) {s s' : ServerSession}
    (hsession : n.session = some s) {a : SessionAct} (hasa : n.AsaGives o Gives (.server a))
    {es : List SessionEvent} (h : s.step o a = some (s', es)) :
    s'.runPc.Synchronizes o Gives value ∧
      ∀ e ∈ es, (NetEvent.server e).Synchronizes o Gives ⟨.requestMsg, request⟩ value := by
  have hgives := hs.session s hsession
  cases a with
  | push c =>
    cases h
    exact ⟨hgives, by simp⟩
  | run env => exact hs.runStep hreq hvalue hshort hsession hasa h
  | wait k env =>
    obtain ⟨t, t', -, hstep, rfl⟩ := ServerSession.step_wait_iff.1 h
    obtain rfl | ⟨msg, rfl, -⟩ := ServerSession.waitStep_events hstep
    · exact ⟨hgives, by simp⟩
    · refine ⟨hgives, fun e he => ?_⟩
      rw [List.mem_singleton.1 he]
      trivial
  | ends k =>
    obtain ⟨t, t', s₁, -, hstep, rfl, rfl⟩ := ServerSession.step_ends_iff.1 h
    obtain rfl | rfl | ⟨-, rfl⟩ := ServerSession.endStep_cases hstep <;> exact ⟨hgives, by simp⟩

/-- What a step of the exchange does to the session, to the client's result and with its events. -/
theorem step_parts (hs : Syncing o Gives request value n t) {w : CString}
    (hreq : Content.Carries o ⟨.requestMsg, request⟩ (objectiveOf .synchronization w 1 0))
    (hvalue : Content.value o ⟨.requestMsg, request⟩ = value)
    (hshort : ∀ d, Gives value d → d.bytes.length < 2 ^ 16) {a : NetAct}
    (hasa : n.AsaGives o Gives a) {es : List NetEvent} (h : n.step o a = some (n', es)) :
    (∀ s ∈ n'.session, s.runPc.Synchronizes o Gives value) ∧
      (∀ e ∈ es, e.Synchronizes o Gives ⟨.requestMsg, request⟩ value) ∧
      (n'.client.pc = .ret .success → ∃ c msg, .server (.wrote (some c) msg) ∈ t ∧
        Content.ofMsg msg = some ⟨.negoEndMsg, n'.client.buffer⟩) := by
  cases Net.step_cases h with
  | client hc =>
    exact ⟨hs.session, List.forall_mem_map.2 (hs.client_events hc), hs.client_success hc⟩
  | recv pc hn hc =>
    exact ⟨hs.session, List.forall_mem_map.2 (hs.client_events hc), hs.client_success hc⟩
  | drop => exact ⟨hs.session, by simp, hs.success⟩
  | @deliver last msg msgs d hn hd =>
    refine ⟨fun s hs' => ?_, by simp, ?_⟩
    · obtain hpc | ⟨s₁, hsession, hpc⟩ := Net.runPc_distribute hs' <;> rw [hpc]
      · trivial
      · exact hs.session s₁ hsession
    · unfold Net.distribute
      split <;> split_ifs <;> exact hs.success
  | server ha hsession hstep =>
    obtain ⟨hgives, hevents⟩ := hs.sessionStep hreq hvalue hshort hsession hasa hstep
    refine ⟨?_, List.forall_mem_map.2 hevents, hs.success⟩
    intro s hs'
    obtain rfl := Option.some.inj hs'
    exact hgives

theorem step (hs : Syncing o Gives request value n t) {w : CString}
    (hreq : Content.Carries o ⟨.requestMsg, request⟩ (objectiveOf .synchronization w 1 0))
    (hvalue : Content.value o ⟨.requestMsg, request⟩ = value)
    (hshort : ∀ d, Gives value d → d.bytes.length < 2 ^ 16) {a : NetAct} (hok : NoPhantom n a)
    (hasa : n.AsaGives o Gives a) {es : List NetEvent} (h : n.step o a = some (n', es)) :
    Syncing o Gives request value n' (t ++ es) := by
  obtain ⟨hsession, hevents, hsuccess⟩ := hs.step_parts hreq hvalue hshort hasa h
  refine ⟨inv_step hs.inv hok h, ?_, fun e he => ?_, hsession, fun hpc => ?_⟩
  · rw [step_history h, hs.history, List.foldl_append]
  · exact (List.mem_append.1 he).elim (hs.events e) (hevents e)
  · obtain ⟨c, msg, hmem, hmsg⟩ := hsuccess hpc
    exact ⟨c, msg, List.mem_append_left _ hmem, hmsg⟩

end Syncing

/-! ## Runs -/

theorem Client.carries_synchronize (c : Client) (sessionId : UInt32) (bufferObj : CString)
    (buffer : CharArray maxStringLength) :
    Content.Carries o ⟨.requestMsg, (c.synchronize o sessionId bufferObj buffer).buffer⟩
      (objectiveOf .synchronization bufferObj 1 0) :=
  ⟨buffer, rfl⟩

theorem syncing_start (c : Client) (sessionId : UInt32) (bufferObj : CString)
    (buffer : CharArray maxStringLength) (v : List UInt8) :
    Syncing o Gives (c.synchronize o sessionId bufferObj buffer).buffer v
      (.start (c.synchronize o sessionId bufferObj buffer)) [] where
  inv := by
    refine inv_start trivial rfl ?_
    rw [(c.carries_synchronize sessionId bufferObj buffer).loopCount_eq]
    rfl
  history := rfl
  events e he := absurd he List.not_mem_nil
  session s hs := by cases hs
  success hpc := by cases hpc

/-- In every run of a synchronization, where the value and what the ASA of the session may give for
it are C strings of their own that fit into the block of `parse_bits`, the client makes one offer at
most, the session answers it with what its ASA gives for the value, and when `send_tcp` succeeds,
`synchronize` configures a value that the ASA has given, and no other. -/
theorem synchronization_agrees {c : Client} {sessionId : UInt32} {bufferObj : CString}
    {buffer : CharArray maxStringLength} {as : List NetAct} {es : List NetEvent}
    (hblock : bufferObj.bytes.length ≤ 2)
    (hgives : ∀ d, Gives bufferObj.bytes d → d.bytes.length ≤ 2)
    (hok : (Net.machine o).Guarded (fun n a => NoPhantom n a ∧ n.AsaGives o Gives a)
      (.start (c.synchronize o sessionId bufferObj buffer)) as)
    (hrun : (Net.machine o).run (.start (c.synchronize o sessionId bufferObj buffer)) as =
      some (n, es)) :
    es.countP NetEvent.isOffer ≤ 1 ∧
      (∀ e ∈ es, e.Synchronizes o Gives
        ⟨.requestMsg, (c.synchronize o sessionId bufferObj buffer).buffer⟩ bufferObj.bytes) ∧
      (n.client.pc = .ret .success → ∃ d, Gives bufferObj.bytes d ∧
        ∀ env, ApiClient.returnEvents o n.client .synchronize env =
          [.configured .synchronize d.bytes, .returned .synchronize .success]) := by
  have hlen : bufferObj.bytes.length + ObjectiveOption.lenExceptValue ≤ maxStringLength :=
    (Nat.add_le_add_right hblock _).trans (by decide)
  have hshort : ∀ d, Gives bufferObj.bytes d → d.bytes.length < 2 ^ 16 := fun d hd =>
    (hgives d hd).trans_lt (by decide)
  have hreq := c.carries_synchronize (o := o) sessionId bufferObj buffer
  have hvalue := (hreq.value_objectiveOf hlen).2
  have hend := EventMachine.run_preserves_trace
    (P := Syncing o Gives (c.synchronize o sessionId bufferObj buffer).buffer bufferObj.bytes)
    (fun n t a n' es hs ha h => hs.step hreq hvalue hshort ha.1 ha.2 h)
    (syncing_start c sessionId bufferObj buffer bufferObj.bytes) hok hrun
  rw [List.nil_append] at hend
  refine ⟨?_, hend.events, fun hpc => ?_⟩
  · have hbound := hend.inv.bound
    rw [hreq.loopCount_eq, hend.history, History.foldl_offers] at hbound
    exact (Nat.le_add_left _ _).trans hbound
  · obtain ⟨k, msg, hmem, hmsg⟩ := hend.success hpc
    obtain ⟨-, d, hgives, hfits, hd⟩ := hend.events _ hmem
    have hanswer : (⟨.negoEndMsg, n.client.buffer⟩ : Content) = syncAnswer o d :=
      Option.some.inj (hmsg.symm.trans hd)
    obtain ⟨hfit, hv⟩ := (syncAnswer_carries (o := o) d).value_objectiveOf hfits
    rw [← hanswer] at hfit hv
    refine ⟨d, hgives, fun env => ?_⟩
    unfold ApiClient.returnEvents
    rw [hpc, ← hv, ← Content.parseBits_getValue hfit env.after env.uninit]

/-- A session of an ASA that always answers `b`. -/
theorem synchronization_agrees_b :
    ∃ n es, (Net.machine .little).run
        (.start ((Client.new (CharArray.zero _)).synchronize .little 7 valueA (CharArray.zero _)))
        (Net.opening ++ Net.answering true ++
          [.recv (Client.sample .fail false), .client (Client.sample .fail false)]) =
          some (n, es) ∧
      ∀ env, ApiClient.returnEvents .little n.client .synchronize env =
        [.configured .synchronize valueB.bytes, .returned .synchronize .success] := by
  have hret : ((Net.machine .little).run
      (.start ((Client.new (CharArray.zero _)).synchronize .little 7 valueA (CharArray.zero _)))
      (Net.opening ++ Net.answering true ++
        [.recv (Client.sample .fail false), .client (Client.sample .fail false)])).map
      (·.1.client.pc) = some (.ret .success) := by decide +kernel
  obtain ⟨⟨n, es⟩, hrun, hpc⟩ := Option.map_eq_some_iff.1 hret
  have hgives (d : CString) (hd : d = valueB) : d.bytes.length ≤ 2 := by
    rw [hd]
    decide
  obtain ⟨-, -, hvalue⟩ := @synchronization_agrees .little n (fun _ d => d = valueB) _ 7 valueA _
    _ es (by decide) hgives (by decide +kernel) hrun
  obtain ⟨d, rfl, hevents⟩ := hvalue hpc
  exact ⟨n, es, hrun, hevents⟩

end Gdnp
