import Gdnp.Leftover

/-!
# Oversized values

`negotiate`, `synchronize` and `do_negotiate` narrow the length of a value to 16 bits and copy the
option around it into an array of `MAXSTRINGLENGTH` bytes, whatever its length.  So a value is
copied whole and inside the array, or refused with an error, exactly when it fits
(`handled_iff`).
-/

open CMem

namespace Gdnp

/-- The option has the length of the value, and its bytes fit into the array they are copied to. -/
def Sender.Copies (o : ByteOrder) (s : Sender) (value : CString) : Prop :=
  (s.objective value).len.toNat = value.bytes.length ∧
    ((s.objective value).toBits o).length ≤ maxStringLength

theorem Sender.copies_iff (o : ByteOrder) (s : Sender) (value : CString) :
    s.Copies o value ↔
      value.bytes.length + ObjectiveOption.lenExceptValue ≤ maxStringLength := by
  have hlen : (s.objective value).len.toNat = value.bytes.length % 2 ^ 16 := by
    have hobjective : (s.objective value).len = UInt16.ofNat value.bytes.length := by
      cases s with
      | request op => cases op <;> rfl
      | counterOffer => rfl
    rw [hobjective, UInt16.toNat_ofNat']
  unfold Copies
  rw [s.length_toBits_objective, hlen]
  unfold ObjectiveOption.lenExceptValue maxStringLength
  omega

namespace ApiClient

section Gives

variable (o : ByteOrder) (inetPton : CString → Option (BitVec 128))
  (inetNtop : BitVec 128 → CString)

/-- In a run that ends in the given state and with the given events, the value is given to an
operation: to a call, or by the ASA as a counter-offer. -/
inductive Gives : Sender → Operation → CString → ApiClient → List ApiEvent → Prop
  | negotiate {c c' : ApiClient} {value rand ret as es}
      (run : (machine o inetPton inetNtop).run c (.negotiate value rand ret :: as) = some (c', es))
      (once : ∀ a ∈ as, ¬ a.Calls .negoThread) :
    Gives (.request .negoThread) .negoThread value c' es
  | synchronize {c c' : ApiClient} {value rand buffer as es}
      (run : (machine o inetPton inetNtop).run c (.synchronize value rand buffer :: as) =
        some (c', es))
      (once : ∀ a ∈ as, ¬ a.Calls .synchronize) (returned : c'.sync.pc = .idle) :
    Gives (.request .synchronize) .synchronize value c' es
  | counterOffer {c c' : ApiClient} {op env sock es}
      (step : c.step o inetPton inetNtop (.operate op env sock) = some (c', es))
      (pc : (c.view op).pc = .doNegotiate .negoMsg) (geq : env.geq = false)
      (loop : ((c.view op).adopt o env).loopCount ≠ 0) :
    Gives (.counterOffer (UInt8.ofInt ((c.view op).adopt o env).loopCount)
      ((c.view op).adopt o env).flag) op env.asaAnswer c' es

end Gives

/-- The operation reports an error and sends nothing. -/
def Rejects (s : Sender) (op : Operation) (c' : ApiClient) (es : List ApiEvent) : Prop :=
  (∃ e, e ≠ .success ∧ match s with
    | .request _ => .returned op e ∈ es
    | .counterOffer _ _ => (c'.view op).pc = .ret e) ∧
  ∀ sock answers msg, .wrote op sock answers msg ∉ es

/-- Whenever the value is given to an operation, it is rejected or copied as it should be. -/
def Handled (o : ByteOrder) (inetPton : CString → Option (BitVec 128))
    (inetNtop : BitVec 128 → CString) (s : Sender) (value : CString) : Prop :=
  ∀ op c' es, Gives o inetPton inetNtop s op value c' es → Rejects s op c' es ∨ s.Copies o value

variable {o : ByteOrder} {env : ClientEnv} {op : Operation} {c c' : ApiClient}
  {es : List ApiEvent}

/-- `send_tcp` writes the request, takes a failing read for a message and returns. -/
theorem request_returns {v : Client} (hpc : v.pc = .sendTcp) (hcur : v.curStates = .off)
    (hloop : v.loopCount ≠ 0) (hid : v.sessionId.toNat ≤ maxSessionId) :
    ∃ v' ces msg, (Client.machine o).run v (List.replicate 6 (unread v.sessionId)) =
      some (v', ces) ∧ v'.pc = .idle ∧ .wrote none msg ∈ ces := by
  obtain ⟨v₁, ces₁, msg, hrun, hpc₁, hid₁, hmem⟩ := request_run (o := o) hpc hcur hloop hid
    v.sessionId
  obtain ⟨v₂, ces₂, hrest, hidle⟩ : ∃ v₂ ces₂, (Client.machine o).run v₁
      (List.replicate 3 (unread v.sessionId)) = some (v₂, ces₂) ∧ v₂.pc = .idle := by
    have hread : (Client.machine o).step v₁ (unread v.sessionId) =
        some ({ v₁ with pc := .doNegotiate .requestMsg },
          [.received ⟨.requestMsg, v₁.buffer⟩]) := by
      show v₁.step o _ = _
      rw [Client.step, hpc₁]
      show some (v₁.readDone .requestMsg v.sessionId .reply) = _
      rw [Client.readDone, if_neg (not_not.2 hid₁.symm)]
      rfl
    obtain ⟨v₃, hnego, hpc₃⟩ : ∃ v₃, (Client.machine o).step
        { v₁ with pc := .doNegotiate .requestMsg } (unread v.sessionId) = some (v₃, []) ∧
          v₃.pc = .ret .error := ⟨_, rfl, rfl⟩
    obtain ⟨v₄, hret, hidle⟩ : ∃ v₄, (Client.machine o).step v₃ (unread v.sessionId) =
        some (v₄, []) ∧ v₄.pc = .idle := by
      show ∃ v₄, v₃.step o _ = _ ∧ _
      rw [Client.step, hpc₃]
      exact ⟨_, rfl, rfl⟩
    have hlast := EventMachine.run_cons_iff.2 ⟨_, _, _, hnego,
      EventMachine.run_singleton_iff.2 hret, rfl⟩
    exact ⟨v₄, _, EventMachine.run_cons_iff.2 ⟨_, _, _, hread, hlast, rfl⟩, hidle⟩
  refine ⟨v₂, ces₁ ++ ces₂, msg, ?_, hidle, List.mem_append_left _ hmem⟩
  exact EventMachine.run_append_iff.2 ⟨v₁, ces₁, ces₂, hrun, hrest, rfl⟩

variable (inetPton : CString → Option (BitVec 128)) (inetNtop : BitVec 128 → CString)

/-- A call of `synchronize` that sends its request. -/
theorem synchronize_sends (value : CString) :
    ∃ c' es sock msg, Gives o inetPton inetNtop (.request .synchronize) .synchronize value c' es ∧
      .wrote .synchronize sock none msg ∈ es := by
  have hequal := holding_negoAddr inetNtop (CharArray.zero _)
  obtain ⟨c₁, es₁, hcall, hpc, hcur, hloop, hid⟩ : ∃ c₁ es₁, (machine o inetPton inetNtop).step
      (holding (CharArray.zero _)) (.synchronize value 0 (CharArray.zero _)) = some (c₁, es₁) ∧
        (c₁.view .synchronize).pc = .sendTcp ∧ (c₁.view .synchronize).curStates = .off ∧
        (c₁.view .synchronize).loopCount = 1 ∧ (c₁.view .synchronize).sessionId = 0 :=
    ⟨_, _, congrArg some (if_neg hequal), rfl, rfl, rfl, rfl⟩
  obtain ⟨v', ces, msg, hrun, hidle, hmem⟩ := request_returns (o := o) hpc hcur
    (by rw [hloop]; decide) (by rw [hid]; decide)
  obtain ⟨c', es, hrun', hview, hwrote⟩ := operate_of_run inetPton inetNtop hrun 3
  obtain ⟨sock, hmem'⟩ := hwrote none msg hmem
  refine ⟨c', es₁ ++ es, sock, msg, ?_, List.mem_append_right _ hmem'⟩
  refine .synchronize (EventMachine.run_cons_iff.2 ⟨c₁, es₁, es, hcall, hrun', rfl⟩)
    (by simp [ApiAct.Calls]) ?_
  exact (congrArg Client.pc hview).trans hidle

/-- A counter-offer that is sent. -/
theorem counterOffer_sends {loopCount : UInt8} (h : loopCount ≠ 0) (flag : UInt8)
    (value : CString) :
    ∃ c' es sock answers msg,
      Gives o inetPton inetNtop (.counterOffer loopCount flag) .negoThread value c' es ∧
        .wrote .negoThread sock answers msg ∈ es := by
  let env := { Client.sample .fail false with asaAnswer := value }
  obtain ⟨hloop, hcount, hflag⟩ := offered_adopt (o := o) h flag env
  obtain ⟨v', answers, msg, hstep, -⟩ := counterOffer_step
    (v := (offered o loopCount flag).view .negoThread) rfl rfl hloop (Nat.zero_le _) rfl
  obtain ⟨c', es, hstep', -, hwrote⟩ := operate_of_step inetPton inetNtop hstep 3
  obtain ⟨sock, hmem⟩ := hwrote answers msg (List.mem_singleton_self _)
  have hgives := Gives.counterOffer hstep' rfl rfl hloop
  rw [hcount, hflag] at hgives
  exact ⟨c', es, sock, answers, msg, hgives, hmem⟩

/-- A call of `negotiate` that starts the thread. -/
theorem negotiate_starts (value : CString) :
    ∃ c' es, Gives o inetPton inetNtop (.request .negoThread) .negoThread value c' es ∧
      ∀ e, .returned .negoThread e ∈ es → e = .success := by
  have hequal := holding_negoAddr inetNtop (CharArray.zero _)
  obtain ⟨c', request, hcall⟩ : ∃ c' request, (machine o inetPton inetNtop).step
      (holding (CharArray.zero _)) (.negotiate value 0 0) =
        some (c', [.started .negoThread request, .returned .negoThread .success]) :=
    ⟨_, _, congrArg some (if_neg hequal)⟩
  exact ⟨c', _, .negotiate (EventMachine.run_singleton_iff.2 hcall) (by simp), by simp⟩

/-- An operation that takes the value. -/
theorem exists_not_rejects {s : Sender} (h : ¬ s.Silent) (value : CString) :
    ∃ op c' es, Gives o inetPton inetNtop s op value c' es ∧ ¬ Rejects s op c' es := by
  cases s with
  | request op =>
    cases op with
    | negoThread =>
      obtain ⟨c', es, hgives, hreturned⟩ := negotiate_starts inetPton inetNtop value
      exact ⟨_, c', es, hgives, fun ⟨⟨e, he, hmem⟩, _⟩ => he (hreturned e hmem)⟩
    | synchronize =>
      obtain ⟨c', es, sock, msg, hgives, hwrote⟩ := synchronize_sends inetPton inetNtop value
      exact ⟨_, c', es, hgives, fun hrejects => hrejects.2 _ _ _ hwrote⟩
  | counterOffer loopCount flag =>
    obtain ⟨c', es, sock, answers, msg, hgives, hwrote⟩ :=
      counterOffer_sends inetPton inetNtop h flag value
    exact ⟨_, c', es, hgives, fun hrejects => hrejects.2 _ _ _ hwrote⟩

/-- Without a counter-offer no value is asked for. -/
theorem not_gives_of_silent {s : Sender} {value : CString} (h : s.Silent) :
    ¬ Gives o inetPton inetNtop s op value c' es := by
  intro hgives
  cases hgives with
  | negotiate | synchronize => exact h
  | counterOffer step pc geq loop => exact ofInt_loopCount_ne loop h

/-- A value is rejected or copied as it should be, whenever it is given, exactly when it has at most
994 bytes, or is for a counter-offer that is not made. -/
theorem handled_iff (o : ByteOrder) (s : Sender) (value : CString) :
    Handled o inetPton inetNtop s value ↔ value.bytes.length ≤ 994 ∨ s.Silent := by
  have hfits : s.Copies o value ↔ value.bytes.length ≤ 994 := by
    rw [s.copies_iff]
    unfold ObjectiveOption.lenExceptValue maxStringLength
    omega
  constructor
  · intro hhandled
    by_contra! hnot
    obtain ⟨op, c', es, hgives, hrejects⟩ := exists_not_rejects inetPton inetNtop hnot.2 value
    have hcopies := (hhandled op c' es hgives).resolve_left hrejects
    exact absurd (hfits.1 hcopies) (not_le.2 hnot.1)
  · rintro (hlen | hsilent) op c' es hgives
    · exact .inr (hfits.2 hlen)
    · exact absurd hgives (not_gives_of_silent inetPton inetNtop hsilent)

/-- A value of 995 bytes, one more than fits. -/
def oversized : CString :=
  ⟨List.replicate 995 97, fun h => absurd (List.eq_of_mem_replicate h) (by decide)⟩

/-- `negotiate` takes the value and copies an option of 1001 bytes. -/
theorem not_handled :
    ¬ ∃ (inetPton : CString → Option (BitVec 128)) (inetNtop : BitVec 128 → CString),
      ∀ (o : ByteOrder) (s : Sender) (value : CString), Handled o inetPton inetNtop s value := by
  rintro ⟨inetPton, inetNtop, h⟩
  obtain ⟨c', es, hgives, hreturned⟩ :=
    negotiate_starts (o := .little) inetPton inetNtop oversized
  rcases h .little _ oversized _ c' es hgives with ⟨⟨e, he, hmem⟩, -⟩ | hcopies
  · exact he (hreturned e hmem)
  · rw [Sender.copies_iff] at hcopies
    revert hcopies
    decide +kernel

end ApiClient

end Gdnp
