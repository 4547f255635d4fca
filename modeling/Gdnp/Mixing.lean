import Gdnp.Reuse

/-!
# Two operations at once

While the negotiation thread runs, a call of `synchronize` draws a new session id, opens a
connection and stores what it received in the same fields.  Each operation keeps to its own exchange
as long as `synchronize` is not called while the thread exchanges messages, no operation connects
while the other uses its connection, a failing read is not taken for a message, and an Accept
finds a counter-offer of the same exchange in `lastTopOptions` (`unmixed`).
-/

open CMem

namespace Gdnp

/-- What an operation may rely on: the socket it opened, the session id of its REQUEST_MSG, and
the data of its request, its counter-offers and the messages it accepted. -/
structure Exchange where
  sock : Option ℤ
  sessionId : Option UInt32
  contents : List (CharArray maxStringLength)

/-- The exchanges of the two operations, and which one stored a counter-offer in `lastTopOptions`
last, if nothing else was stored since. -/
structure Exchanges where
  of : Operation → Exchange
  offered : Option Operation

namespace Exchanges

def start : Exchanges := ⟨fun _ => ⟨none, none, []⟩, none⟩

def set (x : Exchanges) (op : Operation) (e : Exchange) : Exchanges :=
  { x with of := Function.update x.of op e }

def observe (x : Exchanges) : ApiEvent → Exchanges
  | .started op request =>
    { x.set op ⟨none, none, [request]⟩ with
      offered := if x.offered = some op then none else x.offered }
  | .opened op sock => x.set op { x.of op with sock := some sock }
  | .wrote op _ none msg => x.set op { x.of op with sessionId := (ReadEnv.pdu msg).sessionId? }
  | .received op _ c => x.set op { x.of op with contents := c.data :: (x.of op).contents }
  | .offered op offer =>
    { x.set op { x.of op with contents := offer :: (x.of op).contents } with offered := some op }
  | .stored _ => { x with offered := none }
  | _ => x

/-- An operation writes and reads on the socket it opened, accepts a message with the session id of
its request, and configures a value from data of its exchange. -/
def Keeps (o : ByteOrder) (x : Exchanges) : ApiEvent → Prop
  | .wrote op sock _ _ => (x.of op).sock = some sock
  | .read op sock => (x.of op).sock = some sock
  | .received op sessionId _ => sessionId.isSome ∧ (x.of op).sessionId = sessionId
  | .configured op value => ∃ data ∈ (x.of op).contents, ∃ after uninit,
      value = (ObjectiveOption.parseBits o (data.mem after) uninit).getValue
  | _ => True

/-- The operations keep apart. -/
def Unmixed (o : ByteOrder) : Exchanges → List ApiEvent → Prop :=
  EventMachine.Kept observe (Keeps o)

end Exchanges

namespace ClientPc

/-- The operation has its connection in `tcp_sock`. -/
def Connected : ClientPc → Prop
  | request | read _ _ _ | doNegotiate _ => True
  | _ => False

/-- The request is written. -/
def Exchanging : ClientPc → Prop
  | read _ _ _ | doNegotiate _ => True
  | _ => False

instance : DecidablePred Connected
  | request | read _ _ _ | doNegotiate _ => inferInstanceAs (Decidable True)
  | idle | sendTcp | connect | retry | ret _ => inferInstanceAs (Decidable False)

instance : DecidablePred Exchanging
  | read _ _ _ | doNegotiate _ => inferInstanceAs (Decidable True)
  | idle | sendTcp | connect | retry | request | ret _ => inferInstanceAs (Decidable False)

end ClientPc

def Operation.other : Operation → Operation
  | negoThread => synchronize
  | synchronize => negoThread

/-- A call of `negotiate` or `synchronize`, or a step of one of them. -/
def ApiAct.Exchanges : ApiAct → Prop
  | discover _ _ _ _ | discoverStep _ => False
  | _ => True

/-- A failing read is not taken for a message, and does not clear the buffer from which
`synchronize` takes its result. -/
def Client.ReadsOwn (v : Client) (op : Operation) (actual : UInt32) (site : ReadSite)
    (read : ReadEnv) : Prop :=
  read.sessionId? = none → match site with
    | .wait => op = .synchronize → read = .fail
    | .reply | .waitAgain => actual ≠ v.sessionId

instance : ∀ read : ReadEnv, Decidable (read = .fail)
  | .fail => .isTrue rfl
  | .pdu _ => .isFalse fun h => ReadEnv.noConfusion h

instance (v : Client) (op : Operation) (actual : UInt32) (read : ReadEnv) :
    ∀ site, Decidable (v.ReadsOwn op actual site read)
  | .wait => inferInstanceAs (Decidable (_ → _ → _))
  | .reply | .waitAgain => inferInstanceAs (Decidable (_ → _))

namespace ApiClient

/-- The step of an operation does not touch what the other relies on, and does not rely on what the
other, or nobody, left. -/
def OperatesAlone (o : ByteOrder) (s : ApiClient × Exchanges) (op : Operation) (env : ClientEnv) :
    Prop :=
  match (s.1.view op).pc with
  | .connect => ¬ (s.1.view op.other).pc.Connected
  | .retry => s.1.tryTimes < maxTryTimes → ¬ (s.1.view op.other).pc.Connected
  | .read _ actual site => (s.1.view op).ReadsOwn op actual site env.read
  | .doNegotiate .negoEndMsg =>
    (GdnpOption.parseBits o ((s.1.view op).buffer.mem env.after) env.uninit).type = .accept →
      s.2.offered = some op
  | _ => True

instance (o : ByteOrder) (s : ApiClient × Exchanges) (op : Operation) (env : ClientEnv) :
    Decidable (OperatesAlone o s op env) :=
  show Decidable (match (s.1.view op).pc with
    | .connect => _
    | .retry => _
    | .read _ _ _ => _
    | .doNegotiate .negoEndMsg => _
    | _ => _) from
    match (s.1.view op).pc with
    | .connect => inferInstanceAs (Decidable (¬ _))
    | .retry => inferInstanceAs (Decidable (_ → ¬ _))
    | .read _ actual site => inferInstanceAs (Decidable (Client.ReadsOwn _ op actual site _))
    | .doNegotiate .negoEndMsg => inferInstanceAs (Decidable (_ → _))
    | .doNegotiate .discoveryMsg | .doNegotiate .responseMsg | .doNegotiate .requestMsg
    | .doNegotiate .negoMsg | .doNegotiate .waitMsg | .idle | .sendTcp | .request | .ret _ =>
      inferInstanceAs (Decidable True)

/-- The operations do not disturb each other in a step. -/
def Undisturbed (o : ByteOrder) (s : ApiClient × Exchanges) : ApiAct → Prop
  | .synchronize _ rand _ =>
    s.1.pc.Exchanging → rand % UInt32.ofNat (maxSessionId + 1) = s.1.sessionId
  | .operate op env _ => OperatesAlone o s op env
  | _ => True

instance (o : ByteOrder) (s : ApiClient × Exchanges) : ∀ a, Decidable (Undisturbed o s a)
  | .synchronize _ _ _ => inferInstanceAs (Decidable (_ → _))
  | .operate _ _ _ => inferInstanceAs (Decidable (OperatesAlone _ _ _ _))
  | .discover _ _ _ _ | .discoverStep _ | .negotiate _ _ _ => inferInstanceAs (Decidable True)

end ApiClient

namespace Exchanges

variable {x : Exchanges} {op op' : Operation} {e : Exchange} {es : List ApiEvent}

@[simp] theorem of_set_self : (x.set op e).of op = e := Function.update_self ..

theorem of_set_of_ne (h : op' ≠ op) : (x.set op e).of op' = x.of op' :=
  Function.update_of_ne h ..

/-- The event of an operation that goes on. -/
def Continues (op : Operation) : ApiEvent → Prop
  | .opened op' _ | .wrote op' _ _ _ | .read op' _ | .received op' _ _ | .configured op' _
  | .offered op' _ | .stored op' | .returned op' _ => op' = op
  | .discovery _ | .started _ _ => False

theorem observe_of_ne {a : ApiEvent} (ha : Continues op a) (h : op' ≠ op) :
    (x.observe a).of op' = x.of op' := by
  cases a with
  | discovery | started => exact ha.elim
  | wrote op'' sock answers msg =>
    cases answers with
    | none => exact of_set_of_ne (ha ▸ h)
    | some c => rfl
  | opened op'' | received op'' | offered op'' => exact of_set_of_ne (ha ▸ h)
  | _ => rfl

/-- Nothing is taken out of an exchange that goes on. -/
theorem contents_observe {a : ApiEvent} (ha : Continues op a) :
    (x.of op').contents ⊆ ((x.observe a).of op').contents := by
  by_cases h : op' = op
  · subst h
    cases a with
    | discovery | started => exact ha.elim
    | wrote op'' sock answers msg =>
      obtain rfl : op'' = op' := ha
      cases answers with
      | none =>
        rw [observe, of_set_self]
        exact List.Subset.refl _
      | some c => exact List.Subset.refl _
    | opened op'' sock =>
      obtain rfl : op'' = op' := ha
      rw [observe, of_set_self]
      exact List.Subset.refl _
    | received op'' sessionId c =>
      obtain rfl : op'' = op' := ha
      rw [observe, of_set_self]
      exact List.subset_cons_self _ _
    | offered op'' offer =>
      obtain rfl : op'' = op' := ha
      show _ ⊆ ((x.set op'' _).of op'').contents
      rw [of_set_self]
      exact List.subset_cons_self _ _
    | _ => exact List.Subset.refl _
  · rw [observe_of_ne ha h]
    exact List.Subset.refl _

theorem foldl_of_ne (hes : ∀ a ∈ es, Continues op a) (h : op' ≠ op) :
    (es.foldl observe x).of op' = x.of op' := by
  induction es generalizing x with
  | nil => rfl
  | cons a es ih =>
    obtain ⟨ha, hes⟩ := List.forall_mem_cons.1 hes
    exact (ih hes).trans (observe_of_ne ha h)

theorem contents_foldl (hes : ∀ a ∈ es, Continues op a) :
    (x.of op').contents ⊆ ((es.foldl observe x).of op').contents := by
  induction es generalizing x with
  | nil => exact List.Subset.refl _
  | cons a es ih =>
    obtain ⟨ha, hes⟩ := List.forall_mem_cons.1 hes
    exact List.Subset.trans (contents_observe ha) (ih hes)

end Exchanges

/-! ### What an operation has of its own -/

/-- What the buffer holds belongs to the exchange. -/
def ClientPc.Buffered (op : Operation) : ClientPc → Prop
  | idle => False
  | read _ _ site => site = .wait
  | ret _ => op = .synchronize
  | _ => True

/-- What the operation `op`, which sees the client `v`, has of its own: its socket, which is also in
the member `tcp_sock` while it uses it, its session id and the data in its buffer. -/
structure Own (op : Operation) (e : Exchange) (v : Client) (own tcp : ℤ) : Prop where
  sock : v.pc = .retry ∨ v.pc.Connected → e.sock = some own
  tcpSock : v.pc.Connected → tcp = own
  sessionId : v.pc.Exchanging → e.sessionId = some v.sessionId
  buffer : v.pc.Buffered op → v.buffer ∈ e.contents

theorem ClientPc.Exchanging.connected {pc : ClientPc} (h : pc.Exchanging) : pc.Connected := by
  cases pc <;> trivial

section Own

variable {op : Operation} {e : Exchange} {v : Client} {own tcp : ℤ}

/-- Without a connection an operation has only the data in its buffer. -/
theorem own_unconnected (hretry : v.pc ≠ .retry) (hpc : ¬ v.pc.Connected)
    (hbuffer : v.pc.Buffered op → v.buffer ∈ e.contents) : Own op e v own tcp where
  sock h := absurd (h.resolve_left hretry) hpc
  tcpSock h := absurd h hpc
  sessionId h := absurd h.connected hpc
  buffer := hbuffer

theorem own_ret {rtnval : Errno} (hpc : v.pc = .ret rtnval)
    (hbuffer : op = .synchronize → v.buffer ∈ e.contents) : Own op e v own tcp := by
  apply own_unconnected
  · rw [hpc]
    simp
  · rw [hpc]
    exact id
  · rw [hpc]
    exact hbuffer

/-- During an exchange the operation has its socket in `tcp_sock`, and the session id of its
request. -/
theorem Own.exchanging (h : Own op e v own tcp) (hpc : v.pc.Exchanging) :
    tcp = own ∧ e.sock = some own ∧ e.sessionId = some v.sessionId :=
  ⟨h.tcpSock hpc.connected, h.sock (.inr hpc.connected), h.sessionId hpc⟩

end Own

/-- `lastTopOptions` holds a counter-offer of the operation that stored one last. -/
def Offered (x : Exchanges) (v : Client) : Prop :=
  ∀ op, x.offered = some op → v.lastTopOptions ∈ (x.of op).contents

theorem offered_start {v : Client} : Offered Exchanges.start v := by
  intro op hop
  cases hop

/-- The events of a step leave the operation with what it has of its own, and are right. -/
structure Goes (o : ByteOrder) (op : Operation) (x : Exchanges) (v : Client) (own tcp : ℤ)
    (es : List ApiEvent) : Prop where
  own : Own op ((es.foldl Exchanges.observe x).of op) v own tcp
  offered : Offered (es.foldl Exchanges.observe x) v
  kept : x.Unmixed o es

/-! ### The reads of an operation -/

theorem sessionId?_of_fails {read : ReadEnv} {before after : CharArray maxStringLength}
    (h : Client.ReadFails read before after) : read.sessionId? = none := by
  obtain ⟨rfl, -⟩ | ⟨msg, e, rfl, hd, -⟩ := h
  · rfl
  · rw [ReadEnv.sessionId?, hd]

theorem sessionId?_of_decode {read : ReadEnv} {msg : Msg} {d : Decoded} (hr : read = .pdu msg)
    (hd : decode (some msg) = .ok d) : read.sessionId? = some d.sessionId := by
  rw [hr, ReadEnv.sessionId?, hd]

/-- The first read after a WAIT_MSG is not repeated as such. -/
theorem readDone_site {v : Client} {type type' : MsgType} {actual actual' : UInt32}
    {site site' : ReadSite} (h : (v.readDone type actual site).1.pc = .read type' actual' site') :
    site' ≠ .wait := by
  unfold Client.readDone at h
  split_ifs at h <;> cases h <;> decide

theorem readPdu_site {v : Client} {type type' : MsgType} {actual actual' : UInt32}
    {site site' : ReadSite} {read : ReadEnv}
    (h : (v.readPdu type actual site read).1.pc = .read type' actual' site') : site' ≠ .wait := by
  unfold Client.readPdu at h
  split at h
  · split_ifs at h
    exact readDone_site h
  · dsimp only at h
    split at h
    · split_ifs at h
      exact readDone_site h
    · exact readDone_site h

/-! ### Written replies -/

section Written

variable {x : Exchanges} {op : Operation} {tcp : ℤ} (sessionId : Option UInt32) (c : Content)
  (w : Errno × Option Msg)

theorem foldl_written : ((Client.written (some c) w).map (.ofClient op tcp sessionId)).foldl
    Exchanges.observe x = x := by
  unfold Client.written
  cases w.2 <;> rfl

theorem unmixed_written {o : ByteOrder} (h : (x.of op).sock = some tcp) :
    x.Unmixed o ((Client.written (some c) w).map (.ofClient op tcp sessionId)) := by
  unfold Client.written
  cases w.2 with
  | none => trivial
  | some msg => exact ⟨h, trivial⟩

end Written

/-- An operation keeps the session id. -/
theorem Client.step_sessionId {o : ByteOrder} {v v' : Client} {env : ClientEnv}
    {ces : List ClientEvent} (h : v.step o env = some (v', ces)) :
    v'.sessionId = v.sessionId := by
  cases step_cases h <;> rfl

section Goes

variable {o : ByteOrder} {op : Operation} {x : Exchanges} {v v' : Client} {own tcp : ℤ}
  {env : ClientEnv} {ces : List ClientEvent} {es : List ApiEvent}

/-- The events of a step of `send_tcp` that opens no socket. -/
def stepEvents (o : ByteOrder) (v : Client) (op : Operation) (tcp : ℤ) (env : ClientEnv)
    (ces : List ClientEvent) : List ApiEvent :=
  ApiClient.readEvents v op tcp ++ ces.map (.ofClient op tcp env.read.sessionId?) ++
    ApiClient.storeEvents o v op env ++ ApiClient.returnEvents o v op env

/-- A step that reads and stores nothing, and does not return. -/
theorem stepEvents_eq_map (hread : ∀ type actual site, v.pc ≠ .read type actual site)
    (hnego : v.pc ≠ .doNegotiate .negoMsg) (hret : ∀ e, v.pc ≠ .ret e) :
    stepEvents o v op tcp env ces = ces.map (.ofClient op tcp env.read.sessionId?) := by
  have hreads : ApiClient.readEvents v op tcp = [] := by
    unfold ApiClient.readEvents
    split
    · exact absurd ‹_› (hread _ _ _)
    · rfl
  have hstores : ApiClient.storeEvents o v op env = [] := by
    unfold ApiClient.storeEvents
    split
    · exact absurd ‹_› hnego
    · exact absurd ‹_› (hret _)
    · rfl
  have hreturns : ApiClient.returnEvents o v op env = [] := by
    unfold ApiClient.returnEvents
    split
    · exact absurd ‹_› (hret _)
    · rfl
  rw [stepEvents, hreads, hstores, hreturns, List.nil_append, List.append_nil, List.append_nil]

theorem continues_stepEvents : ∀ a ∈ stepEvents o v op tcp env ces, Exchanges.Continues op a := by
  unfold stepEvents
  simp only [List.forall_mem_append, List.forall_mem_map]
  refine ⟨⟨⟨?_, ?_⟩, ?_⟩, ?_⟩
  · unfold ApiClient.readEvents
    split <;> simp [Exchanges.Continues]
  · intro e _
    cases e <;> rfl
  · unfold ApiClient.storeEvents
    split <;> (try split_ifs) <;> simp [Exchanges.Continues]
  · unfold ApiClient.returnEvents
    split <;> simp [Exchanges.Continues]

/-- Where `lastTopOptions` stays as it was. -/
theorem Offered.foldl (hoff : Offered x v) (hes : ∀ a ∈ es, Exchanges.Continues op a)
    (hlast : v'.lastTopOptions = v.lastTopOptions)
    (hoffered : (es.foldl Exchanges.observe x).offered = x.offered) :
    Offered (es.foldl Exchanges.observe x) v' := by
  intro op' hop'
  rw [hoffered] at hop'
  rw [hlast]
  exact Exchanges.contents_foldl hes (hoff op' hop')

/-- A step without events. -/
theorem goes_silent (hown : Own op (x.of op) v' own tcp) (hoff : Offered x v') :
    Goes o op x v' own tcp [] :=
  ⟨hown, hoff, trivial⟩

theorem Goes.written (hgoes : Goes o op x v own tcp es) (hsock : (x.of op).sock = some tcp)
    (sessionId : Option UInt32) (c : Content) (w : Errno × Option Msg) :
    Goes o op x v own tcp
      ((Client.written (some c) w).map (.ofClient op tcp sessionId) ++ es) := by
  obtain ⟨hown, hoff, hkept⟩ := hgoes
  have hfold : ((Client.written (some c) w).map (ApiEvent.ofClient op tcp sessionId) ++ es).foldl
      Exchanges.observe x = es.foldl Exchanges.observe x := by
    rw [List.foldl_append, foldl_written]
  refine ⟨hfold ▸ hown, hfold ▸ hoff, EventMachine.kept_append.2 ⟨?_, ?_⟩⟩
  · exact unmixed_written sessionId c w hsock
  · rw [foldl_written]
    exact hkept

variable (h : v.step o env = some (v', ces)) (hown : Own op (x.of op) v own tcp)
  (hoff : Offered x v)

include h hown hoff

theorem goes_sendTcp (hpc : v.pc = .sendTcp) :
    Goes o op x v' own tcp (stepEvents o v op tcp env ces) := by
  have hbuffer : v.buffer ∈ (x.of op).contents := hown.buffer (by rw [hpc]; trivial)
  rw [Client.step, hpc] at h
  cases h
  rw [stepEvents_eq_map (by simp [hpc]) (by simp [hpc]) (by simp [hpc])]
  refine goes_silent ?_ hoff
  split_ifs
  · exact own_unconnected (by simp) id fun _ => hbuffer
  · exact own_ret rfl fun _ => hbuffer

theorem goes_request (hpc : v.pc = .request) :
    Goes o op x v' own tcp (stepEvents o v op tcp env ces) := by
  have hbuffer : v.buffer ∈ (x.of op).contents := hown.buffer (by rw [hpc]; trivial)
  have htcp : tcp = own := hown.tcpSock (by rw [hpc]; trivial)
  have hsock : (x.of op).sock = some own := hown.sock (.inr (by rw [hpc]; trivial))
  have hcontinues : ∀ a ∈ stepEvents o v op tcp env ces, Exchanges.Continues op a :=
    continues_stepEvents
  have hes : stepEvents o v op tcp env ces = ces.map (.ofClient op tcp env.read.sessionId?) :=
    stepEvents_eq_map (by simp [hpc]) (by simp [hpc]) (by simp [hpc])
  rw [hes] at hcontinues ⊢
  rw [Client.step, hpc] at h
  dsimp only at h
  by_cases hloop : v.loopCount = 0
  · rw [if_pos hloop] at h
    cases h
    exact goes_silent (own_ret rfl fun _ => hbuffer) hoff
  · rw [if_neg hloop] at h
    cases h
    rcases hw : writePdu v.buffer.bytes .requestMsg v.sessionId env.write with ⟨e, _ | msg⟩
    · rw [if_pos (ne_success_of_writePdu hw)]
      exact goes_silent (own_ret rfl fun _ => hbuffer) hoff
    · obtain rfl := eq_success_of_writePdu hw
      rw [hw] at hcontinues
      have hid : (ReadEnv.pdu msg).sessionId? = some v.sessionId := by
        rw [ReadEnv.sessionId?, (decode_of_writePdu (congrArg Prod.snd hw)).2]
      have hof : (x.observe (.wrote op tcp none msg)).of op =
          { x.of op with sessionId := some v.sessionId } := by
        rw [← hid]
        exact Function.update_self ..
      refine ⟨⟨fun _ => ?_, fun _ => htcp, fun _ => ?_, fun hwait => ?_⟩, ?_, ⟨?_, trivial⟩⟩
      · exact (congrArg Exchange.sock hof).trans hsock
      · exact congrArg Exchange.sessionId hof
      · cases hwait
      · exact hoff.foldl hcontinues rfl rfl
      · exact hsock.trans (congrArg some htcp.symm)

theorem goes_read {type : MsgType} {actual : UInt32} {site : ReadSite}
    (hpc : v.pc = .read type actual site) (hok : v.ReadsOwn op actual site env.read) :
    Goes o op x v' own tcp (stepEvents o v op tcp env ces) := by
  obtain ⟨htcp, hsock, hid⟩ := hown.exchanging (by rw [hpc]; trivial)
  have hcontinues : ∀ a ∈ stepEvents o v op tcp env ces, Exchanges.Continues op a :=
    continues_stepEvents
  have hes : stepEvents o v op tcp env ces =
      .read op tcp :: ces.map (.ofClient op tcp env.read.sessionId?) := by
    unfold stepEvents ApiClient.readEvents ApiClient.storeEvents ApiClient.returnEvents
    rw [hpc]
    simp
  rw [hes] at hcontinues ⊢
  rw [Client.step, hpc] at h
  have hsite : ∀ {type' actual' site'}, v'.pc = .read type' actual' site' → site' ≠ .wait := by
    intro type' actual' site' hpc'
    apply readPdu_site (v := v)
    rw [Option.some.inj h]
    exact hpc'
  have hstep : v.Step o env _ _ := Client.readPdu_cases hpc
  rw [Option.some.inj h] at hstep
  have hread : (x.of op).sock = some tcp := hsock.trans (congrArg some htcp.symm)
  cases hstep with
  | readRet pc hr he =>
    cases hpc.symm.trans pc
    have hfail := hok (sessionId?_of_fails hr)
    refine ⟨own_ret rfl fun hsync => ?_, hoff, ⟨hread, trivial⟩⟩
    -- `synchronize` finds the WAIT_MSG in its buffer.
    obtain ⟨-, rfl⟩ | ⟨msg, e, hmsg, -⟩ := hr
    · exact hown.buffer (by rw [hpc]; rfl)
    · cases hmsg.symm.trans (hfail hsync)
  | readAgain pc hr =>
    refine ⟨⟨fun _ => hsock, fun _ => htcp, fun _ => hid, fun hwait => ?_⟩, hoff,
      ⟨hread, trivial⟩⟩
    exact absurd hwait (hsite rfl)
  | readMsg pc hr hd hid' =>
    rename_i type' actual' site' msg d t
    rw [sessionId?_of_decode hr hd] at hcontinues ⊢
    have hof : ((x.observe (.read op tcp)).observe
        (.received op (some d.sessionId) ⟨d.type, d.data⟩)).of op =
        { x.of op with contents := d.data :: (x.of op).contents } :=
      Function.update_self ..
    refine ⟨⟨fun _ => ?_, fun _ => htcp, fun _ => ?_, fun _ => ?_⟩, ?_, ⟨hread, ⟨rfl, ?_⟩, trivial⟩⟩
    · exact (congrArg Exchange.sock hof).trans hsock
    · exact (congrArg Exchange.sessionId hof).trans hid
    · exact (congrArg Exchange.contents hof).symm ▸ List.mem_cons_self
    · exact hoff.foldl hcontinues rfl rfl
    · exact hid.trans (congrArg some hid'.symm)
  | readPhantom pc hsite' hr hactual =>
    cases hpc.symm.trans pc
    have hne := hok (sessionId?_of_fails hr)
    cases site with
    | wait => exact absurd rfl hsite'
    | reply | waitAgain => exact absurd hactual hne
  | setup pc =>
    rw [hpc] at pc
    exact pc.elim
  | requestFails pc | request pc | accept pc | acceptFails pc | decline pc | declineFails pc
  | counter pc | counterFails pc | wait pc | waitErr pc | endAccept pc | endOther pc
  | unexpected pc | ret pc => cases hpc.symm.trans pc

theorem goes_negoMsg (hpc : v.pc = .doNegotiate .negoMsg) :
    Goes o op x v' own tcp (stepEvents o v op tcp env ces) := by
  obtain ⟨htcp, hsock, hid⟩ := hown.exchanging (by rw [hpc]; trivial)
  have hbuffer : v.buffer ∈ (x.of op).contents := hown.buffer (by rw [hpc]; trivial)
  have hwrite : (x.of op).sock = some tcp := hsock.trans (congrArg some htcp.symm)
  have hes : stepEvents o v op tcp env ces =
      ces.map (.ofClient op tcp env.read.sessionId?) ++
        if env.geq = false ∧ (v.adopt o env).loopCount ≠ 0 then
          [.offered op ((v.adopt o env).counterOffer o env)]
        else [] := by
    unfold stepEvents ApiClient.readEvents ApiClient.storeEvents ApiClient.returnEvents
    rw [hpc]
    simp
  rw [hes]
  rw [Client.step, hpc] at h
  replace h : v.doNegotiate o env .negoMsg = (v', ces) := Option.some.inj h
  unfold Client.doNegotiate at h
  dsimp only at h
  by_cases hgeq : env.geq = true
  · rw [if_pos hgeq] at h
    rw [if_neg (by simp [hgeq]), List.append_nil]
    cases h
    rw [List.map_append]
    refine Goes.written ?_ hwrite _ _ _
    refine ⟨own_ret rfl fun _ => hbuffer, hoff, ⟨?_, trivial⟩⟩
    exact ⟨v.buffer, hbuffer, env.after, env.uninit, rfl⟩
  · rw [if_neg hgeq] at h
    by_cases hloop : (v.adopt o env).loopCount = 0
    · rw [if_pos hloop] at h
      rw [if_neg (by simp [hloop])]
      cases h
      refine Goes.written ?_ hwrite _ _ _
      exact goes_silent (own_ret rfl fun _ => hbuffer) hoff
    · rw [if_neg hloop] at h
      rw [if_pos ⟨by simpa using hgeq, hloop⟩]
      cases h
      have hof : (x.observe (.offered op ((v.adopt o env).counterOffer o env))).of op =
          { x.of op with
            contents := (v.adopt o env).counterOffer o env :: (x.of op).contents } :=
        Function.update_self ..
      refine Goes.written ?_ hwrite _ _ _
      refine ⟨?_, ?_, ⟨trivial, trivial⟩⟩
      · rw [List.foldl_cons, List.foldl_nil, hof]
        dsimp only
        split_ifs
        · exact own_ret rfl fun _ => List.mem_cons_of_mem _ hbuffer
        · refine ⟨fun _ => hsock, fun _ => htcp, fun _ => hid, fun hwait => ?_⟩
          cases hwait
      · intro op' hop'
        obtain rfl : op = op' := Option.some.inj hop'
        rw [List.foldl_cons, List.foldl_nil, hof]
        refine List.mem_cons.2 (.inl ?_)
        exact CharArray.memcpy_bytes_self ..

theorem goes_doNegotiate {type : MsgType} (hpc : v.pc = .doNegotiate type)
    (hok : type = .negoEndMsg →
      (GdnpOption.parseBits o (v.buffer.mem env.after) env.uninit).type = .accept →
        x.offered = some op) :
    Goes o op x v' own tcp (stepEvents o v op tcp env ces) := by
  obtain ⟨htcp, hsock, hid⟩ := hown.exchanging (by rw [hpc]; trivial)
  have hbuffer : v.buffer ∈ (x.of op).contents := hown.buffer (by rw [hpc]; trivial)
  have hes : type ≠ .negoMsg → stepEvents o v op tcp env ces =
      ces.map (.ofClient op tcp env.read.sessionId?) := by
    intro htype
    exact stepEvents_eq_map (by simp [hpc]) (by simpa [hpc] using htype) (by simp [hpc])
  have hret : ∀ {e : Errno} {cur : ClientState}, Own op (x.of op)
      { v.adopt o env with curStates := cur, pc := .ret e } own tcp :=
    own_ret rfl fun _ => hbuffer
  cases type with
  | negoMsg => exact goes_negoMsg h hown hoff hpc
  | waitMsg =>
    rw [hes (by simp)]
    rw [Client.step, hpc] at h
    replace h : v.doNegotiate o env .waitMsg = (v', ces) := Option.some.inj h
    unfold Client.doNegotiate at h
    dsimp only at h
    split_ifs at h <;> cases h
    · exact goes_silent ⟨fun _ => hsock, fun _ => htcp, fun _ => hid, fun _ => hbuffer⟩ hoff
    · exact goes_silent hret hoff
  | negoEndMsg =>
    rw [hes (by simp)]
    rw [Client.step, hpc] at h
    replace h : v.doNegotiate o env .negoEndMsg = (v', ces) := Option.some.inj h
    unfold Client.doNegotiate at h
    dsimp only at h
    split_ifs at h with hopt <;> cases h
    · refine ⟨hret, hoff, ⟨?_, trivial⟩⟩
      exact ⟨v.lastTopOptions, hoff op (hok rfl hopt), env.afterLast, env.uninit, rfl⟩
    · exact goes_silent hret hoff
  | discoveryMsg | responseMsg | requestMsg =>
    rw [hes (by simp)]
    rw [Client.step, hpc] at h
    cases h
    exact goes_silent hret hoff

/-- `synchronize` gives the value in its buffer to `do_configuration`. -/
theorem goes_ret {e : Errno} (hpc : v.pc = .ret e) :
    Goes o op x v' own tcp (stepEvents o v op tcp env ces) := by
  rw [Client.step, hpc] at h
  dsimp only at h
  have hbuffer : op = .synchronize → v.buffer ∈ (x.of op).contents := by
    intro hop
    exact hown.buffer (by rw [hpc]; exact hop)
  have hreturn : ∀ x', (x'.of op).contents = (x.of op).contents →
      Exchanges.Unmixed o x' (ApiClient.returnEvents o v op env) := by
    intro x' hcontents
    unfold ApiClient.returnEvents
    rw [hpc]
    cases op with
    | negoThread => trivial
    | synchronize =>
      refine ⟨⟨v.buffer, ?_, env.after, env.uninit, rfl⟩, trivial, trivial⟩
      rw [hcontents]
      exact hbuffer rfl
  have hfold : ∀ x', (ApiClient.returnEvents o v op env).foldl Exchanges.observe x' = x' := by
    intro x'
    unfold ApiClient.returnEvents
    rw [hpc]
    cases op <;> rfl
  have hes : stepEvents o v op tcp env ces = ces.map (.ofClient op tcp env.read.sessionId?) ++
      ((if e = .success then [.stored op] else []) ++ ApiClient.returnEvents o v op env) := by
    unfold stepEvents ApiClient.readEvents ApiClient.storeEvents
    rw [hpc]
    simp
  rw [hes]
  by_cases he : e = .success
  · rw [if_pos he] at h ⊢
    cases h
    refine ⟨own_unconnected (by simp) id False.elim, ?_, ⟨trivial, hreturn _ rfl⟩⟩
    intro op' hop'
    rw [List.map_nil, List.nil_append, List.foldl_append, hfold] at hop'
    cases hop'
  · rw [if_neg he] at h ⊢
    cases h
    refine ⟨own_unconnected (by simp) id False.elim, ?_, hreturn _ rfl⟩
    rw [List.map_nil, List.nil_append, List.nil_append, hfold]
    exact hoff

end Goes

namespace ApiClient

variable {o : ByteOrder} {inetPton : CString → Option (BitVec 128)}
  {inetNtop : BitVec 128 → CString} {c c' : ApiClient} {x : Exchanges} {op op' : Operation}
  {a : ApiAct} {v v' : Client} {env : ClientEnv} {sock : ℤ} {es : List ApiEvent}
  {ces : List ClientEvent}

/-- Both operations have what is theirs. -/
structure Owned (c : ApiClient) (x : Exchanges) : Prop where
  own : ∀ op, Own op (x.of op) (c.view op) (c.ownSock op) c.tcpSock
  offered : Offered x c.toClient

theorem offered_view (h : Offered x c.toClient) (op : Operation) : Offered x (c.view op) := by
  cases op <;> exact h

@[simp] theorem view_sessionId : (c.view op).sessionId = c.sessionId := by
  cases op <;> rfl

@[simp] theorem view_tryTimes : (c.view op).tryTimes = c.tryTimes := by
  cases op <;> rfl

@[simp] theorem ownSock_put : (c.put v op).ownSock op' = c.ownSock op' := by
  cases op <;> cases op' <;> rfl

@[simp] theorem tcpSock_put : (c.put v op).tcpSock = c.tcpSock := by
  cases op <;> rfl

theorem lastTopOptions_put : (c.put v op).lastTopOptions = v.lastTopOptions := by
  cases op <;> rfl

theorem ownSock_tcpInit_of_ne (h : op' ≠ op) :
    (c.tcpInit op sock).1.ownSock op' = c.ownSock op' := by
  unfold tcpInit
  split
  · cases op <;> cases op' <;> first | exact absurd rfl h | rfl
  · dsimp only
    split_ifs
    · cases op' <;> rfl
    · rfl
  · rfl

/-- An operation that is not connecting leaves the sockets alone. -/
theorem tcpInit_eq (h₁ : (c.view op).pc ≠ .connect) (h₂ : (c.view op).pc ≠ .retry) :
    c.tcpInit op sock = (c, []) := by
  unfold tcpInit
  split
  · exact absurd ‹_› h₁
  · exact absurd ‹_› h₂
  · rfl

theorem goes_connect (hpc : (c.view op).pc = .connect)
    (h : (c.view op).step o env = some (v', ces))
    (hown : Own op (x.of op) (c.view op) (c.ownSock op) c.tcpSock) (hoff : Offered x (c.view op)) :
    Goes o op x v' sock sock (.opened op sock :: stepEvents o (c.view op) op sock env ces) := by
  have hbuffer : (c.view op).buffer ∈ (x.of op).contents := hown.buffer (by rw [hpc]; trivial)
  have hes : stepEvents o (c.view op) op sock env ces =
      ces.map (.ofClient op sock env.read.sessionId?) :=
    stepEvents_eq_map (by simp [hpc]) (by simp [hpc]) (by simp [hpc])
  have hof : (x.observe (.opened op sock)).of op = { x.of op with sock := some sock } :=
    Function.update_self ..
  rw [hes]
  rw [Client.step, hpc] at h
  cases h
  have hcontinues : ∀ a ∈ [ApiEvent.opened op sock], Exchanges.Continues op a := by
    simp [Exchanges.Continues]
  refine ⟨?_, hoff.foldl hcontinues rfl rfl, ⟨trivial, trivial⟩⟩
  rw [List.map_nil, List.foldl_cons, List.foldl_nil, hof]
  split_ifs
  · exact ⟨fun _ => rfl, False.elim, False.elim, fun _ => hbuffer⟩
  · exact ⟨fun _ => rfl, fun _ => rfl, False.elim, fun _ => hbuffer⟩

theorem goes_retry (hpc : (c.view op).pc = .retry)
    (h : (c.view op).step o env = some (v', ces))
    (hown : Own op (x.of op) (c.view op) (c.ownSock op) c.tcpSock)
    (hoff : Offered x (c.view op)) {tcp : ℤ}
    (htcp : c.tryTimes < maxTryTimes → tcp = c.ownSock op) :
    Goes o op x v' (c.ownSock op) tcp (stepEvents o (c.view op) op tcp env ces) := by
  have hbuffer : (c.view op).buffer ∈ (x.of op).contents := hown.buffer (by rw [hpc]; trivial)
  have hsock : (x.of op).sock = some (c.ownSock op) := hown.sock (.inl hpc)
  have hes : stepEvents o (c.view op) op tcp env ces =
      ces.map (.ofClient op tcp env.read.sessionId?) :=
    stepEvents_eq_map (by simp [hpc]) (by simp [hpc]) (by simp [hpc])
  rw [hes]
  rw [Client.step, hpc] at h
  dsimp only at h
  by_cases htry : (c.view op).tryTimes < maxTryTimes
  · rw [if_pos htry] at h
    rw [view_tryTimes] at htry
    split_ifs at h <;> cases h
    · exact goes_silent ⟨fun _ => hsock, False.elim, False.elim, fun _ => hbuffer⟩ hoff
    · exact goes_silent ⟨fun _ => hsock, fun _ => htcp htry, False.elim, fun _ => hbuffer⟩ hoff
  · rw [if_neg htry] at h
    cases h
    have hne : (c.view op).tryTimes ≠ 0 := by
      unfold maxTryTimes at htry
      omega
    rw [if_pos hne]
    exact goes_silent (own_ret rfl fun _ => hbuffer) hoff

/-- A step of an operation that is not connecting. -/
theorem goes_exchange (hstep : (c.view op).step o env = some (v', ces)) (hc : c.Owned x)
    (hok : OperatesAlone o (c, x) op env) (hconnect : (c.view op).pc ≠ .connect)
    (hretry : (c.view op).pc ≠ .retry) :
    Goes o op x v' (c.ownSock op) c.tcpSock (stepEvents o (c.view op) op c.tcpSock env ces) := by
  have hown := hc.own op
  have hoff := offered_view hc.offered op
  unfold OperatesAlone at hok
  cases hpc : (c.view op).pc with
  | idle =>
    rw [Client.step, hpc] at hstep
    cases hstep
  | connect => exact absurd hpc hconnect
  | retry => exact absurd hpc hretry
  | sendTcp => exact goes_sendTcp hstep hown hoff hpc
  | request => exact goes_request hstep hown hoff hpc
  | read type actual site =>
    rw [hpc] at hok
    exact goes_read hstep hown hoff hpc hok
  | doNegotiate type =>
    rw [hpc] at hok
    apply goes_doNegotiate hstep hown hoff hpc
    rintro rfl
    exact hok
  | ret e => exact goes_ret hstep hown hoff hpc

theorem goes_step (hstep : (c.view op).step o env = some (v', ces)) (hc : c.Owned x)
    (hok : OperatesAlone o (c, x) op env) :
    Goes o op x v' ((c.tcpInit op sock).1.ownSock op) (c.tcpInit op sock).1.tcpSock
      ((c.tcpInit op sock).2 ++
        stepEvents o (c.view op) op (c.tcpInit op sock).1.tcpSock env ces) := by
  by_cases hconnect : (c.view op).pc = .connect
  · have hinit : c.tcpInit op sock =
        ({ c.setOwnSock sock op with tcpSock := sock }, [.opened op sock]) := by
      rw [tcpInit, hconnect]
    have hsock : ApiClient.ownSock { c.setOwnSock sock op with tcpSock := sock } op = sock := by
      cases op <;> rfl
    rw [hinit, hsock]
    exact goes_connect hconnect hstep (hc.own op) (offered_view hc.offered op)
  by_cases hretry : (c.view op).pc = .retry
  · have hinit : c.tcpInit op sock =
        (if c.tryTimes < maxTryTimes then { c with tcpSock := c.ownSock op } else c, []) := by
      rw [tcpInit, hretry]
    have hsock : ApiClient.ownSock { c with tcpSock := c.ownSock op } op = c.ownSock op := by
      cases op <;> rfl
    rw [hinit]
    split_ifs with htry
    · rw [hsock]
      exact goes_retry hretry hstep (hc.own op) (offered_view hc.offered op) fun _ => rfl
    · exact goes_retry hretry hstep (hc.own op) (offered_view hc.offered op)
        fun h => absurd h htry
  · rw [tcpInit_eq hconnect hretry, List.nil_append]
    exact goes_exchange hstep hc hok hconnect hretry

theorem continues_tcpInit : ∀ a ∈ (c.tcpInit op sock).2, Exchanges.Continues op a := by
  unfold tcpInit
  split <;> simp [Exchanges.Continues]

/-- All events of a step of an operation are of that operation. -/
theorem continues_operate (h : c.operate o op env sock = some (c', es)) :
    ∀ a ∈ es, Exchanges.Continues op a := by
  obtain ⟨v', ces, -, -, rfl⟩ := operate_cases h
  have hstep : ∀ a ∈ stepEvents o (c.view op) op (c.tcpInit op sock).1.tcpSock env ces,
      Exchanges.Continues op a := continues_stepEvents
  simp only [stepEvents, List.forall_mem_append] at hstep ⊢
  exact ⟨⟨⟨⟨continues_tcpInit, hstep.1.1.1⟩, hstep.1.1.2⟩, hstep.1.2⟩, hstep.2⟩

theorem operate_goes (h : c.operate o op env sock = some (c', es)) (hc : c.Owned x)
    (hok : OperatesAlone o (c, x) op env) :
    ∃ v', c' = (c.tcpInit op sock).1.put v' op ∧ v'.sessionId = c.sessionId ∧
      Goes o op x v' ((c.tcpInit op sock).1.ownSock op) (c.tcpInit op sock).1.tcpSock es ∧
      ∀ a ∈ es, Exchanges.Continues op a := by
  obtain ⟨v', ces, hstep, hc', hes⟩ := operate_cases h
  replace hes : es = (c.tcpInit op sock).2 ++
      stepEvents o (c.view op) op (c.tcpInit op sock).1.tcpSock env ces := by
    rw [hes]
    simp [stepEvents]
  refine ⟨v', hc', (Client.step_sessionId hstep).trans view_sessionId, ?_, continues_operate h⟩
  rw [hes]
  exact goes_step hstep hc hok

/-- An operation that is not connected does not mind if the other connects. -/
theorem tcpSock_tcpInit (hne : op' ≠ op) (hok : OperatesAlone o (c, x) op env)
    (hpc : (c.view op').pc.Connected) : (c.tcpInit op sock).1.tcpSock = c.tcpSock := by
  have hother : op' = op.other := by
    cases op <;> cases op' <;> first | rfl | exact absurd rfl hne
  subst hother
  unfold OperatesAlone at hok
  cases hop : (c.view op).pc with
  | connect =>
    rw [hop] at hok
    exact absurd hpc hok
  | retry =>
    rw [hop] at hok
    rw [tcpInit, hop]
    dsimp only
    split_ifs with htry
    · exact absurd hpc (hok htry)
    · rfl
  | _ => rw [tcpInit_eq (by rw [hop]; simp) (by rw [hop]; simp)]

theorem operate_owned (h : c.operate o op env sock = some (c', es)) (hc : c.Owned x)
    (hok : OperatesAlone o (c, x) op env) :
    c'.Owned (es.foldl Exchanges.observe x) ∧ x.Unmixed o es := by
  obtain ⟨v', rfl, hid, hgoes, hcontinues⟩ := operate_goes h hc hok
  refine ⟨⟨fun op' => ?_, ?_⟩, hgoes.kept⟩
  · rw [ownSock_put, tcpSock_put]
    by_cases hop : op' = op
    · subst hop
      rw [view_put]
      exact hgoes.own
    · have hown := hc.own op'
      rw [view_put_of_ne hop, view_tcpInit, Exchanges.foldl_of_ne hcontinues hop,
        ownSock_tcpInit_of_ne hop]
      refine ⟨hown.sock, fun hpc => ?_, fun hpc => ?_, hown.buffer⟩
      · rw [tcpSock_tcpInit hop hok hpc]
        exact hown.tcpSock hpc
      · rw [hown.sessionId hpc, view_sessionId, hid]
  · intro op' hop'
    rw [lastTopOptions_put]
    exact hgoes.offered op' hop'

/-! ### The calls -/

theorem own_idle {e : Exchange} {own tcp : ℤ} (hpc : v.pc = .idle) : Own op e v own tcp := by
  apply own_unconnected
  · rw [hpc]
    simp
  · rw [hpc]
    exact id
  · rw [hpc]
    exact False.elim

/-- A new operation. -/
theorem own_started {own tcp : ℤ} (hpc : v.pc = .sendTcp) :
    Own op ((x.observe (.started op v.buffer)).of op) v own tcp := by
  have hof : (x.observe (.started op v.buffer)).of op = ⟨none, none, [v.buffer]⟩ :=
    Function.update_self ..
  rw [hof]
  apply own_unconnected
  · rw [hpc]
    simp
  · rw [hpc]
    exact id
  · exact fun _ => List.mem_singleton_self _

theorem offered_started (hoff : Offered x c.toClient)
    (hlast : v.lastTopOptions = c.lastTopOptions) (request : CharArray maxStringLength) :
    Offered (x.observe (.started op request)) v := by
  intro op' hop'
  have hne : x.offered = some op' ∧ op' ≠ op := by
    simp only [Exchanges.observe] at hop'
    split_ifs at hop' with hop
    refine ⟨hop', ?_⟩
    rintro rfl
    exact hop hop'
  have hof : (x.observe (.started op request)).of op' = x.of op' := Function.update_of_ne hne.2 ..
  rw [hof, hlast]
  exact hoff op' hne.1

theorem negotiate_owned (hsync : c.sync.pc = .idle) (hc : c.Owned x)
    (hpc : v.pc = .sendTcp) (hlast : v.lastTopOptions = c.lastTopOptions) :
    (c.put v .negoThread).Owned (x.observe (.started .negoThread v.buffer)) := by
  refine ⟨fun op => ?_, offered_started hc.offered hlast _⟩
  cases op with
  | negoThread => exact own_started hpc
  | synchronize => exact own_idle hsync

theorem synchronize_owned (hc : c.Owned x)
    (hid : c.pc.Exchanging → v.sessionId = c.sessionId)
    (hpc : v.pc = .sendTcp) (hlast : v.lastTopOptions = c.lastTopOptions) :
    (c.put v .synchronize).Owned (x.observe (.started .synchronize v.buffer)) := by
  refine ⟨fun op => ?_, offered_started hc.offered hlast _⟩
  cases op with
  | negoThread =>
    have hown := hc.own .negoThread
    refine ⟨hown.sock, hown.tcpSock, fun hexchanging => ?_, hown.buffer⟩
    exact (hown.sessionId hexchanging).trans (congrArg some (hid hexchanging).symm)
  | synchronize => exact own_started hpc

theorem step_owned (h : c.step o inetPton inetNtop a = some (c', es)) (hc : c.Owned x)
    (hok : Undisturbed o (c, x) a) (ha : a.Exchanges) :
    c'.Owned (es.foldl Exchanges.observe x) ∧ x.Unmixed o es := by
  cases step_cases h with
  | discover | discoverStep => exact ha.elim
  | refuseNegotiate | refuseSynchronize => exact ⟨hc, trivial, trivial⟩
  | noThread hfree hidle _ _ hv =>
    subst hv
    refine ⟨⟨fun op => own_idle ?_, hc.offered⟩, trivial, trivial⟩
    cases op with
    | negoThread => exact hidle
    | synchronize => exact hfree.1
  | negotiate hfree hidle _ hv =>
    subst hv
    exact ⟨negotiate_owned hfree.1 hc rfl rfl, trivial, trivial, trivial⟩
  | synchronize _ _ hv =>
    subst hv
    exact ⟨synchronize_owned hc hok rfl rfl, trivial, trivial⟩
  | operate _ hes => exact operate_owned hes hc hok

/-- Two operations that do not disturb each other keep apart. -/
theorem unmixed {as : List ApiAct} (hnego : c.pc = .idle) (hsync : c.sync.pc = .idle)
    (has : ∀ a ∈ as, a.Exchanges)
    (hok : ((machine o inetPton inetNtop).observe Exchanges.observe).Guarded (Undisturbed o)
      (c, Exchanges.start) as)
    (hrun : (machine o inetPton inetNtop).run c as = some (c', es)) :
    Exchanges.start.Unmixed o es := by
  refine EventMachine.run_kept (I := Owned)
    (fun c x a c' es hc ha h => step_owned h hc ha.1 ha.2) ⟨fun op => own_idle ?_, offered_start⟩
    (EventMachine.guarded_and_iff.2
      ⟨hok, EventMachine.guarded_of_forall_mem fun a ha _ => has a ha⟩) hrun
  cases op with
  | negoThread => exact hnego
  | synchronize => exact hsync

/-- The client has discovered the address `::1`. -/
def discovered : ApiClient :=
  { new (CharArray.zero _) 4444 with
    toUdpClient := { UdpClient.new (CharArray.zero _) 4444 with negoAddr := ⟨1, 4444⟩ } }

/-- The texts of `::1` and, for the other address, of `ff02::1`. -/
def textOf (addr : BitVec 128) : CString :=
  if addr = 1 then UdpClient.loopbackText else ⟨[102, 102, 48, 50, 58, 58, 49], by decide⟩

/-- The steps of an operation with the given outcomes of `read`, on the socket `sock`. -/
def steps (op : Operation) (sock : ℤ) (reads : List ReadEnv) : List ApiAct :=
  reads.map fun read => .operate op (Client.sample read true) sock

section Samples

set_option maxRecDepth 8000

/-- `synchronize` connects while the negotiation thread waits for an answer to its request. -/
theorem not_unmixed :
    ¬ ∀ (o : ByteOrder) (inetPton : CString → Option (BitVec 128))
        (inetNtop : BitVec 128 → CString) (c c' : ApiClient) (as : List ApiAct)
        (es : List ApiEvent),
      c.pc = .idle → c.sync.pc = .idle → (∀ a ∈ as, a.Exchanges) →
      (machine o inetPton inetNtop).run c as = some (c', es) → Exchanges.start.Unmixed o es := by
  intro h
  obtain ⟨c', request, request', msg, hrun⟩ : ∃ c' request request' msg,
      (machine .little (fun _ => none) textOf).run discovered
        (.negotiate valueA 7 0 :: steps .negoThread 5 [.fail, .fail, .fail] ++
          .synchronize valueB 8 (CharArray.zero _) :: steps .synchronize 6 [.fail, .fail] ++
          steps .negoThread 5 [.fail]) =
      some (c', [.started .negoThread request, .returned .negoThread .success,
        .opened .negoThread 5, .wrote .negoThread 5 none msg, .started .synchronize request',
        .opened .synchronize 6, .read .negoThread 6]) := ⟨_, _, _, _, rfl⟩
  have hkept := h _ _ _ _ c' _ _ rfl rfl (by simp [steps, ApiAct.Exchanges]) hrun
  have hsock : some (5 : ℤ) = some 6 := hkept.2.2.2.2.2.2.1
  cases hsock

/-- The answer of a server to session `sessionId`. -/
def ending (sessionId : UInt32) (bits : List UInt8) : ReadEnv :=
  .pdu (encode ⟨0, 0, CharArray.zero _⟩ .negoEndMsg sessionId (memOf bits fun _ => 0) bits.length
    0).2

/-- `synchronize` is called, and does all its work, before the negotiation thread connects. -/
def overlapping : List ApiAct :=
  .negotiate valueA 7 0 :: steps .negoThread 5 [.fail] ++
    .synchronize valueB 8 (CharArray.zero _) :: steps .synchronize 6 [.fail, .fail, .fail,
      ending 8 ((objectiveOf .synchronization valueB 0 0).toBits .little), .fail, .fail] ++
    steps .negoThread 5 [.fail, .fail, ending 8 (declineOption.toBits .little), .fail, .fail]

theorem unmixed_overlapping :
    ∃ c' es, (machine .little (fun _ => none) textOf).run discovered overlapping = some (c', es) ∧
      es.length = 15 ∧ Exchanges.start.Unmixed .little es := by
  have hsample : ((machine .little (fun _ => none) textOf).run discovered overlapping).map
      (fun r => r.2.length) = some 15 := by
    decide +kernel
  obtain ⟨⟨c', es⟩, hrun, hlength⟩ := Option.map_eq_some_iff.1 hsample
  exact ⟨c', es, hrun, hlength,
    unmixed rfl rfl (by simp [overlapping, steps, ApiAct.Exchanges]) (by decide +kernel) hrun⟩

end Samples

end ApiClient

end Gdnp
