import Gdnp.Leftover
import Gdnp.Mixing

/-!
# The result of a synchronization

`synchronize` parses its buffer and calls `do_configuration` on what it finds there, whether or not
`send_tcp` has succeeded.  It configures the value that was synchronised when a NEGO_END_MSG with a
Synchronization option came; otherwise it configures what happens to be in the buffer, unless the
call is refused (`synchronize_configures_iff`).  The invariant says how far the call has come and
what it has configured by then (`SyncPhase`).  All this is about calls that return: one that the
overrun of the block of `parse_bits` ends configures nothing.
-/

open CMem

namespace Gdnp

namespace ApiEvent

/-- The data of a NEGO_END_MSG that ends the exchange of `synchronize`. -/
def syncEnd? : ApiEvent → Option (CharArray maxStringLength)
  | received .synchronize _ ⟨.negoEndMsg, data⟩ => some data
  | _ => none

/-- A value on which `synchronize` calls `do_configuration`. -/
def syncValue? : ApiEvent → Option (List UInt8)
  | configured .synchronize value => some value
  | _ => none

def syncReturn? : ApiEvent → Option Errno
  | returned .synchronize rtnval => some rtnval
  | _ => none

/-- What a call of `synchronize` receives, configures or returns. -/
def OfSync : ApiEvent → Prop
  | received op _ _ | configured op _ | returned op _ => op = .synchronize
  | _ => False

theorem syncEnd?_eq_none {e : ApiEvent} (h : ¬ e.OfSync) : e.syncEnd? = none := by
  unfold syncEnd?
  split
  case h_1 => exact absurd rfl h
  case h_2 => rfl

theorem syncValue?_eq_none {e : ApiEvent} (h : ¬ e.OfSync) : e.syncValue? = none := by
  unfold syncValue?
  split
  case h_1 => exact absurd rfl h
  case h_2 => rfl

theorem syncReturn?_eq_none {e : ApiEvent} (h : ¬ e.OfSync) : e.syncReturn? = none := by
  unfold syncReturn?
  split
  case h_1 => exact absurd rfl h
  case h_2 => rfl

theorem not_ofSync {e : ApiEvent} (h : Exchanges.Continues .negoThread e) : ¬ e.OfSync := by
  cases e with
  | received | configured | returned =>
    rintro rfl
    cases h
  | _ => exact id

end ApiEvent

section Result

variable (o : ByteOrder)

/-- `parse_bits` may read the value out of the data, by what lies behind it. -/
def ReadsAs (data : CharArray maxStringLength) (value : List UInt8) : Prop :=
  ∃ after uninit, value = (ObjectiveOption.parseBits o (data.mem after) uninit).getValue

/-- `synchronize` has received a NEGO_END_MSG with the session id `id` and a Synchronization
option. -/
def SyncedBy (id : UInt32) (data : CharArray maxStringLength) (es : List ApiEvent) : Prop :=
  .received .synchronize (some id) ⟨.negoEndMsg, data⟩ ∈ es ∧
    Content.optionType o ⟨.negoEndMsg, data⟩ = some .synchronization

/-- The synchronised value is configured, and nothing else. -/
structure ConfiguresSynced (id : UInt32) (es : List ApiEvent) : Prop where
  synced : ∀ data, SyncedBy o id data es → ∃ value, ReadsAs o data value ∧
    es.filterMap ApiEvent.syncValue? = [value] ∧ es.filterMap ApiEvent.syncReturn? = [.success]
  other : (∀ data, ¬ SyncedBy o id data es) → es.filterMap ApiEvent.syncValue? = [] ∧
    ∃ e, e ≠ .success ∧ es.filterMap ApiEvent.syncReturn? = [e]

/-- `send_tcp` runs, and no NEGO_END_MSG has come. -/
def ClientPc.Open : ClientPc → Prop
  | idle | ret _ | doNegotiate .negoEndMsg => False
  | _ => True

/-- How far `synchronize` has come: its buffer and what it does next, the NEGO_END_MSGs taken, the
values configured and the codes returned so far. -/
inductive SyncPhase (buffer : CharArray maxStringLength) :
    ClientPc → List (CharArray maxStringLength) → List (List UInt8) → List Errno → Prop
  | running {pc} (isOpen : pc.Open) : SyncPhase buffer pc [] [] []
  | ending : SyncPhase buffer (.doNegotiate .negoEndMsg) [buffer] [] []
  | ended {values} (none : Content.optionType o ⟨.negoEndMsg, buffer⟩ = some .synchronization →
      values = []) : SyncPhase buffer (.ret .success) [buffer] values []
  | failed {e values} : SyncPhase buffer (.ret e) [] values []
  | returned {values value} (none : Content.optionType o ⟨.negoEndMsg, buffer⟩ =
      some .synchronization → values = []) (reads : ReadsAs o buffer value) :
    SyncPhase buffer .idle [buffer] (values ++ [value]) [.success]
  | returnedOther {e values value} : SyncPhase buffer .idle [] (values ++ [value]) [e]

end Result

namespace ApiClient

variable {o : ByteOrder} {inetPton : CString → Option (BitVec 128)}
  {inetNtop : BitVec 128 → CString} {c c' : ApiClient} {a : ApiAct} {es : List ApiEvent}
  {op : Operation} {env : ClientEnv} {sock : ℤ} {v v' : Client} {ces : List ClientEvent}

/-- The phase of a call of `synchronize` in a run. -/
def SyncGoes (o : ByteOrder) (c : ApiClient) (es : List ApiEvent) : Prop :=
  SyncPhase o c.sync.buffer c.sync.pc (es.filterMap ApiEvent.syncEnd?)
    (es.filterMap ApiEvent.syncValue?) (es.filterMap ApiEvent.syncReturn?)

/-! ### The steps of `synchronize` -/

/-- The events of a step that count. -/
def syncEvents (o : ByteOrder) (v : Client) (sock : ℤ) (env : ClientEnv)
    (ces : List ClientEvent) : List ApiEvent :=
  ces.map (.ofClient .synchronize sock env.read.sessionId?) ++ returnEvents o v .synchronize env

theorem filterMap_operate (h : c.operate o .synchronize env sock = some (c', es)) :
    ∃ v' ces tcp, (c.view .synchronize).step o env = some (v', ces) ∧
      c'.sync.buffer = v'.buffer ∧ c'.sync.pc = v'.pc ∧
      ∀ (β : Type) (f : ApiEvent → Option β), (∀ e, ¬ e.OfSync → f e = none) →
        es.filterMap f = (syncEvents o (c.view .synchronize) tcp env ces).filterMap f := by
  obtain ⟨v', ces, hstep, rfl, rfl⟩ := operate_cases h
  refine ⟨v', ces, (c.tcpInit .synchronize sock).1.tcpSock, hstep, rfl, rfl, fun β f hf => ?_⟩
  have hopened : ∀ op sock, f (.opened op sock) = none := fun _ _ => hf _ id
  have hread : ∀ op sock, f (.read op sock) = none := fun _ _ => hf _ id
  have hoffered : ∀ op offer, f (.offered op offer) = none := fun _ _ => hf _ id
  have hstored : ∀ op, f (.stored op) = none := fun _ => hf _ id
  have htcp : (c.tcpInit .synchronize sock).2.filterMap f = [] := by
    unfold tcpInit
    split <;> simp [hopened]
  have hreads : ∀ tcp, (readEvents (c.view .synchronize) .synchronize tcp).filterMap f = [] := by
    intro tcp
    unfold readEvents
    split <;> simp [hread]
  have hstore : (storeEvents o (c.view .synchronize) .synchronize env).filterMap f = [] := by
    unfold storeEvents
    split
    · split_ifs <;> simp [hoffered]
    · split_ifs <;> simp [hstored]
    · rfl
  simp [syncEvents, List.filterMap_append, htcp, hreads, hstore]

theorem returnEvents_eq_nil (h : ∀ e, v.pc ≠ .ret e) : returnEvents o v op env = [] := by
  unfold returnEvents
  split
  case h_1 e heq => exact absurd heq (h e)
  case h_2 => rfl

/-- A message is taken. -/
theorem syncPhase_received (type : MsgType) (data : CharArray maxStringLength)
    (sessionId : Option UInt32) :
    SyncPhase o data (.doNegotiate type)
      ([ApiEvent.received .synchronize sessionId ⟨type, data⟩].filterMap ApiEvent.syncEnd?)
      ([ApiEvent.received .synchronize sessionId ⟨type, data⟩].filterMap ApiEvent.syncValue?)
      ([ApiEvent.received .synchronize sessionId ⟨type, data⟩].filterMap ApiEvent.syncReturn?) := by
  cases type with
  | negoEndMsg => exact .ending
  | _ => exact .running trivial

/-- `send_tcp` goes on, takes a message or returns. -/
theorem syncPhase_of_open {tcp : ℤ} (h : v.step o env = some (v', ces)) (hopen : v.pc.Open) :
    SyncPhase o v'.buffer v'.pc ((syncEvents o v tcp env ces).filterMap ApiEvent.syncEnd?)
      ((syncEvents o v tcp env ces).filterMap ApiEvent.syncValue?)
      ((syncEvents o v tcp env ces).filterMap ApiEvent.syncReturn?) := by
  have hret : returnEvents o v .synchronize env = [] := by
    apply returnEvents_eq_nil
    intro e he
    rw [he] at hopen
    exact hopen
  unfold syncEvents
  rw [hret, List.append_nil]
  cases Client.step_cases h with
  | setup pc hpc' =>
    rcases hpc' with hsetup | ⟨e, -, rfl⟩
    · rename_i n t pc'
      apply SyncPhase.running
      cases pc' with
      | sendTcp | connect | retry | request => trivial
      | _ => exact hsetup.elim
    · exact .failed
  | requestFails | readRet | declineFails | counterFails | waitErr | unexpected => exact .failed
  | decline | accept | acceptFails => exact .failed
  | request | readAgain | counter | wait => exact .running trivial
  | readMsg | readPhantom => exact syncPhase_received _ _ _
  | endAccept pc | endOther pc =>
    rw [pc] at hopen
    exact hopen.elim
  | ret pc =>
    rw [pc] at hopen
    exact hopen.elim

/-- `synchronize` returns. -/
theorem ret_events {e : Errno} (tcp : ℤ) (h : v.step o env = some (v', ces))
    (hpc : v.pc = .ret e) :
    v'.buffer = v.buffer ∧ v'.pc = .idle ∧ syncEvents o v tcp env ces =
      [.configured .synchronize
        (ObjectiveOption.parseBits o (v.buffer.mem env.after) env.uninit).getValue,
        .returned .synchronize e] := by
  have hret : returnEvents o v .synchronize env = [.configured .synchronize
      (ObjectiveOption.parseBits o (v.buffer.mem env.after) env.uninit).getValue,
      .returned .synchronize e] := by
    unfold returnEvents
    rw [hpc]
  rw [Client.step, hpc] at h
  cases h
  unfold syncEvents
  rw [hret]
  refine ⟨?_, rfl, rfl⟩
  split_ifs <;> rfl

/-- What the events of a step add to the phase. -/
theorem syncPhase_step {tcp : ℤ} {ends : List (CharArray maxStringLength)}
    {values : List (List UInt8)} {returns : List Errno} (h : v.step o env = some (v', ces))
    (hv : SyncPhase o v.buffer v.pc ends values returns) :
    SyncPhase o v'.buffer v'.pc
      (ends ++ (syncEvents o v tcp env ces).filterMap ApiEvent.syncEnd?)
      (values ++ (syncEvents o v tcp env ces).filterMap ApiEvent.syncValue?)
      (returns ++ (syncEvents o v tcp env ces).filterMap ApiEvent.syncReturn?) := by
  generalize hpc : v.pc = pc at hv
  cases hv with
  | running isOpen => exact syncPhase_of_open h (hpc ▸ isOpen)
  | returned | returnedOther => exact absurd hpc (Client.pc_ne_idle h)
  | ending =>
    have hret : returnEvents o v .synchronize env = [] := by
      apply returnEvents_eq_nil
      simp [hpc]
    rw [Client.step, hpc] at h
    replace h : v.doNegotiate o env .negoEndMsg = (v', ces) := Option.some.inj h
    unfold Client.doNegotiate at h
    dsimp only at h
    obtain ⟨rfl, rfl⟩ := Prod.mk.inj h
    unfold syncEvents
    rw [hret, List.append_nil]
    by_cases hopt : (GdnpOption.parseBits o (v.buffer.mem env.after) env.uninit).type = .accept
    · rw [if_pos hopt]
      refine .ended fun hsync => ?_
      replace hsync : Content.optionType o ⟨.negoEndMsg, v.buffer⟩ = some .synchronization := hsync
      rw [Content.parseBits_type (c := ⟨.negoEndMsg, v.buffer⟩), hsync] at hopt
      cases hopt
    · rw [if_neg hopt]
      exact .ended fun _ => rfl
  | ended hnone =>
    obtain ⟨hbuffer, hpc', hevents⟩ := ret_events tcp h hpc
    rw [hbuffer, hpc', hevents]
    exact .returned hnone ⟨env.after, env.uninit, rfl⟩
  | failed =>
    obtain ⟨hbuffer, hpc', hevents⟩ := ret_events tcp h hpc
    rw [hbuffer, hpc', hevents]
    exact .returnedOther

/-! ### The runs -/

/-- Outside of `synchronize` nothing happens that counts. -/
theorem filterMap_of_ne {β : Type} {f : ApiEvent → Option β} (hf : ∀ e, ¬ e.OfSync → f e = none)
    (h : c.step o inetPton inetNtop a = some (c', es)) (ha : ¬ a.Calls .synchronize)
    (hop : ∀ env sock, a ≠ .operate .synchronize env sock) :
    c'.sync = c.sync ∧ es.filterMap f = [] := by
  suffices hes : c'.sync = c.sync ∧ ∀ e ∈ es, ¬ e.OfSync from
    ⟨hes.1, List.filterMap_eq_nil_iff.2 fun e he => hf e (hes.2 e he)⟩
  cases step_cases h with
  | discover => exact ⟨rfl, by simp⟩
  | discoverStep hstep =>
    refine ⟨rfl, fun e he => ?_⟩
    obtain ⟨d, -, rfl⟩ := List.mem_map.1 he
    exact id
  | refuseNegotiate | noThread | negotiate => exact ⟨rfl, by simp [ApiEvent.OfSync]⟩
  | refuseSynchronize | synchronize => exact absurd rfl ha
  | @operate op env sock v' ces es hstep hes =>
    cases op with
    | synchronize => exact absurd rfl (hop env sock)
    | negoThread =>
      refine ⟨?_, fun e he => ApiEvent.not_ofSync (continues_operate hes e he)⟩
      unfold tcpInit
      split
      · rfl
      · dsimp only
        split_ifs <;> rfl
      · rfl

theorem syncGoes_step {t : List ApiEvent} (h : c.step o inetPton inetNtop a = some (c', es))
    (ha : ¬ a.Calls .synchronize) (hc : c.SyncGoes o t) : c'.SyncGoes o (t ++ es) := by
  unfold SyncGoes
  rw [List.filterMap_append, List.filterMap_append, List.filterMap_append]
  by_cases hop : ∃ env sock, a = .operate .synchronize env sock
  · obtain ⟨env, sock, rfl⟩ := hop
    obtain ⟨v', ces, tcp, hstep, hbuffer, hpc, hes⟩ := filterMap_operate h
    rw [hbuffer, hpc, hes _ _ fun _ => ApiEvent.syncEnd?_eq_none,
      hes _ _ fun _ => ApiEvent.syncValue?_eq_none, hes _ _ fun _ => ApiEvent.syncReturn?_eq_none]
    exact syncPhase_step hstep hc
  · push Not at hop
    obtain ⟨hsync, hends⟩ := filterMap_of_ne (fun _ => ApiEvent.syncEnd?_eq_none) h ha hop
    obtain ⟨-, hvalues⟩ := filterMap_of_ne (fun _ => ApiEvent.syncValue?_eq_none) h ha hop
    obtain ⟨-, hreturns⟩ := filterMap_of_ne (fun _ => ApiEvent.syncReturn?_eq_none) h ha hop
    rw [hsync, hends, hvalues, hreturns, List.append_nil, List.append_nil, List.append_nil]
    exact hc

theorem syncGoes_run {t : List ApiEvent} {as : List ApiAct} (hc : c.SyncGoes o t)
    (hrun : (machine o inetPton inetNtop).run c as = some (c', es))
    (has : ∀ a ∈ as, ¬ a.Calls .synchronize) : c'.SyncGoes o (t ++ es) := by
  have hguard : (machine o inetPton inetNtop).Guarded (fun _ a => ¬ a.Calls .synchronize) c as :=
    EventMachine.guarded_of_forall_mem fun a ha _ => has a ha
  exact EventMachine.run_preserves_trace (P := SyncGoes o)
    (fun c t a c₁ es₁ hc ha h => syncGoes_step h ha hc) hc hguard hrun

/-- After a refused call nothing happens that counts. -/
theorem filterMap_run_of_idle {β : Type} {f : ApiEvent → Option β}
    (hf : ∀ e, ¬ e.OfSync → f e = none) {as : List ApiAct} (hidle : c.sync.pc = .idle)
    (hrun : (machine o inetPton inetNtop).run c as = some (c', es))
    (has : ∀ a ∈ as, ¬ a.Calls .synchronize) : es.filterMap f = [] := by
  have hguard : (machine o inetPton inetNtop).Guarded (fun _ a => ¬ a.Calls .synchronize) c as :=
    EventMachine.guarded_of_forall_mem fun a ha _ => has a ha
  refine (EventMachine.run_preserves_trace (t := [])
    (P := fun c t => c.sync.pc = .idle ∧ t.filterMap f = [])
    (fun c t a c₁ es₁ hc ha h => ?_) ⟨hidle, rfl⟩ hguard hrun).2
  have hop : ∀ env sock, a ≠ .operate .synchronize env sock := by
    rintro env sock rfl
    obtain ⟨v', ces, hstep, -⟩ := operate_cases h
    exact Client.pc_ne_idle hstep hc.1
  obtain ⟨hsync, hes⟩ := filterMap_of_ne hf h ha hop
  rw [hsync, List.filterMap_append, hes, hc.2]
  exact ⟨hc.1, rfl⟩

theorem mem_syncEnd? {sessionId : Option UInt32} {data : CharArray maxStringLength}
    (h : .received .synchronize sessionId ⟨.negoEndMsg, data⟩ ∈ es) :
    data ∈ es.filterMap ApiEvent.syncEnd? :=
  List.mem_filterMap.2 ⟨_, h, rfl⟩

/-- When `synchronize` has returned, its result is right exactly when it has synchronised a
value. -/
theorem SyncGoes.configures_iff {id : UInt32} (h : c.SyncGoes o es) (hidle : c.sync.pc = .idle) :
    ConfiguresSynced o id es ↔ ∃ data, SyncedBy o id data es := by
  unfold SyncGoes at h
  rw [hidle] at h
  generalize hends : es.filterMap ApiEvent.syncEnd? = ends at h
  generalize hvalues : es.filterMap ApiEvent.syncValue? = values at h
  generalize hreturns : es.filterMap ApiEvent.syncReturn? = returns at h
  have hconfigured : values ≠ [] := by
    cases h with
    | running isOpen => exact isOpen.elim
    | returned => simp
    | returnedOther => simp
  constructor
  · intro hright
    by_contra! hnot
    exact hconfigured (hvalues ▸ (hright.other hnot).1)
  · intro hex
    refine ⟨fun data hsynced => ?_, fun hnot => absurd hex (not_exists.2 hnot)⟩
    have hmem := mem_syncEnd? hsynced.1
    rw [hends] at hmem
    cases h with
    | running isOpen => exact isOpen.elim
    | returnedOther => cases hmem
    | returned none reads =>
      obtain rfl := List.mem_singleton.1 hmem
      rw [none hsynced.2] at hvalues
      exact ⟨_, reads, hvalues, hreturns⟩

/-- A call of `synchronize` that has returned is right exactly when it was refused for its address,
or a NEGO_END_MSG of its session with a Synchronization option came. -/
theorem synchronize_configures_iff {value : CString} {rand : UInt32}
    {buffer : CharArray maxStringLength} {as : List ApiAct}
    (hrun : (machine o inetPton inetNtop).run c (.synchronize value rand buffer :: as) =
      some (c', es))
    (honce : ∀ a ∈ as, ¬ a.Calls .synchronize) (hret : c'.sync.pc = .idle) :
    ConfiguresSynced o (rand % UInt32.ofNat (maxSessionId + 1)) es ↔
      sockAddrEqual inetNtop c.negoAddr broadcastAddr ∨
        ∃ data, SyncedBy o (rand % UInt32.ofNat (maxSessionId + 1)) data es := by
  obtain ⟨c₁, es₁, es₂, hcall, hrest, rfl⟩ := EventMachine.run_cons_iff.1 hrun
  replace hcall : c.step o inetPton inetNtop (.synchronize value rand buffer) = some (c₁, es₁) :=
    hcall
  cases step_cases hcall with
  | refuseSynchronize hfree haddr =>
    have hquiet {β : Type} {f : ApiEvent → Option β} (hf : ∀ e, ¬ e.OfSync → f e = none) :
        es₂.filterMap f = [] := filterMap_run_of_idle hf hfree.1 hrest honce
    refine iff_of_true ⟨fun data hsynced => ?_, fun _ => ⟨?_, .error, by decide, ?_⟩⟩ (.inl haddr)
    · have hmem := mem_syncEnd? hsynced.1
      rw [List.filterMap_append, hquiet fun _ => ApiEvent.syncEnd?_eq_none] at hmem
      cases hmem
    · rw [List.filterMap_append, hquiet fun _ => ApiEvent.syncValue?_eq_none]
      rfl
    · rw [List.filterMap_append, hquiet fun _ => ApiEvent.syncReturn?_eq_none]
      rfl
  | synchronize hfree haddr hv =>
    subst hv
    rw [or_iff_right haddr]
    refine SyncGoes.configures_iff (syncGoes_run ?_ hrest honce) hret
    exact .running trivial

section Samples

set_option maxRecDepth 8000

/-- A call of `synchronize` whose request a server answers with the given option. -/
def synchronized (bits : List UInt8) : List ApiAct :=
  .synchronize valueB 8 (CharArray.zero _) ::
    steps .synchronize 6 [.fail, .fail, .fail, ending 8 bits, .fail, .fail]

/-- The server declines. -/
theorem not_synchronize_configures :
    ¬ ∀ (o : ByteOrder) (inetPton : CString → Option (BitVec 128))
        (inetNtop : BitVec 128 → CString) (c c' : ApiClient) (value : CString) (rand : UInt32)
        (buffer : CharArray maxStringLength) (as : List ApiAct) (es : List ApiEvent),
      (machine o inetPton inetNtop).run c (.synchronize value rand buffer :: as) = some (c', es) →
      (∀ a ∈ as, ¬ a.Calls .synchronize) → c'.sync.pc = .idle →
      ConfiguresSynced o (rand % UInt32.ofNat (maxSessionId + 1)) es := by
  intro h
  have hsample : ((machine .little (fun _ => none) textOf).run discovered
      (synchronized (declineOption.toBits .little))).map (fun r => (r.1.sync.pc,
        (r.2.filterMap ApiEvent.syncEnd?).map fun d => Content.optionType .little ⟨.negoEndMsg, d⟩,
        (r.2.filterMap ApiEvent.syncValue?).length)) =
      some (.idle, [some .decline], 1) := by
    decide +kernel
  obtain ⟨⟨c', es⟩, hrun, hs⟩ := Option.map_eq_some_iff.1 hsample
  simp only [Prod.mk.injEq] at hs
  obtain ⟨hret, htype, hlength⟩ := hs
  have hright := h _ _ _ _ c' _ _ _ _ es hrun (by simp [steps, ApiAct.Calls]) hret
  have hnot : ∀ data, ¬ SyncedBy .little 8 data es := by
    intro data hsynced
    have hmem := List.mem_map_of_mem (f := fun d => Content.optionType .little ⟨.negoEndMsg, d⟩)
      (mem_syncEnd? hsynced.1)
    rw [htype, hsynced.2] at hmem
    simp at hmem
  rw [(hright.other hnot).1] at hlength
  cases hlength

/-- The server sends a value. -/
theorem synchronize_configures_value :
    ∃ c' es, (machine .little (fun _ => none) textOf).run discovered
        (synchronized ((objectiveOf .synchronization valueA 0 0).toBits .little)) = some (c', es) ∧
      (ConfiguresSynced .little 8 es ↔ sockAddrEqual textOf discovered.negoAddr broadcastAddr ∨
        ∃ data, SyncedBy .little 8 data es) ∧
      es.filterMap ApiEvent.syncValue? = [[97]] := by
  have hsample : ((machine .little (fun _ => none) textOf).run discovered
      (synchronized ((objectiveOf .synchronization valueA 0 0).toBits .little))).map
      (fun r => (r.1.sync.pc, r.2.filterMap ApiEvent.syncValue?)) = some (.idle, [[97]]) := by
    decide +kernel
  obtain ⟨⟨c', es⟩, hrun, hs⟩ := Option.map_eq_some_iff.1 hsample
  obtain ⟨hret, hvalues⟩ := Prod.mk.inj hs
  exact ⟨c', es, hrun,
    synchronize_configures_iff hrun (by simp [steps, ApiAct.Calls]) hret, hvalues⟩

end Samples

end ApiClient

end Gdnp
