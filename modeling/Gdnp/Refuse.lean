import Gdnp.Reuse

/-!
# Calls without a discovered peer

`negotiate` and `synchronize` refuse to work with the broadcast address that the constructor puts
into `negoAddr`, but they compare the port as well, which nothing ever sets.  So as long as no
discovery stores an address, they are refused exactly when the port of `negoAddr` happens to be that
of the broadcast address, or nothing was to be started anyway (`refused_iff`).
-/

open CMem

namespace Gdnp

/-- A discovery stores the address of a Locator. -/
def ApiEvent.Stores (inetPton : CString → Option (BitVec 128)) : ApiEvent → Prop
  | discovery (.parsed _ opt text) => opt.type = .locator ∧ (inetPton text).isSome
  | _ => False

/-- Nothing is started, and no call but with ERROR returns. -/
def ApiEvent.Refused : ApiEvent → Prop
  | started _ _ | opened _ _ | wrote _ _ _ _ => False
  | returned _ rtnval => rtnval = .error
  | _ => True

/-- The call starts an operation, unless it is refused. -/
def ApiAct.Starts : ApiAct → Prop
  | negotiate _ _ ret => ret = 0
  | synchronize _ _ _ => True
  | _ => False

namespace ApiClient

variable {o : ByteOrder} {inetPton : CString → Option (BitVec 128)}
  {inetNtop : BitVec 128 → CString} {c c' : ApiClient} {a : ApiAct} {es : List ApiEvent}

/-- Nothing was started, and `negoAddr` is as the constructor left it. -/
structure Unused (port : UInt16) (c : ApiClient) : Prop where
  negoThread : c.pc = .idle
  synchronize : c.sync.pc = .idle
  negoAddr : c.negoAddr = ⟨broadcastAddr.addr, port⟩

variable {port : UInt16}

theorem discoverStep_unused {env : DiscoverEnv} {c₁ : UdpClient} {es₁ : List DiscoverEvent}
    (hc : c.Unused port) (h : c.toUdpClient.step o inetPton env = some (c₁, es₁))
    (hes : ∀ e ∈ es₁, ¬ (ApiEvent.discovery e).Stores inetPton) :
    Unused port { c with toUdpClient := c₁ } := by
  obtain ⟨hthread, haddr⟩ := UdpClient.step_frame h
  refine ⟨(congrArg Prod.fst hthread).trans hc.negoThread, hc.synchronize, ?_⟩
  show c₁.negoAddr = _
  obtain haddr | ⟨opt, text, hmem, hopt, haddr⟩ := haddr
  · rw [haddr, hc.negoAddr]
  · have hinvalid : inetPton text = none := by
      by_contra hvalid
      exact hes _ hmem ⟨hopt, Option.isSome_iff_ne_none.2 hvalid⟩
    rw [haddr, hinvalid, hc.negoAddr]
    rfl

/-- Without a stored address, a call that is refused or starts nothing changes nothing. -/
theorem step_unused (h : c.step o inetPton inetNtop a = some (c', es)) (hc : c.Unused port)
    (ha : port = broadcastAddr.port ∨ ¬ a.Starts) (hes : ∀ e ∈ es, ¬ e.Stores inetPton) :
    c'.Unused port ∧ ∀ e ∈ es, e.Refused := by
  have hequal : port = broadcastAddr.port → sockAddrEqual inetNtop c.negoAddr broadcastAddr := by
    intro hport
    rw [hc.negoAddr, hport, sockAddrEqual]
    exact decide_eq_true ⟨rfl, rfl⟩
  cases step_cases h with
  | discover => exact ⟨⟨hc.negoThread, hc.synchronize, hc.negoAddr⟩, by simp⟩
  | discoverStep hstep =>
    rw [List.forall_mem_map] at hes ⊢
    exact ⟨discoverStep_unused hc hstep hes, fun _ _ => trivial⟩
  | refuseNegotiate | refuseSynchronize => exact ⟨hc, by simp [ApiEvent.Refused]⟩
  | noThread _ _ _ _ hv =>
    subst hv
    exact ⟨⟨hc.negoThread, hc.synchronize, hc.negoAddr⟩, by simp [ApiEvent.Refused]⟩
  | negotiate _ _ haddr => exact absurd rfl (ha.resolve_left fun hport => haddr (hequal hport))
  | synchronize _ haddr => exact absurd trivial (ha.resolve_left fun hport => haddr (hequal hport))
  | @operate op _ _ _ _ _ hstep =>
    refine absurd ?_ (Client.pc_ne_idle hstep)
    cases op with
    | negoThread => exact hc.negoThread
    | synchronize => exact hc.synchronize

/-- With another port a call is not refused. -/
theorem step_starts (h : c.step o inetPton inetNtop a = some (c', es))
    (hport : c.negoAddr.port ≠ broadcastAddr.port) (ha : a.Starts) :
    ∃ e ∈ es, ¬ e.Refused := by
  have hequal : ¬ sockAddrEqual inetNtop c.negoAddr broadcastAddr := by
    rw [sockAddrEqual, decide_eq_true_eq]
    exact fun heq => hport heq.2
  cases step_cases h with
  | refuseNegotiate _ _ haddr | refuseSynchronize _ haddr => exact absurd haddr hequal
  | noThread _ _ _ hret => exact absurd ha hret
  | negotiate | synchronize => exact ⟨_, List.mem_cons_self, id⟩
  | discover | discoverStep | operate => exact ha.elim

theorem step_port (h : c.step o inetPton inetNtop a = some (c', es)) :
    c'.negoAddr.port = c.negoAddr.port := by
  cases step_cases h with
  | @discoverStep _ u ds hstep =>
    show u.negoAddr.port = _
    obtain haddr | ⟨opt, text, -, -, haddr⟩ := (UdpClient.step_frame hstep).2 <;> rw [haddr]
  | noThread _ _ _ _ hv | negotiate _ _ _ hv | synchronize _ _ hv => rw [hv]; rfl
  | operate => rw [negoAddr_put, negoAddr_tcpInit]
  | _ => rfl

/-- As long as no discovery stores an address, `negotiate` and `synchronize` are refused exactly
when the port that `negoAddr` happens to have is 4444, or nothing was to be started. -/
theorem refused_iff {last : CharArray maxStringLength} {as : List ApiAct}
    (hrun : (machine o inetPton inetNtop).run (new last port) as = some (c', es))
    (hes : ∀ e ∈ es, ¬ e.Stores inetPton) :
    (∀ e ∈ es, e.Refused) ↔ port = broadcastAddr.port ∨ ∀ a ∈ as, ¬ a.Starts := by
  constructor
  · intro hrefused
    by_contra! hnot
    obtain ⟨hport, a, ha, hstarts⟩ := hnot
    obtain ⟨as₁, as₂, rfl⟩ := List.append_of_mem ha
    obtain ⟨c₁, es₁, es', hrun₁, hrun₂, rfl⟩ := EventMachine.run_append_iff.1 hrun
    obtain ⟨c₂, es₂, es₃, hstep, -, rfl⟩ := EventMachine.run_cons_iff.1 hrun₂
    have hport₁ : c₁.negoAddr.port = port :=
      EventMachine.run_invariant (I := fun c => c.negoAddr.port = port)
        (fun _ _ _ _ hc h => (step_port h).trans hc) rfl hrun₁
    obtain ⟨e, he, hne⟩ := step_starts hstep (by rw [hport₁]; exact hport) hstarts
    exact hne (hrefused e (by simp [he]))
  · intro hok
    have hguard : (machine o inetPton inetNtop).Guarded
        (fun _ a => port = broadcastAddr.port ∨ ¬ a.Starts) (new last port) as :=
      EventMachine.guarded_of_forall_mem fun a ha _ => hok.imp_right fun h => h a ha
    have hunused := EventMachine.run_preserves_trace (t := []) (P := fun c t =>
        (∀ e ∈ t, ¬ e.Stores inetPton) → c.Unused port ∧ ∀ e ∈ t, e.Refused)
      (fun c t a c₁ es₁ hc ha h ht => ?_) (fun _ => ⟨⟨rfl, rfl, rfl⟩, by simp⟩) hguard hrun
    · exact (hunused hes).2
    · rw [List.forall_mem_append] at ht ⊢
      obtain ⟨hunused, hrefused⟩ := hc ht.1
      obtain ⟨hunused', hrefused'⟩ := step_unused h hunused ha ht.2
      exact ⟨hunused', hrefused, hrefused'⟩

/-- The port of a fresh client happens to be zero. -/
theorem not_refused :
    ¬ ∃ (inetPton : CString → Option (BitVec 128)) (inetNtop : BitVec 128 → CString),
      ∀ (o : ByteOrder) (last : CharArray maxStringLength) (port : UInt16) (as : List ApiAct)
        (c' : ApiClient) (es : List ApiEvent),
      (machine o inetPton inetNtop).run (new last port) as = some (c', es) →
      (∀ e ∈ es, ¬ e.Stores inetPton) → ∀ e ∈ es, e.Refused := by
  rintro ⟨inetPton, inetNtop, h⟩
  obtain ⟨⟨c', es⟩, hstep⟩ : ∃ r, (new (CharArray.zero _) 0).step .little inetPton inetNtop
      (.synchronize valueB 7 (CharArray.zero _)) = some r := ⟨_, rfl⟩
  have hes : ∀ e ∈ es, ¬ e.Stores inetPton := by
    have hcall : (new (CharArray.zero _) 0).synchronize .little inetNtop valueB 7
        (CharArray.zero _) = (c', es) := Option.some.inj hstep
    unfold synchronize at hcall
    split_ifs at hcall <;> cases hcall <;> simp [ApiEvent.Stores]
  obtain ⟨e, he, hne⟩ := step_starts hstep (by decide) trivial
  have hrun : (machine .little inetPton inetNtop).run (new (CharArray.zero _) 0)
      [.synchronize valueB 7 (CharArray.zero _)] = some (c', es) :=
    EventMachine.run_singleton_iff.2 hstep
  exact hne (h _ _ _ _ c' es hrun hes e he)

/-- A discovery in which all retries time out, and then both calls. -/
def afterFailure : List ApiAct :=
  .discover 3 7 .discoveryMsg (CharArray.zero _) :: List.replicate 15
      (.discoverStep ⟨⟨.success, 0⟩, .timeout, fun _ => 0, default, .divert, .success⟩) ++
    [.negotiate valueA 7 0, .synchronize valueB 8 (CharArray.zero _)]

/-- A fresh client whose port happens to be 4444. -/
theorem refused_afterFailure :
    ∃ c' es, (machine .little (fun _ => none) fun _ => default).run
        (new (CharArray.zero _) 4444) afterFailure = some (c', es) ∧ es.length = 14 ∧
      ((∀ e ∈ es, e.Refused) ↔ (4444 : UInt16) = broadcastAddr.port ∨
        ∀ a ∈ afterFailure, ¬ a.Starts) := by
  obtain ⟨c', es, hrun, hlength⟩ : ∃ c' es, (machine .little (fun _ => none) fun _ => default).run
      (new (CharArray.zero _) 4444) afterFailure = some (c', es) ∧ es.length = 14 :=
    ⟨_, _, rfl, rfl⟩
  refine ⟨c', es, hrun, hlength, refused_iff hrun fun e _ hstores => ?_⟩
  unfold ApiEvent.Stores at hstores
  split at hstores
  · exact Bool.noConfusion hstores.2
  · exact hstores

end ApiClient

end Gdnp
