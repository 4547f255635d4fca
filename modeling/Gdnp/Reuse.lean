import Gdnp.Api
import Gdnp.Stray

/-!
# A client after its operations

Every operation of a client starts from `cur_states` OFF and `try_times` 0.  `nego_thread` and
`synchronize` set the state to OFF however the exchange went, but `discover` does so only when
`recv` succeeds, and nothing resets the retries of a connection that were all used up.  So a client
stays reusable as long as no discovery runs out of retries or ends its wait without an answer, and
no connection uses up its attempts (`reusable`).
-/

open CMem

namespace Gdnp

namespace UdpClient

/-- `cur_states` and `try_times` during a discovery that will leave them as it found them. -/
def Regular (c : UdpClient) : Prop :=
  match c.discoverPc with
  | .idle | .send | .ret _ => c.curStates = .off ∧ c.tryTimes = 0
  | .recv => c.curStates = .waitResponse ∧ c.tryTimes = 0
  | .recvInWaitResponse | .resend => c.curStates = .waitResponse
  | .recvInWait inLoop => inLoop = true ∧ c.curStates = .wait
  | .received rtnval => rtnval = .success ∧ c.tryTimes = 0

/-- The retries are not used up, and a wait goes on or ends with an answer. -/
def Recovers (c : UdpClient) (env : DiscoverEnv) : Prop :=
  match c.discoverPc with
  | .resend => c.tryTimes < maxTryTimes
  | .recvInWait _ => (c.ownMsg? env).any fun d =>
      d.type = .waitMsg ∨ d.type = .responseMsg ∨ d.type = .negoEndMsg
  | _ => True

instance (c : UdpClient) (env : DiscoverEnv) : Decidable (c.Recovers env) :=
  show Decidable (match c.discoverPc with | .resend => _ | .recvInWait _ => _ | _ => _) from
    match c.discoverPc with
    | .resend => inferInstanceAs (Decidable (_ < _))
    | .recvInWait _ => inferInstanceAs (Decidable (_ = true))
    | .idle | .send | .recv | .recvInWaitResponse | .received _ | .ret _ =>
      inferInstanceAs (Decidable True)

variable {o : ByteOrder} {inetPton : CString → Option (BitVec 128)} {c c' : UdpClient}
  {env : DiscoverEnv} {es : List DiscoverEvent} {rtnval : Errno}

theorem loop_waitResponse (hcur : c.curStates = .waitResponse) : (c.loop rtnval).Regular := by
  rw [loop_of_waitResponse hcur]
  exact hcur

theorem loop_success (hcur : c.curStates ≠ .waitResponse) : (c.loop .success).Regular := by
  rw [loop_of_ne hcur]
  exact ⟨rfl, rfl⟩

theorem send_regular (hpc : c.discoverPc = .send) (hc : c.curStates = .off ∧ c.tryTimes = 0)
    (h : c.step o inetPton env = some (c', es)) : c'.Regular := by
  obtain ⟨hcur, htry⟩ := hc
  rw [step, hpc] at h
  dsimp only [send] at h
  rw [hcur] at h
  dsimp only at h
  generalize c.sendDiscover (textAt c.message.bytes env.behind) env = w at h
  by_cases haddr : w.1 = .addrErr
  · rw [if_pos haddr] at h
    cases h
    rw [Regular, hpc]
    exact ⟨hcur, htry⟩
  · rw [if_neg haddr] at h
    by_cases hsent : w.1 = .success
    · rw [if_pos hsent] at h
      cases h
      exact ⟨rfl, htry⟩
    · rw [if_neg hsent] at h
      dsimp only at h
      rw [if_neg hsent] at h
      cases h
      exact ⟨hcur, htry⟩

theorem resend_regular (hpc : c.discoverPc = .resend) (hcur : c.curStates = .waitResponse)
    (htry : c.tryTimes < maxTryTimes) (h : c.step o inetPton env = some (c', es)) :
    c'.Regular := by
  cases resend_cases hpc hcur h with
  | again =>
    rw [Regular, hpc]
    exact hcur
  | sent => exact loop_waitResponse hcur
  | gaveUp tries => exact absurd htry tries

theorem recvInWaitResponse_regular (hcur : c.curStates = .waitResponse)
    (h : c.recvInWaitResponse env = (c', es)) : c'.Regular := by
  cases recvInWaitResponse_cases h with
  | wait => exact ⟨rfl, rfl⟩
  | answer own type =>
    apply loop_success
    obtain ⟨-, rfl⟩ | ⟨-, rfl⟩ := endState?_eq_some_iff.1 type <;> simp
  | timeout => exact hcur
  | unexpected | error => exact loop_waitResponse hcur

theorem recvInWait_regular (hcur : c.curStates = .wait)
    (hown : (c.ownMsg? env).any fun d =>
      d.type = .waitMsg ∨ d.type = .responseMsg ∨ d.type = .negoEndMsg)
    (h : c.recvInWait true env = (c', es)) : c'.Regular := by
  cases recvInWait_cases h with
  | wait => exact ⟨rfl, hcur⟩
  | answer own type =>
    apply loop_success
    obtain ⟨-, rfl⟩ | ⟨-, rfl⟩ := endState?_eq_some_iff.1 type <;> simp
  | unexpected own wait type =>
    rw [own] at hown
    have hnone := endState?_eq_none_iff.1 type
    simp [wait, hnone.1, hnone.2] at hown
  | timeout own | error own =>
    rw [own] at hown
    cases hown

theorem finish_regular (hsuccess : rtnval = .success) (htry : c.tryTimes = 0) :
    (c.finish o inetPton rtnval env).1.Regular := by
  unfold finish
  rw [if_pos hsuccess]
  dsimp only
  split_ifs
  · exact ⟨rfl, htry⟩
  · exact ⟨rfl, htry⟩
  · exact ⟨rfl, htry⟩

theorem step_regular (h : c.step o inetPton env = some (c', es)) (hc : c.Regular)
    (hr : c.Recovers env) : c'.Regular := by
  cases hpc : c.discoverPc with
  | idle | ret =>
    rw [step, hpc] at h
    cases h
  | send =>
    rw [Regular, hpc] at hc
    exact send_regular hpc hc h
  | recv =>
    rw [Regular, hpc] at hc
    rw [step, hpc] at h
    cases h
    rw [recv, hc.1]
    exact hc.1
  | recvInWaitResponse =>
    rw [Regular, hpc] at hc
    rw [step, hpc] at h
    exact recvInWaitResponse_regular hc (Option.some.inj h)
  | resend =>
    rw [Regular, hpc] at hc
    rw [Recovers, hpc] at hr
    exact resend_regular hpc hc hr h
  | recvInWait inLoop =>
    rw [Regular, hpc] at hc
    rw [Recovers, hpc] at hr
    obtain ⟨rfl, hcur⟩ := hc
    rw [step, hpc] at h
    exact recvInWait_regular hcur hr (Option.some.inj h)
  | received rtnval =>
    rw [Regular, hpc] at hc
    have hregular : (c.finish o inetPton rtnval env).1.Regular := finish_regular hc.1 hc.2
    rw [step, hpc] at h
    rw [Option.some.inj h] at hregular
    exact hregular

/-! ### What a discovery leaves alone -/

theorem loop_thread : (c.loop rtnval).thread = c.thread := by
  unfold loop
  split_ifs <;> rfl

theorem loop_negoAddr : (c.loop rtnval).negoAddr = c.negoAddr := by
  unfold loop
  split_ifs <;> rfl

theorem leaveWait_thread {inLoop : Bool} :
    (c.leaveWait inLoop rtnval).thread = c.thread := by
  cases inLoop with
  | true => exact loop_thread
  | false => rfl

theorem leaveWait_negoAddr {inLoop : Bool} :
    (c.leaveWait inLoop rtnval).negoAddr = c.negoAddr := by
  cases inLoop with
  | true => exact loop_negoAddr
  | false => rfl

theorem send_frame (c : UdpClient) (env : DiscoverEnv) (text : CString) :
    (c.send text env).1.thread = c.thread ∧ (c.send text env).1.negoAddr = c.negoAddr := by
  unfold send
  dsimp only
  split <;> (try split_ifs) <;> exact ⟨rfl, rfl⟩

theorem recvInWaitResponse_frame (h : c.recvInWaitResponse env = (c', es)) :
    c'.thread = c.thread ∧ c'.negoAddr = c.negoAddr := by
  cases recvInWaitResponse_cases h with
  | wait | timeout => exact ⟨rfl, rfl⟩
  | answer | unexpected | error => exact ⟨loop_thread, loop_negoAddr⟩

theorem recvInWait_frame {inLoop : Bool} (h : c.recvInWait inLoop env = (c', es)) :
    c'.thread = c.thread ∧ c'.negoAddr = c.negoAddr := by
  cases recvInWait_cases h with
  | wait => exact ⟨rfl, rfl⟩
  | answer | unexpected | timeout | error => exact ⟨leaveWait_thread, leaveWait_negoAddr⟩

theorem not_ended (h : c.step o inetPton env = some (c', es)) : c.discoverPc.ended ≠ true := by
  intro hended
  unfold step at h
  cases hpc : c.discoverPc with
  | idle | ret =>
    rw [hpc] at h
    cases h
  | _ =>
    rw [hpc] at hended
    cases hended

/-- A discovery leaves the negotiation thread alone, and the address for negotiations too unless it
takes a message for a Locator. -/
theorem step_frame (h : c.step o inetPton env = some (c', es)) :
    c'.thread = c.thread ∧ (c'.negoAddr = c.negoAddr ∨
      ∃ opt text, .parsed c.message opt text ∈ es ∧ opt.type = .locator ∧
        c'.negoAddr = { c.negoAddr with addr := (inetPton text).getD c.negoAddr.addr }) := by
  cases hpc : c.discoverPc with
  | idle | ret =>
    rw [step, hpc] at h
    cases h
  | send =>
    obtain ⟨hnego, haddr⟩ := send_frame c env (textAt c.message.bytes env.behind)
    rw [step, hpc] at h
    dsimp only at h
    split at h
    · cases h
      exact ⟨hnego, .inl haddr⟩
    · split_ifs at h <;> cases h <;> exact ⟨hnego, .inl haddr⟩
  | recv =>
    rw [step, hpc] at h
    cases h
    unfold recv
    split <;> exact ⟨rfl, .inl rfl⟩
  | recvInWaitResponse =>
    rw [step, hpc] at h
    obtain ⟨hnego, haddr⟩ := recvInWaitResponse_frame (Option.some.inj h)
    exact ⟨hnego, .inl haddr⟩
  | resend =>
    obtain ⟨hnego, haddr⟩ := send_frame c env (textAt c.lastTopOptions.bytes env.behind)
    rw [step, hpc] at h
    dsimp only at h
    split at h
    · cases h
      exact ⟨hnego, .inl haddr⟩
    · cases h
      rw [loop_thread, loop_negoAddr]
      exact ⟨hnego, .inl haddr⟩
  | recvInWait inLoop =>
    rw [step, hpc] at h
    obtain ⟨hnego, haddr⟩ := recvInWait_frame (Option.some.inj h)
    exact ⟨hnego, .inl haddr⟩
  | received rtnval =>
    rw [step, hpc] at h
    replace h : c.finish o inetPton rtnval env = (c', es) := Option.some.inj h
    unfold finish at h
    dsimp only at h
    split_ifs at h with hsuccess htype hopt <;> cases h
    · exact ⟨rfl, .inr ⟨_, _, List.mem_singleton_self _, hopt, rfl⟩⟩
    · exact ⟨rfl, .inl rfl⟩
    · exact ⟨rfl, .inl rfl⟩
    · exact ⟨rfl, .inl rfl⟩

end UdpClient

namespace Client

/-- `cur_states` and `try_times` while `send_tcp` runs and before. -/
structure Regular (v : Client) : Prop where
  curStates : v.pc = .idle ∨ v.pc = .sendTcp → v.curStates = .off
  tryTimes : v.pc ≠ .retry → v.tryTimes = 0

variable {o : ByteOrder} {env : ClientEnv} {v v' : Client} {es : List ClientEvent}

/-- Only the connection attempts touch `try_times`, and only the end of an operation leads back to
`idle`. -/
theorem step_rest (h : v.step o env = some (v', es)) (hpc : ¬ v.pc.Setup) :
    v'.tryTimes = v.tryTimes ∧ v'.pc ≠ .sendTcp ∧ v'.pc ≠ .retry ∧
      (v'.pc = .idle → v'.curStates = .off) := by
  cases step_cases h with
  | setup pc => exact absurd pc hpc
  | requestFails pc | request pc =>
    rw [pc] at hpc
    exact absurd trivial hpc
  | ret pc => exact ⟨rfl, nofun, nofun, fun _ => rfl⟩
  | _ => exact ⟨rfl, nofun, nofun, nofun⟩

theorem step_regular (h : v.step o env = some (v', es)) (hv : v.Regular)
    (hr : v.pc = .retry → v.tryTimes < maxTryTimes) : v'.Regular := by
  by_cases hsetup : v.pc.Setup
  · cases hpc : v.pc with
    | sendTcp =>
      rw [step, hpc] at h
      cases h
      rw [if_pos (hv.curStates (.inr hpc))]
      exact ⟨nofun, fun _ => hv.tryTimes (by rw [hpc]; exact nofun)⟩
    | connect =>
      have htry : v.tryTimes = 0 := hv.tryTimes (by rw [hpc]; exact nofun)
      rw [step, hpc] at h
      cases h
      split_ifs
      · exact ⟨nofun, fun _ => htry⟩
      · exact ⟨nofun, fun _ => htry⟩
    | retry =>
      rw [step, hpc] at h
      dsimp only at h
      rw [if_pos (hr hpc)] at h
      split_ifs at h
      · cases h
        exact ⟨nofun, fun hpc' => absurd rfl hpc'⟩
      · cases h
        exact ⟨nofun, fun _ => rfl⟩
    | request =>
      have htry : v.tryTimes = 0 := hv.tryTimes (by rw [hpc]; exact nofun)
      rw [step, hpc] at h
      dsimp only at h
      split_ifs at h <;> cases h
      · exact ⟨nofun, fun _ => htry⟩
      · exact ⟨nofun, fun _ => htry⟩
      · exact ⟨nofun, fun _ => htry⟩
    | _ =>
      rw [hpc] at hsetup
      exact hsetup.elim
  · obtain ⟨htry, hsend, hretry, hidle⟩ := step_rest h hsetup
    have hpc : v.pc ≠ .retry := by
      intro hpc
      rw [hpc] at hsetup
      exact hsetup trivial
    refine ⟨fun hpc' => hidle (hpc'.resolve_right hsend), fun _ => ?_⟩
    rw [htry]
    exact hv.tryTimes hpc

theorem pc_ne_idle (h : v.step o env = some (v', es)) : v.pc ≠ .idle := by
  intro hpc
  rw [step, hpc] at h
  cases h

end Client

namespace ApiClient

variable {o : ByteOrder} {inetPton : CString → Option (BitVec 128)}
  {inetNtop : BitVec 128 → CString} {c c' : ApiClient} {a : ApiAct} {es : List ApiEvent}

/-- Each call is made after the last operation has ended, the negotiation thread included. -/
def Sequential (c : ApiClient) : ApiAct → Prop
  | .discover _ _ _ _ => c.pc = .idle
  | .synchronize _ _ _ => c.pc = .idle
  | _ => True

/-- A discovery does not use up its retries and does not give up its wait, and the attempts to
connect are not used up. -/
def Recovers (c : ApiClient) : ApiAct → Prop
  | .discoverStep env => c.toUdpClient.Recovers env
  | .operate op _ _ => (c.view op).pc = .retry → c.tryTimes < maxTryTimes
  | _ => True

instance (c : ApiClient) : ∀ a, Decidable (c.Sequential a)
  | .discover _ _ _ _ | .synchronize _ _ _ => inferInstanceAs (Decidable (_ = _))
  | .discoverStep _ | .negotiate _ _ _ | .operate _ _ _ => inferInstanceAs (Decidable True)

instance (c : ApiClient) : ∀ a, Decidable (c.Recovers a)
  | .discoverStep _ => inferInstanceAs (Decidable (UdpClient.Recovers _ _))
  | .operate _ _ _ => inferInstanceAs (Decidable (_ → _))
  | .discover _ _ _ _ | .negotiate _ _ _ | .synchronize _ _ _ => inferInstanceAs (Decidable True)

/-- Between operations, and at the start of each, the state is OFF and no try is counted. -/
structure Reusable (c : ApiClient) : Prop where
  between : c.pc = .idle → c.Free → c.curStates = .off ∧ c.tryTimes = 0
  discover : c.discoverPc = .send → c.curStates = .off ∧ c.tryTimes = 0
  sendTcp : ∀ op, (c.view op).pc = .sendTcp → c.curStates = .off ∧ c.tryTimes = 0

/-- One operation runs at a time, and restores the state and the tries. -/
inductive Regular (c : ApiClient) : Prop
  | discover (hnego : c.pc = .idle) (hsync : c.sync.pc = .idle) (h : c.toUdpClient.Regular)
  | negoThread (hfree : c.Free) (h : c.toClient.Regular)
  | synchronize (hnego : c.pc = .idle) (hended : c.discoverPc.ended = true)
      (h : (c.view .synchronize).Regular)

theorem Regular.settled (hc : c.Regular) (hnego : c.pc = .idle) (hfree : c.Free) :
    c.curStates = .off ∧ c.tryTimes = 0 := by
  obtain ⟨hsync, hended⟩ := hfree
  cases hc with
  | discover _ _ h =>
    cases hpc : c.discoverPc with
    | idle | ret =>
      rw [UdpClient.Regular, hpc] at h
      exact h
    | _ =>
      rw [hpc] at hended
      cases hended
  | negoThread _ h =>
    exact ⟨h.curStates (.inl hnego), h.tryTimes (by rw [hnego]; exact nofun)⟩
  | synchronize _ _ h =>
    have hpc : (c.view .synchronize).pc = .idle := hsync
    exact ⟨h.curStates (.inl hpc), h.tryTimes (by rw [hpc]; exact nofun)⟩

theorem Regular.between_ops (hc : c.Regular) : c.Reusable where
  between := hc.settled
  discover hpc := by
    cases hc with
    | discover _ _ h =>
      rw [UdpClient.Regular, hpc] at h
      exact h
    | negoThread hfree _ =>
      have hended := hfree.2
      rw [hpc] at hended
      cases hended
    | synchronize _ hended _ =>
      rw [hpc] at hended
      cases hended
  sendTcp op hpc := by
    have hview : ∀ v : Client, v.Regular → v.pc = .sendTcp →
        v.curStates = .off ∧ v.tryTimes = 0 :=
      fun v hv hpc => ⟨hv.curStates (.inr hpc), hv.tryTimes (by rw [hpc]; exact nofun)⟩
    cases hc with
    | discover hnego hsync _ =>
      cases op with
      | negoThread => cases hnego.symm.trans hpc
      | synchronize => cases hsync.symm.trans hpc
    | negoThread hfree h =>
      cases op with
      | negoThread => exact hview _ h hpc
      | synchronize => cases hfree.1.symm.trans hpc
    | synchronize hnego _ h =>
      cases op with
      | negoThread => cases hnego.symm.trans hpc
      | synchronize => exact hview (c.view .synchronize) h hpc

theorem operate_regular {op : Operation} {env : ClientEnv} {sock : ℤ} (hc : c.Regular)
    (hr : (c.view op).pc = .retry → c.tryTimes < maxTryTimes)
    (h : c.operate o op env sock = some (c', es)) : c'.Regular := by
  obtain ⟨v', ces, hstep, rfl, -⟩ := operate_cases h
  have hidle := Client.pc_ne_idle hstep
  have htry : (c.view op).tryTimes = c.tryTimes := by cases op <;> rfl
  cases op with
  | negoThread =>
    cases hc with
    | discover hnego _ _ => exact absurd hnego hidle
    | synchronize hnego _ _ => exact absurd hnego hidle
    | negoThread hfree h =>
      have hregular : v'.Regular := Client.step_regular hstep h hr
      refine .negoThread ⟨?_, ?_⟩ ?_
      · have hview := view_tcpInit c .negoThread .synchronize sock
        exact (congrArg Client.pc hview).trans hfree.1
      · rw [discoverPc_put, discoverPc_tcpInit]
        exact hfree.2
      · exact hregular
  | synchronize =>
    cases hc with
    | discover _ hsync _ => exact absurd hsync hidle
    | negoThread hfree _ => exact absurd hfree.1 hidle
    | synchronize hnego hended h =>
      have hregular : v'.Regular := Client.step_regular hstep h hr
      refine .synchronize ?_ ?_ ?_
      · have hview := view_tcpInit c .synchronize .negoThread sock
        exact (congrArg Client.pc hview).trans hnego
      · rw [discoverPc_put, discoverPc_tcpInit]
        exact hended
      · rw [view_put]
        exact hregular

theorem discoverStep_regular {env : DiscoverEnv} {u : UdpClient} {ds : List DiscoverEvent}
    (hc : c.Regular) (hr : c.toUdpClient.Recovers env)
    (h : c.toUdpClient.step o inetPton env = some (u, ds)) :
    Regular { c with toUdpClient := u } := by
  have hrun := UdpClient.not_ended h
  cases hc with
  | discover hnego hsync hregular =>
    have hthread := (UdpClient.step_frame h).1
    exact .discover ((congrArg Prod.fst hthread).trans hnego) hsync
      (UdpClient.step_regular h hregular hr)
  | negoThread hfree _ => exact absurd hfree.2 hrun
  | synchronize _ hended _ => exact absurd hended hrun

theorem step_regular (h : c.step o inetPton inetNtop a = some (c', es)) (hc : c.Regular)
    (hseq : c.Sequential a) (hr : c.Recovers a) : c'.Regular := by
  cases step_cases h with
  | discover hfree => exact .discover hseq hfree.1 (hc.settled hseq hfree)
  | discoverStep hstep => exact discoverStep_regular hc hr hstep
  | refuseNegotiate | refuseSynchronize => exact hc
  | noThread hfree hidle _ _ hv | negotiate hfree hidle _ hv =>
    subst hv
    obtain ⟨hcur, htry⟩ := hc.settled hidle hfree
    exact .negoThread hfree ⟨fun _ => hcur, fun _ => htry⟩
  | synchronize hfree _ hv =>
    subst hv
    obtain ⟨-, htry⟩ := hc.settled hseq hfree
    exact .synchronize hseq hfree.2 ⟨fun _ => rfl, fun _ => htry⟩
  | operate _ hes => exact operate_regular hc hr hes

/-- In a run of operations one after the other, none of which uses up its retries or attempts or
gives up a wait, the client is reusable in every state. -/
theorem reusable {last : CharArray maxStringLength} {port : UInt16} {as : List ApiAct}
    (hseq : (machine o inetPton inetNtop).Guarded Sequential (new last port) as)
    (hrecover : (machine o inetPton inetNtop).Guarded Recovers (new last port) as)
    (hrun : (machine o inetPton inetNtop).run (new last port) as = some (c', es)) :
    c'.Reusable := by
  refine Regular.between_ops ?_
  refine EventMachine.run_preserves (I := Regular)
    (fun c a c' es hc hok h => step_regular h hc hok.1 hok.2) ?_
    (EventMachine.guarded_and_iff.2 ⟨hseq, hrecover⟩) hrun
  exact .discover rfl rfl ⟨rfl, rfl⟩

/-- A call of `discover`, and then the given steps of it. -/
def discovery (envs : List DiscoverEnv) : List ApiAct :=
  .discover 3 0 .discoveryMsg (CharArray.zero _) :: envs.map .discoverStep

/-- All retries of a discovery time out. -/
theorem not_reusable :
    ¬ ∃ (inetPton : CString → Option (BitVec 128)) (inetNtop : BitVec 128 → CString),
      ∀ (o : ByteOrder) (last : CharArray maxStringLength) (port : UInt16) (as : List ApiAct)
        (c' : ApiClient) (es : List ApiEvent),
      (machine o inetPton inetNtop).Guarded Sequential (new last port) as →
      (machine o inetPton inetNtop).run (new last port) as = some (c', es) → c'.Reusable := by
  rintro ⟨inetPton, inetNtop, h⟩
  have hsample : ((machine .little inetPton inetNtop).run (new (CharArray.zero _) 0)
      (discovery (List.replicate 15 (UdpClient.withInput .timeout)))).map
      (fun r => (r.1.discoverPc, r.1.pc, r.1.sync.pc, r.1.curStates)) =
      some (.ret .success, .idle, .idle, .ending) := rfl
  obtain ⟨⟨c', es⟩, hrun, hs⟩ := Option.map_eq_some_iff.1 hsample
  simp only [Prod.mk.injEq] at hs
  obtain ⟨hpc, hnego, hsync, hcur⟩ := hs
  have hseq : (machine .little inetPton inetNtop).Guarded Sequential (new (CharArray.zero _) 0)
      (discovery (List.replicate 15 (UdpClient.withInput .timeout))) := by
    refine ⟨rfl, ?_⟩
    apply EventMachine.guarded_of_forall_mem (M := machine .little inetPton inetNtop)
    intro a ha c
    obtain ⟨env, -, rfl⟩ := List.mem_map.1 ha
    trivial
  have hfree : c'.Free := ⟨hsync, by rw [hpc]; rfl⟩
  have hoff := ((h _ _ _ _ c' es hseq hrun).between hnego hfree).1
  cases hcur.symm.trans hoff

/-- A server answers the second DISCOVERY_MSG. -/
theorem reusable_discovery :
    ∃ c' es, (machine .little (fun _ => some 1) fun _ => default).run (new (CharArray.zero _) 0)
        (discovery [UdpClient.withInput .timeout, UdpClient.withInput .timeout,
          UdpClient.withInput .timeout, UdpClient.withInput .timeout,
          UdpClient.answer .responseMsg, UdpClient.withInput .timeout]) = some (c', es) ∧
      c'.discoverPc = .ret .success ∧ c'.Reusable := by
  have hsample : ((machine .little (fun _ => some 1) fun _ => default).run
      (new (CharArray.zero _) 0) (discovery [UdpClient.withInput .timeout,
        UdpClient.withInput .timeout, UdpClient.withInput .timeout, UdpClient.withInput .timeout,
        UdpClient.answer .responseMsg, UdpClient.withInput .timeout])).map
      (fun r => r.1.discoverPc) = some (.ret .success) := by
    decide +kernel
  obtain ⟨⟨c', es⟩, hrun, hpc⟩ := Option.map_eq_some_iff.1 hsample
  exact ⟨c', es, hrun, hpc, reusable (by decide +kernel) (by decide +kernel) hrun⟩

end ApiClient

end Gdnp
