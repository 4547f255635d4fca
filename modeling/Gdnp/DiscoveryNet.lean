import Gdnp.Finds

/-!
# What clients find

In every run of any number of clients and servers on a network that may lose, repeat, delay and
reorder datagrams, every datagram is a DISCOVERY_MSG or the answer of a server to an earlier one,
and what clients learn and use is the address in the name of a server (`discovery_safe`).  While a
client waits in WAIT_RESPONSE and has tries left, it can still find any server that is not blocked,
even when all datagrams so far were lost, by asking once more (`discovery_possible`).
-/

open CMem EventMachine

namespace Gdnp

variable {κ ν : Type*} {o : ByteOrder} {inetPton : CString → Option (BitVec 128)}
  {inetNtop : BitVec 128 → CString} {name : ν → CString} {follows : CString → Prop}

/-! ### Runs of the network -/

namespace DiscoveryNet

variable {s : DiscoveryNet κ ν}

/-- What holds of each node. -/
def Inv (o : ByteOrder) (inetPton : CString → Option (BitVec 128)) (follows : CString → Prop)
    (name : ν → CString) : ∀ i : Node κ ν, List Msg → i.State → Prop
  | .client _, sent, c => ApiClient.Finds o inetPton follows name sent c
  | .server n, _, sm => (ServerMaster.localInterfaces sm)[1]? = some (name n)

theorem keeps (hname : ∀ n, (name n).bytes ≠ [] ∧ (name n).bytes.length < ipStrLen) :
    Keeps (nodes o inetPton inetNtop) (fun i : Node κ ν => i.Follows follows)
      (Inv o inetPton follows name) (Genuine o name) where
  persistent := genuine_persistent
  weaken i sent sent' s hsent h := by
    cases i with
    | client k => exact ApiClient.Finds.mono hsent h
    | server n => exact h
  step i sent s a s' es h hok htakes hstep := by
    cases i with
    | client k =>
      refine ApiClient.step_finds hname (fun env ha => ?_) h (fun m hm => (htakes m hm).2) hstep
      subst ha
      exact hok
    | server n =>
      refine ⟨fun msg hmsg => ?_, ?_⟩
      · obtain ⟨env, d, rfl, hrecv, htype, hd⟩ := ServerMaster.step_responded hstep hmsg
        obtain ⟨-, m, hm, hd'⟩ := recvPdu_eq_ok hrecv
        rw [show (ServerMaster.localInterfaces s)[1]? = some (name n) from h,
          Option.getD_some] at hd
        exact .answer n ⟨m, (htakes m hm).1, d, hd', htype, rfl⟩ hd
      · exact (congrArg (·[1]?) (ServerMaster.step_localInterfaces hstep)).trans h

/-- All datagrams are DISCOVERY_MSGs and the answers of servers to earlier ones, and the clients
know the addresses of servers only.  With port 4444 in `negoAddr`, they negotiate and synchronize
with servers only. -/
structure Safe (o : ByteOrder) (inetPton : CString → Option (BitVec 128))
    (follows : CString → Prop) (name : ν → CString) (s : DiscoveryNet κ ν) : Prop where
  datagrams : Grounded (Genuine o name) s.sent
  learned : ∀ k, (s.client k).negoAddr.addr = broadcastAddr.addr ∨
    LocatedAt inetPton follows name (s.client k).negoAddr.addr
  engaged : ∀ k op, (s.client k).negoAddr.port = 4444 → ((s.client k).view op).pc ≠ .idle →
    LocatedAt inetPton follows name (s.client k).negoAddr.addr

section Runs

variable {last : κ → CharArray maxStringLength} {port : κ → UInt16} {udpSock : ν → ℤ}
  {ifap : ν → List IfAddr} {fds : ν → ℕ → ℤ}

/-- The network when all objects are constructed and the servers are initialised. -/
def boot (last : κ → CharArray maxStringLength) (port : κ → UInt16) (udpSock : ν → ℤ)
    (ifap : ν → List IfAddr) (fds : ν → ℕ → ℤ) : DiscoveryNet κ ν :=
  start (fun k => .new (last k) (port k)) fun n =>
    .start (udpSock n) (ServerMaster.interfaces (ifap n)) (fds n)

theorem boot_inv
    (hname : ∀ n, (ServerMaster.interfaces (ifap n))[1]? = some (name n)) (i : Node κ ν) :
    Inv o inetPton follows name i [] ((boot last port udpSock ifap fds).party i) := by
  cases i with
  | client k =>
    refine ⟨⟨nofun, nofun, nofun⟩, .inl rfl, fun op _ hpc => ?_⟩
    cases op <;> exact absurd rfl hpc
  | server n => exact hname n

variable [DecidableEq κ] [DecidableEq ν] {as : List (Σ i : Node κ ν, i.Act)}
  {es : List (Σ i : Node κ ν, i.Event)}

theorem run_inv
    (hname : ∀ n, (ServerMaster.interfaces (ifap n))[1]? = some (name n) ∧ (name n).bytes ≠ [])
    (hfollows : ∀ a ∈ as, Node.Follows follows a.1 a.2)
    (hrun : (machine o inetPton inetNtop).run (boot last port udpSock ifap fds) as =
      some (s, es)) :
    (∀ i, Inv o inetPton follows name i s.sent (s.party i)) ∧
      Grounded (Genuine o name) s.sent := by
  have hlen : ∀ n, (name n).bytes ≠ [] ∧ (name n).bytes.length < ipStrLen := fun n =>
    ⟨(hname n).2, ServerMaster.length_lt_of_mem_interfaces (List.mem_of_getElem? (hname n).1)⟩
  exact (keeps hlen).run (boot_inv fun n => (hname n).1) grounded_nil hfollows hrun

/-- In every run of clients and servers, whatever is lost, repeated or reordered, every datagram is
a DISCOVERY_MSG or the answer of a server to an earlier one, and all that clients learn and use are
addresses of servers. -/
theorem discovery_safe
    (hname : ∀ n, (ServerMaster.interfaces (ifap n))[1]? = some (name n) ∧ (name n).bytes ≠ [])
    (hfollows : ∀ a ∈ as, Node.Follows follows a.1 a.2)
    (hrun : (machine o inetPton inetNtop).run (boot last port udpSock ifap fds) as =
      some (s, es)) :
    s.Safe o inetPton follows name := by
  obtain ⟨hinv, hsent⟩ := run_inv hname hfollows hrun
  have hclient : ∀ k, (s.client k).Finds o inetPton follows name s.sent := fun k =>
    hinv (.client k)
  exact ⟨hsent, fun k => (hclient k).learned, fun k => (hclient k).engaged⟩

/-- A step of a server in the network. -/
theorem server_step {n : ν} {env : LoopEnv} {sm : ServerMaster} {ds : List MasterEvent}
    (h : (s.server n).iterate o env = some (sm, ds)) (hmsg : ∀ msg ∈ env.datagram, msg ∈ s.sent) :
    ∃ s' es, (machine o inetPton inetNtop).step s ⟨.server n, .iterate env⟩ = some (s', es) ∧
      (∀ k, s'.client k = s.client k) ∧
      s'.sent = s.sent ++ ds.filterMap MasterEvent.responded? := by
  refine ⟨_, _, network_step_iff.2 ⟨hmsg, sm, ds, h, rfl, rfl⟩, fun k => ?_, rfl⟩
  have hk : (Node.client k : Node κ ν) ≠ .server n := nofun
  exact Function.update_of_ne hk sm s.party

/-- A step of a discovery in the network. -/
theorem client_step {k : κ} {env : DiscoverEnv} {u : UdpClient} {ds : List DiscoverEvent}
    (h : (s.client k).toUdpClient.step o inetPton env = some (u, ds))
    (hmsg : ∀ msg ∈ env.select.datagram?, msg ∈ s.sent) :
    ∃ s' es, (machine o inetPton inetNtop).step s ⟨.client k, .discoverStep env⟩ = some (s', es) ∧
      (s'.client k).toUdpClient = u ∧ (∀ n, s'.server n = s.server n) ∧
      s'.sent = s.sent ++ ds.filterMap DiscoverEvent.sentMsg? := by
  have hstep : (s.client k).step o inetPton inetNtop (.discoverStep env) =
      some ({ s.client k with toUdpClient := u }, ds.map .discovery) := by
    rw [ApiClient.step, h]
    rfl
  refine ⟨_, _, network_step_iff.2 ⟨hmsg, _, _, hstep, rfl, rfl⟩, ?_, fun n => ?_, ?_⟩
  · have hself : Function.update s.party (.client k)
        ({ s.client k with toUdpClient := u } : ApiClient) (.client k) =
          { s.client k with toUdpClient := u } := Function.update_self ..
    exact congrArg ApiClient.toUdpClient hself
  · have hn : (Node.server n : Node κ ν) ≠ .client k := by simp
    exact Function.update_of_ne hn
      (show Node.State (.client k) from { s.client k with toUdpClient := u }) s.party
  · show _ ++ (ds.map ApiEvent.discovery).filterMap ApiEvent.sentMsg? = _
    rw [List.filterMap_map]
    rfl

/-- A client that waits for an answer can ask again as long as it has tries left. -/
theorem resend_possible {k : κ} {sessionId : UInt32}
    (hc : (s.client k).toUdpClient.Waits sessionId) (hid : sessionId.toNat ≤ maxSessionId)
    (htries : (s.client k).tryTimes < maxTryTimes) :
    ∃ bs s' es, (machine o inetPton inetNtop).run s bs = some (s', es) ∧
      (s'.client k).toUdpClient.Waits sessionId ∧ (s'.client k).negoAddr = (s.client k).negoAddr ∧
      (∀ n, s'.server n = s.server n) ∧ ∃ msg ∈ s'.sent, ∃ d, decode (some msg) = .ok d ∧
        d.type = .discoveryMsg ∧ d.sessionId = sessionId := by
  obtain ⟨hsock, hsession, hcur, hpc⟩ := hc
  subst hsession
  obtain ⟨s₁, es₁, hstep₁, hu₁, hserver₁, hsent₁⟩ :=
    @client_step _ _ o inetPton inetNtop s _ _ k _ _ _
      (UdpClient.step_timeout (c := (s.client k).toUdpClient) o inetPton hpc hcur) nofun
  obtain ⟨msg, hresend, hmsg⟩ := UdpClient.resend_sends (c := (s.client k).toUdpClient) o inetPton
    hcur htries hsock ⟨UdpClient.length_textAt_le _, hid⟩
  rw [← hu₁] at hresend
  obtain ⟨s₂, es₂, hstep₂, hu₂, hserver₂, hsent₂⟩ :=
    @client_step _ _ o inetPton inetNtop s₁ _ _ k _ _ _ hresend nofun
  refine ⟨[_, _], s₂, es₁ ++ es₂, run_cons_iff.2 ⟨s₁, es₁, es₂, hstep₁, run_singleton_iff.2 hstep₂,
    rfl⟩, ?_, ?_, fun n => (hserver₂ n).trans (hserver₁ n), msg, ?_, _, hmsg, rfl, rfl⟩
  · rw [hu₂]
    exact ⟨hsock, rfl, hcur, rfl⟩
  · show (s₂.client k).toUdpClient.negoAddr = _
    rw [hu₂]
  · simp [hsent₂, DiscoverEvent.sentMsg?]

/-- A client whose DISCOVERY_MSG is on the medium can get the address of a server that is not
blocked. -/
theorem answer_possible {k : κ} {n : ν} {msg : Msg} {d : Decoded}
    (hc : (s.client k).toUdpClient.Waits d.sessionId) (hmsg : msg ∈ s.sent)
    (hd : decode (some msg) = .ok d) (htype : d.type = .discoveryMsg)
    (hserver : (s.server n).localInterfaces[1]? = some (name n)) (hne : (name n).bytes ≠ [])
    (hlen : (name n).bytes.length < ipStrLen) (hsock : 0 ≤ (s.server n).udpSock)
    (hlock : (s.server n).fdsetLock = false) (env : DiscoverEnv) :
    ∃ bs s' es', (machine o inetPton inetNtop).run s bs = some (s', es') ∧
      (s'.client k).discoverPc = .ret .success ∧
      (s'.client k).negoAddr.addr =
        (inetPton (textAt (name n).bytes env.behind)).getD (s.client k).negoAddr.addr := by
  obtain ⟨lenv, sm, les, answer, hdatagram, hserve, hputs, hanswer⟩ :=
    ServerMaster.answers (o := o) hd htype hserver hlen hsock hlock
  obtain ⟨u₁, ds₁, hfirst, hpc₁, htype₁, hmessage₁, haddr₁⟩ :=
    @step_recvLocator o inetPton _ env _ _ _ hc hanswer
  obtain ⟨u₂, ds₂, hsecond, hpc₂, haddr₂⟩ :=
    @step_storesLocator o inetPton _ { env with select := .timeout } _ hpc₁ htype₁ hmessage₁ hlen
      hne
  -- The server answers, and the client receives the answer and stores the address in it.
  obtain ⟨s₁, es₁, hstep₁, hclients, hsent⟩ :=
    @server_step _ _ o inetPton inetNtop s _ _ n lenv sm les hserve
      (by simpa [hdatagram] using hmsg)
  rw [← hclients k] at hfirst
  obtain ⟨s₂, es₂, hstep₂, hu₁, -⟩ := @client_step _ _ o inetPton inetNtop s₁ _ _ k _ u₁ ds₁ hfirst
    (by simp [SelectEnv.datagram?, hsent, hputs])
  rw [← hu₁] at hsecond
  obtain ⟨s₃, es₃, hstep₃, hu₂, -⟩ :=
    @client_step _ _ o inetPton inetNtop s₂ _ _ k _ u₂ ds₂ hsecond nofun
  refine ⟨[_, _, _], s₃, es₁ ++ (es₂ ++ (es₃ ++ [])), run_cons_iff.2 ⟨s₁, es₁, _, hstep₁,
    run_cons_iff.2 ⟨s₂, es₂, _, hstep₂, run_cons_iff.2 ⟨s₃, es₃, [], hstep₃, rfl, rfl⟩, rfl⟩,
    rfl⟩, ?_, ?_⟩
  · show (s₃.client k).toUdpClient.discoverPc = _
    rw [hu₂, hpc₂]
  · show (s₃.client k).toUdpClient.negoAddr.addr = _
    rw [hu₂, haddr₂, haddr₁]

/-- From every state that the network can reach, whatever datagrams were lost, a client that waits
in WAIT_RESPONSE and has tries left can still get the address of any server that is not blocked. -/
theorem discovery_possible {ls : List (LossyAct (Σ i : Node κ ν, i.Act) Msg)}
    (hname : ∀ n, (ServerMaster.interfaces (ifap n))[1]? = some (name n) ∧ (name n).bytes ≠ [])
    (hrun : (lossyMachine o inetPton inetNtop).run (boot last port udpSock ifap fds) ls =
      some (s, es))
    {k : κ} (hpc : (s.client k).discoverPc = .recvInWaitResponse)
    (hcur : (s.client k).curStates = .waitResponse)
    (htries : (s.client k).tryTimes < maxTryTimes) {n : ν} (hsock : 0 ≤ (s.server n).udpSock)
    (hlock : (s.server n).fdsetLock = false) (env : DiscoverEnv) :
    ∃ bs s' es', (lossyMachine o inetPton inetNtop).run s bs = some (s', es') ∧
      (s'.client k).discoverPc = .ret .success ∧
      (s'.client k).negoAddr.addr =
        (inetPton (textAt (name n).bytes env.behind)).getD (s.client k).negoAddr.addr := by
  -- The invariants are those of the network on which nothing is lost.
  obtain ⟨as, sent, hnet⟩ := lossy_run hrun
  have hfollows : ∀ a ∈ as, Node.Follows (fun _ => True) a.1 a.2 := fun a _ =>
    Node.follows_true a.1 a.2
  obtain ⟨hinv, -⟩ := run_inv hname hfollows hnet
  have hclient : (s.client k).Finds o inetPton (fun _ => True) name sent := hinv (.client k)
  have hserver : (s.server n).localInterfaces[1]? = some (name n) := hinv (.server n)
  have hlen : (name n).bytes.length < ipStrLen :=
    ServerMaster.length_lt_of_mem_interfaces (List.mem_of_getElem? (hname n).1)
  obtain ⟨hudp, hasked⟩ := hclient.discovers.asked (by rw [hpc]; rfl)
  obtain ⟨bs₁, s₁, es₁, hrun₁, hwaits, haddr, hservers, msg, hmsg, d, hd, htype, hid⟩ :=
    @resend_possible _ _ o inetPton inetNtop s _ _ k _ ⟨hudp, rfl, hcur, hpc⟩ hasked.sessionId_le
      htries
  rw [← hid] at hwaits
  rw [← hservers n] at hserver hsock hlock
  obtain ⟨bs₂, s₂, es₂, hrun₂, hpc₂, haddr₂⟩ :=
    @answer_possible _ _ _ _ inetNtop _ _ _ _ _ _ _ _ hwaits hmsg hd htype hserver (hname n).2 hlen
      hsock hlock env
  refine ⟨(bs₁ ++ bs₂).map .act, s₂, es₁ ++ es₂, ?_, hpc₂, ?_⟩
  · exact (lossy_run_map_act s _).trans (run_append_iff.2 ⟨s₁, es₁, es₂, hrun₁, hrun₂, rfl⟩)
  · rw [haddr₂, haddr]

end Runs

/-! ### A sample network -/

/-- A client and a server with the addresses `::1` and `::2`. -/
def pair : DiscoveryNet Unit Unit :=
  boot (fun _ => CharArray.zero _) (fun _ => 4444) (fun _ => 3)
    (fun _ => [loopbackAddr, secondAddr]) fun _ _ => 0

/-- The client sends a DISCOVERY_MSG in session 7. -/
def asking : List (Σ i : Node Unit Unit, i.Act) :=
  [⟨.client (), .discover 5 7 .discoveryMsg (CharArray.zero _)⟩,
    ⟨.client (), .discoverStep (UdpClient.withInput .timeout)⟩,
    ⟨.client (), .discoverStep (UdpClient.withInput .timeout)⟩]

/-- The server answers, and the client learns its address. -/
def learning : List (Σ i : Node Unit Unit, i.Act) :=
  [⟨.server (), .iterate (datagramEnv (writePdu [5] .discoveryMsg 7 ⟨.success, 0⟩).2)⟩,
    ⟨.client (), .discoverStep (UdpClient.withInput (.ready
      (writePdu ((locatorOption secondText).toBits .little) .responseMsg 7 ⟨.success, 0⟩).2))⟩,
    ⟨.client (), .discoverStep (UdpClient.withInput .timeout)⟩]

/-- The addresses have no zone, so that no name is empty. -/
theorem pair_name : ∀ _ : Unit, (ServerMaster.interfaces [loopbackAddr, secondAddr])[1]? =
    some secondText ∧ secondText.bytes ≠ [] := fun _ => ⟨rfl, by decide⟩

/-- The client is at `::2`, whatever was sent behind its name is empty. -/
theorem discovery_safe_learning :
    ∃ s es, (machine .little ptonSample fun _ => default).run pair (asking ++ learning) =
        some (s, es) ∧
      (s.client ()).negoAddr.addr = 2 ∧
      s.Safe .little ptonSample (· = default) fun _ => secondText := by
  have hsample : ((machine .little ptonSample fun _ => default).run pair
      (asking ++ learning)).map (fun r => (r.1.client ()).negoAddr.addr) = some 2 := by
    decide +kernel
  obtain ⟨⟨s, es⟩, hrun, haddr⟩ := Option.map_eq_some_iff.1 hsample
  refine ⟨s, es, hrun, haddr, discovery_safe pair_name ?_ hrun⟩
  simp [asking, learning, Node.Follows, UdpClient.withInput]

/-- The client asks, and its DISCOVERY_MSG is lost. -/
def unheard : List (LossyAct (Σ i : Node Unit Unit, i.Act) Msg) :=
  asking.map .act ++
    ((writePdu [5] .discoveryMsg 7 ⟨.success, 0⟩).2.map .lose).toList

theorem discovery_possible_unheard :
    ∃ s es bs s' es', (lossyMachine .little ptonSample fun _ => default).run pair unheard =
        some (s, es) ∧ s.sent = [] ∧
      (lossyMachine .little ptonSample fun _ => default).run s bs = some (s', es') ∧
      (s'.client ()).discoverPc = .ret .success ∧ (s'.client ()).negoAddr.addr = 2 := by
  have hsample : ((lossyMachine .little ptonSample fun _ => default).run pair unheard).map
      (fun r => ((r.1.client ()).discoverPc, (r.1.client ()).curStates, (r.1.client ()).tryTimes,
        (r.1.server ()).udpSock, (r.1.server ()).fdsetLock, r.1.sent.length)) =
        some (.recvInWaitResponse, .waitResponse, 0, 3, false, 0) := by
    decide +kernel
  obtain ⟨⟨s, es⟩, hrun, heq⟩ := Option.map_eq_some_iff.1 hsample
  simp only [Prod.mk.injEq] at heq
  obtain ⟨hpc, hcur, htries, hsock, hlock, hlost⟩ := heq
  obtain ⟨bs, s', es', hrun', hpc', haddr⟩ := discovery_possible pair_name hrun hpc hcur
    (by rw [htries]; decide) (n := ()) (by rw [hsock]; decide) hlock (UdpClient.withInput .timeout)
  exact ⟨s, es, bs, s', es', hrun, List.eq_nil_of_length_eq_zero hlost, hrun', hpc', haddr⟩

end DiscoveryNet

end Gdnp
