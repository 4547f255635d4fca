import Gdnp.DiscoverResult
import Gdnp.Server

/-!
# The answer to a discovery

`ServerMaster::run` answers a DISCOVERY_MSG with the second entry of `local_interfaces`, whether or
not there is one, and the client reads the text of the Locator past the end of its value.  So a
discovery is answered as it should be exactly when the server has two addresses, its `sendto`
succeeds and what the client reads is the same address (`discovery_answered_iff`).
-/

open CMem

namespace Gdnp

/-- `IP_str_len`. -/
def ipStrLen : ℕ := 46

/-- An entry of the list of `getifaddrs`: whether it is an IPv6 address, and what `getnameinfo`
leaves in `host` when it succeeds. -/
structure IfAddr where
  inet6 : Bool
  host : Option CString
  fits : ∀ t ∈ host, t.bytes.length < ipStrLen

/-- `host` up to the `%` before a scope. -/
def IfAddr.address (host : CString) : CString where
  bytes := host.bytes.takeWhile (· ≠ 37)
  zero_notMem := fun h => host.zero_notMem ((List.takeWhile_sublist _).subset h)

namespace ServerMaster

/-- The loop of the constructor. -/
def interfaces (ifap : List IfAddr) : List CString :=
  ifap.filterMap fun ifa => if ifa.inet6 then ifa.host.map IfAddr.address else none

theorem length_lt_of_mem_interfaces {ifap : List IfAddr} {t : CString}
    (h : t ∈ interfaces ifap) : t.bytes.length < ipStrLen := by
  obtain ⟨ifa, -, hifa⟩ := List.mem_filterMap.1 h
  rw [Option.ite_none_right_eq_some] at hifa
  obtain ⟨host, hhost, rfl⟩ := Option.map_eq_some_iff.1 hifa.2
  exact lt_of_le_of_lt (List.takeWhile_sublist _).length_le (ifa.fits host hhost)

/-- The positions of `local_interfaces` that an iteration reads on a datagram. -/
def interfaceReads (sm : ServerMaster) (env : LoopEnv) : List ℕ :=
  match recvPdu sm.udpSock env.datagram with
  | .error _ => []
  | .ok d => if d.type = .discoveryMsg then [1] else []

end ServerMaster

/-- The message that is sent in answer to a discovery. -/
def MasterEvent.responded? : MasterEvent → Option Msg
  | responded _ msg => some msg
  | _ => none

/-- A RESPONSE_MSG with a Locator that has the given value. -/
def Msg.Locates (o : ByteOrder) (msg : Msg) (sessionId : UInt32) (value : List UInt8) : Prop :=
  ∃ d, decode (some msg) = .ok d ∧ d.type = .responseMsg ∧ d.sessionId = sessionId ∧
    OptionType.ofCode (word o (d.data.mem fun _ => 0) 0).toNat = some .locator ∧
    (d.data.mem fun _ => 0).read GdnpOption.lenExceptValue
      (word o (d.data.mem fun _ => 0) 1).toNat = value

namespace UdpClient

/-- The client waits in WAIT_RESPONSE for a message with the given session id. -/
structure Waits (c : UdpClient) (sessionId : UInt32) : Prop where
  udpSock : 0 ≤ c.udpSock
  sessionId : c.sessionId = sessionId
  curStates : c.curStates = .waitResponse
  discoverPc : c.discoverPc = .recvInWaitResponse

/-- `discover` ends with the address in `negoAddr` after the client received the message. -/
def Learns (o : ByteOrder) (inetPton : CString → Option (BitVec 128)) (c : UdpClient)
    (env env' : DiscoverEnv) (msg : Msg) (addr : BitVec 128) : Prop :=
  ∃ c' es rtnval, (machine o inetPton).run c [{ env with select := .ready (some msg) }, env'] =
    some (c', es) ∧ c'.discoverPc = .ret rtnval ∧ c'.negoAddr.addr = addr

end UdpClient

/-- Only existing entries of the list are read and, if there are any, the discovery gets one answer,
with a listed address that the client then has. -/
structure DiscoveryAnswered (o : ByteOrder) (inetPton : CString → Option (BitVec 128))
    (addresses : List CString) (sessionId : UInt32) (positions : List ℕ) (es : List MasterEvent)
    (c : UdpClient) (env env' : DiscoverEnv) : Prop where
  reads : ∀ i ∈ positions, i < addresses.length
  answer : addresses ≠ [] → ∃ msg t addr, es.filterMap MasterEvent.responded? = [msg] ∧
    t ∈ addresses ∧ msg.Locates o sessionId t.bytes ∧ inetPton t = some addr ∧
    c.Learns o inetPton env env' msg addr

/-! ### The Locator in the buffer of the client -/

section Locator

/-- The data of a message that carries a Locator. -/
def locatorData (o : ByteOrder) (t : CString) : CharArray maxStringLength :=
  (CharArray.zero _).memcpy ((locatorOption t).toBits o)

variable {o : ByteOrder} {t : CString}

theorem len_locatorOption (hlen : t.bytes.length < ipStrLen) :
    (locatorOption t).len.toNat = t.bytes.length ∧ (locatorOption t).valueBytes = t.bytes := by
  have hnat : (locatorOption t).len.toNat = t.bytes.length := by
    show (UInt16.ofNat t.bytes.length).toNat = _
    unfold ipStrLen at hlen
    rw [UInt16.toNat_ofNat', Nat.mod_eq_of_lt (by omega)]
  refine ⟨hnat, ?_⟩
  show t.bytes.take _ = _
  rw [List.take_of_length_le hnat.ge]

/-- What the fields of a Locator read as, whatever is behind the buffer. -/
theorem read_locator (hlen : t.bytes.length < ipStrLen) (after : Mem) :
    (∀ uninit, parseType o ((locatorData o t).mem after) uninit = .locator) ∧
      (word o ((locatorData o t).mem after) 1).toNat = t.bytes.length ∧
      ((locatorData o t).mem after).read GdnpOption.lenExceptValue t.bytes.length = t.bytes := by
  obtain ⟨hnat, hbytes⟩ := len_locatorOption hlen
  obtain ⟨-, hword, hvalue⟩ := (locatorOption t).read_toBits o (fun _ => 0) .divert
  obtain ⟨htype, -, -⟩ := (locatorOption t).fields_toBits o fun _ => 0
  have hbits := (locatorOption t).length_toBits o
  rw [hnat] at hbits hvalue
  have hread : ∀ i k, i + k ≤ t.bytes.length + GdnpOption.lenExceptValue →
      ((locatorData o t).mem after).read i k =
        (memOf ((locatorOption t).toBits o) fun _ => 0).read i k := by
    intro i k hik
    apply (CharArray.zero _).read_memcpy
    · rw [hbits]
      exact hik
    · unfold ipStrLen at hlen
      unfold GdnpOption.lenExceptValue at hik
      unfold maxStringLength
      omega
  refine ⟨fun uninit => parseType_of_read o ?_ uninit, ?_, ?_⟩
  · rw [hread 0 2 (by unfold GdnpOption.lenExceptValue; omega)]
    exact htype
  · rw [word_congr o (hread (2 * 1) 2 (by unfold GdnpOption.lenExceptValue; omega)), hword, hnat]
  · rw [hread _ _ (by omega), hvalue, hbytes]

theorem parseBits_locator (hlen : t.bytes.length < ipStrLen) (hne : t.bytes ≠ []) (after : Mem)
    (uninit : OptionType) :
    (GdnpOption.parseBits o ((locatorData o t).mem after) uninit).type = .locator ∧
      (GdnpOption.parseBits o ((locatorData o t).mem after) uninit).value = some t.bytes := by
  obtain ⟨htype, hword, hread⟩ := read_locator (o := o) hlen after
  refine ⟨htype uninit, ?_⟩
  have hcopy := copyValue_getD_eq_iff ((locatorData o t).mem after)
    GdnpOption.lenExceptValue (word o ((locatorData o t).mem after) 1)
  rw [hword, hread] at hcopy
  have hpairwise : t.bytes.Pairwise fun a b => a = 0 → b = 0 := by
    apply List.pairwise_of_forall_mem_list
    intro b hb _ _ h0
    exact absurd (h0 ▸ hb) t.zero_notMem
  have hvalue := hcopy.2 hpairwise
  show copyValue _ _ _ = _
  cases hsome : copyValue _ _ _ with
  | none =>
    rw [hsome] at hvalue
    exact absurd hvalue.symm hne
  | some v =>
    rw [hsome] at hvalue
    exact congrArg some hvalue

end Locator

/-! ### What the client makes of it -/

section Learns

variable {o : ByteOrder} {inetPton : CString → Option (BitVec 128)} {c : UdpClient}
  {env env' : DiscoverEnv} {msg : Msg} {sessionId : UInt32} {t : CString} {addr : BitVec 128}

/-- The wait ends with the Locator in `buffer`. -/
theorem step_recvLocator (hc : c.Waits sessionId)
    (hmsg : decode (some msg) =
      .ok ⟨.responseMsg, sessionId, locatorData o t, maxStringLength + 1⟩) :
    ∃ c' es, c.step o inetPton { env with select := .ready (some msg) } = some (c', es) ∧
      c'.discoverPc = .received .success ∧ c'.type = .responseMsg ∧
      c'.message = locatorData o t ∧ c'.negoAddr = c.negoAddr := by
  have hrecv : c.recvInTime { env with select := .ready (some msg) } =
      ({ c with type := .responseMsg, message := locatorData o t }, .success,
        [.received .responseMsg (locatorData o t)]) := by
    unfold UdpClient.recvInTime
    dsimp only
    rw [recvPdu, if_neg (not_lt.2 hc.udpSock), hmsg]
    dsimp only
    rw [if_neg (not_not.2 hc.sessionId.symm)]
  rw [UdpClient.step, hc.discoverPc]
  dsimp only
  unfold UdpClient.recvInWaitResponse
  rw [hrecv]
  exact ⟨_, _, rfl, rfl, rfl, rfl, rfl⟩

/-- `discover` stores the address of the text it reads, if this has one. -/
theorem step_storesLocator (hpc : c.discoverPc = .received .success)
    (htype : c.type = .responseMsg) (hmessage : c.message = locatorData o t)
    (hlen : t.bytes.length < ipStrLen) (hne : t.bytes ≠ []) :
    ∃ c' es, c.step o inetPton env' = some (c', es) ∧ c'.discoverPc = .ret .success ∧
      c'.negoAddr.addr = (inetPton (textAt t.bytes env'.behind)).getD c.negoAddr.addr := by
  obtain ⟨hlocator, hvalue⟩ := parseBits_locator (o := o) hlen hne env'.after env'.uninit
  have htext : (GdnpOption.parseBits o ((locatorData o t).mem env'.after)
      env'.uninit).valueText env'.behind = textAt t.bytes env'.behind := by
    rw [GdnpOption.valueText, hvalue]
  rw [UdpClient.step, hpc]
  dsimp only
  unfold UdpClient.finish
  dsimp only
  rw [if_pos rfl, if_pos htype, hmessage, if_pos hlocator, htext]
  exact ⟨_, _, rfl, rfl, rfl⟩

/-- The client ends with the address of the text it reads, if this has one. -/
theorem learns_iff (hc : c.Waits sessionId)
    (hmsg : decode (some msg) =
      .ok ⟨.responseMsg, sessionId, locatorData o t, maxStringLength + 1⟩)
    (hlen : t.bytes.length < ipStrLen) (hne : t.bytes ≠ []) :
    c.Learns o inetPton env env' msg addr ↔
      (inetPton (textAt t.bytes env'.behind)).getD c.negoAddr.addr = addr := by
  obtain ⟨c₁, es₁, hfirst, hpc₁, htype, hmessage, haddr⟩ :=
    @step_recvLocator _ inetPton _ env _ _ _ hc hmsg
  obtain ⟨c₂, es₂, hsecond, hpc₂, haddr₂⟩ :=
    @step_storesLocator _ inetPton _ env' _ hpc₁ htype hmessage hlen hne
  have hrun : (UdpClient.machine o inetPton).run c
      [{ env with select := .ready (some msg) }, env'] = some (c₂, es₁ ++ es₂) :=
    EventMachine.run_cons_iff.2 ⟨c₁, es₁, es₂, hfirst, EventMachine.run_singleton_iff.2 hsecond,
      rfl⟩
  rw [← haddr, ← haddr₂]
  constructor
  · rintro ⟨c', es, rtnval, hrun', -, haddr'⟩
    rw [hrun] at hrun'
    cases hrun'
    exact haddr'
  · intro h
    exact ⟨c₂, _, _, hrun, hpc₂, h⟩

end Learns

/-! ### What the server sends -/

namespace ServerMaster

variable {o : ByteOrder} {sm sm' : ServerMaster} {env : LoopEnv} {es : List MasterEvent}
  {d : Decoded}

/-- An iteration in which a datagram is received handles it. -/
theorem iterate_received (h : sm.iterate o env = some (sm', es))
    (hd : .received sm.udpSock (.ok d) ∈ es) :
    es = sm.recvDiscovery o env ∧ recvPdu sm.udpSock env.datagram = .ok d := by
  have hevents : es = sm.recvDiscovery o env := by
    obtain ⟨-, ready, -, -, heq⟩ | ⟨-, rfl, -⟩ := iterate_inv h
    · unfold dispatch at heq
      split_ifs at heq with hudp hlisten htcp
      · cases heq
        rfl
      · unfold acceptClient at heq
        split_ifs at heq <;> cases heq <;> simp at hd
      · unfold readClient at heq
        dsimp only at heq
        split at heq <;> cases heq
        · simp at hd
        · unfold distribute at hd
          split at hd <;> split_ifs at hd <;> simp at hd
      · cases heq
        simp at hd
    · simp at hd
  refine ⟨hevents, ?_⟩
  rw [hevents] at hd
  unfold recvDiscovery at hd
  rcases List.mem_cons.1 hd with hd | hd
  · exact (MasterEvent.received.inj hd).2.symm
  · split at hd
    · simp at hd
    · split_ifs at hd <;> simp at hd

/-- The answers to a DISCOVERY_MSG. -/
theorem responded_recvDiscovery (hrecv : recvPdu sm.udpSock env.datagram = .ok d)
    (htype : d.type = .discoveryMsg) :
    sm.interfaceReads env = [1] ∧
      (sm.recvDiscovery o env).filterMap MasterEvent.responded? =
        (writePdu ((locatorOption (sm.localInterfaces[1]?.getD env.outside)).toBits o)
          .responseMsg d.sessionId env.send).2.toList := by
  have hsock : ¬ sm.udpSock < 0 := by
    intro hlt
    unfold recvPdu at hrecv
    rw [if_pos hlt] at hrecv
    cases hrecv
  constructor
  · rw [interfaceReads, hrecv]
    exact if_pos htype
  · unfold recvDiscovery
    rw [hrecv]
    dsimp only
    rw [if_pos htype, sendPdu, if_neg hsock]
    cases (writePdu _ _ _ _).2 <;> rfl

end ServerMaster

section Answer

variable {o : ByteOrder} {inetPton : CString → Option (BitVec 128)} {ifap : List IfAddr}
  {sm sm' : ServerMaster} {env : LoopEnv} {es : List MasterEvent} {d : Decoded} {c : UdpClient}
  {env₁ env₂ : DiscoverEnv} {t : CString}

theorem bytes_ne_nil (hempty : inetPton default = none) (ht : (inetPton t).isSome) :
    t.bytes ≠ [] := by
  intro hnil
  obtain rfl : t = default := by
    cases t
    subst hnil
    rfl
  rw [hempty] at ht
  cases ht

/-- The session id of a received message fits into its answer. -/
theorem sessionId_le_of_recvPdu {sock : ℤ} {pdu : Option Msg} (h : recvPdu sock pdu = .ok d) :
    d.sessionId.toNat ≤ maxSessionId := by
  unfold recvPdu at h
  split_ifs at h
  cases pdu with
  | none => cases h
  | some msg =>
    obtain ⟨hcode, hid, -, -⟩ := decode_eq_ok_iff.1 h
    rw [hid]
    exact (header_join hcode).1

theorem writable_locator {sessionId : UInt32} (hlen : t.bytes.length < ipStrLen)
    (hid : sessionId.toNat ≤ maxSessionId) :
    Writable ((locatorOption t).toBits o) sessionId := by
  refine ⟨?_, hid⟩
  rw [GdnpOption.length_toBits, (len_locatorOption hlen).1]
  unfold ipStrLen at hlen
  unfold GdnpOption.lenExceptValue maxStringLength
  omega

/-- The answer with a Locator, as the client decodes it. -/
theorem decode_locator {sessionId : UInt32} {w : WriteEnv} {msg : Msg}
    (hmsg : (writePdu ((locatorOption t).toBits o) .responseMsg sessionId w).2 = some msg) :
    decode (some msg) = .ok ⟨.responseMsg, sessionId, locatorData o t, maxStringLength + 1⟩ :=
  (decode_of_writePdu hmsg).2

theorem locates_iff {sessionId : UInt32} {msg : Msg} {value : List UInt8}
    (hmsg : decode (some msg) =
      .ok ⟨.responseMsg, sessionId, locatorData o t, maxStringLength + 1⟩)
    (hlen : t.bytes.length < ipStrLen) :
    msg.Locates o sessionId value ↔ value = t.bytes := by
  obtain ⟨htype, hword, hread⟩ := read_locator (o := o) hlen fun _ => 0
  constructor
  · rintro ⟨d, hd, -, -, -, rfl⟩
    rw [hmsg] at hd
    cases hd
    rw [hword, hread]
  · rintro rfl
    refine ⟨_, hmsg, rfl, rfl, ?_, by rw [hword, hread]⟩
    rw [OptionType.ofCode_eq_some_iff, ← parseType_forall_iff]
    exact htype

/-- An answer names its own address alone, and the client learns the address of the text it
reads. -/
theorem answer_iff {sessionId : UInt32} {w : WriteEnv} {msg : Msg} {t' : CString}
    {addr : BitVec 128} (hc : c.Waits sessionId)
    (hmsg : (writePdu ((locatorOption t).toBits o) .responseMsg sessionId w).2 = some msg)
    (hlen : t.bytes.length < ipStrLen) (hne : t.bytes ≠ []) :
    msg.Locates o sessionId t'.bytes ∧ inetPton t' = some addr ∧
        c.Learns o inetPton env₁ env₂ msg addr ↔
      t' = t ∧ inetPton t = some addr ∧
        (inetPton (textAt t.bytes env₂.behind)).getD c.negoAddr.addr = addr := by
  have hdecode := decode_locator hmsg
  have htext : t'.bytes = t.bytes ↔ t' = t := by
    cases t
    cases t'
    simp
  rw [locates_iff hdecode hlen, learns_iff hc hdecode hlen hne, htext]
  constructor
  · rintro ⟨rfl, haddr, hlearns⟩
    exact ⟨rfl, haddr, hlearns⟩
  · rintro ⟨rfl, haddr, hlearns⟩
    exact ⟨rfl, haddr, hlearns⟩

/-- The entries of a list that the constructor built. -/
theorem listed_entry (hempty : inetPton default = none)
    (hvalid : ∀ t ∈ ServerMaster.interfaces ifap, (inetPton t).isSome) {i : ℕ}
    (ht : (ServerMaster.interfaces ifap)[i]? = some t) :
    t ∈ ServerMaster.interfaces ifap ∧ t.bytes.length < ipStrLen ∧ t.bytes ≠ [] := by
  have hmem := List.mem_of_getElem? ht
  exact ⟨hmem, ServerMaster.length_lt_of_mem_interfaces hmem, bytes_ne_nil hempty (hvalid t hmem)⟩

/-- A discovery is answered as it should be exactly when there are two addresses, `sendto` succeeds,
and the text that the client reads has the address of the second one, or none while `negoAddr` is
this address already. -/
theorem discovery_answered_iff (hempty : inetPton default = none)
    (hvalid : ∀ t ∈ ServerMaster.interfaces ifap, (inetPton t).isSome)
    (hlist : sm.localInterfaces = ServerMaster.interfaces ifap)
    (h : sm.iterate o env = some (sm', es)) (hd : .received sm.udpSock (.ok d) ∈ es)
    (htype : d.type = .discoveryMsg) (hc : c.Waits d.sessionId) :
    DiscoveryAnswered o inetPton sm.localInterfaces d.sessionId (sm.interfaceReads env) es c env₁
        env₂ ↔
      env.send.outcome = .success ∧ ∃ t, sm.localInterfaces[1]? = some t ∧
        inetPton t =
          some ((inetPton (textAt t.bytes env₂.behind)).getD c.negoAddr.addr) := by
  obtain ⟨rfl, hrecv⟩ := ServerMaster.iterate_received h hd
  obtain ⟨hreads, hresponses⟩ := ServerMaster.responded_recvDiscovery (o := o) hrecv htype
  rw [hlist] at hresponses ⊢
  constructor
  · rintro ⟨hbound, hanswer⟩
    rw [hreads] at hbound
    have hlength : 1 < (ServerMaster.interfaces ifap).length :=
      hbound 1 (List.mem_singleton_self 1)
    obtain ⟨t, ht⟩ : ∃ t, (ServerMaster.interfaces ifap)[1]? = some t :=
      ⟨_, List.getElem?_eq_getElem hlength⟩
    obtain ⟨hmem, hlen, hne⟩ := listed_entry hempty hvalid ht
    obtain ⟨msg, t', addr, hes, -, hmsg⟩ := hanswer (List.ne_nil_of_mem hmem)
    rw [hresponses, ht, Option.getD_some, Option.toList_eq_singleton_iff] at hes
    obtain ⟨rfl, haddr, hlearns⟩ := (answer_iff hc hes hlen hne).1 hmsg
    have hsuccess := writePdu_isSome_iff.1 (Option.isSome_iff_exists.2 ⟨msg, hes⟩)
    refine ⟨(writePdu_success_iff.1 hsuccess).2, t', ht, ?_⟩
    rw [hlearns, haddr]
  · rintro ⟨hsend, t, ht, haddr⟩
    obtain ⟨hmem, hlen, hne⟩ := listed_entry hempty hvalid ht
    have hwritable := writable_locator (o := o) hlen (sessionId_le_of_recvPdu hrecv)
    obtain ⟨msg, hmsg⟩ := Option.isSome_iff_exists.1
      (writePdu_isSome_iff.2 (writePdu_success_iff.2 ⟨hwritable, hsend⟩))
    refine ⟨fun i hi => ?_, fun _ => ⟨msg, t, _, ?_, hmem,
      (answer_iff hc hmsg hlen hne).2 ⟨rfl, haddr, rfl⟩⟩⟩
    · rw [hreads, List.mem_singleton] at hi
      rw [hi]
      exact (List.getElem?_eq_some_iff.1 ht).1
    · rw [hresponses, ht, Option.getD_some, hmsg]
      rfl

end Answer

/-! ### Sample servers -/

/-- A server with the given IPv6 addresses. -/
def serverWith (ifap : List IfAddr) : ServerMaster :=
  .start 3 (ServerMaster.interfaces ifap) fun _ => 0

/-- A datagram waits. -/
def datagramEnv (datagram : Option Msg) : LoopEnv where
  ready := some [3]
  datagram := datagram
  clientAddr := ⟨1, 0⟩
  send := ⟨.success, 0⟩
  acceptSock := -1
  pdu := none
  outside := default
  uninit := CharArray.zero _
  last := ⟨.requestMsg, CharArray.zero _⟩

/-- The addresses `::1` and `::2`. -/
def loopbackAddr : IfAddr :=
  ⟨true, some UdpClient.loopbackText, by simp [UdpClient.loopbackText, ipStrLen]⟩

def secondText : CString := ⟨[58, 58, 50], by decide⟩

def secondAddr : IfAddr := ⟨true, some secondText, by simp [secondText, ipStrLen]⟩

def ptonSample (t : CString) : Option (BitVec 128) :=
  if t = UdpClient.loopbackText then some 1 else if t = secondText then some 2 else none

/-- A client that waits in session 7. -/
def waitingClient : UdpClient :=
  { UdpClient.new (CharArray.zero _) 4444 with
    toClient := { Client.new (CharArray.zero _) with sessionId := 7, curStates := .waitResponse }
    udpSock := 3
    discoverPc := .recvInWaitResponse }

theorem waits_waitingClient : waitingClient.Waits 7 := ⟨by decide, rfl, rfl, rfl⟩

theorem serverWith_discovery (ifap : List IfAddr) :
    ∃ datagram sm' es d, (serverWith ifap).iterate .little (datagramEnv (some datagram)) =
        some (sm', es) ∧
      .received (serverWith ifap).udpSock (.ok d) ∈ es ∧ d.type = .discoveryMsg ∧
      d.sessionId = 7 ∧ (serverWith ifap).interfaceReads (datagramEnv (some datagram)) = [1] := by
  obtain ⟨datagram, hmsg⟩ : ∃ msg, (writePdu [] .discoveryMsg 7 ⟨.success, 0⟩).2 = some msg :=
    ⟨_, rfl⟩
  let d : Decoded := ⟨.discoveryMsg, 7, (CharArray.zero _).memcpy [], maxStringLength + 1⟩
  have hrecv : recvPdu (serverWith ifap).udpSock (some datagram) = .ok d :=
    (decode_of_writePdu hmsg).2
  refine ⟨datagram, _, (serverWith ifap).recvDiscovery .little (datagramEnv (some datagram)), d,
    rfl, List.mem_cons.2 (.inl ?_), rfl, rfl, ?_⟩
  · exact congrArg (MasterEvent.received _) hrecv.symm
  · exact (ServerMaster.responded_recvDiscovery (o := .little) hrecv rfl).1

/-- A server with the only address `::1`. -/
theorem not_discovery_answered :
    ¬ ∀ (o : ByteOrder) (inetPton : CString → Option (BitVec 128)) (ifap : List IfAddr)
        (sm sm' : ServerMaster) (env : LoopEnv) (es : List MasterEvent) (d : Decoded)
        (c : UdpClient) (env₁ env₂ : DiscoverEnv),
      inetPton default = none → (∀ t ∈ ServerMaster.interfaces ifap, (inetPton t).isSome) →
      sm.localInterfaces = ServerMaster.interfaces ifap →
      sm.iterate o env = some (sm', es) → .received sm.udpSock (.ok d) ∈ es →
      d.type = .discoveryMsg → c.Waits d.sessionId →
      DiscoveryAnswered o inetPton sm.localInterfaces d.sessionId (sm.interfaceReads env) es c
        env₁ env₂ := by
  intro h
  obtain ⟨datagram, sm', es, d, hiterate, hreceived, htype, hid, hreads⟩ :=
    serverWith_discovery [loopbackAddr]
  have hanswered := h .little ptonSample [loopbackAddr] _ sm' _ es d waitingClient
    (UdpClient.withInput .timeout) (UdpClient.withInput .timeout) rfl (by decide) rfl hiterate
    hreceived htype (by rw [hid]; exact waits_waitingClient)
  have hbound := hanswered.reads 1 (by rw [hreads]; exact List.mem_singleton_self 1)
  exact absurd hbound (by decide)

/-- A server with the addresses `::1` and `::2`, and a client that reads a zero behind the text. -/
theorem discovery_answered_second :
    ∃ (sm' : ServerMaster) (env : LoopEnv) (es : List MasterEvent) (d : Decoded),
      (serverWith [loopbackAddr, secondAddr]).iterate .little env = some (sm', es) ∧
      DiscoveryAnswered .little ptonSample [UdpClient.loopbackText, secondText] d.sessionId [1] es
        waitingClient (UdpClient.withInput .timeout) (UdpClient.withInput .timeout) := by
  obtain ⟨datagram, sm', es, d, hiterate, hreceived, htype, hid, hreads⟩ :=
    serverWith_discovery [loopbackAddr, secondAddr]
  have hwaits : waitingClient.Waits d.sessionId := by
    rw [hid]
    exact waits_waitingClient
  have hiff := @discovery_answered_iff .little ptonSample [loopbackAddr, secondAddr] _ _ _ _ _
    waitingClient (UdpClient.withInput .timeout) (UdpClient.withInput .timeout) rfl (by decide) rfl
    hiterate hreceived htype hwaits
  rw [hreads] at hiff
  exact ⟨sm', _, es, d, hiterate, hiff.2 ⟨rfl, secondText, rfl, rfl⟩⟩

end Gdnp
