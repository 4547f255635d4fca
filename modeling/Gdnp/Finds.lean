import Gdnp.Mixing
import Gdnp.Network
import Gdnp.Retransmit

/-!
# Discoveries on a network

A client takes nothing for an answer but a message of its own session with the type RESPONSE_MSG or
NEGO_END_MSG, and as long as all datagrams are justified, this is the answer of a server.  So a
client that discovers has asked, and what it stores is the address in the name of a server
(`UdpClient.Discovers`, `ApiClient.Finds`), whatever its other operations do meanwhile.
-/

open CMem EventMachine

namespace Gdnp

variable {κ ν : Type*} {o : ByteOrder} {inetPton : CString → Option (BitVec 128)}
  {inetNtop : BitVec 128 → CString} {name : ν → CString} {follows : CString → Prop}
  {sent sent' : List Msg} {msg : Msg}

/-! ### Discoveries -/

/-- `discover` has sent its message and has not returned. -/
def DiscoverPc.waits : DiscoverPc → Bool
  | idle | send | ret _ => false
  | _ => true

theorem DiscoverPc.waits_of_ended {pc : DiscoverPc} (h : pc.ended = true) : pc.waits = false := by
  cases pc <;> first | rfl | cases h

namespace UdpClient

/-- A client that may wait for an answer and has none yet. -/
structure Asks (sent : List Msg) (c : UdpClient) : Prop where
  udpSock : 0 ≤ c.udpSock
  asked : Asked sent c.sessionId
  curStates : c.curStates ≠ .informed

/-- What holds of a client in a discovery: it has asked, and when it is answered, then with the name
of a server. -/
structure Discovers (o : ByteOrder) (name : ν → CString) (sent : List Msg) (c : UdpClient) :
    Prop where
  asked : c.discoverPc.waits = true → 0 ≤ c.udpSock ∧ Asked sent c.sessionId
  informed : c.curStates = .informed → c.discoverPc = .received .success
  answered : c.discoverPc = .received .success →
    c.type = .responseMsg ∧ ∃ n, c.message = locatorData o (name n)

variable {c c' : UdpClient} {env : DiscoverEnv} {es : List DiscoverEvent} {e : Errno}

theorem Discovers.mono (hsent : sent <+: sent') (h : c.Discovers o name sent) :
    c.Discovers o name sent' where
  asked hpc := ⟨(h.asked hpc).1, (h.asked hpc).2.mono hsent⟩
  informed := h.informed
  answered := h.answered

theorem Discovers.congr (h : c.Discovers o name sent) (hsock : c'.udpSock = c.udpSock)
    (hid : c'.sessionId = c.sessionId) (hpc : c'.discoverPc = c.discoverPc)
    (hcur : c'.curStates = .informed → c.curStates = .informed) (htype : c'.type = c.type)
    (hmessage : c'.message = c.message) : c'.Discovers o name sent := by
  constructor
  · rw [hpc, hsock, hid]
    exact h.asked
  · rw [hpc]
    exact fun hinf => h.informed (hcur hinf)
  · rw [hpc, htype, hmessage]
    exact h.answered

/-- Outside of a discovery. -/
theorem Discovers.of_ended (h : c.Discovers o name sent) (hended : c.discoverPc.ended = true)
    (hpc : c'.discoverPc.waits = false)
    (hcur : c'.curStates = .informed → c.curStates = .informed) : c'.Discovers o name sent where
  asked hwaits := absurd (hpc.symm.trans hwaits) (by simp)
  informed hinf := by
    rw [h.informed (hcur hinf)] at hended
    cases hended
  answered hanswered := by
    rw [hanswered] at hpc
    cases hpc

theorem Discovers.asks (h : c.Discovers o name sent) (hpc : c.discoverPc.waits = true)
    (hne : c.discoverPc ≠ .received .success) : c.Asks sent :=
  ⟨(h.asked hpc).1, (h.asked hpc).2, fun hcur => hne (h.informed hcur)⟩

theorem Asks.discovers (h : c.Asks sent) (hne : c.discoverPc ≠ .received .success) :
    c.Discovers o name sent :=
  ⟨fun _ => ⟨h.udpSock, h.asked⟩, fun hcur => absurd hcur h.curStates, fun hpc => absurd hpc hne⟩

/-- The loop of `recv` goes on, or ends with an error. -/
theorem Asks.loop (h : c.Asks sent) (he : e ≠ .success) : (c.loop e).Discovers o name sent := by
  unfold UdpClient.loop
  split_ifs
  · exact Asks.discovers ⟨h.udpSock, h.asked, h.curStates⟩ (by simp)
  · exact Asks.discovers ⟨h.udpSock, h.asked, h.curStates⟩ (by simpa using he)

theorem Asks.leaveWait {inLoop : Bool} (h : c.Asks sent) (he : e ≠ .success) :
    (c.leaveWait inLoop e).Discovers o name sent := by
  cases inLoop with
  | true => exact h.loop he
  | false =>
    have hc : Asks sent { c with discoverPc := .received e } := ⟨h.udpSock, h.asked, h.curStates⟩
    exact hc.discovers fun hpc => he (DiscoverPc.received.inj hpc)

/-- The loop of `recv` ends with the answer of a server. -/
theorem Asks.answered {n : ν} (h : c.Asks sent) (hsock : c'.udpSock = c.udpSock)
    (hid : c'.sessionId = c.sessionId)
    (hpc : c'.discoverPc = .received .success) (htype : c'.type = .responseMsg)
    (hmessage : c'.message = locatorData o (name n)) : c'.Discovers o name sent where
  asked _ := by
    rw [hsock, hid]
    exact ⟨h.udpSock, h.asked⟩
  informed _ := hpc
  answered _ := ⟨htype, n, hmessage⟩

/-- A message of the own session in the network is a DISCOVERY_MSG or the answer of a server. -/
theorem genuine_ownMsg {d : Decoded}
    (hgenuine : ∀ msg ∈ env.select.datagram?, Genuine o name sent msg)
    (hown : c.ownMsg? env = some d) :
    d.type = .discoveryMsg ∨ d.type = .responseMsg ∧ ∃ n, d.data = locatorData o (name n) := by
  unfold ownMsg? at hown
  cases hselect : env.select with
  | timeout | fail =>
    rw [hselect] at hown
    cases hown
  | ready pdu =>
    rw [hselect] at hown hgenuine
    dsimp only at hown hgenuine
    cases hrecv : recvPdu c.udpSock pdu with
    | error e =>
      rw [hrecv] at hown
      cases hown
    | ok d' =>
      rw [hrecv] at hown
      dsimp only at hown
      split_ifs at hown
      cases hown
      obtain ⟨-, msg, rfl, hd⟩ := recvPdu_eq_ok hrecv
      cases hgenuine msg rfl with
      | discovery h type =>
        rw [hd] at h
        cases h
        exact .inl type
      | answer n asked h =>
        rw [hd] at h
        cases h
        exact .inr ⟨rfl, n, rfl⟩

/-- What ends a wait in the network is the answer of a server. -/
theorem genuine_answer {d : Decoded} {state : ClientState}
    (hgenuine : ∀ msg ∈ env.select.datagram?, Genuine o name sent msg)
    (hown : c.ownMsg? env = some d) (htype : endState? d.type = some state) :
    state = .informed ∧ d.type = .responseMsg ∧ ∃ n, d.data = locatorData o (name n) := by
  obtain hdisc | ⟨hresp, hn⟩ := genuine_ownMsg hgenuine hown
  · rw [hdisc] at htype
    cases htype
  · rw [hresp] at htype
    cases htype
    exact ⟨rfl, hresp, hn⟩

theorem recvInWaitResponse_discovers (hc : c.Asks sent)
    (hgenuine : ∀ msg ∈ env.select.datagram?, Genuine o name sent msg)
    (h : c.recvInWaitResponse env = (c', es)) :
    c'.Discovers o name sent ∧ es.filterMap DiscoverEvent.sentMsg? = [] := by
  have hvars : ∀ type message, (c.setVars type message).Asks sent :=
    fun _ _ => ⟨hc.udpSock, hc.asked, hc.curStates⟩
  cases recvInWaitResponse_cases h with
  | wait own type =>
    obtain hdisc | ⟨hresp, -⟩ := genuine_ownMsg hgenuine own
    · exact absurd (hdisc.symm.trans type) (by decide)
    · exact absurd (hresp.symm.trans type) (by decide)
  | answer own type =>
    obtain ⟨rfl, hresp, n, hn⟩ := genuine_answer hgenuine own type
    rw [loop_of_ne (by simp)]
    exact ⟨hc.answered rfl rfl rfl hresp hn, rfl⟩
  | unexpected own wait type he => exact ⟨(hvars _ _).loop he, rfl⟩
  | timeout => exact ⟨Asks.discovers ⟨hc.udpSock, hc.asked, hc.curStates⟩ (by simp), rfl⟩
  | error own select he => exact ⟨(hvars _ _).loop he, rfl⟩

theorem recvInWait_discovers {inLoop : Bool} (hc : c.Asks sent)
    (hgenuine : ∀ msg ∈ env.select.datagram?, Genuine o name sent msg)
    (h : c.recvInWait inLoop env = (c', es)) :
    c'.Discovers o name sent ∧ es.filterMap DiscoverEvent.sentMsg? = [] := by
  have hvars : ∀ type message, (c.setVars type message).Asks sent :=
    fun _ _ => ⟨hc.udpSock, hc.asked, hc.curStates⟩
  cases recvInWait_cases h with
  | wait own type =>
    obtain hdisc | ⟨hresp, -⟩ := genuine_ownMsg hgenuine own
    · exact absurd (hdisc.symm.trans type) (by decide)
    · exact absurd (hresp.symm.trans type) (by decide)
  | answer own type =>
    obtain ⟨rfl, hresp, n, hn⟩ := genuine_answer hgenuine own type
    rw [leaveWait_eq inLoop (by simp)]
    exact ⟨hc.answered rfl rfl rfl hresp hn, rfl⟩
  | unexpected own wait type he => exact ⟨(hvars _ _).leaveWait he, rfl⟩
  | timeout =>
    refine ⟨Asks.leaveWait ?_ (by decide), rfl⟩
    exact ⟨hc.udpSock, hc.asked, by simp⟩
  | error own select he => exact ⟨(hvars _ _).leaveWait he, rfl⟩

/-- What a call of `send` does, unless the client is INFORMED. -/
structure Sends (c : UdpClient) (r : UdpClient × Option Errno × List DiscoverEvent) : Prop where
  same : r.1.udpSock = c.udpSock ∧ r.1.sessionId = c.sessionId ∧ r.1.discoverPc = c.discoverPc
  curStates : r.1.curStates ≠ .informed
  sent : ∀ msg ∈ r.2.2.filterMap DiscoverEvent.sentMsg?, 0 ≤ c.udpSock ∧
    ∃ d, decode (some msg) = .ok d ∧ d.type = .discoveryMsg ∧ d.sessionId = c.sessionId
  success : r.2.1 = some .success →
    r.1.curStates = .waitResponse ∧ ∃ msg, msg ∈ r.2.2.filterMap DiscoverEvent.sentMsg?

theorem sendDiscover_sent {text : CString} (hmsg : msg ∈ (c.sendDiscover text env).2.toList) :
    0 ≤ c.udpSock ∧
      ∃ d, decode (some msg) = .ok d ∧ d.type = .discoveryMsg ∧ d.sessionId = c.sessionId := by
  obtain ⟨hsock, -, hd⟩ := decode_of_sendPdu (Option.mem_toList.1 hmsg)
  exact ⟨hsock, _, hd, rfl, rfl⟩

theorem sendDiscover_success {text : CString} (h : (c.sendDiscover text env).1 = .success) :
    ∃ msg, msg ∈ (c.sendDiscover text env).2.toList := by
  unfold sendDiscover sendPdu at h ⊢
  split_ifs at h ⊢
  obtain ⟨msg, hmsg⟩ := Option.isSome_iff_exists.1 (writePdu_isSome_iff.2 h)
  exact ⟨msg, Option.mem_toList.2 hmsg⟩

theorem send_sends (hcur : c.curStates ≠ .informed) (text : CString) (env : DiscoverEnv) :
    c.Sends (c.send text env) := by
  unfold send
  cases hstate : c.curStates with
  | off =>
    dsimp only
    split_ifs with haddr hsuccess
    · exact ⟨⟨rfl, rfl, rfl⟩, hcur, by simp, by simp⟩
    · refine ⟨⟨rfl, rfl, rfl⟩, by simp, fun msg hmsg => ?_, fun _ => ⟨rfl, ?_⟩⟩
      · rw [DiscoverEvent.filterMap_ofSendDiscover] at hmsg
        exact sendDiscover_sent hmsg
      · rw [DiscoverEvent.filterMap_ofSendDiscover]
        exact sendDiscover_success hsuccess
    · exact ⟨⟨rfl, rfl, rfl⟩, hcur, by simp [DiscoverEvent.sentMsg?], by simp [hsuccess]⟩
  | waitResponse =>
    dsimp only
    split_ifs with htries haddr
    · exact ⟨⟨rfl, rfl, rfl⟩, hcur, by simp, by simp⟩
    · refine ⟨⟨rfl, rfl, rfl⟩, by simp, fun msg hmsg => ?_, fun h => ⟨rfl, ?_⟩⟩
      · rw [DiscoverEvent.filterMap_ofSendDiscover] at hmsg
        exact sendDiscover_sent hmsg
      · rw [DiscoverEvent.filterMap_ofSendDiscover]
        exact sendDiscover_success (Option.some.inj h)
    · exact ⟨⟨rfl, rfl, rfl⟩, by simp, by simp, by simp⟩
  | informed => exact absurd hstate hcur
  | wait | ending | negoing => exact ⟨⟨rfl, rfl, rfl⟩, hcur, by simp, by simp⟩

theorem Sends.genuine {r : UdpClient × Option Errno × List DiscoverEvent} (h : c.Sends r) :
    ∀ msg ∈ r.2.2.filterMap DiscoverEvent.sentMsg?, Genuine o name sent msg := by
  intro msg hmsg
  obtain ⟨-, d, hd, htype, -⟩ := h.sent msg hmsg
  exact .discovery hd htype

/-- After a call of `send` that succeeds, the client has asked. -/
theorem Sends.asks {r : UdpClient × Option Errno × List DiscoverEvent} (h : c.Sends r)
    (hsuccess : r.2.1 = some .success) :
    r.1.Asks (sent ++ r.2.2.filterMap DiscoverEvent.sentMsg?) := by
  obtain ⟨-, msg, hmsg⟩ := h.success hsuccess
  obtain ⟨hsock, d, hd, htype, hid⟩ := h.sent msg hmsg
  obtain ⟨hsock', hid', -⟩ := h.same
  refine ⟨hsock'.ge.trans' hsock, ⟨msg, List.mem_append_right _ hmsg, d, hd, htype, ?_⟩,
    h.curStates⟩
  rw [hid, hid']

/-- The first call of `send`. -/
theorem send_discovers (hpc : c.discoverPc = .send) (hc : c.Discovers o name sent)
    (h : c.step o inetPton env = some (c', es)) :
    (∀ msg ∈ es.filterMap DiscoverEvent.sentMsg?, Genuine o name sent msg) ∧
      c'.Discovers o name (sent ++ es.filterMap DiscoverEvent.sentMsg?) := by
  have hcur : c.curStates ≠ .informed := by
    intro hcur
    have hreceived := hc.informed hcur
    rw [hpc] at hreceived
    cases hreceived
  rw [step, hpc] at h
  dsimp only at h
  have hs := send_sends hcur (textAt c.message.bytes env.behind) env
  generalize c.send (textAt c.message.bytes env.behind) env = r at h hs
  obtain ⟨-, -, hpc'⟩ := hs.same
  split at h
  · cases h
    refine ⟨hs.genuine, fun hwaits => ?_, fun hinf => absurd hinf hs.curStates, fun hrecv => ?_⟩
    · rw [hpc', hpc] at hwaits
      cases hwaits
    · rw [hpc', hpc] at hrecv
      cases hrecv
  · rename_i rtnval hrtnval
    split_ifs at h with hsuccess
    · cases h
      have hasks : r.1.Asks (sent ++ r.2.2.filterMap DiscoverEvent.sentMsg?) :=
        hs.asks (hrtnval.trans (congrArg some hsuccess))
      exact ⟨hs.genuine,
        Asks.discovers ⟨hasks.udpSock, hasks.asked, hasks.curStates⟩ (by simp)⟩
    · cases h
      rw [List.filterMap_append, show [DiscoverEvent.sendFailed rtnval].filterMap
        DiscoverEvent.sentMsg? = [] from rfl, List.append_nil]
      refine ⟨hs.genuine, fun hwaits => ?_, fun hinf => absurd hinf hs.curStates, fun hrecv => ?_⟩
      · cases hwaits
      · cases hrecv

/-- A repeated message. -/
theorem resend_discovers (hpc : c.discoverPc = .resend) (hc : c.Asks sent)
    (h : c.step o inetPton env = some (c', es)) :
    (∀ msg ∈ es.filterMap DiscoverEvent.sentMsg?, Genuine o name sent msg) ∧
      c'.Discovers o name (sent ++ es.filterMap DiscoverEvent.sentMsg?) := by
  rw [step, hpc] at h
  dsimp only at h
  have hs := send_sends hc.curStates (textAt c.lastTopOptions.bytes env.behind) env
  generalize c.send (textAt c.lastTopOptions.bytes env.behind) env = r at h hs
  obtain ⟨hsock, hid, hpc'⟩ := hs.same
  have hasks : r.1.Asks (sent ++ r.2.2.filterMap DiscoverEvent.sentMsg?) := by
    refine ⟨hsock.ge.trans' hc.udpSock, ?_, hs.curStates⟩
    rw [hid]
    exact hc.asked.mono (List.prefix_append _ _)
  split at h
  · cases h
    refine ⟨hs.genuine, hasks.discovers ?_⟩
    rw [hpc', hpc]
    simp
  · rename_i rtnval hrtnval
    cases h
    refine ⟨hs.genuine, ?_⟩
    by_cases hsuccess : rtnval = .success
    · rw [loop_of_waitResponse (hs.success (hrtnval.trans (congrArg some hsuccess))).1]
      exact Asks.discovers ⟨hasks.udpSock, hasks.asked, hasks.curStates⟩ (by simp)
    · exact hasks.loop hsuccess

theorem recv_discovers (hc : c.Asks sent) : c.recv.Discovers o name sent := by
  unfold recv
  split <;> exact Asks.discovers ⟨hc.udpSock, hc.asked, hc.curStates⟩ (by simp)

/-- The end of `discover`. -/
theorem finish_discovers (hpc : c.discoverPc = .received e) (hc : c.Discovers o name sent)
    (h : c.finish o inetPton e env = (c', es)) :
    c'.Discovers o name sent ∧ es.filterMap DiscoverEvent.sentMsg? = [] := by
  unfold finish at h
  dsimp only at h
  split_ifs at h with hsuccess htype hopt
  · cases h
    exact ⟨⟨nofun, nofun, nofun⟩, rfl⟩
  · cases h
    exact ⟨⟨nofun, nofun, nofun⟩, rfl⟩
  · cases h
    exact ⟨⟨nofun, nofun, nofun⟩, rfl⟩
  · cases h
    refine ⟨⟨nofun, fun hinf => ?_, nofun⟩, rfl⟩
    have hreceived := hpc.symm.trans (hc.informed hinf)
    exact absurd (DiscoverPc.received.inj hreceived) hsuccess

/-- A step of a discovery sends nothing but DISCOVERY_MSGs, and takes nothing but the answer of a
server for an answer. -/
theorem step_discovers (hc : c.Discovers o name sent)
    (hgenuine : ∀ msg ∈ env.select.datagram?, Genuine o name sent msg)
    (h : c.step o inetPton env = some (c', es)) :
    (∀ msg ∈ es.filterMap DiscoverEvent.sentMsg?, Genuine o name sent msg) ∧
      c'.Discovers o name (sent ++ es.filterMap DiscoverEvent.sentMsg?) := by
  -- A step that sends nothing.
  have hquiet : c'.Discovers o name sent ∧ es.filterMap DiscoverEvent.sentMsg? = [] →
      (∀ msg ∈ es.filterMap DiscoverEvent.sentMsg?, Genuine o name sent msg) ∧
        c'.Discovers o name (sent ++ es.filterMap DiscoverEvent.sentMsg?) := by
    rintro ⟨hc', hes⟩
    rw [hes, List.append_nil]
    exact ⟨by simp, hc'⟩
  cases hpc : c.discoverPc with
  | idle | ret =>
    rw [step, hpc] at h
    cases h
  | send => exact send_discovers hpc hc h
  | recv =>
    apply hquiet
    rw [step, hpc] at h
    cases h
    exact ⟨recv_discovers (hc.asks (by simp [hpc, DiscoverPc.waits]) (by simp [hpc])), rfl⟩
  | recvInWaitResponse =>
    apply hquiet
    rw [step, hpc] at h
    exact recvInWaitResponse_discovers (hc.asks (by simp [hpc, DiscoverPc.waits]) (by simp [hpc]))
      hgenuine (Option.some.inj h)
  | resend =>
    exact resend_discovers hpc (hc.asks (by simp [hpc, DiscoverPc.waits]) (by simp [hpc])) h
  | recvInWait inLoop =>
    apply hquiet
    rw [step, hpc] at h
    exact recvInWait_discovers (hc.asks (by simp [hpc, DiscoverPc.waits]) (by simp [hpc]))
      hgenuine (Option.some.inj h)
  | received e =>
    apply hquiet
    rw [step, hpc] at h
    exact finish_discovers hpc hc (Option.some.inj h)

/-- Only the end of a discovery that has an answer touches the address for negotiations. -/
theorem step_negoAddr (hpc : c.discoverPc ≠ .received .success)
    (h : c.step o inetPton env = some (c', es)) : c'.negoAddr = c.negoAddr := by
  cases hcase : c.discoverPc with
  | idle | ret =>
    rw [step, hcase] at h
    cases h
  | send =>
    have hframe := (send_frame c env (textAt c.message.bytes env.behind)).2
    rw [step, hcase] at h
    dsimp only at h
    split at h
    · cases h
      exact hframe
    · split_ifs at h <;> cases h <;> exact hframe
  | recv =>
    rw [step, hcase] at h
    cases h
    unfold recv
    split <;> rfl
  | recvInWaitResponse =>
    rw [step, hcase] at h
    exact (recvInWaitResponse_frame (Option.some.inj h)).2
  | resend =>
    have hframe := (send_frame c env (textAt c.lastTopOptions.bytes env.behind)).2
    rw [step, hcase] at h
    dsimp only at h
    split at h
    · cases h
      exact hframe
    · cases h
      exact loop_negoAddr.trans hframe
  | recvInWait inLoop =>
    rw [step, hcase] at h
    exact (recvInWait_frame (Option.some.inj h)).2
  | received e =>
    have he : e ≠ .success := fun he => hpc (by rw [hcase, he])
    rw [step, hcase] at h
    dsimp only [finish] at h
    rw [if_neg he] at h
    cases h
    rfl

/-- What a client stores is the address in the name of a server. -/
theorem step_located (hname : ∀ n, (name n).bytes ≠ [] ∧ (name n).bytes.length < ipStrLen)
    (hfollows : follows env.behind) (hc : c.Discovers o name sent)
    (h : c.step o inetPton env = some (c', es)) :
    c'.negoAddr = c.negoAddr ∨
      c'.negoAddr.port = c.negoAddr.port ∧ LocatedAt inetPton follows name c'.negoAddr.addr := by
  by_cases hpc : c.discoverPc = .received .success
  · obtain ⟨htype, n, hmessage⟩ := hc.answered hpc
    obtain ⟨hne, hlen⟩ := hname n
    obtain ⟨c₁, es₁, hstep, -, haddr⟩ :=
      @step_storesLocator o inetPton c env (name n) hpc htype hmessage hlen hne
    rw [h] at hstep
    cases hstep
    obtain hsame | ⟨opt, text, -, -, hnego⟩ := (step_frame h).2
    · exact .inl hsame
    have hport : c'.negoAddr.port = c.negoAddr.port := by rw [hnego]
    cases hpton : inetPton (textAt (name n).bytes env.behind) with
    | none =>
      rw [hpton, Option.getD_none] at haddr
      left
      calc c'.negoAddr = ⟨c'.negoAddr.addr, c'.negoAddr.port⟩ := rfl
        _ = c.negoAddr := by rw [haddr, hport]
    | some addr =>
      rw [hpton, Option.getD_some] at haddr
      right
      refine ⟨hport, n, env.behind, hfollows, ?_⟩
      rw [haddr, hpton]
  · exact .inl (step_negoAddr hpc h)

end UdpClient

/-! ### Clients -/

/-- The state of an operation never becomes INFORMED. -/
theorem Client.step_curStates {v v' : Client} {env : ClientEnv} {es : List ClientEvent}
    (h : v.step o env = some (v', es)) (hinf : v'.curStates = .informed) :
    v.curStates = .informed := by
  cases Client.step_cases h with
  | setup | requestFails | request | readRet | readAgain | readMsg | readPhantom => exact hinf
  | endAccept | endOther | unexpected => exact hinf
  | _ => cases hinf

namespace ApiClient

/-- What holds of a client in the network.  With port 4444 in `negoAddr`, an operation runs only
towards the address of a server. -/
structure Finds (o : ByteOrder) (inetPton : CString → Option (BitVec 128))
    (follows : CString → Prop) (name : ν → CString) (sent : List Msg) (c : ApiClient) : Prop where
  discovers : c.toUdpClient.Discovers o name sent
  learned : c.negoAddr.addr = broadcastAddr.addr ∨
    LocatedAt inetPton follows name c.negoAddr.addr
  engaged : ∀ op, c.negoAddr.port = 4444 → (c.view op).pc ≠ .idle →
    LocatedAt inetPton follows name c.negoAddr.addr

variable {c c' : ApiClient} {a : ApiAct} {es : List ApiEvent}

theorem Finds.mono (hsent : sent <+: sent') (h : c.Finds o inetPton follows name sent) :
    c.Finds o inetPton follows name sent' :=
  ⟨h.discovers.mono hsent, h.learned, h.engaged⟩

/-- An operation that is not refused goes to the address of a server. -/
theorem Finds.accepted (h : c.Finds o inetPton follows name sent)
    (haddr : ¬ sockAddrEqual inetNtop c.negoAddr broadcastAddr) (hport : c.negoAddr.port = 4444) :
    LocatedAt inetPton follows name c.negoAddr.addr := by
  apply h.learned.resolve_left
  intro hbroadcast
  apply haddr
  simp [sockAddrEqual, hbroadcast, hport, broadcastAddr]

theorem tcpInit_toUdpClient {op : Operation} {sock : ℤ} :
    (c.tcpInit op sock).1.toUdpClient = c.toUdpClient := by
  unfold tcpInit
  split
  · cases op <;> rfl
  · dsimp only
    split_ifs <;> rfl
  · rfl

theorem operate_sentMsg {op : Operation} {env : ClientEnv} {sock : ℤ}
    (h : c.operate o op env sock = some (c', es)) : es.filterMap ApiEvent.sentMsg? = [] := by
  obtain ⟨v', ces, -, -, rfl⟩ := operate_cases h
  have htcp : (c.tcpInit op sock).2.filterMap ApiEvent.sentMsg? = [] := by
    unfold tcpInit
    split <;> rfl
  have hread : ∀ tcp, (readEvents (c.view op) op tcp).filterMap ApiEvent.sentMsg? = [] := by
    intro tcp
    unfold readEvents
    split <;> rfl
  have hclient : ∀ tcp, (ces.map (.ofClient op tcp env.read.sessionId?)).filterMap
      ApiEvent.sentMsg? = [] := by
    intro tcp
    rw [List.filterMap_map, List.filterMap_eq_nil_iff]
    intro e _
    cases e <;> rfl
  have hstore : (storeEvents o (c.view op) op env).filterMap ApiEvent.sentMsg? = [] := by
    unfold storeEvents
    split
    · split_ifs <;> rfl
    · split_ifs <;> rfl
    · rfl
  have hreturn : (returnEvents o (c.view op) op env).filterMap ApiEvent.sentMsg? = [] := by
    unfold returnEvents
    split <;> rfl
  simp [htcp, hread, hclient, hstore, hreturn]

/-- An operation leaves a discovery that runs beside it alone, but for the state. -/
theorem operate_discovers {op : Operation} {env : ClientEnv} {sock : ℤ} {v : Client}
    {ces : List ClientEvent} (hc : c.toUdpClient.Discovers o name sent)
    (hstep : (c.view op).step o env = some (v, ces)) :
    ((c.tcpInit op sock).1.put v op).toUdpClient.Discovers o name sent := by
  have hid : v.sessionId = c.sessionId := (Client.step_sessionId hstep).trans view_sessionId
  have hcur : v.curStates = .informed → c.curStates = .informed := by
    intro hinf
    have hview := Client.step_curStates hstep hinf
    cases op <;> exact hview
  have htcp : (c.tcpInit op sock).1.toUdpClient = c.toUdpClient := tcpInit_toUdpClient
  generalize (c.tcpInit op sock).1 = t at htcp
  rw [← htcp] at hc hid hcur
  cases op with
  | negoThread => exact hc.congr rfl hid rfl hcur rfl rfl
  | synchronize => exact hc.congr rfl hid rfl hcur rfl rfl

/-- A step of a client in the network. -/
theorem step_finds (hname : ∀ n, (name n).bytes ≠ [] ∧ (name n).bytes.length < ipStrLen)
    (hfollows : ∀ env, a = .discoverStep env → follows env.behind)
    (hc : c.Finds o inetPton follows name sent)
    (hgenuine : ∀ msg ∈ a.datagram?, Genuine o name sent msg)
    (h : c.step o inetPton inetNtop a = some (c', es)) :
    (∀ msg ∈ es.filterMap ApiEvent.sentMsg?, Genuine o name sent msg) ∧
      c'.Finds o inetPton follows name (sent ++ es.filterMap ApiEvent.sentMsg?) := by
  -- A step that sends nothing.
  have hquiet : c'.Finds o inetPton follows name sent ∧ es.filterMap ApiEvent.sentMsg? = [] →
      (∀ msg ∈ es.filterMap ApiEvent.sentMsg?, Genuine o name sent msg) ∧
        c'.Finds o inetPton follows name (sent ++ es.filterMap ApiEvent.sentMsg?) := by
    rintro ⟨hc', hes⟩
    rw [hes, List.append_nil]
    exact ⟨by simp, hc'⟩
  cases step_cases h with
  | discover hfree =>
    refine hquiet ⟨⟨hc.discovers.of_ended hfree.2 rfl id, hc.learned, fun op hport hpc => ?_⟩, rfl⟩
    apply hc.engaged op hport
    cases op <;> exact hpc
  | @discoverStep env u ds hstep =>
    have hds : (ds.map ApiEvent.discovery).filterMap ApiEvent.sentMsg? =
        ds.filterMap DiscoverEvent.sentMsg? := List.filterMap_map
    obtain ⟨hsent, hdiscovers⟩ := UdpClient.step_discovers hc.discovers hgenuine hstep
    have hlocated := UdpClient.step_located hname (hfollows env rfl) hc.discovers hstep
    have hthread := (UdpClient.step_frame hstep).1
    rw [hds]
    refine ⟨hsent, hdiscovers, ?_, fun op hport hpc => ?_⟩
    · obtain hsame | ⟨-, hat⟩ := hlocated
      · show u.negoAddr.addr = _ ∨ _
        rw [hsame]
        exact hc.learned
      · exact .inr hat
    · obtain hsame | ⟨-, hat⟩ := hlocated
      · have hview : (c.view op).pc ≠ .idle := by
          cases op with
          | negoThread =>
            intro hidle
            exact hpc ((congrArg Prod.fst hthread).trans hidle)
          | synchronize => exact hpc
        show LocatedAt inetPton follows name u.negoAddr.addr
        rw [hsame]
        replace hport : u.negoAddr.port = 4444 := hport
        rw [hsame] at hport
        exact hc.engaged op hport hview
      · exact hat
  | refuseNegotiate => exact hquiet ⟨hc, rfl⟩
  | noThread hfree hidle haddr hret hv =>
    subst hv
    refine hquiet ⟨⟨hc.discovers.of_ended hfree.2 (DiscoverPc.waits_of_ended hfree.2) id,
      hc.learned, fun op hport hpc => hc.accepted haddr hport⟩, rfl⟩
  | negotiate hfree hidle haddr hv =>
    subst hv
    refine hquiet ⟨⟨hc.discovers.of_ended hfree.2 (DiscoverPc.waits_of_ended hfree.2) id,
      hc.learned, fun op hport hpc => hc.accepted haddr hport⟩, rfl⟩
  | refuseSynchronize => exact hquiet ⟨hc, rfl⟩
  | synchronize hfree haddr hv =>
    subst hv
    refine hquiet ⟨⟨hc.discovers.of_ended hfree.2 (DiscoverPc.waits_of_ended hfree.2) nofun,
      hc.learned, fun op hport hpc => hc.accepted haddr hport⟩, rfl⟩
  | @operate op env sock v ces es hstep hes =>
    refine hquiet ⟨⟨operate_discovers hc.discovers hstep, ?_, fun op' hport hpc => ?_⟩,
      operate_sentMsg hes⟩
    · rw [negoAddr_put, negoAddr_tcpInit]
      exact hc.learned
    · rw [negoAddr_put, negoAddr_tcpInit] at hport ⊢
      exact hc.engaged op hport (Client.pc_ne_idle hstep)

end ApiClient

end Gdnp
