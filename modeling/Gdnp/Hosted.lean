import Gdnp.Iteration
import Gdnp.Lib.Component
import Gdnp.Lifelong
import Gdnp.Mixing
import Gdnp.Stall

/-!
# A negotiation at a server with other clients

The session of an exchange (`Net`) is one of many at a server: the loop serves other clients,
answers discovery messages and forgets connections, and the client's messages wait in the meantime
(`Hosted`).  As long as no other connection carries the client's session id (`Apart`), all this is
one of the runs of the exchange alone (`Hosted.simulates`).
-/

open CMem

namespace Gdnp

namespace ServerMaster

/-- A PDU is read on the descriptor in the step. -/
def ReadsOn (sm : ServerMaster) (fd : ℤ) : MasterAct → Prop
  | .iterate env => sm.Reads env ∧ sm.tcpSock = fd
  | _ => False

instance (sm : ServerMaster) (fd : ℤ) : DecidablePred (sm.ReadsOn fd)
  | .iterate env => inferInstanceAs (Decidable (sm.Reads env ∧ _))
  | .listen _ | .session _ _ => inferInstanceAs (Decidable False)

/-- A PDU with the session id is read on no other descriptor. -/
def ReadsApart (sm : ServerMaster) (fd : ℤ) (sessionId : UInt32) : MasterAct → Prop
  | .iterate env => sm.Reads env → sm.tcpSock ≠ fd →
      ∀ d ∈ (recvPdu sm.tcpSock env.pdu).toOption, d.sessionId ≠ sessionId
  | _ => True

instance (sm : ServerMaster) (fd : ℤ) (sessionId : UInt32) :
    DecidablePred (sm.ReadsApart fd sessionId)
  | .iterate env => inferInstanceAs (Decidable (sm.Reads env → _ → ∀ d ∈ Except.toOption _, _))
  | .listen _ | .session _ _ => inferInstanceAs (Decidable True)

end ServerMaster

/-- The step in which `read` delivers the given message. -/
def MasterAct.reading (pdu : Option Msg) : MasterAct → MasterAct
  | .iterate env => .iterate { env with pdu := pdu }
  | a => a

/-- The message that a session writes on the descriptor. -/
def MasterEvent.wroteOn? (fd : ℤ) : MasterEvent → Option Msg
  | session _ tcpSock (.wrote _ msg) => if tcpSock = fd then some msg else none
  | _ => none

/-- A client and the server to which it is connected, with the messages on their way. -/
structure Hosted where
  client : Client
  toServer : List Msg
  server : ServerMaster
  toClient : List Msg

/-- `client` and `recv` are the steps of the client in an exchange. -/
inductive HostedAct where
  | client (env : ClientEnv)
  | recv (env : ClientEnv)
  | server (a : MasterAct)

inductive HostedEvent where
  | client (e : ClientEvent)
  | server (e : MasterEvent)

/-- What an event is for the exchange of the session. -/
def HostedEvent.label (sessionId : UInt32) : HostedEvent → Option NetEvent
  | client e => some (.client e)
  | server (.session id _ e) => if id = sessionId then some (.server e) else none
  | server _ => none

theorem HostedEvent.label_client (sessionId : UInt32) (es : List ClientEvent) :
    (es.map HostedEvent.client).filterMap (label sessionId) = es.map .client := by
  rw [List.filterMap_map, ← List.filterMap_eq_map]
  rfl

namespace Hosted

def start (c : Client) (sm : ServerMaster) : Hosted := ⟨c, [], sm, []⟩

/-- After a step of the client with the given events. -/
def withClient (h : Hosted) (c : Client) (es : List ClientEvent) : Hosted :=
  { h with
    client := c
    toServer := h.toServer ++ es.filterMap ClientEvent.msg? }

/-- After a step of the server with the given events; `fd` is the descriptor of the connection. -/
def withServer (fd : ℤ) (h : Hosted) (sm : ServerMaster) (es : List MasterEvent) : Hosted :=
  { h with
    server := sm
    toClient := h.toClient ++ es.filterMap (MasterEvent.wroteOn? fd) }

/-- A `read` on the descriptor of the connection delivers the next message of the client, and fails
if there is none. -/
def step (o : ByteOrder) (fd : ℤ) (h : Hosted) : HostedAct → Option (Hosted × List HostedEvent)
  | .client env =>
    (h.client.step o env).map fun r => (h.withClient r.1 r.2, r.2.map .client)
  | .recv env =>
    match h.client.pc, h.toClient with
    | .read _ _ _, msg :: msgs => (h.client.step o { env with read := .pdu msg }).map fun r =>
        ({ h with toClient := msgs }.withClient r.1 r.2, r.2.map .client)
    | _, _ => none
  | .server a =>
    if h.server.ReadsOn fd a then
      (h.server.step o (a.reading h.toServer.head?)).map fun r =>
        ({ h with toServer := h.toServer.tail }.withServer fd r.1 r.2, r.2.map .server)
    else (h.server.step o a).map fun r => (h.withServer fd r.1 r.2, r.2.map .server)

def machine (o : ByteOrder) (fd : ℤ) : EventMachine Hosted HostedAct HostedEvent := ⟨step o fd⟩

/-- No other connection carries the session id. -/
def Apart (fd : ℤ) (sessionId : UInt32) (h : Hosted) : HostedAct → Prop
  | .server a => h.server.ReadsApart fd sessionId a
  | _ => True

instance (fd : ℤ) (sessionId : UInt32) (h : Hosted) : DecidablePred (h.Apart fd sessionId)
  | .server a => inferInstanceAs (Decidable (h.server.ReadsApart fd sessionId a))
  | .client _ | .recv _ => inferInstanceAs (Decidable True)

/-- The branches of `step`. -/
inductive Step (o : ByteOrder) (fd : ℤ) (h : Hosted) : HostedAct → Hosted → List HostedEvent → Prop
  | client {env c es} (hc : h.client.step o env = some (c, es)) :
    Step o fd h (.client env) (h.withClient c es) (es.map .client)
  | recv {env type actual site msg msgs c es} (pc : h.client.pc = .read type actual site)
      (hmsgs : h.toClient = msg :: msgs)
      (hc : h.client.step o { env with read := .pdu msg } = some (c, es)) :
    Step o fd h (.recv env) ({ h with toClient := msgs }.withClient c es) (es.map .client)
  | reads {env sm es} (hreads : h.server.Reads env) (hfd : h.server.tcpSock = fd)
      (hs : h.server.iterate o { env with pdu := h.toServer.head? } = some (sm, es)) :
    Step o fd h (.server (.iterate env))
      ({ h with toServer := h.toServer.tail }.withServer fd sm es) (es.map .server)
  | server {a sm es} (hreads : ¬ h.server.ReadsOn fd a) (hs : h.server.step o a = some (sm, es)) :
    Step o fd h (.server a) (h.withServer fd sm es) (es.map .server)

variable {o : ByteOrder} {fd : ℤ} {h h' : Hosted} {a : HostedAct} {es : List HostedEvent}

/-- Every step is one of the branches. -/
theorem step_cases (hstep : h.step o fd a = some (h', es)) : Step o fd h a h' es := by
  cases a with
  | client env =>
    obtain ⟨r, hc, heq⟩ := Option.map_eq_some_iff.1 hstep
    cases heq
    exact .client hc
  | recv env =>
    simp only [step] at hstep
    split at hstep
    · obtain ⟨r, hc, heq⟩ := Option.map_eq_some_iff.1 hstep
      cases heq
      exact .recv ‹_› ‹_› hc
    · cases hstep
  | server a =>
    simp only [step] at hstep
    split_ifs at hstep with hreads
    · obtain ⟨r, hs, heq⟩ := Option.map_eq_some_iff.1 hstep
      cases heq
      cases a with
      | iterate env => exact .reads hreads.1 hreads.2 hs
      | listen sock => exact hreads.elim
      | session id b => exact hreads.elim
    · obtain ⟨r, hs, heq⟩ := Option.map_eq_some_iff.1 hstep
      cases heq
      exact .server hreads hs

end Hosted

/-! ## What the parties do -/

/-- An iteration gives a PDU to `distribute`, or leaves the table alone. -/
theorem ServerMaster.iterate_table {o : ByteOrder} {sm sm' : ServerMaster} {env : LoopEnv}
    {es : List MasterEvent} (h : sm.iterate o env = some (sm', es)) :
    NoSession es ∧
      ((sm'.ssMap = sm.ssMap ∧ ∀ d, sm.Reads env → recvPdu sm.tcpSock env.pdu ≠ .ok d) ∨
        ∃ d, sm.Reads env ∧ recvPdu sm.tcpSock env.pdu = .ok d ∧ sm'.ssMap =
          (sm.distribute d.sessionId d.data.bytes d.type env.uninit env.last).1.ssMap) := by
  obtain ⟨hiteration, hes⟩ := iterate_iteration h
  refine ⟨hes, ?_⟩
  cases hiteration with
  | idle ha hr => exact .inl ⟨rfl, hr⟩
  | accept ha hr => exact .inl ⟨rfl, fun d hr' => absurd hr' hr⟩
  | read ha hr hd => exact .inr ⟨_, hr, hd, rfl⟩

/-- REQUEST_MSGs the client can still write. -/
def ClientPc.requests : ClientPc → ℕ
  | sendTcp | connect | retry | request => 1
  | _ => 0

theorem ClientPc.requests_of_setup {pc : ClientPc} (h : pc.Setup) : pc.requests = 1 := by
  cases pc <;> first | rfl | exact h.elim

theorem ClientPc.requests_le (pc : ClientPc) : pc.requests ≤ 1 := by
  unfold requests
  split <;> decide

namespace Client

variable {o : ByteOrder} {env : ClientEnv} {c c' : Client} {es : List ClientEvent}

/-- The client writes one REQUEST_MSG. -/
theorem Step.requests_le (h : Step o env c c' es) :
    (es.filterMap ClientEvent.msg?).countP (Msg.hasType (· = .requestMsg)) + c'.pc.requests ≤
      c.pc.requests := by
  cases h with
  | @setup n t pc' pc hpc =>
    rw [ClientPc.requests_of_setup pc]
    exact (Nat.zero_add _).le.trans pc'.requests_le
  | request pc hloop hw | accept pc hgeq hw | decline pc hgeq hloop hw | counter pc hgeq hloop hw =>
    simp [pc, ClientPc.requests, ClientEvent.msg?, Msg.hasType_of_writePdu hw]
  | _ => exact Nat.zero_le _

/-- Everything the client writes carries its session id. -/
theorem Step.sessionId_msg (h : Step o env c c' es) {msg : Msg}
    (hmsg : msg ∈ es.filterMap ClientEvent.msg?) {d : Decoded} (hd : decode (some msg) = .ok d) :
    d.sessionId = c.sessionId := by
  have hown {data : List UInt8} {type : MsgType} {w : WriteEnv} {e : Errno} {msg' : Msg}
      (hw : writePdu data type c.sessionId w = (e, some msg')) (heq : msg = msg') :
      d.sessionId = c.sessionId := by
    have hd' := (decode_of_writePdu (congrArg Prod.snd hw)).2
    rw [← heq, hd] at hd'
    cases hd'
    rfl
  cases h with
  | request pc hloop hw => exact hown hw (by simpa [ClientEvent.msg?] using hmsg)
  | accept pc hgeq hw => exact hown hw (by simpa [ClientEvent.msg?] using hmsg)
  | decline pc hgeq hloop hw => exact hown hw (by simpa [ClientEvent.msg?] using hmsg)
  | counter pc hgeq hloop hw => exact hown hw (by simpa [ClientEvent.msg?] using hmsg)
  | _ => simp [ClientEvent.msg?] at hmsg

end Client

theorem ServerSession.step_sessionId {o : ByteOrder} {s s' : ServerSession} {b : SessionAct}
    {es : List SessionEvent} (h : s.step o b = some (s', es)) : s'.sessionId = s.sessionId := by
  obtain ⟨env, rfl⟩ | hb := b.run_or
  · exact runStep_sessionId h
  · exact (step_helpers h hb).1

/-! ## The exchange of a session at a server -/

/-- The exchange has the client and the channels, and its session is the one in the table, if it is
not over.  Whatever is on its way to the server carries the session id, and at most one REQUEST_MSG
is written. -/
structure Hosts (fd : ℤ) (sessionId : UInt32) (h : Hosted) (n : Net) : Prop where
  client : n.client = h.client
  toServer : n.toServer = h.toServer
  toClient : n.toClient = h.toClient
  entry : h.server.ssMap sessionId =
    (n.session.filter (!·.runPc.isDone)).map (SessionEntry.mk fd)
  others : ∀ id ss, h.server.ssMap id = some ss → ss.tcpSock = fd → id = sessionId
  own : ∀ s ∈ n.session, s.sessionId = sessionId
  id : h.client.sessionId = sessionId
  sent : ∀ msg ∈ h.toServer, ∀ d, decode (some msg) = .ok d → d.sessionId = sessionId
  requests : h.toServer.countP (Msg.hasType (· = .requestMsg)) + n.session.toList.length +
    h.client.pc.requests ≤ 1

namespace Hosts

variable {o : ByteOrder} {fd : ℤ} {sessionId : UInt32} {h : Hosted} {n : Net} {env : LoopEnv}
  {sm : ServerMaster} {es : List MasterEvent} {msg : Msg} {msgs : List Msg} {d : Decoded}

theorem start {c : Client} (hpc : c.pc.Setup) (hid : c.sessionId = sessionId)
    (hnone : sm.ssMap sessionId = none)
    (hfd : ∀ id ss, sm.ssMap id = some ss → ss.tcpSock ≠ fd) :
    Hosts fd sessionId (.start c sm) (.start c) where
  client := rfl
  toServer := rfl
  toClient := rfl
  entry := hnone
  others id ss hss heq := absurd heq (hfd id ss hss)
  own := by
    rintro s ⟨⟩
  id := hid
  sent msg hmsg := absurd hmsg List.not_mem_nil
  requests := by
    have hone := ClientPc.requests_of_setup hpc
    simp [Hosted.start, Net.start, hone]

/-- A step of the client is one in the exchange. -/
theorem clientStep (hn : Hosts fd sessionId h n) {env : ClientEnv} {c : Client}
    {es : List ClientEvent} (hc : h.client.step o env = some (c, es)) :
    Hosts fd sessionId (h.withClient c es) (n.withClient c es) where
  client := rfl
  toServer := by
    rw [Net.withClient, hn.toServer]
    rfl
  toClient := hn.toClient
  entry := hn.entry
  others := hn.others
  own := hn.own
  id := (Client.step_sessionId hc).trans hn.id
  sent := by
    intro msg hmsg d hd
    rcases List.mem_append.1 hmsg with hmsg | hmsg
    · exact hn.sent msg hmsg d hd
    · exact ((Client.step_cases hc).sessionId_msg hmsg hd).trans hn.id
  requests := by
    have hstep := (Client.step_cases hc).requests_le
    have hsofar := hn.requests
    show (h.toServer ++ _).countP _ + n.session.toList.length + c.pc.requests ≤ 1
    rw [List.countP_append]
    omega

/-- The client takes a message. -/
theorem receive (hn : Hosts fd sessionId h n) (msgs : List Msg) :
    Hosts fd sessionId { h with toClient := msgs } { n with toClient := msgs } :=
  { hn with toClient := rfl }

/-- The exchange can do what happened. -/
def Follows (o : ByteOrder) (fd : ℤ) (sessionId : UInt32) (n : Net) (h' : Hosted)
    (es : List HostedEvent) : Prop :=
  ∃ bs n', (Net.machine o).run n bs = some (n', es.filterMap (HostedEvent.label sessionId)) ∧
    Hosts fd sessionId h' n'

theorem wroteOn_noSession (hes : ServerMaster.NoSession es) :
    es.filterMap (MasterEvent.wroteOn? fd) = [] := by
  rw [List.filterMap_eq_nil_iff]
  intro e he
  cases e with
  | session id tcpSock e => exact absurd he (hes id tcpSock e)
  | _ => rfl

theorem label_noSession (hes : ServerMaster.NoSession es) :
    (es.map HostedEvent.server).filterMap (HostedEvent.label sessionId) = [] := by
  rw [List.filterMap_map, List.filterMap_eq_nil_iff]
  intro e he
  cases e with
  | session id tcpSock e => exact absurd he (hes id tcpSock e)
  | _ => rfl

/-- A step of the server in which nothing is done by a session: `s?` is the session that is in the
table afterwards, or over. -/
theorem withServer (hn : Hosts fd sessionId h n) (hes : ServerMaster.NoSession es)
    (hmsgs : msgs ⊆ h.toServer) {s? : Option ServerSession}
    (hentry : sm.ssMap sessionId = (s?.filter (!·.runPc.isDone)).map (SessionEntry.mk fd))
    (hothers : ∀ id ss, sm.ssMap id = some ss → ss.tcpSock = fd → id = sessionId)
    (hown : ∀ s ∈ s?, s.sessionId = sessionId)
    (hrequests : msgs.countP (Msg.hasType (· = .requestMsg)) + s?.toList.length +
      h.client.pc.requests ≤ 1) :
    Hosts fd sessionId ({ h with toServer := msgs }.withServer fd sm es)
      { n with toServer := msgs, session := s? } where
  client := hn.client
  toServer := rfl
  toClient := by
    rw [Hosted.withServer, wroteOn_noSession hes, List.append_nil]
    exact hn.toClient
  entry := hentry
  others := hothers
  own := hown
  id := hn.id
  sent msg hmsg := hn.sent msg (hmsgs hmsg)
  requests := hrequests

/-- The table does not change, whether or not a message of the client is lost. -/
theorem keeps (hn : Hosts fd sessionId h n) (hes : ServerMaster.NoSession es)
    (hmsgs : msgs.Sublist h.toServer) (hmap : sm.ssMap = h.server.ssMap) :
    Hosts fd sessionId ({ h with toServer := msgs }.withServer fd sm es)
      { n with toServer := msgs } := by
  refine hn.withServer hes hmsgs.subset ?_ ?_ hn.own ?_
  · rw [hmap]
    exact hn.entry
  · rw [hmap]
    exact hn.others
  · have hle := hmsgs.countP_le (p := Msg.hasType (· = .requestMsg))
    have hsofar := hn.requests
    omega

theorem session_of_entry (hn : Hosts fd sessionId h n) {ss : SessionEntry}
    (hss : h.server.ssMap sessionId = some ss) :
    ∃ s, n.session = some s ∧ s.runPc.isDone = false ∧ ⟨fd, s⟩ = ss := by
  obtain ⟨s, hsome, hentry⟩ := Option.map_eq_some_iff.1 (hn.entry.symm.trans hss)
  obtain ⟨hsession, hrunning⟩ := Option.filter_eq_some_iff.1 hsome
  exact ⟨s, hsession, by simpa using hrunning, hentry⟩

/-- The server reads a message of the client. -/
theorem deliver (hn : Hosts fd sessionId h n) (hes : ServerMaster.NoSession es)
    (hmsgs : h.toServer = msg :: msgs) (hd : decode (some msg) = .ok d)
    (htcp : h.server.tcpSock = fd) {uninit : CharArray maxStringLength} {last : Content}
    (hmap : sm.ssMap =
      (h.server.distribute d.sessionId d.data.bytes d.type uninit last).1.ssMap) :
    Hosts fd sessionId ({ h with toServer := msgs }.withServer fd sm es)
      ({ n with toServer := msgs }.distribute d last) := by
  obtain rfl : d.sessionId = sessionId := hn.sent msg (by simp [hmsgs]) d hd
  have hsub : msgs.Sublist h.toServer := by simp [hmsgs]
  have hothers : ∀ id ss, sm.ssMap id = some ss → ss.tcpSock = fd → id = d.sessionId := by
    intro id ss hss hfd
    by_contra hne
    rw [hmap, ServerMaster.distribute_ssMap_of_ne hne] at hss
    exact hne (hn.others id ss hss hfd)
  have hdata : uninit.memcpy d.data.bytes = d.data := CharArray.memcpy_bytes_self ..
  have hentry := hn.entry
  have hrequests := hn.requests
  rw [hmsgs, List.countP_cons, Msg.hasType, Content.ofMsg_eq hd, Option.any_some] at hrequests
  by_cases ht : d.type = .requestMsg
  · -- It is the only REQUEST_MSG, so there is no session yet.
    rw [if_pos (decide_eq_true ht)] at hrequests
    have hnone : n.session = none := by
      cases hs : n.session with
      | none => rfl
      | some s =>
        rw [hs, Option.toList_some, List.length_singleton] at hrequests
        omega
    have hss : h.server.ssMap d.sessionId = none := by
      rw [hentry, hnone]
      rfl
    have hnew : ({ n with toServer := msgs } : Net).distribute d last = { n with
        toServer := msgs
        session := some (.new d.sessionId ⟨d.type, d.data⟩ last) } := by
      simp only [Net.distribute, hnone, if_pos ht]
    rw [hnew]
    refine hn.withServer hes hsub.subset ?_ hothers ?_ ?_
    · rw [hmap]
      simp [ServerMaster.distribute, hss, ht, hdata, htcp, ServerSession.new, RunPc.isDone]
    · rintro _ ⟨⟩
      rfl
    · rw [hnone, Option.toList_none, List.length_nil] at hrequests
      rw [Option.toList_some, List.length_singleton]
      omega
  · cases hss : h.server.ssMap d.sessionId with
    | none =>
      -- There is no session, or it is over.
      have hlost : ({ n with toServer := msgs } : Net).distribute d last =
          { n with toServer := msgs } := by
        rw [hss] at hentry
        unfold Net.distribute
        split
        · rw [if_neg ht]
        · rename_i s hs
          have hs : n.session = some s := hs
          have hdone : s.runPc.isDone = true := by simpa [hs, Option.filter] using hentry
          rw [if_neg (by simp [hdone])]
      rw [hlost]
      apply hn.keeps hes hsub
      rw [hmap, ServerMaster.distribute_rejects (by simp [ht, hss])]
    | some ss =>
      obtain ⟨s, hs, hrunning, rfl⟩ := hn.session_of_entry hss
      have hpush : ({ n with toServer := msgs } : Net).distribute d last = { n with
          toServer := msgs
          session := some { s with q := s.q ++ [⟨d.type, d.data⟩] } } := by
        simp [Net.distribute, hs, hn.own s hs, hrunning, ht]
      rw [hpush]
      refine hn.withServer hes hsub.subset ?_ hothers ?_ ?_
      · rw [hmap]
        simp [ServerMaster.distribute, hss, ht, hdata, hrunning]
      · rintro _ ⟨⟩
        exact hn.own s hs
      · rw [hs, Option.toList_some, List.length_singleton] at hrequests
        rw [Option.toList_some, List.length_singleton]
        omega

theorem toServer_self (hn : Hosts fd sessionId h n) :
    ({ n with toServer := h.toServer } : Net) = n := by
  rw [← hn.toServer]

/-- The server reads a message of another client. -/
theorem readsOther (hn : Hosts fd sessionId h n) (hes : ServerMaster.NoSession es)
    (htcp : h.server.tcpSock ≠ fd) (hid : d.sessionId ≠ sessionId)
    {uninit : CharArray maxStringLength} {last : Content}
    (hmap : sm.ssMap =
      (h.server.distribute d.sessionId d.data.bytes d.type uninit last).1.ssMap) :
    Hosts fd sessionId (h.withServer fd sm es) n := by
  suffices hother : Hosts fd sessionId (h.withServer fd sm es)
      { n with toServer := h.toServer, session := n.session } by
    rwa [hn.toServer_self] at hother
  refine hn.withServer hes (List.Subset.refl h.toServer) ?_ ?_ hn.own hn.requests
  · rw [hmap, ServerMaster.distribute_ssMap_of_ne (Ne.symm hid)]
    exact hn.entry
  · intro id ss hss hfd
    rw [hmap] at hss
    obtain ⟨ss₀, hss₀, hsame⟩ | ⟨-, -, -, hnew⟩ := ServerMaster.distribute_tcpSock hss
    · exact hn.others id ss₀ hss₀ (hsame.trans hfd)
    · exact absurd (hnew.symm.trans hfd) htcp

/-- An iteration of the loop. -/
theorem iterate (hn : Hosts fd sessionId h n) (hreads : ¬ h.server.ReadsOn fd (.iterate env))
    (hapart : h.server.ReadsApart fd sessionId (.iterate env))
    (hs : h.server.iterate o env = some (sm, es)) :
    Follows o fd sessionId n (h.withServer fd sm es) (es.map .server) := by
  obtain ⟨hes, htable⟩ := ServerMaster.iterate_table hs
  refine ⟨[], n, by rw [label_noSession hes]; rfl, ?_⟩
  obtain ⟨hsame, -⟩ | ⟨d, hr, hd, hmap⟩ := htable
  · have hkept := hn.keeps hes (List.Sublist.refl _) hsame
    rwa [hn.toServer_self] at hkept
  · have htcp : h.server.tcpSock ≠ fd := fun heq => hreads ⟨hr, heq⟩
    have hmem : d ∈ (recvPdu h.server.tcpSock env.pdu).toOption := by
      rw [hd]
      rfl
    exact hn.readsOther hes htcp (hapart hr htcp d hmem) hmap

/-- An iteration in which the server reads on the connection. -/
theorem reads (hn : Hosts fd sessionId h n) (hr : h.server.Reads env)
    (htcp : h.server.tcpSock = fd)
    (hs : h.server.iterate o { env with pdu := h.toServer.head? } = some (sm, es)) :
    Follows o fd sessionId n ({ h with toServer := h.toServer.tail }.withServer fd sm es)
      (es.map .server) := by
  obtain ⟨hes, htable⟩ := ServerMaster.iterate_table hs
  have hr' : h.server.Reads { env with pdu := h.toServer.head? } := hr
  rw [Follows, label_noSession hes]
  cases hmsgs : h.toServer with
  | nil =>
    rw [hmsgs] at htable
    obtain ⟨hsame, -⟩ | ⟨d, -, hd, -⟩ := htable
    · have hkept := hn.keeps hes (List.nil_sublist _) hsame
      refine ⟨[], n, rfl, ?_⟩
      have hself := hn.toServer_self
      rw [hmsgs] at hself
      rwa [hself] at hkept
    · have hfails : recvPdu h.server.tcpSock none = .ok d := hd
      rw [recvPdu, if_neg hr.nonneg] at hfails
      cases hfails
  | cons msg msgs =>
    rw [hmsgs] at htable
    have hread : recvPdu h.server.tcpSock (some msg) = decode (some msg) := if_neg hr.nonneg
    refine ⟨[.deliver env.last], ?_⟩
    simp only [EventMachine.run_singleton_iff]
    have hnext : n.toServer = msg :: msgs := hn.toServer.trans hmsgs
    cases hdecode : decode (some msg) with
    | error e =>
      refine ⟨{ n with toServer := msgs }, ?_, ?_⟩
      · simp only [Net.machine, Net.step, hnext, hdecode]
      · obtain ⟨hsame, -⟩ | ⟨d, -, hd, -⟩ := htable
        · exact hn.keeps hes (by simp [hmsgs]) hsame
        · cases hd.symm.trans (hread.trans hdecode)
    | ok d =>
      refine ⟨{ n with toServer := msgs }.distribute d env.last, ?_, ?_⟩
      · simp only [Net.machine, Net.step, hnext, hdecode]
      · obtain ⟨-, hno⟩ | ⟨d', -, hd, hmap⟩ := htable
        · exact absurd (hread.trans hdecode) (hno d hr)
        · cases hd.symm.trans (hread.trans hdecode)
          exact hn.deliver hes hmsgs hdecode htcp hmap

theorem wroteOn_session (id : UInt32) (tcpSock : ℤ) (es : List SessionEvent) :
    (es.map (.session id tcpSock)).filterMap (MasterEvent.wroteOn? fd) =
      if tcpSock = fd then es.filterMap SessionEvent.msg? else [] := by
  rw [List.filterMap_map]
  split_ifs with hfd
  · apply List.filterMap_congr
    intro e _
    cases e with
    | wrote answers msg => exact if_pos hfd
    | _ => rfl
  · rw [List.filterMap_eq_nil_iff]
    intro e _
    cases e with
    | wrote answers msg => exact if_neg hfd
    | _ => rfl

theorem label_session (id : UInt32) (tcpSock : ℤ) (es : List SessionEvent) :
    ((es.map (.session id tcpSock)).map .server).filterMap (HostedEvent.label sessionId) =
      if id = sessionId then es.map .server else [] := by
  rw [List.map_map, List.filterMap_map]
  split_ifs with hid
  · rw [← List.filterMap_eq_map]
    exact List.filterMap_congr fun e _ => if_pos hid
  · rw [List.filterMap_eq_nil_iff]
    exact fun e _ => if_neg hid

/-- A thread of the session takes a step. -/
theorem ownStep (hn : Hosts fd sessionId h n) {s s' : ServerSession} {b : SessionAct}
    {ses : List SessionEvent} (hs : n.session = some s) (hstep : s.step o b = some (s', ses))
    (hmap : sm.ssMap = Function.update h.server.ssMap sessionId
      (((some s').filter (!·.runPc.isDone)).map (SessionEntry.mk fd)))
    (hes : es.filterMap (MasterEvent.wroteOn? fd) = ses.filterMap SessionEvent.msg?) :
    Hosts fd sessionId (h.withServer fd sm es) (n.withSession s' ses) where
  client := hn.client
  toServer := hn.toServer
  toClient := by
    rw [Hosted.withServer, Net.withSession, hes, hn.toClient]
  entry := by
    show sm.ssMap sessionId = _
    rw [hmap, Function.update_self]
    rfl
  others := by
    intro id ss hss hfd
    by_contra hne
    have hss : sm.ssMap id = some ss := hss
    rw [hmap, Function.update_of_ne hne] at hss
    exact hne (hn.others id ss hss hfd)
  own := by
    rintro _ ⟨⟩
    exact (ServerSession.step_sessionId hstep).trans (hn.own s hs)
  id := hn.id
  sent := hn.sent
  requests := by
    have hsofar := hn.requests
    rw [hs] at hsofar
    exact hsofar

/-- A thread of another session takes a step. -/
theorem otherStep (hn : Hosts fd sessionId h n) {id : UInt32} (hid : id ≠ sessionId)
    {ss : SessionEntry} (hss : h.server.ssMap id = some ss) (s' : Option ServerSession)
    (hmap : sm.ssMap =
      Function.update h.server.ssMap id (s'.map (SessionEntry.mk ss.tcpSock)))
    (hes : es.filterMap (MasterEvent.wroteOn? fd) = []) :
    Hosts fd sessionId (h.withServer fd sm es) n where
  client := hn.client
  toServer := hn.toServer
  toClient := by
    rw [Hosted.withServer, hes, List.append_nil]
    exact hn.toClient
  entry := by
    show sm.ssMap sessionId = _
    rw [hmap, Function.update_of_ne (Ne.symm hid)]
    exact hn.entry
  others := by
    intro id' ss' hss' hfd
    have hss' : sm.ssMap id' = some ss' := hss'
    rw [hmap] at hss'
    by_cases hne : id' = id
    · rw [hne, Function.update_self] at hss'
      obtain ⟨s', -, rfl⟩ := Option.map_eq_some_iff.1 hss'
      rw [hne]
      exact hn.others id ss hss hfd
    · rw [Function.update_of_ne hne] at hss'
      exact hn.others id' ss' hss' hfd
  own := hn.own
  id := hn.id
  sent := hn.sent
  requests := hn.requests

/-- A thread of the session takes a step in the exchange. -/
theorem net_step {s s' : ServerSession} {b : SessionAct} {ses : List SessionEvent}
    (hs : n.session = some s) (hstep : s.step o b = some (s', ses)) (hb : ∀ c, b ≠ .push c) :
    (Net.machine o).run n [.server b] = some (n.withSession s' ses, ses.map .server) := by
  rw [EventMachine.run_singleton_iff]
  cases b with
  | push c => exact absurd rfl (hb c)
  | _ => simp only [Net.machine, Net.step, hs, Option.bind_some, hstep, Option.map_some]

/-- A step of a thread of a session; the last one clears the session. -/
theorem sessionStep (hn : Hosts fd sessionId h n) {id : UInt32} {b : SessionAct}
    (hs : h.server.step o (.session id b) = some (sm, es)) :
    Follows o fd sessionId n (h.withServer fd sm es) (es.map .server) := by
  have hpush : ∀ c, b ≠ .push c := by
    rintro c rfl
    cases hs
  obtain ⟨ss, hss, hs⟩ := Option.bind_eq_some_iff.1 (ServerMaster.step_session hs)
  obtain ⟨⟨s', ses⟩, hstep, hs⟩ := Option.map_eq_some_iff.1 hs
  by_cases hid : id = sessionId
  · subst hid
    obtain ⟨s, hsession, hrunning, rfl⟩ := hn.session_of_entry hss
    refine ⟨[.server b], n.withSession s' ses, ?_⟩
    rw [net_step hsession hstep hpush]
    split_ifs at hs with hdone <;> cases hs
    · have hquiet := ServerSession.step_isDone hstep hrunning hdone
      refine ⟨by rw [hquiet]; rfl, hn.ownStep hsession hstep ?_ (by rw [hquiet]; rfl)⟩
      simp [ServerMaster.clearWhenSessionEnd, ServerMaster.setEntry, Option.filter, hdone]
    · rw [label_session, if_pos rfl]
      refine ⟨rfl, hn.ownStep hsession hstep ?_ (by rw [wroteOn_session, if_pos rfl])⟩
      simp [ServerMaster.setEntry, Option.filter, hdone]
  · have hfd : ss.tcpSock ≠ fd := fun heq => hid (hn.others id ss hss heq)
    split_ifs at hs with hdone <;> cases hs
    · exact ⟨[], n, rfl, hn.otherStep hid hss none rfl rfl⟩
    · refine ⟨[], n, by rw [label_session, if_neg hid]; rfl, ?_⟩
      apply hn.otherStep hid hss (some s') rfl
      rw [wroteOn_session, if_neg hfd]

end Hosts

/-- The loop, the other sessions and the calls of `listen_negotiate` do not disturb the exchange. -/
theorem Hosted.simulates (o : ByteOrder) (fd : ℤ) (sessionId : UInt32) :
    (Hosted.machine o fd).Simulates (Net.machine o) (Hosted.Apart fd sessionId)
      (Hosts fd sessionId) (HostedEvent.label sessionId) := by
  intro h n a h' es hn hapart hstep
  cases Hosted.step_cases hstep with
  | @client env c ces hc =>
    refine ⟨[.client env], _, ?_, hn.clientStep hc⟩
    rw [EventMachine.run_singleton_iff, HostedEvent.label_client]
    simp only [Net.machine, Net.step, hn.client, hc, Option.map_some]
  | @recv env type actual site msg msgs c ces pc hmsgs hc =>
    refine ⟨[.recv env], _, ?_, (hn.receive msgs).clientStep hc⟩
    rw [EventMachine.run_singleton_iff, HostedEvent.label_client]
    have hnext : n.toClient = msg :: msgs := hn.toClient.trans hmsgs
    simp only [Net.machine, Net.step, hn.client, pc, hnext, hc, Option.map_some]
  | reads hr hfd hs => exact hn.reads hr hfd hs
  | @server a sm mes hreads hs =>
    cases a with
    | iterate env => exact hn.iterate hreads hapart hs
    | listen sock =>
      cases hs
      have hsame : (h.server.listenNegotiate sock).ssMap = h.server.ssMap := rfl
      have hnone : ServerMaster.NoSession [] := fun _ _ _ he => absurd he List.not_mem_nil
      have hkept := hn.keeps hnone (List.Sublist.refl _) hsame
      rw [hn.toServer_self] at hkept
      exact ⟨[], n, rfl, hkept⟩
    | session id b => exact hn.sessionStep hs

end Gdnp
