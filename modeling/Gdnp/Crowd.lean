import Gdnp.Hosted
import Mathlib.Data.Fintype.Basic

/-!
# Many clients of one server

Any number of clients negotiate with one server at the same time, each on a connection of its own
(`Crowd`).  When they have chosen different session ids, and nobody else uses these, the negotiation
of each is a run of the exchange of this client alone with its session, whatever the others do and
however all steps interleave (`Crowd.simulates`).  So it is with the process of the server, as long
as each session has its thread (`CrowdThreads`, `crowd_refines`), and what holds in every exchange
holds there, as that the negotiation stalls (`crowd_stalls`).
-/

open CMem

namespace Gdnp

/-- Clients with different session ids, and the descriptors of their connections. -/
structure Connections (ι : Type*) where
  fd : ι → ℤ
  sessionId : ι → UInt32
  /-- The client on a descriptor. -/
  client? : ℤ → Option ι
  client?_eq_some_iff : ∀ sock i, client? sock = some i ↔ fd i = sock
  injective : Function.Injective sessionId

/-- The server, and each client with the messages on its connection. -/
structure Crowd (ι : Type*) where
  client : ι → Client
  toServer : ι → List Msg
  server : ServerMaster
  toClient : ι → List Msg

inductive CrowdAct (ι : Type*) where
  | client (i : ι) (env : ClientEnv)
  | recv (i : ι) (env : ClientEnv)
  | server (a : MasterAct)

inductive CrowdEvent (ι : Type*) where
  | client (i : ι) (e : ClientEvent)
  | server (e : MasterEvent)

namespace Crowd

variable {ι : Type*}

/-- The clients before anybody is connected. -/
def start (c : ι → Client) (sm : ServerMaster) : Crowd ι := ⟨c, fun _ => [], sm, fun _ => []⟩

/-- What a client sees. -/
def view (w : Crowd ι) (i : ι) : Hosted := ⟨w.client i, w.toServer i, w.server, w.toClient i⟩

def withServer (k : Connections ι) (w : Crowd ι) (sm : ServerMaster) (es : List MasterEvent) :
    Crowd ι :=
  { w with
    server := sm
    toClient := fun i => w.toClient i ++ es.filterMap (MasterEvent.wroteOn? (k.fd i)) }

/-- The client whose message is read in the step. -/
def reader? (k : Connections ι) (w : Crowd ι) : MasterAct → Option ι
  | .iterate env => if w.server.Reads env then k.client? w.server.tcpSock else none
  | _ => none

/-- Other connections carry none of the session ids. -/
def Apart (k : Connections ι) (w : Crowd ι) : CrowdAct ι → Prop
  | .server (.iterate env) => w.server.Reads env → k.client? w.server.tcpSock = none →
      ∀ d ∈ (recvPdu w.server.tcpSock env.pdu).toOption, ∀ i, d.sessionId ≠ k.sessionId i
  | _ => True

instance [Fintype ι] (k : Connections ι) (w : Crowd ι) : DecidablePred (w.Apart k)
  | .server (.iterate env) =>
    inferInstanceAs (Decidable (w.server.Reads env → _ → ∀ d ∈ Except.toOption _, ∀ _ : ι, _))
  | .server (.listen _) | .server (.session _ _) | .client _ _ | .recv _ _ =>
    inferInstanceAs (Decidable True)

/-- Each client keeps to its session id. -/
structure Named (k : Connections ι) (w : Crowd ι) : Prop where
  client : ∀ i, (w.client i).sessionId = k.sessionId i
  sent : ∀ i, ∀ msg ∈ w.toServer i, ∀ d, decode (some msg) = .ok d → d.sessionId = k.sessionId i

theorem view_withServer (k : Connections ι) (w : Crowd ι) (i : ι) (sm : ServerMaster)
    (es : List MasterEvent) :
    (w.withServer k sm es).view i = (w.view i).withServer (k.fd i) sm es := rfl

/-- A PDU that is read from another client carries another session id. -/
theorem Named.readsApart {k : Connections ι} {w : Crowd ι} (hw : w.Named k) {i j : ι} (hne : i ≠ j)
    (env : LoopEnv) :
    w.server.ReadsApart (k.fd i) (k.sessionId i)
      (.iterate { env with pdu := (w.toServer j).head? }) := by
  intro hreads _ d hd hid
  have hnonneg : ¬ w.server.tcpSock < 0 := ServerMaster.Reads.nonneg hreads
  cases hmsgs : w.toServer j with
  | nil => simp [hmsgs, recvPdu, hnonneg, Except.toOption] at hd
  | cons msg msgs =>
    have hdecode : decode (some msg) = .ok d := by
      simp only [hmsgs, List.head?_cons, recvPdu, if_neg hnonneg] at hd
      cases hout : decode (some msg) with
      | error e => simp [hout, Except.toOption] at hd
      | ok d' => simpa [hout, Except.toOption] using hd
    have hown := hw.sent j msg (by simp [hmsgs]) d hdecode
    exact hne (k.injective (hid.symm.trans hown))

/-- The server does something else, seen by a client. -/
theorem view_server {o : ByteOrder} {k : Connections ι} {w : Crowd ι} {a : MasterAct}
    (ha : w.Apart k (.server a)) (hreads : ∀ i, ¬ w.server.ReadsOn (k.fd i) a)
    {sm : ServerMaster} {mes : List MasterEvent} (hs : w.server.step o a = some (sm, mes)) (i : ι) :
    (w.view i).step o (k.fd i) (.server a) =
        some ((w.view i).withServer (k.fd i) sm mes, mes.map .server) ∧
      (w.view i).Apart (k.fd i) (k.sessionId i) (.server a) := by
  constructor
  · have hoff : ¬ (w.view i).server.ReadsOn (k.fd i) a := hreads i
    have hs' : (w.view i).server.step o a = some (sm, mes) := hs
    simp only [Hosted.step, if_neg hoff, hs', Option.map_some]
  · cases a with
    | iterate env =>
      intro hr _ d hd
      refine ha hr ?_ d hd i
      rw [Option.eq_none_iff_forall_ne_some]
      intro j hj
      exact hreads j ⟨hr, ((k.client?_eq_some_iff ..).1 hj).symm⟩
    | _ => trivial

variable [DecidableEq ι]

/-- What an event is for the exchange of a client. -/
def label (k : Connections ι) (i : ι) : CrowdEvent ι → Option NetEvent
  | .client j e => if j = i then some (.client e) else none
  | .server e => HostedEvent.label (k.sessionId i) (.server e)

def withClient (w : Crowd ι) (i : ι) (c : Client) (es : List ClientEvent) : Crowd ι :=
  { w with
    client := Function.update w.client i c
    toServer := Function.update w.toServer i (w.toServer i ++ es.filterMap ClientEvent.msg?) }

def step (o : ByteOrder) (k : Connections ι) (w : Crowd ι) :
    CrowdAct ι → Option (Crowd ι × List (CrowdEvent ι))
  | .client i env =>
    ((w.client i).step o env).map fun r => (w.withClient i r.1 r.2, r.2.map (.client i))
  | .recv i env =>
    match (w.client i).pc, w.toClient i with
    | .read _ _ _, msg :: msgs => ((w.client i).step o { env with read := .pdu msg }).map fun r =>
        ({ w with toClient := Function.update w.toClient i msgs }.withClient i r.1 r.2,
          r.2.map (.client i))
    | _, _ => none
  | .server a =>
    match w.reader? k a with
    | some i => (w.server.step o (a.reading (w.toServer i).head?)).map fun r =>
        ({ w with toServer := Function.update w.toServer i (w.toServer i).tail }.withServer k
          r.1 r.2, r.2.map .server)
    | none => (w.server.step o a).map fun r => (w.withServer k r.1 r.2, r.2.map .server)

def machine (o : ByteOrder) (k : Connections ι) :
    EventMachine (Crowd ι) (CrowdAct ι) (CrowdEvent ι) := ⟨step o k⟩

variable {o : ByteOrder} {k : Connections ι} {w w' : Crowd ι} {a : CrowdAct ι}
  {es : List (CrowdEvent ι)} {i : ι}

/-- The branches of `step`. -/
inductive Step (o : ByteOrder) (k : Connections ι) (w : Crowd ι) :
    CrowdAct ι → Crowd ι → List (CrowdEvent ι) → Prop
  | client {i env c es} (hc : (w.client i).step o env = some (c, es)) :
    Step o k w (.client i env) (w.withClient i c es) (es.map (.client i))
  | recv {i env type actual site msg msgs c es} (pc : (w.client i).pc = .read type actual site)
      (hmsgs : w.toClient i = msg :: msgs)
      (hc : (w.client i).step o { env with read := .pdu msg } = some (c, es)) :
    Step o k w (.recv i env)
      ({ w with toClient := Function.update w.toClient i msgs }.withClient i c es)
      (es.map (.client i))
  | reads {i env sm es} (hreads : w.server.Reads env) (hfd : k.fd i = w.server.tcpSock)
      (hs : w.server.iterate o { env with pdu := (w.toServer i).head? } = some (sm, es)) :
    Step o k w (.server (.iterate env))
      ({ w with toServer := Function.update w.toServer i (w.toServer i).tail }.withServer k sm es)
      (es.map .server)
  | server {a sm es} (hreads : ∀ i, ¬ w.server.ReadsOn (k.fd i) a)
      (hs : w.server.step o a = some (sm, es)) :
    Step o k w (.server a) (w.withServer k sm es) (es.map .server)

/-- Every step is one of the branches. -/
theorem step_cases (h : w.step o k a = some (w', es)) : Step o k w a w' es := by
  cases a with
  | client i env =>
    obtain ⟨r, hc, heq⟩ := Option.map_eq_some_iff.1 h
    cases heq
    exact .client hc
  | recv i env =>
    simp only [step] at h
    split at h
    · obtain ⟨r, hc, heq⟩ := Option.map_eq_some_iff.1 h
      cases heq
      exact .recv ‹_› ‹_› hc
    · cases h
  | server a =>
    simp only [step] at h
    split at h
    case h_1 i hreader =>
      obtain ⟨r, hs, heq⟩ := Option.map_eq_some_iff.1 h
      cases heq
      cases a with
      | iterate env =>
        simp only [reader?] at hreader
        split_ifs at hreader with hreads
        exact .reads hreads ((k.client?_eq_some_iff ..).1 hreader) hs
      | listen sock => cases hreader
      | session id b => cases hreader
    case h_2 hreader =>
      obtain ⟨r, hs, heq⟩ := Option.map_eq_some_iff.1 h
      cases heq
      refine .server (fun i hreads => ?_) hs
      cases a with
      | iterate env =>
        simp only [reader?, if_pos hreads.1] at hreader
        rw [(k.client?_eq_some_iff ..).2 hreads.2.symm] at hreader
        cases hreader
      | listen sock => exact hreads
      | session id b => exact hreads

/-! ### What a client sees of a step -/

theorem label_client (j : ι) (es : List ClientEvent) :
    (es.map (CrowdEvent.client j)).filterMap (label k i) =
      if j = i then es.map .client else [] := by
  rw [List.filterMap_map]
  split_ifs with hj
  · rw [← List.filterMap_eq_map]
    exact List.filterMap_congr fun e _ => if_pos hj
  · rw [List.filterMap_eq_nil_iff]
    exact fun e _ => if_neg hj

theorem label_server (es : List MasterEvent) :
    (es.map CrowdEvent.server).filterMap (label k i) =
      (es.map HostedEvent.server).filterMap (HostedEvent.label (k.sessionId i)) := by
  rw [List.filterMap_map, List.filterMap_map]
  rfl

theorem view_withClient_self (w : Crowd ι) (i : ι) (c : Client) (es : List ClientEvent) :
    (w.withClient i c es).view i = (w.view i).withClient c es := by
  simp only [view, withClient, Hosted.withClient, Function.update_self]

theorem view_withClient_of_ne {j : ι} (h : i ≠ j) (w : Crowd ι) (c : Client)
    (es : List ClientEvent) : (w.withClient j c es).view i = w.view i := by
  simp only [view, withClient, Function.update_of_ne h]

/-- The server reads a message of client `j`, seen by client `i`. -/
theorem view_reads (hw : w.Named k) {j : ι} {env : LoopEnv} {sm : ServerMaster}
    {mes : List MasterEvent} (hreads : w.server.Reads env) (hfd : k.fd j = w.server.tcpSock)
    (hs : w.server.iterate o { env with pdu := (w.toServer j).head? } = some (sm, mes)) (i : ι) :
    ∃ b, (w.view i).step o (k.fd i) b = some
        ((view { w with toServer := Function.update w.toServer j (w.toServer j).tail } i).withServer
          (k.fd i) sm mes, mes.map .server) ∧
      (w.view i).Apart (k.fd i) (k.sessionId i) b := by
  by_cases hj : j = i
  · subst hj
    refine ⟨.server (.iterate env), ?_, fun _ hne => absurd hfd.symm hne⟩
    have hon : (w.view j).server.ReadsOn (k.fd j) (.iterate env) := ⟨hreads, hfd.symm⟩
    have hview : view { w with toServer := Function.update w.toServer j (w.toServer j).tail } j =
        { w.view j with toServer := (w.toServer j).tail } := by
      simp only [view, Function.update_self]
    have hs' : (w.view j).server.step o
        (MasterAct.reading (w.view j).toServer.head? (.iterate env)) = some (sm, mes) := hs
    rw [hview]
    simp only [Hosted.step, if_pos hon, hs', Option.map_some]
    rfl
  · -- For the others it is a PDU on another connection.
    refine ⟨.server (.iterate { env with pdu := (w.toServer j).head? }), ?_,
      hw.readsApart (Ne.symm hj) env⟩
    have hoff : ¬ (w.view i).server.ReadsOn (k.fd i)
        (.iterate { env with pdu := (w.toServer j).head? }) := by
      rintro ⟨-, hsock⟩
      have hi := (k.client?_eq_some_iff w.server.tcpSock i).2 hsock.symm
      cases hi.symm.trans ((k.client?_eq_some_iff w.server.tcpSock j).2 hfd)
      exact hj rfl
    have hview : view { w with toServer := Function.update w.toServer j (w.toServer j).tail } i =
        w.view i := by
      simp only [view, Function.update_of_ne (Ne.symm hj)]
    have hs' : (w.view i).server.step o
        (.iterate { env with pdu := (w.toServer j).head? }) = some (sm, mes) := hs
    rw [hview]
    simp only [Hosted.step, if_neg hoff, hs', Option.map_some]

/-- Seen by a client, a step is one of this client and the server, or of no matter. -/
theorem view_step (hw : w.Named k) (ha : w.Apart k a) (h : w.step o k a = some (w', es)) (i : ι) :
    (w'.view i = w.view i ∧ es.filterMap (label k i) = []) ∨
      ∃ b es', (w.view i).step o (k.fd i) b = some (w'.view i, es') ∧
        (w.view i).Apart (k.fd i) (k.sessionId i) b ∧
        es'.filterMap (HostedEvent.label (k.sessionId i)) = es.filterMap (label k i) := by
  cases step_cases h with
  | @client j env c ces hc =>
    rw [label_client]
    by_cases hj : j = i
    · subst hj
      refine .inr ⟨.client env, ces.map .client, ?_, trivial, ?_⟩
      · rw [view_withClient_self]
        have hc' : (w.view j).client.step o env = some (c, ces) := hc
        simp only [Hosted.step, hc', Option.map_some]
      · rw [if_pos rfl, HostedEvent.label_client]
    · rw [view_withClient_of_ne (Ne.symm hj), if_neg hj]
      exact .inl ⟨rfl, rfl⟩
  | @recv j env type actual site msg msgs c ces pc hmsgs hc =>
    rw [label_client]
    by_cases hj : j = i
    · subst hj
      refine .inr ⟨.recv env, ces.map .client, ?_, trivial, ?_⟩
      · have hview : view { w with toClient := Function.update w.toClient j msgs } j =
            { w.view j with toClient := msgs } := by
          simp only [view, Function.update_self]
        have pc' : (w.view j).client.pc = .read type actual site := pc
        have hmsgs' : (w.view j).toClient = msg :: msgs := hmsgs
        have hc' : (w.view j).client.step o { env with read := .pdu msg } = some (c, ces) := hc
        rw [view_withClient_self, hview]
        simp only [Hosted.step, pc', hmsgs', hc', Option.map_some]
      · rw [if_pos rfl, HostedEvent.label_client]
    · rw [view_withClient_of_ne (Ne.symm hj), if_neg hj]
      refine .inl ⟨?_, rfl⟩
      simp only [view, Function.update_of_ne (Ne.symm hj)]
  | reads hreads hfd hs =>
    rw [view_withServer, label_server]
    obtain ⟨b, hstep, hapart⟩ := view_reads hw hreads hfd hs i
    exact .inr ⟨b, _, hstep, hapart, rfl⟩
  | server hreads hs =>
    rw [view_withServer, label_server]
    obtain ⟨hstep, hapart⟩ := view_server ha hreads hs i
    exact .inr ⟨_, _, hstep, hapart, rfl⟩

/-! ### The negotiations -/

theorem Named.withClient (hw : w.Named k) {env : ClientEnv} {c : Client} {ces : List ClientEvent}
    (hc : (w.client i).step o env = some (c, ces)) : (w.withClient i c ces).Named k where
  client j := by
    by_cases hj : j = i
    · subst hj
      show (Function.update w.client j c j).sessionId = _
      rw [Function.update_self, Client.step_sessionId hc]
      exact hw.client j
    · show (Function.update w.client i c j).sessionId = _
      rw [Function.update_of_ne hj]
      exact hw.client j
  sent j msg hmsg d hd := by
    have hmem : msg ∈ Function.update w.toServer i
        (w.toServer i ++ ces.filterMap ClientEvent.msg?) j := hmsg
    by_cases hj : j = i
    · subst hj
      rw [Function.update_self] at hmem
      rcases List.mem_append.1 hmem with hmem | hmem
      · exact hw.sent j msg hmem d hd
      · exact ((Client.step_cases hc).sessionId_msg hmem hd).trans (hw.client j)
    · rw [Function.update_of_ne hj] at hmem
      exact hw.sent j msg hmem d hd

theorem step_named (hw : w.Named k) (h : w.step o k a = some (w', es)) : w'.Named k := by
  cases step_cases h with
  | client hc => exact hw.withClient hc
  | @recv i env type actual site msg msgs c ces pc hmsgs hc =>
    have hw' : Named k { w with toClient := Function.update w.toClient i msgs } :=
      ⟨hw.client, hw.sent⟩
    exact hw'.withClient hc
  | @reads i env sm mes hreads hfd hs =>
    refine ⟨hw.client, fun j msg hmsg d hd => hw.sent j msg ?_ d hd⟩
    have hmem : msg ∈ Function.update w.toServer i (w.toServer i).tail j := hmsg
    by_cases hj : j = i
    · subst hj
      rw [Function.update_self] at hmem
      exact List.mem_of_mem_tail hmem
    · rwa [Function.update_of_ne hj] at hmem
  | server => exact ⟨hw.client, hw.sent⟩

/-- The exchange of one of the clients. -/
structure Hosting (k : Connections ι) (i : ι) (w : Crowd ι) (n : Net) : Prop where
  hosts : Hosts (k.fd i) (k.sessionId i) (w.view i) n
  named : w.Named k

/-- Whatever the others do, a client takes part in its own exchange. -/
theorem simulates (o : ByteOrder) (k : Connections ι) (i : ι) :
    (machine o k).Simulates (Net.machine o) (Apart k) (Hosting k i) (label k i) := by
  rintro w n a w' es ⟨hn, hw⟩ ha h
  have hw' := step_named hw h
  obtain ⟨hview, hes⟩ | ⟨b, es', hstep, hapart, hes⟩ := view_step hw ha h i
  · rw [hes]
    rw [← hview] at hn
    exact ⟨[], n, rfl, hn, hw'⟩
  · obtain ⟨bs, n', hrun, hn'⟩ := Hosted.simulates o (k.fd i) (k.sessionId i) _ n b _ es' hn hapart
      hstep
    rw [← hes]
    exact ⟨bs, n', hrun, hn', hw'⟩

/-! ### The process of the server -/

end Crowd

def ThreadsAct.reading (pdu : Option Msg) : ThreadsAct → ThreadsAct
  | .iterate env parm => .iterate { env with pdu := pdu } parm
  | a => a

/-- The process of the server, and each client with the messages on its connection. -/
structure CrowdThreads (ι : Type*) where
  client : ι → Client
  toServer : ι → List Msg
  server : ServerThreads
  toClient : ι → List Msg

inductive CrowdThreadsAct (ι : Type*) where
  | client (i : ι) (env : ClientEnv)
  | recv (i : ι) (env : ClientEnv)
  | server (a : ThreadsAct)

inductive CrowdThreadsEvent (ι : Type*) where
  | crowd (e : CrowdEvent ι)
  | start (e : StartEvent)

namespace CrowdThreadsEvent

variable {ι : Type*}

def ofThreads : ThreadsEvent → CrowdThreadsEvent ι
  | .master e => crowd (.server e)
  | .start e => start e

def crowd? : CrowdThreadsEvent ι → Option (CrowdEvent ι)
  | crowd e => some e
  | start _ => none

theorem filterMap_crowd?_crowd (es : List (CrowdEvent ι)) :
    (es.map crowd).filterMap crowd? = es := by
  rw [List.filterMap_map]
  exact List.filterMap_some

theorem filterMap_crowd?_ofThreads (es : List ThreadsEvent) :
    (es.map ofThreads).filterMap crowd? =
      (es.filterMap ThreadsEvent.master?).map (@CrowdEvent.server ι) := by
  rw [List.filterMap_map, List.map_filterMap]
  refine List.filterMap_congr fun e _ => ?_
  cases e <;> rfl

end CrowdThreadsEvent

namespace CrowdThreads

variable {ι : Type*}

def start (c : ι → Client) (s : ServerThreads) : CrowdThreads ι :=
  ⟨c, fun _ => [], s, fun _ => []⟩

/-- The crowd without the threads of the server. -/
def crowd (w : CrowdThreads ι) : Crowd ι := ⟨w.client, w.toServer, w.server.server, w.toClient⟩

/-- After a step of a client. -/
def withCrowd (w : CrowdThreads ι) (c : Crowd ι) : CrowdThreads ι :=
  { w with
    client := c.client
    toServer := c.toServer
    toClient := c.toClient }

/-- The client whose message is read in the step. -/
def reader? (k : Connections ι) (w : CrowdThreads ι) : ThreadsAct → Option ι
  | .iterate env _ => w.crowd.reader? k (.iterate env)
  | _ => none

/-- Other connections carry none of the session ids. -/
def Apart (k : Connections ι) (w : CrowdThreads ι) : ThreadsAct → Prop
  | .iterate env _ => w.crowd.Apart k (.server (.iterate env))
  | _ => True

/-- The step stays inside the memory of the server and of the clients. -/
def Defined (o : ByteOrder) (w : CrowdThreads ι) : CrowdThreadsAct ι → Prop
  | .client i env | .recv i env => (w.client i).InBounds o env
  | .server a => w.server.Defined o a

/-- The server is sound, the clients stay inside their memory, and other connections carry none of
the session ids. -/
def Sound (o : ByteOrder) (k : Connections ι) (w : CrowdThreads ι) : CrowdThreadsAct ι → Prop
  | .client i env | .recv i env => (w.client i).InBounds o env
  | .server a => w.server.Sound o a ∧ w.Apart k a

instance (o : ByteOrder) (w : CrowdThreads ι) : DecidablePred (w.Defined o)
  | .client i env | .recv i env => inferInstanceAs (Decidable ((w.client i).InBounds o env))
  | .server a => inferInstanceAs (Decidable (w.server.Defined o a))

instance [Fintype ι] (k : Connections ι) (w : CrowdThreads ι) : DecidablePred (w.Apart k)
  | .iterate env _ => inferInstanceAs (Decidable (w.crowd.Apart k (.server (.iterate env))))
  | .listen _ | .start _ | .run _ _ _ | .wait _ _ _ | .ends _ _ => inferInstanceAs (Decidable True)

instance [Fintype ι] (o : ByteOrder) (k : Connections ι) (w : CrowdThreads ι) :
    DecidablePred (w.Sound o k)
  | .client i env | .recv i env => inferInstanceAs (Decidable ((w.client i).InBounds o env))
  | .server a => inferInstanceAs (Decidable (w.server.Sound o a ∧ w.Apart k a))

variable [DecidableEq ι]

def withServer (k : Connections ι) (w : CrowdThreads ι) (s : ServerThreads)
    (es : List ThreadsEvent) : CrowdThreads ι :=
  { w with
    server := s
    toClient := fun i => w.toClient i ++
      (es.filterMap ThreadsEvent.master?).filterMap (MasterEvent.wroteOn? (k.fd i)) }

def step (o : ByteOrder) (k : Connections ι) (w : CrowdThreads ι) :
    CrowdThreadsAct ι → Option (CrowdThreads ι × List (CrowdThreadsEvent ι))
  | .client i env => (w.crowd.step o k (.client i env)).map fun r =>
      (w.withCrowd r.1, r.2.map .crowd)
  | .recv i env => (w.crowd.step o k (.recv i env)).map fun r => (w.withCrowd r.1, r.2.map .crowd)
  | .server a =>
    match w.reader? k a with
    | some i => (w.server.step o (a.reading (w.toServer i).head?)).map fun r =>
        ({ w with toServer := Function.update w.toServer i (w.toServer i).tail }.withServer k
          r.1 r.2, r.2.map .ofThreads)
    | none => (w.server.step o a).map fun r => (w.withServer k r.1 r.2, r.2.map .ofThreads)

def machine (o : ByteOrder) (k : Connections ι) :
    EventMachine (CrowdThreads ι) (CrowdThreadsAct ι) (CrowdThreadsEvent ι) := ⟨step o k⟩

/-- The processes of the server and of the clients. -/
def process (o : ByteOrder) (k : Connections ι) : EventMachine (Option (CrowdThreads ι))
    (CrowdThreadsAct ι × List (CrowdThreadsEvent ι)) (CrowdThreadsEvent ι) :=
  (machine o k).orUndefined (Defined o)

variable {o : ByteOrder} {k : Connections ι} {w w' : CrowdThreads ι} {a : CrowdThreadsAct ι}
  {es : List (CrowdThreadsEvent ι)}

theorem crowd_withCrowd {b : CrowdAct ι} {c : Crowd ι} {ces : List (CrowdEvent ι)}
    (hb : ∀ a, b ≠ .server a) (h : w.crowd.step o k b = some (c, ces)) :
    (w.withCrowd c).crowd = c := by
  cases Crowd.step_cases h with
  | client => rfl
  | recv => rfl
  | reads => exact absurd rfl (hb _)
  | server => exact absurd rfl (hb _)

/-- The server reads a message of a client. -/
theorem reads_crowd (hw : w.server.Inv) {i : ι} {env : LoopEnv} {parm : ℕ} {s : ServerThreads}
    {tes : List ThreadsEvent} (ha : w.server.Sound o (.iterate env parm))
    (hreader : w.crowd.reader? k (.iterate env) = some i)
    (hstep : w.server.step o (.iterate { env with pdu := (w.toServer i).head? } parm) =
      some (s, tes)) :
    s.Inv ∧ w.crowd.step o k (.server (.iterate env)) =
      some (({ w with toServer := Function.update w.toServer i (w.toServer i).tail }.withServer k
        s tes).crowd, (tes.filterMap ThreadsEvent.master?).map .server) := by
  have ha' : w.server.Sound o (.iterate { env with pdu := (w.toServer i).head? } parm) := ha
  obtain ⟨hs, hrun⟩ := hw.step ha' hstep
  have hserver : w.crowd.server.step o (MasterAct.reading (w.crowd.toServer i).head?
      (.iterate env)) = some (s.server, tes.filterMap ThreadsEvent.master?) :=
    EventMachine.run_singleton_iff.1 hrun
  refine ⟨hs, ?_⟩
  simp only [Crowd.step, hreader, hserver, Option.map_some]
  rfl

omit [DecidableEq ι] in
/-- What the server does otherwise is no reading of a client's message. -/
theorem masterAct?_reader {a : ThreadsAct} {b : MasterAct} (hb : w.server.masterAct? a = some b)
    (hreader : w.reader? k a = none) (hapart : w.Apart k a) :
    w.crowd.reader? k b = none ∧ w.crowd.Apart k (.server b) := by
  cases a with
  | iterate env parm =>
    cases hb
    exact ⟨hreader, hapart⟩
  | run j env next =>
    obtain ⟨fr, -, rfl⟩ := Option.map_eq_some_iff.1 hb
    exact ⟨rfl, trivial⟩
  | start b => cases hb
  | listen sock | wait id j env | ends id j =>
    cases hb
    exact ⟨rfl, trivial⟩

/-- A step of the server is one in the crowd, or of no matter to it. -/
theorem server_crowd (hw : w.server.Inv) {a : ThreadsAct} (ha : w.server.Sound o a)
    (hapart : w.Apart k a) (h : w.step o k (.server a) = some (w', es)) :
    w'.server.Inv ∧ ((w'.crowd = w.crowd ∧ es.filterMap CrowdThreadsEvent.crowd? = []) ∨
      ∃ b, w.crowd.step o k b = some (w'.crowd, es.filterMap CrowdThreadsEvent.crowd?) ∧
        w.crowd.Apart k b) := by
  simp only [step] at h
  split at h
  case h_1 i hreader =>
    obtain ⟨⟨s, tes⟩, hstep, heq⟩ := Option.map_eq_some_iff.1 h
    cases heq
    rw [CrowdThreadsEvent.filterMap_crowd?_ofThreads]
    cases a with
    | iterate env parm =>
      obtain ⟨hs, hcrowd⟩ := reads_crowd hw ha hreader hstep
      exact ⟨hs, .inr ⟨_, hcrowd, hapart⟩⟩
    | _ => cases hreader
  case h_2 hreader =>
    obtain ⟨⟨s, tes⟩, hstep, heq⟩ := Option.map_eq_some_iff.1 h
    cases heq
    rw [CrowdThreadsEvent.filterMap_crowd?_ofThreads]
    refine ⟨(hw.step ha hstep).1, ?_⟩
    obtain ⟨hserver, htes⟩ | ⟨b, hb, hserver⟩ := hw.step_server ha hstep
    · refine .inl ⟨?_, by rw [htes]; rfl⟩
      simp only [crowd, withServer, hserver, htes, List.filterMap_nil, List.append_nil]
    · obtain ⟨hreader', hapart'⟩ := masterAct?_reader hb hreader hapart
      have hserver' : w.crowd.server.step o b =
          some (s.server, tes.filterMap ThreadsEvent.master?) := hserver
      refine .inr ⟨.server b, ?_, hapart'⟩
      simp only [Crowd.step, hreader', hserver', Option.map_some]
      rfl

/-- A step is one of the crowd, or of no matter to it. -/
theorem step_crowd (hw : w.server.Inv) (ha : w.Sound o k a) (h : w.step o k a = some (w', es)) :
    w'.server.Inv ∧ ((w'.crowd = w.crowd ∧ es.filterMap CrowdThreadsEvent.crowd? = []) ∨
      ∃ b, w.crowd.step o k b = some (w'.crowd, es.filterMap CrowdThreadsEvent.crowd?) ∧
        w.crowd.Apart k b) := by
  cases a with
  | client i env =>
    obtain ⟨⟨c, ces⟩, hstep, heq⟩ := Option.map_eq_some_iff.1 h
    cases heq
    refine ⟨hw, .inr ⟨.client i env, ?_, trivial⟩⟩
    rw [crowd_withCrowd (fun _ => by simp) hstep, CrowdThreadsEvent.filterMap_crowd?_crowd]
    exact hstep
  | recv i env =>
    obtain ⟨⟨c, ces⟩, hstep, heq⟩ := Option.map_eq_some_iff.1 h
    cases heq
    refine ⟨hw, .inr ⟨.recv i env, ?_, trivial⟩⟩
    rw [crowd_withCrowd (fun _ => by simp) hstep, CrowdThreadsEvent.filterMap_crowd?_crowd]
    exact hstep
  | server a => exact server_crowd hw ha.1 ha.2 h

/-- The exchange of one of the clients. -/
structure Hosting (k : Connections ι) (i : ι) (w : CrowdThreads ι) (n : Net) : Prop where
  inv : w.server.Inv
  hosting : w.crowd.Hosting k i n

def label (k : Connections ι) (i : ι) (e : CrowdThreadsEvent ι) : Option NetEvent :=
  e.crowd?.bind (Crowd.label k i)

theorem filterMap_label (k : Connections ι) (i : ι) (es : List (CrowdThreadsEvent ι)) :
    es.filterMap (label k i) =
      (es.filterMap CrowdThreadsEvent.crowd?).filterMap (Crowd.label k i) := by
  rw [List.filterMap_filterMap]
  rfl

/-- Whatever the others do, and whenever the threads start, a client takes part in its own
exchange. -/
theorem simulates (o : ByteOrder) (k : Connections ι) (i : ι) :
    (machine o k).Simulates (Net.machine o) (Sound o k) (Hosting k i) (label k i) := by
  rintro w n a w' es ⟨hinv, hn⟩ ha h
  obtain ⟨hinv', hcrowd⟩ := step_crowd hinv ha h
  rw [filterMap_label]
  obtain ⟨hsame, hes⟩ | ⟨b, hstep, hapart⟩ := hcrowd
  · rw [hes]
    exact ⟨[], n, rfl, hinv', by rw [hsame]; exact hn⟩
  · obtain ⟨bs, n', hrun, hn'⟩ := Crowd.simulates o k i _ n b _ _ hn hapart hstep
    exact ⟨bs, n', hrun, hinv', hn'⟩

theorem step_inv (hw : w.server.Inv) (ha : w.Sound o k a) (h : w.step o k a = some (w', es)) :
    w'.server.Inv := (step_crowd hw ha h).1

omit [DecidableEq ι] in
theorem defined_of_sound (hw : w.server.Inv) (ha : w.Sound o k a) : w.Defined o a := by
  cases a with
  | client i env | recv i env => exact ha
  | server a => exact hw.defined ha.1

/-- The clients, each about to negotiate with its session id. -/
def negotiating (o : ByteOrder) (k : Connections ι) (c : ι → Client) (bufferObj : ι → CString)
    (loopCount flag : ι → UInt8) (i : ι) : Client :=
  (c i).negotiate o (k.sessionId i) (bufferObj i) (loopCount i) (flag i)

section Runs

variable {c : ι → Client} {bufferObj : ι → CString} {loopCount flag : ι → UInt8} {udpSock : ℤ}
  {localInterfaces : List CString} {fds : ℕ → ℤ} {stack : ℕ → SessionRunParms}
  {as : List (CrowdThreadsAct ι × List (CrowdThreadsEvent ι))} {t : Option (CrowdThreads ι)}

theorem run_hosting
    (hok : (machine o k).Guarded (Sound o k) (start (negotiating o k c bufferObj loopCount flag)
      (.start (.start udpSock localInterfaces fds) stack)) (as.map Prod.fst))
    (hrun : (process o k).run (some (start (negotiating o k c bufferObj loopCount flag)
      (.start (.start udpSock localInterfaces fds) stack))) as = some (t, es)) :
    ∃ w, t = some w ∧ ∀ i, ∃ bs n, (Net.machine o).run
        (.start (negotiating o k c bufferObj loopCount flag i)) bs =
          some (n, es.filterMap (label k i)) ∧ Hosting k i w n := by
  have hinv : (ServerThreads.start (.start udpSock localInterfaces fds) stack).Inv :=
    ServerThreads.inv_start _ stack fun _ => rfl
  obtain ⟨w, rfl, -, hrun'⟩ := EventMachine.run_orUndefined_of_inv
    (I := fun w => w.server.Inv) (fun w a w' es hw ha h => step_inv hw ha h)
    (fun w a hw ha => defined_of_sound hw ha) hinv hok hrun
  refine ⟨w, rfl, fun i => (simulates o k i).run ⟨hinv, ?_, ?_⟩ hok hrun'⟩
  · have hsetup : (negotiating o k c bufferObj loopCount flag i).pc.Setup := trivial
    exact .start hsetup rfl rfl fun _ _ hss => by cases hss
  · exact ⟨fun _ => rfl, fun _ _ hmsg => absurd hmsg List.not_mem_nil⟩

/-- Any number of clients negotiate with one server.  If they have chosen different ids, other
connections carry none of these, each call of `distribute` returns only after its thread has read
its parameters and everybody stays inside the memory, then in every interleaving each client, its
session in the table and the messages between them are those of a run of its exchange alone. -/
theorem crowd_refines
    (hok : (machine o k).Guarded (Sound o k) (start (negotiating o k c bufferObj loopCount flag)
      (.start (.start udpSock localInterfaces fds) stack)) (as.map Prod.fst))
    (hrun : (process o k).run (some (start (negotiating o k c bufferObj loopCount flag)
      (.start (.start udpSock localInterfaces fds) stack))) as = some (t, es)) :
    ∃ w, t = some w ∧ ∀ i, ∃ bs n, (Net.machine o).run
        (.start (negotiating o k c bufferObj loopCount flag i)) bs =
          some (n, es.filterMap (label k i)) ∧
      n.client = w.client i ∧ n.toServer = w.toServer i ∧ n.toClient = w.toClient i ∧
      w.server.server.ssMap (k.sessionId i) =
        (n.session.filter (!·.runPc.isDone)).map (SessionEntry.mk (k.fd i)) := by
  obtain ⟨w, rfl, hosting⟩ := run_hosting hok hrun
  refine ⟨w, rfl, fun i => ?_⟩
  obtain ⟨bs, n, hnet, hn⟩ := hosting i
  have hhosts := hn.hosting.hosts
  exact ⟨bs, n, hnet, hhosts.client, hhosts.toServer, hhosts.toClient, hhosts.entry⟩

/-- The clients 7 and 8 on the descriptors 5 and 6. -/
def two : Connections Bool where
  fd b := if b then 6 else 5
  sessionId b := if b then 8 else 7
  client? sock := if sock = 5 then some false else if sock = 6 then some true else none
  client?_eq_some_iff sock b := by
    cases b <;> simp <;> grind
  injective := by decide

/-- The clients, and the server before anybody is connected. -/
def sample : CrowdThreads Bool :=
  start (negotiating .little two (fun _ => Client.new (CharArray.zero _)) (fun _ => valueA)
    (fun _ => 9) fun _ => 0) .sample

/-- A client on a new connection writes its request, the server reads it, and the thread of the
session reads its parameters. -/
def connects (b : Bool) : List (CrowdThreadsAct Bool) :=
  .server (.iterate (ServerMaster.inputEnv [4] (two.fd b) none) 0) ::
    List.replicate 3 (.client b (Client.sample .fail false)) ++
    [.server (.iterate (ServerMaster.inputEnv [if b then 6 else 5] 0 none) 0),
      .server (.start (.read b.toNat .ss)), .server (.start (.read b.toNat .sm)),
      .server (.start .ret)]

/-- The sessions answer at the same time, one with an Accept, and the clients read that. -/
def bothAtOnce : List (CrowdThreadsAct Bool) :=
  let round : List (CrowdThreadsAct Bool) :=
    [.server (.run 0 (ServerSession.answerEnv true) (some 0)),
      .server (.run 1 (ServerSession.answerEnv false) none)]
  .server (.listen 4) :: connects false ++ connects true ++ (List.replicate 16 round).flatten ++
    .server (.wait 7 0 ⟨.success, 0⟩) :: round ++
    [.recv false (Client.sample .fail false), .recv true (Client.sample .fail false)]

theorem bothAtOnce_sound : (machine .little two).Guarded (Sound .little two) sample
    ((bothAtOnce.map (·, ([] : List (CrowdThreadsEvent Bool)))).map Prod.fst) := by
  decide +kernel

theorem crowd_refines_both :
    ∃ w es, (process .little two).run (some sample) (bothAtOnce.map (·, [])) = some (some w, es) ∧
      (∀ b, (es.filterMap (label two b)).length = 5) ∧
      ∀ b, ∃ bs n, (Net.machine .little).run (.start (sample.client b)) bs =
          some (n, es.filterMap (label two b)) ∧
        n.client = w.client b ∧ n.toServer = w.toServer b ∧ n.toClient = w.toClient b := by
  have hsample : ((process .little two).run (some sample) (bothAtOnce.map (·, []))).map
      (fun r => decide (∀ b, (r.2.filterMap (label two b)).length = 5)) = some true := by
    decide +kernel
  obtain ⟨⟨t, es⟩, hrun, hlen⟩ := Option.map_eq_some_iff.1 hsample
  obtain ⟨w, rfl, hboth⟩ := crowd_refines bothAtOnce_sound hrun
  refine ⟨w, es, hrun, of_decide_eq_true hlen, fun b => ?_⟩
  obtain ⟨bs, n, hnet, hclient, htoServer, htoClient, -⟩ := hboth b
  exact ⟨bs, n, hnet, hclient, htoServer, htoClient⟩

/-- At such a server too, each session takes at most one NEGO_MSG of its client and writes at most
two. -/
theorem crowd_stalls
    (hok : (machine o k).Guarded (Sound o k) (start (negotiating o k c bufferObj loopCount flag)
      (.start (.start udpSock localInterfaces fds) stack)) (as.map Prod.fst))
    (hrun : (process o k).run (some (start (negotiating o k c bufferObj loopCount flag)
      (.start (.start udpSock localInterfaces fds) stack))) as = some (t, es)) (i : ι) :
    (es.filterMap (label k i)).countP (NetEvent.takes .negoMsg) ≤ 1 ∧
      (es.filterMap (label k i)).countP NetEvent.isCounter ≤ 2 := by
  obtain ⟨w, rfl, hosting⟩ := run_hosting hok hrun
  obtain ⟨bs, n, hnet, -⟩ := hosting i
  exact run_counters_le hnet

theorem crowd_stalls_both :
    ∃ t es, (process .little two).run (some sample) (bothAtOnce.map (·, [])) = some (t, es) ∧
      ∀ b, (es.filterMap (label two b)).countP (NetEvent.takes .negoMsg) ≤ 1 ∧
        (es.filterMap (label two b)).countP NetEvent.isCounter ≤ 2 := by
  have hsample : ((process .little two).run (some sample) (bothAtOnce.map (·, []))).isSome := by
    decide +kernel
  obtain ⟨⟨t, es⟩, hrun⟩ := Option.isSome_iff_exists.1 hsample
  exact ⟨t, es, hrun, crowd_stalls bothAtOnce_sound hrun⟩

end Runs

end CrowdThreads

end Gdnp
