import Gdnp.Client
import Gdnp.Offer
import Gdnp.Session

/-!
# A negotiation between a client and a session

The negotiation thread of a client and a server session are joined by two reliable ordered
channels, each of which delivers whole PDUs, one to a call of `read_pdu`.  A step is one of the
client, of a thread of the session, the receipt of a message by the client, or its receipt by the
server, which starts the session or puts the message into its queue.
-/

open CMem

namespace Gdnp

inductive NetEvent where
  | client (e : ClientEvent)
  | server (e : SessionEvent)

namespace NetEvent

/-- A REQUEST_MSG or a NEGO_MSG is written. -/
def isOffer : NetEvent → Bool
  | client (.wrote _ msg) => msg.hasType fun type => type = .requestMsg ∨ type = .negoMsg
  | server (.wrote _ msg) => msg.hasType (· = .negoMsg)
  | _ => false

end NetEvent

/-- What happened so far: the client's most recent offer, what the session has written since then
and in answer to which message, and how many offers both have written. -/
structure History where
  offer : Option Content
  replies : List (Content × Msg)
  offers : ℕ

namespace History

def empty : History := ⟨none, [], 0⟩

def next (h : History) : NetEvent → History
  | .client (.wrote _ msg) =>
    if msg.hasType fun type => type = .requestMsg ∨ type = .negoMsg then
      ⟨Content.ofMsg msg, [], h.offers + 1⟩
    else h
  | .server (.wrote answers msg) =>
    ⟨h.offer, (answers.map (·, msg)).toList ++ h.replies,
      h.offers + if msg.hasType (· = .negoMsg) then 1 else 0⟩
  | _ => h

theorem next_offers (h : History) (e : NetEvent) :
    (h.next e).offers = h.offers + if e.isOffer then 1 else 0 := by
  cases e with
  | client e =>
    cases e with
    | wrote answers msg =>
      simp only [next, NetEvent.isOffer]
      split_ifs <;> simp_all
    | _ => rfl
  | server e => cases e <;> rfl

end History

/-- The two parties, the messages on their way, and the history. -/
structure Net where
  client : Client
  toServer : List Msg
  session : Option ServerSession
  toClient : List Msg
  history : History

/-- `client` is a step of the client that reads no message from the channel (a read fails, or finds
the end of the stream); `recv` is a `read_pdu` of the client that does, and `deliver` one of the
server, where `last` is what the uninitialised `last_content` of a new session holds. -/
inductive NetAct where
  | client (env : ClientEnv)
  | recv (env : ClientEnv)
  | deliver (last : Content)
  | server (a : SessionAct)

def ClientEvent.msg? : ClientEvent → Option Msg
  | wrote _ msg => some msg
  | _ => none

def SessionEvent.msg? : SessionEvent → Option Msg
  | wrote _ msg => some msg
  | _ => none

namespace Net

def start (c : Client) : Net := ⟨c, [], none, [], .empty⟩

/-- The client after a step with the given events. -/
def withClient (n : Net) (c : Client) (es : List ClientEvent) : Net :=
  { n with
    client := c
    toServer := n.toServer ++ es.filterMap ClientEvent.msg?
    history := (es.map NetEvent.client).foldl History.next n.history }

/-- The session after a step with the given events. -/
def withSession (n : Net) (s : ServerSession) (es : List SessionEvent) : Net :=
  { n with
    session := some s
    toClient := n.toClient ++ es.filterMap SessionEvent.msg?
    history := (es.map NetEvent.server).foldl History.next n.history }

/-- `distribute`, for the one session of the exchange. -/
def distribute (n : Net) (d : Decoded) (last : Content) : Net :=
  match n.session with
  | none =>
    if d.type = .requestMsg then
      { n with session := some (.new d.sessionId ⟨d.type, d.data⟩ last) }
    else n
  | some s =>
    if s.sessionId = d.sessionId ∧ s.runPc.isDone = false ∧ d.type ≠ .requestMsg then
      { n with session := some { s with q := s.q ++ [⟨d.type, d.data⟩] } }
    else n

def step (o : ByteOrder) (n : Net) : NetAct → Option (Net × List NetEvent)
  | .client env =>
    (n.client.step o env).map fun r => (n.withClient r.1 r.2, r.2.map .client)
  | .recv env =>
    match n.client.pc, n.toClient with
    | .read _ _ _, msg :: msgs => (n.client.step o { env with read := .pdu msg }).map fun r =>
        ({ n with toClient := msgs }.withClient r.1 r.2, r.2.map .client)
    | _, _ => none
  | .deliver last =>
    match n.toServer with
    | [] => none
    | msg :: msgs =>
      match decode (some msg) with
      | .error _ => some ({ n with toServer := msgs }, [])
      | .ok d => some ({ n with toServer := msgs }.distribute d last, [])
  | .server (.push _) => none
  | .server a => n.session.bind fun s =>
      (s.step o a).map fun r => (n.withSession r.1 r.2, r.2.map .server)

def machine (o : ByteOrder) : EventMachine Net NetAct NetEvent := ⟨step o⟩

/-- The branches of `step`. -/
inductive Step (o : ByteOrder) (n : Net) : NetAct → Net → List NetEvent → Prop
  | client {env c es} (h : n.client.Step o env c es) :
    Step o n (.client env) (n.withClient c es) (es.map .client)
  | recv {env type actual site msg msgs c es} (pc : n.client.pc = .read type actual site)
      (hn : n.toClient = msg :: msgs) (h : n.client.Step o { env with read := .pdu msg } c es) :
    Step o n (.recv env) ({ n with toClient := msgs }.withClient c es) (es.map .client)
  | drop {last msg msgs e} (hn : n.toServer = msg :: msgs) (hd : decode (some msg) = .error e) :
    Step o n (.deliver last) { n with toServer := msgs } []
  | deliver {last msg msgs d} (hn : n.toServer = msg :: msgs) (hd : decode (some msg) = .ok d) :
    Step o n (.deliver last) ({ n with toServer := msgs }.distribute d last) []
  | server {a s s' es} (ha : ∀ c, a ≠ .push c) (hs : n.session = some s)
      (h : s.step o a = some (s', es)) :
    Step o n (.server a) (n.withSession s' es) (es.map .server)

/-- Every step is one of the branches. -/
theorem step_cases {o : ByteOrder} {n n' : Net} {a : NetAct} {es : List NetEvent}
    (h : n.step o a = some (n', es)) : Step o n a n' es := by
  cases a with
  | client env =>
    obtain ⟨r, hstep, heq⟩ := Option.map_eq_some_iff.1 h
    cases heq
    exact .client (Client.step_cases hstep)
  | recv env =>
    simp only [step] at h
    split at h
    · obtain ⟨r, hstep, heq⟩ := Option.map_eq_some_iff.1 h
      cases heq
      exact .recv ‹_› ‹_› (Client.step_cases hstep)
    · cases h
  | deliver last =>
    simp only [step] at h
    split at h
    · cases h
    · split at h <;> cases h
      · exact .drop ‹_› ‹_›
      · exact .deliver ‹_› ‹_›
  | server a =>
    cases a with
    | push c => cases h
    | _ =>
      obtain ⟨s, hs, hmap⟩ := Option.bind_eq_some_iff.1 h
      obtain ⟨r, hstep, heq⟩ := Option.map_eq_some_iff.1 hmap
      cases heq
      exact .server (fun c hc => by cases hc) hs hstep

/-! ### Parts of sample runs -/

/-- The client writes its request, and the server reads it. -/
def opening : List NetAct :=
  List.replicate 3 (.client (Client.sample .fail false)) ++
    [.deliver ⟨.requestMsg, CharArray.zero _⟩]

/-- The session pops an offer and writes its answer to it. -/
def answering (geq : Bool) : List NetAct := List.replicate 13 (.server (ServerSession.answer geq))

end Net

end Gdnp
