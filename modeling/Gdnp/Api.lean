import Gdnp.Discover

/-!
# The public calls of a client

`discover`, `negotiate` and `synchronize` work on one object.  The application makes one call after
the other, but `negotiate` returns once it has started the negotiation thread, which then runs
beside the next calls.  The thread and `synchronize` both run `send_tcp`, on buffers of their own
and with a socket of their own, but `write_pdu` and `read_pdu` use the member `tcp_sock`, and all
other fields are shared too (`ApiClient.view`).

There is at most one negotiation thread: `negotiate` is not called again while it runs.

`inetNtop` stands for `inet_ntop`.
-/

open CMem

namespace Gdnp

/-- `sockAddrEqual`, which compares the texts of the addresses. -/
def sockAddrEqual (inetNtop : BitVec 128 → CString) (actual expected : SockAddr) : Bool :=
  inetNtop actual.addr = inetNtop expected.addr ∧ actual.port = expected.port

/-- `BroadcastAddr` in `negotiate` and `synchronize`. -/
def broadcastAddr : SockAddr := ⟨0xff020000000000000000000000000001, 4444⟩

/-- `synchronize` up to the call of `send_tcp`, on its own buffer. -/
def Client.synchronize (o : ByteOrder) (c : Client) (sessionId : UInt32) (bufferObj : CString)
    (buffer : CharArray maxStringLength) : Client :=
  { c with
    sessionId := sessionId
    loopCount := 1
    flag := 0
    buffer := buffer.memcpy ((objectiveOf .synchronization bufferObj 1 0).toBits o)
    curStates := .off
    pc := .sendTcp }

/-- What only the negotiation thread touches while it runs. -/
def Client.thread (c : Client) : ClientPc × CharArray maxStringLength := (c.pc, c.buffer)

/-- What runs `send_tcp`: the negotiation thread, or a call of `synchronize`. -/
inductive Operation where
  | negoThread
  | synchronize
  deriving DecidableEq

/-- `buffer` of a call of `synchronize`, `tcp_sock` of `send_negotiate` in it, and what it does
next. -/
structure SyncCall where
  buffer : CharArray maxStringLength
  tcpSock : ℤ
  pc : ClientPc

/-- A client with the local variables of the operations that run; `recvTimeout` is the receive
timeout that was set last, on either socket. -/
structure ApiClient extends UdpClient where
  /-- The member `tcp_sock`. -/
  tcpSock : ℤ
  /-- `tcp_sock` of `send_negotiate` in the negotiation thread. -/
  negoSock : ℤ
  sync : SyncCall

/-- A step of the application or of an operation; `sock` is what `socket` gives, `ret` what
`pthread_create` gives, and `type` and `buffer` are what uninitialised variables hold. -/
inductive ApiAct where
  | discover (sock : ℤ) (rand : UInt32) (type : MsgType) (buffer : CharArray maxStringLength)
  | discoverStep (env : DiscoverEnv)
  | negotiate (bufferObj : CString) (rand : UInt32) (ret : ℤ)
  | synchronize (bufferObj : CString) (rand : UInt32) (buffer : CharArray maxStringLength)
  | operate (op : Operation) (env : ClientEnv) (sock : ℤ)

inductive ApiEvent where
  | discovery (e : DiscoverEvent)
  /-- The operation runs, with a request in its buffer. -/
  | started (op : Operation) (request : CharArray maxStringLength)
  /-- `socket` is called. -/
  | opened (op : Operation) (sock : ℤ)
  /-- A message is written to a socket, in answer to `answers`. -/
  | wrote (op : Operation) (sock : ℤ) (answers : Option Content) (msg : Msg)
  /-- `read_pdu` is called on a socket. -/
  | read (op : Operation) (sock : ℤ)
  /-- `do_negotiate` is called after a read of a PDU with the given session id. -/
  | received (op : Operation) (sessionId : Option UInt32) (c : Content)
  /-- `do_configuration` is called on a value. -/
  | configured (op : Operation) (value : List UInt8)
  /-- A counter-offer is stored in `lastTopOptions`. -/
  | offered (op : Operation) (offer : CharArray maxStringLength)
  /-- `lastTopOptions` is set at the end of an operation. -/
  | stored (op : Operation)
  | returned (op : Operation) (rtnval : Errno)

/-- No call of `discover` runs. -/
def DiscoverPc.ended : DiscoverPc → Bool
  | idle | ret _ => true
  | _ => false

/-- The session id in the PDU that a call of `read_pdu` gets. -/
def ReadEnv.sessionId? : ReadEnv → Option UInt32
  | fail => none
  | pdu msg => match decode (some msg) with
    | .ok d => some d.sessionId
    | .error _ => none

def ApiEvent.ofClient (op : Operation) (sock : ℤ) (sessionId : Option UInt32) :
    ClientEvent → ApiEvent
  | .wrote answers msg => wrote op sock answers msg
  | .received c => received op sessionId c
  | .configured _ value => configured op value

namespace ApiClient

/-- The constructor; `last` and `port` are what `lastTopOptions` and the port of `negoAddr`
hold. -/
def new (last : CharArray maxStringLength) (port : UInt16) : ApiClient where
  toUdpClient := .new last port
  tcpSock := -1
  negoSock := -1
  sync := ⟨CharArray.zero _, -1, .idle⟩

/-- The client as an operation sees it. -/
def view (c : ApiClient) : Operation → Client
  | .negoThread => c.toClient
  | .synchronize => { c.toClient with buffer := c.sync.buffer, pc := c.sync.pc }

/-- The client after an operation has changed what it sees to `v`. -/
def put (c : ApiClient) (v : Client) : Operation → ApiClient
  | .negoThread => { c with toUdpClient := { c.toUdpClient with toClient := v } }
  | .synchronize =>
    { c with
      toUdpClient :=
        { c.toUdpClient with toClient := { v with buffer := c.buffer, pc := c.pc } }
      sync := { c.sync with buffer := v.buffer, pc := v.pc } }

/-- `tcp_sock` of `send_negotiate`. -/
def ownSock (c : ApiClient) : Operation → ℤ
  | .negoThread => c.negoSock
  | .synchronize => c.sync.tcpSock

def setOwnSock (c : ApiClient) (sock : ℤ) : Operation → ApiClient
  | .negoThread => { c with negoSock := sock }
  | .synchronize => { c with sync := { c.sync with tcpSock := sock } }

/-- `client_tcp_init` stores the socket of the operation, which is opened before the first attempt
to connect, in the member `tcp_sock`. -/
def tcpInit (c : ApiClient) (op : Operation) (sock : ℤ) : ApiClient × List ApiEvent :=
  match (c.view op).pc with
  | .connect => ({ c.setOwnSock sock op with tcpSock := sock }, [.opened op sock])
  | .retry => (if c.tryTimes < maxTryTimes then { c with tcpSock := c.ownSock op } else c, [])
  | _ => (c, [])

/-- The calls of `store_last_options` in a step. -/
def storeEvents (o : ByteOrder) (v : Client) (op : Operation) (env : ClientEnv) : List ApiEvent :=
  match v.pc with
  | .doNegotiate .negoMsg =>
    if env.geq = false ∧ (v.adopt o env).loopCount ≠ 0 then
      [.offered op ((v.adopt o env).counterOffer o env)]
    else []
  | .ret rtnval => if rtnval = .success then [.stored op] else []
  | _ => []

/-- The rest of `synchronize` after `send_tcp`. -/
def returnEvents (o : ByteOrder) (v : Client) (op : Operation) (env : ClientEnv) : List ApiEvent :=
  match v.pc, op with
  | .ret rtnval, .synchronize =>
    [.configured op (ObjectiveOption.parseBits o (v.buffer.mem env.after) env.uninit).getValue,
      .returned op rtnval]
  | _, _ => []

def readEvents (v : Client) (op : Operation) (sock : ℤ) : List ApiEvent :=
  match v.pc with
  | .read _ _ _ => [.read op sock]
  | _ => []

/-- One step of an operation. -/
def operate (o : ByteOrder) (c : ApiClient) (op : Operation) (env : ClientEnv) (sock : ℤ) :
    Option (ApiClient × List ApiEvent) :=
  let v := c.view op
  let t := c.tcpInit op sock
  (v.step o env).map fun r =>
    (t.1.put r.1 op, t.2 ++ readEvents v op t.1.tcpSock ++
      r.2.map (.ofClient op t.1.tcpSock env.read.sessionId?) ++ storeEvents o v op env ++
      returnEvents o v op env)

/-- A call of `negotiate`. -/
def negotiate (o : ByteOrder) (inetNtop : BitVec 128 → CString) (c : ApiClient)
    (bufferObj : CString) (rand : UInt32) (ret : ℤ) : ApiClient × List ApiEvent :=
  if sockAddrEqual inetNtop c.negoAddr broadcastAddr then (c, [.returned .negoThread .error])
  else
    let v := c.toClient.negotiate o (rand % UInt32.ofNat (maxSessionId + 1)) bufferObj 5 0
    if ret ≠ 0 then (c.put { v with pc := c.pc } .negoThread, [.returned .negoThread .error])
    else
      (c.put v .negoThread, [.started .negoThread v.buffer, .returned .negoThread .success])

/-- A call of `synchronize`, up to `send_tcp`. -/
def synchronize (o : ByteOrder) (inetNtop : BitVec 128 → CString) (c : ApiClient)
    (bufferObj : CString) (rand : UInt32) (buffer : CharArray maxStringLength) :
    ApiClient × List ApiEvent :=
  if sockAddrEqual inetNtop c.negoAddr broadcastAddr then (c, [.returned .synchronize .error])
  else
    let v := (c.view .synchronize).synchronize o (rand % UInt32.ofNat (maxSessionId + 1))
      bufferObj buffer
    (c.put v .synchronize, [.started .synchronize v.buffer])

/-- The application is in none of its calls. -/
def Free (c : ApiClient) : Prop := c.sync.pc = .idle ∧ c.discoverPc.ended = true

instance (c : ApiClient) : Decidable c.Free := inferInstanceAs (Decidable (_ ∧ _))

def step (o : ByteOrder) (inetPton : CString → Option (BitVec 128))
    (inetNtop : BitVec 128 → CString) (c : ApiClient) : ApiAct →
    Option (ApiClient × List ApiEvent)
  | .discover sock rand type buffer =>
    if c.Free then
      some ({ c with toUdpClient := c.toUdpClient.discover o sock rand type buffer }, [])
    else none
  | .discoverStep env => (c.toUdpClient.step o inetPton env).map fun r =>
      ({ c with toUdpClient := r.1 }, r.2.map .discovery)
  | .negotiate bufferObj rand ret =>
    if c.Free ∧ c.pc = .idle then some (c.negotiate o inetNtop bufferObj rand ret) else none
  | .synchronize bufferObj rand buffer =>
    if c.Free then some (c.synchronize o inetNtop bufferObj rand buffer) else none
  | .operate op env sock => c.operate o op env sock

/-- The client as a machine. -/
def machine (o : ByteOrder) (inetPton : CString → Option (BitVec 128))
    (inetNtop : BitVec 128 → CString) : EventMachine ApiClient ApiAct ApiEvent :=
  ⟨step o inetPton inetNtop⟩

/-! ### What an operation sees and changes -/

variable {o : ByteOrder} {inetPton : CString → Option (BitVec 128)}
  {inetNtop : BitVec 128 → CString} {c c' : ApiClient} {op op' : Operation} {v : Client}
  {env : ClientEnv} {sock : ℤ} {es : List ApiEvent}

@[simp] theorem view_put (c : ApiClient) (v : Client) (op : Operation) :
    (c.put v op).view op = v := by
  cases op <;> rfl

theorem view_put_of_ne (h : op' ≠ op) : (c.put v op).view op' =
    { v with buffer := (c.view op').buffer, pc := (c.view op').pc } := by
  cases op <;> cases op' <;> first | exact absurd rfl h | rfl

@[simp] theorem view_tcpInit (c : ApiClient) (op op' : Operation) (sock : ℤ) :
    (c.tcpInit op sock).1.view op' = c.view op' := by
  unfold tcpInit
  split
  · cases op <;> cases op' <;> rfl
  · dsimp only
    split_ifs
    · cases op' <;> rfl
    · rfl
  · rfl

@[simp] theorem discoverPc_put : (c.put v op).discoverPc = c.discoverPc := by
  cases op <;> rfl

@[simp] theorem discoverPc_tcpInit : (c.tcpInit op sock).1.discoverPc = c.discoverPc := by
  unfold tcpInit
  split
  · cases op <;> rfl
  · dsimp only
    split_ifs <;> rfl
  · rfl

@[simp] theorem negoAddr_put : (c.put v op).negoAddr = c.negoAddr := by
  cases op <;> rfl

@[simp] theorem negoAddr_tcpInit : (c.tcpInit op sock).1.negoAddr = c.negoAddr := by
  unfold tcpInit
  split
  · cases op <;> rfl
  · dsimp only
    split_ifs <;> rfl
  · rfl

/-- What a step of the client does. -/
inductive Step (o : ByteOrder) (inetPton : CString → Option (BitVec 128))
    (inetNtop : BitVec 128 → CString) (c : ApiClient) : ApiAct → ApiClient → List ApiEvent → Prop
  | discover {sock rand type buffer} (hfree : c.Free) :
    Step o inetPton inetNtop c (.discover sock rand type buffer)
      { c with toUdpClient := c.toUdpClient.discover o sock rand type buffer } []
  | discoverStep {env u ds} (hstep : c.toUdpClient.step o inetPton env = some (u, ds)) :
    Step o inetPton inetNtop c (.discoverStep env) { c with toUdpClient := u }
      (ds.map .discovery)
  | refuseNegotiate {bufferObj rand ret} (hfree : c.Free) (hidle : c.pc = .idle)
      (haddr : sockAddrEqual inetNtop c.negoAddr broadcastAddr) :
    Step o inetPton inetNtop c (.negotiate bufferObj rand ret) c [.returned .negoThread .error]
  | noThread {bufferObj rand ret v} (hfree : c.Free) (hidle : c.pc = .idle)
      (haddr : ¬ sockAddrEqual inetNtop c.negoAddr broadcastAddr) (hret : ret ≠ 0)
      (hv : v = c.toClient.negotiate o (rand % UInt32.ofNat (maxSessionId + 1)) bufferObj 5 0) :
    Step o inetPton inetNtop c (.negotiate bufferObj rand ret)
      (c.put { v with pc := c.pc } .negoThread) [.returned .negoThread .error]
  | negotiate {bufferObj rand v} (hfree : c.Free) (hidle : c.pc = .idle)
      (haddr : ¬ sockAddrEqual inetNtop c.negoAddr broadcastAddr)
      (hv : v = c.toClient.negotiate o (rand % UInt32.ofNat (maxSessionId + 1)) bufferObj 5 0) :
    Step o inetPton inetNtop c (.negotiate bufferObj rand 0) (c.put v .negoThread)
      [.started .negoThread v.buffer, .returned .negoThread .success]
  | refuseSynchronize {bufferObj rand buffer} (hfree : c.Free)
      (haddr : sockAddrEqual inetNtop c.negoAddr broadcastAddr) :
    Step o inetPton inetNtop c (.synchronize bufferObj rand buffer) c
      [.returned .synchronize .error]
  | synchronize {bufferObj rand buffer v} (hfree : c.Free)
      (haddr : ¬ sockAddrEqual inetNtop c.negoAddr broadcastAddr)
      (hv : v = (c.view .synchronize).synchronize o (rand % UInt32.ofNat (maxSessionId + 1))
        bufferObj buffer) :
    Step o inetPton inetNtop c (.synchronize bufferObj rand buffer) (c.put v .synchronize)
      [.started .synchronize v.buffer]
  | operate {op env sock v ces es} (hstep : (c.view op).step o env = some (v, ces))
      (hes : c.operate o op env sock = some ((c.tcpInit op sock).1.put v op, es)) :
    Step o inetPton inetNtop c (.operate op env sock) ((c.tcpInit op sock).1.put v op) es

/-- A step of an operation is a step of `send_tcp` on what the operation sees. -/
theorem operate_cases (h : c.operate o op env sock = some (c', es)) :
    ∃ v' ces, (c.view op).step o env = some (v', ces) ∧
      c' = (c.tcpInit op sock).1.put v' op ∧
      es = (c.tcpInit op sock).2 ++ readEvents (c.view op) op (c.tcpInit op sock).1.tcpSock ++
        ces.map (.ofClient op (c.tcpInit op sock).1.tcpSock env.read.sessionId?) ++
        storeEvents o (c.view op) op env ++ returnEvents o (c.view op) op env := by
  obtain ⟨⟨v', ces⟩, hstep, heq⟩ := Option.map_eq_some_iff.1 h
  cases heq
  exact ⟨v', ces, hstep, rfl, rfl⟩

theorem step_cases {a : ApiAct} (h : c.step o inetPton inetNtop a = some (c', es)) :
    Step o inetPton inetNtop c a c' es := by
  cases a with
  | discover sock rand type buffer =>
    rw [step] at h
    split_ifs at h with hfree
    cases h
    exact .discover hfree
  | discoverStep env =>
    obtain ⟨⟨u, ds⟩, hstep, heq⟩ := Option.map_eq_some_iff.1 h
    cases heq
    exact .discoverStep hstep
  | negotiate bufferObj rand ret =>
    rw [step] at h
    split_ifs at h with hcalled
    unfold negotiate at h
    split_ifs at h with haddr hret <;> cases h
    · exact .refuseNegotiate hcalled.1 hcalled.2 haddr
    · exact .noThread hcalled.1 hcalled.2 haddr hret rfl
    · obtain rfl := not_not.1 hret
      exact .negotiate hcalled.1 hcalled.2 haddr rfl
  | synchronize bufferObj rand buffer =>
    rw [step] at h
    split_ifs at h with hfree
    unfold synchronize at h
    split_ifs at h with haddr <;> cases h
    · exact .refuseSynchronize hfree haddr
    · exact .synchronize hfree haddr rfl
  | operate op env sock =>
    replace h : c.operate o op env sock = some (c', es) := h
    obtain ⟨v', ces, hstep, rfl, -⟩ := operate_cases h
    exact .operate hstep h

end ApiClient

end Gdnp
