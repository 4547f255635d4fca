import Gdnp.Client
import Gdnp.Datagram

/-!
# Discovery

`discover` sends a DISCOVERY_MSG with `send` and takes the answer with `recv`, which in
WAIT_RESPONSE repeats the message after a timeout and after a WAIT_MSG waits in WAIT.  A step of
the machine ends with a `sendto`, a `select` with the `recvfrom` after it, or the return of
`discover` (`DiscoverPc`).

What a step of `recv` can do is said once (`recvInWaitResponse_cases`, `recvInWait_cases`,
`resend_cases`), and what holds of all discoveries follows from it.

`inetPton` stands for `inet_pton`: the address in a text, if it is a valid one.
-/

open CMem

namespace Gdnp

/-- What `discover` does next. -/
inductive DiscoverPc where
  | idle
  | send
  | recv
  | recvInWaitResponse
  | resend
  /-- `recv_in_WAIT`, called in the loop of `recv` or outside of it. -/
  | recvInWait (inLoop : Bool)
  /-- `recv` has returned. -/
  | received (rtnval : Errno)
  | ret (rtnval : Errno)
  deriving DecidableEq

/-- A client with its datagram socket and the variables `type` and `buffer` of `discover`. -/
structure UdpClient extends Client where
  udpSock : ℤ
  negoAddr : SockAddr
  type : MsgType
  message : CharArray maxStringLength
  discoverPc : DiscoverPc

/-- Outcome of a `select`; when a datagram waits, `pdu` is that of `recvfrom`. -/
inductive SelectEnv where
  | timeout
  | fail
  | ready (pdu : Option Msg)

/-- Inputs of a step: the outcomes of `sendto` and `select`, what lies behind `buffer`, what follows
a block that is read as a text up to the next zero byte, and the values of an unset option type and
of the unset `rtnval` of `send_in_INFORMED`. -/
structure DiscoverEnv where
  send : WriteEnv
  select : SelectEnv
  after : Mem
  behind : CString
  uninit : OptionType
  rtnval : Errno

inductive DiscoverEvent where
  /-- A DISCOVERY_MSG is sent. -/
  | sent (msg : Msg)
  /-- A call of `send_discover` has returned. -/
  | sendDiscover (rtnval : Errno)
  /-- The first call of `send` fails. -/
  | sendFailed (rtnval : Errno)
  /-- A message with the session id of the client is received. -/
  | received (type : MsgType) (data : CharArray maxStringLength)
  /-- The data of a RESPONSE_MSG is parsed to an option, and `text` is what its value reads as. -/
  | parsed (data : CharArray maxStringLength) (opt : GdnpOption) (text : CString)

/-- What a call of `send_discover` emits that returns with these results of `send_pdu`. -/
def DiscoverEvent.ofSendDiscover (w : Errno × Option Msg) : List DiscoverEvent :=
  (w.2.map .sent).toList ++ [.sendDiscover w.1]

/-- `get_value` as a C string. -/
def GdnpOption.valueText (opt : GdnpOption) (behind : CString) : CString :=
  match opt.value with
  | none => default
  | some v => textAt v behind

namespace UdpClient

/-- The constructor, which sets the address of `negoAddr` to `ff02::1`: `last` and `port` are what
the uninitialised `lastTopOptions` and the port of `negoAddr` hold. -/
def new (last : CharArray maxStringLength) (port : UInt16) : UdpClient where
  toClient := .new last
  udpSock := -1
  negoAddr := ⟨0xff020000000000000000000000000001, port⟩
  type := .discoveryMsg
  message := CharArray.zero _
  discoverPc := .idle

/-- `discover` up to the first call of `send`, when `socket` gives `sock`; `type` and `buffer` are
what its variables hold. -/
def discover (o : ByteOrder) (c : UdpClient) (sock : ℤ) (rand : UInt32) (type : MsgType)
    (buffer : CharArray maxStringLength) : UdpClient :=
  { c with
    udpSock := sock
    sessionId := rand % UInt32.ofNat (maxSessionId + 1)
    type := type
    message := buffer.memcpy ((objectiveOf .discovery default 0 0).toBits o)
    discoverPc := .send }

/-- One call of `send_pdu` in `send_discover`. -/
def sendDiscover (c : UdpClient) (text : CString) (env : DiscoverEnv) : Errno × Option Msg :=
  sendPdu c.udpSock text.bytes .discoveryMsg c.sessionId env.send

/-- `send` of a DISCOVERY_MSG up to one `sendto`: there is no return code yet when `send_discover`
binds another port and tries again. -/
def send (c : UdpClient) (text : CString) (env : DiscoverEnv) :
    UdpClient × Option Errno × List DiscoverEvent :=
  let w := c.sendDiscover text env
  match c.curStates with
  | .off =>
    if w.1 = .addrErr then (c, none, [])
    else if w.1 = .success then
      ({ c with
        lastTopOptions := (CharArray.zero _).memcpy text.bytes
        curStates := .waitResponse }, some .success, DiscoverEvent.ofSendDiscover w)
    else (c, some w.1, [.sendDiscover w.1])
  | .waitResponse =>
    if c.tryTimes < maxTryTimes then
      if w.1 = .addrErr then (c, none, [])
      else ({ c with tryTimes := c.tryTimes + 1 }, some w.1, DiscoverEvent.ofSendDiscover w)
    else ({ c with curStates := .ending }, some .clientRecvNothingErr, [])
  | .wait => (c, some .clientSendUnexceptedMsgTypeErr, [])
  | .informed => (c, some env.rtnval, [])
  | .ending => (c, some .clientSendUnexceptedMsgTypeErr, [])
  | .negoing => (c, some .clientUnexceptedStateErr, [])

/-- `recv_in_time`: `recv_pdu` clears `buffer` before it decodes. -/
def recvInTime (c : UdpClient) (env : DiscoverEnv) : UdpClient × Errno × List DiscoverEvent :=
  match env.select with
  | .timeout => (c, .timeout, [])
  | .fail => (c, .selectErr, [])
  | .ready pdu => match recvPdu c.udpSock pdu with
    | .error e =>
      (if 0 ≤ c.udpSock ∧ pdu.isSome then { c with message := CharArray.zero _ } else c, e, [])
    | .ok d =>
      if d.sessionId ≠ c.sessionId then
        ({ c with type := d.type, message := d.data }, .clientRecvNomatchedSessionIdErr, [])
      else ({ c with type := d.type, message := d.data }, .success, [.received d.type d.data])

/-- The head of the loop in `recv`, when the last call has returned `rtnval`. -/
def loop (c : UdpClient) (rtnval : Errno) : UdpClient :=
  if c.curStates = .waitResponse then { c with discoverPc := .recvInWaitResponse }
  else { c with tryTimes := 0, discoverPc := .received rtnval }

/-- The `switch` of `recv`. -/
def recv (c : UdpClient) : UdpClient :=
  match c.curStates with
  | .off | .informed | .ending =>
    { c with discoverPc := .received .clientRecvUnexcepetdMsgTypeErr }
  | .waitResponse => { c with discoverPc := .recvInWaitResponse }
  | .wait => { c with discoverPc := .recvInWait false }
  | .negoing => { c with discoverPc := .received .clientUnexceptedStateErr }

/-- `recv_in_WAIT_RESPONSE`, up to the call of `recv` after a WAIT_MSG. -/
def recvInWaitResponse (c : UdpClient) (env : DiscoverEnv) : UdpClient × List DiscoverEvent :=
  let r := c.recvInTime env
  (match r.2.1 with
    | .success => match r.1.type with
      | .discoveryMsg => r.1.loop .clientRecvUnexcepetdMsgTypeErr
      | .waitMsg => { r.1 with curStates := .wait, discoverPc := .recvInWait true }
      | .responseMsg => loop { r.1 with curStates := .informed } .success
      | .negoEndMsg => loop { r.1 with curStates := .ending } .success
      | .requestMsg | .negoMsg => r.1.loop .msgTypeErr
    | .timeout =>
      if r.1.curStates = .waitResponse then { r.1 with discoverPc := .resend }
      else r.1.loop .timeout
    | e => r.1.loop e, r.2.2)

/-- `recv` returns from WAIT. -/
def leaveWait (inLoop : Bool) (c : UdpClient) (rtnval : Errno) : UdpClient :=
  if inLoop then c.loop rtnval else { c with discoverPc := .received rtnval }

/-- `recv_in_WAIT`; after a WAIT_MSG it calls itself. -/
def recvInWait (inLoop : Bool) (c : UdpClient) (env : DiscoverEnv) :
    UdpClient × List DiscoverEvent :=
  let r := c.recvInTime env
  (match r.2.1 with
    | .success => match r.1.type with
      | .requestMsg => r.1.leaveWait inLoop .clientRecvUnexcepetdMsgTypeErr
      | .waitMsg => { r.1 with discoverPc := .recvInWait inLoop }
      | .responseMsg => leaveWait inLoop { r.1 with curStates := .informed } .success
      | .negoEndMsg => leaveWait inLoop { r.1 with curStates := .ending } .success
      | .discoveryMsg | .negoMsg => r.1.leaveWait inLoop .msgTypeErr
    | .timeout => leaveWait inLoop { r.1 with curStates := .ending } .clientRecvNothingErr
    | e => r.1.leaveWait inLoop e, r.2.2)

/-- The rest of `discover` after `recv`. -/
def finish (o : ByteOrder) (inetPton : CString → Option (BitVec 128)) (c : UdpClient)
    (rtnval : Errno) (env : DiscoverEnv) : UdpClient × List DiscoverEvent :=
  if rtnval = .success then
    if c.type = .responseMsg then
      let opt := GdnpOption.parseBits o (c.message.mem env.after) env.uninit
      let text := opt.valueText env.behind
      if opt.type = .locator then
        ({ c with
          curStates := .off
          negoAddr := { c.negoAddr with addr := (inetPton text).getD c.negoAddr.addr }
          discoverPc := .ret .success }, [.parsed c.message opt text])
      else
        ({ c with curStates := .off, discoverPc := .ret .error }, [.parsed c.message opt text])
    else ({ c with curStates := .off, discoverPc := .ret .success }, [])
  else ({ c with discoverPc := .ret .success }, [])

def step (o : ByteOrder) (inetPton : CString → Option (BitVec 128)) (c : UdpClient)
    (env : DiscoverEnv) : Option (UdpClient × List DiscoverEvent) :=
  match c.discoverPc with
  | .idle => none
  | .send =>
    let r := c.send (textAt c.message.bytes env.behind) env
    match r.2.1 with
    | none => some (r.1, r.2.2)
    | some rtnval =>
      if rtnval = .success then some ({ r.1 with discoverPc := .recv }, r.2.2)
      else some ({ r.1 with discoverPc := .ret rtnval }, r.2.2 ++ [.sendFailed rtnval])
  | .recv => some (c.recv, [])
  | .recvInWaitResponse => some (c.recvInWaitResponse env)
  | .resend =>
    let r := c.send (textAt c.lastTopOptions.bytes env.behind) env
    match r.2.1 with
    | none => some (r.1, r.2.2)
    | some rtnval => some (r.1.loop rtnval, r.2.2)
  | .recvInWait inLoop => some (c.recvInWait inLoop env)
  | .received rtnval => some (c.finish o inetPton rtnval env)
  | .ret _ => none

/-- `discover` as a machine. -/
def machine (o : ByteOrder) (inetPton : CString → Option (BitVec 128)) :
    EventMachine UdpClient DiscoverEnv DiscoverEvent := ⟨step o inetPton⟩

/-! ### What a step can do -/

/-- A message with the session id of the client that is received. -/
def ownMsg? (c : UdpClient) (env : DiscoverEnv) : Option Decoded :=
  match env.select with
  | .ready pdu => match recvPdu c.udpSock pdu with
    | .ok d => if d.sessionId = c.sessionId then some d else none
    | .error _ => none
  | _ => none

/-- The client with other values of `type` and `buffer`. -/
def setVars (c : UdpClient) (type : MsgType) (message : CharArray maxStringLength) : UdpClient :=
  { c with type := type, message := message }

variable {o : ByteOrder} {inetPton : CString → Option (BitVec 128)} {c c' : UdpClient}
  {env : DiscoverEnv} {es : List DiscoverEvent}

theorem loop_of_waitResponse {rtnval : Errno} (h : c.curStates = .waitResponse) :
    c.loop rtnval = { c with discoverPc := .recvInWaitResponse } := if_pos h

theorem loop_of_ne {rtnval : Errno} (h : c.curStates ≠ .waitResponse) :
    c.loop rtnval = { c with tryTimes := 0, discoverPc := .received rtnval } := if_neg h

theorem leaveWait_eq (inLoop : Bool) {rtnval : Errno} (h : c.curStates ≠ .waitResponse) :
    c.leaveWait inLoop rtnval =
      { c with
        tryTimes := if inLoop then 0 else c.tryTimes
        discoverPc := .received rtnval } := by
  cases inLoop with
  | true => exact loop_of_ne h
  | false => rfl

/-- A `select` gives a message of the own session, or times out, or is an error. -/
theorem recvInTime_cases (c : UdpClient) (env : DiscoverEnv) :
    (∃ d, c.ownMsg? env = some d ∧
        c.recvInTime env = (c.setVars d.type d.data, .success, [.received d.type d.data])) ∨
      (c.ownMsg? env = none ∧ env.select = .timeout ∧ c.recvInTime env = (c, .timeout, [])) ∨
      (c.ownMsg? env = none ∧ env.select ≠ .timeout ∧ ∃ type message e,
        e ≠ .success ∧ e ≠ .timeout ∧ c.recvInTime env = (c.setVars type message, e, [])) := by
  unfold ownMsg? recvInTime
  cases hselect : env.select with
  | timeout => exact .inr (.inl ⟨rfl, rfl, rfl⟩)
  | fail => exact .inr (.inr ⟨rfl, by simp, c.type, c.message, _, by decide, by decide, rfl⟩)
  | ready pdu =>
    dsimp only
    cases hpdu : recvPdu c.udpSock pdu with
    | error e =>
      have hne := ne_success_of_recvPdu hpdu
      have hne' := ne_timeout_of_recvPdu hpdu
      refine .inr (.inr ⟨rfl, by simp, ?_⟩)
      dsimp only
      split_ifs
      · exact ⟨c.type, CharArray.zero _, e, hne, hne', rfl⟩
      · exact ⟨c.type, c.message, e, hne, hne', rfl⟩
    | ok d =>
      dsimp only
      by_cases hid : d.sessionId = c.sessionId
      · rw [if_pos hid, if_neg (not_not.2 hid)]
        exact .inl ⟨d, rfl, rfl⟩
      · rw [if_neg hid, if_pos hid]
        exact .inr (.inr ⟨rfl, by simp, d.type, d.data, _, by decide, by decide, rfl⟩)

/-- The state in which a message of this type ends `recv`. -/
def endState? : MsgType → Option ClientState
  | .responseMsg => some .informed
  | .negoEndMsg => some .ending
  | _ => none

theorem endState?_eq_some_iff {type : MsgType} {state : ClientState} :
    endState? type = some state ↔ type = .responseMsg ∧ state = .informed ∨
      type = .negoEndMsg ∧ state = .ending := by
  cases type <;> simp [endState?, eq_comm]

theorem endState?_eq_none_iff {type : MsgType} :
    endState? type = none ↔ type ≠ .responseMsg ∧ type ≠ .negoEndMsg := by
  cases type <;> simp [endState?]

/-- What a call of `recv_in_WAIT_RESPONSE` can do. -/
inductive ResponseStep (c : UdpClient) (env : DiscoverEnv) :
    UdpClient → List DiscoverEvent → Prop
  | wait {d} (own : c.ownMsg? env = some d) (type : d.type = .waitMsg) :
    ResponseStep c env
      { c.setVars d.type d.data with curStates := .wait, discoverPc := .recvInWait true }
      [.received d.type d.data]
  | answer {d state} (own : c.ownMsg? env = some d) (type : endState? d.type = some state) :
    ResponseStep c env (loop { c.setVars d.type d.data with curStates := state } .success)
      [.received d.type d.data]
  | unexpected {d e} (own : c.ownMsg? env = some d) (wait : d.type ≠ .waitMsg)
      (type : endState? d.type = none) (he : e ≠ .success) :
    ResponseStep c env ((c.setVars d.type d.data).loop e) [.received d.type d.data]
  | timeout (own : c.ownMsg? env = none) (select : env.select = .timeout)
      (cur : c.curStates = .waitResponse) :
    ResponseStep c env { c with discoverPc := .resend } []
  | error {type message e} (own : c.ownMsg? env = none)
      (select : env.select = .timeout → c.curStates ≠ .waitResponse) (he : e ≠ .success) :
    ResponseStep c env ((c.setVars type message).loop e) []

theorem recvInWaitResponse_cases (h : c.recvInWaitResponse env = (c', es)) :
    ResponseStep c env c' es := by
  unfold recvInWaitResponse at h
  obtain ⟨⟨type, id, data, size⟩, hown, hr⟩ | ⟨hown, hselect, hr⟩ |
    ⟨hown, hselect, type, message, e, hne, hne', hr⟩ := recvInTime_cases c env
  · rw [hr] at h
    cases type with
    | waitMsg =>
      cases h
      exact .wait hown rfl
    | responseMsg | negoEndMsg =>
      cases h
      exact .answer hown rfl
    | discoveryMsg | requestMsg | negoMsg =>
      cases h
      exact .unexpected hown (by simp) rfl (by decide)
  · rw [hr] at h
    dsimp only at h
    split_ifs at h with hcur
    · cases h
      exact .timeout hown hselect hcur
    · cases h
      have hlate : ResponseStep c env ((c.setVars c.type c.message).loop .timeout) [] :=
        .error hown (fun _ => hcur) (by decide)
      exact hlate
  · rw [hr] at h
    have hlate : env.select = .timeout → c.curStates ≠ .waitResponse := fun ht => absurd ht hselect
    cases e with
    | success => exact absurd rfl hne
    | timeout => exact absurd rfl hne'
    | _ =>
      cases h
      exact .error hown hlate hne

/-- What a call of `recv_in_WAIT` can do. -/
inductive WaitStep (inLoop : Bool) (c : UdpClient) (env : DiscoverEnv) :
    UdpClient → List DiscoverEvent → Prop
  | wait {d} (own : c.ownMsg? env = some d) (type : d.type = .waitMsg) :
    WaitStep inLoop c env { c.setVars d.type d.data with discoverPc := .recvInWait inLoop }
      [.received d.type d.data]
  | answer {d state} (own : c.ownMsg? env = some d) (type : endState? d.type = some state) :
    WaitStep inLoop c env
      (leaveWait inLoop { c.setVars d.type d.data with curStates := state } .success)
      [.received d.type d.data]
  | unexpected {d e} (own : c.ownMsg? env = some d) (wait : d.type ≠ .waitMsg)
      (type : endState? d.type = none) (he : e ≠ .success) :
    WaitStep inLoop c env ((c.setVars d.type d.data).leaveWait inLoop e) [.received d.type d.data]
  | timeout (own : c.ownMsg? env = none) (select : env.select = .timeout) :
    WaitStep inLoop c env
      (leaveWait inLoop { c with curStates := .ending } .clientRecvNothingErr) []
  | error {type message e} (own : c.ownMsg? env = none) (select : env.select ≠ .timeout)
      (he : e ≠ .success) :
    WaitStep inLoop c env ((c.setVars type message).leaveWait inLoop e) []

theorem recvInWait_cases {inLoop : Bool} (h : c.recvInWait inLoop env = (c', es)) :
    WaitStep inLoop c env c' es := by
  unfold recvInWait at h
  obtain ⟨⟨type, id, data, size⟩, hown, hr⟩ | ⟨hown, hselect, hr⟩ |
    ⟨hown, hselect, type, message, e, hne, hne', hr⟩ := recvInTime_cases c env
  · rw [hr] at h
    cases type with
    | waitMsg =>
      cases h
      exact .wait hown rfl
    | responseMsg | negoEndMsg =>
      cases h
      exact .answer hown rfl
    | discoveryMsg | requestMsg | negoMsg =>
      cases h
      exact .unexpected hown (by simp) rfl (by decide)
  · rw [hr] at h
    cases h
    exact .timeout hown hselect
  · rw [hr] at h
    cases e with
    | success => exact absurd rfl hne
    | timeout => exact absurd rfl hne'
    | _ =>
      cases h
      exact .error hown hselect hne

theorem send_discoverPc (c : UdpClient) (text : CString) (env : DiscoverEnv) :
    (c.send text env).1.discoverPc = c.discoverPc := by
  unfold send
  dsimp only
  split <;> (try split_ifs) <;> rfl

theorem send_of_waitResponse (h : c.curStates = .waitResponse) (text : CString)
    (env : DiscoverEnv) : c.send text env =
      if c.tryTimes < maxTryTimes then
        if (c.sendDiscover text env).1 = .addrErr then (c, none, [])
        else ({ c with tryTimes := c.tryTimes + 1 }, some (c.sendDiscover text env).1,
          DiscoverEvent.ofSendDiscover (c.sendDiscover text env))
      else ({ c with curStates := .ending }, some .clientRecvNothingErr, []) := by
  unfold send
  rw [h]

/-- What `recv` can do when it repeats the message. -/
inductive ResendStep (c : UdpClient) (env : DiscoverEnv) : UdpClient → List DiscoverEvent → Prop
  /-- `send_discover` binds another port and tries again. -/
  | again {msg} (tries : c.tryTimes < maxTryTimes)
      (hw : c.sendDiscover (textAt c.lastTopOptions.bytes env.behind) env = (.addrErr, msg)) :
    ResendStep c env c []
  | sent {e msg} (tries : c.tryTimes < maxTryTimes) (he : e ≠ .addrErr)
      (hw : c.sendDiscover (textAt c.lastTopOptions.bytes env.behind) env = (e, msg)) :
    ResendStep c env (loop { c with tryTimes := c.tryTimes + 1 } e)
      (DiscoverEvent.ofSendDiscover (e, msg))
  | gaveUp (tries : ¬ c.tryTimes < maxTryTimes) :
    ResendStep c env (loop { c with curStates := .ending } .clientRecvNothingErr) []

theorem resend_cases (hpc : c.discoverPc = .resend) (hcur : c.curStates = .waitResponse)
    (h : c.step o inetPton env = some (c', es)) : ResendStep c env c' es := by
  rw [step, hpc] at h
  dsimp only at h
  rw [send_of_waitResponse hcur] at h
  by_cases htries : c.tryTimes < maxTryTimes
  · rw [if_pos htries] at h
    by_cases haddr : (c.sendDiscover (textAt c.lastTopOptions.bytes env.behind) env).1 = .addrErr
    · rw [if_pos haddr] at h
      cases h
      exact .again htries (Prod.ext haddr rfl)
    · rw [if_neg haddr] at h
      cases h
      exact .sent htries haddr rfl
  · rw [if_neg htries] at h
    cases h
    exact .gaveUp htries

end UdpClient

end Gdnp
