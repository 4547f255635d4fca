import Gdnp.Lib.EventMachine
import Gdnp.Connection
import Gdnp.Content

/-!
# The negotiation thread of a client

`nego_thread` calls `send_tcp` with the request in `buffer_nego_obj`; `send_negotiate` connects,
writes the request and reads a reply into the same buffer, and `do_negotiate` handles it: it
answers a counter-offer and reads on, waits and reads on, or ends.  A step of the machine is a
connection attempt, a call of `write_pdu` with what leads to it, or a call of `read_pdu`
(`ClientPc`).  As `do_negotiate` does nothing after the call of itself but return, the recursion is
a loop here.

The outcomes of the system calls, the answers of the ASA and what uninitialised or foreign memory
holds are inputs of the steps (`ClientEnv`).  A copy that runs past the end of an array is cut off
there.  A value is configured as `parse_bits` has copied it, whatever the overrun of the block and
the allocations after it have made of it.
-/

open CMem

namespace Gdnp

inductive ClientState where
  | off
  | waitResponse
  | wait
  | informed
  | ending
  | negoing
  deriving DecidableEq, Repr

def maxTryTimes : ℕ := 5

/-- The calls of `read_pdu`: in `send_negotiate` and after a counter-offer (`reply`), and the
first and the later ones after a WAIT_MSG. -/
inductive ReadSite where
  | reply
  | wait
  | waitAgain
  deriving DecidableEq, Repr

/-- What the negotiation thread does next; at `read` the variables `type` and
`actual_session_id` hold the given values. -/
inductive ClientPc where
  | idle
  | sendTcp
  | connect
  | retry
  | request
  | read (type : MsgType) (actual : UInt32) (site : ReadSite)
  | doNegotiate (type : MsgType)
  | ret (rtnval : Errno)
  deriving DecidableEq

structure Client where
  tryTimes : ℕ
  lastTopOptions : CharArray maxStringLength
  sessionId : UInt32
  curStates : ClientState
  /-- `buffer_nego_obj`: the request, and then each message read. -/
  buffer : CharArray maxStringLength
  loopCount : ℤ
  /-- Only the answers of `get_flag` are stored here. -/
  flag : UInt8
  /-- The receive timeout of the socket in seconds. -/
  recvTimeout : ℕ
  pc : ClientPc

/-- Outcome of a `read`: a failure, or a number of bytes that is not negative; then `msg` is what
`pdu_buf` holds. -/
inductive ReadEnv where
  | fail
  | pdu (msg : Msg)

/-- Inputs of a step: the return code of `client_tcp_init`, the outcomes of `write` and `read`, the
answers of `asa_negotiate_result` and `asa_geq_fn`, and what the memory behind `buffer` and
`lastTopOptions`, an unset option type, an unset `actual_session_id` and `send_buffer` hold. -/
structure ClientEnv where
  tcpInit : Errno
  write : WriteEnv
  read : ReadEnv
  asaAnswer : CString
  geq : Bool
  after : Mem
  afterLast : Mem
  uninit : OptionType
  actual : UInt32
  sendBuffer : CharArray maxStringLength

inductive ClientEvent where
  /-- A message is on the connection, in answer to `answers`; a request answers nothing. -/
  | wrote (answers : Option Content) (msg : Msg)
  /-- `do_negotiate` is called on a message. -/
  | received (c : Content)
  /-- `do_configuration` is called on a value, on account of the received message. -/
  | configured (received : Content) (value : List UInt8)

/-- `send_tcp` and the connection attempts, before the request is written. -/
def ClientPc.Setup : ClientPc → Prop
  | sendTcp => True
  | connect => True
  | retry => True
  | request => True
  | _ => False

namespace Client

/-- The constructor; `last` is what the uninitialised `lastTopOptions` holds. -/
def new (last : CharArray maxStringLength) : Client where
  tryTimes := 0
  lastTopOptions := last
  sessionId := 0
  curStates := .off
  buffer := CharArray.zero _
  loopCount := 5
  flag := 0
  recvTimeout := 0
  pc := .idle

/-- `negotiate` up to the start of the thread; it sets the loop count to 5 and the flag to 0. -/
def negotiate (o : ByteOrder) (c : Client) (sessionId : UInt32) (bufferObj : CString)
    (loopCount flag : UInt8) : Client :=
  { c with
    sessionId := sessionId
    loopCount := loopCount.toNat
    flag := flag
    buffer := c.buffer.memcpy ((objectiveOf .negotiation bufferObj loopCount flag).toBits o)
    pc := .sendTcp }

/-- `store_last_options`. -/
def storeLastOptions (c : Client) (buffer : CharArray maxStringLength) : Client :=
  { c with lastTopOptions := (CharArray.zero _).memcpy buffer.bytes }

/-- `nego_obj_opt2bits`: the loop count is narrowed to 8 bits. -/
def negoObjOpt2bits (o : ByteOrder) (c : Client) (optData : CString) : List UInt8 :=
  (objectiveOf .negotiation optData (UInt8.ofInt c.loopCount) c.flag).toBits o

/-- What a call of `write_pdu` puts on the connection. -/
def written (answers : Option Content) (w : Errno × Option Msg) : List ClientEvent :=
  (w.2.map (ClientEvent.wrote answers)).toList

/-- `do_negotiate` takes over the loop count, less one, and the flag of the message in
`buffer`. -/
def adopt (o : ByteOrder) (env : ClientEnv) (c : Client) : Client :=
  let recvedObjOpt := ObjectiveOption.parseBits o (c.buffer.mem env.after) env.uninit
  { c with loopCount := recvedObjOpt.loopCount.toNat - 1, flag := recvedObjOpt.flag }

/-- The counter-offer in `send_buffer`. -/
def counterOffer (o : ByteOrder) (env : ClientEnv) (c : Client) : CharArray maxStringLength :=
  env.sendBuffer.memcpy (c.negoObjOpt2bits o env.asaAnswer)

/-- `do_negotiate` on the message in `buffer`, up to the next call of `read_pdu`. -/
def doNegotiate (o : ByteOrder) (env : ClientEnv) (c : Client) (type : MsgType) :
    Client × List ClientEvent :=
  let recvedOpt := GdnpOption.parseBits o (c.buffer.mem env.after) env.uninit
  let recvedObjOpt := ObjectiveOption.parseBits o (c.buffer.mem env.after) env.uninit
  let recved : Content := ⟨type, c.buffer⟩
  let c := c.adopt o env
  match type with
  | .negoMsg =>
    if env.geq then
      let w := writePdu (acceptOption.toBits o) .negoEndMsg c.sessionId env.write
      -- The value is configured whether or not the Accept could be written.
      ({ c with curStates := .negoing, pc := .ret w.1 },
        written (some recved) w ++ [.configured recved recvedObjOpt.getValue])
    else if c.loopCount = (0 : ℤ) then
      let w := writePdu (declineOption.toBits o) .negoEndMsg c.sessionId env.write
      ({ c with curStates := .negoing, pc := .ret w.1 }, written (some recved) w)
    else
      let w := writePdu (c.counterOffer o env).bytes .negoMsg c.sessionId env.write
      ({ c.storeLastOptions (c.counterOffer o env) with
          curStates := .negoing
          pc := if w.1 ≠ .success then .ret w.1 else .read .negoMsg env.actual .reply },
        written (some recved) w)
  | .waitMsg =>
    if recvedOpt.type = .waitingTime then
      ({ c with
        curStates := .wait
        recvTimeout := (recvedOpt.getValue.headD 0).toNat
        pc := .read .waitMsg env.actual .wait }, [])
    else ({ c with curStates := .wait, pc := .ret .error }, [])
  | .negoEndMsg =>
    ({ c with pc := .ret .success },
      if recvedOpt.type = .accept then
        [.configured recved
          (ObjectiveOption.parseBits o (c.lastTopOptions.mem env.afterLast) env.uninit).getValue]
      else [])
  | _ => ({ c with pc := .ret .error }, [])

/-- The test of the `while` around `read_pdu` and what follows it. -/
def readDone (c : Client) (type : MsgType) (actual : UInt32) (site : ReadSite) :
    Client × List ClientEvent :=
  if actual ≠ c.sessionId then
    ({ c with pc := .read type actual (if site = .reply then .reply else .waitAgain) }, [])
  else
    ({ c with
      recvTimeout := if site = .reply then c.recvTimeout else 10
      pc := .doNegotiate type }, [.received ⟨type, c.buffer⟩])

/-- A call of `read_pdu`: `type`, `actual_session_id` and the buffer keep their values where it
does not set them. -/
def readPdu (c : Client) (type : MsgType) (actual : UInt32) (site : ReadSite) :
    ReadEnv → Client × List ClientEvent
  | .fail =>
    if site = .wait then ({ c with pc := .ret .recvErr }, []) else c.readDone type actual site
  | .pdu msg =>
    let c := { c with buffer := CharArray.zero _ }
    match decode (some msg) with
    | .error e =>
      if site = .wait then ({ c with pc := .ret e }, []) else c.readDone type actual site
    | .ok d => { c with buffer := d.data }.readDone d.type d.sessionId site

/-- One step of the negotiation thread. -/
def step (o : ByteOrder) (c : Client) (env : ClientEnv) : Option (Client × List ClientEvent) :=
  match c.pc with
  | .idle => none
  | .sendTcp =>
    some ({ c with pc := if c.curStates = .off then .connect else .ret .clientUnexceptedStateErr },
      [])
  | .connect => some ({ c with pc := if env.tcpInit ≠ .success then .retry else .request }, [])
  | .retry =>
    if c.tryTimes < maxTryTimes then
      if env.tcpInit ≠ .success then some ({ c with tryTimes := c.tryTimes + 1 }, [])
      else some ({ c with tryTimes := 0, pc := .request }, [])
    else some ({ c with pc := if c.tryTimes ≠ 0 then .ret .error else .request }, [])
  | .request =>
    let c := { c with recvTimeout := 10 }
    if c.loopCount = (0 : ℤ) then some ({ c with pc := .ret .error }, [])
    else
      let w := writePdu c.buffer.bytes .requestMsg c.sessionId env.write
      some ({ c with
          loopCount := c.loopCount - 1
          pc := if w.1 ≠ .success then .ret w.1 else .read .requestMsg env.actual .reply },
        written none w)
  | .read type actual site => some (c.readPdu type actual site env.read)
  | .doNegotiate type => some (c.doNegotiate o env type)
  | .ret rtnval =>
    some ({ (if rtnval = .success then c.storeLastOptions c.buffer else c) with
      curStates := .off, pc := .idle }, [])

/-- The negotiation thread as a machine. -/
def machine (o : ByteOrder) : EventMachine Client ClientEnv ClientEvent := ⟨step o⟩

/-! ### The steps of the negotiation thread -/

/-- A failing call of `read_pdu`, and what it leaves in the buffer. -/
def ReadFails (read : ReadEnv) (before after : CharArray maxStringLength) : Prop :=
  (read = .fail ∧ after = before) ∨
    ∃ msg e, read = .pdu msg ∧ decode (some msg) = .error e ∧ after = CharArray.zero _

/-- The branches of `step`. -/
inductive Step (o : ByteOrder) (env : ClientEnv) (c : Client) :
    Client → List ClientEvent → Prop
  | setup {n t pc'} (pc : c.pc.Setup) (hpc : pc'.Setup ∨ ∃ e, e ≠ .success ∧ pc' = .ret e) :
    Step o env c { c with tryTimes := n, recvTimeout := t, pc := pc' } []
  | requestFails {e} (pc : c.pc = .request) (he : e ≠ .success) :
    Step o env c { c with recvTimeout := 10, loopCount := c.loopCount - 1, pc := .ret e } []
  | request {msg} (pc : c.pc = .request) (hloop : c.loopCount ≠ 0)
      (hw : writePdu c.buffer.bytes .requestMsg c.sessionId env.write = (.success, some msg)) :
    Step o env c
      { c with
        recvTimeout := 10
        loopCount := c.loopCount - 1
        pc := .read .requestMsg env.actual .reply }
      [.wrote none msg]
  | readRet {type actual b e} (pc : c.pc = .read type actual .wait)
      (hr : ReadFails env.read c.buffer b) (he : e ≠ .success) :
    Step o env c { c with buffer := b, pc := .ret e } []
  | readAgain {type actual site b type' actual' site'} (pc : c.pc = .read type actual site)
      (hr : ∀ msg d, env.read = .pdu msg → decode (some msg) = .ok d → d.sessionId ≠ c.sessionId) :
    Step o env c { c with buffer := b, pc := .read type' actual' site' } []
  | readMsg {type actual site msg d t} (pc : c.pc = .read type actual site)
      (hr : env.read = .pdu msg) (hd : decode (some msg) = .ok d)
      (hid : d.sessionId = c.sessionId) :
    Step o env c { c with buffer := d.data, recvTimeout := t, pc := .doNegotiate d.type }
      [.received ⟨d.type, d.data⟩]
  /-- A failed read is taken for a message. -/
  | readPhantom {type actual site b t} (pc : c.pc = .read type actual site)
      (hsite : site ≠ .wait) (hr : ReadFails env.read c.buffer b) (hid : actual = c.sessionId) :
    Step o env c { c with buffer := b, recvTimeout := t, pc := .doNegotiate type }
      [.received ⟨type, b⟩]
  | accept {e msg} (pc : c.pc = .doNegotiate .negoMsg) (hgeq : env.geq = true)
      (hw : writePdu (acceptOption.toBits o) .negoEndMsg c.sessionId env.write = (e, some msg)) :
    Step o env c { c.adopt o env with curStates := .negoing, pc := .ret e }
      [.wrote (some ⟨.negoMsg, c.buffer⟩) msg, .configured ⟨.negoMsg, c.buffer⟩
        (ObjectiveOption.parseBits o (c.buffer.mem env.after) env.uninit).getValue]
  | acceptFails {e} (pc : c.pc = .doNegotiate .negoMsg) (hgeq : env.geq = true)
      (hw : writePdu (acceptOption.toBits o) .negoEndMsg c.sessionId env.write = (e, none)) :
    Step o env c { c.adopt o env with curStates := .negoing, pc := .ret e }
      [.configured ⟨.negoMsg, c.buffer⟩
        (ObjectiveOption.parseBits o (c.buffer.mem env.after) env.uninit).getValue]
  | decline {e msg} (pc : c.pc = .doNegotiate .negoMsg) (hgeq : env.geq = false)
      (hloop : (c.adopt o env).loopCount = 0)
      (hw : writePdu (declineOption.toBits o) .negoEndMsg c.sessionId env.write = (e, some msg)) :
    Step o env c { c.adopt o env with curStates := .negoing, pc := .ret e }
      [.wrote (some ⟨.negoMsg, c.buffer⟩) msg]
  | declineFails {e} (pc : c.pc = .doNegotiate .negoMsg) (hgeq : env.geq = false)
      (hloop : (c.adopt o env).loopCount = 0) :
    Step o env c { c.adopt o env with curStates := .negoing, pc := .ret e } []
  | counter {msg} (pc : c.pc = .doNegotiate .negoMsg) (hgeq : env.geq = false)
      (hloop : (c.adopt o env).loopCount ≠ 0)
      (hw : writePdu ((c.adopt o env).counterOffer o env).bytes .negoMsg c.sessionId env.write =
        (.success, some msg)) :
    Step o env c
      { (c.adopt o env).storeLastOptions ((c.adopt o env).counterOffer o env) with
        curStates := .negoing
        pc := .read .negoMsg env.actual .reply }
      [.wrote (some ⟨.negoMsg, c.buffer⟩) msg]
  | counterFails {e} (pc : c.pc = .doNegotiate .negoMsg) (he : e ≠ .success) :
    Step o env c
      { (c.adopt o env).storeLastOptions ((c.adopt o env).counterOffer o env) with
        curStates := .negoing
        pc := .ret e } []
  | wait {t} (pc : c.pc = .doNegotiate .waitMsg) :
    Step o env c
      { c.adopt o env with
        curStates := .wait
        recvTimeout := t
        pc := .read .waitMsg env.actual .wait } []
  | waitErr (pc : c.pc = .doNegotiate .waitMsg) :
    Step o env c { c.adopt o env with curStates := .wait, pc := .ret .error } []
  | endAccept (pc : c.pc = .doNegotiate .negoEndMsg)
      (hopt : (GdnpOption.parseBits o (c.buffer.mem env.after) env.uninit).type = .accept) :
    Step o env c { c.adopt o env with pc := .ret .success }
      [.configured ⟨.negoEndMsg, c.buffer⟩
        (ObjectiveOption.parseBits o (c.lastTopOptions.mem env.afterLast) env.uninit).getValue]
  | endOther (pc : c.pc = .doNegotiate .negoEndMsg) :
    Step o env c { c.adopt o env with pc := .ret .success } []
  | unexpected {type} (pc : c.pc = .doNegotiate type) (h₁ : type ≠ .negoMsg)
      (h₂ : type ≠ .waitMsg) (h₃ : type ≠ .negoEndMsg) :
    Step o env c { c.adopt o env with pc := .ret .error } []
  | ret {rtnval last} (pc : c.pc = .ret rtnval) :
    Step o env c { c with lastTopOptions := last, curStates := .off, pc := .idle } []

variable {o : ByteOrder} {env : ClientEnv} {c c' : Client} {es : List ClientEvent}

theorem readDone_cases {type : MsgType} {actual : UInt32} {site : ReadSite} :
    (actual ≠ c.sessionId ∧ ∃ site', c.readDone type actual site =
        ({ c with pc := .read type actual site' }, [])) ∨
      (actual = c.sessionId ∧ ∃ t, c.readDone type actual site =
        ({ c with recvTimeout := t, pc := .doNegotiate type }, [.received ⟨type, c.buffer⟩])) := by
  unfold readDone
  by_cases h : actual = c.sessionId
  · exact .inr ⟨h, _, if_neg (not_not.2 h)⟩
  · exact .inl ⟨h, _, if_pos h⟩

theorem readPdu_cases {type : MsgType} {actual : UInt32} {site : ReadSite}
    (pc : c.pc = .read type actual site) :
    Step o env c (c.readPdu type actual site env.read).1
      (c.readPdu type actual site env.read).2 := by
  rcases hr : env.read with _ | msg
  · unfold readPdu
    split_ifs with hsite
    · subst hsite
      exact .readRet pc (.inl ⟨hr, rfl⟩) (by decide)
    · obtain ⟨-, site', h⟩ | ⟨hid, t, h⟩ := readDone_cases (c := c) <;> rw [h]
      · exact .readAgain pc fun msg d hmsg => by rw [hr] at hmsg; cases hmsg
      · exact .readPhantom pc hsite (.inl ⟨hr, rfl⟩) hid
  · rcases hd : decode (some msg) with e | d
    · have hfails : ReadFails env.read c.buffer (CharArray.zero _) := .inr ⟨msg, e, hr, hd, rfl⟩
      simp only [readPdu, hd]
      split_ifs with hsite
      · subst hsite
        exact .readRet pc hfails (ne_success_of_decode hd)
      · obtain ⟨-, site', h⟩ | ⟨hid, t, h⟩ :=
          readDone_cases (c := { c with buffer := CharArray.zero _ }) <;> rw [h]
        · exact .readAgain pc fun msg' d hmsg hd' => by
            rw [hr] at hmsg; cases hmsg; rw [hd] at hd'; cases hd'
        · exact .readPhantom pc hsite hfails hid
    · simp only [readPdu, hd]
      obtain ⟨hid, site', h⟩ | ⟨hid, t, h⟩ :=
        readDone_cases (c := { c with buffer := d.data }) <;> rw [h]
      · exact .readAgain pc fun msg' d' hmsg hd' => by
          rw [hr] at hmsg; cases hmsg; rw [hd] at hd'; cases hd'; exact hid
      · exact .readMsg pc hr hd hid

theorem doNegotiate_cases {type : MsgType} (pc : c.pc = .doNegotiate type) :
    Step o env c (c.doNegotiate o env type).1 (c.doNegotiate o env type).2 := by
  have hid : (c.adopt o env).sessionId = c.sessionId := rfl
  cases type with
  | negoMsg =>
    unfold doNegotiate
    dsimp only
    rw [hid]
    by_cases hgeq : env.geq = true
    · rw [if_pos hgeq]
      rcases hw : writePdu (acceptOption.toBits o) .negoEndMsg c.sessionId env.write with
        ⟨e, _ | msg⟩
      exacts [.acceptFails pc hgeq hw, .accept pc hgeq hw]
    rw [if_neg hgeq]
    by_cases hloop : (c.adopt o env).loopCount = 0
    · rw [if_pos hloop]
      rcases hw : writePdu (declineOption.toBits o) .negoEndMsg c.sessionId env.write with
        ⟨e, _ | msg⟩
      exacts [.declineFails pc (Bool.eq_false_iff.2 hgeq) hloop,
        .decline pc (Bool.eq_false_iff.2 hgeq) hloop hw]
    · rw [if_neg hloop]
      rcases hw : writePdu ((c.adopt o env).counterOffer o env).bytes .negoMsg c.sessionId
        env.write with ⟨e, _ | msg⟩
      · rw [if_pos (ne_success_of_writePdu hw)]
        exact .counterFails pc (ne_success_of_writePdu hw)
      · obtain rfl := eq_success_of_writePdu hw
        exact .counter pc (Bool.eq_false_iff.2 hgeq) hloop hw
  | waitMsg =>
    unfold doNegotiate
    dsimp only
    split_ifs with hopt
    exacts [.wait pc, .waitErr pc]
  | negoEndMsg =>
    unfold doNegotiate
    dsimp only
    split_ifs with hopt
    exacts [.endAccept pc hopt, .endOther pc]
  | _ => exact .unexpected pc (by decide) (by decide) (by decide)

/-- Every step is one of the branches. -/
theorem step_cases (h : c.step o env = some (c', es)) : Step o env c c' es := by
  unfold step at h
  split at h
  · cases h
  · cases h
    have pc : c.pc.Setup := by simp_all [ClientPc.Setup]
    split_ifs
    · exact .setup pc (.inl trivial)
    · exact .setup pc (.inr ⟨_, by decide, rfl⟩)
  · cases h
    have pc : c.pc.Setup := by simp_all [ClientPc.Setup]
    split_ifs <;> exact .setup pc (.inl trivial)
  · have pc : c.pc.Setup := by simp_all [ClientPc.Setup]
    split_ifs at h <;> cases h
    · exact .setup pc (.inl pc)
    · exact .setup pc (.inl trivial)
    · exact .setup pc (.inr ⟨_, by decide, rfl⟩)
    · exact .setup pc (.inl trivial)
  · rename_i hpc
    have pc : c.pc.Setup := by rw [hpc]; trivial
    dsimp only at h
    by_cases hloop : c.loopCount = 0
    · rw [if_pos hloop] at h
      cases h
      exact .setup pc (.inr ⟨_, by decide, rfl⟩)
    · rw [if_neg hloop] at h
      cases h
      rcases hw : writePdu c.buffer.bytes .requestMsg c.sessionId env.write with ⟨e, _ | msg⟩
      · rw [if_pos (ne_success_of_writePdu hw)]
        exact .requestFails hpc (ne_success_of_writePdu hw)
      · obtain rfl := eq_success_of_writePdu hw
        exact .request hpc hloop hw
  · have hread : Step o env c _ _ := readPdu_cases ‹_›
    rw [Option.some.inj h] at hread
    exact hread
  · have hnego : Step o env c _ _ := doNegotiate_cases ‹_›
    rw [Option.some.inj h] at hnego
    exact hnego
  · cases h
    split_ifs
    · exact .ret ‹_›
    · exact .ret ‹_›

/-! ### Inputs of sample runs -/

/-- A step with the given outcome of `read` and answer of `asa_geq_fn`; the ASA answers `b`, and
all other calls succeed. -/
def sample (read : ReadEnv) (geq : Bool) : ClientEnv where
  tcpInit := .success
  write := ⟨.success, 0⟩
  read := read
  asaAnswer := valueB
  geq := geq
  after := fun _ => 0
  afterLast := fun _ => 0
  uninit := .divert
  actual := 0xffffffff
  sendBuffer := CharArray.zero _

end Client

end Gdnp
