import Gdnp.Lib.EventMachine
import Gdnp.Connection
import Gdnp.Content

/-!
# A server session and its threads

`ServerSession::run` is executed by the session thread.  It starts a wait thread for each message
it processes and an end thread after each counter-offer it writes.  All of them read and write
`cur_state` and `idle_check` without a common lock, so each read or write of these is a step of its
own (`RunPc`, `WaitPc`, `EndPc` say what a thread does next), and the machine interleaves the steps
of all threads with the messages that `distribute` pushes.

The answers of the ASA callbacks and of `write`, and what uninitialised or foreign memory holds,
are inputs of the steps that use them (`RunEnv`).
-/

open CMem

namespace Gdnp

inductive ServerState where
  | idle
  | processing
  | sessionEnd
  deriving DecidableEq, Repr

def processingTimeoutSecond : ℕ := 8

def endTimeoutSecond : ℕ := 20

def waitTimeoutSecond : ℕ := 10

/-- `set_state`: the state it writes for a message type, or its error code. -/
def setState : ServerState → MsgType → Except Errno ServerState
  | .idle, .requestMsg => .ok .processing
  | .idle, .negoMsg => .ok .processing
  | .idle, .negoEndMsg => .ok .sessionEnd
  | .idle, _ => .error .serverRecvUnexceptedMsgTypeErr
  | .processing, _ => .error .error
  | .sessionEnd, _ => .error .error

/-- The `switch` of `send`: whether a message type is written in a state, or the error code. -/
def sendAllowed : ServerState → MsgType → Except Errno Unit
  | .idle, .negoMsg => .ok ()
  | .idle, .negoEndMsg => .ok ()
  | .idle, _ => .error .msgTypeErr
  | .processing, .waitMsg => .ok ()
  | .processing, _ => .error .msgTypeErr
  | .sessionEnd, _ => .error .serverSendUnexceptedMsgTypeErr

/-! ## The reply to an offer -/

/-- A message on its way through `send`. -/
structure Reply where
  type : MsgType
  bits : List UInt8

/-- The decision of `run` on a received option whose loop count is already decremented, with the
ASA's answer and whether the ASA takes it for as good as the offer. -/
def reply (o : ByteOrder) (recv : ObjectiveOption) (upperData : CString) (geq : Bool) : Reply :=
  let sendOption := objectiveOf recv.type upperData recv.loopCount recv.flag
  if recv.type = .synchronization then ⟨.negoEndMsg, sendOption.toBits o⟩
  else if !geq ∧ recv.loopCount ≠ 0 then ⟨.negoMsg, sendOption.toBits o⟩
  else if recv.loopCount = 0 then ⟨.negoEndMsg, declineOption.toBits o⟩
  else ⟨.negoEndMsg, acceptOption.toBits o⟩

/-- The offer a message carries, as `run` parses it, with the loop count decremented. -/
def recvOption (o : ByteOrder) (c : Content) (after : Mem) (uninit : OptionType) :
    ObjectiveOption :=
  let opt := ObjectiveOption.parseBits o (c.data.mem after) uninit
  { opt with loopCount := opt.loopCount - 1 }

/-- The option of the WAIT_MSG: the waiting time in milliseconds. -/
def waitOption (o : ByteOrder) : GdnpOption where
  type := .waitingTime
  len := 4
  value := some (o.toBytes 4 (waitTimeoutSecond * 1000))
  readable := by
    rintro v ⟨⟩
    rw [ByteOrder.length_toBytes]
    decide

/-! ## Threads -/

/-- What the session thread does next. -/
inductive RunPc where
  | head
  | checkQueue
  | setIdleCheck
  | pop
  | setState (c : Content)
  | writeState (c : Content) (st : ServerState)
  | launchWait (c : Content)
  | checkEnd (c : Content)
  | upper (c : Content)
  | setIdle (c : Content) (upperData : CString)
  | decide (c : Content) (upperData : CString)
  | sendSwitch (c : Content) (r : Reply)
  | sendWrite (c : Content) (r : Reply)
  | sendSetState (type : MsgType) (st : ServerState)
  | sendClearIdleCheck
  | sendLaunchEnd
  | afterSend (type : MsgType)
  | close
  | done

/-- `run` has returned, and the session is no longer in the server's table. -/
def RunPc.isDone : RunPc → Bool
  | done => true
  | _ => false

/-- What a wait thread does next. -/
inductive WaitPc where
  | loop
  | sleep
  | check
  | recheck
  | sendSwitch
  | sendWrite
  | done
  deriving DecidableEq

structure WaitThread where
  pc : WaitPc
  totalSleep : ℕ

/-- What an end thread does next. -/
inductive EndPc where
  | sleep
  | check
  | clear
  | expire
  | done
  deriving DecidableEq

structure EndThread where
  pc : EndPc
  totalSleep : ℕ

structure ServerSession where
  q : List Content
  sessionId : UInt32
  curState : ServerState
  idleCheck : ℕ
  lastContent : Content
  runPc : RunPc
  waitThreads : List WaitThread
  endThreads : List EndThread

/-- Inputs of a step of the session thread: the answers of `asa_negotiate_result` and
`asa_geq_fn`, the outcome of `write`, and what the memory behind the data, an unset option type and
a filter that runs past an array turn out to hold.  `upperData` is a C string that stays as it is
until the reply is built; an answer that lies in the block of the offer itself has an end there only
if it has a zero byte. -/
structure RunEnv where
  upperData : CString
  geq : Bool
  write : WriteEnv
  after : Mem
  uninit : OptionType
  overrun : Bool × Content

inductive SessionAct where
  | push (c : Content)
  | run (env : RunEnv)
  | wait (k : ℕ) (env : WriteEnv)
  | ends (k : ℕ)

/-- A step is one of the session thread or not. -/
theorem SessionAct.run_or (a : SessionAct) : (∃ env, a = .run env) ∨ ∀ env, a ≠ .run env := by
  cases a with
  | run env => exact .inl ⟨env, rfl⟩
  | _ =>
    right
    intro env he
    cases he

inductive SessionEvent where
  /-- A message was popped, and perhaps skipped as a duplicate. -/
  | popped (c : Content) (skipped : Bool)
  /-- The attempt to answer a message ended with a return code. -/
  | replied (c : Content) (r : Reply) (rtnval : Errno)
  /-- A message is on the connection, in answer to `answers`; a WAIT_MSG answers nothing. -/
  | wrote (answers : Option Content) (msg : Msg)

namespace ServerSession

/-- The constructor: `last` is what the uninitialised `last_content` of `run` holds. -/
def new (sessionId : UInt32) (c last : Content) : ServerSession where
  q := [c]
  sessionId := sessionId
  curState := .idle
  idleCheck := 0
  lastContent := last
  runPc := .head
  waitThreads := []
  endThreads := []

/-- One step of `run`. -/
def runStep (o : ByteOrder) (env : RunEnv) (s : ServerSession) :
    Option (ServerSession × List SessionEvent) :=
  match s.runPc with
  | .head =>
    some ({ s with runPc := if s.curState = .sessionEnd then .close else .checkQueue }, [])
  | .checkQueue => some ({ s with runPc := if s.q = [] then .head else .setIdleCheck }, [])
  | .setIdleCheck => some ({ s with idleCheck := 1, runPc := .pop }, [])
  | .pop =>
    match s.q with
    | [] => none
    | c :: q =>
      let r := (filter s.lastContent c).getD env.overrun
      some ({ s with
        q := q, lastContent := r.2, runPc := if r.1 then .head else .setState c },
        [.popped c r.1])
  | .setState c =>
    match Gdnp.setState s.curState c.type with
    | .error _ => some ({ s with runPc := .head }, [])
    | .ok st => some ({ s with runPc := .writeState c st }, [])
  | .writeState c st => some ({ s with curState := st, runPc := .launchWait c }, [])
  | .launchWait c =>
    if s.curState = .processing then
      some ({ s with
        waitThreads := s.waitThreads ++ [⟨.loop, 0⟩], runPc := .checkEnd c }, [])
    else some ({ s with runPc := .checkEnd c }, [])
  | .checkEnd c =>
    -- In state SESSION_END the received Accept or Decline is only reported.
    if s.curState ≠ .sessionEnd ∧ (c.type = .negoMsg ∨ c.type = .requestMsg) then
      some ({ s with runPc := .upper c }, [])
    else some ({ s with runPc := .head }, [])
  | .upper c => some ({ s with runPc := .setIdle c env.upperData }, [])
  | .setIdle c upperData =>
    some ({ s with curState := .idle, runPc := .decide c upperData }, [])
  | .decide c upperData =>
    some ({ s with
      runPc := .sendSwitch c (reply o (recvOption o c env.after env.uninit) upperData env.geq) },
      [])
  | .sendSwitch c r =>
    match sendAllowed s.curState r.type with
    | .error e => some ({ s with runPc := .afterSend r.type }, [.replied c r e])
    | .ok () => some ({ s with runPc := .sendWrite c r }, [])
  | .sendWrite c r =>
    match writePdu r.bits r.type s.sessionId env.write with
    | (e, none) => some ({ s with runPc := .afterSend r.type }, [.replied c r e])
    | (e, some msg) =>
      some ({ s with
        runPc := .sendSetState r.type (if r.type = .negoMsg then .idle else .sessionEnd) },
        [.replied c r e, .wrote (some c) msg])
  | .sendSetState type st =>
    some ({ s with
      curState := st
      runPc := if type = .negoMsg then .sendClearIdleCheck else .afterSend type }, [])
  | .sendClearIdleCheck => some ({ s with idleCheck := 0, runPc := .sendLaunchEnd }, [])
  | .sendLaunchEnd =>
    some ({ s with
      endThreads := s.endThreads ++ [⟨.sleep, 0⟩], runPc := .afterSend .negoMsg }, [])
  | .afterSend type =>
    if type = .negoEndMsg then some ({ s with curState := .sessionEnd, runPc := .head }, [])
    else some ({ s with runPc := .head }, [])
  | .close => some ({ s with runPc := .done }, [])
  | .done => none

/-- One step of `wait_thread_handler`; `sleep` is one second. -/
def waitStep (o : ByteOrder) (env : WriteEnv) (s : ServerSession) (t : WaitThread) :
    Option (WaitThread × List SessionEvent) :=
  match t.pc with
  | .loop => some ({ t with pc := if s.curState = .processing then .sleep else .done }, [])
  | .sleep => some (⟨.check, t.totalSleep + 1⟩, [])
  | .check => some ({ t with pc := if s.curState ≠ .processing then .done else .recheck }, [])
  | .recheck =>
    some ({ t with
      pc := if s.curState = .processing ∧ t.totalSleep ≥ processingTimeoutSecond then .sendSwitch
        else .loop }, [])
  | .sendSwitch =>
    match sendAllowed s.curState .waitMsg with
    | .error _ => some (⟨.loop, 0⟩, [])
    | .ok () => some ({ t with pc := .sendWrite }, [])
  | .sendWrite =>
    some (⟨.loop, 0⟩, ((writePdu ((waitOption o).toBits o) .waitMsg s.sessionId env).2.map
      (SessionEvent.wrote none)).toList)
  | .done => none

/-- One step of `end_thread_handler`; `sleep` is one second. -/
def endStep (s : ServerSession) (t : EndThread) : Option (EndThread × ServerSession) :=
  match t.pc with
  | .sleep => some (⟨.check, t.totalSleep + 1⟩, s)
  | .check =>
    some ({ t with
      pc := if s.idleCheck = 1 then .clear
        else if t.totalSleep < endTimeoutSecond then .sleep else .expire }, s)
  | .clear => some ({ t with pc := .done }, { s with idleCheck := 0 })
  | .expire => some ({ t with pc := .done }, { s with curState := .sessionEnd })
  | .done => none

def step (o : ByteOrder) (s : ServerSession) : SessionAct →
    Option (ServerSession × List SessionEvent)
  | .push c => some ({ s with q := s.q ++ [c] }, [])
  | .run env => s.runStep o env
  | .wait k env => (s.waitThreads[k]?).bind fun t => (s.waitStep o env t).map fun r =>
      ({ s with waitThreads := s.waitThreads.set k r.1 }, r.2)
  | .ends k => (s.endThreads[k]?).bind fun t => (s.endStep t).map fun r =>
      ({ r.2 with endThreads := s.endThreads.set k r.1 }, [])

/-- The session as a machine. -/
def machine (o : ByteOrder) : EventMachine ServerSession SessionAct SessionEvent := ⟨step o⟩

/-! ### The steps of the session thread -/

/-- The branches of `runStep`. -/
inductive RunStep (o : ByteOrder) (env : RunEnv) (s : ServerSession) :
    ServerSession → List SessionEvent → Prop
  | headEnd (pc : s.runPc = .head) (st : s.curState = .sessionEnd) :
    RunStep o env s { s with runPc := .close } []
  | head (pc : s.runPc = .head) (st : s.curState ≠ .sessionEnd) :
    RunStep o env s { s with runPc := .checkQueue } []
  | queueEmpty (pc : s.runPc = .checkQueue) (hq : s.q = []) :
    RunStep o env s { s with runPc := .head } []
  | queueNonempty (pc : s.runPc = .checkQueue) (hq : s.q ≠ []) :
    RunStep o env s { s with runPc := .setIdleCheck } []
  | setIdleCheck (pc : s.runPc = .setIdleCheck) :
    RunStep o env s { s with idleCheck := 1, runPc := .pop } []
  | popSkip {c q l} (pc : s.runPc = .pop) (hq : s.q = c :: q)
      (hf : (filter s.lastContent c).getD env.overrun = (true, l)) :
    RunStep o env s { s with q := q, lastContent := l, runPc := .head } [.popped c true]
  | pop {c q l} (pc : s.runPc = .pop) (hq : s.q = c :: q)
      (hf : (filter s.lastContent c).getD env.overrun = (false, l)) :
    RunStep o env s { s with q := q, lastContent := l, runPc := .setState c } [.popped c false]
  | setStateErr {c e} (pc : s.runPc = .setState c)
      (hst : Gdnp.setState s.curState c.type = .error e) :
    RunStep o env s { s with runPc := .head } []
  | setState {c st} (pc : s.runPc = .setState c)
      (hst : Gdnp.setState s.curState c.type = .ok st) :
    RunStep o env s { s with runPc := .writeState c st } []
  | writeState {c st} (pc : s.runPc = .writeState c st) :
    RunStep o env s { s with curState := st, runPc := .launchWait c } []
  | launchWait {c} (pc : s.runPc = .launchWait c) (st : s.curState = .processing) :
    RunStep o env s
      { s with waitThreads := s.waitThreads ++ [⟨.loop, 0⟩], runPc := .checkEnd c } []
  | noWait {c} (pc : s.runPc = .launchWait c) (st : s.curState ≠ .processing) :
    RunStep o env s { s with runPc := .checkEnd c } []
  | checkEnd {c} (pc : s.runPc = .checkEnd c) (st : s.curState ≠ .sessionEnd)
      (hc : c.type = .negoMsg ∨ c.type = .requestMsg) :
    RunStep o env s { s with runPc := .upper c } []
  | checkEndHead {c} (pc : s.runPc = .checkEnd c)
      (st : ¬ (s.curState ≠ .sessionEnd ∧ (c.type = .negoMsg ∨ c.type = .requestMsg))) :
    RunStep o env s { s with runPc := .head } []
  | upper {c} (pc : s.runPc = .upper c) :
    RunStep o env s { s with runPc := .setIdle c env.upperData } []
  | setIdle {c d} (pc : s.runPc = .setIdle c d) :
    RunStep o env s { s with curState := .idle, runPc := .decide c d } []
  | decide {c d} (pc : s.runPc = .decide c d) :
    RunStep o env s
      { s with runPc := .sendSwitch c (reply o (recvOption o c env.after env.uninit) d env.geq) } []
  | sendRefused {c r e} (pc : s.runPc = .sendSwitch c r)
      (hst : sendAllowed s.curState r.type = .error e) :
    RunStep o env s { s with runPc := .afterSend r.type } [.replied c r e]
  | sendSwitch {c r} (pc : s.runPc = .sendSwitch c r)
      (hst : sendAllowed s.curState r.type = .ok ()) :
    RunStep o env s { s with runPc := .sendWrite c r } []
  | sendFails {c r e} (pc : s.runPc = .sendWrite c r)
      (hw : writePdu r.bits r.type s.sessionId env.write = (e, none)) :
    RunStep o env s { s with runPc := .afterSend r.type } [.replied c r e]
  | sendNego {c r e msg} (pc : s.runPc = .sendWrite c r) (ht : r.type = .negoMsg)
      (hw : writePdu r.bits r.type s.sessionId env.write = (e, some msg)) :
    RunStep o env s { s with runPc := .sendSetState .negoMsg .idle }
      [.replied c r e, .wrote (some c) msg]
  | sendEnd {c r e msg} (pc : s.runPc = .sendWrite c r) (ht : r.type ≠ .negoMsg)
      (hw : writePdu r.bits r.type s.sessionId env.write = (e, some msg)) :
    RunStep o env s { s with runPc := .sendSetState r.type .sessionEnd }
      [.replied c r e, .wrote (some c) msg]
  | sendSetStateNego {st} (pc : s.runPc = .sendSetState .negoMsg st) :
    RunStep o env s { s with curState := st, runPc := .sendClearIdleCheck } []
  | sendSetState {type st} (pc : s.runPc = .sendSetState type st) (ht : type ≠ .negoMsg) :
    RunStep o env s { s with curState := st, runPc := .afterSend type } []
  | sendClearIdleCheck (pc : s.runPc = .sendClearIdleCheck) :
    RunStep o env s { s with idleCheck := 0, runPc := .sendLaunchEnd } []
  | sendLaunchEnd (pc : s.runPc = .sendLaunchEnd) :
    RunStep o env s
      { s with endThreads := s.endThreads ++ [⟨.sleep, 0⟩], runPc := .afterSend .negoMsg } []
  | afterSendEnd (pc : s.runPc = .afterSend .negoEndMsg) :
    RunStep o env s { s with curState := .sessionEnd, runPc := .head } []
  | afterSend {type} (pc : s.runPc = .afterSend type) (ht : type ≠ .negoEndMsg) :
    RunStep o env s { s with runPc := .head } []
  | close (pc : s.runPc = .close) : RunStep o env s { s with runPc := .done } []

theorem runStep_cases {o : ByteOrder} {env : RunEnv} {s s' : ServerSession}
    {es : List SessionEvent} (h : s.runStep o env = some (s', es)) : RunStep o env s s' es := by
  unfold runStep at h
  split at h
  all_goals try cases h
  · split_ifs with st
    exacts [.headEnd ‹_› st, .head ‹_› st]
  · split_ifs with hq
    exacts [.queueEmpty ‹_› hq, .queueNonempty ‹_› hq]
  · exact .setIdleCheck ‹_›
  · split at h
    · cases h
    · rename_i c q hq
      cases h
      rcases hf : (filter s.lastContent c).getD env.overrun with ⟨_ | _, l⟩
      exacts [.pop ‹_› hq hf, .popSkip ‹_› hq hf]
  · split at h <;> cases h
    exacts [.setStateErr ‹_› ‹_›, .setState ‹_› ‹_›]
  · exact .writeState ‹_›
  · split_ifs at h with st <;> cases h
    exacts [.launchWait ‹_› st, .noWait ‹_› st]
  · split_ifs at h with st <;> cases h
    exacts [.checkEnd ‹_› st.1 st.2, .checkEndHead ‹_› st]
  · exact .upper ‹_›
  · exact .setIdle ‹_›
  · exact .decide ‹_›
  · split at h <;> cases h
    exacts [.sendRefused ‹_› ‹_›, .sendSwitch ‹_› ‹_›]
  · split at h <;> cases h
    · exact .sendFails ‹_› ‹_›
    · split_ifs with ht
      · rw [ht]
        exact .sendNego ‹_› ht ‹_›
      · exact .sendEnd ‹_› ht ‹_›
  · split_ifs with ht
    · exact .sendSetStateNego (ht ▸ ‹_›)
    · exact .sendSetState ‹_› ht
  · exact .sendClearIdleCheck ‹_›
  · exact .sendLaunchEnd ‹_›
  · split_ifs at h with ht <;> cases h
    exacts [.afterSendEnd (ht ▸ ‹_›), .afterSend ‹_› ht]
  · exact .close ‹_›

/-! ### What the helper threads can do -/

variable {o : ByteOrder} {s s' : ServerSession} {k : ℕ} {es : List SessionEvent}

theorem step_wait_iff {env : WriteEnv} :
    step o s (.wait k env) = some (s', es) ↔
      ∃ t t', s.waitThreads[k]? = some t ∧ s.waitStep o env t = some (t', es) ∧
        s' = { s with waitThreads := s.waitThreads.set k t' } := by
  simp only [step, Option.bind_eq_some_iff, Option.map_eq_some_iff, Prod.exists, Prod.mk.injEq]
  constructor
  · rintro ⟨t, ht, t', _, h, rfl, rfl⟩
    exact ⟨t, t', ht, h, rfl⟩
  · rintro ⟨t, t', ht, h, rfl⟩
    exact ⟨t, ht, t', es, h, rfl, rfl⟩

theorem step_ends_iff :
    step o s (.ends k) = some (s', es) ↔
      ∃ t t' s₁, s.endThreads[k]? = some t ∧ s.endStep t = some (t', s₁) ∧
        s' = { s₁ with endThreads := s.endThreads.set k t' } ∧ es = [] := by
  simp only [step, Option.bind_eq_some_iff, Option.map_eq_some_iff, Prod.exists, Prod.mk.injEq]
  constructor
  · rintro ⟨t, ht, t', s₁, h, rfl, rfl⟩
    exact ⟨t, t', s₁, ht, h, rfl, rfl⟩
  · rintro ⟨t, t', s₁, ht, h, rfl, rfl⟩
    exact ⟨t, ht, t', s₁, h, rfl, rfl⟩

/-- An end thread writes nothing but the idle flag and, when it expires, the state. -/
theorem endStep_cases {t t' : EndThread} {s₁ : ServerSession}
    (h : s.endStep t = some (t', s₁)) :
    s₁ = s ∨ s₁ = { s with idleCheck := 0 } ∨
      (t.pc = .expire ∧ s₁ = { s with curState := .sessionEnd }) := by
  unfold endStep at h
  split at h
  · cases h
    exact .inl rfl
  · cases h
    exact .inl rfl
  · cases h
    exact .inr (.inl rfl)
  · cases h
    exact .inr (.inr ⟨‹_›, rfl⟩)
  · cases h

/-- A wait thread writes at most a WAIT_MSG. -/
theorem waitStep_events {env : WriteEnv} {t t' : WaitThread}
    (h : s.waitStep o env t = some (t', es)) :
    es = [] ∨ ∃ msg, es = [.wrote none msg] ∧
      (writePdu ((waitOption o).toBits o) .waitMsg s.sessionId env).2 = some msg := by
  unfold waitStep at h
  split at h
  any_goals
    cases h
    exact .inl rfl
  · split at h <;> cases h <;> exact .inl rfl
  · cases h
    rcases hw : (writePdu ((waitOption o).toBits o) .waitMsg s.sessionId env).2 with _ | msg
    · exact .inl rfl
    · exact .inr ⟨msg, rfl, rfl⟩
  · cases h

/-! ### The filter in a run -/

/-- The message that is popped, and whether it is skipped. -/
def popped? : SessionEvent → Option (Content × Bool)
  | .popped c skipped => some (c, skipped)
  | _ => none

theorem runStep_popped {env : RunEnv} (h : s.runStep o env = some (s', es)) :
    (es.filterMap popped? = [] ∧ s'.lastContent = s.lastContent) ∨
      ∃ c skipped, es.filterMap popped? = [(c, skipped)] ∧
        (filter s.lastContent c).getD env.overrun = (skipped, s'.lastContent) := by
  cases runStep_cases h with
  | popSkip pc hq hf => exact .inr ⟨_, _, rfl, hf⟩
  | pop pc hq hf => exact .inr ⟨_, _, rfl, hf⟩
  | _ => exact .inl ⟨rfl, rfl⟩

/-- A step pops at most one message, and then `last_content` goes through the filter. -/
theorem step_popped {a : SessionAct} (h : s.step o a = some (s', es)) :
    (es.filterMap popped? = [] ∧ s'.lastContent = s.lastContent) ∨
      ∃ c skipped, es.filterMap popped? = [(c, skipped)] ∧
        (c.Terminated → filter s.lastContent c = some (skipped, s'.lastContent)) := by
  cases a with
  | push c =>
    cases h
    exact .inl ⟨rfl, rfl⟩
  | run env =>
    obtain hnone | ⟨c, skipped, hes, hf⟩ := runStep_popped h
    · exact .inl hnone
    · refine .inr ⟨c, skipped, hes, fun hc => ?_⟩
      have hsome : (filter s.lastContent c).isSome := filter_isSome hc
      obtain ⟨r, hr⟩ := Option.isSome_iff_exists.1 hsome
      rw [hr, Option.getD_some] at hf
      rw [hr, hf]
  | wait k env =>
    obtain ⟨t, t', -, hstep, rfl⟩ := step_wait_iff.1 h
    obtain rfl | ⟨msg, rfl, -⟩ := waitStep_events hstep <;> exact .inl ⟨rfl, rfl⟩
  | ends k =>
    obtain ⟨t, t', s₁, -, hstep, rfl, rfl⟩ := step_ends_iff.1 h
    obtain rfl | rfl | ⟨-, rfl⟩ := endStep_cases hstep <;> exact .inl ⟨rfl, rfl⟩

/-- In every run of a session in which the popped messages have a zero byte, those are skipped that
`filterAll` says. -/
theorem run_popped {as : List SessionAct} (hrun : (machine o).run s as = some (s', es))
    (hterm : ∀ p ∈ es.filterMap popped?, p.1.Terminated) :
    filterAll s.lastContent ((es.filterMap popped?).map Prod.fst) =
      some ((es.filterMap popped?).map Prod.snd) := by
  induction as generalizing s es with
  | nil =>
    obtain ⟨-, rfl⟩ := EventMachine.run_nil_iff.1 hrun
    rfl
  | cons a as ih =>
    obtain ⟨s₁, es₁, es₂, hstep, hrest, rfl⟩ := EventMachine.run_cons_iff.1 hrun
    rw [List.filterMap_append, List.forall_mem_append] at hterm
    have hih := ih hrest hterm.2
    rw [List.filterMap_append, List.map_append, List.map_append]
    obtain ⟨hes, hlast⟩ | ⟨c, skipped, hes, hf⟩ := step_popped hstep
    · rw [hes, ← hlast]
      exact hih
    · rw [hes] at hterm ⊢
      have hc := hf (hterm.1 _ (List.mem_singleton_self _))
      exact filterAll_cons_iff.2 ⟨skipped, s₁.lastContent, _, hc, hih, rfl⟩

/-! ### Inputs of sample runs -/

/-- An ASA that answers `b`, while all calls of `write` succeed. -/
@[simp] def answerEnv (geq : Bool) : RunEnv :=
  ⟨valueB, geq, ⟨.success, 0⟩, fun _ => 0, .divert, (false, ⟨.requestMsg, CharArray.zero _⟩)⟩

def answer (geq : Bool) : SessionAct := .run (answerEnv geq)

/-- An offer of the value `a` by a little-endian host. -/
def offer (msgType : MsgType) (type : OptionType) (loopCount : UInt8) : Content :=
  .ofBits msgType ((objectiveOf type valueA loopCount 0).toBits .little)

end ServerSession

end Gdnp
