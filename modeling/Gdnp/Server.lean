import Gdnp.Datagram
import Gdnp.Session

/-!
# The server

`ServerMaster::run` waits for input with `select`, and in one iteration handles one descriptor: a
discovery message, a connection request or a PDU on the connection accepted last, which
`distribute` gives to the session with its id.  A step of the machine is an iteration
(`ServerMaster.iterate`), a call of `listen_negotiate`, or a step of a thread of a session.  When a
session ends, `clear_when_session_end` takes it from the table and its descriptor from the watch
list.

The lock `fdset_lock` is taken and released where `run` does so; an iteration that would take it
twice does not end.
-/

open CMem

namespace Gdnp

def maxClientsNum : ℕ := 5

/-- A `ServerSession` with the socket it was given. -/
structure SessionEntry where
  tcpSock : ℤ
  session : ServerSession

structure ServerMaster where
  /-- The loop thread holds `fdset_lock`. -/
  fdsetLock : Bool
  udpSock : ℤ
  listenSock : ℤ
  tcpSock : ℤ
  readFlags : List ℤ
  ssMap : UInt32 → Option SessionEntry
  localInterfaces : List CString
  tcpFdSet : ℕ → ℤ
  tcpAccepted : ℕ

/-- Inputs of an iteration: the descriptors on which input waits (`none` when `select` fails), the
outcomes of `recvfrom`, `sendto`, `accept` and `read`, and what a missing interface, an unset
`content` and an unset `last_content` hold. -/
structure LoopEnv where
  ready : Option (List ℕ)
  datagram : Option Msg
  clientAddr : SockAddr
  send : WriteEnv
  acceptSock : ℤ
  pdu : Option Msg
  outside : CString
  uninit : CharArray maxStringLength
  last : Content

inductive MasterAct where
  | iterate (env : LoopEnv)
  | listen (sock : ℤ)
  | session (sessionId : UInt32) (a : SessionAct)

inductive MasterEvent where
  /-- `recv_pdu` is called on a socket. -/
  | received (sock : ℤ) (outcome : Except Errno Decoded)
  /-- A RESPONSE_MSG is sent. -/
  | responded (clientAddr : SockAddr) (msg : Msg)
  /-- `accept` is called on a socket, and gives another. -/
  | accepted (sock tcpSock : ℤ)
  /-- `read_pdu` is called on a socket. -/
  | read (sock : ℤ) (outcome : Except Errno Decoded)
  | created (sessionId : UInt32) (c : Content)
  | pushed (sessionId : UInt32) (c : Content)
  /-- A thread of a session with the given socket did something. -/
  | session (sessionId : UInt32) (tcpSock : ℤ) (e : SessionEvent)
  | cleared (sessionId : UInt32)

def MasterEvent.isCreated : MasterEvent → Bool
  | created _ _ => true
  | _ => false

/-- The loop of `clear_when_session_end` over the watch list from index `i` on: `tcp_accepted` is
decreased whether or not the descriptor was found. -/
def unwatch (tcpSock : ℤ) (i : ℕ) (fds : ℕ → ℤ) : ℕ → (ℕ → ℤ) × ℕ
  | 0 => (fds, 0)
  | n + 1 =>
    if i < n + 1 then
      unwatch tcpSock (i + 1)
        (if fds i = tcpSock then fun j => if i ≤ j ∧ j < n then fds (j + 1) else fds j else fds) n
    else (fds, n + 1)

namespace ServerMaster

/-- The server after `server_init`, which starts the loop thread; `fds` is what the unset
`tcp_fd_set` holds. -/
def start (udpSock : ℤ) (localInterfaces : List CString) (fds : ℕ → ℤ) : ServerMaster where
  fdsetLock := false
  udpSock := udpSock
  listenSock := -1
  tcpSock := -1
  readFlags := [udpSock]
  ssMap := fun _ => none
  localInterfaces := localInterfaces
  tcpFdSet := fds
  tcpAccepted := 0

/-- `pthread_mutex_lock` by the loop thread: it blocks for ever on a lock it holds. -/
def lock (sm : ServerMaster) : Option ServerMaster :=
  if sm.fdsetLock then none else some { sm with fdsetLock := true }

def unlock (sm : ServerMaster) : ServerMaster := { sm with fdsetLock := false }

/-- The descriptors that `run` puts into `read_flags` before `select`. -/
def watched (sm : ServerMaster) : List ℤ :=
  sm.udpSock :: (if sm.listenSock ≠ -1 then [sm.listenSock] else []) ++
    (List.range sm.tcpAccepted).map sm.tcpFdSet

/-- The descriptors that `select` leaves in `read_flags` when input waits on those in `ready`. -/
def flagged (sm : ServerMaster) (ready : List ℕ) : List ℤ :=
  sm.watched.filter (· ∈ ready.map (↑))

/-- Insert into `ss_map`, replace or erase the entry of a session id. -/
def setEntry (sm : ServerMaster) (sessionId : UInt32) (ss : Option SessionEntry) : ServerMaster :=
  { sm with ssMap := Function.update sm.ssMap sessionId ss }

def distribute (sm : ServerMaster) (sessionId : UInt32) (buffer : List UInt8) (type : MsgType)
    (uninit : CharArray maxStringLength) (last : Content) : ServerMaster × List MasterEvent :=
  let c : Content := ⟨type, uninit.memcpy buffer⟩
  match sm.ssMap sessionId with
  | some ss =>
    if type = .requestMsg then (sm, [])
    else
      (sm.setEntry sessionId
          (some { ss with session := { ss.session with q := ss.session.q ++ [c] } }),
        [.pushed sessionId c])
  | none =>
    if type ≠ .requestMsg then (sm, [])
    else
      (sm.setEntry sessionId (some ⟨sm.tcpSock, .new sessionId c last⟩), [.created sessionId c])

/-- The branch of `run` for a datagram: a DISCOVERY_MSG is answered with the second interface
address. -/
def recvDiscovery (o : ByteOrder) (env : LoopEnv) (sm : ServerMaster) : List MasterEvent :=
  let outcome := recvPdu sm.udpSock env.datagram
  .received sm.udpSock outcome :: match outcome with
    | .error _ => []
    | .ok d =>
      if d.type = .discoveryMsg then
        let option := locatorOption (sm.localInterfaces[1]?.getD env.outside)
        ((sendPdu sm.udpSock (option.toBits o) .responseMsg d.sessionId env.send).2.map
          (.responded env.clientAddr)).toList
      else []

/-- The branch of `run` for a connection request. -/
def acceptClient (env : LoopEnv) (sm : ServerMaster) : ServerMaster × List MasterEvent :=
  if sm.tcpAccepted < maxClientsNum then
    ({ sm with
      tcpSock := env.acceptSock
      tcpFdSet := Function.update sm.tcpFdSet sm.tcpAccepted env.acceptSock
      tcpAccepted := sm.tcpAccepted + 1 }, [.accepted sm.listenSock env.acceptSock])
  else (sm, [])

/-- The branch of `run` for a PDU. -/
def readClient (env : LoopEnv) (sm : ServerMaster) : ServerMaster × List MasterEvent :=
  let outcome := recvPdu sm.tcpSock env.pdu
  match outcome with
  | .error _ => (sm, [.read sm.tcpSock outcome])
  | .ok d =>
    let r := sm.distribute d.sessionId d.data.bytes d.type env.uninit env.last
    (r.1, .read sm.tcpSock outcome :: r.2)

/-- The descriptors that are set in `read_flags` after `select`, in the order in which `run` tests
them; the lock is held before, and released in each branch. -/
def dispatch (o : ByteOrder) (env : LoopEnv) (sm : ServerMaster) :
    ServerMaster × List MasterEvent :=
  if sm.udpSock ∈ sm.readFlags then (sm.unlock, sm.unlock.recvDiscovery o env)
  else if sm.listenSock ≠ -1 ∧ sm.listenSock ∈ sm.readFlags then sm.unlock.acceptClient env
  else if sm.tcpSock ≠ -1 ∧ sm.tcpSock ∈ sm.readFlags then sm.unlock.readClient env
  else (sm, [])

/-- One iteration of `run`; `none` when it does not end. -/
def iterate (o : ByteOrder) (env : LoopEnv) (sm : ServerMaster) :
    Option (ServerMaster × List MasterEvent) :=
  if sm.udpSock = -1 then some (sm, [])
  else sm.lock.bind fun sm =>
    match env.ready with
    | none => some ({ sm.unlock with readFlags := sm.watched }, [])
    | some ready =>
      let sm := { sm.unlock with readFlags := sm.flagged ready }
      if sm.readFlags = [] then some (sm, [])
      else sm.lock.map (dispatch o env)

/-- `listen_negotiate`, when `socket` gives `sock`.  It sets `listen_sock` before it takes the
lock. -/
def listenNegotiate (sm : ServerMaster) (sock : ℤ) : ServerMaster :=
  { sm with
    listenSock := sock
    readFlags := if sock < 0 ∨ sm.fdsetLock then sm.readFlags else sock :: sm.readFlags }

def clearWhenSessionEnd (sm : ServerMaster) (sessionId : UInt32) (tcpSock : ℤ) : ServerMaster :=
  let watch := unwatch tcpSock 0 sm.tcpFdSet sm.tcpAccepted
  { sm.setEntry sessionId none with
    tcpFdSet := watch.1
    tcpAccepted := watch.2 }

/-- A step of a thread of a session; the last step of `run` clears the session. -/
def sessionStep (o : ByteOrder) (sm : ServerMaster) (sessionId : UInt32) (a : SessionAct) :
    Option (ServerMaster × List MasterEvent) :=
  (sm.ssMap sessionId).bind fun ss => (ss.session.step o a).map fun r =>
    if r.1.runPc.isDone then
      (sm.clearWhenSessionEnd sessionId ss.tcpSock, [.cleared sessionId])
    else
      (sm.setEntry sessionId (some { ss with session := r.1 }),
        r.2.map (.session sessionId ss.tcpSock))

def step (o : ByteOrder) (sm : ServerMaster) : MasterAct →
    Option (ServerMaster × List MasterEvent)
  | .iterate env => sm.iterate o env
  | .listen sock => some (sm.listenNegotiate sock, [])
  | .session _ (.push _) => none
  | .session sessionId a => sm.sessionStep o sessionId a

/-- The server as a machine. -/
def machine (o : ByteOrder) : EventMachine ServerMaster MasterAct MasterEvent := ⟨step o⟩

/-! ### What a step does -/

variable {o : ByteOrder} {sm sm' : ServerMaster} {es : List MasterEvent} {env : LoopEnv}
  {sessionId : UInt32} {ss : SessionEntry}

@[simp] theorem setEntry_ssMap_self : (sm.setEntry sessionId (some ss)).ssMap sessionId = some ss :=
  Function.update_self ..

theorem setEntry_ssMap_of_ne {id : UInt32} {entry : Option SessionEntry} (h : id ≠ sessionId) :
    (sm.setEntry sessionId entry).ssMap id = sm.ssMap id :=
  Function.update_of_ne h ..

/-- Where a session in the table comes from: it is the new entry, or it was there before. -/
theorem setEntry_ssMap_eq_some {id : UInt32} {ss' : SessionEntry} :
    (sm.setEntry sessionId (some ss)).ssMap id = some ss' ↔
      id = sessionId ∧ ss = ss' ∨ id ≠ sessionId ∧ sm.ssMap id = some ss' := by
  by_cases hid : id = sessionId
  · subst hid
    rw [setEntry_ssMap_self]
    simp
  · rw [setEntry_ssMap_of_ne hid]
    simp [hid]

theorem distribute_eq (sessionId : UInt32) (buffer : List UInt8) (type : MsgType)
    (uninit : CharArray maxStringLength) (last : Content) :
    ∃ ssMap, (sm.distribute sessionId buffer type uninit last).1 = { sm with ssMap := ssMap } := by
  unfold distribute
  split <;> split_ifs <;> exact ⟨_, rfl⟩

theorem readClient_eq (sm : ServerMaster) (env : LoopEnv) :
    ∃ ssMap, (sm.readClient env).1 = { sm with ssMap := ssMap } := by
  unfold readClient
  cases recvPdu sm.tcpSock env.pdu with
  | error e => exact ⟨sm.ssMap, rfl⟩
  | ok d => exact distribute_eq ..

/-- The loop thread is about to test the descriptors. -/
def testing (sm : ServerMaster) (ready : List ℕ) : ServerMaster :=
  { sm with fdsetLock := true, readFlags := sm.flagged ready }

theorem iterate_of_locked (hudp : sm.udpSock ≠ -1) (h : sm.fdsetLock = true) :
    sm.iterate o env = none := by
  rw [iterate, if_neg hudp, lock, if_pos h]
  rfl

/-- What an iteration does when it begins without the lock. -/
theorem iterate_cases (o : ByteOrder) (env : LoopEnv) (h : sm.fdsetLock = false) :
    (sm.udpSock ≠ -1 ∧ ∃ ready, env.ready = some ready ∧ sm.flagged ready ≠ [] ∧
      sm.iterate o env = some ((sm.testing ready).dispatch o env)) ∨
    ((sm.udpSock ≠ -1 → ∀ ready ∈ env.ready, sm.flagged ready = []) ∧
      ∃ flags, sm.iterate o env = some ({ sm with readFlags := flags }, [])) := by
  unfold iterate
  by_cases hudp : sm.udpSock = -1
  · exact .inr ⟨absurd hudp, sm.readFlags, if_pos hudp⟩
  · have hlock : sm.lock = some { sm with fdsetLock := true } := if_neg (by simp [h])
    rw [if_neg hudp, hlock, Option.bind_some]
    have hunlock : sm = { sm with fdsetLock := false } := by rw [← h]
    cases hready : env.ready with
    | none =>
      refine .inr ⟨by simp, sm.watched, ?_⟩
      rw [hunlock]
      rfl
    | some ready =>
      by_cases hflags : sm.flagged ready = []
      · refine .inr ⟨by simpa using fun _ => hflags, sm.flagged ready, ?_⟩
        rw [hunlock]
        exact if_pos hflags
      · refine .inl ⟨hudp, ready, rfl, hflags, ?_⟩
        exact if_neg hflags

/-- What an iteration does, if it ends. -/
theorem iterate_inv (h : sm.iterate o env = some (sm', es)) :
    (sm.udpSock ≠ -1 ∧ ∃ ready, env.ready = some ready ∧ sm.flagged ready ≠ [] ∧
      (sm.testing ready).dispatch o env = (sm', es)) ∨
    ((sm.udpSock ≠ -1 → ∀ ready ∈ env.ready, sm.flagged ready = []) ∧ es = [] ∧
      ∃ flags, sm' = { sm with readFlags := flags }) := by
  by_cases hlock : sm.fdsetLock = true
  · by_cases hudp : sm.udpSock = -1
    · rw [iterate, if_pos hudp] at h
      cases h
      exact .inr ⟨absurd hudp, rfl, sm.readFlags, rfl⟩
    · rw [iterate_of_locked hudp hlock] at h
      cases h
  · obtain ⟨hudp, ready, hready, hflags, heq⟩ | ⟨hnone, flags, heq⟩ :=
      iterate_cases o env (Bool.eq_false_of_not_eq_true hlock)
    · exact .inl ⟨hudp, ready, hready, hflags, Option.some.inj (heq.symm.trans h)⟩
    · rw [heq] at h
      cases h
      exact .inr ⟨hnone, rfl, flags, rfl⟩

/-- What a step of a thread of a session does to the table. -/
theorem sessionStep_cases {b : SessionAct} (h : sm.sessionStep o sessionId b = some (sm', es)) :
    (es = [.cleared sessionId] ∧ sm'.ssMap = Function.update sm.ssMap sessionId none ∧
      sm'.tcpSock = sm.tcpSock) ∨
    ∃ ss s' es', sm.ssMap sessionId = some ss ∧ ss.session.step o b = some (s', es') ∧
      sm' = sm.setEntry sessionId (some { ss with session := s' }) ∧
      es = es'.map (.session sessionId ss.tcpSock) := by
  obtain ⟨ss, hss, h⟩ := Option.bind_eq_some_iff.1 h
  obtain ⟨⟨s', es'⟩, hstep, h⟩ := Option.map_eq_some_iff.1 h
  split_ifs at h <;> cases h
  · exact .inl ⟨rfl, rfl, rfl⟩
  · exact .inr ⟨ss, s', es', hss, hstep, rfl, rfl⟩

theorem step_session {b : SessionAct} (h : sm.step o (.session sessionId b) = some (sm', es)) :
    sm.sessionStep o sessionId b = some (sm', es) := by
  cases b with
  | push c => cases h
  | _ => exact h

end ServerMaster

end Gdnp
