import Gdnp.Lives
import Mathlib.Data.Finset.Erase
import Mathlib.Data.Finset.Filter
import Mathlib.Data.Finset.Insert

/-!
# The descriptors of the server

`accept` and `socket` give descriptors that are not in use, `select` fails when a watched descriptor
is closed at the call, and `accept`, `read` and `write` fail on a closed one.  A session thread that
is done calls `close_tcp`, and only then `clear_when_session_end`; `stop_negotiate` closes the
descriptors of the last connection and of the listening socket, and leaves both where `run` finds
them.  `listen_negotiate`, in one thread at a time, sets `listen_sock`, then waits for the lock, and
puts the socket into `read_flags` when it has released it.  All this may happen while `run` waits in
`select`, and before it looks at the result (`ServerProcess`).

In an orderly run `stop_negotiate` is not called, no connection brings a second session while one
runs, and nobody opens again what a session has closed while the session lingers in the table.  Then
the only closed descriptors that are watched are those of such sessions, and all other sessions have
an open one of their own (`descriptors_safe`).  After `stop_negotiate`, until `listen_negotiate` is
called, each new `select` fails, and the loop goes on to the descriptors at most once, after the one
before (`stop_silences`).
-/

open CMem

namespace Gdnp

/-! ## `select` and what comes after it -/

namespace ServerMaster

variable {o : ByteOrder} {sm sm' : ServerMaster} {env : LoopEnv} {es : List MasterEvent}

/-- `run` up to the call of `select`. -/
def select (sm : ServerMaster) : Option ServerMaster :=
  if sm.udpSock = -1 then none
  else sm.lock.map fun sm => { sm with readFlags := sm.watched }

/-- `select` returns: it leaves the descriptors on which input waits, or fails. -/
def selected (ready : Option (List ℕ)) (sm : ServerMaster) : ServerMaster :=
  { sm.unlock with
    readFlags := ready.elim sm.readFlags fun ready => sm.readFlags.filter (· ∈ ready.map (↑)) }

/-- `run` after a `select` that has found something. -/
def handle (o : ByteOrder) (env : LoopEnv) (sm : ServerMaster) :
    Option (ServerMaster × List MasterEvent) :=
  sm.lock.map (dispatch o env)

/-- An iteration is all of these, when nothing comes in between. -/
theorem iterate_eq (hudp : sm.udpSock ≠ -1) :
    sm.iterate o env = sm.select.bind fun sm =>
      if env.ready = none ∨ (sm.selected env.ready).readFlags = [] then
        some (sm.selected env.ready, [])
      else (sm.selected env.ready).handle o env := by
  rw [iterate, select, if_neg hudp, if_neg hudp]
  cases sm.lock with
  | none => rfl
  | some sm =>
    cases env.ready with
    | none => rfl
    | some ready => simp [handle, selected, flagged, unlock]

theorem select_eq (h : sm.select = some sm') :
    sm' = { sm with fdsetLock := true, readFlags := sm.watched } := by
  rw [select] at h
  split_ifs at h
  obtain ⟨sm₁, hlock, h⟩ := Option.map_eq_some_iff.1 h
  rw [lock] at hlock
  split_ifs at hlock
  cases hlock
  exact h.symm

theorem handle_eq (h : sm.handle o env = some (sm', es)) :
    ({ sm with fdsetLock := true } : ServerMaster).dispatch o env = (sm', es) := by
  obtain ⟨sm₁, hlock, h⟩ := Option.map_eq_some_iff.1 h
  rw [lock] at hlock
  split_ifs at hlock
  cases hlock
  exact h

theorem handle_creates (h : sm.handle o env = some (sm', es)) : Creates env.last sm sm' es := by
  cases dispatch_creates (handle_eq h) with
  | none hes hframe => exact .none hes hframe
  | one hes hnew hframe => exact .one hes hnew hframe

end ServerMaster

/-! ## The process with its descriptors -/

/-- The `write` of a step. -/
def SessionAct.write? : SessionAct → Option WriteEnv
  | run env => some env.write
  | wait _ env => some env
  | _ => none

/-- The session thread calls `clear_when_session_end` in the step. -/
def ServerSession.Clears (s : ServerSession) : SessionAct → Prop
  | .run _ => s.runPc.isClose = true
  | _ => False

instance (s : ServerSession) : DecidablePred s.Clears
  | .run _ => inferInstanceAs (Decidable (_ = true))
  | .push _ | .wait _ _ | .ends _ => inferInstanceAs (Decidable False)

/-- The descriptors that are open, and the sessions that have called `close_tcp` but are not cleared
yet. -/
structure Descriptors where
  server : ServerMaster
  opened : Finset ℤ
  lingering : Finset UInt32

/-- A session has closed the descriptor and is not cleared yet. -/
def Descriptors.Lingers (p : Descriptors) (fd : ℤ) : Prop :=
  ∃ id ∈ p.lingering, ∃ ss ∈ p.server.ssMap id, ss.tcpSock = fd

instance (p : Descriptors) : DecidablePred p.Lingers := fun fd =>
  Finset.decidableExistsAndFinset (p := fun id => ∃ ss ∈ p.server.ssMap id, ss.tcpSock = fd)

/-- A session in the table has the descriptor. -/
def ServerThreads.Uses (s : ServerThreads) (fd : ℤ) : Prop :=
  ∃ id ∈ s.keys, ∃ ss ∈ s.server.ssMap id, ss.tcpSock = fd

instance (s : ServerThreads) : DecidablePred s.Uses := fun fd =>
  List.decidableBEx (fun id => ∃ ss ∈ s.server.ssMap id, ss.tcpSock = fd) s.keys

/-- Where the loop thread is. -/
inductive LoopPhase where
  | head
  /-- In `select`, perhaps with a descriptor that was closed at the call. -/
  | waiting (closed : Bool)
  /-- Behind a `select` that has found something. -/
  | found
  deriving DecidableEq

namespace LoopPhase

def isWaiting : LoopPhase → Bool
  | waiting _ => true
  | _ => false

/-- How many more times `select` may find something without being called again. -/
def finds : LoopPhase → ℕ
  | waiting false => 1
  | _ => 0

/-- How many more times `run` may go on from a `select` without calling it again. -/
def handles : LoopPhase → ℕ
  | waiting false | found => 1
  | _ => 0

end LoopPhase

/-- Where a call of `listen_negotiate` is. -/
inductive ListenPhase where
  | idle
  /-- It has its socket, and waits for the lock. -/
  | locking
  /-- It has released the lock. -/
  | flagging
  deriving DecidableEq

/-- The process of the server. -/
structure ServerProcess extends ServerThreads where
  opened : Finset ℤ
  lingering : Finset UInt32
  loop : LoopPhase
  listening : ListenPhase

inductive ProcessAct where
  /-- `run` calls `select`. -/
  | select
  /-- `select` reports input on descriptors, or fails. -/
  | selected (ready : Option (List ℕ))
  /-- `run` goes on from there; a call of `distribute` has its parameters at the address `parm`. -/
  | handle (env : LoopEnv) (parm : ℕ)
  /-- Any other step of the threads. -/
  | threads (a : ThreadsAct)
  /-- `listen_negotiate` is called, and `socket` gives `sock`. -/
  | listen (sock : ℤ)
  /-- It has the lock for the call of `server_tcp_init`. -/
  | init
  /-- It puts `listen_sock` into `read_flags`. -/
  | flag
  /-- The `k`-th session thread calls `close_tcp`. -/
  | close (k : ℕ)
  /-- `stop_negotiate`. -/
  | stop

namespace ProcessAct

/-- `select` reports input. -/
def isFound : ProcessAct → Bool
  | selected ready => ready.isSome
  | _ => false

/-- The step goes on from a `select` that has found something. -/
def isHandle : ProcessAct → Bool
  | handle _ _ => true
  | _ => false

end ProcessAct

/-- The loop thread did something. -/
def ThreadsEvent.ofLoop : ThreadsEvent → Bool
  | master (.session _ _ _) | master (.cleared _) | start _ => false
  | master _ => true

namespace ServerProcess

/-- The process after `server_init`. -/
def start (udpSock : ℕ) (localInterfaces : List CString) (fds : ℕ → ℤ)
    (stack : ℕ → SessionRunParms) : ServerProcess where
  toServerThreads := .start (.start udpSock localInterfaces fds) stack
  opened := {(udpSock : ℤ)}
  lingering := ∅
  loop := .head
  listening := .idle

def descriptors (p : ServerProcess) : Descriptors := ⟨p.server, p.opened, p.lingering⟩

/-- The step of a thread of a session can end like that: `write` fails on a closed descriptor, and
the session calls `close_tcp` before it is cleared. -/
def SessionPossible (p : ServerProcess) (sessionId : UInt32) (a : SessionAct)
    (ss : SessionEntry) : Prop :=
  (ss.tcpSock ∉ p.opened → ∀ env ∈ a.write?, env.outcome ≠ .success) ∧
    (ss.session.Clears a → sessionId ∈ p.lingering)

/-- The system calls can end like that. -/
def Possible (p : ServerProcess) : ProcessAct → Prop
  | .selected ready => p.loop = .waiting true → ready = none
  | .handle env _ =>
    (env.acceptSock = -1 ∨
        0 ≤ env.acceptSock ∧ env.acceptSock ∉ p.opened ∧ p.server.listenSock ∈ p.opened) ∧
      (p.server.tcpSock ∉ p.opened → env.pdu = none)
  | .listen sock => sock = -1 ∨ 0 ≤ sock ∧ sock ∉ p.opened
  | .threads (.run k env _) => ∀ q ∈ p.runs? k, p.SessionPossible q.1 (.run env) q.2
  | .threads (.wait sessionId k env) =>
    ∀ ss ∈ p.server.ssMap sessionId, p.SessionPossible sessionId (.wait k env) ss
  | _ => True

instance (p : ServerProcess) (sessionId : UInt32) (a : SessionAct) :
    DecidablePred (p.SessionPossible sessionId a) := fun _ =>
  inferInstanceAs (Decidable ((_ → ∀ env ∈ SessionAct.write? _, _) ∧ (_ → _)))

instance (p : ServerProcess) : DecidablePred p.Possible
  | .selected _ => inferInstanceAs (Decidable (_ → _))
  | .handle _ _ => inferInstanceAs (Decidable ((_ ∨ _) ∧ (_ → _)))
  | .listen _ => inferInstanceAs (Decidable (_ ∨ _))
  | .threads (.run k _ _) => inferInstanceAs (Decidable (∀ q ∈ p.runs? k, _))
  | .threads (.wait sessionId _ _) =>
    inferInstanceAs (Decidable (∀ ss ∈ p.server.ssMap sessionId, _))
  | .threads (.iterate _ _) | .threads (.listen _) | .threads (.start _) | .threads (.ends _ _)
  | .select | .init | .flag | .close _ | .stop => inferInstanceAs (Decidable True)

/-- The open descriptors after `accept`, if `run` calls it. -/
def openedByHandle (p : ServerProcess) (env : LoopEnv) : Finset ℤ :=
  if p.server.AboutToAccept ∧ 0 ≤ env.acceptSock then insert env.acceptSock p.opened else p.opened

/-- The sessions in the table of `sm` that linger. -/
def lingeringIn (p : ServerProcess) (sm : ServerMaster) : Finset UInt32 :=
  p.lingering.filter fun id => (sm.ssMap id).isSome

def step (o : ByteOrder) (p : ServerProcess) :
    ProcessAct → Option (ServerProcess × List ThreadsEvent)
  | .select =>
    if p.loop = .head ∧ p.call = none then
      p.server.select.map fun sm =>
        ({ p with
          server := sm
          loop := .waiting (decide (∃ fd ∈ p.server.watched, fd ∉ p.opened)) }, [])
    else none
  | .selected ready =>
    if p.Possible (.selected ready) ∧ p.loop.isWaiting then
      let sm := p.server.selected ready
      some ({ p with
        server := sm
        loop := if ready.isSome ∧ sm.readFlags ≠ [] then .found else .head }, [])
    else none
  | .handle env parm =>
    if p.Possible (.handle env parm) ∧ p.loop = .found ∧ p.call = none then
      (p.server.handle o env).map fun r =>
        ({ p with
          toServerThreads := p.launched r env.last parm
          opened := p.openedByHandle env
          loop := .head }, r.2.map .master)
    else none
  | .threads (.iterate _ _) | .threads (.listen _) => none
  | .threads a =>
    if p.Possible (.threads a) then
      (p.toServerThreads.step o a).map fun r =>
        ({ p with
          toServerThreads := r.1
          lingering := p.lingeringIn r.1.server }, r.2)
    else none
  | .listen sock =>
    if p.Possible (.listen sock) ∧ p.listening = .idle then
      some ({ p with
        server := { p.server with listenSock := sock }
        opened := if 0 ≤ sock then insert sock p.opened else p.opened
        listening := if 0 ≤ sock then .locking else .idle }, [])
    else none
  | .init =>
    if p.listening = .locking ∧ p.server.fdsetLock = false then
      some ({ p with listening := .flagging }, [])
    else none
  | .flag =>
    -- What is put there while `select` runs is overwritten when it returns.
    if p.listening = .flagging then
      some ({ p with
        server := { p.server with
          readFlags :=
            if p.loop.isWaiting then p.server.readFlags
            else p.server.listenSock :: p.server.readFlags }
        listening := .idle }, [])
    else none
  | .close k => (p.runs? k).bind fun q =>
    if q.2.session.runPc.isClose ∧ q.1 ∉ p.lingering then
      some ({ p with
        opened := p.opened.erase q.2.tcpSock
        lingering := insert q.1 p.lingering }, [])
    else none
  | .stop =>
    some ({ p with opened := (p.opened.erase p.server.tcpSock).erase p.server.listenSock }, [])

def machine (o : ByteOrder) : EventMachine ServerProcess ProcessAct ThreadsEvent := ⟨step o⟩

/-- `accept` succeeds, and a discovery message finds the interface with which it is answered. -/
def Serves (p : ServerProcess) (env : LoopEnv) : Prop :=
  (p.server.AboutToAccept → 0 ≤ env.acceptSock) ∧
    ∀ i ∈ p.server.interfaceReads env, i < p.server.localInterfaces.length

/-- The step touches the memory of the process only. -/
def Defined (o : ByteOrder) (p : ServerProcess) : ProcessAct → Prop
  | .handle env _ => p.Serves env
  | .threads a => p.toServerThreads.Defined o a
  | .close k => p.HasSession k fun _ => True
  | _ => True

/-- A call of `distribute` returns only after its thread has read its parameters, and a session is
cleared only when nobody else uses it any more. -/
def Sound (o : ByteOrder) (p : ServerProcess) : ProcessAct → Prop
  | .handle env _ => p.Serves env
  | .threads a => p.toServerThreads.Sound o a
  | _ => True

/-- `stop_negotiate` is not called, no connection on which a session runs brings the request of
another, and no descriptor is opened again before the session that has closed it is cleared. -/
def Orderly (p : ServerProcess) : ProcessAct → Prop
  | .handle env _ =>
    (p.server.AboutToRead → ∀ d ∈ (recvPdu p.server.tcpSock env.pdu).toOption,
        d.type = .requestMsg → p.server.ssMap d.sessionId = none →
          ¬ p.Uses p.server.tcpSock) ∧
      (p.server.AboutToAccept → ¬ p.descriptors.Lingers env.acceptSock)
  | .listen sock => ¬ p.descriptors.Lingers sock
  | .stop => False
  | _ => True

instance (p : ServerProcess) (env : LoopEnv) : Decidable (p.Serves env) :=
  inferInstanceAs (Decidable ((_ → _) ∧ ∀ i ∈ p.server.interfaceReads env, _))

instance (o : ByteOrder) (p : ServerProcess) : DecidablePred (p.Defined o)
  | .handle env _ => inferInstanceAs (Decidable (p.Serves env))
  | .threads a => inferInstanceAs (Decidable (p.toServerThreads.Defined o a))
  | .close k => inferInstanceAs (Decidable (p.HasSession k fun _ => True))
  | .select | .selected _ | .listen _ | .init | .flag | .stop => inferInstanceAs (Decidable True)

instance (o : ByteOrder) (p : ServerProcess) : DecidablePred (p.Sound o)
  | .handle env _ => inferInstanceAs (Decidable (p.Serves env))
  | .threads a => inferInstanceAs (Decidable (p.toServerThreads.Sound o a))
  | .select | .selected _ | .listen _ | .init | .flag | .close _ | .stop =>
    inferInstanceAs (Decidable True)

instance (p : ServerProcess) : DecidablePred p.Orderly
  | .handle _ _ =>
    inferInstanceAs (Decidable ((p.server.AboutToRead → ∀ d ∈ Except.toOption _, _ → _ → ¬ _) ∧
      (_ → _)))
  | .listen _ => inferInstanceAs (Decidable (¬ _))
  | .threads _ | .select | .selected _ | .init | .flag | .close _ =>
    inferInstanceAs (Decidable True)
  | .stop => inferInstanceAs (Decidable False)

/-- The process as the operating system runs it. -/
def process (o : ByteOrder) : EventMachine (Option ServerProcess)
    (ProcessAct × List ThreadsEvent) ThreadsEvent :=
  (machine o).orUndefined (Defined o)

end ServerProcess

/-- The descriptors in `tcp_fd_set[0..tcp_accepted)`. -/
def ServerMaster.clients (sm : ServerMaster) : List ℤ :=
  (List.range sm.tcpAccepted).map sm.tcpFdSet

/-! ## What the server owns -/

theorem map_shifted (fds : ℕ → ℤ) {i n : ℕ} (hi : i < n + 1) :
    (List.range n).map (fun j => if i ≤ j ∧ j < n then fds (j + 1) else fds j) =
      ((List.range (n + 1)).map fds).eraseIdx i := by
  apply List.ext_getElem
  · rw [List.length_eraseIdx_of_lt (by simpa using hi)]
    simp
  · intro j hj hj'
    have hjn : j < n := by simpa using hj
    rw [List.getElem_eraseIdx]
    by_cases hij : j < i
    · simp [hij]
    · simp [hij, hjn, Nat.le_of_not_lt hij]

/-- The loop of `clear_when_session_end` takes out the descriptor, and perhaps others. -/
theorem unwatch_clients (tcpSock : ℤ) {i : ℕ} {fds : ℕ → ℤ} {n : ℕ}
    (hdistinct : ((List.range n).map fds).Nodup) (hseen : ∀ j < i, j < n → fds j ≠ tcpSock) :
    ((List.range (unwatch tcpSock i fds n).2).map (unwatch tcpSock i fds n).1).Sublist
        ((List.range n).map fds) ∧
      tcpSock ∉ (List.range (unwatch tcpSock i fds n).2).map (unwatch tcpSock i fds n).1 := by
  induction n generalizing i fds with
  | zero => simp [unwatch]
  | succ n ih =>
    unfold unwatch
    by_cases hi : i < n + 1
    · rw [if_pos hi]
      by_cases hfound : fds i = tcpSock
      · rw [if_pos hfound]
        have hshifted := map_shifted fds hi
        have hsub : ((List.range n).map
            (fun j => if i ≤ j ∧ j < n then fds (j + 1) else fds j)).Sublist
              ((List.range (n + 1)).map fds) := by
          rw [hshifted]
          exact List.eraseIdx_sublist ..
        -- The descriptor was in the list only once.
        have hgone : ∀ j < i + 1, j < n →
            (if i ≤ j ∧ j < n then fds (j + 1) else fds j) ≠ tcpSock := by
          intro j hj hjn
          split_ifs with hij
          · rw [← hfound]
            intro heq
            have hinj := List.inj_on_of_nodup_map hdistinct (x := j + 1) (y := i)
              (List.mem_range.2 (by omega)) (List.mem_range.2 hi) heq
            omega
          · exact hseen j (by omega) (by omega)
        obtain ⟨hsub', hnot⟩ := ih (hdistinct.sublist hsub) hgone
        exact ⟨hsub'.trans hsub, hnot⟩
      · rw [if_neg hfound]
        have hsub : ((List.range n).map fds).Sublist ((List.range (n + 1)).map fds) := by
          rw [List.range_succ, List.map_append]
          exact List.sublist_append_left ..
        have hseen' : ∀ j < i + 1, j < n → fds j ≠ tcpSock := by
          intro j hj hjn
          obtain hlt | rfl := Nat.lt_succ_iff_lt_or_eq.1 hj
          · exact hseen j hlt (by omega)
          · exact hfound
        obtain ⟨hsub', hnot⟩ := ih (hdistinct.sublist hsub) hseen'
        exact ⟨hsub'.trans hsub, hnot⟩
    · rw [if_neg hi]
      refine ⟨List.Sublist.refl _, ?_⟩
      intro hmem
      obtain ⟨j, hj, heq⟩ := List.mem_map.1 hmem
      have hj := List.mem_range.1 hj
      exact hseen j (by omega) hj heq

/-! ### What a session is about to do -/

/-- `distribute` moves no session thread. -/
theorem ServerMaster.distribute_runPc {sm : ServerMaster} {id : UInt32} {ss : SessionEntry}
    (sessionId : UInt32) (buffer : List UInt8) (type : MsgType) (uninit : CharArray maxStringLength)
    (last : Content) (hss : sm.ssMap id = some ss) :
    ∃ ss', (sm.distribute sessionId buffer type uninit last).1.ssMap id = some ss' ∧
      ss'.session.runPc = ss.session.runPc := by
  by_cases hid : id = sessionId
  · subst hid
    unfold distribute
    simp only [hss]
    split_ifs
    · exact ⟨ss, hss, rfl⟩
    · exact ⟨_, setEntry_ssMap_self, rfl⟩
  · exact ⟨ss, (distribute_ssMap_of_ne hid buffer type uninit last).trans hss, rfl⟩

namespace ServerSession

variable {o : ByteOrder} {s s' : ServerSession} {b : SessionAct} {es : List SessionEvent}

/-- A session is over when its thread has called `clear_when_session_end`. -/
theorem step_isDone_iff (h : s.step o b = some (s', es)) (hs : s.runPc.isDone = false) :
    s'.runPc.isDone = true ↔ s.Clears b := by
  obtain ⟨env, rfl⟩ | hb := b.run_or
  · have h' : s.runStep o env = some (s', es) := h
    unfold Clears
    cases runStep_cases h' with
    | close pc => simp [pc, RunPc.isDone, RunPc.isClose]
    | headEnd pc | head pc | queueEmpty pc | queueNonempty pc | setIdleCheck pc | popSkip pc
    | pop pc | setStateErr pc | setState pc | writeState pc | launchWait pc | noWait pc
    | checkEnd pc | checkEndHead pc | upper pc | setIdle pc | decide pc | sendRefused pc
    | sendSwitch pc | sendFails pc | sendNego pc | sendEnd pc | sendSetStateNego pc
    | sendSetState pc | sendClearIdleCheck pc | sendLaunchEnd pc | afterSendEnd pc
    | afterSend pc => simp [pc, RunPc.isDone, RunPc.isClose]
  · rw [(step_runPc h hb).1, hs]
    refine iff_of_false Bool.false_ne_true fun hclears => ?_
    cases b with
    | run env => exact hb env rfl
    | _ => exact hclears

/-- A thread that has called `close_tcp` goes on with `clear_when_session_end` only. -/
theorem step_isClose (h : s.step o b = some (s', es)) (hs : s.runPc.isClose = true)
    (hb : ¬ s.Clears b) : s'.runPc.isClose = true := by
  obtain ⟨env, rfl⟩ | hrun := b.run_or
  · exact absurd hs hb
  · rw [(step_runPc h hrun).1]
    exact hs

end ServerSession

namespace Descriptors

/-- The descriptor is that of a connection, and open unless its session has closed it. -/
structure IsConnection (p : Descriptors) (fd : ℤ) : Prop where
  nonneg : 0 ≤ fd
  udp : fd ≠ p.server.udpSock
  listen : fd ≠ p.server.listenSock
  opened : fd ∈ p.opened ∨ p.Lingers fd

/-- The sockets of the server are open; those of the watched connections and of the sessions are
open or linger, and have different descriptors. -/
structure Owns (p : Descriptors) : Prop where
  nonneg : ∀ fd ∈ p.opened, 0 ≤ fd
  udp : p.server.udpSock ∈ p.opened
  listen : p.server.listenSock = -1 ∨
    (p.server.listenSock ∈ p.opened ∧ p.server.listenSock ≠ p.server.udpSock)
  clients : ∀ fd ∈ p.server.clients, p.IsConnection fd
  nodup : p.server.clients.Nodup
  entry : ∀ id ss, p.server.ssMap id = some ss →
    p.IsConnection ss.tcpSock ∧ (ss.tcpSock ∈ p.opened ↔ id ∉ p.lingering)
  distinct : ∀ id ss id' ss', p.server.ssMap id = some ss → p.server.ssMap id' = some ss' →
    ss.tcpSock = ss'.tcpSock → id = id'
  lingering : ∀ id ∈ p.lingering, ∃ ss, p.server.ssMap id = some ss ∧
    ss.session.runPc.isClose = true

variable {o : ByteOrder} {p p' : Descriptors} {es : List MasterEvent} {env : LoopEnv}
  {sm : ServerMaster}

theorem owns_start (udpSock : ℕ) (localInterfaces : List CString) (fds : ℕ → ℤ) :
    Owns ⟨.start udpSock localInterfaces fds, {(udpSock : ℤ)}, ∅⟩ where
  nonneg fd hfd := by
    rw [Finset.mem_singleton.1 hfd]
    exact Int.natCast_nonneg udpSock
  udp := Finset.mem_singleton_self _
  listen := .inl rfl
  clients fd hfd := absurd hfd List.not_mem_nil
  nodup := List.nodup_nil
  entry := by
    rintro id ss ⟨⟩
  distinct := by
    rintro id ss id' ss' ⟨⟩
  lingering id hid := absurd hid (Finset.notMem_empty id)

/-- What `select` watches is open or lingers. -/
theorem Owns.watched (hp : p.Owns) {fd : ℤ} (hfd : fd ∈ p.server.watched) :
    fd ∈ p.opened ∨ p.Lingers fd := by
  rcases List.mem_append.1 hfd with hfd | hfd
  · left
    rcases List.mem_cons.1 hfd with rfl | hfd
    · exact hp.udp
    · split_ifs at hfd with hlisten
      · rw [List.mem_singleton.1 hfd]
        exact (hp.listen.resolve_left hlisten).1
      · exact absurd hfd List.not_mem_nil
  · exact (hp.clients fd hfd).opened

/-- A connection from which a PDU is read is open. -/
theorem Owns.tcpSock_of_read (hp : p.Owns) (hr : p.server.AboutToRead)
    (hopened : p.server.tcpSock ∈ p.opened) : p.IsConnection p.server.tcpSock := by
  obtain ⟨hudp, hlisten, htcp, hflag⟩ := hr
  refine ⟨hp.nonneg _ hopened, ?_, ?_, .inl hopened⟩
  · intro heq
    rw [heq] at hflag
    exact hudp hflag
  · intro heq
    rw [heq] at htcp hflag
    exact hlisten ⟨htcp, hflag⟩

/-- A step in which the table keeps its sessions with their descriptors. -/
theorem Lingers.mono {fd : ℤ} (h : p.Lingers fd)
    (hkeep : ∀ id ∈ p.lingering, ∀ ss, p.server.ssMap id = some ss → ss.tcpSock = fd →
      id ∈ p'.lingering ∧ ∃ ss', p'.server.ssMap id = some ss' ∧ ss'.tcpSock = ss.tcpSock) :
    p'.Lingers fd := by
  obtain ⟨id, hid, ss, hss, rfl⟩ := h
  obtain ⟨hid', ss', hss', hsame⟩ := hkeep id hid ss hss rfl
  exact ⟨id, hid', ss', hss', hsame⟩

theorem clients_accept (sm : ServerMaster) (sock : ℤ) (tcpSock : ℤ) (fdsetLock : Bool)
    (readFlags : List ℤ) :
    ServerMaster.clients { sm with
      fdsetLock := fdsetLock
      readFlags := readFlags
      tcpSock := tcpSock
      tcpFdSet := Function.update sm.tcpFdSet sm.tcpAccepted sock
      tcpAccepted := sm.tcpAccepted + 1 } = sm.clients ++ [sock] := by
  simp only [ServerMaster.clients, List.range_succ, List.map_append, List.map_singleton,
    Function.update_self]
  congr 1
  apply List.map_congr_left
  intro j hj
  exact Function.update_of_ne (List.mem_range.1 hj).ne ..

theorem Owns.idle (hp : p.Owns) (fdsetLock : Bool) (readFlags : List ℤ) :
    Owns { p with server := { p.server with fdsetLock := fdsetLock, readFlags := readFlags } } := by
  have hkeep : ∀ fd, p.IsConnection fd → IsConnection { p with
      server := { p.server with fdsetLock := fdsetLock, readFlags := readFlags } } fd :=
    fun fd h => ⟨h.nonneg, h.udp, h.listen, h.opened⟩
  exact ⟨hp.nonneg, hp.udp, hp.listen, fun fd hfd => hkeep fd (hp.clients fd hfd), hp.nodup,
    fun id ss hss => (hp.entry id ss hss).imp_left (hkeep _), hp.distinct, hp.lingering⟩

/-- What is in use is not given again. -/
theorem Owns.ne_of_fresh (hp : p.Owns) {sock : ℤ} (hfresh : sock ∉ p.opened) :
    sock ≠ p.server.udpSock ∧ (0 ≤ sock → sock ≠ p.server.listenSock) := by
  constructor
  · rintro rfl
    exact hfresh hp.udp
  · rintro hpos rfl
    obtain hneg | ⟨hopened, -⟩ := hp.listen
    · omega
    · exact hfresh hopened

theorem IsConnection.ne_of_fresh {fd sock : ℤ} (h : p.IsConnection fd) (hfresh : sock ∉ p.opened)
    (hlingers : ¬ p.Lingers sock) : fd ≠ sock := by
  rintro rfl
  exact h.opened.elim hfresh hlingers

/-- A connection stays one when another descriptor is opened. -/
theorem IsConnection.insert {fd : ℤ} (h : p.IsConnection fd) (sock : ℤ)
    (hudp : sm.udpSock = p.server.udpSock) (hlisten : fd ≠ sm.listenSock)
    (hmap : sm.ssMap = p.server.ssMap) :
    IsConnection ⟨sm, insert sock p.opened, p.lingering⟩ fd where
  nonneg := h.nonneg
  udp := by
    rw [hudp]
    exact h.udp
  listen := hlisten
  opened := h.opened.imp (fun hmem => Finset.mem_insert_of_mem hmem) fun hlingers =>
    hlingers.mono fun id hid ss hss _ => ⟨hid, ss, by rw [hmap]; exact hss, rfl⟩

/-- The sessions when another descriptor is opened. -/
theorem Owns.entry_insert (hp : p.Owns) {sock : ℤ} (hfresh : sock ∉ p.opened)
    (hlingers : ¬ p.Lingers sock) (hudp : sm.udpSock = p.server.udpSock)
    (hlisten : ∀ fd, p.IsConnection fd → fd ≠ sm.listenSock) (hmap : sm.ssMap = p.server.ssMap) :
    ∀ id ss, sm.ssMap id = some ss →
      IsConnection ⟨sm, insert sock p.opened, p.lingering⟩ ss.tcpSock ∧
        (ss.tcpSock ∈ insert sock p.opened ↔ id ∉ p.lingering) := by
  intro id ss hss
  rw [hmap] at hss
  obtain ⟨hconnection, hiff⟩ := hp.entry id ss hss
  refine ⟨hconnection.insert sock hudp (hlisten _ hconnection) hmap, ?_⟩
  rw [Finset.mem_insert, or_iff_right (hconnection.ne_of_fresh hfresh hlingers)]
  exact hiff

/-- A new connection. -/
theorem Owns.accept (hp : p.Owns) {sock : ℤ} (hpos : 0 ≤ sock) (hfresh : sock ∉ p.opened)
    (hlingers : ¬ p.Lingers sock) (hudp : sm.udpSock = p.server.udpSock)
    (hlisten : sm.listenSock = p.server.listenSock) (hmap : sm.ssMap = p.server.ssMap)
    (hclients : sm.clients = p.server.clients ++ [sock]) :
    Owns ⟨sm, insert sock p.opened, p.lingering⟩ := by
  obtain ⟨hne, hne'⟩ := hp.ne_of_fresh hfresh
  have hlisten' : ∀ fd, p.IsConnection fd → fd ≠ sm.listenSock := fun fd h => by
    rw [hlisten]
    exact h.listen
  refine ⟨?_, ?_, ?_, ?_, ?_, hp.entry_insert hfresh hlingers hudp hlisten' hmap, ?_, ?_⟩
  · intro fd hfd
    rcases Finset.mem_insert.1 hfd with rfl | hfd
    · exact hpos
    · exact hp.nonneg fd hfd
  · rw [hudp]
    exact Finset.mem_insert_of_mem hp.udp
  · rw [hudp, hlisten]
    exact hp.listen.imp_right fun h => ⟨Finset.mem_insert_of_mem h.1, h.2⟩
  · intro fd hfd
    rw [hclients] at hfd
    rcases List.mem_append.1 hfd with hfd | hfd
    · have hconnection := hp.clients fd hfd
      exact hconnection.insert sock hudp (hlisten' fd hconnection) hmap
    · rw [List.mem_singleton.1 hfd]
      refine ⟨hpos, ?_, ?_, .inl (Finset.mem_insert_self ..)⟩
      · rw [hudp]
        exact hne
      · rw [hlisten]
        exact hne' hpos
  · rw [hclients, List.nodup_append]
    refine ⟨hp.nodup, List.nodup_singleton _, ?_⟩
    intro fd hfd fd' hsock
    rw [List.mem_singleton.1 hsock]
    exact (hp.clients fd hfd).ne_of_fresh hfresh hlingers
  · rw [hmap]
    exact hp.distinct
  · rw [hmap]
    exact hp.lingering

/-- A new listening socket, or none. -/
theorem Owns.listen_sock (hp : p.Owns) {sock : ℤ} (h : sock = -1 ∨ 0 ≤ sock ∧ sock ∉ p.opened)
    (hlingers : ¬ p.Lingers sock) :
    Owns ⟨{ p.server with listenSock := sock },
      if 0 ≤ sock then insert sock p.opened else p.opened, p.lingering⟩ := by
  obtain rfl | ⟨hpos, hfresh⟩ := h
  · have hne : ∀ fd, p.IsConnection fd →
        IsConnection ⟨{ p.server with listenSock := -1 }, p.opened, p.lingering⟩ fd := by
      intro fd hfd
      refine ⟨hfd.nonneg, hfd.udp, ?_, hfd.opened⟩
      have hpos := hfd.nonneg
      show fd ≠ -1
      omega
    exact ⟨hp.nonneg, hp.udp, .inl rfl, fun fd hfd => hne fd (hp.clients fd hfd), hp.nodup,
      fun id ss hss => (hp.entry id ss hss).imp_left (hne _), hp.distinct, hp.lingering⟩
  · have hlisten : ∀ fd, p.IsConnection fd → fd ≠ sock := fun fd hfd =>
      hfd.ne_of_fresh hfresh hlingers
    rw [if_pos hpos]
    refine ⟨?_, Finset.mem_insert_of_mem hp.udp, .inr ⟨Finset.mem_insert_self .., ?_⟩, ?_, hp.nodup,
      hp.entry_insert hfresh hlingers rfl hlisten rfl, hp.distinct, hp.lingering⟩
    · intro fd hfd
      rcases Finset.mem_insert.1 hfd with rfl | hfd
      · exact hpos
      · exact hp.nonneg fd hfd
    · exact (hp.ne_of_fresh hfresh).1
    · intro fd hfd
      have hconnection := hp.clients fd hfd
      exact hconnection.insert sock rfl (hlisten fd hconnection) rfl

/-- The table changes: its sessions keep their descriptors, and a new one gets that of an open
connection on which there was none. -/
theorem Owns.table (hp : p.Owns) {ssMap : UInt32 → Option SessionEntry} (sessionId : UInt32)
    (fdsetLock : Bool) (readFlags : List ℤ)
    (hentry : ∀ id ss, ssMap id = some ss →
      (∃ ss₀, p.server.ssMap id = some ss₀ ∧ ss₀.tcpSock = ss.tcpSock) ∨
        (id = sessionId ∧ p.server.ssMap id = none ∧ ss.tcpSock ∈ p.opened ∧
          p.IsConnection ss.tcpSock ∧
          ∀ id' ss', p.server.ssMap id' = some ss' → ss'.tcpSock ≠ ss.tcpSock))
    (hlingering : ∀ id ∈ p.lingering, ∃ ss, ssMap id = some ss ∧
      ss.session.runPc.isClose = true) :
    Owns { p with server := { p.server with
      fdsetLock := fdsetLock, readFlags := readFlags, ssMap := ssMap } } := by
  have hlingers : ∀ fd, p.Lingers fd → Lingers { p with server := { p.server with
      fdsetLock := fdsetLock, readFlags := readFlags, ssMap := ssMap } } fd := by
    refine fun fd h => h.mono fun id hid ss hss _ => ⟨hid, ?_⟩
    obtain ⟨ss', hss', -⟩ := hlingering id hid
    refine ⟨ss', hss', ?_⟩
    obtain ⟨ss₀, hss₀, hsame⟩ | ⟨-, hnone, -⟩ := hentry id ss' hss'
    · obtain rfl := Option.some.inj (hss.symm.trans hss₀)
      exact hsame.symm
    · rw [hnone] at hss
      cases hss
  have hkeep : ∀ fd, p.IsConnection fd → IsConnection { p with server := { p.server with
      fdsetLock := fdsetLock, readFlags := readFlags, ssMap := ssMap } } fd :=
    fun fd h => ⟨h.nonneg, h.udp, h.listen, h.opened.imp_right (hlingers fd)⟩
  refine ⟨hp.nonneg, hp.udp, hp.listen, fun fd hfd => hkeep fd (hp.clients fd hfd), hp.nodup,
    ?_, ?_, hlingering⟩
  · intro id ss hss
    obtain ⟨ss₀, hss₀, hsame⟩ | ⟨-, hnone, hopened, hconnection, -⟩ := hentry id ss hss
    · have hold := hp.entry id ss₀ hss₀
      rw [hsame] at hold
      exact hold.imp_left (hkeep _)
    · refine ⟨hkeep _ hconnection, iff_of_true hopened fun hid => ?_⟩
      obtain ⟨ss', hss', -⟩ := hp.lingering id hid
      rw [hnone] at hss'
      cases hss'
  · intro id ss id' ss' hss hss' heq
    obtain ⟨ss₀, hss₀, hsame⟩ | ⟨hid, -, -, -, hnew⟩ := hentry id ss hss
    · obtain ⟨ss₀', hss₀', hsame'⟩ | ⟨-, -, -, -, hnew'⟩ := hentry id' ss' hss'
      · exact hp.distinct id ss₀ id' ss₀' hss₀ hss₀' ((hsame.trans heq).trans hsame'.symm)
      · exact absurd (hsame.trans heq) (hnew' id ss₀ hss₀)
    · obtain ⟨ss₀', hss₀', hsame'⟩ | ⟨hid', -⟩ := hentry id' ss' hss'
      · exact absurd (hsame'.trans heq.symm) (hnew id' ss₀' hss₀')
      · rw [hid, hid']

/-- `run` handles what `select` has found. -/
theorem Owns.handle (hp : p.Owns) (h : ServerMaster.Dispatch p.server env sm)
    (haccept : p.server.AboutToAccept →
      0 ≤ env.acceptSock ∧ env.acceptSock ∉ p.opened ∧ ¬ p.Lingers env.acceptSock)
    (hread : p.server.AboutToRead → ∀ d, recvPdu p.server.tcpSock env.pdu = .ok d →
      p.server.tcpSock ∈ p.opened ∧ (d.type = .requestMsg → p.server.ssMap d.sessionId = none →
        ∀ id ss, p.server.ssMap id = some ss → ss.tcpSock ≠ p.server.tcpSock)) :
    Owns ⟨sm, if p.server.AboutToAccept ∧ 0 ≤ env.acceptSock then insert env.acceptSock p.opened
      else p.opened, p.lingering⟩ := by
  cases h with
  | idle ha hr =>
    rw [if_neg fun h => ha h.1]
    exact hp.idle _ p.server.readFlags
  | accept ha =>
    obtain ⟨hpos, hfresh, hlingers⟩ := haccept ha
    rw [if_pos ⟨ha, hpos⟩]
    exact hp.accept hpos hfresh hlingers rfl rfl rfl (clients_accept _ _ _ _ p.server.readFlags)
  | @read fdsetLock d hr hd =>
    obtain ⟨hopened, hnew⟩ := hread hr d hd
    rw [if_neg fun h => hr.not_aboutToAccept h.1]
    refine hp.table d.sessionId fdsetLock p.server.readFlags (fun id ss hss => ?_) fun id hid => ?_
    · obtain hold | ⟨rfl, hnone, htype, hsock⟩ := ServerMaster.distribute_tcpSock hss
      · exact .inl hold
      · rw [hsock]
        exact .inr ⟨rfl, hnone, hopened, hp.tcpSock_of_read hr hopened, hnew htype hnone⟩
    · obtain ⟨ss, hss, hclose⟩ := hp.lingering id hid
      obtain ⟨ss', hss', hpc⟩ := ServerMaster.distribute_runPc d.sessionId d.data.bytes d.type
        env.uninit env.last hss
      exact ⟨ss', hss', by rw [hpc]; exact hclose⟩

/-- A session that has closed its descriptor leaves the table. -/
theorem Owns.clear (hp : p.Owns) {id : UInt32} {ss : SessionEntry}
    (hss : p.server.ssMap id = some ss) (hid : id ∈ p.lingering) :
    Owns ⟨p.server.clearWhenSessionEnd id ss.tcpSock, p.opened, p.lingering.erase id⟩ := by
  obtain ⟨hsub, hgone⟩ := unwatch_clients ss.tcpSock (i := 0) hp.nodup
    fun j hj => absurd hj (Nat.not_lt_zero j)
  have hentry : ∀ id' ss', (p.server.clearWhenSessionEnd id ss.tcpSock).ssMap id' = some ss' ↔
      id' ≠ id ∧ p.server.ssMap id' = some ss' := by
    intro id' ss'
    show Function.update p.server.ssMap id none id' = some ss' ↔ _
    by_cases heq : id' = id
    · rw [heq, Function.update_self]
      simp
    · rw [Function.update_of_ne heq]
      simp [heq]
  have hkeep : ∀ fd, fd ≠ ss.tcpSock → p.IsConnection fd → IsConnection
      ⟨p.server.clearWhenSessionEnd id ss.tcpSock, p.opened, p.lingering.erase id⟩ fd := by
    refine fun fd hne hfd => ⟨hfd.nonneg, hfd.udp, hfd.listen, hfd.opened.imp_right fun h => ?_⟩
    refine h.mono fun id' hid' ss' hss' hsock => ?_
    have hne' : id' ≠ id := by
      rintro rfl
      obtain rfl := Option.some.inj (hss.symm.trans hss')
      exact hne hsock.symm
    exact ⟨Finset.mem_erase.2 ⟨hne', hid'⟩, ss', (hentry id' ss').2 ⟨hne', hss'⟩, rfl⟩
  refine ⟨hp.nonneg, hp.udp, hp.listen, ?_, hp.nodup.sublist hsub, ?_, ?_, ?_⟩
  · intro fd hfd
    refine hkeep fd ?_ (hp.clients fd (hsub.subset hfd))
    rintro rfl
    exact hgone hfd
  · intro id' ss' hss'
    obtain ⟨hne, hold⟩ := (hentry id' ss').1 hss'
    obtain ⟨hconnection, hiff⟩ := hp.entry id' ss' hold
    refine ⟨hkeep _ (fun heq => hne (hp.distinct id' ss' id ss hold hss heq)) hconnection, ?_⟩
    rw [hiff, Finset.mem_erase, and_iff_right hne]
  · intro id₁ ss₁ id₂ ss₂ h₁ h₂ heq
    exact hp.distinct id₁ ss₁ id₂ ss₂ ((hentry id₁ ss₁).1 h₁).2 ((hentry id₂ ss₂).1 h₂).2 heq
  · intro id' hid'
    obtain ⟨hne, hmem⟩ := Finset.mem_erase.1 hid'
    obtain ⟨ss', hss', hclose⟩ := hp.lingering id' hmem
    exact ⟨ss', (hentry id' ss').2 ⟨hne, hss'⟩, hclose⟩

/-- All lingering sessions are in the table. -/
theorem Owns.filter (hp : p.Owns) :
    Owns ⟨p.server, p.opened, p.lingering.filter fun id => (p.server.ssMap id).isSome⟩ := by
  rw [Finset.filter_eq_self.2]
  · exact hp
  · intro id hid
    obtain ⟨ss, hss, -⟩ := hp.lingering id hid
    exact Option.isSome_of_eq_some hss

/-- A thread of a session takes a step. -/
theorem Owns.session (hp : p.Owns) {id : UInt32} {b : SessionAct}
    (hrunning : ∀ ss, p.server.ssMap id = some ss → ss.session.runPc.isDone = false)
    (hclears : ∀ ss, p.server.ssMap id = some ss → ss.session.Clears b → id ∈ p.lingering)
    (h : p.server.sessionStep o id b = some (sm, es)) :
    Owns ⟨sm, p.opened, p.lingering.filter fun id => (sm.ssMap id).isSome⟩ := by
  obtain ⟨ss, hss, h⟩ := Option.bind_eq_some_iff.1 h
  obtain ⟨⟨s', ses⟩, hstep, h⟩ := Option.map_eq_some_iff.1 h
  have hdone := ServerSession.step_isDone_iff hstep (hrunning ss hss)
  split_ifs at h with hd <;> cases h
  · have hleft : (p.lingering.filter fun id' =>
        ((p.server.clearWhenSessionEnd id ss.tcpSock).ssMap id').isSome) =
          p.lingering.erase id := by
      ext id'
      rw [Finset.mem_filter, Finset.mem_erase, and_comm]
      refine and_congr_left fun hid' => ?_
      obtain ⟨ss', hss', -⟩ := hp.lingering id' hid'
      show (Function.update p.server.ssMap id none id').isSome ↔ _
      by_cases heq : id' = id
      · simp [heq]
      · simp [heq, hss']
    rw [hleft]
    exact hp.clear hss (hclears ss hss (hdone.1 hd))
  · refine Owns.filter
      (p := ⟨p.server.setEntry id (some { ss with session := s' }), p.opened, p.lingering⟩) ?_
    refine hp.table id p.server.fdsetLock p.server.readFlags (fun id' ss' hss' => ?_)
      fun id' hid' => ?_
    · left
      obtain ⟨rfl, rfl⟩ | ⟨-, hold⟩ := ServerMaster.setEntry_ssMap_eq_some.1 hss'
      · exact ⟨ss, hss, rfl⟩
      · exact ⟨ss', hold, rfl⟩
    · obtain ⟨ss', hss', hclose⟩ := hp.lingering id' hid'
      by_cases heq : id' = id
      · subst heq
        obtain rfl := Option.some.inj (hss.symm.trans hss')
        exact ⟨_, Function.update_self .., ServerSession.step_isClose hstep hclose (hd ∘ hdone.2)⟩
      · exact ⟨ss', (ServerMaster.setEntry_ssMap_of_ne heq).trans hss', hclose⟩

/-- A session closes its descriptor. -/
theorem Owns.close (hp : p.Owns) {id : UInt32} {ss : SessionEntry}
    (hss : p.server.ssMap id = some ss) (hclose : ss.session.runPc.isClose = true) :
    Owns { p with
      opened := p.opened.erase ss.tcpSock
      lingering := insert id p.lingering } := by
  obtain ⟨⟨-, hudp, hlisten, -⟩, -⟩ := hp.entry id ss hss
  have hkeep : ∀ fd, p.IsConnection fd → IsConnection { p with
      opened := p.opened.erase ss.tcpSock
      lingering := insert id p.lingering } fd := by
    refine fun fd hfd => ⟨hfd.nonneg, hfd.udp, hfd.listen, ?_⟩
    by_cases heq : fd = ss.tcpSock
    · exact .inr ⟨id, Finset.mem_insert_self .., ss, hss, heq.symm⟩
    · refine hfd.opened.imp (fun hmem => Finset.mem_erase.2 ⟨heq, hmem⟩) fun h => ?_
      exact h.mono fun id' hid' ss' hss' _ => ⟨Finset.mem_insert_of_mem hid', ss', hss', rfl⟩
  refine ⟨fun fd hfd => hp.nonneg fd (Finset.mem_of_mem_erase hfd),
    Finset.mem_erase.2 ⟨hudp.symm, hp.udp⟩,
    hp.listen.imp_right fun h => ⟨Finset.mem_erase.2 ⟨hlisten.symm, h.1⟩, h.2⟩,
    fun fd hfd => hkeep fd (hp.clients fd hfd), hp.nodup, ?_, hp.distinct, ?_⟩
  · intro id' ss' hss'
    obtain ⟨hconnection, hiff⟩ := hp.entry id' ss' hss'
    refine ⟨hkeep _ hconnection, ?_⟩
    by_cases heq : id' = id
    · subst heq
      obtain rfl := Option.some.inj (hss.symm.trans hss')
      simp
    · have hsock : ss'.tcpSock ≠ ss.tcpSock := fun hsock =>
        heq (hp.distinct id' ss' id ss hss' hss hsock)
      rw [Finset.mem_erase, and_iff_right hsock, Finset.mem_insert, or_iff_right heq]
      exact hiff
  · intro id' hid'
    obtain rfl | hid' := Finset.mem_insert.1 hid'
    · exact ⟨ss, hss, hclose⟩
    · exact hp.lingering id' hid'

end Descriptors

theorem ServerMaster.sessionStep_listenSock {o : ByteOrder} {sm sm' : ServerMaster} {id : UInt32}
    {b : SessionAct} {es : List MasterEvent} (h : sm.sessionStep o id b = some (sm', es)) :
    sm'.listenSock = sm.listenSock ∧ ∀ e ∈ es, (ThreadsEvent.master e).ofLoop = false := by
  obtain ⟨ss, -, h⟩ := Option.bind_eq_some_iff.1 h
  obtain ⟨r, -, h⟩ := Option.map_eq_some_iff.1 h
  split_ifs at h <;> cases h
  · refine ⟨rfl, fun e he => ?_⟩
    rw [List.mem_singleton.1 he]
    rfl
  · refine ⟨rfl, fun e he => ?_⟩
    obtain ⟨e', -, rfl⟩ := List.mem_map.1 he
    rfl

/-- The other threads, and the start of a thread, leave the listening socket alone. -/
theorem ServerThreads.step_ofLoop {o : ByteOrder} {s s' : ServerThreads} {a : ThreadsAct}
    {es : List ThreadsEvent} (h : s.step o a = some (s', es))
    (hiterate : ∀ env parm, a ≠ .iterate env parm) (hlisten : ∀ sock, a ≠ .listen sock) :
    s'.server.listenSock = s.server.listenSock ∧ ∀ e ∈ es, e.ofLoop = false := by
  have hsession : ∀ {id b sm mes}, s.server.step o (.session id b) = some (sm, mes) →
      sm.listenSock = s.server.listenSock ∧
        ∀ e ∈ mes.map ThreadsEvent.master, e.ofLoop = false := by
    intro id b sm mes hstep
    obtain ⟨hsock, hes⟩ := ServerMaster.sessionStep_listenSock (ServerMaster.step_session hstep)
    exact ⟨hsock, List.forall_mem_map.2 hes⟩
  cases a with
  | iterate env parm => exact absurd rfl (hiterate env parm)
  | listen sock => exact absurd rfl (hlisten sock)
  | start b =>
    obtain ⟨t, es', -, rfl, rfl, hserver, -⟩ := step_start h
    exact ⟨congrArg ServerMaster.listenSock hserver, List.forall_mem_map.2 fun _ _ => rfl⟩
  | run k env next =>
    obtain ⟨q, -, h⟩ := Option.bind_eq_some_iff.1 h
    obtain ⟨⟨sm, mes⟩, hstep, h⟩ := Option.map_eq_some_iff.1 h
    cases h
    obtain ⟨hsock, hes⟩ := ServerMaster.sessionStep_listenSock hstep
    exact ⟨hsock, List.forall_mem_map.2 hes⟩
  | wait id k env =>
    obtain ⟨⟨sm, mes⟩, hstep, h⟩ := Option.map_eq_some_iff.1 h
    cases h
    exact hsession hstep
  | ends id k =>
    obtain ⟨⟨sm, mes⟩, hstep, h⟩ := Option.map_eq_some_iff.1 h
    cases h
    exact hsession hstep

namespace ServerProcess

variable {o : ByteOrder} {p p' : ServerProcess} {a : ProcessAct} {es : List ThreadsEvent}

/-- Each session has its thread and its descriptor. -/
structure Keeps (p : ServerProcess) : Prop where
  inv : p.toServerThreads.Inv
  owns : p.descriptors.Owns

theorem keeps_start (udpSock : ℕ) (localInterfaces : List CString) (fds : ℕ → ℤ)
    (stack : ℕ → SessionRunParms) : (start udpSock localInterfaces fds stack).Keeps where
  inv := ServerThreads.inv_start _ stack fun _ => rfl
  owns := Descriptors.owns_start udpSock localInterfaces fds

/-! ### The steps -/

theorem step_select (h : p.step o .select = some (p', es)) :
    p.loop = .head ∧ es = [] ∧ p' = { p with
      server := { p.server with fdsetLock := true, readFlags := p.server.watched }
      loop := .waiting (decide (∃ fd ∈ p.server.watched, fd ∉ p.opened)) } := by
  simp only [step] at h
  split_ifs at h with hif
  obtain ⟨sm, hselect, h⟩ := Option.map_eq_some_iff.1 h
  cases h
  obtain rfl := ServerMaster.select_eq hselect
  exact ⟨hif.1, rfl, rfl⟩

theorem step_selected {ready : Option (List ℕ)}
    (h : p.step o (.selected ready) = some (p', es)) :
    p.Possible (.selected ready) ∧ p.loop.isWaiting = true ∧ es = [] ∧ p' = { p with
      server := p.server.selected ready
      loop := if ready.isSome ∧ (p.server.selected ready).readFlags ≠ [] then .found
        else .head } := by
  simp only [step] at h
  split_ifs at h with hif <;> cases h
  · rename_i hfound
    exact ⟨hif.1, hif.2, rfl, by rw [if_pos hfound]⟩
  · rename_i hfound
    exact ⟨hif.1, hif.2, rfl, by rw [if_neg hfound]⟩

theorem step_handle {env : LoopEnv} {parm : ℕ}
    (h : p.step o (.handle env parm) = some (p', es)) :
    p.Possible (.handle env parm) ∧ p.loop = .found ∧ p.call = none ∧
      ∃ r, p.server.handle o env = some r ∧ es = r.2.map .master ∧
        p' = { p with
          toServerThreads := p.launched r env.last parm
          opened := p.openedByHandle env
          loop := .head } := by
  simp only [step] at h
  split_ifs at h with hif
  obtain ⟨r, hr, h⟩ := Option.map_eq_some_iff.1 h
  cases h
  exact ⟨hif.1, hif.2.1, hif.2.2, r, hr, rfl, rfl⟩

theorem step_threads {a : ThreadsAct} (h : p.step o (.threads a) = some (p', es)) :
    (∀ env parm, a ≠ .iterate env parm) ∧ (∀ sock, a ≠ .listen sock) ∧ p.Possible (.threads a) ∧
      ∃ s, p.toServerThreads.step o a = some (s, es) ∧
        p' = { p with toServerThreads := s, lingering := p.lingeringIn s.server } := by
  have hstep : (if p.Possible (.threads a) then (p.toServerThreads.step o a).map fun r =>
      (({ p with toServerThreads := r.1, lingering := p.lingeringIn r.1.server } : ServerProcess),
        r.2) else none) = some (p', es) ∧
      (∀ env parm, a ≠ .iterate env parm) ∧ ∀ sock, a ≠ .listen sock := by
    cases a with
    | iterate env parm => cases h
    | listen sock => cases h
    | _ => exact ⟨h, by simp, by simp⟩
  obtain ⟨h, hiterate, hlisten⟩ := hstep
  split_ifs at h with hpossible
  obtain ⟨r, hr, h⟩ := Option.map_eq_some_iff.1 h
  cases h
  exact ⟨hiterate, hlisten, hpossible, r.1, hr, rfl⟩

theorem step_listen {sock : ℤ} (h : p.step o (.listen sock) = some (p', es)) :
    p.Possible (.listen sock) ∧ ∃ listening, p' = { p with
      server := { p.server with listenSock := sock }
      opened := if 0 ≤ sock then insert sock p.opened else p.opened
      listening := listening } := by
  rw [step, Option.ite_none_right_eq_some] at h
  obtain ⟨hif, h⟩ := h
  cases h
  exact ⟨hif.1, _, rfl⟩

theorem step_init (h : p.step o .init = some (p', es)) :
    es = [] ∧ p' = { p with listening := .flagging } := by
  simp only [step] at h
  split_ifs at h
  cases h
  exact ⟨rfl, rfl⟩

theorem step_flag (h : p.step o .flag = some (p', es)) :
    es = [] ∧ ∃ readFlags, p' = { p with
      server := { p.server with readFlags := readFlags }
      listening := .idle } := by
  rw [step, Option.ite_none_right_eq_some] at h
  obtain ⟨-, h⟩ := h
  cases h
  exact ⟨rfl, _, rfl⟩

theorem step_close {k : ℕ} (h : p.step o (.close k) = some (p', es)) :
    es = [] ∧ ∃ q, p.runs? k = some q ∧ q.2.session.runPc.isClose = true ∧
      p' = { p with
        opened := p.opened.erase q.2.tcpSock
        lingering := insert q.1 p.lingering } := by
  obtain ⟨q, hq, h⟩ := Option.bind_eq_some_iff.1 h
  split_ifs at h with hclose
  cases h
  exact ⟨rfl, q, hq, hclose.1, rfl⟩

/-- A step that changes the lock and the flags. -/
theorem Keeps.idle (hp : p.Keeps) (fdsetLock : Bool) (readFlags : List ℤ) (loop : LoopPhase)
    (listening : ListenPhase) : Keeps { p with
      server := { p.server with fdsetLock := fdsetLock, readFlags := readFlags }
      loop := loop
      listening := listening } where
  inv := hp.inv.of_server rfl
  owns := hp.owns.idle fdsetLock readFlags

theorem Keeps.mem_keys (hp : p.Keeps) {id : UInt32} {ss : SessionEntry}
    (hss : p.server.ssMap id = some ss) : id ∈ p.keys := by
  obtain ⟨fr, hmem, hid, -⟩ := hp.inv.driven id (by simp [ServerMaster.frameOf, hss])
  rw [ServerThreads.keys, List.mem_filter, List.mem_dedup]
  exact ⟨List.mem_map.2 ⟨fr, hmem, hid⟩, by rw [hss]; rfl⟩

theorem Keeps.handle (hp : p.Keeps) {env : LoopEnv} {parm : ℕ} (hserves : p.Serves env)
    (horderly : p.Orderly (.handle env parm)) (h : p.step o (.handle env parm) = some (p', es)) :
    p'.Keeps := by
  obtain ⟨⟨haccept, hpdu⟩, -, hcall, r, hr, -, rfl⟩ := step_handle h
  refine ⟨hp.inv.launched hcall (ServerMaster.handle_creates hr) parm, ?_⟩
  have hdispatch := (ServerMaster.dispatch_cases (ServerMaster.handle_eq hr)).1
  have hlocked : Descriptors.Owns ⟨{ p.server with fdsetLock := true }, p.opened, p.lingering⟩ :=
    hp.owns.idle true p.server.readFlags
  have howns := hlocked.handle hdispatch (fun ha => ?_)
    fun hread d hd => ⟨?_, fun htype hnone => ?_⟩
  · rw [descriptors, ServerThreads.launched_server]
    exact howns
  · have hpos := hserves.1 ha
    obtain hfails | ⟨-, hfresh, -⟩ := haccept
    · omega
    · exact ⟨hpos, hfresh, horderly.2 ha⟩
  · by_contra hclosed
    have hnone := hpdu hclosed
    rw [hnone, recvPdu] at hd
    split_ifs at hd
  · intro id ss hss
    have hmem : d ∈ (recvPdu p.server.tcpSock env.pdu).toOption := by
      rw [show recvPdu p.server.tcpSock env.pdu = .ok d from hd]
      rfl
    exact fun hsock => horderly.1 hread d hmem htype hnone ⟨id, hp.mem_keys hss, ss, hss, hsock⟩

/-- A thread of a session takes a step. -/
theorem Keeps.session (hp : p.Keeps) {id : UInt32} {b : SessionAct} {sm : ServerMaster}
    {mes : List MasterEvent} (hclears : ∀ ss, p.server.ssMap id = some ss →
      ss.session.Clears b → id ∈ p.lingering)
    (h : p.server.sessionStep o id b = some (sm, mes)) :
    Descriptors.Owns ⟨sm, p.opened, p.lingeringIn sm⟩ := by
  refine hp.owns.session (fun ss hss => ?_) hclears h
  have hframe : p.server.frameOf id = some (ss.session.runPc, ss.session.lastContent) :=
    ServerMaster.frameOf_eq_some_iff.2 ⟨ss, hss, rfl, rfl⟩
  exact hp.inv.running hframe

theorem Keeps.threads (hp : p.Keeps) {a : ThreadsAct} (ha : p.toServerThreads.Sound o a)
    (h : p.step o (.threads a) = some (p', es)) : p'.Keeps := by
  obtain ⟨hiterate, hlisten, hpossible, s, hs, rfl⟩ := step_threads h
  refine ⟨(hp.inv.step ha hs).1, ?_⟩
  cases a with
  | iterate env parm => exact absurd rfl (hiterate env parm)
  | listen sock => exact absurd rfl (hlisten sock)
  | start b =>
    obtain ⟨-, hserver, -⟩ := hp.inv.startStep ha hs
    show Descriptors.Owns ⟨s.server, p.opened, p.lingeringIn s.server⟩
    rw [hserver]
    exact hp.owns.filter
  | run k env next =>
    obtain ⟨q, hq, -⟩ := Option.bind_eq_some_iff.1 hs
    obtain ⟨-, fr', -, hk', -, -, -, hid, hentry⟩ := hp.inv.runs?_eq_some_iff.1 hq
    obtain ⟨fr, sm, mes, hk, -, hstep, rfl, -⟩ := hp.inv.runStep hs
    cases hk.symm.trans hk'
    refine hp.session (fun ss hss hclears => ?_) hstep
    cases hss.symm.trans hentry
    rw [← hid]
    exact (hpossible q hq).2 hclears
  | wait id k env =>
    obtain ⟨⟨sm, mes⟩, hstep, heq⟩ := Option.map_eq_some_iff.1 hs
    cases heq
    exact hp.session (fun _ _ => False.elim) (ServerMaster.step_session hstep)
  | ends id k =>
    obtain ⟨⟨sm, mes⟩, hstep, heq⟩ := Option.map_eq_some_iff.1 hs
    cases heq
    exact hp.session (fun _ _ => False.elim) (ServerMaster.step_session hstep)

theorem Keeps.listen (hp : p.Keeps) {sock : ℤ} (horderly : ¬ p.descriptors.Lingers sock)
    (h : p.step o (.listen sock) = some (p', es)) : p'.Keeps := by
  obtain ⟨hpossible, listening, rfl⟩ := step_listen h
  exact ⟨hp.inv.of_server rfl, hp.owns.listen_sock hpossible horderly⟩

theorem Keeps.close (hp : p.Keeps) {k : ℕ} (h : p.step o (.close k) = some (p', es)) :
    p'.Keeps := by
  obtain ⟨-, q, hq, hclose, rfl⟩ := step_close h
  obtain ⟨-, fr, -, -, -, -, -, hid, hentry⟩ := hp.inv.runs?_eq_some_iff.1 hq
  rw [← hid] at hentry
  exact ⟨hp.inv, hp.owns.close hentry hclose⟩

theorem Keeps.step (hp : p.Keeps) (ha : p.Sound o a) (horderly : p.Orderly a)
    (h : p.step o a = some (p', es)) : p'.Keeps := by
  cases a with
  | select =>
    obtain ⟨-, -, rfl⟩ := step_select h
    exact hp.idle ..
  | selected ready =>
    obtain ⟨-, -, -, rfl⟩ := step_selected h
    exact hp.idle ..
  | handle env parm => exact hp.handle ha horderly h
  | threads a => exact hp.threads ha h
  | listen sock => exact hp.listen horderly h
  | init =>
    obtain ⟨-, rfl⟩ := step_init h
    exact hp.idle ..
  | flag =>
    obtain ⟨-, readFlags, rfl⟩ := step_flag h
    exact hp.idle ..
  | close k => exact hp.close h
  | stop => exact horderly.elim

theorem Keeps.defined (hp : p.Keeps) (ha : p.Sound o a) : p.Defined o a := by
  cases a with
  | handle env parm => exact ha
  | threads a => exact hp.inv.defined ha
  | close k => exact hp.inv.hasSession (P := fun _ => True) fun _ _ => trivial
  | _ => trivial

section Runs

variable {udpSock : ℕ} {localInterfaces : List CString} {fds : ℕ → ℤ}
  {stack : ℕ → SessionRunParms} {as : List (ProcessAct × List ThreadsEvent)}
  {t : Option ServerProcess}

/-- In an orderly run in which each session has its thread, the closed descriptors that `select`
watches are those of sessions between `close_tcp` and `clear_when_session_end`, and all other
sessions have an open one, no two the same. -/
theorem descriptors_safe
    (hok : (machine o).Guarded (fun p a => p.Sound o a ∧ p.Orderly a)
      (start udpSock localInterfaces fds stack) (as.map Prod.fst))
    (hrun : (process o).run (some (start udpSock localInterfaces fds stack)) as = some (t, es)) :
    ∃ p, t = some p ∧
      (∀ fd ∈ p.server.watched, fd ∈ p.opened ∨ p.descriptors.Lingers fd) ∧
      (∀ id ss, p.server.ssMap id = some ss → (ss.tcpSock ∈ p.opened ↔ id ∉ p.lingering)) ∧
      (∀ id ss id' ss', p.server.ssMap id = some ss → p.server.ssMap id' = some ss' →
        ss.tcpSock = ss'.tcpSock → id = id') := by
  obtain ⟨p, rfl, hp, -⟩ := EventMachine.run_orUndefined_of_inv (I := Keeps)
    (fun _ _ _ _ hp ha h => hp.step ha.1 ha.2 h) (fun _ _ hp ha => hp.defined ha.1)
    (keeps_start udpSock localInterfaces fds stack) hok hrun
  exact ⟨p, rfl, fun fd hfd => hp.owns.watched hfd, fun id ss hss => (hp.owns.entry id ss hss).2,
    hp.owns.distinct⟩

/-- Without anything in between, an iteration is a `select` and what follows when it has found
something. -/
def apart : ThreadsAct → List ProcessAct
  | .iterate env parm => [.select, .selected env.ready, .handle env parm]
  | a => [.threads a]

def sample : ServerProcess := start 3 [] (fun _ => 0) fun _ => .own 0

/-- The first of two sessions closes its descriptor, `select` fails until it is cleared, and then
the descriptor is that of the next client; at the end the second one closes its descriptor. -/
def reopened : List ProcessAct :=
  [.listen 4, .init, .flag] ++
    (ServerThreads.connects 0 5 7 ++ ServerThreads.connects 1 6 8 ++
      ServerThreads.stepsOf 0 16 true ++ [ThreadsAct.wait 7 0 ⟨.success, 0⟩]).flatMap apart ++
    [.close 0, .select, .selected none,
      .threads (.run 0 { ServerSession.answerEnv true with write := ⟨.sendErr, 0⟩ } (some 0))] ++
    (ServerThreads.connects 2 5 7 ++ ServerThreads.stepsOf 1 16 true).flatMap apart ++ [.close 1]

theorem descriptors_safe_reopened :
    ∃ p es, (process .little).run (some sample) (reopened.map (·, [])) = some (some p, es) ∧
      p.opened = {3, 4, 5} ∧ p.lingering = {8} ∧ p.server.watched = [3, 4, 6, 5] ∧
      ∀ fd ∈ p.server.watched, fd ∈ p.opened ∨ p.descriptors.Lingers fd := by
  have hok : (machine .little).Guarded (fun p a => p.Sound .little a ∧ p.Orderly a) sample
      ((reopened.map (·, ([] : List ThreadsEvent))).map Prod.fst) := by decide +kernel
  have hsample : ((process .little).run (some sample) (reopened.map (·, []))).bind (fun r =>
      r.1.map fun p => (p.opened, p.lingering, p.server.watched)) =
        some ({3, 4, 5}, {8}, [3, 4, 6, 5]) := by decide +kernel
  obtain ⟨⟨t, es⟩, hrun, hend⟩ := Option.bind_eq_some_iff.1 hsample
  obtain ⟨p, rfl, hwatched, -, -⟩ := descriptors_safe hok hrun
  simp only [Option.map_some, Option.some.injEq, Prod.mk.injEq] at hend
  exact ⟨p, es, hrun, hend.1, hend.2.1, hend.2.2, hwatched⟩

end Runs

/-! ### After `stop_negotiate` -/

/-- The listening socket is closed, but still watched. -/
def Stopped (p : ServerProcess) : Prop :=
  p.server.listenSock ≠ -1 ∧ p.server.listenSock ∉ p.opened

/-- `listen_negotiate` is not called. -/
def NoListen : ProcessAct → Prop
  | .listen _ => False
  | _ => True

theorem Stopped.watched (hp : p.Stopped) : ∃ fd ∈ p.server.watched, fd ∉ p.opened := by
  refine ⟨p.server.listenSock, ?_, hp.2⟩
  simp [ServerMaster.watched, hp.1]

theorem stopped_step (hp : p.server.listenSock ≠ -1) (h : p.step o .stop = some (p', es)) :
    p'.Stopped ∧ p'.loop = p.loop ∧ es = [] := by
  cases h
  exact ⟨⟨hp, Finset.notMem_erase _ _⟩, rfl, rfl⟩

/-- What a step does after `stop_negotiate`: a `select` that returns with input was called before,
and what is handled was found before. -/
structure Silent (p p' : ServerProcess) (a : ProcessAct) (es : List ThreadsEvent) : Prop where
  stopped : p'.Stopped
  finds : a.isFound.toNat + p'.loop.finds ≤ p.loop.finds
  handles : a.isHandle.toNat + p'.loop.handles ≤ p.loop.handles
  silent : a.isHandle = false → ∀ e ∈ es, e.ofLoop = false

/-- A step that the loop does not notice. -/
theorem Silent.of_loop (hp' : p'.Stopped) (hloop : p'.loop = p.loop) (hfound : a.isFound = false)
    (hhandle : a.isHandle = false) (hes : ∀ e ∈ es, e.ofLoop = false) : Silent p p' a es := by
  refine ⟨hp', ?_, ?_, fun _ => hes⟩
  · rw [hfound, hloop]
    exact (Nat.zero_add _).le
  · rw [hhandle, hloop]
    exact (Nat.zero_add _).le

theorem Stopped.selected (hp : p.Stopped) {ready : Option (List ℕ)}
    (h : p.step o (.selected ready) = some (p', es)) : Silent p p' (.selected ready) es := by
  obtain ⟨hpossible, hwaiting, rfl, rfl⟩ := step_selected h
  cases hloop : p.loop with
  | head | found =>
    rw [hloop] at hwaiting
    cases hwaiting
  | waiting closed =>
    cases closed with
    | true =>
      obtain rfl := hpossible hloop
      exact ⟨hp, Nat.zero_le _, Nat.zero_le _, by simp⟩
    | false =>
      refine ⟨hp, ?_, ?_, by simp⟩
      · rw [hloop]
        cases ready <;> simp [ProcessAct.isFound, LoopPhase.finds]
        split_ifs <;> simp
      · rw [hloop]
        split_ifs <;> simp [ProcessAct.isHandle, LoopPhase.handles]

theorem Stopped.threads (hp : p.Stopped) {a : ThreadsAct}
    (h : p.step o (.threads a) = some (p', es)) : Silent p p' (.threads a) es := by
  obtain ⟨hiterate, hlisten, -, s, hs, rfl⟩ := step_threads h
  obtain ⟨hsock, hes⟩ := ServerThreads.step_ofLoop hs hiterate hlisten
  refine .of_loop ?_ rfl rfl rfl hes
  show s.server.listenSock ≠ -1 ∧ s.server.listenSock ∉ p.opened
  rw [hsock]
  exact hp

theorem Stopped.handle (hp : p.Stopped) {env : LoopEnv} {parm : ℕ}
    (h : p.step o (.handle env parm) = some (p', es)) : Silent p p' (.handle env parm) es := by
  obtain ⟨⟨haccept, -⟩, hloop, -, r, hr, -, rfl⟩ := step_handle h
  refine ⟨?_, Nat.zero_le _, by rw [hloop]; exact le_rfl, fun h => by cases h⟩
  have hlisten : r.1.listenSock = p.server.listenSock := by
    have hdispatch := (ServerMaster.dispatch_cases (ServerMaster.handle_eq hr)).1
    generalize r.1 = sm at hdispatch
    cases hdispatch <;> rfl
  have hopened : p.openedByHandle env = p.opened := by
    rw [openedByHandle, if_neg]
    rintro ⟨-, hpos⟩
    obtain hfails | ⟨-, -, hmem⟩ := haccept
    · omega
    · exact hp.2 hmem
  show (p.launched r env.last parm).server.listenSock ≠ -1 ∧
    (p.launched r env.last parm).server.listenSock ∉ p.openedByHandle env
  rw [ServerThreads.launched_server, hlisten, hopened]
  exact hp

theorem Stopped.step (hp : p.Stopped) (ha : NoListen a) (h : p.step o a = some (p', es)) :
    Silent p p' a es := by
  cases a with
  | select =>
    obtain ⟨-, rfl, rfl⟩ := step_select h
    have hclosed : decide (∃ fd ∈ p.server.watched, fd ∉ p.opened) = true :=
      decide_eq_true hp.watched
    rw [hclosed]
    exact ⟨hp, Nat.zero_le _, Nat.zero_le _, by simp⟩
  | selected ready => exact hp.selected h
  | handle env parm => exact hp.handle h
  | threads a => exact hp.threads h
  | listen sock => exact ha.elim
  | init =>
    obtain ⟨rfl, rfl⟩ := step_init h
    exact .of_loop hp rfl rfl rfl (by simp)
  | flag =>
    obtain ⟨rfl, readFlags, rfl⟩ := step_flag h
    exact .of_loop hp rfl rfl rfl (by simp)
  | close k =>
    obtain ⟨rfl, q, -, -, rfl⟩ := step_close h
    exact .of_loop ⟨hp.1, fun hmem => hp.2 (Finset.mem_of_mem_erase hmem)⟩ rfl rfl rfl (by simp)
  | stop =>
    obtain ⟨hp', hloop, rfl⟩ := stopped_step hp.1 h
    exact .of_loop hp' hloop rfl rfl (by simp)

theorem countP_cons_toNat (P : ProcessAct → Bool) (a : ProcessAct) (as : List ProcessAct) :
    (a :: as).countP P = (P a).toNat + as.countP P := by
  rw [List.countP_cons, Nat.add_comm]
  cases P a <;> rfl

theorem Stopped.run {as : List ProcessAct} (hp : p.Stopped) (has : ∀ a ∈ as, NoListen a)
    (hrun : (machine o).run p as = some (p', es)) :
    as.countP ProcessAct.isFound ≤ p.loop.finds ∧
      as.countP ProcessAct.isHandle ≤ p.loop.handles ∧
      (p.loop.handles = 0 → ∀ e ∈ es, e.ofLoop = false) := by
  induction as generalizing p es with
  | nil =>
    obtain ⟨-, rfl⟩ := EventMachine.run_nil_iff.1 hrun
    simp
  | cons a as ih =>
    obtain ⟨p₁, es₁, es₂, h₁, h₂, rfl⟩ := EventMachine.run_cons_iff.1 hrun
    obtain ⟨hp₁, hfinds, hhandles, hsilent⟩ := hp.step (has a List.mem_cons_self) h₁
    obtain ⟨hfinds', hhandles', hsilent'⟩ :=
      ih hp₁ (fun b hb => has b (List.mem_cons_of_mem a hb)) h₂
    rw [countP_cons_toNat, countP_cons_toNat]
    refine ⟨by omega, by omega, fun hnone => ?_⟩
    rw [hnone, Nat.le_zero, Nat.add_eq_zero_iff, Bool.toNat_eq_zero] at hhandles
    exact List.forall_mem_append.2 ⟨hsilent hhandles.1, hsilent' hhandles.2⟩

/-- After `stop_negotiate`, until `listen_negotiate` is called and as long as the process stays
defined, every `select` fails but the one in which `run` waits already, and `run` goes on to the
descriptors at most once, after that one or the one that has returned before; otherwise no
connection is accepted any more, no message is read or given to a session, and no discovery message
is answered. -/
theorem stop_silences {as : List (ProcessAct × List ThreadsEvent)}
    (hlisten : p.server.listenSock ≠ -1) (has : ∀ a ∈ as.map Prod.fst, NoListen a)
    (hrun : (process o).run (some p) ((.stop, []) :: as) = some (some p', es)) :
    (as.map Prod.fst).countP ProcessAct.isFound ≤ p.loop.finds ∧
      (as.map Prod.fst).countP ProcessAct.isHandle ≤ p.loop.handles ∧
      (p.loop.handles = 0 → ∀ e ∈ es, e.ofLoop = false) := by
  obtain ⟨p₁, es₁, es₂, h₁, h₂, rfl⟩ :=
    EventMachine.run_cons_iff.1 (EventMachine.run_of_orUndefined hrun)
  obtain ⟨hp, hloop, rfl⟩ := stopped_step (o := o) hlisten h₁
  rw [← hloop]
  exact hp.run has h₂

/-- The `select` in progress finds a discovery message, which is still answered; the next one
fails. -/
def answeredLate : List ProcessAct :=
  [.selected (some [3]),
    .handle (datagramEnv (writePdu [] .discoveryMsg 7 ⟨.success, 0⟩).2) 0, .select, .selected none]

theorem stop_silences_late :
    ∃ p p' es es', (process .little).run
        (some (start 3 [valueA, valueB] (fun _ => 0) fun _ => .own 0))
        [(.listen 4, []), (.select, [])] = some (some p, es) ∧
      (process .little).run (some p) ((.stop, []) :: answeredLate.map (·, [])) =
        some (some p', es') ∧
      es'.countP ThreadsEvent.ofLoop = 2 ∧
      ((answeredLate.map (·, ([] : List ThreadsEvent))).map Prod.fst).countP
        ProcessAct.isFound ≤ 1 := by
  have hsample : ((process .little).run
      (some (start 3 [valueA, valueB] (fun _ => 0) fun _ => .own 0))
      [(.listen 4, []), (.select, [])]).bind (fun r => r.1.bind fun p =>
        ((process .little).run (some p) ((.stop, []) :: answeredLate.map (·, []))).bind fun r' =>
          r'.1.map fun _ => (p.server.listenSock, p.loop, r'.2.countP ThreadsEvent.ofLoop)) =
        some (4, .waiting false, 2) := by
    decide +kernel
  simp only [Option.bind_eq_some_iff, Option.map_eq_some_iff, Prod.exists, Prod.mk.injEq] at hsample
  obtain ⟨_, es, hrun, p, rfl, _, es', hrun', p', rfl, heq⟩ := hsample
  obtain ⟨hlisten, hloop, hevents⟩ := heq
  obtain ⟨hfinds, -, -⟩ := stop_silences (by omega) (by simp [answeredLate, NoListen]) hrun'
  rw [hloop] at hfinds
  exact ⟨p, p', es, es', hrun, hrun', hevents, hfinds⟩

end ServerProcess

end Gdnp
