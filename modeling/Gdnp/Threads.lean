import Gdnp.Bounds
import Gdnp.DiscoveryAnswer
import Gdnp.Iteration
import Gdnp.Lifetime
import Gdnp.ThreadStart
import Gdnp.WatchList

/-!
# The threads of the server

The process of a server has the loop thread, the application's thread, which calls
`listen_negotiate`, and for each session that was created a thread in `ServerSession::run`, with the
wait and end threads of this session.  A session thread runs what it reads from its parameters
(`ServerThreads.runs?`), and has `last_content` and its place in `run` in a frame of its own
(`RunFrame`).  At its end it clears the session, and goes on from where the increment of the erased
iterator leads.

An iteration of the loop, up to the return of `pthread_create`, is one step, and so is a call of
`clear_when_session_end`; between the steps the threads interleave as they like.  What the process
does once a step touches memory that is not its own is undefined (`ServerThreads.process`).
-/

open CMem

namespace Gdnp

/-- The id of the `k`-th session that was created, and what the `k`-th thread has on its stack. -/
structure RunFrame where
  sessionId : UInt32
  runPc : RunPc
  lastContent : Content

/-- The server with its threads. -/
structure ServerThreads extends ThreadStart where
  frames : List RunFrame

/-- `next` is where the increment of the iterator leads that `clear_when_session_end` has erased, if
to an iterator of the map. -/
inductive ThreadsAct where
  /-- The loop iterates, and a call of `distribute` has its parameters at the address `parm`. -/
  | iterate (env : LoopEnv) (parm : ℕ)
  | listen (sock : ℤ)
  /-- A step of the loop thread between two iterations, or of a thread in `run_help`. -/
  | start (a : StartAct)
  /-- A step of the `k`-th session thread. -/
  | run (k : ℕ) (env : RunEnv) (next : Option ℕ)
  /-- A step of a wait thread or an end thread of a session. -/
  | wait (sessionId : UInt32) (k : ℕ) (env : WriteEnv)
  | ends (sessionId : UInt32) (k : ℕ)

inductive ThreadsEvent where
  | master (e : MasterEvent)
  | start (e : StartEvent)

def MasterEvent.created? : MasterEvent → Option UInt32
  | created sessionId _ => some sessionId
  | _ => none

def ThreadsEvent.master? : ThreadsEvent → Option MasterEvent
  | master e => some e
  | start _ => none

/-- A session as the thread with the given frame runs it. -/
def SessionEntry.within (ss : SessionEntry) (fr : RunFrame) : SessionEntry :=
  { ss with session := { ss.session with runPc := fr.runPc, lastContent := fr.lastContent } }

/-- The frame of a thread after a step on a session, which is still in the table or not. -/
def RunFrame.after (fr : RunFrame) : Option SessionEntry → RunFrame
  | some ss => { fr with runPc := ss.session.runPc, lastContent := ss.session.lastContent }
  | none => { fr with runPc := .done }

namespace ServerThreads

/-- The server before its first session. -/
def start (server : ServerMaster) (stack : ℕ → SessionRunParms) : ServerThreads :=
  ⟨.start server stack, []⟩

/-- The `j`-th session that was created, if it has not been deleted. -/
def object? (s : ServerThreads) (j : ℕ) : Option (UInt32 × SessionEntry) :=
  (s.frames[j]?).bind fun fr =>
    if fr.sessionId ∈ (s.frames.drop (j + 1)).map (·.sessionId) then none
    else (s.server.ssMap fr.sessionId).map (fr.sessionId, ·)

/-- The session that the `k`-th thread runs, once it has read its parameters. -/
def runs? (s : ServerThreads) (k : ℕ) : Option (UInt32 × SessionEntry) :=
  (s.threads[k]?).bind fun t => (s.frames[k]?).bind fun fr =>
    match t.seen .ss, t.seen .sm with
    | some (.session j), some .server => (s.object? j).map fun p => (p.1, p.2.within fr)
    | _, _ => none

/-- The threads after an iteration with the given result. -/
def launched (s : ServerThreads) (r : ServerMaster × List MasterEvent) (last : Content)
    (parm : ℕ) : ServerThreads where
  toThreadStart := s.launch r parm
  frames := s.frames ++ (r.2.filterMap MasterEvent.created?).map (⟨·, .head, last⟩)

/-- The rest of the server takes a step. -/
def serverStep (o : ByteOrder) (s : ServerThreads) (a : MasterAct) :
    Option (ServerThreads × List ThreadsEvent) :=
  (s.server.step o a).map fun r => ({ s with server := r.1 }, r.2.map .master)

/-- The `k`-th thread takes a step of `run`. -/
def runStep (o : ByteOrder) (s : ServerThreads) (k : ℕ) (env : RunEnv) :
    Option (ServerThreads × List ThreadsEvent) :=
  (s.runs? k).bind fun p =>
    ((s.server.setEntry p.1 (some p.2)).sessionStep o p.1 (.run env)).map fun r =>
      ({ s with
        server := r.1
        frames := s.frames.modify k (·.after (r.1.ssMap p.1)) }, r.2.map .master)

def step (o : ByteOrder) (s : ServerThreads) : ThreadsAct →
    Option (ServerThreads × List ThreadsEvent)
  | .iterate env parm =>
    if s.call = none then
      (s.server.iterate o env).map fun r => (s.launched r env.last parm, r.2.map .master)
    else none
  | .listen sock => s.serverStep o (.listen sock)
  | .start (.distribute _ _ _ _ _ _) | .start (.clear _ _) => none
  | .start a => (s.toThreadStart.step a).map fun r =>
      ({ s with toThreadStart := r.1 }, r.2.map .start)
  | .run k env _ => s.runStep o k env
  | .wait sessionId k env => s.serverStep o (.session sessionId (.wait k env))
  | .ends sessionId k => s.serverStep o (.session sessionId (.ends k))

def machine (o : ByteOrder) : EventMachine ServerThreads ThreadsAct ThreadsEvent := ⟨step o⟩

/-! ### What a step may touch -/

/-- The keys of `ss_map`. -/
def keys (s : ServerThreads) : List UInt32 :=
  (s.frames.map (·.sessionId)).dedup.filter fun id => (s.server.ssMap id).isSome

/-- `accept` succeeds, and a discovery message finds the interface with which it is answered. -/
def Serves (s : ServerThreads) (env : LoopEnv) : Prop :=
  (s.server.Accepts env → 0 ≤ env.acceptSock) ∧
    ∀ i ∈ s.server.interfaceReads env, i < s.server.localInterfaces.length

/-- The step of a session thread stays inside its memory, and if it clears the session, no helper
thread of the session is left and the increment of the erased iterator gives one of the map. -/
def RunsOn (o : ByteOrder) (s : ServerThreads) (env : RunEnv) (next : Option ℕ)
    (session : ServerSession) : Prop :=
  session.InBounds o (.run env) ∧
    (session.runPc.isClose → session.HelpersDone ∧ ∃ i ∈ next, i < s.keys.length)

/-- If the `k`-th thread has read its parameters and has not returned, it runs a session that is
there, for the server that is there. -/
def HasSession (s : ServerThreads) (k : ℕ) (P : SessionEntry → Prop) : Prop :=
  ∀ t ∈ s.threads[k]?, ∀ fr ∈ s.frames[k]?, (t.seen .ss).isSome → (t.seen .sm).isSome →
    fr.runPc.isDone = false → ∃ p ∈ s.runs? k, P p.2

/-- The step touches the memory of the process only. -/
def Defined (o : ByteOrder) (s : ServerThreads) : ThreadsAct → Prop
  | .iterate env _ => s.Serves env
  | .run k env next => s.HasSession k fun ss => s.RunsOn o env next ss.session
  | _ => True

/-- What the threads cannot see to themselves: a call of `distribute` returns only after its thread
has read its parameters, and a session is cleared only when nobody else uses it any more. -/
def Sound (o : ByteOrder) (s : ServerThreads) : ThreadsAct → Prop
  | .iterate env _ => s.Serves env
  | .start a => s.WaitsForThread a
  | .run k env next => ∀ p ∈ s.runs? k, s.RunsOn o env next p.2.session
  | _ => True

instance (s : ServerThreads) (env : LoopEnv) : Decidable (s.Serves env) :=
  inferInstanceAs (Decidable ((_ → _) ∧ ∀ i ∈ s.server.interfaceReads env, _))

instance (o : ByteOrder) (s : ServerThreads) (env : RunEnv) (next : Option ℕ)
    (session : ServerSession) : Decidable (s.RunsOn o env next session) :=
  inferInstanceAs (Decidable (_ ∧ (_ → _ ∧ ∃ i ∈ next, _)))

instance (s : ServerThreads) (k : ℕ) (P : SessionEntry → Prop) [DecidablePred P] :
    Decidable (s.HasSession k P) :=
  inferInstanceAs (Decidable (∀ t ∈ s.threads[k]?, ∀ fr ∈ s.frames[k]?, _ → _ → _ →
    ∃ p ∈ s.runs? k, P p.2))

instance (o : ByteOrder) (s : ServerThreads) : DecidablePred (s.Defined o)
  | .iterate env _ => inferInstanceAs (Decidable (s.Serves env))
  | .run k env next =>
    inferInstanceAs (Decidable (s.HasSession k fun ss => s.RunsOn o env next ss.session))
  | .listen _ | .start _ | .wait _ _ _ | .ends _ _ => inferInstanceAs (Decidable True)

instance (o : ByteOrder) (s : ServerThreads) : DecidablePred (s.Sound o)
  | .iterate env _ => inferInstanceAs (Decidable (s.Serves env))
  | .start a => inferInstanceAs (Decidable (s.WaitsForThread a))
  | .run k env next =>
    inferInstanceAs (Decidable (∀ p ∈ s.runs? k, s.RunsOn o env next p.2.session))
  | .listen _ | .wait _ _ _ | .ends _ _ => inferInstanceAs (Decidable True)

/-- The process of the server. -/
def process (o : ByteOrder) : EventMachine (Option ServerThreads)
    (ThreadsAct × List ThreadsEvent) ThreadsEvent :=
  (machine o).orUndefined (Defined o)

end ServerThreads

end Gdnp
