import Gdnp.Server

/-!
# How a session thread starts

`distribute` keeps the parameters of a new thread in its own frame and returns without waiting for
the thread to read them.  By the time it does, the loop thread may have used the memory again, for
the parameters of another session among other things (`not_own_threads`).  If each call returns only
after its thread has read both parameters, every session is run by its own thread alone
(`own_threads`); a call that returns earlier leaves the thread to read what may no longer be there
(`exists_late_read`).
-/

open CMem

namespace Gdnp

/-- What a pointer points to. -/
inductive Pointer where
  /-- The `k`-th session that was created. -/
  | session (k : ℕ)
  | server
  | other (address : ℕ)
  deriving DecidableEq

/-- The fields of `session_run_parms`. -/
inductive ParmField where
  | ss
  | sm
  deriving DecidableEq

structure SessionRunParms where
  ss : Pointer
  sm : Pointer

def SessionRunParms.get (parm : SessionRunParms) : ParmField → Pointer
  | .ss => parm.ss
  | .sm => parm.sm

/-- A thread in `run_help`: its argument, and what it has read of it.  Once it has read both fields,
it runs the session. -/
structure StartThread where
  arg : ℕ
  seen : ParmField → Option Pointer

def StartThread.Runs (t : StartThread) (ss sm : Pointer) : Prop :=
  t.seen .ss = some ss ∧ t.seen .sm = some sm

/-- The server with the stack memory of its loop thread; the `k`-th thread was started for the
`k`-th session, and `call` is the one that was started by the call that has not yet returned. -/
structure ThreadStart where
  server : ServerMaster
  stack : ℕ → SessionRunParms
  call : Option ℕ
  threads : List StartThread

inductive StartAct where
  /-- `distribute` is called, and has its parameters at the address `parm`. -/
  | distribute (sessionId : UInt32) (buffer : List UInt8) (type : MsgType)
      (uninit : CharArray maxStringLength) (last : Content) (parm : ℕ)
  /-- The call returns. -/
  | ret
  /-- The loop thread uses the memory of calls that have returned. -/
  | reuse (stack : ℕ → SessionRunParms)
  /-- A session thread clears its session. -/
  | clear (sessionId : UInt32) (tcpSock : ℤ)
  /-- The `k`-th thread reads a field of its parameters, in whatever order. -/
  | read (k : ℕ) (f : ParmField)

inductive StartEvent where
  /-- The `k`-th thread read a field while the given call had not returned. -/
  | read (k : ℕ) (call : Option ℕ)
  deriving DecidableEq

/-- What `distribute` writes for the `k`-th session. -/
def SessionRunParms.own (k : ℕ) : SessionRunParms := ⟨.session k, .server⟩

namespace ThreadStart

/-- The server before its first session. -/
def start (server : ServerMaster) (stack : ℕ → SessionRunParms) : ThreadStart :=
  ⟨server, stack, none, []⟩

/-- The end of `distribute` with the given result: a new session gets its thread, and otherwise the
call has returned. -/
def launch (s : ThreadStart) (r : ServerMaster × List MasterEvent) (parm : ℕ) : ThreadStart :=
  if r.2.any MasterEvent.isCreated then
    { server := r.1
      stack := Function.update s.stack parm (.own s.threads.length)
      call := some s.threads.length
      threads := s.threads ++ [⟨parm, fun _ => none⟩] }
  else { s with server := r.1 }

/-- `run_help` reads a field. -/
def readField (s : ThreadStart) (k : ℕ) (t : StartThread) (f : ParmField) : ThreadStart :=
  { s with
    threads := s.threads.set k
      { t with seen := Function.update t.seen f (some ((s.stack t.arg).get f)) } }

def step (s : ThreadStart) : StartAct → Option (ThreadStart × List StartEvent)
  | .distribute sessionId buffer type uninit last parm =>
    if s.call = none then
      some (s.launch (s.server.distribute sessionId buffer type uninit last) parm, [])
    else none
  | .ret => if s.call = none then none else some ({ s with call := none }, [])
  | .reuse stack => if s.call = none then some ({ s with stack := stack }, []) else none
  | .clear sessionId tcpSock =>
    some ({ s with server := s.server.clearWhenSessionEnd sessionId tcpSock }, [])
  | .read k f => (s.threads[k]?).bind fun t =>
      if t.seen f = none then some (s.readField k t f, [.read k s.call]) else none

/-- The creation of sessions as a machine. -/
def machine : EventMachine ThreadStart StartAct StartEvent := ⟨step⟩

/-- A call returns only after the thread that it has started has read both fields. -/
def WaitsForThread (s : ThreadStart) : StartAct → Prop
  | .ret => ∀ k ∈ s.call, ∀ t ∈ s.threads[k]?, (t.seen .ss).isSome ∧ (t.seen .sm).isSome
  | _ => True

instance (s : ThreadStart) : DecidablePred s.WaitsForThread
  | .ret => inferInstanceAs (Decidable (∀ k ∈ s.call, ∀ t ∈ s.threads[k]?, _))
  | .distribute .. => inferInstanceAs (Decidable True)
  | .reuse _ => inferInstanceAs (Decidable True)
  | .clear _ _ => inferInstanceAs (Decidable True)
  | .read _ _ => inferInstanceAs (Decidable True)

/-- No thread reads its parameters but during the call that owns them, and each session that is run
is run by the thread that was started for it, and by no other. -/
structure OwnThreads (s : ThreadStart) (es : List StartEvent) : Prop where
  reads : ∀ k call, .read k call ∈ es → call = some k
  own : ∀ (k : ℕ) (t : StartThread) ss sm, s.threads[k]? = some t → t.Runs ss sm →
    ss = .session k ∧ sm = .server
  once : ∀ (j k : ℕ) (t u : StartThread) ss sm sm', s.threads[j]? = some t →
    s.threads[k]? = some u → t.Runs ss sm → u.Runs ss sm' → j = k

/-! ### The steps -/

variable {s s' : ThreadStart} {a : StartAct} {es : List StartEvent}

/-- During the call that owns them the parameters are there, and afterwards they have been read. -/
structure Started (s : ThreadStart) (k : ℕ) (t : StartThread) : Prop where
  parms : s.call = some k → s.stack t.arg = .own k
  read : s.call ≠ some k → ∀ f, (t.seen f).isSome
  seen : ∀ f p, t.seen f = some p → p = (SessionRunParms.own k).get f

def AllStarted (s : ThreadStart) : Prop :=
  ∀ (k : ℕ) (t : StartThread), s.threads[k]? = some t → s.Started k t

theorem launch_started (hs : s.AllStarted) (hcall : s.call = none)
    (r : ServerMaster × List MasterEvent) (parm : ℕ) : (s.launch r parm).AllStarted := by
  have hread : ∀ (k : ℕ) (t : StartThread), s.threads[k]? = some t → ∀ f, (t.seen f).isSome :=
    fun k t ht => (hs k t ht).read (by simp [hcall])
  unfold launch
  split_ifs
  · intro k t ht
    rw [List.getElem?_append] at ht
    split_ifs at ht with hk
    · refine ⟨fun hself => ?_, fun _ => hread k t ht, (hs k t ht).seen⟩
      exact absurd (Option.some.inj hself) (by omega)
    · obtain ⟨hzero, rfl⟩ : k - s.threads.length = 0 ∧ _ = t := by
        simpa [List.getElem?_singleton] using ht
      obtain rfl : k = s.threads.length := by omega
      exact ⟨fun _ => Function.update_self .., fun hself => absurd rfl hself, by simp⟩
  · intro k t ht
    exact ⟨fun hself => absurd (hcall.symm.trans hself) (by simp), fun _ => hread k t ht,
      (hs k t ht).seen⟩

/-- The threads after one has read a field. -/
theorem threads_readField {j k : ℕ} {t u : StartThread} {f : ParmField}
    (h : (s.readField k t f).threads[j]? = some u) :
    (j = k ∧ u = { t with seen := Function.update t.seen f (some ((s.stack t.arg).get f)) }) ∨
      s.threads[j]? = some u := by
  unfold readField at h
  rw [List.getElem?_set] at h
  split_ifs at h with hjk
  · exact .inl ⟨hjk.symm, (Option.some.inj h).symm⟩
  · exact .inr h

theorem step_started (h : s.step a = some (s', es)) (ha : s.WaitsForThread a)
    (hs : s.AllStarted) : s'.AllStarted ∧ ∀ k call, .read k call ∈ es → call = some k := by
  cases a with
  | distribute sessionId buffer type uninit last parm =>
    rw [step] at h
    split_ifs at h with hcall
    cases h
    exact ⟨launch_started hs hcall _ _, by simp⟩
  | ret =>
    rw [step] at h
    split_ifs at h with hcall
    cases h
    refine ⟨fun k t ht => ⟨by simp, fun _ => ?_, (hs k t ht).seen⟩, by simp⟩
    by_cases hself : s.call = some k
    · obtain ⟨hss, hsm⟩ := ha k hself t ht
      intro f
      cases f with
      | ss => exact hss
      | sm => exact hsm
    · exact (hs k t ht).read hself
  | reuse stack =>
    rw [step] at h
    split_ifs at h with hcall
    cases h
    refine ⟨fun k t ht => ⟨fun hself => ?_, (hs k t ht).read, (hs k t ht).seen⟩, by simp⟩
    exact absurd (hcall.symm.trans hself) (by simp)
  | clear sessionId tcpSock =>
    cases h
    exact ⟨fun k t ht => ⟨(hs k t ht).parms, (hs k t ht).read, (hs k t ht).seen⟩, by simp⟩
  | read k f =>
    obtain ⟨t, ht, h⟩ := Option.bind_eq_some_iff.1 h
    split_ifs at h with hseen
    cases h
    have hcall : s.call = some k := by
      by_contra hself
      have hsome := (hs k t ht).read hself f
      rw [hseen] at hsome
      cases hsome
    refine ⟨fun j u hu => ?_, by simp [hcall]⟩
    obtain ⟨rfl, rfl⟩ | hu := threads_readField hu
    · refine ⟨(hs _ t ht).parms, fun hself => absurd hcall hself, fun g p hp => ?_⟩
      replace hp : Function.update t.seen f (some ((s.stack t.arg).get f)) g = some p := hp
      by_cases hg : g = f
      · subst hg
        rw [Function.update_self, (hs _ t ht).parms hcall] at hp
        exact (Option.some.inj hp).symm
      · rw [Function.update_of_ne hg] at hp
        exact (hs _ t ht).seen g p hp
    · exact ⟨(hs j u hu).parms, (hs j u hu).read, (hs j u hu).seen⟩

/-- If each call of `distribute` returns only after the thread that it has started has read its
parameters, every session is run by its own thread. -/
theorem own_threads {server : ServerMaster} {stack : ℕ → SessionRunParms} {as : List StartAct}
    {s : ThreadStart} {es : List StartEvent}
    (hok : machine.Guarded WaitsForThread (start server stack) as)
    (hrun : machine.run (start server stack) as = some (s, es)) : s.OwnThreads es := by
  have hkept : s.AllStarted ∧ ∀ k call, .read k call ∈ es → call = some k := by
    refine EventMachine.run_preserves_trace (t := [])
      (P := fun s es => s.AllStarted ∧ ∀ k call, .read k call ∈ es → call = some k)
      ?_ ⟨by simp [AllStarted, start], by simp⟩ hok hrun
    intro s t a s' es hs ha h
    obtain ⟨hs', hes⟩ := step_started h ha hs.1
    refine ⟨hs', fun k call hmem => ?_⟩
    exact (List.mem_append.1 hmem).elim (hs.2 k call) (hes k call)
  obtain ⟨hstarted, hreads⟩ := hkept
  have hown : ∀ (k : ℕ) (t : StartThread) ss sm, s.threads[k]? = some t → t.Runs ss sm →
      ss = .session k ∧ sm = .server := fun k t ss sm ht hruns =>
    ⟨(hstarted k t ht).seen .ss ss hruns.1, (hstarted k t ht).seen .sm sm hruns.2⟩
  refine ⟨hreads, hown, fun j k t u ss sm sm' ht hu htruns huruns => ?_⟩
  have hj := (hown j t ss sm ht htruns).1
  have hk := (hown k u ss sm' hu huruns).1
  exact Pointer.session.inj (hj.symm.trans hk)

/-- A call that returns before its thread has read a field leaves it to a late read. -/
theorem exists_late_read (h : ¬ s.WaitsForThread .ret) :
    ∃ k f s' es, machine.run s [.ret, .read k f] = some (s', es) ∧ .read k none ∈ es := by
  simp only [WaitsForThread, Option.mem_def, not_forall] at h
  obtain ⟨k, hcall, t, ht, hseen⟩ := h
  obtain ⟨f, hf⟩ : ∃ f, t.seen f = none := by
    by_contra hall
    simp only [not_exists, ← Ne.eq_def, Option.ne_none_iff_isSome] at hall
    exact hseen ⟨hall .ss, hall .sm⟩
  have hret : machine.step s .ret = some ({ s with call := none }, []) := by
    show (if s.call = none then none else some _) = _
    rw [if_neg (by simp [hcall])]
  let s₁ : ThreadStart := { s with call := none }
  have hread : machine.step s₁ (.read k f) = some (s₁.readField k t f, [.read k none]) := by
    show (s.threads[k]?).bind _ = _
    rw [ht, Option.bind_some, if_pos hf]
  have hrun : machine.run s [.ret, .read k f] = some (s₁.readField k t f, [.read k none]) :=
    EventMachine.run_cons_iff.2 ⟨s₁, [], _, hret, EventMachine.run_singleton_iff.2 hread, rfl⟩
  exact ⟨k, f, _, _, hrun, List.mem_singleton_self _⟩

/-- A request for a session with the given id, whose parameters are at address 0. -/
def request (sessionId : UInt32) : StartAct :=
  .distribute sessionId [] .requestMsg (CharArray.zero _) ⟨.requestMsg, CharArray.zero _⟩ 0

/-- The first thread starts only after a second session was created, and runs that one. -/
theorem not_own_threads :
    ¬ ∀ (server : ServerMaster) (stack : ℕ → SessionRunParms) (as : List StartAct)
      (s : ThreadStart) (es : List StartEvent),
      machine.run (start server stack) as = some (s, es) → s.OwnThreads es := by
  intro h
  have hseen : ((machine.run (start (.start 3 [] fun _ => 0) fun _ => .own 0)
      [request 7, .ret, request 8, .read 0 .ss, .read 0 .sm]).map fun r =>
        (r.1.threads[0]?).map fun t => (t.seen .ss, t.seen .sm)) =
      some (some (some (.session 1), some .server)) := by
    decide +kernel
  obtain ⟨⟨s, es⟩, hrun, hseen⟩ := Option.map_eq_some_iff.1 hseen
  obtain ⟨t, ht, hruns⟩ := Option.map_eq_some_iff.1 hseen
  obtain ⟨hss, hsm⟩ := Prod.mk.inj hruns
  cases ((h _ _ _ s es hrun).own 0 t _ _ ht ⟨hss, hsm⟩).1

/-- Two sessions whose threads read their parameters in time. -/
theorem own_threads_two : ∃ s es, machine.run (start (.start 3 [] fun _ => 0) fun _ => .own 0)
    [request 7, .read 0 .ss, .read 0 .sm, .ret, request 8, .read 1 .sm, .read 1 .ss, .ret] =
      some (s, es) ∧ s.OwnThreads es := by
  have hok : machine.Guarded WaitsForThread (start (.start 3 [] fun _ => 0) fun _ => .own 0)
      [request 7, .read 0 .ss, .read 0 .sm, .ret, request 8, .read 1 .sm, .read 1 .ss, .ret] := by
    decide +kernel
  obtain ⟨⟨s, es⟩, hrun⟩ := Option.isSome_iff_exists.1 (show (machine.run
    (start (.start 3 [] fun _ => 0) fun _ => .own 0)
    [request 7, .read 0 .ss, .read 0 .sm, .ret, request 8, .read 1 .sm, .read 1 .ss,
      .ret]).isSome by decide +kernel)
  exact ⟨s, es, hrun, own_threads hok hrun⟩

end ThreadStart

end Gdnp
