import Gdnp.Lib.Component
import Gdnp.Phase
import Gdnp.Threads

/-!
# Each session on a thread of its own

If each call of `distribute` returns only after its thread has read its parameters, and a session is
cleared only when no other thread uses it any more, then each session in the table is run by one
thread, whose frame says where it stands (`ServerThreads.Inv`, `threads_own`).  So the process stays
defined, and what it does is a run of the server in which each session has one thread
(`server_run`), and `clear_when_session_end` comes to its end (`clear_ends`).
-/

namespace Gdnp

theorem MasterEvent.any_isCreated_iff {es : List MasterEvent} :
    es.any isCreated = true ↔ es.filterMap created? ≠ [] := by
  rw [List.any_eq_true, Ne, List.filterMap_eq_nil_iff, not_forall]
  constructor
  · rintro ⟨e, he, hcreated⟩
    cases e with
    | created id c => exact ⟨_, fun h => Option.some_ne_none id (h he)⟩
    | _ => cases hcreated
  · rintro ⟨e, h⟩
    obtain ⟨he, hcreated⟩ := Classical.not_imp.1 h
    cases e with
    | created id c => exact ⟨_, he, rfl⟩
    | _ => exact absurd rfl hcreated

/-- The helper threads leave `last_content` alone. -/
theorem ServerSession.step_lastContent {o : ByteOrder} {s s' : ServerSession} {a : SessionAct}
    {es : List SessionEvent} (h : s.step o a = some (s', es)) (ha : ∀ env, a ≠ .run env) :
    s'.lastContent = s.lastContent := by
  cases a with
  | push c =>
    cases h
    rfl
  | run env => exact absurd rfl (ha env)
  | wait k env =>
    obtain ⟨t, t', -, -, rfl⟩ := step_wait_iff.1 h
    rfl
  | ends k =>
    obtain ⟨t, t', s₁, -, hstep, rfl, -⟩ := step_ends_iff.1 h
    obtain rfl | rfl | ⟨-, rfl⟩ := endStep_cases hstep <;> rfl

/-- The session thread returns from `clear_when_session_end`. -/
theorem ServerSession.runStep_isDone {o : ByteOrder} {s s' : ServerSession} {env : RunEnv}
    {es : List SessionEvent} (h : s.runStep o env = some (s', es))
    (hs' : s'.runPc.isDone = true) : s.runPc.isClose = true := by
  cases runStep_cases h with
  | close pc => rw [pc]; rfl
  | _ => cases hs'

namespace ServerMaster

variable {o : ByteOrder} {sm sm' : ServerMaster} {es : List MasterEvent} {env : LoopEnv}

/-- Where the threads of the sessions stand, and their `last_content`. -/
def frameOf (sm : ServerMaster) (id : UInt32) : Option (RunPc × Content) :=
  (sm.ssMap id).map fun ss => (ss.session.runPc, ss.session.lastContent)

theorem frameOf_eq_some_iff {id : UInt32} {fr : RunPc × Content} :
    sm.frameOf id = some fr ↔
      ∃ ss, sm.ssMap id = some ss ∧ ss.session.runPc = fr.1 ∧ ss.session.lastContent = fr.2 := by
  simp only [frameOf, Option.map_eq_some_iff, Prod.ext_iff]

theorem frameOf_setEntry (id : UInt32) (entry : Option SessionEntry) :
    (sm.setEntry id entry).frameOf = Function.update sm.frameOf id
      (entry.map fun ss => (ss.session.runPc, ss.session.lastContent)) :=
  funext fun j => Function.apply_update (fun _ => Option.map _) sm.ssMap id entry j

/-- An entry whose thread has not moved. -/
theorem frameOf_setEntry_eq {id : UInt32} {ss ss' : SessionEntry} (hss : sm.ssMap id = some ss)
    (hpc : ss'.session.runPc = ss.session.runPc)
    (hlast : ss'.session.lastContent = ss.session.lastContent) :
    (sm.setEntry id (some ss')).frameOf = sm.frameOf := by
  rw [frameOf_setEntry, Function.update_eq_self_iff, frameOf, hss, Option.map_some,
    Option.map_some, hpc, hlast]

/-- No session is created and all threads stay where they are, or a session is created. -/
inductive Creates (last : Content) (sm sm' : ServerMaster) (es : List MasterEvent) : Prop
  | none (hes : es.filterMap MasterEvent.created? = []) (hframe : sm'.frameOf = sm.frameOf)
  | one {id} (hes : es.filterMap MasterEvent.created? = [id]) (hnew : sm.frameOf id = none)
      (hframe : sm'.frameOf = Function.update sm.frameOf id (some (.head, last)))

theorem distribute_creates (sessionId : UInt32) (buffer : List UInt8) (type : MsgType)
    (uninit : CMem.CharArray maxStringLength) (last : Content)
    (h : sm.distribute sessionId buffer type uninit last = (sm', es)) :
    Creates last sm sm' es := by
  unfold distribute at h
  split at h
  case h_1 ss hss =>
    split_ifs at h <;> cases h
    · exact .none rfl rfl
    · exact .none rfl (frameOf_setEntry_eq hss rfl rfl)
  case h_2 hss =>
    split_ifs at h <;> cases h
    · exact .none rfl rfl
    · exact .one rfl (by rw [frameOf, hss]; rfl) (frameOf_setEntry ..)

theorem created?_recvDiscovery :
    (sm.recvDiscovery o env).filterMap MasterEvent.created? = [] := by
  unfold recvDiscovery
  cases recvPdu sm.udpSock env.datagram with
  | error e => rfl
  | ok d =>
    dsimp only
    split_ifs
    · rcases (sendPdu sm.udpSock _ .responseMsg d.sessionId env.send).2 with _ | msg <;> rfl
    · rfl

theorem dispatch_creates (h : sm.dispatch o env = (sm', es)) : Creates env.last sm sm' es := by
  unfold dispatch at h
  split_ifs at h
  · cases h
    exact .none created?_recvDiscovery rfl
  · unfold acceptClient at h
    split_ifs at h <;> cases h <;> exact .none rfl rfl
  · unfold readClient at h
    cases houtcome : recvPdu sm.unlock.tcpSock env.pdu with
    | error e =>
      rw [houtcome] at h
      cases h
      exact .none rfl rfl
    | ok d =>
      rw [houtcome] at h
      rcases hd : sm.unlock.distribute d.sessionId d.data.bytes d.type env.uninit env.last with
        ⟨sm₁, es₁⟩
      simp only [hd] at h
      cases h
      cases distribute_creates _ _ _ _ _ hd with
      | none hes hframe => exact .none hes hframe
      | one hes hnew hframe => exact .one hes hnew hframe
  · cases h
    exact .none rfl rfl

/-- An iteration creates at most one session. -/
theorem iterate_creates (h : sm.iterate o env = some (sm', es)) : Creates env.last sm sm' es := by
  obtain ⟨-, ready, -, -, heq⟩ | ⟨-, rfl, flags, rfl⟩ := iterate_inv h
  · cases dispatch_creates heq with
    | none hes hframe => exact .none hes hframe
    | one hes hnew hframe => exact .one hes hnew hframe
  · exact .none rfl rfl

/-- The helper threads leave the session threads where they are. -/
theorem sessionStep_frameOf {id : UInt32} {b : SessionAct} (hb : ∀ env, b ≠ .run env)
    (h : sm.sessionStep o id b = some (sm', es)) (hsm : ∀ fr, sm.frameOf id = some fr →
      fr.1.isDone = false) : sm'.frameOf = sm.frameOf := by
  obtain ⟨ss, hss, h⟩ := Option.bind_eq_some_iff.1 h
  obtain ⟨⟨s', es'⟩, hstep, h⟩ := Option.map_eq_some_iff.1 h
  have hpc := (ServerSession.step_runPc hstep hb).1
  have hrunning := hsm (ss.session.runPc, ss.session.lastContent)
    (frameOf_eq_some_iff.2 ⟨ss, hss, rfl, rfl⟩)
  split_ifs at h with hdone <;> cases h
  · rw [hpc, hrunning] at hdone
    cases hdone
  · exact frameOf_setEntry_eq hss hpc (ServerSession.step_lastContent hstep hb)

/-- A session is cleared from `close` only. -/
theorem sessionStep_cleared {id id' : UInt32} {ss : SessionEntry} {renv : RunEnv}
    (h : sm.sessionStep o id (.run renv) = some (sm', es)) (hss : sm.ssMap id = some ss)
    (hcleared : .cleared id' ∈ es) :
    id' = id ∧ ss.session.runPc.isClose ∧ sm' = sm.clearWhenSessionEnd id ss.tcpSock := by
  rw [sessionStep, hss, Option.bind_some] at h
  obtain ⟨⟨s', es'⟩, hstep, h⟩ := Option.map_eq_some_iff.1 h
  split_ifs at h with hdone <;> cases h
  · exact ⟨by simpa using hcleared, ServerSession.runStep_isDone hstep hdone, rfl⟩
  · obtain ⟨e, -, he⟩ := List.mem_map.1 hcleared
    cases he

/-- A step of a session thread moves it, or clears its session. -/
theorem sessionStep_run {id : UInt32} {renv : RunEnv}
    (h : sm.sessionStep o id (.run renv) = some (sm', es)) :
    (sm'.frameOf = Function.update sm.frameOf id none ∧ sm'.ssMap id = none) ∨
    ∃ ss, sm'.ssMap id = some ss ∧ ss.session.runPc.isDone = false ∧
      sm'.frameOf = Function.update sm.frameOf id
        (some (ss.session.runPc, ss.session.lastContent)) := by
  obtain ⟨ss, hss, h⟩ := Option.bind_eq_some_iff.1 h
  obtain ⟨⟨s', es'⟩, hstep, h⟩ := Option.map_eq_some_iff.1 h
  split_ifs at h with hdone <;> cases h
  · exact .inl ⟨frameOf_setEntry id none, Function.update_self ..⟩
  · exact .inr ⟨_, setEntry_ssMap_self, Bool.eq_false_of_not_eq_true hdone, frameOf_setEntry ..⟩

end ServerMaster

namespace ServerThreads

variable {o : ByteOrder} {s s' : ServerThreads} {a : ThreadsAct} {es : List ThreadsEvent}

/-! ### Each session has its thread -/

/-- The `k`-th thread, if it has not returned, runs the session of its id that is in the table. -/
structure Drives (s : ServerThreads) (k : ℕ) (fr : RunFrame) : Prop where
  latest : fr.sessionId ∉ (s.frames.drop (k + 1)).map (·.sessionId)
  frame : s.server.frameOf fr.sessionId = some (fr.runPc, fr.lastContent)

/-- Every thread runs the session it was started for, and every session in the table has one. -/
structure Inv (s : ServerThreads) : Prop where
  started : s.toThreadStart.AllStarted
  length : s.frames.length = s.threads.length
  drives : ∀ k fr, s.frames[k]? = some fr → fr.runPc.isDone = false → s.Drives k fr
  driven : ∀ id, s.server.frameOf id ≠ none →
    ∃ fr ∈ s.frames, fr.sessionId = id ∧ fr.runPc.isDone = false

theorem inv_start (server : ServerMaster) (stack : ℕ → SessionRunParms)
    (hserver : ∀ id, server.ssMap id = none) : (start server stack).Inv where
  started := by simp [ThreadStart.AllStarted, start, ThreadStart.start]
  length := rfl
  drives := by simp [start]
  driven id h := absurd (congrArg (Option.map _) (hserver id)) h

/-- A frame with the same id further on. -/
theorem mem_drop {k j : ℕ} {fr : RunFrame} (hj : s.frames[j]? = some fr) (hkj : k < j) :
    fr.sessionId ∈ (s.frames.drop (k + 1)).map (·.sessionId) := by
  refine List.mem_map_of_mem (List.mem_of_getElem? (i := j - (k + 1)) ?_)
  rw [List.getElem?_drop, show k + 1 + (j - (k + 1)) = j by omega]
  exact hj

/-- No two threads run sessions with the same id. -/
theorem Inv.unique (hs : s.Inv) {j k : ℕ} {fr fr' : RunFrame} (hj : s.frames[j]? = some fr)
    (hk : s.frames[k]? = some fr') (hfr : fr.runPc.isDone = false)
    (hfr' : fr'.runPc.isDone = false) (hid : fr.sessionId = fr'.sessionId) : j = k := by
  rcases lt_trichotomy j k with hlt | heq | hlt
  · exact absurd (hid ▸ mem_drop hk hlt) (hs.drives j fr hj hfr).latest
  · exact heq
  · exact absurd (hid ▸ mem_drop hj hlt) (hs.drives k fr' hk hfr').latest

/-- A step that leaves the session threads where they are. -/
theorem Inv.congr (hs : s.Inv) (hstarted : s'.toThreadStart.AllStarted)
    (hlength : s'.threads.length = s.threads.length) (hframes : s'.frames = s.frames)
    (hserver : s'.server.frameOf = s.server.frameOf) : s'.Inv where
  started := hstarted
  length := by rw [hframes, hlength, hs.length]
  drives k fr hk hfr := by
    rw [hframes] at hk
    obtain ⟨hlatest, hframe⟩ := hs.drives k fr hk hfr
    exact ⟨by rwa [hframes], by rwa [hserver]⟩
  driven id hid := by
    rw [hframes]
    rw [hserver] at hid
    exact hs.driven id hid

/-- A new session gets its thread. -/
theorem Inv.launch {id : UInt32} {last : Content} (hs : s.Inv)
    (hstarted : s'.toThreadStart.AllStarted)
    (hlength : s'.threads.length = s.threads.length + 1)
    (hframes : s'.frames = s.frames ++ [⟨id, .head, last⟩])
    (hnew : s.server.frameOf id = none)
    (hserver : s'.server.frameOf = Function.update s.server.frameOf id (some (.head, last))) :
    s'.Inv where
  started := hstarted
  length := by rw [hframes, hlength, List.length_append, hs.length, List.length_singleton]
  drives k fr hk hfr := by
    rw [hframes, List.getElem?_append] at hk
    split_ifs at hk with hlt
    · obtain ⟨hlatest, hframe⟩ := hs.drives k fr hk hfr
      have hid : fr.sessionId ≠ id := by
        rintro rfl
        rw [hnew] at hframe
        cases hframe
      refine ⟨?_, by rw [hserver, Function.update_of_ne hid]; exact hframe⟩
      rw [hframes, List.drop_append_of_le_length (by omega), List.map_append, List.mem_append]
      rintro (hmem | hmem)
      · exact hlatest hmem
      · exact hid (by simpa using hmem)
    · obtain ⟨hk, rfl⟩ : k - s.frames.length = 0 ∧ _ = fr := by
        simpa [List.getElem?_singleton] using hk
      refine ⟨?_, by rw [hserver, Function.update_self]⟩
      rw [hframes, List.drop_of_length_le (by simp; omega)]
      exact List.not_mem_nil
  driven id' hid' := by
    rw [hframes]
    by_cases hid : id' = id
    · subst hid
      exact ⟨_, List.mem_append_right _ (List.mem_singleton_self _), rfl, rfl⟩
    · rw [hserver, Function.update_of_ne hid] at hid'
      obtain ⟨fr, hfr, hrest⟩ := hs.driven id' hid'
      exact ⟨fr, List.mem_append_left _ hfr, hrest⟩

/-- The `k`-th thread takes a step. -/
theorem Inv.move {k : ℕ} {fr fr' : RunFrame} (hs : s.Inv)
    (hstarted : s'.toThreadStart.AllStarted) (hlength : s'.threads.length = s.threads.length)
    (hk : s.frames[k]? = some fr) (hfr : fr.runPc.isDone = false)
    (hid : fr'.sessionId = fr.sessionId) (hframes : s'.frames = s.frames.set k fr')
    (hserver : s'.server.frameOf = Function.update s.server.frameOf fr.sessionId
      (if fr'.runPc.isDone then none else some (fr'.runPc, fr'.lastContent))) : s'.Inv := by
  have hids : s'.frames.map (·.sessionId) = s.frames.map (·.sessionId) := by
    refine List.ext_getElem? fun j => ?_
    rw [hframes, List.getElem?_map, List.getElem?_map, List.getElem?_set]
    split_ifs with hkj hlt
    · rw [← hkj, hk, Option.map_some, Option.map_some, hid]
    · rw [← hkj, List.getElem?_eq_none (by omega)]
    · rfl
  have hlt : k < s.frames.length := (List.getElem?_eq_some_iff.1 hk).1
  refine ⟨hstarted, by rw [hframes, List.length_set, hlength, hs.length], ?_, ?_⟩
  · intro j fr₁ hj hfr₁
    rw [hframes, List.getElem?_set] at hj
    have hlatest : fr₁.sessionId ∉ (s.frames.drop (j + 1)).map (·.sessionId) ∧
        s'.server.frameOf fr₁.sessionId = some (fr₁.runPc, fr₁.lastContent) := by
      split_ifs at hj with hkj
      · cases hj
        rw [hserver, hid, Function.update_self, if_neg (by simp [hfr₁]), ← hkj]
        exact ⟨(hs.drives k fr hk hfr).latest, rfl⟩
      · have hne : fr₁.sessionId ≠ fr.sessionId := fun h =>
          hkj (hs.unique hj hk hfr₁ hfr h).symm
        rw [hserver, Function.update_of_ne hne]
        exact ⟨(hs.drives j fr₁ hj hfr₁).latest, (hs.drives j fr₁ hj hfr₁).frame⟩
    refine ⟨?_, hlatest.2⟩
    rw [List.map_drop, hids, ← List.map_drop]
    exact hlatest.1
  · intro id' hid'
    rw [hserver] at hid'
    by_cases hself : id' = fr.sessionId
    · subst hself
      rw [Function.update_self] at hid'
      refine ⟨fr', ?_, hid, ?_⟩
      · rw [hframes]
        exact List.mem_set hlt fr'
      · by_contra hdone
        exact hid' (if_pos (by simpa using hdone))
    · rw [Function.update_of_ne hself] at hid'
      obtain ⟨fr₂, hmem, rfl, hfr₂⟩ := hs.driven id' hid'
      obtain ⟨j, hj⟩ := List.mem_iff_getElem?.1 hmem
      have hkj : k ≠ j := by
        rintro rfl
        exact hself (congrArg RunFrame.sessionId (Option.some.inj (hj.symm.trans hk)))
      refine ⟨fr₂, List.mem_iff_getElem?.2 ⟨j, ?_⟩, rfl, hfr₂⟩
      rw [hframes, List.getElem?_set_ne hkj]
      exact hj

/-! ### The steps -/

theorem within_eq {ss : SessionEntry} {fr : RunFrame} (hpc : ss.session.runPc = fr.runPc)
    (hlast : ss.session.lastContent = fr.lastContent) : ss.within fr = ss := by
  rw [SessionEntry.within, ← hpc, ← hlast]

/-- The session of a thread that has returned is no longer there. -/
theorem Inv.object?_eq (hs : s.Inv) {k : ℕ} {fr : RunFrame} (hk : s.frames[k]? = some fr) :
    s.object? k = if fr.runPc.isDone then none
      else (s.server.ssMap fr.sessionId).map (fr.sessionId, ·) := by
  rw [object?, hk, Option.bind_some]
  split_ifs with hlater hdone hdone
  · rfl
  · exact absurd hlater (hs.drives k fr hk (Bool.eq_false_of_not_eq_true hdone)).latest
  · rw [Option.map_eq_none_iff]
    by_contra hss
    obtain ⟨fr', hmem, hid, hfr'⟩ := hs.driven fr.sessionId (by simpa [ServerMaster.frameOf])
    obtain ⟨j, hj⟩ := List.mem_iff_getElem?.1 hmem
    rcases lt_trichotomy j k with hlt | rfl | hlt
    · exact (hs.drives j fr' hj hfr').latest (hid ▸ mem_drop hk hlt)
    · cases hj.symm.trans hk
      exact absurd hdone (by simp [hfr'])
    · exact hlater (hid ▸ mem_drop hj hlt)
  · rfl

theorem Inv.within_object?_eq_some_iff (hs : s.Inv) {k : ℕ} {fr : RunFrame}
    (hk : s.frames[k]? = some fr) {p : UInt32 × SessionEntry} :
    (s.object? k).map (fun p => (p.1, p.2.within fr)) = some p ↔
      fr.runPc.isDone = false ∧ p.1 = fr.sessionId ∧ s.server.ssMap fr.sessionId = some p.2 := by
  rw [hs.object?_eq hk]
  cases hfr : fr.runPc.isDone with
  | true => simp
  | false =>
    obtain ⟨ss, hss, hpc, hlast⟩ := ServerMaster.frameOf_eq_some_iff.1 (hs.drives k fr hk hfr).frame
    rw [if_neg (by simp), hss, Option.map_some, Option.map_some, within_eq hpc hlast]
    simp [Prod.ext_iff, eq_comm]

/-- A thread that has read its parameters, and has not returned, runs the session it was started for
as it is in the table. -/
theorem Inv.runs?_eq_some_iff (hs : s.Inv) {k : ℕ} {p : UInt32 × SessionEntry} :
    s.runs? k = some p ↔ ∃ t fr, s.threads[k]? = some t ∧ s.frames[k]? = some fr ∧
      (t.seen .ss).isSome ∧ (t.seen .sm).isSome ∧ fr.runPc.isDone = false ∧
        p.1 = fr.sessionId ∧ s.server.ssMap fr.sessionId = some p.2 := by
  simp only [runs?, Option.bind_eq_some_iff]
  refine exists_congr fun t => ?_
  rw [← exists_and_left]
  refine exists_congr fun fr => and_congr_right fun ht => and_congr_right fun hk => ?_
  have hseen := (hs.started k t ht).seen
  cases hss : t.seen .ss with
  | none => simp
  | some q =>
    cases hsm : t.seen .sm with
    | none => simp
    | some q' =>
      obtain rfl : q = .session k := hseen .ss q hss
      obtain rfl : q' = .server := hseen .sm q' hsm
      simpa using hs.within_object?_eq_some_iff hk

theorem Inv.setEntry_runs? (hs : s.Inv) {k : ℕ} {p : UInt32 × SessionEntry}
    (hp : s.runs? k = some p) : s.server.setEntry p.1 (some p.2) = s.server := by
  obtain ⟨-, fr, -, -, -, -, -, hid, hentry⟩ := hs.runs?_eq_some_iff.1 hp
  rw [ServerMaster.setEntry, ← hentry, hid, Function.update_eq_self]

/-- A step of the server by a session is one of its thread. -/
theorem Inv.runStep_of_runs? (hs : s.Inv) {k : ℕ} {p : UInt32 × SessionEntry} {env : RunEnv}
    {sm' : ServerMaster} {es' : List MasterEvent} (hp : s.runs? k = some p)
    (hstep : s.server.sessionStep o p.1 (.run env) = some (sm', es')) :
    s.runStep o k env = some ({ s with
      server := sm'
      frames := s.frames.modify k (·.after (sm'.ssMap p.1)) }, es'.map .master) := by
  rw [ServerThreads.runStep, hp, Option.bind_some, hs.setEntry_runs? hp, hstep]
  rfl

/-- The step of a session thread is a step of the server. -/
theorem Inv.runStep (hs : s.Inv) {k : ℕ} {env : RunEnv}
    (h : s.runStep o k env = some (s', es)) :
    ∃ fr sm' es', s.frames[k]? = some fr ∧ fr.runPc.isDone = false ∧
      s.server.sessionStep o fr.sessionId (.run env) = some (sm', es') ∧
      s' = { s with
        server := sm'
        frames := s.frames.set k (fr.after (sm'.ssMap fr.sessionId)) } ∧
      es = es'.map .master := by
  obtain ⟨⟨id, ss⟩, hp, h⟩ := Option.bind_eq_some_iff.1 h
  obtain ⟨⟨sm', es'⟩, hstep, h⟩ := Option.map_eq_some_iff.1 h
  obtain ⟨t, fr, ht, hk, -, -, hfr, rfl, -⟩ := hs.runs?_eq_some_iff.1 hp
  rw [hs.setEntry_runs? hp] at hstep
  cases h
  refine ⟨fr, sm', es', hk, hfr, hstep, ?_, rfl⟩
  · rw [List.modify_eq_set_getElem?, hk]
    rfl

/-- The threads notice only what happens to the sessions. -/
theorem Inv.of_server (hs : s.Inv) {server : ServerMaster}
    (hserver : server.frameOf = s.server.frameOf) : Inv { s with server := server } := by
  refine hs.congr (fun k t ht => ?_) rfl rfl hserver
  exact ⟨(hs.started k t ht).parms, (hs.started k t ht).read, (hs.started k t ht).seen⟩

theorem Inv.serverStep (hs : s.Inv) {b : MasterAct} (h : s.serverStep o b = some (s', es))
    (hb : ∀ sm' es', s.server.step o b = some (sm', es') → sm'.frameOf = s.server.frameOf) :
    s'.Inv ∧ ∃ es', s.server.step o b = some (s'.server, es') ∧ es = es'.map .master := by
  obtain ⟨⟨sm', es'⟩, hstep, h⟩ := Option.map_eq_some_iff.1 h
  cases h
  exact ⟨hs.of_server (hb sm' es' hstep), es', hstep, rfl⟩

/-- The sessions in the table are running. -/
theorem Inv.running (hs : s.Inv) {id : UInt32} {fr : RunPc × Content}
    (h : s.server.frameOf id = some fr) : fr.1.isDone = false := by
  obtain ⟨fr', hmem, rfl, hfr'⟩ := hs.driven id (by simp [h])
  obtain ⟨k, hk⟩ := List.mem_iff_getElem?.1 hmem
  have hframe := (hs.drives k fr' hk hfr').frame
  rw [h] at hframe
  cases hframe
  exact hfr'

theorem launched_server (s : ServerThreads) (r : ServerMaster × List MasterEvent) (last : Content)
    (parm : ℕ) : (s.launched r last parm).server = r.1 := by
  show (s.launch r parm).server = r.1
  unfold ThreadStart.launch
  split_ifs <;> rfl

theorem Inv.launched (hs : s.Inv) (hcall : s.call = none) {r : ServerMaster × List MasterEvent}
    {last : Content} (hr : ServerMaster.Creates last s.server r.1 r.2) (parm : ℕ) :
    (s.launched r last parm).Inv := by
  have hstarted : (s.launched r last parm).toThreadStart.AllStarted :=
    ThreadStart.launch_started hs.started hcall r parm
  have hserver := launched_server s r last parm
  cases hr with
  | none hes hframe =>
    have hany : r.2.any MasterEvent.isCreated = false := by
      rw [← Bool.not_eq_true, MasterEvent.any_isCreated_iff, not_not]
      exact hes
    have hlength : (s.launched r last parm).threads.length = s.threads.length := by
      simp [ServerThreads.launched, ThreadStart.launch, hany]
    have hframes : (s.launched r last parm).frames = s.frames := by
      simp [ServerThreads.launched, hes]
    exact hs.congr hstarted hlength hframes (by rw [hserver, hframe])
  | @one id hes hnew hframe =>
    have hany : r.2.any MasterEvent.isCreated = true :=
      MasterEvent.any_isCreated_iff.2 (by simp [hes])
    have hlength : (s.launched r last parm).threads.length = s.threads.length + 1 := by
      simp [ServerThreads.launched, ThreadStart.launch, hany]
    have hframes : (s.launched r last parm).frames = s.frames ++ [⟨id, .head, last⟩] := by
      simp [ServerThreads.launched, hes]
    exact hs.launch hstarted hlength hframes hnew (by rw [hserver, hframe])

/-- What the server does in a step; a thread that still reads its parameters does nothing. -/
def masterAct? (s : ServerThreads) : ThreadsAct → Option MasterAct
  | .iterate env _ => some (.iterate env)
  | .listen sock => some (.listen sock)
  | .start _ => none
  | .run k env _ => (s.frames[k]?).map fun fr => .session fr.sessionId (.run env)
  | .wait sessionId k env => some (.session sessionId (.wait k env))
  | .ends sessionId k => some (.session sessionId (.ends k))

theorem filterMap_master? (es : List MasterEvent) :
    (es.map ThreadsEvent.master).filterMap ThreadsEvent.master? = es := by
  rw [List.filterMap_map]
  exact List.filterMap_some

/-- A step of a thread in `run_help`, or of the loop thread between two iterations. -/
theorem step_start {b : StartAct} (h : s.step o (.start b) = some (s', es)) :
    ∃ t es', s.toThreadStart.step b = some (t, es') ∧ s' = { s with toThreadStart := t } ∧
      es = es'.map .start ∧ t.server = s.server ∧ t.threads.length = s.threads.length := by
  cases b with
  | distribute _ _ _ _ _ _ => cases h
  | clear _ _ => cases h
  | ret =>
    obtain ⟨⟨t, es'⟩, hstep, h⟩ := Option.map_eq_some_iff.1 h
    cases h
    refine ⟨t, es', hstep, rfl, rfl, ?_⟩
    rw [ThreadStart.step] at hstep
    split_ifs at hstep
    cases hstep
    exact ⟨rfl, rfl⟩
  | reuse stack =>
    obtain ⟨⟨t, es'⟩, hstep, h⟩ := Option.map_eq_some_iff.1 h
    cases h
    refine ⟨t, es', hstep, rfl, rfl, ?_⟩
    rw [ThreadStart.step] at hstep
    split_ifs at hstep
    cases hstep
    exact ⟨rfl, rfl⟩
  | read k f =>
    obtain ⟨⟨t, es'⟩, hstep, h⟩ := Option.map_eq_some_iff.1 h
    cases h
    refine ⟨t, es', hstep, rfl, rfl, ?_⟩
    obtain ⟨u, -, hstep⟩ := Option.bind_eq_some_iff.1 hstep
    split_ifs at hstep
    cases hstep
    exact ⟨rfl, List.length_set⟩

theorem Inv.startStep (hs : s.Inv) {b : StartAct} (hb : s.WaitsForThread b)
    (h : s.step o (.start b) = some (s', es)) :
    s'.Inv ∧ s'.server = s.server ∧ es.filterMap ThreadsEvent.master? = [] := by
  obtain ⟨t, es', hstep, rfl, rfl, hserver, hlength⟩ := step_start h
  refine ⟨hs.congr (ThreadStart.step_started hstep hb hs.started).1 hlength rfl ?_, hserver, ?_⟩
  · exact congrArg ServerMaster.frameOf hserver
  · rw [List.filterMap_map, List.filterMap_eq_nil_iff]
    exact fun e _ => rfl

/-- A step of the process is one of the server, and each session keeps its thread. -/
theorem Inv.step (hs : s.Inv) (ha : s.Sound o a) (h : s.step o a = some (s', es)) :
    s'.Inv ∧ (ServerMaster.machine o).run s.server (s.masterAct? a).toList =
      some (s'.server, es.filterMap ThreadsEvent.master?) := by
  have hhelper : ∀ {id b}, (∀ env, b ≠ .run env) → ∀ sm' es',
      s.server.step o (.session id b) = some (sm', es') → sm'.frameOf = s.server.frameOf := by
    intro id b hb sm' es' hstep
    exact ServerMaster.sessionStep_frameOf hb (ServerMaster.step_session hstep)
      fun fr => hs.running
  cases a with
  | iterate env parm =>
    rw [ServerThreads.step] at h
    split_ifs at h with hcall
    obtain ⟨r, hiterate, h⟩ := Option.map_eq_some_iff.1 h
    cases h
    refine ⟨hs.launched hcall (ServerMaster.iterate_creates hiterate) parm,
      EventMachine.run_singleton_iff.2 ?_⟩
    rw [filterMap_master?, launched_server]
    exact hiterate
  | listen sock =>
    obtain ⟨hs', es', hstep, rfl⟩ := hs.serverStep h fun sm' es' hstep => by
      cases hstep
      rfl
    rw [filterMap_master?]
    exact ⟨hs', EventMachine.run_singleton_iff.2 hstep⟩
  | start b =>
    obtain ⟨hs', hserver, hes⟩ := hs.startStep ha h
    rw [hserver, hes]
    exact ⟨hs', rfl⟩
  | run k env next =>
    obtain ⟨fr, sm', es', hk, hfr, hstep, rfl, rfl⟩ := hs.runStep h
    refine ⟨?_, ?_⟩
    · have hstarted : ThreadStart.AllStarted { s.toThreadStart with server := sm' } := fun k t ht =>
        ⟨(hs.started k t ht).parms, (hs.started k t ht).read, (hs.started k t ht).seen⟩
      obtain ⟨hframe, hnone⟩ | ⟨ss, hss, hrunning, hframe⟩ := ServerMaster.sessionStep_run hstep
      · refine hs.move hstarted rfl hk hfr ?_ rfl ?_
        · rw [hnone]
          rfl
        · rw [hnone]
          exact hframe
      · refine hs.move hstarted rfl hk hfr ?_ rfl ?_
        · rw [hss]
          rfl
        · rw [hss, RunFrame.after, if_neg (by simp [hrunning])]
          exact hframe
    · rw [filterMap_master?, masterAct?, hk]
      exact EventMachine.run_singleton_iff.2 hstep
  | wait id k env =>
    obtain ⟨hs', es', hstep, rfl⟩ := hs.serverStep h (hhelper (by simp))
    rw [filterMap_master?]
    exact ⟨hs', EventMachine.run_singleton_iff.2 hstep⟩
  | ends id k =>
    obtain ⟨hs', es', hstep, rfl⟩ := hs.serverStep h (hhelper (by simp))
    rw [filterMap_master?]
    exact ⟨hs', EventMachine.run_singleton_iff.2 hstep⟩

/-- Seen by the server, a step is one of its own or of no matter. -/
theorem Inv.step_server (hs : s.Inv) (ha : s.Sound o a) (h : s.step o a = some (s', es)) :
    (s'.server = s.server ∧ es.filterMap ThreadsEvent.master? = []) ∨
      ∃ b, s.masterAct? a = some b ∧
        s.server.step o b = some (s'.server, es.filterMap ThreadsEvent.master?) := by
  have hrun := (hs.step ha h).2
  cases hb : s.masterAct? a with
  | none =>
    rw [hb] at hrun
    exact .inl (EventMachine.run_nil_iff.1 hrun)
  | some b =>
    rw [hb] at hrun
    exact .inr ⟨b, rfl, EventMachine.run_singleton_iff.1 hrun⟩

theorem Inv.hasSession (hs : s.Inv) {k : ℕ} {P : SessionEntry → Prop}
    (hP : ∀ p ∈ s.runs? k, P p.2) : s.HasSession k P := by
  intro t ht fr hk hss hsm hfr
  obtain ⟨ss, hentry, -⟩ := ServerMaster.frameOf_eq_some_iff.1 (hs.drives k fr hk hfr).frame
  have hp : s.runs? k = some (fr.sessionId, ss) :=
    hs.runs?_eq_some_iff.2 ⟨t, fr, ht, hk, hss, hsm, hfr, rfl, hentry⟩
  exact ⟨(fr.sessionId, ss), hp, hP _ hp⟩

/-- The process stays inside its memory. -/
theorem Inv.defined (hs : s.Inv) (ha : s.Sound o a) : s.Defined o a := by
  cases a with
  | iterate env parm => exact ha
  | run k env next =>
    exact hs.hasSession (P := fun ss => s.RunsOn o env next ss.session) ha
  | _ => trivial

/-! ### The runs of the process -/

/-- The server does what it does when each session has one thread by nature. -/
theorem simulates (o : ByteOrder) : (machine o).Simulates (ServerMaster.machine o) (Sound o)
    (fun s sm => s.Inv ∧ s.server = sm) ThreadsEvent.master? := by
  rintro s _ a s' es ⟨hs, rfl⟩ ha h
  obtain ⟨hs', hbs⟩ := hs.step ha h
  exact ⟨(s.masterAct? a).toList, s'.server, hbs, hs', rfl⟩

/-- The process stays defined. -/
theorem Inv.run (hs : s.Inv) {as : List (ThreadsAct × List ThreadsEvent)}
    {t : Option ServerThreads} (hok : (machine o).Guarded (Sound o) s (as.map Prod.fst))
    (hrun : (process o).run (some s) as = some (t, es)) :
    ∃ s', t = some s' ∧ s'.Inv ∧ (machine o).run s (as.map Prod.fst) = some (s', es) :=
  EventMachine.run_orUndefined_of_inv (I := Inv) (fun _ _ _ _ hs ha h => (hs.step ha h).1)
    (fun _ _ hs ha => hs.defined ha) hs hok hrun

theorem Inv.process_run (hs : s.Inv) {as : List (ThreadsAct × List ThreadsEvent)}
    (hok : (machine o).Guarded (Sound o) s (as.map Prod.fst))
    (hrun : (machine o).run s (as.map Prod.fst) = some (s', es)) :
    (process o).run (some s) as = some (some s', es) :=
  EventMachine.run_orUndefined_of_run (I := Inv) (fun _ _ _ _ hs ha h => (hs.step ha h).1)
    (fun _ _ hs ha => hs.defined ha) hs hok hrun

section Runs

variable {udpSock : ℤ} {localInterfaces : List CMem.CString} {fds : ℕ → ℤ}
  {stack : ℕ → SessionRunParms} {as : List (ThreadsAct × List ThreadsEvent)}
  {t : Option ServerThreads}

/-- In every run of the process in which no call of `distribute` returns too early and no session
is cleared too early, the process stays defined, each session has its thread, and the server does
what it does when each session has one by nature. -/
theorem server_run
    (hok : (machine o).Guarded (Sound o) (start (.start udpSock localInterfaces fds) stack)
      (as.map Prod.fst))
    (hrun : (process o).run (some (start (.start udpSock localInterfaces fds) stack)) as =
      some (t, es)) :
    ∃ s, t = some s ∧ s.Inv ∧ ∃ bs, (ServerMaster.machine o).run
      (.start udpSock localInterfaces fds) bs =
        some (s.server, es.filterMap ThreadsEvent.master?) := by
  have hstart : (start (.start udpSock localInterfaces fds) stack).Inv :=
    inv_start _ stack fun _ => rfl
  obtain ⟨s, rfl, hs, hrun'⟩ := hstart.run hok hrun
  obtain ⟨bs, _, hbs, -, rfl⟩ := (simulates o).run ⟨hstart, rfl⟩ hok hrun'
  exact ⟨s, rfl, hs, bs, hbs⟩

/-- In every such run each session in the table is run by one thread, and a thread that has read its
parameters and has not returned runs its session as it is in the table. -/
theorem threads_own
    (hok : (machine o).Guarded (Sound o) (start (.start udpSock localInterfaces fds) stack)
      (as.map Prod.fst))
    (hrun : (process o).run (some (start (.start udpSock localInterfaces fds) stack)) as =
      some (t, es)) :
    ∃ s, t = some s ∧
      (∀ id ss, s.server.ssMap id = some ss → ∃! k : ℕ, ∃ fr : RunFrame,
        s.frames[k]? = some fr ∧ fr.sessionId = id ∧ fr.runPc.isDone = false) ∧
      (∀ k id ss, s.runs? k = some (id, ss) → s.server.ssMap id = some ss) := by
  obtain ⟨s, rfl, hs, -⟩ := server_run hok hrun
  refine ⟨s, rfl, fun id ss hss => ?_, fun k id ss hp => ?_⟩
  · have hframe : s.server.frameOf id ≠ none := by simp [ServerMaster.frameOf, hss]
    obtain ⟨fr, hmem, hid, hfr⟩ := hs.driven id hframe
    obtain ⟨k, hk⟩ := List.mem_iff_getElem?.1 hmem
    refine ⟨k, ⟨fr, hk, hid, hfr⟩, ?_⟩
    rintro j ⟨fr', hj, hid', hfr'⟩
    exact hs.unique hj hk hfr' hfr (hid'.trans hid.symm)
  · obtain ⟨-, fr, -, -, -, -, -, rfl, hss⟩ := hs.runs?_eq_some_iff.1 hp
    exact hss

end Runs

/-! ### The clearing of a session -/

theorem Inv.exists_represents (hs : s.Inv) :
    ∃ r : Registry, r.Represents s.server ∧ r.ssMap.length = s.keys.length := by
  refine Registry.exists_represents ((List.nodup_dedup _).filter _) fun id => ?_
  simp only [keys, List.mem_filter, List.mem_dedup, List.mem_map, ← Option.isSome_iff_ne_none,
    and_iff_right_iff_imp]
  intro hid
  have hframe : s.server.frameOf id ≠ none := by
    rw [ServerMaster.frameOf, Ne, Option.map_eq_none_iff]
    exact Option.isSome_iff_ne_none.1 hid
  obtain ⟨fr, hmem, hfr, -⟩ := hs.driven id hframe
  exact ⟨fr, hmem, hfr⟩

/-- A session thread clears its session. -/
theorem Inv.step_clear (hs : s.Inv) {k : ℕ} {env : RunEnv} {next : Option ℕ} {id : UInt32}
    (ha : s.Sound o (.run k env next)) (h : s.step o (.run k env next) = some (s', es))
    (hcleared : .master (.cleared id) ∈ es) :
    ∃ (ss : SessionEntry) (r r' : Registry), s.server.ssMap id = some ss ∧
      ss.session.HelpersDone ∧ r.Represents s.server ∧ r.clear next id ss.tcpSock = some r' ∧
        r'.Represents s'.server := by
  obtain ⟨fr, sm', es', hk, hfr, hstep, rfl, rfl⟩ := hs.runStep h
  obtain ⟨⟨id', ss⟩, hp, -⟩ := Option.bind_eq_some_iff.1 h
  obtain ⟨-, fr', -, hk', -, -, -, hid, hss⟩ := hs.runs?_eq_some_iff.1 hp
  cases hk.symm.trans hk'
  obtain ⟨e, he, heq⟩ := List.mem_map.1 hcleared
  cases heq
  obtain ⟨rfl, hclose, rfl⟩ := ServerMaster.sessionStep_cleared hstep hss he
  obtain ⟨hdone, i, hi, hlt⟩ := (ha _ hp).2 hclose
  obtain ⟨r, hr, hlength⟩ := hs.exists_represents
  obtain ⟨r', hclear⟩ : ∃ r', r.clear next fr.sessionId ss.tcpSock = some r' :=
    Registry.exists_clear fun _ => ⟨i, hi, hlength ▸ hlt⟩
  exact ⟨ss, r, r', hss, hdone, hr, hclear, Registry.clear_represents hr hclear⟩

/-- In every state that the process reaches, when a session is cleared, none of its helper threads
is left, and the loops of `clear_when_session_end` over the tables of the server come to an end. -/
theorem clear_ends {udpSock : ℤ} {localInterfaces : List CMem.CString} {fds : ℕ → ℤ}
    {stack : ℕ → SessionRunParms} {as : List (ThreadsAct × List ThreadsEvent)}
    {t : Option ServerThreads}
    (hok : (machine o).Guarded (Sound o) (start (.start udpSock localInterfaces fds) stack)
      (as.map Prod.fst))
    (hrun : (process o).run (some (start (.start udpSock localInterfaces fds) stack)) as =
      some (t, es)) :
    ∃ s, t = some s ∧ ∀ k env next s' es' id, s.Sound o (.run k env next) →
      s.step o (.run k env next) = some (s', es') → .master (.cleared id) ∈ es' →
        ∃ (ss : SessionEntry) (r r' : Registry), s.server.ssMap id = some ss ∧
          ss.session.HelpersDone ∧ r.Represents s.server ∧ r.clear next id ss.tcpSock = some r' ∧
            r'.Represents s'.server := by
  obtain ⟨s, rfl, hs, -⟩ := server_run hok hrun
  exact ⟨s, rfl, fun k env next s' es' id ha h hcleared => hs.step_clear ha h hcleared⟩

end ServerThreads

end Gdnp
