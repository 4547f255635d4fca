import Gdnp.Server

/-!
# Delivery to the sessions

A session is created by a REQUEST_MSG with an unknown id, and every later message with its id that
is no REQUEST_MSG goes to its queue.  Whatever calls of `distribute` and steps of the sessions
follow each other, a session in the table has popped or still holds exactly these messages, in the
order of their arrival (`delivered_in_order`).
-/

open CMem

namespace Gdnp

/-- A message that `distribute` is given, with a payload that fits into `content`. -/
structure Arrival where
  type : MsgType
  buffer : List UInt8
  fits : buffer.length ≤ maxStringLength

/-- The item of a queue has the type and the payload of a message. -/
def Content.MadeFrom (c : Content) (m : Arrival) : Prop :=
  c.type = m.type ∧ c.data.bytes.take m.buffer.length = m.buffer

inductive DeliveryAct where
  | distribute (sessionId : UInt32) (m : Arrival) (uninit : CharArray maxStringLength)
      (last : Content)
  | session (sessionId : UInt32) (a : SessionAct)

/-- The message, if it is meant for the queue of a session. -/
def DeliveryAct.arrived? (sessionId : UInt32) : DeliveryAct → Option Arrival
  | distribute id m _ _ => if id = sessionId ∧ m.type ≠ .requestMsg then some m else none
  | session _ _ => none

/-- The message that a session popped. -/
def MasterEvent.popped? (sessionId : UInt32) : MasterEvent → Option Content
  | session id _ e => if id = sessionId then (ServerSession.popped? e).map Prod.fst else none
  | _ => none

theorem Content.madeFrom_memcpy (m : Arrival) (uninit : CharArray maxStringLength) :
    MadeFrom ⟨m.type, uninit.memcpy m.buffer⟩ m := by
  refine ⟨rfl, ?_⟩
  rw [uninit.memcpy_bytes_of_le m.fits]
  exact List.take_left

/-- A session that gets no message takes from the front of its queue what it pops. -/
theorem ServerSession.step_queue {o : ByteOrder} {s s' : ServerSession} {a : SessionAct}
    {es : List SessionEvent} (h : s.step o a = some (s', es)) (ha : ∀ c, a ≠ .push c) :
    (es.filterMap popped?).map Prod.fst ++ s'.q = s.q := by
  cases a with
  | push c => exact absurd rfl (ha c)
  | run env =>
    have h' : s.runStep o env = some (s', es) := h
    cases runStep_cases h' with
    | popSkip pc hq hf => exact hq.symm
    | pop pc hq hf => exact hq.symm
    | _ => rfl
  | wait k env =>
    obtain ⟨t, t', -, hstep, rfl⟩ := step_wait_iff.1 h
    obtain rfl | ⟨msg, rfl, -⟩ := waitStep_events hstep <;> rfl
  | ends k =>
    obtain ⟨t, t', s₁, -, hstep, rfl, rfl⟩ := step_ends_iff.1 h
    obtain rfl | rfl | ⟨-, rfl⟩ := endStep_cases hstep <;> rfl

namespace ServerMaster

/-- The table of sessions as a machine: `distribute` is called with any messages, while the
sessions run. -/
def delivery (o : ByteOrder) : EventMachine ServerMaster DeliveryAct MasterEvent where
  step
    | sm, .distribute sessionId m uninit last =>
      some (sm.distribute sessionId m.buffer m.type uninit last)
    | sm, .session sessionId a => sm.step o (.session sessionId a)

variable {o : ByteOrder} {sm sm' : ServerMaster} {a : DeliveryAct} {es : List MasterEvent}
  {sessionId : UInt32} {ss ss' : SessionEntry}

/-- A REQUEST_MSG for an existing session, and any other message for none, change nothing. -/
theorem distribute_rejects {type : MsgType} (h : type = .requestMsg ↔ (sm.ssMap sessionId).isSome)
    (buffer : List UInt8) (uninit : CharArray maxStringLength) (last : Content) :
    sm.distribute sessionId buffer type uninit last = (sm, []) := by
  unfold distribute
  cases hss : sm.ssMap sessionId with
  | some ss => exact if_pos (h.2 (by rw [hss]; rfl))
  | none => exact if_pos fun ht => by simpa [hss] using h.1 ht

theorem distribute_ssMap_of_ne {id : UInt32} (h : id ≠ sessionId) (buffer : List UInt8)
    (type : MsgType) (uninit : CharArray maxStringLength) (last : Content) :
    (sm.distribute sessionId buffer type uninit last).1.ssMap id = sm.ssMap id := by
  unfold distribute
  split <;> split_ifs
  · rfl
  · exact setEntry_ssMap_of_ne h
  · rfl
  · exact setEntry_ssMap_of_ne h

/-- A session that a step leaves in the table: the queue it had before, without what is popped,
with what arrives. -/
def Continues (sessionId : UInt32) (ss ss' : SessionEntry) (a : DeliveryAct)
    (es : List MasterEvent) : Prop :=
  .cleared sessionId ∉ es ∧
    ∃ cs, es.filterMap (MasterEvent.popped? sessionId) ++ ss'.session.q = ss.session.q ++ cs ∧
      List.Forall₂ Content.MadeFrom cs ([a].filterMap (DeliveryAct.arrived? sessionId))

theorem Continues.refl (ha : a.arrived? sessionId = none) (hcleared : .cleared sessionId ∉ es)
    (hpopped : es.filterMap (MasterEvent.popped? sessionId) = []) :
    Continues sessionId ss ss a es := by
  refine ⟨hcleared, [], by rw [hpopped, List.append_nil, List.nil_append], ?_⟩
  rw [List.filterMap_cons_none ha]
  exact .nil

theorem filterMap_popped?_session (id : UInt32) (tcpSock : ℤ) (es' : List SessionEvent) :
    (es'.map (.session id tcpSock)).filterMap (MasterEvent.popped? sessionId) =
      if id = sessionId then (es'.filterMap ServerSession.popped?).map Prod.fst else [] := by
  rw [List.filterMap_map]
  split_ifs with hid
  · rw [List.map_filterMap]
    exact List.filterMap_congr fun e _ => if_pos hid
  · rw [List.filterMap_eq_nil_iff]
    exact fun e _ => if_neg hid

/-- A message creates its session, goes to its queue, or leaves the session as it is. -/
theorem distribute_entry {id : UInt32} {m : Arrival} {uninit : CharArray maxStringLength}
    {last : Content} (h : sm.distribute id m.buffer m.type uninit last = (sm', es))
    (hss' : sm'.ssMap sessionId = some ss') :
    (id = sessionId ∧ m.type = .requestMsg ∧ sm.ssMap sessionId = none ∧
      .cleared sessionId ∉ es ∧ es.filterMap (MasterEvent.popped? sessionId) = [] ∧
      ss'.session.q = [⟨m.type, uninit.memcpy m.buffer⟩]) ∨
    ∃ ss, sm.ssMap sessionId = some ss ∧
      Continues sessionId ss ss' (.distribute id m uninit last) es := by
  have harrived : ¬ (id = sessionId ∧ m.type ≠ .requestMsg) →
      (DeliveryAct.distribute id m uninit last).arrived? sessionId = none := fun hn => if_neg hn
  unfold distribute at h
  split at h
  case h_1 ss hss =>
    split_ifs at h with ht <;> cases h
    · exact .inr ⟨ss', hss', .refl (harrived fun hn => hn.2 ht) (by simp) rfl⟩
    · obtain ⟨rfl, rfl⟩ | ⟨hid, hss'⟩ := setEntry_ssMap_eq_some.1 hss'
      · refine .inr ⟨ss, hss, by simp, [⟨m.type, uninit.memcpy m.buffer⟩], rfl, ?_⟩
        have hm : (DeliveryAct.distribute sessionId m uninit last).arrived? sessionId = some m :=
          if_pos ⟨rfl, ht⟩
        rw [List.filterMap_cons_some hm]
        exact .cons (Content.madeFrom_memcpy m uninit) .nil
      · exact .inr ⟨ss', hss', .refl (harrived fun hn => hid hn.1.symm) (by simp) rfl⟩
  case h_2 hss =>
    split_ifs at h with ht <;> cases h
    · have hid : id ≠ sessionId := by
        rintro rfl
        cases hss.symm.trans hss'
      exact .inr ⟨ss', hss', .refl (harrived fun hn => hid hn.1) (by simp) rfl⟩
    · obtain ⟨rfl, rfl⟩ | ⟨hid, hss'⟩ := setEntry_ssMap_eq_some.1 hss'
      · exact .inl ⟨rfl, not_not.1 ht, hss, by simp, rfl, rfl⟩
      · exact .inr ⟨ss', hss', .refl (harrived fun hn => hid hn.1.symm) (by simp) rfl⟩

/-- A thread of a session pops from the front of its queue. -/
theorem session_entry {id : UInt32} {b : SessionAct}
    (h : sm.step o (.session id b) = some (sm', es)) (hss' : sm'.ssMap sessionId = some ss') :
    ∃ ss, sm.ssMap sessionId = some ss ∧ Continues sessionId ss ss' (.session id b) es := by
  have hpush : ∀ c, b ≠ .push c := by
    rintro c rfl
    cases h
  obtain ⟨rfl, hmap, -⟩ | ⟨ss, s', es', hss, hstep, rfl, rfl⟩ := sessionStep_cases (step_session h)
  · have hid : sessionId ≠ id := by
      rintro rfl
      rw [hmap, Function.update_self] at hss'
      cases hss'
    rw [hmap, Function.update_of_ne hid] at hss'
    exact ⟨ss', hss', .refl rfl (by simpa using hid) rfl⟩
  · have hcleared : .cleared sessionId ∉ es'.map (MasterEvent.session id ss.tcpSock) := by simp
    obtain ⟨rfl, rfl⟩ | ⟨hid, hss'⟩ := setEntry_ssMap_eq_some.1 hss'
    · refine ⟨ss, hss, hcleared, [], ?_, .nil⟩
      rw [List.append_nil, filterMap_popped?_session, if_pos rfl]
      exact ServerSession.step_queue hstep hpush
    · refine ⟨ss', hss', .refl rfl hcleared ?_⟩
      rw [filterMap_popped?_session, if_neg (Ne.symm hid)]

theorem delivery_entry (h : (delivery o).step sm a = some (sm', es))
    (hss' : sm'.ssMap sessionId = some ss') :
    (∃ m uninit last, a = .distribute sessionId m uninit last ∧ m.type = .requestMsg ∧
      sm.ssMap sessionId = none ∧ .cleared sessionId ∉ es ∧
      es.filterMap (MasterEvent.popped? sessionId) = [] ∧
      ss'.session.q = [⟨m.type, uninit.memcpy m.buffer⟩]) ∨
    ∃ ss, sm.ssMap sessionId = some ss ∧ Continues sessionId ss ss' a es := by
  cases a with
  | distribute id m uninit last =>
    obtain ⟨rfl, hcreated⟩ | hcontinues := distribute_entry (Option.some.inj h) hss'
    · exact .inl ⟨m, uninit, last, rfl, hcreated⟩
    · exact .inr hcontinues
  | session id b => exact .inr (session_entry h hss')

/-- A session in the table was created by a REQUEST_MSG when there was none with its id, and has
not been cleared since.  What it popped since then and what is in its queue are the REQUEST_MSG and
the later messages with its id that are no REQUEST_MSGs, in the order of their arrival. -/
def Delivered (o : ByteOrder) (sm₀ : ServerMaster) (sessionId : UInt32) (ss : SessionEntry)
    (as : List DeliveryAct) (es : List MasterEvent) : Prop :=
  ∃ before after m uninit last sm₁ es₁ es₂,
    as = before ++ .distribute sessionId m uninit last :: after ∧ m.type = .requestMsg ∧
    (delivery o).run sm₀ before = some (sm₁, es₁) ∧ sm₁.ssMap sessionId = none ∧
    es = es₁ ++ es₂ ∧ .cleared sessionId ∉ es₂ ∧
    List.Forall₂ Content.MadeFrom
      (es₂.filterMap (MasterEvent.popped? sessionId) ++ ss.session.q)
      (m :: after.filterMap (DeliveryAct.arrived? sessionId))

theorem Delivered.step {sm₀ : ServerMaster} {as : List DeliveryAct} {t : List MasterEvent}
    (hs : Delivered o sm₀ sessionId ss as t) (h : Continues sessionId ss ss' a es) :
    Delivered o sm₀ sessionId ss' (as ++ [a]) (t ++ es) := by
  obtain ⟨before, after, m, uninit, last, sm₁, es₁, es₂, rfl, hm, hbefore, hnone, rfl, hcleared,
    hq⟩ := hs
  obtain ⟨hcleared', cs, hqueue, hcs⟩ := h
  refine ⟨before, after ++ [a], m, uninit, last, sm₁, es₁, es₂ ++ es, by simp, hm, hbefore, hnone,
    List.append_assoc .., ?_, ?_⟩
  · rw [List.mem_append, not_or]
    exact ⟨hcleared, hcleared'⟩
  · rw [List.filterMap_append, List.filterMap_append, List.append_assoc, hqueue,
      ← List.append_assoc, ← List.cons_append]
    exact List.rel_append hq hcs

section Runs

variable {udpSock : ℤ} {localInterfaces : List CString} {fds : ℕ → ℤ} {as : List DeliveryAct}

/-- Whatever calls of `distribute` and steps of the sessions follow each other, each session gets
the messages with its id in order, the others stay as they are, and what is rejected changes
nothing. -/
theorem delivered_in_order
    (hrun : (delivery o).run (start udpSock localInterfaces fds) as = some (sm, es)) :
    (∀ sessionId ss, sm.ssMap sessionId = some ss →
      Delivered o (start udpSock localInterfaces fds) sessionId ss as es) ∧
    (∀ sessionId (m : Arrival) uninit last,
      (m.type = .requestMsg ↔ (sm.ssMap sessionId).isSome) →
      sm.distribute sessionId m.buffer m.type uninit last = (sm, [])) ∧
    ∀ sessionId (m : Arrival) uninit last id, id ≠ sessionId →
      (sm.distribute sessionId m.buffer m.type uninit last).1.ssMap id = sm.ssMap id := by
  refine ⟨?_, fun sessionId m uninit last h => distribute_rejects h ..,
    fun sessionId m uninit last id hid => distribute_ssMap_of_ne hid ..⟩
  have hinv : (delivery o).run (start udpSock localInterfaces fds) as = some (sm, es) ∧
      ∀ sessionId ss, sm.ssMap sessionId = some ss →
        Delivered o (start udpSock localInterfaces fds) sessionId ss as es := by
    refine EventMachine.run_invariant_history (l := []) (t := [])
      (P := fun l sm t => (delivery o).run (start udpSock localInterfaces fds) l = some (sm, t) ∧
        ∀ sessionId ss, sm.ssMap sessionId = some ss →
          Delivered o (start udpSock localInterfaces fds) sessionId ss l t) ?_
      ⟨rfl, fun _ _ h => by cases h⟩ hrun
    rintro l sm t a sm' es ⟨hl, hs⟩ h
    refine ⟨EventMachine.run_concat hl h, fun sessionId ss' hss' => ?_⟩
    obtain ⟨m, uninit, last, rfl, hm, hnone, hcleared, hpopped, hq⟩ | ⟨ss, hss, hcontinues⟩ :=
      delivery_entry h hss'
    · refine ⟨l, [], m, uninit, last, sm, t, es, rfl, hm, hl, hnone, rfl, hcleared, ?_⟩
      rw [hpopped, hq]
      exact .cons (Content.madeFrom_memcpy m uninit) .nil
    · exact (hs sessionId ss hss).step hcontinues
  exact hinv.2

end Runs

def sampleArrival (type : MsgType) : DeliveryAct :=
  .distribute 7 ⟨type, [1], by decide⟩ (CharArray.zero _) ⟨.requestMsg, CharArray.zero _⟩

/-- A session pops its REQUEST_MSG while a NEGO_MSG and a second REQUEST_MSG arrive. -/
theorem delivered_in_order_offer :
    ∃ sm es ss, (delivery .little).run (start 3 [] fun _ => 0)
        ([sampleArrival .negoMsg, sampleArrival .requestMsg, sampleArrival .negoMsg] ++
          List.replicate 4 (.session 7 (ServerSession.answer false)) ++
          [sampleArrival .requestMsg]) = some (sm, es) ∧
      sm.ssMap 7 = some ss ∧
      Delivered .little (start 3 [] fun _ => 0) 7 ss
        ([sampleArrival .negoMsg, sampleArrival .requestMsg, sampleArrival .negoMsg] ++
          List.replicate 4 (.session 7 (ServerSession.answer false)) ++
          [sampleArrival .requestMsg]) es := by
  have hsample : ((delivery .little).run (start 3 [] fun _ => 0)
      ([sampleArrival .negoMsg, sampleArrival .requestMsg, sampleArrival .negoMsg] ++
        List.replicate 4 (.session 7 (ServerSession.answer false)) ++
        [sampleArrival .requestMsg])).map (fun r => (r.1.ssMap 7).isSome) = some true := by
    decide +kernel
  obtain ⟨⟨sm, es⟩, hrun, hsome⟩ := Option.map_eq_some_iff.1 hsample
  obtain ⟨ss, hss⟩ := Option.isSome_iff_exists.1 hsome
  exact ⟨sm, es, ss, hrun, hss, (delivered_in_order hrun).1 7 ss hss⟩

end ServerMaster

end Gdnp
