import Gdnp.Lib.Destutter
import Gdnp.Lifelong

/-!
# What the duplicate filter keeps

As long as every message has a zero byte, a session takes of the messages it pops those that
`List.destutter'` keeps: each that does not look like the one taken before, the first one being
compared with what `last_content` held (`taken_eq_destutter`).  So a peer may repeat each message
in place as often as it likes: from the same `last_content` the session takes the same messages
(`taken_of_repeated`).
-/

open CMem

namespace Gdnp

namespace Content

/-- The filter tells the two messages apart. -/
def Unlike (c d : Content) : Prop := ¬ c.Alike d

instance : DecidableRel Unlike := fun c d => inferInstanceAs (Decidable (¬ c.Alike d))

theorem Alike.refl (c : Content) : c.Alike c := ⟨rfl, rfl⟩

theorem Alike.unlike_iff {c d : Content} (h : c.Alike d) (e : Content) :
    c.Unlike e ↔ d.Unlike e := by
  apply not_congr
  constructor
  · exact h.symm.trans
  · exact h.trans

end Content

open Content

namespace ServerSession

/-- The message that is popped and not skipped. -/
def taken? : SessionEvent → Option Content
  | .popped c false => some c
  | _ => none

theorem filterMap_taken? (es : List SessionEvent) :
    es.filterMap taken? =
      (es.filterMap popped?).filterMap fun p => if p.2 then none else some p.1 := by
  rw [List.filterMap_filterMap]
  apply List.filterMap_congr
  intro e _
  cases e with
  | popped c skipped => cases skipped <;> rfl
  | _ => rfl

/-- What the filter lets pass, message by message. -/
theorem filterAll_taken {last : Content} {ps : List (Content × Bool)}
    (h : filterAll last (ps.map Prod.fst) = some (ps.map Prod.snd)) :
    ps.filterMap (fun p => if p.2 then none else some p.1) =
      ((ps.map Prod.fst).destutter' Unlike last).tail := by
  induction ps generalizing last with
  | nil => rfl
  | cons p ps ih =>
    rw [List.map_cons, List.map_cons, filterAll_cons_iff] at h
    obtain ⟨skip, l, bs, hfilter, hrest, hbs⟩ := h
    obtain ⟨hskip, rfl⟩ := List.cons.inj hbs
    obtain ⟨hterm, hl, hiff⟩ := filter_eq_some hfilter
    rw [← hskip] at hiff
    have hih := ih hrest
    rw [List.tail_destutter'_congr (hl.symm.unlike_iff)] at hih
    rw [List.map_cons]
    cases hp : p.2 with
    | true =>
      have hlast := hiff.1 hp
      rw [List.filterMap_cons_none (by simp [hp]), hih,
        List.destutter'_cons_neg _ (not_not.2 hlast.symm),
        List.tail_destutter'_congr hlast.unlike_iff]
    | false =>
      have hnew : last.Unlike p.1 := by
        intro hlast
        rw [hiff.2 hlast.symm] at hp
        cases hp
      rw [List.filterMap_cons_some (b := p.1) (by simp [hp]), hih, List.destutter'_cons_pos _ hnew,
        List.tail_cons]
      exact (List.destutter'_eq_cons_tail _ _ _).symm

variable {o : ByteOrder} {s s' : ServerSession} {es : List SessionEvent} {as : List SessionAct}

/-- A session takes each message that does not look like the one taken before. -/
theorem taken_eq_destutter (hrun : (machine o).run s as = some (s', es))
    (hterm : ∀ p ∈ es.filterMap popped?, p.1.Terminated) :
    es.filterMap taken? =
      (((es.filterMap popped?).map Prod.fst).destutter' Unlike s.lastContent).tail := by
  rw [filterMap_taken?]
  exact filterAll_taken (run_popped hrun hterm)

/-- Two sessions whose `last_content` is the same at first (`hlast`), and that stay inside their
memory and pop the same messages, one of them each message any number of times in place, take the
same messages, whatever else happens in their runs. -/
theorem taken_of_repeated {o₁ o₂ : ByteOrder} {s₁ s₁' s₂ s₂' : ServerSession}
    {as₁ as₂ : List (SessionAct × List SessionEvent)} {es₁ es₂ : List SessionEvent}
    {reps : List (Content × ℕ)}
    (h₁ : (process o₁).run (some s₁) as₁ = some (some s₁', es₁))
    (h₂ : (process o₂).run (some s₂) as₂ = some (some s₂', es₂))
    (hlast : s₁.lastContent = s₂.lastContent)
    (hterm : ∀ p ∈ reps, p.1.Terminated)
    (hpopped₁ : (es₁.filterMap popped?).map Prod.fst = reps.map Prod.fst)
    (hpopped₂ : (es₂.filterMap popped?).map Prod.fst =
      reps.flatMap fun p => List.replicate (p.2 + 1) p.1) :
    es₁.filterMap taken? = es₂.filterMap taken? := by
  have hterm₁ : ∀ p ∈ es₁.filterMap popped?, p.1.Terminated := by
    intro p hp
    have hmem : p.1 ∈ reps.map Prod.fst := hpopped₁ ▸ List.mem_map_of_mem hp
    obtain ⟨q, hq, heq⟩ := List.mem_map.1 hmem
    exact heq ▸ hterm q hq
  have hterm₂ : ∀ p ∈ es₂.filterMap popped?, p.1.Terminated := by
    intro p hp
    have hmem := List.mem_map_of_mem (f := Prod.fst) hp
    rw [hpopped₂, List.mem_flatMap] at hmem
    obtain ⟨q, hq, heq⟩ := hmem
    exact List.eq_of_mem_replicate heq ▸ hterm q hq
  have hrun₁ := EventMachine.run_of_orUndefined h₁
  have hrun₂ := EventMachine.run_of_orUndefined h₂
  rw [taken_eq_destutter hrun₁ hterm₁, taken_eq_destutter hrun₂ hterm₂, hpopped₁, hpopped₂, hlast,
    List.destutter'_repeated]
  · exact fun c hc => hc (Alike.refl c)
  · exact fun c d hcd e => (not_not.1 hcd).unlike_iff e

/-- The client sends its counter-offer `k` times, and the session thread takes `n` steps. -/
def repeated (k n : ℕ) : List (SessionAct × List SessionEvent) :=
  (List.replicate k (SessionAct.push (offer .negoMsg .negotiation 3)) ++
    List.replicate n (answer false)).map (·, [])

theorem taken_of_repeated_offer :
    ∃ s₁ es₁ s₂ es₂,
      (process .little).run
          (some (new 0 (offer .requestMsg .negotiation 5) ⟨.requestMsg, CharArray.zero _⟩))
          (repeated 1 34) = some (some s₁, es₁) ∧
      (process .little).run
          (some (new 0 (offer .requestMsg .negotiation 5) ⟨.requestMsg, CharArray.zero _⟩))
          (repeated 3 42) = some (some s₂, es₂) ∧
      (es₂.filterMap popped?).length = 4 ∧ es₁.filterMap taken? = es₂.filterMap taken? := by
  have hsample₁ : ((process .little).run
      (some (new 0 (offer .requestMsg .negotiation 5) ⟨.requestMsg, CharArray.zero _⟩))
      (repeated 1 34)).bind (fun r => r.1.map fun _ => (r.2.filterMap popped?).map Prod.fst) =
      some [offer .requestMsg .negotiation 5, offer .negoMsg .negotiation 3] := by decide +kernel
  have hsample₂ : ((process .little).run
      (some (new 0 (offer .requestMsg .negotiation 5) ⟨.requestMsg, CharArray.zero _⟩))
      (repeated 3 42)).bind (fun r => r.1.map fun _ => (r.2.filterMap popped?).map Prod.fst) =
      some (offer .requestMsg .negotiation 5 ::
        List.replicate 3 (offer .negoMsg .negotiation 3)) := by decide +kernel
  simp only [Option.bind_eq_some_iff, Option.map_eq_some_iff] at hsample₁ hsample₂
  obtain ⟨⟨_, es₁⟩, hrun₁, s₁, rfl, hpopped₁⟩ := hsample₁
  obtain ⟨⟨_, es₂⟩, hrun₂, s₂, rfl, hpopped₂⟩ := hsample₂
  refine ⟨s₁, es₁, s₂, es₂, hrun₁, hrun₂, ?_, ?_⟩
  · have hlen := congrArg List.length hpopped₂
    simpa using hlen
  · have hterm : ∀ p ∈ [(offer .requestMsg .negotiation 5, 0), (offer .negoMsg .negotiation 3, 2)],
        p.1.Terminated := by decide +kernel
    exact taken_of_repeated hrun₁ hrun₂ rfl hterm hpopped₁ hpopped₂

end ServerSession

/-- The session took each message that does not look like the one taken before. -/
def SessionLife.TakesNew (l : SessionLife) : Prop :=
  (∀ c ∈ l.arrivals, c.Terminated) → l.did.filterMap ServerSession.taken? =
    (((l.did.filterMap ServerSession.popped?).map Prod.fst).destutter' Unlike l.birth.last).tail

namespace ServerThreads

/-- In every run of the process in which each session has its thread, a session that is given
messages with a zero byte only takes each message it pops that does not look like the one taken
before, and no other; the first one it compares with what the unset `last_content` holds. -/
theorem lives_take_new {o : ByteOrder} {udpSock : ℤ} {localInterfaces : List CString}
    {fds : ℕ → ℤ} {stack : ℕ → SessionRunParms} {as : List (ThreadsAct × List ThreadsEvent)}
    {t : Option ServerThreads} {es : List ThreadsEvent}
    (hok : (machine o).Guarded (Sound o) (start (.start udpSock localInterfaces fds) stack)
      (as.map Prod.fst))
    (hrun : (process o).run (some (start (.start udpSock localInterfaces fds) stack)) as =
      some (t, es)) :
    EachLife o t es fun _ l => l.TakesNew := by
  refine eachLife (fun sessionId l hl => ?_) hok hrun
  obtain ⟨bs, hbs, harrived, -⟩ := SessionLife.life_run hl
  intro hterm
  refine ServerSession.taken_eq_destutter hbs fun p hp => hterm p.1 ?_
  rw [← harrived, ← List.singleton_append, show [l.birth.request] ++ _ = _ from
    (ServerSession.run_queue hbs).symm]
  exact List.mem_append_left _ (List.mem_map_of_mem hp)

theorem lives_take_new_haggling :
    ∃ t es, (process .little).run (some sample) (haggling.map (·, [])) = some (t, es) ∧
      ((es.filterMap ThreadsEvent.master?).filterMap (MasterEvent.label 7)).length = 8 ∧
      EachLife .little t es fun _ l => l.TakesNew := by
  obtain ⟨t, es, hrun, hlen⟩ := haggling_run
  exact ⟨t, es, hrun, hlen, lives_take_new haggling_sound hrun⟩

end ServerThreads

end Gdnp
