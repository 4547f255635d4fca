import Gdnp.Mixing

/-!
# The read loops of a client

`send_negotiate` and `do_negotiate` repeat `read_pdu` until `actual_session_id` is the session id of
the client.  Only the first read after a WAIT_MSG has its return code tested: where another read
fails, the loop reads on, or takes an `actual_session_id` that was never set for that of a message.
So a run passes on only messages, and ends at the first failing read, exactly when no read fails
but the one that is tested (`passesOn_iff`).
-/

open CMem

namespace Gdnp

/-- What `read_pdu` gets, if it succeeds. -/
def ReadEnv.message? : ReadEnv → Option (UInt32 × Content)
  | fail => none
  | pdu msg => match decode (some msg) with
    | .ok d => some (d.sessionId, ⟨d.type, d.data⟩)
    | .error _ => none

/-- What follows a call of `read_pdu`. -/
inductive AfterRead where
  | readPdu
  | doNegotiate (c : Content)
  | ret (rtnval : Errno)
  deriving DecidableEq

/-- A call of `read_pdu`: what it got, and what follows it. -/
structure ReadCall where
  message : Option (UInt32 × Content)
  next : AfterRead
  deriving DecidableEq

/-- `do_negotiate` is called on messages of the session only, and the first read that fails is the
last one and leads to an error. -/
def PassesOn (sessionId : UInt32) (rs : List ReadCall) : Prop :=
  (∀ r ∈ rs, ∀ c, r.next = .doNegotiate c → r.message = some (sessionId, c)) ∧
    ∀ rs₁ r rs₂, rs = rs₁ ++ r :: rs₂ → r.message = none →
      rs₂ = [] ∧ ∃ e, e ≠ .success ∧ r.next = .ret e

namespace Client

def afterRead (c : Client) : AfterRead :=
  match c.pc with
  | .doNegotiate type => .doNegotiate ⟨type, c.buffer⟩
  | .ret rtnval => .ret rtnval
  | _ => .readPdu

/-- The call of `read_pdu` in a step. -/
def readCalls (c : Client) (env : ClientEnv) (_ : List ClientEvent) : List ReadCall :=
  match c.pc with
  | .read type actual site =>
    [⟨env.read.message?, (c.readPdu type actual site env.read).1.afterRead⟩]
  | _ => []

/-- The negotiation thread with its calls of `read_pdu`. -/
def readMachine (o : ByteOrder) : EventMachine Client ClientEnv ReadCall :=
  (machine o).relabel readCalls

/-- A read fails only where its return code is tested. -/
def FailsTested (c : Client) (env : ClientEnv) : Prop :=
  match c.pc with
  | .read _ _ site => env.read.message? = none → site = .wait
  | _ => True

instance (c : Client) (env : ClientEnv) : Decidable (c.FailsTested env) :=
  show Decidable (match c.pc with | .read _ _ _ => _ | _ => _) from
    match c.pc with
    | .read _ _ _ => inferInstanceAs (Decidable (_ → _))
    | .idle | .sendTcp | .connect | .retry | .request | .doNegotiate _ | .ret _ =>
      inferInstanceAs (Decidable True)

end Client

/-! ### One call -/

/-- A call of `read_pdu` is right by itself. -/
structure ReadCall.Right (sessionId : UInt32) (r : ReadCall) : Prop where
  message : ∀ c, r.next = .doNegotiate c → r.message = some (sessionId, c)
  fails : r.message = none → ∃ e, e ≠ .success ∧ r.next = .ret e

theorem passesOn_cons_iff {sessionId : UInt32} {r : ReadCall} {rs : List ReadCall}
    (hlast : ∀ e, r.next = .ret e → rs = []) :
    PassesOn sessionId (r :: rs) ↔ r.Right sessionId ∧ PassesOn sessionId rs := by
  constructor
  · rintro ⟨hmessage, hfails⟩
    refine ⟨⟨hmessage r List.mem_cons_self, fun hnone => (hfails [] r rs rfl hnone).2⟩, ?_, ?_⟩
    · exact fun r' hr' => hmessage r' (List.mem_cons_of_mem r hr')
    · rintro rs₁ r' rs₂ rfl hnone
      exact hfails (r :: rs₁) r' rs₂ rfl hnone
  · rintro ⟨⟨hmessage, hfails⟩, hmessages, hrest⟩
    refine ⟨List.forall_mem_cons.2 ⟨hmessage, hmessages⟩, fun rs₁ r' rs₂ heq hnone => ?_⟩
    cases rs₁ with
    | nil =>
      obtain ⟨rfl, rfl⟩ := List.cons.inj heq
      obtain ⟨e, he, hnext⟩ := hfails hnone
      exact ⟨hlast e hnext, e, he, hnext⟩
    | cons r'' rs₁ =>
      obtain ⟨rfl, rfl⟩ := List.cons.inj heq
      exact hrest rs₁ r' rs₂ rfl hnone

namespace Client

variable {o : ByteOrder} {env : ClientEnv} {c c' : Client} {rs : List ReadCall}

theorem afterRead_readDone (type : MsgType) (actual : UInt32) (site : ReadSite) :
    (c.readDone type actual site).1.afterRead =
      if actual ≠ c.sessionId then .readPdu else .doNegotiate ⟨type, c.buffer⟩ := by
  unfold readDone
  split_ifs <;> rfl

/-- A successful read is repeated or passed on. -/
theorem afterRead_of_message {type : MsgType} {actual sessionId : UInt32} {site : ReadSite}
    {read : ReadEnv} {m : Content} (h : read.message? = some (sessionId, m)) :
    (c.readPdu type actual site read).1.afterRead =
      if sessionId ≠ c.sessionId then .readPdu else .doNegotiate m := by
  unfold ReadEnv.message? at h
  cases read with
  | fail => cases h
  | pdu msg =>
    dsimp only at h
    cases hd : decode (some msg) with
    | error e =>
      rw [hd] at h
      cases h
    | ok d =>
      rw [hd] at h
      obtain ⟨rfl, rfl⟩ := Prod.mk.inj (Option.some.inj h)
      unfold readPdu
      simp only [hd]
      exact afterRead_readDone d.type d.sessionId site

theorem afterRead_readDone_ne {type : MsgType} {actual : UInt32} {site : ReadSite} (e : Errno) :
    (c.readDone type actual site).1.afterRead ≠ .ret e := by
  rw [afterRead_readDone]
  split_ifs <;> exact AfterRead.noConfusion

/-- A failed read is repeated or passed on, unless it is tested. -/
theorem afterRead_of_fails {type : MsgType} {actual : UInt32} {site : ReadSite} {read : ReadEnv}
    (h : read.message? = none) :
    (∃ e, e ≠ .success ∧ (c.readPdu type actual site read).1.afterRead = .ret e) ↔
      site = .wait := by
  unfold ReadEnv.message? at h
  unfold readPdu
  cases read with
  | fail =>
    dsimp only
    split_ifs with hsite
    · exact iff_of_true ⟨.recvErr, by decide, rfl⟩ hsite
    · exact iff_of_false (fun ⟨e, _, he⟩ => afterRead_readDone_ne e he) hsite
  | pdu msg =>
    dsimp only at h
    cases hd : decode (some msg) with
    | ok d =>
      rw [hd] at h
      cases h
    | error e =>
      simp only [hd]
      split_ifs with hsite
      · exact iff_of_true ⟨e, ne_success_of_decode hd, rfl⟩ hsite
      · exact iff_of_false (fun ⟨e, _, he⟩ => afterRead_readDone_ne e he) hsite

/-- A call of `read_pdu` is right exactly when it succeeds or its return code is tested. -/
theorem right_iff {type : MsgType} {actual : UInt32} {site : ReadSite} {read : ReadEnv} :
    ReadCall.Right c.sessionId
        ⟨read.message?, (c.readPdu type actual site read).1.afterRead⟩ ↔
      (read.message? = none → site = .wait) := by
  constructor
  · intro hright hnone
    exact (afterRead_of_fails hnone).1 (hright.fails hnone)
  · intro hsite
    refine ⟨fun m hnext => ?_, fun hnone => (afterRead_of_fails hnone).2 (hsite hnone)⟩
    cases hmessage : read.message? with
    | none =>
      have hret : ∃ e, e ≠ .success ∧ (c.readPdu type actual site read).1.afterRead = .ret e :=
        (afterRead_of_fails hmessage).2 (hsite hmessage)
      obtain ⟨e, -, he⟩ := hret
      rw [he] at hnext
      cases hnext
    | some sm =>
      obtain ⟨sessionId, m'⟩ := sm
      rw [afterRead_of_message hmessage] at hnext
      split_ifs at hnext with hid
      cases hnext
      rw [not_not.1 hid]

/-! ### The runs -/

theorem afterRead_eq_ret {e : Errno} (h : c.afterRead = .ret e) : c.pc = .ret e := by
  unfold afterRead at h
  split at h <;> cases h
  assumption

theorem readMachine_step_of_read {type : MsgType} {actual : UInt32} {site : ReadSite}
    (hpc : c.pc = .read type actual site) (h : (readMachine o).step c env = some (c', rs)) :
    c' = (c.readPdu type actual site env.read).1 ∧
      rs = [⟨env.read.message?, (c.readPdu type actual site env.read).1.afterRead⟩] := by
  obtain ⟨es, hstep, rfl⟩ := EventMachine.relabel_step_iff.1 h
  replace hstep : c.step o env = some (c', es) := hstep
  rw [step, hpc] at hstep
  rw [readCalls, hpc]
  exact ⟨(congrArg Prod.fst (Option.some.inj hstep)).symm, rfl⟩

theorem readMachine_step_of_ne (hpc : ∀ type actual site, c.pc ≠ .read type actual site)
    (h : (readMachine o).step c env = some (c', rs)) : rs = [] ∧ c.FailsTested env := by
  obtain ⟨es, -, rfl⟩ := EventMachine.relabel_step_iff.1 h
  unfold readCalls FailsTested
  cases hc : c.pc with
  | read type actual site => exact absurd hc (hpc type actual site)
  | _ => exact ⟨rfl, trivial⟩

/-- Once `send_negotiate` has returned, nothing more is read. -/
theorem readMachine_run_of_ret {e : Errno} {envs : List ClientEnv} (hpc : c.pc = .ret e)
    (hrun : (readMachine o).run c envs = some (c', rs)) : rs = [] := by
  refine (EventMachine.run_invariant_trace (t := [])
    (P := fun c t => (c.pc = .idle ∨ ∃ e, c.pc = .ret e) ∧ t = [])
    (fun c t env c' rs hc h => ?_) ⟨.inr ⟨e, hpc⟩, rfl⟩ hrun).2
  obtain ⟨hidle | ⟨e, hret⟩, rfl⟩ := hc
  · obtain ⟨es, hstep, -⟩ := EventMachine.relabel_step_iff.1 h
    exact absurd hidle (pc_ne_idle hstep)
  · obtain ⟨es, hstep, rfl⟩ := EventMachine.relabel_step_iff.1 h
    replace hstep : c.step o env = some (c', es) := hstep
    rw [step, hret] at hstep
    rw [readCalls, hret]
    cases hstep
    exact ⟨.inl rfl, rfl⟩

/-- A run passes on only messages and ends at the first failing read exactly when the only reads
that fail are first reads after a WAIT_MSG. -/
theorem passesOn_iff {envs : List ClientEnv}
    (hrun : (readMachine o).run c envs = some (c', rs)) :
    PassesOn c.sessionId rs ↔ (readMachine o).Guarded FailsTested c envs := by
  induction envs generalizing c rs with
  | nil =>
    obtain ⟨-, rfl⟩ := EventMachine.run_nil_iff.1 hrun
    exact iff_of_true ⟨by simp, by simp⟩ trivial
  | cons env envs ih =>
    obtain ⟨c₁, rs₁, rs₂, hstep, hrest, rfl⟩ := EventMachine.run_cons_iff.1 hrun
    have hid : c₁.sessionId = c.sessionId := by
      obtain ⟨es, hstep', -⟩ := EventMachine.relabel_step_iff.1 hstep
      exact step_sessionId hstep'
    rw [EventMachine.guarded_cons_iff hstep, ← ih hrest, hid]
    by_cases hpc : ∃ type actual site, c.pc = .read type actual site
    · obtain ⟨type, actual, site, hpc⟩ := hpc
      obtain ⟨rfl, rfl⟩ := readMachine_step_of_read hpc hstep
      have htested : c.FailsTested env ↔ (env.read.message? = none → site = .wait) := by
        rw [FailsTested, hpc]
      rw [htested, ← right_iff (c := c)]
      exact passesOn_cons_iff fun e he => readMachine_run_of_ret (afterRead_eq_ret he) hrest
    · push Not at hpc
      obtain ⟨rfl, htested⟩ := readMachine_step_of_ne hpc hstep
      rw [List.nil_append, and_iff_right htested]

section Samples

set_option maxRecDepth 8000

/-- The first read after a request fails, and is repeated. -/
theorem not_passesOn :
    ¬ ∀ (o : ByteOrder) (c c' : Client) (envs : List ClientEnv) (rs : List ReadCall),
      (readMachine o).run c envs = some (c', rs) → PassesOn c.sessionId rs := by
  intro h
  obtain ⟨c', hrun⟩ : ∃ c', (readMachine .little).run
      ((new (CharArray.zero _)).negotiate .little 7 valueA 5 0)
      (List.replicate 4 (sample .fail false)) = some (c', [⟨none, .readPdu⟩]) := ⟨_, rfl⟩
  obtain ⟨-, e, -, he⟩ := (h _ _ c' _ _ hrun).2 [] _ [] rfl rfl
  cases he

/-- A server declines the request. -/
theorem passesOn_decline :
    ∃ c' rs, (readMachine .little).run ((new (CharArray.zero _)).negotiate .little 7 valueA 5 0)
        ([.fail, .fail, .fail, ApiClient.ending 7 (declineOption.toBits .little), .fail, .fail].map
          (sample · false)) = some (c', rs) ∧
      (PassesOn 7 rs ↔ (readMachine .little).Guarded FailsTested
        ((new (CharArray.zero _)).negotiate .little 7 valueA 5 0)
        ([.fail, .fail, .fail, ApiClient.ending 7 (declineOption.toBits .little), .fail, .fail].map
          (sample · false))) ∧ rs.length = 1 := by
  have hsample : ((readMachine .little).run
      ((new (CharArray.zero _)).negotiate .little 7 valueA 5 0)
      ([.fail, .fail, .fail, ApiClient.ending 7 (declineOption.toBits .little), .fail, .fail].map
        (sample · false))).map (fun r => r.2.length) = some 1 := by
    decide +kernel
  obtain ⟨⟨c', rs⟩, hrun, hlength⟩ := Option.map_eq_some_iff.1 hsample
  exact ⟨c', rs, hrun, passesOn_iff hrun, hlength⟩

end Samples

end Client

end Gdnp
