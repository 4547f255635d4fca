import Gdnp.Mixing

/-!
# Connecting

`send_negotiate` connects with `client_tcp_init`, and tries again as long as that returns an error.
But `client_tcp_init` returns SUCCESS where `connect` fails, so there is one attempt and the request
is written after it: the discipline of the retries is kept exactly when the first `connect` succeeds
(`disciplined_iff`).

`inetPton` stands for `inet_pton`, and `inetNtop` for `inet_ntop`.
-/

open CMem

namespace Gdnp

/-- `client_tcp_init`, when `connect` succeeds or fails. -/
def clientTcpInit (inetPton : CString → Option (BitVec 128)) (serverIP : CString)
    (connected : Bool) : Errno :=
  if inetPton serverIP = none then .error
  -- The failure of `connect` is reported on the console only.
  else if connected then .success else .success

inductive ConnectEvent where
  /-- `client_tcp_init` is called, and `connect` succeeds or fails. -/
  | connect (connected : Bool)
  /-- `write_pdu` is called on the request. -/
  | write
  | ret (rtnval : Errno)
  deriving DecidableEq

def ConnectEvent.isConnect : ConnectEvent → Bool
  | connect _ => true
  | _ => false

namespace Client

/-- What a step to the state `c'` does about the connection. -/
def connectEvents (c : Client) (connected : Bool) (c' : Client) : List ConnectEvent :=
  (match c.pc with
    | .connect => [.connect connected]
    | .retry => if c.tryTimes < maxTryTimes then [.connect connected] else []
    | .request => if c.loopCount = 0 then [] else [.write]
    | _ => []) ++
  match c'.pc with
  | .ret rtnval => [.ret rtnval]
  | _ => []

/-- `send_negotiate` to the address `addr`; an action gives the outcome of `connect` with the other
inputs of the step. -/
def connectMachine (o : ByteOrder) (inetPton : CString → Option (BitVec 128))
    (inetNtop : BitVec 128 → CString) (addr : BitVec 128) :
    EventMachine Client (Bool × ClientEnv) ConnectEvent :=
  ⟨fun c a => (c.step o { a.2 with tcpInit := clientTcpInit inetPton (inetNtop addr) a.1 }).map
    fun r => (r.1, c.connectEvents a.1 r.1)⟩

/-- Only after a successful attempt is the request written, the attempts end with the first that is
successful, and if there is none they end with an error after the last retry. -/
structure Disciplined (c' : Client) (es : List ConnectEvent) : Prop where
  write : ∀ es₁ es₂, es = es₁ ++ .write :: es₂ → .connect true ∈ es₁
  stops : ∀ es₁ es₂, es = es₁ ++ .connect true :: es₂ → ∀ connected, .connect connected ∉ es₂
  attempts : es.countP ConnectEvent.isConnect ≤ maxTryTimes + 1
  fails : .connect true ∉ es → ¬ c'.pc.Setup →
    es.countP ConnectEvent.isConnect = maxTryTimes + 1 ∧ .write ∉ es ∧ .ret .error ∈ es

variable {o : ByteOrder} {inetPton : CString → Option (BitVec 128)}
  {inetNtop : BitVec 128 → CString} {addr : BitVec 128} {c c' : Client} {connected : Bool}
  {env : ClientEnv} {es : List ConnectEvent}

theorem clientTcpInit_eq_success (hvalid : (inetPton (inetNtop addr)).isSome) (connected : Bool) :
    clientTcpInit inetPton (inetNtop addr) connected = .success := by
  unfold clientTcpInit
  rw [if_neg (Option.isSome_iff_ne_none.1 hvalid)]
  split_ifs <;> rfl

/-- The first attempt leads to the request. -/
theorem connectMachine_step_connect (hvalid : (inetPton (inetNtop addr)).isSome)
    (hpc : c.pc = .connect)
    (h : (connectMachine o inetPton inetNtop addr).step c (connected, env) = some (c', es)) :
    c'.pc = .request ∧ es = [.connect connected] := by
  obtain ⟨⟨c₁, ces⟩, hstep, heq⟩ := Option.map_eq_some_iff.1 h
  obtain ⟨rfl, rfl⟩ := Prod.mk.inj heq
  rw [step, hpc] at hstep
  dsimp only at hstep
  rw [clientTcpInit_eq_success hvalid, if_neg (by decide)] at hstep
  cases hstep
  rw [connectEvents, hpc]
  exact ⟨rfl, rfl⟩

/-- There may be attempts to come. -/
def Connects (c : Client) : Prop := c.pc = .sendTcp ∨ c.pc = .connect ∨ c.pc = .retry

theorem not_connects_of_pc {pc : ClientPc} (hpc : c.pc = pc)
    (h : pc ≠ .sendTcp ∧ pc ≠ .connect ∧ pc ≠ .retry) : ¬ c.Connects := by
  unfold Connects
  rw [hpc]
  rintro (hsend | hconnect | hretry)
  · exact h.1 hsend
  · exact h.2.1 hconnect
  · exact h.2.2 hretry

/-- After the attempts there are no more. -/
theorem step_not_connects {ces : List ClientEvent} (h : c.step o env = some (c', ces))
    (hc : ¬ c.Connects) : ¬ c'.Connects := by
  by_cases hrequest : c.pc = .request
  · rw [step, hrequest] at h
    dsimp only at h
    split_ifs at h <;> cases h
    · exact not_connects_of_pc rfl (by simp)
    · exact not_connects_of_pc rfl (by simp)
    · exact not_connects_of_pc rfl (by simp)
  · cases step_cases h with
    | setup pc =>
      cases hpc : c.pc with
      | sendTcp => exact absurd (.inl hpc) hc
      | connect => exact absurd (.inr (.inl hpc)) hc
      | retry => exact absurd (.inr (.inr hpc)) hc
      | request => exact absurd hpc hrequest
      | _ =>
        rw [hpc] at pc
        exact pc.elim
    | requestFails pc | request pc => exact absurd pc hrequest
    | _ => exact not_connects_of_pc rfl (by simp)

theorem connect_notMem_connectEvents (hc : ¬ c.Connects) (b : Bool) :
    .connect b ∉ c.connectEvents connected c' := by
  intro hmem
  rcases List.mem_append.1 hmem with hmem | hmem
  · split at hmem
    case h_1 hpc => exact hc (.inr (.inl hpc))
    case h_2 hpc => exact hc (.inr (.inr hpc))
    case h_3 => split_ifs at hmem <;> simp at hmem
    case h_4 => cases hmem
  · split at hmem
    · simp at hmem
    · cases hmem

theorem connectMachine_run_not_connects {as : List (Bool × ClientEnv)} (hc : ¬ c.Connects)
    (hrun : (connectMachine o inetPton inetNtop addr).run c as = some (c', es)) (b : Bool) :
    .connect b ∉ es := by
  refine (EventMachine.run_invariant_trace (t := [])
    (P := fun c t => ¬ c.Connects ∧ .connect b ∉ t)
    (fun c t a c' es hc h => ?_) ⟨hc, by simp⟩ hrun).2
  obtain ⟨⟨c₁, ces⟩, hstep, heq⟩ := Option.map_eq_some_iff.1 h
  obtain ⟨rfl, rfl⟩ := Prod.mk.inj heq
  refine ⟨step_not_connects hstep hc.1, ?_⟩
  rw [List.mem_append]
  exact fun hmem => hmem.elim hc.2 (connect_notMem_connectEvents hc.1 b)

/-- The attempts are made as they should be exactly when the first one succeeds. -/
theorem disciplined_iff {as : List (Bool × ClientEnv)} (hvalid : (inetPton (inetNtop addr)).isSome)
    (hpc : c.pc = .connect)
    (hrun : (connectMachine o inetPton inetNtop addr).run c ((connected, env) :: as) =
      some (c', es))
    (hend : ¬ c'.pc.Setup) : Disciplined c' es ↔ connected = true := by
  obtain ⟨c₁, es₁, es₂, hstep, hrest, rfl⟩ := EventMachine.run_cons_iff.1 hrun
  obtain ⟨hpc₁, rfl⟩ := connectMachine_step_connect hvalid hpc hstep
  have hnone : ∀ b, .connect b ∉ es₂ :=
    connectMachine_run_not_connects (not_connects_of_pc hpc₁ (by simp)) hrest
  have hcount : es₂.countP ConnectEvent.isConnect = 0 := by
    rw [List.countP_eq_zero]
    intro e he hconnect
    cases e with
    | connect b => exact hnone b he
    | _ => cases hconnect
  rw [List.singleton_append]
  constructor
  · intro hdisciplined
    by_contra hfailed
    obtain rfl := Bool.eq_false_iff.2 hfailed
    have hno : .connect true ∉ .connect false :: es₂ := by
      rw [List.mem_cons]
      exact fun hmem => hmem.elim (by simp) (hnone true)
    obtain ⟨hattempts, -⟩ := hdisciplined.fails hno hend
    rw [List.countP_cons, hcount] at hattempts
    cases hattempts
  · rintro rfl
    refine ⟨fun es₁ es₃ heq => ?_, fun es₁ es₃ heq => ?_, ?_, fun hno => ?_⟩
    · cases es₁ with
      | nil => cases (List.cons.inj heq).1
      | cons e es₁ =>
        obtain ⟨rfl, -⟩ := List.cons.inj heq
        exact List.mem_cons_self
    · cases es₁ with
      | nil =>
        obtain ⟨-, rfl⟩ := List.cons.inj heq
        exact hnone
      | cons e es₁ =>
        obtain ⟨-, rfl⟩ := List.cons.inj heq
        exact absurd (List.mem_append_right _ List.mem_cons_self) (hnone true)
    · rw [List.countP_cons, hcount]
      decide
    · exact absurd List.mem_cons_self hno

section Samples

set_option maxRecDepth 8000

/-- A client with a request for the value `a`, before it connects. -/
def connecting : Client :=
  { (new (CharArray.zero _)).negotiate .little 7 valueA 5 0 with pc := .connect }

/-- A step in which `write` fails. -/
def unwritten : ClientEnv := { sample .fail false with write := ⟨.sendErr, 0⟩ }

/-- `connect` fails, and the request is written, which fails then. -/
theorem not_disciplined :
    ¬ ∀ (o : ByteOrder) (inetPton : CString → Option (BitVec 128))
        (inetNtop : BitVec 128 → CString) (addr : BitVec 128) (c c' : Client)
        (as : List (Bool × ClientEnv)) (es : List ConnectEvent),
      (inetPton (inetNtop addr)).isSome → c.pc = .connect →
      (connectMachine o inetPton inetNtop addr).run c as = some (c', es) → ¬ c'.pc.Setup →
      Disciplined c' es := by
  intro h
  obtain ⟨c', hrun, hpc⟩ : ∃ c', (connectMachine .little (fun _ => some 1) ApiClient.textOf 1).run
      connecting [(false, unwritten), (false, unwritten)] =
        some (c', [.connect false, .write, .ret .sendErr]) ∧ c'.pc = .ret .sendErr :=
    ⟨_, rfl, rfl⟩
  have hdisciplined := h _ _ _ _ _ c' _ _ rfl rfl hrun (by rw [hpc]; exact id)
  have hbefore : ConnectEvent.connect true ∈ [.connect false] :=
    hdisciplined.write [.connect false] [.ret .sendErr] rfl
  simp at hbefore

/-- `connect` succeeds. -/
theorem disciplined_connected :
    ∃ c', (connectMachine .little (fun _ => some 1) ApiClient.textOf 1).run connecting
        [(true, unwritten), (true, unwritten)] =
          some (c', [.connect true, .write, .ret .sendErr]) ∧
      (Disciplined c' [.connect true, .write, .ret .sendErr] ↔ true = true) := by
  obtain ⟨c', hrun, hpc⟩ : ∃ c', (connectMachine .little (fun _ => some 1) ApiClient.textOf 1).run
      connecting [(true, unwritten), (true, unwritten)] =
        some (c', [.connect true, .write, .ret .sendErr]) ∧ c'.pc = .ret .sendErr :=
    ⟨_, rfl, rfl⟩
  exact ⟨c', hrun, disciplined_iff rfl rfl hrun (by rw [hpc]; exact id)⟩

end Samples

end Client

end Gdnp
