import Gdnp.DiscoverResult

/-!
# Stray datagrams

A datagram that does not decode or has another session id is an error to `recv_in_time`.  The loop
of WAIT_RESPONSE goes on after an error, and nothing is left of the datagram but what `type` and
`buffer` hold, which are set again before they are read (`exec_setVars`).  The state WAIT has no
loop: there an error ends the discovery.  So a stray datagram changes nothing exactly when it comes
in WAIT_RESPONSE, or when the discovery would end with an error anyway (`stray_iff`).
-/

open CMem

namespace Gdnp

def DiscoverEvent.sentMsg? : DiscoverEvent → Option Msg
  | sent msg => some msg
  | _ => none

theorem DiscoverEvent.filterMap_ofSendDiscover (w : Errno × Option Msg) :
    (ofSendDiscover w).filterMap sentMsg? = w.2.toList := by
  obtain ⟨e, _ | msg⟩ := w <;> rfl

/-- The result of `discover`, with what it leaves in the client and has sent. -/
structure Discovered where
  rtnval : Errno
  negoAddr : SockAddr
  curStates : ClientState
  tryTimes : ℕ
  sent : List Msg
  deriving DecidableEq

namespace UdpClient

/-- What an execution of `discover` comes to, if it returns. -/
def discovered (r : UdpClient × List DiscoverEvent) : Option Discovered :=
  match r.1.discoverPc with
  | .ret rtnval => some
    { rtnval
      negoAddr := r.1.negoAddr
      curStates := r.1.curStates
      tryTimes := r.1.tryTimes
      sent := r.2.filterMap DiscoverEvent.sentMsg? }
  | _ => none

/-- The datagram does not decode or has another session id. -/
def Stray (c : UdpClient) (msg : Msg) : Prop :=
  ∀ d, decode (some msg) = .ok d → d.sessionId ≠ c.sessionId

/-- The next step is a `select`. -/
def Selects (c : UdpClient) : Prop :=
  c.discoverPc = .recvInWaitResponse ∨ ∃ inLoop, c.discoverPc = .recvInWait inLoop

/-- After WAIT_MSGs of its own, the client receives neither a RESPONSE_MSG nor a NEGO_END_MSG of its
own, and the wait does not time out either. -/
def WaitFails (c : UdpClient) : List DiscoverEnv → Prop
  | [] => False
  | env :: as => match c.ownMsg? env with
    | some d =>
      if d.type = .waitMsg then WaitFails c as else d.type ≠ .responseMsg ∧ d.type ≠ .negoEndMsg
    | none => env.select ≠ .timeout

variable {o : ByteOrder} {inetPton : CString → Option (BitVec 128)} {c c' : UdpClient}
  {env : DiscoverEnv} {es : List DiscoverEvent}

/-! ### Receiving -/

theorem ownMsg?_of_stray {msg : Msg} (hselect : env.select = .ready (some msg))
    (h : c.Stray msg) : c.ownMsg? env = none := by
  unfold ownMsg?
  rw [hselect]
  dsimp only
  cases hpdu : recvPdu c.udpSock (some msg) with
  | error e => rfl
  | ok d =>
    apply if_neg
    apply h
    unfold recvPdu at hpdu
    split_ifs at hpdu
    exact hpdu

/-- The values of `type` and `buffer` do not matter to `recv_in_time`. -/
theorem recvInTime_setVars (c : UdpClient) (env : DiscoverEnv) (type : MsgType)
    (message : CharArray maxStringLength) :
    (c.setVars type message).recvInTime env = c.recvInTime env ∨
      (c.recvInTime env).2.1 ≠ .success ∧ ∃ type' message',
        (c.setVars type message).recvInTime env =
          ((c.recvInTime env).1.setVars type' message', (c.recvInTime env).2) := by
  unfold recvInTime setVars
  cases env.select with
  | timeout => exact .inr ⟨by simp, type, message, rfl⟩
  | fail => exact .inr ⟨by simp, type, message, rfl⟩
  | ready pdu =>
    dsimp only
    cases hpdu : recvPdu c.udpSock pdu with
    | error e =>
      refine .inr ⟨ne_success_of_recvPdu hpdu, type, ?_⟩
      dsimp only
      split_ifs
      · exact ⟨_, rfl⟩
      · exact ⟨message, rfl⟩
    | ok d =>
      left
      rfl

/-! ### Values that are not read -/

/-- `type` and `buffer` are set before they are read. -/
def Unread (c : UdpClient) : Prop :=
  match c.discoverPc with
  | .recvInWaitResponse | .resend => c.curStates = .waitResponse
  | .received rtnval => rtnval ≠ .success
  | .recvInWait _ | .ret _ => True
  | _ => False

/-- The clients are the same up to values that are not read. -/
def Same (c c' : UdpClient) : Prop :=
  c' = c ∨ c.Unread ∧ ∃ type message, c' = c.setVars type message

section SetVars

variable {rtnval : Errno} (type : MsgType) (message : CharArray maxStringLength)

theorem loop_setVars : (c.setVars type message).loop rtnval =
    (c.loop rtnval).setVars type message := by
  unfold loop setVars
  split_ifs <;> rfl

theorem leaveWait_setVars (inLoop : Bool) : (c.setVars type message).leaveWait inLoop rtnval =
    (c.leaveWait inLoop rtnval).setVars type message := by
  cases inLoop with
  | true => exact loop_setVars type message
  | false => rfl

theorem send_setVars (c : UdpClient) (env : DiscoverEnv) (text : CString) :
    (c.setVars type message).send text env =
      ((c.send text env).1.setVars type message, (c.send text env).2) := by
  unfold send setVars
  cases hcur : c.curStates with
  | off | waitResponse =>
    dsimp only [sendDiscover]
    split_ifs <;> rfl
  | _ => rfl

theorem unread_loop (h : rtnval ≠ .success) : (c.loop rtnval).Unread := by
  unfold loop
  split_ifs with hcur
  · exact hcur
  · exact h

theorem unread_leaveWait (inLoop : Bool) (h : rtnval ≠ .success) :
    (c.leaveWait inLoop rtnval).Unread := by
  cases inLoop with
  | true => exact unread_loop h
  | false => exact h

theorem same_loop (h : rtnval ≠ .success) :
    (c.loop rtnval).Same ((c.setVars type message).loop rtnval) :=
  .inr ⟨unread_loop h, type, message, loop_setVars type message⟩

theorem same_leaveWait (inLoop : Bool) (h : rtnval ≠ .success) :
    (c.leaveWait inLoop rtnval).Same ((c.setVars type message).leaveWait inLoop rtnval) :=
  .inr ⟨unread_leaveWait inLoop h, type, message, leaveWait_setVars type message inLoop⟩

theorem recvInWaitResponse_setVars (c : UdpClient) (env : DiscoverEnv) :
    (c.recvInWaitResponse env).1.Same ((c.setVars type message).recvInWaitResponse env).1 ∧
      ((c.setVars type message).recvInWaitResponse env).2 = (c.recvInWaitResponse env).2 := by
  unfold recvInWaitResponse
  obtain h | ⟨hne, type', message', h⟩ := recvInTime_setVars c env type message
  · rw [h]
    exact ⟨.inl rfl, rfl⟩
  · rw [h]
    generalize c.recvInTime env = r at hne
    obtain ⟨c₁, e, es₁⟩ := r
    refine ⟨?_, rfl⟩
    cases e with
    | success => exact absurd rfl hne
    | timeout =>
      dsimp only
      have hcurStates : (c₁.setVars type' message').curStates = c₁.curStates := rfl
      rw [hcurStates]
      split_ifs with hcur
      · exact .inr ⟨hcur, type', message', rfl⟩
      · exact same_loop type' message' hne
    | _ => exact same_loop type' message' hne

theorem recvInWait_setVars (c : UdpClient) (env : DiscoverEnv) (inLoop : Bool) :
    (c.recvInWait inLoop env).1.Same ((c.setVars type message).recvInWait inLoop env).1 ∧
      ((c.setVars type message).recvInWait inLoop env).2 = (c.recvInWait inLoop env).2 := by
  unfold recvInWait
  obtain h | ⟨hne, type', message', h⟩ := recvInTime_setVars c env type message
  · rw [h]
    exact ⟨.inl rfl, rfl⟩
  · rw [h]
    generalize c.recvInTime env = r at hne
    obtain ⟨c₁, e, es₁⟩ := r
    refine ⟨?_, rfl⟩
    cases e with
    | success => exact absurd rfl hne
    | timeout =>
      exact same_leaveWait (c := { c₁ with curStates := .ending }) type' message' inLoop (by decide)
    | _ => exact same_leaveWait type' message' inLoop hne

/-- After a repeated message the loop goes on, or ends with the error that the retries are used
up. -/
theorem resend_setVars (hpc : c.discoverPc = .resend) (hcur : c.curStates = .waitResponse)
    (h : c.step o inetPton env = some (c', es)) :
    ∃ c'', (c.setVars type message).step o inetPton env = some (c'', es) ∧ c'.Same c'' := by
  have hsend := send_setVars type message c env (textAt c.lastTopOptions.bytes env.behind)
  have hcur' := send_waitResponse hcur (textAt c.lastTopOptions.bytes env.behind) env
  have hpc' := send_discoverPc c (textAt c.lastTopOptions.bytes env.behind) env
  have hvars : (c.setVars type message).discoverPc = .resend := hpc
  have hlast : (c.setVars type message).lastTopOptions = c.lastTopOptions := rfl
  rw [step, hpc] at h
  rw [step, hvars]
  dsimp only at h ⊢
  rw [hlast, hsend]
  generalize c.send (textAt c.lastTopOptions.bytes env.behind) env = r at h hcur' hpc'
  obtain ⟨c₁, rtnval, es₁⟩ := r
  cases rtnval with
  | none =>
    cases h
    refine ⟨_, rfl, .inr ⟨?_, type, message, rfl⟩⟩
    rw [Unread, hpc', hpc]
    exact hcur'.resolve_right (by simp)
  | some rtnval =>
    cases h
    refine ⟨_, rfl, .inr ⟨?_, type, message, loop_setVars type message⟩⟩
    rcases hcur' with hcur' | hcur'
    · rw [loop_of_waitResponse hcur']
      exact hcur'
    · cases hcur'
      exact unread_loop (by decide)

theorem step_setVars (hc : c.Unread) (h : c.step o inetPton env = some (c', es)) :
    ∃ c'', (c.setVars type message).step o inetPton env = some (c'', es) ∧ c'.Same c'' := by
  cases hpc : c.discoverPc with
  | idle | send | recv =>
    rw [Unread, hpc] at hc
    exact hc.elim
  | recvInWaitResponse =>
    have hvars : (c.setVars type message).discoverPc = .recvInWaitResponse := hpc
    obtain ⟨hsame, hes⟩ := recvInWaitResponse_setVars type message c env
    rw [step, hpc] at h
    rw [Option.some.inj h] at hsame hes
    rw [step, hvars]
    exact ⟨_, congrArg some (Prod.ext rfl hes), hsame⟩
  | resend =>
    rw [Unread, hpc] at hc
    exact resend_setVars type message hpc hc h
  | recvInWait inLoop =>
    have hvars : (c.setVars type message).discoverPc = .recvInWait inLoop := hpc
    obtain ⟨hsame, hes⟩ := recvInWait_setVars type message c env inLoop
    rw [step, hpc] at h
    rw [Option.some.inj h] at hsame hes
    rw [step, hvars]
    exact ⟨_, congrArg some (Prod.ext rfl hes), hsame⟩
  | received rtnval =>
    have hvars : (c.setVars type message).discoverPc = .received rtnval := hpc
    rw [Unread, hpc] at hc
    rw [step, hpc] at h
    rw [step, hvars]
    dsimp only [finish] at h ⊢
    rw [if_neg hc] at h ⊢
    cases h
    exact ⟨_, rfl, .inr ⟨trivial, type, message, rfl⟩⟩
  | ret rtnval =>
    rw [step, hpc] at h
    cases h

theorem step_eq_none_iff : c.step o inetPton env = none ↔
    c.discoverPc = .idle ∨ ∃ rtnval, c.discoverPc = .ret rtnval := by
  unfold step
  cases c.discoverPc with
  | idle | ret => simp
  | send | resend =>
    dsimp only
    split <;> (try split_ifs) <;> simp
  | recv | recvInWaitResponse | recvInWait | received => simp

/-- The discovery comes to the same with other values of `type` and `buffer`. -/
theorem exec_setVars (hc : c.Unread) (as : List DiscoverEnv) :
    discovered ((machine o inetPton).exec (c.setVars type message) as) =
      discovered ((machine o inetPton).exec c as) := by
  have hsim := EventMachine.exec_simulates (M := machine o inetPton) (R := Same)
    (fun c c' env hsame hstep => ?_) (fun c c' env c₁ es hsame hstep => ?_)
    (.inr ⟨hc, type, message, rfl⟩) as
  · generalize (machine o inetPton).exec (c.setVars type message) as = r at hsim
    generalize (machine o inetPton).exec c as = r' at hsim
    obtain ⟨hsame, hes⟩ := hsim
    unfold discovered
    rw [hes]
    obtain hsame | ⟨-, type', message', hsame⟩ := hsame <;> rw [hsame]
    rfl
  · obtain rfl | ⟨-, type', message', rfl⟩ := hsame
    · exact hstep
    · change c.step o inetPton env = none at hstep
      change (c.setVars type' message').step o inetPton env = none
      rw [step_eq_none_iff] at hstep ⊢
      exact hstep
  · obtain rfl | ⟨hc, type', message', rfl⟩ := hsame
    · exact ⟨c₁, hstep, .inl rfl⟩
    · exact step_setVars type' message' hc hstep

end SetVars

/-! ### Leaving WAIT -/

theorem discovered_append {es' : List DiscoverEvent} :
    discovered (c, es ++ es') = (discovered (c, es')).map fun r =>
      { r with sent := es.filterMap DiscoverEvent.sentMsg? ++ r.sent } := by
  unfold discovered
  cases c.discoverPc <;> simp

theorem exec_ret {rtnval : Errno} (hpc : c.discoverPc = .ret rtnval) (as : List DiscoverEnv) :
    (machine o inetPton).exec c as = (c, []) := by
  apply EventMachine.exec_of_disabled
  exact fun env => step_eq_none_iff.2 (.inr ⟨rtnval, hpc⟩)

/-- A discovery that has not returned takes a step before it does. -/
theorem cons_of_discovered {r : Discovered} {as : List DiscoverEnv}
    (hpc : ∀ rtnval, c.discoverPc ≠ .ret rtnval)
    (h : discovered ((machine o inetPton).exec c as) = some r) :
    ∃ env as', as = env :: as' := by
  cases as with
  | nil =>
    rw [EventMachine.exec, discovered] at h
    dsimp only at h
    split at h
    · exact absurd ‹_› (hpc _)
    · cases h
  | cons env as' => exact ⟨env, as', rfl⟩

/-- After an error `discover` returns SUCCESS, and leaves the client as it is. -/
theorem exec_received_error {rtnval : Errno} (hpc : c.discoverPc = .received rtnval)
    (hne : rtnval ≠ .success) (env : DiscoverEnv) (as : List DiscoverEnv) :
    discovered ((machine o inetPton).exec c (env :: as)) =
      some ⟨.success, c.negoAddr, c.curStates, c.tryTimes, []⟩ := by
  have hstep : (machine o inetPton).step c env =
      some ({ c with discoverPc := .ret .success }, []) := by
    show c.step o inetPton env = _
    rw [step, hpc]
    dsimp only [finish]
    rw [if_neg hne]
  rw [EventMachine.exec_cons hstep, exec_ret rfl]
  rfl

theorem eq_of_received_error {rtnval : Errno} (hpc : c.discoverPc = .received rtnval)
    (hne : rtnval ≠ .success) {r : Discovered} {as : List DiscoverEnv}
    (h : discovered ((machine o inetPton).exec c as) = some r) :
    r = ⟨.success, c.negoAddr, c.curStates, c.tryTimes, []⟩ := by
  obtain ⟨env, as, rfl⟩ := cons_of_discovered (by simp [hpc]) h
  rw [exec_received_error hpc hne] at h
  exact (Option.some.inj h).symm

theorem exec_received_success (hpc : c.discoverPc = .received .success) {r : Discovered}
    {as : List DiscoverEnv} (h : discovered ((machine o inetPton).exec c as) = some r) :
    r.curStates = .off := by
  obtain ⟨env, as, rfl⟩ := cons_of_discovered (by simp [hpc]) h
  obtain ⟨c₁, es₁, hstep, hcur, rtnval, hret⟩ : ∃ c₁ es₁,
      c.step o inetPton env = some (c₁, es₁) ∧ c₁.curStates = .off ∧
        ∃ rtnval, c₁.discoverPc = .ret rtnval := by
    rw [step, hpc]
    dsimp only [finish]
    rw [if_pos rfl]
    split_ifs
    · exact ⟨_, _, rfl, rfl, _, rfl⟩
    · exact ⟨_, _, rfl, rfl, _, rfl⟩
    · exact ⟨_, _, rfl, rfl, _, rfl⟩
  rw [EventMachine.exec_cons hstep, exec_ret hret, discovered] at h
  dsimp only at h
  rw [hret] at h
  cases h
  exact hcur

/-- An answer in WAIT ends the discovery in OFF. -/
theorem curStates_of_answer {inLoop : Bool} {r : Discovered} {as : List DiscoverEnv}
    (hcur : c.curStates ≠ .waitResponse)
    (h : discovered ((machine o inetPton).exec (c.leaveWait inLoop .success) as) = some r) :
    r.curStates = .off := by
  rw [leaveWait_eq inLoop hcur] at h
  exact exec_received_success rfl h

theorem waitFails_congr (c c' : UdpClient) (hsock : c'.udpSock = c.udpSock)
    (hid : c'.sessionId = c.sessionId) (as : List DiscoverEnv) :
    c'.WaitFails as ↔ c.WaitFails as := by
  induction as with
  | nil => rfl
  | cons env as ih =>
    have hown : c'.ownMsg? env = c.ownMsg? env := by
      unfold ownMsg?
      rw [hsock, hid]
    rw [WaitFails, WaitFails, hown]
    cases c.ownMsg? env with
    | none => rfl
    | some d =>
      dsimp only
      rw [ih]

/-- What comes of a stray datagram in WAIT. -/
def waitError (inLoop : Bool) (c : UdpClient) : Discovered :=
  ⟨.success, c.negoAddr, .wait, if inLoop then 0 else c.tryTimes, []⟩

section WaitError

variable {inLoop : Bool} {rtnval : Errno} {type : MsgType} {message : CharArray maxStringLength}

theorem leaveWait_wait (hcur : c.curStates = .wait) :
    (c.setVars type message).leaveWait inLoop rtnval =
      { c.setVars type message with
        tryTimes := if inLoop then 0 else c.tryTimes
        discoverPc := .received rtnval } := by
  have hwait : (c.setVars type message).curStates = .wait := hcur
  rw [leaveWait_eq inLoop (by rw [hwait]; decide)]
  rfl

theorem waitError_eq (hcur : c.curStates = .wait) : c.waitError inLoop =
    ⟨.success, c.negoAddr, c.curStates, if inLoop then 0 else c.tryTimes, []⟩ := by
  rw [hcur]
  rfl

/-- An error in WAIT ends the discovery. -/
theorem exec_wait_error (hcur : c.curStates = .wait) (hne : rtnval ≠ .success)
    (env : DiscoverEnv) (as : List DiscoverEnv) :
    discovered ((machine o inetPton).exec
      ((c.setVars type message).leaveWait inLoop rtnval) (env :: as)) =
      some (c.waitError inLoop) := by
  rw [leaveWait_wait hcur, exec_received_error rfl hne, waitError_eq hcur]
  rfl

theorem eq_waitError (hcur : c.curStates = .wait) (hne : rtnval ≠ .success) {r : Discovered}
    {as : List DiscoverEnv} (h : discovered ((machine o inetPton).exec
      ((c.setVars type message).leaveWait inLoop rtnval) as) = some r) :
    r = c.waitError inLoop := by
  rw [leaveWait_wait hcur] at h
  rw [eq_of_received_error rfl hne h, waitError_eq hcur]
  rfl

end WaitError

theorem exec_silent {env : DiscoverEnv} {as : List DiscoverEnv}
    (h : c.step o inetPton env = some (c', es)) (hes : es.filterMap DiscoverEvent.sentMsg? = []) :
    discovered ((machine o inetPton).exec c (env :: as)) =
      discovered ((machine o inetPton).exec c' as) := by
  rw [EventMachine.exec_cons h, discovered_append, hes]
  exact congrFun Option.map_id _

/-- How a discovery in WAIT ends. -/
theorem exec_wait {inLoop : Bool} {r : Discovered} {as : List DiscoverEnv}
    (hpc : c.discoverPc = .recvInWait inLoop) (hcur : c.curStates = .wait)
    (h : discovered ((machine o inetPton).exec c as) = some r) :
    c.WaitFails as ∧ r = c.waitError inLoop ∨ ¬ c.WaitFails as ∧ r.curStates ≠ .wait := by
  induction as generalizing c r with
  | nil =>
    rw [EventMachine.exec, discovered] at h
    dsimp only at h
    rw [hpc] at h
    cases h
  | cons env as ih =>
    obtain ⟨c₁, es₁, hrecv⟩ : ∃ c₁ es₁, c.recvInWait inLoop env = (c₁, es₁) := ⟨_, _, rfl⟩
    have hstep : c.step o inetPton env = some (c₁, es₁) := by
      rw [step, hpc, ← hrecv]
    rw [WaitFails]
    cases recvInWait_cases hrecv with
    | @wait d own type =>
      rw [exec_silent hstep rfl] at h
      rw [own]
      dsimp only
      rw [if_pos type, ← waitFails_congr c { c.setVars d.type d.data with
        discoverPc := .recvInWait inLoop } rfl rfl as]
      exact ih rfl hcur h
    | answer own type =>
      rw [exec_silent hstep rfl] at h
      rw [own]
      obtain ⟨htype, rfl⟩ | ⟨htype, rfl⟩ := endState?_eq_some_iff.1 type
      · refine .inr ⟨by simp [htype], ?_⟩
        rw [curStates_of_answer (by simp) h]
        decide
      · refine .inr ⟨by simp [htype], ?_⟩
        rw [curStates_of_answer (by simp) h]
        decide
    | unexpected own wait type he =>
      rw [exec_silent hstep rfl] at h
      rw [own]
      dsimp only
      rw [if_neg wait]
      exact .inl ⟨endState?_eq_none_iff.1 type, eq_waitError hcur he h⟩
    | timeout own select =>
      rw [exec_silent hstep rfl, leaveWait_eq inLoop (by simp)] at h
      rw [own]
      refine .inr ⟨not_not.2 select, ?_⟩
      rw [eq_of_received_error rfl (by decide) h]
      simp
    | error own select he =>
      rw [exec_silent hstep rfl] at h
      rw [own]
      exact .inl ⟨select, eq_waitError hcur he h⟩

/-! ### An inserted datagram -/

/-- The loops receive in the states they are written for. -/
def InState (c : UdpClient) : Prop :=
  match c.discoverPc with
  | .recvInWaitResponse | .resend => c.curStates = .waitResponse
  | .recvInWait _ => c.curStates = .wait
  | _ => True

theorem inState_loop {rtnval : Errno} : (c.loop rtnval).InState := by
  unfold loop
  split_ifs with hcur
  · exact hcur
  · trivial

theorem inState_leaveWait (inLoop : Bool) {rtnval : Errno} :
    (c.leaveWait inLoop rtnval).InState := by
  cases inLoop with
  | true => exact inState_loop
  | false => trivial

theorem recvInWaitResponse_inState (h : c.recvInWaitResponse env = (c', es)) : c'.InState := by
  cases recvInWaitResponse_cases h with
  | wait => rfl
  | timeout own select cur => exact cur
  | answer | unexpected | error => exact inState_loop

theorem recvInWait_inState {inLoop : Bool} (hcur : c.curStates = .wait)
    (h : c.recvInWait inLoop env = (c', es)) : c'.InState := by
  cases recvInWait_cases h with
  | wait => exact hcur
  | answer | unexpected | timeout | error => exact inState_leaveWait inLoop

theorem resend_inState (hpc : c.discoverPc = .resend) (hcur : c.curStates = .waitResponse)
    (h : c.step o inetPton env = some (c', es)) : c'.InState := by
  cases resend_cases hpc hcur h with
  | again =>
    rw [InState, hpc]
    exact hcur
  | sent | gaveUp => exact inState_loop

theorem step_inState (h : c.step o inetPton env = some (c', es)) (hc : c.InState) :
    c'.InState := by
  cases hpc : c.discoverPc with
  | idle | ret =>
    rw [step, hpc] at h
    cases h
  | send =>
    have hpc' := send_discoverPc c (textAt c.message.bytes env.behind) env
    rw [step, hpc] at h
    dsimp only at h
    split at h
    · cases h
      rw [InState, hpc', hpc]
      trivial
    · split_ifs at h <;> cases h <;> trivial
  | recv =>
    rw [step, hpc] at h
    cases h
    unfold recv
    cases hcur : c.curStates with
    | waitResponse | wait => exact hcur
    | off | informed | ending | negoing => trivial
  | recvInWaitResponse =>
    rw [step, hpc] at h
    exact recvInWaitResponse_inState (Option.some.inj h)
  | resend =>
    rw [InState, hpc] at hc
    exact resend_inState hpc hc h
  | recvInWait inLoop =>
    rw [InState, hpc] at hc
    rw [step, hpc] at h
    exact recvInWait_inState hc (Option.some.inj h)
  | received rtnval =>
    have hin : (c.finish o inetPton rtnval env).1.InState := by
      unfold finish
      dsimp only
      split_ifs <;> trivial
    rw [step, hpc] at h
    rw [Option.some.inj h] at hin
    exact hin

/-- In WAIT_RESPONSE a stray datagram changes only `type` and `buffer`. -/
theorem recvInWaitResponse_stray {msg : Msg} (hselect : env.select = .ready (some msg))
    (hstray : c.Stray msg) : ∃ type message e,
      c.recvInWaitResponse env = ((c.setVars type message).loop e, []) := by
  have hown := ownMsg?_of_stray hselect hstray
  obtain ⟨c₁, es₁, h⟩ : ∃ c₁ es₁, c.recvInWaitResponse env = (c₁, es₁) := ⟨_, _, rfl⟩
  rw [h]
  cases recvInWaitResponse_cases h with
  | wait own | answer own | unexpected own =>
    rw [hown] at own
    cases own
  | timeout own select =>
    rw [hselect] at select
    cases select
  | error => exact ⟨_, _, _, rfl⟩

/-- In WAIT it is an error. -/
theorem recvInWait_stray {msg : Msg} (inLoop : Bool) (hselect : env.select = .ready (some msg))
    (hstray : c.Stray msg) : ∃ type message e, e ≠ .success ∧
      c.recvInWait inLoop env = ((c.setVars type message).leaveWait inLoop e, []) := by
  have hown := ownMsg?_of_stray hselect hstray
  obtain ⟨c₁, es₁, h⟩ : ∃ c₁ es₁, c.recvInWait inLoop env = (c₁, es₁) := ⟨_, _, rfl⟩
  rw [h]
  cases recvInWait_cases h with
  | wait own | answer own | unexpected own =>
    rw [hown] at own
    cases own
  | timeout own select =>
    rw [hselect] at select
    cases select
  | error own select he => exact ⟨_, _, _, he, rfl⟩

/-- Strays are ignored in WAIT_RESPONSE. -/
theorem exec_stray {msg : Msg} (hpc : c.discoverPc = .recvInWaitResponse)
    (hcur : c.curStates = .waitResponse) (hselect : env.select = .ready (some msg))
    (hstray : c.Stray msg) (as : List DiscoverEnv) :
    discovered ((machine o inetPton).exec c (env :: as)) =
      discovered ((machine o inetPton).exec c as) := by
  obtain ⟨type, message, e, hr⟩ := recvInWaitResponse_stray hselect hstray
  have hstep : c.step o inetPton env = some (c.setVars type message, []) := by
    rw [step, hpc]
    dsimp only
    rw [hr, loop_of_waitResponse (by exact hcur), ← hpc]
    rfl
  have hunread : c.Unread := by
    rw [Unread, hpc]
    exact hcur
  rw [exec_silent hstep rfl, exec_setVars type message hunread]

/-- In WAIT a stray ends the discovery. -/
theorem exec_stray_wait {msg : Msg} {inLoop : Bool} (hpc : c.discoverPc = .recvInWait inLoop)
    (hcur : c.curStates = .wait) (hselect : env.select = .ready (some msg)) (hstray : c.Stray msg)
    (env' : DiscoverEnv) (as : List DiscoverEnv) :
    discovered ((machine o inetPton).exec c (env :: env' :: as)) = some (c.waitError inLoop) := by
  obtain ⟨type, message, e, he, hr⟩ := recvInWait_stray inLoop hselect hstray
  have hstep : c.step o inetPton env =
      some ((c.setVars type message).leaveWait inLoop e, []) := by
    rw [step, hpc, ← hr]
  rw [exec_silent hstep rfl, exec_wait_error hcur he]

/-- A stray datagram that the waiting client receives changes nothing exactly when it comes in
WAIT_RESPONSE or the wait ends with an error anyway. -/
theorem stray_iff {sock : ℤ} {rand : UInt32} {type : MsgType} {buffer : CharArray maxStringLength}
    {c₁ : UdpClient} {msg : Msg} {as as' : List DiscoverEnv}
    (hrun : (machine o inetPton).run (c.discover o sock rand type buffer) as = some (c₁, es))
    (hwait : c₁.Selects) (hselect : env.select = .ready (some msg)) (hstray : c₁.Stray msg)
    (hends : (discovered ((machine o inetPton).exec (c.discover o sock rand type buffer)
      (as ++ as'))).isSome) :
    discovered ((machine o inetPton).exec (c.discover o sock rand type buffer)
        (as ++ env :: as')) =
      discovered ((machine o inetPton).exec (c.discover o sock rand type buffer) (as ++ as')) ↔
        c₁.discoverPc = .recvInWaitResponse ∨ c₁.WaitFails as' := by
  have hin : c₁.InState :=
    EventMachine.run_invariant (I := InState) (fun _ _ _ _ hs h => step_inState h hs)
      (s := c.discover o sock rand type buffer) trivial hrun
  rw [EventMachine.exec_append hrun, discovered_append, Option.isSome_map] at hends
  rw [EventMachine.exec_append hrun, EventMachine.exec_append hrun, discovered_append,
    discovered_append]
  obtain ⟨r, hr⟩ := Option.isSome_iff_exists.1 hends
  obtain hpc | ⟨inLoop, hpc⟩ := hwait
  · rw [InState, hpc] at hin
    rw [exec_stray hpc hin hselect hstray]
    exact iff_of_true rfl (.inl hpc)
  · rw [InState, hpc] at hin
    obtain ⟨env', as', rfl⟩ := cons_of_discovered (by simp [hpc]) hr
    have hpc' : c₁.discoverPc ≠ .recvInWaitResponse := by
      rw [hpc]
      simp
    rw [exec_stray_wait hpc hin hselect hstray, hr, or_iff_right hpc']
    obtain ⟨hfails, rfl⟩ | ⟨hfails, hne'⟩ := exec_wait hpc hin hr
    · exact iff_of_true rfl hfails
    · refine iff_of_false (fun heq => hne' ?_) hfails
      have hcur := congrArg Discovered.curStates (Option.some.inj heq)
      exact hcur.symm

/-- A datagram of zeros, which does not decode. -/
def zeroMsg : Msg := ⟨0, 0, CharArray.zero _⟩

theorem stray_zeroMsg (c : UdpClient) : c.Stray zeroMsg := by
  intro d hd
  have herror : decode (some zeroMsg) = .error .msgTypeErr := by decide +kernel
  rw [herror] at hd
  cases hd

/-- A PDU with session id 0. -/
def answer (type : MsgType) : DiscoverEnv :=
  withInput (.ready (writePdu ((locatorOption loopbackText).toBits .little) type 0
    ⟨.success, 0⟩).2)

/-- After a WAIT_MSG a stray datagram keeps the client in WAIT, and the RESPONSE_MSG is not read.
The first two inputs go to the steps of `send` and `recv`, which call no `select`. -/
theorem not_stray :
    ¬ ∃ inetPton : CString → Option (BitVec 128),
      ∀ (o : ByteOrder) (c c₁ : UdpClient) (sock : ℤ) (rand : UInt32) (type : MsgType)
        (buffer : CharArray maxStringLength) (msg : Msg) (env : DiscoverEnv)
        (as as' : List DiscoverEnv) (es : List DiscoverEvent),
      (machine o inetPton).run (c.discover o sock rand type buffer) as = some (c₁, es) →
      c₁.Selects → env.select = .ready (some msg) → c₁.Stray msg →
      (discovered ((machine o inetPton).exec (c.discover o sock rand type buffer)
        (as ++ as'))).isSome →
      discovered ((machine o inetPton).exec (c.discover o sock rand type buffer)
          (as ++ env :: as')) =
        discovered ((machine o inetPton).exec (c.discover o sock rand type buffer)
          (as ++ as')) := by
  rintro ⟨inetPton, h⟩
  have hsample : ((machine .little inetPton).run
      ((new (CharArray.zero _) 0).discover .little 3 0 .discoveryMsg (CharArray.zero _))
      [withInput .timeout, withInput .timeout, answer .waitMsg]).map (fun r => r.1.discoverPc) =
      some (.recvInWait true) := rfl
  obtain ⟨⟨c₁, es⟩, hrun, hpc⟩ := Option.map_eq_some_iff.1 hsample
  have hsame := h _ _ c₁ _ _ _ _ zeroMsg (withInput (.ready (some zeroMsg))) _
    [answer .responseMsg, withInput .timeout] es hrun (.inr ⟨true, hpc⟩) rfl (stray_zeroMsg c₁) rfl
  have hcur := congrArg (Option.map Discovered.curStates) hsame
  replace hcur : some ClientState.wait = some .off := hcur
  cases hcur

/-- A stray datagram in WAIT_RESPONSE, before the RESPONSE_MSG; here too `send` and `recv` use no
outcome of `select`. -/
theorem stray_waitResponse :
    ∃ c₁ es, (machine .little fun _ => some 1).run
        ((new (CharArray.zero _) 0).discover .little 3 0 .discoveryMsg (CharArray.zero _))
        [withInput .timeout, withInput .timeout] = some (c₁, es) ∧
      (discovered ((machine .little fun _ => some 1).exec
          ((new (CharArray.zero _) 0).discover .little 3 0 .discoveryMsg (CharArray.zero _))
          ([withInput .timeout, withInput .timeout] ++ withInput (.ready (some zeroMsg)) ::
            [answer .responseMsg, withInput .timeout])) =
        discovered ((machine .little fun _ => some 1).exec
          ((new (CharArray.zero _) 0).discover .little 3 0 .discoveryMsg (CharArray.zero _))
          ([withInput .timeout, withInput .timeout] ++
            [answer .responseMsg, withInput .timeout])) ↔
        c₁.discoverPc = .recvInWaitResponse ∨
          c₁.WaitFails [answer .responseMsg, withInput .timeout]) ∧
      c₁.discoverPc = .recvInWaitResponse := by
  have hsample : ((machine .little fun _ => some 1).run
      ((new (CharArray.zero _) 0).discover .little 3 0 .discoveryMsg (CharArray.zero _))
      [withInput .timeout, withInput .timeout]).map (fun r => r.1.discoverPc) =
      some .recvInWaitResponse := rfl
  obtain ⟨⟨c₁, es⟩, hrun, hpc⟩ := Option.map_eq_some_iff.1 hsample
  exact ⟨c₁, es, hrun, stray_iff hrun (.inl hpc) rfl (stray_zeroMsg c₁) rfl, hpc⟩

end UdpClient

end Gdnp
