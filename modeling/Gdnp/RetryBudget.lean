import Gdnp.Stray

/-!
# The retries of a discovery

In WAIT_RESPONSE the loop of `recv` hears timeouts, messages of its session and errors (`Heard`).
Every timeout among the first `MAX_TRY_TIMES` makes it repeat the DISCOVERY_MSG once, and the next
one makes it give up; a RESPONSE_MSG, a WAIT_MSG or a NEGO_END_MSG of its session ends the loop, and
nothing else changes anything (`recv_outcome`).  The retries are counted by the timeouts heard
(`Awaits`), which each step keeps (`step_outcome`).
-/

open CMem

namespace Gdnp

/-- What `recv_in_time` comes to: a timeout, a message with the session id of the client, or an
error of `select` or `recvfrom`, an undecodable or a foreign message. -/
inductive Heard where
  | timeout
  | own (type : MsgType)
  | other
  deriving DecidableEq

/-- The loop goes on. -/
def Heard.Continues (h : Heard) : Prop :=
  h ≠ .own .responseMsg ∧ h ≠ .own .waitMsg ∧ h ≠ .own .negoEndMsg

instance : DecidablePred Heard.Continues := fun h =>
  inferInstanceAs (Decidable (h ≠ _ ∧ h ≠ _ ∧ h ≠ _))

inductive RecvEvent where
  | heard (h : Heard)
  /-- A call of `send_discover` has returned. -/
  | resent
  deriving DecidableEq

/-- A call of `send_discover` among the events of the discovery. -/
def DiscoverEvent.resent? : DiscoverEvent → Option RecvEvent
  | sendDiscover _ => some .resent
  | _ => none

/-- What the loop does about what it hears, as long as there are retries left. -/
def Heard.events : Heard → List RecvEvent
  | timeout => [.heard .timeout, .resent]
  | h => [.heard h]

namespace UdpClient

def hear (c : UdpClient) (env : DiscoverEnv) : Heard :=
  match env.select with
  | .timeout => .timeout
  | _ => match c.ownMsg? env with
    | some d => .own d.type
    | none => .other

/-- What a step of `recv` in WAIT_RESPONSE hears. -/
def heardEvents (c : UdpClient) (env : DiscoverEnv) : List RecvEvent :=
  match c.discoverPc with
  | .recvInWaitResponse => [.heard (c.hear env)]
  | _ => []

/-- The loop of `recv` is running. -/
def InLoop (c : UdpClient) : Prop :=
  c.discoverPc = .recvInWaitResponse ∨ c.discoverPc = .resend ∨ c.discoverPc = .recvInWait true

instance : DecidablePred InLoop := fun _ =>
  inferInstanceAs (Decidable (_ = _ ∨ _ = _ ∨ _ = _))

variable (o : ByteOrder) (inetPton : CString → Option (BitVec 128))

/-- `recv` called in WAIT_RESPONSE, up to its return: what it hears, and the calls of
`send_discover` that its steps make. -/
def recvStep (c : UdpClient) (env : DiscoverEnv) : Option (UdpClient × List RecvEvent) :=
  if c.InLoop then (c.step o inetPton env).map fun r =>
    (r.1, c.heardEvents env ++ r.2.filterMap DiscoverEvent.resent?)
  else none

def recvMachine : EventMachine UdpClient DiscoverEnv RecvEvent := ⟨recvStep o inetPton⟩

/-! ### What the loop comes to -/

/-- Events that keep the loop going: there are no more timeouts than retries. -/
structure GoesOn (hs : List Heard) : Prop where
  continues : ∀ h ∈ hs, h.Continues
  le_max : hs.count .timeout ≤ maxTryTimes

/-- The loop has heard `hs` and goes on, with as many tries as there were timeouts. -/
structure Awaits (c : UdpClient) (hs : List Heard) (c' : UdpClient) : Prop extends GoesOn hs where
  tryTimes : c'.tryTimes = hs.count .timeout
  curStates : c'.curStates = .waitResponse
  lastTopOptions : c'.lastTopOptions = c.lastTopOptions

/-- The loop has ended after `hs` and another event. -/
structure Ends (c : UdpClient) (hs : List Heard) (c' : UdpClient) : Prop extends GoesOn hs where
  tryTimes : c'.tryTimes = 0
  lastTopOptions : c'.lastTopOptions = c.lastTopOptions

/-- What `recv` has come to, by the events so far. -/
inductive RecvOutcome (c : UdpClient) : List RecvEvent → UdpClient → Prop
  | waiting {hs c'} (waits : Awaits c hs c') (pc : c'.discoverPc = .recvInWaitResponse) :
    RecvOutcome c (hs.flatMap Heard.events) c'
  /-- A timeout was heard, and there is a retry or the end to come. -/
  | resending {hs c'} (waits : Awaits c hs c') (pc : c'.discoverPc = .resend) :
    RecvOutcome c (hs.flatMap Heard.events ++ [.heard .timeout]) c'
  | informed {hs c'} (ends : Ends c hs c') (pc : c'.discoverPc = .received .success)
      (cur : c'.curStates = .informed) :
    RecvOutcome c (hs.flatMap Heard.events ++ [.heard (.own .responseMsg)]) c'
  | ended {hs c'} (ends : Ends c hs c') (pc : c'.discoverPc = .received .success)
      (cur : c'.curStates = .ending) :
    RecvOutcome c (hs.flatMap Heard.events ++ [.heard (.own .negoEndMsg)]) c'
  /-- `recv_in_WAIT` is running. -/
  | inWait {hs c'} (goesOn : GoesOn hs) (last : c'.lastTopOptions = c.lastTopOptions)
      (pc : c'.discoverPc = .recvInWait true) (cur : c'.curStates = .wait) :
    RecvOutcome c (hs.flatMap Heard.events ++ [.heard (.own .waitMsg)]) c'
  | waited {hs c' rtnval} (ends : Ends c hs c') (pc : c'.discoverPc = .received rtnval) :
    RecvOutcome c (hs.flatMap Heard.events ++ [.heard (.own .waitMsg)]) c'
  /-- The timeout after the last retry. -/
  | gaveUp {hs c'} (ends : Ends c hs c') (count : hs.count .timeout = maxTryTimes)
      (pc : c'.discoverPc = .received .clientRecvNothingErr) (cur : c'.curStates = .ending) :
    RecvOutcome c (hs.flatMap Heard.events ++ [.heard .timeout]) c'

variable {o inetPton} {c c' c'' : UdpClient} {env : DiscoverEnv} {hs : List Heard}
  {es es' : List RecvEvent}

theorem hear_of_own {d : Decoded} (h : c.ownMsg? env = some d) : c.hear env = .own d.type := by
  unfold hear
  cases hselect : env.select with
  | timeout =>
    rw [ownMsg?, hselect] at h
    cases h
  | fail => rw [h]
  | ready pdu => rw [h]

theorem hear_of_none (h : c.ownMsg? env = none) (hselect : env.select ≠ .timeout) :
    c.hear env = .other := by
  unfold hear
  rw [h]
  cases hs : env.select with
  | timeout => exact absurd hs hselect
  | fail => rfl
  | ready pdu => rfl

theorem hear_of_timeout (hselect : env.select = .timeout) : c.hear env = .timeout := by
  rw [hear, hselect]

/-- Something else than a timeout that does not end the loop. -/
theorem Awaits.concat {h : Heard} (hw : Awaits c hs c') (hcont : h.Continues) (hne : h ≠ .timeout)
    (htries : c''.tryTimes = c'.tryTimes) (hcur : c''.curStates = c'.curStates)
    (hlast : c''.lastTopOptions = c'.lastTopOptions) : Awaits c (hs ++ [h]) c'' := by
  have hcount : (hs ++ [h]).count .timeout = hs.count .timeout := by
    simp [List.count_append, hne]
  refine ⟨⟨?_, hcount.trans_le hw.le_max⟩, by rw [hcount, htries, hw.tryTimes],
    hcur.trans hw.curStates, hlast.trans hw.lastTopOptions⟩
  exact List.forall_mem_append.2 ⟨hw.continues, List.forall_mem_singleton.2 hcont⟩

theorem Awaits.retried (hw : Awaits c hs c') (htries : c'.tryTimes < maxTryTimes) :
    Awaits c (hs ++ [.timeout])
      { c' with tryTimes := c'.tryTimes + 1, discoverPc := .recvInWaitResponse } := by
  have hcount : (hs ++ [Heard.timeout]).count .timeout = hs.count .timeout + 1 := by
    simp [List.count_append]
  have htimeout : Heard.timeout.Continues := ⟨by simp, by simp, by simp⟩
  rw [hw.tryTimes] at htries
  refine ⟨⟨?_, hcount.trans_le htries⟩, ?_, hw.curStates, hw.lastTopOptions⟩
  · exact List.forall_mem_append.2 ⟨hw.continues, List.forall_mem_singleton.2 htimeout⟩
  · show c'.tryTimes + 1 = _
    rw [hcount, hw.tryTimes]

theorem events_retried : hs.flatMap Heard.events ++ [.heard .timeout] ++ [.resent] =
    (hs ++ [Heard.timeout]).flatMap Heard.events := by
  rw [List.flatMap_append, List.append_assoc]
  rfl

theorem events_concat {h : Heard} (hne : h ≠ .timeout) :
    hs.flatMap Heard.events ++ [.heard h] = (hs ++ [h]).flatMap Heard.events := by
  rw [List.flatMap_append, List.flatMap_singleton]
  cases h with
  | timeout => exact absurd rfl hne
  | own type => rfl
  | other => rfl

/-! ### The steps -/

/-- An event that the loop takes no notice of. -/
theorem Awaits.outcome_loop {h : Heard} (hw : Awaits c hs c') (hcont : h.Continues)
    (hne : h ≠ .timeout) (type : MsgType) (message : CharArray maxStringLength) (rtnval : Errno) :
    RecvOutcome c (hs.flatMap Heard.events ++ [.heard h])
      ((c'.setVars type message).loop rtnval) := by
  have hcur : (c'.setVars type message).curStates = .waitResponse := hw.curStates
  rw [events_concat hne, loop_of_waitResponse hcur]
  exact .waiting (hw.concat hcont hne rfl rfl rfl) rfl

/-- A `select` with the `recvfrom` after it calls no `send_discover`. -/
theorem resent?_recvInTime (c : UdpClient) (env : DiscoverEnv) :
    (c.recvInTime env).2.2.filterMap DiscoverEvent.resent? = [] := by
  obtain ⟨d, -, hr⟩ | ⟨-, -, hr⟩ | ⟨-, -, type, message, e, -, -, hr⟩ := recvInTime_cases c env <;>
    rw [hr] <;> rfl

/-- A call of `recv_in_WAIT_RESPONSE`. -/
theorem recvInWaitResponse_outcome {ces : List DiscoverEvent} (hw : Awaits c hs c')
    (h : c'.recvInWaitResponse env = (c'', ces)) :
    RecvOutcome c (hs.flatMap Heard.events ++ [.heard (c'.hear env)]) c'' := by
  cases recvInWaitResponse_cases h with
  | wait own type =>
    rw [hear_of_own own, type]
    exact .inWait hw.toGoesOn hw.lastTopOptions rfl rfl
  | answer own type =>
    rw [hear_of_own own]
    obtain ⟨htype, rfl⟩ | ⟨htype, rfl⟩ := endState?_eq_some_iff.1 type
    · rw [htype]
      exact .informed ⟨hw.toGoesOn, rfl, hw.lastTopOptions⟩ rfl rfl
    · rw [htype]
      exact .ended ⟨hw.toGoesOn, rfl, hw.lastTopOptions⟩ rfl rfl
  | unexpected own wait type he =>
    have hnone := endState?_eq_none_iff.1 type
    rw [hear_of_own own]
    exact hw.outcome_loop ⟨by simp [hnone.1], by simp [wait], by simp [hnone.2]⟩ (by simp) _ _ _
  | timeout own select =>
    rw [hear_of_timeout select]
    exact .resending ⟨hw.toGoesOn, hw.tryTimes, hw.curStates, hw.lastTopOptions⟩ rfl
  | error own select he =>
    rw [hear_of_none own fun ht => select ht hw.curStates]
    exact hw.outcome_loop (by decide) (by simp) _ _ _

/-- A call of `send` after a timeout, up to one `sendto`. -/
theorem resend_outcome (hw : Awaits c hs c') (hpc : c'.discoverPc = .resend)
    (h : c'.recvStep o inetPton env = some (c'', es)) :
    RecvOutcome c (hs.flatMap Heard.events ++ [.heard .timeout] ++ es) c'' := by
  rw [recvStep, if_pos (.inr (.inl hpc)), Option.map_eq_some_iff] at h
  obtain ⟨⟨c₁, ces⟩, hstep, heq⟩ := h
  obtain ⟨rfl, rfl⟩ := Prod.mk.inj heq
  rw [heardEvents, hpc]
  cases resend_cases hpc hw.curStates hstep with
  | again tries =>
    rw [List.filterMap_nil, List.append_nil, List.append_nil]
    exact .resending hw hpc
  | @sent e msg tries he =>
    have hone : (DiscoverEvent.ofSendDiscover (e, msg)).filterMap DiscoverEvent.resent? =
        [.resent] := by
      cases msg <;> rfl
    rw [hone, List.nil_append, events_retried, loop_of_waitResponse]
    · exact .waiting (hw.retried tries) rfl
    · exact hw.curStates
  | gaveUp tries =>
    have hmax := hw.le_max
    rw [List.filterMap_nil, List.append_nil, List.append_nil, loop_of_ne (by simp)]
    rw [hw.tryTimes] at tries
    exact .gaveUp ⟨hw.toGoesOn, rfl, hw.lastTopOptions⟩ (by omega) rfl rfl

/-- `recv_in_WAIT` ends in the loop. -/
theorem leaveWait_outcome (hgoes : GoesOn hs) (hlast : c'.lastTopOptions = c.lastTopOptions)
    (hcur : c'.curStates ≠ .waitResponse) (rtnval : Errno) :
    RecvOutcome c (hs.flatMap Heard.events ++ [.heard (.own .waitMsg)])
      (c'.leaveWait true rtnval) := by
  show RecvOutcome c _ (c'.loop rtnval)
  rw [loop_of_ne hcur]
  exact .waited ⟨hgoes, rfl, hlast⟩ rfl

/-- `recv_in_WAIT` in the loop. -/
theorem recvInWait_outcome {ces : List DiscoverEvent} (hgoes : GoesOn hs)
    (hlast : c'.lastTopOptions = c.lastTopOptions) (hcur : c'.curStates = .wait)
    (h : c'.recvInWait true env = (c'', ces)) :
    RecvOutcome c (hs.flatMap Heard.events ++ [.heard (.own .waitMsg)]) c'' := by
  have hwait : c'.curStates ≠ .waitResponse := by
    rw [hcur]
    decide
  cases recvInWait_cases h with
  | wait => exact .inWait hgoes hlast rfl hcur
  | answer own type =>
    apply leaveWait_outcome hgoes
    · exact hlast
    · obtain ⟨-, rfl⟩ | ⟨-, rfl⟩ := endState?_eq_some_iff.1 type <;> simp
  | timeout =>
    apply leaveWait_outcome hgoes
    · exact hlast
    · simp
  | unexpected | error =>
    apply leaveWait_outcome hgoes
    · exact hlast
    · exact hwait

theorem step_outcome (hc : RecvOutcome c es c') (h : c'.recvStep o inetPton env = some (c'', es')) :
    RecvOutcome c (es ++ es') c'' := by
  cases hc with
  | resending waits pc => exact resend_outcome waits pc h
  | waiting waits pc =>
    rw [recvStep, if_pos (.inl pc), step, pc, heardEvents, pc] at h
    obtain ⟨rfl, rfl⟩ := Prod.mk.inj (Option.some.inj h)
    have hnone : (c'.recvInWaitResponse env).2.filterMap DiscoverEvent.resent? = [] :=
      resent?_recvInTime c' env
    rw [hnone, List.append_nil]
    exact recvInWaitResponse_outcome waits rfl
  | inWait goesOn last pc cur =>
    rw [recvStep, if_pos (.inr (.inr pc)), step, pc, heardEvents, pc] at h
    obtain ⟨rfl, rfl⟩ := Prod.mk.inj (Option.some.inj h)
    have hnone : (c'.recvInWait true env).2.filterMap DiscoverEvent.resent? = [] :=
      resent?_recvInTime c' env
    rw [List.nil_append, hnone, List.append_nil]
    exact recvInWait_outcome goesOn last cur rfl
  | informed ends pc | ended ends pc | waited ends pc | gaveUp ends count pc =>
    rw [recvStep, if_neg (by simp [InLoop, pc])] at h
    cases h

/-- A step is missing only after the loop. -/
theorem recvStep_eq_none_iff : c.recvStep o inetPton env = none ↔ ¬c.InLoop := by
  unfold recvStep
  split
  case isTrue hloop =>
    rw [Option.map_eq_none_iff, step_eq_none_iff]
    rcases hloop with h | h | h <;> simp [h, InLoop]
  case isFalse hloop => simp [hloop]

/-- The loop of `recv`: for every sequence of events, each timeout among the first `MAX_TRY_TIMES`
causes one resend, and nothing else does; the loop ends at the first RESPONSE_MSG, WAIT_MSG or
NEGO_END_MSG of its session, or at the timeout after that. -/
theorem recv_outcome (o : ByteOrder) (inetPton : CString → Option (BitVec 128))
    {c c' : UdpClient} {as : List DiscoverEnv} {es : List RecvEvent}
    (hpc : c.discoverPc = .recvInWaitResponse) (hcur : c.curStates = .waitResponse)
    (htries : c.tryTimes = 0) (hrun : (recvMachine o inetPton).run c as = some (c', es)) :
    RecvOutcome c es c' := by
  have hstart : Awaits c [] c := ⟨⟨by simp, Nat.zero_le _⟩, htries, hcur, rfl⟩
  exact EventMachine.run_invariant_trace (t := []) (P := fun c' es => RecvOutcome c es c')
    (fun _ _ _ _ _ hs h => step_outcome hs h) (.waiting hstart hpc) hrun

/-- A client in WAIT_RESPONSE. -/
def awaiting : UdpClient :=
  { new (CharArray.zero _) 0 with
    toClient := { Client.new (CharArray.zero _) with curStates := .waitResponse }
    udpSock := 3
    discoverPc := .recvInWaitResponse }

/-- A timeout, a datagram that does not decode, and a RESPONSE_MSG. -/
theorem recv_outcome_response :
    ∃ c' es, (recvMachine .little fun _ => none).run awaiting
        [withInput .timeout, withInput .timeout, withInput (.ready (some zeroMsg)),
          answer .responseMsg] = some (c', es) ∧
      es = [.heard .timeout, .resent, .heard .other, .heard (.own .responseMsg)] ∧
      RecvOutcome awaiting es c' := by
  have hsample : ((recvMachine .little fun _ => none).run awaiting
      [withInput .timeout, withInput .timeout, withInput (.ready (some zeroMsg)),
        answer .responseMsg]).map (fun r => r.2) =
      some [.heard .timeout, .resent, .heard .other, .heard (.own .responseMsg)] := by
    decide +kernel
  obtain ⟨⟨c', es⟩, hrun, hes⟩ := Option.map_eq_some_iff.1 hsample
  exact ⟨c', es, hrun, hes, recv_outcome .little (fun _ => none) rfl rfl rfl hrun⟩

end UdpClient

end Gdnp
