import Gdnp.Stray

/-!
# Retransmissions

`send` stores its payload in `lastTopOptions` by its size, and `recv` repeats it by its `strlen`.
So the bytes up to the first zero are repeated, and with no zero byte `strlen` runs out of
`lastTopOptions`.  A repetition is the same as the original exactly when only zeros follow a zero
in the payload (`retransmits_iff`).
-/

open CMem

namespace Gdnp

/-- The two messages carry the same type, session id and data. -/
def Msg.Repeats (msg msg' : Msg) : Prop :=
  ∃ d, decode (some msg) = .ok d ∧ decode (some msg') = .ok d

namespace UdpClient

/-- `send` of a payload of a given size, up to one `sendto`. -/
def sendPayload (c : UdpClient) (payload : List UInt8) (env : DiscoverEnv) :
    UdpClient × Option Errno × List DiscoverEvent :=
  let w := sendPdu c.udpSock payload .discoveryMsg c.sessionId env.send
  match c.curStates with
  | .off =>
    if w.1 = .addrErr then (c, none, [])
    else if w.1 = .success then
      ({ c with
        lastTopOptions := (CharArray.zero _).memcpy payload
        curStates := .waitResponse }, some .success, DiscoverEvent.ofSendDiscover w)
    else (c, some w.1, [.sendDiscover w.1])
  | .waitResponse =>
    if c.tryTimes < maxTryTimes then
      if w.1 = .addrErr then (c, none, [])
      else ({ c with tryTimes := c.tryTimes + 1 }, some w.1, DiscoverEvent.ofSendDiscover w)
    else ({ c with curStates := .ending }, some .clientRecvNothingErr, [])
  | .wait => (c, some .clientSendUnexceptedMsgTypeErr, [])
  | .informed => (c, some env.rtnval, [])
  | .ending => (c, some .clientSendUnexceptedMsgTypeErr, [])
  | .negoing => (c, some .clientUnexceptedStateErr, [])

/-- `discover` and `recv` give the size of a text. -/
theorem send_eq_sendPayload (c : UdpClient) (text : CString) (env : DiscoverEnv) :
    c.send text env = c.sendPayload text.bytes env := rfl

/-- All messages sent in a run repeat `msg`, and `strlen` finds its end in `lastTopOptions`. -/
structure Retransmits (msg : Msg) (c' : UdpClient) (es : List DiscoverEvent) : Prop where
  repeats : ∀ msg', .sent msg' ∈ es → msg.Repeats msg'
  terminated : c'.discoverPc = .resend → 0 ∈ c'.lastTopOptions.bytes

variable {o : ByteOrder} {inetPton : CString → Option (BitVec 128)} {c c' c₁ : UdpClient}
  {env : DiscoverEnv} {es : List DiscoverEvent} {rtnval : Errno} {payload : List UInt8}
  {msg msg' : Msg}

/-! ### What is sent -/

theorem decode_of_sendPdu {udpSock : ℤ} {data : List UInt8} {sessionId : UInt32} {w : WriteEnv}
    (h : (sendPdu udpSock data .discoveryMsg sessionId w).2 = some msg) :
    0 ≤ udpSock ∧ Writable data sessionId ∧ decode (some msg) =
      .ok ⟨.discoveryMsg, sessionId, (CharArray.zero _).memcpy data, maxStringLength + 1⟩ := by
  unfold sendPdu at h
  split_ifs at h with hsock
  exact ⟨not_lt.1 hsock, decode_of_writePdu h⟩

/-- A successful call of `send` in OFF. -/
theorem sendPayload_off (hoff : c.curStates = .off)
    (h : c.sendPayload payload env =
      (c₁, some .success, [.sent msg, .sendDiscover .success])) :
    c₁ = { c with
      lastTopOptions := (CharArray.zero _).memcpy payload
      curStates := .waitResponse } ∧
    (sendPdu c.udpSock payload .discoveryMsg c.sessionId env.send).2 = some msg := by
  unfold sendPayload at h
  rw [hoff] at h
  dsimp only at h
  split_ifs at h with haddr hsuccess
  · cases h
  · obtain ⟨rfl, hsent⟩ := Prod.mk.inj h
    replace hsent := congrArg (List.filterMap DiscoverEvent.sentMsg?) (Prod.mk.inj hsent).2
    rw [DiscoverEvent.filterMap_ofSendDiscover] at hsent
    exact ⟨rfl, Option.toList_eq_singleton_iff.1 hsent⟩
  · exact absurd (Option.some.inj (Prod.mk.inj (Prod.mk.inj h).2).1) hsuccess

/-! ### The steps of `recv` -/

/-- `recv` may still send. -/
def Active (c : UdpClient) : Prop :=
  c.discoverPc = .recv ∨ c.discoverPc = .recvInWaitResponse ∨ c.discoverPc = .resend

theorem not_active_of_pc {pc : DiscoverPc} (hpc : c.discoverPc = pc)
    (h : pc ≠ .recv ∧ pc ≠ .recvInWaitResponse ∧ pc ≠ .resend) : ¬ c.Active := by
  unfold Active
  rw [hpc]
  rintro (hrecv | hloop | hresend)
  · exact h.1 hrecv
  · exact h.2.1 hloop
  · exact h.2.2 hresend

/-- What a step of `recv` keeps; the tries count only while it may still send. -/
structure Keeps (c c' : UdpClient) : Prop where
  sessionId : c'.sessionId = c.sessionId
  lastTopOptions : c'.lastTopOptions = c.lastTopOptions
  pc : c'.discoverPc ≠ .send
  tryTimes : c'.Active → c.Active ∧ c.tryTimes ≤ c'.tryTimes

theorem keeps_of_pc (pc : DiscoverPc) (hpc : c'.discoverPc = pc)
    (h : pc ≠ .recv ∧ pc ≠ .recvInWaitResponse ∧ pc ≠ .resend) (hsend : pc ≠ .send)
    (hid : c'.sessionId = c.sessionId) (hlast : c'.lastTopOptions = c.lastTopOptions) :
    c.Keeps c' :=
  ⟨hid, hlast, by rw [hpc]; exact hsend, fun hactive => absurd hactive (not_active_of_pc hpc h)⟩

theorem keeps_loop (hc : c.Active) (hid : c'.sessionId = c.sessionId)
    (hlast : c'.lastTopOptions = c.lastTopOptions) (htries : c.tryTimes ≤ c'.tryTimes)
    (rtnval : Errno) : c.Keeps (c'.loop rtnval) := by
  unfold loop
  split_ifs
  · exact ⟨hid, hlast, by simp, fun _ => ⟨hc, htries⟩⟩
  · exact keeps_of_pc (.received rtnval) rfl (by simp) (by simp) hid hlast

/-- `recv` returns from WAIT. -/
theorem keeps_leaveWait (inLoop : Bool) (hcur : c'.curStates ≠ .waitResponse)
    (hid : c'.sessionId = c.sessionId) (hlast : c'.lastTopOptions = c.lastTopOptions)
    (rtnval : Errno) : c.Keeps (c'.leaveWait inLoop rtnval) := by
  rw [leaveWait_eq inLoop hcur]
  exact keeps_of_pc (.received rtnval) rfl (by simp) (by simp) hid hlast

theorem recvInWaitResponse_keeps (hpc : c.discoverPc = .recvInWaitResponse)
    (h : c.recvInWaitResponse env = (c', es)) : c.Keeps c' ∧ ∀ msg, .sent msg ∉ es := by
  have hactive : c.Active := .inr (.inl hpc)
  cases recvInWaitResponse_cases h with
  | wait => exact ⟨keeps_of_pc (.recvInWait true) rfl (by simp) (by simp) rfl rfl, by simp⟩
  | timeout => exact ⟨⟨rfl, rfl, by simp, fun _ => ⟨hactive, le_rfl⟩⟩, by simp⟩
  | answer | unexpected | error =>
    refine ⟨?_, by simp⟩
    apply keeps_loop hactive
    · rfl
    · rfl
    · exact le_rfl

theorem recvInWait_keeps {inLoop : Bool} (hcur : c.curStates = .wait)
    (h : c.recvInWait inLoop env = (c', es)) : c.Keeps c' ∧ ∀ msg, .sent msg ∉ es := by
  have hwait : c.curStates ≠ .waitResponse := by
    rw [hcur]
    simp
  cases recvInWait_cases h with
  | wait => exact ⟨keeps_of_pc (.recvInWait inLoop) rfl (by simp) (by simp) rfl rfl, by simp⟩
  | answer own type =>
    refine ⟨?_, by simp⟩
    apply keeps_leaveWait
    · obtain ⟨-, rfl⟩ | ⟨-, rfl⟩ := endState?_eq_some_iff.1 type <;> simp
    · rfl
    · rfl
  | timeout =>
    refine ⟨?_, by simp⟩
    apply keeps_leaveWait
    · simp
    · rfl
    · rfl
  | unexpected | error =>
    refine ⟨?_, by simp⟩
    apply keeps_leaveWait
    · exact hwait
    · rfl
    · rfl

theorem recv_keeps (hpc : c.discoverPc = .recv) : c.Keeps c.recv := by
  unfold recv
  cases c.curStates with
  | waitResponse => exact ⟨rfl, rfl, by simp, fun _ => ⟨.inl hpc, le_rfl⟩⟩
  | wait => exact keeps_of_pc (.recvInWait false) rfl (by simp) (by simp) rfl rfl
  | off | informed | ending | negoing =>
    exact keeps_of_pc (.received _) rfl (by simp) (by simp) rfl rfl

theorem finish_keeps (rtnval : Errno) (env : DiscoverEnv) :
    c.Keeps (c.finish o inetPton rtnval env).1 ∧
      ∀ msg, .sent msg ∉ (c.finish o inetPton rtnval env).2 := by
  unfold finish
  dsimp only
  split_ifs
  · exact ⟨keeps_of_pc (.ret .success) rfl (by simp) (by simp) rfl rfl, by simp⟩
  · exact ⟨keeps_of_pc (.ret .error) rfl (by simp) (by simp) rfl rfl, by simp⟩
  · exact ⟨keeps_of_pc (.ret .success) rfl (by simp) (by simp) rfl rfl, by simp⟩
  · exact ⟨keeps_of_pc (.ret .success) rfl (by simp) (by simp) rfl rfl, by simp⟩

/-- The message that a step may send. -/
def resent? (c : UdpClient) (env : DiscoverEnv) : Option Msg :=
  if c.discoverPc = .resend ∧ c.tryTimes < maxTryTimes then
    (c.sendDiscover (textAt c.lastTopOptions.bytes env.behind) env).2
  else none

theorem resend_keeps (hpc : c.discoverPc = .resend) (hcur : c.curStates = .waitResponse)
    (h : c.step o inetPton env = some (c', es)) :
    c.Keeps c' ∧ ∀ msg, .sent msg ∈ es → c.resent? env = some msg := by
  have hactive : c.Active := .inr (.inr hpc)
  cases resend_cases hpc hcur h with
  | again => exact ⟨⟨rfl, rfl, by simp [hpc], fun _ => ⟨hactive, le_rfl⟩⟩, by simp⟩
  | @sent e msg' tries he sent =>
    refine ⟨?_, fun msg hmem => ?_⟩
    · apply keeps_loop hactive
      · rfl
      · rfl
      · exact Nat.le_succ _
    · rw [resent?, if_pos ⟨hpc, tries⟩, sent]
      simpa [DiscoverEvent.ofSendDiscover] using hmem
  | gaveUp =>
    refine ⟨?_, by simp⟩
    apply keeps_loop hactive
    · rfl
    · rfl
    · exact le_rfl

/-- A step of `recv`. -/
theorem step_keeps (h : c.step o inetPton env = some (c', es)) (hc : c.InState)
    (hsend : c.discoverPc ≠ .send) :
    c.Keeps c' ∧ ∀ msg, .sent msg ∈ es → c.resent? env = some msg := by
  cases hpc : c.discoverPc with
  | idle | ret =>
    rw [step, hpc] at h
    cases h
  | send => exact absurd hpc hsend
  | recv =>
    rw [step, hpc] at h
    cases h
    exact ⟨recv_keeps hpc, by simp⟩
  | recvInWaitResponse =>
    rw [step, hpc] at h
    obtain ⟨hkeeps, hsent⟩ := recvInWaitResponse_keeps hpc (Option.some.inj h)
    exact ⟨hkeeps, fun msg hmem => absurd hmem (hsent msg)⟩
  | resend =>
    rw [InState, hpc] at hc
    exact resend_keeps hpc hc h
  | recvInWait inLoop =>
    rw [InState, hpc] at hc
    rw [step, hpc] at h
    obtain ⟨hkeeps, hsent⟩ := recvInWait_keeps hc (Option.some.inj h)
    exact ⟨hkeeps, fun msg hmem => absurd hmem (hsent msg)⟩
  | received rtnval =>
    have hfinish : c.Keeps (c.finish o inetPton rtnval env).1 ∧ _ := finish_keeps rtnval env
    obtain ⟨hkeeps, hsent⟩ := hfinish
    rw [step, hpc] at h
    rw [Option.some.inj h] at hkeeps hsent
    exact ⟨hkeeps, fun msg hmem => absurd hmem (hsent msg)⟩

/-! ### The runs -/

theorem Keeps.trans {c'' : UdpClient} (h : c.Keeps c') (h' : c'.Keeps c'') : c.Keeps c'' where
  sessionId := h'.sessionId.trans h.sessionId
  lastTopOptions := h'.lastTopOptions.trans h.lastTopOptions
  pc := h'.pc
  tryTimes hactive :=
    have hstep := h'.tryTimes hactive
    have hbefore := h.tryTimes hstep.1
    ⟨hbefore.1, hbefore.2.trans hstep.2⟩

/-- What `recv` sends while it repeats the text in `lastTopOptions`. -/
def Resent (c : UdpClient) (msg : Msg) : Prop :=
  c.tryTimes < maxTryTimes ∧ ∃ behind, decode (some msg) = .ok ⟨.discoveryMsg, c.sessionId,
    (CharArray.zero _).memcpy (textAt c.lastTopOptions.bytes behind).bytes, maxStringLength + 1⟩

theorem Keeps.resent (h : c.Keeps c') (hmsg : c'.resent? env = some msg) : c.Resent msg := by
  unfold resent? at hmsg
  split_ifs at hmsg with hresend
  obtain ⟨-, -, hdecode⟩ := decode_of_sendPdu hmsg
  rw [h.sessionId, h.lastTopOptions] at hdecode
  have htries := (h.tryTimes (.inr (.inr hresend.1))).2
  exact ⟨htries.trans_lt hresend.2, env.behind, hdecode⟩

theorem recv_resends {as : List DiscoverEnv} (hpc : c.discoverPc = .recv)
    (hrun : (machine o inetPton).run c as = some (c', es)) :
    c.Keeps c' ∧ ∀ msg, .sent msg ∈ es → c.Resent msg := by
  have hstart : c.InState := by
    rw [InState, hpc]
    trivial
  have hrefl : c.Keeps c := ⟨rfl, rfl, by simp [hpc], fun hactive => ⟨hactive, le_rfl⟩⟩
  refine (EventMachine.run_invariant_trace (t := [])
    (P := fun c' t => c'.InState ∧ c.Keeps c' ∧ ∀ msg, .sent msg ∈ t → c.Resent msg)
    (fun c' t env c'' es hc h => ?_) ⟨hstart, hrefl, by simp⟩ hrun).2
  obtain ⟨hin, hkeeps, hsent⟩ := hc
  obtain ⟨hkeeps', hsent'⟩ := step_keeps h hin hkeeps.pc
  refine ⟨step_inState h hin, hkeeps.trans hkeeps', fun msg hmem => ?_⟩
  rcases List.mem_append.1 hmem with hmem | hmem
  · exact hsent msg hmem
  · exact hkeeps.resent (hsent' msg hmem)

/-- A timeout in WAIT_RESPONSE. -/
theorem step_timeout (o : ByteOrder) (inetPton : CString → Option (BitVec 128))
    (hpc : c.discoverPc = .recvInWaitResponse) (hcur : c.curStates = .waitResponse) :
    c.step o inetPton (withInput .timeout) = some ({ c with discoverPc := .resend }, []) := by
  rw [step, hpc]
  dsimp only
  unfold recvInWaitResponse
  dsimp only [recvInTime, withInput]
  rw [if_pos hcur]

/-- The first two steps of `recv`, with a timeout. -/
theorem recv_timeout (o : ByteOrder) (inetPton : CString → Option (BitVec 128))
    (hpc : c.discoverPc = .recv) (hcur : c.curStates = .waitResponse) :
    (machine o inetPton).run c [withInput .timeout, withInput .timeout] =
      some ({ c with discoverPc := .resend }, []) := by
  have hrecv : c.step o inetPton (withInput .timeout) =
      some ({ c with discoverPc := .recvInWaitResponse }, []) := by
    rw [step, hpc]
    dsimp only
    rw [recv, hcur]
  have htimeout := step_timeout (c := { c with discoverPc := .recvInWaitResponse }) o inetPton rfl
    hcur
  exact EventMachine.run_cons_iff.2
    ⟨_, [], [], hrecv, EventMachine.run_singleton_iff.2 htimeout, rfl⟩

/-- The next step sends what `strlen` finds in `lastTopOptions`. -/
theorem resend_sends (o : ByteOrder) (inetPton : CString → Option (BitVec 128))
    (hcur : c.curStates = .waitResponse) (htries : c.tryTimes < maxTryTimes)
    (hsock : 0 ≤ c.udpSock)
    (hwritable : Writable (textAt c.lastTopOptions.bytes default).bytes c.sessionId) :
    ∃ msg, step o inetPton { c with discoverPc := .resend } (withInput .timeout) =
        some ({ c with tryTimes := c.tryTimes + 1, discoverPc := .recvInWaitResponse },
          [.sent msg, .sendDiscover .success]) ∧
      decode (some msg) = .ok ⟨.discoveryMsg, c.sessionId,
        (CharArray.zero _).memcpy (textAt c.lastTopOptions.bytes default).bytes,
        maxStringLength + 1⟩ := by
  have hsuccess : (writePdu (textAt c.lastTopOptions.bytes default).bytes .discoveryMsg c.sessionId
      ⟨.success, 0⟩).1 = .success := writePdu_success_iff.2 ⟨hwritable, rfl⟩
  obtain ⟨msg, hmsg⟩ := Option.isSome_iff_exists.1 (writePdu_isSome_iff.2 hsuccess)
  have hsend : sendDiscover { c with discoverPc := .resend }
      (textAt c.lastTopOptions.bytes default) (withInput .timeout) = (.success, some msg) :=
    (if_neg (not_lt.2 hsock)).trans (Prod.ext hsuccess hmsg)
  refine ⟨msg, ?_, (decode_of_writePdu hmsg).2⟩
  rw [step]
  dsimp only [send]
  rw [hcur]
  dsimp only
  rw [if_pos htries]
  have hbehind : (withInput .timeout).behind = default := rfl
  rw [hbehind, hsend, if_neg (by simp)]
  exact congrArg (fun c => some (c, _)) (loop_of_waitResponse rfl)

theorem textAt_bytes {l : List UInt8} (h : 0 ∈ l) (behind : CString) :
    (textAt l behind).bytes = cstr l := if_pos h

/-- With a zero byte behind it, an array holds no longer text than itself. -/
theorem length_textAt_le {n : ℕ} (a : CharArray n) : (textAt a.bytes default).bytes.length ≤ n := by
  by_cases h : 0 ∈ a.bytes
  · rw [textAt_bytes h]
    exact a.length_cstr_le
  · have hbytes : (textAt a.bytes default).bytes = a.bytes ++ [] := if_neg h
    rw [hbytes, List.append_nil, a.length_eq]

/-- The repetitions are right exactly when the padded payload has a zero byte, and after the first
one only zeros, or there are no retries left. -/
theorem retransmits_iff (hoff : c.curStates = .off)
    (hsend : c.sendPayload payload env =
      (c₁, some .success, [.sent msg, .sendDiscover .success])) :
    (∀ as c' es, (machine o inetPton).run { c₁ with discoverPc := .recv } as = some (c', es) →
        Retransmits msg c' es) ↔
      (0 ∈ payload ∨ payload.length < maxStringLength) ∧
        ((payload.Pairwise fun a b => a = 0 → b = 0) ∨ maxTryTimes ≤ c.tryTimes) := by
  obtain ⟨rfl, hmsg⟩ := sendPayload_off hoff hsend
  obtain ⟨hsock, hwritable, hdecode⟩ := decode_of_sendPdu hmsg
  rw [← CharArray.mem_zero_memcpy_iff hwritable.1, ← CharArray.pairwise_zero_memcpy_iff hwritable.1,
    ← CharArray.zero_memcpy_cstr_iff]
  generalize (CharArray.zero maxStringLength).memcpy payload = last at hdecode ⊢
  constructor
  · intro hright
    let c₂ : UdpClient :=
      { c with lastTopOptions := last, curStates := .waitResponse, discoverPc := .recv }
    have htimeout := recv_timeout (c := c₂) o inetPton rfl rfl
    have hzero : 0 ∈ last.bytes := (hright _ _ _ htimeout).terminated rfl
    refine ⟨hzero, or_iff_not_imp_right.2 fun htries => ?_⟩
    have htext := textAt_bytes hzero default
    obtain ⟨msg', hstep, hdecode'⟩ := resend_sends (c := c₂) o inetPton rfl
      (not_le.1 htries) hsock ⟨length_textAt_le last, hwritable.2⟩
    obtain ⟨d, hd, hd'⟩ := (hright _ _ _ (EventMachine.run_concat htimeout hstep)).repeats msg'
      (by simp)
    replace hdecode' : decode (some msg') = .ok ⟨.discoveryMsg, c.sessionId,
        (CharArray.zero _).memcpy (textAt last.bytes default).bytes, maxStringLength + 1⟩ :=
      hdecode'
    rw [hd', ← hd, hdecode, htext] at hdecode'
    exact (congrArg Decoded.data (Except.ok.inj hdecode')).symm
  · rintro ⟨hzero, hpadded⟩ as c' es hrun
    obtain ⟨hkeeps, hresent⟩ := recv_resends rfl hrun
    refine ⟨fun msg' hmem => ?_, fun _ => ?_⟩
    · obtain ⟨htries, behind, hdecode'⟩ := hresent msg' hmem
      refine ⟨_, hdecode, ?_⟩
      rw [hdecode', textAt_bytes hzero, hpadded.resolve_right (not_le.2 htries)]
    · rw [hkeeps.lastTopOptions]
      exact hzero

section Samples

set_option maxRecDepth 8000

/-- A client in OFF with an open socket. -/
def opened : UdpClient := { new (CharArray.zero _) 0 with udpSock := 3 }

/-- The first three bytes of the data of a message. -/
def firstBytes (msg : Msg) : Option (List UInt8) :=
  match decode (some msg) with
  | .ok d => some (d.data.bytes.take 3)
  | .error _ => none

/-- A payload with a zero byte inside is repeated up to that byte. -/
theorem not_retransmits :
    ¬ ∀ (o : ByteOrder) (inetPton : CString → Option (BitVec 128)) (c c₁ c' : UdpClient)
        (payload : List UInt8) (env : DiscoverEnv) (msg : Msg) (as : List DiscoverEnv)
        (es : List DiscoverEvent),
      c.curStates = .off →
      c.sendPayload payload env = (c₁, some .success, [.sent msg, .sendDiscover .success]) →
      (machine o inetPton).run { c₁ with discoverPc := .recv } as = some (c', es) →
      Retransmits msg c' es := by
  intro h
  obtain ⟨c₁, msg, hsend, hbytes⟩ : ∃ c₁ msg, opened.sendPayload [97, 0, 97]
      (withInput .timeout) = (c₁, some .success, [.sent msg, .sendDiscover .success]) ∧
        firstBytes msg = some [97, 0, 97] := ⟨_, _, rfl, by decide +kernel⟩
  obtain ⟨rfl, -⟩ := sendPayload_off rfl hsend
  obtain ⟨c', msg', hrun, hbytes'⟩ : ∃ c' msg', (machine .little fun _ => none).run
      { opened with
        lastTopOptions := (CharArray.zero _).memcpy [97, 0, 97]
        curStates := .waitResponse
        discoverPc := .recv }
      [withInput .timeout, withInput .timeout, withInput .timeout] =
        some (c', [.sent msg', .sendDiscover .success]) ∧
        firstBytes msg' = some [97, 0, 0] := ⟨_, _, rfl, by decide +kernel⟩
  obtain ⟨d, hd, hd'⟩ := (h _ _ _ _ c' _ _ msg _ _ rfl hsend hrun).repeats msg' (by simp)
  rw [firstBytes, hd] at hbytes
  rw [firstBytes, hd'] at hbytes'
  have heq : [97, 0, 97] = ([97, 0, 0] : List UInt8) :=
    Option.some.inj (hbytes.symm.trans hbytes')
  simp at heq

/-- The text `a`. -/
theorem retransmits_text :
    ∃ c₁ msg, opened.sendPayload [97] (withInput .timeout) =
        (c₁, some .success, [.sent msg, .sendDiscover .success]) ∧
      ((∀ as c' es, (machine .little fun _ => none).run { c₁ with discoverPc := .recv } as =
          some (c', es) → Retransmits msg c' es) ↔
        (0 ∈ [(97 : UInt8)] ∨ [(97 : UInt8)].length < maxStringLength) ∧
          (([97].Pairwise fun a b : UInt8 => a = 0 → b = 0) ∨ maxTryTimes ≤ opened.tryTimes)) := by
  obtain ⟨c₁, msg, hsend⟩ : ∃ c₁ msg, opened.sendPayload [97] (withInput .timeout) =
      (c₁, some .success, [.sent msg, .sendDiscover .success]) := ⟨_, _, rfl⟩
  exact ⟨c₁, msg, hsend, retransmits_iff rfl hsend⟩

end Samples

end UdpClient

end Gdnp
