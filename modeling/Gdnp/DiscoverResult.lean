import Gdnp.Discover

/-!
# The result of a discovery

`discover` drops most return codes: it returns SUCCESS when all retries timed out, when a
NEGO_END_MSG came, when an error ended the wait, and when `inet_pton` took the text of the Locator
for no address (`not_discover_sound`).  Its result is right exactly when the first message could not
be sent, or a RESPONSE_MSG came and, in case it was taken for a Locator, it was one, with a valid
text that reads in memory as the same address (`discover_sound`).
-/

open CMem

namespace Gdnp

/-- The text of the value in received data. -/
def optionText (o : ByteOrder) (data : CharArray maxStringLength) : CString where
  bytes := cstr ((data.bytes.drop GdnpOption.lenExceptValue).take
    (word o (data.mem fun _ => 0) 1).toNat)
  zero_notMem := zero_notMem_cstr _

/-- The address in received data, if it is a Locator with a valid text. -/
def locatorAddr? (o : ByteOrder) (inetPton : CString → Option (BitVec 128))
    (data : CharArray maxStringLength) : Option (BitVec 128) :=
  if OptionType.ofCode (word o (data.mem fun _ => 0) 0).toNat = some .locator then
    inetPton (optionText o data)
  else none

/-- No RESPONSE_MSG is received, and `discover` goes on. -/
def DiscoverEvent.Silent : DiscoverEvent → Prop
  | sent _ | sendDiscover _ => True
  | received type _ => type ≠ .responseMsg
  | sendFailed _ | parsed _ _ _ => False

instance : DecidablePred DiscoverEvent.Silent
  | .sent _ | .sendDiscover _ => inferInstanceAs (Decidable True)
  | .received _ _ => inferInstanceAs (Decidable (_ ≠ _))
  | .sendFailed _ | .parsed _ _ _ => inferInstanceAs (Decidable False)

theorem DiscoverEvent.silent_ofSendDiscover (w : Errno × Option Msg) :
    ∀ e ∈ ofSendDiscover w, e.Silent := by
  obtain ⟨e, _ | msg⟩ := w <;> simp [ofSendDiscover, Silent]

namespace UdpClient

variable {o : ByteOrder} {inetPton : CString → Option (BitVec 128)} {c c' : UdpClient}
  {env : DiscoverEnv} {es : List DiscoverEvent} {rtnval : Errno} {addr₀ : SockAddr}

/-- A RESPONSE_MSG with an address is received. -/
def Located (o : ByteOrder) (inetPton : CString → Option (BitVec 128))
    (es : List DiscoverEvent) (addr : BitVec 128) : Prop :=
  ∃ data, .received .responseMsg data ∈ es ∧ locatorAddr? o inetPton data = some addr

/-- `discover` returns SUCCESS exactly when it received an address, which it then stores, and
otherwise leaves `negoAddr` as it was. -/
def Sound (o : ByteOrder) (inetPton : CString → Option (BitVec 128)) (addr₀ addr' : SockAddr)
    (rtnval : Errno) (es : List DiscoverEvent) : Prop :=
  (rtnval = .success ↔ ∃ addr, Located o inetPton es addr) ∧
    (∀ addr, Located o inetPton es addr → addr'.addr = addr) ∧
    ((¬ ∃ addr, Located o inetPton es addr) → addr' = addr₀)

/-- The first message could not be sent, or a RESPONSE_MSG was parsed; if it was taken for a
Locator, it was one with a valid text, and the text that was read has the same address, or none
while `negoAddr` was this address before. -/
def Answered (o : ByteOrder) (inetPton : CString → Option (BitVec 128)) (addr₀ : SockAddr)
    (es : List DiscoverEvent) : Prop :=
  (∃ rtnval, .sendFailed rtnval ∈ es) ∨
    ∃ data opt text, .parsed data opt text ∈ es ∧ (opt.type = .locator →
      ∃ addr, locatorAddr? o inetPton data = some addr ∧
        (inetPton text).getD addr₀.addr = addr)

/-- How a discovery ends. -/
inductive Outcome (o : ByteOrder) (inetPton : CString → Option (BitVec 128)) (addr₀ : SockAddr) :
    List DiscoverEvent → SockAddr → Errno → Prop
  | failed {es : List DiscoverEvent} {rtnval : Errno} (hs : ∀ e ∈ es, e.Silent)
      (hne : rtnval ≠ .success) : Outcome o inetPton addr₀ (es ++ [.sendFailed rtnval]) addr₀ rtnval
  | nothing {es : List DiscoverEvent} (hs : ∀ e ∈ es, e.Silent) :
    Outcome o inetPton addr₀ es addr₀ .success
  | locator {es : List DiscoverEvent} {data : CharArray maxStringLength} {opt : GdnpOption}
      (hs : ∀ e ∈ es, e.Silent) (text : CString) (hopt : opt.type = .locator) :
    Outcome o inetPton addr₀ (es ++ [.received .responseMsg data, .parsed data opt text])
      { addr₀ with addr := (inetPton text).getD addr₀.addr } .success
  | other {es : List DiscoverEvent} {data : CharArray maxStringLength} {opt : GdnpOption}
      (hs : ∀ e ∈ es, e.Silent) (text : CString) (hopt : opt.type ≠ .locator)
      (hdata : locatorAddr? o inetPton data = none) :
    Outcome o inetPton addr₀ (es ++ [.received .responseMsg data, .parsed data opt text])
      addr₀ .error

theorem not_located (h : ∀ data, .received .responseMsg data ∉ es) (addr : BitVec 128) :
    ¬ Located o inetPton es addr := by
  rintro ⟨data, hdata, -⟩
  exact h data hdata

theorem not_received (hs : ∀ e ∈ es, e.Silent) (data : CharArray maxStringLength) :
    .received .responseMsg data ∉ es := fun hdata => hs _ hdata rfl

section Answer

variable {data : CharArray maxStringLength} {opt : GdnpOption} {text : CString}

theorem located_iff (hs : ∀ e ∈ es, e.Silent) {addr : BitVec 128} :
    Located o inetPton (es ++ [.received .responseMsg data, .parsed data opt text]) addr ↔
      locatorAddr? o inetPton data = some addr := by
  constructor
  · rintro ⟨data', hdata', haddr⟩
    rcases List.mem_append.1 hdata' with hdata' | hdata'
    · exact absurd hdata' (not_received hs data')
    · simp only [List.mem_cons, DiscoverEvent.received.injEq, true_and, reduceCtorEq,
        List.not_mem_nil, or_false] at hdata'
      rw [← hdata']
      exact haddr
  · exact fun haddr => ⟨data, by simp, haddr⟩

theorem answered_iff (hs : ∀ e ∈ es, e.Silent) :
    Answered o inetPton addr₀ (es ++ [.received .responseMsg data, .parsed data opt text]) ↔
      (opt.type = .locator → ∃ addr, locatorAddr? o inetPton data = some addr ∧
        (inetPton text).getD addr₀.addr = addr) := by
  constructor
  · rintro (⟨rtnval, hfailed⟩ | ⟨data', opt', text', hparsed, hanswer⟩)
    · rcases List.mem_append.1 hfailed with hfailed | hfailed
      · exact absurd (hs _ hfailed) id
      · simp at hfailed
    · rcases List.mem_append.1 hparsed with hparsed | hparsed
      · exact absurd (hs _ hparsed) id
      · simp only [List.mem_cons, reduceCtorEq, DiscoverEvent.parsed.injEq, List.not_mem_nil,
          or_false, false_or] at hparsed
        obtain ⟨rfl, rfl, rfl⟩ := hparsed
        exact hanswer
  · exact fun hanswer => .inr ⟨data, opt, text, by simp, hanswer⟩

end Answer

/-- A discovery that has ended is sound exactly when it was answered. -/
theorem Outcome.sound_iff {addr' : SockAddr} (h : Outcome o inetPton addr₀ es addr' rtnval) :
    Sound o inetPton addr₀ addr' rtnval es ↔ Answered o inetPton addr₀ es := by
  cases h with
  | failed hs hne =>
    rename_i es
    have hnone : ∀ addr, ¬ Located o inetPton (es ++ [.sendFailed rtnval]) addr := by
      apply not_located
      intro data hdata
      rcases List.mem_append.1 hdata with hdata | hdata
      · exact not_received hs data hdata
      · simp at hdata
    refine iff_of_true ⟨?_, fun addr h => absurd h (hnone addr), fun _ => rfl⟩
      (.inl ⟨rtnval, by simp⟩)
    exact iff_of_false hne fun ⟨addr, h⟩ => hnone addr h
  | nothing hs =>
    apply iff_of_false
    · rintro ⟨hiff, -⟩
      obtain ⟨addr, h⟩ := hiff.1 rfl
      exact not_located (not_received hs) addr h
    · rintro (⟨rtnval, hfailed⟩ | ⟨data, opt, text, hparsed, -⟩)
      · exact hs _ hfailed
      · exact hs _ hparsed
  | locator hs text hopt =>
    rw [answered_iff hs]
    simp only [Sound, located_iff hs, true_iff]
    constructor
    · rintro ⟨⟨addr, haddr⟩, hstored, -⟩ -
      exact ⟨addr, haddr, hstored addr haddr⟩
    · intro hanswer
      obtain ⟨addr, haddr, hstored⟩ := hanswer hopt
      refine ⟨⟨addr, haddr⟩, fun addr' haddr' => ?_, fun hnone => absurd ⟨addr, haddr⟩ hnone⟩
      rw [hstored]
      exact Option.some.inj (haddr.symm.trans haddr')
  | other hs text hopt hdata =>
    rw [answered_iff hs]
    simp only [Sound, located_iff hs, hdata, reduceCtorEq, exists_false, IsEmpty.forall_iff,
      implies_true, not_false_eq_true, true_and, hopt]

/-! ### Every discovery ends so -/

/-- `send` touches neither `negoAddr` nor what `discover` does next. -/
theorem send_spec (hnego : c.negoAddr = addr₀) (hs : ∀ e ∈ es, e.Silent) (text : CString)
    (env : DiscoverEnv) :
    (c.send text env).1.negoAddr = addr₀ ∧ (c.send text env).1.discoverPc = c.discoverPc ∧
      ∀ e ∈ es ++ (c.send text env).2.2, e.Silent := by
  rw [← hnego, List.forall_mem_append]
  unfold send
  dsimp only
  have hsent := DiscoverEvent.silent_ofSendDiscover (c.sendDiscover text env)
  split <;> (try split_ifs) <;> simp_all [DiscoverEvent.Silent]

/-- A repeated message leaves the state WAIT_RESPONSE only when the retries are used up. -/
theorem send_waitResponse (h : c.curStates = .waitResponse) (text : CString) (env : DiscoverEnv) :
    (c.send text env).1.curStates = .waitResponse ∨
      (c.send text env).2.1 = some .clientRecvNothingErr := by
  rw [send_of_waitResponse h]
  split_ifs
  · exact .inl h
  · exact .inl h
  · exact .inr rfl

/-- What holds of the events of a discovery so far. -/
def Proceeds (o : ByteOrder) (inetPton : CString → Option (BitVec 128)) (addr₀ : SockAddr)
    (c : UdpClient) (es : List DiscoverEvent) : Prop :=
  match c.discoverPc with
  | .ret rtnval => Outcome o inetPton addr₀ es c.negoAddr rtnval
  | .received rtnval => c.negoAddr = addr₀ ∧
      if rtnval = .success ∧ c.type = .responseMsg then
        ∃ es₀, es = es₀ ++ [.received .responseMsg c.message] ∧ ∀ e ∈ es₀, e.Silent
      else ∀ e ∈ es, e.Silent
  | .resend => c.negoAddr = addr₀ ∧ (∀ e ∈ es, e.Silent) ∧ c.curStates = .waitResponse
  | _ => c.negoAddr = addr₀ ∧ ∀ e ∈ es, e.Silent

theorem loop_proceeds (hnego : c.negoAddr = addr₀) (hs : ∀ e ∈ es, e.Silent)
    (h : c.curStates ≠ .waitResponse → ¬ (rtnval = .success ∧ c.type = .responseMsg)) :
    (c.loop rtnval).Proceeds o inetPton addr₀ es := by
  unfold loop
  split_ifs with hcur
  · exact ⟨hnego, hs⟩
  · refine ⟨hnego, ?_⟩
    rw [if_neg (h hcur)]
    exact hs

theorem leaveWait_proceeds (inLoop : Bool) (hnego : c.negoAddr = addr₀)
    (hs : ∀ e ∈ es, e.Silent) (h : ¬ (rtnval = .success ∧ c.type = .responseMsg)) :
    (c.leaveWait inLoop rtnval).Proceeds o inetPton addr₀ es := by
  cases inLoop with
  | true => exact loop_proceeds hnego hs fun _ => h
  | false =>
    refine ⟨hnego, ?_⟩
    exact (if_neg h).symm ▸ hs

/-- A RESPONSE_MSG ends the loop, as the state is INFORMED then. -/
theorem loop_response (hnego : c.negoAddr = addr₀) (hs : ∀ e ∈ es, e.Silent)
    (hcur : c.curStates = .informed) (htype : c.type = .responseMsg) :
    (c.loop .success).Proceeds o inetPton addr₀ (es ++ [.received .responseMsg c.message]) := by
  rw [loop_of_ne (by rw [hcur]; decide)]
  refine ⟨hnego, ?_⟩
  rw [if_pos ⟨rfl, htype⟩]
  exact ⟨es, rfl, hs⟩

theorem leaveWait_response (inLoop : Bool) (hnego : c.negoAddr = addr₀)
    (hs : ∀ e ∈ es, e.Silent) (hcur : c.curStates = .informed) (htype : c.type = .responseMsg) :
    (c.leaveWait inLoop .success).Proceeds o inetPton addr₀
      (es ++ [.received .responseMsg c.message]) := by
  cases inLoop with
  | true => exact loop_response hnego hs hcur htype
  | false =>
    refine ⟨hnego, ?_⟩
    rw [if_pos ⟨rfl, htype⟩]
    exact ⟨es, rfl, hs⟩

theorem silent_concat (hs : ∀ e ∈ es, e.Silent) {type : MsgType}
    {data : CharArray maxStringLength} (h : type ≠ .responseMsg) :
    ∀ e ∈ es ++ [.received type data], e.Silent := by
  intro e he
  rcases List.mem_append.1 he with he | he
  · exact hs e he
  · rw [List.mem_singleton.1 he]
    exact h

theorem recvInWaitResponse_proceeds {t : List DiscoverEvent} (hnego : c.negoAddr = addr₀)
    (hs : ∀ e ∈ t, e.Silent) (h : c.recvInWaitResponse env = (c', es)) :
    c'.Proceeds o inetPton addr₀ (t ++ es) := by
  cases recvInWaitResponse_cases h with
  | wait own type => exact ⟨hnego, silent_concat hs (by simp [type])⟩
  | answer own type =>
    obtain ⟨htype, rfl⟩ | ⟨htype, rfl⟩ := endState?_eq_some_iff.1 type
    · rw [htype]
      exact loop_response hnego hs rfl rfl
    · rw [htype]
      exact loop_proceeds hnego (silent_concat hs (by decide)) fun _ => by simp [setVars]
  | unexpected own wait type he =>
    apply loop_proceeds
    · exact hnego
    · exact silent_concat hs (endState?_eq_none_iff.1 type).1
    · exact fun _ hsuccess => he hsuccess.1
  | timeout own select cur =>
    rw [List.append_nil]
    exact ⟨hnego, hs, cur⟩
  | error own select he =>
    rw [List.append_nil]
    exact loop_proceeds hnego hs fun _ hsuccess => he hsuccess.1

theorem recvInWait_proceeds {t : List DiscoverEvent} {inLoop : Bool} (hnego : c.negoAddr = addr₀)
    (hs : ∀ e ∈ t, e.Silent) (h : c.recvInWait inLoop env = (c', es)) :
    c'.Proceeds o inetPton addr₀ (t ++ es) := by
  cases recvInWait_cases h with
  | wait own type => exact ⟨hnego, silent_concat hs (by simp [type])⟩
  | answer own type =>
    obtain ⟨htype, rfl⟩ | ⟨htype, rfl⟩ := endState?_eq_some_iff.1 type
    · rw [htype]
      exact leaveWait_response inLoop hnego hs rfl rfl
    · rw [htype]
      exact leaveWait_proceeds inLoop hnego (silent_concat hs (by decide)) (by simp [setVars])
  | unexpected own wait type he =>
    apply leaveWait_proceeds inLoop
    · exact hnego
    · exact silent_concat hs (endState?_eq_none_iff.1 type).1
    · exact fun hsuccess => he hsuccess.1
  | timeout =>
    rw [List.append_nil]
    exact leaveWait_proceeds inLoop hnego hs (by simp)
  | error own select he =>
    rw [List.append_nil]
    exact leaveWait_proceeds inLoop hnego hs fun hsuccess => he hsuccess.1

theorem recv_proceeds (hnego : c.negoAddr = addr₀) (hs : ∀ e ∈ es, e.Silent) :
    c.recv.Proceeds o inetPton addr₀ es := by
  unfold recv
  cases c.curStates with
  | off | informed | ending | negoing =>
    refine ⟨hnego, ?_⟩
    rw [if_neg (by simp)]
    exact hs
  | waitResponse | wait => exact ⟨hnego, hs⟩

/-- What is taken for another option is no Locator. -/
theorem locatorAddr?_eq_none {data : CharArray maxStringLength} {after : Mem} {uninit : OptionType}
    (h : (GdnpOption.parseBits o (data.mem after) uninit).type ≠ .locator) :
    locatorAddr? o inetPton data = none := by
  apply if_neg
  intro hcode
  apply h
  have hword : word o (data.mem after) 0 = word o (data.mem fun _ => 0) 0 :=
    word_congr o (by rw [data.read_mem, data.read_mem] <;> decide)
  rw [GdnpOption.parseBits, parseType, hword, hcode]
  rfl

theorem finish_proceeds (env : DiscoverEnv) (hs : c.Proceeds o inetPton addr₀ es)
    (hpc : c.discoverPc = .received rtnval) :
    (c.finish o inetPton rtnval env).1.Proceeds o inetPton addr₀
      (es ++ (c.finish o inetPton rtnval env).2) := by
  rw [Proceeds, hpc] at hs
  obtain ⟨rfl, hs⟩ := hs
  unfold finish
  by_cases hrtnval : rtnval = .success
  · by_cases htype : c.type = .responseMsg
    · rw [if_pos ⟨hrtnval, htype⟩] at hs
      obtain ⟨es₀, rfl, hsilent⟩ := hs
      rw [if_pos hrtnval, if_pos htype]
      dsimp only
      split_ifs with hopt
      · rw [List.append_assoc]
        exact .locator hsilent _ hopt
      · rw [List.append_assoc]
        exact .other hsilent _ hopt (locatorAddr?_eq_none hopt)
    · rw [if_neg fun h => htype h.2] at hs
      rw [if_pos hrtnval, if_neg htype, List.append_nil]
      exact .nothing hs
  · rw [if_neg fun h => hrtnval h.1] at hs
    rw [if_neg hrtnval, List.append_nil]
    exact .nothing hs

theorem send_proceeds {t : List DiscoverEvent} (h : c.step o inetPton env = some (c', es))
    (hpc : c.discoverPc = .send) (hnego : c.negoAddr = addr₀) (hs : ∀ e ∈ t, e.Silent) :
    c'.Proceeds o inetPton addr₀ (t ++ es) := by
  unfold step at h
  rw [hpc] at h
  obtain ⟨hnego', hpc', hsent⟩ := send_spec hnego hs (textAt c.message.bytes env.behind) env
  generalize c.send (textAt c.message.bytes env.behind) env = r at h hnego' hpc' hsent
  obtain ⟨c₁, rtnval, es₁⟩ := r
  cases rtnval with
  | none =>
    cases h
    rw [Proceeds, hpc', hpc]
    exact ⟨hnego', hsent⟩
  | some rtnval =>
    dsimp only at h
    split_ifs at h with hsuccess <;> cases h
    · exact ⟨hnego', hsent⟩
    · rw [← List.append_assoc, ← hnego']
      exact .failed hsent hsuccess

theorem resend_proceeds {t : List DiscoverEvent} (h : c.step o inetPton env = some (c', es))
    (hpc : c.discoverPc = .resend) (hnego : c.negoAddr = addr₀) (hs : ∀ e ∈ t, e.Silent)
    (hcur : c.curStates = .waitResponse) : c'.Proceeds o inetPton addr₀ (t ++ es) := by
  cases resend_cases hpc hcur h with
  | again tries hw =>
    rw [List.append_nil, Proceeds, hpc]
    exact ⟨hnego, hs, hcur⟩
  | @sent e msg tries he hw =>
    have hsent : ∀ e' ∈ DiscoverEvent.ofSendDiscover (e, msg), e'.Silent :=
      DiscoverEvent.silent_ofSendDiscover _
    apply loop_proceeds
    · exact hnego
    · exact List.forall_mem_append.2 ⟨hs, hsent⟩
    · exact fun hne => absurd hcur hne
  | gaveUp tries =>
    rw [List.append_nil]
    exact loop_proceeds hnego hs fun _ => by simp

/-- Every step keeps what holds of the events so far. -/
theorem step_proceeds {t : List DiscoverEvent} (h : c.step o inetPton env = some (c', es))
    (hs : c.Proceeds o inetPton addr₀ t) : c'.Proceeds o inetPton addr₀ (t ++ es) := by
  have hstep := h
  unfold step at h
  cases hpc : c.discoverPc with
  | idle | ret rtnval =>
    rw [hpc] at h
    cases h
  | send =>
    rw [Proceeds, hpc] at hs
    exact send_proceeds hstep hpc hs.1 hs.2
  | recv =>
    rw [hpc] at h
    cases h
    rw [Proceeds, hpc] at hs
    rw [List.append_nil]
    exact recv_proceeds hs.1 hs.2
  | recvInWaitResponse =>
    rw [hpc] at h
    rw [Proceeds, hpc] at hs
    exact recvInWaitResponse_proceeds hs.1 hs.2 (Option.some.inj h)
  | resend =>
    rw [Proceeds, hpc] at hs
    exact resend_proceeds hstep hpc hs.1 hs.2.1 hs.2.2
  | recvInWait inLoop =>
    rw [hpc] at h
    rw [Proceeds, hpc] at hs
    exact recvInWait_proceeds hs.1 hs.2 (Option.some.inj h)
  | received rtnval =>
    have hfinish := finish_proceeds env hs hpc
    rw [hpc] at h
    rw [Option.some.inj h] at hfinish
    exact hfinish

section Runs

variable {sock : ℤ} {rand : UInt32} {type : MsgType} {buffer : CharArray maxStringLength}
  {as : List DiscoverEnv}

/-- When `discover` returns, its result is right exactly when the first message could not be sent,
or a RESPONSE_MSG was parsed and, if it was taken for a Locator, it was one with a valid text that
read in memory as the same address. -/
theorem discover_sound
    (hrun : (machine o inetPton).run (c.discover o sock rand type buffer) as = some (c', es))
    (hret : c'.discoverPc = .ret rtnval) :
    Sound o inetPton c.negoAddr c'.negoAddr rtnval es ↔ Answered o inetPton c.negoAddr es := by
  have hproceeds : c'.Proceeds o inetPton c.negoAddr es := by
    refine EventMachine.run_invariant_trace (t := []) (P := Proceeds o inetPton c.negoAddr)
      (fun _ _ _ _ _ hs h => step_proceeds h hs) ?_ hrun
    exact ⟨rfl, by simp⟩
  rw [Proceeds, hret] at hproceeds
  exact hproceeds.sound_iff

end Runs

/-- A step in which `sendto` succeeds and `select` gives the outcome `select`. -/
def withInput (select : SelectEnv) : DiscoverEnv :=
  ⟨⟨.success, 0⟩, select, fun _ => 0, default, .divert, .success⟩

/-- No answer comes, and all retries time out: whatever `inet_pton` does. -/
theorem not_discover_sound :
    ¬ ∃ inetPton : CString → Option (BitVec 128),
      ∀ (o : ByteOrder) (c c' : UdpClient) (sock : ℤ) (rand : UInt32) (type : MsgType)
        (buffer : CharArray maxStringLength) (as : List DiscoverEnv) (es : List DiscoverEvent)
        (rtnval : Errno),
      (machine o inetPton).run (c.discover o sock rand type buffer) as = some (c', es) →
      c'.discoverPc = .ret rtnval → Sound o inetPton c.negoAddr c'.negoAddr rtnval es := by
  rintro ⟨inetPton, h⟩
  have hsample : ((machine .little inetPton).run
      ((new (CharArray.zero _) 0).discover .little 3 0 .discoveryMsg (CharArray.zero _))
      (List.replicate 15 (withInput .timeout))).map
      (fun r => (r.1.discoverPc, decide (∀ e ∈ r.2, e.Silent))) =
      some (.ret .success, true) := rfl
  obtain ⟨⟨c', es⟩, hrun, hs⟩ := Option.map_eq_some_iff.1 hsample
  obtain ⟨hret, hsilent⟩ := Prod.mk.inj hs
  obtain ⟨addr, haddr⟩ := (h _ _ c' _ _ _ _ _ es _ hrun hret).1.1 rfl
  exact not_located (not_received (of_decide_eq_true hsilent)) addr haddr

/-- The text `::1`. -/
def loopbackText : CString := ⟨[58, 58, 49], by decide⟩

/-- A server answers with the Locator `::1`. -/
theorem discover_sound_locator :
    ∃ c' es, (machine .little fun text => if text = loopbackText then some 1 else none).run
        ((new (CharArray.zero _) 0).discover .little 3 0 .discoveryMsg (CharArray.zero _))
        (List.replicate 4 (withInput (.ready (writePdu ((locatorOption loopbackText).toBits .little)
          .responseMsg 0 ⟨.success, 0⟩).2))) = some (c', es) ∧
      c'.discoverPc = .ret .success ∧ c'.negoAddr.addr = 1 ∧
      (Sound .little (fun text => if text = loopbackText then some 1 else none)
          (new (CharArray.zero _) 0).negoAddr c'.negoAddr .success es ↔
        Answered .little (fun text => if text = loopbackText then some 1 else none)
          (new (CharArray.zero _) 0).negoAddr es) := by
  have hsample : ((machine .little fun text => if text = loopbackText then some 1 else none).run
      ((new (CharArray.zero _) 0).discover .little 3 0 .discoveryMsg (CharArray.zero _))
      (List.replicate 4 (withInput (.ready (writePdu ((locatorOption loopbackText).toBits .little)
        .responseMsg 0 ⟨.success, 0⟩).2)))).map
      (fun r => (r.1.discoverPc, r.1.negoAddr.addr)) = some (.ret .success, 1) := by
    decide +kernel
  obtain ⟨⟨c', es⟩, hrun, hs⟩ := Option.map_eq_some_iff.1 hsample
  obtain ⟨hret, haddr⟩ := Prod.mk.inj hs
  exact ⟨c', es, hrun, hret, haddr, discover_sound hrun hret⟩

end UdpClient

end Gdnp
