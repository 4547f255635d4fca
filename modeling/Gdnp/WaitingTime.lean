import Gdnp.Endian
import Gdnp.Session
import Gdnp.Client

/-!
# The waiting time in a WAIT_MSG

A wait thread announces a number of milliseconds in the four bytes of an option's value.
`do_negotiate` looks at the first of them only, whichever digit it is, and takes it for a number of
seconds.  So a client waits as announced exactly when this digit happens to be the time in seconds
(`honours_iff`), which is not the case for the ten seconds that the server announces.
-/

open CMem

namespace Gdnp

/-- The option of a WAIT_MSG that announces `t` milliseconds. -/
def waitingTimeOption (o : ByteOrder) (t : UInt32) : GdnpOption where
  type := .waitingTime
  len := 4
  value := some (o.toBytes 4 t.toNat)
  readable := by
    rintro v ⟨⟩
    rw [ByteOrder.length_toBytes]
    decide

/-- A wait thread announces ten seconds. -/
theorem waitOption_eq (o : ByteOrder) : waitOption o = waitingTimeOption o 10000 := rfl

theorem length_waitingTimeOption (o : ByteOrder) (t : UInt32) :
    ((waitingTimeOption o t).toBits o).length = 8 :=
  GdnpOption.length_toBits o _

theorem valueBytes_waitingTimeOption (o : ByteOrder) (t : UInt32) :
    (waitingTimeOption o t).valueBytes = o.toBytes 4 t.toNat := by
  apply List.take_of_length_le
  rw [ByteOrder.length_toBytes]
  exact (by decide : 4 ≤ (4 : UInt16).toNat)

/-- A timeout of `sec` seconds represents `t` milliseconds. -/
def Represents (sec : ℕ) (t : UInt32) : Prop :=
  t.toNat ≤ sec * 1000 ∧ sec * 1000 < t.toNat + 1000

instance (sec : ℕ) (t : UInt32) : Decidable (Represents sec t) :=
  inferInstanceAs (Decidable (_ ∧ _))

theorem represents_iff {sec : ℕ} {t : UInt32} :
    Represents sec t ↔ sec = (t.toNat + 999) / 1000 := by
  unfold Represents
  omega

namespace Client

/-- `do_negotiate` sets a receive timeout that represents `t`, and reads on. -/
def Waits (o : ByteOrder) (t : UInt32) (c : Client) : Prop :=
  ∀ env, ∃ c' es actual, c.step o env = some (c', es) ∧ c'.pc = .read .waitMsg actual .wait ∧
    Represents c'.recvTimeout t

/-- A client that reads the PDU takes it for a WAIT_MSG, and waits for `t` milliseconds. -/
def Honours (o : ByteOrder) (wire : CharArray msgSize) (t : UInt32) (c : Client) : Prop :=
  ∀ env, env.read = .pdu (.ofBytes o wire) →
    ∃ c' es, c.step o env = some (c', es) ∧ c'.pc = .doNegotiate .waitMsg ∧ c'.Waits o t

variable {o o' : ByteOrder} {t : UInt32} {c : Client}

/-! ### The WAIT_MSG in the buffer -/

theorem doNegotiate_waitMsg (o : ByteOrder) (env : ClientEnv) (c : Client) :
    c.doNegotiate o env .waitMsg =
      let recvedOpt := GdnpOption.parseBits o (c.buffer.mem env.after) env.uninit
      if recvedOpt.type = .waitingTime then
        ({ c.adopt o env with
          curStates := .wait
          recvTimeout := (recvedOpt.getValue.headD 0).toNat
          pc := .read .waitMsg env.actual .wait }, [])
      else ({ c.adopt o env with curStates := .wait, pc := .ret .error }, []) := rfl

/-- The timeout is the first byte of the value, if the option is a `Waiting_time`. -/
theorem waits_iff (pc : c.pc = .doNegotiate .waitMsg) :
    c.Waits o t ↔ ∀ after uninit,
      let opt := GdnpOption.parseBits o (c.buffer.mem after) uninit
      opt.type = .waitingTime ∧ Represents (opt.getValue.headD 0).toNat t := by
  have hstep (env : ClientEnv) : c.step o env = some (c.doNegotiate o env .waitMsg) := by
    rw [step, pc]
  constructor
  · intro h after uninit opt
    obtain ⟨c', es, actual, h', pc', ht⟩ := h { sample .fail true with after, uninit }
    rw [hstep, doNegotiate_waitMsg, Option.some.injEq] at h'
    by_cases htype : opt.type = .waitingTime
    · rw [if_pos htype] at h'
      cases h'
      exact ⟨htype, ht⟩
    · rw [if_neg htype] at h'
      cases h'
      cases pc'
  · intro h env
    obtain ⟨htype, ht⟩ := h env.after env.uninit
    have h' := (doNegotiate_waitMsg o env c).trans (if_pos htype)
    exact ⟨_, _, env.actual, (hstep env).trans (congrArg some h'), rfl, ht⟩

section Buffer

variable (a : CharArray maxStringLength) (after : Mem)

/-- Only a host with the byte order of the sender finds a `Waiting_time`. -/
theorem word_waitingTime_iff :
    (word o' ((a.memcpy ((waitingTimeOption o t).toBits o)).mem after) 0).toNat =
      OptionType.waitingTime.code ↔ o = o' := by
  obtain ⟨htype, -⟩ := (waitingTimeOption o t).fields_toBits o after
  have hlen := length_waitingTimeOption o t
  have hcode : OptionType.waitingTime.code < 256 ^ 2 := by decide
  rw [word_memcpy_eq_iff (i := 0) o' a after hcode (by omega) (by decide) htype,
    ByteOrder.toBytes_eq_iff]
  exact or_iff_left (by decide)

/-- The first byte of the value is a digit of the time. -/
theorem headD_waitingTime (uninit : OptionType) :
    (((GdnpOption.parseBits o ((a.memcpy ((waitingTimeOption o t).toBits o)).mem after)
      uninit).getValue).headD 0).toNat = t.toNat / 256 ^ (3 - o.top 3) % 256 := by
  obtain ⟨-, hlength, hvalue⟩ := (waitingTimeOption o t).fields_toBits o after
  have hlen := length_waitingTimeOption o t
  have hword : word o ((a.memcpy ((waitingTimeOption o t).toBits o)).mem after) 1 = 4 := by
    apply UInt16.toNat_inj.1
    exact (word_memcpy_eq_iff (i := 1) o a after (UInt16.toNat_lt 4) (by omega) (by decide)
      hlength).2 rfl
  have hhead : memOf ((waitingTimeOption o t).toBits o) after 4 =
      UInt8.ofNat (t.toNat / 256 ^ (3 - o.top 3)) := by
    rw [← ByteOrder.headD_toBytes o 3 t.toNat 0, ← valueBytes_waitingTimeOption]
    exact congrArg (·.headD 0) hvalue
  show (((copyValue _ GdnpOption.lenExceptValue (word o _ 1)).getD []).headD 0).toNat = _
  rw [hword, headD_copyValue _ _ (by decide),
    a.mem_memcpy_of_lt _ _ after (hlen.symm ▸ by decide) (by decide)]
  exact (congrArg UInt8.toNat hhead).trans UInt8.toNat_ofNat'

theorem parseBits_waitingTime_type (uninit : OptionType) :
    (GdnpOption.parseBits o ((a.memcpy ((waitingTimeOption o t).toBits o)).mem after)
      uninit).type = .waitingTime :=
  (parseType_forall_iff ..).2 ((word_waitingTime_iff a after).2 rfl) uninit

end Buffer

/-- `do_negotiate` on the option as it was sent. -/
theorem waits_memcpy_iff {a : CharArray maxStringLength} (pc : c.pc = .doNegotiate .waitMsg)
    (hbuffer : c.buffer = a.memcpy ((waitingTimeOption o t).toBits o)) :
    c.Waits o' t ↔ o = o' ∧ Represents (t.toNat / 256 ^ (3 - o.top 3) % 256) t := by
  rw [waits_iff pc, hbuffer]
  constructor
  · intro h
    obtain rfl : o = o' := by
      rw [← word_waitingTime_iff a fun _ => 0, ← parseType_forall_iff]
      exact fun uninit => (h (fun _ => 0) uninit).1
    refine ⟨rfl, ?_⟩
    rw [← headD_waitingTime a (fun _ => 0) .divert]
    exact (h (fun _ => 0) .divert).2
  · rintro ⟨rfl, ht⟩ after uninit
    refine ⟨parseBits_waitingTime_type a after uninit, ?_⟩
    rw [headD_waitingTime]
    exact ht

/-- A buffer of zeros holds no `Waiting_time`. -/
theorem not_waits_zero (pc : c.pc = .doNegotiate .waitMsg) (hbuffer : c.buffer = CharArray.zero _) :
    ¬ c.Waits o t := by
  rw [waits_iff pc, hbuffer]
  intro h
  have htype := (h (fun _ => 0) .divert).1
  revert htype
  cases o <;> decide +kernel

/-! ### Reading the WAIT_MSG -/

theorem buffer_readDone (c : Client) (type : MsgType) (actual : UInt32) (site : ReadSite) :
    (c.readDone type actual site).1.buffer = c.buffer := by
  unfold readDone
  split_ifs <;> rfl

/-- `read_pdu` leaves the payload in the buffer, or zeros. -/
theorem buffer_readPdu (c : Client) (type : MsgType) (actual : UInt32) (site : ReadSite)
    (msg : Msg) :
    (c.readPdu type actual site (.pdu msg)).1.buffer = CharArray.zero _ ∨
      (c.readPdu type actual site (.pdu msg)).1.buffer = msg.payload := by
  rcases hd : decode (some msg) with e | d
  · left
    simp only [readPdu, hd]
    split_ifs
    · rfl
    · exact buffer_readDone ..
  · right
    simp only [readPdu, hd]
    exact (buffer_readDone ..).trans (decode_eq_ok_iff.1 hd).2.2.1

/-- A message of the client's session is handed to `do_negotiate`. -/
theorem readPdu_of_decode {msg : Msg} {d : Decoded} (hd : decode (some msg) = .ok d)
    (hid : d.sessionId = c.sessionId) (type : MsgType) (actual : UInt32) (site : ReadSite) :
    (c.readPdu type actual site (.pdu msg)).1.pc = .doNegotiate d.type ∧
      (c.readPdu type actual site (.pdu msg)).1.buffer = d.data := by
  simp only [readPdu, hd, readDone]
  rw [if_neg (not_not.2 hid)]
  exact ⟨rfl, rfl⟩

/-- The digit that is stored first, in seconds. -/
theorem represents_digit_iff :
    Represents (t.toNat / 256 ^ (3 - o.top 3) % 256) t ↔
      (o = .little ∧ t.toNat % 256 = (t.toNat + 999) / 1000) ∨ (o = .big ∧ t = 0) := by
  have hlt : t.toNat < 2 ^ 32 := t.toNat_lt
  rw [represents_iff, ← UInt32.toNat_inj]
  cases o with
  | little =>
    show t.toNat / 256 ^ 0 % 256 = _ ↔ _
    simp
  | big =>
    show t.toNat / 256 ^ 3 % 256 = _ ↔ _
    rw [Nat.mod_eq_of_lt (by omega)]
    simp
    omega

variable {sessionId : UInt32} {w : WriteEnv} {msg : Msg} {type : MsgType} {actual : UInt32}
  {site : ReadSite}

/-- Whatever the client reads in the header, it waits as announced only if it finds the option. -/
theorem eq_of_honours
    (hpayload : msg.payload = (CharArray.zero _).memcpy ((waitingTimeOption o t).toBits o))
    (pc : c.pc = .read type actual site) (h : c.Honours o' (msg.toBytes o) t) :
    o = o' ∧ Represents (t.toNat / 256 ^ (3 - o.top 3) % 256) t := by
  obtain ⟨c', es, hstep, pc', hw⟩ := h (sample (.pdu (.ofBytes o' (msg.toBytes o))) true) rfl
  rw [step, pc] at hstep
  have hread : c.readPdu type actual site (.pdu (.ofBytes o' (msg.toBytes o))) = (c', es) :=
    Option.some.inj hstep
  obtain hzero | hdata := buffer_readPdu c type actual site (.ofBytes o' (msg.toBytes o))
  · rw [hread] at hzero
    exact absurd hw (not_waits_zero pc' hzero)
  · rw [hread, Msg.ofBytes_toBytes_of] at hdata
    exact (waits_memcpy_iff pc' (hdata.trans hpayload)).1 hw

/-- A WAIT_MSG that announces `t` milliseconds makes a client wait for `t` exactly when both hosts
store the least significant digit first and it is `t` in seconds, or both store the most significant
digit first and `t` is `0`. -/
theorem honours_iff
    (hmsg : (writePdu ((waitingTimeOption o t).toBits o) .waitMsg sessionId w).2 = some msg)
    (pc : c.pc = .read type actual site) (hid : c.sessionId = sessionId) :
    c.Honours o' (msg.toBytes o) t ↔
      (o = .little ∧ o' = .little ∧ t.toNat % 256 = (t.toNat + 999) / 1000) ∨
        (o = .big ∧ o' = .big ∧ t = 0) := by
  have hiff : c.Honours o' (msg.toBytes o) t ↔
      o = o' ∧ Represents (t.toNat / 256 ^ (3 - o.top 3) % 256) t := by
    refine ⟨eq_of_honours (payload_of_writePdu hmsg) pc, ?_⟩
    rintro ⟨rfl, ht⟩ env henv
    rw [Msg.ofBytes_toBytes] at henv
    obtain ⟨hpc, hbuffer⟩ :=
      readPdu_of_decode (decode_of_writePdu hmsg).2 hid.symm type actual site
    have hstep : c.step o env = some (c.readPdu type actual site (.pdu msg)) := by
      rw [step, pc, henv]
    exact ⟨_, _, hstep, hpc, (waits_memcpy_iff hpc hbuffer).2 ⟨rfl, ht⟩⟩
  have hboth (x : ByteOrder) (p : Prop) : o = o' ∧ o = x ∧ p ↔ o = x ∧ o' = x ∧ p := by
    constructor
    · rintro ⟨rfl, rfl, hp⟩
      exact ⟨rfl, rfl, hp⟩
    · rintro ⟨rfl, rfl, hp⟩
      exact ⟨rfl, rfl, hp⟩
  rw [hiff, represents_digit_iff, and_or_left]
  exact or_congr (hboth .little _) (hboth .big _)

/-- No client waits for the ten seconds of a wait thread. -/
theorem not_honours_waitOption
    (hmsg : (writePdu ((waitOption o).toBits o) .waitMsg sessionId w).2 = some msg)
    (pc : c.pc = .read type actual site) : ¬ c.Honours o' (msg.toBytes o) 10000 := by
  rw [waitOption_eq] at hmsg
  intro h
  obtain ⟨-, ht⟩ := eq_of_honours (payload_of_writePdu hmsg) pc h
  revert ht
  cases o <;> decide

/-- The same for the WAIT_MSGs that the sessions of a server write. -/
theorem not_honours_wait_msg {s s' : ServerSession} {k : ℕ}
    (h : s.step o (.wait k w) = some (s', [.wrote none msg]))
    (pc : c.pc = .read type actual site) : ¬ c.Honours o' (msg.toBytes o) 10000 := by
  obtain ⟨_, _, -, hstep, -⟩ := ServerSession.step_wait_iff.1 h
  obtain hnil | ⟨msg', hes, hmsg⟩ := ServerSession.waitStep_events hstep
  · cases hnil
  · cases hes
    exact not_honours_waitOption hmsg pc

/-- A client that waits for the reply to its request. -/
def requested (sessionId : UInt32) : Client :=
  { new (CharArray.zero _) with sessionId, pc := .read .requestMsg 0 .reply }

/-- The ten seconds of a wait thread are taken for sixteen. -/
theorem not_honours_ten_seconds :
    ¬ ∀ (o : ByteOrder) (t sessionId actual : UInt32) (w : WriteEnv) (msg : Msg) (c : Client)
        (type : MsgType) (site : ReadSite),
      (writePdu ((waitingTimeOption o t).toBits o) .waitMsg sessionId w).2 = some msg →
      c.pc = .read type actual site → c.sessionId = sessionId →
      c.Honours o (msg.toBytes o) t := by
  intro h
  obtain ⟨msg, hmsg⟩ : ∃ msg, (writePdu ((waitOption .little).toBits .little) .waitMsg 7
      ⟨.success, 0⟩).2 = some msg := ⟨_, rfl⟩
  have pc : (requested 7).pc = .read .requestMsg 0 .reply := rfl
  exact not_honours_waitOption hmsg pc (h .little 10000 7 0 _ msg _ _ _ hmsg pc rfl)

/-- Four seconds, announced as 3076 milliseconds. -/
theorem honours_four_seconds :
    ∃ msg, (writePdu ((waitingTimeOption .little 3076).toBits .little) .waitMsg 7
        ⟨.success, 0⟩).2 = some msg ∧
      (requested 7).Honours .little (msg.toBytes .little) 3076 := by
  obtain ⟨msg, hmsg⟩ : ∃ msg, (writePdu ((waitingTimeOption .little 3076).toBits .little) .waitMsg 7
      ⟨.success, 0⟩).2 = some msg := ⟨_, rfl⟩
  exact ⟨msg, hmsg, (honours_iff hmsg rfl rfl).2 (.inl ⟨rfl, rfl, by decide⟩)⟩

end Client

end Gdnp
