import Gdnp.Wire

/-!
# Hosts with different byte orders

The header of a PDU and the words of an option are sent as they stand in memory and read the same
way.  Between hosts of one byte order all of it arrives.  Between hosts of different byte orders it
arrives exactly when the bytes of each of these words read the same in both orders
(`arrives_iff`), for which the session id must repeat the message type and the option be `Divert`;
no PDU of this protocol is one.  What arrives as a value are the bytes that `strncpy` copies, and so
what the host finds if the copy leaves it running: a process that the overrun of the block ends
finds nothing.
-/

open CMem

namespace Gdnp

/-- A host with byte order `o'` finds the message type, the session id and the fields of the option
in the bytes of a PDU. -/
def GdnpOption.Arrives (o' : ByteOrder) (wire : CharArray msgSize) (type : MsgType)
    (sessionId : UInt32) (opt : GdnpOption) : Prop :=
  ∃ d, decode (some (.ofBytes o' wire)) = .ok d ∧ d.type = type ∧ d.sessionId = sessionId ∧
    ∀ (after : Mem) (uninit : OptionType),
      let opt' := parseBits o' (d.data.mem after) uninit
      opt'.type = opt.type ∧ opt'.len = opt.len ∧ opt'.getValue = opt.valueBytes

/-- The same for an objective option, with its loop count and flag. -/
def ObjectiveOption.Arrives (o' : ByteOrder) (wire : CharArray msgSize) (type : MsgType)
    (sessionId : UInt32) (opt : ObjectiveOption) : Prop :=
  ∃ d, decode (some (.ofBytes o' wire)) = .ok d ∧ d.type = type ∧ d.sessionId = sessionId ∧
    ∀ (after : Mem) (uninit : OptionType),
      let opt' := parseBits o' (d.data.mem after) uninit
      opt'.type = opt.type ∧ opt'.len = opt.len ∧ opt'.getValue = opt.valueBytes ∧
        opt'.loopCount = opt.loopCount ∧ opt'.flag = opt.flag

variable {o o' : ByteOrder}

/-! ### The header -/

theorem decode_of_same {msg : Msg}
    (h : o.toBytes 4 msg.header.toNat = o'.toBytes 4 msg.header.toNat) :
    decode (some (.ofBytes o' (msg.toBytes o))) = decode (some msg) := by
  have hheader : msg.header.toNat < 256 ^ 4 := msg.header.toNat_lt
  rw [Msg.ofBytes_toBytes_of, (ByteOrder.ofBytes_toBytes_eq_iff o o' hheader).2 h,
    UInt32.ofNat_toNat]
  exact decode_congr rfl rfl

/-- The header is read with the same type and session id only if it is read with the same value;
then the whole message is. -/
theorem decode_ofBytes_iff {msg : Msg} {d d' : Decoded} (hd : decode (some msg) = .ok d) :
    decode (some (.ofBytes o' (msg.toBytes o))) = .ok d' ∧ d'.type = d.type ∧
        d'.sessionId = d.sessionId ↔
      o.toBytes 4 msg.header.toNat = o'.toBytes 4 msg.header.toNat ∧ d' = d := by
  constructor
  · rintro ⟨hd', htype', hid'⟩
    have hsame : o.toBytes 4 msg.header.toNat = o'.toBytes 4 msg.header.toNat := by
      have hlt : o'.ofBytes (o.toBytes 4 msg.header.toNat) < 2 ^ 32 := by
        have := o'.ofBytes_lt (o.toBytes 4 msg.header.toNat)
        rwa [ByteOrder.length_toBytes] at this
      obtain ⟨htype, hid, -⟩ := decode_eq_ok_iff.1 hd
      rw [Msg.ofBytes_toBytes_of] at hd'
      obtain ⟨hcode, hsub, -⟩ := decode_eq_ok_iff.1 hd'
      have hjoin := (header_join hcode).2
      rw [← hsub, htype', hid', hid, (header_join htype).2] at hjoin
      rw [← ByteOrder.ofBytes_toBytes_eq_iff o o' msg.header.toNat_lt]
      have hnat : msg.header.toNat = o'.ofBytes (o.toBytes 4 msg.header.toNat) % 2 ^ 32 := by
        rw [← UInt32.toNat_ofNat']
        exact congrArg UInt32.toNat hjoin
      rwa [Nat.mod_eq_of_lt hlt, eq_comm] at hnat
    refine ⟨hsame, ?_⟩
    rw [decode_of_same hsame, hd] at hd'
    exact (Except.ok.inj hd').symm
  · rintro ⟨hsame, rfl⟩
    exact ⟨(decode_of_same hsame).trans hd, rfl, rfl⟩

/-! ### The words and the value of an option -/

/-- A word at the start of a block that was written with byte order `o`. -/
theorem word_memcpy_eq_iff {n i x : ℕ} (o' : ByteOrder) (a : CharArray n) {src : List UInt8}
    (p : Mem) {q : Mem}
    (hx : x < 256 ^ 2) (hi : 2 * i + 2 ≤ src.length) (hn : 2 * i + 2 ≤ n)
    (h : (memOf src q).read (2 * i) 2 = o.toBytes 2 x) :
    (word o' ((a.memcpy src).mem p) i).toNat = x ↔ o.toBytes 2 x = o'.toBytes 2 x := by
  rw [toNat_word, a.read_memcpy src p q hi hn, h, ByteOrder.ofBytes_toBytes_eq_iff o o' hx]

/-- A value without zero bytes is copied when its length is read right. -/
theorem getD_copyValue {n off : ℕ} {a : CharArray n} {src v : List UInt8} {p q : Mem}
    {len : UInt16} (hv : 0 ∉ v) (hsrc : off + len.toNat ≤ src.length) (hn : off + len.toNat ≤ n)
    (h : (memOf src q).read off len.toNat = v) :
    (copyValue ((a.memcpy src).mem p) off len).getD [] = v := by
  have hread : ((a.memcpy src).mem p).read off len.toNat = v := by
    rw [a.read_memcpy src p q hsrc hn, h]
  rw [← hread, copyValue_getD_eq_iff, hread]
  apply List.pairwise_of_forall_mem_list
  intro b hb c _ h0
  exact absurd (h0 ▸ hb) hv

section Fields

variable {a : CharArray maxStringLength}

theorem GdnpOption.parseBits_memcpy_iff {opt : GdnpOption}
    (hlen : (opt.toBits o).length ≤ maxStringLength) (hv : 0 ∉ opt.valueBytes) :
    (∀ (after : Mem) (uninit : OptionType),
        let opt' := parseBits o' ((a.memcpy (opt.toBits o)).mem after) uninit
        opt'.type = opt.type ∧ opt'.len = opt.len ∧ opt'.getValue = opt.valueBytes) ↔
      o.toBytes 2 opt.type.code = o'.toBytes 2 opt.type.code ∧
        o.toBytes 2 opt.len.toNat = o'.toBytes 2 opt.len.toNat := by
  obtain ⟨h₀, h₁, hvalue⟩ := opt.fields_toBits o fun _ => 0
  have hbits := opt.length_toBits o
  unfold lenExceptValue at hbits
  have htype (p : Mem) := word_memcpy_eq_iff o' (i := 0) a p
    opt.type.code_lt (by omega) (by omega) h₀
  have hword (p : Mem) := word_memcpy_eq_iff o' (i := 1) a p
    opt.len.toNat_lt (by omega) (by omega) h₁
  constructor
  · intro h
    refine ⟨(htype fun _ => 0).1 ?_, (hword fun _ => 0).1 ?_⟩
    · exact (parseType_forall_iff ..).1 fun uninit => (h (fun _ => 0) uninit).1
    · exact congrArg UInt16.toNat (h (fun _ => 0) .divert).2.1
  · rintro ⟨hcode, hlength⟩ after uninit
    have hl : word o' ((a.memcpy (opt.toBits o)).mem after) 1 = opt.len :=
      UInt16.toNat_inj.1 ((hword after).2 hlength)
    refine ⟨(parseType_forall_iff ..).2 ((htype after).2 hcode) uninit, hl, ?_⟩
    show (copyValue _ lenExceptValue (word o' _ 1)).getD [] = _
    rw [hl]
    apply getD_copyValue hv
    · rw [hbits, lenExceptValue]
      omega
    · rw [lenExceptValue]
      omega
    · exact hvalue

/-- Loop count and flag are read right when the word that holds them is. -/
theorem toNat_eq_packed_iff {opt : ObjectiveOption} {w : UInt16} :
    w.toNat = opt.packed.toNat ↔
      (w >>> ObjectiveOption.flagBitsLen).toUInt8 = opt.loopCount ∧ w.toUInt8 = opt.flag := by
  have hl : opt.loopCount.toNat < 2 ^ 8 := opt.loopCount.toNat_lt
  have hf : opt.flag.toNat < 2 ^ 8 := opt.flag.toNat_lt
  rw [← UInt8.toNat_inj, ← UInt8.toNat_inj, toNat_unpack_loopCount, UInt16.toNat_toUInt8,
    ObjectiveOption.toNat_packed]
  omega

theorem ObjectiveOption.parseBits_memcpy_iff {opt : ObjectiveOption}
    (hlen : (opt.toBits o).length ≤ maxStringLength) (hv : 0 ∉ opt.valueBytes) :
    (∀ (after : Mem) (uninit : OptionType),
        let opt' := parseBits o' ((a.memcpy (opt.toBits o)).mem after) uninit
        opt'.type = opt.type ∧ opt'.len = opt.len ∧ opt'.getValue = opt.valueBytes ∧
          opt'.loopCount = opt.loopCount ∧ opt'.flag = opt.flag) ↔
      o.toBytes 2 opt.type.code = o'.toBytes 2 opt.type.code ∧
        o.toBytes 2 opt.len.toNat = o'.toBytes 2 opt.len.toNat ∧
        o.toBytes 2 opt.packed.toNat = o'.toBytes 2 opt.packed.toNat := by
  obtain ⟨h₀, h₁, h₂, hvalue⟩ := opt.fields_toBits o fun _ => 0
  have hbits := opt.length_toBits o
  unfold lenExceptValue at hbits
  have htype (p : Mem) := word_memcpy_eq_iff o' (i := 0) a p
    opt.type.code_lt (by omega) (by omega) h₀
  have hword (p : Mem) := word_memcpy_eq_iff o' (i := 1) a p
    opt.len.toNat_lt (by omega) (by omega) h₁
  have hpacked (p : Mem) := word_memcpy_eq_iff o' (i := 2) a p
    opt.packed.toNat_lt (by omega) (by omega) h₂
  constructor
  · intro h
    refine ⟨(htype fun _ => 0).1 ?_, (hword fun _ => 0).1 ?_, (hpacked fun _ => 0).1 ?_⟩
    · exact (parseType_forall_iff ..).1 fun uninit => (h (fun _ => 0) uninit).1
    · exact congrArg UInt16.toNat (h (fun _ => 0) .divert).2.1
    · exact toNat_eq_packed_iff.2 (h (fun _ => 0) .divert).2.2.2
  · rintro ⟨hcode, hlength, hflags⟩ after uninit
    have hl : word o' ((a.memcpy (opt.toBits o)).mem after) 1 = opt.len :=
      UInt16.toNat_inj.1 ((hword after).2 hlength)
    refine ⟨(parseType_forall_iff ..).2 ((htype after).2 hcode) uninit, hl, ?_,
      toNat_eq_packed_iff.1 ((hpacked after).2 hflags)⟩
    show (copyValue _ lenExceptValue (word o' _ 1)).getD [] = _
    rw [hl]
    apply getD_copyValue hv
    · rw [hbits, lenExceptValue]
      omega
    · rw [lenExceptValue]
      omega
    · exact hvalue

end Fields

/-! ### A whole PDU -/

theorem header_of_writePdu {data : List UInt8} {type : MsgType} {sessionId : UInt32}
    {env : WriteEnv} {msg : Msg} (h : (writePdu data type sessionId env).2 = some msg) :
    msg.header = type.code <<< sessionIdSize ||| sessionId := by
  obtain ⟨hcode, hid, -⟩ := decode_eq_ok_iff.1 (decode_of_writePdu h).2
  exact (congrArg (type.code <<< sessionIdSize ||| ·) hid).trans (header_join hcode).2 |>.symm

/-- A PDU with an option, or an objective option, arrives exactly when the hosts have one byte
order or the bytes of the header and of each word of the option read the same in both orders. -/
theorem arrives_iff {type : MsgType} {sessionId : UInt32} {opt : GdnpOption}
    {obj : ObjectiveOption} {env env' : WriteEnv} {msg msg' : Msg}
    (hopt : (writePdu (opt.toBits o) type sessionId env).2 = some msg)
    (hobj : (writePdu (obj.toBits o) type sessionId env').2 = some msg')
    (hv : 0 ∉ opt.valueBytes) (hv' : 0 ∉ obj.valueBytes) :
    (opt.Arrives o' (msg.toBytes o) type sessionId ↔
        o = o' ∨ ByteOrder.Symmetric 4 (type.code <<< sessionIdSize ||| sessionId).toNat ∧
          ByteOrder.Symmetric 2 opt.type.code ∧ ByteOrder.Symmetric 2 opt.len.toNat) ∧
      (obj.Arrives o' (msg'.toBytes o) type sessionId ↔
        o = o' ∨ ByteOrder.Symmetric 4 (type.code <<< sessionIdSize ||| sessionId).toNat ∧
          ByteOrder.Symmetric 2 obj.type.code ∧ ByteOrder.Symmetric 2 obj.len.toNat ∧
          ByteOrder.Symmetric 2 obj.packed.toNat) := by
  constructor
  · obtain ⟨hw, hd⟩ := decode_of_writePdu hopt
    rw [or_and_left, or_and_left, ← ByteOrder.toBytes_eq_iff, ← ByteOrder.toBytes_eq_iff,
      ← ByteOrder.toBytes_eq_iff, ← GdnpOption.parseBits_memcpy_iff (a := .zero _) hw.1 hv,
      ← header_of_writePdu hopt]
    constructor
    · rintro ⟨d, hd', htype, hid, hfields⟩
      obtain ⟨hsame, rfl⟩ := (decode_ofBytes_iff hd).1 ⟨hd', htype, hid⟩
      exact ⟨hsame, hfields⟩
    · rintro ⟨hsame, hfields⟩
      exact ⟨_, (decode_of_same hsame).trans hd, rfl, rfl, hfields⟩
  · obtain ⟨hw, hd⟩ := decode_of_writePdu hobj
    rw [or_and_left, or_and_left, or_and_left, ← ByteOrder.toBytes_eq_iff,
      ← ByteOrder.toBytes_eq_iff, ← ByteOrder.toBytes_eq_iff, ← ByteOrder.toBytes_eq_iff,
      ← ObjectiveOption.parseBits_memcpy_iff (a := .zero _) hw.1 hv', ← header_of_writePdu hobj]
    constructor
    · rintro ⟨d, hd', htype, hid, hfields⟩
      obtain ⟨hsame, rfl⟩ := (decode_ofBytes_iff hd).1 ⟨hd', htype, hid⟩
      exact ⟨hsame, hfields⟩
    · rintro ⟨hsame, hfields⟩
      exact ⟨_, (decode_of_same hsame).trans hd, rfl, rfl, hfields⟩

/-- A big-endian host takes the type of a little-endian NEGO_END_MSG for a part of the session
id. -/
theorem not_arrives_accept :
    ¬ ∀ (o o' : ByteOrder) (type : MsgType) (sessionId : UInt32) (opt : GdnpOption)
        (env : WriteEnv) (msg : Msg),
      (writePdu (opt.toBits o) type sessionId env).2 = some msg → 0 ∉ opt.valueBytes →
      opt.Arrives o' (msg.toBytes o) type sessionId := by
  intro h
  obtain ⟨d, hd, -⟩ :=
    h .little .big .negoEndMsg 0 acceptOption ⟨.success, 0⟩ _ rfl (by decide)
  have herr : decode (some (.ofBytes .big (Msg.toBytes .little (encode ⟨0, 0, CharArray.zero _⟩
      .negoEndMsg 0 (memOf (acceptOption.toBits .little) fun _ => 0) 4 0).2))) =
      .error .msgTypeErr := by decide +kernel
  cases herr.symm.trans hd

/-- An Accept and an offer between big-endian hosts. -/
theorem arrives_accept_offer :
    ∃ msg msg', (writePdu (acceptOption.toBits .big) .negoEndMsg 7 ⟨.success, 0⟩).2 = some msg ∧
      (writePdu ((objectiveOf .negotiation ⟨[97], by decide⟩ 4 0).toBits .big) .negoEndMsg 7
        ⟨.success, 0⟩).2 = some msg' ∧
      acceptOption.Arrives .big (msg.toBytes .big) .negoEndMsg 7 ∧
      (objectiveOf .negotiation ⟨[97], by decide⟩ 4 0).Arrives .big (msg'.toBytes .big)
        .negoEndMsg 7 := by
  obtain ⟨msg, hmsg⟩ : ∃ msg,
      (writePdu (acceptOption.toBits .big) .negoEndMsg 7 ⟨.success, 0⟩).2 = some msg := ⟨_, rfl⟩
  obtain ⟨msg', hmsg'⟩ : ∃ msg, (writePdu ((objectiveOf .negotiation ⟨[97], by decide⟩ 4 0).toBits
      .big) .negoEndMsg 7 ⟨.success, 0⟩).2 = some msg := ⟨_, rfl⟩
  obtain ⟨haccept, hoffer⟩ := @arrives_iff .big .big _ _ _ _ _ _ _ _ hmsg hmsg' (by decide)
    (by decide)
  exact ⟨msg, msg', hmsg, hmsg', haccept.2 (.inl rfl), hoffer.2 (.inl rfl)⟩

end Gdnp
