import Gdnp.Options

/-!
# Queue items and the duplicate filter

A session keeps the messages it received in a queue of `Content`s.  Before it handles a message it
compares it with the last one it took over, with `strcmp` on the data, and takes it over with
`strcpy`.  Both stop at the first zero byte of what are binary option bits.

`filterAll_iff` says on which sequences of messages the filter drops just the duplicates;
`alike_offers` that any two offers with one option type look alike to it.
-/

open CMem

namespace Gdnp

/-- Item of a session's queue. -/
structure Content where
  type : MsgType
  data : CharArray maxStringLength
  deriving DecidableEq

namespace Content

/-- `operator==`: `none` when `strcmp` runs past the end of the data. -/
def eq (c d : Content) : Option Bool :=
  if c.type = d.type then (strcmp c.data.bytes d.data.bytes).map (· = .eq) else some false

/-- `operator=`: `none` when the data has no terminator for `strcpy` to stop at. -/
def assign (last c : Content) : Option Content :=
  (strcpy last.data c.data).map fun data => ⟨c.type, data⟩

/-- The message carries a zero byte. -/
def Terminated (c : Content) : Prop := 0 ∈ c.data.bytes

instance (c : Content) : Decidable c.Terminated := inferInstanceAs (Decidable (_ ∈ _))

/-- Two messages the filter cannot tell apart: same type, same data up to the first zero. -/
def Alike (c d : Content) : Prop := c.type = d.type ∧ cstr c.data.bytes = cstr d.data.bytes

instance (c d : Content) : Decidable (c.Alike d) := inferInstanceAs (Decidable (_ ∧ _))

theorem Alike.symm {c d : Content} (h : c.Alike d) : d.Alike c := ⟨h.1.symm, h.2.symm⟩

theorem Alike.trans {c d e : Content} (h : c.Alike d) (h' : d.Alike e) : c.Alike e :=
  ⟨h.1.trans h'.1, h.2.trans h'.2⟩

theorem Terminated.of_alike {c d : Content} (h : c.Terminated) (hcd : c.Alike d) :
    d.Terminated := by
  have hc := (cstr_length_lt_iff c.data.bytes).2 h
  rw [c.data.length_eq, hcd.2] at hc
  exact (cstr_length_lt_iff d.data.bytes).1 (by rw [d.data.length_eq]; exact hc)

theorem eq_iff_alike {c d : Content} (h : c.Terminated) : c.eq d = some true ↔ c.Alike d := by
  unfold eq
  split_ifs with ht
  · simp only [Option.map_eq_some_iff, decide_eq_true_eq, exists_eq_right, strcmp_eq_iff]
    constructor
    · rintro ⟨-, -, hs⟩
      exact ⟨ht, hs⟩
    · intro hcd
      exact ⟨h, h.of_alike hcd, hcd.2⟩
  · simp only [Option.some.injEq, Bool.false_eq_true, false_iff]
    exact fun hcd => ht hcd.1

theorem eq_isSome {c d : Content} (h : c.Terminated) : (c.eq d).isSome := by
  unfold eq
  split_ifs
  · rw [Option.isSome_map, Option.isSome_iff_ne_none, Ne,
      strcmp_eq_none_iff (by rw [c.data.length_eq, d.data.length_eq])]
    exact fun hn => hn.2 h
  · rfl

end Content

/-- One message through the filter of `run`: whether it is skipped, and `last_content`
afterwards. -/
def filter (last c : Content) : Option (Bool × Content) :=
  match c.eq last with
  | none => none
  | some true => some (true, last)
  | some false => (last.assign c).map fun l => (false, l)

/-- The messages a session pops one after the other, and which of them it skips. -/
def filterAll : Content → List Content → Option (List Bool)
  | _, [] => some []
  | last, c :: cs => (filter last c).bind fun r => (filterAll r.2 cs).map (r.1 :: ·)

open Content

theorem filter_of_alike {last c : Content} (h : c.Terminated) (hc : c.Alike last) :
    filter last c = some (true, last) := by
  rw [filter, (eq_iff_alike h).2 hc]

theorem filter_of_not_alike {last c : Content} (h : c.Terminated) (hc : ¬ c.Alike last) :
    ∃ l, filter last c = some (false, l) ∧ c.Alike l := by
  obtain ⟨b, hb⟩ := Option.isSome_iff_exists.1 (eq_isSome (d := last) h)
  obtain rfl : b = false := by
    rw [← Bool.not_eq_true]
    rintro rfl
    exact hc ((eq_iff_alike h).1 hb)
  have hcopy : strcpy last.data c.data = some (last.data.memcpy (cstr c.data.bytes ++ [0])) :=
    if_pos h
  refine ⟨⟨c.type, last.data.memcpy (cstr c.data.bytes ++ [0])⟩, ?_, rfl,
    (cstr_strcpy hcopy).2.symm⟩
  simp [filter, hb, assign, hcopy]

theorem filter_isSome {last c : Content} (h : c.Terminated) : (filter last c).isSome := by
  by_cases hc : c.Alike last
  · rw [filter_of_alike h hc]
    rfl
  · obtain ⟨l, hl, -⟩ := filter_of_not_alike h hc
    rw [hl]
    rfl

theorem filter_of_not_terminated {last c : Content} (h : ¬ c.Terminated) :
    filter last c = none := by
  have hassign : last.assign c = none := by simp [assign, strcpy, show 0 ∉ c.data.bytes from h]
  unfold filter
  rcases hc : c.eq last with _ | b
  · rfl
  · cases b
    · simp [hassign]
    · unfold Content.eq at hc
      split_ifs at hc
      · simp only [Option.map_eq_some_iff, decide_eq_true_eq, exists_eq_right, strcmp_eq_iff] at hc
        exact absurd hc.1 h
      · simp at hc

/-- After the filter has seen a message, `last_content` looks like that message. -/
theorem filter_eq_some {last c l : Content} {skip : Bool} (h : filter last c = some (skip, l)) :
    c.Terminated ∧ c.Alike l ∧ (skip = true ↔ c.Alike last) := by
  have hc : c.Terminated := by
    by_contra hn
    rw [filter_of_not_terminated hn] at h
    cases h
  by_cases ha : c.Alike last
  · rw [filter_of_alike hc ha] at h
    cases h
    exact ⟨hc, ha, by simpa using ha⟩
  · obtain ⟨l', hl, ha'⟩ := filter_of_not_alike hc ha
    rw [hl] at h
    cases h
    exact ⟨hc, ha', by simpa using ha⟩

/-- Which messages are duplicates of the one popped just before; `prev` is the message popped
before the first, if any. -/
def duplicates : Option Content → List Content → List Bool
  | _, [] => []
  | prev, c :: cs => decide (prev = some c) :: duplicates (some c) cs

/-- The filter skips a message exactly when it equals the one popped just before. -/
def DropsDuplicates (last : Content) (cs : List Content) : Prop :=
  filterAll last cs = some (duplicates none cs)

instance (last : Content) (cs : List Content) : Decidable (DropsDuplicates last cs) :=
  inferInstanceAs (Decidable (_ = _))

theorem filterAll_cons_iff {last c : Content} {cs : List Content} {bs : List Bool} :
    filterAll last (c :: cs) = some bs ↔
      ∃ skip l bs', filter last c = some (skip, l) ∧ filterAll l cs = some bs' ∧
        bs = skip :: bs' := by
  simp only [filterAll, Option.bind_eq_some_iff, Option.map_eq_some_iff, Prod.exists]
  constructor
  · rintro ⟨skip, l, h, bs', h', rfl⟩
    exact ⟨skip, l, bs', h, h', rfl⟩
  · rintro ⟨skip, l, bs', h, h', rfl⟩
    exact ⟨skip, l, h, bs', h', rfl⟩

/-- The run of the filter behind a message `p` it has already seen. -/
theorem filterAll_after_iff {last p : Content} (hp : p.Alike last) (cs : List Content) :
    filterAll last cs = some (duplicates (some p) cs) ↔
      (∀ c ∈ cs, c.Terminated) ∧ (p :: cs).IsChain fun c d => c.Alike d → c = d := by
  induction cs generalizing last p with
  | nil => simp [filterAll, duplicates]
  | cons c cs ih =>
    rw [filterAll_cons_iff, duplicates, List.isChain_cons_cons, List.forall_mem_cons]
    constructor
    · rintro ⟨skip, l, bs, hf, hrest, hbs⟩
      obtain ⟨hc, hl, hskip⟩ := filter_eq_some hf
      obtain ⟨rfl, rfl⟩ := List.cons.inj hbs
      obtain ⟨hterm, hchain⟩ := (ih hl).1 hrest
      refine ⟨⟨hc, hterm⟩, fun hpc => ?_, hchain⟩
      simpa using hskip.2 (hpc.symm.trans hp)
    · rintro ⟨⟨hc, hterm⟩, hne, hchain⟩
      by_cases ha : c.Alike last
      · have hpc : p = c := hne (hp.trans ha.symm)
        exact ⟨true, last, _, filter_of_alike hc ha, (ih ha).2 ⟨hterm, hchain⟩, by simp [hpc]⟩
      · obtain ⟨l, hf, hl⟩ := filter_of_not_alike hc ha
        have hpc : p ≠ c := fun e => ha (e ▸ hp)
        exact ⟨false, l, _, hf, (ih hl).2 ⟨hterm, hchain⟩, by simp [hpc]⟩

/-- The filter drops just the duplicates exactly when every message has a zero byte, the first one
does not look like what `last_content` happens to hold, and no message looks like the one before
without being equal to it. -/
theorem filterAll_iff (last : Content) (cs : List Content) :
    DropsDuplicates last cs ↔
      (∀ c ∈ cs, c.Terminated) ∧ (∀ c ∈ cs.head?, ¬ c.Alike last) ∧
        cs.IsChain fun c d => c.Alike d → c = d := by
  unfold DropsDuplicates
  cases cs with
  | nil => simp [filterAll, duplicates]
  | cons c cs =>
    rw [filterAll_cons_iff, duplicates, List.forall_mem_cons, List.head?_cons]
    simp only [Option.mem_def, Option.some.injEq, forall_eq']
    constructor
    · rintro ⟨skip, l, bs, hf, hrest, hbs⟩
      obtain ⟨hc, hl, hskip⟩ := filter_eq_some hf
      obtain ⟨rfl, rfl⟩ := List.cons.inj hbs
      obtain ⟨hterm, hchain⟩ := (filterAll_after_iff hl cs).1 hrest
      exact ⟨⟨hc, hterm⟩, fun ha => by simpa using hskip.2 ha, hchain⟩
    · rintro ⟨⟨hc, hterm⟩, ha, hchain⟩
      obtain ⟨l, hf, hl⟩ := filter_of_not_alike hc ha
      exact ⟨false, l, _, hf, (filterAll_after_iff hl cs).2 ⟨hterm, hchain⟩, by simp⟩

/-! ## Offers -/

/-- The message that carries the given option bits. -/
def Content.ofBits (type : MsgType) (bits : List UInt8) : Content :=
  ⟨type, (CharArray.zero _).memcpy bits⟩

def valueA : CString := ⟨[97], by decide⟩

def valueB : CString := ⟨[98], by decide⟩

/-- Two offers, as `do_negotiate` sends them: values `a` and `b`, loop counts 4 and 2. -/
def offerA : Content :=
  .ofBits .negoMsg (ObjectiveOption.toBits .little ⟨⟨.negotiation, 1, some [97], by decide⟩, 4, 0⟩)

def offerB : Content :=
  .ofBits .negoMsg (ObjectiveOption.toBits .little ⟨⟨.negotiation, 1, some [98], by decide⟩, 2, 0⟩)

/-- The second of the two offers is skipped although it differs in value and loop count. -/
theorem not_dropsDuplicates_offers :
    ¬ DropsDuplicates ⟨.requestMsg, CharArray.zero _⟩ [offerA, offerB] := by
  decide +kernel

/-- The type field of an option has a zero byte, and `cstr` does not see past it. -/
theorem cstr_type_field (o : ByteOrder) (t : OptionType) (rest rest' : List UInt8) :
    cstr (o.toBytes 2 t.code ++ rest) = cstr (o.toBytes 2 t.code ++ rest') := by
  cases o <;> cases t <;>
    simp [ByteOrder.toBytes, ByteOrder.digits, OptionType.code, cstr_cons]

/-- The filter cannot tell two offers of one type and option type apart, whatever their values,
loop counts and flags. -/
theorem alike_offers (o : ByteOrder) (type : MsgType) {a b : ObjectiveOption}
    (h : a.type = b.type) (ha : (a.toBits o).length ≤ maxStringLength)
    (hb : (b.toBits o).length ≤ maxStringLength) :
    (Content.ofBits type (a.toBits o)).Alike (.ofBits type (b.toBits o)) := by
  refine ⟨rfl, ?_⟩
  show cstr ((CharArray.zero _).memcpy _).bytes = cstr ((CharArray.zero _).memcpy _).bytes
  rw [CharArray.zero_memcpy_bytes ha, CharArray.zero_memcpy_bytes hb]
  simp only [ObjectiveOption.toBits, h, List.append_assoc]
  exact cstr_type_field o b.type _ _

end Gdnp
