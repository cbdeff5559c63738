import LuaZephyr.MsgDescr.Leaves
import LuaZephyr.MsgDescr.Shown

/-!
# The bytes behind a field's value

Each case of the encoder loads exactly the bytes of its field, except STRING_BUF:
`lua_pushstring` reads on to the next NUL, wherever it is. A `char` array that is full takes
bytes of the fields behind it into the script, and those behind the message when no NUL
is left.

Which bytes a value depends on is said by comparing messages: those that agree on the bytes of
the field give it the same value. Behind the message the memory has whatever it has, and a
conversion that reads there does not stay inside.
-/

namespace LuaZephyr

open Outcome Words Patch

variable (tgt : Target)

/-- The conversion of a message may run out of memory, but reads nothing behind the message. -/
def StaysInside (fs : List LuaMsgFieldDescr) (m : Bytes) : Prop :=
  ∀ (s : State Unit) (block : Nat), s.heap.blocks block = some m →
    wp (luaMsgDescrToTable tgt fs ⟨block, 0⟩) (fun _ _ => True) (fun e _ => e = .error .memory) s

/-- The leaf's step of the conversion pushes the value, without reading behind the message. -/
def LeafReads (m : Bytes) (leaf : Leaf) (v : Value) : Prop :=
  ∀ (s : State Unit) (block : Nat), s.heap.blocks block = some m →
    wp (fieldToTable tgt leaf.field ⟨block, leaf.start⟩) (fun _ u => u.stack = v :: s.stack)
      (fun e _ => e = .error .memory) s

/-- The message is converted inside its bounds, and each leaf has the same value in all
messages with the same bytes in the leaf: it is what the leaf's step reads, inside the
bounds, and what their tables have at the leaf's path. -/
def ReadsOnlyItself (fs : List LuaMsgFieldDescr) (m : Bytes) : Prop :=
  StaysInside tgt fs m ∧
    ∀ leaf ∈ leaves fs 0, ∃ v, ∀ m' : Bytes, m'.length = m.length →
      slice m' leaf.start leaf.size.toNat = slice m leaf.start leaf.size.toNat →
        LeafReads tgt m' leaf v ∧ ∀ t, TableOf tgt fs m' t → lookupPath tgt t leaf.path = some v

/-- A leaf is read from its own bytes, if a NUL ends a string among them. -/
theorem leafValue_local {leaf : Leaf} (h : SizedLeaf 0 leaf.type leaf.size) :
    ∃ value : Bytes → Value, (∀ bs, value bs ≠ .nil) ∧
      ∀ m : Bytes, leaf.start + leaf.size.toNat ≤ m.length →
        (leaf.type = .stringBuf → 0 ∈ slice m leaf.start leaf.size.toNat) →
          leafValue tgt m leaf = some (value (slice m leaf.start leaf.size.toNat)) := by
  obtain ⟨path, type, start, size⟩ := leaf
  cases type with
  | int =>
      refine ⟨fun bs => .integer ((readWord tgt.order (8 * size.toNat) bs).signExtend 32),
        fun _ => by simp, fun m hlen _ => ?_⟩
      simp only [leafValue, integerAt_supported tgt _ h, bytesAt_eq hlen, Option.map_some]
  | uint =>
      refine ⟨fun bs => .integer ((readWord tgt.order (8 * size.toNat) bs).setWidth 32),
        fun _ => by simp, fun m hlen _ => ?_⟩
      simp only [leafValue, integerAt_supported tgt _ h, bytesAt_eq hlen, Option.map_some]
  | number =>
      obtain rfl | rfl : size = 4 ∨ size = 8 := h
      · refine ⟨fun bs => .number (readWord tgt.order 32 bs), fun _ => by simp, fun m hlen _ => ?_⟩
        have hread : bytesAt m start 4 = some (slice m start 4) := bytesAt_eq hlen
        simp only [leafValue, numberAt, if_true, hread, Option.map_some]
        rfl
      · refine ⟨fun bs => .number (tgt.doubleToFloat (readWord tgt.order 64 bs)), fun _ => by simp,
          fun m hlen _ => ?_⟩
        have hread : bytesAt m start 8 = some (slice m start 8) := bytesAt_eq hlen
        have hne : ¬ (8 : UInt8) = 4 := by decide
        simp only [leafValue, numberAt, if_neg hne, hread, Option.map_some]
        rfl
  | string => exact absurd (h.2 ▸ h.1) (by decide)
  | stringBuf =>
      refine ⟨fun bs => .string (CString.text bs), fun _ => by simp, fun m _ hnul => ?_⟩
      simp only [leafValue, textAt_eq (hnul rfl), Option.map_some]
  | bool =>
      obtain rfl : size = 1 := h
      refine ⟨fun bs => .boolean (decide (readWord tgt.order 8 bs ≠ 0)), fun _ => by simp,
        fun m hlen _ => ?_⟩
      simp only [leafValue, boolAt_eq tgt hlen, Option.map_some]
      rfl
  | object => exact h.elim

/-- The message with the leaf's bytes of `m` and no NUL anywhere else. -/
def fullExcept (m : Bytes) (start size : Nat) : Bytes :=
  put (List.replicate m.length 1) ⟨start, slice m start size⟩

section FullExcept

variable {m : Bytes} {start size : Nat} (h : start + size ≤ m.length)
include h

theorem fullExcept_stop :
    (⟨start, slice m start size⟩ : Write UInt8).stop ≤
      (List.replicate m.length (1 : UInt8)).length := by
  rw [Write.stop, length_slice h, List.length_replicate]
  exact h

theorem length_fullExcept : (fullExcept m start size).length = m.length := by
  rw [fullExcept, length_put (fullExcept_stop h), List.length_replicate]

theorem slice_fullExcept : slice (fullExcept m start size) start size = slice m start size := by
  have hself := slice_put_self (fullExcept_stop h)
  rwa [length_slice h] at hself

/-- A NUL found from the leaf on is one of the leaf's own. -/
theorem mem_of_fullExcept (hnul : 0 ∈ (fullExcept m start size).drop start) :
    0 ∈ slice m start size := by
  obtain ⟨i, hi⟩ := List.mem_iff_getElem?.mp hnul
  rw [List.getElem?_drop, fullExcept, getElem?_put (fullExcept_stop h)] at hi
  split at hi
  · exact List.mem_of_getElem? hi
  · rw [List.getElem?_replicate] at hi
    split at hi
    · contradiction
    · contradiction

end FullExcept

variable {tgt} {fs : List LuaMsgFieldDescr} {m : Bytes}

theorem staysInside_iff : StaysInside tgt fs m ↔ ∃ t, messageTable tgt fs m 0 = some t := by
  constructor
  · intro h
    let s : State Unit := { State.idle 0 () with heap := ⟨fun _ => some m, 0, fun _ => none⟩ }
    have hblock : s.heap.blocks 0 = some m := rfl
    obtain ⟨_, u, -, -, hresult, -⟩ | ⟨e, u, -, rfl, -, ⟨-, hfail⟩ | ⟨he, -⟩⟩ :=
      wp_iff.mp ((h s 0 hblock).and (luaMsgDescrToTable_encodes tgt fs 0 s hblock))
    · obtain ⟨t, ht, -⟩ := Option.map_eq_some_iff.mp hresult
      exact ⟨t, ht⟩
    · exact absurd (noFail_never _ _) hfail
    · contradiction
  · rintro ⟨t, ht⟩ s block hblock
    apply (luaMsgDescrToTable_encodes tgt fs 0 s hblock).mono
    · exact fun _ _ _ => trivial
    · rintro e u ⟨-, ⟨he, -⟩ | ⟨-, hnone⟩⟩
      · exact he
      · rw [ht] at hnone
        contradiction

theorem leafReads_iff {leaf : Leaf} (h : leaf.type ≠ .object) {v : Value} :
    LeafReads tgt m leaf v ↔ leafValue tgt m leaf = some v := by
  rw [← fieldValue_field h]
  constructor
  · intro hreads
    let s : State Unit := { State.idle 0 () with heap := ⟨fun _ => some m, 0, fun _ => none⟩ }
    have hblock : s.heap.blocks 0 = some m := rfl
    obtain ⟨_, u, -, hstack, hresult, -⟩ | ⟨e, u, -, rfl, -, ⟨-, hfail⟩ | ⟨he, -⟩⟩ :=
      wp_iff.mp ((hreads s 0 hblock).and (fieldToTable_encodes tgt leaf.field leaf.start s hblock))
    · obtain ⟨w, hw, hpush⟩ := Option.map_eq_some_iff.mp hresult
      rw [hstack] at hpush
      rw [hw, (List.cons.inj hpush).1]
    · exact absurd (noFail_never _ _) hfail
    · contradiction
  · intro hvalue s block hblock
    apply (fieldToTable_encodes tgt leaf.field leaf.start s hblock).mono
    · rintro _ u ⟨hresult, -⟩
      rw [hvalue] at hresult
      exact (Option.some.inj hresult).symm
    · rintro e u ⟨-, ⟨he, -⟩ | ⟨-, hnone⟩⟩
      · exact he
      · rw [hvalue] at hnone
        contradiction

theorem SizedLeaf.ne_object {leaf : Leaf} {p : Nat} (h : SizedLeaf p leaf.type leaf.size) :
    leaf.type ≠ .object := by
  intro htype
  rw [htype] at h
  exact h

/-- A message is converted field by field, each from its own bytes, exactly when every `char`
array in it has a NUL of its own. -/
theorem readsOnlyItself_iff (tgt : Target) {fs : List LuaMsgFieldDescr} {n : Nat}
    (h : Describes (SizedLeaf 0) fs n) {m : Bytes} (hlen : m.length = n) :
    ReadsOnlyItself tgt fs m ↔ ∀ leaf ∈ leaves fs 0, leaf.type = .stringBuf →
      0 ∈ slice m leaf.start leaf.size.toNat := by
  have hrange : ∀ leaf ∈ leaves fs 0, leaf.start + leaf.size.toNat ≤ m.length := by
    intro leaf hleaf
    have hstop := (leaves_within h 0 leaf hleaf).stop_le
    simp only [Span.stop, Leaf.span, Nat.zero_add] at hstop
    omega
  constructor
  · rintro ⟨-, hown⟩ leaf hleaf htype
    have hin := hrange leaf hleaf
    obtain ⟨v, hv⟩ := hown leaf hleaf
    obtain ⟨hreads, -⟩ := hv _ (length_fullExcept hin) (slice_fullExcept hin)
    have hvalue := (leafReads_iff (SizedLeaf.ne_object (leaves_ok h 0 leaf hleaf))).mp hreads
    refine mem_of_fullExcept hin ?_
    simp only [leafValue, htype] at hvalue
    obtain ⟨text, htext, -⟩ := Option.map_eq_some_iff.mp hvalue
    unfold textAt at htext
    split at htext
    · assumption
    · contradiction
  · intro hterm
    have hread : ∀ leaf ∈ leaves fs 0, ∃ v, v ≠ .nil ∧ ∀ m' : Bytes, m'.length = m.length →
        slice m' leaf.start leaf.size.toNat = slice m leaf.start leaf.size.toNat →
          leafValue tgt m' leaf = some v := by
      intro leaf hleaf
      obtain ⟨value, hne, hvalue⟩ := leafValue_local tgt (leaves_ok h 0 leaf hleaf)
      refine ⟨value (slice m leaf.start leaf.size.toNat), hne _, fun m' hlen' heq => ?_⟩
      rw [← heq]
      refine hvalue m' (by rw [hlen']; exact hrange leaf hleaf) fun htype => ?_
      rw [heq]
      exact hterm leaf hleaf htype
    constructor
    · refine staysInside_iff.mpr (messageTable_isSome fun leaf hleaf => ?_)
      obtain ⟨v, -, hv⟩ := hread leaf hleaf
      exact ⟨v, hv m rfl rfl⟩
    · intro leaf hleaf
      obtain ⟨v, hne, hv⟩ := hread leaf hleaf
      refine ⟨v, fun m' hlen' heq => ⟨?_, fun t ht => ?_⟩⟩
      · exact (leafReads_iff (SizedLeaf.ne_object (leaves_ok h 0 leaf hleaf))).mpr (hv m' hlen' heq)
      · obtain ⟨w, hw, hlookup⟩ := messageTable_leaf h.distinct (tableOf_iff.mp ht) hleaf
        obtain rfl := Option.some.inj ((hv m' hlen' heq).symm.trans hw)
        exact hlookup hne

/-- `struct { char text[4]; uint32_t count; }`. -/
def noteFields : List LuaMsgFieldDescr :=
  [⟨ascii "text", .stringBuf, 0, 4, []⟩, ⟨ascii "count", .uint, 4, 4, []⟩]

/-- The text "hi" ends in the array. -/
theorem readsOnlyItself_note :
    ReadsOnlyItself Target.sample noteFields [104, 105, 0, 0, 1, 0, 0, 0] :=
  (readsOnlyItself_iff Target.sample (n := 8) (by decide) rfl).mpr (by decide)

/-- Three messages with the text "abcd". Two are shown with different texts, since the count
goes on from the array; a third is read past its end. -/
theorem not_readsOnlyItself_note : Describes (SizedLeaf 0) noteFields 8 ∧
    (∃ m m' t t' : _, m.length = 8 ∧ m'.length = 8 ∧ slice m 0 4 = slice m' 0 4 ∧
      TableOf Target.sample noteFields m t ∧ TableOf Target.sample noteFields m' t' ∧
      lookupPath Target.sample t [ascii "text"] ≠ lookupPath Target.sample t' [ascii "text"]) ∧
    ∃ m : Bytes, m.length = 8 ∧ slice m 0 4 = [97, 98, 99, 100] ∧
      ¬ StaysInside Target.sample noteFields m := by
  refine ⟨by decide, ?_, ?_⟩
  · refine ⟨[97, 98, 99, 100, 101, 0, 0, 0], [97, 98, 99, 100, 0, 0, 0, 0],
      .table [(ascii "text", .string (ascii "abcde")), (ascii "count", .integer 101)] none,
      .table [(ascii "text", .string (ascii "abcd")), (ascii "count", .integer 0)] none,
      rfl, rfl, rfl, tableOf_iff.mpr ?_, tableOf_iff.mpr ?_, by decide⟩
    · decide +kernel
    · decide +kernel
  · refine ⟨[97, 98, 99, 100, 1, 1, 1, 1], rfl, rfl, fun hinside => ?_⟩
    obtain ⟨t, ht⟩ := staysInside_iff.mp hinside
    have hnone : messageTable Target.sample noteFields [97, 98, 99, 100, 1, 1, 1, 1] 0 = none := by
      decide +kernel
    rw [hnone] at ht
    contradiction

end LuaZephyr
