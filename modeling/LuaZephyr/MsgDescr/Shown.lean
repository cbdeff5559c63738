import LuaZephyr.MsgDescr.Supplied

/-!
# The table a message is shown as

Over a well-formed descriptor the table made of a message has one entry for each
field, in the order of the array, and each entry depends only on the bytes of its
own field. The only requirement on the message is that its STRING_BUF fields are
terminated.

The message is a list of bytes of at least the size the descriptor covers. Addresses in STRING
fields have to lead to a string, which is what the memory of the target is asked for. The order
of the keys in the Lua table itself is not modelled.
-/

namespace LuaZephyr

open Words Patch

variable (tgt : Target)

/-- Every STRING_BUF leaf has a NUL within its size. -/
def Terminated (m : Bytes) (ls : List Leaf) : Prop :=
  ∀ leaf ∈ ls, leaf.type = .stringBuf → 0 ∈ slice m leaf.start leaf.size.toNat

/-- The entries of the fields in the order of the array. -/
def shownEntries (buf : Bytes) : List LuaMsgFieldDescr → Nat → Option Entries
  | [], _ => some []
  | f :: fs, base =>
      (fieldValue tgt buf f base).bind fun v =>
        (shownEntries buf fs base).map ((f.fieldName, v) :: ·)

variable {tgt}

theorem shownEntries_cons_some {buf : Bytes} {f : LuaMsgFieldDescr}
    {fs : List LuaMsgFieldDescr} {base : Nat} {es : Entries}
    (h : shownEntries tgt buf (f :: fs) base = some es) :
    ∃ v rest, fieldValue tgt buf f base = some v ∧ shownEntries tgt buf fs base = some rest ∧
      es = (f.fieldName, v) :: rest := by
  obtain ⟨v, hv, hmap⟩ := Option.bind_eq_some_iff.mp h
  obtain ⟨rest, hrest, rfl⟩ := Option.map_eq_some_iff.mp hmap
  exact ⟨v, rest, hv, hrest, rfl⟩

/-- Under different names every field is found again. -/
theorem shownEntries_rawGet {buf : Bytes} {fs : List LuaMsgFieldDescr} {base : Nat} {es : Entries}
    (h : shownEntries tgt buf fs base = some es) (hnames : (fs.map (·.fieldName)).Nodup) :
    ∀ f ∈ fs, fieldValue tgt buf f base = some (rawGet es f.fieldName) := by
  induction fs generalizing es with
  | nil =>
      intro f hf
      simp at hf
  | cons f fs ih =>
      obtain ⟨v, rest, hv, hrest, rfl⟩ := shownEntries_cons_some h
      obtain ⟨hname, hnames⟩ := List.nodup_cons.mp hnames
      intro g hg
      obtain rfl | hg := List.mem_cons.mp hg
      · rw [rawGet_cons, if_pos rfl, hv]
      · have hne : f.fieldName ≠ g.fieldName := by
          intro heq
          exact hname (List.mem_map.mpr ⟨g, hg, heq.symm⟩)
        rw [rawGet_cons, if_neg hne]
        exact ih hrest hnames g hg

/-- Filling a table under new names appends the entries. -/
theorem entriesOf_append {buf : Bytes} {fs : List LuaMsgFieldDescr} {base : Nat} {acc : Entries}
    (hnil : ∀ f ∈ fs, fieldValue tgt buf f base ≠ some .nil)
    (hnew : ∀ f ∈ fs, f.fieldName ∉ acc.map Prod.fst)
    (hnames : (fs.map (·.fieldName)).Nodup) :
    entriesOf tgt buf fs base acc = (shownEntries tgt buf fs base).map (acc ++ ·) := by
  induction fs generalizing acc with
  | nil => simp [entriesOf, shownEntries]
  | cons f fs ih =>
      obtain ⟨hname, hnames⟩ := List.nodup_cons.mp hnames
      cases hv : fieldValue tgt buf f base with
      | none => simp [entriesOf, shownEntries, hv]
      | some v =>
          have hne : v ≠ .nil := by
            rintro rfl
            exact hnil f (List.mem_cons_self ..) hv
          have hset : rawSet acc f.fieldName v = acc ++ [(f.fieldName, v)] :=
            rawSet_of_not_mem (hnew f (List.mem_cons_self ..)) hne
          have hnew' : ∀ g ∈ fs, g.fieldName ∉ (acc ++ [(f.fieldName, v)]).map Prod.fst := by
            intro g hg hmem
            rw [List.map_append, List.mem_append] at hmem
            obtain hold | hlast := hmem
            · exact hnew g (List.mem_cons_of_mem _ hg) hold
            · exact hname (List.mem_map.mpr ⟨g, hg, List.mem_singleton.mp hlast⟩)
          simp only [entriesOf, shownEntries, hv, Option.bind_some, hset,
            ih (fun g hg => hnil g (List.mem_cons_of_mem _ hg)) hnew' hnames, Option.map_map]
          congr 1
          funext es
          simp

/-- The fields of a well-formed descriptor are never shown as nil. -/
theorem FieldDescribes.value_ne_nil {f : LuaMsgFieldDescr} {n : Nat} (h : FieldWellFormed f n)
    (buf : Bytes) (base : Nat) : fieldValue tgt buf f base ≠ some .nil := by
  obtain ⟨name, type, offset, size, subFields⟩ := f
  cases type with
  | number => exact h.2.elim
  | string => exact h.2.elim
  | _ => simp [fieldValue]

theorem Describes.entriesOf_eq {fs : List LuaMsgFieldDescr} {n : Nat} (h : WellFormed fs n)
    (buf : Bytes) (base : Nat) : entriesOf tgt buf fs base [] = shownEntries tgt buf fs base := by
  obtain ⟨hall, -, hnames⟩ := describes_iff.mp h
  rw [entriesOf_append (fun f hf => (hall f hf).value_ne_nil buf base) (by simp) hnames]
  simp

theorem Describes.messageTable_eq {fs : List LuaMsgFieldDescr} {n : Nat} (h : WellFormed fs n)
    (buf : Bytes) (base : Nat) :
    messageTable tgt fs buf base = (shownEntries tgt buf fs base).map (.table · none) := by
  rw [messageTable, h.entriesOf_eq]

theorem bytesAt_eq {buf : Bytes} {off n : Nat} (h : off + n ≤ buf.length) :
    bytesAt buf off n = some (slice buf off n) := if_pos h

/-- A terminated range holds the whole string. -/
theorem textAt_eq {buf : Bytes} {off n : Nat} (h : 0 ∈ slice buf off n) :
    textAt buf off = some (CString.text (slice buf off n)) := by
  have hsplit : buf.drop off = slice buf off n ++ (buf.drop off).drop n :=
    (List.take_append_drop n _).symm
  have hmem : 0 ∈ buf.drop off := by
    rw [hsplit]
    exact List.mem_append_left _ h
  rw [textAt, if_pos hmem, hsplit, CString.text_append_of_mem h]

variable (tgt)

theorem integerAt_isSome (extend : {w : Nat} → BitVec w → LuaInteger) {buf : Bytes} {off : Nat}
    {size : UInt8} (h : off + size.toNat ≤ buf.length) :
    ∃ x, integerAt tgt extend buf off size = some x := by
  unfold integerAt
  generalize size.toNat = n at h
  split
  · exact ⟨_, by rw [bytesAt_eq h]; rfl⟩
  · exact ⟨_, by rw [bytesAt_eq h]; rfl⟩
  · exact ⟨_, by rw [bytesAt_eq h]; rfl⟩
  · exact ⟨_, by rw [bytesAt_eq h]; rfl⟩
  · exact ⟨0, rfl⟩

theorem boolAt_eq {buf : Bytes} {off : Nat} (h : off + 1 ≤ buf.length) :
    boolAt tgt buf off = some (decide (readWord tgt.order 8 (slice buf off 1) ≠ 0)) := by
  rw [boolAt, bytesAt_eq h]
  rfl

mutual

theorem FieldDescribes.value_isSome {f : LuaMsgFieldDescr} {n : Nat} (h : FieldWellFormed f n)
    {m : Bytes} {base : Nat} (hlen : base + n ≤ m.length)
    (hterm : Terminated m (fieldLeaves f base)) : ∃ v, fieldValue tgt m f base = some v := by
  obtain ⟨name, type, offset, size, subFields⟩ := f
  obtain ⟨hrange, htype⟩ := h
  cases type with
  | int =>
      have hin : base + offset.toNat + size.toNat ≤ m.length := by omega
      obtain ⟨x, hx⟩ := integerAt_isSome tgt (BitVec.signExtend 32) hin
      exact ⟨.integer x, by simp only [fieldValue, hx]; rfl⟩
  | uint =>
      have hin : base + offset.toNat + size.toNat ≤ m.length := by omega
      obtain ⟨x, hx⟩ := integerAt_isSome tgt (BitVec.setWidth 32) hin
      exact ⟨.integer x, by simp only [fieldValue, hx]; rfl⟩
  | number => exact htype.elim
  | string => exact htype.elim
  | stringBuf =>
      have hnul := hterm _ (List.mem_singleton_self _) rfl
      exact ⟨_, by simp only [fieldValue, textAt_eq hnul]; rfl⟩
  | bool =>
      obtain rfl : size = 1 := htype
      have hone : (1 : UInt8).toNat = 1 := rfl
      exact ⟨_, by simp only [fieldValue]; rw [boolAt_eq tgt (by omega)]; rfl⟩
  | object =>
      have hterm' : Terminated m (leaves subFields (base + offset.toNat)) := by
        intro leaf hleaf htype'
        exact hterm (leaf.under name) (List.mem_map_of_mem hleaf) htype'
      have hsub : WellFormed subFields size.toNat := htype
      obtain ⟨es, hes⟩ := hsub.shown_isSome (by omega) hterm'
      refine ⟨.table es none, ?_⟩
      simp only [fieldValue]
      rw [hsub.entriesOf_eq, hes]
      rfl

theorem Describes.shown_isSome {fs : List LuaMsgFieldDescr} {n : Nat} (h : WellFormed fs n)
    {m : Bytes} {base : Nat} (hlen : base + n ≤ m.length)
    (hterm : Terminated m (leaves fs base)) : ∃ es, shownEntries tgt m fs base = some es := by
  cases fs with
  | nil => exact ⟨[], rfl⟩
  | cons f fs =>
      obtain ⟨v, hv⟩ := FieldDescribes.value_isSome h.1 hlen
        (fun leaf hleaf => hterm leaf (List.mem_append_left _ hleaf))
      obtain ⟨es, hes⟩ := Describes.shown_isSome h.2.2 hlen
        (fun leaf hleaf => hterm leaf (List.mem_append_right _ hleaf))
      exact ⟨(f.fieldName, v) :: es, by rw [shownEntries, hv, hes]; rfl⟩

end

end LuaZephyr
