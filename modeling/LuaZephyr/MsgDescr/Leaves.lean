import LuaZephyr.MsgDescr.Supplied
import LuaZephyr.MsgDescr.Encode

/-!
# Leaves of a shown message

The value at the end of a leaf's path is the one the encoder read for the leaf, unless a
later field of the same name has replaced it. `TableOf` is a run of the encoder that
finished: it finds the table `messageTable` finds, and exists whenever that does.

A leaf is a field that is no OBJECT, with the path of names that leads to it. Arrays with two
fields of one name are allowed here, which is why a later field can hide an earlier leaf; a
well-formed descriptor has none.
-/

namespace LuaZephyr

open Outcome Words Patch

variable (tgt : Target)

/-- What the encoder reads for a leaf. -/
def leafValue (buf : Bytes) (leaf : Leaf) : Option Value :=
  match leaf.type with
  | .int => (integerAt tgt (BitVec.signExtend 32) buf leaf.start leaf.size).map .integer
  | .uint => (integerAt tgt (BitVec.setWidth 32) buf leaf.start leaf.size).map .integer
  | .number => (numberAt tgt buf leaf.start leaf.size).map .number
  | .string => (pointerAt tgt buf leaf.start).bind (stringValue tgt)
  | .stringBuf => (textAt buf leaf.start).map .string
  | .bool => (boolAt tgt buf leaf.start).map .boolean
  | .object => none

/-- The widths the header lists are read whole. -/
theorem integerAt_supported (extend : {w : Nat} → BitVec w → LuaInteger) {size : UInt8}
    (h : size.toNat ∈ [1, 2, 4, 8]) (buf : Bytes) (off : Nat) :
    integerAt tgt extend buf off size = (bytesAt buf off size.toNat).map fun bs =>
      extend (readWord tgt.order (8 * size.toNat) bs) := by
  unfold integerAt
  generalize size.toNat = n at h ⊢
  simp only [List.mem_cons, List.not_mem_nil, or_false] at h
  obtain rfl | rfl | rfl | rfl := h
  · rfl
  · rfl
  · rfl
  · rfl

variable {tgt}

mutual

def FieldDistinct : LuaMsgFieldDescr → Prop
  | ⟨_, type, _, _, subFields⟩ => type = .object → Distinct subFields

/-- The fields of every array have different names. -/
def Distinct : List LuaMsgFieldDescr → Prop
  | [] => True
  | f :: fs => FieldDistinct f ∧ (∀ g ∈ fs, f.fieldName ≠ g.fieldName) ∧ Distinct fs

end

theorem Distinct.names {fs : List LuaMsgFieldDescr} (h : Distinct fs) :
    (fs.map (·.fieldName)).Nodup := by
  induction fs with
  | nil => exact List.nodup_nil
  | cons f fs ih =>
      rw [List.map_cons, List.nodup_cons]
      refine ⟨fun hmem => ?_, ih h.2.2⟩
      obtain ⟨g, hg, hname⟩ := List.mem_map.mp hmem
      exact h.2.1 g hg hname.symm

mutual

theorem FieldDescribes.distinct {ok : LuaMsgFieldType → UInt8 → Prop} {f : LuaMsgFieldDescr}
    {n : Nat} (h : FieldDescribes ok f n) : FieldDistinct f := by
  obtain ⟨name, type, offset, size, subFields⟩ := f
  intro hobject
  subst hobject
  exact Describes.distinct h.2

/-- The fields of a described region have different names. -/
theorem Describes.distinct {ok : LuaMsgFieldType → UInt8 → Prop} {fs : List LuaMsgFieldDescr}
    {n : Nat} (h : Describes ok fs n) : Distinct fs := by
  cases fs with
  | nil => trivial
  | cons f fs =>
      exact ⟨FieldDescribes.distinct h.1, fun g hg => (h.2.1 g hg).2, Describes.distinct h.2.2⟩

end

/-- The last field of every name. -/
def lastFields : List LuaMsgFieldDescr → List LuaMsgFieldDescr
  | [] => []
  | f :: fs =>
      if f.fieldName ∈ fs.map (·.fieldName) then lastFields fs else f :: lastFields fs

theorem lastFields_of_nodup {fs : List LuaMsgFieldDescr} (h : (fs.map (·.fieldName)).Nodup) :
    lastFields fs = fs := by
  induction fs with
  | nil => rfl
  | cons f fs ih =>
      obtain ⟨hname, hnames⟩ := List.nodup_cons.mp h
      rw [lastFields, if_neg hname, ih hnames]

mutual

def fieldVisibleLeaves : LuaMsgFieldDescr → Nat → List Leaf
  | ⟨name, type, offset, size, subFields⟩, base =>
    match type with
    | .object => (visibleLeaves subFields (base + offset.toNat)).map (·.under name)
    | type => [⟨[name], type, base + offset.toNat, size⟩]

/-- The leaves whose keys are not set again by a later field of the same array. -/
def visibleLeaves : List LuaMsgFieldDescr → Nat → List Leaf
  | [], _ => []
  | f :: fs, base =>
      if f.fieldName ∈ fs.map (·.fieldName) then visibleLeaves fs base
      else fieldVisibleLeaves f base ++ visibleLeaves fs base

end

mutual

theorem fieldVisibleLeaves_of_distinct {f : LuaMsgFieldDescr} (h : FieldDistinct f) (base : Nat) :
    fieldVisibleLeaves f base = fieldLeaves f base := by
  obtain ⟨name, type, offset, size, subFields⟩ := f
  cases type with
  | object => rw [fieldVisibleLeaves, fieldLeaves, visibleLeaves_of_distinct (h rfl)]
  | _ => rfl

/-- Where all names are different every leaf is visible. -/
theorem visibleLeaves_of_distinct {fs : List LuaMsgFieldDescr} (h : Distinct fs) (base : Nat) :
    visibleLeaves fs base = leaves fs base := by
  cases fs with
  | nil => rfl
  | cons f fs =>
      have hname : f.fieldName ∉ fs.map (·.fieldName) := (List.nodup_cons.mp h.names).1
      rw [visibleLeaves, if_neg hname, leaves, fieldVisibleLeaves_of_distinct h.1,
        visibleLeaves_of_distinct h.2.2]

end

/-- After the loop of the encoder the last field of a name is found under it, and other
keys are as they were. -/
theorem entriesOf_lastFields {buf : Bytes} {fs : List LuaMsgFieldDescr} {base : Nat}
    {acc es : Entries} (h : entriesOf tgt buf fs base acc = some es) :
    (∀ f ∈ lastFields fs, fieldValue tgt buf f base = some (rawGet es f.fieldName)) ∧
      ∀ key ∉ fs.map (·.fieldName), rawGet es key = rawGet acc key := by
  induction fs generalizing acc with
  | nil =>
      obtain rfl := Option.some.inj h
      simp [lastFields]
  | cons f fs ih =>
      obtain ⟨v, hv, hrest⟩ := Option.bind_eq_some_iff.mp h
      obtain ⟨hfields, hothers⟩ := ih hrest
      refine ⟨?_, fun key hkey => ?_⟩
      · rw [lastFields]
        split
        · exact hfields
        · rename_i hname
          intro g hg
          obtain rfl | hg := List.mem_cons.mp hg
          · rw [hv, hothers g.fieldName hname, rawGet_rawSet, if_pos rfl]
          · exact hfields g hg
      · rw [List.map_cons, List.mem_cons, not_or] at hkey
        rw [hothers key hkey.2, rawGet_rawSet, if_neg (Ne.symm hkey.1)]

theorem entriesOf_rawGet {buf : Bytes} {fs : List LuaMsgFieldDescr} {base : Nat}
    (hnames : (fs.map (·.fieldName)).Nodup) {acc es : Entries}
    (h : entriesOf tgt buf fs base acc = some es) :
    ∀ f ∈ fs, fieldValue tgt buf f base = some (rawGet es f.fieldName) := by
  have hlast := (entriesOf_lastFields h).1
  rwa [lastFields_of_nodup hnames] at hlast

theorem lookupPath_table {es : Entries} {key : Bytes} {path : List Bytes}
    (hne : rawGet es key ≠ .nil) :
    lookupPath tgt (.table es none) (key :: path) = lookupPath tgt (rawGet es key) path := by
  rw [lookupPath, Target.index_table]
  simp only [Value.isNil_iff, if_neg hne]

mutual

theorem fieldValue_leaf {f : LuaMsgFieldDescr} {buf : Bytes} {base : Nat}
    {v : Value} (hv : fieldValue tgt buf f base = some v) {leaf : Leaf}
    (hleaf : leaf ∈ fieldVisibleLeaves f base) : ∃ w, leafValue tgt buf leaf = some w ∧
      (w ≠ .nil → ∃ path, leaf.path = f.fieldName :: path ∧ v ≠ .nil ∧
        lookupPath tgt v path = some w) := by
  obtain ⟨name, type, offset, size, subFields⟩ := f
  cases type with
  | object =>
      obtain ⟨inner, hinner, rfl⟩ := List.mem_map.mp hleaf
      obtain ⟨es, hes, rfl⟩ := Option.map_eq_some_iff.mp hv
      obtain ⟨w, hw, hlookup⟩ := visibleLeaves_lookup (entriesOf_lastFields hes).1 hinner
      exact ⟨w, hw, fun hne => ⟨inner.path, rfl, nofun, hlookup hne⟩⟩
  | _ =>
      obtain rfl := List.mem_singleton.mp hleaf
      exact ⟨v, hv, fun hne => ⟨[], rfl, hne, rfl⟩⟩

theorem visibleLeaves_lookup {fs : List LuaMsgFieldDescr} {buf : Bytes} {base : Nat} {es : Entries}
    (hes : ∀ f ∈ lastFields fs, fieldValue tgt buf f base = some (rawGet es f.fieldName))
    {leaf : Leaf} (hleaf : leaf ∈ visibleLeaves fs base) : ∃ w, leafValue tgt buf leaf = some w ∧
      (w ≠ .nil → lookupPath tgt (.table es none) leaf.path = some w) := by
  cases fs with
  | nil => simp [visibleLeaves] at hleaf
  | cons f fs =>
      rw [visibleLeaves] at hleaf
      rw [lastFields] at hes
      split at hleaf
      · rename_i hname
        rw [if_pos hname] at hes
        exact visibleLeaves_lookup hes hleaf
      · rename_i hname
        rw [if_neg hname] at hes
        obtain hhere | hrest := List.mem_append.mp hleaf
        · obtain ⟨w, hw, hlookup⟩ := fieldValue_leaf (hes f (List.mem_cons_self ..)) hhere
          refine ⟨w, hw, fun hne => ?_⟩
          obtain ⟨path, hpath, hnil, hpath'⟩ := hlookup hne
          rw [hpath, lookupPath_table hnil, hpath']
        · exact visibleLeaves_lookup (fun g hg => hes g (List.mem_cons_of_mem _ hg)) hrest

end

/-- The table of a message has the value of every visible leaf under the leaf's path. -/
theorem messageTable_visibleLeaf {fs : List LuaMsgFieldDescr} {buf : Bytes} {base : Nat}
    {v : Value} (hv : messageTable tgt fs buf base = some v) {leaf : Leaf}
    (hleaf : leaf ∈ visibleLeaves fs base) : ∃ w, leafValue tgt buf leaf = some w ∧
      (w ≠ .nil → lookupPath tgt v leaf.path = some w) := by
  obtain ⟨es, hes, rfl⟩ := Option.map_eq_some_iff.mp hv
  exact visibleLeaves_lookup (entriesOf_lastFields hes).1 hleaf

theorem messageTable_leaf {fs : List LuaMsgFieldDescr} (h : Distinct fs) {buf : Bytes} {base : Nat}
    {v : Value} (hv : messageTable tgt fs buf base = some v) {leaf : Leaf}
    (hleaf : leaf ∈ leaves fs base) : ∃ w, leafValue tgt buf leaf = some w ∧
      (w ≠ .nil → lookupPath tgt v leaf.path = some w) := by
  rw [← visibleLeaves_of_distinct h] at hleaf
  exact messageTable_visibleLeaf hv hleaf

mutual

theorem fieldValue_isSome {f : LuaMsgFieldDescr} {buf : Bytes} {base : Nat}
    (h : ∀ leaf ∈ fieldLeaves f base, ∃ v, leafValue tgt buf leaf = some v) :
    ∃ v, fieldValue tgt buf f base = some v := by
  obtain ⟨name, type, offset, size, subFields⟩ := f
  cases type with
  | object =>
      obtain ⟨es, hes⟩ := entriesOf_isSome
        (fun leaf hleaf => h (leaf.under name) (List.mem_map_of_mem hleaf)) []
      exact ⟨.table es none, by rw [fieldValue, hes, Option.map_some]⟩
  | _ => exact h _ (List.mem_singleton_self _)

theorem entriesOf_isSome {fs : List LuaMsgFieldDescr} {buf : Bytes} {base : Nat}
    (h : ∀ leaf ∈ leaves fs base, ∃ v, leafValue tgt buf leaf = some v) (acc : Entries) :
    ∃ es, entriesOf tgt buf fs base acc = some es := by
  cases fs with
  | nil => exact ⟨acc, rfl⟩
  | cons f fs =>
      obtain ⟨v, hv⟩ := fieldValue_isSome
        (fun leaf hleaf => h leaf (List.mem_append_left _ hleaf))
      obtain ⟨es, hes⟩ := entriesOf_isSome
        (fun leaf hleaf => h leaf (List.mem_append_right _ hleaf)) (rawSet acc f.fieldName v)
      exact ⟨es, by rw [entriesOf, hv, Option.bind_some, hes]⟩

end

/-- A message whose leaves can all be read has a table. -/
theorem messageTable_isSome {fs : List LuaMsgFieldDescr} {buf : Bytes} {base : Nat}
    (h : ∀ leaf ∈ leaves fs base, ∃ v, leafValue tgt buf leaf = some v) :
    ∃ t, messageTable tgt fs buf base = some t := by
  obtain ⟨es, hes⟩ := entriesOf_isSome h []
  exact ⟨.table es none, by rw [messageTable, hes, Option.map_some]⟩

/-- The leaf as a field of its own. -/
def Leaf.field (leaf : Leaf) : LuaMsgFieldDescr :=
  ⟨leaf.path.getLastD [], leaf.type, 0, leaf.size, []⟩

theorem fieldValue_field {leaf : Leaf} (h : leaf.type ≠ .object) (buf : Bytes) :
    fieldValue tgt buf leaf.field leaf.start = leafValue tgt buf leaf := by
  obtain ⟨path, type, start, size⟩ := leaf
  cases type with
  | object => exact absurd rfl h
  | _ => rfl

variable (tgt) in
/-- Some run of `lua_msg_descr_to_table` on the message finishes with the table. -/
def TableOf (fs : List LuaMsgFieldDescr) (m : Bytes) (t : Value) : Prop :=
  ∃ (s u : State Unit) (block : Nat), s.heap.blocks block = some m ∧
    luaMsgDescrToTable tgt fs ⟨block, 0⟩ s = .ok ⟨⟩ u ∧ u.stack = t :: s.stack

theorem tableOf_iff {fs : List LuaMsgFieldDescr} {m : Bytes} {t : Value} :
    TableOf tgt fs m t ↔ messageTable tgt fs m 0 = some t := by
  constructor
  · rintro ⟨s, u, block, hblock, hrun, hstack⟩
    obtain ⟨hresult, -⟩ := (luaMsgDescrToTable_encodes tgt fs 0 s hblock).of_run_ok hrun
    obtain ⟨t', ht', hpush⟩ := Option.map_eq_some_iff.mp hresult
    rw [hstack] at hpush
    rw [ht', (List.cons.inj hpush).1]
  · intro ht
    let s : State Unit := { State.idle 0 () with
      heap := ⟨fun _ => some m, 0, fun _ => none⟩ }
    have hblock : s.heap.blocks 0 = some m := rfl
    have hencodes := luaMsgDescrToTable_encodes tgt fs 0 s hblock
    rw [ht] at hencodes
    obtain ⟨_, u, hrun, hstack, -⟩ | ⟨e, u, -, -, ⟨-, hfail⟩ | ⟨-, hnone⟩⟩ := wp_iff.mp hencodes
    · exact ⟨s, u, 0, rfl, hrun, (Option.some.inj hstack).symm⟩
    · exact absurd (noFail_never _ _) hfail
    · contradiction

end LuaZephyr
