import LuaZephyr.MsgDescr.Shuffled
import LuaZephyr.MsgDescr.Decode

/-!
# What a table does to a buffer

The decoder sets the bytes of each leaf the table has a fitting value for and no others,
and `leafBytes` says which bytes these are. Leaves are pairwise apart, so the buffer does
not depend on the order in which the fields are visited.

The descriptor has to be well formed, and the buffer as long as the region it describes. What
the values of a table are converted to is `MsgDescr.Layout`'s matter; keys of the table that no
field names have no effect at all.
-/

namespace LuaZephyr

open Outcome Words Patch

variable (tgt : Target)

/-- The bytes a value puts in a leaf: an integer modulo the width of the leaf, a truth
value, or the beginning of a text and NULs. -/
def leafBytes (leaf : Leaf) (v : Value) : Option Bytes :=
  match leaf.type with
  | .int | .uint =>
      let i := ((tgt.toInteger? v).getD 0).toInt % 2 ^ (8 * leaf.size.toNat)
      some (tgt.order.arrange (natToDigits leaf.size.toNat i.toNat))
  | .bool => some [if v.toBoolean then 1 else 0]
  | .stringBuf =>
      (tgt.toText? v).map fun s =>
        let kept := (CString.text s).take (leaf.size.toNat - 1)
        kept ++ List.replicate (leaf.size.toNat - kept.length) 0
  | .number | .string | .object => none

/-- The bytes the leaf has after the conversion of a table, if it changes them. -/
def newBytes (t : Value) (leaf : Leaf) : Option Bytes :=
  (lookupPath tgt t leaf.path).bind (leafBytes tgt leaf)

def newWrite (t : Value) (leaf : Leaf) : Option (Write UInt8) :=
  (newBytes tgt t leaf).map (⟨leaf.start, ·⟩)

variable {tgt}

theorem writeWord_signExtend (order : ByteOrder) (n : Nat) (val : LuaInteger) :
    writeWord order n (val.signExtend (8 * n)) =
      order.arrange (natToDigits n (val.toInt % 2 ^ (8 * n)).toNat) := by
  rw [writeWord, BitVec.signExtend, BitVec.toNat_ofInt]
  norm_cast

theorem integerCells_eq {size : UInt8} (h : size.toNat ∈ [1, 2, 4, 8]) (val : LuaInteger) :
    integerCells tgt size val =
      tgt.order.arrange (natToDigits size.toNat (val.toInt % 2 ^ (8 * size.toNat)).toNat) := by
  unfold integerCells
  generalize size.toNat = n at h ⊢
  simp only [List.mem_cons, List.not_mem_nil, or_false] at h
  obtain rfl | rfl | rfl | rfl := h
  · exact writeWord_signExtend _ 1 val
  · exact writeWord_signExtend _ 2 val
  · have hself : val.signExtend (8 * 4) = val := BitVec.signExtend_eq val
    rw [← writeWord_signExtend, hself]
    rfl
  · exact writeWord_signExtend _ 8 val

theorem stringBufCells_eq {size : UInt8} (h : 1 ≤ size.toNat) (s : Bytes) :
    stringBufCells size s = (CString.text s).take (size.toNat - 1) ++
      List.replicate (size.toNat - ((CString.text s).take (size.toNat - 1)).length) 0 := by
  have hzeros : size.toNat - ((CString.text s).take (size.toNat - 1)).length =
      size.toNat - 1 - (CString.text s).length + 1 := by
    rw [List.length_take]
    omega
  rw [hzeros, List.replicate_succ', stringBufCells, CString.strncpy, List.append_assoc]

theorem boolCells_eq (b : Bool) : boolCells tgt b = [if b then 1 else 0] := by
  unfold boolCells writeWord
  cases tgt.order with
  | little => cases b <;> rfl
  | big => cases b <;> rfl

theorem length_leafBytes {leaf : Leaf} (h : PlainLeaf leaf.type leaf.size) {v : Value} {bs : Bytes}
    (hbs : leafBytes tgt leaf v = some bs) : bs.length = leaf.size.toNat := by
  obtain ⟨path, type, start, size⟩ := leaf
  cases type with
  | int =>
      obtain rfl := Option.some.inj hbs
      rw [ByteOrder.length_arrange, length_natToDigits]
  | uint =>
      obtain rfl := Option.some.inj hbs
      rw [ByteOrder.length_arrange, length_natToDigits]
  | bool =>
      obtain rfl := Option.some.inj hbs
      obtain rfl : size = 1 := h
      rfl
  | stringBuf =>
      obtain ⟨s, -, rfl⟩ := Option.map_eq_some_iff.mp hbs
      simp only [List.length_append, List.length_take, List.length_replicate]
      omega
  | number => exact h.elim
  | string => exact h.elim
  | object => exact h.elim

theorem newWrite_under {t v : Value} {key : Bytes} (hv : tgt.index t key = .ok v)
    (hne : v.isNil = false) (leaf : Leaf) :
    newWrite tgt t (leaf.under key) = newWrite tgt v leaf := by
  simp only [newWrite, newBytes, Leaf.under, lookupPath, hv, hne, Bool.false_eq_true, if_false]
  rfl

theorem newWrite_of_nil {t v : Value} {leaf : Leaf} {key : Bytes} {path : List Bytes}
    (hpath : leaf.path = key :: path) (hv : tgt.index t key = .ok v) (hnil : v.isNil = true) :
    newWrite tgt t leaf = none := by
  simp only [newWrite, newBytes, hpath, lookupPath, hv, hnil, if_true, Option.bind_none,
    Option.map_none]

theorem newWrite_span {leaf : Leaf} (h : PlainLeaf leaf.type leaf.size) {t : Value}
    {w : Write UInt8} (hw : newWrite tgt t leaf = some w) : w.span = leaf.span := by
  obtain ⟨bs, hbs, rfl⟩ := Option.map_eq_some_iff.mp hw
  obtain ⟨v, -, hbs⟩ := Option.bind_eq_some_iff.mp hbs
  rw [Write.span, length_leafBytes h hbs, Leaf.span]

mutual

theorem fieldWrites_eq {f : LuaMsgFieldDescr} {n : Nat} (h : FieldWellFormed f n) {t v : Value}
    (hv : tgt.index t f.fieldName = .ok v) (hne : v.isNil = false) {base : Nat}
    {ws : List (Write UInt8)} (hws : fieldWrites tgt f v base = .ok ws) :
    ws = (fieldLeaves f base).filterMap (newWrite tgt t) := by
  obtain ⟨name, type, offset, size, subFields⟩ := f
  obtain ⟨hrange, htype⟩ := h
  have hone (type : LuaMsgFieldType) (cells : Option Bytes)
      (hcells : leafBytes tgt ⟨[name], type, base + offset.toNat, size⟩ v = cells) :
      (cells.map (Write.mk (base + offset.toNat))).toList =
        [Leaf.mk [name] type (base + offset.toNat) size].filterMap (newWrite tgt t) := by
    have hnew : newWrite tgt t ⟨[name], type, base + offset.toNat, size⟩ =
        cells.map (Write.mk (base + offset.toNat)) := by
      simp only [newWrite, newBytes, lookupPath, hv, hne, Bool.false_eq_true, if_false,
        Option.bind_some, hcells]
    rw [List.filterMap_cons, hnew]
    cases cells with
    | none => rfl
    | some cells => rfl
  cases type with
  | int =>
      obtain rfl := Except.ok.inj hws
      exact hone .int (some (integerCells tgt size _))
        (congrArg some (integerCells_eq htype ((tgt.toInteger? v).getD 0)).symm)
  | uint =>
      obtain rfl := Except.ok.inj hws
      exact hone .uint (some (integerCells tgt size _))
        (congrArg some (integerCells_eq htype ((tgt.toInteger? v).getD 0)).symm)
  | bool =>
      obtain rfl := Except.ok.inj hws
      exact hone .bool (some (boolCells tgt v.toBoolean))
        (congrArg some (boolCells_eq v.toBoolean).symm)
  | stringBuf =>
      cases htext : tgt.toText? v with
      | none =>
          obtain rfl : [] = ws := by simpa [fieldWrites, htext] using hws
          exact hone .stringBuf none (by rw [leafBytes, htext]; rfl)
      | some text =>
          obtain rfl : [(⟨base + offset.toNat, stringBufCells size text⟩ : Write UInt8)] = ws := by
            simpa [fieldWrites, htext] using hws
          exact hone .stringBuf (some (stringBufCells size text))
            (by rw [leafBytes, htext]; exact congrArg some (stringBufCells_eq htype text).symm)
  | number => exact htype.elim
  | string => exact htype.elim
  | object =>
      have hsub := tableWrites_eq (show WellFormed subFields _ from htype) hws
      have hunder : newWrite tgt t ∘ Leaf.under name = newWrite tgt v :=
        funext fun leaf => newWrite_under hv hne leaf
      rw [fieldLeaves, List.filterMap_map, hunder, ← hsub]

/-- A table is written leaf by leaf. -/
theorem tableWrites_eq {fs : List LuaMsgFieldDescr} {n : Nat} (h : WellFormed fs n) {t : Value}
    {base : Nat} {ws : List (Write UInt8)} (hws : tableWrites tgt fs t base = .ok ws) :
    ws = (leaves fs base).filterMap (newWrite tgt t) := by
  cases fs with
  | nil =>
      obtain rfl := Except.ok.inj hws
      rfl
  | cons f fs =>
      obtain ⟨v, here, rest, hv, hhere, hrest, rfl⟩ := tableWrites_cons_ok tgt hws
      rw [leaves, List.filterMap_append, ← tableWrites_eq h.2.2 hrest]
      congr 1
      cases hnil : v.isNil with
      | false =>
          rw [entryWrites, hnil] at hhere
          exact fieldWrites_eq h.1 hv hnil hhere
      | true =>
          rw [entryWrites, hnil] at hhere
          obtain rfl := Except.ok.inj hhere
          refine (List.filterMap_eq_nil_iff.mpr fun leaf hleaf => ?_).symm
          obtain ⟨path, hpath⟩ := fieldLeaves_path hleaf
          exact newWrite_of_nil hpath hv hnil

end

/-- `b'` is `b` with the table's values in the leaves. -/
structure Converted (tgt : Target) (fs : List LuaMsgFieldDescr) (t : Value) (b b' : Bytes) :
    Prop where
  length : b'.length = b.length
  leaf : ∀ leaf ∈ leaves fs 0, slice b' leaf.start leaf.size.toNat =
    (newBytes tgt t leaf).getD (slice b leaf.start leaf.size.toNat)
  outside : ∀ i, (∀ leaf ∈ leaves fs 0, ¬ leaf.span.Covers i) → b'[i]? = b[i]?

section Converted

variable {fs fs' : List LuaMsgFieldDescr} {n : Nat} {t : Value} {b b' c : Bytes}

/-- Writing the leaves gives the converted buffer. -/
theorem converted_putAll (h : WellFormed fs n) (hlen : n ≤ b.length) :
    Converted tgt fs t b (putAll b ((leaves fs 0).filterMap (newWrite tgt t))) := by
  have hspan {leaf : Leaf} (hleaf : leaf ∈ leaves fs 0) {w : Write UInt8}
      (hw : newWrite tgt t leaf = some w) : w.span = leaf.span :=
    newWrite_span (leaves_ok h 0 leaf hleaf) hw
  have hapart : ((leaves fs 0).filterMap (newWrite tgt t)).Pairwise Write.Apart := by
    rw [List.pairwise_filterMap]
    refine (leaves_apart (h.sized 0) 0).imp_of_mem ?_
    intro leaf leaf' hleaf hleaf' hspans w hw w' hw'
    rw [← hspan hleaf hw, ← hspan hleaf' hw'] at hspans
    exact hspans
  have hwithin : AllWithin ((leaves fs 0).filterMap (newWrite tgt t)) b.length := by
    intro w hw
    obtain ⟨leaf, hleaf, hw⟩ := List.mem_filterMap.mp hw
    have hstop := (leaves_within (h.sized 0) 0 leaf hleaf).stop_le
    rw [← hspan hleaf hw] at hstop
    simp only [Span.stop, Write.span, Nat.zero_add] at hstop
    simp only [Write.stop]
    omega
  refine ⟨length_putAll hwithin, fun leaf hleaf => ?_, fun i hi => ?_⟩
  · cases hnew : newBytes tgt t leaf with
    | some bs =>
        have hw : newWrite tgt t leaf = some ⟨leaf.start, bs⟩ := by rw [newWrite, hnew]; rfl
        have hmem := List.mem_filterMap.mpr ⟨leaf, hleaf, hw⟩
        have hsize : bs.length = leaf.size.toNat := congrArg Span.length (hspan hleaf hw)
        have hslice := slice_putAll_of_mem hwithin hapart hmem
        rw [hsize] at hslice
        exact hslice
    | none =>
        apply slice_putAll_of_apart hwithin
        intro w hw
        obtain ⟨other, hother, hw⟩ := List.mem_filterMap.mp hw
        have hne : other ≠ leaf := by
          rintro rfl
          rw [newWrite, hnew] at hw
          contradiction
        have : Std.Symm fun a b : Leaf => a.span.Apart b.span := ⟨fun _ _ => Or.symm⟩
        have hspans : other.span.Apart leaf.span :=
          (leaves_apart (h.sized 0) 0).forall hother hleaf hne
        rw [← hspan hother hw] at hspans
        exact hspans
  · apply getElem?_putAll_of_uncovered hwithin
    intro w hw hcovers
    obtain ⟨leaf, hleaf, hw⟩ := List.mem_filterMap.mp hw
    refine hi leaf hleaf ?_
    rw [← hspan hleaf hw]
    exact hcovers

/-- Each byte of the converted buffer is determined. -/
theorem Converted.unique (hb : Converted tgt fs t b b') (hc : Converted tgt fs t b c) :
    b' = c := by
  apply List.ext_getElem?
  intro i
  by_cases hcovered : ∃ leaf ∈ leaves fs 0, leaf.span.Covers i
  · obtain ⟨leaf, hleaf, hlo, hhi⟩ := hcovered
    have hslices := (hb.leaf leaf hleaf).trans (hc.leaf leaf hleaf).symm
    have hcells := congrArg (fun bs : Bytes => bs[i - leaf.start]?) hslices
    simp only [Leaf.span, Span.stop] at hlo hhi
    simp only [getElem?_slice] at hcells
    rwa [if_pos (by omega), if_pos (by omega), show leaf.start + (i - leaf.start) = i by omega]
      at hcells
  · rw [not_exists] at hcovered
    have hout : ∀ leaf ∈ leaves fs 0, ¬ leaf.span.Covers i :=
      fun leaf hleaf hcovers => hcovered leaf ⟨hleaf, hcovers⟩
    rw [hb.outside i hout, hc.outside i hout]

/-- The order of the fields does not matter. -/
theorem Converted.shuffled (hb : Converted tgt fs' t b b') (h : Shuffled fs fs') :
    Converted tgt fs t b b' :=
  ⟨hb.length, fun leaf hleaf => hb.leaf leaf ((h.leaves_perm 0).mem_iff.mp hleaf),
    fun i hi => hb.outside i fun leaf hleaf => hi leaf ((h.leaves_perm 0).mem_iff.mpr hleaf)⟩

end Converted

mutual

def FieldPlain : LuaMsgFieldDescr → Value → Prop
  | ⟨_, type, _, _, subFields⟩, v =>
      type = .object → v = .nil ∨ ∃ es, v = .table es none ∧ ObjectsPlain subFields es

/-- At every OBJECT key there is nil or another such table. -/
def ObjectsPlain : List LuaMsgFieldDescr → Entries → Prop
  | [], _ => True
  | f :: fs, es => FieldPlain f (rawGet es f.fieldName) ∧ ObjectsPlain fs es

end

theorem FieldPlain.of_ne {f : LuaMsgFieldDescr} {v : Value} (h : f.type ≠ .object) :
    FieldPlain f v := by
  obtain ⟨name, type, offset, size, subFields⟩ := f
  exact fun hobject => absurd hobject h

mutual

theorem FieldShuffled.plain {f f' : LuaMsgFieldDescr} (h : FieldShuffled f f') {v : Value}
    (hv : FieldPlain f v) : FieldPlain f' v :=
  match h with
  | .mk name type offset size hsub => fun hobject =>
      match hv hobject with
      | .inl hnil => .inl hnil
      | .inr ⟨es, htable, hes⟩ => .inr ⟨es, htable, Shuffled.plain hsub hes⟩

theorem Shuffled.plain {fs fs' : List LuaMsgFieldDescr} (h : Shuffled fs fs') {es : Entries}
    (hes : ObjectsPlain fs es) : ObjectsPlain fs' es :=
  match h with
  | .nil => trivial
  | .cons hf hfs => ⟨hf.fieldName_eq ▸ FieldShuffled.plain hf hes.1, Shuffled.plain hfs hes.2⟩
  | .swap _ _ _ => ⟨hes.2.1, hes.1, hes.2.2⟩
  | .trans hfg hgh => Shuffled.plain hgh (Shuffled.plain hfg hes)

end

mutual

theorem FieldPlain.indexable {f : LuaMsgFieldDescr} {v : Value} (h : FieldPlain f v) :
    v = .nil ∨ FieldIndexable tgt f v := by
  obtain ⟨name, type, offset, size, subFields⟩ := f
  by_cases hobject : type = .object
  · obtain hnil | ⟨es, rfl, hes⟩ := h hobject
    · exact .inl hnil
    · exact .inr fun _ => ObjectsPlain.indexable hes
  · exact .inr fun hobject' => absurd hobject' hobject

/-- No lookup in such a table raises an error. -/
theorem ObjectsPlain.indexable {fs : List LuaMsgFieldDescr} {es : Entries}
    (h : ObjectsPlain fs es) : Indexable tgt fs (.table es none) := by
  cases fs with
  | nil => trivial
  | cons f fs => exact ⟨⟨_, rfl, FieldPlain.indexable h.1⟩, ObjectsPlain.indexable h.2⟩

end

/-- `lua_msg_descr_from_table` sets every byte as `Converted` says, whatever the order of
the fields arrays. It stops early only out of memory, or at an error of a lookup in a
value that is not a table of the described shape. -/
theorem luaMsgDescrFromTable_exact {β : Type} (tgt : Target) {fs : List LuaMsgFieldDescr} {n : Nat}
    (h : WellFormed fs n) {s : State β} {block : Nat} {b : Bytes}
    (hblock : s.heap.blocks block = some b) (hlen : n ≤ b.length) {idx : Int} {t : Value}
    (hpos : 0 < idx) (hidx : valueAt s.stack idx = some t) :
    ∃ b', Converted tgt fs t b b' ∧ ∀ fs', Shuffled fs fs' →
      wp (luaMsgDescrFromTable tgt fs' ⟨block, 0⟩ idx)
        (fun _ u => u.stack = s.stack ∧ u.heap = s.heap.withBlock block b')
        (fun e _ => (e = .error .memory ∧ ¬ ∀ i, s.apiFails i = false) ∨
          ((∃ err, e = .error err) ∧ ¬ ∃ es, t = .table es none ∧ ObjectsPlain fs es)) s := by
  have hconverted : Converted tgt fs t b (putAll b ((leaves fs 0).filterMap (newWrite tgt t))) :=
    converted_putAll h hlen
  refine ⟨_, hconverted, fun fs' hshuffled => ?_⟩
  have h' : WellFormed fs' n := hshuffled.describes h
  apply (luaMsgDescrFromTable_decodes tgt fs' 0 idx t s hblock hpos hidx).mono
  · rintro _ u ⟨ws, hws, -, hstack, hu, -⟩
    refine ⟨hstack, ?_⟩
    obtain rfl := tableWrites_eq h' hws
    have heq := ((converted_putAll h' hlen).shuffled hshuffled).unique hconverted
    rw [hu.heap, heq]
  · rintro e u ⟨-, ⟨he, hfail⟩ | ⟨err, he, herr⟩ | ⟨-, hout⟩⟩
    · exact .inl ⟨he, fun hall => hfail fun i _ => hall _⟩
    · refine .inr ⟨⟨err, he⟩, ?_⟩
      rintro ⟨es, rfl, hes⟩
      obtain ⟨ws, hws⟩ :=
        (tableWrites_ok_iff tgt fs' (.table es none) 0).mpr (hshuffled.plain hes).indexable
      rw [herr] at hws
      contradiction
    · exact absurd (Describes.fits tgt (h'.sized _) (by omega)) hout

def versionEntries : Entries :=
  [(ascii "major", .integer 7), (ascii "hardware_id", .string (ascii "ab"))]

/-- The entries in a table at index 1, and a struct of ones in block 0. -/
def versionTableState : State Unit :=
  { State.idle 0 () with
    stack := [.table versionEntries none]
    heap := ⟨fun p => if p = 0 then some (List.replicate 28 1) else none, 1, fun _ => none⟩ }

/-- The reversed descriptor fills the struct just as the descriptor does. -/
theorem luaMsgDescrFromTable_exact_version : ∃ b',
    Converted Target.sample msgVersionFields (.table versionEntries none)
        (List.replicate 28 1) b' ∧
      wp (luaMsgDescrFromTable Target.sample msgVersionFields.reverse ⟨0, 0⟩ 1)
        (fun _ u => u.heap = versionTableState.heap.withBlock 0 b') (fun _ _ => False)
        versionTableState := by
  have hfields : WellFormed msgVersionFields 28 := by decide
  have hblock : versionTableState.heap.blocks 0 = some (List.replicate 28 1) := rfl
  have hidx : valueAt versionTableState.stack 1 = some (.table versionEntries none) := rfl
  obtain ⟨b', hb', hrun⟩ :=
    luaMsgDescrFromTable_exact Target.sample hfields hblock (by decide) (by decide) hidx
  refine ⟨b', hb', ?_⟩
  apply (hrun _ (.of_perm (List.reverse_perm _).symm)).mono
  · exact fun _ u hu => hu.2
  · rintro e u (⟨-, hfail⟩ | ⟨-, hplain⟩)
    · exact hfail fun _ => rfl
    · exact hplain ⟨versionEntries, rfl, .of_ne (by decide), .of_ne (by decide),
        .of_ne (by decide), .of_ne (by decide), trivial⟩

end LuaZephyr
