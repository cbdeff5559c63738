import LuaZephyr.MsgDescr.WellFormed
import Mathlib.Data.List.Pairwise

/-!
# The leaves a table supplies

The decoder finds the value of a leaf by looking up the keys of its path, and skips
the leaf when a value on the way is nil. Over a described message it therefore writes
exactly the leaves the table supplies, each in its own range.

Which values of another type are converted, and which are skipped, is said by `MsgDescr.Layout`,
which the decoder follows. Metamethods are run only for keys a table does not have; what one of
them returns is then the value supplied.
-/

namespace LuaZephyr

open Words Patch

variable (tgt : Target)

/-- The value at the end of a path of keys; none when nil is found on the way. -/
def lookupPath (t : Value) : List Bytes → Option Value
  | [] => some t
  | key :: path =>
      match tgt.index t key with
      | .ok v => if v.isNil then none else lookupPath v path
      | .error _ => none

/-- The table has a value the decoder stores in the leaf. A STRING_BUF takes only
strings and numbers. -/
def Leaf.supplied (t : Value) (leaf : Leaf) : Bool :=
  match lookupPath tgt t leaf.path with
  | some v => leaf.type ≠ .stringBuf || (tgt.toText? v).isSome
  | none => false

variable {tgt}

theorem Leaf.supplied_under {t v : Value} {key : Bytes} (hv : tgt.index t key = .ok v)
    (hne : v.isNil = false) (leaf : Leaf) :
    (leaf.under key).supplied tgt t = leaf.supplied tgt v := by
  simp only [Leaf.supplied, Leaf.under, lookupPath, hv, hne, Bool.false_eq_true, if_false]
  rfl

theorem Leaf.supplied_of_nil {t v : Value} {leaf : Leaf} {key : Bytes} {path : List Bytes}
    (hpath : leaf.path = key :: path) (hv : tgt.index t key = .ok v) (hnil : v.isNil = true) :
    leaf.supplied tgt t = false := by
  simp only [Leaf.supplied, hpath, lookupPath, hv, hnil, if_true]

theorem fieldLeaves_path {f : LuaMsgFieldDescr} {base : Nat} {leaf : Leaf}
    (h : leaf ∈ fieldLeaves f base) : ∃ path, leaf.path = f.fieldName :: path := by
  obtain ⟨name, type, offset, size, subFields⟩ := f
  cases type with
  | object =>
      obtain ⟨inner, -, rfl⟩ := List.mem_map.mp h
      exact ⟨inner.path, rfl⟩
  | _ =>
      obtain rfl := List.mem_singleton.mp h
      exact ⟨[], rfl⟩

mutual

theorem fieldWrites_spans {f : LuaMsgFieldDescr} {n : Nat}
    (h : FieldDescribes (SizedLeaf tgt.pointerSize) f n) {t v : Value}
    (hv : tgt.index t f.fieldName = .ok v) (hne : v.isNil = false) {base : Nat}
    {ws : List (Write UInt8)} (hws : fieldWrites tgt f v base = .ok ws) :
    ws.map Write.span = ((fieldLeaves f base).filter (Leaf.supplied tgt t)).map Leaf.span := by
  obtain ⟨name, type, offset, size, subFields⟩ := f
  obtain ⟨hrange, htype⟩ := h
  have hone {cells : Bytes} (hlen : cells.length = size.toNat)
      (hsupplied : (Leaf.mk [name] type (base + offset.toNat) size).supplied tgt t = true)
      (hw : .ok [⟨base + offset.toNat, cells⟩] = (Except.ok ws : Except LuaError _)) :
      ws.map Write.span = ([Leaf.mk [name] type (base + offset.toNat) size].filter
        (Leaf.supplied tgt t)).map Leaf.span := by
    obtain rfl := Except.ok.inj hw
    rw [List.filter_cons_of_pos hsupplied, List.filter_nil]
    exact congrArg (fun k => [Span.mk (base + offset.toNat) k]) hlen
  have hhere (type : LuaMsgFieldType) :
      (Leaf.mk [name] type (base + offset.toNat) size).supplied tgt t =
        (type ≠ .stringBuf || (tgt.toText? v).isSome) := by
    simp only [Leaf.supplied, lookupPath, hv, hne, Bool.false_eq_true, if_false]
  cases type with
  | int =>
      exact hone ((length_integerCells tgt size _).trans (storeWidth_eq tgt htype))
        (hhere .int) hws
  | uint =>
      exact hone ((length_integerCells tgt size _).trans (storeWidth_eq tgt htype))
        (hhere .uint) hws
  | number =>
      exact hone ((length_numberCells tgt size _).trans (storeWidth_eq tgt htype))
        (hhere .number) hws
  | string =>
      exact hone ((length_pointerCells tgt _).trans (storeWidth_eq tgt htype))
        (hhere .string) hws
  | bool =>
      exact hone ((length_boolCells tgt _).trans (storeWidth_eq tgt htype)) (hhere .bool) hws
  | stringBuf =>
      cases htext : tgt.toText? v with
      | none =>
          obtain rfl : [] = ws := by simpa [fieldWrites, htext] using hws
          have hskipped : [Leaf.mk [name] .stringBuf (base + offset.toNat) size].filter
              (Leaf.supplied tgt t) = [] :=
            List.filter_cons_of_neg (by simp [hhere, htext])
          exact (congrArg (List.map Leaf.span) hskipped).symm
      | some text =>
          exact hone (length_stringBufCells (SizedLeaf.size_ne htype) text)
            (by simp [hhere, htext]) (by simpa [fieldWrites, htext] using hws)
  | object =>
      have hsub := tableWrites_spans (show Describes _ subFields _ from htype) hws
      have hunder : Leaf.supplied tgt t ∘ (Leaf.under name) = Leaf.supplied tgt v :=
        funext fun leaf => Leaf.supplied_under hv hne leaf
      rw [fieldLeaves, List.filter_map, hunder, List.map_map, hsub]
      rfl

/-- A table is written to the leaves it supplies, in their order. -/
theorem tableWrites_spans {fs : List LuaMsgFieldDescr} {n : Nat}
    (h : Describes (SizedLeaf tgt.pointerSize) fs n) {t : Value} {base : Nat}
    {ws : List (Write UInt8)} (hws : tableWrites tgt fs t base = .ok ws) :
    ws.map Write.span = ((leaves fs base).filter (Leaf.supplied tgt t)).map Leaf.span := by
  cases fs with
  | nil =>
      obtain rfl := Except.ok.inj hws
      rfl
  | cons f fs =>
      obtain ⟨v, here, rest, hv, hhere, hrest, rfl⟩ := tableWrites_cons_ok tgt hws
      rw [List.map_append, leaves, List.filter_append, List.map_append,
        tableWrites_spans h.2.2 hrest]
      congr 1
      cases hnil : v.isNil with
      | false =>
          rw [entryWrites, hnil] at hhere
          exact fieldWrites_spans h.1 hv hnil hhere
      | true =>
          rw [entryWrites, hnil] at hhere
          obtain rfl := Except.ok.inj hhere
          rw [List.filter_eq_nil_iff.mpr]
          · rfl
          · intro leaf hleaf
            obtain ⟨path, hpath⟩ := fieldLeaves_path hleaf
            rw [Leaf.supplied_of_nil hpath hv hnil]
            exact Bool.false_ne_true

end

/-- The writes of one table do not meet. -/
theorem tableWrites_apart {fs : List LuaMsgFieldDescr} {n : Nat}
    (h : Describes (SizedLeaf tgt.pointerSize) fs n) {t : Value} {base : Nat}
    {ws : List (Write UInt8)} (hws : tableWrites tgt fs t base = .ok ws) :
    ws.Pairwise Write.Apart := by
  have hsub : (ws.map Write.span).Sublist ((leaves fs base).map Leaf.span) := by
    rw [tableWrites_spans h hws]
    exact List.filter_sublist.map _
  exact pairwise_apart_of_sublist hsub (List.pairwise_map.mpr (leaves_apart h base))

/-- No write meets a leaf the table does not supply. -/
theorem tableWrites_avoid {fs : List LuaMsgFieldDescr} {n : Nat}
    (h : Describes (SizedLeaf tgt.pointerSize) fs n) {t : Value} {base : Nat}
    {ws : List (Write UInt8)} (hws : tableWrites tgt fs t base = .ok ws) {leaf : Leaf}
    (hleaf : leaf ∈ leaves fs base) (hmissing : ¬ leaf.supplied tgt t = true) :
    ∀ w ∈ ws, w.stop ≤ leaf.start ∨ leaf.start + leaf.size.toNat ≤ w.offset := by
  intro w hw
  have hspan : w.span ∈ ws.map Write.span := List.mem_map_of_mem hw
  rw [tableWrites_spans h hws] at hspan
  obtain ⟨other, hother, heq⟩ := List.mem_map.mp hspan
  obtain ⟨hmem, hsupplied⟩ := List.mem_filter.mp hother
  have hne : other ≠ leaf := by
    rintro rfl
    exact hmissing hsupplied
  have : Std.Symm fun a b : Leaf => a.span.Apart b.span := ⟨fun _ _ => Or.symm⟩
  have hapart : other.span.Apart leaf.span := (leaves_apart h base).forall hmem hleaf hne
  rw [heq] at hapart
  exact hapart

end LuaZephyr
