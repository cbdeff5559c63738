import LuaZephyr.MsgDescr.Supplied

/-!
# Descriptors in another order

The entries of a fields array, and of the arrays nested in it, may stand in any order.
The leaves are the same, and so are the conditions on them.

Only the order differs: the arrays have the same names, offsets and sizes, so what is proved for
the fields in the order of the struct is carried over to the order their author chose. Entries
that are missing, or there twice, are another descriptor and not covered.
-/

namespace LuaZephyr

open Words Patch

mutual

/-- The same field, with its nested array in another order. -/
inductive FieldShuffled : LuaMsgFieldDescr → LuaMsgFieldDescr → Prop
  | mk (name : Bytes) (type : LuaMsgFieldType) (offset : UInt16) (size : UInt8)
      {subFields subFields' : List LuaMsgFieldDescr} (h : Shuffled subFields subFields') :
      FieldShuffled ⟨name, type, offset, size, subFields⟩ ⟨name, type, offset, size, subFields'⟩

/-- The same fields, in another order at any level. -/
inductive Shuffled : List LuaMsgFieldDescr → List LuaMsgFieldDescr → Prop
  | nil : Shuffled [] []
  | cons {f f' : LuaMsgFieldDescr} {fs fs' : List LuaMsgFieldDescr} (hf : FieldShuffled f f')
      (hfs : Shuffled fs fs') : Shuffled (f :: fs) (f' :: fs')
  | swap (f g : LuaMsgFieldDescr) (fs : List LuaMsgFieldDescr) :
      Shuffled (f :: g :: fs) (g :: f :: fs)
  | trans {fs gs hs : List LuaMsgFieldDescr} (hfg : Shuffled fs gs) (hgh : Shuffled gs hs) :
      Shuffled fs hs

end

mutual

theorem FieldShuffled.refl (f : LuaMsgFieldDescr) : FieldShuffled f f := by
  obtain ⟨name, type, offset, size, subFields⟩ := f
  exact .mk name type offset size (Shuffled.refl subFields)

theorem Shuffled.refl (fs : List LuaMsgFieldDescr) : Shuffled fs fs := by
  cases fs with
  | nil => exact .nil
  | cons f fs => exact .cons (FieldShuffled.refl f) (Shuffled.refl fs)

end

/-- Every permutation of an array is a shuffle of it. -/
theorem Shuffled.of_perm {fs fs' : List LuaMsgFieldDescr} (h : fs.Perm fs') : Shuffled fs fs' := by
  induction h with
  | nil => exact .nil
  | cons f _ ih => exact .cons (FieldShuffled.refl f) ih
  | swap f g fs => exact .swap g f fs
  | trans _ _ ih ih' => exact .trans ih ih'

theorem FieldShuffled.fieldName_eq {f f' : LuaMsgFieldDescr} (h : FieldShuffled f f') :
    f.fieldName = f'.fieldName := by
  cases h
  rfl

theorem FieldShuffled.span_eq {f f' : LuaMsgFieldDescr} (h : FieldShuffled f f') :
    f.span = f'.span := by
  cases h
  rfl

/-- Where a field is and what it is called. -/
def LuaMsgFieldDescr.label (f : LuaMsgFieldDescr) : Span × Bytes := (f.span, f.fieldName)

theorem Shuffled.labels {fs fs' : List LuaMsgFieldDescr} (h : Shuffled fs fs') :
    (fs.map (·.label)).Perm (fs'.map (·.label)) :=
  match h with
  | .nil => .refl _
  | .cons hf hfs => by
      have ih := Shuffled.labels hfs
      rw [List.map_cons, List.map_cons, LuaMsgFieldDescr.label, hf.span_eq, hf.fieldName_eq]
      exact ih.cons _
  | .swap _ _ _ => .swap _ _ _
  | .trans hfg hgh => (Shuffled.labels hfg).trans (Shuffled.labels hgh)

mutual

theorem FieldShuffled.leaves_perm {f f' : LuaMsgFieldDescr} (h : FieldShuffled f f') (base : Nat) :
    (fieldLeaves f base).Perm (fieldLeaves f' base) :=
  match h with
  | .mk name type offset size hsub => by
      have ih := Shuffled.leaves_perm hsub (base + offset.toNat)
      cases type with
      | object => exact ih.map _
      | _ => exact .refl _

/-- A shuffled descriptor has the same leaves. -/
theorem Shuffled.leaves_perm {fs fs' : List LuaMsgFieldDescr} (h : Shuffled fs fs') (base : Nat) :
    (leaves fs base).Perm (leaves fs' base) :=
  match h with
  | .nil => .refl _
  | .cons hf hfs => (FieldShuffled.leaves_perm hf base).append (Shuffled.leaves_perm hfs base)
  | .swap f g fs => by
      rw [leaves, leaves, leaves, leaves, ← List.append_assoc, ← List.append_assoc]
      exact List.perm_append_comm.append_right _
  | .trans hfg hgh => (Shuffled.leaves_perm hfg base).trans (Shuffled.leaves_perm hgh base)

end

section Describes

variable {ok : LuaMsgFieldType → UInt8 → Prop}

theorem describes_swap {f g : LuaMsgFieldDescr} {fs : List LuaMsgFieldDescr} {n : Nat}
    (h : Describes ok (f :: g :: fs) n) : Describes ok (g :: f :: fs) n := by
  obtain ⟨hf, hotherf, hg, hotherg, hrest⟩ := h
  obtain ⟨hfg, hfrest⟩ := List.forall_mem_cons.mp hotherf
  refine ⟨hg, List.forall_mem_cons.mpr ⟨⟨?_, Ne.symm hfg.2⟩, hotherg⟩, hf, hfrest, hrest⟩
  have hdisjoint := hfg.1
  simp only [Span.Disjoint] at hdisjoint ⊢
  omega

mutual

theorem FieldShuffled.describes {f f' : LuaMsgFieldDescr} (h : FieldShuffled f f') {n : Nat}
    (hf : FieldDescribes ok f n) : FieldDescribes ok f' n :=
  match h with
  | .mk name type offset size hsub => by
      have ih {k : Nat} := Shuffled.describes hsub (n := k)
      refine ⟨hf.1, ?_⟩
      cases type with
      | object => exact ih hf.2
      | _ => exact hf.2

/-- A shuffled descriptor describes the same region. -/
theorem Shuffled.describes {fs fs' : List LuaMsgFieldDescr} (h : Shuffled fs fs') {n : Nat}
    (hfs : Describes ok fs n) : Describes ok fs' n :=
  match h with
  | .nil => trivial
  | @Shuffled.cons _ _ _ fs' hf hrest => by
      have ih := Shuffled.describes hrest hfs.2.2
      refine ⟨FieldShuffled.describes hf hfs.1, fun g' hg' => ?_, ih⟩
      have hlabel : g'.label ∈ fs'.map (·.label) := List.mem_map_of_mem hg'
      obtain ⟨g, hg, heq⟩ := List.mem_map.mp (hrest.labels.mem_iff.mpr hlabel)
      obtain ⟨hspan, hname⟩ := Prod.mk.inj heq
      rw [← hf.span_eq, ← hf.fieldName_eq, ← hspan, ← hname]
      exact hfs.2.1 g hg
  | .swap _ _ _ => describes_swap hfs
  | .trans hfg hgh => Shuffled.describes hgh (Shuffled.describes hfg hfs)

end

end Describes

end LuaZephyr
