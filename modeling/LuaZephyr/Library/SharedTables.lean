import Mathlib.Logic.Function.Basic

/-!
# Tables that are shared

A heap of tables that are reached by reference, with fields by key. Code that builds tables
writes to those it makes and to some fields of older ones; `Heap.Changes` says which, so that
all else can be carried over such code.

References are numbers, and a new one is larger than all before. Tables are never collected, and
their keys have no order. Nothing here looks at a metatable: a client whose code does has to say
what it finds there.
-/

namespace SharedTables

structure Heap (K V : Type) where
  fields : Nat → K → Option V
  /-- The next table that is made; the references below it are in use. -/
  next : Nat

namespace Heap

variable {K V : Type} {h h' h'' : Heap K V} {r r' : Nat} {k k' : K}

/-- A new table is empty. -/
def alloc (h : Heap K V) : Heap K V :=
  ⟨Function.update h.fields h.next fun _ => none, h.next + 1⟩

@[simp] theorem alloc_next : h.alloc.next = h.next + 1 := rfl

@[simp] theorem alloc_fields_next : h.alloc.fields h.next = fun _ => none := by
  simp [alloc]

theorem alloc_fields_ref (hr : r ≠ h.next) : h.alloc.fields r = h.fields r := by
  simp [alloc, hr]

/-- Of the tables there were, only the fields in `W` have changed. -/
structure Changes (W : Nat → K → Prop) (h h' : Heap K V) : Prop where
  next : h.next ≤ h'.next
  fields : ∀ r k, r < h.next → ¬ W r k → h'.fields r k = h.fields r k

namespace Changes

variable {W W' : Nat → K → Prop}

theorem refl : Changes W h h := ⟨Nat.le_refl _, fun _ _ _ _ => rfl⟩

theorem mono (hchanges : Changes W h h') (hW : ∀ r k, r < h.next → W r k → W' r k) :
    Changes W' h h' where
  next := hchanges.next
  fields r k hr hout := hchanges.fields r k hr fun hin => hout (hW r k hr hin)

/-- What the second part changes in the tables there were at first counts. -/
theorem trans (first : Changes W h h') (second : Changes W' h' h'')
    (hW : ∀ r k, r < h.next → W' r k → W r k) : Changes W h h'' where
  next := Nat.le_trans first.next second.next
  fields r k hr hout := by
    rw [second.fields r k (Nat.lt_of_lt_of_le hr first.next) fun hin => hout (hW r k hr hin),
      first.fields r k hr hout]

theorem alloc (hchanges : Changes W h h') : Changes W h h'.alloc where
  next := Nat.le_succ_of_le hchanges.next
  fields r k hr hW := by
    have hne : r ≠ h'.next := Nat.ne_of_lt (Nat.lt_of_lt_of_le hr hchanges.next)
    rw [alloc_fields_ref hne, hchanges.fields r k hr hW]

/-- A table of which no field may change. -/
theorem table (hchanges : Changes W h h') (hr : r < h.next) (hW : ∀ k, ¬ W r k) :
    h'.fields r = h.fields r := funext fun k => hchanges.fields r k hr (hW k)

end Changes

variable [DecidableEq K]

def set (h : Heap K V) (r : Nat) (k : K) (v : Option V) : Heap K V :=
  { h with fields := Function.update h.fields r (Function.update (h.fields r) k v) }

/-- Assign the fields in order. -/
def setAll (h : Heap K V) (r : Nat) : List (K × V) → Heap K V
  | [] => h
  | f :: fs => (h.set r f.1 (some f.2)).setAll r fs

@[simp] theorem set_next (v : Option V) : (h.set r k v).next = h.next := rfl

@[simp] theorem set_fields_self (v : Option V) : (h.set r k v).fields r k = v := by
  simp [set]

theorem set_fields_key (hk : k' ≠ k) (v : Option V) :
    (h.set r k v).fields r' k' = h.fields r' k' := by
  by_cases hr : r' = r
  · subst hr
    simp [set, hk]
  · simp [set, hr]

theorem set_fields_ref (hr : r' ≠ r) (v : Option V) : (h.set r k v).fields r' = h.fields r' := by
  simp [set, hr]

@[simp] theorem setAll_next (fs : List (K × V)) : (h.setAll r fs).next = h.next := by
  induction fs generalizing h with
  | nil => rfl
  | cons f fs ih => rw [setAll, ih, set_next]

theorem setAll_fields_ref (hr : r' ≠ r) (fs : List (K × V)) :
    (h.setAll r fs).fields r' = h.fields r' := by
  induction fs generalizing h with
  | nil => rfl
  | cons f fs ih => rw [setAll, ih, set_fields_ref hr]

theorem setAll_fields_not_mem {fs : List (K × V)} (hk : k ∉ fs.map Prod.fst) :
    (h.setAll r fs).fields r k = h.fields r k := by
  induction fs generalizing h with
  | nil => rfl
  | cons f fs ih =>
      rw [List.map_cons, List.mem_cons, not_or] at hk
      rw [setAll, ih hk.2, set_fields_key hk.1]

theorem setAll_fields_mem {fs : List (K × V)} (hkeys : (fs.map Prod.fst).Nodup) {v : V}
    (hmem : (k, v) ∈ fs) : (h.setAll r fs).fields r k = some v := by
  induction fs generalizing h with
  | nil => contradiction
  | cons f fs ih =>
      obtain ⟨hnew, hkeys⟩ := List.nodup_cons.mp hkeys
      rw [setAll]
      obtain rfl | hmem := List.mem_cons.mp hmem
      · rw [setAll_fields_not_mem hnew, set_fields_self]
      · exact ih hkeys hmem

/-- A new table with these fields has no others. -/
theorem setAll_alloc_fields [BEq K] [LawfulBEq K] {fs : List (K × V)}
    (hkeys : (fs.map Prod.fst).Nodup) (k : K) :
    (h.alloc.setAll h.next fs).fields h.next k = fs.lookup k := by
  cases hlookup : fs.lookup k with
  | some v =>
      obtain ⟨l₁, l₂, rfl, -⟩ := List.lookup_eq_some_iff.mp hlookup
      exact setAll_fields_mem hkeys (by simp)
  | none =>
      have hk : k ∉ fs.map Prod.fst := by
        intro hmem
        obtain ⟨f, hf, rfl⟩ := List.mem_map.mp hmem
        simpa using List.lookup_eq_none_iff.mp hlookup f hf
      rw [setAll_fields_not_mem hk, alloc_fields_next]

theorem Changes.set {W : Nat → K → Prop} (hchanges : Changes W h h') (hW : h.next ≤ r ∨ W r k)
    (v : Option V) : Changes W h (h'.set r k v) where
  next := hchanges.next
  fields r' k' hr' hout := by
    rw [← hchanges.fields r' k' hr' hout]
    by_cases hr : r' = r
    · subst hr
      obtain hnew | hin := hW
      · omega
      · have hk : k' ≠ k := by
          rintro rfl
          exact hout hin
        exact set_fields_key hk v
    · rw [set_fields_ref hr]

end Heap

end SharedTables
