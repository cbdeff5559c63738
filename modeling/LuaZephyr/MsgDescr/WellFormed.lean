import LuaZephyr.MsgDescr.Layout

/-!
# Well-formed descriptors

A descriptor array describes a region of a message when its fields have sizes the
codec knows, lie inside the region, share no byte and have different names, and
when the same holds of every nested array in the range of its OBJECT field. The
leaves of the tree are then pairwise apart ranges of the message.

The condition is decidable, and a descriptor that meets it needs no further hypothesis in the
modules above. Types other than those of the codec, and arrays of structs, do not occur. Bytes
that no field covers are padding and may hold anything.
-/

namespace LuaZephyr

open Words Patch

/-- The bytes `[offset, offset + size)` of the region the field is described in. -/
def LuaMsgFieldDescr.span (f : LuaMsgFieldDescr) : Span := ⟨f.offset.toNat, f.size.toNat⟩

section Describes

variable (ok : LuaMsgFieldType → UInt8 → Prop)

mutual

def FieldDescribes : LuaMsgFieldDescr → Nat → Prop
  | ⟨_, type, offset, size, subFields⟩, n =>
    offset.toNat + size.toNat ≤ n ∧
      match type with
      | .object => Describes subFields size.toNat
      | type => ok type size

/-- The array describes a region of `n` bytes, with leaves of the types and sizes
that `ok` admits. -/
def Describes : List LuaMsgFieldDescr → Nat → Prop
  | [], _ => True
  | f :: fs, n =>
      FieldDescribes f n ∧
        (∀ g ∈ fs, f.span.Disjoint g.span ∧ f.fieldName ≠ g.fieldName) ∧ Describes fs n

end

variable [∀ type size, Decidable (ok type size)]

mutual

def decideFieldDescribes : (f : LuaMsgFieldDescr) → (n : Nat) → Decidable (FieldDescribes ok f n)
  | ⟨_, type, offset, size, subFields⟩, n =>
      have : Decidable (match type with
          | .object => Describes ok subFields size.toNat
          | type => ok type size) :=
        match type with
        | .object => decideDescribes subFields size.toNat
        | .int => inferInstanceAs (Decidable (ok .int size))
        | .uint => inferInstanceAs (Decidable (ok .uint size))
        | .number => inferInstanceAs (Decidable (ok .number size))
        | .string => inferInstanceAs (Decidable (ok .string size))
        | .stringBuf => inferInstanceAs (Decidable (ok .stringBuf size))
        | .bool => inferInstanceAs (Decidable (ok .bool size))
      inferInstanceAs (Decidable (offset.toNat + size.toNat ≤ n ∧ _))

def decideDescribes : (fs : List LuaMsgFieldDescr) → (n : Nat) → Decidable (Describes ok fs n)
  | [], _ => inferInstanceAs (Decidable True)
  | f :: fs, n =>
      have := decideFieldDescribes f n
      have := decideDescribes fs n
      inferInstanceAs (Decidable (FieldDescribes ok f n ∧
        (∀ g ∈ fs, f.span.Disjoint g.span ∧ f.fieldName ≠ g.fieldName) ∧ Describes ok fs n))

end

instance (fs : List LuaMsgFieldDescr) (n : Nat) : Decidable (Describes ok fs n) :=
  decideDescribes ok fs n

end Describes

/-- The leaves that carry their whole value in the message. -/
def PlainLeaf (type : LuaMsgFieldType) (size : UInt8) : Prop :=
  match type with
  | .int | .uint => size.toNat ∈ [1, 2, 4, 8]
  | .bool => size = 1
  | .stringBuf => 1 ≤ size.toNat
  | .number | .string | .object => False

instance : (type : LuaMsgFieldType) → (size : UInt8) → Decidable (PlainLeaf type size)
  | .int, size => inferInstanceAs (Decidable (size.toNat ∈ [1, 2, 4, 8]))
  | .uint, size => inferInstanceAs (Decidable (size.toNat ∈ [1, 2, 4, 8]))
  | .bool, size => inferInstanceAs (Decidable (size = 1))
  | .stringBuf, size => inferInstanceAs (Decidable (1 ≤ size.toNat))
  | .number, _ => inferInstanceAs (Decidable False)
  | .string, _ => inferInstanceAs (Decidable False)
  | .object, _ => inferInstanceAs (Decidable False)

/-- All leaves of the sizes the codec stores, floats and pointers of `p` bytes
included. -/
def SizedLeaf (p : Nat) (type : LuaMsgFieldType) (size : UInt8) : Prop :=
  match type with
  | .number => size = 4 ∨ size = 8
  | .string => 1 ≤ size.toNat ∧ size.toNat = p
  | type => PlainLeaf type size

instance (p : Nat) : (type : LuaMsgFieldType) → (size : UInt8) → Decidable (SizedLeaf p type size)
  | .number, size => inferInstanceAs (Decidable (size = 4 ∨ size = 8))
  | .string, size => inferInstanceAs (Decidable (1 ≤ size.toNat ∧ size.toNat = p))
  | .int, size => inferInstanceAs (Decidable (PlainLeaf .int size))
  | .uint, size => inferInstanceAs (Decidable (PlainLeaf .uint size))
  | .bool, size => inferInstanceAs (Decidable (PlainLeaf .bool size))
  | .stringBuf, size => inferInstanceAs (Decidable (PlainLeaf .stringBuf size))
  | .object, size => inferInstanceAs (Decidable (PlainLeaf .object size))

abbrev FieldWellFormed (f : LuaMsgFieldDescr) (n : Nat) : Prop := FieldDescribes PlainLeaf f n

/-- The array describes a region of `n` bytes with INT, UINT, BOOL, STRING_BUF and
OBJECT fields. -/
abbrev WellFormed (fs : List LuaMsgFieldDescr) (n : Nat) : Prop := Describes PlainLeaf fs n

/-- `struct msg_acc_data` of the producer and consumer sample. -/
def msgAccDataFields : List LuaMsgFieldDescr :=
  [⟨ascii "x", .int, 0, 4, []⟩, ⟨ascii "y", .int, 4, 4, []⟩, ⟨ascii "z", .int, 8, 4, []⟩]

/-- `struct msg_version` of the same sample. -/
def msgVersionFields : List LuaMsgFieldDescr :=
  [⟨ascii "major", .uint, 0, 4, []⟩, ⟨ascii "minor", .uint, 4, 4, []⟩,
    ⟨ascii "patch", .uint, 8, 4, []⟩, ⟨ascii "hardware_id", .stringBuf, 12, 16, []⟩]

/-- `struct msg_sensor_config`; its presence flag `has_offset` is at offset 4. -/
def msgSensorConfigFields : List LuaMsgFieldDescr :=
  [⟨ascii "sensor_id", .int, 0, 4, []⟩, ⟨ascii "offset", .object, 8, 12, msgAccDataFields⟩]

example : WellFormed msgVersionFields 28 ∧ WellFormed msgSensorConfigFields 20 := by decide

theorem PlainLeaf.sized {type : LuaMsgFieldType} {size : UInt8} (h : PlainLeaf type size)
    (p : Nat) : SizedLeaf p type size := by
  cases type with
  | number => exact h.elim
  | string => exact h.elim
  | _ => exact h

theorem SizedLeaf.size_pos {p : Nat} {type : LuaMsgFieldType} {size : UInt8}
    (h : SizedLeaf p type size) : 0 < size.toNat := by
  have hword (h : size.toNat ∈ [1, 2, 4, 8]) : 0 < size.toNat := by
    simp only [List.mem_cons, List.not_mem_nil, or_false] at h
    omega
  cases type with
  | int => exact hword h
  | uint => exact hword h
  | number =>
      obtain rfl | rfl : size = 4 ∨ size = 8 := h
      · decide
      · decide
  | string => exact h.1
  | stringBuf => exact h
  | bool =>
      obtain rfl : size = 1 := h
      decide
  | object => exact h.elim

theorem SizedLeaf.size_ne {p : Nat} {type : LuaMsgFieldType} {size : UInt8}
    (h : SizedLeaf p type size) : size ≠ 0 := by
  rintro rfl
  exact absurd h.size_pos (by decide)

section Tree

variable {ok ok' : LuaMsgFieldType → UInt8 → Prop}

theorem describes_iff {fs : List LuaMsgFieldDescr} {n : Nat} :
    Describes ok fs n ↔ (∀ f ∈ fs, FieldDescribes ok f n) ∧
      fs.Pairwise (fun f g => f.span.Disjoint g.span) ∧ (fs.map (·.fieldName)).Nodup := by
  induction fs with
  | nil => simp [Describes]
  | cons f fs ih =>
      simp only [Describes, ih, List.forall_mem_cons, List.pairwise_cons, List.map_cons,
        List.nodup_cons, List.mem_map, not_exists, not_and]
      constructor
      · rintro ⟨hf, hother, hall, hdisj, hnames⟩
        exact ⟨⟨hf, hall⟩, ⟨fun g hg => (hother g hg).1, hdisj⟩,
          fun g hg heq => (hother g hg).2 heq.symm, hnames⟩
      · rintro ⟨⟨hf, hall⟩, ⟨hdisj, hdisj'⟩, hname, hnames⟩
        exact ⟨hf, fun g hg => ⟨hdisj g hg, fun heq => hname g hg heq.symm⟩, hall, hdisj', hnames⟩

theorem Describes.names {fs : List LuaMsgFieldDescr} {n : Nat} (h : Describes ok fs n) :
    (fs.map (·.fieldName)).Nodup :=
  (describes_iff.mp h).2.2

mutual

theorem FieldDescribes.mono (himp : ∀ type size, ok type size → ok' type size)
    {f : LuaMsgFieldDescr} {n : Nat} (h : FieldDescribes ok f n) : FieldDescribes ok' f n := by
  obtain ⟨name, type, offset, size, subFields⟩ := f
  refine ⟨h.1, ?_⟩
  cases type with
  | object => exact Describes.mono himp h.2
  | _ => exact himp _ _ h.2

theorem Describes.mono (himp : ∀ type size, ok type size → ok' type size)
    {fs : List LuaMsgFieldDescr} {n : Nat} (h : Describes ok fs n) : Describes ok' fs n := by
  cases fs with
  | nil => trivial
  | cons f fs => exact ⟨FieldDescribes.mono himp h.1, h.2.1, Describes.mono himp h.2.2⟩

end

/-- A well-formed descriptor, seen as one that might also have floats and pointers. -/
theorem WellFormed.sized {fs : List LuaMsgFieldDescr} {n : Nat} (h : WellFormed fs n) (p : Nat) :
    Describes (SizedLeaf p) fs n :=
  h.mono (fun _ _ hleaf => hleaf.sized p)

/-- A field that holds a value of its own: its keys from the outermost table
inwards and its range in the message. -/
structure Leaf where
  path : List Bytes
  type : LuaMsgFieldType
  start : Nat
  size : UInt8
  deriving DecidableEq, Repr

namespace Leaf

def span (leaf : Leaf) : Span := ⟨leaf.start, leaf.size.toNat⟩

/-- The leaf seen from the array that holds its OBJECT field. -/
def under (key : Bytes) (leaf : Leaf) : Leaf := { leaf with path := key :: leaf.path }

@[simp] theorem span_under (key : Bytes) (leaf : Leaf) : (leaf.under key).span = leaf.span := rfl

end Leaf

mutual

def fieldLeaves : LuaMsgFieldDescr → Nat → List Leaf
  | ⟨name, type, offset, size, subFields⟩, base =>
    match type with
    | .object => (leaves subFields (base + offset.toNat)).map (·.under name)
    | type => [⟨[name], type, base + offset.toNat, size⟩]

/-- All leaves of the tree, in the order the codec visits them. -/
def leaves : List LuaMsgFieldDescr → Nat → List Leaf
  | [], _ => []
  | f :: fs, base => fieldLeaves f base ++ leaves fs base

end

theorem mem_leaves {fs : List LuaMsgFieldDescr} {base : Nat} {leaf : Leaf} :
    leaf ∈ leaves fs base ↔ ∃ f ∈ fs, leaf ∈ fieldLeaves f base := by
  induction fs with
  | nil => simp [leaves]
  | cons f fs ih => simp [leaves, ih]

mutual

theorem fieldLeaves_ok {f : LuaMsgFieldDescr} {n : Nat} (h : FieldDescribes ok f n)
    (base : Nat) : ∀ leaf ∈ fieldLeaves f base, ok leaf.type leaf.size := by
  obtain ⟨name, type, offset, size, subFields⟩ := f
  intro leaf hleaf
  cases type with
  | object =>
      obtain ⟨inner, hinner, rfl⟩ := List.mem_map.mp hleaf
      exact leaves_ok h.2 (base + offset.toNat) inner hinner
  | _ =>
      obtain rfl := List.mem_singleton.mp hleaf
      exact h.2

theorem leaves_ok {fs : List LuaMsgFieldDescr} {n : Nat} (h : Describes ok fs n)
    (base : Nat) : ∀ leaf ∈ leaves fs base, ok leaf.type leaf.size := by
  cases fs with
  | nil =>
      intro leaf hleaf
      simp [leaves] at hleaf
  | cons f fs =>
      intro leaf hleaf
      obtain hhere | hrest := List.mem_append.mp hleaf
      · exact fieldLeaves_ok h.1 base leaf hhere
      · exact leaves_ok h.2.2 base leaf hrest

end

end Tree

/-- The range of a field inside a region that starts at `base`. -/
def LuaMsgFieldDescr.spanAt (f : LuaMsgFieldDescr) (base : Nat) : Span :=
  ⟨base + f.offset.toNat, f.size.toNat⟩

theorem spanAt_disjoint {f g : LuaMsgFieldDescr} (h : f.span.Disjoint g.span) (base : Nat) :
    (f.spanAt base).Disjoint (g.spanAt base) := by
  simp only [Span.Disjoint, Span.stop, LuaMsgFieldDescr.span, LuaMsgFieldDescr.spanAt] at h ⊢
  omega

section Sized

variable {p : Nat}

mutual

/-- The leaves of a field lie in the field's range. -/
theorem fieldLeaves_within {f : LuaMsgFieldDescr} {n : Nat}
    (h : FieldDescribes (SizedLeaf p) f n) (base : Nat) :
    ∀ leaf ∈ fieldLeaves f base, leaf.span.Within (f.spanAt base) := by
  obtain ⟨name, type, offset, size, subFields⟩ := f
  intro leaf hleaf
  cases type with
  | object =>
      obtain ⟨inner, hinner, rfl⟩ := List.mem_map.mp hleaf
      exact leaves_within h.2 (base + offset.toNat) inner hinner
  | _ =>
      obtain rfl := List.mem_singleton.mp hleaf
      exact ⟨SizedLeaf.size_pos h.2, Nat.le_refl _, Nat.le_refl _⟩

theorem leaves_within {fs : List LuaMsgFieldDescr} {n : Nat}
    (h : Describes (SizedLeaf p) fs n) (base : Nat) :
    ∀ leaf ∈ leaves fs base, leaf.span.Within ⟨base, n⟩ := by
  cases fs with
  | nil =>
      intro leaf hleaf
      simp [leaves] at hleaf
  | cons f fs =>
      obtain ⟨hf, -, hfs⟩ := h
      intro leaf hleaf
      obtain hhere | hrest := List.mem_append.mp hleaf
      · have hin := fieldLeaves_within hf base leaf hhere
        obtain ⟨name, type, offset, size, subFields⟩ := f
        have hrange := hf.1
        have hlo := hin.start_le
        have hhi := hin.stop_le
        simp only [LuaMsgFieldDescr.spanAt, Span.stop] at hlo hhi
        exact ⟨hin.pos, by simp only; omega, by simp only [Span.stop]; omega⟩
      · exact leaves_within hfs base leaf hrest

end

mutual

theorem fieldLeaves_apart {f : LuaMsgFieldDescr} {n : Nat}
    (h : FieldDescribes (SizedLeaf p) f n) (base : Nat) :
    (fieldLeaves f base).Pairwise (fun a b => a.span.Apart b.span) := by
  obtain ⟨name, type, offset, size, subFields⟩ := f
  cases type with
  | object =>
      rw [fieldLeaves, List.pairwise_map]
      exact leaves_apart h.2 (base + offset.toNat)
  | _ => exact List.pairwise_singleton _ _

/-- No two leaves share a byte. -/
theorem leaves_apart {fs : List LuaMsgFieldDescr} {n : Nat}
    (h : Describes (SizedLeaf p) fs n) (base : Nat) :
    (leaves fs base).Pairwise (fun a b => a.span.Apart b.span) := by
  cases fs with
  | nil => exact List.Pairwise.nil
  | cons f fs =>
      obtain ⟨hf, hother, hfs⟩ := h
      rw [leaves, List.pairwise_append]
      refine ⟨fieldLeaves_apart hf base, leaves_apart hfs base, fun a ha b hb => ?_⟩
      obtain ⟨g, hg, hb⟩ := mem_leaves.mp hb
      exact (spanAt_disjoint (hother g hg).1 base).apart (fieldLeaves_within hf base a ha)
        (fieldLeaves_within ((describes_iff.mp hfs).1 g hg) base b hb)

end

end Sized

variable (tgt : Target)

/-- A store to an admitted leaf covers exactly the leaf. -/
theorem storeWidth_eq {type : LuaMsgFieldType} {size : UInt8}
    (h : SizedLeaf tgt.pointerSize type size) : storeWidth tgt type size = size.toNat := by
  cases type with
  | int => exact if_pos h
  | uint => exact if_pos h
  | number =>
      obtain rfl | rfl : size = 4 ∨ size = 8 := h
      · rfl
      · rfl
  | string => exact h.2.symm
  | stringBuf => rfl
  | bool =>
      obtain rfl : size = 1 := h
      rfl
  | object => exact h.elim

mutual

theorem FieldDescribes.fits {f : LuaMsgFieldDescr} {n base len : Nat}
    (h : FieldDescribes (SizedLeaf tgt.pointerSize) f n) (hlen : base + n ≤ len) :
    FieldFits tgt f base len := by
  obtain ⟨name, type, offset, size, subFields⟩ := f
  obtain ⟨hrange, htype⟩ := h
  cases type with
  | object => exact Describes.fits htype (by omega)
  | stringBuf => exact ⟨SizedLeaf.size_ne htype, by omega⟩
  | _ =>
      have hwidth := storeWidth_eq tgt htype
      change base + offset.toNat + storeWidth tgt _ size ≤ len
      omega

/-- The decoder stays inside the region. -/
theorem Describes.fits {fs : List LuaMsgFieldDescr} {n base len : Nat}
    (h : Describes (SizedLeaf tgt.pointerSize) fs n) (hlen : base + n ≤ len) :
    Fits tgt fs base len := by
  cases fs with
  | nil => trivial
  | cons f fs => exact ⟨FieldDescribes.fits h.1 hlen, Describes.fits h.2.2 hlen⟩

end

end LuaZephyr
