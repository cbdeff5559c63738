import LuaZephyr.Library.CStruct
import LuaZephyr.MsgDescr.Macros

/-!
# Descriptors of C structs

An array of `LUA_MSG_FIELD` and `LUA_MSG_FIELD_OBJECT` entries names members of a struct,
and the compiler fills in their offsets and sizes. The array describes these members, and
no other bytes, exactly when the offsets and sizes fit in the members of the descriptor.

The members covered are integers, floating point numbers, `bool`, `char` arrays and nested
structs, laid out as `Library.CStruct` says. Pointers, as a STRING field needs them, are left
out, and so are unions, bit fields, packed structs and arrays of anything but `char`.
-/

namespace LuaZephyr

open CStruct Patch

/-- The type a descriptor gives a member. -/
def fieldType : Scalar → LuaMsgFieldType
  | .int true _ => .int
  | .int false _ => .uint
  | .float => .number
  | .double => .number
  | .bool => .bool
  | .chars _ => .stringBuf

section Descriptor

variable (abi : Abi)

mutual

/-- The entry of a member at an offset. -/
def structField (name : Bytes) : CType → Nat → LuaMsgFieldDescr
  | .scalar s, offset => luaMsgField name offset s.sizeof (fieldType s)
  | .struct members, offset =>
      luaMsgFieldObject name offset ((CType.struct members).sizeof abi) (structFields members 0)

/-- The entries of the members that come after `used` bytes of the struct. The array has no
entry for a member without a name. -/
def structFields : Members → Nat → List LuaMsgFieldDescr
  | [], _ => []
  | (none, type) :: ms, used => structFields ms (type.offsetof abi used + type.sizeof abi)
  | (some name, type) :: ms, used =>
      structField name type (type.offsetof abi used) ::
        structFields ms (type.offsetof abi used + type.sizeof abi)

end

/-- `LUA_ZBUS_MSG_DESCR(_struct, _fields)`. -/
def luaZbusMsgDescr (members : Members) : LuaMsgDescr :=
  ⟨structFields abi members 0, (CType.struct members).sizeof abi⟩

mutual

/-- The offset and the sizes of scalars fit in the members of the descriptor. -/
def CTypeFits : CType → Nat → Prop
  | .scalar s, offset => offset < 65536 ∧ s.sizeof < 256
  | .struct members, offset => offset < 65536 ∧ MembersFit members 0

def MembersFit : Members → Nat → Prop
  | [], _ => True
  | (none, type) :: ms, used => MembersFit ms (type.offsetof abi used + type.sizeof abi)
  | (some _, type) :: ms, used =>
      CTypeFits type (type.offsetof abi used) ∧
        MembersFit ms (type.offsetof abi used + type.sizeof abi)

end

mutual

/-- Members of one struct have different names. -/
def CTypeNamed : CType → Prop
  | .scalar _ => True
  | .struct members => MembersNamed members

def MembersNamed : Members → Prop
  | [] => True
  | (none, _) :: ms => MembersNamed ms
  | (some name, type) :: ms => some name ∉ ms.map Prod.fst ∧ CTypeNamed type ∧ MembersNamed ms

end

@[simp] theorem structField_fieldName (name : Bytes) (type : CType) (offset : Nat) :
    (structField abi name type offset).fieldName = name := by
  cases type with
  | _ => rfl

end Descriptor

/-- A scalar of a message: its keys from the outermost table inwards, and its bytes. -/
structure Place where
  path : List Bytes
  type : LuaMsgFieldType
  start : Nat
  size : Nat

/-- The place seen from the struct around it. -/
def Place.under (key : Bytes) (place : Place) : Place := { place with path := key :: place.path }

def Leaf.place (leaf : Leaf) : Place := ⟨leaf.path, leaf.type, leaf.start, leaf.size.toNat⟩

theorem Place.under_injective (key : Bytes) : Function.Injective (Place.under key) := by
  intro a b h
  obtain ⟨path, type, start, size⟩ := a
  obtain ⟨path', type', start', size'⟩ := b
  simpa [Place.under] using h

section Places

variable (abi : Abi)

mutual

def memberPlaces (name : Bytes) : CType → Nat → List Place
  | .scalar s, offset => [⟨[name], fieldType s, offset, s.sizeof⟩]
  | .struct members, offset => (structPlaces members offset 0).map (Place.under name)

/-- The scalars of the struct at `base` behind its first `used` bytes, as the compiler
places them. -/
def structPlaces : Members → Nat → Nat → List Place
  | [], _, _ => []
  | (none, type) :: ms, base, used =>
      structPlaces ms base (type.offsetof abi used + type.sizeof abi)
  | (some name, type) :: ms, base, used =>
      memberPlaces name type (base + type.offsetof abi used) ++
        structPlaces ms base (type.offsetof abi used + type.sizeof abi)

end

/-- Some member has an entry in the array. -/
def HasNamed (ms : Members) : Prop := ∃ m ∈ ms, m.1.isSome

mutual

/-- No nested array is empty. -/
def CTypeFilled : CType → Prop
  | .scalar _ => True
  | .struct members => HasNamed members ∧ MembersFilled members

def MembersFilled : Members → Prop
  | [] => True
  | (none, _) :: ms => MembersFilled ms
  | (some _, type) :: ms => CTypeFilled type ∧ MembersFilled ms

end

mutual

/-- Nested structs are small enough for the size in their entry, and texts have room. -/
def CTypeSized : CType → Prop
  | .scalar s => 0 < s.sizeof
  | .struct members => (CType.struct members).sizeof abi < 256 ∧ MembersSized members

def MembersSized : Members → Prop
  | [] => True
  | (none, _) :: ms => MembersSized ms
  | (some _, type) :: ms => CTypeSized type ∧ MembersSized ms

end

variable {abi}

mutual

theorem length_fieldLeaves_structField (name : Bytes) (type : CType) (offset base base' : Nat) :
    (fieldLeaves (structField abi name type offset) base').length =
      (memberPlaces abi name type base).length :=
  match type with
  | .scalar (.int true _) | .scalar (.int false _) => rfl
  | .scalar .float | .scalar .double | .scalar .bool | .scalar (.chars _) => rfl
  | .struct members => by
      have hlen := length_leaves_structFields members 0 base
        (base' + (UInt16.ofNat offset).toNat)
      simpa [structField, luaMsgFieldObject, fieldLeaves, memberPlaces] using hlen

theorem length_leaves_structFields (ms : Members) (used base base' : Nat) :
    (leaves (structFields abi ms used) base').length = (structPlaces abi ms base used).length :=
  match ms with
  | [] => rfl
  | (none, type) :: ms => length_leaves_structFields ms _ base base'
  | (some name, type) :: ms => by
      rw [structFields, leaves, structPlaces, List.length_append, List.length_append,
        length_fieldLeaves_structField name type _ _ base',
        length_leaves_structFields ms _ base base']

end

/-- A scalar's entry is right about where the scalar is exactly when the offset of the struct
around it, its own offset and its size are. -/
theorem place_scalar_iff {s : Scalar} {name : Bytes} {offset base base' : Nat}
    (hbase : base' ≤ base) :
    (fieldLeaves (structField abi name (.scalar s) offset) base').map Leaf.place =
        memberPlaces abi name (.scalar s) (base + offset) ↔
      base' = base ∧ CTypeFits abi (.scalar s) offset := by
  have hoff : (UInt16.ofNat offset).toNat = offset % 65536 := UInt16.toNat_ofNat'
  have hsize : (UInt8.ofNat s.sizeof).toNat = s.sizeof % 256 := UInt8.toNat_ofNat'
  have hleaf : fieldLeaves (structField abi name (.scalar s) offset) base' =
      [⟨[name], fieldType s, base' + (UInt16.ofNat offset).toNat, UInt8.ofNat s.sizeof⟩] := by
    cases s with
    | int signed width =>
        cases signed with
        | _ => rfl
    | _ => rfl
  rw [hleaf, memberPlaces, CTypeFits]
  simp only [List.map_cons, List.map_nil, List.cons.injEq, and_true, Leaf.place, Place.mk.injEq,
    true_and, hoff, hsize]
  omega

mutual

theorem place_member_iff (type : CType) (hfilled : CTypeFilled type) {name : Bytes}
    {offset base base' : Nat} (hbase : base' ≤ base) :
    (fieldLeaves (structField abi name type offset) base').map Leaf.place =
        memberPlaces abi name type (base + offset) ↔
      base' = base ∧ CTypeFits abi type offset :=
  match type with
  | .scalar _ => place_scalar_iff hbase
  | .struct members => by
      obtain ⟨hnamed, hinner⟩ := hfilled
      have hoff : (UInt16.ofNat offset).toNat = offset % 65536 := UInt16.toNat_ofNat'
      have hmap : (fieldLeaves (structField abi name (.struct members) offset) base').map
          Leaf.place = ((leaves (structFields abi members 0)
            (base' + (UInt16.ofNat offset).toNat)).map Leaf.place).map (Place.under name) := by
        rw [structField, luaMsgFieldObject, fieldLeaves, List.map_map, List.map_map]
        rfl
      rw [hmap, memberPlaces, (List.map_injective_iff.mpr (Place.under_injective name)).eq_iff,
        places_iff members hinner (by omega), CTypeFits, hoff]
      constructor
      · rintro ⟨hfits, heq⟩
        have heq := heq hnamed
        exact ⟨by omega, by omega, hfits⟩
      · rintro ⟨rfl, hlt, hfits⟩
        exact ⟨hfits, fun _ => by omega⟩

theorem places_iff (ms : Members) (hfilled : MembersFilled ms) {used base base' : Nat}
    (hbase : base' ≤ base) :
    (leaves (structFields abi ms used) base').map Leaf.place = structPlaces abi ms base used ↔
      MembersFit abi ms used ∧ (HasNamed ms → base' = base) :=
  match ms with
  | [] => by simp [structFields, leaves, structPlaces, MembersFit, HasNamed]
  | (none, type) :: ms => by
      rw [structFields, structPlaces, MembersFit, places_iff ms hfilled hbase]
      simp [HasNamed]
  | (some name, type) :: ms => by
      obtain ⟨htype, hrest⟩ := hfilled
      have hlen : ((fieldLeaves (structField abi name type (type.offsetof abi used)) base').map
          Leaf.place).length =
            (memberPlaces abi name type (base + type.offsetof abi used)).length :=
        (List.length_map Leaf.place).trans (length_fieldLeaves_structField name type _ _ base')
      have hhere : HasNamed ((some name, type) :: ms) := ⟨_, List.mem_cons_self, rfl⟩
      rw [structFields, leaves, structPlaces, List.map_append, MembersFit]
      constructor
      · intro h
        obtain ⟨hfirst, hothers⟩ := List.append_inj h hlen
        obtain ⟨hbase', hfits⟩ := (place_member_iff type htype hbase).mp hfirst
        exact ⟨⟨hfits, ((places_iff ms hrest hbase).mp hothers).1⟩, fun _ => hbase'⟩
      · rintro ⟨⟨hfits, hothers⟩, hbase'⟩
        rw [(place_member_iff type htype hbase).mpr ⟨hbase' hhere, hfits⟩,
          (places_iff ms hrest hbase).mpr ⟨hothers, fun _ => hbase' hhere⟩]

end

theorem sizedLeaf_fieldType {s : Scalar} (hpos : 0 < s.sizeof) (hlt : s.sizeof < 256) (p : Nat) :
    SizedLeaf p (fieldType s) (UInt8.ofNat s.sizeof) := by
  cases s with
  | int signed width =>
      have hwidth : (UInt8.ofNat width.bytes).toNat ∈ [1, 2, 4, 8] := by
        cases width with
        | _ => decide
      cases signed with
      | _ => exact hwidth
  | float => exact .inl rfl
  | double => exact .inr rfl
  | bool => exact rfl
  | chars size =>
      have hsize : (UInt8.ofNat size).toNat = size := toNat_size hlt
      have hroom : 1 ≤ (UInt8.ofNat size).toNat := by
        rw [hsize]
        exact hpos
      exact hroom

theorem toNat_structField_offset {type : CType} {name : Bytes} {offset : Nat}
    (h : CTypeFits abi type offset) :
    (structField abi name type offset).offset.toNat = offset := by
  cases type with
  | scalar s => exact toNat_offset h.1
  | struct members => exact toNat_offset h.1

theorem toNat_structField_size {type : CType} {name : Bytes} {offset : Nat}
    (h : CTypeFits abi type offset) (hsized : CTypeSized abi type) :
    (structField abi name type offset).size.toNat = type.sizeof abi := by
  cases type with
  | scalar s => exact toNat_size h.2
  | struct members => exact toNat_size hsized.1

/-- The entries come in the order of their offsets. -/
theorem le_offset_of_mem {ms : Members} {used : Nat} (h : MembersFit abi ms used)
    {f : LuaMsgFieldDescr} (hf : f ∈ structFields abi ms used) : used ≤ f.offset.toNat := by
  induction ms generalizing used with
  | nil => exact absurd hf List.not_mem_nil
  | cons m ms ih =>
      obtain ⟨name, type⟩ := m
      have hoff := type.le_offsetof abi used
      cases name with
      | none =>
          have hlater := ih h hf
          omega
      | some name =>
          obtain rfl | hrest := List.mem_cons.mp hf
          · rwa [toNat_structField_offset h.1]
          · have hlater := ih h.2 hrest
            omega

theorem fieldName_of_mem {ms : Members} {used : Nat} {f : LuaMsgFieldDescr}
    (hf : f ∈ structFields abi ms used) : some f.fieldName ∈ ms.map Prod.fst := by
  induction ms generalizing used with
  | nil => exact absurd hf List.not_mem_nil
  | cons m ms ih =>
      obtain ⟨name, type⟩ := m
      cases name with
      | none => exact List.mem_cons_of_mem _ (ih hf)
      | some name =>
          obtain rfl | hrest := List.mem_cons.mp hf
          · rw [structField_fieldName]
            exact List.mem_cons_self
          · exact List.mem_cons_of_mem _ (ih hrest)

mutual

theorem fieldDescribes_struct (type : CType) {name : Bytes} {offset n p : Nat}
    (hfits : CTypeFits abi type offset) (hnamed : CTypeNamed type) (hsized : CTypeSized abi type)
    (hn : offset + type.sizeof abi ≤ n) :
    FieldDescribes (SizedLeaf p) (structField abi name type offset) n :=
  match type with
  | .scalar s => by
      have hleaf := sizedLeaf_fieldType hsized hfits.2 p
      have hrange : (UInt16.ofNat offset).toNat + (UInt8.ofNat s.sizeof).toNat ≤ n := by
        rw [toNat_offset hfits.1, toNat_size hfits.2]
        exact hn
      cases s with
      | int signed width =>
          cases signed with
          | _ => exact ⟨hrange, hleaf⟩
      | _ => exact ⟨hrange, hleaf⟩
  | .struct members => by
      have hsize := toNat_size hsized.1
      have hrange : (UInt16.ofNat offset).toNat +
          (UInt8.ofNat ((CType.struct members).sizeof abi)).toNat ≤ n := by
        rw [toNat_offset hfits.1, hsize]
        exact hn
      have hinner : Describes (SizedLeaf p) (structFields abi members 0)
          (UInt8.ofNat ((CType.struct members).sizeof abi)).toNat :=
        describes_struct members hfits.2 hnamed hsized.2
          (hsize.symm ▸ endof_le_sizeof abi members)
      exact ⟨hrange, hinner⟩

theorem describes_struct (ms : Members) {used n p : Nat} (hfits : MembersFit abi ms used)
    (hnamed : MembersNamed ms) (hsized : MembersSized abi ms) (hn : endof abi ms used ≤ n) :
    Describes (SizedLeaf p) (structFields abi ms used) n :=
  match ms with
  | [] => trivial
  | (none, _) :: ms => describes_struct ms hfits hnamed hsized hn
  | (some name, type) :: ms => by
      have hend := le_endof abi ms (type.offsetof abi used + type.sizeof abi)
      rw [endof_cons] at hn
      refine ⟨fieldDescribes_struct type hfits.1 hnamed.2.1 hsized.1 (by omega),
        fun g hg => ⟨?_, fun heq => ?_⟩, describes_struct ms hfits.2 hnamed.2.2 hsized.2 hn⟩
      · have hlater := le_offset_of_mem hfits.2 hg
        simp only [Span.Disjoint, Span.stop, LuaMsgFieldDescr.span,
          toNat_structField_offset hfits.1, toNat_structField_size hfits.1 hsized.1]
        omega
      · have hmem := fieldName_of_mem hg
        rw [← heq, structField_fieldName] at hmem
        exact hnamed.1 hmem

end

/-- The array describes the scalars of the struct where the compiler puts them exactly when
every offset is below 65536 and every size below 256. With nested structs of less than 256
bytes it is then well formed for `sizeof` the struct. -/
theorem structFields_describe_iff (abi : Abi) (members : Members)
    (hfilled : MembersFilled members) :
    ((leaves (luaZbusMsgDescr abi members).fields 0).map Leaf.place =
        structPlaces abi members 0 0 ↔ MembersFit abi members 0) ∧
      ∀ p, MembersFit abi members 0 → MembersNamed members → MembersSized abi members →
        Describes (SizedLeaf p) (luaZbusMsgDescr abi members).fields
          (luaZbusMsgDescr abi members).msgSize :=
  ⟨(places_iff members hfilled (Nat.le_refl 0)).trans (and_iff_left fun _ => rfl),
    fun _ hfits hnamed hsized =>
      describes_struct members hfits hnamed hsized (endof_le_sizeof abi members)⟩

/-- A 32-bit platform. -/
def wordAlign (size : Nat) : Nat := if size = 1 ∨ size = 2 then size else 4

theorem wordAlign_pos (size : Nat) : 0 < wordAlign size := by
  unfold wordAlign
  split
  · omega
  · omega

def accDataMembers : Members :=
  [(some (ascii "x"), .scalar (.int true .four)), (some (ascii "y"), .scalar (.int true .four)),
    (some (ascii "z"), .scalar (.int true .four))]

/-- `struct msg_sensor_config`, whose presence flag has no entry. -/
def sensorConfigMembers : Members :=
  [(some (ascii "sensor_id"), .scalar (.int true .four)), (none, .scalar .bool),
    (some (ascii "offset"), .struct accDataMembers)]

example : luaZbusMsgDescr ⟨.little, wordAlign, wordAlign_pos⟩ sensorConfigMembers =
    ⟨msgSensorConfigFields, 20⟩ := rfl

theorem fits_sensorConfig :
    MembersFit ⟨.little, wordAlign, wordAlign_pos⟩ sensorConfigMembers 0 := by
  refine ⟨⟨?_, ?_⟩, ⟨?_, ⟨?_, ?_⟩, ⟨?_, ?_⟩, ⟨?_, ?_⟩, trivial⟩, trivial⟩ <;> decide

/-- The array of the sample describes the struct. -/
theorem structFields_describe_iff_sensorConfig :
    (leaves (luaZbusMsgDescr ⟨.little, wordAlign, wordAlign_pos⟩ sensorConfigMembers).fields
      0).map Leaf.place =
        structPlaces ⟨.little, wordAlign, wordAlign_pos⟩ sensorConfigMembers 0 0 := by
  have hfilled : MembersFilled sensorConfigMembers :=
    ⟨trivial, ⟨⟨_, List.mem_cons_self, rfl⟩, trivial, trivial, trivial, trivial⟩, trivial⟩
  exact (structFields_describe_iff _ sensorConfigMembers hfilled).1.mpr fits_sensorConfig

end Places

end LuaZephyr
