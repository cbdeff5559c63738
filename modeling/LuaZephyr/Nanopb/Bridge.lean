import LuaZephyr.MsgDescr.Macros
import LuaZephyr.MsgDescr.Leaves
import LuaZephyr.MsgDescr.Decode

/-!
# The nanopb bridge

The bridge makes a descriptor of a nanopb `FIELDLIST`, one entry for each field, and looks
only at the logical type. A presence flag `has_f` is a member of the struct beside `f` that
no entry of the descriptor names: neither conversion reads or writes it.

The generated structs and lists are not part of the repository; what the macros use of them is a
parameter with the documented properties. Repeated fields, oneofs and callbacks have no entry
in the bridge, and the encoder and decoder of nanopb itself are not modelled.
-/

namespace LuaZephyr

open Outcome Patch

inductive PbAtype where
  | static
  | pointer
  | callback
  deriving DecidableEq, Repr

inductive PbHtype where
  | required
  | singular
  | optional
  | repeated
  | fixarray
  | oneof
  deriving DecidableEq, Repr

/-- The logical types the bridge maps. -/
inductive PbLtype where
  | bool
  | int32
  | sint32
  | sfixed32
  | int64
  | sint64
  | sfixed64
  | uint32
  | fixed32
  | uint64
  | fixed64
  | float
  | double
  | string
  | enum
  | uenum
  | message
  deriving DecidableEq, Repr

/-- The `LUA_PB_GEN_*` macro of a logical type. -/
def PbLtype.type : PbLtype → LuaMsgFieldType
  | .bool => .bool
  | .int32 | .sint32 | .sfixed32 | .int64 | .sint64 | .sfixed64 | .enum => .int
  | .uint32 | .fixed32 | .uint64 | .fixed64 | .uenum => .uint
  | .float | .double => .number
  | .string => .stringBuf
  | .message => .object

/-- An entry `X(a, atype, htype, ltype, fieldname, tag)` of a `FIELDLIST`, with the place of
the member in the struct nanopb generates, the place of its presence flag, and the
`FIELDLIST` of its `MSGTYPE`. The flag is there for OPTIONAL fields. -/
structure PbField where
  atype : PbAtype
  htype : PbHtype
  ltype : PbLtype
  fieldname : Bytes
  tag : Nat
  offset : Nat
  size : Nat
  hasOffset : Nat
  msgtype : List PbField
  deriving Repr

mutual

/-- `LUA_PB_GEN_FIELD`. -/
def luaPbGenField : PbField → LuaMsgFieldDescr
  | ⟨_, _, ltype, fieldname, _, offset, size, _, msgtype⟩ =>
    match ltype with
    | .message => luaMsgFieldObject fieldname offset size (luaPbFields msgtype)
    | ltype => luaMsgField fieldname offset size ltype.type

/-- The array `<_name>_t_lua_fields` of `LUA_PB_DESCR_DEFINE`. -/
def luaPbFields : List PbField → List LuaMsgFieldDescr
  | [] => []
  | f :: fs => luaPbGenField f :: luaPbFields fs

end

/-- `LUA_PB_DESCR_DEFINE(_name)`, for a struct of `size` bytes. -/
def luaPbDescrDefine (fieldlist : List PbField) (size : Nat) : LuaMsgDescr :=
  ⟨luaPbFields fieldlist, size⟩

namespace PbField

/-- The member of a field in a struct at `base`. -/
def member (f : PbField) (base : Nat) : Span := ⟨base + f.offset, f.size⟩

/-- The place of the presence flag, if there is one. -/
def flag (f : PbField) (base : Nat) : List Nat :=
  if f.htype = .optional then [base + f.hasOffset] else []

end PbField

/-- A byte of `f`, its presence flag included. -/
def PbField.Owns (f : PbField) (base i : Nat) : Prop := (f.member base).Covers i ∨ i ∈ f.flag base

mutual

/-- A singular STATIC field inside a struct of `n` bytes, with a size the codec knows. -/
def FieldLaid : PbField → Nat → Prop
  | ⟨atype, htype, ltype, _, _, offset, size, hasOffset, msgtype⟩, n =>
    atype = .static ∧ htype ∈ [.required, .singular, .optional] ∧
      offset + size ≤ n ∧ offset < 65536 ∧
      (htype = .optional → hasOffset < n ∧ ¬ (offset ≤ hasOffset ∧ hasOffset < offset + size)) ∧
      if ltype = .message then Laid msgtype size
      else size < 256 ∧ SizedLeaf 0 ltype.type (UInt8.ofNat size)

/-- The fields are laid out in a struct of `n` bytes, and no byte belongs to two. -/
def Laid : List PbField → Nat → Prop
  | [], _ => True
  | f :: fs, n =>
      FieldLaid f n ∧
        (∀ g ∈ fs, f.fieldname ≠ g.fieldname ∧ ∀ i, f.Owns 0 i → ¬ g.Owns 0 i) ∧ Laid fs n

end

/-- The presence flag of an optional field: the keys from the outermost table inwards, and
the place in the message. -/
structure Presence where
  path : List Bytes
  place : Nat
  deriving DecidableEq, Repr

mutual

def fieldPresence : PbField → Nat → List Presence
  | ⟨_, htype, ltype, fieldname, _, offset, _, hasOffset, msgtype⟩, base =>
    (if htype = .optional then [⟨[fieldname], base + hasOffset⟩] else []) ++
      if ltype = .message then
        (presence msgtype (base + offset)).map fun p => ⟨fieldname :: p.path, p.place⟩
      else []

/-- The presence flags of a message, at all levels. -/
def presence : List PbField → Nat → List Presence
  | [], _ => []
  | f :: fs, base => fieldPresence f base ++ presence fs base

end

variable {tgt : Target}

theorem SizedLeaf.of_zero {type : LuaMsgFieldType} {size : UInt8} (h : SizedLeaf 0 type size)
    (p : Nat) : SizedLeaf p type size := by
  cases type with
  | string => exact absurd h.1 (by rw [h.2]; decide)
  | _ => exact h

/-- A field that is not a message has a descriptor made by `LUA_MSG_FIELD`. -/
theorem luaPbGenField_leaf {f : PbField} (h : f.ltype ≠ .message) :
    luaPbGenField f = luaMsgField f.fieldname f.offset f.size f.ltype.type := by
  obtain ⟨atype, htype, ltype, fieldname, tag, offset, size, hasOffset, msgtype⟩ := f
  cases ltype with
  | message => exact absurd rfl h
  | _ => rfl

theorem luaMsgField_describes {name : Bytes} {offset size : Nat} {type : LuaMsgFieldType}
    (hoffset : offset < 65536) (hsize : size < 256) (hleaf : SizedLeaf 0 type (UInt8.ofNat size))
    (p : Nat) : FieldDescribes (SizedLeaf p) (luaMsgField name offset size type)
      (offset + size) := by
  refine ⟨by rw [toNat_offset hoffset, toNat_size hsize], ?_⟩
  cases type with
  | object => exact hleaf.elim
  | _ => exact hleaf.of_zero p

/-- What is written for a leaf is written to its member. -/
theorem leafWrites_member {name : Bytes} {offset size base : Nat} {type : LuaMsgFieldType}
    (hoffset : offset < 65536) (hsize : size < 256) (hleaf : SizedLeaf 0 type (UInt8.ofNat size))
    {v : Value} (hne : v.isNil = false) {ws : List (Write UInt8)}
    (hws : fieldWrites tgt (luaMsgField name offset size type) v base = .ok ws) :
    ∀ w ∈ ws, base + offset ≤ w.offset ∧ w.stop ≤ base + offset + size := by
  have hdescr : FieldDescribes (SizedLeaf tgt.pointerSize) (luaMsgField name offset size type) _ :=
    luaMsgField_describes hoffset hsize hleaf tgt.pointerSize
  have hindex : tgt.index (.table [(name, v)] none) name = .ok v := by
    rw [Target.index_table, rawGet_cons, if_pos rfl]
  have hspans := fieldWrites_spans hdescr hindex hne hws
  intro w hw
  have hspan : w.span ∈ ws.map Write.span := List.mem_map_of_mem hw
  rw [hspans] at hspan
  obtain ⟨leaf, hmem, hleaf⟩ := List.mem_map.mp hspan
  have hwithin := fieldLeaves_within hdescr base leaf (List.mem_of_mem_filter hmem)
  have hstart := hwithin.start_le
  have hstop := hwithin.stop_le
  rw [hleaf] at hstart hstop
  simp only [LuaMsgFieldDescr.spanAt, Span.stop, Write.span, luaMsgField, toNat_offset hoffset,
    toNat_size hsize] at hstart hstop
  exact ⟨hstart, hstop⟩

/-- No byte of a write is at the place. -/
def Avoids (ws : List (Write UInt8)) (i : Nat) : Prop := ∀ w ∈ ws, ¬ w.Covers i

theorem Avoids.append {ws ws' : List (Write UInt8)} {i : Nat} (h : Avoids ws i)
    (h' : Avoids ws' i) : Avoids (ws ++ ws') i := by
  intro w hw
  exact (List.mem_append.mp hw).elim (h w) (h' w)

theorem PbField.owns_add {f : PbField} {base i : Nat} : f.Owns base (base + i) ↔ f.Owns 0 i := by
  unfold PbField.Owns PbField.member PbField.flag
  simp only [Span.Covers, Span.stop]
  refine or_congr (by omega) ?_
  split <;> simp

theorem FieldLaid.owns {f : PbField} {n base i : Nat} (h : FieldLaid f n) (hi : f.Owns base i) :
    base ≤ i ∧ i < base + n := by
  obtain ⟨atype, htype, ltype, fieldname, tag, offset, size, hasOffset, msgtype⟩ := f
  obtain ⟨-, -, hin, -, hflag, -⟩ := h
  obtain ⟨hlo, hhi⟩ | hplace := hi
  · simp only [PbField.member, Span.stop] at hlo hhi
    omega
  · unfold PbField.flag at hplace
    split at hplace
    · rename_i hopt
      obtain rfl := List.mem_singleton.mp hplace
      have hlt := (hflag hopt).1
      simp only
      omega
    · contradiction

theorem FieldLaid.inside {f : PbField} {n : Nat} (h : FieldLaid f n) : f.offset + f.size ≤ n := by
  obtain ⟨atype, htype, ltype, fieldname, tag, offset, size, hasOffset, msgtype⟩ := f
  exact h.2.2.1

theorem mem_presence {fs : List PbField} {base : Nat} {p : Presence} :
    p ∈ presence fs base ↔ ∃ f ∈ fs, p ∈ fieldPresence f base := by
  induction fs with
  | nil => simp [presence]
  | cons f fs ih => simp [presence, ih]

theorem Laid.field {fs : List PbField} {n : Nat} (h : Laid fs n) {f : PbField} (hf : f ∈ fs) :
    FieldLaid f n := by
  induction fs with
  | nil => contradiction
  | cons g fs ih =>
      obtain rfl | hf := List.mem_cons.mp hf
      · exact h.1
      · exact ih h.2.2 hf

mutual

/-- The presence flags of a field, and those inside its message, are bytes of the field. -/
theorem fieldPresence_owns {f : PbField} {n base : Nat} (h : FieldLaid f n) {p : Presence}
    (hp : p ∈ fieldPresence f base) : f.Owns base p.place := by
  obtain ⟨atype, htype, ltype, fieldname, tag, offset, size, hasOffset, msgtype⟩ := f
  obtain ⟨-, -, -, -, -, hsub⟩ := h
  rw [fieldPresence] at hp
  obtain hflag | hinner := List.mem_append.mp hp
  · right
    split at hflag
    · rename_i hopt
      obtain rfl := List.mem_singleton.mp hflag
      simp [PbField.flag, hopt]
    · contradiction
  · split at hinner
    · rename_i hmessage
      rw [if_pos hmessage] at hsub
      obtain ⟨q, hq, rfl⟩ := List.mem_map.mp hinner
      have hplace := presence_within hsub hq
      exact .inl hplace
    · contradiction

theorem presence_within {fs : List PbField} {n base : Nat} (h : Laid fs n) {p : Presence}
    (hp : p ∈ presence fs base) : base ≤ p.place ∧ p.place < base + n := by
  cases fs with
  | nil => contradiction
  | cons f fs =>
      obtain hhere | hrest := List.mem_append.mp hp
      · exact h.1.owns (fieldPresence_owns h.1 hhere)
      · exact presence_within h.2.2 hrest

end

/-- The bytes a write covers are of the member. -/
def InMember (f : PbField) (base : Nat) (ws : List (Write UInt8)) : Prop :=
  ∀ w ∈ ws, base + f.offset ≤ w.offset ∧ w.stop ≤ base + f.offset + f.size

theorem InMember.owns {f : PbField} {base : Nat} {ws : List (Write UInt8)} (h : InMember f base ws)
    {w : Write UInt8} (hw : w ∈ ws) {i : Nat} (hi : w.Covers i) : f.Owns base i := by
  obtain ⟨hlo, hhi⟩ := h w hw
  exact .inl ⟨hlo.trans hi.1, lt_of_lt_of_le hi.2 hhi⟩

theorem PbField.Owns.disjoint {f g : PbField} {base i : Nat}
    (h : ∀ i, f.Owns 0 i → ¬ g.Owns 0 i) (hf : f.Owns base i) : base ≤ i → ¬ g.Owns base i := by
  intro hle hg
  obtain ⟨j, rfl⟩ := Nat.exists_eq_add_of_le hle
  exact h j (PbField.owns_add.mp hf) (PbField.owns_add.mp hg)

mutual

/-- A field is written inside its member, and not at a presence flag of its message. -/
theorem pbFieldWrites_avoid {f : PbField} {n : Nat} (h : FieldLaid f n) {base : Nat} {v : Value}
    (hne : v.isNil = false) {ws : List (Write UInt8)}
    (hws : fieldWrites tgt (luaPbGenField f) v base = .ok ws) :
    InMember f base ws ∧ ∀ p ∈ fieldPresence f base, Avoids ws p.place := by
  obtain ⟨atype, htype, ltype, fieldname, tag, offset, size, hasOffset, msgtype⟩ := f
  obtain ⟨-, -, -, hoffset, hflag, hsub⟩ := h
  have hwrites : InMember ⟨atype, htype, ltype, fieldname, tag, offset, size, hasOffset, msgtype⟩
      base ws ∧ (ltype = .message → ∀ p ∈ presence msgtype (base + offset), Avoids ws p.place) := by
    by_cases hmessage : ltype = .message
    · subst hmessage
      rw [if_pos rfl] at hsub
      have hinner : tableWrites tgt (luaPbFields msgtype) v (base + (UInt16.ofNat offset).toNat) =
          .ok ws := hws
      rw [toNat_offset hoffset] at hinner
      obtain ⟨hin, havoid⟩ := pbWrites_avoid hsub hinner
      refine ⟨fun w hw => ?_, fun _ => havoid⟩
      obtain ⟨g, hg, hwrite⟩ := hin w hw
      obtain ⟨hlo, hhi⟩ := hwrite w (List.mem_singleton_self w)
      have hinside := (Laid.field hsub hg).inside
      simp only
      omega
    · rw [if_neg hmessage] at hsub
      rw [luaPbGenField_leaf hmessage] at hws
      exact ⟨leafWrites_member hoffset hsub.1 hsub.2 hne hws, fun h => absurd h hmessage⟩
  refine ⟨hwrites.1, fun p hp => ?_⟩
  rw [fieldPresence] at hp
  obtain hp | hp := List.mem_append.mp hp
  · split at hp
    · rename_i hopt
      obtain rfl := List.mem_singleton.mp hp
      intro w hw hcovers
      obtain ⟨hlo, hhi⟩ := hwrites.1 w hw
      refine (hflag hopt).2 ?_
      simp only at hlo hhi hcovers
      omega
    · contradiction
  · split at hp
    · rename_i hmessage
      obtain ⟨q, hq, rfl⟩ := List.mem_map.mp hp
      exact hwrites.2 hmessage q hq
    · contradiction

/-- Each write of a message is inside a member, and none is at a presence flag. -/
theorem pbWrites_avoid {fs : List PbField} {n : Nat} (h : Laid fs n) {t : Value} {base : Nat}
    {ws : List (Write UInt8)} (hws : tableWrites tgt (luaPbFields fs) t base = .ok ws) :
    (∀ w ∈ ws, ∃ f ∈ fs, InMember f base [w]) ∧ ∀ p ∈ presence fs base, Avoids ws p.place := by
  cases fs with
  | nil =>
      obtain rfl := Except.ok.inj hws
      exact ⟨nofun, nofun⟩
  | cons f fs =>
      obtain ⟨hf, hother, hfs⟩ := h
      obtain ⟨v, here, rest, -, hhere, hrest, rfl⟩ := tableWrites_cons_ok tgt hws
      obtain ⟨hin, havoid⟩ : InMember f base here ∧
          ∀ p ∈ fieldPresence f base, Avoids here p.place := by
        unfold entryWrites at hhere
        split at hhere
        · obtain rfl := Except.ok.inj hhere
          exact ⟨nofun, fun _ _ => nofun⟩
        · rename_i hnil
          exact pbFieldWrites_avoid hf (Bool.eq_false_iff.mpr hnil) hhere
      obtain ⟨hin', havoid'⟩ := pbWrites_avoid hfs hrest
      refine ⟨fun w hw => ?_, fun p hp => ?_⟩
      · obtain hw | hw := List.mem_append.mp hw
        · exact ⟨f, List.mem_cons_self .., fun w' hw' => List.mem_singleton.mp hw' ▸ hin w hw⟩
        · obtain ⟨g, hg, hwrite⟩ := hin' w hw
          exact ⟨g, List.mem_cons_of_mem _ hg, hwrite⟩
      · obtain hp | hp := List.mem_append.mp hp
        · -- A flag of `f` is not in the members of the others.
          refine (havoid p hp).append fun w hw hcovers => ?_
          obtain ⟨g, hg, hwrite⟩ := hin' w hw
          have hplace := fieldPresence_owns hf hp
          exact hplace.disjoint (hother g hg).2 (hf.owns hplace).1
            (hwrite.owns (List.mem_singleton_self w) hcovers)
        · -- A flag of another field is not in the member of `f`.
          refine Avoids.append (fun w hw hcovers => ?_) (havoid' p hp)
          obtain ⟨g, hg, hpg⟩ := mem_presence.mp hp
          have hplace := hin.owns hw hcovers
          exact hplace.disjoint (hother g hg).2 (hf.owns hplace).1
            (fieldPresence_owns (Laid.field hfs hg) hpg)

end

mutual

theorem pbField_fits {f : PbField} {n base len : Nat} (h : FieldLaid f n) (hlen : base + n ≤ len) :
    FieldFits tgt (luaPbGenField f) base len := by
  obtain ⟨atype, htype, ltype, fieldname, tag, offset, size, hasOffset, msgtype⟩ := f
  obtain ⟨-, -, hin, hoffset, -, hsub⟩ := h
  by_cases hmessage : ltype = .message
  · subst hmessage
    rw [if_pos rfl] at hsub
    have hinner : Fits tgt (luaPbFields msgtype) (base + (UInt16.ofNat offset).toNat) len := by
      rw [toNat_offset hoffset]
      exact pbFields_fit hsub (by omega)
    exact hinner
  · rw [if_neg hmessage] at hsub
    rw [luaPbGenField_leaf hmessage]
    exact FieldDescribes.fits tgt (luaMsgField_describes hoffset hsub.1 hsub.2 tgt.pointerSize)
      (show base + (offset + size) ≤ len by omega)

/-- The generated descriptor stays inside the struct. -/
theorem pbFields_fit {fs : List PbField} {n base len : Nat} (h : Laid fs n)
    (hlen : base + n ≤ len) : Fits tgt (luaPbFields fs) base len := by
  cases fs with
  | nil => trivial
  | cons f fs => exact ⟨pbField_fits h.1 hlen, pbFields_fit h.2.2 hlen⟩

end

theorem luaPbFields_names (fs : List PbField) :
    (luaPbFields fs).map (·.fieldName) = fs.map (·.fieldname) := by
  induction fs with
  | nil => rfl
  | cons f fs ih =>
      obtain ⟨atype, htype, ltype, fieldname, tag, offset, size, hasOffset, msgtype⟩ := f
      rw [luaPbFields, List.map_cons, List.map_cons, ih]
      cases ltype <;> rfl

theorem Laid.names {fs : List PbField} {n : Nat} (h : Laid fs n) :
    ((luaPbFields fs).map (·.fieldName)).Nodup := by
  rw [luaPbFields_names]
  induction fs with
  | nil => exact List.nodup_nil
  | cons f fs ih =>
      obtain ⟨-, hother, hfs⟩ := h
      rw [List.map_cons, List.nodup_cons]
      refine ⟨fun hmem => ?_, ih hfs⟩
      obtain ⟨g, hg, hname⟩ := List.mem_map.mp hmem
      exact (hother g hg).1 hname.symm

theorem PbLtype.type_ne_string (ltype : PbLtype) : ltype.type ≠ .string := by
  cases ltype <;> nofun

/-- Only a STRING field can be shown as nil. -/
theorem fieldValue_ne_nil {f : LuaMsgFieldDescr} (h : f.type ≠ .string) (buf : Bytes) (base : Nat) :
    fieldValue tgt buf f base ≠ some .nil := by
  obtain ⟨name, type, offset, size, subFields⟩ := f
  cases type with
  | string => exact absurd rfl h
  | _ => simp [fieldValue]

theorem luaPbGenField_type (f : PbField) : (luaPbGenField f).type = f.ltype.type := by
  obtain ⟨atype, htype, ltype, fieldname, tag, offset, size, hasOffset, msgtype⟩ := f
  cases ltype <;> rfl

theorem luaPbGenField_name (f : PbField) : (luaPbGenField f).fieldName = f.fieldname := by
  obtain ⟨atype, htype, ltype, fieldname, tag, offset, size, hasOffset, msgtype⟩ := f
  cases ltype <;> rfl

mutual

/-- An optional field, and those inside a message, have a key in what the field is shown
as. -/
theorem pbFieldValue_key {f : PbField} {n : Nat} (h : FieldLaid f n) {buf : Bytes} {base : Nat}
    {v : Value} (hv : fieldValue tgt buf (luaPbGenField f) base = some v) {place : Nat}
    {p : Presence} (hp : p ∈ fieldPresence f place) :
    ∃ path, p.path = f.fieldname :: path ∧ (lookupPath tgt v path).isSome = true := by
  obtain ⟨atype, htype, ltype, fieldname, tag, offset, size, hasOffset, msgtype⟩ := f
  obtain ⟨-, -, -, hoffset, -, hsub⟩ := h
  rw [fieldPresence] at hp
  obtain hflag | hinner := List.mem_append.mp hp
  · split at hflag
    · obtain rfl := List.mem_singleton.mp hflag
      exact ⟨[], rfl, rfl⟩
    · contradiction
  · split at hinner
    · rename_i hmessage
      subst hmessage
      rw [if_pos rfl] at hsub
      obtain ⟨q, hq, rfl⟩ := List.mem_map.mp hinner
      obtain ⟨es, hes, rfl⟩ := Option.map_eq_some_iff.mp hv
      exact ⟨q.path, rfl, pbEntries_key hsub (entriesOf_rawGet (Laid.names hsub) hes) hq⟩
    · contradiction

/-- Every optional field has a key in the table, at every level. -/
theorem pbEntries_key {fs : List PbField} {n : Nat} (h : Laid fs n) {buf : Bytes} {base : Nat}
    {es : Entries} (hes : ∀ f ∈ luaPbFields fs,
      fieldValue tgt buf f base = some (rawGet es f.fieldName)) {place : Nat}
    {p : Presence} (hp : p ∈ presence fs place) :
    (lookupPath tgt (.table es none) p.path).isSome = true := by
  cases fs with
  | nil => contradiction
  | cons f fs =>
      obtain hp | hp := List.mem_append.mp hp
      · have hvalue := hes _ (List.mem_cons_self ..)
        rw [luaPbGenField_name] at hvalue
        obtain ⟨path, hpath, hlookup⟩ := pbFieldValue_key h.1 hvalue hp
        have hne : rawGet es f.fieldname ≠ .nil := by
          intro hnil
          rw [hnil] at hvalue
          refine fieldValue_ne_nil ?_ buf base hvalue
          rw [luaPbGenField_type]
          exact f.ltype.type_ne_string
        rw [hpath, lookupPath_table hne]
        exact hlookup
      · exact pbEntries_key h.2.2 (fun g hg => hes g (List.mem_cons_of_mem _ hg)) hp

end

variable {β : Type}

/-- Converting a table makes a presence flag true exactly for the optional fields whose key
is in the table, and converting a struct gives such a key only where the flag is true. -/
def KeepsPresence (tgt : Target) (fieldlist : List PbField) (n : Nat) : Prop :=
  ∀ (s u : State Unit) (block : Nat) (b : Bytes), s.heap.blocks block = some b → b.length = n →
    (∀ idx t b', 0 < idx → valueAt s.stack idx = some t →
      luaMsgDescrFromTable tgt (luaPbFields fieldlist) ⟨block, 0⟩ idx s = .ok ⟨⟩ u →
      u.heap.blocks block = some b' → ∀ p ∈ presence fieldlist 0,
        (b'[p.place]? = some 1 ↔ (lookupPath tgt t p.path).isSome = true)) ∧
    ∀ t, luaMsgDescrToTable tgt (luaPbFields fieldlist) ⟨block, 0⟩ s = .ok ⟨⟩ u →
      u.stack = t :: s.stack → ∀ p ∈ presence fieldlist 0,
        (lookupPath tgt t p.path).isSome = true → b[p.place]? = some 1

/-- `msg_acc_data_FIELDLIST`. -/
def msgAccDataFieldlist : List PbField :=
  [⟨.static, .singular, .int32, ascii "x", 1, 0, 4, 0, []⟩,
    ⟨.static, .singular, .int32, ascii "y", 2, 4, 4, 0, []⟩,
    ⟨.static, .singular, .int32, ascii "z", 3, 8, 4, 0, []⟩]

/-- `msg_sensor_config_FIELDLIST`. The submessage is optional. -/
def msgSensorConfigFieldlist : List PbField :=
  [⟨.static, .singular, .int32, ascii "sensor_id", 1, 0, 4, 0, []⟩,
    ⟨.static, .optional, .message, ascii "offset", 2, 8, 12, 4, msgAccDataFieldlist⟩]

/-- The bridge gives the descriptor the sample's channel has. -/
example : luaPbFields msgSensorConfigFieldlist = msgSensorConfigFields := rfl

theorem not_owns_of_apart {f g : PbField} (hf : f.htype ≠ .optional)
    (hmember : f.offset + f.size ≤ g.offset)
    (hflag : g.htype = .optional → f.offset + f.size ≤ g.hasOffset) :
    ∀ i, f.Owns 0 i → ¬ g.Owns 0 i := by
  rintro i (⟨-, hhi⟩ | hf') (⟨hlo, -⟩ | hg)
  · simp only [PbField.member, Span.stop] at hhi hlo
    omega
  · unfold PbField.flag at hg
    split at hg
    · rename_i hopt
      have hplace := hflag hopt
      obtain rfl := List.mem_singleton.mp hg
      simp only [PbField.member, Span.stop] at hhi
      omega
    · contradiction
  · rw [PbField.flag, if_neg hf] at hf'
    contradiction
  · rw [PbField.flag, if_neg hf] at hf'
    contradiction

theorem msgAccData_laid : Laid msgAccDataFieldlist 12 := by
  have hword (name : Bytes) (tag offset : Nat) (h : offset + 4 ≤ 12) :
      FieldLaid ⟨.static, .singular, .int32, name, tag, offset, 4, 0, []⟩ 12 :=
    ⟨rfl, by decide, h, by omega, nofun, by decide, by decide⟩
  refine ⟨hword _ _ _ (by decide), ?_, hword _ _ _ (by decide), ?_, hword _ _ _ (by decide),
    nofun, trivial⟩
  · intro g hg
    obtain rfl | rfl : g = _ ∨ g = _ := by simpa using hg
    · exact ⟨by decide, not_owns_of_apart nofun (by decide) nofun⟩
    · exact ⟨by decide, not_owns_of_apart nofun (by decide) nofun⟩
  · intro g hg
    obtain rfl := List.mem_singleton.mp hg
    exact ⟨by decide, not_owns_of_apart nofun (by decide) nofun⟩

theorem msgSensorConfig_laid : Laid msgSensorConfigFieldlist 20 := by
  refine ⟨⟨rfl, by decide, by decide, by decide, nofun, by decide, by decide⟩, ?_,
    ⟨rfl, by decide, by decide, by decide, fun _ => by decide, msgAccData_laid⟩, nofun, trivial⟩
  intro g hg
  obtain rfl := List.mem_singleton.mp hg
  exact ⟨by decide, not_owns_of_apart nofun (by decide) (fun _ => by decide)⟩

/-- A configuration with all its flags down, and the table `{ offset = { x = 1 } }`. -/
def sensorConfigState : State Unit :=
  { State.idle 0 () with
    stack := [.table [(ascii "offset", .table [(ascii "x", .integer 1)] none)] none]
    heap := ⟨fun p => if p = 0 then some (List.replicate 20 0) else none, 1, fun _ => none⟩ }

end LuaZephyr
