import LuaZephyr.MsgDescr.Structs
import LuaZephyr.MsgDescr.Encode
import LuaZephyr.MsgDescr.Exact

/-!
# Values of C structs in Lua

Under a descriptor of a struct the conversions work on the values of the struct: they show
them as Lua values, and they store the values a table gives.

The members covered are integers of 1, 2, 4 and 8 bytes, floating point numbers, `bool`, `char`
arrays and nested structs. A member that is a pointer, as a STRING field needs it, has no value
inside the struct and is left out; so are unions, bit fields and arrays of anything but `char`.
-/

namespace LuaZephyr

open CStruct Patch Words Outcome

/-- How the target lays out structs. -/
def Target.abi (tgt : Target) {align : Nat → Nat} (hpos : ∀ size, 0 < align size) : Abi :=
  ⟨tgt.order, align, hpos⟩

section Values

variable (tgt : Target)

/-- The Lua value a member is shown as. -/
def shownScalar : (s : Scalar) → s.Val → Value
  | .int true _, v => .integer (v.signExtend 32)
  | .int false _, v => .integer (v.setWidth 32)
  | .float, v => .number v
  | .double, v => .number (tgt.doubleToFloat v)
  | .bool, v => .boolean v
  | .chars _, v => .string v.1

mutual

def shown : (type : CType) → type.Val → Value
  | .scalar s, v => shownScalar tgt s v
  | .struct members, v => .table (shownMembers members v) none

def shownMembers : (ms : Members) → Vals ms → Entries
  | [], _ => []
  | (none, _) :: ms, v => shownMembers ms v
  | (some name, type) :: ms, v => (name, shown type v.1) :: shownMembers ms v.2

end

theorem shown_ne_nil (type : CType) (v : type.Val) : shown tgt type v ≠ .nil := by
  match type with
  | .scalar (.int true _) | .scalar (.int false _) => exact nofun
  | .scalar .float | .scalar .double | .scalar .bool | .scalar (.chars _) => exact nofun
  | .struct _ => exact nofun

/-- A Lua value that is stored in a member as `v`: numbers lose the bits that do not fit,
texts what does not. -/
def GivesScalar : (s : Scalar) → Value → s.Val → Prop
  | .int _ _, x, v => ∃ i, tgt.toInteger? x = some i ∧ v = i.signExtend _
  | .float, x, v => tgt.toNumber? x = some v
  | .double, x, v => ∃ n, tgt.toNumber? x = some n ∧ v = tgt.floatToDouble n
  | .bool, x, v => v = x.toBoolean
  | .chars size, x, v => ∃ text, tgt.toText? x = some text ∧
      v.1 = (CString.text text).take (size - 1)

mutual

def Gives : (type : CType) → Value → type.Val → Prop
  | .scalar s, x, v => GivesScalar tgt s x v
  | .struct members, x, v => GivesMembers members x v

/-- Each member is found in `x` under its name. -/
def GivesMembers : (ms : Members) → Value → Vals ms → Prop
  | [], _, _ => True
  | (none, _) :: ms, x, v => GivesMembers ms x v
  | (some name, type) :: ms, x, v =>
      (∃ y, tgt.index x name = .ok y ∧ y ≠ .nil ∧ Gives type y v.1) ∧ GivesMembers ms x v.2

end

/-- What is left of a value that was shown and stored again: the low 32 bits of an integer,
extended by their sign, and of a `double` what fits in a `float`. -/
def keptScalar : (s : Scalar) → s.Val → s.Val
  | .int true _, v => (v.signExtend 32).signExtend _
  | .int false _, v => (v.setWidth 32).signExtend _
  | .float, v => v
  | .double, v => tgt.floatToDouble (tgt.doubleToFloat v)
  | .bool, v => v
  | .chars _, v => v

mutual

def kept : (type : CType) → type.Val → type.Val
  | .scalar s, v => keptScalar tgt s v
  | .struct members, v => keptMembers members v

def keptMembers : (ms : Members) → Vals ms → Vals ms
  | [], v => v
  | (none, _) :: ms, v => keptMembers ms v
  | (some _, type) :: ms, v => (kept type v.1, keptMembers ms v.2)

end

/-- Types of which a 32-bit Lua keeps every value. -/
def ScalarNarrow : Scalar → Prop
  | .int _ width => width ≠ .eight
  | .double => False
  | .float | .bool | .chars _ => True

mutual

def CTypeNarrow : CType → Prop
  | .scalar s => ScalarNarrow s
  | .struct members => MembersNarrow members

def MembersNarrow : Members → Prop
  | [] => True
  | (none, _) :: ms => MembersNarrow ms
  | (some _, type) :: ms => CTypeNarrow type ∧ MembersNarrow ms

end

theorem keptScalar_eq {s : Scalar} (h : ScalarNarrow s) (v : s.Val) :
    keptScalar tgt s v = v := by
  cases s with
  | int signed width =>
      have hbits : 8 * width.bytes ≤ 32 := by
        cases width with
        | eight => exact absurd rfl h
        | _ => decide
      cases signed with
      | true => exact signExtend_signExtend_self hbits v
      | false => exact setWidth_signExtend_self hbits v
  | double => exact h.elim
  | _ => rfl

mutual

theorem kept_eq (type : CType) (h : CTypeNarrow type) (v : type.Val) :
    kept tgt type v = v :=
  match type with
  | .scalar _ => keptScalar_eq tgt h v
  | .struct members => keptMembers_eq members h v

theorem keptMembers_eq (ms : Members) (h : MembersNarrow ms) (v : Vals ms) :
    keptMembers tgt ms v = v :=
  match ms with
  | [] => rfl
  | (none, _) :: ms => keptMembers_eq ms h v
  | (some _, type) :: ms => Prod.ext (kept_eq type h.1 v.1) (keptMembers_eq ms h.2 v.2)

end

end Values

section Shown

variable {tgt : Target} {align : Nat → Nat} {hpos : ∀ size, 0 < align size} {buf : Bytes}

theorem map_bytesAt_word {α : Type} {off n : Nat} {v : BitVec (8 * n)}
    (hlen : off + n ≤ buf.length) (h : slice buf off n = writeWord tgt.order n v)
    (f : BitVec (8 * n) → α) :
    (bytesAt buf off n).map (fun bs => f (readWord tgt.order (8 * n) bs)) = some (f v) := by
  rw [bytesAt, if_pos hlen, Option.map_some, h, readWord_writeWord tgt.order rfl]

theorem integerAt_width (extend : {w : Nat} → BitVec w → LuaInteger) (width : IntWidth)
    {off : Nat} {v : BitVec (8 * width.bytes)} (hlen : off + width.bytes ≤ buf.length)
    (h : slice buf off width.bytes = writeWord tgt.order width.bytes v) :
    integerAt tgt extend buf off (UInt8.ofNat width.bytes) = some (extend v) := by
  cases width with
  | _ => exact map_bytesAt_word hlen h extend

theorem textAt_slice {off n : Nat} {text : Bytes} (hlt : text.length < n)
    (hlen : off + n ≤ buf.length) (h : CString.text (slice buf off n) = text) :
    textAt buf off = some text := by
  have hnul : 0 ∈ slice buf off n := by
    by_contra hnul
    rw [CString.text_eq_self_iff.mpr hnul] at h
    have hslice := length_slice hlen
    rw [h] at hslice
    omega
  have hsplit : buf.drop off = slice buf off n ++ (buf.drop off).drop n :=
    (List.take_append_drop n _).symm
  rw [textAt, hsplit, if_pos (List.mem_append_left _ hnul), CString.text_append_of_mem hnul, h]

/-- A member is shown as the value it holds. -/
theorem fieldValue_scalar {s : Scalar} {name : Bytes} {base offset : Nat} {v : s.Val}
    (hfits : offset < 65536)
    (h : base + offset + s.sizeof ≤ buf.length ∧
      s.Reads (tgt.abi hpos) (slice buf (base + offset) s.sizeof) v) :
    fieldValue tgt buf (luaMsgField name offset s.sizeof (fieldType s)) base =
      some (shownScalar tgt s v) := by
  obtain ⟨hlen, hreads⟩ := h
  rw [← toNat_offset hfits] at hlen hreads
  cases s with
  | int signed width =>
      cases signed with
      | true =>
          have hint := integerAt_width (BitVec.signExtend 32) width hlen hreads
          exact congrArg (Option.map _) hint
      | false =>
          have hint := integerAt_width (BitVec.setWidth 32) width hlen hreads
          exact congrArg (Option.map _) hint
  | float => exact congrArg (Option.map _) (map_bytesAt_word hlen hreads id)
  | double => exact congrArg (Option.map _) (map_bytesAt_word hlen hreads tgt.doubleToFloat)
  | bool =>
      have hbyte : bytesAt buf (base + (UInt16.ofNat offset).toNat) 1 =
          some [if v then 1 else 0] := (if_pos hlen).trans (congrArg some hreads)
      have hbool : boolAt tgt buf (base + (UInt16.ofNat offset).toNat) = some v := by
        rw [boolAt, hbyte, Option.map_some, readWord_singleton]
        cases v with
        | true => rfl
        | false => rfl
      exact congrArg (Option.map _) hbool
  | chars size => exact congrArg (Option.map _) (textAt_slice v.2.1 hlen hreads)

mutual

theorem fieldValue_struct (type : CType) {name : Bytes} {base offset : Nat} {v : type.Val}
    (hnamed : CTypeNamed type) (hfits : CTypeFits (tgt.abi hpos) type offset)
    (h : type.Holds (tgt.abi hpos) buf (base + offset) v) :
    fieldValue tgt buf (structField (tgt.abi hpos) name type offset) base =
      some (shown tgt type v) :=
  match type with
  | .scalar _ => fieldValue_scalar hfits.1 h
  | .struct members => by
      have hfresh : ∀ key, some key ∈ members.map Prod.fst → key ∉ ([] : Entries).map Prod.fst :=
        fun _ _ => List.not_mem_nil
      have hentries := entriesOf_struct members hfresh hnamed hfits.2 h
      rw [← toNat_offset hfits.1] at hentries
      exact congrArg (Option.map _) hentries

/-- The members of a struct are added to the table under their names. -/
theorem entriesOf_struct (ms : Members) {base used : Nat} {v : Vals ms} {acc : Entries}
    (hnew : ∀ name, some name ∈ ms.map Prod.fst → name ∉ acc.map Prod.fst)
    (hnamed : MembersNamed ms) (hfits : MembersFit (tgt.abi hpos) ms used)
    (h : HoldsMembers (tgt.abi hpos) buf ms base used v) :
    entriesOf tgt buf (structFields (tgt.abi hpos) ms used) base acc =
      some (acc ++ shownMembers tgt ms v) :=
  match ms with
  | [] => by rw [shownMembers, List.append_nil, structFields, entriesOf]
  | (none, _) :: ms =>
      entriesOf_struct ms (fun key hkey => hnew key (List.mem_cons_of_mem _ hkey)) hnamed hfits h
  | (some name, type) :: ms => by
      obtain ⟨hname, htype, hnames⟩ := hnamed
      have hshown : fieldValue tgt buf (structField (tgt.abi hpos) name type _) base =
          some (shown tgt type v.1) := fieldValue_struct type htype hfits.1 h.1
      have hput : rawSet acc name (shown tgt type v.1) = acc ++ [(name, shown tgt type v.1)] :=
        rawSet_of_not_mem (hnew name List.mem_cons_self) (shown_ne_nil tgt type v.1)
      rw [structFields, entriesOf, hshown, Option.bind_some, structField_fieldName, hput,
        entriesOf_struct ms ?_ hnames hfits.2 h.2, shownMembers, List.append_assoc]
      · rfl
      · intro other hother hmem
        rw [List.map_append, List.mem_append] at hmem
        obtain hold | hhere := hmem
        · exact hnew other (List.mem_cons_of_mem _ hother) hold
        · obtain rfl := List.mem_singleton.mp hhere
          exact hname hother

end

end Shown

section Stored

variable {tgt : Target} {align : Nat → Nat} {hpos : ∀ size, 0 < align size}

theorem integerCells_width (width : IntWidth) (i : LuaInteger) :
    integerCells tgt (UInt8.ofNat width.bytes) i =
      writeWord tgt.order width.bytes (i.signExtend (8 * width.bytes)) := by
  cases width with
  | four => exact congrArg (writeWord tgt.order 4) (BitVec.signExtend_eq i).symm
  | _ => rfl

/-- What the table gives for a member is written in its place. -/
theorem fieldWrites_scalar {s : Scalar} {name : Bytes} {base offset : Nat} {x : Value} {v : s.Val}
    (hfits : offset < 65536 ∧ s.sizeof < 256) (h : GivesScalar tgt s x v) :
    fieldWrites tgt (luaMsgField name offset s.sizeof (fieldType s)) x base =
      .ok [⟨base + offset, s.cells (tgt.abi hpos) v⟩] := by
  have hcells {cells : Bytes} (hc : cells = s.cells (tgt.abi hpos) v) :
      (Except.ok [⟨base + (UInt16.ofNat offset).toNat, cells⟩] :
        Except LuaError (List (Write UInt8))) =
        .ok [⟨base + offset, s.cells (tgt.abi hpos) v⟩] := by
    rw [toNat_offset hfits.1, hc]
  cases s with
  | int signed width =>
      obtain ⟨i, hi, rfl⟩ := h
      have hword : integerCells tgt (UInt8.ofNat width.bytes) ((tgt.toInteger? x).getD 0) =
          writeWord tgt.order width.bytes (i.signExtend (8 * width.bytes)) := by
        rw [hi, Option.getD_some, integerCells_width]
      cases signed with
      | true => exact hcells hword
      | false => exact hcells hword
  | float =>
      have hnumber : (tgt.toNumber? x).getD 0 = v := by rw [h, Option.getD_some]
      exact hcells (congrArg (numberCells tgt 4) hnumber)
  | double =>
      obtain ⟨n, hn, rfl⟩ := h
      have hnumber : (tgt.toNumber? x).getD 0 = n := by rw [hn, Option.getD_some]
      exact hcells (congrArg (numberCells tgt 8) hnumber)
  | bool =>
      obtain rfl := h
      exact hcells (boolCells_eq x.toBoolean)
  | chars size =>
      obtain ⟨text, htext, hv⟩ := h
      have hsize : (UInt8.ofNat size).toNat = size := toNat_size hfits.2
      have hlt := v.2.1
      have hroom : 1 ≤ (UInt8.ofNat size).toNat := by omega
      have hbuf := stringBufCells_eq hroom text
      rw [hsize, ← hv] at hbuf
      simp only [luaMsgField, fieldType, fieldWrites, htext]
      exact hcells hbuf

mutual

theorem fieldWrites_struct (type : CType) {name : Bytes} {base offset : Nat} {x : Value}
    {v : type.Val} (hfits : CTypeFits (tgt.abi hpos) type offset) (h : Gives tgt type x v) :
    fieldWrites tgt (structField (tgt.abi hpos) name type offset) x base =
      .ok (type.writes (tgt.abi hpos) (base + offset) v) :=
  match type with
  | .scalar _ => fieldWrites_scalar hfits h
  | .struct members => by
      have hwrites : tableWrites tgt (structFields (tgt.abi hpos) members 0) x
          (base + (UInt16.ofNat offset).toNat) =
            .ok (writesMembers (tgt.abi hpos) members (base + offset) 0 v) := by
        rw [toNat_offset hfits.1]
        exact tableWrites_struct members hfits.2 h
      exact hwrites

theorem tableWrites_struct (ms : Members) {base used : Nat} {x : Value} {v : Vals ms}
    (hfits : MembersFit (tgt.abi hpos) ms used) (h : GivesMembers tgt ms x v) :
    tableWrites tgt (structFields (tgt.abi hpos) ms used) x base =
      .ok (writesMembers (tgt.abi hpos) ms base used v) :=
  match ms with
  | [] => by rw [structFields, tableWrites, writesMembers]
  | (none, _) :: ms => tableWrites_struct ms hfits h
  | (some name, type) :: ms => by
      obtain ⟨⟨y, hy, hne, hgives⟩, hrest⟩ := h
      have hnil : ¬ y.isNil = true := fun hnil => hne ((Value.isNil_iff y).mp hnil)
      rw [structFields, tableWrites, structField_fieldName, hy]
      simp only [bind, Except.bind, pure, Except.pure, if_neg hnil]
      rw [fieldWrites_struct type hfits.1 hgives]
      simp only
      rw [tableWrites_struct ms hfits.2 hrest, writesMembers]

end

mutual

/-- The decoder does not leave the struct. -/
theorem fieldFits_struct (type : CType) {name : Bytes} {base offset n : Nat} (v : type.Val)
    (hfits : CTypeFits (tgt.abi hpos) type offset)
    (h : base + offset + type.sizeof (tgt.abi hpos) ≤ n) :
    FieldFits tgt (structField (tgt.abi hpos) name type offset) base n :=
  match type with
  | .scalar s => by
      have hoff := toNat_offset hfits.1
      have hsize : (UInt8.ofNat s.sizeof).toNat = s.sizeof := toNat_size hfits.2
      change base + offset + s.sizeof ≤ n at h
      cases s with
      | int signed width =>
          have hwidth : storeWidth tgt .int (UInt8.ofNat width.bytes) = width.bytes := by
            cases width with
            | _ => rfl
          cases signed with
          | true => exact (congrArg₂ (base + · + ·) hoff hwidth).trans_le h
          | false => exact (congrArg₂ (base + · + ·) hoff hwidth).trans_le h
      | chars size =>
          have hlt := v.2.1
          have hsize' : (UInt8.ofNat size).toNat = size := hsize
          have hroom : UInt8.ofNat size ≠ 0 := by
            intro hzero
            have hnone : (UInt8.ofNat size).toNat = 0 := congrArg UInt8.toNat hzero
            omega
          exact ⟨hroom, (congrArg₂ (base + · + ·) hoff hsize).trans_le h⟩
      | _ => exact (congrArg (base + · + _) hoff).trans_le h
  | .struct members => by
      have hoff := toNat_offset hfits.1
      have hend := endof_le_sizeof (tgt.abi hpos) members
      have hsub : Fits tgt (structFields (tgt.abi hpos) members 0)
          (base + (UInt16.ofNat offset).toNat) n := by
        rw [hoff]
        exact fits_struct members v hfits.2 (by omega)
      exact hsub

theorem fits_struct (ms : Members) {base used n : Nat} (v : Vals ms)
    (hfits : MembersFit (tgt.abi hpos) ms used) (h : base + endof (tgt.abi hpos) ms used ≤ n) :
    Fits tgt (structFields (tgt.abi hpos) ms used) base n :=
  match ms with
  | [] => trivial
  | (none, _) :: ms => fits_struct ms v hfits h
  | (some _, type) :: ms => by
      have hend := le_endof (tgt.abi hpos) ms
        (type.offsetof (tgt.abi hpos) used + type.sizeof (tgt.abi hpos))
      rw [endof_cons] at h
      exact ⟨fieldFits_struct type v.1 hfits.1 (by omega), fits_struct ms v.2 hfits.2 h⟩

end

end Stored

section Kept

variable {tgt : Target}

theorem givesScalar_shown_iff {s : Scalar} {v w : s.Val} :
    GivesScalar tgt s (shownScalar tgt s v) w ↔ w = keptScalar tgt s v := by
  have hsome {α : Type} {a : α} {p : α → Prop} : (∃ b, some a = some b ∧ p b) ↔ p a := by simp
  cases s with
  | int signed width =>
      cases signed with
      | true => exact hsome
      | false => exact hsome
  | float => exact ⟨fun h => (Option.some.inj h).symm, fun h => congrArg some h.symm⟩
  | double => exact hsome
  | bool => exact Iff.rfl
  | chars size =>
      obtain ⟨text, hlt, hnul⟩ := v
      have hself : (CString.text text).take (size - 1) = text := by
        rw [CString.text_eq_self_iff.mpr hnul]
        exact List.take_of_length_le (by omega)
      constructor
      · rintro ⟨text', htext, hw⟩
        obtain rfl := Option.some.inj htext
        exact Subtype.ext (hw.trans hself)
      · rintro rfl
        exact ⟨text, rfl, hself.symm⟩

/-- Only the lookups of the members matter. -/
theorem givesMembers_congr (ms : Members) {x y : Value} {v : Vals ms}
    (h : ∀ name, some name ∈ ms.map Prod.fst → tgt.index x name = tgt.index y name) :
    GivesMembers tgt ms x v ↔ GivesMembers tgt ms y v :=
  match ms with
  | [] => Iff.rfl
  | (none, _) :: ms =>
      givesMembers_congr ms fun other hother => h other (List.mem_cons_of_mem _ hother)
  | (some name, type) :: ms => by
      have hhere := h name List.mem_cons_self
      have hrest : GivesMembers tgt ms x v.2 ↔ GivesMembers tgt ms y v.2 :=
        givesMembers_congr ms fun other hother => h other (List.mem_cons_of_mem _ hother)
      rw [GivesMembers, GivesMembers, hhere, hrest]

mutual

/-- A table gives back what it shows: nothing else can be stored from it. -/
theorem gives_shown_iff (type : CType) (hnamed : CTypeNamed type) {v w : type.Val} :
    Gives tgt type (shown tgt type v) w ↔ w = kept tgt type v :=
  match type with
  | .scalar _ => givesScalar_shown_iff
  | .struct members => givesMembers_shown_iff members hnamed

theorem givesMembers_shown_iff (ms : Members) (hnamed : MembersNamed ms) {v w : Vals ms} :
    GivesMembers tgt ms (.table (shownMembers tgt ms v) none) w ↔
      w = keptMembers tgt ms v :=
  match ms with
  | [] => ⟨fun _ => rfl, fun _ => trivial⟩
  | (none, _) :: ms => givesMembers_shown_iff ms hnamed
  | (some name, type) :: ms => by
      obtain ⟨hname, htype, hnames⟩ := hnamed
      let entries := shownMembers tgt ((some name, type) :: ms) v
      have hhere : tgt.index (.table entries none) name = .ok (shown tgt type v.1) := by
        rw [Target.index_table]
        exact congrArg Except.ok ((rawGet_cons _ _ _ _).trans (if_pos rfl))
      have hskip : GivesMembers tgt ms (.table entries none) w.2 ↔
          GivesMembers tgt ms (.table (shownMembers tgt ms v.2) none) w.2 := by
        refine givesMembers_congr ms fun other hother => ?_
        have hne : name ≠ other := fun heq => hname (heq ▸ hother)
        rw [Target.index_table, Target.index_table]
        exact congrArg Except.ok ((rawGet_cons _ _ _ _).trans (if_neg hne))
      change (∃ y, tgt.index (.table entries none) name = .ok y ∧ y ≠ .nil ∧
        Gives tgt type y w.1) ∧ GivesMembers tgt ms (.table entries none) w.2 ↔ _
      rw [hskip, givesMembers_shown_iff ms hnames, hhere]
      constructor
      · rintro ⟨⟨y, hy, -, hgives⟩, hrest⟩
        obtain rfl := Except.ok.inj hy
        exact Prod.ext ((gives_shown_iff type htype).mp hgives) hrest
      · rintro rfl
        exact ⟨⟨_, rfl, shown_ne_nil tgt type v.1, (gives_shown_iff type htype).mpr rfl⟩, rfl⟩

end

end Kept

section Conversions

variable {β : Type} (tgt : Target) {align : Nat → Nat} {hpos : ∀ size, 0 < align size}
variable {members : Members} {s : State β} {block base : Nat} {buf : Bytes} {v : Vals members}

/-- `lua_msg_descr_to_table` on a message that holds a value of the struct. -/
theorem wp_luaMsgDescrToTable_struct (hnamed : MembersNamed members)
    (hfits : MembersFit (tgt.abi hpos) members 0) (hblock : s.heap.blocks block = some buf)
    (h : HoldsMembers (tgt.abi hpos) buf members base 0 v) :
    wp (luaMsgDescrToTable tgt (luaZbusMsgDescr (tgt.abi hpos) members).fields ⟨block, base⟩)
      (fun _ t => t.stack = shown tgt (.struct members) v :: s.stack ∧ s.Untouched t)
      (fun e t => (e = .error .memory ∧ ¬ NoFail s.apiFails s.apiCalls (1 + encodeCost tgt buf
          (luaZbusMsgDescr (tgt.abi hpos) members).fields base)) ∧ s.Untouched t) s := by
  have htable : messageTable tgt (structFields (tgt.abi hpos) members 0) buf base =
      some (shown tgt (.struct members) v) := by
    have hfresh : ∀ key, some key ∈ members.map Prod.fst → key ∉ ([] : Entries).map Prod.fst :=
      fun _ _ => List.not_mem_nil
    rw [messageTable, entriesOf_struct members hfresh hnamed hfits h]
    rfl
  apply (luaMsgDescrToTable_encodes tgt _ base s hblock).mono
  · rintro _ t ⟨hstack, hu, -⟩
    rw [luaZbusMsgDescr, htable, Option.map_some] at hstack
    exact ⟨(Option.some.inj hstack).symm, hu⟩
  · rintro e t ⟨hu, ⟨he, hfail⟩ | ⟨-, hnone⟩⟩
    · exact ⟨⟨he, hfail⟩, hu⟩
    · rw [luaZbusMsgDescr, htable] at hnone
      contradiction

/-- `lua_msg_descr_from_table` on a table that gives a value of the struct. -/
theorem wp_luaMsgDescrFromTable_struct (hfits : MembersFit (tgt.abi hpos) members 0)
    (hblock : s.heap.blocks block = some buf)
    (hroom : base + (CType.struct members).sizeof (tgt.abi hpos) ≤ buf.length) {idx : Int}
    {x : Value} (hidx : 0 < idx) (hx : valueAt s.stack idx = some x)
    (h : GivesMembers tgt members x v) :
    wp (luaMsgDescrFromTable tgt (luaZbusMsgDescr (tgt.abi hpos) members).fields ⟨block, base⟩ idx)
      (fun _ t => t.stack = s.stack ∧ ∃ buf', s.Stored t block buf' ∧ buf'.length = buf.length ∧
        HoldsMembers (tgt.abi hpos) buf' members base 0 v ∧
        ∀ i, ¬ MembersOwn (tgt.abi hpos) members base 0 i → buf'[i]? = buf[i]?)
      (fun e _ => e = .error .memory ∧ ¬ NoFail s.apiFails s.apiCalls
        (decodeCost tgt (luaZbusMsgDescr (tgt.abi hpos) members).fields x)) s := by
  have hend := endof_le_sizeof (tgt.abi hpos) members
  have hlast : base + endof (tgt.abi hpos) members 0 ≤ buf.length := by omega
  have hwrites : tableWrites tgt (structFields (tgt.abi hpos) members 0) x base =
      .ok (writesMembers (tgt.abi hpos) members base 0 v) := tableWrites_struct members hfits h
  apply (luaMsgDescrFromTable_decodes tgt _ base idx x s hblock hidx hx).mono
  · rintro _ t ⟨ws, hws, hlen, hstack, ht, -⟩
    rw [luaZbusMsgDescr, hwrites] at hws
    obtain rfl := Except.ok.inj hws
    refine ⟨hstack, _, ht, hlen, holdsMembers_putAll members v hlast, fun i hi => ?_⟩
    exact getElem?_putAll_writesMembers v hlast hi
  · rintro e t ⟨-, ⟨he, hfail⟩ | ⟨err, -, herr⟩ | ⟨-, hout⟩⟩
    · exact ⟨he, hfail⟩
    · rw [luaZbusMsgDescr, hwrites] at herr
      contradiction
    · exact absurd (fits_struct members v hfits hlast) hout

/-- In both directions a conversion is exact: a struct is shown as the table of its
members, a table that gives a value of every member is stored as these values without
touching the padding, and from the table it was shown as a struct gets its value back up to
what a 32-bit Lua keeps of it. A conversion raises only when one of its own allocating calls runs
out of memory. -/
theorem structConversions (hnamed : MembersNamed members)
    (hfits : MembersFit (tgt.abi hpos) members 0) (hblock : s.heap.blocks block = some buf) :
    (∀ v, HoldsMembers (tgt.abi hpos) buf members base 0 v →
      wp (luaMsgDescrToTable tgt (luaZbusMsgDescr (tgt.abi hpos) members).fields ⟨block, base⟩)
        (fun _ t => t.stack = shown tgt (.struct members) v :: s.stack ∧ s.Untouched t)
        (fun e t => (e = .error .memory ∧ ¬ NoFail s.apiFails s.apiCalls (1 + encodeCost tgt buf
            (luaZbusMsgDescr (tgt.abi hpos) members).fields base)) ∧ s.Untouched t) s) ∧
    (base + (luaZbusMsgDescr (tgt.abi hpos) members).msgSize ≤ buf.length →
      ∀ (idx : Int) x v, 0 < idx → valueAt s.stack idx = some x → GivesMembers tgt members x v →
        wp (luaMsgDescrFromTable tgt (luaZbusMsgDescr (tgt.abi hpos) members).fields
            ⟨block, base⟩ idx)
          (fun _ t => t.stack = s.stack ∧ ∃ buf', s.Stored t block buf' ∧
            buf'.length = buf.length ∧ HoldsMembers (tgt.abi hpos) buf' members base 0 v ∧
            ∀ i, ¬ MembersOwn (tgt.abi hpos) members base 0 i → buf'[i]? = buf[i]?)
          (fun e _ => e = .error .memory ∧ ¬ NoFail s.apiFails s.apiCalls
            (decodeCost tgt (luaZbusMsgDescr (tgt.abi hpos) members).fields x)) s) ∧
    ∀ v w, (GivesMembers tgt members (shown tgt (.struct members) v) w ↔
      w = keptMembers tgt members v) ∧
      (MembersNarrow members → keptMembers tgt members v = v) :=
  ⟨fun _ h => wp_luaMsgDescrToTable_struct tgt hnamed hfits hblock h,
    fun hroom _ _ _ hidx hx h => wp_luaMsgDescrFromTable_struct tgt hfits hblock hroom hidx hx h,
    fun v _ => ⟨givesMembers_shown_iff members hnamed, fun h => keptMembers_eq tgt members h v⟩⟩

end Conversions

/-- `{ sensor_id = 42, offset = { x = 1, y = 2, z = 3 } }` as a struct. -/
def sensorConfigVal : Vals sensorConfigMembers := (42#32, (1#32, 2#32, 3#32, ()), ())

def sensorConfigMessage : Bytes :=
  [42, 0, 0, 0] ++ [1, 9, 9, 9] ++ [1, 0, 0, 0, 2, 0, 0, 0, 3, 0, 0, 0]

/-- The message of the sample, its presence flag and padding aside, is shown as its table. -/
theorem structConversions_sensorConfig :
    wp (luaMsgDescrToTable Target.sample msgSensorConfigFields ⟨0, 0⟩)
      (fun _ t => t.stack = [.table [(ascii "sensor_id", .integer 42),
        (ascii "offset", .table [(ascii "x", .integer 1), (ascii "y", .integer 2),
          (ascii "z", .integer 3)] none)] none])
      (fun _ _ => False)
      { State.idle 0 () with heap :=
        ⟨fun p => if p = 0 then some sensorConfigMessage else none, 1, fun _ => none⟩ } := by
  have hnamed : MembersNamed sensorConfigMembers :=
    ⟨by decide, trivial, ⟨by decide, ⟨by decide, trivial, by decide, trivial, by decide, trivial,
      trivial⟩, trivial⟩⟩
  have hholds : HoldsMembers (Target.sample.abi wordAlign_pos) sensorConfigMessage
      sensorConfigMembers 0 0 sensorConfigVal :=
    ⟨⟨by decide, rfl⟩, ⟨⟨by decide, rfl⟩, ⟨by decide, rfl⟩, ⟨by decide, rfl⟩, trivial⟩, trivial⟩
  refine ((structConversions Target.sample hnamed fits_sensorConfig rfl).1 _ hholds).mono ?_ ?_
  · rintro _ t ⟨hstack, -⟩
    exact hstack
  · rintro e t ⟨⟨-, hfail⟩, -⟩
    exact hfail (noFail_never _ _)

end LuaZephyr
