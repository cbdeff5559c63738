import LuaZephyr.MsgDescr.Shown

/-!
# Normal forms of tables

A table that supplies every described leaf is read back from a message in a normal
form: integers wrapped into their field and then into a `lua_Integer`, strings cut
at the first NUL and at the capacity of their buffer, undescribed keys dropped.

The normal form is that of the target, with its byte order and the width of `lua_Integer`.
Leaves that the table does not supply are not in it, and neither are keys that no field has: the
two ways in which a table can come back with less or more.
-/

namespace LuaZephyr

open Words Patch

/-- A `lua_Integer` wrapped into a signed field of `size` bytes and read back. -/
def wrapSigned (size : UInt8) (n : LuaInteger) : LuaInteger :=
  BitVec.ofInt 32 (n.toInt.bmod (2 ^ (8 * size.toNat)))

/-- The same for an unsigned field. -/
def wrapUnsigned (size : UInt8) (n : LuaInteger) : LuaInteger :=
  BitVec.ofInt 32 (n.toInt % 2 ^ (8 * size.toNat))

/-- What a STRING_BUF of `size` bytes keeps of a string. -/
def cutString (size : UInt8) (s : Bytes) : Bytes := (CString.text s).take (size.toNat - 1)

variable (tgt : Target)

/-- The field of a value, nil where there is none. -/
def fieldOf (t : Value) (key : Bytes) : Value :=
  match tgt.index t key with
  | .ok v => v
  | .error _ => .nil

mutual

/-- The field has a value of the kind its type asks for. -/
def FieldConforms : LuaMsgFieldDescr → Value → Prop
  | ⟨_, type, _, _, subFields⟩, v =>
    match type with
    | .int | .uint => ∃ n, v = .integer n
    | .bool => ∃ b, v = .boolean b
    | .stringBuf => ∃ s, v = .string s
    | .object => (∃ es mt, v = .table es mt) ∧ Conforms subFields v
    | .number | .string => False

/-- Every described leaf is there, with a value of its kind. -/
def Conforms : List LuaMsgFieldDescr → Value → Prop
  | [], _ => True
  | f :: fs, t => (∃ v, tgt.index t f.fieldName = .ok v ∧ FieldConforms f v) ∧ Conforms fs t

end

mutual

def normField : LuaMsgFieldDescr → Value → Value
  | ⟨_, type, _, size, subFields⟩, v =>
    match type, v with
    | .int, .integer n => .integer (wrapSigned size n)
    | .uint, .integer n => .integer (wrapUnsigned size n)
    | .bool, .boolean b => .boolean b
    | .stringBuf, .string s => .string (cutString size s)
    | .object, t => .table (normEntries subFields t) none
    | _, _ => .nil

def normEntries : List LuaMsgFieldDescr → Value → Entries
  | [], _ => []
  | f :: fs, t => (f.fieldName, normField f (fieldOf tgt t f.fieldName)) :: normEntries fs t

end

/-- The normal form of a table under a descriptor. -/
def normTable (fields : List LuaMsgFieldDescr) (t : Value) : Value :=
  .table (normEntries tgt fields t) none

variable {tgt}

theorem wrapSigned_eq (size : UInt8) (n : LuaInteger) :
    wrapSigned size n = (n.signExtend (8 * size.toNat)).signExtend 32 := by
  rw [wrapSigned, BitVec.signExtend, BitVec.signExtend, BitVec.toInt_ofInt]

theorem wrapUnsigned_eq (size : UInt8) (n : LuaInteger) :
    wrapUnsigned size n = (n.signExtend (8 * size.toNat)).setWidth 32 := by
  have hpow : (0 : Int) < 2 ^ (8 * size.toNat) := Int.pow_pos (by decide)
  have hnonneg := Int.emod_nonneg n.toInt (Int.ne_of_gt hpow)
  obtain ⟨k, hk⟩ := Int.eq_ofNat_of_zero_le hnonneg
  apply BitVec.eq_of_toNat_eq
  rw [wrapUnsigned, BitVec.toNat_setWidth, BitVec.signExtend, BitVec.toNat_ofInt,
    BitVec.toNat_ofInt]
  push_cast
  rw [hk]
  norm_cast

theorem wrapSigned_wrapSigned (size : UInt8) (n : LuaInteger) :
    wrapSigned size (wrapSigned size n) = wrapSigned size n := by
  rw [wrapSigned_eq, wrapSigned_eq]
  obtain hle | hle := Nat.le_total (8 * size.toNat) 32
  · rw [signExtend_signExtend_self hle]
  · rw [signExtend_signExtend_self hle n, signExtend_signExtend_self hle n]

theorem wrapUnsigned_wrapUnsigned (size : UInt8) (n : LuaInteger) :
    wrapUnsigned size (wrapUnsigned size n) = wrapUnsigned size n := by
  rw [wrapUnsigned_eq, wrapUnsigned_eq]
  obtain hle | hle := Nat.le_total (8 * size.toNat) 32
  · rw [setWidth_signExtend_self hle]
  · have hself : (n.signExtend (8 * size.toNat)).setWidth 32 = n := by
      rw [← BitVec.signExtend_eq_setWidth_of_le _ hle, signExtend_signExtend_self hle]
    rw [hself, hself]

theorem cutString_cutString (size : UInt8) (s : Bytes) :
    cutString size (cutString size s) = cutString size s := by
  have htext : CString.text ((CString.text s).take (size.toNat - 1)) =
      (CString.text s).take (size.toNat - 1) :=
    CString.text_eq_self (fun b hb => CString.ne_zero_of_mem_text (List.mem_of_mem_take hb))
  rw [cutString, cutString, htext, List.take_take, Nat.min_self]

/-- A write still in place is what is read there. -/
theorem bytesAt_of_holds {buf cells : Bytes} {off k : Nat} (h : Holds buf [⟨off, cells⟩])
    (hk : cells.length = k) : bytesAt buf off k = some cells := by
  obtain ⟨hstop, hslice⟩ := h _ (List.mem_singleton_self _)
  subst hk
  rw [bytesAt_eq hstop]
  exact congrArg some hslice

theorem integerAt_of_holds {extend : {w : Nat} → BitVec w → LuaInteger}
    {buf : Bytes} {off : Nat} {size : UInt8} {n : LuaInteger} (hsize : size.toNat ∈ [1, 2, 4, 8])
    (h : Holds buf [⟨off, integerCells tgt size n⟩]) :
    integerAt tgt extend buf off size = some (extend (n.signExtend (8 * size.toNat))) := by
  have hcases : size = 1 ∨ size = 2 ∨ size = 4 ∨ size = 8 := by
    simpa [← UInt8.toNat_inj] using hsize
  obtain rfl | rfl | rfl | rfl := hcases
  · have hbytes : bytesAt buf off 1 = some (writeWord tgt.order 1 (n.signExtend 8)) :=
      bytesAt_of_holds h (length_writeWord _ _ _)
    change (bytesAt buf off 1).map (fun bs => extend (readWord tgt.order 8 bs)) = _
    rw [hbytes, Option.map_some, readWord_writeWord _ (show 8 = 8 * 1 from rfl)]
    rfl
  · have hbytes : bytesAt buf off 2 = some (writeWord tgt.order 2 (n.signExtend 16)) :=
      bytesAt_of_holds h (length_writeWord _ _ _)
    change (bytesAt buf off 2).map (fun bs => extend (readWord tgt.order 16 bs)) = _
    rw [hbytes, Option.map_some, readWord_writeWord _ (show 16 = 8 * 2 from rfl)]
    rfl
  · have hbytes : bytesAt buf off 4 = some (writeWord tgt.order 4 n) :=
      bytesAt_of_holds h (length_writeWord _ _ _)
    change (bytesAt buf off 4).map (fun bs => extend (readWord tgt.order 32 bs)) =
      some (extend (n.signExtend 32))
    rw [hbytes, Option.map_some, readWord_writeWord _ (show 32 = 8 * 4 from rfl),
      BitVec.signExtend_eq]
  · have hbytes : bytesAt buf off 8 = some (writeWord tgt.order 8 (n.signExtend 64)) :=
      bytesAt_of_holds h (length_writeWord _ _ _)
    change (bytesAt buf off 8).map (fun bs => extend (readWord tgt.order 64 bs)) = _
    rw [hbytes, Option.map_some, readWord_writeWord _ (show 64 = 8 * 8 from rfl)]
    rfl

theorem boolAt_of_holds {buf : Bytes} {off : Nat} {b : Bool}
    (h : Holds buf [⟨off, boolCells tgt b⟩]) : boolAt tgt buf off = some b := by
  rw [boolAt, bytesAt_of_holds h (length_boolCells tgt b), Option.map_some, boolCells,
    readWord_writeWord _ (show 8 = 8 * 1 from rfl)]
  cases b <;> rfl

theorem textAt_of_holds {buf : Bytes} {off : Nat} {size : UInt8} {s : Bytes}
    (h : Holds buf [⟨off, stringBufCells size s⟩]) :
    textAt buf off = some (cutString size s) := by
  obtain ⟨-, hslice⟩ := h _ (List.mem_singleton_self _)
  have hnul : 0 ∈ slice buf off (stringBufCells size s).length := by
    rw [show slice buf off _ = stringBufCells size s from hslice]
    exact List.mem_append_right _ (List.mem_singleton_self 0)
  rw [textAt_eq hnul, show slice buf off _ = stringBufCells size s from hslice, stringBufCells,
    CString.text_strncpy_zero]
  rfl

mutual

theorem FieldConforms.writes {f : LuaMsgFieldDescr} {v : Value} (h : FieldConforms tgt f v)
    (base : Nat) : ∃ ws, fieldWrites tgt f v base = .ok ws := by
  obtain ⟨name, type, offset, size, subFields⟩ := f
  cases type with
  | stringBuf =>
      obtain ⟨s, rfl⟩ := h
      exact ⟨_, rfl⟩
  | object => exact Conforms.writes h.2 (base + offset.toNat)
  | _ => exact ⟨_, rfl⟩

/-- A conforming table is written without an error. -/
theorem Conforms.writes {fs : List LuaMsgFieldDescr} {t : Value} (h : Conforms tgt fs t)
    (base : Nat) : ∃ ws, tableWrites tgt fs t base = .ok ws := by
  cases fs with
  | nil => exact ⟨[], rfl⟩
  | cons f fs =>
      obtain ⟨⟨v, hv, hf⟩, hfs⟩ := h
      obtain ⟨here, hhere⟩ := hf.writes base
      obtain ⟨rest, hrest⟩ := hfs.writes base
      rw [tableWrites_cons, hv]
      simp only [bind, Except.bind, hrest]
      cases hnil : v.isNil with
      | true => exact ⟨rest, by rw [entryWrites, hnil]; rfl⟩
      | false => exact ⟨here ++ rest, by rw [entryWrites, hnil]; simp [hhere, pure, Except.pure]⟩

end

theorem FieldConforms.ne_nil {f : LuaMsgFieldDescr} {v : Value} (h : FieldConforms tgt f v) :
    v ≠ .nil := by
  obtain ⟨name, type, offset, size, subFields⟩ := f
  rintro rfl
  cases type <;> simp [FieldConforms] at h

mutual

/-- A field whose writes are still in place is shown in its normal form. -/
theorem fieldValue_of_holds {f : LuaMsgFieldDescr} {n : Nat} (h : FieldWellFormed f n)
    {v : Value} (hv : FieldConforms tgt f v) {base : Nat} {ws : List (Write UInt8)}
    (hws : fieldWrites tgt f v base = .ok ws) {buf : Bytes} (hholds : Holds buf ws) :
    fieldValue tgt buf f base = some (normField tgt f v) := by
  obtain ⟨name, type, offset, size, subFields⟩ := f
  obtain ⟨hrange, htype⟩ := h
  cases type with
  | int =>
      obtain ⟨n, rfl⟩ := hv
      obtain rfl := Except.ok.inj hws
      rw [fieldValue, integerAt_of_holds htype hholds, Option.map_some, normField, wrapSigned_eq]
      rfl
  | uint =>
      obtain ⟨n, rfl⟩ := hv
      obtain rfl := Except.ok.inj hws
      rw [fieldValue, integerAt_of_holds htype hholds, Option.map_some, normField, wrapUnsigned_eq]
      rfl
  | number => exact htype.elim
  | string => exact htype.elim
  | stringBuf =>
      obtain ⟨s, rfl⟩ := hv
      obtain rfl := Except.ok.inj hws
      rw [fieldValue, textAt_of_holds hholds]
      rfl
  | bool =>
      obtain ⟨b, rfl⟩ := hv
      obtain rfl := Except.ok.inj hws
      rw [fieldValue, boolAt_of_holds hholds]
      cases b <;> rfl
  | object =>
      have hsub : WellFormed subFields size.toNat := htype
      rw [fieldValue, hsub.entriesOf_eq, shownEntries_of_holds hsub hv.2 hws hholds]
      rfl

/-- A table whose writes are still in place is read back in its normal form. -/
theorem shownEntries_of_holds {fs : List LuaMsgFieldDescr} {n : Nat} (h : WellFormed fs n)
    {t : Value} (ht : Conforms tgt fs t) {base : Nat} {ws : List (Write UInt8)}
    (hws : tableWrites tgt fs t base = .ok ws) {buf : Bytes} (hholds : Holds buf ws) :
    shownEntries tgt buf fs base = some (normEntries tgt fs t) := by
  cases fs with
  | nil => rfl
  | cons f fs =>
      obtain ⟨⟨v, hv, hf⟩, hfs⟩ := ht
      obtain ⟨w, here, rest, hw, hhere, hrest, rfl⟩ := tableWrites_cons_ok tgt hws
      obtain rfl := Except.ok.inj (hv.symm.trans hw)
      obtain ⟨hholds, hholds'⟩ := holds_append.mp hholds
      have hfield : fieldOf tgt t f.fieldName = v := by rw [fieldOf, hv]
      have hhere' : fieldWrites tgt f v base = .ok here := by
        rw [entryWrites, if_neg] at hhere
        · exact hhere
        · simpa using hf.ne_nil
      rw [shownEntries, fieldValue_of_holds h.1 hf hhere' hholds,
        shownEntries_of_holds h.2.2 hfs hrest hholds', normEntries, hfield]
      rfl

end

theorem normEntries_rawGet {fs : List LuaMsgFieldDescr} (hnames : (fs.map (·.fieldName)).Nodup)
    (t : Value) {f : LuaMsgFieldDescr} (hf : f ∈ fs) :
    rawGet (normEntries tgt fs t) f.fieldName =
      normField tgt f (fieldOf tgt t f.fieldName) := by
  induction fs with
  | nil => simp at hf
  | cons g fs ih =>
      obtain ⟨hname, hnames⟩ := List.nodup_cons.mp hnames
      obtain rfl | hf := List.mem_cons.mp hf
      · rw [normEntries, rawGet_cons, if_pos rfl]
      · have hne : g.fieldName ≠ f.fieldName := fun heq =>
          hname (List.mem_map.mpr ⟨f, hf, heq.symm⟩)
        rw [normEntries, rawGet_cons, if_neg hne, ih hnames hf]

mutual

theorem FieldConforms.norm {f : LuaMsgFieldDescr} {n : Nat} (h : FieldWellFormed f n) {v : Value}
    (hv : FieldConforms tgt f v) : FieldConforms tgt f (normField tgt f v) ∧
      normField tgt f (normField tgt f v) = normField tgt f v := by
  obtain ⟨name, type, offset, size, subFields⟩ := f
  obtain ⟨hrange, htype⟩ := h
  cases type with
  | int =>
      obtain ⟨n, rfl⟩ := hv
      exact ⟨⟨_, rfl⟩, congrArg Value.integer (wrapSigned_wrapSigned size n)⟩
  | uint =>
      obtain ⟨n, rfl⟩ := hv
      exact ⟨⟨_, rfl⟩, congrArg Value.integer (wrapUnsigned_wrapUnsigned size n)⟩
  | number => exact htype.elim
  | string => exact htype.elim
  | stringBuf =>
      obtain ⟨s, rfl⟩ := hv
      exact ⟨⟨_, rfl⟩, congrArg Value.string (cutString_cutString size s)⟩
  | bool =>
      obtain ⟨b, rfl⟩ := hv
      exact ⟨⟨_, rfl⟩, rfl⟩
  | object =>
      have hsub : WellFormed subFields size.toNat := htype
      obtain ⟨hconf, heq⟩ := Conforms.norm_of_rawGet hsub hv.2
        (fun g hg => normEntries_rawGet hsub.names v hg)
      exact ⟨⟨⟨_, _, rfl⟩, hconf⟩, congrArg (Value.table · none) heq⟩

theorem Conforms.norm_of_rawGet {fs : List LuaMsgFieldDescr} {n : Nat} (h : WellFormed fs n)
    {t : Value} (ht : Conforms tgt fs t) {es : Entries}
    (hes : ∀ f ∈ fs, rawGet es f.fieldName = normField tgt f (fieldOf tgt t f.fieldName)) :
    Conforms tgt fs (.table es none) ∧
      normEntries tgt fs (.table es none) = normEntries tgt fs t := by
  cases fs with
  | nil => exact ⟨trivial, rfl⟩
  | cons f fs =>
      obtain ⟨⟨v, hv, hf⟩, hfs⟩ := ht
      obtain ⟨hconf, heq⟩ := hf.norm h.1
      obtain ⟨hconf', heq'⟩ :=
        hfs.norm_of_rawGet h.2.2 (fun g hg => hes g (List.mem_cons_of_mem _ hg))
      have hget := hes f (List.mem_cons_self ..)
      have hfield : fieldOf tgt t f.fieldName = v := by rw [fieldOf, hv]
      rw [hfield] at hget
      refine ⟨⟨⟨_, Target.index_table tgt es f.fieldName, by rw [hget]; exact hconf⟩, hconf'⟩, ?_⟩
      have hfield' : fieldOf tgt (.table es none) f.fieldName = normField tgt f v := hget
      rw [normEntries, normEntries, hfield, hfield', heq, heq']

end

/-- The normal form conforms again. -/
theorem Conforms.normTable {fs : List LuaMsgFieldDescr} {n : Nat} (h : WellFormed fs n)
    {t : Value} (ht : Conforms tgt fs t) : Conforms tgt fs (normTable tgt fs t) :=
  (ht.norm_of_rawGet h
    (fun _ hf => normEntries_rawGet h.names t hf)).1

/-- A normal form is its own normal form. -/
theorem normTable_normTable {fs : List LuaMsgFieldDescr} {n : Nat} (h : WellFormed fs n)
    {t : Value} (ht : Conforms tgt fs t) :
    normTable tgt fs (normTable tgt fs t) = normTable tgt fs t :=
  congrArg (Value.table · none) (ht.norm_of_rawGet h
    (fun _ hf => normEntries_rawGet h.names t hf)).2

/-- Writing a conforming table into any buffer of the right length and reading the
buffer gives the normal form of the table. -/
theorem messageTable_putAll {fs : List LuaMsgFieldDescr} {n : Nat} (h : WellFormed fs n)
    {t : Value} (ht : Conforms tgt fs t) {buf : Bytes} (hlen : n ≤ buf.length)
    {ws : List (Write UInt8)} (hws : tableWrites tgt fs t 0 = .ok ws) :
    messageTable tgt fs (putAll buf ws) 0 = some (LuaZephyr.normTable tgt fs t) := by
  have hsized := WellFormed.sized h tgt.pointerSize
  have hwithin := tableWrites_within tgt (hsized.fits tgt (by omega)) hws (n := buf.length)
  have hholds := holds_putAll hwithin (tableWrites_apart hsized hws)
  rw [h.messageTable_eq, shownEntries_of_holds h ht hws hholds]
  rfl

end LuaZephyr
