import LuaZephyr.MsgDescr.Codec

/-!
# What the conversions compute

Pure readings of the two conversions, without stack or allocation. `fieldValue`
and `entriesOf` say which table a message is shown as, `fieldWrites` and
`tableWrites` which writes a table asks for; `encodeCost` and `decodeCost` count
the allocating API calls on the way. `none` stands for a read past the end of the
message, which the C code would not notice.
-/

namespace LuaZephyr

open Words Patch

variable (tgt : Target)

def bytesAt (buf : Bytes) (off n : Nat) : Option Bytes :=
  if off + n ≤ buf.length then some (slice buf off n) else none

def textAt (buf : Bytes) (off : Nat) : Option Bytes :=
  if 0 ∈ buf.drop off then some (CString.text (buf.drop off)) else none

def integerAt (extend : {w : Nat} → BitVec w → LuaInteger) (buf : Bytes) (off : Nat)
    (size : UInt8) : Option LuaInteger :=
  match size.toNat with
  | 1 => (bytesAt buf off 1).map fun bs => extend (readWord tgt.order 8 bs)
  | 2 => (bytesAt buf off 2).map fun bs => extend (readWord tgt.order 16 bs)
  | 4 => (bytesAt buf off 4).map fun bs => extend (readWord tgt.order 32 bs)
  | 8 => (bytesAt buf off 8).map fun bs => extend (readWord tgt.order 64 bs)
  | _ => some 0

def numberAt (buf : Bytes) (off : Nat) (size : UInt8) : Option LuaNumber :=
  if size = 4 then (bytesAt buf off 4).map (readWord tgt.order 32)
  else (bytesAt buf off 8).map fun bs => tgt.doubleToFloat (readWord tgt.order 64 bs)

def boolAt (buf : Bytes) (off : Nat) : Option Bool :=
  (bytesAt buf off 1).map fun bs => decide (readWord tgt.order 8 bs ≠ 0)

def pointerAt (buf : Bytes) (off : Nat) : Option Nat :=
  (bytesAt buf off tgt.pointerSize).map fun bs => digitsToNat (tgt.order.arrange bs)

/-- The value pushed for a `const char *`. -/
def stringValue (address : Nat) : Option Value :=
  if address = 0 then some .nil else (tgt.stringAt address).map .string

mutual

def fieldValue (buf : Bytes) : LuaMsgFieldDescr → Nat → Option Value
  | ⟨_, type, offset, size, subFields⟩, base =>
    let off := base + offset.toNat
    match type with
    | .int => (integerAt tgt (BitVec.signExtend 32) buf off size).map .integer
    | .uint => (integerAt tgt (BitVec.setWidth 32) buf off size).map .integer
    | .number => (numberAt tgt buf off size).map .number
    | .string => (pointerAt tgt buf off).bind (stringValue tgt)
    | .stringBuf => (textAt buf off).map .string
    | .bool => (boolAt tgt buf off).map .boolean
    | .object => (entriesOf buf subFields off []).map (.table · none)

/-- The table filled field by field, starting from `acc`. -/
def entriesOf (buf : Bytes) : List LuaMsgFieldDescr → Nat → Entries → Option Entries
  | [], _, acc => some acc
  | f :: fs, base, acc =>
      (fieldValue buf f base).bind fun v => entriesOf buf fs base (rawSet acc f.fieldName v)

end

mutual

def fieldEncodeCost (buf : Bytes) : LuaMsgFieldDescr → Nat → Nat
  | ⟨_, type, offset, _, subFields⟩, base =>
    let off := base + offset.toNat
    match type with
    | .string => if pointerAt tgt buf off = some 0 then 0 else 1
    | .stringBuf => 1
    | .object => 1 + encodeCost buf subFields off
    | _ => 0

/-- Allocating calls of the encoder's loop. -/
def encodeCost (buf : Bytes) : List LuaMsgFieldDescr → Nat → Nat
  | [], _ => 0
  | f :: fs, base => fieldEncodeCost buf f base + (1 + encodeCost buf fs base)

end

/-- The message as a Lua table. -/
def messageTable (fields : List LuaMsgFieldDescr) (buf : Bytes) (base : Nat) : Option Value :=
  (entriesOf tgt buf fields base []).map (.table · none)

def integerCells (size : UInt8) (val : LuaInteger) : Bytes :=
  match size.toNat with
  | 1 => writeWord tgt.order 1 (val.signExtend 8)
  | 2 => writeWord tgt.order 2 (val.signExtend 16)
  | 4 => writeWord tgt.order 4 val
  | 8 => writeWord tgt.order 8 (val.signExtend 64)
  | _ => []

def numberCells (size : UInt8) (val : LuaNumber) : Bytes :=
  if size = 4 then writeWord tgt.order 4 val
  else writeWord tgt.order 8 (tgt.floatToDouble val)

def pointerCells (address : Nat) : Bytes :=
  tgt.order.arrange (natToDigits tgt.pointerSize address)

def stringBufCells (size : UInt8) (s : Bytes) : Bytes :=
  CString.strncpy (size.toNat - 1) s ++ [0]

def boolCells (b : Bool) : Bytes := writeWord tgt.order 1 (BitVec.ofNat 8 b.toNat)

mutual

/-- The writes for one field and the non-nil value found under its name. -/
def fieldWrites : LuaMsgFieldDescr → Value → Nat → Except LuaError (List (Write UInt8))
  | ⟨_, type, offset, size, subFields⟩, v, base =>
    let off := base + offset.toNat
    match type with
    | .int | .uint => .ok [⟨off, integerCells tgt size ((tgt.toInteger? v).getD 0)⟩]
    | .number => .ok [⟨off, numberCells tgt size ((tgt.toNumber? v).getD 0)⟩]
    | .string => .ok [⟨off, pointerCells tgt (((tgt.toText? v).map tgt.stringAddress).getD 0)⟩]
    | .stringBuf =>
        match tgt.toText? v with
        | some s => .ok [⟨off, stringBufCells size s⟩]
        | none => .ok []
    | .bool => .ok [⟨off, boolCells tgt v.toBoolean⟩]
    | .object => tableWrites subFields v off

/-- All writes for the value `t`, or the error raised by indexing it. -/
def tableWrites : List LuaMsgFieldDescr → Value → Nat → Except LuaError (List (Write UInt8))
  | [], _, _ => .ok []
  | f :: fs, t, base => do
      let v ← tgt.index t f.fieldName
      let here ← (if v.isNil then .ok [] else fieldWrites f v base)
      let rest ← tableWrites fs t base
      return here ++ rest

end

mutual

def fieldDecodeCost : LuaMsgFieldDescr → Value → Nat
  | ⟨_, type, _, _, subFields⟩, v =>
    match type with
    | .string | .stringBuf => if v.isNumber then 1 else 0
    | .object => decodeCost subFields v
    | _ => 0

/-- Allocating calls of the decoder, up to the first indexing error. -/
def decodeCost : List LuaMsgFieldDescr → Value → Nat
  | [], _ => 0
  | f :: fs, t =>
      1 + match tgt.index t f.fieldName with
        | .ok v => (if v.isNil then 0 else fieldDecodeCost f v) + decodeCost fs t
        | .error _ => 0

end

mutual

/-- A value other than nil that is found for the field can be looked into as far as
the field goes. -/
def FieldIndexable : LuaMsgFieldDescr → Value → Prop
  | ⟨_, type, _, _, subFields⟩, v => type = .object → Indexable subFields v

/-- Looking up the described keys raises no error at any level. -/
def Indexable : List LuaMsgFieldDescr → Value → Prop
  | [], _ => True
  | f :: fs, t =>
      (∃ v, tgt.index t f.fieldName = .ok v ∧ (v = .nil ∨ FieldIndexable f v)) ∧ Indexable fs t

end

/-- Bytes a store to a field of this type touches. -/
def storeWidth (type : LuaMsgFieldType) (size : UInt8) : Nat :=
  match type with
  | .int | .uint => if size.toNat ∈ [1, 2, 4, 8] then size.toNat else 0
  | .number => if size = 4 then 4 else 8
  | .string => tgt.pointerSize
  | .stringBuf => size.toNat
  | .bool => 1
  | .object => 0

mutual

def FieldFits : LuaMsgFieldDescr → Nat → Nat → Prop
  | ⟨_, type, offset, size, subFields⟩, base, n =>
    match type with
    | .object => Fits subFields (base + offset.toNat) n
    | .stringBuf => size ≠ 0 ∧ base + offset.toNat + size.toNat ≤ n
    | type => base + offset.toNat + storeWidth tgt type size ≤ n

/-- Every store the decoder may make through `fields` stays below `n`. -/
def Fits : List LuaMsgFieldDescr → Nat → Nat → Prop
  | [], _, _ => True
  | f :: fs, base, n => FieldFits f base n ∧ Fits fs base n

end

theorem integerAt_of_not_mem (extend : {w : Nat} → BitVec w → LuaInteger) (buf : Bytes)
    (off : Nat) {size : UInt8} (h : size.toNat ∉ [1, 2, 4, 8]) :
    integerAt tgt extend buf off size = some 0 := by
  unfold integerAt
  split <;> first | rfl | simp_all

theorem integerCells_of_not_mem {size : UInt8} (h : size.toNat ∉ [1, 2, 4, 8])
    (val : LuaInteger) : integerCells tgt size val = [] := by
  unfold integerCells
  split <;> first | rfl | simp_all

theorem length_integerCells (size : UInt8) (val : LuaInteger) :
    (integerCells tgt size val).length = if size.toNat ∈ [1, 2, 4, 8] then size.toNat else 0 := by
  unfold integerCells
  split <;> simp_all

theorem length_numberCells (size : UInt8) (val : LuaNumber) :
    (numberCells tgt size val).length = if size = 4 then 4 else 8 := by
  unfold numberCells
  split <;> simp

@[simp] theorem length_pointerCells (address : Nat) :
    (pointerCells tgt address).length = tgt.pointerSize := by
  simp [pointerCells]

theorem length_stringBufCells {size : UInt8} (hsize : size ≠ 0) (s : Bytes) :
    (stringBufCells size s).length = size.toNat := by
  have hpos : size.toNat ≠ 0 := fun h => hsize (UInt8.toNat_inj.mp h)
  simp only [stringBufCells, List.length_append, CString.length_strncpy, List.length_singleton]
  omega

@[simp] theorem length_boolCells (b : Bool) : (boolCells tgt b).length = 1 := by
  simp [boolCells]

section Longer

variable {tgt} {m : Bytes} {off n : Nat} (tail : Bytes)

theorem bytesAt_longer {bs : Bytes} (h : bytesAt m off n = some bs) :
    bytesAt (m ++ tail) off n = some bs := by
  unfold bytesAt at h
  split at h
  · rename_i hstop
    rw [bytesAt, if_pos (by rw [List.length_append]; omega), ← h]
    rw [slice, List.drop_append_of_le_length (by omega),
      List.take_append_of_le_length (by rw [List.length_drop]; omega), slice]
  · contradiction

theorem map_bytesAt_longer {α : Type} {g : Bytes → α} {a : α}
    (h : (bytesAt m off n).map g = some a) :
    (bytesAt (m ++ tail) off n).map g = some a := by
  obtain ⟨bs, hbs, rfl⟩ := Option.map_eq_some_iff.mp h
  rw [bytesAt_longer tail hbs, Option.map_some]

theorem textAt_longer {s : Bytes} (h : textAt m off = some s) :
    textAt (m ++ tail) off = some s := by
  unfold textAt at h
  split at h
  · rename_i hnul
    have hoff : off ≤ m.length := by
      by_contra hlong
      rw [List.drop_eq_nil_of_le (by omega)] at hnul
      simp at hnul
    rw [textAt, List.drop_append_of_le_length hoff, if_pos (List.mem_append_left _ hnul), ← h,
      CString.text_append_of_mem hnul]
  · contradiction

theorem integerAt_longer {extend : {w : Nat} → BitVec w → LuaInteger} {size : UInt8}
    {i : LuaInteger} (h : integerAt tgt extend m off size = some i) :
    integerAt tgt extend (m ++ tail) off size = some i := by
  unfold integerAt at h ⊢
  split at h
  · exact map_bytesAt_longer tail h
  · exact map_bytesAt_longer tail h
  · exact map_bytesAt_longer tail h
  · exact map_bytesAt_longer tail h
  · exact h

theorem numberAt_longer {size : UInt8} {x : LuaNumber} (h : numberAt tgt m off size = some x) :
    numberAt tgt (m ++ tail) off size = some x := by
  unfold numberAt at h ⊢
  split at h
  · rename_i hfloat
    rw [if_pos hfloat]
    exact map_bytesAt_longer tail h
  · rename_i hdouble
    rw [if_neg hdouble]
    exact map_bytesAt_longer tail h

mutual

theorem fieldValue_longer {f : LuaMsgFieldDescr} {base : Nat} {v : Value}
    (h : fieldValue tgt m f base = some v) : fieldValue tgt (m ++ tail) f base = some v := by
  obtain ⟨name, type, offset, size, subFields⟩ := f
  cases type with
  | int =>
      obtain ⟨i, hi, rfl⟩ := Option.map_eq_some_iff.mp h
      rw [fieldValue, integerAt_longer tail hi, Option.map_some]
  | uint =>
      obtain ⟨i, hi, rfl⟩ := Option.map_eq_some_iff.mp h
      rw [fieldValue, integerAt_longer tail hi, Option.map_some]
  | number =>
      obtain ⟨x, hx, rfl⟩ := Option.map_eq_some_iff.mp h
      rw [fieldValue, numberAt_longer tail hx, Option.map_some]
  | string =>
      obtain ⟨p, hp, hv⟩ := Option.bind_eq_some_iff.mp h
      rw [fieldValue, pointerAt, map_bytesAt_longer tail hp, Option.bind_some, hv]
  | stringBuf =>
      obtain ⟨s, hs, rfl⟩ := Option.map_eq_some_iff.mp h
      rw [fieldValue, textAt_longer tail hs, Option.map_some]
  | bool =>
      obtain ⟨b, hb, rfl⟩ := Option.map_eq_some_iff.mp h
      rw [fieldValue, boolAt, map_bytesAt_longer tail hb, Option.map_some]
  | object =>
      obtain ⟨es, hes, rfl⟩ := Option.map_eq_some_iff.mp h
      rw [fieldValue, entriesOf_longer hes, Option.map_some]

theorem entriesOf_longer {fs : List LuaMsgFieldDescr} {base : Nat} {acc es : Entries}
    (h : entriesOf tgt m fs base acc = some es) :
    entriesOf tgt (m ++ tail) fs base acc = some es := by
  cases fs with
  | nil => exact h
  | cons f fs =>
      obtain ⟨v, hv, hrest⟩ := Option.bind_eq_some_iff.mp h
      rw [entriesOf, fieldValue_longer hv, Option.bind_some, entriesOf_longer hrest]

end

theorem messageTable_longer {fs : List LuaMsgFieldDescr} {base : Nat} {v : Value}
    (h : messageTable tgt fs m base = some v) : messageTable tgt fs (m ++ tail) base = some v := by
  obtain ⟨es, hes, rfl⟩ := Option.map_eq_some_iff.mp h
  rw [messageTable, entriesOf_longer tail hes, Option.map_some]

end Longer

/-- The writes of one entry of a table: none for a missing value. -/
def entryWrites (f : LuaMsgFieldDescr) (v : Value) (base : Nat) :
    Except LuaError (List (Write UInt8)) :=
  if v.isNil then .ok [] else fieldWrites tgt f v base

theorem tableWrites_cons (f : LuaMsgFieldDescr) (fs : List LuaMsgFieldDescr) (t : Value)
    (base : Nat) :
    tableWrites tgt (f :: fs) t base = (do
      let v ← tgt.index t f.fieldName
      let here ← entryWrites tgt f v base
      let rest ← tableWrites tgt fs t base
      return here ++ rest) := rfl

theorem tableWrites_cons_ok {f : LuaMsgFieldDescr} {fs : List LuaMsgFieldDescr} {t : Value}
    {base : Nat} {ws : List (Write UInt8)} (h : tableWrites tgt (f :: fs) t base = .ok ws) :
    ∃ v here rest, tgt.index t f.fieldName = .ok v ∧ entryWrites tgt f v base = .ok here ∧
      tableWrites tgt fs t base = .ok rest ∧ ws = here ++ rest := by
  rw [tableWrites_cons] at h
  cases hv : tgt.index t f.fieldName with
  | error e => simp [hv, bind, Except.bind] at h
  | ok v =>
      cases hhere : entryWrites tgt f v base with
      | error e => simp [hv, hhere, bind, Except.bind] at h
      | ok here =>
          cases hrest : tableWrites tgt fs t base with
          | error e => simp [hv, hhere, hrest, bind, Except.bind] at h
          | ok rest =>
              simp only [hv, hhere, hrest, bind, Except.bind, pure, Except.pure] at h
              exact ⟨v, here, rest, rfl, hhere, rfl, (Except.ok.inj h).symm⟩

mutual

theorem fieldWrites_ok_iff (f : LuaMsgFieldDescr) (v : Value) (base : Nat) :
    (∃ ws, fieldWrites tgt f v base = .ok ws) ↔ FieldIndexable tgt f v := by
  obtain ⟨name, type, offset, size, subFields⟩ := f
  cases type with
  | object =>
      have h := tableWrites_ok_iff subFields v (base + offset.toNat)
      exact h.trans ⟨fun h _ => h, fun h => h rfl⟩
  | stringBuf =>
      refine iff_of_true ?_ nofun
      cases htext : tgt.toText? v with
      | none => exact ⟨[], by simp [fieldWrites, htext]⟩
      | some text =>
          exact ⟨[⟨base + offset.toNat, stringBufCells size text⟩], by simp [fieldWrites, htext]⟩
  | _ => exact iff_of_true ⟨_, rfl⟩ nofun

/-- The decoder finds its writes exactly when the lookups raise nothing. -/
theorem tableWrites_ok_iff (fs : List LuaMsgFieldDescr) (t : Value) (base : Nat) :
    (∃ ws, tableWrites tgt fs t base = .ok ws) ↔ Indexable tgt fs t := by
  cases fs with
  | nil => exact iff_of_true ⟨[], rfl⟩ trivial
  | cons f fs =>
      constructor
      · rintro ⟨ws, hws⟩
        obtain ⟨v, here, rest, hv, hhere, hrest, -⟩ := tableWrites_cons_ok tgt hws
        refine ⟨⟨v, hv, ?_⟩, (tableWrites_ok_iff fs t base).mp ⟨rest, hrest⟩⟩
        cases hnil : v.isNil with
        | true => exact .inl ((Value.isNil_iff v).mp hnil)
        | false =>
            rw [entryWrites, hnil] at hhere
            exact .inr ((fieldWrites_ok_iff f v base).mp ⟨here, hhere⟩)
      · rintro ⟨⟨v, hv, hfield⟩, hfs⟩
        obtain ⟨rest, hrest⟩ := (tableWrites_ok_iff fs t base).mpr hfs
        obtain ⟨here, hhere⟩ : ∃ here, entryWrites tgt f v base = .ok here := by
          obtain rfl | hfield := hfield
          · exact ⟨[], rfl⟩
          · obtain ⟨here, hhere⟩ := (fieldWrites_ok_iff f v base).mpr hfield
            unfold entryWrites
            split
            · exact ⟨[], rfl⟩
            · exact ⟨here, hhere⟩
        exact ⟨here ++ rest, by
          rw [tableWrites_cons, hv]
          simp only [bind, Except.bind, hhere, hrest, pure, Except.pure]⟩

end

theorem allWithin_singleton {w : Write UInt8} {n : Nat} (h : w.stop ≤ n) : AllWithin [w] n := by
  intro w' hw'
  rw [List.mem_singleton.mp hw']
  exact h

mutual

theorem fieldWrites_within {f : LuaMsgFieldDescr} {v : Value} {base n : Nat}
    {ws : List (Write UInt8)} (hfits : FieldFits tgt f base n)
    (h : fieldWrites tgt f v base = .ok ws) : AllWithin ws n := by
  obtain ⟨name, type, offset, size, subFields⟩ := f
  cases type with
  | int =>
      obtain rfl := Except.ok.inj h
      exact allWithin_singleton (by rw [Write.stop, length_integerCells]; exact hfits)
  | uint =>
      obtain rfl := Except.ok.inj h
      exact allWithin_singleton (by rw [Write.stop, length_integerCells]; exact hfits)
  | number =>
      obtain rfl := Except.ok.inj h
      exact allWithin_singleton (by rw [Write.stop, length_numberCells]; exact hfits)
  | string =>
      obtain rfl := Except.ok.inj h
      exact allWithin_singleton (by rw [Write.stop, length_pointerCells]; exact hfits)
  | stringBuf =>
      cases htext : tgt.toText? v with
      | none =>
          obtain rfl : [] = ws := by simpa [fieldWrites, htext] using h
          intro w hw
          simp at hw
      | some text =>
          obtain rfl : [(⟨base + offset.toNat, stringBufCells size text⟩ : Write UInt8)] = ws := by
            simpa [fieldWrites, htext] using h
          exact allWithin_singleton
            (by rw [Write.stop, length_stringBufCells hfits.1]; exact hfits.2)
  | bool =>
      obtain rfl := Except.ok.inj h
      exact allWithin_singleton (by rw [Write.stop, length_boolCells]; exact hfits)
  | object => exact tableWrites_within hfits h

theorem tableWrites_within {fs : List LuaMsgFieldDescr} {t : Value} {base n : Nat}
    {ws : List (Write UInt8)} (hfits : Fits tgt fs base n)
    (h : tableWrites tgt fs t base = .ok ws) : AllWithin ws n := by
  cases fs with
  | nil =>
      obtain rfl := Except.ok.inj h
      intro w hw
      simp at hw
  | cons f fs =>
      obtain ⟨v, here, rest, -, hhere, hrest, rfl⟩ := tableWrites_cons_ok tgt h
      refine AllWithin.append ?_ (tableWrites_within hfits.2 hrest)
      unfold entryWrites at hhere
      split at hhere
      · obtain rfl := Except.ok.inj hhere
        intro w hw
        simp at hw
      · exact fieldWrites_within hfits.1 hhere

end

end LuaZephyr
