import LuaZephyr.Lua.Api

/-!
# Descriptors and the two conversions

`luaMsgDescrToTable` encodes the fields of a C struct into a fresh Lua table and
`luaMsgDescrFromTable` decodes a table into a struct, both field by field in the
order of the descriptor array and both on the stack of the Lua state. Offsets and
sizes have the widths of the C struct members, `uint16_t` and `uint8_t`.

A descriptor is a tree, with the list of its sub-fields in each OBJECT entry in the place of a
pointer and a count; a descriptor that contains itself cannot be built. The number of slots the
conversions need is counted, but the Lua stack has no limit here.
-/

namespace LuaZephyr

open Words

/-- `enum lua_msg_field_type`. -/
inductive LuaMsgFieldType where
  | int
  | uint
  | number
  | string
  | stringBuf
  | bool
  | object
  deriving DecidableEq, Repr

/-- `struct lua_msg_field_descr`. The pointer and count of the nested array are
the list `subFields`. -/
structure LuaMsgFieldDescr where
  fieldName : Bytes
  type : LuaMsgFieldType
  offset : UInt16
  size : UInt8
  subFields : List LuaMsgFieldDescr
  deriving Repr

/-- `struct lua_msg_descr`. -/
structure LuaMsgDescr where
  fields : List LuaMsgFieldDescr
  msgSize : Nat
  deriving Repr

variable {β : Type} (tgt : Target)

/-- The `switch (f->size)` of the integer loads. `extend` is the conversion to
`lua_Integer`: of a signed operand for INT, of an unsigned one for UINT. Other
sizes leave the initial zero. -/
def loadInteger (extend : {w : Nat} → BitVec w → LuaInteger) (ptr : Ptr) (size : UInt8) :
    LuaM β LuaInteger :=
  match size.toNat with
  | 1 => return extend (readWord tgt.order 8 (← loadBytes ptr 1))
  | 2 => return extend (readWord tgt.order 16 (← loadBytes ptr 2))
  | 4 => return extend (readWord tgt.order 32 (← loadBytes ptr 4))
  | 8 => return extend (readWord tgt.order 64 (← loadBytes ptr 8))
  | _ => return 0

/-- The `switch (f->size)` of the integer stores. Both signednesses convert the
`lua_Integer` modulo the width of the field, so they store the same bytes. -/
def storeInteger (ptr : Ptr) (size : UInt8) (val : LuaInteger) : LuaM β Unit :=
  match size.toNat with
  | 1 => storeBytes ptr (writeWord tgt.order 1 (val.signExtend 8))
  | 2 => storeBytes ptr (writeWord tgt.order 2 (val.signExtend 16))
  | 4 => storeBytes ptr (writeWord tgt.order 4 val)
  | 8 => storeBytes ptr (writeWord tgt.order 8 (val.signExtend 64))
  | _ => return

/-- `f->size == sizeof(float)` selects the width of a NUMBER. -/
def loadNumber (ptr : Ptr) (size : UInt8) : LuaM β LuaNumber := do
  if size = 4 then return readWord tgt.order 32 (← loadBytes ptr 4)
  else return tgt.doubleToFloat (readWord tgt.order 64 (← loadBytes ptr 8))

def storeNumber (ptr : Ptr) (size : UInt8) (val : LuaNumber) : LuaM β Unit :=
  if size = 4 then storeBytes ptr (writeWord tgt.order 4 val)
  else storeBytes ptr (writeWord tgt.order 8 (tgt.floatToDouble val))

/-- Load a `const char *`. -/
def loadPointer (ptr : Ptr) : LuaM β Nat := do
  return digitsToNat (tgt.order.arrange (← loadBytes ptr tgt.pointerSize))

def storePointer (ptr : Ptr) (address : Nat) : LuaM β Unit :=
  storeBytes ptr (tgt.order.arrange (natToDigits tgt.pointerSize address))

/-- `lua_pushstring(L, p)` for a pointer loaded from the message. -/
def pushStringAt (address : Nat) : LuaM β Unit :=
  if address = 0 then luaPushstring none
  else
    match tgt.stringAt address with
    | some s => luaPushstring (some s)
    | none => throw (.fault .outOfBounds)

/-- `strncpy(ptr, s, size - 1)` and the terminator after it. For size 0 the count
wraps to `SIZE_MAX` and the copy runs over the end of every block. -/
def storeStringBuf (ptr : Ptr) (size : UInt8) (s : Bytes) : LuaM β Unit := do
  if size = 0 then throw (.fault .outOfBounds)
  else
    storeBytes ptr (CString.strncpy (size.toNat - 1) s)
    storeBytes (ptr.add (size.toNat - 1)) [0]

/-- `*(const bool *)ptr`; any byte other than zero is true. -/
def loadBool (ptr : Ptr) : LuaM β Bool := do
  return readWord tgt.order 8 (← loadBytes ptr 1) ≠ 0

def storeBool (ptr : Ptr) (b : Bool) : LuaM β Unit :=
  storeBytes ptr (writeWord tgt.order 1 (BitVec.ofNat 8 b.toNat))

mutual

/-- The `switch (f->type)` of the encoder: push the value of one field. -/
def fieldToTable (f : LuaMsgFieldDescr) (base : Ptr) : LuaM β Unit :=
  match f with
  | ⟨_, type, offset, size, subFields⟩ =>
    let ptr := base.add offset.toNat
    match type with
    | .int => do luaPushinteger (← loadInteger tgt (BitVec.signExtend 32) ptr size)
    | .uint => do luaPushinteger (← loadInteger tgt (BitVec.setWidth 32) ptr size)
    | .number => do luaPushnumber (← loadNumber tgt ptr size)
    | .string => do pushStringAt tgt (← loadPointer tgt ptr)
    | .stringBuf => do luaPushstring (some (← loadText ptr))
    | .bool => do luaPushboolean (← loadBool tgt ptr)
    -- The recursive call, whose first step is the new table.
    | .object => do
        luaNewtable
        fieldsToTable subFields ptr

/-- The loop of the encoder, over the table on top of the stack. -/
def fieldsToTable : List LuaMsgFieldDescr → Ptr → LuaM β Unit
  | [], _ => return
  | f :: fs, base => do
      fieldToTable f base
      luaSetfield (-2) f.fieldName
      fieldsToTable fs base

end

/-- `lua_msg_descr_to_table`. -/
def luaMsgDescrToTable (fields : List LuaMsgFieldDescr) (base : Ptr) : LuaM β Unit := do
  luaNewtable
  fieldsToTable tgt fields base

mutual

/-- The `switch (f->type)` of the decoder: store the value on top of the stack. -/
def fieldFromTable (f : LuaMsgFieldDescr) (base : Ptr) : LuaM β Unit :=
  match f with
  | ⟨_, type, offset, size, subFields⟩ =>
    let ptr := base.add offset.toNat
    match type with
    | .int | .uint => do storeInteger tgt ptr size (← luaTointeger tgt (-1))
    | .number => do storeNumber tgt ptr size (← luaTonumber tgt (-1))
    | .string => do
        match ← luaTostring tgt (-1) with
        | some s => storePointer tgt ptr (tgt.stringAddress s)
        | none => storePointer tgt ptr 0
    | .stringBuf => do
        match ← luaTostring tgt (-1) with
        | some s => storeStringBuf ptr size s
        | none => return
    | .bool => do storeBool tgt ptr (← luaToboolean (-1))
    | .object => do
        let nestedIdx ← luaAbsindex (-1)
        luaMsgDescrFromTable subFields ptr nestedIdx

/-- `lua_msg_descr_from_table`. A nil value is popped and its field skipped. -/
def luaMsgDescrFromTable : List LuaMsgFieldDescr → Ptr → Int → LuaM β Unit
  | [], _, _ => return
  | f :: fs, base, tableIdx => do
      luaGetfield tgt tableIdx f.fieldName
      if ← luaIsnil (-1) then
        luaPop 1
      else
        fieldFromTable f base
        luaPop 1
      luaMsgDescrFromTable fs base tableIdx

end

end LuaZephyr
