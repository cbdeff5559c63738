import LuaZephyr.MsgDescr.WellFormed

/-!
# The descriptor macros

`LUA_MSG_FIELD` and `LUA_MSG_FIELD_OBJECT` fill a descriptor from `offsetof` and `sizeof`.
The members `offset` and `size` of the descriptor are narrower than `size_t`, and the
initialisers are converted to their types.

Offsets and sizes are numbers here. Which struct they belong to, and where its padding is, is
said in `MsgDescr.Structs` with the layout of `Library.CStruct`. The macros that name a
descriptor or take its address have no counterpart, for a channel holds the descriptor itself.
-/

namespace LuaZephyr

/-- `LUA_MSG_FIELD(_struct, _field, _type)`, for a member at `offset` of `size` bytes. -/
def luaMsgField (field : Bytes) (offset size : Nat) (type : LuaMsgFieldType) : LuaMsgFieldDescr :=
  ⟨field, type, UInt16.ofNat offset, UInt8.ofNat size, []⟩

/-- `LUA_MSG_FIELD_OBJECT(_struct, _field, _sub_fields)`. -/
def luaMsgFieldObject (field : Bytes) (offset size : Nat) (subFields : List LuaMsgFieldDescr) :
    LuaMsgFieldDescr :=
  ⟨field, .object, UInt16.ofNat offset, UInt8.ofNat size, subFields⟩

theorem toNat_offset {offset : Nat} (h : offset < 65536) :
    (UInt16.ofNat offset).toNat = offset := by
  rw [UInt16.toNat_ofNat']
  omega

theorem toNat_size {size : Nat} (h : size < 256) : (UInt8.ofNat size).toNat = size := by
  rw [UInt8.toNat_ofNat']
  omega

end LuaZephyr
