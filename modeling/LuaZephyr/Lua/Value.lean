import LuaZephyr.Library.Words

/-!
# Lua values and the target the firmware is built for

The build defines `LUA_32BITS`: `lua_Integer` is a 32-bit two's complement word
and `lua_Number` a C `float`, both kept as their bits. A table is the list of its
entries; the conversions below only fill fresh tables and only read the tables a
script passes, so tables need no identity.

The Lua core and the C library are not part of the repository. What the bindings
use of them beyond the C standard (number formatting and parsing, metamethods,
float conversions, where strings live) is the parameter `Target`.
-/

namespace LuaZephyr

open Words

abbrev Bytes := List UInt8

/-- The characters of a C string literal. -/
def ascii (s : String) : Bytes := s.toList.map fun c => UInt8.ofNat c.toNat

/-- The bytes of a C string as they appear in a formatted message. -/
def latin1 (s : Bytes) : String :=
  String.ofList ((s.takeWhile (· ≠ 0)).map fun b => Char.ofNat b.toNat)

/-- `lua_Integer` under `LUA_32BITS`. -/
abbrev LuaInteger := BitVec 32

/-- The negative result of a failing kernel call, a C `int`. -/
structure Errno where
  code : LuaInteger
  neg : code.toInt < 0
  deriving DecidableEq, Repr

theorem Errno.code_ne_zero (e : Errno) : e.code ≠ 0 := by
  intro h
  have hneg := e.neg
  rw [h] at hneg
  exact absurd hneg (by decide)

/-- `lua_Number` under `LUA_32BITS`, as the bits of the `float`. -/
abbrev LuaNumber := BitVec 32

/-- The registered metatables, `ZBUS_CHAN_METATABLE` and `ZBUS_OBS_METATABLE`. -/
inductive Metatable where
  | zbusChannel
  | zbusObserver
  deriving DecidableEq, Repr

/-- A userdata carries the one C pointer the bindings store in it. A table may
have a metatable, known by a number to `Target.metaIndex`. Functions, threads and
foreign userdata are told apart by a number only. -/
inductive Value where
  | nil
  | boolean (b : Bool)
  | integer (n : LuaInteger)
  | number (x : LuaNumber)
  | string (s : Bytes)
  | table (entries : List (Bytes × Value)) (metatable : Option Nat)
  | userdata (metatable : Metatable) (pointer : Nat)
  | other (id : Nat)
  deriving Repr

/-- Entries of a table as fields by name. -/
abbrev Entries := List (Bytes × Value)

mutual

/-- Equality of values as a test. Tables are compared entry by entry. -/
def Value.same : Value → Value → Bool
  | .nil, .nil => true
  | .boolean a, .boolean b => a == b
  | .integer a, .integer b => a == b
  | .number a, .number b => a == b
  | .string a, .string b => a == b
  | .table es mt, .table es' mt' => sameEntries es es' && mt == mt'
  | .userdata mt p, .userdata mt' p' => mt == mt' && p == p'
  | .other a, .other b => a == b
  | _, _ => false

def sameEntries : Entries → Entries → Bool
  | [], [] => true
  | (k, v) :: es, (k', v') :: es' => k == k' && v.same v' && sameEntries es es'
  | _, _ => false

end

mutual

theorem Value.same_iff (a b : Value) : a.same b = true ↔ a = b := by
  cases a with
  | table es mt =>
      cases b with
      | table es' mt' => simp [Value.same, sameEntries_iff es es']
      | _ => simp [Value.same]
  | _ => cases b <;> simp [Value.same]

theorem sameEntries_iff (es es' : Entries) : sameEntries es es' = true ↔ es = es' := by
  cases es with
  | nil => cases es' <;> simp [sameEntries]
  | cons e es =>
      cases es' with
      | nil => simp [sameEntries]
      | cons e' es' =>
          simp [sameEntries, Value.same_iff e.2 e'.2, sameEntries_iff es es', Prod.ext_iff]

end

instance : DecidableEq Value := fun a b => decidable_of_iff _ (Value.same_iff a b)

/-- The error object a raised Lua error carries. -/
inductive LuaError where
  | memory
  | runtime (message : String)
  | argument (arg : Nat) (message : String)
  | object (v : Value)
  deriving DecidableEq, Repr

/-- `lua_isnil`. -/
def Value.isNil : Value → Bool
  | .nil => true
  | _ => false

@[simp] theorem Value.isNil_iff (v : Value) : v.isNil = true ↔ v = .nil := by
  cases v <;> simp [Value.isNil]

/-- Raw access: an absent key reads as nil. -/
def rawGet (es : Entries) (key : Bytes) : Value := (es.lookup key).getD .nil

/-- Raw assignment of a non-nil value: replace the entry or add one. -/
def rawPut : Entries → Bytes → Value → Entries
  | [], key, v => [(key, v)]
  | e :: es, key, v => if e.1 = key then (key, v) :: es else e :: rawPut es key v

/-- Raw assignment: assigning nil removes the entry. -/
def rawSet (es : Entries) (key : Bytes) (v : Value) : Entries :=
  if v.isNil then es.filter (fun e => e.1 ≠ key) else rawPut es key v

@[simp] theorem rawGet_nil (key : Bytes) : rawGet [] key = .nil := rfl

theorem rawGet_cons (k : Bytes) (v : Value) (es : Entries) (key : Bytes) :
    rawGet ((k, v) :: es) key = if k = key then v else rawGet es key := by
  by_cases h : k = key
  · simp [rawGet, h]
  · simp [rawGet, List.lookup_cons, h, beq_false_of_ne (Ne.symm h)]

theorem rawPut_of_not_mem {es : Entries} {key : Bytes} (h : key ∉ es.map Prod.fst) (v : Value) :
    rawPut es key v = es ++ [(key, v)] := by
  induction es with
  | nil => rfl
  | cons e es ih =>
      simp only [List.map_cons, List.mem_cons, not_or] at h
      rw [rawPut, if_neg (fun he => h.1 he.symm), ih h.2, List.cons_append]

/-- A new key goes to the end. -/
theorem rawSet_of_not_mem {es : Entries} {key : Bytes} (h : key ∉ es.map Prod.fst) {v : Value}
    (hv : v ≠ .nil) : rawSet es key v = es ++ [(key, v)] := by
  rw [rawSet, if_neg (by simpa using hv), rawPut_of_not_mem h]

theorem rawGet_rawPut (es : Entries) (k : Bytes) (v : Value) (key : Bytes) :
    rawGet (rawPut es k v) key = if k = key then v else rawGet es key := by
  induction es with
  | nil => exact rawGet_cons k v [] key
  | cons e es ih =>
      obtain ⟨k', v'⟩ := e
      by_cases hk : k' = k
      · subst hk
        rw [rawPut, if_pos rfl, rawGet_cons, rawGet_cons]
        split <;> rfl
      · rw [rawPut, if_neg hk, rawGet_cons, rawGet_cons, ih]
        by_cases hkey : k' = key
        · subst hkey
          rw [if_pos rfl, if_pos rfl, if_neg (Ne.symm hk)]
        · rw [if_neg hkey, if_neg hkey]

theorem rawGet_filter_ne (es : Entries) (k key : Bytes) :
    rawGet (es.filter fun e => e.1 ≠ k) key = if k = key then .nil else rawGet es key := by
  induction es with
  | nil => simp
  | cons e es ih =>
      obtain ⟨k', v'⟩ := e
      by_cases hk : k' = k
      · subst hk
        rw [List.filter_cons_of_neg (by simp), ih, rawGet_cons]
        split <;> rfl
      · rw [List.filter_cons_of_pos (by simpa using hk), rawGet_cons, rawGet_cons, ih]
        by_cases hkey : k' = key
        · subst hkey
          rw [if_pos rfl, if_pos rfl, if_neg (Ne.symm hk)]
        · rw [if_neg hkey, if_neg hkey]

/-- Reading after an assignment. -/
theorem rawGet_rawSet (es : Entries) (k : Bytes) (v : Value) (key : Bytes) :
    rawGet (rawSet es k v) key = if k = key then v else rawGet es key := by
  unfold rawSet
  split
  · rename_i hnil
    rw [rawGet_filter_ne, (Value.isNil_iff v).mp hnil]
  · exact rawGet_rawPut es k v key

/-- What the model takes from the target and from the Lua core. -/
structure Target where
  /-- Memory order of multi-byte integers. -/
  order : ByteOrder
  /-- `sizeof(const char *)`. -/
  pointerSize : Nat
  /-- Indexing a value that has no raw entry under the key: its `__index`
  metamethod, or the error raised when there is none. -/
  metaIndex : Value → Bytes → Except LuaError Value
  /-- A float with an exact integer value converts; others do not. -/
  floatToInteger : LuaNumber → Option LuaInteger
  integerToFloat : LuaInteger → LuaNumber
  /-- The numeral a string spells, if it spells one. -/
  stringToNumber : Bytes → Option (LuaInteger ⊕ LuaNumber)
  numberToString : LuaInteger ⊕ LuaNumber → Bytes
  /-- C conversions between `float` and `double`. -/
  floatToDouble : LuaNumber → BitVec 64
  doubleToFloat : BitVec 64 → LuaNumber
  /-- Address of the characters of a Lua string. -/
  stringAddress : Bytes → Nat
  /-- The C string found at an address; none when the address is not readable. -/
  stringAt : Nat → Option Bytes

namespace Target

/-- A little-endian target with 32-bit pointers, for examples that use neither
floats nor numerals nor metamethods nor the addresses of strings. -/
def sample : Target where
  order := .little
  pointerSize := 4
  metaIndex _ _ := .error (.runtime "attempt to index a value")
  floatToInteger _ := none
  integerToFloat _ := 0
  stringToNumber _ := none
  numberToString _ := []
  floatToDouble _ := 0
  doubleToFloat _ := 0
  stringAddress _ := 0
  stringAt _ := none

variable (tgt : Target)

/-- `lua_getfield`: the raw entry, else the metamethod. A table without a
metatable answers nil. -/
def index (v : Value) (key : Bytes) : Except LuaError Value :=
  match v with
  | .table es none => .ok (rawGet es key)
  | .table es (some _) =>
      if (rawGet es key).isNil then tgt.metaIndex v key else .ok (rawGet es key)
  | v => tgt.metaIndex v key

@[simp] theorem index_table (es : Entries) (key : Bytes) :
    tgt.index (.table es none) key = .ok (rawGet es key) := rfl

/-- `lua_tointegerx`. -/
def toInteger? : Value → Option LuaInteger
  | .integer n => some n
  | .number x => tgt.floatToInteger x
  | .string s =>
      match tgt.stringToNumber s with
      | some (.inl n) => some n
      | some (.inr x) => tgt.floatToInteger x
      | none => none
  | _ => none

/-- `lua_tonumberx`. -/
def toNumber? : Value → Option LuaNumber
  | .integer n => some (tgt.integerToFloat n)
  | .number x => some x
  | .string s =>
      match tgt.stringToNumber s with
      | some (.inl n) => some (tgt.integerToFloat n)
      | some (.inr x) => some x
      | none => none
  | _ => none

/-- `lua_tostring`: strings and numbers have a text, other values have none. -/
def toText? : Value → Option Bytes
  | .string s => some s
  | .integer n => some (tgt.numberToString (.inl n))
  | .number x => some (tgt.numberToString (.inr x))
  | _ => none

end Target

/-- `lua_toboolean`. -/
def Value.toBoolean : Value → Bool
  | .nil => false
  | .boolean b => b
  | _ => true

/-- Numbers get a fresh string from `lua_tostring`; strings are returned as they are. -/
def Value.isNumber : Value → Bool
  | .integer _ => true
  | .number _ => true
  | _ => false

end LuaZephyr
