import LuaZephyr.Lua.Api

/-!
# Proof rules for the Lua API

One rule for each operation, in the form of its weakest precondition. Programs
over the API are verified with these and `Outcome.wp_bind`; nothing below unfolds
an operation again.

A rule is an equivalence, so that it also serves to take a known outcome apart. A call that
allocates has two ends in its rule, with and without memory. The Lua stack has no limit in
these rules (C code may rely on 20 slots, `LUA_MINSTACK`), and the collector never runs in them.
-/

namespace LuaZephyr

open Outcome

theorem stackPosition_first (n : Nat) : stackPosition (n + 1) (-1) = some 0 := by
  simp only [stackPosition]
  rw [if_neg (by omega), if_pos (by omega)]
  rfl

theorem stackPosition_second (n : Nat) : stackPosition (n + 1 + 1) (-2) = some 1 := by
  simp only [stackPosition]
  rw [if_neg (by omega), if_pos (by omega)]
  rfl

@[simp] theorem valueAt_top (v : Value) (stack : List Value) :
    valueAt (v :: stack) (-1) = some v := by
  rw [valueAt, List.length_cons, stackPosition_first]
  rfl

@[simp] theorem valueAt_second (v w : Value) (stack : List Value) :
    valueAt (v :: w :: stack) (-2) = some w := by
  rw [valueAt, List.length_cons, List.length_cons, stackPosition_second]
  rfl

/-- `lua_absindex(L, -1)` names the top slot. -/
theorem valueAt_length (v : Value) (stack : List Value) :
    valueAt (v :: stack) ((v :: stack).length : Nat) = some v := by
  have hpos : stackPosition (v :: stack).length ((v :: stack).length : Nat) = some 0 := by
    simp only [stackPosition]
    rw [if_pos (by simp only [List.length_cons]; omega)]
    simp
  rw [valueAt, hpos]
  rfl

/-- The arguments of a call sit at the indices 1, 2 and so on. -/
theorem valueAt_reverse (args : List Value) (i : Nat) :
    valueAt args.reverse ((i + 1 : Nat) : Int) = args[i]? := by
  unfold valueAt stackPosition
  rw [List.length_reverse]
  by_cases hi : i < args.length
  · have hpos : ((i + 1 : Nat) : Int).toNat = i + 1 := rfl
    rw [if_pos (by omega), hpos, Option.bind_some, List.getElem?_reverse (by omega),
      show args.length - 1 - (args.length - (i + 1)) = i by omega]
  · rw [if_neg (by omega), if_neg (by omega), Option.bind_none,
      List.getElem?_eq_none (by omega)]

theorem valueAt_args {args : List Value} {i : Nat} {v : Value} (h : args[i]? = some v) :
    valueAt args.reverse ((i + 1 : Nat) : Int) = some v :=
  (valueAt_reverse args i).trans h

section Rules

variable {β α : Type} {s : State β} {E : Exn → State β → Prop}

theorem wp_allocating {Q : PUnit → State β → Prop} :
    wp allocating Q E s ↔
      if s.apiFails s.apiCalls then E (.error .memory) { s with apiCalls := s.apiCalls + 1 }
      else Q ⟨⟩ { s with apiCalls := s.apiCalls + 1 } := by
  simp only [allocating, wp_bind, wp_get, wp_set]
  cases s.apiFails s.apiCalls <;> simp

@[simp] theorem wp_pushValue {v : Value} {Q : PUnit → State β → Prop} :
    wp (pushValue v) Q E s ↔
      Q ⟨⟩ { s with stack := v :: s.stack, peak := max s.peak (s.stack.length + 1) } := Iff.rfl

@[simp] theorem wp_luaPop {n : Nat} {Q : PUnit → State β → Prop} :
    wp (luaPop n) Q E s ↔ Q ⟨⟩ { s with stack := s.stack.drop n } := Iff.rfl

@[simp] theorem wp_luaGettop {Q : Nat → State β → Prop} :
    wp luaGettop Q E s ↔ Q s.stack.length s := Iff.rfl

theorem wp_slot {idx : Int} {v : Value} (h : valueAt s.stack idx = some v)
    {Q : Value → State β → Prop} : wp (slot idx) Q E s ↔ Q v s := by
  simp only [slot, wp_bind, wp_get, h, wp_pure]

theorem wp_luaAbsindex_top {Q : Int → State β → Prop} :
    wp (luaAbsindex (-1)) Q E s ↔ Q (s.stack.length : Nat) s := by
  simp [luaAbsindex]

theorem wp_luaIsnil {idx : Int} {v : Value} (h : valueAt s.stack idx = some v)
    {Q : Bool → State β → Prop} : wp (luaIsnil idx) Q E s ↔ Q v.isNil s := by
  simp only [luaIsnil, wp_bind, wp_slot h, wp_pure]

theorem wp_luaToboolean {idx : Int} {v : Value} (h : valueAt s.stack idx = some v)
    {Q : Bool → State β → Prop} : wp (luaToboolean idx) Q E s ↔ Q v.toBoolean s := by
  simp only [luaToboolean, wp_bind, wp_slot h, wp_pure]

theorem wp_luaTointeger {tgt : Target} {idx : Int} {v : Value}
    (h : valueAt s.stack idx = some v) {Q : LuaInteger → State β → Prop} :
    wp (luaTointeger tgt idx) Q E s ↔ Q ((tgt.toInteger? v).getD 0) s := by
  simp only [luaTointeger, wp_bind, wp_slot h, wp_pure]

theorem wp_luaTonumber {tgt : Target} {idx : Int} {v : Value}
    (h : valueAt s.stack idx = some v) {Q : LuaNumber → State β → Prop} :
    wp (luaTonumber tgt idx) Q E s ↔ Q ((tgt.toNumber? v).getD 0) s := by
  simp only [luaTonumber, wp_bind, wp_slot h, wp_pure]

/-- The three outcomes of a field access: out of memory for the key, an error from
indexing, or the value on top of the stack. -/
theorem wp_luaGetfield {tgt : Target} {idx : Int} {key : Bytes} {t : Value}
    (h : valueAt s.stack idx = some t) {Q : PUnit → State β → Prop} :
    wp (luaGetfield tgt idx key) Q E s ↔
      wp allocating (fun _ u =>
          match tgt.index t key with
          | .ok v => Q ⟨⟩ { u with
              stack := v :: u.stack, peak := max u.peak (u.stack.length + 1) }
          | .error e => E (.error e) u) E
        { s with accesses := s.accesses ++ [(t, key)] } := by
  simp only [luaGetfield, wp_bind, wp_slot h, wp_modify]
  cases tgt.index t key <;> simp

/-- Storing the top value into the table under it. -/
theorem wp_luaSetfield {key : Bytes} {v : Value} {es : Entries} {mt : Option Nat}
    {rest : List Value} (h : s.stack = v :: .table es mt :: rest)
    {Q : PUnit → State β → Prop} :
    wp (luaSetfield (-2) key) Q E s ↔
      wp allocating (fun _ u => Q ⟨⟩ { u with stack := .table (rawSet es key v) mt :: rest }) E
        { s with accesses := s.accesses ++ [(.table es mt, key)] } := by
  have hsecond : valueAt s.stack (-2) = some (.table es mt) := by rw [h, valueAt_second]
  have htop : valueAt s.stack (-1) = some v := by rw [h, valueAt_top]
  simp only [luaSetfield, wp_bind, wp_slot hsecond, wp_slot htop, wp_modify, wp_get,
    wp_allocating, h]
  split <;> simp [stackPosition_second]

/-- The slot keeps its value unless a number was replaced by its text. -/
theorem wp_luaTostring_top {tgt : Target} {v : Value} {rest : List Value}
    (h : s.stack = v :: rest) {Q : Option Bytes → State β → Prop} :
    wp (luaTostring tgt (-1)) Q E s ↔
      match tgt.toText? v with
      | none => Q none s
      | some text =>
          if v.isNumber then
            wp allocating (fun _ u => Q (some text) { u with stack := .string text :: rest }) E s
          else Q (some text) s := by
  have htop : valueAt s.stack (-1) = some v := by rw [h, valueAt_top]
  simp only [luaTostring, wp_bind, wp_slot htop]
  cases htext : tgt.toText? v with
  | none => simp
  | some text =>
      cases hnum : v.isNumber with
      | false => simp
      | true =>
          simp only [if_true, wp_bind, wp_get, wp_allocating, h]
          split <;> simp [stackPosition_first]

theorem wp_luaLChecktypeTable {arg : Nat} {es : Entries} {mt : Option Nat}
    (h : valueAt s.stack arg = some (.table es mt)) {Q : PUnit → State β → Prop} :
    wp (luaLChecktypeTable arg) Q E s ↔ Q ⟨⟩ s := by
  simp only [luaLChecktypeTable, wp_bind, wp_get, h, wp_pure]

theorem wp_luaLCheckinteger {tgt : Target} {arg : Nat} {v : Value} {n : LuaInteger}
    (h : valueAt s.stack arg = some v) (hv : tgt.toInteger? v = some n)
    {Q : LuaInteger → State β → Prop} : wp (luaLCheckinteger tgt arg) Q E s ↔ Q n s := by
  simp only [luaLCheckinteger, wp_bind, wp_get, h, Option.bind_some, hv, wp_pure]

theorem wp_luaLCheckinteger_raises {tgt : Target} {arg : Nat}
    (h : (valueAt s.stack arg).bind tgt.toInteger? = none) {Q : LuaInteger → State β → Prop} :
    wp (luaLCheckinteger tgt arg) Q E s ↔ E (.error (.argument arg "number expected")) s := by
  simp only [luaLCheckinteger, wp_bind, wp_get, h, wp_throw]

theorem wp_luaLCheckinteger_none {tgt : Target} {arg : Nat} {v : Value}
    (h : valueAt s.stack arg = some v) (hv : tgt.toInteger? v = none)
    {Q : LuaInteger → State β → Prop} :
    wp (luaLCheckinteger tgt arg) Q E s ↔ E (.error (.argument arg "number expected")) s :=
  wp_luaLCheckinteger_raises (by rw [h, Option.bind_some, hv])

theorem wp_luaLCheckstring {tgt : Target} {arg : Nat} {v : Value} {text : Bytes}
    (h : valueAt s.stack arg = some v) (hv : tgt.toText? v = some text)
    {Q : Bytes → State β → Prop} : wp (luaLCheckstring tgt arg) Q E s ↔ Q text s := by
  simp only [luaLCheckstring, wp_bind, wp_get, h, Option.bind_some, hv, wp_pure]

theorem wp_luaLCheckstring_raises {tgt : Target} {arg : Nat}
    (h : (valueAt s.stack arg).bind tgt.toText? = none) {Q : Bytes → State β → Prop} :
    wp (luaLCheckstring tgt arg) Q E s ↔ E (.error (.argument arg "string expected")) s := by
  simp only [luaLCheckstring, wp_bind, wp_get, h, wp_throw]

theorem wp_luaLCheckudata {arg : Nat} {mt : Metatable} {p : Nat} {expected : String}
    (h : valueAt s.stack arg = some (.userdata mt p)) {Q : Nat → State β → Prop} :
    wp (luaLCheckudata arg mt expected) Q E s ↔ Q p s := by
  simp only [luaLCheckudata, wp_bind, wp_get, h, if_true, wp_pure]

theorem wp_luaLCheckudata_raises {arg : Nat} {mt : Metatable} {expected : String}
    (h : ∀ p, valueAt s.stack arg ≠ some (.userdata mt p)) {Q : Nat → State β → Prop} :
    wp (luaLCheckudata arg mt expected) Q E s ↔ E (.error (.argument arg expected)) s := by
  simp only [luaLCheckudata, wp_bind, wp_get]
  split
  · rename_i mt' p harg
    have hne : mt' ≠ mt := by
      rintro rfl
      exact h p harg
    rw [if_neg hne, wp_throw]
  · rw [wp_throw]

/-- Entering and leaving a method: the arguments make up its frame, and the topmost
values it announces are returned. -/
theorem wp_callMethod {method : LuaM β Nat} {args : List Value}
    {Q : List Value → State β → Prop} :
    wp (callMethod method args) Q E s ↔
      wp method (fun n t => Q (t.stack.take n).reverse t) E { s with stack := args.reverse } := by
  simp only [callMethod, wp_bind, wp_modify, wp_get, wp_pure]

theorem wp_blockAt {p : Ptr} {bs : Bytes} (h : s.heap.blocks p.block = some bs)
    {Q : Bytes → State β → Prop} : wp (blockAt p) Q E s ↔ Q bs s := by
  simp only [blockAt, wp_bind, wp_get, h, wp_pure]

theorem wp_loadBytes {p : Ptr} {n : Nat} {bs : Bytes} (h : s.heap.blocks p.block = some bs)
    {Q : Bytes → State β → Prop} :
    wp (loadBytes p n) Q E s ↔
      if p.offset + n ≤ bs.length then Q (Patch.slice bs p.offset n) s
      else E (.fault .outOfBounds) s := by
  simp only [loadBytes, wp_bind, wp_blockAt h]
  split <;> simp

theorem wp_loadText {p : Ptr} {bs : Bytes} (h : s.heap.blocks p.block = some bs)
    {Q : Bytes → State β → Prop} :
    wp (loadText p) Q E s ↔
      if 0 ∈ bs.drop p.offset then Q (CString.text (bs.drop p.offset)) s
      else E (.fault .outOfBounds) s := by
  simp only [loadText, wp_bind, wp_blockAt h]
  split <;> simp

/-- The heap with new contents in one block. -/
def SysHeap.withBlock (h : SysHeap) (block : Nat) (bs : Bytes) : SysHeap :=
  { h with blocks := Function.update h.blocks block (some bs) }

theorem wp_storeBytes {p : Ptr} {cells bs : Bytes} (h : s.heap.blocks p.block = some bs)
    {Q : PUnit → State β → Prop} :
    wp (storeBytes p cells) Q E s ↔
      if p.offset + cells.length ≤ bs.length then
        Q ⟨⟩ { s with heap := s.heap.withBlock p.block (Patch.put bs ⟨p.offset, cells⟩) }
      else E (.fault .outOfBounds) s := by
  simp only [storeBytes, wp_bind, wp_blockAt h]
  split <;> simp [SysHeap.withBlock]

end Rules

@[simp] theorem SysHeap.withBlock_blocks_self (h : SysHeap) (block : Nat) (bs : Bytes) :
    (h.withBlock block bs).blocks block = some bs := by
  simp [SysHeap.withBlock]

@[simp] theorem SysHeap.withBlock_withBlock (h : SysHeap) (block : Nat) (bs bs' : Bytes) :
    (h.withBlock block bs).withBlock block bs' = h.withBlock block bs' := by
  simp [SysHeap.withBlock]

theorem SysHeap.withBlock_self {h : SysHeap} {block : Nat} {bs : Bytes}
    (hlive : h.blocks block = some bs) : h.withBlock block bs = h := by
  simp [SysHeap.withBlock, ← hlive]

end LuaZephyr
