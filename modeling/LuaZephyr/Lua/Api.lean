import LuaZephyr.Lua.Heap
import LuaZephyr.Library.Outcome

/-!
# The Lua C API the bindings use

A C function called from Lua runs on its own stack frame. Its state is that
frame, the heap of the Lua state, and the schedule `apiFails` that says which of
its allocating API calls run out of memory. `peak` and `accesses` only record
what happened: the deepest stack, and which value each field access went to.

A Lua error is raised as an exception and keeps the state of that moment, as the
long jump out of the C function does. `bus` is the state of the firmware outside
this Lua state.
-/

namespace LuaZephyr

open Outcome

inductive Exn where
  | error (e : LuaError)
  | fault (f : Fault)
  deriving DecidableEq, Repr

/-- Obtaining and releasing raw memory, as the bindings do it. -/
inductive RawEvent where
  | alloc (block size : Nat)
  | free (block size : Nat)
  deriving DecidableEq, Repr

structure State (β : Type) where
  /-- Top of the stack first. -/
  stack : List Value
  peak : Nat
  accesses : List (Value × Bytes)
  heap : SysHeap
  /-- Oldest event last. -/
  rawLog : List RawEvent
  apiFails : Nat → Bool
  apiCalls : Nat
  bus : β

/-- A Lua state at rest whose allocations all succeed, in a heap that was filled
with one byte. -/
def State.idle {β : Type} (residue : UInt8) (bus : β) : State β where
  stack := []
  peak := 0
  accesses := []
  heap := ⟨fun _ => none, 0, fun _ => some fun _ => residue⟩
  rawLog := []
  apiFails _ := false
  apiCalls := 0
  bus := bus

abbrev LuaM (β : Type) := EStateM Exn (State β)

variable {β : Type}

/-- The same state before allocation: the blocks to come hold `g`, and the API calls
find memory or not as `fails` says. Which blocks the heap grants is unchanged. -/
def State.refilled (s : State β) (g : Nat → UInt8) (fails : Nat → Bool) : State β :=
  { s with
    heap := { s.heap with outcome := fun i => (s.heap.outcome i).map fun _ => g }
    apiFails := fails }

theorem State.refilled_bus (s : State β) (g : Nat → UInt8) (fails : Nat → Bool) :
    (s.refilled g fails).bus = s.bus := rfl

theorem State.refilled_freshContents (s : State β) (g : Nat → UInt8) (fails : Nat → Bool)
    (n : Nat) : (s.refilled g fails).heap.freshContents n =
      (s.heap.freshContents n).map fun _ => SysHeap.residue g n := by
  unfold SysHeap.freshContents State.refilled
  by_cases hn : n = 0
  · simp [hn]
  · cases hout : s.heap.outcome s.heap.next <;> simp [hn, hout]

/-- No allocating call out of the `k` from number `start` on runs out of memory. -/
def NoFail (fails : Nat → Bool) (start k : Nat) : Prop := ∀ i < k, fails (start + i) = false

theorem noFail_zero (fails : Nat → Bool) (start : Nat) : NoFail fails start 0 := by
  intro i hi
  omega

theorem noFail_never (start k : Nat) : NoFail (fun _ => false) start k := fun _ _ => rfl

theorem noFail_add {fails : Nat → Bool} {start j k : Nat} :
    NoFail fails start (j + k) ↔ NoFail fails start j ∧ NoFail fails (start + j) k := by
  constructor
  · intro h
    refine ⟨fun i hi => h i (by omega), fun i hi => ?_⟩
    rw [Nat.add_assoc]
    exact h (j + i) (by omega)
  · rintro ⟨hj, hk⟩ i hi
    by_cases hij : i < j
    · exact hj i hij
    · have h := hk (i - j) (by omega)
      rwa [show start + j + (i - j) = start + i by omega] at h

theorem noFail_one {fails : Nat → Bool} {start : Nat} :
    NoFail fails start 1 ↔ fails start = false := by
  constructor
  · intro h
    exact h 0 (by omega)
  · intro h i hi
    rwa [show start + i = start by omega]

/-- One allocating API call: it runs out of memory when the schedule says so. -/
def allocating : LuaM β Unit := do
  let s ← get
  set { s with apiCalls := s.apiCalls + 1 }
  if s.apiFails s.apiCalls then throw (.error .memory)

def pushValue (v : Value) : LuaM β Unit :=
  modify fun s => { s with stack := v :: s.stack, peak := max s.peak (s.stack.length + 1) }

/-- Position from the top of the slot a relative or absolute index names. -/
def stackPosition (size : Nat) (idx : Int) : Option Nat :=
  if 0 < idx ∧ idx ≤ size then some (size - idx.toNat)
  else if idx < 0 ∧ -idx ≤ size then some ((-idx).toNat - 1)
  else none

/-- The value at an acceptable index, none beyond the top. -/
def valueAt (stack : List Value) (idx : Int) : Option Value :=
  (stackPosition stack.length idx).bind (stack[·]?)

def luaGettop : LuaM β Nat := do return (← get).stack.length

def luaPop (n : Nat) : LuaM β Unit := modify fun s => { s with stack := s.stack.drop n }

def luaAbsindex (idx : Int) : LuaM β Int := do
  let s ← get
  return if 0 < idx then idx else s.stack.length + idx + 1

/-- The value in a slot the code knows to be in use. -/
def slot (idx : Int) : LuaM β Value := do
  match valueAt (← get).stack idx with
  | some v => return v
  | none => throw (.fault .badIndex)

def luaNewtable : LuaM β Unit := do
  allocating
  pushValue (.table [] none)

def luaPushinteger (n : LuaInteger) : LuaM β Unit := pushValue (.integer n)

def luaPushnumber (x : LuaNumber) : LuaM β Unit := pushValue (.number x)

def luaPushboolean (b : Bool) : LuaM β Unit := pushValue (.boolean b)

def luaPushnil : LuaM β Unit := pushValue .nil

/-- A null pointer is pushed as nil; a string is copied into the Lua heap. -/
def luaPushstring (s : Option Bytes) : LuaM β Unit :=
  match s with
  | none => pushValue .nil
  | some s => do
      allocating
      pushValue (.string s)

/-- The key is made a Lua string first; then the value is indexed. -/
def luaGetfield (tgt : Target) (idx : Int) (key : Bytes) : LuaM β Unit := do
  let t ← slot idx
  modify fun s => { s with accesses := s.accesses ++ [(t, key)] }
  allocating
  match tgt.index t key with
  | .ok v => pushValue v
  | .error e => throw (.error e)

/-- Pops a value and stores it in the table at `idx`. -/
def luaSetfield (idx : Int) (key : Bytes) : LuaM β Unit := do
  let t ← slot idx
  let v ← slot (-1)
  modify fun s => { s with accesses := s.accesses ++ [(t, key)] }
  allocating
  let s ← get
  match stackPosition s.stack.length idx, t with
  | some pos, .table es mt =>
      set { s with stack := (s.stack.set pos (.table (rawSet es key v) mt)).drop 1 }
  | _, _ => throw (.error (.runtime "attempt to index a non-table value"))

def luaIsnil (idx : Int) : LuaM β Bool := do return (← slot idx).isNil

def luaToboolean (idx : Int) : LuaM β Bool := do return (← slot idx).toBoolean

/-- Zero when the value is not convertible. -/
def luaTointeger (tgt : Target) (idx : Int) : LuaM β LuaInteger := do
  return (tgt.toInteger? (← slot idx)).getD 0

def luaTonumber (tgt : Target) (idx : Int) : LuaM β LuaNumber := do
  return (tgt.toNumber? (← slot idx)).getD 0

/-- A number in the slot is replaced by its text, which is a new string. -/
def luaTostring (tgt : Target) (idx : Int) : LuaM β (Option Bytes) := do
  let v ← slot idx
  match tgt.toText? v with
  | none => return none
  | some text =>
      if v.isNumber then
        allocating
        let s ← get
        match stackPosition s.stack.length idx with
        | some pos => set { s with stack := s.stack.set pos (.string text) }
        | none => throw (.fault .badIndex)
      return some text

/-- `luaL_error` with its formatted message. -/
def luaLError {α : Type} (message : String) : LuaM β α := throw (.error (.runtime message))

def luaLChecktypeTable (arg : Nat) : LuaM β Unit := do
  match valueAt (← get).stack arg with
  | some (.table _ _) => return
  | _ => throw (.error (.argument arg "table expected"))

def luaLCheckinteger (tgt : Target) (arg : Nat) : LuaM β LuaInteger := do
  match (valueAt (← get).stack arg).bind tgt.toInteger? with
  | some n => return n
  | none => throw (.error (.argument arg "number expected"))

/-- A string argument, or a number turned into one. -/
def luaLCheckstring (tgt : Target) (arg : Nat) : LuaM β Bytes := do
  match (valueAt (← get).stack arg).bind tgt.toText? with
  | some s => return s
  | none => throw (.error (.argument arg "string expected"))

/-- The pointer inside a userdata that carries the given metatable. -/
def luaLCheckudata (arg : Nat) (mt : Metatable) (expected : String) : LuaM β Nat := do
  match valueAt (← get).stack arg with
  | some (.userdata mt' p) =>
      if mt' = mt then return p else throw (.error (.argument arg expected))
  | _ => throw (.error (.argument arg expected))

/-- `lua_newuserdata`, the store of the pointer into it, `luaL_getmetatable` and
`lua_setmetatable`. The metatable's name is a registry key already, so only the
userdata is allocated. -/
def pushUserdata (mt : Metatable) (p : Nat) : LuaM β Unit := do
  allocating
  pushValue (.userdata mt p)

/-- Bytes of a block in use. -/
def blockAt (p : Ptr) : LuaM β Bytes := do
  match (← get).heap.blocks p.block with
  | some bs => return bs
  | none => throw (.fault .freedBlock)

def loadBytes (p : Ptr) (n : Nat) : LuaM β Bytes := do
  let bs ← blockAt p
  if p.offset + n ≤ bs.length then return Patch.slice bs p.offset n
  else throw (.fault .outOfBounds)

/-- The C string at `p`; its terminator must be inside the block. -/
def loadText (p : Ptr) : LuaM β Bytes := do
  let bs ← blockAt p
  if 0 ∈ bs.drop p.offset then return CString.text (bs.drop p.offset)
  else throw (.fault .outOfBounds)

def storeBytes (p : Ptr) (cells : Bytes) : LuaM β Unit := do
  let bs ← blockAt p
  if p.offset + cells.length ≤ bs.length then
    modify fun s => { s with heap := { s.heap with
      blocks := Function.update s.heap.blocks p.block
        (some (Patch.put bs ⟨p.offset, cells⟩)) } }
  else throw (.fault .outOfBounds)

/-- Run the allocator of the Lua state. -/
def runAllocator (ptr : Option Nat) (osize nsize : Nat) : LuaM β (Option Nat) := do
  let s ← get
  match luaZephyrAllocator s.heap ptr osize nsize with
  | .ok (p, h) => set { s with heap := h }; return p
  | .error f => throw (.fault f)

/-- The body of a C function called with `args`: its frame holds the arguments,
and the values it returns are the topmost ones. -/
def callMethod (method : LuaM β Nat) (args : List Value) : LuaM β (List Value) := do
  modify fun s => { s with stack := args.reverse }
  let n ← method
  return ((← get).stack.take n).reverse

end LuaZephyr
