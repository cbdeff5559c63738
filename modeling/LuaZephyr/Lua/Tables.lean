import LuaZephyr.Library.SharedTables
import LuaZephyr.Lua.Rules

/-!
# The Lua API on tables

The functions of the Lua C API with which libraries are opened. The tables are shared: the
registry, the globals, the tables of the libraries and their metatables are reached by
reference, and none of them has a metatable of its own. A call that needs memory may fail, and
then what the calls before it did stays.
-/

namespace LuaZephyr.Libraries

open Outcome SharedTables

/-- A value that is not nil, with functions of type `F`. -/
inductive Item (F : Type) where
  | boolean (b : Bool)
  | string (s : Bytes)
  | function (f : F)
  | table (ref : Nat)
  deriving DecidableEq, Repr

variable {F : Type}

/-- `lua_toboolean`, of a value that may be nil. -/
def toBoolean : Option (Item F) → Bool
  | none => false
  | some (.boolean b) => b
  | some _ => true

abbrev LuaHeap (F : Type) := Heap Bytes (Item F)

/-- `LUA_REGISTRYINDEX` and `LUA_RIDX_GLOBALS`, as tables. -/
def registryRef : Nat := 0

def globalsRef : Nat := 1

structure TableState (F : Type) where
  /-- Top of the stack first. -/
  stack : List (Option (Item F))
  heap : LuaHeap F
  apiFails : Nat → Bool
  apiCalls : Nat

abbrev TableM (F : Type) := EStateM Exn (TableState F)

/-- A stack index, or the pseudo-index of the registry. -/
inductive Index where
  | registry
  | slot (idx : Int)

def slotAt (stack : List (Option (Item F))) (idx : Int) : Option (Option (Item F)) :=
  (stackPosition stack.length idx).bind (stack[·]?)

/-- The table at an index. -/
def refAt (stack : List (Option (Item F))) : Index → Option Nat
  | .registry => some registryRef
  | .slot idx =>
      match slotAt stack idx with
      | some (some (.table r)) => some r
      | _ => none

def allocating : TableM F Unit := do
  let s ← get
  set { s with apiCalls := s.apiCalls + 1 }
  if s.apiFails s.apiCalls then throw (.error .memory)

def push (v : Option (Item F)) : TableM F Unit :=
  modify fun s => { s with stack := v :: s.stack }

def luaPop (n : Nat) : TableM F Unit := modify fun s => { s with stack := s.stack.drop n }

def luaPushcfunction (f : F) : TableM F Unit := push (some (.function f))

def luaPushboolean (b : Bool) : TableM F Unit := push (some (.boolean b))

def luaPushstring (s : Bytes) : TableM F Unit := do
  allocating
  push (some (.string s))

def luaPushvalue (idx : Int) : TableM F Unit := do
  match slotAt (← get).stack idx with
  | some v => push v
  | none => throw (.fault .badIndex)

def luaNewtable : TableM F Unit := do
  allocating
  let s ← get
  set { s with heap := s.heap.alloc }
  push (some (.table s.heap.next))

def luaGetfield (idx : Index) (k : Bytes) : TableM F (Option (Item F)) := do
  match refAt (← get).stack idx with
  | some r =>
      allocating
      let v := (← get).heap.fields r k
      push v
      return v
  | none => throw (.fault .badIndex)

/-- Pops the value it assigns. -/
def luaSetfield (idx : Index) (k : Bytes) : TableM F Unit := do
  let s ← get
  match s.stack, refAt s.stack idx with
  | v :: _, some r =>
      allocating
      modify fun s => { s with stack := s.stack.drop 1, heap := s.heap.set r k v }
  | _, _ => throw (.fault .badIndex)

def luaSetglobal (k : Bytes) : TableM F Unit := do
  match (← get).stack with
  | v :: _ =>
      allocating
      modify fun s => { s with stack := s.stack.drop 1, heap := s.heap.set globalsRef k v }
  | [] => throw (.fault .badIndex)

/-- `luaL_getsubtable(L, LUA_REGISTRYINDEX, name)`. -/
def luaLGetsubtable (name : Bytes) : TableM F Unit := do
  match ← luaGetfield .registry name with
  | some (.table _) => return
  | _ =>
      luaPop 1
      luaNewtable
      luaPushvalue (-1)
      luaSetfield .registry name

/-- `luaL_setfuncs(L, l, 0)`: into the table on top. -/
def luaLSetfuncs : List (Bytes × F) → TableM F Unit
  | [] => return
  | (name, f) :: l => do
      luaPushcfunction f
      luaSetfield (.slot (-2)) name
      luaLSetfuncs l

def luaLNewlib (l : List (Bytes × F)) : TableM F Unit := do
  luaNewtable
  luaLSetfuncs l

/-- `luaL_newmetatable`: the registry's table of this name, made when there is no value yet. -/
def luaLNewmetatable (tname : Bytes) : TableM F Bool := do
  match ← luaGetfield .registry tname with
  | some _ => return false
  | none =>
      luaPop 1
      luaNewtable
      luaPushstring tname
      luaSetfield (.slot (-2)) (ascii "__name")
      luaPushvalue (-1)
      luaSetfield .registry tname
      return true

/-- The error is that memory ran out, with a heap that satisfies `G`. -/
def Fails (G : LuaHeap F → Prop) (e : Exn) (s : TableState F) : Prop :=
  e = .error .memory ∧ G s.heap

theorem Fails.mono {G G' : LuaHeap F → Prop} (hG : ∀ heap, G heap → G' heap) {e : Exn}
    {s : TableState F} (h : Fails G e s) : Fails G' e s := ⟨h.1, hG _ h.2⟩

section Rules

variable {G : LuaHeap F → Prop} {stack rest : List (Option (Item F))} {heap : LuaHeap F}
  {fails : Nat → Bool} {calls : Nat}

@[simp] theorem slotAt_first (v : Option (Item F)) (stack : List (Option (Item F))) :
    slotAt (v :: stack) (-1) = some v := by
  rw [slotAt, List.length_cons, stackPosition_first]
  rfl

@[simp] theorem slotAt_second (v w : Option (Item F)) (stack : List (Option (Item F))) :
    slotAt (v :: w :: stack) (-2) = some w := by
  rw [slotAt, List.length_cons, List.length_cons, stackPosition_second]
  rfl

@[simp] theorem refAt_first (r : Nat) (stack : List (Option (Item F))) :
    refAt (some (.table r) :: stack) (.slot (-1)) = some r := by
  rw [refAt, slotAt_first]

@[simp] theorem refAt_second (v : Option (Item F)) (r : Nat) (stack : List (Option (Item F))) :
    refAt (v :: some (.table r) :: stack) (.slot (-2)) = some r := by
  rw [refAt, slotAt_second]

theorem wp_allocating (hG : G heap) {Q : Unit → TableState F → Prop}
    (hok : ∀ n, Q ⟨⟩ ⟨stack, heap, fails, n⟩) :
    wp allocating Q (Fails G) ⟨stack, heap, fails, calls⟩ := by
  simp only [allocating, wp_bind, wp_get, wp_set]
  split
  · exact ⟨rfl, hG⟩
  · exact hok _

theorem wp_luaPushstring (hG : G heap) {text : Bytes} {Q : Unit → TableState F → Prop}
    (hok : ∀ n, Q ⟨⟩ ⟨some (.string text) :: stack, heap, fails, n⟩) :
    wp (luaPushstring text) Q (Fails G) ⟨stack, heap, fails, calls⟩ :=
  wp_bind.mpr (wp_allocating hG hok)

theorem wp_luaPushvalue {idx : Int} {v : Option (Item F)} (hv : slotAt stack idx = some v)
    {E : Exn → TableState F → Prop} {Q : Unit → TableState F → Prop}
    (hok : Q ⟨⟩ ⟨v :: stack, heap, fails, calls⟩) :
    wp (luaPushvalue idx) Q E ⟨stack, heap, fails, calls⟩ := by
  simp only [luaPushvalue, wp_bind, wp_get, hv]
  exact hok

theorem wp_luaNewtable (hG : G heap) {Q : Unit → TableState F → Prop}
    (hok : ∀ n, Q ⟨⟩ ⟨some (.table heap.next) :: stack, heap.alloc, fails, n⟩) :
    wp luaNewtable Q (Fails G) ⟨stack, heap, fails, calls⟩ :=
  wp_bind.mpr (wp_allocating hG hok)

theorem wp_luaGetfield {idx : Index} {r : Nat} (hr : refAt stack idx = some r) (hG : G heap)
    {k : Bytes} {Q : Option (Item F) → TableState F → Prop}
    (hok : ∀ n, Q (heap.fields r k) ⟨heap.fields r k :: stack, heap, fails, n⟩) :
    wp (luaGetfield idx k) Q (Fails G) ⟨stack, heap, fails, calls⟩ := by
  simp only [luaGetfield, wp_bind, wp_get, hr]
  exact wp_allocating hG hok

theorem wp_luaSetfield {v : Option (Item F)} {idx : Index} {r : Nat}
    (hr : refAt (v :: rest) idx = some r) (hG : G heap) {k : Bytes}
    {Q : Unit → TableState F → Prop}
    (hok : ∀ n, Q ⟨⟩ ⟨rest, heap.set r k v, fails, n⟩) :
    wp (luaSetfield idx k) Q (Fails G) ⟨v :: rest, heap, fails, calls⟩ := by
  simp only [luaSetfield, wp_bind, wp_get, hr]
  exact wp_allocating hG hok

theorem wp_luaSetglobal {v : Option (Item F)} (hG : G heap) {k : Bytes}
    {Q : Unit → TableState F → Prop}
    (hok : ∀ n, Q ⟨⟩ ⟨rest, heap.set globalsRef k v, fails, n⟩) :
    wp (luaSetglobal k) Q (Fails G) ⟨v :: rest, heap, fails, calls⟩ := by
  simp only [luaSetglobal, wp_bind, wp_get]
  exact wp_allocating hG hok

/-- The functions as fields. -/
def functions (l : List (Bytes × F)) : List (Bytes × Item F) :=
  l.map fun f => (f.1, .function f.2)

@[simp] theorem functions_keys (l : List (Bytes × F)) :
    (functions l).map Prod.fst = l.map Prod.fst := by
  simp [functions]

theorem mem_functions {l : List (Bytes × F)} {k : Bytes} {f : F} (h : (k, f) ∈ l) :
    (k, .function f) ∈ functions l := List.mem_map.mpr ⟨(k, f), h, rfl⟩

/-- After a failure some of the functions are there. -/
theorem wp_luaLSetfuncs {r : Nat} (hclosed : ∀ heap k v, G heap → G (heap.set r k v))
    (hG : G heap) (l : List (Bytes × F)) {Q : Unit → TableState F → Prop}
    (hok : ∀ n, G (heap.setAll r (functions l)) →
      Q ⟨⟩ ⟨some (.table r) :: rest, heap.setAll r (functions l), fails, n⟩) :
    wp (luaLSetfuncs l) Q (Fails G) ⟨some (.table r) :: rest, heap, fails, calls⟩ := by
  induction l generalizing heap calls with
  | nil => exact hok calls hG
  | cons f l ih =>
      refine wp_bind.mpr (wp_bind.mpr (wp_luaSetfield (refAt_second _ r rest) hG fun n => ?_))
      exact ih (hclosed heap f.1 _ hG) hok

theorem wp_luaLNewlib (l : List (Bytes × F)) (hG : G heap) (halloc : G heap.alloc)
    (hclosed : ∀ heap' k v, G heap' → G (heap'.set heap.next k v))
    {Q : Unit → TableState F → Prop}
    (hok : ∀ n, G (heap.alloc.setAll heap.next (functions l)) → Q ⟨⟩
      ⟨some (.table heap.next) :: stack, heap.alloc.setAll heap.next (functions l), fails, n⟩) :
    wp (luaLNewlib l) Q (Fails G) ⟨stack, heap, fails, calls⟩ :=
  wp_bind.mpr (wp_luaNewtable hG fun _ => wp_luaLSetfuncs hclosed halloc l hok)

end Rules

end LuaZephyr.Libraries
