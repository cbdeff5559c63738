import Mathlib.Logic.Relation
import LuaZephyr.Library.CString
import LuaZephyr.Library.Programs
import LuaZephyr.Lua.Rules

/-!
# Loading modules with `require`

`luaz_require` looks for a module in the registry's table `_LOADED`, and else calls the loader
it finds in `_PRELOAD`. Both tables are on the stack as references, the functions of the Lua
API reach them by index, and a loader may call `require` again. A loader is a program that
asks for such calls, with and between its effects on all else there is in the Lua state.

The log notes what happens, and nothing reads it.
-/

namespace LuaZephyr.Require

open Outcome Programs Relation

/-- A stack slot holds a value, or a table of the registry. -/
inductive Slot where
  | value (v : Value)
  | subtable (name : Bytes)
  deriving DecidableEq, Repr

def Slot.value? : Slot → Option Value
  | .value v => some v
  | .subtable _ => none

/-- Modules go by the C string of their names. -/
inductive Event where
  | loading (key : Bytes) (args : List Value)
  | completed (key : Bytes) (result : Value)
  | returned (key : Bytes) (results : List Value)
  /-- With `_LOADED[key]` at the beginning and at the end of the call. -/
  | raised (key : Bytes) (before after : Value)
  deriving DecidableEq, Repr

structure RequireState (σ : Type) where
  /-- Top of the stack first. -/
  stack : List Slot
  registry : Bytes → Option Entries
  /-- All that scripts and loaders can change besides. -/
  world : σ
  apiFails : Nat → Bool
  apiCalls : Nat
  /-- Oldest event first. -/
  log : List Event

/-- One of the allocations so far has failed. -/
def RequireState.RanOut {σ : Type} (s : RequireState σ) : Prop :=
  ∃ call < s.apiCalls, s.apiFails call = true

abbrev RequireM (σ : Type) := EStateM Exn (RequireState σ)

def loadedTable : Bytes := ascii "_LOADED"

def preloadTable : Bytes := ascii "_PRELOAD"

def preloadLiteral : Bytes := ascii ":preload:"

/-- The entries of a table of the registry. -/
def entries (registry : Bytes → Option Entries) (name : Bytes) : Entries :=
  (registry name).getD []

/-- `_LOADED[key]`. -/
def cached (registry : Bytes → Option Entries) (key : Bytes) : Value :=
  rawGet (entries registry loadedTable) key

variable {σ : Type}

def note (event : Event) : RequireM σ Unit := modify fun s => { s with log := s.log ++ [event] }

def allocating : RequireM σ Unit := do
  let s ← get
  set { s with apiCalls := s.apiCalls + 1 }
  if s.apiFails s.apiCalls then throw (.error .memory)

def push (slot : Slot) : RequireM σ Unit := modify fun s => { s with stack := slot :: s.stack }

def slotAt (stack : List Slot) (idx : Int) : Option Slot :=
  (stackPosition stack.length idx).bind (stack[·]?)

def luaPop (n : Nat) : RequireM σ Unit := modify fun s => { s with stack := s.stack.drop n }

def luaSettop (n : Nat) : RequireM σ Unit := modify fun s => { s with
  stack := List.replicate (n - s.stack.length) (.value .nil) ++
    s.stack.drop (s.stack.length - n) }

def luaPushvalue (idx : Int) : RequireM σ Unit := do
  match slotAt (← get).stack idx with
  | some slot => push slot
  | none => throw (.fault .badIndex)

def luaPushliteral (s : Bytes) : RequireM σ Unit := do
  allocating
  push (.value (.string s))

/-- The value of a slot that holds no table of the registry. -/
def valueAt (idx : Int) : RequireM σ Value := do
  match slotAt (← get).stack idx with
  | some (.value v) => return v
  | _ => throw (.fault .badIndex)

def luaToboolean (idx : Int) : RequireM σ Bool := do return (← valueAt idx).toBoolean

def luaIsnil (idx : Int) : RequireM σ Bool := do return (← valueAt idx).isNil

/-- A number in the slot is replaced by its text, which is a new string. -/
def luaLCheckstring (tgt : Target) (arg : Nat) : RequireM σ Bytes := do
  let s ← get
  match stackPosition s.stack.length arg, slotAt s.stack arg with
  | some pos, some (.value v) =>
      match tgt.toText? v with
      | some text =>
          if v.isNumber then allocating
          modify fun s => { s with stack := s.stack.set pos (.value (.string text)) }
          return text
      | none => throw (.error (.argument arg "string expected"))
  | _, _ => throw (.error (.argument arg "string expected"))

/-- `luaL_getsubtable(L, LUA_REGISTRYINDEX, name)`. A missing table is made. -/
def luaLGetsubtable (name : Bytes) : RequireM σ Unit := do
  allocating
  if ((← get).registry name).isNone then
    allocating
    allocating
    modify fun s => { s with registry := Function.update s.registry name (some []) }
  push (.subtable name)

/-- The tables of the registry have no metatables. -/
def luaGetfield (idx : Int) (key : Bytes) : RequireM σ Value := do
  match slotAt (← get).stack idx with
  | some (.subtable name) =>
      allocating
      let v := rawGet (entries (← get).registry name) key
      push (.value v)
      return v
  | _ => throw (.fault .badIndex)

/-- Pops a value and stores it in the table at `idx`. -/
def luaSetfield (idx : Int) (key : Bytes) : RequireM σ Unit := do
  let v ← valueAt (-1)
  match slotAt (← get).stack idx with
  | some (.subtable name) =>
      allocating
      modify fun s => { s with
        stack := s.stack.drop 1
        registry := Function.update s.registry name
          (some (rawSet (entries s.registry name) key v)) }
  | _ => throw (.fault .badIndex)

def luaLError {α : Type} (message : String) : RequireM σ α := do
  allocating
  throw (.error (.runtime message))

/-- `lua_call(L, nargs, 1)`. -/
def luaCall (call : Value → List Value → RequireM σ (List Value)) (nargs : Nat) :
    RequireM σ Unit := do
  let s ← get
  match (s.stack.take nargs).reverse.mapM Slot.value?, s.stack.drop nargs with
  | some args, .value f :: rest =>
      set { s with stack := rest }
      let results ← call f args
      push (.value (results.head?.getD .nil))
  | _, _ => throw (.fault .badIndex)

/-- `call` is how the Lua core calls the loader of a module. -/
def luazRequire (tgt : Target) (call : Bytes → Value → List Value → RequireM σ (List Value)) :
    RequireM σ Nat := do
  let name := CString.text (← luaLCheckstring tgt 1)
  luaSettop 1
  -- Index 2 is the table `_LOADED`.
  luaLGetsubtable loadedTable
  let _ ← luaGetfield 2 name
  if ← luaToboolean (-1) then
    return 1
  luaPop 1
  -- Index 3 is the table `_PRELOAD`.
  luaLGetsubtable preloadTable
  if (← luaGetfield 3 name).isNil then
    luaLError ("module '" ++ latin1 name ++ "' not found:\n\tno field package.preload['" ++
      latin1 name ++ "']")
  luaPushvalue 1
  luaPushliteral preloadLiteral
  luaCall (call name) 2
  if !(← luaIsnil (-1)) then
    luaSetfield 2 name
  else
    luaPop 1
    push (.value (.boolean true))
    luaSetfield 2 name
  let _ ← luaGetfield 2 name
  luaPushliteral preloadLiteral
  return 2

/-- A C function gets a frame with its arguments, and the values it returns are the topmost
ones. The frame is gone when it returns or raises. -/
def inFrame (args : List Value) (method : RequireM σ Nat) : RequireM σ (List Value) := fun s =>
  match method { s with stack := (args.map Slot.value).reverse } with
  | .ok n t =>
      match (t.stack.take n).reverse.mapM Slot.value? with
      | some results => .ok results { t with stack := s.stack }
      | none => .error (.fault .badIndex) { t with stack := s.stack }
  | .error e t => .error e { t with stack := s.stack }

/-- The module that `require` with these arguments is about. -/
def moduleOf (tgt : Target) (args : List Value) : Option Bytes :=
  (args.head?.bind tgt.toText?).map CString.text

/-- Note how a call for a module ends. -/
def noted (key : Option Bytes) (m : RequireM σ (List Value)) : RequireM σ (List Value) := fun s =>
  match key, m s with
  | some key, .ok results t => .ok results { t with log := t.log ++ [.returned key results] }
  | some key, .error e t => .error e { t with
      log := t.log ++ [.raised key (cached s.registry key) (cached t.registry key)] }
  | none, outcome => outcome

/-- A loader or a script asks for a call of `require`, in the world as it then is. -/
structure RequireCall (σ : Type) where
  args : List Value
  world : σ

/-- It goes on with what the call returns or raises, and ends in the same way. -/
abbrev Code (σ : Type) := Prog (RequireCall σ) (fun _ => Except LuaError (List Value) × σ)
  (Except LuaError (List Value) × σ)

/-- What calling a value does: a loader, or anything else found in `_PRELOAD`. -/
structure Core (σ : Type) where
  call : Value → List Value → σ → Code σ

/-- Perform one call for a piece of code. Lua code can catch every Lua error. -/
def perform (require : List Value → RequireM σ (List Value)) (op : RequireCall σ) :
    RequireM σ (Except LuaError (List Value) × σ) := fun s =>
  match require op.args { s with world := op.world } with
  | .ok results t => .ok (.ok results, t.world) t
  | .error (.error e) t => .ok (.error e, t.world) t
  | .error (.fault f) t => .error (.fault f) t

/-- The Lua core calls the loader of a module. There is a limit to the depth of calls from C,
as `LUAI_MAXCCALLS` is. -/
def callLoader (tgt : Target) (core : Core σ) :
    Nat → Bytes → Value → List Value → RequireM σ (List Value)
  | 0, _, _, _ => throw (.error (.runtime "C stack overflow"))
  | depth + 1, key, f, args => do
      note (.loading key args)
      let require args := noted (moduleOf tgt args)
        (inFrame args (luazRequire tgt (callLoader tgt core depth)))
      let (result, world) ← (core.call f args (← get).world).embed (perform require)
      modify fun s => { s with world := world }
      match result with
      | .ok results =>
          note (.completed key (results.head?.getD .nil))
          return results
      | .error e => throw (.error e)

/-- `require(args)`. -/
def require (tgt : Target) (core : Core σ) (depth : Nat) (args : List Value) :
    RequireM σ (List Value) :=
  noted (moduleOf tgt args) (inFrame args (luazRequire tgt (callLoader tgt core depth)))

/-- Run a script that calls `require` as it likes. -/
def runScript (tgt : Target) (core : Core σ) (depth : Nat) (script : Code σ) :
    RequireM σ (Except LuaError (List Value) × σ) :=
  script.embed (perform (require tgt core depth))

/-- Nothing has changed but the stack and the count of allocations. -/
structure Quiet (s t : RequireState σ) : Prop where
  entries : ∀ name, entries t.registry name = entries s.registry name
  world : t.world = s.world
  apiFails : t.apiFails = s.apiFails
  log : t.log = s.log
  apiCalls : s.apiCalls ≤ t.apiCalls

theorem Quiet.of_stack (s : RequireState σ) (stack : List Slot) :
    Quiet s { s with stack := stack } := ⟨fun _ => rfl, rfl, rfl, rfl, Nat.le_refl _⟩

theorem Quiet.refl (s : RequireState σ) : Quiet s s := Quiet.of_stack s s.stack

theorem Quiet.trans {s t u : RequireState σ} (h : Quiet s t) (h' : Quiet t u) : Quiet s u where
  entries name := (h'.entries name).trans (h.entries name)
  world := h'.world.trans h.world
  apiFails := h'.apiFails.trans h.apiFails
  log := h'.log.trans h.log
  apiCalls := h.apiCalls.trans h'.apiCalls

theorem Quiet.cached {s t : RequireState σ} (h : Quiet s t) (key : Bytes) :
    cached t.registry key = cached s.registry key :=
  congrArg (rawGet · key) (h.entries loadedTable)

/-- Running out of memory is allowed for, with all else as it is. -/
def MayRunOut (E : Exn → RequireState σ → Prop) (s : RequireState σ) : Prop :=
  ∀ t, Quiet s t → t.RanOut → E (.error .memory) t

theorem MayRunOut.quiet {E : Exn → RequireState σ → Prop} {s t : RequireState σ}
    (h : MayRunOut E s) (hst : Quiet s t) : MayRunOut E t := fun u htu => h u (hst.trans htu)

theorem entries_update (registry : Bytes → Option Entries) (name : Bytes) (es : Entries)
    (other : Bytes) : entries (Function.update registry name (some es)) other =
      if other = name then es else entries registry other := by
  by_cases hother : other = name
  · subst hother
    simp [entries]
  · simp [entries, hother]

section Rules

variable {s : RequireState σ} {E : Exn → RequireState σ → Prop}

theorem wp_allocating (hmemory : MayRunOut E s)
    {Q : Unit → RequireState σ → Prop} (h : ∀ t, Quiet s t → t.stack = s.stack →
      t.registry = s.registry → Q ⟨⟩ t) : wp allocating Q E s := by
  have hquiet : Quiet s { s with apiCalls := s.apiCalls + 1 } :=
    ⟨fun _ => rfl, rfl, rfl, rfl, Nat.le_succ _⟩
  simp only [allocating, wp_bind, wp_get, wp_set]
  cases hfails : s.apiFails s.apiCalls with
  | true => exact hmemory _ hquiet ⟨_, Nat.lt_succ_self _, hfails⟩
  | false => exact h _ hquiet rfl rfl

theorem wp_push {slot : Slot} {Q : Unit → RequireState σ → Prop}
    (h : ∀ t, Quiet s t → t.stack = slot :: s.stack → Q ⟨⟩ t) : wp (push slot) Q E s :=
  h _ (Quiet.of_stack _ _) rfl

theorem wp_luaPop {n : Nat} {Q : Unit → RequireState σ → Prop}
    (h : ∀ t, Quiet s t → t.stack = s.stack.drop n → Q ⟨⟩ t) : wp (luaPop n) Q E s :=
  h _ (Quiet.of_stack _ _) rfl

theorem wp_luaPushvalue {idx : Int} {slot : Slot} (hslot : slotAt s.stack idx = some slot)
    {Q : Unit → RequireState σ → Prop}
    (h : ∀ t, Quiet s t → t.stack = slot :: s.stack → Q ⟨⟩ t) : wp (luaPushvalue idx) Q E s := by
  simp only [luaPushvalue, wp_bind, wp_get, hslot]
  exact wp_push h

theorem wp_luaPushliteral (hmemory : MayRunOut E s) {text : Bytes}
    {Q : Unit → RequireState σ → Prop}
    (h : ∀ t, Quiet s t → t.stack = .value (.string text) :: s.stack → Q ⟨⟩ t) :
    wp (luaPushliteral text) Q E s := by
  rw [luaPushliteral, wp_bind]
  refine wp_allocating hmemory ?_
  rintro t ht hstack -
  refine wp_push ?_
  intro u hu hpushed
  exact h u (ht.trans hu) (by rw [hpushed, hstack])

theorem wp_valueAt {idx : Int} {v : Value} (hslot : slotAt s.stack idx = some (.value v))
    {Q : Value → RequireState σ → Prop} : wp (valueAt idx) Q E s ↔ Q v s := by
  simp only [valueAt, wp_bind, wp_get, hslot, wp_pure]

theorem wp_luaToboolean {idx : Int} {v : Value} (hslot : slotAt s.stack idx = some (.value v))
    {Q : Bool → RequireState σ → Prop} : wp (luaToboolean idx) Q E s ↔ Q v.toBoolean s := by
  simp only [luaToboolean, wp_bind, wp_valueAt hslot, wp_pure]

theorem wp_luaIsnil {idx : Int} {v : Value} (hslot : slotAt s.stack idx = some (.value v))
    {Q : Bool → RequireState σ → Prop} : wp (luaIsnil idx) Q E s ↔ Q v.isNil s := by
  simp only [luaIsnil, wp_bind, wp_valueAt hslot, wp_pure]

theorem wp_luaLGetsubtable (hmemory : MayRunOut E s) {name : Bytes}
    {Q : Unit → RequireState σ → Prop}
    (h : ∀ t, Quiet s t → t.stack = .subtable name :: s.stack → Q ⟨⟩ t) :
    wp (luaLGetsubtable name) Q E s := by
  simp only [luaLGetsubtable, wp_bind]
  refine wp_allocating hmemory ?_
  rintro t ht hstack -
  rw [wp_get]
  cases hname : t.registry name with
  | some es =>
      refine wp_push ?_
      intro u hu hpushed
      exact h u (ht.trans hu) (by rw [hpushed, hstack])
  | none =>
      simp only [Option.isNone_none, if_true, wp_bind]
      refine wp_allocating (hmemory.quiet ht) ?_
      intro u hu hstack' hregistry
      refine wp_allocating (hmemory.quiet (ht.trans hu)) ?_
      intro v hv hstack'' hregistry'
      rw [wp_modify]
      refine wp_push ?_
      intro w hw hpushed
      -- The new table is empty, as a missing one counts.
      have hmade : Quiet v { v with registry := Function.update v.registry name (some []) } := by
        refine ⟨?_, rfl, rfl, rfl, Nat.le_refl _⟩
        intro other
        rw [entries_update]
        split
        · rename_i heq
          rw [heq, entries, hregistry', hregistry, hname]
          rfl
        · rfl
      exact h w ((ht.trans (hu.trans hv)).trans (hmade.trans hw))
        (by rw [hpushed, hstack'', hstack', hstack])

theorem wp_luaGetfield (hmemory : MayRunOut E s) {idx : Int} {name key : Bytes}
    (hslot : slotAt s.stack idx = some (.subtable name)) {Q : Value → RequireState σ → Prop}
    (h : ∀ t, Quiet s t →
      t.stack = .value (rawGet (entries s.registry name) key) :: s.stack →
        Q (rawGet (entries s.registry name) key) t) :
    wp (luaGetfield idx key) Q E s := by
  simp only [luaGetfield, wp_bind, wp_get, hslot]
  refine wp_allocating hmemory ?_
  intro t ht hstack hregistry
  rw [hregistry]
  refine wp_push ?_
  intro u hu hpushed
  exact h u (ht.trans hu) (by rw [hpushed, hstack])

/-- What a store in `_LOADED` does. -/
structure Stores (key : Bytes) (v : Value) (s t : RequireState σ) : Prop where
  entries : ∀ name, entries t.registry name =
    if name = loadedTable then rawSet (entries s.registry loadedTable) key v
    else entries s.registry name
  world : t.world = s.world
  apiFails : t.apiFails = s.apiFails
  log : t.log = s.log
  apiCalls : s.apiCalls ≤ t.apiCalls

theorem wp_luaSetfield (hmemory : MayRunOut E s) {idx : Int} {key : Bytes}
    {v : Value} {rest : List Slot} (hstack : s.stack = .value v :: rest)
    (hslot : slotAt s.stack idx = some (.subtable loadedTable))
    {Q : Unit → RequireState σ → Prop}
    (h : ∀ t, Stores key v s t → t.stack = rest → Q ⟨⟩ t) :
    wp (luaSetfield idx key) Q E s := by
  have htop : slotAt s.stack (-1) = some (.value v) := by
    rw [hstack, slotAt, List.length_cons, stackPosition_first]
    rfl
  simp only [luaSetfield, wp_bind, wp_valueAt htop, wp_get, hslot]
  refine wp_allocating hmemory ?_
  rintro t ht hstack' -
  rw [wp_modify]
  refine h _ ⟨?_, ht.world, ht.apiFails, ht.log, ht.apiCalls⟩ ?_
  · intro name
    rw [entries_update, ht.entries, ht.entries]
  · rw [hstack', hstack]
    rfl

theorem wp_luaLError {α : Type} (hmemory : MayRunOut E s) {message : String}
    {Q : α → RequireState σ → Prop}
    (h : ∀ t, Quiet s t → E (.error (.runtime message)) t) :
    wp (luaLError message) Q E s := by
  rw [luaLError, wp_bind]
  refine wp_allocating hmemory ?_
  rintro t ht - -
  exact h t ht

end Rules

theorem Stores.trans_quiet {key : Bytes} {v : Value} {s t u : RequireState σ}
    (h : Stores key v s t) (h' : Quiet t u) : Stores key v s u where
  entries name := (h'.entries name).trans (h.entries name)
  world := h'.world.trans h.world
  apiFails := h'.apiFails.trans h.apiFails
  log := h'.log.trans h.log
  apiCalls := h.apiCalls.trans h'.apiCalls

theorem Quiet.trans_stores {key : Bytes} {v : Value} {s t u : RequireState σ}
    (h : Quiet s t) (h' : Stores key v t u) : Stores key v s u where
  entries name := by rw [h'.entries, h.entries, h.entries]
  world := h'.world.trans h.world
  apiFails := h'.apiFails.trans h.apiFails
  log := h'.log.trans h.log
  apiCalls := h.apiCalls.trans h'.apiCalls

theorem Stores.cached {key : Bytes} {v : Value} {s t : RequireState σ} (h : Stores key v s t)
    (other : Bytes) :
    cached t.registry other = if key = other then v else cached s.registry other := by
  rw [Require.cached, h.entries, if_pos rfl, rawGet_rawSet]
  rfl

/-- The string that `luaL_checkstring` makes of the first argument. -/
def nameOf (tgt : Target) (args : List Value) : Option Bytes := args.head?.bind tgt.toText?

theorem moduleOf_eq (tgt : Target) (args : List Value) :
    moduleOf tgt args = (nameOf tgt args).map CString.text := rfl

/-- What `_LOADED` holds for a module whose loader returned this. -/
def loadedAs (result : Value) : Value := if result.isNil then .boolean true else result

section Call

variable {s : RequireState σ} {E : Exn → RequireState σ → Prop}

theorem wp_luaLCheckstring {tgt : Target} (hmemory : MayRunOut E s)
    {args : List Value} (hstack : s.stack = (args.map Slot.value).reverse)
    {Q : Bytes → RequireState σ → Prop}
    (hbad : nameOf tgt args = none → E (.error (.argument 1 "string expected")) s)
    (h : ∀ name, nameOf tgt args = some name → ∀ t more, Quiet s t →
      t.stack = more ++ [.value (.string name)] → Q name t) :
    wp (luaLCheckstring tgt 1) Q E s := by
  simp only [luaLCheckstring, wp_bind, wp_get]
  cases args with
  | nil =>
      have hempty : s.stack = [] := hstack
      simp only [hempty]
      exact hbad rfl
  | cons v args =>
      have hstack' : s.stack = (args.map Slot.value).reverse ++ [.value v] := by
        rw [hstack, List.map_cons, List.reverse_cons]
      have hpos : stackPosition s.stack.length ((1 : Nat) : Int) = some args.length := by
        rw [hstack', stackPosition, List.length_append, List.length_reverse, List.length_map,
          List.length_singleton, if_pos (by omega)]
        simp
      have hslot : slotAt s.stack ((1 : Nat) : Int) = some (.value v) := by
        rw [slotAt, hpos, hstack']
        simp
      simp only [hpos, hslot]
      cases htext : tgt.toText? v with
      | none => exact hbad htext
      | some text =>
          have hset : s.stack.set args.length (.value (.string text)) =
              (args.map Slot.value).reverse ++ [.value (.string text)] := by
            rw [hstack', List.set_append_right _ _ (by simp)]
            simp
          cases hnumber : v.isNumber with
          | true =>
              simp only [if_true, wp_bind]
              refine wp_allocating hmemory ?_
              rintro t ht hsame -
              refine h text htext _ (args.map Slot.value).reverse ?_ ?_
              · exact ht.trans (Quiet.of_stack _ _)
              · rw [← hset, ← hsame]
          | false =>
              exact h text htext _ (args.map Slot.value).reverse
                (Quiet.of_stack _ _) hset

theorem wp_luaSettop_one {slot : Slot} {more : List Slot} (hstack : s.stack = more ++ [slot])
    {Q : Unit → RequireState σ → Prop}
    (h : ∀ t, Quiet s t → t.stack = [slot] → Q ⟨⟩ t) : wp (luaSettop 1) Q E s := by
  have hkept : List.replicate (1 - s.stack.length) (Slot.value .nil) ++
      s.stack.drop (s.stack.length - 1) = [slot] := by
    rw [hstack, List.length_append, List.length_singleton, Nat.add_sub_cancel,
      show 1 - (more.length + 1) = 0 by omega, List.drop_left]
    rfl
  exact h _ (Quiet.of_stack _ _) hkept

theorem mapM_value (args : List Value) :
    (args.map Slot.value).mapM Slot.value? = some args := by
  induction args with
  | nil => rfl
  | cons v args ih => simp [Slot.value?, ih]

theorem wp_luaCall {call : Value → List Value → RequireM σ (List Value)} {args : List Value}
    {f : Value} {rest : List Slot}
    (hstack : s.stack = (args.map Slot.value).reverse ++ .value f :: rest)
    {Q : Unit → RequireState σ → Prop} :
    wp (luaCall call args.length) Q E s ↔
      wp (call f args) (fun results t =>
        wp (push (.value (results.head?.getD .nil))) Q E t) E { s with stack := rest } := by
  have hlen : args.length = (args.map Slot.value).reverse.length := by simp
  have hargs : (s.stack.take args.length).reverse.mapM Slot.value? = some args := by
    rw [hstack, hlen, List.take_left, List.reverse_reverse, mapM_value]
  have hrest : s.stack.drop args.length = .value f :: rest := by
    rw [hstack, hlen, List.drop_left]
  simp only [luaCall, wp_bind, wp_get, hargs, hrest, wp_set]

/-- The call begins with a look into `_LOADED`. -/
theorem wp_lookUp {tgt : Target} (hmemory : MayRunOut E s) {args : List Value}
    {name : Bytes} (hname : nameOf tgt args = some name)
    (hstack : s.stack = (args.map Slot.value).reverse) {Q : Bytes → Value → RequireState σ → Prop}
    (h : ∀ t, Quiet s t → t.stack = [.value (cached s.registry (CString.text name)),
      .subtable loadedTable, .value (.string name)] →
      Q name (cached s.registry (CString.text name)) t) :
    wp (luaLCheckstring tgt 1) (fun text s => wp (luaSettop 1) (fun _ s =>
      wp (luaLGetsubtable loadedTable) (fun _ s =>
        wp (luaGetfield 2 (CString.text text)) (Q text) E s) E s) E s) E s := by
  refine wp_luaLCheckstring hmemory hstack ?_ ?_
  · intro hnone
    rw [hname] at hnone
    contradiction
  intro text htext t more ht hchecked
  obtain rfl : name = text := Option.some.inj (hname.symm.trans htext)
  refine wp_luaSettop_one hchecked ?_
  intro u hu hone
  have htu := ht.trans hu
  refine wp_luaLGetsubtable (hmemory.quiet htu) ?_
  intro v hv hpushed
  rw [hone] at hpushed
  have htv := htu.trans hv
  have hloaded : slotAt v.stack 2 = some (.subtable loadedTable) := by
    rw [hpushed]
    rfl
  refine wp_luaGetfield (hmemory.quiet htv) hloaded ?_
  intro w hw hread
  rw [← cached, htv.cached] at hread ⊢
  rw [hpushed] at hread
  exact h w (htv.trans hw) hread

/-- What is not there is looked up in `_PRELOAD`. -/
theorem wp_findLoader (hmemory : MayRunOut E s) {key name : Bytes} {v : Value}
    (hstack : s.stack = [.value v, .subtable loadedTable, .value (.string name)])
    {Q : Value → RequireState σ → Prop}
    (h : ∀ t, Quiet s t → t.stack = [.value (rawGet (entries s.registry preloadTable) key),
      .subtable preloadTable, .subtable loadedTable, .value (.string name)] →
      Q (rawGet (entries s.registry preloadTable) key) t) :
    wp (luaPop 1) (fun _ s => wp (luaLGetsubtable preloadTable) (fun _ s =>
      wp (luaGetfield 3 key) Q E s) E s) E s := by
  refine wp_luaPop ?_
  intro t ht hpopped
  rw [hstack, List.drop_one, List.tail_cons] at hpopped
  refine wp_luaLGetsubtable (hmemory.quiet ht) ?_
  intro u hu hpushed
  rw [hpopped] at hpushed
  have htu := ht.trans hu
  have hpreload : slotAt u.stack 3 = some (.subtable preloadTable) := by
    rw [hpushed]
    rfl
  refine wp_luaGetfield (hmemory.quiet htu) hpreload ?_
  intro w hw hread
  rw [htu.entries] at hread ⊢
  rw [hpushed] at hread
  exact h w (htu.trans hw) hread

/-- The loader gets the name and the literal. -/
theorem wp_callFound {call : Value → List Value → RequireM σ (List Value)}
    (hmemory : MayRunOut E s) {f : Value} {name : Bytes}
    (hstack : s.stack = [.value f, .subtable preloadTable, .subtable loadedTable,
      .value (.string name)]) {Q : Unit → RequireState σ → Prop}
    (h : ∀ t, Quiet s t → t.stack = [.subtable preloadTable, .subtable loadedTable,
      .value (.string name)] →
      wp (call f [.string name, .string preloadLiteral]) (fun results u =>
        wp (push (.value (results.head?.getD .nil))) Q E u) E t) :
    wp (luaPushvalue 1) (fun _ s => wp (luaPushliteral preloadLiteral) (fun _ s =>
      wp (luaCall call 2) Q E s) E s) E s := by
  have hfirst : slotAt s.stack 1 = some (.value (.string name)) := by
    rw [hstack]
    rfl
  refine wp_luaPushvalue hfirst ?_
  intro t ht hpushed
  rw [hstack] at hpushed
  refine wp_luaPushliteral (hmemory.quiet ht) ?_
  intro u hu hliteral
  rw [hpushed] at hliteral
  have hargs : u.stack = ([.string name, .string preloadLiteral].map Slot.value).reverse ++
      .value f :: [.subtable preloadTable, .subtable loadedTable, .value (.string name)] := hliteral
  refine (wp_luaCall hargs).mpr (h _ ?_ rfl)
  exact (ht.trans hu).trans (Quiet.of_stack _ _)

/-- The result of a loader, or true in place of nil, is stored, read back and pushed with the
literal. Memory may run out before the store and after it. -/
theorem wp_storeResult (hmemory : MayRunOut E s) {key name : Bytes} {result : Value}
    (hstored : ∀ t, Stores key (loadedAs result) s t → MayRunOut E t)
    (hstack : s.stack = [.value result, .subtable preloadTable, .subtable loadedTable,
      .value (.string name)]) {Q : Nat → RequireState σ → Prop}
    (h : ∀ t more, Stores key (loadedAs result) s t →
      t.stack = .value (.string preloadLiteral) :: .value (loadedAs result) :: more → Q 2 t) :
    wp (do
      if !(← luaIsnil (-1)) then
        luaSetfield 2 key
      else
        luaPop 1
        push (.value (.boolean true))
        luaSetfield 2 key
      let _ ← luaGetfield 2 key
      luaPushliteral preloadLiteral
      return 2) Q E s := by
  have hreadBack : ∀ t, Stores key (loadedAs result) s t →
      t.stack = [.subtable preloadTable, .subtable loadedTable, .value (.string name)] →
      wp (luaGetfield 2 key) (fun _ u =>
        wp (luaPushliteral preloadLiteral) (fun _ u => Q 2 u) E u) E t := by
    intro t hstores hkept
    have hslot : slotAt t.stack 2 = some (.subtable loadedTable) := by
      rw [hkept]
      rfl
    refine wp_luaGetfield (hstored t hstores) hslot ?_
    intro u hu hpushed
    have hback := hstores.cached key
    rw [if_pos rfl] at hback
    rw [← cached, hback] at hpushed
    refine wp_luaPushliteral ((hstored t hstores).quiet hu) ?_
    intro w hw hliteral
    exact h w t.stack ((hstores.trans_quiet hu).trans_quiet hw) (by rw [hliteral, hpushed])
  rw [wp_bind, wp_luaIsnil (v := result) (by rw [hstack]; rfl)]
  cases hnil : result.isNil with
  | false =>
      have has : loadedAs result = result := by
        rw [loadedAs, hnil]
        rfl
      simp only [Bool.not_false, if_true, wp_bind, wp_pure]
      refine wp_luaSetfield hmemory hstack (by rw [hstack]; rfl) ?_
      intro t hstores hkept
      exact hreadBack t (has.symm ▸ hstores) hkept
  | true =>
      have has : loadedAs result = .boolean true := by
        rw [loadedAs, hnil]
        rfl
      simp only [Bool.not_true, Bool.false_eq_true, if_false, wp_bind, wp_pure]
      refine wp_luaPop ?_
      intro t ht hpopped
      rw [hstack, List.drop_one, List.tail_cons] at hpopped
      refine wp_push ?_
      intro u hu hpushed
      rw [hpopped] at hpushed
      have htu := ht.trans hu
      refine wp_luaSetfield (hmemory.quiet htu) hpushed (by rw [hpushed]; rfl) ?_
      intro w hstores hkept
      exact hreadBack w (has.symm ▸ htu.trans_stores hstores) hkept

theorem wp_luazRequire_bad {tgt : Target}
    {call : Bytes → Value → List Value → RequireM σ (List Value)}
    (hmemory : MayRunOut E s) {args : List Value}
    (hname : nameOf tgt args = none) (hstack : s.stack = (args.map Slot.value).reverse)
    {Q : Nat → RequireState σ → Prop} (h : E (.error (.argument 1 "string expected")) s) :
    wp (luazRequire tgt call) Q E s := by
  rw [luazRequire, wp_bind]
  refine wp_luaLCheckstring hmemory hstack (fun _ => h) ?_
  intro name hsome
  rw [hname] at hsome
  contradiction

/-- All that a call of `luaz_require` for a module can do. -/
theorem wp_luazRequire {tgt : Target} {call : Bytes → Value → List Value → RequireM σ (List Value)}
    (hmemory : MayRunOut E s) {args : List Value} {name : Bytes}
    (hname : nameOf tgt args = some name) (hstack : s.stack = (args.map Slot.value).reverse)
    {Q : Nat → RequireState σ → Prop}
    (hcached : (cached s.registry (CString.text name)).toBoolean = true → ∀ t more, Quiet s t →
      t.stack = .value (cached s.registry (CString.text name)) :: more → Q 1 t)
    (hmissing : (cached s.registry (CString.text name)).toBoolean = false → ∀ e t, Quiet s t →
      E (.error e) t)
    (hload : (cached s.registry (CString.text name)).toBoolean = false → ∀ t, Quiet s t →
      wp (call (CString.text name) (rawGet (entries s.registry preloadTable) (CString.text name))
          [.string name, .string preloadLiteral])
        (fun results u => u.stack = t.stack ∧ MayRunOut E u ∧
          (∀ v, Stores (CString.text name) (loadedAs (results.head?.getD .nil)) u v →
            MayRunOut E v) ∧
          ∀ v more, Stores (CString.text name) (loadedAs (results.head?.getD .nil)) u v →
            v.stack = .value (.string preloadLiteral) ::
              .value (loadedAs (results.head?.getD .nil)) :: more → Q 2 v) E t) :
    wp (luazRequire tgt call) Q E s := by
  simp only [luazRequire, wp_bind]
  refine wp_lookUp hmemory hname hstack ?_
  intro t ht hlooked
  rw [wp_luaToboolean (by rw [hlooked]; rfl)]
  cases hhit : (cached s.registry (CString.text name)).toBoolean with
  | true => exact hcached hhit t _ ht hlooked
  | false =>
      simp only [Bool.false_eq_true, if_false, wp_bind]
      refine wp_findLoader (hmemory.quiet ht) hlooked ?_
      intro u hu hfound
      rw [ht.entries] at hfound ⊢
      have htu := ht.trans hu
      cases hnil : (rawGet (entries s.registry preloadTable) (CString.text name)).isNil with
      | true =>
          simp only [if_true, wp_bind]
          refine wp_luaLError (hmemory.quiet htu) ?_
          intro v hv
          exact hmissing hhit _ v (htu.trans hv)
      | false =>
          simp only [Bool.false_eq_true, if_false, wp_bind]
          refine wp_callFound (hmemory.quiet htu) hfound ?_
          intro v hv hcalled
          have htv := htu.trans hv
          refine (hload hhit v htv).mono ?_ fun e w he => he
          rintro results w ⟨hsame, hunstored, hstored, hreturn⟩
          refine wp_push ?_
          intro x hx hresult
          rw [hsame, hcalled] at hresult
          have hstore := wp_storeResult (E := E) (Q := Q) (hunstored.quiet hx)
            (fun y hstores => hstored y (hx.trans_stores hstores)) hresult
            fun y more hstores hback => hreturn y more (hx.trans_stores hstores) hback
          simpa only [wp_bind] using hstore

end Call

end LuaZephyr.Require
