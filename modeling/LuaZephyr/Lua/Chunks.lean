import LuaZephyr.Lua.Rules

/-!
# Chunks and protected calls

The compiler and the interpreter of the Lua core are not part of the repository. What the
C functions use of them is the parameter `LuaCore`: a chunk compiles to a function or to a
message, and a function that is called returns values or ends in an error.

A protected call gives back the stack below it, with the results or the error object on top.
Nothing is said of what Lua code computes. Coroutines, hooks and the debug interface are left
out, and a function that never returns is not followed.
-/

namespace LuaZephyr

open Outcome

/-- `LUA_OK` and the error statuses. -/
inductive LuaStatus where
  | ok
  | errRun
  | errSyntax
  | errMem
  | errErr
  deriving DecidableEq, Repr

def LuaStatus.code : LuaStatus → LuaInteger
  | .ok => 0
  | .errRun => 2
  | .errSyntax => 3
  | .errMem => 4
  | .errErr => 5

theorem LuaStatus.code_eq_zero_iff (status : LuaStatus) : status.code = 0 ↔ status = .ok := by
  cases status <;> decide

/-- Why a protected call fails. -/
inductive CallError where
  | run (object : Value)
  | memory
  | errorHandling
  deriving DecidableEq, Repr

namespace CallError

def status : CallError → LuaStatus
  | .run _ => .errRun
  | .memory => .errMem
  | .errorHandling => .errErr

/-- The error object `lua_pcall` leaves on the stack. -/
def object : CallError → Value
  | .run v => v
  | .memory => .string (ascii "not enough memory")
  | .errorHandling => .string (ascii "error in error handling")

theorem status_ne_ok (e : CallError) : e.status ≠ .ok := by
  cases e <;> exact LuaStatus.noConfusion

theorem status_code_ne_zero (e : CallError) : e.status.code ≠ 0 := by
  cases e <;> simp [status, LuaStatus.code]

end CallError

structure LuaCore (β : Type) where
  /-- The function a chunk compiles to under its name, or the message saying why it does
  not. -/
  compile : Bytes → Bytes → Except Bytes Nat
  /-- Calling a function without arguments. -/
  execute : Nat → SysHeap → β → Except CallError (List Value) × SysHeap × β

variable {β : Type} (core : LuaCore β)

/-- The values of a call, the last one on top. -/
def pushValues (vs : List Value) : LuaM β Unit :=
  modify fun s => { s with
    stack := vs.reverse ++ s.stack, peak := max s.peak (s.stack.length + vs.length) }

/-- A protected load: running out of memory is a status too. -/
def luaLLoadbuffer (buff name : Bytes) : LuaM β LuaStatus := do
  let s ← get
  set { s with apiCalls := s.apiCalls + 1 }
  if s.apiFails s.apiCalls then
    pushValue CallError.memory.object
    return .errMem
  else
    match core.compile buff name with
    | .error message =>
        pushValue (.string message)
        return .errSyntax
    | .ok f =>
        pushValue (.other f)
        return .ok

/-- `lua_pcall(L, 0, LUA_MULTRET, 0)`. -/
def luaPcall : LuaM β LuaStatus := do
  let f ← slot (-1)
  luaPop 1
  match f with
  | .other f =>
      let s ← get
      match core.execute f s.heap s.bus with
      | (.ok vs, heap, bus) =>
          set { s with heap := heap, bus := bus }
          pushValues vs
          return .ok
      | (.error e, heap, bus) =>
          set { s with heap := heap, bus := bus }
          pushValue e.object
          return e.status
  | _ =>
      pushValue (.string (ascii "attempt to call a value"))
      return .errRun

/-- `lua_pushfstring` with its formatted message. -/
def luaPushfstring (message : Bytes) : LuaM β Unit := do
  allocating
  pushValue (.string message)

/-- `lua_error`: the value on top is the error object. -/
def luaError {α : Type} : LuaM β α := do
  let v ← slot (-1)
  throw (.error (.object v))

/-- `lua_insert(L, -2)`. -/
def luaInsertSecond : LuaM β Unit := do
  let s ← get
  match s.stack with
  | v :: w :: rest => set { s with stack := w :: v :: rest }
  | _ => throw (.fault .badIndex)

section Rules

variable {core} {s : State β} {E : Exn → State β → Prop}

theorem wp_luaLLoadbuffer {buff name : Bytes} {Q : LuaStatus → State β → Prop} :
    wp (luaLLoadbuffer core buff name) Q E s ↔
      if s.apiFails s.apiCalls then
        Q .errMem { s with
          stack := CallError.memory.object :: s.stack, peak := max s.peak (s.stack.length + 1)
          apiCalls := s.apiCalls + 1 }
      else
        match core.compile buff name with
        | .error message => Q .errSyntax { s with
            stack := .string message :: s.stack, peak := max s.peak (s.stack.length + 1)
            apiCalls := s.apiCalls + 1 }
        | .ok f => Q .ok { s with
            stack := .other f :: s.stack, peak := max s.peak (s.stack.length + 1)
            apiCalls := s.apiCalls + 1 } := by
  simp only [luaLLoadbuffer, wp_bind, wp_get, wp_set]
  cases s.apiFails s.apiCalls with
  | true => simp
  | false => cases core.compile buff name <;> simp

/-- Calling the function on top: its results take its place, or the error object does. -/
theorem wp_luaPcall {f : Nat} {rest : List Value} (h : s.stack = .other f :: rest)
    {Q : LuaStatus → State β → Prop} :
    wp (luaPcall core) Q E s ↔
      match core.execute f s.heap s.bus with
      | (.ok vs, heap, bus) => Q .ok { s with
          stack := vs.reverse ++ rest, peak := max s.peak (rest.length + vs.length)
          heap := heap, bus := bus }
      | (.error e, heap, bus) => Q e.status { s with
          stack := e.object :: rest, peak := max s.peak (rest.length + 1)
          heap := heap, bus := bus } := by
  have htop : valueAt s.stack (-1) = some (.other f) := by rw [h, valueAt_top]
  simp only [luaPcall, wp_bind, wp_slot htop, wp_luaPop, wp_get, h, List.drop_one,
    List.tail_cons]
  split
  · simp [pushValues]
  · simp

theorem wp_luaPushfstring {message : Bytes} {Q : PUnit → State β → Prop} :
    wp (luaPushfstring message) Q E s ↔
      wp allocating (fun _ t => Q ⟨⟩ { t with
        stack := .string message :: t.stack, peak := max t.peak (t.stack.length + 1) }) E s := by
  simp only [luaPushfstring, wp_bind, wp_pushValue]

theorem wp_luaError {α : Type} {v : Value} {rest : List Value} (h : s.stack = v :: rest)
    {Q : α → State β → Prop} : wp luaError Q E s ↔ E (.error (.object v)) s := by
  have htop : valueAt s.stack (-1) = some v := by rw [h, valueAt_top]
  simp only [luaError, wp_bind, wp_slot htop, wp_throw]

theorem wp_luaInsertSecond {v w : Value} {rest : List Value} (h : s.stack = v :: w :: rest)
    {Q : PUnit → State β → Prop} :
    wp luaInsertSecond Q E s ↔ Q ⟨⟩ { s with stack := w :: v :: rest } := by
  simp only [luaInsertSecond, wp_bind, wp_get, h, wp_set]

end Rules

end LuaZephyr
