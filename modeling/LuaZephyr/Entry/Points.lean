import LuaZephyr.Fs.Loading

/-!
# The entry points that run scripts

The thread bodies generated from the three templates, `lua_fs run` and the REPL. Each holds
the pointer `lua_newstate` gave it and calls the API with it, outside of any protected call
unless it makes one itself. What they print is left out.

A body is a sequence of API calls, some of them protected, and ends by returning or by an error
that nothing catches. The stack sizes, the priorities and the scheduling of the threads are left
out, as is the code of the setup hooks, which may do anything.
-/

namespace LuaZephyr

open Outcome

variable {β : Type}

/-- What `lua_newstate` returns. -/
inductive StatePtr where
  | null
  | state
  deriving DecidableEq, Repr

/-- How the system goes down: an API function is called with a null pointer, or a Lua error
finds no protected call and reaches the panic handler. The faults are those of the API. -/
inductive Breakdown where
  | nullState
  | panic (e : LuaError)
  | fault (f : Fault)
  deriving DecidableEq, Repr

abbrev EntryM (β : Type) := EStateM Breakdown (State β)

/-- A function of the API, or one that calls it, with the pointer the entry point holds. -/
def onState {α : Type} (L : StatePtr) (m : LuaM β α) : EntryM β α := fun s =>
  match L with
  | .null => .error .nullState s
  | .state =>
      match m s with
      | .ok a t => .ok a t
      | .error (.error e) t => .error (.panic e) t
      | .error (.fault f) t => .error (.fault f) t

/-- `sys_heap_init`: no block of the heap is in use. -/
def sysHeapInit : EntryM β Unit :=
  modify fun s => { s with heap := { s.heap with blocks := fun _ => none } }

/-- A new state has an empty stack. -/
def luaNewstate : EntryM β StatePtr := do
  let s ← get
  if s.apiFails s.apiCalls then
    set { s with apiCalls := s.apiCalls + 1 }
    return .null
  else
    set { s with apiCalls := s.apiCalls + 1, stack := [] }
    return .state

/-- The collector's finalizers run protected. -/
def luaClose : LuaM β Unit := modify fun s => { s with stack := [] }

/-- The configuration `CONFIG_LUA_LIB_*`. -/
structure LuaLibs where
  base : Bool
  string : Bool
  table : Bool
  math : Bool
  coroutine : Bool
  utf8 : Bool
  debug : Bool
  deriving DecidableEq, Repr

/-- The C functions that are registered, as values. -/
inductive CFunction where
  | luazRequire
  | luaopenZephyr
  | luaopenString
  | luaopenTable
  | luaopenMath
  | luaopenCoroutine
  | luaopenUtf8
  | luaopenDebug
  deriving DecidableEq, Repr

def CFunction.number : CFunction → Nat
  | .luazRequire => 0
  | .luaopenZephyr => 1
  | .luaopenString => 2
  | .luaopenTable => 3
  | .luaopenMath => 4
  | .luaopenCoroutine => 5
  | .luaopenUtf8 => 6
  | .luaopenDebug => 7

/-- A C function without upvalues takes no memory. -/
def luaPushcfunction (f : CFunction) : LuaM β Unit := pushValue (.other f.number)

/-- `lua_setglobal` pops the value; the globals themselves are not followed here. -/
def luaSetglobal (_name : Bytes) : LuaM β Unit := do
  allocating
  luaPop 1

/-- `luaL_requiref(L, LUA_GNAME, luaopen_base, 1)` leaves the module on the stack. -/
def luaLRequirefBase : LuaM β Unit := do
  allocating
  pushValue (.table [] none)

/-- `luaL_getsubtable(L, LUA_REGISTRYINDEX, name)` pushes the table found or made. -/
def luaLGetsubtable (_name : Bytes) : LuaM β Unit := do
  allocating
  pushValue (.table [] none)

/-- `lua_setfield(L, -2, name)` on a table of the registry. -/
def luaSetRegistryField (_name : Bytes) : LuaM β Unit := do
  allocating
  luaPop 1

def preload (f : CFunction) (name : Bytes) : LuaM β Unit := do
  luaPushcfunction f
  luaSetRegistryField name

/-- Code under an `#ifdef`. -/
def ifdef (c : Bool) (m : LuaM β Unit) : LuaM β Unit := if c then m else pure ⟨⟩

def luazOpenlibs (libs : LuaLibs) : LuaM β Unit := do
  luaPushcfunction .luazRequire
  luaSetglobal (ascii "require")
  ifdef libs.base do
    luaLRequirefBase
    luaPop 1
  luaLGetsubtable (ascii "_PRELOAD")
  preload .luaopenZephyr (ascii "zephyr")
  ifdef libs.string (preload .luaopenString (ascii "string"))
  ifdef libs.table (preload .luaopenTable (ascii "table"))
  ifdef libs.math (preload .luaopenMath (ascii "math"))
  ifdef libs.coroutine (preload .luaopenCoroutine (ascii "coroutine"))
  ifdef libs.utf8 (preload .luaopenUtf8 (ascii "utf8"))
  ifdef libs.debug (preload .luaopenDebug (ascii "debug"))
  luaPop 1

variable (tgt : Target) (core : LuaCore β) (libs : LuaLibs)

/-- `luaL_loadbuffer(L, …) || lua_pcall(L, 0, LUA_MULTRET, 0)`. -/
def loadAndCall (buff name : Bytes) : LuaM β LuaStatus := do
  let status ← luaLLoadbuffer core buff name
  if status ≠ .ok then return status else luaPcall core

/-- `luaL_dostring`: the C string is the chunk and its name. -/
def luaLDostring (s : Bytes) : LuaM β LuaStatus :=
  loadAndCall core (CString.text s) (CString.text s)

/-- Numbers are strings too; an index below the frame of a C function finds none. -/
def luaIsstring (idx : Int) : LuaM β Bool := do
  match valueAt (← get).stack idx with
  | some v => return (tgt.toText? v).isSome
  | none => return false

/-- What the three templates have in common: a state with the libraries, the setup hook,
and the script unless the hook refuses, after which an assertion fails. -/
def threadBody (setup : LuaM β LuaInteger) (runScript : StatePtr → EntryM β Unit) :
    EntryM β Unit := do
  sysHeapInit
  let L ← luaNewstate
  onState L (luazOpenlibs libs)
  let err ← onState L setup
  if err ≠ 0 then
    onState L luaClose
  else
    runScript L
    onState L luaClose

def luaSettop (n : Nat) : LuaM β Unit :=
  modify fun s => { s with stack := s.stack.drop (s.stack.length - n) }

/-- Print the error object and drop it. -/
def reportError (L : StatePtr) (status : LuaStatus) : EntryM β Unit := do
  if status ≠ .ok then
    let _ ← onState L (luaTostring tgt (-1))
    onState L (luaPop 1)

/-- `lua_thread.c.in`. -/
def luaThread (setup : LuaM β LuaInteger) (luaScript : Bytes) : EntryM β Unit :=
  threadBody libs setup fun L => do
    reportError tgt L (← onState L (luaLDostring core luaScript))

/-- `lua_bytecode_thread.c.in`. -/
def luaBytecodeThread (setup : LuaM β LuaInteger) (luaBytecode fileName : Bytes) :
    EntryM β Unit :=
  threadBody libs setup fun L => do
    reportError tgt L (← onState L (loadAndCall core luaBytecode fileName))

variable (cfg : FsConfig) (fs : FileSystem β)

/-- Print the error object if it is a string, as the callers of `lua_fs_dofile` do. -/
def reportStringError (L : StatePtr) (rc : LuaInteger) : EntryM β Unit := do
  if rc ≠ 0 then
    if ← onState L (luaIsstring tgt (-1)) then
      let _ ← onState L (luaTostring tgt (-1))

/-- `lua_fs_thread.c.in`. -/
def luaFsThread (setup : LuaM β LuaInteger) (scriptPath : Bytes) : EntryM β Unit :=
  threadBody libs setup fun L => do
    let err ← onState L (luaFsDofile cfg fs core scriptPath)
    reportStringError tgt L err
    if err ≠ 0 then onState L (luaSettop 0)

/-- `lua_fs run`. -/
def cmdRun (argv : List Bytes) : EntryM β LuaInteger := do
  match argv with
  | _ :: name :: _ =>
      sysHeapInit
      let L ← luaNewstate
      if L = .null then return Errno.enomem.code
      onState L (luazOpenlibs libs)
      let rc ← onState L (luaFsDofile cfg fs core name)
      reportStringError tgt L rc
      onState L luaClose
      return rc
  | _ => return Errno.einval.code

/-- The global `print`: finding it may run a metamethod of the globals, and calling it runs
whatever function it is. -/
structure ReplPrint (β : Type) where
  lookup : SysHeap → β → Except LuaError Value × SysHeap × β
  call : Value → List Value → SysHeap → β → Option CallError × SysHeap × β

variable (print : ReplPrint β)

/-- `lua_getglobal(L, "print")`. -/
def luaGetglobalPrint : LuaM β Unit := do
  allocating
  let s ← get
  let r := print.lookup s.heap s.bus
  set { s with heap := r.2.1, bus := r.2.2 }
  match r.1 with
  | .ok v => pushValue v
  | .error e => throw (.error e)

/-- `lua_insert(L, 1)` and `lua_pcall(L, n, 0, 0)` on the `n` values under `print`. -/
def luaPcallPrint : LuaM β LuaStatus := do
  let s ← get
  match s.stack with
  | f :: args =>
      let r := print.call f args.reverse s.heap s.bus
      set { s with stack := [], heap := r.2.1, bus := r.2.2 }
      match r.1 with
      | none => return .ok
      | some e =>
          pushValue e.object
          return e.status
  | [] => throw (.fault .badIndex)

/-- `lua_repl_print`. `luaL_checkstack` raises when the stack cannot grow. -/
def luaReplPrint : LuaM β Unit := do
  let n ← luaGettop
  if n > 0 then
    allocating
    luaGetglobalPrint print
    if (← luaPcallPrint print) ≠ .ok then
      let _ ← luaTostring tgt (-1)
      luaPop 1

/-- `luaL_loadstring`. -/
def luaLLoadstring (s : Bytes) : LuaM β LuaStatus :=
  luaLLoadbuffer core (CString.text s) (CString.text s)

/-- A line is compiled as an expression, or else as it is. -/
def replLoad (line : Bytes) : LuaM β LuaStatus := do
  let status ← luaLLoadstring core (ascii "return " ++ line)
  if status ≠ .ok then
    luaPop 1
    luaLLoadstring core line
  else return status

/-- What the REPL does with a line. -/
def replLine (line : Bytes) : LuaM β Unit := do
  let status ← replLoad core line
  if status = .ok then
    let status ← luaPcall core
    if status = .ok then
      luaReplPrint tgt print
    else
      let _ ← luaTostring tgt (-1)
      luaPop 1
  else
    let _ ← luaTostring tgt (-1)
    luaPop 1

/-- The loop of the REPL over the lines `shell_getline` returns. -/
def replLoop (L : StatePtr) : List ShellLine → EntryM β CommandEnd
  | [] => return .waiting
  | line :: lines => do
      if line.eof then return .returned 0
      else
        onState L (replLine tgt core print line.text)
        replLoop L lines

def luaReplCmd (lines : List ShellLine) : EntryM β CommandEnd := do
  sysHeapInit
  let L ← luaNewstate
  if L = .null then return .returned Errno.enomem.code
  onState L (luazOpenlibs libs)
  replLoop tgt core print L lines

end LuaZephyr
