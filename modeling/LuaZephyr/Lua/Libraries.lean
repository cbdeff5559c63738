import LuaZephyr.Entry.Points
import LuaZephyr.Library.Runs
import LuaZephyr.Lua.Tables

/-!
# The libraries of a Lua state

`luaz_openlibs` makes `require` global and puts the functions that open the libraries into
`_PRELOAD`; what a script gets from `require("zephyr")` is built by `luaopen_zephyr` with
`luaopen_zbus` and `luaopen_fs`. Memory may run out anywhere in between, and the script may
try again. Whatever happened before, a call that returns gives the complete library: a
metatable that an earlier attempt left half filled is found in the registry and filled again.
-/

namespace LuaZephyr.Libraries

open Outcome SharedTables Runs

/-- The C functions that are registered. Those of the Lua core go by their names. -/
inductive LibFunction where
  | kMsleepWrapper
  | printkWrapper
  | logInfWrapper
  | logWrnWrapper
  | logDbgWrapper
  | logErrWrapper
  | chanPub
  | chanRead
  | chanTostring
  | chanEquals
  | subWaitMsg
  | zbusChannelDeclare
  | zbusObserverDeclare
  | lFsDofile
  | lFsLoadfile
  | lFsList
  | luazRequire
  | luaopenZephyr
  | luaopenCore (lib : Bytes)
  | core (lib name : Bytes)
  deriving DecidableEq, Repr

abbrev LibM := TableM LibFunction

abbrev LibHeap := LuaHeap LibFunction

def loadedTable : Bytes := ascii "_LOADED"

def preloadTable : Bytes := ascii "_PRELOAD"

/-- `ZBUS_CHAN_METATABLE` and `ZBUS_OBS_METATABLE`. -/
def zbusChanMetatable : Bytes := ascii "zbus.channel.mt"

def zbusObsMetatable : Bytes := ascii "zbus.observer.mt"

def zbusChanMetamethods : List (Bytes × LibFunction) :=
  [(ascii "pub", .chanPub), (ascii "read", .chanRead), (ascii "__tostring", .chanTostring),
    (ascii "__eq", .chanEquals)]

def zbusObsMetamethods : List (Bytes × LibFunction) := [(ascii "wait_msg", .subWaitMsg)]

/-- `zbus`. -/
def zbusLib : List (Bytes × LibFunction) :=
  [(ascii "channel_declare", .zbusChannelDeclare),
    (ascii "observer_declare", .zbusObserverDeclare)]

/-- `fs_lib`. -/
def fsLib : List (Bytes × LibFunction) :=
  [(ascii "dofile", .lFsDofile), (ascii "loadfile", .lFsLoadfile), (ascii "list", .lFsList)]

def zephyrWrappers : List (Bytes × LibFunction) :=
  [(ascii "msleep", .kMsleepWrapper), (ascii "printk", .printkWrapper),
    (ascii "log_inf", .logInfWrapper), (ascii "log_wrn", .logWrnWrapper),
    (ascii "log_dbg", .logDbgWrapper), (ascii "log_err", .logErrWrapper)]

/-- The options `CONFIG_LUA_LIB_*`, `CONFIG_LUA_LIB_ZBUS` and `CONFIG_LUA_FS`, and the names of
the functions in each library of the Lua core. -/
structure LibConfig where
  libs : LuaLibs
  zbus : Bool
  fs : Bool
  coreNames : Bytes → List Bytes

/-- Code under an `#ifdef`. -/
def whenDefined (c : Bool) (m : LibM Unit) : LibM Unit := if c then m else pure ⟨⟩

/-- A metatable that is its own `__index`. -/
def openMetatable (tname : Bytes) (metamethods : List (Bytes × LibFunction)) : LibM Unit := do
  let _ ← luaLNewmetatable tname
  luaPushvalue (-1)
  luaSetfield (.slot (-2)) (ascii "__index")
  luaLSetfuncs metamethods
  luaPop 1

def luaopenZbus : LibM Nat := do
  openMetatable zbusChanMetatable zbusChanMetamethods
  openMetatable zbusObsMetatable zbusObsMetamethods
  luaLNewlib zbusLib
  return 1

def luaopenFs : LibM Nat := do
  luaLNewlib fsLib
  luaPushcfunction .lFsDofile
  luaSetglobal (ascii "dofile")
  luaPushcfunction .lFsLoadfile
  luaSetglobal (ascii "loadfile")
  return 1

def luaopenZephyr (cfg : LibConfig) : LibM Nat := do
  luaLNewlib zephyrWrappers
  whenDefined cfg.zbus do
    let _ ← luaopenZbus
    luaSetfield (.slot (-2)) (ascii "zbus")
  whenDefined cfg.fs do
    let _ ← luaopenFs
    luaSetfield (.slot (-2)) (ascii "fs")
  return 1

def coreFunctions (cfg : LibConfig) (lib : Bytes) : List (Bytes × LibFunction) :=
  (cfg.coreNames lib).map fun name => (name, .core lib name)

/-- `luaopen_string` and the others are not part of the repository; each returns a new table
with its functions. -/
def luaopenCore (cfg : LibConfig) (lib : Bytes) : LibM Nat := do
  luaLNewlib (coreFunctions cfg lib)
  return 1

/-- What calling a function does that is found in `_PRELOAD`. -/
def callPreloaded (cfg : LibConfig) : LibFunction → LibM Nat
  | .luaopenZephyr => luaopenZephyr cfg
  | .luaopenCore lib => luaopenCore cfg lib
  | _ => return 0

/-- `lua_call(L, nargs, 1)`: the function gets a frame with its arguments. -/
def luaCall (cfg : LibConfig) (nargs : Nat) : LibM Unit := do
  let s ← get
  match s.stack.drop nargs with
  | some (.function f) :: rest =>
      set { s with stack := s.stack.take nargs }
      let n ← callPreloaded cfg f
      modify fun t => { t with stack := ((t.stack.take n).getLast?.getD none) :: rest }
  | _ => throw (.error (.runtime "attempt to call a value"))

/-- `luaz_require`, with its argument alone on the stack. -/
def luazRequire (cfg : LibConfig) (arg : Bytes) : LibM Nat := do
  let name := CString.text arg
  -- Index 2 is the table `_LOADED`.
  luaLGetsubtable loadedTable
  if toBoolean (← luaGetfield (.slot 2) name) then
    return 1
  luaPop 1
  -- Index 3 is the table `_PRELOAD`.
  luaLGetsubtable preloadTable
  if (← luaGetfield (.slot 3) name).isNone then
    allocating
    throw (.error (.runtime ("module '" ++ latin1 name ++
      "' not found:\n\tno field package.preload['" ++ latin1 name ++ "']")))
  luaPushvalue 1
  luaPushstring (ascii ":preload:")
  luaCall cfg 2
  if ((← get).stack.head?.getD none).isSome then
    luaSetfield (.slot 2) name
  else
    luaPop 1
    luaPushboolean true
    luaSetfield (.slot 2) name
  let _ ← luaGetfield (.slot 2) name
  luaPushstring (ascii ":preload:")
  return 2

/-- `luaL_requiref(L, LUA_GNAME, luaopen_base, 1)` and `lua_pop(L, 1)`. `luaopen_base` puts its
functions among the globals. -/
def requirefBase (cfg : LibConfig) : LibM Unit := do
  luaLGetsubtable loadedTable
  push (some (.table globalsRef))
  luaLSetfuncs (coreFunctions cfg (ascii "_G"))
  luaPushvalue (-1)
  luaSetfield (.slot (-2)) (ascii "_G")
  luaPushstring (ascii "Lua 5.5")
  luaSetfield (.slot (-2)) (ascii "_VERSION")
  luaSetfield (.slot (-2)) (ascii "_G")
  luaPop 1

def preload (f : LibFunction) (name : Bytes) : LibM Unit := do
  luaPushcfunction f
  luaSetfield (.slot (-2)) name

def luazOpenlibs (cfg : LibConfig) : LibM Unit := do
  luaPushcfunction .luazRequire
  luaSetglobal (ascii "require")
  whenDefined cfg.libs.base (requirefBase cfg)
  luaLGetsubtable preloadTable
  preload .luaopenZephyr (ascii "zephyr")
  whenDefined cfg.libs.string (preload (.luaopenCore (ascii "string")) (ascii "string"))
  whenDefined cfg.libs.table (preload (.luaopenCore (ascii "table")) (ascii "table"))
  whenDefined cfg.libs.math (preload (.luaopenCore (ascii "math")) (ascii "math"))
  whenDefined cfg.libs.coroutine
    (preload (.luaopenCore (ascii "coroutine")) (ascii "coroutine"))
  whenDefined cfg.libs.utf8 (preload (.luaopenCore (ascii "utf8")) (ascii "utf8"))
  whenDefined cfg.libs.debug (preload (.luaopenCore (ascii "debug")) (ascii "debug"))
  luaPop 1

end LuaZephyr.Libraries
