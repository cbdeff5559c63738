import LuaZephyr.Host.LuacListing
import LuaZephyr.Library.Outcome

/-!
# The compiler on the host

`luac` reads its command line, loads the files it names and writes the bytecode of the one
function they are combined into. Any call of the host or of the Lua core may fail, as the
schedule `fails` has it. The program then leaves with a message and a status, wherever it is.

The Lua core is not at hand: its compiler and `luaU_dump` are parameters. A listing is printed
in one call of the host, whereas the program makes one for each piece; what has come out when
one of them fails is left open. The return value of `printf` is not looked at, so that a
listing may be lost without a message.
-/

namespace LuaZephyr.Luac

open Outcome

structure HostState where
  files : Bytes → Option Bytes
  stdin : Bytes
  stdout : Bytes
  stderr : Bytes
  /-- `ferror` of the standard output and of the output file. -/
  stdoutError : Bool
  outputError : Bool
  fails : Nat → Bool
  calls : Nat

/-- The program leaves, or does what C leaves undefined. -/
inductive Leave where
  | exit (status : Nat)
  | undefined
  deriving DecidableEq, Repr

abbrev LuacM := EStateM Leave HostState

/-- A call that may fail. -/
def hostFails : LuacM Bool := do
  let h ← get
  set { h with calls := h.calls + 1 }
  return h.fails h.calls

def printErr (text : Bytes) : LuacM Unit := modify fun h => { h with stderr := h.stderr ++ text }

def printOut (text : Bytes) : LuacM Unit := do
  if ← hostFails then
    modify fun h => { h with stdoutError := true }
  else
    modify fun h => { h with stdout := h.stdout ++ text }

inductive Stream where
  | stdout
  | file (path : Bytes)
  deriving DecidableEq, Repr

/-- `fopen(path, "wb")`. -/
def fopen (path : Bytes) : LuacM (Option Stream) := do
  if ← hostFails then
    return none
  modify fun h =>
    { h with files := Function.update h.files path (some []), outputError := false }
  return some (.file path)

/-- The number of items written, of one. -/
def fwrite (piece : Bytes) (d : Stream) : LuacM Nat := do
  if piece = [] then
    return 0
  if ← hostFails then
    match d with
    | .stdout => modify fun h => { h with stdoutError := true }
    | .file _ => modify fun h => { h with outputError := true }
    return 0
  match d with
  | .stdout => modify fun h => { h with stdout := h.stdout ++ piece }
  | .file path => modify fun h =>
      { h with files := Function.update h.files path ((h.files path).map (· ++ piece)) }
  return 1

def ferror (d : Stream) : LuacM Bool := do
  match d with
  | .stdout => return (← get).stdoutError
  | .file _ => return (← get).outputError

def fclose (_ : Stream) : LuacM Bool := hostFails

/-- The static variables. An output of none is the standard output. -/
structure Settings where
  progname : Bytes
  listing : Nat
  dumping : Bool
  stripping : Bool
  output : Option Bytes
  deriving DecidableEq, Repr

/-- `Output`. -/
def defaultOutput : Bytes := ascii "luac.out"

def Settings.start : Settings := ⟨ascii "luac", 0, true, false, some defaultOutput⟩

def failure : Nat := 1

def fatal {α : Type} (s : Settings) (message : Bytes) : LuacM α := do
  printErr (s.progname ++ ascii ": " ++ message ++ ascii "\n")
  throw (.exit failure)

/-- With the standard output as the output the name for `%s` is a null pointer. -/
def cannot {α : Type} (core : LuacCore) (s : Settings) (what : Bytes) : LuacM α := do
  match s.output with
  | none => throw .undefined
  | some output =>
      printErr (s.progname ++ ascii ": cannot " ++ what ++ ascii " " ++ output ++ ascii ": " ++
        core.strerror ++ ascii "\n")
      throw (.exit failure)

def usageText (progname : Bytes) : Bytes :=
  ascii "usage: " ++ progname ++ ascii " [options] [filenames]\n" ++
    ascii "Available options are:\n" ++
    ascii "  -l       list (use -l -l for full listing)\n" ++
    ascii "  -o name  output to file 'name' (default is \"" ++ defaultOutput ++ ascii "\")\n" ++
    ascii "  -p       parse only\n" ++
    ascii "  -s       strip debug information\n" ++
    ascii "  -v       show version information\n" ++
    ascii "  --       stop handling options\n" ++
    ascii "  -        stop handling options and process stdin\n"

def dash : UInt8 := 45

def usage {α : Type} (s : Settings) (message : Bytes) : LuacM α := do
  if message.head? = some dash then
    printErr (s.progname ++ ascii ": unrecognized option '" ++ message ++ ascii "'\n")
  else
    printErr (s.progname ++ ascii ": " ++ message ++ ascii "\n")
  printErr (usageText s.progname)
  throw (.exit failure)

/-- The loop of `doargs`, from an argument on: the settings, how often the version is asked
for, and what is left. -/
def doargsLoop (s : Settings) (version : Nat) : List Bytes → LuacM (Settings × Nat × List Bytes)
  | [] => return (s, version, [])
  | arg :: argv => do
      if arg.head? ≠ some dash then
        return (s, version, arg :: argv)
      else if arg = ascii "--" then
        return (s, if version = 0 then version else version + 1, argv)
      else if arg = ascii "-" then
        return (s, version, arg :: argv)
      else if arg = ascii "-l" then
        doargsLoop { s with listing := s.listing + 1 } version argv
      else if arg = ascii "-o" then
        match argv with
        | [] => usage s (ascii "'-o' needs argument")
        | name :: argv =>
            if name = [] ∨ (name.head? = some dash ∧ name.tail ≠ []) then
              usage s (ascii "'-o' needs argument")
            else
              doargsLoop { s with output := if name = ascii "-" then none else some name }
                version argv
      else if arg = ascii "-p" then
        doargsLoop { s with dumping := false } version argv
      else if arg = ascii "-s" then
        doargsLoop { s with stripping := true } version argv
      else if arg = ascii "-v" then
        doargsLoop s (version + 1) argv
      else
        usage s arg

/-- `progname=argv[0]`. -/
def Settings.named (s : Settings) (argv : List Bytes) : Settings :=
  match argv with
  | [] => s
  | name :: _ => if name = [] then s else { s with progname := name }

/-- Without a file there is the listing of what was written last. -/
def Settings.inputs (s : Settings) (files : List Bytes) : Settings × List Bytes :=
  if files = [] ∧ (s.listing ≠ 0 ∨ ¬ s.dumping) then
    ({ s with dumping := false }, [defaultOutput])
  else (s, files)

/-- The files that are named, with the settings. -/
def doargs (core : LuacCore) (argv : List Bytes) : LuacM (Settings × List Bytes) := do
  let (s, version, files) ← doargsLoop (Settings.start.named argv) 0 argv.tail
  if version ≠ 0 then
    printOut (core.copyright ++ ascii "\n")
    if version + 1 = argv.length then
      throw (.exit 0)
  return s.inputs files

def outOfMemory : Bytes := ascii "not enough memory"

/-- `luaL_loadfile`. The standard input is read to its end. -/
def luaLLoadfile (core : LuacCore) (filename : Option Bytes) : LuacM (Except Bytes Proto) := do
  if ← hostFails then
    return .error outOfMemory
  let h ← get
  match filename with
  | none =>
      set { h with stdin := [] }
      return core.loadfile none (some h.stdin)
  | some name => return core.loadfile (some name) (h.files name)

/-- The functions on the stack, the top one first. -/
def loadFiles (core : LuacCore) (s : Settings) : List Bytes → List Proto → LuacM (List Proto)
  | [], stack => return stack
  | arg :: argv, stack => do
      let filename := if arg = ascii "-" then none else some arg
      match ← luaLLoadfile core filename with
      | .error message => fatal s message
      | .ok f => loadFiles core s argv (f :: stack)

/-- `FUNCTION`. -/
def functionText : Bytes := ascii "(function()end)();\n"

/-- What `reader` hands out, with its count. -/
def readerText : Nat → Bytes
  | 0 => []
  | count + 1 => functionText ++ readerText count

def luaLoad (core : LuacCore) (text : Bytes) : LuacM (Except Bytes Proto) := do
  if ← hostFails then
    return .error outOfMemory
  return core.load text

def toproto (stack : List Proto) (i : Int) : Option Proto := stack[(-i - 1).toNat]?

/-- `upvalues[0].instack=0`. -/
def outsideStack : Proto → Proto
  | .mk fields p =>
      match fields.upvalues with
      | [] => .mk fields p
      | u :: upvalues => .mk { fields with upvalues := { u with instack := false } :: upvalues } p

/-- The loop of `combine`, over the indices that are left. -/
def combineLoop (stack : List Proto) (n : Nat) : List Nat → List Proto → LuacM (List Proto)
  | [], p => return p
  | i :: indices, p => do
      match toproto stack (i - n - 1) with
      | some f =>
          if i < p.length then
            combineLoop stack n indices (p.set i (outsideStack f))
          else
            throw .undefined
      | none => throw .undefined

def combine (core : LuacCore) (s : Settings) (stack : List Proto) (n : Nat) : LuacM Proto := do
  if n = 1 then
    match toproto stack (-1) with
    | some f => return f
    | none => throw .undefined
  else
    match ← luaLoad core (readerText n) with
    | .error message => fatal s message
    | .ok f =>
        let p ← combineLoop (f :: stack) n (List.range n) f.p
        return .mk f.fields p

/-- Whether the writer reports an error. -/
def writer (piece : Bytes) (d : Stream) : LuacM Bool := do
  let written ← fwrite piece d
  return written ≠ 1 ∧ piece ≠ []

/-- `luaU_dump` hands out the pieces until there is an error, or raises one. -/
def luaUDump (d : Stream) : List Bytes → LuacM (Except Bytes Unit)
  | [] => return .ok ⟨⟩
  | piece :: pieces => do
      if ← hostFails then
        return .error outOfMemory
      if ← writer piece d then
        return .ok ⟨⟩
      luaUDump d pieces

def openOutput (core : LuacCore) (s : Settings) : LuacM Stream := do
  match s.output with
  | none => return .stdout
  | some path =>
      match ← fopen path with
      | none => cannot core s (ascii "open")
      | some d => return d

/-- What `pmain` does when it is dumping. -/
def dumpFunction (core : LuacCore) (s : Settings) (f : Proto) : LuacM Unit := do
  let d ← openOutput core s
  match ← luaUDump d (core.dump f s.stripping) with
  | .error message => fatal s message
  | .ok _ =>
      if ← ferror d then
        cannot core s (ascii "write")
      if ← fclose d then
        cannot core s (ascii "close")

/-- An error that is raised here ends the program in `main`, with its message. -/
def pmain (core : LuacCore) (s : Settings) (files : List Bytes) : LuacM Unit := do
  if ← hostFails then
    fatal s (ascii "too many input files")
  let stack ← loadFiles core s files []
  let f ← combine core s stack files.length
  if s.listing ≠ 0 then
    match printFunction core (1 < s.listing) f with
    | none => throw .undefined
    | some text => printOut text
  if s.dumping then
    dumpFunction core s f

def main (core : LuacCore) (argv : List Bytes) : LuacM Nat := do
  let (s, files) ← doargs core argv
  if files = [] then
    usage s (ascii "no input files given")
  if ← hostFails then
    fatal s (ascii "cannot create state: not enough memory")
  pmain core s files
  return 0

/-- The status the program ends with; none if what it does is undefined. -/
def exec (core : LuacCore) (argv : List Bytes) (h : HostState) : Option Nat × HostState :=
  match main core argv h with
  | .ok status t => (some status, t)
  | .error (.exit status) t => (some status, t)
  | .error .undefined t => (none, t)

end LuaZephyr.Luac
