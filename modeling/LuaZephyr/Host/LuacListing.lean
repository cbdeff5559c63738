import LuaZephyr.Library.CString
import LuaZephyr.Library.LuaLiteral
import LuaZephyr.Lua.Value

/-!
# The listings of the compiler

A function as the Lua core has it, and the text `luac -l` prints for it. The packing of the
instructions and the names of the operations come from the core, which is not at hand, and are
parameters; what `PrintCode` makes of each operation is here. It looks up constants, upvalues,
inner functions and the next instruction by the operands and checks none of them: a function in
which an operand points behind the end of an array has no listing. The compiler makes no such
function, but a precompiled file may hold one.
-/

namespace LuaZephyr.Luac

open LuaLiteral

structure Upvaldesc where
  name : Option Bytes
  instack : Bool
  idx : Nat
  deriving DecidableEq, Repr

structure LocVar where
  varname : Bytes
  startpc : Nat
  endpc : Nat
  deriving DecidableEq, Repr

/-- A floating-point number is its bits. -/
inductive Constant where
  | nil
  | boolean (b : Bool)
  | float (bits : UInt64)
  | integer (n : Int)
  | string (s : Bytes)
  deriving DecidableEq, Repr

/-- A `Proto`, but for the functions inside. -/
structure ProtoFields where
  source : Option Bytes
  linedefined : Nat
  lastlinedefined : Nat
  numparams : Nat
  isvararg : Bool
  maxstacksize : Nat
  code : List UInt32
  k : List Constant
  upvalues : List Upvaldesc
  locvars : List LocVar
  deriving DecidableEq, Repr

inductive Proto where
  | mk (fields : ProtoFields) (p : List Proto)

namespace Proto

def fields : Proto → ProtoFields
  | .mk fields _ => fields

def p : Proto → List Proto
  | .mk _ p => p

end Proto

/-- The operation codes of the Lua core. -/
inductive OpCode where
  | move | loadi | loadf | loadk | loadkx | loadfalse | lfalseskip | loadtrue | loadnil
  | getupval | setupval | gettabup | gettable | geti | getfield
  | settabup | settable | seti | setfield | newtable | self
  | addi | addk | subk | mulk | modk | powk | divk | idivk | bandk | bork | bxork | shli | shri
  | add | sub | mul | mod | pow | div | idiv | band | bor | bxor | shl | shr
  | mmbin | mmbini | mmbink | unm | bnot | not | len | concat | close | tbc | jmp
  | eq | lt | le | eqk | eqi | lti | lei | gti | gei | test | testset
  | call | tailcall | return | return0 | return1
  | forloop | forprep | tforprep | tforcall | tforloop | setlist | closure
  | vararg | getvarg | errnnil | varargprep | extraarg
  deriving DecidableEq, Repr

/-- What the `GETARG` macros take out of an instruction. -/
structure Operands where
  a : Nat
  b : Nat
  c : Nat
  ax : Nat
  bx : Nat
  sb : Int
  sc : Int
  vb : Nat
  vc : Nat
  sbx : Int
  sj : Int
  isk : Bool
  deriving DecidableEq, Repr

/-- What is not part of the program: the compiler and `luaU_dump` of the Lua core, how it packs
instructions, its tables of names, and texts of the C library. -/
structure LuacCore where
  /-- `LUA_COPYRIGHT`. -/
  copyright : Bytes
  /-- The file's name, or none for the standard input, and its contents if it can be read. -/
  loadfile : Option Bytes → Option Bytes → Except Bytes Proto
  load : Bytes → Except Bytes Proto
  dump : Proto → Bool → List Bytes
  /-- The operation of an instruction, none if the number stands for no operation. -/
  opcode : UInt32 → Option OpCode
  operands : UInt32 → Operands
  opnames : OpCode → Bytes
  /-- `MAXARG_C`. -/
  maxArgC : Nat
  /-- `luaG_getfuncline`. -/
  funcline : Proto → Nat → Option Int
  /-- The name of a metamethod, none behind the end of their table. -/
  eventname : Nat → Option Bytes
  /-- As `LUA_NUMBER_FMT` has it. -/
  formatNumber : UInt64 → Bytes
  address : Proto → Bytes
  strerror : Bytes

def number (n : Int) : Bytes := ascii (toString n)

/-- `PrintString`, one character of it. -/
def printChar (c : UInt8) : Bytes :=
  match c with
  | 34 => ascii "\\\""
  | 92 => ascii "\\\\"
  | 7 => ascii "\\a"
  | 8 => ascii "\\b"
  | 12 => ascii "\\f"
  | 10 => ascii "\\n"
  | 13 => ascii "\\r"
  | 9 => ascii "\\t"
  | 11 => ascii "\\v"
  | c =>
      -- `isprint` in the locale "C", else three digits.
      if 32 ≤ c ∧ c ≤ 126 then [c]
      else [92, 48 + c / 100, 48 + c / 10 % 10, 48 + c % 10]

def printString (ts : Bytes) : Bytes := ascii "\"" ++ ts.flatMap printChar ++ ascii "\""

theorem decimal_digits (c : UInt8) :
    isDigit (48 + c / 100) = true ∧ isDigit (48 + c / 10 % 10) = true ∧
      isDigit (48 + c % 10) = true ∧
      numeral [48 + c / 100, 48 + c / 10 % 10, 48 + c % 10] = c.toNat := by
  have hall : ∀ n : Fin 256, let c := UInt8.ofFin n
      isDigit (48 + c / 100) = true ∧ isDigit (48 + c / 10 % 10) = true ∧
        isDigit (48 + c % 10) = true ∧
        numeral [48 + c / 100, 48 + c / 10 % 10, 48 + c % 10] = c.toNat := by decide +kernel
  exact hall c.toFin

theorem spells_printChar (c : UInt8) : Spells (printChar c) c := by
  unfold printChar
  split
  case h_10 hquote hslash _ _ _ hline hreturn _ _ =>
    split
    · exact spells_plain hquote hslash ⟨hline, hreturn⟩
    · obtain ⟨h₁, h₂, h₃, hvalue⟩ := decimal_digits c
      have hspells := spells_decimal h₁ h₂ h₃ (by rw [hvalue]; exact c.toNat_lt)
      rwa [hvalue, UInt8.ofNat_toNat] at hspells
  all_goals exact spells_simple rfl

theorem printChar_printable (c : UInt8) : ∀ d ∈ printChar c, 32 ≤ d ∧ d ≤ 126 := by
  have hall : ∀ n : Fin 256,
      (printChar (UInt8.ofFin n)).all (fun d => 32 ≤ d ∧ d ≤ 126) = true := by decide +kernel
  intro d hd
  exact of_decide_eq_true (List.all_eq_true.mp (hall c.toFin) d hd)

/-- A string in the listing is a literal that Lua reads as the string, whatever comes after it,
and all of it can be printed in one line. -/
theorem printString_reads (ts rest : Bytes) :
    read (printString ts ++ rest) = some (ts, rest) ∧ ∀ d ∈ printString ts, 32 ≤ d ∧ d ≤ 126 := by
  constructor
  · have hread := read_spelled spells_printChar ts rest
    rw [printString, List.append_assoc, List.append_assoc]
    exact hread
  · intro d hd
    rw [printString, List.mem_append, List.mem_append] at hd
    obtain (hd | hd) | hd := hd
    · rw [List.mem_singleton.mp hd]
      decide
    · obtain ⟨c, -, hc⟩ := List.mem_flatMap.mp hd
      exact printChar_printable c d hc
    · rw [List.mem_singleton.mp hd]
      decide

/-- The digits of an escape sequence are not taken for more than they are. -/
example : printString [0, 49] = ascii "\"\\0001\"" := by decide

def printType : Constant → Bytes
  | .nil => ascii "N\t"
  | .boolean _ => ascii "B\t"
  | .float _ => ascii "F\t"
  | .integer _ => ascii "I\t"
  | .string _ => ascii "S\t"

def printConstant (core : LuacCore) : Constant → Bytes
  | .nil => ascii "nil"
  | .boolean false => ascii "false"
  | .boolean true => ascii "true"
  | .float bits =>
      let buff := core.formatNumber bits
      if buff.all (ascii "-0123456789").contains then buff ++ ascii ".0" else buff
  | .integer n => number n
  | .string s => printString s

def comment : Bytes := ascii "\t; "

/-- `printf` of the operands. -/
def args (l : List Int) : Bytes := (ascii " ").intercalate (l.map number)

/-- `ISK`. -/
def iskText (isk : Bool) : Bytes := if isk then ascii "k" else []

def flipText (isk : Bool) : Bytes := if isk then ascii " flip" else []

section PrintCode

variable (core : LuacCore) (f : Proto)

/-- `PrintConstant`, none behind the end of the constants. -/
def constantAt (i : Nat) : Option Bytes := (f.fields.k[i]?).map (printConstant core)

/-- `UPVALNAME`. -/
def upvalname (i : Nat) : Option Bytes :=
  (f.fields.upvalues[i]?).map fun u => (u.name.map CString.text).getD (ascii "-")

/-- `EXTRAARG`: the operand of the instruction after this one. -/
def extraArg (pc : Nat) : Option Nat := (f.fields.code[pc + 1]?).map fun i => (core.operands i).ax

/-- `n + EXTRAARGC`, none where that is too large for an `int`. -/
def withExtraArgC (pc n : Nat) : Option Bytes := do
  let sum := n + (← extraArg core f pc) * (core.maxArgC + 1)
  if sum < 2 ^ 31 then some (number sum) else none

/-- The constant behind the operands, where the flag says that it is one. -/
def constantIf (isk : Bool) (start : Bytes) (i : Nat) : Option Bytes :=
  if isk then (constantAt core f i).map (start ++ ·) else some []

/-- The `switch` of `PrintCode`; none where it looks behind the end of an array. -/
def printOperands (pc : Nat) (o : OpCode) (x : Operands) : Option Bytes :=
  match o with
  | .move | .unm | .bnot | .not | .len | .concat => some (args [x.a, x.b])
  | .loadi | .loadf => some (args [x.a, x.sbx])
  | .loadk => do
      return args [x.a, x.bx] ++ comment ++ (← constantAt core f x.bx)
  | .loadkx => do
      return args [x.a] ++ comment ++ (← constantAt core f (← extraArg core f pc))
  | .loadfalse | .lfalseskip | .loadtrue | .close | .tbc | .return1 | .varargprep =>
      some (args [x.a])
  | .loadnil => some (args [x.a, x.b] ++ comment ++ number (x.b + 1) ++ ascii " out")
  | .getupval | .setupval => do
      return args [x.a, x.b] ++ comment ++ (← upvalname f x.b)
  | .gettabup => do
      return args [x.a, x.b, x.c] ++ comment ++ (← upvalname f x.b) ++ ascii " " ++
        (← constantAt core f x.c)
  | .gettable | .geti | .getvarg => some (args [x.a, x.b, x.c])
  | .getfield | .addk | .subk | .mulk | .modk | .powk | .divk | .idivk | .bandk | .bork
  | .bxork => do
      return args [x.a, x.b, x.c] ++ comment ++ (← constantAt core f x.c)
  | .settabup => do
      return args [x.a, x.b, x.c] ++ iskText x.isk ++ comment ++ (← upvalname f x.a) ++
        ascii " " ++ (← constantAt core f x.b) ++ (← constantIf core f x.isk (ascii " ") x.c)
  | .settable | .seti | .self => do
      return args [x.a, x.b, x.c] ++ iskText x.isk ++ (← constantIf core f x.isk comment x.c)
  | .setfield => do
      return args [x.a, x.b, x.c] ++ iskText x.isk ++ comment ++ (← constantAt core f x.b) ++
        (← constantIf core f x.isk (ascii " ") x.c)
  | .newtable => do
      return args [x.a, x.vb, x.vc] ++ iskText x.isk ++ comment ++
        (← withExtraArgC core f pc x.vc)
  | .addi | .shli | .shri => some (args [x.a, x.b, x.sc])
  | .add | .sub | .mul | .mod | .pow | .div | .idiv | .band | .bor | .bxor | .shl | .shr =>
      some (args [x.a, x.b, x.c])
  | .mmbin => do
      return args [x.a, x.b, x.c] ++ comment ++ (← core.eventname x.c)
  | .mmbini => do
      return args [x.a, x.sb, x.c, if x.isk then 1 else 0] ++ comment ++
        (← core.eventname x.c) ++ flipText x.isk
  | .mmbink => do
      return args [x.a, x.b, x.c, if x.isk then 1 else 0] ++ comment ++
        (← core.eventname x.c) ++ ascii " " ++ (← constantAt core f x.b) ++ flipText x.isk
  | .jmp => some (args [x.sj] ++ comment ++ ascii "to " ++ number (x.sj + pc + 2))
  | .eq | .lt | .le => some (args [x.a, x.b, if x.isk then 1 else 0])
  | .eqk => do
      return args [x.a, x.b, if x.isk then 1 else 0] ++ comment ++ (← constantAt core f x.b)
  | .eqi | .lti | .lei | .gti | .gei => some (args [x.a, x.sb, if x.isk then 1 else 0])
  | .test => some (args [x.a, if x.isk then 1 else 0])
  | .testset => some (args [x.a, x.b, if x.isk then 1 else 0])
  | .call => some (args [x.a, x.b, x.c] ++ comment ++
      (if x.b = 0 then ascii "all in " else number (x.b - 1) ++ ascii " in ") ++
      (if x.c = 0 then ascii "all out" else number (x.c - 1) ++ ascii " out"))
  | .tailcall => some (args [x.a, x.b, x.c] ++ iskText x.isk ++ comment ++ number (x.b - 1) ++
      ascii " in")
  | .return => some (args [x.a, x.b, x.c] ++ iskText x.isk ++ comment ++
      (if x.b = 0 then ascii "all out" else number (x.b - 1) ++ ascii " out"))
  | .return0 => some []
  | .forloop | .tforloop =>
      some (args [x.a, x.bx] ++ comment ++ ascii "to " ++ number (pc - x.bx + 2))
  | .forprep => some (args [x.a, x.bx] ++ comment ++ ascii "exit to " ++ number (pc + x.bx + 3))
  | .tforprep => some (args [x.a, x.bx] ++ comment ++ ascii "to " ++ number (pc + x.bx + 2))
  | .tforcall => some (args [x.a, x.c])
  | .setlist => do
      let length ← (if x.isk then (withExtraArgC core f pc x.c).map (comment ++ ·) else some [])
      return args [x.a, x.vb, x.vc] ++ iskText x.isk ++ length
  | .closure => do
      return args [x.a, x.bx] ++ comment ++ core.address (← f.p[x.bx]?)
  | .vararg => some (args [x.a, x.b, x.c] ++ iskText x.isk ++ comment ++
      (if x.c = 0 then ascii "all out" else number (x.c - 1) ++ ascii " out"))
  | .errnnil => do
      let name ← (if x.bx = 0 then some (ascii "?") else constantAt core f (x.bx - 1))
      return args [x.a, x.bx] ++ comment ++ name
  | .extraarg => some (args [x.ax])

/-- `%-9s`. -/
def padded (name : Bytes) : Bytes := name ++ List.replicate (9 - name.length) 32

/-- One line of `PrintCode`. -/
def printInstruction (pc : Nat) (i : UInt32) : Option Bytes := do
  let o ← core.opcode i
  let line ← core.funcline f pc
  return ascii "\t" ++ number (pc + 1) ++ ascii "\t" ++
    (if 0 < line then ascii "[" ++ number line ++ ascii "]\t" else ascii "[-]\t") ++
    padded (core.opnames o) ++ ascii "\t" ++ (← printOperands core f pc o (core.operands i)) ++
    ascii "\n"

def printCode : Option Bytes :=
  (f.fields.code.zipIdx.mapM fun x => printInstruction core f x.2 x.1).map List.flatten

end PrintCode

/-- `SS`. -/
def plural (x : Nat) : Bytes := if x = 1 then [] else ascii "s"

/-- `S` after `%d`, with what is counted. -/
def counted (x : Nat) (what : String) : Bytes := number x ++ ascii what ++ plural x

def sourceName (f : Proto) : Bytes :=
  match f.fields.source.getD (ascii "=?") with
  | [] => ascii "(string)"
  | c :: s =>
      if c = 64 ∨ c = 61 then CString.text s
      else if c = 27 then ascii "(bstring)"
      else ascii "(string)"

def printHeader (core : LuacCore) (f : Proto) : Bytes :=
  let fields := f.fields
  ascii "\n" ++ (if fields.linedefined = 0 then ascii "main" else ascii "function") ++
    ascii " <" ++ sourceName f ++ ascii ":" ++ number fields.linedefined ++ ascii "," ++
    number fields.lastlinedefined ++ ascii "> (" ++ counted fields.code.length " instruction" ++
    ascii " at " ++ core.address f ++ ascii ")\n" ++
    number fields.numparams ++ (if fields.isvararg then ascii "+" else []) ++ ascii " param" ++
    plural fields.numparams ++ ascii ", " ++ counted fields.maxstacksize " slot" ++ ascii ", " ++
    counted fields.upvalues.length " upvalue" ++ ascii ", " ++
    counted fields.locvars.length " local" ++ ascii ", " ++ counted fields.k.length " constant" ++
    ascii ", " ++ counted f.p.length " function" ++ ascii "\n"

/-- One line for each element, with its index. -/
def printIndexed {α : Type} (line : α → Bytes) (l : List α) : Bytes :=
  l.zipIdx.flatMap fun x => ascii "\t" ++ number x.2 ++ ascii "\t" ++ line x.1 ++ ascii "\n"

def printDebug (core : LuacCore) (f : Proto) : Bytes :=
  let fields := f.fields
  let heading : Bytes := ascii ") for " ++ core.address f ++ ascii ":\n"
  ascii "constants (" ++ number fields.k.length ++ heading ++
    printIndexed (fun o => printType o ++ printConstant core o) fields.k ++
    ascii "locals (" ++ number fields.locvars.length ++ heading ++
    printIndexed (fun v => CString.text v.varname ++ ascii "\t" ++ number (v.startpc + 1) ++
      ascii "\t" ++ number (v.endpc + 1)) fields.locvars ++
    ascii "upvalues (" ++ number fields.upvalues.length ++ heading ++
    printIndexed (fun u => (u.name.map CString.text).getD (ascii "-") ++ ascii "\t" ++
      number (if u.instack then 1 else 0) ++ ascii "\t" ++ number u.idx) fields.upvalues

mutual

/-- `PrintFunction`; none where an instruction does not fit its function. -/
def printFunction (core : LuacCore) (full : Bool) : Proto → Option Bytes
  | .mk fields p => do
      return printHeader core (.mk fields p) ++ (← printCode core (.mk fields p)) ++
        (if full then printDebug core (.mk fields p) else []) ++ (← printInner core full p)

def printInner (core : LuacCore) (full : Bool) : List Proto → Option Bytes
  | [] => some []
  | f :: p => do
      return (← printFunction core full f) ++ (← printInner core full p)

end

end LuaZephyr.Luac
