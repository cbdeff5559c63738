import LuaZephyr.Generate.Bytecode
import LuaZephyr.Host.LuacRuns
import LuaZephyr.Library.CLiteral

/-!
# Building a C file from a script

`luaz_gen.py` in bytecode mode with the `luac` it starts, as one run over the files of the host:
a temporary file takes the bytecode, and goes again however the run ends, unless the host refuses
to remove it. Every call of the host may fail, starting the process included, and Python then
leaves with an exception and the status 1. The arguments have been parsed and the template has
been read. The generated text is written in one call; what is in a file when that fails is not
looked at.
-/

namespace LuaZephyr.Build

open Luac Outcome PyText CLexing CConstants

/-- A call of the host; an exception ends the program. -/
def raising : LuacM Unit := do
  if ← hostFails then
    throw (.exit failure)

/-- `subprocess.run`: the status, and what went to the standard error. -/
def subprocessRun (core : LuacCore) (args : List Bytes) : LuacM (Option Nat × Bytes) := do
  raising
  let h ← get
  let (status, t) := exec core args
    { h with stdout := [], stderr := [], stdoutError := false, outputError := false }
  set { h with files := t.files, stdin := t.stdin, calls := t.calls }
  return (status, t.stderr)

/-- `os.unlink`. -/
def unlink (path : Bytes) : LuacM Unit := do
  raising
  modify fun h => { h with files := Function.update h.files path none }

/-- The `finally` of `lua_to_bytecode`. Where it raises, what was on its way is lost. -/
def finallyUnlink {α : Type} (path : Bytes) (m : LuacM α) : LuacM α := fun h =>
  match m h with
  | .ok a t => (do unlink path; return a : LuacM α) t
  | .error e t => (do unlink path; throw e : LuacM α) t

/-- The bytes that `lua_to_bytecode` reads back. -/
def compileScript (core : LuacCore) (luac tmpPath path : Bytes) : LuacM Bytes := do
  raising
  modify fun h => { h with files := Function.update h.files tmpPath (some []) }
  -- It is closed before the `try` that would remove it.
  raising
  finallyUnlink tmpPath do
    let (status, stderr) ← subprocessRun core [luac, ascii "-s", ascii "-o", tmpPath, path]
    if status ≠ some 0 then
      printErr (ascii "luac error: " ++ stderr ++ ascii "\n")
      throw (.exit failure)
    raising
    return ((← get).files tmpPath).getD []

/-- `main` in bytecode mode, with the template that was read. -/
def main (core : LuacCore) (luac tmpPath : Bytes) (template name : List Char)
    (output file : Bytes) : LuacM Unit := do
  raising
  let replaced := withNames template name
  let data ← compileScript core luac tmpPath file
  let (byteCount, hexBytes) := bytecodeTexts data
  let text := replace Placeholder.luaBytecodeLen.text byteCount
    (replace Placeholder.luaBytecode.text hexBytes replaced)
  -- The directory is made, the file opened, and then it is written.
  raising
  raising
  modify fun h => { h with files := Function.update h.files output (some []) }
  raising
  modify fun h => { h with files := Function.update h.files output (some (CLiteral.utf8 text)) }

/-- The path starts at the root. -/
def Absolute (path : Bytes) : Prop := path.head? = some 47

def luacLine (luac tmpPath file : Bytes) : List Bytes :=
  [luac, ascii "-s", ascii "-o", tmpPath, file]

section Compile

variable {core : LuacCore} {luac tmpPath file : Bytes} {h t : HostState}

theorem Absolute.isName {path : Bytes} (hpath : Absolute path) : Opt.IsName path := by
  intro hdash
  rw [hpath] at hdash
  exact absurd hdash (by decide)

theorem Absolute.ne {path : Bytes} (hpath : Absolute path) {other : Bytes}
    (hother : other.head? ≠ some 47) : path ≠ other := by
  rintro rfl
  exact hother hpath

theorem parses_luacLine (htmp : Absolute tmpPath) (hfile : Absolute file) :
    Parses (luacLine luac tmpPath file).tail [.strip, .output tmpPath] false [file] := by
  have hend : Parses [file] [] false [file] := .nil (.file hfile.isName [])
  have houtput := hend.cons (o := .output tmpPath) ⟨htmp.ne (by decide), htmp.isName⟩
  exact houtput.cons (o := .strip) trivial

theorem not_versionOnly_luacLine (htmp : Absolute tmpPath) (hfile : Absolute file) :
    ¬ VersionOnly (luacLine luac tmpPath file).tail := by
  intro honly
  exact ((asked_eq_length_iff (parses_luacLine htmp hfile)).mpr honly).1 rfl

/-- The script is compiled without debug information, into the temporary file. -/
theorem command_luacLine (htmp : Absolute tmpPath) (hfile : Absolute file) {v : Bool}
    {s : Settings} {files : List Bytes}
    (hcommand : Command (luacLine luac tmpPath file) v s files) :
    files = [file] ∧ s.output = some tmpPath ∧ s.dumping = true ∧ s.stripping = true ∧
      s.listing = 0 := by
  obtain ⟨opts, dashes, named, hparses, -, -, heq⟩ := hcommand
  obtain ⟨hsettings, -, rfl⟩ := (parses_luacLine htmp hfile).same hparses
    (Settings.start.named (luacLine luac tmpPath file))
  rw [← hsettings, Settings.inputs, if_neg (fun h => List.cons_ne_nil _ _ h.1)] at heq
  obtain ⟨rfl, rfl⟩ := Prod.mk.inj heq
  have hnamed : (Settings.start.named (luacLine luac tmpPath file)).dumping = true ∧
      (Settings.start.named (luacLine luac tmpPath file)).listing = 0 := by
    change (if luac = [] then Settings.start
      else { Settings.start with progname := luac }).dumping = true ∧ (if luac = []
        then Settings.start else { Settings.start with progname := luac }).listing = 0
    split
    · exact ⟨rfl, rfl⟩
    · exact ⟨rfl, rfl⟩
  exact ⟨rfl, if_neg (htmp.ne (by decide)), hnamed.1, rfl, hnamed.2⟩

theorem program_luacLine (hfile : Absolute file) :
    program core h [file] = core.loadfile (some file) (h.files file) := by
  rw [program, compiled, if_neg (hfile.ne (by decide))]
  cases core.loadfile (some file) (h.files file) with
  | error m => rfl
  | ok f => rfl

/-- The script is only compiled, and the output has a name. -/
theorem not_undefined_luacLine (htmp : Absolute tmpPath) (hfile : Absolute file)
    (hended : Ended core (luacLine luac tmpPath file) h none t) : False := by
  have hcommand := @command_luacLine luac tmpPath file htmp hfile
  cases hended with
  | unlisted hc hfiles hprogram hlisting =>
      obtain ⟨-, -, -, -, hzero⟩ := hcommand hc
      rw [listingText, if_neg (not_not_intro hzero)] at hlisting
      contradiction
  | nameless hc hfiles hprogram hdumping houtput =>
      obtain ⟨-, hpath, -⟩ := hcommand hc
      exact absurd (hpath.symm.trans houtput) nofun

end Compile

/-- A file generated from a template in which the compiler reads these bytes. -/
structure Embeds (t : BytecodeTemplate) (name : List Char) (data : Bytes) (text : List Char) :
    Prop where
  filled : text = fill (embedded name data) t.pieces
  read : ∃ array length,
    text = fill (embedded name data) t.head ++ declared name array length ++
      fill (embedded name data) t.tail ∧
    initialiser array = some (data.map UInt8.toNat) ∧ constant length = some data.length

theorem embeds_fill (t : BytecodeTemplate) (name : List Char) (data : Bytes) :
    Embeds t name data (fill (embedded name data) t.pieces) := by
  refine ⟨rfl, _, _, ?_, initialiser_hexBytes data, constant_byteCount data⟩
  rw [← fill_declarations, BytecodeTemplate.pieces, fill_append, fill_append]

section Build

variable {core : LuacCore} {luac tmpPath file output : Bytes} {h t : HostState}
  {files : Bytes → Option Bytes} {E : Leave → HostState → Prop}

/-- These are the files now. -/
structure Files (h : HostState) (files : Bytes → Option Bytes) (t : HostState) : Prop where
  files : t.files = files
  fails : t.fails = h.fails
  calls : h.calls ≤ t.calls

theorem Files.counted (hfiles : Files h files t) : Files h files t.counted :=
  ⟨hfiles.files, hfiles.fails, Nat.le_succ_of_le hfiles.calls⟩

/-- More files have been changed. -/
theorem Files.changed (hfiles : Files h files t) (path : Bytes) (contents : Option Bytes) :
    Files h (Function.update files path contents)
      { t with files := Function.update t.files path contents } := by
  refine ⟨?_, hfiles.fails, hfiles.calls⟩
  rw [hfiles.files]

theorem wp_raising (hfiles : Files h files t) {Q : Unit → HostState → Prop}
    (hrefused : Trouble h t.counted → E (.exit 1) t.counted) (hok : Q ⟨⟩ t.counted) :
    wp raising Q E t := by
  simp only [raising, hostFails, wp_bind, wp_get, wp_set, wp_pure]
  split
  · rename_i hfails
    rw [hfiles.fails] at hfails
    exact hrefused (.inr ⟨t.calls, hfiles.calls, Nat.lt_succ_self _, hfails⟩)
  · exact hok

theorem wp_unlink {path : Bytes} (hfiles : Files h files t) {Q : Unit → HostState → Prop}
    (hrefused : Trouble h t.counted → Files h files t.counted → E (.exit 1) t.counted)
    (hok : ∀ t', t.calls ≤ t'.calls → Files h (Function.update files path none) t' → Q ⟨⟩ t') :
    wp (unlink path) Q E t :=
  wp_bind.mpr (wp_raising hfiles (fun htrouble => hrefused htrouble hfiles.counted)
    (hok _ (Nat.le_succ _) (hfiles.counted.changed path none)))

theorem wp_finallyUnlink {α : Type} {m : LuacM α} {Q : α → HostState → Prop}
    (hm : wp m (fun a => wp (unlink tmpPath) (fun _ => Q a) E)
      (fun e => wp (unlink tmpPath) (fun _ => E e) E) t) :
    wp (finallyUnlink tmpPath m) Q E t := by
  rw [wp] at hm ⊢
  rw [finallyUnlink]
  cases hrun : m t with
  | ok a t' =>
      rw [hrun] at hm
      exact wp_bind.mpr hm
  | error e t' =>
      rw [hrun] at hm
      exact wp_bind.mpr hm

/-- When the script is not compiled. Only the temporary file may be left. -/
def Uncompiled (core : LuacCore) (h : HostState) (tmpPath file : Bytes) (e : Leave)
    (t : HostState) : Prop :=
  e = .exit 1 ∧ (Trouble h t ∨ ∃ m, core.loadfile (some file) (h.files file) = .error m) ∧
    (t.files = h.files ∨
      (Trouble h t ∧ ∀ path, path ≠ tmpPath → t.files path = h.files path))

/-- Without the temporary file everything is as it was. -/
theorem update_fresh (hfresh : h.files tmpPath = none)
    (hothers : ∀ path, path ≠ tmpPath → files path = h.files path) :
    Function.update files tmpPath none = h.files := by
  funext path
  by_cases hpath : path = tmpPath
  · rw [hpath, hfresh]
    exact Function.update_self ..
  · exact (Function.update_of_ne hpath _ _).trans (hothers path hpath)

/-- A run that does not compile the script, on its way through the `finally`. -/
theorem wp_unlink_uncompiled (hfresh : h.files tmpPath = none) (hfiles : Files h files t)
    (hothers : ∀ path, path ≠ tmpPath → files path = h.files path)
    (hreason : Trouble h t ∨ ∃ m, core.loadfile (some file) (h.files file) = .error m) :
    wp (unlink tmpPath) (fun _ => Uncompiled core h tmpPath file (.exit 1))
      (Uncompiled core h tmpPath file) t := by
  refine wp_unlink hfiles (fun htrouble hfiles' => ?_) fun t' hcalls hfiles' => ?_
  · refine ⟨rfl, .inl htrouble, .inr ⟨htrouble, fun path hpath => ?_⟩⟩
    rw [hfiles'.files, hothers path hpath]
  · refine ⟨rfl, hreason.imp_left fun htrouble => htrouble.later hcalls, .inl ?_⟩
    rw [hfiles'.files, update_fresh hfresh hothers]

/-- What the build leaves when it succeeds: the C compiler reads the bytecode of the whole script
in the file. -/
def Built (core : LuacCore) (h : HostState) (file output : Bytes) (template : BytecodeTemplate)
    (name : List Char) (t : HostState) : Prop :=
  ∃ f text, core.loadfile (some file) (h.files file) = .ok f ∧
    Embeds template name (core.dump f true).flatten text ∧
    t.files = Function.update h.files output (some (CLiteral.utf8 text))

/-- What the build leaves when it does not succeed. -/
structure Unbuilt (core : LuacCore) (h : HostState) (tmpPath file output : Bytes) (e : Leave)
    (t : HostState) : Prop where
  status : e = .exit 1
  reason : Trouble h t ∨ ∃ m, core.loadfile (some file) (h.files file) = .error m
  /-- One file at most is not as it was: the output when the host refused to write it, or the
  temporary file when it refused to remove that. -/
  files : t.files = h.files ∨ (Trouble h t ∧ ∃ touched, (touched = output ∨ touched = tmpPath) ∧
    ∀ path, path ≠ touched → t.files path = h.files path)

/-- What a build leaves, whichever way it ends. -/
structure Builds (core : LuacCore) (luac tmpPath : Bytes) (template : BytecodeTemplate)
    (name : List Char) (output file : Bytes) (h : HostState) : Prop where
  ends : wp (main core luac tmpPath template.text name output file)
    (fun _ t => Built core h file output template name t) (Unbuilt core h tmpPath file output) h

/-- A header for one script. -/
def oneScript : HostState :=
  { HostState.empty with
    files := fun path => if path = ascii "/src/main.lua" then some (ascii "x=1") else none }

end Build

end LuaZephyr.Build
