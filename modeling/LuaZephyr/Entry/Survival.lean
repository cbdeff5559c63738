import LuaZephyr.Entry.Repl
import LuaZephyr.Fs.Functions

/-!
# Which entry points survive

The thread bodies go down without memory for the state, and every entry point without
memory for the libraries or for what it does outside of a protected call later. With memory
there it survives whatever the script does, and whatever else runs out.

Memory is a schedule that says of each allocation whether it succeeds; the statements hold for
every schedule. What a script does is a parameter. Stack overflow of the thread itself, and
faults of the hardware, are not modelled.
-/

namespace LuaZephyr

open Outcome

variable {β : Type}

inductive EntryPoint (β : Type) where
  | luaThread (setup : LuaM β LuaInteger) (luaScript : Bytes)
  | luaBytecodeThread (setup : LuaM β LuaInteger) (luaBytecode fileName : Bytes)
  | luaFsThread (setup : LuaM β LuaInteger) (scriptPath : Bytes)
  | cmdRun (argv : List Bytes)
  | luaReplCmd (lines : List ShellLine)

/-- The shell commands look at the state they get: without one they return. -/
def CommandFits (libs : LuaLibs) (P : State β → Prop) (s : State β) : Prop :=
  s.apiFails s.apiCalls = false →
    NoFail s.apiFails (s.apiCalls + 1) libs.calls ∧ P (s.opened libs)

variable (tgt : Target) (core : LuaCore β) (libs : LuaLibs) (cfg : FsConfig) (fs : FileSystem β)
  (print : ReplPrint β)

namespace EntryPoint

def body : EntryPoint β → EntryM β Unit
  | .luaThread setup luaScript => LuaZephyr.luaThread tgt core libs setup luaScript
  | .luaBytecodeThread setup luaBytecode fileName =>
      LuaZephyr.luaBytecodeThread tgt core libs setup luaBytecode fileName
  | .luaFsThread setup scriptPath => LuaZephyr.luaFsThread tgt core libs cfg fs setup scriptPath
  | .cmdRun argv => do
      let _ ← LuaZephyr.cmdRun tgt core libs cfg fs argv
  | .luaReplCmd lines => do
      let _ ← LuaZephyr.luaReplCmd tgt core libs print lines

/-- There is memory for what the entry point does outside of a protected call. -/
def Fits : EntryPoint β → State β → Prop
  | .luaThread setup luaScript =>
      ThreadFits libs setup (ChunkFits core (CString.text luaScript) (CString.text luaScript))
  | .luaBytecodeThread setup luaBytecode fileName =>
      ThreadFits libs setup (ChunkFits core luaBytecode fileName)
  | .luaFsThread setup scriptPath => ThreadFits libs setup (FsFits core cfg fs scriptPath)
  | .cmdRun (_ :: name :: _) => CommandFits libs (FsFits core cfg fs name)
  | .cmdRun _ => fun _ => True
  | .luaReplCmd lines => CommandFits libs (ReplFits core print tgt lines)

end EntryPoint

variable {core libs cfg fs print}

/-- What a command does once it has a state decides whether it survives. -/
theorem wp_command {α : Type} {P : State β → Prop} {early : α} {k : StatePtr → EntryM β α}
    (hrun : ∀ t, t.stack = [] → wp (k .state) (fun _ _ => P t) (fun e _ => e.Decides (P t)) t)
    (s : State β) :
    wp (do
        sysHeapInit
        let L ← luaNewstate
        if L = .null then return early
        onState L (luazOpenlibs libs)
        k L)
      (fun _ _ => CommandFits libs P s) (fun e _ => e.Decides (CommandFits libs P s)) s := by
  refine wp_bind.mpr (wp_modify.mpr (wp_bind.mpr (wp_luaNewstate.mpr ?_)))
  split
  · rename_i hnull
    exact fun hstate => absurd (hnull.symm.trans hstate) (by decide)
  · rename_i hstate
    rw [Bool.not_eq_true] at hstate
    refine wp_openlibs (fun hlibs => ?_) fun h => (h hstate).1
    have hiff : P (s.opened libs) ↔ CommandFits libs P s :=
      ⟨fun h _ => ⟨hlibs, h⟩, fun h => (h hstate).2⟩
    exact (hrun _ rfl).mono (fun _ _ h => hiff.mp h) fun e _ h => h.congr hiff

theorem wp_cmdRun (s : State β) (argv0 name : Bytes) (args : List Bytes) :
    wp (cmdRun tgt core libs cfg fs (argv0 :: name :: args))
      (fun _ _ => CommandFits libs (FsFits core cfg fs name) s)
      (fun e _ => e.Decides (CommandFits libs (FsFits core cfg fs name) s)) s := by
  refine wp_command (fun t _ => ?_) s
  refine wp_bind.mpr (wp_onState ((wp_luaFsDofile_fits t name).mono ?_ fun _ _ h => h))
  rintro rc u ⟨hok, hbad⟩
  exact wp_bind.mpr ((wp_reportStringError tgt hok hbad).mono (fun _ _ h => h) fun _ _ h => h)

theorem wp_luaReplCmd (s : State β) (lines : List ShellLine) :
    wp (luaReplCmd tgt core libs print lines)
      (fun _ _ => CommandFits libs (ReplFits core print tgt lines) s)
      (fun e _ => e.Decides (CommandFits libs (ReplFits core print tgt lines) s)) s :=
  wp_command (fun _ hstack => wp_replLoop tgt lines hstack) s

/-- Running a chunk and reporting its error. -/
theorem wp_runChunk (buff name : Bytes) (t : State β) :
    wp (onState .state (loadAndCall core buff name) >>= reportError tgt .state)
      (fun _ _ => ChunkFits core buff name t)
      (fun e _ => e.Decides (ChunkFits core buff name t)) t := by
  refine wp_bind.mpr (wp_onState ((wp_loadAndCall t buff name).mono ?_ fun _ _ h => h.elim))
  rintro status u ⟨hok, hbad⟩
  exact wp_reportError tgt hok hbad

/-- Running a file and reporting its error. -/
theorem wp_runFile (path : Bytes) (t : State β) :
    wp (do
        let err ← onState .state (luaFsDofile cfg fs core path)
        reportStringError tgt .state err
        if err ≠ 0 then onState .state (luaSettop 0))
      (fun _ _ => FsFits core cfg fs path t)
      (fun e _ => e.Decides (FsFits core cfg fs path t)) t := by
  refine wp_bind.mpr (wp_onState ((wp_luaFsDofile_fits t path).mono ?_ fun _ _ h => h))
  rintro rc u ⟨hok, hbad⟩
  refine wp_bind.mpr ((wp_reportStringError tgt hok hbad).mono (fun _ v h => ?_) fun _ _ h => h)
  split
  · exact h
  · exact h

/-- An entry point survives exactly with memory for what it does outside of a protected
call. -/
theorem entryPoint_survives_iff (tgt : Target) (core : LuaCore β) (libs : LuaLibs)
    (cfg : FsConfig) (fs : FileSystem β) (print : ReplPrint β) (entry : EntryPoint β)
    (s : State β) :
    Survives (entry.body tgt core libs cfg fs print) s ↔
      entry.Fits tgt core libs cfg fs print s := by
  cases entry with
  | luaThread setup luaScript => exact survives_iff (wp_threadBody (wp_runChunk tgt _ _) s)
  | luaBytecodeThread setup luaBytecode fileName =>
      exact survives_iff (wp_threadBody (wp_runChunk tgt _ _) s)
  | luaFsThread setup scriptPath => exact survives_iff (wp_threadBody (wp_runFile tgt _) s)
  | cmdRun argv =>
      match argv with
      | [] => exact survives_iff (P := True) trivial
      | [_] => exact survives_iff (P := True) trivial
      | argv0 :: name :: args => exact survives_iff (wp_bind.mpr (wp_cmdRun tgt s argv0 name args))
  | luaReplCmd lines => exact survives_iff (wp_bind.mpr (wp_luaReplCmd tgt s lines))

/-- A `print` that does nothing. -/
def ReplPrint.silent : ReplPrint Unit :=
  ⟨fun heap b => (.ok .nil, heap, b), fun _ _ heap b => (none, heap, b)⟩

/-- All libraries. -/
def LuaLibs.all : LuaLibs := ⟨true, true, true, true, true, true, true⟩

/-- Without memory for its state a thread uses a null pointer, and without memory for the
first registration of the libraries `lua_fs run` panics. -/
theorem not_survives_schedules :
    ¬ Survives ((EntryPoint.luaThread (pure 0) (ascii "return 7")).body Target.sample
        (.returning (.integer 7)) .all ⟨ascii "/lfs", 1024⟩ (.holding (ascii "return 7")) .silent)
        { State.idle 0 () with apiFails := fun i => i = 0 } ∧
      ¬ Survives ((EntryPoint.cmdRun [ascii "run", ascii "a.lua"]).body Target.sample
        (.returning (.integer 7)) .all ⟨ascii "/lfs", 1024⟩ (.holding (ascii "return 7")) .silent)
        { State.idle 0 () with apiFails := fun i => i = 1 } := by
  refine ⟨fun h => ?_, fun h => ?_⟩
  · exact (h _).1 rfl
  · exact (h _).2 .memory rfl

end LuaZephyr
