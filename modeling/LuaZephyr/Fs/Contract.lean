import LuaZephyr.Fs.Functions
import LuaZephyr.Fs.Paths

/-!
# What the loaders leave on the stack

The callers of `lua_fs_dofile` and `lua_fs_loadfile` read the top of the stack after any
failure. Failures come from four layers: of these, the check of the path is the one that
pushes nothing, and the caller's own argument is then on top.

The height of the stack and what is on top of it are compared with those before the call. The
contract is the one the callers rely on; that the documentation promises it too is not used. The
text of the messages is that of `luaL_loadbuffer` and of the script, whatever it is.
-/

namespace LuaZephyr

open Outcome

variable {β : Type} (cfg : FsConfig) (fs : FileSystem β) (core : LuaCore β)

/-- A value that tells why `lua_fs_loadfile` returns `rc`. Any message will do for a path
that is too long. -/
inductive LoadFailure (s : State β) (path : Bytes) : LuaInteger → Value → Prop where
  | tooLong {rc : Errno} {message : Bytes} (hpath : buildPath cfg.mountPoint path = .error rc) :
      LoadFailure s path rc.code (.string message)
  | unread {fullpath : Bytes} (rc : Errno) (hpath : buildPath cfg.mountPoint path = .ok fullpath)
      (hnone : ¬ ∃ data b', FileReads cfg fs s.heap fullpath s.bus data b') :
      LoadFailure s path rc.code (.string (cannotOpen fullpath rc))
  | rejected {fullpath data message : Bytes} {b' : β}
      (hreads : ScriptReads cfg fs s path fullpath data b')
      (hcompile : core.compile data fullpath = .error message) :
      LoadFailure s path LuaStatus.errSyntax.code (.string message)
  | outOfMemory {fullpath data : Bytes} {b' : β}
      (hreads : ScriptReads cfg fs s path fullpath data b')
      (hmemory : s.apiFails s.apiCalls = true) :
      LoadFailure s path LuaStatus.errMem.code CallError.memory.object

/-- The same for `lua_fs_dofile`: a failure of the load, or the error object of the script. -/
inductive RunFailure (s : State β) (path : Bytes) : LuaInteger → Value → Prop where
  | load {rc : LuaInteger} {v : Value} (h : LoadFailure cfg fs core s path rc v) :
      RunFailure s path rc v
  | run {f : Nat} {b' bus : β} {heap : SysHeap} {e : CallError}
      (hloads : ScriptLoads cfg fs core s path f b')
      (hrun : core.execute f s.heap.borrowed b' = (.error e, heap, bus)) :
      RunFailure s path e.status.code e.object

/-- The values of success are pushed with the result zero, and with any other result the one
value of the failure. All values below are untouched, also when a message about the file
finds no memory and an error is raised. -/
def StackContract (Success : List Value → Prop) (Failure : LuaInteger → Value → Prop)
    (loader : LuaM β LuaInteger) (s : State β) : Prop :=
  wp loader
    (fun rc t => (rc = 0 → ∃ vs, Success vs ∧ t.stack = vs.reverse ++ s.stack) ∧
      (rc ≠ 0 → ∃ v, Failure rc v ∧ t.stack = v :: s.stack))
    (fun e t => e = .error .memory ∧ t.stack = s.stack) s

/-- `lua_fs_loadfile` pushes the function. -/
def LoadfileContract (s : State β) (path : Bytes) : Prop :=
  StackContract (fun vs => ∃ f b', ScriptLoads cfg fs core s path f b' ∧ vs = [.other f])
    (LoadFailure cfg fs core s path) (luaFsLoadfile cfg fs core path) s

/-- `lua_fs_dofile` pushes the results of the script. -/
def DofileContract (s : State β) (path : Bytes) : Prop :=
  StackContract (ScriptRuns cfg fs core s path) (RunFailure cfg fs core s path)
    (luaFsDofile cfg fs core path) s

variable {cfg fs core}

theorem buildPath_ok_iff {mountPoint path : Bytes} :
    (∃ fullpath, buildPath mountPoint path = .ok fullpath) ↔
      (absolutePath mountPoint path).length < maxPath := by
  rw [buildPath, joinPath_eq]
  split
  · rename_i hlong
    exact iff_of_false (by rintro ⟨_, h⟩; contradiction) (Nat.not_lt.mpr hlong)
  · rename_i hfits
    exact iff_of_true ⟨_, rfl⟩ (Nat.lt_of_not_le hfits)

/-- What is known at the end of a load: on success, also the heap and the state of the
firmware that the script starts in. -/
theorem wp_luaFsLoadfile_stack {s : State β} {path fullpath : Bytes}
    (hpath : buildPath cfg.mountPoint path = .ok fullpath) :
    wp (luaFsLoadfile cfg fs core path)
      (fun rc t => (rc = 0 ∧ ∃ f, ScriptLoads cfg fs core s path f t.bus ∧
          t.heap = s.heap.borrowed ∧ t.stack = .other f :: s.stack) ∨
        (rc ≠ 0 ∧ ∃ v, LoadFailure cfg fs core s path rc v ∧ t.stack = v :: s.stack))
      (fun e t => e = .error .memory ∧ t.stack = s.stack) s := by
  refine wp_luaFsLoadfile_ways hpath ?_ ?_ ?_ ?_ ?_
  · intro data b' t hreads hmemory hstack
    exact .inr ⟨by decide, _, .outOfMemory hreads hmemory, hstack⟩
  · intro data b' message t hreads hmemory hcompile hstack
    exact .inr ⟨by decide, _, .rejected hreads hcompile, hstack⟩
  · intro data b' f peak hreads hmemory hcompile
    exact .inl ⟨rfl, f, ⟨fullpath, data, hreads, hmemory, hcompile⟩, rfl, rfl⟩
  · intro rc t hnone hmemory hstack
    exact .inr ⟨rc.code_ne_zero, _, .unread rc hpath hnone, hstack⟩
  · exact fun t hnone hmemory hstack => ⟨rfl, hstack⟩

theorem loadfileContract_of_fits {s : State β} {path fullpath : Bytes}
    (hpath : buildPath cfg.mountPoint path = .ok fullpath) :
    LoadfileContract cfg fs core s path := by
  refine (wp_luaFsLoadfile_stack hpath).mono (fun rc t h => ?_) fun _ _ h => h
  obtain ⟨hrc, f, hloads, -, hstack⟩ | ⟨hrc, hfailure⟩ := h
  · exact ⟨fun _ => ⟨[.other f], ⟨f, _, hloads, rfl⟩, hstack⟩, fun hne => absurd hrc hne⟩
  · exact ⟨fun hzero => absurd hzero hrc, fun _ => hfailure⟩

theorem dofileContract_of_fits {s : State β} {path fullpath : Bytes}
    (hpath : buildPath cfg.mountPoint path = .ok fullpath) :
    DofileContract cfg fs core s path := by
  rw [DofileContract, StackContract, luaFsDofile_eq]
  refine wp_bind.mpr ((wp_luaFsLoadfile_stack hpath).mono (fun rc t h => ?_) fun _ _ h => h)
  obtain ⟨hrc, f, hloads, hheap, hstack⟩ | ⟨hrc, v, hfailure, hstack⟩ := h
  · rw [if_pos hrc]
    refine wp_bind.mpr ((wp_luaPcall hstack).mpr ?_)
    split
    · rename_i vs heap bus hrun
      rw [hheap] at hrun
      exact ⟨fun _ => ⟨vs, ⟨f, _, heap, bus, hloads, hrun⟩, rfl⟩, fun hne => absurd rfl hne⟩
    · rename_i e heap bus hrun
      rw [hheap] at hrun
      exact ⟨fun hzero => absurd hzero e.status_code_ne_zero,
        fun _ => ⟨e.object, .run hloads hrun, rfl⟩⟩
  · rw [if_neg hrc]
    exact ⟨fun hzero => absurd hzero hrc, fun _ => ⟨v, .load hfailure, hstack⟩⟩

/-- Nothing is pushed for a result that is not zero. -/
theorem not_stackContract_pure {Success : List Value → Prop} {Failure : LuaInteger → Value → Prop}
    {s : State β} (rc : Errno) : ¬ StackContract Success Failure (pure rc.code) s := by
  intro h
  obtain ⟨v, -, hstack⟩ := h.2 rc.code_ne_zero
  exact absurd (congrArg List.length hstack) (by simp)

theorem not_loadfileContract_of_tooLong {s : State β} {path : Bytes} {rc : Errno}
    (hpath : buildPath cfg.mountPoint path = .error rc) :
    ¬ LoadfileContract cfg fs core s path := by
  rw [LoadfileContract, luaFsLoadfile, hpath]
  exact not_stackContract_pure rc

theorem not_dofileContract_of_tooLong {s : State β} {path : Bytes} {rc : Errno}
    (hpath : buildPath cfg.mountPoint path = .error rc) :
    ¬ DofileContract cfg fs core s path := by
  rw [DofileContract, luaFsDofile, hpath]
  exact not_stackContract_pure rc

/-- `fs.dofile` then raises its own argument as if it were the message. -/
theorem lFsDofile_tooLong (tgt : Target) {path : Bytes} {rc : Errno}
    (hpath : buildPath cfg.mountPoint (CString.text path) = .error rc) (s : State β) :
    wp (callMethod (lFsDofile tgt cfg fs core) [.string path]) (fun _ _ => False)
      (fun e _ => e = .error (.runtime (latin1 path))) s := by
  have hframe : [Value.string path].reverse = (Value.string path :: []).reverse := rfl
  refine wp_callMethod.mpr (wp_bind.mpr ((wp_checkPath hframe).mpr ?_))
  refine wp_bind.mpr (wp_luaGettop.mpr (wp_bind.mpr ?_))
  rw [luaFsDofile, hpath, wp_pure, if_pos ⟨rc.code_ne_zero, rc.neg⟩]
  exact wp_bind.mpr ((wp_luaTostring_top rfl).mpr rfl)

/-- Both loaders keep their contract for exactly the paths that fit: for any other they return an
error with nothing of theirs on the stack. -/
theorem loaderContracts_iff (s : State β) (path : Bytes) :
    (LoadfileContract cfg fs core s path ↔
        (absolutePath cfg.mountPoint path).length < maxPath) ∧
      (DofileContract cfg fs core s path ↔
        (absolutePath cfg.mountPoint path).length < maxPath) := by
  rw [← buildPath_ok_iff]
  cases hpath : buildPath cfg.mountPoint path with
  | ok fullpath =>
      exact ⟨iff_of_true (loadfileContract_of_fits hpath) ⟨fullpath, rfl⟩,
        iff_of_true (dofileContract_of_fits hpath) ⟨fullpath, rfl⟩⟩
  | error rc =>
      have hnone : ¬ ∃ fullpath, (Except.error rc : Except Errno Bytes) = .ok fullpath := by
        rintro ⟨fullpath, h⟩
        contradiction
      exact ⟨iff_of_false (not_loadfileContract_of_tooLong hpath) hnone,
        iff_of_false (not_dofileContract_of_tooLong hpath) hnone⟩

/-- "/" and 63 letters: one byte too many. -/
def longPath : Bytes := 47 :: List.replicate 63 0x61

theorem not_loaderContracts_longPath :
    ¬ LoadfileContract ⟨ascii "/lfs", 1024⟩ (.holding (ascii "return 7"))
      (.returning (.integer 7)) (State.idle 0 ()) longPath ∧
    ¬ DofileContract ⟨ascii "/lfs", 1024⟩ (.holding (ascii "return 7"))
      (.returning (.integer 7)) (State.idle 0 ()) longPath ∧
    wp (callMethod (lFsDofile Target.sample ⟨ascii "/lfs", 1024⟩ (.holding (ascii "return 7"))
        (.returning (.integer 7))) [.string longPath]) (fun _ _ => False)
      (fun e _ => e = .error (.runtime (latin1 longPath))) (State.idle 0 ()) := by
  have hpath : buildPath (ascii "/lfs") longPath = .error .enametoolong := by decide
  have htext : buildPath (ascii "/lfs") (CString.text longPath) = .error .enametoolong := by decide
  exact ⟨not_loadfileContract_of_tooLong hpath, not_dofileContract_of_tooLong hpath,
    lFsDofile_tooLong Target.sample htext _⟩

end LuaZephyr
