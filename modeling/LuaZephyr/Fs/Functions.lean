import LuaZephyr.Fs.Loading

/-!
# What `fs.dofile` and `fs.loadfile` give a script

`fs.dofile` counts its results from the height of the stack without its path argument, so
that its last argument comes back in front of what the script returns. `fs.loadfile`
reports a chunk that does not compile as nil and a message, but raises an error for a file
it cannot read.

The results are followed as values on the stack of the calling script, with the errors it can
catch. What the chunk itself does while it runs is the parameter `LuaCore`, and the documented
signatures are taken from the comments of `luaz_apis.lua`.
-/

namespace LuaZephyr

open Outcome

variable {β : Type} (tgt : Target) (cfg : FsConfig) (fs : FileSystem β) (core : LuaCore β)

/-- The path is a file that loads as the function `f`. -/
def ScriptLoads (s : State β) (path : Bytes) (f : Nat) (b' : β) : Prop :=
  ∃ fullpath data, ScriptReads cfg fs s path fullpath data b' ∧
    s.apiFails s.apiCalls = false ∧ core.compile data fullpath = .ok f

/-- The script loads, and running it returns `rs`. -/
def ScriptRuns (s : State β) (path : Bytes) (rs : List Value) : Prop :=
  ∃ f b' heap bus, ScriptLoads cfg fs core s path f b' ∧
    core.execute f s.heap.borrowed b' = (.ok rs, heap, bus)

section Scripts

variable {cfg fs core}

theorem ScriptLoads.unique {s : State β} {path : Bytes} {f₁ f₂ : Nat} {b₁ b₂ : β}
    (h₁ : ScriptLoads cfg fs core s path f₁ b₁) (h₂ : ScriptLoads cfg fs core s path f₂ b₂) :
    f₁ = f₂ ∧ b₁ = b₂ := by
  obtain ⟨fullpath, data, hreads₁, -, hcompile₁⟩ := h₁
  obtain ⟨fullpath', data', hreads₂, -, hcompile₂⟩ := h₂
  obtain ⟨rfl, rfl, hb⟩ := hreads₁.unique hreads₂
  exact ⟨Except.ok.inj (hcompile₁.symm.trans hcompile₂), hb⟩

theorem ScriptRuns.unique {s : State β} {path : Bytes} {rs₁ rs₂ : List Value}
    (h₁ : ScriptRuns cfg fs core s path rs₁) (h₂ : ScriptRuns cfg fs core s path rs₂) :
    rs₁ = rs₂ := by
  obtain ⟨f, b, heap, bus, hloads₁, hrun₁⟩ := h₁
  obtain ⟨f', b', heap', bus', hloads₂, hrun₂⟩ := h₂
  obtain ⟨rfl, rfl⟩ := hloads₁.unique hloads₂
  exact Except.ok.inj (Prod.mk.inj (hrun₁.symm.trans hrun₂)).1

/-- A script loads only if the last step of loading it does. -/
theorem ScriptReads.not_loads {s : State β} {path fullpath data message : Bytes} {b : β}
    (hreads : ScriptReads cfg fs s path fullpath data b)
    (hcompile : core.compile data fullpath = .error message) (f : Nat) (b' : β) :
    ¬ ScriptLoads cfg fs core s path f b' := by
  rintro ⟨fullpath', data', hreads', -, hcompile'⟩
  obtain ⟨rfl, rfl, -⟩ := hreads.unique hreads'
  exact nomatch hcompile.symm.trans hcompile'

/-- It returns zero with the function on top. -/
theorem LoadEnd.of_zero {s t : State β} {path : Bytes} {rc : LuaInteger}
    (h : LoadEnd cfg fs core s path rc t) (hrc : rc = 0) :
    ∃ peak f b', ScriptLoads cfg fs core s path f b' ∧
      t = { s with stack := .other f :: s.stack, peak := peak, apiCalls := s.apiCalls + 1
                   heap := s.heap.borrowed, bus := b' } := by
  cases h with
  | loaded hreads hmemory hcompile => exact ⟨_, _, _, ⟨_, _, hreads, hmemory, hcompile⟩, rfl⟩
  | rejected => exact absurd hrc (by decide)
  | outOfMemory => exact absurd hrc (by decide)
  | tooLong hpath => exact absurd hrc (Errno.code_ne_zero _)
  | unread hpath hnone hmemory rc hstack => exact absurd hrc rc.code_ne_zero

/-- How `lua_fs_loadfile` ends says whether the script loads. -/
theorem LoadEnd.loads_iff {s t : State β} {path : Bytes} {rc : LuaInteger}
    (h : LoadEnd cfg fs core s path rc t) :
    rc = 0 ↔ ∃ f b', ScriptLoads cfg fs core s path f b' := by
  cases h with
  | loaded hreads hmemory hcompile =>
      exact iff_of_true rfl ⟨_, _, _, _, hreads, hmemory, hcompile⟩
  | rejected hreads hmemory hcompile hstack =>
      refine iff_of_false (by decide) ?_
      rintro ⟨f, b', hloads⟩
      exact hreads.not_loads hcompile f b' hloads
  | outOfMemory hreads hmemory hstack =>
      refine iff_of_false (by decide) ?_
      rintro ⟨f, b', fullpath, data, -, hmemory', -⟩
      exact absurd (hmemory.symm.trans hmemory') (by decide)
  | tooLong hpath =>
      refine iff_of_false (Errno.code_ne_zero _) ?_
      rintro ⟨f, b', fullpath, data, hreads, -⟩
      exact not_scriptReads_of_tooLong hpath fullpath data b' hreads
  | unread hpath hnone hmemory rc hstack =>
      refine iff_of_false rc.code_ne_zero ?_
      rintro ⟨f, b', fullpath, data, hreads, -⟩
      exact not_scriptReads_of_unread hpath hnone fullpath data b' hreads

end Scripts

/-- The contract of `fs.dofile(path, ...)`: what the script returns, or an error. -/
def DofileReturns (s : State β) (path : Bytes) (extra : List Value) : Prop :=
  wp (callMethod (lFsDofile tgt cfg fs core) (.string path :: extra))
    (fun results _ => ScriptRuns cfg fs core s (CString.text path) results)
    (fun e _ => (∃ le, e = .error le) ∧
      ∀ rs, ¬ ScriptRuns cfg fs core s (CString.text path) rs) s

variable {tgt cfg fs core}

/-- A path argument is checked without touching the stack. -/
theorem wp_checkPath {s : State β} {path : Bytes} {extra : List Value}
    (hstack : s.stack = (Value.string path :: extra).reverse) {Q : Bytes → State β → Prop}
    {E : Exn → State β → Prop} : wp (luaLCheckstring tgt 1) Q E s ↔ Q path s := by
  refine wp_luaLCheckstring (v := .string path) ?_ rfl
  rw [hstack]
  exact valueAt_args (i := 0) rfl

/-- What `lua_fs_dofile` does to a frame: it returns zero with the results on top, or
another code and a stack that is not empty. -/
theorem wp_luaFsDofile {s : State β} (path : Bytes) (hframe : s.stack ≠ []) :
    wp (luaFsDofile cfg fs core path)
      (fun rc t => (rc = 0 ∧ ∃ rs, ScriptRuns cfg fs core s path rs ∧
          t.stack = rs.reverse ++ s.stack) ∨
        (rc ≠ 0 ∧ t.stack ≠ [] ∧ ∀ rs, ¬ ScriptRuns cfg fs core s path rs))
      (fun e _ => (∃ le, e = .error le) ∧ ∀ rs, ¬ ScriptRuns cfg fs core s path rs) s := by
  rw [luaFsDofile_eq]
  refine wp_bind.mpr ((wp_luaFsLoadfile s path).mono (fun rc t hend => ?_) ?_)
  · by_cases hrc : rc = 0
    · rw [if_pos hrc]
      obtain ⟨peak, f, b', hloads, rfl⟩ := hend.of_zero hrc
      refine wp_bind.mpr ((wp_luaPcall rfl).mpr ?_)
      split
      · rename_i rs heap bus hrun
        exact .inl ⟨rfl, rs, ⟨f, b', heap, bus, hloads, hrun⟩, rfl⟩
      · rename_i e heap bus hrun
        refine .inr ⟨e.status_code_ne_zero, List.cons_ne_nil _ _, ?_⟩
        rintro rs ⟨f', b'', heap', bus', hloads', hrun'⟩
        obtain ⟨rfl, rfl⟩ := hloads.unique hloads'
        exact nomatch hrun.symm.trans hrun'
    · rw [if_neg hrc]
      refine .inr ⟨hrc, ?_, ?_⟩
      · cases hend with
        | loaded => exact absurd rfl hrc
        | rejected hreads hmemory hcompile hstack => exact hstack ▸ List.cons_ne_nil _ _
        | outOfMemory hreads hmemory hstack => exact hstack ▸ List.cons_ne_nil _ _
        | tooLong hpath => exact hframe
        | unread hpath hnone hmemory rc hstack => exact hstack ▸ List.cons_ne_nil _ _
      · rintro rs ⟨f, b', heap, bus, hloads, -⟩
        exact hrc (hend.loads_iff.mpr ⟨f, b', hloads⟩)
  · rintro e t ⟨rfl, -, fullpath, hpath, hnone⟩
    refine ⟨⟨_, rfl⟩, ?_⟩
    rintro rs ⟨f, b', heap, bus, ⟨fullpath', data, hreads, -⟩, -⟩
    exact not_scriptReads_of_unread hpath hnone fullpath' data b' hreads

/-- What `fs.dofile` does: it returns its last argument and then what the script returns. -/
theorem callMethod_lFsDofile (s : State β) (path : Bytes) (extra : List Value) :
    wp (callMethod (lFsDofile tgt cfg fs core) (.string path :: extra))
      (fun results _ => ∃ last rs, (Value.string path :: extra).getLast? = some last ∧
        ScriptRuns cfg fs core s (CString.text path) rs ∧ results = last :: rs)
      (fun e _ => (∃ le, e = .error le) ∧
        ∀ rs, ¬ ScriptRuns cfg fs core s (CString.text path) rs) s := by
  refine wp_callMethod.mpr ?_
  have hframe : (Value.string path :: extra).reverse ≠ [] := by simp
  refine wp_bind.mpr ((wp_checkPath rfl).mpr (wp_bind.mpr (wp_luaGettop.mpr ?_)))
  refine wp_bind.mpr ((wp_luaFsDofile (CString.text path) hframe).mono ?_ fun _ _ h => h)
  rintro rc t (⟨rfl, rs, hruns, hstack⟩ | ⟨hrc, hstack, hnot⟩)
  · obtain ⟨last, rest, hlast⟩ := List.exists_cons_of_ne_nil hframe
    refine wp_bind.mpr (wp_luaGettop.mpr ⟨last, rs, ?_, hruns, ?_⟩)
    · rw [← List.head?_reverse, hlast, List.head?_cons]
    · rw [hstack, hlast]
      have hcount : (rs.reverse ++ last :: rest).length - ((last :: rest).length - 1) =
          rs.reverse.length + 1 := by
        simp only [List.length_append, List.length_cons]
        omega
      change (List.take ((rs.reverse ++ last :: rest).length - ((last :: rest).length - 1))
        (rs.reverse ++ last :: rest)).reverse = last :: rs
      rw [hcount, List.take_length_add_append]
      simp
  · obtain ⟨top, rest, htop⟩ := List.exists_cons_of_ne_nil hstack
    split
    · exact wp_raise_tostring tgt hstack fun e t => ⟨⟨e, rfl⟩, hnot⟩
    · exact (wp_luaError htop).mpr ⟨⟨_, rfl⟩, hnot⟩

/-- A script that runs is not reported as the contract says, for the argument in front. -/
theorem ScriptRuns.not_dofileReturns {s : State β} {path : Bytes} {rs : List Value}
    (hruns : ScriptRuns cfg fs core s (CString.text path) rs) (extra : List Value) :
    ¬ DofileReturns tgt cfg fs core s path extra := by
  intro hcontract
  obtain ⟨results, t, -, hresults, last, rs', -, hruns', rfl⟩ | ⟨e, t, -, ⟨-, hnot⟩, -⟩ :=
    wp_iff.mp (hcontract.and (callMethod_lFsDofile s path extra))
  · have hlength := congrArg List.length (hresults.unique hruns')
    simp at hlength
  · exact hnot rs hruns

/-- The contract of `fs.dofile` is met exactly where it raises: when loading or running the
script fails. -/
theorem dofileReturns_iff (tgt : Target) (cfg : FsConfig) (fs : FileSystem β) (core : LuaCore β)
    (s : State β) (path : Bytes) (extra : List Value) :
    DofileReturns tgt cfg fs core s path extra ↔
      ∀ rs, ¬ ScriptRuns cfg fs core s (CString.text path) rs := by
  constructor
  · intro hcontract rs hruns
    exact hruns.not_dofileReturns extra hcontract
  · intro hnot
    refine (callMethod_lFsDofile s path extra).mono ?_ fun _ _ h => h
    rintro results t ⟨last, rs, -, hruns, -⟩
    exact absurd hruns (hnot rs)

/-- A file system with one file, in which every call succeeds. -/
def FileSystem.holding (contents : Bytes) : FileSystem Unit
  | .stat _, b => (.ok ⟨.file, contents.length⟩, b)
  | .open _ _, b => (.ok ⟨⟩, b)
  | .truncate _, b => (.ok ⟨⟩, b)
  | .read count, b => (.ok (contents.take count), b)
  | .write data, b => (.ok data.length, b)
  | .close, b => (.ok ⟨⟩, b)
  | .unlink _, b => (.ok ⟨⟩, b)

/-- A core whose functions all return one value. -/
def LuaCore.returning (v : Value) : LuaCore Unit where
  compile _ _ := .ok 0
  execute _ heap b := (.ok [v], heap, b)

/-- The script "return 7" comes back as the path and 7. -/
theorem not_dofileReturns_seven :
    ¬ DofileReturns Target.sample ⟨ascii "/lfs", 1024⟩ (.holding (ascii "return 7"))
      (.returning (.integer 7)) (State.idle 0 ()) (ascii "a.lua") [] := by
  have hreads : ScriptReads ⟨ascii "/lfs", 1024⟩ (.holding (ascii "return 7")) (State.idle 0 ())
      (ascii "a.lua") (ascii "/lfs/a.lua") (ascii "return 7") () :=
    ⟨rfl, 8, (), (), (), .ok ⟨⟩, rfl, by decide, Option.some_ne_none _, rfl, rfl, rfl⟩
  have hruns : ScriptRuns ⟨ascii "/lfs", 1024⟩ (.holding (ascii "return 7"))
      (.returning (.integer 7)) (State.idle 0 ()) (CString.text (ascii "a.lua")) [.integer 7] :=
    ⟨0, (), _, _, ⟨_, _, hreads, rfl, rfl⟩, rfl⟩
  exact hruns.not_dofileReturns []

variable (tgt cfg fs core)

/-- The contract of `fs.loadfile(path, ...)`: the function if every step succeeds, else nil
and a message. -/
def LoadfileReports (s : State β) (path : Bytes) (extra : List Value) : Prop :=
  wp (callMethod (lFsLoadfile tgt cfg fs core) (.string path :: extra))
    (fun results _ =>
      (∃ f b', ScriptLoads cfg fs core s (CString.text path) f b' ∧ results = [.other f]) ∨
      (∀ f b', ¬ ScriptLoads cfg fs core s (CString.text path) f b') ∧
        ∃ message, results = [.nil, .string message])
    (fun _ _ => False) s

variable {tgt cfg fs core}

/-- What `fs.loadfile` does: it meets the contract for a file it can read, and raises an
error for others. -/
theorem callMethod_lFsLoadfile (s : State β) (path : Bytes) (extra : List Value) :
    wp (callMethod (lFsLoadfile tgt cfg fs core) (.string path :: extra))
      (fun results _ =>
        (∃ fullpath data b', ScriptReads cfg fs s (CString.text path) fullpath data b') ∧
        ((∃ f b', ScriptLoads cfg fs core s (CString.text path) f b' ∧ results = [.other f]) ∨
          (∀ f b', ¬ ScriptLoads cfg fs core s (CString.text path) f b') ∧
            ∃ message, results = [.nil, .string message]))
      (fun e _ => (∃ le, e = .error le) ∧
        ∀ fullpath data b', ¬ ScriptReads cfg fs s (CString.text path) fullpath data b') s := by
  refine wp_callMethod.mpr ?_
  have hframe : (Value.string path :: extra).reverse ≠ [] := by simp
  refine wp_bind.mpr ((wp_checkPath rfl).mpr (wp_bind.mpr ?_))
  refine (wp_luaFsLoadfile _ (CString.text path)).mono (fun rc t hend => ?_) ?_
  · have hloads := hend.loads_iff
    cases hend with
    | loaded hreads hmemory hcompile =>
        exact ⟨⟨_, _, _, hreads⟩, .inl ⟨_, _, ⟨_, _, hreads, hmemory, hcompile⟩, rfl⟩⟩
    | rejected hreads hmemory hcompile hstack =>
        have hpushed := congrArg (Value.nil :: ·) hstack
        refine wp_bind.mpr (wp_pushValue.mpr (wp_bind.mpr ((wp_luaInsertSecond hpushed).mpr ?_)))
        exact ⟨⟨_, _, _, hreads⟩, .inr ⟨hreads.not_loads hcompile, _, rfl⟩⟩
    | outOfMemory hreads hmemory hstack =>
        have hpushed := congrArg (Value.nil :: ·) hstack
        refine wp_bind.mpr (wp_pushValue.mpr (wp_bind.mpr ((wp_luaInsertSecond hpushed).mpr ?_)))
        refine ⟨⟨_, _, _, hreads⟩, .inr ⟨fun f b' hscript => ?_, _, rfl⟩⟩
        exact absurd (hloads.mpr ⟨f, b', hscript⟩) (by decide)
    | tooLong hpath =>
        rename_i rc
        rw [if_pos ⟨rc.code_ne_zero, rc.neg⟩]
        exact wp_raise_tostring tgt hframe fun e t => ⟨⟨e, rfl⟩, not_scriptReads_of_tooLong hpath⟩
    | unread hpath hnone hmemory rc hstack =>
        rw [if_pos ⟨rc.code_ne_zero, rc.neg⟩]
        exact wp_raise_tostring tgt (hstack ▸ List.cons_ne_nil _ _) fun e t =>
          ⟨⟨e, rfl⟩, not_scriptReads_of_unread hpath hnone⟩
  · rintro e t ⟨rfl, -, fullpath, hpath, hnone⟩
    exact ⟨⟨_, rfl⟩, not_scriptReads_of_unread hpath hnone⟩

/-- The contract of `fs.loadfile` is met exactly where the file is read: the path fits its
buffer, and the file system and the raw allocation do not fail. -/
theorem loadfileReports_iff (tgt : Target) (cfg : FsConfig) (fs : FileSystem β)
    (core : LuaCore β) (s : State β) (path : Bytes) (extra : List Value) :
    LoadfileReports tgt cfg fs core s path extra ↔
      ∃ fullpath data b', ScriptReads cfg fs s (CString.text path) fullpath data b' := by
  have hdoes := @callMethod_lFsLoadfile β tgt cfg fs core s path extra
  constructor
  · intro hcontract
    obtain ⟨results, t, -, -, hreads, -⟩ | ⟨e, t, -, hfalse, -⟩ := wp_iff.mp (hcontract.and hdoes)
    · exact hreads
    · exact hfalse.elim
  · rintro ⟨fullpath, data, b', hreads⟩
    refine hdoes.mono (fun results t h => h.2) ?_
    rintro e t ⟨-, hnone⟩
    exact hnone fullpath data b' hreads

/-- A file system without files. -/
def FileSystem.empty : FileSystem Unit
  | .stat _, b => (.error .enoent, b)
  | .open _ _, b => (.error .enoent, b)
  | .truncate _, b => (.error .einval, b)
  | .read _, b => (.error .einval, b)
  | .write _, b => (.error .einval, b)
  | .close, b => (.error .einval, b)
  | .unlink _, b => (.error .enoent, b)

/-- A missing file is raised. -/
theorem not_loadfileReports_missing :
    ¬ LoadfileReports Target.sample ⟨ascii "/lfs", 1024⟩ .empty (.returning .nil)
      (State.idle 0 ()) (ascii "a.lua") [] := by
  intro hcontract
  obtain ⟨e, t, hraised⟩ : ∃ e t, callMethod (lFsLoadfile Target.sample ⟨ascii "/lfs", 1024⟩ .empty
      (.returning .nil)) [.string (ascii "a.lua")] (State.idle 0 ()) = .error e t := ⟨_, _, rfl⟩
  exact hcontract.of_run_error hraised

end LuaZephyr
