import LuaZephyr.Fs.Files
import LuaZephyr.Lua.Chunks

/-!
# The `fs` library

`lua_fs_dofile`, `lua_fs_loadfile` and the Lua functions over them. Their file system calls
and raw allocations are those of the programs in `Fs.Files`, performed on the heap of the
Lua state and on the state of the firmware.

The file system and the Lua core are parameters, so each function has one rule with all of its
ends: the chunk, a message on the stack, a return code, or an exception for want of memory. The
bytes in the raw buffer are not followed; `Fs.Buffers` has them.
-/

namespace LuaZephyr

open Outcome Programs

variable {β : Type}

/-- The file system, over the state of the firmware. -/
abbrev FileSystem (β : Type) := (op : FileOp) → β → op.Reply × β

/-- `CONFIG_LUA_FS_MOUNT_POINT` and `CONFIG_LUA_FS_MAX_FILE_SIZE`. -/
structure FsConfig where
  mountPoint : Bytes
  maxFileSize : Nat
  deriving DecidableEq, Repr

def HostOp.inLua (fs : FileSystem β) : (op : HostOp) → LuaM β op.Reply
  | .file op => do
      let s ← get
      set { s with bus := (fs op s.bus).2 }
      return (fs op s.bus).1
  | .alloc size => runAllocator none 0 size
  | .free ptr size => do
      let _ ← runAllocator (some ptr) size 0
      return ⟨⟩

variable (tgt : Target) (cfg : FsConfig) (fs : FileSystem β) (core : LuaCore β)

/-- `"cannot open %s: error %d"`. -/
def cannotOpen (fullpath : Bytes) (rc : Errno) : Bytes :=
  ascii "cannot open " ++ fullpath ++ ascii s!": error {rc.code.toInt}"

/-- The path is a C string. -/
def luaFsDofile (path : Bytes) : LuaM β LuaInteger := do
  match buildPath cfg.mountPoint path with
  | .error rc => return rc.code
  | .ok fullpath =>
      match ← (readFileIntoBuf cfg.maxFileSize fullpath).embed (HostOp.inLua fs) with
      | .error rc =>
          luaPushfstring (cannotOpen fullpath rc)
          return rc.code
      | .ok (buf, data) =>
          let rc ← luaLLoadbuffer core data fullpath
          if rc ≠ .ok then
            let _ ← runAllocator (some buf) (data.length + 1) 0
            return rc.code
          let _ ← runAllocator (some buf) (data.length + 1) 0
          return (← luaPcall core).code

def luaFsLoadfile (path : Bytes) : LuaM β LuaInteger := do
  match buildPath cfg.mountPoint path with
  | .error rc => return rc.code
  | .ok fullpath =>
      match ← (readFileIntoBuf cfg.maxFileSize fullpath).embed (HostOp.inLua fs) with
      | .error rc =>
          luaPushfstring (cannotOpen fullpath rc)
          return rc.code
      | .ok (buf, data) =>
          let rc ← luaLLoadbuffer core data fullpath
          let _ ← runAllocator (some buf) (data.length + 1) 0
          return rc.code

/-- `"%s"` with a string that may be a null pointer. -/
def formatString : Option Bytes → String
  | none => "(null)"
  | some s => latin1 s

/-- `fs.dofile(path)`. -/
def lFsDofile : LuaM β Nat := do
  let path ← luaLCheckstring tgt 1
  let topBefore := (← luaGettop) - 1
  let rc ← luaFsDofile cfg fs core (CString.text path)
  if rc ≠ 0 ∧ rc.toInt < 0 then
    luaLError (formatString (← luaTostring tgt (-1)))
  else if rc ≠ 0 then luaError
  else return (← luaGettop) - topBefore

/-- `fs.loadfile(path)`. -/
def lFsLoadfile : LuaM β Nat := do
  let path ← luaLCheckstring tgt 1
  let rc ← luaFsLoadfile cfg fs core (CString.text path)
  if rc ≠ 0 ∧ rc.toInt < 0 then
    luaLError (formatString (← luaTostring tgt (-1)))
  else if rc ≠ 0 then
    luaPushnil
    luaInsertSecond
    return 2
  else return 1

/-- Running a file is loading it and calling what was loaded. -/
theorem luaFsDofile_eq (path : Bytes) :
    luaFsDofile cfg fs core path = do
      let rc ← luaFsLoadfile cfg fs core path
      if rc = 0 then return (← luaPcall core).code else return rc := by
  simp only [luaFsDofile, luaFsLoadfile]
  split
  · rename_i rc _
    rw [pure_bind, if_neg rc.code_ne_zero]
  · simp only [bind_assoc]
    congr 1
    funext r
    split
    · rename_i rc
      simp only [bind_assoc, pure_bind, if_neg rc.code_ne_zero]
    · simp only [bind_assoc]
      congr 1
      funext rc
      cases rc <;> simp [LuaStatus.code]

/-- Every step of reading the file succeeds: it is a file within the limit, the heap has
room for it, and it can be opened and read. -/
def FileReads (heap : SysHeap) (fullpath : Bytes) (b : β) (data : Bytes) (b' : β) : Prop :=
  ∃ size b₁ b₂ b₃ closed,
    fs (.stat fullpath) b = (.ok ⟨.file, size⟩, b₁) ∧ size ≤ cfg.maxFileSize ∧
    heap.freshContents (size + 1) ≠ none ∧ fs (.open fullpath .read) b₁ = (.ok ⟨⟩, b₂) ∧
    fs (.read size) b₂ = (.ok data, b₃) ∧ fs .close b₃ = (closed, b')

/-- The heap after a block was obtained and released again. -/
def SysHeap.borrowed (h : SysHeap) : SysHeap :=
  { h with blocks := Function.update h.blocks h.next none, next := h.next + 1 }

variable {cfg fs}

/-- The steps decide what is read. -/
theorem FileReads.unique {heap : SysHeap} {fullpath : Bytes} {b b₁ b₂ : β} {data₁ data₂ : Bytes}
    (h₁ : FileReads cfg fs heap fullpath b data₁ b₁)
    (h₂ : FileReads cfg fs heap fullpath b data₂ b₂) : data₁ = data₂ ∧ b₁ = b₂ := by
  obtain ⟨size, c₁, c₂, c₃, closed, hstat, -, -, hopen, hread, hclose⟩ := h₁
  obtain ⟨size', c₁', c₂', c₃', closed', hstat', -, -, hopen', hread', hclose'⟩ := h₂
  obtain ⟨hentry, rfl⟩ := Prod.mk.inj (hstat.symm.trans hstat')
  obtain rfl : size = size' := congrArg FsDirent.size (Except.ok.inj hentry)
  obtain ⟨-, rfl⟩ := Prod.mk.inj (hopen.symm.trans hopen')
  obtain ⟨hdata, rfl⟩ := Prod.mk.inj (hread.symm.trans hread')
  exact ⟨Except.ok.inj hdata, (Prod.mk.inj (hclose.symm.trans hclose')).2⟩

section Rules

variable {s : State β} {E : Exn → State β → Prop}

theorem wp_inLua_file {op : FileOp} {Q : op.Reply → State β → Prop} :
    wp (HostOp.inLua fs (.file op)) Q E s ↔
      Q (fs op s.bus).1 { s with bus := (fs op s.bus).2 } := Iff.rfl

theorem wp_runAllocator_request {size : Nat} {Q : Option Nat → State β → Prop} :
    wp (runAllocator none 0 size) Q E s ↔
      match s.heap.freshContents size with
      | none => Q none { s with heap := s.heap.withoutFresh size }
      | some bs => Q (some s.heap.next) { s with heap := s.heap.withFresh bs } := by
  simp only [runAllocator, wp_bind, wp_get]
  cases hfresh : s.heap.freshContents size with
  | none => simp only [luaZephyrAllocator_none hfresh, wp_bind, wp_set, wp_pure]
  | some bs => simp only [luaZephyrAllocator_some hfresh, wp_bind, wp_set, wp_pure]

theorem wp_inLua_request {size : Nat} {Q : Option Nat → State β → Prop} :
    wp (HostOp.inLua fs (.alloc size)) Q E s ↔
      match s.heap.freshContents size with
      | none => Q none { s with heap := s.heap.withoutFresh size }
      | some bs => Q (some s.heap.next) { s with heap := s.heap.withFresh bs } :=
  wp_runAllocator_request

theorem wp_runAllocator_release {heap : SysHeap} {bs : Bytes} (h : s.heap = heap.withFresh bs)
    (n : Nat) {Q : Option Nat → State β → Prop} :
    wp (runAllocator (some heap.next) n 0) Q E s ↔ Q none { s with heap := heap.borrowed } := by
  have hfree : luaZephyrAllocator (heap.withFresh bs) (some heap.next) n 0 =
      .ok (none, heap.borrowed) := by
    rw [luaZephyrAllocator_free (heap.withFresh_blocks_next bs), SysHeap.withFresh,
      Function.update_idem, SysHeap.borrowed]
  simp only [runAllocator, wp_bind, wp_get, h, hfree, wp_set, wp_pure]

theorem wp_inLua_release {heap : SysHeap} {bs : Bytes} (h : s.heap = heap.withFresh bs)
    (n : Nat) {Q : Unit → State β → Prop} :
    wp (HostOp.inLua fs (.free heap.next n)) Q E s ↔
      Q ⟨⟩ { s with heap := heap.borrowed } :=
  wp_bind.trans (wp_runAllocator_release h n)

/-- The two ends of reading a file: a buffer with the bytes when every step succeeds, else
an errno and no buffer. -/
theorem wp_readFileIntoBuf {fullpath : Bytes} {Q : Except Errno (Nat × Bytes) → State β → Prop}
    (hok : ∀ data b' bs, FileReads cfg fs s.heap fullpath s.bus data b' →
      Q (.ok (s.heap.next, data)) { s with heap := s.heap.withFresh bs, bus := b' })
    (herror : (¬ ∃ data b', FileReads cfg fs s.heap fullpath s.bus data b') →
      ∀ rc heap b, Q (.error rc) { s with heap := heap, bus := b }) :
    wp ((readFileIntoBuf cfg.maxFileSize fullpath).embed (HostOp.inLua fs)) Q E s := by
  by_cases hreads : ∃ data b', FileReads cfg fs s.heap fullpath s.bus data b'
  · obtain ⟨data, b', hdata⟩ := hreads
    obtain ⟨size, b₁, b₂, b₃, closed, hstat, hlimit, hroom, hopen, hread, hclose⟩ := id hdata
    obtain ⟨bs, hbs⟩ := Option.ne_none_iff_exists'.mp hroom
    rw [readFileIntoBuf]
    refine (Prog.wp_embed_perform_bind (HostOp.file (.stat fullpath)) _).mpr
      (wp_inLua_file.mpr ?_)
    rw [hstat]
    simp only [ne_eq, not_true_eq_false, if_false, if_neg (Nat.not_lt.mpr hlimit)]
    refine (Prog.wp_embed_perform_bind (HostOp.alloc (size + 1)) _).mpr
      (wp_inLua_request.mpr ?_)
    rw [hbs]
    refine (Prog.wp_embed_perform_bind (HostOp.file (.open fullpath .read)) _).mpr
      (wp_inLua_file.mpr ?_)
    rw [hopen]
    refine (Prog.wp_embed_perform_bind (HostOp.file (.read size)) _).mpr (wp_inLua_file.mpr ?_)
    rw [hread]
    refine (Prog.wp_embed_perform_bind (HostOp.file .close) _).mpr (wp_inLua_file.mpr ?_)
    rw [hclose]
    exact hok data b' bs hdata
  · have hfail := herror hreads
    rw [readFileIntoBuf]
    refine (Prog.wp_embed_perform_bind (HostOp.file (.stat fullpath)) _).mpr
      (wp_inLua_file.mpr ?_)
    rcases hstat : fs (.stat fullpath) s.bus with ⟨_ | ⟨type, size⟩, b₁⟩
    · exact hfail _ _ _
    dsimp only
    split
    · exact hfail _ _ _
    rename_i htype
    split
    · exact hfail _ _ _
    rename_i hlimit
    refine (Prog.wp_embed_perform_bind (HostOp.alloc (size + 1)) _).mpr
      (wp_inLua_request.mpr ?_)
    rcases hbs : s.heap.freshContents (size + 1) with _ | bs
    · exact hfail _ _ _
    refine (Prog.wp_embed_perform_bind (HostOp.file (.open fullpath .read)) _).mpr
      (wp_inLua_file.mpr ?_)
    rcases hopen : fs (.open fullpath .read) b₁ with ⟨_ | _, b₂⟩
    · refine (Prog.wp_embed_perform_bind (HostOp.free s.heap.next _) _).mpr
        ((wp_inLua_release rfl _).mpr ?_)
      exact hfail _ _ _
    refine (Prog.wp_embed_perform_bind (HostOp.file (.read size)) _).mpr (wp_inLua_file.mpr ?_)
    rcases hread : fs (.read size) b₂ with ⟨_ | data, b₃⟩
    · refine (Prog.wp_embed_perform_bind (HostOp.file .close) _).mpr (wp_inLua_file.mpr ?_)
      refine (Prog.wp_embed_perform_bind (HostOp.free s.heap.next _) _).mpr
        ((wp_inLua_release rfl _).mpr ?_)
      exact hfail _ _ _
    obtain rfl : type = .file := not_not.mp htype
    refine absurd ⟨data, _, size, b₁, b₂, b₃, _, hstat, Nat.not_lt.mp hlimit, ?_, hopen, hread,
      rfl⟩ hreads
    rw [hbs]
    exact Option.some_ne_none bs

end Rules

variable (cfg fs)

/-- The path is a file that can be read. -/
def ScriptReads (s : State β) (path fullpath data : Bytes) (b' : β) : Prop :=
  buildPath cfg.mountPoint path = .ok fullpath ∧ FileReads cfg fs s.heap fullpath s.bus data b'

variable {cfg fs}

theorem ScriptReads.unique {s : State β} {path fullpath₁ fullpath₂ data₁ data₂ : Bytes} {b₁ b₂ : β}
    (h₁ : ScriptReads cfg fs s path fullpath₁ data₁ b₁)
    (h₂ : ScriptReads cfg fs s path fullpath₂ data₂ b₂) :
    fullpath₁ = fullpath₂ ∧ data₁ = data₂ ∧ b₁ = b₂ := by
  obtain ⟨hpath₁, hreads₁⟩ := h₁
  obtain ⟨hpath₂, hreads₂⟩ := h₂
  obtain rfl := Except.ok.inj (hpath₁.symm.trans hpath₂)
  exact ⟨rfl, hreads₁.unique hreads₂⟩

variable (cfg fs)

/-- The ways `lua_fs_loadfile` returns: the function is pushed, or a message of the compiler
or of the allocator is, or the file was not read. -/
inductive LoadEnd (s : State β) (path : Bytes) : LuaInteger → State β → Prop where
  | loaded {fullpath data : Bytes} {b' : β} {f peak : Nat}
      (hreads : ScriptReads cfg fs s path fullpath data b')
      (hmemory : s.apiFails s.apiCalls = false) (hcompile : core.compile data fullpath = .ok f) :
      LoadEnd s path LuaStatus.ok.code { s with
        stack := .other f :: s.stack, peak := peak, apiCalls := s.apiCalls + 1
        heap := s.heap.borrowed, bus := b' }
  | rejected {fullpath data message : Bytes} {b' : β} {t : State β}
      (hreads : ScriptReads cfg fs s path fullpath data b')
      (hmemory : s.apiFails s.apiCalls = false)
      (hcompile : core.compile data fullpath = .error message)
      (hstack : t.stack = .string message :: s.stack) :
      LoadEnd s path LuaStatus.errSyntax.code t
  | outOfMemory {fullpath data : Bytes} {b' : β} {t : State β}
      (hreads : ScriptReads cfg fs s path fullpath data b')
      (hmemory : s.apiFails s.apiCalls = true)
      (hstack : t.stack = CallError.memory.object :: s.stack) :
      LoadEnd s path LuaStatus.errMem.code t
  | tooLong {rc : Errno} (hpath : buildPath cfg.mountPoint path = .error rc) :
      LoadEnd s path rc.code s
  | unread {fullpath message : Bytes} {t : State β}
      (hpath : buildPath cfg.mountPoint path = .ok fullpath)
      (hnone : ¬ ∃ data b', FileReads cfg fs s.heap fullpath s.bus data b')
      (hmemory : s.apiFails s.apiCalls = false) (rc : Errno)
      (hstack : t.stack = .string message :: s.stack) : LoadEnd s path rc.code t

variable {cfg fs core}

theorem not_scriptReads_of_tooLong {s : State β} {path : Bytes} {rc : Errno}
    (hpath : buildPath cfg.mountPoint path = .error rc) (fullpath data : Bytes) (b' : β) :
    ¬ ScriptReads cfg fs s path fullpath data b' := by
  rintro ⟨hpath', -⟩
  exact nomatch hpath.symm.trans hpath'

theorem not_scriptReads_of_unread {s : State β} {path fullpath : Bytes}
    (hpath : buildPath cfg.mountPoint path = .ok fullpath)
    (hnone : ¬ ∃ data b', FileReads cfg fs s.heap fullpath s.bus data b')
    (fullpath' data : Bytes) (b' : β) : ¬ ScriptReads cfg fs s path fullpath' data b' := by
  rintro ⟨hpath', hreads⟩
  obtain rfl := Except.ok.inj (hpath.symm.trans hpath')
  exact hnone ⟨data, b', hreads⟩

/-- With a path that fits, the load goes one of these ways. -/
theorem wp_luaFsLoadfile_ways {s : State β} {path fullpath : Bytes}
    (hpath : buildPath cfg.mountPoint path = .ok fullpath)
    {Q : LuaInteger → State β → Prop} {E : Exn → State β → Prop}
    (houtOfMemory : ∀ data b' t, ScriptReads cfg fs s path fullpath data b' →
      s.apiFails s.apiCalls = true → t.stack = CallError.memory.object :: s.stack →
      Q LuaStatus.errMem.code t)
    (hrejected : ∀ data b' message t, ScriptReads cfg fs s path fullpath data b' →
      s.apiFails s.apiCalls = false → core.compile data fullpath = .error message →
      t.stack = .string message :: s.stack → Q LuaStatus.errSyntax.code t)
    (hloaded : ∀ data b' f peak, ScriptReads cfg fs s path fullpath data b' →
      s.apiFails s.apiCalls = false → core.compile data fullpath = .ok f →
      Q LuaStatus.ok.code { s with
        stack := .other f :: s.stack, peak := peak, apiCalls := s.apiCalls + 1
        heap := s.heap.borrowed, bus := b' })
    (hunread : ∀ (rc : Errno) t, (¬ ∃ data b', FileReads cfg fs s.heap fullpath s.bus data b') →
      s.apiFails s.apiCalls = false → t.stack = .string (cannotOpen fullpath rc) :: s.stack →
      Q rc.code t)
    (hraised : ∀ t, (¬ ∃ data b', FileReads cfg fs s.heap fullpath s.bus data b') →
      s.apiFails s.apiCalls = true → t.stack = s.stack → E (.error .memory) t) :
    wp (luaFsLoadfile cfg fs core path) Q E s := by
  rw [luaFsLoadfile, hpath]
  refine wp_bind.mpr (wp_readFileIntoBuf (fun data b' bs hreads => ?_)
    fun hnone rc heap b => ?_)
  · have hscript : ScriptReads cfg fs s path fullpath data b' := ⟨hpath, hreads⟩
    refine wp_bind.mpr (wp_luaLLoadbuffer.mpr ?_)
    split
    · rename_i hmemory
      refine wp_bind.mpr ((wp_runAllocator_release rfl _).mpr ?_)
      exact houtOfMemory data b' _ hscript hmemory rfl
    · rename_i hmemory
      rw [Bool.not_eq_true] at hmemory
      split
      · rename_i message hcompile
        refine wp_bind.mpr ((wp_runAllocator_release rfl _).mpr ?_)
        exact hrejected data b' message _ hscript hmemory hcompile rfl
      · rename_i f hcompile
        refine wp_bind.mpr ((wp_runAllocator_release rfl _).mpr ?_)
        exact hloaded data b' f _ hscript hmemory hcompile
  · refine wp_bind.mpr (wp_luaPushfstring.mpr (wp_allocating.mpr ?_))
    split
    · rename_i hmemory
      exact hraised _ hnone hmemory rfl
    · rename_i hmemory
      rw [Bool.not_eq_true] at hmemory
      exact hunread rc _ hnone hmemory rfl

/-- It raises only when the message about a file that was not read finds no memory. -/
theorem wp_luaFsLoadfile (s : State β) (path : Bytes) :
    wp (luaFsLoadfile cfg fs core path) (LoadEnd cfg fs core s path)
      (fun e _ => e = .error .memory ∧ s.apiFails s.apiCalls = true ∧
        ∃ fullpath, buildPath cfg.mountPoint path = .ok fullpath ∧
          ¬ ∃ data b', FileReads cfg fs s.heap fullpath s.bus data b') s := by
  cases hpath : buildPath cfg.mountPoint path with
  | error rc =>
      rw [luaFsLoadfile, hpath]
      exact .tooLong hpath
  | ok fullpath =>
      refine wp_luaFsLoadfile_ways hpath ?_ ?_ ?_ ?_ ?_
      · exact fun _ _ _ hreads hmemory hstack => .outOfMemory hreads hmemory hstack
      · exact fun _ _ _ _ hreads hmemory hcompile hstack =>
          .rejected hreads hmemory hcompile hstack
      · exact fun _ _ _ _ hreads hmemory hcompile => .loaded hreads hmemory hcompile
      · exact fun rc _ hnone hmemory hstack => .unread hpath hnone hmemory rc hstack
      · exact fun _ hnone hmemory _ => ⟨rfl, hmemory, fullpath, rfl, hnone⟩

/-- The message of a negative result is raised, whatever is on top of the stack. -/
theorem wp_raise_tostring {α : Type} {s : State β} (hstack : s.stack ≠ [])
    {Q : α → State β → Prop} {E : Exn → State β → Prop} (hE : ∀ e t, E (.error e) t) :
    wp (luaTostring tgt (-1) >>= fun text => luaLError (formatString text)) Q E s := by
  obtain ⟨v, rest, hstack⟩ := List.exists_cons_of_ne_nil hstack
  refine wp_bind.mpr ((wp_luaTostring_top hstack).mpr ?_)
  split
  · exact hE _ _
  · split
    · refine wp_allocating.mpr ?_
      split
      · exact hE _ _
      · exact hE _ _
    · exact hE _ _

end LuaZephyr
