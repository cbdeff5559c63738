import LuaZephyr.Fs.Files

/-!
# Loading a script while it is replaced

Threads load a file and replace it, one file system call at a time. New contents become
visible to all handles when the writer's close returns. The loader takes the size from
`fs_stat` and the bytes from `fs_read`, so that it gets a whole version of the file unless
the version it reads is longer than the one whose size it saw.
-/

namespace LuaZephyr

open Programs Runs

/-- A handle a thread has open. A writer's data are its own until it closes. -/
inductive FileHandle where
  | reading
  | writing (pending : Bytes)
  deriving DecidableEq, Repr

/-- One file by name: its contents, all contents it ever had, newest first, and the handles
of the threads. `reported` records the size that `fs_stat` last told each thread. -/
structure SharedFile where
  visible : Option Bytes
  versions : List Bytes
  handles : Nat → Option FileHandle
  reported : Nat → Option Nat

/-- How a call of the file system or the allocator turns out. A write may be cut and a
failing close may lose the end of the data. -/
inductive Fortune where
  | succeeds
  | cut (count : Nat)
  | fails (rc : Errno) (kept : Nat)
  deriving DecidableEq, Repr

namespace SharedFile

/-- Other handles see new contents from now on. -/
def publish (f : SharedFile) (contents : Bytes) : SharedFile :=
  { f with visible := some contents, versions := contents :: f.versions }

def withHandle (f : SharedFile) (thread : Nat) (handle : Option FileHandle) : SharedFile :=
  { f with handles := Function.update f.handles thread handle }

def stat (f : SharedFile) : Fortune → Except Errno FsDirent
  | .fails rc _ => .error rc
  | _ =>
      match f.visible with
      | none => .error .enoent
      | some contents => .ok ⟨.file, contents.length⟩

def openRead (f : SharedFile) (thread : Nat) : Fortune → Except Errno Unit × SharedFile
  | .fails rc _ => (.error rc, f)
  | _ =>
      match f.visible with
      | none => (.error .enoent, f)
      | some _ => (.ok ⟨⟩, f.withHandle thread (some .reading))

/-- A missing file is created empty. -/
def openWrite (f : SharedFile) (thread : Nat) : Fortune → Except Errno Unit × SharedFile
  | .fails rc _ => (.error rc, f)
  | _ =>
      match f.visible with
      | none => (.ok ⟨⟩, (f.publish []).withHandle thread (some (.writing [])))
      | some contents => (.ok ⟨⟩, f.withHandle thread (some (.writing contents)))

def truncate (f : SharedFile) (thread length : Nat) : Fortune → Except Errno Unit × SharedFile
  | .fails rc _ => (.error rc, f)
  | _ =>
      match f.handles thread with
      | some (.writing pending) =>
          (.ok ⟨⟩, f.withHandle thread (some (.writing (pending.take length))))
      | _ => (.error .einval, f)

def read (f : SharedFile) (thread count : Nat) : Fortune → Except Errno Bytes
  | .fails rc _ => .error rc
  | _ =>
      match f.handles thread, f.visible with
      | some .reading, some contents => .ok (contents.take count)
      | _, _ => .error .einval

def write (f : SharedFile) (thread : Nat) (data : Bytes) : Fortune → Except Errno Nat × SharedFile
  | .fails rc _ => (.error rc, f)
  | fortune =>
      match f.handles thread with
      | some (.writing pending) =>
          let count := match fortune with
            | .cut count => min count data.length
            | _ => data.length
          (.ok count, f.withHandle thread (some (.writing (pending ++ data.take count))))
      | _ => (.error .einval, f)

def close (f : SharedFile) (thread : Nat) (fortune : Fortune) : Except Errno Unit × SharedFile :=
  let reply : Except Errno Unit := match fortune with
    | .fails rc _ => .error rc
    | _ => .ok ⟨⟩
  match f.handles thread with
  | some (.writing pending) =>
      let contents := match fortune with
        | .fails _ kept => pending.take kept
        | _ => pending
      (reply, (f.publish contents).withHandle thread none)
  | _ => (reply, f.withHandle thread none)

/-- The calls of a thread. -/
def serve (thread : Nat) : (op : HostOp) → Fortune → SharedFile → op.Reply × SharedFile
  | .file (.stat _), fortune, f => (f.stat fortune, f)
  | .file (.open _ .read), fortune, f => f.openRead thread fortune
  | .file (.open _ .createWrite), fortune, f => f.openWrite thread fortune
  | .file (.truncate length), fortune, f => f.truncate thread length fortune
  | .file (.read count), fortune, f => (f.read thread count fortune, f)
  | .file (.write data), fortune, f => f.write thread data fortune
  | .file .close, fortune, f => f.close thread fortune
  | .file (.unlink _), _, f => (.error .einval, f)
  | .alloc _, .fails _ _, f => (none, f)
  | .alloc _, _, f => (some 0, f)
  | .free _ _, _, f => (⟨⟩, f)

/-- The size a thread knows of after a reply. -/
def sizeAfter (known : Option Nat) : (op : HostOp) → op.Reply → Option Nat
  | .file (.stat _), .ok entry => some entry.size
  | _, _ => known

def handle (thread : Nat) (op : HostOp) (fortune : Fortune) (f : SharedFile) :
    op.Reply × SharedFile :=
  let r := serve thread op fortune f
  (r.1, { r.2 with
    reported := Function.update f.reported thread (sizeAfter (f.reported thread) op r.1) })

/-- The visible contents are a version, and no version is forgotten. -/
structure Extends (f g : SharedFile) : Prop where
  visible : ∀ contents, g.visible = some contents → contents ∈ g.versions
  versions : ∀ contents ∈ f.versions, contents ∈ g.versions

section Extends

variable {f : SharedFile} (h : ∀ contents, f.visible = some contents → contents ∈ f.versions)
include h

theorem extends_refl : f.Extends f := ⟨h, fun _ hmem => hmem⟩

theorem extends_withHandle (thread : Nat) (handle : Option FileHandle) :
    f.Extends (f.withHandle thread handle) := ⟨h, fun _ hmem => hmem⟩

omit h in
theorem extends_publish (contents : Bytes) (thread : Nat) (handle : Option FileHandle) :
    f.Extends ((f.publish contents).withHandle thread handle) := by
  refine ⟨fun contents' hvisible => ?_, fun _ hmem => List.mem_cons_of_mem _ hmem⟩
  obtain rfl := Option.some.inj hvisible
  exact List.mem_cons_self ..

theorem serve_extends (thread : Nat) (op : HostOp) (fortune : Fortune) :
    f.Extends (serve thread op fortune f).2 := by
  cases op with
  | alloc size => cases fortune <;> exact extends_refl h
  | free ptr size => exact extends_refl h
  | file op =>
      cases op with
      | stat path => exact extends_refl h
      | read count => exact extends_refl h
      | unlink path => exact extends_refl h
      | «open» path mode =>
          cases mode with
          | read =>
              simp only [serve, openRead]
              split
              · exact extends_refl h
              · split
                · exact extends_refl h
                · exact extends_withHandle h _ _
          | createWrite =>
              simp only [serve, openWrite]
              split
              · exact extends_refl h
              · split
                · exact extends_publish _ _ _
                · exact extends_withHandle h _ _
      | truncate length =>
          simp only [serve, truncate]
          split
          · exact extends_refl h
          · split
            · exact extends_withHandle h _ _
            · exact extends_refl h
      | write data =>
          simp only [serve, write]
          split
          · exact extends_refl h
          · split
            · exact extends_withHandle h _ _
            · exact extends_refl h
      | close =>
          simp only [serve, close]
          split
          · exact extends_publish _ _ _
          · exact extends_withHandle h _ _

theorem handle_extends (thread : Nat) (op : HostOp) (fortune : Fortune) :
    f.Extends (handle thread op fortune f).2 := by
  obtain ⟨hvisible, hversions⟩ := serve_extends h thread op fortune
  exact ⟨hvisible, hversions⟩

end Extends

end SharedFile

inductive FileCall where
  | load
  | replace (data : Bytes) (len : Nat)
  deriving DecidableEq, Repr

inductive FileCallEnd where
  | loaded (r : Except Errno (Nat × Bytes))
  | replaced (rc : LuaInteger)

/-- A load of the script at the path, as `lua_fs_dofile` and `lua_fs_loadfile` begin, or a
`lua_fs_write_file`. -/
def FileCall.body (maxFileSize : Nat) (path : Bytes) : FileCall → HostProg FileCallEnd
  | .load => do return .loaded (← readFileIntoBuf maxFileSize path)
  | .replace data len => do return .replaced (← luaFsWriteFile path data len)

abbrev FileThreads := Threads HostOp HostOp.Reply FileCallEnd SharedFile

abbrev FileMove := Move FileCall Fortune

variable (maxFileSize : Nat) (path : Bytes)

abbrev FileThreads.step : FileThreads → FileMove → Option FileCallEnd × FileThreads :=
  Threads.step (FileCall.body maxFileSize path) SharedFile.handle

/-- No thread is doing anything with the file. -/
def FileThreads.atRest (contents : Option Bytes) : FileThreads :=
  ⟨⟨contents, contents.toList, fun _ => none, fun _ => none⟩, fun _ => none⟩

/-- A read that succeeds finds contents that are not longer than the size `fs_stat` reported
to its thread. -/
def FileMove.Reads (s : FileThreads) (move : FileMove) : Prop :=
  ∀ thread count fortune, s.performs move = some (thread, .file (.read count), fortune) →
    (∀ rc kept, fortune ≠ .fails rc kept) →
      ∀ contents size, s.shared.visible = some contents →
        s.shared.reported thread = some size → contents.length ≤ size

/-- A read replies with what it asked for of contents that `x` admits to a thread that knows of
this size. -/
def ReadReplies (x : Option Nat → Bytes → Prop) (known : Option Nat) :
    (op : HostOp) → op.Reply → Prop
  | .file (.read count), reply =>
      ∀ data, reply = .ok data → ∃ contents, x known contents ∧ data = contents.take count
  | _, _ => True

/-- Contents in `x`, no longer than the thread knows. -/
def WithinReported (x : Bytes → Prop) (known : Option Nat) (contents : Bytes) : Prop :=
  x contents ∧ ∀ size, known = some size → contents.length ≤ size

/-- A loaded script is in `x` and within the limit. -/
def LoadsOf (x : Bytes → Prop) : FileCallEnd → Prop
  | .loaded (.ok (_, data)) => x data ∧ data.length ≤ maxFileSize
  | _ => True

/-- The read asks for the size the same load was told of, whatever was known before. -/
theorem readFileIntoBuf_ends {x : Option Nat → Bytes → Prop} {y : Bytes → Prop}
    (hxy : ∀ size contents, x (some size) contents → y (contents.take size))
    (known : Option Nat) :
    (readFileIntoBuf maxFileSize path).Ends SharedFile.sizeAfter (ReadReplies x)
      (fun r => LoadsOf maxFileSize y (.loaded r)) known := by
  rw [readFileIntoBuf]
  refine (Prog.ends_perform_bind (HostOp.file (.stat path)) _).mpr fun stat _ => ?_
  split
  · trivial
  · rename_i entry _
    split
    · trivial
    · split
      · trivial
      · rename_i hlimit
        refine (Prog.ends_perform_bind (HostOp.alloc (entry.size + 1)) _).mpr fun buf _ => ?_
        split
        · trivial
        · refine (Prog.ends_perform_bind (HostOp.file (.open path .read)) _).mpr fun opened _ => ?_
          split
          · exact fun _ _ => trivial
          · refine (Prog.ends_perform_bind (HostOp.file (.read entry.size)) _).mpr ?_
            intro data hread
            refine (Prog.ends_perform_bind (HostOp.file .close) _).mpr fun _ _ => ?_
            split
            · exact fun _ _ => trivial
            · obtain ⟨contents, hx, rfl⟩ := hread _ rfl
              refine ⟨hxy entry.size contents hx, ?_⟩
              rw [List.length_take]
              omega

theorem luaFsWriteFile_ends (x : Option Nat → Bytes → Prop) (y : Bytes → Prop) (data : Bytes)
    (len : Nat) (known : Option Nat) :
    (luaFsWriteFile path data len).Ends SharedFile.sizeAfter (ReadReplies x)
      (fun rc => LoadsOf maxFileSize y (.replaced rc)) known := by
  simp only [luaFsWriteFile]
  refine (Prog.ends_perform_bind (HostOp.file (.open path .createWrite)) _).mpr fun opened _ => ?_
  split
  · trivial
  · refine (Prog.ends_perform_bind (HostOp.file (.truncate 0)) _).mpr fun truncated _ => ?_
    split
    · exact fun _ _ => trivial
    · refine (Prog.ends_perform_bind (HostOp.file (.write _)) _).mpr fun written _ => ?_
      refine (Prog.ends_perform_bind (HostOp.file .close) _).mpr fun _ _ => ?_
      split
      · trivial
      · generalize (if len = 0 then (CString.text data).length else len) = n
        split
        · trivial
        · trivial

theorem FileCall.body_ends {x : Option Nat → Bytes → Prop} {y : Bytes → Prop}
    (hxy : ∀ size contents, x (some size) contents → y (contents.take size)) (call : FileCall)
    (known : Option Nat) :
    (call.body maxFileSize path).Ends SharedFile.sizeAfter (ReadReplies x)
      (LoadsOf maxFileSize y) known := by
  cases call with
  | load => exact (readFileIntoBuf_ends maxFileSize path hxy known).map fun _ h => h
  | replace data len =>
      exact (luaFsWriteFile_ends maxFileSize path x y data len known).map fun _ h => h

theorem SharedFile.read_ok {f : SharedFile} {thread count : Nat} {fortune : Fortune} {data : Bytes}
    (h : f.read thread count fortune = .ok data) :
    (∀ rc kept, fortune ≠ .fails rc kept) ∧
      ∃ contents, f.visible = some contents ∧ data = contents.take count := by
  unfold SharedFile.read at h
  split at h
  · contradiction
  · rename_i hfortune
    split at h
    · rename_i contents _ hvisible
      exact ⟨hfortune, contents, hvisible, (Except.ok.inj h).symm⟩
    · contradiction

/-- A read that succeeds gives the beginning of the visible contents. -/
theorem SharedFile.readReplies_handle {x : Option Nat → Bytes → Prop} {f : SharedFile}
    {thread : Nat} {op : HostOp} {fortune : Fortune} {known : Option Nat}
    (hread : ∀ count contents, op = .file (.read count) → (∀ rc kept, fortune ≠ .fails rc kept) →
      f.visible = some contents → x known contents) :
    ReadReplies x known op (SharedFile.handle thread op fortune f).1 := by
  cases op with
  | file op =>
      cases op with
      | read count =>
          intro data hdata
          obtain ⟨hfortune, contents, hvisible, rfl⟩ := SharedFile.read_ok hdata
          exact ⟨contents, hread count contents rfl hfortune hvisible, rfl⟩
      | _ => trivial
  | _ => trivial

variable {maxFileSize path}

/-- No step makes a load end with more than the limit. -/
theorem FileThreads.step_limit {s : FileThreads}
    (h : s.OnCourse SharedFile.sizeAfter SharedFile.reported (fun (_ : Unit) _ => True)
      (fun _ => ReadReplies fun _ _ => True) (fun _ => LoadsOf maxFileSize fun _ => True))
    (move : FileMove) :
    (FileThreads.step maxFileSize path s move).2.OnCourse SharedFile.sizeAfter SharedFile.reported
        (fun (_ : Unit) _ => True) (fun _ => ReadReplies fun _ _ => True)
        (fun _ => LoadsOf maxFileSize fun _ => True) ∧
      ∀ a, (FileThreads.step maxFileSize path s move).1 = some a →
        LoadsOf maxFileSize (fun _ => True) a := by
  have hperform : ∀ thread op fortune, s.performs move = some (thread, op, fortune) →
      ∀ _ : Unit, True → True ∧ ReadReplies (fun _ _ => True) (s.shared.reported thread) op
        (SharedFile.handle thread op fortune s.shared).1 := by
    intro thread op fortune _ _ _
    exact ⟨trivial, SharedFile.readReplies_handle fun _ _ _ _ _ => trivial⟩
  obtain ⟨hcourse, hresult⟩ :=
    h.step (fun call _ => call.body_ends maxFileSize path fun _ _ _ => trivial)
      (fun _ _ _ _ => rfl) move hperform
  exact ⟨hcourse, fun a ha => hresult a ha ⟨⟩ trivial⟩

/-- The visible contents are a version, and programs in progress load versions. -/
structure FileThreads.Sound (maxFileSize : Nat) (s : FileThreads) : Prop where
  visible : ∀ contents, s.shared.visible = some contents → contents ∈ s.shared.versions
  course : s.OnCourse SharedFile.sizeAfter SharedFile.reported
    (fun x f => ∀ contents ∈ f.versions, x contents) (fun x => ReadReplies (WithinReported x))
    (LoadsOf maxFileSize)

theorem WithinReported.take {x : Bytes → Prop} {size : Nat} {contents : Bytes}
    (h : WithinReported x (some size) contents) : x (contents.take size) := by
  rw [List.take_of_length_le (h.2 size rfl)]
  exact h.1

/-- A step whose read finds no more than its thread was told of keeps all this, and a load
ends with a version. -/
theorem FileThreads.Sound.step {s : FileThreads} (h : s.Sound maxFileSize) {move : FileMove}
    (hreads : move.Reads s) :
    (FileThreads.step maxFileSize path s move).2.Sound maxFileSize ∧
      s.shared.Extends (FileThreads.step maxFileSize path s move).2.shared ∧
      ∀ a, (FileThreads.step maxFileSize path s move).1 = some a →
        LoadsOf maxFileSize (· ∈ s.shared.versions) a := by
  have hextends : s.shared.Extends (FileThreads.step maxFileSize path s move).2.shared := by
    unfold FileThreads.step Threads.step
    split
    · split
      · exact SharedFile.extends_refl h.visible
      · exact SharedFile.extends_refl h.visible
    · split
      · exact SharedFile.extends_refl h.visible
      · exact SharedFile.extends_refl h.visible
      · exact SharedFile.handle_extends h.visible _ _ _
  have hperform : ∀ thread op fortune, s.performs move = some (thread, op, fortune) →
      ∀ x : Bytes → Prop,
        (∀ contents ∈ (SharedFile.handle thread op fortune s.shared).2.versions, x contents) →
          (∀ contents ∈ s.shared.versions, x contents) ∧
            ReadReplies (WithinReported x) (s.shared.reported thread) op
              (SharedFile.handle thread op fortune s.shared).1 := by
    intro thread op fortune hop x hx
    have hwithin : ∀ contents ∈ s.shared.versions, x contents := fun contents hmem =>
      hx contents ((SharedFile.handle_extends h.visible thread op fortune).versions contents hmem)
    refine ⟨hwithin, SharedFile.readReplies_handle ?_⟩
    rintro count contents rfl hfortune hvisible
    have hfits := fun size => hreads thread count fortune hop hfortune contents size hvisible
    exact ⟨hwithin contents (h.visible contents hvisible), hfits⟩
  obtain ⟨hcourse, hresult⟩ :=
    h.course.step (fun call x => call.body_ends maxFileSize path fun _ _ => WithinReported.take)
      (fun _ _ _ _ => rfl) move hperform
  exact ⟨⟨hextends.visible, hcourse⟩, hextends, fun a ha => hresult a ha _ fun _ hmem => hmem⟩

theorem FileThreads.atRest_onCourse {X G : Type} {track : G → (op : HostOp) → op.Reply → G}
    {told : SharedFile → Nat → G} (within : X → SharedFile → Prop)
    (allowed : X → G → (op : HostOp) → op.Reply → Prop) (Q : X → FileCallEnd → Prop)
    (contents : Option Bytes) :
    (FileThreads.atRest contents).OnCourse track told within allowed Q := by
  intro thread p hrunning
  exact absurd hrunning (Option.some_ne_none p).symm

theorem FileThreads.atRest_sound (maxFileSize : Nat) (contents : Option Bytes) :
    (FileThreads.atRest contents).Sound maxFileSize := by
  refine ⟨fun contents' hvisible => ?_, FileThreads.atRest_onCourse _ _ _ _⟩
  obtain rfl : contents = some contents' := hvisible
  exact List.mem_singleton_self _

theorem LoadsOf.mono {x y : Bytes → Prop} (hxy : ∀ data, x data → y data) {a : FileCallEnd}
    (h : LoadsOf maxFileSize x a) : LoadsOf maxFileSize y a := by
  cases a with
  | replaced rc => trivial
  | loaded r =>
      cases r with
      | error rc => trivial
      | ok r => exact ⟨hxy _ h.1, h.2⟩

/-- Every call that has ended so far ended in `Q`. -/
def EndedIn (Q : FileCallEnd → Prop) (history : List (FileMove × Option FileCallEnd)) : Prop :=
  ∀ x ∈ history, ∀ a, x.2 = some a → Q a

theorem EndedIn.concat {Q : FileCallEnd → Prop}
    {history : List (FileMove × Option FileCallEnd)} (h : EndedIn Q history)
    {x : FileMove × Option FileCallEnd} (hx : ∀ a, x.2 = some a → Q a) :
    EndedIn Q (history ++ [x]) := by
  intro y hy
  obtain hy | hy := List.mem_append.mp hy
  · exact h y hy
  · rw [List.mem_singleton.mp hy]
    exact hx

theorem EndedIn.mono {Q R : FileCallEnd → Prop} {history : List (FileMove × Option FileCallEnd)}
    (h : EndedIn Q history) (hQR : ∀ a, Q a → R a) : EndedIn R history :=
  fun x hx a ha => hQR a (h x hx a ha)

/-- No load of any run ends with more than the limit. -/
theorem FileThreads.run_limit (maxFileSize : Nat) (path : Bytes) (contents : Option Bytes)
    (moves : List FileMove) :
    EndedIn (LoadsOf maxFileSize fun _ => True)
      (run (FileThreads.step maxFileSize path) (.atRest contents) moves).1 := by
  let Inv (history : List (FileMove × Option FileCallEnd)) (s : FileThreads) : Prop :=
    s.OnCourse SharedFile.sizeAfter SharedFile.reported (fun (_ : Unit) _ => True)
        (fun _ => ReadReplies fun _ _ => True) (fun _ => LoadsOf maxFileSize fun _ => True) ∧
      EndedIn (LoadsOf maxFileSize fun _ => True) history
  have hstart : Inv [] (.atRest contents) := ⟨FileThreads.atRest_onCourse _ _ _ _, nofun⟩
  have hstep : ∀ history s move, Inv history s → True →
      Inv (history ++ [(move, (FileThreads.step maxFileSize path s move).1)])
        (FileThreads.step maxFileSize path s move).2 := by
    rintro history s move ⟨hcourse, hended⟩ -
    obtain ⟨hcourse', hresult⟩ := FileThreads.step_limit hcourse move
    exact ⟨hcourse', hended.concat hresult⟩
  exact (run_invariant hstep hstart (allSteps_of_forall _ (fun _ _ => trivial) _ moves)).2

/-- Every load of a run whose reads find no more than was reported ends with a version. -/
theorem FileThreads.run_sound (maxFileSize : Nat) (path : Bytes) (contents : Option Bytes)
    {moves : List FileMove}
    (hall : AllSteps (FileThreads.step maxFileSize path) (fun s move => move.Reads s)
      (.atRest contents) moves) :
    EndedIn (LoadsOf maxFileSize
        (· ∈ (run (FileThreads.step maxFileSize path) (.atRest contents) moves).2.shared.versions))
      (run (FileThreads.step maxFileSize path) (.atRest contents) moves).1 := by
  let Inv (history : List (FileMove × Option FileCallEnd)) (s : FileThreads) : Prop :=
    s.Sound maxFileSize ∧ EndedIn (LoadsOf maxFileSize (· ∈ s.shared.versions)) history
  have hstart : Inv [] (.atRest contents) := ⟨FileThreads.atRest_sound maxFileSize contents, nofun⟩
  have hstep : ∀ history s move, Inv history s → move.Reads s →
      Inv (history ++ [(move, (FileThreads.step maxFileSize path s move).1)])
        (FileThreads.step maxFileSize path s move).2 := by
    rintro history s move ⟨hsound, hended⟩ hreads
    obtain ⟨hsound', hextends, hresult⟩ := hsound.step hreads
    refine ⟨hsound', (hended.mono ?_).concat ?_⟩
    · exact fun a ha => ha.mono hextends.versions
    · exact fun a ha => (hresult a ha).mono hextends.versions
  exact (run_invariant hstep hstart hall).2

/-- A script that is loaded while others replace the file is never longer than the limit.
It is a version of the file as a whole, if every read finds contents that are not longer
than the size its `fs_stat` saw. -/
theorem load_complete (maxFileSize : Nat) (path : Bytes) (contents : Option Bytes)
    (moves : List FileMove) :
    (∀ x ∈ (run (FileThreads.step maxFileSize path) (.atRest contents) moves).1, ∀ buf data,
      x.2 = some (.loaded (.ok (buf, data))) → data.length ≤ maxFileSize) ∧
    (AllSteps (FileThreads.step maxFileSize path) (fun s move => move.Reads s)
        (.atRest contents) moves →
      ∀ x ∈ (run (FileThreads.step maxFileSize path) (.atRest contents) moves).1, ∀ buf data,
        x.2 = some (.loaded (.ok (buf, data))) →
          data ∈ (run (FileThreads.step maxFileSize path) (.atRest contents)
            moves).2.shared.versions) := by
  refine ⟨fun x hx buf data hdata => ?_, fun hall x hx buf data hdata => ?_⟩
  · exact (FileThreads.run_limit maxFileSize path contents moves x hx _ hdata).2
  · exact (FileThreads.run_sound maxFileSize path contents hall x hx _ hdata).1

/-- Thread 0 sees the size of "xxx"; before it reads, thread 1 replaces the file by "ab". -/
def shortenWhileLoading : List FileMove :=
  [.start 0 .load, .advance 0 .succeeds, .start 1 (.replace (ascii "ab") 2)] ++
    List.replicate 5 (.advance 1 .succeeds) ++ List.replicate 5 (.advance 0 .succeeds)

/-- The run of `shortenWhileLoading` with a limit of three bytes. -/
def shortenedWhileLoading : List (FileMove × Option FileCallEnd) × FileThreads :=
  run (FileThreads.step 3 (ascii "/lfs/a.lua")) (.atRest (some (ascii "xxx"))) shortenWhileLoading

/-- The load ends with "ab", the new version. -/
theorem load_complete_shortened :
    (Move.advance 0 .succeeds, some (.loaded (.ok (0, ascii "ab")))) ∈ shortenedWhileLoading.1 ∧
      ascii "ab" ∈ shortenedWhileLoading.2.shared.versions := by
  have hloaded : (Move.advance 0 .succeeds, some (.loaded (.ok (0, ascii "ab")))) ∈
      shortenedWhileLoading.1 := List.mem_of_getLast? rfl
  refine ⟨hloaded, (load_complete 3 (ascii "/lfs/a.lua") (some (ascii "xxx")) _).2 ?_ _ hloaded 0
    (ascii "ab") rfl⟩
  repeat' apply And.intro
  all_goals first
    | exact trivial
    | (intro thread count fortune hop; cases hop; done)
    | (rintro thread count fortune ⟨⟩ - contents size ⟨⟩ ⟨⟩; decide)

/-- Thread 0 sees the size of "xx"; before it reads, thread 1 replaces the file. -/
def replaceWhileLoading : List FileMove :=
  [.start 0 .load, .advance 0 .succeeds, .start 1 (.replace (ascii "abcd") 4)] ++
    List.replicate 5 (.advance 1 .succeeds) ++ List.replicate 5 (.advance 0 .succeeds)

/-- The run of `replaceWhileLoading` with a limit of three bytes. -/
def replacedWhileLoading : List (FileMove × Option FileCallEnd) × FileThreads :=
  run (FileThreads.step 3 (ascii "/lfs/a.lua")) (.atRest (some (ascii "xx"))) replaceWhileLoading

/-- The load ends with the beginning of a version that is over the limit. -/
theorem not_load_complete_replaced :
    ¬ (∀ x ∈ replacedWhileLoading.1, ∀ buf data, x.2 = some (.loaded (.ok (buf, data))) →
        data ∈ replacedWhileLoading.2.shared.versions) ∧
      (Move.advance 0 .succeeds, some (.loaded (.ok (0, ascii "ab")))) ∈ replacedWhileLoading.1 ∧
      replacedWhileLoading.2.shared.versions = [ascii "abcd", ascii "xx"] := by
  have hlast : replacedWhileLoading.1.getLast? =
      some (.advance 0 .succeeds, some (.loaded (.ok (0, ascii "ab")))) := rfl
  have hversions : replacedWhileLoading.2.shared.versions = [ascii "abcd", ascii "xx"] := rfl
  have hmem := List.mem_of_getLast? hlast
  refine ⟨fun h => ?_, hmem, hversions⟩
  have hversion := h _ hmem 0 (ascii "ab") rfl
  rw [hversions] at hversion
  revert hversion
  decide

end LuaZephyr
