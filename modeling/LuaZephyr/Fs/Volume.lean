import LuaZephyr.Fs.Loading
import LuaZephyr.Fs.Typing

/-!
# File systems that may refuse

The file system is not part of the repository. A `Volume` is any that answers the calls of the
programs; `Documented` is what Zephyr promises of it. Each call is either granted, and then does
what it does on the ideal `FileStore`, or refused: it fails, or it writes less than it was asked to.
A refused call may leave anything in the one file it is about and leaves all others alone. Nothing
is said of when a call is refused, so the capacity, the mount points, the directories and the
faults of the flash are those of the parameter.

`exec_granted` is the simulation: while nothing is refused a program does what it does on the
`FileStore`. Functions are run one at a time, each with its own open file.
-/

namespace LuaZephyr

open Outcome Programs

namespace FileStore

/-- Removing a file that is there. -/
def unlink (s : FileStore) (path : Bytes) : Except Errno Unit × FileStore :=
  match s.files path with
  | none => (.error .enoent, s)
  | some _ => (.ok ⟨⟩, { s with files := Function.update s.files path none })

/-- The position after so many bytes. -/
def advance (s : FileStore) (count : Nat) : FileStore :=
  { s with opened := s.opened.map fun place => (place.1, place.2 + count) }

/-- The file system calls. Unlike `handle` it tells when there is no file to remove, and reads on
from where the last read ended. -/
def serve : (op : HostOp) → FileStore → op.Reply × FileStore
  | .file (.unlink path), s => s.unlink path
  | .file (.read count), s => (.ok (s.read count), s.advance (s.read count).length)
  | op, s => handle op s

/-- The file system as the threads use it. -/
def serveFile : FileSystem FileStore := fun op s => serve (.file op) s

end FileStore

/-- A file system: its replies, what is seen of its files and of the file that is open, and the
mode that one was opened in. -/
structure Volume (β : Type) where
  serve : FileSystem β
  view : β → FileStore
  mode : β → FsMode

/-- The call has done all it was asked to. -/
def FileOp.granted : (op : FileOp) → op.Reply → Bool
  | .stat _, .ok entry => entry.type = .file
  | .stat _, .error _ => false
  | .open _ _, .ok _ => true
  | .open _ _, .error _ => false
  | .truncate _, .ok _ => true
  | .truncate _, .error _ => false
  | .read _, .ok _ => true
  | .read _, .error _ => false
  | .write data, .ok written => written = data.length
  | .write _, .error _ => false
  | .close, .ok _ => true
  | .close, .error _ => false
  | .unlink _, .ok _ => true
  | .unlink _, .error _ => false

/-- The file whose contents a call may change. -/
def FileOp.touches (s : FileStore) (mode : FsMode) : FileOp → Option Bytes
  | .open path .createWrite => some path
  | .truncate _ => s.opened.map Prod.fst
  | .write _ => s.opened.map Prod.fst
  | .close => if mode = .createWrite then s.opened.map Prod.fst else none
  | .unlink path => some path
  | _ => none

/-- The mode of the open file after a call. -/
def FileOp.modeAfter (mode : FsMode) (granted : Bool) : FileOp → FsMode
  | .open _ opened => if granted then opened else mode
  | _ => mode

namespace Volume

variable {β : Type}

/-- What Zephyr documents of its file systems. -/
structure Documented (v : Volume β) : Prop where
  granted : ∀ op b, op.granted (v.serve op b).1 = true →
    FileStore.serveFile op (v.view b) = ((v.serve op b).1, v.view (v.serve op b).2)
  refused : ∀ op b path, op.granted (v.serve op b).1 = false →
    op.touches (v.view b) (v.mode b) ≠ some path →
    (v.view (v.serve op b).2).files path = (v.view b).files path
  /-- A file that could not be removed because it was not there does not appear. -/
  absent : ∀ path b, (v.view b).files path = none →
    (v.view (v.serve (.unlink path) b).2).files path = none
  /-- Only opening and closing change which file is open. -/
  opened : ∀ op b, op.granted (v.serve op b).1 = false → op ≠ .close →
    (v.view (v.serve op b).2).opened.map Prod.fst = (v.view b).opened.map Prod.fst
  mode : ∀ op b,
    v.mode (v.serve op b).2 = op.modeAfter (v.mode b) (op.granted (v.serve op b).1)

/-- The volume with a note of whether a call has been refused. -/
def noting (v : Volume β) : Volume (β × Bool) where
  serve op s :=
    ((v.serve op s.1).1, (v.serve op s.1).2, s.2 || !op.granted (v.serve op s.1).1)
  view s := v.view s.1
  mode s := v.mode s.1

/-- The environment of a program that needs no memory. -/
def handle (v : Volume β) : (op : HostOp) → β → op.Reply × β
  | .file op, b => v.serve op b
  | .alloc _, b => (none, b)
  | .free _ _, b => (⟨⟩, b)

/-- Run a program: its result, whether a call of it was refused, and what is left. -/
def run {α : Type} (v : Volume β) (p : HostProg α) (b : β) : (α × Bool) × β :=
  let r := p.exec v.noting.handle (b, false)
  ((r.1, r.2.2), r.2.1)

variable {v : Volume β} {α : Type}

theorem Documented.noting (hv : v.Documented) : v.noting.Documented where
  granted op s := hv.granted op s.1
  refused op s := hv.refused op s.1
  absent path s := hv.absent path s.1
  opened op s := hv.opened op s.1
  mode op s := hv.mode op s.1

theorem noting_refused {op : FileOp} {c : β × Bool}
    (h : op.granted (v.noting.serve op c).1 = false) : (v.noting.serve op c).2.2 = true := by
  change (c.2 || !op.granted (v.noting.serve op c).1) = true
  rw [h, Bool.not_false, Bool.or_true]

theorem noting_kept (op : FileOp) {c : β × Bool} (h : c.2 = true) :
    (v.noting.serve op c).2.2 = true := by
  change (c.2 || !op.granted (v.serve op c.1).1) = true
  rw [h, Bool.true_or]

/-- What has been refused stays noted. -/
theorem exec_noting_refused (p : HostProg α) (b : β) :
    (p.exec v.noting.handle (b, true)).2.2 = true := by
  induction p generalizing b with
  | done a => rfl
  | call op next ih =>
      cases op with
      | file op => exact ih _ _
      | alloc size => exact ih _ _
      | free ptr size => exact ih _ _

/-- While nothing is refused, a program does what it does on the ideal file system. -/
theorem Documented.exec_granted (hv : v.Documented) (p : HostProg α) (b : β)
    (hgranted : (p.exec v.noting.handle (b, false)).2.2 = false) :
    p.exec FileStore.serve (v.view b) = ((p.exec v.noting.handle (b, false)).1,
      v.view (p.exec v.noting.handle (b, false)).2.1) := by
  induction p generalizing b with
  | done a => rfl
  | call op next ih =>
      cases op with
      | file op =>
          rw [Prog.exec_call] at hgranted
          have hop : op.granted (v.serve op b).1 = true := by
            by_contra hno
            rw [Bool.not_eq_true] at hno
            have hnoted : (v.noting.handle (.file op) (b, false)).2 = ((v.serve op b).2, true) :=
              Prod.ext rfl (noting_refused hno)
            rw [hnoted, exec_noting_refused] at hgranted
            contradiction
          have hnoted : (v.noting.handle (.file op) (b, false)).2 = ((v.serve op b).2, false) := by
            simp only [handle, Volume.noting, hop, Bool.false_or, Bool.not_true]
          have hserve : FileStore.serve (.file op) (v.view b) =
              ((v.serve op b).1, v.view (v.serve op b).2) := hv.granted op b hop
          rw [hnoted] at hgranted
          rw [Prog.exec_call, Prog.exec_call, hserve, hnoted]
          exact ih _ _ hgranted
      | alloc size => exact ih _ _ hgranted
      | free ptr size => exact ih _ _ hgranted

theorem run_eq {p : HostProg α} {a : α} {b b' : β} {refused : Bool}
    (h : p.exec v.noting.handle (b, false) = (a, b', refused)) :
    v.run p b = ((a, refused), b') := by
  rw [run, h]

theorem Documented.run_granted (hv : v.Documented) {p : HostProg α} {b : β}
    (hgranted : (v.run p b).1.2 = false) :
    p.exec FileStore.serve (v.view b) = ((v.run p b).1.1, v.view (v.run p b).2) :=
  hv.exec_granted p b hgranted

/-- What every call keeps, a program keeps. -/
theorem exec_keeps {I : β → Prop} (hserve : ∀ op b, I b → I (v.serve op b).2) (p : HostProg α)
    {b : β} (hb : I b) : I (p.exec v.handle b).2 := by
  induction p generalizing b with
  | done a => exact hb
  | call op next ih =>
      cases op with
      | file op => exact ih _ (hserve op b hb)
      | alloc size => exact ih _ hb
      | free ptr size => exact ih _ hb

theorem run_keeps {I : β → Prop} (hserve : ∀ op b, I b → I (v.serve op b).2) (p : HostProg α)
    {b : β} (hb : I b) : I (v.run p b).2 :=
  exec_keeps (v := v.noting) (I := fun c => I c.1) (fun op c => hserve op c.1) p hb

@[simp] theorem exec_fsOpen (path : Bytes) (mode : FsMode) (f : Except Errno Unit → HostProg α)
    (b : β) : (fsOpen path mode >>= f).exec v.handle b =
      (f (v.serve (.open path mode) b).1).exec v.handle (v.serve (.open path mode) b).2 := rfl

@[simp] theorem exec_fsTruncate (length : Nat) (f : Except Errno Unit → HostProg α) (b : β) :
    (fsTruncate length >>= f).exec v.handle b =
      (f (v.serve (.truncate length) b).1).exec v.handle (v.serve (.truncate length) b).2 := rfl

@[simp] theorem exec_fsRead (count : Nat) (f : Except Errno Bytes → HostProg α) (b : β) :
    (fsRead count >>= f).exec v.handle b =
      (f (v.serve (.read count) b).1).exec v.handle (v.serve (.read count) b).2 := rfl

@[simp] theorem exec_fsWrite (data : Bytes) (f : Except Errno Nat → HostProg α) (b : β) :
    (fsWrite data >>= f).exec v.handle b =
      (f (v.serve (.write data) b).1).exec v.handle (v.serve (.write data) b).2 := rfl

@[simp] theorem exec_fsClose (f : Except Errno Unit → HostProg α) (b : β) :
    (fsClose >>= f).exec v.handle b =
      (f (v.serve .close b).1).exec v.handle (v.serve .close b).2 := rfl

@[simp] theorem exec_fsUnlink (path : Bytes) (f : Except Errno Unit → HostProg α) (b : β) :
    (fsUnlink path >>= f).exec v.handle b =
      (f (v.serve (.unlink path) b).1).exec v.handle (v.serve (.unlink path) b).2 := rfl

end Volume

namespace FileStore

theorem serveFile_open_none {s : FileStore} {path : Bytes} (hnone : s.files path = none) :
    serveFile (.open path .read) s = (.error .enoent, s) := by
  change (match s.files path with
    | none => (.error .enoent, s)
    | some _ => (.ok ⟨⟩, { s with opened := some (path, 0) }) :
      Except Errno Unit × FileStore) = _
  rw [hnone]
  rfl

theorem serveFile_open_some {s : FileStore} {path contents : Bytes}
    (hfile : s.files path = some contents) :
    serveFile (.open path .read) s = (.ok ⟨⟩, { s with opened := some (path, 0) }) := by
  change (match s.files path with
    | none => (.error .enoent, s)
    | some _ => (.ok ⟨⟩, { s with opened := some (path, 0) }) :
      Except Errno Unit × FileStore) = _
  rw [hfile]
  rfl

theorem unlink_some {s : FileStore} {path contents : Bytes}
    (hfile : s.files path = some contents) :
    s.unlink path = (.ok ⟨⟩, { s with files := Function.update s.files path none }) := by
  rw [unlink, hfile]

theorem unlink_none {s : FileStore} {path : Bytes} (hnone : s.files path = none) :
    s.unlink path = (.error .enoent, s) := by
  rw [unlink, hnone]

/-- A call on the ideal file system changes at most the file it is about. -/
theorem serveFile_files (op : FileOp) (s : FileStore) {mode : FsMode} {path : Bytes}
    (h : op.touches s mode ≠ some path) : (serveFile op s).2.files path = s.files path := by
  have hchange (f : Nat → Bytes → Bytes × Nat) (hne : s.opened.map Prod.fst ≠ some path) :
      (s.change f).files path = s.files path := by
    rw [change]
    split
    · rfl
    · rename_i opened position hopened
      rw [hopened] at hne
      exact Function.update_of_ne (fun heq => hne (congrArg some heq.symm)) _ _
  cases op with
  | stat _ => rfl
  | «open» opened opening =>
      cases opening with
      | read =>
          cases hfile : s.files opened with
          | none => rw [serveFile_open_none hfile]
          | some contents => rw [serveFile_open_some hfile]
      | createWrite => exact Function.update_of_ne (fun heq => h (congrArg some heq.symm)) _ _
  | truncate length => exact hchange _ h
  | read _ => rfl
  | write data => exact hchange _ h
  | close => rfl
  | unlink removed =>
      change (s.unlink removed).2.files path = _
      rw [unlink]
      split
      · rfl
      · exact Function.update_of_ne (fun heq => h (congrArg some heq.symm)) _ _

/-- A call that neither opens nor closes leaves the open file open. -/
theorem serveFile_opened (op : FileOp) (s : FileStore) (hclose : op ≠ .close)
    (hopen : ∀ path mode, op ≠ .open path mode) :
    (serveFile op s).2.opened.map Prod.fst = s.opened.map Prod.fst := by
  have hchange (f : Nat → Bytes → Bytes × Nat) :
      (s.change f).opened.map Prod.fst = s.opened.map Prod.fst := by
    rw [change]
    split
    · rfl
    · rename_i opened position hopened
      rw [hopened]
      rfl
  cases op with
  | stat _ => rfl
  | «open» path mode => exact absurd rfl (hopen path mode)
  | truncate length => exact hchange _
  | read count =>
      change (s.opened.map _).map Prod.fst = _
      rw [Option.map_map]
      rfl
  | write data => exact hchange _
  | close => exact absurd rfl hclose
  | unlink removed =>
      change (s.unlink removed).2.opened.map Prod.fst = _
      rw [unlink]
      split
      · rfl
      · rfl

end FileStore

namespace Volume

variable {β α : Type} {v : Volume β} {b b' b'' : β} {touched : Option Bytes} {path : Bytes}

/-- No file but this one has changed. -/
def Spares (v : Volume β) (touched : Option Bytes) (b b' : β) : Prop :=
  ∀ path, touched ≠ some path → (v.view b').files path = (v.view b).files path

theorem Spares.trans (first : v.Spares touched b b') (second : v.Spares touched b' b'') :
    v.Spares touched b b'' := fun path hne => (second path hne).trans (first path hne)

theorem Documented.spares (hv : v.Documented) (op : FileOp) (b : β)
    (h : op.touches (v.view b) (v.mode b) = touched) : v.Spares touched b (v.serve op b).2 := by
  intro path hne
  cases hgranted : op.granted (v.serve op b).1 with
  | true =>
      rw [← congrArg (·.2.files path) (hv.granted op b hgranted)]
      exact FileStore.serveFile_files op _ (h.trans_ne hne)
  | false => exact hv.refused op b path hgranted (h.trans_ne hne)

/-- The open file is this one. -/
def HasOpen (v : Volume β) (path : Bytes) (b : β) : Prop :=
  (v.view b).opened.map Prod.fst = some path

theorem Documented.hasOpen_opened (hv : v.Documented) {mode : FsMode}
    (hok : (v.serve (.open path mode) b).1 = .ok ⟨⟩) :
    v.HasOpen path (v.serve (.open path mode) b).2 ∧
      v.mode (v.serve (.open path mode) b).2 = mode := by
  have hgranted : (FileOp.open path mode).granted (v.serve (.open path mode) b).1 = true := by
    rw [hok]
    rfl
  have hserve := hv.granted _ b hgranted
  have hmode := hv.mode (.open path mode) b
  rw [hgranted] at hmode
  refine ⟨?_, hmode⟩
  rw [HasOpen, ← congrArg (·.2.opened) hserve]
  cases mode with
  | createWrite => rfl
  | read =>
      cases hfile : (v.view b).files path with
      | none =>
          have hreply := congrArg Prod.fst hserve
          rw [FileStore.serveFile_open_none hfile, hok] at hreply
          contradiction
      | some data => rw [FileStore.serveFile_open_some hfile, Option.map_some]

theorem Documented.hasOpen_kept (hv : v.Documented) (h : v.HasOpen path b) {op : FileOp}
    (hclose : op ≠ .close) (hopen : ∀ path mode, op ≠ .open path mode) :
    v.HasOpen path (v.serve op b).2 := by
  rw [HasOpen] at h ⊢
  cases hgranted : op.granted (v.serve op b).1 with
  | true =>
      rw [← congrArg (·.2.opened) (hv.granted op b hgranted)]
      exact (FileStore.serveFile_opened op _ hclose hopen).trans h
  | false => exact (hv.opened op b hgranted hclose).trans h

/-- A file is being written, and no other has changed since. -/
structure Writing (v : Volume β) (path : Bytes) (b b' : β) : Prop where
  spares : v.Spares (some path) b b'
  hasOpen : v.HasOpen path b'

theorem Documented.writing_opened (hv : v.Documented)
    (hok : (v.serve (.open path .createWrite) b).1 = .ok ⟨⟩) :
    v.Writing path b (v.serve (.open path .createWrite) b).2 :=
  ⟨hv.spares _ b rfl, (hv.hasOpen_opened hok).1⟩

theorem Writing.truncate (h : v.Writing path b b') (hv : v.Documented) (length : Nat) :
    v.Writing path b (v.serve (.truncate length) b').2 :=
  ⟨h.spares.trans (hv.spares _ b' h.hasOpen), hv.hasOpen_kept h.hasOpen nofun nofun⟩

theorem Writing.write (h : v.Writing path b b') (hv : v.Documented) (data : Bytes) :
    v.Writing path b (v.serve (.write data) b').2 :=
  ⟨h.spares.trans (hv.spares _ b' h.hasOpen), hv.hasOpen_kept h.hasOpen nofun nofun⟩

theorem Writing.close (h : v.Writing path b b') (hv : v.Documented) :
    v.Spares (some path) b (v.serve .close b').2 := by
  refine h.spares.trans fun other hne => ?_
  by_cases hmode : v.mode b' = .createWrite
  · exact hv.spares .close b' ((if_pos hmode).trans h.hasOpen) other hne
  · exact hv.spares .close b' (if_neg hmode) other nofun

end Volume

/-- The ideal file system is a volume that refuses only what cannot be done. -/
def FileStore.volume : Volume (FileStore × FsMode) where
  serve op s :=
    let r := FileStore.serveFile op s.1
    (r.1, r.2, op.modeAfter s.2 (op.granted r.1))
  view := Prod.fst
  mode := Prod.snd

theorem FileStore.volume_documented : FileStore.volume.Documented where
  granted op s _ := rfl
  refused op s path hgranted h := FileStore.serveFile_files op s.1 h
  absent path s hnone := by
    have habsent : s.1.files path = none := hnone
    change (s.1.unlink path).2.files path = none
    rw [unlink_none habsent, habsent]
  opened op s hgranted hclose := by
    by_cases hopen : ∃ path mode, op = .open path mode
    · obtain ⟨path, _ | _, rfl⟩ := hopen
      · cases hfile : s.1.files path with
        | none =>
            change (serveFile (.open path .read) s.1).2.opened.map Prod.fst = _
            rw [serveFile_open_none hfile]
            rfl
        | some contents =>
            change (FileOp.open path .read).granted (serveFile (.open path .read) s.1).1 = false
              at hgranted
            rw [serveFile_open_some hfile] at hgranted
            contradiction
      · contradiction
    · exact FileStore.serveFile_opened op s.1 hclose fun path mode heq => hopen ⟨path, mode, heq⟩
  mode op s := rfl

end LuaZephyr
