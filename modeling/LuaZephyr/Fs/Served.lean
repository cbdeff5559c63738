import LuaZephyr.Fs.Buffers
import LuaZephyr.Fs.Listing
import LuaZephyr.Fs.Volume
import LuaZephyr.Fs.Writing
import LuaZephyr.Zbus.Threads

/-!
# The functions on a file system that may refuse

What `lua_fs_write_file`, the commands of the shell and `lua_fs_loadfile` do on a `Volume`. When
nothing is refused, a command does what it does on the ideal `FileStore`, which is computed here;
when something is, it leaves all files but its own as they were. A load changes no file. It gives
the chunk of the whole file and of nothing else, or the reason why there is none: a refused call,
a file that is too large or does not compile, or want of memory.

`cmd_cat` reads until there is nothing more, and its loop is followed for a number of reads here;
one more than the file has bytes is enough.
-/

namespace LuaZephyr

open Outcome Programs LineEditing Runs

namespace FileStore

section Serve

variable {α : Type} {files : Bytes → Option Bytes} {path contents : Bytes}

theorem exec_serve_fsOpen_createWrite (s : FileStore) (f : Except Errno Unit → HostProg α) :
    (fsOpen path .createWrite >>= f).exec serve s =
      (f (.ok ⟨⟩)).exec serve
        ⟨Function.update s.files path (some ((s.files path).getD [])), some (path, 0)⟩ := rfl

theorem exec_serve_fsTruncate_opened (s : FileStore) (f : Except Errno Unit → HostProg α) :
    (fsTruncate 0 >>= f).exec serve
        ⟨Function.update s.files path (some ((s.files path).getD [])), some (path, 0)⟩ =
      (f (.ok ⟨⟩)).exec serve (writing s.files path []) := by
  rw [← truncate_opened]
  rfl

theorem exec_serve_fsOpen_read (s : FileStore) (f : Except Errno Unit → HostProg α) :
    (fsOpen path .read >>= f).exec serve s =
      (f (serveFile (.open path .read) s).1).exec serve (serveFile (.open path .read) s).2 := rfl

theorem exec_serve_fsClose_writing (f : Except Errno Unit → HostProg α) :
    (fsClose >>= f).exec serve (writing files path contents) =
      (f (.ok ⟨⟩)).exec serve ⟨Function.update files path (some contents), none⟩ := rfl

theorem exec_serve_fsWrite_writing (data : Bytes) (f : Except Errno Nat → HostProg α) :
    (fsWrite data >>= f).exec serve (writing files path contents) =
      (f (.ok data.length)).exec serve (writing files path (contents ++ data)) := by
  rw [← write_writing]
  rfl

theorem exec_serve_fsUnlink (s : FileStore) (f : Except Errno Unit → HostProg α) :
    (fsUnlink path >>= f).exec serve s = (f (s.unlink path).1).exec serve (s.unlink path).2 := rfl

end Serve

section ServeFile

variable {s : FileStore} {path contents : Bytes}

theorem serveFile_stat_none (hnone : s.files path = none) :
    serveFile (.stat path) s = (.error .enoent, s) := by
  change handle (.file (.stat path)) s = _
  rw [handle, hnone]
  rfl

theorem serveFile_stat_some (hfile : s.files path = some contents) :
    serveFile (.stat path) s = (.ok ⟨.file, contents.length⟩, s) := by
  change handle (.file (.stat path)) s = _
  rw [handle, hfile]
  rfl

end ServeFile

end FileStore

/-- What `cmd_delete` says of a file it cannot remove. -/
def cannotDelete (path : Bytes) (rc : Errno) : LuaInteger × Bytes :=
  (rc.code, ascii "Cannot delete " ++ path ++ ascii s!": {rc.code.toInt}\n")

/-- `cmd_delete`: the return code and the text printed. -/
def cmdDelete (mountPoint : Bytes) (argv : List Bytes) : HostProg (LuaInteger × Bytes) := do
  match argv with
  | _ :: name :: _ =>
      match buildShellPath mountPoint maxPath name with
      | .error rc => return (rc.code, ascii "Path too long\n")
      | .ok path =>
          match ← fsUnlink path with
          | .error rc => return cannotDelete path rc
          | .ok _ => return (0, ascii "Deleted " ++ path ++ [10])
  | _ => return (Errno.einval.code, ascii "Usage: lua_fs delete <filename>\n")

/-- The loop of `cmd_cat`, followed for this many reads. -/
def cmdCatReads : Nat → HostProg Bytes
  | 0 => return []
  | reads + 1 => do
      match ← fsRead 127 with
      | .error _ => return []
      | .ok piece =>
          if piece = [] then return []
          else return CString.text piece ++ (← cmdCatReads reads)

/-- What `cmd_cat` says of a file it cannot open. -/
def cannotCat (path : Bytes) (rc : Errno) : LuaInteger × Bytes :=
  (rc.code, ascii "Cannot open " ++ path ++ ascii s!": {rc.code.toInt}\n")

/-- `cmd_cat`, with the calls it makes. -/
def cmdCatOver (mountPoint : Bytes) (argv : List Bytes) (reads : Nat) :
    HostProg (LuaInteger × Bytes) := do
  match argv with
  | _ :: name :: _ =>
      match buildShellPath mountPoint maxPath name with
      | .error rc => return (rc.code, ascii "Path too long\n")
      | .ok path =>
          match ← fsOpen path .read with
          | .error rc => return cannotCat path rc
          | .ok _ =>
              let text ← cmdCatReads reads
              let _ ← fsClose
              return (0, text ++ [10])
  | _ => return (Errno.einval.code, ascii "Usage: lua_fs cat <filename>\n")

/-- The contents by path; none where there is no file. -/
abbrev FileContents := Bytes → Option Bytes

/-- The path a command is about. -/
def commandPath (mountPoint : Bytes) : List Bytes → Except Errno Bytes
  | _ :: name :: _ => buildShellPath mountPoint maxPath name
  | _ => .error .einval

/-- As many reads as `cmd_cat` can make of the file. -/
def catReads (mountPoint : Bytes) (argv : List Bytes) (files : FileContents) : Nat :=
  match commandPath mountPoint argv with
  | .error _ => 0
  | .ok path => ((files path).getD []).length + 1

/-- The text that is stored, unless the command was cancelled. -/
def InputEnd.stored : InputEnd → Option Bytes
  | .finished text _ => some text
  | .cancelled _ => none

def InputEnd.commandEnd : InputEnd → CommandEnd
  | .finished _ _ => .returned 0
  | .cancelled _ => .cancelled

def InputEnd.rest : InputEnd → List UInt8
  | .finished _ rest => rest
  | .cancelled rest => rest

section Ideal

variable {mountPoint path : Bytes} {argv : List Bytes}

/-- Without a path a command does nothing but say so. -/
theorem exec_of_noPath {σ : Type} (serve : (op : HostOp) → σ → op.Reply × σ) {rc : Errno}
    (hpath : commandPath mountPoint argv = .error rc) (keys : List UInt8) (reads : Nat) (s : σ) :
    (cmdWriteKeys mountPoint argv keys).exec serve s = ((.returned rc.code, keys), s) ∧
      (∃ text, (cmdDelete mountPoint argv).exec serve s = ((rc.code, text), s)) ∧
      ∃ text, (cmdCatOver mountPoint argv reads).exec serve s = ((rc.code, text), s) := by
  obtain _ | ⟨command, _ | ⟨name, more⟩⟩ := argv
  · obtain rfl := Except.error.inj hpath
    exact ⟨rfl, ⟨_, rfl⟩, _, rfl⟩
  · obtain rfl := Except.error.inj hpath
    exact ⟨rfl, ⟨_, rfl⟩, _, rfl⟩
  · rw [commandPath] at hpath
    rw [cmdWriteKeys, cmdDelete, cmdCatOver, hpath]
    exact ⟨rfl, ⟨_, rfl⟩, _, rfl⟩

/-- From the open file on, removing it at the end is all the difference there could be. -/
theorem exec_serve_cmdWriteReadings (files : FileContents) (path contents : Bytes)
    (rs : List (Reading UInt8)) :
    (cmdWriteReadings path rs).exec FileStore.serve (.writing files path contents) =
      (cmdWriteReadings path rs).exec FileStore.handle (.writing files path contents) := by
  induction rs generalizing contents with
  | nil => rfl
  | cons r rs ih =>
      rw [cmdWriteReadings]
      by_cases heot : r.stop = some 0x04
      · have hfile : Function.update files path (some contents) path = some contents :=
          Function.update_self ..
        rw [if_pos heot, FileStore.exec_fsClose_writing, FileStore.exec_serve_fsClose_writing,
          FileStore.exec_serve_fsUnlink, FileStore.unlink_some hfile]
        rfl
      · rw [if_neg heot]
        by_cases hdot : r.line = [46]
        · rw [if_pos hdot]
          rfl
        · rw [if_neg hdot]
          by_cases hpos : r.line.length > 0
          · rw [if_pos hpos, FileStore.exec_fsWrite_writing, FileStore.exec_fsWrite_writing,
              FileStore.exec_serve_fsWrite_writing, FileStore.exec_serve_fsWrite_writing, ih]
          · rw [if_neg hpos, FileStore.exec_fsWrite_writing,
              FileStore.exec_serve_fsWrite_writing, ih]

theorem cmdWriteKeys_stores (hpath : commandPath mountPoint argv = .ok path) {keys : List UInt8}
    {e : InputEnd} (hend : inputEnd (cutLines 256 keys) = some e) (s : FileStore) :
    (cmdWriteKeys mountPoint argv keys).exec FileStore.serve s =
      ((e.commandEnd, e.rest), ⟨Function.update s.files path e.stored, none⟩) := by
  obtain _ | ⟨command, _ | ⟨name, more⟩⟩ := argv
  · contradiction
  · contradiction
  · rw [commandPath] at hpath
    have hwrites : (cmdWriteReadings path (cutLines 256 keys)).exec FileStore.serve
        (.writing s.files path []) = e.leaves s.files path [] := by
      rw [exec_serve_cmdWriteReadings, exec_cmdWriteReadings s.files path [] hend]
    simp only [cmdWriteKeys, hpath, FileStore.exec_serve_fsOpen_createWrite,
      FileStore.exec_serve_fsTruncate_opened, hwrites]
    cases e with
    | finished text rest =>
        rw [InputEnd.leaves, List.nil_append]
        rfl
    | cancelled rest => rfl

theorem luaFsWriteFile_answer (path : Bytes) {data : Bytes} {len : Nat}
    (hlen : len ≤ data.length) (s : FileStore) :
    (luaFsWriteFile path data len).exec FileStore.serve s =
      (0, ⟨Function.update s.files path (some (requestedBytes data len)), none⟩) := by
  have hwritten := length_requestedBytes hlen
  simp only [luaFsWriteFile, FileStore.exec_serve_fsOpen_createWrite,
    FileStore.exec_serve_fsTruncate_opened, FileStore.exec_serve_fsWrite_writing,
    FileStore.exec_serve_fsClose_writing, List.nil_append]
  rw [requestedBytes] at hwritten ⊢
  rw [if_neg (not_not_intro hwritten)]
  rfl

/-- The rest of the file is printed piece by piece. -/
theorem exec_serve_cmdCatReads {files : FileContents} {data : Bytes}
    (hfile : files path = some data) {reads position : Nat} (i : Nat)
    (hposition : position ≤ data.length) (hreads : data.length < reads + position) :
    ∃ stop, (cmdCatReads reads).exec FileStore.serve ⟨files, some (path, position)⟩ =
      (cmdCatLoop (fun _ => .ok 127) i (data.drop position), ⟨files, some (path, stop)⟩) := by
  induction reads generalizing position i with
  | zero => omega
  | succ reads ih =>
      obtain ⟨piece, hpiece⟩ : ∃ piece, (data.drop position).take 127 = piece := ⟨_, rfl⟩
      have hread : FileStore.read ⟨files, some (path, position)⟩ 127 = piece := by
        simp [FileStore.read, hfile, ← hpiece]
      have hlength : min (min 127 127) (data.drop position).length = piece.length := by
        rw [← hpiece, List.length_take, Nat.min_self]
      have hstep : (cmdCatReads (reads + 1)).exec FileStore.serve ⟨files, some (path, position)⟩ =
          (if piece = [] then return []
            else return CString.text piece ++ (← cmdCatReads reads) : HostProg Bytes).exec
              FileStore.serve ⟨files, some (path, position + piece.length)⟩ := by
        rw [← hread]
        rfl
      rw [hstep, cmdCatLoop]
      simp only [hlength]
      by_cases hnone : piece = []
      · rw [if_pos hnone, if_pos (by rw [hnone]; rfl)]
        exact ⟨_, rfl⟩
      · have hpos : 0 < piece.length := List.length_pos_iff.mpr hnone
        have hle : piece.length ≤ data.length - position := by
          rw [← hlength, List.length_drop]
          omega
        have htake : (data.drop position).take piece.length = piece := by
          rw [← hlength, ← List.take_eq_take_min, Nat.min_self, hpiece]
        have hnext : position + piece.length ≤ data.length := by omega
        obtain ⟨stop, hrest⟩ := ih (i + 1) hnext (by omega)
        rw [if_neg hnone, if_neg (by omega), htake, List.drop_drop]
        refine ⟨stop, ?_⟩
        rw [Prog.exec_bind, hrest]
        rfl

/-- A file is printed as it is, unless it has a NUL. -/
theorem cmdCatOver_some (hpath : commandPath mountPoint argv = .ok path) {s : FileStore}
    {data : Bytes} (hfile : s.files path = some data) :
    ∃ text, ((cmdCatOver mountPoint argv (catReads mountPoint argv s.files)).exec
        FileStore.serve s).1 = (0, text ++ [10]) ∧ (text = data ↔ 0 ∉ data) := by
  have hreads : catReads mountPoint argv s.files = data.length + 1 := by
    rw [catReads, hpath]
    simp only [hfile, Option.getD_some]
  rw [hreads]
  obtain _ | ⟨command, _ | ⟨name, more⟩⟩ := argv
  · contradiction
  · contradiction
  · rw [commandPath] at hpath
    obtain ⟨stop, hexec⟩ := exec_serve_cmdCatReads hfile 0 (Nat.zero_le _)
      (Nat.lt_succ_self data.length)
    refine ⟨cmdCatLoop (fun _ => .ok 127) 0 data, ?_, ?_⟩
    · simp only [cmdCatOver, hpath, FileStore.exec_serve_fsOpen_read,
        FileStore.serveFile_open_some hfile]
      rw [Prog.exec_bind, hexec]
      rfl
    · rw [cmdCatLoop_eq_iff]
      refine and_iff_left ⟨List.replicate data.length 127, fun j k hk => ?_, ?_⟩
      · obtain rfl := List.eq_of_mem_replicate (List.mem_of_getElem? hk)
        exact ⟨rfl, by decide⟩
      · rw [List.map_replicate, List.sum_replicate_nat, Nat.min_self]
        omega

end Ideal

section Volumes

variable {β : Type} {v : Volume β} {b b' : β} {mountPoint path : Bytes} {argv : List Bytes}

open Volume

theorem Volume.Documented.writeReadings_spares (hv : v.Documented)
    (hwriting : v.Writing path b b') (rs : List (Reading UInt8)) :
    v.Spares (some path) b ((cmdWriteReadings path rs).exec v.handle b').2 := by
  induction rs generalizing b' with
  | nil => exact hwriting.spares
  | cons r rs ih =>
      rw [cmdWriteReadings]
      by_cases heot : r.stop = some 0x04
      · rw [if_pos heot, exec_fsClose, exec_fsUnlink]
        exact (hwriting.close hv).trans (hv.spares _ _ rfl)
      · rw [if_neg heot]
        by_cases hdot : r.line = [46]
        · rw [if_pos hdot, exec_fsClose]
          exact hwriting.close hv
        · rw [if_neg hdot]
          by_cases hpos : r.line.length > 0
          · rw [if_pos hpos, exec_fsWrite, exec_fsWrite]
            exact ih ((hwriting.write hv _).write hv _)
          · rw [if_neg hpos, exec_fsWrite]
            exact ih (hwriting.write hv _)

/-- A file that is written: none but it changes. -/
theorem Volume.Documented.cmdWriteKeys_spares (hv : v.Documented)
    (hpath : commandPath mountPoint argv = .ok path) (keys : List UInt8) (b : β) :
    v.Spares (some path) b ((cmdWriteKeys mountPoint argv keys).exec v.handle b).2 := by
  obtain _ | ⟨command, _ | ⟨name, more⟩⟩ := argv
  · contradiction
  · contradiction
  · rw [commandPath] at hpath
    simp only [cmdWriteKeys, hpath, exec_fsOpen]
    cases hopen : (v.serve (.open path .createWrite) b).1 with
    | error rc => exact hv.spares _ b rfl
    | ok _ =>
        have hwriting := hv.writing_opened hopen
        simp only [exec_fsTruncate]
        cases (v.serve (.truncate 0) (v.serve (.open path .createWrite) b).2).1 with
        | error rc => exact (hwriting.truncate hv 0).close hv
        | ok _ => exact hv.writeReadings_spares (hwriting.truncate hv 0) _

theorem Volume.Documented.luaFsWriteFile_spares (hv : v.Documented) (path data : Bytes)
    (len : Nat) (b : β) :
    v.Spares (some path) b ((luaFsWriteFile path data len).exec v.handle b).2 := by
  rw [luaFsWriteFile]
  generalize (if len = 0 then (CString.text data).length else len) = n
  simp only [exec_fsOpen]
  cases hopen : (v.serve (.open path .createWrite) b).1 with
  | error rc => exact hv.spares _ b rfl
  | ok _ =>
      have hwriting := hv.writing_opened hopen
      simp only [exec_fsTruncate]
      cases (v.serve (.truncate 0) (v.serve (.open path .createWrite) b).2).1 with
      | error rc => exact (hwriting.truncate hv 0).close hv
      | ok _ =>
          have hclosed := ((hwriting.truncate hv 0).write hv (data.take n)).close hv
          simp only [exec_fsWrite, exec_fsClose]
          split
          · exact hclosed
          · split
            · exact hclosed
            · exact hclosed

theorem Volume.Documented.cmdDelete_spares (hv : v.Documented)
    (hpath : commandPath mountPoint argv = .ok path) (b : β) :
    v.Spares (some path) b ((cmdDelete mountPoint argv).exec v.handle b).2 ∧
      ((v.view b).files path = none →
        (v.view ((cmdDelete mountPoint argv).exec v.handle b).2).files path = none) := by
  obtain _ | ⟨command, _ | ⟨name, more⟩⟩ := argv
  · contradiction
  · contradiction
  · rw [commandPath] at hpath
    simp only [cmdDelete, hpath, exec_fsUnlink]
    split
    · exact ⟨hv.spares _ b rfl, hv.absent path b⟩
    · exact ⟨hv.spares _ b rfl, hv.absent path b⟩

/-- A file that is being read: none changes. -/
structure Volume.Reading (v : Volume β) (b b' : β) : Prop where
  spares : v.Spares none b b'
  mode : v.mode b' = .read

theorem Volume.Reading.read (h : v.Reading b b') (hv : v.Documented) (count : Nat) :
    v.Reading b (v.serve (.read count) b').2 :=
  ⟨h.spares.trans (hv.spares _ b' rfl), (hv.mode _ b').trans h.mode⟩

theorem Volume.Reading.close (h : v.Reading b b') (hv : v.Documented) :
    v.Spares none b (v.serve .close b').2 :=
  h.spares.trans (hv.spares _ b' (if_neg (by rw [h.mode]; decide)))

theorem Volume.Documented.reading_opened (hv : v.Documented)
    (hok : (v.serve (.open path .read) b).1 = .ok ⟨⟩) :
    v.Reading b (v.serve (.open path .read) b).2 :=
  ⟨hv.spares _ b rfl, (hv.hasOpen_opened hok).2⟩

theorem Volume.Documented.catReads_reading (hv : v.Documented) (h : v.Reading b b')
    (reads : Nat) : v.Reading b ((cmdCatReads reads).exec v.handle b').2 := by
  induction reads generalizing b' with
  | zero => exact h
  | succ reads ih =>
      rw [cmdCatReads, exec_fsRead]
      split
      · exact h.read hv 127
      · split
        · exact h.read hv 127
        · rw [Prog.exec_bind]
          exact ih (h.read hv 127)

theorem Volume.exec_cmdCatOver_error (hpath : commandPath mountPoint argv = .ok path) {rc : Errno}
    (hopen : (v.serve (.open path .read) b).1 = .error rc) (reads : Nat) :
    (cmdCatOver mountPoint argv reads).exec v.handle b =
      (cannotCat path rc, (v.serve (.open path .read) b).2) := by
  obtain _ | ⟨command, _ | ⟨name, more⟩⟩ := argv
  · contradiction
  · contradiction
  · rw [commandPath] at hpath
    simp only [cmdCatOver, hpath, exec_fsOpen, hopen]
    rfl

theorem Volume.exec_cmdCatOver_ok (hpath : commandPath mountPoint argv = .ok path)
    (hopen : (v.serve (.open path .read) b).1 = .ok ⟨⟩) (reads : Nat) :
    (cmdCatOver mountPoint argv reads).exec v.handle b =
      let r := (cmdCatReads reads).exec v.handle (v.serve (.open path .read) b).2
      ((0, r.1 ++ [10]), (v.serve .close r.2).2) := by
  obtain _ | ⟨command, _ | ⟨name, more⟩⟩ := argv
  · contradiction
  · contradiction
  · rw [commandPath] at hpath
    simp only [cmdCatOver, hpath, exec_fsOpen, hopen]
    rw [Prog.exec_bind, exec_fsClose]
    rfl

theorem Volume.Documented.cmdCatOver_spares (hv : v.Documented) (mountPoint : Bytes)
    (argv : List Bytes) (reads : Nat) (b : β) :
    v.Spares none b ((cmdCatOver mountPoint argv reads).exec v.handle b).2 := by
  cases hpath : commandPath mountPoint argv with
  | error rc =>
      obtain ⟨-, -, text, hexec⟩ := exec_of_noPath v.handle hpath [] reads b
      rw [hexec]
      exact fun _ _ => rfl
  | ok path =>
      cases hopen : (v.serve (.open path .read) b).1 with
      | error rc =>
          rw [exec_cmdCatOver_error hpath hopen]
          exact hv.spares _ b rfl
      | ok _ =>
          rw [exec_cmdCatOver_ok hpath hopen]
          exact (hv.catReads_reading (hv.reading_opened hopen) reads).close hv

/-- A file that is not there is not opened. -/
theorem Volume.Documented.open_none (hv : v.Documented) (hnone : (v.view b).files path = none) :
    ∃ rc, (v.serve (.open path .read) b).1 = .error rc := by
  cases hopen : (v.serve (.open path .read) b).1 with
  | error rc => exact ⟨rc, rfl⟩
  | ok _ =>
      have hgranted : (FileOp.open path .read).granted (v.serve (.open path .read) b).1 = true := by
        rw [hopen]
        rfl
      have hreply := congrArg Prod.fst (hv.granted _ b hgranted)
      rw [FileStore.serveFile_open_none hnone, hopen] at hreply
      contradiction

/-- An open file is read from its beginning. -/
theorem Volume.Documented.open_some (hv : v.Documented)
    (hok : (v.serve (.open path .read) b).1 = .ok ⟨⟩) :
    ∃ data, (v.view b).files path = some data ∧
      (v.view (v.serve (.open path .read) b).2).files path = some data ∧
      (v.view (v.serve (.open path .read) b).2).opened = some (path, 0) := by
  have hgranted : (FileOp.open path .read).granted (v.serve (.open path .read) b).1 = true := by
    rw [hok]
    rfl
  have hserve := hv.granted _ b hgranted
  cases hfile : (v.view b).files path with
  | none =>
      obtain ⟨rc, hrc⟩ := hv.open_none hfile
      exact absurd (hok.symm.trans hrc) nofun
  | some data =>
      rw [FileStore.serveFile_open_some hfile] at hserve
      obtain ⟨-, hview⟩ := Prod.mk.inj hserve
      rw [← hview]
      exact ⟨data, rfl, hfile, rfl⟩

theorem Volume.Documented.read_ok (hv : v.Documented) {data piece : Bytes} {position count : Nat}
    (hfile : (v.view b).files path = some data) (hopen : (v.view b).opened = some (path, position))
    (hok : (v.serve (.read count) b).1 = .ok piece) :
    piece = (data.drop position).take count ∧
      (v.view (v.serve (.read count) b).2).files path = some data ∧
      (v.view (v.serve (.read count) b).2).opened = some (path, position + piece.length) := by
  have hgranted : (FileOp.read count).granted (v.serve (.read count) b).1 = true := by
    rw [hok]
    rfl
  have hserve : (Except.ok ((v.view b).read count),
      (v.view b).advance ((v.view b).read count).length) =
        ((v.serve (.read count) b).1, v.view (v.serve (.read count) b).2) :=
    hv.granted _ b hgranted
  obtain ⟨hreply, hview⟩ := Prod.mk.inj hserve
  obtain rfl := Except.ok.inj (hreply.trans hok)
  rw [← hview]
  refine ⟨by simp [FileStore.read, hopen, hfile], hfile, ?_⟩
  rw [FileStore.advance, hopen]
  rfl

/-- What is printed of a file without NULs is a beginning of it, also if a read fails. -/
theorem Volume.Documented.catReads_prefix (hv : v.Documented) {data : Bytes} {position : Nat}
    (hfile : (v.view b).files path = some data) (hopen : (v.view b).opened = some (path, position))
    (hnul : 0 ∉ data) (reads : Nat) :
    ((cmdCatReads reads).exec v.handle b).1 <+: data.drop position := by
  induction reads generalizing b position with
  | zero => exact List.nil_prefix
  | succ reads ih =>
      rw [cmdCatReads, exec_fsRead]
      cases hread : (v.serve (.read 127) b).1 with
      | error rc => exact List.nil_prefix
      | ok piece =>
          obtain ⟨hpiece, hfile', hopen'⟩ := hv.read_ok hfile hopen hread
          simp only
          by_cases hnone : piece = []
          · rw [if_pos hnone]
            exact List.nil_prefix
          · have hclean : 0 ∉ piece := by
              rw [hpiece]
              exact fun hmem => hnul (List.mem_of_mem_drop (List.mem_of_mem_take hmem))
            have hsplit : data.drop position = piece ++ data.drop (position + piece.length) := by
              rw [← List.drop_drop]
              conv_lhs => rw [← List.take_append_drop piece.length (data.drop position)]
              refine congrArg (· ++ _) ?_
              rw [hpiece, List.length_take, ← List.take_eq_take_min]
            rw [if_neg hnone, Prog.exec_bind, hsplit]
            change CString.text piece ++ _ <+: _
            rw [CString.text_eq_self_iff.mpr hclean, List.prefix_append_right_inj]
            exact ih hfile' hopen'

/-- The file is at its end before the reads that are followed are used up. -/
theorem Volume.Documented.catReads_enough (hv : v.Documented) {data : Bytes} {position : Nat}
    (hfile : (v.view b).files path = some data) (hopen : (v.view b).opened = some (path, position))
    (hposition : position ≤ data.length) {reads : Nat} (hreads : data.length < reads + position)
    (more : Nat) :
    (cmdCatReads (reads + more)).exec v.handle b = (cmdCatReads reads).exec v.handle b := by
  induction reads generalizing b position with
  | zero => omega
  | succ reads ih =>
      rw [Nat.add_right_comm, cmdCatReads, cmdCatReads, exec_fsRead, exec_fsRead]
      cases hread : (v.serve (.read 127) b).1 with
      | error rc => rfl
      | ok piece =>
          obtain ⟨hpiece, hfile', hopen'⟩ := hv.read_ok hfile hopen hread
          simp only
          by_cases hnone : piece = []
          · rw [if_pos hnone, if_pos hnone]
          · have hpos : 0 < piece.length := List.length_pos_iff.mpr hnone
            have hle : piece.length ≤ data.length - position := by
              rw [hpiece, List.length_take, List.length_drop]
              omega
            have hnext : position + piece.length ≤ data.length := by omega
            rw [if_neg hnone, if_neg hnone, Prog.exec_bind, Prog.exec_bind,
              ih hfile' hopen' hnext (by omega)]

/-- So `cmd_cat` does the same for any number of reads from `catReads` on. -/
theorem Volume.Documented.cmdCatOver_enough (hv : v.Documented) (mountPoint : Bytes)
    (argv : List Bytes) (more : Nat) (b : β) :
    (cmdCatOver mountPoint argv (catReads mountPoint argv (v.view b).files + more)).exec
        v.handle b =
      (cmdCatOver mountPoint argv (catReads mountPoint argv (v.view b).files)).exec
        v.handle b := by
  cases hpath : commandPath mountPoint argv with
  | error rc =>
      obtain _ | ⟨command, _ | ⟨name, rest⟩⟩ := argv
      · rfl
      · rfl
      · rw [commandPath] at hpath
        rw [cmdCatOver, cmdCatOver, hpath]
  | ok path =>
      rw [catReads, hpath]
      cases hopen : (v.serve (.open path .read) b).1 with
      | error rc => rw [exec_cmdCatOver_error hpath hopen, exec_cmdCatOver_error hpath hopen]
      | ok _ =>
          obtain ⟨data, hfile, hfile', hopened⟩ := hv.open_some hopen
          simp only [hfile, Option.getD_some]
          rw [exec_cmdCatOver_ok hpath hopen, exec_cmdCatOver_ok hpath hopen,
            hv.catReads_enough hfile' hopened (Nat.zero_le _) (Nat.lt_succ_self _)]

end Volumes

/-- What a command on one file prints: that it is refused, which it is when there is no such
file, or what is right for its contents. -/
def PrintedOf (cannot : Errno → LuaInteger × Bytes)
    (Right : Bytes → Bool → LuaInteger × Bytes → Prop) (file : Option Bytes) (refused : Bool)
    (printed : LuaInteger × Bytes) : Prop :=
  (refused = true ∧ ∃ rc, printed = cannot rc) ∨
    ∃ data, file = some data ∧ Right data refused printed

/-- `lua_fs cat` prints the file and a line break. A NUL cuts what one read has given, and a
refused read ends the text. -/
def CatPrints (data : Bytes) (refused : Bool) (printed : LuaInteger × Bytes) : Prop :=
  ∃ text, printed = (0, text ++ [10]) ∧ (0 ∉ data → text <+: data) ∧
    (refused = false → (text = data ↔ 0 ∉ data))

/-- `lua_fs delete` says so when it has removed the file. -/
def DeletePrints (path : Bytes) (_data : Bytes) (refused : Bool) (printed : LuaInteger × Bytes) :
    Prop :=
  refused = false ∧ printed = (0, ascii "Deleted " ++ path ++ [10])

section Printed

variable {β : Type} {v : Volume β} {mountPoint path : Bytes} {argv : List Bytes}

open Volume

theorem Volume.Documented.cmdCatOver_prints (hv : v.Documented)
    (hpath : commandPath mountPoint argv = .ok path) (b : β) :
    let r := v.run (cmdCatOver mountPoint argv (catReads mountPoint argv (v.view b).files)) b
    PrintedOf (cannotCat path) CatPrints ((v.view b).files path) r.1.2 r.1.1 := by
  intro r
  cases hopen : (v.serve (.open path .read) b).1 with
  | error rc =>
      have hnoted : (v.noting.serve (.open path .read) (b, false)).1 = .error rc := hopen
      have hexec := exec_cmdCatOver_error hpath hnoted
        (catReads mountPoint argv (v.view b).files)
      have hrefused := noting_refused (c := (b, false)) (congrArg (FileOp.granted _) hnoted)
      exact .inl ⟨(congrArg (·.2.2) hexec).trans hrefused, rc, congrArg Prod.fst hexec⟩
  | ok _ =>
      have hnoted : (v.noting.serve (.open path .read) (b, false)).1 = .ok ⟨⟩ := hopen
      have hexec := exec_cmdCatOver_ok hpath hnoted (catReads mountPoint argv (v.view b).files)
      have hprinted : r.1.1 = (0, _ ++ [10]) := congrArg Prod.fst hexec
      obtain ⟨data, hfile, hfile', hopened⟩ := hv.noting.open_some hnoted
      refine .inr ⟨data, hfile, _, hprinted, fun hnul => ?_, fun hgranted => ?_⟩
      · exact hv.noting.catReads_prefix hfile' hopened hnul _
      · obtain ⟨text, hall, htext⟩ := cmdCatOver_some hpath hfile
        have hrun := congrArg Prod.fst (hv.run_granted hgranted)
        have hsame := congrArg Prod.snd (hall.symm.trans (hrun.trans hprinted))
        obtain rfl := List.append_cancel_right hsame
        exact htext

/-- A file that is removed was there, and is there no more. -/
theorem Volume.Documented.cmdDelete_prints (hv : v.Documented)
    (hpath : commandPath mountPoint argv = .ok path) (b : β) :
    let r := v.run (cmdDelete mountPoint argv) b
    PrintedOf (cannotDelete path) (DeletePrints path) ((v.view b).files path) r.1.2 r.1.1 ∧
      (r.1.2 = false → (v.view r.2).files path = none) := by
  intro r
  have hexec : (cmdDelete mountPoint argv).exec v.noting.handle (b, false) =
      (match (v.noting.serve (.unlink path) (b, false)).1 with
        | .error rc => cannotDelete path rc
        | .ok _ => (0, ascii "Deleted " ++ path ++ [10]),
        (v.noting.serve (.unlink path) (b, false)).2) := by
    obtain _ | ⟨command, _ | ⟨name, more⟩⟩ := argv
    · contradiction
    · contradiction
    · rw [commandPath] at hpath
      simp only [cmdDelete, hpath, exec_fsUnlink]
      cases (v.noting.serve (.unlink path) (b, false)).1 with
      | _ => rfl
  cases hunlink : (v.noting.serve (.unlink path) (b, false)).1 with
  | error rc =>
      rw [hunlink] at hexec
      have hrefused : r.1.2 = true := (congrArg (·.2.2) hexec).trans
        (noting_refused (congrArg (FileOp.granted _) hunlink))
      refine ⟨.inl ⟨hrefused, rc, congrArg Prod.fst hexec⟩, fun hgranted => ?_⟩
      exact Bool.noConfusion (hgranted.symm.trans hrefused)
  | ok _ =>
      rw [hunlink] at hexec
      have hgranted : (FileOp.unlink path).granted (v.serve (.unlink path) b).1 = true :=
        congrArg (FileOp.granted _) hunlink
      have hfalse : r.1.2 = false := by
        refine (congrArg (·.2.2) hexec).trans ?_
        change (false || !FileOp.granted _ (v.serve (.unlink path) b).1) = false
        rw [hgranted]
        rfl
      have hserve : (v.view b).unlink path = (.ok ⟨⟩, v.view r.2) := by
        have hstate : r.2 = (v.serve (.unlink path) b).2 := congrArg (·.2.1) hexec
        rw [hstate]
        exact (hv.granted _ b hgranted).trans (congrArg (·, _) hunlink)
      cases hfile : (v.view b).files path with
      | none =>
          rw [FileStore.unlink_none hfile] at hserve
          obtain ⟨hreply, -⟩ := Prod.mk.inj hserve
          contradiction
      | some data =>
          rw [FileStore.unlink_some hfile] at hserve
          obtain ⟨-, hview⟩ := Prod.mk.inj hserve
          refine ⟨.inr ⟨data, rfl, hfalse, congrArg Prod.fst hexec⟩, fun _ => ?_⟩
          rw [← hview]
          exact Function.update_self ..

end Printed

section Load

/-- What a load gives for these contents. A call is refused also when there is no such file. Only
a Lua state that had not `enough` memory says that there was none. -/
inductive LoadAnswer {γ : Type} (cfg : FsConfig) (core : LuaCore γ) (enough refused : Prop)
    (files : FileContents) (path : Bytes) : Except Exn LuaInteger → Option Value → Prop where
  | compiled {fullpath data : Bytes} {f : Nat}
      (hpath : buildPath cfg.mountPoint path = .ok fullpath) (hdata : files fullpath = some data)
      (hsize : data.length ≤ cfg.maxFileSize) (hcompile : core.compile data fullpath = .ok f) :
      LoadAnswer cfg core enough refused files path (.ok LuaStatus.ok.code) (some (.other f))
  | rejected {fullpath data message : Bytes}
      (hpath : buildPath cfg.mountPoint path = .ok fullpath) (hdata : files fullpath = some data)
      (hsize : data.length ≤ cfg.maxFileSize)
      (hcompile : core.compile data fullpath = .error message) :
      LoadAnswer cfg core enough refused files path (.ok LuaStatus.errSyntax.code)
        (some (.string message))
  | refused {fullpath : Bytes} {rc : Errno} (hpath : buildPath cfg.mountPoint path = .ok fullpath)
      (hrefused : refused) :
      LoadAnswer cfg core enough refused files path (.ok rc.code)
        (some (.string (cannotOpen fullpath rc)))
  | tooLarge {fullpath data : Bytes} (hpath : buildPath cfg.mountPoint path = .ok fullpath)
      (hdata : files fullpath = some data) (hsize : cfg.maxFileSize < data.length) :
      LoadAnswer cfg core enough refused files path (.ok Errno.efbig.code)
        (some (.string (cannotOpen fullpath .efbig)))
  | tooLong {rc : Errno} {top : Option Value} (hpath : buildPath cfg.mountPoint path = .error rc) :
      LoadAnswer cfg core enough refused files path (.ok rc.code) top
  | outOfMemory {r : Except Exn LuaInteger} {top : Option Value} (hmemory : ¬ enough)
      (hr : r = .ok Errno.enomem.code ∨ r = .ok LuaStatus.errMem.code ∨
        r = .error (.error .memory)) :
      LoadAnswer cfg core enough refused files path r top

variable {β : Type} {v : Volume β} {cfg : FsConfig} {s : State (β × Bool)}

open Volume

/-- A file is read whole, or a call was refused. -/
theorem wp_openAndRead_noting (hv : v.Documented) {fullpath data bs : Bytes}
    (hfile : (v.view s.bus.1).files fullpath = some data)
    {Q : Except Errno (Nat × Bytes) → State (β × Bool) → Prop} {E : Exn → State (β × Bool) → Prop}
    (hrefused : ∀ rc heap c, v.noting.Spares none s.bus c → c.2 = true →
      Q (.error rc) { s with heap := heap, bus := c })
    (hread : ∀ c, v.noting.Spares none s.bus c →
      Q (.ok (s.heap.next, data)) { s with heap := s.heap.withFresh bs, bus := c }) :
    wp ((openAndRead fullpath s.heap.next data.length).embed (HostOp.inLua v.noting.serve)) Q E
      { s with heap := s.heap.withFresh bs } := by
  rw [openAndRead]
  refine (Prog.wp_embed_perform_bind (HostOp.file (.open fullpath .read)) _).mpr
    (wp_inLua_file.mpr ?_)
  cases hopen : (v.noting.serve (.open fullpath .read) s.bus).1 with
  | error rc =>
      refine (Prog.wp_embed_perform_bind (HostOp.free s.heap.next _) _).mpr
        ((wp_inLua_release rfl _).mpr ?_)
      exact hrefused rc _ _ (hv.noting.spares _ _ rfl)
        (noting_refused (congrArg (FileOp.granted _) hopen))
  | ok _ =>
      have hreading := hv.noting.reading_opened hopen
      obtain ⟨found, hfound, hthere, hopened⟩ := hv.noting.open_some hopen
      obtain rfl : found = data := Option.some.inj (hfound.symm.trans hfile)
      refine (Prog.wp_embed_perform_bind (HostOp.file (.read found.length)) _).mpr
        (wp_inLua_file.mpr ?_)
      have hclosed := (hreading.read hv.noting found.length).close hv.noting
      cases hread' : (v.noting.serve (.read found.length)
          (v.noting.serve (.open fullpath .read) s.bus).2).1 with
      | error rc =>
          refine (Prog.wp_embed_perform_bind (HostOp.file .close) _).mpr (wp_inLua_file.mpr ?_)
          refine (Prog.wp_embed_perform_bind (HostOp.free s.heap.next _) _).mpr
            ((wp_inLua_release rfl _).mpr ?_)
          exact hrefused rc _ _ hclosed
            (noting_kept _ (noting_refused (congrArg (FileOp.granted _) hread')))
      | ok piece =>
          obtain ⟨rfl, -, -⟩ := hv.noting.read_ok hthere hopened hread'
          refine (Prog.wp_embed_perform_bind (HostOp.file .close) _).mpr (wp_inLua_file.mpr ?_)
          rw [List.drop_zero, List.take_length]
          exact hread _ hclosed

/-- Reading a file changes none. The bytes in the buffer are all of the file. -/
theorem wp_readFileIntoBuf_noting (hv : v.Documented) {fullpath : Bytes}
    {Q : Except Errno (Nat × Bytes) → State (β × Bool) → Prop}
    {E : Exn → State (β × Bool) → Prop}
    (hrefused : ∀ rc heap c, v.noting.Spares none s.bus c → c.2 = true →
      Q (.error rc) { s with heap := heap, bus := c })
    (htooLarge : ∀ data c, v.noting.Spares none s.bus c →
      (v.view s.bus.1).files fullpath = some data → cfg.maxFileSize < data.length →
      Q (.error .efbig) { s with bus := c })
    (hnoRoom : ∀ size heap c, v.noting.Spares none s.bus c → size ≤ cfg.maxFileSize →
      s.heap.freshContents (size + 1) = none →
      Q (.error .enomem) { s with heap := heap, bus := c })
    (hread : ∀ data bs c, v.noting.Spares none s.bus c →
      (v.view s.bus.1).files fullpath = some data → data.length ≤ cfg.maxFileSize →
      Q (.ok (s.heap.next, data)) { s with heap := s.heap.withFresh bs, bus := c }) :
    wp ((readFileIntoBuf cfg.maxFileSize fullpath).embed (HostOp.inLua v.noting.serve)) Q E s := by
  rw [readFileIntoBuf]
  refine (Prog.wp_embed_perform_bind (HostOp.file (.stat fullpath)) _).mpr
    (wp_inLua_file.mpr ?_)
  have hstatted : v.noting.Spares none s.bus (v.noting.serve (.stat fullpath) s.bus).2 :=
    hv.noting.spares _ _ rfl
  cases hstat : (v.noting.serve (.stat fullpath) s.bus).1 with
  | error rc => exact hrefused rc _ _ hstatted (noting_refused (congrArg (FileOp.granted _) hstat))
  | ok entry =>
      obtain ⟨_ | _, size⟩ := entry
      · have hgranted : (FileOp.stat fullpath).granted
            (v.noting.serve (.stat fullpath) s.bus).1 = true := by
          rw [hstat]
          rfl
        have hserve := hv.noting.granted _ _ hgranted
        rw [hstat] at hserve
        obtain ⟨data, hfile, rfl⟩ : ∃ data, (v.view s.bus.1).files fullpath = some data ∧
            data.length = size := by
          cases hfile : (v.view s.bus.1).files fullpath with
          | none =>
              have hnone : FileStore.serveFile (.stat fullpath) (v.noting.view s.bus) = _ :=
                FileStore.serveFile_stat_none hfile
              have hreply := congrArg Prod.fst (hnone.symm.trans hserve)
              contradiction
          | some data =>
              have hsome : FileStore.serveFile (.stat fullpath) (v.noting.view s.bus) = _ :=
                FileStore.serveFile_stat_some hfile
              have hentry := Except.ok.inj (congrArg Prod.fst (hsome.symm.trans hserve))
              exact ⟨data, rfl, congrArg FsDirent.size hentry⟩
        simp only [ne_eq, not_true_eq_false, if_false]
        by_cases hsize : cfg.maxFileSize < data.length
        · rw [if_pos hsize]
          exact htooLarge data _ hstatted hfile hsize
        rw [if_neg hsize]
        refine (Prog.wp_embed_perform_bind (HostOp.alloc (data.length + 1)) _).mpr
          (wp_inLua_request.mpr ?_)
        cases hroom : s.heap.freshContents (data.length + 1) with
        | none => exact hnoRoom _ _ _ hstatted (Nat.not_lt.mp hsize) hroom
        | some bs =>
            have hfile' : (v.view (v.noting.serve (.stat fullpath) s.bus).2.1).files fullpath =
                some data := (hstatted fullpath (Option.some_ne_none _).symm).trans hfile
            refine wp_openAndRead_noting hv hfile' (fun rc heap c hspares hnoted => ?_)
              fun c hspares => ?_
            · exact hrefused rc heap c (hstatted.trans hspares) hnoted
            · exact hread data bs c (hstatted.trans hspares) hfile (Nat.not_lt.mp hsize)
      · exact hrefused _ _ _ hstatted (noting_refused (congrArg (FileOp.granted _) hstat))

/-- The Lua state has memory for every file that is not too large, and for one more call. -/
def HasMemory (cfg : FsConfig) {β : Type} (s : State β) : Prop :=
  s.apiFails s.apiCalls = false ∧
    ∀ n ≤ cfg.maxFileSize, s.heap.freshContents (n + 1) ≠ none

variable {core : LuaCore (β × Bool)} {enough : Prop} {path : Bytes}

/-- The message about a file that was not read needs memory too. -/
theorem wp_cannotOpen (hmemory : enough → HasMemory cfg s) {fullpath : Bytes} {rc : Errno}
    (heap : SysHeap) {c : β × Bool} (hspares : v.noting.Spares none s.bus c)
    (hanswer : LoadAnswer cfg core enough (c.2 = true) (v.view s.bus.1).files path (.ok rc.code)
      (some (.string (cannotOpen fullpath rc)))) :
    wp (do luaPushfstring (cannotOpen fullpath rc); return rc.code)
      (fun rc t => v.noting.Spares none s.bus t.bus ∧ LoadAnswer cfg core enough
        (t.bus.2 = true) (v.view s.bus.1).files path (.ok rc) t.stack.head?)
      (fun e t => v.noting.Spares none s.bus t.bus ∧ LoadAnswer cfg core enough
        (t.bus.2 = true) (v.view s.bus.1).files path (.error e) t.stack.head?)
      { s with heap := heap, bus := c } := by
  refine wp_bind.mpr (wp_luaPushfstring.mpr (wp_allocating.mpr ?_))
  cases hfails : s.apiFails s.apiCalls with
  | false => exact ⟨hspares, hanswer⟩
  | true =>
      have hnot : ¬ enough := fun h => Bool.noConfusion (hfails.symm.trans (hmemory h).1)
      exact ⟨hspares, .outOfMemory hnot (.inr (.inr rfl))⟩

/-- A load gives what is right for the file, and changes none. -/
theorem wp_luaFsLoadfile_noting (hv : v.Documented) (hmemory : enough → HasMemory cfg s) :
    wp (luaFsLoadfile cfg v.noting.serve core path)
      (fun rc t => v.noting.Spares none s.bus t.bus ∧ LoadAnswer cfg core enough
        (t.bus.2 = true) (v.view s.bus.1).files path (.ok rc) t.stack.head?)
      (fun e t => v.noting.Spares none s.bus t.bus ∧ LoadAnswer cfg core enough
        (t.bus.2 = true) (v.view s.bus.1).files path (.error e) t.stack.head?) s := by
  rw [luaFsLoadfile]
  cases hpath : buildPath cfg.mountPoint path with
  | error rc => exact ⟨fun _ _ => rfl, .tooLong hpath⟩
  | ok fullpath =>
      refine wp_bind.mpr (wp_readFileIntoBuf_noting hv ?_ ?_ ?_ ?_)
      · intro rc heap c hspares hrefused
        exact wp_cannotOpen hmemory heap hspares (.refused hpath hrefused)
      · intro data c hspares hdata hsize
        exact wp_cannotOpen hmemory s.heap hspares (.tooLarge hpath hdata hsize)
      · intro size heap c hspares hsize hroom
        have hnot : ¬ enough := fun h => (hmemory h).2 _ hsize hroom
        exact wp_cannotOpen hmemory heap hspares (.outOfMemory hnot (.inl rfl))
      · intro data bs c hspares hdata hsize
        refine wp_bind.mpr (wp_luaLLoadbuffer.mpr ?_)
        split
        · rename_i hfails
          have hnot : ¬ enough := fun h => Bool.noConfusion ((hmemory h).1.symm.trans hfails)
          refine wp_bind.mpr ((wp_runAllocator_release rfl _).mpr ⟨hspares, ?_⟩)
          exact .outOfMemory hnot (.inr (.inl rfl))
        · split
          · rename_i message hcompile
            refine wp_bind.mpr ((wp_runAllocator_release rfl _).mpr ⟨hspares, ?_⟩)
            exact .rejected hpath hdata hsize hcompile
          · rename_i f hcompile
            refine wp_bind.mpr ((wp_runAllocator_release rfl _).mpr ⟨hspares, ?_⟩)
            exact .compiled hpath hdata hsize hcompile

section Keeps

variable {γ : Type} {fs : FileSystem γ} {cfg : FsConfig} {core : LuaCore γ} {s : State γ}
  {I : γ → Prop}

theorem wp_runAllocator_keeps (ptr : Option Nat) (osize nsize : Nat) (hs : I s.bus) :
    wp (runAllocator ptr osize nsize) (fun _ t => I t.bus) (fun _ t => I t.bus) s := by
  simp only [runAllocator, wp_bind, wp_get]
  cases luaZephyrAllocator s.heap ptr osize nsize with
  | error f => exact hs
  | ok r => exact hs

/-- What every call of the file system keeps, a load keeps. -/
theorem wp_luaFsLoadfile_keeps (hfs : ∀ op b, I b → I (fs op b).2) (path : Bytes)
    (hs : I s.bus) :
    wp (luaFsLoadfile cfg fs core path) (fun _ t => I t.bus) (fun _ t => I t.bus) s := by
  rw [luaFsLoadfile]
  cases buildPath cfg.mountPoint path with
  | error rc => exact hs
  | ok fullpath =>
      have hop (op : HostOp) (t : State γ) (ht : I t.bus) :
          wp (HostOp.inLua fs op) (fun _ t => I t.bus) (fun _ t => I t.bus) t := by
        cases op with
        | file op => exact hfs op t.bus ht
        | alloc size => exact wp_runAllocator_keeps _ _ _ ht
        | free ptr size => exact wp_bind.mpr (wp_runAllocator_keeps _ _ _ ht)
      have hread : wp ((readFileIntoBuf cfg.maxFileSize fullpath).embed (HostOp.inLua fs))
          (fun _ t => I t.bus) (fun _ t => I t.bus) s :=
        Prog.wp_embed_invariant (fun op _ => hop op) hs
      refine wp_bind.mpr (hread.mono (fun r t ht => ?_) fun _ _ ht => ht)
      cases r with
      | error rc =>
          refine wp_bind.mpr (wp_luaPushfstring.mpr (wp_allocating.mpr ?_))
          split
          · exact ht
          · exact ht
      | ok found =>
          refine wp_bind.mpr (wp_luaLLoadbuffer.mpr ?_)
          have hfree (rc : LuaStatus) {t' : State γ} (ht' : I t'.bus) :
              wp (do let _ ← runAllocator (some found.1) (found.2.length + 1) 0; return rc.code)
                (fun _ t => I t.bus) (fun _ t => I t.bus) t' :=
            wp_bind.mpr (wp_runAllocator_keeps _ _ _ ht')
          split
          · exact hfree _ ht
          · split
            · exact hfree _ ht
            · exact hfree _ ht

end Keeps

end Load

end LuaZephyr
