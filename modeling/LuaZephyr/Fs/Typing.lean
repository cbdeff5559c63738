import LuaZephyr.Shell.Readline

/-!
# What `lua_fs write` makes of the keys

On a file system whose operations all succeed, `cmd_write` stores the typed lines as long as
none of them fills the line buffer: a full line is taken for a complete one, and what follows
for the next, which may be the dot that ends the input. When it is cancelled it removes the
file, also one that was there before.
-/

namespace LuaZephyr

open Programs LineEditing

/-- The files by path, and the path and the position of the file that is open. -/
structure FileStore where
  files : Bytes → Option Bytes
  opened : Option (Bytes × Nat)

namespace FileStore

/-- Change the contents of the open file from its position on. -/
def change (s : FileStore) (f : Nat → Bytes → Bytes × Nat) : FileStore :=
  match s.opened with
  | none => s
  | some (path, position) =>
      let changed := f position ((s.files path).getD [])
      ⟨Function.update s.files path (some changed.1), some (path, changed.2)⟩

def truncate (s : FileStore) (length : Nat) : FileStore :=
  s.change fun position contents =>
    (contents.take length ++ List.replicate (length - contents.length) 0, position)

/-- A write at the position, which is not beyond the end. -/
def write (s : FileStore) (data : Bytes) : FileStore :=
  s.change fun position contents =>
    (contents.take position ++ data ++ contents.drop (position + data.length),
      position + data.length)

def read (s : FileStore) (count : Nat) : Bytes :=
  match s.opened with
  | none => []
  | some (path, position) => (((s.files path).getD []).drop position).take count

/-- The file system calls; a file to be written is created. -/
def handle : (op : HostOp) → FileStore → op.Reply × FileStore
  | .file (.stat path), s =>
      (match s.files path with
        | none => .error .enoent
        | some contents => .ok ⟨.file, contents.length⟩, s)
  | .file (.open path .read), s =>
      match s.files path with
      | none => (.error .enoent, s)
      | some _ => (.ok ⟨⟩, { s with opened := some (path, 0) })
  | .file (.open path .createWrite), s =>
      (.ok ⟨⟩, ⟨Function.update s.files path (some ((s.files path).getD [])), some (path, 0)⟩)
  | .file (.truncate length), s => (.ok ⟨⟩, s.truncate length)
  | .file (.read count), s => (.ok (s.read count), s)
  | .file (.write data), s => (.ok data.length, s.write data)
  | .file .close, s => (.ok ⟨⟩, { s with opened := none })
  | .file (.unlink path), s => (.ok ⟨⟩, { s with files := Function.update s.files path none })
  | .alloc _, s => (none, s)
  | .free _ _, s => (⟨⟩, s)

/-- A file is open at its end and these are its contents. -/
def writing (files : Bytes → Option Bytes) (path contents : Bytes) : FileStore :=
  ⟨Function.update files path (some contents), some (path, contents.length)⟩

variable {α : Type} {files : Bytes → Option Bytes} {path contents : Bytes}

theorem truncate_opened (s : FileStore) (path : Bytes) :
    FileStore.truncate ⟨Function.update s.files path (some ((s.files path).getD [])),
      some (path, 0)⟩ 0 = writing s.files path [] := by
  simp [truncate, change, writing]

theorem write_writing (data : Bytes) :
    (writing files path contents).write data = writing files path (contents ++ data) := by
  have hend : contents.drop (contents.length + data.length) = [] :=
    List.drop_eq_nil_of_le (by omega)
  simp [write, change, writing, hend]

@[simp] theorem exec_fsWrite_writing (data : Bytes) (f : Except Errno Nat → HostProg α) :
    (fsWrite data >>= f).exec handle (writing files path contents) =
      (f (.ok data.length)).exec handle (writing files path (contents ++ data)) := by
  rw [← write_writing]
  rfl

@[simp] theorem exec_fsClose_writing (f : Except Errno Unit → HostProg α) :
    (fsClose >>= f).exec handle (writing files path contents) =
      (f (.ok ⟨⟩)).exec handle ⟨Function.update files path (some contents), none⟩ := rfl

@[simp] theorem exec_fsUnlink (s : FileStore) (f : Except Errno Unit → HostProg α) :
    (fsUnlink path >>= f).exec handle s =
      (f (.ok ⟨⟩)).exec handle { s with files := Function.update s.files path none } := rfl

end FileStore

/-- A line as the command is given it. -/
def shellLine (r : Reading UInt8) : ShellLine := ⟨r.line, decide (r.stop = some 0x04)⟩

/-- The lines typed, each up to its Ctrl+D, newline or carriage return. -/
def typedLines (keys : List UInt8) : List (Reading UInt8) :=
  readings erasesKey endsKey (fun _ => false) keys []

/-- The typed lines, cut where one fills a buffer of `len` bytes. -/
def cutLines (len : Nat) (keys : List UInt8) : List (Reading UInt8) :=
  readings erasesKey endsKey (fullLine len) keys []

/-- The loop of `cmd_write` with the keys it leaves unread. -/
def cmdWriteReadings (path : Bytes) : List (Reading UInt8) → HostProg (CommandEnd × List UInt8)
  | [] => return (.waiting, [])
  | r :: rs => do
      if r.stop = some 0x04 then
        let _ ← fsClose
        let _ ← fsUnlink path
        return (.cancelled, r.rest)
      else if r.line = [46] then
        let _ ← fsClose
        return (.returned 0, r.rest)
      else
        if r.line.length > 0 then
          let _ ← fsWrite r.line
        let _ ← fsWrite [10]
        cmdWriteReadings path rs

/-- `cmd_write`, with the keys it leaves unread. -/
def cmdWriteKeys (mountPoint : Bytes) (argv : List Bytes) (keys : List UInt8) :
    HostProg (CommandEnd × List UInt8) := do
  match argv with
  | _ :: name :: _ =>
      match buildShellPath mountPoint maxPath name with
      | .error rc => return (.returned rc.code, keys)
      | .ok path =>
          match ← fsOpen path .createWrite with
          | .error rc => return (.returned rc.code, keys)
          | .ok _ =>
              match ← fsTruncate 0 with
              | .error rc =>
                  let _ ← fsClose
                  return (.returned rc.code, keys)
              | .ok _ => cmdWriteReadings path (cutLines 256 keys)
  | _ => return (.returned Errno.einval.code, keys)

/-- The lines the command is given are the cut ones. -/
theorem shellLines_eq_readings {len : Nat} {keys : List UInt8} {line : Bytes}
    (hroom : line.length < len - 1) :
    shellLines len keys line =
      (readings erasesKey endsKey (fullLine len) keys line).map shellLine := by
  have hnew : ([] : Bytes).length < len - 1 := by
    rw [List.length_nil]
    omega
  induction keys generalizing line with
  | nil => rfl
  | cons c keys ih =>
      rw [shellLines, readings]
      by_cases herase : c = 0x08 ∨ c = 0x7F
      · have hstops : ¬ stops erasesKey endsKey c = true := by simp [stops_erase herase]
        have hshorter : line.dropLast.length < len - 1 := by
          rw [List.length_dropLast]
          omega
        rw [if_pos herase, if_neg hstops, edit_erase herase,
          if_neg (mt fullLine_iff.mp (not_not_intro hshorter)), ih hshorter]
      · rw [if_neg herase]
        by_cases hends : c = 0x04 ∨ c = 0x0A ∨ c = 0x0D
        · rw [if_pos ((stops_iff herase).mpr hends), ih hnew]
          by_cases heot : c = 0x04
          · rw [if_pos heot]
            simp [shellLine, heot]
          · rw [if_neg heot, if_pos (hends.resolve_left heot)]
            simp [shellLine, heot]
        · rw [if_neg fun h => hends (.inl h), if_neg fun h => hends (.inr h),
            if_neg (mt (stops_iff herase).mp hends), edit_append herase]
          by_cases hmore : line.length + 1 < len - 1
          · have hlonger : (line ++ [c]).length < len - 1 := by
              rwa [List.length_append, List.length_singleton]
            rw [if_pos hmore, if_neg (mt fullLine_iff.mp (not_not_intro hlonger)), ih hlonger]
          · have hfull : fullLine len (line ++ [c]) = true := by
              rwa [fullLine_iff, List.length_append, List.length_singleton]
            rw [if_neg hmore, if_pos hfull, ih hnew]
            rfl

theorem cmdWriteReadings_fst (path : Bytes) (rs : List (Reading UInt8)) :
    (cmdWriteReadings path rs >>= fun e => pure e.1) = cmdWriteLines path (rs.map shellLine) := by
  induction rs with
  | nil => rfl
  | cons r rs ih =>
      rw [List.map_cons, cmdWriteReadings, cmdWriteLines, ← ih]
      by_cases heot : r.stop = some 0x04
      · have heof : (shellLine r).eof = true := decide_eq_true heot
        rw [if_pos heot, if_pos heof]
        rfl
      · have heof : ¬ (shellLine r).eof = true := mt of_decide_eq_true heot
        rw [if_neg heot, if_neg heof]
        by_cases hdot : r.line = [46]
        · rw [if_pos hdot, if_pos (show (shellLine r).text = [46] from hdot)]
          rfl
        · rw [if_neg hdot, if_neg (show ¬ (shellLine r).text = [46] from hdot)]
          by_cases hpos : r.line.length > 0
          · rw [if_pos hpos, if_pos (show (shellLine r).text.length > 0 from hpos)]
            rfl
          · rw [if_neg hpos, if_neg (show ¬ (shellLine r).text.length > 0 from hpos)]
            rfl

/-- Without the keys it leaves, it is the command. -/
theorem cmdWriteKeys_fst (mountPoint : Bytes) (argv : List Bytes) (keys : List UInt8) :
    (cmdWriteKeys mountPoint argv keys >>= fun e => pure e.1) =
      cmdWrite mountPoint argv keys := by
  obtain _ | ⟨command, _ | ⟨name, more⟩⟩ := argv
  · rfl
  · rfl
  · rw [cmdWriteKeys, cmdWrite, shellLines_eq_readings (by decide)]
    cases buildShellPath mountPoint maxPath name with
    | error rc => rfl
    | ok path =>
        refine congrArg (Prog.call _) (funext fun opened => ?_)
        cases opened with
        | error rc => rfl
        | ok _ =>
            refine congrArg (Prog.call _) (funext fun truncated => ?_)
            cases truncated with
            | error rc => rfl
            | ok _ => exact cmdWriteReadings_fst path _

/-- The lines end with a single dot, and what was entered before it, or with Ctrl+D; and the
keys left. -/
inductive InputEnd where
  | finished (text : Bytes) (rest : List UInt8)
  | cancelled (rest : List UInt8)
  deriving DecidableEq, Repr

/-- Put a line in front of what was entered. -/
def InputEnd.after (line : Bytes) : InputEnd → InputEnd
  | .finished text rest => .finished (line ++ 10 :: text) rest
  | .cancelled rest => .cancelled rest

/-- How these lines end the input, if they do. -/
def inputEnd : List (Reading UInt8) → Option InputEnd
  | [] => none
  | r :: rs =>
      if r.stop = some 0x04 then some (.cancelled r.rest)
      else if r.line = [46] then some (.finished [] r.rest)
      else (inputEnd rs).map (InputEnd.after r.line)

section InputEnd

variable {r : Reading UInt8} {rs : List (Reading UInt8)} {text : Bytes} {rest : List UInt8}

theorem inputEnd_eot (h : r.stop = some 0x04) : inputEnd (r :: rs) = some (.cancelled r.rest) := by
  rw [inputEnd, if_pos h]

theorem inputEnd_dot (h : r.stop ≠ some 0x04) (hdot : r.line = [46]) :
    inputEnd (r :: rs) = some (.finished [] r.rest) := by
  rw [inputEnd, if_neg h, if_pos hdot]

theorem inputEnd_line (h : r.stop ≠ some 0x04) (hdot : r.line ≠ [46]) :
    inputEnd (r :: rs) = (inputEnd rs).map (InputEnd.after r.line) := by
  rw [inputEnd, if_neg h, if_neg hdot]

theorem after_eq_finished {line : Bytes} {e : Option InputEnd} :
    e.map (InputEnd.after line) = some (.finished text rest) ↔
      ∃ text', e = some (.finished text' rest) ∧ text = line ++ 10 :: text' := by
  cases e with
  | none => simp
  | some e =>
      cases e with
      | finished text' rest' =>
          simp only [Option.map_some, InputEnd.after, Option.some.injEq, InputEnd.finished.injEq]
          constructor
          · rintro ⟨rfl, rfl⟩
            exact ⟨text', ⟨rfl, rfl⟩, rfl⟩
          · rintro ⟨text'', ⟨rfl, rfl⟩, rfl⟩
            exact ⟨rfl, rfl⟩
      | cancelled rest' => simp [InputEnd.after]

theorem after_eq_cancelled {line : Bytes} {e : Option InputEnd} :
    e.map (InputEnd.after line) = some (.cancelled rest) ↔ e = some (.cancelled rest) := by
  cases e with
  | none => simp
  | some e => cases e <;> simp [InputEnd.after]

end InputEnd

/-- What the command returns with the keys left, and what it leaves of a file with these
contents. -/
def InputEnd.leaves (files : Bytes → Option Bytes) (path contents : Bytes) :
    InputEnd → (CommandEnd × List UInt8) × FileStore
  | .finished text rest =>
      ((.returned 0, rest), ⟨Function.update files path (some (contents ++ text)), none⟩)
  | .cancelled rest => ((.cancelled, rest), ⟨Function.update files path none, none⟩)

theorem InputEnd.leaves_after (files : Bytes → Option Bytes) (path contents line : Bytes)
    (e : InputEnd) :
    (e.after line).leaves files path contents =
      e.leaves files path (contents ++ (line ++ [10])) := by
  cases e with
  | finished text rest =>
      simp only [InputEnd.after, InputEnd.leaves, List.append_assoc, List.singleton_append]
  | cancelled rest => rfl

/-- A line and its newline go to the end of the file. -/
theorem exec_cmdWriteReadings_line (files : Bytes → Option Bytes) (path contents : Bytes)
    {r : Reading UInt8} (heot : r.stop ≠ some 0x04) (hdot : r.line ≠ [46])
    (rs : List (Reading UInt8)) :
    (cmdWriteReadings path (r :: rs)).exec FileStore.handle (.writing files path contents) =
      (cmdWriteReadings path rs).exec FileStore.handle
        (.writing files path (contents ++ (r.line ++ [10]))) := by
  rw [cmdWriteReadings, if_neg heot, if_neg hdot, ← List.append_assoc]
  by_cases hpos : r.line.length > 0
  · rw [if_pos hpos, FileStore.exec_fsWrite_writing, FileStore.exec_fsWrite_writing]
  · have hline : r.line = [] := List.length_eq_zero_iff.mp (by omega)
    rw [if_neg hpos, FileStore.exec_fsWrite_writing, hline, List.append_nil]

theorem exec_cmdWriteReadings (files : Bytes → Option Bytes) (path contents : Bytes)
    {rs : List (Reading UInt8)} {e : InputEnd} (hend : inputEnd rs = some e) :
    (cmdWriteReadings path rs).exec FileStore.handle (.writing files path contents) =
      e.leaves files path contents := by
  induction rs generalizing contents e with
  | nil => contradiction
  | cons r rs ih =>
      by_cases heot : r.stop = some 0x04
      · rw [inputEnd_eot heot] at hend
        obtain rfl := Option.some.inj hend
        rw [cmdWriteReadings, if_pos heot, FileStore.exec_fsClose_writing,
          FileStore.exec_fsUnlink, Function.update_idem]
        rfl
      · by_cases hdot : r.line = [46]
        · rw [inputEnd_dot heot hdot] at hend
          obtain rfl := Option.some.inj hend
          rw [cmdWriteReadings, if_neg heot, if_pos hdot, FileStore.exec_fsClose_writing,
            InputEnd.leaves, List.append_nil]
          rfl
        · rw [inputEnd_line heot hdot] at hend
          obtain ⟨e, hrest, rfl⟩ := Option.map_eq_some_iff.mp hend
          rw [exec_cmdWriteReadings_line files path contents heot hdot, ih _ hrest,
            InputEnd.leaves_after]

/-- Without an end of the input the loop waits. -/
theorem exec_cmdWriteReadings_none (files : Bytes → Option Bytes) (path contents : Bytes)
    {rs : List (Reading UInt8)} (hend : inputEnd rs = none) :
    ((cmdWriteReadings path rs).exec FileStore.handle (.writing files path contents)).1.1 =
      .waiting := by
  induction rs generalizing contents with
  | nil => rfl
  | cons r rs ih =>
      by_cases heot : r.stop = some 0x04
      · rw [inputEnd_eot heot] at hend
        contradiction
      · by_cases hdot : r.line = [46]
        · rw [inputEnd_dot heot hdot] at hend
          contradiction
        · rw [inputEnd_line heot hdot, Option.map_eq_none_iff] at hend
          rw [exec_cmdWriteReadings_line files path contents heot hdot]
          exact ih _ hend

/-- What the command leaves, for a name that can be opened. -/
theorem exec_cmdWriteKeys {mountPoint command name path : Bytes} {more : List Bytes}
    (hpath : buildShellPath mountPoint maxPath name = .ok path) (keys : List UInt8)
    (s : FileStore) :
    (cmdWriteKeys mountPoint (command :: name :: more) keys).exec FileStore.handle s =
      (cmdWriteReadings path (cutLines 256 keys)).exec FileStore.handle
        (.writing s.files path []) := by
  rw [cmdWriteKeys, hpath, ← FileStore.truncate_opened]
  rfl

/-- The keys end the input one way or the other, once there is a Ctrl+D among them. -/
theorem inputEnd_readings_isSome {full : Bytes → Bool} {keys : List UInt8} (heot : 0x04 ∈ keys)
    (line : Bytes) : (inputEnd (readings erasesKey endsKey full keys line)).isSome := by
  have hafter (r : Reading UInt8) {rs : List (Reading UInt8)} (h : (inputEnd rs).isSome) :
      (inputEnd (r :: rs)).isSome := by
    by_cases hstop : r.stop = some 0x04
    · rw [inputEnd_eot hstop]
      rfl
    · by_cases hdot : r.line = [46]
      · rw [inputEnd_dot hstop hdot]
        rfl
      · rwa [inputEnd_line hstop hdot, Option.isSome_map]
  induction keys generalizing line with
  | nil => contradiction
  | cons key keys ih =>
      rw [readings]
      obtain rfl | hrest := List.mem_cons.mp heot
      · rw [if_pos (show stops erasesKey endsKey 0x04 = true by decide), inputEnd_eot rfl]
        rfl
      · split
        · exact hafter _ (ih hrest [])
        · split
          · exact hafter _ (ih hrest [])
          · exact ih hrest _

/-- Only a Ctrl+D among the keys cancels. -/
theorem eot_mem_of_cancelled {full : Bytes → Bool} {keys : List UInt8} {line : Bytes}
    {rest : List UInt8}
    (h : inputEnd (readings erasesKey endsKey full keys line) = some (.cancelled rest)) :
    0x04 ∈ keys := by
  induction keys generalizing line with
  | nil => contradiction
  | cons key keys ih =>
      rw [readings] at h
      have hafter (r : Reading UInt8)
          (h : inputEnd (r :: readings erasesKey endsKey full keys []) = some (.cancelled rest)) :
          r.stop = some 0x04 ∨ 0x04 ∈ keys := by
        by_cases hstop : r.stop = some 0x04
        · exact .inl hstop
        · by_cases hdot : r.line = [46]
          · rw [inputEnd_dot hstop hdot] at h
            exact absurd h (by simp)
          · rw [inputEnd_line hstop hdot, after_eq_cancelled] at h
            exact .inr (ih h)
      split at h
      · obtain hkey | hrest := hafter _ h
        · exact List.mem_cons.mpr (.inl (Option.some.inj hkey).symm)
        · exact List.mem_cons_of_mem _ hrest
      · split at h
        · obtain hkey | hrest := hafter _ h
          · contradiction
          · exact List.mem_cons_of_mem _ hrest
        · exact List.mem_cons_of_mem _ (ih h)

/-- The command comes to its end and leaves all files as they were. -/
def LeavesFiles (mountPoint : Bytes) (argv : List Bytes) (keys : List UInt8) (s : FileStore) :
    Prop :=
  ((cmdWriteKeys mountPoint argv keys).exec FileStore.handle s).1.1 ≠ .waiting ∧
    ((cmdWriteKeys mountPoint argv keys).exec FileStore.handle s).2.files = s.files

/-- Cancelling leaves the files as they were exactly when there was no file of this name. When
the cut of a full line makes a line with a single dot, the command has finished before the
Ctrl+D, and it leaves them exactly when the file held what was entered. -/
theorem cancel_leavesFiles_iff {mountPoint name path : Bytes}
    (hpath : buildShellPath mountPoint maxPath name = .ok path) {keys rest : List UInt8}
    (hcancel : inputEnd (typedLines keys) = some (.cancelled rest)) (command : Bytes)
    (more : List Bytes) (s : FileStore) :
    LeavesFiles mountPoint (command :: name :: more) keys s ↔
      match inputEnd (cutLines 256 keys) with
      | some (.finished text _) => s.files path = some text
      | _ => s.files path = none := by
  have hcut : (inputEnd (readings erasesKey endsKey (fullLine 256) keys [])).isSome :=
    inputEnd_readings_isSome (eot_mem_of_cancelled hcancel) []
  obtain ⟨e, hend⟩ := Option.isSome_iff_exists.mp hcut
  change inputEnd (cutLines 256 keys) = some e at hend
  rw [LeavesFiles, exec_cmdWriteKeys hpath, exec_cmdWriteReadings s.files path [] hend, hend]
  cases e with
  | finished text rest =>
      rw [InputEnd.leaves, List.nil_append]
      simp [eq_comm]
  | cancelled rest =>
      rw [InputEnd.leaves]
      simp [eq_comm]

/-- A file system without files. -/
def emptyStore : FileStore := ⟨fun _ => none, none⟩

theorem cancel_leavesFiles_new : LeavesFiles (ascii "/lfs") [ascii "write", ascii "a.lua"]
    (ascii "x=1\n\x04") emptyStore := by
  have hpath : buildShellPath (ascii "/lfs") maxPath (ascii "a.lua") =
      .ok (ascii "/lfs/a.lua") := by
    decide +kernel
  have hcancel : inputEnd (typedLines (ascii "x=1\n\x04")) = some (.cancelled []) := by
    decide +kernel
  refine (cancel_leavesFiles_iff hpath hcancel _ [] _).mpr ?_
  have hcut : inputEnd (cutLines 256 (ascii "x=1\n\x04")) = some (.cancelled []) := by
    decide +kernel
  rw [hcut]
  rfl

/-- A script that was there before is gone. -/
theorem not_leavesFiles_existing :
    inputEnd (typedLines (ascii "x=1\n\x04")) = some (.cancelled []) ∧
      ¬ LeavesFiles (ascii "/lfs") [ascii "write", ascii "a.lua"] (ascii "x=1\n\x04")
        ⟨Function.update emptyStore.files (ascii "/lfs/a.lua") (some (ascii "x=0\n")), none⟩ := by
  refine ⟨by decide +kernel, fun hleaves => ?_⟩
  have hfile := congrFun hleaves.2 (ascii "/lfs/a.lua")
  exact absurd hfile (by decide +kernel)

/-- A line has no newline in it. -/
theorem newline_not_mem_edit {line : Bytes} {key : UInt8} (hline : 10 ∉ line)
    (hkey : stops erasesKey endsKey key = false) : 10 ∉ edit erasesKey line key := by
  intro hmem
  rw [edit] at hmem
  split at hmem
  · exact hline (List.mem_of_mem_dropLast hmem)
  · obtain hmem | hmem := List.mem_append.mp hmem
    · exact hline hmem
    · obtain rfl := List.mem_singleton.mp hmem
      exact absurd hkey (by decide)

theorem count_newline_line {line text : Bytes} (hline : 10 ∉ line) :
    (line ++ 10 :: text).count 10 = text.count 10 + 1 := by
  rw [List.count_append, List.count_eq_zero.mpr hline, Nat.zero_add, List.count_cons_self]

section Finished

variable {full : Bytes → Bool} (hempty : full [] = false) (hdot : full [46] = false)
include hempty hdot

/-- Each newline entered stands for a key that ended a line, or for a full line. -/
theorem inputEnd_finished {keys : List UInt8} {line text : Bytes} {rest : List UInt8}
    (hline : 10 ∉ line) (hroom : full line = false)
    (h : inputEnd (readings erasesKey endsKey full keys line) = some (.finished text rest)) :
    ∃ typed, keys = typed ++ rest ∧
      typed.countP (stops erasesKey endsKey) ≤ text.count 10 + 1 ∧
      (typed.countP (stops erasesKey endsKey) = text.count 10 + 1 ↔
        HasRoom erasesKey endsKey full line keys rest) := by
  induction keys generalizing line text with
  | nil => contradiction
  | cons key keys ih =>
      rw [readings] at h
      cases hkey : stops erasesKey endsKey key with
      | true =>
          rw [hkey, if_pos rfl] at h
          by_cases heot : key = 0x04
          · rw [inputEnd_eot (congrArg some heot)] at h
            exact absurd h (by simp)
          have hstop : some key ≠ some (0x04 : UInt8) := fun hsome => heot (Option.some.inj hsome)
          by_cases hline' : line = [46]
          · rw [inputEnd_dot hstop hline'] at h
            obtain ⟨rfl, rfl⟩ := InputEnd.finished.inj (Option.some.inj h)
            have hone : [key].countP (stops erasesKey endsKey) = 1 := by
              rw [List.countP_singleton, hkey, if_pos rfl]
            refine ⟨[key], rfl, by rw [hone]; exact Nat.le_refl _, iff_of_true hone ?_⟩
            exact (hasRoom_stop_iff hroom hkey).mpr (hasRoom_self hempty)
          · rw [inputEnd_line hstop hline', after_eq_finished] at h
            obtain ⟨text', hend, rfl⟩ := h
            obtain ⟨typed, hsplit, hle, hiff⟩ := ih (by simp) hempty hend
            have hcount : (key :: typed).countP (stops erasesKey endsKey) =
                typed.countP (stops erasesKey endsKey) + 1 := List.countP_cons_of_pos hkey
            refine ⟨key :: typed, congrArg (key :: ·) hsplit, ?_, ?_⟩
            · rw [hcount, count_newline_line hline]
              omega
            · rw [hcount, count_newline_line hline, Nat.add_right_cancel_iff, hiff,
                hasRoom_stop_iff hroom hkey]
      | false =>
          have hline' := newline_not_mem_edit hline hkey
          have hcount (typed : List UInt8) : (key :: typed).countP (stops erasesKey endsKey) =
              typed.countP (stops erasesKey endsKey) :=
            List.countP_cons_of_neg (by rw [hkey]; exact Bool.false_ne_true)
          rw [hkey, if_neg Bool.false_ne_true] at h
          cases hfull : full (edit erasesKey line key) with
          | true =>
              have hdot' : edit erasesKey line key ≠ [46] := by
                intro heq
                rw [heq, hdot] at hfull
                contradiction
              rw [hfull, if_pos rfl, inputEnd_line (by simp) hdot', after_eq_finished] at h
              obtain ⟨text', hend, rfl⟩ := h
              obtain ⟨typed, hsplit, hle, -⟩ := ih (by simp) hempty hend
              refine ⟨key :: typed, congrArg (key :: ·) hsplit, ?_, ?_⟩
              · rw [hcount, count_newline_line hline']
                omega
              · rw [hcount, count_newline_line hline']
                refine iff_of_false (by omega) fun hroom' => ?_
                have hhere := hroom' [key] typed (by rw [hsplit, List.singleton_append])
                rw [held_cons, hkey, if_neg Bool.false_ne_true, held_nil, hfull] at hhere
                contradiction
          | false =>
              rw [hfull, if_neg Bool.false_ne_true] at h
              obtain ⟨typed, hsplit, hle, hiff⟩ := ih hline' hfull h
              refine ⟨key :: typed, congrArg (key :: ·) hsplit, by rwa [hcount], ?_⟩
              rw [hcount, hiff, hasRoom_edit_iff hroom hkey]

end Finished

/-- Where the line always has room, the input ends as it was typed. -/
theorem inputEnd_of_hasRoom {full : Bytes → Bool} {keys : List UInt8} {line text : Bytes}
    {rest : List UInt8} (hline : 10 ∉ line)
    (h : inputEnd (readings erasesKey endsKey (fun _ => false) keys line) =
      some (.finished text rest)) (hroom : HasRoom erasesKey endsKey full line keys rest) :
    inputEnd (readings erasesKey endsKey full keys line) = some (.finished text rest) := by
  induction keys generalizing line text with
  | nil => contradiction
  | cons key keys ih =>
      have hnext := hroom.of_cons
      rw [readings] at h ⊢
      cases hkey : stops erasesKey endsKey key with
      | true =>
          rw [hkey, if_pos rfl] at h hnext
          rw [if_pos rfl]
          by_cases heot : key = 0x04
          · rwa [inputEnd_eot (congrArg some heot)] at h ⊢
          have hstop : some key ≠ some (0x04 : UInt8) := fun hsome => heot (Option.some.inj hsome)
          by_cases hdot : line = [46]
          · rwa [inputEnd_dot hstop hdot] at h ⊢
          · rw [inputEnd_line hstop hdot, after_eq_finished] at h ⊢
            obtain ⟨text', hend, htext⟩ := h
            exact ⟨text', ih (by simp) hend hnext, htext⟩
      | false =>
          rw [hkey, if_neg Bool.false_ne_true, if_neg Bool.false_ne_true] at h
          rw [hkey, if_neg Bool.false_ne_true] at hnext
          have hline' := newline_not_mem_edit hline hkey
          obtain ⟨typed, hsplit, -⟩ := inputEnd_finished rfl rfl hline' rfl h
          have hfull : full (edit erasesKey line key) = false := hnext [] typed hsplit
          rw [if_neg Bool.false_ne_true, hfull, if_neg Bool.false_ne_true]
          exact ih hline' h hnext

/-- The command returns 0 with these keys left, and has stored this text under the path and
changed no other file. -/
def StoresText (mountPoint : Bytes) (argv : List Bytes) (path text : Bytes)
    (keys rest : List UInt8) (s : FileStore) : Prop :=
  (cmdWriteKeys mountPoint argv keys).exec FileStore.handle s =
    ((.returned 0, rest), ⟨Function.update s.files path (some text), none⟩)

/-- The typed lines before the one with a single dot are stored, and the input ends with that
line, exactly when no line on the way fills the buffer. -/
theorem cmdWrite_storesText_iff {mountPoint name path : Bytes}
    (hpath : buildShellPath mountPoint maxPath name = .ok path) {keys rest : List UInt8}
    {text : Bytes} (htyped : inputEnd (typedLines keys) = some (.finished text rest))
    (command : Bytes) (more : List Bytes) (s : FileStore) :
    StoresText mountPoint (command :: name :: more) path text keys rest s ↔
      HasRoom erasesKey endsKey (fullLine 256) [] keys rest := by
  obtain ⟨typed, hkeys, -, hcount⟩ := inputEnd_finished rfl rfl (by simp) rfl htyped
  have hends := hcount.mpr fun _ _ _ => rfl
  rw [StoresText, exec_cmdWriteKeys hpath]
  constructor
  · intro hstores
    cases hend : inputEnd (cutLines 256 keys) with
    | none =>
        have hwaits := exec_cmdWriteReadings_none s.files path [] hend
        rw [hstores] at hwaits
        contradiction
    | some e =>
        rw [exec_cmdWriteReadings s.files path [] hend] at hstores
        cases e with
        | cancelled rest' => exact absurd (congrArg (·.1.1) hstores) (by simp [InputEnd.leaves])
        | finished text' rest' =>
            obtain rfl : rest' = rest := congrArg (·.1.2) hstores
            have hfile := congrFun (congrArg (·.2.files) hstores) path
            simp only [InputEnd.leaves, Function.update_self, List.nil_append] at hfile
            obtain rfl := Option.some.inj hfile
            -- The same keys were read, and the same newlines stored.
            obtain ⟨typed', hkeys', -, hroom⟩ := inputEnd_finished rfl rfl (by simp) rfl hend
            obtain rfl := List.append_cancel_right (hkeys.symm.trans hkeys')
            exact hroom.mp hends
  · intro hroom
    have hend : inputEnd (cutLines 256 keys) = some (.finished text rest) :=
      inputEnd_of_hasRoom (by simp) htyped hroom
    rw [exec_cmdWriteReadings s.files path [] hend]
    rfl

theorem cmdWrite_storesText_erased : StoresText (ascii "/lfs") [ascii "write", ascii "a.lua"]
    (ascii "/lfs/a.lua") (ascii "x=2\n") (ascii "x=1\x7F2\n.\n") [] emptyStore := by
  refine (cmdWrite_storesText_iff (by decide +kernel) (by decide +kernel) _ [] _).mpr ?_
  intro p q hsplit
  have hlen : p.length ≤ 8 := by
    have height : (ascii "x=1\x7F2\n.\n").length = 8 := by decide
    rw [hsplit, List.length_append] at height
    omega
  have hheld := length_held_le erasesKey endsKey [] p
  rw [List.length_nil] at hheld
  exact Bool.eq_false_iff.mpr (mt fullLine_iff.mp (not_not_intro (by omega)))

/-- 255 characters and a dot, then "x", and the dot to end. -/
def longLineKeys : List UInt8 := List.replicate 255 0x61 ++ ascii ".\nx\n.\n"

/-- The dot after 255 characters ends the input, and "x" is left. -/
theorem not_storesText_longLine :
    inputEnd (typedLines longLineKeys) =
        some (.finished (List.replicate 255 0x61 ++ ascii ".\nx\n") []) ∧
      ¬ StoresText (ascii "/lfs") [ascii "write", ascii "a.lua"] (ascii "/lfs/a.lua")
        (List.replicate 255 0x61 ++ ascii ".\nx\n") longLineKeys [] emptyStore := by
  refine ⟨by decide +kernel, fun hstores => ?_⟩
  have hrest := congrArg (·.1.2) hstores
  exact absurd hrest (by decide +kernel)

end LuaZephyr
