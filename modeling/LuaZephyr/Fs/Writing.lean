import LuaZephyr.Fs.Files

/-!
# Writing a file on a disk with faults

Any call on the file may fail, a write may store only the beginning of its data, and a
failing close may lose the end of what was written. `lua_fs_write_file` looks at the
result of every call but the close, `cmd_write` at neither its writes nor the close.

The faults are a parameter, so that the statements cover every disk. There is one file, and what
was in it before is arbitrary. Power failures between the calls, and what the file system keeps
in its caches, are seen only in what a close loses.
-/

namespace LuaZephyr

open Programs

/-- What the file system does on the file while it is written. -/
structure WriteFaults where
  opens : Except Errno Unit
  truncates : Except Errno Unit
  /-- At most this many bytes of each write, in the order of the writes, are stored. -/
  writes : Nat → Except Errno Nat
  /-- How a close fails and how many bytes of the file are left then. -/
  closes : Option (Errno × Nat)

/-- The file and how often it was written to. -/
structure Disk where
  contents : Bytes
  writeCount : Nat
  deriving DecidableEq, Repr

namespace WriteFaults

variable (faults : WriteFaults)

def truncate (length : Nat) (d : Disk) : Except Errno Unit × Disk :=
  match faults.truncates with
  | .error rc => (.error rc, d)
  | .ok _ => (.ok ⟨⟩, { d with contents := d.contents.take length })

def write (data : Bytes) (d : Disk) : Except Errno Nat × Disk :=
  match faults.writes d.writeCount with
  | .error rc => (.error rc, { d with writeCount := d.writeCount + 1 })
  | .ok n => (.ok (min n data.length),
      ⟨d.contents ++ data.take (min n data.length), d.writeCount + 1⟩)

def close (d : Disk) : Except Errno Unit × Disk :=
  match faults.closes with
  | none => (.ok ⟨⟩, d)
  | some (rc, kept) => (.error rc, { d with contents := d.contents.take kept })

/-- The file system calls on the disk. Nothing is read, and no memory is needed. -/
def handle : (op : HostOp) → Disk → op.Reply × Disk
  | .file (.stat _), d => (.ok ⟨.file, d.contents.length⟩, d)
  | .file (.open _ _), d => (faults.opens, d)
  | .file (.truncate length), d => faults.truncate length d
  | .file (.read count), d => (.ok (d.contents.take count), d)
  | .file (.write data), d => faults.write data d
  | .file .close, d => faults.close d
  | .file (.unlink _), d => (.ok ⟨⟩, { d with contents := [] })
  | .alloc _, d => (none, d)
  | .free _ _, d => (⟨⟩, d)

/-- The write with this number stores all of its data. -/
def StoresAll (i : Nat) (data : Bytes) : Prop := ∃ n, faults.writes i = .ok n ∧ data.length ≤ n

/-- The close succeeds, or loses nothing of a file of this length. -/
def KeepsAll (length : Nat) : Prop := ∀ rc kept, faults.closes = some (rc, kept) → length ≤ kept

variable {α : Type} {d : Disk}

@[simp] theorem exec_fsOpen (path : Bytes) (mode : FsMode) (f : Except Errno Unit → HostProg α) :
    (fsOpen path mode >>= f).exec faults.handle d = (f faults.opens).exec faults.handle d := rfl

@[simp] theorem exec_fsTruncate (length : Nat) (f : Except Errno Unit → HostProg α) :
    (fsTruncate length >>= f).exec faults.handle d =
      (f (faults.truncate length d).1).exec faults.handle (faults.truncate length d).2 := rfl

@[simp] theorem exec_fsWrite (data : Bytes) (f : Except Errno Nat → HostProg α) :
    (fsWrite data >>= f).exec faults.handle d =
      (f (faults.write data d).1).exec faults.handle (faults.write data d).2 := rfl

@[simp] theorem exec_fsClose (f : Except Errno Unit → HostProg α) :
    (fsClose >>= f).exec faults.handle d =
      (f (faults.close d).1).exec faults.handle (faults.close d).2 := rfl

@[simp] theorem exec_fsUnlink (path : Bytes) (f : Except Errno Unit → HostProg α) :
    (fsUnlink path >>= f).exec faults.handle d =
      (f (.ok ⟨⟩)).exec faults.handle { d with contents := [] } := rfl

variable {faults}

/-- What is left of written data is all of it exactly when no byte was lost. -/
theorem close_contents (faults : WriteFaults) (d : Disk) :
    (faults.close d).2.contents = d.contents ↔ faults.KeepsAll d.contents.length := by
  unfold close KeepsAll
  cases faults.closes with
  | none => exact iff_of_true rfl nofun
  | some failure =>
      obtain ⟨rc, kept⟩ := failure
      constructor
      · intro heq rc' kept' hsome
        obtain ⟨-, rfl⟩ := Prod.mk.inj (Option.some.inj hsome)
        have hlen := congrArg List.length heq
        simp only [List.length_take] at hlen
        omega
      · intro hkeeps
        exact List.take_of_length_le (hkeeps rc kept rfl)

theorem close_length_le (faults : WriteFaults) (d : Disk) :
    (faults.close d).2.contents.length ≤ d.contents.length := by
  unfold close
  split
  · exact Nat.le_refl _
  · simp only [List.length_take]
    omega

/-- A write stores the beginning of its data. -/
theorem write_contents (faults : WriteFaults) (data : Bytes) (d : Disk) : ∃ stored,
    (faults.write data d).2 = ⟨d.contents ++ stored, d.writeCount + 1⟩ ∧
      stored.length ≤ data.length ∧ (faults.StoresAll d.writeCount data → stored = data) ∧
      (stored.length = data.length → data ≠ [] → faults.StoresAll d.writeCount data) := by
  unfold write StoresAll
  cases faults.writes d.writeCount with
  | error rc =>
      refine ⟨[], by simp, Nat.zero_le _, nofun, fun hlen hne => ?_⟩
      exact absurd (List.length_eq_zero_iff.mp hlen.symm) hne
  | ok n =>
      refine ⟨data.take (min n data.length), rfl, by simp, ?_, fun hlen _ => ⟨n, rfl, ?_⟩⟩
      · rintro ⟨k, hk, hle⟩
        obtain rfl := Except.ok.inj hk
        exact List.take_of_length_le (by omega)
      · simp only [List.length_take] at hlen
        omega

/-- The disk after writes whose results nobody looks at. -/
def writeAll (faults : WriteFaults) (d : Disk) : List Bytes → Disk
  | [] => d
  | data :: rest => writeAll faults (faults.write data d).2 rest

theorem writeAll_contents (faults : WriteFaults) {ws : List Bytes} (hne : ∀ w ∈ ws, w ≠ [])
    (d : Disk) : ∃ stored, (faults.writeAll d ws).contents = d.contents ++ stored ∧
      stored.length ≤ ws.flatten.length ∧
      ((∀ i w, ws[i]? = some w → faults.StoresAll (d.writeCount + i) w) → stored = ws.flatten) ∧
      (stored.length = ws.flatten.length →
        ∀ i w, ws[i]? = some w → faults.StoresAll (d.writeCount + i) w) := by
  induction ws generalizing d with
  | nil => exact ⟨[], by simp [writeAll], Nat.le_refl _, fun _ => rfl, fun _ => nofun⟩
  | cons data rest ih =>
      obtain ⟨hdata, hrest⟩ := List.forall_mem_cons.mp hne
      obtain ⟨here, hwrite, hle, hall, hall'⟩ := write_contents faults data d
      obtain ⟨later, hlater, hle', hrestall, hrestall'⟩ := ih hrest (faults.write data d).2
      rw [hwrite] at hlater hrestall hrestall'
      refine ⟨here ++ later, ?_, ?_, fun hstores => ?_, fun hlen i w hi => ?_⟩
      · rw [writeAll, hwrite, hlater, List.append_assoc]
      · simp only [List.flatten_cons, List.length_append]
        omega
      · rw [hall (hstores 0 data rfl), hrestall fun i w hi => ?_, List.flatten_cons]
        have hplace : d.writeCount + 1 + i = d.writeCount + (i + 1) := by omega
        change faults.StoresAll (d.writeCount + 1 + i) w
        rw [hplace]
        exact hstores (i + 1) w hi
      · simp only [List.flatten_cons, List.length_append] at hlen
        cases i with
        | zero =>
            obtain rfl := Option.some.inj hi
            exact hall' (by omega) hdata
        | succ i =>
            have hplace : d.writeCount + 1 + i = d.writeCount + (i + 1) := by omega
            rw [← hplace]
            exact hrestall' (by omega) i w hi

end WriteFaults

/-- If the function returns 0, the file holds what it was to write. -/
def WriteFileKeeps (faults : WriteFaults) (d : Disk) (path data : Bytes) (len : Nat) : Prop :=
  ((luaFsWriteFile path data len).exec faults.handle d).1 = 0 →
    ((luaFsWriteFile path data len).exec faults.handle d).2.contents = requestedBytes data len

theorem length_requestedBytes {data : Bytes} {len : Nat} (hlen : len ≤ data.length) :
    (requestedBytes data len).length = if len = 0 then (CString.text data).length else len := by
  have htext := CString.length_text_le data
  rw [requestedBytes, List.length_take]
  split
  · omega
  · omega

/-- What the function does on the disk, by the first call that fails. -/
theorem exec_luaFsWriteFile (faults : WriteFaults) (d : Disk) (path data : Bytes) (len : Nat) :
    (luaFsWriteFile path data len).exec faults.handle d =
      match faults.opens, faults.truncates with
      | .error rc, _ => (rc.code, d)
      | .ok _, .error rc => (rc.code, (faults.close d).2)
      | .ok _, .ok _ =>
          let after := faults.write (requestedBytes data len) ⟨[], d.writeCount⟩
          (match after.1 with
            | .error rc => rc.code
            | .ok written =>
                if written ≠ (if len = 0 then (CString.text data).length else len) then
                  Errno.enospc.code
                else 0,
            (faults.close after.2).2) := by
  simp only [luaFsWriteFile, requestedBytes]
  generalize (if len = 0 then (CString.text data).length else len) = n
  rw [WriteFaults.exec_fsOpen]
  cases faults.opens with
  | error rc => rfl
  | ok _ =>
      simp only [WriteFaults.exec_fsTruncate, WriteFaults.truncate]
      cases faults.truncates with
      | error rc => rfl
      | ok _ =>
          simp only [WriteFaults.exec_fsWrite, WriteFaults.exec_fsClose, List.take_zero]
          cases (faults.write (data.take n) ⟨[], d.writeCount⟩).1 with
          | error rc => rfl
          | ok written =>
              by_cases hshort : written = n
              · simp [hshort]
              · simp [hshort]

/-- The write returns the length of its data exactly when it stores all of them. -/
theorem WriteFaults.write_complete (faults : WriteFaults) (data : Bytes) (d : Disk) :
    (faults.write data d).1 = .ok data.length ↔ faults.StoresAll d.writeCount data := by
  unfold WriteFaults.write WriteFaults.StoresAll
  cases faults.writes d.writeCount with
  | error rc => exact iff_of_false nofun nofun
  | ok n =>
      constructor
      · intro hcount
        have hmin : min n data.length = data.length := Except.ok.inj hcount
        exact ⟨n, rfl, by omega⟩
      · rintro ⟨k, hk, hle⟩
        obtain rfl := Except.ok.inj hk
        exact congrArg Except.ok (Nat.min_eq_right hle)

theorem writeFileKeeps_iff (faults : WriteFaults) (d : Disk) (path : Bytes) {data : Bytes}
    {len : Nat} (hlen : len ≤ data.length) :
    WriteFileKeeps faults d path data len ↔
      (faults.opens = .ok ⟨⟩ → faults.truncates = .ok ⟨⟩ →
        faults.StoresAll d.writeCount (requestedBytes data len) →
          faults.KeepsAll (requestedBytes data len).length) := by
  have hcomplete := faults.write_complete (requestedBytes data len) ⟨[], d.writeCount⟩
  have hexec := exec_luaFsWriteFile faults d path data len
  rw [← length_requestedBytes hlen] at hexec
  unfold WriteFileKeeps
  rw [hexec]
  cases faults.opens with
  | error rc => exact iff_of_true (fun hzero => absurd hzero rc.code_ne_zero) nofun
  | ok _ =>
      cases faults.truncates with
      | error rc => exact iff_of_true (fun hzero => absurd hzero rc.code_ne_zero) nofun
      | ok _ =>
          obtain ⟨stored, hafter, -, hall, -⟩ :=
            faults.write_contents (requestedBytes data len) ⟨[], d.writeCount⟩
          rw [List.nil_append] at hafter
          simp only [hafter]
          cases hwritten : (faults.write (requestedBytes data len) ⟨[], d.writeCount⟩).1 with
          | error rc =>
              rw [hwritten] at hcomplete
              refine iff_of_true (fun hzero => absurd hzero rc.code_ne_zero) fun _ _ hstores => ?_
              exact absurd (hcomplete.mpr hstores) nofun
          | ok written =>
              rw [hwritten, Except.ok.injEq] at hcomplete
              by_cases hshort : written = (requestedBytes data len).length
              · have hstores := hcomplete.mp hshort
                have hclose := faults.close_contents ⟨stored, d.writeCount + 1⟩
                rw [hall hstores] at hclose ⊢
                simp only [hshort, ne_eq, not_true_eq_false, if_false, true_implies, hclose]
                exact ⟨fun hkeeps _ => hkeeps, fun hkeeps => hkeeps hstores⟩
              · simp only [ne_eq, hshort, not_false_eq_true, if_true]
                refine iff_of_true (fun hzero => absurd hzero Errno.enospc.code_ne_zero) ?_
                exact fun _ _ hstores => absurd (hcomplete.mpr hstores) hshort

/-- The write requests of the command when a line with a single dot ends the input. -/
def writeRequests : List ShellLine → Option (List Bytes)
  | [] => none
  | line :: lines =>
      if line.eof then none
      else if line.text = [46] then some []
      else (writeRequests lines).map fun ws =>
        (if line.text.length > 0 then [line.text] else []) ++ [10] :: ws

theorem writeRequests_ne_nil {lines : List ShellLine} {ws : List Bytes}
    (h : writeRequests lines = some ws) : ∀ w ∈ ws, w ≠ [] := by
  induction lines generalizing ws with
  | nil => contradiction
  | cons line lines ih =>
      rw [writeRequests] at h
      split at h
      · contradiction
      · split at h
        · obtain rfl := Option.some.inj h
          exact nofun
        · obtain ⟨rest, hrest, rfl⟩ := Option.map_eq_some_iff.mp h
          intro w hw
          obtain hw | hw := List.mem_append.mp hw
          · split at hw
            · rename_i hpos
              obtain rfl := List.mem_singleton.mp hw
              exact List.ne_nil_of_length_pos hpos
            · contradiction
          · obtain rfl | hw := List.mem_cons.mp hw
            · exact nofun
            · exact ih hrest w hw

/-- Without the dot the loop does not return. -/
theorem exec_cmdWriteLines_none (faults : WriteFaults) (path : Bytes) {lines : List ShellLine}
    (h : writeRequests lines = none) (d : Disk) (rc : LuaInteger) :
    ((cmdWriteLines path lines).exec faults.handle d).1 ≠ .returned rc := by
  induction lines generalizing d with
  | nil => nofun
  | cons line lines ih =>
      rw [writeRequests] at h
      rw [cmdWriteLines]
      split
      · simp
      · rename_i heof
        rw [if_neg heof] at h
        split
        · rename_i hdot
          rw [if_pos hdot] at h
          contradiction
        · rename_i hdot
          rw [if_neg hdot, Option.map_eq_none_iff] at h
          split
          · exact ih h _
          · exact ih h _

/-- With it, all requests are written and the file is closed. -/
theorem exec_cmdWriteLines_some (faults : WriteFaults) (path : Bytes) {lines : List ShellLine}
    {ws : List Bytes} (h : writeRequests lines = some ws) (d : Disk) :
    (cmdWriteLines path lines).exec faults.handle d =
      (.returned 0, (faults.close (faults.writeAll d ws)).2) := by
  induction lines generalizing d ws with
  | nil => contradiction
  | cons line lines ih =>
      rw [writeRequests] at h
      rw [cmdWriteLines]
      split
      · rename_i heof
        rw [if_pos heof] at h
        contradiction
      · rename_i heof
        rw [if_neg heof] at h
        split
        · rename_i hdot
          rw [if_pos hdot] at h
          obtain rfl := Option.some.inj h
          rfl
        · rename_i hdot
          rw [if_neg hdot] at h
          obtain ⟨rest, hrest, rfl⟩ := Option.map_eq_some_iff.mp h
          split
          · exact ih hrest _
          · exact ih hrest _

/-- If the command returns 0 and was not cancelled, the file holds all it was to write. -/
def CmdWriteKeeps (mountPoint : Bytes) (faults : WriteFaults) (d : Disk) (argv : List Bytes)
    (keys : List UInt8) : Prop :=
  ((cmdWrite mountPoint argv keys).exec faults.handle d).1 = .returned 0 →
    ∃ ws, writeRequests (shellLines 256 keys []) = some ws ∧
      ((cmdWrite mountPoint argv keys).exec faults.handle d).2.contents = ws.flatten

/-- The command gets to its loop. -/
def CmdWriteOpens (mountPoint : Bytes) (faults : WriteFaults) (argv : List Bytes) : Prop :=
  (∃ command name rest path, argv = command :: name :: rest ∧
    buildShellPath mountPoint maxPath name = .ok path) ∧
  faults.opens = .ok ⟨⟩ ∧ faults.truncates = .ok ⟨⟩

/-- Before its loop the command either fails or has emptied the file. -/
theorem exec_cmdWrite (mountPoint : Bytes) (faults : WriteFaults) (d : Disk) (argv : List Bytes)
    (keys : List UInt8) :
    (CmdWriteOpens mountPoint faults argv ∧ ∃ path,
      (cmdWrite mountPoint argv keys).exec faults.handle d =
        (cmdWriteLines path (shellLines 256 keys [])).exec faults.handle ⟨[], d.writeCount⟩) ∨
    (¬ CmdWriteOpens mountPoint faults argv ∧ ∃ rc : Errno,
      ((cmdWrite mountPoint argv keys).exec faults.handle d).1 = .returned rc.code) := by
  match argv with
  | [] =>
      exact .inr ⟨fun ⟨⟨_, _, _, _, hargv, _⟩, _⟩ => by contradiction, Errno.einval, rfl⟩
  | [_] =>
      exact .inr ⟨fun ⟨⟨_, _, _, _, hargv, _⟩, _⟩ => by simp at hargv, Errno.einval, rfl⟩
  | command :: name :: rest =>
      rw [cmdWrite]
      cases hpath : buildShellPath mountPoint maxPath name with
      | error rc =>
          refine .inr ⟨?_, rc, rfl⟩
          rintro ⟨⟨_, _, _, path, hargv, hok⟩, -⟩
          obtain ⟨-, rfl, -⟩ := by simpa using hargv
          rw [hpath] at hok
          contradiction
      | ok path =>
          simp only [WriteFaults.exec_fsOpen]
          cases hopens : faults.opens with
          | error rc =>
              refine .inr ⟨?_, rc, rfl⟩
              rintro ⟨-, hok, -⟩
              rw [hopens] at hok
              contradiction
          | ok _ =>
              simp only [WriteFaults.exec_fsTruncate, WriteFaults.truncate]
              cases htruncates : faults.truncates with
              | error rc =>
                  refine .inr ⟨?_, rc, rfl⟩
                  rintro ⟨-, -, hok⟩
                  rw [htruncates] at hok
                  contradiction
              | ok _ =>
                  simp only [List.take_zero]
                  exact .inl ⟨⟨⟨command, name, rest, path, rfl, hpath⟩, hopens, htruncates⟩,
                    path, rfl⟩

theorem cmdWriteKeeps_iff (mountPoint : Bytes) (faults : WriteFaults) (d : Disk)
    (argv : List Bytes) (keys : List UInt8) :
    CmdWriteKeeps mountPoint faults d argv keys ↔
      (CmdWriteOpens mountPoint faults argv →
        ∀ ws, writeRequests (shellLines 256 keys []) = some ws →
          (∀ i w, ws[i]? = some w → faults.StoresAll (d.writeCount + i) w) ∧
            faults.KeepsAll ws.flatten.length) := by
  unfold CmdWriteKeeps
  obtain ⟨hopens, path, hexec⟩ | ⟨hfails, rc, hexec⟩ := exec_cmdWrite mountPoint faults d argv keys
  · rw [hexec]
    cases hrequests : writeRequests (shellLines 256 keys []) with
    | none =>
        refine iff_of_true (fun hzero => ?_) fun _ => nofun
        exact absurd hzero (exec_cmdWriteLines_none faults path hrequests _ 0)
    | some ws =>
        rw [exec_cmdWriteLines_some faults path hrequests]
        obtain ⟨stored, hcontents, hle, hall, hall'⟩ :=
          faults.writeAll_contents (writeRequests_ne_nil hrequests) ⟨[], d.writeCount⟩
        rw [List.nil_append] at hcontents
        have hclose := faults.close_contents (faults.writeAll ⟨[], d.writeCount⟩ ws)
        have hshorter := faults.close_length_le (faults.writeAll ⟨[], d.writeCount⟩ ws)
        rw [hcontents] at hclose hshorter
        constructor
        · rintro hkeeps - ws' hws'
          obtain rfl := Option.some.inj hws'
          obtain ⟨ws', hws', hflatten⟩ := hkeeps rfl
          obtain rfl := Option.some.inj hws'
          have hstores := hall' (by rw [hflatten] at hshorter; omega)
          rw [hall hstores] at hclose
          exact ⟨hstores, hclose.mp hflatten⟩
        · rintro hcomplete -
          obtain ⟨hstores, hkept⟩ := hcomplete hopens ws rfl
          refine ⟨ws, rfl, ?_⟩
          rw [hall hstores] at hclose
          exact hclose.mpr hkept
  · rw [hexec]
    refine iff_of_true (fun hzero => ?_) fun hopens => absurd hopens hfails
    exact absurd (CommandEnd.returned.inj hzero) rc.code_ne_zero

/-- A successful `lua_fs_write_file` has left its data in the file exactly when its close
lost nothing, and a successful `cmd_write` exactly when its writes and its close lost
nothing. -/
theorem writesKeep_iff (faults : WriteFaults) (d : Disk) :
    (∀ path data len, len ≤ data.length → (WriteFileKeeps faults d path data len ↔
      (faults.opens = .ok ⟨⟩ → faults.truncates = .ok ⟨⟩ →
        faults.StoresAll d.writeCount (requestedBytes data len) →
          faults.KeepsAll (requestedBytes data len).length))) ∧
    ∀ mountPoint argv keys, (CmdWriteKeeps mountPoint faults d argv keys ↔
      (CmdWriteOpens mountPoint faults argv →
        ∀ ws, writeRequests (shellLines 256 keys []) = some ws →
          (∀ i w, ws[i]? = some w → faults.StoresAll (d.writeCount + i) w) ∧
            faults.KeepsAll ws.flatten.length)) :=
  ⟨fun path _ _ hlen => writeFileKeeps_iff faults d path hlen, fun mountPoint argv keys =>
    cmdWriteKeeps_iff mountPoint faults d argv keys⟩

/-- Nothing fails. -/
def soundDisk : WriteFaults := ⟨.ok ⟨⟩, .ok ⟨⟩, fun _ => .ok 1000, none⟩

/-- The disk is full: the first write stores nothing. -/
def fullDisk : WriteFaults := { soundDisk with writes := fun _ => .error .enospc }

/-- The disk turns out to be full when the cache is flushed. -/
def fullAtClose : WriteFaults := { soundDisk with closes := some (.enospc, 0) }

/-- The keys of the line "x=1" and of a line with a dot. -/
def typedScript : List UInt8 := ascii "x=1\n.\n"

theorem writesKeep_sound (d : Disk) :
    WriteFileKeeps soundDisk d (ascii "/lfs/a.lua") (ascii "x=1") 3 ∧
      CmdWriteKeeps (ascii "/lfs") soundDisk d [ascii "write", ascii "a.lua"] typedScript := by
  have hstores (i : Nat) {w : Bytes} (hw : w.length ≤ 1000) : soundDisk.StoresAll i w :=
    ⟨1000, rfl, hw⟩
  have hkeeps (length : Nat) : soundDisk.KeepsAll length := nofun
  refine ⟨((writesKeep_iff soundDisk d).1 _ _ 3 (by decide)).mpr fun _ _ _ => hkeeps _, ?_⟩
  refine ((writesKeep_iff soundDisk d).2 _ _ _).mpr fun _ ws hws => ⟨fun i w hi => ?_, hkeeps _⟩
  have hrequests : writeRequests (shellLines 256 typedScript []) = some [ascii "x=1", [10]] := by
    decide
  obtain rfl := Option.some.inj (hrequests.symm.trans hws)
  have hshort : ∀ w ∈ [ascii "x=1", [10]], w.length ≤ 1000 := by decide
  exact hstores _ (hshort w (List.mem_of_getElem? hi))

/-- On a full disk `lua_fs_write_file` returns 0 with an empty file when only the close
fails, and `cmd_write` when the write fails. -/
theorem not_writesKeep_full :
    ¬ WriteFileKeeps fullAtClose ⟨[], 0⟩ (ascii "/lfs/a.lua") (ascii "x=1") 3 ∧
      ¬ CmdWriteKeeps (ascii "/lfs") fullDisk ⟨[], 0⟩ [ascii "write", ascii "a.lua"]
        typedScript := by
  constructor
  · intro hkeeps
    exact absurd (hkeeps (by decide +kernel)) (by decide +kernel)
  · intro hkeeps
    obtain ⟨ws, hws, hcontents⟩ := hkeeps (by decide +kernel)
    have hrequests : writeRequests (shellLines 256 typedScript []) = some [ascii "x=1", [10]] := by
      decide
    obtain rfl := Option.some.inj (hrequests.symm.trans hws)
    exact absurd hcontents (by decide +kernel)

end LuaZephyr
