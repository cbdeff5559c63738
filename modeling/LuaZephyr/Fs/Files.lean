import LuaZephyr.Library.Programs
import LuaZephyr.Lua.Heap

/-!
# Scripts in files

The functions of `luaz_fs.c` and `luaz_fs_shell.c` that read and write files, as programs
over the Zephyr file system API and the allocator. The file system is not part of the
repository; what a program does is fixed by the replies it gets.

A function has one file open at a time, which the calls after `fs_open` are about. The texts
that are printed are left out where no claim needs them, and a loop over keys or lines goes
through the list of them. The loops that read a directory or print a file are in `Fs.Listing`.
-/

namespace LuaZephyr

open Programs

namespace Errno

def enoent : Errno := ⟨-2, by decide⟩

def enomem : Errno := ⟨-12, by decide⟩

def eisdir : Errno := ⟨-21, by decide⟩

def einval : Errno := ⟨-22, by decide⟩

def efbig : Errno := ⟨-27, by decide⟩

def enospc : Errno := ⟨-28, by decide⟩

def enametoolong : Errno := ⟨-91, by decide⟩

end Errno

inductive FsDirEntryType where
  | file
  | dir
  deriving DecidableEq, Repr

/-- `struct fs_dirent`, without the name. -/
structure FsDirent where
  type : FsDirEntryType
  size : Nat
  deriving DecidableEq, Repr

/-- The flags `FS_O_READ`, and `FS_O_CREATE | FS_O_WRITE`. -/
inductive FsMode where
  | read
  | createWrite
  deriving DecidableEq, Repr

/-- The file system calls. All but the first and the last are about the one file a
function has open. -/
inductive FileOp where
  | stat (path : Bytes)
  | open (path : Bytes) (mode : FsMode)
  | truncate (length : Nat)
  | read (count : Nat)
  | write (data : Bytes)
  | close
  | unlink (path : Bytes)
  deriving DecidableEq, Repr

/-- A read replies with the bytes it stored in the buffer, a write with their count. -/
def FileOp.Reply : FileOp → Type
  | .stat _ => Except Errno FsDirent
  | .open _ _ => Except Errno Unit
  | .truncate _ => Except Errno Unit
  | .read _ => Except Errno Bytes
  | .write _ => Except Errno Nat
  | .close => Except Errno Unit
  | .unlink _ => Except Errno Unit

/-- What the functions ask for: a file system call, or the allocator of the Lua state. -/
inductive HostOp where
  | file (op : FileOp)
  | alloc (size : Nat)
  | free (ptr size : Nat)
  deriving DecidableEq, Repr

def HostOp.Reply : HostOp → Type
  | .file op => op.Reply
  | .alloc _ => Option Nat
  | .free _ _ => Unit

abbrev HostProg := Prog HostOp HostOp.Reply

def fsStat (path : Bytes) : HostProg (Except Errno FsDirent) :=
  Prog.perform (HostOp.file (.stat path))

def fsOpen (path : Bytes) (mode : FsMode) : HostProg (Except Errno Unit) :=
  Prog.perform (HostOp.file (.open path mode))

def fsTruncate (length : Nat) : HostProg (Except Errno Unit) :=
  Prog.perform (HostOp.file (.truncate length))

def fsRead (count : Nat) : HostProg (Except Errno Bytes) :=
  Prog.perform (HostOp.file (.read count))

def fsWrite (data : Bytes) : HostProg (Except Errno Nat) :=
  Prog.perform (HostOp.file (.write data))

def fsClose : HostProg (Except Errno Unit) := Prog.perform (HostOp.file .close)

def fsUnlink (path : Bytes) : HostProg (Except Errno Unit) :=
  Prog.perform (HostOp.file (.unlink path))

/-- `allocf(ud, NULL, 0, size)`. -/
def allocf (size : Nat) : HostProg (Option Nat) := Prog.perform (HostOp.alloc size)

/-- `allocf(ud, ptr, size, 0)`. -/
def allocfFree (ptr size : Nat) : HostProg Unit := Prog.perform (HostOp.free ptr size)

/-- `MAX_PATH`. -/
def maxPath : Nat := 64

/-- An absolute path is copied, a relative one is put behind the mount point, and both
must leave room for a NUL. -/
def joinPath (mountPoint : Bytes) (buflen : Nat) (path : Bytes) : Except Errno Bytes :=
  if path.head? = some 47 then
    if buflen ≤ path.length then .error .enametoolong else .ok path
  else
    let full := mountPoint ++ 47 :: path
    if buflen ≤ full.length then .error .enametoolong else .ok full

/-- `build_path`. -/
def buildPath (mountPoint path : Bytes) : Except Errno Bytes := joinPath mountPoint maxPath path

/-- `build_shell_path`. -/
def buildShellPath (mountPoint : Bytes) (buflen : Nat) (name : Bytes) : Except Errno Bytes :=
  joinPath mountPoint buflen name

/-- `read_file_into_buf`: the buffer and the bytes read into it, or an errno. -/
def readFileIntoBuf (maxFileSize : Nat) (fullpath : Bytes) :
    HostProg (Except Errno (Nat × Bytes)) := do
  match ← fsStat fullpath with
  | .error rc => return .error rc
  | .ok entry =>
      if entry.type ≠ .file then return .error .eisdir
      else if maxFileSize < entry.size then return .error .efbig
      else
        match ← allocf (entry.size + 1) with
        | none => return .error .enomem
        | some buf =>
            match ← fsOpen fullpath .read with
            | .error rc =>
                allocfFree buf (entry.size + 1)
                return .error rc
            | .ok _ =>
                let bytesRead ← fsRead entry.size
                let _ ← fsClose
                match bytesRead with
                | .error rc =>
                    allocfFree buf (entry.size + 1)
                    return .error rc
                | .ok data => return .ok (buf, data)

/-- The bytes `lua_fs_write_file(path, data, len)` is to write. -/
def requestedBytes (data : Bytes) (len : Nat) : Bytes :=
  data.take (if len = 0 then (CString.text data).length else len)

/-- `lua_fs_write_file`. -/
def luaFsWriteFile (path data : Bytes) (len : Nat) : HostProg LuaInteger := do
  let len := if len = 0 then (CString.text data).length else len
  match ← fsOpen path .createWrite with
  | .error rc => return rc.code
  | .ok _ =>
      match ← fsTruncate 0 with
      | .error rc =>
          let _ ← fsClose
          return rc.code
      | .ok _ =>
          let written ← fsWrite (data.take len)
          let _ ← fsClose
          match written with
          | .error rc => return rc.code
          | .ok written => if written ≠ len then return Errno.enospc.code else return 0

/-- A line typed at the shell, and whether Ctrl+D ended it. -/
structure ShellLine where
  text : Bytes
  eof : Bool
  deriving DecidableEq, Repr

/-- `lua_fs_shell_readline` with `line` typed so far; none while it waits for a key. Backspace
and delete take back a character, and a full line ends by itself. -/
def luaFsShellReadline (len : Nat) : List UInt8 → Bytes → Option (ShellLine × List UInt8)
  | [], _ => none
  | c :: keys, line =>
      if c = 0x08 ∨ c = 0x7F then luaFsShellReadline len keys line.dropLast
      else if c = 0x04 then some (⟨line, true⟩, keys)
      else if c = 0x0A ∨ c = 0x0D then some (⟨line, false⟩, keys)
      else if line.length + 1 < len - 1 then luaFsShellReadline len keys (line ++ [c])
      else some (⟨line ++ [c], false⟩, keys)

/-- The lines read one after another from the keys typed. -/
def shellLines (len : Nat) : List UInt8 → Bytes → List ShellLine
  | [], _ => []
  | c :: keys, line =>
      if c = 0x08 ∨ c = 0x7F then shellLines len keys line.dropLast
      else if c = 0x04 then ⟨line, true⟩ :: shellLines len keys []
      else if c = 0x0A ∨ c = 0x0D then ⟨line, false⟩ :: shellLines len keys []
      else if line.length + 1 < len - 1 then shellLines len keys (line ++ [c])
      else ⟨line ++ [c], false⟩ :: shellLines len keys []

/-- Each line is what the next call of `lua_fs_shell_readline` returns. -/
theorem shellLines_eq (len : Nat) (keys : List UInt8) (line : Bytes) :
    shellLines len keys line =
      match luaFsShellReadline len keys line with
      | none => []
      | some (l, rest) => l :: shellLines len rest [] := by
  induction keys generalizing line with
  | nil => rfl
  | cons c keys ih =>
      rw [shellLines, luaFsShellReadline]
      split
      · exact ih _
      · split
        · rfl
        · split
          · rfl
          · split
            · exact ih _
            · rfl

/-- How a command ends: with a return code, cancelled, or waiting for a key. -/
inductive CommandEnd where
  | returned (rc : LuaInteger)
  | cancelled
  | waiting
  deriving DecidableEq, Repr

/-- The loop of `cmd_write` over the lines to come. The results of the writes and of the
close are not looked at. -/
def cmdWriteLines (path : Bytes) : List ShellLine → HostProg CommandEnd
  | [] => return .waiting
  | line :: lines => do
      if line.eof then
        let _ ← fsClose
        let _ ← fsUnlink path
        return .cancelled
      else if line.text = [46] then
        let _ ← fsClose
        return .returned 0
      else
        if line.text.length > 0 then
          let _ ← fsWrite line.text
        let _ ← fsWrite [10]
        cmdWriteLines path lines

/-- `cmd_write`, with the keys typed after the prompt. -/
def cmdWrite (mountPoint : Bytes) (argv : List Bytes) (keys : List UInt8) :
    HostProg CommandEnd := do
  match argv with
  | _ :: name :: _ =>
      match buildShellPath mountPoint maxPath name with
      | .error rc => return .returned rc.code
      | .ok path =>
          match ← fsOpen path .createWrite with
          | .error rc => return .returned rc.code
          | .ok _ =>
              match ← fsTruncate 0 with
              | .error rc =>
                  let _ ← fsClose
                  return .returned rc.code
              | .ok _ => cmdWriteLines path (shellLines 256 keys [])
  | _ => return .returned Errno.einval.code

end LuaZephyr
