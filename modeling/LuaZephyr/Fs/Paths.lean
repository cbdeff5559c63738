import LuaZephyr.Fs.Listing

/-!
# Three ways to name a file

`build_path`, `build_shell_path` and `l_fs_list` each put a relative path behind the mount
point with `snprintf`. The first two look at its result; `l_fs_list` goes on with what fits
in its buffer, and takes an absolute path of any length.

Names are bytes without NULs, as C strings are. What the file system makes of a path, such as
`..` or two slashes in a row, is its own affair and not modelled; two paths are the same here
only when their bytes are.
-/

namespace LuaZephyr

open Outcome

/-- The path itself when it is absolute, or behind the mount point. -/
def absolutePath (mountPoint path : Bytes) : Bytes :=
  if path.head? = some 47 then path else mountPoint ++ 47 :: path

/-- `build_path` with its `snprintf`. -/
def buildPathSnprintf (mountPoint path : Bytes) : Except Errno Bytes :=
  if path.head? = some 47 then
    if path.length ≥ maxPath then .error .enametoolong else .ok path
  else
    let printed := CString.snprintf maxPath (mountPoint ++ 47 :: path)
    if printed.2 < 0 ∨ printed.2 ≥ maxPath then .error .enametoolong else .ok printed.1

/-- `build_shell_path` with its `snprintf`, whose result is compared as a `size_t`. -/
def buildShellPathSnprintf (mountPoint : Bytes) (buflen : Nat) (name : Bytes) :
    Except Errno Bytes :=
  if name.head? = some 47 then
    if name.length ≥ buflen then .error .enametoolong else .ok name
  else
    let printed := CString.snprintf buflen (mountPoint ++ 47 :: name)
    if printed.2 < 0 ∨ printed.2.toNat ≥ buflen then .error .enametoolong else .ok printed.1

theorem joinPath_eq (mountPoint : Bytes) (buflen : Nat) (path : Bytes) :
    joinPath mountPoint buflen path =
      if buflen ≤ (absolutePath mountPoint path).length then .error .enametoolong
      else .ok (absolutePath mountPoint path) := by
  rw [joinPath, absolutePath]
  split
  · rfl
  · rfl

theorem buildPathSnprintf_eq (mountPoint path : Bytes) :
    buildPathSnprintf mountPoint path = buildPath mountPoint path := by
  rw [buildPathSnprintf, buildPath, joinPath]
  split
  · rfl
  · have hcut := CString.snprintf_cut_iff (n := maxPath) (by decide) (mountPoint ++ 47 :: path)
    simp only [ge_iff_le, hcut]
    split
    · rfl
    · rename_i hfits
      rw [CString.snprintf_fits (Nat.lt_of_not_le hfits)]

theorem buildShellPathSnprintf_eq (mountPoint : Bytes) {buflen : Nat} (hlen : buflen < 2 ^ 31)
    (name : Bytes) :
    buildShellPathSnprintf mountPoint buflen name = buildShellPath mountPoint buflen name := by
  rw [buildShellPathSnprintf, buildShellPath, joinPath]
  split
  · rfl
  · have hcut := CString.snprintf_cut_iff hlen (mountPoint ++ 47 :: name)
    have hnat : (CString.snprintf buflen (mountPoint ++ 47 :: name)).2 < 0 ∨
        (CString.snprintf buflen (mountPoint ++ 47 :: name)).2.toNat ≥ buflen ↔
        buflen ≤ (mountPoint ++ 47 :: name).length := by
      rw [← hcut]
      omega
    simp only [hnat]
    split
    · rfl
    · rename_i hfits
      rw [CString.snprintf_fits (Nat.lt_of_not_le hfits)]

/-- A path that fits is the same everywhere. -/
theorem lFsListPath_fits {mountPoint path : Bytes}
    (h : (absolutePath mountPoint path).length < maxPath) :
    lFsListPath mountPoint path = absolutePath mountPoint path := by
  rw [absolutePath] at h ⊢
  rw [lFsListPath]
  split
  · rfl
  · rename_i hrelative
    rw [if_neg hrelative] at h
    exact CString.snprintf_fits h

/-- The loaders, the shell commands and `fs.list` use the same absolute path for this argument,
or, where it does not fit, all report an error. -/
def PathsAgree (mountPoint argument : Bytes) : Prop :=
  if (absolutePath mountPoint (CString.text argument)).length ≤ maxPath - 1 then
    buildPathSnprintf mountPoint (CString.text argument) =
        .ok (absolutePath mountPoint (CString.text argument)) ∧
      buildShellPathSnprintf mountPoint maxPath (CString.text argument) =
        .ok (absolutePath mountPoint (CString.text argument)) ∧
      lFsListPath mountPoint (CString.text argument) =
        absolutePath mountPoint (CString.text argument)
  else
    (∃ rc, buildPathSnprintf mountPoint (CString.text argument) = .error rc) ∧
      (∃ rc, buildShellPathSnprintf mountPoint maxPath (CString.text argument) = .error rc) ∧
      ∀ (β : Type) (tgt : Target) (fsOpendir : Bytes → Except Errno DirStream) (s : State β),
        wp (callFsList tgt mountPoint fsOpendir [.string argument]) (fun _ _ => False)
          (fun e _ => ∃ le, e = .error le) s

/-- `fs.list` lists a directory also under a path that does not fit. -/
theorem not_pathsAgree {mountPoint argument : Bytes}
    (hlong : ¬ (absolutePath mountPoint (CString.text argument)).length ≤ maxPath - 1) :
    ¬ PathsAgree mountPoint argument := by
  rw [PathsAgree, if_neg hlong]
  rintro ⟨-, -, hlist⟩
  exact hlist Unit Target.sample (fun _ => .ok ⟨[], fun _ => none⟩) (.idle 0 ())

/-- They agree exactly about the paths that fit. Of the others `l_fs_list` takes some that the first
two refuse. -/
theorem pathsAgree_iff (mountPoint argument : Bytes) :
    PathsAgree mountPoint argument ↔
      (absolutePath mountPoint (CString.text argument)).length ≤ 63 := by
  by_cases hfits : (absolutePath mountPoint (CString.text argument)).length ≤ maxPath - 1
  · have hlt : (absolutePath mountPoint (CString.text argument)).length < maxPath :=
      Nat.lt_of_le_of_lt hfits (by decide)
    rw [PathsAgree, if_pos hfits, buildPathSnprintf_eq,
      buildShellPathSnprintf_eq _ (by decide), buildPath, buildShellPath, joinPath_eq,
      if_neg (Nat.not_le_of_lt hlt)]
    exact iff_of_true ⟨rfl, rfl, lFsListPath_fits hlt⟩ hfits
  · exact iff_of_false (not_pathsAgree hfits) hfits

/-- A name that is one character too long. -/
def longName : Bytes := List.replicate 58 0x61 ++ [0x62]

/-- `fs.list` lists the directory without the last character. -/
theorem not_pathsAgree_longName :
    ¬ PathsAgree (ascii "/lfs") longName ∧
      lFsListPath (ascii "/lfs") (CString.text longName) =
        ascii "/lfs/" ++ List.replicate 58 0x61 :=
  ⟨not_pathsAgree (by decide +kernel), by decide +kernel⟩

end LuaZephyr
