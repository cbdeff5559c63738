import Mathlib.Data.List.DropRight
import Mathlib.Data.List.TakeWhile

/-!
# Names and templates in CMake

What CMake does to get a name from a path and to put it into a template: `cmake_path` with
`FILENAME` and `REMOVE_EXTENSION`, `string(TOUPPER)` and `configure_file`, as they are
documented for hosts that separate the parts of a path by slashes. `IsName` says of a path
and a name what the first two compute.

Paths are texts, and no file is looked at. Variables are replaced where `configure_file` finds
`@NAME@`; the other forms of reference, and lists with semicolons, are not covered. Names are of
ASCII characters where upper case is asked for.
-/

namespace CMake

/-- `cmake_path(GET <path> FILENAME <out>)`: what follows the last slash. -/
def filename (path : List Char) : List Char := path.rtakeWhile (· ≠ '/')

/-- `cmake_path(REMOVE_EXTENSION <path>)` for a file name. The extension starts at the
leftmost period, which a period in front is not; `.` and `..` have none. -/
def removeExtension (file : List Char) : List Char :=
  match file with
  | [] => []
  | c :: rest => if file = ['.', '.'] then file else c :: rest.takeWhile (· ≠ '.')

/-- `string(TOUPPER <string> <out>)` maps the ASCII letters. -/
def toupper (s : List Char) : List Char := s.map Char.toUpper

/-- A file name and what is left of it without its extension. -/
inductive HasName : List Char → List Char → Prop
  | empty : HasName [] []
  | dots : HasName ['.', '.'] ['.', '.']
  | plain {c : Char} {rest : List Char} (hrest : '.' ∉ rest) : HasName (c :: rest) (c :: rest)
  | extension {c : Char} {rest ext : List Char} (hrest : '.' ∉ rest)
      (hdots : c :: (rest ++ '.' :: ext) ≠ ['.', '.']) :
      HasName (c :: (rest ++ '.' :: ext)) (c :: rest)

/-- A path and what is left of it without directories and extension. -/
def IsName (path name : List Char) : Prop :=
  ∃ dir file, path = dir ++ file ∧ (dir = [] ∨ ∃ d, dir = d ++ ['/']) ∧ '/' ∉ file ∧
    HasName file name

theorem filename_append {dir file : List Char} (hdir : dir = [] ∨ ∃ d, dir = d ++ ['/'])
    (hfile : '/' ∉ file) : filename (dir ++ file) = file := by
  have hall : ∀ c ∈ file.reverse, (decide (c ≠ '/')) = true := by
    intro c hc
    exact decide_eq_true fun h => hfile (h ▸ List.mem_reverse.mp hc)
  unfold filename List.rtakeWhile
  rw [List.reverse_append, List.takeWhile_append_of_pos hall]
  obtain rfl | ⟨d, rfl⟩ := hdir
  · simp
  · simp

theorem slash_not_mem_filename (path : List Char) : '/' ∉ filename path := by
  intro h
  exact absurd (List.mem_rtakeWhile_imp h) (by simp)

/-- The directories of a path end in a slash. -/
theorem append_filename (path : List Char) :
    ∃ dir, path = dir ++ filename path ∧ (dir = [] ∨ ∃ d, dir = d ++ ['/']) := by
  refine ⟨path.rdropWhile (· ≠ '/'), (List.rdropWhile_append_rtakeWhile ..).symm, ?_⟩
  by_cases hnil : path.rdropWhile (· ≠ '/') = []
  · exact .inl hnil
  · have hlast := List.rdropWhile_last_not (· ≠ '/') path hnil
    have hslash : (path.rdropWhile (· ≠ '/')).getLast hnil = '/' := by simpa using hlast
    have hconcat := List.dropLast_append_getLast hnil
    rw [hslash] at hconcat
    exact .inr ⟨_, hconcat.symm⟩

theorem takeWhile_noPeriod {rest : List Char} (h : '.' ∉ rest) (ext : List Char) :
    (rest ++ ext).takeWhile (· ≠ '.') = rest ++ ext.takeWhile (· ≠ '.') := by
  refine List.takeWhile_append_of_pos fun d hd => decide_eq_true ?_
  rintro rfl
  exact h hd

/-- A file name has one name, and CMake finds it. -/
theorem hasName_iff {file name : List Char} :
    HasName file name ↔ removeExtension file = name := by
  constructor
  · intro h
    cases h with
    | empty => rfl
    | dots => rfl
    | @plain c rest hrest =>
        have hnone := takeWhile_noPeriod hrest []
        rw [List.append_nil, List.takeWhile_nil, List.append_nil] at hnone
        rw [removeExtension, hnone, ite_self]
    | @extension c rest ext hrest hdots =>
        have htake := takeWhile_noPeriod hrest ('.' :: ext)
        rw [removeExtension, if_neg hdots, htake]
        simp
  · rintro rfl
    cases file with
    | nil => exact .empty
    | cons c rest =>
        by_cases hdots : c :: rest = ['.', '.']
        · rw [hdots]
          exact .dots
        · have hrest : '.' ∉ rest.takeWhile (· ≠ '.') := by
            intro h
            exact absurd (List.mem_takeWhile_imp h) (by simp)
          rw [removeExtension, if_neg hdots]
          have hsplit := List.takeWhile_append_dropWhile (p := (· ≠ '.')) (l := rest)
          cases hext : rest.dropWhile (· ≠ '.') with
          | nil =>
              rw [hext, List.append_nil] at hsplit
              rw [hsplit] at hrest ⊢
              exact .plain hrest
          | cons d ext =>
              have hne : rest.dropWhile (· ≠ '.') ≠ [] := by rw [hext]; exact List.cons_ne_nil _ _
              have hd := List.head_dropWhile_not (· ≠ '.') hne
              simp only [hext, List.head_cons] at hd
              obtain rfl : d = '.' := by simpa using hd
              rw [hext] at hsplit
              have h : HasName (c :: (rest.takeWhile (· ≠ '.') ++ '.' :: ext)) _ :=
                .extension hrest (by rw [hsplit]; exact hdots)
              rwa [hsplit] at h

/-- A path has one name, and CMake finds it. -/
theorem isName_iff {path name : List Char} :
    IsName path name ↔ removeExtension (filename path) = name := by
  constructor
  · rintro ⟨dir, file, rfl, hdir, hslash, hname⟩
    rw [filename_append hdir hslash]
    exact hasName_iff.mp hname
  · intro h
    obtain ⟨dir, hpath, hdir⟩ := append_filename path
    exact ⟨dir, _, hpath, hdir, slash_not_mem_filename path, hasName_iff.mpr h⟩

/-- The characters of the name of a variable in a reference. -/
def isVariableChar (c : Char) : Bool := c.isAlphanum || c ∈ ['/', '_', '.', '+', '-']

/-- `configure_file` with the values of the variables, over the characters of a template.
`name` has been read of what may be a reference after an `@`. -/
def configureFrom (value : List Char → List Char) : Option (List Char) → List Char → List Char
  | none, [] => []
  | some name, [] => '@' :: name
  | none, c :: text =>
      if c = '@' then configureFrom value (some []) text else c :: configureFrom value none text
  | some name, c :: text =>
      if c = '@' then
        if name = [] then '@' :: configureFrom value (some []) text
        else value name ++ configureFrom value none text
      else if isVariableChar c then configureFrom value (some (name ++ [c])) text
      else '@' :: (name ++ c :: configureFrom value none text)

/-- What `configure_file` writes for a template: every `@NAME@` is replaced once. -/
def configure (value : List Char → List Char) (template : List Char) : List Char :=
  configureFrom value none template

variable {value : List Char → List Char}

/-- No reference goes over the end of a line. -/
theorem configureFrom_newline (name : Option (List Char)) (line rest : List Char) :
    configureFrom value name (line ++ '\n' :: rest) =
      configureFrom value name line ++ '\n' :: configure value rest := by
  induction line generalizing name with
  | nil =>
      cases name with
      | none => rfl
      | some name =>
          rw [List.nil_append, configureFrom, configureFrom, if_neg (by decide),
            if_neg (by decide)]
          rfl
  | cons c line ih =>
      rw [List.cons_append]
      cases name with
      | none =>
          rw [configureFrom, configureFrom]
          split
          · exact ih _
          · rw [ih, List.cons_append]
      | some name =>
          rw [configureFrom, configureFrom]
          split
          · split
            · rw [ih, List.cons_append]
            · rw [ih, List.append_assoc]
          · split
            · exact ih _
            · rw [ih, List.cons_append, List.append_assoc, List.cons_append]

/-- A template is configured line by line. -/
theorem configure_lines (lines : List (List Char)) :
    configure value (lines.flatMap (· ++ ['\n'])) =
      (lines.map (configure value)).flatMap (· ++ ['\n']) := by
  induction lines with
  | nil => rfl
  | cons line lines ih =>
      rw [List.flatMap_cons, List.append_assoc, List.singleton_append, configure,
        configureFrom_newline, ih, List.map_cons, List.flatMap_cons, List.append_assoc,
        List.singleton_append]
      rfl

end CMake
