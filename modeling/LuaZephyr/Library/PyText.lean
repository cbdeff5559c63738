import Mathlib.Data.List.Basic

/-!
# Python's text functions

Texts are lists of characters. A file opened in text mode is read with universal
newlines; `str.replace`, `str.splitlines` and `str.join` are as Python documents them.

A text is here once it has been decoded; files that do not decode, and output that cannot be
encoded, are left out. Line boundaries are those of `str.splitlines`, of which the newline is
only one: a client that divides its text into other lines has to say so.
-/

namespace PyText

/-- The characters of a string literal. The literal is taken apart when this is
elaborated, so that evaluating a text need not decode it. -/
@[reducible] def chars (s : String) {text : List Char} (_ : s = String.ofList text := by rfl) :
    List Char := text

/-- What `open(path, "r").read()` makes of the line ends. -/
def universalNewlines : List Char → List Char
  | '\r' :: '\n' :: text => '\n' :: universalNewlines text
  | '\r' :: text => '\n' :: universalNewlines text
  | c :: text => c :: universalNewlines text
  | [] => []

/-- `str.replace` from the left, of which the first `skip` characters are passed over. -/
def replaceFrom (old new : List Char) : Nat → List Char → List Char
  | _, [] => []
  | skip + 1, _ :: text => replaceFrom old new skip text
  | 0, c :: text =>
      if old.isPrefixOf (c :: text) then new ++ replaceFrom old new (old.length - 1) text
      else c :: replaceFrom old new 0 text

/-- `text.replace(old, new)`, for an `old` that is not empty. -/
def replace (old new text : List Char) : List Char := replaceFrom old new 0 text

/-- The lines of a text with the characters that end them left out; `line` has been read
of the first. -/
def linesFrom (ends : Char → Bool) (line : List Char) : List Char → List (List Char)
  | [] => if line = [] then [] else [line]
  | c :: text =>
      if ends c then line :: linesFrom ends [] text else linesFrom ends (line ++ [c]) text

def isLineBoundary (c : Char) : Bool :=
  c ∈ ['\n', '\r', '\x0b', '\x0c', '\x1c', '\x1d', '\x1e', '\u0085', '\u2028', '\u2029']

/-- `text.splitlines()`. A carriage return and a newline after it are one boundary. -/
def splitlines (text : List Char) : List (List Char) :=
  linesFrom isLineBoundary [] (universalNewlines text)

/-- `sep.join(strings)`. -/
def join (sep : List Char) (strings : List (List Char)) : List Char :=
  List.intercalate sep strings

/-- `str(n)`. -/
def str (n : Nat) : List Char := Nat.toDigits 10 n

/-- `f"{n:02x}"`. -/
def format02x (n : Nat) : List Char := List.leftpad 2 '0' (Nat.toDigits 16 n)

theorem universalNewlines_cons {c : Char} (h : c ≠ '\r') (text : List Char) :
    universalNewlines (c :: text) = c :: universalNewlines text := by
  rw [universalNewlines]
  · rintro text' rfl -
    exact h rfl
  · exact h

theorem not_mem_universalNewlines (text : List Char) : '\r' ∉ universalNewlines text := by
  fun_induction universalNewlines text with
  | case1 text ih => simpa using ih
  | case2 text hno ih => simpa using ih
  | case3 c text hno hne ih =>
      rw [List.mem_cons, not_or]
      exact ⟨fun h => hne h.symm, ih⟩
  | case4 => exact List.not_mem_nil

theorem universalNewlines_eq_self {text : List Char} (h : '\r' ∉ text) :
    universalNewlines text = text := by
  induction text with
  | nil => rfl
  | cons c text ih =>
      rw [List.mem_cons, not_or] at h
      rw [universalNewlines_cons (Ne.symm h.1), ih h.2]

variable {old new : List Char}

theorem replaceFrom_eq (skip : Nat) (text : List Char) :
    replaceFrom old new skip text = replace old new (text.drop skip) := by
  induction text generalizing skip with
  | nil =>
      rw [List.drop_nil]
      cases skip <;> rfl
  | cons c text ih =>
      cases skip with
      | zero => rfl
      | succ skip => exact ih skip

@[simp] theorem replace_nil : replace old new [] = [] := rfl

theorem replace_cons {c : Char} {text : List Char} (h : ¬ old <+: c :: text) :
    replace old new (c :: text) = c :: replace old new text := by
  rw [replace, replaceFrom, if_neg (by simpa using h), replace]

theorem replace_append {rest : List Char} (hold : old ≠ []) :
    replace old new (old ++ rest) = new ++ replace old new rest := by
  obtain ⟨c, tail, rfl⟩ := List.exists_cons_of_ne_nil hold
  rw [replace, List.cons_append, replaceFrom, if_pos (by simp), replaceFrom_eq]
  simp

/-- Replacing one character. -/
theorem replace_singleton (c : Char) (text : List Char) :
    replace [c] new text = text.flatMap fun d => if d = c then new else [d] := by
  induction text with
  | nil => rfl
  | cons d text ih =>
      rw [List.flatMap_cons]
      by_cases hd : d = c
      · subst hd
        rw [if_pos rfl, ← ih]
        exact replace_append (List.cons_ne_nil d [])
      · rw [if_neg hd, ← ih, replace_cons]
        · rfl
        · rw [List.cons_prefix_cons]
          exact fun h => hd h.1.symm

/-- A text written out line by line, `before` and `after` each line and every other
character by `f`; `fresh` when nothing has been read of the line. -/
def perLine {α : Type} (ends : Char → Bool) (before after : List α) (f : Char → List α) :
    Bool → List Char → List α
  | true, [] => []
  | false, [] => after
  | fresh, c :: text =>
      (if fresh then before else []) ++
        if ends c then after ++ perLine ends before after f true text
        else f c ++ perLine ends before after f false text

/-- Working on each line comes to the same as working on the characters in order. -/
theorem flatMap_linesFrom {α : Type} (ends : Char → Bool) (before after : List α)
    (f : Char → List α) (line text : List Char) :
    (linesFrom ends line text).flatMap (fun l => before ++ l.flatMap f ++ after) =
      (if line = [] then [] else before ++ line.flatMap f) ++
        perLine ends before after f (line = []) text := by
  induction text generalizing line with
  | nil =>
      by_cases hline : line = []
      · simp [hline, linesFrom, perLine]
      · simp [hline, linesFrom, perLine]
  | cons c text ih =>
      rw [linesFrom, perLine]
      simp only [List.append_assoc] at ih ⊢
      by_cases hc : ends c = true
      · by_cases hline : line = []
        · simp [hc, hline, ih]
        · simp [hc, hline, ih]
      · by_cases hline : line = []
        · simp [hc, hline, ih]
        · simp [hc, hline, ih]

/-- Characters that end no line are written one by one. -/
theorem perLine_append {α : Type} {ends : Char → Bool} {before after : List α}
    {f : Char → List α} {first : List Char} (h : ∀ c ∈ first, ends c = false)
    (second : List Char) :
    perLine ends before after f false (first ++ second) =
      first.flatMap f ++ perLine ends before after f false second := by
  induction first with
  | nil => simp
  | cons c first ih =>
      have hc : ends c = false := h c (List.mem_cons_self ..)
      rw [List.cons_append, perLine, hc, if_neg Bool.false_ne_true,
        ih (fun d hd => h d (List.mem_cons_of_mem _ hd)), List.flatMap_cons, List.append_assoc]
      rfl

theorem join_cons (sep first : List Char) (strings : List (List Char)) :
    join sep (first :: strings) = first ++ strings.flatMap (sep ++ ·) := by
  induction strings generalizing first with
  | nil => simp [join]
  | cons second strings ih =>
      have hrest := ih second
      simp only [join, List.intercalate, List.intersperse_cons_cons, List.flatten_cons] at hrest ⊢
      rw [List.flatMap_cons, hrest, List.append_assoc]

theorem mem_join {sep : List Char} {strings : List (List Char)} {c : Char}
    (h : c ∈ join sep strings) : c ∈ sep ∨ ∃ text ∈ strings, c ∈ text := by
  cases strings with
  | nil => exact absurd h List.not_mem_nil
  | cons first strings =>
      rw [join_cons, List.mem_append, List.mem_flatMap] at h
      obtain h | ⟨text, htext, h⟩ := h
      · exact .inr ⟨first, List.mem_cons_self .., h⟩
      · obtain h | h := List.mem_append.mp h
        · exact .inl h
        · exact .inr ⟨text, List.mem_cons_of_mem _ htext, h⟩

theorem isUpper_iff {c : Char} : c.isUpper = true ↔ 65 ≤ c.toNat ∧ c.toNat ≤ 90 := by
  have hval : c.isUpper = decide ('A'.val ≤ c.val ∧ c.val ≤ 'Z'.val) := rfl
  rw [hval, decide_eq_true_iff, UInt32.le_iff_toNat_le, UInt32.le_iff_toNat_le]
  exact Iff.rfl

theorem isLower_iff {c : Char} : c.isLower = true ↔ 97 ≤ c.toNat ∧ c.toNat ≤ 122 := by
  have hval : c.isLower = (decide ('a'.val ≤ c.val) && decide (c.val ≤ 'z'.val)) := rfl
  rw [hval, Bool.and_eq_true, decide_eq_true_iff, decide_eq_true_iff, UInt32.le_iff_toNat_le,
    UInt32.le_iff_toNat_le]
  exact Iff.rfl

theorem isDigit_iff {c : Char} : c.isDigit = true ↔ 48 ≤ c.toNat ∧ c.toNat ≤ 57 := by
  simp [Char.isDigit, UInt32.le_iff_toNat_le, ← Char.toNat_val]

theorem toLower_of_not_isUpper {c : Char} (h : c.isUpper = false) : c.toLower = c := by
  have hnot : ¬ (c.val ≥ 'A'.val ∧ c.val ≤ 'Z'.val) := of_decide_eq_false h
  exact dif_neg hnot

theorem toNat_toLower {c : Char} (h : c.isUpper = true) : c.toLower.toNat = c.toNat + 32 := by
  have hupper := isUpper_iff.mp h
  have hval : c.val ≥ 'A'.val ∧ c.val ≤ 'Z'.val := of_decide_eq_true h
  have hlower : c.toLower.val = c.val + ('a'.val - 'A'.val) := congrArg Char.val (dif_pos hval)
  have hshift : ('a'.val - 'A'.val).toNat = 32 := rfl
  rw [← Char.toNat_val, hlower, UInt32.toNat_add, hshift, Char.toNat_val]
  omega

theorem not_isUpper_toLower (c : Char) : c.toLower.isUpper = false := by
  cases h : c.isUpper with
  | false => rw [toLower_of_not_isUpper h, h]
  | true =>
      have hupper := isUpper_iff.mp h
      have hlower := toNat_toLower h
      rw [Bool.eq_false_iff]
      intro hstill
      have hbound := isUpper_iff.mp hstill
      omega

end PyText
