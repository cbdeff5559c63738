import Mathlib.Data.List.TakeWhile
import LuaZephyr.Library.CLexing
import LuaZephyr.Library.PyText

/-!
# Integer constants of C, and lists of them

How the compiler reads an integer constant (decimal, octal or hexadecimal, with its suffix)
and a braced list of such constants. Numbers that Python writes out in decimal or in
hexadecimal are read back as they were.

Expressions, character constants and floating constants are not covered, and neither is the type
a constant gets from its size; a client that initialises an array of bytes has to see that its
numbers fit. What is not of this form has no value.
-/

namespace CConstants

open CLexing PyText

def digitValue (c : Char) : Option Nat :=
  if '0' ≤ c ∧ c ≤ '9' then some (c.toNat - '0'.toNat)
  else if 'a' ≤ c ∧ c ≤ 'f' then some (c.toNat - 'a'.toNat + 10)
  else if 'A' ≤ c ∧ c ≤ 'F' then some (c.toNat - 'A'.toNat + 10)
  else none

/-- The number spelled by digits, after digits that spell `n`. -/
def number (base : Nat) : Nat → List Char → Option Nat
  | n, [] => some n
  | n, c :: text =>
      match digitValue c with
      | some d => if d < base then number base (base * n + d) text else none
      | none => none

/-- A constant without its suffix. -/
def unsuffixed : List Char → Option Nat
  | [] => none
  | '0' :: x :: c :: text =>
      if x = 'x' ∨ x = 'X' then number 16 0 (c :: text) else number 8 0 (x :: c :: text)
  | '0' :: text => number 8 0 text
  | c :: text => number 10 0 (c :: text)

def isSuffixChar (c : Char) : Bool := c ∈ ['u', 'U', 'l', 'L']

/-- The suffixes for `unsigned`, `long` and `long long`, in either order. -/
def suffixes : List (List Char) :=
  let unsigned := [['u'], ['U']]
  let long := [['l'], ['L'], ['l', 'l'], ['L', 'L']]
  [] :: unsigned ++ long ++ unsigned.flatMap (fun u => long.map (u ++ ·)) ++
    long.flatMap (fun l => unsigned.map (l ++ ·))

/-- The value of an integer constant; none for any other word. -/
def integerConstant (text : List Char) : Option Nat :=
  if text.dropWhile (!isSuffixChar ·) ∈ suffixes then
    unsuffixed (text.takeWhile (!isSuffixChar ·))
  else none

/-- Constants with commas between them. One more comma may follow the last. -/
def constants : List Kind → Option (List Nat)
  | [] => some []
  | [.word text] => (integerConstant text).map ([·])
  | .word text :: .other ',' :: kinds =>
      match integerConstant text, constants kinds with
      | some n, some ns => some (n :: ns)
      | _, _ => none
  | _ => none

/-- The lexemes of a text of its own. -/
def kinds (text : List Char) : Option (List Kind) :=
  (lex (text.map fun c => (c, ()))).map fun ls => ls.map Lexeme.kind

/-- The values in an initialiser, which is a braced list of constants. -/
def initialiser (text : List Char) : Option (List Nat) :=
  match kinds text with
  | some (.other '{' :: ks) =>
      if ks.getLast? = some (.other '}') then constants ks.dropLast else none
  | _ => none

/-- The value of a text that is one integer constant. -/
def constant (text : List Char) : Option Nat :=
  match kinds text with
  | some [.word word] => integerConstant word
  | _ => none

variable {base : Nat}

theorem digitValue_digitChar {d : Nat} (h : d < 16) : digitValue (Nat.digitChar d) = some d := by
  decide +revert

theorem isWordChar_digitChar {d : Nat} (h : d < 16) : isWordChar (Nat.digitChar d) = true := by
  decide +revert

theorem not_isSuffixChar_digitChar {d : Nat} (h : d < 16) :
    isSuffixChar (Nat.digitChar d) = false := by
  decide +revert

theorem number_append (n : Nat) (first second : List Char) :
    number base n (first ++ second) = (number base n first).bind (number base · second) := by
  induction first generalizing n with
  | nil => rfl
  | cons c first ih =>
      rw [List.cons_append, number, number]
      cases digitValue c with
      | none => rfl
      | some d =>
          by_cases hd : d < base
          · simp [hd, ih]
          · simp [hd]

/-- Digits are read back as the number they were written for. -/
theorem number_toDigits (hlo : 1 < base) (hhi : base ≤ 16) (n : Nat) :
    number base 0 (Nat.toDigits base n) = some n := by
  induction n using Nat.base_induction base hlo with
  | single n hn =>
      rw [Nat.toDigits_of_lt_base hn, number, digitValue_digitChar (by omega)]
      simp [hn, number]
  | digit n d hd hn ih =>
      rw [← Nat.toDigits_append_toDigits hlo hn hd, number_append, ih, Option.bind_some,
        Nat.toDigits_of_lt_base hd, number, digitValue_digitChar (by omega)]
      simp [hd, number]

theorem mem_toDigits (hlo : 1 < base) {n : Nat} {c : Char} (h : c ∈ Nat.toDigits base n) :
    ∃ d < base, c = Nat.digitChar d := by
  induction n using Nat.base_induction base hlo with
  | single n hn =>
      rw [Nat.toDigits_of_lt_base hn] at h
      exact ⟨n, hn, List.mem_singleton.mp h⟩
  | digit n d hd hn ih =>
      rw [← Nat.toDigits_append_toDigits hlo hn hd, Nat.toDigits_of_lt_base hd] at h
      obtain h | h := List.mem_append.mp h
      · exact ih h
      · exact ⟨d, hd, List.mem_singleton.mp h⟩

/-- No positive number is written with a zero at its head. -/
theorem head_toDigits (hlo : 1 < base) {n : Nat} (h : 0 < n) (hhi : base ≤ 16) :
    (Nat.toDigits base n).head? ≠ some '0' := by
  induction n using Nat.base_induction base hlo with
  | single n hn =>
      rw [Nat.toDigits_of_lt_base hn, List.head?_cons]
      intro hzero
      have hvalue := digitValue_digitChar (d := n) (by omega)
      rw [Option.some.inj hzero] at hvalue
      have hn : n = 0 := (Option.some.inj hvalue).symm
      omega
  | digit n d hd hn ih =>
      rw [← Nat.toDigits_append_toDigits hlo hn hd,
        List.head?_append_of_ne_nil _ Nat.toDigits_ne_nil]
      exact ih hn

theorem integerConstant_of_plain {text : List Char} (h : ∀ c ∈ text, isSuffixChar c = false) :
    integerConstant text = unsuffixed text := by
  have hall : ∀ c ∈ text, (!isSuffixChar c) = true := fun c hc => by simp [h c hc]
  rw [integerConstant, List.dropWhile_eq_nil_iff.mpr hall, List.takeWhile_eq_self_iff.mpr hall]
  rfl

/-- `str(n)` is a decimal constant, or the octal zero. -/
theorem integerConstant_str (n : Nat) : integerConstant (str n) = some n := by
  rw [str, integerConstant_of_plain]
  · obtain rfl | hn := Nat.eq_zero_or_pos n
    · rfl
    · have hhead := head_toDigits (show 1 < 10 by decide) hn (by decide)
      have hnumber := number_toDigits (show 1 < 10 by decide) (by decide) n
      cases htext : Nat.toDigits 10 n with
      | nil => exact absurd htext Nat.toDigits_ne_nil
      | cons c text =>
          rw [htext] at hhead hnumber
          rw [unsuffixed, hnumber]
          · rintro x d text rfl
            exact absurd rfl hhead
          · rintro rfl
            exact absurd rfl hhead
  · intro c hc
    obtain ⟨d, hd, rfl⟩ := mem_toDigits (by decide) hc
    exact not_isSuffixChar_digitChar (by omega)

theorem number_zeros (hlo : 0 < base) (k : Nat) (text : List Char) :
    number base 0 (List.replicate k '0' ++ text) = number base 0 text := by
  induction k with
  | zero => rfl
  | succ k ih =>
      have hzero : digitValue '0' = some 0 := rfl
      rw [List.replicate_succ, List.cons_append, number, hzero]
      simpa [hlo] using ih

/-- Padding with zeros changes no number. -/
theorem number_format02x (n : Nat) : number 16 0 (format02x n) = some n := by
  rw [format02x, List.leftpad, number_zeros (by decide), number_toDigits (by decide) (by decide)]

theorem format02x_ne_nil (n : Nat) : format02x n ≠ [] :=
  List.append_ne_nil_of_right_ne_nil _ Nat.toDigits_ne_nil

theorem mem_format02x {n : Nat} {c : Char} (h : c ∈ format02x n) :
    ∃ d < 16, c = Nat.digitChar d := by
  obtain h | h := List.mem_append.mp h
  · exact ⟨0, by decide, (List.mem_replicate.mp h).2⟩
  · exact mem_toDigits (by decide) h

/-- `f"0x{n:02x}"` is a hexadecimal constant. -/
theorem integerConstant_hex (n : Nat) :
    integerConstant ('0' :: 'x' :: format02x n) = some n := by
  rw [integerConstant_of_plain]
  · obtain ⟨c, text, htext⟩ := List.exists_cons_of_ne_nil (format02x_ne_nil n)
    have hnumber := number_format02x n
    rw [htext] at hnumber ⊢
    simpa [unsuffixed] using hnumber
  · intro c hc
    rw [List.mem_cons, List.mem_cons] at hc
    obtain rfl | rfl | hc := hc
    · decide
    · decide
    · obtain ⟨d, hd, rfl⟩ := mem_format02x hc
      exact not_isSuffixChar_digitChar hd

/-- A word in the sense of the lexer. -/
def IsWord (text : List Char) : Prop := text ≠ [] ∧ ∀ c ∈ text, isWordChar c = true

/-- What the lexer makes of a text that follows code, up to the mode it ends in. -/
def kindsFrom (m : Mode Unit) (text : List Char) : List Kind × Mode Unit :=
  ((lexFrom m (text.map fun c => (c, ()))).1.map Lexeme.kind,
    (lexFrom m (text.map fun c => (c, ()))).2)

theorem kindsFrom_cons (m : Mode Unit) (c : Char) (text : List Char) :
    kindsFrom m (c :: text) = ((m.step (c, ())).1.map Lexeme.kind ++
      (kindsFrom (m.step (c, ())).2 text).1, (kindsFrom (m.step (c, ())).2 text).2) := by
  simp [kindsFrom, lexFrom_cons]

theorem not_isSpace_of_isWordChar {c : Char} (h : isWordChar c = true) : isSpace c = false := by
  rw [Bool.eq_false_iff]
  intro hspace
  have hmem : c ∈ [' ', '\t', '\n', '\x0b', '\x0c'] := by simpa [isSpace] using hspace
  simp only [List.mem_cons, List.not_mem_nil, or_false] at hmem
  obtain rfl | rfl | rfl | rfl | rfl := hmem <;> exact absurd h (by decide)

theorem kindsFrom_word_chars (before : List Char) {text : List Char}
    (h : ∀ c ∈ text, isWordChar c = true) (rest : List Char) :
    kindsFrom (.word before () ()) (text ++ rest) =
      kindsFrom (.word (before ++ text) () ()) rest := by
  induction text generalizing before with
  | nil => simp
  | cons c text ih =>
      obtain ⟨hc, htext⟩ := List.forall_mem_cons.mp h
      rw [List.cons_append, kindsFrom_cons, Mode.step, if_pos hc, ih _ htext, List.append_assoc]
      rfl

/-- A word ends where a character that belongs to none follows. -/
theorem kindsFrom_word {word : List Char} (h : IsWord word) {c : Char}
    (hc : isWordChar c = false) (rest : List Char) :
    kindsFrom .code (word ++ c :: rest) =
      (.word word :: (kindsFrom .code (c :: rest)).1, (kindsFrom .code (c :: rest)).2) := by
  obtain ⟨hne, hchars⟩ := h
  obtain ⟨d, text, rfl⟩ := List.exists_cons_of_ne_nil hne
  obtain ⟨hd, htext⟩ := List.forall_mem_cons.mp hchars
  have hstart : Mode.step (.code : Mode Unit) (d, ()) = ([], .word [d] () ()) := by
    simp [Mode.step, Mode.start, not_isSpace_of_isWordChar hd, hd]
  rw [List.cons_append, kindsFrom_cons, hstart, kindsFrom_word_chars _ htext, kindsFrom_cons,
    Mode.step, hc, kindsFrom_cons]
  rfl

/-- Words with commas between them. -/
def commas : List (List Char) → List Kind
  | [] => []
  | [word] => [.word word]
  | word :: words => .word word :: .other ',' :: commas words

theorem kindsFrom_join {words : List (List Char)} (h : ∀ word ∈ words, IsWord word)
    {c : Char} (hc : isWordChar c = false) (rest : List Char) :
    kindsFrom .code (join [',', ' '] words ++ c :: rest) =
      (commas words ++ (kindsFrom .code (c :: rest)).1, (kindsFrom .code (c :: rest)).2) := by
  induction words with
  | nil => rfl
  | cons word words ih =>
      obtain ⟨hword, hwords⟩ := List.forall_mem_cons.mp h
      cases words with
      | nil =>
          have hjoin : join [',', ' '] [word] = word := by simp [join_cons]
          rw [hjoin, kindsFrom_word hword hc]
          rfl
      | cons second words =>
          have hjoin : join [',', ' '] (word :: second :: words) =
              word ++ ',' :: ' ' :: join [',', ' '] (second :: words) := by
            simp [join_cons]
          have hcomma : Mode.step (.code : Mode Unit) (',', ()) =
            ([⟨.other ',', (), ()⟩], .code) := rfl
          have hspace : Mode.step (.code : Mode Unit) (' ', ()) = ([], .code) := rfl
          rw [hjoin, List.append_assoc, List.cons_append, List.cons_append,
            kindsFrom_word hword (by decide), kindsFrom_cons, hcomma, kindsFrom_cons, hspace,
            ih hwords]
          rfl

theorem kinds_of_line {text : List Char} (h : '\n' ∉ text) :
    kinds text = ((kindsFrom .code text).2.finish.map fun ls =>
      (kindsFrom .code text).1 ++ ls.map Lexeme.kind) := by
  have hline : ∀ c ∈ text.map fun c => (c, ()), c.1 ≠ '\n' := by
    intro c hc hnewline
    obtain ⟨d, hd, rfl⟩ := List.mem_map.mp hc
    exact h (hnewline ▸ hd)
  rw [kinds, lex, splice_eq_self hline, Option.map_map]
  simp [kindsFrom, Function.comp_def]

theorem constants_commas {words : List (List Char)} {ns : List Nat}
    (h : words.map integerConstant = ns.map some) : constants (commas words) = some ns := by
  induction words generalizing ns with
  | nil =>
      obtain rfl := List.map_eq_nil_iff.mp h.symm
      rfl
  | cons word words ih =>
      cases ns with
      | nil => contradiction
      | cons n ns =>
          obtain ⟨hword, hwords⟩ := List.cons.inj h
          have hrest := ih hwords
          cases words with
          | nil =>
              obtain rfl := List.map_eq_nil_iff.mp hwords.symm
              rw [commas, constants, hword]
              rfl
          | cons second words =>
              rw [commas, constants, hword, hrest]
              simp

theorem constant_of_isWord {word : List Char} (h : IsWord word) :
    constant word = integerConstant word := by
  obtain ⟨hne, hchars⟩ := h
  have hline : '\n' ∉ word := fun hnewline => absurd (hchars '\n' hnewline) (by decide)
  obtain ⟨d, text, rfl⟩ := List.exists_cons_of_ne_nil hne
  obtain ⟨hd, htext⟩ := List.forall_mem_cons.mp hchars
  have hstart : Mode.step (.code : Mode Unit) (d, ()) = ([], .word [d] () ()) := by
    simp [Mode.step, Mode.start, not_isSpace_of_isWordChar hd, hd]
  have hkinds : kindsFrom .code (d :: text) = ([], .word (d :: text) () ()) := by
    have hrest := kindsFrom_word_chars [d] htext []
    rw [List.append_nil] at hrest
    rw [kindsFrom_cons, hstart, hrest]
    rfl
  rw [constant, kinds_of_line hline, hkinds]
  rfl

/-- A list of constants is read as it was written. -/
theorem initialiser_join {words : List (List Char)} (h : ∀ word ∈ words, IsWord word)
    {ns : List Nat} (hns : words.map integerConstant = ns.map some) :
    initialiser ('{' :: ' ' :: join [',', ' '] words ++ [' ', '}']) = some ns := by
  have hopen : Mode.step (.code : Mode Unit) ('{', ()) = ([⟨.other '{', (), ()⟩], .code) := rfl
  have hspace : Mode.step (.code : Mode Unit) (' ', ()) = ([], .code) := rfl
  have hclose : kindsFrom .code [' ', '}'] = ([.other '}'], .code) := rfl
  have hkinds : kindsFrom .code ('{' :: ' ' :: join [',', ' '] words ++ [' ', '}']) =
      (.other '{' :: (commas words ++ [.other '}']), .code) := by
    rw [List.cons_append, List.cons_append, kindsFrom_cons, hopen, kindsFrom_cons, hspace,
      kindsFrom_join h (by decide), hclose]
    rfl
  have hline : '\n' ∉ '{' :: ' ' :: join [',', ' '] words ++ [' ', '}'] := by
    intro hnewline
    have hmem : '\n' ∈ join [',', ' '] words := by simpa using hnewline
    obtain hsep | ⟨word, hword, hchar⟩ := mem_join hmem
    · simp at hsep
    · exact absurd ((h word hword).2 '\n' hchar) (by decide)
  rw [initialiser, kinds_of_line hline, hkinds]
  simp [Mode.finish, constants_commas hns]

end CConstants
