import Mathlib.Data.List.Infix
import LuaZephyr.Library.Runs

/-!
# The lexical structure of C

Translation phases 2 and 3. A backslash right before a newline is removed together with
it; what remains is divided into comments, literals, words and other characters. Every
character carries a mark, and each of these pieces keeps the marks of its first and last
character, so that one can say where it begins and ends.
-/

namespace CLexing

open Runs

variable {τ : Type}

/-- Line splicing. What a splice joins is not spliced again. -/
def splice : List (Char × τ) → List (Char × τ)
  | ('\\', _) :: ('\n', _) :: text => splice text
  | c :: text => c :: splice text
  | [] => []

/-- A word is an identifier or a number, a literal a string or character constant
without its delimiters. -/
inductive Kind where
  | comment
  | literal (delimiter : Char) (spelling : List Char)
  | word (text : List Char)
  | other (c : Char)
  deriving DecidableEq, Repr

structure Lexeme (τ : Type) where
  kind : Kind
  first : τ
  last : τ
  deriving DecidableEq, Repr

/-- What the text read so far leaves open. -/
inductive Mode (τ : Type) where
  | code
  | word (text : List Char) (first last : τ)
  | slash (first : τ)
  | block (first : τ) (star : Bool)
  | line (first : τ)
  | quoted (delimiter : Char) (spelling : List Char) (escaped : Bool) (first : τ)
  /-- A newline in a literal. -/
  | invalid
  deriving DecidableEq, Repr

def isWordChar (c : Char) : Bool := c.isAlphanum || c = '_'

def isSpace (c : Char) : Bool := c ∈ [' ', '\t', '\n', '\x0b', '\x0c']

/-- A character outside comments, literals and words. -/
def Mode.start (c : Char) (t : τ) : List (Lexeme τ) × Mode τ :=
  if isSpace c then ([], .code)
  else if isWordChar c then ([], .word [c] t t)
  else if c = '/' then ([], .slash t)
  else if c = '"' ∨ c = '\'' then ([], .quoted c [] false t)
  else ([⟨.other c, t, t⟩], .code)

/-- The lexemes a character completes. -/
def Mode.step : Mode τ → Char × τ → List (Lexeme τ) × Mode τ
  | .code, (c, t) => start c t
  | .word text first last, (c, t) =>
      if isWordChar c then ([], .word (text ++ [c]) first t)
      else (⟨.word text, first, last⟩ :: (start c t).1, (start c t).2)
  | .slash first, (c, t) =>
      if c = '*' then ([], .block first false)
      else if c = '/' then ([], .line first)
      else (⟨.other '/', first, first⟩ :: (start c t).1, (start c t).2)
  | .block first star, (c, t) =>
      if star = true ∧ c = '/' then ([⟨.comment, first, t⟩], .code)
      else ([], .block first (c = '*'))
  | .line first, (c, t) =>
      if c = '\n' then ([⟨.comment, first, t⟩], .code) else ([], .line first)
  | .quoted delimiter spelling escaped first, (c, t) =>
      if c = '\n' then ([], .invalid)
      else if escaped then ([], .quoted delimiter (spelling ++ [c]) false first)
      else if c = delimiter then ([⟨.literal delimiter spelling, first, t⟩], .code)
      else ([], .quoted delimiter (spelling ++ [c]) (c = '\\') first)
  | .invalid, _ => ([], .invalid)

/-- The lexeme the end of the file completes; none when a comment or literal is open. -/
def Mode.finish : Mode τ → Option (List (Lexeme τ))
  | .code => some []
  | .word text first last => some [⟨.word text, first, last⟩]
  | .slash first => some [⟨.other '/', first, first⟩]
  | _ => none

/-- The lexemes of a text read from a mode, and the mode it ends in. -/
def lexFrom (m : Mode τ) (text : List (Char × τ)) : List (Lexeme τ) × Mode τ :=
  ((run Mode.step m text).1.flatMap Prod.snd, (run Mode.step m text).2)

/-- The lexemes of a whole file. -/
def lex (text : List (Char × τ)) : Option (List (Lexeme τ)) :=
  (lexFrom .code (splice text)).2.finish.map ((lexFrom .code (splice text)).1 ++ ·)

@[simp] theorem lexFrom_nil (m : Mode τ) : lexFrom m [] = ([], m) := rfl

theorem lexFrom_cons (m : Mode τ) (c : Char × τ) (text : List (Char × τ)) :
    lexFrom m (c :: text) =
      ((m.step c).1 ++ (lexFrom (m.step c).2 text).1, (lexFrom (m.step c).2 text).2) := rfl

theorem lexFrom_append (m : Mode τ) (first second : List (Char × τ)) :
    lexFrom m (first ++ second) =
      ((lexFrom m first).1 ++ (lexFrom (lexFrom m first).2 second).1,
        (lexFrom (lexFrom m first).2 second).2) := by
  simp only [lexFrom, run_append, List.flatMap_append]

theorem splice_cons {c : Char × τ} (h : c.1 ≠ '\\') (text : List (Char × τ)) :
    splice (c :: text) = c :: splice text := by
  obtain ⟨c, t⟩ := c
  rw [splice]
  rintro t' t'' text' heq -
  exact h (Prod.mk.inj heq).1

theorem splice_backslash {c : Char × τ} (h : c.1 ≠ '\n') (t : τ) (text : List (Char × τ)) :
    splice (('\\', t) :: c :: text) = ('\\', t) :: splice (c :: text) := by
  obtain ⟨c, t'⟩ := c
  rw [splice]
  rintro t₁ t₂ text' - heq
  exact h (Prod.mk.inj (List.cons.inj heq).1).1

/-- A text that does not end in a backslash is spliced by itself. -/
theorem splice_append {first : List (Char × τ)}
    (h : first.getLast?.map Prod.fst ≠ some '\\') (second : List (Char × τ)) :
    splice (first ++ second) = splice first ++ splice second := by
  fun_induction splice first with
  | case1 t t' text ih =>
      have htext : text.getLast?.map Prod.fst ≠ some '\\' := by
        cases text with
        | nil => simp
        | cons c text => simpa [List.getLast?_cons_cons] using h
      simpa [splice] using ih htext
  | case2 c text hno ih =>
      cases text with
      | nil =>
          have hc : c.1 ≠ '\\' := by simpa using h
          simp [splice_cons hc, splice]
      | cons d text =>
          have htext : (d :: text).getLast?.map Prod.fst ≠ some '\\' := by
            simpa [List.getLast?_cons_cons] using h
          rw [List.cons_append, List.cons_append, List.cons_append, ← ih htext]
          by_cases hc : c.1 = '\\'
          · obtain ⟨c, t⟩ := c
            obtain rfl : c = '\\' := hc
            have hd : d.1 ≠ '\n' := by
              rintro hd
              exact hno t d.2 text rfl (by rw [← hd])
            rw [splice_backslash hd]
            rfl
          · rw [splice_cons hc]
            rfl
  | case3 => rfl

/-- A text of one line has nothing to splice. -/
theorem splice_eq_self {text : List (Char × τ)} (h : ∀ c ∈ text, c.1 ≠ '\n') :
    splice text = text := by
  fun_induction splice text with
  | case1 t t' text ih => exact absurd rfl (h ('\n', t') (by simp))
  | case2 c text hno ih => rw [ih (fun d hd => h d (List.mem_cons_of_mem _ hd))]
  | case3 => rfl

/-- A text without backslashes and newlines is not spliced, nor is its end. -/
theorem splice_append_of_plain {first : List (Char × τ)}
    (h : ∀ c ∈ first, c.1 ≠ '\\' ∧ c.1 ≠ '\n') (second : List (Char × τ)) :
    splice (first ++ second) = first ++ splice second := by
  have hlast : first.getLast?.map Prod.fst ≠ some '\\' := by
    intro hlast
    obtain ⟨c, hc, hbackslash⟩ := Option.map_eq_some_iff.mp hlast
    exact (h c (List.mem_of_getLast? hc)).1 hbackslash
  rw [splice_append hlast, splice_eq_self fun c hc => (h c hc).2]

theorem mem_of_mem_splice {text : List (Char × τ)} {c : Char × τ} (h : c ∈ splice text) :
    c ∈ text := by
  fun_induction splice text with
  | case1 t t' text ih => exact List.mem_cons_of_mem _ (List.mem_cons_of_mem _ (ih h))
  | case2 d text hno ih =>
      obtain rfl | h := List.mem_cons.mp h
      · exact List.mem_cons_self ..
      · exact List.mem_cons_of_mem _ (ih h)
  | case3 => exact h

/-- A text without the end of a comment stays in the comment. -/
theorem lexFrom_block {first : τ} {star : Bool} {text : List (Char × τ)}
    (hstar : star = true → text.head?.map Prod.fst ≠ some '/')
    (h : ¬ ['*', '/'] <:+: text.map Prod.fst) :
    ∃ star', lexFrom (.block first star) text = ([], .block first star') := by
  induction text generalizing star with
  | nil => exact ⟨star, rfl⟩
  | cons c text ih =>
      obtain ⟨c, t⟩ := c
      rw [List.map_cons, List.infix_cons_iff, not_or] at h
      have hopen : ¬ (star = true ∧ c = '/') := by
        rintro ⟨hs, rfl⟩
        exact hstar hs rfl
      have hnext : (c = '*') = true → text.head?.map Prod.fst ≠ some '/' := by
        rintro hc hslash
        obtain ⟨⟨d, t'⟩, hd, rfl⟩ := Option.map_eq_some_iff.mp hslash
        obtain ⟨rest, rfl⟩ := List.head?_eq_some_iff.mp hd
        obtain rfl : c = '*' := by simpa using hc
        exact h.1 (by simp)
      obtain ⟨star', hrest⟩ := @ih (decide (c = '*')) (by simpa using hnext) h.2
      exact ⟨star', by simp only [lexFrom_cons, Mode.step, if_neg hopen, hrest, List.nil_append]⟩

/-- The end of a comment in the text ends the comment there. -/
theorem lexFrom_block_closed {first : τ} {star : Bool} {text : List (Char × τ)}
    (h : ['*', '/'] <:+: text.map Prod.fst) :
    ∃ l ∈ (lexFrom (.block first star) text).1, l.last ∈ text.map Prod.snd := by
  induction text generalizing star with
  | nil => simp at h
  | cons c text ih =>
      obtain ⟨c, t⟩ := c
      rw [lexFrom_cons, Mode.step]
      split
      · exact ⟨_, List.mem_append_left _ (List.mem_singleton_self _), by simp⟩
      · rw [List.map_cons, List.infix_cons_iff] at h
        obtain hhere | hlater := h
        · obtain ⟨rfl, hrest⟩ : '*' = c ∧ ['/'] <+: text.map Prod.fst := by simpa using hhere
          obtain ⟨d, rest, rfl⟩ : ∃ d rest, text = d :: rest := by
            cases text with
            | nil => simp at hrest
            | cons d rest => exact ⟨d, rest, rfl⟩
          have hd : d.1 = '/' := (List.cons_prefix_cons.mp hrest).1.symm
          exact ⟨⟨.comment, first, d.2⟩, by simp [lexFrom_cons, Mode.step, hd], by simp⟩
        · obtain ⟨l, hl, hmark⟩ := @ih (decide (c = '*')) hlater
          exact ⟨l, List.mem_append_right _ hl, List.mem_cons_of_mem _ hmark⟩

/-- Only a slash may end a comment. -/
theorem lexFrom_block_star {first : τ} (star : Bool) {c : Char × τ} (h : c.1 ≠ '/')
    (text : List (Char × τ)) :
    lexFrom (.block first star) (c :: text) = lexFrom (.block first false) (c :: text) := by
  simp [lexFrom_cons, Mode.step, h]

/-- Whether the character after the text is escaped; none when the text has a delimiter
that is not. -/
def escapedAfter (delimiter : Char) : Bool → List Char → Option Bool
  | escaped, [] => some escaped
  | true, _ :: text => escapedAfter delimiter false text
  | false, c :: text =>
      if c = delimiter then none else escapedAfter delimiter (c = '\\') text

theorem lexFrom_quoted {delimiter : Char} {spelling : List Char} {escaped escaped' : Bool}
    {first : τ} {text : List (Char × τ)} (hline : ∀ c ∈ text, c.1 ≠ '\n')
    (h : escapedAfter delimiter escaped (text.map Prod.fst) = some escaped') :
    lexFrom (.quoted delimiter spelling escaped first) text =
      ([], .quoted delimiter (spelling ++ text.map Prod.fst) escaped' first) := by
  induction text generalizing spelling escaped with
  | nil =>
      obtain rfl := Option.some.inj h
      simp
  | cons c text ih =>
      obtain ⟨c, t⟩ := c
      obtain ⟨hc, hrest⟩ := List.forall_mem_cons.mp hline
      rw [lexFrom_cons, Mode.step, if_neg hc]
      cases escaped with
      | true => simp [@ih (spelling ++ [c]) false hrest h]
      | false =>
          rw [List.map_cons, escapedAfter] at h
          split at h
          · contradiction
          · rename_i hdelimiter
            simp [hdelimiter, @ih (spelling ++ [c]) (c = '\\') hrest h]

/-- A delimiter that is not escaped ends the literal there. -/
theorem lexFrom_quoted_closed {delimiter : Char} {spelling : List Char} {escaped : Bool}
    {first : τ} {text : List (Char × τ)} (hline : ∀ c ∈ text, c.1 ≠ '\n')
    (h : escapedAfter delimiter escaped (text.map Prod.fst) = none) :
    ∃ l ∈ (lexFrom (.quoted delimiter spelling escaped first) text).1,
      l.last ∈ text.map Prod.snd := by
  induction text generalizing spelling escaped with
  | nil => contradiction
  | cons c text ih =>
      obtain ⟨c, t⟩ := c
      obtain ⟨hc, hrest⟩ := List.forall_mem_cons.mp hline
      rw [lexFrom_cons, Mode.step, if_neg hc]
      cases escaped with
      | true =>
          obtain ⟨l, hl, hmark⟩ := @ih (spelling ++ [c]) false hrest h
          exact ⟨l, hl, List.mem_cons_of_mem _ hmark⟩
      | false =>
          rw [List.map_cons, escapedAfter] at h
          split at h
          · rename_i hdelimiter
            exact ⟨_, by rw [if_pos hdelimiter]; exact List.mem_cons_self .., by simp⟩
          · rename_i hdelimiter
            obtain ⟨l, hl, hmark⟩ := @ih (spelling ++ [c]) (c = '\\') hrest h
            exact ⟨l, by simpa [hdelimiter] using hl, List.mem_cons_of_mem _ hmark⟩

/-- What is open began, and so far ended, at characters marked `P`. -/
def Mode.Marked (P : τ → Prop) : Mode τ → Prop
  | .word _ first last => P first ∧ P last
  | .slash first => P first
  | .block first _ => P first
  | .line first => P first
  | .quoted _ _ _ first => P first
  | .code => True
  | .invalid => True

def Lexeme.Marked (P : τ → Prop) (l : Lexeme τ) : Prop := P l.first ∧ P l.last

variable {P : τ → Prop}

theorem Mode.start_marked {c : Char} {t : τ} (ht : P t) :
    (∀ l ∈ (Mode.start c t).1, l.Marked P) ∧ (Mode.start c t).2.Marked P := by
  unfold Mode.start
  split_ifs <;> simp [Mode.Marked, Lexeme.Marked, ht]

theorem Mode.step_marked {m : Mode τ} (hm : m.Marked P) {c : Char × τ} (hc : P c.2) :
    (∀ l ∈ (m.step c).1, l.Marked P) ∧ (m.step c).2.Marked P := by
  obtain ⟨c, t⟩ := c
  obtain ⟨hlexemes, hmode⟩ := Mode.start_marked (c := c) hc
  cases m with
  | code => exact ⟨hlexemes, hmode⟩
  | invalid => exact ⟨by simp [Mode.step], trivial⟩
  | word text first last =>
      rw [Mode.step]
      split
      · exact ⟨by simp, hm.1, hc⟩
      · exact ⟨List.forall_mem_cons.mpr ⟨hm, hlexemes⟩, hmode⟩
  | slash first =>
      rw [Mode.step]
      split_ifs
      · exact ⟨by simp, hm⟩
      · exact ⟨by simp, hm⟩
      · exact ⟨List.forall_mem_cons.mpr ⟨⟨hm, hm⟩, hlexemes⟩, hmode⟩
  | block first star =>
      rw [Mode.step]
      split
      · exact ⟨List.forall_mem_singleton.mpr ⟨hm, hc⟩, trivial⟩
      · exact ⟨by simp, hm⟩
  | line first =>
      rw [Mode.step]
      split
      · exact ⟨List.forall_mem_singleton.mpr ⟨hm, hc⟩, trivial⟩
      · exact ⟨by simp, hm⟩
  | quoted delimiter spelling escaped first =>
      rw [Mode.step]
      split_ifs
      · exact ⟨by simp, trivial⟩
      · exact ⟨by simp, hm⟩
      · exact ⟨List.forall_mem_singleton.mpr ⟨hm, hc⟩, trivial⟩
      · exact ⟨by simp, hm⟩

theorem lexFrom_marked {m : Mode τ} (hm : m.Marked P) {text : List (Char × τ)}
    (h : ∀ c ∈ text, P c.2) :
    (∀ l ∈ (lexFrom m text).1, l.Marked P) ∧ (lexFrom m text).2.Marked P := by
  induction text generalizing m with
  | nil => exact ⟨by simp, hm⟩
  | cons c text ih =>
      obtain ⟨hhere, hmode⟩ := Mode.step_marked hm (h c (List.mem_cons_self ..))
      obtain ⟨hlater, hfinal⟩ := ih hmode (fun d hd => h d (List.mem_cons_of_mem _ hd))
      rw [lexFrom_cons]
      exact ⟨fun l hl => (List.mem_append.mp hl).elim (hhere l) (hlater l), hfinal⟩

/-- Every lexeme begins and ends in the text. -/
theorem lex_marked {text : List (Char × τ)} (h : ∀ c ∈ text, P c.2) {ls : List (Lexeme τ)}
    (hls : lex text = some ls) : ∀ l ∈ ls, l.Marked P := by
  obtain ⟨rest, hrest, rfl⟩ := Option.map_eq_some_iff.mp hls
  obtain ⟨hlexemes, hmode⟩ := lexFrom_marked (m := .code) (P := P) trivial
    (fun c hc => h c (mem_of_mem_splice hc))
  intro l hl
  obtain hl | hl := List.mem_append.mp hl
  · exact hlexemes l hl
  · revert hrest hmode
    cases (lexFrom .code (splice text)).2 with
    | code =>
        rintro hrest -
        obtain rfl := Option.some.inj hrest
        contradiction
    | word text first last =>
        rintro hrest hmode
        obtain rfl := Option.some.inj hrest
        obtain rfl := List.mem_singleton.mp hl
        exact hmode
    | slash first =>
        rintro hrest hmode
        obtain rfl := Option.some.inj hrest
        obtain rfl := List.mem_singleton.mp hl
        exact ⟨hmode, hmode⟩
    | _ => exact nofun

inductive Shape where
  | code
  | slash
  | block (star : Bool)
  | line
  | quoted (delimiter : Char) (escaped : Bool)
  | invalid
  deriving DecidableEq, Repr

def Mode.shape : Mode τ → Shape
  | .code => .code
  | .word _ _ _ => .code
  | .slash _ => .slash
  | .block _ star => .block star
  | .line _ => .line
  | .quoted delimiter _ escaped _ => .quoted delimiter escaped
  | .invalid => .invalid

def Shape.start (c : Char) : Shape :=
  if isSpace c then .code
  else if isWordChar c then .code
  else if c = '/' then .slash
  else if c = '"' ∨ c = '\'' then .quoted c false
  else .code

def Shape.step : Shape → Char → Shape
  | .code, c => start c
  | .slash, c => if c = '*' then .block false else if c = '/' then .line else start c
  | .block star, c => if star = true ∧ c = '/' then .code else .block (c = '*')
  | .line, c => if c = '\n' then .code else .line
  | .quoted delimiter escaped, c =>
      if c = '\n' then .invalid
      else if escaped then .quoted delimiter false
      else if c = delimiter then .code
      else .quoted delimiter (c = '\\')
  | .invalid, _ => .invalid

/-- Letters and digits leave the shape as it is. -/
def Shape.steady : Shape → Bool
  | .code => true
  | .block star => !star
  | .line => true
  | .quoted delimiter escaped => !isWordChar delimiter && !escaped
  | _ => false

theorem Mode.shape_start (c : Char) (t : τ) : (Mode.start c t).2.shape = Shape.start c := by
  unfold Mode.start Shape.start
  split_ifs <;> rfl

theorem Mode.shape_step (m : Mode τ) (c : Char × τ) :
    (m.step c).2.shape = m.shape.step c.1 := by
  obtain ⟨c, t⟩ := c
  cases m with
  | code => exact shape_start c t
  | invalid => rfl
  | word text first last =>
      rw [Mode.step]
      split
      · rename_i hc
        have hspace : isSpace c = false := by
          by_contra hspace
          simp only [isSpace, Bool.not_eq_false, decide_eq_true_eq, List.mem_cons,
            List.not_mem_nil, or_false] at hspace
          obtain rfl | rfl | rfl | rfl | rfl := hspace <;> contradiction
        simp [Mode.shape, Shape.step, Shape.start, hspace, hc]
      · exact shape_start c t
  | slash first =>
      rw [Mode.step, Mode.shape, Shape.step]
      split_ifs
      · rfl
      · rfl
      · exact shape_start c t
  | block first star =>
      rw [Mode.step, Mode.shape, Shape.step]
      split_ifs <;> rfl
  | line first =>
      rw [Mode.step, Mode.shape, Shape.step]
      split_ifs <;> rfl
  | quoted delimiter spelling escaped first =>
      rw [Mode.step, Mode.shape, Shape.step]
      split_ifs <;> rfl

theorem shape_lexFrom (m : Mode τ) (text : List (Char × τ)) :
    (lexFrom m text).2.shape = (text.map Prod.fst).foldl Shape.step m.shape := by
  induction text generalizing m with
  | nil => rfl
  | cons c text ih => rw [lexFrom_cons, List.map_cons, List.foldl_cons, ← m.shape_step c, ih]

theorem Mode.finish_of_code {m : Mode τ} (h : m.shape = .code) : ∃ ls, m.finish = some ls := by
  cases m with
  | code => exact ⟨_, rfl⟩
  | word text first last => exact ⟨_, rfl⟩
  | _ => contradiction

theorem Shape.foldl_word {s : Shape} (hs : s.steady = true) {text : List Char}
    (h : ∀ c ∈ text, isWordChar c = true) : text.foldl step s = s := by
  induction text with
  | nil => rfl
  | cons c text ih =>
      have hc : isWordChar c = true := h c (List.mem_cons_self ..)
      have hne {d : Char} (hd : isWordChar d = false) : c ≠ d := by
        rintro rfl
        exact absurd (hc.symm.trans hd) nofun
      have hstep : s.step c = s := by
        cases s with
        | code =>
            rw [step, start]
            split_ifs
            · rfl
            · rfl
        | block star =>
            have hstar : star = false := by simpa [steady] using hs
            simp [step, hstar, hne (show isWordChar '*' = false by decide)]
        | line => exact if_neg (hne (by decide))
        | quoted delimiter escaped =>
            simp only [steady, Bool.and_eq_true, Bool.not_eq_true'] at hs
            simp [step, hs.2, hne hs.1, hne (show isWordChar '\n' = false by decide),
              hne (show isWordChar '\\' = false by decide)]
        | slash => contradiction
        | invalid => contradiction
      rw [List.foldl_cons, hstep, ih (fun d hd => h d (List.mem_cons_of_mem _ hd))]

theorem Mode.eq_block {m : Mode τ} {star : Bool} (h : m.shape = .block star) :
    ∃ first, m = .block first star := by
  cases m with
  | block first star' =>
      obtain rfl : star' = star := by simpa [Mode.shape] using h
      exact ⟨first, rfl⟩
  | _ => simp [Mode.shape] at h

/-- A double quote in code opens a literal. -/
theorem Mode.step_quote {m : Mode τ} (h : m.shape = .code) (t : τ) :
    (m.step ('"', t)).2 = .quoted '"' [] false t := by
  cases m with
  | code => rfl
  | word text first last => rfl
  | _ => simp [Mode.shape] at h

end CLexing
