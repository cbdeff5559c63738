import LuaZephyr.Generate.Inside
import LuaZephyr.Generate.Templates

/-!
# A script and the C around it

The script's text stands in the comment at the head of the generated file and in the
literal. It stays there exactly when it does not end the comment and no double quote of it
ends the literal.

Staying there is a statement about the lexemes of the whole file: they are those of the template
but for the one literal. What the compiler does with them later, and what the preprocessor does
with lines that begin with `#` in the template, is not modelled.
-/

namespace LuaZephyr

open PyText CLexing

theorem slash_prefix_insideFrom (text : List Char) :
    ['/'] <+: insideFrom false text ↔ ['/'] <+: text := by
  cases text with
  | nil => decide
  | cons c text =>
      rw [insideFrom_cons]
      by_cases hc : isLineBoundary c = true
      · have hslash : '/' ≠ c := by
          rintro rfl
          exact absurd hc (by decide)
        simp [hc, hslash]
      · by_cases hquote : c = '"'
        · subst hquote
          simp [hc, escapeQuote]
        · simp [hc, escapeQuote, hquote]

/-- The inside of the literal ends a comment only where the script does. -/
theorem comment_end_insideFrom (fresh : Bool) (text : List Char) :
    ['*', '/'] <:+: insideFrom fresh text ↔ ['*', '/'] <:+: text := by
  induction text generalizing fresh with
  | nil => cases fresh <;> decide
  | cons c text ih =>
      have hline : ['*', '/'] <:+: (if isLineBoundary c then ['\\', 'n'] ++ insideFrom true text
          else escapeQuote c ++ insideFrom false text) ↔ ['*', '/'] <:+: c :: text := by
        rw [List.infix_cons_iff, List.cons_prefix_cons, ← slash_prefix_insideFrom text]
        by_cases hc : isLineBoundary c = true
        · have hstar : '*' ≠ c := by
            rintro rfl
            exact absurd hc (by decide)
          simp [hc, hstar, List.infix_cons_iff, ih]
        · by_cases hquote : c = '"'
          · subst hquote
            simp [hc, escapeQuote, List.infix_cons_iff, ih]
          · simp [hc, escapeQuote, hquote, List.infix_cons_iff, ih, List.cons_prefix_cons]
      rw [insideFrom_cons, ← hline]
      cases fresh with
      | true => simp [List.infix_cons_iff]
      | false => simp

/-- Every double quote is preceded by an even number of backslashes; `escaped` when the
text is, by an odd number. -/
def quotesHold : Bool → List Char → Bool
  | _, [] => true
  | escaped, c :: text =>
      if c = '"' then !escaped && quotesHold false text
      else quotesHold (c = '\\' && !escaped) text

/-- The number of backslashes at the end of a text. -/
def trailingBackslashes (text : List Char) : Nat := (text.reverse.takeWhile (· = '\\')).length

/-- Every double quote is preceded by an even number of backslashes. -/
def EvenBackslashes (text : List Char) : Prop :=
  ∀ before after, text = before ++ '"' :: after → trailingBackslashes before % 2 = 0

theorem trailingBackslashes_concat (text : List Char) (c : Char) :
    trailingBackslashes (text ++ [c]) = if c = '\\' then trailingBackslashes text + 1 else 0 := by
  rw [trailingBackslashes, List.reverse_append, List.reverse_singleton, List.singleton_append,
    List.takeWhile_cons]
  by_cases hc : c = '\\'
  · simp [hc, trailingBackslashes]
  · simp [hc]

theorem quotesHold_iff (seen text : List Char) :
    quotesHold (trailingBackslashes seen % 2 = 1) text = true ↔ ∀ before after,
      text = before ++ '"' :: after → trailingBackslashes (seen ++ before) % 2 = 0 := by
  induction text generalizing seen with
  | nil => simp [quotesHold]
  | cons c text ih =>
      have hnext : quotesHold (trailingBackslashes (seen ++ [c]) % 2 = 1) text = true ↔
          ∀ before after, text = before ++ '"' :: after →
            trailingBackslashes (seen ++ c :: before) % 2 = 0 := by
        simpa using ih (seen ++ [c])
      have hsplit : (∀ before after, c :: text = before ++ '"' :: after →
          trailingBackslashes (seen ++ before) % 2 = 0) ↔
          (c = '"' → trailingBackslashes seen % 2 = 0) ∧ ∀ before after,
            text = before ++ '"' :: after →
              trailingBackslashes (seen ++ c :: before) % 2 = 0 := by
        constructor
        · intro h
          refine ⟨?_, fun before after heq => h (c :: before) after (by rw [heq, List.cons_append])⟩
          rintro rfl
          simpa using h [] text rfl
        · rintro ⟨hhere, hlater⟩ before after heq
          cases before with
          | nil => simpa using hhere (List.cons.inj heq).1
          | cons d before =>
              obtain ⟨rfl, htail⟩ := List.cons.inj heq
              exact hlater before after htail
      rw [hsplit, ← hnext, trailingBackslashes_concat, quotesHold]
      by_cases hquote : c = '"'
      · subst hquote
        simp
      · by_cases hbackslash : c = '\\'
        · subst hbackslash
          have hparity : decide ((trailingBackslashes seen + 1) % 2 = 1) =
              !decide (trailingBackslashes seen % 2 = 1) := by
            by_cases hodd : trailingBackslashes seen % 2 = 1
            · rw [decide_eq_true hodd, decide_eq_false (by omega)]
              rfl
            · rw [decide_eq_false hodd, decide_eq_true (by omega)]
              rfl
          simp [hparity]
        · simp [hquote, hbackslash]

theorem evenBackslashes_iff (text : List Char) :
    EvenBackslashes text ↔ quotesHold false text = true := by
  simpa [EvenBackslashes, trailingBackslashes] using (quotesHold_iff [] text).symm

/-- The literal stays open over the inside, and what follows is not escaped, exactly when
no double quote of the script follows a loose backslash. -/
theorem escapedAfter_insideFrom (fresh escaped : Bool) (hfresh : fresh = true → escaped = false)
    (text : List Char) : escapedAfter '"' escaped (insideFrom fresh text) =
      if quotesHold escaped text then some false else none := by
  induction text generalizing fresh escaped with
  | nil =>
      cases fresh with
      | true =>
          obtain rfl := hfresh rfl
          rfl
      | false => cases escaped <;> rfl
  | cons c text ih =>
      have hline (escaped : Bool) : escapedAfter '"' escaped (if isLineBoundary c then
            ['\\', 'n'] ++ insideFrom true text else escapeQuote c ++ insideFrom false text) =
          if quotesHold escaped (c :: text) then some false else none := by
        have htrue := ih true false (fun _ => rfl)
        have hfalse (e : Bool) := ih false e nofun
        rw [quotesHold]
        by_cases hc : isLineBoundary c = true
        · have hquote : c ≠ '"' := by
            rintro rfl
            exact absurd hc (by decide)
          have hbackslash : c ≠ '\\' := by
            rintro rfl
            exact absurd hc (by decide)
          cases escaped <;> simp [hc, hquote, hbackslash, escapedAfter, htrue]
        · by_cases hquote : c = '"'
          · subst hquote
            cases escaped <;> simp [hc, escapeQuote, escapedAfter, hfalse]
          · by_cases hbackslash : c = '\\'
            · subst hbackslash
              cases escaped <;> simp [hc, escapeQuote, escapedAfter, hfalse]
            · cases escaped <;>
                simp [hc, escapeQuote, hquote, hbackslash, escapedAfter, hfalse]
      rw [insideFrom_cons]
      cases fresh with
      | true =>
          obtain rfl := hfresh rfl
          simpa [escapedAfter] using hline false
      | false => simpa using hline escaped

theorem isWordChar_lt {c : Char} (h : isWordChar c = true) : c.toNat < 128 := by
  have halnum : c.isAlphanum = (decide (c.val ≥ 'A'.val ∧ c.val ≤ 'Z'.val) ||
      (decide (c.val ≥ 'a'.val) && decide (c.val ≤ 'z'.val)) || c.isDigit) := rfl
  simp only [isWordChar, halnum, Char.isDigit, Bool.or_eq_true, Bool.and_eq_true,
    decide_eq_true_eq, UInt32.le_iff_toNat_le] at h
  have hnat : c.toNat = c.val.toNat := rfl
  have hZ : 'Z'.val.toNat = 90 := rfl
  have hz : 'z'.val.toNat = 122 := rfl
  have h9 : '9'.val.toNat = 57 := rfl
  obtain (((h | h) | h) | rfl) := h
  · omega
  · omega
  · omega
  · decide

theorem isWordChar_toUpper {c : Char} (h : isWordChar c = true) :
    isWordChar c.toUpper = true := by
  have hall : ∀ n < 128, isWordChar (Char.ofNat n) = true →
      isWordChar (Char.ofNat n).toUpper = true := by decide +kernel
  have hc := hall c.toNat (isWordChar_lt h)
  rw [Char.ofNat_toNat] at hc
  exact hc h

variable {name : List Char}

theorem named_word (hname : ∀ c ∈ name, isWordChar c = true) {ps : List Piece}
    (hps : ps.all Piece.isNamed = true) {p : Placeholder} (hp : .placeholder p ∈ ps) :
    ∀ c ∈ named name p, isWordChar c = true := by
  have hnamed := List.all_eq_true.mp hps _ hp
  cases p with
  | fileName => exact hname
  | fileNameUpper =>
      intro c hc
      obtain ⟨d, hd, rfl⟩ := List.mem_map.mp hc
      exact isWordChar_toUpper (hname d hd)
  | _ => contradiction

theorem word_ne {c d : Char} (hc : isWordChar c = true) (hd : isWordChar d = false) : c ≠ d := by
  rintro rfl
  exact absurd (hc.symm.trans hd) nofun

/-- The shape after a piece text does not depend on the name. -/
theorem foldl_fill (hname : ∀ c ∈ name, isWordChar c = true) {ps : List Piece}
    (hps : ps.all Piece.isNamed = true) {s s' : Shape} (h : shapeAfter s ps = some s') :
    (fill (named name) ps).foldl Shape.step s = s' := by
  induction ps generalizing s with
  | nil => exact Option.some.inj h
  | cons piece ps ih =>
      have hrest := (Bool.and_eq_true_iff.mp (List.all_cons ▸ hps)).2
      cases piece with
      | char c => exact ih hrest h
      | placeholder p =>
          rw [shapeAfter] at h
          split at h
          · rename_i hsteady
            rw [fill_placeholder, List.foldl_append,
              Shape.foldl_word hsteady (named_word hname hps (List.mem_cons_self ..))]
            exact ih hrest h
          · contradiction

/-- A piece text has nothing to splice, neither in it nor at its end. -/
theorem splice_fill {τ : Type} (hname : ∀ c ∈ name, isWordChar c = true) {ps : List Piece}
    (hps : ps.all Piece.isNamed = true) (h : unspliced ps = true) {text : List (Char × τ)}
    (htext : text.map Prod.fst = fill (named name) ps) (rest : List (Char × τ)) :
    splice (text ++ rest) = text ++ splice rest := by
  induction ps generalizing text with
  | nil =>
      obtain rfl := List.map_eq_nil_iff.mp htext
      rfl
  | cons piece ps ih =>
      have hrest := (Bool.and_eq_true_iff.mp (List.all_cons ▸ hps)).2
      cases piece with
      | char c =>
          obtain ⟨d, text, rfl, hd, hmap⟩ := List.map_eq_cons_iff.mp htext
          simp only [unspliced, Bool.and_eq_true, Bool.or_eq_true, decide_eq_true_eq] at h
          have hlater := ih hrest h.2 hmap
          rw [List.cons_append, List.cons_append, ← hlater]
          by_cases hc : d.1 = '\\'
          · obtain hne | hnext := h.1
            · exact absurd (hd.symm.trans hc) hne
            · cases ps with
              | nil => contradiction
              | cons next ps =>
                  cases next with
                  | placeholder p => contradiction
                  | char c' =>
                      obtain ⟨d', text', rfl, hd', -⟩ := List.map_eq_cons_iff.mp hmap
                      have hplain : d'.1 ≠ '\n' := by
                        rw [hd']
                        simpa [nextPlain] using hnext
                      obtain ⟨d, t⟩ := d
                      obtain rfl : d = '\\' := hc
                      exact splice_backslash hplain t _
          · exact splice_cons hc _
      | placeholder p =>
          have hword := named_word hname hps (List.mem_cons_self ..)
          rw [fill_placeholder] at htext
          obtain ⟨first, second, rfl, hfirst, hsecond⟩ := List.map_eq_append_iff.mp htext
          have hplain : ∀ c ∈ first, c.1 ≠ '\\' ∧ c.1 ≠ '\n' := by
            intro c hc
            have hmem : c.1 ∈ named name p := by
              rw [← hfirst]
              exact List.mem_map_of_mem hc
            exact ⟨word_ne (hword _ hmem) (by decide), word_ne (hword _ hmem) (by decide)⟩
          rw [List.append_assoc, splice_append_of_plain hplain, ih hrest h hsecond,
            List.append_assoc]

/-- A text of the template: each character is marked with its place there. -/
def mark (start : Nat) (text : List Char) : List (Char × Option Nat) :=
  (text.zipIdx start).map fun c => (c.1, some c.2)

@[simp] theorem map_fst_mark (start : Nat) (text : List Char) :
    (mark start text).map Prod.fst = text := by
  rw [mark, List.map_map]
  exact List.zipIdx_map_fst start text

theorem mark_append (start : Nat) (first second : List Char) :
    mark start (first ++ second) = mark start first ++ mark (start + first.length) second := by
  rw [mark, List.zipIdx_append, List.map_append]
  rfl

theorem mark_marked {start : Nat} {text : List Char} :
    ∀ c ∈ mark start text, c.2.isSome = true := by
  intro c hc
  obtain ⟨d, -, rfl⟩ := List.mem_map.mp hc
  rfl

namespace SourceTemplate

variable (t : SourceTemplate) (name : List Char)

/-- What is before the script's first place, between its places, and behind the second,
with the names in place. -/
def before : List Char := fill (named name) t.head

def between : List Char := fill (named name) t.middle ++ ['"']

def after : List Char := '"' :: fill (named name) t.tail

/-- The template with two texts in the script's places. The marks are the characters'
places in the template with the names in place. -/
def around (first second : List (Char × Option Nat)) : List (Char × Option Nat) :=
  let start := (t.before name).length + Placeholder.luaContent.text.length
  mark 0 (t.before name) ++ (first ++ (mark start (t.between name) ++ (second ++
    mark (start + (t.between name).length + Placeholder.luaContent.text.length)
      (t.after name))))

/-- The generated file. The script's characters have no place in the template. -/
def generated (file : List Char) : List (Char × Option Nat) :=
  t.around name (own none (luaToCString file)) (own none (luaToCString file))

end SourceTemplate

/-- The generated file has exactly the template's lexemes, at their places; only the
inside of the literal written around the script's placeholder is another. -/
def Isolated (t : SourceTemplate) (name file : List Char) : Prop :=
  ∃ before first last after spelling,
    lex (mark 0 (withNames t.text name)) =
      some (before ++ ⟨.literal '"' Placeholder.luaContent.text, first, last⟩ :: after) ∧
    lex (t.generated name file) = some (before ++ ⟨.literal '"' spelling, first, last⟩ :: after)

variable {t : SourceTemplate}

theorem at_not_mem (hname : ∀ c ∈ name, isWordChar c = true) : '@' ∉ name :=
  fun h => absurd (hname _ h) (by decide)

/-- Pieces for the name are filled in the same way, whatever the script. -/
theorem fill_named {ps : List Piece} (hps : ps.all Piece.isNamed = true) (content : List Char) :
    fill (Function.update (named name) .luaContent content) ps = fill (named name) ps := by
  induction ps with
  | nil => rfl
  | cons piece ps ih =>
      rw [List.all_cons, Bool.and_eq_true] at hps
      cases piece with
      | char c => rw [fill_char, fill_char, ih hps.2]
      | placeholder p =>
          have hp : p ≠ .luaContent := by
            rintro rfl
            exact absurd hps.1 (by decide)
          rw [fill_placeholder, fill_placeholder, ih hps.2, Function.update_of_ne hp]

theorem SourceTemplate.all_named (t : SourceTemplate) : t.head.all Piece.isNamed = true ∧
    t.middle.all Piece.isNamed = true ∧ t.tail.all Piece.isNamed = true := by
  have h := t.allNamed
  simp only [List.all_append, Bool.and_eq_true] at h
  exact ⟨h.1.1, h.1.2, h.2⟩

theorem fill_joined (content : List Char) :
    fill (Function.update (named name) .luaContent content) (joined t.head t.middle t.tail) =
      t.before name ++ (content ++ (t.between name ++ (content ++ t.after name))) := by
  obtain ⟨hhead, hmiddle, htail⟩ := t.all_named
  simp only [joined, fill_append, fill_placeholder, fill_char, Function.update_self,
    fill_named hhead, fill_named hmiddle, fill_named htail, SourceTemplate.before,
    SourceTemplate.between, SourceTemplate.after, List.append_assoc, List.cons_append,
    List.nil_append]

/-- In source mode `main` puts the script's text, as it is, in both places. -/
theorem generate_text (hname : '@' ∉ name) (file : List Char) :
    generate t.text name file = t.before name ++ (luaToCString file ++ (t.between name ++
      (luaToCString file ++ t.after name))) := by
  rw [SourceTemplate.text, generate_fill hname t.tidy, fill_joined]

theorem withNames_text (hname : '@' ∉ name) :
    withNames t.text name = t.before name ++ (Placeholder.luaContent.text ++ (t.between name ++
      (Placeholder.luaContent.text ++ t.after name))) := by
  rw [SourceTemplate.text, withNames_fill hname t.tidy, ← fill_joined]
  congr 1
  exact (Function.update_eq_self _ _).symm

theorem map_fst_generated (hname : '@' ∉ name) (file : List Char) :
    (t.generated name file).map Prod.fst = generate t.text name file := by
  rw [generate_text hname]
  simp only [SourceTemplate.generated, SourceTemplate.around, List.map_append, map_fst_mark,
    map_fst_own]

theorem shape_before (hname : ∀ c ∈ name, isWordChar c = true) :
    ∃ ls first, lexFrom .code (mark 0 (t.before name)) = (ls, .block first false) := by
  have hshape : (lexFrom .code (mark 0 (t.before name))).2.shape = .block false := by
    rw [shape_lexFrom, map_fst_mark]
    exact foldl_fill hname t.all_named.1 t.head_shape
  obtain ⟨first, hmode⟩ := Mode.eq_block hshape
  exact ⟨_, first, Prod.ext rfl hmode⟩

/-- The text between the places leads from the comment into the literal, however the
script's text ends. -/
theorem lexFrom_between (hname : ∀ c ∈ name, isWordChar c = true) (start : Nat)
    (first : Option Nat) : ∃ ls quote, ∀ star,
      lexFrom (.block first star) (mark start (t.between name)) =
        (ls, .quoted '"' [] false quote) := by
  obtain ⟨ps, hps⟩ := List.head?_eq_some_iff.mp t.space
  have hspace : ∃ text, mark start (t.between name) = (' ', some start) :: text := by
    refine ⟨mark (start + 1) (fill (named name) ps ++ ['"']), ?_⟩
    have hbetween : t.between name = ' ' :: (fill (named name) ps ++ ['"']) := by
      rw [SourceTemplate.between, hps, fill_char, List.cons_append]
    rw [hbetween]
    rfl
  obtain ⟨text, htext⟩ := hspace
  have hstar (star : Bool) : lexFrom (.block first star) (mark start (t.between name)) =
      lexFrom (.block first false) (mark start (t.between name)) := by
    rw [htext]
    exact lexFrom_block_star star (show ' ' ≠ '/' by decide) text
  have hshape : (lexFrom (.block first false) (mark start (fill (named name) t.middle))).2.shape =
      .code := by
    rw [shape_lexFrom, map_fst_mark]
    exact foldl_fill hname t.all_named.2.1 t.middle_shape
  refine ⟨(lexFrom (.block first false) (mark start (t.between name))).1,
    some (start + (fill (named name) t.middle).length), fun star => ?_⟩
  rw [hstar star]
  refine Prod.ext rfl ?_
  rw [SourceTemplate.between, mark_append, lexFrom_append]
  exact Mode.step_quote hshape _

/-- The closing quote ends the literal, and the file ends in code. -/
theorem lexFrom_after (hname : ∀ c ∈ name, isWordChar c = true) (start : Nat) :
    ∃ close ls finish, ∀ spelling (quote : Option Nat), ∃ m,
      lexFrom (.quoted '"' spelling false quote) (mark start (t.after name)) =
        (⟨.literal '"' spelling, quote, close⟩ :: ls, m) ∧ m.finish = some finish := by
  have hshape : (lexFrom .code (mark (start + 1) (fill (named name) t.tail))).2.shape = .code := by
    rw [shape_lexFrom, map_fst_mark]
    exact foldl_fill hname t.all_named.2.2 t.tail_shape
  obtain ⟨finish, hfinish⟩ := Mode.finish_of_code hshape
  exact ⟨some start, (lexFrom .code (mark (start + 1) (fill (named name) t.tail))).1, finish,
    fun spelling quote => ⟨_, rfl, hfinish⟩⟩

/-- What the splices leave of a text put into the template is `inner`. -/
def SplicesTo (text inner : List (Char × Option Nat)) : Prop :=
  ∀ rest, splice (text ++ rest) = inner ++ splice rest

theorem splice_around (hname : ∀ c ∈ name, isWordChar c = true)
    {first second first' second' : List (Char × Option Nat)} (hfirst : SplicesTo first first')
    (hsecond : SplicesTo second second') :
    splice (t.around name first second) = t.around name first' second' := by
  obtain ⟨hhead, hmiddle, htail⟩ := t.all_named
  have hunspliced := t.unspliced
  simp only [Bool.and_eq_true] at hunspliced
  obtain ⟨⟨hhead', hmiddle'⟩, htail'⟩ := hunspliced
  have hquote (start : Nat) (rest : List (Char × Option Nat)) :
      splice (mark start ['"'] ++ rest) = mark start ['"'] ++ splice rest := rfl
  rw [SourceTemplate.around, SourceTemplate.around, SourceTemplate.before,
    splice_fill hname hhead hhead' (map_fst_mark 0 _), hfirst, SourceTemplate.between,
    mark_append, List.append_assoc, List.append_assoc,
    splice_fill hname hmiddle hmiddle' (map_fst_mark _ _), hquote, hsecond,
    show t.after name = ['"'] ++ fill (named name) t.tail from rfl, mark_append, hquote]
  have hend (start : Nat) : splice (mark start (fill (named name) t.tail)) =
      mark start (fill (named name) t.tail) := by
    simpa [splice] using splice_fill hname htail htail' (map_fst_mark start _) []
  rw [hend]

/-- Two texts that stay in the comment and in the literal leave the template's lexemes as
they are. -/
theorem lex_around (hname : ∀ c ∈ name, isWordChar c = true) : ∃ before first last after,
    ∀ {first₁ second₁ first₂ second₂ : List (Char × Option Nat)} {spelling : List Char},
      SplicesTo first₁ first₂ → SplicesTo second₁ second₂ →
      (∀ comment : Option Nat, ∃ star,
        lexFrom (.block comment false) first₂ = ([], .block comment star)) →
      (∀ quote : Option Nat,
        lexFrom (.quoted '"' [] false quote) second₂ = ([], .quoted '"' spelling false quote)) →
      lex (t.around name first₁ second₁) =
        some (before ++ ⟨.literal '"' spelling, first, last⟩ :: after) := by
  obtain ⟨ls₁, comment, hbefore⟩ := shape_before (t := t) hname
  obtain ⟨ls₂, quote, hbetween⟩ := lexFrom_between (t := t) hname
    ((t.before name).length + Placeholder.luaContent.text.length) comment
  obtain ⟨close, ls₃, finish, hafter⟩ := lexFrom_after (t := t) hname
    ((t.before name).length + Placeholder.luaContent.text.length + (t.between name).length +
      Placeholder.luaContent.text.length)
  refine ⟨ls₁ ++ ls₂, quote, close, ls₃ ++ finish, ?_⟩
  intro first₁ second₁ first₂ second₂ spelling hfirst hsecond hblock hquoted
  obtain ⟨star, hblock⟩ := hblock comment
  obtain ⟨m, hmode, hfinish⟩ := hafter spelling quote
  rw [lex, splice_around hname hfirst hsecond, SourceTemplate.around]
  simp only [lexFrom_append, hbefore, hblock, hbetween, hquoted, hmode, hfinish, Option.map_some,
    List.nil_append, List.append_assoc, List.cons_append]

/-- A lexeme completed inside the comment, or else inside the literal, is one of the file. -/
theorem mem_lex_around (hname : ∀ c ∈ name, isWordChar c = true) : ∃ comment quote,
    ∀ {first₁ second₁ first₂ second₂ : List (Char × Option Nat)} {ls : List (Lexeme (Option Nat))},
      SplicesTo first₁ first₂ → SplicesTo second₁ second₂ →
      lex (t.around name first₁ second₁) = some ls → ∀ l,
        (l ∈ (lexFrom (.block comment false) first₂).1 → l ∈ ls) ∧
        ∀ star, lexFrom (.block comment false) first₂ = ([], .block comment star) →
          l ∈ (lexFrom (.quoted '"' [] false quote) second₂).1 → l ∈ ls := by
  obtain ⟨ls₁, comment, hbefore⟩ := shape_before (t := t) hname
  obtain ⟨ls₂, quote, hbetween⟩ := lexFrom_between (t := t) hname
    ((t.before name).length + Placeholder.luaContent.text.length) comment
  refine ⟨comment, quote, fun hfirst hsecond hls l => ?_⟩
  rw [lex, splice_around hname hfirst hsecond, SourceTemplate.around] at hls
  obtain ⟨finish, -, rfl⟩ := Option.map_eq_some_iff.mp hls
  refine ⟨fun hl => List.mem_append_left _ ?_, fun star hblock hl => List.mem_append_left _ ?_⟩
  · simp only [lexFrom_append, hbefore, List.mem_append]
    exact .inr (.inl hl)
  · simp only [lexFrom_append, hbefore, hblock, hbetween, List.mem_append]
    exact .inr (.inr (.inr (.inl hl)))

theorem splicesTo_luaToCString (file : List Char) :
    SplicesTo (own none (luaToCString file)) (own none (inside file)) :=
  splice_luaToCString none file

theorem mark_withNames (hname : '@' ∉ name) : ∃ i j,
    mark 0 (withNames t.text name) =
      t.around name (mark i Placeholder.luaContent.text) (mark j Placeholder.luaContent.text) := by
  refine ⟨(t.before name).length, (t.before name).length + Placeholder.luaContent.text.length +
    (t.between name).length, ?_⟩
  rw [withNames_text hname]
  simp only [mark_append, SourceTemplate.around, Nat.zero_add]

theorem placeholder_plain {i : Nat} : ∀ c ∈ mark i Placeholder.luaContent.text,
    c.1 ≠ '\\' ∧ c.1 ≠ '\n' := by
  intro c hc
  have hmem : c.1 ∈ Placeholder.luaContent.text := by
    rw [← map_fst_mark i Placeholder.luaContent.text]
    exact List.mem_map_of_mem hc
  have hall : ∀ d ∈ Placeholder.luaContent.text, d ≠ '\\' ∧ d ≠ '\n' :=
    List.forall_iff_forall_mem.mp (by decide)
  exact hall _ hmem

theorem splicesTo_placeholder (i : Nat) :
    SplicesTo (mark i Placeholder.luaContent.text) (mark i Placeholder.luaContent.text) :=
  splice_append_of_plain placeholder_plain

theorem lexFrom_placeholder (i : Nat) (quote : Option Nat) :
    lexFrom (.quoted '"' [] false quote) (mark i Placeholder.luaContent.text) =
      ([], .quoted '"' Placeholder.luaContent.text false quote) := by
  have hstays : lexFrom (.quoted '"' [] false quote) (mark i Placeholder.luaContent.text) =
      ([], .quoted '"' ([] ++ (mark i Placeholder.luaContent.text).map Prod.fst) false quote) :=
    lexFrom_quoted (fun c hc => (placeholder_plain c hc).2) (by rw [map_fst_mark]; decide)
  rwa [List.nil_append, map_fst_mark] at hstays

theorem own_newline (file : List Char) :
    ∀ c ∈ own (none : Option Nat) (inside file), c.1 ≠ '\n' := by
  intro c hc hnewline
  obtain ⟨d, hd, rfl⟩ := List.mem_map.mp hc
  obtain rfl : d = '\n' := hnewline
  exact newline_not_mem_insideFrom true (universalNewlines file) hd

theorem escapedAfter_inside (file : List Char) :
    escapedAfter '"' false ((own (none : Option Nat) (inside file)).map Prod.fst) =
      if quotesHold false (universalNewlines file) then some false else none := by
  rw [map_fst_own]
  exact escapedAfter_insideFrom true false (fun _ => rfl) _

/-- No lexeme of the generated file ends in the script. -/
theorem Isolated.last_ne {file : List Char} {before after : List (Lexeme (Option Nat))}
    {first last : Option Nat} {spelling spelling' : List Char}
    (htemplate : lex (mark 0 (withNames t.text name)) =
      some (before ++ ⟨.literal '"' spelling, first, last⟩ :: after))
    {l : Lexeme (Option Nat)} (hl : l ∈ before ++ ⟨.literal '"' spelling', first, last⟩ :: after) :
    l.last ∉ (own none (inside file)).map Prod.snd := by
  have hmarked := lex_marked (P := fun mark => mark.isSome = true) mark_marked htemplate
  have hsome : l.last.isSome = true := by
    obtain hl | hl := List.mem_append.mp hl
    · exact (hmarked l (List.mem_append_left _ hl)).2
    · obtain rfl | hl := List.mem_cons.mp hl
      · exact (hmarked _ (List.mem_append_right _ (List.mem_cons_self ..))).2
      · exact (hmarked l (List.mem_append_right _ (List.mem_cons_of_mem _ hl))).2
  intro hlast
  obtain ⟨c, hc, hlast⟩ := List.mem_map.mp hlast
  obtain ⟨d, -, rfl⟩ := List.mem_map.mp hc
  rw [← hlast] at hsome
  contradiction

/-- A script that ends the comment does not stay in it. -/
theorem Isolated.comment {file : List Char} (hname : ∀ c ∈ name, isWordChar c = true)
    (h : Isolated t name file) : ¬ ['*', '/'] <:+: universalNewlines file := by
  obtain ⟨before, first, last, after, spelling, htemplate, hgenerated⟩ := h
  obtain ⟨comment, quote, hmem⟩ := mem_lex_around (t := t) hname
  have hcontent := splicesTo_luaToCString file
  intro hend
  rw [← comment_end_insideFrom true] at hend
  obtain ⟨l, hl, hlast⟩ : ∃ l ∈ (lexFrom (.block comment false) (own none (inside file))).1,
      l.last ∈ (own none (inside file)).map Prod.snd :=
    lexFrom_block_closed (by rwa [map_fst_own])
  exact Isolated.last_ne htemplate ((hmem hcontent hcontent hgenerated l).1 hl) hlast

theorem lexFrom_comment {file : List Char} (h : ¬ ['*', '/'] <:+: universalNewlines file)
    (comment : Option Nat) : ∃ star,
      lexFrom (.block comment false) (own none (inside file)) = ([], .block comment star) := by
  rw [← comment_end_insideFrom true] at h
  exact lexFrom_block nofun (by rwa [map_fst_own])

/-- A script with a double quote after a loose backslash does not stay in the literal. -/
theorem Isolated.quotes {file : List Char} (hname : ∀ c ∈ name, isWordChar c = true)
    (h : Isolated t name file) : EvenBackslashes (universalNewlines file) := by
  have hcomment := h.comment hname
  obtain ⟨before, first, last, after, spelling, htemplate, hgenerated⟩ := h
  obtain ⟨comment, quote, hmem⟩ := mem_lex_around (t := t) hname
  have hcontent := splicesTo_luaToCString file
  obtain ⟨star, hblock⟩ := lexFrom_comment hcomment comment
  rw [evenBackslashes_iff]
  by_contra hquote
  obtain ⟨l, hl, hlast⟩ : ∃ l ∈ (lexFrom (.quoted '"' [] false quote) (own none (inside file))).1,
      l.last ∈ (own none (inside file)).map Prod.snd :=
    lexFrom_quoted_closed (own_newline file) (by rw [escapedAfter_inside, if_neg hquote])
  exact Isolated.last_ne htemplate ((hmem hcontent hcontent hgenerated l).2 star hblock hl) hlast

/-- A script without either stays in its places, and is spelled as `inside` in the literal. -/
theorem lex_generated (t : SourceTemplate) (hname : ∀ c ∈ name, isWordChar c = true)
    {file : List Char} (hcomment : ¬ ['*', '/'] <:+: universalNewlines file)
    (hquotes : EvenBackslashes (universalNewlines file)) : ∃ before first last after,
    lex (mark 0 (withNames t.text name)) =
      some (before ++ ⟨.literal '"' Placeholder.luaContent.text, first, last⟩ :: after) ∧
    lex (t.generated name file) =
      some (before ++ ⟨.literal '"' (inside file), first, last⟩ :: after) := by
  have hcontent := splicesTo_luaToCString file
  obtain ⟨i, j, htemplate⟩ := mark_withNames (t := t) (at_not_mem hname)
  obtain ⟨before, first, last, after, hlex⟩ := lex_around (t := t) hname
  refine ⟨before, first, last, after, ?_, ?_⟩
  · rw [htemplate]
    refine hlex (splicesTo_placeholder i) (splicesTo_placeholder j) (fun comment => ?_)
      (lexFrom_placeholder j)
    exact lexFrom_block nofun (by rw [map_fst_mark]; decide)
  · refine hlex hcontent hcontent (lexFrom_comment hcomment) (fun quote => ?_)
    have hopen := escapedAfter_inside file
    rw [if_pos ((evenBackslashes_iff _).mp hquotes)] at hopen
    have hstays : lexFrom (.quoted '"' [] false quote) (own none (inside file)) =
        ([], .quoted '"' ([] ++ (own none (inside file)).map Prod.fst) false quote) :=
      lexFrom_quoted (own_newline file) hopen
    rwa [List.nil_append, map_fst_own] at hstays

/-- A script leaves the C around it alone exactly when it has no `*/` and each of its
double quotes is preceded by an even number of backslashes. -/
theorem isolated_iff (t : SourceTemplate) (hname : ∀ c ∈ name, isWordChar c = true)
    (file : List Char) :
    (t.generated name file).map Prod.fst = generate t.text name file ∧
      (Isolated t name file ↔ ¬ ['*', '/'] <:+: universalNewlines file ∧
        EvenBackslashes (universalNewlines file)) := by
  refine ⟨map_fst_generated (at_not_mem hname) file,
    fun h => ⟨h.comment hname, h.quotes hname⟩, ?_⟩
  rintro ⟨hcomment, hquotes⟩
  obtain ⟨before, first, last, after, htemplate, hgenerated⟩ :=
    lex_generated t hname hcomment hquotes
  exact ⟨before, first, last, after, inside file, htemplate, hgenerated⟩

/-- `print("hi")` stays in its places. -/
theorem isolated_iff_print :
    Isolated templateH (chars "main") (chars "print(\"hi\")\n") := by
  have hquotes : EvenBackslashes (universalNewlines (chars "print(\"hi\")\n")) := by
    rw [evenBackslashes_iff]
    decide
  have hname : ∀ c ∈ chars "main", isWordChar c = true :=
    List.forall_iff_forall_mem.mp (by decide)
  exact (isolated_iff templateH hname _).2.mpr ⟨by decide, hquotes⟩

/-- The usual pattern for the directory of a path ends the comment at the head of the
file. -/
theorem not_isolated_pattern :
    ¬ Isolated threadC (chars "main") (chars "dir = path:match('^(.*/)')\n") := by
  intro h
  have hname : ∀ c ∈ chars "main", isWordChar c = true :=
    List.forall_iff_forall_mem.mp (by decide)
  exact absurd (h.comment hname) (by decide)

end LuaZephyr
