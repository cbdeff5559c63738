import LuaZephyr.Generate.LuazGen

/-!
# The inside of the literal

The generator puts a space and a line continuation before each line. Once the
continuations are spliced away, what is left of a line is the space, the line with its
double quotes escaped, and an escaped newline.

The texts are lists of characters, before and after splicing, and each is given by a recursion
on the script's characters, with a flag for the start of a line. What the compiler then makes of
the escape sequences is left to `Generate.Embedding`.
-/

namespace LuaZephyr

open PyText CLexing

/-- `line.replace('"', '\\"')`, for one character. -/
def escapeQuote (c : Char) : List Char := if c = '"' then ['\\', '"'] else [c]

/-- The spliced inside of the literal for a text read from a file; `fresh` when nothing
has been read of the line. -/
def insideFrom (fresh : Bool) (text : List Char) : List Char :=
  perLine isLineBoundary [' '] ['\\', 'n'] escapeQuote fresh text

def inside (file : List Char) : List Char := insideFrom true (universalNewlines file)

theorem insideFrom_cons (fresh : Bool) (c : Char) (text : List Char) :
    insideFrom fresh (c :: text) = (if fresh then [' '] else []) ++
      if isLineBoundary c then ['\\', 'n'] ++ insideFrom true text
      else escapeQuote c ++ insideFrom false text := by
  rw [insideFrom, perLine]
  rfl

theorem replace_quote (line : List Char) :
    replace ['"'] ['\\', '"'] line = line.flatMap escapeQuote :=
  replace_singleton '"' line

theorem replace_return {line : List Char} (h : '\r' ∉ line) : replace ['\r'] [] line = line := by
  rw [replace_singleton]
  induction line with
  | nil => rfl
  | cons c line ih =>
      rw [List.mem_cons, not_or] at h
      rw [List.flatMap_cons, if_neg (Ne.symm h.1), ih h.2, List.singleton_append]

theorem not_mem_of_mem_linesFrom {ends : Char → Bool} {c : Char} {text : List Char}
    (htext : c ∉ text) {line : List Char} (hline : c ∉ line) :
    ∀ l ∈ linesFrom ends line text, c ∉ l := by
  induction text generalizing line with
  | nil =>
      rw [linesFrom]
      split
      · exact List.forall_mem_nil _
      · exact List.forall_mem_singleton.mpr hline
  | cons d text ih =>
      rw [List.mem_cons, not_or] at htext
      rw [linesFrom]
      split
      · exact List.forall_mem_cons.mpr ⟨hline, ih htext.2 List.not_mem_nil⟩
      · refine ih htext.2 ?_
        rw [List.mem_append, List.mem_singleton, not_or]
        exact ⟨hline, htext.1⟩

theorem not_mem_escapeQuotes {line : List Char} (h : '\r' ∉ line) :
    '\r' ∉ line.flatMap escapeQuote := by
  intro hmem
  obtain ⟨c, hc, hmem⟩ := List.mem_flatMap.mp hmem
  unfold escapeQuote at hmem
  split at hmem
  · simp at hmem
  · obtain rfl := List.mem_singleton.mp hmem
    exact h hc

/-- The text between the double quotes, line by line. -/
theorem luaToCString_eq (file : List Char) :
    luaToCString file = ['\\', '\n'] ++ perLine isLineBoundary [' ', '\\', '\n'] ['\\', 'n']
      escapeQuote true (universalNewlines file) := by
  have hreturn := not_mem_universalNewlines file
  have hlines := flatMap_linesFrom isLineBoundary [' ', '\\', '\n'] ['\\', 'n'] escapeQuote []
    (universalNewlines file)
  rw [luaToCString, join_cons, splitlines, universalNewlines_eq_self hreturn]
  simp only [if_true, List.nil_append, decide_true] at hlines
  rw [← hlines, List.flatMap_map]
  congr 1
  apply List.flatMap_congr
  intro line hline
  have hplain : '\r' ∉ line := not_mem_of_mem_linesFrom hreturn List.not_mem_nil line hline
  rw [replace_quote, replace_return (not_mem_escapeQuotes hplain), List.append_assoc]

theorem escapeQuote_eq_cons (c : Char) : ∃ rest, escapeQuote c =
    (if c = '"' then '\\' else c) :: rest := by
  unfold escapeQuote
  split
  · exact ⟨['"'], rfl⟩
  · exact ⟨[], rfl⟩

theorem isLineBoundary_newline : isLineBoundary '\n' = true := by decide

/-- What follows a character of a line is not a newline. -/
theorem perLine_false_eq_cons (before text : List Char) : ∃ d rest,
    perLine isLineBoundary before ['\\', 'n'] escapeQuote false text = d :: rest ∧ d ≠ '\n' := by
  cases text with
  | nil => exact ⟨'\\', ['n'], rfl, by decide⟩
  | cons c text =>
      rw [perLine]
      by_cases hc : isLineBoundary c = true
      · rw [if_pos hc]
        exact ⟨'\\', _, rfl, by decide⟩
      · rw [if_neg hc]
        obtain ⟨rest, hrest⟩ := escapeQuote_eq_cons c
        refine ⟨if c = '"' then '\\' else c, _, by rw [hrest]; rfl, ?_⟩
        split
        · decide
        · rintro rfl
          exact hc isLineBoundary_newline

variable {τ : Type} (t : τ)

/-- A text with one mark on all its characters. -/
def own (text : List Char) : List (Char × τ) := text.map fun c => (c, t)

@[simp] theorem own_nil : own t [] = [] := rfl

@[simp] theorem own_cons (c : Char) (text : List Char) : own t (c :: text) = (c, t) :: own t text :=
  rfl

@[simp] theorem own_append (first second : List Char) :
    own t (first ++ second) = own t first ++ own t second := List.map_append

@[simp] theorem map_fst_own (text : List Char) : (own t text).map Prod.fst = text := by
  rw [own, List.map_map]
  exact List.map_id text

/-- Splicing takes away the continuations and nothing else. -/
theorem splice_perLine (fresh : Bool) (text : List Char) (rest : List (Char × τ)) :
    splice (own t (perLine isLineBoundary [' ', '\\', '\n'] ['\\', 'n'] escapeQuote fresh text) ++
      rest) = own t (insideFrom fresh text) ++ splice rest := by
  induction text generalizing fresh with
  | nil =>
      cases fresh with
      | true => rfl
      | false =>
          simp [perLine, insideFrom, splice_backslash, splice_cons]
  | cons c text ih =>
      have hline : splice (own t (if isLineBoundary c = true then ['\\', 'n'] ++
            perLine isLineBoundary [' ', '\\', '\n'] ['\\', 'n'] escapeQuote true text
          else escapeQuote c ++
            perLine isLineBoundary [' ', '\\', '\n'] ['\\', 'n'] escapeQuote false text) ++ rest) =
          own t (if isLineBoundary c = true then ['\\', 'n'] ++ insideFrom true text
            else escapeQuote c ++ insideFrom false text) ++ splice rest := by
        by_cases hc : isLineBoundary c = true
        · rw [if_pos hc, if_pos hc]
          simp [splice_backslash, splice_cons, ih]
        · rw [if_neg hc, if_neg hc]
          obtain ⟨d, tail, htail, hd⟩ := perLine_false_eq_cons [' ', '\\', '\n'] text
          have hrest := ih false
          rw [htail] at hrest ⊢
          by_cases hquote : c = '"'
          · subst hquote
            simpa [escapeQuote, splice_backslash, splice_cons] using hrest
          · by_cases hbackslash : c = '\\'
            · subst hbackslash
              have hnext : (d, t).1 ≠ '\n' := hd
              simpa [escapeQuote, splice_backslash hnext] using hrest
            · have hplain : (c, t).1 ≠ '\\' := hbackslash
              simpa [escapeQuote, hquote, splice_cons hplain] using hrest
      rw [insideFrom_cons, perLine]
      cases fresh with
      | true =>
          have hspace : (' ', t).1 ≠ '\\' := show ' ' ≠ '\\' by decide
          simp only [if_true, own_cons, List.cons_append, List.nil_append]
          rw [splice_cons hspace]
          exact congrArg _ hline
      | false => simpa using hline

/-- In the generated file the compiler sees `inside` where the generator put its text. -/
theorem splice_luaToCString (file : List Char) (rest : List (Char × τ)) :
    splice (own t (luaToCString file) ++ rest) = own t (inside file) ++ splice rest := by
  rw [luaToCString_eq]
  exact splice_perLine t true (universalNewlines file) rest

theorem newline_not_mem_insideFrom (fresh : Bool) (text : List Char) :
    '\n' ∉ insideFrom fresh text := by
  induction text generalizing fresh with
  | nil => cases fresh <;> simp [insideFrom, perLine]
  | cons c text ih =>
      have hbefore : '\n' ∉ if fresh then [' '] else [] := by
        split <;> decide
      rw [insideFrom_cons, List.mem_append, not_or]
      refine ⟨hbefore, ?_⟩
      split
      · rw [List.mem_append, not_or]
        exact ⟨by decide, ih true⟩
      · rename_i hc
        rw [List.mem_append, not_or]
        refine ⟨?_, ih false⟩
        unfold escapeQuote
        split
        · decide
        · rw [List.mem_singleton]
          rintro rfl
          exact hc isLineBoundary_newline

end LuaZephyr
