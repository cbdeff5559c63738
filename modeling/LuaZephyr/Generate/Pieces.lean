import LuaZephyr.Generate.LuazGen

/-!
# A template is filled in

`main` replaces one placeholder after the other in a text that already holds the values
of the earlier ones. As long as these have no `@`, the result is the template in which
each placeholder has its own value.

Values with an `@` in them are where the two differ: a replacement would then also change what
an earlier one has put in. The file names that reach `main` are identifiers, which have none.
Encodings and file access are left out.
-/

namespace LuaZephyr

open PyText CLexing

/-- A template is made of characters and placeholders. -/
inductive Piece where
  | char (c : Char)
  | placeholder (p : Placeholder)
  deriving DecidableEq, Repr

/-- A template with values for its placeholders. -/
def fill (value : Placeholder → List Char) (ps : List Piece) : List Char :=
  ps.flatMap fun
    | .char c => [c]
    | .placeholder p => value p

def allPlaceholders : List Placeholder :=
  [.fileName, .fileNameUpper, .luaContent, .luaBytecode, .luaBytecodeLen]

/-- The pieces of a text, of which the first `skip` characters are passed over. -/
def piecesFrom : Nat → List Char → List Piece
  | _, [] => []
  | skip + 1, _ :: text => piecesFrom skip text
  | 0, c :: text =>
      if c = '@' then
        match allPlaceholders.find? fun p => p.text.isPrefixOf (c :: text) with
        | some p => .placeholder p :: piecesFrom (p.text.length - 1) text
        | none => .char c :: piecesFrom 0 text
      else .char c :: piecesFrom 0 text

/-- The next character cannot be the second one of a placeholder. -/
def followed : List Piece → Bool
  | .char c :: _ => c ≠ 'F' && c ≠ 'L'
  | _ => false

/-- No `@` can begin a placeholder that was not there before. -/
def tidy : List Piece → Bool
  | [] => true
  | .char c :: ps => (c ≠ '@' || followed ps) && tidy ps
  | .placeholder _ :: ps => followed ps && tidy ps

@[simp] theorem fill_nil (value : Placeholder → List Char) : fill value [] = [] := rfl

@[simp] theorem fill_char (value : Placeholder → List Char) (c : Char) (ps : List Piece) :
    fill value (.char c :: ps) = c :: fill value ps := rfl

@[simp] theorem fill_placeholder (value : Placeholder → List Char) (p : Placeholder)
    (ps : List Piece) : fill value (.placeholder p :: ps) = value p ++ fill value ps := rfl

theorem fill_append (value : Placeholder → List Char) (ps qs : List Piece) :
    fill value (ps ++ qs) = fill value ps ++ fill value qs := List.flatMap_append

/-- A placeholder is an `@`, a word that begins with `F` or `L`, and another `@`. -/
theorem Placeholder.text_eq (p : Placeholder) : ∃ c word, p.text = '@' :: c :: word ++ ['@'] ∧
    (c = 'F' ∨ c = 'L') ∧ '@' ∉ c :: word := by
  cases p with
  | fileName => exact ⟨'F', chars "ILE_NAME", rfl, by decide, by decide⟩
  | fileNameUpper => exact ⟨'F', chars "ILE_NAME_UPPER", rfl, by decide, by decide⟩
  | luaContent => exact ⟨'L', chars "UA_CONTENT", rfl, by decide, by decide⟩
  | luaBytecode => exact ⟨'L', chars "UA_BYTECODE", rfl, by decide, by decide⟩
  | luaBytecodeLen => exact ⟨'L', chars "UA_BYTECODE_LEN", rfl, by decide, by decide⟩

theorem Placeholder.text_ne_nil (p : Placeholder) : p.text ≠ [] := by
  cases p <;> decide

/-- No placeholder begins another. -/
theorem Placeholder.not_prefix {p q : Placeholder} (h : p ≠ q) : ¬ p.text <+: q.text := by
  cases p <;> cases q <;> first | exact absurd rfl h | decide

theorem Placeholder.not_prefix_append {p q : Placeholder} (h : p ≠ q) (rest : List Char) :
    ¬ p.text <+: q.text ++ rest := by
  intro hpre
  obtain hle | hle := Nat.le_total p.text.length q.text.length
  · exact Placeholder.not_prefix h (List.prefix_of_prefix_length_le hpre
      (List.prefix_append _ _) hle)
  · exact Placeholder.not_prefix h.symm (List.prefix_of_prefix_length_le
      (List.prefix_append _ _) hpre hle)

variable {q : Placeholder} {new : List Char}

/-- A text without `@` is left alone. -/
theorem replace_append_of_plain {first : List Char} (h : '@' ∉ first) (second : List Char) :
    replace q.text new (first ++ second) = first ++ replace q.text new second := by
  obtain ⟨d, word, htext, -, -⟩ := q.text_eq
  induction first with
  | nil => rfl
  | cons c first ih =>
      rw [List.mem_cons, not_or] at h
      rw [List.cons_append, replace_cons, ih h.2, List.cons_append]
      rw [htext, List.cons_append, List.cons_append, List.cons_prefix_cons]
      exact fun hpre => h.1 hpre.1

/-- An `@` begins no placeholder when it is `followed`. -/
theorem not_prefix_at {value : Placeholder → List Char} {ps : List Piece}
    (h : followed ps = true) : ¬ q.text <+: '@' :: fill value ps := by
  obtain ⟨d, word, htext, hd, -⟩ := q.text_eq
  intro hpre
  cases ps with
  | nil => contradiction
  | cons piece ps =>
      cases piece with
      | placeholder p => contradiction
      | char c =>
          rw [htext, fill_char, List.cons_append, List.cons_append, List.cons_prefix_cons,
            List.cons_prefix_cons] at hpre
          obtain ⟨-, rfl, -⟩ := hpre
          simp only [followed, Bool.and_eq_true, decide_eq_true_eq] at h
          exact hd.elim h.1 h.2

theorem replace_at {value : Placeholder → List Char} {ps : List Piece} (h : followed ps = true) :
    replace q.text new ('@' :: fill value ps) = '@' :: replace q.text new (fill value ps) :=
  replace_cons (not_prefix_at h)

/-- One replacement gives its placeholder the new value. -/
theorem replace_fill {value : Placeholder → List Char} (hq : value q = q.text)
    (hvalue : ∀ p, value p = p.text ∨ '@' ∉ value p) {ps : List Piece} (h : tidy ps = true) :
    replace q.text new (fill value ps) = fill (Function.update value q new) ps := by
  induction ps with
  | nil => rfl
  | cons piece ps ih =>
      cases piece with
      | char c =>
          simp only [tidy, Bool.and_eq_true, Bool.or_eq_true, decide_eq_true_eq] at h
          rw [fill_char, fill_char, ← ih h.2]
          by_cases hc : c = '@'
          · subst hc
            exact replace_at (h.1.resolve_left fun hne => hne rfl)
          · have hplain : '@' ∉ [c] := by simpa using Ne.symm hc
            exact replace_append_of_plain hplain _
      | placeholder p =>
          simp only [tidy, Bool.and_eq_true] at h
          rw [fill_placeholder, fill_placeholder, ← ih h.2]
          by_cases hp : p = q
          · subst hp
            rw [hq, Function.update_self, replace_append p.text_ne_nil]
          · rw [Function.update_of_ne hp]
            obtain htext | hplain := hvalue p
            · obtain ⟨c, word, heq, -, hword⟩ := p.text_eq
              have hrest : replace q.text new ('@' :: (c :: word ++ '@' :: fill value ps)) =
                  '@' :: replace q.text new (c :: word ++ '@' :: fill value ps) := by
                apply replace_cons
                have hnot := Placeholder.not_prefix_append (Ne.symm hp) (fill value ps)
                simpa [heq] using hnot
              have hword' : replace q.text new (c :: word ++ '@' :: fill value ps) =
                  c :: word ++ '@' :: replace q.text new (fill value ps) := by
                rw [replace_append_of_plain hword, replace_at h.1]
              rw [htext, heq]
              simpa using hrest.trans (congrArg _ hword')
            · exact replace_append_of_plain hplain _

/-- A placeholder in a text is in what follows a text without `@`. -/
theorem infix_of_infix_append {first second : List Char} (hfirst : '@' ∉ first)
    (h : q.text <:+: first ++ second) : q.text <:+: second := by
  obtain ⟨d, word, htext, -, -⟩ := q.text_eq
  induction first with
  | nil => exact h
  | cons c first ih =>
      rw [List.mem_cons, not_or] at hfirst
      rw [List.cons_append, List.infix_cons_iff] at h
      obtain hhere | hlater := h
      · rw [htext, List.cons_append, List.cons_append, List.cons_prefix_cons] at hhere
        exact absurd hhere.1 hfirst.1
      · exact ih hfirst.2 hlater

theorem not_infix_fill {value : Placeholder → List Char} {ps : List Piece}
    (hvalue : ∀ p, .placeholder p ∈ ps → '@' ∉ value p) (h : tidy ps = true) :
    ¬ q.text <:+: fill value ps := by
  induction ps with
  | nil =>
      intro hinfix
      exact q.text_ne_nil (List.infix_nil.mp hinfix)
  | cons piece ps ih =>
      have hrest := fun p hp => hvalue p (List.mem_cons_of_mem _ hp)
      cases piece with
      | char c =>
          simp only [tidy, Bool.and_eq_true, Bool.or_eq_true, decide_eq_true_eq] at h
          intro hinfix
          rw [fill_char] at hinfix
          by_cases hc : c = '@'
          · subst hc
            have hfollowed := h.1.resolve_left fun hne => hne rfl
            obtain hhere | hlater := List.infix_cons_iff.mp hinfix
            · exact not_prefix_at hfollowed hhere
            · exact ih hrest h.2 hlater
          · have hplain : '@' ∉ [c] := by simpa using Ne.symm hc
            exact ih hrest h.2 (infix_of_infix_append hplain hinfix)
      | placeholder p =>
          simp only [tidy, Bool.and_eq_true] at h
          intro hinfix
          rw [fill_placeholder] at hinfix
          exact ih hrest h.2
            (infix_of_infix_append (hvalue p (List.mem_cons_self ..)) hinfix)

/-- The template with the names in place. -/
def named (name : List Char) : Placeholder → List Char
  | .fileName => name
  | .fileNameUpper => upper name
  | p => p.text

theorem eq_at_of_toUpper {c : Char} (h : c.toUpper = '@') : c = '@' := by
  unfold Char.toUpper at h
  split at h
  · rename_i hlower
    have hval := congrArg (fun d => d.val.toNat) h
    simp only [UInt32.le_iff_toNat_le] at hlower
    obtain ⟨hlo, hhi⟩ := hlower
    have ha : 'a'.val.toNat = 97 := rfl
    have hz : 'z'.val.toNat = 122 := rfl
    have hat : '@'.val.toNat = 64 := rfl
    simp only [UInt32.toNat_add] at hval
    have hshift : ('A'.val - 'a'.val).toNat = 4294967264 := rfl
    omega
  · exact h

theorem at_not_mem_upper {name : List Char} (h : '@' ∉ name) : '@' ∉ upper name := by
  intro hmem
  obtain ⟨c, hc, hupper⟩ := List.mem_map.mp hmem
  exact h (eq_at_of_toUpper hupper ▸ hc)

theorem named_eq (name : List Char) :
    named name = Function.update (Function.update Placeholder.text .fileName name)
      .fileNameUpper (upper name) := by
  funext p
  cases p <;> rfl

theorem named_plain {name : List Char} (h : '@' ∉ name) (p : Placeholder) :
    named name p = p.text ∨ '@' ∉ named name p := by
  cases p with
  | fileName => exact .inr h
  | fileNameUpper => exact .inr (at_not_mem_upper h)
  | _ => exact .inl rfl

variable {ps : List Piece} {name : List Char}

theorem withNames_fill (hname : '@' ∉ name) (h : tidy ps = true) :
    withNames (fill Placeholder.text ps) name = fill (named name) ps := by
  have hfirst (p : Placeholder) : Function.update Placeholder.text .fileName name p = p.text ∨
      '@' ∉ Function.update Placeholder.text .fileName name p := by
    cases p with
    | fileName => exact .inr hname
    | _ => exact .inl rfl
  have hupper : Function.update Placeholder.text .fileName name .fileNameUpper =
      Placeholder.text .fileNameUpper := rfl
  rw [withNames, replace_fill rfl (fun _ => .inl rfl) h, replace_fill hupper hfirst h, named_eq]

/-- What the script's text is put into is the template with the names in place. -/
theorem generate_fill (hname : '@' ∉ name) (h : tidy ps = true) (file : List Char) :
    generate (fill Placeholder.text ps) name file =
      fill (Function.update (named name) .luaContent (luaToCString file)) ps := by
  have hcontent : named name .luaContent = Placeholder.text .luaContent := rfl
  rw [generate, withNames_fill hname h, replace_fill hcontent (named_plain hname) h]

end LuaZephyr
