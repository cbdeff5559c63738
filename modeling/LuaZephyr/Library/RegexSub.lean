import Mathlib.Data.List.Basic

/-!
# Substitution with regular expressions

A backtracking matcher tries the ways to match a text in a fixed order: a greedy `+` first
takes all it can and then gives back one character after the other. The first way that works
is the match. `re.sub` replaces the matches from left to right; the next one is looked for
behind the last. None of the expressions here matches the empty text.
-/

namespace RegexSub

/-- A character of a class, a greedy run of such characters, a sequence, a group. -/
inductive Regex where
  | one (p : Char → Bool)
  | plus (p : Char → Bool)
  | seq (r s : Regex)
  | group (r : Regex)

/-- A way to match: what is matched, what its groups hold, and what follows. -/
structure Match where
  text : List Char
  groups : List (List Char)
  rest : List Char
  deriving DecidableEq, Repr

/-- All ways for a run of characters, the longest first. -/
def runs (p : Char → Bool) : List Char → List Match
  | [] => []
  | c :: text =>
      if p c then
        (runs p text).map (fun m => { m with text := c :: m.text }) ++ [⟨[c], [], text⟩]
      else []

/-- All ways to match at the head of a text, in the order in which they are tried. -/
def attempts : Regex → List Char → List Match
  | .one _, [] => []
  | .one p, c :: text => if p c then [⟨[c], [], text⟩] else []
  | .plus p, text => runs p text
  | .seq r s, text => (attempts r text).flatMap fun m =>
      (attempts s m.rest).map fun n => ⟨m.text ++ n.text, m.groups ++ n.groups, n.rest⟩
  | .group r, text => (attempts r text).map fun m => { m with groups := m.text :: m.groups }

/-- `re.match`. -/
def firstMatch (r : Regex) (text : List Char) : Option Match := (attempts r text).head?

/-- `re.sub`, of a text of which the first `skip` characters are passed over. -/
def subFrom (r : Regex) (replacement : List (List Char) → List Char) :
    Nat → List Char → List Char
  | _, [] => []
  | skip + 1, _ :: text => subFrom r replacement skip text
  | 0, c :: text =>
      match firstMatch r (c :: text) with
      | some m => replacement m.groups ++ subFrom r replacement (m.text.length - 1) text
      | none => c :: subFrom r replacement 0 text

/-- `re.sub(r, replacement, text)`, where the replacement is made of the groups. -/
def sub (r : Regex) (replacement : List (List Char) → List Char) (text : List Char) :
    List Char :=
  subFrom r replacement 0 text

theorem mem_attempts_one {p : Char → Bool} {text : List Char} {m : Match} :
    m ∈ attempts (.one p) text ↔ ∃ c rest, text = c :: rest ∧ p c = true ∧ m = ⟨[c], [], rest⟩ := by
  cases text with
  | nil => simp [attempts]
  | cons c rest => cases hc : p c <;> simp [attempts, hc]

theorem mem_attempts_seq {r s : Regex} {text : List Char} {m : Match} :
    m ∈ attempts (.seq r s) text ↔ ∃ a ∈ attempts r text, ∃ b ∈ attempts s a.rest,
      m = ⟨a.text ++ b.text, a.groups ++ b.groups, b.rest⟩ := by
  simp [attempts, eq_comm]

theorem mem_attempts_group {r : Regex} {text : List Char} {m : Match} :
    m ∈ attempts (.group r) text ↔
      ∃ a ∈ attempts r text, m = ⟨a.text, a.text :: a.groups, a.rest⟩ := by
  simp [attempts, eq_comm]

/-- A match is a part of the text that is not empty, and the rest follows it. -/
def Match.Fits (m : Match) (text : List Char) : Prop := text = m.text ++ m.rest ∧ m.text ≠ []

theorem fits_of_mem_runs {p : Char → Bool} {text : List Char} {m : Match}
    (h : m ∈ runs p text) : m.Fits text := by
  induction text generalizing m with
  | nil => exact absurd h List.not_mem_nil
  | cons c text ih =>
      rw [runs] at h
      split at h
      · obtain h | h := List.mem_append.mp h
        · obtain ⟨n, hn, rfl⟩ := List.mem_map.mp h
          exact ⟨congrArg (c :: ·) (ih hn).1, List.cons_ne_nil _ _⟩
        · obtain rfl := List.mem_singleton.mp h
          exact ⟨rfl, List.cons_ne_nil _ _⟩
      · exact absurd h List.not_mem_nil

theorem fits_of_mem_attempts {r : Regex} {text : List Char} {m : Match}
    (h : m ∈ attempts r text) : m.Fits text := by
  induction r generalizing text m with
  | one p =>
      obtain ⟨c, rest, rfl, -, rfl⟩ := mem_attempts_one.mp h
      exact ⟨rfl, List.cons_ne_nil _ _⟩
  | plus p => exact fits_of_mem_runs h
  | seq r s ihr ihs =>
      obtain ⟨a, ha, b, hb, rfl⟩ := mem_attempts_seq.mp h
      obtain ⟨htext, hne⟩ := ihr ha
      refine ⟨?_, List.append_ne_nil_of_left_ne_nil hne _⟩
      rw [htext, (ihs hb).1, List.append_assoc]
  | group r ih =>
      obtain ⟨a, ha, rfl⟩ := mem_attempts_group.mp h
      obtain ⟨htext, hne⟩ := ih ha
      exact ⟨htext, hne⟩

theorem mem_of_firstMatch {r : Regex} {text : List Char} {m : Match}
    (h : firstMatch r text = some m) : m ∈ attempts r text :=
  List.mem_of_mem_head? h

theorem fits_of_firstMatch {r : Regex} {text : List Char} {m : Match}
    (h : firstMatch r text = some m) : m.Fits text :=
  fits_of_mem_attempts (mem_of_firstMatch h)

variable {r : Regex} {replacement : List (List Char) → List Char}

theorem subFrom_eq (skip : Nat) (text : List Char) :
    subFrom r replacement skip text = sub r replacement (text.drop skip) := by
  induction text generalizing skip with
  | nil =>
      rw [List.drop_nil]
      cases skip <;> rfl
  | cons c text ih =>
      cases skip with
      | zero => rfl
      | succ skip => exact ih skip

@[simp] theorem sub_nil : sub r replacement [] = [] := rfl

/-- A character at which nothing matches is kept. -/
theorem sub_cons {c : Char} {text : List Char} (h : firstMatch r (c :: text) = none) :
    sub r replacement (c :: text) = c :: sub r replacement text := by
  rw [sub, subFrom, h, sub]

/-- A match is replaced, and the search goes on behind it. -/
theorem sub_match {text : List Char} {m : Match} (h : firstMatch r text = some m) :
    sub r replacement text = replacement m.groups ++ sub r replacement m.rest := by
  obtain ⟨htext, hne⟩ := fits_of_firstMatch h
  obtain ⟨c, matched, heq⟩ := List.exists_cons_of_ne_nil hne
  rw [heq] at htext
  subst htext
  rw [List.cons_append] at h ⊢
  rw [sub, subFrom, h]
  simp [subFrom_eq, heq]

/-- A function is the substitution when it does the same at a match, and keeps a character
where there is none. -/
theorem sub_eq_of {f : List Char → List Char} (hnil : f [] = [])
    (hcons : ∀ c text, firstMatch r (c :: text) = none → f (c :: text) = c :: f text)
    (hmatch : ∀ text m, firstMatch r text = some m →
      f text = replacement m.groups ++ f m.rest) (text : List Char) :
    sub r replacement text = f text := by
  induction hn : text.length using Nat.strongRecOn generalizing text with
  | ind n ih =>
      cases text with
      | nil => exact hnil.symm
      | cons c text =>
          cases hfirst : firstMatch r (c :: text) with
          | none =>
              rw [sub_cons hfirst, hcons c text hfirst, ih text.length (by simp [← hn]) text rfl]
          | some m =>
              obtain ⟨htext, hne⟩ := fits_of_firstMatch hfirst
              have hlen := congrArg List.length htext
              have hpos := List.length_pos_of_ne_nil hne
              rw [List.length_append] at hlen
              rw [sub_match hfirst, hmatch _ m hfirst, ih m.rest.length (by omega) m.rest rfl]

theorem head?_flatMap_append {α β : Type} (f : α → List β) (xs ys : List α) :
    ((xs ++ ys).flatMap f).head? = (xs.flatMap f).head?.or (ys.flatMap f).head? := by
  rw [List.flatMap_append, List.head?_append]

/-- A run followed by `s`: the run goes on if that works, and else it ends here. -/
theorem firstMatch_plus_cons {p : Char → Bool} {s : Regex} {c : Char} {text : List Char}
    (h : p c = true) :
    firstMatch (.seq (.group (.plus p)) s) (c :: text) =
      ((firstMatch (.seq (.group (.plus p)) s) text).map fun m =>
          ⟨c :: m.text, m.groups.modifyHead (c :: ·), m.rest⟩).or
        ((firstMatch s text).map fun m => ⟨c :: m.text, [c] :: m.groups, m.rest⟩) := by
  simp only [firstMatch, attempts, runs, h, if_true, List.map_append, List.map_map]
  rw [head?_flatMap_append]
  congr 1
  · rw [← List.head?_map, List.map_flatMap, List.flatMap_map, List.flatMap_map]
    simp [Function.comp_def]
  · simp

theorem firstMatch_plus_of_not {p : Char → Bool} {s : Regex} {c : Char} {text : List Char}
    (h : p c = false) : firstMatch (.seq (.group (.plus p)) s) (c :: text) = none := by
  simp [firstMatch, attempts, runs, h]

@[simp] theorem firstMatch_plus_nil {p : Char → Bool} {s : Regex} :
    firstMatch (.seq (.group (.plus p)) s) [] = none := rfl

end RegexSub
