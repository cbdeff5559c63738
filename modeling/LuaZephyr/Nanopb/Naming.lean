import LuaZephyr.Library.PyText
import LuaZephyr.Library.RegexSub

/-!
# Names in snake case

The nanopb generator asks `NamingStyleLuaC` for the names of its C symbols, whole or in
parts, and the bridge's macros paste such names together. The style works with two
substitutions over the whole name. What they do at a character depends on no more than the
character before and the one after, so that a name is the same however it was put together.
Words are of ASCII characters.
-/

namespace LuaZephyr

open PyText RegexSub

/-- `\1_\2`. -/
def separated (groups : List (List Char)) : List Char :=
  groups.getD 0 [] ++ '_' :: groups.getD 1 []

/-- `([A-Z]+)([A-Z][a-z])`. -/
def wordStart : Regex :=
  .seq (.group (.plus Char.isUpper)) (.group (.seq (.one Char.isUpper) (.one Char.isLower)))

/-- `([a-z\d])([A-Z])`. -/
def wordEnd : Regex :=
  .seq (.group (.one fun c => c.isLower || c.isDigit)) (.group (.one Char.isUpper))

/-- `word.lower()`. -/
def lower (word : List Char) : List Char := word.map Char.toLower

def underscore (word : List Char) : List Char :=
  lower (replace ['-'] ['_'] (sub wordEnd separated (sub wordStart separated word)))

def typeName (name : List Char) : List Char := underscore name ++ chars "_t"

def bytesType (structName name : List Char) : List Char :=
  underscore structName ++ '_' :: underscore name ++ chars "_t"

/-- The text with an underscore before each character for which `breaks` says so, given the
one before it and the one after. -/
def insertBreaks (breaks : Option Char → Char → Option Char → Bool) :
    Option Char → List Char → List Char
  | _, [] => []
  | before, c :: text =>
      if breaks before c text.head? then '_' :: c :: insertBreaks breaks (some c) text
      else c :: insertBreaks breaks (some c) text

/-- A capital between a capital and a small letter. -/
def startsWord (before : Option Char) (c : Char) (after : Option Char) : Bool :=
  c.isUpper && (before.any Char.isUpper && after.any Char.isLower)

/-- A capital after a small letter or a digit. -/
def endsWord (before : Option Char) (c : Char) (_ : Option Char) : Bool :=
  c.isUpper && before.any fun b => b.isLower || b.isDigit

/-- Where the name is divided. -/
def divides (before : Option Char) (c : Char) (after : Option Char) : Bool :=
  c.isUpper && (before.any (fun b => b.isLower || b.isDigit) ||
    (before.any Char.isUpper && after.any Char.isLower))

/-- What becomes of a character in the end. -/
def smallChar (c : Char) : Char := if c = '-' then '_' else c.toLower

/-- A name in snake case, by the rule for one character. -/
def snakeCase (word : List Char) : List Char := (insertBreaks divides none word).map smallChar

variable {breaks : Option Char → Char → Option Char → Bool}

/-- What is before a text matters for its first character only. -/
theorem insertBreaks_before {before before' : Option Char} {text : List Char}
    (h : ∀ c rest, text = c :: rest → breaks before c rest.head? = breaks before' c rest.head?) :
    insertBreaks breaks before text = insertBreaks breaks before' text := by
  cases text with
  | nil => rfl
  | cons c rest => rw [insertBreaks, insertBreaks, h c rest rfl]

theorem not_isUpper_of_isLower {c : Char} (h : c.isLower = true) : c.isUpper = false := by
  have hlower := isLower_iff.mp h
  rw [Bool.eq_false_iff]
  intro hupper
  have hbound := isUpper_iff.mp hupper
  omega

/-- After a character that is no capital, a capital starts no word. -/
theorem insertBreaks_startsWord {c : Char} (h : c.isUpper = false) (text : List Char) :
    insertBreaks startsWord (some c) text = insertBreaks startsWord none text := by
  refine insertBreaks_before ?_
  rintro d rest -
  simp [startsWord, h]

/-- A capital and a small letter match as they are. -/
theorem firstMatch_pair {text : List Char} {m : Match}
    (h : firstMatch (.group (.seq (.one Char.isUpper) (.one Char.isLower))) text = some m) :
    ∃ u l rest, text = u :: l :: rest ∧ u.isUpper = true ∧ l.isLower = true ∧
      m = ⟨[u, l], [[u, l]], rest⟩ := by
  obtain ⟨a, ha, rfl⟩ := mem_attempts_group.mp (mem_of_firstMatch h)
  obtain ⟨b, hb, d, hd, rfl⟩ := mem_attempts_seq.mp ha
  obtain ⟨u, text, rfl, hu, rfl⟩ := mem_attempts_one.mp hb
  obtain ⟨l, rest, rfl, hl, rfl⟩ := mem_attempts_one.mp hd
  exact ⟨u, l, rest, rfl, hu, hl, rfl⟩

theorem firstMatch_pair_cons {u l : Char} (hu : u.isUpper = true) (hl : l.isLower = true)
    (rest : List Char) :
    firstMatch (.group (.seq (.one Char.isUpper) (.one Char.isLower))) (u :: l :: rest) =
      some ⟨[u, l], [[u, l]], rest⟩ := by
  simp [firstMatch, attempts, hu, hl]

/-- A match is a run of capitals, a capital and a small letter. -/
theorem firstMatch_wordStart {text : List Char} {m : Match}
    (h : firstMatch wordStart text = some m) :
    ∃ first u l, m = ⟨first ++ [u, l], [first, [u, l]], m.rest⟩ ∧ first ≠ [] ∧
      (∀ c ∈ first, c.isUpper = true) ∧ u.isUpper = true ∧ l.isLower = true := by
  induction text generalizing m with
  | nil => contradiction
  | cons c text ih =>
      by_cases hc : c.isUpper = true
      · rw [wordStart, firstMatch_plus_cons hc, Option.or_eq_some_iff] at h
        obtain h | ⟨-, h⟩ := h
        · obtain ⟨n, hn, rfl⟩ := Option.map_eq_some_iff.mp h
          obtain ⟨first, u, l, hm, hne, hfirst, hu, hl⟩ := ih hn
          refine ⟨c :: first, u, l, ?_, List.cons_ne_nil _ _, ?_, hu, hl⟩
          · rw [hm]
            rfl
          · exact List.forall_mem_cons.mpr ⟨hc, hfirst⟩
        · obtain ⟨n, hn, rfl⟩ := Option.map_eq_some_iff.mp h
          obtain ⟨u, l, rest, rfl, hu, hl, rfl⟩ := firstMatch_pair hn
          exact ⟨[c], u, l, rfl, List.cons_ne_nil _ _, List.forall_mem_singleton.mpr hc, hu, hl⟩
      · rw [wordStart, firstMatch_plus_of_not (Bool.eq_false_iff.mpr hc)] at h
        contradiction

/-- The underscore goes before the last capital of a run that a small letter follows. -/
theorem insertBreaks_run {c u l : Char} {first : List Char} (hc : c.isUpper = true)
    (hfirst : ∀ d ∈ first, d.isUpper = true) (hu : u.isUpper = true) (hl : l.isLower = true)
    (before : Option Char) (rest : List Char) :
    insertBreaks startsWord before (c :: first ++ u :: l :: rest) =
      c :: first ++ '_' :: u :: l :: insertBreaks startsWord none rest := by
  have hsmall := not_isUpper_of_isLower hl
  induction first generalizing c before with
  | nil =>
      have hnext : u.isLower = false := by
        rw [Bool.eq_false_iff]
        intro hlower
        rw [not_isUpper_of_isLower hlower] at hu
        contradiction
      rw [List.cons_append, List.nil_append, insertBreaks, insertBreaks, insertBreaks,
        insertBreaks_startsWord hsmall]
      simp [startsWord, hc, hu, hl, hnext, hsmall]
  | cons d first ih =>
      obtain ⟨hd, hrest⟩ := List.forall_mem_cons.mp hfirst
      have hnext : d.isLower = false := by
        rw [Bool.eq_false_iff]
        intro hlower
        rw [not_isUpper_of_isLower hlower] at hd
        contradiction
      rw [List.cons_append, insertBreaks, ih hd hrest]
      simp [startsWord, hnext]

theorem sub_wordStart (word : List Char) :
    sub wordStart separated word = insertBreaks startsWord none word := by
  refine sub_eq_of rfl ?_ ?_ word
  · intro c text h
    have hkeep : insertBreaks startsWord (some c) text = insertBreaks startsWord none text := by
      cases hc : c.isUpper with
      | false => exact insertBreaks_startsWord hc text
      | true =>
          refine insertBreaks_before ?_
          rintro u rest rfl
          rw [wordStart, firstMatch_plus_cons hc, Option.or_eq_none_iff] at h
          cases rest with
          | nil => simp [startsWord]
          | cons l rest =>
              -- A pair here would be a match with the one capital before it.
              have hpair : ¬ (u.isUpper = true ∧ l.isLower = true) := by
                rintro ⟨hu, hl⟩
                rw [firstMatch_pair_cons hu hl] at h
                exact absurd h.2 (by simp)
              simpa [startsWord, hc] using hpair
    rw [insertBreaks, hkeep]
    simp [startsWord]
  · intro text m h
    obtain ⟨htext, -⟩ := fits_of_firstMatch h
    obtain ⟨first, u, l, hm, hne, hfirst, hu, hl⟩ := firstMatch_wordStart h
    obtain ⟨c, tail, rfl⟩ := List.exists_cons_of_ne_nil hne
    obtain ⟨hc, htail⟩ := List.forall_mem_cons.mp hfirst
    have hsplit : text = c :: tail ++ u :: l :: m.rest := by
      rw [htext, hm]
      simp
    rw [hsplit, insertBreaks_run hc htail hu hl, hm]
    simp [separated]

/-- A match is a small letter or a digit, and a capital. -/
theorem firstMatch_wordEnd {text : List Char} {m : Match}
    (h : firstMatch wordEnd text = some m) :
    ∃ b u rest, text = b :: u :: rest ∧ (b.isLower || b.isDigit) = true ∧ u.isUpper = true ∧
      m = ⟨[b, u], [[b], [u]], rest⟩ := by
  obtain ⟨g, hg, g', hg', rfl⟩ := mem_attempts_seq.mp (mem_of_firstMatch h)
  obtain ⟨a, ha, rfl⟩ := mem_attempts_group.mp hg
  obtain ⟨b, text, rfl, hb, rfl⟩ := mem_attempts_one.mp ha
  obtain ⟨a', ha', rfl⟩ := mem_attempts_group.mp hg'
  obtain ⟨u, rest, rfl, hu, rfl⟩ := mem_attempts_one.mp ha'
  exact ⟨b, u, rest, rfl, hb, hu, rfl⟩

theorem firstMatch_wordEnd_cons {b u : Char} (hb : (b.isLower || b.isDigit) = true)
    (hu : u.isUpper = true) (rest : List Char) :
    firstMatch wordEnd (b :: u :: rest) = some ⟨[b, u], [[b], [u]], rest⟩ := by
  simp [firstMatch, wordEnd, attempts, hb, hu]

theorem not_isUpper_of_small {b : Char} (h : (b.isLower || b.isDigit) = true) :
    b.isUpper = false := by
  rw [Bool.eq_false_iff]
  intro hupper
  have hbound := isUpper_iff.mp hupper
  obtain hlower | hdigit := Bool.or_eq_true_iff.mp h
  · have hlower' := isLower_iff.mp hlower
    omega
  · have hdigit' := isDigit_iff.mp hdigit
    omega

/-- After a capital no word ends. -/
theorem insertBreaks_endsWord {u : Char} (h : u.isUpper = true) (text : List Char) :
    insertBreaks endsWord (some u) text = insertBreaks endsWord none text := by
  have hsmall : (u.isLower || u.isDigit) = false := by
    rw [Bool.eq_false_iff]
    intro hsmall
    rw [not_isUpper_of_small hsmall] at h
    contradiction
  refine insertBreaks_before ?_
  rintro d rest -
  simp only [endsWord, Option.any_some, hsmall, Option.any_none]

theorem sub_wordEnd (word : List Char) :
    sub wordEnd separated word = insertBreaks endsWord none word := by
  refine sub_eq_of rfl ?_ ?_ word
  · intro c text h
    have hkeep : insertBreaks endsWord (some c) text = insertBreaks endsWord none text := by
      refine insertBreaks_before ?_
      rintro u rest rfl
      have hpair : ¬ ((c.isLower || c.isDigit) = true ∧ u.isUpper = true) := by
        rintro ⟨hc, hu⟩
        rw [firstMatch_wordEnd_cons hc hu] at h
        contradiction
      simp only [endsWord, Option.any_some, Option.any_none, Bool.and_false]
      rw [Bool.eq_false_iff]
      intro hends
      obtain ⟨hu, hc⟩ := Bool.and_eq_true_iff.mp hends
      exact hpair ⟨hc, hu⟩
    rw [insertBreaks, hkeep]
    simp [endsWord]
  · intro text m h
    obtain ⟨b, u, rest, rfl, hb, hu, rfl⟩ := firstMatch_wordEnd h
    have hfirst : endsWord none b (u :: rest).head? = false := by simp [endsWord]
    have hsecond : endsWord (some b) u rest.head? = true := by
      simp only [endsWord, hu, Option.any_some, hb, Bool.and_self]
    rw [insertBreaks, hfirst, insertBreaks, hsecond, insertBreaks_endsWord hu]
    simp [separated]

/-- Dividing twice is dividing once where either rule says so. -/
theorem insertBreaks_twice (before : Option Char) (word : List Char) :
    insertBreaks endsWord before (insertBreaks startsWord before word) =
      insertBreaks divides before word := by
  induction word generalizing before with
  | nil => rfl
  | cons c text ih =>
      have hdivides : divides before c text.head? =
          (endsWord before c text.head? || startsWord before c text.head?) := by
        simp only [divides, endsWord, startsWord, Bool.and_or_distrib_left]
      rw [insertBreaks, insertBreaks, hdivides]
      cases hstarts : startsWord before c text.head? with
      | true =>
          -- The new underscore is no capital, and ends no word.
          have hunderscore (after : Option Char) : endsWord before '_' after = false := by
            simp [endsWord]
          have hcapital (after : Option Char) : endsWord (some '_') c after = false := by
            simp [endsWord]
          simp [insertBreaks, hunderscore, hcapital, ih]
      | false =>
          have hafter (after : Option Char) :
              endsWord before c after = endsWord before c text.head? := rfl
          simp only [Bool.or_false, Bool.false_eq_true, if_false]
          rw [insertBreaks, ih, hafter]

theorem lower_replace (word : List Char) :
    lower (replace ['-'] ['_'] word) = word.map smallChar := by
  rw [replace_singleton, lower]
  induction word with
  | nil => rfl
  | cons c word ih =>
      rw [List.flatMap_cons, List.map_append, ih, List.map_cons, smallChar]
      by_cases hc : c = '-'
      · rw [if_pos hc, if_pos hc]
        rfl
      · rw [if_neg hc, if_neg hc]
        rfl

theorem underscore_eq (word : List Char) : underscore word = snakeCase word := by
  rw [underscore, lower_replace, sub_wordStart, sub_wordEnd, insertBreaks_twice, snakeCase]

theorem smallChar_small (c : Char) : (smallChar c).isUpper = false ∧ smallChar c ≠ '-' := by
  rw [smallChar]
  by_cases hc : c = '-'
  · rw [if_pos hc]
    decide
  · rw [if_neg hc]
    refine ⟨not_isUpper_toLower c, ?_⟩
    intro hdash
    cases hupper : c.isUpper with
    | false =>
        rw [toLower_of_not_isUpper hupper] at hdash
        exact hc hdash
    | true =>
        have hbound := isUpper_iff.mp hupper
        have hlower := toNat_toLower hupper
        have hvalue : '-'.toNat = 45 := rfl
        rw [hdash, hvalue] at hlower
        omega

theorem smallChar_eq_self {c : Char} (h : c.isUpper = false ∧ c ≠ '-') : smallChar c = c := by
  rw [smallChar, if_neg h.2, toLower_of_not_isUpper h.1]

/-- Without capitals nothing is divided. -/
theorem insertBreaks_eq_self {word : List Char} (h : ∀ c ∈ word, c.isUpper = false)
    (before : Option Char) : insertBreaks divides before word = word := by
  induction word generalizing before with
  | nil => rfl
  | cons c text ih =>
      obtain ⟨hc, htext⟩ := List.forall_mem_cons.mp h
      have hwhole : divides before c text.head? = false := by simp [divides, hc]
      rw [insertBreaks, hwhole, ih htext]
      rfl

theorem snakeCase_snakeCase (word : List Char) :
    snakeCase (snakeCase word) = snakeCase word := by
  have hsmall : ∀ c ∈ snakeCase word, c.isUpper = false ∧ c ≠ '-' := by
    intro c hc
    obtain ⟨d, -, rfl⟩ := List.mem_map.mp hc
    exact smallChar_small d
  have hwhole := insertBreaks_eq_self (fun c hc => (hsmall c hc).1) none
  have hkept : (snakeCase word).map smallChar = snakeCase word := by
    rw [List.map_congr_left fun c hc => smallChar_eq_self (hsmall c hc), List.map_id']
  conv_lhs => rw [snakeCase, hwhole]
  exact hkept

/-- An underscore keeps what is before it and what is after it apart. -/
theorem insertBreaks_underscore (before : Option Char) (first second : List Char) :
    insertBreaks divides before (first ++ '_' :: second) =
      insertBreaks divides before first ++ '_' :: insertBreaks divides none second := by
  induction first generalizing before with
  | nil =>
      have hwhole : divides before '_' second.head? = false := by simp [divides]
      have hsecond : insertBreaks divides (some '_') second =
          insertBreaks divides none second := by
        refine insertBreaks_before ?_
        rintro c rest -
        simp [divides]
      rw [List.nil_append, insertBreaks, insertBreaks, hwhole, hsecond]
      rfl
  | cons c text ih =>
      have hafter : divides before c (text ++ '_' :: second).head? =
          divides before c text.head? := by
        cases text with
        | nil => simp [divides]
        | cons d text => rfl
      rw [List.cons_append, insertBreaks, insertBreaks, hafter, ih]
      split <;> rfl

theorem snakeCase_append (first second : List Char) :
    snakeCase (first ++ '_' :: second) = snakeCase first ++ '_' :: snakeCase second := by
  rw [snakeCase, insertBreaks_underscore, List.map_append, List.map_cons]
  rfl

/-- Snake case is decided character by character, so a name in it stays as it is, and a name
is the same whole and in parts. -/
theorem underscore_local :
    (∀ word, underscore word = snakeCase word) ∧
    (∀ word, underscore (underscore word) = underscore word) ∧
    (∀ first second, underscore (first ++ '_' :: second) =
      underscore first ++ '_' :: underscore second) ∧
    ∀ structName name, bytesType structName name = typeName (structName ++ '_' :: name) := by
  refine ⟨underscore_eq, ?_, ?_, ?_⟩
  · intro word
    rw [underscore_eq, underscore_eq, snakeCase_snakeCase]
  · intro first second
    rw [underscore_eq, underscore_eq, underscore_eq, snakeCase_append]
  · intro structName name
    rw [bytesType, typeName, underscore_eq, underscore_eq, underscore_eq, snakeCase_append,
      List.append_assoc]

example : underscore (chars "HTTPServer-v2Config") = chars "http_server_v2_config" := by
  decide +kernel

end LuaZephyr
