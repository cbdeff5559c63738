import Mathlib.Data.List.TakeWhile

/-!
# String literals of Lua

How the Lua reader takes a literal in double quotes, as far as each escape sequence stands for
one byte. A writer that spells every byte in a way that does not depend on what comes after it
is read back.

Escapes that stand for more than one byte or for none (`\u{...}` and `\z`) are left out, so the
reader here refuses some literals that Lua takes. A byte that is not escaped stands for itself,
also when it is no character of any encoding.
-/

namespace LuaLiteral

def quote : UInt8 := 34

def backslash : UInt8 := 92

def simpleEscape : UInt8 → Option UInt8
  | 97 => some 7
  | 98 => some 8
  | 102 => some 12
  | 110 => some 10
  | 114 => some 13
  | 116 => some 9
  | 118 => some 11
  | 92 => some 92
  | 34 => some 34
  | 39 => some 39
  | 10 => some 10
  | _ => none

def isDigit (c : UInt8) : Bool := 48 ≤ c ∧ c ≤ 57

def hexValue (c : UInt8) : Option Nat :=
  if 48 ≤ c ∧ c ≤ 57 then some (c.toNat - 48)
  else if 97 ≤ c ∧ c ≤ 102 then some (c.toNat - 87)
  else if 65 ≤ c ∧ c ≤ 70 then some (c.toNat - 55)
  else none

def numeral (digits : List UInt8) : Nat := digits.foldl (fun n c => 10 * n + (c.toNat - 48)) 0

/-- Two hexadecimal digits after an `x`. -/
def hexEscape : List UInt8 → Option (Nat × UInt8)
  | d :: e :: _ =>
      (hexValue d).bind fun hi => (hexValue e).map fun lo => (3, UInt8.ofNat (16 * hi + lo))
  | _ => none

/-- The escape sequence after a backslash: its length and the byte it stands for. -/
def escape : List UInt8 → Option (Nat × UInt8)
  | [] => none
  | c :: text =>
      match simpleEscape c with
      | some b => some (1, b)
      | none =>
          if c = 120 then hexEscape text
          else
            -- At most three digits are taken.
            let digits := ((c :: text).take 3).takeWhile isDigit
            if digits ≠ [] ∧ numeral digits < 256 then
              some (digits.length, UInt8.ofNat (numeral digits))
            else none

/-- What a literal contains whose first `skip` characters are passed over, and the text after
it. A literal ends at a quote, and there is none that goes on in the next line. -/
def readFrom : Nat → List UInt8 → Option (List UInt8 × List UInt8)
  | _, [] => none
  | skip + 1, _ :: text => readFrom skip text
  | 0, c :: text =>
      if c = quote then some ([], text)
      else if c = 10 ∨ c = 13 then none
      else if c = backslash then
        (escape text).bind fun e => (readFrom e.1 text).map fun r => (e.2 :: r.1, r.2)
      else (readFrom 0 text).map fun r => (c :: r.1, r.2)

/-- Read a literal with its quotes. -/
def read : List UInt8 → Option (List UInt8 × List UInt8)
  | [] => none
  | c :: text => if c = quote then readFrom 0 text else none

/-- Before any text, the spelling adds the byte. -/
def Spells (spelling : List UInt8) (b : UInt8) : Prop :=
  ∀ rest, readFrom 0 (spelling ++ rest) = (readFrom 0 rest).map fun r => (b :: r.1, r.2)

theorem readFrom_skip (passed rest : List UInt8) :
    readFrom passed.length (passed ++ rest) = readFrom 0 rest := by
  induction passed with
  | nil => rfl
  | cons c passed ih => exact ih

/-- An escape sequence that is recognized whatever follows. -/
theorem spells_of_escape {sequence : List UInt8} {b : UInt8}
    (h : ∀ rest, escape (sequence ++ rest) = some (sequence.length, b)) :
    Spells (backslash :: sequence) b := by
  intro rest
  have hquote : backslash ≠ quote := by decide
  have hline : ¬ (backslash = 10 ∨ backslash = 13) := by decide
  rw [List.cons_append, readFrom, if_neg hquote, if_neg hline, if_pos rfl, h, Option.bind_some,
    readFrom_skip]

theorem spells_simple {c b : UInt8} (h : simpleEscape c = some b) :
    Spells [backslash, c] b := by
  apply spells_of_escape
  intro rest
  rw [List.singleton_append, escape, h]
  rfl

/-- Three digits: a digit after them is not part of the sequence. -/
theorem spells_decimal {d₁ d₂ d₃ : UInt8} (h₁ : isDigit d₁ = true) (h₂ : isDigit d₂ = true)
    (h₃ : isDigit d₃ = true) (hlt : numeral [d₁, d₂, d₃] < 256) :
    Spells [backslash, d₁, d₂, d₃] (UInt8.ofNat (numeral [d₁, d₂, d₃])) := by
  apply spells_of_escape
  intro rest
  have hsimple : simpleEscape d₁ = none := by
    unfold simpleEscape
    split
    all_goals first | rfl | exact absurd h₁ (by decide)
  have hnot : d₁ ≠ 120 := by
    rintro rfl
    exact absurd h₁ (by decide)
  have hdigits : (([d₁, d₂, d₃] ++ rest).take 3).takeWhile isDigit = [d₁, d₂, d₃] := by
    simp [h₁, h₂, h₃]
  rw [List.cons_append, escape, hsimple]
  simp only [if_neg hnot]
  rw [← List.cons_append, hdigits, if_pos ⟨List.cons_ne_nil _ _, hlt⟩]

theorem spells_plain {c : UInt8} (hquote : c ≠ quote) (hslash : c ≠ backslash)
    (hline : c ≠ 10 ∧ c ≠ 13) : Spells [c] c := by
  intro rest
  have hnot : ¬ (c = 10 ∨ c = 13) := by
    rintro (rfl | rfl)
    · exact hline.1 rfl
    · exact hline.2 rfl
  rw [List.singleton_append, readFrom, if_neg hquote, if_neg hnot, if_neg hslash]

/-- A text of spellings is read as the bytes they spell. -/
theorem read_spelled {spell : UInt8 → List UInt8} (h : ∀ b, Spells (spell b) b)
    (s rest : List UInt8) :
    read (quote :: (s.flatMap spell ++ quote :: rest)) = some (s, rest) := by
  rw [read, if_pos rfl]
  induction s with
  | nil => rw [List.flatMap_nil, List.nil_append, readFrom, if_pos rfl]
  | cons b s ih => rw [List.flatMap_cons, List.append_assoc, h, ih, Option.map_some]

end LuaLiteral
