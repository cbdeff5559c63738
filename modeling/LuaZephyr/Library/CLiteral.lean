import Mathlib.Data.List.TakeWhile

/-!
# The value of a C string literal

Translation phase 5, for a compiler whose source and execution character sets are UTF-8:
an escape sequence of the spelling stands for a byte, or for a character by its number,
and every other character for itself.

A spelling that has no meaning in C, such as an unknown escape sequence or a number that is too
large for its character, has no value. Prefixed and adjacent literals, and trigraphs, which
compilers ignore by default, are not covered.
-/

namespace CLiteral

/-- The bytes of a text. -/
def utf8 (text : List Char) : List UInt8 := text.flatMap String.utf8EncodeChar

def simpleEscape : Char → Option UInt8
  | '\'' => some 39
  | '"' => some 34
  | '?' => some 63
  | '\\' => some 92
  | 'a' => some 7
  | 'b' => some 8
  | 'f' => some 12
  | 'n' => some 10
  | 'r' => some 13
  | 't' => some 9
  | 'v' => some 11
  | _ => none

def isOctal (c : Char) : Bool := '0' ≤ c ∧ c ≤ '7'

def isHex (c : Char) : Bool := c.isDigit || ('a' ≤ c ∧ c ≤ 'f') || ('A' ≤ c ∧ c ≤ 'F')

def digitValue (c : Char) : Nat :=
  if c.isDigit then c.toNat - '0'.toNat
  else if 'a' ≤ c then c.toNat - 'a'.toNat + 10
  else c.toNat - 'A'.toNat + 10

def numeral (base : Nat) (digits : List Char) : Nat :=
  digits.foldl (fun n c => base * n + digitValue c) 0

/-- A numeric escape; its value is that of one byte. -/
def numericEscape (base skip : Nat) (digits : List Char) : Option (Nat × List UInt8) :=
  if digits ≠ [] ∧ numeral base digits < 256 then
    some (skip + digits.length, [UInt8.ofNat (numeral base digits)])
  else none

/-- A character given by its number: not a control or basic character, not a surrogate. -/
def universalName (width : Nat) (text : List Char) : Option (Nat × List UInt8) :=
  let digits := text.take width
  let n := numeral 16 digits
  if digits.length = width ∧ digits.all isHex ∧ n.isValidChar ∧
      (0xA0 ≤ n ∨ n = 0x24 ∨ n = 0x40 ∨ n = 0x60) then
    some (1 + width, String.utf8EncodeChar (Char.ofNat n))
  else none

/-- The escape sequence after a backslash: its length and what it stands for. -/
def escape : List Char → Option (Nat × List UInt8)
  | [] => none
  | c :: text =>
      match simpleEscape c with
      | some b => some (1, [b])
      | none =>
          if c = 'x' then numericEscape 16 1 (text.takeWhile isHex)
          else if isOctal c then numericEscape 8 0 (((c :: text).take 3).takeWhile isOctal)
          else if c = 'u' then universalName 4 text
          else if c = 'U' then universalName 8 text
          else none

/-- The value of a spelling of which the first `skip` characters are passed over. -/
def valueFrom : Nat → List Char → Option (List UInt8)
  | _, [] => some []
  | skip + 1, _ :: text => valueFrom skip text
  | 0, c :: text =>
      if c = '\\' then
        (escape text).bind fun e => (valueFrom e.1 text).map (e.2 ++ ·)
      else (valueFrom 0 text).map (String.utf8EncodeChar c ++ ·)

/-- The value of a spelling; none when a backslash starts no escape sequence. -/
def value (text : List Char) : Option (List UInt8) := valueFrom 0 text

theorem encode_ascii {c : Char} (h : c.toNat < 128) :
    String.utf8EncodeChar c = [UInt8.ofNat c.toNat] := by
  have hle : c.val.toNat ≤ 0x7f := Nat.le_of_lt_succ h
  simp only [String.utf8EncodeChar, if_pos hle]
  rfl

theorem encode_large {c : Char} (h : ¬ c.toNat < 128) :
    ∀ b ∈ String.utf8EncodeChar c, 128 ≤ b.toNat := by
  have hlt : ¬ c.val.toNat ≤ 0x7f := fun hle => h (Nat.lt_succ_of_le hle)
  simp only [String.utf8EncodeChar, if_neg hlt]
  split_ifs <;> intro b hb <;> simp only [List.mem_cons, List.not_mem_nil, or_false] at hb <;>
    rcases hb with rfl | rfl | rfl | rfl <;> simp only [UInt8.toNat_ofNat'] <;> omega

@[simp] theorem utf8_cons (c : Char) (text : List Char) :
    utf8 (c :: text) = String.utf8EncodeChar c ++ utf8 text := List.flatMap_cons

@[simp] theorem utf8_append (first second : List Char) :
    utf8 (first ++ second) = utf8 first ++ utf8 second := List.flatMap_append

/-- A byte below 128 is a character of the text. -/
theorem utf8_split {text : List Char} {v w : List UInt8} {b : UInt8} (hb : b.toNat < 128)
    (h : utf8 text = v ++ b :: w) :
    ∃ first c second, text = first ++ c :: second ∧ utf8 first = v ∧
      String.utf8EncodeChar c = [b] ∧ utf8 second = w := by
  induction text generalizing v with
  | nil => simp [utf8] at h
  | cons c text ih =>
      rw [utf8_cons] at h
      by_cases hc : c.toNat < 128
      · rw [encode_ascii hc] at h
        cases v with
        | nil =>
            obtain ⟨hbyte, hrest⟩ := List.cons.inj h
            exact ⟨[], c, text, rfl, rfl, by rw [encode_ascii hc, hbyte], hrest⟩
        | cons a v =>
            obtain ⟨hbyte, hrest⟩ := List.cons.inj h
            obtain ⟨first, d, second, rfl, hv, hd, hw⟩ := ih hrest
            refine ⟨c :: first, d, second, rfl, ?_, hd, hw⟩
            rw [utf8_cons, encode_ascii hc, hv, hbyte]
            rfl
      · obtain ⟨v', rfl, hrest⟩ | ⟨w', hlong, hrest⟩ := List.append_eq_append_iff.mp h
        · obtain ⟨first, d, second, rfl, hv, hd, hw⟩ := ih hrest
          exact ⟨c :: first, d, second, rfl, by rw [utf8_cons, hv], hd, hw⟩
        · cases w' with
          | nil =>
              obtain ⟨first, d, second, rfl, hv, hd, hw⟩ := @ih [] hrest.symm
              rw [List.append_nil] at hlong
              exact ⟨c :: first, d, second, rfl, by rw [utf8_cons, hv, hlong, List.append_nil], hd,
                hw⟩
          | cons a w' =>
              obtain ⟨rfl, -⟩ := List.cons.inj hrest
              have hmem : b ∈ String.utf8EncodeChar c := by simp [hlong]
              exact absurd (encode_large hc b hmem) (by omega)

/-- A character below 128 is known by its byte. -/
theorem eq_of_encode {c d : Char} (hd : d.toNat < 128)
    (h : String.utf8EncodeChar c = [UInt8.ofNat d.toNat]) : c = d := by
  by_cases hc : c.toNat < 128
  · rw [encode_ascii hc] at h
    have hbyte := congrArg UInt8.toNat (List.cons.inj h).1
    simp only [UInt8.toNat_ofNat'] at hbyte
    have hnat : c.toNat = d.toNat := by omega
    exact Char.toNat_inj.mp hnat
  · have hmem : UInt8.ofNat d.toNat ∈ String.utf8EncodeChar c := by
      rw [h]
      exact List.mem_singleton_self _
    have hlarge := encode_large hc _ hmem
    simp only [UInt8.toNat_ofNat'] at hlarge
    omega

theorem eq_nil_of_utf8 {text : List Char} (h : utf8 text = []) : text = [] := by
  cases text with
  | nil => rfl
  | cons c text =>
      have hpos := Char.utf8Size_pos c
      have hlen := congrArg List.length h
      rw [utf8_cons, List.length_append, String.length_utf8EncodeChar, List.length_nil] at hlen
      omega

/-- A text whose bytes begin with a character below 128 begins with it. -/
theorem eq_cons_of_utf8 {d : Char} (hd : d.toNat < 128) {text : List Char} {w : List UInt8}
    (h : utf8 text = UInt8.ofNat d.toNat :: w) : ∃ rest, text = d :: rest ∧ utf8 rest = w := by
  have hbyte : (UInt8.ofNat d.toNat).toNat < 128 := by
    rw [UInt8.toNat_ofNat']
    omega
  obtain ⟨first, c, second, rfl, hfirst, hc, hsecond⟩ := @utf8_split _ [] w _ hbyte h
  obtain rfl := eq_of_encode hd hc
  obtain rfl := eq_nil_of_utf8 hfirst
  exact ⟨second, rfl, hsecond⟩

theorem valueFrom_eq (skip : Nat) (text : List Char) :
    valueFrom skip text = value (text.drop skip) := by
  induction text generalizing skip with
  | nil =>
      rw [List.drop_nil]
      cases skip <;> rfl
  | cons c text ih =>
      cases skip with
      | zero => rfl
      | succ skip => exact ih skip

@[simp] theorem value_nil : value [] = some [] := rfl

theorem value_cons {c : Char} (h : c ≠ '\\') (text : List Char) :
    value (c :: text) = (value text).map (String.utf8EncodeChar c ++ ·) := by
  rw [value, valueFrom, if_neg h, value]

theorem value_backslash (text : List Char) :
    value ('\\' :: text) =
      (escape text).bind fun e => (value (text.drop e.1)).map (e.2 ++ ·) := by
  rw [value, valueFrom, if_pos rfl]
  simp only [valueFrom_eq]

theorem value_simpleEscape {c : Char} {b : UInt8} (h : simpleEscape c = some b)
    (text : List Char) : value ('\\' :: c :: text) = (value text).map (b :: ·) := by
  rw [value_backslash, escape, h]
  rfl

theorem alphanum_of_isOctal {c : Char} (h : isOctal c = true) : c.isAlphanum = true := by
  simp only [isOctal, decide_eq_true_eq] at h
  simp only [Char.isAlphanum, Char.isDigit, Bool.or_eq_true, Bool.and_eq_true, decide_eq_true_eq]
  right
  exact ⟨h.1, Nat.le_trans h.2 (by decide)⟩

theorem alphanum_of_isHex {c : Char} (h : isHex c = true) : c.isAlphanum = true := by
  simp only [isHex, Bool.or_eq_true, decide_eq_true_eq] at h
  have halnum : c.isAlphanum = (decide (c.val ≥ 'A'.val ∧ c.val ≤ 'Z'.val) ||
      (decide (c.val ≥ 'a'.val) && decide (c.val ≤ 'z'.val)) || c.isDigit) := rfl
  simp only [halnum, Bool.or_eq_true, Bool.and_eq_true, decide_eq_true_eq]
  obtain (h | h) | h := h
  · exact .inr h
  · exact .inl (.inr ⟨h.1, Nat.le_trans h.2 (by decide)⟩)
  · exact .inl (.inl ⟨h.1, Nat.le_trans h.2 (by decide)⟩)

theorem universalName_spec {width n : Nat} {text : List Char} {bs : List UInt8} (hwidth : 3 ≤ width)
    (h : universalName width text = some (n, bs)) :
    n = 1 + (text.take width).length ∧ (∀ d ∈ text.take width, d.isAlphanum = true) ∧
      bs.length ≤ 1 + (text.take width).length := by
  unfold universalName at h
  dsimp only at h
  split at h
  · rename_i hvalid
    obtain ⟨hlen, hhex, -⟩ := hvalid
    obtain ⟨rfl, rfl⟩ := Prod.mk.inj (Option.some.inj h)
    refine ⟨by rw [hlen], fun d hd => alphanum_of_isHex (List.all_eq_true.mp hhex d hd), ?_⟩
    rw [hlen, String.length_utf8EncodeChar]
    have hsize := Char.utf8Size_le_four (Char.ofNat (numeral 16 (text.take width)))
    omega
  · contradiction

/-- An escape sequence is one of the simple characters, or letters and digits that stand
for no more bytes than they are. -/
theorem escape_spec {text : List Char} {n : Nat} {bs : List UInt8}
    (h : escape text = some (n, bs)) :
    (∃ c b rest, text = c :: rest ∧ n = 1 ∧ simpleEscape c = some b ∧ bs = [b]) ∨
    ∃ c seq rest, text = c :: seq ++ rest ∧ n = (c :: seq).length ∧ simpleEscape c = none ∧
      (∀ d ∈ c :: seq, d.isAlphanum = true) ∧ bs.length ≤ (c :: seq).length := by
  cases text with
  | nil => contradiction
  | cons c text =>
      rw [escape] at h
      cases hc : simpleEscape c with
      | some b =>
          rw [hc] at h
          obtain ⟨rfl, rfl⟩ := Prod.mk.inj (Option.some.inj h)
          exact .inl ⟨c, b, text, rfl, rfl, hc, rfl⟩
      | none =>
          rw [hc] at h
          dsimp only at h
          -- The letters and digits after `c` are a beginning of the text.
          have hseq {seq : List Char} (hpre : seq <+: text) (hn : n = 1 + seq.length)
              (hc' : c.isAlphanum = true) (halnum : ∀ d ∈ seq, d.isAlphanum = true)
              (hlen : bs.length ≤ 1 + seq.length) :
              ∃ c' seq rest, c :: text = c' :: seq ++ rest ∧ n = (c' :: seq).length ∧
                simpleEscape c' = none ∧ (∀ d ∈ c' :: seq, d.isAlphanum = true) ∧
                bs.length ≤ (c' :: seq).length := by
            obtain ⟨rest, rfl⟩ := hpre
            refine ⟨c, seq, rest, rfl, ?_, hc, List.forall_mem_cons.mpr ⟨hc', halnum⟩, ?_⟩
            · rw [List.length_cons, hn, Nat.add_comm]
            · rw [List.length_cons, Nat.add_comm]
              exact hlen
          right
          split_ifs at h with hx hoctal hu hU
          · subst hx
            unfold numericEscape at h
            split at h
            · obtain ⟨rfl, rfl⟩ := Prod.mk.inj (Option.some.inj h)
              exact hseq (List.takeWhile_prefix _) rfl rfl
                (fun d hd => alphanum_of_isHex (List.mem_takeWhile_imp hd)) (Nat.le_add_right _ _)
            · contradiction
          · rw [List.take_succ_cons, List.takeWhile_cons_of_pos hoctal] at h
            unfold numericEscape at h
            split at h
            · obtain ⟨rfl, rfl⟩ := Prod.mk.inj (Option.some.inj h)
              refine hseq ((List.takeWhile_prefix _).trans (List.take_prefix 2 text)) ?_
                (alphanum_of_isOctal hoctal)
                (fun d hd => alphanum_of_isOctal (List.mem_takeWhile_imp hd))
                (Nat.le_add_right _ _)
              rw [List.length_cons]
              omega
            · contradiction
          · subst hu
            obtain ⟨hn, halnum, hlen⟩ := universalName_spec (by decide) h
            exact hseq (List.take_prefix 4 text) hn rfl halnum hlen
          · subst hU
            obtain ⟨hn, halnum, hlen⟩ := universalName_spec (by decide) h
            exact hseq (List.take_prefix 8 text) hn rfl halnum hlen

end CLiteral
