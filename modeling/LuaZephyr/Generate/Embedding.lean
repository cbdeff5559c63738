import LuaZephyr.Library.CLiteral
import LuaZephyr.Generate.Isolation

/-!
# The script in the literal

What the compiler reads between the double quotes. The generator escapes double quotes and
line ends, but no backslashes, and `str.splitlines` ends lines where Lua does not; a script
without backslashes and without such characters comes through as it is, and no other does.

The value is a sequence of bytes, the script's characters in UTF-8. The literal is taken by
itself here; that it is also where the template has it in the whole file is `Generate.Isolation`,
and a file has to pass both.
-/

namespace LuaZephyr

open PyText CLexing CLiteral

/-- The script as the generator means it: for each line a space, its text and a newline. -/
def scriptValue (file : List Char) : List UInt8 :=
  (linesFrom (· = '\n') [] (universalNewlines file)).flatMap fun line =>
    utf8 [' '] ++ utf8 line ++ utf8 ['\n']

/-- Between double quotes the text is one string literal, from the one quote to the other,
with this value. The marks tell the quotes from the text. -/
def ReadsAs (text : List Char) (bytes : List UInt8) : Prop :=
  ∃ spelling, lex (('"', true) :: (own false text ++ [('"', true)])) =
    some [⟨.literal '"' spelling, true, true⟩] ∧ value spelling = some bytes

/-- The script's lines as they should be read; `fresh` when nothing has been read of the
line. -/
def echo (fresh : Bool) (text : List Char) : List UInt8 :=
  perLine (· = '\n') (utf8 [' ']) (utf8 ['\n']) String.utf8EncodeChar fresh text

theorem scriptValue_eq (file : List Char) :
    scriptValue file = echo true (universalNewlines file) := by
  have hlines := flatMap_linesFrom (· = '\n') (utf8 [' ']) (utf8 ['\n']) String.utf8EncodeChar []
    (universalNewlines file)
  simpa [scriptValue, echo, utf8] using hlines

theorem echo_cons (fresh : Bool) (c : Char) (text : List Char) :
    echo fresh (c :: text) = (if fresh then [32] else []) ++
      if c = '\n' then 10 :: echo true text
      else String.utf8EncodeChar c ++ echo false text := by
  rw [echo, perLine]
  by_cases hc : c = '\n'
  · simp only [hc, decide_true, if_true]
    rfl
  · simp only [hc, decide_false, if_false, Bool.false_eq_true]
    rfl

/-- The text between the quotes is one literal exactly when no double quote of the script
follows a loose backslash, and then it is spelled as `inside`. -/
theorem readsAs_iff (file : List Char) (bytes : List UInt8) :
    ReadsAs (luaToCString file) bytes ↔
      quotesHold false (universalNewlines file) = true ∧ value (inside file) = some bytes := by
  have hsplice : splice (('"', true) :: (own false (luaToCString file) ++ [('"', true)])) =
      ('"', true) :: (own false (inside file) ++ [('"', true)]) := by
    rw [splice_cons (show ('"', true).1 ≠ '\\' by decide), splice_luaToCString]
    rfl
  have hline : ∀ c ∈ own false (inside file), c.1 ≠ '\n' := by
    intro c hc hnewline
    obtain ⟨d, hd, rfl⟩ := List.mem_map.mp hc
    obtain rfl : d = '\n' := hnewline
    exact newline_not_mem_insideFrom true (universalNewlines file) hd
  have hescaped := escapedAfter_insideFrom true false (fun _ => rfl) (universalNewlines file)
  rw [← map_fst_own false (insideFrom true (universalNewlines file))] at hescaped
  have hopen : lexFrom .code (('"', true) :: own false (inside file)) =
      lexFrom (.quoted '"' [] false true) (own false (inside file)) := rfl
  unfold ReadsAs
  rw [lex, hsplice, ← List.cons_append, lexFrom_append, hopen]
  by_cases hquotes : quotesHold false (universalNewlines file) = true
  · rw [if_pos hquotes] at hescaped
    have hstays : lexFrom (.quoted '"' [] false true) (own false (inside file)) =
        ([], .quoted '"' ([] ++ (own false (inside file)).map Prod.fst) false true) :=
      lexFrom_quoted hline hescaped
    rw [map_fst_own, List.nil_append] at hstays
    rw [hstays]
    have hclose : lexFrom (.quoted '"' (inside file) false true) [('"', true)] =
        ([⟨.literal '"' (inside file), true, true⟩], .code) := rfl
    simp only [hclose, hquotes, true_and]
    simp [Mode.finish]
  · rw [if_neg hquotes] at hescaped
    obtain ⟨l, hl, hlast⟩ : ∃ l ∈ (lexFrom (.quoted '"' [] false true)
        (own false (inside file))).1, l.last ∈ (own false (inside file)).map Prod.snd :=
      lexFrom_quoted_closed hline hescaped
    refine ⟨?_, fun h => absurd h.1 hquotes⟩
    rintro ⟨spelling, hlex, -⟩
    obtain ⟨rest, -, hrest⟩ := Option.map_eq_some_iff.mp hlex
    have hmem : l ∈ [(⟨.literal '"' spelling, true, true⟩ : Lexeme Bool)] := by
      rw [← hrest]
      exact List.mem_append_left _ (List.mem_append_left _ hl)
    obtain rfl := List.mem_singleton.mp hmem
    simp [own] at hlast

/-- A text spelled in a literal, with its double quotes escaped, stands for these bytes. An
escape sequence of the text is longer than what it stands for. -/
inductive Denotes : List Char → List UInt8 → Prop
  | nil : Denotes [] []
  | plain {c text bytes} (hc : c ≠ '\\') (htext : Denotes text bytes) :
      Denotes (c :: text) (String.utf8EncodeChar c ++ bytes)
  | backslash {text bytes} (htext : Denotes text bytes) :
      Denotes ('\\' :: '\\' :: text) (92 :: bytes)
  | escape {c seq bs text bytes} (hseq : '\\' ∉ c :: seq) (hnewline : c = 'n' → bs = [10])
      (hlen : bs.length ≤ (c :: seq).length) (htext : Denotes text bytes) :
      Denotes ('\\' :: c :: seq ++ text) (bs ++ bytes)

theorem length_utf8_le (text : List Char) : text.length ≤ (utf8 text).length := by
  induction text with
  | nil => exact Nat.le_refl 0
  | cons c text ih =>
      have hpos := Char.utf8Size_pos c
      rw [utf8_cons, List.length_append, String.length_utf8EncodeChar, List.length_cons]
      omega

theorem Denotes.length_le {text : List Char} {bytes : List UInt8} (h : Denotes text bytes) :
    bytes.length ≤ (utf8 text).length := by
  induction h with
  | nil => exact Nat.le_refl 0
  | plain hc htext ih =>
      rw [utf8_cons, List.length_append, List.length_append]
      omega
  | @backslash text bytes htext ih =>
      have hpos := Char.utf8Size_pos '\\'
      simp only [utf8_cons, List.length_append, String.length_utf8EncodeChar, List.length_cons]
      omega
  | @escape c seq bs text bytes hseq hnewline hlen htext ih =>
      have hsize := length_utf8_le ('\\' :: c :: seq)
      rw [utf8_append, List.length_append, List.length_append]
      rw [List.length_cons] at hsize
      omega

theorem Denotes.length_lt {text : List Char} {bytes : List UInt8}
    (h : Denotes ('\\' :: text) bytes) : bytes.length < (utf8 ('\\' :: text)).length := by
  cases h with
  | plain hc htext => exact absurd rfl hc
  | @backslash text bytes htext =>
      have hlen := htext.length_le
      have hpos := Char.utf8Size_pos '\\'
      simp only [utf8_cons, List.length_append, String.length_utf8EncodeChar, List.length_cons]
      omega
  | @escape c seq bs text bytes hseq hnewline hlen htext =>
      have hrest := htext.length_le
      have hsize := length_utf8_le ('\\' :: c :: seq)
      rw [List.length_cons] at hsize
      have htotal := congrArg List.length (utf8_append ('\\' :: c :: seq) text)
      rw [List.length_append] at htotal
      rw [List.length_append]
      exact lt_of_lt_of_eq (by omega) htotal.symm

/-- A backslash of a denoting text begins an escape sequence, or ends one. -/
theorem Denotes.split {first second : List Char} {bytes : List UInt8}
    (h : Denotes (first ++ '\\' :: second) bytes) :
    (∃ bs bs', Denotes first bs ∧ Denotes ('\\' :: second) bs' ∧ bytes = bs ++ bs') ∨
    ∃ before bs bs', first = before ++ ['\\'] ∧ Denotes before bs ∧ Denotes second bs' ∧
      bytes = bs ++ 92 :: bs' := by
  generalize htext : first ++ '\\' :: second = text at h
  induction h generalizing first with
  | nil => simp at htext
  | @plain c text bytes hc hplain ih =>
      cases first with
      | nil =>
          obtain ⟨rfl, -⟩ := List.cons.inj htext
          exact absurd rfl hc
      | cons d first =>
          obtain ⟨rfl, hrest⟩ := List.cons.inj htext
          obtain ⟨bs, bs', hbs, hbs', rfl⟩ | ⟨before, bs, bs', rfl, hbs, hbs', rfl⟩ := ih hrest
          · exact .inl ⟨_, bs', .plain hc hbs, hbs', by rw [List.append_assoc]⟩
          · exact .inr ⟨d :: before, _, bs', rfl, .plain hc hbs, hbs', by rw [List.append_assoc]⟩
  | @backslash text bytes hrest ih =>
      cases first with
      | nil =>
          obtain ⟨-, rfl⟩ := List.cons.inj htext
          exact .inl ⟨[], _, .nil, .backslash hrest, rfl⟩
      | cons d first =>
          rw [List.cons_append, List.cons.injEq] at htext
          obtain ⟨rfl, htext⟩ := htext
          cases first with
          | nil =>
              obtain ⟨-, rfl⟩ := List.cons.inj htext
              exact .inr ⟨[], [], bytes, rfl, .nil, hrest, rfl⟩
          | cons d first =>
              rw [List.cons_append, List.cons.injEq] at htext
              obtain ⟨rfl, htext⟩ := htext
              obtain ⟨bs, bs', hbs, hbs', rfl⟩ | ⟨before, bs, bs', rfl, hbs, hbs', rfl⟩ := ih htext
              · exact .inl ⟨_, bs', .backslash hbs, hbs', rfl⟩
              · exact .inr ⟨'\\' :: '\\' :: before, _, bs', rfl, .backslash hbs, hbs', rfl⟩
  | @escape c seq bs text bytes hseq hnewline hlen hrest ih =>
      cases first with
      | nil =>
          obtain ⟨-, rfl⟩ := List.cons.inj htext
          exact .inl ⟨[], _, .nil, .escape hseq hnewline hlen hrest, rfl⟩
      | cons d first =>
          rw [List.cons_append, List.cons_append, List.cons.injEq] at htext
          obtain ⟨rfl, htext⟩ := htext
          obtain ⟨first', rfl, hsecond⟩ :
              ∃ first', first = c :: seq ++ first' ∧ first' ++ '\\' :: second = text := by
            obtain ⟨tail, hhere, hlater⟩ | ⟨first', rfl, hlater⟩ :=
              List.append_eq_append_iff.mp htext
            · cases tail with
              | nil => exact ⟨[], by simpa using hhere.symm, hlater⟩
              | cons e tail =>
                  obtain rfl := (List.cons.inj hlater).1
                  exact absurd (by simp [hhere]) hseq
            · exact ⟨first', rfl, hlater.symm⟩
          obtain ⟨bs₁, bs₂, hbs, hbs', rfl⟩ | ⟨before, bs₁, bs₂, rfl, hbs, hbs', rfl⟩ :=
            ih hsecond
          · exact .inl ⟨_, bs₂, .escape hseq hnewline hlen hbs, hbs', by rw [List.append_assoc]⟩
          · exact .inr ⟨_, _, bs₂, (List.append_assoc ('\\' :: c :: seq) before _).symm,
              .escape hseq hnewline hlen hbs, hbs', by rw [List.append_assoc]⟩

theorem newline_mem_of_utf8 {text : List Char} (h : (10 : UInt8) ∈ utf8 text) : '\n' ∈ text := by
  obtain ⟨v, w, hbytes⟩ := List.append_of_mem h
  obtain ⟨first, c, second, rfl, -, hc, -⟩ := utf8_split (by decide) hbytes
  obtain rfl : c = '\n' := eq_of_encode (by decide) hc
  simp

/-- The escape sequence for a newline in a text that denotes itself up to there. -/
theorem Denotes.ne_newline {first rest : List Char} {bs : List UInt8}
    (hline : '\n' ∉ first) (hbs : Denotes ('\\' :: 'n' :: rest) bs) {bs' : List UInt8}
    (h : utf8 first = bs' ++ bs) : False := by
  refine hline (newline_mem_of_utf8 ?_)
  rw [h]
  generalize htext : '\\' :: 'n' :: rest = text at hbs
  cases hbs with
  | nil => contradiction
  | plain hc htext' => exact absurd (List.cons.inj htext).1.symm hc
  | backslash htext' => simp at htext
  | @escape c seq bs text bytes hseq hnewline hlen htext' =>
      rw [List.cons_append, List.cons_append, List.cons.injEq, List.cons.injEq] at htext
      obtain ⟨-, rfl, -⟩ := htext
      simp [hnewline rfl]

theorem Denotes.of_plain {c : Char} {text : List Char} {bytes : List UInt8}
    (h : Denotes (c :: text) bytes) (hc : c ≠ '\\') :
    ∃ bytes', Denotes text bytes' ∧ bytes = String.utf8EncodeChar c ++ bytes' := by
  generalize htext : c :: text = text' at h
  cases h with
  | nil => contradiction
  | plain hc' htext' =>
      obtain ⟨rfl, rfl⟩ := List.cons.inj htext
      exact ⟨_, htext', rfl⟩
  | backslash htext' => exact absurd (List.cons.inj htext).1 hc
  | escape hseq hnewline hlen htext' => exact absurd (List.cons.inj htext).1 hc

/-- No line is longer than what it denotes by just the loose backslash at its end. -/
theorem Denotes.not_loose {text : List Char} {bytes : List UInt8} (h : Denotes text bytes)
    (hline : '\n' ∉ text) {rest rest' : List UInt8} (hrest : rest.head? ≠ some 110)
    (hrest' : rest'.head?.getD 32 = 32)
    (heq : utf8 text ++ 92 :: rest = bytes ++ 92 :: 110 :: rest') : False := by
  induction hn : text.length using Nat.strong_induction_on generalizing text bytes rest rest' with
  | _ n ih =>
      obtain ⟨extra, hsame, hdiff⟩ : ∃ extra, utf8 text = bytes ++ extra ∧
          extra ++ 92 :: rest = 92 :: 110 :: rest' := by
        obtain ⟨extra, rfl, hdiff⟩ | ⟨extra, hsame, hdiff⟩ := List.append_eq_append_iff.mp heq
        · have hlen := h.length_le
          rw [List.length_append] at hlen
          obtain rfl : extra = [] := List.eq_nil_of_length_eq_zero (by omega)
          exact ⟨[], by simp, by simpa using hdiff⟩
        · exact ⟨extra, hsame, hdiff.symm⟩
      match extra with
      | [] =>
          obtain rfl : rest = 110 :: rest' := (List.cons.inj hdiff).2
          exact hrest rfl
      | [_] =>
          have hbyte := (List.cons.inj (List.cons.inj hdiff).2).1
          contradiction
      | [_, _] =>
          obtain rfl : 92 :: rest = rest' := (List.cons.inj (List.cons.inj hdiff).2).2
          simp at hrest'
      | a :: b :: c :: extra =>
          simp only [List.cons_append, List.cons.injEq] at hdiff
          obtain ⟨rfl, rfl, rfl⟩ := hdiff
          obtain rfl : c = 32 := hrest'
          -- The rest of the text repeats what ends the line: `\n` and the next line's space.
          obtain ⟨first, d, second, rfl, hfirst, hd, hsecond⟩ := utf8_split (by decide) hsame
          obtain rfl : d = '\\' := eq_of_encode (by decide) hd
          obtain ⟨third, rfl, hthird⟩ := eq_cons_of_utf8 (show 'n'.toNat < 128 by decide) hsecond
          obtain ⟨fourth, rfl, -⟩ := eq_cons_of_utf8 (show ' '.toNat < 128 by decide) hthird
          rw [List.mem_append, not_or] at hline
          obtain ⟨bs, bs', hbs, hbs', rfl⟩ | ⟨before, bs, bs', rfl, hbs, hbs', rfl⟩ := h.split
          · exact hbs'.ne_newline hline.1 hfirst
          · obtain ⟨bs₁, hbs₁, rfl⟩ := hbs'.of_plain (by decide)
            obtain ⟨bs₂, -, rfl⟩ := hbs₁.of_plain (by decide)
            have hbefore : '\n' ∉ before := fun hmem => hline.1 (List.mem_append_left _ hmem)
            have hrepeat : utf8 before ++ 92 :: [] = bs ++ 92 :: 110 :: 32 :: bs₂ := by
              rw [show (92 : UInt8) :: [] = utf8 ['\\'] from rfl, ← utf8_append, hfirst]
              rfl
            have hshorter : before.length < n := by
              simp only [← hn, List.length_append, List.length_cons]
              omega
            exact ih before.length hshorter hbs hbefore (by simp) rfl hrepeat rfl

theorem quotesHold_cons {c : Char} (h : c ≠ '\\') {text : List Char}
    (hquotes : quotesHold false (c :: text) = true) : quotesHold false text = true := by
  rw [quotesHold] at hquotes
  split at hquotes
  · simpa using hquotes
  · simpa [h] using hquotes

theorem value_escapeQuote {c : Char} (h : c ≠ '\\') (text : List Char) :
    value (escapeQuote c ++ text) = (value text).map (String.utf8EncodeChar c ++ ·) := by
  rw [escapeQuote]
  split
  · rename_i hquote
    subst hquote
    exact value_simpleEscape rfl text
  · exact value_cons h text

theorem escapeQuote_of_alphanum {c : Char} (h : c.isAlphanum = true) : escapeQuote c = [c] := by
  rw [escapeQuote, if_neg]
  rintro rfl
  contradiction

/-- The letters and digits at the beginning of an escaped line are those of the line. -/
theorem eq_append_of_alphanum {seq line more rest : List Char}
    (hseq : ∀ d ∈ seq, d.isAlphanum = true)
    (h : line.flatMap escapeQuote ++ '\\' :: more = seq ++ rest) :
    ∃ line', line = seq ++ line' ∧ rest = line'.flatMap escapeQuote ++ '\\' :: more := by
  induction seq generalizing line with
  | nil => exact ⟨line, rfl, h.symm⟩
  | cons d seq ih =>
      have hd := hseq d (List.mem_cons_self ..)
      cases line with
      | nil =>
          obtain ⟨rfl, -⟩ := List.cons.inj h
          contradiction
      | cons c line =>
          obtain ⟨tail, htail⟩ := escapeQuote_eq_cons c
          have hc : (if c = '"' then '\\' else c) = d := by
            rw [List.flatMap_cons, htail] at h
            exact (List.cons.inj h).1
          have hquote : c ≠ '"' := by
            rintro rfl
            rw [if_pos rfl] at hc
            subst hc
            contradiction
          rw [if_neg hquote] at hc
          subst hc
          rw [List.flatMap_cons, escapeQuote_of_alphanum hd] at h
          obtain ⟨line', rfl, hrest⟩ := ih (fun e he => hseq e (List.mem_cons_of_mem _ he))
            (List.cons.inj h).2
          exact ⟨line', rfl, hrest⟩

theorem quotesHold_alphanum {seq text : List Char} (hseq : ∀ d ∈ seq, d.isAlphanum = true)
    (h : quotesHold false (seq ++ text) = true) : quotesHold false text = true := by
  induction seq with
  | nil => exact h
  | cons d seq ih =>
      have hd : d ≠ '\\' := by
        rintro rfl
        exact absurd (hseq _ (List.mem_cons_self ..)) (by decide)
      exact ih (fun e he => hseq e (List.mem_cons_of_mem _ he)) (quotesHold_cons hd h)

/-- What a backslash and the character after it are read as, when that is not another
backslash. -/
theorem value_sequence {d : Char} {line more : List Char} {bytes : List UInt8} (hd : d ≠ '\\')
    (hline : quotesHold false line = true)
    (h : value ('\\' :: d :: (line.flatMap escapeQuote ++ '\\' :: more)) = some bytes) :
    ∃ seq line' bs bytes', line = seq ++ line' ∧ '\\' ∉ d :: seq ∧ (d = 'n' → bs = [10]) ∧
      bs.length ≤ (d :: seq).length ∧ quotesHold false line' = true ∧
      value (line'.flatMap escapeQuote ++ '\\' :: more) = some bytes' ∧
      bytes = bs ++ bytes' := by
  rw [value_backslash] at h
  obtain ⟨⟨n, bs⟩, hescape, h⟩ := Option.bind_eq_some_iff.mp h
  obtain ⟨bytes', hbytes', rfl⟩ := Option.map_eq_some_iff.mp h
  obtain ⟨c, b, rest, hrest, rfl, hb, rfl⟩ | ⟨c, seq, rest, hrest, rfl, hnone, hseq, hlen⟩ :=
    escape_spec hescape
  · obtain ⟨rfl, rfl⟩ := List.cons.inj hrest
    refine ⟨[], line, [b], bytes', rfl, ?_, ?_, Nat.le_refl 1, hline, hbytes', rfl⟩
    · exact fun hmem => hd (List.mem_singleton.mp hmem).symm
    · rintro rfl
      obtain rfl : 10 = b := Option.some.inj hb
      rfl
  · rw [List.cons_append, List.cons.injEq] at hrest
    obtain ⟨rfl, hrest⟩ := hrest
    have htail := List.forall_mem_cons.mp hseq
    obtain ⟨line', rfl, rfl⟩ := eq_append_of_alphanum htail.2 hrest
    refine ⟨seq, line', bs, bytes', rfl, ?_, ?_, hlen, quotesHold_alphanum htail.2 hline, ?_, rfl⟩
    · intro hmem
      exact absurd (hseq _ hmem) (by decide)
    · rintro rfl
      contradiction
    · rw [hrest, ← List.cons_append, List.drop_left] at hbytes'
      exact hbytes'

/-- What an escaped line and the escaped newline after it are read as. A backslash at the
end of the line is read with the newline's. -/
theorem value_line {line more : List Char} {bytes : List UInt8}
    (hline : quotesHold false line = true)
    (h : value (line.flatMap escapeQuote ++ '\\' :: 'n' :: more) = some bytes) :
    ∃ bytes', value more = some bytes' ∧
      ((∃ bs, Denotes line bs ∧ bytes = bs ++ 10 :: bytes') ∨
        ∃ before bs, line = before ++ ['\\'] ∧ Denotes before bs ∧
          bytes = bs ++ 92 :: 110 :: bytes') := by
  induction hn : line.length using Nat.strong_induction_on generalizing line bytes with
  | _ n ih =>
      cases line with
      | nil =>
          rw [List.flatMap_nil, List.nil_append, value_simpleEscape rfl] at h
          obtain ⟨bytes', hbytes', rfl⟩ := Option.map_eq_some_iff.mp h
          exact ⟨bytes', hbytes', .inl ⟨[], .nil, rfl⟩⟩
      | cons c line =>
          rw [List.flatMap_cons, List.append_assoc] at h
          rw [List.length_cons] at hn
          by_cases hc : c = '\\'
          · subst hc
            rw [escapeQuote, if_neg (by decide), List.singleton_append] at h
            cases line with
            | nil =>
                rw [List.flatMap_nil, List.nil_append, value_simpleEscape rfl,
                  value_cons (by decide), Option.map_map] at h
                obtain ⟨bytes', hbytes', rfl⟩ := Option.map_eq_some_iff.mp h
                exact ⟨bytes', hbytes', .inr ⟨[], [], rfl, .nil, rfl⟩⟩
            | cons d line =>
                obtain ⟨hquote, hrest⟩ : d ≠ '"' ∧ quotesHold false line = true := by
                  simpa [quotesHold] using hline
                rw [List.flatMap_cons, List.append_assoc, escapeQuote, if_neg hquote,
                  List.singleton_append] at h
                rw [List.length_cons] at hn
                by_cases hd : d = '\\'
                · subst hd
                  rw [value_simpleEscape rfl] at h
                  obtain ⟨bytes, hbytes, rfl⟩ := Option.map_eq_some_iff.mp h
                  obtain ⟨bytes', hbytes', ⟨bs, hbs, rfl⟩ | ⟨before, bs, rfl, hbs, rfl⟩⟩ :=
                    ih line.length (by omega) hrest hbytes rfl
                  · exact ⟨bytes', hbytes', .inl ⟨_, .backslash hbs, rfl⟩⟩
                  · exact ⟨bytes', hbytes', .inr ⟨_, _, rfl, .backslash hbs, rfl⟩⟩
                · obtain ⟨seq, line, bs₁, bytes, rfl, hseq, hnewline, hlen, hrest, hbytes, rfl⟩ :=
                    value_sequence hd hrest h
                  rw [List.length_append] at hn
                  obtain ⟨bytes', hbytes', ⟨bs, hbs, rfl⟩ | ⟨before, bs, rfl, hbs, rfl⟩⟩ :=
                    ih line.length (by omega) hrest hbytes rfl
                  · exact ⟨bytes', hbytes', .inl ⟨_, .escape hseq hnewline hlen hbs,
                      by rw [List.append_assoc]⟩⟩
                  · exact ⟨bytes', hbytes', .inr ⟨_, _,
                      (List.append_assoc ('\\' :: d :: seq) before ['\\']).symm,
                      .escape hseq hnewline hlen hbs, by rw [List.append_assoc]⟩⟩
          · rw [value_escapeQuote hc] at h
            obtain ⟨bytes, hbytes, rfl⟩ := Option.map_eq_some_iff.mp h
            obtain ⟨bytes', hbytes', ⟨bs, hbs, rfl⟩ | ⟨before, bs, rfl, hbs, rfl⟩⟩ :=
              ih line.length (by omega) (quotesHold_cons hc hline) hbytes rfl
            · exact ⟨bytes', hbytes', .inl ⟨_, .plain hc hbs, by rw [List.append_assoc]⟩⟩
            · exact ⟨bytes', hbytes', .inr ⟨_, _, rfl, .plain hc hbs, by rw [List.append_assoc]⟩⟩

theorem quotesHold_left {escaped : Bool} {first second : List Char}
    (h : quotesHold escaped (first ++ second) = true) : quotesHold escaped first = true := by
  induction first generalizing escaped with
  | nil => cases escaped <;> rfl
  | cons c first ih =>
      rw [List.cons_append, quotesHold] at h
      rw [quotesHold]
      split at h
      · rename_i hc
        rw [if_pos hc]
        simp only [Bool.and_eq_true] at h ⊢
        exact ⟨h.1, ih h.2⟩
      · rename_i hc
        rw [if_neg hc]
        exact ih h

theorem value_insideFrom_head {text : List Char} {bytes : List UInt8}
    (h : value (insideFrom true text) = some bytes) : bytes.head?.getD 32 = 32 := by
  cases text with
  | nil =>
      obtain rfl : [] = bytes := Option.some.inj h
      rfl
  | cons c text =>
      rw [insideFrom_cons, if_pos rfl, List.singleton_append, value_cons (by decide)] at h
      obtain ⟨bytes', -, rfl⟩ := Option.map_eq_some_iff.mp h
      rfl

/-- The first byte of a line boundary is not that of a letter. -/
theorem encode_isLineBoundary {c : Char} (hc : isLineBoundary c = true) :
    ∃ b bytes, String.utf8EncodeChar c = b :: bytes ∧ b ≠ 110 ∧ (c ≠ '\n' → b ≠ 10) := by
  simp only [isLineBoundary, decide_eq_true_eq, List.mem_cons, List.not_mem_nil, or_false] at hc
  obtain rfl | rfl | rfl | rfl | rfl | rfl | rfl | rfl | rfl | rfl := hc <;>
    exact ⟨_, _, rfl, by decide, by decide⟩

/-- A text goes on with a line boundary after its first line, or ends there. -/
theorem exists_line (text : List Char) : ∃ line rest, text = line ++ rest ∧
    (∀ c ∈ line, isLineBoundary c = false) ∧
    ∀ c, rest.head? = some c → isLineBoundary c = true := by
  refine ⟨text.takeWhile (!isLineBoundary ·), text.dropWhile (!isLineBoundary ·),
    List.takeWhile_append_dropWhile.symm, ?_, ?_⟩
  · intro c hc
    simpa using List.mem_takeWhile_imp hc
  · intro c hc
    have hnot := List.head?_dropWhile_not (!isLineBoundary ·) text
    rw [hc] at hnot
    simpa using hnot

section Rest

variable {rest : List Char} (hrest : ∀ c, rest.head? = some c → isLineBoundary c = true)
include hrest

/-- The line ends in an escaped newline, and a space follows. -/
theorem insideFrom_rest : ∃ more, insideFrom false rest = '\\' :: 'n' :: more ∧
    ∀ bytes, value more = some bytes → bytes.head?.getD 32 = 32 := by
  cases rest with
  | nil =>
      refine ⟨[], rfl, ?_⟩
      rintro bytes hbytes
      obtain rfl : [] = bytes := Option.some.inj hbytes
      rfl
  | cons c rest =>
      refine ⟨insideFrom true rest, ?_, fun bytes => value_insideFrom_head⟩
      rw [insideFrom_cons, if_pos (hrest c rfl)]
      rfl

/-- In the script too the line ends, and not with a letter. -/
theorem echo_rest : ∃ b after, echo false rest = b :: after ∧ b ≠ 110 := by
  cases rest with
  | nil => exact ⟨10, [], rfl, by decide⟩
  | cons c rest =>
      rw [echo_cons, if_neg Bool.false_ne_true, List.nil_append]
      split
      · exact ⟨10, _, rfl, by decide⟩
      · obtain ⟨b, bytes, hencode, hb, -⟩ := encode_isLineBoundary (hrest c rfl)
        exact ⟨b, _, by rw [hencode]; rfl, hb⟩

end Rest

/-- A line that begins with a backslash is read as another text. -/
theorem value_ne_echo {text : List Char} (hquotes : quotesHold false ('\\' :: text) = true) :
    value (insideFrom false ('\\' :: text)) ≠ some (echo false ('\\' :: text)) := by
  obtain ⟨line, rest, rfl, hline', hrest⟩ := exists_line text
  have hline : ∀ c ∈ '\\' :: line, isLineBoundary c = false :=
    List.forall_mem_cons.mpr ⟨by decide, hline'⟩
  have hplain : ∀ c ∈ '\\' :: line, decide (c = '\n') = false := by
    intro c hc
    refine decide_eq_false ?_
    rintro rfl
    exact absurd (hline _ hc) (by decide)
  have hnewline : '\n' ∉ '\\' :: line := fun hmem => absurd (hline _ hmem) (by decide)
  obtain ⟨more, hinside, hmore⟩ := insideFrom_rest hrest
  obtain ⟨b, after, hecho, hb⟩ := echo_rest hrest
  have hscript : echo false ('\\' :: line ++ rest) = utf8 ('\\' :: line) ++ b :: after := by
    rw [echo, perLine_append hplain, ← echo, hecho]
    rfl
  intro hvalue
  rw [← List.cons_append, hscript, insideFrom, perLine_append hline, ← insideFrom, hinside]
    at hvalue
  obtain ⟨bytes, hbytes, ⟨bs, hbs, heq⟩ | ⟨before, bs, hbefore, hbs, heq⟩⟩ :=
    value_line (quotesHold_left hquotes) hvalue
  · -- Everything is escaped: the line is too short, and the newline read falls into it.
    have hshorter := hbs.length_lt
    obtain ⟨extra, hsame, -⟩ | ⟨extra, hsame, hrest⟩ := List.append_eq_append_iff.mp heq
    · rw [hsame, List.length_append] at hshorter
      omega
    · cases extra with
      | nil =>
          rw [hsame, List.append_nil] at hshorter
          exact hshorter.false
      | cons a extra =>
          obtain ⟨rfl, -⟩ := List.cons.inj hrest
          exact hnewline (newline_mem_of_utf8 (by simp [hsame]))
  · -- The line ends in a loose backslash, which is read with the newline's.
    have hbefore' : '\n' ∉ before := by
      rw [hbefore] at hnewline
      exact fun hmem => hnewline (List.mem_append_left _ hmem)
    have hloose : utf8 before ++ 92 :: b :: after = bs ++ 92 :: 110 :: bytes := by
      rw [← heq, hbefore, utf8_append, List.append_assoc]
      rfl
    have hletter : (b :: after).head? ≠ some 110 := fun hhead => hb (Option.some.inj hhead)
    exact hbs.not_loose hbefore' hletter (hmore bytes hbytes) hloose

/-- The space before a line is read as it is. -/
theorem value_fresh (fresh : Bool) (c : Char) (text : List Char) :
    value (insideFrom fresh (c :: text)) = some (echo fresh (c :: text)) ↔
      value (insideFrom false (c :: text)) = some (echo false (c :: text)) := by
  cases fresh with
  | true =>
      have hspace : value (insideFrom true (c :: text)) =
          (value (insideFrom false (c :: text))).map (32 :: ·) :=
        value_cons (show ' ' ≠ '\\' by decide) (insideFrom false (c :: text))
      have hecho : echo true (c :: text) = 32 :: echo false (c :: text) := rfl
      rw [hspace, hecho]
      simp
  | false => rfl

/-- Reading gives the script back when it has no backslash and newlines are all that ends
its lines, and only then. -/
theorem value_insideFrom_iff {fresh : Bool} {text : List Char}
    (hquotes : quotesHold false text = true) :
    value (insideFrom fresh text) = some (echo fresh text) ↔
      '\\' ∉ text ∧ ∀ c ∈ text, isLineBoundary c = true → c = '\n' := by
  induction text generalizing fresh with
  | nil =>
      refine ⟨fun _ => ⟨List.not_mem_nil, nofun⟩, fun _ => ?_⟩
      cases fresh <;> rfl
  | cons c text ih =>
      rw [value_fresh]
      by_cases hbackslash : c = '\\'
      · subst hbackslash
        refine iff_of_false (value_ne_echo hquotes) ?_
        rintro ⟨hnot, -⟩
        exact hnot (List.mem_cons_self ..)
      · have hrest (fresh : Bool) := @ih fresh (quotesHold_cons hbackslash hquotes)
        have hplain : '\\' ∉ c :: text ↔ '\\' ∉ text := by
          simp [Ne.symm hbackslash]
        rw [hplain]
        by_cases hc : isLineBoundary c = true
        · have hinside : insideFrom false (c :: text) = '\\' :: 'n' :: insideFrom true text := by
            rw [insideFrom_cons, if_pos hc]
            rfl
          rw [hinside, value_simpleEscape rfl, Option.map_eq_some_iff]
          by_cases hnewline : c = '\n'
          · subst hnewline
            have hecho : echo false ('\n' :: text) = 10 :: echo true text := rfl
            simp [hecho, hrest]
          · obtain ⟨b, bytes, hencode, -, hb⟩ := encode_isLineBoundary hc
            have hecho : echo false (c :: text) = b :: (bytes ++ echo false text) := by
              rw [echo_cons, if_neg hnewline, hencode]
              rfl
            refine iff_of_false ?_ fun h => hnewline (h.2 c (List.mem_cons_self ..) hc)
            rintro ⟨bytes', -, hbytes'⟩
            rw [hecho] at hbytes'
            exact hb hnewline (List.cons.inj hbytes').1.symm
        · have hnewline : c ≠ '\n' := by
            rintro rfl
            exact hc isLineBoundary_newline
          have hinside : insideFrom false (c :: text) = escapeQuote c ++ insideFrom false text := by
            rw [insideFrom_cons, if_neg hc]
            rfl
          have hecho : echo false (c :: text) = String.utf8EncodeChar c ++ echo false text := by
            rw [echo_cons, if_neg hnewline]
            rfl
          rw [hinside, hecho, value_escapeQuote hbackslash, Option.map_eq_some_iff]
          simp [hrest, hc]

theorem quotesHold_of_plain {text : List Char} (h : '\\' ∉ text) :
    quotesHold false text = true := by
  induction text with
  | nil => rfl
  | cons c text ih =>
      rw [List.mem_cons, not_or] at h
      rw [quotesHold]
      split
      · exact ih h.2
      · simpa [Ne.symm h.1] using ih h.2

variable {name : List Char}

/-- In both templates the text stands between double quotes, and the compiler reads it
there as one literal whose value is the script exactly when the script has no backslash,
and newline is the only line boundary in it. -/
theorem readsAs_scriptValue_iff (t : SourceTemplate) (hname : '@' ∉ name) (file : List Char) :
    generate t.text name file = fill (named name) t.head ++ luaToCString file ++
        fill (named name) t.middle ++ '"' :: luaToCString file ++
        '"' :: fill (named name) t.tail ∧
      (ReadsAs (luaToCString file) (scriptValue file) ↔
        '\\' ∉ universalNewlines file ∧
          ∀ c ∈ universalNewlines file, isLineBoundary c = true → c = '\n') := by
  refine ⟨?_, ?_⟩
  · rw [generate_text hname]
    simp [SourceTemplate.before, SourceTemplate.between, SourceTemplate.after]
  · rw [readsAs_iff, scriptValue_eq]
    constructor
    · rintro ⟨hquotes, hvalue⟩
      exact (value_insideFrom_iff hquotes).mp hvalue
    · rintro ⟨hbackslash, hboundary⟩
      have hquotes := quotesHold_of_plain hbackslash
      exact ⟨hquotes, (value_insideFrom_iff hquotes).mpr ⟨hbackslash, hboundary⟩⟩

/-- Quotes, placeholders and a missing last newline come through. -/
theorem readsAs_scriptValue_iff_print :
    ReadsAs (luaToCString (chars "print(\"@FILE_NAME@\")"))
      (scriptValue (chars "print(\"@FILE_NAME@\")")) :=
  (readsAs_scriptValue_iff templateH (show '@' ∉ chars "main" by decide) _).2.mpr
    ⟨by decide, List.forall_iff_forall_mem.mp (by decide)⟩

/-- A newline that a Lua string escapes becomes a newline of the script. -/
theorem not_readsAs_newline :
    ¬ ReadsAs (luaToCString (chars "print('a\\nb')\n"))
      (scriptValue (chars "print('a\\nb')\n")) := by
  rw [readsAs_iff]
  rintro ⟨-, hvalue⟩
  revert hvalue
  decide

end LuaZephyr
