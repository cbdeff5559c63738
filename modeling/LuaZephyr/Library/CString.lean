import Mathlib.Algebra.Group.Nat.Defs
import Mathlib.Data.List.TakeWhile

/-!
# NUL-terminated strings in byte memory

`text bs` is the C string that starts at the head of `bs`: the bytes before the
first NUL. `strncpy n s` is the block of exactly `n` bytes the C function of that
name writes, cut at `n` bytes and padded with NULs.

Memory is a list of bytes and has an end: a text without a NUL is all that is left of it. What a
C program would read behind the end is not said, and a client has to show that a NUL is there
before. Locales and wide characters play no part.
-/

namespace CString

/-- The bytes before the first NUL; all of `bs` when there is none. -/
def text (bs : List UInt8) : List UInt8 := bs.takeWhile (· ≠ 0)

theorem text_cons (b : UInt8) (bs : List UInt8) :
    text (b :: bs) = if b = 0 then [] else b :: text bs := by
  by_cases hb : b = 0 <;> simp [text, hb]

theorem length_text_le (bs : List UInt8) : (text bs).length ≤ bs.length :=
  (List.takeWhile_prefix _).length_le

theorem ne_zero_of_mem_text {bs : List UInt8} {b : UInt8} (h : b ∈ text bs) : b ≠ 0 := by
  simpa using List.mem_takeWhile_imp h

/-- A terminated block holds strictly fewer text bytes than bytes. -/
theorem length_text_lt {bs : List UInt8} (h : 0 ∈ bs) : (text bs).length < bs.length := by
  induction bs with
  | nil => simp at h
  | cons b bs ih =>
      rw [text_cons]
      by_cases hb : b = 0
      · simp [hb]
      · have hmem : 0 ∈ bs := by simpa [Ne.symm hb] using h
        simpa [hb] using ih hmem

theorem text_eq_self {bs : List UInt8} (h : ∀ b ∈ bs, b ≠ 0) : text bs = bs := by
  rw [text, List.takeWhile_eq_self_iff]
  simpa using h

theorem text_eq_self_iff {bs : List UInt8} : text bs = bs ↔ 0 ∉ bs := by
  constructor
  · intro heq hmem
    have hlt := length_text_lt hmem
    rw [heq] at hlt
    exact Nat.lt_irrefl _ hlt
  · intro hmem
    exact text_eq_self fun b hb hzero => hmem (hzero ▸ hb)

@[simp] theorem text_text (bs : List UInt8) : text (text bs) = text bs :=
  text_eq_self (fun _ hb => ne_zero_of_mem_text hb)

/-- Only the bytes up to the terminator matter. -/
theorem text_append_of_mem {bs : List UInt8} (h : 0 ∈ bs) (rest : List UInt8) :
    text (bs ++ rest) = text bs := by
  induction bs with
  | nil => simp at h
  | cons b bs ih =>
      rw [List.cons_append, text_cons, text_cons]
      by_cases hb : b = 0
      · simp [hb]
      · have hmem : 0 ∈ bs := by simpa [Ne.symm hb] using h
        rw [if_neg hb, if_neg hb, ih hmem]

theorem text_append {s : List UInt8} (h : 0 ∉ s) (rest : List UInt8) :
    text (s ++ rest) = s ++ text rest := by
  induction s with
  | nil => rfl
  | cons b s ih =>
      obtain ⟨hb, hs⟩ := not_or.mp (List.mem_cons.not.mp h)
      rw [List.cons_append, text_cons, if_neg (Ne.symm hb), ih hs, List.cons_append]

/-- A text followed by a NUL reads back as itself. -/
theorem text_append_zero {s : List UInt8} (h : ∀ b ∈ s, b ≠ 0) (rest : List UInt8) :
    text (s ++ 0 :: rest) = s := by
  induction s with
  | nil => simp [text_cons]
  | cons b s ih =>
      have hb : b ≠ 0 := h b (by simp)
      rw [List.cons_append, text_cons, if_neg hb, ih (fun c hc => h c (by simp [hc]))]

/-- What `strncpy(dst, s, n)` leaves in the `n` bytes at `dst`. -/
def strncpy (n : Nat) (s : List UInt8) : List UInt8 :=
  (text s).take n ++ List.replicate (n - (text s).length) 0

@[simp] theorem length_strncpy (n : Nat) (s : List UInt8) : (strncpy n s).length = n := by
  simp only [strncpy, List.length_append, List.length_take, List.length_replicate]
  omega

/-- A copy bounded by `n` and followed by a NUL holds the first `n` text bytes. -/
theorem text_strncpy_zero (n : Nat) (s : List UInt8) :
    text (strncpy n s ++ [0]) = (text s).take n := by
  have hne : ∀ b ∈ (text s).take n, b ≠ 0 :=
    fun b hb => ne_zero_of_mem_text (List.mem_of_mem_take hb)
  have hrep : List.replicate (n - (text s).length) (0 : UInt8) ++ [0] =
      0 :: List.replicate (n - (text s).length) 0 := by
    rw [← List.replicate_succ', List.replicate_succ]
  rw [strncpy, List.append_assoc, hrep, text_append_zero hne]

/-- What `snprintf(dst, n, …)` leaves at `dst` of the formatted text `s`, and the `int` it
returns: the length of `s`, negative where that is not an `int`. -/
def snprintf (n : Nat) (s : List UInt8) : List UInt8 × Int :=
  (s.take (n - 1), if s.length < 2 ^ 31 then s.length else -1)

theorem snprintf_fits {n : Nat} {s : List UInt8} (h : s.length < n) : (snprintf n s).1 = s :=
  List.take_of_length_le (by omega)

/-- The result tells whether the text was cut. -/
theorem snprintf_cut_iff {n : Nat} (hn : n < 2 ^ 31) (s : List UInt8) :
    (snprintf n s).2 < 0 ∨ n ≤ (snprintf n s).2 ↔ n ≤ s.length := by
  rw [snprintf]
  split
  · omega
  · omega

end CString
