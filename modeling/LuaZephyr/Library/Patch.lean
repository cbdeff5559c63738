import Mathlib.Data.List.Basic
import Mathlib.Data.List.Pairwise

/-!
# Writes into a fixed buffer

A write puts a run of cells at an offset of a buffer whose length never changes.
A batch of pairwise disjoint writes has an order-free meaning: each write's range
holds exactly what that write put there, and every other cell keeps its value.

Cells are of any type. Of writes that overlap the last one counts, and nothing more is said of
them, nor of writes past the end; clients show beforehand that theirs are apart and fit. What a
batch leaves can then be read back cell by cell.
-/

namespace Patch

variable {α : Type}

/-- The `n` cells of `buf` from `off` on. -/
def slice (buf : List α) (off n : Nat) : List α := (buf.drop off).take n

theorem length_slice {buf : List α} {off n : Nat} (h : off + n ≤ buf.length) :
    (slice buf off n).length = n := by
  simp only [slice, List.length_take, List.length_drop]
  omega

theorem getElem?_slice (buf : List α) (off n i : Nat) :
    (slice buf off n)[i]? = if i < n then buf[off + i]? else none := by
  simp [slice, List.getElem?_take]

/-- Two buffers that agree on a range have the same slice there. -/
theorem slice_congr {a b : List α} {off n : Nat}
    (h : ∀ i, off ≤ i → i < off + n → a[i]? = b[i]?) : slice a off n = slice b off n := by
  apply List.ext_getElem?
  intro i
  rw [getElem?_slice, getElem?_slice]
  split
  · exact h (off + i) (by omega) (by omega)
  · rfl

theorem slice_zero_length (a : List α) : slice a 0 a.length = a := by
  simp [slice]

/-- A range of cells. -/
structure Span where
  start : Nat
  length : Nat
  deriving Repr, DecidableEq

namespace Span

def stop (s : Span) : Nat := s.start + s.length

abbrev Covers (s : Span) (i : Nat) : Prop := s.start ≤ i ∧ i < s.stop

/-- One range ends before the other starts. -/
def Apart (a b : Span) : Prop := a.stop ≤ b.start ∨ b.stop ≤ a.start

/-- The two ranges have no cell in common; an empty range has none with any. -/
def Disjoint (a b : Span) : Prop := min a.stop b.stop ≤ max a.start b.start

instance (a b : Span) : Decidable (a.Disjoint b) :=
  inferInstanceAs (Decidable (min a.stop b.stop ≤ max a.start b.start))

/-- `a` lies inside `b` and is not empty. -/
structure Within (a b : Span) : Prop where
  pos : 0 < a.length
  start_le : b.start ≤ a.start
  stop_le : a.stop ≤ b.stop

/-- Non-empty parts of disjoint ranges are apart. -/
theorem Disjoint.apart {a b c d : Span} (h : a.Disjoint b) (hc : c.Within a) (hd : d.Within b) :
    c.Apart d := by
  have hc' := hc.pos
  have hd' := hd.pos
  have h1 := hc.start_le
  have h2 := hc.stop_le
  have h3 := hd.start_le
  have h4 := hd.stop_le
  simp only [Disjoint, Apart, stop] at *
  omega

end Span

/-- A run of cells to be stored at an offset. -/
structure Write (α : Type) where
  offset : Nat
  cells : List α
  deriving Repr, DecidableEq

namespace Write

/-- The first cell after the written range. -/
def stop (w : Write α) : Nat := w.offset + w.cells.length

abbrev Covers (w : Write α) (i : Nat) : Prop := w.offset ≤ i ∧ i < w.stop

def span (w : Write α) : Span := ⟨w.offset, w.cells.length⟩

/-- The ranges of two writes do not meet. -/
def Apart (v w : Write α) : Prop := v.stop ≤ w.offset ∨ w.stop ≤ v.offset

theorem Apart.symm {v w : Write α} (h : v.Apart w) : w.Apart v := h.elim .inr .inl

end Write

/-- Writes to some of a family of pairwise apart ranges are pairwise apart. -/
theorem pairwise_apart_of_sublist {ws : List (Write α)} {spans : List Span}
    (hsub : (ws.map Write.span).Sublist spans) (h : spans.Pairwise Span.Apart) :
    ws.Pairwise Write.Apart := by
  have hspans : (ws.map Write.span).Pairwise Span.Apart := h.sublist hsub
  rw [List.pairwise_map] at hspans
  exact hspans

/-- Overwrite one range of the buffer. -/
def put (buf : List α) (w : Write α) : List α :=
  buf.take w.offset ++ w.cells ++ buf.drop w.stop

theorem length_put {buf : List α} {w : Write α} (h : w.stop ≤ buf.length) :
    (put buf w).length = buf.length := by
  simp only [put, List.length_append, List.length_take, List.length_drop]
  simp only [Write.stop] at h ⊢
  omega

theorem getElem?_put {buf : List α} {w : Write α} (h : w.stop ≤ buf.length) (i : Nat) :
    (put buf w)[i]? = if w.Covers i then w.cells[i - w.offset]? else buf[i]? := by
  have hoff : w.offset ≤ buf.length := Nat.le_trans (Nat.le_add_right _ _) h
  have htake : (buf.take w.offset).length = w.offset := by simp [hoff]
  have hstop : w.stop = w.offset + w.cells.length := rfl
  rw [put, List.append_assoc]
  by_cases hlo : i < w.offset
  · rw [List.getElem?_append_left (by omega), List.getElem?_take_of_lt hlo, if_neg (by omega)]
  · rw [List.getElem?_append_right (by omega), htake]
    by_cases hhi : i < w.stop
    · rw [List.getElem?_append_left (by omega), if_pos ⟨by omega, hhi⟩]
    · rw [List.getElem?_append_right (by omega), List.getElem?_drop, if_neg (by omega)]
      congr 1
      omega

@[simp] theorem put_nil (buf : List α) (off : Nat) : put buf ⟨off, []⟩ = buf := by
  simp [put, Write.stop]

theorem put_zero (buf cells : List α) : put buf ⟨0, cells⟩ = cells ++ buf.drop cells.length := by
  simp [put, Write.stop]

theorem getElem?_put_mk {buf : List α} {off : Nat} {cells : List α}
    (h : off + cells.length ≤ buf.length) (i : Nat) :
    (put buf ⟨off, cells⟩)[i]? =
      if off ≤ i ∧ i < off + cells.length then cells[i - off]? else buf[i]? :=
  getElem?_put (w := ⟨off, cells⟩) h i

/-- Two writes that meet end to start are one. -/
theorem put_put_adjacent {buf : List α} {off : Nat} {a b : List α}
    (h : off + (a ++ b).length ≤ buf.length) :
    put (put buf ⟨off, a⟩) ⟨off + a.length, b⟩ = put buf ⟨off, a ++ b⟩ := by
  have hab : (a ++ b).length = a.length + b.length := List.length_append
  have hlen : (put buf ⟨off, a⟩).length = buf.length :=
    length_put (by simp only [Write.stop]; omega)
  apply List.ext_getElem?
  intro i
  rw [getElem?_put_mk (by omega), getElem?_put_mk (by omega), getElem?_put_mk h,
    List.getElem?_append]
  by_cases ha : off ≤ i ∧ i < off + a.length
  · rw [if_neg (by omega), if_pos ha, if_pos (by omega), if_pos (by omega)]
  · by_cases hb : off + a.length ≤ i ∧ i < off + a.length + b.length
    · rw [if_pos hb, if_pos (by omega), if_neg (by omega), Nat.sub_add_eq]
    · rw [if_neg hb, if_neg ha, if_neg (by omega)]

/-- Perform writes in order. -/
def putAll (buf : List α) (ws : List (Write α)) : List α := ws.foldl put buf

@[simp] theorem putAll_nil (buf : List α) : putAll buf [] = buf := rfl

@[simp] theorem putAll_cons (buf : List α) (w : Write α) (ws : List (Write α)) :
    putAll buf (w :: ws) = putAll (put buf w) ws := rfl

theorem putAll_append (buf : List α) (vs ws : List (Write α)) :
    putAll buf (vs ++ ws) = putAll (putAll buf vs) ws := by
  simp [putAll]

/-- Every write of the batch stays inside a buffer of length `n`. -/
def AllWithin (ws : List (Write α)) (n : Nat) : Prop := ∀ w ∈ ws, w.stop ≤ n

theorem AllWithin.append {vs ws : List (Write α)} {n : Nat} (hv : AllWithin vs n)
    (hw : AllWithin ws n) : AllWithin (vs ++ ws) n := by
  intro w hmem
  rcases List.mem_append.mp hmem with h | h
  · exact hv w h
  · exact hw w h

theorem length_putAll {buf : List α} {ws : List (Write α)} (h : AllWithin ws buf.length) :
    (putAll buf ws).length = buf.length := by
  induction ws generalizing buf with
  | nil => rfl
  | cons w ws ih =>
      have hw : w.stop ≤ buf.length := h w (by simp)
      have hlen := length_put hw
      rw [putAll_cons, ih (fun v hv => by rw [hlen]; exact h v (by simp [hv])), hlen]

/-- Frame: a cell no write covers keeps its value. -/
theorem getElem?_putAll_of_uncovered {buf : List α} {ws : List (Write α)}
    (h : AllWithin ws buf.length) {i : Nat} (hi : ∀ w ∈ ws, ¬ w.Covers i) :
    (putAll buf ws)[i]? = buf[i]? := by
  induction ws generalizing buf with
  | nil => rfl
  | cons w ws ih =>
      have hw : w.stop ≤ buf.length := h w (by simp)
      rw [putAll_cons, ih (fun v hv => by rw [length_put hw]; exact h v (by simp [hv]))
        (fun v hv => hi v (by simp [hv])), getElem?_put hw, if_neg (hi w (by simp))]

/-- A range no write of the batch meets is left as it was. -/
theorem slice_putAll_of_apart {buf : List α} {ws : List (Write α)}
    (h : AllWithin ws buf.length) {off n : Nat}
    (hapart : ∀ w ∈ ws, w.stop ≤ off ∨ off + n ≤ w.offset) :
    slice (putAll buf ws) off n = slice buf off n := by
  apply slice_congr
  intro i hlo hhi
  apply getElem?_putAll_of_uncovered h
  intro w hw hcov
  rcases hapart w hw with hl | hr <;> omega

theorem slice_put_self {buf : List α} {w : Write α} (h : w.stop ≤ buf.length) :
    slice (put buf w) w.offset w.cells.length = w.cells := by
  apply List.ext_getElem?
  intro i
  rw [getElem?_slice, getElem?_put h]
  by_cases hi : i < w.cells.length
  · rw [if_pos hi, if_pos ⟨by omega, by simp only [Write.stop]; omega⟩, Nat.add_sub_cancel_left]
  · rw [if_neg hi, List.getElem?_eq_none (by omega)]

/-- Each write of a disjoint batch is found back in its own range. -/
theorem slice_putAll_of_mem {buf : List α} {ws : List (Write α)}
    (h : AllWithin ws buf.length) (hdisj : ws.Pairwise Write.Apart) {w : Write α} (hw : w ∈ ws) :
    slice (putAll buf ws) w.offset w.cells.length = w.cells := by
  induction ws generalizing buf with
  | nil => simp at hw
  | cons v ws ih =>
      have hv : v.stop ≤ buf.length := h v (by simp)
      have hrest : AllWithin ws (put buf v).length :=
        fun u hu => by rw [length_put hv]; exact h u (by simp [hu])
      obtain ⟨hhead, htail⟩ := List.pairwise_cons.mp hdisj
      rw [putAll_cons]
      rcases List.mem_cons.mp hw with rfl | hmem
      · rw [slice_putAll_of_apart hrest (fun u hu => (hhead u hu).symm), slice_put_self hv]
      · exact ih hrest htail hmem

/-- Every write of the batch is still in place. -/
def Holds (buf : List α) (ws : List (Write α)) : Prop :=
  ∀ w ∈ ws, w.stop ≤ buf.length ∧ slice buf w.offset w.cells.length = w.cells

theorem holds_append {buf : List α} {vs ws : List (Write α)} :
    Holds buf (vs ++ ws) ↔ Holds buf vs ∧ Holds buf ws := by
  constructor
  · intro h
    exact ⟨fun w hw => h w (List.mem_append_left _ hw),
      fun w hw => h w (List.mem_append_right _ hw)⟩
  · rintro ⟨hv, hw⟩ w hmem
    exact (List.mem_append.mp hmem).elim (hv w) (hw w)

theorem holds_putAll {buf : List α} {ws : List (Write α)} (h : AllWithin ws buf.length)
    (hdisj : ws.Pairwise Write.Apart) : Holds (putAll buf ws) ws := by
  intro w hw
  exact ⟨by rw [length_putAll h]; exact h w hw, slice_putAll_of_mem h hdisj hw⟩

end Patch
