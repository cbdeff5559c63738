import Mathlib.Data.List.Basic

/-!
# Editing a line

A line is typed key by key: an ordinary key is appended, an erasing key takes the last one
back. A reader gives the line at the first key that ends it, or as soon as the line is full.

Which keys erase and which end a line are parameters, and so is when the line is full. There is
no cursor and no history, and an erasing key on an empty line does nothing; a reader that does
otherwise there has to say so itself.
-/

namespace LineEditing

variable {α : Type} (erases ends : α → Bool) (full : List α → Bool)

/-- The editing rule. -/
def edit (line : List α) (key : α) : List α :=
  if erases key then line.dropLast else line ++ [key]

/-- What the keys make of a line. -/
def edited (line keys : List α) : List α := keys.foldl (edit erases) line

@[simp] theorem edited_nil (line : List α) : edited erases line [] = line := rfl

@[simp] theorem edited_cons (line : List α) (key : α) (keys : List α) :
    edited erases line (key :: keys) = edited erases (edit erases line key) keys := rfl

/-- Without erasing keys all of them are in the line. -/
theorem edited_eq_append {erases : α → Bool} {keys : List α}
    (h : ∀ key ∈ keys, erases key = false) (line : List α) :
    edited erases line keys = line ++ keys := by
  induction keys generalizing line with
  | nil => exact (List.append_nil line).symm
  | cons key keys ih =>
      obtain ⟨hkey, hkeys⟩ := List.forall_mem_cons.mp h
      have hedit : edit erases line key = line ++ [key] := by rw [edit, hkey, if_neg (by simp)]
      rw [edited_cons, hedit, ih hkeys, List.append_assoc, List.singleton_append]

/-- An ending key; a key that erases ends nothing. -/
def stops (key : α) : Bool := ends key && !erases key

/-- The line that is typed after these keys, when each ending key begins a new one. -/
def held (line keys : List α) : List α :=
  keys.foldl (fun line key => if stops erases ends key then [] else edit erases line key) line

@[simp] theorem held_nil (line : List α) : held erases ends line [] = line := rfl

@[simp] theorem held_cons (line : List α) (key : α) (keys : List α) :
    held erases ends line (key :: keys) = held erases ends
      (if stops erases ends key then [] else edit erases line key) keys := rfl

theorem length_edit_le (line : List α) (key : α) :
    (edit erases line key).length ≤ line.length + 1 := by
  rw [edit]
  split
  · rw [List.length_dropLast]
    omega
  · exact Nat.le_of_eq List.length_append

theorem length_held_le (line keys : List α) :
    (held erases ends line keys).length ≤ line.length + keys.length := by
  induction keys generalizing line with
  | nil => exact Nat.le_refl _
  | cons key keys ih =>
      rw [held_cons, List.length_cons]
      split
      · exact Nat.le_trans (ih []) (by rw [List.length_nil]; omega)
      · have hedit := length_edit_le erases line key
        exact Nat.le_trans (ih _) (by omega)

/-- A line that was read, the key that ended it, none for a full line, and the keys left. -/
structure Reading (α : Type) where
  line : List α
  stop : Option α
  rest : List α
  deriving DecidableEq, Repr

/-- Read with `line` typed so far; none while the reader waits for a key. -/
def readLine : List α → List α → Option (Reading α)
  | [], line => if full line then some ⟨line, none, []⟩ else none
  | key :: keys, line =>
      if full line then some ⟨line, none, key :: keys⟩
      else if stops erases ends key then some ⟨line, some key, keys⟩
      else readLine keys (edit erases line key)

/-- The lines that are read one after another. -/
def readings : List α → List α → List (Reading α)
  | [], _ => []
  | key :: keys, line =>
      if stops erases ends key then ⟨line, some key, keys⟩ :: readings keys []
      else if full (edit erases line key) then
        ⟨edit erases line key, none, keys⟩ :: readings keys []
      else readings keys (edit erases line key)

/-- The reading stops after the typed keys, at an ending key or at a full line, and not
before. -/
structure Stops (line keys typed : List α) (r : Reading α) : Prop where
  split : keys = typed ++ (r.stop.toList ++ r.rest)
  result : r.line = edited erases line typed
  ordinary : ∀ key ∈ typed, stops erases ends key = false
  room : ∀ p q, typed = p ++ q → q ≠ [] → full (edited erases line p) = false
  stop : match r.stop with
    | some key => stops erases ends key = true ∧ full r.line = false
    | none => full r.line = true

/-- No key so far ends the line, and it has room. -/
structure Waits (line keys : List α) : Prop where
  ordinary : ∀ key ∈ keys, stops erases ends key = false
  room : ∀ p q, keys = p ++ q → full (edited erases line p) = false

/-- While the keys in front of `rest` are typed, the line has room. -/
def HasRoom (line keys rest : List α) : Prop :=
  ∀ p q, keys = p ++ (q ++ rest) → full (held erases ends line p) = false

variable {erases ends full} {line keys typed : List α} {key : α} {r : Reading α}

theorem Stops.cons (hroom : full line = false) (hkey : stops erases ends key = false)
    (h : Stops erases ends full (edit erases line key) keys typed r) :
    Stops erases ends full line (key :: keys) (key :: typed) r where
  split := congrArg (key :: ·) h.split
  result := h.result
  ordinary := List.forall_mem_cons.mpr ⟨hkey, h.ordinary⟩
  room p q hsplit hq := by
    cases p with
    | nil => exact hroom
    | cons k p =>
        obtain ⟨rfl, htail⟩ := List.cons.inj hsplit
        exact h.room p q htail hq
  stop := h.stop

theorem Waits.cons (hroom : full line = false) (hkey : stops erases ends key = false)
    (h : Waits erases ends full (edit erases line key) keys) :
    Waits erases ends full line (key :: keys) where
  ordinary := List.forall_mem_cons.mpr ⟨hkey, h.ordinary⟩
  room p q hsplit := by
    cases p with
    | nil => exact hroom
    | cons k p =>
        obtain ⟨rfl, htail⟩ := List.cons.inj hsplit
        exact h.room p q htail

/-- Nothing is typed before a stop at the first key. -/
theorem Stops.at_once (hsplit : keys = r.stop.toList ++ r.rest) (hline : r.line = line)
    (hstop : match r.stop with
      | some key => stops erases ends key = true ∧ full r.line = false
      | none => full r.line = true) :
    Stops erases ends full line keys [] r where
  split := hsplit
  result := hline
  ordinary := by simp
  room p q hsplit hq := absurd (List.append_eq_nil_iff.mp hsplit.symm).2 hq
  stop := hstop

variable (erases ends full) in
/-- A reader stops as it should, and waits only while there is nothing to stop at. -/
theorem readLine_spec (keys line : List α) :
    (∃ r typed, readLine erases ends full keys line = some r ∧
      Stops erases ends full line keys typed r) ∨
    (readLine erases ends full keys line = none ∧ Waits erases ends full line keys) := by
  induction keys generalizing line with
  | nil =>
      rw [readLine]
      cases hfull : full line with
      | true => exact .inl ⟨_, [], rfl, .at_once rfl rfl hfull⟩
      | false =>
          refine .inr ⟨rfl, by simp, fun p q hsplit => ?_⟩
          rw [(List.append_eq_nil_iff.mp hsplit.symm).1]
          exact hfull
  | cons key keys ih =>
      rw [readLine]
      cases hfull : full line with
      | true => exact .inl ⟨_, [], rfl, .at_once rfl rfl hfull⟩
      | false =>
          cases hkey : stops erases ends key with
          | true => exact .inl ⟨_, [], rfl, .at_once rfl rfl ⟨hkey, hfull⟩⟩
          | false =>
              obtain ⟨r, typed, hread, hstops⟩ | ⟨hread, hwaits⟩ := ih (edit erases line key)
              · exact .inl ⟨r, key :: typed, hread, hstops.cons hfull hkey⟩
              · exact .inr ⟨hread, hwaits.cons hfull hkey⟩

theorem readLine_full (hfull : full line = true) :
    readLine erases ends full keys line = some ⟨line, none, keys⟩ := by
  cases keys with
  | nil => rw [readLine, if_pos hfull]
  | cons key keys => rw [readLine, if_pos hfull]

theorem HasRoom.of_cons {rest : List α} (h : HasRoom erases ends full line (key :: keys) rest) :
    HasRoom erases ends full (if stops erases ends key then [] else edit erases line key) keys
      rest := by
  intro p q hsplit
  exact h (key :: p) q (congrArg (key :: ·) hsplit)

theorem HasRoom.cons {rest : List α} (hroom : full line = false)
    (h : HasRoom erases ends full (if stops erases ends key then [] else edit erases line key) keys
      rest) : HasRoom erases ends full line (key :: keys) rest := by
  intro p q hsplit
  cases p with
  | nil => exact hroom
  | cons k p =>
      obtain ⟨rfl, htail⟩ := List.cons.inj hsplit
      exact h p q htail

theorem hasRoom_stop_iff {rest : List α} (hroom : full line = false)
    (hkey : stops erases ends key = true) :
    HasRoom erases ends full line (key :: keys) rest ↔ HasRoom erases ends full [] keys rest := by
  constructor
  · intro h
    have hrest := h.of_cons
    rwa [hkey, if_pos rfl] at hrest
  · intro h
    exact .cons hroom (by rwa [hkey, if_pos rfl])

theorem hasRoom_edit_iff {rest : List α} (hroom : full line = false)
    (hkey : stops erases ends key = false) :
    HasRoom erases ends full line (key :: keys) rest ↔
      HasRoom erases ends full (edit erases line key) keys rest := by
  constructor
  · intro h
    have hrest := h.of_cons
    rwa [hkey, if_neg Bool.false_ne_true] at hrest
  · intro h
    exact .cons hroom (by rwa [hkey, if_neg Bool.false_ne_true])

/-- Nothing is typed in front of all the keys. -/
theorem hasRoom_self (hroom : full line = false) : HasRoom erases ends full line keys keys := by
  intro p q hsplit
  have hlen := congrArg List.length hsplit
  rw [List.length_append, List.length_append] at hlen
  rw [List.length_eq_zero_iff.mp (show p.length = 0 by omega)]
  exact hroom

end LineEditing
