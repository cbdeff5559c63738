import LuaZephyr.MsgDescr.Leaves

/-!
# STRING fields

A STRING field holds the address of the characters, not the characters. The decoder
stores the address the string has at that moment, and the encoder shows whatever
string is found at the address when the message is shown.

So the string that is shown is the one the address leads to by then, and it is the one that was
sent only as long as nobody has written there. Who may write there in between is the business of
`Zbus.SharedStrings`; here the memory is whatever the parameter says it is.
-/

namespace LuaZephyr

open Words Patch

variable {tgt : Target}

/-- A pointer still in place is read back, if it fits in a pointer. -/
theorem pointerAt_of_holds {buf : Bytes} {off a : Nat}
    (h : Holds buf [⟨off, pointerCells tgt a⟩]) (hfits : a < 256 ^ tgt.pointerSize) :
    pointerAt tgt buf off = some a := by
  obtain ⟨hstop, hslice⟩ := h _ (List.mem_singleton_self _)
  simp only [Write.stop, length_pointerCells] at hstop
  rw [length_pointerCells] at hslice
  rw [pointerAt, bytesAt, if_pos hstop, Option.map_some, hslice, pointerCells,
    ByteOrder.arrange_arrange, digitsToNat_natToDigits, Nat.mod_eq_of_lt hfits]

mutual

theorem fieldWrites_string {f : LuaMsgFieldDescr} {v : Value} {base : Nat}
    {ws : List (Write UInt8)} (hws : fieldWrites tgt f v base = .ok ws) {leaf : Leaf}
    (hleaf : leaf ∈ fieldLeaves f base) (htype : leaf.type = .string) {path : List Bytes}
    (hpath : leaf.path = f.fieldName :: path) {x : Value} (hx : lookupPath tgt v path = some x)
    {s : Bytes} (hs : tgt.toText? x = some s) :
    ⟨leaf.start, pointerCells tgt (tgt.stringAddress s)⟩ ∈ ws := by
  obtain ⟨name, type, offset, size, subFields⟩ := f
  cases type with
  | object =>
      obtain ⟨inner, hinner, rfl⟩ := List.mem_map.mp hleaf
      obtain rfl : inner.path = path := (List.cons.inj hpath).2
      exact tableWrites_string hws hinner htype hx hs
  | string =>
      obtain rfl := List.mem_singleton.mp hleaf
      obtain rfl : [] = path := (List.cons.inj hpath).2
      obtain rfl := Option.some.inj hx
      obtain rfl := Except.ok.inj hws
      rw [hs]
      exact List.mem_singleton_self _
  | _ =>
      obtain rfl := List.mem_singleton.mp hleaf
      contradiction

/-- For a string or number in a STRING field the address of its text is stored. -/
theorem tableWrites_string {fs : List LuaMsgFieldDescr} {t : Value} {base : Nat}
    {ws : List (Write UInt8)} (hws : tableWrites tgt fs t base = .ok ws) {leaf : Leaf}
    (hleaf : leaf ∈ leaves fs base) (htype : leaf.type = .string) {x : Value}
    (hx : lookupPath tgt t leaf.path = some x) {s : Bytes} (hs : tgt.toText? x = some s) :
    ⟨leaf.start, pointerCells tgt (tgt.stringAddress s)⟩ ∈ ws := by
  cases fs with
  | nil => simp [leaves] at hleaf
  | cons f fs =>
      obtain ⟨v, here, rest, hv, hhere, hrest, rfl⟩ := tableWrites_cons_ok tgt hws
      obtain hleaf | hleaf := List.mem_append.mp hleaf
      · obtain ⟨path, hpath⟩ := fieldLeaves_path hleaf
        rw [hpath, lookupPath, hv] at hx
        cases hnil : v.isNil with
        | true => simp [hnil] at hx
        | false =>
            simp only [hnil, Bool.false_eq_true, if_false] at hx
            rw [entryWrites, hnil] at hhere
            exact List.mem_append_left _ (fieldWrites_string hhere hleaf htype hpath hx hs)
      · exact List.mem_append_right _ (tableWrites_string hrest hleaf htype hx hs)

end

end LuaZephyr
