import LuaZephyr.MsgDescr.Layout
import LuaZephyr.Lua.Rules

/-!
# The encoder refines its pure reading

Running `luaMsgDescrToTable` on a block of the heap pushes exactly the table
`messageTable` computes from the block's bytes. It changes nothing but the stack,
and it stops early only when one of its allocating calls runs out of memory or
when it reads past the end of the block.

The pure reading is the one later modules are about, and none of them unfolds the encoder again.
A read past the end of the block is a fault here, with which the method ends; in C it has no
defined behaviour.
-/

namespace LuaZephyr

open Outcome Words

variable {β α : Type}

/-- The part of the state no step of the encoder touches. -/
structure State.Untouched (s t : State β) : Prop where
  heap : t.heap = s.heap
  rawLog : t.rawLog = s.rawLog
  bus : t.bus = s.bus
  apiFails : t.apiFails = s.apiFails

namespace State.Untouched

theorem refl (s : State β) : s.Untouched s := ⟨rfl, rfl, rfl, rfl⟩

theorem trans {s t u : State β} (h : s.Untouched t) (h' : t.Untouched u) : s.Untouched u :=
  ⟨h'.heap.trans h.heap, h'.rawLog.trans h.rawLog, h'.bus.trans h.bus,
    h'.apiFails.trans h.apiFails⟩

end State.Untouched

/-- `m` only looks at memory: it returns `r`, or reads out of bounds when there is
no `r`. -/
def Reads (m : LuaM β α) (s : State β) (r : Option α) : Prop :=
  wp m (fun a t => t = s ∧ r = some a)
    (fun e t => t = s ∧ e = .fault .outOfBounds ∧ r = none) s

namespace Reads

variable {γ : Type} {m : LuaM β α} {s : State β} {r : Option α}

theorem map (h : Reads m s r) (f : α → γ) :
    Reads (do let a ← m; return f a) s (r.map f) := by
  apply wp_bind.mpr
  apply h.mono
  · rintro a t ⟨rfl, rfl⟩
    exact ⟨rfl, rfl⟩
  · rintro e t ⟨rfl, he, rfl⟩
    exact ⟨rfl, he, rfl⟩

theorem pure (a : α) (s : State β) : Reads (Pure.pure a) s (some a) := ⟨rfl, rfl⟩

end Reads

section Loads

variable {s : State β} {p : Ptr} {buf : Bytes}

theorem loadBytes_reads (h : s.heap.blocks p.block = some buf) (n : Nat) :
    Reads (loadBytes p n) s (bytesAt buf p.offset n) := by
  unfold Reads
  rw [wp_loadBytes h, bytesAt]
  split <;> simp

theorem loadText_reads (h : s.heap.blocks p.block = some buf) :
    Reads (loadText p) s (textAt buf p.offset) := by
  unfold Reads
  rw [wp_loadText h, textAt]
  split <;> simp

variable (tgt : Target)

theorem loadInteger_of_not_mem (extend : {w : Nat} → BitVec w → LuaInteger) {size : UInt8}
    (h : size.toNat ∉ [1, 2, 4, 8]) :
    (loadInteger tgt extend p size : LuaM β LuaInteger) = pure 0 := by
  unfold loadInteger
  split <;> first | rfl | simp_all

theorem loadInteger_reads (h : s.heap.blocks p.block = some buf)
    (extend : {w : Nat} → BitVec w → LuaInteger) (size : UInt8) :
    Reads (loadInteger tgt extend p size) s (integerAt tgt extend buf p.offset size) := by
  by_cases hwidth : size.toNat ∈ [1, 2, 4, 8]
  · unfold loadInteger integerAt
    generalize size.toNat = n at hwidth ⊢
    simp only [List.mem_cons, List.not_mem_nil, or_false] at hwidth
    obtain rfl | rfl | rfl | rfl := hwidth
    all_goals exact (loadBytes_reads h _).map _
  · rw [loadInteger_of_not_mem tgt extend hwidth, integerAt_of_not_mem tgt extend buf _ hwidth]
    exact Reads.pure _ s

theorem loadNumber_reads (h : s.heap.blocks p.block = some buf) (size : UInt8) :
    Reads (loadNumber tgt p size) s (numberAt tgt buf p.offset size) := by
  unfold loadNumber numberAt
  split
  · exact (loadBytes_reads h 4).map _
  · exact (loadBytes_reads h 8).map _

theorem loadPointer_reads (h : s.heap.blocks p.block = some buf) :
    Reads (loadPointer tgt p) s (pointerAt tgt buf p.offset) :=
  (loadBytes_reads h _).map _

theorem loadBool_reads (h : s.heap.blocks p.block = some buf) :
    Reads (loadBool tgt p) s (boolAt tgt buf p.offset) :=
  (loadBytes_reads h 1).map _

end Loads

/-- `m` makes `k` allocating calls and leaves the stack `result`. It stops early
out of memory, in one of these calls, or at a read out of bounds. -/
def Encodes (m : LuaM β Unit) (s : State β) (k : Nat) (result : Option (List Value)) : Prop :=
  wp m
    (fun _ t => result = some t.stack ∧ s.Untouched t ∧ t.apiCalls = s.apiCalls + k ∧
      NoFail s.apiFails s.apiCalls k)
    (fun e t => s.Untouched t ∧
      ((e = .error .memory ∧ ¬ NoFail s.apiFails s.apiCalls k) ∨
        (e = .fault .outOfBounds ∧ result = none))) s

namespace Encodes

variable {m m' : LuaM β Unit} {s : State β} {k j : Nat} {r r' : Option (List Value)}

/-- Sequencing adds the calls; a read out of bounds in the first part is one of
the whole. -/
theorem seq (h : Encodes m s k r) (hnone : r = none → r' = none)
    (h' : ∀ t, r = some t.stack → s.Untouched t → Encodes m' t j r') :
    Encodes (do m; m') s (k + j) r' := by
  apply wp_bind.mpr
  apply h.mono
  · rintro _ t ⟨hr, hst, hcalls, hok⟩
    apply (h' t hr hst).mono
    · rintro _ u ⟨hr', htu, hcalls', hok'⟩
      refine ⟨hr', hst.trans htu, by rw [hcalls', hcalls, Nat.add_assoc], ?_⟩
      rw [hst.apiFails, hcalls] at hok'
      exact noFail_add.mpr ⟨hok, hok'⟩
    · rintro e u ⟨htu, hcause⟩
      refine ⟨hst.trans htu, hcause.imp_left ?_⟩
      rintro ⟨he, hfail⟩
      refine ⟨he, fun hall => hfail ?_⟩
      rw [hst.apiFails, hcalls]
      exact (noFail_add.mp hall).2
  · rintro e t ⟨hst, ⟨he, hfail⟩ | ⟨he, hr⟩⟩
    · exact ⟨hst, .inl ⟨he, fun hall => hfail (noFail_add.mp hall).1⟩⟩
    · exact ⟨hst, .inr ⟨he, hnone hr⟩⟩

/-- A load followed by the push of what was loaded. -/
theorem of_reads {read : LuaM β α} {value : Option α} {push : α → LuaM β Unit}
    {result : α → Option (List Value)} (h : Reads read s value)
    (h' : ∀ a, value = some a → Encodes (push a) s k (result a)) :
    Encodes (do let a ← read; push a) s k (value.bind result) := by
  apply wp_bind.mpr
  apply h.mono
  · rintro a t ⟨rfl, rfl⟩
    exact h' a rfl
  · rintro e t ⟨rfl, he, rfl⟩
    exact ⟨.refl _, .inr ⟨he, rfl⟩⟩

theorem pushValue (v : Value) (s : State β) :
    Encodes (LuaZephyr.pushValue v) s 0 (some (v :: s.stack)) :=
  ⟨rfl, ⟨rfl, rfl, rfl, rfl⟩, rfl, noFail_zero _ _⟩

/-- One allocating call, then a push. -/
theorem allocating_push (v : Value) (s : State β) :
    Encodes (do allocating; LuaZephyr.pushValue v) s 1 (some (v :: s.stack)) := by
  unfold Encodes
  rw [wp_bind, wp_allocating]
  split
  · rename_i hfail
    exact ⟨⟨rfl, rfl, rfl, rfl⟩, .inl ⟨rfl, by simp [noFail_one, hfail]⟩⟩
  · rename_i hok
    exact ⟨rfl, ⟨rfl, rfl, rfl, rfl⟩, rfl, by simpa [noFail_one] using hok⟩

theorem luaNewtable (s : State β) :
    Encodes luaNewtable s 1 (some (.table [] none :: s.stack)) :=
  allocating_push _ s

theorem luaSetfield {key : Bytes} {v : Value} {es : Entries} {mt : Option Nat}
    {rest : List Value} (h : s.stack = v :: .table es mt :: rest) :
    Encodes (luaSetfield (-2) key) s 1 (some (.table (rawSet es key v) mt :: rest)) := by
  unfold Encodes
  rw [wp_luaSetfield h, wp_allocating]
  split
  · rename_i hfail
    exact ⟨⟨rfl, rfl, rfl, rfl⟩, .inl ⟨rfl, by simpa [noFail_one] using hfail⟩⟩
  · rename_i hok
    exact ⟨rfl, ⟨rfl, rfl, rfl, rfl⟩, rfl, by simpa [noFail_one] using hok⟩

end Encodes

/-- A loaded value is pushed as it is. -/
theorem Reads.push {read : LuaM β α} {s : State β} {value : Option α} (h : Reads read s value)
    (make : α → Value) :
    Encodes (do let a ← read; pushValue (make a)) s 0
      ((value.map make).map (· :: s.stack)) := by
  have h' := Encodes.of_reads h (fun a _ => Encodes.pushValue (make a) s)
  cases value <;> exact h'

/-- A loaded value is pushed as a new object. -/
theorem Reads.allocating_push {read : LuaM β α} {s : State β} {value : Option α}
    (h : Reads read s value) (make : α → Value) :
    Encodes (do let a ← read; allocating; pushValue (make a)) s 1
      ((value.map make).map (· :: s.stack)) := by
  have h' := Encodes.of_reads h (fun a _ => Encodes.allocating_push (make a) s)
  cases value <;> exact h'

variable (tgt : Target)

/-- The string behind a loaded pointer. -/
theorem pushStringAt_encodes (address : Nat) (s : State β) :
    Encodes (pushStringAt tgt address) s (if address = 0 then 0 else 1)
      ((stringValue tgt address).map (· :: s.stack)) := by
  unfold pushStringAt stringValue
  split
  · exact Encodes.pushValue .nil s
  · cases tgt.stringAt address with
    | none => exact ⟨.refl _, .inr ⟨rfl, rfl⟩⟩
    | some text => exact Encodes.allocating_push _ s

mutual

/-- The value of one field is pushed on the stack. -/
theorem fieldToTable_encodes {block : Nat} {buf : Bytes} (f : LuaMsgFieldDescr) (base : Nat)
    (s : State β) (hblock : s.heap.blocks block = some buf) :
    Encodes (fieldToTable tgt f ⟨block, base⟩) s (fieldEncodeCost tgt buf f base)
      ((fieldValue tgt buf f base).map (· :: s.stack)) := by
  obtain ⟨name, type, offset, size, subFields⟩ := f
  have hptr : s.heap.blocks ((Ptr.mk block base).add offset.toNat).block = some buf := hblock
  cases type with
  | int => exact (loadInteger_reads tgt hptr _ size).push .integer
  | uint => exact (loadInteger_reads tgt hptr _ size).push .integer
  | number => exact (loadNumber_reads tgt hptr size).push .number
  | string =>
      have h := Encodes.of_reads (k := if pointerAt tgt buf (base + offset.toNat) = some 0
          then 0 else 1) (loadPointer_reads tgt hptr) (fun address haddress => by
        simpa [show pointerAt tgt buf (base + offset.toNat) = some address from haddress]
          using pushStringAt_encodes tgt address s)
      simp only [fieldToTable, fieldValue, fieldEncodeCost, Option.map_bind]
      exact h
  | stringBuf => exact (loadText_reads hptr).allocating_push .string
  | bool => exact (loadBool_reads tgt hptr).push .boolean
  | object =>
      have h := (Encodes.luaNewtable s).seq (by simp) (fun t ht hst =>
        fieldsToTable_encodes subFields (base + offset.toNat) t
          (by rw [hst.heap]; exact hblock) (Option.some.inj ht).symm)
      simp only [fieldToTable, fieldValue, fieldEncodeCost, Option.map_map]
      exact h

/-- The loop fills the table on top of the stack. -/
theorem fieldsToTable_encodes {block : Nat} {buf : Bytes} {es : Entries} {mt : Option Nat}
    {rest : List Value} (fs : List LuaMsgFieldDescr) (base : Nat) (s : State β)
    (hblock : s.heap.blocks block = some buf) (hstack : s.stack = .table es mt :: rest) :
    Encodes (fieldsToTable tgt fs ⟨block, base⟩) s (encodeCost tgt buf fs base)
      ((entriesOf tgt buf fs base es).map (.table · mt :: rest)) := by
  cases fs with
  | nil => exact ⟨by rw [hstack]; rfl, .refl s, rfl, noFail_zero _ _⟩
  | cons f fs =>
      have hvalue := fieldToTable_encodes f base s hblock
      simp only [fieldsToTable, encodeCost, entriesOf]
      apply hvalue.seq
      · intro hnone
        simp [Option.map_eq_none_iff.mp hnone]
      · intro t ht hst
        obtain ⟨v, hv, hpush⟩ := Option.map_eq_some_iff.mp ht
        have htop : t.stack = v :: .table es mt :: rest := by rw [← hpush, hstack]
        rw [hv, Option.bind_some]
        apply (Encodes.luaSetfield htop).seq (by simp)
        intro u hu htu
        exact fieldsToTable_encodes fs base u (by rw [htu.heap, hst.heap]; exact hblock)
          (Option.some.inj hu).symm

end

/-- `lua_msg_descr_to_table` pushes the table of the message. -/
theorem luaMsgDescrToTable_encodes {block : Nat} {buf : Bytes} (fields : List LuaMsgFieldDescr)
    (base : Nat) (s : State β) (hblock : s.heap.blocks block = some buf) :
    Encodes (luaMsgDescrToTable tgt fields ⟨block, base⟩) s
      (1 + encodeCost tgt buf fields base)
      ((messageTable tgt fields buf base).map (· :: s.stack)) := by
  have h := (Encodes.luaNewtable s).seq (by simp) (fun t ht hst =>
    fieldsToTable_encodes tgt fields base t (by rw [hst.heap]; exact hblock)
      (Option.some.inj ht).symm)
  rw [messageTable, Option.map_map]
  exact h

end LuaZephyr
