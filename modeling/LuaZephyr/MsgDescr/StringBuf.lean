import LuaZephyr.MsgDescr.Macros
import LuaZephyr.MsgDescr.Normal
import LuaZephyr.MsgDescr.Encode
import LuaZephyr.MsgDescr.Decode

/-!
# String buffers of any capacity

The descriptor of a `char` array keeps the array's size in one byte and its offset in two.
What the conversions do with an array of `n` bytes is therefore what they would do with one
of `n % 256` bytes, and with none at all when that is zero.

Both members are narrowed as C converts an initialiser. What the fields beside the array hold is
arbitrary here, so that an array that is cut short, or read too far, shows. Arrays of other types
are not described by these macros.
-/

namespace LuaZephyr

open Outcome Words Patch

/-- The array `char field[n]` at `offset`, as `LUA_MSG_FIELD` describes it. -/
def stringBufField (field : Bytes) (offset n : Nat) : LuaMsgFieldDescr :=
  luaMsgField field offset n .stringBuf

/-- `LUA_PB_GEN_STRING(_name, f)` is the same descriptor. -/
abbrev luaPbGenString := stringBufField

/-- The table's string is stored in the array's bytes and no others, with a NUL among them,
and is shown again up to its first NUL and as far as it fits. -/
def StringBufKeeps (tgt : Target) (offset n : Nat) (text : Bytes) : Prop :=
  ∀ (s : State Unit) (block : Nat) (b : Bytes) (field : Bytes) (idx : Int) (t : Value),
    s.heap.blocks block = some b → offset + n ≤ b.length →
    0 < idx → valueAt s.stack idx = some t → tgt.index t field = .ok (.string text) →
    wp (luaMsgDescrFromTable tgt [stringBufField field offset n] ⟨block, 0⟩ idx)
      (fun _ u => ∃ b', u.heap = s.heap.withBlock block b' ∧ b'.length = b.length ∧
        (∀ i, ¬ (offset ≤ i ∧ i < offset + n) → b'[i]? = b[i]?) ∧ 0 ∈ slice b' offset n ∧
        wp (luaMsgDescrToTable tgt [stringBufField field offset n] ⟨block, 0⟩)
          (fun _ v => v.stack = .table [(field, .string ((CString.text text).take (n - 1)))] none ::
            u.stack)
          (fun e _ => e = .error .memory) u)
      (fun e _ => e = .error .memory) s

/-- The string is stored whole or cut where the array ends. -/
def StringBufFits (offset n : Nat) (text : Bytes) : Prop :=
  offset < 65536 ∧ n % 256 ≠ 0 ∧ (n < 256 ∨ (CString.text text).length < n % 256)

variable {tgt : Target} {field text : Bytes} {offset n : Nat}

/-- The one write of the conversion. -/
theorem stringBuf_writes {t : Value} (ht : tgt.index t field = .ok (.string text)) :
    tableWrites tgt [stringBufField field offset n] t 0 =
      .ok [⟨offset % 65536, stringBufCells (UInt8.ofNat n) text⟩] := by
  have hplace : 0 + (UInt16.ofNat offset).toNat = offset % 65536 := by
    rw [Nat.zero_add, UInt16.toNat_ofNat']
  rw [tableWrites_cons, show (stringBufField field offset n).fieldName = field from rfl, ht]
  simp only [bind, Except.bind, entryWrites, Value.isNil, Bool.false_eq_true, if_false,
    stringBufField, luaMsgField, fieldWrites, Target.toText?, tableWrites, hplace, pure,
    Except.pure, List.append_nil]

theorem stringBuf_fits {len : Nat} (hsize : n % 256 ≠ 0) (hlen : offset + n ≤ len) :
    Fits tgt [stringBufField field offset n] 0 len := by
  refine ⟨⟨?_, ?_⟩, trivial⟩
  · intro hzero
    refine hsize ?_
    rw [← UInt8.toNat_ofNat', hzero]
    rfl
  · rw [UInt8.toNat_ofNat', UInt16.toNat_ofNat']
    have hle := Nat.mod_le offset 65536
    have hle' := Nat.mod_le n 256
    omega

/-- The string read back from where it was written. -/
theorem stringBuf_shown {b : Bytes}
    (h : Holds b [⟨offset % 65536, stringBufCells (UInt8.ofNat n) text⟩]) :
    messageTable tgt [stringBufField field offset n] b 0 =
      some (.table [(field, .string ((CString.text text).take (n % 256 - 1)))] none) := by
  have hplace : 0 + (UInt16.ofNat offset).toNat = offset % 65536 := by
    rw [Nat.zero_add, UInt16.toNat_ofNat']
  have hvalue : fieldValue tgt b (stringBufField field offset n) 0 =
      some (.string ((CString.text text).take (n % 256 - 1))) := by
    simp only [stringBufField, luaMsgField, fieldValue, hplace, textAt_of_holds h, Option.map_some,
      cutString, UInt8.toNat_ofNat']
  rw [messageTable, entriesOf, hvalue]
  rfl

section Run

variable {s : State Unit} {block : Nat} {b : Bytes} {idx : Int} {t : Value}

/-- What a descriptor with a size does. -/
theorem stringBuf_stores (hsize : n % 256 ≠ 0) (hblock : s.heap.blocks block = some b)
    (hlen : offset + n ≤ b.length) (hpos : 0 < idx) (hidx : valueAt s.stack idx = some t)
    (ht : tgt.index t field = .ok (.string text)) :
    wp (luaMsgDescrFromTable tgt [stringBufField field offset n] ⟨block, 0⟩ idx)
      (fun _ u => s.Stored u block
        (put b ⟨offset % 65536, stringBufCells (UInt8.ofNat n) text⟩))
      (fun e _ => e = .error .memory ∧ ¬ ∀ i, s.apiFails i = false) s := by
  apply (luaMsgDescrFromTable_decodes tgt _ 0 idx t s hblock hpos hidx).mono
  · rintro _ u ⟨ws, hws, -, -, hu, -⟩
    obtain rfl := Except.ok.inj ((stringBuf_writes ht).symm.trans hws)
    exact hu
  · rintro e u ⟨-, ⟨he, hfail⟩ | ⟨err, -, herr⟩ | ⟨-, hout⟩⟩
    · exact ⟨he, fun hall => hfail fun i _ => hall _⟩
    · rw [stringBuf_writes ht] at herr
      contradiction
    · exact absurd (stringBuf_fits hsize hlen) hout

/-- A descriptor of size 0 runs over the end of the message. -/
theorem stringBuf_faults (hsize : n % 256 = 0) (hidx : valueAt s.stack idx = some t)
    (ht : tgt.index t field = .ok (.string text)) :
    wp (luaMsgDescrFromTable tgt [stringBufField field offset n] ⟨block, 0⟩ idx)
      (fun _ _ => False)
      (fun e _ => e = .fault .outOfBounds ∨ ¬ ∀ i, s.apiFails i = false) s := by
  have hzero : UInt8.ofNat n = 0 := by
    apply UInt8.toNat_inj.mp
    rw [UInt8.toNat_ofNat', hsize]
    rfl
  unfold luaMsgDescrFromTable
  rw [wp_bind, wp_luaGetfield hidx, wp_allocating]
  split
  · rename_i hfail
    exact .inr fun hall => absurd (hall _) (by simpa using hfail)
  · rw [show (stringBufField field offset n).fieldName = field from rfl, ht]
    simp only [wp_bind]
    rw [wp_luaIsnil (valueAt_top _ _)]
    simp only [Value.isNil, Bool.false_eq_true, if_false, wp_bind, stringBufField, luaMsgField,
      fieldFromTable]
    rw [wp_luaTostring_top rfl]
    simp only [Target.toText?, Value.isNumber, Bool.false_eq_true, if_false, storeStringBuf, hzero,
      if_true, wp_throw]
    exact .inl trivial

/-- A write of the descriptor stays where the descriptor points, and ends in a NUL. -/
theorem stringBuf_put (text : Bytes) (hsize : n % 256 ≠ 0) (hlen : offset + n ≤ b.length)
    (i : Nat) :
    let w : Write UInt8 := ⟨offset % 65536, stringBufCells (UInt8.ofNat n) text⟩
    w.stop = offset % 65536 + n % 256 ∧ w.stop ≤ b.length ∧
      (put b w)[offset % 65536 + (n % 256 - 1)]? = some 0 ∧
      (¬ (offset % 65536 ≤ i ∧ i < offset % 65536 + n % 256) → (put b w)[i]? = b[i]?) := by
  intro w
  have hnat : (UInt8.ofNat n).toNat = n % 256 := UInt8.toNat_ofNat'
  have hcells : w.cells.length = n % 256 := by
    rw [← hnat]
    refine length_stringBufCells (fun hzero => hsize ?_) text
    rw [← hnat, hzero]
    rfl
  have hle := Nat.mod_le offset 65536
  have hle' := Nat.mod_le n 256
  have hstop : w.stop = offset % 65536 + n % 256 := by rw [Write.stop, hcells]
  have hin : w.stop ≤ b.length := by omega
  refine ⟨hstop, hin, ?_, fun hout => ?_⟩
  · rw [getElem?_put hin, if_pos ⟨by simp only [w]; omega, by omega⟩]
    simp only [w, stringBufCells, Nat.add_sub_cancel_left, hnat]
    rw [List.getElem?_append_right (by rw [CString.length_strncpy])]
    simp
  · rw [getElem?_put hin, if_neg]
    rintro ⟨hlo, hhi⟩
    rw [hstop] at hhi
    exact hout ⟨hlo, hhi⟩

end Run

/-- A struct of ones in block 0, and a table with the string. -/
def stringBufState (size : Nat) (text : Bytes) : State Unit :=
  { State.idle 0 () with
    stack := [.table [([], .string text)] none]
    heap := ⟨fun p => if p = 0 then some (List.replicate size 1) else none, 1, fun _ => none⟩ }

theorem StringBufFits.keeps (h : StringBufFits offset n text) :
    StringBufKeeps tgt offset n text := by
  obtain ⟨hoffset, hsize, hroom⟩ := h
  have hplace : offset % 65536 = offset := Nat.mod_eq_of_lt hoffset
  have hcut : (CString.text text).take (n % 256 - 1) = (CString.text text).take (n - 1) := by
    obtain hn | hshort := hroom
    · rw [Nat.mod_eq_of_lt hn]
    · have hle := Nat.mod_le n 256
      rw [List.take_of_length_le (by omega), List.take_of_length_le (by omega)]
  intro s block b field idx t hblock hlen hpos hidx ht
  apply (stringBuf_stores hsize hblock hlen hpos hidx ht).mono
  · rintro _ u hu
    have hin := (stringBuf_put text hsize hlen 0).2.1
    have hle' := Nat.mod_le n 256
    refine ⟨_, hu.heap, length_put hin, fun i hi => ?_, ?_, ?_⟩
    · refine (stringBuf_put text hsize hlen i).2.2.2 fun hcovers => hi ?_
      omega
    · have hzero := (stringBuf_put text hsize hlen 0).2.2.1
      refine List.mem_of_getElem? (i := n % 256 - 1) ?_
      rw [getElem?_slice, if_pos (by omega)]
      rwa [hplace] at hzero ⊢
    · have hholds : Holds (put b ⟨offset % 65536, stringBufCells (UInt8.ofNat n) text⟩)
          [⟨offset % 65536, stringBufCells (UInt8.ofNat n) text⟩] := by
        refine List.forall_mem_singleton.mpr ⟨?_, slice_put_self hin⟩
        rw [length_put hin]
        exact hin
      apply (luaMsgDescrToTable_encodes tgt _ 0 u hu.block_eq).mono
      · rintro _ v ⟨hstack, -⟩
        rw [stringBuf_shown hholds, hcut] at hstack
        exact (Option.some.inj hstack).symm
      · rintro e v ⟨-, ⟨he, -⟩ | ⟨-, hnone⟩⟩
        · exact he
        · rw [stringBuf_shown hholds] at hnone
          contradiction
  · exact fun e u h => h.1

theorem StringBufKeeps.fits (h : StringBufKeeps tgt offset n text) :
    StringBufFits offset n text := by
  have hblock : (stringBufState (offset + n) text).heap.blocks 0 =
      some (List.replicate (offset + n) 1) := rfl
  have hlen : offset + n ≤ (List.replicate (offset + n) (1 : UInt8)).length := by
    rw [List.length_replicate]
  have hidx : valueAt (stringBufState (offset + n) text).stack 1 =
      some (.table [([], .string text)] none) := rfl
  have ht : tgt.index (.table [([], .string text)] none) [] = .ok (.string text) := rfl
  have hkeeps := h _ 0 _ [] 1 _ hblock hlen (by decide) hidx ht
  have hnever : ∀ i, (stringBufState (offset + n) text).apiFails i = false := fun _ => rfl
  by_cases hsize : n % 256 = 0
  · exfalso
    obtain ⟨_, u, -, -, hfalse⟩ | ⟨e, u, -, rfl, hcause⟩ :=
      wp_iff.mp (hkeeps.and (stringBuf_faults hsize hidx ht))
    · exact hfalse
    · obtain hfault | hfail := hcause
      · contradiction
      · exact hfail hnever
  · obtain ⟨_, u, -, ⟨b', hheap, -, hframe, -, hshown⟩, hu⟩ | ⟨e, u, -, -, -, hfail⟩ :=
      wp_iff.mp (hkeeps.and (stringBuf_stores hsize hblock hlen (by decide) hidx ht))
    · have hb' := hu.block_eq
      rw [hheap, SysHeap.withBlock_blocks_self] at hb'
      obtain rfl := Option.some.inj hb'
      have hin := (stringBuf_put text hsize hlen 0).2.1
      refine ⟨?_, hsize, ?_⟩
      · -- The terminator is written before the array.
        by_contra hoffset
        have hzero := (stringBuf_put text hsize hlen 0).2.2.1
        have hplace : offset % 65536 + (n % 256 - 1) < offset := by omega
        rw [hframe _ (by omega), List.getElem?_replicate, if_pos (by omega)] at hzero
        contradiction
      · by_contra hroom
        rw [not_or, not_lt, not_lt] at hroom
        have hholds : Holds (put (List.replicate (offset + n) 1)
            ⟨offset % 65536, stringBufCells (UInt8.ofNat n) text⟩)
            [⟨offset % 65536, stringBufCells (UInt8.ofNat n) text⟩] := by
          refine List.forall_mem_singleton.mpr ⟨?_, slice_put_self hin⟩
          rw [length_put hin]
          exact hin
        obtain ⟨_, v, -, hstack, hstack', -⟩ | ⟨e, v, -, -, -, ⟨-, hfail⟩ | ⟨-, hnone⟩⟩ :=
          wp_iff.mp (hshown.and (luaMsgDescrToTable_encodes tgt _ 0 u hu.block_eq))
        · rw [stringBuf_shown hholds, hstack] at hstack'
          have hcut : (CString.text text).take (n % 256 - 1) =
              (CString.text text).take (n - 1) := by
            simpa using hstack'
          have hlengths := congrArg List.length hcut
          rw [List.length_take, List.length_take] at hlengths
          omega
        · rw [hu.apiFails] at hfail
          exact hfail (noFail_never _ _)
        · rw [stringBuf_shown hholds] at hnone
          contradiction
    · exact absurd hnever hfail

/-- A string is kept in a `char` array exactly when the descriptor's members hold the
array's offset and size, or when the string is shorter than what the size became. -/
theorem stringBufKeeps_iff (tgt : Target) (offset n : Nat) (text : Bytes) :
    StringBufKeeps tgt offset n text ↔
      offset < 65536 ∧ n % 256 ≠ 0 ∧ (n < 256 ∨ (CString.text text).length < n % 256) :=
  ⟨StringBufKeeps.fits, StringBufFits.keeps⟩

/-- The size of an array of 256 bytes becomes zero. -/
theorem not_stringBufKeeps_256 : ¬ StringBufKeeps Target.sample 0 256 (ascii "x") :=
  fun h => absurd h.fits.2.1 (by decide)

end LuaZephyr
