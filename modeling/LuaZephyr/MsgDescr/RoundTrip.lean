import LuaZephyr.MsgDescr.Shown
import LuaZephyr.MsgDescr.Encode
import LuaZephyr.MsgDescr.Decode

/-!
# Struct to table to struct

The table made of a message is written into another buffer leaf by leaf: one write
for each leaf, over exactly its range. The writes do not meet, so each leaf of the
result is known and every other byte of the buffer is left alone.

The two buffers need not have anything in common before. Strings are the exception to plain
copying: a `char` array keeps the bytes up to its NUL only, and a STRING field carries an
address, with which `MsgDescr.Strings` deals.
-/

namespace LuaZephyr

open Outcome Words Patch

variable {β : Type} (tgt : Target)

/-- What the decoder stores for a leaf of the message it was shown. -/
def leafCells (m : Bytes) (leaf : Leaf) : Bytes :=
  match leaf.type with
  | .int =>
      integerCells tgt leaf.size
        ((integerAt tgt (BitVec.signExtend 32) m leaf.start leaf.size).getD 0)
  | .uint =>
      integerCells tgt leaf.size
        ((integerAt tgt (BitVec.setWidth 32) m leaf.start leaf.size).getD 0)
  | .bool => boolCells tgt ((boolAt tgt m leaf.start).getD false)
  | .stringBuf => stringBufCells leaf.size ((textAt m leaf.start).getD [])
  | .number | .string | .object => []

def leafWrite (m : Bytes) (leaf : Leaf) : Write UInt8 := ⟨leaf.start, leafCells tgt m leaf⟩

variable {tgt}

theorem leafWrite_under (m : Bytes) (key : Bytes) (leaf : Leaf) :
    leafWrite tgt m (leaf.under key) = leafWrite tgt m leaf := rfl

mutual

/-- The value shown for a field is written back leaf by leaf. -/
theorem fieldWrites_of_shown {f : LuaMsgFieldDescr} {n : Nat} (h : FieldWellFormed f n)
    {m : Bytes} {base : Nat} {v : Value} (hv : fieldValue tgt m f base = some v) :
    fieldWrites tgt f v base = .ok ((fieldLeaves f base).map (leafWrite tgt m)) := by
  obtain ⟨name, type, offset, size, subFields⟩ := f
  cases type with
  | int =>
      obtain ⟨x, hx, rfl⟩ := Option.map_eq_some_iff.mp hv
      simp [fieldWrites, fieldLeaves, leafWrite, leafCells, hx, Target.toInteger?]
  | uint =>
      obtain ⟨x, hx, rfl⟩ := Option.map_eq_some_iff.mp hv
      simp [fieldWrites, fieldLeaves, leafWrite, leafCells, hx, Target.toInteger?]
  | number => exact h.2.elim
  | string => exact h.2.elim
  | stringBuf =>
      obtain ⟨s, hs, rfl⟩ := Option.map_eq_some_iff.mp hv
      simp [fieldWrites, fieldLeaves, leafWrite, leafCells, hs, Target.toText?]
  | bool =>
      obtain ⟨b, hb, rfl⟩ := Option.map_eq_some_iff.mp hv
      simp [fieldWrites, fieldLeaves, leafWrite, leafCells, hb, Value.toBoolean]
  | object =>
      have hsub : WellFormed subFields size.toNat := h.2
      obtain ⟨es, hes, rfl⟩ := Option.map_eq_some_iff.mp hv
      rw [hsub.entriesOf_eq] at hes
      have hws := tableWrites_of_shown hsub
        (shownEntries_rawGet hes hsub.names)
      simpa [fieldWrites, fieldLeaves, Function.comp_def, leafWrite_under] using hws

theorem tableWrites_of_shown {fs : List LuaMsgFieldDescr} {n : Nat} (h : WellFormed fs n)
    {m : Bytes} {base : Nat} {es : Entries}
    (hes : ∀ f ∈ fs, fieldValue tgt m f base = some (rawGet es f.fieldName)) :
    tableWrites tgt fs (.table es none) base = .ok ((leaves fs base).map (leafWrite tgt m)) := by
  cases fs with
  | nil => rfl
  | cons f fs =>
      have hvalue := hes f (List.mem_cons_self ..)
      have hnil : rawGet es f.fieldName ≠ .nil := by
        intro heq
        rw [heq] at hvalue
        exact h.1.value_ne_nil m base hvalue
      have hhere : entryWrites tgt f (rawGet es f.fieldName) base =
          .ok ((fieldLeaves f base).map (leafWrite tgt m)) := by
        rw [entryWrites, if_neg (by simpa using hnil)]
        exact fieldWrites_of_shown h.1 hvalue
      have hrest := tableWrites_of_shown h.2.2
        (fun g hg => hes g (List.mem_cons_of_mem _ hg))
      rw [tableWrites_cons, Target.index_table, leaves, List.map_append]
      simp only [bind, Except.bind, hhere, hrest]
      rfl

end

/-- An INT or UINT of at most four bytes survives the `lua_Integer`; one of eight
keeps its low half. -/
theorem integerCells_integerAt {extend : {w : Nat} → BitVec w → LuaInteger}
    (hextend : ∀ {w : Nat} (x : BitVec w), w ≤ 32 → (extend x).signExtend w = x)
    (hlow : ∀ x : BitVec 64, extend x = x.setWidth 32)
    {m : Bytes} {off : Nat} {size : UInt8} (hsize : size.toNat ∈ [1, 2, 4, 8])
    (hlen : off + size.toNat ≤ m.length) :
    integerCells tgt size ((integerAt tgt extend m off size).getD 0) =
      if size = 8 then
        writeWord tgt.order 8
          (((readWord tgt.order 64 (slice m off 8)).setWidth 32).signExtend 64)
      else slice m off size.toNat := by
  have hcases : size = 1 ∨ size = 2 ∨ size = 4 ∨ size = 8 := by
    simpa [← UInt8.toNat_inj] using hsize
  obtain rfl | rfl | rfl | rfl := hcases
  · rw [if_neg (by decide)]
    change off + 1 ≤ m.length at hlen
    change writeWord tgt.order 1 (BitVec.signExtend 8
      (((bytesAt m off 1).map fun bs => extend (readWord tgt.order 8 bs)).getD 0)) = slice m off 1
    rw [bytesAt_eq hlen, Option.map_some, Option.getD_some, hextend _ (by decide),
      writeWord_readWord _ rfl (length_slice hlen)]
  · rw [if_neg (by decide)]
    change off + 2 ≤ m.length at hlen
    change writeWord tgt.order 2 (BitVec.signExtend 16
      (((bytesAt m off 2).map fun bs => extend (readWord tgt.order 16 bs)).getD 0)) = slice m off 2
    rw [bytesAt_eq hlen, Option.map_some, Option.getD_some, hextend _ (by decide),
      writeWord_readWord _ rfl (length_slice hlen)]
  · rw [if_neg (by decide)]
    change off + 4 ≤ m.length at hlen
    change writeWord tgt.order 4
      (((bytesAt m off 4).map fun bs => extend (readWord tgt.order 32 bs)).getD 0) = slice m off 4
    have hself := hextend (readWord tgt.order 32 (slice m off 4)) (Nat.le_refl _)
    rw [BitVec.signExtend_eq] at hself
    rw [bytesAt_eq hlen, Option.map_some, Option.getD_some, hself,
      writeWord_readWord _ rfl (length_slice hlen)]
  · rw [if_pos rfl]
    change off + 8 ≤ m.length at hlen
    change writeWord tgt.order 8 (BitVec.signExtend 64
      (((bytesAt m off 8).map fun bs => extend (readWord tgt.order 64 bs)).getD 0)) = _
    rw [bytesAt_eq hlen, Option.map_some, Option.getD_some, hlow]

/-- A BOOL byte of 0 or 1 is written back as it was. -/
theorem boolCells_boolAt {m : Bytes} {off : Nat}
    (h : slice m off 1 = [0] ∨ slice m off 1 = [1]) (hlen : off + 1 ≤ m.length) :
    boolCells tgt ((boolAt tgt m off).getD false) = slice m off 1 := by
  rw [boolAt_eq tgt hlen, Option.getD_some]
  obtain h | h := h <;> rw [h] <;> cases horder : tgt.order <;>
    simp [boolCells, readWord_singleton, writeWord, natToDigits, ByteOrder.arrange, horder]

/-- A terminated STRING_BUF is written back with its tail cleared. -/
theorem stringBufCells_textAt {m : Bytes} {off : Nat} {size : UInt8} (hsize : size ≠ 0)
    (hnul : 0 ∈ slice m off size.toNat) (hlen : off + size.toNat ≤ m.length) :
    stringBufCells size ((textAt m off).getD []) =
      CString.text (slice m off size.toNat) ++
        List.replicate (size.toNat - (CString.text (slice m off size.toNat)).length) 0 := by
  have hpos : size.toNat ≠ 0 := fun h => hsize (UInt8.toNat_inj.mp h)
  have hlt := CString.length_text_lt hnul
  rw [length_slice hlen] at hlt
  rw [textAt_eq hnul, Option.getD_some, stringBufCells, CString.strncpy, CString.text_text,
    List.take_of_length_le (by omega), List.append_assoc, ← List.replicate_succ']
  congr 2
  omega

/-- The leaf of the buffer `b` that was decoded from the table of `m`: equal bytes,
except that an integer of eight bytes holds the sign extension of its low half and
that a string buffer is cleared behind its string. -/
def RoundTripped (tgt : Target) (m b : Bytes) (leaf : Leaf) : Prop :=
  slice b leaf.start leaf.size.toNat =
    match leaf.type with
    | .int | .uint =>
        if leaf.size = 8 then
          writeWord tgt.order 8
            (((readWord tgt.order 64 (slice m leaf.start 8)).setWidth 32).signExtend 64)
        else slice m leaf.start leaf.size.toNat
    | .stringBuf =>
        CString.text (slice m leaf.start leaf.size.toNat) ++
          List.replicate
            (leaf.size.toNat - (CString.text (slice m leaf.start leaf.size.toNat)).length) 0
    | .bool | .number | .string | .object => slice m leaf.start leaf.size.toNat

variable (tgt) in
theorem length_leafCells {leaf : Leaf} (h : PlainLeaf leaf.type leaf.size) (m : Bytes) :
    (leafCells tgt m leaf).length = leaf.size.toNat := by
  obtain ⟨path, type, start, size⟩ := leaf
  cases type with
  | int => exact (length_integerCells tgt size _).trans (if_pos h)
  | uint => exact (length_integerCells tgt size _).trans (if_pos h)
  | number => exact h.elim
  | string => exact h.elim
  | stringBuf => exact length_stringBufCells (h.sized 0).size_ne _
  | bool =>
      obtain rfl : size = 1 := h
      exact length_boolCells tgt _
  | object => exact h.elim

/-- A leaf that holds its write is round-tripped. -/
theorem roundTripped_of_holds {leaf : Leaf} (h : PlainLeaf leaf.type leaf.size) {m b : Bytes}
    (hlen : leaf.span.stop ≤ m.length)
    (hterm : leaf.type = .stringBuf → 0 ∈ slice m leaf.start leaf.size.toNat)
    (hbool : leaf.type = .bool → slice m leaf.start 1 = [0] ∨ slice m leaf.start 1 = [1])
    (hb : slice b leaf.start (leafCells tgt m leaf).length = leafCells tgt m leaf) :
    RoundTripped tgt m b leaf := by
  rw [length_leafCells tgt h] at hb
  unfold RoundTripped
  rw [hb]
  obtain ⟨path, type, start, size⟩ := leaf
  cases type with
  | int =>
      refine integerCells_integerAt (fun x hx => signExtend_signExtend_self hx x)
        (fun x => BitVec.signExtend_eq_setWidth_of_le x (by decide)) h hlen
  | uint =>
      exact integerCells_integerAt (fun x hx => setWidth_signExtend_self hx x) (fun x => rfl) h hlen
  | number => exact h.elim
  | string => exact h.elim
  | stringBuf => exact stringBufCells_textAt (h.sized 0).size_ne (hterm rfl) hlen
  | bool =>
      obtain rfl : size = 1 := h
      exact boolCells_boolAt (hbool rfl) hlen
  | object => exact h.elim

/-- The pure round trip: the message is shown as a table, whose writes put every
leaf in place and no other byte. -/
theorem putAll_shown (tgt : Target) {fields : List LuaMsgFieldDescr} {n : Nat}
    (h : WellFormed fields n) {m b : Bytes} (hm : n ≤ m.length) (hb : n ≤ b.length)
    (hterm : Terminated m (leaves fields 0))
    (hbool : ∀ leaf ∈ leaves fields 0, leaf.type = .bool →
      slice m leaf.start 1 = [0] ∨ slice m leaf.start 1 = [1]) :
    ∃ t ws, messageTable tgt fields m 0 = some t ∧ tableWrites tgt fields t 0 = .ok ws ∧
      (putAll b ws).length = b.length ∧
      (∀ leaf ∈ leaves fields 0, RoundTripped tgt m (putAll b ws) leaf) ∧
      ∀ i, (∀ leaf ∈ leaves fields 0, ¬ leaf.span.Covers i) → (putAll b ws)[i]? = b[i]? := by
  obtain ⟨es, hes⟩ := h.shown_isSome tgt (by omega) hterm
  have hws := tableWrites_of_shown h (shownEntries_rawGet hes h.names)
  have hsized := WellFormed.sized h tgt.pointerSize
  have hwithin := tableWrites_within tgt (hsized.fits tgt (by omega)) hws (n := b.length)
  have hholds := holds_putAll hwithin (tableWrites_apart hsized hws)
  refine ⟨.table es none, _, ?_, hws, length_putAll hwithin, ?_, ?_⟩
  · rw [h.messageTable_eq, hes]
    rfl
  · intro leaf hleaf
    have hin := leaves_within hsized 0 leaf hleaf
    have hstop : leaf.span.stop ≤ m.length := by
      have := hin.stop_le
      simp only [Span.stop] at this ⊢
      omega
    exact roundTripped_of_holds (leaves_ok h 0 leaf hleaf) hstop (hterm leaf hleaf)
      (hbool leaf hleaf) (hholds _ (List.mem_map_of_mem hleaf)).2
  · intro i hi
    apply getElem?_putAll_of_uncovered hwithin
    intro w hw hcovers
    obtain ⟨leaf, hleaf, rfl⟩ := List.mem_map.mp hw
    refine hi leaf hleaf ?_
    have hlen := length_leafCells tgt (leaves_ok h 0 leaf hleaf) m
    have hstop : (leafWrite tgt m leaf).stop = leaf.span.stop := by
      simp only [Write.stop, leafWrite, hlen, Span.stop, Leaf.span]
    rwa [Write.Covers, hstop] at hcovers

/-- `lua_msg_descr_to_table` of one struct, then `lua_msg_descr_from_table` of the
new table into another. -/
def structToTableToStruct (tgt : Target) (fields : List LuaMsgFieldDescr) (src dst : Ptr) :
    LuaM β Unit := do
  luaMsgDescrToTable tgt fields src
  let tableIdx ← luaAbsindex (-1)
  luaMsgDescrFromTable tgt fields dst tableIdx

/-- The round trip on the heap. It fails only when one of its own allocating calls of the Lua
API runs out of memory. -/
theorem structToTableToStruct_spec {β : Type} (tgt : Target) {fields : List LuaMsgFieldDescr}
    {n : Nat} (h : WellFormed fields n) {m b : Bytes} (hm : n ≤ m.length) (hb : n ≤ b.length)
    (hterm : Terminated m (leaves fields 0))
    (hbool : ∀ leaf ∈ leaves fields 0, leaf.type = .bool →
      slice m leaf.start 1 = [0] ∨ slice m leaf.start 1 = [1])
    (s : State β) {src dst : Nat} (hsrc : s.heap.blocks src = some m)
    (hdst : s.heap.blocks dst = some b) :
    (∃ t b', structToTableToStruct tgt fields ⟨src, 0⟩ ⟨dst, 0⟩ s = .ok ⟨⟩ t ∧
      t.heap = s.heap.withBlock dst b' ∧ b'.length = b.length ∧
      (∀ leaf ∈ leaves fields 0, RoundTripped tgt m b' leaf) ∧
      ∀ i, (∀ leaf ∈ leaves fields 0, ¬ leaf.span.Covers i) → b'[i]? = b[i]?) ∨
    ∃ t table, structToTableToStruct tgt fields ⟨src, 0⟩ ⟨dst, 0⟩ s = .error (.error .memory) t ∧
      messageTable tgt fields m 0 = some table ∧ ¬ NoFail s.apiFails s.apiCalls
        (1 + encodeCost tgt m fields 0 + decodeCost tgt fields table) := by
  obtain ⟨table, ws, htable, hws, hlen, hleaves, hframe⟩ :=
    putAll_shown tgt h hm hb hterm hbool
  have hrun : wp (structToTableToStruct tgt fields ⟨src, 0⟩ ⟨dst, 0⟩)
      (fun _ t => t.heap = s.heap.withBlock dst (putAll b ws))
      (fun e _ => e = .error .memory ∧ ¬ NoFail s.apiFails s.apiCalls
        (1 + encodeCost tgt m fields 0 + decodeCost tgt fields table)) s := by
    unfold structToTableToStruct
    apply wp_bind.mpr
    apply (luaMsgDescrToTable_encodes tgt fields 0 s hsrc).mono
    · rintro _ u ⟨hstack, hu, hcalls, -⟩
      rw [htable] at hstack
      have htop : u.stack = table :: s.stack := (Option.some.inj hstack).symm
      rw [wp_bind, wp_luaAbsindex_top]
      have hidx : valueAt u.stack (u.stack.length : Nat) = some table := by
        rw [htop, valueAt_length]
      have hdec := luaMsgDescrFromTable_decodes tgt fields 0 (u.stack.length : Nat) table u
        (by rw [hu.heap]; exact hdst) (by rw [htop, List.length_cons]; omega) hidx
      apply hdec.mono
      · rintro _ t ⟨ws', hws', -, -, ht, -⟩
        obtain rfl := Except.ok.inj (hws.symm.trans hws')
        rw [ht.heap, hu.heap]
      · rintro e t ⟨-, ⟨he, hnot⟩ | ⟨err, -, herr⟩ | ⟨-, hfits⟩⟩
        · rw [hu.apiFails, hcalls] at hnot
          exact ⟨he, fun hall => hnot (noFail_add.mp hall).2⟩
        · rw [hws] at herr
          contradiction
        · exact absurd ((WellFormed.sized h _).fits tgt (by omega)) hfits
    · rintro e u ⟨-, ⟨he, hnot⟩ | ⟨-, hnone⟩⟩
      · exact ⟨he, fun hall => hnot (noFail_add.mp hall).1⟩
      · rw [htable] at hnone
        contradiction
  obtain ⟨_, t, hok, hheap⟩ | ⟨_, t, herr, rfl, hfail⟩ := wp_iff.mp hrun
  · exact .inl ⟨t, _, hok, hheap, hlen, hleaves, hframe⟩
  · exact .inr ⟨t, table, herr, htable, hfail⟩

/-- A version message whose hardware id leaves nine bytes behind its terminator. -/
def versionMessage : Bytes :=
  [1, 0, 0, 0, 2, 0, 0, 0, 255, 255, 255, 255] ++ ascii "board0" ++ [0, 7, 7, 7, 7, 7, 7, 7, 7, 7]

/-- A destination filled with ones. -/
def versionBuffer : Bytes := List.replicate 28 1

/-- The message in block 0 and the destination in block 1. -/
def versionState : State Unit :=
  { State.idle 0 () with
    heap := ⟨fun p => if p = 0 then some versionMessage
      else if p = 1 then some versionBuffer else none, 2, fun _ => none⟩ }

/-- Without a shortage of memory the sample message comes through. -/
theorem structToTableToStruct_spec_version :
    ∃ t b', structToTableToStruct Target.sample msgVersionFields ⟨0, 0⟩ ⟨1, 0⟩ versionState =
        .ok ⟨⟩ t ∧ t.heap = versionState.heap.withBlock 1 b' ∧
      ∀ leaf ∈ leaves msgVersionFields 0, RoundTripped Target.sample versionMessage b' leaf := by
  have hformed : WellFormed msgVersionFields 28 := by decide
  have hm : 28 ≤ versionMessage.length := by decide
  have hb : 28 ≤ versionBuffer.length := by decide
  have hterm : Terminated versionMessage (leaves msgVersionFields 0) := by
    unfold Terminated
    decide
  have hbool : ∀ leaf ∈ leaves msgVersionFields 0, leaf.type = .bool →
      slice versionMessage leaf.start 1 = [0] ∨ slice versionMessage leaf.start 1 = [1] := by
    decide
  have hsrc : versionState.heap.blocks 0 = some versionMessage := rfl
  have hdst : versionState.heap.blocks 1 = some versionBuffer := rfl
  obtain ⟨t, b', hrun, hheap, -, hleaves, -⟩ | ⟨t, table, -, -, hfail⟩ :=
    structToTableToStruct_spec Target.sample hformed hm hb hterm hbool versionState hsrc hdst
  · exact ⟨t, b', hrun, hheap, hleaves⟩
  · exact absurd (noFail_never _ _) hfail

end LuaZephyr
