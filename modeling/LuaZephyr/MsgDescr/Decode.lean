import LuaZephyr.MsgDescr.Layout
import LuaZephyr.Lua.Rules

/-!
# The decoder refines its pure reading

Running `luaMsgDescrFromTable` on a block of the heap performs exactly the writes
`tableWrites` lists, leaves the stack as it found it, and touches nothing else. It
stops early only when one of its allocating calls runs out of memory, when indexing
a value raises, or at a store outside the block of a descriptor that does not fit;
the block then holds some of the writes.
-/

namespace LuaZephyr

open Outcome Words Patch

variable {β : Type}

/-- Only one block of the heap differs, and it holds `bs` now. -/
structure State.Stored (s t : State β) (block : Nat) (bs : Bytes) : Prop where
  heap : t.heap = s.heap.withBlock block bs
  rawLog : t.rawLog = s.rawLog
  bus : t.bus = s.bus
  apiFails : t.apiFails = s.apiFails

namespace State.Stored

variable {s t u : State β} {block : Nat} {bs bs' : Bytes}

theorem same (hblock : s.heap.blocks block = some bs) (hheap : t.heap = s.heap)
    (hlog : t.rawLog = s.rawLog) (hbus : t.bus = s.bus) (hfails : t.apiFails = s.apiFails) :
    s.Stored t block bs :=
  ⟨by rw [hheap, SysHeap.withBlock_self hblock], hlog, hbus, hfails⟩

theorem trans (h : s.Stored t block bs) (h' : t.Stored u block bs') : s.Stored u block bs' :=
  ⟨by rw [h'.heap, h.heap, SysHeap.withBlock_withBlock], h'.rawLog.trans h.rawLog,
    h'.bus.trans h.bus, h'.apiFails.trans h.apiFails⟩

theorem block_eq (h : s.Stored t block bs) : t.heap.blocks block = some bs := by
  rw [h.heap, SysHeap.withBlock_blocks_self]

end State.Stored

/-- `m` makes `k` allocating calls, performs the writes `result` on the block and
leaves a stack that satisfies `post`; it stops early out of memory, with the error
that `result` is, or out of bounds unless `fits`. -/
def Decodes (m : LuaM β Unit) (s : State β) (block : Nat) (buf : Bytes) (k : Nat) (fits : Prop)
    (post : List Value → Prop) (result : Except LuaError (List (Write UInt8))) : Prop :=
  wp m
    (fun _ t => ∃ ws, result = .ok ws ∧ (putAll buf ws).length = buf.length ∧ post t.stack ∧
      s.Stored t block (putAll buf ws) ∧ t.apiCalls = s.apiCalls + k ∧
      NoFail s.apiFails s.apiCalls k)
    (fun e t => (∃ bs, s.Stored t block bs) ∧
      ((e = .error .memory ∧ ¬ NoFail s.apiFails s.apiCalls k) ∨
        (∃ err, e = .error err ∧ result = .error err) ∨
        (e = .fault .outOfBounds ∧ ¬ fits))) s

namespace Decodes

variable {m m' : LuaM β Unit} {s : State β} {block : Nat} {buf : Bytes} {k j : Nat}
variable {fits fits' : Prop} {post post' : List Value → Prop}
variable {r r' : Except LuaError (List (Write UInt8))}

/-- Sequencing adds the calls and appends the writes. -/
theorem seq (h : Decodes m s block buf k fits post r)
    (h' : ∀ t ws, r = .ok ws → (putAll buf ws).length = buf.length → post t.stack →
      s.Stored t block (putAll buf ws) → Decodes m' t block (putAll buf ws) j fits' post' r') :
    Decodes (do m; m') s block buf (k + j) (fits ∧ fits') post'
      (do let here ← r; let rest ← r'; return here ++ rest) := by
  apply wp_bind.mpr
  apply h.mono
  · rintro _ t ⟨ws, rfl, hlen, hpost, hst, hcalls, hok⟩
    apply (h' t ws rfl hlen hpost hst).mono
    · rintro _ u ⟨ws', rfl, hlen', hpost', htu, hcalls', hok'⟩
      refine ⟨ws ++ ws', rfl, ?_, hpost', ?_, by rw [hcalls', hcalls, Nat.add_assoc], ?_⟩
      · rw [putAll_append, hlen', hlen]
      · rw [putAll_append]
        exact hst.trans htu
      · rw [hst.apiFails, hcalls] at hok'
        exact noFail_add.mpr ⟨hok, hok'⟩
    · rintro e u ⟨⟨bs, htu⟩, hcause⟩
      refine ⟨⟨bs, hst.trans htu⟩, ?_⟩
      obtain ⟨he, hfail⟩ | ⟨err, he, rfl⟩ | ⟨he, hfits⟩ := hcause
      · refine .inl ⟨he, fun hall => hfail ?_⟩
        rw [hst.apiFails, hcalls]
        exact (noFail_add.mp hall).2
      · exact .inr (.inl ⟨err, he, rfl⟩)
      · exact .inr (.inr ⟨he, fun hall => hfits hall.2⟩)
  · rintro e t ⟨hst, ⟨he, hfail⟩ | ⟨err, he, rfl⟩ | ⟨he, hfits⟩⟩
    · exact ⟨hst, .inl ⟨he, fun hall => hfail (noFail_add.mp hall).1⟩⟩
    · exact ⟨hst, .inr (.inl ⟨err, he, rfl⟩)⟩
    · exact ⟨hst, .inr (.inr ⟨he, fun hall => hfits hall.1⟩)⟩

theorem weaken (h : Decodes m s block buf k fits post r)
    (hpost : ∀ stack, post stack → post' stack) (hfits : fits' → fits) :
    Decodes m s block buf k fits' post' r := by
  apply wp.mono h
  · rintro _ t ⟨ws, hr, hlen, hp, hrest⟩
    exact ⟨ws, hr, hlen, hpost _ hp, hrest⟩
  · rintro e t ⟨hst, hcause⟩
    exact ⟨hst, hcause.imp_right (Or.imp_right (And.imp_right (fun hnot h => hnot (hfits h))))⟩

/-- Popping the value of a field gives back the stack under it. -/
theorem pop {rest : List Value}
    (h : Decodes m s block buf k fits (fun stack => stack.drop 1 = rest) r) :
    Decodes (do m; luaPop 1) s block buf k fits (· = rest) r := by
  apply wp_bind.mpr
  apply h.mono
  · rintro _ t ⟨ws, hr, hlen, hpost, hst, hcalls, hok⟩
    exact ⟨ws, hr, hlen, hpost, ⟨hst.heap, hst.rawLog, hst.bus, hst.apiFails⟩, hcalls, hok⟩
  · exact fun _ _ h => h

/-- A store without allocation, inside the block if the descriptor fits. -/
theorem store {p : Ptr} {cells : Bytes} (hblock : s.heap.blocks p.block = some buf)
    (hfits : fits → p.offset + cells.length ≤ buf.length) (hpost : post s.stack) :
    Decodes (storeBytes p cells) s p.block buf 0 fits post (.ok [⟨p.offset, cells⟩]) := by
  unfold Decodes
  rw [wp_storeBytes hblock]
  split
  · rename_i hfit
    exact ⟨_, rfl, length_put hfit, hpost, ⟨rfl, rfl, rfl, rfl⟩, rfl, noFail_zero _ _⟩
  · rename_i hout
    exact ⟨⟨buf, .same hblock rfl rfl rfl rfl⟩, .inr (.inr ⟨rfl, fun h => hout (hfits h)⟩)⟩

/-- Nothing to store. -/
theorem none (hblock : s.heap.blocks block = some buf) (hpost : post s.stack) :
    Decodes (pure ⟨⟩) s block buf 0 fits post (.ok []) :=
  ⟨[], rfl, rfl, hpost, .same hblock rfl rfl rfl rfl, rfl, noFail_zero _ _⟩

/-- A number or boolean read from the stack, then a store that depends on it. -/
theorem of_value {α : Type} {read : LuaM β α} {a : α} {f : α → LuaM β Unit}
    (hread : ∀ (Q : α → State β → Prop) (E : Exn → State β → Prop), wp read Q E s ↔ Q a s)
    (h : Decodes (f a) s block buf k fits post r) :
    Decodes (do let x ← read; f x) s block buf k fits post r := by
  apply wp_bind.mpr
  exact (hread _ _).mpr h

/-- A field access, then the work on the value it pushed. -/
theorem getfield {tgt : Target} {idx : Int} {key : Bytes} {t : Value}
    (hblock : s.heap.blocks block = some buf) (hidx : valueAt s.stack idx = some t)
    (herror : ∀ err, tgt.index t key = .error err → r = .error err)
    (h : ∀ v, tgt.index t key = .ok v → ∀ u : State β, u.heap.blocks block = some buf →
      u.stack = v :: s.stack → Decodes m u block buf k fits post r) :
    Decodes (do luaGetfield tgt idx key; m) s block buf (1 + k) fits post r := by
  unfold Decodes
  rw [wp_bind, wp_luaGetfield hidx, wp_allocating]
  split
  · rename_i hfail
    refine ⟨⟨buf, .same hblock rfl rfl rfl rfl⟩, .inl ⟨rfl, fun hall => ?_⟩⟩
    rw [noFail_one.mp (noFail_add.mp hall).1] at hfail
    contradiction
  · rename_i hok
    have hone : NoFail s.apiFails s.apiCalls 1 := by simpa [noFail_one] using hok
    cases hindex : tgt.index t key with
    | error err =>
        exact ⟨⟨buf, .same hblock rfl rfl rfl rfl⟩, .inr (.inl ⟨err, rfl, herror err hindex⟩)⟩
    | ok v =>
        let u : State β := { s with
          stack := v :: s.stack
          peak := max s.peak (s.stack.length + 1)
          accesses := s.accesses ++ [(t, key)]
          apiCalls := s.apiCalls + 1 }
        apply (h v hindex u hblock rfl).mono
        · rintro _ w ⟨ws, hr, hlen, hpost, hst, hcalls, hok'⟩
          exact ⟨ws, hr, hlen, hpost, ⟨hst.heap, hst.rawLog, hst.bus, hst.apiFails⟩,
            by rw [hcalls, Nat.add_assoc], noFail_add.mpr ⟨hone, hok'⟩⟩
        · rintro e w ⟨⟨bs, hst⟩, hcause⟩
          refine ⟨⟨bs, ⟨hst.heap, hst.rawLog, hst.bus, hst.apiFails⟩⟩, ?_⟩
          exact hcause.imp_left (fun ⟨he, hfail⟩ => ⟨he, fun hall => hfail (noFail_add.mp hall).2⟩)

/-- The text of the top value, then a store that depends on it. -/
theorem tostring {tgt : Target} {v : Value} {rest : List Value}
    {f : Option Bytes → LuaM β Unit} (hblock : s.heap.blocks block = some buf)
    (hstack : s.stack = v :: rest)
    (h : ∀ t : State β, t.heap.blocks block = some buf → t.stack.drop 1 = rest →
      Decodes (f (tgt.toText? v)) t block buf 0 fits post r) :
    Decodes (do let text ← luaTostring tgt (-1); f text) s block buf
      (if v.isNumber then 1 else 0) fits post r := by
  cases hnum : v.isNumber with
  | false =>
      have hplain : Decodes (f (tgt.toText? v)) s block buf 0 fits post r :=
        h s hblock (by rw [hstack]; rfl)
      unfold Decodes
      rw [wp_bind, wp_luaTostring_top hstack, hnum]
      cases htext : tgt.toText? v <;> rw [htext] at hplain <;> exact hplain
  | true =>
      obtain ⟨text, htext⟩ : ∃ text, tgt.toText? v = some text := by
        cases v <;> simp_all [Target.toText?, Value.isNumber]
      unfold Decodes
      rw [wp_bind, wp_luaTostring_top hstack, hnum, htext]
      simp only [if_true, wp_allocating]
      rw [htext] at h
      split
      · rename_i hfail
        exact ⟨⟨buf, .same hblock rfl rfl rfl rfl⟩, .inl ⟨trivial, by simp [noFail_one, hfail]⟩⟩
      · rename_i hok
        have hone : NoFail s.apiFails s.apiCalls 1 := by simpa [noFail_one] using hok
        let u : State β := { s with stack := .string text :: rest, apiCalls := s.apiCalls + 1 }
        apply (h u hblock rfl).mono
        · rintro _ t ⟨ws, hr, hlen, hpost, hst, hcalls, -⟩
          exact ⟨ws, hr, hlen, hpost, ⟨hst.heap, hst.rawLog, hst.bus, hst.apiFails⟩, hcalls, hone⟩
        · rintro e t ⟨⟨bs, hst⟩, ⟨-, hfail⟩ | hcause⟩
          · exact absurd (noFail_zero _ _) hfail
          · exact ⟨⟨bs, ⟨hst.heap, hst.rawLog, hst.bus, hst.apiFails⟩⟩, .inr hcause⟩

end Decodes

section Stores

variable (tgt : Target) {s : State β} {p : Ptr} {buf : Bytes} {fits : Prop}
variable {post : List Value → Prop}

theorem storeInteger_of_not_mem {size : UInt8} (h : size.toNat ∉ [1, 2, 4, 8])
    (val : LuaInteger) : (storeInteger tgt p size val : LuaM β Unit) = pure () := by
  unfold storeInteger
  split <;> first | rfl | simp_all

theorem storeInteger_decodes (hblock : s.heap.blocks p.block = some buf) {size : UInt8}
    {val : LuaInteger}
    (hfits : fits → p.offset + (integerCells tgt size val).length ≤ buf.length)
    (hpost : post s.stack) :
    Decodes (storeInteger tgt p size val) s p.block buf 0 fits post
      (.ok [⟨p.offset, integerCells tgt size val⟩]) := by
  by_cases hwidth : size.toNat ∈ [1, 2, 4, 8]
  · unfold storeInteger
    unfold integerCells at hfits ⊢
    generalize size.toNat = n at hwidth hfits ⊢
    simp only [List.mem_cons, List.not_mem_nil, or_false] at hwidth
    obtain rfl | rfl | rfl | rfl := hwidth
    all_goals exact .store hblock hfits hpost
  · -- A store of no cells is no store.
    rw [storeInteger_of_not_mem tgt hwidth, integerCells_of_not_mem tgt hwidth]
    exact ⟨_, rfl, by simp, hpost, .same (by simpa using hblock) rfl rfl rfl rfl, rfl,
      noFail_zero _ _⟩

theorem storeNumber_decodes (hblock : s.heap.blocks p.block = some buf) {size : UInt8}
    {val : LuaNumber}
    (hfits : fits → p.offset + (numberCells tgt size val).length ≤ buf.length)
    (hpost : post s.stack) :
    Decodes (storeNumber tgt p size val) s p.block buf 0 fits post
      (.ok [⟨p.offset, numberCells tgt size val⟩]) := by
  unfold storeNumber
  unfold numberCells at hfits ⊢
  split at hfits
  · rename_i hfloat
    simp only [if_pos hfloat]
    exact .store hblock hfits hpost
  · rename_i hdouble
    simp only [if_neg hdouble]
    exact .store hblock hfits hpost

/-- The copy and the terminator are one run of cells. -/
theorem storeStringBuf_decodes (hblock : s.heap.blocks p.block = some buf) {size : UInt8}
    (text : Bytes) (hfits : fits → size ≠ 0 ∧ p.offset + size.toNat ≤ buf.length)
    (hpost : post s.stack) :
    Decodes (storeStringBuf p size text) s p.block buf 0 fits post
      (.ok [⟨p.offset, stringBufCells size text⟩]) := by
  unfold Decodes storeStringBuf
  by_cases hsize : size = 0
  · rw [if_pos hsize]
    exact ⟨⟨buf, .same hblock rfl rfl rfl rfl⟩, .inr (.inr ⟨rfl, fun h => (hfits h).1 hsize⟩)⟩
  have hpos : size.toNat ≠ 0 := fun h => hsize (UInt8.toNat_inj.mp h)
  have hcopy : (CString.strncpy (size.toNat - 1) text).length = size.toNat - 1 :=
    CString.length_strncpy _ _
  have hcells := length_stringBufCells hsize text
  rw [if_neg hsize, wp_bind, wp_storeBytes hblock]
  split
  · rename_i hfirst
    have hlen : (put buf ⟨p.offset, CString.strncpy (size.toNat - 1) text⟩).length =
        buf.length := length_put hfirst
    rw [wp_storeBytes (SysHeap.withBlock_blocks_self _ _ _)]
    split
    · rename_i hlast
      rw [hlen, Ptr.add_offset, List.length_singleton] at hlast
      have hboth : p.offset + (CString.strncpy (size.toNat - 1) text ++ [0]).length ≤
          buf.length := by
        rw [← stringBufCells, hcells]
        omega
      have hjoin := put_put_adjacent hboth
      rw [hcopy] at hjoin
      refine ⟨_, rfl, ?_, hpost, ⟨?_, rfl, rfl, rfl⟩, rfl, noFail_zero _ _⟩
      · exact length_put (by simp only [Write.stop, hcells]; omega)
      · change (s.heap.withBlock p.block _).withBlock p.block _ = _
        rw [SysHeap.withBlock_withBlock]
        exact congrArg (s.heap.withBlock p.block) hjoin
    · rename_i hlast
      rw [hlen, Ptr.add_offset, List.length_singleton] at hlast
      refine ⟨⟨_, ⟨rfl, rfl, rfl, rfl⟩⟩, .inr (.inr ⟨rfl, fun h => hlast ?_⟩)⟩
      have := (hfits h).2
      omega
  · rename_i hfirst
    refine ⟨⟨buf, .same hblock rfl rfl rfl rfl⟩, .inr (.inr ⟨rfl, fun h => hfirst ?_⟩)⟩
    have := (hfits h).2
    omega

end Stores

section Conversion

variable (tgt : Target)

mutual

/-- One field is stored from the value on top of the stack. -/
theorem fieldFromTable_decodes {block : Nat} {buf : Bytes} {v : Value} {rest : List Value}
    (f : LuaMsgFieldDescr) (base : Nat) (s : State β) (hblock : s.heap.blocks block = some buf)
    (hstack : s.stack = v :: rest) :
    Decodes (fieldFromTable tgt f ⟨block, base⟩) s block buf (fieldDecodeCost tgt f v)
      (FieldFits tgt f base buf.length) (fun stack => stack.drop 1 = rest)
      (fieldWrites tgt f v base) := by
  obtain ⟨name, type, offset, size, subFields⟩ := f
  have hptr : s.heap.blocks ((Ptr.mk block base).add offset.toNat).block = some buf := hblock
  have htop : valueAt s.stack (-1) = some v := by rw [hstack, valueAt_top]
  have hdrop : s.stack.drop 1 = rest := by rw [hstack]; rfl
  cases type with
  | int =>
      exact .of_value (fun _ _ => wp_luaTointeger htop)
        (storeInteger_decodes tgt hptr (fun h => by rw [length_integerCells]; exact h) hdrop)
  | uint =>
      exact .of_value (fun _ _ => wp_luaTointeger htop)
        (storeInteger_decodes tgt hptr (fun h => by rw [length_integerCells]; exact h) hdrop)
  | number =>
      exact .of_value (fun _ _ => wp_luaTonumber htop)
        (storeNumber_decodes tgt hptr (fun h => by rw [length_numberCells]; exact h) hdrop)
  | string =>
      apply Decodes.tostring hblock hstack
      intro t ht hpost
      have hfits (address : Nat) (h : FieldFits tgt ⟨name, .string, offset, size, subFields⟩ base
          buf.length) : (Ptr.mk block base |>.add offset.toNat).offset +
          (pointerCells tgt address).length ≤ buf.length := by
        rw [length_pointerCells]
        exact h
      cases htext : tgt.toText? v with
      | none =>
          simp only [fieldWrites, htext]
          exact .store ht (hfits _) hpost
      | some text =>
          simp only [fieldWrites, htext]
          exact .store ht (hfits _) hpost
  | stringBuf =>
      apply Decodes.tostring hblock hstack
      intro t ht hpost
      cases htext : tgt.toText? v with
      | none =>
          simp only [fieldWrites, htext]
          exact .none ht hpost
      | some text =>
          simp only [fieldWrites, htext]
          exact storeStringBuf_decodes ht text (fun h => h) hpost
  | bool =>
      exact .of_value (fun _ _ => wp_luaToboolean htop)
        (.store hptr (fun h => by rw [length_writeWord]; exact h) hdrop)
  | object =>
      apply Decodes.of_value (fun _ _ => wp_luaAbsindex_top)
      have hnested : valueAt s.stack (s.stack.length : Nat) = some v := by
        rw [hstack, valueAt_length]
      have h := luaMsgDescrFromTable_decodes subFields (base + offset.toNat) (s.stack.length : Nat)
        v s hblock (by rw [hstack, List.length_cons]; omega) hnested
      exact h.weaken (fun stack hstack' => by rw [hstack', hdrop]) (fun hfits => hfits)

/-- The loop over the fields, with the value to convert at `idx`. -/
theorem luaMsgDescrFromTable_decodes {block : Nat} {buf : Bytes} (fs : List LuaMsgFieldDescr)
    (base : Nat) (idx : Int) (t : Value) (s : State β)
    (hblock : s.heap.blocks block = some buf) (hpos : 0 < idx)
    (hidx : valueAt s.stack idx = some t) :
    Decodes (luaMsgDescrFromTable tgt fs ⟨block, base⟩ idx) s block buf (decodeCost tgt fs t)
      (Fits tgt fs base buf.length) (· = s.stack) (tableWrites tgt fs t base) := by
  cases fs with
  | nil => exact .none hblock rfl
  | cons f fs =>
      have hrest (u : State β) (bs : Bytes) (hlen : bs.length = buf.length)
          (hblock' : u.heap.blocks block = some bs) (hstack : u.stack = s.stack) :
          Decodes (luaMsgDescrFromTable tgt fs ⟨block, base⟩ idx) u block bs
            (decodeCost tgt fs t) (Fits tgt fs base buf.length) (· = s.stack)
            (tableWrites tgt fs t base) := by
        have h := luaMsgDescrFromTable_decodes fs base idx t u hblock' hpos
          (by rw [hstack]; exact hidx)
        rwa [hstack, hlen] at h
      unfold luaMsgDescrFromTable
      rw [tableWrites_cons]
      unfold decodeCost
      apply Decodes.getfield hblock hidx
      · intro err herr
        simp [herr, bind, Except.bind]
      · intro v hv u hblock' hstack
        have htop : valueAt u.stack (-1) = some v := by rw [hstack, valueAt_top]
        apply Decodes.of_value (fun _ _ => wp_luaIsnil htop)
        rw [hv]
        change Decodes _ u block buf
          ((if v.isNil then 0 else fieldDecodeCost tgt f v) + decodeCost tgt fs t) _ _ (do
            let here ← entryWrites tgt f v base
            let rest ← tableWrites tgt fs t base
            return here ++ rest)
        unfold entryWrites
        cases v.isNil with
        | true =>
            have hpop : Decodes (luaPop 1) u block buf 0 (FieldFits tgt f base buf.length)
                (· = s.stack) (.ok []) :=
              ⟨[], rfl, rfl, congrArg (List.drop 1) hstack, .same hblock' rfl rfl rfl rfl, rfl,
                noFail_zero _ _⟩
            apply hpop.seq
            intro w ws hws _ hstack' hst
            obtain rfl := Except.ok.inj hws
            exact hrest w buf rfl hst.block_eq hstack'
        | false =>
            have hfield := (fieldFromTable_decodes f base u hblock' hstack).pop
            have h := hfield.seq (fun w ws _ hlen hstack' hst =>
              hrest w _ hlen hst.block_eq hstack')
            rw [bind_assoc] at h
            exact h

end

end Conversion

end LuaZephyr
