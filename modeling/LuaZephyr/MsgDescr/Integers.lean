import LuaZephyr.MsgDescr.Leaves

/-!
# Integers of a message and integers of a script

A field of 1, 2, 4 or 8 bytes is converted to `lua_Integer`, which has 32 bits under
`LUA_32BITS`. The conversion keeps the stored number modulo `2 ^ 32`. Signed fields of up
to 4 bytes and unsigned ones of up to 2 are shown as they are; a wider one is shown as
another number when its value is outside the 32-bit range.
-/

namespace LuaZephyr

open Words Patch

/-- An INT or UINT field of a width the header lists. -/
def Leaf.IsInteger (leaf : Leaf) : Prop :=
  (leaf.type = .int ∨ leaf.type = .uint) ∧ leaf.size.toNat ∈ [1, 2, 4, 8]

instance (leaf : Leaf) : Decidable leaf.IsInteger :=
  inferInstanceAs (Decidable ((leaf.type = .int ∨ leaf.type = .uint) ∧ _))

variable (tgt : Target)

/-- The number the C field holds: signed for INT, unsigned for UINT. -/
def storedInteger (m : Bytes) (leaf : Leaf) : Int :=
  let word := readWord tgt.order (8 * leaf.size.toNat) (slice m leaf.start leaf.size.toNat)
  if leaf.type = .int then word.toInt else word.toNat

/-- Every integer of the message is in its table, as a Lua integer of the same value. -/
def IntegersShown (fs : List LuaMsgFieldDescr) (m : Bytes) (t : Value) : Prop :=
  ∀ leaf ∈ visibleLeaves fs 0, leaf.IsInteger →
    ∃ k, lookupPath tgt t leaf.path = some (.integer k) ∧ k.toInt = storedInteger tgt m leaf

/-- Both conversions keep the number modulo `2 ^ 32`. -/
theorem toInt_signExtend_bmod {w : Nat} (x : BitVec w) :
    (x.signExtend 32).toInt = x.toInt.bmod (2 ^ 32) := by
  obtain hwide | hnarrow := Nat.le_total 32 w
  · rw [BitVec.toInt_signExtend_eq_toInt_bmod_of_le _ hwide]
  · rw [BitVec.toInt_signExtend_of_le hnarrow]
    have hlo := BitVec.le_two_mul_toInt (x := x)
    have hhi := BitVec.two_mul_toInt_lt (x := x)
    have hpow : (2 : Int) ^ w ≤ 2 ^ 32 := by exact_mod_cast Nat.pow_le_pow_right (by decide) hnarrow
    rw [Int.bmod_eq_of_le_mul_two]
    · push_cast
      omega
    · push_cast
      omega

variable {tgt} {m m' : Bytes} {leaf : Leaf}

/-- An integer field that is read is shown as its number, reduced to the 32-bit range. -/
theorem leafValue_integer (h : leaf.IsInteger) {v : Value} (hv : leafValue tgt m leaf = some v) :
    ∃ k, v = .integer k ∧ k.toInt = (storedInteger tgt m leaf).bmod (2 ^ 32) := by
  obtain ⟨path, type, start, size⟩ := leaf
  obtain ⟨htype, hsize⟩ := h
  have hread {bs : Bytes} (hbs : bytesAt m start size.toNat = some bs) :
      bs = slice m start size.toNat := by
    unfold bytesAt at hbs
    split at hbs
    · exact (Option.some.inj hbs).symm
    · contradiction
  obtain rfl | rfl := htype
  · obtain ⟨k, hk, rfl⟩ := Option.map_eq_some_iff.mp hv
    rw [integerAt_supported tgt _ hsize] at hk
    obtain ⟨bs, hbs, rfl⟩ := Option.map_eq_some_iff.mp hk
    obtain rfl := hread hbs
    exact ⟨_, rfl, toInt_signExtend_bmod _⟩
  · obtain ⟨k, hk, rfl⟩ := Option.map_eq_some_iff.mp hv
    rw [integerAt_supported tgt _ hsize] at hk
    obtain ⟨bs, hbs, rfl⟩ := Option.map_eq_some_iff.mp hk
    obtain rfl := hread hbs
    exact ⟨_, rfl, BitVec.toInt_setWidth _⟩

theorem bmod_eq_self_iff {i : Int} : i.bmod (2 ^ 32) = i ↔ -2 ^ 31 ≤ i ∧ i < 2 ^ 31 := by
  rw [Int.bmod_eq_iff (by decide)]
  constructor
  · rintro ⟨hlo, hhi, -⟩
    exact ⟨by omega, by omega⟩
  · rintro ⟨hlo, hhi⟩
    exact ⟨by omega, by omega, by simp⟩

/-- A field of up to 4 bytes holds one of `2 ^ 32` consecutive numbers. -/
theorem storedInteger_narrow (h : leaf.IsInteger) (hsize : leaf.size ≠ 8) :
    if leaf.type = .int then
      -2 ^ 31 ≤ storedInteger tgt m leaf ∧ storedInteger tgt m leaf < 2 ^ 31
    else 0 ≤ storedInteger tgt m leaf ∧ storedInteger tgt m leaf < 2 ^ 32 := by
  have hne : leaf.size.toNat ≠ 8 := fun heq => hsize (UInt8.toNat_inj.mp heq)
  have hsizes := h.2
  simp only [List.mem_cons, List.not_mem_nil, or_false] at hsizes
  have hbits : 8 * leaf.size.toNat ≤ 32 := by omega
  have hpow : (2 : Nat) ^ (8 * leaf.size.toNat) ≤ 2 ^ 32 := Nat.pow_le_pow_right (by decide) hbits
  generalize hword : readWord tgt.order (8 * leaf.size.toNat)
    (slice m leaf.start leaf.size.toNat) = word
  split
  · rename_i hint
    rw [storedInteger, if_pos hint, hword]
    have hlo := BitVec.le_two_mul_toInt (x := word)
    have hhi := BitVec.two_mul_toInt_lt (x := word)
    have hpow' : (2 : Int) ^ (8 * leaf.size.toNat) ≤ 2 ^ 32 := by exact_mod_cast hpow
    omega
  · rename_i hint
    rw [storedInteger, if_neg hint, hword]
    have hlt := word.isLt
    omega

/-- Numbers shown alike are equal when their upper halves are, which matters only for
8-byte fields. -/
theorem storedInteger_eq_iff (h : leaf.IsInteger)
    (hmod : (storedInteger tgt m leaf).bmod (2 ^ 32) = (storedInteger tgt m' leaf).bmod (2 ^ 32)) :
    storedInteger tgt m leaf = storedInteger tgt m' leaf ↔
      (leaf.size = 8 → storedInteger tgt m leaf / 2 ^ 32 = storedInteger tgt m' leaf / 2 ^ 32) := by
  have hrem : storedInteger tgt m leaf % 2 ^ 32 = storedInteger tgt m' leaf % 2 ^ 32 := by
    have hcongr := congrArg (fun i : Int => i % ((2 ^ 32 : Nat) : Int)) hmod
    simp only [Int.bmod_emod] at hcongr
    exact_mod_cast hcongr
  constructor
  · intro heq _
    rw [heq]
  · intro hhigh
    by_cases hsize : leaf.size = 8
    · have heq := hhigh hsize
      omega
    · have hnarrow (m : Bytes) : if leaf.type = .int then
            -2 ^ 31 ≤ storedInteger tgt m leaf ∧ storedInteger tgt m leaf < 2 ^ 31
          else 0 ≤ storedInteger tgt m leaf ∧ storedInteger tgt m leaf < 2 ^ 32 :=
        storedInteger_narrow h hsize
      have hm := hnarrow m
      have hm' := hnarrow m'
      by_cases hint : leaf.type = .int
      · rw [if_pos hint] at hm hm'
        omega
      · rw [if_neg hint] at hm hm'
        omega

variable {fs : List LuaMsgFieldDescr}

theorem integer_shown {t : Value} (ht : TableOf tgt fs m t) (hleaf : leaf ∈ visibleLeaves fs 0)
    (h : leaf.IsInteger) : ∃ k, lookupPath tgt t leaf.path = some (.integer k) ∧
      k.toInt = (storedInteger tgt m leaf).bmod (2 ^ 32) := by
  obtain ⟨v, hv, hlookup⟩ := messageTable_visibleLeaf (tableOf_iff.mp ht) hleaf
  obtain ⟨k, rfl, hk⟩ := leafValue_integer h hv
  exact ⟨k, hlookup nofun, hk⟩

/-- A message's integers are all shown as they are exactly when each is in the 32-bit range.
Two messages with one table agree in every integer exactly when their 8-byte ones have the
same upper halves. -/
theorem integersShown_iff (tgt : Target) (fs : List LuaMsgFieldDescr) :
    (∀ m t, TableOf tgt fs m t → (IntegersShown tgt fs m t ↔
      ∀ leaf ∈ visibleLeaves fs 0, leaf.IsInteger →
        -2 ^ 31 ≤ storedInteger tgt m leaf ∧ storedInteger tgt m leaf < 2 ^ 31)) ∧
    ∀ m m' t, TableOf tgt fs m t → TableOf tgt fs m' t →
      ∀ leaf ∈ visibleLeaves fs 0, leaf.IsInteger →
        (storedInteger tgt m leaf = storedInteger tgt m' leaf ↔
          (leaf.size = 8 →
            storedInteger tgt m leaf / 2 ^ 32 = storedInteger tgt m' leaf / 2 ^ 32)) := by
  constructor
  · intro m t ht
    constructor
    · intro hshown leaf hleaf hinteger
      obtain ⟨k, hk, heq⟩ := hshown leaf hleaf hinteger
      obtain ⟨k', hk', hmod⟩ := integer_shown ht hleaf hinteger
      obtain rfl : k' = k := by
        rw [hk] at hk'
        exact (Value.integer.inj (Option.some.inj hk')).symm
      exact bmod_eq_self_iff.mp (hmod.symm.trans heq)
    · intro hrange leaf hleaf hinteger
      obtain ⟨k, hk, hmod⟩ := integer_shown ht hleaf hinteger
      exact ⟨k, hk, hmod.trans (bmod_eq_self_iff.mpr (hrange leaf hleaf hinteger))⟩
  · intro m m' t ht ht' leaf hleaf hinteger
    obtain ⟨k, hk, hmod⟩ := integer_shown ht hleaf hinteger
    obtain ⟨k', hk', hmod'⟩ := integer_shown ht' hleaf hinteger
    obtain rfl : k' = k := by
      rw [hk] at hk'
      exact (Value.integer.inj (Option.some.inj hk')).symm
    exact storedInteger_eq_iff hinteger (hmod.symm.trans hmod')

def countFields : List LuaMsgFieldDescr := [⟨ascii "count", .uint, 0, 4, []⟩]

def stampFields : List LuaMsgFieldDescr := [⟨ascii "stamp", .int, 0, 8, []⟩]

/-- A small count is shown as it is, and no other count gives its table. -/
theorem integersShown_count :
    IntegersShown Target.sample countFields [7, 0, 0, 0]
        (.table [(ascii "count", .integer 7)] none) ∧
      ∀ m, TableOf Target.sample countFields m (.table [(ascii "count", .integer 7)] none) →
        storedInteger Target.sample m ⟨[ascii "count"], .uint, 0, 4⟩ = 7 := by
  have hshown : TableOf Target.sample countFields [7, 0, 0, 0]
      (.table [(ascii "count", .integer 7)] none) := tableOf_iff.mpr rfl
  refine ⟨((integersShown_iff Target.sample countFields).1 _ _ hshown).mpr (by decide), ?_⟩
  intro m ht
  have hagree := (integersShown_iff Target.sample countFields).2 _ _ _ ht hshown
    ⟨[ascii "count"], .uint, 0, 4⟩ (by decide) (by decide)
  rw [hagree.mpr nofun]
  decide

/-- The largest `uint32_t` is shown as -1, and two different `int64_t` as 0. -/
theorem not_integersShown_count :
    (∃ m t, TableOf Target.sample countFields m t ∧ m = [255, 255, 255, 255] ∧
      lookupPath Target.sample t [ascii "count"] = some (.integer (-1)) ∧
      ¬ IntegersShown Target.sample countFields m t) ∧
    ∃ m m' t, TableOf Target.sample stampFields m t ∧ TableOf Target.sample stampFields m' t ∧
      ∃ leaf ∈ visibleLeaves stampFields 0, leaf.IsInteger ∧
        storedInteger Target.sample m leaf ≠ storedInteger Target.sample m' leaf := by
  constructor
  · refine ⟨[255, 255, 255, 255], .table [(ascii "count", .integer (-1))] none,
      tableOf_iff.mpr rfl, rfl, rfl, fun hshown => ?_⟩
    obtain ⟨k, hk, heq⟩ := hshown ⟨[ascii "count"], .uint, 0, 4⟩ (by decide) (by decide)
    obtain rfl : -1 = k := Value.integer.inj (Option.some.inj hk)
    exact absurd heq (by decide)
  · exact ⟨[0, 0, 0, 0, 0, 0, 0, 0], [0, 0, 0, 0, 1, 0, 0, 0],
      .table [(ascii "stamp", .integer 0)] none, tableOf_iff.mpr rfl, tableOf_iff.mpr rfl,
      ⟨[ascii "stamp"], .int, 0, 8⟩, by decide, by decide, by decide⟩

end LuaZephyr
