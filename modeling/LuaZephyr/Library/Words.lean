import Mathlib.Data.BitVec
import Mathlib.Data.List.Basic

/-!
# Fixed-width words in byte memory

A word of `w` bits occupies `n` bytes when `w = 8 * n`. Bytes are read and
written in the memory order of the platform, least or most significant first;
every law below holds in both orders, so a client can stay silent about which
one the target has.

Words are bit vectors, so that a sum wraps as it does in C. Alignment is left to the clients,
as is the question which C type a word has; a signed number is one reading of it, and the
conversion between widths another operation.
-/

namespace Words

inductive ByteOrder where
  | little
  | big
  deriving DecidableEq, Repr

/-- Memory order of bytes given least significant first. The same map also
goes back, since reversal is an involution. -/
def ByteOrder.arrange : ByteOrder → List UInt8 → List UInt8
  | .little, bs => bs
  | .big, bs => bs.reverse

@[simp] theorem ByteOrder.arrange_arrange (o : ByteOrder) (bs : List UInt8) :
    o.arrange (o.arrange bs) = bs := by
  cases o <;> simp [ByteOrder.arrange]

@[simp] theorem ByteOrder.length_arrange (o : ByteOrder) (bs : List UInt8) :
    (o.arrange bs).length = bs.length := by
  cases o <;> simp [ByteOrder.arrange]

/-- The number whose base-256 digits are `bs`, least significant first. -/
def digitsToNat : List UInt8 → Nat
  | [] => 0
  | b :: bs => b.toNat + 256 * digitsToNat bs

/-- The `n` lowest base-256 digits of `v`, least significant first. -/
def natToDigits : Nat → Nat → List UInt8
  | 0, _ => []
  | n + 1, v => UInt8.ofNat v :: natToDigits n (v / 256)

@[simp] theorem length_natToDigits (n v : Nat) : (natToDigits n v).length = n := by
  induction n generalizing v with
  | zero => rfl
  | succ n ih => simp [natToDigits, ih]

theorem digitsToNat_natToDigits (n v : Nat) : digitsToNat (natToDigits n v) = v % 256 ^ n := by
  induction n generalizing v with
  | zero => simp [natToDigits, digitsToNat, Nat.mod_one]
  | succ n ih =>
      have hlow : (UInt8.ofNat v).toNat = v % 256 := UInt8.toNat_ofNat'
      rw [natToDigits, digitsToNat, ih, hlow, Nat.pow_succ', Nat.mod_mul]

theorem natToDigits_digitsToNat (bs : List UInt8) :
    natToDigits bs.length (digitsToNat bs) = bs := by
  induction bs with
  | nil => rfl
  | cons b bs ih =>
      have hb : b.toNat < 256 := b.toNat_lt
      have hlow : UInt8.ofNat (b.toNat + 256 * digitsToNat bs) = b := by
        apply UInt8.toNat_inj.mp
        rw [UInt8.toNat_ofNat']
        omega
      have hhigh : (b.toNat + 256 * digitsToNat bs) / 256 = digitsToNat bs := by omega
      rw [List.length_cons, digitsToNat, natToDigits, hlow, hhigh, ih]

theorem natToDigits_mod (n v : Nat) : natToDigits n (v % 256 ^ n) = natToDigits n v := by
  have h := natToDigits_digitsToNat (natToDigits n v)
  rwa [length_natToDigits, digitsToNat_natToDigits] at h

/-- Load a `w`-bit word from its bytes in memory order. -/
def readWord (o : ByteOrder) (w : Nat) (bs : List UInt8) : BitVec w :=
  BitVec.ofNat w (digitsToNat (o.arrange bs))

/-- The `n` bytes a store of `v` leaves in memory. -/
def writeWord (o : ByteOrder) (n : Nat) {w : Nat} (v : BitVec w) : List UInt8 :=
  o.arrange (natToDigits n v.toNat)

@[simp] theorem length_writeWord (o : ByteOrder) (n : Nat) {w : Nat} (v : BitVec w) :
    (writeWord o n v).length = n := by
  simp [writeWord]

theorem readWord_writeWord (o : ByteOrder) {n w : Nat} (hw : w = 8 * n) (v : BitVec w) :
    readWord o w (writeWord o n v) = v := by
  have hpow : 256 ^ n = 2 ^ w := by rw [hw, Nat.pow_mul]
  apply BitVec.eq_of_toNat_eq
  simp only [readWord, writeWord, ByteOrder.arrange_arrange, digitsToNat_natToDigits,
    BitVec.toNat_ofNat, hpow, Nat.mod_eq_of_lt v.isLt]

theorem writeWord_readWord (o : ByteOrder) {n w : Nat} (hw : w = 8 * n) {bs : List UInt8}
    (hlen : bs.length = n) : writeWord o n (readWord o w bs) = bs := by
  have hpow : 256 ^ n = 2 ^ w := by rw [hw, Nat.pow_mul]
  have hlen' : (o.arrange bs).length = n := by simpa using hlen
  rw [writeWord, readWord, BitVec.toNat_ofNat, ← hpow, natToDigits_mod]
  conv_lhs => rw [← hlen', natToDigits_digitsToNat]
  exact o.arrange_arrange bs

/-- Narrowing a widened word gives the word back, whichever way it was widened. -/
theorem signExtend_signExtend_self {w k : Nat} (h : w ≤ k) (x : BitVec w) :
    (x.signExtend k).signExtend w = x := by
  rw [BitVec.signExtend_eq_setWidth_of_le _ h]
  apply BitVec.eq_of_getLsbD_eq
  intro i hi
  rw [BitVec.getLsbD_setWidth, BitVec.getLsbD_signExtend]
  simp [hi, Nat.lt_of_lt_of_le hi h]

theorem setWidth_signExtend_self {w k : Nat} (h : w ≤ k) (x : BitVec w) :
    (x.setWidth k).signExtend w = x := by
  rw [BitVec.signExtend_eq_setWidth_of_le _ h, BitVec.setWidth_setWidth_of_le _ h,
    BitVec.setWidth_eq]

/-- A one-byte word is its byte, in either order. -/
theorem readWord_singleton (o : ByteOrder) (b : UInt8) : readWord o 8 [b] = b.toBitVec := by
  apply BitVec.eq_of_toNat_eq
  cases o <;> simp [readWord, ByteOrder.arrange, digitsToNat]

end Words
