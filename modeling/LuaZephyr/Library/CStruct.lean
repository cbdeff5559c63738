import LuaZephyr.Library.CString
import LuaZephyr.Library.Patch
import LuaZephyr.Library.Words

/-!
# C structs in byte memory

A struct declaration gives its members their places: each starts at the next multiple of
its alignment, and the struct ends at a multiple of the largest one. `CType.Val` is what a
variable of the type can hold, and `CType.Holds` says that a buffer holds it at a place.
Writing the members of a value one by one makes the buffer hold the value and leaves the
padding alone.
-/

namespace CStruct

open Patch Words

inductive IntWidth where
  | one
  | two
  | four
  | eight
  deriving DecidableEq, Repr

def IntWidth.bytes : IntWidth → Nat
  | .one => 1
  | .two => 2
  | .four => 4
  | .eight => 8

/-- The types of members that are not structs; `chars size` is `char [size]`. -/
inductive Scalar where
  | int (signed : Bool) (width : IntWidth)
  | float
  | double
  | bool
  | chars (size : Nat)
  deriving DecidableEq, Repr

/-- How a platform stores a word of a given number of bytes. -/
structure Abi where
  order : ByteOrder
  align : Nat → Nat
  align_pos : ∀ size, 0 < align size

namespace Scalar

variable (abi : Abi)

def sizeof : Scalar → Nat
  | .int _ width => width.bytes
  | .float => 4
  | .double => 8
  | .bool => 1
  | .chars size => size

def alignof : Scalar → Nat
  | .chars _ => abi.align 1
  | s => abi.align s.sizeof

theorem alignof_pos (s : Scalar) : 0 < s.alignof abi := by
  cases s with
  | _ => exact abi.align_pos _

/-- What a variable of the type holds; of a `char []`, the text before its terminator. -/
@[reducible] def Val : Scalar → Type
  | .int _ width => BitVec (8 * width.bytes)
  | .float => BitVec 32
  | .double => BitVec 64
  | .bool => Bool
  | .chars size => { s : List UInt8 // s.length < size ∧ 0 ∉ s }

/-- The bytes an initialisation with the value leaves. -/
def cells : (s : Scalar) → s.Val → List UInt8
  | .int _ width, v => writeWord abi.order width.bytes v
  | .float, v => writeWord abi.order 4 v
  | .double, v => writeWord abi.order 8 v
  | .bool, v => [if v then 1 else 0]
  | .chars size, v => v.1 ++ List.replicate (size - v.1.length) 0

/-- The bytes are read as the value; what follows a terminator is not looked at. -/
def Reads : (s : Scalar) → List UInt8 → s.Val → Prop
  | .chars _, bs, v => CString.text bs = v.1
  | s, bs, v => bs = s.cells abi v

@[simp] theorem length_cells (s : Scalar) (v : s.Val) : (s.cells abi v).length = s.sizeof := by
  cases s with
  | chars size =>
      have hlt := v.2.1
      simp only [cells, sizeof, List.length_append, List.length_replicate]
      omega
  | bool => rfl
  | _ => exact length_writeWord _ _ _

theorem reads_cells (s : Scalar) (v : s.Val) : s.Reads abi (s.cells abi v) v := by
  cases s with
  | chars size =>
      obtain ⟨text, hlt, hnul⟩ := v
      obtain ⟨k, hk⟩ := Nat.exists_eq_succ_of_ne_zero (Nat.sub_ne_zero_of_lt hlt)
      change CString.text (text ++ List.replicate (size - text.length) 0) = text
      rw [hk, List.replicate_succ]
      exact CString.text_append_zero (fun b hb hzero => hnul (hzero ▸ hb)) _
  | _ => rfl

end Scalar

/-- A scalar, or a struct of members. A member without a name has a place in the struct
and no part in its values. -/
inductive CType where
  | scalar (s : Scalar)
  | struct (members : List (Option (List UInt8) × CType))

abbrev Members := List (Option (List UInt8) × CType)

/-- The first multiple of `a` from `n` on. -/
def roundUp (a n : Nat) : Nat := (n + (a - 1)) / a * a

theorem le_roundUp {a : Nat} (ha : 0 < a) (n : Nat) : n ≤ roundUp a n := by
  have hdiv := Nat.div_add_mod (n + (a - 1)) a
  have hmod := Nat.mod_lt (n + (a - 1)) ha
  rw [roundUp, Nat.mul_comm]
  omega

section Layout

variable (abi : Abi)

mutual

def CType.alignof : CType → Nat
  | .scalar s => s.alignof abi
  | .struct members => alignofMembers members

def alignofMembers : Members → Nat
  | [] => 1
  | (_, type) :: ms => max type.alignof (alignofMembers ms)

end

mutual

def CType.sizeof : CType → Nat
  | .scalar s => s.sizeof
  | .struct members => roundUp (alignofMembers abi members) (endof members 0)

/-- Where the last member ends, when the members before these end at `used`. -/
def endof : Members → Nat → Nat
  | [], used => used
  | (_, type) :: ms, used => endof ms (roundUp (type.alignof abi) used + type.sizeof)

end

/-- `offsetof` of a member of this type after `used` bytes. -/
def CType.offsetof (type : CType) (used : Nat) : Nat := roundUp (type.alignof abi) used

mutual

theorem CType.alignof_pos (type : CType) : 0 < type.alignof abi :=
  match type with
  | .scalar s => s.alignof_pos abi
  | .struct members => alignofMembers_pos members

theorem alignofMembers_pos (ms : Members) : 0 < alignofMembers abi ms :=
  match ms with
  | [] => Nat.one_pos
  | (_, type) :: _ => lt_max_of_lt_left (CType.alignof_pos type)

end

theorem CType.le_offsetof (type : CType) (used : Nat) : used ≤ type.offsetof abi used :=
  le_roundUp (type.alignof_pos abi) used

@[simp] theorem endof_cons (name : Option (List UInt8)) (type : CType) (ms : Members) (used : Nat) :
    endof abi ((name, type) :: ms) used =
      endof abi ms (type.offsetof abi used + type.sizeof abi) := rfl

theorem le_endof (ms : Members) (used : Nat) : used ≤ endof abi ms used := by
  induction ms generalizing used with
  | nil => exact Nat.le_refl used
  | cons m ms ih =>
      calc used ≤ m.2.offsetof abi used := m.2.le_offsetof abi used
        _ ≤ m.2.offsetof abi used + m.2.sizeof abi := Nat.le_add_right _ _
        _ ≤ endof abi (m :: ms) used := ih _

theorem endof_le_sizeof (ms : Members) : endof abi ms 0 ≤ (CType.struct ms).sizeof abi :=
  le_roundUp (alignofMembers_pos abi ms) _

end Layout

mutual

def CType.Val : CType → Type
  | .scalar s => s.Val
  | .struct members => Vals members

def Vals : Members → Type
  | [] => Unit
  | (none, _) :: ms => Vals ms
  | (some _, type) :: ms => type.Val × Vals ms

end

section Memory

variable (abi : Abi) (buf : List UInt8)

mutual

/-- The buffer holds the value at `off`. -/
def CType.Holds : (type : CType) → Nat → type.Val → Prop
  | .scalar s, off, v => off + s.sizeof ≤ buf.length ∧ s.Reads abi (slice buf off s.sizeof) v
  | .struct members, off, v => HoldsMembers members off 0 v

/-- The same for the members of the struct at `base` that come after `used` bytes. -/
def HoldsMembers : (ms : Members) → Nat → Nat → Vals ms → Prop
  | [], _, _, _ => True
  | (none, type) :: ms, base, used, v =>
      HoldsMembers ms base (type.offsetof abi used + type.sizeof abi) v
  | (some _, type) :: ms, base, used, v =>
      type.Holds (base + type.offsetof abi used) v.1 ∧
        HoldsMembers ms base (type.offsetof abi used + type.sizeof abi) v.2

end

end Memory

section Load

variable (abi : Abi) (buf : List UInt8)

def Scalar.load : (s : Scalar) → List UInt8 → Option s.Val
  | .int _ _, bs => some (readWord abi.order _ bs)
  | .float, bs => some (readWord abi.order _ bs)
  | .double, bs => some (readWord abi.order _ bs)
  | .bool, bs => if bs = [0] then some false else if bs = [1] then some true else none
  | .chars size, bs =>
      if h : (CString.text bs).length < size then
        some ⟨CString.text bs, h, fun hnul => CString.ne_zero_of_mem_text hnul rfl⟩
      else none

mutual

/-- The value at `off`, if the bytes there are one. -/
def CType.load : (type : CType) → Nat → Option type.Val
  | .scalar s, off =>
      if off + s.sizeof ≤ buf.length then s.load abi (slice buf off s.sizeof) else none
  | .struct members, off => loadMembers members off 0

def loadMembers : (ms : Members) → Nat → Nat → Option (Vals ms)
  | [], _, _ => some ()
  | (none, type) :: ms, base, used =>
      loadMembers ms base (type.offsetof abi used + type.sizeof abi)
  | (some _, type) :: ms, base, used =>
      (type.load (base + type.offsetof abi used)).bind fun v =>
        (loadMembers ms base (type.offsetof abi used + type.sizeof abi)).map fun vs => (v, vs)

end

variable {abi buf}

theorem load_word_iff {n : Nat} {bs : List UInt8} (hlen : bs.length = n) {v : BitVec (8 * n)} :
    some (readWord abi.order (8 * n) bs) = some v ↔ bs = writeWord abi.order n v := by
  constructor
  · intro h
    rw [← Option.some.inj h, writeWord_readWord abi.order rfl hlen]
  · rintro rfl
    rw [readWord_writeWord abi.order rfl]

theorem Scalar.load_iff {s : Scalar} {bs : List UInt8} (hlen : bs.length = s.sizeof) {v : s.Val} :
    s.load abi bs = some v ↔ s.Reads abi bs v := by
  cases s with
  | int signed width => exact load_word_iff hlen
  | float => exact load_word_iff hlen
  | double => exact load_word_iff hlen
  | bool =>
      change (if bs = [0] then some false else if bs = [1] then some true else none) = some v ↔
        bs = [if v then 1 else 0]
      cases v with
      | false => simp
      | true =>
          by_cases hzero : bs = [0]
          · simp [hzero]
          · simp [hzero]
  | chars size =>
      obtain ⟨text, hlt, hnul⟩ := v
      change dite _ _ _ = _ ↔ CString.text bs = text
      constructor
      · intro h
        split at h
        · exact congrArg Subtype.val (Option.some.inj h)
        · contradiction
      · rintro rfl
        exact dif_pos hlt

mutual

theorem CType.load_iff (type : CType) {off : Nat} {v : type.Val} :
    type.load abi buf off = some v ↔ type.Holds abi buf off v :=
  match type with
  | .scalar s => by
      by_cases hlen : off + s.sizeof ≤ buf.length
      · have hload : CType.load abi buf (.scalar s) off = s.load abi (slice buf off s.sizeof) :=
          if_pos hlen
        rw [hload]
        exact (Scalar.load_iff (length_slice hlen)).trans (and_iff_right hlen).symm
      · have hload : CType.load abi buf (.scalar s) off = none := if_neg hlen
        rw [hload]
        exact ⟨nofun, fun h => absurd h.1 hlen⟩
  | .struct members => loadMembers_iff members

/-- What is read is what the buffer holds. -/
theorem loadMembers_iff (ms : Members) {base used : Nat} {v : Vals ms} :
    loadMembers abi buf ms base used = some v ↔ HoldsMembers abi buf ms base used v :=
  match ms with
  | [] => ⟨fun _ => trivial, fun _ => rfl⟩
  | (none, _) :: ms => loadMembers_iff ms
  | (some _, type) :: ms => by
      rw [loadMembers, Option.bind_eq_some_iff]
      constructor
      · rintro ⟨w, hw, h⟩
        obtain ⟨ws, hws, rfl⟩ := Option.map_eq_some_iff.mp h
        exact ⟨(CType.load_iff type).mp hw, (loadMembers_iff ms).mp hws⟩
      · rintro ⟨hw, hws⟩
        exact ⟨v.1, (CType.load_iff type).mpr hw,
          Option.map_eq_some_iff.mpr ⟨v.2, (loadMembers_iff ms).mpr hws, rfl⟩⟩

end

end Load

section Frame

variable {abi : Abi} {a b : List UInt8}

mutual

/-- A value is held by its own bytes alone. -/
theorem CType.Holds.congr {type : CType} {off : Nat} {v : type.Val}
    (hlen : a.length = b.length)
    (hab : ∀ i, off ≤ i → i < off + type.sizeof abi → a[i]? = b[i]?)
    (h : type.Holds abi a off v) : type.Holds abi b off v :=
  match type with
  | .scalar s => ⟨hlen ▸ h.1, slice_congr hab ▸ h.2⟩
  | .struct members => HoldsMembers.congr hlen
      (fun i hi hi' => hab i hi (by have hend := endof_le_sizeof abi members; omega)) h

theorem HoldsMembers.congr {ms : Members} {base used : Nat} {v : Vals ms}
    (hlen : a.length = b.length)
    (hab : ∀ i, base + used ≤ i → i < base + endof abi ms used → a[i]? = b[i]?)
    (h : HoldsMembers abi a ms base used v) : HoldsMembers abi b ms base used v :=
  match ms with
  | [] => trivial
  | (none, type) :: ms => by
      have hoff := type.le_offsetof abi used
      rw [endof_cons] at hab
      have hrest : HoldsMembers abi b ms base (type.offsetof abi used + type.sizeof abi) v :=
        HoldsMembers.congr hlen (fun i hi hi' => hab i (by omega) hi') h
      exact hrest
  | (some _, type) :: ms => by
      have hoff := type.le_offsetof abi used
      have hend := le_endof abi ms (type.offsetof abi used + type.sizeof abi)
      rw [endof_cons] at hab
      refine ⟨CType.Holds.congr hlen (fun i hi hi' => hab i ?_ ?_) h.1,
        HoldsMembers.congr hlen (fun i hi hi' => hab i ?_ hi') h.2⟩
      · omega
      · omega
      · omega

end

end Frame

section Writing

variable (abi : Abi)

mutual

/-- One write for each scalar. -/
def CType.writes : (type : CType) → Nat → type.Val → List (Write UInt8)
  | .scalar s, off, v => [⟨off, s.cells abi v⟩]
  | .struct members, off, v => writesMembers members off 0 v

def writesMembers : (ms : Members) → Nat → Nat → Vals ms → List (Write UInt8)
  | [], _, _, _ => []
  | (none, type) :: ms, base, used, v =>
      writesMembers ms base (type.offsetof abi used + type.sizeof abi) v
  | (some _, type) :: ms, base, used, v =>
      type.writes (base + type.offsetof abi used) v.1 ++
        writesMembers ms base (type.offsetof abi used + type.sizeof abi) v.2

end

mutual

/-- The byte belongs to a scalar: it is not padding. -/
def CType.Owns : CType → Nat → Nat → Prop
  | .scalar s, off, i => off ≤ i ∧ i < off + s.sizeof
  | .struct members, off, i => MembersOwn members off 0 i

def MembersOwn : Members → Nat → Nat → Nat → Prop
  | [], _, _, _ => False
  | (none, type) :: ms, base, used, i =>
      MembersOwn ms base (type.offsetof abi used + type.sizeof abi) i
  | (some _, type) :: ms, base, used, i =>
      type.Owns (base + type.offsetof abi used) i ∨
        MembersOwn ms base (type.offsetof abi used + type.sizeof abi) i

end

variable {abi}

mutual

/-- Padding is not written. -/
theorem CType.owns_of_mem_writes {type : CType} {off : Nat} {v : type.Val} {w : Write UInt8}
    (hw : w ∈ type.writes abi off v) {i : Nat} (hi : w.Covers i) : type.Owns abi off i :=
  match type with
  | .scalar s => by
      obtain rfl := List.mem_singleton.mp hw
      exact ⟨hi.1, (s.length_cells abi v) ▸ hi.2⟩
  | .struct _ => membersOwn_of_mem_writes hw hi

theorem membersOwn_of_mem_writes {ms : Members} {base used : Nat} {v : Vals ms}
    {w : Write UInt8} (hw : w ∈ writesMembers abi ms base used v) {i : Nat} (hi : w.Covers i) :
    MembersOwn abi ms base used i :=
  match ms with
  | [] => absurd hw List.not_mem_nil
  | (none, type) :: ms => by
      have hrest : w ∈ writesMembers abi ms base (type.offsetof abi used + type.sizeof abi) v := hw
      have hown := membersOwn_of_mem_writes hrest hi
      exact hown
  | (some _, _) :: _ =>
      (List.mem_append.mp hw).elim (fun hhere => .inl (CType.owns_of_mem_writes hhere hi))
        (fun hrest => .inr (membersOwn_of_mem_writes hrest hi))

end

mutual

theorem CType.Owns.range {type : CType} {off i : Nat} (h : type.Owns abi off i) :
    off ≤ i ∧ i < off + type.sizeof abi :=
  match type with
  | .scalar _ => h
  | .struct members => by
      have hrange := MembersOwn.range h
      have hend := endof_le_sizeof abi members
      omega

theorem MembersOwn.range {ms : Members} {base used i : Nat}
    (h : MembersOwn abi ms base used i) : base + used ≤ i ∧ i < base + endof abi ms used :=
  match ms with
  | (none, type) :: ms => by
      have hoff := type.le_offsetof abi used
      have hrest : MembersOwn abi ms base (type.offsetof abi used + type.sizeof abi) i := h
      have hrange := hrest.range
      rw [endof_cons]
      omega
  | (some _, type) :: ms => by
      have hoff := type.le_offsetof abi used
      have hend := le_endof abi ms (type.offsetof abi used + type.sizeof abi)
      rw [endof_cons]
      obtain hhere | hrest := h
      · have hrange := CType.Owns.range hhere
        omega
      · have hrange := MembersOwn.range hrest
        omega

end

mutual

theorem CType.writes_within (type : CType) {off n : Nat} (v : type.Val)
    (h : off + type.sizeof abi ≤ n) : AllWithin (type.writes abi off v) n :=
  match type with
  | .scalar s => fun w hw => by
      obtain rfl := List.mem_singleton.mp hw
      exact (congrArg (off + ·) (s.length_cells abi v)).trans_le h
  | .struct members => writesMembers_within members v
      ((Nat.add_le_add_left (endof_le_sizeof abi members) off).trans h)

theorem writesMembers_within (ms : Members) {base used n : Nat} (v : Vals ms)
    (h : base + endof abi ms used ≤ n) : AllWithin (writesMembers abi ms base used v) n :=
  match ms with
  | [] => fun _ hw => absurd hw List.not_mem_nil
  | (none, _) :: ms => writesMembers_within ms v h
  | (some _, type) :: ms => by
      have hend := le_endof abi ms (type.offsetof abi used + type.sizeof abi)
      rw [endof_cons] at h
      exact (CType.writes_within type v.1 (by omega)).append (writesMembers_within ms v.2 h)

end

/-- Only the bytes of scalars change. -/
theorem getElem?_putAll_writesMembers {b : List UInt8} {ms : Members} {base used : Nat}
    (v : Vals ms) (h : base + endof abi ms used ≤ b.length) {i : Nat}
    (hi : ¬ MembersOwn abi ms base used i) :
    (putAll b (writesMembers abi ms base used v))[i]? = b[i]? :=
  getElem?_putAll_of_uncovered (writesMembers_within ms v h)
    fun _ hw hcovers => hi (membersOwn_of_mem_writes hw hcovers)

mutual

theorem CType.holds_putAll (type : CType) {b : List UInt8} {off : Nat} (v : type.Val)
    (h : off + type.sizeof abi ≤ b.length) :
    type.Holds abi (putAll b (type.writes abi off v)) off v :=
  match type with
  | .scalar s => by
      have hlen := s.length_cells abi v
      have hstop : (Write.mk off (s.cells abi v)).stop ≤ b.length :=
        (congrArg (off + ·) hlen).trans_le h
      refine ⟨(length_put hstop).symm ▸ h, ?_⟩
      have hslice := slice_put_self hstop
      rw [hlen] at hslice
      exact hslice.symm ▸ s.reads_cells abi v
  | .struct members => holdsMembers_putAll members v
      ((Nat.add_le_add_left (endof_le_sizeof abi members) off).trans h)

/-- After its members were written the buffer holds the value. -/
theorem holdsMembers_putAll (ms : Members) {b : List UInt8} {base used : Nat} (v : Vals ms)
    (h : base + endof abi ms used ≤ b.length) :
    HoldsMembers abi (putAll b (writesMembers abi ms base used v)) ms base used v :=
  match ms with
  | [] => trivial
  | (none, _) :: ms => holdsMembers_putAll ms v h
  | (some _, type) :: ms => by
      have hend := le_endof abi ms (type.offsetof abi used + type.sizeof abi)
      rw [endof_cons] at h
      have hfirst : base + type.offsetof abi used + type.sizeof abi ≤ b.length := by omega
      have hlen : (putAll b (type.writes abi (base + type.offsetof abi used) v.1)).length =
          b.length := length_putAll (CType.writes_within type v.1 hfirst)
      have hrest : base + endof abi ms (type.offsetof abi used + type.sizeof abi) ≤
          (putAll b (type.writes abi (base + type.offsetof abi used) v.1)).length := hlen ▸ h
      rw [writesMembers, putAll_append]
      refine ⟨(CType.holds_putAll type v.1 hfirst).congr ?_ ?_, holdsMembers_putAll ms v.2 hrest⟩
      · exact (length_putAll (writesMembers_within ms v.2 hrest)).symm
      · -- the members that follow lie behind this one
        intro i _ hi
        refine (getElem?_putAll_writesMembers v.2 hrest fun hown => ?_).symm
        have hrange := hown.range
        omega

end

end Writing

end CStruct
