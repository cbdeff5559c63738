import LuaZephyr.MsgDescr.Decode
import LuaZephyr.MsgDescr.Encode
import LuaZephyr.MsgDescr.WellFormed

/-!
# The stack of the two conversions

Both conversions are followed with the field accesses they make and the slots they use.
Every access goes to the table of its own level: the one found under the key of the
enclosing object, or the one that is being filled. A descriptor with `d` levels takes at
most `d` slots to decode and one more to encode.
-/

namespace LuaZephyr

open Outcome

variable {β : Type} (tgt : Target)

mutual

def fieldDepth : LuaMsgFieldDescr → Nat
  | ⟨_, type, _, _, subFields⟩ =>
    match type with
    | .object => depth subFields
    | _ => 0

/-- The levels of a descriptor; a flat array has one. -/
def depth : List LuaMsgFieldDescr → Nat
  | [] => 1
  | f :: fs => max (fieldDepth f + 1) (depth fs)

end

mutual

def fieldAccesses : LuaMsgFieldDescr → Value → List (Value × Bytes)
  | ⟨_, type, _, _, subFields⟩, v =>
    match type with
    | .object => tableAccesses subFields v
    | _ => []

/-- The accesses of the decoder, up to the first indexing error: those of an object are to
the value found under its key. -/
def tableAccesses : List LuaMsgFieldDescr → Value → List (Value × Bytes)
  | [], _ => []
  | f :: fs, t =>
      (t, f.fieldName) :: match tgt.index t f.fieldName with
        | .ok v => (if v.isNil then [] else fieldAccesses f v) ++ tableAccesses fs t
        | .error _ => []

end

mutual

def fieldSetAccesses (buf : Bytes) : LuaMsgFieldDescr → Nat → List (Value × Bytes)
  | ⟨_, type, offset, _, subFields⟩, base =>
    match type with
    | .object => setAccesses buf subFields (base + offset.toNat) []
    | _ => []

/-- The accesses of the encoder, up to the first read out of bounds: each is to the table
with the entries `acc` its own level has so far. -/
def setAccesses (buf : Bytes) : List LuaMsgFieldDescr → Nat → Entries → List (Value × Bytes)
  | [], _, _ => []
  | f :: fs, base, acc =>
      fieldSetAccesses buf f base ++ match fieldValue tgt buf f base with
        | some v =>
            (.table acc none, f.fieldName) :: setAccesses buf fs base (rawSet acc f.fieldName v)
        | none => []

end

def Value.isTable : Value → Bool
  | .table _ _ => true
  | _ => false

mutual

def FieldHoldsTable : LuaMsgFieldDescr → Value → Prop
  | ⟨_, type, _, _, subFields⟩, v =>
    match type with
    | .object => v = .nil ∨ (v.isTable = true ∧ ObjectsHoldTables subFields v)
    | _ => True

/-- The keys of the objects hold nil or a table, at every level. -/
def ObjectsHoldTables : List LuaMsgFieldDescr → Value → Prop
  | [], _ => True
  | f :: fs, t =>
      (match tgt.index t f.fieldName with
        | .ok v => FieldHoldsTable f v
        | .error _ => True) ∧ ObjectsHoldTables fs t

end

/-- `m` makes the accesses `todo` in order, uses at most `height` slots above the top, and
returns in a state that satisfies `post`. When it stops early it has made the first of
these accesses. -/
def Disciplined (m : LuaM β Unit) (s : State β) (todo : List (Value × Bytes)) (height : Nat)
    (post : State β → Prop) : Prop :=
  wp m
    (fun _ t => post t ∧ t.accesses = s.accesses ++ todo ∧
      t.peak ≤ max s.peak (s.stack.length + height))
    (fun _ t => (∃ done, done <+: todo ∧ t.accesses = s.accesses ++ done) ∧
      t.peak ≤ max s.peak (s.stack.length + height)) s

/-- A step that stops before it has accessed anything. -/
theorem nothingDone {s t : State β} {todo : List (Value × Bytes)} {height : Nat}
    (haccesses : t.accesses = s.accesses) (hpeak : t.peak = s.peak) :
    (∃ done, done <+: todo ∧ t.accesses = s.accesses ++ done) ∧
      t.peak ≤ max s.peak (s.stack.length + height) :=
  ⟨⟨[], List.nil_prefix, by rw [haccesses, List.append_nil]⟩, by omega⟩

namespace Disciplined

variable {m m' : LuaM β Unit} {s : State β} {todo todo' : List (Value × Bytes)}
variable {height height' : Nat} {mid post : State β → Prop}

theorem weaken (h : Disciplined m s todo height mid) (hheight : height ≤ height')
    (hpost : ∀ t, mid t → post t) : Disciplined m s todo height' post := by
  apply wp.mono h
  · rintro _ t ⟨hmid, haccesses, hpeak⟩
    exact ⟨hpost t hmid, haccesses, by omega⟩
  · rintro e t ⟨hdone, hpeak⟩
    exact ⟨hdone, by omega⟩

/-- Sequencing appends the accesses; the slots are shared. -/
theorem seq (h : Disciplined m s todo height mid)
    (h' : ∀ t, mid t → ∃ j, t.stack.length + j ≤ s.stack.length + height ∧
      Disciplined m' t todo' j post) :
    Disciplined (do m; m') s (todo ++ todo') height post := by
  apply wp_bind.mpr
  apply wp.mono h
  · rintro _ t ⟨hmid, haccesses, hpeak⟩
    obtain ⟨j, hj, hrest⟩ := h' t hmid
    apply wp.mono hrest
    · rintro _ u ⟨hpost, haccesses', hpeak'⟩
      exact ⟨hpost, by rw [haccesses', haccesses, List.append_assoc], by omega⟩
    · rintro e u ⟨⟨done, hdone, haccesses'⟩, hpeak'⟩
      refine ⟨⟨todo ++ done, (List.prefix_append_right_inj todo).mpr hdone, ?_⟩, by omega⟩
      rw [haccesses', haccesses, List.append_assoc]
  · rintro e t ⟨⟨done, hdone, haccesses⟩, hpeak⟩
    exact ⟨⟨done, hdone.trans (List.prefix_append _ _), haccesses⟩, hpeak⟩

/-- A value read from the stack, then the work on it. -/
theorem of_value {α : Type} {read : LuaM β α} {a : α} {f : α → LuaM β Unit}
    (hread : ∀ (Q : α → State β → Prop) (E : Exn → State β → Prop), wp read Q E s ↔ Q a s)
    (h : Disciplined (f a) s todo height post) :
    Disciplined (do let x ← read; f x) s todo height post :=
  wp_bind.mpr ((hread _ _).mpr h)

/-- A load, then the work on what was loaded. -/
theorem of_reads {α : Type} {read : LuaM β α} {value : Option α} {f : α → LuaM β Unit}
    (h : Reads read s value) (h' : ∀ a, Disciplined (f a) s todo height post) :
    Disciplined (do let a ← read; f a) s todo height post := by
  apply wp_bind.mpr
  apply h.mono
  · rintro a t ⟨rfl, -⟩
    exact h' a
  · rintro e t ⟨rfl, -, -⟩
    exact nothingDone rfl rfl

/-- What the encoder computes is known of the state it returns in. -/
theorem and_encodes {k : Nat} {result : Option (List Value)}
    (h : Disciplined m s todo height mid) (hencodes : Encodes m s k result) :
    Disciplined m s todo height (fun t => result = some t.stack ∧ s.Untouched t) := by
  apply (wp.and h hencodes).mono
  · rintro _ t ⟨⟨-, hrest⟩, hresult, huntouched, -⟩
    exact ⟨⟨hresult, huntouched⟩, hrest⟩
  · exact fun _ _ h => h.1

theorem pushValue (v : Value) (s : State β) :
    Disciplined (LuaZephyr.pushValue v) s [] 1 (fun _ => True) :=
  ⟨trivial, by rw [List.append_nil], Nat.le_refl _⟩

theorem allocating_push (v : Value) (s : State β) :
    Disciplined (do allocating; LuaZephyr.pushValue v) s [] 1 (fun _ => True) := by
  unfold Disciplined
  rw [wp_bind, wp_allocating]
  split
  · exact nothingDone rfl rfl
  · exact ⟨trivial, by rw [List.append_nil], Nat.le_refl _⟩

theorem luaPop (n : Nat) (s : State β) :
    Disciplined (LuaZephyr.luaPop n) s [] 0 (fun t => t.stack = s.stack.drop n) :=
  ⟨rfl, by rw [List.append_nil], Nat.le_max_left _ _⟩

/-- The value of a field is on top afterwards. -/
theorem luaGetfield {idx : Int} {t : Value} (h : valueAt s.stack idx = some t) (key : Bytes) :
    Disciplined (LuaZephyr.luaGetfield tgt idx key) s [(t, key)] 1
      (fun u => ∃ v, tgt.index t key = .ok v ∧ u.stack = v :: s.stack) := by
  unfold Disciplined
  rw [wp_luaGetfield h, wp_allocating]
  split
  · exact ⟨⟨_, List.prefix_rfl, rfl⟩, Nat.le_max_left _ _⟩
  · cases tgt.index t key with
    | error err => exact ⟨⟨_, List.prefix_rfl, rfl⟩, Nat.le_max_left _ _⟩
    | ok v => exact ⟨⟨v, rfl, rfl⟩, rfl, Nat.le_refl _⟩

theorem luaSetfield {v : Value} {es : Entries} {mt : Option Nat} {rest : List Value}
    (h : s.stack = v :: .table es mt :: rest) (key : Bytes) :
    Disciplined (LuaZephyr.luaSetfield (-2) key) s [(.table es mt, key)] 0 (fun _ => True) := by
  unfold Disciplined
  rw [wp_luaSetfield h, wp_allocating]
  split
  · exact ⟨⟨_, List.prefix_rfl, rfl⟩, Nat.le_max_left _ _⟩
  · exact ⟨trivial, rfl, Nat.le_max_left _ _⟩

end Disciplined

/-- `m` leaves the stack alone and accesses no field. -/
def Still {α : Type} (m : LuaM β α) : Prop :=
  ∀ s, wp m (fun _ t => t.stack = s.stack ∧ t.accesses = s.accesses ∧ t.peak = s.peak)
    (fun _ t => t.accesses = s.accesses ∧ t.peak = s.peak) s

namespace Still

variable {α γ : Type}

theorem pure (a : α) : Still (Pure.pure a : LuaM β α) := fun _ => ⟨rfl, rfl, rfl⟩

theorem throw (e : Exn) : Still (MonadExcept.throw e : LuaM β α) := fun _ => ⟨rfl, rfl⟩

theorem bind {m : LuaM β α} {f : α → LuaM β γ} (hm : Still m) (hf : ∀ a, Still (f a)) :
    Still (m >>= f) := by
  intro s
  apply wp_bind.mpr
  apply (hm s).mono
  · rintro a t ⟨hstack, haccesses, hpeak⟩
    apply (hf a t).mono
    · rintro b u ⟨hstack', haccesses', hpeak'⟩
      exact ⟨hstack'.trans hstack, haccesses'.trans haccesses, hpeak'.trans hpeak⟩
    · rintro e u ⟨haccesses', hpeak'⟩
      exact ⟨haccesses'.trans haccesses, hpeak'.trans hpeak⟩
  · exact fun _ _ h => h

theorem blockAt (p : Ptr) : Still (LuaZephyr.blockAt p : LuaM β Bytes) := by
  intro s
  unfold LuaZephyr.blockAt
  refine wp_bind.mpr (wp_get.mpr ?_)
  split
  · exact ⟨rfl, rfl, rfl⟩
  · exact ⟨rfl, rfl⟩

theorem storeBytes (p : Ptr) (cells : Bytes) :
    Still (LuaZephyr.storeBytes p cells : LuaM β Unit) := by
  refine (blockAt p).bind fun bs => ?_
  split
  · exact fun _ => ⟨rfl, rfl, rfl⟩
  · exact .throw _

theorem storeInteger (p : Ptr) (size : UInt8) (val : LuaInteger) :
    Still (LuaZephyr.storeInteger tgt p size val : LuaM β Unit) := by
  unfold LuaZephyr.storeInteger
  split
  · exact storeBytes _ _
  · exact storeBytes _ _
  · exact storeBytes _ _
  · exact storeBytes _ _
  · exact .pure _

theorem storeNumber (p : Ptr) (size : UInt8) (val : LuaNumber) :
    Still (LuaZephyr.storeNumber tgt p size val : LuaM β Unit) := by
  unfold LuaZephyr.storeNumber
  split
  · exact storeBytes _ _
  · exact storeBytes _ _

theorem storeStringBuf (p : Ptr) (size : UInt8) (text : Bytes) :
    Still (LuaZephyr.storeStringBuf p size text : LuaM β Unit) := by
  unfold LuaZephyr.storeStringBuf
  split
  · exact .throw _
  · exact (storeBytes _ _).bind fun _ => storeBytes _ _

end Still

/-- Such a step needs no slot. -/
theorem Still.disciplined {m : LuaM β Unit} (h : Still m) (s : State β) :
    Disciplined m s [] 0 (fun t => t.stack = s.stack) := by
  apply (h s).mono
  · rintro _ t ⟨hstack, haccesses, hpeak⟩
    exact ⟨hstack, by rw [haccesses, List.append_nil], by omega⟩
  · rintro e t ⟨haccesses, hpeak⟩
    exact nothingDone haccesses hpeak

/-- A number on top is replaced by its text; what lies below stays. -/
theorem wp_luaTostring_below {v : Value} {rest : List Value} {s : State β}
    (hstack : s.stack = v :: rest) :
    wp (luaTostring tgt (-1))
      (fun _ t => t.stack.drop 1 = rest ∧ t.accesses = s.accesses ∧ t.peak = s.peak)
      (fun _ t => t.accesses = s.accesses ∧ t.peak = s.peak) s := by
  have hdrop : s.stack.drop 1 = rest := by rw [hstack]; rfl
  refine (wp_luaTostring_top hstack).mpr ?_
  split
  · exact ⟨hdrop, rfl, rfl⟩
  · split
    · refine wp_allocating.mpr ?_
      split
      · exact ⟨rfl, rfl⟩
      · exact ⟨rfl, rfl, rfl⟩
    · exact ⟨hdrop, rfl, rfl⟩

theorem Disciplined.tostring {v : Value} {rest : List Value} {s : State β}
    {f : Option Bytes → LuaM β Unit} (hstack : s.stack = v :: rest) (hf : ∀ text, Still (f text)) :
    Disciplined (do let text ← luaTostring tgt (-1); f text) s [] 0
      (fun t => t.stack.drop 1 = rest) := by
  apply wp_bind.mpr
  apply (wp_luaTostring_below tgt hstack).mono
  · rintro text t ⟨hdrop, haccesses, hpeak⟩
    apply (hf text t).mono
    · rintro _ u ⟨hstack', haccesses', hpeak'⟩
      refine ⟨(congrArg (List.drop 1) hstack').trans hdrop, ?_, by omega⟩
      rw [haccesses', haccesses, List.append_nil]
    · rintro e u ⟨haccesses', hpeak'⟩
      exact nothingDone (haccesses'.trans haccesses) (hpeak'.trans hpeak)
  · rintro e t ⟨haccesses, hpeak⟩
    exact nothingDone haccesses hpeak

mutual

/-- The value of a field is on top of the stack and may be replaced there. -/
theorem fieldFromTable_disciplined {v : Value} {rest : List Value} (f : LuaMsgFieldDescr)
    (base : Ptr) (s : State β) (hstack : s.stack = v :: rest) :
    Disciplined (fieldFromTable tgt f base) s (fieldAccesses tgt f v) (fieldDepth f)
      (fun t => t.stack.drop 1 = rest) := by
  obtain ⟨name, type, offset, size, subFields⟩ := f
  have htop : valueAt s.stack (-1) = some v := by rw [hstack, valueAt_top]
  have hstill {m : LuaM β Unit} (hm : Still m) :
      Disciplined m s [] 0 (fun t => t.stack.drop 1 = rest) :=
    (hm.disciplined s).weaken (Nat.le_refl _) fun t ht => by rw [ht, hstack]; rfl
  cases type with
  | int => exact .of_value (fun _ _ => wp_luaTointeger htop) (hstill (.storeInteger tgt _ _ _))
  | uint => exact .of_value (fun _ _ => wp_luaTointeger htop) (hstill (.storeInteger tgt _ _ _))
  | number => exact .of_value (fun _ _ => wp_luaTonumber htop) (hstill (.storeNumber tgt _ _ _))
  | string =>
      refine Disciplined.tostring tgt hstack fun text => ?_
      split
      · exact .storeBytes _ _
      · exact .storeBytes _ _
  | stringBuf =>
      refine Disciplined.tostring tgt hstack fun text => ?_
      split
      · exact .storeStringBuf _ _ _
      · exact .pure _
  | bool => exact .of_value (fun _ _ => wp_luaToboolean htop) (hstill (.storeBytes _ _))
  | object =>
      apply Disciplined.of_value (fun _ _ => wp_luaAbsindex_top)
      have hnested : valueAt s.stack (s.stack.length : Nat) = some v := by
        rw [hstack, valueAt_length]
      have h := luaMsgDescrFromTable_disciplined subFields (base.add offset.toNat) s hnested
      exact h.weaken (Nat.le_refl _) fun t ht => by rw [ht, hstack]; rfl

/-- The loop accesses the value at `idx` whatever lies above it. -/
theorem luaMsgDescrFromTable_disciplined {idx : Int} {t : Value} (fs : List LuaMsgFieldDescr)
    (base : Ptr) (s : State β) (hidx : valueAt s.stack idx = some t) :
    Disciplined (luaMsgDescrFromTable tgt fs base idx) s (tableAccesses tgt fs t) (depth fs)
      (fun u => u.stack = s.stack) := by
  cases fs with
  | nil => exact ((Still.pure ⟨⟩).disciplined s).weaken (Nat.zero_le _) fun _ h => h
  | cons f fs =>
      have hfirst : fieldDepth f + 1 ≤ depth (f :: fs) := Nat.le_max_left _ _
      have hothers : depth fs ≤ depth (f :: fs) := Nat.le_max_right _ _
      have hrest (u : State β) (hu : u.stack = s.stack) :
          Disciplined (luaMsgDescrFromTable tgt fs base idx) u (tableAccesses tgt fs t) (depth fs)
            (fun w => w.stack = s.stack) := by
        have h := luaMsgDescrFromTable_disciplined fs base u (by rw [hu]; exact hidx)
        rwa [hu] at h
      unfold luaMsgDescrFromTable
      have hget := Disciplined.luaGetfield tgt hidx f.fieldName
      refine (hget.weaken (by omega) fun _ h => h).seq ?_
      rintro u ⟨v, hindex, hstack⟩
      have hlength : u.stack.length = s.stack.length + 1 := by rw [hstack, List.length_cons]
      refine ⟨depth (f :: fs) - 1, by omega, ?_⟩
      have htop : valueAt u.stack (-1) = some v := by rw [hstack, valueAt_top]
      apply Disciplined.of_value (fun _ _ => wp_luaIsnil htop)
      have hpop (w : State β) (hw : w.stack.drop 1 = s.stack) :
          Disciplined (luaPop 1) w [] 0 (fun x => x.stack = s.stack) :=
        (Disciplined.luaPop 1 w).weaken (Nat.le_refl _) fun x hx => hx.trans hw
      rw [hindex]
      change Disciplined _ u ((if v.isNil then [] else fieldAccesses tgt f v) ++ _) _ _
      cases v.isNil with
      | true =>
          have hpopped := hpop u (by rw [hstack]; rfl)
          refine (hpopped.weaken (Nat.zero_le _) fun _ h => h).seq fun w hw => ?_
          exact ⟨depth fs, by rw [hw]; omega, hrest w hw⟩
      | false =>
          have hfield := (fieldFromTable_disciplined f base u hstack).seq fun w hw => by
            have hbelow := congrArg List.length hw
            rw [List.length_drop] at hbelow
            exact ⟨0, by omega, hpop w hw⟩
          rw [List.append_nil] at hfield
          have hroom : fieldDepth f ≤ depth (f :: fs) - 1 := by omega
          have h := (hfield.weaken hroom fun _ h => h).seq fun w hw =>
            ⟨depth fs, by rw [hw]; omega, hrest w hw⟩
          rw [bind_assoc] at h
          exact h

end

/-- A new table takes a slot under those of its own level. -/
theorem Disciplined.newtable {k : LuaM β Unit} {s : State β} {todo : List (Value × Bytes)}
    {height : Nat} {post : State β → Prop}
    (h : ∀ t : State β, t.stack = .table [] none :: s.stack → t.heap = s.heap →
      Disciplined k t todo height post) :
    Disciplined (do luaNewtable; k) s todo (height + 1) post := by
  have hnew := (Disciplined.allocating_push (.table [] none) s).and_encodes
    (Encodes.luaNewtable s)
  have hroom : 1 ≤ height + 1 := Nat.le_add_left _ _
  refine (hnew.weaken hroom fun _ h => h).seq fun t ht => ?_
  obtain ⟨htop, huntouched⟩ := ht
  replace htop := (Option.some.inj htop).symm
  exact ⟨height, by rw [htop, List.length_cons]; omega, h t htop huntouched.heap⟩

mutual

/-- One slot for the value of the field, and those of the levels in it. -/
theorem fieldToTable_disciplined {block : Nat} {buf : Bytes} (f : LuaMsgFieldDescr) (base : Nat)
    (s : State β) (hblock : s.heap.blocks block = some buf) :
    Disciplined (fieldToTable tgt f ⟨block, base⟩) s (fieldSetAccesses tgt buf f base)
      (fieldDepth f + 1) (fun _ => True) := by
  obtain ⟨name, type, offset, size, subFields⟩ := f
  have hptr : s.heap.blocks ((Ptr.mk block base).add offset.toNat).block = some buf := hblock
  cases type with
  | int => exact .of_reads (loadInteger_reads tgt hptr _ size) fun _ => .pushValue _ s
  | uint => exact .of_reads (loadInteger_reads tgt hptr _ size) fun _ => .pushValue _ s
  | number => exact .of_reads (loadNumber_reads tgt hptr size) fun _ => .pushValue _ s
  | string =>
      refine .of_reads (loadPointer_reads tgt hptr) fun address => ?_
      unfold pushStringAt
      split
      · exact .pushValue _ s
      · split
        · exact .allocating_push _ s
        · exact nothingDone rfl rfl
  | stringBuf => exact .of_reads (loadText_reads hptr) fun _ => .allocating_push _ s
  | bool => exact .of_reads (loadBool_reads tgt hptr) fun _ => .pushValue _ s
  | object =>
      refine Disciplined.newtable fun t htop hheap => ?_
      exact fieldsToTable_disciplined subFields (base + offset.toNat) t
        (by rw [hheap]; exact hblock) htop

/-- The loop fills the table on top of the stack. -/
theorem fieldsToTable_disciplined {block : Nat} {buf : Bytes} {es : Entries} {rest : List Value}
    (fs : List LuaMsgFieldDescr) (base : Nat) (s : State β)
    (hblock : s.heap.blocks block = some buf) (hstack : s.stack = .table es none :: rest) :
    Disciplined (fieldsToTable tgt fs ⟨block, base⟩) s (setAccesses tgt buf fs base es) (depth fs)
      (fun _ => True) := by
  cases fs with
  | nil =>
      exact ((Still.pure ⟨⟩).disciplined s).weaken (Nat.zero_le _) fun _ _ => trivial
  | cons f fs =>
      have hfirst : fieldDepth f + 1 ≤ depth (f :: fs) := Nat.le_max_left _ _
      have hothers : depth fs ≤ depth (f :: fs) := Nat.le_max_right _ _
      have hvalue := (fieldToTable_disciplined f base s hblock).and_encodes
        (fieldToTable_encodes tgt f base s hblock)
      refine (hvalue.weaken hfirst fun _ h => h).seq fun t ht => ?_
      obtain ⟨v, hv, hpush⟩ := Option.map_eq_some_iff.mp ht.1
      have htop : t.stack = v :: .table es none :: rest := by rw [← hpush, hstack]
      have hlength : t.stack.length = s.stack.length + 1 := by rw [htop, hstack]; rfl
      refine ⟨depth (f :: fs) - 1, by omega, ?_⟩
      rw [hv]
      have hset := (Disciplined.luaSetfield htop f.fieldName).and_encodes
        (Encodes.luaSetfield htop)
      refine (hset.weaken (Nat.zero_le _) fun _ h => h).seq fun u hu => ?_
      have htable := (Option.some.inj hu.1).symm
      refine ⟨depth fs, by rw [htable, hlength, hstack]; simp only [List.length_cons]; omega, ?_⟩
      exact fieldsToTable_disciplined fs base u
        (by rw [hu.2.heap, ht.2.heap]; exact hblock) htable

end

/-- One slot for the table of the message. -/
theorem luaMsgDescrToTable_disciplined {block : Nat} {buf : Bytes}
    (fields : List LuaMsgFieldDescr) (base : Nat) (s : State β)
    (hblock : s.heap.blocks block = some buf) :
    Disciplined (luaMsgDescrToTable tgt fields ⟨block, base⟩) s
      (setAccesses tgt buf fields base []) (depth fields + 1) (fun _ => True) := by
  refine Disciplined.newtable fun t htop hheap => ?_
  exact fieldsToTable_disciplined tgt fields base t (by rw [hheap]; exact hblock) htop

mutual

theorem isTable_of_mem_fieldAccesses {f : LuaMsgFieldDescr} {v : Value} (hnil : v.isNil = false)
    (h : FieldHoldsTable tgt f v) {a : Value × Bytes} (ha : a ∈ fieldAccesses tgt f v) :
    a.1.isTable = true := by
  obtain ⟨name, type, offset, size, subFields⟩ := f
  cases type with
  | object =>
      obtain rfl | ⟨hv, hsub⟩ := h
      · contradiction
      · exact isTable_of_mem_tableAccesses hv hsub ha
  | int | uint | number | string | stringBuf | bool => exact absurd ha List.not_mem_nil

theorem isTable_of_mem_tableAccesses {fs : List LuaMsgFieldDescr} {t : Value}
    (ht : t.isTable = true) (h : ObjectsHoldTables tgt fs t) {a : Value × Bytes}
    (ha : a ∈ tableAccesses tgt fs t) : a.1.isTable = true := by
  cases fs with
  | nil => exact absurd ha List.not_mem_nil
  | cons f fs =>
      obtain ⟨hfield, hfields⟩ := h
      obtain rfl | ha := List.mem_cons.mp ha
      · exact ht
      · cases hindex : tgt.index t f.fieldName with
        | error err =>
            rw [hindex] at ha
            exact absurd ha List.not_mem_nil
        | ok v =>
            rw [hindex] at ha hfield
            obtain ha | ha := List.mem_append.mp ha
            · cases hnil : v.isNil with
              | true =>
                  rw [hnil] at ha
                  exact absurd ha List.not_mem_nil
              | false =>
                  rw [hnil] at ha
                  exact isTable_of_mem_fieldAccesses hnil hfield ha
            · exact isTable_of_mem_tableAccesses ht hfields ha

end

mutual

theorem isTable_of_mem_fieldSetAccesses {buf : Bytes} {f : LuaMsgFieldDescr} {base : Nat}
    {a : Value × Bytes} (ha : a ∈ fieldSetAccesses tgt buf f base) : a.1.isTable = true := by
  obtain ⟨name, type, offset, size, subFields⟩ := f
  cases type with
  | object => exact isTable_of_mem_setAccesses ha
  | int | uint | number | string | stringBuf | bool => exact absurd ha List.not_mem_nil

theorem isTable_of_mem_setAccesses {buf : Bytes} {fs : List LuaMsgFieldDescr} {base : Nat}
    {es : Entries} {a : Value × Bytes} (ha : a ∈ setAccesses tgt buf fs base es) :
    a.1.isTable = true := by
  cases fs with
  | nil => exact absurd ha List.not_mem_nil
  | cons f fs =>
      obtain ha | ha := List.mem_append.mp ha
      · exact isTable_of_mem_fieldSetAccesses ha
      · cases hvalue : fieldValue tgt buf f base with
        | none =>
            rw [hvalue] at ha
            exact absurd ha List.not_mem_nil
        | some v =>
            rw [hvalue] at ha
            obtain rfl | ha := List.mem_cons.mp ha
            · rfl
            · exact isTable_of_mem_setAccesses ha

end

/-- `m` is disciplined, and it stops early only for one of the reasons. -/
def DisciplinedUnless (reason : Exn → Prop) (m : LuaM β Unit) (s : State β)
    (todo : List (Value × Bytes)) (height : Nat) (post : State β → Prop) : Prop :=
  Disciplined m s todo height post ∧ wp m (fun _ _ => True) (fun e _ => reason e) s

theorem DisciplinedUnless.mono {reason reason' : Exn → Prop} {m : LuaM β Unit} {s : State β}
    {todo : List (Value × Bytes)} {height : Nat} {post : State β → Prop}
    (h : DisciplinedUnless reason m s todo height post) (hreason : ∀ e, reason e → reason' e) :
    DisciplinedUnless reason' m s todo height post :=
  ⟨h.1, h.2.mono (fun _ _ h => h) fun e _ => hreason e⟩

/-- Decoding `t` into `n` bytes stops when an allocating call it makes runs out of memory, when
a lookup raises an error, or at a store behind the last byte. -/
def DecodeStops (fields : List LuaMsgFieldDescr) (t : Value) (base n : Nat) (s : State β)
    (e : Exn) : Prop :=
  (e = .error .memory ∧ ¬ NoFail s.apiFails s.apiCalls (decodeCost tgt fields t)) ∨
    ((∃ err, e = .error err) ∧ ¬ Indexable tgt fields t) ∨
    (e = .fault .outOfBounds ∧ ¬ Fits tgt fields base n)

/-- Encoding stops when an allocating call it makes runs out of memory, or at a read of what is
not there. -/
def EncodeStops (fields : List LuaMsgFieldDescr) (buf : Bytes) (base : Nat) (s : State β)
    (e : Exn) : Prop :=
  (e = .error .memory ∧ ¬ NoFail s.apiFails s.apiCalls (1 + encodeCost tgt buf fields base)) ∨
    (e = .fault .outOfBounds ∧ messageTable tgt fields buf base = none)

variable {tgt} {fields : List LuaMsgFieldDescr} {s : State β} {base : Nat} {e : Exn}

theorem not_decodeStops {t : Value} {n : Nat}
    (hmemory : NoFail s.apiFails s.apiCalls (decodeCost tgt fields t))
    (hindexable : Indexable tgt fields t) (hfits : Fits tgt fields base n) :
    ¬ DecodeStops tgt fields t base n s e := by
  rintro (⟨-, hfail⟩ | ⟨-, hnot⟩ | ⟨-, hnot⟩)
  · exact hfail hmemory
  · exact hnot hindexable
  · exact hnot hfits

theorem not_encodeStops {buf : Bytes}
    (hmemory : NoFail s.apiFails s.apiCalls (1 + encodeCost tgt buf fields base))
    (hshown : messageTable tgt fields buf base ≠ none) : ¬ EncodeStops tgt fields buf base s e := by
  rintro (⟨-, hfail⟩ | ⟨-, hnone⟩)
  · exact hfail hmemory
  · exact hshown hnone

variable (tgt)

/-- Decoding a table at any absolute index, below anything else, leaves the stack as it was and
takes no more slots than the descriptor has levels; encoding leaves a new table on top and
takes one slot more. The accesses are to the table of their own level, and only to tables
where the objects are tables. Both return unless there is a reason to stop. -/
theorem luaMsgDescr_disciplined (fields : List LuaMsgFieldDescr) (s : State β) {idx : Int}
    {t : Value} (hpos : 0 < idx) (hidx : valueAt s.stack idx = some t) (htable : t.isTable = true)
    (hobjects : ObjectsHoldTables tgt fields t) {dst src : Ptr} {out buf : Bytes}
    (hdst : s.heap.blocks dst.block = some out) (hsrc : s.heap.blocks src.block = some buf) :
    (DisciplinedUnless (DecodeStops tgt fields t dst.offset out.length s)
        (luaMsgDescrFromTable tgt fields dst idx) s (tableAccesses tgt fields t)
        (depth fields) (fun u => u.stack = s.stack) ∧
      ∀ a ∈ tableAccesses tgt fields t, a.1.isTable = true) ∧
    DisciplinedUnless (EncodeStops tgt fields buf src.offset s)
        (luaMsgDescrToTable tgt fields src) s (setAccesses tgt buf fields src.offset [])
        (depth fields + 1) (fun u => ∃ es, u.stack = .table es none :: s.stack) ∧
      ∀ a ∈ setAccesses tgt buf fields src.offset [], a.1.isTable = true := by
  have hdecodes := luaMsgDescrFromTable_decodes tgt fields dst.offset idx t s hdst hpos hidx
  have hencodes := luaMsgDescrToTable_encodes tgt fields src.offset s hsrc
  refine ⟨⟨⟨luaMsgDescrFromTable_disciplined tgt fields dst s hidx, ?_⟩, fun a ha => ?_⟩,
    ⟨?_, ?_⟩, fun a ha => isTable_of_mem_setAccesses tgt ha⟩
  · apply hdecodes.mono
    · exact fun _ _ _ => trivial
    · rintro e u ⟨-, hcause⟩
      refine hcause.imp_right (Or.imp_left ?_)
      rintro ⟨err, he, herr⟩
      refine ⟨⟨err, he⟩, fun hindexable => ?_⟩
      obtain ⟨ws, hws⟩ := (tableWrites_ok_iff tgt fields t dst.offset).mpr hindexable
      rw [herr] at hws
      contradiction
  · exact isTable_of_mem_tableAccesses tgt htable hobjects ha
  · have h := (luaMsgDescrToTable_disciplined tgt fields src.offset s hsrc).and_encodes hencodes
    refine h.weaken (Nat.le_refl _) ?_
    rintro u ⟨htop, -⟩
    rw [messageTable, Option.map_map] at htop
    obtain ⟨es, -, hstack⟩ := Option.map_eq_some_iff.mp htop
    exact ⟨es, hstack.symm⟩
  · apply hencodes.mono
    · exact fun _ _ _ => trivial
    · rintro e u ⟨-, hcause⟩
      exact hcause.imp_right (And.imp_right Option.map_eq_none_iff.mp)

/-- A table with an object in it on the stack, and a message of zeros in block 0. -/
def offsetTable : Value := .table [(ascii "offset", .table [(ascii "x", .integer 1)] none)] none

def offsetTableState : State Unit :=
  { State.idle 0 () with
    stack := [offsetTable]
    heap := ⟨fun p => if p = 0 then some (List.replicate 20 0) else none, 1, fun _ => none⟩ }

/-- Both conversions return. -/
theorem luaMsgDescr_disciplined_sensorConfig :
    DisciplinedUnless (fun _ => False)
        (luaMsgDescrFromTable Target.sample msgSensorConfigFields ⟨0, 0⟩ 1) offsetTableState
        (tableAccesses Target.sample msgSensorConfigFields offsetTable) 2
        (fun u => u.stack = [offsetTable]) ∧
      DisciplinedUnless (fun _ => False)
        (luaMsgDescrToTable Target.sample msgSensorConfigFields ⟨0, 0⟩) offsetTableState
        (setAccesses Target.sample (List.replicate 20 0) msgSensorConfigFields 0 []) 3
        (fun u => ∃ es, u.stack = [.table es none, offsetTable]) := by
  have hobjects : ObjectsHoldTables Target.sample msgSensorConfigFields offsetTable :=
    ⟨trivial, .inr ⟨rfl, trivial, trivial, trivial, trivial⟩, trivial⟩
  have hmemory (k : Nat) : NoFail offsetTableState.apiFails offsetTableState.apiCalls k :=
    noFail_never _ _
  have hindexable : Indexable Target.sample msgSensorConfigFields offsetTable :=
    (tableWrites_ok_iff Target.sample msgSensorConfigFields offsetTable 0).mp ⟨_, rfl⟩
  have hfields : WellFormed msgSensorConfigFields 20 := by decide
  have hfits : Fits Target.sample msgSensorConfigFields 0 20 :=
    Describes.fits Target.sample (hfields.sized _) (by decide)
  have hshown : messageTable Target.sample msgSensorConfigFields (List.replicate 20 0) 0 ≠ none :=
    nofun
  have hidx : valueAt offsetTableState.stack 1 = some offsetTable := rfl
  have hblock : offsetTableState.heap.blocks (Ptr.mk 0 0).block = some (List.replicate 20 0) := rfl
  have h := luaMsgDescr_disciplined Target.sample msgSensorConfigFields offsetTableState
    (by decide) hidx rfl hobjects hblock hblock
  have hdecodes := h.1.1.mono fun _ => not_decodeStops (hmemory _) hindexable hfits
  have hencodes := h.2.1.mono fun _ => not_encodeStops (hmemory _) hshown
  exact ⟨hdecodes, hencodes⟩

end LuaZephyr
