import LuaZephyr.MsgDescr.Strings

/-!
# The encoder amid other threads

The encoder follows the addresses in STRING fields one after another, and other threads may
run in between. Here each field is read from memory as it is at that moment: `amid n` is the
target once the Lua state has made `n` allocating calls. The rest of the message is in a
buffer of the thread's own, which no other thread writes.
-/

namespace LuaZephyr

open Outcome

variable {β : Type}

section Encoder

variable (amid : Nat → Target)

mutual

/-- The `switch (f->type)` of the encoder. Only an object takes longer than one moment. -/
def fieldToTableAmid (f : LuaMsgFieldDescr) (base : Ptr) : LuaM β Unit :=
  match f with
  | ⟨_, .object, offset, _, subFields⟩ => do
      luaNewtable
      fieldsToTableAmid subFields (base.add offset.toNat)
  | ⟨name, type, offset, size, subFields⟩ => do
      let s ← get
      fieldToTable (amid s.apiCalls) ⟨name, type, offset, size, subFields⟩ base

def fieldsToTableAmid : List LuaMsgFieldDescr → Ptr → LuaM β Unit
  | [], _ => return
  | f :: fs, base => do
      fieldToTableAmid f base
      luaSetfield (-2) f.fieldName
      fieldsToTableAmid fs base

end

def luaMsgDescrToTableAmid (fields : List LuaMsgFieldDescr) (base : Ptr) : LuaM β Unit := do
  luaNewtable
  fieldsToTableAmid amid fields base

end Encoder

section Alone

variable (tgt : Target)

mutual

theorem fieldToTableAmid_const (f : LuaMsgFieldDescr) (base : Ptr) :
    (fieldToTableAmid (fun _ => tgt) f base : LuaM β Unit) = fieldToTable tgt f base := by
  obtain ⟨name, type, offset, size, subFields⟩ := f
  cases type with
  | object =>
      rw [fieldToTableAmid, fieldToTable, fieldsToTableAmid_const subFields]
  | _ =>
      rw [fieldToTableAmid]
      · rfl
      · nofun

theorem fieldsToTableAmid_const (fs : List LuaMsgFieldDescr) (base : Ptr) :
    (fieldsToTableAmid (fun _ => tgt) fs base : LuaM β Unit) = fieldsToTable tgt fs base := by
  cases fs with
  | nil => rfl
  | cons f fs =>
      rw [fieldsToTableAmid, fieldsToTable, fieldToTableAmid_const f, fieldsToTableAmid_const fs]

end

/-- In a memory that stays as it is this is `lua_msg_descr_to_table`. -/
theorem luaMsgDescrToTableAmid_const (fields : List LuaMsgFieldDescr) (base : Ptr) :
    (luaMsgDescrToTableAmid (fun _ => tgt) fields base : LuaM β Unit) =
      luaMsgDescrToTable tgt fields base := by
  rw [luaMsgDescrToTableAmid, luaMsgDescrToTable, fieldsToTableAmid_const]

end Alone

section Shown

variable (amid : Nat → Target) (buf : Bytes)

mutual

/-- The value of the field, each leaf of it read at some moment. -/
def FieldAmid : LuaMsgFieldDescr → Nat → Value → Prop
  | ⟨name, type, offset, size, subFields⟩, base, v =>
    match type with
    | .object => ∃ es, EntriesAmid subFields (base + offset.toNat) [] es ∧ v = .table es none
    | type => ∃ n, fieldValue (amid n) buf ⟨name, type, offset, size, subFields⟩ base = some v

def EntriesAmid : List LuaMsgFieldDescr → Nat → Entries → Entries → Prop
  | [], _, acc, es => es = acc
  | f :: fs, base, acc, es =>
      ∃ v, FieldAmid f base v ∧ EntriesAmid fs base (rawSet acc f.fieldName v) es

end

variable {amid buf}

/-- `m` pushes a value that `shown` admits. -/
def PushesAmid (m : LuaM β Unit) (s : State β) (shown : Value → Prop) : Prop :=
  wp m (fun _ t => s.Untouched t ∧ ∃ v, shown v ∧ t.stack = v :: s.stack)
    (fun _ t => s.Untouched t) s

theorem Encodes.pushesAmid {m : LuaM β Unit} {s : State β} {k : Nat} {value : Option Value}
    {shown : Value → Prop} (h : Encodes m s k (value.map (· :: s.stack)))
    (hshown : ∀ v, value = some v → shown v) : PushesAmid m s shown := by
  apply h.mono
  · rintro _ t ⟨hstack, hst, -⟩
    obtain ⟨v, hv, hpush⟩ := Option.map_eq_some_iff.mp hstack
    exact ⟨hst, v, hshown v hv, hpush.symm⟩
  · exact fun _ _ h => h.1

mutual

theorem fieldToTableAmid_pushes {block : Nat} (f : LuaMsgFieldDescr) (base : Nat) (s : State β)
    (hblock : s.heap.blocks block = some buf) :
    PushesAmid (fieldToTableAmid amid f ⟨block, base⟩) s (FieldAmid amid buf f base) := by
  obtain ⟨name, type, offset, size, subFields⟩ := f
  cases type with
  | object =>
      rw [fieldToTableAmid]
      refine wp_bind.mpr ((Encodes.luaNewtable s).mono ?_ fun _ _ h => h.1)
      rintro _ t ⟨htop, hst, -⟩
      have hstack : t.stack = .table [] none :: s.stack := (Option.some.inj htop).symm
      refine (fieldsToTableAmid_fills subFields (base + offset.toNat) t
        (by rw [hst.heap]; exact hblock) hstack).mono ?_ fun _ _ h => hst.trans h
      rintro _ u ⟨htu, es, hes, htable⟩
      exact ⟨hst.trans htu, _, ⟨es, hes, rfl⟩, htable⟩
  | _ =>
      rw [fieldToTableAmid]
      · refine wp_bind.mpr (wp_get.mpr ?_)
        exact (fieldToTable_encodes (amid s.apiCalls) _ base s hblock).pushesAmid fun v hv =>
          ⟨s.apiCalls, hv⟩
      · nofun

/-- The loop fills the table on top of the stack. -/
theorem fieldsToTableAmid_fills {block : Nat} {acc : Entries} {rest : List Value}
    (fs : List LuaMsgFieldDescr) (base : Nat) (s : State β)
    (hblock : s.heap.blocks block = some buf) (hstack : s.stack = .table acc none :: rest) :
    wp (fieldsToTableAmid amid fs ⟨block, base⟩)
      (fun _ t => s.Untouched t ∧ ∃ es, EntriesAmid amid buf fs base acc es ∧
        t.stack = .table es none :: rest)
      (fun _ t => s.Untouched t) s := by
  cases fs with
  | nil => exact ⟨.refl s, acc, rfl, hstack⟩
  | cons f fs =>
      rw [fieldsToTableAmid]
      refine wp_bind.mpr ((fieldToTableAmid_pushes f base s hblock).mono ?_ fun _ _ h => h)
      rintro _ t ⟨hst, v, hv, hpush⟩
      have htop : t.stack = v :: .table acc none :: rest := by rw [hpush, hstack]
      refine wp_bind.mpr ((Encodes.luaSetfield htop).mono ?_ fun _ _ h => hst.trans h.1)
      rintro _ u ⟨hset, htu, -⟩
      have hsu := hst.trans htu
      refine (fieldsToTableAmid_fills fs base u (by rw [hsu.heap]; exact hblock)
        (Option.some.inj hset).symm).mono ?_ fun _ _ h => hsu.trans h
      rintro _ w ⟨huw, es, hes, htable⟩
      exact ⟨hsu.trans huw, es, ⟨v, hv, hes⟩, htable⟩

end

theorem luaMsgDescrToTableAmid_pushes {block : Nat} (fields : List LuaMsgFieldDescr) (base : Nat)
    (s : State β) (hblock : s.heap.blocks block = some buf) :
    PushesAmid (luaMsgDescrToTableAmid amid fields ⟨block, base⟩) s
      (fun v => ∃ es, EntriesAmid amid buf fields base [] es ∧ v = .table es none) := by
  refine wp_bind.mpr ((Encodes.luaNewtable s).mono ?_ fun _ _ h => h.1)
  rintro _ t ⟨htop, hst, -⟩
  have hstack : t.stack = .table [] none :: s.stack := (Option.some.inj htop).symm
  refine (fieldsToTableAmid_fills fields base t (by rw [hst.heap]; exact hblock) hstack).mono ?_
    fun _ _ h => hst.trans h
  rintro _ u ⟨htu, es, hes, htable⟩
  exact ⟨hst.trans htu, _, ⟨es, hes, rfl⟩, htable⟩

/-- Each field of different names is found under its name, and other keys are as they were. -/
theorem EntriesAmid.rawGet {fs : List LuaMsgFieldDescr} {base : Nat} {acc es : Entries}
    (hnames : (fs.map (·.fieldName)).Nodup) (h : EntriesAmid amid buf fs base acc es) :
    (∀ f ∈ fs, FieldAmid amid buf f base (rawGet es f.fieldName)) ∧
      ∀ key ∉ fs.map (·.fieldName), LuaZephyr.rawGet es key = LuaZephyr.rawGet acc key := by
  induction fs generalizing acc with
  | nil =>
      obtain rfl := h
      exact ⟨nofun, fun _ _ => rfl⟩
  | cons f fs ih =>
      obtain ⟨v, hv, hrest⟩ := h
      obtain ⟨hname, hnames⟩ := List.nodup_cons.mp hnames
      obtain ⟨hfields, hothers⟩ := ih hnames hrest
      refine ⟨fun g hg => ?_, fun key hkey => ?_⟩
      · obtain rfl | hg := List.mem_cons.mp hg
        · rw [hothers g.fieldName hname, rawGet_rawSet, if_pos rfl]
          exact hv
        · exact hfields g hg
      · rw [List.map_cons, List.mem_cons, not_or] at hkey
        rw [hothers key hkey.2, rawGet_rawSet, if_neg (Ne.symm hkey.1)]

variable {tgt : Target} {s : Bytes}

mutual

theorem fieldAmid_string {f : LuaMsgFieldDescr} {base : Nat} {v : Value}
    (h : FieldAmid amid buf f base v) (hdistinct : FieldDistinct f)
    {leaf : Leaf} (hleaf : leaf ∈ fieldLeaves f base)
    (hread : ∀ n w, leafValue (amid n) buf leaf = some w → w = .string s) :
    ∃ path, leaf.path = f.fieldName :: path ∧ v ≠ .nil ∧
      lookupPath tgt v path = some (.string s) := by
  obtain ⟨name, type, offset, size, subFields⟩ := f
  cases type with
  | object =>
      obtain ⟨inner, hinner, rfl⟩ := List.mem_map.mp hleaf
      obtain ⟨es, hes, rfl⟩ := h
      exact ⟨inner.path, rfl, nofun, entriesAmid_string hes (hdistinct rfl) hinner hread⟩
  | _ =>
      obtain rfl := List.mem_singleton.mp hleaf
      obtain ⟨n, hv⟩ := h
      obtain rfl := hread n v hv
      exact ⟨[], rfl, nofun, rfl⟩

/-- A leaf that reads as the same string at every moment is shown as that string. -/
theorem entriesAmid_string {fs : List LuaMsgFieldDescr} {base : Nat} {acc es : Entries}
    (h : EntriesAmid amid buf fs base acc es) (hdistinct : Distinct fs)
    {leaf : Leaf} (hleaf : leaf ∈ leaves fs base)
    (hread : ∀ n w, leafValue (amid n) buf leaf = some w → w = .string s) :
    lookupPath tgt (.table es none) leaf.path = some (.string s) := by
  cases fs with
  | nil => simp [leaves] at hleaf
  | cons f fs =>
      obtain ⟨hfields, -⟩ := EntriesAmid.rawGet hdistinct.names h
      obtain hhere | hrest := List.mem_append.mp hleaf
      · obtain ⟨path, hpath, hnil, hlookup⟩ :=
          fieldAmid_string (hfields f (List.mem_cons_self ..)) hdistinct.1 hhere hread
        rw [hpath, lookupPath_table hnil, hlookup]
      · obtain ⟨v, -, htail⟩ := h
        exact entriesAmid_string htail hdistinct.2.2 hrest hread

end

end Shown

end LuaZephyr
