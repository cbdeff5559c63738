import LuaZephyr.MsgDescr.StructValues
import LuaZephyr.Nanopb.Bridge

/-!
# The structs of messages

Nanopb turns a message into a struct and a `FIELDLIST`. Its generator is not part of the
repository: what it emits are two parameters here, the members of the struct and the entries of
the list, and `FieldlistOf` says how they belong together. There is an entry for each member that
is a field, in the order of the members, as the generator orders them unless told otherwise. The
flag of an optional field is a `bool` in front of its member. Other members without an entry, such
as the one that fills the struct of an empty message, are allowed for anywhere.

`LUA_PB_DESCR_DEFINE` on the list gives the descriptor that `LUA_ZBUS_MSG_DESCR` gives for the
struct with entries for all members but these. Fields the bridge does not support, repeated or
`oneof` ones and those behind pointers or callbacks, are left out.
-/

namespace LuaZephyr

open CStruct Outcome Patch

section Fieldlist

variable (abi : Abi)

/-- Where a member without a name may be the presence flag of the field behind it. -/
def flagPlace : CType → Nat → Option Nat
  | .scalar .bool, used => some ((CType.scalar .bool).offsetof abi used)
  | _, _ => none

/-- The entry is that of a member after `used` bytes of the struct, behind a possible `flag`, and
the bridge supports it. The compiler knows the offset and the size. -/
structure PbField.Names (f : PbField) (name : Bytes) (type : CType) (flag : Option Nat)
    (used : Nat) : Prop where
  atype : f.atype = .static
  htype : f.htype ∈ [.required, .singular, .optional]
  fieldname : f.fieldname = name
  offset : f.offset = type.offsetof abi used
  size : f.size = type.sizeof abi
  hasOffset : f.htype = .optional → flag = some f.hasOffset

mutual

/-- The logical type of the entry is that of its member, and a submessage has the list of its own
struct. -/
def EntryOf : CType → PbField → Prop
  | .scalar s, f => f.ltype.type = fieldType s ∧ 0 < s.sizeof
  | .struct members, f => f.ltype = .message ∧ FieldlistOf members none 0 f.msgtype

/-- The entries are those of the members that come after `used` bytes of the struct, the first of
them behind a possible `flag`. -/
def FieldlistOf : Members → Option Nat → Nat → List PbField → Prop
  | [], _, _, fs => fs = []
  | (none, type) :: ms, _, used, fs =>
      FieldlistOf ms (flagPlace abi type used) (type.offsetof abi used + type.sizeof abi) fs
  | (some name, type) :: ms, flag, used, fs =>
      ∃ f rest, fs = f :: rest ∧ f.Names abi name type flag used ∧ EntryOf type f ∧
        FieldlistOf ms none (type.offsetof abi used + type.sizeof abi) rest

end

end Fieldlist

section Descriptor

variable {abi : Abi}

theorem ltype_ne_message {ltype : PbLtype} {scalar : Scalar}
    (h : ltype.type = fieldType scalar) : ltype ≠ .message := by
  rintro rfl
  cases scalar with
  | int signed width =>
      cases signed with
      | _ => contradiction
  | _ => contradiction

mutual

theorem luaPbGenField_entry (type : CType) {f : PbField} {name : Bytes} {flag : Option Nat}
    {used : Nat} (hnames : f.Names abi name type flag used) (h : EntryOf abi type f) :
    luaPbGenField f = structField abi name type (type.offsetof abi used) :=
  match type with
  | .scalar s => by
      rw [luaPbGenField_leaf (ltype_ne_message h.1), h.1, hnames.fieldname, hnames.offset,
        hnames.size]
      rfl
  | .struct members => by
      obtain ⟨hmessage, hmembers⟩ := h
      have hfields := luaPbFields_fieldlist members hmembers
      obtain ⟨-, -, rfl, hoffset, hsize, -⟩ := hnames
      obtain ⟨atype, htype, ltype, fieldname, tag, offset, size, hasOffset, msgtype⟩ := f
      obtain rfl : ltype = .message := hmessage
      obtain rfl : offset = _ := hoffset
      obtain rfl : size = _ := hsize
      exact congrArg (luaMsgFieldObject fieldname _ _) hfields

/-- The bridge makes of the list what is written by hand for the struct. -/
theorem luaPbFields_fieldlist (ms : Members) {flag : Option Nat} {used : Nat} {fs : List PbField}
    (h : FieldlistOf abi ms flag used fs) : luaPbFields fs = structFields abi ms used :=
  match ms with
  | [] => by
      obtain rfl : fs = [] := h
      rfl
  | (none, _) :: ms => luaPbFields_fieldlist ms h
  | (some _, type) :: ms => by
      obtain ⟨f, rest, rfl, hnames, hentry, hrest⟩ := h
      rw [luaPbFields, structFields, luaPbGenField_entry type hnames hentry,
        luaPbFields_fieldlist ms hrest]

end

end Descriptor

section Places

variable {abi : Abi} {f : PbField} {fs : List PbField} {name : Bytes} {type : CType}
  {flag : Option Nat} {used : Nat}

/-- The first byte of the flag, or else of what comes behind it. -/
def flagStart (flag : Option Nat) (used : Nat) : Nat := flag.getD used

/-- The flag ends before what comes behind it. -/
def FlagBefore (flag : Option Nat) (used : Nat) : Prop := ∀ place, flag = some place → place < used

theorem flagBefore_none (used : Nat) : FlagBefore none used := nofun

theorem FlagBefore.start_le (h : FlagBefore flag used) : flagStart flag used ≤ used := by
  cases hflag : flag with
  | none => exact Nat.le_refl used
  | some place => exact (h place hflag).le

variable (abi) in
theorem flagPlace_spec (type : CType) (used : Nat) :
    FlagBefore (flagPlace abi type used) (type.offsetof abi used + type.sizeof abi) ∧
      used ≤ flagStart (flagPlace abi type used) (type.offsetof abi used + type.sizeof abi) := by
  have hoffset : used ≤ type.offsetof abi used := type.le_offsetof abi used
  unfold flagPlace
  split
  · refine ⟨fun place hplace => ?_, hoffset⟩
    obtain rfl := Option.some.inj hplace
    exact Nat.lt_succ_self _
  · exact ⟨flagBefore_none _, hoffset.trans (Nat.le_add_right _ _)⟩

/-- The flag of a field is in front of its member. -/
theorem PbField.Names.flag_range (hnames : f.Names abi name type flag used)
    (hbefore : FlagBefore flag used) (hopt : f.htype = .optional) :
    flagStart flag used = f.hasOffset ∧ f.hasOffset < type.offsetof abi used := by
  have hflag := hnames.hasOffset hopt
  have hoffset : used ≤ type.offsetof abi used := type.le_offsetof abi used
  refine ⟨by rw [hflag]; rfl, ?_⟩
  exact (hbefore _ hflag).trans_le hoffset

/-- A field has its bytes between its flag and the end of its member. -/
theorem PbField.Names.owns_range (hnames : f.Names abi name type flag used)
    (hbefore : FlagBefore flag used) {i : Nat} (h : f.Owns 0 i) :
    flagStart flag used ≤ i ∧ i < type.offsetof abi used + type.sizeof abi := by
  have hstart := hbefore.start_le
  have hoffset : used ≤ type.offsetof abi used := type.le_offsetof abi used
  obtain ⟨hlo, hhi⟩ | hflag := h
  · simp only [PbField.member, Span.stop, hnames.offset, hnames.size] at hlo hhi
    omega
  · rw [PbField.flag] at hflag
    split at hflag
    · rename_i hopt
      obtain rfl := List.mem_singleton.mp hflag
      obtain ⟨hlo, hhi⟩ := hnames.flag_range hbefore hopt
      omega
    · contradiction

theorem fieldname_of_mem_fieldlist {ms : Members} (h : FieldlistOf abi ms flag used fs)
    (hf : f ∈ fs) : some f.fieldname ∈ ms.map Prod.fst := by
  induction ms generalizing flag used fs with
  | nil =>
      obtain rfl : fs = [] := h
      exact absurd hf List.not_mem_nil
  | cons m ms ih =>
      obtain ⟨_ | name, type⟩ := m
      · exact List.mem_cons_of_mem _ (ih h hf)
      · obtain ⟨g, rest, rfl, hnames, -, hrest⟩ := h
        obtain rfl | hlater := List.mem_cons.mp hf
        · rw [hnames.fieldname]
          exact List.mem_cons_self
        · exact List.mem_cons_of_mem _ (ih hrest hlater)

theorem le_of_owns {ms : Members} (h : FieldlistOf abi ms flag used fs)
    (hbefore : FlagBefore flag used) (hf : f ∈ fs) {i : Nat} (hi : f.Owns 0 i) :
    flagStart flag used ≤ i := by
  induction ms generalizing flag used fs with
  | nil =>
      obtain rfl : fs = [] := h
      exact absurd hf List.not_mem_nil
  | cons m ms ih =>
      have hstart := hbefore.start_le
      obtain ⟨_ | name, type⟩ := m
      · obtain ⟨hnext, hle⟩ := flagPlace_spec abi type used
        have hlater := ih h hnext hf
        omega
      · obtain ⟨g, rest, rfl, hnames, -, hrest⟩ := h
        obtain rfl | hlater := List.mem_cons.mp hf
        · exact (hnames.owns_range hbefore hi).1
        · have hoffset : used ≤ type.offsetof abi used := type.le_offsetof abi used
          have hplace : type.offsetof abi used + type.sizeof abi ≤ i :=
            ih hrest (flagBefore_none _) hlater
          omega

mutual

theorem fieldLaid_entry (type : CType) {f : PbField} {name : Bytes} {flag : Option Nat}
    {used n : Nat} (hnames : f.Names abi name type flag used) (hbefore : FlagBefore flag used)
    (h : EntryOf abi type f) (hfits : CTypeFits abi type (type.offsetof abi used))
    (hnamed : CTypeNamed type) (hn : type.offsetof abi used + type.sizeof abi ≤ n) :
    FieldLaid f n := by
  have hflag (hopt : f.htype = .optional) : f.hasOffset < n ∧
      ¬ (f.offset ≤ f.hasOffset ∧ f.hasOffset < f.offset + f.size) := by
    obtain ⟨-, hhi⟩ := hnames.flag_range hbefore hopt
    rw [hnames.offset]
    omega
  obtain ⟨hatype, hhtype, -, hoffset, hsize, -⟩ := hnames
  rw [← hoffset, ← hsize] at hn
  rw [← hoffset] at hfits
  obtain ⟨atype, htype, ltype, fieldname, tag, offset, size, hasOffset, msgtype⟩ := f
  match type with
  | .scalar s =>
      obtain ⟨hltype, hpos⟩ := h
      obtain rfl : size = s.sizeof := hsize
      refine ⟨hatype, hhtype, hn, hfits.1, hflag, ?_⟩
      rw [if_neg (ltype_ne_message hltype), hltype]
      exact ⟨hfits.2, sizedLeaf_fieldType hpos hfits.2 0⟩
  | .struct members =>
      obtain ⟨rfl, hmembers⟩ := h
      obtain rfl : size = (CType.struct members).sizeof abi := hsize
      refine ⟨hatype, hhtype, hn, hfits.1, hflag, ?_⟩
      rw [if_pos rfl]
      exact laid_fieldlist members hmembers (flagBefore_none _) hfits.2 hnamed
        (endof_le_sizeof abi _)

/-- The compiler's layout keeps the fields of a message and their flags apart. -/
theorem laid_fieldlist (ms : Members) {flag : Option Nat} {used n : Nat} {fs : List PbField}
    (h : FieldlistOf abi ms flag used fs) (hbefore : FlagBefore flag used)
    (hfits : MembersFit abi ms used) (hnamed : MembersNamed ms) (hn : endof abi ms used ≤ n) :
    Laid fs n := by
  match ms with
  | [] =>
      obtain rfl : fs = [] := h
      trivial
  | (none, type) :: ms =>
      exact laid_fieldlist ms h (flagPlace_spec abi type used).1 hfits hnamed hn
  | (some name, type) :: ms =>
      obtain ⟨f, rest, rfl, hnames, hentry, hrest⟩ := h
      obtain ⟨hname, htype, hothers⟩ := hnamed
      rw [endof_cons] at hn
      have hstop := (le_endof abi ms _).trans hn
      refine ⟨fieldLaid_entry type hnames hbefore hentry hfits.1 htype hstop,
        fun g hg => ⟨fun heq => ?_, fun i hi hgi => ?_⟩,
        laid_fieldlist ms hrest (flagBefore_none _) hfits.2 hothers hn⟩
      · rw [hnames.fieldname] at heq
        rw [heq] at hname
        exact hname (fieldname_of_mem_fieldlist hrest hg)
      · have hbound := (hnames.owns_range hbefore hi).2
        have hafter : type.offsetof abi used + type.sizeof abi ≤ i :=
          le_of_owns hrest (flagBefore_none _) hg hgi
        omega

end

mutual

/-- The flags of a field are not bytes of its member that a descriptor names. -/
theorem fieldPresence_not_owned (type : CType) {f : PbField} {name : Bytes} {flag : Option Nat}
    {used base : Nat} (hnames : f.Names abi name type flag used) (hbefore : FlagBefore flag used)
    (h : EntryOf abi type f) {p : Presence} (hp : p ∈ fieldPresence f base) :
    base + flagStart flag used ≤ p.place ∧
      p.place < base + (type.offsetof abi used + type.sizeof abi) ∧
        ¬ type.Owns abi (base + type.offsetof abi used) p.place := by
  have hstart := hbefore.start_le
  have hoffset : used ≤ type.offsetof abi used := type.le_offsetof abi used
  have hflag (hopt : f.htype = .optional) : base + flagStart flag used ≤ base + f.hasOffset ∧
      base + f.hasOffset < base + (type.offsetof abi used + type.sizeof abi) ∧
        ¬ type.Owns abi (base + type.offsetof abi used) (base + f.hasOffset) := by
    obtain ⟨hlo, hhi⟩ := hnames.flag_range hbefore hopt
    refine ⟨by omega, by omega, fun howns => ?_⟩
    have hrange := howns.range.1
    omega
  have hplace := hnames.offset
  obtain ⟨atype, htype, ltype, fieldname, tag, offset, size, hasOffset, msgtype⟩ := f
  match type with
  | .scalar s =>
      rw [fieldPresence, if_neg (ltype_ne_message h.1), List.append_nil] at hp
      split at hp
      · rename_i hopt
        obtain rfl := List.mem_singleton.mp hp
        exact hflag hopt
      · contradiction
  | .struct members =>
      obtain ⟨rfl, hmembers⟩ := h
      rw [fieldPresence, if_pos rfl] at hp
      obtain hp | hp := List.mem_append.mp hp
      · split at hp
        · rename_i hopt
          obtain rfl := List.mem_singleton.mp hp
          exact hflag hopt
        · contradiction
      · obtain ⟨q, hq, rfl⟩ := List.mem_map.mp hp
        obtain rfl : offset = _ := hplace
        obtain ⟨hlo, hhi, hnot⟩ := presence_not_owned members hmembers (flagBefore_none _) hq
        have hend := endof_le_sizeof abi members
        refine ⟨?_, ?_, hnot⟩
        · change base + flagStart flag used ≤ q.place
          omega
        · change q.place < base + (_ + (CType.struct members).sizeof abi)
          omega

theorem presence_not_owned (ms : Members) {flag : Option Nat} {used base : Nat}
    {fs : List PbField} (h : FieldlistOf abi ms flag used fs) (hbefore : FlagBefore flag used)
    {p : Presence} (hp : p ∈ presence fs base) :
    base + flagStart flag used ≤ p.place ∧ p.place < base + endof abi ms used ∧
      ¬ MembersOwn abi ms base used p.place := by
  have hstart := hbefore.start_le
  match ms with
  | [] =>
      obtain rfl : fs = [] := h
      contradiction
  | (none, type) :: ms =>
      obtain ⟨hnext, hle⟩ := flagPlace_spec abi type used
      obtain ⟨hlo, hhi, hnot⟩ := presence_not_owned ms h hnext hp
      exact ⟨by omega, hhi, hnot⟩
  | (some name, type) :: ms =>
      obtain ⟨f, rest, rfl, hnames, hentry, hrest⟩ := h
      have hoffset : used ≤ type.offsetof abi used := type.le_offsetof abi used
      have hend := le_endof abi ms (type.offsetof abi used + type.sizeof abi)
      rw [endof_cons]
      obtain hhere | hlater := List.mem_append.mp hp
      · obtain ⟨hlo, hhi, hnot⟩ := fieldPresence_not_owned type hnames hbefore hentry hhere
        refine ⟨hlo, by omega, ?_⟩
        rintro (howns | howns)
        · exact hnot howns
        · have hrange := howns.range.1
          omega
      · obtain ⟨hlo, hhi, hnot⟩ := presence_not_owned ms hrest (flagBefore_none _) hlater
        have hbound : base + (type.offsetof abi used + type.sizeof abi) ≤ p.place := hlo
        refine ⟨by omega, hhi, ?_⟩
        rintro (howns | howns)
        · have hrange := howns.range.2
          omega
        · exact hnot howns

end

end Places

/-- A message as nanopb hands it to the compiler: the members of its struct and its `FIELDLIST`,
of supported fields with different names that the descriptor has room for. -/
structure PbMessage (abi : Abi) (members : Members) (fieldlist : List PbField) : Prop where
  generated : FieldlistOf abi members none 0 fieldlist
  named : MembersNamed members
  fits : MembersFit abi members 0

/-- `LUA_PB_DESCR_DEFINE` of a message. -/
def pbDescr (abi : Abi) (members : Members) (fieldlist : List PbField) : LuaMsgDescr :=
  luaPbDescrDefine fieldlist ((CType.struct members).sizeof abi)

theorem PbMessage.descr_eq {abi : Abi} {members : Members} {fieldlist : List PbField}
    (h : PbMessage abi members fieldlist) :
    pbDescr abi members fieldlist = luaZbusMsgDescr abi members := by
  rw [pbDescr, luaPbDescrDefine, luaPbFields_fieldlist members h.generated]
  rfl

section Conversions

variable {β : Type} (tgt : Target) {align : Nat → Nat} {hpos : ∀ size, 0 < align size}
variable {members : Members} {fieldlist : List PbField} {s : State β} {block base : Nat}
  {buf : Bytes}

/-- The `FIELDLIST` of a message gives the descriptor that is written by hand for its struct. Its
fields and flags are apart; a struct is shown as the table of its fields, whatever the flags are;
and a table that gives a value of every field is stored as these values and leaves every flag as it
was. A conversion raises only when one of its own allocating calls runs out of memory. -/
theorem pbMessage_conversions (h : PbMessage (tgt.abi hpos) members fieldlist)
    (hblock : s.heap.blocks block = some buf) :
    pbDescr (tgt.abi hpos) members fieldlist = luaZbusMsgDescr (tgt.abi hpos) members ∧
      Laid fieldlist (pbDescr (tgt.abi hpos) members fieldlist).msgSize ∧
      (∀ v, HoldsMembers (tgt.abi hpos) buf members base 0 v →
        wp (luaMsgDescrToTable tgt (pbDescr (tgt.abi hpos) members fieldlist).fields
            ⟨block, base⟩)
          (fun _ t => t.stack = shown tgt (.struct members) v :: s.stack ∧ s.Untouched t)
          (fun e t => (e = .error .memory ∧ ¬ NoFail s.apiFails s.apiCalls (1 + encodeCost tgt buf
              (pbDescr (tgt.abi hpos) members fieldlist).fields base)) ∧ s.Untouched t) s) ∧
      (base + (pbDescr (tgt.abi hpos) members fieldlist).msgSize ≤ buf.length →
        ∀ (idx : Int) x v, 0 < idx → valueAt s.stack idx = some x →
          GivesMembers tgt members x v →
          wp (luaMsgDescrFromTable tgt (pbDescr (tgt.abi hpos) members fieldlist).fields
              ⟨block, base⟩ idx)
            (fun _ t => t.stack = s.stack ∧ ∃ buf', s.Stored t block buf' ∧
              buf'.length = buf.length ∧ HoldsMembers (tgt.abi hpos) buf' members base 0 v ∧
              ∀ p ∈ presence fieldlist base, buf'[p.place]? = buf[p.place]?)
            (fun e _ => e = .error .memory ∧ ¬ NoFail s.apiFails s.apiCalls
              (decodeCost tgt (pbDescr (tgt.abi hpos) members fieldlist).fields x)) s) := by
  have hdescr := h.descr_eq
  have hbefore := flagBefore_none 0
  refine ⟨hdescr, ?_, fun v hholds => ?_, fun hroom idx x v hidx hx hgives => ?_⟩
  · exact laid_fieldlist members h.generated hbefore h.fits h.named (endof_le_sizeof _ _)
  · rw [hdescr]
    exact wp_luaMsgDescrToTable_struct tgt h.named h.fits hblock hholds
  · rw [hdescr] at hroom ⊢
    apply (wp_luaMsgDescrFromTable_struct tgt h.fits hblock hroom hidx hx hgives).mono
    · rintro _ t ⟨hstack, buf', ht, hlen, hholds, hkept⟩
      refine ⟨hstack, buf', ht, hlen, hholds, fun p hp => hkept p.place ?_⟩
      exact (presence_not_owned members h.generated hbefore hp).2.2
    · exact fun _ _ he => he

end Conversions

/-- The struct and the list of `msg_sensor_config` are those of one message. -/
theorem msgSensorConfig_generated :
    FieldlistOf (Target.sample.abi wordAlign_pos) sensorConfigMembers none 0
      msgSensorConfigFieldlist := by
  have hword {name : Bytes} {tag offset used : Nat}
      (hoffset : offset = (CType.scalar (.int true .four)).offsetof
        (Target.sample.abi wordAlign_pos) used) :
      PbField.Names (Target.sample.abi wordAlign_pos)
        ⟨.static, .singular, .int32, name, tag, offset, 4, 0, []⟩ name
        (.scalar (.int true .four)) none used :=
    ⟨rfl, List.mem_cons_of_mem _ List.mem_cons_self, rfl, hoffset, rfl, nofun⟩
  have hentry {name : Bytes} {tag offset : Nat} :
      EntryOf (Target.sample.abi wordAlign_pos) (.scalar (.int true .four))
        ⟨.static, .singular, .int32, name, tag, offset, 4, 0, []⟩ := ⟨rfl, by decide⟩
  refine ⟨_, _, rfl, hword (by decide), hentry, _, _, rfl, ⟨rfl, by decide, rfl, by decide,
    by decide, fun _ => by decide⟩, ⟨rfl, ?_⟩, rfl⟩
  exact ⟨_, _, rfl, hword (by decide), hentry, _, _, rfl, hword (by decide), hentry, _, _, rfl,
    hword (by decide), hentry, rfl⟩

/-- An empty message has a member all the same. -/
example (abi : Abi) : FieldlistOf abi [(none, .scalar (.chars 1))] none 0 [] := rfl

/-- The flag of `offset` is not shown. -/
theorem pbMessage_conversions_sensorConfig :
    wp (luaMsgDescrToTable Target.sample
        (pbDescr (Target.sample.abi wordAlign_pos) sensorConfigMembers
          msgSensorConfigFieldlist).fields ⟨0, 0⟩)
      (fun _ t => t.stack = [.table [(ascii "sensor_id", .integer 42),
        (ascii "offset", .table [(ascii "x", .integer 1), (ascii "y", .integer 2),
          (ascii "z", .integer 3)] none)] none])
      (fun _ _ => False)
      { State.idle 0 () with heap :=
        ⟨fun p => if p = 0 then some sensorConfigMessage else none, 1, fun _ => none⟩ } := by
  have hnamed : MembersNamed sensorConfigMembers :=
    ⟨by decide, trivial, ⟨by decide, ⟨by decide, trivial, by decide, trivial, by decide, trivial,
      trivial⟩, trivial⟩⟩
  have hmessage : PbMessage (Target.sample.abi wordAlign_pos) sensorConfigMembers
      msgSensorConfigFieldlist := ⟨msgSensorConfig_generated, hnamed, fits_sensorConfig⟩
  have hholds : HoldsMembers (Target.sample.abi wordAlign_pos) sensorConfigMessage
      sensorConfigMembers 0 0 sensorConfigVal :=
    ⟨⟨by decide, rfl⟩, ⟨⟨by decide, rfl⟩, ⟨by decide, rfl⟩, ⟨by decide, rfl⟩, trivial⟩, trivial⟩
  refine ((pbMessage_conversions Target.sample hmessage rfl).2.2.1 _ hholds).mono ?_ ?_
  · rintro _ t ⟨hstack, -⟩
    exact hstack
  · rintro e t ⟨⟨-, hfail⟩, -⟩
    exact hfail (noFail_never _ _)

end LuaZephyr
