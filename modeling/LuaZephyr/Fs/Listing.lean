import LuaZephyr.Fs.Loading

/-!
# Listing a directory and printing a file

`fs.list`, `lua_fs list` and `lua_fs cat` read until a call fails or gives nothing, and do
not tell the one from the other: what came before a failure is returned, or was printed, as
if it were all.

What the directory or the file gives at each call is a parameter, failures among it. The loops
end because the names, or the bytes, come to an end; a directory that changes while it is read
is one of the sequences the parameter can give.
-/

namespace LuaZephyr

open Outcome

/-- `struct fs_dirent` of an entry. An empty name is the end of the directory. -/
structure DirEntry where
  name : Bytes
  type : FsDirEntryType
  size : Nat
  named : name ≠ [] ∧ 0 ∉ name
  deriving DecidableEq, Repr

/-- An open directory: its entries, and the calls of `fs_readdir` that fail. -/
structure DirStream where
  entries : List DirEntry
  faults : Nat → Option Errno

/-- An open file: its contents, and for each call of `fs_read` an error or how many bytes it
gives at most. -/
structure FileStream where
  contents : Bytes
  reads : Nat → Except Errno Nat

/-- The entries before the first call that fails, counting the calls from `i`. -/
def entriesSeen (faults : Nat → Option Errno) : Nat → List DirEntry → List DirEntry
  | _, [] => []
  | i, e :: es =>
      match faults i with
      | some _ => []
      | none => e :: entriesSeen faults (i + 1) es

/-- No call fails before the end of the directory. -/
def DirStream.ReadsAll (dir : DirStream) : Prop :=
  ∀ i < dir.entries.length, dir.faults i = none

theorem entriesSeen_begins (faults : Nat → Option Errno) (i : Nat) (es : List DirEntry) :
    entriesSeen faults i es <+: es := by
  induction es generalizing i with
  | nil => exact List.prefix_refl _
  | cons e es ih =>
      rw [entriesSeen]
      split
      · exact List.nil_prefix
      · exact List.cons_prefix_cons.mpr ⟨rfl, ih (i + 1)⟩

/-- Only a failing call leaves entries unseen. -/
theorem length_entriesSeen_iff (faults : Nat → Option Errno) (i : Nat) (es : List DirEntry) :
    (entriesSeen faults i es).length = es.length ↔ ∀ j < es.length, faults (i + j) = none := by
  induction es generalizing i with
  | nil => simp [entriesSeen]
  | cons e es ih =>
      rw [entriesSeen]
      cases hfault : faults i with
      | some rc =>
          refine iff_of_false (by simp) fun hnone => ?_
          have hfirst := hnone 0 (Nat.zero_lt_succ _)
          rw [Nat.add_zero, hfault] at hfirst
          contradiction
      | none =>
          rw [List.length_cons, List.length_cons, Nat.add_right_cancel_iff, ih]
          constructor
          · intro hnone j hj
            cases j with
            | zero => exact hfault
            | succ j =>
                have hrest := hnone j (by omega)
                rwa [Nat.add_assoc, Nat.add_comm 1 j] at hrest
          · intro hnone j hj
            rw [Nat.add_assoc, Nat.add_comm 1 j]
            exact hnone (j + 1) (by omega)

theorem DirStream.readsAll_iff (dir : DirStream) :
    (entriesSeen dir.faults 0 dir.entries).length = dir.entries.length ↔ dir.ReadsAll := by
  rw [length_entriesSeen_iff]
  simp only [Nat.zero_add]
  exact Iff.rfl

theorem DirStream.ReadsAll.entriesSeen_eq {dir : DirStream} (h : dir.ReadsAll) :
    entriesSeen dir.faults 0 dir.entries = dir.entries :=
  (entriesSeen_begins _ _ _).eq_of_length (dir.readsAll_iff.mpr h)

/-- The result of `fs.list` is followed beside the stack: the entries of a table by integer
key. -/
abbrev LuaSequence := List (LuaInteger × Value)

/-- Raw assignment of a value that is not nil. -/
def rawSeti (table : LuaSequence) (key : LuaInteger) (v : Value) : LuaSequence :=
  if key ∈ table.map Prod.fst then table.map fun e => if e.1 = key then (key, v) else e
  else table ++ [(key, v)]

variable {β : Type}

/-- `lua_rawseti(L, -2, key)` on the result. -/
def luaRawseti (table : LuaSequence) (key : LuaInteger) : LuaM β LuaSequence := do
  let v ← slot (-1)
  allocating
  luaPop 1
  return rawSeti table key v

/-- `luaL_optstring`. -/
def luaLOptstring (tgt : Target) (arg : Nat) (default : Bytes) : LuaM β Bytes := do
  match valueAt (← get).stack arg with
  | none => return default
  | some .nil => return default
  | some _ => luaLCheckstring tgt arg

/-- The path `fs.list` opens. -/
def lFsListPath (mountPoint path : Bytes) : Bytes :=
  if path.head? = some 47 then path
  else (CString.snprintf maxPath (mountPoint ++ 47 :: path)).1

/-- The record of an entry on top of the stack. -/
def pushRecord (e : DirEntry) : LuaM β Unit := do
  luaNewtable
  luaPushstring (some e.name)
  luaSetfield (-2) (ascii "name")
  luaPushinteger (BitVec.ofNat 32 e.size)
  luaSetfield (-2) (ascii "size")
  luaPushstring (some (if e.type = .dir then ascii "dir" else ascii "file"))
  luaSetfield (-2) (ascii "type")

/-- The loop of `l_fs_list` with `i` entries read. The call of `fs_readdir` after the last
entry ends the loop, whether it fails or not. -/
def lFsListLoop (faults : Nat → Option Errno) :
    Nat → LuaSequence → List DirEntry → LuaM β LuaSequence
  | _, table, [] => return table
  | i, table, e :: es =>
      match faults i with
      | some _ => return table
      | none => do
          pushRecord e
          let table ← luaRawseti table (BitVec.ofNat 32 (i + 1))
          lFsListLoop faults (i + 1) table es

/-- `fs.list([path])`. -/
def lFsList (tgt : Target) (mountPoint : Bytes) (fsOpendir : Bytes → Except Errno DirStream) :
    LuaM β LuaSequence := do
  let path ← luaLOptstring tgt 1 mountPoint
  let fullpath := lFsListPath mountPoint (CString.text path)
  match fsOpendir fullpath with
  | .error rc => luaLError s!"cannot open directory {latin1 fullpath}: error {rc.code.toInt}"
  | .ok dir =>
      luaNewtable
      lFsListLoop dir.faults 0 [] dir.entries

/-- A call of `fs.list` with these arguments. -/
def callFsList (tgt : Target) (mountPoint : Bytes) (fsOpendir : Bytes → Except Errno DirStream)
    (args : List Value) : LuaM β LuaSequence := do
  modify fun s => { s with stack := args.reverse }
  lFsList tgt mountPoint fsOpendir

/-- The record `fs.list` makes of an entry. -/
def recordValue (e : DirEntry) : Value :=
  .table [(ascii "name", .string e.name), (ascii "size", .integer (BitVec.ofNat 32 e.size)),
    (ascii "type", .string (if e.type = .dir then ascii "dir" else ascii "file"))] none

/-- One of the allocating calls made between these two states ran out of memory. -/
def RanOut (s t : State β) : Prop := ∃ n, s.apiCalls ≤ n ∧ n < t.apiCalls ∧ s.apiFails n = true

/-- The schedule has not changed, and no call is taken back. -/
structure Later (s t : State β) : Prop where
  apiFails : t.apiFails = s.apiFails
  apiCalls : s.apiCalls ≤ t.apiCalls

theorem RanOut.earlier {s t u : State β} (h : RanOut t u) (hst : Later s t) : RanOut s u := by
  obtain ⟨n, hle, hlt, hfails⟩ := h
  exact ⟨n, hst.apiCalls.trans hle, hlt, hst.apiFails ▸ hfails⟩

theorem ranOut_next {s t : State β} (h : s.apiFails s.apiCalls = true)
    (hcalls : t.apiCalls = s.apiCalls + 1) : RanOut s t := ⟨_, Nat.le_refl _, by omega, h⟩

/-- On this stack the calls leave that one, or raise an error because memory ran out. -/
def Leaves (m : LuaM β Unit) (before after : List Value) : Prop :=
  ∀ s : State β, s.stack = before →
    wp m (fun _ t => t.stack = after ∧ Later s t)
      (fun e t => (∃ le, e = .error le) ∧ RanOut s t) s

namespace Leaves

variable {m n : LuaM β Unit} {before between after : List Value}

theorem seq (hm : Leaves m before between) (hn : Leaves n between after) :
    Leaves (do m; n) before after := by
  intro s hs
  refine wp_bind.mpr ((hm s hs).mono ?_ fun _ _ h => h)
  rintro ⟨⟩ t ⟨hstack, hst⟩
  refine (hn t hstack).mono ?_ fun _ u h => ⟨h.1, h.2.earlier hst⟩
  rintro ⟨⟩ u ⟨hafter, htu⟩
  exact ⟨hafter, htu.apiFails.trans hst.apiFails, hst.apiCalls.trans htu.apiCalls⟩

theorem allocating : Leaves (allocating : LuaM β Unit) before before := by
  rintro s rfl
  refine wp_allocating.mpr ?_
  cases hfails : s.apiFails s.apiCalls with
  | true => exact ⟨⟨_, rfl⟩, ranOut_next hfails rfl⟩
  | false => exact ⟨rfl, rfl, Nat.le_succ _⟩

theorem push (v : Value) : Leaves (pushValue v : LuaM β Unit) before (v :: before) := by
  rintro s rfl
  exact ⟨rfl, rfl, Nat.le_refl _⟩

theorem newtable : Leaves (luaNewtable : LuaM β Unit) before (.table [] none :: before) :=
  allocating.seq (push _)

theorem pushstring (text : Bytes) :
    Leaves (luaPushstring (some text) : LuaM β Unit) before (.string text :: before) :=
  allocating.seq (push _)

theorem setfield (key : Bytes) (v : Value) (es : Entries) (rest : List Value) :
    Leaves (luaSetfield (-2) key : LuaM β Unit) (v :: .table es none :: rest)
      (.table (rawSet es key v) none :: rest) := by
  intro s hs
  refine (wp_luaSetfield hs).mpr (wp_allocating.mpr ?_)
  cases hfails : s.apiFails s.apiCalls with
  | true => exact ⟨⟨_, rfl⟩, ranOut_next hfails rfl⟩
  | false => exact ⟨rfl, rfl, Nat.le_succ _⟩

theorem record (e : DirEntry) (stack : List Value) :
    Leaves (pushRecord e : LuaM β Unit) stack (recordValue e :: stack) :=
  newtable.seq <| (pushstring _).seq <| (setfield _ _ _ _).seq <| (push _).seq <|
    (setfield _ _ _ _).seq <| (pushstring _).seq <| setfield _ _ _ _

end Leaves

/-- The records of the entries at the indices from 1 on. -/
def numbered (es : List DirEntry) : LuaSequence :=
  es.mapIdx fun i e => (BitVec.ofNat 32 (i + 1), recordValue e)

theorem length_rawSeti_le (table : LuaSequence) (key : LuaInteger) (v : Value) :
    (rawSeti table key v).length ≤ table.length + 1 := by
  rw [rawSeti]
  split
  · rw [List.length_map]
    omega
  · exact Nat.le_of_eq List.length_append

/-- The next index is new. -/
theorem rawSeti_numbered {es : List DirEntry} (h : es.length + 1 < 2 ^ 32) (e : DirEntry) :
    rawSeti (numbered es) (BitVec.ofNat 32 (es.length + 1)) (recordValue e) =
      numbered (es ++ [e]) := by
  have hnew : BitVec.ofNat 32 (es.length + 1) ∉ (numbered es).map Prod.fst := by
    intro hmem
    obtain ⟨field, hfield, hkey⟩ := List.mem_map.mp hmem
    obtain ⟨i, hi, rfl⟩ := List.mem_mapIdx.mp hfield
    have hnat := congrArg BitVec.toNat hkey
    simp only [BitVec.toNat_ofNat] at hnat
    omega
  rw [rawSeti, if_neg hnew, numbered, numbered, List.mapIdx_concat]

/-- The loop adds a record for each entry it sees. -/
theorem wp_lFsListLoop (faults : Nat → Option Errno) (es done : List DirEntry)
    (table : LuaSequence) (s : State β) :
    wp (lFsListLoop faults done.length table es)
      (fun table' _ =>
        table'.length ≤ table.length + (entriesSeen faults done.length es).length ∧
        (table = numbered done → done.length + es.length < 2 ^ 32 →
          table' = numbered (done ++ entriesSeen faults done.length es)))
      (fun e t => (∃ le, e = .error le) ∧ RanOut s t) s := by
  induction es generalizing done table s with
  | nil =>
      refine wp_pure.mpr ⟨Nat.le_refl _, fun htable _ => ?_⟩
      rw [htable, entriesSeen, List.append_nil]
  | cons e es ih =>
      rw [lFsListLoop, entriesSeen]
      cases faults done.length with
      | some rc =>
          refine wp_pure.mpr ⟨Nat.le_refl _, fun htable _ => ?_⟩
          rw [htable, List.append_nil]
      | none =>
          refine wp_bind.mpr ((Leaves.record e s.stack s rfl).mono ?_ fun _ _ h => h)
          rintro ⟨⟩ t ⟨hstack, hst⟩
          have htop : valueAt t.stack (-1) = some (recordValue e) := by
            rw [hstack, valueAt_top]
          rw [wp_bind, luaRawseti, wp_bind, wp_slot htop, wp_bind, wp_allocating]
          cases hmemory : t.apiFails t.apiCalls with
          | true => exact ⟨⟨_, rfl⟩, (ranOut_next hmemory rfl).earlier hst⟩
          | false =>
              have hrest := ih (done ++ [e]) (rawSeti table (BitVec.ofNat 32 (done.length + 1))
                (recordValue e)) { t with apiCalls := t.apiCalls + 1, stack := t.stack.drop 1 }
              rw [List.length_append, List.length_singleton] at hrest
              refine hrest.mono ?_ ?_
              · rintro table' u ⟨hle, hnumbered⟩
                have hset := length_rawSeti_le table (BitVec.ofNat 32 (done.length + 1))
                  (recordValue e)
                rw [List.length_cons]
                refine ⟨by omega, fun htable hfew => ?_⟩
                rw [List.length_cons] at hfew
                rw [hnumbered (by rw [htable, rawSeti_numbered (by omega)]) (by omega),
                  List.append_assoc, List.singleton_append]
              · rintro exn u ⟨herror, hran⟩
                exact ⟨herror, hran.earlier ⟨hst.apiFails, hst.apiCalls.trans (Nat.le_succ _)⟩⟩

/-- The value is a table with the name, the size and the type of the entry. -/
def IsRecord (e : DirEntry) (v : Value) : Prop :=
  ∃ size, v = .table [(ascii "name", .string e.name), (ascii "size", .integer size),
    (ascii "type", .string (if e.type = .dir then ascii "dir" else ascii "file"))] none ∧
    size.toInt = e.size

/-- The table has one record for each entry, in order, at the indices from 1 on. -/
def Lists (table : LuaSequence) (entries : List DirEntry) : Prop :=
  table.length = entries.length ∧
    ∀ i (field : LuaInteger × Value) (e : DirEntry), table[i]? = some field →
      entries[i]? = some e → field.1.toInt = (i + 1 : Nat) ∧ IsRecord e field.2

theorem isRecord_recordValue {e : DirEntry} (h : e.size < 2 ^ 31) : IsRecord e (recordValue e) := by
  refine ⟨_, rfl, ?_⟩
  rw [BitVec.toInt_ofNat', Int.bmod_eq_of_le (by omega) (by omega)]

theorem lists_numbered {entries : List DirEntry} (hfew : entries.length < 2 ^ 31)
    (hsizes : ∀ e ∈ entries, e.size < 2 ^ 31) : Lists (numbered entries) entries := by
  refine ⟨List.length_mapIdx, fun i field e hfield he => ?_⟩
  rw [numbered, List.getElem?_mapIdx, he] at hfield
  obtain rfl := Option.some.inj hfield
  have hi := (List.getElem?_eq_some_iff.mp he).1
  refine ⟨?_, isRecord_recordValue (hsizes e (List.mem_of_getElem? he))⟩
  rw [BitVec.toInt_ofNat', Int.bmod_eq_of_le (by omega) (by omega)]

/-- A listing shows only what a Lua integer can hold. -/
theorem Lists.small {table : LuaSequence} {entries : List DirEntry} (h : Lists table entries) :
    entries.length < 2 ^ 31 ∧ ∀ e ∈ entries, e.size < 2 ^ 31 := by
  have hfields (i : Nat) (e : DirEntry) (he : entries[i]? = some e) :
      i + 1 < 2 ^ 31 ∧ e.size < 2 ^ 31 := by
    have hi := (List.getElem?_eq_some_iff.mp he).1
    obtain ⟨field, hfield⟩ : ∃ field, table[i]? = some field :=
      ⟨_, List.getElem?_eq_getElem (show i < table.length by rw [h.1]; exact hi)⟩
    obtain ⟨hindex, size, -, hsize⟩ := h.2 i field e hfield he
    have hkey := BitVec.toInt_lt (x := field.1)
    have hint := BitVec.toInt_lt (x := size)
    omega
  constructor
  · by_contra hmany
    have hlast : 2 ^ 31 - 1 < entries.length := by omega
    have hbound := (hfields (2 ^ 31 - 1) _ (List.getElem?_eq_getElem hlast)).1
    omega
  · intro e he
    obtain ⟨i, hi⟩ := List.mem_iff_getElem?.mp he
    exact (hfields i e hi).2

/-- Whatever the arguments, the file system and the memory, `fs.list` lists the directory it
opens or raises an error. -/
def FsListComplete (dir : DirStream) : Prop :=
  ∀ (β : Type) (tgt : Target) (mountPoint : Bytes) (fsOpendir : Bytes → Except Errno DirStream)
    (args : List Value) (s : State β), (∀ path d, fsOpendir path = .ok d → d = dir) →
      wp (callFsList tgt mountPoint fsOpendir args) (fun table _ => Lists table dir.entries)
        (fun e _ => ∃ le, e = .error le) s

/-- The argument is a string or an error, and without one there is the default. -/
theorem wp_luaLOptstring (tgt : Target) (arg : Nat) (default : Bytes) (s : State β) :
    wp (luaLOptstring tgt arg default) (fun _ t => t = s)
      (fun e _ => (∃ le, e = .error le) ∧ valueAt s.stack arg ≠ none) s := by
  rw [luaLOptstring, wp_bind, wp_get]
  cases hvalue : valueAt s.stack arg with
  | none => exact rfl
  | some v =>
      have hcheck : wp (luaLCheckstring tgt arg) (fun _ t => t = s)
          (fun e _ => (∃ le, e = .error le) ∧ some v ≠ none) s := by
        rw [luaLCheckstring, wp_bind, wp_get, hvalue, Option.bind_some]
        cases tgt.toText? v with
        | none => exact ⟨⟨_, rfl⟩, by simp⟩
        | some text => exact rfl
      cases v with
      | nil => exact rfl
      | _ => exact hcheck

/-- `fs.list` returns the records of the entries it sees, or raises an error; not without
arguments, with memory and a directory that opens. -/
theorem wp_callFsList (tgt : Target) (mountPoint : Bytes)
    (fsOpendir : Bytes → Except Errno DirStream) (args : List Value) (s : State β) :
    wp (callFsList tgt mountPoint fsOpendir args)
      (fun table _ => ∃ path dir, fsOpendir path = .ok dir ∧
        table.length ≤ (entriesSeen dir.faults 0 dir.entries).length ∧
        (dir.entries.length < 2 ^ 32 →
          table = numbered (entriesSeen dir.faults 0 dir.entries)))
      (fun e t => (∃ le, e = .error le) ∧ (args ≠ [] ∨ (∃ path rc, fsOpendir path = .error rc) ∨
        RanOut s t)) s := by
  rw [callFsList, wp_bind, wp_modify, lFsList, wp_bind]
  refine (wp_luaLOptstring tgt 1 mountPoint _).mono ?_ ?_
  · rintro path t rfl
    cases hdir : fsOpendir (lFsListPath mountPoint (CString.text path)) with
    | error rc =>
        simp only [hdir]
        exact ⟨⟨_, rfl⟩, .inr (.inl ⟨_, rc, hdir⟩)⟩
    | ok dir =>
        simp only [hdir, wp_bind]
        refine (Leaves.newtable _ rfl).mono ?_ fun _ _ h => ⟨h.1, .inr (.inr h.2)⟩
        rintro ⟨⟩ t ⟨-, hst⟩
        refine (wp_lFsListLoop dir.faults dir.entries [] [] t).mono ?_ ?_
        · rintro table u ⟨hle, hnumbered⟩
          rw [List.length_nil, Nat.zero_add] at hle hnumbered
          exact ⟨_, dir, hdir, hle, hnumbered rfl⟩
        · rintro e u ⟨herror, hran⟩
          exact ⟨herror, .inr (.inr (hran.earlier ⟨hst.apiFails, hst.apiCalls⟩))⟩
  · rintro e t ⟨herror, hargument⟩
    refine ⟨herror, .inl fun hargs => hargument ?_⟩
    rw [hargs]
    rfl

theorem fsListComplete_iff (dir : DirStream) :
    FsListComplete dir ↔
      dir.ReadsAll ∧ dir.entries.length < 2 ^ 31 ∧ ∀ e ∈ dir.entries, e.size < 2 ^ 31 := by
  constructor
  · intro hcomplete
    have hlists := hcomplete Unit Target.sample [] (fun _ => .ok dir) [] (.idle 0 ())
      fun _ _ hopen => (Except.ok.inj hopen).symm
    have hruns := wp_callFsList Target.sample [] (fun _ => .ok dir) [] (State.idle 0 ())
    obtain ⟨table, t, hrun, -, d, hopen, hle, -⟩ | ⟨e, t, -, -, hbad⟩ := wp_iff.mp hruns
    · obtain rfl := Except.ok.inj hopen
      have htable := hlists.of_run_ok hrun
      have hseen := (entriesSeen_begins dir.faults 0 dir.entries).length_le
      rw [htable.1] at hle
      exact ⟨dir.readsAll_iff.mp (Nat.le_antisymm hseen hle), htable.small⟩
    · obtain hargs | ⟨path, rc, hopen⟩ | ⟨n, -, -, hn⟩ := hbad
      · exact absurd rfl hargs
      · contradiction
      · exact absurd hn Bool.false_ne_true
  · rintro ⟨hreads, hfew, hsizes⟩ β tgt mountPoint fsOpendir args s hopen
    refine (wp_callFsList tgt mountPoint fsOpendir args s).mono ?_ fun _ _ h => h.1
    rintro table t ⟨path, d, hdir, -, hnumbered⟩
    obtain rfl := hopen path d hdir
    rw [hnumbered (by omega), hreads.entriesSeen_eq]
    exact lists_numbered hfew hsizes

/-- `"%-32s"`. -/
def padName (name : Bytes) : Bytes := name ++ List.replicate (32 - name.length) 32

/-- The line that is printed for an entry. -/
def listLine (e : DirEntry) : Bytes :=
  padName e.name ++ 32 :: (if e.type = .dir then ascii "<DIR>" else ascii (toString e.size))

/-- The first two lines. -/
def listHeader : List Bytes :=
  [padName (ascii "Name") ++ 32 :: ascii "Size", padName (ascii "----") ++ 32 :: ascii "----"]

/-- The loop of `cmd_list` with `i` entries read. -/
def cmdListLoop (faults : Nat → Option Errno) : Nat → List DirEntry → List Bytes
  | _, [] => []
  | i, e :: es =>
      match faults i with
      | some _ => []
      | none => listLine e :: cmdListLoop faults (i + 1) es

/-- `cmd_list`: the return code and the lines printed. -/
def cmdList (mountPoint : Bytes) (fsOpendir : Bytes → Except Errno DirStream) :
    LuaInteger × List Bytes :=
  match fsOpendir mountPoint with
  | .error rc =>
      (rc.code, [ascii "Cannot open " ++ mountPoint ++ ascii s!": {rc.code.toInt}"])
  | .ok dir => (0, listHeader ++ cmdListLoop dir.faults 0 dir.entries)

/-- If the command returns 0, it has printed all entries of the directory. -/
def CmdListComplete (dir : DirStream) : Prop :=
  ∀ mountPoint (fsOpendir : Bytes → Except Errno DirStream),
    (∀ path d, fsOpendir path = .ok d → d = dir) → (cmdList mountPoint fsOpendir).1 = 0 →
      (cmdList mountPoint fsOpendir).2 = listHeader ++ dir.entries.map listLine

theorem cmdListLoop_eq (faults : Nat → Option Errno) (i : Nat) (es : List DirEntry) :
    cmdListLoop faults i es = (entriesSeen faults i es).map listLine := by
  induction es generalizing i with
  | nil => rfl
  | cons e es ih =>
      rw [cmdListLoop, entriesSeen]
      cases faults i with
      | some rc => rfl
      | none => exact congrArg (listLine e :: ·) (ih (i + 1))

theorem cmdList_ok {mountPoint : Bytes} {fsOpendir : Bytes → Except Errno DirStream}
    {dir : DirStream} (h : fsOpendir mountPoint = .ok dir) :
    cmdList mountPoint fsOpendir =
      (0, listHeader ++ (entriesSeen dir.faults 0 dir.entries).map listLine) := by
  rw [cmdList, h, ← cmdListLoop_eq]

theorem cmdList_error {mountPoint : Bytes} {fsOpendir : Bytes → Except Errno DirStream}
    {rc : Errno} (h : fsOpendir mountPoint = .error rc) :
    (cmdList mountPoint fsOpendir).1 = rc.code := by
  rw [cmdList, h]

theorem cmdListComplete_iff (dir : DirStream) : CmdListComplete dir ↔ dir.ReadsAll := by
  constructor
  · intro hcomplete
    have hprinted := hcomplete [] (fun _ => .ok dir)
      (fun _ _ hopen => (Except.ok.inj hopen).symm) rfl
    rw [cmdList_ok rfl] at hprinted
    have hlen := congrArg List.length (List.append_cancel_left hprinted)
    rw [List.length_map, List.length_map] at hlen
    exact dir.readsAll_iff.mp hlen
  · intro hreads mountPoint fsOpendir hopen hzero
    cases hdir : fsOpendir mountPoint with
    | error rc =>
        rw [cmdList_error hdir] at hzero
        exact absurd hzero rc.code_ne_zero
    | ok d =>
        obtain rfl := hopen _ _ hdir
        rw [cmdList_ok hdir, hreads.entriesSeen_eq]

/-- The loop of `cmd_cat` before the call number `i`, with these contents left to read. Each
piece is printed as a C string. -/
def cmdCatLoop (reads : Nat → Except Errno Nat) (i : Nat) (left : Bytes) : Bytes :=
  match reads i with
  | .error _ => []
  | .ok k =>
      let n := min (min k 127) left.length
      if n = 0 then []
      else CString.text (left.take n) ++ cmdCatLoop reads (i + 1) (left.drop n)
termination_by left.length
decreasing_by
  rw [List.length_drop]
  omega

/-- `cmd_cat`: the return code and the text printed. -/
def cmdCat (mountPoint : Bytes) (argv : List Bytes)
    (fsOpen : Bytes → Except Errno FileStream) : LuaInteger × Bytes :=
  match argv with
  | _ :: name :: _ =>
      match buildShellPath mountPoint maxPath name with
      | .error rc => (rc.code, ascii "Path too long\n")
      | .ok path =>
          match fsOpen path with
          | .error rc =>
              (rc.code, ascii "Cannot open " ++ path ++ ascii s!": {rc.code.toInt}\n")
          | .ok file => (0, cmdCatLoop file.reads 0 file.contents ++ [10])
  | _ => (Errno.einval.code, ascii "Usage: lua_fs cat <filename>\n")

/-- If the command returns 0, it has printed the contents of the file and a line break. -/
def CmdCatComplete (file : FileStream) : Prop :=
  ∀ mountPoint argv (fsOpen : Bytes → Except Errno FileStream),
    (∀ path f, fsOpen path = .ok f → f = file) → (cmdCat mountPoint argv fsOpen).1 = 0 →
      (cmdCat mountPoint argv fsOpen).2 = file.contents ++ [10]

/-- The calls of `fs_read` from number `i` on give something until `length` bytes are read. -/
def ReadsThrough (reads : Nat → Except Errno Nat) (i length : Nat) : Prop :=
  ∃ counts : List Nat, (∀ (j k : Nat), counts[j]? = some k → reads (i + j) = .ok k ∧ 0 < k) ∧
    length ≤ (counts.map (min · 127)).sum

theorem readsThrough_nothing (reads : Nat → Except Errno Nat) (i : Nat) :
    ReadsThrough reads i 0 := ⟨[], by simp, Nat.le_refl _⟩

theorem not_readsThrough_of_stop {reads : Nat → Except Errno Nat} {i length : Nat}
    (hpos : 0 < length) (hstop : ∀ k, reads i = .ok k → k = 0) : ¬ ReadsThrough reads i length := by
  rintro ⟨_ | ⟨k, counts⟩, hreads, hle⟩
  · rw [List.map_nil, List.sum_nil] at hle
    omega
  · obtain ⟨hread, hk⟩ := hreads 0 k rfl
    exact absurd (hstop k hread) (by omega)

/-- The first call gives a piece, and the others have to give the rest. -/
theorem readsThrough_iff {reads : Nat → Except Errno Nat} {i k length : Nat}
    (hread : reads i = .ok k) (hk : 0 < k) :
    ReadsThrough reads i length ↔
      ReadsThrough reads (i + 1) (length - min (min k 127) length) := by
  constructor
  · rintro ⟨_ | ⟨k', counts⟩, hreads, hle⟩
    · rw [List.map_nil, List.sum_nil, Nat.le_zero] at hle
      rw [hle, Nat.zero_sub]
      exact readsThrough_nothing reads (i + 1)
    · obtain rfl := Except.ok.inj (hread.symm.trans (hreads 0 k' rfl).1)
      refine ⟨counts, fun j n hj => ?_, ?_⟩
      · have hnext := hreads (j + 1) n hj
        rwa [Nat.add_comm j, ← Nat.add_assoc] at hnext
      · rw [List.map_cons, List.sum_cons] at hle
        omega
  · rintro ⟨counts, hreads, hle⟩
    refine ⟨k :: counts, fun j n hj => ?_, ?_⟩
    · cases j with
      | zero =>
          obtain rfl := Option.some.inj hj
          exact ⟨hread, hk⟩
      | succ j =>
          have hnext := hreads j n hj
          rwa [Nat.add_assoc, Nat.add_comm 1] at hnext
    · rw [List.map_cons, List.sum_cons]
      omega

theorem length_cmdCatLoop_le (reads : Nat → Except Errno Nat) (i : Nat) (left : Bytes) :
    (cmdCatLoop reads i left).length ≤ left.length := by
  induction hlen : left.length using Nat.strong_induction_on generalizing i left with
  | h length ih =>
      rw [cmdCatLoop]
      cases reads i with
      | error rc => exact Nat.zero_le _
      | ok k =>
          simp only
          split
          · exact Nat.zero_le _
          · have hrest := ih (left.drop (min (min k 127) left.length)).length
              (by rw [List.length_drop]; omega) (i + 1) _ rfl
            have htext := CString.length_text_le (left.take (min (min k 127) left.length))
            rw [List.length_take] at htext
            rw [List.length_drop] at hrest
            rw [List.length_append]
            omega

/-- A piece that is followed by what is printed of the rest. -/
theorem text_append_eq_iff (piece : Bytes) {rest printed : Bytes}
    (hle : printed.length ≤ rest.length) :
    CString.text piece ++ printed = piece ++ rest ↔ 0 ∉ piece ∧ printed = rest := by
  constructor
  · intro heq
    have htext := CString.length_text_le piece
    have hlen := congrArg List.length heq
    rw [List.length_append, List.length_append] at hlen
    obtain ⟨hpiece, hrest⟩ := List.append_inj heq (by omega)
    exact ⟨CString.text_eq_self_iff.mp hpiece, hrest⟩
  · rintro ⟨hpiece, rfl⟩
    rw [CString.text_eq_self_iff.mpr hpiece]

/-- What is printed is what was to be read exactly when it has no NUL and is read through. -/
theorem cmdCatLoop_eq_iff (reads : Nat → Except Errno Nat) (i : Nat) (left : Bytes) :
    cmdCatLoop reads i left = left ↔ 0 ∉ left ∧ ReadsThrough reads i left.length := by
  induction hlen : left.length using Nat.strong_induction_on generalizing i left with
  | h length ih =>
      subst hlen
      have hstops (hstop : ∀ k, reads i = .ok k → k = 0) :
          [] = left ↔ 0 ∉ left ∧ ReadsThrough reads i left.length := by
        cases left with
        | nil => exact iff_of_true rfl ⟨by simp, readsThrough_nothing reads i⟩
        | cons b left =>
            refine iff_of_false (by simp) fun h => ?_
            exact not_readsThrough_of_stop (Nat.zero_lt_succ _) hstop h.2
      rw [cmdCatLoop]
      cases hread : reads i with
      | error rc => exact hstops fun k hk => nomatch hread.symm.trans hk
      | ok k =>
          simp only
          obtain rfl | hpos := Nat.eq_zero_or_pos k
          · rw [if_pos (by omega)]
            exact hstops fun k hk => (Except.ok.inj (hread.symm.trans hk)).symm
          by_cases hnone : left.length = 0
          · rw [if_pos (by omega), List.length_eq_zero_iff.mp hnone]
            exact iff_of_true rfl ⟨by simp, readsThrough_nothing reads i⟩
          · rw [if_neg (by omega)]
            have hrest := ih (left.drop (min (min k 127) left.length)).length
              (by rw [List.length_drop]; omega) (i + 1) _ rfl
            have hle := length_cmdCatLoop_le reads (i + 1) (left.drop (min (min k 127) left.length))
            have hsplit := text_append_eq_iff (left.take (min (min k 127) left.length)) hle
            rw [List.take_append_drop, hrest, List.length_drop, ← readsThrough_iff hread hpos,
              ← and_assoc] at hsplit
            rw [hsplit, ← List.mem_append.not.trans not_or, List.take_append_drop]

theorem cmdCat_ok {mountPoint command name path : Bytes} {more : List Bytes}
    {fsOpen : Bytes → Except Errno FileStream} {file : FileStream}
    (hpath : buildShellPath mountPoint maxPath name = .ok path) (hopen : fsOpen path = .ok file) :
    cmdCat mountPoint (command :: name :: more) fsOpen =
      (0, cmdCatLoop file.reads 0 file.contents ++ [10]) := by
  simp only [cmdCat, hpath, hopen]

/-- Only a file that was opened makes the command return 0. -/
theorem cmdCat_zero {mountPoint : Bytes} {argv : List Bytes}
    {fsOpen : Bytes → Except Errno FileStream} (hzero : (cmdCat mountPoint argv fsOpen).1 = 0) :
    ∃ path file, fsOpen path = .ok file ∧
      (cmdCat mountPoint argv fsOpen).2 = cmdCatLoop file.reads 0 file.contents ++ [10] := by
  obtain _ | ⟨command, _ | ⟨name, more⟩⟩ := argv
  · exact absurd hzero (Errno.code_ne_zero _)
  · exact absurd hzero (Errno.code_ne_zero _)
  · cases hpath : buildShellPath mountPoint maxPath name with
    | error rc =>
        simp only [cmdCat, hpath] at hzero
        exact absurd hzero rc.code_ne_zero
    | ok path =>
        cases hopen : fsOpen path with
        | error rc =>
            simp only [cmdCat, hpath, hopen] at hzero
            exact absurd hzero rc.code_ne_zero
        | ok file => exact ⟨path, file, hopen, by rw [cmdCat_ok hpath hopen]⟩

theorem cmdCatComplete_iff (file : FileStream) :
    CmdCatComplete file ↔
      0 ∉ file.contents ∧ ReadsThrough file.reads 0 file.contents.length := by
  rw [← cmdCatLoop_eq_iff]
  constructor
  · intro hcomplete
    have hpath : buildShellPath (ascii "/lfs") maxPath (ascii "a") = .ok (ascii "/lfs/a") := by
      decide
    have hcat : cmdCat (ascii "/lfs") [ascii "cat", ascii "a"] (fun _ => .ok file) =
        (0, cmdCatLoop file.reads 0 file.contents ++ [10]) := cmdCat_ok hpath rfl
    have hprinted := hcomplete (ascii "/lfs") [ascii "cat", ascii "a"] (fun _ => .ok file)
      (fun _ _ hopen => (Except.ok.inj hopen).symm) (by rw [hcat])
    rw [hcat] at hprinted
    exact List.append_cancel_right hprinted
  · intro hall mountPoint argv fsOpen hopened hzero
    obtain ⟨path, f, hopen, hprinted⟩ := cmdCat_zero hzero
    obtain rfl := hopened path f hopen
    rw [hprinted, hall]

/-- The loops are complete exactly when no call fails before the end, and the records and the
text can hold what is read. -/
theorem readLoopsComplete_iff (dir : DirStream) (file : FileStream) :
    (FsListComplete dir ↔
      dir.ReadsAll ∧ dir.entries.length < 2 ^ 31 ∧ ∀ e ∈ dir.entries, e.size < 2 ^ 31) ∧
    (CmdListComplete dir ↔ dir.ReadsAll) ∧
    (CmdCatComplete file ↔
      0 ∉ file.contents ∧ ReadsThrough file.reads 0 file.contents.length) :=
  ⟨fsListComplete_iff dir, cmdListComplete_iff dir, cmdCatComplete_iff file⟩

/-- A directory with one entry, which cannot be read. -/
def failingDir : DirStream :=
  ⟨[⟨ascii "main.lua", .file, 12, by decide⟩], fun _ => some .enoent⟩

/-- A file that begins as bytecode does, with a NUL after the signature. -/
def bytecodeFile : FileStream := ⟨[0x1B, 0x4C, 0x75, 0x61, 0x00, 0x01], fun _ => .ok 6⟩

theorem not_readLoopsComplete :
    ¬ FsListComplete failingDir ∧ ¬ CmdListComplete failingDir ∧ ¬ CmdCatComplete bytecodeFile := by
  have hfault : ¬ failingDir.ReadsAll := by
    intro hreads
    exact absurd (hreads 0 (by decide)) (by decide)
  refine ⟨fun hlist => hfault ((fsListComplete_iff failingDir).mp hlist).1,
    fun hlist => hfault ((cmdListComplete_iff failingDir).mp hlist), fun hcat => ?_⟩
  exact ((cmdCatComplete_iff bytecodeFile).mp hcat).1 (by decide)

end LuaZephyr
