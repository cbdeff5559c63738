import LuaZephyr.Fs.Functions
import LuaZephyr.Library.Recording

/-!
# The file and the buffer behind a load

`lua_fs_dofile` and `lua_fs_loadfile` with the bytes of their raw buffer: `fs_read` stores
into it, a NUL is stored behind what was read, and `luaL_loadbuffer` reads it. What is
opened, allocated and released on the way is noted. The Lua core is known only by what a
protected load promises; the script may do anything once it runs.

The buffer and the file are released before the script starts and on every way out.
-/

namespace LuaZephyr

open Outcome Recording Patch Programs

variable {β : Type}

/-- What a loader does with its file and its buffer. -/
inductive LoadEvent where
  | opened
  | closed
  | allocated (buf : Nat)
  | freed (buf : Nat)
  /-- `fs_read` returned these bytes, at the start of the buffer. -/
  | read (buf : Nat) (data : Bytes)
  /-- `luaL_loadbuffer` was handed these bytes. -/
  | loaded (bytes : Bytes)
  /-- The script starts. -/
  | started
  deriving DecidableEq, Repr

abbrev LoadM (β : Type) := RecordM Exn (State β) LoadEvent

/-- What the loaders use of the Lua core. A protected load raises no error, and does not
touch the raw blocks in use. -/
structure ScriptCore (β : Type) where
  loadbuffer : Bytes → Bytes → LuaM β LuaStatus
  pcall : LuaM β LuaStatus
  loadbuffer_keeps : ∀ buff name s, wp (loadbuffer buff name)
    (fun _ t => ∀ p bs, s.heap.blocks p = some bs → t.heap.blocks p = some bs)
    (fun _ _ => False) s

variable (cfg : FsConfig) (fs : FileSystem β) (core : ScriptCore β)

def fsOpenNoted (fullpath : Bytes) : LoadM β (Except Errno Unit) := do
  let rc ← lift (HostOp.inLua fs (.file (.open fullpath .read)))
  match rc with
  | .ok _ =>
      record fun _ => .opened
      return .ok ⟨⟩
  | .error rc => return .error rc

/-- `fs_read(&file, buf, count)`: the count of the bytes stored, or an error. -/
def fsReadNoted (buf count : Nat) : LoadM β (Except Errno Nat) := do
  match ← lift (HostOp.inLua fs (.file (.read count))) with
  | .ok data =>
      lift (storeBytes ⟨buf, 0⟩ data)
      record fun _ => .read buf data
      return .ok data.length
  | .error rc => return .error rc

def fsCloseNoted : LoadM β Unit := do
  let _ ← lift (HostOp.inLua fs (.file .close))
  record fun _ => .closed

/-- `allocf(ud, NULL, 0, size)`. -/
def allocfNoted (size : Nat) : LoadM β (Option Nat) := do
  match ← lift (runAllocator none 0 size) with
  | none => return none
  | some buf =>
      record fun _ => .allocated buf
      return some buf

/-- `allocf(ud, ptr, size, 0)`. -/
def allocfFreeNoted (ptr size : Nat) : LoadM β Unit := do
  let _ ← lift (runAllocator (some ptr) size 0)
  record fun _ => .freed ptr

/-- `luaL_loadbuffer(L, buf, len, name)`. -/
def luaLLoadbufferNoted (buf len : Nat) (name : Bytes) : LoadM β LuaStatus := do
  let bytes ← lift (loadBytes ⟨buf, 0⟩ len)
  record fun _ => .loaded bytes
  lift (core.loadbuffer bytes name)

def luaPcallNoted : LoadM β LuaStatus := do
  record fun _ => .started
  lift core.pcall

/-- `read_file_into_buf`: the buffer and the number of bytes read into it, or an errno. -/
def readFileIntoBufNoted (fullpath : Bytes) : LoadM β (Except Errno (Nat × Nat)) := do
  match ← lift (HostOp.inLua fs (.file (.stat fullpath))) with
  | .error rc => return .error rc
  | .ok entry =>
      if entry.type ≠ .file then return .error .eisdir
      else if cfg.maxFileSize < entry.size then return .error .efbig
      else
        match ← allocfNoted (entry.size + 1) with
        | none => return .error .enomem
        | some buf =>
            match ← fsOpenNoted fs fullpath with
            | .error rc =>
                allocfFreeNoted buf (entry.size + 1)
                return .error rc
            | .ok _ =>
                let bytesRead ← fsReadNoted fs buf entry.size
                fsCloseNoted fs
                match bytesRead with
                | .error rc =>
                    allocfFreeNoted buf (entry.size + 1)
                    return .error rc
                | .ok bytesRead =>
                    lift (storeBytes ⟨buf, bytesRead⟩ [0])
                    return .ok (buf, bytesRead)

/-- `lua_fs_dofile`. -/
def luaFsDofileNoted (path : Bytes) : LoadM β LuaInteger := do
  match buildPath cfg.mountPoint path with
  | .error rc => return rc.code
  | .ok fullpath =>
      match ← readFileIntoBufNoted cfg fs fullpath with
      | .error rc =>
          lift (luaPushfstring (cannotOpen fullpath rc))
          return rc.code
      | .ok (buf, len) =>
          let rc ← luaLLoadbufferNoted core buf len fullpath
          if rc ≠ .ok then
            allocfFreeNoted buf (len + 1)
            return rc.code
          allocfFreeNoted buf (len + 1)
          return (← luaPcallNoted core).code

/-- `lua_fs_loadfile`. -/
def luaFsLoadfileNoted (path : Bytes) : LoadM β LuaInteger := do
  match buildPath cfg.mountPoint path with
  | .error rc => return rc.code
  | .ok fullpath =>
      match ← readFileIntoBufNoted cfg fs fullpath with
      | .error rc =>
          lift (luaPushfstring (cannotOpen fullpath rc))
          return rc.code
      | .ok (buf, len) =>
          let rc ← luaLLoadbufferNoted core buf len fullpath
          allocfFreeNoted buf (len + 1)
          return rc.code

/-- What a loader has in hand: an open file, and a buffer with the bytes read into it. -/
structure LoadHolding where
  isOpen : Bool
  buffer : Option (Nat × Option Bytes)
  deriving DecidableEq, Repr

def LoadHolding.nothing : LoadHolding := ⟨false, none⟩

/-- One event, unless it must not happen: a second file or buffer, a release of what is not
in hand, a read into another buffer than the one in hand or from no open file, a load of
other bytes than were read, or a start with anything in hand. -/
def LoadHolding.next (h : LoadHolding) : LoadEvent → Option LoadHolding
  | .opened => if h.isOpen then none else some { h with isOpen := true }
  | .closed => if h.isOpen then some { h with isOpen := false } else none
  | .allocated buf => if h.buffer = none then some { h with buffer := some (buf, none) } else none
  | .freed buf =>
      if h.buffer.map Prod.fst = some buf then some { h with buffer := none } else none
  | .read buf data =>
      if h.isOpen ∧ h.buffer.map Prod.fst = some buf then
        some { h with buffer := some (buf, some data) }
      else none
  | .loaded bytes => if h.buffer.bind Prod.snd = some bytes then some h else none
  | .started => if h = .nothing then some h else none

/-- What is in hand after the events; none when one of them must not have happened. -/
def inHand (events : List LoadEvent) : Option LoadHolding :=
  events.foldlM LoadHolding.next .nothing

/-- Everything is released before the script starts and when the loader returns or raises.
It raises only what the script does, or for want of memory for its own message. -/
def Releases (loader : LoadM β LuaInteger) (s : State β) : Prop :=
  wp loader (fun _ t => inHand t.events = some .nothing)
    (fun e t => inHand t.events = some .nothing ∧ (e = .error .memory ∨ .started ∈ t.events))
    ⟨s, []⟩

/-- A read returns no more bytes than it is asked for. -/
def ReadsWithin (fs : FileSystem β) : Prop :=
  ∀ count b data, (fs (.read count) b).1 = .ok data → data.length ≤ count

section Rules

variable {fs} {core} {s : State β} {es : List LoadEvent}
variable {E : Exn → Recorded (State β) LoadEvent → Prop}

theorem withFresh_withBlock (heap : SysHeap) (bs bs' : Bytes) :
    (heap.withFresh bs).withBlock heap.next bs' = heap.withFresh bs' := by
  rw [SysHeap.withBlock, SysHeap.withFresh, Function.update_idem]
  rfl

theorem wp_fsOpenNoted {fullpath : Bytes}
    {Q : Except Errno Unit → Recorded (State β) LoadEvent → Prop} :
    wp (fsOpenNoted fs fullpath) Q E ⟨s, es⟩ ↔
      match fs (.open fullpath .read) s.bus with
      | (.ok _, b) => Q (.ok ⟨⟩) ⟨{ s with bus := b }, es ++ [.opened]⟩
      | (.error rc, b) => Q (.error rc) ⟨{ s with bus := b }, es⟩ := by
  refine (wp_bind.trans (wp_lift.trans wp_inLua_file)).trans ?_
  rcases fs (.open fullpath .read) s.bus with ⟨_ | _, b⟩
  · exact Iff.rfl
  · exact Iff.rfl

theorem wp_fsCloseNoted {Q : Unit → Recorded (State β) LoadEvent → Prop} :
    wp (fsCloseNoted fs) Q E ⟨s, es⟩ ↔
      Q ⟨⟩ ⟨{ s with bus := (fs .close s.bus).2 }, es ++ [.closed]⟩ := Iff.rfl

theorem wp_allocfNoted {size : Nat} {Q : Option Nat → Recorded (State β) LoadEvent → Prop} :
    wp (allocfNoted size) Q E ⟨s, es⟩ ↔
      match s.heap.freshContents size with
      | none => Q none ⟨{ s with heap := s.heap.withoutFresh size }, es⟩
      | some bs => Q (some s.heap.next) ⟨{ s with heap := s.heap.withFresh bs },
          es ++ [.allocated s.heap.next]⟩ := by
  rw [allocfNoted, wp_bind, wp_lift, wp_runAllocator_request]
  cases s.heap.freshContents size with
  | none => exact Iff.rfl
  | some bs => exact Iff.rfl

theorem wp_allocfFreeNoted {p n : Nat} {bs : Bytes} (h : s.heap.blocks p = some bs)
    {Q : Unit → Recorded (State β) LoadEvent → Prop} :
    wp (allocfFreeNoted p n) Q E ⟨s, es⟩ ↔
      Q ⟨⟩ ⟨{ s with heap := { s.heap with blocks := Function.update s.heap.blocks p none } },
        es ++ [.freed p]⟩ := by
  rw [allocfFreeNoted, wp_bind, wp_lift]
  simp only [runAllocator, wp_bind, wp_get, luaZephyrAllocator_free h, wp_set, wp_pure, wp_record]

theorem wp_allocfFreeNoted_fresh {heap : SysHeap} {bs : Bytes} (h : s.heap = heap.withFresh bs)
    {n : Nat} {Q : Unit → Recorded (State β) LoadEvent → Prop} :
    wp (allocfFreeNoted heap.next n) Q E ⟨s, es⟩ ↔
      Q ⟨⟩ ⟨{ s with heap := heap.borrowed }, es ++ [.freed heap.next]⟩ := by
  rw [allocfFreeNoted, wp_bind, wp_lift, wp_runAllocator_release h]
  exact Iff.rfl

/-- The bytes read are stored at the start of the buffer, which must have room for them. -/
theorem wp_fsReadNoted {buf count : Nat} {bs : Bytes} (h : s.heap.blocks buf = some bs)
    (hcount : count ≤ bs.length) (hfs : ReadsWithin fs)
    {Q : Except Errno Nat → Recorded (State β) LoadEvent → Prop} :
    wp (fsReadNoted fs buf count) Q E ⟨s, es⟩ ↔
      match fs (.read count) s.bus with
      | (.ok data, b) => Q (.ok data.length)
          ⟨{ s with heap := s.heap.withBlock buf (put bs ⟨0, data⟩), bus := b },
            es ++ [.read buf data]⟩
      | (.error rc, b) => Q (.error rc) ⟨{ s with bus := b }, es⟩ := by
  refine (wp_bind.trans (wp_lift.trans wp_inLua_file)).trans ?_
  rcases hread : fs (.read count) s.bus with ⟨_ | data, b⟩
  · exact Iff.rfl
  · have hlen : data.length ≤ count := hfs count s.bus data (by rw [hread])
    have hroom : 0 + data.length ≤ bs.length := by omega
    refine (wp_bind.trans (wp_lift.trans
      (wp_storeBytes (s := { s with bus := b }) (p := ⟨buf, 0⟩) h))).trans ?_
    rw [if_pos hroom]
    exact Iff.rfl

/-- `read_file_into_buf` with an open file, and what is seen of it. -/
def readOpened (buf size : Nat) : HostProg (Except Errno (Nat × Bytes)) := do
  let bytesRead ← fsRead size
  let _ ← fsClose
  match bytesRead with
  | .error rc =>
      allocfFree buf (size + 1)
      return .error rc
  | .ok data => return .ok (buf, data)

variable (fs) in
def readOpenedNoted (buf size : Nat) : LoadM β (Except Errno (Nat × Nat)) := do
  let bytesRead ← fsReadNoted fs buf size
  fsCloseNoted fs
  match bytesRead with
  | .error rc =>
      allocfFreeNoted buf (size + 1)
      return .error rc
  | .ok bytesRead =>
      lift (storeBytes ⟨buf, bytesRead⟩ [0])
      return .ok (buf, bytesRead)

/-- `read_file_into_buf` with a buffer, and what is seen of it. -/
def openAndRead (fullpath : Bytes) (buf size : Nat) : HostProg (Except Errno (Nat × Bytes)) := do
  match ← fsOpen fullpath .read with
  | .error rc =>
      allocfFree buf (size + 1)
      return .error rc
  | .ok _ => readOpened buf size

variable (fs) in
def openAndReadNoted (fullpath : Bytes) (buf size : Nat) :
    LoadM β (Except Errno (Nat × Nat)) := do
  match ← fsOpenNoted fs fullpath with
  | .error rc =>
      allocfFreeNoted buf (size + 1)
      return .error rc
  | .ok _ => readOpenedNoted fs buf size

/-- The two ends of reading a file. `P` is what is known of the end of `readFileIntoBuf`, which
does not follow the contents of the buffer. -/
structure ReadEnds (s : State β) (es : List LoadEvent)
    (P : Except Errno (Nat × Bytes) → State β → Prop)
    (Q : Except Errno (Nat × Nat) → Recorded (State β) LoadEvent → Prop) : Prop where
  ok : ∀ data b' bs bs', P (.ok (s.heap.next, data))
      { s with heap := s.heap.withFresh bs, bus := b' } →
    data.length < bs'.length → slice bs' 0 data.length = data →
    Q (.ok (s.heap.next, data.length)) ⟨{ s with heap := s.heap.withFresh bs', bus := b' },
      es ++ [.allocated s.heap.next, .opened, .read s.heap.next data, .closed]⟩
  error : ∀ rc heap b events, P (.error rc) { s with heap := heap, bus := b } →
    inHand events = some .nothing →
    Q (.error rc) ⟨{ s with heap := heap, bus := b }, es ++ events⟩

/-- The bytes read and a NUL behind them are at the start of the buffer. -/
theorem put_read_nul {bs data : Bytes} (hroom : data.length < bs.length) :
    put (put bs ⟨0, data⟩) ⟨data.length, [0]⟩ = data ++ 0 :: bs.drop (data.length + 1) := by
  have hfits : 0 + (data ++ [0]).length ≤ bs.length := by
    rw [List.length_append, List.length_singleton]
    omega
  have hadjacent := put_put_adjacent hfits
  rw [Nat.zero_add] at hadjacent
  rw [hadjacent, put_zero, List.length_append, List.append_assoc]
  rfl

section Reading

variable {P : Except Errno (Nat × Bytes) → State β → Prop} {E' : Exn → State β → Prop}
  {Q : Except Errno (Nat × Nat) → Recorded (State β) LoadEvent → Prop}

theorem wp_readOpenedNoted (hfs : ReadsWithin fs) (hends : ReadEnds s es P Q) {size : Nat}
    {bs : Bytes} (hlen : bs.length = size + 1) {b : β}
    (hplain : wp ((readOpened s.heap.next size).embed (HostOp.inLua fs)) P E'
      { s with heap := s.heap.withFresh bs, bus := b }) :
    wp (readOpenedNoted fs s.heap.next size) Q E
      ⟨{ s with heap := s.heap.withFresh bs, bus := b },
        es ++ [.allocated s.heap.next, .opened]⟩ := by
  have hlive : (s.heap.withFresh bs).blocks s.heap.next = some bs :=
    s.heap.withFresh_blocks_next bs
  rw [readOpened] at hplain
  replace hplain := wp_inLua_file.mp
    ((Prog.wp_embed_perform_bind (HostOp.file (.read size)) _).mp hplain)
  refine wp_bind.mpr ((wp_fsReadNoted hlive (by omega) hfs).mpr ?_)
  rcases hread : fs (.read size) b with ⟨_ | data, b'⟩
  · rw [hread] at hplain
    replace hplain := wp_inLua_file.mp
      ((Prog.wp_embed_perform_bind (HostOp.file .close) _).mp hplain)
    replace hplain := (wp_inLua_release rfl _).mp
      ((Prog.wp_embed_perform_bind (HostOp.free s.heap.next _) _).mp hplain)
    refine wp_bind.mpr (wp_fsCloseNoted.mpr ?_)
    refine wp_bind.mpr ((wp_allocfFreeNoted_fresh rfl).mpr ?_)
    simp only [List.append_assoc]
    exact hends.error _ _ _ _ hplain (by simp [inHand, LoadHolding.next, LoadHolding.nothing])
  rw [hread] at hplain
  replace hplain := wp_inLua_file.mp
    ((Prog.wp_embed_perform_bind (HostOp.file .close) _).mp hplain)
  refine wp_bind.mpr (wp_fsCloseNoted.mpr ?_)
  have hdata : data.length ≤ size := hfs size b data (by rw [hread])
  have hputs : (put bs ⟨0, data⟩).length = bs.length :=
    length_put (by simp only [Write.stop]; omega)
  have hroom : data.length + [(0 : UInt8)].length ≤ (put bs ⟨0, data⟩).length := by
    rw [hputs, List.length_singleton]
    omega
  rw [withFresh_withBlock]
  refine wp_bind.mpr (wp_lift.mpr
    ((wp_storeBytes (p := ⟨s.heap.next, data.length⟩) (SysHeap.withFresh_blocks_next _ _)).mpr ?_))
  rw [if_pos hroom, withFresh_withBlock, put_read_nul (by omega)]
  simp only [wp_pure, List.append_assoc]
  refine hends.ok data _ bs _ hplain ?_ ?_
  · rw [List.length_append, List.length_cons]
    omega
  · rw [slice, List.drop_zero, List.take_left' rfl]

theorem wp_openAndReadNoted (hfs : ReadsWithin fs) (hends : ReadEnds s es P Q) {fullpath : Bytes}
    {size : Nat} {bs : Bytes} (hlen : bs.length = size + 1) {b : β}
    (hplain : wp ((openAndRead fullpath s.heap.next size).embed (HostOp.inLua fs)) P E'
      { s with heap := s.heap.withFresh bs, bus := b }) :
    wp (openAndReadNoted fs fullpath s.heap.next size) Q E
      ⟨{ s with heap := s.heap.withFresh bs, bus := b }, es ++ [.allocated s.heap.next]⟩ := by
  rw [openAndRead] at hplain
  replace hplain := wp_inLua_file.mp
    ((Prog.wp_embed_perform_bind (HostOp.file (.open fullpath .read)) _).mp hplain)
  refine wp_bind.mpr (wp_fsOpenNoted.mpr ?_)
  rcases hopen : fs (.open fullpath .read) b with ⟨_ | _, b'⟩
  · rw [hopen] at hplain
    replace hplain := (wp_inLua_release rfl _).mp
      ((Prog.wp_embed_perform_bind (HostOp.free s.heap.next _) _).mp hplain)
    refine wp_bind.mpr ((wp_allocfFreeNoted_fresh rfl).mpr ?_)
    rw [List.append_assoc]
    exact hends.error _ _ _ _ hplain (by simp [inHand, LoadHolding.next, LoadHolding.nothing])
  · rw [hopen] at hplain
    rw [List.append_assoc]
    exact wp_readOpenedNoted hfs hends hlen hplain

theorem wp_readFileIntoBufNoted {fullpath : Bytes} (hfs : ReadsWithin fs)
    (hplain : wp ((readFileIntoBuf cfg.maxFileSize fullpath).embed (HostOp.inLua fs)) P E' s)
    (hends : ReadEnds s es P Q) : wp (readFileIntoBufNoted cfg fs fullpath) Q E ⟨s, es⟩ := by
  have hnone {rc : Errno} {heap : SysHeap} {b : β}
      (h : P (.error rc) { s with heap := heap, bus := b }) :
      Q (.error rc) ⟨{ s with heap := heap, bus := b }, es⟩ := by
    have hq := hends.error rc heap b [] h rfl
    rwa [List.append_nil] at hq
  rw [readFileIntoBuf] at hplain
  replace hplain := wp_inLua_file.mp
    ((Prog.wp_embed_perform_bind (HostOp.file (.stat fullpath)) _).mp hplain)
  refine wp_bind.mpr (wp_lift.mpr (wp_inLua_file.mpr ?_))
  rcases hstat : fs (.stat fullpath) s.bus with ⟨_ | ⟨type, size⟩, b₁⟩
  · rw [hstat] at hplain
    exact hnone hplain
  rw [hstat] at hplain
  dsimp only at hplain ⊢
  by_cases htype : type ≠ .file
  · rw [if_pos htype] at hplain ⊢
    exact hnone hplain
  rw [if_neg htype] at hplain ⊢
  by_cases hlarge : cfg.maxFileSize < size
  · rw [if_pos hlarge] at hplain ⊢
    exact hnone hplain
  rw [if_neg hlarge] at hplain ⊢
  replace hplain := wp_inLua_request.mp
    ((Prog.wp_embed_perform_bind (HostOp.alloc (size + 1)) _).mp hplain)
  refine wp_bind.mpr (wp_allocfNoted.mpr ?_)
  rcases hbs : s.heap.freshContents (size + 1) with _ | bs
  · rw [hbs] at hplain
    exact hnone hplain
  · rw [hbs] at hplain
    exact wp_openAndReadNoted hfs hends (SysHeap.length_freshContents hbs) hplain

end Reading

theorem wp_luaLLoadbufferNoted {buf len : Nat} {name bs : Bytes}
    (h : s.heap.blocks buf = some bs) (hlen : len ≤ bs.length)
    {Q : LuaStatus → Recorded (State β) LoadEvent → Prop} :
    wp (luaLLoadbufferNoted core buf len name) Q E ⟨s, es⟩ ↔
      wp (core.loadbuffer (slice bs 0 len) name)
        (fun rc t => Q rc ⟨t, es ++ [.loaded (slice bs 0 len)]⟩)
        (fun e t => E e ⟨t, es ++ [.loaded (slice bs 0 len)]⟩) s := by
  refine (wp_bind.trans (wp_lift.trans (wp_loadBytes (p := ⟨buf, 0⟩) h))).trans ?_
  rw [if_pos (by rw [Nat.zero_add]; exact hlen), wp_bind, wp_record, wp_lift]

end Rules

variable {cfg fs core}

theorem inHand_concat {events : List LoadEvent} {h : LoadHolding} (hevents : inHand events = some h)
    (event : LoadEvent) : inHand (events ++ [event]) = h.next event := by
  rw [inHand, List.foldlM_append, ← inHand, hevents]
  simp

/-- Running a file is loading it and starting what was loaded. -/
theorem luaFsDofileNoted_eq (path : Bytes) :
    luaFsDofileNoted cfg fs core path = do
      let rc ← luaFsLoadfileNoted cfg fs core path
      if rc = 0 then return (← luaPcallNoted core).code else return rc := by
  simp only [luaFsDofileNoted, luaFsLoadfileNoted]
  split
  · rename_i rc _
    rw [pure_bind, if_neg rc.code_ne_zero]
  · simp only [bind_assoc]
    congr 1
    funext r
    split
    · rename_i rc
      simp only [bind_assoc, pure_bind, if_neg rc.code_ne_zero]
    · simp only [bind_assoc]
      congr 1
      funext rc
      cases rc <;> simp [LuaStatus.code]

theorem wp_luaFsLoadfileNoted_releases (hfs : ReadsWithin fs) (path : Bytes) (s : State β) :
    wp (luaFsLoadfileNoted cfg fs core path) (fun _ t => inHand t.events = some .nothing)
      (fun e t => inHand t.events = some .nothing ∧ e = .error .memory) ⟨s, []⟩ := by
  rw [luaFsLoadfileNoted]
  split
  · rfl
  · rename_i fullpath _
    have hplain : wp ((readFileIntoBuf cfg.maxFileSize fullpath).embed (HostOp.inLua fs))
        (fun _ _ => True) (fun _ _ => False) s :=
      wp_readFileIntoBuf (fun _ _ _ _ => trivial) (fun _ _ _ _ => trivial)
    refine wp_bind.mpr (wp_readFileIntoBufNoted cfg hfs hplain ⟨?_, ?_⟩)
    · intro data b' _ bs _ hlen hdata
      have hlive := SysHeap.withFresh_blocks_next s.heap bs
      refine wp_bind.mpr ((wp_luaLLoadbufferNoted hlive (by omega)).mpr ?_)
      refine (core.loadbuffer_keeps _ _ _).mono ?_ fun _ _ h => h.elim
      intro rc t hkeeps
      refine wp_bind.mpr ((wp_allocfFreeNoted (hkeeps _ _ hlive)).mpr ?_)
      rw [hdata]
      simp [inHand, LoadHolding.next, LoadHolding.nothing]
    · intro rc heap b events _ hevents
      refine wp_bind.mpr (wp_lift.mpr (wp_luaPushfstring.mpr (wp_allocating.mpr ?_)))
      split
      · exact ⟨hevents, rfl⟩
      · exact hevents

/-- Both loaders have closed the file and freed the buffer, each once, before the script
starts and before they return or raise. The buffer was used only in between, within its
length, and what was loaded is what was read. -/
theorem loaders_release (hfs : ReadsWithin fs) (path : Bytes) (s : State β) :
    Releases (luaFsDofileNoted cfg fs core path) s ∧
      Releases (luaFsLoadfileNoted cfg fs core path) s := by
  have hload : wp (luaFsLoadfileNoted cfg fs core path) _ _ ⟨s, []⟩ :=
    wp_luaFsLoadfileNoted_releases hfs path s
  constructor
  · rw [luaFsDofileNoted_eq]
    refine wp_bind.mpr (hload.mono ?_ fun e t h => ⟨h.1, .inl h.2⟩)
    intro rc t ht
    split
    · -- Nothing is in hand when the script starts, and the loader does nothing after it.
      have hstarted : inHand (t.events ++ [.started]) = some .nothing := inHand_concat ht _
      refine wp_bind.mpr (wp_bind.mpr (wp_lift.mpr ?_))
      exact wp_of_forall (fun _ _ => hstarted) fun _ _ => ⟨hstarted, .inr (by simp)⟩
    · exact ht
  · exact hload.mono (fun _ _ h => h) fun _ _ h => ⟨h.1, .inl h.2⟩

/-- The core of the model, as the loaders use it. -/
def LuaCore.scriptCore (core : LuaCore β) : ScriptCore β where
  loadbuffer := luaLLoadbuffer core
  pcall := luaPcall core
  loadbuffer_keeps buff name s := by
    refine wp_luaLLoadbuffer.mpr ?_
    split
    · exact fun _ _ h => h
    · split
      · exact fun _ _ h => h
      · exact fun _ _ h => h

theorem loaders_release_seven :
    ReadsWithin (.holding (ascii "return 7")) ∧
    Releases (luaFsDofileNoted ⟨ascii "/lfs", 1024⟩ (.holding (ascii "return 7"))
      (LuaCore.returning (.integer 7)).scriptCore (ascii "a.lua")) (State.idle 0 ()) ∧
    Releases (luaFsLoadfileNoted ⟨ascii "/lfs", 1024⟩ (.holding (ascii "return 7"))
      (LuaCore.returning (.integer 7)).scriptCore (ascii "a.lua")) (State.idle 0 ()) := by
  have hfs : ReadsWithin (.holding (ascii "return 7")) := by
    intro count b data h
    obtain rfl := Except.ok.inj h
    exact List.length_take_le _ _
  exact ⟨hfs, loaders_release hfs _ _⟩

example : outcome (luaFsDofileNoted ⟨ascii "/lfs", 1024⟩ (.holding (ascii "return 7"))
    (LuaCore.returning (.integer 7)).scriptCore (ascii "a.lua")) (State.idle 0 ()) =
      (some 0, [.allocated 0, .opened, .read 0 (ascii "return 7"), .closed,
        .loaded (ascii "return 7"), .freed 0, .started]) := by decide +kernel

theorem wp_luaFsLoadfileNoted (hfs : ReadsWithin fs) {core : LuaCore β} {path : Bytes}
    {s : State β} {es : List LoadEvent} {Q : LuaInteger → State β → Prop} {E : Exn → State β → Prop}
    (hplain : wp (luaFsLoadfile cfg fs core path) Q E s) :
    wp (luaFsLoadfileNoted cfg fs core.scriptCore path) (fun rc t => Q rc t.state)
      (fun e t => E e t.state) ⟨s, es⟩ := by
  rw [luaFsLoadfile] at hplain
  rw [luaFsLoadfileNoted]
  cases hpath : buildPath cfg.mountPoint path with
  | error rc =>
      rw [hpath] at hplain
      exact hplain
  | ok fullpath =>
      rw [hpath] at hplain
      refine wp_bind.mpr (wp_readFileIntoBufNoted cfg hfs (wp_bind.mp hplain) ⟨?_, ?_⟩)
      · intro data b' bs bs' hrest hlen hdata
        have hlive := SysHeap.withFresh_blocks_next s.heap bs'
        refine wp_bind.mpr ((wp_luaLLoadbufferNoted hlive (by omega)).mpr ?_)
        refine wp_luaLLoadbuffer.mpr ?_
        replace hrest := wp_luaLLoadbuffer.mp (wp_bind.mp hrest)
        rw [hdata]
        split at hrest
        · rename_i hfail
          rw [if_pos hfail]
          exact wp_bind.mpr ((wp_allocfFreeNoted_fresh rfl).mpr
            ((wp_runAllocator_release rfl _).mp (wp_bind.mp hrest)))
        · rename_i hmemory
          rw [if_neg hmemory]
          cases hcompile : core.compile data fullpath with
          | error message =>
              rw [hcompile] at hrest
              exact wp_bind.mpr ((wp_allocfFreeNoted_fresh rfl).mpr
                ((wp_runAllocator_release rfl _).mp (wp_bind.mp hrest)))
          | ok f =>
              rw [hcompile] at hrest
              exact wp_bind.mpr ((wp_allocfFreeNoted_fresh rfl).mpr
                ((wp_runAllocator_release rfl _).mp (wp_bind.mp hrest)))
      · intro rc heap b events hrest hevents
        exact wp_bind.mpr (wp_lift.mpr (wp_bind.mp hrest))

theorem erases_luaFsLoadfileNoted (hfs : ReadsWithin fs) (core : LuaCore β) (path : Bytes) :
    Erases (luaFsLoadfileNoted cfg fs core.scriptCore path) (luaFsLoadfile cfg fs core path) :=
  fun s => wp_luaFsLoadfileNoted hfs (wp_self _ s.state)

theorem erases_luaFsDofileNoted (hfs : ReadsWithin fs) (core : LuaCore β) (path : Bytes) :
    Erases (luaFsDofileNoted cfg fs core.scriptCore path) (luaFsDofile cfg fs core path) := by
  rw [luaFsDofileNoted_eq, luaFsDofile_eq]
  refine (erases_luaFsLoadfileNoted hfs core path).bind fun rc => ?_
  split
  · exact (Erases.record_bind (erases_lift (luaPcall core))).bind fun _ => erases_pure _
  · exact erases_pure _

end LuaZephyr
