import LuaZephyr.Zbus.Halves
import LuaZephyr.MsgDescr.Strings

/-!
# Published strings and the heaps they live in

A message with STRING fields carries addresses into the heap of the thread that
published it. A block of characters lives there until the collector finds it
unreferenced or the Lua state is closed, and its address may then be used again;
nothing ties this to the life of the message. A read copies the message first and follows
its pointers afterwards, while other threads go on. As long as no block is released that a
message points to, be it held by zbus or copied out and not yet converted, what is read is
what was published.

The collector is not modelled beyond this: it may release any unreferenced block at any
time, also one of a thread that is in the middle of a read.
-/

namespace LuaZephyr

open Outcome Patch Runs

/-- A live block of characters in the heap of a thread. -/
structure StringBlock where
  owner : Nat
  contents : Bytes
  deriving DecidableEq, Repr

/-- A read or wait between its two halves. -/
structure Reading where
  half : Reception
  /-- How many values the method returns. -/
  results : Nat
  /-- The message zbus gave it, with its channel. -/
  message : Option (Nat × Bytes)
  /-- The table a Lua thread had published as this message when it was copied. -/
  published : Option Value
  /-- The blocks after each move since the copy, oldest first. -/
  seen : List (Nat → Option StringBlock)

/-- The threads over zbus, the string blocks of all heaps by address, and which of them
the script of their owner references. -/
structure World (β : Type) where
  sys : System (β × List (Nat × Bytes))
  block : Nat → Option StringBlock
  referenced : Nat → Bool
  /-- The table last handed to zbus as a message of these bytes. -/
  published : Nat × Bytes → Option Value
  reading : Nat → Option Reading

inductive Move where
  /-- A script makes a string at a free address and keeps a reference to it. -/
  | create (thread addr : Nat) (s : Bytes)
  /-- A script drops its last reference to a string. -/
  | forget (addr : Nat)
  /-- The collector of the owner releases a block that is not referenced. -/
  | collect (addr : Nat)
  /-- A Lua state is closed: all its blocks are released. -/
  | close (thread : Nat)
  /-- A thread calls `channel:pub`; `place` says where its strings are. -/
  | pub (thread chan : Nat) (entries : Entries) (metatable : Option Nat) (timeout : Value)
      (place : Bytes → Nat)
  /-- A thread calls `channel:read` or `observer:wait_msg`, up to the conversion. -/
  | copy (thread : Nat) (r : Receive)
  /-- The call returns. What is read before its allocating call number `n` is read
  `moment n` moves after the copy. -/
  | convert (thread : Nat) (moment : Nat → Nat)

/-- The target during a call: strings are where `place` puts them, and an address holds
the characters of its block. -/
def Target.withStrings (tgt : Target) (place : Bytes → Nat) (block : Nat → Option StringBlock) :
    Target :=
  { tgt with
    stringAddress := place
    stringAt := fun a => (block a).map fun b => CString.text b.contents }

variable {β : Type} (tgt : Target) (zb : Zbus β) (maxChanMsgSize : Nat)

/-- The text of the string or number at a leaf of a table. -/
def Leaf.text (t : Value) (leaf : Leaf) : Option Bytes :=
  (lookupPath tgt t leaf.path).bind tgt.toText?

/-- Each text whose address the decoder stores. -/
def storedTexts (fields : List LuaMsgFieldDescr) (t : Value) : List Bytes :=
  ((leaves fields 0).filter (·.type = .string)).filterMap (Leaf.text tgt t)

/-- The texts of a table published on the channel. -/
def pubTexts (chan : Nat) (t : Value) : List Bytes :=
  match (zb.chan chan).userData with
  | some descr => storedTexts tgt descr.fields t
  | none => []

/-- `place` is where the texts are: in a live block of the thread, or at a free address
where the block is made during the call, as `lua_tostring` does for a number. -/
def Placed (w : World β) (i : Nat) (place : Bytes → Nat) (texts : List Bytes) : Prop :=
  ∀ s ∈ texts, place s ≠ 0 ∧ place s < 256 ^ tgt.pointerSize ∧
    (w.block (place s) = some ⟨i, s⟩ ∨ w.block (place s) = none)

instance (w : World β) (i : Nat) (place : Bytes → Nat) (texts : List Bytes) :
    Decidable (Placed tgt w i place texts) :=
  inferInstanceAs (Decidable (∀ s ∈ texts, _))

/-- The blocks once those of the texts have been made. Of two texts at one address the
later took it after the collector had released the first. -/
def blocksWith (block : Nat → Option StringBlock) (i : Nat) (place : Bytes → Nat)
    (texts : List Bytes) (a : Nat) : Option StringBlock :=
  match block a with
  | some b => some b
  | none => (texts.reverse.find? fun s => place s = a).map fun s => ⟨i, s⟩

namespace World

/-- `channel:pub`. The message it hands to zbus, whether or not the publish then succeeds,
is from now on one made from this table. -/
def pub (w : World β) (i c : Nat) (es : Entries) (mt : Option Nat) (timeout : Value)
    (place : Bytes → Nat) : Option Result × World β :=
  let block := blocksWith w.block i place (pubTexts tgt zb c (.table es mt))
  let r := w.sys.step (tgt.withStrings place block) zb.recording maxChanMsgSize
    (.call i (.pub c es mt timeout))
  (r.1, { w with
    sys := r.2
    block := block
    referenced := fun a => w.referenced a && (w.block a).isSome
    published :=
      match (r.2.bus.2.drop w.sys.bus.2.length).head? with
      | some p => Function.update w.published p (some (.table es mt))
      | none => w.published })

/-- The first half of a read or wait. -/
def copy (w : World β) (i : Nat) (r : Receive) : Option Result × World β :=
  match r.copy tgt zb.recording maxChanMsgSize ((w.sys.thread i).on w.sys.bus) with
  | .error e t => (some (.error e), { w with sys := w.sys.leave i t })
  | .ok none t => (some (.ok (topmost r.results t)), { w with sys := w.sys.leave i t })
  | .ok (some half) t =>
      let message := r.message tgt zb w.sys.bus.1
      (none, { w with
        sys := w.sys.leave i t
        reading := Function.update w.reading i
          (some ⟨half, r.results, message, message.bind w.published, []⟩) })

/-- The target at each moment of a conversion. -/
def amid (w : World β) (r : Reading) (moment : Nat → Nat) (n : Nat) : Target :=
  tgt.withStrings tgt.stringAddress (r.seen.getD (moment n) w.block)

/-- The second half of a read or wait. -/
def convert (w : World β) (i : Nat) (r : Reading) (moment : Nat → Nat) :
    Option Result × World β :=
  match LuaZephyr.convert zb.recording (w.amid tgt r moment) (some r.half)
      ((w.sys.thread i).on w.sys.bus) with
  | .error e t => (some (.error e), { w with
      sys := w.sys.leave i t
      reading := Function.update w.reading i none })
  | .ok _ t => (some (.ok (topmost r.results t)), { w with
      sys := w.sys.leave i t
      reading := Function.update w.reading i none })

/-- One move. A move whose condition does not hold changes nothing. -/
def move (w : World β) : Move → Option Result × World β
  | .create i a s =>
      if a ≠ 0 ∧ w.block a = none then
        (none, { w with
          block := Function.update w.block a (some ⟨i, s⟩)
          referenced := Function.update w.referenced a true })
      else (none, w)
  | .forget a => (none, { w with referenced := Function.update w.referenced a false })
  | .collect a =>
      if w.referenced a = false then
        (none, { w with block := Function.update w.block a none })
      else (none, w)
  | .close i =>
      if (w.reading i).isNone then
        (none, { w with block := fun a => (w.block a).filter (·.owner ≠ i) })
      else (none, w)
  | .pub i c es mt timeout place =>
      if (w.reading i).isNone ∧ Placed tgt w i place (pubTexts tgt zb c (.table es mt)) then
        w.pub tgt zb maxChanMsgSize i c es mt timeout place
      else (none, w)
  | .copy i r =>
      if (w.reading i).isNone then w.copy tgt zb maxChanMsgSize i r else (none, w)
  | .convert i moment =>
      match w.reading i with
      | some r => w.convert tgt zb i r moment
      | none => (none, w)

/-- Each read under way sees the blocks as a move leaves them. -/
def watch (w : World β) : World β :=
  { w with reading := fun i => (w.reading i).map fun r => { r with seen := r.seen ++ [w.block] } }

def step (w : World β) (m : Move) : Option Result × World β :=
  ((w.move tgt zb maxChanMsgSize m).1, (w.move tgt zb maxChanMsgSize m).2.watch)

/-- Nothing is published and nobody reads. -/
def initial (sys : System (β × List (Nat × Bytes))) (block : Nat → Option StringBlock)
    (referenced : Nat → Bool) : World β :=
  ⟨sys, block, referenced, fun _ => none, fun _ => none⟩

end World

/-- A read or wait succeeded and returned the value `v` for a message of the channel. -/
def Shows (chan : Nat) (v : Value) (o : Option Result) : Prop :=
  o = some (.ok [.integer 0, v]) ∨ o = some (.ok [.integer 0, .userdata .zbusChannel chan, v])

variable (chan : Nat) (fields : List LuaMsgFieldDescr) (held : β → Nat × Bytes → Prop)

/-- For each string of the table the message has the address of a live block with it. -/
def PointsLive (block : Nat → Option StringBlock) (m : Bytes) (t : Value) : Prop :=
  ∀ leaf ∈ leaves fields 0, leaf.type = .string → ∀ s, leaf.text tgt t = some s →
    ∃ a owner, pointerAt tgt m leaf.start = some a ∧ a ≠ 0 ∧ block a = some ⟨owner, s⟩

/-- A message of the channel that zbus holds, or that was copied out and is not yet
converted, has the address `a` in a STRING field. -/
def PointedTo (w : World β) (a : Nat) : Prop :=
  ∃ m, (held w.sys.bus.1 (chan, m) ∨
      ∃ i r, w.reading i = some r ∧ r.message = some (chan, m)) ∧
    ∃ leaf ∈ leaves fields 0, leaf.type = .string ∧ pointerAt tgt m leaf.start = some a

/-- The move releases no block a message points to, not even during a publish, and
publishes on the channel only strings without a NUL. -/
def Move.Keeps (w : World β) : Move → Prop
  | .collect a => w.referenced a = false → ¬ PointedTo tgt chan fields held w a
  | .close i => w.reading i = none → ∀ a s, w.block a = some ⟨i, s⟩ →
      ¬ PointedTo tgt chan fields held w a
  | .pub _ c entries metatable _ place => c = chan →
      ∀ s ∈ storedTexts tgt fields (.table entries metatable), (∀ b ∈ s, b ≠ 0) ∧
        ∀ s' ∈ storedTexts tgt fields (.table entries metatable), place s = place s' → s = s'
  | _ => True

/-- Strings survive up to here: each message published by a Lua thread and still held
points to live blocks with its strings, and each read or wait of such a message that now
returns, whatever was done since the message was copied, returns for every STRING field
the string that was published; the message pointed to live blocks all the time. -/
def StringsSurvive (w : World β) : Prop :=
  (∀ m t, held w.sys.bus.1 (chan, m) → w.published (chan, m) = some t →
    PointsLive tgt fields w.block m t) ∧
  ∀ i r moment m t v, w.reading i = some r → r.message = some (chan, m) →
    r.published = some t →
    Shows chan v (w.step tgt zb maxChanMsgSize (.convert i moment)).1 →
    (∀ leaf ∈ leaves fields 0, leaf.type = .string → ∀ s, leaf.text tgt t = some s →
      lookupPath tgt v leaf.path = some (.string s)) ∧
    ∀ block ∈ r.seen, PointsLive tgt fields block m t

variable {tgt zb maxChanMsgSize chan fields held}

theorem lookupPath_withStrings (place : Bytes → Nat) (block : Nat → Option StringBlock) (t : Value)
    (path : List Bytes) :
    lookupPath (tgt.withStrings place block) t path = lookupPath tgt t path := by
  induction path generalizing t with
  | nil => rfl
  | cons key path ih =>
      have hindex : (tgt.withStrings place block).index t key = tgt.index t key := rfl
      rw [lookupPath, lookupPath, hindex]
      cases tgt.index t key with
      | error e => rfl
      | ok v => simp only [ih]

theorem mem_storedTexts {t : Value} {leaf : Leaf} (hleaf : leaf ∈ leaves fields 0)
    (htype : leaf.type = .string) {s : Bytes} (hs : leaf.text tgt t = some s) :
    s ∈ storedTexts tgt fields t :=
  List.mem_filterMap.mpr ⟨leaf, List.mem_filter.mpr ⟨hleaf, by simpa using htype⟩, hs⟩

theorem blocksWith_of_some {block : Nat → Option StringBlock} {a : Nat} {b : StringBlock}
    (h : block a = some b) (i : Nat) (place : Bytes → Nat) (texts : List Bytes) :
    blocksWith block i place texts a = some b := by
  rw [blocksWith, h]

/-- Once the texts are made, each that no other replaced is in a block at its place. -/
theorem Placed.block {w : World β} {i : Nat} {place : Bytes → Nat} {texts : List Bytes}
    (h : Placed tgt w i place texts) {s : Bytes} (hs : s ∈ texts)
    (hinj : ∀ s' ∈ texts, place s = place s' → s = s') :
    blocksWith w.block i place texts (place s) = some ⟨i, s⟩ := by
  obtain ⟨-, -, hlive | hfree⟩ := h s hs
  · exact blocksWith_of_some hlive i place texts
  · rw [blocksWith, hfree]
    cases hfind : texts.reverse.find? fun s' => place s' = place s with
    | none => simpa using List.find?_eq_none.mp hfind s (List.mem_reverse.mpr hs)
    | some s' =>
        have hplace : place s' = place s := by simpa using List.find?_some hfind
        have hmem := List.mem_reverse.mp (List.mem_of_find?_eq_some hfind)
        rw [Option.map_some, hinj s' hmem hplace.symm]

/-- The message of a table points to the blocks its texts are in. -/
theorem putAll_pointers {n : Nat} (hwf : Describes (SizedLeaf tgt.pointerSize) fields n)
    {buf : Bytes} (hlen : buf.length = n) {place : Bytes → Nat}
    {block : Nat → Option StringBlock} {t : Value} {ws : List (Write UInt8)}
    (hws : tableWrites (tgt.withStrings place block) fields t 0 = .ok ws) {leaf : Leaf}
    (hleaf : leaf ∈ leaves fields 0) (htype : leaf.type = .string) {s : Bytes}
    (hs : leaf.text tgt t = some s) (hfits : place s < 256 ^ tgt.pointerSize) :
    pointerAt tgt (putAll buf ws) leaf.start = some (place s) := by
  obtain ⟨x, hx, hs⟩ := Option.bind_eq_some_iff.mp hs
  have hwf' : Describes (SizedLeaf (tgt.withStrings place block).pointerSize) fields n := hwf
  have hwithin : AllWithin ws buf.length :=
    tableWrites_within _ (hwf'.fits _ (by omega)) hws
  have hholds := holds_putAll hwithin (tableWrites_apart hwf' hws)
  have hmem : ⟨leaf.start, pointerCells tgt (place s)⟩ ∈ ws :=
    tableWrites_string hws hleaf htype (by rw [lookupPath_withStrings, hx]) hs
  refine pointerAt_of_holds (fun w hw => ?_) hfits
  obtain rfl := List.mem_singleton.mp hw
  exact hholds _ hmem

variable (tgt fields) in
/-- No string of the table has a NUL, and the message points to live blocks with them. -/
def BackedBy (block : Nat → Option StringBlock) (m : Bytes) (t : Value) : Prop :=
  (∀ s ∈ storedTexts tgt fields t, ∀ b ∈ s, b ≠ 0) ∧ PointsLive tgt fields block m t

theorem BackedBy.mono {block block' : Nat → Option StringBlock} {m : Bytes} {t : Value}
    (h : BackedBy tgt fields block m t)
    (hblock : ∀ a b, block a = some b → (∃ leaf ∈ leaves fields 0, leaf.type = .string ∧
      pointerAt tgt m leaf.start = some a) → block' a = some b) :
    BackedBy tgt fields block' m t := by
  refine ⟨h.1, fun leaf hleaf htype s hs => ?_⟩
  obtain ⟨a, owner, ha, hne, hlive⟩ := h.2 leaf hleaf htype s hs
  exact ⟨a, owner, ha, hne, hblock a _ hlive ⟨leaf, hleaf, htype, ha⟩⟩

variable (tgt chan fields) in
/-- A read under way has its message in its buffer, backed by live blocks ever since the
copy. `s` is the state of its thread. -/
structure Reading.Backed (r : Reading) (block : Nat → Option StringBlock) (s : State Unit) :
    Prop where
  buffer : ∃ buf, r.half.Holds buf s ∧
    ∀ p, r.message = some p → r.half.chan = p.1 ∧ ∃ tail, buf = p.2 ++ tail
  now : ∀ m t, r.message = some (chan, m) → r.published = some t →
    BackedBy tgt fields block m t
  before : ∀ m t, r.message = some (chan, m) → r.published = some t →
    ∀ b ∈ r.seen, BackedBy tgt fields b m t

variable (tgt chan fields held) in
/-- Every message of the channel is backed: those zbus holds and those being read. -/
structure World.Backed (w : World β) : Prop where
  held : ∀ m t, held w.sys.bus.1 (chan, m) → w.published (chan, m) = some t →
    BackedBy tgt fields w.block m t
  reading : ∀ i r, w.reading i = some r → r.Backed tgt chan fields w.block (w.sys.thread i)

theorem World.initial_backed (sys : System (β × List (Nat × Bytes)))
    (block : Nat → Option StringBlock) (referenced : Nat → Bool) :
    (World.initial sys block referenced).Backed tgt chan fields held :=
  ⟨nofun, nofun⟩

namespace World.Backed

variable {w : World β}

theorem watch (h : w.Backed tgt chan fields held) : w.watch.Backed tgt chan fields held := by
  refine ⟨h.held, fun i r' hr' => ?_⟩
  obtain ⟨r, hr, rfl⟩ := Option.map_eq_some_iff.mp hr'
  have hbacked := h.reading i r hr
  refine ⟨hbacked.buffer, hbacked.now, fun m t hm ht b hb => ?_⟩
  obtain hb | hb := List.mem_append.mp hb
  · exact hbacked.before m t hm ht b hb
  · obtain rfl := List.mem_singleton.mp hb
    exact hbacked.now m t hm ht

/-- Blocks that no message points to may change. -/
theorem withBlock (h : w.Backed tgt chan fields held) {block : Nat → Option StringBlock}
    (referenced : Nat → Bool)
    (hblock : ∀ a b, w.block a = some b → PointedTo tgt chan fields held w a →
      block a = some b) :
    World.Backed tgt chan fields held { w with block := block, referenced := referenced } := by
  refine ⟨fun m t hm ht => ?_, fun i r hr => ?_⟩
  · exact (h.held m t hm ht).mono fun a b hb ha => hblock a b hb ⟨m, .inl hm, ha⟩
  · have hbacked := h.reading i r hr
    refine ⟨hbacked.buffer, fun m t hm ht => ?_, hbacked.before⟩
    exact (hbacked.now m t hm ht).mono fun a b hb ha =>
      hblock a b hb ⟨m, .inr ⟨i, r, hr, hm⟩, ha⟩

/-- A thread that is not reading ends a call that leaves no new message with zbus. -/
theorem leave (h : w.Backed tgt chan fields held) {i : Nat} {t : State (β × List (Nat × Bytes))}
    (hheld : ∀ p, held t.bus.1 p → held w.sys.bus.1 p) (hi : w.reading i = none) :
    World.Backed tgt chan fields held { w with sys := w.sys.leave i t } := by
  refine ⟨fun m u hm hu => h.held m u (hheld _ hm) hu, fun j r hr => ?_⟩
  have hne : j ≠ i := by
    rintro rfl
    exact absurd (hi.symm.trans hr) nofun
  rw [show (w.sys.leave i t).thread j = w.sys.thread j from Function.update_of_ne hne _ _]
  exact h.reading j r hr

end World.Backed

theorem Receive.kernel_recording (r : Receive) (n : LuaInteger) (b : β × List (Nat × Bytes)) :
    r.kernel zb.recording n b = ((r.kernel zb n b.1).1, (r.kernel zb n b.1).2, b.2) := by
  cases r with
  | read chan timeout => rfl
  | waitMsg obs timeout rest => rfl

theorem Receive.message_recording (r : Receive) (b : β × List (Nat × Bytes)) :
    r.message tgt zb.recording b = r.message tgt zb b.1 := by
  simp only [Receive.message, Receive.kernel_recording]

/-- Receiving adds no message. -/
theorem Conveys.touches (hzb : Conveys zb held) {r : Receive} {b b' : β × List (Nat × Bytes)}
    (h : r.Touches zb.recording b b') {p : Nat × Bytes} (hp : held b'.1 p) : held b.1 p := by
  obtain rfl | ⟨n, rfl⟩ := h
  · exact hp
  · rw [Receive.kernel_recording] at hp
    cases r with
    | read chan timeout => exact hzb.read chan n b.1 p hp
    | waitMsg obs timeout rest => exact hzb.wait obs n b.1 p hp

/-- The message zbus gives a receiver was held. -/
theorem Conveys.message (hzb : Conveys zb held) {r : Receive} {b : β} {p : Nat × Bytes}
    (h : r.message tgt zb b = some p) : held b p := by
  obtain ⟨n, -, hp⟩ := Option.bind_eq_some_iff.mp h
  cases r with
  | read chan timeout =>
      rw [Receive.kernel] at hp
      cases hread : (zb.chanRead chan n b).1 with
      | error e =>
          rw [hread] at hp
          contradiction
      | ok m =>
          rw [hread] at hp
          obtain rfl := Option.some.inj hp
          exact hzb.read_ok chan n b m hread
  | waitMsg obs timeout rest =>
      rw [Receive.kernel] at hp
      cases hwait : (zb.subWaitMsg obs n b).1 with
      | error e =>
          rw [hwait] at hp
          contradiction
      | ok q =>
          rw [hwait] at hp
          obtain rfl := Option.some.inj hp
          exact hzb.wait_ok obs n b _ hwait

namespace World.Backed

variable {w : World β}

/-- A copied message is as well backed as it was in zbus. -/
theorem copy (h : w.Backed tgt chan fields held) (hzb : Conveys zb held) {i : Nat}
    (hi : w.reading i = none) (r : Receive) :
    (w.copy tgt zb maxChanMsgSize i r).2.Backed tgt chan fields held := by
  have hspec := r.copy_spec tgt zb.recording maxChanMsgSize ((w.sys.thread i).on w.sys.bus)
  unfold World.copy
  split
  · rename_i e t hrun
    exact h.leave (fun p hp => hzb.touches (hspec.of_run_error hrun) hp) hi
  · rename_i t hrun
    exact h.leave (fun p hp => hzb.touches (hspec.of_run_ok hrun).1 hp) hi
  · rename_i half t hrun
    obtain ⟨htouches, hcopies⟩ := hspec.of_run_ok hrun
    have hleft := h.leave (fun p hp => hzb.touches htouches hp) hi
    refine ⟨hleft.held, fun j s hs => ?_⟩
    by_cases hj : j = i
    · subst hj
      dsimp only at hs
      rw [Function.update_self] at hs
      obtain rfl := Option.some.inj hs
      obtain ⟨buf, hholds, hmessage⟩ := hcopies half rfl
      rw [Receive.message_recording] at hmessage
      refine ⟨⟨buf, ?_, hmessage⟩, fun m u hm hu => ?_, nofun⟩
      · rw [show (w.sys.leave j t).thread j = t.on () from Function.update_self ..]
        exact hholds
      · have hm : r.message tgt zb w.sys.bus.1 = some (chan, m) := hm
        have hu : (r.message tgt zb w.sys.bus.1).bind w.published = some u := hu
        rw [hm, Option.bind_some] at hu
        exact h.held m u (hzb.message hm) hu
    · exact hleft.reading j s ((Function.update_of_ne hj _ _).symm.trans hs)

/-- A conversion ends the read. -/
theorem convert (h : w.Backed tgt chan fields held) {i : Nat} {r : Reading}
    (hr : w.reading i = some r) (moment : Nat → Nat) :
    (w.convert tgt zb i r moment).2.Backed tgt chan fields held := by
  obtain ⟨buf, hholds, -⟩ := (h.reading i r hr).buffer
  have hspec := convert_spec zb.recording (w.amid tgt r moment)
    (show r.half.Holds _ ((w.sys.thread i).on w.sys.bus) from hholds)
  have hended (t : State (β × List (Nat × Bytes))) (hbus : t.bus = w.sys.bus) :
      World.Backed tgt chan fields held { w with
        sys := w.sys.leave i t
        reading := Function.update w.reading i none } := by
    refine ⟨fun m u hm hu => h.held m u ?_ hu, fun j s hs => ?_⟩
    · change held t.bus.1 (chan, m) at hm
      rwa [hbus] at hm
    · have hj : j ≠ i := by
        rintro rfl
        exact absurd ((Function.update_self ..).symm.trans hs) nofun
      have hs : w.reading j = some s := (Function.update_of_ne hj _ _).symm.trans hs
      rw [show (w.sys.leave i t).thread j = w.sys.thread j from Function.update_of_ne hj _ _]
      exact h.reading j s hs
  unfold World.convert
  split
  · rename_i e t hrun
    exact hended t (hspec.of_run_error hrun)
  · rename_i t hrun
    exact hended t (hspec.of_run_ok hrun).1

/-- A publish leaves the message of its table pointing to live blocks. -/
theorem pub (h : w.Backed tgt chan fields held) (hzb : Conveys zb held) {descr : LuaMsgDescr}
    (hdescr : (zb.chan chan).userData = some descr) (hfields : descr.fields = fields)
    (hwf : Describes (SizedLeaf tgt.pointerSize) fields (zb.chan chan).msgSize)
    {i c : Nat} (hi : w.reading i = none) {es : Entries} {mt : Option Nat} {timeout : Value}
    {place : Bytes → Nat} (hplaced : Placed tgt w i place (pubTexts tgt zb c (.table es mt)))
    (hkeeps : Move.Keeps tgt chan fields held w (.pub i c es mt timeout place)) :
    (w.pub tgt zb maxChanMsgSize i c es mt timeout place).2.Backed tgt chan fields held := by
  have hgrown : World.Backed tgt chan fields held { w with
      block := blocksWith w.block i place (pubTexts tgt zb c (.table es mt))
      referenced := fun a => w.referenced a && (w.block a).isSome } :=
    h.withBlock _ fun a b hb _ => blocksWith_of_some hb _ _ _
  have hothers (j : Nat) (r : Reading) (hr : w.reading j = some r) :
      r.Backed tgt chan fields (blocksWith w.block i place (pubTexts tgt zb c (.table es mt)))
        ((w.sys.step (tgt.withStrings place
          (blocksWith w.block i place (pubTexts tgt zb c (.table es mt)))) zb.recording
          maxChanMsgSize (.call i (.pub c es mt timeout))).2.thread j) := by
    have hne : j ≠ i := by
      rintro rfl
      exact absurd (hi.symm.trans hr) nofun
    rw [System.step_call_thread _ _ _ hne]
    exact hgrown.reading j r hr
  obtain ⟨hbus, -⟩ | ⟨descr', n, buf, ws, hdescr', hlen, hws, hbus, -⟩ :=
    w.sys.step_pub (tgt.withStrings place
      (blocksWith w.block i place (pubTexts tgt zb c (.table es mt)))) zb.recording
      maxChanMsgSize i c es mt timeout
  · refine ⟨fun m t hm ht => hgrown.held m t ?_ ?_, hothers⟩
    · dsimp only [World.pub] at hm
      rwa [hbus] at hm
    · dsimp only [World.pub] at ht
      rwa [hbus, List.drop_length] at ht
  · have hconveyed : ((zb.recording.chanPub c (putAll buf ws) n w.sys.bus).2.2.drop
        w.sys.bus.2.length).head? = some (c, putAll buf ws) := by
      change ((w.sys.bus.2 ++ [(c, putAll buf ws)]).drop _).head? = _
      rw [List.drop_left, List.head?_cons]
    refine ⟨fun m t hm ht => ?_, hothers⟩
    dsimp only [World.pub] at hm ht
    rw [hbus] at hm ht
    rw [hconveyed] at ht
    by_cases hnew : (chan, m) = (c, putAll buf ws)
    · obtain ⟨rfl, rfl⟩ := Prod.mk.inj hnew
      dsimp only at ht
      rw [Function.update_self] at ht
      obtain rfl := Option.some.inj ht
      obtain rfl := Option.some.inj (hdescr.symm.trans hdescr')
      have htexts : pubTexts tgt zb chan (.table es mt) =
          storedTexts tgt descr.fields (.table es mt) := by
        rw [pubTexts, hdescr]
      dsimp only [World.pub]
      rw [htexts] at hplaced hws ⊢
      rw [hfields] at hplaced hws ⊢
      refine ⟨fun s hs => (hkeeps rfl s hs).1, fun leaf hleaf htype s hs => ?_⟩
      have hmem := mem_storedTexts hleaf htype hs
      obtain ⟨hne, hfits, -⟩ := hplaced s hmem
      exact ⟨place s, i, putAll_pointers hwf hlen hws hleaf htype hs hfits, hne,
        hplaced.block hmem (hkeeps rfl s hmem).2⟩
    · have ht : w.published (chan, m) = some t := (Function.update_of_ne hnew _ _).symm.trans ht
      obtain hbefore | heq := hzb.pub c (putAll buf ws) n w.sys.bus.1 _ hm
      · exact hgrown.held m t hbefore ht
      · exact absurd heq hnew

end World.Backed

/-- Every admitted move keeps the messages backed. -/
theorem World.Backed.step {w : World β} (h : w.Backed tgt chan fields held)
    (hzb : Conveys zb held) {descr : LuaMsgDescr}
    (hdescr : (zb.chan chan).userData = some descr) (hfields : descr.fields = fields)
    (hwf : Describes (SizedLeaf tgt.pointerSize) fields (zb.chan chan).msgSize) {m : Move}
    (hkeeps : m.Keeps tgt chan fields held w) :
    (w.step tgt zb maxChanMsgSize m).2.Backed tgt chan fields held := by
  refine World.Backed.watch ?_
  cases m with
  | create i a s =>
      rw [World.move]
      split
      · rename_i hfree
        refine h.withBlock _ fun b block hb _ => ?_
        have hne : b ≠ a := by
          rintro rfl
          exact absurd (hfree.2.symm.trans hb) nofun
        exact (Function.update_of_ne hne _ _).trans hb
      · exact h
  | forget a => exact h.withBlock _ fun _ _ hb _ => hb
  | collect a =>
      rw [World.move]
      split
      · rename_i hdead
        refine h.withBlock w.referenced fun b block hb hpointed => ?_
        have hne : b ≠ a := by
          rintro rfl
          exact hkeeps hdead hpointed
        exact (Function.update_of_ne hne _ _).trans hb
      · exact h
  | close i =>
      rw [World.move]
      split
      · rename_i hi
        refine h.withBlock w.referenced fun b block hb hpointed => ?_
        have howner : block.owner ≠ i := by
          rintro rfl
          exact hkeeps (Option.isNone_iff_eq_none.mp hi) b block.contents hb hpointed
        rw [hb, Option.filter_some, if_pos (by simpa using howner)]
      · exact h
  | pub i c es mt timeout place =>
      rw [World.move]
      split
      · rename_i hmay
        exact h.pub hzb hdescr hfields hwf (Option.isNone_iff_eq_none.mp hmay.1) hmay.2 hkeeps
      · exact h
  | copy i r =>
      rw [World.move]
      split
      · rename_i hi
        exact h.copy hzb (Option.isNone_iff_eq_none.mp hi) r
      · exact h
  | convert i moment =>
      rw [World.move]
      split
      · rename_i r hr
        exact h.convert hr moment
      · exact h

/-- The last value returned is the one the conversion pushed. -/
theorem Shows.eq_of_topmost {v v' : Value} {n : Nat} {s : State β} {rest : List Value}
    (hstack : s.stack = v' :: rest) (h : Shows chan v (some (.ok (topmost n s)))) : v = v' := by
  unfold topmost at h
  rw [hstack] at h
  cases n with
  | zero => simp [Shows] at h
  | succ n =>
      rw [List.take_succ_cons, List.reverse_cons] at h
      obtain h | h := h
      · exact (List.append_singleton_inj.mp
          (Except.ok.inj (Option.some.inj h) : _ ++ [v'] = [.integer 0] ++ [v])).2.symm
      · exact (List.append_singleton_inj.mp (Except.ok.inj (Option.some.inj h) :
          _ ++ [v'] = [.integer 0, .userdata .zbusChannel chan] ++ [v])).2.symm

/-- A backed read returns every string that was published. -/
theorem World.Backed.shows {w : World β} (h : w.Backed tgt chan fields held)
    {descr : LuaMsgDescr} (hdescr : (zb.chan chan).userData = some descr)
    (hfields : descr.fields = fields) (hdistinct : Distinct fields) {i : Nat} {r : Reading}
    (hr : w.reading i = some r) {m : Bytes} (hm : r.message = some (chan, m)) {t v : Value}
    (ht : r.published = some t) {moment : Nat → Nat}
    (hshows : Shows chan v (w.step tgt zb maxChanMsgSize (.convert i moment)).1) {leaf : Leaf}
    (hleaf : leaf ∈ leaves fields 0) (htype : leaf.type = .string) {s : Bytes}
    (hs : leaf.text tgt t = some s) : lookupPath tgt v leaf.path = some (.string s) := by
  have hbacked := h.reading i r hr
  obtain ⟨buf, hholds, hmessage⟩ := hbacked.buffer
  obtain ⟨hchan, tail, rfl⟩ := hmessage _ hm
  have hspec := convert_spec zb.recording (w.amid tgt r moment)
    (show r.half.Holds _ ((w.sys.thread i).on w.sys.bus) from hholds)
  change Shows chan v (w.move tgt zb maxChanMsgSize (.convert i moment)).1 at hshows
  rw [World.move, hr] at hshows
  dsimp only at hshows
  unfold World.convert at hshows
  split at hshows
  · simp [Shows] at hshows
  · rename_i u hrun
    obtain ⟨-, htable⟩ := hspec.of_run_ok hrun
    obtain ⟨es, hes, hstack⟩ := htable descr (by rw [hchan]; exact hdescr)
    obtain rfl := hshows.eq_of_topmost hstack
    rw [hfields] at hes
    refine entriesAmid_string hes hdistinct hleaf fun n x hx => ?_
    -- The moment is one since the copy, and the message was backed all the time.
    have hlive : BackedBy tgt fields (r.seen.getD (moment n) w.block) m t := by
      rw [List.getD_eq_getElem?_getD]
      cases hseen : r.seen[moment n]? with
      | none => exact hbacked.now m t hm ht
      | some block => exact hbacked.before m t hm ht block (List.mem_of_getElem? hseen)
    obtain ⟨a, owner, ha, hne, hblock⟩ := hlive.2 leaf hleaf htype s hs
    have hnul := hlive.1 s (mem_storedTexts hleaf htype hs)
    have hread : leafValue (w.amid tgt r moment n) (m ++ tail) leaf = some (.string s) := by
      have ha' : pointerAt (w.amid tgt r moment n) (m ++ tail) leaf.start = some a :=
        map_bytesAt_longer tail ha
      have htext : (w.amid tgt r moment n).stringAt a = some s := by
        change ((r.seen.getD (moment n) w.block) a).map _ = some s
        rw [hblock, Option.map_some, CString.text_eq_self hnul]
      simp only [leafValue, htype, ha', Option.bind_some, stringValue, if_neg hne, htext,
        Option.map_some]
    exact (Option.some.inj (hread.symm.trans hx)).symm

/-- `struct { const char *text; }`. -/
def textFields : List LuaMsgFieldDescr := [⟨ascii "text", .string, 0, 4, []⟩]

def chanText (_ : Nat) : Channel := ⟨ascii "chan_text", 4, some ⟨textFields, 4⟩⟩

def textTable (s : String) : Value := .table [(ascii "text", .string (ascii s))] none

/-- No string yet. -/
def World.quiet : World (Bus chanText) :=
  .initial (.atRest 7 (Bus.initial chanText, [])) (fun _ => none) fun _ => false

def World.after (moves : List Move) : World (Bus chanText) :=
  (run (World.step Target.sample (Zbus.ofBus chanText [0]) 4) World.quiet moves).2

/-- Thread 0 makes a string and publishes it. -/
def publishHello : List Move :=
  [.create 0 100 (ascii "hello"),
    .pub 0 0 [(ascii "text", .string (ascii "hello"))] none (.integer 200) fun _ => 100]

/-- Thread 0 drops the string, and its address is used again. -/
def reuseHello : List Move := [.forget 100, .collect 100, .create 0 100 (ascii "bye")]

/-- Thread 1 copies the message out. -/
def copyText : Move := .copy 1 (.read 0 (.integer 200))

/-- Thread 1 follows the pointer as it is after the last move before its return. -/
def convertText (k : Nat) : Move := .convert 1 fun _ => k

/-- The read of thread 1 under way: its message and what was published as that. -/
def World.copied (w : World (Bus chanText)) : Option (Option (Nat × Bytes) × Option Value) :=
  (w.reading 1).map fun r => (r.message, r.published)

/-- What the read of thread 1 returns. -/
def World.returned (w : World (Bus chanText)) (k : Nat) : Option Result :=
  (w.step Target.sample (Zbus.ofBus chanText [0]) 4 (convertText k)).1

/-- A read of what was published as `hello` that returns `bye` does not survive. -/
theorem not_survive_of_bye {w : World (Bus chanText)} {k : Nat}
    (hcopied : w.copied = some (some (0, [100, 0, 0, 0]), some (textTable "hello")))
    (hread : w.returned k = some (.ok [.integer 0, textTable "bye"])) :
    ¬ StringsSurvive Target.sample (Zbus.ofBus chanText [0]) 4 0 textFields Bus.Held w := by
  intro hsurvive
  obtain ⟨r, hr, hcopied⟩ := Option.map_eq_some_iff.mp hcopied
  obtain ⟨hm, ht⟩ := Prod.mk.inj hcopied
  have hhello := (hsurvive.2 1 r (fun _ => k) _ _ _ hr hm ht (.inl hread)).1
    ⟨[ascii "text"], .string, 0, 4⟩ (by decide) rfl (ascii "hello") (by decide)
  exact absurd hhello (by decide)

end LuaZephyr
