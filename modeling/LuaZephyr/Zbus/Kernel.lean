import LuaZephyr.Zbus.Bindings
import LuaZephyr.MsgDescr.WellFormed

/-!
# What the bindings rely on in the zbus kernel

A channel keeps the last message stored in it, a message subscriber keeps the messages
delivered to it in order, and no message is made up. A publish stores its message before
the observers are notified, so that one that fails may have stored its message and queued
it for some of them; no hypothesis below says otherwise. Each is a hypothesis of the
results that need it, and the kernel at the end of the file meets all three; runs on fixed
inputs use it. Validators, listeners and the priorities of the observers are not modelled.
-/

namespace LuaZephyr

variable {β : Type}

/-- Messages of the channel are copied in and out as a whole. `stored` is the message the
channel holds and `count` the number of messages stored in it so far: every publish that
succeeds stores its message, and one that fails either does so too or changes nothing. -/
structure CopiesWhole (zb : Zbus β) (chan : Nat) (count : β → Nat) (stored : β → Bytes) :
    Prop where
  pub : ∀ message timeout b,
    (count (zb.chanPub chan message timeout b).2 = count b + 1 ∧
      stored (zb.chanPub chan message timeout b).2 = message) ∨
    ((zb.chanPub chan message timeout b).1 ≠ none ∧
      count (zb.chanPub chan message timeout b).2 = count b ∧
      stored (zb.chanPub chan message timeout b).2 = stored b)
  pub_other : ∀ c message timeout b, c ≠ chan →
    count (zb.chanPub c message timeout b).2 = count b ∧
      stored (zb.chanPub c message timeout b).2 = stored b
  read_ok : ∀ timeout b message, (zb.chanRead chan timeout b).1 = .ok message →
    message = stored b
  read_keeps : ∀ c timeout b, count (zb.chanRead c timeout b).2 = count b ∧
    stored (zb.chanRead c timeout b).2 = stored b
  wait_keeps : ∀ obs timeout b, count (zb.subWaitMsg obs timeout b).2 = count b ∧
    stored (zb.subWaitMsg obs timeout b).2 = stored b

/-- A wait takes the message at the head of the subscriber's queue. -/
structure Delivers (zb : Zbus β) (obs : Nat) (queue : β → List (Nat × Bytes)) : Prop where
  wait : ∀ timeout b chan message rest, queue b = (chan, message) :: rest →
    (zb.subWaitMsg obs timeout b).1 = .ok (chan, message) ∧
      queue (zb.subWaitMsg obs timeout b).2 = rest

/-- Messages are neither made up nor altered: what a read or wait returns is held, and
only a publish adds a message, its own. -/
structure Conveys (zb : Zbus β) (held : β → Nat × Bytes → Prop) : Prop where
  pub : ∀ c m timeout b p, held (zb.chanPub c m timeout b).2 p →
    held b p ∨ p = (c, m)
  read : ∀ c timeout b p, held (zb.chanRead c timeout b).2 p → held b p
  wait : ∀ obs timeout b p, held (zb.subWaitMsg obs timeout b).2 p → held b p
  read_ok : ∀ c timeout b m, (zb.chanRead c timeout b).1 = .ok m → held b (c, m)
  wait_ok : ∀ obs timeout b p, (zb.subWaitMsg obs timeout b).1 = .ok p → held b p

/-- The same kernel, with a list of the messages handed to `zbus_chan_pub`. -/
def Zbus.recording (zb : Zbus β) : Zbus (β × List (Nat × Bytes)) where
  chan := zb.chan
  channels := zb.channels
  chanFromName := zb.chanFromName
  obsName := zb.obsName
  observers := zb.observers
  chanPub c m timeout b :=
    ((zb.chanPub c m timeout b.1).1, ((zb.chanPub c m timeout b.1).2, b.2 ++ [(c, m)]))
  chanRead c timeout b := ((zb.chanRead c timeout b.1).1, ((zb.chanRead c timeout b.1).2, b.2))
  subWaitMsg obs timeout b :=
    ((zb.subWaitMsg obs timeout b.1).1, ((zb.subWaitMsg obs timeout b.1).2, b.2))
  chanRead_length c timeout b := zb.chanRead_length c timeout b.1
  subWaitMsg_length obs timeout b := zb.subWaitMsg_length obs timeout b.1

theorem Zbus.recording_chan (zb : Zbus β) : zb.recording.chan = zb.chan := rfl

/-- A message of the size its channel has. -/
abbrev Message (chan : Nat → Channel) (c : Nat) := { m : Bytes // m.length = (chan c).msgSize }

/-- Each channel with its message, how often one was stored, and its lock; the queue of the
one subscriber, and how many messages it takes. -/
structure Bus (chan : Nat → Channel) where
  stored : (c : Nat) → Message chan c
  count : Nat → Nat
  locked : Nat → Bool
  queue : List ((c : Nat) × Message chan c)
  room : Nat

/-- `-EAGAIN`: the channel stayed locked, or no message came, until the timeout. -/
def eagain : Errno := ⟨-11, by decide⟩

/-- `-ENOMEM`: no buffer was left for the subscriber's copy of the message. -/
def noBuffer : Errno := ⟨-12, Int.negSucc_lt_zero 11⟩

namespace Bus

variable {chan : Nat → Channel}

/-- At startup every channel holds zeros. -/
def initial (chan : Nat → Channel) : Bus chan where
  stored c := ⟨List.replicate (chan c).msgSize 0, List.length_replicate⟩
  count _ := 0
  locked _ := false
  queue := []
  room := 16

/-- The messages waiting, with their channels. -/
def waiting (b : Bus chan) : List (Nat × Bytes) := b.queue.map fun m => (m.1, m.2.1)

/-- The bytes the channel `c` holds. -/
def contents (c : Nat) (b : Bus chan) : Bytes := (b.stored c).1

/-- The message is in the channel when the subscriber's queue turns out to be full. -/
def pub (c : Nat) (m : Bytes) (b : Bus chan) : Option Errno × Bus chan :=
  if b.locked c then (some eagain, b)
  else if h : m.length = (chan c).msgSize then
    let b' := { b with
      stored := Function.update b.stored c ⟨m, h⟩
      count := Function.update b.count c (b.count c + 1) }
    if b.queue.length < b.room then (none, { b' with queue := b.queue ++ [⟨c, ⟨m, h⟩⟩] })
    else (some noBuffer, b')
  else (some eagain, b)

def read (c : Nat) (b : Bus chan) : Except Errno Bytes × Bus chan :=
  if b.locked c then (.error eagain, b) else (.ok (b.contents c), b)

def wait (b : Bus chan) : Except Errno (Nat × Bytes) × Bus chan :=
  match b.queue with
  | [] => (.error eagain, b)
  | m :: rest => (.ok (m.1, m.2.1), { b with queue := rest })

end Bus

/-- The kernel over `Bus`, whose one observer is observer 0. -/
def Zbus.ofBus (chan : Nat → Channel) (channels : List Nat) : Zbus (Bus chan) where
  chan := chan
  channels := channels
  chanFromName name := channels.find? fun c => (chan c).name = name
  obsName _ := ascii "subscriber"
  observers := [0]
  chanPub c m _ b := b.pub c m
  chanRead c _ b := b.read c
  subWaitMsg _ _ b := b.wait
  chanRead_length c _ b message h := by
    unfold Bus.read at h
    split at h
    · contradiction
    · obtain rfl := Except.ok.inj h
      exact (b.stored c).2
  subWaitMsg_length _ _ b c message h := by
    unfold Bus.wait at h
    split at h
    · contradiction
    · rename_i m rest _
      obtain ⟨rfl, rfl⟩ := Prod.mk.inj (Except.ok.inj h)
      exact m.2.2

/-- A publish stores its message, whether or not the queue takes it, or is refused. -/
theorem Bus.pub_cases {chan : Nat → Channel} (c : Nat) (m : Bytes) (b : Bus chan) :
    (∃ e, b.pub c m = (some e, b)) ∨ ∃ (h : m.length = (chan c).msgSize) (r : Option Errno)
      (more : List ((c : Nat) × Message chan c)), b.pub c m = (r, { b with
        stored := Function.update b.stored c ⟨m, h⟩
        count := Function.update b.count c (b.count c + 1)
        queue := b.queue ++ more }) ∧ (more = [] ∨ more = [⟨c, ⟨m, h⟩⟩]) := by
  unfold Bus.pub
  split
  · exact .inl ⟨_, rfl⟩
  · split
    · rename_i h
      split
      · exact .inr ⟨h, none, _, rfl, .inr rfl⟩
      · refine .inr ⟨h, some noBuffer, [], ?_, .inl rfl⟩
        rw [List.append_nil]
    · exact .inl ⟨_, rfl⟩

theorem copiesWhole_ofBus (chan : Nat → Channel) (channels : List Nat) (c : Nat) :
    CopiesWhole (Zbus.ofBus chan channels) c (fun b => b.count c) (Bus.contents c) where
  pub m _ b := by
    change ((b.pub c m).2.count c = b.count c + 1 ∧ (b.pub c m).2.contents c = m) ∨
      ((b.pub c m).1 ≠ none ∧ (b.pub c m).2.count c = b.count c ∧
        (b.pub c m).2.contents c = b.contents c)
    obtain ⟨e, hpub⟩ | ⟨h, r, more, hpub, -⟩ := b.pub_cases c m
    · rw [hpub]
      exact .inr ⟨nofun, rfl, rfl⟩
    · rw [hpub]
      exact .inl ⟨Function.update_self .., by simp [Bus.contents]⟩
  pub_other d m _ b hne := by
    change (b.pub d m).2.count c = b.count c ∧ (b.pub d m).2.contents c = b.contents c
    obtain ⟨e, hpub⟩ | ⟨h, r, more, hpub, -⟩ := b.pub_cases d m
    · rw [hpub]
      exact ⟨rfl, rfl⟩
    · rw [hpub]
      exact ⟨Function.update_of_ne hne.symm .., by
        simp [Bus.contents, Function.update_of_ne hne.symm]⟩
  read_ok _ b m h := by
    change (b.read c).1 = .ok m at h
    unfold Bus.read at h
    split at h
    · contradiction
    · exact (Except.ok.inj h).symm
  read_keeps d _ b := by
    change (b.read d).2.count c = b.count c ∧ (b.read d).2.contents c = b.contents c
    unfold Bus.read
    split
    · exact ⟨rfl, rfl⟩
    · exact ⟨rfl, rfl⟩
  wait_keeps _ _ b := by
    change b.wait.2.count c = b.count c ∧ b.wait.2.contents c = b.contents c
    unfold Bus.wait
    split
    · exact ⟨rfl, rfl⟩
    · exact ⟨rfl, rfl⟩

/-- The messages on a bus: each channel's own and those that wait. -/
def Bus.Held {chan : Nat → Channel} (b : Bus chan) (p : Nat × Bytes) : Prop :=
  p.2 = b.contents p.1 ∨ p ∈ b.waiting

theorem conveys_ofBus (chan : Nat → Channel) (channels : List Nat) :
    Conveys (Zbus.ofBus chan channels) Bus.Held where
  pub c m _ b p h := by
    change (b.pub c m).2.Held p at h
    obtain ⟨e, hpub⟩ | ⟨hlen, r, more, hpub, hmore⟩ := b.pub_cases c m
    · rw [hpub] at h
      exact .inl h
    · rw [hpub] at h
      obtain h | h := h
      · by_cases hc : p.1 = c
        · subst hc
          have hm : p.2 = m := by simpa [Bus.contents] using h
          exact .inr (Prod.ext rfl hm)
        · have hold : p.2 = b.contents p.1 := by
            simpa [Bus.contents, Function.update_of_ne hc] using h
          exact .inl (.inl hold)
      · rw [Bus.waiting, List.map_append, List.mem_append] at h
        obtain h | h := h
        · exact .inl (.inr h)
        · obtain rfl | rfl := hmore
          · contradiction
          · exact .inr (List.mem_singleton.mp h)
  read c _ b p h := by
    change (b.read c).2.Held p at h
    unfold Bus.read at h
    split at h <;> exact h
  wait _ _ b p h := by
    change b.wait.2.Held p at h
    unfold Bus.wait at h
    split at h
    · exact h
    · rename_i m rest hqueue
      refine h.imp_right (fun h => ?_)
      rw [Bus.waiting, hqueue]
      exact List.mem_cons_of_mem _ h
  read_ok c _ b m h := by
    change (b.read c).1 = .ok m at h
    unfold Bus.read at h
    split at h
    · contradiction
    · exact .inl (Except.ok.inj h).symm
  wait_ok _ _ b p h := by
    change b.wait.1 = .ok p at h
    unfold Bus.wait at h
    split at h
    · contradiction
    · rename_i m rest hqueue
      obtain rfl := Except.ok.inj h
      right
      rw [Bus.waiting, hqueue]
      exact List.mem_cons_self ..

theorem delivers_ofBus (chan : Nat → Channel) (channels : List Nat) (obs : Nat) :
    Delivers (Zbus.ofBus chan channels) obs Bus.waiting where
  wait _ b c m rest h := by
    change b.wait.1 = .ok (c, m) ∧ b.wait.2.waiting = rest
    cases hq : b.queue with
    | nil => simp [Bus.waiting, hq] at h
    | cons head tail =>
        rw [Bus.waiting, hq, List.map_cons] at h
        obtain ⟨hhead, rfl⟩ := List.cons.inj h
        obtain ⟨rfl, rfl⟩ := Prod.mk.inj hhead
        simp [Bus.wait, Bus.waiting, hq]

/-- The channel of sensor configurations. -/
def chanSensorConfig (_ : Nat) : Channel where
  name := ascii "chan_sensor_config"
  msgSize := 20
  userData := some ⟨msgSensorConfigFields, 20⟩

/-- `{ sensor_id = 42, offset = { x = 1, y = 2, z = 3 } }`. -/
def sensorCfg : Entries :=
  [(ascii "sensor_id", .integer 42),
    (ascii "offset", .table [(ascii "x", .integer 1), (ascii "y", .integer 2),
      (ascii "z", .integer 3)] none)]

end LuaZephyr
