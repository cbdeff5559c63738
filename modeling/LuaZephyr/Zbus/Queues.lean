import LuaZephyr.Zbus.Kernel
import LuaZephyr.Zbus.Methods

/-!
# Message subscribers with queues of their own

Each message subscriber has a queue. A publish puts the message into the queues of the
subscribers that observe the channel, of each or, when it fails, of some; a wait takes the
head of one queue. A C thread that waits with `K_FOREVER` goes on with a message only.

How long a queue may get is not fixed: a publish for which there is no room is one that does not
reach the subscriber. Listeners and plain subscribers are left out, for nothing is stored for
them, and so are times.
-/

namespace LuaZephyr

open Patch

variable {β : Type}

/-- What zbus documents of the queues. `notifies` lists the subscribers of a channel. -/
structure Queues (zb : Zbus β) (notifies : Nat → List Nat)
    (queue : Nat → β → List (Nat × Bytes)) : Prop where
  pub : ∀ c message timeout b obs,
    queue obs (zb.chanPub c message timeout b).2 = queue obs b ∨ (obs ∈ notifies c ∧
      queue obs (zb.chanPub c message timeout b).2 = queue obs b ++ [(c, message)])
  read : ∀ c timeout b obs, queue obs (zb.chanRead c timeout b).2 = queue obs b
  wait_ok : ∀ obs timeout b p, (zb.subWaitMsg obs timeout b).1 = .ok p →
    queue obs b = p :: queue obs (zb.subWaitMsg obs timeout b).2
  wait_error : ∀ obs timeout b e, (zb.subWaitMsg obs timeout b).1 = .error e →
    queue obs (zb.subWaitMsg obs timeout b).2 = queue obs b
  wait_other : ∀ obs obs' timeout b, obs' ≠ obs →
    queue obs' (zb.subWaitMsg obs timeout b).2 = queue obs' b

variable {zb : Zbus β} {notifies : Nat → List Nat} {queue : Nat → β → List (Nat × Bytes)}

/-- A publish does not reach the subscribers of other channels. -/
theorem Queues.pub_other (hzb : Queues zb notifies queue) {c obs : Nat} (h : obs ∉ notifies c)
    (message : Bytes) (timeout : LuaInteger) (b : β) :
    queue obs (zb.chanPub c message timeout b).2 = queue obs b :=
  (hzb.pub c message timeout b obs).resolve_right fun hnotified => h hnotified.1

/-- `zbus_sub_wait_msg(.., K_FOREVER)`: no result until there is a message. -/
def Zbus.takeMsg (zb : Zbus β) (forever : LuaInteger) (obs : Nat) (b : β) :
    Option ((Nat × Bytes) × β) :=
  match zb.subWaitMsg obs forever b with
  | (.ok p, b') => some (p, b')
  | (.error _, _) => none

theorem Queues.takeMsg (hzb : Queues zb notifies queue) {forever : LuaInteger} {obs : Nat}
    {b b' : β} {p : Nat × Bytes} (h : zb.takeMsg forever obs b = some (p, b')) :
    queue obs b = p :: queue obs b' ∧ ∀ obs', obs' ≠ obs → queue obs' b' = queue obs' b := by
  unfold Zbus.takeMsg at h
  split at h
  · rename_i p' b'' hwait
    obtain ⟨rfl, rfl⟩ := Prod.mk.inj (Option.some.inj h)
    have hok := hzb.wait_ok obs forever b p' (congrArg Prod.fst hwait)
    have hother (obs' : Nat) (hne : obs' ≠ obs) := hzb.wait_other obs obs' forever b hne
    rw [hwait] at hok hother
    exact ⟨hok, hother⟩
  · contradiction

section Calls

variable {tgt : Target} {s u : State β} {rs : List Value} {e : Exn} {timeout : LuaInteger}

/-- `channel:pub` leaves a queue alone, or puts the message made of the table into it. -/
theorem Queues.pubReturns (hzb : Queues zb notifies queue) {chan : Nat} {t : Value}
    (h : PubReturns tgt zb chan t timeout s rs u) (obs : Nat) :
    queue obs u.bus = queue obs s.bus ∨ (obs ∈ notifies chan ∧ ∃ descr buf ws,
      (zb.chan chan).userData = some descr ∧ buf.length = (zb.chan chan).msgSize ∧
      tableWrites tgt descr.fields t 0 = .ok ws ∧
      queue obs u.bus = queue obs s.bus ++ [(chan, putAll buf ws)]) := by
  have hkept (hbus : u.bus = s.bus) : queue obs u.bus = queue obs s.bus := congrArg _ hbus
  unfold PubReturns at h
  split at h
  · exact .inl (hkept h.2.2)
  · rename_i buf hfresh
    obtain ⟨-, h⟩ := h
    split at h
    · exact .inl (hkept h.2)
    · rename_i descr hdescr
      obtain ⟨ws, hws, -, -, -, hbus⟩ := h
      unfold publish at hbus
      split at hbus
      · exact .inl (hkept hbus)
      · rw [hbus]
        refine (hzb.pub chan (putAll buf ws) timeout s.bus obs).imp_right ?_
        rintro ⟨hmem, hnew⟩
        exact ⟨hmem, descr, buf, ws, hdescr, SysHeap.length_freshContents hfresh, hws, hnew⟩

theorem Queues.readReturns (hzb : Queues zb notifies queue) {chan : Nat}
    (h : ReadReturns tgt zb chan timeout s rs u) (obs : Nat) :
    queue obs u.bus = queue obs s.bus := by
  unfold ReadReturns at h
  split at h
  · rw [h.2.2]
  · rw [h.2.1, hzb.read]

theorem Queues.readRaises (hzb : Queues zb notifies queue) {chan : Nat}
    (h : ReadRaises tgt zb chan timeout s e u) (obs : Nat) :
    queue obs u.bus = queue obs s.bus := by
  obtain ⟨buf, -, -, hbus, -⟩ := h
  rw [hbus, hzb.read]

variable {maxChanMsgSize obs : Nat}

/-- `observer:wait_msg` reports an error, or takes the head of its queue. -/
theorem Queues.waitReturns (hzb : Queues zb notifies queue)
    (h : WaitReturns tgt zb maxChanMsgSize obs timeout s rs u) :
    ((∃ err, err ≠ 0 ∧ rs = [.integer err, .nil, .nil]) ∧
      ∀ obs', queue obs' u.bus = queue obs' s.bus) ∨
    ∃ chan message buf v, queue obs s.bus = (chan, message) :: queue obs u.bus ∧
      (∀ obs', obs' ≠ obs → queue obs' u.bus = queue obs' s.bus) ∧
      shownMessage tgt zb chan (put buf ⟨0, message⟩) = some v ∧
      rs = [.integer 0, .userdata .zbusChannel chan, v] := by
  unfold WaitReturns at h
  split at h
  · obtain ⟨rfl, -, hbus⟩ := h
    exact .inl ⟨⟨enomem, by decide, rfl⟩, fun obs' => congrArg _ hbus⟩
  · rename_i buf hfresh
    obtain ⟨-, hbus, h⟩ := h
    rw [hbus]
    split at h
    · rename_i e hwait
      refine .inl ⟨⟨e.code, e.code_ne_zero, h⟩, fun obs' => ?_⟩
      by_cases hobs : obs' = obs
      · rw [hobs, hzb.wait_error obs timeout s.bus e hwait]
      · exact hzb.wait_other obs obs' timeout s.bus hobs
    · rename_i chan message hwait
      obtain ⟨-, -, v, hshown, hrs⟩ := h
      exact .inr ⟨chan, message, buf, v, hzb.wait_ok obs timeout s.bus _ hwait,
        fun obs' hne => hzb.wait_other obs obs' timeout s.bus hne, hshown, hrs⟩

/-- When it raises, the head of the queue is lost. -/
theorem Queues.waitRaises (hzb : Queues zb notifies queue)
    (h : WaitRaises tgt zb maxChanMsgSize obs timeout s e u) :
    (∃ p, queue obs s.bus = p :: queue obs u.bus) ∧
      ∀ obs', obs' ≠ obs → queue obs' u.bus = queue obs' s.bus := by
  obtain ⟨buf, chan, message, -, hwait, -, hbus, -⟩ := h
  rw [hbus]
  exact ⟨⟨_, hzb.wait_ok obs timeout s.bus _ hwait⟩,
    fun obs' hne => hzb.wait_other obs obs' timeout s.bus hne⟩

end Calls

/-- Each channel with its message, and each subscriber with its queue. -/
structure Mailboxes (chan : Nat → Channel) where
  stored : (c : Nat) → Message chan c
  queued : Nat → List ((c : Nat) × Message chan c)

namespace Mailboxes

variable {chan : Nat → Channel}

def waiting (obs : Nat) (b : Mailboxes chan) : List (Nat × Bytes) :=
  (b.queued obs).map fun m => (m.1, m.2.1)

def pub (notifies : Nat → List Nat) (c : Nat) (m : Bytes) (b : Mailboxes chan) :
    Option Errno × Mailboxes chan :=
  if h : m.length = (chan c).msgSize then
    (none, {
      stored := Function.update b.stored c ⟨m, h⟩
      queued := fun obs =>
        if obs ∈ notifies c then b.queued obs ++ [⟨c, ⟨m, h⟩⟩] else b.queued obs })
  else (some eagain, b)

def wait (obs : Nat) (b : Mailboxes chan) : Except Errno (Nat × Bytes) × Mailboxes chan :=
  match b.queued obs with
  | [] => (.error eagain, b)
  | m :: rest => (.ok (m.1, m.2.1), { b with queued := Function.update b.queued obs rest })

end Mailboxes

/-- The kernel over `Mailboxes`. -/
def Zbus.ofMailboxes (chan : Nat → Channel) (channels : List Nat) (obsName : Nat → Bytes)
    (observers : List Nat) (notifies : Nat → List Nat) : Zbus (Mailboxes chan) where
  chan := chan
  channels := channels
  chanFromName name := channels.find? fun c => (chan c).name = name
  obsName := obsName
  observers := observers
  chanPub c m _ b := b.pub notifies c m
  chanRead c _ b := (.ok (b.stored c).1, b)
  subWaitMsg obs _ b := b.wait obs
  chanRead_length c _ b message h := by
    obtain rfl := Except.ok.inj h
    exact (b.stored c).2
  subWaitMsg_length obs _ b c message h := by
    unfold Mailboxes.wait at h
    split at h
    · contradiction
    · rename_i m rest _
      obtain ⟨rfl, rfl⟩ := Prod.mk.inj (Except.ok.inj h)
      exact m.2.2

theorem queues_ofMailboxes (chan : Nat → Channel) (channels : List Nat) (obsName : Nat → Bytes)
    (observers : List Nat) (notifies : Nat → List Nat) :
    Queues (Zbus.ofMailboxes chan channels obsName observers notifies) notifies
      Mailboxes.waiting where
  pub c m _ b obs := by
    change (b.pub notifies c m).2.waiting obs = b.waiting obs ∨
      (obs ∈ notifies c ∧ (b.pub notifies c m).2.waiting obs = b.waiting obs ++ [(c, m)])
    unfold Mailboxes.pub
    split
    · by_cases hobs : obs ∈ notifies c
      · exact .inr ⟨hobs, by simp [Mailboxes.waiting, hobs]⟩
      · exact .inl (by simp [Mailboxes.waiting, hobs])
    · exact .inl rfl
  read _ _ _ _ := rfl
  wait_ok obs _ b p h := by
    change (b.wait obs).1 = .ok p at h
    change b.waiting obs = p :: (b.wait obs).2.waiting obs
    unfold Mailboxes.wait at h ⊢
    split at h
    · contradiction
    · rename_i m rest hqueue
      obtain rfl := Except.ok.inj h
      simp [Mailboxes.waiting, hqueue]
  wait_error obs _ b e h := by
    change (b.wait obs).1 = .error e at h
    change (b.wait obs).2.waiting obs = b.waiting obs
    unfold Mailboxes.wait at h ⊢
    split at h
    · rfl
    · contradiction
  wait_other obs obs' _ b hne := by
    change (b.wait obs).2.waiting obs' = b.waiting obs'
    unfold Mailboxes.wait
    split
    · rfl
    · simp [Mailboxes.waiting, Function.update_of_ne hne]

end LuaZephyr
