import LuaZephyr.Zbus.Methods
import LuaZephyr.Zbus.Kernel

/-!
# What the receiving methods return

`channel:read` and `observer:wait_msg` promise nil for the message on an error and
otherwise the table of the message zbus delivered, whatever the message buffer held
before. The promise is stated over every content of that buffer. `wait_msg` keeps it;
`read` shows the buffer even when zbus delivered nothing.

What counts as delivered is the reply of the kernel. The tables are compared whole, with those
the encoder makes of the message; that two messages may have the same table is not excluded, and
nothing is said of how long a call waits.
-/

namespace LuaZephyr

open Outcome Patch

variable {β : Type}

/-- A method called in `s` returns only what is right, and the same values whatever
the blocks to come hold. -/
structure ReceiveContract (method : LuaM β (List Value)) (Right : List Value → Prop)
    (s : State β) : Prop where
  right : ∀ g fails rs t, method (s.refilled g fails) = .ok rs t → Right rs
  same : ∀ g g' fails fails' rs rs' t t', method (s.refilled g fails) = .ok rs t →
    method (s.refilled g' fails') = .ok rs' t' → rs = rs'

/-- It is enough that the method returns, if anything, one expected right list of values. -/
theorem ReceiveContract.of_expected {method : LuaM β (List Value)} {Right : List Value → Prop}
    {s : State β} {expected : Option (List Value)}
    (hmethod : ∀ g fails rs t, method (s.refilled g fails) = .ok rs t → expected = some rs)
    (hright : ∀ rs, expected = some rs → Right rs) : ReceiveContract method Right s := by
  constructor
  · intro g fails rs t hrun
    exact hright rs (hmethod g fails rs t hrun)
  · intro g g' fails fails' rs rs' t t' hrun hrun'
    have hrs := hmethod g fails rs t hrun
    have hrs' := hmethod g' fails' rs' t' hrun'
    exact Option.some.inj (hrs.symm.trans hrs')

variable (tgt : Target) (zb : Zbus β)

/-- The right values of `channel:read` for the result `r` of `zbus_chan_read`. -/
def ReadRight (chan : Nat) (r : Except Errno Bytes) (rs : List Value) : Prop :=
  ∃ err v, rs = [.integer err, v] ∧ (err ≠ 0 → v = .nil) ∧
    (err = 0 → ∃ message, r = .ok message ∧ shownMessage tgt zb chan message = some v)

/-- The right values of `observer:wait_msg` for the result `r` of `zbus_sub_wait_msg`. -/
def WaitRight (r : Except Errno (Nat × Bytes)) (rs : List Value) : Prop :=
  ∃ err c v, rs = [.integer err, c, v] ∧ (err ≠ 0 → c = .nil ∧ v = .nil) ∧
    (err = 0 → ∃ chan message, r = .ok (chan, message) ∧ c = .userdata .zbusChannel chan ∧
      shownMessage tgt zb chan message = some v)

/-- A read gets no buffer, gets a message, or is of a channel without a descriptor or
with one that cannot be read in a buffer of the channel's size, whatever it holds. -/
def ReadSafe (chan : Nat) (timeout : LuaInteger) (s : State β) : Prop :=
  ∀ e descr, s.heap.freshContents (zb.chan chan).msgSize ≠ none →
    (zb.chanRead chan timeout s.bus).1 = .error e → (zb.chan chan).userData = some descr →
    ∀ g, messageTable tgt descr.fields (SysHeap.residue g (zb.chan chan).msgSize) 0 = none

/-- A message that comes is shown from its own bytes; where that would read past its
end, the whole buffer is too short as well. -/
def WaitSafe (maxChanMsgSize obs : Nat) (timeout : LuaInteger) (s : State β) : Prop :=
  ∀ chan message, s.heap.freshContents maxChanMsgSize ≠ none →
    (zb.subWaitMsg obs timeout s.bus).1 = .ok (chan, message) →
    message.length ≤ maxChanMsgSize → shownMessage tgt zb chan message = none →
    ∀ g, shownMessage tgt zb chan (put (SysHeap.residue g maxChanMsgSize) ⟨0, message⟩) = none

variable {tgt zb}

/-- When no API call runs out of memory and the buffer can be shown, a read returns. -/
theorem chanRead_returns {chan : Nat} {v shown : Value} {timeout : LuaInteger}
    (hv : tgt.toInteger? v = some timeout) {s : State β} {g : Nat → UInt8}
    (hfresh : s.heap.freshContents (zb.chan chan).msgSize ≠ none)
    (hshown : shownMessage tgt zb chan (received (zb.chanRead chan timeout s.bus).1
      (SysHeap.residue g (zb.chan chan).msgSize)) = some shown) :
    ∃ t, callMethod (chanRead tgt zb) [.userdata .zbusChannel chan, v]
      (s.refilled g fun _ => false) =
        .ok [.integer (errOf (zb.chanRead chan timeout s.bus).1), shown] t := by
  obtain ⟨old, hold⟩ := Option.ne_none_iff_exists'.mp hfresh
  have hbuf := s.refilled_freshContents g (fun _ => false) (zb.chan chan).msgSize
  rw [hold, Option.map_some] at hbuf
  obtain ⟨rs, t, hrun, h⟩ | ⟨e, t, -, buf, hbuf', -, -, ⟨-, hfail⟩ | ⟨-, hnone⟩⟩ :=
    wp_iff.mp (@chanRead_spec _ tgt zb chan v timeout hv (s.refilled g fun _ => false))
  · unfold ReadReturns at h
    rw [hbuf] at h
    obtain ⟨-, -, -, shown', hshown', rfl⟩ := h
    obtain rfl := Option.some.inj (hshown.symm.trans hshown')
    exact ⟨t, hrun⟩
  · exact absurd (noFail_never _ _) hfail
  · obtain rfl := Option.some.inj (hbuf.symm.trans hbuf')
    exact absurd (hshown.symm.trans hnone) nofun

/-- The same for a wait that gets a message. -/
theorem subWaitMsg_returns {obs maxChanMsgSize chan : Nat} {v shown : Value} {rest : List Value}
    {timeout : LuaInteger} {message : Bytes} (hv : tgt.toInteger? v = some timeout) {s : State β}
    {g : Nat → UInt8} (hfresh : s.heap.freshContents maxChanMsgSize ≠ none)
    (hwait : (zb.subWaitMsg obs timeout s.bus).1 = .ok (chan, message))
    (hlen : message.length ≤ maxChanMsgSize)
    (hshown : shownMessage tgt zb chan
      (put (SysHeap.residue g maxChanMsgSize) ⟨0, message⟩) = some shown) :
    ∃ t, callMethod (subWaitMsg tgt zb maxChanMsgSize) (.userdata .zbusObserver obs :: v :: rest)
      (s.refilled g fun _ => false) = .ok [.integer 0, .userdata .zbusChannel chan, shown] t := by
  obtain ⟨old, hold⟩ := Option.ne_none_iff_exists'.mp hfresh
  have hbuf := s.refilled_freshContents g (fun _ => false) maxChanMsgSize
  rw [hold, Option.map_some] at hbuf
  obtain ⟨rs, t, hrun, h⟩ | ⟨e, t, -, buf, c, m, hbuf', hwait', -, -, hcause⟩ :=
    wp_iff.mp (@subWaitMsg_spec _ tgt zb obs maxChanMsgSize v timeout hv rest
      (s.refilled g fun _ => false))
  · unfold WaitReturns at h
    rw [hbuf] at h
    obtain ⟨-, -, h⟩ := h
    rw [show (zb.subWaitMsg obs timeout (s.refilled g fun _ => false).bus).1 =
      .ok (chan, message) from hwait] at h
    obtain ⟨-, -, shown', hshown', rfl⟩ := h
    obtain rfl := Option.some.inj (hshown.symm.trans hshown')
    exact ⟨t, hrun⟩
  · obtain rfl := Option.some.inj (hbuf.symm.trans hbuf')
    obtain ⟨rfl, rfl⟩ := Prod.mk.inj (Except.ok.inj (hwait.symm.trans hwait'))
    obtain ⟨-, hfail⟩ | ⟨-, hlong | hnone⟩ := hcause
    · exact absurd (noFail_never _ _) hfail
    · omega
    · exact absurd (hshown.symm.trans hnone) nofun

/-- What a read returns when it keeps its promise; none when the message cannot be
shown. `granted` says whether there was a buffer. -/
def expectedRead (tgt : Target) (zb : Zbus β) (granted : Bool) (chan : Nat)
    (r : Except Errno Bytes) : Option (List Value) :=
  if granted then
    match r with
    | .ok message => (shownMessage tgt zb chan message).map fun v => [.integer 0, v]
    | .error e => some [.integer e.code, .nil]
  else some [.integer enomem, .nil]

def expectedWait (tgt : Target) (zb : Zbus β) (granted : Bool)
    (r : Except Errno (Nat × Bytes)) : Option (List Value) :=
  if granted then
    match r with
    | .ok (chan, message) => (shownMessage tgt zb chan message).map fun v =>
        [.integer 0, .userdata .zbusChannel chan, v]
    | .error e => some [.integer e.code, .nil, .nil]
  else some [.integer enomem, .nil, .nil]

theorem ReadRight.of_expected {granted : Bool} {chan : Nat} {r : Except Errno Bytes}
    {rs : List Value} (h : expectedRead tgt zb granted chan r = some rs) :
    ReadRight tgt zb chan r rs := by
  unfold expectedRead at h
  split at h
  · cases r with
    | error e =>
        obtain rfl := Option.some.inj h
        exact ⟨e.code, .nil, rfl, fun _ => rfl, fun hzero => absurd hzero e.code_ne_zero⟩
    | ok message =>
        obtain ⟨v, hv, rfl⟩ := Option.map_eq_some_iff.mp h
        exact ⟨0, v, rfl, fun hne => absurd rfl hne, fun _ => ⟨message, rfl, hv⟩⟩
  · obtain rfl := Option.some.inj h
    exact ⟨enomem, .nil, rfl, fun _ => rfl, fun hzero => absurd hzero (by decide)⟩

theorem WaitRight.of_expected {granted : Bool} {r : Except Errno (Nat × Bytes)}
    {rs : List Value} (h : expectedWait tgt zb granted r = some rs) :
    WaitRight tgt zb r rs := by
  unfold expectedWait at h
  split at h
  · cases r with
    | error e =>
        obtain rfl := Option.some.inj h
        exact ⟨e.code, .nil, .nil, rfl, fun _ => ⟨rfl, rfl⟩,
          fun hzero => absurd hzero e.code_ne_zero⟩
    | ok received =>
        obtain ⟨chan, message⟩ := received
        obtain ⟨v, hv, rfl⟩ := Option.map_eq_some_iff.mp h
        exact ⟨0, _, v, rfl, fun hne => absurd rfl hne, fun _ => ⟨chan, message, rfl, rfl, hv⟩⟩
  · obtain rfl := Option.some.inj h
    exact ⟨enomem, .nil, .nil, rfl, fun _ => ⟨rfl, rfl⟩, fun hzero => absurd hzero (by decide)⟩

theorem ReadSafe.expected {chan : Nat} {v : Value} {timeout : LuaInteger}
    (hv : tgt.toInteger? v = some timeout) {s : State β} (hsafe : ReadSafe tgt zb chan timeout s)
    {g : Nat → UInt8} {fails : Nat → Bool} {rs : List Value} {t : State β}
    (hrun : callMethod (chanRead tgt zb) [.userdata .zbusChannel chan, v] (s.refilled g fails) =
      .ok rs t) :
    expectedRead tgt zb (s.heap.freshContents (zb.chan chan).msgSize).isSome chan
      (zb.chanRead chan timeout s.bus).1 = some rs := by
  have h := (chanRead_spec tgt zb hv (s.refilled g fails)).of_run_ok hrun
  unfold ReadReturns at h
  rw [s.refilled_freshContents] at h
  cases hfresh : s.heap.freshContents (zb.chan chan).msgSize with
  | none =>
      rw [hfresh] at h
      obtain ⟨rfl, -⟩ := h
      rfl
  | some old =>
      rw [hfresh] at h
      obtain ⟨-, -, -, shown, hshown, rfl⟩ := h
      rw [s.refilled_bus] at hshown ⊢
      cases hread : (zb.chanRead chan timeout s.bus).1 with
      | ok message =>
          rw [hread] at hshown
          rw [expectedRead, if_pos (by rfl)]
          exact congrArg _ hshown
      | error e =>
          have hnil : shown = .nil := by
            cases hdescr : (zb.chan chan).userData with
            | none =>
                rw [shownMessage, hdescr] at hshown
                exact (Option.some.inj hshown).symm
            | some descr =>
                rw [hread, shownMessage, hdescr] at hshown
                have hnone := hsafe e descr (by rw [hfresh]; nofun) hread hdescr g
                exact absurd (hnone.symm.trans hshown) nofun
          rw [hnil]
          rfl

theorem WaitSafe.expected {obs maxChanMsgSize : Nat} {v : Value} {rest : List Value}
    {timeout : LuaInteger} (hv : tgt.toInteger? v = some timeout) {s : State β}
    (hsafe : WaitSafe tgt zb maxChanMsgSize obs timeout s)
    {g : Nat → UInt8} {fails : Nat → Bool} {rs : List Value} {t : State β}
    (hrun : callMethod (subWaitMsg tgt zb maxChanMsgSize)
      (.userdata .zbusObserver obs :: v :: rest) (s.refilled g fails) = .ok rs t) :
    expectedWait tgt zb (s.heap.freshContents maxChanMsgSize).isSome
      (zb.subWaitMsg obs timeout s.bus).1 = some rs := by
  have h := (subWaitMsg_spec tgt zb hv rest (s.refilled g fails)).of_run_ok hrun
  unfold WaitReturns at h
  rw [s.refilled_freshContents] at h
  cases hfresh : s.heap.freshContents maxChanMsgSize with
  | none =>
      rw [hfresh] at h
      obtain ⟨rfl, -⟩ := h
      rfl
  | some old =>
      rw [hfresh] at h
      obtain ⟨-, -, h⟩ := h
      rw [s.refilled_bus] at h
      cases hwait : (zb.subWaitMsg obs timeout s.bus).1 with
      | error e =>
          rw [hwait] at h
          rw [h]
          rfl
      | ok received =>
          obtain ⟨chan, message⟩ := received
          rw [hwait] at h
          obtain ⟨hlen, -, shown, hshown, rfl⟩ := h
          cases hown : shownMessage tgt zb chan message with
          | none =>
              have hnone := hsafe chan message (by rw [hfresh]; nofun) hwait hlen hown g
              exact absurd (hnone.symm.trans hshown) nofun
          | some own =>
              obtain rfl := Option.some.inj ((shownMessage_put hown).symm.trans hshown)
              rw [expectedWait, if_pos (by rfl)]
              simp only [hown, Option.map_some]

/-- `channel:read` keeps its promise exactly in the safe states. -/
theorem readContract_iff {chan : Nat} {v : Value} {timeout : LuaInteger}
    (hv : tgt.toInteger? v = some timeout) (s : State β) :
    ReceiveContract (callMethod (chanRead tgt zb) [.userdata .zbusChannel chan, v])
      (ReadRight tgt zb chan (zb.chanRead chan timeout s.bus).1) s ↔
      ReadSafe tgt zb chan timeout s := by
  constructor
  · intro hcontract e descr hfresh hread hdescr g
    by_contra hsome
    obtain ⟨shown, hshown⟩ := Option.ne_none_iff_exists'.mp hsome
    have hshown' : shownMessage tgt zb chan (received (zb.chanRead chan timeout s.bus).1
        (SysHeap.residue g (zb.chan chan).msgSize)) = some shown := by
      simpa only [hread, received, shownMessage, hdescr] using hshown
    obtain ⟨t, hrun⟩ := chanRead_returns hv hfresh hshown'
    obtain ⟨err, v', hrs, hnil, -⟩ := hcontract.right g _ _ t hrun
    obtain ⟨herr, hrs⟩ := List.cons.inj hrs
    obtain rfl := (List.cons.inj hrs).1
    have hcode : err = e.code := by
      rw [hread] at herr
      exact (Value.integer.inj herr).symm
    obtain rfl := hnil (hcode ▸ e.code_ne_zero)
    obtain ⟨es, -, htable⟩ := Option.map_eq_some_iff.mp hshown
    contradiction
  · intro hsafe
    exact .of_expected (fun _ _ _ _ hrun => hsafe.expected hv hrun) fun _ h => .of_expected h

/-- `observer:wait_msg` keeps its promise exactly in the safe states. -/
theorem waitContract_iff {obs maxChanMsgSize : Nat} {v : Value} {timeout : LuaInteger}
    (hv : tgt.toInteger? v = some timeout) (rest : List Value) (s : State β) :
    ReceiveContract (callMethod (subWaitMsg tgt zb maxChanMsgSize)
        (.userdata .zbusObserver obs :: v :: rest))
      (WaitRight tgt zb (zb.subWaitMsg obs timeout s.bus).1) s ↔
      WaitSafe tgt zb maxChanMsgSize obs timeout s := by
  constructor
  · intro hcontract chan message hfresh hwait hlen hown g
    by_contra hsome
    obtain ⟨shown, hshown⟩ := Option.ne_none_iff_exists'.mp hsome
    obtain ⟨t, hrun⟩ := subWaitMsg_returns hv hfresh hwait hlen hshown
    obtain ⟨err, c, v', hrs, -, hright⟩ := hcontract.right g _ _ t hrun
    obtain ⟨herr, -⟩ := List.cons.inj hrs
    obtain ⟨chan', message', hwait', -, hown'⟩ := hright (Value.integer.inj herr).symm
    obtain ⟨rfl, rfl⟩ := Prod.mk.inj (Except.ok.inj (hwait.symm.trans hwait'))
    exact absurd (hown.symm.trans hown') nofun
  · intro hsafe
    exact .of_expected (fun _ _ _ _ hrun => hsafe.expected hv hrun) fun _ h => .of_expected h

/-- Both methods: the promise is kept in exactly the safe states, whatever the message buffer held
before the call. -/
theorem receiveContract_iff {v : Value} {timeout : LuaInteger}
    (hv : tgt.toInteger? v = some timeout) (chan obs maxChanMsgSize : Nat) (rest : List Value)
    (s : State β) :
    (ReceiveContract (callMethod (chanRead tgt zb) [.userdata .zbusChannel chan, v])
      (ReadRight tgt zb chan (zb.chanRead chan timeout s.bus).1) s ↔
      ReadSafe tgt zb chan timeout s) ∧
    (ReceiveContract (callMethod (subWaitMsg tgt zb maxChanMsgSize)
        (.userdata .zbusObserver obs :: v :: rest))
      (WaitRight tgt zb (zb.subWaitMsg obs timeout s.bus).1) s ↔
      WaitSafe tgt zb maxChanMsgSize obs timeout s) :=
  ⟨readContract_iff hv s, waitContract_iff hv rest s⟩

/-- A state over a bus whose channels another thread has locked. -/
def lockedState : State (Bus chanSensorConfig) :=
  State.idle 7 { Bus.initial chanSensorConfig with locked := fun _ => true }

/-- On a locked channel no message comes, so waiting is safe. -/
theorem receiveContract_iff_locked :
    ReceiveContract (callMethod (subWaitMsg Target.sample (Zbus.ofBus chanSensorConfig [0]) 20)
        [.userdata .zbusObserver 0, .integer 200])
      (WaitRight Target.sample (Zbus.ofBus chanSensorConfig [0]) (.error eagain)) lockedState := by
  have hsafe : WaitSafe Target.sample (Zbus.ofBus chanSensorConfig [0]) 20 0 200 lockedState := by
    intro chan message _ hwait
    contradiction
  exact ((receiveContract_iff (v := .integer 200) rfl 0 0 20 [] lockedState).2).mpr hsafe

/-- The values of a call that returned. -/
def returned (r : EStateM.Result Exn (State β) (List Value)) : Option (List Value) :=
  match r with
  | .ok rs _ => some rs
  | .error _ _ => none

/-- A read that times out returns the error together with a table of the previous
contents of the message buffer. -/
theorem chanRead_shows_residue :
    returned (callMethod (chanRead Target.sample (Zbus.ofBus chanSensorConfig [0]))
        [.userdata .zbusChannel 0, .integer 200] lockedState) =
      some [.integer (-11), .table [(ascii "sensor_id", .integer 0x07070707),
        (ascii "offset", .table [(ascii "x", .integer 0x07070707),
          (ascii "y", .integer 0x07070707), (ascii "z", .integer 0x07070707)] none)] none] ∧
    ¬ ReceiveContract (callMethod (chanRead Target.sample (Zbus.ofBus chanSensorConfig [0]))
        [.userdata .zbusChannel 0, .integer 200])
      (ReadRight Target.sample (Zbus.ofBus chanSensorConfig [0]) 0 (.error eagain))
      lockedState := by
  refine ⟨by decide +kernel, fun hcontract => ?_⟩
  have hsafe : ReadSafe Target.sample (Zbus.ofBus chanSensorConfig [0]) 0 200 lockedState :=
    (readContract_iff rfl lockedState).mp hcontract
  have hnone := hsafe eagain ⟨msgSensorConfigFields, 20⟩ nofun rfl rfl fun _ => 7
  exact absurd hnone (by decide +kernel)

end LuaZephyr
