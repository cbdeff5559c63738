import LuaZephyr.Samples.Producer

/-!
# The rounds of the sample

A round is one sample on its way to the consumer and one count on its way back. However the
two threads, and threads that keep off their subscribers, take turns, no message is lost
between two rounds or counted twice. The first two rounds have the same index.

The threads interleave in any order and without limit, and memory may run out anywhere, which
ends the script. There are no times, so a wait may end with an error at any moment; the producer
then leaves its loop early.
-/

namespace LuaZephyr

open CStruct Outcome Patch Runs

variable {β : Type}

/-- The index `i` after `k` rounds. -/
def loopIndex (k : Nat) : LuaInteger := BitVec.ofNat 32 (max 1 k)

/-- The sample for an index, as the consumer sees it. -/
def accVals (i : LuaInteger) : Vals accDataMembers := (accX i, accY i, accZ i, ())

/-- The count of the `k`th message. -/
def ackVals (k : Nat) : Vals accDataConsumedMembers := (BitVec.ofNat 32 k, ())

def dataLine (k : Nat) : Line :=
  .accData (BitVec.ofNat 32 (k + 1)) (accX (loopIndex k)) (accY (loopIndex k)) (accZ (loopIndex k))

def ackLine (k : Nat) : Line := .receivedAck (.integer (BitVec.ofNat 32 (k + 1)))

/-- What is shown of the first `n` rounds. -/
def rounds : Nat → List Line
  | 0 => []
  | k + 1 => rounds k ++ [.producing, dataLine k, ackLine k]

/-- The lines that belong to rounds. -/
def Line.ofRound : Line → Bool
  | .producing | .receivedAck _ | .accData .. => true
  | .systemVersion .. | .sensorConfig .. | .couldNotPub | .error _ => false

theorem loopIndex_toInt {k : Nat} (hk : k ≤ 10) : (loopIndex k).toInt = max 1 k := by
  have hnat : (loopIndex k).toNat = max 1 k := Nat.mod_eq_of_lt (by omega)
  rw [BitVec.toInt_eq_toNat_of_lt (by omega), hnat]

theorem loopIndex_succ (k : Nat) : loopIndex (k + 1) = BitVec.ofNat 32 (k + 1) := by
  rw [loopIndex, Nat.max_eq_right (by omega)]

theorem rounds_begin {k n : Nat} (h : k ≤ n) : rounds k <+: rounds n := by
  induction n, h using Nat.le_induction with
  | base => exact List.prefix_rfl
  | succ n _ ih => exact ih.trans (List.prefix_append _ _)

/-- How far a round is. -/
inductive Flight where
  | unsent
  | sent
  | taken
  | told
  | answered
  | unheard

/-- The lines of a round that is so far. -/
def Flight.lines (k : Nat) : Flight → List Line
  | .unsent | .sent | .taken => [.producing]
  | .told | .answered | .unheard => [.producing, dataLine k]

section Flight

variable (abi : Abi) (w : Wiring)

/-- The consumer and the two queues, `k` rounds after the start. -/
def Flight.Of (k : Nat) (c : Consumer) (data acks : List (Nat × Bytes)) : Flight → Prop
  | .unsent => c = ⟨.waiting, BitVec.ofNat 32 k⟩ ∧ data = [] ∧ acks = []
  | .sent => c = ⟨.waiting, BitVec.ofNat 32 k⟩ ∧ acks = [] ∧ ∃ m, data = [(w.chanAccData, m)] ∧
      HoldsMembers abi m accDataMembers 0 0 (accVals (loopIndex k))
  | .taken => data = [] ∧ acks = [] ∧ ∃ m, c = ⟨.received m, BitVec.ofNat 32 (k + 1)⟩ ∧
      HoldsMembers abi m accDataMembers 0 0 (accVals (loopIndex k))
  | .told => c = ⟨.acknowledging, BitVec.ofNat 32 (k + 1)⟩ ∧ data = [] ∧ acks = []
  | .answered => c = ⟨.waiting, BitVec.ofNat 32 (k + 1)⟩ ∧ data = [] ∧
      ∃ m, acks = [(w.chanAccDataConsumed, m)] ∧
        HoldsMembers abi m accDataConsumedMembers 0 0 (ackVals (k + 1))
  | .unheard => c = ⟨.waiting, BitVec.ofNat 32 (k + 1)⟩ ∧ data = [] ∧ acks = []

/-- The locals once everything is declared. -/
def Wiring.handles : Handles where
  chanVersion := .userdata .zbusChannel w.chanVersion
  chanSensorConfig := .userdata .zbusChannel w.chanSensorConfig
  chanAccData := .userdata .zbusChannel w.chanAccData
  msubAccConsumed := .userdata .zbusObserver w.msubAccConsumed

/-- The script is between two rounds, after `k` of them. -/
def Stage.Resting (k : Nat) : Stage → Prop
  | .declareVersion => k = 0
  | .declareSensorConfig version => k = 0 ∧ version = w.handles.chanVersion
  | .declareAccData version config =>
      k = 0 ∧ version = w.handles.chanVersion ∧ config = w.handles.chanSensorConfig
  | .declareAccConsumed version config acc =>
      k = 0 ∧ version = w.handles.chanVersion ∧ config = w.handles.chanSensorConfig ∧
        acc = w.handles.chanAccData
  | .readVersion h | .showVersion h _ | .pubSensorConfig h | .readSensorConfig h
  | .showSensorConfig h _ => k = 0 ∧ h = w.handles
  | .loop h i | .sleep h i => h = w.handles ∧ i = .integer (loopIndex k)
  | .finished => k = 10
  | .raised _ => True
  | _ => False

/-- The script is in a round, after `k` whole ones. -/
def Stage.Busy (k : Nat) (f : Flight) : Stage → Prop
  | .pubAccData h i => f = .unsent ∧ h = w.handles ∧ i = loopIndex k
  | .couldNotPub h i | .waitMsg h i => h = w.handles ∧ i = loopIndex k
  | .acked h _ msg => f = .unheard ∧ h = w.handles ∧
      msg = .table [(ascii "count", .integer (BitVec.ofNat 32 (k + 1)))] none
  | .failed _ | .broken | .raised _ => True
  | _ => False

variable (queue : Nat → β → List (Nat × Bytes))

/-- Where the consumer and the messages are. -/
def Sample.Flying (s : Sample β) (k : Nat) (f : Flight) : Prop :=
  f.Of abi w k s.consumer (queue w.msubConsumer s.bus) (queue w.msubAccConsumed s.bus)

/-- Rounds come one after the other. -/
inductive Sample.InOrder (s : Sample β) : Prop where
  | resting (k : Nat) (hk : k ≤ 10) (hstage : s.script.Resting w k)
      (hflying : s.Flying abi w queue k .unsent) (hshown : s.shown.filter Line.ofRound = rounds k)
  | busy (k : Nat) (hk : k < 10) (f : Flight) (hstage : s.script.Busy w k f)
      (hflying : s.Flying abi w queue k f)
      (hshown : s.shown.filter Line.ofRound = rounds k ++ f.lines k)

end Flight

/-- While a message is on its way, the script's stage does not depend on where. -/
theorem Stage.Busy.advance {w : Wiring} {k : Nat} {f : Flight} {stage : Stage}
    (h : stage.Busy w k f) (hsent : f ≠ .unsent) (hunheard : f ≠ .unheard) (f' : Flight) :
    stage.Busy w k f' := by
  cases stage with
  | pubAccData => exact absurd h.1 hsent
  | acked => exact absurd h.1 hunheard
  | _ => exact h

section Wired

variable (tgt : Target) {align : Nat → Nat} (hpos : ∀ size, 0 < align size)
variable (zb : Zbus β) (w : Wiring) (notifies : Nat → List Nat)
variable (queue : Nat → β → List (Nat × Bytes))

/-- `channels.c` and the macros at the beginning of `consumer.c`. -/
structure Wired : Prop where
  queues : Queues zb notifies queue
  chanVersion : zb.chanFromName (ascii "chan_version") = some w.chanVersion
  chanSensorConfig : zb.chanFromName (ascii "chan_sensor_config") = some w.chanSensorConfig
  chanAccData : zb.chanFromName (ascii "chan_acc_data") = some w.chanAccData
  msubAccConsumed : observerFromName zb (ascii "msub_acc_consumed") = some w.msubAccConsumed
  accData : TypedChannel tgt hpos accDataMembers zb w.chanAccData
  accDataConsumed : TypedChannel tgt hpos accDataConsumedMembers zb w.chanAccDataConsumed
  consumer_iff : ∀ c, w.msubConsumer ∈ notifies c ↔ c = w.chanAccData
  accConsumed_iff : ∀ c, w.msubAccConsumed ∈ notifies c ↔ c = w.chanAccDataConsumed
  channels : [w.chanVersion, w.chanSensorConfig, w.chanAccData, w.chanAccDataConsumed].Nodup
  subscribers : w.msubConsumer ≠ w.msubAccConsumed

variable {tgt hpos zb w notifies queue}

theorem Wired.accData_consumed (hw : Wired tgt hpos zb w notifies queue) :
    w.chanAccData ≠ w.chanAccDataConsumed := by
  have hnodup := hw.channels
  simp only [List.nodup_cons, List.mem_cons, not_or] at hnodup
  tauto

/-- Neither subscriber observes the channel of the configuration. -/
theorem Wired.sensorConfig_quiet (hw : Wired tgt hpos zb w notifies queue) :
    w.msubConsumer ∉ notifies w.chanSensorConfig ∧
      w.msubAccConsumed ∉ notifies w.chanSensorConfig := by
  have hnodup := hw.channels
  simp only [List.nodup_cons, List.mem_cons, not_or] at hnodup
  rw [hw.consumer_iff, hw.accConsumed_iff]
  tauto

variable {k : Nat} {s : Sample β}

/-- A publish that neither subscriber hears of. -/
theorem Sample.Flying.of_queues {abi : Abi} {f : Flight} {t : Sample β}
    (h : s.Flying abi w queue k f) (hconsumer : t.consumer = s.consumer)
    (hdata : queue w.msubConsumer t.bus = queue w.msubConsumer s.bus)
    (hacks : queue w.msubAccConsumed t.bus = queue w.msubAccConsumed s.bus) :
    t.Flying abi w queue k f := by
  unfold Sample.Flying at h ⊢
  rw [hconsumer, hdata, hacks]
  exact h

/-- The consumer takes the sample that was sent, and nothing otherwise. -/
theorem Wired.takeMsg (hw : Wired tgt hpos zb w notifies queue) {forever : LuaInteger}
    {f : Flight} (h : s.Flying (tgt.abi hpos) w queue k f) {p : Nat × Bytes} {bus : β}
    (htake : zb.takeMsg forever w.msubConsumer s.bus = some (p, bus)) :
    f = .sent ∧ HoldsMembers (tgt.abi hpos) p.2 accDataMembers 0 0 (accVals (loopIndex k)) ∧
      queue w.msubConsumer bus = [] ∧ queue w.msubAccConsumed bus = [] := by
  obtain ⟨hhead, hother⟩ := hw.queues.takeMsg htake
  have hacks := hother w.msubAccConsumed hw.subscribers.symm
  unfold Sample.Flying at h
  rw [hhead, ← hacks] at h
  cases f with
  | sent =>
      obtain ⟨-, hnone, m, hdata, hholds⟩ := h
      obtain ⟨rfl, hrest⟩ := List.cons.inj hdata
      exact ⟨rfl, hholds, hrest, hnone⟩
  | unsent | told | unheard => exact absurd h.2.1 (List.cons_ne_nil _ _)
  | taken => exact absurd h.1 (List.cons_ne_nil _ _)
  | answered => exact absurd h.2.1 (List.cons_ne_nil _ _)

theorem holdsMembers_ackMsg (abi : Abi) (k : Nat) :
    HoldsMembers abi (ackMsg abi (BitVec.ofNat 32 k)) accDataConsumedMembers 0 0 (ackVals k) := by
  have hend := endof_le_sizeof abi accDataConsumedMembers
  refine holdsMembers_putAll accDataConsumedMembers (ackVals k) ?_
  rw [List.length_replicate]
  omega

theorem consumerLine_eq {abi : Abi} {msg : Bytes}
    (h : HoldsMembers abi msg accDataMembers 0 0 (accVals (loopIndex k))) :
    consumerLine abi (BitVec.ofNat 32 (k + 1)) msg = some (dataLine k) := by
  unfold consumerLine
  rw [(loadMembers_iff accDataMembers).mpr h]
  rfl

/-- A step of the consumer takes its round on, and shows the lines of that. -/
theorem Sample.stepConsumer_flying (hw : Wired tgt hpos zb w notifies queue)
    (forever : LuaInteger) {f : Flight} (h : s.Flying (tgt.abi hpos) w queue k f) :
    ∃ f', (s.stepConsumer (tgt.abi hpos) zb w forever).Flying (tgt.abi hpos) w queue k f' ∧
      (f' = f ∨ (f ≠ .unsent ∧ f ≠ .unheard)) ∧
      ∃ new, (s.stepConsumer (tgt.abi hpos) zb w forever).shown = s.shown ++ new ∧
        f'.lines k = f.lines k ++ new.filter Line.ofRound := by
  have hwaiting (hstage : s.consumer.stage = .waiting) :
      ∃ f', (s.stepConsumer (tgt.abi hpos) zb w forever).Flying (tgt.abi hpos) w queue k f' ∧
        (f' = f ∨ (f ≠ .unsent ∧ f ≠ .unheard)) ∧
        ∃ new, (s.stepConsumer (tgt.abi hpos) zb w forever).shown = s.shown ++ new ∧
          f'.lines k = f.lines k ++ new.filter Line.ofRound := by
    unfold Sample.stepConsumer
    rw [hstage]
    dsimp only
    cases htake : zb.takeMsg forever w.msubConsumer s.bus with
    | none => exact ⟨f, h, .inl rfl, [], (List.append_nil _).symm, (List.append_nil _).symm⟩
    | some r =>
        obtain ⟨p, bus⟩ := r
        obtain ⟨rfl, hholds, hdata, hacks⟩ := hw.takeMsg h htake
        obtain ⟨hconsumer, -⟩ := h
        refine ⟨.taken, ⟨hdata, hacks, p.2, ?_, hholds⟩, .inr ⟨nofun, nofun⟩, [],
          (List.append_nil _).symm, rfl⟩
        rw [hconsumer, BitVec.ofNat_add]
        rfl
  cases f with
  | unsent | sent | answered | unheard =>
      obtain ⟨hconsumer, -⟩ := h
      exact hwaiting (congrArg Consumer.stage hconsumer)
  | taken =>
      obtain ⟨hdata, hacks, m, hconsumer, hholds⟩ := h
      have hline := consumerLine_eq hholds
      unfold Sample.stepConsumer
      rw [hconsumer]
      dsimp only
      rw [hline]
      exact ⟨.told, ⟨rfl, hdata, hacks⟩, .inr ⟨nofun, nofun⟩, [dataLine k], rfl, rfl⟩
  | told =>
      obtain ⟨hconsumer, hdata, hacks⟩ := h
      unfold Sample.stepConsumer
      rw [hconsumer]
      dsimp only
      have hquiet : w.msubConsumer ∉ notifies w.chanAccDataConsumed := fun hmem =>
        hw.accData_consumed ((hw.consumer_iff _).mp hmem).symm
      have hdata' := (hw.queues.pub_other hquiet (ackMsg (tgt.abi hpos) (BitVec.ofNat 32 (k + 1)))
        250 s.bus).trans hdata
      obtain hsame | ⟨-, hnew⟩ := hw.queues.pub w.chanAccDataConsumed
        (ackMsg (tgt.abi hpos) (BitVec.ofNat 32 (k + 1))) 250 s.bus w.msubAccConsumed
      · exact ⟨.unheard, ⟨rfl, hdata', hsame.trans hacks⟩, .inr ⟨nofun, nofun⟩, [],
          (List.append_nil _).symm, rfl⟩
      · rw [hacks] at hnew
        exact ⟨.answered, ⟨rfl, hdata', _, hnew, holdsMembers_ackMsg _ _⟩, .inr ⟨nofun, nofun⟩, [],
          (List.append_nil _).symm, rfl⟩

theorem Sample.InOrder.stepConsumer (hw : Wired tgt hpos zb w notifies queue)
    (forever : LuaInteger) (h : s.InOrder (tgt.abi hpos) w queue) :
    (s.stepConsumer (tgt.abi hpos) zb w forever).InOrder (tgt.abi hpos) w queue := by
  have hscript : (s.stepConsumer (tgt.abi hpos) zb w forever).script = s.script := by
    unfold Sample.stepConsumer
    split
    · split
      · rfl
      · rfl
    · rfl
    · rfl
  cases h with
  | resting k hk hstage hflying hshown =>
      obtain ⟨f', hflying', rfl | ⟨hsent, -⟩, new, hnew, hlines⟩ :=
        s.stepConsumer_flying hw forever hflying
      · refine .resting k hk (hscript ▸ hstage) hflying' ?_
        have hnone := List.append_right_eq_self.mp hlines.symm
        rw [hnew, List.filter_append, hshown, hnone, List.append_nil]
      · exact absurd rfl hsent
  | busy k hk f hstage hflying hshown =>
      obtain ⟨f', hflying', hadvance, new, hnew, hlines⟩ :=
        s.stepConsumer_flying hw forever hflying
      have hstage' : s.script.Busy w k f' := by
        obtain rfl | ⟨hsent, hunheard⟩ := hadvance
        · exact hstage
        · exact hstage.advance hsent hunheard f'
      refine .busy k hk f' (hscript ▸ hstage') hflying' ?_
      rw [hnew, List.filter_append, hshown, hlines, List.append_assoc]

variable {maxChanMsgSize : Nat}

variable (tgt zb) in
/-- Declaring a channel has nothing to do with messages. -/
theorem zbusChannelDeclare_keeps (name : Bytes) (s : State β) :
    wp (callMethod (zbusChannelDeclare tgt zb) [.string name]) (fun _ u => u.bus = s.bus)
      (fun _ u => u.bus = s.bus) s := by
  let entry : State β := { s with stack := [.string name] }
  have harg1 : valueAt entry.stack (1 : Nat) = some (.string name) := rfl
  rw [wp_callMethod]
  change wp (zbusChannelDeclare tgt zb) _ _ entry
  unfold zbusChannelDeclare
  rw [wp_bind, wp_luaLCheckstring harg1 rfl]
  cases zb.chanFromName (CString.text name) with
  | none => exact rfl
  | some chan =>
      unfold pushUserdata
      rw [wp_bind, wp_bind, wp_allocating]
      split
      · exact rfl
      · exact rfl

theorem Sample.call_intro {P : Sample β → Prop} {method : LuaM β (List Value)}
    {next : List Value → Stage}
    (h : wp method
      (fun rs u => P { s with script := next rs, lua := u.on (), bus := u.bus })
      (fun e u => P { s with script := .raised e, lua := u.on (), bus := u.bus })
      (s.lua.on s.bus)) : P (s.call method next) := by
  unfold wp at h
  unfold Sample.call
  split at h
  · rename_i heq
    rw [heq]
    exact h
  · rename_i heq
    rw [heq]
    exact h

theorem Sample.print_intro {P : Sample β → Prop} {line : Except LuaError Line} {next : Stage}
    (htodo : s.script.todo tgt zb maxChanMsgSize = some (.print tgt line next))
    (hline : ∀ l, line = .ok l → P { s with script := next, shown := s.shown ++ [l] })
    (hraised : ∀ e, P { s with script := .raised e, shown := s.shown ++ [] }) :
    P (s.stepScript tgt zb maxChanMsgSize) := by
  unfold Sample.stepScript
  rw [htodo]
  unfold Todo.print
  cases line with
  | error e => exact hraised _
  | ok l =>
      dsimp only
      by_cases htext : (l.text tgt).isSome = true
      · rw [if_pos htext]
        exact hline l rfl
      · rw [if_neg htext]
        exact hraised _

theorem Sample.go_intro {P : Sample β → Prop} {next : Stage}
    (htodo : s.script.todo tgt zb maxChanMsgSize = some (.go none next))
    (h : P { s with script := next, shown := s.shown ++ [] }) :
    P (s.stepScript tgt zb maxChanMsgSize) := by
  unfold Sample.stepScript
  rw [htodo]
  exact h

theorem Sample.stepScript_call {method : LuaM β (List Value)} {next : List Value → Stage}
    (htodo : s.script.todo tgt zb maxChanMsgSize = some (.call method next)) :
    s.stepScript tgt zb maxChanMsgSize = s.call method next := by
  unfold Sample.stepScript
  rw [htodo]

theorem Sample.stepScript_ended (htodo : s.script.todo tgt zb maxChanMsgSize = none) :
    s.stepScript tgt zb maxChanMsgSize = s := by
  unfold Sample.stepScript
  rw [htodo]

variable (w queue) in
/-- Nothing changes but where the script is and what it has shown besides the rounds. -/
structure Sample.Quiet (s t : Sample β) : Prop where
  consumer : t.consumer = s.consumer
  data : queue w.msubConsumer t.bus = queue w.msubConsumer s.bus
  acks : queue w.msubAccConsumed t.bus = queue w.msubAccConsumed s.bus
  shown : t.shown.filter Line.ofRound = s.shown.filter Line.ofRound

theorem Sample.Quiet.rest {t : Sample β} {abi : Abi} (h : s.Quiet w queue t) (hk : k ≤ 10)
    (hflying : s.Flying abi w queue k .unsent) (hshown : s.shown.filter Line.ofRound = rounds k)
    (hstage : t.script.Resting w k) : t.InOrder abi w queue :=
  .resting k hk hstage (hflying.of_queues h.consumer h.data h.acks) (h.shown.trans hshown)

theorem Sample.Quiet.busy {t : Sample β} {abi : Abi} {f : Flight} (h : s.Quiet w queue t)
    (hk : k < 10) (hflying : s.Flying abi w queue k f)
    (hshown : s.shown.filter Line.ofRound = rounds k ++ f.lines k)
    (hstage : t.script.Busy w k f) : t.InOrder abi w queue :=
  .busy k hk f hstage (hflying.of_queues h.consumer h.data h.acks) (h.shown.trans hshown)

theorem Sample.quiet_of_bus {script : Stage} {lua : State Unit} {bus : β}
    (h : ∀ obs, queue obs bus = queue obs s.bus) :
    s.Quiet w queue { s with script := script, lua := lua, bus := bus } :=
  ⟨rfl, h _, h _, rfl⟩

theorem Sample.quiet_of_line {script : Stage} {new : List Line}
    (h : new.filter Line.ofRound = []) :
    s.Quiet w queue { s with script := script, shown := s.shown ++ new } :=
  ⟨rfl, rfl, rfl, by rw [List.filter_append, h, List.append_nil]⟩

theorem versionLine_ofRound {msg : Value} {line : Line} (h : versionLine tgt msg = .ok line) :
    line.ofRound = false := by
  unfold versionLine at h
  simp only [bind, Except.bind, pure, Except.pure] at h
  repeat' split at h
  all_goals cases h
  rfl

theorem sensorConfigLine_ofRound {msg : Value} {line : Line}
    (h : sensorConfigLine tgt msg = .ok line) : line.ofRound = false := by
  unfold sensorConfigLine at h
  simp only [bind, Except.bind, pure, Except.pure] at h
  repeat' split at h
  all_goals cases h
  rfl

variable (w queue) in
/-- Nothing of the round after the first `k` has happened. -/
structure Sample.RestsAt (s : Sample β) (abi : Abi) (k : Nat) : Prop where
  le : k ≤ 10
  flying : s.Flying abi w queue k .unsent
  shown : s.shown.filter Line.ofRound = rounds k

namespace Sample.RestsAt

variable (h : s.RestsAt w queue (tgt.abi hpos) k)
include h

theorem quiet {t : Sample β} (hquiet : s.Quiet w queue t) (hstage : t.script.Resting w k) :
    t.InOrder (tgt.abi hpos) w queue :=
  hquiet.rest h.le h.flying h.shown hstage

/-- The script declares a channel. -/
theorem declare (name : Bytes) {chan : Nat}
    (hname : zb.chanFromName (CString.text name) = some chan) {next : List Value → Stage}
    (htodo : s.script.todo tgt zb maxChanMsgSize =
      some (.call (callMethod (zbusChannelDeclare tgt zb) [.string name]) next))
    (hnext : (next [.userdata .zbusChannel chan]).Resting w k) :
    (s.stepScript tgt zb maxChanMsgSize).InOrder (tgt.abi hpos) w queue := by
  rw [Sample.stepScript_call htodo]
  have hspec := (zbusChannelDeclare_spec tgt zb name (s.lua.on s.bus)).and
    (zbusChannelDeclare_keeps tgt zb name (s.lua.on s.bus))
  apply Sample.call_intro
  apply hspec.mono
  · rintro rs u ⟨⟨chan', hchan, rfl⟩, hbus⟩
    obtain rfl := Option.some.inj (hname.symm.trans hchan)
    exact h.quiet (Sample.quiet_of_bus fun obs => congrArg _ hbus) hnext
  · rintro e u ⟨-, hbus⟩
    exact h.quiet (Sample.quiet_of_bus fun obs => congrArg _ hbus) trivial

/-- The script declares an observer. -/
theorem declareObserver (name : Bytes) {obs : Nat}
    (hname : observerFromName zb name = some obs) {next : List Value → Stage}
    (htodo : s.script.todo tgt zb maxChanMsgSize =
      some (.call (callMethod (zbusObserverDeclare tgt zb) [.string name]) next))
    (hnext : (next [.userdata .zbusObserver obs]).Resting w k) :
    (s.stepScript tgt zb maxChanMsgSize).InOrder (tgt.abi hpos) w queue := by
  rw [Sample.stepScript_call htodo]
  apply Sample.call_intro
  apply (zbusObserverDeclare_spec tgt zb [.string name] (s.lua.on s.bus)).mono
  · rintro rs u ⟨name', obs', hname', hobs, rfl, hbus, -⟩
    obtain rfl := Option.some.inj hname'
    obtain rfl := Option.some.inj (hname.symm.trans hobs)
    exact h.quiet (Sample.quiet_of_bus fun obs => congrArg _ hbus) hnext
  · rintro e u ⟨-, hbus, -⟩
    exact h.quiet (Sample.quiet_of_bus fun obs => congrArg _ hbus) trivial

/-- The script reads a channel. -/
theorem read (hw : Wired tgt hpos zb w notifies queue) (chan : Nat) (timeout : LuaInteger)
    {next : List Value → Stage}
    (htodo : s.script.todo tgt zb maxChanMsgSize = some (.call (callMethod (chanRead tgt zb)
      [.userdata .zbusChannel chan, .integer timeout]) next))
    (hnext : ∀ rs, (next rs).Resting w k) :
    (s.stepScript tgt zb maxChanMsgSize).InOrder (tgt.abi hpos) w queue := by
  rw [Sample.stepScript_call htodo]
  apply Sample.call_intro
  apply (chanRead_spec tgt zb rfl (s.lua.on s.bus)).mono
  · intro rs u hreturns
    exact h.quiet (Sample.quiet_of_bus (hw.queues.readReturns hreturns)) (hnext rs)
  · intro e u hraises
    exact h.quiet (Sample.quiet_of_bus (hw.queues.readRaises hraises)) trivial

/-- The script publishes on a channel that neither subscriber observes. -/
theorem pub (hw : Wired tgt hpos zb w notifies queue) {chan : Nat}
    (hdata : w.msubConsumer ∉ notifies chan) (hacks : w.msubAccConsumed ∉ notifies chan)
    {entries : Entries} {metatable : Option Nat} {timeout : LuaInteger}
    {next : List Value → Stage}
    (htodo : s.script.todo tgt zb maxChanMsgSize = some (.call (callMethod (chanPub tgt zb)
      [.userdata .zbusChannel chan, .table entries metatable, .integer timeout]) next))
    (hnext : ∀ rs, (next rs).Resting w k) :
    (s.stepScript tgt zb maxChanMsgSize).InOrder (tgt.abi hpos) w queue := by
  rw [Sample.stepScript_call htodo]
  apply Sample.call_intro
  apply (chanPub_spec tgt zb rfl (s.lua.on s.bus)).mono
  · intro rs u hreturns
    have hquiet : s.Quiet w queue { s with script := next rs, lua := u.on (), bus := u.bus } :=
      ⟨rfl, (hw.queues.pubReturns hreturns _).resolve_right fun hheard => hdata hheard.1,
        (hw.queues.pubReturns hreturns _).resolve_right fun hheard => hacks hheard.1, rfl⟩
    exact h.quiet hquiet (hnext rs)
  · rintro e u ⟨buf, descr, -, -, -, hbus, -⟩
    exact h.quiet (Sample.quiet_of_bus fun obs => congrArg _ hbus) trivial

/-- The script shows a line that belongs to no round. -/
theorem print {line : Except LuaError Line} {next : Stage}
    (htodo : s.script.todo tgt zb maxChanMsgSize = some (.print tgt line next))
    (hline : ∀ l, line = .ok l → l.ofRound = false) (hnext : next.Resting w k) :
    (s.stepScript tgt zb maxChanMsgSize).InOrder (tgt.abi hpos) w queue := by
  apply Sample.print_intro htodo
  · intro l hl
    have hnone : [l].filter Line.ofRound = [] := by simp [hline l hl]
    exact h.quiet (Sample.quiet_of_line hnone) hnext
  · intro e
    exact h.quiet (Sample.quiet_of_line rfl) trivial

theorem go {next : Stage} (htodo : s.script.todo tgt zb maxChanMsgSize = some (.go none next))
    (hnext : next.Resting w k) :
    (s.stepScript tgt zb maxChanMsgSize).InOrder (tgt.abi hpos) w queue :=
  Sample.go_intro htodo (h.quiet (Sample.quiet_of_line rfl) hnext)

/-- The condition of the loop: the next round begins, or ten are over. -/
theorem loop (hscript : s.script = .loop w.handles (.integer (loopIndex k))) :
    (s.stepScript tgt zb maxChanMsgSize).InOrder (tgt.abi hpos) w queue := by
  have hle := h.le
  have hindex := loopIndex_toInt h.le
  by_cases hlt : (loopIndex k).toInt < 10
  · have htodo : s.script.todo tgt zb maxChanMsgSize =
        some (.print tgt (.ok .producing) (.pubAccData w.handles (loopIndex k))) := by
      rw [hscript]
      exact if_pos hlt
    apply Sample.print_intro htodo
    · intro l hl
      obtain rfl := Except.ok.inj hl
      refine .busy k (by omega) .unsent ⟨rfl, rfl, rfl⟩ (h.flying.of_queues rfl rfl rfl) ?_
      rw [List.filter_append, h.shown]
      rfl
    · intro e
      exact h.quiet (Sample.quiet_of_line rfl) trivial
  · have htodo : s.script.todo tgt zb maxChanMsgSize = some (.go none .finished) := by
      rw [hscript]
      exact if_neg hlt
    have hten : k = 10 := by omega
    exact h.go htodo hten

end Sample.RestsAt

/-- A step of the script between two rounds stays there, or opens a round. -/
theorem Sample.RestsAt.stepScript (hw : Wired tgt hpos zb w notifies queue)
    (h : s.RestsAt w queue (tgt.abi hpos) k) (hstage : s.script.Resting w k) :
    (s.stepScript tgt zb maxChanMsgSize).InOrder (tgt.abi hpos) w queue := by
  cases hscript : s.script with
  | declareVersion =>
      rw [hscript] at hstage
      refine h.declare (ascii "chan_version") hw.chanVersion (by rw [hscript]; rfl) ?_
      exact ⟨hstage, rfl⟩
  | declareSensorConfig version =>
      rw [hscript] at hstage
      refine h.declare (ascii "chan_sensor_config") hw.chanSensorConfig (by rw [hscript]; rfl) ?_
      exact ⟨hstage.1, hstage.2, rfl⟩
  | declareAccData version config =>
      rw [hscript] at hstage
      refine h.declare (ascii "chan_acc_data") hw.chanAccData (by rw [hscript]; rfl) ?_
      exact ⟨hstage.1, hstage.2.1, hstage.2.2, rfl⟩
  | declareAccConsumed version config acc =>
      rw [hscript] at hstage
      obtain ⟨hzero, rfl, rfl, rfl⟩ := hstage
      refine h.declareObserver (ascii "msub_acc_consumed") hw.msubAccConsumed
        (by rw [hscript]; rfl) ?_
      exact ⟨hzero, rfl⟩
  | readVersion handles =>
      rw [hscript] at hstage
      obtain ⟨hzero, rfl⟩ := hstage
      refine h.read hw w.chanVersion 500 (by rw [hscript]; rfl) fun rs => ?_
      split
      · exact ⟨hzero, rfl⟩
      · exact ⟨hzero, rfl⟩
  | showVersion handles msg =>
      rw [hscript] at hstage
      have hnext : (Stage.pubSensorConfig handles).Resting w k := hstage
      exact h.print (by rw [hscript]; rfl) (fun l hl => versionLine_ofRound hl) hnext
  | pubSensorConfig handles =>
      rw [hscript] at hstage
      obtain ⟨rfl, rfl⟩ := hstage
      obtain ⟨hdata, hacks⟩ := hw.sensorConfig_quiet
      refine h.pub hw hdata hacks (by rw [hscript]; rfl) fun rs => ?_
      split
      · exact ⟨rfl, rfl⟩
      · exact ⟨rfl, rfl⟩
  | readSensorConfig handles =>
      rw [hscript] at hstage
      obtain ⟨rfl, rfl⟩ := hstage
      refine h.read hw w.chanSensorConfig 200 (by rw [hscript]; rfl) fun rs => ?_
      split
      · exact ⟨rfl, rfl⟩
      · exact ⟨rfl, rfl⟩
  | showSensorConfig handles msg =>
      rw [hscript] at hstage
      obtain ⟨rfl, rfl⟩ := hstage
      have hindex : (Stage.loop w.handles (.integer 1)).Resting w 0 := ⟨rfl, rfl⟩
      exact h.print (by rw [hscript]; rfl) (fun l hl => sensorConfigLine_ofRound hl) hindex
  | loop handles i =>
      rw [hscript] at hstage
      obtain ⟨rfl, rfl⟩ := hstage
      exact h.loop hscript
  | sleep handles i =>
      rw [hscript] at hstage
      have hindex : (Stage.loop handles i).Resting w k := hstage
      exact h.go (by rw [hscript]; rfl) hindex
  | finished | raised =>
      rw [Sample.stepScript_ended (by rw [hscript]; rfl)]
      exact .resting k h.le hstage h.flying h.shown
  | pubAccData | couldNotPub | waitMsg | failed | acked | broken =>
      rw [hscript] at hstage
      exact hstage.elim

theorem givesMembers_accData (i : LuaInteger) :
    GivesMembers tgt accDataMembers (.table (accData i) none) (accVals i) := by
  have hmember (n : LuaInteger) : Gives tgt (.scalar (.int true .four)) (.integer n) n :=
    ⟨n, rfl, (BitVec.signExtend_eq n).symm⟩
  exact ⟨⟨_, rfl, nofun, hmember (accX i)⟩, ⟨_, rfl, nofun, hmember (accY i)⟩,
    ⟨_, rfl, nofun, hmember (accZ i)⟩, trivial⟩

theorem shown_ackVals (k : Nat) : shown tgt (.struct accDataConsumedMembers) (ackVals k) =
    .table [(ascii "count", .integer (BitVec.ofNat 32 k))] none := by
  have hmember : (BitVec.ofNat 32 k).signExtend 32 = BitVec.ofNat 32 k := BitVec.signExtend_eq _
  exact congrArg (fun n => Value.table [(ascii "count", .integer n)] none) hmember

/-- A call of `wait_msg` by the script takes a count only when one was sent. -/
theorem Sample.Flying.waits {abi : Abi} {f : Flight} (h : s.Flying abi w queue k f)
    {p : Nat × Bytes} {rest : List (Nat × Bytes)}
    (hhead : queue w.msubAccConsumed s.bus = p :: rest) {bus : β}
    (hother : queue w.msubConsumer bus = queue w.msubConsumer s.bus) :
    f = .answered ∧ rest = [] ∧ p.1 = w.chanAccDataConsumed ∧
      HoldsMembers abi p.2 accDataConsumedMembers 0 0 (ackVals (k + 1)) ∧
      queue w.msubConsumer bus = [] ∧ s.consumer = ⟨.waiting, BitVec.ofNat 32 (k + 1)⟩ := by
  unfold Sample.Flying at h
  rw [hhead, ← hother] at h
  cases f with
  | answered =>
      obtain ⟨hconsumer, hdata, m, hacks, hholds⟩ := h
      obtain ⟨rfl, hrest⟩ := List.cons.inj hacks
      exact ⟨rfl, hrest, rfl, hholds, hdata, hconsumer⟩
  | unsent | told | unheard => exact absurd h.2.2 (List.cons_ne_nil _ _)
  | sent | taken => exact absurd h.2.1 (List.cons_ne_nil _ _)

variable (w queue) in
/-- A round has begun after the first `k`, and is so far. -/
structure Sample.BusyAt (s : Sample β) (abi : Abi) (k : Nat) (f : Flight) : Prop where
  lt : k < 10
  flying : s.Flying abi w queue k f
  shown : s.shown.filter Line.ofRound = rounds k ++ f.lines k

namespace Sample.BusyAt

variable {f : Flight} (h : s.BusyAt w queue (tgt.abi hpos) k f)
include h

theorem quiet {t : Sample β} (hquiet : s.Quiet w queue t) (hstage : t.script.Busy w k f) :
    t.InOrder (tgt.abi hpos) w queue :=
  hquiet.busy h.lt h.flying h.shown hstage

/-- The script shows a line that belongs to no round. -/
theorem print {line : Line} {next : Stage}
    (htodo : s.script.todo tgt zb maxChanMsgSize = some (.print tgt (.ok line) next))
    (hline : line.ofRound = false) (hnext : next.Busy w k f) :
    (s.stepScript tgt zb maxChanMsgSize).InOrder (tgt.abi hpos) w queue := by
  apply Sample.print_intro htodo
  · intro l hl
    obtain rfl := Except.ok.inj hl
    have hnone : [line].filter Line.ofRound = [] := by simp [hline]
    exact h.quiet (Sample.quiet_of_line hnone) hnext
  · intro e
    exact h.quiet (Sample.quiet_of_line rfl) trivial

/-- The script waits for the count: it comes, or no message does. -/
theorem waitMsg (hw : Wired tgt hpos zb w notifies queue)
    (hscript : s.script = .waitMsg w.handles (loopIndex k)) :
    (s.stepScript tgt zb maxChanMsgSize).InOrder (tgt.abi hpos) w queue := by
  rw [Sample.stepScript_call (by rw [hscript]; rfl)]
  apply Sample.call_intro
  apply (subWaitMsg_spec tgt zb rfl [] (s.lua.on s.bus)).mono
  · intro rs u hreturns
    obtain ⟨⟨err, herr, rfl⟩, hsame⟩ | ⟨chan, message, buf, v, hhead, hother, hv, rfl⟩ :=
      hw.queues.waitReturns hreturns
    · have hnext : (if Value.integer err = .integer 0 then
          Stage.acked w.handles (loopIndex k) .nil
            else .failed (.integer err)).Busy w k f := by
        rw [if_neg (by simpa using herr)]
        trivial
      exact h.quiet (Sample.quiet_of_bus hsame) hnext
    · obtain ⟨rfl, hacks, hchan, hholds, hdata, hconsumer⟩ :=
        h.flying.waits hhead (hother _ hw.subscribers)
      dsimp only at hchan hholds
      subst hchan
      have hmsg : shownMessage tgt zb w.chanAccDataConsumed (put buf ⟨0, message⟩) = some _ :=
        shownMessage_put (hw.accDataConsumed.shownMessage_eq hholds)
      rw [hmsg, shown_ackVals] at hv
      obtain rfl := Option.some.inj hv
      exact .busy k h.lt .unheard ⟨rfl, rfl, rfl⟩ ⟨hconsumer, hdata, hacks⟩ h.shown
  · intro e u hraises
    obtain ⟨⟨p, hhead⟩, hother⟩ := hw.queues.waitRaises hraises
    obtain ⟨rfl, hacks, -, -, hdata, hconsumer⟩ :=
      h.flying.waits hhead (hother _ hw.subscribers)
    exact .busy k h.lt .unheard trivial ⟨hconsumer, hdata, hacks⟩ h.shown

end Sample.BusyAt

/-- The script publishes the sample: it is on its way, or zbus has not taken it. -/
theorem Sample.BusyAt.pubAccData (hw : Wired tgt hpos zb w notifies queue)
    (h : s.BusyAt w queue (tgt.abi hpos) k .unsent)
    (hscript : s.script = .pubAccData w.handles (loopIndex k)) :
    (s.stepScript tgt zb maxChanMsgSize).InOrder (tgt.abi hpos) w queue := by
  rw [Sample.stepScript_call (by rw [hscript]; rfl)]
  apply Sample.call_intro
  apply (chanPub_spec tgt zb rfl (s.lua.on s.bus)).mono
  · intro rs u hreturns
    have hstage' (f' : Flight) : (if rs.getD 0 .nil = .integer 0 then
        Stage.waitMsg w.handles (loopIndex k)
          else .couldNotPub w.handles (loopIndex k)).Busy w k f' := by
      split
      · exact ⟨rfl, rfl⟩
      · exact ⟨rfl, rfl⟩
    obtain ⟨hconsumer, hdata, hacks⟩ := h.flying
    have hacks' : queue w.msubAccConsumed u.bus = [] :=
      ((hw.queues.pubReturns hreturns _).resolve_right fun hheard =>
        hw.accData_consumed ((hw.accConsumed_iff _).mp hheard.1)).trans hacks
    obtain hsame | ⟨-, descr, buf, ws, hdescr, hlen, hws, hnew⟩ :=
      hw.queues.pubReturns hreturns w.msubConsumer
    · exact .busy k h.lt .unsent (hstage' _) ⟨hconsumer, hsame.trans hdata, hacks'⟩ h.shown
    · obtain rfl := Option.some.inj (hw.accData.descr.symm.trans hdescr)
      have hholds := hw.accData.holds_of_gives hlen (givesMembers_accData (loopIndex k)) hws
      have hdata' : queue w.msubConsumer u.bus = [(w.chanAccData, putAll buf ws)] := by
        rw [hnew]
        exact congrArg (· ++ _) hdata
      exact .busy k h.lt .sent (hstage' _) ⟨hconsumer, hacks', _, hdata', hholds⟩ h.shown
  · rintro e u ⟨buf, descr, -, -, -, hbus, -⟩
    exact h.quiet (Sample.quiet_of_bus fun obs => congrArg _ hbus) trivial

/-- The script shows the count it got, and the round is over. -/
theorem Sample.BusyAt.acked (h : s.BusyAt w queue (tgt.abi hpos) k .unheard) {i : LuaInteger}
    (hscript : s.script = .acked w.handles i
      (.table [(ascii "count", .integer (BitVec.ofNat 32 (k + 1)))] none)) :
    (s.stepScript tgt zb maxChanMsgSize).InOrder (tgt.abi hpos) w queue := by
  have htodo : s.script.todo tgt zb maxChanMsgSize = some (.print tgt (.ok (ackLine k))
      (.sleep w.handles (.integer (BitVec.ofNat 32 (k + 1))))) := by rw [hscript]; rfl
  apply Sample.print_intro htodo
  · intro l hl
    obtain rfl := Except.ok.inj hl
    refine .resting (k + 1) h.lt ⟨rfl, by rw [loopIndex_succ]⟩ h.flying ?_
    rw [List.filter_append, h.shown, List.append_assoc]
    rfl
  · intro e
    exact h.quiet (Sample.quiet_of_line rfl) trivial

/-- A step of the script in a round takes the round on, or ends it. -/
theorem Sample.BusyAt.stepScript (hw : Wired tgt hpos zb w notifies queue) {f : Flight}
    (h : s.BusyAt w queue (tgt.abi hpos) k f) (hstage : s.script.Busy w k f) :
    (s.stepScript tgt zb maxChanMsgSize).InOrder (tgt.abi hpos) w queue := by
  cases hscript : s.script with
  | pubAccData handles i =>
      rw [hscript] at hstage
      obtain ⟨rfl, rfl, rfl⟩ := hstage
      exact h.pubAccData hw hscript
  | couldNotPub handles i =>
      rw [hscript] at hstage
      have hnext : (Stage.waitMsg handles i).Busy w k f := hstage
      have htodo : s.script.todo tgt zb maxChanMsgSize =
          some (.print tgt (.ok .couldNotPub) (.waitMsg handles i)) := by rw [hscript]; rfl
      exact h.print htodo rfl hnext
  | waitMsg handles i =>
      rw [hscript] at hstage
      obtain ⟨rfl, rfl⟩ := hstage
      exact h.waitMsg hw hscript
  | failed err =>
      have htodo : s.script.todo tgt zb maxChanMsgSize =
          some (.print tgt (.ok (.error err)) .broken) := by rw [hscript]; rfl
      exact h.print htodo rfl trivial
  | acked handles i msg =>
      rw [hscript] at hstage
      obtain ⟨rfl, rfl, rfl⟩ := hstage
      exact h.acked hscript
  | broken | raised =>
      rw [Sample.stepScript_ended (by rw [hscript]; rfl)]
      exact .busy k h.lt f hstage h.flying h.shown
  | _ =>
      rw [hscript] at hstage
      exact hstage.elim

/-- A wait that failed is shown before the script leaves its loop for it. -/
def Stage.Admits (shown : List Line) : Stage → Prop
  | .failed err => err ≠ .integer 0
  | .broken => ∃ err, err ≠ .integer 0 ∧ .error err ∈ shown
  | _ => True

def Todo.Admits (shown : List Line) : Todo β → Prop
  | .go line next => next.Admits (shown ++ line.toList)
  | .call _ next => ∀ rs, (next rs).Admits shown

theorem Todo.print_admits {shown : List Line} {line : Except LuaError Line} {next : Stage}
    (h : ∀ l, line = .ok l → next.Admits (shown ++ [l])) :
    (Todo.print tgt line next : Todo β).Admits shown := by
  unfold Todo.print
  cases line with
  | error e => trivial
  | ok l =>
      dsimp only
      split
      · exact h l rfl
      · trivial

/-- The script breaks its loop only for an error it shows. -/
theorem Stage.todo_admits {shown : List Line} {stage : Stage} (h : stage.Admits shown)
    {todo : Todo β} (htodo : stage.todo tgt zb maxChanMsgSize = some todo) :
    todo.Admits shown := by
  cases stage with
  | declareVersion | declareSensorConfig | declareAccData | declareAccConsumed =>
      obtain rfl := Option.some.inj htodo
      exact fun _ => trivial
  | readVersion | pubSensorConfig | readSensorConfig | pubAccData =>
      obtain rfl := Option.some.inj htodo
      intro rs
      dsimp only
      split
      · trivial
      · trivial
  | waitMsg =>
      obtain rfl := Option.some.inj htodo
      intro rs
      dsimp only
      split
      · trivial
      · assumption
  | showVersion | showSensorConfig | couldNotPub =>
      obtain rfl := Option.some.inj htodo
      exact Todo.print_admits fun _ _ => trivial
  | failed err =>
      obtain rfl := Option.some.inj htodo
      refine Todo.print_admits fun l hl => ?_
      obtain rfl := Except.ok.inj hl
      exact ⟨err, h, List.mem_append_right _ (List.mem_singleton_self _)⟩
  | loop handles i =>
      cases i with
      | integer i =>
          by_cases hlt : i.toInt < 10
          · obtain rfl := Option.some.inj ((if_pos hlt).symm.trans htodo)
            exact Todo.print_admits fun _ _ => trivial
          · obtain rfl := Option.some.inj ((if_neg hlt).symm.trans htodo)
            trivial
      | _ =>
          obtain rfl := Option.some.inj htodo
          trivial
  | acked handles i msg =>
      rw [Stage.todo] at htodo
      split at htodo
      · obtain rfl := Option.some.inj htodo
        trivial
      · obtain rfl := Option.some.inj htodo
        exact Todo.print_admits fun _ _ => trivial
      · obtain rfl := Option.some.inj htodo
        trivial
  | sleep =>
      obtain rfl := Option.some.inj htodo
      trivial
  | finished | broken | raised => cases htodo

/-- The lines shown only grow. -/
theorem Stage.Admits.grow {shown : List Line} {stage : Stage} (h : stage.Admits shown)
    (more : List Line) : stage.Admits (shown ++ more) := by
  cases stage with
  | broken =>
      obtain ⟨err, herr, hmem⟩ := h
      exact ⟨err, herr, List.mem_append_left _ hmem⟩
  | _ => exact h

def Sample.Admits (s : Sample β) : Prop := s.script.Admits s.shown

theorem Sample.Admits.stepScript (h : s.Admits) : (s.stepScript tgt zb maxChanMsgSize).Admits := by
  unfold Sample.stepScript
  split
  · rename_i htodo
    exact Stage.todo_admits h htodo
  · rename_i htodo
    have hnext := Stage.todo_admits h htodo
    unfold Sample.call
    split
    · exact hnext _
    · trivial
  · exact h

theorem Sample.Admits.stepConsumer {abi : Abi} {forever : LuaInteger} (h : s.Admits) :
    (s.stepConsumer abi zb w forever).Admits := by
  unfold Sample.stepConsumer
  split
  · split
    · exact h
    · exact h
  · exact h.grow _
  · exact h

theorem Sample.Admits.step {forever : LuaInteger} (h : s.Admits) (move : SampleMove β) :
    (s.step tgt hpos zb maxChanMsgSize w forever move).2.Admits := by
  cases move with
  | script => exact h.stepScript
  | outOfMemory =>
      change s.runOut.Admits
      unfold Sample.runOut
      split
      · exact h
      · exact h
      · exact h
      · trivial
  | luaWork next => exact h
  | consumer => exact h.stepConsumer
  | others next => exact h

theorem Sample.InOrder.congr {t : Sample β} {abi : Abi} (h : s.InOrder abi w queue)
    (hscript : t.script = s.script) (hquiet : s.Quiet w queue t) : t.InOrder abi w queue := by
  cases h with
  | resting k hk hstage hflying hshown =>
      exact hquiet.rest hk hflying hshown (hscript ▸ hstage)
  | busy k hk f hstage hflying hshown =>
      exact hquiet.busy hk hflying hshown (hscript ▸ hstage)

theorem Sample.InOrder.runOut {abi : Abi} (h : s.InOrder abi w queue) :
    s.runOut.InOrder abi w queue := by
  have hraised : Sample.InOrder abi w queue { s with script := .raised (.error .memory) } := by
    cases h with
    | resting k hk hstage hflying hshown => exact .resting k hk trivial hflying hshown
    | busy k hk f hstage hflying hshown => exact .busy k hk f trivial hflying hshown
  unfold Sample.runOut
  split
  · exact h
  · exact h
  · exact h
  · exact hraised

variable (w queue) in
/-- Other threads neither publish to the two subscribers nor wait on them. -/
def KeepsOff (s : Sample β) : SampleMove β → Prop
  | .others next => queue w.msubConsumer next = queue w.msubConsumer s.bus ∧
      queue w.msubAccConsumed next = queue w.msubAccConsumed s.bus
  | _ => True

theorem Sample.InOrder.step (hw : Wired tgt hpos zb w notifies queue) {forever : LuaInteger}
    (h : s.InOrder (tgt.abi hpos) w queue) {move : SampleMove β} (hmove : KeepsOff w queue s move) :
    (s.step tgt hpos zb maxChanMsgSize w forever move).2.InOrder (tgt.abi hpos) w queue := by
  cases move with
  | script =>
      cases h with
      | resting k hk hstage hflying hshown =>
          exact Sample.RestsAt.stepScript hw ⟨hk, hflying, hshown⟩ hstage
      | busy k hk f hstage hflying hshown =>
          exact Sample.BusyAt.stepScript hw ⟨hk, hflying, hshown⟩ hstage
  | outOfMemory => exact h.runOut
  | luaWork next => exact h.congr rfl ⟨rfl, rfl, rfl, rfl⟩
  | consumer => exact h.stepConsumer hw forever
  | others next => exact h.congr rfl ⟨rfl, hmove.1, hmove.2, rfl⟩

variable (w queue) in
/-- The sample before its threads run. -/
structure Sample.Starts (s : Sample β) : Prop where
  script : s.script = .declareVersion
  consumer : s.consumer = ⟨.waiting, 0⟩
  data : queue w.msubConsumer s.bus = []
  acks : queue w.msubAccConsumed s.bus = []
  shown : s.shown = []

/-- The rounds appear one after the other. A script whose loop has come to its end has shown
all ten, and one that broke it has shown the error for which it did. Every sample is printed
with two digits for each axis. -/
structure Sample.Orderly (s : Sample β) : Prop where
  order : s.shown.filter Line.ofRound <+: rounds 10
  finished : s.script = .finished → s.shown.filter Line.ofRound = rounds 10
  broken : s.script = .broken → ∃ err, err ≠ .integer 0 ∧ .error err ∈ s.shown
  digits : ∀ count x y z, .accData count x y z ∈ s.shown →
    (twoDigits x).length = 2 ∧ (twoDigits y).length = 2 ∧ (twoDigits z).length = 2

theorem mem_rounds {n : Nat} {line : Line} (h : line ∈ rounds n) :
    ∃ k, line = .producing ∨ line = dataLine k ∨ line = ackLine k := by
  induction n with
  | zero => exact absurd h List.not_mem_nil
  | succ k ih =>
      obtain hold | hnew := List.mem_append.mp h
      · exact ih hold
      · exact ⟨k, by simpa using hnew⟩

theorem length_twoDigits {n : LuaInteger} (h : 0 ≤ n.toInt ∧ n.toInt < 100) :
    (twoDigits n).length = 2 := by
  have hall : ∀ m : Nat, m < 100 → (if 0 ≤ (m : Int) ∧ (m : Int) < 10 then "0" ++ toString (m : Int)
      else toString (m : Int)).length = 2 := by decide
  obtain ⟨m, hm⟩ := Int.eq_ofNat_of_zero_le h.1
  unfold twoDigits
  rw [hm]
  exact hall m (by omega)

theorem dataLine_digits {k : Nat} {count x y z : LuaInteger}
    (h : .accData count x y z = dataLine k) :
    (twoDigits x).length = 2 ∧ (twoDigits y).length = 2 ∧ (twoDigits z).length = 2 := by
  obtain ⟨-, rfl, rfl, rfl⟩ := Line.accData.inj h
  have haxis (a : LuaInteger) : (twoDigits (luaMod a 100)).length = 2 :=
    length_twoDigits (luaMod_toInt (by decide) a)
  exact ⟨haxis _, haxis _, haxis _⟩

theorem Sample.InOrder.orderly {abi : Abi} (h : s.InOrder abi w queue)
    (hadmits : s.Admits) : s.Orderly := by
  have hbegins : s.shown.filter Line.ofRound <+: rounds 10 := by
    cases h with
    | resting k hk hstage hflying hshown => exact hshown ▸ rounds_begin hk
    | busy k hk f hstage hflying hshown =>
        have hlines : f.lines k <+: [.producing, dataLine k, ackLine k] := by
          cases f with
          | unsent | sent | taken => exact ⟨[dataLine k, ackLine k], rfl⟩
          | told | answered | unheard => exact ⟨[ackLine k], rfl⟩
        rw [hshown]
        exact ((List.prefix_append_right_inj _).mpr hlines).trans (rounds_begin hk)
  refine ⟨hbegins, fun hfinished => ?_, fun hbroken => ?_, fun count x y z hmem => ?_⟩
  · cases h with
    | resting k hk hstage hflying hshown =>
        rw [hfinished] at hstage
        obtain rfl : k = 10 := hstage
        exact hshown
    | busy k hk f hstage hflying hshown =>
        rw [hfinished] at hstage
        exact hstage.elim
  · unfold Sample.Admits at hadmits
    rw [hbroken] at hadmits
    exact hadmits
  · have hround := hbegins.subset (List.mem_filter.mpr ⟨hmem, rfl⟩)
    obtain ⟨k, hline | hline | hline⟩ := mem_rounds hround
    · cases hline
    · exact dataLine_digits hline
    · cases hline

/-- In every run of the sample, under every schedule and with memory running out anywhere,
the rounds appear in order. The script leaves its loop after all ten, or breaks it when a
wait fails, timeouts included, and then it has shown the error. -/
theorem producerConsumer_rounds (hw : Wired tgt hpos zb w notifies queue) {s : Sample β}
    (hstart : s.Starts w queue) (forever : LuaInteger) {moves : List (SampleMove β)}
    (hall : AllSteps (Sample.step tgt hpos zb maxChanMsgSize w forever) (KeepsOff w queue) s
      moves) :
    (run (Sample.step tgt hpos zb maxChanMsgSize w forever) s moves).2.Orderly := by
  have hinitial : s.InOrder (tgt.abi hpos) w queue := by
    refine .resting 0 (by decide) (hstart.script ▸ rfl) ?_ (hstart.shown ▸ rfl)
    unfold Sample.Flying
    rw [hstart.consumer, hstart.data, hstart.acks]
    exact ⟨rfl, rfl, rfl⟩
  have hadmits : s.Admits := by
    unfold Sample.Admits
    rw [hstart.script]
    trivial
  exact (run_keeps (fun _ _ h hmove => h.step hw hmove) hinitial hall).orderly
    (run_keeps (fun _ move h _ => h.step move) hadmits hall)

end Wired

/-- `struct msg_version`. -/
def versionMembers : Members :=
  [(some (ascii "major"), .scalar (.int false .four)),
    (some (ascii "minor"), .scalar (.int false .four)),
    (some (ascii "patch"), .scalar (.int false .four)),
    (some (ascii "hardware_id"), .scalar (.chars 16))]

def sampleChannel (name : String) (members : Members) : Channel where
  name := ascii name
  msgSize := (CType.struct members).sizeof (Target.sample.abi wordAlign_pos)
  userData := some (luaZbusMsgDescr (Target.sample.abi wordAlign_pos) members)

def sampleChannels : Nat → Channel
  | 0 => sampleChannel "chan_version" versionMembers
  | 1 => sampleChannel "chan_sensor_config" sensorConfigMembers
  | 2 => sampleChannel "chan_acc_data" accDataMembers
  | _ => sampleChannel "chan_acc_data_consumed" accDataConsumedMembers

def sampleWiring : Wiring := ⟨0, 1, 2, 3, 0, 1⟩

/-- `ZBUS_CHAN_ADD_OBS`. -/
def sampleNotifies (c : Nat) : List Nat := if c = 2 then [0] else if c = 3 then [1] else []

def sampleZbus : Zbus (Mailboxes sampleChannels) :=
  Zbus.ofMailboxes sampleChannels [0, 1, 2, 3]
    (fun obs => if obs = 0 then ascii "msub_consumer" else ascii "msub_acc_consumed") [0, 1]
    sampleNotifies

theorem wired_sampleZbus :
    Wired Target.sample wordAlign_pos sampleZbus sampleWiring sampleNotifies Mailboxes.waiting where
  queues := queues_ofMailboxes _ _ _ _ _
  chanVersion := by decide +kernel
  chanSensorConfig := by decide +kernel
  chanAccData := by decide +kernel
  msubAccConsumed := by decide +kernel
  accData := {
    descr := rfl
    size := rfl
    named := ⟨by decide, trivial, by decide, trivial, by decide, trivial, trivial⟩
    fits := ⟨⟨by decide, by decide⟩, ⟨by decide, by decide⟩, ⟨by decide, by decide⟩, trivial⟩ }
  accDataConsumed := {
    descr := rfl
    size := rfl
    named := ⟨by decide, trivial, trivial⟩
    fits := ⟨⟨by decide, by decide⟩, trivial⟩ }
  consumer_iff c := by
    change 0 ∈ sampleNotifies c ↔ c = 2
    unfold sampleNotifies
    split_ifs <;> simp_all
  accConsumed_iff c := by
    change 1 ∈ sampleNotifies c ↔ c = 3
    unfold sampleNotifies
    split_ifs <;> simp_all
  channels := by decide
  subscribers := by decide

/-- The script and the consumer before they run, with empty mailboxes. -/
def sampleAtStart : Sample (Mailboxes sampleChannels) where
  script := .declareVersion
  lua := State.idle 7 ()
  consumer := ⟨.waiting, 0⟩
  bus := {
    stored := fun c => ⟨List.replicate (sampleChannels c).msgSize 0, List.length_replicate⟩
    queued := fun _ => [] }
  shown := []

/-- A turn of the consumer, or of the script. -/
def sampleTurn (consumer : Bool) : SampleMove (Mailboxes sampleChannels) :=
  if consumer then .consumer else .script

def sampleRun (turns : List Bool) : Sample (Mailboxes sampleChannels) :=
  (run (Sample.step Target.sample wordAlign_pos sampleZbus (luaZbusInit sampleZbus) sampleWiring
    0) sampleAtStart (turns.map sampleTurn)).2

theorem keepsOff_turns (turns : List Bool) (s : Sample (Mailboxes sampleChannels)) :
    AllSteps (Sample.step Target.sample wordAlign_pos sampleZbus (luaZbusInit sampleZbus)
      sampleWiring 0) (KeepsOff sampleWiring Mailboxes.waiting) s (turns.map sampleTurn) := by
  induction turns generalizing s with
  | nil => trivial
  | cons consumer turns ih =>
      refine ⟨?_, ih _⟩
      cases consumer with
      | false => trivial
      | true => trivial

/-- The script up to its loop. -/
def beforeLoop : List Bool := List.replicate 9 false

/-- The script publishes, the consumer answers, and the script shows the count and sleeps. -/
def oneRound : List Bool := [false, false, true, true, true, false, false, false]

def tenRounds : List Bool := beforeLoop ++ (List.replicate 10 oneRound).flatten ++ [false]

/-- In the second round the wait times out before the consumer has a turn. -/
def secondUnheard : List Bool := beforeLoop ++ oneRound ++ List.replicate 4 false

/-- A run to the end of the loop, and one in which the script breaks it. -/
theorem producerConsumer_rounds_atStart :
    (sampleRun tenRounds).Orderly ∧ (sampleRun secondUnheard).Orderly ∧
      (sampleRun tenRounds).shown.filter Line.ofRound = rounds 10 ∧
      (sampleRun secondUnheard).shown.filter Line.ofRound = rounds 1 ++ [.producing] ∧
      (sampleRun secondUnheard).shown.getLast? = some (.error (.integer (-11))) :=
  ⟨producerConsumer_rounds wired_sampleZbus ⟨rfl, rfl, rfl, rfl, rfl⟩ 0 (keepsOff_turns _ _),
    producerConsumer_rounds wired_sampleZbus ⟨rfl, rfl, rfl, rfl, rfl⟩ 0 (keepsOff_turns _ _),
    by decide +kernel, by decide +kernel, by decide +kernel⟩

end LuaZephyr
