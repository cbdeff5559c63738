import LuaZephyr.Nanopb.Bridge
import LuaZephyr.Zbus.Observers
import LuaZephyr.Zbus.Queues
import LuaZephyr.Zbus.Typed

/-!
# The producer and consumer sample

`producer.lua` runs in a Lua thread, `consumer_thread` in C. The script publishes samples on
`chan_acc_data`; the consumer counts them and publishes the count on `chan_acc_data_consumed`,
where the script waits for it. The next index of the loop is the count received.

What the script computes is here, with the lines it prints. The threads, and the order in which
they take turns, are in `Samples.ProducerConsumer`. Times and priorities are left out: a sleep
lets the others go on for as long as they like.
-/

namespace LuaZephyr

open CStruct Outcome

variable {β : Type}

/-- `struct msg_acc_data_consumed`. -/
def accDataConsumedMembers : Members := [(some (ascii "count"), .scalar (.int true .four))]

/-- `msg_acc_data_consumed_FIELDLIST`. -/
def msgAccDataConsumedFieldlist : List PbField :=
  [⟨.static, .singular, .int32, ascii "count", 1, 0, 4, 0, []⟩]

/-- `LUA_PB_DESCR_DEFINE` makes the descriptors of the two structs. -/
example : luaPbDescrDefine msgAccDataFieldlist 12 =
    luaZbusMsgDescr (Target.sample.abi wordAlign_pos) accDataMembers := rfl

example : luaPbDescrDefine msgAccDataConsumedFieldlist 4 =
    luaZbusMsgDescr (Target.sample.abi wordAlign_pos) accDataConsumedMembers := rfl

/-- `a % b` in Lua, for `b` other than zero. -/
def luaMod (a b : LuaInteger) : LuaInteger := BitVec.ofInt 32 (a.toInt.fmod b.toInt)

/-- `getrandom`. -/
def getrandom (seed : LuaInteger) : LuaInteger := luaMod (71047 * seed + 8810) 7602

def accX (i : LuaInteger) : LuaInteger := luaMod (getrandom (i * 0x6782)) 100
def accY (i : LuaInteger) : LuaInteger := luaMod (getrandom (i * 0x82716)) 100
def accZ (i : LuaInteger) : LuaInteger := luaMod (getrandom (i * 0x9283)) 100

/-- The table `acc_data` in the iteration for `i`. -/
def accData (i : LuaInteger) : Entries :=
  [(ascii "x", .integer (accX i)), (ascii "y", .integer (accY i)), (ascii "z", .integer (accZ i))]

/-- A remainder by a positive number is not negative and below it. -/
theorem luaMod_toInt {b : LuaInteger} (hb : 0 < b.toInt) (a : LuaInteger) :
    0 ≤ (luaMod a b).toInt ∧ (luaMod a b).toInt < b.toInt := by
  have hlow : 0 ≤ a.toInt.fmod b.toInt := Int.fmod_nonneg_of_pos _ hb
  have hhigh : a.toInt.fmod b.toInt < b.toInt := Int.fmod_lt_of_pos _ hb
  have hmax : b.toInt < 2 ^ 31 := BitVec.toInt_lt
  have heq : (luaMod a b).toInt = a.toInt.fmod b.toInt := by
    unfold luaMod
    rw [BitVec.toInt_ofInt, Int.bmod_eq_of_le (by omega) (by omega)]
  rw [heq]
  exact ⟨hlow, hhigh⟩

/-- A line on the console: one constructor for each `printk` of the sample. -/
inductive Line where
  | systemVersion (major minor patch hardwareId : Value)
  | sensorConfig (sensorId x y z : Value)
  | producing
  | couldNotPub
  | error (err : Value)
  | receivedAck (count : Value)
  | accData (count x y z : LuaInteger)
  deriving DecidableEq

/-- `..` on several values: strings and numbers only. -/
def concatenate (tgt : Target) (parts : List Value) : Option Bytes :=
  (parts.mapM tgt.toText?).map List.flatten

/-- `%02d`. -/
def twoDigits (n : LuaInteger) : String :=
  if 0 ≤ n.toInt ∧ n.toInt < 10 then "0" ++ toString n.toInt else toString n.toInt

/-- The text of a line, none when the script raises in its concatenation. -/
def Line.text (tgt : Target) : Line → Option Bytes
  | .systemVersion major minor patch hardwareId =>
      concatenate tgt [.string (ascii "System version: v"), major, .string (ascii "."), minor,
        .string (ascii "."), patch, .string (ascii "_"), hardwareId]
  | .sensorConfig sensorId x y z =>
      concatenate tgt [.string (ascii "Sensor_config=\x7bsensor_id="), sensorId,
        .string (ascii " offset=\x7bx="), x, .string (ascii ", y="), y, .string (ascii ", z="), z,
        .string (ascii "\x7d\x7d")]
  | .producing => some (ascii "<-- Lua producing data ")
  | .couldNotPub => some (ascii "Could not pub to channel")
  | .error err => concatenate tgt [.string (ascii "error: "), err]
  | .receivedAck count => concatenate tgt [.string (ascii "--> Lua received ack "), count]
  | .accData count x y z =>
      some (ascii (" " ++ toString count.toInt ++ " - Accelerometer data x=" ++ twoDigits x ++
        ",y=" ++ twoDigits y ++ ",z=" ++ twoDigits z))

/-- The script's locals for the channels and the observer. -/
structure Handles where
  chanVersion : Value
  chanSensorConfig : Value
  chanAccData : Value
  msubAccConsumed : Value

/-- Where the script is, with the locals that it reads later. -/
inductive Stage where
  | declareVersion
  | declareSensorConfig (chanVersion : Value)
  | declareAccData (chanVersion chanSensorConfig : Value)
  | declareAccConsumed (chanVersion chanSensorConfig chanAccData : Value)
  | readVersion (h : Handles)
  | showVersion (h : Handles) (msg : Value)
  | pubSensorConfig (h : Handles)
  | readSensorConfig (h : Handles)
  | showSensorConfig (h : Handles) (msg : Value)
  | loop (h : Handles) (i : Value)
  | pubAccData (h : Handles) (i : LuaInteger)
  | couldNotPub (h : Handles) (i : LuaInteger)
  | waitMsg (h : Handles) (i : LuaInteger)
  | failed (err : Value)
  | acked (h : Handles) (i : LuaInteger) (msg : Value)
  | sleep (h : Handles) (i : Value)
  | finished
  | broken
  | raised (e : Exn)

/-- What the script does next: it goes on, with a line or without, or calls the API. -/
inductive Todo (β : Type) where
  | go (line : Option Line) (next : Stage)
  | call (method : LuaM β (List Value)) (next : List Value → Stage)

/-- `zephyr.printk` of a line made of the fields of a message. -/
def Todo.print (tgt : Target) (line : Except LuaError Line) (next : Stage) : Todo β :=
  match line with
  | .error e => .go none (.raised (.error e))
  | .ok line =>
      if (line.text tgt).isSome then .go (some line) next
      else .go none (.raised (.error (.runtime "attempt to concatenate")))

/-- The table `sensor_cfg`. -/
def sensorCfgTable : Value :=
  .table [(ascii "sensor_id", .integer 42), (ascii "offset", .table [(ascii "x", .integer 1),
    (ascii "y", .integer 2), (ascii "z", .integer 3)] none)] none

section Script

variable (tgt : Target) (zb : Zbus β) (maxChanMsgSize : Nat)

def versionLine (msg : Value) : Except LuaError Line := do
  return .systemVersion (← tgt.index msg (ascii "major")) (← tgt.index msg (ascii "minor"))
    (← tgt.index msg (ascii "patch")) (← tgt.index msg (ascii "hardware_id"))

def sensorConfigLine (msg : Value) : Except LuaError Line := do
  let sensorId ← tgt.index msg (ascii "sensor_id")
  let offset ← tgt.index msg (ascii "offset")
  return .sensorConfig sensorId (← tgt.index offset (ascii "x")) (← tgt.index offset (ascii "y"))
    (← tgt.index offset (ascii "z"))

/-- `if msg and msg.count then`: the count, if the branch is taken. -/
def ackCount (msg : Value) : Except LuaError (Option Value) :=
  if msg.toBoolean then do
    let count ← tgt.index msg (ascii "count")
    return if count.toBoolean then some count else none
  else .ok none

def Stage.todo : Stage → Option (Todo β)
  | .declareVersion =>
      some (.call (callMethod (zbusChannelDeclare tgt zb) [.string (ascii "chan_version")])
        fun rs => .declareSensorConfig (rs.getD 0 .nil))
  | .declareSensorConfig version =>
      some (.call (callMethod (zbusChannelDeclare tgt zb) [.string (ascii "chan_sensor_config")])
        fun rs => .declareAccData version (rs.getD 0 .nil))
  | .declareAccData version config =>
      some (.call (callMethod (zbusChannelDeclare tgt zb) [.string (ascii "chan_acc_data")])
        fun rs => .declareAccConsumed version config (rs.getD 0 .nil))
  | .declareAccConsumed version config acc =>
      some (.call (callMethod (zbusObserverDeclare tgt zb) [.string (ascii "msub_acc_consumed")])
        fun rs => .readVersion ⟨version, config, acc, rs.getD 0 .nil⟩)
  | .readVersion h =>
      some (.call (callMethod (chanRead tgt zb) [h.chanVersion, .integer 500]) fun rs =>
        if (rs.getD 1 .nil).toBoolean then .showVersion h (rs.getD 1 .nil)
        else .pubSensorConfig h)
  | .showVersion h msg => some (.print tgt (versionLine tgt msg) (.pubSensorConfig h))
  | .pubSensorConfig h =>
      some (.call (callMethod (chanPub tgt zb) [h.chanSensorConfig, sensorCfgTable, .integer 200])
        fun rs => if rs.getD 0 .nil = .integer 0 then .readSensorConfig h else .loop h (.integer 1))
  | .readSensorConfig h =>
      some (.call (callMethod (chanRead tgt zb) [h.chanSensorConfig, .integer 200]) fun rs =>
        if (rs.getD 1 .nil).toBoolean then .showSensorConfig h (rs.getD 1 .nil)
        else .loop h (.integer 1))
  | .showSensorConfig h msg =>
      some (.print tgt (sensorConfigLine tgt msg) (.loop h (.integer 1)))
  | .loop h i =>
      match i with
      | .integer i =>
          if i.toInt < 10 then some (.print tgt (.ok .producing) (.pubAccData h i))
          else some (.go none .finished)
      -- The fields of the descriptor are integers; other counts are not compared here.
      | _ => some (.go none (.raised (.error (.runtime "attempt to compare"))))
  | .pubAccData h i =>
      some (.call (callMethod (chanPub tgt zb)
        [h.chanAccData, .table (accData i) none, .integer 200])
        fun rs => if rs.getD 0 .nil = .integer 0 then .waitMsg h i else .couldNotPub h i)
  | .couldNotPub h i => some (.print tgt (.ok .couldNotPub) (.waitMsg h i))
  | .waitMsg h i =>
      some (.call (callMethod (subWaitMsg tgt zb maxChanMsgSize)
        [h.msubAccConsumed, .integer 250]) fun rs =>
          if rs.getD 0 .nil = .integer 0 then .acked h i (rs.getD 2 .nil)
          else .failed (rs.getD 0 .nil))
  | .failed err => some (.print tgt (.ok (.error err)) .broken)
  | .acked h i msg =>
      match ackCount tgt msg with
      | .error e => some (.go none (.raised (.error e)))
      | .ok (some count) => some (.print tgt (.ok (.receivedAck count)) (.sleep h count))
      | .ok none => some (.go none (.sleep h (.integer i)))
  -- `zephyr.msleep(200)`.
  | .sleep h i => some (.go none (.loop h i))
  | .finished => none
  | .broken => none
  | .raised _ => none

end Script

inductive ConsumerStage where
  | waiting
  | received (msg : Bytes)
  | acknowledging

/-- `consumer_thread`, with the one member of `ack_msg`. -/
structure Consumer where
  stage : ConsumerStage
  count : LuaInteger

/-- The line for a message. A struct that the message does not fill has none. -/
def consumerLine (abi : Abi) (count : LuaInteger) (msg : Bytes) : Option Line :=
  (loadMembers abi msg accDataMembers 0 0).map fun v => .accData count v.1 v.2.1 v.2.2.1

/-- The bytes of `ack_msg`. -/
def ackMsg (abi : Abi) (count : LuaInteger) : Bytes :=
  Patch.putAll (List.replicate ((CType.struct accDataConsumedMembers).sizeof abi) 0)
    (writesMembers abi accDataConsumedMembers 0 0 (count, ()))

/-- Channels and subscribers of `channels.c` and `consumer.c`. -/
structure Wiring where
  chanVersion : Nat
  chanSensorConfig : Nat
  chanAccData : Nat
  chanAccDataConsumed : Nat
  msubConsumer : Nat
  msubAccConsumed : Nat

structure Sample (β : Type) where
  script : Stage
  lua : State Unit
  consumer : Consumer
  bus : β
  shown : List Line

/-- A move of one of the threads. -/
inductive SampleMove (β : Type) where
  | script
  /-- The script's own code finds no memory. -/
  | outOfMemory
  /-- The script's own code leaves its Lua state as `next`. -/
  | luaWork (next : State Unit)
  | consumer
  /-- Other threads leave zbus as `next`. -/
  | others (next : β)

namespace Sample

def call (s : Sample β) (method : LuaM β (List Value)) (next : List Value → Stage) : Sample β :=
  match method (s.lua.on s.bus) with
  | .ok rs t => { s with script := next rs, lua := t.on (), bus := t.bus }
  | .error e t => { s with script := .raised e, lua := t.on (), bus := t.bus }

def stepScript (tgt : Target) (zb : Zbus β) (maxChanMsgSize : Nat) (s : Sample β) : Sample β :=
  match s.script.todo tgt zb maxChanMsgSize with
  | some (.go line next) => { s with script := next, shown := s.shown ++ line.toList }
  | some (.call method next) => s.call method next
  | none => s

def stepConsumer (abi : Abi) (zb : Zbus β) (w : Wiring) (forever : LuaInteger) (s : Sample β) :
    Sample β :=
  match s.consumer.stage with
  | .waiting =>
      match zb.takeMsg forever w.msubConsumer s.bus with
      | some (p, bus) =>
          { s with consumer := ⟨.received p.2, s.consumer.count + 1⟩, bus := bus }
      | none => s
  | .received msg =>
      { s with
        consumer := ⟨.acknowledging, s.consumer.count⟩
        shown := s.shown ++ (consumerLine abi s.consumer.count msg).toList }
  | .acknowledging =>
      { s with
        consumer := ⟨.waiting, s.consumer.count⟩
        bus := (zb.chanPub w.chanAccDataConsumed (ackMsg abi s.consumer.count) 250 s.bus).2 }

/-- A script that has not ended ends without memory. -/
def runOut (s : Sample β) : Sample β :=
  match s.script with
  | .finished | .broken | .raised _ => s
  | _ => { s with script := .raised (.error .memory) }

variable (tgt : Target) {align : Nat → Nat} (hpos : ∀ size, 0 < align size) (zb : Zbus β)
variable (maxChanMsgSize : Nat) (w : Wiring) (forever : LuaInteger)

def step (s : Sample β) : SampleMove β → Unit × Sample β
  | .script => ((), s.stepScript tgt zb maxChanMsgSize)
  | .outOfMemory => ((), s.runOut)
  | .luaWork next => ((), { s with lua := { next with rawLog := s.lua.rawLog } })
  | .consumer => ((), s.stepConsumer (tgt.abi hpos) zb w forever)
  | .others next => ((), { s with bus := next })

end Sample

end LuaZephyr
