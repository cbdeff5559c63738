import LuaZephyr.MsgDescr.Codec

/-!
# The zbus bindings

The Lua methods of channels and observers. The zbus kernel is the parameter
`Zbus`: what the bindings rely on is that a call either fails with a negative
`errno` or moves one whole message of the channel's size. Timeouts are passed on.

The message buffer is a raw block of the Lua heap, outside the reach of the Lua
collector; `rawLog` records when it is obtained and released.
-/

namespace LuaZephyr

open Outcome

/-- `-EINVAL`. -/
def einval : LuaInteger := -22

/-- `-ENOMEM`. -/
def enomem : LuaInteger := -12

/-- The `err` of a call: zero on success. -/
def Errno.result : Option Errno → LuaInteger
  | none => 0
  | some e => e.code

/-- What the bindings read of a `struct zbus_channel`. -/
structure Channel where
  name : Bytes
  msgSize : Nat
  /-- `user_data`, the descriptor if there is one. -/
  userData : Option LuaMsgDescr

/-- The zbus kernel over a state `β`. Channels and observers are known by their
addresses. -/
structure Zbus (β : Type) where
  chan : Nat → Channel
  /-- The registered channels in the order of `zbus_iterate_over_channels`. -/
  channels : List Nat
  chanFromName : Bytes → Option Nat
  obsName : Nat → Bytes
  observers : List Nat
  chanPub : Nat → Bytes → LuaInteger → β → Option Errno × β
  chanRead : Nat → LuaInteger → β → Except Errno Bytes × β
  subWaitMsg : Nat → LuaInteger → β → Except Errno (Nat × Bytes) × β
  /-- A read copies one message of the channel. -/
  chanRead_length : ∀ c timeout b message,
    (chanRead c timeout b).1 = .ok message → message.length = (chan c).msgSize
  /-- A wait copies one message of the channel it reports. -/
  subWaitMsg_length : ∀ obs timeout b c message,
    (subWaitMsg obs timeout b).1 = .ok (c, message) → message.length = (chan c).msgSize

variable {β : Type}

/-- `zbus_iterate_over_channels`: stop at the first callback that returns false. -/
def iterateChannels {σ : Type} (f : Nat → σ → Bool × σ) : List Nat → σ → σ
  | [], x => x
  | chan :: rest, x =>
      match f chan x with
      | (true, x') => iterateChannels f rest x'
      | (false, x') => x'

/-- The callback that keeps the largest message size seen. -/
def findMaxMsgSize (zb : Zbus β) (chan : Nat) (maxChanMsgSize : Nat) : Bool × Nat :=
  let msgSize := (zb.chan chan).msgSize
  if maxChanMsgSize < msgSize then (true, msgSize) else (true, maxChanMsgSize)

/-- The value `lua_zbus_init` leaves in `max_chan_msg_size`. -/
def luaZbusInit (zb : Zbus β) : Nat := iterateChannels (findMaxMsgSize zb) zb.channels 0

/-- A block of the Lua heap, or a null pointer. -/
def luaAllocRaw (size : Nat) : LuaM β (Option Ptr) := do
  match ← runAllocator none 0 size with
  | none => return none
  | some block =>
      modify fun s => { s with rawLog := s.rawLog ++ [.alloc block size] }
      return some ⟨block, 0⟩

def luaFreeRaw (ptr : Ptr) (size : Nat) : LuaM β Unit := do
  let _ ← runAllocator (some ptr.block) size 0
  modify fun s => { s with rawLog := s.rawLog ++ [.free ptr.block size] }

/-- `zbus_chan_pub`: copies the message out of the buffer. -/
def zbusChanPub (zb : Zbus β) (chan : Nat) (msg : Ptr) (timeout : LuaInteger) :
    LuaM β LuaInteger := do
  let message ← loadBytes msg (zb.chan chan).msgSize
  let s ← get
  let r := zb.chanPub chan message timeout s.bus
  set { s with bus := r.2 }
  return Errno.result r.1

/-- `zbus_chan_read`: on success the message is copied into the buffer. -/
def zbusChanRead (zb : Zbus β) (chan : Nat) (msg : Ptr) (timeout : LuaInteger) :
    LuaM β LuaInteger := do
  let s ← get
  let r := zb.chanRead chan timeout s.bus
  set { s with bus := r.2 }
  match r.1 with
  | .ok message =>
      storeBytes msg message
      return 0
  | .error e => return e.code

/-- `zbus_sub_wait_msg`: on success the message and its channel are copied out. -/
def zbusSubWaitMsg (zb : Zbus β) (obs : Nat) (msg : Ptr) (timeout : LuaInteger) :
    LuaM β (Except Errno Nat) := do
  let s ← get
  let r := zb.subWaitMsg obs timeout s.bus
  set { s with bus := r.2 }
  match r.1 with
  | .ok (chan, message) =>
      storeBytes msg message
      return .ok chan
  | .error e => return .error e

def checkZbusChannel (idx : Nat) : LuaM β Nat :=
  luaLCheckudata idx .zbusChannel "zbus.channel.mt expected"

def checkZbusObserver (idx : Nat) : LuaM β Nat :=
  luaLCheckudata idx .zbusObserver "zbus.observer.mt expected"

/-- `luaL_error(L, "expected %d arguments, got %d", …)` unless the frame has
exactly that many. -/
def expectArguments (expected : Nat) : LuaM β Unit := do
  let n ← luaGettop
  if n ≠ expected then luaLError s!"expected {expected} arguments, got {n}"

variable (tgt : Target) (zb : Zbus β)

def msgStructToLuaTable (chan : Nat) (message : Ptr) : LuaM β Unit :=
  match (zb.chan chan).userData with
  | some descr => luaMsgDescrToTable tgt descr.fields message
  | none => luaPushnil

/-- The size to publish, zero without a descriptor. The table is argument 2. -/
def luaTableToMsgStruct (chan : Nat) (message : Ptr) : LuaM β Nat :=
  match (zb.chan chan).userData with
  | some descr => do
      luaMsgDescrFromTable tgt descr.fields message 2
      return descr.msgSize
  | none => return 0

/-- `channel:pub(table, timeout_ms) -> err`. -/
def chanPub : LuaM β Nat := do
  expectArguments 3
  let chan ← checkZbusChannel 1
  luaLChecktypeTable 2
  let timeoutMs ← luaLCheckinteger tgt 3
  let msgSize := (zb.chan chan).msgSize
  match ← luaAllocRaw msgSize with
  | none =>
      luaPushinteger enomem
      return 1
  | some msg =>
      let s ← luaTableToMsgStruct tgt zb chan msg
      let err ← (if s ≠ 0 then zbusChanPub zb chan msg timeoutMs else pure einval)
      luaFreeRaw msg msgSize
      luaPushinteger err
      return 1

/-- `channel:read(timeout_ms) -> err, table`. -/
def chanRead : LuaM β Nat := do
  expectArguments 2
  let chan ← checkZbusChannel 1
  let timeoutMs ← luaLCheckinteger tgt 2
  let msgSize := (zb.chan chan).msgSize
  match ← luaAllocRaw msgSize with
  | none =>
      luaPushinteger enomem
      luaPushnil
      return 2
  | some msg =>
      let err ← zbusChanRead zb chan msg timeoutMs
      luaPushinteger err
      msgStructToLuaTable tgt zb chan msg
      luaFreeRaw msg msgSize
      return 2

/-- The metamethod `__eq`: the same channel. -/
def chanEquals : LuaM β Nat := do
  let chan1 ← checkZbusChannel 1
  let chan2 ← checkZbusChannel 2
  luaPushboolean (chan1 = chan2)
  return 1

/-- The two branches of `wait_msg` on its `err`. -/
def pushReceived (msg : Ptr) : Except Errno Nat → LuaM β Unit
  | .error e => do
      luaPushinteger e.code
      luaPushnil
      luaPushnil
  | .ok chan => do
      luaPushinteger 0
      pushUserdata .zbusChannel chan
      msgStructToLuaTable tgt zb chan msg

/-- `observer:wait_msg(timeout_ms) -> err, channel, table`. The buffer has the size
`lua_zbus_init` computed. -/
def subWaitMsg (maxChanMsgSize : Nat) : LuaM β Nat := do
  let obs ← checkZbusObserver 1
  let timeoutMs ← luaLCheckinteger tgt 2
  match ← luaAllocRaw maxChanMsgSize with
  | none =>
      luaPushinteger enomem
      luaPushnil
      luaPushnil
      return 3
  | some msg =>
      let received ← zbusSubWaitMsg zb obs msg timeoutMs
      pushReceived tgt zb msg received
      luaFreeRaw msg maxChanMsgSize
      return 3

/-- `zbus.channel_declare(name) -> channel`. -/
def zbusChannelDeclare : LuaM β Nat := do
  let name ← luaLCheckstring tgt 1
  -- `zbus_chan_from_name` compares C strings.
  match zb.chanFromName (CString.text name) with
  | none => luaLError ("zbus channel '" ++ latin1 name ++ "' not found")
  | some chan =>
      pushUserdata .zbusChannel chan
      return 1

end LuaZephyr
