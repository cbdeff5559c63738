import LuaZephyr.Zbus.Kernel
import LuaZephyr.Zbus.Threads
import LuaZephyr.MsgDescr.Amid

/-!
# Receiving in two halves

`channel:read` and `observer:wait_msg` first have zbus copy a message into their buffer and
then follow its pointers, with no lock in between. Here each is the copy followed by the
conversion, so that other threads may run between the two and, as the encoder of
`MsgDescr.Amid` lets them, during the second. A call that has nothing to convert ends in the
first half. What zbus does inside a kernel call is not divided: its lock keeps others out.
-/

namespace LuaZephyr

open Outcome Patch

variable {β : Type}

/-- A message to be shown for a channel, and the size of the buffer it was copied into. -/
structure Reception where
  chan : Nat
  msg : Ptr
  size : Nat

/-- One call of a method that receives a message. -/
inductive Receive where
  | read (chan : Nat) (timeout : Value)
  | waitMsg (obs : Nat) (timeout : Value) (rest : List Value)

namespace Receive

def call : Receive → Call
  | .read chan timeout => .read chan timeout
  | .waitMsg obs timeout rest => .waitMsg obs timeout rest

def args : Receive → List Value
  | .read chan timeout => [.userdata .zbusChannel chan, timeout]
  | .waitMsg obs timeout rest => .userdata .zbusObserver obs :: timeout :: rest

/-- How many values the method returns. -/
def results : Receive → Nat
  | .read _ _ => 2
  | .waitMsg _ _ _ => 3

end Receive

/-- The values a method with `n` results returns. -/
def topmost (n : Nat) (s : State β) : List Value := (s.stack.take n).reverse

variable (tgt : Target) (zb : Zbus β) (maxChanMsgSize : Nat)

/-- `channel:read` up to its conversion, if it comes to that. -/
def chanReadCopy : LuaM β (Option Reception) := do
  expectArguments 2
  let chan ← checkZbusChannel 1
  let timeoutMs ← luaLCheckinteger tgt 2
  let msgSize := (zb.chan chan).msgSize
  match ← luaAllocRaw msgSize with
  | none =>
      luaPushinteger enomem
      luaPushnil
      return none
  | some msg =>
      let err ← zbusChanRead zb chan msg timeoutMs
      luaPushinteger err
      return some ⟨chan, msg, msgSize⟩

/-- `observer:wait_msg` up to its conversion, if it comes to that. -/
def subWaitMsgCopy : LuaM β (Option Reception) := do
  let obs ← checkZbusObserver 1
  let timeoutMs ← luaLCheckinteger tgt 2
  match ← luaAllocRaw maxChanMsgSize with
  | none =>
      luaPushinteger enomem
      luaPushnil
      luaPushnil
      return none
  | some msg =>
      match ← zbusSubWaitMsg zb obs msg timeoutMs with
      | .error e => do
          luaPushinteger e.code
          luaPushnil
          luaPushnil
          luaFreeRaw msg maxChanMsgSize
          return none
      | .ok chan => do
          luaPushinteger 0
          pushUserdata .zbusChannel chan
          return some ⟨chan, msg, maxChanMsgSize⟩

def Receive.copy (r : Receive) : LuaM β (Option Reception) := do
  modify fun s => { s with stack := r.args.reverse }
  match r with
  | .read _ _ => chanReadCopy tgt zb
  | .waitMsg _ _ _ => subWaitMsgCopy tgt zb maxChanMsgSize

/-- `msg_struct_to_lua_table` while other threads run. -/
def msgStructToLuaTableAmid (amid : Nat → Target) (chan : Nat) (message : Ptr) : LuaM β Unit :=
  match (zb.chan chan).userData with
  | some descr => luaMsgDescrToTableAmid amid descr.fields message
  | none => luaPushnil

/-- The conversion and the release of the buffer, where there is a message. -/
def convert (amid : Nat → Target) : Option Reception → LuaM β Unit
  | none => return
  | some r => do
      msgStructToLuaTableAmid zb amid r.chan r.msg
      luaFreeRaw r.msg r.size

theorem msgStructToLuaTableAmid_const (chan : Nat) (message : Ptr) :
    (msgStructToLuaTableAmid zb (fun _ => tgt) chan message : LuaM β Unit) =
      msgStructToLuaTable tgt zb chan message := by
  unfold msgStructToLuaTableAmid msgStructToLuaTable
  cases (zb.chan chan).userData with
  | none => rfl
  | some descr => exact luaMsgDescrToTableAmid_const tgt descr.fields message

theorem chanRead_halves : chanRead tgt zb = do
    convert zb (fun _ => tgt) (← chanReadCopy tgt zb)
    return 2 := by
  unfold chanRead chanReadCopy
  simp only [bind_assoc]
  refine bind_congr fun _ => bind_congr fun chan => bind_congr fun timeoutMs =>
    bind_congr fun block => ?_
  cases block with
  | none => simp only [bind_assoc, pure_bind, convert]
  | some msg => simp only [bind_assoc, pure_bind, convert, msgStructToLuaTableAmid_const]

theorem subWaitMsg_halves : subWaitMsg tgt zb maxChanMsgSize = do
    convert zb (fun _ => tgt) (← subWaitMsgCopy tgt zb maxChanMsgSize)
    return 3 := by
  unfold subWaitMsg subWaitMsgCopy
  simp only [bind_assoc]
  refine bind_congr fun obs => bind_congr fun timeoutMs => bind_congr fun block => ?_
  cases block with
  | none => simp only [bind_assoc, pure_bind, convert]
  | some msg =>
      simp only [bind_assoc]
      refine bind_congr fun received => ?_
      cases received with
      | error e => simp only [pushReceived, bind_assoc, pure_bind, convert]
      | ok chan =>
          simp only [pushReceived, bind_assoc, pure_bind, convert, msgStructToLuaTableAmid_const]

/-- A call is its two halves, one right after the other. -/
theorem Receive.run_halves (r : Receive) : r.call.run tgt zb maxChanMsgSize = do
    convert zb (fun _ => tgt) (← r.copy tgt zb maxChanMsgSize)
    return topmost r.results (← get) := by
  cases r with
  | read chan timeout =>
      simp only [Receive.call, Call.run, callMethod, Receive.copy, bind_assoc, pure_bind,
        chanRead_halves, Receive.args, Receive.results, topmost]
  | waitMsg obs timeout rest =>
      simp only [Receive.call, Call.run, callMethod, Receive.copy, bind_assoc, pure_bind,
        subWaitMsg_halves, Receive.args, Receive.results, topmost]

/-- The kernel call of the method: a message with its channel. -/
def Receive.kernel (r : Receive) (timeout : LuaInteger) (b : β) :
    Except Errno (Nat × Bytes) × β :=
  match r with
  | .read chan _ =>
      ((zb.chanRead chan timeout b).1.map fun message => (chan, message),
        (zb.chanRead chan timeout b).2)
  | .waitMsg obs _ _ => zb.subWaitMsg obs timeout b

def Receive.timeout : Receive → Value
  | .read _ timeout => timeout
  | .waitMsg _ timeout _ => timeout

/-- The message zbus copies out in the state `b`. -/
def Receive.message (r : Receive) (b : β) : Option (Nat × Bytes) :=
  (tgt.toInteger? r.timeout).bind fun n => (r.kernel zb n b).1.toOption

/-- The buffer of a reception has the contents `buf`. -/
def Reception.Holds (half : Reception) (buf : Bytes) (s : State β) : Prop :=
  half.msg.offset = 0 ∧ s.heap.blocks half.msg.block = some buf

/-- Zbus is as it was or as the one kernel call leaves it. -/
def Receive.Touches (r : Receive) (b b' : β) : Prop :=
  b' = b ∨ ∃ n, b' = (r.kernel zb n b).2

/-- The first half leaves the message zbus gave it at the beginning of the buffer. -/
def Receive.Copies (r : Receive) (s : State β) (reception : Option Reception) (t : State β) :
    Prop :=
  r.Touches zb s.bus t.bus ∧ ∀ half, reception = some half → ∃ buf, half.Holds buf t ∧
    ∀ p, r.message tgt zb s.bus = some p → half.chan = p.1 ∧ ∃ tail, buf = p.2 ++ tail

variable {tgt zb maxChanMsgSize}

theorem Receive.copy_read {chan : Nat} {timeout : Value} (s : State β) :
    wp (Receive.copy tgt zb maxChanMsgSize (.read chan timeout))
      (Receive.Copies tgt zb (.read chan timeout) s)
      (fun _ t => Receive.Touches zb (.read chan timeout) s.bus t.bus) s := by
  let entry : State β := { s with stack := [timeout, .userdata .zbusChannel chan] }
  have hcount : entry.stack.length = 2 := rfl
  have harg1 : valueAt entry.stack (1 : Nat) = some (.userdata .zbusChannel chan) := rfl
  have harg2 : valueAt entry.stack (2 : Nat) = some timeout := rfl
  change wp (chanReadCopy tgt zb) _ _ entry
  unfold chanReadCopy
  rw [wp_bind, wp_expectArguments hcount, wp_bind, checkZbusChannel, wp_luaLCheckudata harg1,
    wp_bind]
  cases hv : tgt.toInteger? timeout with
  | none =>
      rw [wp_luaLCheckinteger_none harg2 hv]
      exact .inl rfl
  | some n =>
      rw [wp_luaLCheckinteger harg2 hv]
      dsimp only
      rw [wp_bind, wp_luaAllocRaw]
      cases hfresh : s.heap.freshContents (zb.chan chan).msgSize with
      | none =>
          simp only [wp_bind, luaPushinteger, luaPushnil, wp_pushValue, wp_pure]
          exact ⟨.inl rfl, nofun⟩
      | some buf =>
          have hlen := SysHeap.length_freshContents hfresh
          let holding : State β := { entry with
            heap := s.heap.withFresh buf
            rawLog := s.rawLog ++ [.alloc s.heap.next (zb.chan chan).msgSize] }
          have hlive : holding.heap.blocks s.heap.next = some buf :=
            SysHeap.withFresh_blocks_next _ _
          change wp _ _ _ holding
          rw [wp_bind, wp_zbusChanRead hlive hlen, wp_bind, luaPushinteger, wp_pushValue, wp_pure]
          refine ⟨.inr ⟨n, rfl⟩, ?_⟩
          rintro half ⟨⟩
          refine ⟨_, ⟨rfl, SysHeap.withBlock_blocks_self _ _ _⟩, fun p hp => ?_⟩
          rw [Receive.message, Receive.timeout, hv, Option.bind_some, Receive.kernel] at hp
          change _ ∧ ∃ tail, received (zb.chanRead chan n s.bus).1 buf = p.2 ++ tail
          cases hread : (zb.chanRead chan n s.bus).1 with
          | error e =>
              rw [hread] at hp
              contradiction
          | ok message =>
              rw [hread] at hp
              obtain rfl := Option.some.inj hp
              exact ⟨rfl, [], by rw [List.append_nil, received]⟩

theorem Receive.copy_waitMsg {obs : Nat} {timeout : Value} {rest : List Value} (s : State β) :
    wp (Receive.copy tgt zb maxChanMsgSize (.waitMsg obs timeout rest))
      (Receive.Copies tgt zb (.waitMsg obs timeout rest) s)
      (fun _ t => Receive.Touches zb (.waitMsg obs timeout rest) s.bus t.bus) s := by
  let entry : State β := { s with
    stack := (.userdata .zbusObserver obs :: timeout :: rest).reverse }
  have harg1 : valueAt entry.stack (1 : Nat) = some (.userdata .zbusObserver obs) :=
    valueAt_args rfl
  have harg2 : valueAt entry.stack (2 : Nat) = some timeout := valueAt_args rfl
  change wp (subWaitMsgCopy tgt zb maxChanMsgSize) _ _ entry
  unfold subWaitMsgCopy
  rw [wp_bind, checkZbusObserver, wp_luaLCheckudata harg1, wp_bind]
  cases hv : tgt.toInteger? timeout with
  | none =>
      rw [wp_luaLCheckinteger_none harg2 hv]
      exact .inl rfl
  | some n =>
      rw [wp_luaLCheckinteger harg2 hv, wp_bind, wp_luaAllocRaw]
      cases hfresh : s.heap.freshContents maxChanMsgSize with
      | none =>
          simp only [wp_bind, luaPushinteger, luaPushnil, wp_pushValue, wp_pure]
          exact ⟨.inl rfl, nofun⟩
      | some buf =>
          let holding : State β := { entry with
            heap := s.heap.withFresh buf
            rawLog := s.rawLog ++ [.alloc s.heap.next maxChanMsgSize] }
          have hlive : holding.heap.blocks s.heap.next = some buf :=
            SysHeap.withFresh_blocks_next _ _
          change wp _ _ _ holding
          rw [wp_bind, wp_zbusSubWaitMsg hlive]
          cases hr : (zb.subWaitMsg obs n s.bus).1 with
          | error e =>
              simp only [wp_bind, luaPushinteger, luaPushnil, wp_pushValue]
              exact (wp_luaFreeRaw (by exact hlive)).mpr ⟨.inr ⟨n, rfl⟩, nofun⟩
          | ok received =>
              obtain ⟨chan, message⟩ := received
              change if message.length ≤ buf.length then _ else _
              split
              · simp only [wp_bind, luaPushinteger, wp_pushValue, pushUserdata]
                rw [wp_allocating]
                split
                · exact .inr ⟨n, rfl⟩
                · refine ⟨.inr ⟨n, rfl⟩, ?_⟩
                  rintro half ⟨⟩
                  refine ⟨_, ⟨rfl, SysHeap.withBlock_blocks_self _ _ _⟩, fun p hp => ?_⟩
                  rw [Receive.message, Receive.timeout, hv, Option.bind_some, Receive.kernel,
                    hr] at hp
                  obtain rfl := Option.some.inj hp
                  exact ⟨rfl, buf.drop message.length, put_zero ..⟩
              · exact .inr ⟨n, rfl⟩

variable (tgt zb maxChanMsgSize) in
theorem Receive.copy_spec (r : Receive) (s : State β) :
    wp (r.copy tgt zb maxChanMsgSize) (r.Copies tgt zb s)
      (fun _ t => r.Touches zb s.bus t.bus) s := by
  cases r with
  | read chan timeout => exact Receive.copy_read s
  | waitMsg obs timeout rest => exact Receive.copy_waitMsg s

variable (zb) in
/-- The second half pushes a table of the buffer, each field as it was at some moment. -/
theorem convert_spec (amid : Nat → Target) {half : Reception} {buf : Bytes} {s : State β}
    (hholds : half.Holds buf s) :
    wp (convert zb amid (some half))
      (fun _ t => t.bus = s.bus ∧ ∀ descr, (zb.chan half.chan).userData = some descr →
        ∃ es, EntriesAmid amid buf descr.fields 0 [] es ∧ t.stack = .table es none :: s.stack)
      (fun _ t => t.bus = s.bus) s := by
  obtain ⟨chan, ⟨block, offset⟩, size⟩ := half
  obtain ⟨hoffset, hblock⟩ := hholds
  obtain rfl : offset = 0 := hoffset
  rw [convert, wp_bind, msgStructToLuaTableAmid]
  cases hdescr : (zb.chan chan).userData with
  | none =>
      dsimp only
      rw [luaPushnil, wp_pushValue, wp_luaFreeRaw (by exact hblock)]
      refine ⟨rfl, fun descr hsome => ?_⟩
      contradiction
  | some descr =>
      refine (luaMsgDescrToTableAmid_pushes descr.fields 0 s hblock).mono ?_ fun _ _ h => h.bus
      rintro _ t ⟨hst, _, ⟨es, hes, rfl⟩, hstack⟩
      rw [wp_luaFreeRaw (by rw [hst.heap]; exact hblock)]
      refine ⟨hst.bus, ?_⟩
      rintro _ ⟨⟩
      exact ⟨es, hes, hstack⟩

end LuaZephyr
