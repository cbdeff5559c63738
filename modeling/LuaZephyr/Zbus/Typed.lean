import LuaZephyr.Zbus.PubRead
import LuaZephyr.MsgDescr.StructValues

/-!
# A channel as a variable of its struct type

A channel defined with `LUA_ZBUS_MSG_DESCR` carries values of its struct between threads in
C, which see structs, and threads in Lua, which see tables. In every run, a read gives the
value stored last, in the form its reader sees, and a wait gives a value that was assigned.
A publish that reports an error may have stored its value; the results count it when it did.
Structs have the member types of `CStruct`: integers, floats, `bool`, `char` arrays and
structs of these, but no pointers.
-/

namespace LuaZephyr

open CStruct Outcome Patch Runs

variable {β : Type}

/-- A step of a Lua thread, or a call of a thread in C. -/
inductive Turn where
  | lua (a : Action)
  | pub (chan : Nat) (message : Bytes) (timeout : LuaInteger)
  | read (chan : Nat) (timeout : LuaInteger)
  | wait (obs : Nat) (timeout : LuaInteger)

inductive Reply where
  | lua (r : Option Result)
  | pub (r : Option Errno)
  | read (r : Except Errno Bytes)
  | wait (r : Except Errno (Nat × Bytes))

section Steps

variable (tgt : Target) (zb : Zbus β) (maxChanMsgSize : Nat)

def System.turn (sys : System β) : Turn → Reply × System β
  | .lua a =>
      (.lua (sys.step tgt zb maxChanMsgSize a).1, (sys.step tgt zb maxChanMsgSize a).2)
  | .pub chan message timeout =>
      let r := zb.chanPub chan message timeout sys.bus
      (.pub r.1, { sys with bus := r.2 })
  | .read chan timeout =>
      let r := zb.chanRead chan timeout sys.bus
      (.read r.1, { sys with bus := r.2 })
  | .wait obs timeout =>
      let r := zb.subWaitMsg obs timeout sys.bus
      (.wait r.1, { sys with bus := r.2 })

end Steps

/-- The turn publishes on the channel, whatever comes of it. -/
def Turn.publishesOn (chan : Nat) : Turn → Prop
  | .lua (.call _ (.pub c _ _ _)) => c = chan
  | .pub c _ _ => c = chan
  | _ => False

/-- The turn reports a successful publish on the channel. -/
def publishes (chan : Nat) : Turn × Reply → Bool
  | (.lua a, .lua r) => (published chan (a, r)).isSome
  | (.pub c _ _, .pub none) => c = chan
  | _ => false

/-- A turn together with whether it stored a message in the channel, as `count` tells. -/
def System.storingTurn (tgt : Target) (zb : Zbus β) (maxChanMsgSize : Nat) (count : β → Nat) :
    System β → Turn → (Reply × Bool) × System β :=
  watching (System.turn tgt zb maxChanMsgSize) fun sys sys' => count sys'.bus ≠ count sys.bus

/-- The most recent turn that stored a message. -/
def lastStore (history : List (Turn × Reply × Bool)) : Option Turn :=
  latest (fun x => if x.2.2 then some x.1 else none) history

section Typed

variable (tgt : Target) {align : Nat → Nat} (hpos : ∀ size, 0 < align size) (members : Members)

/-- The turn published the value: a thread in C a struct that holds it, a thread in Lua a
table that gives each member of it. -/
def Assigns (v : Vals members) : Turn → Prop
  | .lua (.call _ (.pub _ entries metatable _)) =>
      GivesMembers tgt members (.table entries metatable) v
  | .pub _ message _ => HoldsMembers (tgt.abi hpos) message members 0 0 v
  | _ => False

/-- A read of the channel gets the value, as `shown` in Lua and in a struct in C. -/
structure HandsOut (chan : Nat) (v : Vals members) (x : Turn × Reply) : Prop where
  lua : ∀ i timeout w,
    x = (.lua (.call i (.read chan timeout)), .lua (some (.ok [.integer 0, w]))) →
      w = shown tgt (.struct members) v
  c : ∀ timeout message, x = (.read chan timeout, .read (.ok message)) →
    HoldsMembers (tgt.abi hpos) message members 0 0 v

/-- The channel of a struct. -/
structure TypedChannel (zb : Zbus β) (chan : Nat) : Prop where
  descr : (zb.chan chan).userData = some (luaZbusMsgDescr (tgt.abi hpos) members)
  size : (zb.chan chan).msgSize = (CType.struct members).sizeof (tgt.abi hpos)
  named : MembersNamed members
  fits : MembersFit (tgt.abi hpos) members 0

end Typed

section Values

variable {tgt : Target} {align : Nat → Nat} {hpos : ∀ size, 0 < align size} {members : Members}
variable {zb : Zbus β} {maxChanMsgSize chan : Nat} {count : β → Nat} {stored : β → Bytes}

/-- The message made of a table that gives a value holds the value. -/
theorem TypedChannel.holds_of_gives (hzb : TypedChannel tgt hpos members zb chan) {t : Value}
    {v : Vals members} {buf : Bytes} {ws : List (Write UInt8)}
    (hlen : buf.length = (zb.chan chan).msgSize) (hgives : GivesMembers tgt members t v)
    (hws : tableWrites tgt (structFields (tgt.abi hpos) members 0) t 0 = .ok ws) :
    HoldsMembers (tgt.abi hpos) (putAll buf ws) members 0 0 v := by
  have hend := endof_le_sizeof (tgt.abi hpos) members
  have hsize := hzb.size
  rw [tableWrites_struct members hzb.fits hgives] at hws
  obtain rfl := Except.ok.inj hws
  exact holdsMembers_putAll members v (by omega)

/-- A message that holds a value is shown as the value. -/
theorem TypedChannel.shownMessage_eq (hzb : TypedChannel tgt hpos members zb chan)
    {v : Vals members} {message : Bytes} (h : HoldsMembers (tgt.abi hpos) message members 0 0 v) :
    shownMessage tgt zb chan message = some (shown tgt (.struct members) v) := by
  have hfresh : ∀ key, some key ∈ members.map Prod.fst → key ∉ ([] : Entries).map Prod.fst :=
    fun _ _ => List.not_mem_nil
  have hentries := entriesOf_struct members hfresh hzb.named hzb.fits h
  unfold shownMessage
  rw [hzb.descr]
  exact congrArg (Option.map _) hentries

variable (maxChanMsgSize) in
/-- A turn leaves the message of the channel alone, and then reports no success, or it stores
one: its own, which holds the value it assigns. -/
theorem System.turn_stored (hcopies : CopiesWhole zb chan count stored)
    (hzb : TypedChannel tgt hpos members zb chan) (sys : System β) (turn : Turn) :
    (publishes chan (turn, (sys.turn tgt zb maxChanMsgSize turn).1) = false ∧
      count (sys.turn tgt zb maxChanMsgSize turn).2.bus = count sys.bus ∧
      stored (sys.turn tgt zb maxChanMsgSize turn).2.bus = stored sys.bus) ∨
    (turn.publishesOn chan ∧
      count (sys.turn tgt zb maxChanMsgSize turn).2.bus = count sys.bus + 1 ∧
      ∀ v, Assigns tgt hpos members v turn → HoldsMembers (tgt.abi hpos)
        (stored (sys.turn tgt zb maxChanMsgSize turn).2.bus) members 0 0 v) := by
  cases turn with
  | lua a =>
      obtain ⟨hnone, hcount, heq⟩ | ⟨i, es, mt, timeout, buf, ws, rfl, hcount, hlen, hws, heq⟩ :=
        System.step_stored tgt maxChanMsgSize hcopies hzb.descr sys a
      · exact .inl ⟨congrArg Option.isSome hnone, hcount, heq⟩
      · refine .inr ⟨rfl, hcount, fun v hv => ?_⟩
        change HoldsMembers _ (stored (sys.step tgt zb maxChanMsgSize _).2.bus) _ _ _ _
        rw [heq]
        exact hzb.holds_of_gives hlen hv hws
  | pub c message timeout =>
      by_cases hc : c = chan
      · subst hc
        obtain ⟨hcount, hstored⟩ | ⟨hr, hcount, hstored⟩ := hcopies.pub message timeout sys.bus
        · refine .inr ⟨rfl, hcount, fun v hv => ?_⟩
          change HoldsMembers _ (stored (zb.chanPub c message timeout sys.bus).2) _ _ _ _
          rw [hstored]
          exact hv
        · refine .inl ⟨?_, hcount, hstored⟩
          obtain ⟨e, he⟩ := Option.ne_none_iff_exists'.mp hr
          change publishes c (.pub c message timeout,
            .pub (zb.chanPub c message timeout sys.bus).1) = false
          rw [he]
          rfl
      · obtain ⟨hcount, hstored⟩ := hcopies.pub_other c message timeout sys.bus hc
        refine .inl ⟨?_, hcount, hstored⟩
        change publishes chan (.pub c message timeout,
          .pub (zb.chanPub c message timeout sys.bus).1) = false
        cases (zb.chanPub c message timeout sys.bus).1 with
        | none => exact decide_eq_false hc
        | some e => rfl
  | read c timeout => exact .inl ⟨rfl, hcopies.read_keeps c timeout sys.bus⟩
  | wait obs timeout => exact .inl ⟨rfl, hcopies.wait_keeps obs timeout sys.bus⟩

variable (tgt hpos members chan stored) in
/-- The channel holds the value of the turn that stored last, and every publish that reports
success stored. -/
structure HoldsAssigned (history : List (Turn × Reply × Bool)) (sys : System β) : Prop where
  value : ∀ turn v, lastStore history = some turn → Assigns tgt hpos members v turn →
    HoldsMembers (tgt.abi hpos) (stored sys.bus) members 0 0 v
  success : ∀ x ∈ history, publishes chan (x.1, x.2.1) = true → x.2.2 = true

theorem HoldsAssigned.turn (hcopies : CopiesWhole zb chan count stored)
    (hzb : TypedChannel tgt hpos members zb chan) {history : List (Turn × Reply × Bool)}
    {sys : System β} (turn : Turn) (h : HoldsAssigned tgt hpos members chan stored history sys) :
    HoldsAssigned tgt hpos members chan stored
      (history ++ [(turn, (sys.storingTurn tgt zb maxChanMsgSize count turn).1)])
      (sys.storingTurn tgt zb maxChanMsgSize count turn).2 := by
  have hlast (b : Bool)
      (hb : (sys.storingTurn tgt zb maxChanMsgSize count turn).1.2 = b) :
      lastStore (history ++ [(turn, (sys.storingTurn tgt zb maxChanMsgSize count turn).1)]) =
        (if b then some turn else none).or (lastStore history) := by
    rw [lastStore, latest_concat, hb]
    rfl
  obtain ⟨hreply, hcount, heq⟩ | ⟨-, hcount, hholds⟩ :=
    System.turn_stored maxChanMsgSize hcopies hzb sys turn
  · have hnot : (sys.storingTurn tgt zb maxChanMsgSize count turn).1.2 = false :=
      decide_eq_false (not_not.mpr hcount)
    refine ⟨fun turn' v hturn hv => ?_, fun x hx hsuccess => ?_⟩
    · rw [hlast false hnot, if_neg Bool.false_ne_true, Option.none_or] at hturn
      change HoldsMembers _ (stored (sys.turn tgt zb maxChanMsgSize turn).2.bus) _ _ _ _
      rw [heq]
      exact h.value turn' v hturn hv
    · obtain hx | hx := List.mem_append.mp hx
      · exact h.success x hx hsuccess
      · rw [List.mem_singleton.mp hx] at hsuccess
        exact absurd (hreply.symm.trans hsuccess) Bool.false_ne_true
  · have hdid : (sys.storingTurn tgt zb maxChanMsgSize count turn).1.2 = true :=
      decide_eq_true fun hsame => Nat.succ_ne_self _ (hcount.symm.trans hsame)
    refine ⟨fun turn' v hturn hv => ?_, fun x hx hsuccess => ?_⟩
    · rw [hlast true hdid, if_pos rfl, Option.some_or] at hturn
      obtain rfl := Option.some.inj hturn
      exact hholds v hv
    · obtain hx | hx := List.mem_append.mp hx
      · exact h.success x hx hsuccess
      · rw [List.mem_singleton.mp hx]
        exact hdid

/-- A turn hands out only the value that the channel holds. -/
theorem System.turn_handsOut (hcopies : CopiesWhole zb chan count stored)
    (hzb : TypedChannel tgt hpos members zb chan) {sys : System β} {v : Vals members}
    (h : HoldsMembers (tgt.abi hpos) (stored sys.bus) members 0 0 v) (turn : Turn) :
    HandsOut tgt hpos members chan v (turn, (sys.turn tgt zb maxChanMsgSize turn).1) := by
  constructor
  · intro i timeout w heq
    obtain ⟨rfl, hreply⟩ := Prod.mk.inj heq
    obtain ⟨n, message, -, hread, hshown⟩ :=
      sys.step_read_ok tgt zb maxChanMsgSize _ (Reply.lua.inj hreply)
    rw [hcopies.read_ok _ _ _ hread, hzb.shownMessage_eq h] at hshown
    exact (Option.some.inj hshown).symm
  · intro timeout message heq
    obtain ⟨rfl, hreply⟩ := Prod.mk.inj heq
    rw [hcopies.read_ok _ _ _ (Reply.read.inj hreply)]
    exact h

/-- A thread in C publishes the configuration, presence flag and padding included. -/
def publishConfigStruct : List Turn := [.pub 0 sensorConfigMessage 200]

theorem typedChannel_sensorConfig : TypedChannel Target.sample wordAlign_pos sensorConfigMembers
    (Zbus.ofBus chanSensorConfig [0]) 0 where
  descr := rfl
  size := rfl
  named := ⟨by decide, trivial, ⟨by decide, ⟨by decide, trivial, by decide, trivial, by decide,
    trivial, trivial⟩, trivial⟩⟩
  fits := fits_sensorConfig

theorem holds_sensorConfig : HoldsMembers (Target.sample.abi wordAlign_pos) sensorConfigMessage
    sensorConfigMembers 0 0 sensorConfigVal :=
  ⟨⟨by decide, rfl⟩, ⟨⟨by decide, rfl⟩, ⟨by decide, rfl⟩, ⟨by decide, rfl⟩, trivial⟩, trivial⟩

variable {held : β → Nat × Bytes → Prop}

/-- A turn brings no message of the channel but the one it publishes. -/
theorem System.turn_held (hconveys : Conveys zb held) (hzb : TypedChannel tgt hpos members zb chan)
    (sys : System β) (turn : Turn) {m : Bytes}
    (h : held (sys.turn tgt zb maxChanMsgSize turn).2.bus (chan, m)) :
    held sys.bus (chan, m) ∨ (turn.publishesOn chan ∧ ∀ v, Assigns tgt hpos members v turn →
      HoldsMembers (tgt.abi hpos) m members 0 0 v) := by
  cases turn with
  | read c timeout => exact .inl (hconveys.read _ _ _ _ h)
  | wait obs timeout => exact .inl (hconveys.wait _ _ _ _ h)
  | pub c message timeout =>
      refine (hconveys.pub _ _ _ _ _ h).imp_right fun heq => ?_
      obtain ⟨rfl, rfl⟩ := Prod.mk.inj heq
      exact ⟨rfl, fun _ hv => hv⟩
  | lua a =>
      change held (sys.step tgt zb maxChanMsgSize a).2.bus (chan, m) at h
      cases a with
      | script i next => exact .inl h
      | call i call =>
          cases call with
          | read c timeout =>
              obtain hbus | ⟨n, hbus⟩ := sys.step_read_bus tgt zb maxChanMsgSize i c timeout
              · exact .inl (hbus ▸ h)
              · exact .inl (hconveys.read _ _ _ _ (hbus ▸ h))
          | waitMsg obs timeout rest =>
              obtain hbus | ⟨n, hbus⟩ :=
                sys.step_waitMsg_bus tgt zb maxChanMsgSize i obs timeout rest
              · exact .inl (hbus ▸ h)
              · exact .inl (hconveys.wait _ _ _ _ (hbus ▸ h))
          | pub c es mt timeout =>
              obtain ⟨hbus, -⟩ | ⟨descr, n, buf, ws, hdescr, hlen, hws, hbus, -⟩ :=
                sys.step_pub tgt zb maxChanMsgSize i c es mt timeout
              · exact .inl (hbus ▸ h)
              · rw [hbus] at h
                refine (hconveys.pub _ _ _ _ _ h).imp_right fun heq => ?_
                obtain ⟨rfl, rfl⟩ := Prod.mk.inj heq
                obtain rfl := Option.some.inj (hzb.descr.symm.trans hdescr)
                exact ⟨rfl, fun v hv => hzb.holds_of_gives hlen hv hws⟩

variable (tgt hpos members chan) in
/-- The values on the channel's way: those at the start and those a turn published. -/
def Assigned (start : Vals members → Prop) (history : List (Turn × Reply)) (v : Vals members) :
    Prop :=
  start v ∨ ∃ x ∈ history, x.1.publishesOn chan ∧ Assigns tgt hpos members v x.1

variable (tgt hpos members chan held) in
/-- Every message of the channel holds one of them. -/
def HoldsTyped (start : Vals members → Prop) (history : List (Turn × Reply)) (sys : System β) :
    Prop :=
  ∀ m, held sys.bus (chan, m) → ∃ v, Assigned tgt hpos members chan start history v ∧
    HoldsMembers (tgt.abi hpos) m members 0 0 v

variable (tgt hpos members chan) in
/-- What is published on the channel is a value of the struct. -/
def PublishesTyped (turn : Turn) : Prop :=
  turn.publishesOn chan → ∃ v, Assigns tgt hpos members v turn

variable {start : Vals members → Prop}

theorem Assigned.concat {history : List (Turn × Reply)} {v : Vals members}
    (h : Assigned tgt hpos members chan start history v) (x : Turn × Reply) :
    Assigned tgt hpos members chan start (history ++ [x]) v :=
  h.imp_right fun ⟨y, hy, hassigns⟩ => ⟨y, List.mem_append_left _ hy, hassigns⟩

theorem HoldsTyped.turn (hconveys : Conveys zb held) (hzb : TypedChannel tgt hpos members zb chan)
    {history : List (Turn × Reply)} {sys : System β} {turn : Turn}
    (h : HoldsTyped tgt hpos members chan held start history sys)
    (hturn : PublishesTyped tgt hpos members chan turn) :
    HoldsTyped tgt hpos members chan held start
      (history ++ [(turn, (sys.turn tgt zb maxChanMsgSize turn).1)])
      (sys.turn tgt zb maxChanMsgSize turn).2 := by
  intro m hm
  obtain hold | ⟨hpub, hholds⟩ := System.turn_held hconveys hzb sys turn hm
  · obtain ⟨v, hv, hmessage⟩ := h m hold
    exact ⟨v, hv.concat _, hmessage⟩
  · obtain ⟨v, hv⟩ := hturn hpub
    exact ⟨v, .inr ⟨_, List.mem_append_right _ List.mem_cons_self, hpub, hv⟩, hholds v hv⟩

variable (tgt hpos members chan) in
/-- A wait that gets a message of the channel gets a value of `known`. -/
structure Receives (known : Vals members → Prop) (x : Turn × Reply) : Prop where
  lua : ∀ i obs timeout rest mt w, x = (.lua (.call i (.waitMsg obs timeout rest)),
    .lua (some (.ok [.integer 0, .userdata mt chan, w]))) →
      ∃ v, known v ∧ w = shown tgt (.struct members) v
  c : ∀ obs timeout message, x = (.wait obs timeout, .wait (.ok (chan, message))) →
    ∃ v, known v ∧ HoldsMembers (tgt.abi hpos) message members 0 0 v

theorem HoldsTyped.receives (hconveys : Conveys zb held)
    (hzb : TypedChannel tgt hpos members zb chan) {history : List (Turn × Reply)} {sys : System β}
    (h : HoldsTyped tgt hpos members chan held start history sys) (turn : Turn) :
    Receives tgt hpos members chan (Assigned tgt hpos members chan start history)
      (turn, (sys.turn tgt zb maxChanMsgSize turn).1) := by
  constructor
  · intro i obs timeout rest mt w heq
    obtain ⟨rfl, hreply⟩ := Prod.mk.inj heq
    obtain ⟨n, c, message, buf, -, hwait, hchan, hshown⟩ :=
      sys.step_waitMsg_ok tgt zb maxChanMsgSize i (Reply.lua.inj hreply)
    obtain ⟨-, rfl⟩ := Value.userdata.inj hchan
    obtain ⟨v, hv, hmessage⟩ := h message (hconveys.wait_ok _ _ _ _ hwait)
    have hbuffer : shownMessage tgt zb chan (put buf ⟨0, message⟩) =
        some (shown tgt (.struct members) v) := shownMessage_put (hzb.shownMessage_eq hmessage)
    rw [hbuffer] at hshown
    exact ⟨v, hv, (Option.some.inj hshown).symm⟩
  · intro obs timeout message heq
    obtain ⟨rfl, hreply⟩ := Prod.mk.inj heq
    exact h message (hconveys.wait_ok _ _ _ _ (Reply.wait.inj hreply))

/-- In every run whose threads publish values of the struct, a message received from the
channel is one of these values or was on its way at the start: no thread sees a value that
nobody published, whatever is behind the message in the buffer. A publish that reports an
error may have put its value on the way. -/
theorem typedChannel_received (hconveys : Conveys zb held)
    (hzb : TypedChannel tgt hpos members zb chan) {sys : System β} {turns : List Turn}
    (hstart : HoldsTyped tgt hpos members chan held start [] sys)
    (hall : AllSteps (System.turn tgt zb maxChanMsgSize)
      (fun _ turn => PublishesTyped tgt hpos members chan turn) sys turns) (turn : Turn) :
    Receives tgt hpos members chan (Assigned tgt hpos members chan start
        (run (System.turn tgt zb maxChanMsgSize) sys turns).1)
      (turn, ((run (System.turn tgt zb maxChanMsgSize) sys turns).2.turn tgt zb maxChanMsgSize
        turn).1) :=
  (run_invariant (fun _ _ _ h hturn => h.turn hconveys hzb hturn) hstart hall).receives
    hconveys hzb turn

/-- The channel of the configuration is zero at the start. -/
theorem holdsTyped_initial :
    HoldsTyped Target.sample wordAlign_pos sensorConfigMembers 0 Bus.Held
      (· = ((0#32, (0#32, 0#32, 0#32, ()), ()) : Vals sensorConfigMembers)) []
      (System.atRest 7 (Bus.initial chanSensorConfig)) := by
  rintro m (hm | hm)
  · obtain rfl : m = List.replicate 20 0 := hm
    refine ⟨_, .inl rfl, ?_⟩
    exact ⟨⟨by decide, rfl⟩, ⟨⟨by decide, rfl⟩, ⟨by decide, rfl⟩, ⟨by decide, rfl⟩, trivial⟩,
      trivial⟩
  · exact absurd hm List.not_mem_nil

/-- What a subscriber in Lua gets is the configuration, or the zeros. -/
theorem typedChannel_received_sensorConfig :
    Receives Target.sample wordAlign_pos sensorConfigMembers 0
      (Assigned Target.sample wordAlign_pos sensorConfigMembers 0
        (· = ((0#32, (0#32, 0#32, 0#32, ()), ()) : Vals sensorConfigMembers))
        (run (System.turn Target.sample (Zbus.ofBus chanSensorConfig [0]) 20)
          (System.atRest 7 (Bus.initial chanSensorConfig)) publishConfigStruct).1)
      (.lua (.call 1 (.waitMsg 0 (.integer 200) [])),
        ((run (System.turn Target.sample (Zbus.ofBus chanSensorConfig [0]) 20)
          (System.atRest 7 (Bus.initial chanSensorConfig)) publishConfigStruct).2.turn
            Target.sample (Zbus.ofBus chanSensorConfig [0]) 20
            (.lua (.call 1 (.waitMsg 0 (.integer 200) [])))).1) := by
  have hall : AllSteps (System.turn Target.sample (Zbus.ofBus chanSensorConfig [0]) 20)
      (fun _ turn => PublishesTyped Target.sample wordAlign_pos sensorConfigMembers 0 turn)
      (System.atRest 7 (Bus.initial chanSensorConfig)) publishConfigStruct :=
    ⟨fun _ => ⟨sensorConfigVal, holds_sensorConfig⟩, trivial⟩
  exact typedChannel_received (conveys_ofBus chanSensorConfig [0]) typedChannel_sensorConfig
    holdsTyped_initial hall _

end Values

end LuaZephyr
