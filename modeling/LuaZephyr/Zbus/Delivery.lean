import LuaZephyr.Zbus.Threads
import LuaZephyr.Zbus.Kernel
import LuaZephyr.MsgDescr.Shown

/-!
# What a message subscriber receives

`lua_zbus_init` finds a size that holds a message of every registered channel, and
`observer:wait_msg` shows each message through the descriptor of the channel it came
from. Successive calls therefore return the queued messages in order, each once.

The queue is the kernel's, and what is assumed of it stands in the statements (`Delivers` and
`Queued`). How long a wait takes, and what becomes of a message for which there was no room, is
not modelled.
-/

namespace LuaZephyr

open Outcome Patch Runs

variable {β : Type}

theorem findMaxMsgSize_eq (zb : Zbus β) (chan n : Nat) :
    findMaxMsgSize zb chan n = (true, max n (zb.chan chan).msgSize) := by
  unfold findMaxMsgSize
  dsimp only
  split
  · rename_i hlt
    rw [Nat.max_eq_right (Nat.le_of_lt hlt)]
  · rename_i hge
    rw [Nat.max_eq_left (Nat.le_of_not_lt hge)]

/-- The callback never stops the iteration, which is then a fold. -/
theorem iterateChannels_findMax (zb : Zbus β) (channels : List Nat) (n : Nat) :
    iterateChannels (findMaxMsgSize zb) channels n =
      channels.foldl (fun n c => max n (zb.chan c).msgSize) n := by
  induction channels generalizing n with
  | nil => rfl
  | cons c channels ih =>
      rw [iterateChannels, findMaxMsgSize_eq]
      exact ih _

theorem le_foldl_max (size : Nat → Nat) (channels : List Nat) (n : Nat) :
    n ≤ channels.foldl (fun n c => max n (size c)) n ∧
      ∀ c ∈ channels, size c ≤ channels.foldl (fun n c => max n (size c)) n := by
  induction channels generalizing n with
  | nil => simp
  | cons c channels ih =>
      obtain ⟨hle, hall⟩ := ih (max n (size c))
      rw [List.foldl_cons]
      refine ⟨by omega, fun d hd => ?_⟩
      obtain rfl | hd := List.mem_cons.mp hd
      · omega
      · exact hall d hd

/-- The buffer holds a message of any registered channel. -/
theorem msgSize_le_luaZbusInit (zb : Zbus β) {chan : Nat} (h : chan ∈ zb.channels) :
    (zb.chan chan).msgSize ≤ luaZbusInit zb := by
  rw [luaZbusInit, iterateChannels_findMax]
  exact (le_foldl_max (fun c => (zb.chan c).msgSize) zb.channels 0).2 chan h

/-- The registered channels: their names are distinct C strings, by which zbus finds
them, and their descriptors describe their messages. -/
structure Registered (zb : Zbus β) : Prop where
  cstring : ∀ c ∈ zb.channels, ∀ b ∈ (zb.chan c).name, b ≠ 0
  names : (zb.channels.map fun c => (zb.chan c).name).Nodup
  fromName : ∀ name, zb.chanFromName name = zb.channels.find? fun c => (zb.chan c).name = name
  described : ∀ c ∈ zb.channels, ∀ descr, (zb.chan c).userData = some descr →
    WellFormed descr.fields (zb.chan c).msgSize

theorem Registered.chanFromName_name {zb : Zbus β} (h : Registered zb) {c : Nat}
    (hc : c ∈ zb.channels) : zb.chanFromName (zb.chan c).name = some c := by
  rw [h.fromName]
  cases hfind : zb.channels.find? fun d => (zb.chan d).name = (zb.chan c).name with
  | none => simpa using List.find?_eq_none.mp hfind c hc
  | some d =>
      have hname : (zb.chan d).name = (zb.chan c).name := by simpa using List.find?_some hfind
      rw [List.inj_on_of_nodup_map h.names (List.mem_of_find?_eq_some hfind) hc hname]

/-- `zbus.channel_declare` returns the channel of the name, or raises. -/
theorem zbusChannelDeclare_spec (tgt : Target) (zb : Zbus β) (name : Bytes) (s : State β) :
    wp (callMethod (zbusChannelDeclare tgt zb) [.string name])
      (fun rs _ => ∃ chan, zb.chanFromName (CString.text name) = some chan ∧
        rs = [.userdata .zbusChannel chan])
      (fun e _ => (e = .error .memory ∧ s.apiFails s.apiCalls = true) ∨
        (zb.chanFromName (CString.text name) = none ∧
          e = .error (.runtime ("zbus channel '" ++ latin1 name ++ "' not found")))) s := by
  let entry : State β := { s with stack := [.string name] }
  have harg1 : valueAt entry.stack (1 : Nat) = some (.string name) := rfl
  rw [wp_callMethod]
  change wp (zbusChannelDeclare tgt zb) _ _ entry
  unfold zbusChannelDeclare
  rw [wp_bind, wp_luaLCheckstring harg1 rfl]
  cases hchan : zb.chanFromName (CString.text name) with
  | none => exact .inr ⟨rfl, rfl⟩
  | some chan =>
      unfold pushUserdata
      rw [wp_bind, wp_bind, wp_allocating]
      split
      · rename_i hfail
        exact .inl ⟨rfl, hfail⟩
      · exact ⟨chan, rfl, rfl⟩

/-- `__eq` compares the channels behind the two userdata. -/
theorem chanEquals_spec (c d : Nat) (s : State β) :
    ∃ t, callMethod chanEquals [.userdata .zbusChannel c, .userdata .zbusChannel d] s =
      .ok [.boolean (decide (c = d))] t :=
  ⟨_, rfl⟩

variable (tgt : Target) (zb : Zbus β)

/-- A message in the queue: of a registered channel, of its size, with its strings
terminated. -/
structure Queued (p : Nat × Bytes) : Prop where
  registered : p.1 ∈ zb.channels
  length : p.2.length = (zb.chan p.1).msgSize
  terminated : ∀ descr, (zb.chan p.1).userData = some descr →
    Terminated p.2 (leaves descr.fields 0)

/-- What a call returns for the message `p`: the origin channel, and the table of
exactly that message. -/
def DeliveredAs (p : Nat × Bytes) (r : Result) : Prop :=
  ∃ v, shownMessage tgt zb p.1 p.2 = some v ∧
    r = .ok [.integer 0, .userdata .zbusChannel p.1, v]

/-- Calls of `wait_msg` of one subscriber, among other Lua code of any threads. Each
passes the argument checks, and its allocations succeed. -/
def WaitsOnly (obs : Nat) (sys : System β) : Action → Prop
  | .call i (.waitMsg o timeout _) => o = obs ∧ (tgt.toInteger? timeout).isSome ∧
      (sys.thread i).heap.outcome (sys.thread i).heap.next ≠ none ∧
      ∀ k, (sys.thread i).apiFails k = false
  | .call _ _ => False
  | .script _ _ => True

/-- The number of calls among the actions. -/
def calls : List Action → Nat
  | [] => 0
  | .call _ _ :: actions => calls actions + 1
  | .script _ _ :: actions => calls actions

variable {tgt zb}

theorem Queued.shown (hreg : Registered zb) {p : Nat × Bytes} (h : Queued zb p) :
    ∃ v, shownMessage tgt zb p.1 p.2 = some v := by
  unfold shownMessage
  cases hdescr : (zb.chan p.1).userData with
  | none => exact ⟨.nil, rfl⟩
  | some descr =>
      have hwf := hreg.described p.1 h.registered descr hdescr
      obtain ⟨es, hes⟩ := hwf.shown_isSome tgt (by rw [Nat.zero_add, h.length])
        (h.terminated descr hdescr)
      exact ⟨.table es none, by simp only [hwf.messageTable_eq, hes, Option.map_some]⟩

/-- A call takes the head of the queue and returns it. -/
theorem waitMsg_delivers (hreg : Registered zb) (hpos : ∃ c ∈ zb.channels, 0 < (zb.chan c).msgSize)
    {obs : Nat} {queue : β → List (Nat × Bytes)} (hzb : Delivers zb obs queue) {sys : System β}
    {i : Nat} {timeout : Value} {rest : List Value}
    (hok : WaitsOnly tgt obs sys (.call i (.waitMsg obs timeout rest)))
    {p : Nat × Bytes} {later : List (Nat × Bytes)} (hqueue : queue sys.bus = p :: later)
    (hp : Queued zb p) :
    ∃ r t, sys.step tgt zb (luaZbusInit zb) (.call i (.waitMsg obs timeout rest)) =
        (some r, sys.leave i t) ∧ DeliveredAs tgt zb p r ∧ queue t.bus = later := by
  obtain ⟨-, htimeout, houtcome, hfails⟩ := hok
  obtain ⟨chan, message⟩ := p
  obtain ⟨v, hv⟩ : ∃ v, shownMessage tgt zb chan message = some v := hp.shown hreg
  have hsize : luaZbusInit zb ≠ 0 := by
    obtain ⟨c, hc, hlt⟩ := hpos
    have hle := msgSize_le_luaZbusInit zb hc
    omega
  have hlen : message.length ≤ luaZbusInit zb := by
    rw [show message.length = _ from hp.length]
    exact msgSize_le_luaZbusInit zb hp.registered
  have hgranted : (sys.thread i).heap.freshContents (luaZbusInit zb) ≠ none := by
    rw [SysHeap.freshContents, if_neg hsize]
    simpa using houtcome
  obtain ⟨rs, t, hstep, n, hn, hreturns⟩ | ⟨e, t, hstep, hraises⟩ :=
    sys.step_call tgt zb (luaZbusInit zb) i (.waitMsg obs timeout rest)
  · obtain ⟨hwait, hlater⟩ := hzb.wait n sys.bus chan message later hqueue
    refine ⟨.ok rs, t, hstep, ?_⟩
    have hreturns : WaitReturns tgt zb (luaZbusInit zb) obs n _ rs t := hreturns
    unfold WaitReturns at hreturns
    split at hreturns
    · rename_i hnone
      exact absurd hnone hgranted
    · obtain ⟨-, hbus, hreturns⟩ := hreturns
      change t.bus = (zb.subWaitMsg obs n sys.bus).2 at hbus
      rw [show ((sys.thread i).on sys.bus).bus = sys.bus from rfl, hwait] at hreturns
      obtain ⟨-, -, shown, hshown, rfl⟩ := hreturns
      obtain rfl := Option.some.inj ((shownMessage_put hv).symm.trans hshown)
      exact ⟨⟨v, hv, rfl⟩, by rw [hbus, hlater]⟩
  · exfalso
    obtain ⟨hnone, -⟩ | ⟨n, -, buf, c, m, -, hwait', -, -, hcause⟩ := hraises
    · rw [show Call.timeout _ = timeout from rfl] at hnone
      rw [hnone] at htimeout
      contradiction
    · obtain ⟨hwait, -⟩ := hzb.wait n sys.bus chan message later hqueue
      obtain ⟨rfl, rfl⟩ := Prod.mk.inj (Except.ok.inj (hwait.symm.trans hwait'))
      obtain ⟨-, hfail⟩ | ⟨-, hlong | hnone⟩ := hcause
      · exact hfail fun k _ => hfails _
      · omega
      · exact absurd ((shownMessage_put hv).symm.trans hnone) nofun

/-- As many calls as there are messages, or fewer, return the messages from the head of
the queue, in order, and leave the others. -/
theorem waitMsg_run (hreg : Registered zb) (hpos : ∃ c ∈ zb.channels, 0 < (zb.chan c).msgSize)
    {obs : Nat} {queue : β → List (Nat × Bytes)} (hzb : Delivers zb obs queue) {sys : System β}
    (hqueued : ∀ p ∈ queue sys.bus, Queued zb p) {actions : List Action}
    (hcalls : calls actions ≤ (queue sys.bus).length)
    (hall : AllSteps (System.step tgt zb (luaZbusInit zb)) (WaitsOnly tgt obs) sys actions) :
    List.Forall₂ (DeliveredAs tgt zb) ((queue sys.bus).take (calls actions))
        ((run (System.step tgt zb (luaZbusInit zb)) sys actions).1.filterMap Prod.snd) ∧
      queue (run (System.step tgt zb (luaZbusInit zb)) sys actions).2.bus =
        (queue sys.bus).drop (calls actions) := by
  induction actions generalizing sys with
  | nil => exact ⟨.nil, rfl⟩
  | cons a actions ih =>
      obtain ⟨hok, hrest⟩ := hall
      cases a with
      | script i next =>
          exact @ih (System.step tgt zb (luaZbusInit zb) sys (.script i next)).2 hqueued hcalls
            hrest
      | call i c =>
          cases c with
          | pub chan es mt timeout => exact hok.elim
          | read chan timeout => exact hok.elim
          | waitMsg o timeout rest =>
              obtain rfl := hok.1
              cases hqueue : queue sys.bus with
              | nil =>
                  rw [hqueue] at hcalls
                  simp [calls] at hcalls
              | cons p later =>
                  have hp : Queued zb p := hqueued p (by rw [hqueue]; exact List.mem_cons_self ..)
                  obtain ⟨r, t, hstep, hr, hlater⟩ := waitMsg_delivers hreg hpos hzb hok hqueue hp
                  rw [hstep] at hrest
                  have hbus : queue (sys.leave i t).bus = later := hlater
                  have hqueued' : ∀ q ∈ queue (sys.leave i t).bus, Queued zb q := by
                    rw [hbus]
                    intro q hq
                    exact hqueued q (by rw [hqueue]; exact List.mem_cons_of_mem _ hq)
                  have hcalls' : calls actions ≤ (queue (sys.leave i t).bus).length := by
                    rw [hqueue] at hcalls
                    rw [hbus]
                    simpa [calls] using hcalls
                  obtain ⟨hresults, hfinal⟩ := ih hqueued' hcalls' hrest
                  rw [hbus] at hresults hfinal
                  simp only [run, hstep, calls, List.take_succ_cons, List.drop_succ_cons]
                  exact ⟨.cons hr hresults, hfinal⟩

/-- Subscriber delivery: after startup, calls of `wait_msg` return the queued messages in
order, without loss or duplication, as tables of exactly these messages. No message is
longer than the buffer. The channel of each is the one `zbus.channel_declare` returns for
the name of the origin channel, and `__eq` tells it from every other channel. -/
theorem subscriber_delivery (hreg : Registered zb)
    (hpos : ∃ c ∈ zb.channels, 0 < (zb.chan c).msgSize)
    {obs : Nat} {queue : β → List (Nat × Bytes)} (hzb : Delivers zb obs queue) {sys : System β}
    (hqueued : ∀ p ∈ queue sys.bus, Queued zb p) {actions : List Action}
    (hcalls : calls actions ≤ (queue sys.bus).length)
    (hall : AllSteps (System.step tgt zb (luaZbusInit zb)) (WaitsOnly tgt obs) sys actions) :
    List.Forall₂ (DeliveredAs tgt zb) ((queue sys.bus).take (calls actions))
        ((run (System.step tgt zb (luaZbusInit zb)) sys actions).1.filterMap Prod.snd) ∧
      queue (run (System.step tgt zb (luaZbusInit zb)) sys actions).2.bus =
        (queue sys.bus).drop (calls actions) ∧
      ∀ p ∈ queue sys.bus, p.2.length ≤ luaZbusInit zb ∧
        (∀ s : State β, s.apiFails s.apiCalls = false →
          ∃ t, callMethod (zbusChannelDeclare tgt zb) [.string (zb.chan p.1).name] s =
            .ok [.userdata .zbusChannel p.1] t) ∧
        ∀ (c : Nat) (s : State β), ∃ t,
          callMethod chanEquals [.userdata .zbusChannel p.1, .userdata .zbusChannel c] s =
            .ok [.boolean (decide (p.1 = c))] t := by
  obtain ⟨hresults, hfinal⟩ := waitMsg_run hreg hpos hzb hqueued hcalls hall
  refine ⟨hresults, hfinal, fun p hp => ⟨?_, fun s hok => ?_, chanEquals_spec p.1⟩⟩
  · rw [(hqueued p hp).length]
    exact msgSize_le_luaZbusInit zb (hqueued p hp).registered
  · have hmem := (hqueued p hp).registered
    have hfound : zb.chanFromName (CString.text (zb.chan p.1).name) = some p.1 := by
      rw [CString.text_eq_self (hreg.cstring p.1 hmem), hreg.chanFromName_name hmem]
    obtain ⟨rs, t, hrun, chan, hchan, rfl⟩ | ⟨e, t, -, ⟨-, hfail⟩ | ⟨hnone, -⟩⟩ :=
      wp_iff.mp (zbusChannelDeclare_spec tgt zb (zb.chan p.1).name s)
    · obtain rfl := Option.some.inj (hfound.symm.trans hchan)
      exact ⟨t, hrun⟩
    · exact absurd (hok.symm.trans hfail) nofun
    · exact absurd (hfound.symm.trans hnone) nofun

/-- Two channels of the sample, of different sizes. -/
def twoChannels : Nat → Channel
  | 0 => ⟨ascii "chan_version", 28, some ⟨msgVersionFields, 28⟩⟩
  | _ => ⟨ascii "chan_acc_data", 12, some ⟨msgAccDataFields, 12⟩⟩

/-- A message of each waits for the subscriber. -/
def twoMessages : Bus twoChannels :=
  { Bus.initial twoChannels with
    queue := [⟨1, ⟨List.replicate 12 5, rfl⟩⟩, ⟨0, ⟨List.replicate 28 0, rfl⟩⟩] }

/-- Two threads wait, one after the other. -/
def twoWaits : List Action :=
  [.call 0 (.waitMsg 0 (.integer 100) []), .call 1 (.waitMsg 0 (.integer 100) [])]

/-- Each of them gets its message, the smaller one first. -/
theorem subscriber_delivery_twoMessages :
    List.Forall₂ (DeliveredAs Target.sample (Zbus.ofBus twoChannels [0, 1])) twoMessages.waiting
      ((run (System.step Target.sample (Zbus.ofBus twoChannels [0, 1])
        (luaZbusInit (Zbus.ofBus twoChannels [0, 1]))) (System.atRest 7 twoMessages)
          twoWaits).1.filterMap Prod.snd) := by
  have hreg : Registered (Zbus.ofBus twoChannels [0, 1]) := by
    refine ⟨by decide +kernel, by decide, fun _ => rfl, fun c hc descr hdescr => ?_⟩
    obtain rfl | rfl : c = 0 ∨ c = 1 := by simpa [Zbus.ofBus] using hc
    · obtain rfl := Option.some.inj hdescr
      decide
    · obtain rfl := Option.some.inj hdescr
      decide
  have hqueued : ∀ p ∈ twoMessages.waiting, Queued (Zbus.ofBus twoChannels [0, 1]) p := by
    intro p hp
    obtain rfl | rfl : p = (1, List.replicate 12 5) ∨ p = (0, List.replicate 28 0) := by
      simpa [Bus.waiting, twoMessages] using hp
    · refine ⟨by decide, rfl, fun descr hdescr => ?_⟩
      obtain rfl := Option.some.inj hdescr
      unfold Terminated
      decide
    · refine ⟨by decide, rfl, fun descr hdescr => ?_⟩
      obtain rfl := Option.some.inj hdescr
      unfold Terminated
      decide
  have hall : AllSteps (System.step Target.sample (Zbus.ofBus twoChannels [0, 1])
      (luaZbusInit (Zbus.ofBus twoChannels [0, 1]))) (WaitsOnly Target.sample 0)
      (System.atRest 7 twoMessages) twoWaits := by
    refine ⟨⟨rfl, rfl, fun h => ?_, fun _ => rfl⟩, ⟨rfl, rfl, ?_, ?_⟩, trivial⟩
    · cases h
    · rw [System.step_call_thread _ _ _ (by decide)]
      intro h
      cases h
    · rw [System.step_call_thread _ _ _ (by decide)]
      exact fun _ => rfl
  exact (subscriber_delivery hreg ⟨0, by decide, by decide⟩
    (delivers_ofBus twoChannels [0, 1] 0) hqueued (by decide) hall).1

end LuaZephyr
