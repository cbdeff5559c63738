import LuaZephyr.Zbus.Threads
import LuaZephyr.Zbus.Kernel
import LuaZephyr.MsgDescr.Normal

/-!
# Publishing and reading in any run

A read that succeeds returns the normal form of the table whose message was stored last,
whichever threads publish and read. Every publish that succeeds stores its message; one
that reports an error may have done so too, before zbus notified the observers, and is then
what is read. The invariant ties the message in the channel to the history of the run, in
which each step stands with its result and with whether it stored a message. Calls of C
code on the channel are not among the steps here.
-/

namespace LuaZephyr

open Outcome Patch Runs

variable {β : Type} (tgt : Target) (zb : Zbus β) (maxChanMsgSize chan : Nat)

/-- The table a step published on the channel, if it did so successfully. -/
def published : Action × Option Result → Option Value
  | (.call _ (.pub c entries metatable _), some (.ok [.integer err])) =>
      if c = chan ∧ err = 0 then some (.table entries metatable) else none
  | _ => none

/-- A step together with whether it stored a message in the channel, as `count` tells. -/
def System.storing (count : β → Nat) : System β → Action → (Option Result × Bool) × System β :=
  watching (System.step tgt zb maxChanMsgSize) fun sys sys' => count sys'.bus ≠ count sys.bus

theorem System.storing_fst (count : β → Nat) (sys : System β) (a : Action) :
    (sys.storing tgt zb maxChanMsgSize count a).1 =
      ((sys.step tgt zb maxChanMsgSize a).1,
        decide (count (sys.step tgt zb maxChanMsgSize a).2.bus ≠ count sys.bus)) := rfl

/-- The table whose message a step stored in the channel. -/
def storedTable : Action × Option Result × Bool → Option Value
  | (.call _ (.pub c entries metatable _), _, true) =>
      if c = chan then some (.table entries metatable) else none
  | _ => none

/-- The table of the most recent `channel:pub` that stored its message. -/
def lastStored (history : List (Action × Option Result × Bool)) : Option Value :=
  latest (storedTable chan) history

/-- The table of the most recent `channel:pub` that reported success. -/
def lastPublished (history : List (Action × Option Result × Bool)) : Option Value :=
  latest (fun x => published chan (x.1, x.2.1)) history

/-- Some thread's `channel:read` now returns `err = 0` and the value `v`. -/
def ReadGives (sys : System β) (v : Value) : Prop :=
  ∃ thread timeout, (sys.step tgt zb maxChanMsgSize (.call thread (.read chan timeout))).1 =
    some (.ok [.integer 0, v])

/-- The channel holds the message of the table stored last, and each table published
successfully was stored. -/
structure HoldsLast (fields : List LuaMsgFieldDescr) (stored : β → Bytes)
    (history : List (Action × Option Result × Bool)) (sys : System β) : Prop where
  table : ∀ t, lastStored chan history = some t → Conforms tgt fields t →
    messageTable tgt fields (stored sys.bus) 0 = some (normTable tgt fields t)
  success : ∀ x ∈ history, ∀ t, published chan (x.1, x.2.1) = some t → storedTable chan x = some t

variable {tgt zb maxChanMsgSize chan} {count : β → Nat} {stored : β → Bytes} {descr : LuaMsgDescr}

/-- A publish counts as successful only when it reports success. -/
theorem published_pub_eq_none {i c : Nat} {es : Entries} {mt : Option Nat} {timeout : Value}
    {r : Option Result} (h : c = chan → r ≠ some (.ok [.integer 0])) :
    published chan (.call i (.pub c es mt timeout), r) = none := by
  unfold published
  split
  · rename_i heq
    obtain ⟨haction, rfl⟩ := Prod.mk.inj heq
    obtain ⟨-, hpub⟩ := Action.call.inj haction
    obtain ⟨rfl, -⟩ := Call.pub.inj hpub
    rw [if_neg]
    rintro ⟨hc, rfl⟩
    exact h hc rfl
  · rfl

variable (tgt maxChanMsgSize) in
/-- A step leaves the channel alone and is no successful publish on it, or it is a publish
that leaves the complete message of its table there. -/
theorem System.step_stored (hzb : CopiesWhole zb chan count stored)
    (hdescr : (zb.chan chan).userData = some descr) (sys : System β) (a : Action) :
    (published chan (a, (sys.step tgt zb maxChanMsgSize a).1) = none ∧
      count (sys.step tgt zb maxChanMsgSize a).2.bus = count sys.bus ∧
      stored (sys.step tgt zb maxChanMsgSize a).2.bus = stored sys.bus) ∨
    ∃ i es mt timeout buf ws, a = .call i (.pub chan es mt timeout) ∧
      count (sys.step tgt zb maxChanMsgSize a).2.bus = count sys.bus + 1 ∧
      buf.length = (zb.chan chan).msgSize ∧
      tableWrites tgt descr.fields (.table es mt) 0 = .ok ws ∧
      stored (sys.step tgt zb maxChanMsgSize a).2.bus = putAll buf ws := by
  cases a with
  | script i next => exact .inl ⟨rfl, rfl, rfl⟩
  | call i c =>
      cases c with
      | read c timeout =>
          refine .inl ⟨rfl, ?_⟩
          obtain hbus | ⟨n, hbus⟩ := sys.step_read_bus tgt zb maxChanMsgSize i c timeout
          · rw [hbus]
            exact ⟨rfl, rfl⟩
          · rw [hbus]
            exact hzb.read_keeps c n sys.bus
      | waitMsg obs timeout rest =>
          refine .inl ⟨rfl, ?_⟩
          obtain hbus | ⟨n, hbus⟩ := sys.step_waitMsg_bus tgt zb maxChanMsgSize i obs timeout rest
          · rw [hbus]
            exact ⟨rfl, rfl⟩
          · rw [hbus]
            exact hzb.wait_keeps obs n sys.bus
      | pub c es mt timeout =>
          obtain ⟨hbus, hfailed⟩ | ⟨descr', n, buf, ws, hdescr', hlen, hws, hbus, hresult⟩ :=
            sys.step_pub tgt zb maxChanMsgSize i c es mt timeout
          · exact .inl ⟨published_pub_eq_none (fun _ => hfailed), by rw [hbus], by rw [hbus]⟩
          · rw [hbus, hresult]
            by_cases hc : c = chan
            · subst hc
              obtain rfl := Option.some.inj (hdescr.symm.trans hdescr')
              obtain ⟨hcount, hstored⟩ | ⟨hr, hcount, hstored⟩ :=
                hzb.pub (putAll buf ws) n sys.bus
              · exact .inr ⟨i, es, mt, timeout, buf, ws, rfl, hcount, hlen, hws, hstored⟩
              · refine .inl ⟨published_pub_eq_none (fun _ => ?_), hcount, hstored⟩
                obtain ⟨e, he⟩ := Option.ne_none_iff_exists'.mp hr
                rw [he]
                simpa [Errno.result] using e.code_ne_zero
            · obtain ⟨hcount, hstored⟩ := hzb.pub_other c (putAll buf ws) n sys.bus hc
              exact .inl ⟨published_pub_eq_none (fun h => absurd h hc), hcount, hstored⟩

/-- Only a publish of the table itself is a successful publish of it. -/
theorem eq_of_published {i : Nat} {es : Entries} {mt : Option Nat} {timeout t : Value}
    {r : Option Result} (h : published chan (.call i (.pub chan es mt timeout), r) = some t) :
    t = .table es mt := by
  unfold published at h
  split at h
  · rename_i heq
    obtain ⟨haction, -⟩ := Prod.mk.inj heq
    obtain ⟨-, hpub⟩ := Action.call.inj haction
    obtain ⟨-, rfl, rfl, -⟩ := Call.pub.inj hpub
    split at h
    · exact (Option.some.inj h).symm
    · contradiction
  · contradiction

/-- Every step of the system keeps `HoldsLast`. -/
theorem HoldsLast.step (hzb : CopiesWhole zb chan count stored)
    (hdescr : (zb.chan chan).userData = some descr)
    (hwf : WellFormed descr.fields (zb.chan chan).msgSize)
    {history : List (Action × Option Result × Bool)} {sys : System β} (a : Action)
    (h : HoldsLast tgt chan descr.fields stored history sys) :
    HoldsLast tgt chan descr.fields stored
      (history ++ [(a, (sys.storing tgt zb maxChanMsgSize count a).1)])
      (sys.storing tgt zb maxChanMsgSize count a).2 := by
  obtain ⟨hnone, hcount, heq⟩ | ⟨i, es, mt, timeout, buf, ws, rfl, hcount, hlen, hws, heq⟩ :=
    System.step_stored tgt maxChanMsgSize hzb hdescr sys a
  · have hkept : storedTable chan (a, (sys.storing tgt zb maxChanMsgSize count a).1) = none := by
      rw [System.storing_fst, hcount, decide_eq_false (not_not.mpr rfl)]
      cases a with
      | script i next => rfl
      | call i c =>
          cases c with
          | _ => rfl
    refine ⟨fun t ht hconf => ?_, fun x hx t ht => ?_⟩
    · rw [lastStored, latest_concat, hkept, Option.none_or] at ht
      change messageTable _ _ (stored (sys.step tgt zb maxChanMsgSize a).2.bus) 0 = _
      rw [heq]
      exact h.table t ht hconf
    · obtain hx | hx := List.mem_append.mp hx
      · exact h.success x hx t ht
      · rw [List.mem_singleton.mp hx] at ht
        exact absurd (hnone.symm.trans ht) nofun
  · have hstored : storedTable chan (.call i (.pub chan es mt timeout),
        (sys.storing tgt zb maxChanMsgSize count (.call i (.pub chan es mt timeout))).1) =
          some (.table es mt) := by
      rw [System.storing_fst, hcount, decide_eq_true (Nat.succ_ne_self _)]
      exact if_pos rfl
    refine ⟨fun t ht hconf => ?_, fun x hx t ht => ?_⟩
    · rw [lastStored, latest_concat, hstored, Option.some_or] at ht
      obtain rfl := Option.some.inj ht
      change messageTable _ _ (stored (sys.step tgt zb maxChanMsgSize _).2.bus) 0 = _
      rw [heq]
      exact messageTable_putAll hwf hconf (by omega) hws
    · obtain hx | hx := List.mem_append.mp hx
      · exact h.success x hx t ht
      · rw [List.mem_singleton.mp hx] at ht ⊢
        rw [hstored, eq_of_published ht]

/-- A read that succeeds returns the table of the message in the channel. -/
theorem ReadGives.shown (hzb : CopiesWhole zb chan count stored)
    (hdescr : (zb.chan chan).userData = some descr) {sys : System β} {v : Value}
    (h : ReadGives tgt zb maxChanMsgSize chan sys v) :
    messageTable tgt descr.fields (stored sys.bus) 0 = some v := by
  obtain ⟨thread, timeout, h⟩ := h
  obtain ⟨n, message, -, hread, hshown⟩ := sys.step_read_ok tgt zb maxChanMsgSize thread h
  rw [← hzb.read_ok n sys.bus message hread]
  simpa only [shownMessage, hdescr] using hshown

/-- In every run, over any number of threads, a read that succeeds after a publish stored its
message returns the normal form of the table stored last, and publishing what was read
changes nothing for later reads. Every publish that reports success stored its table, so
that the table stored last is the one published last or one of a later publish that failed
after it had stored its message. -/
theorem chanRead_lastStored (hzb : CopiesWhole zb chan count stored)
    (hdescr : (zb.chan chan).userData = some descr)
    (hsize : descr.msgSize = (zb.chan chan).msgSize) (hwf : WellFormed descr.fields descr.msgSize)
    (sys : System β) (actions : List Action) :
    (∀ x ∈ (run (System.storing tgt zb maxChanMsgSize count) sys actions).1, ∀ t,
      published chan (x.1, x.2.1) = some t → storedTable chan x = some t) ∧
    ∀ t v, lastStored chan (run (System.storing tgt zb maxChanMsgSize count) sys actions).1 =
        some t → Conforms tgt descr.fields t →
      ReadGives tgt zb maxChanMsgSize chan
        (run (System.storing tgt zb maxChanMsgSize count) sys actions).2 v →
      v = normTable tgt descr.fields t ∧
        ∀ (sys' : System β) (more : List Action) (w : Value),
          lastStored chan (run (System.storing tgt zb maxChanMsgSize count) sys' more).1 =
            some v →
          ReadGives tgt zb maxChanMsgSize chan
            (run (System.storing tgt zb maxChanMsgSize count) sys' more).2 w → w = v := by
  rw [hsize] at hwf
  have hholds (sys : System β) (actions : List Action) :
      HoldsLast tgt chan descr.fields stored
        (run (System.storing tgt zb maxChanMsgSize count) sys actions).1
        (run (System.storing tgt zb maxChanMsgSize count) sys actions).2 := by
    have hstart : HoldsLast tgt chan descr.fields stored [] sys := ⟨nofun, nofun⟩
    have hall : AllSteps (System.storing tgt zb maxChanMsgSize count) (fun _ _ => True) sys
        actions := allSteps_of_forall _ (fun _ _ => trivial) sys actions
    exact run_invariant (fun _ _ a h _ => h.step hzb hdescr hwf a) hstart hall
  have hnorm (sys : System β) (actions : List Action) {t v : Value}
      (ht : lastStored chan (run (System.storing tgt zb maxChanMsgSize count) sys actions).1 =
        some t) (hconf : Conforms tgt descr.fields t)
      (hread : ReadGives tgt zb maxChanMsgSize chan
        (run (System.storing tgt zb maxChanMsgSize count) sys actions).2 v) :
      v = normTable tgt descr.fields t :=
    Option.some.inj ((hread.shown hzb hdescr).symm.trans ((hholds sys actions).table t ht hconf))
  refine ⟨(hholds sys actions).success, fun t v ht hconf hread => ?_⟩
  obtain rfl := hnorm sys actions ht hconf hread
  refine ⟨rfl, fun sys' more w hw hread' => ?_⟩
  rw [hnorm sys' more hw (hconf.normTable hwf) hread', normTable_normTable hwf hconf]

/-- `{ sensor_id = 7, offset = { x = 1, y = 2, z = 3 } }`. -/
def otherCfg : Entries := rawSet sensorCfg (ascii "sensor_id") (.integer 7)

/-- Thread 0 publishes a configuration, thread 1 another one. -/
def publishBothCfgs : List Action :=
  [.call 0 (.pub 0 sensorCfg none (.integer 200)), .call 1 (.pub 0 otherCfg none (.integer 200))]

/-- The steps on a channel with one subscriber, whose queue takes one message. -/
def oneQueued : System (Bus chanSensorConfig) → Action →
    (Option Result × Bool) × System (Bus chanSensorConfig) :=
  System.storing Target.sample (Zbus.ofBus chanSensorConfig [0]) 20 fun b => b.count 0

def oneQueuedAtRest : System (Bus chanSensorConfig) :=
  System.atRest 7 { Bus.initial chanSensorConfig with room := 1 }

theorem conforms_otherCfg :
    Conforms Target.sample msgSensorConfigFields (.table otherCfg none) :=
  ⟨⟨_, rfl, _, rfl⟩, ⟨_, rfl, ⟨_, _, rfl⟩, ⟨_, rfl, _, rfl⟩, ⟨_, rfl, _, rfl⟩,
    ⟨_, rfl, _, rfl⟩, trivial⟩, trivial⟩

theorem readGives_otherCfg :
    ReadGives Target.sample (Zbus.ofBus chanSensorConfig [0]) 20 0
      (run oneQueued oneQueuedAtRest publishBothCfgs).2 (.table otherCfg none) :=
  ⟨2, .integer 200, by decide +kernel⟩

/-- What thread 2 reads is what thread 1 stored. -/
theorem chanRead_lastStored_otherCfg : ∃ v,
    ReadGives Target.sample (Zbus.ofBus chanSensorConfig [0]) 20 0
      (run oneQueued oneQueuedAtRest publishBothCfgs).2 v ∧
      v = normTable Target.sample msgSensorConfigFields (.table otherCfg none) := by
  have hlast : lastStored 0 (run oneQueued oneQueuedAtRest publishBothCfgs).1 =
      some (.table otherCfg none) := by decide +kernel
  have h := (chanRead_lastStored (copiesWhole_ofBus chanSensorConfig [0] 0) rfl rfl (by decide)
    oneQueuedAtRest publishBothCfgs).2 _ _ hlast conforms_otherCfg readGives_otherCfg
  exact ⟨_, readGives_otherCfg, h.1⟩

/-- The publish of thread 1 fails with `-ENOMEM` and is what is read: the table of the most
recent successful publish is the other one. -/
theorem not_chanRead_lastPublished :
    (run oneQueued oneQueuedAtRest publishBothCfgs).1.map (fun x => x.2.1) =
        [some (.ok [.integer 0]), some (.ok [.integer (-12)])] ∧
      lastPublished 0 (run oneQueued oneQueuedAtRest publishBothCfgs).1 =
        some (.table sensorCfg none) ∧
      ReadGives Target.sample (Zbus.ofBus chanSensorConfig [0]) 20 0
        (run oneQueued oneQueuedAtRest publishBothCfgs).2 (.table otherCfg none) ∧
      Value.table otherCfg none ≠
        normTable Target.sample msgSensorConfigFields (.table sensorCfg none) :=
  ⟨by decide +kernel, by decide +kernel, readGives_otherCfg, by decide +kernel⟩

end LuaZephyr
