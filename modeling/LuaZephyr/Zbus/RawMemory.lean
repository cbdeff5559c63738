import LuaZephyr.Zbus.Threads
import LuaZephyr.Zbus.Kernel

/-!
# Message buffers over whole runs

Each method obtains its message buffer as a raw block and releases it at its end. A
Lua error leaves the method in between, and then the block is never released. A run
keeps no block exactly when none of its calls is left by a Lua error that way.

Only the message buffers are counted, by the log of the methods. Memory of the Lua state itself
is the collector's and not followed. Whether the heap could go on without the blocks that were
kept is not asked.
-/

namespace LuaZephyr

open Outcome Patch Runs

/-- The blocks held after one more event. Only a block that is held may be released,
and only with the size it was obtained with. -/
def settle (held : List (Nat × Nat)) : RawEvent → Option (List (Nat × Nat))
  | .alloc block size => some ((block, size) :: held)
  | .free block size => if (block, size) ∈ held then some (held.erase (block, size)) else none

/-- The blocks with their sizes that were obtained and not released; none when some
release did not match. -/
def outstanding (log : List RawEvent) : Option (List (Nat × Nat)) := log.foldlM settle []

theorem outstanding_append (log events : List RawEvent) :
    outstanding (log ++ events) = (outstanding log).bind (events.foldlM settle ·) :=
  List.foldlM_append ..

theorem outstanding_alloc {log : List RawEvent} {held : List (Nat × Nat)}
    (h : outstanding log = some held) (block size : Nat) :
    outstanding (log ++ [.alloc block size]) = some ((block, size) :: held) := by
  rw [outstanding_append, h]
  rfl

theorem outstanding_alloc_free {log : List RawEvent} {held : List (Nat × Nat)}
    (h : outstanding log = some held) (block size : Nat) :
    outstanding (log ++ [.alloc block size, .free block size]) = some held := by
  rw [outstanding_append, h]
  simp [settle]

/-- Thread `i` holds the raw blocks `held i`. -/
def Holding {β : Type} (sys : System β) (held : Nat → List (Nat × Nat)) : Prop :=
  ∀ i, outstanding (sys.thread i).rawLog = some (held i)

/-- No thread holds a raw block. -/
def Settled {β : Type} (sys : System β) : Prop := Holding sys fun _ => []

variable {β : Type} (tgt : Target) (zb : Zbus β) (maxChanMsgSize : Nat)

/-- Once the call has its message buffer, no Lua error is raised: the described keys of
a table to publish can be looked up, and the API calls of the conversion find memory. -/
def Call.Completes (c : Call) (s : State β) : Prop :=
  match c with
  | .pub chan entries metatable timeout => ∀ n buf descr,
      tgt.toInteger? timeout = some n →
      s.heap.freshContents (zb.chan chan).msgSize = some buf →
      (zb.chan chan).userData = some descr →
      Indexable tgt descr.fields (.table entries metatable) ∧
        NoFail s.apiFails s.apiCalls (decodeCost tgt descr.fields (.table entries metatable))
  | .read chan timeout => ∀ n buf,
      tgt.toInteger? timeout = some n →
      s.heap.freshContents (zb.chan chan).msgSize = some buf →
      NoFail s.apiFails s.apiCalls
        (shownCost tgt zb chan (received (zb.chanRead chan n s.bus).1 buf))
  | .waitMsg obs timeout _ => ∀ n buf chan message,
      tgt.toInteger? timeout = some n →
      s.heap.freshContents maxChanMsgSize = some buf →
      (zb.subWaitMsg obs n s.bus).1 = .ok (chan, message) →
      NoFail s.apiFails s.apiCalls (1 + shownCost tgt zb chan (put buf ⟨0, message⟩))

/-- The condition on a step; other Lua code always meets it. -/
def Action.Completes (sys : System β) : Action → Prop
  | .call i c => c.Completes tgt zb maxChanMsgSize ((sys.thread i).on sys.bus)
  | .script _ _ => True

/-- The outcome of a step that ran into undefined behaviour. -/
def isFault : Option Result → Bool
  | some (.error (.fault _)) => true
  | _ => false

/-- The step did not run into undefined behaviour. -/
abbrev Defined (x : Action × Option Result) : Prop := isFault x.2 = false

variable {tgt zb maxChanMsgSize}

/-- A call that returns has released its block. -/
theorem Call.Returns.released {c : Call} {s u : State β} {rs : List Value}
    (h : c.Returns tgt zb maxChanMsgSize s rs u) :
    c.Completes tgt zb maxChanMsgSize s ∧ (u.rawLog = s.rawLog ∨
      ∃ block size, u.rawLog = s.rawLog ++ [.alloc block size, .free block size]) := by
  obtain ⟨n, hn, h⟩ := h
  cases c with
  | pub chan es mt timeout =>
      have h : PubReturns tgt zb chan (.table es mt) n s rs u := h
      unfold PubReturns at h
      constructor
      · intro n' buf descr _ hfresh hdescr
        rw [hfresh] at h
        obtain ⟨-, h⟩ := h
        rw [hdescr] at h
        obtain ⟨ws, hws, hok, -⟩ := h
        exact ⟨(tableWrites_ok_iff tgt descr.fields _ 0).mp ⟨ws, hws⟩, hok⟩
      · split at h
        · exact .inl h.2.1
        · exact .inr ⟨_, _, h.1⟩
  | read chan timeout =>
      have h : ReadReturns tgt zb chan n s rs u := h
      unfold ReadReturns at h
      constructor
      · intro n' buf hn' hfresh
        obtain rfl := Option.some.inj (hn.symm.trans hn')
        rw [hfresh] at h
        exact h.2.2.1
      · split at h
        · exact .inl h.2.1
        · exact .inr ⟨_, _, h.1⟩
  | waitMsg obs timeout rest =>
      have h : WaitReturns tgt zb maxChanMsgSize obs n s rs u := h
      unfold WaitReturns at h
      constructor
      · intro n' buf chan message hn' hfresh hwait
        obtain rfl := Option.some.inj (hn.symm.trans hn')
        rw [hfresh] at h
        obtain ⟨-, -, h⟩ := h
        rw [hwait] at h
        exact h.2.1
      · split at h
        · exact .inl h.2.1
        · exact .inr ⟨_, _, h.1⟩

/-- A call that raises did so before it obtained its block, or keeps the block. -/
theorem Call.Raises.keeps_block {c : Call} {s u : State β} {e : Exn}
    (h : c.Raises tgt zb maxChanMsgSize s e u) (hdefined : ∀ f, e ≠ .fault f) :
    (c.Completes tgt zb maxChanMsgSize s ∧ u.rawLog = s.rawLog) ∨
      (¬ c.Completes tgt zb maxChanMsgSize s ∧
        ∃ block size, u.rawLog = s.rawLog ++ [.alloc block size]) := by
  obtain ⟨hn, -, hlog, -⟩ | ⟨n, hn, h⟩ := h
  · refine .inl ⟨?_, hlog⟩
    cases c with
    | pub chan es mt timeout =>
        intro n buf descr hn'
        exact absurd (hn.symm.trans hn') nofun
    | read chan timeout =>
        intro n buf hn'
        exact absurd (hn.symm.trans hn') nofun
    | waitMsg obs timeout rest =>
        intro n buf chan message hn'
        exact absurd (hn.symm.trans hn') nofun
  · right
    cases c with
    | pub chan es mt timeout =>
        obtain ⟨buf, descr, hfresh, hdescr, hlog, -, hcause⟩ := h
        refine ⟨fun hcompletes => ?_, _, _, hlog⟩
        obtain ⟨hindex, hok⟩ := hcompletes n buf descr hn hfresh hdescr
        obtain ⟨-, hfail⟩ | ⟨err, -, herr⟩ | ⟨hfault, -⟩ := hcause
        · exact hfail hok
        · obtain ⟨ws, hws⟩ := (tableWrites_ok_iff tgt descr.fields _ 0).mpr hindex
          rw [hws] at herr
          contradiction
        · exact hdefined _ hfault
    | read chan timeout =>
        obtain ⟨buf, hfresh, hlog, -, hcause⟩ := h
        refine ⟨fun hcompletes => ?_, _, _, hlog⟩
        obtain ⟨-, hfail⟩ | ⟨hfault, -⟩ := hcause
        · exact hfail (hcompletes n buf hn hfresh)
        · exact hdefined _ hfault
    | waitMsg obs timeout rest =>
        obtain ⟨buf, chan, message, hfresh, hwait, hlog, -, hcause⟩ := h
        refine ⟨fun hcompletes => ?_, _, _, hlog⟩
        obtain ⟨-, hfail⟩ | ⟨hfault, -⟩ := hcause
        · exact hfail (hcompletes n buf chan message hn hfresh hwait)
        · exact hdefined _ hfault

theorem Holding.leave {sys : System β} {held : Nat → List (Nat × Nat)} (h : Holding sys held)
    {j : Nat} {t : State β} {now : List (Nat × Nat)} (ht : outstanding t.rawLog = some now) :
    Holding (sys.leave j t) (Function.update held j now) := by
  intro i
  by_cases hi : i = j
  · subst hi
    simpa [System.leave, State.on] using ht
  · simpa [System.leave, Function.update_of_ne hi] using h i

/-- After a step every thread holds what it held before, unless the step is a call that
does not complete: its thread then holds one block more. -/
theorem Holding.step {sys : System β} {held : Nat → List (Nat × Nat)} (h : Holding sys held)
    (a : Action) (hdefined : Defined (a, (sys.step tgt zb maxChanMsgSize a).1)) :
    ∃ held' : Nat → List (Nat × Nat),
      Holding (sys.step tgt zb maxChanMsgSize a).2 held' ∧
      ((∀ i, held' i = []) ↔ (∀ i, held i = []) ∧ a.Completes tgt zb maxChanMsgSize sys) := by
  cases a with
  | script j next =>
      refine ⟨held, fun i => ?_, by simp [Action.Completes]⟩
      by_cases hi : i = j
      · subst hi
        simpa [System.step] using h i
      · simpa [System.step, Function.update_of_ne hi] using h i
  | call j c =>
      obtain ⟨rs, t, hstep, hreturns⟩ | ⟨e, t, hstep, hraises⟩ :=
        sys.step_call tgt zb maxChanMsgSize j c
      · obtain ⟨hcompletes, hlog⟩ := hreturns.released
        rw [hstep]
        refine ⟨Function.update held j (held j), h.leave ?_, ?_⟩
        · obtain hlog | ⟨block, size, hlog⟩ := hlog
          · rw [hlog]
            exact h j
          · rw [hlog]
            exact outstanding_alloc_free (h j) block size
        · rw [Function.update_eq_self]
          exact ⟨fun hclean => ⟨hclean, hcompletes⟩, And.left⟩
      · rw [hstep] at hdefined ⊢
        have hfault : ∀ f, e ≠ .fault f := by
          rintro f rfl
          contradiction
        obtain ⟨hcompletes, hlog⟩ | ⟨hnot, block, size, hlog⟩ := hraises.keeps_block hfault
        · refine ⟨Function.update held j (held j), h.leave (by rw [hlog]; exact h j), ?_⟩
          rw [Function.update_eq_self]
          exact ⟨fun hclean => ⟨hclean, hcompletes⟩, And.left⟩
        · refine ⟨Function.update held j ((block, size) :: held j), h.leave ?_, ?_⟩
          · rw [hlog]
            exact outstanding_alloc (h j) block size
          · constructor
            · intro hclean
              have hj := hclean j
              rw [Function.update_self] at hj
              contradiction
            · rintro ⟨-, hcompletes⟩
              exact absurd hcompletes hnot

/-- No raw block is outstanding in any state of a run exactly when every call of the run
completes. -/
theorem settled_iff_completes {sys : System β} (hstart : Settled sys) {actions : List Action}
    (hdefined : ∀ x ∈ (run (System.step tgt zb maxChanMsgSize) sys actions).1, Defined x) :
    (∀ before after, actions = before ++ after →
      Settled (run (System.step tgt zb maxChanMsgSize) sys before).2) ↔
      AllSteps (System.step tgt zb maxChanMsgSize)
        (fun sys a => a.Completes tgt zb maxChanMsgSize sys) sys actions := by
  have hpart {before : List Action} (hdefined : ∀ x ∈
      (run (System.step tgt zb maxChanMsgSize) sys before).1, Defined x) :
      Settled (run (System.step tgt zb maxChanMsgSize) sys before).2 ↔
        AllSteps (System.step tgt zb maxChanMsgSize)
          (fun sys a => a.Completes tgt zb maxChanMsgSize sys) sys before := by
    have hstep (sys : System β) (held : Nat → List (Nat × Nat)) (a : Action)
        (h : Holding sys held) (hfine : Defined (a, (sys.step tgt zb maxChanMsgSize a).1)) :=
      h.step a hfine
    obtain ⟨held, hheld, hclean⟩ := run_clean_iff hstep hstart hdefined
    have hsettled : Settled (run (System.step tgt zb maxChanMsgSize) sys before).2 ↔
        ∀ i, held i = [] := by
      constructor
      · intro h i
        exact Option.some.inj ((hheld i).symm.trans (h i))
      · intro h i
        rw [hheld i, h i]
    rw [hsettled, hclean]
    exact ⟨And.right, fun h => ⟨fun _ => rfl, h⟩⟩
  constructor
  · intro h
    exact (hpart hdefined).mp (h actions [] (List.append_nil _).symm)
  · rintro h before after rfl
    rw [run_append] at hdefined
    exact (hpart fun x hx => hdefined x (List.mem_append_left _ hx)).mpr
      ((allSteps_append _ before after).mp h).1

/-- With enough memory for its tables a read leaves nothing outstanding. -/
theorem settled_iff_completes_read :
    Settled (run (System.step Target.sample (Zbus.ofBus chanSensorConfig [0]) 20)
      (System.atRest 7 (Bus.initial chanSensorConfig)) [.call 0 (.read 0 (.integer 200))]).2 := by
  have hstart : Settled (System.atRest 7 (Bus.initial chanSensorConfig)) := fun _ => rfl
  have hcompletes : Call.Completes Target.sample (Zbus.ofBus chanSensorConfig [0]) 20
      (.read 0 (.integer 200)) ((State.idle 7 ()).on (Bus.initial chanSensorConfig)) :=
    fun _ _ _ _ _ _ => rfl
  have hread : ∀ before after, [.call 0 (.read 0 (.integer 200))] = before ++ after →
      Settled (run (System.step Target.sample (Zbus.ofBus chanSensorConfig [0]) 20)
        (System.atRest 7 (Bus.initial chanSensorConfig)) before).2 :=
    (settled_iff_completes hstart (by decide +kernel)).mpr ⟨hcompletes, trivial⟩
  exact hread _ [] (List.append_nil _).symm

/-- `{ sensor_id = 42, offset = 5 }`, with a number where a table is described. -/
def badCfg : Entries := [(ascii "sensor_id", .integer 42), (ascii "offset", .integer 5)]

/-- A script that catches the error and publishes the table again. -/
def retryBadCfg : List Action :=
  [.call 0 (.pub 0 badCfg none (.integer 200)), .call 0 (.pub 0 badCfg none (.integer 200))]

/-- Each attempt raises an error of the lookup and leaves one more message buffer
outstanding. -/
theorem not_settled_badCfg :
    Settled (System.atRest 7 (Bus.initial chanSensorConfig)) ∧
    (run (System.step Target.sample (Zbus.ofBus chanSensorConfig [0]) 20)
      (System.atRest 7 (Bus.initial chanSensorConfig)) retryBadCfg).1.map Prod.snd =
        List.replicate 2 (some (.error (.error (.runtime "attempt to index a value")))) ∧
    outstanding ((run (System.step Target.sample (Zbus.ofBus chanSensorConfig [0]) 20)
      (System.atRest 7 (Bus.initial chanSensorConfig)) retryBadCfg).2.thread 0).rawLog =
        some [(1, 20), (0, 20)] ∧
    ¬ Settled (run (System.step Target.sample (Zbus.ofBus chanSensorConfig [0]) 20)
      (System.atRest 7 (Bus.initial chanSensorConfig)) retryBadCfg).2 := by
  have hheld : outstanding ((run (System.step Target.sample (Zbus.ofBus chanSensorConfig [0]) 20)
      (System.atRest 7 (Bus.initial chanSensorConfig)) retryBadCfg).2.thread 0).rawLog =
        some [(1, 20), (0, 20)] := by decide +kernel
  refine ⟨fun _ => rfl, by decide +kernel, hheld, fun hsettled => ?_⟩
  have h := hheld.symm.trans (hsettled 0)
  simp at h

end LuaZephyr
