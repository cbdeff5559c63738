import LuaZephyr.Zbus.Threads
import LuaZephyr.Zbus.Kernel
import LuaZephyr.Zbus.Delivery

/-!
# Observers that a script declares and waits on

`zbus.observer_declare` finds an observer by its name and hands out a userdata with
its address, and `observer:wait_msg` waits on whatever observer is behind the userdata
it is given. A run is what one script does with the two: it may pass any values, but
the only observers it has are those the calls have returned to it.

A wait is meant for message subscribers. Neither call looks at the kind of an observer,
so which observers are waited on depends on those the names find.
-/

namespace LuaZephyr

open Outcome Patch Runs

variable {β : Type}

/-- `enum zbus_observer_type`. -/
inductive ObserverType where
  | listener
  | subscriber
  | msgSubscriber
  deriving DecidableEq, Repr

/-- `zbus_iterate_over_observers_with_user_data`: the loop over channels, over the
registered observers. -/
def iterateObservers {σ : Type} (f : Nat → σ → Bool × σ) : List Nat → σ → σ :=
  iterateChannels f

/-- `struct obs_find_ctx`. -/
structure ObsFindCtx where
  name : Bytes
  found : Option Nat

/-- The names are compared as C strings. -/
def findObsByName (zb : Zbus β) (obs : Nat) (ctx : ObsFindCtx) : Bool × ObsFindCtx :=
  if CString.text (zb.obsName obs) = CString.text ctx.name then
    (false, { ctx with found := some obs })
  else (true, ctx)

/-- `zbus.observer_declare(name) -> observer`. -/
def zbusObserverDeclare (tgt : Target) (zb : Zbus β) : LuaM β Nat := do
  let name ← luaLCheckstring tgt 1
  let ctx := iterateObservers (findObsByName zb) zb.observers ⟨name, none⟩
  match ctx.found with
  | none => luaLError ("zbus observer '" ++ latin1 name ++ "' not found")
  | some obs =>
      pushUserdata .zbusObserver obs
      return 1

/-- The first registered observer of a name. -/
def observerFromName (zb : Zbus β) (name : Bytes) : Option Nat :=
  zb.observers.find? fun obs => CString.text (zb.obsName obs) = CString.text name

theorem iterateObservers_found (zb : Zbus β) (observers : List Nat) (name : Bytes) :
    (iterateObservers (findObsByName zb) observers ⟨name, none⟩).found =
      observers.find? fun obs => CString.text (zb.obsName obs) = CString.text name := by
  induction observers with
  | nil => rfl
  | cons obs observers ih =>
      unfold iterateObservers iterateChannels findObsByName
      by_cases hname : CString.text (zb.obsName obs) = CString.text name
      · rw [if_pos hname, List.find?_cons_of_pos (by simpa using hname)]
      · rw [if_neg hname, List.find?_cons_of_neg (by simpa using hname)]
        exact ih

/-- The same kernel, with a list of the observers `zbus_sub_wait_msg` was called on. -/
def Zbus.noting (zb : Zbus β) : Zbus (β × List Nat) where
  chan := zb.chan
  channels := zb.channels
  chanFromName := zb.chanFromName
  obsName := zb.obsName
  observers := zb.observers
  chanPub c m timeout b :=
    ((zb.chanPub c m timeout b.1).1, ((zb.chanPub c m timeout b.1).2, b.2))
  chanRead c timeout b := ((zb.chanRead c timeout b.1).1, ((zb.chanRead c timeout b.1).2, b.2))
  subWaitMsg obs timeout b :=
    ((zb.subWaitMsg obs timeout b.1).1, ((zb.subWaitMsg obs timeout b.1).2, b.2 ++ [obs]))
  chanRead_length c timeout b := zb.chanRead_length c timeout b.1
  subWaitMsg_length obs timeout b := zb.subWaitMsg_length obs timeout b.1

/-- One of the two calls, with the values passed to it. -/
inductive ObserverCall where
  | declare (args : List Value)
  | waitMsg (args : List Value)

def ObserverCall.args : ObserverCall → List Value
  | .declare args => args
  | .waitMsg args => args

def ObserverCall.method (tgt : Target) (zb : Zbus β) : ObserverCall → LuaM (β × List Nat) Nat
  | .declare _ => zbusObserverDeclare tgt zb.noting
  | .waitMsg _ => subWaitMsg tgt zb.noting (luaZbusInit zb)

/-- A call, or other Lua code, which may leave any state behind. -/
inductive Use (β : Type) where
  | call (c : ObserverCall)
  | other (next : State β)

/-- What came of a step, and the observers waited on in it. -/
structure Outcomes where
  result : Option Result
  waited : List Nat
  deriving DecidableEq

/-- A Lua state, with the values that the two calls have returned to its script. -/
structure Holder (β : Type) where
  lua : State β
  given : List Value

def Holder.step (tgt : Target) (zb : Zbus β) (s : Holder β) : Use β → Outcomes × Holder β
  | .call c =>
      match callMethod (c.method tgt zb) c.args (s.lua.on (s.lua.bus, [])) with
      | .ok rs t => (⟨some (.ok rs), t.bus.2⟩, ⟨t.on t.bus.1, s.given ++ rs⟩)
      | .error e t => (⟨some (.error e), t.bus.2⟩, ⟨t.on t.bus.1, s.given⟩)
  | .other next => (⟨none, []⟩, ⟨next, s.given⟩)

mutual

/-- The observers behind the userdata in a value. -/
def Value.observers : Value → List Nat
  | .userdata .zbusObserver obs => [obs]
  | .table es _ => entriesObservers es
  | _ => []

def entriesObservers : Entries → List Nat
  | [] => []
  | (_, v) :: es => v.observers ++ entriesObservers es

end

/-- A call passes no observer but those the script was given. -/
def Holder.CanPass (s : Holder β) : Use β → Prop
  | .call c => ∀ obs ∈ c.args.flatMap Value.observers, obs ∈ s.given.flatMap Value.observers
  | .other _ => True

/-- The observer was returned for a declaration of its name. -/
def Declared (tgt : Target) (zb : Zbus β) (history : List (Use β × Outcomes)) (obs : Nat) : Prop :=
  ∃ args name, (.call (.declare args), ⟨some (.ok [.userdata .zbusObserver obs]), []⟩) ∈ history ∧
    args.head?.bind tgt.toText? = some name ∧ CString.text (zb.obsName obs) = CString.text name

/-- A Lua error, or a negative `err`. -/
def Refused (r : Option Result) : Prop :=
  (∃ e, r = some (.error (.error e))) ∨
    ∃ err rest, r = some (.ok (.integer err :: rest)) ∧ err.toInt < 0

/-- The observers waited on in a step are message subscribers, declared before under their
names. A call of `wait_msg` that does not wait refuses. -/
def WaitsRight (tgt : Target) (zb : Zbus β) (kind : Nat → ObserverType)
    (before : List (Use β × Outcomes)) (x : Use β × Outcomes) : Prop :=
  (∀ obs ∈ x.2.waited, kind obs = .msgSubscriber ∧ Declared tgt zb before obs) ∧
    ∀ args, x.1 = .call (.waitMsg args) → x.2.waited = [] → Refused x.2.result

variable (tgt : Target) (zb : Zbus β)

/-- A declaration returns the first observer of the name, or raises. -/
theorem zbusObserverDeclare_spec (args : List Value) (s : State β) :
    wp (callMethod (zbusObserverDeclare tgt zb) args)
      (fun rs u => ∃ name obs, args.head?.bind tgt.toText? = some name ∧
        observerFromName zb name = some obs ∧ rs = [.userdata .zbusObserver obs] ∧
        u.bus = s.bus ∧ u.heap = s.heap)
      (fun e u => (∃ err, e = .error err) ∧ u.bus = s.bus ∧ (s.apiFails s.apiCalls = true ∨
        (args.head?.bind tgt.toText?).bind (observerFromName zb) = none)) s := by
  let entry : State β := { s with stack := args.reverse }
  have harg : valueAt entry.stack (1 : Nat) = args.head? :=
    (valueAt_reverse args 0).trans List.head?_eq_getElem?.symm
  rw [wp_callMethod]
  change wp (zbusObserverDeclare tgt zb) _ _ entry
  unfold zbusObserverDeclare
  rw [wp_bind]
  cases hname : args.head?.bind tgt.toText? with
  | none =>
      rw [wp_luaLCheckstring_raises (by rw [harg, hname])]
      exact ⟨⟨_, rfl⟩, rfl, .inr rfl⟩
  | some name =>
      obtain ⟨v, hv, htext⟩ := Option.bind_eq_some_iff.mp hname
      rw [wp_luaLCheckstring (harg.trans hv) htext]
      dsimp only
      rw [iterateObservers_found]
      change wp (match observerFromName zb name with | none => _ | some obs => _) _ _ _
      cases hfound : observerFromName zb name with
      | none => exact ⟨⟨_, rfl⟩, rfl, .inr hfound⟩
      | some obs =>
          unfold pushUserdata
          rw [wp_bind, wp_bind, wp_allocating]
          split
          · rename_i hfail
            exact ⟨⟨_, rfl⟩, rfl, .inl hfail⟩
          · exact ⟨name, obs, rfl, hfound, rfl, rfl, rfl⟩

/-- A call of `wait_msg` waits on the observer it is passed, or raises before. -/
theorem subWaitMsg_uses (maxChanMsgSize : Nat) (args : List Value) (s : State β) :
    wp (callMethod (subWaitMsg tgt zb maxChanMsgSize) args)
      (fun rs u => ∃ obs timeout, args.head? = some (.userdata .zbusObserver obs) ∧
        WaitReturns tgt zb maxChanMsgSize obs timeout s rs u)
      (fun e u => ((∃ err, e = .error err) ∧ u.bus = s.bus) ∨
        ∃ obs timeout, args.head? = some (.userdata .zbusObserver obs) ∧
          WaitRaises tgt zb maxChanMsgSize obs timeout s e u) s := by
  let entry : State β := { s with stack := args.reverse }
  have harg1 : valueAt entry.stack (1 : Nat) = args.head? :=
    (valueAt_reverse args 0).trans List.head?_eq_getElem?.symm
  have harg2 : valueAt entry.stack (2 : Nat) = args[1]? := valueAt_reverse args 1
  by_cases hobs : ∃ obs, args.head? = some (.userdata .zbusObserver obs)
  · obtain ⟨obs, hobs⟩ := hobs
    cases htimeout : args[1]?.bind tgt.toInteger? with
    | some timeout =>
        obtain ⟨v, hv, hint⟩ := Option.bind_eq_some_iff.mp htimeout
        obtain ⟨rest, rfl⟩ : ∃ rest, args = .userdata .zbusObserver obs :: v :: rest := by
          obtain ⟨tail, rfl⟩ := List.head?_eq_some_iff.mp hobs
          obtain ⟨rest, rfl⟩ := List.head?_eq_some_iff.mp (List.head?_eq_getElem?.trans hv)
          exact ⟨rest, rfl⟩
        exact (subWaitMsg_spec tgt zb hint rest s).mono (fun _ _ h => ⟨obs, timeout, rfl, h⟩)
          (fun _ _ h => .inr ⟨obs, timeout, rfl, h⟩)
    | none =>
        rw [wp_callMethod]
        change wp (subWaitMsg tgt zb maxChanMsgSize) _ _ entry
        unfold subWaitMsg
        rw [wp_bind, checkZbusObserver, wp_luaLCheckudata (harg1.trans hobs), wp_bind,
          wp_luaLCheckinteger_raises (by rw [harg2, htimeout])]
        exact .inl ⟨⟨_, rfl⟩, rfl⟩
  · rw [wp_callMethod]
    change wp (subWaitMsg tgt zb maxChanMsgSize) _ _ entry
    unfold subWaitMsg
    have hother : ∀ obs, valueAt entry.stack (1 : Nat) ≠ some (.userdata .zbusObserver obs) :=
      fun obs hud => hobs ⟨obs, harg1.symm.trans hud⟩
    rw [wp_bind, checkZbusObserver, wp_luaLCheckudata_raises hother]
    exact .inl ⟨⟨_, rfl⟩, rfl⟩

theorem entriesObservers_rawSet {es : Entries} (hes : entriesObservers es = []) (key : Bytes)
    {v : Value} (hv : v.observers = []) : entriesObservers (rawSet es key v) = [] := by
  have hput : entriesObservers (rawPut es key v) = [] := by
    induction es with
    | nil => simpa [rawPut, entriesObservers] using hv
    | cons e es ih =>
        obtain ⟨he, hes⟩ := List.append_eq_nil_iff.mp hes
        rw [rawPut]
        split
        · exact List.append_eq_nil_iff.mpr ⟨hv, hes⟩
        · exact List.append_eq_nil_iff.mpr ⟨he, ih hes⟩
  have hfilter : entriesObservers (es.filter fun e => e.1 ≠ key) = [] := by
    clear hput
    induction es with
    | nil => rfl
    | cons e es ih =>
        obtain ⟨he, hes⟩ := List.append_eq_nil_iff.mp hes
        rw [List.filter_cons]
        split
        · exact List.append_eq_nil_iff.mpr ⟨he, ih hes⟩
        · exact ih hes
  unfold rawSet
  split
  · exact hfilter
  · exact hput

section Shown

variable {tgt : Target} {bs : Bytes}

mutual

theorem fieldValue_observers {f : LuaMsgFieldDescr} {base : Nat} {v : Value}
    (h : fieldValue tgt bs f base = some v) : v.observers = [] := by
  obtain ⟨name, type, offset, size, subFields⟩ := f
  cases type with
  | int | uint | number | stringBuf | bool =>
      obtain ⟨x, -, rfl⟩ := Option.map_eq_some_iff.mp h
      rfl
  | string =>
      obtain ⟨address, -, hv⟩ := Option.bind_eq_some_iff.mp h
      unfold stringValue at hv
      split at hv
      · obtain rfl := Option.some.inj hv
        rfl
      · obtain ⟨x, -, rfl⟩ := Option.map_eq_some_iff.mp hv
        rfl
  | object =>
      obtain ⟨es, hes, rfl⟩ := Option.map_eq_some_iff.mp h
      exact entriesOf_observers rfl hes

theorem entriesOf_observers {fs : List LuaMsgFieldDescr} {base : Nat} {acc es : Entries}
    (hacc : entriesObservers acc = []) (h : entriesOf tgt bs fs base acc = some es) :
    entriesObservers es = [] := by
  cases fs with
  | nil =>
      obtain rfl := Option.some.inj h
      exact hacc
  | cons f fs =>
      obtain ⟨v, hv, hrest⟩ := Option.bind_eq_some_iff.mp h
      exact entriesOf_observers (entriesObservers_rawSet hacc f.fieldName
        (fieldValue_observers hv)) hrest

end

theorem shownMessage_observers {zb : Zbus β} {chan : Nat} {v : Value}
    (h : shownMessage tgt zb chan bs = some v) : v.observers = [] := by
  unfold shownMessage at h
  split at h
  · obtain ⟨es, hes, rfl⟩ := Option.map_eq_some_iff.mp h
    exact entriesOf_observers rfl hes
  · obtain rfl := Option.some.inj h
    rfl

end Shown

section Steps

section Calls

variable {tgt : Target} {zb : Zbus β} {s : Holder β} {c : ObserverCall} {t : State (β × List Nat)}

theorem Holder.step_call_ok {rs : List Value}
    (hrun : callMethod (c.method tgt zb) c.args (s.lua.on (s.lua.bus, [])) = .ok rs t) :
    s.step tgt zb (.call c) = (⟨some (.ok rs), t.bus.2⟩, ⟨t.on t.bus.1, s.given ++ rs⟩) := by
  rw [Holder.step, hrun]

theorem Holder.step_call_error {e : Exn}
    (hrun : callMethod (c.method tgt zb) c.args (s.lua.on (s.lua.bus, [])) = .error e t) :
    s.step tgt zb (.call c) = (⟨some (.error e), t.bus.2⟩, ⟨t.on t.bus.1, s.given⟩) := by
  rw [Holder.step, hrun]

end Calls

variable (s : Holder β) (args : List Value)

/-- Everything a declaration can do. -/
theorem Holder.step_declare :
    (∃ name obs t, args.head?.bind tgt.toText? = some name ∧
      observerFromName zb name = some obs ∧ t.heap = s.lua.heap ∧
      s.step tgt zb (.call (.declare args)) = (⟨some (.ok [.userdata .zbusObserver obs]), []⟩,
        ⟨t, s.given ++ [.userdata .zbusObserver obs]⟩)) ∨
    ∃ e t, s.step tgt zb (.call (.declare args)) =
        (⟨some (.error (.error e)), []⟩, ⟨t, s.given⟩) ∧
      (s.lua.apiFails s.lua.apiCalls = true ∨
        (args.head?.bind tgt.toText?).bind (observerFromName zb) = none) := by
  have hspec := zbusObserverDeclare_spec tgt zb.noting args (s.lua.on (s.lua.bus, []))
  obtain ⟨rs, t, hrun, name, obs, hname, hfound, rfl, hbus, hheap⟩ |
    ⟨e, t, hrun, ⟨err, rfl⟩, hbus, hcause⟩ := wp_iff.mp hspec
  · refine .inl ⟨name, obs, t.on t.bus.1, hname, hfound, hheap, ?_⟩
    rw [Holder.step_call_ok (c := .declare args) hrun, hbus]
    rfl
  · refine .inr ⟨err, t.on t.bus.1, ?_, hcause⟩
    rw [Holder.step_call_error (c := .declare args) hrun, hbus]
    rfl

/-- The values `wait_msg` returns carry no observer. -/
theorem WaitReturns.observers {zb : Zbus β} {maxChanMsgSize obs : Nat} {timeout : LuaInteger}
    {s u : State β} {rs : List Value}
    (h : WaitReturns tgt zb maxChanMsgSize obs timeout s rs u) :
    rs.flatMap Value.observers = [] := by
  unfold WaitReturns at h
  split at h
  · rw [h.1]
    rfl
  · obtain ⟨-, -, h⟩ := h
    split at h
    · rw [h]
      rfl
    · obtain ⟨-, -, v, hv, rfl⟩ := h
      simp [Value.observers, shownMessage_observers hv]

/-- A call of `wait_msg` refuses, or it waits on the observer it is passed; a script is
given no observer by it. -/
theorem Holder.step_waitMsg :
    ∃ r t vs, vs.flatMap Value.observers = [] ∧
      ((s.step tgt zb (.call (.waitMsg args)) = (⟨some r, []⟩, ⟨t, s.given ++ vs⟩) ∧
          Refused (some r)) ∨
        ∃ obs, args.head? = some (.userdata .zbusObserver obs) ∧ 0 < luaZbusInit zb ∧
          s.step tgt zb (.call (.waitMsg args)) = (⟨some r, [obs]⟩, ⟨t, s.given ++ vs⟩)) := by
  have hspec := subWaitMsg_uses tgt zb.noting (luaZbusInit zb) args (s.lua.on (s.lua.bus, []))
  obtain ⟨rs, t, hrun, obs, timeout, harg, hret⟩ | ⟨e, t, hrun, h⟩ := wp_iff.mp hspec
  · have hstep := Holder.step_call_ok (c := .waitMsg args) hrun
    refine ⟨.ok rs, t.on t.bus.1, rs, hret.observers, ?_⟩
    unfold WaitReturns at hret
    split at hret
    · obtain ⟨rfl, -, hbus⟩ := hret
      refine .inl ⟨by rw [hstep, hbus]; rfl, .inr ⟨enomem, _, rfl, by decide⟩⟩
    · rename_i hfresh
      exact .inr ⟨obs, harg, SysHeap.freshContents_pos hfresh, by rw [hstep, hret.2.1]; rfl⟩
  · have hstep := Holder.step_call_error (c := .waitMsg args) hrun
    refine ⟨.error e, t.on t.bus.1, [], rfl, ?_⟩
    rw [List.append_nil]
    obtain ⟨⟨err, rfl⟩, hbus⟩ | ⟨obs, timeout, harg, _, _, _, hfresh, -, -, hbus, -⟩ := h
    · exact .inl ⟨by rw [hstep, hbus]; rfl, .inl ⟨err, rfl⟩⟩
    · exact .inr ⟨obs, harg, SysHeap.freshContents_pos hfresh, by rw [hstep, hbus]; rfl⟩

/-- With memory for the buffer and an integer timeout, `wait_msg` waits on any observer. -/
theorem Holder.step_waitMsg_waits (obs : Nat) (timeout : LuaInteger) {buf : Bytes}
    (hfresh : s.lua.heap.freshContents (luaZbusInit zb) = some buf) :
    (s.step tgt zb (.call (.waitMsg [.userdata .zbusObserver obs, .integer timeout]))).1.waited =
      [obs] := by
  let entry : State (β × List Nat) := s.lua.on (s.lua.bus, [])
  have hfresh' : entry.heap.freshContents (luaZbusInit zb) = some buf := hfresh
  have hspec : wp (callMethod (subWaitMsg tgt zb.noting (luaZbusInit zb))
      [.userdata .zbusObserver obs, .integer timeout]) _ _ entry :=
    subWaitMsg_spec tgt zb.noting rfl [] entry
  obtain ⟨rs, t, hrun, h⟩ | ⟨e, t, hrun, _, _, _, -, -, -, hbus, -⟩ := wp_iff.mp hspec
  · unfold WaitReturns at h
    rw [hfresh'] at h
    rw [Holder.step_call_ok (c := .waitMsg [_, _]) hrun, h.2.1]
    rfl
  · rw [Holder.step_call_error (c := .waitMsg [_, _]) hrun, hbus]
    rfl

end Steps

section Runs

variable (kind : Nat → ObserverType)

/-- A declaration finds nothing but a message subscriber. This matters once some channel
has messages to wait for. -/
def FindsMsgSubscriber (u : Use β) : Prop :=
  ∀ args name obs, u = .call (.declare args) → args.head?.bind tgt.toText? = some name →
    observerFromName zb name = some obs → 0 < luaZbusInit zb → kind obs = .msgSubscriber

/-- The observers a script has were declared and can be waited on, and every wait so far
was right. -/
structure HoldsDeclared (history : List (Use β × Outcomes)) (s : Holder β) : Prop where
  declared : ∀ obs ∈ s.given.flatMap Value.observers, Declared tgt zb history obs ∧
    (0 < luaZbusInit zb → kind obs = .msgSubscriber)
  waits : EachAfter (WaitsRight tgt zb kind) history

variable {tgt zb kind}

theorem observerFromName_name {name : Bytes} {obs : Nat}
    (h : observerFromName zb name = some obs) :
    CString.text (zb.obsName obs) = CString.text name := by
  simpa using List.find?_some h

theorem Declared.concat {history : List (Use β × Outcomes)} {obs : Nat}
    (h : Declared tgt zb history obs) (x : Use β × Outcomes) :
    Declared tgt zb (history ++ [x]) obs := by
  obtain ⟨args, name, hmem, htext, hname⟩ := h
  exact ⟨args, name, List.mem_append_left _ hmem, htext, hname⟩

/-- A step that waits on nothing and is no call of `wait_msg`. -/
theorem waitsRight_of_ne (before : List (Use β × Outcomes)) {u : Use β} {r : Option Result}
    (hu : ∀ args, u ≠ .call (.waitMsg args)) : WaitsRight tgt zb kind before (u, ⟨r, []⟩) :=
  ⟨fun _ hobs => absurd hobs List.not_mem_nil, fun args heq => absurd heq (hu args)⟩

theorem HoldsDeclared.step {history : List (Use β × Outcomes)} {s : Holder β}
    (h : HoldsDeclared tgt zb kind history s) {u : Use β} (hpass : s.CanPass u)
    (hfinds : FindsMsgSubscriber tgt zb kind u) :
    HoldsDeclared tgt zb kind (history ++ [(u, (s.step tgt zb u).1)]) (s.step tgt zb u).2 := by
  have hkeep {given : List Value} {t : State β} (x : Use β × Outcomes)
      (hgiven : given.flatMap Value.observers = s.given.flatMap Value.observers)
      (hx : WaitsRight tgt zb kind history x) :
      HoldsDeclared tgt zb kind (history ++ [x]) ⟨t, given⟩ := by
    refine ⟨fun obs hobs => ?_, h.waits.concat hx⟩
    rw [hgiven] at hobs
    obtain ⟨hdecl, hkind⟩ := h.declared obs hobs
    exact ⟨hdecl.concat x, hkind⟩
  cases u with
  | other next => exact hkeep _ rfl (waitsRight_of_ne _ (by simp))
  | call c =>
      cases c with
      | declare args =>
          have hright (r : Option Result) : WaitsRight tgt zb kind history
              (.call (.declare args), ⟨r, []⟩) := waitsRight_of_ne _ (by simp)
          obtain ⟨name, obs, t, htext, hfound, -, hstep⟩ | ⟨e, t, hstep, -⟩ :=
            s.step_declare tgt zb args
          · rw [hstep]
            refine ⟨fun o ho => ?_, h.waits.concat (hright _)⟩
            rw [List.flatMap_append, List.mem_append] at ho
            obtain ho | ho := ho
            · obtain ⟨hdecl, hkind⟩ := h.declared o ho
              exact ⟨hdecl.concat _, hkind⟩
            · obtain rfl : o = obs := by simpa [Value.observers] using ho
              exact ⟨⟨args, name, List.mem_append_right _ (List.mem_singleton.mpr rfl), htext,
                observerFromName_name hfound⟩, hfinds args name o rfl htext hfound⟩
          · rw [hstep]
            exact hkeep _ rfl (hright _)
      | waitMsg args =>
          obtain ⟨r, t, vs, hvs, hcase⟩ := s.step_waitMsg tgt zb args
          have hgiven : (s.given ++ vs).flatMap Value.observers =
              s.given.flatMap Value.observers := by
            rw [List.flatMap_append, hvs, List.append_nil]
          obtain ⟨hstep, hrefused⟩ | ⟨obs, harg, hsize, hstep⟩ := hcase
          · rw [hstep]
            exact hkeep _ hgiven ⟨fun o ho => absurd ho List.not_mem_nil, fun _ _ _ => hrefused⟩
          · rw [hstep]
            refine hkeep _ hgiven ⟨fun o ho => ?_, fun _ _ hnone => absurd hnone (by simp)⟩
            obtain rfl := List.mem_singleton.mp ho
            obtain ⟨rest, rfl⟩ := List.head?_eq_some_iff.mp harg
            obtain ⟨hdecl, hkind⟩ := h.declared o (hpass o (by simp [ObserverCall.args,
              Value.observers]))
            exact ⟨hkind hsize, hdecl⟩

/-- The waits of a run whose declarations find message subscribers only. -/
theorem waitsRight_run {s : State β} {uses : List (Use β)}
    (hok : AllSteps (Holder.step tgt zb)
      (fun s u => s.CanPass u ∧ FindsMsgSubscriber tgt zb kind u) ⟨s, []⟩ uses) :
    EachAfter (WaitsRight tgt zb kind) (run (Holder.step tgt zb) ⟨s, []⟩ uses).1 := by
  have hstart : HoldsDeclared tgt zb kind [] (⟨s, []⟩ : Holder β) :=
    ⟨fun _ hobs => absurd hobs List.not_mem_nil, eachAfter_nil _⟩
  have hstep : ∀ history t u, HoldsDeclared tgt zb kind history t →
      (t.CanPass u ∧ FindsMsgSubscriber tgt zb kind u) →
      HoldsDeclared tgt zb kind (history ++ [(u, (t.step tgt zb u).1)]) (t.step tgt zb u).2 :=
    fun _ _ _ h hok => h.step hok.1 hok.2
  have hend := run_invariant hstep hstart hok
  exact hend.waits

theorem msgSubscriber_of_waitsRight {history : List (Use β × Outcomes)}
    (h : EachAfter (WaitsRight tgt zb kind) history) {o : Outcomes}
    (ho : o ∈ history.map Prod.snd) {obs : Nat} (hobs : obs ∈ o.waited) :
    kind obs = .msgSubscriber := by
  obtain ⟨x, hx, rfl⟩ := List.mem_map.mp ho
  obtain ⟨before, after, heq⟩ := List.append_of_mem hx
  exact ((h before x after heq).1 obs hobs).1

theorem luaZbusInit_pos_iff :
    0 < luaZbusInit zb ↔ ∃ c ∈ zb.channels, 0 < (zb.chan c).msgSize := by
  constructor
  · intro hpos
    by_contra hnone
    have hzero (channels : List Nat) (hsub : channels ⊆ zb.channels) :
        channels.foldl (fun n c => max n (zb.chan c).msgSize) 0 = 0 := by
      induction channels with
      | nil => rfl
      | cons c channels ih =>
          obtain ⟨hc, hsub⟩ := List.cons_subset.mp hsub
          have hsize : (zb.chan c).msgSize = 0 := by
            by_contra hne
            exact hnone ⟨c, hc, by omega⟩
          rw [List.foldl_cons, hsize]
          exact ih hsub
    rw [luaZbusInit, iterateChannels_findMax, hzero _ (List.Subset.refl _)] at hpos
    omega
  · rintro ⟨c, hc, hpos⟩
    exact Nat.lt_of_lt_of_le hpos (msgSize_le_luaZbusInit zb hc)

end Runs

/-- `zbus_sub_wait_msg` is called on declared message subscribers only, in every run of
every script, exactly when no name finds an observer of another kind, or no channel has
any messages. -/
theorem waitsRight_iff (kind : Nat → ObserverType) (bus : β) :
    (∀ s : State β, s.bus = bus → ∀ uses,
      AllSteps (Holder.step tgt zb) Holder.CanPass ⟨s, []⟩ uses →
      EachAfter (WaitsRight tgt zb kind) (run (Holder.step tgt zb) ⟨s, []⟩ uses).1) ↔
    ((∃ c ∈ zb.channels, 0 < (zb.chan c).msgSize) →
      ∀ name obs, observerFromName zb name = some obs → kind obs = .msgSubscriber) := by
  rw [← luaZbusInit_pos_iff]
  constructor
  · intro hall hsize name obs hfound
    -- A script that declares the name and waits.
    let start : Holder β := ⟨State.idle 0 bus, []⟩
    let declare : Use β := .call (.declare [.string name])
    let wait : Use β := .call (.waitMsg [.userdata .zbusObserver obs, .integer 0])
    obtain ⟨text, o, t, htext, hfound', hheap, hstep⟩ | ⟨e, t, -, hfail | hnone⟩ :=
      start.step_declare tgt zb [.string name]
    · obtain rfl : name = text := Option.some.inj htext
      obtain rfl : obs = o := Option.some.inj (hfound.symm.trans hfound')
      have hpass : AllSteps (Holder.step tgt zb) Holder.CanPass start [declare, wait] := by
        refine ⟨fun o ho => absurd ho List.not_mem_nil, ?_, trivial⟩
        rw [hstep]
        exact fun o ho => ho
      have hfresh : t.heap.freshContents (luaZbusInit zb) =
          some (SysHeap.residue (fun _ => 0) (luaZbusInit zb)) := by
        rw [hheap, SysHeap.freshContents, if_neg (by omega)]
        rfl
      have hwaited := Holder.step_waitMsg_waits tgt zb
        ⟨t, [.userdata .zbusObserver obs]⟩ obs 0 hfresh
      have hright := hall _ rfl _ hpass [(declare, (start.step tgt zb declare).1)]
        (wait, ((start.step tgt zb declare).2.step tgt zb wait).1) [] rfl
      refine (hright.1 obs ?_).1
      rw [hstep]
      change obs ∈ (Holder.step tgt zb ⟨t, [.userdata .zbusObserver obs]⟩ wait).1.waited
      rw [hwaited]
      exact List.mem_singleton.mpr rfl
    · exact absurd hfail (by simp [start, State.idle])
    · exact absurd (hnone.symm.trans hfound) (by simp)
  · intro hkind s hbus uses hpass
    refine waitsRight_run (AllSteps.of_invariant (fun s u (_ : True) hok => ?_) trivial hpass)
    exact ⟨trivial, hok, fun _ name obs _ _ hfound hsize => hkind hsize name obs hfound⟩

/-- A kernel whose one observer is the listener `lis_sensor`. -/
def listenerBus : Zbus (Bus chanSensorConfig) :=
  { Zbus.ofBus chanSensorConfig [0] with obsName _ := ascii "lis_sensor" }

/-- `zbus.observer_declare("lis_sensor"):wait_msg(0)`. -/
def waitOnListener : List (Use (Bus chanSensorConfig)) :=
  [.call (.declare [.string (ascii "lis_sensor")]),
    .call (.waitMsg [.userdata .zbusObserver 0, .integer 0])]

/-- The listener is handed out and then waited on. -/
theorem not_waitsRight_listener :
    AllSteps (Holder.step Target.sample listenerBus) Holder.CanPass
      ⟨State.idle 0 (Bus.initial chanSensorConfig), []⟩ waitOnListener ∧
    (run (Holder.step Target.sample listenerBus)
      ⟨State.idle 0 (Bus.initial chanSensorConfig), []⟩ waitOnListener).1.map Prod.snd =
        [⟨some (.ok [.userdata .zbusObserver 0]), []⟩,
          ⟨some (.ok [.integer eagain.code, .nil, .nil]), [0]⟩] ∧
    ¬ EachAfter (WaitsRight Target.sample listenerBus fun _ => .listener)
      (run (Holder.step Target.sample listenerBus)
        ⟨State.idle 0 (Bus.initial chanSensorConfig), []⟩ waitOnListener).1 := by
  have hlog : (run (Holder.step Target.sample listenerBus)
      ⟨State.idle 0 (Bus.initial chanSensorConfig), []⟩ waitOnListener).1.map Prod.snd =
        [⟨some (.ok [.userdata .zbusObserver 0]), []⟩,
          ⟨some (.ok [.integer eagain.code, .nil, .nil]), [0]⟩] := by decide +kernel
  refine ⟨⟨fun _ ho => absurd ho List.not_mem_nil, fun _ ho => ho, trivial⟩, hlog, fun h => ?_⟩
  have hkind := msgSubscriber_of_waitsRight h (o := ⟨some (.ok [.integer eagain.code, .nil, .nil]),
    [0]⟩) (by rw [hlog]; simp) (List.mem_singleton.mpr rfl)
  exact absurd hkind (by decide)

end LuaZephyr
