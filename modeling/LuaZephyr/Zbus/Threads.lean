import LuaZephyr.Zbus.Methods
import LuaZephyr.Library.Runs

/-!
# Lua threads over one zbus

Each Lua thread has a Lua state of its own; zbus is shared. A step is one method
call of one thread, whether it returns or raises (the script may catch the error
and go on), or other Lua code of one thread, which may do anything to the thread's
own state but obtain or release raw message buffers.
-/

namespace LuaZephyr

open Outcome Patch Runs

/-- One call of a bound method. -/
inductive Call where
  | pub (chan : Nat) (entries : Entries) (metatable : Option Nat) (timeout : Value)
  | read (chan : Nat) (timeout : Value)
  | waitMsg (obs : Nat) (timeout : Value) (rest : List Value)

inductive Action where
  | call (thread : Nat) (c : Call)
  | script (thread : Nat) (next : State Unit)

/-- What a call returns, or the error it raises. -/
abbrev Result := Except Exn (List Value)

structure System (β : Type) where
  thread : Nat → State Unit
  bus : β

variable {β : Type}

/-- A thread's own state together with the state of zbus. -/
def State.on {α : Type} (s : State α) (b : β) : State β :=
  { stack := s.stack, peak := s.peak, accesses := s.accesses, heap := s.heap
    rawLog := s.rawLog, apiFails := s.apiFails, apiCalls := s.apiCalls, bus := b }

def Call.timeout : Call → Value
  | .pub _ _ _ timeout => timeout
  | .read _ timeout => timeout
  | .waitMsg _ timeout _ => timeout

/-- The method behind a call, with `maxChanMsgSize` as computed at startup. -/
def Call.run (tgt : Target) (zb : Zbus β) (maxChanMsgSize : Nat) : Call → LuaM β (List Value)
  | .pub chan entries metatable timeout =>
      callMethod (chanPub tgt zb) [.userdata .zbusChannel chan, .table entries metatable, timeout]
  | .read chan timeout => callMethod (chanRead tgt zb) [.userdata .zbusChannel chan, timeout]
  | .waitMsg obs timeout rest =>
      callMethod (subWaitMsg tgt zb maxChanMsgSize) (.userdata .zbusObserver obs :: timeout :: rest)

namespace System

/-- Every thread at rest in a heap that was filled with one byte. -/
def atRest (residue : UInt8) (bus : β) : System β := ⟨fun _ => State.idle residue (), bus⟩

/-- Thread `i` ends a call in the state `t`. -/
def leave (sys : System β) (i : Nat) (t : State β) : System β where
  thread := Function.update sys.thread i (t.on ())
  bus := t.bus

def step (tgt : Target) (zb : Zbus β) (maxChanMsgSize : Nat) (sys : System β) :
    Action → Option Result × System β
  | .call i c =>
      match c.run tgt zb maxChanMsgSize ((sys.thread i).on sys.bus) with
      | .ok rs t => (some (.ok rs), sys.leave i t)
      | .error e t => (some (.error e), sys.leave i t)
  | .script i next =>
      (none, { sys with
        thread := Function.update sys.thread i { next with rawLog := (sys.thread i).rawLog } })

end System

variable (tgt : Target) (zb : Zbus β) (maxChanMsgSize : Nat)

/-- A call whose timeout is not an integer raises at once. -/
def RaisesArgument (timeout : Value) (s : State β) (e : Exn) (u : State β) : Prop :=
  tgt.toInteger? timeout = none ∧ (∃ arg, e = .error (.argument arg "number expected")) ∧
    u.rawLog = s.rawLog ∧ u.bus = s.bus

/-- The ways a call returns. -/
def Call.Returns (c : Call) (s : State β) (rs : List Value) (u : State β) : Prop :=
  ∃ n, tgt.toInteger? c.timeout = some n ∧
    match c with
    | .pub chan entries metatable _ => PubReturns tgt zb chan (.table entries metatable) n s rs u
    | .read chan _ => ReadReturns tgt zb chan n s rs u
    | .waitMsg obs _ _ => WaitReturns tgt zb maxChanMsgSize obs n s rs u

/-- The ways a call raises. -/
def Call.Raises (c : Call) (s : State β) (e : Exn) (u : State β) : Prop :=
  RaisesArgument tgt c.timeout s e u ∨ ∃ n, tgt.toInteger? c.timeout = some n ∧
    match c with
    | .pub chan entries metatable _ => PubRaises tgt zb chan (.table entries metatable) s e u
    | .read chan _ => ReadRaises tgt zb chan n s e u
    | .waitMsg obs _ _ => WaitRaises tgt zb maxChanMsgSize obs n s e u

theorem Call.run_spec (c : Call) (s : State β) :
    wp (c.run tgt zb maxChanMsgSize) (c.Returns tgt zb maxChanMsgSize s)
      (c.Raises tgt zb maxChanMsgSize s) s := by
  cases c with
  | pub chan entries metatable timeout =>
      cases hv : tgt.toInteger? timeout with
      | some n =>
          exact (chanPub_spec tgt zb hv s).mono (fun _ _ h => ⟨n, hv, h⟩)
            (fun _ _ h => .inr ⟨n, hv, h⟩)
      | none =>
          let entry : State β := { s with
            stack := [timeout, .table entries metatable, .userdata .zbusChannel chan] }
          have hcount : entry.stack.length = 3 := rfl
          have harg1 : valueAt entry.stack (1 : Nat) = some (.userdata .zbusChannel chan) := rfl
          have harg2 : valueAt entry.stack (2 : Nat) = some (.table entries metatable) := rfl
          have harg3 : valueAt entry.stack (3 : Nat) = some timeout := rfl
          rw [Call.run, wp_callMethod]
          change wp (chanPub tgt zb) _ _ entry
          unfold chanPub
          rw [wp_bind, wp_expectArguments hcount, wp_bind, checkZbusChannel,
            wp_luaLCheckudata harg1, wp_bind, wp_luaLChecktypeTable harg2, wp_bind,
            wp_luaLCheckinteger_none harg3 hv]
          exact .inl ⟨hv, ⟨3, rfl⟩, rfl, rfl⟩
  | read chan timeout =>
      cases hv : tgt.toInteger? timeout with
      | some n =>
          exact (chanRead_spec tgt zb hv s).mono (fun _ _ h => ⟨n, hv, h⟩)
            (fun _ _ h => .inr ⟨n, hv, h⟩)
      | none =>
          let entry : State β := { s with stack := [timeout, .userdata .zbusChannel chan] }
          have hcount : entry.stack.length = 2 := rfl
          have harg1 : valueAt entry.stack (1 : Nat) = some (.userdata .zbusChannel chan) := rfl
          have harg2 : valueAt entry.stack (2 : Nat) = some timeout := rfl
          rw [Call.run, wp_callMethod]
          change wp (chanRead tgt zb) _ _ entry
          unfold chanRead
          rw [wp_bind, wp_expectArguments hcount, wp_bind, checkZbusChannel,
            wp_luaLCheckudata harg1, wp_bind, wp_luaLCheckinteger_none harg2 hv]
          exact .inl ⟨hv, ⟨2, rfl⟩, rfl, rfl⟩
  | waitMsg obs timeout rest =>
      cases hv : tgt.toInteger? timeout with
      | some n =>
          exact (subWaitMsg_spec tgt zb hv rest s).mono (fun _ _ h => ⟨n, hv, h⟩)
            (fun _ _ h => .inr ⟨n, hv, h⟩)
      | none =>
          let entry : State β := { s with
            stack := (.userdata .zbusObserver obs :: timeout :: rest).reverse }
          have harg1 : valueAt entry.stack (1 : Nat) = some (.userdata .zbusObserver obs) :=
            valueAt_args rfl
          have harg2 : valueAt entry.stack (2 : Nat) = some timeout := valueAt_args rfl
          rw [Call.run, wp_callMethod]
          change wp (subWaitMsg tgt zb maxChanMsgSize) _ _ entry
          unfold subWaitMsg
          rw [wp_bind, checkZbusObserver, wp_luaLCheckudata harg1, wp_bind,
            wp_luaLCheckinteger_none harg2 hv]
          exact .inl ⟨hv, ⟨2, rfl⟩, rfl, rfl⟩

/-- Everything a call step can do. -/
theorem System.step_call (sys : System β) (i : Nat) (c : Call) :
    (∃ rs t, sys.step tgt zb maxChanMsgSize (.call i c) = (some (.ok rs), sys.leave i t) ∧
      c.Returns tgt zb maxChanMsgSize ((sys.thread i).on sys.bus) rs t) ∨
    ∃ e t, sys.step tgt zb maxChanMsgSize (.call i c) = (some (.error e), sys.leave i t) ∧
      c.Raises tgt zb maxChanMsgSize ((sys.thread i).on sys.bus) e t := by
  have hspec := c.run_spec tgt zb maxChanMsgSize ((sys.thread i).on sys.bus)
  obtain ⟨rs, t, hrun, h⟩ | ⟨e, t, hrun, h⟩ := wp_iff.mp hspec
  · exact .inl ⟨rs, t, by rw [System.step, hrun], h⟩
  · exact .inr ⟨e, t, by rw [System.step, hrun], h⟩

/-- A call of one thread leaves the other threads alone. -/
theorem System.step_call_thread {i j : Nat} (h : j ≠ i) (sys : System β) (c : Call) :
    (sys.step tgt zb maxChanMsgSize (.call i c)).2.thread j = sys.thread j := by
  obtain ⟨rs, t, hstep, -⟩ | ⟨e, t, hstep, -⟩ := sys.step_call tgt zb maxChanMsgSize i c
  · rw [hstep]
    exact Function.update_of_ne h _ _
  · rw [hstep]
    exact Function.update_of_ne h _ _

section Steps

variable (sys : System β) (i : Nat)

/-- A call of `channel:pub` does nothing to zbus and does not report success, or it hands
a message to zbus and reports the result. -/
theorem System.step_pub (chan : Nat) (es : Entries) (mt : Option Nat) (timeout : Value) :
    ((sys.step tgt zb maxChanMsgSize (.call i (.pub chan es mt timeout))).2.bus = sys.bus ∧
      (sys.step tgt zb maxChanMsgSize (.call i (.pub chan es mt timeout))).1 ≠
        some (.ok [.integer 0])) ∨
    ∃ descr n buf ws, (zb.chan chan).userData = some descr ∧
      buf.length = (zb.chan chan).msgSize ∧
      tableWrites tgt descr.fields (.table es mt) 0 = .ok ws ∧
      (sys.step tgt zb maxChanMsgSize (.call i (.pub chan es mt timeout))).2.bus =
        (zb.chanPub chan (putAll buf ws) n sys.bus).2 ∧
      (sys.step tgt zb maxChanMsgSize (.call i (.pub chan es mt timeout))).1 =
        some (.ok [.integer (Errno.result (zb.chanPub chan (putAll buf ws) n sys.bus).1)]) := by
  have hfailed {err : LuaInteger} (herr : err ≠ 0) :
      some (Except.ok [Value.integer err]) ≠ (some (.ok [.integer 0]) : Option Result) := by
    simpa using herr
  obtain ⟨rs, t, hstep, n, -, h⟩ | ⟨e, t, hstep, h⟩ :=
    sys.step_call tgt zb maxChanMsgSize i (.pub chan es mt timeout)
  · have h : PubReturns tgt zb chan (.table es mt) n _ rs t := h
    rw [hstep]
    unfold PubReturns at h
    split at h
    · obtain ⟨rfl, -, hbus⟩ := h
      exact .inl ⟨hbus, hfailed (by decide)⟩
    · rename_i buf hfresh
      obtain ⟨-, h⟩ := h
      split at h
      · obtain ⟨rfl, hbus⟩ := h
        exact .inl ⟨hbus, hfailed (by decide)⟩
      · rename_i descr hdescr
        obtain ⟨ws, hws, -, -, rfl, hbus⟩ := h
        unfold publish at hbus ⊢
        split at hbus
        · rename_i hzero
          rw [if_pos hzero]
          exact .inl ⟨hbus, hfailed (show einval ≠ 0 by decide)⟩
        · rename_i hpos
          rw [if_neg hpos]
          exact .inr ⟨descr, n, buf, ws, hdescr, SysHeap.length_freshContents hfresh, hws, hbus,
            rfl⟩
  · rw [hstep]
    refine .inl ⟨?_, nofun⟩
    obtain ⟨-, -, -, hbus⟩ | ⟨n, -, buf, descr, -, -, -, hbus, -⟩ := h
    · exact hbus
    · exact hbus

/-- A call of `channel:read` changes zbus at most as one `zbus_chan_read` does. -/
theorem System.step_read_bus (chan : Nat) (timeout : Value) :
    (sys.step tgt zb maxChanMsgSize (.call i (.read chan timeout))).2.bus = sys.bus ∨
    ∃ n, (sys.step tgt zb maxChanMsgSize (.call i (.read chan timeout))).2.bus =
      (zb.chanRead chan n sys.bus).2 := by
  obtain ⟨rs, t, hstep, n, -, h⟩ | ⟨e, t, hstep, h⟩ :=
    sys.step_call tgt zb maxChanMsgSize i (.read chan timeout)
  · have h : ReadReturns tgt zb chan n _ rs t := h
    rw [hstep]
    unfold ReadReturns at h
    split at h
    · exact .inl h.2.2
    · exact .inr ⟨n, h.2.1⟩
  · rw [hstep]
    obtain ⟨-, -, -, hbus⟩ | ⟨n, -, buf, -, -, hbus, -⟩ := h
    · exact .inl hbus
    · exact .inr ⟨n, hbus⟩

/-- A read that reports success returns the table of the message zbus gave it. -/
theorem System.step_read_ok {chan : Nat} {timeout v : Value}
    (h : (sys.step tgt zb maxChanMsgSize (.call i (.read chan timeout))).1 =
      some (.ok [.integer 0, v])) :
    ∃ n message, tgt.toInteger? timeout = some n ∧
      (zb.chanRead chan n sys.bus).1 = .ok message ∧ shownMessage tgt zb chan message = some v := by
  obtain ⟨rs, t, hstep, n, hn, hreturns⟩ | ⟨e, t, hstep, -⟩ :=
    sys.step_call tgt zb maxChanMsgSize i (.read chan timeout)
  · rw [hstep] at h
    obtain rfl := Except.ok.inj (Option.some.inj h)
    have hreturns : ReadReturns tgt zb chan n _ [.integer 0, v] t := hreturns
    unfold ReadReturns at hreturns
    split at hreturns
    · exact absurd (List.cons.inj hreturns.1).1 (by simp [enomem])
    · obtain ⟨-, -, -, shown, hshown, hrs⟩ := hreturns
      obtain ⟨herr, hrest⟩ := List.cons.inj hrs
      obtain rfl := (List.cons.inj hrest).1
      obtain ⟨message, hread⟩ := errOf_eq_zero.mp (Value.integer.inj herr).symm
      rw [hread] at hshown
      exact ⟨n, message, hn, hread, hshown⟩
  · rw [hstep] at h
    simp at h

/-- A call of `observer:wait_msg` changes zbus at most as one `zbus_sub_wait_msg` does. -/
theorem System.step_waitMsg_bus (obs : Nat) (timeout : Value) (rest : List Value) :
    (sys.step tgt zb maxChanMsgSize (.call i (.waitMsg obs timeout rest))).2.bus = sys.bus ∨
    ∃ n, (sys.step tgt zb maxChanMsgSize (.call i (.waitMsg obs timeout rest))).2.bus =
      (zb.subWaitMsg obs n sys.bus).2 := by
  obtain ⟨rs, t, hstep, n, -, h⟩ | ⟨e, t, hstep, h⟩ :=
    sys.step_call tgt zb maxChanMsgSize i (.waitMsg obs timeout rest)
  · have h : WaitReturns tgt zb maxChanMsgSize obs n _ rs t := h
    rw [hstep]
    unfold WaitReturns at h
    split at h
    · exact .inl h.2.2
    · exact .inr ⟨n, h.2.1⟩
  · rw [hstep]
    obtain ⟨-, -, -, hbus⟩ | ⟨n, -, buf, c, message, -, -, -, hbus, -⟩ := h
    · exact .inl hbus
    · exact .inr ⟨n, hbus⟩

/-- A wait that reports success returns the channel and the table of the message zbus
gave it, shown from the beginning of the buffer. -/
theorem System.step_waitMsg_ok {obs : Nat} {timeout v w : Value} {rest : List Value}
    (h : (sys.step tgt zb maxChanMsgSize (.call i (.waitMsg obs timeout rest))).1 =
      some (.ok [.integer 0, w, v])) :
    ∃ n chan message buf, tgt.toInteger? timeout = some n ∧
      (zb.subWaitMsg obs n sys.bus).1 = .ok (chan, message) ∧ w = .userdata .zbusChannel chan ∧
      shownMessage tgt zb chan (put buf ⟨0, message⟩) = some v := by
  obtain ⟨rs, t, hstep, n, hn, hreturns⟩ | ⟨e, t, hstep, -⟩ :=
    sys.step_call tgt zb maxChanMsgSize i (.waitMsg obs timeout rest)
  · rw [hstep] at h
    obtain rfl := Except.ok.inj (Option.some.inj h)
    have hreturns : WaitReturns tgt zb maxChanMsgSize obs n _ [.integer 0, w, v] t := hreturns
    unfold WaitReturns at hreturns
    split at hreturns
    · exact absurd (List.cons.inj hreturns.1).1 (by simp [enomem])
    · rename_i buf hfresh
      obtain ⟨-, -, hreturns⟩ := hreturns
      cases hwait : (zb.subWaitMsg obs n sys.bus).1 with
      | error e =>
          rw [show ((sys.thread i).on sys.bus).bus = sys.bus from rfl, hwait] at hreturns
          have hcode := Value.integer.inj (List.cons.inj hreturns).1
          exact absurd hcode.symm e.code_ne_zero
      | ok received =>
          obtain ⟨chan, message⟩ := received
          rw [show ((sys.thread i).on sys.bus).bus = sys.bus from rfl, hwait] at hreturns
          obtain ⟨-, -, shown, hshown, hrs⟩ := hreturns
          obtain ⟨rfl, hrest⟩ := List.cons.inj (List.cons.inj hrs).2
          obtain rfl := (List.cons.inj hrest).1
          exact ⟨n, chan, message, buf, hn, hwait, rfl, hshown⟩
  · rw [hstep] at h
    simp at h

end Steps

end LuaZephyr
