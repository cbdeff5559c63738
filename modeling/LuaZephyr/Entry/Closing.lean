import LuaZephyr.Entry.Prompts
import LuaZephyr.Entry.Survival
import Mathlib.Algebra.Order.BigOperators.Group.List
import Mathlib.Algebra.Order.Group.Nat

/-!
# Closing the Lua state

The entry points are followed with what they do to their Lua state as a whole: it is
created, used and closed. Closing is what runs the pending finalizers. A state is to be
closed once, after its last use, before the entry point returns.

What the finalizers do, and the memory that comes back, is left out, and so is all that the
entry points do besides, which `Entry.Points` has. The state is one object here, whatever is
stored in it.
-/

namespace LuaZephyr

open Outcome Recording

variable {β : Type}

inductive StateEvent where
  | opened
  | used
  | closed
  deriving DecidableEq, Repr

abbrev ClosingM (β : Type) := RecordM Breakdown (State β) StateEvent

namespace Closing

/-- `lua_newstate`; a null pointer is not a state. -/
def newstate : ClosingM β StatePtr := do
  match ← lift luaNewstate with
  | .null => return .null
  | .state =>
      record fun _ => .opened
      return .state

/-- Any call with the state but the one that closes it. -/
def use {α : Type} (L : StatePtr) (m : LuaM β α) : ClosingM β α := do
  record fun _ => .used
  lift (onState L m)

/-- `lua_close(L)`. -/
def close (L : StatePtr) : ClosingM β Unit := do
  record fun _ => .closed
  lift (onState L luaClose)

variable (tgt : Target) (core : LuaCore β) (libs : LuaLibs) (cfg : FsConfig) (fs : FileSystem β)
  (print : ReplPrint β)

def threadBody (setup : LuaM β LuaInteger) (runScript : StatePtr → ClosingM β Unit) :
    ClosingM β Unit := do
  lift sysHeapInit
  let L ← newstate
  use L (luazOpenlibs libs)
  let err ← use L setup
  if err ≠ 0 then
    close L
  else
    runScript L
    close L

def reportError (L : StatePtr) (status : LuaStatus) : ClosingM β Unit := do
  if status ≠ .ok then
    let _ ← use L (luaTostring tgt (-1))
    use L (luaPop 1)

/-- `lua_thread.c.in`. -/
def luaThread (setup : LuaM β LuaInteger) (luaScript : Bytes) : ClosingM β Unit :=
  threadBody libs setup fun L => do
    reportError tgt L (← use L (luaLDostring core luaScript))

/-- `lua_bytecode_thread.c.in`. -/
def luaBytecodeThread (setup : LuaM β LuaInteger) (luaBytecode fileName : Bytes) :
    ClosingM β Unit :=
  threadBody libs setup fun L => do
    reportError tgt L (← use L (loadAndCall core luaBytecode fileName))

def reportStringError (L : StatePtr) (rc : LuaInteger) : ClosingM β Unit := do
  if rc ≠ 0 then
    if ← use L (luaIsstring tgt (-1)) then
      let _ ← use L (luaTostring tgt (-1))

/-- `lua_fs_thread.c.in`. -/
def luaFsThread (setup : LuaM β LuaInteger) (scriptPath : Bytes) : ClosingM β Unit :=
  threadBody libs setup fun L => do
    let err ← use L (luaFsDofile cfg fs core scriptPath)
    reportStringError tgt L err
    if err ≠ 0 then use L (luaSettop 0)

/-- `lua_fs run`. -/
def cmdRun (argv : List Bytes) : ClosingM β LuaInteger := do
  match argv with
  | _ :: name :: _ =>
      lift sysHeapInit
      let L ← newstate
      if L = .null then return Errno.enomem.code
      use L (luazOpenlibs libs)
      let rc ← use L (luaFsDofile cfg fs core name)
      reportStringError tgt L rc
      close L
      return rc
  | _ => return Errno.einval.code

/-- The `lua_close` behind the loop is not reached: Ctrl+D returns from within. -/
def replLoop (L : StatePtr) : List ShellLine → ClosingM β CommandEnd
  | [] => return .waiting
  | line :: lines => do
      if line.eof then return .returned 0
      else
        use L (replLine tgt core print line.text)
        replLoop L lines

def luaReplCmd (lines : List ShellLine) : ClosingM β CommandEnd := do
  lift sysHeapInit
  let L ← newstate
  if L = .null then return .returned Errno.enomem.code
  use L (luazOpenlibs libs)
  replLoop tgt core print L lines

/-- An entry point, and whether it returns: the REPL may wait for a line forever. -/
def body : EntryPoint β → ClosingM β Bool
  | .luaThread setup luaScript => do
      luaThread tgt core libs setup luaScript
      return true
  | .luaBytecodeThread setup luaBytecode fileName => do
      luaBytecodeThread tgt core libs setup luaBytecode fileName
      return true
  | .luaFsThread setup scriptPath => do
      luaFsThread tgt core libs cfg fs setup scriptPath
      return true
  | .cmdRun argv => do
      let _ ← cmdRun tgt core libs cfg fs argv
      return true
  | .luaReplCmd lines => do
      let r ← luaReplCmd tgt core libs print lines
      return r ≠ .waiting

end Closing

namespace Closing

variable {tgt : Target} {core : LuaCore β} {libs : LuaLibs} {cfg : FsConfig} {fs : FileSystem β}
  {print : ReplPrint β}

theorem erases_newstate : Erases (newstate : ClosingM β StatePtr) luaNewstate := by
  have hpure : (luaNewstate : EntryM β StatePtr) = luaNewstate >>= pure := (bind_pure _).symm
  rw [hpure]
  refine (erases_lift _).bind fun L => ?_
  cases L with
  | null => exact erases_pure _
  | state => exact .record_bind (erases_pure _)

theorem erases_use {α : Type} (L : StatePtr) (m : LuaM β α) : Erases (use L m) (onState L m) :=
  .record_bind (erases_lift _)

theorem erases_close (L : StatePtr) : Erases (close L : ClosingM β Unit) (onState L luaClose) :=
  .record_bind (erases_lift _)

theorem erases_threadBody {setup : LuaM β LuaInteger} {runScript : StatePtr → ClosingM β Unit}
    {runScript' : StatePtr → EntryM β Unit} (hrun : ∀ L, Erases (runScript L) (runScript' L)) :
    Erases (threadBody libs setup runScript) (LuaZephyr.threadBody libs setup runScript') := by
  refine (erases_lift _).bind fun _ => erases_newstate.bind fun L => ?_
  refine (erases_use _ _).bind fun _ => (erases_use _ _).bind fun err => ?_
  split
  · exact erases_close L
  · exact (hrun L).bind fun _ => erases_close L

theorem erases_reportError (L : StatePtr) (status : LuaStatus) :
    Erases (reportError tgt L status : ClosingM β Unit) (LuaZephyr.reportError tgt L status) := by
  unfold reportError LuaZephyr.reportError
  split
  · exact (erases_use _ _).bind fun _ => erases_use _ _
  · exact erases_pure _

theorem erases_reportStringError (L : StatePtr) (rc : LuaInteger) :
    Erases (reportStringError tgt L rc : ClosingM β Unit)
      (LuaZephyr.reportStringError tgt L rc) := by
  unfold reportStringError LuaZephyr.reportStringError
  split
  · refine (erases_use _ _).bind fun isString => ?_
    split
    · exact (erases_use _ _).bind fun _ => erases_pure _
    · exact erases_pure _
  · exact erases_pure _

theorem erases_cmdRun (argv : List Bytes) :
    Erases (cmdRun tgt core libs cfg fs argv) (LuaZephyr.cmdRun tgt core libs cfg fs argv) := by
  obtain _ | ⟨argv0, _ | ⟨name, args⟩⟩ := argv
  · exact erases_pure _
  · exact erases_pure _
  · refine (erases_lift _).bind fun _ => erases_newstate.bind fun L => ?_
    split
    · exact erases_pure _
    · refine (erases_use _ _).bind fun _ => (erases_use _ _).bind fun rc => ?_
      refine (erases_reportStringError L rc).bind fun _ => ?_
      exact (erases_close L).bind fun _ => erases_pure rc

theorem erases_replLoop (L : StatePtr) (lines : List ShellLine) :
    Erases (replLoop tgt core print L lines) (LuaZephyr.replLoop tgt core print L lines) := by
  induction lines with
  | nil => exact erases_pure _
  | cons line lines ih =>
      unfold replLoop LuaZephyr.replLoop
      split
      · exact erases_pure _
      · exact (erases_use _ _).bind fun _ => ih

theorem erases_luaReplCmd (lines : List ShellLine) :
    Erases (luaReplCmd tgt core libs print lines)
      (LuaZephyr.luaReplCmd tgt core libs print lines) := by
  refine (erases_lift _).bind fun _ => erases_newstate.bind fun L => ?_
  split
  · exact erases_pure _
  · exact (erases_use _ _).bind fun _ => erases_replLoop L lines

/-- Without the events, and without whether it returns, it is the entry point. -/
theorem erases_body (entry : EntryPoint β) :
    Erases (do let _ ← body tgt core libs cfg fs print entry; pure ⟨⟩)
      (entry.body tgt core libs cfg fs print) := by
  have hunit {m : EntryM β Unit} : m = m >>= fun _ => pure ⟨⟩ := (bind_pure m).symm
  cases entry with
  | luaThread setup luaScript =>
      rw [body, EntryPoint.body, bind_assoc, hunit (m := LuaZephyr.luaThread _ _ _ _ _)]
      refine Erases.bind ?_ fun _ => erases_pure _
      exact erases_threadBody fun L => (erases_use _ _).bind fun _ => erases_reportError L _
  | luaBytecodeThread setup luaBytecode fileName =>
      rw [body, EntryPoint.body, bind_assoc, hunit (m := LuaZephyr.luaBytecodeThread _ _ _ _ _ _)]
      refine Erases.bind ?_ fun _ => erases_pure _
      exact erases_threadBody fun L => (erases_use _ _).bind fun _ => erases_reportError L _
  | luaFsThread setup scriptPath =>
      rw [body, EntryPoint.body, bind_assoc, hunit (m := LuaZephyr.luaFsThread _ _ _ _ _ _ _)]
      refine Erases.bind (erases_threadBody fun L => ?_) fun _ => erases_pure _
      refine (erases_use _ _).bind fun err => (erases_reportStringError L err).bind fun _ => ?_
      split
      · exact erases_use _ _
      · exact erases_pure _
  | cmdRun argv =>
      rw [body, EntryPoint.body, bind_assoc]
      exact (erases_cmdRun argv).bind fun _ => erases_pure _
  | luaReplCmd lines =>
      rw [body, EntryPoint.body, bind_assoc]
      exact (erases_luaReplCmd lines).bind fun _ => erases_pure _

end Closing

/-- No state, or one that was opened, used and closed, and nothing after that. -/
def ClosedOnce (events : List StateEvent) : Prop :=
  events = [] ∨ ∃ n, events = .opened :: (List.replicate n .used ++ [.closed])

/-- The state is open. -/
def InUse (events : List StateEvent) : Prop := ∃ n, events = .opened :: List.replicate n .used

/-- When the entry point returns, its state is closed. -/
def Closes (m : ClosingM β Bool) (s : State β) : Prop :=
  wp m (fun returned t => returned = true → ClosedOnce t.events) (fun _ _ => True) ⟨s, []⟩

namespace InUse

variable {events : List StateEvent}

theorem used (h : InUse events) : InUse (events ++ [.used]) := by
  obtain ⟨n, rfl⟩ := h
  exact ⟨n + 1, by rw [List.replicate_succ', List.cons_append]⟩

theorem closed (h : InUse events) : ClosedOnce (events ++ [.closed]) := by
  obtain ⟨n, rfl⟩ := h
  exact .inr ⟨n, rfl⟩

theorem not_closedOnce (h : InUse events) : ¬ ClosedOnce events := by
  obtain ⟨n, rfl⟩ := h
  rintro (hnone | ⟨k, heq⟩)
  · exact List.cons_ne_nil _ _ hnone
  · have hmem : StateEvent.closed ∈ List.replicate n StateEvent.used := by
      rw [(List.cons.inj heq).2]
      simp
    exact absurd (List.eq_of_mem_replicate hmem) (by decide)

end InUse

namespace Closing

/-- The state stays open. -/
def KeepsInUse {α : Type} (m : ClosingM β α) : Prop :=
  ∀ r, InUse r.events → wp m (fun _ t => InUse t.events) (fun _ _ => True) r

theorem KeepsInUse.pure {α : Type} (a : α) : KeepsInUse (pure a : ClosingM β α) :=
  fun _ h => h

theorem KeepsInUse.bind {α γ : Type} {m : ClosingM β α} {f : α → ClosingM β γ}
    (hm : KeepsInUse m) (hf : ∀ a, KeepsInUse (f a)) : KeepsInUse (m >>= f) :=
  fun r h => wp_bind.mpr ((hm r h).mono (fun a t ht => hf a t ht) fun _ _ h => h)

theorem keepsInUse_use {α : Type} (L : StatePtr) (m : LuaM β α) : KeepsInUse (use L m) :=
  fun _ h => wp_bind.mpr (wp_lift.mpr (wp_of_forall (fun _ _ => h.used) fun _ _ => trivial))

/-- A call with the null pointer brings the system down. -/
theorem wp_use_null {α : Type} {m : LuaM β α} {r : Recorded (State β) StateEvent}
    {Q : α → Recorded (State β) StateEvent → Prop} : wp (use .null m) Q (fun _ _ => True) r :=
  trivial

theorem wp_close {r : Recorded (State β) StateEvent} (h : InUse r.events) (L : StatePtr) :
    wp (close L) (fun _ t => ClosedOnce t.events) (fun _ _ => True) r :=
  wp_bind.mpr (wp_lift.mpr (wp_of_forall (fun _ _ => h.closed) fun _ _ => trivial))

variable {tgt : Target} {core : LuaCore β} {libs : LuaLibs} {cfg : FsConfig} {fs : FileSystem β}
  {print : ReplPrint β}

theorem keepsInUse_reportError (L : StatePtr) (status : LuaStatus) :
    KeepsInUse (reportError tgt L status : ClosingM β Unit) := by
  unfold reportError
  split
  · exact (keepsInUse_use _ _).bind fun _ => keepsInUse_use _ _
  · exact .pure _

theorem keepsInUse_reportStringError (L : StatePtr) (rc : LuaInteger) :
    KeepsInUse (reportStringError tgt L rc : ClosingM β Unit) := by
  unfold reportStringError
  split
  · refine (keepsInUse_use _ _).bind fun isString => ?_
    split
    · exact (keepsInUse_use _ _).bind fun _ => .pure _
    · exact .pure _
  · exact .pure _

theorem keepsInUse_replLoop (L : StatePtr) (lines : List ShellLine) :
    KeepsInUse (replLoop tgt core print L lines) := by
  induction lines with
  | nil => exact .pure _
  | cons line lines ih =>
      unfold replLoop
      split
      · exact .pure _
      · exact (keepsInUse_use _ _).bind fun _ => ih

/-- Creating the state, and what goes on with it. -/
theorem wp_start {α : Type} {k : StatePtr → ClosingM β α} {s : State β}
    {Q : α → Recorded (State β) StateEvent → Prop}
    {E : Breakdown → Recorded (State β) StateEvent → Prop}
    (hnull : s.apiFails s.apiCalls = true → ∀ t, wp (k .null) Q E ⟨t, []⟩)
    (hstate : s.apiFails s.apiCalls = false → ∀ t, wp (k .state) Q E ⟨t, [.opened]⟩) :
    wp (do
        lift sysHeapInit
        let L ← newstate
        k L) Q E ⟨s, []⟩ := by
  refine wp_bind.mpr (wp_lift.mpr (wp_modify.mpr (wp_bind.mpr (wp_bind.mpr (wp_lift.mpr ?_)))))
  refine wp_luaNewstate.mpr ?_
  split
  · rename_i hfails
    exact hnull hfails _
  · rename_i hmemory
    exact hstate (by simpa using hmemory) _

theorem inUse_opened : InUse [.opened] := ⟨0, rfl⟩

/-- A thread closes its state whatever the setup hook and the script do. -/
theorem wp_threadBody_closes {setup : LuaM β LuaInteger} {runScript : StatePtr → ClosingM β Unit}
    (hrun : ∀ L, KeepsInUse (runScript L)) (s : State β) :
    wp (threadBody libs setup runScript) (fun _ t => ClosedOnce t.events) (fun _ _ => True)
      ⟨s, []⟩ := by
  refine wp_start (fun _ t => ?_) fun _ t => ?_
  · -- The libraries are opened on the null pointer.
    exact wp_bind.mpr wp_use_null
  · refine wp_bind.mpr ((keepsInUse_use _ _ _ inUse_opened).mono (fun _ t ht => ?_) fun _ _ h => h)
    refine wp_bind.mpr ((keepsInUse_use _ _ _ ht).mono (fun err t ht => ?_) fun _ _ h => h)
    split
    · exact wp_close ht _
    · refine wp_bind.mpr ((hrun _ _ ht).mono (fun _ t ht => ?_) fun _ _ h => h)
      exact wp_close ht _

theorem wp_cmdRun_closes (argv : List Bytes) (s : State β) :
    wp (cmdRun tgt core libs cfg fs argv) (fun _ t => ClosedOnce t.events) (fun _ _ => True)
      ⟨s, []⟩ := by
  obtain _ | ⟨argv0, _ | ⟨name, args⟩⟩ := argv
  · exact .inl rfl
  · exact .inl rfl
  · refine wp_start (fun _ t => .inl rfl) fun _ t => ?_
    refine wp_bind.mpr ((keepsInUse_use _ _ _ inUse_opened).mono (fun _ t ht => ?_) fun _ _ h => h)
    refine wp_bind.mpr ((keepsInUse_use _ _ _ ht).mono (fun rc t ht => ?_) fun _ _ h => h)
    refine wp_bind.mpr ((keepsInUse_reportStringError _ rc _ ht).mono (fun _ t ht => ?_)
      fun _ _ h => h)
    exact wp_bind.mpr ((wp_close ht _).mono (fun _ _ h => h) fun _ _ h => h)

/-- It returns at the first Ctrl+D. -/
theorem wp_replLoop_returns (L : StatePtr) (lines : List ShellLine) (s : State β) :
    wp (LuaZephyr.replLoop tgt core print L lines)
      (fun r _ => r = if ∃ line ∈ lines, line.eof = true then .returned 0 else .waiting)
      (fun _ _ => True) s := by
  induction lines generalizing s with
  | nil => exact (if_neg (by simp)).symm
  | cons line lines ih =>
      unfold LuaZephyr.replLoop
      split
      · rename_i heof
        exact (if_pos ⟨line, List.mem_cons_self .., heof⟩).symm
      · rename_i heof
        refine wp_bind.mpr (wp_of_forall (fun _ t => ?_) fun _ _ => trivial)
        simpa [heof] using ih t

/-- An error in a line is the only way in which the loop goes down. -/
theorem wp_replLoop_panics (lines : List ShellLine) {s : State β} (hstack : s.stack = []) :
    wp (LuaZephyr.replLoop tgt core print .state lines) (fun _ _ => True)
      (fun e _ => ∃ le, e = .panic le) s := by
  have hlines : ∀ line ∈ lines,
      line.text.length ≤ (lines.map fun line => line.text.length).sum + 1 - 1 := by
    intro line hline
    rw [Nat.add_sub_cancel]
    exact List.le_sum_of_mem (List.mem_map_of_mem hline)
  refine (erases_replLoopNoted hlines).wp_iff (s := ⟨s, []⟩) |>.mp ?_
  refine (wp_replLoopNoted tgt hstack hlines).mono (fun _ _ _ => trivial) ?_
  rintro e t ⟨es, -, hpanic, -⟩
  exact hpanic

/-- So with the whole command. -/
theorem wp_luaReplCmd_panics (lines : List ShellLine) (s : State β) :
    wp (LuaZephyr.luaReplCmd tgt core libs print lines) (fun _ _ => True)
      (fun e _ => ∃ le, e = .panic le) s := by
  refine wp_bind.mpr (wp_modify.mpr (wp_bind.mpr (wp_luaNewstate.mpr ?_)))
  split
  · exact trivial
  · refine wp_bind.mpr (wp_onState_panics ((luazOpenlibs_takes libs _ rfl).mono ?_ ?_))
    · rintro ⟨⟩ t ⟨-, rfl⟩
      exact wp_replLoop_panics lines rfl
    · rintro e t ⟨rfl, -⟩
      exact ⟨_, rfl, _, rfl⟩

theorem wp_luaReplCmd_null {lines : List ShellLine} {s : State β}
    (hnull : s.apiFails s.apiCalls = true) :
    wp (luaReplCmd tgt core libs print lines) (fun _ t => t.events = []) (fun _ _ => True)
      ⟨s, []⟩ := by
  refine wp_start (fun _ t => rfl) fun hstate => ?_
  exact absurd (hnull.symm.trans hstate) (by decide)

/-- With a state, it returns at the first Ctrl+D and leaves the state open. -/
theorem wp_luaReplCmd_state {lines : List ShellLine} {s : State β}
    (hstate : s.apiFails s.apiCalls = false) :
    wp (luaReplCmd tgt core libs print lines)
      (fun r t => InUse t.events ∧
        r = if ∃ line ∈ lines, line.eof = true then .returned 0 else .waiting)
      (fun _ _ => True) ⟨s, []⟩ := by
  refine wp_start (fun hnull => ?_) fun _ t => ?_
  · exact absurd (hnull.symm.trans hstate) (by decide)
  · refine wp_bind.mpr ((keepsInUse_use _ _ _ inUse_opened).mono (fun _ u hu => ?_) fun _ _ h => h)
    have herases : Erases (replLoop tgt core print .state lines)
        (LuaZephyr.replLoop tgt core print .state lines) := erases_replLoop .state lines
    have hreturns := herases.wp_iff.mpr (wp_replLoop_returns .state lines u.state)
    exact ((keepsInUse_replLoop .state lines u hu).and hreturns).mono (fun _ _ h => h)
      fun _ _ _ => trivial

/-- The REPL closes its state exactly when it does not return with one. -/
theorem closes_luaReplCmd_iff (lines : List ShellLine) (s : State β) :
    Closes (body tgt core libs cfg fs print (.luaReplCmd lines)) s ↔
      (s.apiFails s.apiCalls = false →
        CommandFits libs (ReplFits core print tgt lines) s → ∀ line ∈ lines, line.eof = false) := by
  rw [Closes, body, wp_bind]
  cases hfails : s.apiFails s.apiCalls with
  | true =>
      refine iff_of_true ?_ fun hstate => absurd hstate (by decide)
      exact (wp_luaReplCmd_null hfails).mono (fun _ _ h _ => .inl h) fun _ _ h => h
  | false =>
      have herases : Erases (luaReplCmd tgt core libs print lines)
          (LuaZephyr.luaReplCmd tgt core libs print lines) := erases_luaReplCmd lines
      have hsurvives := herases.wp_iff (s := ⟨s, []⟩) |>.mpr
        ((wp_luaReplCmd tgt s lines).and (wp_luaReplCmd_panics lines s))
      have hrun := (wp_luaReplCmd_state hfails).and hsurvives
      obtain ⟨r, t, hok, ⟨hopen, hr⟩, hfits, -⟩ | ⟨e, t, herror, -, hdecides, le, rfl⟩ :=
        wp_iff.mp hrun
      · have hwaits : r = .waiting ↔ ∀ line ∈ lines, line.eof = false := by
          rw [hr]
          split
          · rename_i heof
            simpa using heof
          · rename_i heof
            simpa using heof
        rw [wp, hok]
        constructor
        · intro hcloses _ _
          refine hwaits.mp (by_contra fun hreturns => hopen.not_closedOnce (hcloses ?_))
          exact decide_eq_true hreturns
        · intro hnone hreturns
          exact absurd (hwaits.mpr (hnone rfl hfits)) (of_decide_eq_true hreturns)
      · rw [wp, herror]
        exact iff_of_true trivial fun _ hfits => absurd hfits hdecides

end Closing

/-- Every entry point closes the state it got, but for the REPL, which does not when it
returns from a session at all. -/
theorem closes_iff (tgt : Target) (core : LuaCore β) (libs : LuaLibs) (cfg : FsConfig)
    (fs : FileSystem β) (print : ReplPrint β) (entry : EntryPoint β) (s : State β) :
    Closes (Closing.body tgt core libs cfg fs print entry) s ↔
      ∀ lines, entry = .luaReplCmd lines → s.apiFails s.apiCalls = false →
        entry.Fits tgt core libs cfg fs print s → ∀ line ∈ lines, line.eof = false := by
  have hother (h : Closes (Closing.body tgt core libs cfg fs print entry) s)
      (hentry : ∀ lines, entry ≠ .luaReplCmd lines) :
      Closes (Closing.body tgt core libs cfg fs print entry) s ↔
        ∀ lines, entry = .luaReplCmd lines → s.apiFails s.apiCalls = false →
          entry.Fits tgt core libs cfg fs print s → ∀ line ∈ lines, line.eof = false :=
    iff_of_true h fun lines heq => absurd heq (hentry lines)
  cases entry with
  | luaThread setup luaScript =>
      refine hother (wp_bind.mpr ?_) (by rintro _ ⟨⟩)
      refine (Closing.wp_threadBody_closes (fun L => ?_) s).mono (fun _ _ h _ => h) fun _ _ h => h
      exact (Closing.keepsInUse_use _ _).bind fun _ => Closing.keepsInUse_reportError L _
  | luaBytecodeThread setup luaBytecode fileName =>
      refine hother (wp_bind.mpr ?_) (by rintro _ ⟨⟩)
      refine (Closing.wp_threadBody_closes (fun L => ?_) s).mono (fun _ _ h _ => h) fun _ _ h => h
      exact (Closing.keepsInUse_use _ _).bind fun _ => Closing.keepsInUse_reportError L _
  | luaFsThread setup scriptPath =>
      refine hother (wp_bind.mpr ?_) (by rintro _ ⟨⟩)
      refine (Closing.wp_threadBody_closes (fun L => ?_) s).mono (fun _ _ h _ => h) fun _ _ h => h
      refine (Closing.keepsInUse_use _ _).bind fun err =>
        (Closing.keepsInUse_reportStringError L err).bind fun _ => ?_
      split
      · exact Closing.keepsInUse_use _ _
      · exact .pure _
  | cmdRun argv =>
      refine hother (wp_bind.mpr ?_) (by rintro _ ⟨⟩)
      exact (Closing.wp_cmdRun_closes argv s).mono (fun _ _ h _ => h) fun _ _ h => h
  | luaReplCmd lines =>
      rw [Closing.closes_luaReplCmd_iff]
      constructor
      · rintro h _ ⟨⟩
        exact h
      · exact fun h => h lines rfl

/-- Ctrl+D as the first key leaves the state open. -/
theorem not_closes_ctrlD : ¬ Closes (Closing.body Target.sample silentCore .all
    ⟨ascii "/lfs", 1024⟩ (.holding []) .silent (.luaReplCmd [⟨[], true⟩])) (.idle 0 ()) := by
  obtain ⟨t, hrun⟩ := run_of_outcome (show outcome (Closing.body Target.sample silentCore .all
      ⟨ascii "/lfs", 1024⟩ (.holding []) .silent (.luaReplCmd [⟨[], true⟩])) (.idle 0 ()) =
    (some true, [.opened, .used]) by decide +kernel)
  rw [Closes, wp, hrun]
  exact fun hcloses => InUse.not_closedOnce ⟨1, rfl⟩ (hcloses rfl)

end LuaZephyr
