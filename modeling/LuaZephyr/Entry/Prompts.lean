import LuaZephyr.Entry.Repl
import LuaZephyr.Library.Recording

/-!
# What the REPL does between its prompts

The REPL is followed with what it compiles and executes, and with the stack at each prompt.
A line is first compiled behind "return ", which the buffer has room for, and as it is only if
that fails; what compiles is executed once; and the next prompt finds the stack empty.

Scripts are run by the parameter `LuaCore`, and their output is left out. Memory does not run
out here; what a line does then is in `Entry.Repl`. The line comes from the editor of
`Shell.Readline`, at most as long as its buffer.
-/

namespace LuaZephyr

open Outcome Recording

variable {β : Type}

/-- The stack at a prompt, a text that was compiled with the chunk it gave if it did, and the
chunk that is executed. -/
inductive ReplEvent where
  | prompt (stack : List Value)
  | compiled (text : Bytes) (chunk : Option Value)
  | executed (chunk : Option Value)
  deriving DecidableEq, Repr

abbrev ReplM (β : Type) := RecordM Breakdown (State β) ReplEvent

/-- A call of the API of which nothing is noted. -/
def quietly {α : Type} (m : LuaM β α) : ReplM β α := lift (onState .state m)

variable (tgt : Target) (core : LuaCore β) (print : ReplPrint β) (lineSize : Nat)

def loadstringNoted (s : Bytes) : ReplM β LuaStatus := do
  let status ← quietly (luaLLoadstring core s)
  record fun t => .compiled (CString.text s) (if status = .ok then t.stack.head? else none)
  return status

def pcallNoted : ReplM β LuaStatus := do
  record fun t => .executed t.stack.head?
  quietly (luaPcall core)

/-- The body of the loop with `input_line` read; `line_with_ret` has room for the line and
`sizeof("return ")`. -/
def replLineNoted (inputLine : Bytes) : ReplM β Unit := do
  let lineWithRet := (CString.snprintf (lineSize + 8) (ascii "return " ++ CString.text inputLine)).1
  let status ← loadstringNoted core lineWithRet
  let status ← (do
    if status ≠ .ok then
      quietly (luaPop 1)
      loadstringNoted core inputLine
    else return status)
  if status = .ok then
    let status ← pcallNoted core
    if status = .ok then
      quietly (luaReplPrint tgt print)
    else
      let _ ← quietly (luaTostring tgt (-1))
      quietly (luaPop 1)
  else
    let _ ← quietly (luaTostring tgt (-1))
    quietly (luaPop 1)

def replLoopNoted : List ShellLine → ReplM β CommandEnd
  | [] => do
      record fun t => .prompt t.stack
      return .waiting
  | line :: lines => do
      record fun t => .prompt t.stack
      if line.eof then return .returned 0
      else
        replLineNoted tgt core print lineSize line.text
        replLoopNoted lines

/-- `lua_repl_cmd`. -/
def luaReplCmdNoted (libs : LuaLibs) (lines : List ShellLine) : ReplM β CommandEnd := do
  lift sysHeapInit
  let L ← lift luaNewstate
  if L = .null then return .returned Errno.enomem.code
  lift (onState L (luazOpenlibs libs))
  replLoopNoted tgt core print lineSize lines

section Erasure

variable {tgt core print lineSize}

theorem onState_bind {α γ : Type} (L : StatePtr) (m : LuaM β α) (f : α → LuaM β γ) :
    onState L (m >>= f) = onState L m >>= fun a => onState L (f a) := by
  funext s
  cases L with
  | null => rfl
  | state =>
      simp only [onState, bind, EStateM.bind]
      cases m s with
      | ok a t => rfl
      | error e t => cases e <;> rfl

theorem erases_quietly {α : Type} (m : LuaM β α) :
    Erases (quietly m : ReplM β α) (onState .state m) := erases_lift _

theorem erases_loadstringNoted (s : Bytes) :
    Erases (loadstringNoted core s) (onState .state (luaLLoadstring core s)) := by
  have hpure : onState .state (luaLLoadstring core s) =
      onState .state (luaLLoadstring core s) >>= pure := (bind_pure _).symm
  rw [hpure]
  exact (erases_quietly _).bind fun status => .record_bind (erases_pure status)

theorem erases_pcallNoted : Erases (pcallNoted core) (onState .state (luaPcall core)) :=
  .record_bind (erases_quietly _)

/-- The line is never cut. -/
theorem lineWithRet_eq {inputLine : Bytes} (h : inputLine.length ≤ lineSize - 1) :
    (CString.snprintf (lineSize + 8) (ascii "return " ++ CString.text inputLine)).1 =
      ascii "return " ++ CString.text inputLine := by
  have htext := CString.length_text_le inputLine
  have hreturn : (ascii "return ").length = 7 := by decide
  refine CString.snprintf_fits ?_
  rw [List.length_append, hreturn]
  omega

theorem text_return (inputLine : Bytes) :
    CString.text (ascii "return " ++ CString.text inputLine) =
      ascii "return " ++ CString.text inputLine := by
  rw [CString.text_append (by decide), CString.text_text]

theorem erases_dropError (tgt : Target) :
    Erases (do let _ ← quietly (luaTostring tgt (-1)); quietly (luaPop 1) : ReplM β Unit)
      (onState .state (do let _ ← luaTostring tgt (-1); luaPop 1)) := by
  rw [onState_bind]
  exact (erases_quietly _).bind fun _ => erases_quietly _

theorem erases_replLineNoted {inputLine : Bytes} (h : inputLine.length ≤ lineSize - 1) :
    Erases (replLineNoted tgt core print lineSize inputLine)
      (onState .state (replLine tgt core print inputLine)) := by
  have htext : CString.text (ascii "return " ++ inputLine) =
      ascii "return " ++ CString.text inputLine := CString.text_append (by decide) _
  have hload : luaLLoadstring core (ascii "return " ++ CString.text inputLine) =
      luaLLoadstring core (ascii "return " ++ inputLine) := by
    rw [luaLLoadstring, luaLLoadstring, text_return, htext]
  rw [replLineNoted, lineWithRet_eq h, replLine, replLoad, bind_assoc, onState_bind, ← hload]
  refine (erases_loadstringNoted _).bind fun status => ?_
  rw [onState_bind]
  refine Erases.bind ?_ fun status => ?_
  · split
    · rw [onState_bind]
      exact (erases_quietly _).bind fun _ => erases_loadstringNoted inputLine
    · exact erases_pure status
  · split
    · rw [onState_bind]
      refine erases_pcallNoted.bind fun status => ?_
      split
      · exact erases_quietly _
      · exact erases_dropError tgt
    · exact erases_dropError tgt

/-- The loop with its notes is the loop of the REPL. -/
theorem erases_replLoopNoted {lines : List ShellLine}
    (h : ∀ line ∈ lines, line.text.length ≤ lineSize - 1) :
    Erases (replLoopNoted tgt core print lineSize lines)
      (replLoop tgt core print .state lines) := by
  induction lines with
  | nil => exact .record_bind (erases_pure _)
  | cons line lines ih =>
      obtain ⟨hline, hlines⟩ := List.forall_mem_cons.mp h
      rw [replLoopNoted, replLoop]
      refine .record_bind ?_
      split
      · exact erases_pure _
      · exact (erases_replLineNoted hline).bind fun _ => ih hlines

/-- The command with its notes is the command. -/
theorem erases_luaReplCmdNoted (libs : LuaLibs) {lines : List ShellLine}
    (h : ∀ line ∈ lines, line.text.length ≤ lineSize - 1) :
    Erases (luaReplCmdNoted tgt core print lineSize libs lines)
      (luaReplCmd tgt core libs print lines) := by
  refine (erases_lift _).bind fun _ => (erases_lift _).bind fun L => ?_
  cases L with
  | null => exact erases_pure _
  | state => exact (erases_lift _).bind fun _ => erases_replLoopNoted h

end Erasure

/-- What is noted for a line: it compiles as an expression, or only as it is, and runs once, or
it does not compile. -/
inductive LineEvents (expression statement : Bytes) : List ReplEvent → Prop
  | expression (chunk : Value) :
      LineEvents expression statement [.compiled expression (some chunk), .executed (some chunk)]
  | statement (chunk : Value) :
      LineEvents expression statement
        [.compiled expression none, .compiled statement (some chunk), .executed (some chunk)]
  | rejected : LineEvents expression statement
      [.compiled expression none, .compiled statement none]

/-- What is noted in a session over these lines, each compiled as `text` gives it: at every
prompt the stack is empty. It ends at a prompt, or with the system going down in a line. -/
inductive SessionEvents (text : Bytes → Bytes) : Bool → List ShellLine → List ReplEvent → Prop
  | waiting : SessionEvents text false [] [.prompt []]
  | exit {line : ShellLine} {lines : List ShellLine} (heof : line.eof = true) :
      SessionEvents text false (line :: lines) [.prompt []]
  | entered {line : ShellLine} {lines : List ShellLine} {down : Bool} {es rest : List ReplEvent}
      (heof : line.eof = false)
      (hline : LineEvents (ascii "return " ++ text line.text) (text line.text) es)
      (hrest : SessionEvents text down lines rest) :
      SessionEvents text down (line :: lines) (.prompt [] :: (es ++ rest))
  | down {line : ShellLine} {lines : List ShellLine} {es : List ReplEvent}
      (heof : line.eof = false)
      (hline : LineEvents (ascii "return " ++ text line.text) (text line.text) es) :
      SessionEvents text true (line :: lines) (.prompt [] :: es)

section Session

variable {tgt core print lineSize} {r : Recorded (State β) ReplEvent}

/-- An error of a call outside of a protected one brings the system down. -/
theorem wp_onState_panics {α : Type} {m : LuaM β α} {s : State β} {Q : α → State β → Prop}
    {E : Breakdown → State β → Prop}
    (h : wp m Q (fun e t => ∃ le, e = .error le ∧ E (.panic le) t) s) :
    wp (onState .state m) Q E s := by
  obtain ⟨a, t, hrun, hQ⟩ | ⟨e, t, hrun, le, rfl, hE⟩ := wp_iff.mp h
  · exact wp_of_ok (by rw [onState, hrun]) hQ
  · exact wp_iff.mpr (.inr ⟨.panic le, t, by rw [onState, hrun], hE⟩)

theorem wp_quietly {α : Type} {m : LuaM β α} {Q : α → Recorded (State β) ReplEvent → Prop}
    {E : Breakdown → Recorded (State β) ReplEvent → Prop}
    (h : wp m (fun a t => Q a ⟨t, r.events⟩)
      (fun e t => ∃ le, e = .error le ∧ E (.panic le) ⟨t, r.events⟩) r.state) :
    wp (quietly m) Q E r :=
  wp_lift.mpr (wp_onState_panics h)

/-- Loading leaves a chunk on the stack, or an error object. -/
theorem wp_luaLLoadstring_stack (s : State β) (text : Bytes) :
    wp (luaLLoadstring core text)
      (fun status t => (status = .ok ∧ ∃ f, t.stack = .other f :: s.stack) ∨
        (status ≠ .ok ∧ ∃ v, t.stack = v :: s.stack)) (fun _ _ => False) s := by
  refine wp_luaLLoadbuffer.mpr ?_
  split
  · exact .inr ⟨LuaStatus.noConfusion, _, rfl⟩
  · split
    · exact .inr ⟨LuaStatus.noConfusion, _, rfl⟩
    · exact .inl ⟨rfl, _, rfl⟩

theorem wp_loadstringNoted {E : Breakdown → Recorded (State β) ReplEvent → Prop}
    (hstack : r.state.stack = []) (text : Bytes) :
    wp (loadstringNoted core text)
      (fun status t =>
        (status = .ok ∧ ∃ f, t.state.stack = [.other f] ∧
          t.events = r.events ++ [.compiled (CString.text text) (some (.other f))]) ∨
        (status ≠ .ok ∧ (∃ v, t.state.stack = [v]) ∧
          t.events = r.events ++ [.compiled (CString.text text) none])) E r := by
  refine wp_bind.mpr (wp_quietly ((wp_luaLLoadstring_stack r.state text).mono ?_ ?_))
  · rintro status t (⟨rfl, f, ht⟩ | ⟨hstatus, v, ht⟩)
    · rw [hstack] at ht
      refine wp_bind.mpr (.inl ⟨rfl, f, ht, ?_⟩)
      simp [ht]
    · rw [hstack] at ht
      refine wp_bind.mpr (.inr ⟨hstatus, ⟨v, ht⟩, ?_⟩)
      simp [hstatus]
  · exact fun _ _ h => h.elim

/-- The error object is dropped, also when its text takes memory that is not there. -/
theorem wp_dropError_stack (tgt : Target) {s : State β} {v : Value} (hstack : s.stack = [v]) :
    wp (do let _ ← luaTostring tgt (-1); luaPop 1 : LuaM β Unit) (fun _ t => t.stack = [])
      (fun e _ => ∃ le, e = .error le) s := by
  refine wp_bind.mpr ((wp_luaTostring_top hstack).mpr ?_)
  split
  · rw [wp_luaPop, hstack]
    rfl
  · split
    · refine wp_allocating.mpr ?_
      split
      · exact ⟨_, rfl⟩
      · exact wp_luaPop.mpr rfl
    · rw [wp_luaPop, hstack]
      rfl

/-- Printing takes all results off the stack, whatever `print` does. -/
theorem wp_luaReplPrint_stack (tgt : Target) (s : State β) :
    wp (luaReplPrint tgt print) (fun _ t => t.stack = []) (fun e _ => ∃ le, e = .error le) s := by
  refine wp_bind.mpr (wp_luaGettop.mpr ?_)
  split
  · refine wp_bind.mpr (wp_allocating.mpr ?_)
    split
    · exact ⟨_, rfl⟩
    · refine wp_bind.mpr (wp_bind.mpr (wp_allocating.mpr ?_))
      split
      · exact ⟨_, rfl⟩
      · refine wp_bind.mpr (wp_get.mpr (wp_bind.mpr (wp_set.mpr ?_)))
        split
        · rename_i v _
          have hpushed : v :: s.stack = v :: s.stack.reverse.reverse := by
            rw [List.reverse_reverse]
          refine wp_bind.mpr ((wp_luaPcallPrint hpushed).mpr ?_)
          split
          · exact rfl
          · rename_i e heap b _
            rw [if_pos e.status_ne_ok]
            exact wp_dropError_stack tgt rfl
        · exact ⟨_, rfl⟩
  · rename_i hnone
    exact List.eq_nil_of_length_eq_zero (Nat.le_zero.mp (Nat.not_lt.mp hnone))

/-- The system goes down with these events, or the stack is empty after them. -/
def EmptyAfter (events : List ReplEvent) : Recorded (State β) ReplEvent → Prop :=
  fun t => t.state.stack = [] ∧ t.events = events

def DownAfter (events : List ReplEvent) : Breakdown → Recorded (State β) ReplEvent → Prop :=
  fun e t => (∃ le, e = .panic le) ∧ t.events = events

theorem wp_dropErrorNoted (tgt : Target) {v : Value} (hstack : r.state.stack = [v]) :
    wp (do let _ ← quietly (luaTostring tgt (-1)); quietly (luaPop 1) : ReplM β Unit)
      (fun _ t => EmptyAfter r.events t) (DownAfter r.events) r := by
  have hdrop := wp_dropError_stack tgt hstack
  refine wp_bind.mpr (wp_quietly ((wp_bind.mp hdrop).mono ?_ ?_))
  · intro text t ht
    refine wp_quietly (ht.mono (fun _ _ hempty => ⟨hempty, rfl⟩) ?_)
    rintro e u ⟨le, rfl⟩
    exact ⟨le, rfl, ⟨le, rfl⟩, rfl⟩
  · rintro e u ⟨le, rfl⟩
    exact ⟨le, rfl, ⟨le, rfl⟩, rfl⟩

variable (core print) in
/-- A chunk on the stack is executed once, and its results are printed or its error is
reported. -/
theorem wp_executeNoted (tgt : Target) {f : Nat} (hstack : r.state.stack = [.other f]) :
    wp (do
        let status ← pcallNoted core
        if status = .ok then quietly (luaReplPrint tgt print)
        else
          let _ ← quietly (luaTostring tgt (-1))
          quietly (luaPop 1))
      (fun _ t => EmptyAfter (r.events ++ [.executed (some (.other f))]) t)
      (DownAfter (r.events ++ [.executed (some (.other f))])) r := by
  have hhead : r.state.stack.head? = some (.other f) := by rw [hstack]; rfl
  rw [← hhead]
  refine wp_bind.mpr (wp_bind.mpr (wp_record.mpr (wp_quietly ((wp_luaPcall hstack).mpr ?_))))
  split
  · rw [if_pos rfl]
    refine wp_quietly ((wp_luaReplPrint_stack tgt _).mono (fun _ _ hempty => ⟨hempty, rfl⟩) ?_)
    rintro e u ⟨le, rfl⟩
    exact ⟨le, rfl, ⟨le, rfl⟩, rfl⟩
  · rename_i e heap b _
    rw [if_neg e.status_ne_ok]
    exact wp_dropErrorNoted tgt rfl

variable (core print) in
/-- A line leaves the stack empty or brings the system down, with the events of a line. -/
theorem wp_replLineNoted (tgt : Target) (hstack : r.state.stack = []) {inputLine : Bytes}
    (hline : inputLine.length ≤ lineSize - 1) :
    wp (replLineNoted tgt core print lineSize inputLine)
      (fun _ t => ∃ es, LineEvents (ascii "return " ++ CString.text inputLine)
        (CString.text inputLine) es ∧ EmptyAfter (r.events ++ es) t)
      (fun e t => ∃ es, LineEvents (ascii "return " ++ CString.text inputLine)
        (CString.text inputLine) es ∧ DownAfter (r.events ++ es) e t) r := by
  rw [replLineNoted, lineWithRet_eq hline]
  refine wp_bind.mpr ((wp_loadstringNoted hstack _).mono ?_ fun _ _ h => h)
  rw [text_return]
  rintro status t (⟨rfl, f, ht, hevents⟩ | ⟨hstatus, ⟨v, ht⟩, hevents⟩)
  · rw [if_neg (by simp)]
    refine wp_bind.mpr (wp_pure.mpr ?_)
    rw [if_pos rfl]
    have hrun := wp_executeNoted core print tgt ht
    rw [hevents, List.append_assoc] at hrun
    refine hrun.mono (fun _ _ h => ⟨_, .expression (.other f), h⟩) ?_
    exact fun _ _ h => ⟨_, .expression (.other f), h⟩
  · rw [if_pos hstatus]
    refine wp_bind.mpr (wp_bind.mpr (wp_quietly (wp_luaPop.mpr ?_)))
    refine (wp_loadstringNoted (by rw [ht]; rfl) inputLine).mono ?_ fun _ _ h => h
    rintro status u (⟨rfl, f, hu, hevents'⟩ | ⟨hstatus', ⟨w, hu⟩, hevents'⟩)
    · rw [if_pos rfl]
      have hrun := wp_executeNoted core print tgt hu
      rw [hevents', hevents, List.append_assoc, List.append_assoc] at hrun
      refine hrun.mono (fun _ _ h => ⟨_, .statement (.other f), h⟩) ?_
      exact fun _ _ h => ⟨_, .statement (.other f), h⟩
    · rw [if_neg hstatus']
      have hdrop := wp_dropErrorNoted tgt hu
      rw [hevents', hevents, List.append_assoc] at hdrop
      exact hdrop.mono (fun _ _ h => ⟨_, .rejected, h⟩) fun _ _ h => ⟨_, .rejected, h⟩

/-- By induction on the lines; every line starts with an empty stack. -/
theorem wp_replLoopNoted (tgt : Target) (hstack : r.state.stack = []) {lines : List ShellLine}
    (hlines : ∀ line ∈ lines, line.text.length ≤ lineSize - 1) :
    wp (replLoopNoted tgt core print lineSize lines)
      (fun _ t => ∃ es, SessionEvents CString.text false lines es ∧ t.events = r.events ++ es)
      (fun e t => ∃ es, SessionEvents CString.text true lines es ∧ DownAfter (r.events ++ es) e t)
      r := by
  induction lines generalizing r with
  | nil =>
      refine wp_bind.mpr (wp_record.mpr (wp_pure.mpr ⟨_, .waiting, ?_⟩))
      rw [hstack]
  | cons line lines ih =>
      obtain ⟨hline, hlines⟩ := List.forall_mem_cons.mp hlines
      rw [replLoopNoted]
      refine wp_bind.mpr (wp_record.mpr ?_)
      rw [hstack]
      split
      · rename_i heof
        exact wp_pure.mpr ⟨_, .exit heof, rfl⟩
      · rename_i heof
        rw [Bool.not_eq_true] at heof
        have hrun := wp_replLineNoted core print
          (r := ⟨r.state, r.events ++ [.prompt []]⟩) tgt hstack hline
        refine wp_bind.mpr (hrun.mono ?_ ?_)
        · rintro ⟨⟩ t ⟨es, hes, hempty, hevents⟩
          have hevents' : t.events = r.events ++ (.prompt [] :: es) := by
            rw [hevents, List.append_assoc]
            rfl
          refine (ih hempty hlines).mono ?_ ?_
          · rintro e u ⟨rest, hrest, hu⟩
            refine ⟨_, .entered heof hes hrest, ?_⟩
            rw [hu, hevents', List.append_assoc, List.cons_append]
          · rintro e u ⟨rest, hrest, hdown, hu⟩
            refine ⟨_, .entered heof hes hrest, hdown, ?_⟩
            rw [hu, hevents', List.append_assoc, List.cons_append]
        · rintro e t ⟨es, hes, hdown, hevents⟩
          refine ⟨_, .down heof hes, hdown, ?_⟩
          rw [hevents, List.append_assoc]
          rfl

end Session

/-- The session ends at a prompt, without memory for a Lua state, or with the system going
down, and goes as it should between its prompts. -/
structure ReplKeeps (text : Bytes → Bytes) (libs : LuaLibs) (lines : List ShellLine)
    (s : State β) : Prop where
  run : wp (luaReplCmdNoted tgt core print lineSize libs lines)
    (fun e t => (e = .returned Errno.enomem.code ∧ t.events = []) ∨
      SessionEvents text false lines t.events)
    (fun e t => (∃ le, e = .panic le) ∧ (t.events = [] ∨ SessionEvents text true lines t.events))
    ⟨s, []⟩

variable {tgt core print lineSize} in
theorem ReplKeeps.of_run {text : Bytes → Bytes} {libs : LuaLibs} {lines : List ShellLine}
    {s t : State β} {e : CommandEnd} {es : List ReplEvent}
    (h : ReplKeeps tgt core print lineSize text libs lines s)
    (hrun : luaReplCmdNoted tgt core print lineSize libs lines ⟨s, []⟩ = .ok e ⟨t, es⟩) :
    (e = .returned Errno.enomem.code ∧ es = []) ∨ SessionEvents text false lines es := by
  have hend := wp.of_run_ok h.run hrun
  exact hend

/-- The lines are compiled up to a NUL: over every sequence of lines the REPL does with each what it
is to do with the text of the line. -/
theorem replKeeps_text (libs : LuaLibs) {lines : List ShellLine}
    (hlines : ∀ line ∈ lines, line.text.length ≤ lineSize - 1) (s : State β) :
    ReplKeeps tgt core print lineSize CString.text libs lines s := by
  refine ⟨wp_bind.mpr (wp_lift.mpr (wp_modify.mpr (wp_bind.mpr (wp_lift.mpr ?_))))⟩
  refine wp_luaNewstate.mpr ?_
  split
  · exact .inl ⟨rfl, rfl⟩
  · refine wp_bind.mpr (wp_quietly ((luazOpenlibs_takes libs _ rfl).mono ?_ ?_))
    · rintro ⟨⟩ t ⟨-, rfl⟩
      refine (wp_replLoopNoted tgt rfl hlines).mono ?_ ?_
      · rintro e t ⟨es, hes, hevents⟩
        obtain rfl : t.events = es := hevents
        exact .inr hes
      · rintro e t ⟨es, hes, hdown, hevents⟩
        obtain rfl : t.events = es := hevents
        exact ⟨hdown, .inr hes⟩
    · rintro e t ⟨rfl, -⟩
      exact ⟨_, rfl, ⟨_, rfl⟩, .inl rfl⟩

/-- After the first prompt comes the line behind "return ". -/
theorem SessionEvents.second {text : Bytes → Bytes} {down : Bool} {line : ShellLine}
    {lines : List ShellLine} {first second : ReplEvent} {es : List ReplEvent}
    (h : SessionEvents text down (line :: lines) (first :: second :: es)) :
    ∃ chunk, second = .compiled (ascii "return " ++ text line.text) chunk := by
  have hline {es' : List ReplEvent} {rest : List ReplEvent}
      (hes : LineEvents (ascii "return " ++ text line.text) (text line.text) es')
      (heq : es' ++ rest = second :: es) :
      ∃ chunk, second = .compiled (ascii "return " ++ text line.text) chunk := by
    cases hes with
    | expression chunk => exact ⟨_, (List.cons.inj heq).1.symm⟩
    | statement chunk => exact ⟨_, (List.cons.inj heq).1.symm⟩
    | rejected => exact ⟨_, (List.cons.inj heq).1.symm⟩
  generalize hevents : first :: second :: es = events at h
  cases h with
  | exit heof => exact absurd (congrArg List.length hevents) (by simp)
  | entered heof hes hrest => exact hline hes (List.cons.inj hevents).2.symm
  | down heof hes =>
      exact hline hes (by rw [List.append_nil]; exact (List.cons.inj hevents).2.symm)

/-- Every text compiles and returns nothing. -/
def silentCore : LuaCore Unit := ⟨fun _ _ => .ok 0, fun _ heap b => (.ok [], heap, b)⟩

/-- There is no `print`. -/
def noPrint : ReplPrint Unit :=
  ⟨fun heap b => (.ok .nil, heap, b), fun _ _ heap b =>
    (some (.run (.string (ascii "attempt to call a nil value"))), heap, b)⟩

def noLibs : LuaLibs := ⟨false, false, false, false, false, false, false⟩

theorem replKeeps_line : ReplKeeps Target.sample silentCore noPrint 256 CString.text noLibs
    [⟨ascii "x = 1", false⟩] (.idle 0 ()) :=
  replKeeps_text Target.sample silentCore noPrint 256 noLibs
    (List.forall_mem_singleton.mpr (by decide)) (.idle 0 ())

/-- Of a line with a NUL only the beginning is compiled. -/
theorem not_replKeeps_nul : ¬ ReplKeeps Target.sample silentCore noPrint 256 id noLibs
    [⟨ascii "x\x00y", false⟩] (.idle 0 ()) := by
  intro hkeeps
  obtain ⟨t, hrun⟩ := run_of_outcome (show outcome (luaReplCmdNoted Target.sample silentCore noPrint
      256 noLibs [⟨ascii "x\x00y", false⟩]) (.idle 0 ()) =
    (some .waiting, [.prompt [], .compiled (ascii "return x") (some (.other 0)),
      .executed (some (.other 0)), .prompt []]) by decide +kernel)
  have hevents := hkeeps.of_run hrun
  clear hrun hkeeps
  obtain ⟨hend, -⟩ | hsession := hevents
  · cases hend
  · obtain ⟨chunk, hsecond⟩ := hsession.second
    exact absurd (ReplEvent.compiled.inj hsecond).1 (by decide)

end LuaZephyr
