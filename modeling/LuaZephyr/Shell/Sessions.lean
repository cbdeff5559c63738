import LuaZephyr.Library.Programs
import LuaZephyr.Lua.Value

/-!
# Sessions of the shell commands

Every shell instance runs its commands one after another on its own thread. `lua` and
`lua_fs run` each create their Lua state on a static heap, which all instances share, as
they share the input line of the REPL. A session is followed call by call, so that those of
different instances interleave.

The heap and the line are shared without a lock, which is what the statements are about. What a
session computes is left out: it begins, uses the two, and ends. A shell instance that is
removed in the middle of a command is not modelled.
-/

namespace LuaZephyr

open Programs Runs

/-- `self.lua_heap` and `run_heap`. -/
inductive ShellHeap where
  | luaHeap
  | runHeap
  deriving DecidableEq, Repr

/-- The commands `lua` and `lua_fs run`. -/
inductive ShellCommand where
  | lua
  | run
  deriving DecidableEq, Repr

/-- The call `lua_repl_cmd` makes next. Within `shell_getline` it clears the line or reads a
key at an index. -/
inductive ReplStage where
  | heapInit
  | newstate
  | openlibs
  | clearLine
  | readKey (i : Nat)
  | evaluate
  deriving DecidableEq, Repr

/-- The call `cmd_run` makes next. -/
inductive RunStage where
  | heapInit
  | newstate
  | openlibs
  | dofile
  | close
  deriving DecidableEq, Repr

inductive Session where
  | lua (stage : ReplStage)
  | run (stage : RunStage)
  deriving DecidableEq, Repr

def ShellCommand.begin : ShellCommand → Session
  | .lua => .lua .heapInit
  | .run => .run .heapInit

/-- What a call does to the static data. -/
inductive SessionAction where
  | initHeap (heap : ShellHeap)
  | openState (heap : ShellHeap)
  | closeState (heap : ShellHeap)
  | writeLine
  | other
  deriving DecidableEq, Repr

/-- Whether `lua_newstate` finds memory, the key typed, and whether the transport took its
echo. -/
structure SessionChoice where
  memory : Bool
  key : UInt8
  echoed : Bool
  deriving DecidableEq, Repr

/-- The loop of `shell_getline` goes on while there is room. -/
def getlineLoop (lineSize i : Nat) : ReplStage :=
  if i < lineSize - 1 then .readKey i else .evaluate

/-- The next call of `lua_repl_cmd`; none when the command returns. Taking back a character
of an empty line makes the index wrap around, which ends the line, and stores in front of
it. -/
def luaReplCmdNext (lineSize : Nat) (choice : SessionChoice) :
    ReplStage → SessionAction × Option ReplStage
  | .heapInit => (.initHeap .luaHeap, some .newstate)
  | .newstate => if choice.memory then (.openState .luaHeap, some .openlibs) else (.other, none)
  | .openlibs => (.other, some .clearLine)
  | .clearLine => (.writeLine, some (getlineLoop lineSize 0))
  | .readKey i =>
      if choice.key = 0x08 ∨ choice.key = 0x7F then
        if i = 0 then (.other, some .evaluate)
        else (.writeLine, some (getlineLoop lineSize (i - 1)))
      else if choice.key = 0x04 ∧ choice.echoed then (.other, none)
      else if choice.key = 0x0A ∨ choice.key = 0x0D then (.other, some .evaluate)
      else (.writeLine, some (getlineLoop lineSize (i + 1)))
  | .evaluate => (.other, some .clearLine)

/-- The next call of `cmd_run`. -/
def cmdRunNext (choice : SessionChoice) : RunStage → SessionAction × Option RunStage
  | .heapInit => (.initHeap .runHeap, some .newstate)
  | .newstate => if choice.memory then (.openState .runHeap, some .openlibs) else (.other, none)
  | .openlibs => (.other, some .dofile)
  | .dofile => (.other, some .close)
  | .close => (.closeState .runHeap, none)

def Session.next (lineSize : Nat) (choice : SessionChoice) :
    Session → SessionAction × Option Session
  | .lua stage =>
      ((luaReplCmdNext lineSize choice stage).1,
        (luaReplCmdNext lineSize choice stage).2.map .lua)
  | .run stage => ((cmdRunNext choice stage).1, (cmdRunNext choice stage).2.map .run)

def Session.heap : Session → ShellHeap
  | .lua _ => .luaHeap
  | .run _ => .runHeap

/-- The session has a Lua state. -/
def Session.opened : Session → Bool
  | .lua .heapInit => false
  | .lua .newstate => false
  | .run .heapInit => false
  | .run .newstate => false
  | _ => true

/-- The sessions of the shell threads and, for each heap, whose Lua states on it were
created and not closed. -/
structure Shells where
  sessions : Nat → Option Session
  openStates : ShellHeap → List Nat

/-- The open states after a call of a thread. -/
def SessionAction.apply (thread : Nat) (openStates : ShellHeap → List Nat) :
    SessionAction → ShellHeap → List Nat
  | .openState heap => Function.update openStates heap (thread :: openStates heap)
  | .closeState heap => Function.update openStates heap ((openStates heap).erase thread)
  | .initHeap _ => openStates
  | .writeLine => openStates
  | .other => openStates

namespace Shells

abbrev ShellMove := Move ShellCommand SessionChoice

/-- Nothing was started yet. -/
def initial : Shells := ⟨fun _ => none, fun _ => []⟩

variable (lineSize : Nat)

/-- A thread starts a command after its last one returned, or makes its next call. -/
def step (s : Shells) : ShellMove → Option (Nat × SessionAction) × Shells
  | .start thread command =>
      match s.sessions thread with
      | none => (none, { s with
          sessions := Function.update s.sessions thread (some command.begin) })
      | some _ => (none, s)
  | .advance thread choice =>
      match s.sessions thread with
      | none => (none, s)
      | some session =>
          (some (thread, (session.next lineSize choice).1),
            ⟨Function.update s.sessions thread (session.next lineSize choice).2,
              (session.next lineSize choice).1.apply thread s.openStates⟩)

/-- A heap is set up only without an open state on it, and the line is written only by the
one session that uses it. -/
def Allows (s : Shells) (thread : Nat) : SessionAction → Prop
  | .initHeap heap => s.openStates heap = []
  | .writeLine => ∀ other stage, s.sessions other = some (.lua stage) → other = thread
  | _ => True

/-- The move does nothing that is not allowed, and leaves at most one open state on each
heap. -/
def Exclusive (s : Shells) (move : ShellMove) : Prop :=
  (∀ thread action, (s.step lineSize move).1 = some (thread, action) → s.Allows thread action) ∧
    ∀ heap, ((s.step lineSize move).2.openStates heap).length ≤ 1

/-- `lua` is started while no session of it is in progress and none before it left a Lua
state behind; `lua_fs run` while no session of it is in progress. -/
def StartsAlone (s : Shells) : ShellMove → Prop
  | .start _ .lua =>
      s.openStates .luaHeap = [] ∧ ∀ other stage, s.sessions other ≠ some (.lua stage)
  | .start _ .run => ∀ other stage, s.sessions other ≠ some (.run stage)
  | .advance _ _ => True

/-- The open states on the heap of a session, as its position tells. -/
def ownState (thread : Nat) (session : Session) : List Nat :=
  if session.opened then [thread] else []

/-- At most one session uses a heap, its state is the one open there, and `lua_fs run`
leaves none behind. -/
structure OnePerHeap (s : Shells) : Prop where
  one : ∀ i j a b, s.sessions i = some a → s.sessions j = some b → a.heap = b.heap → i = j
  own : ∀ i a, s.sessions i = some a → s.openStates a.heap = ownState i a
  atMost : ∀ heap, (s.openStates heap).length ≤ 1
  runEnds : (∀ i stage, s.sessions i ≠ some (.run stage)) → s.openStates .runHeap = []

theorem initial_onePerHeap : initial.OnePerHeap where
  one := fun _ _ _ _ h => nomatch h
  own := fun _ _ h => nomatch h
  atMost := fun _ => Nat.zero_le 1
  runEnds := fun _ => rfl

theorem ownState_length (thread : Nat) (session : Session) :
    (ownState thread session).length ≤ 1 := by
  rw [ownState]
  split
  · exact Nat.le_refl 1
  · exact Nat.zero_le 1

theorem ownState_begin (thread : Nat) (command : ShellCommand) :
    ownState thread command.begin = [] := by
  cases command with
  | lua => rfl
  | run => rfl

/-- What a call of a session can do, and where the session then stands. -/
inductive NextStep (session : Session) : SessionAction → Option Session → Prop where
  | initHeap {session' : Session} (hclosed : session.opened = false)
      (hclosed' : session'.opened = false) (hheap : session'.heap = session.heap) :
      NextStep session (.initHeap session.heap) (some session')
  | openState {session' : Session} (hclosed : session.opened = false)
      (hopened' : session'.opened = true) (hheap : session'.heap = session.heap) :
      NextStep session (.openState session.heap) (some session')
  | refused (hclosed : session.opened = false) : NextStep session .other none
  | goOn {session' : Session} (hopened : session.opened = true)
      (hopened' : session'.opened = true) (hheap : session'.heap = session.heap) :
      NextStep session .other (some session')
  | writeLine {session' : Session} {stage : ReplStage} (hsession : session = .lua stage)
      (hopened : session.opened = true) (hopened' : session'.opened = true)
      (hheap : session'.heap = session.heap) : NextStep session .writeLine (some session')
  | leave (hopened : session.opened = true) (hheap : session.heap = .luaHeap) :
      NextStep session .other none
  | close (hopened : session.opened = true) (hheap : session.heap = .runHeap) :
      NextStep session (.closeState .runHeap) none

theorem getlineLoop_opened (lineSize i : Nat) :
    (Session.lua (getlineLoop lineSize i)).opened = true := by
  rw [getlineLoop]
  split
  · rfl
  · rfl

theorem next_step (lineSize : Nat) (choice : SessionChoice) (session : Session) :
    NextStep session (session.next lineSize choice).1 (session.next lineSize choice).2 := by
  cases session with
  | run stage =>
      cases stage with
      | heapInit => exact .initHeap rfl rfl rfl
      | newstate =>
          by_cases hmemory : choice.memory = true
          · rw [Session.next, cmdRunNext, if_pos hmemory]
            exact .openState rfl rfl rfl
          · rw [Session.next, cmdRunNext, if_neg hmemory]
            exact .refused rfl
      | openlibs => exact .goOn rfl rfl rfl
      | dofile => exact .goOn rfl rfl rfl
      | close => exact .close rfl rfl
  | lua stage =>
      cases stage with
      | heapInit => exact .initHeap rfl rfl rfl
      | newstate =>
          by_cases hmemory : choice.memory = true
          · rw [Session.next, luaReplCmdNext, if_pos hmemory]
            exact .openState rfl rfl rfl
          · rw [Session.next, luaReplCmdNext, if_neg hmemory]
            exact .refused rfl
      | openlibs => exact .goOn rfl rfl rfl
      | clearLine => exact .writeLine rfl rfl (getlineLoop_opened _ _) rfl
      | readKey i =>
          rw [Session.next, luaReplCmdNext]
          split
          · split
            · exact .goOn rfl rfl rfl
            · exact .writeLine rfl rfl (getlineLoop_opened _ _) rfl
          · split
            · exact .leave rfl rfl
            · split
              · exact .goOn rfl rfl rfl
              · exact .writeLine rfl rfl (getlineLoop_opened _ _) rfl
      | evaluate => exact .goOn rfl rfl rfl

namespace NextStep

variable {session session' : Session} {action : SessionAction} {rest : Option Session}
  {thread : Nat} {openStates : ShellHeap → List Nat}

/-- A session stays on its heap. -/
theorem heap_eq (h : NextStep session action (some session')) : session'.heap = session.heap := by
  cases h with
  | initHeap _ _ hheap => exact hheap
  | openState _ _ hheap => exact hheap
  | goOn _ _ hheap => exact hheap
  | writeLine _ _ _ hheap => exact hheap

/-- It does nothing to the other heap. -/
theorem apply_other (h : NextStep session action rest) {heap : ShellHeap}
    (hheap : heap ≠ session.heap) : action.apply thread openStates heap = openStates heap := by
  cases h with
  | openState => exact Function.update_of_ne hheap _ _
  | close _ hrun => exact Function.update_of_ne (hrun ▸ hheap) _ _
  | _ => rfl

/-- On its own heap its state is open from `lua_newstate` on. -/
theorem apply_own (h : NextStep session action (some session'))
    (hown : openStates session.heap = ownState thread session) :
    action.apply thread openStates session.heap = ownState thread session' := by
  cases h with
  | initHeap hclosed hclosed' =>
      rw [SessionAction.apply, hown, ownState, ownState, hclosed, hclosed']
  | openState hclosed hopened' =>
      rw [SessionAction.apply, Function.update_self, hown, ownState, ownState, hclosed, hopened']
      rfl
  | goOn hopened hopened' => rw [SessionAction.apply, hown, ownState, ownState, hopened, hopened']
  | writeLine _ hopened hopened' =>
      rw [SessionAction.apply, hown, ownState, ownState, hopened, hopened']

/-- A session that returns leaves at most its own state open, and `cmd_run` none. -/
theorem apply_end (h : NextStep session action none)
    (hown : openStates session.heap = ownState thread session) :
    (action.apply thread openStates session.heap).length ≤ 1 ∧
      (session.heap = .runHeap → action.apply thread openStates session.heap = []) := by
  cases h with
  | refused hclosed =>
      rw [SessionAction.apply, hown, ownState, hclosed]
      exact ⟨Nat.zero_le 1, fun _ => rfl⟩
  | leave hopened hheap =>
      rw [SessionAction.apply, hown, hheap]
      exact ⟨ownState_length _ _, nofun⟩
  | close hopened hheap =>
      have hlist : openStates .runHeap = [thread] := by
        rw [← hheap, hown, ownState, hopened]
        rfl
      rw [hheap, SessionAction.apply, Function.update_self, hlist, List.erase_cons_head]
      exact ⟨Nat.zero_le 1, fun _ => rfl⟩

end NextStep

theorem exists_run_of_heap {session : Session} (h : session.heap = .runHeap) :
    ∃ stage, session = .run stage := by
  cases session with
  | lua stage => exact nomatch h
  | run stage => exact ⟨stage, rfl⟩

/-- A thread alone on its heap moves on, or returns. -/
theorem OnePerHeap.update {s : Shells} (h : s.OnePerHeap) {thread : Nat} {rest : Option Session}
    {openStates : ShellHeap → List Nat} (heap : ShellHeap)
    (hbefore : ∀ a, s.sessions thread = some a → a.heap = heap)
    (hothers : ∀ other a, s.sessions other = some a → a.heap = heap → other = thread)
    (hrest : ∀ b, rest = some b → b.heap = heap ∧ openStates heap = ownState thread b)
    (hend : rest = none → (openStates heap).length ≤ 1 ∧ (heap = .runHeap → openStates heap = []))
    (hframe : ∀ heap', heap' ≠ heap → openStates heap' = s.openStates heap') :
    OnePerHeap ⟨Function.update s.sessions thread rest, openStates⟩ := by
  have hcases : ∀ i a, Function.update s.sessions thread rest i = some a →
      (i = thread ∧ rest = some a) ∨ (i ≠ thread ∧ s.sessions i = some a) := by
    intro i a ha
    by_cases hi : i = thread
    · subst hi
      rw [Function.update_self] at ha
      exact .inl ⟨rfl, ha⟩
    · rw [Function.update_of_ne hi] at ha
      exact .inr ⟨hi, ha⟩
  refine ⟨fun i j a b hi hj hab => ?_, fun i a hi => ?_, fun heap' => ?_, fun hnone => ?_⟩
  · obtain ⟨rfl, ha⟩ | ⟨-, ha⟩ := hcases i a hi
    · obtain ⟨rfl, -⟩ | ⟨-, hb⟩ := hcases j b hj
      · rfl
      · exact (hothers j b hb (hab.symm.trans (hrest a ha).1)).symm
    · obtain ⟨rfl, hb⟩ | ⟨-, hb⟩ := hcases j b hj
      · exact hothers i a ha (hab.trans (hrest b hb).1)
      · exact h.one i j a b ha hb hab
  · obtain ⟨rfl, ha⟩ | ⟨hne, ha⟩ := hcases i a hi
    · obtain ⟨hheap, hown⟩ := hrest a ha
      exact hheap ▸ hown
    · have hheap : a.heap ≠ heap := fun heq => hne (hothers i a ha heq)
      exact (hframe a.heap hheap).trans (h.own i a ha)
  · by_cases hheap : heap' = heap
    · subst hheap
      cases hr : rest with
      | none => exact (hend hr).1
      | some b => exact (congrArg List.length (hrest b hr).2).trans_le (ownState_length thread b)
    · exact (congrArg List.length (hframe heap' hheap)).trans_le (h.atMost heap')
  · by_cases hheap : heap = .runHeap
    · cases hr : rest with
      | none => exact hheap ▸ (hend hr).2 hheap
      | some b =>
          obtain ⟨stage, rfl⟩ := exists_run_of_heap ((hrest b hr).1.trans hheap)
          exact absurd ((Function.update_self thread rest s.sessions).trans hr) (hnone thread stage)
    · refine (hframe _ (Ne.symm hheap)).trans (h.runEnds fun i stage hi => ?_)
      by_cases hthread : i = thread
      · subst hthread
        exact hheap (hbefore _ hi).symm
      · exact hnone i stage ((Function.update_of_ne hthread rest s.sessions).trans hi)

variable {lineSize : Nat}

/-- A command that is started alone finds no other session on its heap, and nothing open. -/
theorem OnePerHeap.start {s : Shells} (h : s.OnePerHeap) {thread : Nat} {command : ShellCommand}
    (halone : s.StartsAlone (.start thread command)) :
    s.openStates command.begin.heap = [] ∧
      ∀ other a, s.sessions other = some a → a.heap ≠ command.begin.heap := by
  cases command with
  | lua =>
      refine ⟨halone.1, fun other a ha hheap => ?_⟩
      cases a with
      | lua stage => exact halone.2 other stage ha
      | run stage => exact nomatch hheap
  | run =>
      refine ⟨h.runEnds halone, fun other a ha hheap => ?_⟩
      cases a with
      | lua stage => exact nomatch hheap
      | run stage => exact halone other stage ha

/-- What a session does is allowed while it is alone on its heap. -/
theorem OnePerHeap.allows {s : Shells} (h : s.OnePerHeap) {thread : Nat} {session : Session}
    (hsession : s.sessions thread = some session) {action : SessionAction} {rest : Option Session}
    (hnext : NextStep session action rest) : s.Allows thread action := by
  cases hnext with
  | initHeap hclosed =>
      have hown := h.own thread session hsession
      rw [ownState, hclosed] at hown
      exact hown
  | writeLine hlua =>
      subst hlua
      exact fun other stage hother => h.one other thread _ _ hother hsession rfl
  | _ => trivial

/-- A move that starts commands only alone keeps the heaps to one session each and does
nothing that is not allowed. -/
theorem OnePerHeap.step {s : Shells} (h : s.OnePerHeap) {move : ShellMove}
    (halone : s.StartsAlone move) :
    (s.step lineSize move).2.OnePerHeap ∧
      ∀ thread action, (s.step lineSize move).1 = some (thread, action) →
        s.Allows thread action := by
  cases move with
  | start thread command =>
      rw [Shells.step]
      split
      · rename_i hidle
        refine ⟨h.update command.begin.heap (fun a ha => ?_) (fun other a ha hheap => ?_)
          (fun b hb => ?_) nofun fun _ _ => rfl, nofun⟩
        · exact nomatch hidle.symm.trans ha
        · exact absurd hheap ((h.start halone).2 other a ha)
        · obtain rfl := Option.some.inj hb
          exact ⟨rfl, (h.start halone).1.trans (ownState_begin thread command).symm⟩
      · exact ⟨h, nofun⟩
  | advance thread choice =>
      rw [Shells.step]
      split
      · exact ⟨h, nofun⟩
      · rename_i session hsession
        have hnext := next_step lineSize choice session
        have hown := h.own thread session hsession
        refine ⟨h.update session.heap (fun a ha => ?_) (fun other a ha hheap => ?_)
          (fun b hb => ?_) (fun hnone => ?_) (fun heap' hheap => hnext.apply_other hheap), ?_⟩
        · rw [Option.some.inj (hsession.symm.trans ha)]
        · exact h.one other thread a session ha hsession hheap
        · rw [hb] at hnext
          exact ⟨hnext.heap_eq, hnext.apply_own hown⟩
        · rw [hnone] at hnext
          exact hnext.apply_end hown
        · rintro thread' action haction
          obtain ⟨rfl, rfl⟩ := Prod.mk.inj (Option.some.inj haction)
          exact h.allows hsession hnext

/-- In every run that starts commands only alone, whatever the sessions do and however
their calls interleave, no heap is set up under an open state, each has at most one, and
nobody writes the input line of another session. -/
theorem exclusive_of_startsAlone (lineSize : Nat) (moves : List ShellMove)
    (halone : AllSteps (Shells.step lineSize) StartsAlone initial moves) :
    AllSteps (Shells.step lineSize) (Exclusive lineSize) initial moves := by
  have hstep : ∀ (s : Shells) (move : ShellMove), s.OnePerHeap → s.StartsAlone move →
      (s.step lineSize move).2.OnePerHeap ∧ s.Exclusive lineSize move := by
    intro s move hs hmove
    obtain ⟨hs', hallows⟩ := hs.step hmove
    exact ⟨hs', hallows, hs'.atMost⟩
  exact AllSteps.of_invariant hstep initial_onePerHeap halone

/-- A REPL on one shell while another runs a script. -/
theorem exclusive_of_startsAlone_both :
    AllSteps (Shells.step 256) (Exclusive 256) initial
      ([.start 0 .lua, .start 1 .run] ++ List.replicate 3 (.advance 1 ⟨true, 0x78, true⟩) ++
        List.replicate 6 (.advance 0 ⟨true, 0x78, true⟩) ++
          List.replicate 2 (.advance 1 ⟨true, 0x78, true⟩)) := by
  have hrepl : ∀ other stage,
      (Shells.step 256 initial (.start 0 .lua)).2.sessions other ≠ some (.run stage) := by
    intro other stage hother
    by_cases hne : other = 0
    · subst hne
      exact nomatch hother
    · have hidle := Function.update_of_ne hne (some ShellCommand.lua.begin) initial.sessions
      exact nomatch hidle.symm.trans hother
  exact exclusive_of_startsAlone 256 _ ⟨⟨rfl, nofun⟩, hrepl, trivial, trivial, trivial, trivial,
    trivial, trivial, trivial, trivial, trivial, trivial, trivial, trivial⟩

/-- Two shells in the REPL at once. -/
def twoRepls : List ShellMove :=
  [.start 0 .lua] ++ List.replicate 5 (.advance 0 ⟨true, 0x78, true⟩) ++
    [.start 1 .lua] ++ List.replicate 2 (.advance 1 ⟨true, 0x78, true⟩)

/-- One shell that leaves the REPL with Ctrl+D and starts it again. -/
def replAgain : List ShellMove :=
  [.start 0 .lua] ++ List.replicate 4 (.advance 0 ⟨true, 0x78, true⟩) ++
    [.advance 0 ⟨true, 0x04, true⟩, .start 0 .lua, .advance 0 ⟨true, 0x78, true⟩]

/-- Two REPLs have their states on one heap, and a second REPL sets up the heap under the
state of the first. -/
theorem not_exclusive_repls :
    ¬ AllSteps (Shells.step 256) (Exclusive 256) initial twoRepls ∧
      (run (Shells.step 256) initial twoRepls).2.openStates .luaHeap = [1, 0] ∧
      ¬ AllSteps (Shells.step 256) (Exclusive 256) initial replAgain := by
  refine ⟨fun h => ?_, rfl, fun h => ?_⟩
  · obtain ⟨-, hlast⟩ := (allSteps_append _ _ _).mp h
    exact absurd (hlast.2.1.2 .luaHeap) (by decide)
  · obtain ⟨-, hlast⟩ := (allSteps_append _ _ _).mp h
    have hempty : ([0] : List Nat) = [] := hlast.2.2.1.1 0 (.initHeap .luaHeap) rfl
    exact nomatch hempty

end Shells

end LuaZephyr
