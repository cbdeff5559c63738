import LuaZephyr.Fs.Served
import LuaZephyr.Library.Registers

/-!
# One store behind the commands and the `fs` library

The shell writes, deletes and prints files, C code writes them with `lua_fs_write_file`, and
the threads load them. On any documented file system these calls, one after another, are the
operations of one map from absolute paths to contents: `lua_fs write` and `lua_fs_write_file`
assign, `lua_fs delete` and a cancelled write remove, `lua_fs cat` and `lua_fs_loadfile` look up.

The file system may refuse a call at any point. What it has refused to write is not known until
the next write of that file, and all other files are as they were. Calls that are under way at
the same time are not modelled.
-/

namespace LuaZephyr

open Outcome Programs Runs

/-- The Lua state of each thread, and the file system. -/
structure ScriptHost (β : Type) where
  thread : Nat → State Unit
  store : β

/-- A command with its arguments, and the keys typed after it; a call from C; a load in the Lua
state of a thread; and what else a thread does, which is not about the files. -/
inductive StoreCall where
  | cat (argv : List Bytes)
  | write (argv : List Bytes) (keys : List UInt8)
  | delete (argv : List Bytes)
  | save (path data : Bytes) (len : Nat)
  | load (thread : Nat) (path : Bytes)
  | script (thread : Nat) (next : State Unit)

/-- A load is answered with what it returns or raises, and the value on top of the stack. -/
inductive StoreAnswer where
  | printed (printed : LuaInteger × Bytes)
  | ended (how : CommandEnd) (rest : List UInt8)
  | returned (rc : LuaInteger)
  | loaded (result : Except Exn LuaInteger) (top : Option Value)
  | moved

/-- An answer, and whether the file system has refused something on the way to it. -/
structure Answered where
  answer : StoreAnswer
  refused : Bool

namespace ScriptHost

variable {β : Type} (v : Volume β) (cfg : FsConfig) (core : LuaCore (β × Bool))

/-- Thread `i` ends a call in the state `t`. -/
def leave (h : ScriptHost β) (i : Nat) (t : State (β × Bool)) : ScriptHost β :=
  ⟨Function.update h.thread i (t.on ()), t.bus.1⟩

def step (h : ScriptHost β) : StoreCall → Answered × ScriptHost β
  | .cat argv =>
      let reads := catReads cfg.mountPoint argv (v.view h.store).files
      let r := v.run (cmdCatOver cfg.mountPoint argv reads) h.store
      (⟨.printed r.1.1, r.1.2⟩, { h with store := r.2 })
  | .write argv keys =>
      let r := v.run (cmdWriteKeys cfg.mountPoint argv keys) h.store
      (⟨.ended r.1.1.1 r.1.1.2, r.1.2⟩, { h with store := r.2 })
  | .delete argv =>
      let r := v.run (cmdDelete cfg.mountPoint argv) h.store
      (⟨.printed r.1.1, r.1.2⟩, { h with store := r.2 })
  | .save path data len =>
      let r := v.run (luaFsWriteFile path data len) h.store
      (⟨.returned r.1.1, r.1.2⟩, { h with store := r.2 })
  | .load i path =>
      match luaFsLoadfile cfg v.noting.serve core path ((h.thread i).on (h.store, false)) with
      | .ok rc t => (⟨.loaded (.ok rc) t.stack.head?, t.bus.2⟩, h.leave i t)
      | .error e t => (⟨.loaded (.error e) t.stack.head?, t.bus.2⟩, h.leave i t)
  | .script i next => (⟨.moved, false⟩, { h with thread := Function.update h.thread i next })

variable {v cfg core}

/-- What every call of the file system keeps, a call keeps. -/
theorem step_keeps {I : β → Prop} (hserve : ∀ op b, I b → I (v.serve op b).2)
    (h : ScriptHost β) (c : StoreCall) (hstore : I h.store) : I (h.step v cfg core c).2.store := by
  cases c with
  | cat argv => exact Volume.run_keeps hserve _ hstore
  | write argv keys => exact Volume.run_keeps hserve _ hstore
  | delete argv => exact Volume.run_keeps hserve _ hstore
  | save path data len => exact Volume.run_keeps hserve _ hstore
  | load i path =>
      have hload : wp (luaFsLoadfile cfg v.noting.serve core path) (fun _ t => I t.bus.1)
          (fun _ t => I t.bus.1) ((h.thread i).on (h.store, false)) :=
        wp_luaFsLoadfile_keeps (I := fun (c : β × Bool) => I c.1) (fun op c => hserve op c.1) path
          hstore
      obtain ⟨rc, t, hrun, hbus⟩ | ⟨e, t, hrun, hbus⟩ := wp_iff.mp hload
      · rw [step, hrun]
        exact hbus
      · rw [step, hrun]
        exact hbus
  | script i next => exact hstore

end ScriptHost

/-- The file a call may change. -/
def StoreCall.target (mountPoint : Bytes) : StoreCall → Option Bytes
  | .write argv _ => (commandPath mountPoint argv).toOption
  | .delete argv => (commandPath mountPoint argv).toOption
  | .save path _ _ => some path
  | _ => none

/-- What is known of that file after the call, from what was known before. -/
def StoreCall.leaves (refused : Bool) (before : Option (Option Bytes)) :
    StoreCall → Option (Option Bytes)
  | .write _ keys =>
      if refused then none else (inputEnd (cutLines 256 keys)).map InputEnd.stored
  | .delete _ => if refused then before.filter Option.isNone else some none
  | .save _ data len => if refused then none else some (some (requestedBytes data len))
  | _ => before

/-- What is known of the files after a call. -/
def learn (mountPoint : Bytes) (known : Known Bytes (Option Bytes)) (x : StoreCall × Answered) :
    Known Bytes (Option Bytes) :=
  match x.1.target mountPoint with
  | none => known
  | some path => Function.update known path (x.1.leaves x.2.refused (known path))

theorem learn_apply (mountPoint : Bytes) (known : Known Bytes (Option Bytes))
    (x : StoreCall × Answered) (path : Bytes) :
    learn mountPoint known x path = if x.1.target mountPoint = some path then
      x.1.leaves x.2.refused (known path) else known path := by
  rw [learn]
  cases htarget : x.1.target mountPoint with
  | none => rw [if_neg nofun]
  | some target =>
      simp only [Function.update_apply, Option.some.injEq]
      split
      · rename_i heq
        rw [if_pos heq.symm, heq]
      · rename_i hne
        rw [if_neg (Ne.symm hne)]

/-- The answer is right for these contents. -/
def AnsweredFrom {β : Type} (cfg : FsConfig) (core : LuaCore (β × Bool)) (enough : Prop)
    (files : FileContents) : StoreCall × Answered → Prop
  | (.cat argv, a) =>
      match commandPath cfg.mountPoint argv with
      | .error rc => ∃ text, a = ⟨.printed (rc.code, text), false⟩
      | .ok path => ∃ printed, a.answer = .printed printed ∧
          PrintedOf (cannotCat path) CatPrints (files path) a.refused printed
  | (.write argv keys, a) =>
      match commandPath cfg.mountPoint argv with
      | .error rc => a = ⟨.ended (.returned rc.code) keys, false⟩
      | .ok _ => a.refused = false →
          ∃ e, inputEnd (cutLines 256 keys) = some e ∧ a.answer = .ended e.commandEnd e.rest
  | (.delete argv, a) =>
      match commandPath cfg.mountPoint argv with
      | .error rc => ∃ text, a = ⟨.printed (rc.code, text), false⟩
      | .ok path => ∃ printed, a.answer = .printed printed ∧
          PrintedOf (cannotDelete path) (DeletePrints path) (files path) a.refused printed
  | (.save _ _ _, a) => a.refused = false → a.answer = .returned 0
  | (.load _ path, a) => ∃ r top, a.answer = .loaded r top ∧
      LoadAnswer cfg core enough (a.refused = true) files path r top
  | (.script _ _, a) => a = ⟨.moved, false⟩

/-- The keys of a write end its input; C code gives an absolute path and as many bytes as it
says. -/
def StoreCall.Complete (mountPoint : Bytes) : StoreCall → Prop
  | .write argv keys =>
      ∀ path, commandPath mountPoint argv = .ok path → (inputEnd (cutLines 256 keys)).isSome
  | .save path data len => path.head? = some 47 ∧ len ≤ data.length
  | _ => True

/-- A load has memory. -/
def StoreCall.Fits {β : Type} (cfg : FsConfig) (h : ScriptHost β) : StoreCall → Prop
  | .load i _ => HasMemory cfg (h.thread i)
  | _ => True

/-- What the call did to the files, and that its answer is right. -/
structure StoreStep {β : Type} (v : Volume β) (cfg : FsConfig) (core : LuaCore (β × Bool))
    (enough : Prop) (h : ScriptHost β) (c : StoreCall) : Prop where
  spares : v.Spares (c.target cfg.mountPoint) h.store (h.step v cfg core c).2.store
  leaves : ∀ path before after, c.target cfg.mountPoint = some path →
    (∀ data, before = some data → (v.view h.store).files path = data) →
    c.leaves (h.step v cfg core c).1.refused before = some after →
    (v.view (h.step v cfg core c).2.store).files path = after
  answer : AnsweredFrom cfg core enough (v.view h.store).files (c, (h.step v cfg core c).1)

section Session

variable {β : Type} {v : Volume β} {cfg : FsConfig} {core : LuaCore (β × Bool)} {enough : Prop}
  {h : ScriptHost β}

/-- What was known of the files and what is learned from the call agree with them. -/
theorem StoreStep.agrees {c : StoreCall} (hstep : StoreStep v cfg core enough h c)
    {known : Known Bytes (Option Bytes)} (hknown : Agrees known (v.view h.store).files) :
    Agrees (learn cfg.mountPoint known (c, (h.step v cfg core c).1))
      (v.view (h.step v cfg core c).2.store).files := by
  intro path data hdata
  rw [learn_apply] at hdata
  split at hdata
  · rename_i htarget
    exact hstep.leaves _ _ _ htarget (hknown path) hdata
  · rename_i htarget
    rw [hstep.spares path htarget]
    exact hknown path data hdata

theorem storeStep_cat (hv : v.Documented) (argv : List Bytes) :
    StoreStep v cfg core enough h (.cat argv) := by
  refine ⟨hv.noting.cmdCatOver_spares _ _ _ (h.store, false), nofun, ?_⟩
  cases hpath : commandPath cfg.mountPoint argv with
  | error rc =>
      obtain ⟨-, -, text, hexec⟩ := exec_of_noPath v.noting.handle hpath []
        (catReads cfg.mountPoint argv (v.view h.store).files) (h.store, false)
      simp only [AnsweredFrom, hpath, ScriptHost.step, Volume.run_eq hexec]
      exact ⟨text, rfl⟩
  | ok path =>
      simp only [AnsweredFrom, hpath]
      exact ⟨_, rfl, hv.cmdCatOver_prints hpath h.store⟩

theorem storeStep_write (hv : v.Documented) {argv : List Bytes} {keys : List UInt8}
    (hends : (StoreCall.write argv keys).Complete cfg.mountPoint) :
    StoreStep v cfg core enough h (.write argv keys) := by
  cases hpath : commandPath cfg.mountPoint argv with
  | error rc =>
      obtain ⟨hexec, -, -⟩ := exec_of_noPath v.noting.handle hpath keys 0
        (h.store, false)
      have hrun := Volume.run_eq hexec
      refine ⟨?_, ?_, ?_⟩
      · simp only [ScriptHost.step, hrun]
        exact fun _ _ => rfl
      · simp only [StoreCall.target, hpath]
        exact nofun
      · simp only [AnsweredFrom, hpath, ScriptHost.step, hrun]
  | ok path =>
      obtain ⟨e, hend⟩ := Option.isSome_iff_exists.mp (hends path hpath)
      have hgranted (h' : (v.run (cmdWriteKeys cfg.mountPoint argv keys) h.store).1.2 = false) :
          _ = (_, _) := (cmdWriteKeys_stores hpath hend (v.view h.store)).symm.trans
            (hv.run_granted h')
      refine ⟨?_, ?_, ?_⟩
      · simp only [StoreCall.target, hpath]
        exact hv.noting.cmdWriteKeys_spares hpath keys (h.store, false)
      · intro target before after htarget hbefore hafter
        simp only [StoreCall.target, hpath, Except.toOption, Option.some.injEq] at htarget
        subst htarget
        simp only [StoreCall.leaves, ScriptHost.step, hend, Option.map_some] at hafter
        split at hafter
        · contradiction
        · rename_i hrefused
          obtain rfl := Option.some.inj hafter
          have hview := congrArg (·.2.files path) (hgranted (Bool.not_eq_true _ ▸ hrefused))
          exact hview.symm.trans (Function.update_self ..)
      · simp only [AnsweredFrom, hpath]
        intro hrefused
        have hresult : (e.commandEnd, e.rest) = _ := congrArg Prod.fst (hgranted hrefused)
        refine ⟨e, hend, ?_⟩
        rw [ScriptHost.step, ← hresult]

theorem storeStep_delete (hv : v.Documented) (argv : List Bytes) :
    StoreStep v cfg core enough h (.delete argv) := by
  cases hpath : commandPath cfg.mountPoint argv with
  | error rc =>
      obtain ⟨-, ⟨text, hexec⟩, -⟩ := exec_of_noPath v.noting.handle hpath [] 0
        (h.store, false)
      have hrun := Volume.run_eq hexec
      refine ⟨?_, ?_, ?_⟩
      · simp only [ScriptHost.step, hrun]
        exact fun _ _ => rfl
      · simp only [StoreCall.target, hpath]
        exact nofun
      · simp only [AnsweredFrom, hpath, ScriptHost.step, hrun]
        exact ⟨text, rfl⟩
  | ok path =>
      obtain ⟨hspares, habsent⟩ := hv.noting.cmdDelete_spares hpath (h.store, false)
      obtain ⟨hprints, hgone⟩ := hv.cmdDelete_prints hpath h.store
      refine ⟨?_, ?_, ?_⟩
      · simp only [StoreCall.target, hpath]
        exact hspares
      · intro target before after htarget hbefore hafter
        simp only [StoreCall.target, hpath, Except.toOption, Option.some.injEq] at htarget
        subst htarget
        simp only [StoreCall.leaves] at hafter
        split at hafter
        · obtain ⟨hknown, hnone⟩ := Option.filter_eq_some_iff.mp hafter
          obtain rfl := Option.isNone_iff_eq_none.mp hnone
          exact habsent (hbefore none hknown)
        · rename_i hrefused
          obtain rfl := Option.some.inj hafter
          exact hgone (Bool.not_eq_true _ ▸ hrefused)
      · simp only [AnsweredFrom, hpath]
        exact ⟨_, rfl, hprints⟩

theorem storeStep_save (hv : v.Documented) (path : Bytes) {data : Bytes} {len : Nat}
    (hlen : len ≤ data.length) : StoreStep v cfg core enough h (.save path data len) := by
  have hgranted (h' : (v.run (luaFsWriteFile path data len) h.store).1.2 = false) :
      _ = (_, _) := (luaFsWriteFile_answer path hlen (v.view h.store)).symm.trans
        (hv.run_granted h')
  refine ⟨hv.noting.luaFsWriteFile_spares path data len (h.store, false), ?_, fun hrefused => ?_⟩
  · intro target before after htarget hbefore hafter
    obtain rfl := Option.some.inj htarget
    rw [StoreCall.leaves, ScriptHost.step] at hafter
    cases hrefused : (v.run (luaFsWriteFile path data len) h.store).1.2 with
    | true =>
        rw [hrefused] at hafter
        contradiction
    | false =>
        rw [hrefused] at hafter
        obtain rfl := Option.some.inj hafter
        have hview := congrArg (·.2.files path) (hgranted hrefused)
        exact hview.symm.trans (Function.update_self ..)
  · exact congrArg StoreAnswer.returned (congrArg Prod.fst (hgranted hrefused)).symm

theorem storeStep_load (hv : v.Documented) (i : Nat) (path : Bytes)
    (hfits : enough → HasMemory cfg (h.thread i)) :
    StoreStep v cfg core enough h (.load i path) := by
  have hload : wp (luaFsLoadfile cfg v.noting.serve core path)
      _ _ ((h.thread i).on (h.store, false)) := wp_luaFsLoadfile_noting hv hfits
  obtain ⟨rc, t, hrun, hspares, hanswer⟩ | ⟨e, t, hrun, hspares, hanswer⟩ := wp_iff.mp hload
  · have hstep : h.step v cfg core (.load i path) =
        (⟨.loaded (.ok rc) t.stack.head?, t.bus.2⟩, h.leave i t) := by
      rw [ScriptHost.step, hrun]
    refine ⟨?_, nofun, ?_⟩
    · rw [hstep]
      exact hspares
    · rw [hstep]
      exact ⟨_, _, rfl, hanswer⟩
  · have hstep : h.step v cfg core (.load i path) =
        (⟨.loaded (.error e) t.stack.head?, t.bus.2⟩, h.leave i t) := by
      rw [ScriptHost.step, hrun]
    refine ⟨?_, nofun, ?_⟩
    · rw [hstep]
      exact hspares
    · rw [hstep]
      exact ⟨_, _, rfl, hanswer⟩

theorem storeStep (hv : v.Documented) {c : StoreCall} (hcomplete : c.Complete cfg.mountPoint)
    (hfits : enough → c.Fits cfg h) : StoreStep v cfg core enough h c := by
  cases c with
  | cat argv => exact storeStep_cat hv argv
  | write argv keys => exact storeStep_write hv hcomplete
  | delete argv => exact storeStep_delete hv argv
  | save path data len => exact storeStep_save hv path hcomplete.2
  | load i path => exact storeStep_load hv i path hfits
  | script i next => exact ⟨fun _ _ => rfl, nofun, rfl⟩

end Session

/-- A script is typed, loaded and deleted. -/
def typedSession : List StoreCall :=
  [.write [ascii "write", ascii "a.lua"] (ascii "x=2\n.\n"), .load 1 (ascii "a.lua"),
    .delete [ascii "delete", ascii "a.lua"], .cat [ascii "cat", ascii "a.lua"]]

end LuaZephyr
