import LuaZephyr.Entry.Points

/-!
# Running out of memory

Every entry point calls functions of the API outside of a protected call: `luaz_openlibs`
to begin with, the message about a file that cannot be read, the text of an error object
that is a number, and what the REPL does to print. An allocation that fails there reaches
the panic handler, and a state that was not created is used by the thread bodies. These are
the only ways in which the system goes down.
-/

namespace LuaZephyr

open Outcome

variable {β : Type}

/-- No API function is called with a null pointer, and no Lua error reaches the panic
handler. -/
def Survives {α : Type} (m : EntryM β α) (s : State β) : Prop :=
  ∀ t, m s ≠ .error .nullState t ∧ ∀ e, m s ≠ .error (.panic e) t

/-- A Lua error means that `P` is false. -/
def Exn.Decides (P : Prop) : Exn → Prop
  | .error _ => ¬ P
  | .fault _ => P

/-- Going down means that `P` is false. -/
def Breakdown.Decides (P : Prop) : Breakdown → Prop
  | .nullState => ¬ P
  | .panic _ => ¬ P
  | .fault _ => P

theorem Breakdown.Decides.congr {P P' : Prop} (h : P ↔ P') {e : Breakdown} (he : e.Decides P) :
    e.Decides P' := by
  cases e with
  | nullState => exact fun hP' => he (h.mpr hP')
  | panic e => exact fun hP' => he (h.mpr hP')
  | fault f => exact h.mp he

theorem Exn.Decides.congr {P P' : Prop} (h : P ↔ P') {e : Exn} (he : e.Decides P) :
    e.Decides P' := by
  cases e with
  | error e => exact fun hP' => he (h.mpr hP')
  | fault f => exact h.mp he

/-- The run ends in one of the two ways according to `P`. -/
theorem survives_iff {α : Type} {m : EntryM β α} {s : State β} {P : Prop}
    (h : wp m (fun _ _ => P) (fun e _ => e.Decides P) s) : Survives m s ↔ P := by
  obtain ⟨a, t, hrun, hP⟩ | ⟨e, t, hrun, hP⟩ := wp_iff.mp h
  · refine iff_of_true (fun u => ⟨fun hbad => ?_, fun e hbad => ?_⟩) hP
    · exact nomatch hrun.symm.trans hbad
    · exact nomatch hrun.symm.trans hbad
  · cases e with
    | nullState => exact iff_of_false (fun h => (h t).1 hrun) hP
    | panic e => exact iff_of_false (fun h => (h t).2 e hrun) hP
    | fault f =>
        refine iff_of_true (fun u => ⟨fun hbad => ?_, fun e hbad => ?_⟩) hP
        · exact nomatch hrun.symm.trans hbad
        · exact nomatch hrun.symm.trans hbad

section Rules

variable {α : Type} {s : State β} {P : Prop}

theorem wp_onState {m : LuaM β α} {Q : α → State β → Prop}
    (h : wp m Q (fun e _ => e.Decides P) s) :
    wp (onState .state m) Q (fun e _ => e.Decides P) s := by
  obtain ⟨a, t, hrun, hQ⟩ | ⟨e, t, hrun, hP⟩ := wp_iff.mp h
  · exact wp_of_ok (by rw [onState, hrun]) hQ
  · refine wp_iff.mpr (.inr ?_)
    cases e with
    | error e => exact ⟨.panic e, t, by rw [onState, hrun], hP⟩
    | fault f => exact ⟨.fault f, t, by rw [onState, hrun], hP⟩

theorem wp_luaNewstate {Q : StatePtr → State β → Prop} {E : Breakdown → State β → Prop} :
    wp luaNewstate Q E s ↔
      if s.apiFails s.apiCalls then Q .null { s with apiCalls := s.apiCalls + 1 }
      else Q .state { s with apiCalls := s.apiCalls + 1, stack := [] } := by
  simp only [luaNewstate, wp_bind, wp_get]
  cases s.apiFails s.apiCalls <;> simp

end Rules

/-- On a stack that is `before`, the calls take `k` allocations and leave `after`, with at
most `height` values in between. -/
def Takes (m : LuaM β Unit) (k : Nat) (before after : List Value) (height : Nat) : Prop :=
  ∀ s : State β, s.stack = before →
    wp m
      (fun _ t => NoFail s.apiFails s.apiCalls k ∧ t = { s with
        stack := after, peak := max s.peak height, apiCalls := s.apiCalls + k })
      (fun e _ => e = .error .memory ∧ ¬ NoFail s.apiFails s.apiCalls k) s

namespace Takes

variable {m n : LuaM β Unit} {j k a b : Nat} {before between after : List Value}

theorem seq (hm : Takes m j before between a) (hn : Takes n k between after b) :
    Takes (do m; n) (j + k) before after (max a b) := by
  intro s hs
  refine wp_bind.mpr ((hm s hs).mono ?_ ?_)
  · rintro ⟨⟩ t ⟨hj, rfl⟩
    refine (hn _ rfl).mono ?_ ?_
    · rintro ⟨⟩ u ⟨hk, rfl⟩
      exact ⟨noFail_add.mpr ⟨hj, hk⟩, by simp [Nat.add_assoc, Nat.max_assoc]⟩
    · rintro e u ⟨rfl, hk⟩
      exact ⟨rfl, fun h => hk (noFail_add.mp h).2⟩
  · rintro e t ⟨rfl, hj⟩
    exact ⟨rfl, fun h => hj (noFail_add.mp h).1⟩

theorem push (v : Value) :
    Takes (pushValue v : LuaM β Unit) 0 before (v :: before) (before.length + 1) := by
  rintro s rfl
  exact ⟨noFail_zero _ _, rfl⟩

theorem pop (v : Value) : Takes (luaPop 1 : LuaM β Unit) 0 (v :: before) before 0 := by
  intro s hs
  refine ⟨noFail_zero _ _, ?_⟩
  simp [hs]

theorem alloc : Takes (allocating : LuaM β Unit) 1 before before 0 := by
  rintro s rfl
  refine wp_allocating.mpr ?_
  rw [noFail_one]
  split
  · rename_i hfails
    exact ⟨rfl, by simp [hfails]⟩
  · rename_i hfails
    exact ⟨by simpa using hfails, by simp⟩

theorem skip : Takes (pure ⟨⟩ : LuaM β Unit) 0 before before 0 := by
  rintro s rfl
  exact ⟨noFail_zero _ _, by simp⟩

theorem ifdef (c : Bool) (hm : Takes m k before before a) :
    Takes (LuaZephyr.ifdef c m) (if c then k else 0) before before (if c then a else 0) := by
  cases c with
  | true => exact hm
  | false => exact skip

end Takes

theorem preload_takes (f : CFunction) (name : Bytes) (v : Value) :
    Takes (preload f name : LuaM β Unit) 1 [v] [v] 2 :=
  (Takes.push (.other f.number)).seq (Takes.alloc.seq (Takes.pop _))

/-- The allocations of `luaz_openlibs`. -/
def LuaLibs.calls (libs : LuaLibs) : Nat :=
  3 + libs.base.toNat + libs.string.toNat + libs.table.toNat + libs.math.toNat +
    libs.coroutine.toNat + libs.utf8.toNat + libs.debug.toNat

theorem luazOpenlibs_takes (libs : LuaLibs) :
    Takes (luazOpenlibs libs : LuaM β Unit) libs.calls [] [] 2 := by
  have hrequire : Takes (luaSetglobal (ascii "require") : LuaM β Unit) 1
      [.other CFunction.luazRequire.number] [] 0 := Takes.alloc.seq (Takes.pop _)
  have hbase : Takes (do luaLRequirefBase; luaPop 1 : LuaM β Unit) 1 [] [] 1 :=
    (Takes.alloc.seq (Takes.push (.table [] none))).seq (Takes.pop _)
  have hsub : Takes (luaLGetsubtable (ascii "_PRELOAD") : LuaM β Unit) 1 [] [.table [] none] 1 :=
    Takes.alloc.seq (Takes.push _)
  have hpreload := fun f name => preload_takes (β := β) f name (.table [] none)
  have hfunction : Takes (pushValue (.other CFunction.luazRequire.number) : LuaM β Unit) 0 []
      [.other CFunction.luazRequire.number] 1 := Takes.push _
  have h : Takes (luazOpenlibs libs : LuaM β Unit) _ [] [] _ :=
    hfunction.seq <| hrequire.seq <|
    (Takes.ifdef libs.base hbase).seq <| hsub.seq <|
    (hpreload .luaopenZephyr (ascii "zephyr")).seq <|
    (Takes.ifdef libs.string (hpreload .luaopenString (ascii "string"))).seq <|
    (Takes.ifdef libs.table (hpreload .luaopenTable (ascii "table"))).seq <|
    (Takes.ifdef libs.math (hpreload .luaopenMath (ascii "math"))).seq <|
    (Takes.ifdef libs.coroutine (hpreload .luaopenCoroutine (ascii "coroutine"))).seq <|
    (Takes.ifdef libs.utf8 (hpreload .luaopenUtf8 (ascii "utf8"))).seq <|
    (Takes.ifdef libs.debug (hpreload .luaopenDebug (ascii "debug"))).seq
    (Takes.pop _)
  convert h using 1
  · simp only [LuaLibs.calls, Bool.toNat, Bool.cond_eq_ite]
    omega
  · have hle : ∀ (c : Bool) (n : Nat), (if c then n else 0) ≤ n := by
      intro c n
      split
      · exact Nat.le_refl n
      · exact Nat.zero_le n
    have hbase := hle libs.base 1
    have hstring := hle libs.string 2
    have htable := hle libs.table 2
    have hmath := hle libs.math 2
    have hcoroutine := hle libs.coroutine 2
    have hutf8 := hle libs.utf8 2
    have hdebug := hle libs.debug 2
    omega

/-- The state after `sys_heap_init` and `lua_newstate`. -/
def State.created (s : State β) : State β :=
  { s with
    stack := [], apiCalls := s.apiCalls + 1
    heap := { s.heap with blocks := fun _ => none } }

/-- The state after `luaz_openlibs`. -/
def State.opened (libs : LuaLibs) (s : State β) : State β :=
  { s.created with peak := max s.peak 2, apiCalls := s.apiCalls + 1 + libs.calls }

/-- What comes after the libraries decides `P` once they are there. -/
theorem wp_openlibs {α : Type} {libs : LuaLibs} {s : State β} {P : Prop} {k : EntryM β α}
    (hopened : NoFail s.apiFails (s.apiCalls + 1) libs.calls →
      wp k (fun _ _ => P) (fun e _ => e.Decides P) (s.opened libs))
    (hlibs : P → NoFail s.apiFails (s.apiCalls + 1) libs.calls) :
    wp (onState .state (luazOpenlibs libs) >>= fun _ => k) (fun _ _ => P)
      (fun e _ => e.Decides P) s.created := by
  refine wp_bind.mpr (wp_onState ((luazOpenlibs_takes libs s.created rfl).mono ?_ ?_))
  · rintro ⟨⟩ t ⟨hfits, rfl⟩
    exact hopened hfits
  · rintro e t ⟨rfl, hfails⟩
    exact fun h => hfails (hlibs h)

/-- Memory for the state and the libraries, a setup hook that raises nothing, and what the
script needs where the hook leaves off. -/
structure ThreadFits (libs : LuaLibs) (setup : LuaM β LuaInteger) (P : State β → Prop)
    (s : State β) : Prop where
  newstate : s.apiFails s.apiCalls = false
  openlibs : NoFail s.apiFails (s.apiCalls + 1) libs.calls
  setupReturns : ∀ e t, setup (s.opened libs) ≠ .error (.error e) t
  script : ∀ t, setup (s.opened libs) = .ok 0 t → P t

theorem wp_threadBody {libs : LuaLibs} {setup : LuaM β LuaInteger}
    {runScript : StatePtr → EntryM β Unit} {P : State β → Prop}
    (hrun : ∀ t, wp (runScript .state) (fun _ _ => P t) (fun e _ => e.Decides (P t)) t)
    (s : State β) :
    wp (threadBody libs setup runScript) (fun _ _ => ThreadFits libs setup P s)
      (fun e _ => e.Decides (ThreadFits libs setup P s)) s := by
  refine wp_bind.mpr (wp_modify.mpr (wp_bind.mpr (wp_luaNewstate.mpr ?_)))
  split
  · rename_i hnull
    exact fun h => absurd (hnull.symm.trans h.newstate) (by decide)
  · rename_i hstate
    have hnewstate : s.apiFails s.apiCalls = false := by simpa using hstate
    refine wp_openlibs (fun hlibs => ?_) ThreadFits.openlibs
    cases hsetup : setup (s.opened libs) with
    | ok err t =>
        refine wp_bind.mpr (wp_onState (wp_of_ok hsetup ?_))
        have hreturns : ∀ e t, setup (s.opened libs) ≠ .error (.error e) t :=
          fun e t h => nomatch hsetup.symm.trans h
        split
        · rename_i herr
          refine ⟨hnewstate, hlibs, hreturns, fun t' h => ?_⟩
          exact absurd (EStateM.Result.ok.inj (hsetup.symm.trans h)).1 herr
        · rename_i herr
          obtain rfl : err = 0 := not_not.mp herr
          have hiff : P t ↔ ThreadFits libs setup P s := by
            constructor
            · refine fun hP => ⟨hnewstate, hlibs, hreturns, fun t' h => ?_⟩
              exact (EStateM.Result.ok.inj (hsetup.symm.trans h)).2 ▸ hP
            · exact fun h => h.script t hsetup
          refine wp_bind.mpr ((hrun t).mono (fun _ _ hP => hiff.mp hP) fun e _ he => he.congr hiff)
    | error e t =>
        refine wp_bind.mpr (wp_onState (wp_iff.mpr (.inr ⟨e, t, hsetup, ?_⟩)))
        cases e with
        | error e => exact fun h => h.setupReturns e t hsetup
        | fault f =>
            refine ⟨hnewstate, hlibs, fun e t h => ?_, fun t h => ?_⟩
            · exact nomatch hsetup.symm.trans h
            · exact nomatch hsetup.symm.trans h

/-- There is memory for the text of the error object, if the object is a number. -/
def ReportFits (t : State β) : Prop :=
  ∀ v rest, t.stack = v :: rest → v.isNumber = true → t.apiFails t.apiCalls = false

theorem reportFits_iff {t : State β} {v : Value} {rest : List Value}
    (hstack : t.stack = v :: rest) :
    ReportFits t ↔ (v.isNumber = true → t.apiFails t.apiCalls = false) := by
  constructor
  · exact fun h => h v rest hstack
  · intro h v' rest' hstack' hnumber
    obtain ⟨rfl, -⟩ := List.cons.inj (hstack.symm.trans hstack')
    exact h hnumber

theorem reportFits_of_string {t : State β} {message : Bytes} {rest : List Value}
    (h : t.stack = .string message :: rest) : ReportFits t :=
  (reportFits_iff h).mpr nofun

theorem wp_luaTostring_decides (tgt : Target) {t : State β} (hstack : t.stack ≠ []) :
    wp (luaTostring tgt (-1)) (fun _ u => ReportFits t ∧ u.stack.drop 1 = t.stack.drop 1)
      (fun e _ => e.Decides (ReportFits t)) t := by
  obtain ⟨v, rest, hstack⟩ := List.exists_cons_of_ne_nil hstack
  rw [reportFits_iff hstack]
  refine (wp_luaTostring_top hstack).mpr ?_
  split
  · rename_i htext
    refine ⟨fun hnumber => ?_, rfl⟩
    cases v with
    | integer => exact nomatch htext
    | number => exact nomatch htext
    | _ => contradiction
  · split
    · rename_i hnumber
      refine wp_allocating.mpr ?_
      split
      · rename_i hfails
        exact fun h => absurd (hfails.symm.trans (h hnumber)) (by decide)
      · rename_i hfails
        exact ⟨fun _ => by simpa using hfails, by rw [hstack]; rfl⟩
    · rename_i hnumber
      exact ⟨fun h => absurd h hnumber, rfl⟩

variable (core : LuaCore β)

/-- There is memory to report how calling `f` ends, with the allocation number `n`. -/
def CallFits (f : Nat) (heap : SysHeap) (b : β) (fails : Nat → Bool) (n : Nat) : Prop :=
  ∀ e heap' b', core.execute f heap b = (.error e, heap', b') → e.object.isNumber = true →
    fails n = false

/-- The chunk does not load, or there is memory to report how running it ends. -/
def ChunkFits (buff name : Bytes) (s : State β) : Prop :=
  s.apiFails s.apiCalls = false → ∀ f, core.compile buff name = .ok f →
    CallFits core f s.heap s.bus s.apiFails (s.apiCalls + 1)

variable {core}

/-- A call that fails leaves an error object, which can be reported if the call fits. -/
theorem wp_luaPcall_fits {s : State β} {f : Nat} {rest : List Value}
    (hstack : s.stack = .other f :: rest) :
    wp (luaPcall core)
      (fun status t => (status = .ok → CallFits core f s.heap s.bus s.apiFails s.apiCalls) ∧
        (status ≠ .ok → t.stack ≠ [] ∧
          (ReportFits t ↔ CallFits core f s.heap s.bus s.apiFails s.apiCalls)))
      (fun _ _ => False) s := by
  refine (wp_luaPcall hstack).mpr ?_
  split
  · rename_i vs heap b hrun
    refine ⟨fun _ e heap' b' hrun' => ?_, fun h => absurd rfl h⟩
    exact nomatch hrun.symm.trans hrun'
  · rename_i e heap b hrun
    refine ⟨fun hok => absurd hok e.status_ne_ok, fun _ => ⟨List.cons_ne_nil _ _, ?_⟩⟩
    rw [reportFits_iff rfl]
    constructor
    · intro h e' heap' b' hrun' hnumber
      obtain rfl := Except.error.inj (Prod.mk.inj (hrun.symm.trans hrun')).1
      exact h hnumber
    · exact fun h => h e heap b hrun

theorem wp_loadAndCall (s : State β) (buff name : Bytes) :
    wp (loadAndCall core buff name)
      (fun status t => (status = .ok → ChunkFits core buff name s) ∧
        (status ≠ .ok → t.stack ≠ [] ∧ (ReportFits t ↔ ChunkFits core buff name s)))
      (fun _ _ => False) s := by
  refine wp_bind.mpr (wp_luaLLoadbuffer.mpr ?_)
  split
  · rename_i hfails
    refine ⟨nofun, fun _ => ⟨List.cons_ne_nil _ _, iff_of_true (reportFits_of_string rfl) ?_⟩⟩
    exact fun hmemory => absurd (hfails.symm.trans hmemory) (by decide)
  · rename_i hfails
    have hmemory : s.apiFails s.apiCalls = false := by simpa using hfails
    split
    · rename_i message hcompile
      refine ⟨nofun, fun _ => ⟨List.cons_ne_nil _ _, iff_of_true (reportFits_of_string rfl) ?_⟩⟩
      exact fun _ f hf => nomatch hcompile.symm.trans hf
    · rename_i f hcompile
      have hiff : CallFits core f s.heap s.bus s.apiFails (s.apiCalls + 1) ↔
          ChunkFits core buff name s := by
        constructor
        · intro h _ f' hf'
          obtain rfl := Except.ok.inj (hcompile.symm.trans hf')
          exact h
        · exact fun h => h hmemory f hcompile
      refine (wp_luaPcall_fits rfl).mono ?_ fun _ _ h => h
      rintro status t ⟨hok, hbad⟩
      exact ⟨fun h => hiff.mp (hok h), fun h => ⟨(hbad h).1, (hbad h).2.trans hiff⟩⟩

theorem wp_reportError (tgt : Target) {status : LuaStatus} {t : State β} {P : Prop}
    (hok : status = .ok → P) (hbad : status ≠ .ok → t.stack ≠ [] ∧ (ReportFits t ↔ P)) :
    wp (reportError tgt .state status) (fun _ _ => P) (fun e _ => e.Decides P) t := by
  rw [reportError]
  split
  · rename_i hstatus
    obtain ⟨hstack, hiff⟩ := hbad hstatus
    rw [← hiff]
    refine wp_bind.mpr (wp_onState ((wp_luaTostring_decides tgt hstack).mono ?_ fun _ _ h => h))
    exact fun _ u h => h.1
  · rename_i hstatus
    exact hok (not_not.mp hstatus)

section Files

variable {cfg : FsConfig} {fs : FileSystem β}

variable (cfg fs core) in
/-- There is memory for the message about a file that is not read, or to report how running
it ends; where the path is too long, for what is on the stack already. -/
structure FsFits (path : Bytes) (s : State β) : Prop where
  tooLong : ∀ rc, buildPath cfg.mountPoint path = .error rc → ReportFits s
  message : ∀ fullpath, buildPath cfg.mountPoint path = .ok fullpath →
    (¬ ∃ data b', FileReads cfg fs s.heap fullpath s.bus data b') → s.apiFails s.apiCalls = false
  call : ∀ fullpath data b' f, ScriptReads cfg fs s path fullpath data b' →
    s.apiFails s.apiCalls = false → core.compile data fullpath = .ok f →
      CallFits core f s.heap.borrowed b' s.apiFails (s.apiCalls + 1)

variable {s : State β} {path fullpath data : Bytes}

theorem fsFits_iff_of_reads {b' : β} (hreads : ScriptReads cfg fs s path fullpath data b') :
    FsFits core cfg fs path s ↔ ∀ f, s.apiFails s.apiCalls = false →
      core.compile data fullpath = .ok f →
        CallFits core f s.heap.borrowed b' s.apiFails (s.apiCalls + 1) := by
  constructor
  · exact fun h f => h.call fullpath data b' f hreads
  · refine fun h => ⟨fun rc hpath => ?_, fun fullpath' hpath hnone => ?_, ?_⟩
    · exact absurd hreads (not_scriptReads_of_tooLong hpath fullpath data b')
    · exact absurd hreads (not_scriptReads_of_unread hpath hnone fullpath data b')
    · intro fullpath' data' b'' f hreads' hmemory hcompile
      obtain ⟨rfl, rfl, rfl⟩ := hreads.unique hreads'
      exact h f hmemory hcompile

theorem fsFits_iff_of_tooLong {rc : Errno} (hpath : buildPath cfg.mountPoint path = .error rc) :
    FsFits core cfg fs path s ↔ ReportFits s := by
  constructor
  · exact fun h => h.tooLong rc hpath
  · refine fun h => ⟨fun _ _ => h, fun fullpath hpath' => ?_, fun fullpath data b' f hreads => ?_⟩
    · exact nomatch hpath.symm.trans hpath'
    · exact absurd hreads (not_scriptReads_of_tooLong hpath fullpath data b')

theorem fsFits_iff_of_unread (hpath : buildPath cfg.mountPoint path = .ok fullpath)
    (hnone : ¬ ∃ data b', FileReads cfg fs s.heap fullpath s.bus data b') :
    FsFits core cfg fs path s ↔ s.apiFails s.apiCalls = false := by
  constructor
  · exact fun h => h.message fullpath hpath hnone
  · refine fun h => ⟨fun rc hpath' => ?_, fun _ _ _ => h, fun fullpath data b' f hreads => ?_⟩
    · exact nomatch hpath.symm.trans hpath'
    · exact absurd hreads (not_scriptReads_of_unread hpath hnone fullpath data b')

theorem wp_luaFsDofile_fits (s : State β) (path : Bytes) :
    wp (luaFsDofile cfg fs core path)
      (fun rc t => (rc = 0 → FsFits core cfg fs path s) ∧
        (rc ≠ 0 → (ReportFits t ↔ FsFits core cfg fs path s)))
      (fun e _ => e.Decides (FsFits core cfg fs path s)) s := by
  rw [luaFsDofile_eq]
  refine wp_bind.mpr ((wp_luaFsLoadfile s path).mono (fun rc t hend => ?_) ?_)
  · cases hend with
    | loaded hreads hmemory hcompile =>
        rename_i fullpath data b' f peak
        have hiff : CallFits core f s.heap.borrowed b' s.apiFails (s.apiCalls + 1) ↔
            FsFits core cfg fs path s := by
          rw [fsFits_iff_of_reads hreads]
          constructor
          · intro h f' _ hcompile'
            obtain rfl := Except.ok.inj (hcompile.symm.trans hcompile')
            exact h
          · exact fun h => h f hmemory hcompile
        refine wp_bind.mpr ((wp_luaPcall_fits rfl).mono ?_ fun _ _ h => h.elim)
        rintro status u ⟨hok, hbad⟩
        refine ⟨fun hzero => hiff.mp (hok (status.code_eq_zero_iff.mp hzero)), fun hcode => ?_⟩
        exact (hbad fun hstatus => hcode (status.code_eq_zero_iff.mpr hstatus)).2.trans hiff
    | rejected hreads hmemory hcompile hstack =>
        refine ⟨nofun, fun _ => iff_of_true (reportFits_of_string hstack) ?_⟩
        exact (fsFits_iff_of_reads hreads).mpr fun f _ hf => nomatch hcompile.symm.trans hf
    | outOfMemory hreads hmemory hstack =>
        refine ⟨nofun, fun _ => iff_of_true (reportFits_of_string hstack) ?_⟩
        refine (fsFits_iff_of_reads hreads).mpr fun f hfails _ => ?_
        exact absurd (hmemory.symm.trans hfails) (by decide)
    | tooLong hpath =>
        rw [if_neg (Errno.code_ne_zero _)]
        refine ⟨fun hzero => absurd hzero (Errno.code_ne_zero _), fun _ => ?_⟩
        exact (fsFits_iff_of_tooLong hpath).symm
    | unread hpath hnone hmemory rc hstack =>
        rw [if_neg rc.code_ne_zero]
        refine ⟨fun hzero => absurd hzero rc.code_ne_zero, fun _ => ?_⟩
        have hfits : FsFits core cfg fs path s := (fsFits_iff_of_unread hpath hnone).mpr hmemory
        exact iff_of_true (reportFits_of_string hstack) hfits
  · rintro e t ⟨rfl, hfails, fullpath, hpath, hnone⟩
    refine fun h => ?_
    exact absurd (hfails.symm.trans (h.message fullpath hpath hnone)) (by decide)

end Files

theorem wp_reportStringError (tgt : Target) {rc : LuaInteger} {t : State β} {P : Prop}
    (hok : rc = 0 → P) (hbad : rc ≠ 0 → (ReportFits t ↔ P)) :
    wp (reportStringError tgt .state rc) (fun _ _ => P) (fun e _ => e.Decides P) t := by
  rw [reportStringError]
  split
  · rename_i hrc
    have hiff := hbad hrc
    rw [← hiff]
    cases hstack : t.stack with
    | nil =>
        have hnone : ReportFits t := by
          intro v rest hcons
          exact nomatch hstack.symm.trans hcons
        refine wp_bind.mpr (wp_onState (wp_bind.mpr (wp_get.mpr ?_)))
        rw [hstack]
        exact hnone
    | cons v rest =>
        refine wp_bind.mpr (wp_onState (wp_bind.mpr (wp_get.mpr ?_)))
        rw [hstack, valueAt_top]
        change wp (if (tgt.toText? v).isSome = true then _ else _) _ _ t
        split
        · have hne : t.stack ≠ [] := hstack ▸ List.cons_ne_nil _ _
          exact wp_bind.mpr (wp_onState ((wp_luaTostring_decides tgt hne).mono
            (fun _ _ h => h.1) fun _ _ h => h))
        · rename_i htext
          intro v' rest' hcons hnumber
          obtain ⟨rfl, -⟩ := List.cons.inj (hstack.symm.trans hcons)
          cases v with
          | integer => exact absurd rfl htext
          | number => exact absurd rfl htext
          | _ => contradiction
  · rename_i hrc
    exact hok (not_not.mp hrc)

end LuaZephyr
