import LuaZephyr.Entry.Memory

/-!
# The REPL without memory

A line of the REPL needs memory outside of a protected call to find `print` and for the
text of an error object that is a number. It leaves the stack empty for the next line.

Only these two needs are followed here. All else of a line runs in protected calls, which
`Entry.Prompts` has, and a session as a whole is in `Entry.Survival`. What the panic function of
the Lua state does with an error outside of a protected call is not modelled.
-/

namespace LuaZephyr

open Outcome

variable {β : Type} {core : LuaCore β} {print : ReplPrint β}

variable (core) in
/-- The line compiles to `f`, as an expression or else as it is, and the next allocation is
number `n`. -/
def LoadsLine (line : Bytes) (s : State β) (f n : Nat) : Prop :=
  let expression := CString.text (ascii "return " ++ line)
  (s.apiFails s.apiCalls = false ∧ core.compile expression expression = .ok f ∧
      n = s.apiCalls + 1) ∨
    ((s.apiFails s.apiCalls = true ∨
        ∃ message, core.compile expression expression = .error message) ∧
      s.apiFails (s.apiCalls + 1) = false ∧
      core.compile (CString.text line) (CString.text line) = .ok f ∧ n = s.apiCalls + 2)

/-- The results can be printed: there is memory to find `print`, finding it raises nothing,
and there is memory to report how it fails. -/
def PrintFits (print : ReplPrint β) (rs : List Value) (heap : SysHeap) (b : β)
    (fails : Nat → Bool) (n : Nat) : Prop :=
  rs ≠ [] → fails n = false ∧ fails (n + 1) = false ∧
    ∃ v heap' b', print.lookup heap b = (.ok v, heap', b') ∧
      ∀ e heap'' b'', print.call v rs heap' b' = (some e, heap'', b'') →
        e.object.isNumber = true → fails (n + 2) = false

variable (core) in
/-- The line does not compile, or there is memory to print what running it gives. -/
def LineFits (print : ReplPrint β) (line : Bytes) (s : State β) : Prop :=
  ∀ f n, LoadsLine core line s f n →
    CallFits core f s.heap s.bus s.apiFails n ∧
      ∀ rs heap b, core.execute f s.heap s.bus = (.ok rs, heap, b) →
        PrintFits print rs heap b s.apiFails n

theorem LoadsLine.unique {line : Bytes} {s : State β} {f f' n n' : Nat}
    (h : LoadsLine core line s f n) (h' : LoadsLine core line s f' n') : f = f' ∧ n = n' := by
  obtain ⟨hmemory, hcompile, rfl⟩ | ⟨hfirst, -, hcompile, rfl⟩ := h
  · obtain ⟨-, hcompile', rfl⟩ | ⟨hfails | ⟨message, herror⟩, -⟩ := h'
    · exact ⟨Except.ok.inj (hcompile.symm.trans hcompile'), rfl⟩
    · exact absurd (hfails.symm.trans hmemory) (by decide)
    · exact nomatch hcompile.symm.trans herror
  · obtain ⟨hmemory, hcompile', rfl⟩ | ⟨-, -, hcompile', rfl⟩ := h'
    · obtain hfails | ⟨message, herror⟩ := hfirst
      · exact absurd (hfails.symm.trans hmemory) (by decide)
      · exact nomatch hcompile'.symm.trans herror
    · exact ⟨Except.ok.inj (hcompile.symm.trans hcompile'), rfl⟩

/-- The first attempt fails. -/
def NoExpression (core : LuaCore β) (line : Bytes) (s : State β) : Prop :=
  s.apiFails s.apiCalls = true ∨
    ∃ message, core.compile (CString.text (ascii "return " ++ line))
      (CString.text (ascii "return " ++ line)) = .error message

theorem loadsLine_iff_second {line : Bytes} {s : State β} (hfirst : NoExpression core line s)
    (f n : Nat) : LoadsLine core line s f n ↔
      s.apiFails (s.apiCalls + 1) = false ∧
        core.compile (CString.text line) (CString.text line) = .ok f ∧ n = s.apiCalls + 2 := by
  constructor
  · rintro (⟨hmemory, hcompile, -⟩ | ⟨-, h⟩)
    · obtain hfails | ⟨message, herror⟩ := hfirst
      · exact absurd (hfails.symm.trans hmemory) (by decide)
      · exact nomatch hcompile.symm.trans herror
    · exact h
  · exact fun h => .inr ⟨hfirst, h⟩

/-- What loading a line leaves: the function it compiles to, or a message. -/
def LineLoaded (core : LuaCore β) (line : Bytes) (s : State β) (status : LuaStatus)
    (t : State β) : Prop :=
  (status = .ok → ∃ f n peak, LoadsLine core line s f n ∧
    t = { s with stack := [.other f], peak := peak, apiCalls := n }) ∧
  (status ≠ .ok → (∀ f n, ¬ LoadsLine core line s f n) ∧ ∃ message, t.stack = [.string message])

theorem wp_second {s : State β} {line : Bytes} (hfirst : NoExpression core line s) (peak : Nat) :
    wp (luaLLoadstring core line) (LineLoaded core line s) (fun _ _ => False)
      { s with stack := [], peak := peak, apiCalls := s.apiCalls + 1 } := by
  have hiff := fun f n => loadsLine_iff_second hfirst f n
  refine wp_luaLLoadbuffer.mpr ?_
  split
  · rename_i hfails
    refine ⟨nofun, fun _ => ⟨fun f n h => ?_, _, rfl⟩⟩
    exact absurd (hfails.symm.trans ((hiff f n).mp h).1) (by decide)
  · rename_i hmemory
    rw [Bool.not_eq_true] at hmemory
    split
    · rename_i message herror
      refine ⟨nofun, fun _ => ⟨fun f n h => ?_, _, rfl⟩⟩
      exact nomatch herror.symm.trans ((hiff f n).mp h).2.1
    · rename_i f hcompile
      refine ⟨fun _ => ⟨f, s.apiCalls + 2, _, ?_, rfl⟩, fun h => absurd rfl h⟩
      exact (hiff _ _).mpr ⟨hmemory, hcompile, rfl⟩

theorem wp_replLoad {s : State β} (hstack : s.stack = []) (line : Bytes) :
    wp (replLoad core line) (LineLoaded core line s) (fun _ _ => False) s := by
  refine wp_bind.mpr (wp_luaLLoadbuffer.mpr ?_)
  rw [hstack]
  split
  · rename_i hfails
    exact wp_bind.mpr (wp_luaPop.mpr (wp_second (.inl hfails) _))
  · rename_i hmemory
    rw [Bool.not_eq_true] at hmemory
    split
    · rename_i message herror
      exact wp_bind.mpr (wp_luaPop.mpr (wp_second (.inr ⟨message, herror⟩) _))
    · rename_i f hcompile
      refine ⟨fun _ => ⟨f, s.apiCalls + 1, _, .inl ⟨hmemory, hcompile, rfl⟩, rfl⟩, fun h => ?_⟩
      exact absurd rfl h

/-- Calling `print` takes the function and its arguments off the stack. -/
theorem wp_luaPcallPrint {s : State β} {v : Value} {rs : List Value}
    (hstack : s.stack = v :: rs.reverse) {Q : LuaStatus → State β → Prop}
    {E : Exn → State β → Prop} :
    wp (luaPcallPrint print) Q E s ↔
      match print.call v rs s.heap s.bus with
      | (none, heap, b) => Q .ok { s with stack := [], heap := heap, bus := b }
      | (some e, heap, b) => Q e.status { s with
          stack := [e.object], peak := max s.peak 1, heap := heap, bus := b } := by
  simp only [luaPcallPrint, wp_bind, wp_get, hstack, List.reverse_reverse, wp_set]
  rcases print.call v rs s.heap s.bus with ⟨_ | e, heap, b⟩
  · exact Iff.rfl
  · exact Iff.rfl

/-- Reporting the one value on the stack and dropping it. -/
theorem wp_dropError (tgt : Target) {t : State β} {v : Value} (hstack : t.stack = [v]) {P : Prop}
    (hfits : ReportFits t ↔ P) :
    wp (do let _ ← luaTostring tgt (-1); luaPop 1) (fun _ u => P ∧ u.stack = [])
      (fun e _ => e.Decides P) t := by
  rw [← hfits]
  have hne : t.stack ≠ [] := hstack ▸ List.cons_ne_nil _ _
  refine wp_bind.mpr ((wp_luaTostring_decides tgt hne).mono ?_ fun _ _ h => h)
  rintro text u ⟨hfits, hdrop⟩
  exact ⟨hfits, hdrop.trans (hstack ▸ rfl)⟩

/-- Printing results on an otherwise empty stack. -/
theorem wp_luaReplPrint (tgt : Target) {s : State β} {rs : List Value}
    (hstack : s.stack = rs.reverse) :
    wp (luaReplPrint tgt print)
      (fun _ t => PrintFits print rs s.heap s.bus s.apiFails s.apiCalls ∧ t.stack = [])
      (fun e _ => e.Decides (PrintFits print rs s.heap s.bus s.apiFails s.apiCalls)) s := by
  refine wp_bind.mpr (wp_luaGettop.mpr ?_)
  rw [hstack]
  split
  · rename_i hpos
    have hne : rs ≠ [] := by
      rintro rfl
      exact absurd hpos (Nat.lt_irrefl 0)
    refine wp_bind.mpr (wp_allocating.mpr ?_)
    split
    · rename_i hfails
      exact fun h => absurd (hfails.symm.trans (h hne).1) (by decide)
    rename_i hgrown
    refine wp_bind.mpr (wp_bind.mpr (wp_allocating.mpr ?_))
    split
    · rename_i hfails
      exact fun h => absurd (hfails.symm.trans (h hne).2.1) (by decide)
    rename_i hnamed
    rw [Bool.not_eq_true] at hgrown hnamed
    refine wp_bind.mpr (wp_get.mpr (wp_bind.mpr (wp_set.mpr ?_)))
    rcases hlookup : print.lookup s.heap s.bus with ⟨e | v, heap, b⟩
    · rintro h
      obtain ⟨-, -, v, heap', b', hlookup', -⟩ := h hne
      exact nomatch hlookup.symm.trans hlookup'
    have hiff : PrintFits print rs s.heap s.bus s.apiFails s.apiCalls ↔
        ∀ e heap' b', print.call v rs heap b = (some e, heap', b') →
          e.object.isNumber = true → s.apiFails (s.apiCalls + 2) = false := by
      constructor
      · intro h
        obtain ⟨-, -, v', heap', b', hlookup', hcall⟩ := h hne
        obtain ⟨hv, hrest⟩ := Prod.mk.inj (hlookup.symm.trans hlookup')
        obtain ⟨rfl, rfl⟩ := Prod.mk.inj hrest
        obtain rfl := Except.ok.inj hv
        exact hcall
      · exact fun h _ => ⟨hgrown, hnamed, v, heap, b, hlookup, h⟩
    have hpushed := congrArg (v :: ·) hstack
    refine wp_bind.mpr ((wp_luaPcallPrint hpushed).mpr ?_)
    dsimp only
    rcases hcall : print.call v rs heap b with ⟨_ | e, heap', b'⟩
    · dsimp only
      rw [if_neg (not_not.mpr rfl)]
      refine ⟨hiff.mpr fun e heap'' b'' h => ?_, rfl⟩
      exact nomatch hcall.symm.trans h
    · dsimp only
      rw [if_pos e.status_ne_ok]
      refine wp_dropError tgt rfl ?_
      rw [hiff, reportFits_iff rfl]
      constructor
      · intro h e' heap'' b'' hcall' hnumber
        obtain rfl := Option.some.inj (Prod.mk.inj (hcall.symm.trans hcall')).1
        exact h hnumber
      · exact fun h => h e heap' b' hcall
  · rename_i hpos
    have hnil : rs = [] := by
      rw [← List.reverse_eq_nil_iff]
      exact List.eq_nil_of_length_eq_zero (Nat.le_zero.mp (Nat.not_lt.mp hpos))
    exact ⟨fun hne => absurd hnil hne, by rw [hstack, hnil]; rfl⟩

/-- A line leaves the stack empty, or memory runs out outside of a protected call. -/
theorem wp_replLine (tgt : Target) {s : State β} (hstack : s.stack = []) (line : Bytes) :
    wp (replLine tgt core print line)
      (fun _ t => LineFits core print line s ∧ t.stack = [])
      (fun e _ => e.Decides (LineFits core print line s)) s := by
  refine wp_bind.mpr ((wp_replLoad hstack line).mono ?_ fun _ _ h => h.elim)
  rintro status t ⟨hok, hbad⟩
  split
  · rename_i hstatus
    obtain ⟨f, n, peak, hloads, rfl⟩ := hok hstatus
    have hiff : LineFits core print line s ↔ CallFits core f s.heap s.bus s.apiFails n ∧
        ∀ rs heap b, core.execute f s.heap s.bus = (.ok rs, heap, b) →
          PrintFits print rs heap b s.apiFails n := by
      constructor
      · exact fun h => h f n hloads
      · intro h f' n' hloads'
        obtain ⟨rfl, rfl⟩ := hloads.unique hloads'
        exact h
    refine wp_bind.mpr ((wp_luaPcall rfl).mpr ?_)
    split
    · rename_i rs heap b hrun
      rw [if_pos rfl]
      have hprint : PrintFits print rs heap b s.apiFails n ↔ LineFits core print line s := by
        rw [hiff]
        constructor
        · refine fun h => ⟨fun e heap' b' hrun' => ?_, fun rs' heap' b' hrun' => ?_⟩
          · cases hrun.symm.trans hrun'
          · obtain ⟨hrs, hrest⟩ := Prod.mk.inj (hrun.symm.trans hrun')
            obtain ⟨rfl, rfl⟩ := Prod.mk.inj hrest
            exact Except.ok.inj hrs ▸ h
        · exact fun h => h.2 rs heap b hrun
      rw [← hprint]
      exact wp_luaReplPrint tgt (List.append_nil _)
    · rename_i e heap b hrun
      rw [if_neg e.status_ne_ok]
      refine wp_dropError tgt rfl ?_
      rw [hiff, reportFits_iff rfl]
      constructor
      · refine fun h => ⟨fun e' heap' b' hrun' hnumber => ?_, fun rs heap' b' hrun' => ?_⟩
        · obtain rfl := Except.error.inj (Prod.mk.inj (hrun.symm.trans hrun')).1
          exact h hnumber
        · cases hrun.symm.trans hrun'
      · exact fun h => h.1 e heap b hrun
  · rename_i hstatus
    obtain ⟨hnone, message, hmessage⟩ := hbad hstatus
    refine wp_dropError tgt hmessage (iff_of_true (reportFits_of_string hmessage) ?_)
    exact fun f n hloads => absurd hloads (hnone f n)

variable (core print) in
/-- There is memory for every line, in the state the lines before it left, up to the one that
ends the session. -/
def ReplFits (tgt : Target) : List ShellLine → State β → Prop
  | [], _ => True
  | line :: lines, s => line.eof = true ∨ (LineFits core print line.text s ∧
      ∀ t, replLine tgt core print line.text s = .ok ⟨⟩ t → ReplFits tgt lines t)

/-- By induction on the lines; every line starts with an empty stack. -/
theorem wp_replLoop (tgt : Target) (lines : List ShellLine) {s : State β} (hstack : s.stack = []) :
    wp (replLoop tgt core print .state lines) (fun _ _ => ReplFits core print tgt lines s)
      (fun e _ => e.Decides (ReplFits core print tgt lines s)) s := by
  induction lines generalizing s with
  | nil => trivial
  | cons line lines ih =>
      rw [replLoop]
      split
      · rename_i heof
        exact .inl heof
      · rename_i heof
        obtain ⟨⟨⟩, t, hrun, hfits, ht⟩ | ⟨e, t, hrun, hfits⟩ :=
          wp_iff.mp (wp_replLine tgt hstack line.text)
        · have hiff : ReplFits core print tgt lines t ↔
              ReplFits core print tgt (line :: lines) s := by
            constructor
            · refine fun h => .inr ⟨hfits, fun t' hrun' => ?_⟩
              exact (EStateM.Result.ok.inj (hrun.symm.trans hrun')).2 ▸ h
            · rintro (h | ⟨-, h⟩)
              · exact absurd h heof
              · exact h t hrun
          refine wp_bind.mpr (wp_onState (wp_of_ok hrun ?_))
          refine (ih ht).mono (fun _ _ h => hiff.mp h) ?_
          exact fun e _ h => h.congr hiff
        · have hiff : LineFits core print line.text s ↔
              ReplFits core print tgt (line :: lines) s := by
            constructor
            · refine fun h => .inr ⟨h, fun t' hrun' => ?_⟩
              cases hrun.symm.trans hrun'
            · rintro (h | ⟨h, -⟩)
              · exact absurd h heof
              · exact h
          exact wp_bind.mpr (wp_onState (wp_iff.mpr (.inr ⟨e, t, hrun, hfits.congr hiff⟩)))

end LuaZephyr
