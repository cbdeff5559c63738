import LuaZephyr.Lua.Require

/-!
# Each module is loaded once

A loader that returns puts its module into `_LOADED`, and from then on `require` finds it
there. That the entry of a module stays as it was while its loader runs is because the
loader cannot come back to its own module: the dependencies of the loaders have no cycle.

Loaders are Lua or C functions that call `require` for the modules they need. Memory may run out
in any call of the Lua API. Where it does before the loader is called, or in the loader, nothing
is lost: `_LOADED` is as it was. Where it does after the loader has returned, the call raises and
the module may be loaded again. `KeepsLoaded` is what holds in all cases, and with memory it is
`LoadsOnce`. Scripts that write to `_LOADED` themselves are excluded.
-/

namespace LuaZephyr.Require

open Outcome Programs Relation

variable {σ : Type}

section Dependencies

variable (tgt : Target) (core : Core σ) (preloaded : Entries)

/-- The loader of `key` may call `require` for `dependency`. -/
def DependsOn (dependency key : Bytes) : Prop :=
  ∃ name world op, CString.text name = key ∧
    (core.call (rawGet preloaded key) [.string name, .string preloadLiteral] world).Asks op ∧
    moduleOf tgt op.args = some dependency

/-- No module depends on itself, be it through others. -/
def Acyclic : Prop := ∀ key, ¬ TransGen (DependsOn tgt core preloaded) key key

variable {tgt core preloaded}

/-- It is enough that dependencies go down. -/
theorem Acyclic.of_rank (rank : Bytes → Nat)
    (h : ∀ dependency key, DependsOn tgt core preloaded dependency key →
      rank dependency < rank key) : Acyclic tgt core preloaded := by
  have hdown : ∀ {dependency key}, TransGen (DependsOn tgt core preloaded) dependency key →
      rank dependency < rank key := by
    intro dependency key hpath
    induction hpath with
    | single hdep => exact h _ _ hdep
    | tail _ hdep ih => exact ih.trans (h _ _ hdep)
  intro key hcycle
  exact (hdown hcycle).false

end Dependencies

/-- What is to hold of the log. A loader that returned false left nothing in `_LOADED` that
counts. -/
structure LoadsOnce (log : List Event) : Prop where
  /-- A loader gets the name it is required by, and the literal. -/
  called : ∀ key args, .loading key args ∈ log → ∃ name,
    args = [.string name, .string preloadLiteral] ∧ CString.text name = key
  /-- A module that has been loaded is not loaded again. -/
  once : ∀ first key result last, log = first ++ .completed key result :: last →
    result ≠ .boolean false → ∀ args, .loading key args ∉ last
  /-- Every call for it returns what the loader returned, or true. -/
  same : ∀ first key result last, log = first ++ .completed key result :: last →
    result ≠ .boolean false → ∀ results, .returned key results ∈ last →
    results.head? = some (loadedAs result)
  /-- A call that raises leaves `_LOADED[key]` as it was, and it does not count as loaded. -/
  raised : ∀ key before after, .raised key before after ∈ log →
    after = before ∧ before.toBoolean = false

/-- The call for the module raises although its loader has just returned. -/
def RaisesNext (key : Bytes) (last : List Event) : Prop :=
  ∃ before after rest, last = .raised key before after :: rest

/-- What holds of the log even when memory runs out: all of `LoadsOnce`, but for a call that
raises after its loader has returned, and for calls that raise before they have found their
module in `_LOADED`. -/
structure KeepsLoaded (ranOut : Prop) (log : List Event) : Prop where
  called : ∀ key args, .loading key args ∈ log → ∃ name,
    args = [.string name, .string preloadLiteral] ∧ CString.text name = key
  once : ∀ first key result last, log = first ++ .completed key result :: last →
    ¬ RaisesNext key last → result ≠ .boolean false → ∀ args, .loading key args ∉ last
  same : ∀ first key result last, log = first ++ .completed key result :: last →
    ¬ RaisesNext key last → result ≠ .boolean false → ∀ results, .returned key results ∈ last →
    results.head? = some (loadedAs result)
  raised : ∀ first key before after last, log = first ++ .raised key before after :: last →
    (∀ result, first.getLast? ≠ some (.completed key result)) →
    after = before ∧ (before.toBoolean = true → ranOut)
  lost : ∀ first key result last, log = first ++ .completed key result :: last →
    RaisesNext key last → ranOut

section Log

variable {ranOut ranOut' : Prop} {log block : List Event}

theorem KeepsLoaded.loadsOnce (h : KeepsLoaded ranOut log) (hmemory : ¬ ranOut) :
    LoadsOnce log where
  called := h.called
  once first key result last heq := h.once first key result last heq fun hnext =>
    hmemory (h.lost first key result last heq hnext)
  same first key result last heq := h.same first key result last heq fun hnext =>
    hmemory (h.lost first key result last heq hnext)
  raised key before after hmem := by
    obtain ⟨first, last, heq⟩ := List.append_of_mem hmem
    have hfirst : ∀ result, first.getLast? ≠ some (.completed key result) := by
      intro result hlast
      obtain ⟨first', rfl⟩ := List.getLast?_eq_some_iff.mp hlast
      rw [List.append_assoc, List.singleton_append] at heq
      exact hmemory (h.lost first' key result _ heq ⟨before, after, last, rfl⟩)
    obtain ⟨hafter, hbefore⟩ := h.raised first key before after last heq hfirst
    exact ⟨hafter, Bool.eq_false_iff.mpr fun htrue => hmemory (hbefore htrue)⟩

/-- No loader has returned whose call goes on. -/
def Settled (log : List Event) : Prop := ∀ first key result, log ≠ first ++ [.completed key result]

theorem settled_append {event : Event} (hevent : ∀ key result, event ≠ .completed key result)
    (log : List Event) : Settled (log ++ [event]) := by
  intro first key result heq
  exact hevent key result (List.singleton_inj.mp (List.append_inj' heq rfl).2)

/-- A loader has returned, and the call for its module did not raise then. -/
def Completed (log : List Event) (key : Bytes) (result : Value) : Prop :=
  ∃ first last, log = first ++ .completed key result :: last ∧ ¬ RaisesNext key last

/-- An event of the whole is one of the first part or of the second. -/
theorem split_append {first last : List Event} {x : Event}
    (heq : log ++ block = first ++ x :: last) :
    (∃ last', last = last' ++ block ∧ log = first ++ x :: last') ∨
      ∃ first', first = log ++ first' ∧ block = first' ++ x :: last := by
  obtain ⟨first', hfirst, hblock⟩ | ⟨more, hlog, hlast⟩ := List.append_eq_append_iff.mp heq
  · exact .inr ⟨first', hfirst, hblock⟩
  · obtain _ | ⟨y, last'⟩ := more
    · exact .inr ⟨[], by rw [hlog, List.append_nil, List.append_nil], hlast.symm⟩
    · obtain ⟨rfl, rfl⟩ := List.cons.inj hlast
      exact .inl ⟨last', rfl, hlog⟩

theorem RaisesNext.append {key : Bytes} {last : List Event} (h : RaisesNext key last) :
    RaisesNext key (last ++ block) := by
  obtain ⟨before, after, rest, rfl⟩ := h
  exact ⟨before, after, rest ++ block, rfl⟩

theorem Completed.of_append {key : Bytes} {result : Value}
    (h : Completed (log ++ block) key result) :
    Completed log key result ∨ Completed block key result := by
  obtain ⟨first, last, heq, hnext⟩ := h
  obtain ⟨last', rfl, hlog⟩ | ⟨first', -, hblock⟩ := split_append heq
  · exact .inl ⟨first, last', hlog, fun h => hnext h.append⟩
  · exact .inr ⟨first', last, hblock, hnext⟩

theorem KeepsLoaded.nil (ranOut : Prop) : KeepsLoaded ranOut [] where
  called _ _ hmem := absurd hmem List.not_mem_nil
  once first _ _ _ heq := absurd heq.symm (List.append_ne_nil_of_right_ne_nil first nofun)
  same first _ _ _ heq := absurd heq.symm (List.append_ne_nil_of_right_ne_nil first nofun)
  raised first _ _ _ _ heq := absurd heq.symm (List.append_ne_nil_of_right_ne_nil first nofun)
  lost first _ _ _ heq := absurd heq.symm (List.append_ne_nil_of_right_ne_nil first nofun)

/-- More events, which are right by themselves and after the loaders that have returned. -/
theorem KeepsLoaded.append (h : KeepsLoaded ranOut log) (hsettled : Settled log)
    (hran : ranOut → ranOut') (hblock : KeepsLoaded ranOut' block)
    (hloading : ∀ key args, .loading key args ∈ block → ∀ result, Completed log key result →
      result = .boolean false)
    (hreturned : ∀ key results, .returned key results ∈ block → ∀ result,
      Completed log key result → result ≠ .boolean false →
      results.head? = some (loadedAs result)) : KeepsLoaded ranOut' (log ++ block) := by
  constructor
  · intro key args hmem
    obtain hmem | hmem := List.mem_append.mp hmem
    · exact h.called key args hmem
    · exact hblock.called key args hmem
  · intro first key result last heq hnext hresult args hmem
    obtain ⟨last', rfl, hlog⟩ | ⟨first', -, heq'⟩ := split_append heq
    · have hnext' : ¬ RaisesNext key last' := fun h => hnext h.append
      obtain hmem | hmem := List.mem_append.mp hmem
      · exact h.once first key result last' hlog hnext' hresult args hmem
      · exact hresult (hloading key args hmem result ⟨first, last', hlog, hnext'⟩)
    · exact hblock.once first' key result last heq' hnext hresult args hmem
  · intro first key result last heq hnext hresult results hmem
    obtain ⟨last', rfl, hlog⟩ | ⟨first', -, heq'⟩ := split_append heq
    · have hnext' : ¬ RaisesNext key last' := fun h => hnext h.append
      obtain hmem | hmem := List.mem_append.mp hmem
      · exact h.same first key result last' hlog hnext' hresult results hmem
      · exact hreturned key results hmem result ⟨first, last', hlog, hnext'⟩ hresult
    · exact hblock.same first' key result last heq' hnext hresult results hmem
  · intro first key before after last heq hfirst
    obtain ⟨last', rfl, hlog⟩ | ⟨first', rfl, heq'⟩ := split_append heq
    · obtain ⟨hafter, hbefore⟩ := h.raised first key before after last' hlog hfirst
      exact ⟨hafter, fun htrue => hran (hbefore htrue)⟩
    · refine hblock.raised first' key before after last heq' fun result hlast => hfirst result ?_
      rw [List.getLast?_append, hlast]
      rfl
  · intro first key result last heq hnext
    obtain ⟨_ | ⟨x, last'⟩, rfl, hlog⟩ | ⟨first', -, heq'⟩ := split_append heq
    · exact absurd hlog (hsettled first key result)
    · obtain ⟨before, after, rest, hcons⟩ := hnext
      obtain ⟨rfl, -⟩ := List.cons.inj hcons
      exact hran (h.lost first key result _ hlog ⟨before, after, last', rfl⟩)
    · exact hblock.lost first' key result last heq' hnext

/-- One event other than the end of a loader. -/
theorem KeepsLoaded.single {event : Event} (hevent : ∀ key result, event ≠ .completed key result)
    (hloading : ∀ key args, event = .loading key args → ∃ name,
      args = [.string name, .string preloadLiteral] ∧ CString.text name = key)
    (hraised : ∀ key before after, event = .raised key before after →
      after = before ∧ (before.toBoolean = true → ranOut)) : KeepsLoaded ranOut [event] := by
  have hone {first last : List Event} {x : Event} (heq : [event] = first ++ x :: last) :
      event = x := List.mem_singleton.mp (heq ▸ List.mem_append_right _ List.mem_cons_self) |>.symm
  exact {
    called := fun key args hmem => hloading key args (List.mem_singleton.mp hmem).symm
    once := fun _ key result _ heq => absurd (hone heq) (hevent key result)
    same := fun _ key result _ heq => absurd (hone heq) (hevent key result)
    raised := fun _ key before after _ heq _ => hraised key before after (hone heq)
    lost := fun _ key result _ heq => absurd (hone heq) (hevent key result) }

/-- The end of a loader, and of the call for its module. -/
theorem KeepsLoaded.pair {key : Bytes} {result : Value} {event : Event}
    (hreturned : (∃ results, event = .returned key results ∧
        results.head? = some (loadedAs result)) ∨
      (∃ before after, event = .raised key before after) ∧ ranOut) :
    KeepsLoaded ranOut [.completed key result, event] := by
  have htwo {first last : List Event} {x : Event}
      (heq : [.completed key result, event] = first ++ x :: last) :
      (first = [] ∧ .completed key result = x ∧ last = [event]) ∨
        first = [.completed key result] ∧ event = x := by
    obtain _ | ⟨y, _ | ⟨z, first⟩⟩ := first
    · obtain ⟨hx, hlast⟩ := List.cons.inj heq
      exact .inl ⟨rfl, hx, hlast.symm⟩
    · obtain ⟨rfl, htail⟩ := List.cons.inj heq
      exact .inr ⟨rfl, (List.cons.inj htail).1⟩
    · simp at heq
  have hevent : (∀ key args, event ≠ .loading key args) ∧
      ∀ key result, event ≠ .completed key result := by
    obtain ⟨results, rfl, -⟩ | ⟨⟨before, after, rfl⟩, -⟩ := hreturned <;> simp
  constructor
  · intro key' args hmem
    obtain heq | heq := List.mem_pair.mp hmem
    · cases heq
    · exact absurd heq.symm (hevent.1 key' args)
  · intro first key' result' last heq _ _ args hmem
    obtain ⟨-, -, rfl⟩ | ⟨-, hx⟩ := htwo heq
    · exact hevent.1 key' args (List.mem_singleton.mp hmem).symm
    · exact hevent.2 key' result' hx
  · intro first key' result' last heq _ _ results hmem
    obtain ⟨-, hx, rfl⟩ | ⟨-, hx⟩ := htwo heq
    · obtain ⟨rfl, rfl⟩ := Event.completed.inj hx
      obtain ⟨results', rfl, hhead⟩ | ⟨⟨before, after, rfl⟩, -⟩ := hreturned
      · obtain ⟨-, rfl⟩ := Event.returned.inj (List.mem_singleton.mp hmem)
        exact hhead
      · cases List.mem_singleton.mp hmem
    · exact absurd hx (hevent.2 key' result')
  · intro first key' before after last heq hfirst
    obtain ⟨-, hx, -⟩ | ⟨rfl, hx⟩ := htwo heq
    · cases hx
    · obtain ⟨results, rfl, -⟩ | ⟨⟨before', after', rfl⟩, -⟩ := hreturned
      · cases hx
      · obtain ⟨rfl, -, -⟩ := Event.raised.inj hx
        exact absurd rfl (hfirst result)
  · intro first key' result' last heq hnext
    obtain ⟨-, hx, rfl⟩ | ⟨-, hx⟩ := htwo heq
    · obtain ⟨before, after, rest, hlast⟩ := hnext
      obtain ⟨results, rfl, -⟩ | ⟨-, hran⟩ := hreturned
      · cases (List.cons.inj hlast).1
      · exact hran
    · exact absurd hx (hevent.2 key' result')

end Log

/-- The tables and the log agree: what a loader returned is in `_LOADED`. -/
structure Inv (preloaded : Entries) (s : RequireState σ) : Prop where
  preloaded : entries s.registry preloadTable = preloaded
  settled : Settled s.log
  log : KeepsLoaded s.RanOut s.log
  held : ∀ key result, Completed s.log key result → result ≠ .boolean false →
    cached s.registry key = loadedAs result

/-- Loaded modules stay as they are, and only modules in `R` may be loaded. -/
structure Moves (R : Bytes → Prop) (s t : RequireState σ) : Prop where
  stack : t.stack = s.stack
  apiFails : t.apiFails = s.apiFails
  kept : ∀ key, (cached s.registry key).toBoolean = true →
    cached t.registry key = cached s.registry key
  only : ∀ key, cached t.registry key ≠ cached s.registry key → R key

section Invariant

variable {preloaded : Entries} {R R' : Bytes → Prop} {s t u : RequireState σ}

theorem Moves.of_eq (hstack : t.stack = s.stack) (hfails : t.apiFails = s.apiFails)
    (h : ∀ key, cached t.registry key = cached s.registry key) : Moves R s t where
  stack := hstack
  apiFails := hfails
  kept key _ := h key
  only key hne := absurd (h key) hne

theorem Moves.trans (h : Moves R s t) (h' : Moves R t u) : Moves R s u where
  stack := h'.stack.trans h.stack
  apiFails := h'.apiFails.trans h.apiFails
  kept key hkey := by
    have ht := h.kept key hkey
    rw [h'.kept key (by rwa [ht]), ht]
  only key hne := by
    by_cases ht : cached t.registry key = cached s.registry key
    · exact h'.only key (by rwa [ht])
    · exact h.only key ht

theorem Moves.mono (h : Moves R s t) (hR : ∀ key, R key → R' key) : Moves R' s t where
  stack := h.stack
  apiFails := h.apiFails
  kept := h.kept
  only key hne := hR key (h.only key hne)

/-- Around the moves nothing changes but the stack. -/
theorem Moves.quiet (h : Moves R s t) {s₀ t' : RequireState σ} (hs : Quiet s₀ s)
    (ht : Quiet t t') (hstack : t'.stack = s₀.stack) : Moves R s₀ t' where
  stack := hstack
  apiFails := ht.apiFails.trans (h.apiFails.trans hs.apiFails)
  kept key hkey := by
    rw [ht.cached, ← hs.cached]
    exact h.kept key (by rwa [hs.cached])
  only key hne := by
    rw [ht.cached, ← hs.cached] at hne
    exact h.only key hne

/-- After the moves a module is stored that did not count as loaded. -/
theorem Moves.stored (h : Moves R s t) {key : Bytes} {v : Value}
    (hkey : (cached s.registry key).toBoolean = false) (hstores : Stores key v t u)
    (hstack : u.stack = s.stack) : Moves (fun other => other = key ∨ R other) s u where
  stack := hstack
  apiFails := hstores.apiFails.trans h.apiFails
  kept other hother := by
    have hne : key ≠ other := by
      rintro rfl
      rw [hkey] at hother
      contradiction
    rw [hstores.cached, if_neg hne]
    exact h.kept other hother
  only other hne := by
    by_cases heq : other = key
    · exact .inl heq
    · rw [hstores.cached, if_neg (Ne.symm heq)] at hne
      exact .inr (h.only other hne)

/-- What may not be loaded has not changed. -/
theorem Moves.unchanged (h : Moves R s t) {key : Bytes} (hkey : ¬ R key) :
    cached t.registry key = cached s.registry key := by
  by_contra hne
  exact hkey (h.only key hne)

theorem RequireState.RanOut.mono (h : s.RanOut) (hfails : t.apiFails = s.apiFails)
    (hcalls : s.apiCalls ≤ t.apiCalls) : t.RanOut := by
  obtain ⟨call, hlt, hcall⟩ := h
  exact ⟨call, hlt.trans_le hcalls, hfails ▸ hcall⟩

theorem KeepsLoaded.mono {ranOut ranOut' : Prop} {log : List Event} (h : KeepsLoaded ranOut log)
    (hran : ranOut → ranOut') : KeepsLoaded ranOut' log where
  called := h.called
  once := h.once
  same := h.same
  raised first key before after last heq hfirst :=
    (h.raised first key before after last heq hfirst).imp_right fun hb htrue => hran (hb htrue)
  lost first key result last heq hnext := hran (h.lost first key result last heq hnext)

theorem Inv.quiet (h : Inv preloaded s) (hquiet : Quiet s t) : Inv preloaded t where
  preloaded := (hquiet.entries preloadTable).trans h.preloaded
  settled := by
    rw [hquiet.log]
    exact h.settled
  log := by
    rw [hquiet.log]
    exact h.log.mono fun hran => hran.mono hquiet.apiFails hquiet.apiCalls
  held key result := by
    rw [hquiet.log, hquiet.cached]
    exact h.held key result

theorem toBoolean_loadedAs {result : Value} (h : result ≠ .boolean false) :
    (loadedAs result).toBoolean = true := by
  unfold loadedAs
  cases result with
  | boolean b =>
      cases b with
      | false => exact absurd rfl h
      | true => rfl
  | _ => rfl

/-- A module that does not count as loaded has no loader that returned, but for false. -/
theorem Inv.not_completed (h : Inv preloaded s) {key : Bytes}
    (hkey : (cached s.registry key).toBoolean = false) {result : Value}
    (hcompleted : Completed s.log key result) : result = .boolean false := by
  by_contra hresult
  rw [h.held key result hcompleted hresult, toBoolean_loadedAs hresult] at hkey
  contradiction

theorem Completed.mem {log : List Event} {key : Bytes} {result : Value}
    (h : Completed log key result) : .completed key result ∈ log := by
  obtain ⟨first, last, rfl, -⟩ := h
  exact List.mem_append_right _ List.mem_cons_self

/-- One more event, which is not the end of a loader. -/
theorem Inv.concat (h : Inv preloaded s) {event : Event}
    (hevent : ∀ key result, event ≠ .completed key result)
    (hloading : ∀ key args, event = .loading key args →
      (∃ name, args = [.string name, .string preloadLiteral] ∧ CString.text name = key) ∧
      (cached s.registry key).toBoolean = false)
    (hreturned : ∀ key results, event = .returned key results →
      results.head? = some (cached s.registry key))
    (hraised : ∀ key before after, event = .raised key before after →
      after = before ∧ (before.toBoolean = true → s.RanOut)) :
    Inv preloaded { s with log := s.log ++ [event] } where
  preloaded := h.preloaded
  settled := settled_append hevent s.log
  log := by
    refine h.log.append h.settled id
      (.single hevent (fun key args heq => (hloading key args heq).1) hraised) ?_ ?_
    · intro key args hmem result hcompleted
      exact h.not_completed (hloading key args (List.mem_singleton.mp hmem).symm).2 hcompleted
    · intro key results hmem result hcompleted hresult
      rw [hreturned key results (List.mem_singleton.mp hmem).symm,
        h.held key result hcompleted hresult]
  held key result hcompleted := by
    obtain hcompleted | hcompleted := hcompleted.of_append
    · exact h.held key result hcompleted
    · exact absurd (List.mem_singleton.mp hcompleted.mem).symm (hevent key result)

theorem Inv.returned (h : Inv preloaded s) {key : Bytes} {results : List Value}
    (hresults : results.head? = some (cached s.registry key)) :
    Inv preloaded { s with log := s.log ++ [.returned key results] } := by
  refine h.concat (fun _ _ heq => by cases heq) (fun _ _ heq => by cases heq) ?_
    fun _ _ _ heq => by cases heq
  intro key' results' heq
  obtain ⟨rfl, rfl⟩ := Event.returned.inj heq
  exact hresults

theorem Inv.raised (h : Inv preloaded s) {key : Bytes} {before : Value}
    (hsame : cached s.registry key = before) (hbefore : before.toBoolean = true → s.RanOut) :
    Inv preloaded { s with log := s.log ++ [.raised key before (cached s.registry key)] } := by
  refine h.concat (fun _ _ heq => by cases heq) (fun _ _ heq => by cases heq)
    (fun _ _ heq => by cases heq) ?_
  intro key' before' after' heq
  obtain ⟨-, rfl, rfl⟩ := Event.raised.inj heq
  exact ⟨hsame, hbefore⟩

/-- A loader has returned, and the call for its module ends: it returns with the result stored, or
raises with or without that. -/
theorem Inv.ended (h : Inv preloaded s) {key : Bytes} {result : Value} {event : Event}
    (hkey : (cached s.registry key).toBoolean = false)
    (hpreloaded : entries t.registry preloadTable = entries s.registry preloadTable)
    (hcached : ∀ other, other ≠ key → cached t.registry other = cached s.registry other)
    (hran : s.RanOut → t.RanOut)
    (hlog : t.log = s.log ++ [.completed key result])
    (hevent : (∃ results, event = .returned key results ∧
        results.head? = some (loadedAs result) ∧ cached t.registry key = loadedAs result) ∨
      (∃ before after, event = .raised key before after) ∧ t.RanOut) :
    Inv preloaded { t with log := t.log ++ [event] } := by
  have hnot : ∀ key result, event ≠ .completed key result := by
    obtain ⟨results, rfl, -⟩ | ⟨⟨before, after, rfl⟩, -⟩ := hevent <;> simp
  have hpair : KeepsLoaded t.RanOut [.completed key result, event] :=
    .pair (hevent.imp_left fun ⟨results, heq, hhead, _⟩ => ⟨results, heq, hhead⟩)
  have hwhole : t.log ++ [event] = s.log ++ [.completed key result, event] := by
    rw [hlog, List.append_assoc, List.singleton_append]
  refine ⟨hpreloaded.trans h.preloaded, settled_append hnot t.log, ?_, ?_⟩
  · change KeepsLoaded t.RanOut (t.log ++ [event])
    rw [hwhole]
    refine h.log.append h.settled hran hpair ?_ ?_
    · intro key' args hmem
      obtain heq | heq := List.mem_pair.mp hmem
      · cases heq
      · obtain ⟨results, rfl, -⟩ | ⟨⟨before, after, rfl⟩, -⟩ := hevent <;> cases heq
    · intro key' results hmem result' hcompleted hresult
      obtain heq | heq := List.mem_pair.mp hmem
      · cases heq
      · obtain ⟨results', rfl, -⟩ | ⟨⟨before, after, rfl⟩, -⟩ := hevent
        · obtain ⟨rfl, rfl⟩ := Event.returned.inj heq
          exact absurd (h.not_completed hkey hcompleted) hresult
        · cases heq
  · intro key' result' hcompleted hresult
    change Completed (t.log ++ [event]) key' result' at hcompleted
    rw [hwhole] at hcompleted
    obtain hbefore | ⟨first, last, heq, hnext⟩ := hcompleted.of_append
    · have hne : key' ≠ key := by
        rintro rfl
        exact hresult (h.not_completed hkey hbefore)
      exact (hcached key' hne).trans (h.held key' result' hbefore hresult)
    · obtain _ | ⟨x, first⟩ := first
      · obtain ⟨hx, rfl⟩ := List.cons.inj heq
        obtain ⟨rfl, rfl⟩ := Event.completed.inj hx
        obtain ⟨results, rfl, -, hstored⟩ | ⟨⟨before, after, rfl⟩, -⟩ := hevent
        · exact hstored
        · exact absurd ⟨before, after, [], rfl⟩ hnext
      · have hmem : .completed key' result' ∈ [event] := by
          rw [(List.cons.inj heq).2]
          exact List.mem_append_right _ List.mem_cons_self
        exact absurd (List.mem_singleton.mp hmem).symm (hnot key' result')

end Invariant

section Specs

variable {tgt : Target} {core : Core σ} {preloaded : Entries}

/-- The modules that a call with these arguments may load: its own, and what that depends
on. -/
def Reaches (tgt : Target) (core : Core σ) (preloaded : Entries) (args : List Value)
    (other : Bytes) : Prop :=
  ∃ key, moduleOf tgt args = some key ∧
    ReflTransGen (DependsOn tgt core preloaded) other key

/-- What is asked of calling a loader: in the end its result is noted. -/
def CallSpec (tgt : Target) (core : Core σ) (preloaded : Entries)
    (call : Bytes → Value → List Value → RequireM σ (List Value)) : Prop :=
  ∀ name s, Inv preloaded s → (cached s.registry (CString.text name)).toBoolean = false →
    wp (call (CString.text name) (rawGet preloaded (CString.text name))
        [.string name, .string preloadLiteral])
      (fun results u => ∃ t,
        u = { t with log := t.log ++
          [.completed (CString.text name) (results.head?.getD .nil)] } ∧
        Inv preloaded t ∧
        Moves (TransGen (DependsOn tgt core preloaded) · (CString.text name)) s t)
      (fun e t => (∃ error, e = .error error) ∧ Inv preloaded t ∧
        Moves (TransGen (DependsOn tgt core preloaded) · (CString.text name)) s t) s

variable {s : RequireState σ} {E : Exn → RequireState σ → Prop}

theorem wp_inFrame {args : List Value} {method : RequireM σ Nat}
    {Q : List Value → RequireState σ → Prop}
    (h : wp method
      (fun n t => ∃ results, (t.stack.take n).reverse.mapM Slot.value? = some results ∧
        Q results { t with stack := s.stack })
      (fun e t => E e { t with stack := s.stack })
      { s with stack := (args.map Slot.value).reverse }) : wp (inFrame args method) Q E s := by
  unfold wp inFrame at *
  cases hrun : method { s with stack := (args.map Slot.value).reverse } with
  | ok n t =>
      rw [hrun] at h
      obtain ⟨results, hresults, hQ⟩ := h
      simp only [hresults]
      exact hQ
  | error e t =>
      rw [hrun] at h
      exact h

theorem wp_noted {key : Bytes} {m : RequireM σ (List Value)}
    {Q : List Value → RequireState σ → Prop} :
    wp (noted (some key) m) Q E s ↔ wp m
      (fun results t => Q results { t with log := t.log ++ [.returned key results] })
      (fun e t => E e { t with
        log := t.log ++ [.raised key (cached s.registry key) (cached t.registry key)] }) s := by
  unfold wp noted
  cases m s with
  | ok results t => exact Iff.rfl
  | error e t => exact Iff.rfl

theorem wp_noted_none {m : RequireM σ (List Value)} {Q : List Value → RequireState σ → Prop} :
    wp (noted none m) Q E s ↔ wp m Q E s := Iff.rfl

/-- The call of a loader for a module that does not count as loaded, with what `luaz_require`
may do afterwards. -/
theorem wp_loader (hacyclic : Acyclic tgt core preloaded)
    {call : Bytes → Value → List Value → RequireM σ (List Value)}
    (hcall : CallSpec tgt core preloaded call) {name : Bytes} (hs : Inv preloaded s)
    (hmiss : (cached s.registry (CString.text name)).toBoolean = false)
    {t : RequireState σ} (hquiet : Quiet s t) :
    wp (call (CString.text name) (rawGet preloaded (CString.text name))
        [.string name, .string preloadLiteral])
      (fun results u => u.stack = t.stack ∧ ∀ v event,
        (Quiet u v ∨ Stores (CString.text name) (loadedAs (results.head?.getD .nil)) u v) →
        ((∃ returned, event = .returned (CString.text name) returned ∧
            returned.head? = some (loadedAs (results.head?.getD .nil)) ∧
            cached v.registry (CString.text name) = loadedAs (results.head?.getD .nil)) ∨
          (∃ before after, event = .raised (CString.text name) before after) ∧ v.RanOut) →
        Inv preloaded { v with stack := s.stack, log := v.log ++ [event] } ∧
          Moves (ReflTransGen (DependsOn tgt core preloaded) · (CString.text name)) s
            { v with stack := s.stack, log := v.log ++ [event] })
      (fun e u => (∃ error, e = .error error) ∧ Inv preloaded u ∧
        cached u.registry (CString.text name) = cached s.registry (CString.text name) ∧
        Moves (ReflTransGen (DependsOn tgt core preloaded) · (CString.text name)) s
          { u with stack := s.stack }) t := by
  have hmiss' : (cached t.registry (CString.text name)).toBoolean = false := by
    rwa [hquiet.cached]
  refine (hcall name t (hs.quiet hquiet) hmiss').mono ?_ ?_
  · rintro results u ⟨u', rfl, hinv, hmoves⟩
    -- The loader cannot have come back to its own module.
    have hstill := hmoves.unchanged (hacyclic _)
    have hmissed : (cached u'.registry (CString.text name)).toBoolean = false := by rwa [hstill]
    have hframe : Moves (TransGen (DependsOn tgt core preloaded) · (CString.text name)) s
        { u' with stack := s.stack } := hmoves.quiet hquiet (Quiet.of_stack u' s.stack) rfl
    refine ⟨hmoves.stack, fun v event hends hevent => ?_⟩
    let w : RequireState σ := { v with stack := s.stack }
    obtain hv | hv := hends
    · refine ⟨hinv.ended (t := w) hmissed (hv.entries _) (fun other _ => hv.cached other)
        (fun hran => hran.mono hv.apiFails hv.apiCalls) hv.log hevent, rfl, ?_, ?_, ?_⟩
      · exact hv.apiFails.trans hframe.apiFails
      · intro key hkey
        exact (hv.cached key).trans (hframe.kept key hkey)
      · intro key hne
        exact (hframe.only key fun hsame => hne ((hv.cached key).trans hsame)).to_reflTransGen
    · have hpreload : entries v.registry preloadTable = entries u'.registry preloadTable := by
        rw [hv.entries, if_neg (by decide)]
      have hothers : ∀ other, other ≠ CString.text name →
          cached v.registry other = cached u'.registry other := by
        intro other hne
        rw [hv.cached, if_neg hne.symm]
      refine ⟨hinv.ended (t := w) hmissed hpreload hothers
        (fun hran => hran.mono hv.apiFails hv.apiCalls) hv.log hevent, ?_⟩
      have hstores : Stores (CString.text name) (loadedAs (results.head?.getD .nil))
          { u' with stack := s.stack } { v with stack := s.stack, log := u'.log } :=
        ⟨hv.entries, hv.world, hv.apiFails, rfl, hv.apiCalls⟩
      have hstored := hframe.stored hmiss hstores rfl
      refine Moves.mono ⟨rfl, hstored.apiFails, hstored.kept, hstored.only⟩ ?_
      rintro other (rfl | hpath)
      · exact .refl
      · exact hpath.to_reflTransGen
  · rintro e u ⟨herror, hinv, hmoves⟩
    have hstill := hmoves.unchanged (hacyclic _)
    rw [hquiet.cached] at hstill
    have hmoves' : Moves (TransGen (DependsOn tgt core preloaded) · (CString.text name)) s
        { u with stack := s.stack } := hmoves.quiet hquiet (Quiet.of_stack u s.stack) rfl
    exact ⟨herror, hinv, hstill, hmoves'.mono fun other hpath => hpath.to_reflTransGen⟩

/-- The frame of a call has been given up. -/
theorem Quiet.left {args : List Value} {t : RequireState σ}
    (h : Quiet { s with stack := (args.map Slot.value).reverse } t) :
    Quiet s { t with stack := s.stack } :=
  (Quiet.of_stack s _).trans (h.trans (Quiet.of_stack t _))

/-- A call for what is no name of a module raises. -/
theorem wp_call_unnamed {call : Bytes → Value → List Value → RequireM σ (List Value)}
    {args : List Value} (hname : nameOf tgt args = none) (hs : Inv preloaded s)
    {Q : List Value → RequireState σ → Prop} :
    wp (noted (moduleOf tgt args) (inFrame args (luazRequire tgt call))) Q
      (fun e t => (∃ error, e = .error error) ∧ Inv preloaded t ∧
        Moves (Reaches tgt core preloaded args) s t) s := by
  have hmodule : moduleOf tgt args = none := by
    rw [moduleOf_eq, hname]
    rfl
  rw [hmodule, wp_noted_none]
  have hends (t : RequireState σ)
      (hquiet : Quiet { s with stack := (args.map Slot.value).reverse } t) :
      Inv preloaded { t with stack := s.stack } ∧
        Moves (Reaches tgt core preloaded args) s { t with stack := s.stack } :=
    ⟨hs.quiet hquiet.left, .of_eq rfl hquiet.apiFails hquiet.left.cached⟩
  refine wp_inFrame (wp_luazRequire_bad ?_ hname rfl ?_)
  · exact fun t hquiet _ => ⟨⟨_, rfl⟩, hends t hquiet⟩
  · exact ⟨⟨_, rfl⟩, hends _ (Quiet.refl _)⟩

/-- A call of `require` keeps the invariant, and loads no more than it may. -/
theorem wp_call (hacyclic : Acyclic tgt core preloaded)
    {call : Bytes → Value → List Value → RequireM σ (List Value)}
    (hcall : CallSpec tgt core preloaded call) (args : List Value) (hs : Inv preloaded s) :
    wp (noted (moduleOf tgt args) (inFrame args (luazRequire tgt call)))
      (fun _ t => Inv preloaded t ∧ Moves (Reaches tgt core preloaded args) s t)
      (fun e t => (∃ error, e = .error error) ∧ Inv preloaded t ∧
        Moves (Reaches tgt core preloaded args) s t) s := by
  let framed : RequireState σ := { s with stack := (args.map Slot.value).reverse }
  cases hname : nameOf tgt args with
  | none => exact wp_call_unnamed hname hs
  | some name =>
      have hmodule : moduleOf tgt args = some (CString.text name) := by
        rw [moduleOf_eq, hname]
        rfl
      have hwider {w : RequireState σ} (hmoves : Moves
          (ReflTransGen (DependsOn tgt core preloaded) · (CString.text name)) s w) :
          Moves (Reaches tgt core preloaded args) s w :=
        hmoves.mono fun other hpath => ⟨_, hmodule, hpath⟩
      have hquiets {t : RequireState σ} (hquiet : Quiet framed t) (log : List Event) :
          Moves (Reaches tgt core preloaded args) s { t with stack := s.stack, log := log } :=
        .of_eq rfl hquiet.apiFails hquiet.left.cached
      rw [hmodule, wp_noted]
      refine wp_inFrame (wp_luazRequire (s := framed) ?_ hname rfl ?_ ?_ ?_)
      · -- Memory runs out before the loader is called.
        intro t hquiet hran
        exact ⟨⟨_, rfl⟩, (hs.quiet hquiet.left).raised (hquiet.left.cached _) fun _ => hran,
          hquiets hquiet _⟩
      · intro hhit t more hquiet hstack
        refine ⟨[cached s.registry (CString.text name)], ?_,
          (hs.quiet hquiet.left).returned ?_, hquiets hquiet _⟩
        · rw [hstack]
          rfl
        · rw [hquiet.left.cached]
          rfl
      · intro hmiss e t hquiet
        exact ⟨⟨e, rfl⟩, (hs.quiet hquiet.left).raised (hquiet.left.cached _)
          fun hhit => absurd hhit (Bool.eq_false_iff.mp hmiss), hquiets hquiet _⟩
      · intro hmiss t hquiet
        have hentry : entries framed.registry preloadTable = preloaded := hs.preloaded
        rw [hentry]
        refine (wp_loader hacyclic hcall hs hmiss ((Quiet.of_stack s _).trans hquiet)).mono ?_ ?_
        · rintro results u ⟨hstack, hends⟩
          refine ⟨hstack, fun v hv hran => ?_, fun v hv w hw hran => ?_,
            fun v more hstores hpushed => ?_⟩
          · exact ⟨⟨_, rfl⟩, (hends v _ (.inl hv) (.inr ⟨⟨_, _, rfl⟩, hran⟩)).imp_right hwider⟩
          · exact ⟨⟨_, rfl⟩,
              (hends w _ (.inr (hv.trans_quiet hw)) (.inr ⟨⟨_, _, rfl⟩, hran⟩)).imp_right hwider⟩
          · have hcached : cached v.registry (CString.text name) =
                loadedAs (results.head?.getD .nil) := by
              rw [hstores.cached, if_pos rfl]
            refine ⟨[loadedAs (results.head?.getD .nil), .string preloadLiteral], ?_,
              (hends v _ (.inr hstores) (.inl ⟨_, rfl, rfl, hcached⟩)).imp_right hwider⟩
            rw [hpushed]
            rfl
        · rintro e u ⟨herror, hinv, hstill, hmoves⟩
          have hwide := hwider hmoves
          exact ⟨herror, (hinv.quiet (Quiet.of_stack u s.stack)).raised hstill
            fun hhit => absurd hhit (Bool.eq_false_iff.mp hmiss),
            hwide.stack, hwide.apiFails, hwide.kept, hwide.only⟩

/-- A piece of code performs a call. -/
theorem wp_perform {call : List Value → RequireM σ (List Value)} {op : RequireCall σ}
    {R : Bytes → Prop}
    (hcall : ∀ s, Inv preloaded s → wp (call op.args)
      (fun _ t => Inv preloaded t ∧ Moves R s t)
      (fun e t => (∃ error, e = .error error) ∧ Inv preloaded t ∧ Moves R s t) s)
    (hs : Inv preloaded s) :
    wp (perform call op) (fun _ t => Inv preloaded t ∧ Moves R s t) (fun _ _ => False) s := by
  have hworld : Inv preloaded { s with world := op.world } :=
    ⟨hs.preloaded, hs.settled, hs.log, hs.held⟩
  have hrun := hcall _ hworld
  unfold wp perform at *
  cases hresult : call op.args { s with world := op.world } with
  | ok results t =>
      rw [hresult] at hrun
      obtain ⟨hinv, hmoves⟩ := hrun
      exact ⟨hinv, hmoves.stack, hmoves.apiFails, hmoves.kept, hmoves.only⟩
  | error e t =>
      rw [hresult] at hrun
      obtain ⟨⟨error, rfl⟩, hinv, hmoves⟩ := hrun
      exact ⟨hinv, hmoves.stack, hmoves.apiFails, hmoves.kept, hmoves.only⟩

/-- The core calls a loader, at any depth. -/
theorem callLoader_spec (hacyclic : Acyclic tgt core preloaded) (depth : Nat) :
    CallSpec tgt core preloaded (callLoader tgt core depth) := by
  induction depth with
  | zero =>
      intro name s hs hkey
      exact ⟨⟨_, rfl⟩, hs, .of_eq rfl rfl fun _ => rfl⟩
  | succ depth ih =>
      intro name s hs hkey
      have hstart : Inv preloaded { s with log := s.log ++
          [.loading (CString.text name) [.string name, .string preloadLiteral]] } := by
        refine hs.concat (fun _ _ heq => by cases heq) ?_ (fun _ _ heq => by cases heq)
          (fun _ _ _ heq => by cases heq)
        intro key args heq
        obtain ⟨rfl, rfl⟩ := Event.loading.inj heq
        exact ⟨⟨name, rfl, rfl⟩, hkey⟩
      simp only [callLoader, note, wp_bind, wp_modify, wp_get]
      refine (Prog.wp_embed_invariant (I := fun t => Inv preloaded t ∧
        Moves (TransGen (DependsOn tgt core preloaded) · (CString.text name)) s t)
        (E := fun _ _ => False) ?_ ⟨hstart, .of_eq rfl rfl fun _ => rfl⟩).mono ?_ ?_
      · rintro op hasks t ⟨ht, hmoves⟩
        refine (wp_perform (fun u hu => wp_call hacyclic ih op.args hu) ht).mono ?_
          fun _ _ hfalse => hfalse
        rintro r u ⟨hu, hmoves'⟩
        refine ⟨hu, hmoves.trans (hmoves'.mono ?_)⟩
        rintro other ⟨key, hmodule, hpath⟩
        exact TransGen.tail' hpath ⟨name, s.world, op, rfl, hasks, hmodule⟩
      · rintro ⟨result, world⟩ t ⟨ht, hmoves⟩
        have hworld : Inv preloaded { t with world := world } :=
          ⟨ht.preloaded, ht.settled, ht.log, ht.held⟩
        have hmoves' : Moves (TransGen (DependsOn tgt core preloaded) · (CString.text name)) s
            { t with world := world } :=
          ⟨hmoves.stack, hmoves.apiFails, hmoves.kept, hmoves.only⟩
        cases result with
        | ok results => exact ⟨_, rfl, hworld, hmoves'⟩
        | error e => exact ⟨⟨e, rfl⟩, hworld, hmoves'⟩
      · exact fun _ _ hfalse => hfalse.elim

end Specs

/-- A Lua state before any module is required. -/
def RequireState.start (registry : Bytes → Option Entries) (world : σ)
    (apiFails : Nat → Bool) : RequireState σ where
  stack := []
  registry := registry
  world := world
  apiFails := apiFails
  apiCalls := 0
  log := []

/-- Whatever calls of `require` a script makes, in whatever order and whichever of them it
catches, each module is loaded once. Only a call that runs out of memory after its loader has
returned does not keep the module, and with memory there is none. -/
theorem runScript_loadsOnce (tgt : Target) (core : Core σ) (registry : Bytes → Option Entries)
    (hacyclic : Acyclic tgt core (entries registry preloadTable)) (world : σ)
    (apiFails : Nat → Bool) (depth : Nat) (script : Code σ) :
    ∃ result t, runScript tgt core depth script (RequireState.start registry world apiFails) =
        .ok result t ∧
      KeepsLoaded (∃ call < t.apiCalls, apiFails call = true) t.log ∧
      ((∀ call < t.apiCalls, apiFails call = false) → LoadsOnce t.log) := by
  let start := RequireState.start registry world apiFails
  have hstart : Inv (entries registry preloadTable) start := by
    refine ⟨rfl, ?_, KeepsLoaded.nil _, ?_⟩
    · intro first key result heq
      exact List.append_ne_nil_of_right_ne_nil first (List.cons_ne_nil _ _) heq.symm
    · exact fun key result hcompleted => absurd hcompleted.mem List.not_mem_nil
  have hrun : wp (runScript tgt core depth script)
      (fun _ t => Inv (entries registry preloadTable) t ∧ Moves (fun _ => True) start t)
      (fun _ _ => False) start := by
    refine Prog.wp_embed_invariant
      (I := fun t => Inv (entries registry preloadTable) t ∧ Moves (fun _ => True) start t)
      ?_ ⟨hstart, .of_eq rfl rfl fun _ => rfl⟩
    rintro op - s ⟨hs, hmoves⟩
    refine (wp_perform (fun u hu => wp_call hacyclic (callLoader_spec hacyclic depth) op.args hu)
      hs).mono ?_ fun _ _ hfalse => hfalse
    rintro reply t ⟨ht, hmoves'⟩
    exact ⟨ht, hmoves.trans (hmoves'.mono fun _ _ => trivial)⟩
  obtain ⟨result, t, hrun, ht, hmoves⟩ | ⟨e, t, -, hfalse⟩ := wp_iff.mp hrun
  · have hlog : KeepsLoaded (∃ call < t.apiCalls, apiFails call = true) t.log :=
      ht.log.mono fun ⟨call, hlt, hcall⟩ =>
        ⟨call, hlt, (congrFun hmoves.apiFails call).symm.trans hcall⟩
    refine ⟨result, t, hrun, hlog, fun hmemory => hlog.loadsOnce ?_⟩
    rintro ⟨call, hlt, hcall⟩
    rw [hmemory call hlt] at hcall
    contradiction
  · exact hfalse.elim

/-- Two modules, of which `a` requires `b` and returns nil. -/
def sampleCore : Core Unit where
  call f _ world :=
    match f with
    | .other 1 => .call ⟨[.string (ascii "b")], world⟩ fun reply => .done (.ok [], reply.2)
    | .other 2 => .done (.ok [.integer 7], world)
    | _ => .done (.error (.runtime "attempt to call a value"), world)

def sampleRegistry (name : Bytes) : Option Entries :=
  if name = preloadTable then some [(ascii "a", .other 1), (ascii "b", .other 2)] else none

/-- The script requires `a` twice. -/
def sampleScript : Code Unit :=
  .call ⟨[.string (ascii "a")], ⟨⟩⟩ fun first => .call ⟨[.string (ascii "a")], first.2⟩ .done

theorem acyclic_sample :
    Acyclic Target.sample sampleCore (entries sampleRegistry preloadTable) := by
  refine Acyclic.of_rank (fun key => if key = ascii "a" then 1 else 0) ?_
  rintro dependency key ⟨name, world, op, -, hasks, hmodule⟩
  have hentries : entries sampleRegistry preloadTable =
      [(ascii "a", .other 1), (ascii "b", .other 2)] := rfl
  rw [hentries, rawGet_cons, rawGet_cons, rawGet_nil] at hasks
  by_cases ha : ascii "a" = key
  · rw [if_pos ha] at hasks
    cases hasks with
    | here =>
        obtain rfl := Option.some.inj hmodule
        rw [if_pos ha.symm]
        decide
    | later reply hlater => cases hlater
  · rw [if_neg ha] at hasks
    by_cases hb : ascii "b" = key
    · rw [if_pos hb] at hasks
      cases hasks
    · rw [if_neg hb] at hasks
      cases hasks

theorem runScript_loadsOnce_twoModules :
    ∃ result t, runScript Target.sample sampleCore 10 sampleScript
        (RequireState.start sampleRegistry ⟨⟩ fun _ => false) = .ok result t ∧ LoadsOnce t.log := by
  obtain ⟨result, t, hrun, -, honce⟩ := runScript_loadsOnce Target.sample sampleCore
    sampleRegistry acyclic_sample ⟨⟩ (fun _ => false) 10 sampleScript
  exact ⟨result, t, hrun, honce fun _ _ => rfl⟩

/-- The log of a run. -/
def eventsOf (m : RequireM σ (Except LuaError (List Value) × σ)) (s : RequireState σ) :
    List Event :=
  match m s with
  | .ok _ t => t.log
  | .error _ t => t.log

example : eventsOf (runScript Target.sample sampleCore 10 sampleScript)
    (RequireState.start sampleRegistry ⟨⟩ fun _ => false) =
    [.loading (ascii "a") [.string (ascii "a"), .string preloadLiteral],
      .loading (ascii "b") [.string (ascii "b"), .string preloadLiteral],
      .completed (ascii "b") (.integer 7),
      .returned (ascii "b") [.integer 7, .string preloadLiteral],
      .completed (ascii "a") .nil,
      .returned (ascii "a") [.boolean true, .string preloadLiteral],
      .returned (ascii "a") [.boolean true]] := by
  decide +kernel

theorem LoadsOnce.of_wp {m : RequireM σ (Except LuaError (List Value) × σ)} {s : RequireState σ}
    (h : wp m (fun _ t => LoadsOnce t.log) (fun _ _ => False) s) : LoadsOnce (eventsOf m s) := by
  obtain ⟨result, t, hrun, hlog⟩ | ⟨e, t, -, hfalse⟩ := wp_iff.mp h
  · rw [eventsOf, hrun]
    exact hlog
  · exact hfalse.elim

/-- The script requires `b`, and again whether or not that raises. -/
def retryScript : Code Unit :=
  .call ⟨[.string (ascii "b")], ⟨⟩⟩ fun first => .call ⟨[.string (ascii "b")], first.2⟩ .done

/-- The eighth allocation is the one in which the module is stored. -/
theorem not_loadsOnce_memory :
    Acyclic Target.sample sampleCore (entries sampleRegistry preloadTable) ∧
    ¬ wp (runScript Target.sample sampleCore 10 retryScript) (fun _ t => LoadsOnce t.log)
      (fun _ _ => False) (RequireState.start sampleRegistry ⟨⟩ (· == 7)) := by
  have hlog : eventsOf (runScript Target.sample sampleCore 10 retryScript)
      (RequireState.start sampleRegistry ⟨⟩ (· == 7)) =
      [.loading (ascii "b") [.string (ascii "b"), .string preloadLiteral]] ++
      .completed (ascii "b") (.integer 7) :: [.raised (ascii "b") .nil .nil,
        .loading (ascii "b") [.string (ascii "b"), .string preloadLiteral],
        .completed (ascii "b") (.integer 7),
        .returned (ascii "b") [.integer 7, .string preloadLiteral]] := by
    decide +kernel
  refine And.intro acyclic_sample (mt LoadsOnce.of_wp ?_)
  rw [hlog]
  intro hloads
  have honce := hloads.once _ _ _ _ rfl (by simp)
  exact honce [.string (ascii "b"), .string preloadLiteral] (by simp)

end LuaZephyr.Require
