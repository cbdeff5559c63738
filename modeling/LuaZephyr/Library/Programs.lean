import LuaZephyr.Library.Outcome
import LuaZephyr.Library.Runs
import Mathlib.Logic.Function.Basic

/-!
# Programs that ask their environment

A program is done, or asks for an operation and goes on with the reply. What an operation
does is left to a handler, so that one program can be run alone, be embedded in a larger
computation, or take its steps among those of other programs.

Programs are finite trees, so a loop of the source is here a recursion over something that gets
smaller. Replies are total: an operation that never returns, or one that fails, has to say so in
its reply. Handlers for threads step one operation at a time.
-/

namespace Programs

variable {Op : Type} {Reply : Op → Type} {α β : Type}

inductive Prog (Op : Type) (Reply : Op → Type) (α : Type) where
  | done (a : α)
  | call (op : Op) (next : Reply op → Prog Op Reply α)

namespace Prog

def bind (p : Prog Op Reply α) (f : α → Prog Op Reply β) : Prog Op Reply β :=
  match p with
  | .done a => f a
  | .call op next => .call op fun r => (next r).bind f

instance : Monad (Prog Op Reply) where
  pure := .done
  bind := bind

/-- Ask for one operation. -/
def perform (op : Op) : Prog Op Reply (Reply op) := .call op .done

@[simp] theorem done_bind (a : α) (f : α → Prog Op Reply β) : (Prog.done a >>= f) = f a := rfl

@[simp] theorem pure_bind (a : α) (f : α → Prog Op Reply β) :
    ((pure a : Prog Op Reply α) >>= f) = f a := rfl

@[simp] theorem call_bind (op : Op) (next : Reply op → Prog Op Reply α)
    (f : α → Prog Op Reply β) : (Prog.call op next >>= f) = .call op fun r => next r >>= f := rfl

@[simp] theorem perform_bind (op : Op) (f : Reply op → Prog Op Reply β) :
    (perform op >>= f) = .call op f := rfl

section Exec

variable {σ : Type} (handle : (op : Op) → σ → Reply op × σ)

/-- Run the program with nothing else going on. -/
def exec : Prog Op Reply α → σ → α × σ
  | .done a, s => (a, s)
  | .call op next, s => (next (handle op s).1).exec (handle op s).2

@[simp] theorem exec_done (a : α) (s : σ) :
    (Prog.done a : Prog Op Reply α).exec handle s = (a, s) := rfl

@[simp] theorem exec_pure (a : α) (s : σ) :
    (pure a : Prog Op Reply α).exec handle s = (a, s) := rfl

@[simp] theorem exec_call (op : Op) (next : Reply op → Prog Op Reply α) (s : σ) :
    (Prog.call op next).exec handle s = (next (handle op s).1).exec handle (handle op s).2 := rfl

/-- The second program goes on where the first has ended. -/
theorem exec_bind (p : Prog Op Reply α) (f : α → Prog Op Reply β) (s : σ) :
    (p >>= f).exec handle s = (f (p.exec handle s).1).exec handle (p.exec handle s).2 := by
  induction p generalizing s with
  | done a => rfl
  | call op next ih => exact ih _ _

end Exec

section Embed

open Outcome

variable {ε σ : Type} (handle : (op : Op) → EStateM ε σ (Reply op))

/-- Perform each operation as the larger computation does. -/
def embed : Prog Op Reply α → EStateM ε σ α
  | .done a => pure a
  | .call op next => handle op >>= fun r => (next r).embed

variable {handle} {Q : α → σ → Prop} {E : ε → σ → Prop} {s : σ}

@[simp] theorem wp_embed_pure {a : α} :
    wp ((pure a : Prog Op Reply α).embed handle) Q E s ↔ Q a s := Iff.rfl

theorem wp_embed_perform_bind (op : Op) (f : Reply op → Prog Op Reply α) :
    wp ((perform op >>= f).embed handle) Q E s ↔
      wp (handle op) (fun r t => wp ((f r).embed handle) Q E t) E s := wp_bind

end Embed

/-- Under some replies the program asks for this operation. -/
inductive Asks (op : Op) : Prog Op Reply α → Prop
  | here {next : Reply op → Prog Op Reply α} : Asks op (.call op next)
  | later {op' : Op} {next : Reply op' → Prog Op Reply α} (r : Reply op')
      (h : Asks op (next r)) : Asks op (.call op' next)

theorem not_asks_done {a : α} {op : Op} : ¬ (Prog.done a : Prog Op Reply α).Asks op := by
  intro h
  cases h

theorem asks_call {op op' : Op} {next : Reply op' → Prog Op Reply α} :
    (Prog.call op' next).Asks op ↔ op = op' ∨ ∃ r, (next r).Asks op := by
  constructor
  · intro h
    cases h with
    | here => exact .inl rfl
    | later r h => exact .inr ⟨r, h⟩
  · rintro (rfl | ⟨r, h⟩)
    · exact .here
    · exact .later r h

/-- What every operation keeps for which the program may ask, the program keeps. -/
theorem wp_embed_invariant {ε σ : Type} {handle : (op : Op) → EStateM ε σ (Reply op)}
    {I : σ → Prop} {E : ε → σ → Prop} {p : Prog Op Reply α}
    (hhandle : ∀ op, p.Asks op → ∀ s, I s → Outcome.wp (handle op) (fun _ t => I t) E s)
    {s : σ} (hs : I s) : Outcome.wp (p.embed handle) (fun _ t => I t) E s := by
  induction p generalizing s with
  | done a => exact hs
  | call op next ih =>
      have hop := hhandle op .here s hs
      refine Outcome.wp_bind.mpr (hop.mono ?_ fun e t h => h)
      intro r t ht
      exact ih r (fun op' hasks => hhandle op' (.later r hasks)) ht

/-- The program asks for these operations, gets these replies, and goes on as the second. -/
inductive Leads : Prog Op Reply α → List ((op : Op) × Reply op) → Prog Op Reply α → Prop
  | nil (p : Prog Op Reply α) : Leads p [] p
  | cons {op : Op} {next : Reply op → Prog Op Reply α} {r : Reply op}
      {asked : List ((op : Op) × Reply op)} {q : Prog Op Reply α} (h : Leads (next r) asked q) :
      Leads (.call op next) (⟨op, r⟩ :: asked) q

theorem leads_done {a : α} {asked : List ((op : Op) × Reply op)} {q : Prog Op Reply α} :
    (Prog.done a : Prog Op Reply α).Leads asked q ↔ asked = [] ∧ q = .done a := by
  constructor
  · intro h
    cases h
    exact ⟨rfl, rfl⟩
  · rintro ⟨rfl, rfl⟩
    exact .nil _

theorem leads_call {op : Op} {next : Reply op → Prog Op Reply α}
    {asked : List ((op : Op) × Reply op)} {q : Prog Op Reply α} :
    (Prog.call op next).Leads asked q ↔ asked = [] ∧ q = .call op next ∨
      ∃ r rest, asked = ⟨op, r⟩ :: rest ∧ (next r).Leads rest q := by
  constructor
  · intro h
    cases h with
    | nil => exact .inl ⟨rfl, rfl⟩
    | cons h => exact .inr ⟨_, _, rfl, h⟩
  · rintro (⟨rfl, rfl⟩ | ⟨r, rest, rfl, h⟩)
    · exact .nil _
    · exact .cons h

/-- One more operation. -/
theorem Leads.concat {p : Prog Op Reply α} {asked : List ((op : Op) × Reply op)} {op : Op}
    {next : Reply op → Prog Op Reply α} (h : p.Leads asked (.call op next)) (r : Reply op) :
    p.Leads (asked ++ [⟨op, r⟩]) (next r) := by
  generalize hq : Prog.call op next = q at h
  induction h with
  | nil p =>
      subst hq
      exact .cons (.nil _)
  | cons h ih => exact .cons (ih hq)

/-- A program in two parts is in the first, or has done the first. -/
theorem Leads.of_bind {p : Prog Op Reply α} {f : α → Prog Op Reply β}
    {asked : List ((op : Op) × Reply op)} {q : Prog Op Reply β} (h : (p >>= f).Leads asked q) :
    (∃ op next, p.Leads asked (.call op next) ∧ q = .call op fun r => next r >>= f) ∨
      ∃ a first second, asked = first ++ second ∧ p.Leads first (.done a) ∧
        (f a).Leads second q := by
  induction p generalizing asked with
  | done a => exact .inr ⟨a, [], asked, rfl, .nil _, h⟩
  | call op next ih =>
      rw [call_bind, leads_call] at h
      obtain ⟨rfl, rfl⟩ | ⟨r, rest, rfl, h⟩ := h
      · exact .inl ⟨op, next, .nil _, rfl⟩
      · obtain ⟨op', next', hleads, hq⟩ | ⟨a, first, second, rfl, hfirst, hsecond⟩ := ih r h
        · exact .inl ⟨op', next', .cons hleads, hq⟩
        · exact .inr ⟨a, _, second, rfl, .cons hfirst, hsecond⟩

/-- What has been asked for, and what is asked for next, may be asked for. -/
theorem Leads.asks {p q : Prog Op Reply α} {asked : List ((op : Op) × Reply op)}
    (h : p.Leads asked q) {op : Op} (hop : (∃ r, ⟨op, r⟩ ∈ asked) ∨ q.Asks op) : p.Asks op := by
  induction h with
  | nil p =>
      obtain ⟨r, hr⟩ | hop := hop
      · contradiction
      · exact hop
  | @cons op' next r asked q h ih =>
      obtain ⟨r', hr'⟩ | hop := hop
      · obtain heq | hmem := List.mem_cons.mp hr'
        · obtain rfl := (Sigma.mk.inj heq).1
          exact .here
        · exact .later r (ih (.inl ⟨r', hmem⟩))
      · exact .later r (ih (.inr hop))

section Ends

variable {G : Type} (track : G → (op : Op) → Reply op → G)

/-- With allowed replies the program's result satisfies `Q`. `track` follows what the program
has been told, which may decide what is allowed. -/
def Ends (allowed : G → (op : Op) → Reply op → Prop) (Q : α → Prop) : Prog Op Reply α → G → Prop
  | .done a, _ => Q a
  | .call op next, g => ∀ r, allowed g op r → (next r).Ends allowed Q (track g op r)

variable {track} {allowed : G → (op : Op) → Reply op → Prop}

theorem ends_perform_bind {Q : β → Prop} {g : G} (op : Op) (f : Reply op → Prog Op Reply β) :
    (perform op >>= f).Ends track allowed Q g ↔
      ∀ r, allowed g op r → (f r).Ends track allowed Q (track g op r) := Iff.rfl

/-- A result that is only passed on. -/
theorem Ends.map {Q : α → Prop} {R : β → Prop} {p : Prog Op Reply α} {f : α → β} {g : G}
    (h : p.Ends track allowed Q g) (hf : ∀ a, Q a → R (f a)) :
    (p >>= fun a => (pure (f a) : Prog Op Reply β)).Ends track allowed R g := by
  induction p generalizing g with
  | done a => exact hf a h
  | call op next ih => exact fun r hr => ih r (h r hr)

end Ends

end Prog

section Interleaved

/-- The shared state and the program each thread is in the middle of. -/
structure Threads (Op : Type) (Reply : Op → Type) (α σ : Type) where
  shared : σ
  running : Nat → Option (Prog Op Reply α)

/-- A thread starts one of the programs, or takes a step. What the environment is free to
do in the step is its choice. -/
inductive Move (K C : Type) where
  | start (thread : Nat) (k : K)
  | advance (thread : Nat) (choice : C)
  deriving DecidableEq, Repr

variable {K C σ : Type} (body : K → Prog Op Reply α)
  (handle : Nat → (op : Op) → C → σ → Reply op × σ)

/-- One step. A thread starts a program only after it has finished the last one; a finished
program gives its result. -/
def Threads.step (s : Threads Op Reply α σ) : Move K C → Option α × Threads Op Reply α σ
  | .start thread k =>
      match s.running thread with
      | none => (none, { s with running := Function.update s.running thread (some (body k)) })
      | some _ => (none, s)
  | .advance thread choice =>
      match s.running thread with
      | none => (none, s)
      | some (.done a) => (some a, { s with running := Function.update s.running thread none })
      | some (.call op next) =>
          (none, ⟨(handle thread op choice s.shared).2,
            Function.update s.running thread (some (next (handle thread op choice s.shared).1))⟩)

/-- The operation a move performs, if it performs one. -/
def Threads.performs (s : Threads Op Reply α σ) : Move K C → Option (Nat × Op × C)
  | .start _ _ => none
  | .advance thread choice =>
      match s.running thread with
      | some (.call op _) => some (thread, op, choice)
      | _ => none

variable {X G : Type} (track : G → (op : Op) → Reply op → G) (told : σ → Nat → G)
  (within : X → σ → Prop) (allowed : X → G → (op : Op) → Reply op → Prop) (Q : X → α → Prop)

/-- Every program in progress ends in `Q`, for whatever the shared state is within. What each
thread has been told is kept in the shared state. -/
def Threads.OnCourse (s : Threads Op Reply α σ) : Prop :=
  ∀ thread p, s.running thread = some p → ∀ x, within x s.shared →
    p.Ends track (allowed x) (Q x) (told s.shared thread)

variable {body handle track told within allowed Q}

theorem Threads.OnCourse.update {s : Threads Op Reply α σ}
    (h : s.OnCourse track told within allowed Q) {shared : σ}
    (hwithin : ∀ x, within x shared → within x s.shared) {thread : Nat}
    (htold : ∀ other, other ≠ thread → told shared other = told s.shared other)
    {p : Option (Prog Op Reply α)}
    (hp : ∀ q, p = some q → ∀ x, within x shared →
      q.Ends track (allowed x) (Q x) (told shared thread)) :
    Threads.OnCourse track told within allowed Q
      ⟨shared, Function.update s.running thread p⟩ := by
  intro other q hq x hx
  change Function.update s.running thread p other = some q at hq
  rw [Function.update_apply] at hq
  split at hq
  · rename_i heq
    subst heq
    exact hp q hq x hx
  · rename_i hne
    change q.Ends track (allowed x) (Q x) (told shared other)
    rw [htold other hne]
    exact h other q hq x (hwithin x hx)

/-- The step of a thread keeps all programs on course, when the bounds of the shared state
only tighten, the reply is an allowed one within them, and only this thread is told. -/
theorem Threads.OnCourse.step {s : Threads Op Reply α σ}
    (h : s.OnCourse track told within allowed Q)
    (hbody : ∀ k x g, (body k).Ends track (allowed x) (Q x) g)
    (htold : ∀ thread op choice shared, told (handle thread op choice shared).2 =
      Function.update (told shared) thread
        (track (told shared thread) op (handle thread op choice shared).1))
    (move : Move K C)
    (hperform : ∀ thread op choice, s.performs move = some (thread, op, choice) →
      ∀ x, within x (handle thread op choice s.shared).2 → within x s.shared ∧
        allowed x (told s.shared thread) op (handle thread op choice s.shared).1) :
    (s.step body handle move).2.OnCourse track told within allowed Q ∧
      ∀ a, (s.step body handle move).1 = some a → ∀ x, within x s.shared → Q x a := by
  cases move with
  | start thread k =>
      rw [Threads.step]
      split
      · refine ⟨h.update (fun _ hx => hx) (fun _ _ => rfl) fun q hq x _ => ?_, nofun⟩
        obtain rfl := Option.some.inj hq
        exact hbody k x _
      · exact ⟨h, nofun⟩
  | advance thread choice =>
      rw [Threads.step]
      split
      · exact ⟨h, nofun⟩
      · rename_i a hrunning
        refine ⟨h.update (fun _ hx => hx) (fun _ _ => rfl) nofun, fun b hb x hx => ?_⟩
        obtain rfl := Option.some.inj hb
        exact h thread _ hrunning x hx
      · rename_i op next hrunning
        have hop : s.performs (.advance thread choice : Move K C) = some (thread, op, choice) := by
          rw [Threads.performs, hrunning]
        have hstep := hperform thread op choice hop
        have hnow := htold thread op choice s.shared
        refine ⟨h.update (fun x hx => (hstep x hx).1) ?_ fun q hq x hx => ?_,
          nofun⟩
        · intro other hne
          rw [hnow, Function.update_of_ne hne]
        · obtain rfl := Option.some.inj hq
          rw [hnow, Function.update_self]
          exact h thread _ hrunning x (hstep x hx).1 _ (hstep x hx).2

end Interleaved

end Programs
