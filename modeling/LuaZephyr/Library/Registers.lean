import LuaZephyr.Library.Runs
import Mathlib.Logic.Function.Basic

/-!
# Systems that hold a map

A system holds a map, and the entries of a history tell what its values must be under some of the
keys: an entry may give a key a new value, leave it, or make it uncertain, and then nothing is
known under that key until another entry gives it one. When every step agrees with what is learned
from its entry, so does a whole run, and each answer on the way is right for a map that agrees with
what was known before it.

Nothing is said of how many keys there are, or of which steps make one uncertain.
-/

namespace Runs

variable {S A O K V : Type}

/-- What is known of a map: the values under some keys. -/
abbrev Known (K V : Type) := K → Option V

/-- The map has the values that are known. -/
def Agrees (known : Known K V) (m : K → V) : Prop := ∀ k v, known k = some v → m k = v

/-- A map that is known whole. -/
def knownWhole (m : K → V) : Known K V := fun k => some (m k)

theorem agrees_knownWhole (m : K → V) : Agrees (knownWhole m) m := fun _ _ => Option.some.inj

section After

variable (learn : Known K V → A × O → Known K V)

/-- What is known after the entries of a history. -/
def knownAfter (known : Known K V) (history : List (A × O)) : Known K V :=
  history.foldl learn known

variable {learn}

@[simp] theorem knownAfter_nil (known : Known K V) : knownAfter learn known [] = known := rfl

theorem knownAfter_append (known : Known K V) (first second : List (A × O)) :
    knownAfter learn known (first ++ second) =
      knownAfter learn (knownAfter learn known first) second := List.foldl_append

theorem knownAfter_cons (known : Known K V) (x : A × O) (history : List (A × O)) :
    knownAfter learn known (x :: history) = knownAfter learn (learn known x) history := rfl

theorem knownAfter_concat (known : Known K V) (history : List (A × O)) (x : A × O) :
    knownAfter learn known (history ++ [x]) = learn (knownAfter learn known history) x := by
  rw [knownAfter_append]
  rfl

/-- Under one key two ways to learn tell the same, when they do for each entry. -/
theorem knownAfter_congr {learn' : Known K V → A × O → Known K V} {k : K} {history : List (A × O)}
    (h : ∀ x ∈ history, ∀ known known', known k = known' k → learn known x k = learn' known' x k)
    {known known' : Known K V} (hk : known k = known' k) :
    knownAfter learn known history k = knownAfter learn' known' history k := by
  induction history generalizing known known' with
  | nil => exact hk
  | cons x history ih =>
      obtain ⟨hx, hrest⟩ := List.forall_mem_cons.mp h
      exact ih hrest (hx known known' hk)

/-- Entries that leave a key alone leave what is known under it. -/
theorem knownAfter_kept {k : K} {history : List (A × O)}
    (h : ∀ x ∈ history, ∀ known, learn known x k = known k) (known : Known K V) :
    knownAfter learn known history k = known k := by
  induction history generalizing known with
  | nil => rfl
  | cons x history ih =>
      obtain ⟨hx, hrest⟩ := List.forall_mem_cons.mp h
      rw [knownAfter_cons, ih hrest, hx]

variable {step : S → A → O × S}

/-- The map agrees with what the history tells, and the answers do. -/
theorem run_known (view : S → K → V) (Inv : S → Prop) {ok : S → A → Prop}
    {Right : (K → V) → A × O → Prop}
    (hstep : ∀ s a, Inv s → ok s a → Inv (step s a).2 ∧
      (∀ known, Agrees known (view s) →
        Agrees (learn known (a, (step s a).1)) (view (step s a).2)) ∧
      Right (view s) (a, (step s a).1))
    {s : S} (hinv : Inv s) {known : Known K V} (hknown : Agrees known (view s)) {actions : List A}
    (hall : AllSteps step ok s actions) :
    Agrees (knownAfter learn known (run step s actions).1) (view (run step s actions).2) ∧
      EachAfter (fun before x => ∃ m, Agrees (knownAfter learn known before) m ∧ Right m x)
        (run step s actions).1 := by
  let Told : List (A × O) → S → Prop := fun history t =>
    Inv t ∧ Agrees (knownAfter learn known history) (view t) ∧
      EachAfter (fun before x => ∃ m, Agrees (knownAfter learn known before) m ∧ Right m x) history
  have hkept (history : List (A × O)) (t : S) (a : A) (htold : Told history t) (hok : ok t a) :
      Told (history ++ [(a, (step t a).1)]) (step t a).2 := by
    obtain ⟨hinv, hagrees, hright⟩ := htold
    obtain ⟨hinv', hlearned, hanswer⟩ := hstep t a hinv hok
    refine ⟨hinv', ?_, hright.concat ⟨view t, hagrees, hanswer⟩⟩
    rw [knownAfter_concat]
    exact hlearned _ hagrees
  have hstart : Told [] s := ⟨hinv, hknown, eachAfter_nil _⟩
  exact (run_invariant hkept hstart hall).2

end After

end Runs
