/-!
# Runs of a transition function

A system is a function that gives, for a state and an action, an outcome and the
next state. A run performs actions in order and remembers each with its outcome.
Statements about every run are proved by a step lemma and the one induction below.

Steps are total and deterministic, so whatever the environment is free to do is part of the
action. Fairness and infinite runs are left out: all that is said is said of what a finite run
has reached, or of each entry of its history.
-/

namespace Runs

variable {S A O : Type} (step : S → A → O × S)

/-- The history of a run, oldest first, and the state it ends in. -/
def run : S → List A → List (A × O) × S
  | s, [] => ([], s)
  | s, a :: actions =>
      ((a, (step s a).1) :: (run (step s a).2 actions).1, (run (step s a).2 actions).2)

/-- Each action of the run meets `ok` in the state it is performed in. -/
def AllSteps (ok : S → A → Prop) : S → List A → Prop
  | _, [] => True
  | s, a :: actions => ok s a ∧ AllSteps ok (step s a).2 actions

/-- What the most recent entry of a history says for which `f` says anything. -/
def latest {B : Type} (f : A × O → Option B) (history : List (A × O)) : Option B :=
  history.reverse.findSome? f

theorem latest_concat {B : Type} (f : A × O → Option B) (history : List (A × O)) (x : A × O) :
    latest f (history ++ [x]) = (f x).or (latest f history) := by
  rw [latest, latest, List.reverse_append, List.reverse_singleton, List.findSome?_append,
    List.findSome?_singleton]

theorem latest_append {B : Type} (f : A × O → Option B) (history more : List (A × O)) :
    latest f (history ++ more) = (latest f more).or (latest f history) := by
  rw [latest, latest, latest, List.reverse_append, List.findSome?_append]

theorem latest_cons {B : Type} (f : A × O → Option B) (x : A × O) (more : List (A × O)) :
    latest f (x :: more) = (latest f more).or (f x) := by
  rw [← List.singleton_append, latest_append]
  exact congrArg (Option.or _) (List.findSome?_singleton ..)

theorem latest_none {B : Type} (history : List (A × O)) :
    latest (fun _ => (none : Option B)) history = none := by
  induction history with
  | nil => rfl
  | cons x history ih => rw [latest_cons, ih, Option.none_or]

theorem latest_congr {B : Type} {f f' : A × O → Option B} {history : List (A × O)}
    (h : ∀ x ∈ history, f x = f' x) : latest f history = latest f' history := by
  induction history with
  | nil => rfl
  | cons x history ih =>
      obtain ⟨hx, hrest⟩ := List.forall_mem_cons.mp h
      rw [latest_cons, latest_cons, hx, ih hrest]

theorem allSteps_of_forall {ok : S → A → Prop} (h : ∀ s a, ok s a) (s : S) (actions : List A) :
    AllSteps step ok s actions := by
  induction actions generalizing s with
  | nil => trivial
  | cons a actions ih => exact ⟨h s a, ih _⟩

/-- The same steps, each with what is seen of the states before and after it. -/
def watching {B : Type} (seen : S → S → B) (s : S) (a : A) : (O × B) × S :=
  (((step s a).1, seen s (step s a).2), (step s a).2)

variable {step}

/-- The history has the actions in their order. -/
theorem map_fst_run (s : S) (actions : List A) : (run step s actions).1.map Prod.fst = actions := by
  induction actions generalizing s with
  | nil => rfl
  | cons a actions ih => rw [run, List.map_cons, ih]

/-- Admitted steps that keep an invariant do all that it lets them do. -/
theorem AllSteps.of_invariant {ok fine : S → A → Prop} {Inv : S → Prop}
    (hstep : ∀ s a, Inv s → ok s a → Inv (step s a).2 ∧ fine s a) {s : S} (hinv : Inv s)
    {actions : List A} (hall : AllSteps step ok s actions) : AllSteps step fine s actions := by
  induction actions generalizing s with
  | nil => trivial
  | cons a actions ih =>
      obtain ⟨hok, hrest⟩ := hall
      obtain ⟨hinv', hfine⟩ := hstep s a hinv hok
      exact ⟨hfine, ih hinv' hrest⟩

/-- What every admitted step preserves, of the history and the state together, holds
at the end of every run of admitted steps. -/
theorem run_invariant {ok : S → A → Prop} {Inv : List (A × O) → S → Prop}
    (hstep : ∀ history s a, Inv history s → ok s a →
      Inv (history ++ [(a, (step s a).1)]) (step s a).2)
    {history : List (A × O)} {s : S} (hinv : Inv history s) {actions : List A}
    (hall : AllSteps step ok s actions) :
    Inv (history ++ (run step s actions).1) (run step s actions).2 := by
  induction actions generalizing history s with
  | nil => simpa [run] using hinv
  | cons a actions ih =>
      obtain ⟨hok, hrest⟩ := hall
      have h := ih (hstep history s a hinv hok) hrest
      rw [List.append_assoc] at h
      exact h

/-- An invariant of the state alone. -/
theorem run_keeps {ok : S → A → Prop} {Inv : S → Prop}
    (hstep : ∀ s a, Inv s → ok s a → Inv (step s a).2) {s : S} (hinv : Inv s) {actions : List A}
    (hall : AllSteps step ok s actions) : Inv (run step s actions).2 := by
  induction actions generalizing s with
  | nil => exact hinv
  | cons a actions ih => exact ih (hstep s a hinv hall.1) hall.2

/-- A tally the steps keep stays clean over a run exactly when every step is in order:
a step that is not makes the tally unclean, and nothing cleans it again. `fine` is what
may be assumed of the steps that were performed. -/
theorem run_clean_iff {T : Type} {Inv : S → T → Prop} {Clean : T → Prop} {ok : S → A → Prop}
    {fine : A × O → Prop}
    (hstep : ∀ s t a, Inv s t → fine (a, (step s a).1) →
      ∃ t', Inv (step s a).2 t' ∧ (Clean t' ↔ Clean t ∧ ok s a))
    {s : S} {t : T} (hinv : Inv s t) {actions : List A}
    (hfine : ∀ x ∈ (run step s actions).1, fine x) :
    ∃ t', Inv (run step s actions).2 t' ∧ (Clean t' ↔ Clean t ∧ AllSteps step ok s actions) := by
  induction actions generalizing s t with
  | nil => exact ⟨t, hinv, by simp [AllSteps]⟩
  | cons a actions ih =>
      obtain ⟨t₁, hinv₁, hclean₁⟩ := hstep s t a hinv (hfine _ (List.mem_cons_self ..))
      obtain ⟨t₂, hinv₂, hclean₂⟩ := ih hinv₁ (fun x hx => hfine x (List.mem_cons_of_mem _ hx))
      exact ⟨t₂, hinv₂, by rw [hclean₂, hclean₁, AllSteps, and_assoc]⟩

theorem run_append (s : S) (first second : List A) :
    run step s (first ++ second) =
      ((run step s first).1 ++ (run step (run step s first).2 second).1,
        (run step (run step s first).2 second).2) := by
  induction first generalizing s with
  | nil => rfl
  | cons a first ih => simp [run, ih]

variable (step) in
/-- The entry of one action of a run. -/
theorem run_entry (s : S) (before : List A) (a : A) (after : List A) :
    (a, (step (run step s before).2 a).1) ∈ (run step s (before ++ a :: after)).1 := by
  rw [run_append]
  exact List.mem_append_right _ (List.mem_cons_self ..)

theorem allSteps_append {ok : S → A → Prop} (s : S) (first second : List A) :
    AllSteps step ok s (first ++ second) ↔
      AllSteps step ok s first ∧ AllSteps step ok (run step s first).2 second := by
  induction first generalizing s with
  | nil => simp [AllSteps, run]
  | cons a first ih => simp [AllSteps, run, ih, and_assoc]

/-- Each entry stands in `P` to the entries before it. -/
def EachAfter {E : Type} (P : List E → E → Prop) (history : List E) : Prop :=
  ∀ before x after, history = before ++ x :: after → P before x

theorem eachAfter_nil {E : Type} (P : List E → E → Prop) : EachAfter P [] := by
  intro before x after h
  simp at h

theorem EachAfter.concat {E : Type} {P : List E → E → Prop} {history : List E}
    (h : EachAfter P history) {x : E} (hx : P history x) : EachAfter P (history ++ [x]) := by
  intro before y after heq
  obtain rfl | ⟨after, z, rfl⟩ := List.eq_nil_or_concat after
  · obtain ⟨rfl, hy⟩ := List.append_inj' heq rfl
    obtain rfl := List.singleton_inj.mp hy
    exact hx
  · have hsplit : history ++ [x] = (before ++ y :: after) ++ [z] := by simpa using heq
    exact h before y after (List.append_inj' hsplit rfl).1

end Runs
