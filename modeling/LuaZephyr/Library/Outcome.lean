/-!
# Computations that return or raise, over a state

`EStateM ε σ` keeps the state of the moment an exception is raised, as a C
function left by a long jump does. `Outcome.wp m Q E s` says that `m`, started in
`s`, either returns with `Q` or raises with `E`; the rules below compose such
facts without unfolding the programs they are about.
-/

namespace Outcome

variable {ε σ α β : Type}

/-- The weakest precondition with one postcondition for each way of leaving. -/
def wp (m : EStateM ε σ α) (Q : α → σ → Prop) (E : ε → σ → Prop) (s : σ) : Prop :=
  match m s with
  | .ok a t => Q a t
  | .error e t => E e t

section Rules

variable {m : EStateM ε σ α} {Q Q' : α → σ → Prop} {E E' : ε → σ → Prop} {s : σ}

theorem wp.mono (h : wp m Q E s) (hQ : ∀ a t, Q a t → Q' a t) (hE : ∀ e t, E e t → E' e t) :
    wp m Q' E' s := by
  unfold wp at h ⊢
  split <;> rename_i heq <;> rw [heq] at h
  · exact hQ _ _ h
  · exact hE _ _ h

/-- Two facts about one run hold of its one outcome. -/
theorem wp.and (h : wp m Q E s) (h' : wp m Q' E' s) :
    wp m (fun a t => Q a t ∧ Q' a t) (fun e t => E e t ∧ E' e t) s := by
  unfold wp at h h' ⊢
  split <;> rename_i heq <;> rw [heq] at h h' <;> exact ⟨h, h'⟩

@[simp] theorem wp_pure {a : α} : wp (pure a : EStateM ε σ α) Q E s ↔ Q a s := Iff.rfl

@[simp] theorem wp_bind {f : α → EStateM ε σ β} {R : β → σ → Prop} :
    wp (m >>= f) R E s ↔ wp m (fun a t => wp (f a) R E t) E s := by
  simp only [wp, bind, EStateM.bind]
  cases m s <;> rfl

@[simp] theorem wp_map {f : α → β} {R : β → σ → Prop} :
    wp (f <$> m) R E s ↔ wp m (fun a t => R (f a) t) E s := by
  simp only [wp, Functor.map, EStateM.map]
  cases m s <;> rfl

@[simp] theorem wp_throw {e : ε} : wp (throw e : EStateM ε σ α) Q E s ↔ E e s := Iff.rfl

@[simp] theorem wp_get {R : σ → σ → Prop} : wp (get : EStateM ε σ σ) R E s ↔ R s s := Iff.rfl

@[simp] theorem wp_set {t : σ} {R : PUnit → σ → Prop} :
    wp (set t : EStateM ε σ PUnit) R E s ↔ R ⟨⟩ t := Iff.rfl

@[simp] theorem wp_modify {f : σ → σ} {R : PUnit → σ → Prop} :
    wp (modify f : EStateM ε σ PUnit) R E s ↔ R ⟨⟩ (f s) := Iff.rfl

theorem wp_of_ok {a : α} {t : σ} (hrun : m s = .ok a t) (h : Q a t) : wp m Q E s := by
  simpa only [wp, hrun] using h

theorem wp_of_forall (hQ : ∀ a t, Q a t) (hE : ∀ e t, E e t) : wp m Q E s := by
  unfold wp
  split
  · exact hQ _ _
  · exact hE _ _

/-- A run ends as it does. -/
theorem wp_self (m : EStateM ε σ α) (s : σ) :
    wp m (fun a t => m s = .ok a t) (fun e t => m s = .error e t) s := by
  unfold wp
  split
  · assumption
  · assumption

/-- The two ways of leaving, spelled out. -/
theorem wp_iff : wp m Q E s ↔
    (∃ a t, m s = .ok a t ∧ Q a t) ∨ ∃ e t, m s = .error e t ∧ E e t := by
  unfold wp
  constructor
  · intro h
    split at h
    · exact .inl ⟨_, _, ‹_›, h⟩
    · exact .inr ⟨_, _, ‹_›, h⟩
  · rintro (⟨a, t, hrun, h⟩ | ⟨e, t, hrun, h⟩) <;> rw [hrun] <;> exact h

theorem wp.of_run_ok {a : α} {t : σ} (h : wp m Q E s) (hrun : m s = .ok a t) : Q a t := by
  simpa only [wp, hrun] using h

theorem wp.of_run_error {e : ε} {t : σ} (h : wp m Q E s) (hrun : m s = .error e t) : E e t := by
  simpa only [wp, hrun] using h

end Rules

end Outcome
