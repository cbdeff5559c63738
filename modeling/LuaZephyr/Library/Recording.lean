import LuaZephyr.Library.Outcome

/-!
# Recording what a computation does

Events are noted beside the state of a computation, for what one wants to say about its
course and not only about its end. They stay when an exception is raised. Without them it
is the computation one began with.

The events have any type and no meaning here. A client gives each operation a noted version, and
shows that it is the plain one with the events erased; what it proves about the events is then
about the plain program. No event is lost, and none is noted twice.
-/

namespace Recording

open Outcome

variable {ε σ ω α β : Type}

/-- The state and the events so far, the oldest first. -/
structure Recorded (σ ω : Type) where
  state : σ
  events : List ω

abbrev RecordM (ε σ ω : Type) := EStateM ε (Recorded σ ω)

/-- A part of the computation of which nothing is noted. -/
def lift (m : EStateM ε σ α) : RecordM ε σ ω α := fun s =>
  match m s.state with
  | .ok a t => .ok a ⟨t, s.events⟩
  | .error e t => .error e ⟨t, s.events⟩

/-- Note something about the state. -/
def record (f : σ → ω) : RecordM ε σ ω Unit :=
  modify fun s => ⟨s.state, s.events ++ [f s.state]⟩

section Rules

variable {s : Recorded σ ω} {E : ε → Recorded σ ω → Prop}

theorem wp_lift {m : EStateM ε σ α} {Q : α → Recorded σ ω → Prop} :
    wp (lift m) Q E s ↔
      wp m (fun a t => Q a ⟨t, s.events⟩) (fun e t => E e ⟨t, s.events⟩) s.state := by
  unfold wp lift
  cases m s.state with
  | ok a t => exact Iff.rfl
  | error e t => exact Iff.rfl

@[simp] theorem wp_record {f : σ → ω} {Q : Unit → Recorded σ ω → Prop} :
    wp (record f : RecordM ε σ ω Unit) Q E s ↔
      Q ⟨⟩ ⟨s.state, s.events ++ [f s.state]⟩ := Iff.rfl

end Rules

/-- Without its events, `m` is the computation `n`. -/
def Erases (m : RecordM ε σ ω α) (n : EStateM ε σ α) : Prop :=
  ∀ s, wp m (fun a t => n s.state = .ok a t.state) (fun e t => n s.state = .error e t.state) s

theorem erases_lift (m : EStateM ε σ α) : Erases (lift m : RecordM ε σ ω α) m :=
  fun s => wp_lift.mpr (wp_self m s.state)

theorem erases_pure (a : α) : Erases (pure a : RecordM ε σ ω α) (pure a) := fun _ => rfl

theorem Erases.bind {m : RecordM ε σ ω α} {n : EStateM ε σ α} {f : α → RecordM ε σ ω β}
    {g : α → EStateM ε σ β} (hm : Erases m n) (hf : ∀ a, Erases (f a) (g a)) :
    Erases (m >>= f) (n >>= g) := by
  intro s
  have hbind : (n >>= g) s.state = match n s.state with
      | .ok a t => g a t
      | .error e t => .error e t := rfl
  refine wp_bind.mpr ((hm s).mono ?_ ?_)
  · intro a t hrun
    rw [hbind, hrun]
    exact hf a t
  · intro e t hrun
    rw [hbind, hrun]

/-- A note changes nothing. -/
theorem Erases.record_bind {f : σ → ω} {k : Unit → RecordM ε σ ω α} {n : EStateM ε σ α}
    (h : Erases (k ⟨⟩) n) : Erases (record f >>= k) n :=
  fun s => wp_bind.mpr (h ⟨s.state, s.events ++ [f s.state]⟩)

/-- What is said of the end of the one holds of the other. -/
theorem Erases.wp_iff {m : RecordM ε σ ω α} {n : EStateM ε σ α} (h : Erases m n)
    {s : Recorded σ ω} {Q : α → σ → Prop} {E : ε → σ → Prop} :
    wp m (fun a t => Q a t.state) (fun e t => E e t.state) s ↔ wp n Q E s.state := by
  have hend := h s
  unfold wp at hend ⊢
  cases hrun : m s with
  | ok a t =>
      rw [hrun] at hend
      rw [hend]
  | error e t =>
      rw [hrun] at hend
      rw [hend]

/-- What a run returns, if it does, and the events. -/
def outcome (m : RecordM ε σ ω α) (s : σ) : Option α × List ω :=
  match m ⟨s, []⟩ with
  | .ok a t => (some a, t.events)
  | .error _ t => (none, t.events)

theorem run_of_outcome {m : RecordM ε σ ω α} {s : σ} {a : α} {es : List ω}
    (h : outcome m s = (some a, es)) : ∃ t, m ⟨s, []⟩ = .ok a ⟨t, es⟩ := by
  unfold outcome at h
  cases hrun : m ⟨s, []⟩ with
  | ok b t =>
      rw [hrun] at h
      obtain ⟨hb, rfl⟩ := Prod.mk.inj h
      obtain rfl := Option.some.inj hb
      exact ⟨t.state, rfl⟩
  | error e t =>
      rw [hrun] at h
      exact absurd (Prod.mk.inj h).1 (by simp)

end Recording
