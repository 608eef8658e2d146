import Goka.Library.Schedule

/-!
# Runs that come to an end

Safety is about every schedule. That a system gets somewhere is about the schedules that do not stop
while something can still be done.
-/

namespace Schedule

variable {σ α : Type*}

/-- Whichever allowed steps are taken, as long as one is enabled, a state with `Done` is reached. -/
inductive Ends (step : σ → α → Option σ) (Allowed : σ → α → Prop) (Done : σ → Prop) : σ → Prop where
  | done {state : σ} (h : Done state) : Ends step Allowed Done state
  | step {state : σ} (hnext : ∃ action state', Allowed state action ∧
      step state action = some state')
      (hends : ∀ action state', Allowed state action → step state action = some state' →
        Ends step Allowed Done state') : Ends step Allowed Done state

variable {step : σ → α → Option σ} {Allowed : σ → α → Prop} {Done : σ → Prop}

/-- **The termination rule.** Up to the end the allowed steps keep an invariant and lower a measure,
and one of them is enabled. -/
theorem Ends.of_measure (Inv : σ → Prop) (measure : σ → Nat)
    (hstep : ∀ state action state', Inv state → ¬ Done state → Allowed state action →
      step state action = some state' → Inv state' ∧ measure state' < measure state)
    (hnext : ∀ state, Inv state → ¬ Done state →
      ∃ action state', Allowed state action ∧ step state action = some state')
    {state : σ} (hinv : Inv state) : Ends step Allowed Done state := by
  induction hn : measure state using Nat.strongRecOn generalizing state with
  | _ n ih =>
      by_cases hdone : Done state
      · exact .done hdone
      · refine .step (hnext state hinv hdone) fun action state' hallowed h => ?_
        obtain ⟨hinv', hlt⟩ := hstep state action state' hinv hdone hallowed h
        exact ih (measure state') (hn ▸ hlt) hinv' rfl

end Schedule
