import Mathlib.Data.List.Basic
import Mathlib.Tactic.Common

/-!
# Schedules of a guarded transition system

A concurrent program is a partial step function: `step state action` is `none` where the action is
not enabled. A schedule is any list of actions, and an action that is not enabled when its turn
comes is passed over. Quantifying over schedules is then quantifying over every interleaving, with
no side condition on the list.
-/

namespace Schedule

variable {σ α : Type*} (step : σ → α → Option σ)

def next (state : σ) (action : α) : σ := (step state action).getD state

def run : σ → List α → σ
  | state, [] => state
  | state, action :: actions => run (next step state action) actions

/-- The transitions a schedule really takes: state before, action, state after. -/
def transitions : σ → List α → List (σ × α × σ)
  | _, [] => []
  | state, action :: actions =>
      match step state action with
      | none => transitions state actions
      | some state' => (state, action, state') :: transitions state' actions

variable {step} {state state' : σ} {action : α} {actions : List α}

/-- A step behind a guard. -/
theorem guard_eq_some {c : Prop} [Decidable c] :
    (if c then some state else none) = some state' ↔ c ∧ state = state' :=
  Option.ite_none_right_eq_some.trans (and_congr_right fun _ => Option.some_inj)

theorem next_of_some (h : step state action = some state') :
    next step state action = state' := by
  simp [next, h]

theorem next_of_none (h : step state action = none) : next step state action = state := by
  simp [next, h]

@[simp]
theorem run_nil (state : σ) : run step state [] = state := rfl

@[simp]
theorem run_cons (state : σ) (action : α) (actions : List α) :
    run step state (action :: actions) = run step (next step state action) actions := rfl

theorem run_append (state : σ) (first second : List α) :
    run step state (first ++ second) = run step (run step state first) second := by
  induction first generalizing state with
  | nil => rfl
  | cons action first ih => exact ih _

def Reaches (step : σ → α → Option σ) (state state' : σ) : Prop :=
  ∃ actions, run step state actions = state'

theorem Reaches.of_step (h : step state action = some state') : Reaches step state state' :=
  ⟨[action], next_of_some h⟩

theorem Reaches.trans {state'' : σ} (h : Reaches step state state')
    (h' : Reaches step state' state'') : Reaches step state state'' := by
  obtain ⟨first, rfl⟩ := h
  obtain ⟨second, rfl⟩ := h'
  exact ⟨first ++ second, run_append ..⟩

theorem transitions_of_some (h : step state action = some state') :
    transitions step state (action :: actions)
      = (state, action, state') :: transitions step state' actions := by
  simp [transitions, h]

theorem transitions_of_none (h : step state action = none) :
    transitions step state (action :: actions) = transitions step state actions := by
  simp [transitions, h]

theorem transitions_append (state : σ) (first second : List α) :
    transitions step state (first ++ second)
      = transitions step state first ++ transitions step (run step state first) second := by
  induction first generalizing state with
  | nil => rfl
  | cons action first ih =>
      rw [List.cons_append, run_cons]
      cases h : step state action with
      | none =>
          rw [transitions_of_none h, transitions_of_none h, next_of_none h]
          exact ih state
      | some state' =>
          rw [transitions_of_some h, transitions_of_some h, next_of_some h, List.cons_append]
          exact congrArg _ (ih state')

theorem mem_actions_of_mem_transitions {t : σ × α × σ}
    (ht : t ∈ transitions step state actions) : t.2.1 ∈ actions := by
  induction actions generalizing state with
  | nil => simp [transitions] at ht
  | cons action actions ih =>
      cases h : step state action with
      | none =>
          rw [transitions_of_none h] at ht
          exact List.mem_cons_of_mem _ (ih ht)
      | some state' =>
          rw [transitions_of_some h] at ht
          rcases List.mem_cons.mp ht with rfl | ht
          · exact List.mem_cons_self ..
          · exact List.mem_cons_of_mem _ (ih ht)

theorem mem_transitions_of_step (before after : List α)
    (h : step (run step state before) action = some state') :
    (run step state before, action, state') ∈
      transitions step state (before ++ action :: after) := by
  induction before generalizing state with
  | nil =>
      rw [run_nil] at h
      rw [List.nil_append, transitions_of_some h]
      exact List.mem_cons_self ..
  | cons first before ih =>
      rw [run_cons] at h ⊢
      rw [List.cons_append]
      cases hfirst : step state first with
      | none =>
          rw [next_of_none hfirst] at h ⊢
          rw [transitions_of_none hfirst]
          exact ih h
      | some middle =>
          rw [next_of_some hfirst] at h ⊢
          rw [transitions_of_some hfirst]
          exact List.mem_cons_of_mem _ (ih h)

/-- **The invariant rule.** What every enabled step preserves holds after every schedule. -/
theorem run_invariant {Inv : σ → Prop}
    (hstep : ∀ state action state', Inv state → step state action = some state' → Inv state')
    (hinit : Inv state) (actions : List α) : Inv (run step state actions) := by
  induction actions generalizing state with
  | nil => exact hinit
  | cons action actions ih =>
      rw [run_cons]
      cases h : step state action with
      | none => rw [next_of_none h]; exact ih hinit
      | some state' =>
          rw [next_of_some h]
          exact ih (hstep state action state' hinit h)

/-- What a transition has made so, and every enabled step preserves, holds in the end. -/
theorem run_of_mem_transitions {P : σ → Prop}
    (hstep : ∀ state action state', P state → step state action = some state' → P state')
    {t : σ × α × σ} (ht : t ∈ transitions step state actions) (h : P t.2.2) :
    P (run step state actions) := by
  induction actions generalizing state with
  | nil => exact absurd ht List.not_mem_nil
  | cons action actions ih =>
      rw [run_cons]
      cases hfirst : step state action with
      | none =>
          rw [transitions_of_none hfirst] at ht
          rw [next_of_none hfirst]
          exact ih ht
      | some state' =>
          rw [transitions_of_some hfirst] at ht
          rw [next_of_some hfirst]
          rcases List.mem_cons.mp ht with rfl | ht
          · exact run_invariant hstep h actions
          · exact ih ht

/-- The invariant rule for runs that keep to a discipline: it is enough that the steps meeting
`Allowed` preserve the invariant, for a schedule all of whose transitions meet it. -/
theorem run_invariant_of_allowed {Inv : σ → Prop} (Allowed : σ → α → Prop)
    (hstep : ∀ state action state', Inv state → Allowed state action →
      step state action = some state' → Inv state')
    (hinit : Inv state)
    (hallowed : ∀ t ∈ transitions step state actions, Allowed t.1 t.2.1) :
    Inv (run step state actions) := by
  induction actions generalizing state with
  | nil => exact hinit
  | cons action actions ih =>
      rw [run_cons]
      cases h : step state action with
      | none =>
          rw [transitions_of_none h] at hallowed
          rw [next_of_none h]
          exact ih hinit hallowed
      | some state' =>
          rw [transitions_of_some h] at hallowed
          rw [next_of_some h]
          refine ih (hstep state action state' hinit ?_ h) ?_
          · exact hallowed _ (List.mem_cons_self ..)
          · exact fun t ht => hallowed t (List.mem_cons_of_mem _ ht)

theorem transitions_invariant_of_allowed {Inv : σ → Prop} (Allowed : σ → α → Prop)
    (hstep : ∀ state action state', Inv state → Allowed state action →
      step state action = some state' → Inv state')
    (hinit : Inv state)
    (hallowed : ∀ t ∈ transitions step state actions, Allowed t.1 t.2.1) :
    ∀ t ∈ transitions step state actions, Inv t.1 ∧ step t.1 t.2.1 = some t.2.2 := by
  induction actions generalizing state with
  | nil => intro t ht; simp [transitions] at ht
  | cons action actions ih =>
      cases h : step state action with
      | none =>
          rw [transitions_of_none h] at hallowed ⊢
          exact ih hinit hallowed
      | some state' =>
          rw [transitions_of_some h] at hallowed ⊢
          have hinit' := hstep state action state' hinit (hallowed _ (List.mem_cons_self ..)) h
          intro t ht
          rcases List.mem_cons.mp ht with rfl | ht
          · exact ⟨hinit, h⟩
          · exact ih hinit' (fun t ht => hallowed t (List.mem_cons_of_mem _ ht)) t ht

theorem transitions_invariant {Inv : σ → Prop}
    (hstep : ∀ state action state', Inv state → step state action = some state' → Inv state')
    (hinit : Inv state) :
    ∀ t ∈ transitions step state actions, Inv t.1 ∧ step t.1 t.2.1 = some t.2.2 :=
  transitions_invariant_of_allowed (fun _ _ => True)
    (fun state action state' h _ => hstep state action state' h) hinit fun _ _ => trivial

/-- **Exactly the schedules that keep a property.** Where, between states meeting the invariant, a
step keeps `P` if and only if it meets `Allowed`, a schedule stays inside `P` at every moment if
and only if all its transitions meet `Allowed`. -/
theorem forall_take_iff (Inv : σ → Prop) {P : σ → Prop} (Allowed : σ → α → Prop)
    (hstep : ∀ state action state', Inv state → step state action = some state' → Inv state')
    (hiff : ∀ state action state', Inv state → P state → step state action = some state' →
      (P state' ↔ Allowed state action))
    (hinit : Inv state) (hP : P state) :
    (∀ n, P (run step state (actions.take n))) ↔
      ∀ t ∈ transitions step state actions, Allowed t.1 t.2.1 := by
  induction actions generalizing state with
  | nil => simp [transitions, hP]
  | cons action actions ih =>
      have hsplit : (∀ n, P (run step state ((action :: actions).take n))) ↔
          ∀ n, P (run step (next step state action) (actions.take n)) := by
        constructor
        · exact fun h n => h (n + 1)
        · intro h n
          cases n with
          | zero => simpa using hP
          | succ n => exact h n
      rw [hsplit]
      cases h : step state action with
      | none =>
          rw [next_of_none h, transitions_of_none h]
          exact ih hinit hP
      | some state' =>
          rw [next_of_some h, transitions_of_some h]
          have hinit' := hstep state action state' hinit h
          have hP' := hiff state action state' hinit hP h
          constructor
          · intro hall t ht
            have hstate' : P state' := by simpa using hall 0
            rcases List.mem_cons.mp ht with rfl | ht
            · exact hP'.mp hstate'
            · exact (ih hinit' hstate').mp hall t ht
          · intro hall
            have hstate' : P state' := hP'.mpr (hall _ (List.mem_cons_self ..))
            exact (ih hinit' hstate').mpr fun t ht => hall t (List.mem_cons_of_mem _ ht)

end Schedule
