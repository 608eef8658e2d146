import Goka.Proof.Signal
import Goka.ViewState

/-!
# When a view reports that it is running

The merger looks at the states delivered so far, so a partition that has delivered none does not
hold the others back.
-/

namespace Goka

namespace StateMerger

open Schedule

variable {n : Nat} {m m' : StateMerger n} {action : Action n}

def lastDelivered (delivered : List (Fin n × PartitionStatus)) (i : Fin n) :
    Option PartitionStatus :=
  (delivered.find? fun d => d.1 = i).map Prod.snd

/-- `lowest` is the lowest of the states the partitions have delivered last. -/
def IsLowest (m : StateMerger n) (lowest : PartitionStatus) : Prop :=
  (∃ i, lastDelivered m.delivered i = some lowest) ∧
    ∀ i state, lastDelivered m.delivered i = some state → lowest.toNat ≤ state.toNat

/-- The state of the view is the translation of the lowest state delivered last, and it is running
only if that is the last state of every partition. -/
def Reports (m : StateMerger n) : Prop :=
  (∃ lowest, IsLowest m lowest ∧ m.view.state = lowest.viewState.toInt) ∧
    (m.view.state = ViewState.running.toInt →
      ∀ i, lastDelivered m.delivered i = some .running)

/-- A partition's `PartitionRunning` is not merged while another one has delivered nothing and no
other one is known to lag behind. -/
def Heard (m : StateMerger n) : Action n → Prop
  | .update i => (m.partitions i).received = some .running →
      (∀ j, j ≠ i → ∃ state, m.states.lookup j = some state) ∨
        ∃ j, j ≠ i ∧ ∃ state, m.states.lookup j = some state ∧ state ≠ .running
  | _ => True

/-! ### The lowest state -/

/-- The fold ends at the lowest of the states it has seen. -/
theorem foldl_lower (states : List PartitionStatus) (first : PartitionStatus) :
    ∃ lowest, states.foldl lower (some first) = some lowest ∧ lowest ∈ first :: states ∧
      ∀ state ∈ first :: states, lowest.toNat ≤ state.toNat := by
  induction states generalizing first with
  | nil => exact ⟨first, rfl, by simp, by simp⟩
  | cons state states ih =>
      rw [List.foldl_cons, lower]
      by_cases hlt : state.toNat < first.toNat
      · rw [if_pos hlt]
        obtain ⟨lowest, hfold, hmem, hall⟩ := ih state
        refine ⟨lowest, hfold, List.mem_cons_of_mem _ hmem, fun other hother => ?_⟩
        rcases List.mem_cons.mp hother with rfl | hother
        · exact (hall state (List.mem_cons_self ..)).trans hlt.le
        · exact hall other hother
      · rw [if_neg hlt]
        obtain ⟨lowest, hfold, hmem, hall⟩ := ih first
        refine ⟨lowest, hfold, by grind, fun other hother => ?_⟩
        have hfirst := hall first (List.mem_cons_self ..)
        rcases List.mem_cons.mp hother with rfl | hother
        · exact hfirst
        · rcases List.mem_cons.mp hother with rfl | hother
          · exact hfirst.trans (not_lt.mp hlt)
          · exact hall other (List.mem_cons_of_mem _ hother)

theorem lowestState_spec {states : GoMap (Fin n) PartitionStatus} {i : Fin n}
    {state : PartitionStatus} (hsome : states.lookup i = some state) :
    ∃ lowest, lowestState states = some lowest ∧ (∃ j, states.lookup j = some lowest) ∧
      ∀ j state, states.lookup j = some state → lowest.toNat ≤ state.toNat := by
  have hvalue : ∀ value, value ∈ states.entries.map Sigma.snd ↔
      ∃ j, states.lookup j = some value := by
    intro value
    rw [List.mem_map]
    constructor
    · rintro ⟨⟨j, _⟩, hmem, rfl⟩
      exact ⟨j, AList.mem_lookup_iff.mpr hmem⟩
    · rintro ⟨j, hj⟩
      exact ⟨⟨j, value⟩, AList.mem_lookup_iff.mp hj, rfl⟩
  cases hentries : states.entries.map Sigma.snd with
  | nil => simpa [hentries] using (hvalue state).mpr ⟨i, hsome⟩
  | cons first rest =>
      obtain ⟨lowest, hfold, hmem, hall⟩ := foldl_lower rest first
      rw [← hentries] at hmem hall
      refine ⟨lowest, ?_, (hvalue lowest).mp hmem, fun j state hj =>
        hall state ((hvalue state).mpr ⟨j, hj⟩)⟩
      rw [lowestState, hentries]
      exact hfold

/-! ### One step -/

def Inv (m : StateMerger n) : Prop :=
  ∀ i, m.states.lookup i = lastDelivered m.delivered i

theorem lastDelivered_cons (delivered : List (Fin n × PartitionStatus)) (i j : Fin n)
    (state : PartitionStatus) :
    lastDelivered ((i, state) :: delivered) j
      = if j = i then some state else lastDelivered delivered j := by
  by_cases hj : j = i
  · simp [lastDelivered, hj]
  · simp [lastDelivered, hj, Ne.symm hj]

/-- All that a delivery does. -/
theorem updateViewState_eq_ok {i : Fin n} {state : PartitionStatus}
    (h : m.updateViewState i state = .ok m') :
    m'.states = m.states.insert i state ∧ m'.delivered = (i, state) :: m.delivered ∧
      ∃ lowest, lowestState m'.states = some lowest ∧
        m'.view.state = lowest.viewState.toInt := by
  have hsome : (m.states.insert i state).lookup i = some state := AList.lookup_insert _
  obtain ⟨lowest, hlowest, -, -⟩ := lowestState_spec hsome
  simp only [updateViewState, hlowest] at h
  obtain ⟨view, hview, hm⟩ := Outcome.bind_eq_ok.mp h
  obtain rfl := Outcome.ok.inj hm
  exact ⟨rfl, rfl, lowest, hlowest, Signal.state_setState hview⟩

/-- An update puts its state into the map and sets the signal to the lowest there. -/
theorem step_cases (h : m.step action = some m') :
    (∃ i state, action = .update i ∧ (m.partitions i).received = some state ∧
      m'.states = m.states.insert i state ∧ m'.delivered = (i, state) :: m.delivered ∧
      ∃ lowest, lowestState m'.states = some lowest ∧
        m'.view.state = lowest.viewState.toInt) ∨
    (∀ i, action ≠ .update i) ∧ m'.states = m.states ∧ m'.delivered = m.delivered := by
  cases action with
  | update i =>
      simp only [step] at h
      split at h
      · exact absurd h nofun
      · next state hreceived =>
          split at h
          · next m₁ hupdate =>
              obtain rfl := Option.some.inj h
              have heffect := updateViewState_eq_ok hupdate
              exact Or.inl ⟨i, state, rfl, hreceived, heffect⟩
          · exact absurd h nofun
  | observe =>
      simp only [step] at h
      split at h
      · obtain rfl := Option.some.inj h
        exact Or.inr ⟨nofun, rfl, rfl⟩
      · exact absurd h nofun
  | change i state =>
      simp only [step] at h
      split_ifs at h <;> obtain rfl := Option.some.inj h <;> exact Or.inr ⟨nofun, rfl, rfl⟩
  | receive i =>
      simp only [step] at h
      split at h
      · obtain rfl := Option.some.inj h
        exact Or.inr ⟨nofun, rfl, rfl⟩
      · exact absurd h nofun
  | stop i =>
      simp only [step] at h
      split_ifs at h
      obtain rfl := Option.some.inj h
      exact Or.inr ⟨nofun, rfl, rfl⟩

theorem inv_step (hinv : Inv m) (h : m.step action = some m') : Inv m' := by
  intro j
  rcases step_cases h with ⟨i, state, -, -, hstates, hdelivered, -⟩ | ⟨-, hstates, hdelivered⟩
  · rw [hstates, hdelivered, lastDelivered_cons]
    split
    · next hj => rw [hj, AList.lookup_insert]
    · next hj => rw [AList.lookup_insert_ne hj, hinv j]
  · rw [hstates, hdelivered, hinv j]

theorem eq_running_of_le {state : PartitionStatus}
    (h : PartitionStatus.running.toNat ≤ state.toNat) : state = .running := by
  cases state <;> first | rfl | exact absurd h (by decide)

/-- A view that has the lowest of the merged states reports truly, unless it is running too
early. -/
theorem reports_iff_of_lowest (hinv : Inv m) {lowest : PartitionStatus}
    (hlowest : IsLowest m lowest) (hview : m.view.state = lowest.viewState.toInt) :
    Reports m ↔ (lowest = .running → ∀ j, m.states.lookup j = some .running) := by
  have hrunning : m.view.state = ViewState.running.toInt ↔ lowest = .running := by
    rw [hview]
    cases lowest <;> decide
  rw [Reports, hrunning]
  simp only [← hinv _]
  exact and_iff_right ⟨lowest, hlowest, hview⟩

/-- A delivery makes the view report truly if and only if every partition has been heard of. -/
theorem reports_iff_heard (hinv : Inv m) {i : Fin n} (h : m.step (.update i) = some m') :
    Reports m' ↔ Heard m (.update i) := by
  have hinv' := inv_step hinv h
  rcases step_cases h with ⟨i', state, haction, hreceived, hstates, -, hview⟩ | ⟨hno, -⟩
  swap
  · exact absurd rfl (hno i)
  obtain rfl := Action.update.inj haction
  obtain ⟨lowest, hlowest, hview⟩ := hview
  have hself : m'.states.lookup i = some state := by rw [hstates, AList.lookup_insert]
  have hother : ∀ j, j ≠ i → m'.states.lookup j = m.states.lookup j := by
    intro j hj
    rw [hstates, AList.lookup_insert_ne hj]
  obtain ⟨lowest', hlowest', ⟨j, hj⟩, hle⟩ := lowestState_spec hself
  obtain rfl := Option.some.inj (hlowest.symm.trans hlowest')
  have hlow : IsLowest m' lowest :=
    ⟨⟨j, (hinv' j).symm.trans hj⟩, fun k state hk => hle k state ((hinv' k).trans hk)⟩
  rw [reports_iff_of_lowest hinv' hlow hview, Heard, hreceived, Option.some_inj]
  constructor
  · rintro hall rfl
    by_cases hlow : lowest = .running
    · exact Or.inl fun k hk => ⟨_, (hother k hk).symm.trans (hall hlow k)⟩
    · have hji : j ≠ i := by
        rintro rfl
        exact hlow (Option.some.inj (hj.symm.trans hself))
      exact Or.inr ⟨j, hji, lowest, (hother j hji).symm.trans hj, hlow⟩
  · rintro hheard rfl
    have hrunning : ∀ k state, m'.states.lookup k = some state → state = .running :=
      fun k state hk => eq_running_of_le (hle k state hk)
    have hstate := hrunning i state hself
    intro k
    by_cases hk : k = i
    · rw [hk, hself, hstate]
    · rcases hheard hstate with hall | ⟨l, hl, other, hlookup, hne⟩
      · obtain ⟨other, hlookup⟩ := hall k hk
        have hlookup' := (hother k hk).trans hlookup
        rw [hlookup', hrunning k other hlookup']
      · exact absurd (hrunning l other ((hother l hl).trans hlookup)) hne

/-- Exactly the runs in which the view reports truly whenever its state is set. -/
theorem reports_iff (states : Fin n → PartitionStatus) (view : Signal)
    (actions : List (Action n)) :
    (∀ t ∈ transitions step (start states view) actions,
        ∀ i, t.2.1 = .update i → Reports t.2.2) ↔
      ∀ t ∈ transitions step (start states view) actions, Heard t.1 t.2.1 := by
  have hinv : ∀ t ∈ transitions step (start states view) actions,
      Inv t.1 ∧ step t.1 t.2.1 = some t.2.2 :=
    transitions_invariant (fun _ _ _ hinv h => inv_step hinv h) fun _ => rfl
  refine forall₂_congr fun t ht => ?_
  obtain ⟨hinv, hstep⟩ := hinv t ht
  obtain ⟨m, action, m'⟩ := t
  cases action with
  | update i =>
      rw [← reports_iff_heard hinv hstep]
      exact ⟨fun h => h i rfl, fun h _ _ => h⟩
  | _ => exact ⟨fun _ => trivial, nofun⟩

/-- The first of two partitions goes through all its states before the first state of the second one
is received: the view is running although the second partition has delivered nothing. -/
theorem running_before_heard :
    ∃ view, newViewSignal = .ok view ∧
      ∃ t ∈ transitions step (start (fun _ : Fin 2 => .stopped) view)
        (.observe :: .observe :: .receive 0 :: .update 0 ::
          [.initializing, .connecting, .recovering, .preparing, .running].flatMap fun state =>
            [.change 0 state, .receive 0, .update 0]),
        t.2.1 = .update 0 ∧ t.2.2.view.state = ViewState.running.toInt ∧
          lastDelivered t.2.2.delivered 1 = none := by
  refine ⟨_, rfl, ?_⟩
  decide

end StateMerger

end Goka
