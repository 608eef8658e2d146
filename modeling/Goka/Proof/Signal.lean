import Goka.Signal
import Mathlib.Data.List.Induction
import Mathlib.Data.List.Nodup

/-!
# A signal loses no wake-up

The account of a run: which waiters registered, and whether the signal has since been in a state
they wait for. No pending waiter waits for the current state, so a state entered later is the only
way out of the list, and leaving the list is the only way to be closed.
-/

namespace Goka

namespace Signal

variable {s s' : Signal} {states : List Int}

def Call.waiter (made : Nat) : Call → Option Waiter
  | .setState _ => none
  | .waitForState state => some { done := made, state := state, minState := false }
  | .waitForStateMin state => some { done := made, state := state, minState := true }

def registered (calls : List Call) : List Waiter :=
  calls.foldl (fun ws call => ws ++ (call.waiter ws.length).toList) []

def Call.sets : Call → Option Int
  | .setState state => some state
  | _ => none

def lastSet (calls : List Call) : Int := (calls.filterMap Call.sets).getLastD 0

def Met (states : List Int) (calls : List Call) (w : Waiter) : Prop :=
  ∃ before call moment, call.waiter (registered before).length = some w ∧
    before ++ [call] <+: moment ∧ moment <+: calls ∧
    ∃ s, (new states).run moment = .ok s ∧ w.awaits s.state = true

theorem registered_append (calls : List Call) (call : Call) :
    registered (calls ++ [call])
      = registered calls ++ (call.waiter (registered calls).length).toList := by
  simp [registered]

theorem waiter_done {made : Nat} {call : Call} {w : Waiter} (h : call.waiter made = some w) :
    w.done = made := by
  cases call <;> simp [Call.waiter] at h <;> subst h <;> rfl

theorem registered_done (calls : List Call) :
    (registered calls).map Waiter.done = List.range (registered calls).length := by
  induction calls using List.reverseRecOn with
  | nil => rfl
  | append_singleton calls call ih =>
      rw [registered_append]
      cases hw : call.waiter (registered calls).length with
      | none => simpa using ih
      | some w => simp [ih, List.range_succ, waiter_done hw]

theorem done_lt_of_registered {calls : List Call} {w : Waiter} (hw : w ∈ registered calls) :
    w.done < (registered calls).length := by
  have hmem : w.done ∈ (registered calls).map Waiter.done := List.mem_map_of_mem hw
  rwa [registered_done, List.mem_range] at hmem

theorem registered_nodup (calls : List Call) : ((registered calls).map Waiter.done).Nodup := by
  rw [registered_done]
  exact List.nodup_range

theorem eq_of_done {calls : List Call} {w w' : Waiter} (hw : w ∈ registered calls)
    (hw' : w' ∈ registered calls) (hdone : w.done = w'.done) : w = w' :=
  List.inj_on_of_nodup_map (registered_nodup calls) hw hw' hdone

/-! ### One call -/

/-- Closing the waiters of a state closes exactly those that wait for it and keeps the others. -/
theorem closeWaiters_eq (state : Int) (waiters newWaiters : List Waiter)
    (hnodup : (waiters.map Waiter.done).Nodup)
    (hopen : ∀ w ∈ waiters, w.done ∉ s.closed) :
    closeWaiters state waiters newWaiters s = .ok { s with
      waiters := newWaiters ++ waiters.filter fun w => !w.awaits state
      closed := s.closed ++ (waiters.filter fun w => w.awaits state).map Waiter.done } := by
  induction waiters generalizing newWaiters s with
  | nil => simp [closeWaiters]
  | cons w waiters ih =>
      rw [List.map_cons, List.nodup_cons] at hnodup
      have hrest : ∀ w' ∈ waiters, w'.done ∉ s.closed :=
        fun w' hw' => hopen w' (List.mem_cons_of_mem _ hw')
      cases hawaits : w.awaits state with
      | false =>
          rw [closeWaiters, if_neg (by simp [hawaits]), ih _ hnodup.2 hrest]
          simp [hawaits]
      | true =>
          have hclose : s.close w.done = .ok { s with closed := s.closed ++ [w.done] } :=
            if_neg (hopen w (List.mem_cons_self ..))
          have hrest' : ∀ w' ∈ waiters, w'.done ∉ s.closed ++ [w.done] := by
            intro w' hw' hmem
            rcases List.mem_append.mp hmem with hmem | hmem
            · exact hrest w' hw' hmem
            · exact hnodup.1 (List.mem_singleton.mp hmem ▸ List.mem_map_of_mem hw')
          rw [closeWaiters, if_pos hawaits, hclose, Outcome.ok_bind, ih _ hnodup.2 hrest']
          simp [hawaits]

/-- However it came about, the state set is the state. -/
theorem state_closeWaiters {state : Int} {waiters newWaiters : List Waiter}
    (h : closeWaiters state waiters newWaiters s = .ok s') : s'.state = s.state := by
  induction waiters generalizing newWaiters s with
  | nil =>
      obtain rfl := Outcome.ok.inj h
      rfl
  | cons w waiters ih =>
      rw [closeWaiters] at h
      split at h
      · obtain ⟨s₁, hclose, hrest⟩ := Outcome.bind_eq_ok.mp h
        rw [ih hrest]
        rw [close] at hclose
        split at hclose
        · exact absurd hclose nofun
        · obtain rfl := Outcome.ok.inj hclose
          rfl
      · exact ih h

theorem state_setState {state : Int} (h : s.setState state = .ok s') : s'.state = state := by
  rw [Signal.setState] at h
  split at h
  · exact absurd h nofun
  · split at h
    · next hsame =>
        obtain rfl := Outcome.ok.inj h
        exact hsame
    · exact state_closeWaiters h

/-! ### The account of a run -/

theorem run_concat (s : Signal) (calls : List Call) (call : Call) :
    s.run (calls ++ [call]) = s.run calls >>= fun s => s.call call := by
  simp only [run, List.foldlM_append, List.foldlM_cons, List.foldlM_nil, bind_pure]

theorem state_waitForWaiter {w : Waiter} (h : s.waitForWaiter w = .ok s') :
    s'.state = s.state := by
  unfold waitForWaiter close at h
  dsimp only at h
  split at h
  · split at h
    · cases h
    · obtain rfl := Outcome.ok.inj h
      rfl
  · obtain rfl := Outcome.ok.inj h
    rfl

theorem state_call {call : Call} (h : s.call call = .ok s') :
    s'.state = call.sets.getD s.state := by
  cases call with
  | setState state => exact state_setState h
  | waitForState | waitForStateMin => exact state_waitForWaiter h

theorem lastSet_concat (calls : List Call) (call : Call) :
    lastSet (calls ++ [call]) = call.sets.getD (lastSet calls) := by
  unfold lastSet
  cases hsets : call.sets with
  | none => simp [hsets]
  | some state => simp [hsets]

/-- The state is the one set last. -/
theorem state_run {calls : List Call} (h : (new states).run calls = .ok s) :
    s.state = lastSet calls := by
  induction calls using List.reverseRecOn generalizing s with
  | nil =>
      obtain rfl := Outcome.ok.inj h
      rfl
  | append_singleton calls call ih =>
      rw [run_concat] at h
      obtain ⟨before, hbefore, hcall⟩ := Outcome.bind_eq_ok.mp h
      rw [state_call hcall, ih hbefore, lastSet_concat]

/-- A waiter is registered by the call at which its channel was made. -/
theorem mem_registered_iff {calls : List Call} {w : Waiter} :
    w ∈ registered calls ↔ ∃ before call, call.waiter (registered before).length = some w ∧
      before ++ [call] <+: calls := by
  induction calls using List.reverseRecOn with
  | nil => simp [registered]
  | append_singleton calls last ih =>
      rw [registered_append, List.mem_append, ih, Option.mem_toList]
      constructor
      · rintro (⟨before, call, hw, hpre⟩ | hw)
        · exact ⟨before, call, hw, hpre.trans (List.prefix_append ..)⟩
        · exact ⟨calls, last, hw, List.prefix_rfl⟩
      · rintro ⟨before, call, hw, hpre⟩
        rcases List.prefix_concat_iff.mp hpre with heq | hpre
        · obtain ⟨rfl, hlast⟩ := List.append_inj' heq rfl
          rw [List.singleton_inj] at hlast
          exact Or.inr (hlast ▸ hw)
        · exact Or.inl ⟨before, call, hw, hpre⟩

theorem Met.mem_registered {calls : List Call} {w : Waiter} (h : Met states calls w) :
    w ∈ registered calls := by
  obtain ⟨before, call, moment, hw, hpre, hmoment, -⟩ := h
  exact mem_registered_iff.mpr ⟨before, call, hw, hpre.trans hmoment⟩

/-- The moment after one more call is one more chance to be in an awaited state. -/
theorem met_append_iff {calls : List Call} {call : Call} {w : Waiter}
    (hrun : (new states).run (calls ++ [call]) = .ok s') :
    Met states (calls ++ [call]) w ↔ Met states calls w ∨
      w ∈ registered (calls ++ [call]) ∧ w.awaits s'.state = true := by
  constructor
  · rintro ⟨before, first, moment, hw, hpre, hmoment, s, hs, hawaits⟩
    rcases List.prefix_concat_iff.mp hmoment with rfl | hmoment
    · obtain rfl := Outcome.ok.inj (hs.symm.trans hrun)
      exact Or.inr ⟨mem_registered_iff.mpr ⟨before, first, hw, hpre⟩, hawaits⟩
    · exact Or.inl ⟨before, first, moment, hw, hpre, hmoment, s, hs, hawaits⟩
  · rintro (⟨before, first, moment, hw, hpre, hmoment, h⟩ | ⟨hw, hawaits⟩)
    · exact ⟨before, first, moment, hw, hpre, hmoment.trans (List.prefix_append ..), h⟩
    · obtain ⟨before, first, hw, hpre⟩ := mem_registered_iff.mp hw
      exact ⟨before, first, _, hw, hpre, List.prefix_rfl, s', hrun, hawaits⟩

structure Accounts (states : List Int) (calls : List Call) (s : Signal) : Prop where
  run : (new states).run calls = .ok s
  allowed : s.allowedStates = states
  made : s.made = (registered calls).length
  nodup : s.closed.Nodup
  closed_lt : ∀ done ∈ s.closed, done < s.made
  closed_iff : ∀ w ∈ registered calls, w.done ∈ s.closed ↔ Met states calls w
  pending : s.waiters = (registered calls).filter fun w => w.done ∉ s.closed
  quiet : ∀ w ∈ s.waiters, w.awaits s.state = false

theorem Accounts.new (states : List Int) : Accounts states [] (new states) where
  run := rfl
  allowed := rfl
  made := rfl
  nodup := List.nodup_nil
  closed_lt := by simp [Signal.new]
  closed_iff := by simp [registered]
  pending := rfl
  quiet := by simp [Signal.new]

namespace Accounts

variable {calls : List Call}

theorem pending_nodup (h : Accounts states calls s) : (s.waiters.map Waiter.done).Nodup := by
  rw [h.pending]
  exact (registered_nodup calls).sublist (List.filter_sublist.map _)

theorem pending_open (h : Accounts states calls s) {w : Waiter} (hw : w ∈ s.waiters) :
    w.done ∉ s.closed := by
  rw [h.pending, List.mem_filter] at hw
  simpa using hw.2

theorem registered_of_pending (h : Accounts states calls s) {w : Waiter} (hw : w ∈ s.waiters) :
    w ∈ registered calls := by
  rw [h.pending] at hw
  exact List.mem_of_mem_filter hw

theorem mem_pending (h : Accounts states calls s) {w : Waiter} (hw : w ∈ registered calls)
    (hopen : w.done ∉ s.closed) : w ∈ s.waiters := by
  rw [h.pending, List.mem_filter]
  exact ⟨hw, by simpa using hopen⟩

theorem closed_of_awaits (h : Accounts states calls s) {w : Waiter} (hw : w ∈ registered calls)
    (hawaits : w.awaits s.state = true) : w.done ∈ s.closed := by
  by_contra hopen
  simp [h.quiet w (h.mem_pending hw hopen)] at hawaits

/-- Closing the channels of the pending waiters for a state closes them for all of its waiters. -/
theorem mem_closed_append (h : Accounts states calls s) (state : Int) {w : Waiter}
    (hw : w ∈ registered calls) :
    w.done ∈ s.closed ++ (s.waiters.filter fun w => w.awaits state).map Waiter.done ↔
      w.done ∈ s.closed ∨ w.awaits state = true := by
  rw [List.mem_append, List.mem_map]
  constructor
  · rintro (hmem | ⟨w', hw', hdone⟩)
    · exact Or.inl hmem
    · rw [List.mem_filter] at hw'
      rw [← eq_of_done (h.registered_of_pending hw'.1) hw hdone]
      exact Or.inr hw'.2
  · intro hor
    by_cases hmem : w.done ∈ s.closed
    · exact Or.inl hmem
    · have hawaits := hor.resolve_left hmem
      exact Or.inr ⟨w, List.mem_filter.mpr ⟨h.mem_pending hw hmem, hawaits⟩, rfl⟩

/-- Leaving out those that wait for the current state leaves out nobody. -/
theorem pending_eq (h : Accounts states calls s) :
    s.waiters = (registered calls).filter fun w =>
      !w.awaits s.state && decide (w.done ∉ s.closed) := by
  rw [h.pending]
  refine List.filter_congr fun w hw => ?_
  rw [Bool.eq_iff_iff]
  simpa using fun hopen => Bool.eq_false_iff.mpr (mt (h.closed_of_awaits hw) hopen)

/-- What is left to show of a call: after it, exactly those are closed that were closed before or
wait for the state it leaves. -/
theorem next (h : Accounts states calls s) {call : Call} (hcall : s.call call = .ok s')
    (hallowed : s'.allowedStates = s.allowedStates)
    (hmade : s'.made = (registered (calls ++ [call])).length)
    (hnodup : s'.closed.Nodup) (hlt : ∀ done ∈ s'.closed, done < s'.made)
    (hclosed : ∀ w ∈ registered (calls ++ [call]),
      w.done ∈ s'.closed ↔ w.done ∈ s.closed ∨ w.awaits s'.state = true)
    (hpending : s'.waiters = (registered (calls ++ [call])).filter fun w =>
      !w.awaits s'.state && decide (w.done ∉ s.closed)) :
    Accounts states (calls ++ [call]) s' := by
  have hrun : (Signal.new states).run (calls ++ [call]) = .ok s' := by
    rw [run_concat, h.run, Outcome.ok_bind, hcall]
  refine ⟨hrun, hallowed.trans h.allowed, hmade, hnodup, hlt, fun w hw => ?_, ?_, fun w hw => ?_⟩
  · rw [met_append_iff hrun, hclosed w hw]
    have hold : w.done ∈ s.closed ↔ Met states calls w := by
      by_cases hreg : w ∈ registered calls
      · exact h.closed_iff w hreg
      · -- a waiter registered by this very call has a channel nobody has seen before
        have hnew : w.done = s.made := by
          rw [registered_append, List.mem_append, Option.mem_toList] at hw
          rw [waiter_done (hw.resolve_left hreg), h.made]
        constructor
        · intro hmem
          exact absurd (h.closed_lt _ hmem) (by omega)
        · exact fun hmet => absurd hmet.mem_registered hreg
    rw [hold]
    simp [hw]
  · rw [hpending]
    refine List.filter_congr fun w hw => ?_
    rw [Bool.eq_iff_iff]
    simp [hclosed w hw, and_comm]
  · rw [hpending, List.mem_filter] at hw
    rw [Bool.and_eq_true, Bool.not_eq_true'] at hw
    exact hw.2.1

/-- The waiters that the new state meets are closed, the others stay. -/
theorem setState (h : Accounts states calls s) {state : Int} (hallowed : state ∈ states) :
    ∃ s', s.call (.setState state) = .ok s' ∧ Accounts states (calls ++ [.setState state]) s' := by
  have hreg : registered (calls ++ [.setState state]) = registered calls := by
    rw [registered_append]
    exact List.append_nil _
  have hnotPanic : ¬ state ∉ s.allowedStates := by
    rw [h.allowed]
    exact not_not_intro hallowed
  by_cases hsame : s.state = state
  · have hcall : s.call (.setState state) = .ok s := by
      rw [call, Signal.setState, if_neg hnotPanic, if_pos hsame]
    refine ⟨s, hcall, h.next hcall rfl (by rw [hreg, h.made]) h.nodup h.closed_lt ?_ ?_⟩
    · rw [hreg]
      exact fun w hw => (or_iff_left_of_imp (h.closed_of_awaits hw)).symm
    · rw [hreg]
      exact h.pending_eq
  · have hcall : s.call (.setState state) = .ok { s with
        state := state
        waiters := s.waiters.filter fun w => !w.awaits state
        closed := s.closed ++ (s.waiters.filter fun w => w.awaits state).map Waiter.done } := by
      rw [call, Signal.setState, if_neg hnotPanic, if_neg hsame]
      exact closeWaiters_eq state s.waiters [] h.pending_nodup fun w hw => h.pending_open hw
    refine ⟨_, hcall, h.next hcall rfl (by rw [hreg]; exact h.made) ?_ ?_
      (by rw [hreg]; exact fun w hw => h.mem_closed_append state hw) ?_⟩
    · rw [List.nodup_append]
      refine ⟨h.nodup, h.pending_nodup.sublist (List.filter_sublist.map _), ?_⟩
      rintro done hdone _ hdone' rfl
      obtain ⟨w, hw, rfl⟩ := List.mem_map.mp hdone'
      exact h.pending_open (List.mem_of_mem_filter hw) hdone
    · intro done hdone
      rcases List.mem_append.mp hdone with hdone | hdone
      · exact h.closed_lt done hdone
      · obtain ⟨w, hw, rfl⟩ := List.mem_map.mp hdone
        rw [h.made]
        exact done_lt_of_registered (h.registered_of_pending (List.mem_of_mem_filter hw))
    · rw [hreg, ← List.filter_filter, ← h.pending]

/-- A waiter that is met already is closed at once and not kept. -/
theorem wait (h : Accounts states calls s) {call : Call} {w : Waiter}
    (hw : call.waiter s.made = some w) (hcall : s.call call = s.waitForWaiter w) :
    ∃ s', s.call call = .ok s' ∧ Accounts states (calls ++ [call]) s' := by
  have hreg : registered (calls ++ [call]) = registered calls ++ [w] := by
    rw [registered_append, ← h.made, hw]
    rfl
  have hmade : s.made + 1 = (registered (calls ++ [call])).length := by
    rw [hreg, List.length_append, ← h.made]
    rfl
  have hdone : w.done = s.made := waiter_done hw
  have hnew : w.done ∉ s.closed := fun hmem => absurd (h.closed_lt _ hmem) (by omega)
  cases hawaits : w.awaits s.state with
  | true =>
      have hcall' : s.call call = .ok { s with
          made := s.made + 1
          closed := s.closed ++ [w.done] } := by
        rw [hcall, waitForWaiter, if_pos hawaits]
        exact if_neg hnew
      refine ⟨_, hcall', h.next hcall' rfl hmade ?_ ?_ ?_ ?_⟩
      · rw [List.nodup_append]
        refine ⟨h.nodup, List.nodup_singleton _, ?_⟩
        rintro done hmem _ hmem' rfl
        exact hnew (List.mem_singleton.mp hmem' ▸ hmem)
      · intro done hmem
        rcases List.mem_append.mp hmem with hmem | hmem
        · exact Nat.lt_succ_of_lt (h.closed_lt done hmem)
        · rw [List.mem_singleton.mp hmem, hdone]
          exact Nat.lt_succ_self _
      · intro w' hw'
        rw [hreg, List.mem_append, List.mem_singleton] at hw'
        rcases hw' with hw' | rfl
        · have hlt := done_lt_of_registered hw'
          rw [← h.made] at hlt
          have hne : w'.done ≠ w.done := by omega
          simp [hne, or_iff_left_of_imp (h.closed_of_awaits hw')]
        · simp [hawaits]
      · rw [hreg, List.filter_append, ← h.pending_eq]
        simp [hawaits]
  | false =>
      have hcall' : s.call call = .ok { s with
          made := s.made + 1
          waiters := s.waiters ++ [w] } := by
        rw [hcall, waitForWaiter, if_neg (by simp [hawaits])]
      refine ⟨_, hcall', h.next hcall' rfl hmade h.nodup ?_ ?_ ?_⟩
      · exact fun done hmem => Nat.lt_succ_of_lt (h.closed_lt done hmem)
      · intro w' hw'
        rw [hreg, List.mem_append, List.mem_singleton] at hw'
        rcases hw' with hw' | rfl
        · exact (or_iff_left_of_imp (h.closed_of_awaits hw')).symm
        · simp [hawaits]
      · rw [hreg, List.filter_append, ← h.pending_eq]
        simp [hawaits, hnew]

theorem call (h : Accounts states calls s) {call : Call}
    (hallowed : ∀ state, call = .setState state → state ∈ states) :
    ∃ s', s.call call = .ok s' ∧ Accounts states (calls ++ [call]) s' := by
  cases call with
  | setState state => exact h.setState (hallowed state rfl)
  | waitForState state => exact h.wait rfl rfl
  | waitForStateMin state => exact h.wait rfl rfl

end Accounts

/-- By induction on the calls, from the last one. -/
theorem accounts_run (states : List Int) (calls : List Call)
    (hallowed : ∀ state, .setState state ∈ calls → state ∈ states) :
    ∃ s, Accounts states calls s := by
  induction calls using List.reverseRecOn with
  | nil => exact ⟨_, Accounts.new states⟩
  | append_singleton calls call ih =>
      obtain ⟨s, hs⟩ := ih fun state hmem => hallowed state (List.mem_append_left _ hmem)
      have hlast : ∀ state, call = .setState state → state ∈ states :=
        fun state hcall => hallowed state (by simp [hcall])
      obtain ⟨s', -, hs'⟩ := hs.call hlast
      exact ⟨s', hs'⟩

/-- After these calls no `close` has panicked, the state was the one set last at every moment, no
channel has been closed twice, the waiters not yet closed are the pending ones, and each is closed
exactly where the signal has been in a state it waits for, at its registration or since. -/
def WakesExactly (states : List Int) (calls : List Call) : Prop :=
  ∃ s, (new states).run calls = .ok s ∧
    (∀ moment s', moment <+: calls → (new states).run moment = .ok s' → s'.state = lastSet moment) ∧
    s.closed.Nodup ∧
    s.waiters = (registered calls).filter (fun w => w.done ∉ s.closed) ∧
    ∀ before call w, before ++ [call] <+: calls →
      call.waiter (registered before).length = some w →
      (w.done ∈ s.closed ↔ ∃ moment, before ++ [call] <+: moment ∧ moment <+: calls ∧
        ∃ s', (new states).run moment = .ok s' ∧ w.awaits s'.state = true)

/-- As long as only states are set that the signal allows, every waiter is woken exactly when its
state has come, and the state is always the one set last. -/
theorem run_wakesExactly (states : List Int) (calls : List Call)
    (hallowed : ∀ state, .setState state ∈ calls → state ∈ states) :
    WakesExactly states calls := by
  obtain ⟨s, hs⟩ := accounts_run states calls hallowed
  refine ⟨s, hs.run, fun _ _ _ hmoment => state_run hmoment, hs.nodup, hs.pending,
    fun before call w hpre hw => ?_⟩
  rw [hs.closed_iff w (mem_registered_iff.mpr ⟨before, call, hw, hpre⟩)]
  constructor
  · rintro ⟨before', call', moment, hw', hpre', hmoment, hstate⟩
    refine ⟨moment, ?_, hmoment, hstate⟩
    rcases List.prefix_or_prefix_of_prefix hpre hmoment with hle | hle
    · exact hle
    · rcases List.prefix_concat_iff.mp hle with rfl | hle
      · exact List.prefix_rfl
      · -- a channel is made by one call only, so `w` was not there before its own registration
        have hearly := mem_registered_iff.mpr ⟨before', call', hw', hpre'.trans hle⟩
        exact absurd (waiter_done hw) (Nat.ne_of_lt (done_lt_of_registered hearly))
  · rintro ⟨moment, hpre, hmoment, hstate⟩
    exact ⟨before, call, moment, hw, hpre, hmoment, hstate⟩

theorem run_wakesExactly_running :
    (∀ state, Call.setState state ∈
        [Call.setState 0, .waitForState 4, .waitForStateMin 2, .setState 3] → state ∈ [0, 3, 4]) ∧
      WakesExactly [0, 3, 4]
        [.setState 0, .waitForState 4, .waitForStateMin 2, .setState 3] :=
  have hallowed : ∀ state, Call.setState state ∈
      [Call.setState 0, .waitForState 4, .waitForStateMin 2, .setState 3] → state ∈ [0, 3, 4] := by
    simp
  ⟨hallowed, run_wakesExactly _ _ hallowed⟩

end Signal

end Goka
