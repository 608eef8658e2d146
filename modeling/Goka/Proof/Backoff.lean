import Goka.Backoff

/-!
# How long a restart waits

Whatever step the backoff was given, it counts in seconds. The time it returns is a second for each
failure since the last reset, as long as no reset comes between a failure and the call of `Duration`
for it: such a reset forgets the failure, and the wait that follows is counted for the failures
after it.
-/

namespace Goka

namespace RestartingTable

open Schedule

variable {s s' : RestartingTable}

/-! ### What a step can do -/

inductive Step (s : RestartingTable) : Action → RestartingTable → Prop where
  | runs {event : PartitionTable.Event} {table : PartitionTable}
      (hstep : s.table.step event = some table) (htable : table.pc ≠ .backoff)
      (hpc : s.pc.handling = false) :
      Step s (.table event)
        { s with table := table, pc := .loading, resetTimer := s.resetTimerBehind event }
  | stays {event : PartitionTable.Event} {table : PartitionTable}
      (hstep : s.table.step event = some table) (htable : table.pc = .backoff)
      (hold : s.table.pc = .backoff) :
      Step s (.table event) { s with table := table }
  | fails {event : PartitionTable.Event} {table : PartitionTable}
      (hstep : s.table.step event = some table) (htable : table.pc = .backoff)
      (hold : s.table.pc ≠ .backoff) :
      Step s (.table event)
        { s with table := table, pc := .failed, failures := s.failures + 1, interrupted := false }
  | starts (hpc : s.pc = .failed) :
      Step s .startTimer { s with
        pc := .started
        timers := s.stopTimer ++ [.armed]
        resetTimer := some s.timers.length }
  | asks (hpc : s.pc = .started) :
      Step s .duration { s with
        pc := .waiting
        backoff := s.backoff.duration.2
        delays := s.delays ++ [⟨s.backoff.duration.1, s.failures, s.interrupted⟩] }
  | fires {i : Nat} (hi : s.timers[i]? = some .armed) :
      Step s (.fire i) { s with timers := s.timers.set i .fired }
  | resets {i : Nat} (hi : s.timers[i]? = some .fired) :
      Step s (.reset i) { s with
        timers := s.timers.set i .done
        backoff := s.backoff.reset
        failures := 0
        interrupted := true }

theorem tableStep_cases {event : PartitionTable.Event} (h : s.tableStep event = some s') :
    Step s (.table event) s' := by
  unfold tableStep at h
  split at h
  · cases h
  · rename_i table hstep
    split at h
    · rename_i htable
      split at h
      · cases h
      · rename_i hpc
        obtain rfl := Option.some.inj h
        exact .runs hstep htable (Bool.eq_false_iff.mpr hpc)
    · rename_i htable
      split at h
      · rename_i hold
        obtain rfl := Option.some.inj h
        exact .stays hstep (not_not.mp htable) hold
      · rename_i hold
        obtain rfl := Option.some.inj h
        exact .fails hstep (not_not.mp htable) hold

theorem step_cases {action : Action} (h : s.step action = some s') : Step s action s' := by
  cases action with
  | table event => exact tableStep_cases h
  | startTimer =>
      obtain ⟨hpc, rfl⟩ := guard_eq_some.mp h
      exact .starts hpc
  | duration =>
      obtain ⟨hpc, rfl⟩ := guard_eq_some.mp h
      exact .asks hpc
  | fire i =>
      obtain ⟨hi, rfl⟩ := guard_eq_some.mp h
      exact .fires hi
  | reset i =>
      obtain ⟨hi, rfl⟩ := guard_eq_some.mp h
      exact .resets hi

def Follows (table : PartitionTable) (s : RestartingTable) : Prop :=
  Reaches PartitionTable.step table s.table

theorem follows_step {table : PartitionTable} {action : Action} (h : Follows table s)
    (hstep : Step s action s') : Follows table s' := by
  cases hstep with
  | runs htable | stays htable | fails htable => exact Reaches.trans h (.of_step htable)
  | _ => exact h

/-- So what holds of every run of a table holds of one that is restarted. -/
theorem follows_run (s : RestartingTable) (actions : List Action) :
    Follows s.table (run step s actions) :=
  run_invariant (fun _ _ _ h hstep => follows_step h (step_cases hstep)) ⟨[], rfl⟩ actions

/-! ### What the backoff has counted -/

/-- No reset has come between a failure and the call of `Duration` for it. -/
def Clean (s : RestartingTable) : Prop := ∀ e ∈ s.delays, e.interrupted = false

/-- 1 where the loop has a failure at hand that the backoff has not counted. -/
def ahead (s : RestartingTable) : Nat :=
  if s.pc.handling = true ∧ s.interrupted = false then 1 else 0

def seconds (n : Nat) : Int64 := .ofInt (1000000000 * n)

theorem seconds_zero : seconds 0 = 0 := by decide

theorem seconds_add_second (n : Nat) : seconds n + second = seconds (n + 1) := by
  have hsecond : second = .ofInt 1000000000 := by decide
  rw [seconds, hsecond, ← Int64.ofInt_add, seconds]
  push_cast
  rw [mul_add, mul_one]

structure Counts (s : RestartingTable) : Prop where
  step_eq : s.backoff.step = second
  at_hand : s.pc.handling = true → s.table.pc = .backoff
  forgotten : s.pc.handling = true → s.interrupted = true → s.failures = 0 ∧ s.backoff.current = 0
  current_eq : Clean s → ∃ n, n + s.ahead = s.failures ∧ s.backoff.current = seconds n
  interrupted : ∀ e ∈ s.delays, e.interrupted = true → e.failures = 0 ∧ e.retryDuration = second
  linear : Clean s → ∀ e ∈ s.delays, 0 < e.failures ∧ e.retryDuration = seconds e.failures
  first : s.delays = [] → s.failures ≤ if s.pc.handling then 1 else 0
  head : ∀ e, s.delays.head? = some e → e.failures ≤ 1

theorem counts_new (d : Int64) (table : PartitionTable) :
    Counts (new (newSimpleBackoff d) table) where
  step_eq := rfl
  at_hand := fun h => absurd h Bool.false_ne_true
  forgotten := fun h => absurd h Bool.false_ne_true
  current_eq := fun _ => ⟨0, rfl, seconds_zero.symm⟩
  interrupted := fun _ he => absurd he List.not_mem_nil
  linear := fun _ _ he => absurd he List.not_mem_nil
  first := fun _ => le_rfl
  head := fun _ he => absurd he.symm (Option.some_ne_none _)

namespace Counts

/-- What changes neither the backoff nor what is known of the failures. -/
theorem of_eq (h : Counts s) (hbackoff : s'.backoff = s.backoff)
    (hpc : s'.pc.handling = s.pc.handling) (htable : s.pc.handling = true → s'.table.pc = .backoff)
    (hfailures : s'.failures = s.failures) (hinterrupted : s'.interrupted = s.interrupted)
    (hdelays : s'.delays = s.delays) : Counts s' where
  step_eq := by rw [hbackoff]; exact h.step_eq
  at_hand := by rw [hpc]; exact htable
  forgotten := by rw [hpc, hinterrupted, hfailures, hbackoff]; exact h.forgotten
  current_eq := by
    rw [Clean, hdelays, ahead, hpc, hinterrupted, hfailures, hbackoff]
    exact h.current_eq
  interrupted := by rw [hdelays]; exact h.interrupted
  linear := by rw [Clean, hdelays]; exact h.linear
  first := by rw [hdelays, hfailures, hpc]; exact h.first
  head := by rw [hdelays]; exact h.head

theorem fails (h : Counts s) {table : PartitionTable} (htable : table.pc = .backoff)
    (hold : s.table.pc ≠ .backoff) :
    Counts { s with
      table := table, pc := .failed, failures := s.failures + 1, interrupted := false } := by
  have hpc : s.pc.handling = false := Bool.eq_false_iff.mpr (mt h.at_hand hold)
  refine ⟨h.step_eq, fun _ => htable, fun _ hinterrupted => ?_, fun hclean => ?_, h.interrupted,
    h.linear, fun hnone => ?_, h.head⟩
  · exact absurd hinterrupted Bool.false_ne_true
  · obtain ⟨n, hn, hcurrent⟩ := h.current_eq hclean
    rw [ahead, if_neg (by simp [hpc])] at hn
    exact ⟨n, by rw [← hn]; rfl, hcurrent⟩
  · have hfirst := h.first hnone
    rw [hpc] at hfirst
    exact Nat.succ_le_succ hfirst

theorem resets (h : Counts s) (timers : List ResetTimer) :
    Counts { s with
      timers := timers, backoff := s.backoff.reset, failures := 0, interrupted := true } := by
  refine ⟨h.step_eq, h.at_hand, fun _ _ => ⟨rfl, rfl⟩, fun _ => ⟨0, ?_, ?_⟩, h.interrupted,
    h.linear, fun _ => Nat.zero_le _, h.head⟩
  · rw [ahead, if_neg (by simp)]
  · exact seconds_zero.symm

/-- The failure at hand is the next one that the backoff counts. -/
theorem counted (h : Counts s) (hclean : Clean s) (hpc : s.pc.handling = true)
    (hinterrupted : s.interrupted = false) :
    0 < s.failures ∧ s.backoff.current + second = seconds s.failures := by
  obtain ⟨n, hn, hcurrent⟩ := h.current_eq hclean
  rw [ahead, if_pos ⟨hpc, hinterrupted⟩] at hn
  rw [hcurrent, seconds_add_second, hn, ← hn]
  exact ⟨n.succ_pos, rfl⟩

/-- `Duration` adds a step for the failure at hand, or begins anew where a reset has come in
between. -/
theorem asks (h : Counts s) (hpc : s.pc = .started) :
    Counts { s with
      pc := .waiting
      backoff := s.backoff.duration.2
      delays := s.delays ++ [⟨s.backoff.duration.1, s.failures, s.interrupted⟩] } := by
  have hhandling : s.pc.handling = true := by rw [hpc]; rfl
  have hduration : s.backoff.duration.1 = s.backoff.current + second := by
    rw [← h.step_eq]
    rfl
  have hcounted : (∀ e ∈ s.delays ++ [⟨s.backoff.duration.1, s.failures, s.interrupted⟩],
      e.interrupted = false) →
      Clean s ∧ 0 < s.failures ∧ s.backoff.duration.1 = seconds s.failures := by
    intro hclean
    obtain ⟨hold, hnew⟩ := List.forall_mem_append.mp hclean
    rw [hduration]
    exact ⟨hold, h.counted hold hhandling (hnew _ List.mem_cons_self)⟩
  refine ⟨h.step_eq, fun h => absurd h Bool.false_ne_true, fun h => absurd h Bool.false_ne_true,
    fun hclean => ?_, ?_, fun hclean => ?_, fun hnone => ?_, fun e he => ?_⟩
  · exact ⟨s.failures, rfl, (hcounted hclean).2.2⟩
  · refine List.forall_mem_append.mpr ⟨h.interrupted,
      List.forall_mem_singleton.mpr fun hinterrupted => ?_⟩
    obtain ⟨hfailures, hcurrent⟩ := h.forgotten hhandling hinterrupted
    refine ⟨hfailures, hduration.trans ?_⟩
    rw [hcurrent]
    decide
  · obtain ⟨hold, hnew⟩ := hcounted hclean
    exact List.forall_mem_append.mpr ⟨h.linear hold, List.forall_mem_singleton.mpr hnew⟩
  · exact absurd hnone (List.append_ne_nil_of_right_ne_nil _ (List.cons_ne_nil _ _))
  · rcases eq_or_ne s.delays [] with hnone | hsome
    · rw [hnone] at he
      obtain rfl := Option.some.inj he
      have hfirst := h.first hnone
      rw [hhandling] at hfirst
      exact hfirst
    · rw [List.head?_append_of_ne_nil _ hsome] at he
      exact h.head e he

end Counts

/-- Only a failure, a call of `Duration` and a reset that fires touch what is counted. -/
theorem counts_step {action : Action} (h : Counts s) (hstep : Step s action s') : Counts s' := by
  cases hstep with
  | runs hstep htable hpc =>
      exact h.of_eq rfl hpc.symm
        (fun hhandling => absurd (hpc.symm.trans hhandling) Bool.false_ne_true)
        rfl rfl rfl
  | stays hstep htable hold => exact h.of_eq rfl rfl (fun _ => htable) rfl rfl rfl
  | fails hstep htable hold => exact h.fails htable hold
  | starts hpc =>
      have hhandling : s.pc.handling = true := by rw [hpc]; rfl
      exact h.of_eq rfl hhandling.symm h.at_hand rfl rfl rfl
  | asks hpc => exact h.asks hpc
  | fires hi => exact h.of_eq rfl rfl h.at_hand rfl rfl rfl
  | resets hi => exact h.resets _

/-! ### The law -/

def FitsInt64 (x : Int) : Prop := -2 ^ 63 ≤ x ∧ x < 2 ^ 63

theorem toInt_seconds {n : Nat} (h : FitsInt64 (second.toInt * n)) :
    (seconds n).toInt = second.toInt * n :=
  Int64.toInt_ofInt_of_le h.1 h.2

/-- The delay is the step times the number of failures since the last reset, where that fits. -/
def Linear (d : Int64) (e : Delay) : Prop :=
  FitsInt64 (d.toInt * e.failures) → e.retryDuration.toInt = d.toInt * e.failures

/-- A delay for a failure that was forgotten is not linear in any step. -/
theorem Counts.clean_of_linear (h : Counts s) {d : Int64} (hlinear : ∀ e ∈ s.delays, Linear d e) :
    Clean s := by
  intro e he
  rw [Bool.eq_false_iff]
  intro hinterrupted
  obtain ⟨hfailures, hduration⟩ := h.interrupted e he hinterrupted
  have hdelay := hlinear e he
  rw [Linear, hfailures, hduration, Nat.cast_zero, mul_zero] at hdelay
  exact absurd (hdelay ⟨by decide, by decide⟩) (by decide)

/-- The first delay is for the first failure, and shows the step. -/
theorem Counts.eq_second_of_linear (h : Counts s) {d : Int64} (hlinear : ∀ e ∈ s.delays, Linear d e)
    (hsome : s.delays ≠ []) : d = second := by
  obtain ⟨first, rest, hdelays⟩ := List.exists_cons_of_ne_nil hsome
  have hmem : first ∈ s.delays := hdelays ▸ List.mem_cons_self
  obtain ⟨hpos, hduration⟩ := h.linear (h.clean_of_linear hlinear) first hmem
  have hone : first.failures = 1 := Nat.le_antisymm (h.head first (hdelays ▸ rfl)) hpos
  have hdelay := hlinear first hmem
  rw [Linear, hduration, hone, Nat.cast_one, mul_one] at hdelay
  have heq : second.toInt = d.toInt := hdelay ⟨d.le_toInt, d.toInt_lt⟩
  exact (Int64.toInt_inj.mp heq).symm

/-- **Delays are linear in the step of one second only.** Over a run of failing loads and resets,
the delays are the configured step times the failures since the last reset exactly where there are
none, or the step is a second and no reset comes between a failure and the call of `Duration` for
it. -/
theorem linear_iff (d : Int64) (table : PartitionTable) (actions : List Action) :
    (∀ e ∈ (run step (new (newSimpleBackoff d) table) actions).delays, Linear d e) ↔
      (run step (new (newSimpleBackoff d) table) actions).delays = [] ∨
        d = second ∧ ∀ e ∈ (run step (new (newSimpleBackoff d) table) actions).delays,
          e.interrupted = false := by
  have h : Counts (run step (new (newSimpleBackoff d) table) actions) :=
    run_invariant (fun _ _ _ h hstep => counts_step h (step_cases hstep))
      (counts_new d table) actions
  generalize run step (new (newSimpleBackoff d) table) actions = s at h
  constructor
  · intro hlinear
    rcases eq_or_ne s.delays [] with hnone | hsome
    · exact .inl hnone
    · exact .inr ⟨h.eq_second_of_linear hlinear hsome, h.clean_of_linear hlinear⟩
  · rintro (hnone | ⟨rfl, hclean⟩) e he
    · rw [hnone] at he
      exact absurd he List.not_mem_nil
    · intro hfits
      rw [(h.linear hclean e he).2]
      exact toInt_seconds hfits

def failingLoad : List Action :=
  [.table (.catchupForever true), .table (.gotOffset (.error "closed")), .startTimer]

/-- With the default backoff of ten seconds the first delay is one second. Where the timer fires at
once, a delay of one second follows no failure since the reset. -/
theorem delay_of_one_second :
    (run step (new defaultBackoffBuilder (.new "table" 0 .empty)) (failingLoad ++
      [.duration])).delays
      = [⟨second, 1, false⟩] ∧
    (run step (new (newSimpleBackoff second) (.new "table" 0 .empty))
      (failingLoad ++ [.fire 0, .reset 0, .duration])).delays = [⟨second, 0, true⟩] := by
  constructor
  · decide +kernel
  · decide +kernel

end RestartingTable

end Goka
