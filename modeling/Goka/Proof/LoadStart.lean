import Goka.Proof.PartitionTable

/-!
# Where a recovery starts

The start is decided by `findOffsetToLoad` and three conditions of `load`. It leaves no gap behind
the stored offset and no overlap with it, but the check for a lost topic asks for a stored offset
above zero, so a storage that holds only the first record of the topic passes it.
-/

namespace Goka

open Schedule

namespace PartitionTable

/-- `load` in recovery mode until it has decided where to start. -/
def startLoad (p : PartitionTable) (stored : Option Int64) : Option PartitionTable := do
  let p ← (p.load true).gotOffset (.ok (stored.getD (-3)))
  p.gotWatermarks none none

def tableMightBeGone (p : PartitionTable) (storedOffset : Int64) : String :=
  "kafka tells us there's no message in the topic, but our cache has one. The table might be " ++
    "gone. Try to delete your local cache! Topic " ++ p.topic ++ ", partition " ++
    toString p.partition ++ ", hwm " ++ toString p.log.newest ++ ", local offset " ++
    toString storedOffset.toInt

def Missing (log : TopicLog) (stored : Option Int64) (offset : Int) : Prop :=
  log.oldest ≤ offset ∧ offset < log.newest ∧ ∀ s ∈ stored, s.toInt < offset

def Event.startsLoad : Event → Bool
  | .setupAndRecover _ _ | .catchupForever _ | .retry => true
  | _ => false

/-- Until another load is started no consumer is opened and nothing is applied. -/
def ConsumesNothing (p : PartitionTable) : Prop :=
  ∀ events : List Event, (∀ e ∈ events, e.startsLoad = false) →
    (run step p events).pc.consuming = false ∧ (run step p events).applied = []

structure StartsAt (log : TopicLog) (stored : Option Int64) (p : PartitionTable) : Prop where
  no_error : p.errs = []
  hwm : p.hwm = log.newest
  le_hwm : p.loadOffset ≤ p.hwm
  exact_range : ∀ offset, p.loadOffset ≤ offset ∧ offset < p.hwm ↔ Missing log stored offset
  consumes : (∃ offset, Missing log stored offset) → p.pc = .subscribing ∧ p.cursor = p.loadOffset
  consumes_nothing : (¬ ∃ offset, Missing log stored offset) → ConsumesNothing p

/-- A recovery fails exactly where an offset is stored and the topic is empty; any other starts
right. -/
def DecidesStart (p : PartitionTable) (stored : Option Int64) : Prop :=
  ∃ p', p.startLoad stored = some p' ∧
    ((∃ s ∈ stored, p'.errs = [p.tableMightBeGone s]) ↔ stored.isSome ∧ p.log.newest = 0) ∧
    (¬ (stored.isSome ∧ p.log.newest = 0) → StartsAt p.log stored p')

variable {p : PartitionTable} {stored : Option Int64}

/-! ### Nothing is consumed -/

def Unconsumed (p : PartitionTable) : Prop :=
  p.applied = [] ∧
    (p.pc = .markingRecovered false ∨ p.pc = .idle ∨ p.pc = .backoff ∨ p.pc = .crashed)

theorem Unconsumed.returned (h : p.applied = []) : Unconsumed p.returned := by
  refine ⟨h, ?_⟩
  unfold PartitionTable.returned
  split <;> simp

theorem unconsumed_step {p' : PartitionTable} {e : Event} (hp : Unconsumed p)
    (he : e.startsLoad = false) (h : p.step e = some p') : Unconsumed p' := by
  obtain ⟨happlied, hpc⟩ := hp
  have hmark : ∀ {consuming}, p.pc = .markingRecovered consuming → consuming = false := by
    rintro consuming heq
    rw [heq] at hpc
    simpa using hpc
  cases step_cases h with
  | createFails | setupCancelled | setup | catchup | retry => cases he
  | append | cancel | nilMessage | stallTick | consumerError => exact ⟨happlied, hpc⟩
  | markCancelled heq =>
      obtain rfl := hmark heq
      exact Unconsumed.returned happlied
  | recovered heq =>
      obtain rfl := hmark heq
      exact Unconsumed.returned happlied
  | markFails heq =>
      obtain rfl := hmark heq
      exact Unconsumed.returned happlied
  | markPanics => exact ⟨happlied, .inr (.inr (.inr rfl))⟩
  | backoffCancelled => exact ⟨happlied, .inr (.inl rfl)⟩
  | _ => simp_all

theorem Unconsumed.consumesNothing (hp : Unconsumed p) : ConsumesNothing p := by
  intro events hevents
  have hwithin : ∀ t ∈ transitions step p events, t.2.1.startsLoad = false :=
    fun t ht => hevents _ (mem_actions_of_mem_transitions ht)
  have hrun := run_invariant_of_allowed (fun _ e => Event.startsLoad e = false)
    (fun _ _ _ hp he h => unconsumed_step hp he h) hp hwithin
  refine ⟨?_, hrun.1⟩
  rcases hrun.2 with h | h | h | h <;> rw [h] <;> rfl

/-! ### The decision -/

def withStored (p : PartitionTable) (stored : Option Int64) : PartitionTable :=
  { p.load true with pc := .findingOffset, storedOffset := (stored.getD (-3)).toInt }

theorem startLoad_eq : p.startLoad stored = (p.withStored stored).gotWatermarks none none := rfl

theorem gotWatermarks_gone (hpc : p.pc = .findingOffset) {s : Int64} (hs : p.storedOffset = s.toInt)
    (hgone : p.storedOffset > 0 ∧ p.log.newest = 0) :
    p.gotWatermarks none none = some (p.collect (p.tableMightBeGone s)).returned := by
  unfold gotWatermarks tableMightBeGone
  dsimp only
  rw [if_pos hpc, if_pos hgone, hs]
  rfl

theorem gotWatermarks_found (hpc : p.pc = .findingOffset)
    (hgone : ¬ (p.storedOffset > 0 ∧ p.log.newest = 0)) :
    p.gotWatermarks none none = some (if p.stopAfterCatchup ∧ p.log.newest ≤ p.found.loadOffset
      then p.found.markRecovered false else { p.found with pc := .subscribing }) := by
  unfold gotWatermarks
  dsimp only
  rw [if_pos hpc, if_neg hgone]
  exact (apply_ite some _ _ _).symm

/-- The offsets from `loadOffset` on are those the storage misses. -/
theorem found_range (hstored : ∀ s ∈ stored, 0 ≤ s.toInt ∧ s.toInt < 2 ^ 63 - 1) (offset : Int) :
    (p.withStored stored).found.loadOffset ≤ offset ∧ offset < p.log.newest
      ↔ Missing p.log stored offset := by
  have holdest := p.log.nonneg
  have hnewest := p.log.oldest_le_newest
  cases stored with
  | none =>
      have hload : ((p.withStored none).found).loadOffset = p.log.oldest := by
        have hlt : ¬ (-3 : Int) ≥ p.log.newest := by omega
        simp [found, withStored, load, findOffsetToLoad, offsetNotStored, hlt]
      rw [hload]
      simp [Missing]
  | some s =>
      obtain ⟨hlow, hhigh⟩ := hstored s rfl
      have hne : s.toInt ≠ offsetNotStored := by
        unfold offsetNotStored
        omega
      have hwrap : int64 (s.toInt + 1) = s.toInt + 1 := int64_of_range (by omega) (by omega)
      simp only [found, withStored, load, findOffsetToLoad, Option.getD_some, if_neg hne, hwrap,
        Missing, Option.mem_some_iff, forall_eq']
      split <;> [skip; split] <;> omega

theorem found_le (hstored : ∀ s ∈ stored, 0 ≤ s.toInt ∧ s.toInt < 2 ^ 63 - 1) :
    (p.withStored stored).found.loadOffset ≤ p.log.newest := by
  have hlow : -2 ^ 63 ≤ (p.withStored stored).storedOffset := by
    unfold withStored
    cases stored with
    | none => exact of_decide_eq_true rfl
    | some s =>
        have := (hstored s rfl).1
        simp only [Option.getD_some]
        omega
  have hloaded := loaded_found hlow
  exact hloaded.load_le.trans hloaded.cursor_le

theorem startsAt_of_not_gone (hstored : ∀ s ∈ stored, 0 ≤ s.toInt ∧ s.toInt < 2 ^ 63 - 1)
    (hgone : ¬ ((p.withStored stored).storedOffset > 0 ∧ (p.withStored stored).log.newest = 0)) :
    ∃ p', p.startLoad stored = some p' ∧ StartsAt p.log stored p' := by
  have hrange := found_range (p := p) hstored
  have hle := found_le (p := p) hstored
  by_cases hreached : p.log.newest ≤ (p.withStored stored).found.loadOffset
  · have hnone : ¬ ∃ offset, Missing p.log stored offset := by
      rintro ⟨offset, hmissing⟩
      have := (hrange offset).mpr hmissing
      omega
    refine ⟨(p.withStored stored).found.markRecovered false, ?_, rfl, rfl, hle, hrange, ?_, ?_⟩
    · rw [startLoad_eq, gotWatermarks_found rfl hgone, if_pos ⟨rfl, hreached⟩]
    · exact fun hmissing => absurd hmissing hnone
    · exact fun _ => Unconsumed.consumesNothing ⟨rfl, .inl rfl⟩
  · have hsome : ∃ offset, Missing p.log stored offset :=
      ⟨_, (hrange _).mp ⟨le_rfl, not_le.mp hreached⟩⟩
    refine ⟨{ (p.withStored stored).found with pc := .subscribing }, ?_, rfl, rfl, hle, hrange, ?_,
      ?_⟩
    · rw [startLoad_eq, gotWatermarks_found rfl hgone, if_neg fun h => hreached h.2]
    · exact fun _ => ⟨rfl, rfl⟩
    · exact fun hmissing => absurd hsome hmissing

/-- A recovery starts where it has to, except that a stored offset of 0 goes unnoticed when the
topic is empty. -/
theorem decidesStart_iff (p : PartitionTable) (stored : Option Int64)
    (hstored : ∀ s ∈ stored, 0 ≤ s.toInt ∧ s.toInt < 2 ^ 63 - 1) :
    DecidesStart p stored ↔ ¬ (stored = some 0 ∧ p.log.newest = 0) := by
  by_cases hgone : (p.withStored stored).storedOffset > 0 ∧ p.log.newest = 0
  · -- the code's check fires
    obtain ⟨hpos, hempty⟩ := hgone
    cases stored with
    | none =>
        change (0 : Int) < (-3 : Int64).toInt at hpos
        exact absurd hpos (by decide)
    | some s =>
        change 0 < s.toInt at hpos
        have hload := gotWatermarks_gone (p := p.withStored (some s)) rfl rfl ⟨hpos, hempty⟩
        have hne : s ≠ 0 := by
          rintro rfl
          exact absurd hpos (by decide)
        refine iff_of_true ⟨_, hload, ?_, ?_⟩ fun h => hne (Option.some.inj h.1)
        · exact iff_of_true ⟨s, rfl, rfl⟩ ⟨rfl, hempty⟩
        · exact fun h => absurd ⟨rfl, hempty⟩ h
  · obtain ⟨p', hload, hstarts⟩ := startsAt_of_not_gone hstored hgone
    have hno : ¬ ∃ s ∈ stored, p'.errs = [p.tableMightBeGone s] := by
      rintro ⟨s, -, herrs⟩
      rw [hstarts.no_error] at herrs
      exact absurd herrs.symm (List.cons_ne_nil _ _)
    constructor
    · rintro ⟨p'', hload', hfails, -⟩ ⟨rfl, hempty⟩
      obtain rfl := Option.some.inj (hload.symm.trans hload')
      exact hno (hfails.mpr ⟨rfl, hempty⟩)
    · intro hzero
      have hnot : ¬ (stored.isSome ∧ p.log.newest = 0) := by
        rintro ⟨hsome, hempty⟩
        obtain ⟨s, rfl⟩ := Option.isSome_iff_exists.mp hsome
        have hle : ¬ 0 < s.toInt := fun hpos => hgone ⟨hpos, hempty⟩
        have heq : s.toInt = 0 := le_antisymm (not_lt.mp hle) (hstored s rfl).1
        exact hzero ⟨congrArg some (Int64.toInt_inj.mp heq), hempty⟩
      exact ⟨p', hload, iff_of_false hno hnot, fun _ => hstarts⟩

theorem decidesStart_of_empty_topic :
    (∀ s ∈ some (5 : Int64), 0 ≤ s.toInt ∧ s.toInt < 2 ^ 63 - 1) ∧
      DecidesStart (new "t" 0 .empty) (some 5) := by
  have hstored : ∀ s ∈ some (5 : Int64), 0 ≤ s.toInt ∧ s.toInt < 2 ^ 63 - 1 := by
    rintro s ⟨⟩
    decide
  refine ⟨hstored, (decidesStart_iff _ _ hstored).mpr ?_⟩
  exact fun h => absurd h.1 (by decide)

/-- The storage holds the record at offset 0 and the topic is empty: the load does not fail. -/
theorem stored_zero_of_empty_topic : ¬ DecidesStart (new "t" 0 .empty) (some 0) := by
  rintro ⟨p', hload, hfails, -⟩
  obtain ⟨s, -, herrs⟩ := hfails.mpr ⟨rfl, rfl⟩
  obtain rfl := Option.some.inj hload
  exact absurd herrs.symm (List.cons_ne_nil _ _)

end PartitionTable

end Goka
