import Goka.MarkRecovered
import Goka.Proof.PartitionTable

/-!
# How often the storage is marked as recovered

A recovering load calls `MarkRecovered` last. A consumer error that was collected before, meanwhile
or while the consumer is drained still makes the load fail, and `loadRestarting` then loads again
into the same storage.
-/

namespace Goka

def Pc.settled : Pc → Bool
  | idle | backoff | markingRecovered _ | draining | crashed => true
  | _ => false

namespace PartitionTable

variable {p p' : PartitionTable} {e : Event}

theorem settled_returned : p.returned.pc.settled = true := by
  unfold returned
  dsimp only
  split <;> rfl

theorem settled_leaveMarkRecovered (consuming : Bool) :
    (p.leaveMarkRecovered consuming).pc.settled = true := by
  cases consuming
  · exact settled_returned
  · rfl

theorem marking_returned : p.returned.pc.marking = false := by
  unfold returned
  dsimp only
  split <;> rfl

theorem marking_leaveMarkRecovered (consuming : Bool) :
    (p.leaveMarkRecovered consuming).pc.marking = false := by
  cases consuming
  · exact marking_returned
  · rfl

theorem stop_leaveMarkRecovered (consuming : Bool) :
    (p.leaveMarkRecovered consuming).stopAfterCatchup = p.stopAfterCatchup := by
  cases consuming <;> rfl

/-- A step within a call: `markRecovered` is entered by a recovering load that was not there before,
and a load that was there does not go back. -/
structure Within (p p' : PartitionTable) : Prop where
  stop : p'.stopAfterCatchup = p.stopAfterCatchup
  enter : p'.pc.marking = true → p.pc.marking = false →
    p.stopAfterCatchup = true ∧ p.pc.settled = false
  settled : p.pc.settled = true → p'.pc.settled = true

theorem Within.of_settled (hstop : p'.stopAfterCatchup = p.stopAfterCatchup)
    (hmarking : p'.pc.marking = false) (hsettled : p'.pc.settled = true) : Within p p' where
  stop := hstop
  enter h := by simp [hmarking] at h
  settled _ := hsettled

theorem Within.of_loading (hstop : p'.stopAfterCatchup = p.stopAfterCatchup)
    (hmarking : p'.pc.marking = false) (hsettled : p.pc.settled = false) : Within p p' where
  stop := hstop
  enter h := by simp [hmarking] at h
  settled h := by simp [hsettled] at h

theorem Within.of_same (hstop : p'.stopAfterCatchup = p.stopAfterCatchup) (hpc : p'.pc = p.pc) :
    Within p p' where
  stop := hstop
  enter h h' := by simp [← hpc, h] at h'
  settled h := hpc ▸ h

theorem Within.leaveLoadMessages (hsettled : p.pc.settled = false) :
    Within p p.leaveLoadMessages := by
  unfold PartitionTable.leaveLoadMessages
  split
  · next hstop => exact ⟨rfl, fun _ _ => ⟨hstop, hsettled⟩, fun _ => rfl⟩
  · exact .of_settled rfl rfl rfl

/-- The only ways out of a call are the start of another recovery and of a catch-up. -/
theorem step_within (h : Step p e p') :
    Within p p' ∨ (∃ restartOnError, e = .setupAndRecover restartOnError (.ok ())) ∨
      (∃ restartOnError, e = .catchupForever restartOnError) ∧ p'.stopAfterCatchup = false ∧
        p'.pc.marking = false ∨
      e = .retry ∧ p'.stopAfterCatchup = p.stopAfterCatchup ∧ p'.pc.marking = false := by
  cases h with
  | setupCancelled _ restartOnError | setup _ restartOnError => exact .inr (.inl ⟨_, rfl⟩)
  | catchup _ restartOnError => exact .inr (.inr (.inl ⟨⟨_, rfl⟩, rfl, rfl⟩))
  | retry => exact .inr (.inr (.inr ⟨rfl, rfl, rfl⟩))
  | append | cancel | createFails | nilMessage | stallTick | consumerError =>
      exact .inl (.of_same rfl rfl)
  | ignored => exact .inl (.of_same rfl rfl)
  | offsetFails | watermarksFail | consumeFails | drained =>
      exact .inl (.of_settled rfl marking_returned settled_returned)
  | backoffCancelled | markPanics | updateFails | setFails => exact .inl (.of_settled rfl rfl rfl)
  | gotOffset hpc | found hpc | consume hpc | message hpc | updated hpc | offsetSet hpc =>
      exact .inl (.of_loading rfl rfl (by rw [hpc]; rfl))
  | upToDate hpc hstop =>
      have hsettled : p.pc.settled = false := by rw [hpc]; rfl
      exact .inl ⟨rfl, fun _ _ => ⟨hstop, hsettled⟩, fun h => by simp [hsettled] at h⟩
  | closed hpc | cancelled hpc | reached hpc =>
      exact .inl (.leaveLoadMessages (by rw [hpc]; rfl))
  | markCancelled | recovered | markFails =>
      exact .inl (.of_settled (stop_leaveMarkRecovered _) (marking_leaveMarkRecovered _)
        (settled_leaveMarkRecovered _))

end PartitionTable

namespace MarkedTable

open PartitionTable Schedule

variable {m m' : MarkedTable} {e : Event} {putErr : Option String} {action : Action}

/-- No recovering load is run again on a storage for which `MarkRecovered` was called. -/
def Once (m : MarkedTable) : Action → Prop
  | .event .retry _ => m.table.stopAfterCatchup = true → m.calls = 0
  | _ => True

instance : DecidablePred (Once m) := fun action =>
  match action with
  | .event .retry _ => inferInstanceAs (Decidable (m.table.stopAfterCatchup = true → m.calls = 0))
  | .event (.append _) _ | .event .cancel _ | .event (.setupAndRecover ..) _
  | .event (.catchupForever _) _ | .event (.gotOffset _) _ | .event (.gotWatermarks ..) _
  | .event (.consumePartition _) _ | .event .message _ | .event .nilMessage _ | .event .stallTick _
  | .event .messagesClosed _ | .event .contextDone _ | .event (.consumerError _) _
  | .event (.updated _) _ | .event (.offsetSet _) _ | .event (.markedRecovered _) _
  | .event .drained _ | .syncLoad | .syncPut => isTrue trivial

structure Inv (m : MarkedTable) : Prop where
  calls_le : m.calls ≤ 1
  not_panicked : m.panicked = false
  fresh : m.calls = 0 → m.st.recovered = false
  phase : m.calls = 0 ∨ m.table.stopAfterCatchup = false ∨ m.table.pc.settled = true

theorem inv_new (topic : String) (partition : Nat) (log : TopicLog) (db : Database) :
    Inv (new topic partition log db) :=
  ⟨Nat.zero_le _, rfl, fun _ => rfl, .inl rfl⟩

theorem inv_createStorage (h : m.panicked = false) : Inv m.createStorage :=
  ⟨Nat.zero_le _, h, fun _ => rfl, .inl rfl⟩

theorem tryMarkRecovered_cases {st : Storage} (h : st.recovered = false) (putErr : Option String) :
    (∃ st', st.tryMarkRecovered putErr = .ok st') ∨
    ∃ err, st.tryMarkRecovered putErr = .error err := by
  have hmark : st.markRecovered = .ok { st.putLoaded st.offset with recovered := true } := by
    simp [Storage.markRecovered, Storage.closeRecovered, h]
  cases putErr with
  | none => exact .inl ⟨_, hmark⟩
  | some err =>
      unfold Storage.tryMarkRecovered
      dsimp only
      split
      · exact .inl ⟨_, hmark⟩
      · exact .inr ⟨err, rfl⟩

theorem settled_of_marking {pc : Pc} (h : pc.marking = true) : pc.settled = true := by
  cases pc with
  | markingRecovered => rfl
  | _ => cases h

theorem inv_callMarkRecovered (hinv : Inv m) (hcalls : m.calls = 0)
    (hmarking : m.table.pc.marking = true) :
    Inv (m.callMarkRecovered putErr) := by
  have hcalled : ¬ m.calls + 1 = 0 := Nat.succ_ne_zero _
  have hle : m.calls + 1 ≤ 1 := by omega
  have hsettled := settled_of_marking hmarking
  unfold callMarkRecovered
  rcases tryMarkRecovered_cases (hinv.fresh hcalls) putErr with ⟨st, hmark⟩ | ⟨err, hmark⟩
  · rw [hmark]
    exact ⟨hle, hinv.not_panicked, fun h => absurd h hcalled, .inr (.inr hsettled)⟩
  · rw [hmark]
    exact ⟨hle, hinv.not_panicked, fun h => absurd h hcalled, .inr (.inr hsettled)⟩

/-- What the table asks of its storage does not mark it. -/
theorem recovered_of_answers {st : Storage} (h : m.answers e = some st) :
    st.recovered = m.st.recovered := by
  unfold answers at h
  split at h
  · split at h
    · obtain ⟨-, rfl⟩ := guard_eq_some.mp h
      rfl
    · cases h
  · split at h
    · obtain rfl := Option.some.inj h
      exact Storage.defaultUpdate_recovered _ _
    · cases h
  · split at h
    · obtain rfl := Option.some.inj h
      exact Storage.setOffset_recovered _
    · cases h
  · split at h
    · obtain ⟨-, rfl⟩ := guard_eq_some.mp h
      rfl
    · cases h
  · obtain ⟨-, rfl⟩ := guard_eq_some.mp h
    rfl
  · obtain rfl := Option.some.inj h
    rfl

theorem event_cases (h : m.event e putErr = some m') :
    ∃ st table, m.answers e = some st ∧ m.table.step e = some table ∧
      ((∃ restartOnError, e = .setupAndRecover restartOnError (.ok ())) ∧
          m' = { m with table := table, st := st }.createStorage ∨
        (∀ restartOnError, e ≠ .setupAndRecover restartOnError (.ok ())) ∧
          m' = if table.pc.marking && !m.table.pc.marking then
              { m with table := table, st := st }.callMarkRecovered putErr
            else { m with table := table, st := st }) := by
  unfold event at h
  split at h
  · next st table hst htable =>
      refine ⟨st, table, hst, htable, ?_⟩
      split at h
      · next restartOnError => exact .inl ⟨⟨restartOnError, rfl⟩, (Option.some.inj h).symm⟩
      · next hother => exact .inr ⟨hother, (Option.some.inj h).symm⟩
  · cases h

/-- `MarkRecovered` is called where a load enters `markRecovered`, and a load that recovers does so
once. -/
theorem inv_event (hinv : Inv m) (honce : Once m (.event e putErr))
    (h : m.event e putErr = some m') :
    Inv m' := by
  obtain ⟨st, table, hst, htable, hcases⟩ := event_cases h
  have hmove : (m.calls = 0 ∨ table.stopAfterCatchup = false ∨ table.pc.settled = true) →
      Inv { m with table := table, st := st } := fun hphase =>
    ⟨hinv.calls_le, hinv.not_panicked,
      fun hcalls => (recovered_of_answers hst).trans (hinv.fresh hcalls), hphase⟩
  rcases hcases with ⟨-, rfl⟩ | ⟨hother, rfl⟩
  · exact inv_createStorage hinv.not_panicked
  rcases step_within (step_cases htable) with
    hwithin | ⟨restartOnError, rfl⟩ | ⟨-, hstop, hmarking⟩ | ⟨rfl, hstop, hmarking⟩
  · split
    · next hentered =>
        rw [Bool.and_eq_true, Bool.not_eq_true'] at hentered
        obtain ⟨hstop, hsettled⟩ := hwithin.enter hentered.1 hentered.2
        have hcalls : m.calls = 0 := by simpa [hstop, hsettled] using hinv.phase
        exact inv_callMarkRecovered (hmove (.inl hcalls)) hcalls hentered.1
    · refine hmove ?_
      rw [hwithin.stop]
      exact hinv.phase.imp_right (Or.imp_right hwithin.settled)
  · exact absurd rfl (hother restartOnError)
  · rw [hmarking, Bool.false_and, if_neg Bool.false_ne_true]
    exact hmove (.inr (.inl hstop))
  · rw [hmarking, Bool.false_and, if_neg Bool.false_ne_true]
    refine hmove ?_
    rw [hstop]
    cases hstop' : m.table.stopAfterCatchup with
    | true => exact .inl (honce hstop')
    | false => exact .inr (.inl rfl)

theorem inv_step (hinv : Inv m) (honce : Once m action) (h : m.step action = some m') : Inv m' := by
  cases action with
  | event e putErr => exact inv_event hinv honce h
  | syncLoad =>
      obtain rfl := Option.some.inj h
      exact ⟨hinv.calls_le, hinv.not_panicked, hinv.fresh, hinv.phase⟩
  | syncPut =>
      change m.syncPut = some m' at h
      unfold syncPut at h
      split at h
      · obtain rfl := Option.some.inj h
        refine ⟨hinv.calls_le, hinv.not_panicked, fun hcalls => ?_, hinv.phase⟩
        exact (Storage.putLoaded_recovered _).trans (hinv.fresh hcalls)
      · cases h

/-- In a run in which no recovering load is repeated after it called `MarkRecovered`, the storage is
marked at most once, and no goroutine panics. -/
theorem marked_at_most_once (topic : String) (partition : Nat) (log : TopicLog) (db : Database)
    (actions : List Action)
    (honce : ∀ t ∈ transitions step (new topic partition log db) actions, Once t.1 t.2.1) :
    (run step (new topic partition log db) actions).calls ≤ 1 ∧
      (run step (new topic partition log db) actions).panicked = false := by
  have hinv : Inv (run step (new topic partition log db) actions) :=
    run_invariant_of_allowed Once (fun _ _ _ hinv honce h => inv_step hinv honce h)
      (inv_new topic partition log db) honce
  exact ⟨hinv.calls_le, hinv.not_panicked⟩

def events (es : List Event) : List Action := es.map fun e => .event e none

def recoverOne : List Event :=
  [.append ⟨5, [97], some [1]⟩, .setupAndRecover true (.ok ()), .gotOffset (.ok (-3)),
    .gotWatermarks none none, .consumePartition none, .message, .updated none, .offsetSet none]

def catchUp : List Event :=
  [.markedRecovered (.ok ()), .drained, .catchupForever true, .gotOffset (.ok 5),
    .gotWatermarks none none, .consumePartition none, .consumerError "broken pipe", .messagesClosed,
    .drained, .retry]

theorem marked_at_most_once_recovered :
    let m := run step (new "t" 0 .empty fun _ => none) (events (recoverOne ++ catchUp))
    m.table.pc = .gettingOffset ∧ m.calls ≤ 1 ∧ m.panicked = false :=
  ⟨by decide +kernel, marked_at_most_once "t" 0 .empty (fun _ => none)
    (events (recoverOne ++ catchUp))
    (by decide +kernel)⟩

/-- A consumer error arrives while the storage is being marked: the load fails, is run again, finds
that it is up to date and marks the same storage a second time. -/
theorem marked_twice :
    let m := run step (new "t" 0 .empty fun _ => none) (events (recoverOne ++
      [.consumerError "broken pipe", .markedRecovered (.ok ()), .drained, .retry,
        .gotOffset (.ok 5), .gotWatermarks none none]))
    m.calls = 2 ∧ m.panicked = true := by
  decide +kernel

end MarkedTable

end Goka
