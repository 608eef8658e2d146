import Goka.Proof.Incarnations

/-!
# Recoveries come to an end

A recovery that nothing disturbs reads the offset back, replays the topic from there and makes the
table readable. It waits for the record before the high watermark, so there has to be one.
-/

namespace Goka

open KeyedLog Schedule

namespace TopicLog

/-- The last record of the topic is the one before the high watermark, unless the topic never had
one. -/
def EndsAtRecord (log : TopicLog) : Prop :=
  log.newest = log.oldest ∨ ∃ r ∈ log.records, r.offset + 1 = log.newest

theorem EndsAtRecord.append {log log' : TopicLog} {record : TableRecord}
    (h : log.append record = some log') : EndsAtRecord log' := by
  obtain ⟨-, hrecords, -, hnewest⟩ := append_eq_some h
  refine .inr ⟨record, ?_, hnewest.symm⟩
  rw [hrecords]
  exact List.mem_append_right _ (List.mem_singleton_self _)

end TopicLog

namespace System

variable {s : System} {log : TopicLog} {record : TableRecord}

structure Loading (s : System) (log : TopicLog) : Prop where
  up : s.up = true
  storing : s.storing = false
  mark : s.mark = .idle
  log_eq : s.table.log = log
  hwm : s.table.hwm = log.newest
  stopAfterCatchup : s.table.stopAfterCatchup = true
  recovered : s.st.recovered = false

theorem Loading.message (h : Loading s log) (hpc : s.table.pc = .selecting)
    (hstate : s.table.state = .recovering)
    (hnext : nextRecord s.table.log.records s.table.cursor = some record) :
    ∃ s', s.step .message = some s' ∧ Loading s' log ∧ s'.table.pc = .updating record ∧
      s'.table.state = .recovering := by
  refine ⟨{ s with table := { s.table with pc := .updating record } }, ?_, ?_, rfl, hstate⟩
  · simp [step, tableStep, h.up, PartitionTable.step, PartitionTable.message, hpc, hnext, hstate]
  · exact ⟨h.up, h.storing, h.mark, h.log_eq, h.hwm, h.stopAfterCatchup, h.recovered⟩

theorem Loading.update (h : Loading s log) (hpc : s.table.pc = .updating record)
    (hstate : s.table.state = .recovering) :
    ∃ s', s.step .update = some s' ∧ Loading s' log ∧ s'.table.pc = .settingOffset record ∧
      s'.table.cursor = record.offset + 1 ∧ s'.table.state = .recovering := by
  refine ⟨{ s with
      st := s.st.defaultUpdate record.key record.value
      applied := s.applied ++ [record]
      table := { s.table with
        pc := .settingOffset record
        cursor := record.offset + 1
        applied := s.table.applied ++ [record] } }, ?_, ?_, rfl, rfl, hstate⟩
  · simp [step, System.update, hpc, tableStep, h.up, PartitionTable.step, PartitionTable.updated]
  · exact ⟨h.up, h.storing, h.mark, h.log_eq, h.hwm, h.stopAfterCatchup, by simpa using h.recovered⟩

/-- Each record is applied and its offset set, and the load goes on unless it was the last. -/
theorem Loading.setOffset (h : Loading s log) (hpc : s.table.pc = .settingOffset record)
    (hstate : s.table.state = .recovering) :
    ∃ s', Reaches step s s' ∧ Loading s' log ∧ s'.table.cursor = s.table.cursor ∧
      (log.newest ≤ record.offset + 1 → s'.table.pc = .markingRecovered true) ∧
      (record.offset + 1 < log.newest →
        s'.table.pc = .selecting ∧ s'.table.state = .recovering) := by
  have hnonneg := log.nonneg.trans log.oldest_le_newest
  have hfits := log.fits
  have hlast : int64 (s.table.hwm - 1) = log.newest - 1 := by
    rw [h.hwm, PartitionTable.int64_of_range (by omega) (by omega)]
  have hstore : s.step .storeOffset
      = some { s with st := s.st.storeOffset record.offset, storing := true } := by
    simp [step, System.storeOffset, hpc, h.up, h.storing]
  have hput : step { s with st := s.st.storeOffset record.offset, storing := true } .putOffset
      = some { s with
          st := (s.st.storeOffset record.offset).putIfRecovered record.offset
          storing := false
          table := if record.offset ≥ log.newest - 1 then s.table.markRecovered true
            else { s.table with pc := .selecting } } := by
    simp only [step, System.putOffset, hpc, if_true, tableStep, h.up, PartitionTable.step,
      PartitionTable.offsetSet, h.stopAfterCatchup, true_and, PartitionTable.leaveLoadMessages,
      hlast]
    split <;> rfl
  refine ⟨_, (Reaches.of_step hstore).trans (.of_step hput), ?_⟩
  have hrecovered :
      ((s.st.storeOffset record.offset).putIfRecovered record.offset).recovered = false := by
    simpa [Storage.storeOffset] using h.recovered
  by_cases hend : record.offset ≥ log.newest - 1
  · rw [if_pos hend]
    refine ⟨⟨h.up, rfl, h.mark, h.log_eq, h.hwm, h.stopAfterCatchup, hrecovered⟩, rfl, fun _ => rfl,
      ?_⟩
    omega
  · rw [if_neg hend]
    refine ⟨⟨h.up, rfl, h.mark, h.log_eq, h.hwm, h.stopAfterCatchup, hrecovered⟩, rfl, ?_,
      fun _ => ⟨rfl, hstate⟩⟩
    omega

/-- By induction on what is left of the log. -/
theorem Loading.messages (h : Loading s log) (hpc : s.table.pc = .selecting)
    (hstate : s.table.state = .recovering) (hcursor : s.table.cursor < log.newest)
    (hend : ∃ r ∈ log.records, r.offset + 1 = log.newest) :
    ∃ s', Reaches step s s' ∧ Loading s' log ∧ s'.table.pc = .markingRecovered true ∧
      log.newest ≤ s'.table.cursor := by
  induction hn : (log.newest
    - s.table.cursor).toNat using Nat.strong_induction_on generalizing s with
  | _ n ih =>
      obtain ⟨record, hnext⟩ :
          ∃ record, nextRecord s.table.log.records s.table.cursor = some record := by
        obtain ⟨r, hr, hlast⟩ := hend
        refine Option.isSome_iff_exists.mp (List.find?_isSome.mpr ⟨r, by rw [h.log_eq]; exact hr,
          ?_⟩)
        simpa using by omega
      obtain ⟨hmem, hle⟩ := nextRecord_eq_some hnext
      obtain ⟨s₁, hstep₁, h₁, hpc₁, hstate₁⟩ := h.message hpc hstate hnext
      obtain ⟨s₂, hstep₂, h₂, hpc₂, hcursor₂, hstate₂⟩ := h₁.update hpc₁ hstate₁
      obtain ⟨s₃, hreach₃, h₃, hcursor₃, hdone, hmore⟩ := h₂.setOffset hpc₂ hstate₂
      have hreach := (Reaches.of_step hstep₁).trans ((Reaches.of_step hstep₂).trans hreach₃)
      rcases lt_or_ge (record.offset + 1) log.newest with hlt | hge
      · obtain ⟨hpc₃, hstate₃⟩ := hmore hlt
        obtain ⟨s', hreach', hrest⟩ := ih _ (by omega) h₃ hpc₃ hstate₃ (by omega) rfl
        exact ⟨s', hreach.trans hreach', hrest⟩
      · exact ⟨s₃, hreach, h₃, hdone hge, by omega⟩

theorem Loading.markRecovered (h : Loading s log) {consuming : Bool}
    (hpc : s.table.pc = .markingRecovered consuming) :
    ∃ s', Reaches step s s' ∧ s'.table = s.table ∧ s'.st.recovered = true ∧
      ∃ s'', s'.step .marked = some s'' ∧ s''.table.readyToRead = .ok () ∧ s''.st = s'.st := by
  have hload : s.step .markLoad = some { s with mark := .loaded s.st.offset } := by
    simp [step, System.markLoad, hpc, h.mark, h.up]
  have hput : step { s with mark := .loaded s.st.offset } .markPut
      = some { s with st := s.st.putLoaded s.st.offset, mark := .written } := rfl
  have hclose : step { s with st := s.st.putLoaded s.st.offset, mark := .written } .markClose
      = some { s with
          st := { s.st.putLoaded s.st.offset with recovered := true }
          mark := .closed } := by
    simp [step, System.markClose, Storage.closeRecovered, h.recovered]
  refine ⟨_, (Reaches.of_step hload).trans ((Reaches.of_step hput).trans (.of_step hclose)), rfl,
    rfl, { s with
      st := { s.st.putLoaded s.st.offset with recovered := true }
      mark := .closed
      table := { s.table with state := .running }.leaveMarkRecovered consuming }, ?_, ?_, rfl⟩
  · simp [step, System.marked, tableStep, h.up, PartitionTable.step, PartitionTable.markedRecovered,
      hpc]
  · cases consuming <;> rfl

section Down

variable (topic : String) (partition : Nat) {db : Database} (applied : List TableRecord)
  {stored : Option Int}

/-- A database with an offset of the topic is opened, and its offset is read back. -/
theorem reaches_findingOffset (hpersisted : Storage.Persisted db stored) :
    ∃ s', Reaches step (down topic partition log db applied) s' ∧ s'.up = true ∧
      s'.storing = false ∧ s'.mark = .idle ∧ s'.st.recovered = false ∧ s'.table.log = log ∧
      s'.table.stopAfterCatchup = true ∧ s'.table.pc = .findingOffset ∧
      s'.table.storedOffset = stored.getD offsetNotStored := by
  let s₁ : System := { down topic partition log db applied with
    table := ({ PartitionTable.new topic partition log with state := .initializing }).load true
    up := true }
  have hstart : (down topic partition log db applied).step (.start true) = some s₁ := rfl
  have hget : s₁.step .getOffset = some { s₁ with table := { s₁.table with
      pc := .findingOffset
      storedOffset := (Int64.ofInt (stored.getD offsetNotStored)).toInt } } := by
    have hread : s₁.st.getOffset offsetNotStored = .ok (stored.getD offsetNotStored) :=
      Storage.getOffset_of_persisted hpersisted (.inr rfl) _
    simp only [step, System.getOffset, hread]
    rfl
  exact ⟨_, (Reaches.of_step hstart).trans (.of_step hget), rfl, rfl, rfl, rfl, rfl, rfl, rfl,
    toInt_ofInt_stored hpersisted⟩

/-- From a database left behind by a crash to the first message of the load. -/
theorem reaches_loading (hpersisted : Storage.Persisted db stored)
    (hstored : ∀ v ∈ stored, 0 ≤ v ∧ v < log.newest) :
    ∃ s', Reaches step (down topic partition log db applied) s' ∧ Loading s' log ∧
      s'.table.cursor = loadStart log.oldest stored ∧
      (log.newest ≤ s'.table.cursor → s'.table.pc = .markingRecovered false) ∧
      (s'.table.cursor < log.newest →
        s'.table.pc = .selecting ∧ s'.table.state = .recovering) := by
  obtain ⟨s, hreach, hup, hstoring, hmark, hrecovered, hlog, hstop, hpc, hoffset⟩ :=
    reaches_findingOffset topic partition applied hpersisted
  have hload : s.table.found.loadOffset = loadStart log.oldest stored := by
    rw [found_loadOffset (by rw [hlog]; exact hstored) hoffset, hlog]
  have hknown : ¬ (s.table.storedOffset > 0 ∧ s.table.log.newest = 0) := by
    rw [hoffset, hlog]
    cases stored with
    | none => simp [offsetNotStored]
    | some v =>
        have := hstored v rfl
        simp only [Option.getD_some]
        omega
  have hhwm : s.table.found.hwm = log.newest := by
    rw [← hlog]
    rfl
  by_cases hdone : log.newest ≤ loadStart log.oldest stored
  · have hgot : s.step (.gotWatermarks none none)
        = some { s with table := s.table.found.markRecovered false } := by
      simp only [step, tableStep, hup, if_true, PartitionTable.step, PartitionTable.gotWatermarks,
        hpc, hknown, if_false, hload, hhwm, ge_iff_le, hdone, and_true]
      rw [if_pos (by exact hstop)]
      rfl
    refine ⟨_, hreach.trans (.of_step hgot), ⟨hup, hstoring, hmark, hlog, hhwm, hstop, hrecovered⟩,
      hload, fun _ => rfl, fun hlt => ?_⟩
    exact absurd (hlt.trans_le hdone) (by rw [← hload]; exact lt_irrefl _)
  · have hgot : s.step (.gotWatermarks none none)
        = some { s with table := { s.table.found with pc := .subscribing } } := by
      simp only [step, tableStep, hup, if_true, PartitionTable.step, PartitionTable.gotWatermarks,
        hpc, hknown, if_false, hload, hhwm, ge_iff_le, hdone, and_false]
      rfl
    have hconsume : step { s with table := { s.table.found with pc := .subscribing } }
        (.consumePartition none)
        = some { s with
          table := { s.table.found with pc := .selecting, state := .recovering } } := by
      have hstop' : s.table.found.stopAfterCatchup = true := hstop
      simp [step, tableStep, hup, PartitionTable.step, PartitionTable.consumePartition, hstop']
    refine ⟨_, hreach.trans ((Reaches.of_step hgot).trans (.of_step hconsume)),
      ⟨hup, hstoring, hmark, hlog, hhwm, hstop, hrecovered⟩, hload, fun hle => ?_,
      fun _ => ⟨rfl, rfl⟩⟩
    exact absurd (hle.trans hload.le) hdone

/-- A recovery that nothing disturbs consumes up to the high watermark and makes the table
readable. -/
theorem exists_recovery (hpersisted : Storage.Persisted db stored)
    (hstored : ∀ v ∈ stored, 0 ≤ v ∧ v < log.newest) (hend : log.EndsAtRecord) :
    ∃ s', Reaches step (down topic partition log db applied) s' ∧ s'.ConsumedToHwm ∧
      s'.table.log = log ∧ s'.table.hwm = log.newest ∧ s'.st.recovered = true ∧
      ∃ s'', s'.step .marked = some s'' ∧ s''.table.readyToRead = .ok () ∧ s''.st = s'.st := by
  obtain ⟨s₁, hreach₁, h₁, hcursor₁, hdone, hmore⟩ :=
    reaches_loading topic partition applied hpersisted hstored
  obtain ⟨s₂, hreach₂, h₂, consuming, hpc₂, hcursor₂⟩ : ∃ s₂, Reaches step s₁ s₂ ∧ Loading s₂ log ∧
      ∃ consuming, s₂.table.pc = .markingRecovered consuming ∧ log.newest ≤ s₂.table.cursor := by
    rcases lt_or_ge s₁.table.cursor log.newest with hlt | hge
    · obtain ⟨hpc, hstate⟩ := hmore hlt
      have hlast : ∃ r ∈ log.records, r.offset + 1 = log.newest := by
        refine hend.resolve_left fun heq => ?_
        have := oldest_le_loadStart log.oldest stored
        omega
      obtain ⟨s₂, hreach₂, h₂, hpc₂, hcursor₂⟩ := h₁.messages hpc hstate hlt hlast
      exact ⟨s₂, hreach₂, h₂, true, hpc₂, hcursor₂⟩
    · exact ⟨s₁, ⟨[], rfl⟩, h₁, false, hdone hge, hge⟩
  obtain ⟨s', hreach', htable, hrecovered, hmarked⟩ := h₂.markRecovered hpc₂
  refine ⟨s', hreach₁.trans (hreach₂.trans hreach'), ⟨?_, ?_⟩, ?_, ?_, hrecovered, hmarked⟩
  · rw [htable, hpc₂]
    rfl
  · rw [htable]
    intro r _ hcursor
    rw [h₂.hwm]
    exact hcursor₂.trans hcursor
  · rw [htable, h₂.log_eq]
  · rw [htable, h₂.hwm]

end Down

end System

end Goka
