import Goka.PartitionTable

/-!
# When a table becomes readable

A recovering load has applied every record it was delivered. It leaves `loadMessages` behind the
last record below the high watermark, behind a closed channel or behind a cancelled context, and
goes on to mark the table as recovered in all three cases. So the table is complete when it becomes
readable as long as the last two exits are not taken early.
-/

namespace Goka

open KeyedLog Schedule

namespace PartitionTable

variable {p p' q : PartitionTable} {record : TableRecord}

/-! ### What an event can do -/

/-- One constructor for each branch an event can take. -/
inductive Step (p : PartitionTable) : Event → PartitionTable → Prop where
  | append {record : TableRecord} {log : TopicLog} (hlog : p.log.append record = some log) :
      Step p (.append record) { p with log := log }
  | cancel : Step p .cancel { p with cancelled := true }
  | createFails (hpc : p.pc = .idle) (restartOnError : Bool) (err : String) :
      Step p (.setupAndRecover restartOnError (.error err))
        { p with state := .stopped, errs := ["error setting up partition table: " ++ err] }
  | setupCancelled (hpc : p.pc = .idle) (restartOnError : Bool) :
      Step p (.setupAndRecover restartOnError (.ok ()))
        { p with state := .initializing, restartOnError := restartOnError, errs := [] }
  | setup (hpc : p.pc = .idle) (restartOnError : Bool) :
      Step p (.setupAndRecover restartOnError (.ok ()))
        ({ p with state := .initializing, restartOnError := restartOnError, errs := [] }.load true)
  | catchup (hpc : p.pc = .idle) (restartOnError : Bool) :
      Step p (.catchupForever restartOnError)
        ({ p with restartOnError := restartOnError }.load false)
  | offsetFails (hpc : p.pc = .gettingOffset) (err text : String) :
      Step p (.gotOffset (.error err)) (p.collect text).returned
  | gotOffset (hpc : p.pc = .gettingOffset) (storedOffset : Int64) :
      Step p (.gotOffset (.ok storedOffset))
        { p with pc := .findingOffset, storedOffset := storedOffset.toInt }
  | watermarksFail (hpc : p.pc = .findingOffset) (oldestErr newestErr : Option String)
      (text : String) : Step p (.gotWatermarks oldestErr newestErr) (p.collect text).returned
  | upToDate (hpc : p.pc = .findingOffset) (hstop : p.stopAfterCatchup)
      (hreached : p.found.hwm ≤ p.found.loadOffset) :
      Step p (.gotWatermarks none none) (p.found.markRecovered false)
  | found (hpc : p.pc = .findingOffset) :
      Step p (.gotWatermarks none none) { p.found with pc := .subscribing }
  | consumeFails (hpc : p.pc = .subscribing) (err text : String) :
      Step p (.consumePartition (some err)) (p.collect text).returned
  | consume (hpc : p.pc = .subscribing) :
      Step p (.consumePartition none)
        { p with pc := .selecting, state := if p.stopAfterCatchup then .recovering else .running }
  | ignored {record : TableRecord} (hpc : p.pc = .selecting) (hstate : p.state = .running)
      (hstop : p.stopAfterCatchup) : Step p .message { p with cursor := record.offset + 1 }
  | message {record : TableRecord} (hpc : p.pc = .selecting)
      (hnext : nextRecord p.log.records p.cursor = some record) :
      Step p .message { p with pc := .updating record }
  | nilMessage : Step p .nilMessage p
  | stallTick : Step p .stallTick p
  | closed (hpc : p.pc = .selecting) : Step p .messagesClosed p.leaveLoadMessages
  | cancelled (hpc : p.pc = .selecting) : Step p .contextDone p.leaveLoadMessages
  | markCancelled {consuming : Bool} (hpc : p.pc = .markingRecovered consuming) :
      Step p .contextDone (p.leaveMarkRecovered consuming)
  | backoffCancelled (hpc : p.pc = .backoff) :
      Step p .contextDone { p with pc := .idle, errs := [] }
  | consumerError (err text : String) : Step p (.consumerError err) (p.collect text)
  | updateFails {record : TableRecord} (hpc : p.pc = .updating record) (err text : String) :
      Step p (.updated (some err)) { p.collect text with pc := .draining }
  | updated {record : TableRecord} (hpc : p.pc = .updating record) :
      Step p (.updated none) { p with
        pc := .settingOffset record
        cursor := record.offset + 1
        applied := p.applied ++ [record] }
  | setFails {record : TableRecord} (hpc : p.pc = .settingOffset record) (err text : String) :
      Step p (.offsetSet (some err)) { p.collect text with pc := .draining }
  | reached {record : TableRecord} (hpc : p.pc = .settingOffset record)
      (hlast : int64 (p.hwm - 1) ≤ record.offset) : Step p (.offsetSet none) p.leaveLoadMessages
  | offsetSet {record : TableRecord} (hpc : p.pc = .settingOffset record) :
      Step p (.offsetSet none) { p with pc := .selecting }
  | recovered {consuming : Bool} (hpc : p.pc = .markingRecovered consuming) :
      Step p (.markedRecovered (.ok ())) ({ p with state := .running }.leaveMarkRecovered consuming)
  | markFails {consuming : Bool} (hpc : p.pc = .markingRecovered consuming) (err : String) :
      Step p (.markedRecovered (.error err)) ((p.collect err).leaveMarkRecovered consuming)
  | markPanics {consuming : Bool} (hpc : p.pc = .markingRecovered consuming) (err : String) :
      Step p (.markedRecovered (.panic err)) { p with pc := .crashed }
  | drained (hpc : p.pc = .draining) : Step p .drained p.returned
  | retry (hpc : p.pc = .backoff) : Step p .retry (p.load p.stopAfterCatchup)

theorem gotWatermarks_cases {oldestErr newestErr : Option String}
    (h : p.gotWatermarks oldestErr newestErr = some p') :
    Step p (.gotWatermarks oldestErr newestErr) p' := by
  unfold gotWatermarks at h
  split at h
  case isFalse => cases h
  rename_i hpc
  split at h
  · obtain rfl := Option.some.inj h
    exact .watermarksFail hpc _ _ _
  · obtain rfl := Option.some.inj h
    exact .watermarksFail hpc _ _ _
  · split at h
    · obtain rfl := Option.some.inj h
      exact .watermarksFail hpc _ _ _
    · dsimp only at h
      split at h <;> obtain rfl := Option.some.inj h
      · rename_i hstop
        exact .upToDate hpc hstop.1 hstop.2
      · exact .found hpc

theorem message_cases (h : p.message = some p') : Step p .message p' := by
  unfold message at h
  split at h
  case isFalse => cases h
  rename_i hpc
  split at h
  · cases h
  · rename_i record hnext
    split at h <;> obtain rfl := Option.some.inj h
    · rename_i hignored
      exact .ignored hpc hignored.1 hignored.2
    · exact .message hpc hnext

theorem contextDone_cases (h : p.contextDone = some p') : Step p .contextDone p' := by
  unfold contextDone at h
  split at h
  case isFalse => cases h
  split at h
  · obtain rfl := Option.some.inj h
    exact .cancelled ‹_›
  · obtain rfl := Option.some.inj h
    exact .markCancelled ‹_›
  · obtain rfl := Option.some.inj h
    exact .backoffCancelled ‹_›
  · cases h

theorem offsetSet_cases {err : Option String} (h : p.offsetSet err = some p') :
    Step p (.offsetSet err) p' := by
  unfold offsetSet at h
  split at h
  case h_2 => cases h
  rename_i record hpc
  split at h
  · obtain rfl := Option.some.inj h
    exact .setFails hpc _ _
  · split at h <;> obtain rfl := Option.some.inj h
    · rename_i hlast
      exact .reached hpc hlast.2
    · exact .offsetSet hpc

theorem markedRecovered_cases {result : Outcome Unit} (h : p.markedRecovered result = some p') :
    Step p (.markedRecovered result) p' := by
  unfold markedRecovered at h
  split at h
  case h_2 => cases h
  rename_i consuming hpc
  split at h <;> obtain rfl := Option.some.inj h
  · exact .recovered hpc
  · exact .markFails hpc _
  · exact .markPanics hpc _

/-- **The one inversion of `step`.** Every property of the table's steps is read off the
branches. -/
theorem step_cases {e : Event} (h : p.step e = some p') : Step p e p' := by
  cases e with
  | append record =>
      obtain ⟨log, hlog, rfl⟩ := Option.map_eq_some_iff.mp h
      exact .append hlog
  | cancel =>
      obtain rfl := Option.some.inj h
      exact .cancel
  | setupAndRecover restartOnError createStorage =>
      simp only [step, setupAndRecover] at h
      split at h
      case isFalse => cases h
      rename_i hpc
      split at h <;> obtain rfl := Option.some.inj h
      · exact .createFails hpc _ _
      · split
        · exact .setupCancelled hpc _
        · exact .setup hpc _
  | catchupForever restartOnError =>
      simp only [step, catchupForever] at h
      split at h
      case isFalse => cases h
      obtain rfl := Option.some.inj h
      exact .catchup ‹_› _
  | gotOffset result =>
      simp only [step, gotOffset] at h
      split at h
      case isFalse => cases h
      rename_i hpc
      split at h <;> obtain rfl := Option.some.inj h
      · exact .offsetFails hpc _ _
      · exact .gotOffset hpc _
  | gotWatermarks oldestErr newestErr => exact gotWatermarks_cases h
  | consumePartition err =>
      simp only [step, consumePartition] at h
      split at h
      case isFalse => cases h
      rename_i hpc
      split at h <;> obtain rfl := Option.some.inj h
      · exact .consumeFails hpc _ _
      · exact .consume hpc
  | message => exact message_cases h
  | nilMessage =>
      simp only [step, passOver] at h
      split at h
      case isFalse => cases h
      obtain rfl := Option.some.inj h
      exact .nilMessage
  | stallTick =>
      simp only [step, passOver] at h
      split at h
      case isFalse => cases h
      obtain rfl := Option.some.inj h
      exact .stallTick
  | messagesClosed =>
      simp only [step, messagesClosed] at h
      split at h
      case isFalse => cases h
      obtain rfl := Option.some.inj h
      exact .closed ‹_›
  | contextDone => exact contextDone_cases h
  | consumerError err =>
      simp only [step, consumerError] at h
      split at h
      case isFalse => cases h
      obtain rfl := Option.some.inj h
      exact .consumerError _ _
  | updated err =>
      simp only [step, updated] at h
      split at h
      case h_2 => cases h
      rename_i record hpc
      split at h <;> obtain rfl := Option.some.inj h
      · exact .updateFails hpc _ _
      · exact .updated hpc
  | offsetSet err => exact offsetSet_cases h
  | markedRecovered result => exact markedRecovered_cases h
  | drained =>
      simp only [step, drained] at h
      split at h
      case isFalse => cases h
      obtain rfl := Option.some.inj h
      exact .drained ‹_›
  | retry =>
      simp only [step, retry] at h
      split at h
      case isFalse => cases h
      obtain rfl := Option.some.inj h
      exact .retry ‹_›

/-! ### Invariants of a load -/

def CaughtUp (p : PartitionTable) : Prop :=
  ∀ r ∈ p.log.records, p.cursor ≤ r.offset → p.hwm ≤ r.offset

structure Loaded (p : PartitionTable) : Prop where
  load_eq : p.loadOffset = if p.storedOffset ≥ p.hwm then p.hwm
    else findOffsetToLoad p.log.oldest p.storedOffset
  oldest_le : p.log.oldest ≤ p.loadOffset
  load_le : p.loadOffset ≤ p.cursor
  cursor_le : p.cursor ≤ p.log.newest
  hwm_nonneg : 0 ≤ p.hwm
  hwm_le : p.hwm ≤ p.log.newest
  applied : ∀ r ∈ p.log.records, p.loadOffset ≤ r.offset → r.offset < p.cursor → r ∈ p.applied

def At (p : PartitionTable) : Pc → Prop
  | .findingOffset => -2 ^ 63 ≤ p.storedOffset
  | .selecting => p.stopAfterCatchup → p.state ≠ .running
  | .updating record =>
      (p.stopAfterCatchup → p.state ≠ .running) ∧ nextRecord p.log.records p.cursor = some record
  | .settingOffset record =>
      (p.stopAfterCatchup → p.state ≠ .running) ∧ p.cursor = record.offset + 1
  | .markingRecovered _ => p.stopAfterCatchup
  | _ => True

structure LoadInv (p : PartitionTable) : Prop where
  loaded : p.pc.loading → Loaded p
  at_pc : p.At p.pc

theorem Loaded.frame (h : Loaded p)
    (hsame : q.log = p.log ∧ q.storedOffset = p.storedOffset ∧ q.loadOffset = p.loadOffset ∧
      q.cursor = p.cursor ∧ q.hwm = p.hwm ∧ q.applied = p.applied) : Loaded q := by
  obtain ⟨hlog, hstored, hload, hcursor, hhwm, happlied⟩ := hsame
  constructor
  · rw [hload, hstored, hhwm, hlog]; exact h.load_eq
  · rw [hlog, hload]; exact h.oldest_le
  · rw [hload, hcursor]; exact h.load_le
  · rw [hcursor, hlog]; exact h.cursor_le
  · rw [hhwm]; exact h.hwm_nonneg
  · rw [hhwm, hlog]; exact h.hwm_le
  · rw [hlog, hload, hcursor, happlied]; exact h.applied

theorem At.frame {pc : Pc} (h : p.At pc)
    (hsame : q.storedOffset = p.storedOffset ∧ q.stopAfterCatchup = p.stopAfterCatchup ∧
      q.state = p.state ∧ q.log = p.log ∧ q.cursor = p.cursor) : q.At pc := by
  obtain ⟨hstored, hstop, hstate, hlog, hcursor⟩ := hsame
  have heq : q.At pc = p.At pc := by
    unfold At
    rw [hstored, hstop, hstate, hlog, hcursor]
  rw [heq]
  exact h

theorem LoadInv.loaded_eq {pc : Pc} (hinv : LoadInv p) (hpc : p.pc = pc) (hloading : pc.loading) :
    Loaded p :=
  hinv.loaded (by rw [hpc]; exact hloading)

theorem LoadInv.at_eq {pc : Pc} (hinv : LoadInv p) (hpc : p.pc = pc) : p.At pc :=
  hpc ▸ hinv.at_pc

theorem loadInv_new (topic : String) (partition : Nat) (log : TopicLog) :
    LoadInv (new topic partition log) :=
  ⟨nofun, trivial⟩

theorem int64_of_range {v : Int} (hlow : -2 ^ 63 ≤ v) (hhigh : v < 2 ^ 63) : int64 v = v := by
  unfold int64
  exact Int.bmod_eq_of_le (by omega) (by omega)

theorem oldest_le_findOffsetToLoad (oldest storedOffset : Int) :
    oldest ≤ findOffsetToLoad oldest storedOffset := by
  unfold findOffsetToLoad
  dsimp only
  split <;> omega

theorem findOffsetToLoad_le_newest {log : TopicLog} {storedOffset : Int}
    (hlow : -2 ^ 63 ≤ storedOffset) (h : storedOffset < log.newest) :
    findOffsetToLoad log.oldest storedOffset ≤ log.newest := by
  have holdest := log.oldest_le_newest
  have hfits := log.fits
  unfold findOffsetToLoad
  dsimp only
  rw [int64_of_range (by omega) (by omega)]
  split <;> split <;> omega

theorem LoadInv.of_frame (h : Loaded p)
    (hsame : q.log = p.log ∧ q.storedOffset = p.storedOffset ∧ q.loadOffset = p.loadOffset ∧
      q.cursor = p.cursor ∧ q.hwm = p.hwm ∧ q.applied = p.applied) (hat : q.At q.pc) : LoadInv q :=
  ⟨fun _ => h.frame hsame, hat⟩

theorem loadInv_returned (p : PartitionTable) : LoadInv p.returned := by
  unfold returned
  by_cases h : p.errs ≠ [] ∧ p.restartOnError = true
  · simp only [if_pos h]
    exact ⟨nofun, trivial⟩
  · simp only [if_neg h]
    exact ⟨nofun, trivial⟩

theorem Loaded.leaveLoadMessages (h : Loaded p) : LoadInv p.leaveLoadMessages := by
  unfold PartitionTable.leaveLoadMessages
  split
  · rename_i hstop
    exact .of_frame h ⟨rfl, rfl, rfl, rfl, rfl, rfl⟩ hstop
  · exact .of_frame h ⟨rfl, rfl, rfl, rfl, rfl, rfl⟩ trivial

theorem Loaded.leaveMarkRecovered (h : Loaded p) (consuming : Bool) :
    LoadInv (p.leaveMarkRecovered consuming) := by
  unfold PartitionTable.leaveMarkRecovered
  split
  · exact .of_frame h ⟨rfl, rfl, rfl, rfl, rfl, rfl⟩ trivial
  · exact loadInv_returned p

/-- A record that arrives lies behind the high watermark of the load. -/
theorem loadInv_append (hinv : LoadInv p) {log : TopicLog} (h : p.log.append record = some log) :
    LoadInv { p with log := log } := by
  obtain ⟨hnewest, hrecords, holdest, hnewest'⟩ := TopicLog.append_eq_some h
  refine ⟨fun hloading => ?_, ?_⟩
  · have hl := hinv.loaded hloading
    constructor
    · rw [holdest]
      exact hl.load_eq
    · rw [holdest]
      exact hl.oldest_le
    · exact hl.load_le
    · rw [hnewest']
      exact hl.cursor_le.trans (by omega)
    · exact hl.hwm_nonneg
    · rw [hnewest']
      exact hl.hwm_le.trans (by omega)
    · intro r hr hlo hlt
      rw [hrecords] at hr
      rcases List.mem_append.mp hr with hr | hr
      · exact hl.applied r hr hlo hlt
      · -- a record appended now lies behind the cursor's reach
        rw [List.mem_singleton.mp hr] at hlt
        have hcursor := hl.cursor_le
        have : record.offset < p.cursor := hlt
        omega
  · have hat := hinv.at_pc
    cases hpc : p.pc with
    | updating r =>
        rw [hpc] at hat
        exact ⟨hat.1, by rw [hrecords]; exact nextRecord_append hat.2 record⟩
    | _ =>
        rw [hpc] at hat
        exact hat

theorem loaded_found (hlow : -2 ^ 63 ≤ p.storedOffset) : Loaded p.found := by
  have holdest := p.log.oldest_le_newest
  have hrange : p.log.oldest ≤ p.found.loadOffset ∧ p.found.loadOffset ≤ p.log.newest := by
    unfold found
    dsimp only
    split
    · exact ⟨holdest, le_rfl⟩
    · rename_i hlt
      exact ⟨oldest_le_findOffsetToLoad .., findOffsetToLoad_le_newest hlow (not_le.mp hlt)⟩
  refine ⟨rfl, hrange.1, le_rfl, hrange.2, p.log.nonneg.trans holdest, le_rfl, ?_⟩
  -- nothing has been consumed: no offset lies from `loadOffset` up to the cursor
  exact fun r _ hlo hlt => absurd (lt_of_le_of_lt hlo hlt) (lt_irrefl _)

theorem loadInv_updated (h : Loaded p) (hnext : nextRecord p.log.records p.cursor = some record)
    (hstate : p.stopAfterCatchup → p.state ≠ .running) :
    LoadInv { p with
      pc := .settingOffset record
      cursor := record.offset + 1
      applied := p.applied ++ [record] } := by
  obtain ⟨hmem, hcursor⟩ := nextRecord_eq_some hnext
  have hnewest := p.log.lt_newest record hmem
  refine ⟨fun _ => ⟨h.load_eq, h.oldest_le, h.load_le.trans ?_, ?_, h.hwm_nonneg, h.hwm_le, ?_⟩,
    hstate, rfl⟩
  · dsimp only
    omega
  · dsimp only
    omega
  · intro r hr hlo hlt
    have hlt' : r.offset < record.offset + 1 := hlt
    by_cases hbefore : r.offset < p.cursor
    · exact List.mem_append_left _ (h.applied r hr hlo hbefore)
    · -- from the cursor on, the record read next is the only one up to its own offset
      have hgap := nextRecord_gap p.log.ordered hnext r hr
      have hoffset : r.offset = record.offset := by omega
      have heq : r = record := p.log.ordered.eq_of_offset_eq hr hmem hoffset
      rw [heq]
      exact List.mem_append_right _ (List.mem_singleton_self _)

/-- The bounds are set once; from then on the cursor goes from record to record, and what it passes
is applied. -/
theorem loadInv_step {e : Event} (hinv : LoadInv p) (h : p.step e = some p') : LoadInv p' := by
  cases step_cases h with
  | append hlog => exact loadInv_append hinv hlog
  | cancel | consumerError =>
      exact ⟨fun hloading => (hinv.loaded hloading).frame ⟨rfl, rfl, rfl, rfl, rfl, rfl⟩,
        hinv.at_pc.frame ⟨rfl, rfl, rfl, rfl, rfl⟩⟩
  | createFails hpc | setupCancelled hpc =>
      refine ⟨fun hloading => ?_, by rw [hpc]; trivial⟩
      rw [hpc] at hloading
      cases hloading
  | setup | catchup | retry | backoffCancelled | markPanics => exact ⟨nofun, trivial⟩
  | offsetFails | watermarksFail | consumeFails | drained => exact loadInv_returned _
  | gotOffset hpc storedOffset => exact ⟨nofun, storedOffset.le_toInt⟩
  | upToDate hpc hstop =>
      exact .of_frame (loaded_found (hinv.at_eq hpc)) ⟨rfl, rfl, rfl, rfl, rfl, rfl⟩ hstop
  | found hpc =>
      exact .of_frame (loaded_found (hinv.at_eq hpc)) ⟨rfl, rfl, rfl, rfl, rfl, rfl⟩ trivial
  | consume hpc =>
      refine .of_frame (hinv.loaded_eq hpc rfl) ⟨rfl, rfl, rfl, rfl, rfl, rfl⟩ ?_
      intro hstop
      have hstop' : p.stopAfterCatchup = true := hstop
      simp [hstop']
  | ignored hpc hstate hstop => exact absurd hstate (hinv.at_eq hpc hstop)
  | message hpc hnext =>
      exact .of_frame (hinv.loaded_eq hpc rfl) ⟨rfl, rfl, rfl, rfl, rfl, rfl⟩ ⟨hinv.at_eq hpc,
        hnext⟩
  | nilMessage | stallTick => exact hinv
  | closed hpc | cancelled hpc => exact (hinv.loaded_eq hpc rfl).leaveLoadMessages
  | markCancelled hpc => exact (hinv.loaded_eq hpc rfl).leaveMarkRecovered _
  | updateFails hpc | setFails hpc =>
      exact .of_frame (hinv.loaded_eq hpc rfl) ⟨rfl, rfl, rfl, rfl, rfl, rfl⟩ trivial
  | updated hpc =>
      obtain ⟨hstate, hnext⟩ := hinv.at_eq hpc
      exact loadInv_updated (hinv.loaded_eq hpc rfl) hnext hstate
  | reached hpc => exact (hinv.loaded_eq hpc rfl).leaveLoadMessages
  | offsetSet hpc =>
      exact .of_frame (hinv.loaded_eq hpc rfl) ⟨rfl, rfl, rfl, rfl, rfl, rfl⟩ (hinv.at_eq hpc).1
  | recovered hpc =>
      have hrunning : Loaded { p with state := .running } :=
        (hinv.loaded_eq hpc rfl).frame ⟨rfl, rfl, rfl, rfl, rfl, rfl⟩
      exact hrunning.leaveMarkRecovered _
  | markFails hpc err =>
      have hcollected : Loaded (p.collect err) :=
        (hinv.loaded_eq hpc rfl).frame ⟨rfl, rfl, rfl, rfl, rfl, rfl⟩
      exact hcollected.leaveMarkRecovered _

/-! ### Becoming readable -/

def MarkedCaughtUp (p : PartitionTable) : Prop :=
  ∀ consuming, p.pc = .markingRecovered consuming → p.CaughtUp

/-- The load does not leave `loadMessages` behind a closed channel or a cancelled context while a
record below its high watermark is still to be delivered. -/
def ExitsCaughtUp (p : PartitionTable) (e : Event) : Prop :=
  e = .messagesClosed ∨ e = .contextDone → p.pc = .selecting → p.stopAfterCatchup → p.CaughtUp

theorem markedCaughtUp_returned (p : PartitionTable) : MarkedCaughtUp p.returned := by
  intro consuming hpc
  unfold returned at hpc
  dsimp only at hpc
  split at hpc <;> cases hpc

theorem markedCaughtUp_leaveMarkRecovered (p : PartitionTable) (consuming : Bool) :
    MarkedCaughtUp (p.leaveMarkRecovered consuming) := by
  cases consuming with
  | false => exact markedCaughtUp_returned p
  | true => exact nofun

theorem CaughtUp.leaveLoadMessages (h : p.stopAfterCatchup → p.CaughtUp) :
    MarkedCaughtUp p.leaveLoadMessages := by
  unfold PartitionTable.leaveLoadMessages
  split
  · rename_i hstop
    exact fun _ _ => h hstop
  · exact nofun

theorem markedCaughtUp_append (hinv : LoadInv p) (hcaught : MarkedCaughtUp p) {log : TopicLog}
    (h : p.log.append record = some log) : MarkedCaughtUp { p with log := log } := by
  intro consuming hpc r hr hcursor
  have hpc' : p.pc = .markingRecovered consuming := hpc
  have hhwm := (hinv.loaded (by rw [hpc']; rfl)).hwm_le
  obtain ⟨hnewest, hrecords, -, -⟩ := TopicLog.append_eq_some h
  rw [hrecords] at hr
  rcases List.mem_append.mp hr with hr | hr
  · exact hcaught consuming hpc' r hr hcursor
  · rw [List.mem_singleton.mp hr]
    exact hhwm.trans hnewest

/-- The load goes on to mark the table only from the end of its messages. -/
theorem markedCaughtUp_step {e : Event} (hinv : LoadInv p) (hcaught : MarkedCaughtUp p)
    (hexit : ExitsCaughtUp p e) (h : p.step e = some p') : MarkedCaughtUp p' := by
  cases step_cases h with
  | append hlog => exact markedCaughtUp_append hinv hcaught hlog
  | cancel | nilMessage | stallTick | consumerError => exact hcaught
  | createFails hpc | setupCancelled hpc => exact fun _ hpc' => absurd (hpc.symm.trans hpc') nofun
  | offsetFails | watermarksFail | consumeFails | drained => exact markedCaughtUp_returned _
  | upToDate hpc hstop hreached => exact fun _ _ r _ hcursor => hreached.trans hcursor
  | ignored hpc hstate hstop => exact absurd hstate (hinv.at_eq hpc hstop)
  | closed hpc => exact CaughtUp.leaveLoadMessages (hexit (.inl rfl) hpc)
  | cancelled hpc => exact CaughtUp.leaveLoadMessages (hexit (.inr rfl) hpc)
  | markCancelled | recovered | markFails => exact markedCaughtUp_leaveMarkRecovered _ _
  | reached hpc hlast =>
      refine CaughtUp.leaveLoadMessages fun _ r _ hr => ?_
      have hl := hinv.loaded_eq hpc rfl
      have hcursor := (hinv.at_eq hpc).2
      have hhwm : int64 (p.hwm - 1) = p.hwm - 1 := by
        have := hl.hwm_nonneg
        have := hl.hwm_le
        have := p.log.fits
        exact int64_of_range (by omega) (by omega)
      rw [hhwm] at hlast
      omega
  | _ => exact nofun

def BecomesReadable (p p' : PartitionTable) : Prop :=
  p.readyToRead ≠ .ok () ∧ p'.readyToRead = .ok ()

theorem readyToRead_eq_ok : p.readyToRead = .ok () ↔ p.state = .running := by
  unfold readyToRead PartitionStatus.readyToRead
  by_cases h : p.state = .running <;> simp [h]

theorem leaveMarkRecovered_same (p : PartitionTable) (consuming : Bool) :
    (p.leaveMarkRecovered consuming).log = p.log ∧
      (p.leaveMarkRecovered consuming).loadOffset = p.loadOffset ∧
      (p.leaveMarkRecovered consuming).hwm = p.hwm ∧
      (p.leaveMarkRecovered consuming).applied = p.applied ∧
      (p.leaveMarkRecovered consuming).state = p.state := by
  cases consuming <;> exact ⟨rfl, rfl, rfl, rfl, rfl⟩

theorem leaveLoadMessages_state (h : p.leaveLoadMessages.state = .running) :
    p.state = .running := by
  unfold leaveLoadMessages at h
  split at h
  · cases h
  · exact h

/-- A step makes a recovering load readable only where `MarkRecovered` has come back. -/
theorem markingRecovered_of_becomesReadable {e : Event} (h : p.step e = some p')
    (hreadable : BecomesReadable p p') (hstop : p.stopAfterCatchup) :
    ∃ consuming, p.pc = .markingRecovered consuming ∧ p'.log = p.log ∧
      p'.loadOffset = p.loadOffset ∧ p'.hwm = p.hwm ∧ p'.applied = p.applied := by
  have hbefore : p.state ≠ .running := fun hrunning => hreadable.1 (readyToRead_eq_ok.mpr hrunning)
  have hafter := readyToRead_eq_ok.mp hreadable.2
  cases step_cases h with
  | recovered hpc =>
      obtain ⟨hlog, hload, hhwm, happlied, -⟩ :=
        leaveMarkRecovered_same { p with state := .running } _
      exact ⟨_, hpc, hlog, hload, hhwm, happlied⟩
  | closed | cancelled | reached => exact absurd (leaveLoadMessages_state hafter) hbefore
  | markCancelled | markFails =>
      rw [(leaveMarkRecovered_same _ _).2.2.2.2] at hafter
      exact absurd hafter hbefore
  | consume =>
      dsimp only at hafter
      rw [if_pos hstop] at hafter
      cases hafter
  | createFails | setupCancelled | setup | catchup | upToDate | retry => cases hafter
  | _ => exact absurd hafter hbefore

/-- In every run of `SetupAndRecover`, with or without retries, whose recovering loads do not leave
`loadMessages` early, the table holds every record from the load's first offset up to its high
watermark when it becomes readable. -/
theorem readable_only_caught_up (topic : String) (partition : Nat) (log : TopicLog)
    (events : List Event)
    (hexits : ∀ t ∈ transitions step (new topic partition log) events, ExitsCaughtUp t.1 t.2.1) :
    ∀ t ∈ transitions step (new topic partition log) events,
      t.1.stopAfterCatchup → BecomesReadable t.1 t.2.2 →
        ∀ r ∈ t.2.2.log.records, t.2.2.loadOffset ≤ r.offset → r.offset < t.2.2.hwm →
          r ∈ t.2.2.applied := by
  have hinv := transitions_invariant_of_allowed ExitsCaughtUp
    (fun p e p' (hinv : LoadInv p ∧ MarkedCaughtUp p) hexit h =>
      ⟨loadInv_step hinv.1 h, markedCaughtUp_step hinv.1 hinv.2 hexit h⟩)
    ⟨loadInv_new topic partition log, nofun⟩ hexits
  intro t ht hstop hreadable r hr hlo hlt
  obtain ⟨⟨hload, hcaught⟩, hstep⟩ := hinv t ht
  obtain ⟨consuming, hpc, hlog, hload', hhwm, happlied⟩ :=
    markingRecovered_of_becomesReadable hstep hreadable hstop
  rw [hlog] at hr
  rw [hload'] at hlo
  rw [hhwm] at hlt
  rw [happlied]
  refine (hload.loaded (by rw [hpc]; rfl)).applied r hr hlo ?_
  by_contra hcursor
  have := hcaught consuming hpc r hr (not_lt.mp hcursor)
  omega

def loadOfTwo : List Event :=
  [.append ⟨0, [97], some [1]⟩, .append ⟨1, [98], some [2]⟩, .setupAndRecover false (.ok ()),
    .gotOffset (.ok (-3)), .gotWatermarks none none, .consumePartition none]

def caughtUpLoad : List Event :=
  loadOfTwo ++ [.message, .updated none, .offsetSet none, .message, .updated none, .offsetSet none]

theorem readable_only_caught_up_two_records :
    (∀ t ∈ transitions step (new "t" 0 .empty) (caughtUpLoad ++ [.markedRecovered (.ok ())]),
        ExitsCaughtUp t.1 t.2.1) ∧
      BecomesReadable (run step (new "t" 0 .empty) caughtUpLoad)
        (run step (new "t" 0 .empty) (caughtUpLoad ++ [.markedRecovered (.ok ())])) ∧
      ⟨1, [98], some [2]⟩ ∈ (run step (new "t" 0 .empty) caughtUpLoad).applied := by
  have hexits : ∀ t ∈ transitions step (new "t" 0 .empty)
      (caughtUpLoad ++ [.markedRecovered (.ok ())]), ExitsCaughtUp t.1 t.2.1 := by
    intro t ht hexit
    have hmem := mem_actions_of_mem_transitions ht
    rcases hexit with hexit | hexit <;> rw [hexit] at hmem <;>
      simp [caughtUpLoad, loadOfTwo] at hmem
  have hreadable : BecomesReadable (run step (new "t" 0 .empty) caughtUpLoad)
      (run step (new "t" 0 .empty) (caughtUpLoad ++ [.markedRecovered (.ok ())])) :=
    ⟨by rw [Ne, readyToRead_eq_ok]; decide, readyToRead_eq_ok.mpr (by decide)⟩
  refine ⟨hexits, hreadable, ?_⟩
  exact readable_only_caught_up "t" 0 .empty _ hexits _
    (mem_transitions_of_step caughtUpLoad [] rfl) rfl hreadable ⟨1, [98], some [2]⟩ (by decide)
    (by decide) (by decide)

/-- A consumer error closes the consumer; the load takes the closed channel for the end of the
messages, marks the table as recovered and readers get an empty table. -/
def brokenLoad : List Event :=
  loadOfTwo ++ [.consumerError "broken pipe", .messagesClosed]

theorem readable_before_caught_up :
    ∃ t ∈ transitions step (new "t" 0 .empty) (brokenLoad ++ [.markedRecovered (.ok ())]),
      t.1.stopAfterCatchup ∧ BecomesReadable t.1 t.2.2 ∧
        ∃ r ∈ t.2.2.log.records, t.2.2.loadOffset ≤ r.offset ∧ r.offset < t.2.2.hwm ∧
          r ∉ t.2.2.applied := by
  refine ⟨_, mem_transitions_of_step brokenLoad [] rfl, rfl, ⟨?_, ?_⟩,
    ⟨0, [97], some [1]⟩, by decide, by decide, by decide, by decide⟩
  · rw [Ne, readyToRead_eq_ok]
    decide
  · exact readyToRead_eq_ok.mpr (by decide)

end PartitionTable

end Goka
