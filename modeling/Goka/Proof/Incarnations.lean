import Goka.Incarnations
import Goka.Proof.PartitionTable

/-!
# Crash-safe recovery

Replaying a log onto a database that is ahead of its own offset passes through contents that no
prefix of the log has. What every step keeps is that the content is ahead of a position: the cursor
while a load runs, and a position some earlier load had reached otherwise. Every offset that is in
the database, or that may still be written to it by any of the goroutines, lies below that position
and not above the records applied so far. All this is relative to the database the run began with,
which may hold anything: what a recovery makes of it is the replay of the log from its own offset
on.
-/

namespace Goka

open KeyedLog Schedule

namespace PartitionTable

variable {p p' : PartitionTable}

def Event.quiet : Event → Bool
  | .cancel | .consumePartition _ | .message | .messagesClosed | .contextDone | .consumerError _
  | .offsetSet _ | .markedRecovered _ | .drained => true
  | _ => false

structure Quiet (p p' : PartitionTable) : Prop where
  log : p'.log = p.log
  storedOffset : p'.storedOffset = p.storedOffset
  loadOffset : p'.loadOffset = p.loadOffset
  cursor : p'.cursor = p.cursor
  hwm : p'.hwm = p.hwm
  loading : p'.pc.loading → p.pc.loading
  fresh : p'.pc.fresh → p'.pc = p.pc
  setting : ∀ r, p'.pc = .settingOffset r → p.pc = .settingOffset r

theorem Quiet.of_collect {err : String} (h : Quiet (p.collect err) p') : Quiet p p' :=
  ⟨h.log, h.storedOffset, h.loadOffset, h.cursor, h.hwm, h.loading, h.fresh, h.setting⟩

theorem Quiet.of_state {state : PartitionStatus} (h : Quiet { p with state := state } p') :
    Quiet p p' :=
  ⟨h.log, h.storedOffset, h.loadOffset, h.cursor, h.hwm, h.loading, h.fresh, h.setting⟩

theorem quiet_returned (p : PartitionTable) : Quiet p p.returned := by
  have hpc : p.returned.pc = .backoff ∨ p.returned.pc = .idle := by
    unfold returned
    dsimp only
    split
    · exact .inl rfl
    · exact .inr rfl
  refine ⟨rfl, rfl, rfl, rfl, rfl, ?_, ?_, ?_⟩ <;>
    rcases hpc with hpc | hpc <;> rw [hpc] <;> nofun

theorem quiet_leaveLoadMessages (h : p.pc.loading) : Quiet p p.leaveLoadMessages := by
  unfold leaveLoadMessages
  split <;> exact ⟨rfl, rfl, rfl, rfl, rfl, fun _ => h, nofun, nofun⟩

theorem quiet_leaveMarkRecovered (h : p.pc.loading) (consuming : Bool) :
    Quiet p (p.leaveMarkRecovered consuming) := by
  cases consuming with
  | false => exact quiet_returned p
  | true => exact ⟨rfl, rfl, rfl, rfl, rfl, fun _ => h, nofun, nofun⟩

theorem quiet_step {e : Event} (hinv : LoadInv p) (hquiet : e.quiet) (h : p.step e = some p') :
    Quiet p p' := by
  cases step_cases h with
  | cancel | consumerError =>
      exact ⟨rfl, rfl, rfl, rfl, rfl, id, fun _ => rfl, fun _ => id⟩
  | consumeFails => exact (quiet_returned (p.collect _)).of_collect
  | ignored hpc hstate hstop => exact absurd hstate (hinv.at_eq hpc hstop)
  | consume hpc | message hpc | offsetSet hpc | setFails hpc =>
      exact ⟨rfl, rfl, rfl, rfl, rfl, fun _ => by rw [hpc]; rfl, nofun, nofun⟩
  | closed hpc | cancelled hpc | reached hpc => exact quiet_leaveLoadMessages (by rw [hpc]; rfl)
  | markCancelled hpc => exact quiet_leaveMarkRecovered (by rw [hpc]; rfl) _
  | recovered hpc =>
      have hloading : p.pc.loading := by rw [hpc]; rfl
      exact Quiet.of_state (quiet_leaveMarkRecovered (by exact hloading) _)
  | markFails hpc =>
      have hloading : p.pc.loading := by rw [hpc]; rfl
      exact Quiet.of_collect (quiet_leaveMarkRecovered (by exact hloading) _)
  | backoffCancelled | markPanics => exact ⟨rfl, rfl, rfl, rfl, rfl, nofun, nofun, nofun⟩
  | drained => exact quiet_returned p
  | _ => cases hquiet

end PartitionTable

namespace System

/-- What a run began with: the topic and the content of the database as they were then, and the
offset from which a load was to bring that content up to date. -/
structure Origin where
  log : TopicLog
  content : Bytes → Option Bytes
  start : Int

def loadStart (oldest : Int) : Option Int → Int
  | none => oldest
  | some stored => max oldest (stored + 1)

theorem oldest_le_loadStart (oldest : Int) (stored : Option Int) :
    oldest ≤ loadStart oldest stored := by
  cases stored with
  | none => exact le_rfl
  | some v => exact le_max_left ..

theorem loadStart_le {oldest bound : Int} {stored : Option Int} (holdest : oldest ≤ bound)
    (hstored : ∀ v ∈ stored, v < bound) : loadStart oldest stored ≤ bound := by
  cases stored with
  | none => exact holdest
  | some v => exact max_le holdest (hstored v rfl)

variable {o : Origin} {s s' : System} {c : Int}

def pending (s : System) : List Int :=
  s.st.offset :: (s.sync.toList ++ s.closing.toList ++
    match s.mark with
    | .loaded curOffset => [curOffset]
    | _ => [])

/-- An offset that may be persisted while the content is ahead of `c`. -/
structure Covered (o : Origin) (s : System) (c v : Int) : Prop where
  nonneg : 0 ≤ v
  lt : v < c
  applied : ∃ r ∈ s.applied, v ≤ r.offset
  start_le : o.start ≤ loadStart s.table.log.oldest (some v)

theorem Covered.mono {c' v : Int} (h : Covered o s c v) (happlied : ∀ r ∈ s.applied, r ∈ s'.applied)
    (holdest : s'.table.log.oldest = s.table.log.oldest) (hc : c ≤ c') : Covered o s' c' v := by
  obtain ⟨r, hr, hle⟩ := h.applied
  exact ⟨h.nonneg, h.lt.trans_le hc, ⟨r, happlied r hr, hle⟩, holdest ▸ h.start_le⟩

def reach (s : System) : Int :=
  if s.table.pc.loading then max s.table.hwm s.table.cursor else s.table.log.newest

structure Inv (o : Origin) (s : System) (c : Int) : Prop where
  load : s.table.LoadInv
  keys : ∀ r ∈ s.table.log.records, r.key ≠ offsetKey
  grown : below s.table.log.records o.log.newest = o.log.records
  applied : ∀ r ∈ s.applied, r ∈ s.table.log.records
  oldest_le : s.table.log.oldest ≤ c
  start_le : o.start ≤ c
  le_newest : c ≤ s.table.log.newest
  reached : o.log.newest ≤ s.reach
  ahead : Ahead o.content o.start s.table.log.records c s.reach s.st.db.content
  stored : ∃ stored, Storage.Persisted s.st.db stored ∧ (∀ v ∈ stored, Covered o s c v) ∧
    o.start ≤ loadStart s.table.log.oldest stored ∧
    (s.table.pc = .findingOffset → s.table.storedOffset = stored.getD offsetNotStored)
  pending : ∀ v ∈ s.pending, v = 0 ∨ Covered o s c v
  floor : s.table.pc.loading → c = s.table.cursor
  fresh : s.table.pc.fresh →
    (∀ v ∈ s.pending, v = 0) ∧ s.st.recovered = false ∧ s.mark = .idle
  setting : ∀ r, s.table.pc = .settingOffset r → r ∈ s.applied ∧ 0 ≤ r.offset

theorem reach_le_newest (hload : s.table.LoadInv) : s.reach ≤ s.table.log.newest := by
  unfold reach
  split
  · rename_i hloading
    have hl := hload.loaded hloading
    exact max_le hl.hwm_le hl.cursor_le
  · exact le_rfl

/-! ### Steps of the storage -/

/-- A step that writes no content keeps the invariant if what is persisted and what may be is
covered. -/
theorem Inv.of_storage (h : Inv o s c) (htable : s'.table = s.table)
    (happlied : s'.applied = s.applied) (hcontent : s'.st.db.content = s.st.db.content)
    (hstored : ∃ stored, Storage.Persisted s'.st.db stored ∧ (∀ v ∈ stored, Covered o s c v) ∧
      o.start ≤ loadStart s.table.log.oldest stored ∧
      (s.table.pc = .findingOffset → s.table.storedOffset = stored.getD offsetNotStored))
    (hpending : ∀ v ∈ s'.pending, v = 0 ∨ Covered o s c v)
    (hfresh : s.table.pc.fresh →
      (∀ v ∈ s'.pending, v = 0) ∧ s'.st.recovered = false ∧ s'.mark = .idle) :
    Inv o s' c := by
  have hreach : s'.reach = s.reach := by
    unfold reach
    rw [htable]
  have hcovered : ∀ v, Covered o s c v → Covered o s' c v := fun v hv =>
    hv.mono (by rw [happlied]; exact fun _ => id) (by rw [htable]) le_rfl
  constructor
  · rw [htable]; exact h.load
  · rw [htable]; exact h.keys
  · rw [htable]; exact h.grown
  · rw [htable, happlied]; exact h.applied
  · rw [htable]; exact h.oldest_le
  · exact h.start_le
  · rw [htable]; exact h.le_newest
  · rw [hreach]; exact h.reached
  · rw [htable, hreach, hcontent]; exact h.ahead
  · obtain ⟨stored, hpersisted, hbelow, hstart, hfinding⟩ := hstored
    rw [htable]
    exact ⟨stored, hpersisted, fun v hv => hcovered v (hbelow v hv), hstart, hfinding⟩
  · exact fun v hv => (hpending v hv).imp_right (hcovered v)
  · rw [htable]; exact h.floor
  · rw [htable]; exact hfresh
  · rw [htable, happlied]; exact h.setting

/-- A step of the table that leaves the log alone. The position may fall back to where a load
starts. -/
theorem Inv.of_table {table : PartitionTable} {c' : Int} (h : Inv o s c) (hload : table.LoadInv)
    (hlog : table.log = s.table.log) (holdest : s.table.log.oldest ≤ c') (hstart : o.start ≤ c')
    (hle : c' ≤ c) (hreach : s.reach ≤ System.reach { s with table := table })
    (hstored : ∃ stored, Storage.Persisted s.st.db stored ∧ (∀ v ∈ stored, Covered o s c' v) ∧
      o.start ≤ loadStart s.table.log.oldest stored ∧
      (table.pc = .findingOffset → table.storedOffset = stored.getD offsetNotStored))
    (hpending : ∀ v ∈ s.pending, v = 0 ∨ Covered o s c' v)
    (hfloor : table.pc.loading → c' = table.cursor)
    (hfresh : table.pc.fresh →
      (∀ v ∈ s.pending, v = 0) ∧ s.st.recovered = false ∧ s.mark = .idle)
    (hsetting : ∀ r, table.pc = .settingOffset r → r ∈ s.applied ∧ 0 ≤ r.offset) :
    Inv o { s with table := table } c' := by
  have hcovered : ∀ v, Covered o s c' v → Covered o { s with table := table } c' v := fun v hv =>
    hv.mono (fun _ => id) (congrArg TopicLog.oldest hlog) le_rfl
  constructor
  · exact hload
  · rw [show table.log = _ from hlog]; exact h.keys
  · rw [show table.log = _ from hlog]; exact h.grown
  · rw [show table.log = _ from hlog]; exact h.applied
  · rw [show table.log = _ from hlog]; exact holdest
  · exact hstart
  · rw [show table.log = _ from hlog]; exact hle.trans h.le_newest
  · exact h.reached.trans hreach
  · rw [show table.log = _ from hlog]; exact h.ahead.mono hle hreach
  · obtain ⟨stored, hpersisted, hbelow, hload, hfinding⟩ := hstored
    rw [show table.log = _ from hlog]
    exact ⟨stored, hpersisted, fun v hv => hcovered v (hbelow v hv), hload, hfinding⟩
  · exact fun v hv => (hpending v hv).imp_right (hcovered v)
  · exact hfloor
  · exact hfresh
  · exact hsetting

theorem fits_of_covered (h : Inv o s c) {v : Int} (hv : Covered o s c v) :
    -2 ^ 63 ≤ v ∧ v < 2 ^ 63 := by
  have hnewest := h.le_newest
  have hfits := s.table.log.fits
  have hnonneg := hv.nonneg
  have hlt := hv.lt
  constructor <;> omega

theorem stored_putOffset (h : Inv o s c) {v : Int} (hcovered : Covered o s c v)
    (hpc : s.table.pc ≠ .findingOffset) :
    ∃ stored, Storage.Persisted (s.st.putOffset v).db stored ∧ (∀ v ∈ stored, Covered o s c v) ∧
      o.start ≤ loadStart s.table.log.oldest stored ∧
      (s.table.pc = .findingOffset → s.table.storedOffset = stored.getD offsetNotStored) := by
  obtain ⟨hlow, hhigh⟩ := fits_of_covered h hcovered
  refine ⟨some v, Storage.Persisted.putOffset hlow hhigh, fun w hw => ?_, hcovered.start_le,
    fun hfinding => absurd hfinding hpc⟩
  rw [← Option.some.inj hw]
  exact hcovered

theorem stored_putLoaded (h : Inv o s c) {v : Int} (hv : v ∈ s.pending) :
    ∃ stored, Storage.Persisted (s.st.putLoaded v).db stored ∧ (∀ v ∈ stored, Covered o s c v) ∧
      o.start ≤ loadStart s.table.log.oldest stored ∧
      (s.table.pc = .findingOffset → s.table.storedOffset = stored.getD offsetNotStored) := by
  unfold Storage.putLoaded
  split
  · rename_i hne
    refine stored_putOffset h ((h.pending v hv).resolve_left hne) fun hpc => ?_
    exact hne ((h.fresh (by rw [hpc]; rfl)).1 v hv)
  · exact h.stored

theorem Inv.of_putLoaded (h : Inv o s c) {v : Int} (hv : v ∈ s.pending)
    (htable : s'.table = s.table) (happlied : s'.applied = s.applied)
    (hst : s'.st = s.st.putLoaded v) (hless : ∀ w ∈ s'.pending, w ∈ s.pending)
    (hmark : s.mark = .idle → s'.mark = .idle) : Inv o s' c := by
  refine h.of_storage htable happlied ?_ ?_ (fun w hw => h.pending w (hless w hw)) ?_
  · rw [hst, Storage.content_putLoaded]
  · rw [hst]
    exact stored_putLoaded h hv
  · intro hfresh
    obtain ⟨hzero, hrecovered, hidle⟩ := h.fresh hfresh
    exact ⟨fun w hw => hzero w (hless w hw), by rw [hst]; simpa using hrecovered, hmark hidle⟩

theorem Inv.of_load (h : Inv o s c) (htable : s'.table = s.table)
    (happlied : s'.applied = s.applied) (hst : s'.st = s.st)
    (hless : ∀ w ∈ s'.pending, w ∈ s.pending)
    (hmark : s.table.pc.fresh → s.mark = .idle → s'.mark = .idle) : Inv o s' c := by
  refine h.of_storage htable happlied (by rw [hst]) (by rw [hst]; exact h.stored)
    (fun w hw => h.pending w (hless w hw)) ?_
  intro hfresh
  obtain ⟨hzero, hrecovered, hidle⟩ := h.fresh hfresh
  exact ⟨fun w hw => hzero w (hless w hw), by rw [hst]; exact hrecovered, hmark hfresh hidle⟩

theorem Inv.syncLoad (h : Inv o s c) (hstep : s.syncLoad = some s') : Inv o s' c := by
  unfold System.syncLoad at hstep
  split at hstep
  case isFalse => cases hstep
  obtain rfl := Option.some.inj hstep
  refine h.of_load rfl rfl rfl (fun w hw => ?_) fun _ => id
  simp only [System.pending, Option.toList_some, List.mem_cons, List.mem_append] at hw ⊢
  tauto

theorem Inv.closeLoad (h : Inv o s c) (hstep : s.closeLoad = some s') : Inv o s' c := by
  unfold System.closeLoad at hstep
  split at hstep
  case isFalse => cases hstep
  obtain rfl := Option.some.inj hstep
  refine h.of_load rfl rfl rfl (fun w hw => ?_) fun _ => id
  simp only [System.pending, Option.toList_some, List.mem_cons, List.mem_append] at hw ⊢
  tauto

theorem Inv.markLoad (h : Inv o s c) (hstep : s.markLoad = some s') : Inv o s' c := by
  unfold System.markLoad at hstep
  split at hstep
  case h_2 => cases hstep
  rename_i consuming hpc hmark
  split at hstep
  case isFalse => cases hstep
  obtain rfl := Option.some.inj hstep
  refine h.of_load rfl rfl rfl (fun w hw => ?_) fun hfresh => ?_
  · simp only [System.pending, List.mem_cons, List.mem_append] at hw ⊢
    simp only [hmark]
    tauto
  · rw [hpc] at hfresh
    cases hfresh

/-- `MarkRecovered` puts the offset it has loaded, and that one is covered. -/
theorem Inv.markPut (h : Inv o s c) (hstep : s.markPut = some s') : Inv o s' c := by
  unfold System.markPut at hstep
  split at hstep
  case h_2 => cases hstep
  rename_i curOffset hmark
  obtain rfl := Option.some.inj hstep
  refine h.of_putLoaded (v := curOffset) ?_ rfl rfl rfl (fun w hw => ?_) fun hidle => ?_
  · simp [System.pending, hmark]
  · simp only [System.pending, Storage.putLoaded_offset, List.mem_cons, List.mem_append] at hw ⊢
    simp only [hmark]
    simp only [List.not_mem_nil, or_false] at hw
    tauto
  · rw [hmark] at hidle
    cases hidle

theorem Inv.syncPut (h : Inv o s c) (hstep : s.syncPut = some s') : Inv o s' c := by
  unfold System.syncPut at hstep
  split at hstep
  case h_2 => cases hstep
  rename_i curOffset hsync
  obtain rfl := Option.some.inj hstep
  refine h.of_putLoaded (v := curOffset) ?_ rfl rfl rfl (fun w hw => ?_) id
  · simp [System.pending, hsync]
  · simp only [System.pending, Storage.putLoaded_offset, List.mem_cons, List.mem_append,
      Option.toList_none, List.not_mem_nil, false_or] at hw ⊢
    tauto

theorem covered_setting (h : Inv o s c) {record : TableRecord}
    (hpc : s.table.pc = .settingOffset record) : Covered o s c record.offset := by
  obtain ⟨happlied, hnonneg⟩ := h.setting record hpc
  have hcursor : s.table.cursor = record.offset + 1 := by
    have hat := h.load.at_pc
    rw [hpc] at hat
    exact hat.2
  have hfloor := h.floor (by rw [hpc]; rfl)
  have hstart := h.start_le
  refine ⟨hnonneg, by omega, ⟨record, happlied, le_rfl⟩, ?_⟩
  exact hstart.trans ((hfloor.trans hcursor).le.trans (le_max_right ..))

theorem Inv.storeOffset (h : Inv o s c) (hstep : s.storeOffset = some s') : Inv o s' c := by
  unfold System.storeOffset at hstep
  split at hstep
  case h_2 => cases hstep
  rename_i record hpc
  split at hstep
  case isFalse => cases hstep
  obtain rfl := Option.some.inj hstep
  have hcovered := covered_setting h hpc
  refine h.of_storage rfl rfl rfl h.stored (fun w hw => ?_) fun hfresh => ?_
  · rcases List.mem_cons.mp hw with rfl | hw
    · exact .inr hcovered
    · exact h.pending w (List.mem_cons_of_mem _ hw)
  · rw [hpc] at hfresh
    cases hfresh

/-! ### Stopping and starting -/

theorem Inv.stopped (h : Inv o s c) : Inv o s.stopped c where
  load := PartitionTable.loadInv_new ..
  keys := h.keys
  grown := h.grown
  applied := h.applied
  oldest_le := h.oldest_le
  start_le := h.start_le
  le_newest := h.le_newest
  reached := h.reached.trans (reach_le_newest h.load)
  ahead := h.ahead.mono le_rfl (reach_le_newest h.load)
  stored := by
    obtain ⟨stored, hpersisted, hbelow, hstart, -⟩ := h.stored
    exact ⟨stored, hpersisted, fun v hv => (hbelow v hv).mono (fun _ => id) rfl le_rfl, hstart,
      nofun⟩
  pending := by simp [System.pending, System.stopped, down, Storage.new]
  floor := nofun
  fresh := nofun
  setting := nofun

theorem Inv.closePut (h : Inv o s c) (hstep : s.closePut = some s') : Inv o s' c := by
  unfold System.closePut at hstep
  split at hstep
  case h_2 => cases hstep
  rename_i curOffset hclosing
  obtain rfl := Option.some.inj hstep
  refine Inv.stopped (h.of_putLoaded (v := curOffset) ?_ rfl rfl rfl (fun w hw => ?_) id)
  · simp [System.pending, hclosing]
  · simpa [System.pending] using hw

theorem Inv.markClose (h : Inv o s c) (hstep : s.markClose = some s') : Inv o s' c := by
  unfold System.markClose at hstep
  split at hstep
  case h_2 => cases hstep
  rename_i hmark
  split at hstep <;> obtain rfl := Option.some.inj hstep
  · rename_i st hclose
    have hst : st = { s.st with recovered := true } := by
      unfold Storage.closeRecovered at hclose
      split at hclose
      · cases hclose
      · exact (Outcome.ok.inj hclose).symm
    subst hst
    refine h.of_storage rfl rfl rfl h.stored (fun w hw => h.pending w ?_) fun hfresh => ?_
    · simp only [System.pending, List.mem_cons, List.mem_append] at hw ⊢
      simp only [hmark]
      exact hw
    · rw [(h.fresh hfresh).2.2] at hmark
      cases hmark
  · exact h.stopped

/-- The topic grows behind everything that was read of it. -/
theorem Inv.append {record : TableRecord} (h : Inv o s c) (hstep : s.append record = some s') :
    Inv o s' c := by
  unfold System.append at hstep
  split at hstep
  case isTrue => cases hstep
  rename_i hkey
  obtain ⟨log, hlog, rfl⟩ := Option.map_eq_some_iff.mp hstep
  have hload := PartitionTable.loadInv_append h.load hlog
  obtain ⟨hnewest, hrecords, holdest, hnewest'⟩ := TopicLog.append_eq_some hlog
  have hreach := reach_le_newest h.load
  -- a running load keeps its reach; otherwise the reach grows with the log
  have hreach' : s.reach ≤ System.reach { s with table := { s.table with log := log } } := by
    unfold reach
    split
    · exact le_rfl
    · dsimp only
      rw [hnewest']
      omega
  have hcovered : ∀ v, Covered o s c v →
      Covered o { s with table := { s.table with log := log } } c v := fun v hv =>
    hv.mono (fun _ => id) holdest le_rfl
  refine ⟨hload, ?_, ?_, ?_, ?_, h.start_le, ?_, h.reached.trans hreach', ?_, ?_, ?_, h.floor,
    h.fresh, h.setting⟩
  · exact TopicLog.forall_append hlog h.keys hkey
  · have hnil : below [record] o.log.newest = [] := by
      refine List.filter_eq_nil_iff.mpr fun r hr => ?_
      rw [List.mem_singleton.mp hr]
      simpa using h.reached.trans (hreach.trans hnewest)
    dsimp only
    rw [hrecords, below_append, hnil, List.append_nil]
    exact h.grown
  · intro r hr
    dsimp only
    rw [hrecords]
    exact List.mem_append_left _ (h.applied r hr)
  · exact holdest.le.trans h.oldest_le
  · exact h.le_newest.trans (hnewest.trans (by rw [hnewest']; omega))
  · dsimp only
    rw [hrecords]
    exact (h.ahead.append (hreach.trans hnewest)).mono le_rfl hreach'
  · obtain ⟨stored, hpersisted, hbelow, hstart, hfinding⟩ := h.stored
    refine ⟨stored, hpersisted, fun v hv => hcovered v (hbelow v hv), ?_, hfinding⟩
    dsimp only
    rw [holdest]
    exact hstart
  · exact fun v hv => (h.pending v hv).imp_right (hcovered v)

/-- A new incarnation finds the database and nothing in memory. -/
theorem Inv.start {stopAfterCatchup : Bool} (h : Inv o s c)
    (hstep : s.start stopAfterCatchup = some s') : Inv o s' c := by
  unfold System.start at hstep
  split at hstep
  case isTrue => cases hstep
  obtain ⟨table, htable, rfl⟩ := Option.map_eq_some_iff.mp hstep
  have hstopped := h.stopped
  have hload := PartitionTable.loadInv_step hstopped.load htable
  have hpc : table.pc = .gettingOffset ∧ table.log = s.table.log := by
    cases stopAfterCatchup <;> cases htable <;> exact ⟨rfl, rfl⟩
  obtain ⟨hpc, hlog⟩ := hpc
  have hup : Inv o { s.stopped with up := true } c :=
    hstopped.of_storage rfl rfl rfl hstopped.stored hstopped.pending hstopped.fresh
  obtain ⟨stored, hpersisted, hbelow, hstart, -⟩ := hup.stored
  refine hup.of_table hload hlog h.oldest_le h.start_le le_rfl ?_
    ⟨stored, hpersisted, hbelow, hstart, ?_⟩ hup.pending ?_ (fun _ => ⟨?_, rfl, rfl⟩) ?_
  · unfold reach
    dsimp only
    rw [hpc, hlog]
    exact le_rfl
  · rw [hpc]
    exact nofun
  · rw [hpc]
    exact nofun
  · simp [System.pending, System.stopped, down, Storage.new]
  · rw [hpc]
    exact nofun

/-! ### Steps of the table -/

theorem Inv.of_quiet {table : PartitionTable} (h : Inv o s c) (hload : table.LoadInv)
    (hquiet : PartitionTable.Quiet s.table table) : Inv o { s with table := table } c := by
  obtain ⟨stored, hpersisted, hbelow, hstart, hfinding⟩ := h.stored
  refine h.of_table hload hquiet.log h.oldest_le h.start_le le_rfl ?_
    ⟨stored, hpersisted, hbelow, hstart, fun hpc => ?_⟩ h.pending ?_ (fun hfresh => ?_) ?_
  · unfold reach
    dsimp only
    rw [hquiet.hwm, hquiet.cursor, hquiet.log]
    by_cases hloading : table.pc.loading
    · rw [if_pos hloading, if_pos (hquiet.loading hloading)]
    · rw [if_neg hloading]
      exact reach_le_newest h.load
  · have hsame := hquiet.fresh (by rw [hpc]; rfl)
    exact hquiet.storedOffset.trans (hfinding (hsame.symm.trans hpc))
  · exact fun hloading => (h.floor (hquiet.loading hloading)).trans hquiet.cursor.symm
  · have hsame := hquiet.fresh hfresh
    exact h.fresh (by rw [← hsame]; exact hfresh)
  · exact fun r hr => h.setting r (hquiet.setting r hr)

theorem tableStep_eq_some {e : PartitionTable.Event} (hstep : s.tableStep e = some s') :
    s.up = true ∧ ∃ table, s.table.step e = some table ∧ s' = { s with table := table } := by
  unfold tableStep at hstep
  split at hstep
  · rename_i hup
    obtain ⟨table, htable, rfl⟩ := Option.map_eq_some_iff.mp hstep
    exact ⟨hup, table, htable, rfl⟩
  · cases hstep

theorem Inv.quietStep {e : PartitionTable.Event} (h : Inv o s c) (hquiet : e.quiet)
    (hstep : s.tableStep e = some s') : Inv o s' c := by
  obtain ⟨-, table, htable, rfl⟩ := tableStep_eq_some hstep
  exact h.of_quiet (PartitionTable.loadInv_step h.load htable)
    (PartitionTable.quiet_step h.load hquiet htable)

theorem Inv.putOffset (h : Inv o s c) (hstep : s.putOffset = some s') : Inv o s' c := by
  unfold System.putOffset at hstep
  split at hstep
  case h_2 => cases hstep
  rename_i record hpc
  split at hstep
  case isFalse => cases hstep
  have hput : Inv o { s with st := s.st.putIfRecovered record.offset, storing := false } c := by
    refine h.of_storage rfl rfl (Storage.content_putIfRecovered record.offset) ?_ ?_ ?_
    · dsimp only
      unfold Storage.putIfRecovered
      split
      · exact stored_putOffset h (covered_setting h hpc) (by rw [hpc]; nofun)
      · exact h.stored
    · intro w hw
      simp only [System.pending, Storage.putIfRecovered_offset] at hw
      exact h.pending w hw
    · intro hfresh
      rw [hpc] at hfresh
      cases hfresh
  exact hput.quietStep rfl hstep

/-- A record is written to the storage and the table goes on to its offset. -/
theorem update_eq_some (hstep : s.update = some s') :
    ∃ record, s.table.pc = .updating record ∧ s.table.step (.updated none) = some s'.table ∧
      s' = { s with
        table := { s.table with
          pc := .settingOffset record
          cursor := record.offset + 1
          applied := s.table.applied ++ [record] }
        st := s.st.defaultUpdate record.key record.value
        applied := s.applied ++ [record] } := by
  unfold System.update at hstep
  split at hstep
  case h_2 => cases hstep
  rename_i record hpc
  obtain ⟨-, table, htable, rfl⟩ := tableStep_eq_some hstep
  refine ⟨record, hpc, htable, ?_⟩
  cases PartitionTable.step_cases htable with
  | updated hpc' =>
      obtain rfl := Pc.updating.inj (hpc.symm.trans hpc')
      rfl

theorem Inv.nextRecord_of_updating (h : Inv o s c) {record : TableRecord}
    (hpc : s.table.pc = .updating record) :
    nextRecord s.table.log.records s.table.cursor = some record := by
  have hat := h.load.at_pc
  rw [hpc] at hat
  exact hat.2

/-- The content gets ahead of the offset, up to the record that was applied. -/
theorem Inv.update (h : Inv o s c) (hstep : s.update = some s') : ∃ c', Inv o s' c' := by
  obtain ⟨record, hpc, htable, rfl⟩ := update_eq_some hstep
  have hload := PartitionTable.loadInv_step h.load htable
  have hloading : s.table.pc.loading := by rw [hpc]; rfl
  have hfloor := h.floor hloading
  have hnext := h.nextRecord_of_updating hpc
  obtain ⟨hmem, hcursor⟩ := nextRecord_eq_some hnext
  have hnonneg : 0 ≤ record.offset :=
    s.table.log.nonneg.trans (s.table.log.oldest_le record hmem)
  have hlt := s.table.log.lt_newest record hmem
  have hstart := h.start_le
  have hreach : s.reach ≤ max s.table.hwm (record.offset + 1) := by
    have hcurrent : s.reach = max s.table.hwm s.table.cursor := if_pos hloading
    omega
  have happlied : ∀ r ∈ s.applied, r ∈ s.applied ++ [record] := fun r => List.mem_append_left _
  have hc : c ≤ record.offset + 1 := by omega
  refine ⟨record.offset + 1, hload, h.keys, h.grown, ?_, ?_, by omega, ?_, ?_, ?_, ?_, ?_,
    fun _ => rfl, nofun, ?_⟩
  · intro r hr
    rcases List.mem_append.mp hr with hr | hr
    · exact h.applied r hr
    · rw [List.mem_singleton.mp hr]
      exact hmem
  · have := s.table.log.oldest_le record hmem
    dsimp only
    omega
  · dsimp only
    omega
  · exact h.reached.trans hreach
  · have hahead := h.ahead
    rw [hfloor] at hahead
    have happly := hahead.apply s.table.log.ordered hnext (hstart.trans hfloor.le)
    dsimp only
    rw [Storage.content_defaultUpdate s.st (h.keys record hmem)]
    exact happly.mono le_rfl (max_le hreach (le_max_right ..))
  · obtain ⟨stored, hpersisted, hbelow, hstart', -⟩ := h.stored
    refine ⟨stored, ?_, fun v hv => (hbelow v hv).mono happlied rfl hc, hstart', nofun⟩
    obtain ⟨hdb, hrange⟩ := hpersisted
    refine ⟨?_, hrange⟩
    dsimp only
    rw [Storage.defaultUpdate_offsetKey (h.keys record hmem), hdb]
  · intro v hv
    have hv' : v ∈ s.pending := by simpa [System.pending] using hv
    exact (h.pending v hv').imp_right fun hcovered => hcovered.mono happlied rfl hc
  · intro r hr
    obtain rfl : record = r := by simpa using hr
    exact ⟨List.mem_append_right _ (List.mem_singleton_self _), hnonneg⟩

theorem toInt_ofInt_stored {db : Database} {stored : Option Int} (h : Storage.Persisted db stored) :
    (Int64.ofInt (stored.getD offsetNotStored)).toInt = stored.getD offsetNotStored := by
  have hrange : -2 ^ 63 ≤ stored.getD offsetNotStored ∧ stored.getD offsetNotStored < 2 ^ 63 := by
    cases stored with
    | none => exact ⟨by decide, by decide⟩
    | some v => exact h.2 v rfl
  exact Int64.toInt_ofInt_of_le hrange.1 hrange.2

/-- The load resumes where the persisted offset says, and the content is ahead of that. -/
theorem Inv.getOffset (h : Inv o s c) (hstep : s.getOffset = some s') : Inv o s' c := by
  obtain ⟨-, table, htable, rfl⟩ := tableStep_eq_some hstep
  have hload := PartitionTable.loadInv_step h.load htable
  obtain ⟨stored, hpersisted, hbelow, hstart, -⟩ := h.stored
  generalize hresult : (s.st.getOffset offsetNotStored).map Int64.ofInt = result at htable
  -- nothing is in memory yet, so the offset is read from the database
  have hread : s.table.pc = .gettingOffset →
      result = .ok (Int64.ofInt (stored.getD offsetNotStored)) := by
    intro hpc
    have hoffset : s.st.offset = 0 := (h.fresh (by rw [hpc]; rfl)).1 _ (List.mem_cons_self ..)
    rw [← hresult, Storage.getOffset_of_persisted hpersisted (.inr hoffset)]
    rfl
  cases PartitionTable.step_cases htable with
  | offsetFails hpc => cases hread hpc
  | gotOffset hpc storedOffset =>
      obtain rfl := Except.ok.inj (hread hpc)
      refine h.of_table hload rfl h.oldest_le h.start_le le_rfl ?_
        ⟨stored, hpersisted, hbelow, hstart, fun _ => ?_⟩ h.pending nofun
        (fun _ => h.fresh (by rw [hpc]; rfl)) nofun
      · unfold reach
        rw [hpc]
        exact le_rfl
      · exact toInt_ofInt_stored hpersisted

/-- Within the log, `findOffsetToLoad` decides for the stored offset. -/
theorem found_loadOffset {stored : Option Int}
    (hbelow : ∀ v ∈ stored, 0 ≤ v ∧ v < s.table.log.newest)
    (hstored : s.table.storedOffset = stored.getD offsetNotStored) :
    s.table.found.loadOffset = loadStart s.table.log.oldest stored := by
  have hnonneg := s.table.log.nonneg
  have hnewest := s.table.log.oldest_le_newest
  have hfits := s.table.log.fits
  unfold PartitionTable.found PartitionTable.findOffsetToLoad
  dsimp only
  rw [hstored]
  cases stored with
  | none =>
      simp only [Option.getD_none, offsetNotStored, if_true, lt_irrefl, if_false, loadStart]
      rw [if_neg (by omega)]
  | some v =>
      obtain ⟨hv, hlt⟩ := hbelow v rfl
      have hne : v ≠ offsetNotStored := by
        unfold offsetNotStored
        omega
      simp only [Option.getD_some, if_neg hne, loadStart]
      rw [if_neg (by omega), PartitionTable.int64_of_range (by omega) (by omega)]
      split <;> omega

theorem Inv.found {table : PartitionTable} (h : Inv o s c) (hpc : s.table.pc = .findingOffset)
    (hload : table.LoadInv) (hlog : table.log = s.table.log)
    (hcursor : table.cursor = s.table.found.loadOffset) (hhwm : table.hwm = s.table.log.newest)
    (hpc' : table.pc = .subscribing ∨ table.pc = .markingRecovered false) :
    Inv o { s with table := table } s.table.found.loadOffset := by
  obtain ⟨stored, hpersisted, hbelow, hstart, hfinding⟩ := h.stored
  have hbounds : ∀ v ∈ stored, 0 ≤ v ∧ v < s.table.log.newest := fun v hv =>
    ⟨(hbelow v hv).nonneg, (hbelow v hv).lt.trans_le h.le_newest⟩
  rw [found_loadOffset hbounds (hfinding hpc)] at hcursor ⊢
  have hle : loadStart s.table.log.oldest stored ≤ c :=
    loadStart_le h.oldest_le fun v hv => (hbelow v hv).lt
  obtain ⟨hzero, -, -⟩ := h.fresh (by rw [hpc]; rfl)
  refine h.of_table hload hlog (oldest_le_loadStart ..) hstart hle ?_
    ⟨stored, hpersisted, fun v hv => ?_, hstart, ?_⟩ (fun v hv => .inl (hzero v hv))
    (fun _ => hcursor.symm) ?_ ?_
  · have hreach : s.reach = s.table.log.newest := by
      unfold reach
      rw [hpc]
      rfl
    rw [hreach]
    unfold reach
    rcases hpc' with hpc' | hpc' <;> dsimp only <;> rw [hpc', hhwm] <;> exact le_max_left ..
  · obtain ⟨hnonneg, -, happlied, hstart'⟩ := hbelow v hv
    refine ⟨hnonneg, ?_, happlied, hstart'⟩
    rw [Option.mem_def.mp hv]
    exact (Int.lt_succ v).trans_le (le_max_right ..)
  · rcases hpc' with hpc' | hpc' <;> rw [hpc'] <;> nofun
  · rcases hpc' with hpc' | hpc' <;> rw [hpc'] <;> nofun
  · rcases hpc' with hpc' | hpc' <;> rw [hpc'] <;> nofun

theorem Inv.gotWatermarks {oldestErr newestErr : Option String} (h : Inv o s c)
    (hstep : s.tableStep (.gotWatermarks oldestErr newestErr) = some s') : ∃ c', Inv o s' c' := by
  obtain ⟨-, table, htable, rfl⟩ := tableStep_eq_some hstep
  have hload := PartitionTable.loadInv_step h.load htable
  cases PartitionTable.step_cases htable with
  | watermarksFail => exact ⟨c, h.of_quiet hload (PartitionTable.quiet_returned _).of_collect⟩
  | upToDate hpc => exact ⟨_, h.found hpc hload rfl rfl rfl (.inr rfl)⟩
  | found hpc => exact ⟨_, h.found hpc hload rfl rfl rfl (.inl rfl)⟩

/-! ### Runs -/

/-- No step takes the content back behind a persisted offset. -/
theorem inv_step {action : Action} (h : ∃ c, Inv o s c) (hstep : s.step action = some s') :
    ∃ c, Inv o s' c := by
  obtain ⟨c, h⟩ := h
  cases action with
  | append record => exact ⟨c, h.append hstep⟩
  | start stopAfterCatchup => exact ⟨c, h.start hstep⟩
  | crash =>
      simp only [step] at hstep
      split at hstep
      · obtain rfl := Option.some.inj hstep
        exact ⟨c, h.stopped⟩
      · cases hstep
  | getOffset => exact ⟨c, h.getOffset hstep⟩
  | gotWatermarks oldestErr newestErr => exact h.gotWatermarks hstep
  | update => exact h.update hstep
  | storeOffset => exact ⟨c, h.storeOffset hstep⟩
  | putOffset => exact ⟨c, h.putOffset hstep⟩
  | markLoad => exact ⟨c, h.markLoad hstep⟩
  | markPut => exact ⟨c, h.markPut hstep⟩
  | markClose => exact ⟨c, h.markClose hstep⟩
  | marked =>
      simp only [step, System.marked] at hstep
      split at hstep
      · exact ⟨c, h.quietStep rfl hstep⟩
      · cases hstep
  | syncLoad => exact ⟨c, h.syncLoad hstep⟩
  | syncPut => exact ⟨c, h.syncPut hstep⟩
  | closeLoad => exact ⟨c, h.closeLoad hstep⟩
  | closePut => exact ⟨c, h.closePut hstep⟩
  | _ => exact ⟨c, h.quietStep rfl hstep⟩

/-- Over any number of incarnations. -/
theorem inv_run (h : Inv o s c) (actions : List Action) : ∃ c, Inv o (run step s actions) c :=
  run_invariant (fun _ _ _ => inv_step) ⟨c, h⟩ actions

theorem Inv.oldest_le_offset (h : Inv o s c) :
    ∀ r ∈ s.table.log.records, o.log.oldest ≤ r.offset := by
  intro r hr
  by_cases hlt : r.offset < o.log.newest
  · have hmem : r ∈ below s.table.log.records o.log.newest := mem_below.mpr ⟨hr, hlt⟩
    rw [h.grown] at hmem
    exact o.log.oldest_le r hmem
  · exact o.log.oldest_le_newest.trans (not_lt.mp hlt)

/-- A load that runs has been delivered everything below its high watermark. -/
def ConsumedToHwm (s : System) : Prop :=
  s.table.pc.loading ∧ s.table.CaughtUp

/-- Where the content of a load stands that has consumed up to its high watermark. -/
theorem content_of_consumedToHwm (h : Inv o s c) (hconsumed : s.ConsumedToHwm) :
    s.st.db.content
      = replay o.content
          (slice s.table.log.records o.start (max s.table.hwm s.table.cursor)) := by
  obtain ⟨hloading, hcaught⟩ := hconsumed
  have hreach : s.reach = max s.table.hwm s.table.cursor := if_pos hloading
  have hahead := h.ahead
  rw [hreach, h.floor hloading] at hahead
  have hgap : ∀ r ∈ s.table.log.records,
      ¬ (s.table.cursor ≤ r.offset ∧ r.offset < max s.table.hwm s.table.cursor) := by
    rintro r hr ⟨hcursor, hlt⟩
    have := hcaught r hr hcursor
    omega
  have hmet := hahead.advance hgap
  rw [max_self] at hmet
  exact hmet.eq_replay

/-- Nothing runs on a database whose offset is that of a record applied before, or a lower one. -/
theorem inv_down (topic : String) (partition : Nat) {log : TopicLog} {db : Database}
    {applied : List TableRecord} {stored : Option Int}
    (hkeys : ∀ r ∈ log.records, r.key ≠ offsetKey) (happlied : ∀ r ∈ applied, r ∈ log.records)
    (hpersisted : Storage.Persisted db stored)
    (hstored : ∀ v ∈ stored, 0 ≤ v ∧ ∃ r ∈ applied, v ≤ r.offset) :
    Inv ⟨log, db.content, loadStart log.oldest stored⟩ (down topic partition log db applied)
      (loadStart log.oldest stored) := by
  have hnewest : loadStart log.oldest stored ≤ log.newest := by
    refine loadStart_le log.oldest_le_newest fun v hv => ?_
    obtain ⟨-, r, hr, hle⟩ := hstored v hv
    exact hle.trans_lt (log.lt_newest r (happlied r hr))
  constructor
  · exact PartitionTable.loadInv_new ..
  · exact hkeys
  · exact below_of_forall_lt log.lt_newest
  · exact happlied
  · exact oldest_le_loadStart ..
  · exact le_rfl
  · exact hnewest
  · exact le_rfl
  · exact (ahead_self db.content _ log.records).mono le_rfl hnewest
  · refine ⟨stored, hpersisted, fun v hv => ?_, le_rfl, nofun⟩
    obtain ⟨hnonneg, hr⟩ := hstored v hv
    rw [Option.mem_def.mp hv]
    exact ⟨hnonneg, (Int.lt_succ v).trans_le (le_max_right ..), hr, le_rfl⟩
  · simp [System.pending, down, Storage.new]
  · exact nofun
  · exact nofun
  · exact nofun

def Origin.empty (log : TopicLog) : Origin := ⟨log, fun _ => none, log.oldest⟩

theorem inv_init (topic : String) (partition : Nat) {log : TopicLog}
    (hkeys : ∀ r ∈ log.records, r.key ≠ offsetKey) :
    Inv (.empty log) (init topic partition log) log.oldest := by
  have hpersisted : Storage.Persisted (fun _ => none) none := ⟨rfl, nofun⟩
  have happlied : ∀ r ∈ ([] : List TableRecord), r ∈ log.records := nofun
  have hdown := inv_down topic partition hkeys happlied hpersisted nofun
  have hempty : Database.content (fun _ => none) = fun _ => none := by
    funext key
    simp [Database.content]
  rw [hempty] at hdown
  exact hdown

theorem Inv.content_eq_fold {log : TopicLog} (h : Inv (.empty log) s c)
    (hconsumed : s.ConsumedToHwm) :
    s.st.db.content = fold (below s.table.log.records (max s.table.hwm s.table.cursor)) := by
  have hrecords : ∀ r ∈ s.table.log.records, log.oldest ≤ r.offset := h.oldest_le_offset
  calc
    s.st.db.content
      = replay (fun _ => none)
          (slice s.table.log.records log.oldest (max s.table.hwm s.table.cursor)) :=
        content_of_consumedToHwm h hconsumed
    _ = fold (below s.table.log.records (max s.table.hwm s.table.cursor)) := by
        rw [slice_eq_below hrecords, fold]

end System

end Goka
