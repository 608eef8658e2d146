import Goka.Proof.Incarnations
import Goka.Proof.ViewEffect

/-!
# What a partition of a view holds

At any time the storage of a partition holds what the log says up to some offset, except for keys
that were evicted. A load may begin one record too early: where the last offset could not be
written, or is zero, which the storage takes for an offset that was never set. That record is the
last one the storage holds, so applying it again changes nothing.

This needs the offset on disk to keep up. While the storage is not marked as recovered the one in
memory counts, and the goroutine of `Open` may put what it likes; later it must not put an offset
that has been replaced since it was loaded.
-/

namespace Goka

open KeyedLog

namespace ViewTable

variable {s s' : ViewTable} {stored stored' : Option Int} {start stop cursor : Int}

/-- At most the last record that is served lies at or above `start`. -/
def Lag (s : ViewTable) (start : Int) : Prop :=
  ∀ r ∈ s.table.log.records, start ≤ r.offset → r.offset < s.served → s.served = r.offset + 1

/-- No record lies between the two offsets. -/
def Gap (s : ViewTable) (start stop : Int) : Prop :=
  ∀ r ∈ s.table.log.records, start ≤ r.offset → stop ≤ r.offset

def loadStart (s : ViewTable) (stored : Option Int) : Int :=
  System.loadStart s.table.log.oldest stored

def effective (st : Storage) (stored : Option Int) : Option Int :=
  if st.recovered = false ∧ st.offset ≠ 0 then some st.offset else stored

def awaiting : Pc → Bool
  | .subscribing | .selecting | .updating _ => true
  | _ => false

def setting : Pc → Bool
  | .settingOffset _ => true
  | _ => false

structure Stands (stored : Option Int) (s : ViewTable) (cursor : Int) : Prop where
  le : cursor ≤ s.served
  lag : s.Lag cursor
  -- once the storage is marked as recovered, the offset on disk is behind by the record at hand
  -- only
  level : s.st.recovered = true → s.Gap (s.loadStart stored) cursor

structure Reads (stored : Option Int) (s : ViewTable) (found : Option Int) : Prop where
  bounds : ∀ v ∈ found, 0 ≤ v ∧ v < s.served
  stands : Stands stored s (s.loadStart found)

structure Sets (stored : Option Int) (s : ViewTable) (record : TableRecord) : Prop where
  mem : record ∈ s.table.log.records
  served : s.served = record.offset + 1
  memory : s.st.offset ≠ 0 → s.Gap (s.st.offset + 1) record.offset
  level : s.st.recovered = true → s.Gap (s.loadStart stored) record.offset

/-- What holds between the log, the storage and the table. -/
structure Exact (stored : Option Int) (s : ViewTable) : Prop extends Sound s where
  keys : ∀ r ∈ s.table.log.records, r.key ≠ offsetKey
  oldest_le : s.table.log.oldest ≤ s.served
  le_newest : s.served ≤ s.table.log.newest
  content : ∀ key, s.st.db.content key = fold (below s.table.log.records s.served) key ∨
    key ∈ s.evicted ∧ s.st.db.content key = none
  persisted : Storage.Persisted s.st.db stored
  bounds : ∀ v ∈ stored, 0 ≤ v ∧ v < s.served
  memory : s.st.offset ≠ 0 → 0 ≤ s.st.offset ∧ s.st.offset < s.served
  loaded : ∀ c ∈ s.curOffset, c ≠ 0 → s.st.offset ≠ 0 ∧ 0 ≤ c ∧ c < s.served
  lag : setting s.table.pc = false → s.Lag (s.loadStart (effective s.st stored))
  last : setting s.table.pc = false → s.st.offset ≠ 0 → s.served = s.st.offset + 1
  reads : s.table.pc = .findingOffset →
    ∃ found, s.table.storedOffset = found.getD offsetNotStored ∧ Reads stored s found
  stands : awaiting s.table.pc = true → Stands stored s s.table.cursor
  sets : ∀ record, s.table.pc = .settingOffset record → Sets stored s record
  fresh : s.phase = .ready → s.st = .new s.st.db
  unset : s.status ≠ .opened → s.phase ≠ .closed → s.st.offset = 0
  closed : s.phase = .closed → s.Lag (s.loadStart stored)

/-! ### Small facts -/

theorem Lag.mono (h : s.Lag start) (hle : start ≤ stop) : s.Lag stop :=
  fun r hr hstop => h r hr (hle.trans hstop)

/-- Nothing is served from there on. -/
theorem lag_of_served_le (h : s.served ≤ start) : s.Lag start := by
  intro r _ hstart hlt
  omega

theorem Gap.lag (h : s.Gap start stop) (hlag : s.Lag stop) : s.Lag start :=
  fun r hr hstart => hlag r hr (h r hr hstart)

theorem gap_of_le (h : stop ≤ start) : s.Gap start stop := fun _ _ hstart => h.trans hstart

theorem le_loadStart (s : ViewTable) (v : Int) : v + 1 ≤ s.loadStart (some v) := le_max_right ..

theorem Exact.loadStart_le (h : Exact stored s) {found : Option Int}
    (hbounds : ∀ v ∈ found, 0 ≤ v ∧ v < s.served) : s.loadStart found ≤ s.served :=
  System.loadStart_le h.oldest_le fun v hv => (hbounds v hv).2

theorem effective_new (db : Database) (stored : Option Int) : effective (.new db) stored = stored :=
  if_neg fun h => h.2 rfl

theorem effective_of_recovered {st : Storage} (h : st.recovered = true) (stored : Option Int) :
    effective st stored = stored :=
  if_neg fun hlocal => Bool.noConfusion (h.symm.trans hlocal.1)

theorem effective_of_zero {st : Storage} (h : st.offset = 0) (stored : Option Int) :
    effective st stored = stored :=
  if_neg fun hlocal => hlocal.2 h

theorem mem_effective {st : Storage} {v : Int} (h : v ∈ effective st stored) :
    v ∈ stored ∨ st.offset ≠ 0 ∧ v = st.offset := by
  unfold effective at h
  split at h
  · next hoffset => exact .inr ⟨hoffset.2, (Option.some.inj h).symm⟩
  · exact .inl h

theorem Exact.effective_bounds (h : Exact stored s) :
    ∀ v ∈ effective s.st stored, 0 ≤ v ∧ v < s.served := by
  intro v hv
  rcases mem_effective hv with hv | ⟨hoffset, rfl⟩
  · exact h.bounds v hv
  · exact h.memory hoffset

theorem Exact.getOffset_eq (h : Exact stored s) :
    s.st.getOffset offsetNotStored = .ok ((effective s.st stored).getD offsetNotStored) := by
  unfold effective
  split
  · next hlocal => rw [Storage.getOffset, if_pos hlocal, Option.getD_some]
  · next hlocal =>
      refine Storage.getOffset_of_persisted h.persisted ?_ offsetNotStored
      cases hrecovered : s.st.recovered with
      | true => exact .inl rfl
      | false =>
          rw [hrecovered] at hlocal
          exact .inr (not_not.mp fun hoffset => hlocal ⟨rfl, hoffset⟩)

theorem Exact.fits (h : Exact stored s) {v : Int} (hv : 0 ≤ v ∧ v < s.served) :
    -2 ^ 63 ≤ v ∧ v < 2 ^ 63 := by
  have hfits := s.table.log.fits
  have hnewest := h.le_newest
  omega

theorem not_busy_of_phase {phase : ViewTablePhase} (hphase : s.phase = phase)
    (hrecovering : phase ≠ .recovering) (hcatching : phase ≠ .catching) : s.busy = false := by
  rw [busy, hphase]
  exact decide_eq_false (not_or.mpr ⟨hrecovering, hcatching⟩)

/-- A load goes on only between the creation of the storage and its end. -/
theorem Exact.running_of_load (h : Exact stored s) (hpc : s.table.pc ≠ .idle) :
    s.phase ≠ .ready ∧ s.phase ≠ .closed := by
  have hbusy := h.busy_of_ne hpc
  refine ⟨fun hready => ?_, fun hclosed => ?_⟩
  · exact Bool.noConfusion (hbusy.symm.trans
      (not_busy_of_phase hready ViewTablePhase.noConfusion ViewTablePhase.noConfusion))
  · exact Bool.noConfusion (hbusy.symm.trans
      (not_busy_of_phase hclosed ViewTablePhase.noConfusion ViewTablePhase.noConfusion))

theorem setting_of_awaiting {pc : Pc} (h : awaiting pc = true) : setting pc = false := by
  cases pc with
  | settingOffset => cases h
  | _ => rfl

/-! ### Steps of the table alone -/

structure Same (s s' : ViewTable) : Prop where
  log : s'.table.log = s.table.log
  served : s'.served = s.served

theorem Lag.same (h : s.Lag start) (hsame : Same s s') : s'.Lag start := by
  unfold Lag
  rw [hsame.log, hsame.served]
  exact h

theorem Gap.same (h : s.Gap start stop) (hsame : Same s s') : s'.Gap start stop := by
  unfold Gap
  rw [hsame.log]
  exact h

theorem loadStart_same (hsame : Same s s') (stored : Option Int) :
    s'.loadStart stored = s.loadStart stored := by
  rw [loadStart, hsame.log, loadStart]

theorem Stands.same (h : Stands stored s cursor) (hsame : Same s s')
    (hrecovered : s'.st.recovered = s.st.recovered) : Stands stored s' cursor where
  le := hsame.served ▸ h.le
  lag := h.lag.same hsame
  level := by
    rw [hrecovered, loadStart_same hsame]
    exact fun hmarked => (h.level hmarked).same hsame

theorem Reads.same {found : Option Int} (h : Reads stored s found) (hsame : Same s s')
    (hrecovered : s'.st.recovered = s.st.recovered) : Reads stored s' found where
  bounds := hsame.served ▸ h.bounds
  stands := by
    rw [loadStart_same hsame]
    exact h.stands.same hsame hrecovered

theorem Sets.same {record : TableRecord} (h : Sets stored s record) (hsame : Same s s')
    (hst : s'.st = s.st) : Sets stored s' record where
  mem := hsame.log ▸ h.mem
  served := hsame.served.trans h.served
  memory := by
    rw [hst]
    exact fun hoffset => (h.memory hoffset).same hsame
  level := by
    rw [hst, loadStart_same hsame]
    exact fun hrecovered => (h.level hrecovered).same hsame

/-- The table moves on without the storage. -/
theorem Exact.onTable (h : Exact stored s) {table : PartitionTable}
    (hsound : Sound { s with table := table }) (hlog : table.log = s.table.log)
    (hbefore : setting table.pc = false → setting s.table.pc = false)
    (hreads : table.pc = .findingOffset →
      ∃ found, table.storedOffset = found.getD offsetNotStored ∧ Reads stored s found)
    (hstands : awaiting table.pc = true → Stands stored s table.cursor)
    (hsets : ∀ record, table.pc = .settingOffset record → Sets stored s record) :
    Exact stored { s with table := table } := by
  have hsame : Same s { s with table := table } := ⟨hlog, rfl⟩
  refine
    { hsound with
      keys := hlog ▸ h.keys
      oldest_le := hlog ▸ h.oldest_le
      le_newest := hlog ▸ h.le_newest
      content := ?_
      persisted := h.persisted
      bounds := h.bounds
      memory := h.memory
      loaded := h.loaded
      lag := fun hafter => ?_
      last := fun hafter => h.last (hbefore hafter)
      reads := fun hpc => ?_
      stands := fun hpc => (hstands hpc).same hsame rfl
      sets := fun record hpc => (hsets record hpc).same hsame rfl
      fresh := h.fresh
      unset := h.unset
      closed := fun hclosed => ?_ }
  · dsimp only
    rw [hlog]
    exact h.content
  · rw [loadStart_same hsame]
    exact (h.lag (hbefore hafter)).same hsame
  · obtain ⟨found, hstored, hreads⟩ := hreads hpc
    exact ⟨found, hstored, hreads.same hsame rfl⟩
  · rw [loadStart_same hsame]
    exact (h.closed hclosed).same hsame

/-- A step that leaves the load where it is. -/
theorem Exact.of_same (h : Exact stored s) {table : PartitionTable}
    (hsound : Sound { s with table := table }) (hlog : table.log = s.table.log)
    (hpc : table.pc = s.table.pc)
    (hsame : table.cursor = s.table.cursor ∧ table.storedOffset = s.table.storedOffset) :
    Exact stored { s with table := table } := by
  obtain ⟨hcursor, hstored⟩ := hsame
  refine h.onTable hsound hlog ?_ ?_ ?_ ?_
  · rw [hpc]
    exact id
  · rw [hpc, hstored]
    exact h.reads
  · rw [hpc, hcursor]
    exact h.stands
  · rw [hpc]
    exact h.sets

structure Rests (pc : Pc) : Prop where
  setting : setting pc = false
  awaiting : awaiting pc = false
  finding : pc ≠ .findingOffset

/-- The load comes to rest. -/
theorem Exact.of_rest (h : Exact stored s) {table : PartitionTable}
    (hsound : Sound { s with table := table }) (hlog : table.log = s.table.log)
    (hbefore : setting s.table.pc = false) (hafter : Rests table.pc) :
    Exact stored { s with table := table } := by
  refine h.onTable hsound hlog (fun _ => hbefore) (fun hpc => absurd hpc hafter.finding)
    (fun hpc => ?_) fun record hpc => ?_
  · exact Bool.noConfusion (hafter.awaiting.symm.trans hpc)
  · have hsetting := hafter.setting
    rw [hpc] at hsetting
    cases hsetting

theorem rests_returned (p : PartitionTable) : Rests p.returned.pc := by
  unfold PartitionTable.returned
  dsimp only
  split
  · exact ⟨rfl, rfl, Pc.noConfusion⟩
  · exact ⟨rfl, rfl, Pc.noConfusion⟩

theorem rests_leaveLoadMessages (p : PartitionTable) : Rests p.leaveLoadMessages.pc := by
  unfold PartitionTable.leaveLoadMessages
  split
  · exact ⟨rfl, rfl, Pc.noConfusion⟩
  · exact ⟨rfl, rfl, Pc.noConfusion⟩

theorem rests_leaveMarkRecovered (p : PartitionTable) (consuming : Bool) :
    Rests (p.leaveMarkRecovered consuming).pc := by
  cases consuming with
  | false => exact rests_returned p
  | true => exact ⟨rfl, rfl, Pc.noConfusion⟩

theorem rests_of_marking {pc : Pc} (h : pc.marking = true) : Rests pc := by
  unfold Pc.marking at h
  split at h
  · exact ⟨rfl, rfl, Pc.noConfusion⟩
  · cases h

theorem rests_idle {pc : Pc} (h : pc = .idle) : Rests pc := by
  rw [h]
  exact ⟨rfl, rfl, Pc.noConfusion⟩

/-- Where a load starts. -/
theorem Exact.stands_found (h : Exact stored s) (hpc : s.table.pc = .findingOffset) :
    Stands stored s s.table.found.loadOffset := by
  obtain ⟨found, hstored, hreads⟩ := h.reads hpc
  have hbounds : ∀ v ∈ found, 0 ≤ v ∧ v < s.table.log.newest := fun v hv =>
    ⟨(hreads.bounds v hv).1, (hreads.bounds v hv).2.trans_le h.le_newest⟩
  have hfound : s.table.found.loadOffset = s.loadStart found :=
    System.found_loadOffset (s := ⟨s.table, s.st, true, false, .idle, none, none, []⟩) hbounds
      hstored
  rw [hfound]
  exact hreads.stands

theorem Exact.outside (h : Exact stored s) (hsound : Sound s') {e : PartitionTable.Event}
    (hstep : s.outside e = some s') : Exact stored s' := by
  obtain ⟨houtside, hstep⟩ := Option.ite_none_right_eq_some.mp hstep
  obtain ⟨table, htable, rfl⟩ := Option.map_eq_some_iff.mp hstep
  cases PartitionTable.step_cases htable with
  | append | cancel | createFails | setupCancelled | setup | catchup | offsetFails | gotOffset
  | updateFails | updated | setFails | reached | offsetSet | recovered | markFails | markPanics =>
      cases houtside
  | watermarksFail hpc | consumeFails hpc | drained hpc =>
      exact h.of_rest hsound rfl (by rw [hpc]; rfl) (rests_returned _)
  | upToDate hpc | backoffCancelled hpc | retry hpc =>
      exact h.of_rest hsound rfl (by rw [hpc]; rfl) ⟨rfl, rfl, Pc.noConfusion⟩
  | found hpc =>
      exact h.onTable hsound rfl (fun _ => by rw [hpc]; rfl) (fun hpc => Pc.noConfusion hpc)
        (fun _ => h.stands_found hpc) fun _ hpc => Pc.noConfusion hpc
  | consume hpc | message hpc =>
      exact h.onTable hsound rfl (fun _ => by rw [hpc]; rfl) (fun hpc => Pc.noConfusion hpc)
        (fun _ => h.stands (by rw [hpc]; rfl)) fun _ hpc => Pc.noConfusion hpc
  | ignored hpc hstate hstop => exact absurd hstate (h.load.at_eq hpc hstop)
  | nilMessage | stallTick | consumerError => exact h.of_same hsound rfl rfl ⟨rfl, rfl⟩
  | closed hpc | cancelled hpc =>
      exact h.of_rest hsound (log_leaveLoadMessages _) (by rw [hpc]; rfl)
        (rests_leaveLoadMessages _)
  | markCancelled hpc =>
      exact h.of_rest hsound (log_leaveMarkRecovered _ _) (by rw [hpc]; rfl)
        (rests_leaveMarkRecovered _ _)

/-- Something happens beside the load. -/
theorem Exact.aside (h : Exact stored s) {phase : ViewTablePhase} {status : StorageStatus}
    {syncing : Bool} {curOffset : Option Int}
    (hsound : Sound { s with
      phase := phase, status := status, syncing := syncing, curOffset := curOffset })
    (hloaded : ∀ c ∈ curOffset, c ≠ 0 → s.st.offset ≠ 0 ∧ 0 ≤ c ∧ c < s.served)
    (hfresh : phase = .ready → s.st = .new s.st.db)
    (hunset : status ≠ .opened → phase ≠ .closed → s.st.offset = 0)
    (hclosed : phase = .closed → s.Lag (s.loadStart stored)) :
    Exact stored { s with
      phase := phase, status := status, syncing := syncing, curOffset := curOffset } := by
  have hsame : Same s { s with
      phase := phase, status := status, syncing := syncing, curOffset := curOffset } := ⟨rfl, rfl⟩
  exact
    { h with
      toSound := hsound
      loaded := hloaded
      reads := fun hpc =>
        let ⟨found, hstored, hreads⟩ := h.reads hpc
        ⟨found, hstored, hreads.same hsame rfl⟩
      stands := fun hpc => (h.stands hpc).same hsame rfl
      sets := fun record hpc => (h.sets record hpc).same hsame rfl
      fresh := hfresh
      unset := hunset
      closed := hclosed }

/-- A goroutine of `Run` begins or ends. -/
theorem Exact.of_phase (h : Exact stored s) {phase : ViewTablePhase} {status : StorageStatus}
    (hpc : s.table.pc = .idle) (hphase : phase ≠ .ready ∧ phase ≠ .closed)
    (hunset : status ≠ .opened → s.st.offset = 0) :
    Exact stored { s with phase := phase, status := status } :=
  h.aside ⟨h.load, fun _ => hpc⟩ h.loaded (fun hready => absurd hready hphase.1)
    (fun hstatus _ => hunset hstatus) fun hclosed => absurd hclosed hphase.2

def isCall : PartitionTable.Event → Bool
  | .setupAndRecover _ _ | .catchupForever _ => true
  | _ => false

theorem Exact.call (h : Exact stored s) (hsound : Sound s') {e : PartitionTable.Event}
    (hcall : isCall e = true) (hstep : s.onTable e = some s') : Exact stored s' := by
  obtain ⟨table, htable, rfl⟩ := Option.map_eq_some_iff.mp hstep
  cases PartitionTable.step_cases htable with
  | createFails hpc | setupCancelled hpc => exact h.of_same hsound rfl rfl ⟨rfl, rfl⟩
  | setup hpc | catchup hpc =>
      exact h.of_rest hsound rfl (by rw [hpc]; rfl) ⟨rfl, rfl, Pc.noConfusion⟩
  | _ => cases hcall

theorem Exact.create {autoreconnect : Bool} {builderErr openErr closeErr : Option String}
    (h : Exact stored s) (hsound : Sound s')
    (hstep : s.create autoreconnect builderErr openErr closeErr = some s') : Exact stored s' := by
  obtain ⟨hready, hstep⟩ := Option.ite_none_right_eq_some.mp hstep
  have hpc := h.idle
    (not_busy_of_phase hready ViewTablePhase.noConfusion ViewTablePhase.noConfusion)
  have hunset : s.st.offset = 0 := by
    rw [h.fresh hready]
    rfl
  split at hstep
  · exact (h.of_phase hpc ⟨ViewTablePhase.noConfusion, ViewTablePhase.noConfusion⟩
      fun _ => hunset).call hsound rfl hstep
  · next status _ =>
      obtain rfl := Option.some.inj hstep
      rw [← h.fresh hready]
      exact h.aside ⟨h.load, fun _ => hpc⟩ (fun c hc => absurd hc.symm (Option.some_ne_none c))
        (fun hready => ViewTablePhase.noConfusion hready) (fun _ _ => hunset)
        fun hclosed => ViewTablePhase.noConfusion hclosed

theorem Exact.setupAndRecover {autoreconnect : Bool} (h : Exact stored s) (hsound : Sound s')
    (hstep : s.setupAndRecover autoreconnect = some s') : Exact stored s' := by
  obtain ⟨hcreated, hstep⟩ := Option.ite_none_right_eq_some.mp hstep
  have hpc := h.idle
    (not_busy_of_phase hcreated ViewTablePhase.noConfusion ViewTablePhase.noConfusion)
  have hopen : s.phase ≠ .closed := hcreated ▸ ViewTablePhase.noConfusion
  exact (h.of_phase hpc ⟨ViewTablePhase.noConfusion, ViewTablePhase.noConfusion⟩
    fun hstatus => h.unset hstatus hopen).call hsound rfl hstep

theorem Exact.catchupForever {autoreconnect : Bool} (h : Exact stored s) (hsound : Sound s')
    (hstep : s.catchupForever autoreconnect = some s') : Exact stored s' := by
  obtain ⟨hrecovered, hstep⟩ := Option.ite_none_right_eq_some.mp hstep
  have hpc := h.idle
    (not_busy_of_phase hrecovered ViewTablePhase.noConfusion ViewTablePhase.noConfusion)
  have hopen : s.phase ≠ .closed := hrecovered ▸ ViewTablePhase.noConfusion
  exact (h.of_phase hpc ⟨ViewTablePhase.noConfusion, ViewTablePhase.noConfusion⟩
    fun hstatus => h.unset hstatus hopen).call hsound rfl hstep

theorem Exact.returns (h : Exact stored s) (hstep : s.returns = some s') : Exact stored s' := by
  obtain ⟨hpc, hstep⟩ := Option.ite_none_right_eq_some.mp hstep
  split at hstep
  · next hphase =>
      obtain rfl := Option.some.inj hstep
      exact h.of_phase hpc ⟨ViewTablePhase.noConfusion, ViewTablePhase.noConfusion⟩
        fun hstatus => h.unset hstatus (hphase ▸ ViewTablePhase.noConfusion)
  · next hphase =>
      obtain rfl := Option.some.inj hstep
      exact h.of_phase hpc ⟨ViewTablePhase.noConfusion, ViewTablePhase.noConfusion⟩
        fun hstatus => h.unset hstatus (hphase ▸ ViewTablePhase.noConfusion)
  · cases hstep

theorem Exact.cancel (h : Exact stored s) : Exact stored s.cancel :=
  h.of_same h.toSound.cancel rfl rfl ⟨rfl, rfl⟩

theorem Exact.toInt_effective (h : Exact stored s) :
    (Int64.ofInt ((effective s.st stored).getD offsetNotStored)).toInt
      = (effective s.st stored).getD offsetNotStored := by
  have hbounds := h.effective_bounds
  cases heffective : effective s.st stored with
  | none => decide
  | some v =>
      obtain ⟨hlow, hhigh⟩ := h.fits (hbounds v heffective)
      rw [Option.getD_some]
      exact Int64.toInt_ofInt_of_le hlow hhigh

theorem Exact.reads_effective (h : Exact stored s) (hsetting : setting s.table.pc = false) :
    Reads stored s (effective s.st stored) where
  bounds := h.effective_bounds
  stands :=
    { le := h.loadStart_le h.effective_bounds
      lag := h.lag hsetting
      level := by
        intro hrecovered
        rw [effective_of_recovered hrecovered]
        exact gap_of_le le_rfl }

/-- The load has read the offset the storage would resume at. -/
theorem Exact.gotOffset {result : Except String Int64} (h : Exact stored s) (hsound : Sound s')
    (hresult : ∀ v, result = .ok v →
      v = Int64.ofInt ((effective s.st stored).getD offsetNotStored))
    (hstep : s.onTable (.gotOffset result) = some s') : Exact stored s' := by
  obtain ⟨table, htable, rfl⟩ := Option.map_eq_some_iff.mp hstep
  cases PartitionTable.step_cases htable with
  | offsetFails hpc => exact h.of_rest hsound rfl (by rw [hpc]; rfl) (rests_returned _)
  | gotOffset hpc storedOffset =>
      have hsetting : setting s.table.pc = false := by
        rw [hpc]
        rfl
      refine h.onTable hsound rfl (fun _ => hsetting) (fun _ => ?_)
        (fun hpc => Bool.noConfusion hpc) fun _ hpc => Pc.noConfusion hpc
      refine ⟨effective s.st stored, ?_, h.reads_effective hsetting⟩
      dsimp only
      rw [hresult storedOffset rfl]
      exact h.toInt_effective

theorem Exact.getOffset {readErr : Option String} (h : Exact stored s) (hsound : Sound s')
    (hstep : s.getOffset readErr = some s') : Exact stored s' := by
  obtain ⟨hpc, hstep⟩ := Option.ite_none_right_eq_some.mp hstep
  split at hstep
  · exact h.gotOffset hsound (fun v heq => by cases heq) hstep
  · refine h.gotOffset hsound (fun v heq => ?_) hstep
    rw [h.getOffset_eq] at heq
    exact (Except.ok.inj heq).symm
  · obtain rfl := Option.some.inj hstep
    exact h.of_rest hsound rfl (by rw [hpc]; rfl) ⟨rfl, rfl, Pc.noConfusion⟩

/-! ### Records -/

section Append

variable {log : TopicLog} {record : TableRecord}

theorem Lag.append (h : s.Lag start) (hlog : s.table.log.append record = some log)
    (hserved : s.served ≤ s.table.log.newest) :
    Lag { s with table := { s.table with log := log } } start := by
  have hnewest := (TopicLog.append_eq_some hlog).1
  refine TopicLog.forall_append hlog h fun _ hlt => ?_
  dsimp only at hlt
  omega

theorem Gap.append (h : s.Gap start stop) (hlog : s.table.log.append record = some log)
    (hstop : stop ≤ s.table.log.newest) :
    Gap { s with table := { s.table with log := log } } start stop := by
  have hnewest := (TopicLog.append_eq_some hlog).1
  exact TopicLog.forall_append hlog h fun _ => by omega

theorem loadStart_append (hlog : s.table.log.append record = some log) (found : Option Int) :
    loadStart { s with table := { s.table with log := log } } found = s.loadStart found := by
  rw [loadStart, loadStart, (TopicLog.append_eq_some hlog).2.2.1]

theorem Stands.append (h : Stands stored s cursor) (hlog : s.table.log.append record = some log)
    (hserved : s.served ≤ s.table.log.newest) :
    Stands stored { s with table := { s.table with log := log } } cursor where
  le := h.le
  lag := h.lag.append hlog hserved
  level := fun hrecovered => by
    rw [loadStart_append hlog]
    exact (h.level hrecovered).append hlog (h.le.trans hserved)

theorem Sets.append {record' : TableRecord} (h : Sets stored s record')
    (hlog : s.table.log.append record = some log) (hserved : s.served ≤ s.table.log.newest) :
    Sets stored { s with table := { s.table with log := log } } record' := by
  have hle : record'.offset ≤ s.table.log.newest := by
    have := h.served
    omega
  refine ⟨?_, h.served, fun hoffset => (h.memory hoffset).append hlog hle, fun hrecovered => ?_⟩
  · dsimp only
    rw [(TopicLog.append_eq_some hlog).2.1]
    exact List.mem_append_left _ h.mem
  · rw [loadStart_append hlog]
    exact (h.level hrecovered).append hlog hle

end Append

/-- The log grows behind the cursor, so nothing that was read changes. -/
theorem Exact.append {record : TableRecord} (h : Exact stored s)
    (hstep : s.append record = some s') :
    Exact stored s' := by
  have hsound := h.toSound.append hstep
  obtain ⟨hkey, hstep⟩ := Option.ite_none_left_eq_some.mp hstep
  obtain ⟨table, htable, rfl⟩ := Option.map_eq_some_iff.mp hstep
  cases PartitionTable.step_cases htable with
  | @append _ log hlog =>
      obtain ⟨hnewest, hrecords, holdest, hnewest'⟩ := TopicLog.append_eq_some hlog
      have hserved := h.le_newest
      refine
        { hsound with
          keys := TopicLog.forall_append hlog h.keys hkey
          oldest_le := holdest.trans_le h.oldest_le
          le_newest := ?_
          content := ?_
          persisted := h.persisted
          bounds := h.bounds
          memory := h.memory
          loaded := h.loaded
          lag := fun hsetting => ?_
          last := h.last
          reads := fun hpc => ?_
          stands := fun hpc => (h.stands hpc).append hlog hserved
          sets := fun record' hpc => (h.sets record' hpc).append hlog hserved
          fresh := h.fresh
          unset := h.unset
          closed := fun hclosed => ?_ }
      · dsimp only
        omega
      · dsimp only
        rw [hrecords, below_append,
          below_of_forall_le (List.forall_mem_singleton.mpr (hserved.trans hnewest)),
          List.append_nil]
        exact h.content
      · rw [loadStart_append hlog]
        exact (h.lag hsetting).append hlog hserved
      · obtain ⟨found, hstored, hreads⟩ := h.reads hpc
        refine ⟨found, hstored, hreads.bounds, ?_⟩
        rw [loadStart_append hlog]
        exact hreads.stands.append hlog hserved
      · rw [loadStart_append hlog]
        exact (h.closed hclosed).append hlog hserved

/-- The record that comes next lies behind what is served, or is its last one. -/
theorem Exact.served_le (h : Exact stored s) {record : TableRecord}
    (hpc : s.table.pc = .updating record) : s.served ≤ record.offset + 1 := by
  obtain ⟨-, hnext⟩ := h.load.at_eq hpc
  obtain ⟨hmem, hcursor⟩ := nextRecord_eq_some hnext
  have hstands := h.stands (by rw [hpc]; rfl)
  by_cases hlt : record.offset < s.served
  · exact (hstands.lag record hmem hcursor hlt).le
  · omega

/-- A record is applied. -/
theorem Exact.apply (h : Exact stored s) {record : TableRecord}
    (hpc : s.table.pc = .updating record)
    (hstatus : s.status = .opened) {table : PartitionTable}
    (hstep : s.table.step (.updated none) = some table)
    (hsound : Sound { s with
      table := table
      st := s.st.defaultUpdate record.key record.value
      served := record.offset + 1
      evicted := s.evicted.filter fun key => key ≠ record.key }) :
    Exact stored { s with
      table := table
      st := s.st.defaultUpdate record.key record.value
      served := record.offset + 1
      evicted := s.evicted.filter fun key => key ≠ record.key } := by
  obtain ⟨hunready, hopen⟩ := h.running_of_load (hpc ▸ Pc.noConfusion)
  obtain ⟨-, hnext⟩ := h.load.at_eq hpc
  obtain ⟨hmem, hcursor⟩ := nextRecord_eq_some hnext
  have hstands := h.stands (by rw [hpc]; rfl)
  -- the record is the first one from the cursor on
  have hfirst : s.Gap s.table.cursor record.offset := fun r hr hle =>
    not_lt.mp fun hlt => nextRecord_gap s.table.log.ordered hnext r hr ⟨hle, hlt⟩
  have hserved := h.served_le hpc
  have hfold := fold_below_apply s.table.log.ordered hmem hserved
    fun r hr hr' => hfirst r hr (hstands.le.trans hr')
  have hcontent := Storage.content_defaultUpdate s.st (h.keys record hmem)
  cases PartitionTable.step_cases hstep with
  | @updated other hother =>
      obtain rfl := Pc.updating.inj (hpc.symm.trans hother)
      refine
        { hsound with
          keys := h.keys
          oldest_le := h.oldest_le.trans hserved
          le_newest := s.table.log.lt_newest record hmem
          content := fun key => ?_
          persisted := ⟨?_, h.persisted.2⟩
          bounds := fun v hv => ⟨(h.bounds v hv).1, (h.bounds v hv).2.trans_le hserved⟩
          memory := ?_
          loaded := ?_
          lag := fun hsetting => Bool.noConfusion hsetting
          last := fun hsetting => Bool.noConfusion hsetting
          reads := fun hfinding => Pc.noConfusion hfinding
          stands := fun hawaiting => Bool.noConfusion hawaiting
          sets := fun r hr => ?_
          fresh := fun hready => absurd hready hunready
          unset := fun hne => absurd hstatus hne
          closed := fun hclosed => absurd hclosed hopen }
      · dsimp only
        rw [hcontent, hfold]
        by_cases hkey : key = record.key
        · rw [hkey, apply_self, apply_self]
          exact .inl rfl
        · rw [apply_of_ne hkey, apply_of_ne hkey]
          refine (h.content key).imp_right fun ⟨hevicted, hnone⟩ => ⟨?_, hnone⟩
          exact List.mem_filter.mpr ⟨hevicted, decide_eq_true hkey⟩
      · dsimp only
        rw [Storage.defaultUpdate_offsetKey (h.keys record hmem)]
        exact h.persisted.1
      · dsimp only
        rw [Storage.defaultUpdate_offset]
        exact fun hoffset => ⟨(h.memory hoffset).1, (h.memory hoffset).2.trans_le hserved⟩
      · intro c hc hne
        obtain ⟨hoffset, hnonneg, hlt⟩ := h.loaded c hc hne
        refine ⟨?_, hnonneg, hlt.trans_le hserved⟩
        rw [Storage.defaultUpdate_offset]
        exact hoffset
      · obtain rfl := Pc.settingOffset.inj hr
        refine ⟨hmem, rfl, ?_, ?_⟩
        · dsimp only
          rw [Storage.defaultUpdate_offset]
          intro hoffset r' hr' hle
          have hlast := h.last (by rw [hpc]; rfl) hoffset
          have := hstands.le
          exact hfirst r' hr' (by omega)
        · dsimp only
          rw [Storage.defaultUpdate_recovered]
          exact fun hrecovered r' hr' hle => hfirst r' hr' (hstands.level hrecovered r' hr' hle)

theorem Exact.update {err : Option String} (h : Exact stored s) (hsound : Sound s')
    (hstep : s.update err = some s') : Exact stored s' := by
  unfold ViewTable.update at hstep
  split at hstep
  · next record err hstatus hpc =>
      obtain ⟨table, htable, rfl⟩ := Option.map_eq_some_iff.mp hstep
      cases PartitionTable.step_cases htable with
      | updateFails =>
          exact h.of_rest hsound rfl (by rw [hpc]; rfl) ⟨rfl, rfl, Pc.noConfusion⟩
  · next record hstatus hpc =>
      obtain ⟨table, htable, rfl⟩ := Option.map_eq_some_iff.mp hstep
      exact h.apply hpc hstatus htable hsound
  · cases hstep

/-! ### Offsets -/

/-- Whether the offset of the record is in memory or on disk, nothing lies behind it but what is
served. -/
theorem Sets.lag {record : TableRecord} {st : Storage} (h : Sets stored s record)
    (hoffset : st.offset = record.offset)
    (hstored : stored' = some record.offset ∨
      stored' = stored ∧ (st.recovered = true → s.st.recovered = true)) :
    s.Lag (s.loadStart (effective st stored')) := by
  have hserved := h.served
  have hbehind : s.served ≤ s.loadStart (some record.offset) :=
    hserved.trans_le (le_loadStart s record.offset)
  have hlast : s.Lag record.offset := by
    intro r _ hle hlt
    omega
  by_cases hlocal : st.recovered = false ∧ st.offset ≠ 0
  · rw [effective, if_pos hlocal, hoffset]
    exact lag_of_served_le hbehind
  · rw [effective, if_neg hlocal]
    rcases hstored with rfl | ⟨rfl, hkept⟩
    · exact lag_of_served_le hbehind
    · -- the offset zero looks like one that was never set, and there is no record before it
      cases hrecovered : st.recovered with
      | true => exact (h.level (hkept hrecovered)).lag hlast
      | false =>
          have hzero : st.offset = 0 := not_not.mp fun hne => hlocal ⟨hrecovered, hne⟩
          refine Gap.lag (fun r hr _ => ?_) hlast
          rw [← hoffset, hzero]
          exact s.table.log.nonneg.trans (s.table.log.oldest_le r hr)

/-- The offset of the record that was applied last is set, and the load goes on or ends. -/
theorem Exact.of_set (h : Exact stored s) {record : TableRecord}
    (hpc : s.table.pc = .settingOffset record) (hstatus : s.status = .opened)
    {table : PartitionTable} {st : Storage} (hsound : Sound { s with table := table, st := st })
    (hlog : table.log = s.table.log)
    (hafter : setting table.pc = false ∧ table.pc ≠ .findingOffset)
    (hcursor : awaiting table.pc = true → table.cursor = record.offset + 1)
    (hcontent : st.db.content = s.st.db.content) (hoffset : st.offset = record.offset)
    (hpersisted : Storage.Persisted st.db stored')
    (hstored : stored' = some record.offset ∨ stored' = stored ∧
      (st.recovered = true → s.st.recovered = true ∧ awaiting table.pc = false)) :
    Exact stored' { s with table := table, st := st } := by
  obtain ⟨hunready, hopen⟩ := h.running_of_load (hpc ▸ Pc.noConfusion)
  have hsame : Same s { s with table := table, st := st } := ⟨hlog, rfl⟩
  obtain ⟨hmem, hserved, -, -⟩ := h.sets record hpc
  have hrecord := s.table.log.nonneg.trans (s.table.log.oldest_le record hmem)
  refine
    { hsound with
      keys := hlog ▸ h.keys
      oldest_le := hlog ▸ h.oldest_le
      le_newest := hlog ▸ h.le_newest
      content := ?_
      persisted := hpersisted
      bounds := fun v hv => ?_
      memory := fun _ => ?_
      loaded := fun c hc hne => ?_
      lag := fun _ => ?_
      last := fun _ _ => ?_
      reads := fun hfinding => absurd hfinding hafter.2
      stands := fun hawaiting => ?_
      sets := fun r hr => ?_
      fresh := fun hready => absurd hready hunready
      unset := fun hne => absurd hstatus hne
      closed := fun hclosed => absurd hclosed hopen }
  · dsimp only
    rw [hlog, hcontent]
    exact h.content
  · rcases hstored with rfl | ⟨rfl, -⟩
    · obtain rfl := Option.some.inj hv
      dsimp only
      omega
    · exact h.bounds v hv
  · dsimp only
    omega
  · obtain ⟨-, hbounds⟩ := h.loaded c hc hne
    refine ⟨?_, hbounds⟩
    dsimp only
    omega
  · refine Lag.same ?_ hsame
    rw [loadStart_same hsame]
    refine (h.sets record hpc).lag hoffset (hstored.imp_right fun ⟨heq, hkept⟩ => ⟨heq, ?_⟩)
    exact fun hrecovered => (hkept hrecovered).1
  · dsimp only
    rw [hoffset]
    exact hserved
  · refine Stands.mk ?_ ?_ fun hrecovered => ?_
    · rw [hcursor hawaiting]
      exact hserved.ge
    · rw [hcursor hawaiting]
      exact (lag_of_served_le hserved.le).same hsame
    · rcases hstored with rfl | ⟨-, hkept⟩
      · rw [hcursor hawaiting, loadStart_same hsame]
        exact gap_of_le (le_loadStart s record.offset)
      · exact Bool.noConfusion ((hkept hrecovered).2.symm.trans hawaiting)
  · have hsetting : setting table.pc = false := hafter.1
    rw [hr] at hsetting
    cases hsetting

/-- `SetOffset` writes to memory, and to the database if the storage is marked as recovered. -/
theorem Exact.persisted_setOffset (h : Exact stored s) {record : TableRecord}
    (hpc : s.table.pc = .settingOffset record) :
    ∃ stored', Storage.Persisted (s.st.setOffset record.offset).db stored' ∧
      (stored' = some record.offset ∨ stored' = stored ∧ s.st.recovered = false) := by
  obtain ⟨hmem, hserved, -⟩ := h.sets record hpc
  have hnonneg := s.table.log.nonneg.trans (s.table.log.oldest_le record hmem)
  obtain ⟨hlow, hhigh⟩ := h.fits (v := record.offset) ⟨hnonneg, by omega⟩
  cases hrecovered : s.st.recovered with
  | true =>
      refine ⟨some record.offset, ?_, .inl rfl⟩
      rw [Storage.setOffset, Storage.putIfRecovered, if_pos (by exact hrecovered)]
      exact Storage.Persisted.putOffset hlow hhigh
  | false =>
      refine ⟨stored, ?_, .inr ⟨rfl, rfl⟩⟩
      rw [Storage.setOffset, Storage.putIfRecovered,
        if_neg (by simp [Storage.storeOffset, hrecovered])]
      exact h.persisted

/-- The offset of the record that was applied becomes the one to resume at. -/
theorem Exact.setOffset {err : Option String} (h : Exact stored s) (hsound : Sound s')
    (hstep : s.setOffset err = some s') : ∃ stored', Exact stored' s' := by
  unfold ViewTable.setOffset at hstep
  split at hstep
  · next record err hstatus hpc =>
      obtain ⟨hrecovered, hstep⟩ := Option.ite_none_right_eq_some.mp hstep
      obtain ⟨table, htable, rfl⟩ := Option.map_eq_some_iff.mp hstep
      cases PartitionTable.step_cases htable with
      | setFails =>
          exact ⟨stored, h.of_set hpc hstatus hsound rfl ⟨rfl, Pc.noConfusion⟩
            (fun hawaiting => Bool.noConfusion hawaiting) rfl rfl h.persisted
            (.inr ⟨rfl, fun _ => ⟨hrecovered, rfl⟩⟩)⟩
  · next record hstatus hpc =>
      obtain ⟨table, htable, rfl⟩ := Option.map_eq_some_iff.mp hstep
      obtain ⟨stored', hpersisted, hstored⟩ := h.persisted_setOffset hpc
      have hcontent : (s.st.setOffset record.offset).db.content = s.st.db.content :=
        Storage.content_putIfRecovered record.offset
      have hstored' : stored' = some record.offset ∨ stored' = stored ∧
          ((s.st.setOffset record.offset).recovered = true →
            s.st.recovered = true ∧ awaiting table.pc = false) := by
        refine hstored.imp_right fun ⟨hkept, hunmarked⟩ => ⟨hkept, fun hrecovered => ?_⟩
        rw [Storage.setOffset_recovered, hunmarked] at hrecovered
        cases hrecovered
      refine ⟨stored', ?_⟩
      cases PartitionTable.step_cases htable with
      | reached =>
          have hrests := rests_leaveLoadMessages s.table
          exact h.of_set hpc hstatus hsound (log_leaveLoadMessages _)
            ⟨hrests.setting, hrests.finding⟩
            (fun hawaiting => Bool.noConfusion (hrests.awaiting.symm.trans hawaiting)) hcontent
            (Storage.setOffset_offset _) hpersisted hstored'
      | offsetSet =>
          exact h.of_set hpc hstatus hsound rfl ⟨rfl, Pc.noConfusion⟩
            (fun _ => (h.load.at_eq hpc).2) hcontent (Storage.setOffset_offset _) hpersisted
            hstored'
  · cases hstep

/-- An offset is put while the one in memory counts, or it is the one in memory. -/
theorem Exact.putOffset (h : Exact stored s) {c : Int} (hbounds : 0 ≤ c ∧ c < s.served)
    (hmemory : s.st.offset ≠ 0)
    (htimely : s.st.recovered = false ∧ s.phase ≠ .closed ∨ c = s.st.offset) :
    Exact (some c) { s with st := s.st.putOffset c } := by
  have hsame : Same s { s with st := s.st.putOffset c } := ⟨rfl, rfl⟩
  obtain ⟨hlow, hhigh⟩ := h.fits hbounds
  -- behind an offset that is up to date there is nothing to load but what is served
  have hbehind : s.st.recovered = true ∨ s.phase = .closed → setting s.table.pc = false →
      s.served ≤ s.loadStart (some c) := by
    intro hlate hsetting
    have hcurrent : c = s.st.offset := htimely.resolve_left fun ⟨hunmarked, hopen⟩ =>
      hlate.elim (fun hrecovered => Bool.noConfusion (hunmarked.symm.trans hrecovered)) hopen
    rw [h.last hsetting hmemory, ← hcurrent]
    exact le_loadStart s c
  have hstands : ∀ {cursor : Int}, Stands stored s cursor → setting s.table.pc = false →
      Stands (some c) { s with st := s.st.putOffset c } cursor := fun hstands hsetting =>
    ⟨hstands.le, hstands.lag.same hsame, fun hrecovered =>
      gap_of_le (hstands.le.trans (hbehind (.inl hrecovered) hsetting))⟩
  refine
    { toSound := ⟨h.load, h.idle⟩
      keys := h.keys
      oldest_le := h.oldest_le
      le_newest := h.le_newest
      content := ?_
      persisted := Storage.Persisted.putOffset hlow hhigh
      bounds := fun v hv => ?_
      memory := h.memory
      loaded := h.loaded
      lag := fun hsetting => ?_
      last := h.last
      reads := fun hpc => ?_
      stands := fun hpc => ?_
      sets := fun record hpc => ?_
      fresh := fun hready => ?_
      unset := h.unset
      closed := fun hclosed => ?_ }
  · dsimp only
    rw [Storage.content_putOffset]
    exact h.content
  · obtain rfl := Option.some.inj hv
    exact hbounds
  · refine Lag.same ?_ hsame
    rw [loadStart_same hsame]
    dsimp only
    cases hrecovered : s.st.recovered with
    | true =>
        have hputs : (s.st.putOffset c).recovered = true := hrecovered
        rw [effective_of_recovered hputs]
        exact lag_of_served_le (hbehind (.inl hrecovered) hsetting)
    | false =>
        have hlocal := h.lag hsetting
        rw [effective, if_pos ⟨hrecovered, hmemory⟩] at hlocal
        have hputs : (s.st.putOffset c).recovered = false ∧ (s.st.putOffset c).offset ≠ 0 :=
          ⟨hrecovered, hmemory⟩
        rw [effective, if_pos hputs]
        exact hlocal
  · obtain ⟨found, hstored, hreads⟩ := h.reads hpc
    exact ⟨found, hstored, hreads.bounds, hstands hreads.stands (by rw [hpc]; rfl)⟩
  · exact hstands (h.stands hpc) (setting_of_awaiting hpc)
  · have hsets := h.sets record hpc
    refine ⟨hsets.mem, hsets.served, hsets.memory, fun hrecovered r hr hle => ?_⟩
    have hcurrent : c = s.st.offset := htimely.resolve_left fun ⟨hunmarked, _⟩ =>
      Bool.noConfusion (hunmarked.symm.trans hrecovered)
    refine hsets.memory hmemory r hr ?_
    rw [← hcurrent]
    exact (le_loadStart s c).trans hle
  · refine absurd ?_ hmemory
    rw [h.fresh hready]
    rfl
  · have hidle := h.idle
      (not_busy_of_phase hclosed ViewTablePhase.noConfusion ViewTablePhase.noConfusion)
    exact (lag_of_served_le (hbehind (.inr hclosed) (rests_idle hidle).setting)).same hsame

/-- The offset in memory is put, unless it is zero. -/
theorem Exact.putMemory (h : Exact stored s) :
    ∃ stored', Exact stored' { s with st := s.st.putLoaded s.st.offset } ∧
      (s.st.offset = 0 ∨ stored' = some s.st.offset) := by
  by_cases hzero : s.st.offset = 0
  · refine ⟨stored, ?_, .inl hzero⟩
    rw [Storage.putLoaded, if_neg (not_not.mpr hzero)]
    exact h
  · refine ⟨some s.st.offset, ?_, .inr rfl⟩
    rw [Storage.putLoaded, if_pos hzero]
    exact h.putOffset (h.memory hzero) hzero (.inr rfl)

/-- Whatever is on disk, it lags behind by the last record only where it is the offset that
counts. -/
theorem Exact.lag_stored (h : Exact stored s) (hsetting : setting s.table.pc = false)
    (hcounts : s.st.recovered = true ∨ s.st.offset = 0 ∨ stored = some s.st.offset) :
    s.Lag (s.loadStart stored) := by
  by_cases hzero : s.st.offset = 0
  · have hlag := h.lag hsetting
    rwa [effective_of_zero hzero] at hlag
  · rcases hcounts with hrecovered | hoffset | rfl
    · have hlag := h.lag hsetting
      rwa [effective_of_recovered hrecovered] at hlag
    · exact absurd hoffset hzero
    · refine lag_of_served_le ?_
      rw [h.last hsetting hzero]
      exact le_loadStart s s.st.offset

/-- Once the storage is marked as recovered or closed, the goroutine of `Open` puts no offset that
has been replaced since it was loaded, and the offset of a storage that is not marked as recovered
can be put when it is closed. -/
def Timely (s : ViewTable) : Action → Prop
  | .syncPut none => s.st.recovered = false ∧ s.phase ≠ .closed ∨ s.curOffset = some 0 ∨
      s.curOffset = some s.st.offset
  | .close (some _) => s.st.recovered = true
  | _ => True

instance decidableTimely (s : ViewTable) : DecidablePred s.Timely
  | .syncPut none => inferInstanceAs (Decidable (s.st.recovered = false ∧ s.phase ≠ .closed ∨
      s.curOffset = some 0 ∨ s.curOffset = some s.st.offset))
  | .close (some _) => inferInstanceAs (Decidable (s.st.recovered = true))
  | .create _ _ _ | .setupAndRecover | .catchupForever | .getOffset _ | .outside _ | .update _
  | .setOffset _ | .markRecovered _ _ | .syncLoad | .syncPut (some _) | .syncReturn | .evict _
  | .returns | .close none => isTrue trivial

theorem Exact.syncLoad (h : Exact stored s) (hstep : s.syncLoad = some s') : Exact stored s' := by
  obtain ⟨-, hstep⟩ := Option.ite_none_right_eq_some.mp hstep
  obtain rfl := Option.some.inj hstep
  refine h.aside ⟨h.load, h.idle⟩ (fun c hc hne => ?_) h.fresh h.unset h.closed
  obtain rfl := Option.some.inj hc
  exact ⟨hne, h.memory hne⟩

/-- In time, the goroutine of `Open` puts nothing that was replaced. -/
theorem Exact.syncPut {putErr : Option String} (h : Exact stored s)
    (htimely : s.Timely (.syncPut putErr)) (hstep : s.syncPut putErr = some s') :
    ∃ stored', Exact stored' s' := by
  obtain ⟨c, hloaded, rfl⟩ := syncPut_cases hstep
  have hput : ∃ stored', Exact stored' { s with st := s.putLoaded putErr c } := by
    cases putErr with
    | some err => exact ⟨stored, h⟩
    | none =>
        change ∃ stored', Exact stored' { s with st := s.st.putLoaded c }
        by_cases hzero : c = 0
        · refine ⟨stored, ?_⟩
          rw [Storage.putLoaded, if_neg (not_not.mpr hzero)]
          exact h
        · obtain ⟨hmemory, hbounds⟩ := h.loaded c hloaded hzero
          refine ⟨some c, ?_⟩
          rw [Storage.putLoaded, if_pos hzero]
          refine h.putOffset hbounds hmemory (htimely.imp_right fun hloaded' => ?_)
          rw [hloaded, Option.some.injEq, Option.some.injEq] at hloaded'
          exact hloaded'.resolve_left hzero
  obtain ⟨stored', h'⟩ := hput
  exact ⟨stored', h'.aside ⟨h'.load, h'.idle⟩
    (fun c hc => absurd hc.symm (Option.some_ne_none c)) h'.fresh h'.unset h'.closed⟩

theorem Exact.syncReturn (h : Exact stored s) (hstep : s.syncReturn = some s') :
    Exact stored s' := by
  obtain ⟨-, hstep⟩ := Option.ite_none_right_eq_some.mp hstep
  obtain rfl := Option.some.inj hstep
  exact h.aside ⟨h.load, h.idle⟩ h.loaded h.fresh h.unset h.closed

theorem markRecovered_cases {st st' : Storage} (h : st.markRecovered = .ok st') :
    st.recovered = false ∧ st' = { st.putLoaded st.offset with recovered := true } := by
  unfold Storage.markRecovered Storage.closeRecovered at h
  rw [Storage.putLoaded_recovered] at h
  cases hrecovered : st.recovered with
  | true =>
      rw [hrecovered, if_pos rfl] at h
      cases h
  | false =>
      rw [hrecovered, if_neg Bool.false_ne_true] at h
      exact ⟨rfl, (Outcome.ok.inj h).symm⟩

/-- The storage is marked as recovered. -/
theorem Exact.mark (h : Exact stored s) (hmarking : s.table.pc.marking = true)
    {st : Storage} (hmark : s.st.markRecovered = .ok st) :
    ∃ stored', Exact stored' { s with st := st } := by
  obtain ⟨-, rfl⟩ := markRecovered_cases hmark
  obtain ⟨stored', h', hstored⟩ := h.putMemory
  have hrests := rests_of_marking hmarking
  have hset : ∀ record, s.table.pc ≠ .settingOffset record := by
    intro record hpc
    have hsetting := hrests.setting
    rw [hpc] at hsetting
    cases hsetting
  have hbusy := h.busy_of_ne fun hpc => by
    rw [hpc] at hmarking
    cases hmarking
  refine ⟨stored', { h' with
    toSound := ⟨h.load, h.idle⟩
    lag := fun hsetting => ?_
    reads := fun hpc => absurd hpc hrests.finding
    stands := fun hpc => Bool.noConfusion (hrests.awaiting.symm.trans hpc)
    sets := fun record hpc => absurd hpc (hset record)
    fresh := fun hready => ?_ }⟩
  · rw [effective_of_recovered rfl]
    refine h'.lag_stored hsetting (.inr ?_)
    rw [Storage.putLoaded_offset]
    exact hstored
  · exact Bool.noConfusion (hbusy.symm.trans
      (not_busy_of_phase hready ViewTablePhase.noConfusion ViewTablePhase.noConfusion))

/-- `markRecovered` is left. -/
theorem Exact.leaveMark (h : Exact stored s) (hsound : Sound s')
    (hmarking : s.table.pc.marking = true) {e : PartitionTable.Event}
    (hleaves : e = .contextDone ∨ ∃ result, e = .markedRecovered result)
    (hstep : s.onTable e = some s') : Exact stored s' := by
  obtain ⟨table, htable, rfl⟩ := Option.map_eq_some_iff.mp hstep
  cases PartitionTable.step_cases htable with
  | cancelled hpc | backoffCancelled hpc =>
      rw [hpc] at hmarking
      cases hmarking
  | markCancelled hpc | recovered hpc | markFails hpc =>
      exact h.of_rest hsound (log_leaveMarkRecovered _ _) (by rw [hpc]; rfl)
        (rests_leaveMarkRecovered _ _)
  | markPanics hpc => exact h.of_rest hsound rfl (by rw [hpc]; rfl) ⟨rfl, rfl, Pc.noConfusion⟩
  | _ => rcases hleaves with heq | ⟨result, heq⟩ <;> cases heq

theorem Exact.markRecovered {putErr : Option String} {left : Bool} (h : Exact stored s)
    (hsound : Sound s') (hstep : s.markRecovered putErr left = some s') :
    ∃ stored', Exact stored' s' := by
  obtain ⟨⟨-, hmarking⟩, hstep⟩ := Option.ite_none_right_eq_some.mp hstep
  have hleaves : ∀ result : Outcome Unit,
      (if left then PartitionTable.Event.contextDone else .markedRecovered result)
        = .contextDone ∨
      ∃ result', (if left then PartitionTable.Event.contextDone else .markedRecovered result)
        = .markedRecovered result' := by
    intro result
    cases left with
    | true => exact .inl rfl
    | false => exact .inr ⟨result, rfl⟩
  split at hstep
  · next st hmark =>
      have hmark' : s.st.markRecovered = .ok st := by
        unfold Storage.tryMarkRecovered at hmark
        split at hmark
        · split at hmark
          · exact hmark
          · cases hmark
        · exact hmark
      obtain ⟨stored', h'⟩ := h.mark hmarking hmark'
      exact ⟨stored', h'.leaveMark hsound hmarking (hleaves _) hstep⟩
  · exact ⟨stored, h.leaveMark hsound hmarking (hleaves _) hstep⟩
  · exact ⟨stored, h.leaveMark hsound hmarking (.inr ⟨_, rfl⟩) hstep⟩

/-! ### Evicting, closing and opening again -/

/-- Only the content for the key changes, and the key counts as evicted. -/
theorem Exact.evict {key : Bytes} (h : Exact stored s) (hstep : s.evict key = some s') :
    Exact stored s' := by
  obtain ⟨⟨hstatus, hkey⟩, hstep⟩ := Option.ite_none_right_eq_some.mp hstep
  obtain rfl := Option.some.inj hstep
  have hsame : Same s { s with st := s.st.delete key, evicted := key :: s.evicted } := ⟨rfl, rfl⟩
  refine
    { h with
      toSound := ⟨h.load, h.idle⟩
      content := fun k => ?_
      persisted := ⟨?_, h.persisted.2⟩
      reads := fun hpc =>
        let ⟨found, hstored, hreads⟩ := h.reads hpc
        ⟨found, hstored, hreads.same hsame rfl⟩
      stands := fun hpc => (h.stands hpc).same hsame rfl
      sets := fun record hpc => ⟨(h.sets record hpc).mem, (h.sets record hpc).served,
        (h.sets record hpc).memory, (h.sets record hpc).level⟩
      fresh := fun hready => ?_ }
  · dsimp only [Storage.delete]
    rw [Storage.content_update hkey]
    by_cases hk : k = key
    · rw [hk, Function.update_self]
      exact .inr ⟨List.mem_cons_self, rfl⟩
    · rw [Function.update_of_ne hk]
      exact (h.content k).imp_right fun ⟨hevicted, hnone⟩ =>
        ⟨List.mem_cons_of_mem _ hevicted, hnone⟩
  · dsimp only [Storage.delete]
    rw [Function.update_of_ne (Ne.symm hkey)]
    exact h.persisted.1
  · have hfresh := h.fresh hready
    dsimp only [Storage.delete]
    rw [hfresh]
    rfl

/-- The table is closed, with an offset on disk that the next view can begin with. -/
theorem Exact.of_closed (h : Exact stored s) (hpc : s.table.pc = .idle) (status : StorageStatus)
    (hcounts : s.st.recovered = true ∨ s.st.offset = 0 ∨ stored = some s.st.offset) :
    Exact stored { s with phase := .closed, status := status } :=
  h.aside ⟨h.load, fun _ => hpc⟩ h.loaded (fun hready => ViewTablePhase.noConfusion hready)
    (fun _ hopen => absurd rfl hopen) fun _ => h.lag_stored (rests_idle hpc).setting hcounts

/-- Closing puts the offset in memory, and in time that is the one to resume at. -/
theorem Exact.close {putErr : Option String} (h : Exact stored s)
    (htimely : s.Timely (.close putErr)) (hstep : s.close putErr = some s') :
    ∃ stored', Exact stored' s' := by
  obtain ⟨hphase, hcases⟩ := close_cases hstep
  have hopen : s.phase ≠ .closed := by rcases hphase with hphase | hphase <;> simp [hphase]
  have hpc := h.idle (by rcases hphase with hphase | hphase <;> simp [busy, hphase])
  rcases hcases with ⟨-, rfl⟩ | ⟨hstatus, rfl⟩
  · cases putErr with
    | some err => exact ⟨stored, h.of_closed hpc .closed (.inl htimely)⟩
    | none =>
        obtain ⟨stored', h', hstored⟩ := h.putMemory
        refine ⟨stored', h'.of_closed hpc .closed (.inr ?_)⟩
        rw [Storage.putLoaded_offset]
        exact hstored
  · exact ⟨stored, h.of_closed hpc s.status (.inr (.inl (h.unset hstatus hopen)))⟩

/-- What a view leaves behind is what the next one begins with. -/
theorem Exact.reopen (h : Exact stored s) (hclosed : s.phase = .closed) :
    Exact stored s.reopen where
  toSound := sound_onDatabase ..
  keys := h.keys
  oldest_le := h.oldest_le
  le_newest := h.le_newest
  content := h.content
  persisted := h.persisted
  bounds := h.bounds
  memory := fun hoffset => absurd rfl hoffset
  loaded := fun c hc => absurd hc.symm (Option.some_ne_none c)
  lag := by
    intro _
    change Lag s.reopen (s.loadStart (effective (.new s.st.db) stored))
    rw [effective_new]
    exact h.closed hclosed
  last := fun _ hoffset => absurd rfl hoffset
  reads := fun hpc => Pc.noConfusion hpc
  stands := fun hawaiting => Bool.noConfusion hawaiting
  sets := fun _ hpc => Pc.noConfusion hpc
  fresh := fun _ => rfl
  unset := fun _ _ => rfl
  closed := fun hclosed => ViewTablePhase.noConfusion hclosed

theorem exact_new (topic : String) (partition : Nat) : Exact none (new topic partition) where
  toSound := sound_onDatabase ..
  keys := fun _ hr => absurd hr List.not_mem_nil
  oldest_le := le_rfl
  le_newest := le_rfl
  content := fun key => .inl (by simp [new, onDatabase, Storage.new, Database.content]; rfl)
  persisted := ⟨rfl, fun _ hv => absurd hv.symm (Option.some_ne_none _)⟩
  bounds := fun _ hv => absurd hv.symm (Option.some_ne_none _)
  memory := fun hoffset => absurd rfl hoffset
  loaded := fun c hc => absurd hc.symm (Option.some_ne_none c)
  lag := fun _ _ hr => absurd hr List.not_mem_nil
  last := fun _ hoffset => absurd rfl hoffset
  reads := fun hpc => Pc.noConfusion hpc
  stands := fun hawaiting => Bool.noConfusion hawaiting
  sets := fun _ hpc => Pc.noConfusion hpc
  fresh := fun _ => rfl
  unset := fun _ _ => rfl
  closed := fun hclosed => ViewTablePhase.noConfusion hclosed

/-- The offset to resume at may move with the step. -/
theorem exact_step {autoreconnect : Bool} {action : Action} (h : Exact stored s)
    (htimely : s.Timely action) (hstep : s.step autoreconnect action = some s') :
    ∃ stored', Exact stored' s' := by
  have hsound := sound_step h.toSound hstep
  cases action with
  | create builderErr openErr closeErr => exact ⟨stored, h.create hsound hstep⟩
  | setupAndRecover => exact ⟨stored, h.setupAndRecover hsound hstep⟩
  | catchupForever => exact ⟨stored, h.catchupForever hsound hstep⟩
  | getOffset readErr => exact ⟨stored, h.getOffset hsound hstep⟩
  | outside e => exact ⟨stored, h.outside hsound hstep⟩
  | update err => exact ⟨stored, h.update hsound hstep⟩
  | setOffset err => exact h.setOffset hsound hstep
  | markRecovered putErr left => exact h.markRecovered hsound hstep
  | syncLoad => exact ⟨stored, h.syncLoad hstep⟩
  | syncPut putErr => exact h.syncPut htimely hstep
  | syncReturn => exact ⟨stored, h.syncReturn hstep⟩
  | evict key => exact ⟨stored, h.evict hstep⟩
  | returns => exact ⟨stored, h.returns hstep⟩
  | close putErr => exact h.close htimely hstep

/-! ### What a step leaves as it is -/

/-- A step of a table does not touch the log, does not go back behind what is served, and leaves a
closed table closed. -/
structure Onward (s s' : ViewTable) : Prop where
  log : s'.table.log = s.table.log
  served : s.served ≤ s'.served
  closed : s.phase = .closed → s'.phase = .closed

theorem log_effect {autoreconnect : Bool} {action : Action}
    (h : Effect autoreconnect s s' action) : s'.table.log = s.table.log := by
  cases h with
  | loads hstep _ hkind =>
      refine log_tableStep hstep fun record heq => ?_
      rw [heq] at hkind
      cases hkind
  | fails hstep | begins hstep | catches hstep =>
      exact log_tableStep hstep fun _ => PartitionTable.Event.noConfusion
  | crashes _ htable => rw [htable]
  | rests htable | creates htable | closes htable => rw [htable]
  | returns _ htable => rw [htable]

theorem closed_effect {autoreconnect : Bool} {action : Action}
    (h : Effect autoreconnect s s' action) (hclosed : s.phase = .closed) : s'.phase = .closed := by
  cases h with
  | loads _ hphase | crashes _ _ hphase | rests _ hphase => exact hphase.trans hclosed
  | creates _ hbefore | fails _ hbefore | begins _ hbefore | catches _ hbefore =>
      cases hbefore.symm.trans hclosed
  | returns _ _ hphase =>
      rcases hphase with ⟨hbefore, -⟩ | ⟨hbefore, -⟩ <;> cases hbefore.symm.trans hclosed
  | closes _ _ hphase => exact hphase

/-- Only `Update` changes what is served. -/
theorem served_step {autoreconnect : Bool} {action : Action} (h : Exact stored s)
    (hstep : s.step autoreconnect action = some s') : s.served ≤ s'.served := by
  have honTable : ∀ {before : ViewTable} {e : PartitionTable.Event}, before.onTable e = some s' →
      s'.served = before.served := by
    intro before e hstep
    obtain ⟨table, -, rfl⟩ := Option.map_eq_some_iff.mp hstep
    rfl
  cases action with
  | create | getOffset =>
      obtain ⟨-, hstep⟩ := Option.ite_none_right_eq_some.mp hstep
      split at hstep
      all_goals first
        | exact (honTable hstep).ge
        | obtain rfl := Option.some.inj hstep
          exact le_rfl
  | setupAndRecover | catchupForever | outside =>
      obtain ⟨-, hstep⟩ := Option.ite_none_right_eq_some.mp hstep
      exact (honTable hstep).ge
  | update err =>
      change s.update err = some s' at hstep
      unfold update at hstep
      split at hstep
      · exact (honTable hstep).ge
      · next hpc => exact (h.served_le hpc).trans (honTable hstep).ge
      · cases hstep
  | setOffset err =>
      change s.setOffset err = some s' at hstep
      unfold setOffset at hstep
      split at hstep
      · obtain ⟨-, hstep⟩ := Option.ite_none_right_eq_some.mp hstep
        exact (honTable hstep).ge
      · exact (honTable hstep).ge
      · cases hstep
  | markRecovered =>
      obtain ⟨-, hstep⟩ := Option.ite_none_right_eq_some.mp hstep
      split at hstep
      · exact (honTable hstep).ge
      · exact (honTable hstep).ge
      · exact (honTable hstep).ge
  | syncLoad | syncReturn | evict =>
      obtain ⟨-, hstep⟩ := Option.ite_none_right_eq_some.mp hstep
      obtain rfl := Option.some.inj hstep
      exact le_rfl
  | syncPut =>
      obtain ⟨-, -, rfl⟩ := syncPut_cases hstep
      exact le_rfl
  | returns =>
      obtain ⟨-, hstep⟩ := Option.ite_none_right_eq_some.mp hstep
      split at hstep
      · obtain rfl := Option.some.inj hstep
        exact le_rfl
      · obtain rfl := Option.some.inj hstep
        exact le_rfl
      · cases hstep
  | close =>
      obtain ⟨-, ⟨-, rfl⟩ | ⟨-, rfl⟩⟩ := close_cases hstep
      · exact le_rfl
      · exact le_rfl

theorem onward_step {autoreconnect : Bool} {action : Action} (h : Exact stored s)
    (hstep : s.step autoreconnect action = some s') : Onward s s' :=
  ⟨log_effect (effect_step hstep), served_step h hstep, closed_effect (effect_step hstep)⟩

end ViewTable

end Goka
