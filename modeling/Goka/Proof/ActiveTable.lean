import Goka.ActiveTable
import Goka.Proof.Context
import Goka.Proof.Recovery

/-!
# Restarting an active processor

The storage holds what the calls wrote, the topic what the producer appended. As long as every
message reaches the topic the two agree, and whatever offset is persisted, recovery replays records
over a content that already holds them. A message that is lost leaves the storage ahead of the
topic, and recovery repairs that only where a record of the same key happens to be replayed.
-/

namespace Goka

open KeyedLog Schedule

namespace TopicLog

def Backed (log : TopicLog) (v : Int) : Prop := 0 ≤ v ∧ ∃ r ∈ log.records, v ≤ r.offset

variable {log log' : TopicLog} {v : Int}

theorem Backed.lt_newest (h : log.Backed v) : v < log.newest := by
  obtain ⟨-, r, hr, hle⟩ := h
  exact hle.trans_lt (log.lt_newest r hr)

theorem Backed.mono (h : log.Backed v) (hrecords : ∀ r ∈ log.records, r ∈ log'.records) :
    log'.Backed v := by
  obtain ⟨hnonneg, r, hr, hle⟩ := h
  exact ⟨hnonneg, r, hrecords r hr, hle⟩

theorem Backed.fits (h : log.Backed v) : -2 ^ 63 ≤ v ∧ v < 2 ^ 63 := by
  have hlt := h.lt_newest
  have hfits := log.fits
  have hnonneg := h.1
  constructor <;> omega

theorem backed_of_mem {r : TableRecord} (hr : r ∈ log.records) : log.Backed r.offset :=
  ⟨log.nonneg.trans (log.oldest_le r hr), r, hr, le_rfl⟩

end TopicLog

/-- The table has been recovered: its storage holds the fold of the topic, and every offset that is
persisted, or may still be, is backed by a record. -/
structure Recovered (log : TopicLog) (st : Storage) (sync : Option Int) : Prop where
  keys : ∀ r ∈ log.records, r.key ≠ offsetKey
  content : st.db.content = fold log.records
  recovered : st.recovered = true
  stored : ∃ stored, Storage.Persisted st.db stored ∧ ∀ v ∈ stored, log.Backed v
  pending : ∀ v ∈ st.offset :: sync.toList, v = 0 ∨ log.Backed v

/-- A recovery from nothing that has consumed all of its topic leaves a recovered table. -/
theorem System.recovered_of_consumedToHwm {log : TopicLog} {topic : String} {partition : Nat}
    {s : System} (hkeys : ∀ r ∈ log.records, r.key ≠ offsetKey)
    (hreach : Reaches System.step (System.init topic partition log) s) (hconsumed : s.ConsumedToHwm)
    (hall : s.table.log.newest ≤ max s.table.hwm s.table.cursor)
    (hrecovered : s.st.recovered = true) :
    Recovered s.table.log s.st s.sync := by
  obtain ⟨c, h⟩ : ∃ c, Inv (.empty log) s c := by
    obtain ⟨actions, rfl⟩ := hreach
    exact inv_run (inv_init topic partition hkeys) actions
  have hbacked : ∀ v, Covered (.empty log) s c v → s.table.log.Backed v := by
    rintro v ⟨hnonneg, -, ⟨r, hr, hle⟩, -⟩
    exact ⟨hnonneg, r, h.applied r hr, hle⟩
  refine ⟨h.keys, ?_, hrecovered, ?_, fun v hv => (h.pending v ?_).imp_right (hbacked v)⟩
  · rw [h.content_eq_fold hconsumed, below_of_forall_lt]
    exact fun r hr => (s.table.log.lt_newest r hr).trans_le hall
  · obtain ⟨stored, hpersisted, hbelow, -⟩ := h.stored
    exact ⟨stored, hpersisted, fun v hv => hbacked v (hbelow v hv)⟩
  · simp only [System.pending, List.mem_cons, List.mem_append] at hv ⊢
    tauto

namespace ActiveTable

variable {α Callback : Type} {env : Env α Callback} {s s' : ActiveTable} {log₀ : TopicLog}
  {table table' : GroupTable}

/-! ### What a call does -/

def Encodes (env : Env α Callback) (data : Option Bytes) : Prop :=
  ∃ groupTable codec v, env.graph.theGroupTable = some groupTable ∧ groupTable.codec = some codec ∧
    codec.encode (some v) = (data, none)

def encodedValue (env : Env α Callback) (value : Option α) : Option Bytes := do
  let groupTable ← env.graph.theGroupTable
  let codec ← groupTable.codec
  let v ← value
  (codec.encode (some v)).1

/-- A call that gives an error has left the table and the queue alone. Any other has written the
bytes it hands over. -/
theorem setValueForKey_effect (env : Env α Callback) {op : OpState GroupTable}
    (htable : op.table = some table) (key : Bytes) (value : Option α) (hdr : Headers) :
    let (result, op') := (Op.setValueForKey env key value hdr).run op
    (result ≠ .ok none ∧ op'.table = some table ∧ op'.emitted = op.emitted) ∨
      ∃ topic data, Encodes env data ∧ encodedValue env value = data ∧
        op'.table = some { table with st := table.st.defaultUpdate key (some (data.getD [])) } ∧
        op'.emitted = op.emitted ++ [⟨topic, key, data, hdr, op.failing⟩] := by
  obtain ⟨ctx, _, emitted, cancelled, rerr, failing⟩ := op
  obtain rfl : _ = some table := htable
  unfold Op.setValueForKey
  cases hgroupTable : env.graph.theGroupTable with
  | none => exact .inl ⟨nofun, rfl, rfl⟩
  | some groupTable =>
      cases value with
      | none => exact .inl ⟨nofun, rfl, rfl⟩
      | some v =>
          cases hcodec : groupTable.codec with
          | none => simp only [hcodec]; exact .inl ⟨nofun, rfl, rfl⟩
          | some codec =>
              cases hencode : codec.encode (some v) with
              | mk data err =>
                  cases err with
                  | some err => simp only [hcodec, hencode]; exact .inl ⟨nofun, rfl, rfl⟩
                  | none =>
                      simp only [hcodec, hencode]
                      refine .inr ⟨groupTable.name, data,
                        ⟨groupTable, codec, v, hgroupTable, hcodec, hencode⟩, ?_, rfl, rfl⟩
                      simp [encodedValue, hgroupTable, hcodec, hencode]

theorem deleteKey_effect (env : Env α Callback) {op : OpState GroupTable}
    (htable : op.table = some table) (key : Bytes) (hdr : Headers) :
    let (result, op') := (Op.deleteKey env key hdr).run op
    (result ≠ .ok none ∧ op'.table = some table ∧ op'.emitted = op.emitted) ∨
      ∃ topic, op'.table = some { table with st := table.st.defaultUpdate key none } ∧
        op'.emitted = op.emitted ++ [⟨topic, key, none, hdr, op.failing⟩] := by
  obtain ⟨ctx, _, emitted, cancelled, rerr, failing⟩ := op
  obtain rfl : _ = some table := htable
  unfold Op.deleteKey
  cases env.graph.theGroupTable with
  | none => exact .inl ⟨nofun, rfl, rfl⟩
  | some groupTable => exact .inr ⟨groupTable.name, rfl, rfl⟩

theorem call_effect_nothing {program : Op GroupTable (Option String)}
    (h : (program.run s.op).2.table = some table ∧ (program.run s.op).2.emitted = s.op.emitted) :
    (s.call program).op.table = some table ∧ (s.call program).queue = s.queue :=
  ⟨h.1, by simp [call, h.2]⟩

theorem call_effect_write {program : Op GroupTable (Option String)} {topic : String} {key : Bytes}
    {stored value : Option Bytes} {hdr : Headers} {failing : Bool}
    (h : (program.run s.op).2.table = some { table with st := table.st.defaultUpdate key stored } ∧
      (program.run s.op).2.emitted = s.op.emitted ++ [⟨topic, key, value, hdr, failing⟩]) :
    (s.call program).op.table = some { table with st := table.st.defaultUpdate key stored } ∧
      (s.call program).queue = s.queue ++ [⟨key, stored, value⟩] :=
  ⟨h.1, by simp [call, h.2, h.1, Storage.get, Storage.defaultUpdate_db]⟩

/-! ### Calls -/

abbrev Call := TableWrite × Option (Except String Int)

def Call.stored (c : Call) : TableRecord := ⟨0, c.1.key, c.1.stored⟩

def Call.record (c : Call) : Option TableRecord :=
  match c.2 with
  | some (.ok offset) => some ⟨offset, c.1.key, c.1.value⟩
  | _ => none

/-- The message of the call is in the topic, and it is what the call has written. -/
def Call.Kept (c : Call) : Prop := (∃ offset, c.2 = some (.ok offset)) ∧ c.1.stored = c.1.value

def lastCall (calls : List Call) (key : Bytes) : Option Call :=
  calls.reverse.find? fun c => c.1.key = key

theorem lastCall_concat (calls : List Call) (c : Call) (key : Bytes) :
    lastCall (calls ++ [c]) key = if c.1.key = key then some c else lastCall calls key := by
  by_cases h : c.1.key = key <;> simp [lastCall, h]

theorem replay_stored (base : Bytes → Option Bytes) (calls : List Call) (key : Bytes) :
    replay base (calls.map Call.stored) key
      = (lastCall calls key).elim (base key) fun c => c.1.stored := by
  induction calls using List.reverseRecOn with
  | nil => rfl
  | append_singleton calls c ih =>
      rw [List.map_append, List.map_singleton, replay_append, replay_singleton, lastCall_concat]
      by_cases hkey : c.1.key = key
      · subst hkey
        rw [if_pos rfl]
        exact apply_self
      · rw [if_neg hkey, apply_of_ne (Ne.symm hkey), ih]

/-- The topic holds what the last call has left, if it has left something. -/
theorem replay_record (base : Bytes → Option Bytes) (calls : List Call) (key : Bytes)
    (h : ∀ c, lastCall calls key = some c → ∃ offset, c.2 = some (.ok offset)) :
    replay base (calls.filterMap Call.record) key
      = (lastCall calls key).elim (base key) fun c => c.1.value := by
  induction calls using List.reverseRecOn with
  | nil => rfl
  | append_singleton calls c ih =>
      rw [List.filterMap_append, replay_append, lastCall_concat]
      rw [lastCall_concat] at h
      by_cases hkey : c.1.key = key
      · rw [if_pos hkey] at h ⊢
        obtain ⟨offset, houtcome⟩ := h c rfl
        subst hkey
        simp only [List.filterMap_cons, Call.record, houtcome, List.filterMap_nil, replay_singleton]
        exact apply_self
      · rw [if_neg hkey] at h ⊢
        rw [← ih h]
        refine replay_of_absent fun r hr => ?_
        obtain ⟨d, hd, hrecord⟩ := List.mem_filterMap.mp hr
        rw [List.mem_singleton.mp hd] at hrecord
        unfold Call.record at hrecord
        split at hrecord
        · rw [← Option.some.inj hrecord]
          exact hkey
        · cases hrecord

def calls (s : ActiveTable) : List Call :=
  s.sent.map (fun d => (d.1, some d.2)) ++ s.queue.map fun write => (write, none)

theorem calls_push {write : TableWrite} (hsent : s'.sent = s.sent)
    (hqueue : s'.queue = s.queue ++ [write]) : s'.calls = s.calls ++ [(write, none)] := by
  simp [calls, hsent, hqueue]

/-- A message that is sent moves from the queue to what was sent, so the calls stay the same. -/
theorem calls_sent (s' : ActiveTable) {write : TableWrite} {queue : List TableWrite}
    {result : Except String Int} (hqueue : s.queue = write :: queue)
    (hsent' : s'.sent = s.sent ++ [(write, result)]) (hqueue' : s'.queue = queue) :
    s'.calls.map Call.stored = s.calls.map Call.stored ∧
      s'.calls.filterMap Call.record
        = s.calls.filterMap Call.record ++ (Call.record (write, some result)).toList := by
  constructor
  · simp [calls, hqueue, hsent', hqueue', Call.stored]
  · have hnone : ∀ queue : List TableWrite,
        (queue.map fun write => ((write, none) : Call)).filterMap Call.record = [] := by
      simp [Call.record]
    simp only [calls, hsent', hqueue', List.map_append, List.filterMap_append, hnone,
      List.append_nil]
    cases hrecord : Call.record (write, some result) <;> simp [hrecord]

/-! ### The invariant -/

def pending (s : ActiveTable) (table : GroupTable) : List Int :=
  table.st.offset :: (s.sync.toList ++ s.closing.toList)

/-- The storage is what the calls made of the recovered table, and the topic what they left in
it. -/
structure Inv (log₀ : TopicLog) (s : ActiveTable) (table : GroupTable) : Prop where
  table_eq : s.op.table = some table
  keys : ∀ r ∈ s.log.records, r.key ≠ offsetKey
  queue_keys : ∀ write ∈ s.queue, write.key ≠ offsetKey
  content : table.st.db.content = replay (fold log₀.records) (s.calls.map Call.stored)
  records : s.log.records = log₀.records ++ s.calls.filterMap Call.record
  ends : log₀.EndsAtRecord → s.log.EndsAtRecord
  stored : ∃ stored, Storage.Persisted table.st.db stored ∧ ∀ v ∈ stored, s.log.Backed v
  pending : ∀ v ∈ s.pending table, v = 0 ∨ s.log.Backed v

/-- Offsets move in the storage, and the content stays. -/
theorem Inv.of_storage (h : Inv log₀ s table) (htable : s'.op.table = some table')
    (hsame : s'.log = s.log ∧ s'.sent = s.sent ∧ s'.queue = s.queue)
    (hcontent : table'.st.db.content = table.st.db.content)
    (hstored : ∃ stored, Storage.Persisted table'.st.db stored ∧ ∀ v ∈ stored, s.log.Backed v)
    (hpending : ∀ v ∈ s'.pending table', v = 0 ∨ s.log.Backed v) : Inv log₀ s' table' := by
  obtain ⟨hlog, hsent, hqueue⟩ := hsame
  have hcalls : s'.calls = s.calls := by rw [calls, hsent, hqueue, calls]
  constructor
  · exact htable
  · rw [hlog]; exact h.keys
  · rw [hqueue]; exact h.queue_keys
  · rw [hcontent, hcalls]; exact h.content
  · rw [hlog, hcalls]; exact h.records
  · rw [hlog]; exact h.ends
  · rw [hlog]; exact hstored
  · rw [hlog]; exact hpending

theorem stored_of_backed {log : TopicLog} {v : Int} (hbacked : log.Backed v) (st : Storage) :
    ∃ stored, Storage.Persisted (st.putOffset v).db stored ∧ ∀ w ∈ stored, log.Backed w := by
  refine ⟨some v, Storage.Persisted.putOffset hbacked.fits.1 hbacked.fits.2, fun w hw => ?_⟩
  rw [← Option.some.inj hw]
  exact hbacked

theorem Inv.of_putLoaded (h : Inv log₀ s table) {v : Int} (hv : v ∈ s.pending table)
    (htable : s'.op.table = some { table with st := table.st.putLoaded v })
    (hsame : s'.log = s.log ∧ s'.sent = s.sent ∧ s'.queue = s.queue)
    (hless : ∀ w ∈ s'.pending { table with st := table.st.putLoaded v }, w ∈ s.pending table) :
    ∃ table', Inv log₀ s' table' := by
  refine ⟨_, h.of_storage htable hsame (Storage.content_putLoaded v) ?_
    fun w hw => h.pending w (hless w hw)⟩
  dsimp only
  unfold Storage.putLoaded
  split
  · rename_i hne
    exact stored_of_backed ((h.pending v hv).resolve_left hne) table.st
  · exact h.stored

theorem Inv.of_load (h : Inv log₀ s table) (htable : s'.op.table = s.op.table)
    (hsame : s'.log = s.log ∧ s'.sent = s.sent ∧ s'.queue = s.queue)
    (hless : ∀ v ∈ s'.pending table, v ∈ s.pending table) : ∃ table', Inv log₀ s' table' :=
  ⟨table, h.of_storage (htable.trans h.table_eq) hsame rfl h.stored fun v hv =>
    h.pending v (hless v hv)⟩

theorem Inv.call (h : Inv log₀ s table) {program : Op GroupTable (Option String)} {key : Bytes}
    {stored value : Option Bytes} (hkey : key ≠ offsetKey)
    (heffect : (s.call program).op.table
        = some { table with st := table.st.defaultUpdate key stored } ∧
      (s.call program).queue = s.queue ++ [⟨key, stored, value⟩]) :
    Inv log₀ (s.call program) { table with st := table.st.defaultUpdate key stored } := by
  obtain ⟨htable, hqueue⟩ := heffect
  have hcalls : (s.call program).calls = s.calls ++ [(⟨key, stored, value⟩, none)] :=
    calls_push rfl hqueue
  refine ⟨htable, h.keys, ?_, ?_, ?_, h.ends, ?_, ?_⟩
  · intro write hwrite
    rw [hqueue] at hwrite
    rcases List.mem_append.mp hwrite with hwrite | hwrite
    · exact h.queue_keys write hwrite
    · rw [List.mem_singleton.mp hwrite]
      exact hkey
  · have hrecord : (⟨0, key, stored⟩ : TableRecord).key ≠ offsetKey := hkey
    have happly := Storage.content_defaultUpdate table.st hrecord
    rw [hcalls, List.map_append, replay_append, ← h.content]
    exact happly
  · rw [hcalls, List.filterMap_append]
    exact h.records.trans (by simp [Call.record])
  · obtain ⟨offset, ⟨hdb, hrange⟩, hbacked⟩ := h.stored
    refine ⟨offset, ⟨?_, hrange⟩, hbacked⟩
    exact (Storage.defaultUpdate_offsetKey hkey stored).trans hdb
  · intro v hv
    have hv' : v ∈ (table.st.defaultUpdate key stored).offset
        :: (s.sync.toList ++ s.closing.toList) := hv
    rw [Storage.defaultUpdate_offset] at hv'
    exact h.pending v hv'

/-- The message becomes the last record of the topic, with its offset backed by it. -/
theorem Inv.produce (h : Inv log₀ s table) {offset : Int} (hstep : s.produce offset = some s') :
    Inv log₀ s' table := by
  unfold ActiveTable.produce at hstep
  split at hstep
  · cases hstep
  · rename_i write queue hqueue
    obtain ⟨log, happend, rfl⟩ := Option.map_eq_some_iff.mp hstep
    obtain ⟨-, hrecords, -, -⟩ := TopicLog.append_eq_some happend
    have hgrown : ∀ r ∈ s.log.records, r ∈ log.records := fun r hr => by
      rw [hrecords]
      exact List.mem_append_left _ hr
    obtain ⟨hstored, hrecord⟩ := calls_sent
      { s with log := log, queue := queue, sent := s.sent ++ [(write, .ok offset)] } hqueue rfl rfl
    constructor
    · exact h.table_eq
    · have hwrite := h.queue_keys write (by rw [hqueue]; exact List.mem_cons_self ..)
      exact TopicLog.forall_append happend h.keys hwrite
    · exact fun w hw => h.queue_keys w (by rw [hqueue]; exact List.mem_cons_of_mem _ hw)
    · rw [hstored]
      exact h.content
    · rw [hrecord]
      dsimp only
      rw [hrecords, h.records, List.append_assoc]
      rfl
    · exact fun _ => .append happend
    · obtain ⟨stored, hpersisted, hbacked⟩ := h.stored
      exact ⟨stored, hpersisted, fun v hv => (hbacked v hv).mono hgrown⟩
    · exact fun v hv => (h.pending v hv).imp_right fun hbacked => hbacked.mono hgrown

theorem Inv.produceFails (h : Inv log₀ s table) {err : String}
    (hstep : s.produceFails err = some s') :
    Inv log₀ s' table := by
  unfold ActiveTable.produceFails at hstep
  split at hstep
  · cases hstep
  · rename_i write queue hqueue
    obtain rfl := Option.some.inj hstep
    obtain ⟨hstored, hrecord⟩ := calls_sent
      { s with queue := queue, sent := s.sent ++ [(write, .error err)] } hqueue rfl rfl
    refine ⟨h.table_eq, h.keys, ?_, ?_, ?_, h.ends, h.stored, h.pending⟩
    · exact fun w hw => h.queue_keys w (by rw [hqueue]; exact List.mem_cons_of_mem _ hw)
    · rw [hstored]
      exact h.content
    · rw [hrecord]
      exact h.records.trans (by simp [Call.record])

theorem Inv.backed_sent (h : Inv log₀ s table) {write : TableWrite} {offset : Int}
    (hsent : (write, .ok offset) ∈ s.sent) : s.log.Backed offset := by
  refine TopicLog.backed_of_mem (r := ⟨offset, write.key, write.value⟩) ?_
  rw [h.records]
  refine List.mem_append_right _ (List.mem_filterMap.mpr ⟨(write, some (.ok offset)), ?_, rfl⟩)
  exact List.mem_append_left _ (List.mem_map.mpr ⟨_, hsent, rfl⟩)

theorem storeNewestOffset_cases (table : GroupTable) (offset : Int) :
    (storeNewestOffset table offset).2 = table ∨
      (storeNewestOffset table offset).2 = { table with st := table.st.setOffset offset } := by
  unfold storeNewestOffset
  split
  · exact .inl rfl
  · split
    · exact .inr rfl
    · exact .inl rfl

/-- A resolution changes nothing in the table but the offset, and sets the one it has come with. -/
theorem resolve_table {ctx ctx' : CbContext} {index : Nat} {offset : Option Int}
    {err : Option String} {table'' : Option GroupTable}
    (h : ctx.resolve (some table) index offset err = some (ctx', table'')) :
    table'' = some table ∨ ∃ v, offset = some v ∧ table'' = some (storeNewestOffset table v).2 := by
  rcases CbContext.resolve_cases h with ⟨-, rfl, -⟩ | ⟨handout, -, -, rfl⟩
  · exact .inl rfl
  · cases handout with
    | setValue =>
        cases err with
        | some err => exact .inl rfl
        | none =>
            cases offset with
            | none => exact .inl rfl
            | some v => exact .inr ⟨v, rfl, rfl⟩
    | _ => exact .inl rfl

theorem Inv.setOffset (h : Inv log₀ s table) {offset : Int} (hbacked : s.log.Backed offset)
    (htable : s'.op.table = some { table with st := table.st.setOffset offset })
    (hsame : s'.log = s.log ∧ s'.sent = s.sent ∧ s'.queue = s.queue)
    (hsync : s'.sync = s.sync ∧ s'.closing = s.closing) :
    ∃ table', Inv log₀ s' table' := by
  refine ⟨_, h.of_storage htable hsame ?_ ?_ ?_⟩
  · exact Storage.content_putIfRecovered offset
  · dsimp only
    unfold Storage.setOffset Storage.putIfRecovered
    split
    · exact stored_of_backed hbacked _
    · exact h.stored
  · intro v hv
    rw [ActiveTable.pending, hsync.1, hsync.2] at hv
    rcases List.mem_cons.mp hv with rfl | hv
    · refine .inr ?_
      simpa [Storage.setOffset, Storage.storeOffset] using hbacked
    · exact h.pending v (List.mem_cons_of_mem _ hv)

theorem Inv.acknowledge (h : Inv log₀ s table) {index : Nat}
    (hstep : s.acknowledge index = some s') : ∃ table', Inv log₀ s' table' := by
  unfold ActiveTable.acknowledge at hstep
  split at hstep
  · cases hstep
  · rename_i write result hsent
    obtain ⟨⟨ctx, table'⟩, hresolve, rfl⟩ := Option.map_eq_some_iff.mp hstep
    rw [h.table_eq] at hresolve
    rcases resolve_table hresolve with rfl | ⟨offset, hoffset, rfl⟩
    · exact ⟨table, h.of_storage rfl ⟨rfl, rfl, rfl⟩ rfl h.stored h.pending⟩
    · have hbacked : s.log.Backed offset := by
        cases result with
        | error err => cases hoffset
        | ok v =>
            obtain rfl := Option.some.inj hoffset
            exact h.backed_sent (List.mem_of_getElem? hsent)
      rcases storeNewestOffset_cases table offset with hstored | hstored
      · exact ⟨table, h.of_storage (congrArg some hstored) ⟨rfl, rfl, rfl⟩ rfl h.stored h.pending⟩
      · exact h.setOffset hbacked (congrArg some hstored) ⟨rfl, rfl, rfl⟩ ⟨rfl, rfl⟩

/-- The reserved key is left to the storage itself, so no call may be about it. -/
theorem inv_step {action : Action α} (h : ∃ table, Inv log₀ s table)
    (hkey : action.key ≠ some offsetKey) (hstep : s.step env action = some s') :
    ∃ table', Inv log₀ s' table' := by
  obtain ⟨table, h⟩ := h
  cases action with
  | setValue key value hdr =>
      obtain rfl := Option.some.inj hstep
      have hkey' : key ≠ offsetKey := fun heq => hkey (congrArg some heq)
      rcases setValueForKey_effect env h.table_eq key value hdr with
        ⟨-, heffect⟩ | ⟨topic, data, -, -, heffect⟩
      · obtain ⟨htable, hqueue⟩ := call_effect_nothing heffect
        exact ⟨table, h.of_storage htable ⟨rfl, rfl, hqueue⟩ rfl h.stored h.pending⟩
      · exact ⟨_, h.call hkey' (call_effect_write heffect)⟩
  | delete key hdr =>
      obtain rfl := Option.some.inj hstep
      have hkey' : key ≠ offsetKey := fun heq => hkey (congrArg some heq)
      rcases deleteKey_effect env h.table_eq key hdr with ⟨-, heffect⟩ | ⟨topic, heffect⟩
      · obtain ⟨htable, hqueue⟩ := call_effect_nothing heffect
        exact ⟨table, h.of_storage htable ⟨rfl, rfl, hqueue⟩ rfl h.stored h.pending⟩
      · exact ⟨_, h.call hkey' (call_effect_write heffect)⟩
  | produce offset => exact ⟨table, h.produce hstep⟩
  | produceFails err => exact ⟨table, h.produceFails hstep⟩
  | acknowledge index => exact h.acknowledge hstep
  | syncLoad =>
      simp only [step, h.table_eq, Option.map_some, Option.some.injEq] at hstep
      subst hstep
      refine h.of_load rfl ⟨rfl, rfl, rfl⟩ fun v hv => ?_
      simp only [pending, Option.toList_some, List.mem_cons, List.mem_append] at hv ⊢
      tauto
  | syncPut =>
      obtain ⟨curOffset, hsync, rfl⟩ := Option.map_eq_some_iff.mp hstep
      refine h.of_putLoaded (v := curOffset) (by simp [pending, hsync]) ?_ ⟨rfl, rfl, rfl⟩ ?_
      · simp [putLoaded, h.table_eq]
      · intro w hw
        simp only [pending, putLoaded, Storage.putLoaded_offset, Option.toList_none,
          List.nil_append, List.mem_cons, List.mem_append] at hw ⊢
        tauto
  | closeLoad =>
      simp only [step, h.table_eq, Option.map_some, Option.some.injEq] at hstep
      subst hstep
      refine h.of_load rfl ⟨rfl, rfl, rfl⟩ fun v hv => ?_
      simp only [pending, Option.toList_some, List.mem_cons, List.mem_append] at hv ⊢
      tauto
  | closePut =>
      obtain ⟨curOffset, hclosing, rfl⟩ := Option.map_eq_some_iff.mp hstep
      refine h.of_putLoaded (v := curOffset) (by simp [pending, hclosing]) ?_ ⟨rfl, rfl, rfl⟩ ?_
      · simp [putLoaded, h.table_eq]
      · intro w hw
        simp only [pending, putLoaded, Storage.putLoaded_offset, Option.toList_none,
          List.append_nil, List.mem_cons, List.mem_append] at hw ⊢
        tauto

theorem inv_start (msg : Message) {sync : Option Int} (h : Recovered log₀ table.st sync) :
    Inv log₀ (start msg table log₀ sync) table where
  table_eq := rfl
  keys := h.keys
  queue_keys := nofun
  content := h.content
  records := by simp [start, calls]
  ends := id
  stored := h.stored
  pending := fun v hv => h.pending v (by simpa [pending, start] using hv)

theorem inv_run (msg : Message) {sync : Option Int} (h : Recovered log₀ table.st sync)
    {actions : List (Action α)} (hkeys : ∀ action ∈ actions, action.key ≠ some offsetKey) :
    ∃ table', Inv log₀ (run (fun s => s.step env) (start msg table log₀ sync) actions) table' := by
  have hstep : ∀ (s : ActiveTable) (action : Action α) (s' : ActiveTable),
      (∃ table, Inv log₀ s table) → action.key ≠ some offsetKey → s.step env action = some s' →
      ∃ table, Inv log₀ s' table := fun _ _ _ => inv_step
  exact run_invariant_of_allowed (fun _ action => action.key ≠ some offsetKey) hstep
    ⟨table, inv_start msg h⟩ fun t ht => hkeys _ (mem_actions_of_mem_transitions ht)

/-! ### Restarting -/

theorem Inv.db_eq (h : Inv log₀ s table) : s.db = table.st.db := by
  unfold db
  rw [h.table_eq]

theorem Inv.exists_persisted (h : Inv log₀ s table) :
    ∃ stored, Storage.Persisted s.db stored ∧ ∀ v ∈ stored, s.log.Backed v := by
  rw [h.db_eq]
  exact h.stored

/-- What the topic gives a key whose last call, if there is one, has left its message there. -/
theorem Inv.fold_records (h : Inv log₀ s table) {key : Bytes}
    (hlast : ∀ c, lastCall s.calls key = some c → ∃ offset, c.2 = some (.ok offset)) :
    fold s.log.records key
      = (lastCall s.calls key).elim (fold log₀.records key) fun c => c.1.value := by
  rw [h.records, fold, replay_append]
  exact replay_record _ _ _ hlast

theorem Inv.content_eq (h : Inv log₀ s table) (key : Bytes) :
    s.db.content key
      = (lastCall s.calls key).elim (fold log₀.records key) fun c => c.1.stored := by
  rw [h.db_eq, h.content]
  exact replay_stored _ _ _

/-- What is left of the processor after a crash or after `Close`. -/
def crashed (s : ActiveTable) (topic : String) (partition : Nat) : System :=
  .down topic partition s.log s.db s.log.records

/-- A key is right after recovery if its last call was kept, if a record of it was replayed or if
the topic gives it what the call has written. -/
theorem Inv.recovery_iff (h : Inv log₀ s table) {stored : Option Int}
    (hpersisted : Storage.Persisted s.db stored) (hbacked : ∀ v ∈ stored, s.log.Backed v)
    (topic : String) (partition : Nat) (recovery : List System.Action) :
    let s' := run System.step (s.crashed topic partition) recovery
    let hwm := max s'.table.hwm s'.table.cursor
    s'.ConsumedToHwm →
      (s'.st.db.content = fold (below s'.table.log.records hwm) ↔
        ∀ key c, lastCall s.calls key = some c → ¬ c.Kept →
          (∃ r ∈ slice s'.table.log.records (System.loadStart s.log.oldest stored) hwm, r.key
            = key) ∨
            c.1.stored = fold (below s'.table.log.records hwm) key) := by
  intro s' hwm hconsumed
  have hdown := System.inv_down topic partition h.keys (fun _ => id) hpersisted hbacked
  obtain ⟨position, hrun⟩ := System.inv_run hdown recovery
  have hreached : s.log.newest ≤ hwm := by
    have hreach : s'.reach = hwm := if_pos hconsumed.1
    rw [← hreach]
    exact hrun.reached
  have hstart : System.loadStart s.log.oldest stored ≤ s.log.newest := hdown.le_newest
  have hordered := s'.table.log.ordered
  -- where nothing is replayed, the topic has not changed since the crash
  have hunchanged : ∀ key, (∀ r ∈ slice s'.table.log.records
        (System.loadStart s.log.oldest stored) hwm, r.key ≠ key) →
      fold (below s'.table.log.records hwm) key = fold s.log.records key := by
    intro key habsent
    rw [fold_below_of_absent hordered hreached fun r hr => ?_]
    · exact congrFun (congrArg fold hrun.grown) key
    · obtain ⟨hmem, hle, hlt⟩ := mem_slice.mp hr
      exact habsent r (mem_slice.mpr ⟨hmem, hstart.trans hle, hlt⟩)
  have hcontent : s'.st.db.content = replay s.db.content
      (slice s'.table.log.records (System.loadStart s.log.oldest stored) hwm) :=
    System.content_of_consumedToHwm hrun hconsumed
  rw [hcontent, replay_slice_eq_fold_iff hordered (hstart.trans hreached)]
  constructor
  · intro hkeys key c hlast _
    by_cases hpresent : ∃ r ∈ slice s'.table.log.records
        (System.loadStart s.log.oldest stored) hwm, r.key = key
    · exact .inl hpresent
    · have hkey := hkeys key fun r hr heq => hpresent ⟨r, hr, heq⟩
      rw [h.content_eq, hlast] at hkey
      exact .inr hkey
  · intro hcalls key habsent
    by_cases hlost : ∃ c, lastCall s.calls key = some c ∧ ¬ c.Kept
    · obtain ⟨c, hlast, hnot⟩ := hlost
      rcases hcalls key c hlast hnot with ⟨r, hr, heq⟩ | hvalue
      · exact absurd heq (habsent r hr)
      · rw [h.content_eq, hlast]
        exact hvalue
    · have hkept : ∀ c, lastCall s.calls key = some c → c.Kept := by
        intro c hlast
        by_contra hnot
        exact hlost ⟨c, hlast, hnot⟩
      rw [hunchanged key habsent, h.content_eq, h.fold_records fun c hlast => (hkept c hlast).1]
      cases hlast : lastCall s.calls key with
      | none => rfl
      | some c => exact (hkept c hlast).2

/-- The codec of the group table never gives nil bytes. -/
def NeverNil (env : Env α Callback) : Prop := ∀ data, Encodes env data → data ≠ none

/-- Every message is what its call has written, and none was lost. -/
structure Lossless (s : ActiveTable) : Prop where
  sent : ∀ d ∈ s.sent, d.1.stored = d.1.value ∧ ∃ offset, d.2 = .ok offset
  queue : ∀ write ∈ s.queue, write.stored = write.value

theorem Lossless.kept (h : Lossless s) (hqueue : s.queue = []) {key : Bytes} {c : Call}
    (hlast : lastCall s.calls key = some c) : c.Kept := by
  have hmem : c ∈ s.calls := List.mem_reverse.mp (List.mem_of_find?_eq_some hlast)
  rw [calls, hqueue, List.map_nil, List.append_nil] at hmem
  obtain ⟨d, hd, rfl⟩ := List.mem_map.mp hmem
  obtain ⟨hsame, offset, hoffset⟩ := h.sent d hd
  exact ⟨⟨offset, congrArg some hoffset⟩, hsame⟩

theorem Lossless.push (h : Lossless s) {write : TableWrite} (hsame : write.stored = write.value)
    (hsent : s'.sent = s.sent) (hqueue : s'.queue = s.queue ++ [write]) : Lossless s' := by
  refine ⟨by rw [hsent]; exact h.sent, fun w hw => ?_⟩
  rw [hqueue] at hw
  rcases List.mem_append.mp hw with hw | hw
  · exact h.queue w hw
  · rw [List.mem_singleton.mp hw]
    exact hsame

theorem Lossless.frame (h : Lossless s) (hsent : s'.sent = s.sent) (hqueue : s'.queue = s.queue) :
    Lossless s' :=
  ⟨by rw [hsent]; exact h.sent, by rw [hqueue]; exact h.queue⟩

theorem lossless_step {action : Action α} (hcodec : NeverNil env)
    (hsends : ∀ err, action ≠ .produceFails err) (htable : s.op.table = some table)
    (h : Lossless s) (hstep : s.step env action = some s') : Lossless s' := by
  cases action with
  | setValue key value hdr =>
      obtain rfl := Option.some.inj hstep
      rcases setValueForKey_effect env htable key value hdr with
        ⟨-, heffect⟩ | ⟨topic, data, hencodes, -, heffect⟩
      · exact h.frame rfl (call_effect_nothing heffect).2
      · obtain ⟨bytes, rfl⟩ := Option.ne_none_iff_exists'.mp (hcodec data hencodes)
        exact h.push rfl rfl (call_effect_write heffect).2
  | delete key hdr =>
      obtain rfl := Option.some.inj hstep
      rcases deleteKey_effect env htable key hdr with ⟨-, heffect⟩ | ⟨topic, heffect⟩
      · exact h.frame rfl (call_effect_nothing heffect).2
      · exact h.push rfl rfl (call_effect_write heffect).2
  | produce offset =>
      simp only [step, produce] at hstep
      split at hstep
      · cases hstep
      · rename_i write queue hqueue
        obtain ⟨log, -, rfl⟩ := Option.map_eq_some_iff.mp hstep
        have hsame := h.queue write (by rw [hqueue]; exact List.mem_cons_self ..)
        refine ⟨fun d hd => ?_, fun w hw => h.queue w ?_⟩
        · rcases List.mem_append.mp hd with hd | hd
          · exact h.sent d hd
          · rw [List.mem_singleton.mp hd]
            exact ⟨hsame, offset, rfl⟩
        · rw [hqueue]
          exact List.mem_cons_of_mem _ hw
  | produceFails err => exact absurd rfl (hsends err)
  | acknowledge index =>
      simp only [step, acknowledge] at hstep
      split at hstep
      · cases hstep
      · obtain ⟨⟨ctx, table'⟩, -, rfl⟩ := Option.map_eq_some_iff.mp hstep
        exact h.frame rfl rfl
  | syncLoad | syncPut | closeLoad | closePut =>
      obtain ⟨_, -, rfl⟩ := Option.map_eq_some_iff.mp hstep
      exact h.frame rfl rfl

/-- With such a codec and a producer that loses nothing, the topic gets what the storage has. -/
theorem lossless_run (msg : Message) {sync : Option Int} (h : Recovered log₀ table.st sync)
    (hcodec : NeverNil env) {actions : List (Action α)}
    (hkeys : ∀ action ∈ actions, action.key ≠ some offsetKey)
    (hsends : ∀ err, .produceFails err ∉ actions) :
    Lossless (run (fun s => s.step env) (start msg table log₀ sync) actions) := by
  have hstep : ∀ (s : ActiveTable) (action : Action α) (s' : ActiveTable),
      ((∃ table, Inv log₀ s table) ∧ Lossless s) →
      (action.key ≠ some offsetKey ∧ ∀ err, action ≠ .produceFails err) →
      s.step env action = some s' → (∃ table, Inv log₀ s' table) ∧ Lossless s' := by
    rintro s action s' ⟨⟨table, hinv⟩, hlossless⟩ ⟨hkey, hsend⟩ hstep
    exact ⟨inv_step ⟨table, hinv⟩ hkey hstep,
      lossless_step hcodec hsend hinv.table_eq hlossless hstep⟩
  have hinit : (∃ table', Inv log₀ (start msg table log₀ sync) table') ∧
      Lossless (start msg table log₀ sync) := ⟨⟨table, inv_start msg h⟩, nofun, nofun⟩
  have hallowed : ∀ t ∈ transitions (fun s => s.step env) (start msg table log₀ sync) actions,
      t.2.1.key ≠ some offsetKey ∧ ∀ err, t.2.1 ≠ .produceFails err := by
    intro t ht
    have hmem := mem_actions_of_mem_transitions ht
    exact ⟨hkeys _ hmem, fun err heq => hsends err (heq ▸ hmem)⟩
  exact (run_invariant_of_allowed _ hstep hinit hallowed).2

/-- A processor whose messages all reach the topic keeps the stored offset below the high watermark.
Killed or closed at any moment after the last append, it is recovered from its storage: a load that
has consumed up to its high watermark leaves exactly the fold of the topic, and an undisturbed one
gets there and makes the table readable. -/
theorem restart_recovers (env : Env α Callback) (msg : Message) (table : GroupTable)
    (log : TopicLog) (sync : Option Int) (hrecovered : Recovered log table.st sync)
    (hcodec : NeverNil env) (actions : List (Action α))
    (hkeys : ∀ action ∈ actions, action.key ≠ some offsetKey)
    (hsends : ∀ err, .produceFails err ∉ actions) (topic : String) (partition : Nat) :
    let s := run (fun s => s.step env) (start msg table log sync) actions
    (∃ stored, Storage.Persisted s.db stored ∧ ∀ v ∈ stored, v < s.log.newest) ∧
      (s.queue = [] →
        (∀ recovery, let s' := run System.step (s.crashed topic partition) recovery
          s'.ConsumedToHwm → s'.st.db.content
            = fold (below s'.table.log.records (max s'.table.hwm s'.table.cursor))) ∧
        (log.EndsAtRecord → ∃ s' s'', Reaches System.step (s.crashed topic partition) s' ∧
          s'.ConsumedToHwm ∧ s'.step .marked = some s'' ∧ s''.table.readyToRead = .ok () ∧
          s''.st.db.content = fold s.log.records)) := by
  intro s
  obtain ⟨table', hinv⟩ : ∃ table', Inv log s table' := inv_run msg hrecovered hkeys
  obtain ⟨stored, hpersisted, hbacked⟩ := hinv.exists_persisted
  have hlossless : Lossless s := lossless_run msg hrecovered hcodec hkeys hsends
  refine ⟨⟨stored, hpersisted, fun v hv => (hbacked v hv).lt_newest⟩, fun hqueue => ?_⟩
  have hlaw : ∀ recovery, let s' := run System.step (s.crashed topic partition) recovery
      s'.ConsumedToHwm → s'.st.db.content
        = fold (below s'.table.log.records (max s'.table.hwm s'.table.cursor)) := by
    intro recovery s' hconsumed
    refine (hinv.recovery_iff hpersisted hbacked topic partition recovery hconsumed).mpr ?_
    exact fun key c hlast hlost => absurd (hlossless.kept hqueue hlast) hlost
  refine ⟨hlaw, fun hends => ?_⟩
  have hbounds : ∀ v ∈ stored, 0 ≤ v ∧ v < s.log.newest := fun v hv =>
    ⟨(hbacked v hv).1, (hbacked v hv).lt_newest⟩
  obtain ⟨s', ⟨recovery, rfl⟩, hconsumed, hlog, hhwm, -, s'', hmarked, hready, hst⟩ :=
    System.exists_recovery topic partition s.log.records hpersisted hbounds (hinv.ends hends)
  refine ⟨_, s'', ⟨recovery, rfl⟩, hconsumed, hmarked, hready, ?_⟩
  rw [hst]
  refine (hlaw recovery hconsumed).trans (congrArg fold ?_)
  rw [crashed, hlog, hhwm]
  exact below_of_forall_lt fun r hr => (s.log.lt_newest r hr).trans_le (le_max_left ..)

open ContextRun (rawEnv emptyTable)

theorem recovered_empty : Recovered .empty emptyTable.st none where
  keys := nofun
  content := by
    funext key
    simp [emptyTable, Storage.new, Database.content, TopicLog.empty, fold]
  recovered := rfl
  stored := ⟨none, ⟨rfl, nofun⟩, nofun⟩
  pending := by simp [emptyTable, Storage.new]

theorem neverNil_raw : NeverNil rawEnv := by
  rintro data ⟨groupTable, codec, v, hgroupTable, hcodec, hencode⟩ rfl
  cases hgroupTable
  cases hcodec
  cases hencode

def anyMessage : Message := ⟨"in", 0, 0, [97], some []⟩

def twoKeys : List (Action Bytes) :=
  [.setValue [97] (some [1]) none, .setValue [98] (some [2]) none, .produce 0, .delete [97] none,
    .produce 1, .produce 2, .acknowledge 1, .acknowledge 2, .acknowledge 0]

theorem restart_recovers_two_keys :
    let s := run (fun s => s.step rawEnv) (start anyMessage emptyTable .empty none) twoKeys
    s.log.records = [⟨0, [97], some [1]⟩, ⟨1, [98], some [2]⟩, ⟨2, [97], none⟩] ∧
      ∃ s' s'', Reaches System.step (s.crashed "g-table" 0) s' ∧ s'.ConsumedToHwm ∧
        s'.step .marked = some s'' ∧ s''.table.readyToRead = .ok () ∧
        s''.st.db.content = fold s.log.records := by
  refine ⟨by decide +kernel, ?_⟩
  have h := restart_recovers rawEnv anyMessage emptyTable .empty none recovered_empty neverNil_raw
    twoKeys (by decide) (by simp [twoKeys]) "g-table" 0
  exact (h.2 rfl).2 (.inl rfl)

/-- What recovery makes of a table some of whose messages were lost. It ends in the fold of the
topic if and only if every key whose last message did not reach the topic, or was not what the call
had written, has a record at or after the offset recovery starts from or held what the topic gives
it anyway. -/
theorem recovered_iff (env : Env α Callback) (msg : Message) (table : GroupTable) (log : TopicLog)
    (sync : Option Int) (hrecovered : Recovered log table.st sync) (actions : List (Action α))
    (hkeys : ∀ action ∈ actions, action.key ≠ some offsetKey) (topic : String) (partition : Nat) :
    let s := run (fun s => s.step env) (start msg table log sync) actions
    ∃ stored, Storage.Persisted s.db stored ∧ (∀ v ∈ stored, v < s.log.newest) ∧
      ∀ recovery, let s' := run System.step (s.crashed topic partition) recovery
        let hwm := max s'.table.hwm s'.table.cursor
        s'.ConsumedToHwm →
          (s'.st.db.content = fold (below s'.table.log.records hwm) ↔
            ∀ key c, lastCall s.calls key = some c → ¬ c.Kept →
              (∃ r ∈ slice s'.table.log.records (System.loadStart s.log.oldest stored) hwm,
                r.key = key) ∨
              c.1.stored = fold (below s'.table.log.records hwm) key) := by
  intro s
  obtain ⟨table', hinv⟩ : ∃ table', Inv log s table' := inv_run msg hrecovered hkeys
  obtain ⟨stored, hpersisted, hbacked⟩ := hinv.exists_persisted
  refine ⟨stored, hpersisted, fun v hv => (hbacked v hv).lt_newest, fun recovery => ?_⟩
  exact hinv.recovery_iff hpersisted hbacked topic partition recovery

/-- The second message of a key is lost, but the first one is replayed. -/
def lostAndReplayed : List (Action Bytes) :=
  [.setValue [97] (some [1]) none, .produce 0, .setValue [97] (some [2]) none,
    .produceFails "kafka: client has run out of available brokers", .acknowledge 0, .acknowledge 1]

def replayOne : List System.Action :=
  [.start true, .getOffset, .gotWatermarks none none, .consumePartition none, .message, .update]

theorem recovered_iff_replayed :
    let s := run (fun s => s.step rawEnv) (start anyMessage emptyTable .empty none) lostAndReplayed
    let s' := run System.step (s.crashed "g-table" 0) replayOne
    s.db.content [97] = some [2] ∧ s'.table.log.records = [⟨0, [97], some [1]⟩] ∧
      s'.st.db.content
        = fold (below s'.table.log.records (max s'.table.hwm s'.table.cursor)) := by
  dsimp only
  refine ⟨by decide +kernel, by decide +kernel, ?_⟩
  obtain ⟨stored, hpersisted, -, hiff⟩ := recovered_iff rawEnv anyMessage emptyTable .empty none
    recovered_empty lostAndReplayed (by decide) "g-table" 0
  obtain rfl : stored = none := hpersisted.unique ⟨by decide +kernel, nofun⟩
  refine (hiff replayOne ⟨by decide +kernel, ?_⟩).mpr fun key c hlast _ => ?_
  · unfold PartitionTable.CaughtUp
    decide +kernel
  · refine .inl ⟨⟨0, [97], some [1]⟩, by decide +kernel, ?_⟩
    have hkeys : ∀ c ∈ calls (run (fun s => s.step rawEnv)
        (start anyMessage emptyTable .empty none) lostAndReplayed), c.1.key = [97] := by
          decide +kernel
    have hkey : c.1.key = key := by simpa using List.find?_some hlast
    rw [← hkey]
    exact (hkeys c (List.mem_reverse.mp (List.mem_of_find?_eq_some hlast))).symm

def lostWrite : List (Action Bytes) :=
  [.setValue [97] (some [1]) none, .produceFails "kafka: client has run out of available brokers",
    .acknowledge 0]

def recoverEmpty : List System.Action :=
  [.start true, .getOffset, .gotWatermarks none none, .markLoad, .markPut, .markClose, .marked]

theorem table_ahead_of_topic :
    let s := run (fun s => s.step rawEnv) (start anyMessage emptyTable .empty none) lostWrite
    let s' := run System.step (s.crashed "g-table" 0) recoverEmpty
    s.op.ctx.errors = ["kafka: client has run out of available brokers"] ∧
      s'.table.log.records = [] ∧ s'.table.readyToRead = .ok () ∧
      s'.st.get [97] = some [1] ∧ s'.st.db.content ≠ fold s'.table.log.records := by
  intro s s'
  have hstate : s'.table.state = .running := by decide +kernel
  refine ⟨by decide +kernel, by decide +kernel, ?_, by decide +kernel, fun heq => ?_⟩
  · rw [PartitionTable.readyToRead, hstate]
    rfl
  have hkey : s'.st.db.content [97] = fold s'.table.log.records [97] := congrFun heq [97]
  revert hkey
  decide +kernel

end ActiveTable

end Goka
