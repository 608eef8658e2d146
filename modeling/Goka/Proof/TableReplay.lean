import Goka.Proof.ActiveTable
import Goka.TableReplay

/-!
# The replayed table and the live one

A value whose bytes are nil is stored as an empty value and read from the topic as a deletion.
Whether the two tables differ is decided by the last call on each key.
-/

namespace Goka

open KeyedLog

namespace TableCall

open ActiveTable (Call lastCall encodedValue)

variable {α Callback : Type} {env : Env α Callback} {op op' : OpState GroupTable}
  {table : GroupTable}

def write (env : Env α Callback) : TableCall α → TableWrite
  | setValue key value _ =>
      ⟨key, some ((encodedValue env value).getD []), encodedValue env value⟩
  | delete key _ => ⟨key, none, none⟩

def appended (env : Env α Callback) (call : TableCall α) : Call := (call.write env, some (.ok 0))

/-- The last call on a key does not set a value whose bytes are nil. -/
def NoNilLeft (env : Env α Callback) (calls : List (TableCall α)) : Prop :=
  ∀ key value hdr,
    calls.reverse.find? (fun call => call.key = key) = some (.setValue key value hdr) →
    encodedValue env value ≠ none

theorem key_write (call : TableCall α) : (call.write env).key = call.key := by
  cases call <;> rfl

def message (m : Emission) : TableRecord := ⟨0, m.key, m.value⟩

/-- A call that succeeds has applied its write and handed the same write to the producer. -/
theorem program_eq_ok {call : TableCall α} (htable : op.table = some table)
    (h : (call.program env).run op = (.ok none, op')) :
    ∃ table' m, op'.table = some table' ∧ op'.emitted = op.emitted ++ [m] ∧
      table'.st.db = apply table.st.db (call.appended env).stored ∧
      (call.appended env).record = some (message m) := by
  cases call with
  | setValue key value hdr =>
      have heffect := ActiveTable.setValueForKey_effect env htable key value hdr
      rw [show (Op.setValueForKey env key value hdr).run op = _ from h] at heffect
      rcases heffect with ⟨hnot, -⟩ | ⟨topic, data, -, hdata, htable', hemitted⟩
      · exact absurd rfl hnot
      · refine ⟨_, _, htable', hemitted, ?_, ?_⟩
        · rw [Storage.defaultUpdate_db, ← hdata]
          rfl
        · rw [← hdata]
          rfl
  | delete key hdr =>
      have heffect := ActiveTable.deleteKey_effect env htable key hdr
      rw [show (Op.deleteKey env key hdr).run op = _ from h] at heffect
      rcases heffect with ⟨hnot, -⟩ | ⟨topic, htable', hemitted⟩
      · exact absurd rfl hnot
      · refine ⟨_, _, htable', hemitted, ?_, rfl⟩
        rw [Storage.defaultUpdate_db]
        rfl

/-- The storage is the replay of what the calls stored, the topic that of what they sent. -/
theorem perform_eq_some {calls : List (TableCall α)} (htable : op.table = some table)
    (h : perform env calls op = some op') :
    ∃ table' topic, op'.table = some table' ∧ op'.emitted = op.emitted ++ topic ∧
      table'.st.db = replay table.st.db ((calls.map (appended env)).map Call.stored) ∧
      (calls.map (appended env)).filterMap Call.record = topic.map message := by
  induction calls generalizing op table with
  | nil =>
      obtain rfl := Option.some.inj h
      exact ⟨table, [], htable, (List.append_nil _).symm, rfl, rfl⟩
  | cons call calls ih =>
      rw [perform] at h
      split at h
      · next op₁ hcall =>
          obtain ⟨table₁, m, htable₁, hemitted₁, hdb₁, hrecord₁⟩ := program_eq_ok htable hcall
          obtain ⟨table', topic, htable', hemitted', hdb', hrecords⟩ := ih htable₁ h
          refine ⟨table', m :: topic, htable', ?_, ?_, ?_⟩
          · rw [hemitted', hemitted₁, List.append_assoc]
            rfl
          · rw [hdb', hdb₁]
            rfl
          · rw [List.map_cons, List.filterMap_cons, hrecord₁, hrecords]
            rfl
      · exact absurd h.symm (Option.some_ne_none op')

theorem replayed_db (topic : List Emission) :
    (GroupTable.replayed topic).db = replay (fun _ => none) (topic.map message) := by
  suffices hgeneral : ∀ st : Storage, (topic.foldl (fun st message =>
      st.defaultUpdate message.key message.value) st).db = replay st.db (topic.map message) from
    hgeneral (Storage.new fun _ => none)
  induction topic with
  | nil => exact fun _ => rfl
  | cons m topic ih =>
      intro st
      rw [List.foldl_cons, ih, Storage.defaultUpdate_db]
      rfl

theorem lastCall_appended (calls : List (TableCall α)) (key : Bytes) :
    lastCall (calls.map (appended env)) key
      = (calls.reverse.find? fun call => call.key = key).map (appended env) := by
  rw [lastCall, ← List.map_reverse, List.find?_map]
  congr
  funext call
  exact congrArg (fun k => decide (k = key)) (key_write call)

/-- What a call stores is what it sends, unless it stores nil bytes as an empty value. -/
theorem stored_eq_value_iff (call : TableCall α) :
    (call.write env).stored = (call.write env).value ↔
      ∀ key value hdr, call = .setValue key value hdr → encodedValue env value ≠ none := by
  cases call with
  | delete key hdr => exact iff_of_true rfl nofun
  | setValue key value hdr =>
      have hwrite : (write env (.setValue key value hdr)).stored
          = (write env (.setValue key value hdr)).value ↔ encodedValue env value ≠ none := by
        simp only [write]
        cases encodedValue env value <;> simp
      rw [hwrite]
      constructor
      · rintro hne _ _ _ ⟨⟩
        exact hne
      · exact fun h => h key value hdr rfl

/-- The table replayed from the topic is the live one if and only if no key was last set to a value
whose bytes are nil. -/
theorem replayed_iff (env : Env α Callback) (msg : Message) (state : PartitionStatus)
    (cancelled : Bool) (calls : List (TableCall α)) (op : OpState GroupTable)
    (h : perform env calls (GroupTable.onEmpty msg state cancelled) = some op) :
    op.table.map (fun table => table.st.db) = some (GroupTable.replayed op.emitted).db ↔
      NoNilLeft env calls := by
  obtain ⟨table, topic, htable, hemitted, hdb, hrecords⟩ := perform_eq_some rfl h
  have hall : ∀ key c, lastCall (calls.map (appended env)) key = some c →
      ∃ offset, c.2 = some (.ok offset) := by
    intro key c hlast
    rw [lastCall_appended] at hlast
    obtain ⟨call, -, rfl⟩ := Option.map_eq_some_iff.mp hlast
    exact ⟨0, rfl⟩
  have htopic : op.emitted = topic := hemitted
  rw [htable, htopic, Option.map_some, Option.some_inj, hdb, replayed_db, ← hrecords, funext_iff,
    NoNilLeft]
  refine forall_congr' fun key => ?_
  rw [ActiveTable.replay_stored, ActiveTable.replay_record _ _ _ (hall key), lastCall_appended]
  cases hlast : calls.reverse.find? fun call => call.key = key with
  | none => exact iff_of_true rfl nofun
  | some call =>
      have hkey : call.key = key := by simpa using List.find?_some hlast
      refine (stored_eq_value_iff call).trans ?_
      constructor
      · rintro hcall value hdr heq
        exact hcall key value hdr (Option.some.inj heq)
      · rintro hlast key' value hdr rfl
        obtain rfl : key' = key := hkey
        exact hlast value hdr rfl

def bytesEnv : Env (Option Bytes) Unit where
  graph :=
    match GroupGraph.defineGroup "g" [.inputStream ⟨⟨"in", some Codec.bytes⟩, some ()⟩,
      .groupTable (some Codec.bytes)] with
    | .ok graph => graph
    | _ => .empty "g"
  emitterDefaultHeaders := none
  pviews := none
  views := none

theorem replayed_iff_deleted :
    ∃ op, perform bytesEnv [.setValue [97] (some none) none, .delete [97] none,
        .setValue [98] (some (some [1])) none]
        (GroupTable.onEmpty ActiveTable.anyMessage .running false) = some op ∧
      (op.table.map (fun table => table.st.db) = some (GroupTable.replayed op.emitted).db ↔
        NoNilLeft bytesEnv [.setValue [97] (some none) none, .delete [97] none,
          .setValue [98] (some (some [1])) none]) :=
  ⟨_, rfl, replayed_iff bytesEnv ActiveTable.anyMessage .running false _ _ rfl⟩

/-- A nil byte slice is set: the live table has an empty value under the key, the replayed one has
none. -/
theorem nil_value_not_replayed :
    ∃ op table, perform bytesEnv [.setValue [97] (some none) none]
        (GroupTable.onEmpty ActiveTable.anyMessage .running false) = some op ∧
      op.table = some table ∧ table.st.db [97] = some [] ∧
      (GroupTable.replayed op.emitted).db [97] = none :=
  ⟨_, _, rfl, rfl, rfl, rfl⟩

end TableCall

end Goka
