import Goka.PartitionTable
import Goka.Storage

/-!
# The table and the storage it marks as recovered

`markRecovered` calls `Storage.MarkRecovered` in a goroutine of its own and does not wait for it
when the context is cancelled. The storage is the one `setup` has created last; `storageProxy` hands
the call on as it is. What the table asks of its storage is answered by that storage, which may also
fail to read or to write. How often it was marked is kept as a ghost.
-/

namespace Goka

/-- The table is in `markRecovered`. -/
def Pc.marking : Pc → Bool
  | markingRecovered _ => true
  | _ => false

/-- `MarkRecovered`, where the put of the offset may fail. -/
def Storage.tryMarkRecovered (st : Storage) (putErr : Option String) : Outcome Storage :=
  match putErr with
  | some err => if st.offset = 0 then st.markRecovered else .error err
  | none => st.markRecovered

structure MarkedTable where
  table : PartitionTable
  st : Storage
  -- what the goroutine of `Open` has loaded and not yet put
  sync : Option Int
  calls : Nat
  -- what the last call has returned
  result : Outcome Unit
  -- a goroutine of `markRecovered` has panicked
  panicked : Bool

namespace MarkedTable

def new (topic : String) (partition : Nat) (log : TopicLog) (db : Database) : MarkedTable where
  table := .new topic partition log
  st := Storage.new db
  sync := none
  calls := 0
  result := .ok ()
  panicked := false

variable (m : MarkedTable)

def createStorage : MarkedTable := { m with st := Storage.new m.st.db, sync := none, calls := 0 }

def callMarkRecovered (putErr : Option String) : MarkedTable :=
  match m.st.tryMarkRecovered putErr with
  | .ok st => { m with st := st, calls := m.calls + 1, result := .ok () }
  | .error err => { m with calls := m.calls + 1, result := .error err }
  | .panic err => { m with calls := m.calls + 1, result := .panic err, panicked := true }

/-- The storage behind what the table has asked of it, if it can have answered so. -/
def answers : PartitionTable.Event → Option Storage
  | .gotOffset (.ok offset) =>
      match m.st.getOffset offsetNotStored with
      | .ok stored => if offset = Int64.ofInt stored then some m.st else none
      | .error _ => none
  | .updated none =>
      match m.table.pc with
      | .updating record => some (m.st.defaultUpdate record.key record.value)
      | _ => none
  | .offsetSet none =>
      match m.table.pc with
      | .settingOffset record => some (m.st.setOffset record.offset)
      | _ => none
  | .offsetSet (some _) =>
      match m.table.pc with
      | .settingOffset record =>
          -- only the put of a storage that is marked can fail
          if m.st.recovered then some (m.st.storeOffset record.offset) else none
      | _ => none
  | .markedRecovered result => if result = m.result then some m.st else none
  | _ => some m.st

/-- An event of the table, which may be the one that calls `MarkRecovered`. -/
def event (e : PartitionTable.Event) (putErr : Option String) : Option MarkedTable :=
  match m.answers e, m.table.step e with
  | some st, some table =>
      let entered := table.pc.marking && !m.table.pc.marking
      let m := { m with table := table, st := st }
      match e with
      | .setupAndRecover _ (.ok ()) => some m.createStorage
      | _ => some (if entered then m.callMarkRecovered putErr else m)
  | _, _ => none

def syncPut : Option MarkedTable :=
  match m.sync with
  | some curOffset => some { m with st := m.st.putLoaded curOffset, sync := none }
  | none => none

inductive Action where
  | event (e : PartitionTable.Event) (putErr : Option String)
  | syncLoad
  | syncPut

def step : Action → Option MarkedTable
  | .event e putErr => m.event e putErr
  | .syncLoad => some { m with sync := some m.st.offset }
  | .syncPut => m.syncPut

end MarkedTable

end Goka
