import Goka.MarkRecovered
import Goka.PartitionStart

/-!
# A partition of a view

A view has a partition table for every partition of its topic, and each of them has a LevelDB
storage. `Run` first recovers the table and then catches up with the topic for as long as it can; a
view that reconnects automatically loads again after every error. Keys can be evicted from the
storage at any time.

`SetOffset`, `MarkRecovered` and `Close` are one step each, and a `MarkRecovered` that comes after
its caller has left is dropped. The goroutine of `Open` loads the offset from memory and puts it at
a later moment; as `Close` does not wait for it, a put may still come before the database is closed.
The offset behind the record that was applied last, and the keys that were evicted and not written
since, are kept as ghosts.
-/

namespace Goka

/-- What comes from the broker, the consumer and the clock. -/
def PartitionTable.Event.fromOutside : PartitionTable.Event → Bool
  | .gotWatermarks _ _ | .consumePartition _ | .message | .nilMessage | .stallTick | .messagesClosed
  | .contextDone | .consumerError _ | .drained | .retry => true
  | _ => false

/-- How far the goroutines of `Run` have come with a partition. -/
inductive ViewTablePhase where
  | ready
  -- the storage has been created, and `SetupAndRecover` has not looked at the context again
  | created
  | recovering
  | recovered
  | catching
  | returned
  | closed
  deriving Repr, DecidableEq

structure ViewTable where
  table : PartitionTable
  phase : ViewTablePhase
  status : StorageStatus
  st : Storage
  -- the goroutine of `Open` has not returned
  syncing : Bool
  -- what it has loaded and not yet put
  curOffset : Option Int
  served : Int
  evicted : List Bytes

namespace ViewTable

/-- A table on a database that was written before. -/
def onDatabase (topic : String) (partition : Nat) (log : TopicLog) (db : Database) (served : Int)
    (evicted : List Bytes) : ViewTable where
  table := .new topic partition log
  phase := .ready
  status := .missing
  st := .new db
  syncing := false
  curOffset := none
  served := served
  evicted := evicted

def new (topic : String) (partition : Nat) : ViewTable :=
  onDatabase topic partition .empty (fun _ => none) TopicLog.empty.oldest []

variable (autoreconnect : Bool) (s : ViewTable)

def onTable (e : PartitionTable.Event) : Option ViewTable :=
  (s.table.step e).map fun table => { s with table := table }

def append (record : TableRecord) : Option ViewTable :=
  if record.key = offsetKey then none else s.onTable (.append record)

def cancel : ViewTable := { s with table := { s.table with cancelled := true } }

def create (builderErr openErr closeErr : Option String) : Option ViewTable :=
  if s.phase = .ready then
    match createStorage builderErr openErr closeErr s.table.cancelled with
    | (status, .error err) =>
        { s with phase := .recovering, status := status }.onTable
          (.setupAndRecover autoreconnect (.error err))
    | (status, .ok ()) =>
        some { s with
          phase := .created
          status := status
          st := .new s.st.db
          syncing := status = .opened
          curOffset := none }
  else
    none

def setupAndRecover : Option ViewTable :=
  if s.phase = .created then
    { s with phase := .recovering }.onTable (.setupAndRecover autoreconnect (.ok ()))
  else
    none

def catchupForever : Option ViewTable :=
  if s.phase = .recovered then
    { s with phase := .catching }.onTable (.catchupForever autoreconnect)
  else
    none

/-- The first call of `load` on the storage, which must be there. -/
def getOffset (readErr : Option String) : Option ViewTable :=
  if s.table.pc = .gettingOffset then
    match s.status, readErr with
    | .opened, some err => s.onTable (.gotOffset (.error err))
    | .opened, none => s.onTable (.gotOffset ((s.st.getOffset offsetNotStored).map Int64.ofInt))
    -- a nil pointer is dereferenced
    | _, _ => some { s with table := { s.table with pc := .crashed } }
  else
    none

def outside (e : PartitionTable.Event) : Option ViewTable :=
  if e.fromOutside then s.onTable e else none

/-- `Update` with the default callback, which fails without having written. -/
def update (err : Option String) : Option ViewTable :=
  match s.status, s.table.pc, err with
  | .opened, .updating _, some err => s.onTable (.updated (some err))
  | .opened, .updating record, none =>
      { s with
        st := s.st.defaultUpdate record.key record.value
        served := record.offset + 1
        evicted := s.evicted.filter fun key => key ≠ record.key }.onTable (.updated none)
  | _, _, _ => none

/-- `SetOffset`, which fails if the database cannot be written. -/
def setOffset (err : Option String) : Option ViewTable :=
  match s.status, s.table.pc, err with
  | .opened, .settingOffset record, some err =>
      if s.st.recovered then
        { s with st := s.st.storeOffset record.offset }.onTable (.offsetSet (some err))
      else
        none
  | .opened, .settingOffset record, none =>
      { s with st := s.st.setOffset record.offset }.onTable (.offsetSet none)
  | _, _, _ => none

/-- What `MarkRecovered` returns is received, unless the context is done by then and `markRecovered`
has `left`. -/
def markRecovered (putErr : Option String) (left : Bool) : Option ViewTable :=
  if s.status = .opened ∧ s.table.pc.marking then
    match s.st.tryMarkRecovered putErr with
    | .ok st =>
        { s with st := st }.onTable (if left then .contextDone else .markedRecovered (.ok ()))
    | .error err => s.onTable (if left then .contextDone else .markedRecovered (.error err))
    | .panic err => s.onTable (.markedRecovered (.panic err))
  else
    none

/-- A put whose error nobody looks at. -/
def putLoaded (putErr : Option String) (curOffset : Int) : Storage :=
  if putErr.isSome then s.st else s.st.putLoaded curOffset

def syncLoad : Option ViewTable :=
  if s.syncing = true ∧ s.curOffset = none then some { s with curOffset := some s.st.offset }
  else none

def syncPut (putErr : Option String) : Option ViewTable :=
  match s.curOffset with
  | some curOffset => some { s with st := s.putLoaded putErr curOffset, curOffset := none }
  | none => none

def syncReturn : Option ViewTable :=
  if s.curOffset = none ∧ (s.st.recovered = true ∨ s.status = .closed) then
    some { s with syncing := false }
  else
    none

/-- `Evict` for a key of this partition. -/
def evict (key : Bytes) : Option ViewTable :=
  if s.status = .opened ∧ key ≠ offsetKey then
    some { s with st := s.st.delete key, evicted := key :: s.evicted }
  else
    none

/-- `SetupAndRecover` or `CatchupForever` returns to its error group. -/
def returns : Option ViewTable :=
  if s.table.pc = .idle then
    match s.phase with
    | .recovering => some { s with phase := .recovered }
    | .catching => some { s with phase := .returned }
    | _ => none
  else
    none

def close (putErr : Option String) : Option ViewTable :=
  match s.phase with
  | .recovered | .returned =>
      match s.status with
      | .opened =>
          some { s with
            phase := .closed
            status := .closed
            st := s.putLoaded putErr s.st.offset }
      | _ => some { s with phase := .closed }
  | _ => none

/-- The table of another view on the same database. -/
def reopen : ViewTable :=
  onDatabase s.table.topic s.table.partition s.table.log s.st.db s.served s.evicted

/-- `PartitionTable.Get`. -/
def get (key : Bytes) : Except String (Option Bytes) :=
  match s.table.readyToRead with
  | .error err => .error err
  | .ok () => .ok (s.st.get key)

inductive Action where
  | create (builderErr openErr closeErr : Option String)
  | setupAndRecover
  | catchupForever
  | getOffset (readErr : Option String)
  | outside (e : PartitionTable.Event)
  | update (err : Option String)
  | setOffset (err : Option String)
  | markRecovered (putErr : Option String) (left : Bool)
  | syncLoad
  | syncPut (putErr : Option String)
  | syncReturn
  | evict (key : Bytes)
  | returns
  | close (putErr : Option String)

def step : Action → Option ViewTable
  | .create builderErr openErr closeErr => s.create autoreconnect builderErr openErr closeErr
  | .setupAndRecover => s.setupAndRecover autoreconnect
  | .catchupForever => s.catchupForever autoreconnect
  | .getOffset readErr => s.getOffset readErr
  | .outside e => s.outside e
  | .update err => s.update err
  | .setOffset err => s.setOffset err
  | .markRecovered putErr left => s.markRecovered putErr left
  | .syncLoad => s.syncLoad
  | .syncPut putErr => s.syncPut putErr
  | .syncReturn => s.syncReturn
  | .evict key => s.evict key
  | .returns => s.returns
  | .close putErr => s.close putErr

end ViewTable

end Goka
