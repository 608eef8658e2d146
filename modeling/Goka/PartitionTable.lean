import Goka.Basic
import Goka.Library.KeyedLog
import Goka.Library.Schedule
import Mathlib.Algebra.Order.Ring.Int

/-!
# The partition table

`SetupAndRecover` and `CatchupForever` run `load`, which asks the storage for its offset, asks the
broker for the watermarks, consumes the table topic from there and, when it was called to catch up,
marks the table as recovered and readable. Between any two of these moments the context may be
cancelled, the consumer may report errors or close its channel, and records may be appended.

A call is a program counter together with the local variables of `load`; the moments are the events.
What the storage answers is part of the event, so the table is modelled apart from any storage. The
records the storage has taken during the current load are kept as a ghost.
-/

namespace Goka

open KeyedLog

abbrev TableRecord := KeyedLog.Record Bytes Bytes

/-- One partition of a topic as the broker holds it: `newest` is the offset after the last
record. -/
structure TopicLog where
  records : List TableRecord
  oldest : Int
  newest : Int
  ordered : Ordered records
  nonneg : 0 ≤ oldest
  oldest_le_newest : oldest ≤ newest
  oldest_le : ∀ r ∈ records, oldest ≤ r.offset
  lt_newest : ∀ r ∈ records, r.offset < newest
  fits : newest < 2 ^ 63

namespace TopicLog

def empty : TopicLog where
  records := []
  oldest := 0
  newest := 0
  ordered := List.Pairwise.nil
  nonneg := le_rfl
  oldest_le_newest := le_rfl
  oldest_le := by simp
  lt_newest := by simp
  fits := by decide

/-- Appends a record at or after `newest`. -/
def append (log : TopicLog) (record : TableRecord) : Option TopicLog :=
  if h : log.newest ≤ record.offset ∧ record.offset + 1 < 2 ^ 63 then
    some {
      records := log.records ++ [record]
      oldest := log.oldest
      newest := record.offset + 1
      ordered := log.ordered.append fun r hr => (log.lt_newest r hr).trans_le h.1
      nonneg := log.nonneg
      oldest_le_newest := log.oldest_le_newest.trans (h.1.trans (by omega))
      oldest_le := by
        intro r hr
        rcases List.mem_append.mp hr with hr | hr
        · exact log.oldest_le r hr
        · rw [List.mem_singleton.mp hr]
          exact log.oldest_le_newest.trans h.1
      lt_newest := by
        intro r hr
        rcases List.mem_append.mp hr with hr | hr
        · have := log.lt_newest r hr
          omega
        · rw [List.mem_singleton.mp hr]
          omega
      fits := h.2 }
  else
    none

theorem append_eq_some {log log' : TopicLog} {record : TableRecord}
    (h : log.append record = some log') :
    log.newest ≤ record.offset ∧ log'.records = log.records ++ [record] ∧
      log'.oldest = log.oldest ∧ log'.newest = record.offset + 1 := by
  unfold append at h
  split at h
  · rename_i hguard
    obtain rfl := Option.some.inj h
    exact ⟨hguard.1, rfl, rfl, rfl⟩
  · cases h

theorem forall_append {log log' : TopicLog} {record : TableRecord} {P : TableRecord → Prop}
    (h : log.append record = some log') (hlog : ∀ r ∈ log.records, P r) (hrecord : P record) :
    ∀ r ∈ log'.records, P r := by
  rw [(append_eq_some h).2.1]
  exact List.forall_mem_append.mpr ⟨hlog, List.forall_mem_singleton.mpr hrecord⟩

end TopicLog

inductive PartitionStatus where
  | stopped
  | initializing
  | connecting
  | recovering
  | preparing
  | running
  deriving Repr, DecidableEq

/-- The value of the constant, which is what `%v` prints. -/
def PartitionStatus.toNat : PartitionStatus → Nat
  | stopped => 0
  | initializing => 1
  | connecting => 2
  | recovering => 3
  | preparing => 4
  | running => 5

def PartitionStatus.readyToRead (pstate : PartitionStatus) : Except String Unit :=
  if pstate = .running then
    .ok ()
  else
    .error ("Partition is not running (but " ++ toString pstate.toNat ++
      ") so it's not safe to read values")

/-- Stands for "no offset was ever stored". -/
def offsetNotStored : Int := -3

/-- Arithmetic on offsets wraps like `int64`. -/
def int64 (v : Int) : Int := v.bmod (2 ^ 64)

inductive Pc where
  | idle
  | backoff
  | gettingOffset
  | findingOffset
  | subscribing
  | selecting
  | updating (record : TableRecord)
  | settingOffset (record : TableRecord)
  | markingRecovered (consuming : Bool)
  | draining
  | crashed
  deriving DecidableEq

namespace Pc

/-- The local variables of `load` are set. -/
def loading : Pc → Bool
  | subscribing | selecting | updating _ | settingOffset _ | markingRecovered _ | draining => true
  | _ => false

/-- `load` has not yet decided where to start. -/
def fresh : Pc → Bool
  | gettingOffset | findingOffset => true
  | _ => false

/-- A partition consumer is open. -/
def consuming : Pc → Bool
  | selecting | updating _ | settingOffset _ | markingRecovered true | draining => true
  | _ => false

end Pc

structure PartitionTable where
  topic : String
  partition : Nat
  state : PartitionStatus
  log : TopicLog
  cancelled : Bool
  restartOnError : Bool
  pc : Pc
  errs : List String
  stopAfterCatchup : Bool
  storedOffset : Int
  loadOffset : Int
  hwm : Int
  -- the offset the consumer is asked for next
  cursor : Int
  -- the records the current load has applied
  applied : List TableRecord

namespace PartitionTable

inductive Event where
  | append (record : TableRecord)
  | cancel
  | setupAndRecover (restartOnError : Bool) (createStorage : Except String Unit)
  | catchupForever (restartOnError : Bool)
  | gotOffset (result : Except String Int64)
  | gotWatermarks (oldestErr newestErr : Option String)
  | consumePartition (err : Option String)
  | message
  | nilMessage
  | stallTick
  | messagesClosed
  | contextDone
  | consumerError (err : String)
  | updated (err : Option String)
  | offsetSet (err : Option String)
  | markedRecovered (result : Outcome Unit)
  | drained
  | retry

variable (p : PartitionTable)

def new (topic : String) (partition : Nat) (log : TopicLog) : PartitionTable where
  topic := topic
  partition := partition
  state := .stopped
  log := log
  cancelled := false
  restartOnError := false
  pc := .idle
  errs := []
  stopAfterCatchup := false
  storedOffset := 0
  loadOffset := 0
  hwm := 0
  cursor := 0
  applied := []

def topicPartition : String := p.topic ++ "/" ++ toString p.partition

def collect (err : String) : PartitionTable := { p with errs := p.errs ++ [err] }

def load (stopAfterCatchup : Bool) : PartitionTable :=
  { p with
    state := .connecting
    pc := .gettingOffset
    errs := []
    stopAfterCatchup := stopAfterCatchup
    applied := [] }

/-- `load` is left: `loadRestarting` goes on to wait where it ended with an error. -/
def returned : PartitionTable :=
  { p with pc := if p.errs ≠ [] ∧ p.restartOnError then .backoff else .idle }

def markRecovered (consuming : Bool) : PartitionTable :=
  { p with state := .preparing, pc := .markingRecovered consuming }

/-- `load` behind a `markRecovered` that was entered with or without a consumer. -/
def leaveMarkRecovered (consuming : Bool) : PartitionTable :=
  if consuming then { p with pc := .draining } else p.returned

def leaveLoadMessages : PartitionTable :=
  if p.stopAfterCatchup then p.markRecovered true else { p with pc := .draining }

def setupAndRecover (restartOnError : Bool) (createStorage : Except String Unit) :
    Option PartitionTable :=
  if p.pc = .idle then
    match createStorage with
    | .error err =>
        some { p with state := .stopped, errs := ["error setting up partition table: " ++ err] }
    | .ok () =>
        let p := { p with state := .initializing, restartOnError := restartOnError, errs := [] }
        some (if p.cancelled then p else p.load true)
  else
    none

def catchupForever (restartOnError : Bool) : Option PartitionTable :=
  if p.pc = .idle then
    some ({ p with restartOnError := restartOnError }.load false)
  else
    none

def gotOffset (result : Except String Int64) : Option PartitionTable :=
  if p.pc = .gettingOffset then
    match result with
    | .error err => some (p.collect ("error reading local offset: " ++ err)).returned
    | .ok storedOffset => some { p with pc := .findingOffset, storedOffset := storedOffset.toInt }
  else
    none

/-- `findOffsetToLoad` once the broker has answered: the first offset to load. -/
def findOffsetToLoad (oldest storedOffset : Int) : Int :=
  let start := if storedOffset = offsetNotStored then oldest else int64 (storedOffset + 1)
  if start < oldest then oldest else start

/-- The local variables of `load` once the broker has answered. A local offset at or above the high
watermark is taken for a finished recovery. -/
def found : PartitionTable :=
  let loadOffset :=
    if p.storedOffset ≥ p.log.newest then p.log.newest
    else findOffsetToLoad p.log.oldest p.storedOffset
  { p with loadOffset := loadOffset, hwm := p.log.newest, cursor := loadOffset }

def gotWatermarks (oldestErr newestErr : Option String) : Option PartitionTable :=
  if p.pc = .findingOffset then
    match oldestErr, newestErr with
    | some err, _ =>
        some (p.collect ("Error getting oldest offset for topic/partition " ++ p.topicPartition ++
          ": " ++ err)).returned
    | none, some err =>
        some (p.collect ("Error getting newest offset for topic/partition " ++ p.topicPartition ++
          ": " ++ err)).returned
    | none, none =>
        if p.storedOffset > 0 ∧ p.log.newest = 0 then
          some (p.collect ("kafka tells us there's no message in the topic, but our cache has " ++
            "one. The table might be gone. Try to delete your local cache! Topic " ++ p.topic ++
            ", partition " ++ toString p.partition ++ ", hwm " ++ toString p.log.newest ++
            ", local offset " ++ toString p.storedOffset)).returned
        else
          let p := p.found
          if p.stopAfterCatchup ∧ p.loadOffset ≥ p.hwm then
            some (p.markRecovered false)
          else
            some { p with pc := .subscribing }
  else
    none

def consumePartition (err : Option String) : Option PartitionTable :=
  if p.pc = .subscribing then
    match err with
    | some err =>
        some (p.collect ("Error creating partition consumer for topic " ++ p.topic ++
          ", partition " ++ toString p.partition ++ ", offset " ++ toString p.storedOffset ++
          ": " ++ err)).returned
    | none =>
        some { p with
          pc := .selecting
          state := if p.stopAfterCatchup then .recovering else .running }
  else
    none

/-- `loadMessages` takes the next message. One that arrives when the table is already running is
passed over; any other is handed to the storage. -/
def message : Option PartitionTable :=
  if p.pc = .selecting then
    match nextRecord p.log.records p.cursor with
    | none => none
    | some record =>
        if p.state = .running ∧ p.stopAfterCatchup then
          some { p with cursor := record.offset + 1 }
        else
          some { p with pc := .updating record }
  else
    none

/-- The branches of `loadMessages` that change nothing: a nil message and a stall tick. -/
def passOver : Option PartitionTable := if p.pc = .selecting then some p else none

def messagesClosed : Option PartitionTable :=
  if p.pc = .selecting then some p.leaveLoadMessages else none

def contextDone : Option PartitionTable :=
  if p.cancelled then
    match p.pc with
    | .selecting => some p.leaveLoadMessages
    | .markingRecovered consuming => some (p.leaveMarkRecovered consuming)
    | .backoff => some { p with pc := .idle, errs := [] }
    | _ => none
  else
    none

def consumerError (err : String) : Option PartitionTable :=
  if p.pc.consuming then
    some (p.collect (if p.pc = .draining then err else "Consumer error: " ++ err))
  else
    none

def updated (err : Option String) : Option PartitionTable :=
  match p.pc with
  | .updating record =>
      match err with
      | some err =>
          some { p.collect ("load: error updating storage: Error from the update callback while " ++
            "recovering from the log: " ++ err) with pc := .draining }
      | none =>
          some { p with
            pc := .settingOffset record
            cursor := record.offset + 1
            applied := p.applied ++ [record] }
  | _ => none

def offsetSet (err : Option String) : Option PartitionTable :=
  match p.pc with
  | .settingOffset record =>
      match err with
      | some err =>
          some
            { p.collect ("load: error updating storage: Error updating offset in local storage " ++
            "while recovering from the log: " ++ err) with pc := .draining }
      | none =>
          if p.stopAfterCatchup ∧ record.offset ≥ int64 (p.hwm - 1) then
            some p.leaveLoadMessages
          else
            some { p with pc := .selecting }
  | _ => none

def markedRecovered (result : Outcome Unit) : Option PartitionTable :=
  match p.pc with
  | .markingRecovered consuming =>
      match result with
      | .ok () => some ({ p with state := .running }.leaveMarkRecovered consuming)
      | .error err => some ((p.collect err).leaveMarkRecovered consuming)
      | .panic _ => some { p with pc := .crashed }
  | _ => none

def drained : Option PartitionTable :=
  if p.pc = .draining then some p.returned else none

def retry : Option PartitionTable :=
  if p.pc = .backoff then some (p.load p.stopAfterCatchup) else none

def step : Event → Option PartitionTable
  | .append record => (p.log.append record).map fun log => { p with log := log }
  | .cancel => some { p with cancelled := true }
  | .setupAndRecover restartOnError createStorage =>
      p.setupAndRecover restartOnError createStorage
  | .catchupForever restartOnError => p.catchupForever restartOnError
  | .gotOffset result => p.gotOffset result
  | .gotWatermarks oldestErr newestErr => p.gotWatermarks oldestErr newestErr
  | .consumePartition err => p.consumePartition err
  | .message => p.message
  | .nilMessage | .stallTick => p.passOver
  | .messagesClosed => p.messagesClosed
  | .contextDone => p.contextDone
  | .consumerError err => p.consumerError err
  | .updated err => p.updated err
  | .offsetSet err => p.offsetSet err
  | .markedRecovered result => p.markedRecovered result
  | .drained => p.drained
  | .retry => p.retry

/-- `readyToRead`, the check in front of `Get`, `Has`, `Iterator` and `IteratorWithRange`. -/
def readyToRead : Except String Unit := p.state.readyToRead

end PartitionTable

end Goka
