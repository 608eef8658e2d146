import Goka.PartitionTable
import Goka.Storage

/-!
# A table over its incarnations

A partition table and its LevelDB storage are opened, loaded and stopped or killed over and over, on
one database and one growing topic. An incarnation runs one call of `load`. The steps are those at
which another goroutine can come in between: `Update` and the two halves of `SetOffset`, the parts
of `MarkRecovered`, which runs in a goroutine of its own, those of the ticker that syncs the offset,
and those of `Close`. A crash keeps the database and nothing else.
-/

namespace Goka

open KeyedLog

inductive MarkPc where
  | idle
  | loaded (curOffset : Int)
  | written
  | closed

structure System where
  table : PartitionTable
  st : Storage
  up : Bool
  -- `SetOffset` has stored the offset in memory and not yet looked whether to persist it
  storing : Bool
  mark : MarkPc
  -- the offset the ticker has loaded and not yet written
  sync : Option Int
  -- the offset `Close` has loaded and not yet written
  closing : Option Int
  -- the records that were ever applied to the database
  applied : List TableRecord

namespace System

inductive Action where
  | append (record : TableRecord)
  | start (stopAfterCatchup : Bool)
  | crash
  | cancel
  | getOffset
  | gotWatermarks (oldestErr newestErr : Option String)
  | consumePartition (err : Option String)
  | message
  | messagesClosed
  | contextDone
  | consumerError (err : String)
  | update
  | storeOffset
  | putOffset
  | markLoad
  | markPut
  | markClose
  | marked
  | drained
  | syncLoad
  | syncPut
  | closeLoad
  | closePut

variable (s : System)

/-- A database that was written before, with nothing running on it. -/
def down (topic : String) (partition : Nat) (log : TopicLog) (db : Database)
    (applied : List TableRecord) : System where
  table := .new topic partition log
  st := .new db
  up := false
  storing := false
  mark := .idle
  sync := none
  closing := none
  applied := applied

def init (topic : String) (partition : Nat) (log : TopicLog) : System :=
  down topic partition log (fun _ => none) []

def stopped : System := down s.table.topic s.table.partition s.table.log s.st.db s.applied

def tableStep (e : PartitionTable.Event) : Option System :=
  if s.up then (s.table.step e).map fun table => { s with table := table } else none

/-- Opens the database and calls `SetupAndRecover` or `CatchupForever`. -/
def start (stopAfterCatchup : Bool) : Option System :=
  if s.up then none
  else
    let call : PartitionTable.Event :=
      if stopAfterCatchup then .setupAndRecover false (.ok ()) else .catchupForever false
    (s.stopped.table.step call).map fun table => { s.stopped with table := table, up := true }

def getOffset : Option System :=
  s.tableStep (.gotOffset ((s.st.getOffset offsetNotStored).map Int64.ofInt))

def update : Option System :=
  match s.table.pc with
  | .updating record =>
      { s with
        st := s.st.defaultUpdate record.key record.value
        applied := s.applied ++ [record] }.tableStep (.updated none)
  | _ => none

def storeOffset : Option System :=
  match s.table.pc with
  | .settingOffset record =>
      if s.up ∧ s.storing = false then
        some { s with st := s.st.storeOffset record.offset, storing := true }
      else
        none
  | _ => none

def putOffset : Option System :=
  match s.table.pc with
  | .settingOffset record =>
      if s.storing then
        { s with st := s.st.putIfRecovered record.offset, storing := false }.tableStep
          (.offsetSet none)
      else
        none
  | _ => none

def markLoad : Option System :=
  match s.table.pc, s.mark with
  | .markingRecovered _, .idle => if s.up then some { s with mark := .loaded s.st.offset } else none
  | _, _ => none

def markPut : Option System :=
  match s.mark with
  | .loaded curOffset => some { s with st := s.st.putLoaded curOffset, mark := .written }
  | _ => none

/-- Closing the channel a second time is a panic that ends the process. -/
def markClose : Option System :=
  match s.mark with
  | .written =>
      match s.st.closeRecovered with
      | .ok st => some { s with st := st, mark := .closed }
      | _ => some s.stopped
  | _ => none

def marked : Option System :=
  match s.mark with
  | .closed => s.tableStep (.markedRecovered (.ok ()))
  | _ => none

def syncLoad : Option System := if s.up then some { s with sync := some s.st.offset } else none

def syncPut : Option System :=
  match s.sync with
  | some curOffset => some { s with st := s.st.putLoaded curOffset, sync := none }
  | none => none

def closeLoad : Option System :=
  if s.up then some { s with closing := some s.st.offset } else none

def closePut : Option System :=
  match s.closing with
  | some curOffset => some { s with st := s.st.putLoaded curOffset }.stopped
  | none => none

def append (record : TableRecord) : Option System :=
  if record.key = offsetKey then none
  else
    (s.table.log.append record).map fun log => { s with table := { s.table with log := log } }

def step : Action → Option System
  | .append record => s.append record
  | .start stopAfterCatchup => s.start stopAfterCatchup
  | .crash => if s.up then some s.stopped else none
  | .cancel => s.tableStep .cancel
  | .getOffset => s.getOffset
  | .gotWatermarks oldestErr newestErr => s.tableStep (.gotWatermarks oldestErr newestErr)
  | .consumePartition err => s.tableStep (.consumePartition err)
  | .message => s.tableStep .message
  | .messagesClosed => s.tableStep .messagesClosed
  | .contextDone => s.tableStep .contextDone
  | .consumerError err => s.tableStep (.consumerError err)
  | .update => s.update
  | .storeOffset => s.storeOffset
  | .putOffset => s.putOffset
  | .markLoad => s.markLoad
  | .markPut => s.markPut
  | .markClose => s.markClose
  | .marked => s.marked
  | .drained => s.tableStep .drained
  | .syncLoad => s.syncLoad
  | .syncPut => s.syncPut
  | .closeLoad => s.closeLoad
  | .closePut => s.closePut

end System

end Goka
