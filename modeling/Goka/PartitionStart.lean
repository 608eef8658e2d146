import Goka.PartitionTable

/-!
# Starting and stopping a partition processor

`Start` recovers the group table and the joined tables, each in a goroutine of its own, and waits
for all of them; the first one that fails cancels the context of the others. There are four ways out
of `Start`, and a deferred call sets the state to running on each of them. `Stop` closes the
storages of the tables, again each in a goroutine of its own.

The goroutine of a table first creates the storage and then takes the steps of `PartitionTable`. The
runners of a processor that was started for good are left out, and so is its `Stop`.
-/

namespace Goka

inductive PPRunMode where
  | active
  | passive
  | recoverOnly
  deriving Repr, DecidableEq

inductive PPState where
  | idle
  | recovering
  | running
  | stopping
  deriving Repr, DecidableEq

/-! ### The goroutine of a table -/

inductive StorageStatus where
  | missing
  | opened
  | closed
  deriving Repr, DecidableEq

/-- `createStorage`: what becomes of the storage, and the error. -/
def createStorage (builderErr openErr closeErr : Option String) (ctxDone : Bool) :
    StorageStatus × Except String Unit :=
  match builderErr, openErr with
  | some err, _ => (.missing, .error ("error building storage: " ++ err))
  | none, some err =>
      (.closed, .error (errorsText (closeErr.toList ++ ["error opening storage: " ++ err])))
  | none, none =>
      if ctxDone then
        match closeErr with
        | some err => (.closed, .error (errorsText [err, "context canceled"]))
        | none => (.closed, .ok ())
      else
        (.opened, .ok ())

inductive TablePhase where
  | ready
  -- the storage has been created, and `SetupAndRecover` has not looked at the context again
  | created
  | loading
  | returned
  -- `Close` has returned
  | closed
  deriving Repr, DecidableEq

structure TableRun where
  table : PartitionTable
  phase : TablePhase
  st : StorageStatus
  -- the processor refers to the table, which it does not where a later join has the same topic
  held : Bool

/-- An event of a call that is under way: it does not begin one, and is not the cancellation of the
context, which comes from outside. -/
def PartitionTable.Event.within : PartitionTable.Event → Bool
  | .cancel | .setupAndRecover _ _ | .catchupForever _ => false
  | _ => true

namespace TableRun

variable (run : TableRun)

def new (topic : String) (partition : Int) (log : TopicLog) (held : Bool) : TableRun where
  table := .new topic partition.toNat log
  phase := .ready
  st := .missing
  held := held

def cancel : TableRun := { run with table := { run.table with cancelled := true } }

inductive Action where
  | create (builderErr openErr closeErr : Option String)
  | enter
  | event (e : PartitionTable.Event)

/-- `SetupAndRecover`, which `Start` calls without restarting on errors. -/
def step : Action → Option TableRun
  | .create builderErr openErr closeErr =>
      if run.phase = .ready then
        match createStorage builderErr openErr closeErr run.table.cancelled with
        | (st, .error err) =>
            (run.table.step (.setupAndRecover false (.error err))).map fun table =>
              { run with table := table, phase := .loading, st := st }
        | (st, .ok ()) => some { run with phase := .created, st := st }
      else
        none
  | .enter =>
      if run.phase = .created then
        (run.table.step (.setupAndRecover false (.ok ()))).map fun table =>
          { run with table := table, phase := .loading }
      else
        none
  | .event e =>
      if run.phase = .loading ∧ e.within = true then
        (run.table.step e).map fun table => { run with table := table }
      else
        none

end TableRun

/-! ### The processor -/

/-- The four ways out of `Start`. -/
inductive StartExit where
  | setupFailed (err : String)
  | contextDone
  | recovered
  | started
  deriving Repr, DecidableEq

def StartExit.err : StartExit → Option String
  | .setupFailed err => some err
  | _ => none

inductive StartPc where
  | created
  | recovering
  | returned (exit : StartExit)
  | stopping
  | stopped (err : Option String)
  deriving Repr, DecidableEq

/-- A partition processor, seen from its start and its stop. -/
structure PartProc where
  partition : Int
  runMode : PPRunMode
  state : PPState
  pc : StartPc
  -- the group table, if there is one, and the joins
  tables : List TableRun
  ctxDone : Bool
  -- what the goroutines of `Start` and of `Stop` have returned
  setupErrs : List String
  closeErrs : List String

namespace PartProc

variable (pp : PartProc)

/-- The tables of the joins. The map `joins` keeps the last table of a topic. -/
def joinTables (partition : Int) : List (String × TopicLog) → List TableRun
  | [] => []
  | (topic, log) :: rest =>
      .new topic partition log (rest.all fun entry => entry.1 ≠ topic) :: joinTables partition rest

/-- A table is given by its topic and by what the broker holds of its partition. -/
def new (partition : Int) (runMode : PPRunMode) (groupTable : Option (String × TopicLog))
    (joins : List (String × TopicLog)) : PartProc where
  partition := partition
  runMode := runMode
  state := .idle
  pc := .created
  tables := (groupTable.toList.map fun entry => .new entry.1 partition entry.2 true) ++
    joinTables partition joins
  ctxDone := false
  setupErrs := []
  closeErrs := []

def start : Option PartProc :=
  if pp.pc = .created then some { pp with state := .recovering, pc := .recovering } else none

/-- The contexts of the tables are cancelled. -/
def cancelTables : PartProc := { pp with tables := pp.tables.map TableRun.cancel }

def cancel : PartProc := { pp.cancelTables with ctxDone := true }

def table (i : Nat) (action : TableRun.Action) : Option PartProc :=
  if pp.pc = .recovering then
    match pp.tables[i]? with
    | none => none
    | some run => (run.step action).map fun run => { pp with tables := pp.tables.set i run }
  else
    none

/-- `SetupAndRecover` of a table returns to the error group. -/
def returns (i : Nat) : Option PartProc :=
  if pp.pc = .recovering then
    match pp.tables[i]? with
    | none => none
    | some run =>
        if run.phase = .loading ∧ run.table.pc = .idle then
          let pp := { pp with tables := pp.tables.set i { run with phase := .returned } }
          if run.table.errs = [] then
            some pp
          else
            some { pp.cancelTables with setupErrs := pp.setupErrs ++ [errorsText run.table.errs] }
        else
          none
  else
    none

def exit : StartExit :=
  if pp.setupErrs ≠ [] then
    .setupFailed ("Setup failed. Cannot start processor for partition " ++ toString pp.partition ++
      ": " ++ errorsText pp.setupErrs)
  else if pp.ctxDone then
    .contextDone
  else if pp.runMode = .recoverOnly then
    .recovered
  else
    .started

/-- The error group is done and `Start` returns, which runs the deferred `SetState`. -/
def wait : Option PartProc :=
  if pp.pc = .recovering ∧ ∀ run ∈ pp.tables, run.phase = .returned then
    some { pp with state := .running, pc := .returned pp.exit }
  else
    none

/-- `Stop` of a processor without runners, up to the goroutines that close the tables. -/
def stop : Option PartProc :=
  match pp.pc with
  | .returned .started => none
  | .returned _ => some { pp.cancel with state := .stopping, pc := .stopping }
  | _ => none

def closeTable (i : Nat) (err : Option String) : Option PartProc :=
  if pp.pc = .stopping then
    match pp.tables[i]? with
    | none => none
    | some run =>
        if run.phase = .returned ∧ run.held = true then
          if run.st = .opened then
            some { pp with
              tables := pp.tables.set i { run with phase := .closed, st := .closed }
              closeErrs := pp.closeErrs ++ err.toList }
          else
            some { pp with tables := pp.tables.set i { run with phase := .closed } }
        else
          none
  else
    none

def stopReturns : Option PartProc :=
  if pp.pc = .stopping ∧ ∀ run ∈ pp.tables, run.held = true → run.phase = .closed then
    some { pp with
      state := .idle
      pc := .stopped (if pp.closeErrs = [] then none else some (errorsText pp.closeErrs)) }
  else
    none

inductive Action where
  | start
  | table (i : Nat) (action : TableRun.Action)
  | returns (i : Nat)
  | wait
  | stop
  | closeTable (i : Nat) (err : Option String)
  | stopReturns
  | cancel

def step : Action → Option PartProc
  | .start => pp.start
  | .table i action => pp.table i action
  | .returns i => pp.returns i
  | .wait => pp.wait
  | .stop => pp.stop
  | .closeTable i err => pp.closeTable i err
  | .stopReturns => pp.stopReturns
  | .cancel => some pp.cancel

end PartProc

end Goka
