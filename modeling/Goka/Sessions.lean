import Goka.Claims
import Goka.ProcessorSetup

/-!
# Session after session

The consumer group takes the processor through one session after the other: `Setup`, a
`ConsumeClaim` for every claim, and `Cleanup`, which also follows a `Setup` that has failed.
`Cleanup` stops the partition processors, each in a goroutine of its own, and empties the map in
which they are registered.

A processor that was started for good has runners, and its `Stop` waits for them before it closes
the tables. What passes between the runners, the claims and `Stop` is here only a count and the
errors. The processors of the sessions before are kept.
-/

namespace Goka

open Processor

/-- The runners of a partition processor. -/
structure RunnerGroup where
  -- the goroutines that have not returned
  left : Nat
  errs : List String
  -- one of the claims has received the error
  taken : Bool
  -- what `Stop` has received
  received : Option (Option String)
  deriving DecidableEq

namespace RunnerGroup

/-- The group of a processor that was not started for good. -/
def none : RunnerGroup where
  left := 0
  errs := []
  taken := false
  received := .none

variable (group : RunnerGroup)

def returns (err : Option String) : Option RunnerGroup :=
  if 0 < group.left then some { group with
    left := group.left - 1, errs := group.errs ++ err.toList }
  else .none

def claimTakes : Option RunnerGroup :=
  if group.left = 0 ∧ group.errs ≠ [] ∧ group.taken = false ∧ group.received = .none then
    some { group with taken := true }
  else
    .none

/-- `Stop` receives from the channel, or finds that there is none. -/
def stopReceives : Option RunnerGroup :=
  if group.left = 0 ∧ group.received = .none then
    some { group with received := some (if group.taken then .none else nilOrError group.errs) }
  else
    .none

end RunnerGroup

namespace PartProc

variable (pp : PartProc)

/-- `Stop` of any processor that is registered, up to its receive. -/
def beginStop : Option PartProc :=
  match pp.pc with
  | .created | .returned _ => some { pp.cancel with state := .stopping, pc := .stopping }
  | _ => none

/-- `Close` of a table. One that was never set up has no storage. -/
def closeAny (j : Nat) (err : Option String) : Option PartProc :=
  match pp.tables[j]? with
  | none => none
  | some run =>
      if run.phase = .ready then
        if pp.pc = .stopping then
          some { pp with tables := pp.tables.set j { run with phase := .closed } }
        else
          none
      else
        pp.closeTable j err

end PartProc

inductive SessionPhase where
  | idle
  | setup (session : Session)
  | consuming (session : Session)
  | cleanup

structure Sessions where
  phase : SessionPhase
  -- `g.partitions` and `g.state`, and where `Setup` is
  setup : SessionSetup
  runners : List RunnerGroup
  -- what the calls of `Stop` have returned, and the last `Cleanup`
  stopErrs : List String
  cleanupErr : Option String
  gone : List (PartProc × RunnerGroup)

namespace Sessions

variable {Codec Callback : Type} (cfg : GroupConfig Codec Callback) (s : Sessions)

def new : Sessions where
  phase := .idle
  setup := .new
  runners := []
  stopErrs := []
  cleanupErr := none
  gone := []

/-- `run` or the catch-up of the table, and the catch-up of every join. -/
def startedRunners (pproc : PartProc) : RunnerGroup :=
  { RunnerGroup.none with
    left := 1 + (pproc.tables.countP (fun run => run.held) - cfg.graph.theGroupTable.toList.length)
      }

def beginSession (session : Session) : Option Sessions :=
  match s.phase with
  | .idle =>
      some { s with
        phase := .setup session
        setup := { s.setup with pc := .idle, sessionDone := false, errs := [] } }
  | _ => none

/-- The runners after a step of `Setup`. -/
def runnersAfter (setup : SessionSetup) : SessionSetup.Action → List RunnerGroup
  | .setup => List.replicate setup.partitions.length .none
  | .startReturns i =>
      match s.setup.partitions[i]? with
      | none => s.runners
      | some pproc =>
          if pproc.exit = .started then s.runners.set i (startedRunners cfg pproc) else s.runners
  | _ => s.runners

def inSetup (action : SessionSetup.Action) : Option Sessions :=
  match s.phase with
  | .setup session =>
      (s.setup.step cfg session action).map fun setup =>
        { s with setup := setup, runners := s.runnersAfter cfg setup action }
  | _ => none

/-- `Setup` has returned. After an error the session goes on to `Cleanup` at once. -/
def setupReturns : Option Sessions :=
  match s.phase, s.setup.pc with
  | .setup session, .returned none => some { s with phase := .consuming session }
  | .setup _, .returned (some _) =>
      some { s with phase := .cleanup, setup := { s.setup with state := .stopping } }
  | _, _ => none

def onRunners (i : Nat) (move : RunnerGroup → Option RunnerGroup) : Option Sessions :=
  match s.runners[i]? with
  | none => none
  | some group => (move group).map fun group => { s with runners := s.runners.set i group }

/-- The beginning of `ConsumeClaim`. -/
def consumeClaim (topic : String) (partition : Int) : Except String PartProc :=
  match s.setup.partitions.find? fun pproc => pproc.partition = partition with
  | none =>
      .error ("No partition (" ++ toString partition ++ ") to handle input in topic " ++ topic)
  | some pproc => .ok pproc

def claimTakes (i : Nat) : Option Sessions :=
  match s.phase with
  | .consuming _ => s.onRunners i RunnerGroup.claimTakes
  | _ => none

/-- The context of the session is cancelled. -/
def cancel : Sessions := { s with setup := s.setup.cancel }

/-- All claims have returned. -/
def claimsReturn : Option Sessions :=
  match s.phase with
  | .consuming _ => some { s with phase := .cleanup, setup := { s.setup with state := .stopping } }
  | _ => none

def setProc (i : Nat) (pproc : PartProc) : Sessions :=
  { s with setup := { s.setup with partitions := s.setup.partitions.set i pproc } }

/-- A goroutine of `Cleanup` moves on with its processor. -/
def inCleanup (i : Nat) (move : PartProc → RunnerGroup → Option PartProc) : Option Sessions :=
  match s.phase, s.setup.partitions[i]?, s.runners[i]? with
  | .cleanup, some pproc, some group => (move pproc group).map fun pproc => s.setProc i pproc
  | _, _, _ => none

def stopReceives (i : Nat) : Option Sessions :=
  match s.phase, s.setup.partitions[i]? with
  | .cleanup, some pproc =>
      if pproc.pc = .stopping then s.onRunners i RunnerGroup.stopReceives else none
  | _, _ => none

/-- `Stop` returns to the error group. -/
def stopReturns (i : Nat) : Option Sessions :=
  match s.phase, s.setup.partitions[i]?, s.runners[i]? with
  | .cleanup, some pproc, some group =>
      if group.received.isSome = true then
        pproc.stopReturns.map fun stopped =>
          let errs := group.received.join.toList ++ (nilOrError pproc.closeErrs).toList
          { s.setProc i stopped with
            stopErrs := s.stopErrs ++ (nilOrError errs).toList.map fun err =>
              "error stopping partition processor " ++ toString pproc.partition ++ ": " ++ err }
      else
        none
  | _, _, _ => none

def hasStopped (pproc : PartProc) : Bool :=
  match pproc.pc with
  | .stopped _ => true
  | _ => false

/-- The error group is done, the map is emptied and `Cleanup` returns. -/
def cleanupReturns : Option Sessions :=
  match s.phase with
  | .cleanup =>
      if ∀ pproc ∈ s.setup.partitions, hasStopped pproc = true then
        some { s with
          phase := .idle
          setup := { s.setup with partitions := [], state := .idle }
          runners := []
          stopErrs := []
          cleanupErr := nilOrError s.stopErrs
          gone := s.gone ++ s.setup.partitions.zip s.runners }
      else
        none
  | _ => none

inductive Action where
  | beginSession (session : Session)
  | inSetup (action : SessionSetup.Action)
  | setupReturns
  | runnerReturns (i : Nat) (err : Option String)
  | claimTakes (i : Nat)
  | cancel
  | claimsReturn
  | beginStop (i : Nat)
  | stopReceives (i : Nat)
  | closeTable (i j : Nat) (err : Option String)
  | stopReturns (i : Nat)
  | cleanupReturns

def step : Action → Option Sessions
  | .beginSession session => s.beginSession session
  | .inSetup action => s.inSetup cfg action
  | .setupReturns => s.setupReturns
  | .runnerReturns i err => s.onRunners i fun group => group.returns err
  | .claimTakes i => s.claimTakes i
  | .cancel => some s.cancel
  | .claimsReturn => s.claimsReturn
  | .beginStop i => s.inCleanup i fun pproc _ => pproc.beginStop
  | .stopReceives i => s.stopReceives i
  | .closeTable i j err =>
      s.inCleanup i fun pproc group => if group.received.isSome = true then pproc.closeAny j err
        else none
  | .stopReturns i => s.stopReturns i
  | .cleanupReturns => s.cleanupReturns

/-- The storages a processor has open, by topic and partition. -/
def openStorages (pproc : PartProc) : List (String × Int) :=
  (pproc.tables.filter fun run => run.st = .opened).map fun run =>
    (run.table.topic, pproc.partition)

/-- The storages that are open, of this session and of those before. -/
def allOpen : List (String × Int) :=
  (s.gone.map Prod.fst ++ s.setup.partitions).flatMap openStorages

end Sessions

end Goka
