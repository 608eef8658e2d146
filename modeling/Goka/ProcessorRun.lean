import Goka.RecoverAhead
import Goka.Sessions

/-!
# The run of a processor

`Run` builds what it needs of the cluster, starts the lookup tables in an error group, waits for
them and for the partitions that recover ahead, and goes on to the rebalance loop. The loop calls
`Consume` of the consumer group again and again, which takes the processor through a session each
time. Another goroutine of the error group reads the errors of the consumer group, and one of a
callback ends the processor. When the error group is done the producer is closed and `Run` returns
what has gone wrong.

A call of `Consume` has a goroutine of its own and hands its error over on a channel that it closes
behind it. Of a lookup table only the end of its `Run` is seen here. The runners of the partition
processors emit to the producer, which is a panic once it is closed.
-/

namespace Goka

open Processor

/-- What `Run` builds, in this order. -/
inductive Builder where
  | consumerGroup
  | consumer
  | topicManager
  | producer
  deriving Repr, DecidableEq

def Builder.errorText (brokers : List String) (err : String) : Builder → String
  | .consumerGroup => "error creating Kafka consumer: " ++ err
  | .consumer => "Error creating consumer for brokers [" ++ ",".intercalate brokers ++ "]: " ++ err
  | .topicManager =>
      "Error creating topic manager for brokers [" ++ ",".intercalate brokers ++ "]: " ++ err
  | .producer => "error creating Kafka producer: " ++ err

inductive ServicePhase where
  | unbuilt
  | opened
  | closed
  deriving Repr, DecidableEq

inductive ProcessorPc where
  -- not called, or returned
  | idle
  | building (builder : Builder)
  -- the lookup tables that are not started
  | starting (tables : List String)
  | startup
  | waiting
  -- with the result so far, the deferred functions run
  | closing (rerr : Option String)
  | leaving (rerr : Option String)
  deriving Repr, DecidableEq

/-- What the consumer group reports. -/
inductive GroupError where
  | processing (wrapped : String)
  | other (err : String)
  deriving Repr, DecidableEq

def errProcessing (wrapped : String) : String := "error processing message: " ++ wrapped

inductive ErrorLoopPc where
  | unstarted
  | selecting
  | draining
  | returned (err : Option String)
  deriving Repr, DecidableEq

structure LookupRun where
  topic : String
  -- what its goroutine has returned
  returned : Option (Option String)

inductive RebalancePc where
  | unstarted
  | calling
  | selecting
  -- the context is done, and the call has still to return
  | stopping
  | pausing
  | closing (errs : List String)
  -- the consumer group is closed
  | leaving (errs : List String)
  | returned (err : Option String)
  deriving Repr, DecidableEq

/-- The goroutine of a call of `Consume`. -/
inductive ConsumePc where
  | consuming
  | sending (err : String)
  -- the channel is closed
  | ended
  deriving Repr, DecidableEq

structure RunConfig (Codec Callback : Type) where
  group : GroupConfig Codec Callback
  brokers : List String
  recoverAhead : Bool

structure ProcessorRun where
  pc : ProcessorPc
  -- `g.done` is closed
  done : Bool
  -- the caller has cancelled the context of `Run`, or called `Stop`
  cancelled : Bool
  -- the context of the error group
  ctxDone : Bool
  groupErrs : List String
  merrors : List String
  results : List (Option String)
  producer : ServicePhase
  consumerGroup : ServicePhase
  consumerErrors : List GroupError
  errorLoop : ErrorLoopPc
  lookups : List LookupRun
  startup : Startup
  rebalance : RebalancePc
  consumes : List ConsumePc
  sessions : Sessions
  panicked : Bool
  -- ghost: what the consumer group has reported, and what of it was read only to be logged because
  -- the context is done
  reported : List GroupError
  drained : List GroupError
  -- ghost: the builder that has failed and its error, and the error of the producer's `Close`
  buildErr : Option (Builder × String)
  closeErr : Option String

namespace ProcessorRun

variable {Codec Callback : Type} (cfg : RunConfig Codec Callback)

def lookupTables : List String := (cfg.group.graph.crossTables.map fun e => e.name).dedup

def new : ProcessorRun where
  pc := .idle
  done := false
  cancelled := false
  ctxDone := false
  groupErrs := []
  merrors := []
  results := []
  producer := .unbuilt
  consumerGroup := .unbuilt
  consumerErrors := []
  errorLoop := .unstarted
  lookups := []
  startup := .new cfg.recoverAhead (lookupTables cfg).length
  rebalance := .unstarted
  consumes := []
  sessions := .new
  panicked := false
  reported := []
  drained := []
  buildErr := none
  closeErr := none

variable (s : ProcessorRun)

def cancelContext : ProcessorRun :=
  { s with ctxDone := true, startup := s.startup.cancel, sessions := s.sessions.cancel }

/-- The error group has the result of a goroutine. -/
def collect : Option String → ProcessorRun
  | none => s
  | some err => { s.cancelContext with groupErrs := s.groupErrs ++ [err] }

def run : Option ProcessorRun :=
  if s.pc = .idle then
    if s.done then
      some { s with
        results := s.results ++
          [some ("error running processor: it was already run and terminated. " ++
            "Run can only be called once")] }
    else
      some { s with pc := .building .consumerGroup }
  else
    none

/-- The next builder is called. The goroutine for the errors starts with the consumer group. -/
def build (err : Option String) : Option ProcessorRun :=
  match s.pc, err with
  | .building builder, some err =>
      some { s with
        pc := .leaving (some (builder.errorText cfg.brokers err))
        buildErr := some (builder, err) }
  | .building .consumerGroup, none =>
      some { s with pc := .building .consumer, consumerGroup := .opened, errorLoop := .selecting }
  | .building .consumer, none => some { s with pc := .building .topicManager }
  | .building .topicManager, none => some { s with pc := .building .producer }
  | .building .producer, none =>
      some { s with pc := .starting (lookupTables cfg), producer := .opened }
  | _, _ => none

/-- `range` visits the lookup tables in any order. -/
def startTable (topic : String) : Option ProcessorRun :=
  match s.pc with
  | .starting tables =>
      if topic ∈ tables then
        some { s with
          pc := .starting (tables.erase topic), lookups := s.lookups ++ [⟨topic, none⟩] }
      else
        none
  | _ => none

def tablesStarted : Option ProcessorRun :=
  if s.pc = .starting [] then some { s with pc := .startup } else none

def lookupReturns (i : Nat) (err : Option String) : Option ProcessorRun :=
  match s.lookups[i]? with
  | some ⟨topic, none⟩ =>
      let err := err.map fun err => "error running lookup table " ++ topic ++ ": " ++ err
      some ({ s with lookups := s.lookups.set i ⟨topic, some err⟩ }.collect err)
  | _ => none

/-- `waitForStartupTables` has been called. -/
def inStartup : ProcessorPc → Bool
  | .startup | .waiting | .closing _ | .leaving _ | .idle => true
  | _ => false

/-- The context of its error group comes from `Run`. -/
def waitForStartupTables (action : Startup.Action) : Option ProcessorRun :=
  match action with
  | .cancel => none
  | _ =>
      if s.producer ≠ .unbuilt ∧ inStartup s.pc then
        (s.startup.step cfg.group action).map fun startup => { s with startup := startup }
      else
        none

/-- The error of `waitForStartupTables` is dropped. -/
def startupReturns : Option ProcessorRun :=
  match s.pc, s.startup.pc with
  | .startup, .rebalancing _ => some { s with pc := .waiting, rebalance := .calling }
  | _, _ => none

def report (err : GroupError) : Option ProcessorRun :=
  if s.consumerGroup = .opened then
    some { s with consumerErrors := s.consumerErrors ++ [err], reported := s.reported ++ [err] }
  else
    none

/-- The goroutine for the errors receives from their channel. -/
def readError : Option ProcessorRun :=
  match s.errorLoop, s.consumerErrors with
  | .selecting, .processing wrapped :: rest =>
      some ({ s with
        consumerErrors := rest
        errorLoop := .returned (some (errProcessing wrapped)) }.collect
          (some (errProcessing wrapped)))
  | .selecting, .other _ :: rest => some { s with consumerErrors := rest }
  | .selecting, [] =>
      if s.consumerGroup = .closed then some { s with errorLoop := .returned none } else none
  | .draining, err :: rest => some { s with consumerErrors := rest, drained := s.drained ++ [err] }
  | .draining, [] =>
      if s.consumerGroup = .closed then some { s with errorLoop := .selecting } else none
  | _, _ => none

def errorsContextDone : Option ProcessorRun :=
  if s.errorLoop = .selecting ∧ s.ctxDone = true then some { s with errorLoop := .draining }
  else none

/-- One round of the loop, up to its select. -/
def consume : Option ProcessorRun :=
  if s.rebalance = .calling then
    some { s with rebalance := .selecting, consumes := s.consumes ++ [.consuming] }
  else
    none

/-- What the consumer group and the processor do in a call of `Consume`. -/
def inConsume (action : Sessions.Action) : Option ProcessorRun :=
  if .consuming ∈ s.consumes then
    (s.sessions.step cfg.group action).map fun sessions =>
      { s with sessions := if s.ctxDone then sessions.cancel else sessions }
  else
    none

def consumeReturns (i : Nat) (err : Option String) : Option ProcessorRun :=
  match s.consumes[i]?, s.sessions.phase with
  | some .consuming, .idle =>
      some { s with consumes := s.consumes.set i (err.elim .ended ConsumePc.sending) }
  | _, _ => none

/-- The loop receives from the channel of its last call. -/
def receive : Option ProcessorRun :=
  match s.rebalance, s.consumes.getLast? with
  | .selecting, some (.sending err) | .stopping, some (.sending err) =>
      some { s with rebalance := .closing [err], consumes := s.consumes.dropLast ++ [.ended] }
  | .selecting, some .ended => some { s with rebalance := .pausing }
  | .stopping, some .ended => some { s with rebalance := .closing [] }
  | _, _ => none

def rebalanceContextDone : Option ProcessorRun :=
  if s.rebalance = .selecting ∧ s.ctxDone = true then some { s with rebalance := .stopping }
  else none

/-- Five seconds are over. -/
def pauseEnds : Option ProcessorRun :=
  if s.rebalance = .pausing then some { s with rebalance := .calling } else none

def closeConsumerGroup (err : Option String) : Option ProcessorRun :=
  match s.rebalance with
  | .closing errs =>
      some { s with consumerGroup := .closed, rebalance := .leaving (errs ++ err.toList) }
  | _ => none

def rebalanceReturns : Option ProcessorRun :=
  match s.rebalance with
  | .leaving errs =>
      some ({ s with rebalance := .returned (nilOrError errs) }.collect (nilOrError errs))
  | _ => none

def rebalanceReturned : Bool :=
  match s.rebalance with
  | .returned _ => true
  | _ => false

def errorLoopReturned : Bool :=
  match s.errorLoop with
  | .returned _ => true
  | _ => false

/-- `Wait` of the error group, which cancels the context. -/
def wait : Option ProcessorRun :=
  if s.pc = .waiting ∧ s.errorLoopReturned ∧ s.rebalanceReturned ∧ ∀ lookup ∈ s.lookups,
    lookup.returned.isSome then
    some { s.cancelContext with pc := .closing (nilOrError s.groupErrs) }
  else
    none

def closeProducer (err : Option String) : Option ProcessorRun :=
  match s.pc with
  | .closing rerr =>
      some { s with
        pc := .leaving rerr
        producer := .closed
        merrors := s.merrors ++ err.toList.map fun err => "error closing producer: " ++ err
        closeErr := err }
  | _ => none

/-- The other deferred functions. -/
def leave : Option ProcessorRun :=
  match s.pc with
  | .leaving rerr =>
      some { s.cancelContext with
        pc := .idle
        done := true
        merrors := s.merrors ++ rerr.toList
        results := s.results ++ [nilOrError (s.merrors ++ rerr.toList)] }
  | _ => none

def cancel : ProcessorRun := { s.cancelContext with cancelled := true }

/-- A runner of a partition processor emits. -/
def emit (i : Nat) : Option ProcessorRun :=
  match s.sessions.runners[i]? with
  | none => none
  | some group =>
      if 0 < group.left then
        if s.producer = .opened then some s else some { s with panicked := true }
      else
        none

inductive Action where
  | run
  | build (err : Option String)
  | startTable (topic : String)
  | tablesStarted
  | lookupReturns (i : Nat) (err : Option String)
  | waitForStartupTables (action : Startup.Action)
  | startupReturns
  | report (err : GroupError)
  | readError
  | errorsContextDone
  | consume
  | inConsume (action : Sessions.Action)
  | consumeReturns (i : Nat) (err : Option String)
  | receive
  | rebalanceContextDone
  | pauseEnds
  | closeConsumerGroup (err : Option String)
  | rebalanceReturns
  | wait
  | closeProducer (err : Option String)
  | leave
  | cancel
  | emit (i : Nat)

def step (action : Action) : Option ProcessorRun :=
  if s.panicked then
    none
  else
    match action with
    | .run => s.run
    | .build err => s.build cfg err
    | .startTable topic => s.startTable topic
    | .tablesStarted => s.tablesStarted
    | .lookupReturns i err => s.lookupReturns i err
    | .waitForStartupTables action => s.waitForStartupTables cfg action
    | .startupReturns => s.startupReturns
    | .report err => s.report err
    | .readError => s.readError
    | .errorsContextDone => s.errorsContextDone
    | .consume => s.consume
    | .inConsume action => s.inConsume cfg action
    | .consumeReturns i err => s.consumeReturns i err
    | .receive => s.receive
    | .rebalanceContextDone => s.rebalanceContextDone
    | .pauseEnds => s.pauseEnds
    | .closeConsumerGroup err => s.closeConsumerGroup err
    | .rebalanceReturns => s.rebalanceReturns
    | .wait => s.wait
    | .closeProducer err => s.closeProducer err
    | .leave => s.leave
    | .cancel => some s.cancel
    | .emit i => s.emit i

end ProcessorRun

end Goka
