import Goka.Assignment
import Goka.Graph
import Goka.PartitionStart

/-!
# The setup of a session

At the beginning of a session the processor creates a partition processor for every partition of its
assignment, and for the other stateful partitions if it keeps hot standbys, starts all of them and
waits until every `Start` has returned. A deferred call sets the state to running, whatever the
exit.

The map `g.partitions` is the list of the partition processors that are registered.
-/

namespace Goka

inductive ProcState where
  | idle
  | starting
  | setup
  | running
  | stopping
  deriving Repr, DecidableEq

def errTopicNotFound : String := "requested topic was not found"

namespace Processor

variable {Codec Callback : Type}

/-- What the processor is made of. -/
structure GroupConfig (Codec Callback : Type) where
  graph : GroupGraph Codec Callback
  hotStandby : Bool

variable (cfg : GroupConfig Codec Callback)

/-- The loop of `findStatefulPartitions`, which keeps the answer for the last topic. -/
def findPartitions (partitions : String → Except String (List Int)) :
    List String → Except String (List Int) → Except String (List Int)
  | [], last => last
  | topic :: rest, _ =>
      match partitions topic with
      | .error err =>
          if err ≠ errTopicNotFound then .error err else findPartitions partitions rest (.error err)
      | .ok all => if all.length > 0 then .ok all else findPartitions partitions rest (.ok all)

/-- `partitions` is what the topic manager answers. -/
def findStatefulPartitions (graph : GroupGraph Codec Callback)
    (partitions : String → Except String (List Int)) : Except String (List Int) :=
  findPartitions partitions
    (graph.groupTable.map (fun e => e.name) ++ graph.inputTables.map fun e => e.name) (.ok [])

/-- The tables of a partition, over what their topics hold. -/
def newPartitionProcessor (log : String → Int → TopicLog) (partition : Int) (runMode : PPRunMode) :
    PartProc :=
  .new partition runMode
    (cfg.graph.theGroupTable.map fun e => (e.name, log e.name partition))
    (cfg.graph.inputTables.map fun e => (e.name, log e.name partition))

/-- `has` is the answer of `getPartProc`, `backoffErr` that of the backoff builder. -/
def createPartitionProcessor (log : String → Int → TopicLog) (has : Bool)
    (backoffErr : Option String) (partition : Int) (runMode : PPRunMode) : Except String PartProc :=
  if has then
    .error ("processor [" ++ cfg.graph.group ++ "]: partition " ++ toString partition ++
      " already exists")
  else
    match backoffErr with
    | some err =>
        .error ("processor [" ++ cfg.graph.group ++ "]: could not build backoff handler: " ++ err)
    | none => .ok (newPartitionProcessor cfg log partition runMode)

end Processor

/-- What comes with a session: the claims, an answer of the backoff builder for every partition, and
what the brokers have, the partitions of the topics and their contents. -/
structure Session where
  claims : GoMap String (List Int)
  backoff : Int → Option String
  partitions : String → Except String (List Int)
  log : String → Int → TopicLog

inductive SetupPc where
  | idle
  | starting
  | returned (err : Option String)
  deriving Repr, DecidableEq

structure SessionSetup where
  state : ProcState
  pc : SetupPc
  partitions : List PartProc
  sessionDone : Bool
  -- what the calls of `Start` have returned
  errs : List String

namespace SessionSetup

open Processor

variable {Codec Callback : Type} (cfg : GroupConfig Codec Callback) (session : Session)

def new : SessionSetup where
  state := .starting
  pc := .idle
  partitions := []
  sessionDone := false
  errs := []

variable (s : SessionSetup)

def hasPartProc (partitions : List PartProc) (partition : Int) : Bool :=
  partitions.any fun pproc => pproc.partition = partition

/-- The two loops that create and register partition processors. The one for the standbys passes
over the partitions that are registered. -/
def createAll (runMode : PPRunMode) : List Int → List PartProc → List PartProc × Option String
  | [], partitions => (partitions, none)
  | partition :: rest, partitions =>
      let has := hasPartProc partitions partition
      if runMode = .passive ∧ has = true then
        createAll runMode rest partitions
      else
        match createPartitionProcessor cfg session.log has
          (session.backoff partition) partition runMode with
        | .error err =>
            (partitions, some ("Error creating partition processor for " ++ cfg.graph.group ++
              "/" ++ toString partition ++ ": " ++ err))
        | .ok pproc => createAll runMode rest (partitions ++ [pproc])

/-- The processors a session needs, or an error and those that were registered before it. -/
def createProcessors (partitions : List PartProc) : List PartProc × Option String :=
  match assignmentFromSession session.claims with
  | .error err => (partitions, some ("Error verifying assignment from session: " ++ err))
  | .ok assignment =>
      match createAll cfg session .active (Assignment.assignedPartitions assignment) partitions with
      | (partitions, some err) => (partitions, some err)
      | (partitions, none) =>
          if cfg.hotStandby then
            match findStatefulPartitions cfg.graph session.partitions with
            | .error _ => (partitions, some "Error finding partitions for standby")
            | .ok all => createAll cfg session .passive all partitions
          else
            (partitions, none)

/-- `Setup` up to the start of the processors, or to its end where one of the exits before is
taken. -/
def setup : Option SessionSetup :=
  if s.pc = .idle then
    match createProcessors cfg session s.partitions with
    | (partitions, some err) =>
        some { s with partitions := partitions, state := .running, pc := .returned (some err) }
    | (partitions, none) =>
        some { s with
          partitions := if s.sessionDone then partitions.map PartProc.cancel else partitions
          state := .setup
          pc := .starting }
  else
    none

/-- The steps within a `Start`. -/
def inStart : PartProc.Action → Bool
  | .start | .table _ _ | .returns _ => true
  | _ => false

def partProc (i : Nat) (action : PartProc.Action) : Option SessionSetup :=
  if s.pc = .starting ∧ inStart action = true then
    match s.partitions[i]? with
    | none => none
    | some pproc =>
        (pproc.step action).map fun pproc => { s with partitions := s.partitions.set i pproc }
  else
    none

/-- A `Start` returns to the error group, which goes on with the others. -/
def startReturns (i : Nat) : Option SessionSetup :=
  if s.pc = .starting then
    match s.partitions[i]? with
    | none => none
    | some pproc =>
        pproc.wait.map fun pproc' =>
          { s with
            partitions := s.partitions.set i pproc', errs := s.errs ++ pproc.exit.err.toList }
  else
    none

def hasReturned (pproc : PartProc) : Bool :=
  match pproc.pc with
  | .returned _ => true
  | _ => false

/-- The error group is done and `Setup` returns. -/
def wait : Option SessionSetup :=
  if s.pc = .starting ∧ ∀ pproc ∈ s.partitions, hasReturned pproc = true then
    some { s with
      state := .running
      pc := .returned (if s.errs = [] then none else some (errorsText s.errs)) }
  else
    none

/-- The context of the session is cancelled. -/
def cancel : SessionSetup :=
  { s with sessionDone := true, partitions := s.partitions.map PartProc.cancel }

inductive Action where
  | setup
  | partProc (i : Nat) (action : PartProc.Action)
  | startReturns (i : Nat)
  | wait
  | cancel

def step : Action → Option SessionSetup
  | .setup => s.setup cfg session
  | .partProc i action => s.partProc i action
  | .startReturns i => s.startReturns i
  | .wait => s.wait
  | .cancel => some s.cancel

end SessionSetup

end Goka
