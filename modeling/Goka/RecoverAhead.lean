import Goka.ProcessorSetup

/-!
# Recovering ahead of the first session

Before the rebalance loop the processor waits for its lookup tables, and with the option
`WithRecoverAhead` it starts and stops every partition processor once. Each of these has a goroutine
in an error group: it registers its processor, starts it, stops it if the start went well, and takes
the registration back. The first error cancels the context of the group, and the waiting ends with
that context as well as with the group. `Run` drops what the waiting returns and goes on to the
rebalance loop.
-/

namespace Goka

inductive AheadPc where
  | begun
  | registered
  -- the deferred `setPartProc` has run
  | left (err : Option String)
  -- the error group has the result
  | done
  deriving Repr, DecidableEq

structure AheadProc where
  pproc : PartProc
  pc : AheadPc

inductive StartupPc where
  | finding
  | creating (rest : List Int)
  | waiting
  -- `waitForStartupTables` has returned, and `Run` is in the rebalance loop
  | rebalancing (err : String)
  deriving Repr, DecidableEq

structure Startup where
  pc : StartupPc
  -- `g.partitions`: the number of the goroutine whose processor is registered
  partitions : GoMap Int Nat
  procs : List AheadProc
  -- the goroutines that wait for the lookup tables, which are done or not
  lookups : List Bool
  ctxDone : Bool
  groupDone : Bool
  errs : List String

namespace Startup

open Processor

variable {Codec Callback : Type} (cfg : GroupConfig Codec Callback)

/-- Without the option there is nothing to find. -/
def new (recoverAhead : Bool) (lookups : Nat) : Startup where
  pc := if recoverAhead then .finding else .waiting
  partitions := ∅
  procs := []
  lookups := List.replicate lookups false
  ctxDone := false
  groupDone := false
  errs := []

variable (s : Startup)

def find (topicPartitions : String → Except String (List Int)) : Option Startup :=
  if s.pc = .finding then
    match findStatefulPartitions cfg.graph topicPartitions with
    | .error err =>
        some { s with pc := .rebalancing ("error finding dependent partitions: " ++ err) }
    | .ok partitions => some { s with pc := .creating partitions }
  else
    none

/-- One round of the loop over the partitions, up to the start of the goroutine. -/
def create (log : String → Int → TopicLog) (backoffErr : Option String) : Option Startup :=
  match s.pc with
  | .creating (part :: rest) =>
      let has := (s.partitions.lookup part).isSome
      match createPartitionProcessor cfg log has backoffErr part .recoverOnly with
      | .error err =>
          some { s with
            pc := .rebalancing ("Error creating partition processor for recover-ahead " ++
              cfg.graph.group ++ "/" ++ toString part ++ ": " ++ err) }
      | .ok pproc =>
          let pproc := if s.ctxDone then pproc.cancel else pproc
          some { s with pc := .creating rest, procs := s.procs ++ [⟨pproc, .begun⟩] }
  | .creating [] => some { s with pc := .waiting }
  | _ => none

def register (i : Nat) : Option Startup :=
  match s.procs[i]? with
  | some ⟨pproc, .begun⟩ =>
      some { s with
        partitions := s.partitions.insert pproc.partition i
        procs := s.procs.set i ⟨pproc, .registered⟩ }
  | _ => none

/-- What a goroutine does with its processor: it stops it if `Start` has returned without an error.
The context comes from the group. -/
def goroutine (pproc : PartProc) : PartProc.Action → Bool
  | .cancel => false
  | .stop =>
      match pproc.pc with
      | .returned exit => exit.err.isNone
      | _ => false
  | _ => true

def partProc (i : Nat) (action : PartProc.Action) : Option Startup :=
  match s.procs[i]? with
  | some ⟨pproc, .registered⟩ =>
      if goroutine pproc action then
        (pproc.step action).map fun pproc => { s with procs := s.procs.set i ⟨pproc, .registered⟩ }
      else
        none
  | _ => none

/-- The result of the goroutine, once there is one. -/
def result (pproc : PartProc) : Option (Option String) :=
  match pproc.pc with
  | .returned exit => exit.err.map some
  | .stopped err => some err
  | _ => none

/-- The goroutine ends, which first runs the deferred `setPartProc`. -/
def leave (i : Nat) : Option Startup :=
  match s.procs[i]? with
  | some ⟨pproc, .registered⟩ =>
      (result pproc).map fun err =>
        { s with
          partitions := s.partitions.erase pproc.partition
          procs := s.procs.set i ⟨pproc, .left err⟩ }
  | _ => none

/-- The context of the group is cancelled. -/
def cancel : Startup :=
  { s with
    ctxDone := true
    procs := s.procs.map fun proc => { proc with pproc := proc.pproc.cancel } }

/-- The error group collects the result of a goroutine. -/
def collect (i : Nat) : Option Startup :=
  match s.procs[i]? with
  | some ⟨pproc, .left err⟩ =>
      let s := { s with procs := s.procs.set i ⟨pproc, .done⟩ }
      match err with
      | none => some s
      | some err => some { s.cancel with errs := s.errs ++ [err] }
  | _ => none

/-- A lookup table is running, or the context is done. -/
def lookupReturns (i : Nat) : Option Startup :=
  if s.lookups[i]? = some false then some { s with lookups := s.lookups.set i true } else none

/-- `Wait` of the group, which `WaitChan` calls, cancels the context when it is done. -/
def groupWait : Option Startup :=
  match s.pc with
  | .waiting | .rebalancing _ =>
      if s.groupDone = false ∧ (∀ proc ∈ s.procs, proc.pc = .done) ∧ ∀ done ∈ s.lookups,
        done = true then
        some { s.cancel with groupDone := true }
      else
        none
  | _ => none

def waitContextDone : Option Startup :=
  if s.pc = .waiting ∧ s.ctxDone = true then
    some { s with
      pc := .rebalancing "context closed while waiting for startup tables to become ready" }
  else
    none

/-- The error that is returned here is never nil, and has no text when nothing failed. -/
def waitGroupDone : Option Startup :=
  if s.pc = .waiting ∧ s.groupDone = true then
    some { s with pc := .rebalancing (errorsText s.errs) }
  else
    none

inductive Action where
  | find (topicPartitions : String → Except String (List Int))
  | create (log : String → Int → TopicLog) (backoffErr : Option String)
  | register (i : Nat)
  | partProc (i : Nat) (action : PartProc.Action)
  | leave (i : Nat)
  | collect (i : Nat)
  | lookupReturns (i : Nat)
  | groupWait
  | waitContextDone
  | waitGroupDone
  | cancel

def step : Action → Option Startup
  | .find topicPartitions => s.find cfg topicPartitions
  | .create log backoffErr => s.create cfg log backoffErr
  | .register i => s.register i
  | .partProc i action => s.partProc i action
  | .leave i => s.leave i
  | .collect i => s.collect i
  | .lookupReturns i => s.lookupReturns i
  | .groupWait => s.groupWait
  | .waitContextDone => s.waitContextDone
  | .waitGroupDone => s.waitGroupDone
  | .cancel => some s.cancel

end Startup

end Goka
