import Goka.PartitionProcessor
import Goka.PartitionStart

/-!
# From the claims to the callbacks

While a session lasts, every claim of a partition has a goroutine in `ConsumeClaim`: it receives the
messages of its topic and sends them into the input of the partition processor. The runners of the
processor are its `run` and the catch-up of its joins, goroutines of one error group whose first
error cancels their context. One more goroutine waits for the group, puts what it has collected into
the channel `runnerErrors` and closes the channel. The claims and `Stop` receive from it.

The messages of a claim arrive one by one, and a catch-up returns whenever it likes.
-/

namespace Goka

inductive ClaimPc where
  | selecting
  | sending (msg : Message)
  -- the error that was received, and the message that was not passed on
  | returned (err : Option String) (dropped : Option Message)
  deriving DecidableEq

/-- A call of `ConsumeClaim`. -/
structure ClaimRun where
  topic : String
  pc : ClaimPc
  -- the channel of the claim
  messages : List Message
  closed : Bool
  -- what was ever put into the channel, and what was sent into the input
  delivered : List Message
  forwarded : List Message

namespace ClaimRun

variable (claim : ClaimRun)

def new (topic : String) : ClaimRun where
  topic := topic
  pc := .selecting
  messages := []
  closed := false
  delivered := []
  forwarded := []

def arrive (msg : Message) : Option ClaimRun :=
  if claim.closed = false ∧ msg.topic = claim.topic then
    some { claim with messages := claim.messages ++ [msg], delivered := claim.delivered ++ [msg] }
  else
    none

def receive : Option ClaimRun :=
  match claim.pc, claim.messages with
  | .selecting, msg :: messages => some { claim with pc := .sending msg, messages := messages }
  | _, _ => none

def messagesClosed : Option ClaimRun :=
  if claim.pc = .selecting ∧ claim.closed = true ∧ claim.messages = [] then
    some { claim with pc := .returned none none }
  else
    none

def forward (msg : Message) : ClaimRun :=
  { claim with pc := .selecting, forwarded := claim.forwarded ++ [msg] }

/-- Both of the selects have a case that receives from `runnerErrors` and returns. -/
def takeError (err : Option String) : Option ClaimRun :=
  match claim.pc with
  | .selecting => some { claim with pc := .returned err none }
  | .sending msg => some { claim with pc := .returned err (some msg) }
  | .returned _ _ => none

def hasReturned : Bool :=
  match claim.pc with
  | .returned _ _ => true
  | _ => false

def reported : Option String :=
  match claim.pc with
  | .returned err _ => err
  | _ => none

end ClaimRun

inductive WaiterPc where
  | waiting
  | sent
  | closed
  deriving DecidableEq

/-- `Stop`, up to its receive from `runnerErrors`. -/
inductive StopPc where
  | idle
  | waiting
  | received (err : Option String)
  deriving DecidableEq

structure Consuming (σ : Type) where
  -- `run`, whose input is what the channel holds
  pp : PartitionProcessor σ
  -- `partitionChannelSize`
  capacity : Nat
  claims : List ClaimRun
  -- what the goroutines of the group have returned
  runResult : Option (Option String)
  joins : List (Option (Option String))
  groupErrs : List String
  waiter : WaiterPc
  runnerErrors : Option String
  stop : StopPc

namespace Consuming

variable {α Callback σ : Type} (cfg : Config α Callback) (s : Consuming σ)

def start (topics : List String) (capacity joins : Nat) (table : Option σ) (marked : Int) :
    Consuming σ where
  pp := .start [] table marked
  capacity := capacity
  claims := topics.map ClaimRun.new
  runResult := none
  joins := List.replicate joins none
  groupErrs := []
  waiter := .waiting
  runnerErrors := none
  stop := .idle

def onClaim (i : Nat) (move : ClaimRun → Option ClaimRun) : Option (Consuming σ) :=
  match s.claims[i]? with
  | none => none
  | some claim => (move claim).map fun claim => { s with claims := s.claims.set i claim }

/-- The send into the buffer of the input. -/
def forward (i : Nat) : Option (Consuming σ) :=
  match s.claims[i]? with
  | none => none
  | some claim =>
      match claim.pc with
      | .sending msg =>
          if s.pp.input.length < s.capacity then
            some { s with
              pp := { s.pp with input := s.pp.input ++ [msg] }
              claims := s.claims.set i (claim.forward msg) }
          else
            none
      | _ => none

/-- The send to a `run` that is waiting in its select, which needs no buffer. -/
def handOff (i : Nat) : Option (Consuming σ) :=
  match s.claims[i]? with
  | none => none
  | some claim =>
      match claim.pc with
      | .sending msg =>
          if s.pp.input = [] then
            ({ s.pp with input := [msg] }.take cfg).map fun pp =>
              { s with pp := pp, claims := s.claims.set i (claim.forward msg) }
          else
            none
      | _ => none

/-- A receive from `runnerErrors`: the value it holds, or nil once it is closed. -/
def receiveError : Option (Option String × Consuming σ) :=
  match s.runnerErrors with
  | some err => some (some err, { s with runnerErrors := none })
  | none => if s.waiter = .closed then some (none, s) else none

def takeError (i : Nat) : Option (Consuming σ) :=
  match s.receiveError with
  | none => none
  | some (err, s) => s.onClaim i fun claim => claim.takeError err

/-- A goroutine of the group has ended. -/
def collect : Option String → Consuming σ
  | none => s
  | some err =>
      { s with groupErrs := s.groupErrs ++ [err], pp := { s.pp with cancelled := true } }

/-- `run` returns, after it has waited for its messages or has given up on them. -/
def runReturns : Option (Consuming σ) :=
  if s.pp.pc = .exited ∧ s.runResult = none then
    let err := nilOrError (s.pp.errs ++ s.pp.rerr.toList)
    some ({ s with runResult := some err }.collect err)
  else
    none

def joinReturns (i : Nat) (err : Option String) : Option (Consuming σ) :=
  if s.joins[i]? = some none then
    some ({ s with joins := s.joins.set i (some err) }.collect err)
  else
    none

/-- `Wait` of the group is over, which cancels the context, and its error is put into the
channel. -/
def groupDone : Option (Consuming σ) :=
  if s.waiter = .waiting ∧ s.runResult.isSome = true ∧ ∀ join ∈ s.joins, join.isSome = true then
    some { s with
      pp := { s.pp with cancelled := true }
      waiter := .sent
      runnerErrors := nilOrError s.groupErrs }
  else
    none

def closeErrors : Option (Consuming σ) :=
  if s.waiter = .sent then some { s with waiter := .closed } else none

def callStop : Option (Consuming σ) :=
  if s.stop = .idle then
    some { s with pp := { s.pp with cancelled := true }, stop := .waiting }
  else
    none

def stopReceives : Option (Consuming σ) :=
  if s.stop = .waiting then
    s.receiveError.map fun (err, s) => { s with stop := .received err }
  else
    none

inductive Action (α : Type) where
  | arrive (i : Nat) (msg : Message)
  | closeMessages (i : Nat)
  | receive (i : Nat)
  | messagesClosed (i : Nat)
  | forward (i : Nat)
  | handOff (i : Nat)
  | takeError (i : Nat)
  | runner (action : PartitionProcessor.Action α)
  | runReturns
  | joinReturns (i : Nat) (err : Option String)
  | groupDone
  | closeErrors
  | callStop
  | stopReceives

/-- The input of a partition processor is never closed. -/
def step [TableStore σ] : Action α → Option (Consuming σ)
  | .arrive i msg => s.onClaim i fun claim => claim.arrive msg
  | .closeMessages i => s.onClaim i fun claim => some { claim with closed := true }
  | .receive i => s.onClaim i ClaimRun.receive
  | .messagesClosed i => s.onClaim i ClaimRun.messagesClosed
  | .forward i => s.forward i
  | .handOff i => s.handOff cfg i
  | .takeError i => s.takeError i
  | .runner .inputClosed => none
  | .runner action => (s.pp.step cfg action).map fun pp => { s with pp := pp }
  | .runReturns => s.runReturns
  | .joinReturns i err => s.joinReturns i err
  | .groupDone => s.groupDone
  | .closeErrors => s.closeErrors
  | .callStop => s.callStop
  | .stopReceives => s.stopReceives

/-- The errors that were received, by the claims and by `Stop`. -/
def reports : List String :=
  s.claims.filterMap ClaimRun.reported ++
    match s.stop with
    | .received err => err.toList
    | _ => []

/-- The messages that were sent into the input: those `run` has taken and those still in the
channel. -/
def entered : List Message := s.pp.taken.map (fun ctx => ctx.msg) ++ s.pp.input

end Consuming

end Goka
