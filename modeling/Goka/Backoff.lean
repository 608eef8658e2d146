import Goka.PartitionTable

/-!
# Restarting a load

`loadRestarting` calls `load` until it ends without an error. Behind each error it stops the timer
of the error before, starts one that will reset the backoff, asks the backoff for the time to wait
and waits. A timer that has fired cannot be stopped any more, so its reset may still come at any
moment; nothing stops the last timer of a call that has returned.

The loop stands beside the table: `load` and the calls around it are the steps of the table, and the
table waits in its own `backoff` while the loop handles an error. `Reset` and `Duration` are a step
each. The time that a timer takes is left open.
-/

namespace Goka

def second : Int64 := 1000000000

structure SimpleBackoff where
  current : Int64
  step : Int64
  deriving DecidableEq

/-- `NewSimpleBackoff`, which makes no use of the step it is given. -/
def newSimpleBackoff (_ : Int64) : SimpleBackoff where
  current := 0
  step := second

namespace SimpleBackoff

variable (b : SimpleBackoff)

def reset : SimpleBackoff := { b with current := 0 }

def duration : Int64 × SimpleBackoff :=
  let b := { b with current := b.current + b.step }
  (b.current, b)

end SimpleBackoff

def defaultBackoffBuilder : SimpleBackoff := newSimpleBackoff (second * 10)

/-- A timer of `time.AfterFunc`, which is `fired` until its callback has run. -/
inductive ResetTimer where
  | armed
  | stopped
  | fired
  | done
  deriving Repr, DecidableEq

inductive RestartPc where
  -- in `load`, or outside of `loadRestarting`
  | loading
  -- `load` has returned an error
  | failed
  -- the timer has been started
  | started
  -- in the select
  | waiting
  deriving Repr, DecidableEq

/-- The loop has an error at hand and has not yet asked for the time to wait. -/
def RestartPc.handling : RestartPc → Bool
  | failed | started => true
  | loading | waiting => false

structure Delay where
  retryDuration : Int64
  -- ghost: the failures since the last reset
  failures : Nat
  -- ghost: a reset came between the failure and the call of `Duration`
  interrupted : Bool
  deriving DecidableEq

structure RestartingTable where
  table : PartitionTable
  backoff : SimpleBackoff
  pc : RestartPc
  -- every timer that was started
  timers : List ResetTimer
  resetTimer : Option Nat
  -- ghost: as in `Delay`, and the delays so far
  failures : Nat
  interrupted : Bool
  delays : List Delay

namespace RestartingTable

def new (backoff : SimpleBackoff) (table : PartitionTable) : RestartingTable where
  table := table
  backoff := backoff
  pc := .loading
  timers := []
  resetTimer := none
  failures := 0
  interrupted := false
  delays := []

variable (s : RestartingTable)

/-- `resetTimer` is a local variable of the call. -/
def resetTimerBehind : PartitionTable.Event → Option Nat
  | .setupAndRecover .. | .catchupForever _ => none
  | _ => s.resetTimer

/-- The table goes on. It neither retries nor returns before the loop has come to its select. -/
def tableStep (event : PartitionTable.Event) : Option RestartingTable :=
  match s.table.step event with
  | none => none
  | some table =>
      if table.pc ≠ .backoff then
        if s.pc.handling then
          none
        else
          some { s with table := table, pc := .loading, resetTimer := s.resetTimerBehind event }
      else if s.table.pc = .backoff then
        some { s with table := table }
      else
        some { s with
          table := table, pc := .failed, failures := s.failures + 1, interrupted := false }

/-- `resetTimer.Stop()`, unless it is nil. -/
def stopTimer : List ResetTimer :=
  match s.resetTimer with
  | none => s.timers
  | some i => if s.timers[i]? = some .armed then s.timers.set i .stopped else s.timers

def startTimer : Option RestartingTable :=
  if s.pc = .failed then
    some { s with
      pc := .started
      timers := s.stopTimer ++ [.armed]
      resetTimer := some s.timers.length }
  else
    none

def duration : Option RestartingTable :=
  if s.pc = .started then
    let (retryDuration, backoff) := s.backoff.duration
    some { s with
      pc := .waiting
      backoff := backoff
      delays := s.delays ++ [⟨retryDuration, s.failures, s.interrupted⟩] }
  else
    none

def fire (i : Nat) : Option RestartingTable :=
  if s.timers[i]? = some .armed then some { s with timers := s.timers.set i .fired } else none

/-- The callback of a timer. -/
def reset (i : Nat) : Option RestartingTable :=
  if s.timers[i]? = some .fired then
    some { s with
      timers := s.timers.set i .done
      backoff := s.backoff.reset
      failures := 0
      interrupted := true }
  else
    none

inductive Action where
  | table (event : PartitionTable.Event)
  | startTimer
  | duration
  | fire (i : Nat)
  | reset (i : Nat)

def step : Action → Option RestartingTable
  | .table event => s.tableStep event
  | .startTimer => s.startTimer
  | .duration => s.duration
  | .fire i => s.fire i
  | .reset i => s.reset i

end RestartingTable

end Goka
