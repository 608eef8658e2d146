import Goka.Basic

/-!
# Signals

A signal holds a state and the goroutines that wait for one. Every call takes the mutex, so a run is
a sequence of calls. A waiter's channel is named by the number of channels made before it, and
`closed` lists the calls of `close` in their order. The observers of a signal are notified after its
waiters; `SetState` is modelled here up to that point.
-/

namespace Goka

structure Waiter where
  done : Nat
  state : Int
  minState : Bool
  deriving Repr, DecidableEq

/-- Whether the waiter's channel is to be closed in this state. -/
def Waiter.awaits (w : Waiter) (state : Int) : Bool :=
  w.state == state || (w.minState && decide (w.state ≤ state))

structure Signal where
  state : Int
  waiters : List Waiter
  allowedStates : List Int
  made : Nat
  closed : List Nat
  deriving Repr, DecidableEq

namespace Signal

/-- `NewSignal`: the state is the zero value, allowed or not. -/
def new (states : List Int) : Signal where
  state := 0
  waiters := []
  allowedStates := states
  made := 0
  closed := []

variable (s : Signal)

def close (done : Nat) : Outcome Signal :=
  if done ∈ s.closed then .panic "close of closed channel"
  else .ok { s with closed := s.closed ++ [done] }

/-- The loop of `SetState` over the waiters; `newWaiters` are those kept so far. -/
def closeWaiters (state : Int) : List Waiter → List Waiter → Signal → Outcome Signal
  | [], newWaiters, s => .ok { s with waiters := newWaiters }
  | w :: waiters, newWaiters, s =>
      if w.awaits state then do
        let s ← s.close w.done
        closeWaiters state waiters newWaiters s
      else
        closeWaiters state waiters (newWaiters ++ [w]) s

def setState (state : Int) : Outcome Signal :=
  if state ∉ s.allowedStates then .panic s!"trying to set illegal state {state}"
  else if s.state = state then .ok s
  else closeWaiters state s.waiters [] { s with state := state }

/-- `waitForWaiter`: the channel of `w` has just been made. -/
def waitForWaiter (w : Waiter) : Outcome Signal :=
  let s := { s with made := s.made + 1 }
  if w.awaits s.state then s.close w.done
  else .ok { s with waiters := s.waiters ++ [w] }

def waitForState (state : Int) : Outcome Signal :=
  s.waitForWaiter { done := s.made, state := state, minState := false }

def waitForStateMin (state : Int) : Outcome Signal :=
  s.waitForWaiter { done := s.made, state := state, minState := true }

inductive Call where
  | setState (state : Int)
  | waitForState (state : Int)
  | waitForStateMin (state : Int)
  deriving Repr, DecidableEq

def call : Call → Outcome Signal
  | .setState state => s.setState state
  | .waitForState state => s.waitForState state
  | .waitForStateMin state => s.waitForStateMin state

def run (calls : List Call) : Outcome Signal := calls.foldlM call s

end Signal

end Goka
