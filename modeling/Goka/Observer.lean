import Goka.Signal

/-!
# State change observers

`SetState` keeps the mutex while it notifies the observers one after the other, and each
notification waits until the observer's channel has room or the observer is closed. `Stop` closes
the observer outside the mutex and takes the mutex only to remove the observer and to close its
channel. So a call is more than one step: `notifying` is the loop of a `SetState` that holds the
mutex, with the observers it has not come to.

An observer is named by the number of observers made before it. Every observer is stopped at most
once.
-/

namespace Goka

structure StateChangeObserver where
  -- what the channel `c` holds, which is at most one state
  buffer : List Int
  -- `closed` has been closed
  closed : Bool
  -- `c` has been closed
  cClosed : Bool
  -- ghosts: what was put into `c` and what was received, the state at the registration and the
  -- number of changes before it
  sent : List Int
  received : List Int
  first : Int
  since : Nat
  deriving Repr, DecidableEq

structure ObservedSignal where
  signal : Signal
  stateChangeObservers : List (Option Nat)
  observers : List StateChangeObserver
  notifying : Option (Int × List (Option Nat))
  panicked : Option String
  -- ghost: the states that were entered
  changes : List Int
  deriving Repr, DecidableEq

/-- A slice of observers: the array behind it and its length. -/
structure ObserverSlice where
  array : List (Option Nat)
  len : Nat
  deriving Repr, DecidableEq

namespace ObserverSlice

/-- `copy(s[idx:], s[idx+1:])`, then the last element is set to nil and cut off. -/
def cut (s : ObserverSlice) (idx : Nat) : ObserverSlice where
  array := s.array.take idx ++ (s.array.take s.len).drop (idx + 1) ++ none :: s.array.drop s.len
  len := s.len - 1

/-- The loop of `stop`: its `range` goes over the array as it was long before, and reads what stands
there. -/
def remove (observers : List (Option Nat)) (observer : Nat) : ObserverSlice :=
  (List.range observers.length).foldl
    (fun s idx => if s.array[idx]? = some (some observer) then s.cut idx else s)
    { array := observers, len := observers.length }

end ObserverSlice

namespace ObservedSignal

def new (states : List Int) : ObservedSignal where
  signal := .new states
  stateChangeObservers := []
  observers := []
  notifying := none
  panicked := none
  changes := []

variable (s : ObservedSignal)

/-- A call of `SetState`, up to its loop over the observers, or one of the calls that wait for a
state. -/
def call (c : Signal.Call) : Option ObservedSignal :=
  if s.notifying = none then
    match s.signal.call c with
    | .ok signal =>
        if signal.state = s.signal.state then
          some { s with signal := signal }
        else
          some { s with
            signal := signal
            notifying := some (signal.state, s.stateChangeObservers)
            changes := s.changes ++ [signal.state] }
    | .error err | .panic err => some { s with panicked := some err }
  else
    none

/-- The case `s.c <- state` of `notify`. -/
def notifySend : Option ObservedSignal :=
  match s.notifying with
  | some (state, some id :: rest) =>
      match s.observers[id]? with
      | none => none
      | some obs =>
          if obs.cClosed then
            some { s with panicked := some "send on closed channel" }
          else if obs.buffer.length < 1 then
            let obs := { obs with buffer := obs.buffer ++ [state], sent := obs.sent ++ [state] }
            some { s with notifying := some (state, rest), observers := s.observers.set id obs }
          else
            none
  | some (_, none :: _) =>
      some { s with panicked := some "invalid memory address or nil pointer dereference" }
  | _ => none

/-- The case `<-s.closed` of `notify`. -/
def notifyClosed : Option ObservedSignal :=
  match s.notifying with
  | some (state, some id :: rest) =>
      if s.observers[id]?.any StateChangeObserver.closed then
        some { s with notifying := some (state, rest) }
      else
        none
  | _ => none

/-- `SetState` returns. -/
def unlock : Option ObservedSignal :=
  match s.notifying with
  | some (_, []) => some { s with notifying := none }
  | _ => none

/-- The channel of a new observer has room for the current state. -/
def observeStateChange : Option ObservedSignal :=
  if s.notifying = none then
    let observer : StateChangeObserver := {
      buffer := [s.signal.state]
      closed := false
      cClosed := false
      sent := [s.signal.state]
      received := []
      first := s.signal.state
      since := s.changes.length }
    some { s with
      stateChangeObservers := s.stateChangeObservers ++ [some s.observers.length]
      observers := s.observers ++ [observer] }
  else
    none

def receive (id : Nat) : Option ObservedSignal :=
  match s.observers[id]? with
  | none => none
  | some obs =>
      match obs.buffer with
      | [] => none
      | state :: buffer =>
          let obs := { obs with buffer := buffer, received := obs.received ++ [state] }
          some { s with observers := s.observers.set id obs }

/-- `Stop` closes `closed`. -/
def stopBegin (id : Nat) : Option ObservedSignal :=
  match s.observers[id]? with
  | none => none
  | some obs =>
      if obs.closed then none
      else some { s with observers := s.observers.set id { obs with closed := true } }

/-- The part of `Stop` under the mutex. -/
def stopRemove (id : Nat) : Option ObservedSignal :=
  if s.notifying = none then
    match s.observers[id]? with
    | none => none
    | some obs =>
        if obs.closed = true ∧ obs.cClosed = false then
          let slice := ObserverSlice.remove s.stateChangeObservers id
          some { s with
            stateChangeObservers := slice.array.take slice.len
            observers := s.observers.set id { obs with cClosed := true } }
        else
          none
  else
    none

inductive Action where
  | call (c : Signal.Call)
  | notifySend
  | notifyClosed
  | unlock
  | observeStateChange
  | receive (id : Nat)
  | stopBegin (id : Nat)
  | stopRemove (id : Nat)
  deriving Repr, DecidableEq

/-- A panic ends the program. -/
def step (action : Action) : Option ObservedSignal :=
  if s.panicked = none then
    match action with
    | .call c => s.call c
    | .notifySend => s.notifySend
    | .notifyClosed => s.notifyClosed
    | .unlock => s.unlock
    | .observeStateChange => s.observeStateChange
    | .receive id => s.receive id
    | .stopBegin id => s.stopBegin id
    | .stopRemove id => s.stopRemove id
  else
    none

end ObservedSignal

end Goka
