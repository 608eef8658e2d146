import Goka.Basic

/-!
# Promises

A promise keeps the message and the error it was finished with and the callbacks that wait for them.
Every call takes the mutex, so a run is a sequence of calls. A callback is named by the number of
callbacks registered before it; what it was invoked with is kept in order.
-/

namespace Goka

/-- A callback given to `Then` is wrapped and does not see the message. -/
structure Callback where
  id : Nat
  withMessage : Bool
  deriving Repr, DecidableEq

/-- The message and the error of a call of `finish`. -/
abbrev Settlement (M : Type) := Option M × Option String

/-- What the callback itself is called with. -/
def Callback.receives {M : Type} (callback : Callback) (settlement : Settlement M) : Settlement M :=
  (if callback.withMessage then settlement.1 else none, settlement.2)

structure Promise (M : Type) where
  err : Option String
  msg : Option M
  finished : Bool
  callbacks : List Callback
  made : Nat
  invoked : List (Callback × Settlement M)
  deriving Repr, DecidableEq

namespace Promise

variable {M : Type}

def new : Promise M where
  err := none
  msg := none
  finished := false
  callbacks := []
  made := 0
  invoked := []

variable (p : Promise M)

def invoke (callback : Callback) : Promise M :=
  { p with invoked := p.invoked ++ [(callback, callback.receives (p.msg, p.err))] }

def executeCallbacks : Promise M :=
  if p.finished then p
  else { p.callbacks.foldl invoke p with finished := true }

/-- `ThenWithMessage`, given a callback that uses the message or, from `Then`, one that drops it. -/
def thenWithMessage (withMessage : Bool) : Promise M :=
  let callback : Callback := { id := p.made, withMessage := withMessage }
  let p := { p with made := p.made + 1 }
  if p.finished then p.invoke callback
  else { p with callbacks := p.callbacks ++ [callback] }

/-- `Then`. -/
def andThen : Promise M := p.thenWithMessage false

def finish (msg : Option M) (err : Option String) : Promise M :=
  { p with err := err, msg := msg }.executeCallbacks

inductive Call (M : Type) where
  | andThen
  | thenWithMessage
  | finish (msg : Option M) (err : Option String)
  deriving Repr, DecidableEq

def call : Call M → Promise M
  | .andThen => p.andThen
  | .thenWithMessage => p.thenWithMessage true
  | .finish msg err => p.finish msg err

def run (calls : List (Call M)) : Promise M := calls.foldl call p

end Promise

end Goka
