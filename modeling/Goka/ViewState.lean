import Goka.PartitionTable
import Goka.Signal
import Mathlib.Logic.Function.Basic

/-!
# The state of a view

`View.runStateMerger` observes the state of every partition and sets the state of the view. One
goroutine for each partition receives from the channel of its observer, which holds one state, and
then calls `updateViewState`, which takes a mutex; a partition that changes its state while the
channel is full waits for the goroutine. The deliveries are kept as a ghost, the newest first.
-/

namespace Goka

inductive ViewState where
  | idle
  | initializing
  | connecting
  | catchUp
  | running
  deriving Repr, DecidableEq

def ViewState.toInt : ViewState → Int
  | idle => 0
  | initializing => 1
  | connecting => 2
  | catchUp => 3
  | running => 4

def newViewSignal : Outcome Signal :=
  (Signal.new ([.idle, .initializing, .connecting, .catchUp,
    .running].map ViewState.toInt)).setState
    ViewState.idle.toInt

/-- The translation of the lowest state in `updateViewState`. -/
def PartitionStatus.viewState : PartitionStatus → ViewState
  | stopped => .idle
  | initializing => .initializing
  | connecting => .connecting
  | recovering => .catchUp
  | preparing => .catchUp
  | running => .running

/-- A partition's state, the channel of its observer, and the state that the observer's goroutine
has received and not yet passed on. -/
structure ObservedPartition where
  state : PartitionStatus
  observed : Bool
  c : Option PartitionStatus
  received : Option PartitionStatus
  deriving DecidableEq

structure StateMerger (n : Nat) where
  partitions : Fin n → ObservedPartition
  -- the loop over the partitions has reached this one
  idx : Nat
  states : GoMap (Fin n) PartitionStatus
  view : Signal
  delivered : List (Fin n × PartitionStatus)

namespace StateMerger

variable {n : Nat}

def lower : Option PartitionStatus → PartitionStatus → Option PartitionStatus
  | none, partitionState => some partitionState
  | some lowestState, partitionState =>
      if partitionState.toNat < lowestState.toNat then some partitionState else some lowestState

def lowestState (states : GoMap (Fin n) PartitionStatus) : Option PartitionStatus :=
  (states.entries.map Sigma.snd).foldl lower none

variable (m : StateMerger n)

def setPartition (i : Fin n) (partition : ObservedPartition) : StateMerger n :=
  { m with partitions := Function.update m.partitions i partition }

def updateViewState (i : Fin n) (state : PartitionStatus) : Outcome (StateMerger n) := do
  let m := { m with states := m.states.insert i state, delivered := (i, state) :: m.delivered }
  match lowestState m.states with
  | none => .ok m
  | some lowest => do
      let view ← m.view.setState lowest.viewState.toInt
      .ok { m with view := view }

inductive Action (n : Nat) where
  /-- The loop asks the next partition for an observer. -/
  | observe
  /-- A partition sets its state. -/
  | change (i : Fin n) (state : PartitionStatus)
  | receive (i : Fin n)
  | update (i : Fin n)
  /-- The goroutine sees that the context is done and stops its observer. -/
  | stop (i : Fin n)
  deriving Repr, DecidableEq

def step : Action n → Option (StateMerger n)
  | .observe =>
      if h : m.idx < n then
        let partition := m.partitions ⟨m.idx, h⟩
        let m := m.setPartition ⟨m.idx, h⟩
          { partition with observed := true, c := some partition.state }
        some { m with idx := m.idx + 1 }
      else
        none
  | .change i state =>
      let partition := m.partitions i
      if partition.state = state then some m
      else if partition.observed = false then
        some (m.setPartition i { partition with state := state })
      else if partition.c = none then
        some (m.setPartition i { partition with state := state, c := some state })
      else
        none
  | .receive i =>
      let partition := m.partitions i
      match partition.received, partition.c with
      | none, some state =>
          some (m.setPartition i { partition with c := none, received := some state })
      | _, _ => none
  | .update i =>
      let partition := m.partitions i
      match partition.received with
      | none => none
      | some state =>
          match (m.setPartition i { partition with received := none }).updateViewState i state with
          | .ok m => some m
          | _ => none
  | .stop i =>
      let partition := m.partitions i
      if partition.observed = true ∧ partition.received = none then
        some (m.setPartition i { partition with observed := false, c := none })
      else
        none

/-- `runStateMerger` begins: no state has been delivered yet. -/
def start (states : Fin n → PartitionStatus) (view : Signal) : StateMerger n where
  partitions i := { state := states i, observed := false, c := none, received := none }
  idx := 0
  states := ∅
  view := view
  delivered := []

end StateMerger

end Goka
