import Goka.Context
import Goka.Hash
import Goka.ViewTable

/-!
# A view and those who write to its topic

`Run` recovers all partitions, each in a goroutine of its own, and then catches up with them. The
first goroutine that returns an error cancels the context of the others, and `Run` waits for all of
them before it closes the view: it drops the partitions, so that nothing can be read any more, and
closes their storages. After that another view may be run on the same databases.

Writers choose the partition by the hash of the key. What they have written is kept in one list.
-/

namespace Goka

inductive ViewPhase where
  | created
  | recovering
  | catching
  -- what `Run` is going to return, without the errors of `close`
  | closing (rerr : Option String)
  | returned (rerr : Option String)
  deriving Repr, DecidableEq

structure ViewRun where
  topic : String
  hasher : Hasher
  autoreconnect : Bool
  phase : ViewPhase
  ctxDone : Bool
  tables : List ViewTable
  -- `close` has set `v.partitions` to nil
  dropped : Bool
  -- what the goroutines of the error group have returned
  errs : List String
  writes : List TableRecord

/-- The partition a writer chooses. -/
def writerPartition (hasher : Hasher) (partitions : Nat) (key : Bytes) : Option Nat :=
  match hasher key with
  | .error _ => none
  | .ok sum => some (hashPartitioner sum (Int32.ofNat partitions)).toInt.toNat

namespace ViewRun

def new (topic : String) (hasher : Hasher) (autoreconnect : Bool) (partitions : Nat) : ViewRun where
  topic := topic
  hasher := hasher
  autoreconnect := autoreconnect
  phase := .created
  ctxDone := false
  tables := (List.range partitions).map (ViewTable.new topic)
  dropped := false
  errs := []
  writes := []

variable (s : ViewRun)

def view : View ViewTable where
  hasher := s.hasher
  partitions := if s.dropped then [] else s.tables

/-- `View.Get` without the decoding. -/
def get (key : Bytes) : Outcome (Option Bytes) := do
  let table ← s.view.find key
  match table.get key with
  | .error err => .error ("error getting value (key " ++ key.text ++ "): " ++ err)
  | .ok data => .ok data

/-- A table moves on. -/
def onTable (i : Nat) (move : ViewTable → Option ViewTable) : Option ViewRun :=
  match s.tables[i]? with
  | none => none
  | some table => (move table).map fun table => { s with tables := s.tables.set i table }

def write (record : TableRecord) : Option ViewRun :=
  match writerPartition s.hasher s.tables.length record.key with
  | none => none
  | some i =>
      (s.onTable i fun table => table.append record).map fun s =>
        { s with writes := s.writes ++ [record] }

/-- The steps that the phase of `Run` allows. -/
def allows : ViewTable.Action → Bool
  | .create _ _ _ | .setupAndRecover => s.phase = .recovering
  | .catchupForever => s.phase = .catching
  | .close _ => s.dropped
  | .returns | .evict _ => false
  | _ => true

def inTable (i : Nat) (action : ViewTable.Action) : Option ViewRun :=
  if s.allows action then s.onTable i fun table => table.step s.autoreconnect action else none

/-- `Evict`. -/
def evict (key : Bytes) : Option ViewRun :=
  match s.view.hash key with
  | .ok h =>
      if s.dropped then none
      else s.onTable h.toInt.toNat fun table => table.step s.autoreconnect (.evict key)
  | _ => none

/-- A goroutine returns to the error group, and the first error cancels the context of all. -/
def returns (i : Nat) : Option ViewRun :=
  match s.tables[i]? with
  | none => none
  | some table =>
      table.returns.map fun table' =>
        let tables := s.tables.set i table'
        if table.table.errs = [] then
          { s with tables := tables }
        else
          { s with
            tables := tables.map ViewTable.cancel, errs := s.errs ++ [errorsText table.table.errs] }

def run : Option ViewRun :=
  if s.phase = .created then some { s with phase := .recovering } else none

def errorOf (what : String) : Option String :=
  if s.errs = [] then none
  else some ("Error " ++ what ++ " partitions for view " ++ s.topic ++ ": " ++ errorsText s.errs)

/-- The error group of the recovery is done. -/
def recovered : Option ViewRun :=
  if s.phase = .recovering ∧ ∀ table ∈ s.tables, table.phase = .recovered then
    if s.errs ≠ [] ∨ s.ctxDone then
      some { s with phase := .closing (s.errorOf "recovering") }
    else
      some { s with phase := .catching }
  else
    none

/-- The error group of the catch-up is done. -/
def caughtUp : Option ViewRun :=
  if s.phase = .catching ∧ ∀ table ∈ s.tables, table.phase = .returned then
    some { s with phase := .closing (s.errorOf "catching up") }
  else
    none

def close : Option ViewRun :=
  match s.phase with
  | .closing _ => if s.dropped then none else some { s with dropped := true }
  | _ => none

/-- All storages are closed, with these errors. -/
def runReturns (closeErrs : List String) : Option ViewRun :=
  match s.phase with
  | .closing rerr =>
      if s.dropped = true ∧ ∀ table ∈ s.tables, table.phase = .closed then
        let errs := rerr.toList ++ (if closeErrs = [] then [] else [errorsText closeErrs])
        some { s with phase := .returned (if errs = [] then none else some (errorsText errs)) }
      else
        none
  | _ => none

def cancel : ViewRun := { s with ctxDone := true, tables := s.tables.map ViewTable.cancel }

/-- Another view is created on the databases. -/
def restart (autoreconnect : Bool) : Option ViewRun :=
  match s.phase with
  | .returned _ =>
      some { s with
        autoreconnect := autoreconnect
        phase := .created
        ctxDone := false
        tables := s.tables.map ViewTable.reopen
        dropped := false
        errs := [] }
  | _ => none

inductive Action where
  | write (record : TableRecord)
  | run
  | inTable (i : Nat) (action : ViewTable.Action)
  | evict (key : Bytes)
  | returns (i : Nat)
  | recovered
  | caughtUp
  | close
  | runReturns (closeErrs : List String)
  | cancel
  | restart (autoreconnect : Bool)

def perform : Action → Option ViewRun
  | .write record => s.write record
  | .run => s.run
  | .inTable i action => s.inTable i action
  | .evict key => s.evict key
  | .returns i => s.returns i
  | .recovered => s.recovered
  | .caughtUp => s.caughtUp
  | .close => s.close
  | .runReturns closeErrs => s.runReturns closeErrs
  | .cancel => some s.cancel
  | .restart autoreconnect => s.restart autoreconnect

/-- A goroutine has panicked, which ends the process. -/
def crashed : Bool := s.tables.any fun table => table.table.pc = .crashed

def step (action : Action) : Option ViewRun := if s.crashed then none else s.perform action

end ViewRun

end Goka
