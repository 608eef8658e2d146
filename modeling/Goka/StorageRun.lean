import Goka.Library.Schedule
import Goka.Storage

/-!
# Runs on one database

A database is opened as a storage, used, closed and opened again. The goroutine of `Open` loads the
offset from memory and puts it into the database at a later moment. `Close` does not wait for it, as
nothing is ever added to `closeWg`, so such a put can fall between the put of `Close` and the
closing of the database; after that it fails. The argument of the latest `SetOffset` is kept as a
ghost.
-/

namespace Goka

structure StorageRun where
  st : Storage
  -- the goroutine of `Open` has not returned
  syncing : Bool
  -- what it has loaded and not yet put
  curOffset : Option Int
  last : Option Int

namespace StorageRun

inductive Action where
  | setOffset (offset : Int)
  | markRecovered
  | syncLoad
  | syncPut
  | syncReturn
  | close
  /-- The database is closed, and opened as a new storage. -/
  | reopen
  deriving Repr, DecidableEq

def start (db : Database) : StorageRun where
  st := Storage.new db
  syncing := true
  curOffset := none
  last := none

def step (r : StorageRun) : Action → Option StorageRun
  | .setOffset offset =>
      if r.st.closed = false ∧ 0 ≤ offset ∧ offset < 2 ^ 63 then
        some { r with st := r.st.setOffset offset, last := some offset }
      else
        none
  | .markRecovered =>
      if r.st.closed = false then
        match r.st.markRecovered with
        | .ok st => some { r with st := st }
        | _ => none
      else
        none
  | .syncLoad =>
      if r.syncing = true ∧ r.curOffset = none then some { r with curOffset := some r.st.offset }
      else none
  | .syncPut =>
      match r.curOffset with
      | some curOffset => some { r with st := r.st.putLoaded curOffset, curOffset := none }
      | none => none
  | .syncReturn =>
      if r.curOffset = none ∧ (r.st.closed = true ∨ r.st.recovered = true) then
        some { r with syncing := false }
      else
        none
  | .close =>
      match r.st.close with
      | .ok st => some { r with st := st }
      | _ => none
  | .reopen =>
      if r.st.closed = true then
        some { r with st := Storage.new r.st.db, syncing := true, curOffset := none }
      else
        none

end StorageRun

end Goka
