import Goka.Iterator
import Mathlib.Data.List.Sort

/-!
# The memory storage

A Go map with its keys in a second, sorted slice, and the iterator over a copy of both. A value may
be a nil slice, as in the source's map, although none is ever stored. `sort.Strings` is any sort:
the order is linear. What only keeps the table's offset is left out.
-/

namespace Goka

structure MemIter where
  current : Int
  keys : List Bytes
  storage : GoMap Bytes (Option Bytes)

namespace MemIter

variable (i : MemIter)

def exhausted : Bool := decide ((i.keys.length : Int) ≤ i.current)

/-- `i.keys[i.current]`. -/
def keyAt : Outcome Bytes :=
  if i.current < 0 then
    .panic ("runtime error: index out of range [" ++ toString i.current ++ "]")
  else
    match i.keys[i.current.toNat]? with
    | some key => .ok key
    | none =>
        .panic ("runtime error: index out of range [" ++ toString i.current ++ "] with length " ++
          toString i.keys.length)

def key : Outcome (Option Bytes) :=
  if i.exhausted then return none
  else return some (← i.keyAt)

def value : Outcome (Option Bytes) :=
  if i.exhausted then return none
  else return (i.storage.lookup (← i.keyAt)).getD none

def increment : MemIter := { i with current := i.current + 1 }

def next : Outcome (Bool × MemIter) := do
  let i := i.increment
  let i := if (← i.key).getD [] = offsetKey then i.increment else i
  return (!i.exhausted, i)

def release : MemIter := { i with current := i.keys.length }

/-- The loop of `Seek` over the keys from `current` on. -/
def seekLoop (key : Bytes) : List Bytes → Int → Int
  | [], current => current
  | k :: keys, current =>
      if key.isPrefixOf k then current else seekLoop key keys (current + 1)

def seekFrom (key : Bytes) : Bool × MemIter :=
  let i := { i with current := seekLoop key (i.keys.drop i.current.toNat) i.current }
  (!i.exhausted, i)

def seek (key : Bytes) : Outcome (Bool × MemIter) :=
  if i.exhausted then
    return (false, i)
  else if i.current < 0 then do
    let (found, i) ← i.next
    if found then return i.seekFrom key else return (false, i)
  else
    return i.seekFrom key

def call : StorageIterator.Call → Outcome (Bool × MemIter)
  | .next => i.next
  | .seek key => i.seek key

def run (calls : List StorageIterator.Call) : Outcome MemIter :=
  calls.foldlM (fun i c => do return (← i.call c).2) i

end MemIter

structure Memory where
  keys : List Bytes
  storage : GoMap Bytes (Option Bytes)

/-- The limit of `util.BytesPrefix`, nil where no key lies above all keys with the prefix: the last
byte that is not the largest is increased, and what follows it is cut off. -/
def bytesPrefixLimit : Bytes → Bytes
  | [] => []
  | c :: rest =>
      match bytesPrefixLimit rest with
      | [] => if c < 0xff then [c + 1] else []
      | b :: limit => c :: b :: limit

namespace Memory

def new : Memory where
  keys := []
  storage := ∅

variable (m : Memory)

def has (key : Bytes) : Bool := (m.storage.lookup key).isSome

def get (key : Bytes) : Option Bytes := (m.storage.lookup key).getD none

def set (key : Bytes) (value : Option Bytes) : Option String × Memory :=
  if value = none then
    (some "cannot write nil value", m)
  else
    let keys :=
      if m.has key = false then (m.keys ++ [key]).insertionSort (· ≤ ·) else m.keys
    (none, { keys := keys, storage := m.storage.insert key value })

def delete (key : Bytes) : Memory where
  keys := m.keys.erase key
  storage := m.storage.erase key

inductive Call where
  | set (key : Bytes) (value : Option Bytes)
  | delete (key : Bytes)
  deriving Repr, DecidableEq

def call : Call → Memory
  | .set key value => (m.set key value).2
  | .delete key => m.delete key

def run (calls : List Call) : Memory := calls.foldl call m

def iterator : MemIter where
  current := -1
  keys := m.keys
  storage := m.storage

/-- The body of the loop of `IteratorWithRange`. -/
def keepInRange (start limit : Bytes) (i : MemIter) (k : Bytes) : MemIter :=
  if start ≤ k ∧ k ≤ limit then
    { i with keys := i.keys ++ [k], storage := i.storage.insert k (m.get k) }
  else
    i

def iteratorWithRange (start limit : Bytes) : MemIter :=
  let limit := if limit = [] then bytesPrefixLimit start else limit
  m.keys.foldl (m.keepInRange start limit) { current := -1, keys := [], storage := ∅ }

end Memory

end Goka
