import Goka.Context
import Goka.Library.Merge
import Goka.Storage
import Mathlib.Data.List.Lex

/-!
# Iterators

Three layers of iterators: LevelDB's own, seen through the storage's `iterator` that skips the
offset entry; the `mergeIterator` over several of them; and the view's `iterator` that decodes the
values. `bytes.Compare` is the lexicographic order. `container/heap` is taken from outside: what it
does to the slice is a priority queue.
-/

namespace Goka

instance linearOrderUInt8 : LinearOrder UInt8 where
  le_refl := UInt8.le_refl
  le_trans _ _ _ := UInt8.le_trans
  le_antisymm _ _ := UInt8.le_antisymm
  le_total := UInt8.le_total
  lt_iff_le_not_ge a b := by
    rw [UInt8.lt_iff_toNat_lt, UInt8.le_iff_toNat_le, UInt8.le_iff_toNat_le]
    omega
  toDecidableLE := inferInstance
  toDecidableEq := inferInstance
  toDecidableLT := inferInstance

abbrev Pair := Bytes × Bytes

/-- `storage.Iterator`, up to the release of its resources. -/
class StorageIterator (ι : Type) where
  next : ι → Bool × ι
  err : ι → Option String
  key : ι → Option Bytes
  value : ι → Except String (Option Bytes)
  seek : Bytes → ι → Bool × ι

namespace StorageIterator

variable {ι : Type} [StorageIterator ι]

inductive Call where
  | next
  | seek (key : Bytes)
  deriving Repr, DecidableEq

def call (i : ι) : Call → Bool × ι
  | .next => next i
  | .seek key => seek key i

def run (i : ι) (calls : List Call) : ι := calls.foldl (fun i c => (call i c).2) i

end StorageIterator

/-! ### LevelDB's iterator -/

/-- What an iterator visits: an ascending list of pairs, which may end in an error. -/
structure PairSource where
  pairs : List Pair
  ascending : Merge.Ascending Prod.fst pairs
  fault : Option String
  -- the error of reading the value of a pair
  valueErr : Pair → Option String

/-- An iterator that stands before its first pair, or on the first of the pairs `ahead` of it. -/
structure Cursor extends PairSource where
  started : Bool
  ahead : List Pair
  suffix : ahead <:+ pairs

namespace Cursor

def start (source : PairSource) : Cursor where
  toPairSource := source
  started := false
  ahead := source.pairs
  suffix := List.suffix_rfl

variable (c : Cursor)

def advance : Cursor :=
  if c.started then { c with ahead := c.ahead.tail, suffix := (List.tail_suffix _).trans c.suffix }
  else { c with started := true }

def position (key : Bytes) : Cursor :=
  { c with
    started := true
    ahead := c.pairs.dropWhile fun pair => pair.1 < key
    suffix := List.dropWhile_suffix _ }

def current : Option Pair := if c.started then c.ahead.head? else none

def currentValue : Except String (Option Bytes) :=
  match c.current with
  | none => .ok none
  | some pair =>
      match c.valueErr pair with
      | none => .ok (some pair.2)
      | some err => .error err

instance : StorageIterator Cursor where
  next c := (c.advance.current.isSome, c.advance)
  err c := if c.started = true ∧ c.ahead = [] then c.fault else none
  key c := c.current.map Prod.fst
  value c := c.currentValue
  seek key c := ((c.position key).current.isSome, c.position key)

end Cursor

/-! ### The iterator of a storage -/

/-- The pairs of a database in ascending order, as a snapshot of it. -/
structure Listing (db : Database) where
  pairs : List Pair
  ascending : pairs.Pairwise fun a b => a.1 < b.1
  mem_iff : ∀ key value, (key, value) ∈ pairs ↔ db key = some value

/-- `iterator` of the storage package. -/
structure LevelIterator where
  iter : Cursor

instance : StorageIterator LevelIterator where
  next i :=
    let (next, iter) := StorageIterator.next i.iter
    if (StorageIterator.key iter).getD [] = offsetKey then
      let (next, iter) := StorageIterator.next iter
      (next, ⟨iter⟩)
    else
      (next, ⟨iter⟩)
  err i := StorageIterator.err i.iter
  key i := StorageIterator.key i.iter
  value i := StorageIterator.value i.iter
  seek key i :=
    let (found, iter) := StorageIterator.seek key i.iter
    (found, ⟨iter⟩)

/-- The keys from `start` on and below `limit`; without a limit, those that begin with `start`. -/
def inRange (start limit key : Bytes) : Bool :=
  if limit ≠ [] then decide (start ≤ key ∧ key < limit) else start.isPrefixOf key

namespace Storage

variable (s : Storage) (listing : Listing s.db)

def iterator : LevelIterator :=
  ⟨.start ⟨listing.pairs, listing.ascending.imp fun h => h.le, none, fun _ => none⟩⟩

def iteratorWithRange (start limit : Bytes) : LevelIterator :=
  ⟨.start ⟨listing.pairs.filter fun pair => inRange start limit pair.1,
    (listing.ascending.imp fun h => h.le).filter _, none, fun _ => none⟩⟩

end Storage

/-! ### The merge iterator -/

/-- `append(buf[:0], data...)`: a nil buffer stays nil when nothing is appended. -/
def appendTo (buf data : Option Bytes) : Option Bytes :=
  if buf = none ∧ data.getD [] = [] then none else some (data.getD [])

/-- The heap holds the positions of its iterators in `iters`. -/
structure MergeIterator (q : PriorityQueue Nat Bytes) (ι : Type) where
  key : Option Bytes
  value : Option Bytes
  err : Option String
  heap : List Nat
  iters : List ι

namespace MergeIterator

variable {q : PriorityQueue Nat Bytes} {ι : Type} [StorageIterator ι]

/-- What `Less` compares. -/
def keys (iters : List ι) (i : Nat) : Bytes := (iters[i]?.bind StorageIterator.key).getD []

/-- The loop of `buildHeap`: `m.iters` are the iterators seen so far. -/
def buildLoop (hasValue : ι → Bool × ι) : List ι → MergeIterator q ι → MergeIterator q ι
  | [], m => m
  | iter :: rest, m =>
      let (found, iter) := hasValue iter
      let iters := m.iters ++ [iter]
      if found then
        let heap := q.push (keys iters) m.heap m.iters.length
        buildLoop hasValue rest { m with heap := heap, iters := iters }
      else
        let err := StorageIterator.err iter
        if err ≠ none then { m with err := err, iters := iters ++ rest }
        else buildLoop hasValue rest { m with err := err, iters := iters }

def buildHeap (hasValue : ι → Bool × ι) (m : MergeIterator q ι) : MergeIterator q ι :=
  buildLoop hasValue m.iters { m with heap := [], iters := [] }

def newMultiIterator (q : PriorityQueue Nat Bytes) (iters : List ι) : MergeIterator q ι :=
  buildHeap StorageIterator.next ⟨none, none, none, [], iters⟩

/-- The part of `Next` behind the pop. -/
def take (i : Nat) (iter : ι) (m : MergeIterator q ι) : Bool × MergeIterator q ι :=
  let key := appendTo m.key (StorageIterator.key iter)
  match StorageIterator.value iter with
  | .error err => (false, { m with key := key, err := some err })
  | .ok val =>
      let value := appendTo m.value val
      let (next, iter) := StorageIterator.next iter
      let iters := m.iters.set i iter
      if next then
        let heap := q.push (keys iters) m.heap i
        (true, { m with key := key, value := value, iters := iters, heap := heap })
      else
        let err := StorageIterator.err iter
        (err.isNone, { m with key := key, value := value, iters := iters, err := err })

def next (m : MergeIterator q ι) : Bool × MergeIterator q ι :=
  if m.err ≠ none ∨ m.heap = [] then
    (false, m)
  else
    match q.pop (keys m.iters) m.heap with
    | none => (false, m)
    | some (i, heap) =>
        match m.iters[i]? with
        | none => (false, m)
        | some iter => take i iter { m with heap := heap }

def seek (key : Bytes) (m : MergeIterator q ι) : Bool × MergeIterator q ι :=
  if m.err ≠ none then
    (false, m)
  else
    let m := buildHeap (StorageIterator.seek key) m
    (m.err.isNone && !m.heap.isEmpty, m)

def release (_ : MergeIterator q ι) : MergeIterator q ι := ⟨none, none, none, [], []⟩

instance : StorageIterator (MergeIterator q ι) where
  next := next
  err m := m.err
  key m := m.key
  value m := .ok m.value
  seek := seek

end MergeIterator

/-! ### The iterator of a view -/

/-- `iterator` of the goka package. -/
structure ViewIterator (q : PriorityQueue Nat Bytes) (α : Type) where
  iter : MergeIterator q LevelIterator
  codec : Codec α

namespace ViewIterator

variable {q : PriorityQueue Nat Bytes} {α : Type} (i : ViewIterator q α)

def next : Bool × ViewIterator q α :=
  let (next, iter) := i.iter.next
  (next, { i with iter := iter })

def key : Bytes := (StorageIterator.key i.iter).getD []

def value : Option α × Option String :=
  match StorageIterator.value i.iter with
  | .error err => (none, some err)
  | .ok none => (none, none)
  | .ok (some data) => i.codec.decode (some data)

def err : Option String := StorageIterator.err i.iter

def seek (key : Bytes) : Bool × ViewIterator q α :=
  let (found, iter) := i.iter.seek key
  (found, { i with iter := iter })

def call : StorageIterator.Call → Bool × ViewIterator q α
  | .next => i.next
  | .seek key => i.seek key

def run (calls : List StorageIterator.Call) : ViewIterator q α :=
  calls.foldl (fun i c => (i.call c).2) i

end ViewIterator

/-- A partition of a view: the state of its table, and its storage at the moment of a snapshot. -/
structure ViewPartition where
  state : PartitionStatus
  st : Storage
  listing : Listing st.db

namespace ViewPartition

def iterator (partition : ViewPartition) : Except String LevelIterator := do
  partition.state.readyToRead
  return partition.st.iterator partition.listing

end ViewPartition

namespace View

def openIterators : List ViewPartition → List LevelIterator → Except String (List LevelIterator)
  | [], iters => .ok iters
  | partition :: rest, iters =>
      match partition.iterator with
      | .error err => .error ("error opening partition iterator: " ++ err)
      | .ok iter => openIterators rest (iters ++ [iter])

def iterator (q : PriorityQueue Nat Bytes) {α : Type} (codec : Codec α)
    (partitions : List ViewPartition) : Except String (ViewIterator q α) :=
  match openIterators partitions [] with
  | .error err => .error err
  | .ok iters => .ok ⟨MergeIterator.newMultiIterator q iters, codec⟩

end View

end Goka
