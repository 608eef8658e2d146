import Goka.Iterator

/-!
# The iterator of the Redis storage

`Iterator` asks Redis for one page of the hash and for no other. The answer is a flat list of fields
and values together with the cursor of the next page; the iterator takes the list for its keys and
the cursor for its position. What the client answers is taken from outside: it is some page of the
hash.
-/

namespace Goka

namespace Redis

/-- A hash in Redis: its fields and their values. -/
abbrev Hash := GoMap Bytes Bytes

def hGet (hash : Hash) (key : Bytes) : Except String (Option Bytes) :=
  match hash.lookup key with
  | none => .error "redis: nil"
  | some value => .ok (some value)

/-- What `HScan(...).Result()` may answer: entries of the hash and the next cursor, which is 0 when
the scan is complete. The length of a slice is an `int`. -/
structure ScanResult (hash : Hash) where
  page : List Pair
  cursor : UInt64
  nodup : (page.map Prod.fst).Nodup
  stored : ∀ pair ∈ page, hash.lookup pair.1 = some pair.2
  complete : cursor = 0 → ∀ key ∈ hash, key ∈ page.map Prod.fst
  length_lt : 2 * page.length < 2 ^ 63

def ScanResult.keys {hash : Hash} (r : ScanResult hash) : List Bytes :=
  r.page.flatMap fun pair => [pair.1, pair.2]

end Redis

open Redis

structure RedisIterator where
  current : UInt64
  keys : List Bytes
  -- what `client` and `hash` stand for
  hash : Hash

namespace RedisIterator

variable (i : RedisIterator)

def exhausted : Bool := decide (UInt64.ofNat i.keys.length ≤ i.current)

def key : Option Bytes := if i.exhausted then none else i.keys[i.current.toNat]?

def increment : RedisIterator := { i with current := i.current + 1 }

def next : Bool × RedisIterator :=
  let i := i.increment
  let i := if i.key.getD [] = offsetKey then i.increment else i
  (!i.exhausted, i)

def value : Except String (Option Bytes) :=
  if i.exhausted then
    .ok none
  else
    match i.keys[i.current.toNat]? with
    | none => .ok none
    | some key => hGet i.hash key

def release : RedisIterator := { i with current := UInt64.ofNat i.keys.length }

/-- `Seek` does not look for the key. -/
def seek (_ : Bytes) : Bool × RedisIterator := (!i.exhausted, i)

instance : StorageIterator RedisIterator where
  next := next
  err _ := none
  key := key
  value := value
  seek key i := i.seek key

end RedisIterator

structure RedisStorage where
  hash : Hash

/-- `Iterator`, with what `HScan` has answered. -/
def RedisStorage.iterator (s : RedisStorage) (result : Except String (ScanResult s.hash)) :
    Except String RedisIterator := do
  let r ← result
  pure { current := r.cursor, keys := r.keys, hash := s.hash }

end Goka
