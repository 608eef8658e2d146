import Goka.Basic

/-!
# From a key to its partition

`View.hash` and `Processor.hash` compute the partition a reader looks in, the partitioner of the
producer the partition a writer chose. All three start from the same 32-bit hash and all three go
through a signed 32-bit integer.
-/

namespace Goka

/-- A fresh hasher fed with one key: the error of `Write`, or `Sum32`. -/
abbrev Hasher := Bytes → Except String UInt32

/-- `fnv.New32a`, the hash of `DefaultHasher`. -/
def fnv32a (key : Bytes) : UInt32 :=
  key.foldl (fun hash byte => (hash ^^^ byte.toUInt32) * 16777619) 2166136261

def defaultHasher : Hasher := fun key => .ok (fnv32a key)

/-- The common body of `View.hash` and `Processor.hash`. Negation and remainder are those of
`int32`: the first wraps, the second truncates toward zero. -/
def hashKey (hasher : Hasher) (count : Nat) (noPartitions : String) (key : Bytes) :
    Outcome Int32 :=
  match hasher key with
  | .error err => .error err
  | .ok sum =>
      let hash := sum.toInt32
      let hash := if hash < 0 then -hash else hash
      if count = 0 then .error noPartitions else .ok (hash % Int32.ofNat count)

structure View (PartitionTable : Type) where
  hasher : Hasher
  partitions : List PartitionTable

structure Processor (PartitionProcessor : Type) where
  hasher : Hasher
  partitionCount : Nat
  partitions : Int32 → Option PartitionProcessor

namespace View

variable {PartitionTable : Type} (v : View PartitionTable)

def hash (key : Bytes) : Outcome Int32 :=
  hashKey v.hasher v.partitions.length "no partitions found" key

/-- `v.partitions[h]` panics on an index outside the slice. -/
def find (key : Bytes) : Outcome PartitionTable := do
  let h ← v.hash key
  if h.toInt < 0 then
    .panic "index out of range"
  else
    match v.partitions[h.toInt.toNat]? with
    | some table => .ok table
    | none => .panic "index out of range"

end View

namespace Processor

variable {PartitionProcessor : Type} (g : Processor PartitionProcessor)

def hash (key : Bytes) : Outcome Int32 :=
  hashKey g.hasher g.partitionCount "can't hash with 0 partitions" key

def find (key : Bytes) : Outcome PartitionProcessor := do
  let p ← g.hash key
  match g.partitions p with
  | some pproc => .ok pproc
  | none => .error ("this processor does not contain partition " ++ toString p)

end Processor

/-- The partition sarama's `NewCustomHashPartitioner` gives a message whose key hashes to `sum`. -/
def hashPartitioner (sum : UInt32) (numPartitions : Int32) : Int32 :=
  let partition := sum.toInt32 % numPartitions
  if partition < 0 then -partition else partition

end Goka
