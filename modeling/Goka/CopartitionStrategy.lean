import Goka.Basic
import Goka.Library.Rounding
import Mathlib.Data.Rat.Floor
import Mathlib.Data.String.Basic
import Mathlib.Data.List.Sort

/-!
# The rebalance strategy

The leader of a consumer group calls `Plan` with the topics every member requests and the partitions
every topic has. The bounds of the blocks come out of `float64` arithmetic, which a machine that
multiplies and adds in one operation rounds differently, so they are a parameter here. Partitions
are `int32` and only compared, so they are integers here.
-/

namespace Goka

structure CopartitioningStrategy where
  failOnInconsistentTopics : Bool

def copartitioningStrategy : CopartitioningStrategy := ⟨false⟩

def strictCopartitioningStrategy : CopartitioningStrategy := ⟨true⟩

/-- `sarama.ConsumerGroupMemberMetadata`, of which the strategy reads the topics. -/
structure MemberMetadata where
  topics : List String
  deriving Repr, DecidableEq

/-- `sarama.BalanceStrategyPlan`: the partitions of a topic given to a member. -/
abbrev BalanceStrategyPlan := String → String → List Int

/-- Sarama's `Add` appends the partitions to what the member already has of the topic. -/
def BalanceStrategyPlan.add (plan : BalanceStrategyPlan) (memberID topic : String)
    (partitions : List Int) : BalanceStrategyPlan :=
  Function.update plan memberID
    (Function.update (plan memberID) topic (plan memberID topic ++ partitions))

def sliceList {α : Type} (l : List α) (min max : Int) : Outcome (List α) :=
  if 0 ≤ min ∧ min ≤ max ∧ max ≤ l.length then
    .ok ((l.drop min.toNat).take (max.toNat - min.toNat))
  else
    .panic "slice bounds out of range"

namespace CopartitioningStrategy

variable (s : CopartitioningStrategy)

/-- The body shared by `partitionsEqual` and `topicsEqual`: equal lengths, and every element of the
second list in the set made of the first. -/
def elementsEqual {α : Type} [DecidableEq α] (a b : List α) : Bool :=
  a.length == b.length && b.all fun p => decide (p ∈ a)

def partitionsEqual (a b : List Int) : Bool := elementsEqual a b

def topicsEqual (a b : List String) : Bool := elementsEqual a b

/-- Loop (1) of `Plan`. The first non-empty partition list seen is the one the later topics are
compared with. The dump of the topics that ends the error text is left out. -/
def collectTopics : List (Sigma fun _ : String => List Int) → List Int → List String →
    Outcome (List Int × List String)
  | [], allPartitions, allTopics => .ok (allPartitions, allTopics)
  | ⟨topic, topicPartitions⟩ :: rest, allPartitions, allTopics =>
      if allPartitions.length = 0 then
        collectTopics rest topicPartitions (allTopics ++ [topic])
      else if !partitionsEqual allPartitions topicPartitions then
        .error
          ("Error balancing. Not all topics are copartitioned. For goka, all topics need to " ++
          "have the same number of partitions")
      else
        collectTopics rest allPartitions (allTopics ++ [topic])

def collectMembers (allTopics : List String) :
    List (Sigma fun _ : String => MemberMetadata) → List String → Outcome (List String)
  | [], allMembers => .ok allMembers
  | ⟨memberID, metadata⟩ :: rest, allMembers =>
      if !topicsEqual allTopics metadata.topics && s.failOnInconsistentTopics then
        .error ("Error balancing. Not all members request the same list of topics. A group-name " ++
          "clash might be the reason")
      else
        collectMembers allTopics rest (allMembers ++ [memberID])

def memberTopics (members : GoMap String MemberMetadata) (memberID : String) : List String :=
  ((members.lookup memberID).map MemberMetadata.topics).getD []

/-- What `int(math.Floor(pos*step + 0.5))` comes to for so many partitions, so many members and a
position. -/
abbrev BlockBounds := Nat → Nat → Nat → Int

/-- Without rounding. -/
def exactBounds : BlockBounds := fun partitions members pos =>
  ⌊(pos : ℚ) * ((partitions : ℚ) / (members : ℚ)) + 1 / 2⌋

/-- With the rounding of each operation. -/
def roundedBounds (r : Rounding) : BlockBounds := fun partitions members pos =>
  let step := r.round ((partitions : ℚ) / (members : ℚ))
  ⌊r.round (r.round ((pos : ℚ) * step) + 1 / 2)⌋

def float64Bounds : BlockBounds := roundedBounds .float64

/-- Loop (4) of `Plan`, over the sorted members numbered from `idx` on. -/
def assign (members : GoMap String MemberMetadata) (allPartitions : List Int) (bound : Nat → Int) :
    List String → Nat → BalanceStrategyPlan → Outcome BalanceStrategyPlan
  | [], _, plan => .ok plan
  | memberID :: rest, idx, plan => do
      let min := bound idx
      let max := bound (idx + 1)
      let plan ← (memberTopics members memberID).foldlM
        (fun plan topic => do
          let partitions ← sliceList allPartitions min max
          pure (plan.add memberID topic partitions)) plan
      assign members allPartitions bound rest (idx + 1) plan

def plan (bounds : BlockBounds) (members : GoMap String MemberMetadata)
    (topics : GoMap String (List Int)) :
    Outcome BalanceStrategyPlan := do
  let (allPartitions, allTopics) ← collectTopics topics.entries [] []
  let allMembers ← s.collectMembers allTopics members.entries []
  let allMembers := allMembers.insertionSort (· ≤ ·)
  let allPartitions := allPartitions.insertionSort (· ≤ ·)
  assign members allPartitions (bounds allPartitions.length allMembers.length) allMembers 0
    fun _ _ => []

end CopartitioningStrategy

end Goka
