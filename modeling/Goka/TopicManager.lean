import Goka.Graph
import Mathlib.Algebra.Order.Ring.Int

/-!
# Preparing the topics

Before a processor is created, `prepareTopics` looks at the topics of its group. The input streams
and the joined tables have to be there and to have the same partitions. The loop stream and the
group table are created with as many partitions if they do not exist, and compared with what is
asked for if they do.

The topic manager talks to the cluster by calls of sarama, which are taken from outside. Each of
them may fail, and a topic that was created need not be listed at once.
-/

namespace Goka

structure ClusterTopic where
  partitions : List Int
  -- how many replicas each of the partitions has
  replicas : List Nat
  config : GoMap String String

/-- Calls to the cluster, up to the first error. -/
def ClusterM (Cluster α : Type) : Type := Cluster → Except String α × Cluster

namespace ClusterM

variable {Cluster α β : Type}

def bind (calls : ClusterM Cluster α) (next : α → ClusterM Cluster β) : ClusterM Cluster β :=
  fun c =>
  match calls c with
  | (.ok value, c) => next value c
  | (.error err, c) => (.error err, c)

instance : Monad (ClusterM Cluster) where
  pure value := fun c => (.ok value, c)
  bind := bind

def fail (err : String) : ClusterM Cluster α := fun c => (.error err, c)

def mapError (wrap : String → String) (calls : ClusterM Cluster α) : ClusterM Cluster α := fun c =>
  match calls c with
  | (.ok value, c) => (.ok value, c)
  | (.error err, c) => (.error (wrap err), c)

/-- A deferred call, whose error counts only if there is no other. -/
def deferred (calls : ClusterM Cluster α) (last : ClusterM Cluster Unit) : ClusterM Cluster α :=
  fun c =>
  match calls c with
  | (.error err, c) => (.error err, (last c).2)
  | (.ok value, c) =>
      match last c with
      | (.ok _, c) => (.ok value, c)
      | (.error err, c) => (.error err, c)

end ClusterM

structure TopicDetail where
  numPartitions : Int
  replicationFactor : Int
  config : GoMap String String

/-- The topic as the cluster makes it. -/
def TopicDetail.newTopic (detail : TopicDetail) : ClusterTopic where
  partitions := (List.range detail.numPartitions.toNat).map Int.ofNat
  replicas := List.replicate detail.numPartitions.toNat detail.replicationFactor.toNat
  config := detail.config

/-- The calls of sarama, over the topics the cluster has. Nobody else creates or deletes topics.
What is listed or described exists and is as it is described. The cluster creates a topic only if
there is none of that name and if it is to have partitions and replicas; a call that fails may have
created it as well. -/
structure Sarama (Cluster : Type) where
  topic : Cluster → String → Option ClusterTopic
  -- the client, the check of a broker and the admin
  build : ClusterM Cluster Unit
  refreshMetadata : ClusterM Cluster Unit
  topics : ClusterM Cluster (List String)
  partitions : String → ClusterM Cluster (List Int)
  createTopic : String → TopicDetail → ClusterM Cluster Unit
  describeConfig : String → ClusterM Cluster (GoMap String String)
  -- the replicas of each partition, for every topic that is described
  describeTopics : String → ClusterM Cluster (List (List Nat))
  close : ClusterM Cluster Unit
  build_keeps : ∀ c, topic (build c).2 = topic c
  refreshMetadata_keeps : ∀ c, topic (refreshMetadata c).2 = topic c
  topics_keeps : ∀ c, topic (topics c).2 = topic c
  partitions_keeps : ∀ name c, topic (partitions name c).2 = topic c
  createTopic_keeps : ∀ name detail c other found, topic c other = some found →
    topic (createTopic name detail c).2 other = some found
  createTopic_only : ∀ name detail c other, other ≠ name →
    topic (createTopic name detail c).2 other = topic c other
  describeConfig_keeps : ∀ name c, topic (describeConfig name c).2 = topic c
  describeTopics_keeps : ∀ name c, topic (describeTopics name c).2 = topic c
  close_keeps : ∀ c, topic (close c).2 = topic c
  listed : ∀ c names, (topics c).1 = .ok names → ∀ name ∈ names, topic c name ≠ none
  has_partitions : ∀ name c all found, (partitions name c).1 = .ok all → topic c name = some found →
    all = found.partitions
  created : ∀ name detail c, (createTopic name detail c).1 = .ok () → topic c name = none ∧
    0 < detail.numPartitions ∧ 0 < detail.replicationFactor ∧
    topic (createTopic name detail c).2 name = some detail.newTopic
  has_config : ∀ name c config found, (describeConfig name c).1 = .ok config →
    topic c name = some found → config = found.config
  has_replicas : ∀ name c replicas found, (describeTopics name c).1 = .ok [replicas] →
    topic c name = some found → replicas = found.replicas

inductive TMConfigMismatchBehavior where
  | ignore
  | warn
  | fail
  deriving Repr, DecidableEq

structure TopicManagerConfig where
  tableReplication : Nat
  tableCleanupPolicy : String
  streamReplication : Nat
  streamCleanupPolicy : String
  -- in milliseconds
  streamRetention : Nat
  mismatchBehavior : TMConfigMismatchBehavior
  -- the version of the cluster has the admin's descriptions
  adminSupported : Bool

def int32 (n : Int) : Int := n.bmod (2 ^ 32)

def int16 (n : Int) : Int := n.bmod (2 ^ 16)

/-- A map as `%#v` prints it. -/
def configText (config : GoMap String String) : String :=
  "map[string]string\x7b" ++
    ", ".intercalate ((config.entries.mergeSort fun a b => a.1 ≤ b.1).map fun entry =>
      "\"" ++ entry.1 ++ "\":\"" ++ entry.2 ++ "\"") ++ "\x7d"

namespace TopicManager

open ClusterM

variable {Cluster : Type} (sarama : Sarama Cluster) (cfg : TopicManagerConfig)

/-- The partitions of a topic, or `errTopicNotFound`. -/
def partitions (topic : String) : ClusterM Cluster (Option (List Int)) := do
  sarama.refreshMetadata.mapError fun err => "error refreshing metadata " ++ err
  let topics ← sarama.topics
  if topic ∈ topics then do
    let all ← sarama.partitions topic
    pure (some all)
  else
    pure none

def createTopic (topic : String) (npar rfactor : Nat) (config : GoMap String String) :
    ClusterM Cluster Unit :=
  (sarama.createTopic topic ⟨int32 npar, int16 rfactor, config⟩).mapError fun err =>
    "error creating topic " ++ topic ++ ", npar=" ++ toString npar ++ ", rfactor=" ++
      toString rfactor ++ ", config=" ++ configText config ++ ": " ++ err

def handleConfigMismatch (message : String) : ClusterM Cluster Unit :=
  match cfg.mismatchBehavior with
  | .warn | .ignore => pure ()
  | .fail => fail message

def getTopicConfigMap (topic : String) : ClusterM Cluster (GoMap String String) :=
  (sarama.describeConfig topic).mapError fun _ => "Error getting config for topic " ++ topic

def minReplicas (replicas : List Nat) : Nat :=
  replicas.foldl (fun replicasMin n => if replicasMin = 0 ∨
    n < replicasMin then n else replicasMin) 0

def getTopicMinReplicas (topic : String) : ClusterM Cluster Nat := do
  let topicsMeta ← (sarama.describeTopics topic).mapError fun _ => "Error describing topic " ++
    topic
  match topicsMeta with
  | [replicas] => pure (minReplicas replicas)
  | _ => fail ("Cannot find meta data for topic " ++ topic)

/-- The loop over the values that are asked for, up to the first one that the topic does not have.
Go goes through them in any order, so that of several such values another one may be named. -/
def configMismatch (topic : String) (cfgMap : GoMap String String) :
    List (Sigma fun _ : String => String) → Option String
  | [] => none
  | entry :: rest =>
      match cfgMap.lookup entry.1 with
      | none => some ("config for topic " ++ topic ++ " did not contain requested key " ++ entry.1)
      | some value =>
          if value ≠ entry.2 then
            some ("unexpected config value for topic " ++ topic ++ ". Expected " ++ entry.1 ++
              "=" ++ entry.2 ++ ". Got " ++ entry.1 ++ "=" ++ value)
          else
            configMismatch topic cfgMap rest

def partitionMismatch (topic : String) (npar existing : Nat) : String :=
  "partition count mismatch for topic " ++ topic ++ ". Need " ++ toString npar ++
    ", but existing topic has " ++ toString existing

def replicaMismatch (topic : String) (rfactor existing : Nat) : String :=
  "unexpected replication factor for topic " ++ topic ++ ". Expected " ++ toString rfactor ++
    ", got " ++ toString existing

def ensureExists (topic : String) (npar rfactor : Nat) (config : GoMap String String) :
    ClusterM Cluster Unit := do
  let found ← (partitions sarama topic).mapError fun err => "error checking topic: " ++ err
  let partitions := found.getD []
  if partitions.length = 0 then
    createTopic sarama topic npar rfactor config
  else if partitions.length ≠ npar then
    handleConfigMismatch cfg (partitionMismatch topic npar partitions.length)
  else if cfg.adminSupported then do
    let cfgMap ← getTopicConfigMap sarama topic
    match configMismatch topic cfgMap config.entries with
    | some message => handleConfigMismatch cfg message
    | none => do
        let topicMinReplicas ← getTopicMinReplicas sarama topic
        if topicMinReplicas ≠ rfactor then
          handleConfigMismatch cfg (replicaMismatch topic rfactor topicMinReplicas)
        else
          pure ()
  else
    pure ()

def streamCleanupPolicy : String :=
  if cfg.streamCleanupPolicy ≠ "" then cfg.streamCleanupPolicy else "delete"

def tableCleanupPolicy : String :=
  if cfg.tableCleanupPolicy ≠ "" then cfg.tableCleanupPolicy else "compact"

def streamConfig : GoMap String String :=
  ((∅ : GoMap String String).insert "retention.ms" (toString cfg.streamRetention)).insert
    "cleanup.policy"
    (streamCleanupPolicy cfg)

def tableConfig : GoMap String String :=
  (∅ : GoMap String String).insert "cleanup.policy" (tableCleanupPolicy cfg)

def ensureStreamExists (topic : String) (npar : Nat) : ClusterM Cluster Unit :=
  ensureExists sarama cfg topic npar cfg.streamReplication (streamConfig cfg)

def ensureTableExists (topic : String) (npar : Nat) : ClusterM Cluster Unit :=
  ensureExists sarama cfg topic npar cfg.tableReplication (tableConfig cfg)

/-! ### The topics of a group -/

variable {Codec Callback : Type}

/-- Some partition is not at its own place. -/
def hasGap (partitions : List Int) : Bool :=
  partitions.zipIdx.any fun entry => (entry.2 : Int) != entry.1

/-- One round of the loop of `ensureCopartitioned`. -/
def checkPartitions (topic : String) (npar : Nat) (partitions : List Int) : Except String Nat :=
  if hasGap partitions then
    .error ("Topic " ++ topic ++ " has partition gap: [" ++
      " ".intercalate (partitions.map toString) ++ "]")
  else
    let npar := if npar = 0 then partitions.length else npar
    if partitions.length ≠ npar then
      .error ("topics are not copartitioned! Topic '" ++ topic ++ "' does not have " ++
        toString npar ++ " partitions like the rest but " ++ toString partitions.length)
    else
      .ok npar

def copartitionedFrom (npar : Nat) : List String → ClusterM Cluster Nat
  | [] => pure npar
  | topic :: topics => do
      let found ← (partitions sarama topic).mapError fun err =>
        "Error fetching partitions for topic " ++ topic ++ ": " ++ err
      match found with
      | none =>
          fail ("Error fetching partitions for topic " ++ topic ++
            ": requested topic was not found")
      | some partitions =>
          match checkPartitions topic npar partitions with
          | .error err => fail err
          | .ok npar => copartitionedFrom npar topics

def ensureCopartitioned (topics : List String) : ClusterM Cluster Nat :=
  copartitionedFrom sarama 0 topics

/-- The topics of the input streams and the joined tables. -/
def copartitioned (gg : GroupGraph Codec Callback) : List String :=
  (gg.inputStreams.map fun e => e.name) ++ gg.inputTables.map fun e => e.name

def prepareLoop (gg : GroupGraph Codec Callback) (npar : Nat) : ClusterM Cluster Unit :=
  match gg.theLoopStream with
  | some ls => ensureStreamExists sarama cfg ls.name npar
  | none => pure ()

def prepareTable (gg : GroupGraph Codec Callback) (npar : Nat) : ClusterM Cluster Unit :=
  match gg.theGroupTable with
  | some gt => ensureTableExists sarama cfg gt.name npar
  | none => pure ()

/-- `prepareTopics` between the builder of the topic manager and its `Close`. -/
def prepareWith (gg : GroupGraph Codec Callback) : ClusterM Cluster Nat := do
  let npar ← ensureCopartitioned sarama (copartitioned gg)
  prepareLoop sarama cfg gg npar
  prepareTable sarama cfg gg npar
  pure npar

def prepareTopics (gg : GroupGraph Codec Callback) : ClusterM Cluster Nat := do
  sarama.build.mapError fun err => "Error creating topic manager: " ++ err
  (prepareWith sarama cfg gg).deferred
    (sarama.close.mapError fun err => "Error closing topic manager: " ++ err)

end TopicManager

end Goka
