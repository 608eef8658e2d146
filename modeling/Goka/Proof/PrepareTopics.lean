import Goka.ProcessorSetup
import Goka.Proof.TopicManager

/-!
# The topics of a group are copartitioned

What a processor can rely on once `prepareTopics` has returned: its inputs have the same partitions,
and so have the loop stream and the group table unless a mismatch is ignored. Processors of a group
that are created later agree, once the cluster lists the topics that were created.
-/

namespace Goka

namespace TopicManager

open ClusterM Sarama Processor

variable {Codec Callback Cluster : Type} {sarama : Sarama Cluster} {cfg : TopicManagerConfig}
  {gg : GroupGraph Codec Callback} {c c' : Cluster} {topic : String} {npar rfactor : Nat}
  {config : GoMap String String}

def gapless (npar : Nat) : List Int := (List.range npar).map Int.ofNat

theorem length_gapless (npar : Nat) : (gapless npar).length = npar := by
  rw [gapless, List.length_map, List.length_range]

theorem eq_gapless {partitions : List Int} (h : hasGap partitions = false) :
    partitions = gapless partitions.length := by
  refine List.ext_getElem ?_ fun i hi _ => ?_
  · rw [length_gapless]
  · have hmem : (partitions[i], i) ∈ partitions.zipIdx :=
      List.mk_mem_zipIdx_iff_getElem?.mpr (List.getElem?_eq_getElem hi)
    have hplace := List.any_eq_false.mp h _ hmem
    have heq : (i : Int) = partitions[i] := by simpa using hplace
    rw [← heq]
    simp [gapless]

/-- The ids are those from 0 on, and as many as those of the topics before. -/
theorem checkPartitions_eq_ok {topic : String} {partitions : List Int} {npar' : Nat}
    (h : checkPartitions topic npar partitions = .ok npar') :
    partitions = gapless npar' ∧ (npar ≠ 0 → npar' = npar) := by
  unfold checkPartitions at h
  split at h
  · cases h
  · next hgap =>
      dsimp only at h
      by_cases hlength : partitions.length ≠ if npar = 0 then partitions.length else npar
      · rw [if_pos hlength] at h
        cases h
      · rw [if_neg hlength] at h
        obtain rfl := Except.ok.inj h
        have hlength := not_not.mp hlength
        refine ⟨?_, fun hne => if_neg hne⟩
        rw [← hlength]
        exact eq_gapless (Bool.eq_false_iff.mpr hgap)

theorem within_copartitionedFrom (npar : Nat) (topics : List String) :
    sarama.Within [] (copartitionedFrom sarama npar topics) := by
  induction topics generalizing npar with
  | nil => exact within_pure _
  | cons topic topics ih =>
      refine ((within_partitions topic).mapError _).bind fun found => ?_
      cases found with
      | none => exact within_fail _
      | some partitions =>
          dsimp only
          cases checkPartitions topic npar partitions with
          | error err => exact within_fail _
          | ok npar => exact ih npar

/-- One round of the loop finds the topic and its partitions. -/
theorem copartitionedFrom_cons_eq_ok {topics : List String} {npar' : Nat}
    (h : copartitionedFrom sarama npar (topic :: topics) c = (.ok npar', c')) :
    ∃ found next c₁, sarama.topic c topic = some found ∧
      checkPartitions topic npar found.partitions = .ok next ∧ sarama.topic c₁ = sarama.topic c ∧
      copartitionedFrom sarama next topics c₁ = (.ok npar', c') := by
  obtain ⟨partitions, c₁, hpartitions, h⟩ := bind_eq_ok.mp h
  replace hpartitions := mapError_eq_ok.mp hpartitions
  have hsame := (within_partitions topic).topic_eq hpartitions
  rcases partitions_eq_ok hpartitions with rfl | ⟨found, hfound, rfl⟩
  · exact absurd h error_ne_ok
  · dsimp only at h
    cases hcheck : checkPartitions topic npar found.partitions with
    | error err =>
        rw [hcheck] at h
        exact absurd h error_ne_ok
    | ok next =>
        rw [hcheck] at h
        exact ⟨found, next, c₁, hfound, hcheck, hsame, h⟩

/-- Topics that have the partitions, or none as long as there is no number of partitions to compare
with. -/
theorem copartitionedFrom_eq_ok {topics : List String} {npar' : Nat}
    (h : copartitionedFrom sarama npar topics c = (.ok npar', c')) :
    (npar ≠ 0 → npar' = npar) ∧ ∀ topic ∈ topics, ∃ found, sarama.topic c topic = some found ∧
      (found.partitions = gapless npar' ∨ npar = 0 ∧ found.partitions = []) := by
  induction topics generalizing npar c with
  | nil =>
      obtain ⟨rfl, -⟩ := pure_eq_ok.mp h
      exact ⟨fun _ => rfl, fun _ hmem => absurd hmem List.not_mem_nil⟩
  | cons topic topics ih =>
      obtain ⟨found, next, c₁, hfound, hcheck, htopics, h⟩ := copartitionedFrom_cons_eq_ok h
      obtain ⟨hpartitions, hnext⟩ := checkPartitions_eq_ok hcheck
      obtain ⟨hsame, hrest⟩ := ih h
      refine ⟨fun hne => ?_, List.forall_mem_cons.mpr ⟨⟨found, hfound, ?_⟩, fun other hother => ?_⟩⟩
      · obtain rfl := hnext hne
        exact hsame hne
      · rcases eq_or_ne next 0 with rfl | hne
        · rcases eq_or_ne npar 0 with hzero | hne
          · exact .inr ⟨hzero, hpartitions⟩
          · exact absurd (hnext hne).symm hne
        · rw [hsame hne]
          exact .inl hpartitions
      · obtain ⟨known, hknown, hparts⟩ := hrest other hother
        rw [htopics] at hknown
        refine ⟨known, hknown, hparts.imp_right fun hempty => ⟨?_, hempty.2⟩⟩
        refine not_not.mp fun hne => ?_
        rw [hempty.1] at hnext
        exact hne (hnext hne).symm

def loopTopics (gg : GroupGraph Codec Callback) : List String :=
  gg.theLoopStream.toList.map fun e => e.name

def groupTableTopics (gg : GroupGraph Codec Callback) : List String :=
  gg.theGroupTable.toList.map fun e => e.name

def ownTopics (gg : GroupGraph Codec Callback) : List String := loopTopics gg ++ groupTableTopics gg

theorem mem_loopTopics : topic ∈ loopTopics gg ↔ ∃ ls ∈ gg.theLoopStream, ls.name = topic := by
  simp only [loopTopics, List.mem_map, Option.mem_toList, Option.mem_def]

theorem mem_groupTableTopics :
    topic ∈ groupTableTopics gg ↔ ∃ gt ∈ gg.theGroupTable, gt.name = topic := by
  simp only [groupTableTopics, List.mem_map, Option.mem_toList, Option.mem_def]

theorem within_prepareLoop (npar : Nat) :
    sarama.Within (loopTopics gg) (prepareLoop sarama cfg gg npar) := by
  unfold prepareLoop loopTopics
  cases gg.theLoopStream with
  | none => exact within_pure _
  | some ls => exact within_ensureExists _ _ _ _

theorem within_prepareTable (npar : Nat) :
    sarama.Within (groupTableTopics gg) (prepareTable sarama cfg gg npar) := by
  unfold prepareTable groupTableTopics
  cases gg.theGroupTable with
  | none => exact within_pure _
  | some gt => exact within_ensureExists _ _ _ _

theorem within_prepareTopics (sarama : Sarama Cluster) (cfg : TopicManagerConfig)
    (gg : GroupGraph Codec Callback) :
    sarama.Within (ownTopics gg) (prepareTopics sarama cfg gg) := by
  refine (within_build.mapError _).bind fun _ => Within.deferred ?_ (within_close.mapError _)
  refine ((within_copartitionedFrom 0 _).mono (List.nil_subset _)).bind fun npar => ?_
  refine ((within_prepareLoop npar).mono (List.subset_append_left _ _)).bind fun _ => ?_
  exact ((within_prepareTable npar).mono (List.subset_append_right _ _)).bind fun _ => within_pure _

/-- The stages of a preparation that succeeds. -/
theorem prepareTopics_eq_ok (h : prepareTopics sarama cfg gg c = (.ok npar, c')) :
    ∃ c₁ c₂ c₃ c₄, sarama.build c = (.ok (), c₁) ∧
      copartitionedFrom sarama 0 (copartitioned gg) c₁ = (.ok npar, c₂) ∧
      prepareLoop sarama cfg gg npar c₂ = (.ok (), c₃) ∧
      prepareTable sarama cfg gg npar c₃ = (.ok (), c₄) ∧
      sarama.close c₄ = (.ok (), c') := by
  obtain ⟨_, c₁, hbuilt, h⟩ := bind_eq_ok.mp h
  obtain ⟨c₄, h, hclosed⟩ := deferred_eq_ok h
  obtain ⟨npar', c₂, hcopartitioned, h⟩ := bind_eq_ok.mp h
  obtain ⟨_, c₃, hloop, h⟩ := bind_eq_ok.mp h
  obtain ⟨_, c₅, htable, h⟩ := bind_eq_ok.mp h
  obtain ⟨rfl, rfl⟩ := pure_eq_ok.mp h
  exact ⟨c₁, c₂, c₃, c₅, mapError_eq_ok.mp hbuilt, hcopartitioned, hloop, htable,
    mapError_eq_ok.mp hclosed⟩

def Ensured (sarama : Sarama Cluster) (cfg : TopicManagerConfig) (npar : Nat) (c c' : Cluster)
    (topic : String) : Prop :=
  ∃ found, sarama.topic c' topic = some found ∧ found.partitions ≠ [] ∧
    (sarama.topic c topic = none → found.partitions = gapless (int32 npar).toNat) ∧
    (cfg.mismatchBehavior = .fail → sarama.topic c topic ≠ none → found.partitions.length = npar)

theorem Ensured.adds {names : List String} {c₁ : Cluster} (h : Ensured sarama cfg npar c c₁ topic)
    (hadds : sarama.Adds names c₁ c') : Ensured sarama cfg npar c c' topic := by
  obtain ⟨found, hfound, hrest⟩ := h
  exact ⟨found, hadds.keeps topic found hfound, hrest⟩

theorem length_of_mismatch {found : ClusterTopic}
    (h : mismatch cfg topic npar rfactor config found = none) :
    found.partitions.length = npar := by
  refine not_not.mp fun hne => ?_
  rw [mismatch, if_pos hne] at h
  exact Option.some_ne_none _ h

theorem partitions_newTopic (numPartitions replicationFactor : Int) (config : GoMap String String) :
    (TopicDetail.newTopic ⟨numPartitions, replicationFactor, config⟩).partitions
      = gapless numPartitions.toNat := rfl

theorem gapless_ne_nil (h : 0 < npar) : gapless npar ≠ [] := by
  intro hnil
  have hlength := length_gapless npar
  rw [hnil, List.length_nil] at hlength
  omega

theorem ensured_of_ok {c₁ : Cluster}
    (h : ensureExists sarama cfg topic npar rfactor config c₁ = (.ok (), c'))
    (hbefore : sarama.topic c₁ topic = sarama.topic c topic) :
    Ensured sarama cfg npar c c' topic := by
  rcases ensureExists_eq_ok h with ⟨found, hfound, haccepted⟩ | ⟨hnone, hpartitions, -, hcreated⟩
  · have hkept := ((within_ensureExists topic npar rfactor config).adds h).keeps topic found hfound
    refine ⟨found, hkept, haccepted.nonempty, fun hnone => ?_, fun hfail _ => ?_⟩
    · rw [← hbefore, hfound] at hnone
      cases hnone
    · exact length_of_mismatch (haccepted.fits hfail)
  · have hpos : 0 < (int32 npar).toNat := Int.lt_toNat.mpr hpartitions
    have hgapless := partitions_newTopic (int32 npar) (int16 rfactor) config
    refine ⟨_, hcreated, ?_, fun _ => hgapless, fun _ hsome => ?_⟩
    · rw [hgapless]
      exact gapless_ne_nil hpos
    · exact absurd (hbefore.symm.trans hnone) hsome

/-- What a successful preparation has found and what it leaves behind. -/
structure Prepared (sarama : Sarama Cluster) (cfg : TopicManagerConfig)
    (gg : GroupGraph Codec Callback)
    (npar : Nat) (c c' : Cluster) : Prop where
  inputs : ∀ topic ∈ copartitioned gg, ∃ found, sarama.topic c topic = some found ∧
    (found.partitions = gapless npar ∨ found.partitions = [])
  own : ∀ topic ∈ ownTopics gg, Ensured sarama cfg npar c c' topic

/-- The steps of `prepareTopics` one after the other, each adding to what is known of the cluster.
-/
theorem prepared_of_ok (h : prepareTopics sarama cfg gg c = (.ok npar, c')) :
    Prepared sarama cfg gg npar c c' := by
  obtain ⟨c₁, c₂, c₃, c₄, hbuilt, hcopartitioned, hloop, htable, hclosed⟩ := prepareTopics_eq_ok h
  have hfirst := within_build.topic_eq hbuilt
  have hsecond : sarama.topic c₂ = sarama.topic c :=
    ((within_copartitionedFrom 0 _).topic_eq hcopartitioned).trans hfirst
  have hlast : sarama.Adds [] c₄ c' := within_close.adds hclosed
  have hloopEnsured : ∀ ls ∈ gg.theLoopStream, Ensured sarama cfg npar c c₄ ls.name := by
    intro ls hls
    rw [prepareLoop, hls] at hloop
    exact (ensured_of_ok hloop (congrFun hsecond ls.name)).adds
      ((within_prepareTable npar).adds htable)
  have htableEnsured : ∀ gt ∈ gg.theGroupTable, Ensured sarama cfg npar c c₄ gt.name := by
    intro gt hgt
    -- nothing keeps an arbitrary graph from using one name for both
    by_cases hname : ∃ ls ∈ gg.theLoopStream, ls.name = gt.name
    · obtain ⟨ls, hls, hname⟩ := hname
      rw [← hname]
      exact hloopEnsured ls hls
    · have hbefore : sarama.topic c₃ gt.name = sarama.topic c₂ gt.name :=
        ((within_prepareLoop npar).adds hloop).only gt.name fun hmem =>
          hname (mem_loopTopics.mp hmem)
      rw [prepareTable, hgt] at htable
      exact ensured_of_ok htable (hbefore.trans (congrFun hsecond gt.name))
  refine ⟨fun topic hmem => ?_, fun topic hmem => ?_⟩
  · obtain ⟨found, hfound, hpartitions⟩ := (copartitionedFrom_eq_ok hcopartitioned).2 topic hmem
    rw [hfirst] at hfound
    exact ⟨found, hfound, hpartitions.imp_right And.right⟩
  · rcases List.mem_append.mp hmem with hmem | hmem
    · obtain ⟨ls, hls, rfl⟩ := mem_loopTopics.mp hmem
      exact (hloopEnsured ls hls).adds hlast
    · obtain ⟨gt, hgt, rfl⟩ := mem_groupTableTopics.mp hmem
      exact (htableEnsured gt hgt).adds hlast

/-- **The topics of a group are copartitioned.** Whatever calls to the cluster fail, no topic that
exists is changed and none but the loop stream and the group table is created. When `prepareTopics`
returns a number of partitions, the input streams and joined tables have exactly these partitions,
or none at all. The loop stream and the group table exist: with that number of partitions, as an
`int32`, if they are new, and also otherwise if a mismatch is to fail. -/
theorem topics_prepared (sarama : Sarama Cluster) (cfg : TopicManagerConfig)
    (gg : GroupGraph Codec Callback) (c : Cluster) :
    sarama.Adds (ownTopics gg) c (prepareTopics sarama cfg gg c).2 ∧
      ∀ npar, (prepareTopics sarama cfg gg c).1 = .ok npar →
        Prepared sarama cfg gg npar c (prepareTopics sarama cfg gg c).2 :=
  ⟨within_prepareTopics sarama cfg gg c, fun _ hok => prepared_of_ok (Prod.ext hok rfl)⟩

/-! ### Preparing them again -/

section Again

variable {d : Cluster}

/-- The topics are still those of `c'`, and the cluster lists them and works. -/
structure Later (sarama : Sarama Cluster) (c' d : Cluster) : Prop where
  same : sarama.topic d = sarama.topic c'
  settled : sarama.Settled d

end Again

/-- The topics, and those of them that the metadata shows. -/
structure WorkingCluster where
  topics : GoMap String ClusterTopic
  shown : List String

namespace WorkingCluster

def createTopic (name : String) (detail : TopicDetail) : ClusterM WorkingCluster Unit := fun c =>
  if (c.topics.lookup name).isSome then
    (.error "kafka server: Topic with this name already exists.", c)
  else if detail.numPartitions ≤ 0 then
    (.error "kafka server: Number of partitions is invalid.", c)
  else if detail.replicationFactor ≤ 0 then
    (.error "kafka server: Replication-factor is invalid.", c)
  else
    (.ok (), { c with topics := c.topics.insert name detail.newTopic })

theorem createTopic_cases (name : String) (detail : TopicDetail) (c : WorkingCluster) :
    (∃ err, createTopic name detail c = (.error err, c)) ∨
      createTopic name detail c
        = (.ok (), { c with topics := c.topics.insert name detail.newTopic }) ∧
        c.topics.lookup name = none ∧ 0 < detail.numPartitions ∧ 0 < detail.replicationFactor := by
  unfold createTopic
  split_ifs with hexists hpartitions hreplicas
  · exact .inl ⟨_, rfl⟩
  · exact .inl ⟨_, rfl⟩
  · exact .inl ⟨_, rfl⟩
  · exact .inr ⟨rfl, Option.not_isSome_iff_eq_none.mp hexists, Int.not_le.mp hpartitions,
      Int.not_le.mp hreplicas⟩

theorem createTopic_keeps (name : String) (detail : TopicDetail) (c : WorkingCluster)
    (other : String) (found : ClusterTopic) (hfound : c.topics.lookup other = some found) :
    (createTopic name detail c).2.topics.lookup other = some found := by
  rcases createTopic_cases name detail c with ⟨err, h⟩ | ⟨h, hnone, -, -⟩
  · rw [h]
    exact hfound
  · rw [h]
    refine (AList.lookup_insert_ne ?_).trans hfound
    rintro rfl
    rw [hnone] at hfound
    cases hfound

theorem createTopic_only (name : String) (detail : TopicDetail) (c : WorkingCluster)
    (other : String) (hne : other ≠ name) :
    (createTopic name detail c).2.topics.lookup other = c.topics.lookup other := by
  rcases createTopic_cases name detail c with ⟨err, h⟩ | ⟨h, -⟩
  · rw [h]
  · rw [h]
    exact AList.lookup_insert_ne hne

theorem created (name : String) (detail : TopicDetail) (c : WorkingCluster)
    (hok : (createTopic name detail c).1 = .ok ()) :
    c.topics.lookup name = none ∧ 0 < detail.numPartitions ∧ 0 < detail.replicationFactor ∧
      (createTopic name detail c).2.topics.lookup name = some detail.newTopic := by
  rcases createTopic_cases name detail c with ⟨err, h⟩ | ⟨h, hnone, hpartitions, hreplicas⟩
  · rw [h] at hok
    cases hok
  · refine ⟨hnone, hpartitions, hreplicas, ?_⟩
    rw [h]
    exact AList.lookup_insert _

def describe {α : Type} (answer : ClusterTopic → α) (name : String) : ClusterM WorkingCluster α :=
  fun c =>
  match c.topics.lookup name with
  | some found => (.ok (answer found), c)
  | none => (.error "kafka server: Request was for a topic or partition that does not exist.", c)

theorem describe_eq {α : Type} {answer : ClusterTopic → α} {name : String} {c : WorkingCluster}
    {found : ClusterTopic} (hfound : c.topics.lookup name = some found) :
    describe answer name c = (.ok (answer found), c) := by
  rw [describe, hfound]

theorem describe_keeps {α : Type} (answer : ClusterTopic → α) (name : String) (c : WorkingCluster) :
    (describe answer name c).2 = c := by
  unfold describe
  split <;> rfl

theorem describe_eq_ok {α : Type} {answer : ClusterTopic → α} {name : String} {c : WorkingCluster}
    {result : α} {found : ClusterTopic} (hok : (describe answer name c).1 = .ok result)
    (hfound : c.topics.lookup name = some found) : result = answer found := by
  rw [describe_eq hfound] at hok
  exact (Except.ok.inj hok).symm

def client : Sarama WorkingCluster where
  topic c name := c.topics.lookup name
  build c := (.ok (), c)
  refreshMetadata c := (.ok (), c)
  topics c := (.ok (c.shown.filter fun name => (c.topics.lookup name).isSome), c)
  partitions := describe ClusterTopic.partitions
  createTopic := createTopic
  describeConfig := describe ClusterTopic.config
  describeTopics := describe fun found => [found.replicas]
  close c := (.ok (), c)
  build_keeps _ := rfl
  refreshMetadata_keeps _ := rfl
  topics_keeps _ := rfl
  partitions_keeps name c := by rw [describe_keeps]
  createTopic_keeps := createTopic_keeps
  createTopic_only := createTopic_only
  describeConfig_keeps name c := by rw [describe_keeps]
  describeTopics_keeps name c := by rw [describe_keeps]
  close_keeps _ := rfl
  listed c names hok name hmem := by
    obtain rfl := Except.ok.inj hok
    exact Option.isSome_iff_ne_none.mp (List.mem_filter.mp hmem).2
  has_partitions _ _ _ _ hok hfound := describe_eq_ok hok hfound
  created := created
  has_config _ _ _ _ hok hfound := describe_eq_ok hok hfound
  has_replicas _ _ _ _ hok hfound := List.singleton_inj.mp (describe_eq_ok hok hfound)

def showAll (c : WorkingCluster) : WorkingCluster := { c with shown := c.topics.keys }

theorem settled_showAll (c : WorkingCluster) : client.Settled c.showAll where
  build := rfl
  refreshMetadata := rfl
  topics := ⟨_, rfl, fun _ hne =>
    List.mem_filter.mpr ⟨AList.lookup_isSome.mp (Option.isSome_iff_ne_none.mpr hne),
      Option.isSome_iff_ne_none.mpr hne⟩⟩
  partitions _ _ hfound := describe_eq hfound
  describeConfig _ _ hfound := describe_eq hfound
  describeTopics _ _ hfound := describe_eq hfound
  close := rfl

theorem later_showAll (c : WorkingCluster) : Later client c c.showAll := ⟨rfl, settled_showAll c⟩

end WorkingCluster

open WorkingCluster (showAll)

/-- A group with a loop and a table over one stream of two partitions. -/
def loopGraph : GroupGraph Unit Unit :=
  { GroupGraph.empty "g" with
    inputStreams := [⟨⟨"in", some ()⟩, some ()⟩]
    loopStream := [⟨⟨"g-loop", some ()⟩, some ()⟩]
    groupTable := [⟨"g-table", some ()⟩] }

def strictManager : TopicManagerConfig where
  tableReplication := 2
  tableCleanupPolicy := ""
  streamReplication := 2
  streamCleanupPolicy := ""
  streamRetention := 3600000
  mismatchBehavior := .fail
  adminSupported := true

def freshCluster : WorkingCluster where
  topics := (∅ : GoMap String ClusterTopic).insert "in" (TopicDetail.newTopic ⟨2, 1, ∅⟩)
  shown := ["in"]

def preparedCluster : WorkingCluster :=
  (prepareTopics WorkingCluster.client strictManager loopGraph freshCluster).2

theorem prepareTopics_fresh :
    prepareTopics WorkingCluster.client strictManager loopGraph freshCluster
      = (.ok 2, preparedCluster) :=
  Prod.ext (by decide +kernel) rfl

/-- Before that the loop stream would be created a second time, which fails. -/
example :
    (prepareTopics WorkingCluster.client strictManager loopGraph preparedCluster).1.toOption
      = none := by
  decide +kernel

/-! ### The partitions of the tables -/

def answers (sarama : Sarama Cluster) (c : Cluster) (topic : String) : Except String (List Int) :=
  match (partitions sarama topic c).1 with
  | .ok (some partitions) => .ok partitions
  | .ok none => .error errTopicNotFound
  | .error err => .error err

theorem answers_eq {found : ClusterTopic} (hsettled : sarama.Settled c)
    (h : sarama.topic c topic = some found) : answers sarama c topic = .ok found.partitions := by
  rw [answers, partitions_settled topic hsettled, h]
  rfl

theorem findPartitions_eq_ok {asked : String → Except String (List Int)} {good : List Int → Prop}
    {topics : List String} {last : List Int} (hlast : good last)
    (h : ∀ topic ∈ topics, ∃ all, asked topic = .ok all ∧ good all) :
    ∃ all, findPartitions asked topics (.ok last) = .ok all ∧ good all := by
  induction topics generalizing last with
  | nil => exact ⟨last, rfl, hlast⟩
  | cons topic topics ih =>
      obtain ⟨⟨all, hall, hgood⟩, hrest⟩ := List.forall_mem_cons.mp h
      rw [findPartitions, hall]
      dsimp only
      split
      · exact ⟨all, rfl, hgood⟩
      · exact ih hgood hrest

theorem Ensured.length_eq (h : Ensured sarama cfg npar c c' topic)
    (hfail : cfg.mismatchBehavior = .fail) (hnpar : npar < 2 ^ 31) {found : ClusterTopic}
    (hfound : sarama.topic c' topic = some found) :
    found.partitions.length = npar := by
  obtain ⟨found', hfound', -, hnew, hold⟩ := h
  obtain rfl := Option.some.inj (hfound.symm.trans hfound')
  by_cases hnone : sarama.topic c topic = none
  · rw [hnew hnone, length_gapless, int32_eq hnpar, Int.toNat_natCast]
  · exact hold hfail hnone

/-- **A prepared group has its stateful partitions.** Once the topics of a group are prepared and
the cluster lists those that were created, `findStatefulPartitions` finds the partitions that the
standbys are created for: some if there is a group table, and as many as the input streams have if a
mismatch is to fail. -/
theorem stateful_partitions_found (sarama : Sarama Cluster) (cfg : TopicManagerConfig)
    (gg : GroupGraph Codec Callback) (c c' d : Cluster) (npar : Nat)
    (h : prepareTopics sarama cfg gg c = (.ok npar, c')) (hlater : Later sarama c' d) :
    ∃ all, findStatefulPartitions gg (answers sarama d) = .ok all ∧
    (gg.groupTable ≠ [] → all ≠ []) ∧
      (cfg.mismatchBehavior = .fail → npar < 2 ^ 31 → all ≠ [] → all.length = npar) := by
  have hprepared := prepared_of_ok h
  have hadds : sarama.Adds (ownTopics gg) c c' := (within_prepareTopics sarama cfg gg).adds h
  have hanswers : ∀ {topic : String} {found : ClusterTopic}, sarama.topic c' topic = some found →
      answers sarama d topic = .ok found.partitions :=
    fun hfound => answers_eq hlater.settled (by rw [hlater.same, hfound])
  unfold findStatefulPartitions
  cases hgroup : gg.groupTable with
  | cons gt rest =>
      -- the loop ends with the group table, which has partitions
      have hmem : gt.name ∈ ownTopics gg :=
        List.mem_append_right _ (mem_groupTableTopics.mpr ⟨gt, congrArg List.head? hgroup, rfl⟩)
      have hensured := hprepared.own gt.name hmem
      obtain ⟨found, hfound, hnonempty, -⟩ := id hensured
      refine ⟨found.partitions, ?_, fun _ => hnonempty, fun hfail hnpar _ =>
        hensured.length_eq hfail hnpar hfound⟩
      rw [List.map_cons, List.cons_append, findPartitions, hanswers hfound]
      exact if_pos (List.length_pos_iff.mpr hnonempty)
  | nil =>
      have hinputs : ∀ topic ∈ gg.inputTables.map fun e => e.name,
          ∃ all, answers sarama d topic = .ok all ∧ (all = gapless npar ∨ all = []) := by
        intro topic hmem
        obtain ⟨found, hfound, hpartitions⟩ := hprepared.inputs topic (List.mem_append_right _ hmem)
        exact ⟨found.partitions, hanswers (hadds.keeps topic found hfound), hpartitions⟩
      obtain ⟨all, hall, hgood⟩ := findPartitions_eq_ok (.inr rfl) hinputs
      refine ⟨all, hall, fun hne => absurd rfl hne, fun _ _ hne => ?_⟩
      rw [hgood.resolve_right hne, length_gapless]

theorem stateful_partitions_found_fresh :
    ∃ all, findStatefulPartitions loopGraph (answers WorkingCluster.client preparedCluster.showAll)
      = .ok all ∧ all.length = 2 := by
  obtain ⟨all, hall, hnonempty, hlength⟩ :=
    stateful_partitions_found WorkingCluster.client strictManager
    loopGraph freshCluster preparedCluster preparedCluster.showAll 2 prepareTopics_fresh
    (WorkingCluster.later_showAll _)
  exact ⟨all, hall, hlength rfl (by decide) (hnonempty (by decide))⟩

end TopicManager

end Goka
