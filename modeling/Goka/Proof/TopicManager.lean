import Goka.TopicManager

/-!
# What a topic manager does to the cluster

Every call keeps the topics that exist. `ensureExists` may create the topic it is asked for, and
when it succeeds the topic is there and is as it should be, if that matters. A second `ensureExists`
then has no objection, as soon as the topic is listed.
-/

namespace Goka

namespace ClusterM

variable {Cluster α β : Type} {c c' : Cluster}

/-! ### Sequences of calls -/

theorem error_ne_ok {err : String} {result : α} :
    ((.error err, c) : Except String α × Cluster) ≠ (.ok result, c') := by
  intro h
  cases h

theorem bind_eq_ok {calls : ClusterM Cluster α} {next : α → ClusterM Cluster β} {result : β} :
    (calls >>= next) c = (.ok result, c') ↔
      ∃ value c₁, calls c = (.ok value, c₁) ∧ next value c₁ = (.ok result, c') := by
  change ClusterM.bind calls next c = _ ↔ _
  unfold ClusterM.bind
  split
  · next value c₁ hcalls =>
      refine ⟨fun h => ⟨value, c₁, hcalls, h⟩, ?_⟩
      rintro ⟨value', c₁', hcalls', h⟩
      obtain ⟨hvalue, rfl⟩ := Prod.mk.inj (hcalls.symm.trans hcalls')
      obtain rfl := Except.ok.inj hvalue
      exact h
  · next err c₁ hcalls =>
      refine iff_of_false error_ne_ok ?_
      rintro ⟨value, c₁', hcalls', -⟩
      exact error_ne_ok (hcalls.symm.trans hcalls')

theorem pure_eq_ok {value result : α} :
    (pure value : ClusterM Cluster α) c = (.ok result, c') ↔ value = result ∧ c = c' := by
  constructor
  · intro h
    obtain ⟨hvalue, hc⟩ := Prod.mk.inj h
    exact ⟨Except.ok.inj hvalue, hc⟩
  · rintro ⟨rfl, rfl⟩
    rfl

theorem mapError_eq_ok {wrap : String → String} {calls : ClusterM Cluster α} {result : α} :
    mapError wrap calls c = (.ok result, c') ↔ calls c = (.ok result, c') := by
  unfold mapError
  split
  · next hcalls => rw [hcalls]
  · next hcalls =>
      rw [hcalls]
      exact iff_of_false error_ne_ok error_ne_ok

theorem bind_of_ok {calls : ClusterM Cluster α} {value : α} {c₁ : Cluster}
    (h : calls c = (.ok value, c₁)) (next : α → ClusterM Cluster β) :
    (calls >>= next) c = next value c₁ := by
  change ClusterM.bind calls next c = _
  rw [ClusterM.bind, h]

theorem deferred_eq_ok {calls : ClusterM Cluster α} {last : ClusterM Cluster Unit} {result : α}
    (h : calls.deferred last c = (.ok result, c')) :
    ∃ c₁, calls c = (.ok result, c₁) ∧ last c₁ = (.ok (), c') := by
  unfold ClusterM.deferred at h
  split at h
  · exact absurd h error_ne_ok
  · next value c₁ hcalls =>
      split at h
      · next hlast =>
          obtain ⟨hvalue, rfl⟩ := Prod.mk.inj h
          obtain rfl := Except.ok.inj hvalue
          exact ⟨c₁, hcalls, hlast⟩
      · exact absurd h error_ne_ok

end ClusterM

open ClusterM

namespace Sarama

variable {Cluster α β : Type} {sarama : Sarama Cluster} {names : List String} {c c' : Cluster}

/-! ### What becomes of the topics -/

/-- Topics stay as they are, and only these may be new. -/
structure Adds (sarama : Sarama Cluster) (names : List String) (c c' : Cluster) : Prop where
  keeps : ∀ topic found, sarama.topic c topic = some found → sarama.topic c' topic = some found
  only : ∀ topic, topic ∉ names → sarama.topic c' topic = sarama.topic c topic

theorem Adds.of_topics (h : sarama.topic c' = sarama.topic c) : sarama.Adds names c c' := by
  constructor
  · rw [h]
    exact fun _ _ hfound => hfound
  · rw [h]
    exact fun _ _ => rfl

theorem Adds.trans {c₁ : Cluster} (h : sarama.Adds names c c₁) (h' : sarama.Adds names c₁ c') :
    sarama.Adds names c c' where
  keeps := fun topic found hfound => h'.keeps topic found (h.keeps topic found hfound)
  only := fun topic hmem => (h'.only topic hmem).trans (h.only topic hmem)

theorem Adds.mono {names' : List String} (h : sarama.Adds names c c') (hsub : names ⊆ names') :
    sarama.Adds names' c c' where
  keeps := h.keeps
  only := fun topic hmem => h.only topic fun hnames => hmem (hsub hnames)

def Within (sarama : Sarama Cluster) (names : List String) (calls : ClusterM Cluster α) : Prop :=
  ∀ c, sarama.Adds names c (calls c).2

theorem Within.adds {calls : ClusterM Cluster α} {result : Except String α}
    (h : sarama.Within names calls) (heq : calls c = (result, c')) : sarama.Adds names c c' := by
  have hadds := h c
  rw [heq] at hadds
  exact hadds

/-- Calls that create nothing see the same topics behind them. -/
theorem Within.topic_eq {calls : ClusterM Cluster α} {result : Except String α}
    (h : sarama.Within [] calls) (heq : calls c = (result, c')) :
    sarama.topic c' = sarama.topic c :=
  funext fun topic => (h.adds heq).only topic List.not_mem_nil

theorem within_of_keeps {calls : ClusterM Cluster α}
    (h : ∀ c, sarama.topic (calls c).2 = sarama.topic c) :
    sarama.Within names calls := fun c => .of_topics (h c)

theorem Within.bind {calls : ClusterM Cluster α} {next : α → ClusterM Cluster β}
    (h : sarama.Within names calls) (hnext : ∀ value, sarama.Within names (next value)) :
    sarama.Within names (calls >>= next) := by
  intro c
  change sarama.Adds names c (ClusterM.bind calls next c).2
  unfold ClusterM.bind
  split
  · next value c₁ heq => exact (h.adds heq).trans (hnext value c₁)
  · next heq => exact h.adds heq

theorem within_pure (value : α) : sarama.Within names (pure value : ClusterM Cluster α) :=
  fun _ => .of_topics rfl

theorem within_fail (err : String) : sarama.Within names (fail err : ClusterM Cluster α) :=
  fun _ => .of_topics rfl

theorem Within.mapError {calls : ClusterM Cluster α} (h : sarama.Within names calls)
    (wrap : String → String) : sarama.Within names (calls.mapError wrap) := by
  intro c
  unfold ClusterM.mapError
  split
  · next heq => exact h.adds heq
  · next heq => exact h.adds heq

theorem Within.mono {names' : List String} {calls : ClusterM Cluster α}
    (h : sarama.Within names calls) (hsub : names ⊆ names') : sarama.Within names' calls :=
  fun c => (h c).mono hsub

theorem Within.ite {p : Prop} [Decidable p] {calls calls' : ClusterM Cluster α}
    (h : sarama.Within names calls) (h' : sarama.Within names calls') :
    sarama.Within names (if p then calls else calls') := by
  split
  · exact h
  · exact h'

theorem Within.deferred {calls : ClusterM Cluster α} {last : ClusterM Cluster Unit}
    (h : sarama.Within names calls) (hlast : sarama.Within names last) :
    sarama.Within names (calls.deferred last) := by
  intro c
  unfold ClusterM.deferred
  split
  · next err c₁ heq => exact (h.adds heq).trans (hlast c₁)
  · next value c₁ heq =>
      split
      · next heq' => exact (h.adds heq).trans (hlast.adds heq')
      · next heq' => exact (h.adds heq).trans (hlast.adds heq')

theorem within_build : sarama.Within names sarama.build := within_of_keeps sarama.build_keeps

theorem within_close : sarama.Within names sarama.close := within_of_keeps sarama.close_keeps

theorem within_createTopic (topic : String) (detail : TopicDetail) :
    sarama.Within [topic] (sarama.createTopic topic detail) := by
  refine fun c => ⟨sarama.createTopic_keeps topic detail c, fun other hother => ?_⟩
  exact sarama.createTopic_only topic detail c other fun heq => hother (List.mem_singleton.mpr heq)

theorem createTopic_eq_ok {topic : String} {detail : TopicDetail}
    (h : sarama.createTopic topic detail c = (.ok (), c')) :
    sarama.topic c topic = none ∧ 0 < detail.numPartitions ∧ 0 < detail.replicationFactor ∧
      sarama.topic c' topic = some detail.newTopic := by
  have hcreated := sarama.created topic detail c (by rw [h])
  rwa [h] at hcreated

/-- The calls that only ask work and leave the cluster as it is, and every topic is listed. -/
structure Settled (sarama : Sarama Cluster) (c : Cluster) : Prop where
  build : sarama.build c = (.ok (), c)
  refreshMetadata : sarama.refreshMetadata c = (.ok (), c)
  topics : ∃ names, sarama.topics c = (.ok names, c) ∧ ∀ topic, sarama.topic c topic ≠ none →
    topic ∈ names
  partitions : ∀ topic found, sarama.topic c topic = some found →
    sarama.partitions topic c = (.ok found.partitions, c)
  describeConfig : ∀ topic found, sarama.topic c topic = some found →
    sarama.describeConfig topic c = (.ok found.config, c)
  describeTopics : ∀ topic found, sarama.topic c topic = some found →
    sarama.describeTopics topic c = (.ok [found.replicas], c)
  close : sarama.close c = (.ok (), c)

end Sarama

namespace TopicManager

open Sarama

variable {Cluster : Type} {sarama : Sarama Cluster} {cfg : TopicManagerConfig} {c c' : Cluster}
  {topic : String} {npar rfactor : Nat} {config : GoMap String String}

/-! ### One topic -/

theorem within_partitions (topic : String) : sarama.Within [] (partitions sarama topic) := by
  refine ((within_of_keeps sarama.refreshMetadata_keeps).mapError _).bind fun _ => ?_
  refine (within_of_keeps sarama.topics_keeps).bind fun names => .ite ?_ (within_pure _)
  exact (within_of_keeps (sarama.partitions_keeps topic)).bind fun _ => within_pure _

/-- A topic that is found exists, but one that exists need not be found. -/
theorem partitions_eq_ok {found : Option (List Int)}
    (h : partitions sarama topic c = (.ok found, c')) :
    found = none ∨ ∃ known, sarama.topic c topic = some known ∧ found = some known.partitions := by
  obtain ⟨_, c₁, hrefresh, h⟩ := bind_eq_ok.mp h
  obtain ⟨names, c₂, htopics, h⟩ := bind_eq_ok.mp h
  have hfirst : sarama.topic c₁ = sarama.topic c := by
    have hkeeps := sarama.refreshMetadata_keeps c
    rwa [mapError_eq_ok.mp hrefresh] at hkeeps
  have hsecond : sarama.topic c₂ = sarama.topic c := by
    have hkeeps := sarama.topics_keeps c₁
    rw [htopics] at hkeeps
    exact hkeeps.trans hfirst
  by_cases hmem : topic ∈ names
  · rw [if_pos hmem] at h
    obtain ⟨all, c₃, hpartitions, h⟩ := bind_eq_ok.mp h
    obtain ⟨rfl, -⟩ := pure_eq_ok.mp h
    have hlisted := sarama.listed c₁ names (by rw [htopics]) topic hmem
    rw [hfirst] at hlisted
    obtain ⟨known, hknown⟩ := Option.ne_none_iff_exists'.mp hlisted
    refine .inr ⟨known, hknown, ?_⟩
    rw [sarama.has_partitions topic c₂ all known (by rw [hpartitions]) (by rw [hsecond, hknown])]
  · rw [if_neg hmem] at h
    exact .inl (pure_eq_ok.mp h).1.symm

theorem within_handleConfigMismatch (message : String) :
    sarama.Within [] (handleConfigMismatch cfg message) := by
  unfold handleConfigMismatch
  split
  · exact within_pure _
  · exact within_pure _
  · exact within_fail _

theorem handleConfigMismatch_eq_ok {message : String}
    (h : handleConfigMismatch cfg message c = (.ok (), c')) : cfg.mismatchBehavior ≠ .fail := by
  intro hfail
  unfold handleConfigMismatch at h
  rw [hfail] at h
  exact absurd h error_ne_ok

theorem within_getTopicConfigMap (topic : String) :
    sarama.Within [] (getTopicConfigMap sarama topic) :=
  (within_of_keeps (sarama.describeConfig_keeps topic)).mapError _

theorem getTopicConfigMap_eq_ok {found : ClusterTopic} {result : GoMap String String}
    (hfound : sarama.topic c topic = some found)
    (h : getTopicConfigMap sarama topic c = (.ok result, c')) :
    result = found.config :=
  sarama.has_config topic c result found (by rw [mapError_eq_ok.mp h]) hfound

theorem within_getTopicMinReplicas (topic : String) :
    sarama.Within [] (getTopicMinReplicas sarama topic) := by
  refine ((within_of_keeps (sarama.describeTopics_keeps topic)).mapError _).bind fun topicsMeta =>
    ?_
  split
  · exact within_pure _
  · exact within_fail _

theorem getTopicMinReplicas_eq_ok {found : ClusterTopic} {result : Nat}
    (hfound : sarama.topic c topic = some found)
    (h : getTopicMinReplicas sarama topic c = (.ok result, c')) :
    result = minReplicas found.replicas := by
  obtain ⟨topicsMeta, c₁, hdescribe, h⟩ := bind_eq_ok.mp h
  split at h
  · next replicas =>
      obtain ⟨rfl, -⟩ := pure_eq_ok.mp h
      rw [sarama.has_replicas topic c replicas found (by rw [mapError_eq_ok.mp hdescribe]) hfound]
  · exact absurd h error_ne_ok

theorem within_createTopic (topic : String) (npar rfactor : Nat) (config : GoMap String String) :
    sarama.Within [topic] (createTopic sarama topic npar rfactor config) :=
  Within.mapError (Sarama.within_createTopic topic _) _

theorem createTopic_eq_ok (h : createTopic sarama topic npar rfactor config c = (.ok (), c')) :
    sarama.topic c topic = none ∧ 0 < int32 npar ∧ 0 < int16 rfactor ∧
      sarama.topic c' topic = some (TopicDetail.newTopic ⟨int32 npar, int16 rfactor, config⟩) := by
  unfold createTopic at h
  have hcreated := Sarama.createTopic_eq_ok (mapError_eq_ok.mp h)
  dsimp only at hcreated
  exact hcreated

def mismatch (cfg : TopicManagerConfig) (topic : String) (npar rfactor : Nat)
    (config : GoMap String String) (found : ClusterTopic) : Option String :=
  if found.partitions.length ≠ npar then
    some (partitionMismatch topic npar found.partitions.length)
  else if cfg.adminSupported then
    (configMismatch topic found.config config.entries).or
      (if minReplicas found.replicas
        ≠ rfactor then some (replicaMismatch topic rfactor (minReplicas found.replicas))
      else none)
  else
    none

structure Accepted (cfg : TopicManagerConfig) (topic : String) (npar rfactor : Nat)
    (config : GoMap String String)
    (found : ClusterTopic) : Prop where
  nonempty : found.partitions ≠ []
  fits : cfg.mismatchBehavior = .fail → mismatch cfg topic npar rfactor config found = none

theorem within_ensureExists (topic : String) (npar rfactor : Nat) (config : GoMap String String) :
    sarama.Within [topic] (ensureExists sarama cfg topic npar rfactor config) := by
  have hsub : [] ⊆ [topic] := List.nil_subset _
  refine ((within_partitions topic).mono hsub |>.mapError _).bind fun found => ?_
  refine .ite (within_createTopic topic npar rfactor config) ?_
  refine .ite ((within_handleConfigMismatch _).mono hsub) (.ite ?_ (within_pure _))
  refine ((within_getTopicConfigMap topic).mono hsub).bind fun cfgMap => ?_
  cases configMismatch topic cfgMap config.entries with
  | some message => exact (within_handleConfigMismatch _).mono hsub
  | none =>
      refine ((within_getTopicMinReplicas topic).mono hsub).bind fun replicas => ?_
      exact .ite ((within_handleConfigMismatch _).mono hsub) (within_pure _)

theorem fits_of_handled {message : String} {found : ClusterTopic}
    (h : handleConfigMismatch cfg message c = (.ok (), c')) :
    cfg.mismatchBehavior = .fail → mismatch cfg topic npar rfactor config found = none :=
  fun hfail => absurd hfail (handleConfigMismatch_eq_ok h)

/-- A topic that is found was accepted, any other one has been created. -/
theorem ensureExists_eq_ok
    (h : ensureExists sarama cfg topic npar rfactor config c = (.ok (), c')) :
    (∃ found, sarama.topic c topic = some found ∧ Accepted cfg topic npar rfactor config found) ∨
      sarama.topic c topic = none ∧ 0 < int32 npar ∧ 0 < int16 rfactor ∧
        sarama.topic c' topic = some (TopicDetail.newTopic ⟨int32 npar, int16 rfactor,
          config⟩) := by
  obtain ⟨partitions, c₁, hpartitions, h⟩ := bind_eq_ok.mp h
  replace hpartitions := mapError_eq_ok.mp hpartitions
  have hsame := (within_partitions topic).topic_eq hpartitions
  have hcreates : createTopic sarama topic npar rfactor config c₁ = (.ok (), c') →
      sarama.topic c topic = none ∧ 0 < int32 npar ∧ 0 < int16 rfactor ∧
        sarama.topic c' topic = some (TopicDetail.newTopic ⟨int32 npar, int16 rfactor,
          config⟩) := by
    intro h
    rw [← hsame]
    exact createTopic_eq_ok h
  rcases partitions_eq_ok hpartitions with rfl | ⟨found, hfound, rfl⟩
  · rw [Option.getD_none, if_pos List.length_nil] at h
    exact .inr (hcreates h)
  rw [Option.getD_some] at h
  by_cases hempty : found.partitions.length = 0
  · rw [if_pos hempty] at h
    exact .inr (hcreates h)
  rw [if_neg hempty] at h
  have hnonempty : found.partitions ≠ [] := fun hnil => hempty (hnil ▸ List.length_nil)
  refine .inl ⟨found, hfound, hnonempty, ?_⟩
  by_cases hnpar : found.partitions.length ≠ npar
  · rw [if_pos hnpar] at h
    exact fits_of_handled h
  rw [if_neg hnpar] at h
  unfold mismatch
  rw [if_neg hnpar]
  by_cases hadmin : cfg.adminSupported = true
  · rw [if_pos hadmin] at h ⊢
    obtain ⟨cfgMap, c₂, hconfig, h⟩ := bind_eq_ok.mp h
    have hsame' := (within_getTopicConfigMap topic).topic_eq hconfig
    obtain rfl := getTopicConfigMap_eq_ok (by rw [hsame, hfound]) hconfig
    cases hmismatch : configMismatch topic found.config config.entries with
    | some message =>
        rw [hmismatch] at h
        exact fun hfail => absurd hfail (handleConfigMismatch_eq_ok h)
    | none =>
        rw [hmismatch] at h
        obtain ⟨replicas, c₃, hreplicas, h⟩ := bind_eq_ok.mp h
        obtain rfl := getTopicMinReplicas_eq_ok (by rw [hsame', hsame, hfound]) hreplicas
        rw [Option.none_or]
        by_cases hrfactor : minReplicas found.replicas ≠ rfactor
        · rw [if_pos hrfactor] at h
          exact fun hfail => absurd hfail (handleConfigMismatch_eq_ok h)
        · rw [if_neg hrfactor]
          exact fun _ => rfl
  · rw [if_neg hadmin]
    exact fun _ => rfl

/-! ### When the topics are listed and no call fails -/

theorem partitions_settled (topic : String) (h : sarama.Settled c) :
    partitions sarama topic c = (.ok ((sarama.topic c topic).map ClusterTopic.partitions), c) := by
  obtain ⟨names, htopics, hlisted⟩ := h.topics
  unfold partitions
  rw [bind_of_ok (mapError_eq_ok.mpr h.refreshMetadata), bind_of_ok htopics]
  cases hfound : sarama.topic c topic with
  | none =>
      have hmem : topic ∉ names := fun hmem =>
        sarama.listed c names (by rw [htopics]) topic hmem hfound
      rw [if_neg hmem]
      rfl
  | some found =>
      rw [if_pos (hlisted topic (by rw [hfound]; exact Option.some_ne_none _)),
        bind_of_ok (h.partitions topic found hfound)]
      rfl

theorem int32_eq {n : Nat} (h : n < 2 ^ 31) : int32 n = n := by
  unfold int32
  rw [Int.bmod_eq_of_le] <;> omega

end TopicManager

end Goka
