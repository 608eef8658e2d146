import Goka.Proof.Graph
import Goka.PartitionProcessor

/-!
# Which codec a message meets

A message that is consumed, emitted or joined is decoded or encoded with what the graph returns for
its topic, so it meets the codec of its own edge exactly when no later edge on the topic declares
another.
-/

namespace Goka

namespace GroupGraph

variable {Codec Callback : Type} {gg gg' : GroupGraph Codec Callback} {e : Edge Codec Callback}
  {edges : List (Edge Codec Callback)} {group : String}

def OutputInv (gg : GroupGraph Codec Callback) (added : List (Edge Codec Callback)) : Prop :=
  ∀ t, Edge.outputStream t ∈ added → t ∈ gg.outputStreams ∧ gg.isOutputTopic t.name = true

theorem outputInv_addEdge {added : List (Edge Codec Callback)} (hspread : e ∈ e.spread)
    (hinv : OutputInv gg added) (h : gg.addEdge e = .ok gg') : OutputInv gg' (added ++ [e]) := by
  cases e with
  | inputStreams streams => simp [Edge.spread] at hspread
  | inputStream input =>
      obtain ⟨-, -, rfl⟩ := addInputStream_eq_ok.mp h
      exact fun t ht => hinv t (by simpa using ht)
  | outputStream topic =>
      obtain rfl := Outcome.ok.inj h
      intro t ht
      rcases List.mem_append.mp ht with ht | ht
      · obtain ⟨hlisted, houtput⟩ := hinv t ht
        refine ⟨List.mem_append_left _ hlisted, ?_⟩
        rw [isOutputTopic] at houtput ⊢
        rcases eq_or_ne t.name topic.name with heq | hne
        · simp [heq]
        · simpa [setCodec, hne] using houtput
      · obtain rfl : t = topic := by simpa using ht
        exact ⟨List.mem_append_right _ (List.mem_singleton_self _), by simp [isOutputTopic]⟩
  | loopStream _ _ | inputTable _ | crossTable _ | groupTable _ =>
      obtain rfl := Outcome.ok.inj h
      exact fun t ht => hinv t (by simpa using ht)

theorem defineGroup_outputInv (h : defineGroup group edges = .ok gg) :
    OutputInv gg (edges.flatMap Edge.spread) := by
  rw [defineGroup, foldlM_addEdge_spread] at h
  exact Outcome.foldlM_invariant OutputInv (fun e => e ∈ e.spread)
    (fun _ _ _ _ => outputInv_addEdge) (fun _ => mem_spread_of_mem_flatMap)
      (fun _ ht => by cases ht) h

/-- `newPartitionProcessor` looks up the callbacks of all inputs and of the loop. -/
theorem topicCallbacks_eq (h : defineGroup group edges = .ok gg) (hvalid : gg.validate = .ok ())
    (he : e ∈ edges.flatMap Edge.spread) {cb : Option Callback} (hcb : e.callback = some cb) :
    gg.topicCallbacks (e.topic group) = cb := by
  obtain ⟨rfl, -, -, -, hlistedInput, hlistedLoop⟩ := defineGroup_eq_ok h
  obtain ⟨honeLoop, -, -⟩ := validate_eq_ok hvalid
  rw [topicCallbacks, callback_eq h hvalid he hcb]
  refine if_pos ?_
  cases e with
  | inputStream s =>
      exact List.mem_append_left _ (List.mem_map_of_mem (f := fun e => e.name) (hlistedInput s he))
  | loopStream codec cb' =>
      have hs := hlistedLoop codec cb' he
      match hlist : gg.loopStream with
      | [] => simp [hlist] at hs
      | [s] =>
          obtain rfl : ⟨⟨loopName gg.group, codec⟩, cb'⟩ = s := by simpa [hlist] using hs
          simp [inputTopics, theLoopStream, hlist, Edge.topic]
      | _ :: _ :: _ => simp [hlist] at honeLoop
  | _ => cases hcb

end GroupGraph

variable {α Callback σ : Type} {cfg : Config α Callback} {c : Codec α}

/-- A message of a stream or loop meets the codec and the callback of its topic. -/
theorem prepareMessage_eq {msg : Message} {f : Callback}
    (hcodec : cfg.graph.codec msg.topic = some c)
    (hcb : cfg.graph.topicCallbacks msg.topic = some f)
    (hnil : msg.value = none → cfg.nilHandling = .decode) :
    prepareMessage cfg msg =
      match c.decode msg.value with
      | (_, some err) =>
          .failed ("error decoding message for key " ++ Bytes.text msg.key ++ " from " ++
            msg.topic ++ "/" ++ toString msg.partition ++ ": " ++ err)
      | (m, none) => .call f m := by
  unfold prepareMessage
  simp only [hcodec, selectCallback, hcb]
  split
  · rename_i hvalue hhandling
    rw [hnil hvalue] at hhandling
    cases hhandling
  · rename_i hvalue hhandling
    rw [hnil hvalue] at hhandling
    cases hhandling
  · rfl

theorem emit_run {env : Env α Callback} {topic : String} (hempty : topic ≠ "")
    (hloop : topic ≠ loopName env.graph.group) (htable : topic ≠ tableName env.graph.group)
    (houtput : env.graph.isOutputTopic topic = true) (hcodec : env.graph.codec topic = some c)
    {v : α} {data : Option Bytes} (hencode : c.encode (some v) = (data, none)) (key : Bytes)
    (options : List Headers) (s : OpState σ) :
    (Op.emit env topic key (some v) options).run s =
      (.ok (), { s with
        ctx := s.ctx.handOut (.emit topic)
        emitted := s.emitted ++ [⟨topic, key, data,
          env.emitterDefaultHeaders.merged (.ofOptions options), s.failing⟩] }) := by
  unfold Op.emit
  simp only [hempty, Ne.symm hloop, Ne.symm htable, houtput, hcodec, hencode, if_false,
    Option.isNone_some, Bool.false_eq_true, Bool.true_eq_false]
  rfl

theorem Op.run_get_bind {β : Type} (f : OpState σ → Op σ β) (s : OpState σ) :
    (MonadState.get >>= f).run s = (f s).run s :=
  rfl

theorem join_run {env : Env α Callback} {topic : String}
    {pviews : String → Option (Bytes → Except String (Option Bytes))}
    {get : Bytes → Except String (Option Bytes)} (hpviews : env.pviews = some pviews)
    (hview : pviews topic = some get) (hcodec : env.graph.codec topic = some c) {s : OpState σ}
    {data : Bytes} (hget : get s.ctx.msg.key = .ok (some data)) {v : Option α}
    (hdecode : c.decode (some data) = (v, none)) :
    (Op.join env topic).run s = (.ok v, s) := by
  unfold Op.join
  simp only [hpviews, hview, hcodec, Option.isNone_some, Option.bind_some, Bool.false_eq_true,
    if_false]
  rw [Op.run_get_bind]
  simp only [hget, pure_bind, hdecode]
  rfl

/-- Every edge keeps its codec and its callback, and what is consumed, emitted and joined on its
topic meets them. -/
structure EdgesKept (cfg : Config α Callback) (group : String)
    (edges : List (Edge (Codec α) Callback)) : Prop where
  callback : ∀ e ∈ edges, ∀ cb, e.callback = some cb → cfg.graph.callback (e.topic group) = cb
  codec : ∀ e ∈ edges, e.isLookup = false → cfg.graph.codec (e.topic group) = e.codec
  consumes : ∀ e ∈ edges, ∀ c f, e.codec = some c → e.callback = some (some f) → ∀ msg : Message,
    msg.topic = e.topic group → (msg.value = none → cfg.nilHandling = .decode) →
    prepareMessage cfg msg =
      match c.decode msg.value with
      | (_, some err) =>
          .failed ("error decoding message for key " ++ Bytes.text msg.key ++ " from " ++
            msg.topic ++ "/" ++ toString msg.partition ++ ": " ++ err)
      | (m, none) => .call f m
  emits : ∀ t, .outputStream t ∈ edges → t.name ≠ "" → ∀ c v data, t.codec = some c →
    c.encode (some v) = (data, none) → ∀ key options (σ : Type) (s : OpState σ),
    (Op.emit cfg.toEnv t.name key (some v) options).run s =
      (.ok (), { s with
        ctx := s.ctx.handOut (.emit t.name)
        emitted := s.emitted ++ [⟨t.name, key, data,
          cfg.emitterDefaultHeaders.merged (.ofOptions options), s.failing⟩] })
  joins : ∀ t, .inputTable t ∈ edges → ∀ c pviews get data v, t.codec = some c →
    cfg.pviews = some pviews → pviews t.name = some get → ∀ (σ : Type) (s : OpState σ),
    get s.ctx.msg.key = .ok (some data) → c.decode (some data) = (v, none) →
    (Op.join cfg.toEnv t.name).run s = (.ok v, s)

/-- On the topic of each edge other than a `Lookup`, the last edge declares the same codec. -/
def LastDeclaresSame (group : String) (edges : List (Edge (Codec α) Callback)) : Prop :=
  ∀ e ∈ edges, e.isLookup = false → ∀ last,
    GroupGraph.lastEdge group edges (e.topic group) = some last → last.codec = e.codec

/-- In a group that is defined and valid, every edge keeps its codec and its callback if and only if
on the topic of each edge other than a `Lookup` the last edge, a `Lookup` included, declares the
same codec. -/
theorem edgesKept_iff (cfg : Config α Callback) (group : String)
    (edges : List (Edge (Codec α) Callback))
    (h : GroupGraph.defineGroup group edges = .ok cfg.graph)
    (hvalid : cfg.graph.validate = .ok ()) :
    EdgesKept cfg group (edges.flatMap Edge.spread) ↔
      LastDeclaresSame group (edges.flatMap Edge.spread) := by
  have hcodecs := GroupGraph.codec_eq_iff h
  constructor
  · exact fun hkept => hcodecs.mp hkept.codec
  · intro hlast
    have hcodec := hcodecs.mpr hlast
    obtain ⟨hgroup, -, -⟩ := GroupGraph.defineGroup_eq_ok h
    obtain ⟨-, -, hforeign⟩ := GroupGraph.validate_eq_ok hvalid
    refine ⟨fun e he cb => GroupGraph.callback_eq h hvalid he, hcodec, ?_, ?_, ?_⟩
    · intro e he c f hc hf msg hmsg hnil
      have hlookup : e.isLookup = false := by
        cases e with
        | crossTable _ => cases hf
        | _ => rfl
      refine prepareMessage_eq ?_ ?_ hnil
      · rw [hmsg, hcodec e he hlookup, hc]
      · rw [hmsg]
        exact GroupGraph.topicCallbacks_eq h hvalid he hf
    · intro t ht hempty c v data hc hencode key options σ s
      obtain ⟨hlisted, houtput⟩ := GroupGraph.defineGroup_outputInv h t ht
      have hname := hforeign t.name (by
        simp only [GroupGraph.foreignTopics, List.mem_append]
        exact Or.inl (Or.inl (Or.inl (List.mem_map_of_mem hlisted))))
      exact emit_run hempty hname.1 hname.2 houtput
        ((hcodec _ ht rfl).trans hc) hencode key options s
    · intro t ht c pviews get data v hc hpviews hview σ s hget hdecode
      exact join_run hpviews hview ((hcodec _ ht rfl).trans hc) hget hdecode

def reversedCodec : Codec Bytes where
  encode value := (value.map List.reverse, none)
  decode data := (data.map List.reverse, none)

def plainCodec : Codec Bytes := ⟨fun value => (value, none), fun data => (data, none)⟩

def separateEdges : List (Edge (Codec Bytes) Unit) :=
  [.inputs ["a", "b"] (some plainCodec) (some ()), .outputStream ⟨"c", some reversedCodec⟩]

def sharedEdges : List (Edge (Codec Bytes) Unit) :=
  [.inputStream ⟨⟨"a", some plainCodec⟩, some ()⟩, .outputStream ⟨"a", some reversedCodec⟩]

def configOf (edges : List (Edge (Codec Bytes) Unit)) : Config Bytes Unit where
  graph := match GroupGraph.defineGroup "g" edges with
    | .ok graph => graph
    | _ => .empty "g"
  emitterDefaultHeaders := none
  pviews := none
  views := none
  nilHandling := .ignore

theorem edgesKept_iff_separate :
    EdgesKept (configOf separateEdges) "g" (separateEdges.flatMap Edge.spread) := by
  refine (edgesKept_iff (configOf separateEdges) "g" separateEdges rfl rfl).mpr ?_
  intro e he _ last hlast
  simp only [separateEdges, Edge.inputs, List.map_cons, List.map_nil, List.flatMap_cons,
    List.flatMap_nil, Edge.spread, List.mem_append, List.mem_cons, List.not_mem_nil, or_false] at he
  rcases he with (rfl | rfl) | rfl <;>
    · obtain rfl := Option.some.inj hlast
      rfl

/-- The input is decoded with the codec of the output on the same topic. -/
theorem consumed_with_other_codec :
    GroupGraph.defineGroup "g" sharedEdges = .ok (configOf sharedEdges).graph ∧
      (configOf sharedEdges).graph.validate = .ok () ∧
      prepareMessage (configOf sharedEdges) ⟨"a", 0, 0, [], some [1, 2]⟩ = .call () (some [2, 1]) ∧
      ¬ EdgesKept (configOf sharedEdges) "g" sharedEdges := by
  refine ⟨rfl, rfl, rfl, fun hkept => ?_⟩
  have hcodec : some reversedCodec = some plainCodec := hkept.codec _ (List.mem_cons_self ..) rfl
  have hdecode := congrArg (Option.map fun codec => codec.decode (some [1, 2])) hcodec
  revert hdecode
  decide

end Goka
