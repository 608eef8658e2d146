import Goka.Graph

/-!
# What the graph remembers of its edges

Both maps are written in list order, so what they return for a topic is what the last edge on that
topic declared. For callbacks the last one is the only one: a second `Input` panics, a second `Loop`
and an `Input` on the loop topic fail validation. For codecs nothing prevents two edges of different
kinds from sharing a topic, and the last one wins.
-/

namespace Goka

variable {Codec Callback : Type}

namespace GroupGraph

variable {gg gg' : GroupGraph Codec Callback} {e : Edge Codec Callback}
  {edges : List (Edge Codec Callback)} {group : String}

theorem validateInputTopic_eq_ok {topic : String} :
    gg.validateInputTopic topic = .ok () ↔ topic ≠ "" ∧ gg.callbacks topic = none := by
  unfold validateInputTopic
  by_cases hempty : topic = ""
  · simp [hempty]
  · cases hcb : gg.callbacks topic <;> simp [hempty]

theorem addInputStream_eq_ok {input : InputStream Codec Callback} :
    gg.addInputStream input = .ok gg' ↔
      input.name ≠ "" ∧ gg.callbacks input.name = none ∧
      gg' = { gg with
        codecs := Function.update gg.codecs input.name input.codec
        callbacks := Function.update gg.callbacks input.name (some input.cb)
        inputStreams := gg.inputStreams ++ [input] } := by
  unfold addInputStream
  rw [Outcome.bind_eq_ok]
  constructor
  · rintro ⟨_, hvalid, hrest⟩
    obtain ⟨hname, hfresh⟩ := validateInputTopic_eq_ok.mp hvalid
    exact ⟨hname, hfresh, (Outcome.ok.inj hrest).symm⟩
  · rintro ⟨hname, hfresh, rfl⟩
    exact ⟨(), validateInputTopic_eq_ok.mpr ⟨hname, hfresh⟩, rfl⟩

/-- Defining a group sees only the edges that the given ones stand for. -/
theorem foldlM_addEdge_spread (gg : GroupGraph Codec Callback)
    (edges : List (Edge Codec Callback)) :
    edges.foldlM addEdge gg = (edges.flatMap Edge.spread).foldlM addEdge gg := by
  induction edges generalizing gg with
  | nil => rfl
  | cons e edges ih =>
      have hhead : gg.addEdge e = e.spread.foldlM addEdge gg := by
        cases e with
        | inputStreams streams =>
            rw [Edge.spread, List.foldlM_map]
            rfl
        | _ =>
            simp only [Edge.spread, List.foldlM_cons, List.foldlM_nil]
            exact (bind_pure _).symm
      rw [List.foldlM_cons, List.flatMap_cons, List.foldlM_append, ← hhead]
      congr 1
      funext gg
      exact ih gg

/-! ### Codecs: the last edge on a topic wins -/

def lastEdge (group : String) (edges : List (Edge Codec Callback)) (topic : String) :
    Option (Edge Codec Callback) :=
  edges.reverse.find? fun e => e.topic group = topic

theorem lastEdge_concat (group : String) (edges : List (Edge Codec Callback))
    (e : Edge Codec Callback) (topic : String) :
    lastEdge group (edges ++ [e]) topic
      = if e.topic group = topic then some e else lastEdge group edges topic := by
  by_cases h : e.topic group = topic <;> simp [lastEdge, h]

theorem lastEdge_isSome (group : String) (he : e ∈ edges) :
    ∃ last, lastEdge group edges (e.topic group) = some last := by
  refine Option.isSome_iff_exists.mp ?_
  rw [lastEdge, List.find?_isSome]
  exact ⟨e, List.mem_reverse.mpr he, by simp⟩

/-- The codec of the topic is the one of this edge, whatever was declared before. -/
theorem addEdge_codecs (hspread : e ∈ e.spread) (h : gg.addEdge e = .ok gg') :
    gg'.group = gg.group ∧
      gg'.codecs = Function.update gg.codecs (e.topic gg.group) e.codec := by
  cases e with
  | inputStreams streams => simp [Edge.spread] at hspread
  | inputStream input =>
      obtain ⟨-, -, rfl⟩ := addInputStream_eq_ok.mp h
      exact ⟨rfl, rfl⟩
  | loopStream codec cb =>
      obtain rfl := Outcome.ok.inj h
      exact ⟨rfl, rfl⟩
  | outputStream topic =>
      obtain rfl := Outcome.ok.inj h
      exact ⟨rfl, rfl⟩
  | inputTable topic =>
      obtain rfl := Outcome.ok.inj h
      exact ⟨rfl, rfl⟩
  | crossTable topic =>
      obtain rfl := Outcome.ok.inj h
      exact ⟨rfl, rfl⟩
  | groupTable codec =>
      obtain rfl := Outcome.ok.inj h
      exact ⟨rfl, rfl⟩

/-! ### Callbacks: the last one is the only one -/

/-- What the callback map keeps while the edges `done` are added: the callback of every input that
does not use the loop topic, and the callback of the last loop. -/
structure CallbackInv (gg : GroupGraph Codec Callback) (done : List (Edge Codec Callback)) :
    Prop where
  input : ∀ s ∈ gg.inputStreams, s.name ≠ loopName gg.group → gg.callbacks s.name = some s.cb
  loop : ∀ s, gg.loopStream.getLast? = some s → gg.callbacks (loopName gg.group) = some s.cb
  listed_input : ∀ s, Edge.inputStream s ∈ done → s ∈ gg.inputStreams
  listed_loop : ∀ codec cb, Edge.loopStream codec cb ∈ done →
    (⟨⟨loopName gg.group, codec⟩, cb⟩ : InputStream Codec Callback) ∈ gg.loopStream

theorem mem_spread_of_mem_flatMap (he : e ∈ edges.flatMap Edge.spread) : e ∈ e.spread := by
  obtain ⟨parent, -, hchild⟩ := List.mem_flatMap.mp he
  cases parent with
  | inputStreams streams =>
      obtain ⟨s, -, rfl⟩ := List.mem_map.mp hchild
      exact List.mem_singleton_self _
  | _ =>
      obtain rfl := List.mem_singleton.mp hchild
      exact List.mem_singleton_self _

/-- An input on a topic that has a callback is refused, and a loop replaces the one before. -/
theorem callbackInv_addEdge {done : List (Edge Codec Callback)} (hspread : e ∈ e.spread)
    (hinv : CallbackInv gg done) (h : gg.addEdge e = .ok gg') :
    CallbackInv gg' (done ++ [e]) := by
  obtain ⟨hinput, hloop, hlistedInput, hlistedLoop⟩ := hinv
  cases e with
  | inputStreams streams => simp [Edge.spread] at hspread
  | inputStream input =>
      obtain ⟨-, hfresh, rfl⟩ := addInputStream_eq_ok.mp h
      refine ⟨?_, ?_, ?_, ?_⟩
      · intro s hs hname
        rcases List.mem_append.mp hs with hs | hs
        · have hkept := hinput s hs hname
          have hne : s.name ≠ input.name := by
            intro heq
            rw [heq, hfresh] at hkept
            cases hkept
          simpa [hne] using hkept
        · rw [List.mem_singleton.mp hs]
          simp
      · intro s hs
        have hkept := hloop s hs
        have hne : loopName gg.group ≠ input.name := by
          intro heq
          rw [heq, hfresh] at hkept
          cases hkept
        simpa [hne] using hkept
      · intro s hs
        rcases List.mem_append.mp hs with hs | hs
        · exact List.mem_append_left _ (hlistedInput s hs)
        · obtain rfl : s = input := by simpa using hs
          exact List.mem_append_right _ (List.mem_singleton_self _)
      · intro codec cb hs
        exact hlistedLoop codec cb (by simpa using hs)
  | loopStream codec cb =>
      obtain rfl := Outcome.ok.inj h
      refine ⟨?_, ?_, ?_, ?_⟩
      · intro s hs hname
        have hkept := hinput s hs hname
        have hne : s.name ≠ loopName gg.group := hname
        simpa [setCallback, setCodec, hne] using hkept
      · intro s hs
        obtain rfl : (⟨⟨loopName gg.group, codec⟩, cb⟩ : InputStream Codec Callback) = s := by
          simpa using hs
        simp [setCallback, setCodec]
      · intro s hs
        exact hlistedInput s (by simpa using hs)
      · intro codec' cb' hs
        rcases List.mem_append.mp hs with hs | hs
        · exact List.mem_append_left _ (hlistedLoop codec' cb' hs)
        · obtain ⟨rfl, rfl⟩ : codec' = codec ∧ cb' = cb := by simpa using hs
          exact List.mem_append_right _ (List.mem_singleton_self _)
  | outputStream _ | inputTable _ | crossTable _ | groupTable _ =>
      obtain rfl := Outcome.ok.inj h
      exact ⟨hinput, hloop, fun s hs => hlistedInput s (by simpa using hs),
        fun codec cb hs => hlistedLoop codec cb (by simpa using hs)⟩

/-- The edges are added in turn, after those of a list have been spread out. -/
theorem defineGroup_eq_ok (h : defineGroup group edges = .ok gg) :
    gg.group = group ∧
      (∀ topic, gg.codec topic
        = (lastEdge group (edges.flatMap Edge.spread) topic).bind Edge.codec) ∧
      CallbackInv gg (edges.flatMap Edge.spread) := by
  rw [defineGroup, foldlM_addEdge_spread] at h
  have hcodecs := Outcome.foldlM_invariant
    (fun (gg : GroupGraph Codec Callback) done => gg.group = group ∧
      ∀ topic, gg.codecs topic = (lastEdge group done topic).bind Edge.codec)
    (fun e => e ∈ e.spread) ?_ (fun _ => mem_spread_of_mem_flatMap) ?_ h
  · have hcallbacks := Outcome.foldlM_invariant CallbackInv (fun e => e ∈ e.spread)
      (fun gg done e gg' => callbackInv_addEdge) (fun _ => mem_spread_of_mem_flatMap)
      ⟨by simp [empty], by simp [empty], by simp, by simp⟩ h
    exact ⟨hcodecs.1, hcodecs.2, hcallbacks⟩
  · rintro gg done e gg' hspread ⟨hgroup, hcodecs⟩ hstep
    obtain ⟨hgroup', hcodecs'⟩ := addEdge_codecs hspread hstep
    refine ⟨hgroup'.trans hgroup, fun topic => ?_⟩
    rw [hcodecs', hgroup, lastEdge_concat]
    by_cases htopic : e.topic group = topic
    · subst htopic
      simp
    · simp [htopic, Ne.symm htopic, hcodecs]
  · exact ⟨rfl, fun _ => rfl⟩

theorem validateTopics_eq_ok {topics : List String} :
    validateTopics group topics = .ok () ↔
      ∀ topic ∈ topics, topic ≠ loopName group ∧ topic ≠ tableName group := by
  induction topics with
  | nil => simp [validateTopics]
  | cons topic topics ih =>
      rw [validateTopics]
      by_cases hloop : topic = loopName group
      · simp [hloop]
      · by_cases htable : topic = tableName group
        · rw [if_neg hloop, if_pos htable]
          simp [htable]
        · simp [hloop, htable, ih]

theorem validate_eq_ok (h : gg.validate = .ok ()) :
    gg.loopStream.length ≤ 1 ∧ gg.groupTable.length ≤ 1 ∧
      ∀ topic ∈ gg.foreignTopics, topic ≠ loopName gg.group ∧ topic ≠ tableName gg.group := by
  unfold validate at h
  split at h
  · cases h
  · rename_i hloop
    split at h
    · cases h
    · rename_i htable
      split at h
      · cases h
      · exact ⟨not_lt.mp hloop, not_lt.mp htable, validateTopics_eq_ok.mp h⟩

/-- A valid graph returns for every `Input` and `Loop` the callback it was given. -/
theorem callback_eq (h : defineGroup group edges = .ok gg) (hvalid : gg.validate = .ok ())
    (he : e ∈ edges.flatMap Edge.spread) {cb : Option Callback} (hcb : e.callback = some cb) :
    gg.callback (e.topic group) = cb := by
  obtain ⟨rfl, -, hinput, hloop, hlistedInput, hlistedLoop⟩ := defineGroup_eq_ok h
  obtain ⟨honeLoop, -, hforeign⟩ := validate_eq_ok hvalid
  cases e with
  | inputStream s =>
      have hs := hlistedInput s he
      have hname : s.name ≠ loopName gg.group := by
        refine (hforeign s.name ?_).1
        simp only [foreignTopics, List.mem_append, List.mem_map]
        exact Or.inl (Or.inl (Or.inr ⟨s, hs, rfl⟩))
      obtain rfl := Option.some.inj hcb
      simp [callback, Edge.topic, hinput s hs hname]
  | loopStream codec cb' =>
      have hs := hlistedLoop codec cb' he
      have hlast : gg.loopStream.getLast? = some ⟨⟨loopName gg.group, codec⟩, cb'⟩ := by
        match hlist : gg.loopStream with
        | [] => simp [hlist] at hs
        | [s] => simpa [hlist, eq_comm] using hs
        | _ :: _ :: _ => simp [hlist] at honeLoop
      obtain rfl := Option.some.inj hcb
      simp [callback, Edge.topic, hloop _ hlast]
  | _ => cases hcb

/-- The graph returns the declared codec of every edge other than a `Lookup` exactly when the last
edge on each of their topics, a `Lookup` included, declares that same codec. -/
theorem codec_eq_iff (h : defineGroup group edges = .ok gg) :
    (∀ e ∈ edges.flatMap Edge.spread, e.isLookup = false →
        gg.codec (e.topic group) = e.codec) ↔
      ∀ e ∈ edges.flatMap Edge.spread, e.isLookup = false → ∀ last,
        lastEdge group (edges.flatMap Edge.spread) (e.topic group) = some last →
          last.codec = e.codec := by
  obtain ⟨-, hcodec, -⟩ := defineGroup_eq_ok h
  refine forall₂_congr fun e he => imp_congr_right fun _ => ?_
  obtain ⟨last, hlast⟩ := lastEdge_isSome group he
  rw [hcodec, hlast]
  simp

end GroupGraph

end Goka
