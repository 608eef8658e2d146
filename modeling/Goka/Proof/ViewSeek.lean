import Goka.Proof.MergeIterator

/-!
# Seeking with the iterator of a view

The documented contract of `Seek` is that `Key` and `Value` give the first pair at once and `Next`
goes on behind it. The merge iterator underneath only builds its heap anew: it keeps the pair of the
last `Next`, and the following `Next` gives the first pair. So the contract is met where there is
nothing to find.
-/

namespace Goka

open Merge

variable {q : PriorityQueue Nat Bytes} {α : Type}

namespace MergeIterator

variable {m : MergeIterator q LevelIterator}

structure Unfailing (subs : List PairSource) (m : MergeIterator q LevelIterator) : Prop where
  err : m.err = none
  sources : m.iters.map (fun iter => iter.iter.toPairSource) = subs
  faults : ∀ source ∈ subs, source.fault = none ∧ ∀ pair, source.valueErr pair = none

theorem err_level {i : LevelIterator} (h : i.iter.fault = none) : StorageIterator.err i = none := by
  have herr : StorageIterator.err i
      = if i.iter.started = true ∧ i.iter.ahead = [] then i.iter.fault else none := rfl
  rw [herr, h, ite_self]

/-- `Next` succeeds with the pair of an iterator that does not fail behind it. -/
theorem take_level {iter : LevelIterator} (i : Nat) (hm : m.err = none)
    (hvalues : ∀ pair, iter.iter.valueErr pair = none)
    (hiter : StorageIterator.err (StorageIterator.next iter).2 = none) :
    (m.take i iter).1 = true ∧ (m.take i iter).2.err = none := by
  have hvalue : StorageIterator.value iter = .ok (iter.iter.current.map Prod.snd) :=
    Cursor.currentValue_of_readable hvalues
  simp only [take, hvalue, hiter]
  split
  · exact ⟨rfl, hm⟩
  · exact ⟨rfl, rfl⟩

namespace Unfailing

variable {subs : List PairSource}

theorem fault_eq (h : Unfailing subs m) {iter : LevelIterator} (hiter : iter ∈ m.iters) :
    iter.iter.fault = none ∧ ∀ pair, iter.iter.valueErr pair = none := by
  apply h.faults
  rw [← h.sources]
  exact List.mem_map_of_mem hiter

theorem err_call (h : Unfailing subs m) (call : StorageIterator.Call) {iter : LevelIterator}
    (hiter : iter ∈ m.iters) : StorageIterator.err (StorageIterator.call iter call).2 = none := by
  apply err_level
  rw [iter.source_call]
  exact (h.fault_eq hiter).1

/-- A sub-iterator is taken from without an error. -/
theorem take (h : Unfailing subs m) {i : Nat} {iter : LevelIterator} (heap : List Nat)
    (hiter : m.iters[i]? = some iter) :
    (MergeIterator.take (q := q) i iter { m with heap := heap }).1 = true ∧
      (MergeIterator.take (q := q) i iter { m with heap := heap }).2.err = none := by
  have hmem := List.mem_of_getElem? hiter
  exact take_level (m := { m with heap := heap }) (q := q) i h.err (h.fault_eq hmem).2
    (h.err_call .next hmem)

theorem rebuild (h : Unfailing subs m) (call : StorageIterator.Call) :
    Unfailing subs (buildHeap (fun iter => StorageIterator.call iter call) m) where
  err := err_buildLoop (fun _ hiter => h.err_call call hiter) h.err
  sources := by
    refine Eq.trans ?_ h.sources
    exact map_iters_buildHeap (fun iter => iter.source_call call) m
  faults := h.faults

theorem call (h : Unfailing subs m) (call : StorageIterator.Call) :
    Unfailing subs (StorageIterator.call m call).2 where
  err := by
    cases call with
    | next =>
        have hnext : m.next.2.err = none := by
          rcases next_eq_take m with hnext | ⟨i, iter, heap, hiter, hnext⟩
          · rw [hnext]
            exact h.err
          · rw [hnext]
            exact (h.take heap hiter).2
        exact hnext
    | seek key =>
        have hseek : (m.seek key).2.err = none := by
          rw [seek_snd h.err]
          exact (h.rebuild (.seek key)).err
        exact hseek
  sources := by
    refine Eq.trans ?_ h.sources
    exact map_iters_call (fun iter => iter.source_call call) m
  faults := h.faults

theorem run (h : Unfailing subs m) (calls : List StorageIterator.Call) :
    Unfailing subs (StorageIterator.run m calls) :=
  StorageIterator.run_invariant (fun _ => True) (fun _ call h _ => h.call call) h
    fun _ _ => trivial

/-- After `Seek` the heap is that of the LevelDB iterators, without the layer that skips the
offset. -/
theorem seek_spec (h : Unfailing subs m) (key : Bytes) :
    Ready (mapIters LevelIterator.iter (m.seek key).2) ∧
      remaining (mapIters LevelIterator.iter (m.seek key).2)
        = (subs.flatMap PairSource.pairs).filter fun pair => decide (key ≤ pair.1) := by
  have hmap : mapIters LevelIterator.iter (m.seek key).2
      = ((mapIters LevelIterator.iter m).seek key).2 := by
    rw [seek_snd h.err, seek_snd (m := mapIters LevelIterator.iter m) h.err]
    exact mapIters_buildLoop (g := LevelIterator.iter) (fun _ => rfl) (fun _ => rfl) (fun _ => rfl)
      m.iters
  have hsources : MergeIterator.sources (mapIters LevelIterator.iter m) = subs := by
    rw [← h.sources, MergeIterator.sources, mapIters, List.map_map]
    rfl
  have hspec := MergeIterator.seek_spec (m := mapIters LevelIterator.iter m) h.err key
  rw [← hmap, hsources] at hspec
  exact hspec.resolve_left (not_not_intro (h.call (.seek key)).err)

theorem seek_fst (h : Unfailing subs m) (key : Bytes) :
    (m.seek key).1 = true ↔ (m.seek key).2.heap ≠ [] := by
  have herr : (buildHeap (StorageIterator.seek key) m).err = none := by
    rw [← seek_snd h.err]
    exact (h.call (.seek key)).err
  rw [MergeIterator.seek, if_neg (not_not_intro h.err)]
  simp [herr]

/-- The next pair is the least of those still ahead in the LevelDB iterators. -/
theorem next_of_ready (h : Unfailing subs m) (hready : Ready (mapIters LevelIterator.iter m))
    (hheap : m.heap ≠ []) :
    ∃ x ∈ remaining (mapIters LevelIterator.iter m),
      (∀ pair ∈ remaining (mapIters LevelIterator.iter m), x.1 ≤ pair.1) ∧
        m.next.1 = true ∧ m.next.2.key.getD [] = x.1 := by
  obtain ⟨i, heap, c, x, rest, hpopped⟩ := hready.pop hheap
  have hx : x ∈ remaining (mapIters LevelIterator.iter m) :=
    hpopped.account.mem_iff.mpr (List.mem_cons_self ..)
  refine ⟨x, hx, hpopped.least, ?_⟩
  obtain ⟨iter, hiter, rfl⟩ : ∃ iter, m.iters[i]? = some iter ∧ iter.iter = c := by
    rw [← Option.map_eq_some_iff, ← List.getElem?_map]
    exact hpopped.iter
  have hkeys : keys (mapIters LevelIterator.iter m).iters = keys m.iters :=
    keys_map (g := LevelIterator.iter) (fun _ => rfl) m.iters
  have hpop : q.pop (keys m.iters) m.heap = some (i, heap) := hkeys ▸ hpopped.pop
  have hnext : m.next = MergeIterator.take i iter { m with heap := heap } := by
    rw [next, if_neg (by simp [h.err, hheap]), hpop]
    simp only [hiter]
  have hkey : StorageIterator.key iter = some x.1 := congrArg (Option.map Prod.fst) hpopped.current
  rw [hnext]
  refine ⟨(h.take heap hiter).1, ?_⟩
  rw [key_take, getD_appendTo, hkey]
  rfl

end Unfailing

end MergeIterator

namespace ViewIterator

def item (codec : Codec α) (pair : Pair) : Bytes × (Option α × Option String) :=
  (pair.1, codec.decode (some pair.2))

/-- Successful calls of `Next`, and what `Key` and `Value` gave after each. -/
inductive Shows : ViewIterator q α → List (Bytes × (Option α × Option String)) →
    ViewIterator q α → Prop where
  | nil (i : ViewIterator q α) : Shows i [] i
  | cons {i j k : ViewIterator q α} {items : List (Bytes × (Option α × Option String))}
      (hnext : i.next = (true, j)) (hrest : Shows j items k) : Shows i ((j.key, j.value) :: items) k

/-- The iterator stands on the first of the pairs from a key on, with the pairs of larger keys to
come. -/
structure Positioned (contents : List Pair) (key : Bytes) (i : ViewIterator q α) (first : Pair)
    (rest : List Pair) : Prop where
  mem : first ∈ contents
  ge : key ≤ first.1
  least : ∀ pair ∈ contents, key ≤ pair.1 → first.1 ≤ pair.1
  ascending : Ascending Prod.fst rest
  perm : rest.Perm (contents.filter fun pair => decide (first.1 < pair.1))
  key_eq : i.key = first.1
  value_eq : i.value = i.codec.decode (some first.2)
  shows : ∀ items j, Shows i items j → items <+: rest.map (item i.codec)
  complete : ∀ items j, Shows i items j → j.next.1 = false → items = rest.map (item i.codec)

/-- The documented contract of `Seek`. -/
def HonoursSeek (contents : List Pair) (i : ViewIterator q α) (key : Bytes) : Prop :=
  (i.seek key).1 = true → ∃ first rest, Positioned contents key (i.seek key).2 first rest

theorem run_eq (i : ViewIterator q α) (calls : List StorageIterator.Call) :
    i.run calls = { i with iter := StorageIterator.run i.iter calls } := by
  induction calls generalizing i with
  | nil => rfl
  | cons call calls ih =>
      refine (ih (i.call call).2).trans ?_
      cases call with
      | next => rfl
      | seek key => rfl

/-- An iterator that stands on the first pair does not come to a pair that is not above it. -/
theorem Positioned.lt_next {contents : List Pair} {key : Bytes} {i : ViewIterator q α}
    {first : Pair} {rest : List Pair} (h : Positioned contents key i first rest)
    (hnext : i.next.1 = true) :
    first.1 < i.next.2.key := by
  have hshows : Shows i [(i.next.2.key, i.next.2.value)] i.next.2 :=
    .cons (Prod.ext hnext rfl) (.nil _)
  have hmem : (i.next.2.key, i.next.2.value) ∈ rest.map (item i.codec) :=
    (h.shows _ _ hshows).subset (List.mem_singleton_self _)
  obtain ⟨pair, hpair, hitem⟩ := List.mem_map.mp hmem
  have hlt := (List.mem_filter.mp (h.perm.mem_iff.mp hpair)).2
  have hkey : pair.1 = i.next.2.key := congrArg Prod.fst hitem
  rw [← hkey]
  exact of_decide_eq_true hlt

end ViewIterator

namespace View

def contents (partitions : List ViewPartition) : List Pair :=
  partitions.flatMap fun partition => partition.listing.pairs.filter fun pair => pair.1 ≠ offsetKey

def sources (partitions : List ViewPartition) : List PairSource :=
  partitions.map fun partition => (partition.st.iterator partition.listing).iter.toPairSource

variable {codec : Codec α} {partitions : List ViewPartition} {v : ViewIterator q α}

theorem mem_sources {pair : Pair} :
    pair ∈ (sources partitions).flatMap PairSource.pairs ↔
      ∃ partition ∈ partitions, partition.st.db pair.1 = some pair.2 := by
  simp only [sources, List.flatMap_map, List.mem_flatMap]
  exact exists_congr fun partition => and_congr_right fun _ =>
    partition.listing.mem_iff pair.1 pair.2

theorem mem_sources_of_contents {pair : Pair} (h : pair ∈ contents partitions) :
    pair ∈ (sources partitions).flatMap PairSource.pairs := by
  obtain ⟨partition, hpartition, hpair⟩ := List.mem_flatMap.mp h
  refine mem_sources.mpr ⟨partition, hpartition, ?_⟩
  exact (partition.listing.mem_iff pair.1 pair.2).mp (List.mem_filter.mp hpair).1

theorem openIterators_eq_ok {iters iters' : List LevelIterator}
    (h : openIterators partitions iters = .ok iters') :
    iters' = iters ++ partitions.map fun partition => partition.st.iterator partition.listing := by
  induction partitions generalizing iters with
  | nil =>
      rw [List.map_nil, List.append_nil]
      exact (Except.ok.inj h).symm
  | cons partition partitions ih =>
      simp only [openIterators, ViewPartition.iterator] at h
      cases hready : partition.state.readyToRead with
      | error err =>
          rw [hready] at h
          exact absurd h nofun
      | ok ready =>
          rw [hready] at h
          rw [ih h, List.append_assoc]
          rfl

/-- The iterator of a view merges those of its partitions. -/
theorem unfailing_iterator (hv : iterator q codec partitions = .ok v) :
    MergeIterator.Unfailing (sources partitions) v.iter := by
  unfold iterator at hv
  split at hv
  · exact absurd hv nofun
  · next iters hiters =>
      obtain rfl := Except.ok.inj hv
      have hstart : MergeIterator.Unfailing (q := q) (sources partitions)
          ⟨none, none, none, [], iters⟩ := by
        refine ⟨rfl, ?_, ?_⟩
        · rw [openIterators_eq_ok hiters, List.nil_append, List.map_map]
          rfl
        · intro source hsource
          obtain ⟨partition, -, rfl⟩ := List.mem_map.mp hsource
          exact ⟨rfl, fun _ => rfl⟩
      exact hstart.rebuild .next

/-- The contract of `Seek` holds exactly where no partition has an entry at or above the key, that
is, where `Seek` finds nothing. -/
theorem honoursSeek_iff (hv : iterator q codec partitions = .ok v)
    (calls : List StorageIterator.Call) (key : Bytes) :
    (v.run calls).HonoursSeek (contents partitions) key ↔
      ∀ partition ∈ partitions, ∀ key', partition.st.db key' ≠ none → key' < key := by
  rw [ViewIterator.run_eq]
  have hrun := (unfailing_iterator hv).run calls
  generalize StorageIterator.run v.iter calls = m at hrun
  obtain ⟨hready, hremaining⟩ := hrun.seek_spec key
  have hseek : MergeIterator.Unfailing (sources partitions) (m.seek key).2 := hrun.call (.seek key)
  have hnext := hseek.next_of_ready hready
  constructor
  · intro hcontract partition hpartition key' hkey'
    obtain ⟨value, hvalue⟩ := Option.ne_none_iff_exists'.mp hkey'
    by_contra hge
    have hmem : (key', value) ∈ MergeIterator.remaining
        (MergeIterator.mapIters LevelIterator.iter (m.seek key).2) := by
      rw [hremaining, List.mem_filter]
      exact ⟨mem_sources.mpr ⟨partition, hpartition, hvalue⟩, decide_eq_true (not_lt.mp hge)⟩
    have hheap : (m.seek key).2.heap ≠ [] := fun hnil =>
      List.ne_nil_of_mem hmem (hready.remaining_nil hnil).1
    obtain ⟨first, rest, hpositioned⟩ := hcontract ((hrun.seek_fst key).mpr hheap)
    obtain ⟨x, -, hleast, hfound, hkey⟩ := hnext hheap
    -- the next pair is no larger than the first one, which `Seek` is to have passed
    have hlt : first.1 < x.1 := hkey ▸ hpositioned.lt_next hfound
    refine absurd hlt (not_lt.mpr (hleast first ?_))
    rw [hremaining, List.mem_filter]
    exact ⟨mem_sources_of_contents hpositioned.mem, decide_eq_true hpositioned.ge⟩
  · intro hbelow hfound
    obtain ⟨x, hx, -⟩ := hnext ((hrun.seek_fst key).mp hfound)
    rw [hremaining, List.mem_filter] at hx
    obtain ⟨partition, hpartition, hvalue⟩ := mem_sources.mp hx.1
    have hlt := hbelow partition hpartition x.1 (by rw [hvalue]; exact nofun)
    exact absurd (of_decide_eq_true hx.2) (not_le.mpr hlt)

def bytesCodec : Codec Bytes := ⟨fun value => (value, none), fun data => (data, none)⟩

def twoKeys : ViewPartition where
  state := .running
  st := .new fun key => if key = [97] then some [49] else if key = [98] then some [50] else none
  listing :=
    { pairs := [([97], [49]), ([98], [50])]
      ascending := by decide
      mem_iff := by
        intro key value
        simp only [Storage.new, List.mem_cons, Prod.mk.injEq, List.not_mem_nil, or_false]
        by_cases ha : key = [97]
        · simp [ha, @eq_comm _ value]
        · by_cases hb : key = [98]
          · simp [hb, @eq_comm _ value]
          · simp [ha, hb] }

theorem honoursSeek_above : ∃ v : ViewIterator PriorityQueue.scan Bytes,
    iterator PriorityQueue.scan bytesCodec [twoKeys] = .ok v ∧
      (v.run [.next]).HonoursSeek (contents [twoKeys]) [99] := by
  refine ⟨_, rfl, (honoursSeek_iff rfl [.next] [99]).mpr ?_⟩
  refine List.forall_mem_singleton.mpr fun key hkey => ?_
  by_cases ha : key = [97]
  · subst ha
    decide
  · by_cases hb : key = [98]
    · subst hb
      decide
    · exact absurd (by simp [twoKeys, Storage.new, ha, hb]) hkey

/-- After a `Next` that showed the first key, `Seek` finds the second one but `Key` still gives the
first. -/
theorem key_not_sought : ∃ v : ViewIterator PriorityQueue.scan Bytes,
    iterator PriorityQueue.scan bytesCodec [twoKeys] = .ok v ∧
      ¬ (v.run [.next]).HonoursSeek (contents [twoKeys]) [98] := by
  refine ⟨_, rfl, fun h => ?_⟩
  obtain ⟨first, rest, hpositioned⟩ := h (by decide)
  have hge := hpositioned.ge
  rw [← hpositioned.key_eq] at hge
  exact absurd hge (by decide)

end View

end Goka
