import Goka.Iterator

/-!
# The merge iterator is a merge

While no error has come up, every sub-iterator with pairs ahead of it is in the heap, and the pairs
ahead of them all are what is still to come. `Next` takes the least of them; `buildHeap` sets the
stage again.
-/

namespace Goka

open Merge

/-- Successful calls of `Next`, and the pairs they showed. -/
inductive StorageIterator.Exposes {ι : Type} [StorageIterator ι] : ι → List Pair → ι → Prop where
  | nil (i : ι) : Exposes i [] i
  | cons {i j k : ι} {data : Option Bytes} {pairs : List Pair} (hnext : next i = (true, j))
      (hvalue : value j = .ok data) (hrest : Exposes j pairs k) :
      Exposes i (((key j).getD [], data.getD []) :: pairs) k

/-- What every allowed call keeps is kept along all of them. -/
theorem StorageIterator.run_invariant {ι : Type} [StorageIterator ι] {P : ι → Prop}
    (Allowed : Call → Prop) (hcall : ∀ i c, P i → Allowed c → P (call i c).2) {i : ι} (hi : P i)
    {calls : List Call} (hcalls : ∀ c ∈ calls, Allowed c) : P (run i calls) := by
  induction calls generalizing i with
  | nil => exact hi
  | cons c calls ih =>
      obtain ⟨hc, hcalls⟩ := List.forall_mem_cons.mp hcalls
      exact ih (hcall i c hi hc) hcalls

namespace Cursor

variable {c : Cursor}

theorem next_eq (c : Cursor) : StorageIterator.next c = (c.advance.current.isSome, c.advance) := rfl

theorem current_of_started (h : c.started = true) : c.current = c.ahead.head? := if_pos h

theorem started_advance : c.advance.started = true := by
  unfold advance
  split
  · assumption
  · rfl

theorem source_advance : c.advance.toPairSource = c.toPairSource := by
  unfold advance
  split <;> rfl

theorem source_call (c : Cursor) (call : StorageIterator.Call) :
    (StorageIterator.call c call).2.toPairSource = c.toPairSource := by
  cases call with
  | next => exact source_advance
  | seek key => rfl

theorem ahead_advance (h : c.started = true) : c.advance.ahead = c.ahead.tail := by
  rw [advance, if_pos h]

theorem ahead_ascending (c : Cursor) : Ascending Prod.fst c.ahead :=
  List.Pairwise.sublist c.suffix.sublist c.ascending

/-- Behind its own pairs a cursor shows the error it ends in. -/
theorem err_of_started (h : c.started = true) :
    StorageIterator.err c = if c.ahead = [] then c.fault else none := by
  simp [StorageIterator.err, h]

theorem currentValue_of_readable (h : ∀ pair, c.valueErr pair = none) :
    c.currentValue = .ok (c.current.map Prod.snd) := by
  unfold currentValue
  cases c.current with
  | none => rfl
  | some pair =>
      dsimp only
      rw [h pair]
      rfl

theorem ahead_position (c : Cursor) (key : Bytes) :
    (c.position key).ahead = c.pairs.filter fun pair => decide (key ≤ pair.1) := by
  rw [← dropWhile_eq_filter c.ascending key]
  -- the two sides decide the same order in two ways
  exact congrArg (fun below => c.pairs.dropWhile below)
    (funext fun _ => decide_eq_decide.mpr Iff.rfl)

end Cursor

namespace LevelIterator

theorem iter_next (i : LevelIterator) :
    (StorageIterator.next i).2.iter =
      if (i.iter.advance.current.map Prod.fst).getD [] = offsetKey then i.iter.advance.advance
      else i.iter.advance := by
  simp only [StorageIterator.next, StorageIterator.key]
  split <;> rfl

theorem source_call (i : LevelIterator) (call : StorageIterator.Call) :
    (StorageIterator.call i call).2.iter.toPairSource = i.iter.toPairSource := by
  cases call with
  | next =>
      refine (congrArg Cursor.toPairSource i.iter_next).trans ?_
      split
      · rw [Cursor.source_advance, Cursor.source_advance]
      · exact Cursor.source_advance
  | seek key => rfl

end LevelIterator

namespace MergeIterator

variable {q : PriorityQueue Nat Bytes}

theorem getD_appendTo (buf data : Option Bytes) : (appendTo buf data).getD [] = data.getD [] := by
  unfold appendTo
  split
  · next h => exact h.2.symm
  · rfl

/-! ### Sub-iterators of any kind -/

section Iterators

variable {ι : Type} [StorageIterator ι] {m : MergeIterator q ι}

theorem next_of_err (herr : m.err ≠ none) : m.next = (false, m) := if_pos (Or.inl herr)

theorem seek_of_err (herr : m.err ≠ none) (key : Bytes) : m.seek key = (false, m) := if_pos herr

theorem seek_snd (herr : m.err = none) (key : Bytes) :
    (m.seek key).2 = buildHeap (StorageIterator.seek key) m := by
  rw [seek, if_neg (not_not_intro herr)]

/-- `Next` does nothing, or it takes the pair of one of the iterators. -/
theorem next_eq_take (m : MergeIterator q ι) :
    m.next = (false, m) ∨ ∃ i iter heap, m.iters[i]? = some iter ∧
      m.next = take i iter { m with heap := heap } := by
  unfold next
  split
  · exact Or.inl rfl
  · split
    · exact Or.inl rfl
    · next i heap hpop =>
        split
        · exact Or.inl rfl
        · next iter hiter => exact Or.inr ⟨i, iter, heap, hiter, rfl⟩

theorem key_take (i : Nat) (iter : ι) :
    (take i iter m).2.key = appendTo m.key (StorageIterator.key iter) := by
  unfold take
  split
  · rfl
  · dsimp only
    split <;> rfl

theorem key_buildLoop (hasValue : ι → Bool × ι) (rest : List ι) :
    (buildLoop hasValue rest m).key = m.key := by
  induction rest generalizing m with
  | nil => rfl
  | cons iter rest ih =>
      simp only [buildLoop]
      split
      · exact ih
      · split
        · rfl
        · exact ih

theorem key_seek (m : MergeIterator q ι) (key : Bytes) : (m.seek key).2.key = m.key := by
  by_cases herr : m.err = none
  · rw [seek_snd herr]
    exact key_buildLoop _ _
  · rw [seek_of_err herr]

/-- The key is the one from before, or that of a sub-iterator. -/
theorem key_next (m : MergeIterator q ι) :
    m.next.2.key = m.key ∨
      ∃ iter ∈ m.iters, m.next.2.key.getD [] = (StorageIterator.key iter).getD [] := by
  rcases next_eq_take m with hnext | ⟨i, iter, heap, hiter, hnext⟩
  · exact Or.inl (by rw [hnext])
  · refine Or.inr ⟨iter, List.mem_of_getElem? hiter, ?_⟩
    rw [hnext, key_take, getD_appendTo]

theorem err_buildLoop {hasValue : ι → Bool × ι} {rest : List ι}
    (hrest : ∀ iter ∈ rest, StorageIterator.err (hasValue iter).2 = none) (herr : m.err = none) :
    (buildLoop hasValue rest m).err = none := by
  induction rest generalizing m with
  | nil => exact herr
  | cons iter rest ih =>
      obtain ⟨hiter, hrest⟩ := List.forall_mem_cons.mp hrest
      simp only [buildLoop, hiter]
      split
      · exact ih hrest herr
      · exact ih hrest rfl

section Moved

variable {R : ι → ι → Prop} (hrefl : ∀ iter, R iter iter)

include hrefl

theorem moved_buildLoop {hasValue : ι → Bool × ι} (hmove : ∀ iter, R iter (hasValue iter).2)
    (rest : List ι) :
    ∃ moved, (buildLoop hasValue rest m).iters = m.iters ++ moved ∧ List.Forall₂ R rest moved := by
  induction rest generalizing m with
  | nil => exact ⟨[], (List.append_nil _).symm, .nil⟩
  | cons iter rest ih =>
      simp only [buildLoop]
      split
      · obtain ⟨moved, hiters, hmoved⟩ := ih (m := { m with
          heap := q.push (keys (m.iters ++ [(hasValue iter).2])) m.heap m.iters.length
          iters := m.iters ++ [(hasValue iter).2] })
        exact ⟨(hasValue iter).2 :: moved, by simp [hiters], .cons (hmove iter) hmoved⟩
      · split
        · exact ⟨(hasValue iter).2 :: rest, by simp,
            .cons (hmove iter) (List.forall₂_same.mpr fun iter _ => hrefl iter)⟩
        · obtain ⟨moved, hiters, hmoved⟩ := ih (m := { m with
            err := StorageIterator.err (hasValue iter).2
            iters := m.iters ++ [(hasValue iter).2] })
          exact ⟨(hasValue iter).2 :: moved, by simp [hiters], .cons (hmove iter) hmoved⟩

theorem moved_buildHeap {hasValue : ι → Bool × ι} (hmove : ∀ iter, R iter (hasValue iter).2)
    (m : MergeIterator q ι) : List.Forall₂ R m.iters (buildHeap hasValue m).iters := by
  obtain ⟨moved, hiters, hmoved⟩ := moved_buildLoop hrefl hmove m.iters
    (m := { m with heap := [], iters := [] }) (q := q)
  rw [buildHeap, hiters]
  exact hmoved

theorem moved_next (hmove : ∀ iter : ι, R iter (StorageIterator.next iter).2)
    (m : MergeIterator q ι) : List.Forall₂ R m.iters m.next.2.iters := by
  have hsame : List.Forall₂ R m.iters m.iters := List.forall₂_same.mpr fun iter _ => hrefl iter
  rcases next_eq_take m with hnext | ⟨i, iter, heap, hiter, hnext⟩
  · rw [hnext]
    exact hsame
  · have hset := forall₂_set hrefl hiter (hmove iter)
    rw [hnext]
    unfold take
    split
    · exact hsame
    · dsimp only
      split
      · exact hset
      · exact hset

/-- A call moves some of the sub-iterators, each by the same call. -/
theorem moved_call {call : StorageIterator.Call}
    (hmove : ∀ iter : ι, R iter (StorageIterator.call iter call).2) (m : MergeIterator q ι) :
    List.Forall₂ R m.iters (StorageIterator.call m call).2.iters := by
  cases call with
  | next => exact moved_next hrefl hmove m
  | seek key =>
      by_cases herr : m.err = none
      · refine Eq.subst (motive := fun m' => List.Forall₂ R m.iters m'.iters)
          (seek_snd herr key).symm ?_
        exact moved_buildHeap hrefl hmove m
      · refine Eq.subst (motive := fun result => List.Forall₂ R m.iters result.2.iters)
          (seek_of_err herr key).symm ?_
        exact List.forall₂_same.mpr fun iter _ => hrefl iter

end Moved

theorem map_iters_call {β : Type} {f : ι → β} {call : StorageIterator.Call}
    (hf : ∀ iter, f (StorageIterator.call iter call).2 = f iter) (m : MergeIterator q ι) :
    (StorageIterator.call m call).2.iters.map f = m.iters.map f :=
  map_of_forall₂ (moved_call (R := fun iter iter' => f iter' = f iter) (fun _ => rfl) hf m)

theorem map_iters_buildHeap {β : Type} {f : ι → β} {hasValue : ι → Bool × ι}
    (hf : ∀ iter, f (hasValue iter).2 = f iter) (m : MergeIterator q ι) :
    (buildHeap hasValue m).iters.map f = m.iters.map f :=
  map_of_forall₂ (moved_buildHeap (R := fun iter iter' => f iter' = f iter) (fun _ => rfl) hf m)

theorem forall_iters_call {P : ι → Prop} {call : StorageIterator.Call}
    (hP : ∀ iter, P iter → P (StorageIterator.call iter call).2) (hm : ∀ iter ∈ m.iters, P iter) :
    ∀ iter ∈ (StorageIterator.call m call).2.iters, P iter :=
  forall_mem_of_forall₂ (moved_call (R := fun iter iter' => P iter → P iter') (fun _ h => h) hP m)
    hm

/-! ### Sub-iterators seen through a map -/

def mapIters {κ : Type} (g : ι → κ) (m : MergeIterator q ι) : MergeIterator q κ :=
  ⟨m.key, m.value, m.err, m.heap, m.iters.map g⟩

section MapIters

variable {κ : Type} [StorageIterator κ] {g : ι → κ}
  (hkey : ∀ iter, StorageIterator.key (g iter) = StorageIterator.key iter)

include hkey

theorem keys_map (iters : List ι) : keys (iters.map g) = keys iters := by
  funext i
  simp only [keys, List.getElem?_map]
  cases iters[i]? with
  | none => rfl
  | some iter => exact congrArg (Option.getD · []) (hkey iter)

/-- Iterators that answer alike are put into the heap alike. -/
theorem mapIters_buildLoop {hasValue : ι → Bool × ι} {hasValue' : κ → Bool × κ}
    (herr : ∀ iter, StorageIterator.err (g iter) = StorageIterator.err iter)
    (hmove : ∀ iter, hasValue' (g iter) = ((hasValue iter).1, g (hasValue iter).2))
    (rest : List ι) :
    mapIters g (buildLoop hasValue rest m) = buildLoop hasValue' (rest.map g) (mapIters g m) := by
  induction rest generalizing m with
  | nil => rfl
  | cons iter rest ih =>
      have hiters : (m.iters.map g) ++ [g (hasValue iter).2]
          = (m.iters ++ [(hasValue iter).2]).map g := by simp
      simp only [List.map_cons, buildLoop, hmove, herr]
      split
      · rw [ih]
        simp only [mapIters, hiters, keys_map hkey, List.length_map]
      · split
        · simp only [mapIters, hiters, List.map_append]
        · rw [ih]
          simp only [mapIters, hiters]

end MapIters

end Iterators

section Cursors

variable {m m' : MergeIterator q Cursor}

def remaining (m : MergeIterator q Cursor) : List Pair := m.iters.flatMap Cursor.ahead

def sources (m : MergeIterator q Cursor) : List PairSource := m.iters.map Cursor.toPairSource

/-- No error has come up: the iterators with pairs ahead are those in the heap, and the others have
ended without an error. -/
structure Ready (m : MergeIterator q Cursor) : Prop where
  err : m.err = none
  started : ∀ c ∈ m.iters, c.started = true
  nodup : m.heap.Nodup
  ordered : q.Ordered (keys m.iters) m.heap
  mem_heap : ∀ i, i ∈ m.heap ↔ ∃ c, m.iters[i]? = some c ∧ c.ahead ≠ []
  ended : ∀ c ∈ m.iters, c.ahead = [] → c.fault = none

theorem keys_eq {c : Cursor} {i : Nat} {x : Pair} {rest : List Pair} (hc : m.iters[i]? = some c)
    (hstarted : c.started = true) (hahead : c.ahead = x :: rest) : keys m.iters i = x.1 := by
  simp [keys, hc, StorageIterator.key, Cursor.current_of_started hstarted, hahead]

theorem Ready.remaining_nil (h : Ready m) (hheap : m.heap = []) :
    remaining m = [] ∧ ∀ source ∈ sources m, source.fault = none := by
  have hahead : ∀ c ∈ m.iters, c.ahead = [] := by
    intro c hc
    by_contra hne
    obtain ⟨i, hi⟩ := List.getElem?_of_mem hc
    have hmem := (h.mem_heap i).mpr ⟨c, hi, hne⟩
    simp [hheap] at hmem
  refine ⟨List.flatMap_eq_nil_iff.mpr hahead, ?_⟩
  intro source hsource
  obtain ⟨c, hc, rfl⟩ := List.mem_map.mp hsource
  exact h.ended c hc (hahead c hc)

def showing (m : MergeIterator q Cursor) (i : Nat) (c : Cursor) (x : Pair) (heap : List Nat)
    (err : Option String) : MergeIterator q Cursor where
  key := appendTo m.key (some x.1)
  value := appendTo m.value (some x.2)
  err := err
  heap := heap
  iters := m.iters.set i c.advance

/-- The heap has given up an iterator that stands on the least pair of all that is still to come. -/
structure Popped (m : MergeIterator q Cursor) (i : Nat) (heap : List Nat) (c : Cursor) (x : Pair)
    (rest : List Pair) : Prop where
  pop : q.pop (keys m.iters) m.heap = some (i, heap)
  perm : m.heap.Perm (i :: heap)
  ordered : q.Ordered (keys m.iters) heap
  iter : m.iters[i]? = some c
  started : c.started = true
  ahead : c.ahead = x :: rest
  least : ∀ pair ∈ remaining m, x.1 ≤ pair.1

/-- The heap is ordered by key, so what it gives up is least among all that is still to come. -/
theorem Ready.pop (h : Ready m) (hheap : m.heap ≠ []) :
    ∃ i heap c x rest, Popped m i heap c x rest := by
  obtain ⟨i, heap, hpop, hperm, hmin, hordered⟩ := q.pop_of_ne_nil hheap h.ordered
  obtain ⟨c, hc, hne⟩ := (h.mem_heap i).mp (hperm.mem_iff.mpr (List.mem_cons_self ..))
  obtain ⟨x, rest, hahead⟩ := List.exists_cons_of_ne_nil hne
  have hstarted := h.started c (List.mem_of_getElem? hc)
  refine ⟨i, heap, c, x, rest, hpop, hperm, hordered, hc, hstarted, hahead, fun pair hpair => ?_⟩
  obtain ⟨c', hc', hpair⟩ := List.mem_flatMap.mp hpair
  obtain ⟨j, hj⟩ := List.getElem?_of_mem hc'
  obtain ⟨y, rest', hahead'⟩ := List.exists_cons_of_ne_nil (List.ne_nil_of_mem hpair)
  have hle : x.1 ≤ y.1 := by
    have hkeys := hmin j ((h.mem_heap j).mpr ⟨c', hj, List.ne_nil_of_mem hpair⟩)
    rwa [keys_eq hc hstarted hahead, keys_eq hj (h.started c' hc') hahead'] at hkeys
  have hascending := c'.ahead_ascending
  rw [hahead'] at hpair hascending
  rcases List.mem_cons.mp hpair with rfl | hpair
  · exact hle
  · exact hle.trans ((List.pairwise_cons.mp hascending).1 pair hpair)

namespace Popped

variable {i : Nat} {heap : List Nat} {c : Cursor} {x : Pair} {rest : List Pair}

theorem current (h : Popped m i heap c x rest) : c.current = some x := by
  rw [Cursor.current_of_started h.started, h.ahead]
  rfl

theorem ahead_advance (h : Popped m i heap c x rest) : c.advance.ahead = rest := by
  rw [Cursor.ahead_advance h.started, h.ahead]
  rfl

theorem nodup (h : Popped m i heap c x rest) (hready : Ready m) : (i :: heap).Nodup :=
  h.perm.nodup_iff.mp hready.nodup

/-- Advancing the popped iterator changes the key of none that is still in the heap. -/
theorem ordered_advance (h : Popped m i heap c x rest) (hready : Ready m) :
    q.Ordered (keys (m.iters.set i c.advance)) heap := by
  refine q.ordered_congr (fun j hj => ?_) h.ordered
  have hne : i ≠ j := by
    rintro rfl
    exact (List.nodup_cons.mp (h.nodup hready)).1 hj
  simp [keys, List.getElem?_set_ne hne]

theorem account (h : Popped m i heap c x rest) :
    (remaining m).Perm (x :: (m.iters.set i c.advance).flatMap Cursor.ahead) :=
  perm_flatMap_set h.iter (by rw [h.ahead, h.ahead_advance])

theorem next_take (h : Popped m i heap c x rest) (hready : Ready m) :
    m.next = take i c { m with heap := heap } := by
  have hheap : m.heap ≠ [] := fun hnil => by simpa [hnil] using h.perm
  rw [next, if_neg (by simp [hready.err, hheap]), h.pop]
  dsimp only
  rw [h.iter]

theorem key_eq (h : Popped m i heap c x rest) : StorageIterator.key c = some x.1 := by
  simp [StorageIterator.key, h.current]

/-- The value of the popped iterator cannot be read. -/
theorem err_next {err : String} (h : Popped m i heap c x rest) (hready : Ready m)
    (hvalueErr : c.valueErr x = some err) : m.next.1 = false ∧ m.next.2.err = some err := by
  have hvalue : StorageIterator.value c = .error err := by
    simp [StorageIterator.value, Cursor.currentValue, h.current, hvalueErr]
  rw [h.next_take hready]
  simp only [take, hvalue, and_self]

/-- `Next` as it goes for the popped iterator. -/
theorem next_eq (h : Popped m i heap c x rest) (hready : Ready m)
    (hvalueErr : c.valueErr x = none) :
    m.next = if rest ≠ [] then
        (true, m.showing i c x (q.push (keys (m.iters.set i c.advance)) heap i) none)
      else (c.fault.isNone, m.showing i c x heap c.fault) := by
  have hvalue : StorageIterator.value c = .ok (some x.2) := by
    simp [StorageIterator.value, Cursor.currentValue, h.current, hvalueErr]
  have hnext : StorageIterator.next c = (rest.head?.isSome, c.advance) := by
    rw [Cursor.next_eq, Cursor.current_of_started Cursor.started_advance, h.ahead_advance]
  have herr : StorageIterator.err c.advance = if rest = [] then c.fault else none := by
    rw [Cursor.err_of_started Cursor.started_advance, h.ahead_advance, Cursor.source_advance]
  rw [h.next_take hready]
  simp only [take, h.key_eq, hvalue, hnext, herr, showing]
  cases rest <;> simp [hready.err]

theorem mem_advance (h : Popped m i heap c x rest) (hready : Ready m) (j : Nat) :
    (∃ d, (m.iters.set i c.advance)[j]? = some d ∧ d.ahead ≠ []) ↔
      j ∈ heap ∨ j = i ∧ rest ≠ [] := by
  have hi : i < m.iters.length := (List.getElem?_eq_some_iff.mp h.iter).1
  have hfresh := (List.nodup_cons.mp (h.nodup hready)).1
  by_cases hj : j = i
  · subst hj
    simp [hi, h.ahead_advance, hfresh]
  · rw [List.getElem?_set_ne (Ne.symm hj), ← hready.mem_heap, h.perm.mem_iff, List.mem_cons]
    simp [hj]

/-- The next state is in order again, if its heap holds the iterators with pairs ahead. -/
theorem ready (h : Popped m i heap c x rest) (hready : Ready m) {heap' : List Nat}
    (hnodup : heap'.Nodup) (hordered : q.Ordered (keys (m.iters.set i c.advance)) heap')
    (hheap : ∀ j, j ∈ heap' ↔ j ∈ heap ∨ j = i ∧ rest ≠ []) (hended : rest = [] → c.fault = none) :
    Ready (m.showing i c x heap' none) where
  err := rfl
  nodup := hnodup
  ordered := hordered
  started := by
    intro d hd
    rcases List.mem_or_eq_of_mem_set hd with hd | rfl
    · exact hready.started d hd
    · exact Cursor.started_advance
  mem_heap j := (hheap j).trans (h.mem_advance hready j).symm
  ended := by
    intro d hd
    rcases List.mem_or_eq_of_mem_set hd with hd | rfl
    · exact hready.ended d hd
    · rw [h.ahead_advance, Cursor.source_advance]
      exact hended

end Popped

/-- What `Next` can do while no error has come up. -/
inductive NextStep (m : MergeIterator q Cursor) : Bool × MergeIterator q Cursor → Prop where
  | exhausted (hheap : m.heap = []) : NextStep m (false, m)
  | exposed {m' : MergeIterator q Cursor} (x : Pair) (ready : Ready m')
      (account : (remaining m).Perm (x :: remaining m'))
      (least : ∀ pair ∈ remaining m, x.1 ≤ pair.1) (key : m'.key.getD [] = x.1)
      (value : m'.value.getD [] = x.2) : NextStep m (true, m')
  | failed {m' : MergeIterator q Cursor} (err : m'.err ≠ none) : NextStep m (false, m')

/-- The value of the popped iterator can be read. -/
theorem Popped.nextStep {i : Nat} {heap : List Nat} {c : Cursor} {x : Pair} {rest : List Pair}
    (h : Popped m i heap c x rest) (hready : Ready m) (hvalueErr : c.valueErr x = none) :
    NextStep m m.next := by
  have hexposed : ∀ heap', Ready (m.showing i c x heap' none) →
      NextStep m (true, m.showing i c x heap' none) := fun heap' hready' =>
    .exposed x hready' h.account h.least (getD_appendTo m.key (some x.1))
      (getD_appendTo m.value (some x.2))
  rw [h.next_eq hready hvalueErr]
  cases rest with
  | cons y rest =>
      rw [if_pos (List.cons_ne_nil y rest)]
      have hpush := q.push_perm (keys (m.iters.set i c.advance)) heap i
      refine hexposed _ (h.ready hready ?_ ?_ ?_ nofun)
      · exact hpush.nodup_iff.mpr (h.nodup hready)
      · exact q.push_ordered i (h.ordered_advance hready)
      · intro j
        rw [hpush.mem_iff, List.mem_cons]
        simp [or_comm]
  | nil =>
      rw [if_neg (not_not_intro rfl)]
      cases hfault : c.fault with
      | none =>
          refine hexposed heap (h.ready hready ?_ (h.ordered_advance hready) ?_ fun _ => hfault)
          · exact (List.nodup_cons.mp (h.nodup hready)).2
          · simp
      | some err => exact .failed nofun

/-- `Next` shows the least pair, ends, or keeps the error of the iterator it has moved. -/
theorem next_cases (hready : Ready m) : NextStep m m.next := by
  by_cases hheap : m.heap = []
  · rw [next, if_pos (Or.inr hheap)]
    exact .exhausted hheap
  · obtain ⟨i, heap, c, x, rest, h⟩ := hready.pop hheap
    cases hvalueErr : c.valueErr x with
    | none => exact h.nextStep hready hvalueErr
    | some err =>
        obtain ⟨hfalse, herr⟩ := h.err_next hready hvalueErr
        rw [← Prod.mk.eta (p := m.next), hfalse]
        exact .failed (herr ▸ Option.some_ne_none err)

/-! ### Building the heap -/

theorem Ready.lt_length (h : Ready m) {j : Nat} (hj : j ∈ m.heap) : j < m.iters.length := by
  obtain ⟨c, hc, -⟩ := (h.mem_heap j).mp hj
  exact (List.getElem?_eq_some_iff.mp hc).1

theorem Ready.mem_append (h : Ready m) (c : Cursor) (j : Nat) :
    (∃ d, (m.iters ++ [c])[j]? = some d ∧ d.ahead ≠ []) ↔
      j ∈ m.heap ∨ j = m.iters.length ∧ c.ahead ≠ [] := by
  rcases lt_trichotomy j m.iters.length with hlt | heq | hgt
  · rw [List.getElem?_append_left hlt, ← h.mem_heap]
    simp [hlt.ne]
  · subst heq
    have hfresh : m.iters.length ∉ m.heap := fun hmem => (h.lt_length hmem).ne rfl
    simp [hfresh]
  · have hfresh : j ∉ m.heap := fun hmem => (h.lt_length hmem).not_gt hgt
    have hnone : (m.iters ++ [c])[j]? = none := by
      rw [List.getElem?_eq_none_iff, List.length_append]
      exact hgt
    simp [hfresh, hnone, hgt.ne']

/-- One more iterator has been looked at. -/
theorem Ready.extend (h : Ready m) {c : Cursor} (hstarted : c.started = true) (herr : m'.err = none)
    (hiters : m'.iters = m.iters ++ [c]) (hnodup : m'.heap.Nodup)
    (hordered : q.Ordered (keys m'.iters) m'.heap)
    (hheap : ∀ j, j ∈ m'.heap ↔ j ∈ m.heap ∨ j = m.iters.length ∧ c.ahead ≠ [])
    (hended : c.ahead = [] → c.fault = none) : Ready m' where
  err := herr
  nodup := hnodup
  ordered := hordered
  started := by
    intro d hd
    rw [hiters, List.mem_append, List.mem_singleton] at hd
    rcases hd with hd | rfl
    · exact h.started d hd
    · exact hstarted
  mem_heap := by
    intro j
    rw [hiters, h.mem_append, hheap]
  ended := by
    intro d hd
    rw [hiters, List.mem_append, List.mem_singleton] at hd
    rcases hd with hd | rfl
    · exact h.ended d hd
    · exact hended

/-- The keys of the iterators in the heap do not depend on those looked at later. -/
theorem Ready.ordered_append (h : Ready m) (c : Cursor) :
    q.Ordered (keys (m.iters ++ [c])) m.heap := by
  refine q.ordered_congr (fun j hj => ?_) h.ordered
  rw [keys, keys, List.getElem?_append_left (h.lt_length hj)]

section Moves

variable {move : Cursor → Cursor} (hstarted : ∀ c, (move c).started = true)

include hstarted

theorem buildLoop_spec (rest : List Cursor) (h : Ready m) :
    (buildLoop (fun c => ((move c).current.isSome, move c)) rest m).err ≠ none ∨
      Ready (buildLoop (fun c => ((move c).current.isSome, move c)) rest m) ∧
        (buildLoop (fun c => ((move c).current.isSome, move c)) rest m).iters
          = m.iters ++ rest.map move := by
  induction rest generalizing m with
  | nil => exact Or.inr ⟨h, by simp [buildLoop]⟩
  | cons c rest ih =>
      have hcurrent := Cursor.current_of_started (hstarted c)
      have herr := Cursor.err_of_started (hstarted c)
      simp only [buildLoop]
      cases hahead : (move c).ahead with
      | cons x ahead =>
          rw [if_pos (by rw [hcurrent, hahead]; rfl)]
          have hpush := q.push_perm (keys (m.iters ++ [move c])) m.heap m.iters.length
          have hfresh : m.iters.length ∉ m.heap := fun hmem => (h.lt_length hmem).ne rfl
          have hready : Ready (q := q) { m with
              heap := q.push (keys (m.iters ++ [move c])) m.heap m.iters.length
              iters := m.iters ++ [move c] } := by
            refine h.extend (hstarted c) h.err rfl ?_ ?_ ?_ ?_
            · exact hpush.nodup_iff.mpr (List.nodup_cons.mpr ⟨hfresh, h.nodup⟩)
            · exact q.push_ordered _ (h.ordered_append (move c))
            · intro j
              rw [hpush.mem_iff, List.mem_cons, hahead]
              simp [or_comm]
            · simp [hahead]
          simpa using ih hready
      | nil =>
          rw [if_neg (by rw [hcurrent, hahead]; simp), herr, if_pos hahead]
          cases hfault : (move c).fault with
          | some err =>
              rw [if_pos nofun]
              exact Or.inl nofun
          | none =>
              rw [if_neg (not_not_intro rfl)]
              have hready : Ready (q := q) { m with
                err := none, iters := m.iters ++ [move c] } := by
                refine h.extend (hstarted c) rfl rfl h.nodup (h.ordered_append (move c)) ?_ ?_
                · simp [hahead]
                · exact fun _ => hfault
              simpa using ih hready

/-- Building the heap anew either runs into an error or leaves every iterator moved. -/
theorem buildHeap_spec (herr : m.err = none) :
    (buildHeap (fun c => ((move c).current.isSome, move c)) m).err ≠ none ∨
      Ready (buildHeap (fun c => ((move c).current.isSome, move c)) m) ∧
        remaining (buildHeap (fun c => ((move c).current.isSome, move c)) m)
          = m.iters.flatMap fun c => (move c).ahead := by
  have hready : Ready (q := q) { m with heap := [], iters := [] } := by
    refine ⟨herr, nofun, List.nodup_nil, q.ordered_nil _, fun i => ?_, nofun⟩
    simp
  refine (buildLoop_spec hstarted m.iters hready).imp_right fun h => ⟨h.1, ?_⟩
  rw [remaining]
  refine (congrArg (List.flatMap Cursor.ahead) h.2).trans ?_
  simp [List.flatMap_map]

end Moves

structure Inv (subs : List PairSource) (m : MergeIterator q Cursor) : Prop where
  sources : sources m = subs
  ready : m.err = none → Ready m

theorem inv_new (q : PriorityQueue Nat Bytes) (subs : List PairSource) :
    Inv subs (newMultiIterator q (subs.map Cursor.start)) ∧
      ((newMultiIterator q (subs.map Cursor.start)).err = none →
        remaining (newMultiIterator q (subs.map Cursor.start))
          = subs.flatMap PairSource.pairs) := by
  have hresult := buildHeap_spec (m := ⟨none, none, none, [], subs.map Cursor.start⟩) (q := q)
    (fun c => Cursor.started_advance (c := c)) rfl
  have hsubs : (subs.map Cursor.start).map Cursor.toPairSource = subs := by
    rw [List.map_map]
    exact List.map_id subs
  refine ⟨⟨?_, fun herr => (hresult.resolve_left (not_not_intro herr)).1⟩, ?_⟩
  · exact (map_iters_buildHeap (fun c => Cursor.source_call c .next) _).trans hsubs
  intro herr
  refine (hresult.resolve_left (not_not_intro herr)).2.trans ?_
  rw [List.flatMap_map]
  rfl

theorem seek_spec (herr : m.err = none) (key : Bytes) :
    (m.seek key).2.err ≠ none ∨ Ready (m.seek key).2 ∧
      remaining (m.seek key).2
        = ((sources m).flatMap PairSource.pairs).filter fun pair => decide (key ≤ pair.1) := by
  have hstarted : ∀ c : Cursor, (c.position key).started = true := fun _ => rfl
  have hseek : (m.seek key).2 = buildHeap
      (fun c : Cursor => ((c.position key).current.isSome, c.position key)) m := seek_snd herr key
  rw [hseek]
  refine (buildHeap_spec hstarted herr).imp_right fun h => ⟨h.1, ?_⟩
  rw [h.2, sources, List.flatMap_map, List.filter_flatMap]
  exact List.flatMap_congr fun c _ => c.ahead_position key

/-- `Seek` rebuilds the heap, so it may go back. -/
theorem inv_seek {subs : List PairSource} (hinv : Inv subs m) (key : Bytes) :
    Inv subs (m.seek key).2 ∧ ((m.seek key).2.err = none →
      remaining (m.seek key).2
        = (subs.flatMap PairSource.pairs).filter fun pair => decide (key ≤ pair.1)) := by
  by_cases herr : m.err = none
  · have hspec := seek_spec herr key
    have hsources : sources (m.seek key).2 = sources m :=
      map_iters_call (fun c => Cursor.source_call c (.seek key)) m
    rw [hinv.sources] at hspec hsources
    refine ⟨⟨hsources, fun h => ?_⟩, fun h => ?_⟩
    · exact (hspec.resolve_left (not_not_intro h)).1
    · exact (hspec.resolve_left (not_not_intro h)).2
  · rw [seek_of_err herr]
    exact ⟨hinv, fun h => absurd h herr⟩

theorem inv_next {subs : List PairSource} (hinv : Inv subs m) : Inv subs m.next.2 := by
  have hsources : sources m.next.2 = sources m :=
    map_iters_call (fun c => Cursor.source_call c .next) m
  refine ⟨hsources.trans hinv.sources, fun herr' => ?_⟩
  by_cases herr : m.err = none
  · have hcases := next_cases (hinv.ready herr)
    generalize m.next = result at hcases herr'
    cases hcases with
    | exhausted => exact hinv.ready herr
    | exposed x hready => exact hready
    | failed herr => exact absurd herr' herr
  · rw [next_of_err herr] at herr'
    exact absurd herr' herr

theorem inv_run {subs : List PairSource} (hinv : Inv subs m) (calls : List StorageIterator.Call) :
    Inv subs (StorageIterator.run m calls) := by
  refine StorageIterator.run_invariant (fun _ => True) (fun m call hinv _ => ?_) hinv
    fun _ _ => trivial
  cases call with
  | next => exact inv_next hinv
  | seek key => exact (inv_seek hinv key).1

/-- An error stays until the iterator is released. -/
theorem call_of_err (herr : m.err ≠ none) (call : StorageIterator.Call) :
    StorageIterator.call m call = (false, m) := by
  cases call with
  | next => exact next_of_err herr
  | seek key => exact seek_of_err herr key

theorem run_of_err (herr : m.err ≠ none) (calls : List StorageIterator.Call) :
    StorageIterator.run m calls = m := by
  induction calls with
  | nil => rfl
  | cons call calls ih =>
      rw [StorageIterator.run, List.foldl_cons, call_of_err herr]
      exact ih

/-! ### What successful calls of `Next` show -/

structure Account (all shown : List Pair) (m : MergeIterator q Cursor) : Prop where
  ascending : Ascending Prod.fst shown
  below : ∀ a ∈ shown, ∀ b ∈ remaining m, a.1 ≤ b.1
  perm : (shown ++ remaining m).Perm all

theorem Account.exposed {all shown : List Pair} (h : Account all shown m) {x : Pair}
    (haccount : (remaining m).Perm (x :: remaining m'))
    (hleast : ∀ pair ∈ remaining m, x.1 ≤ pair.1) : Account all (shown ++ [x]) m' := by
  have hmem : ∀ pair, pair ∈ remaining m ↔ pair = x ∨ pair ∈ remaining m' :=
    fun pair => haccount.mem_iff.trans List.mem_cons
  refine ⟨?_, ?_, ?_⟩
  · refine List.pairwise_append.mpr ⟨h.ascending, List.pairwise_singleton .., fun a ha b hb => ?_⟩
    rw [List.mem_singleton.mp hb]
    exact h.below a ha x ((hmem x).mpr (Or.inl rfl))
  · intro a ha b hb
    rcases List.mem_append.mp ha with ha | ha
    · exact h.below a ha b ((hmem b).mpr (Or.inr hb))
    · rw [List.mem_singleton.mp ha]
      exact hleast b ((hmem b).mpr (Or.inr hb))
  · rw [List.append_assoc]
    exact (haccount.symm.append_left shown).trans h.perm

theorem account_of_exposes {all shown pairs : List Pair}
    (hexposes : StorageIterator.Exposes m pairs m') {subs : List PairSource} (hinv : Inv subs m)
    (hready : Ready m) (haccount : Account all shown m) :
    Inv subs m' ∧ Ready m' ∧ Account all (shown ++ pairs) m' := by
  induction hexposes generalizing shown with
  | nil => exact ⟨hinv, hready, by rwa [List.append_nil]⟩
  | @cons m m₁ m' data pairs hnext hvalue hrest ih =>
      have hcases := next_cases hready
      have hinv₁ := inv_next hinv
      have hnext' : m.next = (true, m₁) := hnext
      rw [hnext'] at hcases hinv₁
      cases hcases with
      | exposed x hready₁ hperm hleast hkey hvalue₁ =>
          have hdata : m₁.value = data := Except.ok.inj hvalue
          have hpair : ((StorageIterator.key m₁).getD [], data.getD []) = x := by
            rw [← hdata]
            exact Prod.ext hkey hvalue₁
          obtain ⟨hinv', hready', haccount'⟩ := ih hinv₁ hready₁ (haccount.exposed hperm hleast)
          refine ⟨hinv', hready', ?_⟩
          rw [hpair]
          simpa using haccount'

/-- The calls of `Next` from here on show a merge of these pairs, and end without an error only
behind all of them, none of the sub-iterators having ended in an error. -/
def Merges (subs : List PairSource) (all : List Pair) (m : MergeIterator q Cursor) : Prop :=
  ∀ pairs m', StorageIterator.Exposes m pairs m' →
    PrefixOf Prod.fst pairs all ∧
      ((StorageIterator.next m').1 = false →
        StorageIterator.err (StorageIterator.next m').2 = none →
        pairs.Perm all ∧ ∀ source ∈ subs, source.fault = none)

/-- What is shown is ascending and, behind the last `Next`, everything. -/
theorem merges_of_inv {subs : List PairSource} {all : List Pair} (hinv : Inv subs m)
    (hremaining : m.err = none → (remaining m).Perm all) : Merges subs all m := by
  intro pairs m' hexposes
  by_cases herr : m.err = none
  · have haccount : Account all [] m :=
      ⟨List.Pairwise.nil, nofun, hremaining herr⟩
    obtain ⟨hinv', hready', haccount'⟩ :=
      account_of_exposes hexposes hinv (hinv.ready herr) haccount
    rw [List.nil_append] at haccount'
    refine ⟨prefixOf_of_le haccount'.ascending haccount'.below haccount'.perm,
      fun hfalse hnone => ?_⟩
    have hcases := next_cases hready'
    have hnext : StorageIterator.next m' = m'.next := rfl
    rw [hnext] at hfalse hnone
    generalize m'.next = result at hcases hfalse hnone
    cases hcases with
    | exhausted hheap =>
        obtain ⟨hnil, hfaults⟩ := hready'.remaining_nil hheap
        have hperm := haccount'.perm
        rw [hnil, List.append_nil] at hperm
        rw [hinv'.sources] at hfaults
        exact ⟨hperm, hfaults⟩
    | exposed => exact absurd hfalse nofun
    | failed herr' => exact absurd hnone herr'
  · cases hexposes with
    | nil =>
        refine ⟨prefixOf_nil all, fun _ hnone => absurd hnone ?_⟩
        have hnext : StorageIterator.next m = (false, m) := next_of_err herr
        rw [hnext]
        exact herr
    | cons hnext =>
        have hfalse : StorageIterator.next m = (false, m) := next_of_err herr
        rw [hfalse] at hnext
        exact absurd hnext nofun

/-- The merge iterator is a merge of its sub-iterators, from its creation on and again from every
`Seek` on, and once it has an error it keeps it. -/
theorem merges_subiterators (q : PriorityQueue Nat Bytes) (subs : List PairSource) :
    Merges subs (subs.flatMap PairSource.pairs) (newMultiIterator q (subs.map Cursor.start)) ∧
      (∀ calls key, Merges subs
        ((subs.flatMap PairSource.pairs).filter fun pair => decide (key ≤ pair.1))
        (StorageIterator.seek key
          (StorageIterator.run (newMultiIterator q (subs.map Cursor.start)) calls)).2) ∧
      ∀ calls, let m := StorageIterator.run (newMultiIterator q (subs.map Cursor.start)) calls
        StorageIterator.err m ≠ none → ∀ calls' call,
          let result := StorageIterator.call (StorageIterator.run m calls') call
          result.1 = false ∧ StorageIterator.err result.2 = StorageIterator.err m := by
  obtain ⟨hinv, hremaining⟩ := inv_new q subs
  refine ⟨merges_of_inv hinv fun herr => List.Perm.of_eq (hremaining herr), fun calls key => ?_, ?_⟩
  · obtain ⟨hseek, hpairs⟩ := inv_seek (inv_run hinv calls) key
    exact merges_of_inv hseek fun herr => List.Perm.of_eq (hpairs herr)
  · intro calls m herr calls' call
    rw [run_of_err herr, call_of_err herr]
    exact ⟨rfl, rfl⟩

end Cursors

end MergeIterator

end Goka
