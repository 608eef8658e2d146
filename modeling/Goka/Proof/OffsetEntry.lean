import Goka.Proof.MergeIterator

/-!
# The offset entry in iterators

`Next` of the storage's iterator steps over the offset entry, and since the keys ascend strictly it
steps over it once. `Seek` does not: it stands on the entry whenever no other key of the range comes
first.
-/

namespace Goka

/-- What `Iterator` or, with a range, `IteratorWithRange` was called on. -/
structure Opened where
  st : Storage
  listing : Listing st.db
  range : Option (Bytes × Bytes)

namespace Opened

def iterator (o : Opened) : LevelIterator :=
  match o.range with
  | none => o.st.iterator o.listing
  | some (start, limit) => o.st.iteratorWithRange o.listing start limit

def Visits (o : Opened) (key : Bytes) : Prop :=
  o.st.db key ≠ none ∧ ∀ start limit, o.range = some (start, limit) → inRange start limit key = true

def LandsOnOffset (o : Opened) (key : Bytes) : Prop :=
  o.Visits offsetKey ∧ key ≤ offsetKey ∧ ∀ key', o.Visits key' → key ≤ key' → offsetKey ≤ key'

/-- The call is no `Seek` that lands on the offset entry of one of the iterators. -/
def Clear (opened : List Opened) : StorageIterator.Call → Prop
  | .next => True
  | .seek key => ∀ o ∈ opened, ¬ o.LandsOnOffset key

variable (o : Opened)

theorem strictly_ascending : o.iterator.iter.pairs.Pairwise fun a b => a.1 < b.1 := by
  unfold iterator
  split
  · exact o.listing.ascending
  · exact o.listing.ascending.filter _

theorem visits_iff (key : Bytes) :
    o.Visits key ↔ ∃ value, (key, value) ∈ o.iterator.iter.pairs := by
  have hmem := o.listing.mem_iff key
  unfold Visits iterator
  split
  · next hrange => simp [hrange, Storage.iterator, Cursor.start, hmem, Option.ne_none_iff_exists']
  · next start limit hrange =>
      simp [hrange, Storage.iteratorWithRange, Cursor.start, hmem, Option.ne_none_iff_exists']

theorem started_iterator : o.iterator.iter.started = false := by
  unfold iterator
  split <;> rfl

end Opened

open Opened

/-- Where `Seek` stands, among the keys at or above its argument. -/
theorem LevelIterator.current_seek {i : LevelIterator} {o : Opened}
    (hsource : i.iter.toPairSource = o.iterator.iter.toPairSource) {key : Bytes} {pair : Pair}
    (hpair : (i.iter.position key).current = some pair) :
    o.Visits pair.1 ∧ key ≤ pair.1 ∧ ∀ key', o.Visits key' → key ≤ key' → pair.1 ≤ key' := by
  have hahead : (i.iter.position key).ahead
      = o.iterator.iter.pairs.filter fun pair => decide (key ≤ pair.1) := by
    rw [i.iter.ahead_position, hsource]
  have hhead : (i.iter.position key).ahead.head? = some pair := hpair
  obtain ⟨rest, hlist⟩ := List.head?_eq_some_iff.mp hhead
  have hfirst : ∀ pair' ∈ (i.iter.position key).ahead, pair.1 ≤ pair'.1 := by
    have hascending := (i.iter.position key).ahead_ascending
    rw [hlist] at hascending ⊢
    intro pair' hpair'
    rcases List.mem_cons.mp hpair' with rfl | hpair'
    · exact le_rfl
    · exact (List.pairwise_cons.mp hascending).1 pair' hpair'
  rw [hahead] at hfirst hhead
  obtain ⟨hmem, hle⟩ := List.mem_filter.mp (List.mem_of_mem_head? hhead)
  refine ⟨(o.visits_iff _).mpr ⟨pair.2, hmem⟩, of_decide_eq_true hle, fun key' hvisits hkey' => ?_⟩
  obtain ⟨value, hvalue⟩ := (o.visits_iff key').mp hvisits
  exact hfirst (key', value) (List.mem_filter.mpr ⟨hvalue, decide_eq_true hkey'⟩)

/-- Landing is about what LevelDB visits, not about where the iterator stands. -/
theorem LevelIterator.landsOnOffset_iff {i : LevelIterator} {o : Opened}
    (hsource : i.iter.toPairSource = o.iterator.iter.toPairSource) (key : Bytes) :
    o.LandsOnOffset key ↔
      ∃ pair, (i.iter.position key).current = some pair ∧ pair.1 = offsetKey := by
  constructor
  · rintro ⟨hvisits, hle, hleast⟩
    obtain ⟨value, hvalue⟩ := (o.visits_iff offsetKey).mp hvisits
    have hmem : (offsetKey, value) ∈ (i.iter.position key).ahead := by
      rw [i.iter.ahead_position, hsource]
      exact List.mem_filter.mpr ⟨hvalue, decide_eq_true hle⟩
    obtain ⟨pair, rest, hlist⟩ := List.exists_cons_of_ne_nil (List.ne_nil_of_mem hmem)
    have hpair : (i.iter.position key).current = some pair := congrArg List.head? hlist
    obtain ⟨hvisits', hle', hleast'⟩ := current_seek hsource hpair
    exact ⟨pair, hpair, le_antisymm (hleast' offsetKey hvisits hle) (hleast pair.1 hvisits' hle')⟩
  · rintro ⟨pair, hpair, heq⟩
    obtain ⟨hvisits, hle, hleast⟩ := current_seek hsource hpair
    rw [heq] at hvisits hle hleast
    exact ⟨hvisits, hle, hleast⟩

structure Shielded (opened : List Opened) (i : LevelIterator) : Prop where
  source : ∃ o ∈ opened, i.iter.toPairSource = o.iterator.iter.toPairSource
  visible : ∀ pair, i.iter.current = some pair → pair.1 ≠ offsetKey

namespace Shielded

variable {opened : List Opened} {i : LevelIterator}

theorem start {o : Opened} (ho : o ∈ opened) : Shielded opened o.iterator where
  source := ⟨o, ho, rfl⟩
  visible := by
    intro pair hpair
    rw [Cursor.current, o.started_iterator] at hpair
    exact absurd hpair nofun

/-- Behind the offset entry there are only larger keys. -/
theorem behind_offset {c : Cursor} (hpairs : c.pairs.Pairwise fun a b => a.1 < b.1)
    (hstarted : c.started = true) (hoffset : (c.current.map Prod.fst).getD [] = offsetKey)
    {pair : Pair} (hpair : c.advance.current = some pair) : pair.1 ≠ offsetKey := by
  have hahead : c.ahead.Pairwise fun a b => a.1 < b.1 := hpairs.sublist c.suffix.sublist
  rw [Cursor.current_of_started hstarted] at hoffset
  rw [Cursor.current_of_started Cursor.started_advance, Cursor.ahead_advance hstarted] at hpair
  cases hlist : c.ahead with
  | nil => simp [hlist] at hpair
  | cons first rest =>
      rw [hlist] at hahead hoffset hpair
      have hfirst : first.1 = offsetKey := hoffset
      have hmem : pair ∈ rest := List.mem_of_mem_head? hpair
      have hlt := (List.pairwise_cons.mp hahead).1 pair hmem
      rw [hfirst] at hlt
      exact hlt.ne'

theorem next (h : Shielded opened i) : Shielded opened (StorageIterator.next i).2 := by
  obtain ⟨o, ho, hsource⟩ := h.source
  refine ⟨⟨o, ho, (i.source_call .next).trans hsource⟩, fun pair hpair => ?_⟩
  rw [i.iter_next] at hpair
  split at hpair
  · next hoffset =>
      have hpairs := o.strictly_ascending
      rw [← hsource, ← Cursor.source_advance] at hpairs
      exact behind_offset hpairs Cursor.started_advance hoffset hpair
  · next hoffset =>
      rw [hpair] at hoffset
      exact hoffset

theorem seek (h : Shielded opened i) {key : Bytes} (hclear : Clear opened (.seek key)) :
    Shielded opened (StorageIterator.seek key i).2 := by
  obtain ⟨o, ho, hsource⟩ := h.source
  refine ⟨⟨o, ho, hsource⟩, fun pair hpair heq => hclear o ho ?_⟩
  exact (LevelIterator.landsOnOffset_iff hsource key).mpr ⟨pair, hpair, heq⟩

theorem call (h : Shielded opened i) {call : StorageIterator.Call} (hclear : Clear opened call) :
    Shielded opened (StorageIterator.call i call).2 := by
  cases call with
  | next => exact h.next
  | seek key => exact h.seek hclear

theorem key_ne (h : Shielded opened i) : (StorageIterator.key i).getD [] ≠ offsetKey := by
  have hkey : StorageIterator.key i = i.iter.current.map Prod.fst := rfl
  rw [hkey]
  cases hcurrent : i.iter.current with
  | none => exact nofun
  | some pair => exact h.visible pair hcurrent

end Shielded

theorem LevelIterator.source_run (i : LevelIterator) (calls : List StorageIterator.Call) :
    (StorageIterator.run i calls).iter.toPairSource = i.iter.toPairSource :=
  StorageIterator.run_invariant (P := fun i' : LevelIterator => i'.iter.toPairSource
    = i.iter.toPairSource)
    (fun _ => True) (fun i' call h _ => (i'.source_call call).trans h) rfl fun _ _ => trivial

namespace MergeIterator

structure Shielded (opened : List Opened) {q : PriorityQueue Nat Bytes}
    (m : MergeIterator q LevelIterator) : Prop where
  iters : ∀ iter ∈ m.iters, Goka.Shielded opened iter
  key : m.key.getD [] ≠ offsetKey

variable {opened : List Opened} {q : PriorityQueue Nat Bytes} {m : MergeIterator q LevelIterator}

theorem shielded_new (q : PriorityQueue Nat Bytes) (opened : List Opened) :
    Shielded opened (newMultiIterator q (opened.map Opened.iterator)) where
  iters := by
    have hmoved := moved_buildHeap (q := q)
      (R := fun iter iter' => Goka.Shielded opened iter → Goka.Shielded opened iter')
      (fun _ h => h) (fun iter h => h.next) ⟨none, none, none, [], opened.map Opened.iterator⟩
    refine Merge.forall_mem_of_forall₂ hmoved fun iter hiter => ?_
    obtain ⟨o, ho, rfl⟩ := List.mem_map.mp hiter
    exact .start ho
  key := by
    rw [newMultiIterator, buildHeap, key_buildLoop]
    exact (List.cons_ne_nil _ _).symm

/-- `Next` skips the reserved key, and `Seek` is the only way to stand on it. -/
theorem Shielded.call (h : Shielded opened m) {call : StorageIterator.Call}
    (hclear : Clear opened call) : Shielded opened (StorageIterator.call m call).2 := by
  refine ⟨forall_iters_call (fun iter hiter => hiter.call hclear) h.iters, ?_⟩
  cases call with
  | next =>
      have hkey : m.next.2.key.getD [] ≠ offsetKey := by
        rcases key_next m with hkey | ⟨iter, hiter, hkey⟩
        · rw [hkey]
          exact h.key
        · rw [hkey]
          exact (h.iters iter hiter).key_ne
      exact hkey
  | seek key =>
      have hkey : (m.seek key).2.key.getD [] ≠ offsetKey := by
        rw [key_seek]
        exact h.key
      exact hkey

end MergeIterator

namespace Opened

/-- A call that was successful did not stop at the offset entry. -/
def Hides {ι : Type} [StorageIterator ι] (result : Bool × ι) : Prop :=
  result.1 = true → (StorageIterator.key result.2).getD [] ≠ offsetKey

instance {ι : Type} [StorageIterator ι] (result : Bool × ι) : Decidable (Hides result) :=
  inferInstanceAs (Decidable (_ → _))

def HidesAlong {ι : Type} [StorageIterator ι] (i : ι) (calls : List StorageIterator.Call) : Prop :=
  ∀ before call after, calls = before ++ call :: after →
    Hides (StorageIterator.call (StorageIterator.run i before) call)

theorem clear_of_hides {calls : List StorageIterator.Call} {call : StorageIterator.Call}
    (h : Hides (StorageIterator.call (StorageIterator.run o.iterator calls) call)) :
    Clear [o] call := by
  cases call with
  | next => exact trivial
  | seek key =>
      refine List.forall_mem_singleton.mpr fun hlands => ?_
      have hsource := o.iterator.source_run calls
      obtain ⟨pair, hpair, heq⟩ := (LevelIterator.landsOnOffset_iff hsource key).mp hlands
      have hfound : (((StorageIterator.run o.iterator calls).iter.position key).current).isSome
          = true := by
        rw [hpair]
        rfl
      refine h hfound (Eq.trans ?_ heq)
      exact congrArg (fun current => (Option.map Prod.fst current).getD []) hpair

/-- The iterator of a storage exposes the offset entry exactly with the calls of `Seek` that land on
it, and the merge of such iterators not at all as long as there is no such call. -/
theorem hidesAlong_iff_clear (calls : List StorageIterator.Call) :
    (∀ o : Opened, HidesAlong o.iterator calls ↔ ∀ call ∈ calls, Clear [o] call) ∧
      ∀ (q : PriorityQueue Nat Bytes) (opened : List Opened), (∀ call ∈ calls, Clear opened call) →
        HidesAlong (MergeIterator.newMultiIterator q (opened.map iterator)) calls := by
  refine ⟨fun o => ⟨fun h call hcall => ?_, ?_⟩, ?_⟩
  · obtain ⟨before, after, rfl⟩ := List.append_of_mem hcall
    exact o.clear_of_hides (h before call after rfl)
  · rintro hclear before call after rfl _
    obtain ⟨hbefore, hafter⟩ := List.forall_mem_append.mp hclear
    have hrun := StorageIterator.run_invariant (P := Shielded [o]) (Clear [o])
      (fun _ _ h hclear => h.call hclear) (Shielded.start (List.mem_singleton_self o)) hbefore
    exact (hrun.call (List.forall_mem_cons.mp hafter).1).key_ne
  · rintro q opened hclear before call after rfl _
    obtain ⟨hbefore, hafter⟩ := List.forall_mem_append.mp hclear
    have hrun := StorageIterator.run_invariant (P := MergeIterator.Shielded opened) (Clear opened)
      (fun _ _ h hclear => h.call hclear) (MergeIterator.shielded_new q opened) hbefore
    exact (hrun.call (List.forall_mem_cons.mp hafter).1).key

def offsetAndOne : Opened where
  st := .new fun key => if key = offsetKey then some [49] else if key = [97] then some [50]
    else none
  listing :=
    { pairs := [(offsetKey, [49]), ([97], [50])]
      ascending := by decide
      mem_iff := by
        intro key value
        have hne : offsetKey ≠ [97] := by decide
        simp only [Storage.new, List.mem_cons, Prod.mk.injEq, List.not_mem_nil, or_false]
        by_cases hoffset : key = offsetKey
        · simp [hoffset, hne, @eq_comm _ value]
        · by_cases hkey : key = [97]
          · simp [hkey, hne.symm, @eq_comm _ value]
          · simp [hoffset, hkey] }
  range := none

theorem hidesAlong_above :
    HidesAlong offsetAndOne.iterator [.next, .seek [97]] ∧
      HidesAlong (MergeIterator.newMultiIterator PriorityQueue.scan ([offsetAndOne].map iterator))
        [.next, .seek [97]] := by
  have hclear : ∀ call ∈ [StorageIterator.Call.next, .seek [97]], Clear [offsetAndOne] call := by
    refine List.forall_mem_cons.mpr ⟨trivial, List.forall_mem_singleton.mpr fun o _ hlands => ?_⟩
    exact absurd hlands.2.1 (by decide)
  obtain ⟨hdirect, hmerged⟩ := hidesAlong_iff_clear [.next, .seek [97]]
  exact ⟨(hdirect offsetAndOne).mpr hclear, hmerged PriorityQueue.scan [offsetAndOne] hclear⟩

/-- `Seek` of the empty key finds the offset entry: the storage's own iterator stands on it, and the
merge iterator shows it with the following `Next`. -/
theorem offset_exposed :
    ¬ HidesAlong offsetAndOne.iterator [.seek []] ∧
      ¬ HidesAlong (MergeIterator.newMultiIterator PriorityQueue.scan ([offsetAndOne].map iterator))
        [.seek [], .next] := by
  refine ⟨fun h => ?_, fun h => ?_⟩
  · exact absurd (h [] (.seek []) [] rfl) (by decide)
  · exact absurd (h [.seek []] .next [] rfl) (by decide)

end Opened

end Goka
