import Goka.Memory

/-!
# The memory storage is a sorted map

Each call does to the pair of structures what it does to the abstract map. The iterator is described
by the keys behind its position; a strictly ascending list holds the reserved key at most once, so
the second increment of `Next` always ends on another key.
-/

namespace Goka

namespace Memory

def Call.apply (db : Database) : Call → Database
  | .set key (some value) => Function.update db key (some value)
  | .set _ none => db
  | .delete key => Function.update db key none

def content (calls : List Call) : Database := calls.foldl Call.apply fun _ => none

structure Represents (m : Memory) (db : Database) : Prop where
  ascending : m.keys.Pairwise (· < ·)
  mem_keys : ∀ key, key ∈ m.keys ↔ db key ≠ none
  lookup : ∀ key, m.storage.lookup key = (db key).map some

variable {m : Memory} {db : Database}

/-! ### The calls -/

/-- A strictly ascending list stays one when a new element is sorted in. -/
theorem ascending_insertionSort {keys : List Bytes} {key : Bytes} (hkeys : keys.Pairwise (· < ·))
    (hkey : key ∉ keys) : ((keys ++ [key]).insertionSort (· ≤ ·)).Pairwise (· < ·) := by
  have hperm := List.perm_insertionSort (· ≤ ·) (keys ++ [key])
  have hnodup : (keys ++ [key]).Nodup := by
    apply List.Nodup.append (hkeys.imp fun h => h.ne) (List.nodup_singleton key)
    exact List.disjoint_singleton.mpr hkey
  have hsorted := List.pairwise_insertionSort (· ≤ ·) (keys ++ [key])
  exact (hsorted.and (hperm.nodup_iff.mpr hnodup)).imp fun h => lt_of_le_of_ne h.1 h.2

theorem Represents.has_eq (h : Represents m db) (key : Bytes) : m.has key = (db key).isSome := by
  rw [has, h.lookup, Option.isSome_map]

theorem Represents.get_eq (h : Represents m db) (key : Bytes) : m.get key = db key := by
  rw [get, h.lookup]
  cases db key <;> rfl

/-- A new key is inserted in its place in the sorted list; an old one is overwritten. -/
theorem Represents.set (h : Represents m db) (key value : Bytes) :
    Represents (m.set key (some value)).2 (Function.update db key (some value)) := by
  have hlookup : ∀ k, (m.storage.insert key (some value)).lookup k
      = (Function.update db key (some value) k).map some := by
    intro k
    rcases eq_or_ne k key with rfl | hne
    · rw [AList.lookup_insert, Function.update_self, Option.map_some]
    · rw [AList.lookup_insert_ne hne, Function.update_of_ne hne, h.lookup]
  by_cases hhas : m.has key = false
  · have hnew : key ∉ m.keys := by
      rw [h.mem_keys, not_not, ← Option.isNone_iff_eq_none, ← Option.not_isSome, ← h.has_eq, hhas]
      rfl
    refine ⟨?_, fun k => ?_, hlookup⟩
    · simp only [Memory.set, reduceCtorEq, if_false, if_pos hhas]
      exact ascending_insertionSort h.ascending hnew
    · simp only [Memory.set, reduceCtorEq, if_false, if_pos hhas, List.mem_insertionSort,
        List.mem_append, List.mem_singleton, h.mem_keys]
      rcases eq_or_ne k key with rfl | hne
      · simp
      · simp [hne]
  · have hold : db key ≠ none := by
      rw [← Option.isSome_iff_ne_none, ← h.has_eq]
      simpa using hhas
    refine ⟨?_, fun k => ?_, hlookup⟩
    · simp only [Memory.set, reduceCtorEq, if_false, if_neg hhas]
      exact h.ascending
    · simp only [Memory.set, reduceCtorEq, if_false, if_neg hhas, h.mem_keys]
      rcases eq_or_ne k key with rfl | hne
      · simp [hold]
      · simp [hne]

theorem Represents.delete (h : Represents m db) (key : Bytes) :
    Represents (m.delete key) (Function.update db key none) := by
  have hnodup : m.keys.Nodup := h.ascending.imp fun hlt => hlt.ne
  refine ⟨h.ascending.sublist List.erase_sublist, fun k => ?_, fun k => ?_⟩
  · simp only [Memory.delete, hnodup.mem_erase_iff, h.mem_keys]
    rcases eq_or_ne k key with rfl | hne
    · simp
    · simp [hne]
  · rcases eq_or_ne k key with rfl | hne
    · simp [Memory.delete]
    · simp [Memory.delete, hne, AList.lookup_erase_ne hne, h.lookup]

theorem Represents.call (h : Represents m db) (c : Call) : Represents (m.call c) (c.apply db) := by
  cases c with
  | set key value =>
      cases value with
      | none => exact h
      | some value => exact h.set key value
  | delete key => exact h.delete key

/-- The list of keys is sorted, and the map behind it is the abstract one, after any calls. -/
theorem represents_run (calls : List Call) : Represents (new.run calls) (content calls) := by
  suffices hgeneral : ∀ m db, Represents m db →
      Represents (m.run calls) (calls.foldl Call.apply db) by
    apply hgeneral
    exact ⟨List.Pairwise.nil, fun _ => by simp [new], fun _ => rfl⟩
  induction calls with
  | nil => exact fun _ _ h => h
  | cons c calls ih => exact fun m db h => ih _ _ (h.call c)

end Memory

/-! ### The iterator -/

namespace MemIter

structure Over (db : Database) (i : MemIter) : Prop where
  started : -1 ≤ i.current
  ascending : i.keys.Pairwise (· < ·)
  lookup : ∀ key ∈ i.keys, ∃ value, db key = some value ∧ i.storage.lookup key = some (some value)

/-- The call of `Next` behind `n` others succeeds for each of the pairs in turn, and no more. -/
def Enumerates (i : MemIter) (pairs : List Pair) : Prop :=
  ∀ n, ∃ j, (i.run (List.replicate n .next) >>= next) = .ok (decide (n < pairs.length), j) ∧
    ∀ pair, pairs[n]? = some pair → j.key = .ok (some pair.1) ∧ j.value = .ok (some pair.2)

def pairsFrom (db : Database) (keys : List Bytes) : List Pair :=
  (keys.filter fun k => k ≠ offsetKey).map fun k => (k, (db k).getD [])

variable {db : Database} {i j : MemIter} {c n : Nat}

theorem exhausted_eq (h : i.current = n) : i.exhausted = decide (i.keys.length ≤ n) := by
  simp [exhausted, h]

theorem not_exhausted_eq (h : i.current = n) : (!i.exhausted) = i.keys[n]?.isSome := by
  rw [exhausted_eq h, Bool.eq_iff_iff]
  simp [Option.isSome_iff_ne_none]

theorem key_eq (h : i.current = n) : i.key = .ok i.keys[n]? := by
  have hnonneg : ¬ i.current < 0 := by omega
  rw [key, exhausted_eq h, keyAt, if_neg hnonneg, h, Int.toNat_natCast]
  by_cases hn : i.keys.length ≤ n
  · simp [hn]
  · simp [hn, List.getElem?_eq_getElem (not_le.mp hn)]

theorem value_eq (h : i.current = n) :
    i.value = .ok (i.keys[n]?.bind fun k => (i.storage.lookup k).getD none) := by
  have hnonneg : ¬ i.current < 0 := by omega
  rw [value, exhausted_eq h, keyAt, if_neg hnonneg, h, Int.toNat_natCast]
  by_cases hn : i.keys.length ≤ n
  · simp [hn]
  · simp [hn, List.getElem?_eq_getElem (not_le.mp hn)]

def landing (keys : List Bytes) (c : Nat) : Nat :=
  if keys[c]? = some offsetKey then c + 1 else c

def moveTo (i : MemIter) (n : Nat) : MemIter := { i with current := n }

theorem next_eq (h : i.current + 1 = c) :
    i.next = .ok (i.keys[landing i.keys c]?.isSome, i.moveTo (landing i.keys c)) := by
  have hkey : i.increment.key = .ok i.keys[c]? := key_eq h
  have hmoved : (if (i.keys[c]?).getD [] = offsetKey then i.increment.increment else i.increment)
      = i.moveTo (landing i.keys c) := by
    cases hk : i.keys[c]? with
    | none => simp [landing, hk, offsetKey, increment, moveTo, h]
    | some k =>
        by_cases hoffset : k = offsetKey <;> simp [landing, hk, hoffset, increment, moveTo, h]
  unfold next
  dsimp only
  rw [hkey, Outcome.ok_bind, hmoved, Outcome.pure_eq_ok, not_exhausted_eq rfl]
  rfl

theorem drop_eq_toList_append (keys : List Bytes) (c : Nat) :
    keys.drop c = keys[c]?.toList ++ keys.drop (c + 1) := by
  by_cases hc : c < keys.length
  · simp [List.getElem?_eq_getElem hc]
  · have hle := not_lt.mp hc
    simp [List.drop_eq_nil_of_le hle, List.drop_eq_nil_of_le (Nat.le_succ_of_le hle), hle]

/-- The first key behind a position that is not the reserved one is where `Next` lands. -/
theorem pairsFrom_drop {keys : List Bytes} (hkeys : keys.Pairwise (· < ·)) (c : Nat) :
    pairsFrom db (keys.drop c) = (keys[landing keys c]?.map fun k => (k, (db k).getD [])).toList ++
      pairsFrom db (keys.drop (landing keys c + 1)) := by
  unfold landing
  split
  · next hoffset =>
      have hnext : ∀ k, keys[c + 1]? = some k → k ≠ offsetKey := by
        intro k hk
        have hlt := List.pairwise_iff_getElem.mp hkeys c (c + 1)
        obtain ⟨hc, hoffset⟩ := List.getElem?_eq_some_iff.mp hoffset
        obtain ⟨hc', hk⟩ := List.getElem?_eq_some_iff.mp hk
        rw [← hk, ← hoffset]
        exact (hlt hc hc' (Nat.lt_succ_self c)).ne'
      rw [drop_eq_toList_append keys c, drop_eq_toList_append keys (c + 1), hoffset]
      cases hk : keys[c + 1]? with
      | none => simp [pairsFrom]
      | some k => simp [pairsFrom, hnext k hk]
  · next hoffset =>
      rw [drop_eq_toList_append keys c]
      cases hk : keys[c]? with
      | none => simp [pairsFrom]
      | some k =>
          have hne : k ≠ offsetKey := by
            rintro rfl
            exact hoffset hk
          simp [pairsFrom, hne]

theorem Over.moveTo (h : Over db i) (n : Nat) : Over db (i.moveTo n) where
  started := by
    have hnonneg := Int.natCast_nonneg n
    change -1 ≤ (n : Int)
    omega
  ascending := h.ascending
  lookup := h.lookup

theorem Over.value_moveTo (h : Over db i) {k : Bytes} (hk : i.keys[n]? = some k) :
    (i.moveTo n).value = .ok (some ((db k).getD [])) := by
  obtain ⟨value, hdb, hlookup⟩ := h.lookup k (List.mem_of_getElem? hk)
  rw [value_eq rfl]
  simp [MemIter.moveTo, hk, hlookup, hdb]

/-- `Next` takes the first of the pairs behind the position. -/
theorem Over.next (h : Over db i) (hc : i.current + 1 = c) :
    ∃ n : Nat, i.next = .ok (!(pairsFrom db (i.keys.drop c)).isEmpty, i.moveTo n) ∧
      pairsFrom db (i.keys.drop (n + 1)) = (pairsFrom db (i.keys.drop c)).tail ∧
      ∀ pair, (pairsFrom db (i.keys.drop c)).head? = some pair →
        (i.moveTo n).key = .ok (some pair.1) ∧ (i.moveTo n).value = .ok (some pair.2) := by
  refine ⟨landing i.keys c, ?_⟩
  rw [next_eq hc, pairsFrom_drop h.ascending c]
  cases hk : i.keys[landing i.keys c]? with
  | none =>
      have hnil : pairsFrom db (i.keys.drop (landing i.keys c + 1)) = [] := by
        have hle := List.getElem?_eq_none_iff.mp hk
        rw [List.drop_eq_nil_of_le (Nat.le_succ_of_le hle)]
        rfl
      simp [hnil]
  | some k =>
      have hkey : (i.moveTo (landing i.keys c)).key = .ok (some k) := by
        rw [key_eq rfl]
        exact congrArg Outcome.ok hk
      simp [hkey, h.value_moveTo hk]

/-- `Next` shows the entries behind its position in their order and skips the reserved one. -/
theorem Over.enumerates (h : Over db i) (hc : i.current + 1 = c) :
    Enumerates i (pairsFrom db (i.keys.drop c)) := by
  intro n
  induction n generalizing i c with
  | zero =>
      obtain ⟨n, hnext, -, hshows⟩ := h.next hc
      refine ⟨i.moveTo n, ?_, fun pair hpair => hshows pair ?_⟩
      · rw [List.replicate_zero, run, List.foldlM_nil, Outcome.pure_eq_ok, Outcome.ok_bind, hnext]
        cases pairsFrom db (i.keys.drop c) <;> simp
      · rw [List.head?_eq_getElem?, hpair]
  | succ n ih =>
      obtain ⟨m, hnext, htail, -⟩ := h.next hc
      obtain ⟨j, hj, hshows⟩ := ih (h.moveTo m) rfl
      refine ⟨j, ?_, fun pair hpair => hshows pair ?_⟩
      · have hrun : i.run (List.replicate (n + 1) .next)
            = (i.moveTo m).run (List.replicate n .next) := by
          simp [run, List.replicate_succ, call, hnext]
        rw [hrun, hj]
        change Outcome.ok (decide (n < (pairsFrom db (i.keys.drop (m + 1))).length), j) = _
        rw [htail, List.length_tail]
        congr 2
        exact decide_eq_decide.mpr Nat.lt_sub_iff_add_lt
      · change (pairsFrom db (i.keys.drop (m + 1)))[n]? = some pair
        rw [htail, List.getElem?_tail, hpair]

end MemIter

namespace Memory

variable {m : Memory} {db : Database}

theorem Represents.over (h : Represents m db) : MemIter.Over db m.iterator where
  started := le_rfl
  ascending := h.ascending
  lookup := by
    intro key hkey
    obtain ⟨value, hvalue⟩ := Option.ne_none_iff_exists'.mp ((h.mem_keys key).mp hkey)
    exact ⟨value, hvalue, by rw [iterator, h.lookup, hvalue, Option.map_some]⟩

/-- The entries of the map in ascending order, without the reserved one. -/
def Represents.listing (h : Represents m db) : Listing (Database.content db) where
  pairs := MemIter.pairsFrom db m.keys
  ascending := by
    apply List.pairwise_map.mpr
    exact h.ascending.filter _
  mem_iff := by
    intro key value
    simp only [MemIter.pairsFrom, List.mem_map, List.mem_filter, h.mem_keys, Database.content]
    by_cases hkey : key = offsetKey
    · simp [hkey]
    · cases hdb : db key <;> simp [hkey, hdb]

/-- After any calls the keys are in ascending order, the storage is the map that the calls make, nil
is refused as a value, and an iterator enumerates the map without the reserved entry. -/
theorem sorted_map (calls : List Call) :
    (new.run calls).keys.Pairwise (· < ·) ∧
    (∀ key, key ∈ (new.run calls).keys ↔ key ∈ (new.run calls).storage) ∧
    (∀ key, (new.run calls).get key = content calls key ∧
      (new.run calls).has key = (content calls key).isSome) ∧
    (∀ key, (new.run calls).set key none = (some "cannot write nil value", new.run calls)) ∧
    ∃ listing : Listing (Database.content (content calls)),
      (new.run calls).iterator.Enumerates listing.pairs := by
  have h := represents_run calls
  refine ⟨h.ascending, fun key => ?_, fun key => ⟨h.get_eq key, h.has_eq key⟩, fun _ => rfl,
    h.listing, ?_⟩
  · rw [h.mem_keys, ← AList.lookup_isSome, h.lookup, Option.isSome_map, Option.isSome_iff_ne_none]
  · exact h.over.enumerates (c := 0) rfl

end Memory

end Goka
