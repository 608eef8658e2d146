import Goka.Library.LexPrefix
import Goka.Proof.Memory
import Goka.Proof.MergeIterator

/-!
# Ranges of the memory storage and of LevelDB

Both iterators are told which pairs they go over, so they agree where the two filters do. The memory
storage takes its upper bound as included, and compares with the nil limit of a prefix that has no
successor as with the empty key.
-/

namespace Goka

/-! ### The range of a prefix -/

theorem byte_lt_succ_iff {c d : UInt8} (hc : c < 0xff) : d < c + 1 ↔ d ≤ c := by
  rw [UInt8.lt_iff_toNat_lt] at hc
  rw [UInt8.lt_iff_toNat_lt, UInt8.le_iff_toNat_le, UInt8.toNat_add]
  simp only [UInt8.reduceToNat] at hc ⊢
  omega

theorem byte_not_lt_of_max {c d : UInt8} (hc : ¬ c < 0xff) : ¬ c < d := by
  rw [UInt8.lt_iff_toNat_lt] at hc ⊢
  simp only [UInt8.reduceToNat] at hc
  have hd := d.toNat_lt
  omega

/-- A prefix without a successor: no key lies above all that begin with it. -/
theorem le_iff_prefix {p k : Bytes} (h : bytesPrefixLimit p = []) : p ≤ k ↔ p <+: k := by
  induction p generalizing k with
  | nil => exact iff_of_true (LexPrefix.nil_le k) List.nil_prefix
  | cons c p ih =>
      rw [bytesPrefixLimit] at h
      split at h
      · next hnil =>
          have hmax : ¬ c < 0xff := by
            intro hlt
            rw [if_pos hlt] at h
            exact absurd h (List.cons_ne_nil _ _)
          cases k with
          | nil => simp
          | cons d k =>
              rw [LexPrefix.cons_le_cons_iff, List.cons_prefix_cons, ih hnil,
                or_iff_right (byte_not_lt_of_max hmax)]
      · exact absurd h (List.cons_ne_nil _ _)

/-- `util.BytesPrefix` is the range of the keys with the prefix. -/
theorem prefix_iff_lt_limit {p k : Bytes} (h : bytesPrefixLimit p ≠ []) :
    p <+: k ↔ p ≤ k ∧ k < bytesPrefixLimit p := by
  induction p generalizing k with
  | nil => exact absurd rfl h
  | cons c p ih =>
      cases k with
      | nil => simp
      | cons d k =>
          rw [bytesPrefixLimit] at h ⊢
          rw [List.cons_prefix_cons, LexPrefix.cons_le_cons_iff]
          split at h
          · next hnil =>
              -- the rest has no successor, so this byte is increased
              have hc : c < 0xff := by
                by_contra hmax
                exact h (if_neg hmax)
              rw [if_pos hc, List.cons_lt_cons_iff, byte_lt_succ_iff hc, ← le_iff_prefix hnil]
              constructor
              · rintro ⟨rfl, hle⟩
                exact ⟨Or.inr ⟨rfl, hle⟩, Or.inl le_rfl⟩
              · rintro ⟨hlt | hsame, hupper | ⟨-, hupper⟩⟩
                · exact absurd hupper hlt.not_ge
                · exact absurd hupper (List.not_lt_nil k)
                · exact hsame
                · exact hsame
          · next b limit hlimit =>
              have hrest := ih (k := k) (by rw [hlimit]; exact List.cons_ne_nil _ _)
              rw [List.cons_lt_cons_iff, hrest, hlimit]
              constructor
              · rintro ⟨rfl, hle, hlt⟩
                exact ⟨Or.inr ⟨rfl, hle⟩, Or.inr ⟨rfl, hlt⟩⟩
              · rintro ⟨hlt | ⟨rfl, hle⟩, hgt | ⟨heq, hupper⟩⟩
                · exact absurd hgt hlt.not_gt
                · exact absurd heq hlt.ne'
                · exact absurd hgt (lt_irrefl _)
                · exact ⟨rfl, hle, hupper⟩

/-! ### What the two iterators go over -/

def upperBound (start limit : Bytes) : Bytes := if limit = [] then bytesPrefixLimit start else limit

def inClosedRange (start upper key : Bytes) : Bool := decide (start ≤ key ∧ key ≤ upper)

/-- No key is the upper bound itself; without an upper bound, only the empty key begins with
`start`. -/
def RangeAgrees (db : Database) (start limit : Bytes) : Prop :=
  if upperBound start limit ≠ [] then
    start ≤ upperBound start limit → db (upperBound start limit) = none
  else
    ∀ key, db key ≠ none → start <+: key → key = []

theorem inRange_iff {start limit : Bytes} (h : upperBound start limit ≠ []) (key : Bytes) :
    inRange start limit key = true ↔ start ≤ key ∧ key < upperBound start limit := by
  unfold inRange upperBound at *
  by_cases hlimit : limit = []
  · simp only [hlimit, if_true, ne_eq, not_true, if_false] at h ⊢
    rw [List.isPrefixOf_iff_prefix, prefix_iff_lt_limit h]
  · simp only [hlimit, if_false, ne_eq, not_false_iff, if_true]
    exact decide_eq_true_iff

theorem inRange_iff_starts {start limit : Bytes} (h : upperBound start limit = []) (key : Bytes) :
    inRange start limit key = true ↔ start <+: key := by
  unfold inRange upperBound at *
  by_cases hlimit : limit = []
  · rw [if_neg (not_not_intro hlimit), List.isPrefixOf_iff_prefix]
  · exact absurd ((if_neg hlimit).symm.trans h) hlimit

/-- The two conditions differ only at the upper bound itself, and where there is none. -/
theorem rangeAgrees_iff (db : Database) (start limit : Bytes) :
    (∀ key, db key ≠ none →
      inClosedRange start (upperBound start limit) key = inRange start limit key)
      ↔ RangeAgrees db start limit := by
  have hcongr : ∀ key, inClosedRange start (upperBound start limit) key = inRange start limit key ↔
      (start ≤ key ∧ key ≤ upperBound start limit ↔ inRange start limit key = true) := by
    intro key
    rw [Bool.eq_iff_iff, inClosedRange, decide_eq_true_iff]
  simp only [hcongr]
  unfold RangeAgrees
  by_cases hupper : upperBound start limit = []
  · simp only [inRange_iff_starts hupper, hupper, ne_eq, not_true, if_false]
    refine forall₂_congr fun key _ => ?_
    have hnil : key ≤ [] ↔ key = [] :=
      ⟨fun h => le_antisymm h (LexPrefix.nil_le key), fun h => h.le⟩
    rw [hnil]
    constructor
    · exact fun h hstarts => (h.mpr hstarts).2
    · refine fun h => ⟨?_, fun hstarts => ⟨LexPrefix.le_of_prefix hstarts, h hstarts⟩⟩
      rintro ⟨hle, rfl⟩
      rw [le_antisymm hle (LexPrefix.nil_le start)]
  · simp only [inRange_iff hupper, ne_eq, hupper, not_false_iff, if_true]
    constructor
    · intro h hle
      by_contra hmem
      exact absurd ((h _ hmem).mp ⟨hle, le_rfl⟩).2 (lt_irrefl _)
    · intro h key hkey
      refine and_congr_right fun hle => ⟨fun hkl => lt_of_le_of_ne hkl ?_, fun hkl => hkl.le⟩
      rintro rfl
      exact hkey (h hle)

namespace Memory

variable {m : Memory} {db : Database}

/-- What the loop of `IteratorWithRange` has collected. -/
theorem foldl_keepInRange (start upper : Bytes) (keys : List Bytes) (i : MemIter) :
    (keys.foldl (m.keepInRange start upper) i).current = i.current ∧
      (keys.foldl (m.keepInRange start upper) i).keys
        = i.keys ++ keys.filter (inClosedRange start upper) ∧
      ∀ k, (keys.foldl (m.keepInRange start upper) i).storage.lookup k
        = if k ∈ keys.filter (inClosedRange start upper) then some (m.get k)
          else i.storage.lookup k := by
  induction keys generalizing i with
  | nil => simp
  | cons key keys ih =>
      obtain ⟨hcurrent, hkeys, hlookup⟩ := ih (m.keepInRange start upper i key)
      rw [List.foldl_cons]
      by_cases hkey : start ≤ key ∧ key ≤ upper
      · have hin : inClosedRange start upper key = true := decide_eq_true hkey
        rw [List.filter_cons_of_pos hin]
        rw [keepInRange, if_pos hkey] at hcurrent hkeys hlookup ⊢
        refine ⟨hcurrent, by rw [hkeys, List.append_assoc, List.singleton_append], fun k => ?_⟩
        rw [hlookup]
        rcases eq_or_ne k key with rfl | hne
        · simp [AList.lookup_insert]
        · simp only [List.mem_cons, hne, false_or, AList.lookup_insert_ne hne]
      · have hout : ¬ inClosedRange start upper key = true := by simpa [inClosedRange] using hkey
        rw [List.filter_cons_of_neg hout]
        rw [keepInRange, if_neg hkey] at hcurrent hkeys hlookup ⊢
        exact ⟨hcurrent, hkeys, hlookup⟩

theorem keys_iteratorWithRange (m : Memory) (start limit : Bytes) :
    (m.iteratorWithRange start limit).keys
      = m.keys.filter (inClosedRange start (upperBound start limit)) := by
  rw [iteratorWithRange, (foldl_keepInRange ..).2.1, List.nil_append, upperBound]

theorem Represents.over_range (h : Represents m db) (start limit : Bytes) :
    MemIter.Over db (m.iteratorWithRange start limit) where
  started := by rw [iteratorWithRange, (foldl_keepInRange ..).1]
  ascending := by
    rw [keys_iteratorWithRange]
    exact h.ascending.filter _
  lookup := by
    intro key hkey
    rw [keys_iteratorWithRange, upperBound] at hkey
    have hmem := (h.mem_keys key).mp (List.mem_of_mem_filter hkey)
    obtain ⟨value, hvalue⟩ := Option.ne_none_iff_exists'.mp hmem
    refine ⟨value, hvalue, ?_⟩
    rw [iteratorWithRange, (foldl_keepInRange ..).2.2, if_pos hkey, h.get_eq, hvalue]

end Memory

theorem Listing.pairs_eq {db : Database} (listing listing' : Listing db) :
    listing.pairs = listing'.pairs := by
  have hasymm : Std.Antisymm fun a b : Pair => a.1 < b.1 :=
    ⟨fun a b hab hba => absurd hba hab.not_gt⟩
  have hirrefl : Std.Irrefl fun a b : Pair => a.1 < b.1 := ⟨fun a => lt_irrefl a.1⟩
  apply listing.ascending.eq_of_mem_iff listing'.ascending
  rintro ⟨key, value⟩
  rw [listing.mem_iff, listing'.mem_iff]

/-! ### Two enumerations side by side -/

namespace LevelIterator

variable {i : LevelIterator}

def nth (i : LevelIterator) (n : Nat) : Bool × LevelIterator :=
  StorageIterator.next (StorageIterator.run i (List.replicate n .next))

theorem nth_succ (i : LevelIterator) (n : Nat) :
    i.nth (n + 1) = StorageIterator.next (i.nth n).2 := by
  rw [nth, List.replicate_succ', StorageIterator.run, List.foldl_append]
  rfl

theorem next_eq_advance (h : ∀ pair ∈ i.iter.pairs, pair.1 ≠ offsetKey) :
    StorageIterator.next i = (i.iter.advance.current.isSome, ⟨i.iter.advance⟩) := by
  have hkey : (StorageIterator.key i.iter.advance).getD [] ≠ offsetKey := by
    change (i.iter.advance.current.map Prod.fst).getD [] ≠ offsetKey
    cases hcurrent : i.iter.advance.current with
    | none => exact (List.cons_ne_nil _ _).symm
    | some pair =>
        rw [Cursor.current_of_started Cursor.started_advance] at hcurrent
        have hmem := i.iter.advance.suffix.subset (List.mem_of_mem_head? hcurrent)
        rw [Cursor.source_advance] at hmem
        exact h pair hmem
  exact if_neg hkey

/-- Behind `n` others, `Next` stands on the pair with index `n`. -/
theorem nth_eq {source : PairSource} (h : ∀ pair ∈ source.pairs, pair.1 ≠ offsetKey) (n : Nat) :
    (nth ⟨.start source⟩ n).1 = source.pairs[n]?.isSome ∧
      (nth ⟨.start source⟩ n).2.iter.toPairSource = source ∧
      (nth ⟨.start source⟩ n).2.iter.started = true ∧
      (nth ⟨.start source⟩ n).2.iter.ahead = source.pairs.drop n := by
  induction n with
  | zero =>
      have hnext := next_eq_advance (i := ⟨.start source⟩) h
      rw [nth, List.replicate_zero, StorageIterator.run, List.foldl_nil, hnext]
      exact ⟨congrArg Option.isSome List.head?_eq_getElem?, rfl, rfl, rfl⟩
  | succ n ih =>
      obtain ⟨-, hsource, hstarted, hahead⟩ := ih
      have hnext := next_eq_advance (i := (nth ⟨.start source⟩ n).2) (by rw [hsource]; exact h)
      have hdrop : (nth ⟨.start source⟩ n).2.iter.advance.ahead = source.pairs.drop (n + 1) := by
        rw [Cursor.ahead_advance hstarted, hahead, List.tail_drop]
      rw [nth_succ, hnext]
      refine ⟨?_, Cursor.source_advance.trans hsource, Cursor.started_advance, hdrop⟩
      rw [Cursor.current_of_started Cursor.started_advance, hdrop, List.head?_drop]

theorem current_nth {source : PairSource} (h : ∀ pair ∈ source.pairs, pair.1 ≠ offsetKey)
    (n : Nat) :
    (nth ⟨.start source⟩ n).2.iter.current = source.pairs[n]? := by
  obtain ⟨-, -, hstarted, hahead⟩ := nth_eq h n
  rw [Cursor.current_of_started hstarted, hahead, List.head?_drop]

theorem key_nth {source : PairSource} (h : ∀ pair ∈ source.pairs, pair.1 ≠ offsetKey) (n : Nat) :
    StorageIterator.key (nth ⟨.start source⟩ n).2 = source.pairs[n]?.map Prod.fst := by
  rw [← current_nth h]
  rfl

theorem value_nth {source : PairSource} (h : ∀ pair ∈ source.pairs, pair.1 ≠ offsetKey)
    (hvalues : ∀ pair, source.valueErr pair = none) (n : Nat) :
    StorageIterator.value (nth ⟨.start source⟩ n).2 = .ok (source.pairs[n]?.map Prod.snd) := by
  obtain ⟨-, hsource, -⟩ := nth_eq h n
  rw [← current_nth h]
  refine Cursor.currentValue_of_readable fun pair => ?_
  rw [hsource]
  exact hvalues pair

end LevelIterator

theorem MemIter.Enumerates.nth {i : MemIter} {pairs : List Pair} (h : i.Enumerates pairs)
    (n : Nat) :
    ∃ j, (i.run (List.replicate n .next) >>= MemIter.next) = .ok (pairs[n]?.isSome, j) ∧
      (pairs[n]?.isSome = true →
        j.key = .ok (pairs[n]?.map Prod.fst) ∧ j.value = .ok (pairs[n]?.map Prod.snd)) := by
  obtain ⟨j, hrun, hshows⟩ := h n
  have hfound : decide (n < pairs.length) = pairs[n]?.isSome := by
    rw [Bool.eq_iff_iff]
    simp [Option.isSome_iff_ne_none]
  refine ⟨j, hfound ▸ hrun, fun hsome => ?_⟩
  obtain ⟨pair, hpair⟩ := Option.isSome_iff_exists.mp hsome
  rw [hpair]
  exact hshows pair hpair

/-- Each `Next` of the one has the result of that of the other, and shows the same key and value. -/
def SameEnumeration (i : MemIter) (l : LevelIterator) : Prop :=
  ∀ n, ∃ j, (i.run (List.replicate n .next) >>= MemIter.next) = .ok ((l.nth n).1, j) ∧
    ((l.nth n).1 = true → j.key = .ok (StorageIterator.key (l.nth n).2) ∧
      ∃ value, StorageIterator.value (l.nth n).2 = .ok value ∧ j.value = .ok value)

/-- Both stop, or both go on with the same pair, so what they show is the same list. -/
theorem sameEnumeration_iff {i : MemIter} {pairs : List Pair} {source : PairSource}
    (hi : i.Enumerates pairs) (hoffset : ∀ pair ∈ source.pairs, pair.1 ≠ offsetKey)
    (hvalues : ∀ pair, source.valueErr pair = none) :
    SameEnumeration i ⟨.start source⟩ ↔ pairs = source.pairs := by
  have hfound := fun n => (LevelIterator.nth_eq hoffset n).1
  constructor
  · intro hsame
    apply List.ext_getElem?
    intro n
    obtain ⟨j, hrun, hshows⟩ := hi.nth n
    obtain ⟨j', hrun', hshows'⟩ := hsame n
    obtain ⟨hsome, rfl⟩ := Prod.mk.inj (Outcome.ok.inj (hrun.symm.trans hrun'))
    rw [hfound] at hsome hshows'
    rw [LevelIterator.key_nth hoffset, LevelIterator.value_nth hoffset hvalues] at hshows'
    cases hp : pairs[n]? with
    | none =>
        rw [hp, Option.isSome_none] at hsome
        exact (Option.not_isSome_iff_eq_none.mp (hsome ▸ Bool.false_ne_true)).symm
    | some pair =>
        rw [hp] at hsome hshows
        obtain ⟨hkey, hvalue⟩ := hshows rfl
        obtain ⟨hkey', value, hlevel, hvalue'⟩ := hshows' hsome.symm
        obtain ⟨pair', hpair'⟩ := Option.isSome_iff_exists.mp hsome.symm
        rw [hpair'] at hkey' hlevel ⊢
        obtain rfl := Except.ok.inj hlevel
        have hfst := Option.some.inj (Outcome.ok.inj (hkey.symm.trans hkey'))
        have hsnd := Option.some.inj (Outcome.ok.inj (hvalue.symm.trans hvalue'))
        exact congrArg some (Prod.ext hfst hsnd)
  · rintro rfl
    intro n
    obtain ⟨j, hrun, hshows⟩ := hi.nth n
    rw [hfound, LevelIterator.key_nth hoffset, LevelIterator.value_nth hoffset hvalues]
    exact ⟨j, hrun, fun hsome => ⟨(hshows hsome).1, _, rfl, (hshows hsome).2⟩⟩

namespace Memory

theorem filter_eq_filter_iff {α : Type} {l : List α} {p q : α → Bool} :
    l.filter p = l.filter q ↔ ∀ a ∈ l, p a = q a := by
  refine ⟨fun h a ha => ?_, List.filter_congr⟩
  have hmem : a ∈ l.filter p ↔ a ∈ l.filter q := by rw [h]
  rw [Bool.eq_iff_iff]
  simpa [List.mem_filter, ha] using hmem

theorem pairsFrom_filter (db : Database) (keys : List Bytes) (p : Bytes → Bool) :
    MemIter.pairsFrom db (keys.filter p) = (MemIter.pairsFrom db keys).filter fun pair =>
      p pair.1 := by
  simp only [MemIter.pairsFrom, List.filter_map, List.filter_filter, Function.comp_def,
    Bool.and_comm]

/-- The entries of a map without the reserved key are its keys with their values. -/
theorem Represents.pairs_eq {m : Memory} {db : Database} (h : Represents m db)
    (hoffset : db offsetKey = none) (listing : Listing db) :
    MemIter.pairsFrom db m.keys = listing.pairs := by
  have hdb : Database.content db = db := by
    funext key
    by_cases hkey : key = offsetKey
    · rw [Database.content, if_pos hkey, hkey, hoffset]
    · rw [Database.content, if_neg hkey]
  exact Listing.pairs_eq ⟨_, h.listing.ascending,
    fun key value => by rw [h.listing.mem_iff, hdb]⟩ listing

/-- Range iteration over the same content in the memory storage and in LevelDB. -/
theorem range_iteration_agrees_iff (calls : List Call) (st : Storage) (listing : Listing st.db)
    (hcontent : st.db = content calls) (hoffset : st.db offsetKey = none) (start limit : Bytes) :
    SameEnumeration ((new.run calls).iteratorWithRange start limit)
        (st.iteratorWithRange listing start limit)
      ↔ RangeAgrees st.db start limit := by
  have h := represents_run calls
  rw [← hcontent] at h
  have henum := (h.over_range start limit).enumerates (c := 0)
    (by rw [iteratorWithRange, (foldl_keepInRange ..).1]; rfl)
  rw [List.drop_zero, keys_iteratorWithRange, pairsFrom_filter, h.pairs_eq hoffset listing] at henum
  have hvisible : ∀ pair ∈ listing.pairs.filter (fun pair => inRange start limit pair.1),
      pair.1 ≠ offsetKey := by
    rintro ⟨key, value⟩ hpair rfl
    have hdb := (listing.mem_iff _ _).mp (List.mem_of_mem_filter hpair)
    exact Option.some_ne_none value (hdb.symm.trans hoffset)
  calc SameEnumeration ((new.run calls).iteratorWithRange start limit)
        (st.iteratorWithRange listing start limit)
      ↔ (listing.pairs.filter fun pair => inClosedRange start (upperBound start limit) pair.1)
          = listing.pairs.filter fun pair => inRange start limit pair.1 :=
        sameEnumeration_iff henum hvisible fun _ => rfl
    _ ↔ ∀ key, st.db key ≠ none →
          inClosedRange start (upperBound start limit) key = inRange start limit key := by
        rw [filter_eq_filter_iff]
        constructor
        · intro hpairs key hkey
          obtain ⟨value, hvalue⟩ := Option.ne_none_iff_exists'.mp hkey
          exact hpairs (key, value) ((listing.mem_iff key value).mpr hvalue)
        · rintro hkeys ⟨key, value⟩ hpair
          apply hkeys key
          rw [(listing.mem_iff key value).mp hpair]
          exact Option.some_ne_none value
    _ ↔ RangeAgrees st.db start limit := rangeAgrees_iff st.db start limit

def storedTwo : List Call := [.set [97] (some [1]), .set [98] (some [2])]

def listingTwo : Listing (content storedTwo) where
  pairs := [([97], [1]), ([98], [2])]
  ascending := by decide
  mem_iff := by
    intro key value
    simp only [content, storedTwo, List.foldl_cons, List.foldl_nil, Call.apply,
      Function.update_apply, List.mem_cons, Prod.mk.injEq, List.not_mem_nil, or_false]
    by_cases h98 : key = [98]
    · simp [h98, @eq_comm _ value]
    · by_cases h97 : key = [97] <;> simp [h97, h98, @eq_comm _ value]

theorem range_iteration_agrees_below_limit :
    SameEnumeration ((new.run storedTwo).iteratorWithRange [97] [99])
      ((Storage.new (content storedTwo)).iteratorWithRange listingTwo [97] [99]) := by
  apply (range_iteration_agrees_iff storedTwo (.new _) listingTwo rfl rfl [97] [99]).mpr
  exact fun _ => rfl

/-- The limit is a key of the storage: LevelDB leaves it out, the memory storage does not. -/
theorem limit_included_in_memory :
    ¬ SameEnumeration ((new.run storedTwo).iteratorWithRange [97] [98])
      ((Storage.new (content storedTwo)).iteratorWithRange listingTwo [97] [98]) := by
  intro hsame
  obtain ⟨j, hrun, -⟩ := hsame 1
  obtain ⟨hfound, -⟩ := Prod.mk.inj (Outcome.ok.inj hrun)
  exact absurd hfound (by decide)

end Memory

end Goka
