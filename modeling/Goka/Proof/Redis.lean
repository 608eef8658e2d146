import Goka.Redis

/-!
# What the Redis iterator enumerates

The first `Next` goes to the element behind the one the cursor names, and each later one to the next
element of the flat list, over one `__offset`. So the iterator shows fields and values alike, from
where the cursor happens to point, and looks each of them up as a field.
-/

namespace Goka

open Redis

/-- `Next` until it is false, with what `Key` and `Value` return in between. -/
inductive StorageIterator.Iterates {ι : Type} [StorageIterator ι] :
    ι → List (Option Bytes × Except String (Option Bytes)) → Prop where
  | done {i : ι} (hnext : (next i).1 = false) : Iterates i []
  | step {i : ι} {shown : List (Option Bytes × Except String (Option Bytes))}
      (hnext : (next i).1 = true) (hrest : Iterates (next i).2 shown) :
      Iterates i ((key (next i).2, value (next i).2) :: shown)

theorem StorageIterator.Iterates.unique {ι : Type} [StorageIterator ι] {i : ι}
    {shown shown' : List (Option Bytes × Except String (Option Bytes))} (h : Iterates i shown)
    (h' : Iterates i shown') : shown = shown' := by
  induction h generalizing shown' with
  | done hnext =>
      cases h' with
      | done _ => rfl
      | step hnext' _ => exact absurd (hnext.symm.trans hnext') Bool.false_ne_true
  | step hnext hrest ih =>
      cases h' with
      | done hnext' => exact absurd (hnext'.symm.trans hnext) Bool.false_ne_true
      | step _ hrest' => rw [ih hrest']

namespace RedisIterator

open StorageIterator (Iterates)

variable {i : RedisIterator} {n : Nat}

theorem exhausted_eq (hkeys : i.keys.length < 2 ^ 63) (hn : i.current.toNat = n) :
    i.exhausted = decide (i.keys.length ≤ n) := by
  rw [exhausted, decide_eq_decide, UInt64.le_iff_toNat_le,
    UInt64.toNat_ofNat_of_lt' (hkeys.trans (by decide)), hn]

theorem key_eq (hkeys : i.keys.length < 2 ^ 63) (hn : i.current.toNat = n) :
    i.key = i.keys[n]? := by
  rw [key, exhausted_eq hkeys hn, hn]
  split
  · next h => exact (List.getElem?_eq_none (of_decide_eq_true h)).symm
  · rfl

theorem value_eq (hkeys : i.keys.length < 2 ^ 63) (hn : i.current.toNat = n) {key : Bytes}
    (hkey : i.keys[n]? = some key) : i.value = hGet i.hash key := by
  have hlt := (List.getElem?_eq_some_iff.mp hkey).1
  rw [value, exhausted_eq hkeys hn, if_neg (by simpa using hlt), hn, hkey]

theorem toNat_increment (hlt : i.current.toNat < 2 ^ 63) :
    i.increment.current.toNat = i.current.toNat + 1 := by
  change (i.current + 1).toNat = _
  rw [UInt64.toNat_add, UInt64.toNat_one]
  omega

theorem next_eq (hkeys : i.keys.length < 2 ^ 63) (hn : i.increment.current.toNat = n)
    (hkey : i.keys[n]?.getD [] ≠ offsetKey) :
    i.next = (decide (n < i.keys.length), i.increment) := by
  have hkey' : i.increment.key.getD [] ≠ offsetKey := by
    rw [key_eq (i := i.increment) hkeys hn]
    exact hkey
  rw [next, if_neg hkey', exhausted_eq (i := i.increment) hkeys hn, ← decide_not]
  simp only [Nat.not_le]
  rfl

/-- Over the reserved field. -/
theorem next_of_offsetKey (hkeys : i.keys.length < 2 ^ 63) (hn : i.increment.current.toNat = n)
    (hkey : i.keys[n]? = some offsetKey) :
    i.next = (decide (n + 1 < i.keys.length), i.increment.increment) ∧
      i.increment.increment.current.toNat = n + 1 := by
  have hlt := (List.getElem?_eq_some_iff.mp hkey).1
  have hn' : i.increment.increment.current.toNat = n + 1 := by
    rw [toNat_increment (by omega), hn]
  have hkey' : i.increment.key.getD [] = offsetKey := by
    rw [key_eq (i := i.increment) hkeys hn]
    exact congrArg (Option.getD · []) hkey
  refine ⟨?_, hn'⟩
  rw [next, if_pos hkey', exhausted_eq (i := i.increment.increment) hkeys hn', ← decide_not]
  simp only [Nat.not_le]
  rfl

def visited : List Bytes → List Bytes
  | [] => []
  | key :: rest =>
      if key = offsetKey then
        match rest with
        | [] => []
        | key' :: rest => key' :: visited rest
      else
        key :: visited rest

theorem getElem?_of_drop {α : Type} {l rest : List α} {a : α} (h : l.drop n = a :: rest) :
    l[n]? = some a ∧ l.drop (n + 1) = rest := by
  constructor
  · rw [← Nat.add_zero n, ← List.getElem?_drop, h]
    rfl
  · rw [← List.drop_drop, h]
    rfl

theorem iterates_done {j : RedisIterator} (hnext : i.next = (false, j)) : Iterates i [] :=
  .done (congrArg Prod.fst hnext)

/-- A call of `Next` that stops at an element. -/
theorem iterates_step {j : RedisIterator} {hash : Hash} {key : Bytes}
    {shown : List (Option Bytes × Except String (Option Bytes))} (hnext : i.next = (true, j))
    (hkeys : j.keys.length < 2 ^ 63) (hhash : j.hash = hash) (hn : j.current.toNat = n)
    (hkey : j.keys[n]? = some key) (hrest : Iterates j shown) :
    Iterates i ((some key, hGet hash key) :: shown) := by
  have hj : (StorageIterator.next i).2 = j := congrArg Prod.snd hnext
  have hstep := Iterates.step (congrArg Prod.fst hnext) (hj.symm ▸ hrest)
  rw [hj] at hstep
  rw [← hhash, ← value_eq hkeys hn hkey, ← hkey, ← key_eq hkeys hn]
  exact hstep

/-- The iteration comes to an end, and what it has shown is the rest of the flat list. -/
theorem iterates_visited (hkeys : i.keys.length < 2 ^ 63) (hn : i.increment.current.toNat = n)
    {rest : List Bytes} (hrest : i.keys.drop n = rest) :
    Iterates i ((visited rest).map fun key => (some key, hGet i.hash key)) := by
  fun_induction visited rest generalizing i n with
  | case1 =>
      have hle := List.drop_eq_nil_iff.mp hrest
      have hnext := next_eq hkeys hn (by rw [List.getElem?_eq_none hle]; decide)
      rw [decide_eq_false (Nat.not_lt.mpr hle)] at hnext
      exact iterates_done hnext
  | case2 =>
      obtain ⟨hkey, hrest⟩ := getElem?_of_drop hrest
      obtain ⟨hnext, -⟩ := next_of_offsetKey hkeys hn hkey
      rw [decide_eq_false (Nat.not_lt.mpr (List.drop_eq_nil_iff.mp hrest))] at hnext
      exact iterates_done hnext
  | case3 key' rest ih =>
      obtain ⟨hkey, hrest⟩ := getElem?_of_drop hrest
      obtain ⟨hnext, hn'⟩ := next_of_offsetKey hkeys hn hkey
      obtain ⟨hkey', hrest'⟩ := getElem?_of_drop hrest
      have hlt := (List.getElem?_eq_some_iff.mp hkey').1
      rw [decide_eq_true hlt] at hnext
      have hn'' := toNat_increment (i := i.increment.increment) (by omega)
      rw [hn'] at hn''
      exact iterates_step hnext hkeys rfl hn' hkey'
        (ih (i := i.increment.increment) hkeys hn'' hrest')
  | case4 key rest hne ih =>
      obtain ⟨hkey, hrest⟩ := getElem?_of_drop hrest
      have hlt := (List.getElem?_eq_some_iff.mp hkey).1
      have hnext := next_eq hkeys hn (by rw [hkey]; exact hne)
      rw [decide_eq_true hlt] at hnext
      have hn' := toNat_increment (i := i.increment) (by omega)
      rw [hn] at hn'
      exact iterates_step hnext hkeys rfl hn hkey (ih (i := i.increment) hkeys hn' hrest)

end RedisIterator

namespace RedisStorage

open StorageIterator (Iterates)

variable {hash : Hash}

def entriesOf (hash : Hash) : List (Option Bytes × Except String (Option Bytes)) :=
  (hash.entries.filter fun entry => entry.1 ≠ offsetKey).map fun entry =>
    (some entry.1, .ok (some entry.2))

/-- The iterator over this answer of the client enumerates the table. -/
def Enumerates (r : ScanResult hash) : Prop :=
  ∃ i shown, RedisStorage.iterator ⟨hash⟩ (.ok r) = .ok i ∧ Iterates i shown ∧
  shown.Perm (entriesOf hash)

def fields (hash : Hash) : List Bytes := hash.keys.filter fun key => key ≠ offsetKey

theorem hGet_of_mem {entry : Sigma fun _ : Bytes => Bytes} (h : entry ∈ hash.entries) :
    hGet hash entry.1 = .ok (some entry.2) := by
  rw [hGet, AList.mem_lookup_iff.mpr h]

theorem entriesOf_eq (hash : Hash) :
    entriesOf hash = (fields hash).map fun key => (some key, hGet hash key) := by
  rw [entriesOf, fields, AList.keys, List.keys, List.filter_map, List.map_map]
  refine List.map_congr_left fun entry hentry => ?_
  rw [Function.comp_apply, hGet_of_mem (List.mem_of_mem_filter hentry)]

theorem length_keys (r : ScanResult hash) : r.keys.length < 2 ^ 63 := by
  have hlength : r.keys.length = 2 * r.page.length := by
    simp [ScanResult.keys, List.length_flatMap, mul_comm]
  rw [hlength]
  exact r.length_lt

/-- The iterator takes the cursor for a position in the flat list, and goes on behind it. -/
theorem enumerates_iff (r : ScanResult hash) :
    Enumerates r ↔
      (RedisIterator.visited (r.keys.drop (r.cursor + 1).toNat)).Perm (fields hash) := by
  have hinj : Function.Injective fun key : Bytes => (some key, hGet hash key) :=
    fun key key' h => Option.some.inj (Prod.mk.inj h).1
  have hiterates := RedisIterator.iterates_visited (i := ⟨r.cursor, r.keys, hash⟩)
    (length_keys r) rfl rfl
  rw [← List.map_perm_map_iff hinj, ← entriesOf_eq]
  constructor
  · rintro ⟨i, shown, hi, hshown, hperm⟩
    obtain rfl := Except.ok.inj hi
    rw [← hiterates.unique hshown] at hperm
    exact hperm
  · exact fun hperm => ⟨_, _, rfl, hiterates, hperm⟩

def emptyPage (hash : Hash) : ScanResult hash where
  page := []
  cursor := 1
  nodup := List.nodup_nil
  stored := fun pair hpair => absurd hpair List.not_mem_nil
  complete := fun h => absurd h (by decide)
  length_lt := by decide

/-- A page with one entry, and a cursor that wraps around to its first element. -/
def lastCursor {key value : Bytes} (h : hash.lookup key = some value) : ScanResult hash where
  page := [(key, value)]
  cursor := UInt64.ofNat (2 ^ 64 - 1)
  nodup := List.nodup_singleton key
  stored := List.forall_mem_singleton.mpr h
  complete := fun h => absurd h (by decide)
  length_lt := by rw [List.length_singleton]; decide

theorem not_enumerates_emptyPage {key : Bytes} (hkey : key ∈ fields hash) :
    ¬ Enumerates (emptyPage hash) := by
  rw [enumerates_iff]
  intro hperm
  have hmem := hperm.mem_iff.mpr hkey
  exact List.not_mem_nil hmem

theorem not_enumerates_lastCursor (hfields : fields hash = []) {value : Bytes}
    (h : hash.lookup offsetKey = some value) : ¬ Enumerates (lastCursor h) := by
  have hvisited : RedisIterator.visited ((lastCursor h).keys.drop ((lastCursor h).cursor + 1).toNat)
      = [value] := by
    have hcursor : ((lastCursor h).cursor + 1).toNat = 0 := by
      change (UInt64.ofNat (2 ^ 64 - 1) + 1).toNat = 0
      decide
    have hkeys : (lastCursor h).keys = [offsetKey, value] := rfl
    rw [hcursor, hkeys, List.drop_zero, RedisIterator.visited, if_pos rfl]
    rfl
  rw [enumerates_iff, hvisited, hfields]
  exact fun hperm => List.cons_ne_nil _ _ hperm.eq_nil

theorem keys_eq_nil (r : ScanResult hash) (h : hash.entries = []) : r.keys = [] := by
  have hpage : r.page = [] := by
    rw [List.eq_nil_iff_forall_not_mem]
    intro pair hpair
    have hentry := AList.mem_lookup_iff.mp (r.stored pair hpair)
    rw [h] at hentry
    exact List.not_mem_nil hentry
  rw [ScanResult.keys, hpage]
  rfl

/-- **What the iterator enumerates.** Over one answer of the client it enumerates the table exactly
where the elements it visits happen to be the fields. Unless the hash is empty, there is an answer
over which it does not. -/
theorem enumerates_iff_empty (hash : Hash) :
    (∀ r : ScanResult hash, Enumerates r ↔
      (RedisIterator.visited (r.keys.drop (r.cursor + 1).toNat)).Perm (fields hash)) ∧
    ((∀ r : ScanResult hash, Enumerates r) ↔ hash.entries = []) := by
  refine ⟨enumerates_iff, fun hall => ?_, fun hempty r => ?_⟩
  · have hfields : fields hash = [] := by
      rw [List.eq_nil_iff_forall_not_mem]
      exact fun key hkey => not_enumerates_emptyPage hkey (hall _)
    rw [List.eq_nil_iff_forall_not_mem]
    rintro ⟨key, value⟩ hentry
    -- what is left is the reserved field
    have hkey : key = offsetKey := by
      by_contra hne
      have hmem : key ∈ fields hash :=
        List.mem_filter.mpr ⟨List.mem_keys_of_mem hentry, decide_eq_true hne⟩
      rw [hfields] at hmem
      exact List.not_mem_nil hmem
    subst hkey
    exact not_enumerates_lastCursor hfields (AList.mem_lookup_iff.mpr hentry) (hall _)
  · rw [enumerates_iff, keys_eq_nil r hempty, List.drop_nil, fields, AList.keys, hempty]
    exact List.Perm.nil

def oneField : Hash := List.toAList [⟨[97], [49]⟩]

def onePage : ScanResult oneField where
  page := [([97], [49])]
  cursor := 0
  nodup := by decide
  stored := by decide
  complete := by decide
  length_lt := by decide

/-- Of the field `a` with the value `1` the iteration shows a field `1`, which the hash does not
have. -/
theorem value_shown_as_field :
    (∃ i, RedisStorage.iterator ⟨oneField⟩ (.ok onePage) = .ok i ∧
      Iterates i [(some [49], .error "redis: nil")]) ∧
    entriesOf oneField = [(some [97], .ok (some [49]))] ∧ ¬ Enumerates onePage := by
  refine ⟨⟨_, rfl, .step ?_ (.done ?_)⟩, rfl, ?_⟩
  · decide
  · decide
  · rw [enumerates_iff]
    decide

end RedisStorage

end Goka
