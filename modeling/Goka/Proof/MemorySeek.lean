import Goka.Library.LexPrefix
import Goka.Proof.Memory

/-!
# `Seek` of the memory storage

The keys with a given prefix stand together, and the first of them is the smallest key not below the
prefix. `Seek` looks for such a key, from the position of the iterator on: it is a lower-bound
search where that smallest key begins with the one sought and the iterator has not gone past it.
-/

namespace Goka

namespace MemIter

/-- The contract of `Seek`, for an iterator over the whole of `db`. -/
def SeeksLowerBound (db : Database) (i : MemIter) (key : Bytes) : Prop :=
  ∃ found j, i.seek key = .ok (found, j) ∧
    (found = true ↔ ∃ k, db k ≠ none ∧ key ≤ k) ∧
    (found = true → ∃ k value, j.key = .ok (some k) ∧ j.value = .ok (some value) ∧
      db k = some value ∧ key ≤ k ∧ ∀ k', db k' ≠ none → key ≤ k' → k ≤ k')

/-- All keys are below, or the smallest that is not begins with `key` and is not behind the
iterator. -/
def Seekable (db : Database) (i : MemIter) (key : Bytes) : Prop :=
  (∀ k, db k ≠ none → k < key) ∨
    ∃ (n : Nat) (k : Bytes), i.current ≤ n ∧ i.keys[n]? = some k ∧ key <+: k ∧
      ∀ k', db k' ≠ none → key ≤ k' → k ≤ k'

variable {db : Database} {i j : MemIter} {c n : Nat} {key : Bytes}

theorem seekLoop_eq (key : Bytes) (keys : List Bytes) (current : Int) :
    seekLoop key keys current = current + (keys.findIdx fun k => key.isPrefixOf k : Nat) := by
  induction keys generalizing current with
  | nil => simp [seekLoop]
  | cons k keys ih =>
      rw [seekLoop, List.findIdx_cons]
      by_cases hk : key.isPrefixOf k
      · simp [hk]
      · simp [hk, ih]
        omega

def seekIndex (key : Bytes) (keys : List Bytes) (c : Nat) : Nat :=
  c + (keys.drop c).findIdx fun k => key.isPrefixOf k

theorem seekFrom_eq (h : i.current = c) :
    i.seekFrom key = (i.keys[seekIndex key i.keys c]?.isSome, i.moveTo
      (seekIndex key i.keys c)) := by
  have hindex : seekLoop key (i.keys.drop i.current.toNat) i.current
      = (seekIndex key i.keys c : Nat) := by
    rw [seekLoop_eq, h, Int.toNat_natCast, seekIndex, Nat.cast_add]
  unfold seekFrom
  dsimp only
  rw [hindex, not_exhausted_eq rfl]
  rfl

/-- Without the reserved key `Next` goes to the next index. -/
theorem landing_eq {keys : List Bytes} (h : offsetKey ∉ keys) (c : Nat) : landing keys c = c := by
  apply if_neg
  intro hoffset
  exact h (List.mem_of_getElem? hoffset)

theorem current_cases (h : -1 ≤ i.current) : i.current = -1 ∨ ∃ c : Nat, i.current = c := by
  rcases h.eq_or_lt with heq | hlt
  · exact Or.inl heq.symm
  · exact Or.inr (Int.eq_ofNat_of_zero_le hlt)

/-- `Seek` goes on from where the iterator stands and looks for a key that begins with its argument.
-/
theorem seek_eq (hstarted : -1 ≤ i.current) (hoffset : offsetKey ∉ i.keys) (key : Bytes) :
    i.seek key = .ok (i.keys[seekIndex key i.keys i.current.toNat]?.isSome,
      if i.exhausted then i else i.moveTo (seekIndex key i.keys i.current.toNat)) := by
  rcases current_cases hstarted with hbefore | ⟨c, hc⟩
  · -- `Seek` begins with `Next`, which goes to the first key
    have hexhausted : i.exhausted = false := by
      apply decide_eq_false
      omega
    have hzero : i.current.toNat = 0 := by rw [hbefore]; rfl
    have hnext := next_eq (i := i) (c := 0) (by omega)
    rw [landing_eq hoffset] at hnext
    rw [seek, hexhausted, if_neg Bool.false_ne_true, if_pos (by omega), hnext, Outcome.ok_bind,
      hzero]
    cases hfirst : i.keys with
    | nil => simp [seekIndex]
    | cons k keys =>
        simp only [List.getElem?_cons_zero, Option.isSome_some, if_true]
        rw [seekFrom_eq (c := 0) rfl, ← hfirst]
        rfl
  · rw [seek, seekFrom_eq hc, hc, Int.toNat_natCast]
    cases hexhausted : i.exhausted with
    | false =>
        rw [if_neg Bool.false_ne_true, if_neg (by omega), Outcome.pure_eq_ok,
          if_neg Bool.false_ne_true]
    | true =>
        have hle : i.keys.length ≤ seekIndex key i.keys c := by
          rw [exhausted_eq hc, decide_eq_true_iff] at hexhausted
          exact hexhausted.trans (Nat.le_add_right _ _)
        rw [List.getElem?_eq_none_iff.mpr hle]
        rfl

theorem seek_of_some (hstarted : -1 ≤ i.current) (hoffset : offsetKey ∉ i.keys) {k : Bytes}
    (hk : i.keys[seekIndex key i.keys i.current.toNat]? = some k) :
    i.seek key = .ok (true, i.moveTo (seekIndex key i.keys i.current.toNat)) := by
  have hexhausted : i.exhausted = false := by
    obtain ⟨hlt, -⟩ := List.getElem?_eq_some_iff.mp hk
    have hle : i.current.toNat ≤ seekIndex key i.keys i.current.toNat := Nat.le_add_right _ _
    apply decide_eq_false
    omega
  rw [seek_eq hstarted hoffset, hk, hexhausted]
  rfl

theorem prefix_of_seekIndex {keys : List Bytes} {k : Bytes}
    (h : keys[seekIndex key keys c]? = some k) : key <+: k := by
  rw [seekIndex, ← List.getElem?_drop] at h
  obtain ⟨hlt, heq⟩ := List.getElem?_eq_some_iff.mp h
  have hfound := List.findIdx_getElem (w := hlt)
  rw [heq] at hfound
  exact List.isPrefixOf_iff_prefix.mp hfound

/-- The first of the keys that begin with `key`. -/
theorem seekIndex_eq {keys : List Bytes} {k : Bytes} (hkeys : keys.Pairwise (· < ·)) (hcn : c ≤ n)
    (hk : keys[n]? = some k) (hstarts : key <+: k) (hleast : ∀ k' ∈ keys, key ≤ k' → k ≤ k') :
    seekIndex key keys c = n := by
  obtain ⟨hn, hk⟩ := List.getElem?_eq_some_iff.mp hk
  have hfind : ((keys.drop c).findIdx fun k => key.isPrefixOf k) = n - c := by
    have hlength : n - c < (keys.drop c).length := by
      rw [List.length_drop]
      omega
    apply (List.findIdx_eq hlength).mpr
    refine ⟨?_, fun m hm => ?_⟩
    · rw [List.getElem_drop]
      simp only [Nat.add_sub_cancel' hcn, hk]
      exact List.isPrefixOf_iff_prefix.mpr hstarts
    · -- a smaller key that begins with `key` would be the smallest not below it
      rw [List.getElem_drop, Bool.eq_false_iff, Ne, List.isPrefixOf_iff_prefix]
      intro hbefore
      have hlt := List.pairwise_iff_getElem.mp hkeys (c + m) n (by omega) hn (by omega)
      have hle := hleast _ (List.getElem_mem _) (LexPrefix.le_of_prefix hbefore)
      rw [hk] at hlt
      exact absurd hle hlt.not_ge
  rw [seekIndex, hfind, Nat.add_sub_cancel' hcn]

structure OverAll (db : Database) (i : MemIter) : Prop extends Over db i where
  mem_keys : ∀ key, key ∈ i.keys ↔ db key ≠ none
  no_offset : offsetKey ∉ i.keys

theorem OverAll.moveTo (h : OverAll db i) (n : Nat) : OverAll db (i.moveTo n) :=
  ⟨h.toOver.moveTo n, h.mem_keys, h.no_offset⟩

theorem OverAll.call (h : OverAll db i) (call : StorageIterator.Call) :
    ∃ found j, i.call call = .ok (found, j) ∧ OverAll db j := by
  cases call with
  | next =>
      obtain ⟨c, hc⟩ : ∃ c : Nat, i.current + 1 = c :=
        Int.eq_ofNat_of_zero_le (by linarith [h.started])
      exact ⟨_, _, next_eq hc, h.moveTo _⟩
  | seek key =>
      refine ⟨_, _, seek_eq h.started h.no_offset key, ?_⟩
      split
      · exact h
      · exact h.moveTo _

theorem OverAll.run (h : OverAll db i) (calls : List StorageIterator.Call) :
    ∃ j, i.run calls = .ok j ∧ OverAll db j := by
  induction calls generalizing i with
  | nil => exact ⟨i, rfl, h⟩
  | cons call calls ih =>
      obtain ⟨found, j, hcall, hj⟩ := h.call call
      obtain ⟨last, hrun, hlast⟩ := ih hj
      refine ⟨last, ?_, hlast⟩
      rw [MemIter.run, List.foldlM_cons, hcall, Outcome.ok_bind, Outcome.pure_eq_ok,
        Outcome.ok_bind]
      exact hrun

/-- It finds the lower bound where that begins with the key and has not been passed. -/
theorem OverAll.seeksLowerBound_iff (h : OverAll db i) (key : Bytes) :
    SeeksLowerBound db i key ↔ Seekable db i key := by
  have hcurrent : i.current ≤ i.current.toNat := Int.self_le_toNat _
  constructor
  · rintro ⟨found, j, hcall, hfound, hshows⟩
    by_cases habove : ∃ k, db k ≠ none ∧ key ≤ k
    · right
      obtain ⟨k, value, hkey, -, hdb, -, hleast⟩ := hshows (hfound.mpr habove)
      have hsome : (i.keys[seekIndex key i.keys i.current.toNat]?).isSome = true := by
        have hresult := (seek_eq h.started h.no_offset key).symm.trans hcall
        exact (congrArg Prod.fst (Outcome.ok.inj hresult)).trans (hfound.mpr habove)
      obtain ⟨k', hk'⟩ := Option.isSome_iff_exists.mp hsome
      obtain rfl : i.moveTo (seekIndex key i.keys i.current.toNat) = j := by
        have hresult := (seek_of_some h.started h.no_offset hk').symm.trans hcall
        exact congrArg Prod.snd (Outcome.ok.inj hresult)
      obtain rfl : k' = k := by
        rw [key_eq rfl] at hkey
        exact Option.some.inj (hk'.symm.trans (Outcome.ok.inj hkey))
      refine ⟨_, k', ?_, hk', prefix_of_seekIndex hk', hleast⟩
      exact hcurrent.trans (Int.ofNat_le.mpr (Nat.le_add_right _ _))
    · left
      intro k hk
      exact not_le.mp fun hle => habove ⟨k, hk, hle⟩
  · rintro (hbelow | ⟨n, k, hcn, hk, hstarts, hleast⟩)
    · refine ⟨_, _, seek_eq h.started h.no_offset key, ?_⟩
      have hnone : i.keys[seekIndex key i.keys i.current.toNat]? = none := by
        apply Option.eq_none_iff_forall_ne_some.mpr
        intro k hk
        have hlt := hbelow k ((h.mem_keys k).mp (List.mem_of_getElem? hk))
        exact absurd (LexPrefix.le_of_prefix (prefix_of_seekIndex hk)) hlt.not_ge
      rw [hnone]
      refine ⟨iff_of_false Bool.false_ne_true ?_, fun htrue => absurd htrue Bool.false_ne_true⟩
      rintro ⟨k, hk, hle⟩
      exact absurd hle (hbelow k hk).not_ge
    · have hindex : seekIndex key i.keys i.current.toNat = n := by
        apply seekIndex_eq h.ascending (by omega) hk hstarts
        exact fun k' hk' => hleast k' ((h.mem_keys k').mp hk')
      have hmem := (h.mem_keys k).mp (List.mem_of_getElem? hk)
      have hle := LexPrefix.le_of_prefix hstarts
      obtain ⟨value, hvalue⟩ := Option.ne_none_iff_exists'.mp hmem
      refine ⟨true, _, seek_of_some h.started h.no_offset (by rw [hindex, hk]), ?_, fun _ => ?_⟩
      · exact iff_of_true rfl ⟨k, hmem, hle⟩
      · refine ⟨k, value, ?_, ?_, hvalue, hle, hleast⟩
        · rw [key_eq rfl, hindex]
          exact congrArg Outcome.ok hk
        · rw [hindex, h.value_moveTo hk, hvalue, Option.getD_some]

end MemIter

namespace Memory

theorem overAll_iterator {calls : List Call} (hoffset : content calls offsetKey = none) :
    MemIter.OverAll (content calls) (new.run calls).iterator := by
  have h := represents_run calls
  refine ⟨h.over, h.mem_keys, ?_⟩
  rw [iterator, h.mem_keys, not_not]
  exact hoffset

/-- Whatever was stored and however the iterator was moved, `Seek` keeps its contract exactly where
the lower bound begins with the key and is not behind the iterator. -/
theorem seek_lower_bound_iff (calls : List Call) (hoffset : content calls offsetKey = none)
    (moves : List StorageIterator.Call) (key : Bytes) :
    ∃ i, (new.run calls).iterator.run moves = .ok i ∧
      (MemIter.SeeksLowerBound (content calls) i key ↔ MemIter.Seekable (content calls) i key) := by
  obtain ⟨i, hrun, hi⟩ := (overAll_iterator hoffset).run moves
  exact ⟨i, hrun, hi.seeksLowerBound_iff key⟩

def twoKeys : List Call := [.set [98, 49] (some [2]), .set [97] (some [1])]

/-- Forward to the second key by its first byte. -/
theorem seek_lower_bound_two_keys :
    ∃ i, (new.run twoKeys).iterator.run [.next] = .ok i ∧
      MemIter.SeeksLowerBound (content twoKeys) i [98] := by
  obtain ⟨i, hrun, hiff⟩ := seek_lower_bound_iff twoKeys rfl [.next] [98]
  refine ⟨i, hrun, hiff.mpr (Or.inr ⟨1, [98, 49], ?_⟩)⟩
  obtain rfl : (new.run twoKeys).iterator.moveTo 0 = i := Outcome.ok.inj hrun
  refine ⟨by decide, rfl, by decide, fun k hk hle => ?_⟩
  have hcases : k = [97] ∨ k = [98, 49] := by
    by_contra hneither
    obtain ⟨h97, h98⟩ := not_or.mp hneither
    exact hk (by simp [content, twoKeys, Call.apply, h97, h98])
  rcases hcases with rfl | rfl
  · exact absurd hle (by decide)
  · exact le_rfl

/-- The sought key lies between the two, so neither begins with it and the larger one is not
found. -/
theorem seek_misses_larger_key :
    ¬ MemIter.SeeksLowerBound (content twoKeys) (new.run twoKeys).iterator [97, 49] := by
  rintro ⟨found, j, hcall, hfound, -⟩
  obtain ⟨rfl, -⟩ := Prod.mk.inj (Outcome.ok.inj hcall)
  exact absurd (hfound.mpr ⟨[98, 49], by decide, by decide⟩) (by decide)

end Memory

end Goka
