import Goka.Hash
import Mathlib.Algebra.Order.Group.Unbundled.Abs
import Mathlib.Algebra.Order.Ring.Int
import Mathlib.Data.Int.Order.Basic

/-!
# When readers and the producer agree on a partition

The reader takes the absolute value before the remainder, the producer after it. On integers that
makes no difference. In `int32` it does for one hash: the absolute value of `-2^31` wraps back to
`-2^31`, and its remainder is negative unless the partition count divides `2^31`.
-/

namespace Goka

variable {x : Int32} {sum : UInt32} {n : Nat}

theorem toInt_ofNat_count (hlt : n < 2 ^ 31) : (Int32.ofNat n).toInt = n :=
  Int32.toInt_ofNat_of_lt hlt

theorem toInt_abs_of_ne_min (hx : x.toInt ≠ -2 ^ 31) :
    (if x < 0 then -x else x).toInt = x.toInt.natAbs := by
  have hlow := x.le_toInt
  have hhigh := x.toInt_lt
  split <;> rename_i hneg
  · rw [Int32.lt_iff_toInt_lt, Int32.toInt_zero] at hneg
    rw [Int32.toInt_neg, Int.bmod_eq_of_le (by omega) (by omega)]
    omega
  · rw [Int32.lt_iff_toInt_lt, Int32.toInt_zero] at hneg
    omega

theorem abs_of_min (hx : x.toInt = -2 ^ 31) : (if x < 0 then -x else x) = x := by
  have hmin : x = Int32.minValue := Int32.toInt_inj.mp (hx.trans (by decide))
  subst hmin
  decide

theorem natAbs_tmod_count (a : Int) (n : Nat) : (a.tmod n).natAbs = a.natAbs % n := by
  simp [Int.natAbs_tmod]

/-- The producer's partition: the remainder of the absolute value, for every hash. -/
theorem toInt_hashPartitioner (hpos : 0 < n) (hlt : n < 2 ^ 31) (sum : UInt32) :
    (hashPartitioner sum (Int32.ofNat n)).toInt = (sum.toInt32.toInt.natAbs % n : Nat) := by
  have hrem := natAbs_tmod_count sum.toInt32.toInt n
  have hbound : sum.toInt32.toInt.natAbs % n < n := Nat.mod_lt _ hpos
  have hvalue : (sum.toInt32 % Int32.ofNat n).toInt = sum.toInt32.toInt.tmod n := by
    rw [Int32.toInt_mod, toInt_ofNat_count hlt]
  unfold hashPartitioner
  rw [toInt_abs_of_ne_min (by rw [hvalue]; omega), hvalue, hrem]

theorem toInt32_eq_min_iff : sum.toInt32.toInt = -2 ^ 31 ↔ sum = 2147483648 := by
  constructor
  · intro h
    have hmin : sum.toInt32 = Int32.minValue := Int32.toInt_inj.mp (h.trans (by decide))
    have hback := congrArg Int32.toUInt32 hmin
    rw [UInt32.toUInt32_toInt32] at hback
    rw [hback]
    decide
  · rintro rfl
    decide

theorem hashKey_eq {hasher : Hasher} {key : Bytes} (hsum : hasher key = .ok sum) (hpos : 0 < n)
    (noPartitions : String) :
    hashKey hasher n noPartitions key
      = .ok ((if sum.toInt32 < 0 then -sum.toInt32 else sum.toInt32) % Int32.ofNat n) := by
  simp [hashKey, hsum, hpos.ne']

/-- The reader's index lies in range exactly when the absolute value did not wrap, or wrapped to a
multiple of the partition count. -/
theorem toInt_index_cases (hlt : n < 2 ^ 31) (sum : UInt32) :
    (sum ≠ 2147483648 ∧
      ((if sum.toInt32 < 0 then -sum.toInt32 else sum.toInt32) % Int32.ofNat n).toInt
        = (sum.toInt32.toInt.natAbs % n : Nat)) ∨
    (sum = 2147483648 ∧
      ((if sum.toInt32 < 0 then -sum.toInt32 else sum.toInt32) % Int32.ofNat n).toInt
        = -((2 ^ 31 % n : Nat) : Int)) := by
  by_cases hmin : sum = 2147483648
  · refine Or.inr ⟨hmin, ?_⟩
    have hvalue : sum.toInt32.toInt = -2 ^ 31 := toInt32_eq_min_iff.mpr hmin
    have hrem := natAbs_tmod_count (-2 ^ 31) n
    have hsign : (-2 ^ 31 : Int).tmod n ≤ 0 := by
      rw [Int.neg_tmod]
      have : 0 ≤ (2 ^ 31 : Int).tmod n := Int.tmod_nonneg _ (by decide)
      omega
    rw [abs_of_min hvalue, Int32.toInt_mod, toInt_ofNat_count hlt, hvalue]
    have habs : (-2 ^ 31 : Int).natAbs = 2 ^ 31 := by decide
    rw [habs] at hrem
    omega
  · refine Or.inl ⟨hmin, ?_⟩
    have hvalue : sum.toInt32.toInt ≠ -2 ^ 31 := mt toInt32_eq_min_iff.mp hmin
    rw [Int32.toInt_mod, toInt_ofNat_count hlt, toInt_abs_of_ne_min hvalue,
      Int.tmod_eq_emod_of_nonneg (by omega)]
    norm_cast

/-- Readers and producer agree on the partition of a key, inside the range of partitions, exactly
when the hash is not `2^31` or the partition count divides `2^31`. -/
theorem hash_agrees_iff {PartitionTable PartitionProcessor : Type} (v : View PartitionTable)
    (g : Processor PartitionProcessor) (hasher : Hasher) (key : Bytes) (sum : UInt32) (n : Nat)
    (hview : v.hasher = hasher) (hproc : g.hasher = hasher) (hsum : hasher key = .ok sum)
    (hpartitions : v.partitions.length = n) (hcount : g.partitionCount = n)
    (hpos : 0 < n) (hlt : n < 2 ^ 31) :
    (∃ index : Int32, v.hash key = .ok index ∧ g.hash key = .ok index ∧
        0 ≤ index.toInt ∧ index.toInt < n ∧ (∃ table, v.find key = .ok table) ∧
        index = hashPartitioner sum (Int32.ofNat n)) ↔
      sum ≠ 2147483648 ∨ n ∣ 2 ^ 31 := by
  subst hview hpartitions
  have hvhash := hashKey_eq hsum hpos "no partitions found"
  have hghash := hashKey_eq hsum hpos "can't hash with 0 partitions"
  rw [← hproc, ← hcount] at hghash
  change v.hash key = _ at hvhash
  change g.hash key = _ at hghash
  rw [hcount] at hghash
  have hproducer := toInt_hashPartitioner hpos hlt sum
  set n := v.partitions.length with hn
  set index := (if sum.toInt32 < 0 then -sum.toInt32 else sum.toInt32) % Int32.ofNat n with hindex
  have hbound : sum.toInt32.toInt.natAbs % n < n := Nat.mod_lt _ hpos
  -- both directions rest on the sign of the one index the readers compute
  have hfind : 0 ≤ index.toInt → index.toInt < n → ∃ table, v.find key = .ok table := by
    intro hlow hhigh
    have hget : index.toInt.toNat < v.partitions.length := by omega
    refine ⟨v.partitions[index.toInt.toNat], ?_⟩
    simp only [View.find, hvhash, Outcome.ok_bind]
    rw [if_neg (by omega), List.getElem?_eq_getElem hget]
  constructor
  · rintro ⟨index', hv, -, hlow, -, -, -⟩
    rw [hvhash] at hv
    obtain rfl : index = index' := by simpa using hv
    rcases toInt_index_cases hlt sum with ⟨hne, -⟩ | ⟨-, hvalue⟩
    · exact Or.inl hne
    · right
      rw [← hindex] at hvalue
      exact Nat.dvd_of_mod_eq_zero (by omega)
  · intro hcond
    refine ⟨index, hvhash, hghash, ?_⟩
    have hvalue : index.toInt = (sum.toInt32.toInt.natAbs % n : Nat) := by
      rcases toInt_index_cases hlt sum with ⟨-, hvalue⟩ | ⟨heq, hvalue⟩
      · exact hvalue
      · have hdvd : n ∣ 2 ^ 31 := hcond.resolve_left (not_not.mpr heq)
        have hmin : sum.toInt32.toInt = -2 ^ 31 := toInt32_eq_min_iff.mpr heq
        have habs : sum.toInt32.toInt.natAbs = 2 ^ 31 := by rw [hmin]; decide
        rw [← hindex] at hvalue
        rw [hvalue, habs, Nat.mod_eq_zero_of_dvd hdvd]
        decide
    have hlow : 0 ≤ index.toInt := by omega
    have hhigh : index.toInt < n := by omega
    exact ⟨hlow, hhigh, hfind hlow hhigh, Int32.toInt_inj.mp (hvalue.trans hproducer.symm)⟩

theorem hash_agrees_of_key_a :
    ∃ index : Int32,
      (⟨defaultHasher, [(), (), ()]⟩ : View Unit).hash [97] = .ok index ∧
      (⟨defaultHasher, 3, fun _ => none⟩ : Processor Unit).hash [97] = .ok index ∧
      0 ≤ index.toInt ∧ index.toInt < (3 : Nat) ∧
      (∃ table, (⟨defaultHasher, [(), (), ()]⟩ : View Unit).find [97] = .ok table) ∧
      index = hashPartitioner (fnv32a [97]) (Int32.ofNat 3) :=
  (hash_agrees_iff ⟨defaultHasher, [(), (), ()]⟩ ⟨defaultHasher, 3, fun _ => none⟩ defaultHasher
    [97] (fnv32a [97]) 3 rfl rfl rfl rfl rfl (by decide) (by decide)).mpr (Or.inl (by decide))

/-- The key `qqk42v` hashes to `2^31`. Over three partitions the producer writes it to partition 2,
while both readers compute `-2` and the view indexes its partitions out of range. -/
theorem hash_disagrees_of_min_hash :
    fnv32a [113, 113, 107, 52, 50, 118] = 2147483648 ∧
    hashPartitioner (fnv32a [113, 113, 107, 52, 50, 118]) (Int32.ofNat 3) = 2 ∧
    (⟨defaultHasher, [(), (), ()]⟩ : View Unit).hash [113, 113, 107, 52, 50, 118] = .ok (-2) ∧
    (⟨defaultHasher, [(), (), ()]⟩ : View Unit).find [113, 113, 107, 52, 50, 118]
      = .panic "index out of range" ∧
    (⟨defaultHasher, 3, fun _ => none⟩ : Processor Unit).hash [113, 113, 107, 52, 50, 118]
      = .ok (-2) := by
  decide

end Goka
