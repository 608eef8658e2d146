import Mathlib.Data.List.AList
import Mathlib.Tactic.Common

/-!
# Writing to a finite map

What a lookup finds, and how many keys there are, after one entry has been written or erased.
-/

namespace Maps

variable {K V : Type*} [DecidableEq K] {m : AList fun _ : K => V} {key key' : K} {new old : V}

theorem lookup_insert (m : AList fun _ : K => V) (key : K) (new : V) (other : K) :
    (m.insert key new).lookup other = if other = key then some new else m.lookup other := by
  split
  · next heq => rw [heq, AList.lookup_insert]
  · next hne => rw [AList.lookup_insert_ne hne]

/-- What holds of the entry that was written, and of all others as before. -/
theorem forall_lookup_insert {P : K → V → Prop} (hnew : P key new)
    (hm : ∀ other v, m.lookup other = some v → P other v) :
    ∀ other v, (m.insert key new).lookup other = some v → P other v := by
  intro other v hv
  rw [lookup_insert] at hv
  split at hv
  · next heq =>
      obtain rfl := Option.some.inj hv
      exact heq ▸ hnew
  · exact hm other v hv

theorem mem_insert_of_lookup (h : m.lookup key = some old) (new : V) (other : K) :
    other ∈ m.insert key new ↔ other ∈ m := by
  rw [AList.mem_insert]
  refine or_iff_right_of_imp ?_
  rintro rfl
  exact AList.lookup_isSome.mp (Option.isSome_of_mem h)

/-- A map made of one entry for each key of a list. -/
theorem lookup_foldl_insert (make : K → V) (keys : List K) (m : AList fun _ : K => V) (key : K) :
    (keys.foldl (fun m key => m.insert key (make key)) m).lookup key
      = if key ∈ keys then some (make key) else m.lookup key := by
  induction keys generalizing m with
  | nil => rfl
  | cons first keys ih =>
      rw [List.foldl_cons, ih, lookup_insert]
      rcases eq_or_ne key first with rfl | hne
      · simp
      · simp [hne]

theorem length_keys_insert (h : key ∉ m) (v : V) :
    (m.insert key v).keys.length = m.keys.length + 1 := by
  rw [AList.keys_insert, List.length_cons, List.erase_of_not_mem (mt AList.mem_keys.mpr h)]

theorem length_keys_erase (h : key ∈ m) : (m.erase key).keys.length + 1 = m.keys.length := by
  have hmem : key ∈ m.keys := AList.mem_keys.mp h
  rw [AList.keys_erase, List.length_erase_of_mem hmem]
  exact Nat.succ_pred_eq_of_pos (List.length_pos_of_mem hmem)

theorem two_le_length_keys (h : key ∈ m) (h' : key' ∈ m) (hne : key' ≠ key) :
    2 ≤ m.keys.length := by
  have hfirst := length_keys_erase h
  have hsecond := length_keys_erase (AList.mem_erase.mpr ⟨hne, h'⟩)
  omega

end Maps
