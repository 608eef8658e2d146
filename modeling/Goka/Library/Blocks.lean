import Mathlib.Algebra.Order.Floor.Semiring
import Mathlib.Data.Rat.Floor
import Mathlib.Data.List.Basic
import Mathlib.Tactic.FieldSimp
import Mathlib.Tactic.Ring

/-!
# Cutting a list into blocks at rounded positions

A list of `p` elements is cut into `m` blocks at the positions `i * p / m`, each rounded to the
nearest integer with ties going up. The blocks are consecutive whatever the rounding, since
neighbours share a bound; that they have equal size up to one is what the rounding adds.
-/

namespace Blocks

/-- The `i`-th of `m + 1` bounds that cut `p` elements: `i * p / m` rounded to nearest. -/
def bound (p m i : Nat) : Nat := (2 * (i * p) + m) / (2 * m)

variable {p m i j : Nat}

/-- The bound as rational arithmetic states it. -/
theorem floor_eq_bound (hm : 0 < m) :
    ⌊(i : ℚ) * ((p : ℚ) / (m : ℚ)) + 1 / 2⌋ = (bound p m i : Int) := by
  have hm' : (m : ℚ) ≠ 0 := by exact_mod_cast hm.ne'
  have hcast : (i : ℚ) * ((p : ℚ) / (m : ℚ)) + 1 / 2
      = ((2 * (i * p) + m : Nat) : ℚ) / ((2 * m : Nat) : ℚ) := by
    push_cast
    field_simp
  rw [hcast, Rat.floor_natCast_div_natCast]
  rfl

@[simp]
theorem bound_zero (hm : 0 < m) : bound p m 0 = 0 := by
  rw [bound, Nat.div_eq_of_lt (by omega)]

theorem bound_last (hm : 0 < m) : bound p m m = p := by
  have hrearrange : 2 * (m * p) + m = m + 2 * m * p := by ring
  rw [bound, hrearrange, Nat.add_mul_div_left _ _ (by omega), Nat.div_eq_of_lt (by omega),
    Nat.zero_add]

theorem bound_mono (h : i ≤ j) : bound p m i ≤ bound p m j := by
  unfold bound
  gcongr

theorem bound_le (hm : 0 < m) (h : i ≤ m) : bound p m i ≤ p :=
  (bound_mono h).trans_eq (bound_last hm)

theorem bound_succ_sub (hm : 0 < m) :
    bound p m (i + 1) = bound p m i + p / m ∨ bound p m (i + 1) = bound p m i + p / m + 1 := by
  have hrearrange : 2 * ((i + 1) * p) + m = (2 * (i * p) + m) + 2 * p := by ring
  have hquot : 2 * p / (2 * m) = p / m := Nat.mul_div_mul_left p m (by omega)
  unfold bound
  rw [hrearrange, Nat.add_div (by omega), hquot]
  split
  · exact Or.inr rfl
  · exact Or.inl rfl

variable {α : Type*} {l : List α} {cut : Nat → Nat}

/-- The elements from position `cut i` up to but excluding position `cut (i + 1)`. -/
def block (l : List α) (cut : Nat → Nat) (i : Nat) : List α :=
  (l.drop (cut i)).take (cut (i + 1) - cut i)

theorem length_block (hle : cut (i + 1) ≤ l.length) :
    (block l cut i).length = cut (i + 1) - cut i := by
  rw [block, List.length_take, List.length_drop]
  omega

theorem flatMap_block (hzero : cut 0 = 0) (hmono : ∀ i, cut i ≤ cut (i + 1)) (m : Nat) :
    (List.range m).flatMap (block l cut) = l.take (cut m) := by
  induction m with
  | zero => simp [hzero]
  | succ m ih =>
      rw [List.range_succ, List.flatMap_append, ih, List.flatMap_singleton, block]
      conv_rhs => rw [← Nat.add_sub_cancel' (hmono m), List.take_add]

end Blocks
