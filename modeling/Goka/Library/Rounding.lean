import Mathlib.Data.Int.Log
import Mathlib.Data.Rat.Floor
import Mathlib.Tactic.FieldSimp
import Mathlib.Tactic.Linarith
import Mathlib.Tactic.NormNum
import Mathlib.Tactic.Positivity

/-!
# Rounded arithmetic

What positions computed in floating point owe to the exact ones. A rounding of the numbers that are
not negative keeps the order, leaves the multiples of a quarter alone as long as they are not too
large, and is off by a small part of the number at most. Rounding to the nearest number with a
significand of 53 bits is one, with an exponent that is not bounded.
-/

structure Rounding where
  round : ℚ → ℚ
  mono : ∀ {q q' : ℚ}, 0 ≤ q → q ≤ q' → round q ≤ round q'
  quarters : ∀ {n : Nat}, n < 2 ^ 53 → round ((n : ℚ) / 4) = (n : ℚ) / 4
  error : ∀ {q : ℚ}, 0 ≤ q → round q ≤ q * (1 + 1 / 2 ^ 53)

namespace Rounding

/-! ### Positions -/

section Positions

variable (r : Rounding)

theorem round_zero : r.round 0 = 0 := by
  have hzero := r.quarters (n := 0) (by norm_num)
  rwa [Nat.cast_zero, zero_div] at hzero

theorem round_nonneg {q : ℚ} (hq : 0 ≤ q) : 0 ≤ r.round q := by
  rw [← r.round_zero]
  exact r.mono le_rfl hq

/-- A position: so many steps, each a rounded part of the length, rounded to an integer. -/
def position (length parts i : Nat) : Int :=
  ⌊r.round (r.round ((i : ℚ) * r.round ((length : ℚ) / (parts : ℚ))) + 1 / 2)⌋

variable {length parts i j : Nat}

theorem steps_nonneg (length parts i : Nat) : 0 ≤ (i : ℚ) * r.round ((length : ℚ) / (parts : ℚ)) :=
  mul_nonneg (Nat.cast_nonneg i) (r.round_nonneg (by positivity))

theorem position_nonneg : 0 ≤ r.position length parts i := by
  refine Int.floor_nonneg.mpr (r.round_nonneg ?_)
  have hproduct := r.round_nonneg (r.steps_nonneg length parts i)
  linarith

theorem position_mono (h : i ≤ j) : r.position length parts i ≤ r.position length parts j := by
  have hstep : 0 ≤ r.round ((length : ℚ) / (parts : ℚ)) := r.round_nonneg (by positivity)
  have hij : (i : ℚ) ≤ j := by exact_mod_cast h
  have hproduct := r.mono (r.steps_nonneg _ _ _) (mul_le_mul_of_nonneg_right hij hstep)
  have hnonneg := r.round_nonneg (r.steps_nonneg length parts i)
  refine Int.floor_mono (r.mono ?_ ?_)
  · linarith
  · linarith

theorem position_no_parts : r.position length 0 i = 0 := by
  have hhalf : r.round (1 / 2) = 1 / 2 := by
    have := r.quarters (n := 2) (by norm_num)
    norm_num at this ⊢
    exact this
  rw [position, Nat.cast_zero, div_zero, r.round_zero, mul_zero, r.round_zero, zero_add, hhalf]
  norm_num

/-- All steps together are off by less than a quarter. -/
theorem all_steps_le (hlength : length < 2 ^ 50) (hparts : 0 < parts) :
    (parts : ℚ) * r.round ((length : ℚ) / (parts : ℚ)) ≤ ((4 * length + 1 : Nat) : ℚ) / 4 := by
  have hparts' : (0 : ℚ) < parts := by exact_mod_cast hparts
  have hsmall : (length : ℚ) < 2 ^ 50 := by exact_mod_cast hlength
  calc (parts : ℚ) * r.round ((length : ℚ) / (parts : ℚ))
      ≤ (parts : ℚ) * ((length : ℚ) / (parts : ℚ) * (1 + 1 / 2 ^ 53)) :=
        mul_le_mul_of_nonneg_left (r.error (by positivity)) hparts'.le
    _ = (length : ℚ) + (length : ℚ) / 2 ^ 53 := by field_simp
    _ ≤ ((4 * length + 1 : Nat) : ℚ) / 4 := by
        push_cast
        linarith

/-- The last position is not beyond the end. -/
theorem position_last_le (hlength : length < 2 ^ 50) (hparts : 0 < parts) :
    r.position length parts parts ≤ (length : Int) := by
  have hproduct : r.round ((parts : ℚ) * r.round ((length : ℚ) / (parts : ℚ)))
      ≤ ((4 * length + 1 : Nat) : ℚ) / 4 := by
    rw [← r.quarters (n := 4 * length + 1) (by omega)]
    exact r.mono (r.steps_nonneg _ _ _) (r.all_steps_le hlength hparts)
  have hsum : r.round (r.round ((parts : ℚ) * r.round ((length : ℚ) / (parts : ℚ))) + 1 / 2)
      ≤ ((4 * length + 3 : Nat) : ℚ) / 4 := by
    have hnonneg := r.round_nonneg (r.steps_nonneg length parts parts)
    rw [← r.quarters (n := 4 * length + 3) (by omega)]
    refine r.mono (by linarith) ?_
    push_cast at hproduct ⊢
    linarith
  rw [position, ← Int.lt_add_one_iff, Int.floor_lt]
  push_cast at hsum ⊢
  linarith

theorem position_le (hlength : length < 2 ^ 50) (hi : i ≤ parts) :
    r.position length parts i ≤ (length : Int) := by
  rcases Nat.eq_zero_or_pos parts with rfl | hparts
  · rw [r.position_no_parts]
    exact Int.natCast_nonneg length
  · exact (r.position_mono hi).trans (r.position_last_le hlength hparts)

end Positions

/-! ### The nearest integer -/

/-- Halves go to the even neighbour. -/
def tiesToEven (x : ℚ) : Int :=
  if Int.fract x < 1 / 2 then ⌊x⌋
  else if 1 / 2 < Int.fract x then ⌊x⌋ + 1
  else if ⌊x⌋ % 2 = 0 then ⌊x⌋
  else ⌊x⌋ + 1

theorem floor_le_tiesToEven (x : ℚ) : ⌊x⌋ ≤ tiesToEven x := by
  unfold tiesToEven
  split_ifs <;> omega

theorem tiesToEven_le_floor_add_one (x : ℚ) : tiesToEven x ≤ ⌊x⌋ + 1 := by
  unfold tiesToEven
  split_ifs <;> omega

theorem tiesToEven_intCast (n : Int) : tiesToEven n = n := by
  rw [tiesToEven, Int.fract_intCast, if_pos (by norm_num), Int.floor_intCast]

theorem tiesToEven_mono {x y : ℚ} (h : x ≤ y) : tiesToEven x ≤ tiesToEven y := by
  rcases (Int.floor_mono h).lt_or_eq with hlt | heq
  · exact (tiesToEven_le_floor_add_one x).trans (hlt.trans_le (floor_le_tiesToEven y))
  · have hfract : Int.fract x ≤ Int.fract y := by
      rw [Int.fract, Int.fract, heq]
      linarith
    unfold tiesToEven
    rw [heq]
    split_ifs <;> first | omega | linarith

theorem tiesToEven_le_add_half (x : ℚ) : (tiesToEven x : ℚ) ≤ x + 1 / 2 := by
  have hx := Int.floor_add_fract x
  have hfract := Int.fract_nonneg x
  unfold tiesToEven
  split_ifs <;> push_cast <;> linarith

/-! ### The nearest number with a significand of 53 bits -/

def nearest (q : ℚ) : ℚ :=
  (tiesToEven (q * 2 ^ (52 - Int.log 2 |q|)) : ℚ) * 2 ^ (Int.log 2 |q| - 52)

theorem nearest_eq {q : ℚ} (hq : 0 ≤ q) :
    nearest q = (tiesToEven (q * 2 ^ (52 - Int.log 2 q)) : ℚ) * 2 ^ (Int.log 2 q - 52) := by
  rw [nearest, abs_of_nonneg hq]

theorem nearest_zero : nearest 0 = 0 := by
  have hzero : tiesToEven 0 = 0 := by exact_mod_cast tiesToEven_intCast 0
  rw [nearest, zero_mul, hzero, Int.cast_zero, zero_mul]

theorem two_zpow_nonneg (a : Int) : (0 : ℚ) ≤ 2 ^ a := (zpow_pos two_pos a).le

theorem two_zpow_mul (a b : Int) : (2 : ℚ) ^ a * 2 ^ b = 2 ^ (a + b) :=
  (zpow_add₀ two_ne_zero a b).symm

theorem unscale (n : ℚ) (e : Int) : n * 2 ^ (e - 52) * 2 ^ (52 - e) = n := by
  rw [mul_assoc, two_zpow_mul, sub_add_sub_cancel, sub_self, zpow_zero, mul_one]

/-- Nothing is rounded across a number that has the same exponent and fits. -/
theorem le_nearest {q : ℚ} (hq : 0 ≤ q) {n : Int} (h : (n : ℚ) * 2 ^ (Int.log 2 q - 52) ≤ q) :
    (n : ℚ) * 2 ^ (Int.log 2 q - 52) ≤ nearest q := by
  have hscaled := mul_le_mul_of_nonneg_right h (two_zpow_nonneg (52 - Int.log 2 q))
  rw [unscale] at hscaled
  have hround := tiesToEven_mono hscaled
  rw [tiesToEven_intCast] at hround
  rw [nearest_eq hq]
  exact mul_le_mul_of_nonneg_right (Int.cast_le.mpr hround) (two_zpow_nonneg _)

theorem nearest_le {q : ℚ} (hq : 0 ≤ q) {n : Int} (h : q ≤ (n : ℚ) * 2 ^ (Int.log 2 q - 52)) :
    nearest q ≤ (n : ℚ) * 2 ^ (Int.log 2 q - 52) := by
  have hscaled := mul_le_mul_of_nonneg_right h (two_zpow_nonneg (52 - Int.log 2 q))
  rw [unscale] at hscaled
  have hround := tiesToEven_mono hscaled
  rw [tiesToEven_intCast] at hround
  rw [nearest_eq hq]
  exact mul_le_mul_of_nonneg_right (Int.cast_le.mpr hround) (two_zpow_nonneg _)

theorem two_pow_mul_unit (k : Nat) (e : Int) :
    ((2 ^ k : Int) : ℚ) * 2 ^ (e - 52) = 2 ^ (e + k - 52) := by
  have hpow : ((2 ^ k : Int) : ℚ) = 2 ^ (k : Int) := by
    push_cast
    rw [zpow_natCast]
  rw [hpow, two_zpow_mul]
  congr 1
  omega

theorem zpow_log_le {q : ℚ} (hq : 0 < q) : (2 : ℚ) ^ Int.log 2 q ≤ q := by
  exact_mod_cast Int.zpow_log_le_self (b := 2) (by norm_num) hq

theorem zpow_log_le_nearest {q : ℚ} (hq : 0 < q) : (2 : ℚ) ^ Int.log 2 q ≤ nearest q := by
  have hunit := two_pow_mul_unit 52 (Int.log 2 q)
  rw [Nat.cast_ofNat, add_sub_cancel_right] at hunit
  rw [← hunit]
  refine le_nearest hq.le ?_
  rw [hunit]
  exact zpow_log_le hq

theorem nearest_le_zpow_log {q : ℚ} (hq : 0 < q) : nearest q ≤ (2 : ℚ) ^ (Int.log 2 q + 1) := by
  have hunit := two_pow_mul_unit 53 (Int.log 2 q)
  rw [show Int.log 2 q + ((53 : Nat) : Int) - 52 = Int.log 2 q + 1 by omega] at hunit
  rw [← hunit]
  refine nearest_le hq.le ?_
  rw [hunit]
  exact_mod_cast (Int.lt_zpow_succ_log_self (b := 2) (by norm_num) q).le

theorem nearest_mono {q q' : ℚ} (hq : 0 ≤ q) (h : q ≤ q') : nearest q ≤ nearest q' := by
  rcases hq.eq_or_lt with rfl | hpos
  · rcases h.eq_or_lt with rfl | hpos'
    · exact le_rfl
    · rw [nearest_zero]
      exact (two_zpow_nonneg _).trans (zpow_log_le_nearest hpos')
  rcases (Int.log_mono_right (b := 2) hpos h).lt_or_eq with hlt | heq
  · calc nearest q ≤ (2 : ℚ) ^ (Int.log 2 q + 1) := nearest_le_zpow_log hpos
      _ ≤ (2 : ℚ) ^ Int.log 2 q' := zpow_le_zpow_right₀ one_le_two hlt
      _ ≤ nearest q' := zpow_log_le_nearest (hpos.trans_le h)
  · rw [nearest_eq hq, nearest_eq (hq.trans h), heq]
    refine mul_le_mul_of_nonneg_right (Int.cast_le.mpr (tiesToEven_mono ?_)) (two_zpow_nonneg _)
    exact mul_le_mul_of_nonneg_right h (two_zpow_nonneg _)

theorem nearest_le_mul {q : ℚ} (hq : 0 ≤ q) : nearest q ≤ q * (1 + 1 / 2 ^ 53) := by
  rcases hq.eq_or_lt with rfl | hpos
  · rw [nearest_zero, zero_mul]
  have hunit : (2 : ℚ) ^ (Int.log 2 q - 52) = 2 ^ Int.log 2 q / 2 ^ 52 := by
    rw [zpow_sub₀ two_ne_zero]
    norm_num
  have hscale : (2 : ℚ) ^ (52 - Int.log 2 q) * 2 ^ (Int.log 2 q - 52) = 1 := by
    rw [two_zpow_mul, sub_add_sub_cancel, sub_self, zpow_zero]
  calc nearest q
      = (tiesToEven (q * 2 ^ (52 - Int.log 2 q)) : ℚ) * 2 ^ (Int.log 2 q - 52) := nearest_eq hq
    _ ≤ (q * 2 ^ (52 - Int.log 2 q) + 1 / 2) * 2 ^ (Int.log 2 q - 52) :=
        mul_le_mul_of_nonneg_right (tiesToEven_le_add_half _) (two_zpow_nonneg _)
    _ = q + 2 ^ Int.log 2 q / 2 ^ 53 := by
        rw [add_mul, mul_assoc, hscale, hunit]
        ring
    _ ≤ q * (1 + 1 / 2 ^ 53) := by
        have hle := zpow_log_le hpos
        linarith

theorem log_quarter_le {n : Nat} (hpos : 0 < n) (hn : n < 2 ^ 53) :
    Int.log 2 ((n : ℚ) / 4) ≤ 50 := by
  have hq : (0 : ℚ) < (n : ℚ) / 4 := by positivity
  have hn' : (n : ℚ) < 2 ^ 53 := by exact_mod_cast hn
  have hlt : (n : ℚ) / 4 < (2 : ℚ) ^ (51 : Int) :=
    calc (n : ℚ) / 4 < 2 ^ 53 / 4 := by linarith
      _ = (2 : ℚ) ^ (51 : Int) := by norm_num
  have hlog := (Int.lt_zpow_iff_log_lt (b := 2) (by norm_num) hq (x := 51)).mp
    (by exact_mod_cast hlt)
  omega

theorem nearest_quarter {n : Nat} (hn : n < 2 ^ 53) : nearest ((n : ℚ) / 4) = (n : ℚ) / 4 := by
  rcases Nat.eq_zero_or_pos n with rfl | hpos
  · rw [Nat.cast_zero, zero_div, nearest_zero]
  have hq : (0 : ℚ) ≤ (n : ℚ) / 4 := by positivity
  obtain ⟨k, hk⟩ : ∃ k : Nat, Int.log 2 ((n : ℚ) / 4) = 50 - (k : Int) :=
    ⟨(50 - Int.log 2 ((n : ℚ) / 4)).toNat, by have := log_quarter_le hpos hn; omega⟩
  have hfits : ((n * 2 ^ k : Int) : ℚ) * 2 ^ (Int.log 2 ((n : ℚ) / 4) - 52) = (n : ℚ) / 4 := by
    have hunit := two_pow_mul_unit k (50 - (k : Int))
    rw [sub_add_cancel, show (50 : Int) - 52 = -2 by norm_num] at hunit
    rw [hk, Int.cast_mul, mul_assoc, hunit]
    norm_num
    ring
  refine le_antisymm ?_ ?_
  · exact (nearest_le hq hfits.ge).trans hfits.le
  · exact hfits.ge.trans (le_nearest hq hfits.le)

/-- Rounding as of `float64`. -/
def float64 : Rounding where
  round := nearest
  mono := nearest_mono
  quarters := nearest_quarter
  error := nearest_le_mul

/-- The exact position is 8. -/
example : float64.position 15 22 11 = 7 := by decide +kernel

end Rounding
