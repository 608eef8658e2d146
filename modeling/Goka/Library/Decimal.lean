import Mathlib.Data.Nat.Digits.Lemmas
import Mathlib.Tactic.Common

/-!
# Signed decimal numerals in bytes

Writing an integer in base ten as ASCII bytes and reading it back into a signed type of a given
number of bits. Reading is strict: an optional sign, then at least one digit and nothing else.
-/

namespace Decimal

def digit (d : Nat) : UInt8 := UInt8.ofNat (48 + d)

def formatNat (n : Nat) : List UInt8 :=
  if n = 0 then [digit 0] else (Nat.digits 10 n).reverse.map digit

def format (v : Int) : List UInt8 :=
  if v < 0 then 45 :: formatNat v.natAbs else formatNat v.natAbs

inductive ParseError where
  | invalidSyntax
  | outOfRange
  deriving Repr, DecidableEq

def parseDigits (bits : Nat) : Nat → List UInt8 → Except ParseError Nat
  | acc, [] => .ok acc
  | acc, b :: rest =>
      if b < 48 ∨ 57 < b then
        .error .invalidSyntax
      else if 2 ^ bits ≤ acc * 10 + (b.toNat - 48) then
        .error .outOfRange
      else
        parseDigits bits (acc * 10 + (b.toNat - 48)) rest

def parseNat (bits : Nat) : List UInt8 → Except ParseError Nat
  | [] => .error .invalidSyntax
  | b :: rest => parseDigits bits 0 (b :: rest)

def parse (bits : Nat) (text : List UInt8) : Except ParseError Int :=
  let negative := text.head? = some 45
  let unsigned := if text.head? = some 43 ∨ negative then text.drop 1 else text
  match parseNat bits unsigned with
  | .error err => .error err
  | .ok n =>
      if negative then
        if 2 ^ (bits - 1) < n then .error .outOfRange else .ok (-n)
      else
        if 2 ^ (bits - 1) ≤ n then .error .outOfRange else .ok n

variable {n d : Nat} {v : Int}

theorem toNat_digit (hd : d < 10) : (digit d).toNat = 48 + d :=
  UInt8.toNat_ofNat_of_lt (by simp only [UInt8.size]; omega)

theorem digit_range (hd : d < 10) : ¬ (digit d < 48 ∨ 57 < digit d) := by
  have hvalue := toNat_digit hd
  rw [UInt8.lt_iff_toNat_lt, UInt8.lt_iff_toNat_lt, hvalue]
  simp only [UInt8.reduceToNat]
  omega

/-- Reading digits is Horner's rule as long as the value stays within the type. -/
theorem parseDigits_map_digit (bits : Nat) {digits : List Nat} (hdigits : ∀ d ∈ digits, d < 10)
    (acc : Nat)
    (hfits : digits.foldl (fun acc d => acc * 10 + d) acc < 2 ^ bits) :
    parseDigits bits acc (digits.map digit)
      = .ok (digits.foldl (fun acc d => acc * 10 + d) acc) := by
  induction digits generalizing acc with
  | nil => rfl
  | cons d digits ih =>
      have hd := hdigits d (List.mem_cons_self ..)
      have hvalue : (digit d).toNat - 48 = d := by rw [toNat_digit hd]; omega
      have hgrow : ∀ (digits : List Nat) (acc : Nat),
          acc ≤ digits.foldl (fun acc d => acc * 10 + d) acc := by
        intro digits
        induction digits with
        | nil => exact fun _ => le_rfl
        | cons d digits ih =>
            intro acc
            have := ih (acc * 10 + d)
            simp only [List.foldl_cons]
            omega
      rw [List.foldl_cons] at hfits ⊢
      have hbound := hgrow digits (acc * 10 + d)
      rw [List.map_cons, parseDigits, if_neg (digit_range hd), hvalue, if_neg (by omega)]
      exact ih (fun d hd => hdigits d (List.mem_cons_of_mem _ hd)) _ hfits

theorem foldl_reverse_digits (n : Nat) :
    (Nat.digits 10 n).reverse.foldl (fun acc d => acc * 10 + d) 0 = n := by
  rw [List.foldl_reverse]
  conv_rhs => rw [← Nat.ofDigits_digits 10 n, Nat.ofDigits_eq_foldr]
  congr 1
  funext d acc
  simp only [Nat.cast_id]
  ring

theorem parseNat_formatNat (bits : Nat) (hfits : n < 2 ^ bits) :
    parseNat bits (formatNat n) = .ok n := by
  by_cases hn : n = 0
  · subst hn
    have hone : (0 : Nat) < 2 ^ bits := hfits
    have hdigits : ∀ d ∈ [0], d < 10 := by simp
    have hzero := parseDigits_map_digit bits hdigits 0 hone
    simpa [formatNat, parseNat] using hzero
  · have hdigits : ∀ d ∈ (Nat.digits 10 n).reverse, d < 10 := fun d hd =>
      Nat.digits_lt_base (by omega) (List.mem_reverse.mp hd)
    have hparse := parseDigits_map_digit bits hdigits 0
      (by rw [foldl_reverse_digits]; exact hfits)
    rw [foldl_reverse_digits] at hparse
    have hne : (Nat.digits 10 n).reverse.map digit ≠ [] := by
      simpa using Nat.digits_ne_nil_iff_ne_zero.mpr hn
    rw [formatNat, if_neg hn]
    cases htext : (Nat.digits 10 n).reverse.map digit with
    | nil => exact absurd htext hne
    | cons b rest => rw [parseNat, ← htext, hparse]

theorem head_formatNat (n : Nat) :
    ∃ d < 10, (formatNat n).head? = some (digit d) := by
  by_cases hn : n = 0
  · exact ⟨0, by omega, by simp [formatNat, hn]⟩
  · have hne : Nat.digits 10 n ≠ [] := Nat.digits_ne_nil_iff_ne_zero.mpr hn
    refine ⟨(Nat.digits 10 n).getLast hne, Nat.digits_lt_base (by omega) (List.getLast_mem hne), ?_⟩
    simp [formatNat, hn, List.getLast?_eq_some_getLast hne]

theorem digit_ne_sign (hd : d < 10) : digit d ≠ 43 ∧ digit d ≠ 45 := by
  have hvalue := toNat_digit hd
  constructor <;>
    · intro heq
      rw [heq] at hvalue
      simp only [UInt8.reduceToNat] at hvalue
      omega

/-- What is written is read back, over the whole range of the signed type. -/
theorem parse_format {bits : Nat} (hbits : 0 < bits) (hlow : -2 ^ (bits - 1) ≤ v)
    (hhigh : v < 2 ^ (bits - 1)) :
    parse bits (format v) = .ok v := by
  have hhalf : (2 : Nat) ^ (bits - 1) < 2 ^ bits := Nat.pow_lt_pow_right (by omega) (by omega)
  have hlow' : v.natAbs ≤ 2 ^ (bits - 1) ∨ 0 ≤ v := by
    by_cases hneg : 0 ≤ v
    · exact Or.inr hneg
    · left
      zify
      rw [abs_of_nonpos (by omega)]
      omega
  have hhigh' : 0 ≤ v → v.natAbs < 2 ^ (bits - 1) := by
    intro hpos
    zify
    rw [abs_of_nonneg hpos]
    exact hhigh
  by_cases hneg : v < 0
  · have hle : v.natAbs ≤ 2 ^ (bits - 1) := hlow'.resolve_right (by omega)
    have hparse := parseNat_formatNat bits (n := v.natAbs) (by omega)
    simp only [format, if_pos hneg, parse, List.head?_cons, List.drop_succ_cons, List.drop_zero,
      or_true, if_true, hparse]
    rw [if_neg (by omega)]
    congr 1
    omega
  · have hlt := hhigh' (by omega)
    have hparse := parseNat_formatNat bits (n := v.natAbs) (by omega)
    obtain ⟨d, hd, hhead⟩ := head_formatNat v.natAbs
    obtain ⟨hplus, hminus⟩ := digit_ne_sign hd
    simp only [format, if_neg hneg, parse, hhead, Option.some.injEq, hplus, hminus, or_self,
      if_false, hparse]
    rw [if_neg (by omega)]
    congr 1
    omega

end Decimal
