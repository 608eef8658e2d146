import Mathlib.Data.List.Basic
import Mathlib.Tactic.Common

/-!
# Numbered names

A name made of a text, a dash and a number determines both: the digits of the number have no dash in
them, so what stands behind the last dash is the number.
-/

namespace Names

section Separator

variable {α : Type*} [DecidableEq α] {front front' back back' : List α} {sep : α}

theorem takeWhile_reverse_append_cons (h : sep ∉ back) :
    (front ++ sep :: back).reverse.takeWhile (· ≠ sep) = back.reverse := by
  have hback : ∀ a ∈ back.reverse, decide (a ≠ sep) = true := by
    intro a ha
    have hmem := List.mem_reverse.mp ha
    exact decide_eq_true fun heq => h (heq ▸ hmem)
  rw [List.reverse_append, List.reverse_cons, List.append_assoc, List.takeWhile_append_of_pos hback]
  simp

/-- What stands behind the last separator is determined. -/
theorem append_cons_inj (hback : sep ∉ back) (hback' : sep ∉ back')
    (h : front ++ sep :: back = front' ++ sep :: back') : front = front' ∧ back = back' := by
  have hsame : back = back' := by
    apply List.reverse_injective
    rw [← takeWhile_reverse_append_cons hback, h, takeWhile_reverse_append_cons hback']
  subst hsame
  exact ⟨List.append_cancel_right h, rfl⟩

end Separator

theorem toList_numbered (text : String) (n : Nat) :
    (text ++ "-" ++ toString n).toList = text.toList ++ '-' :: Nat.toDigits 10 n := by
  have hdigits : (toString n).toList = Nat.toDigits 10 n := Nat.toList_repr
  rw [String.toList_append, String.toList_append, hdigits, List.append_assoc]
  rfl

theorem dash_notMem_toDigits (n : Nat) : '-' ∉ Nat.toDigits 10 n := by
  intro h
  exact absurd (Nat.isDigit_of_mem_toDigits (by decide) (by decide) h) (by decide)

theorem numbered_inj {text text' : String} {n n' : Nat} :
    text ++ "-" ++ toString n = text' ++ "-" ++ toString n' ↔ text = text' ∧ n = n' := by
  constructor
  · intro h
    have hlist := congrArg String.toList h
    rw [toList_numbered, toList_numbered] at hlist
    obtain ⟨htext, hdigits⟩ :=
      append_cons_inj (dash_notMem_toDigits n) (dash_notMem_toDigits n') hlist
    refine ⟨String.toList_inj.mp htext, ?_⟩
    rw [← Nat.ofDigitChars_ten_toDigits (n := n), hdigits, Nat.ofDigitChars_ten_toDigits]
  · rintro ⟨rfl, rfl⟩
    rfl

end Names
