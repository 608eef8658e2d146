import Mathlib.Data.List.Lex
import Mathlib.Order.Lattice
import Mathlib.Tactic.Common

/-!
# Prefixes in the lexicographic order

The order compares the first elements, then the rest; a list is not below its prefixes.
-/

namespace LexPrefix

variable {α : Type*} [LinearOrder α] {a b : α} {p l l' : List α}

theorem nil_le (l : List α) : [] ≤ l := not_lt.mp (List.not_lt_nil l)

theorem cons_le_cons_iff : a :: l ≤ b :: l' ↔ a < b ∨ a = b ∧ l ≤ l' := by
  rw [← not_lt, ← not_lt, List.cons_lt_cons_iff, not_or, not_and]
  constructor
  · rintro ⟨hba, hll⟩
    rcases (not_lt.mp hba).lt_or_eq with hlt | heq
    · exact Or.inl hlt
    · exact Or.inr ⟨heq, hll heq.symm⟩
  · rintro (hlt | ⟨rfl, hll⟩)
    · exact ⟨hlt.not_gt, fun heq => absurd heq hlt.ne'⟩
    · exact ⟨lt_irrefl a, fun _ => hll⟩

theorem le_of_prefix (h : p <+: l) : p ≤ l := by
  induction p generalizing l with
  | nil => exact nil_le l
  | cons a p ih =>
      obtain ⟨rest, rfl⟩ := h
      exact cons_le_cons_iff.mpr (Or.inr ⟨rfl, ih (List.prefix_append p rest)⟩)

end LexPrefix
