import Mathlib.Algebra.BigOperators.Group.List.Basic
import Mathlib.Algebra.Order.Ring.Nat
import Mathlib.Data.List.Basic
import Mathlib.Tactic.Common

/-!
# Threads in a list

Threads are numbered in the order in which they were started, and a step moves one of them.
-/

namespace Threads

variable {α : Type*} {l : List α} {i : Nat} {a b : α}

/-- How a count changes when one thread moves. -/
theorem countP_set_add (p : α → Bool) (h : l[i]? = some b) :
    (l.set i a).countP p + (if p b then 1 else 0) = l.countP p + if p a then 1 else 0 := by
  induction l generalizing i with
  | nil => simp at h
  | cons first l ih =>
      cases i with
      | zero =>
          obtain rfl : first = b := by simpa using h
          rw [List.set_cons_zero, List.countP_cons, List.countP_cons]
          omega
      | succ i =>
          have hrest := ih (by simpa using h)
          rw [List.set_cons_succ, List.countP_cons, List.countP_cons]
          omega

/-- How a sum changes when one thread moves. -/
theorem sum_map_set_add (f : α → Nat) (h : l[i]? = some b) :
    ((l.set i a).map f).sum + f b = (l.map f).sum + f a := by
  induction l generalizing i with
  | nil => simp at h
  | cons first l ih =>
      cases i with
      | zero =>
          obtain rfl : first = b := by simpa using h
          rw [List.set_cons_zero, List.map_cons, List.map_cons, List.sum_cons, List.sum_cons]
          omega
      | succ i =>
          have hrest := ih (by simpa using h)
          rw [List.set_cons_succ, List.map_cons, List.map_cons, List.sum_cons, List.sum_cons]
          omega

theorem filterMap_cons_eq {β : Type*} (f : α → Option β) (a : α) (l : List α) :
    (a :: l).filterMap f = (f a).toList ++ l.filterMap f := by
  rw [List.filterMap_cons]
  cases f a <;> rfl

/-- How the results of the threads change when one of them moves. -/
theorem filterMap_set_perm {β : Type*} (f : α → Option β) (h : l[i]? = some b) :
    ((l.set i a).filterMap f ++ (f b).toList).Perm (l.filterMap f ++ (f a).toList) := by
  induction l generalizing i with
  | nil => simp at h
  | cons first l ih =>
      cases i with
      | zero =>
          obtain rfl : first = b := by simpa using h
          rw [List.set_cons_zero, filterMap_cons_eq, filterMap_cons_eq, List.append_assoc]
          exact List.perm_append_comm.trans (List.perm_append_comm.append_right _)
      | succ i =>
          rw [List.set_cons_succ, filterMap_cons_eq, filterMap_cons_eq, List.append_assoc,
            List.append_assoc]
          exact (ih (by simpa using h)).append_left _

theorem forall_mem_set {P : α → Prop} (hl : ∀ b ∈ l, P b) (ha : P a) : ∀ b ∈ l.set i a, P b := by
  intro b hb
  rcases List.mem_or_eq_of_mem_set hb with hb | rfl
  · exact hl b hb
  · exact ha

theorem mem_set_cases (h : b ∈ l.set i a) : b = a ∨ ∃ j, j ≠ i ∧ l[j]? = some b := by
  obtain ⟨j, hj⟩ := List.mem_iff_getElem?.mp h
  rcases eq_or_ne j i with rfl | hne
  · rw [List.getElem?_set_self'] at hj
    obtain ⟨_, -, rfl⟩ := Option.map_eq_some_iff.mp hj
    exact .inl rfl
  · rw [List.getElem?_set_ne hne.symm] at hj
    exact .inr ⟨j, hne, hj⟩

/-- What held of the thread before it moved holds of all exactly when it holds of the thread now and
held of all before. -/
theorem forall_mem_set_iff {P : α → Prop} (h : l[i]? = some b) (hb : P b) :
    (∀ c ∈ l.set i a, P c) ↔ P a ∧ ∀ c ∈ l, P c := by
  constructor
  · intro hset
    refine ⟨hset a (List.mem_set (List.getElem?_eq_some_iff.mp h).1 a), fun c hc => ?_⟩
    obtain ⟨j, hj⟩ := List.mem_iff_getElem?.mp hc
    rcases eq_or_ne j i with rfl | hne
    · obtain rfl := Option.some.inj (h.symm.trans hj)
      exact hb
    · rw [← List.getElem?_set_ne hne.symm] at hj
      exact hset c (List.mem_of_getElem? hj)
  · exact fun ⟨ha, hl⟩ => forall_mem_set hl ha

/-- A part of the threads that the move leaves as it was. -/
theorem map_set_of_eq {β : Type*} {f : α → β} (h : l[i]? = some b) (hf : f a = f b) :
    (l.set i a).map f = l.map f := by
  obtain ⟨hlt, rfl⟩ := List.getElem?_eq_some_iff.mp h
  rw [List.map_set, hf, ← List.map_set, List.set_getElem_self]

theorem set_eq_self (h : l[i]? = some b) : l.set i b = l := by
  obtain ⟨hlt, rfl⟩ := List.getElem?_eq_some_iff.mp h
  exact List.set_getElem_self hlt

/-- What holds of the thread that moved, and of all others as before. -/
theorem forall_getElem?_set {P : Nat → α → Prop} (hi : P i a)
    (hl : ∀ j b, j ≠ i → l[j]? = some b → P j b) : ∀ j b, (l.set i a)[j]? = some b → P j b := by
  intro j b hb
  rcases eq_or_ne j i with rfl | hne
  · rw [List.getElem?_set_self'] at hb
    obtain ⟨_, -, rfl⟩ := Option.map_eq_some_iff.mp hb
    exact hi
  · rw [List.getElem?_set_ne hne.symm] at hb
    exact hl j b hne hb

/-- What holds of a new thread, and of all others as before. -/
theorem forall_getElem?_concat {P : Nat → α → Prop} (hnew : P l.length a)
    (hl : ∀ j b, l[j]? = some b → P j b) : ∀ j b, (l ++ [a])[j]? = some b → P j b := by
  intro j b hb
  rcases Nat.lt_trichotomy j l.length with hlt | rfl | hlt
  · rw [List.getElem?_append_left hlt] at hb
    exact hl j b hb
  · rw [List.getElem?_concat_length] at hb
    obtain rfl := Option.some.inj hb
    exact hnew
  · rw [List.getElem?_eq_none (by rw [List.length_append]; exact hlt)] at hb
    exact absurd hb.symm (Option.some_ne_none b)

end Threads
