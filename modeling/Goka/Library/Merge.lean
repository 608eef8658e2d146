import Mathlib.Data.List.Forall2
import Mathlib.Data.List.MinMax
import Mathlib.Data.List.Sort
import Mathlib.Order.Basic

/-!
# Merging ascending sequences

A priority queue holds elements whose priorities it is told at every operation; it is only asked to
be consistent as long as the priorities of the elements inside do not change. A list is a part of a
merge when it can be completed to an ascending arrangement of all elements.
-/

/-- Queues as lists in whatever layout the implementation keeps. `Ordered` is the implementation's
own invariant: it may speak of the priorities of the elements inside and of nothing else. -/
structure PriorityQueue (α κ : Type) [LinearOrder κ] where
  push : (α → κ) → List α → α → List α
  pop : (α → κ) → List α → Option (α × List α)
  Ordered : (α → κ) → List α → Prop
  ordered_nil : ∀ priority, Ordered priority []
  ordered_congr : ∀ {priority priority' : α → κ} {queue : List α},
    (∀ a ∈ queue, priority a = priority' a) → Ordered priority queue → Ordered priority' queue
  push_perm : ∀ priority queue a, (push priority queue a).Perm (a :: queue)
  push_ordered : ∀ {priority : α → κ} {queue : List α} (a : α),
    Ordered priority queue → Ordered priority (push priority queue a)
  pop_of_ne_nil : ∀ {priority : α → κ} {queue : List α}, queue ≠ [] → Ordered priority queue →
    ∃ a rest, pop priority queue = some (a, rest) ∧ queue.Perm (a :: rest) ∧
      (∀ b ∈ queue, priority a ≤ priority b) ∧ Ordered priority rest

namespace PriorityQueue

variable {α κ : Type} [LinearOrder κ]

/-- A queue that looks through all its elements. -/
def scan [DecidableEq α] : PriorityQueue α κ where
  push _ queue a := queue ++ [a]
  pop priority queue := (queue.argmin priority).map fun a => (a, queue.erase a)
  Ordered _ _ := True
  ordered_nil _ := trivial
  ordered_congr _ h := h
  push_perm _ _ _ := List.perm_append_singleton ..
  push_ordered _ h := h
  pop_of_ne_nil := by
    intro priority queue hne _
    have hsome : queue.argmin priority ≠ none := mt List.argmin_eq_none.mp hne
    obtain ⟨a, ha⟩ := Option.ne_none_iff_exists'.mp hsome
    refine ⟨a, queue.erase a, by rw [ha]; rfl, List.perm_cons_erase (List.argmin_mem ha), ?_,
      trivial⟩
    exact fun b hb => List.le_of_mem_argmin hb ha

end PriorityQueue

namespace Merge

variable {α κ : Type} [LinearOrder κ] (priority : α → κ)

def Ascending (l : List α) : Prop := l.Pairwise fun a b => priority a ≤ priority b

/-- `part` is the beginning of an ascending arrangement of all elements. -/
def PrefixOf (part all : List α) : Prop :=
  ∃ rest, Ascending priority (part ++ rest) ∧ (part ++ rest).Perm all

variable {priority} {part rest all : List α}

/-- What is ascending and below the rest can be completed by sorting the rest. -/
theorem prefixOf_of_le (hpart : Ascending priority part)
    (hle : ∀ a ∈ part, ∀ b ∈ rest, priority a ≤ priority b) (hall : (part ++ rest).Perm all) :
    PrefixOf priority part all := by
  have hsort := List.perm_insertionSort (fun a b => priority a ≤ priority b) rest
  have htrans : IsTrans α fun a b => priority a ≤ priority b := ⟨fun _ _ _ => le_trans⟩
  have htotal : Std.Total fun a b : α => priority a ≤ priority b := ⟨fun _ _ => le_total _ _⟩
  refine ⟨rest.insertionSort fun a b => priority a ≤ priority b, ?_, ?_⟩
  · refine List.pairwise_append.mpr ⟨hpart, List.pairwise_insertionSort _ rest, ?_⟩
    exact fun a ha b hb => hle a ha b (hsort.mem_iff.mp hb)
  · exact (hsort.append_left part).trans hall

theorem prefixOf_nil (all : List α) : PrefixOf priority [] all :=
  prefixOf_of_le List.Pairwise.nil nofun (List.Perm.refl all)

/-- In an ascending list, dropping the elements below a bound leaves those at or above it. -/
theorem dropWhile_eq_filter {l : List α} (hl : Ascending priority l) (bound : κ) :
    (l.dropWhile fun a => priority a < bound) = l.filter fun a => decide (bound ≤ priority a) := by
  induction l with
  | nil => rfl
  | cons a l ih =>
      obtain ⟨hle, hl⟩ := List.pairwise_cons.mp hl
      by_cases ha : priority a < bound
      · rw [List.dropWhile_cons_of_pos (by simpa using ha), ih hl,
          List.filter_cons_of_neg (by simpa using ha)]
      · rw [List.dropWhile_cons_of_neg (by simpa using ha), eq_comm, List.filter_eq_self]
        intro b hb
        rcases List.mem_cons.mp hb with rfl | hb
        · simpa using ha
        · simpa using (not_lt.mp ha).trans (hle b hb)

/-- One of the sequences is replaced. -/
theorem forall₂_set {β : Type} {R : β → β → Prop} (hrefl : ∀ b, R b b) {l : List β} {i : Nat}
    {b b' : β} (hb : l[i]? = some b) (hR : R b b') : List.Forall₂ R l (l.set i b') := by
  induction l generalizing i with
  | nil => exact .nil
  | cons first l ih =>
      cases i with
      | zero =>
          obtain rfl : first = b := by simpa using hb
          exact .cons hR (List.forall₂_same.mpr fun b _ => hrefl b)
      | succ i => exact .cons (hrefl first) (ih (by simpa using hb))

theorem map_of_forall₂ {β γ : Type} {f : β → γ} {l l' : List β}
    (h : List.Forall₂ (fun b b' => f b' = f b) l l') : l'.map f = l.map f := by
  induction h with
  | nil => rfl
  | cons hf _ ih => rw [List.map_cons, List.map_cons, hf, ih]

theorem forall_mem_of_forall₂ {β : Type} {P : β → Prop} {l l' : List β}
    (h : List.Forall₂ (fun b b' => P b → P b') l l') (hl : ∀ b ∈ l, P b) : ∀ b ∈ l', P b := by
  induction h with
  | nil => exact hl
  | cons hP _ ih =>
      obtain ⟨hfirst, hrest⟩ := List.forall_mem_cons.mp hl
      exact List.forall_mem_cons.mpr ⟨hP hfirst, ih hrest⟩

/-- One of the sequences gives up its head. -/
theorem perm_flatMap_set {β : Type} {f : β → List α} {l : List β} {i : Nat} {b b' : β} {a : α}
    (hb : l[i]? = some b) (hf : f b = a :: f b') :
    (l.flatMap f).Perm (a :: (l.set i b').flatMap f) := by
  induction l generalizing i with
  | nil => simp at hb
  | cons first l ih =>
      cases i with
      | zero =>
          obtain rfl : first = b := by simpa using hb
          rw [List.set_cons_zero, List.flatMap_cons, List.flatMap_cons, hf]
          exact List.Perm.refl _
      | succ i =>
          have htail := ih (by simpa using hb)
          rw [List.set_cons_succ, List.flatMap_cons, List.flatMap_cons]
          exact (htail.append_left (f first)).trans List.perm_middle

end Merge
