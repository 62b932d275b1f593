import Mathlib.Data.List.Perm.Basic
import Mathlib.Order.Lattice

/-!
# Order statistics of a list

The value at a position of a list that is sorted from the largest to the smallest value
decides how many values reach a bound: the bound is at most the value at position
{lit}`k` exactly when more than {lit}`k` values reach it.

Main results:

- Theorem {lit}`le_getElem_sorted_iff`: the {lit}`k`-th largest value reaches a bound exactly
  when more than {lit}`k` values do.
-/

namespace NanoDB.Lib

variable {α : Type*} [LinearOrder α] {l sorted : List α} {k : Nat} {x N : α}

/-- If the value at a position reaches a bound, so do the values before it. -/
theorem lt_countP_of_le_getElem (hsorted : sorted.Pairwise (· ≥ ·)) (hk : sorted[k]? = some x)
    (hN : N ≤ x) : k < sorted.countP (fun y => decide (N ≤ y)) := by
  obtain ⟨hlt, hget⟩ := List.getElem?_eq_some_iff.mp hk
  have hall : ∀ y ∈ sorted.take (k + 1), decide (N ≤ y) = true := by
    intro y hy
    obtain ⟨j, hj, rfl⟩ := List.mem_iff_getElem.mp hy
    rw [List.length_take] at hj
    rw [List.getElem_take, decide_eq_true_eq]
    rcases Nat.lt_or_eq_of_le (show j ≤ k by omega) with hjk | rfl
    · have hge := List.pairwise_iff_getElem.mp hsorted j k (by omega) hlt hjk
      rw [hget] at hge
      exact le_trans hN hge
    · rwa [hget]
  calc k < (sorted.take (k + 1)).length := by
        rw [List.length_take]
        omega
    _ = (sorted.take (k + 1)).countP (fun y => decide (N ≤ y)) :=
        (List.countP_eq_length.mpr hall).symm
    _ ≤ sorted.countP (fun y => decide (N ≤ y)) := (List.take_sublist _ _).countP_le

/-- If the value at a position misses a bound, only values before it reach the bound. -/
theorem countP_le_of_getElem_lt (hsorted : sorted.Pairwise (· ≥ ·)) (hk : sorted[k]? = some x)
    (hN : x < N) : sorted.countP (fun y => decide (N ≤ y)) ≤ k := by
  obtain ⟨hlt, hget⟩ := List.getElem?_eq_some_iff.mp hk
  have hnone : (sorted.drop k).countP (fun y => decide (N ≤ y)) = 0 := by
    rw [List.countP_eq_zero]
    intro y hy
    obtain ⟨j, hj, rfl⟩ := List.mem_iff_getElem.mp hy
    rw [List.length_drop] at hj
    rw [List.getElem_drop, decide_eq_true_eq, not_le]
    rcases Nat.eq_zero_or_pos j with rfl | hpos
    · simpa [hget] using hN
    · have hge := List.pairwise_iff_getElem.mp hsorted k (k + j) hlt (by omega) (by omega)
      rw [hget] at hge
      exact lt_of_le_of_lt hge hN
  rw [← List.take_append_drop k sorted, List.countP_append, hnone, Nat.add_zero]
  exact Nat.le_trans List.countP_le_length (List.length_take_le _ _)

/-- The value at position {lit}`k` of the sorted list reaches a bound exactly when more than
{lit}`k` values of the list do. -/
theorem le_getElem_sorted_iff (hsorted : sorted.Pairwise (· ≥ ·)) (hperm : sorted.Perm l)
    (hk : sorted[k]? = some x) : N ≤ x ↔ k < l.countP (fun y => decide (N ≤ y)) := by
  rw [← hperm.countP_eq]
  constructor
  · exact lt_countP_of_le_getElem hsorted hk
  · intro hcount
    by_contra hN
    exact absurd (countP_le_of_getElem_lt hsorted hk (not_le.mp hN)) (by omega)

end NanoDB.Lib
