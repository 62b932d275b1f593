import Mathlib.Order.Bounds.Defs
import NanoDB.Lib.OrderStatistic
import NanoDB.Raft.Node

/-!
# The commit rule

{lit}`compute_new_commit_index` looks at one value only: the one at position
{lit}`majority - 1` of the match indices, sorted from the largest to the smallest.  A strict
majority has reached an index exactly when that value has, so this one candidate stands
for all indices that may be committed, as long as the terms of the log do not decrease.

Main results:

- Theorem {lit}`computeNewCommitIndex_gt`: the rule moves only to an index that a majority
  reached and whose entry is of the leader's own term.
- Theorem {lit}`computeNewCommitIndex_spec`: it moves to the largest such index, and stays
  when there is none.
-/

namespace NanoDB.Raft

open Lib

/-- A count reaches the majority exactly when it is more than half of the cluster. -/
theorem majority_le_iff {clusterSize count : Nat} :
    majority clusterSize ≤ count ↔ clusterSize < 2 * count := by
  unfold majority
  omega

section Rule

variable (leaderLastIndex : Nat) (matchIndex : List (Int × Nat))

/-- The match indices that the rule sorts: the leader counts with its whole log. -/
def matchValues : List Nat :=
  leaderLastIndex :: matchIndex.map (·.2)

/-- The abstract rule: an index above the commit index may be committed when its entry is of
the current term and a strict majority of the cluster, leader included, has reached it. -/
def Committable (clusterSize currentCommitIndex currentTerm : Nat) (termAt : Nat → Nat)
    (N : Nat) : Prop :=
  currentCommitIndex < N ∧ termAt N = currentTerm ∧
    clusterSize < 2 * (matchValues leaderLastIndex matchIndex).countP (N ≤ ·)

variable {leaderLastIndex matchIndex}
  {clusterSize currentCommitIndex currentTerm : Nat} {termAt : Nat → Nat}

/-- The value that the rule inspects decides for every index whether a majority reached it. -/
theorem le_candidate_iff {candidate N : Nat}
    (h : ((matchValues leaderLastIndex matchIndex).insertionSort
      (· ≥ ·))[majority clusterSize - 1]? = some candidate) :
    N ≤ candidate ↔
      clusterSize < 2 * (matchValues leaderLastIndex matchIndex).countP (N ≤ ·) := by
  rw [← majority_le_iff]
  have hpos : 0 < majority clusterSize := Nat.succ_pos _
  have hiff := le_getElem_sorted_iff (N := N)
    (List.pairwise_insertionSort (· ≥ ·) (matchValues leaderLastIndex matchIndex))
    (List.perm_insertionSort _ _) h
  rw [hiff]
  omega

/-- The commit rule moves only to a value that a majority of the counted nodes
reached, and only in the leader's own term. -/
theorem computeNewCommitIndex_gt {N : Nat}
    (h : computeNewCommitIndex leaderLastIndex matchIndex clusterSize currentCommitIndex currentTerm
      termAt = N) (hgt : currentCommitIndex < N) :
    termAt N = currentTerm ∧ N ∈ leaderLastIndex :: matchIndex.map (·.2) ∧
      majority clusterSize ≤ (leaderLastIndex :: matchIndex.map (·.2)).countP (N ≤ ·) := by
  unfold computeNewCommitIndex at h
  dsimp only at h
  split_ifs at h with hcond
  · have hget : ((matchValues leaderLastIndex matchIndex).insertionSort
        (· ≥ ·))[majority clusterSize - 1]? = some N := by
      change ((matchValues leaderLastIndex matchIndex).insertionSort
        (· ≥ ·))[majority clusterSize - 1]?.getD 0 = N at h
      cases hv : ((matchValues leaderLastIndex matchIndex).insertionSort
          (· ≥ ·))[majority clusterSize - 1]? with
      | none =>
          rw [hv, Option.getD_none] at h
          omega
      | some x =>
          rw [hv] at h
          exact congrArg some h
    have hperm := List.perm_insertionSort (· ≥ ·) (matchValues leaderLastIndex matchIndex)
    refine ⟨h ▸ hcond.2, hperm.subset (List.mem_of_getElem? hget), ?_⟩
    exact majority_le_iff.mpr ((le_candidate_iff hget).mp le_rfl)
  · omega

/-- With one match index for every other node the inspected position exists. -/
theorem exists_candidate (leaderLastIndex : Nat) (hsize : matchIndex.length + 1 = clusterSize) :
    ∃ candidate, ((matchValues leaderLastIndex matchIndex).insertionSort
      (· ≥ ·))[majority clusterSize - 1]? = some candidate := by
  have hlt : majority clusterSize - 1 <
      ((matchValues leaderLastIndex matchIndex).insertionSort (· ≥ ·)).length := by
    rw [List.length_insertionSort, matchValues, List.length_cons, List.length_map]
    unfold majority
    omega
  exact ⟨_, List.getElem?_eq_getElem hlt⟩

/-- The rule returns the largest index that may be committed, and the current commit index
when there is none. -/
theorem computeNewCommitIndex_spec (hsize : matchIndex.length + 1 = clusterSize)
    (hmatch : ∀ item ∈ matchIndex, item.2 ≤ leaderLastIndex)
    (hmono : ∀ i j, 1 ≤ i → i ≤ j → j ≤ leaderLastIndex → termAt i ≤ termAt j)
    (hterm : ∀ i, 1 ≤ i → i ≤ leaderLastIndex → termAt i ≤ currentTerm)
    (currentCommitIndex : Nat) :
    IsGreatest
        {N | Committable leaderLastIndex matchIndex clusterSize currentCommitIndex currentTerm
          termAt N}
        (computeNewCommitIndex leaderLastIndex matchIndex clusterSize currentCommitIndex
          currentTerm termAt) ∨
      ((∀ N, ¬ Committable leaderLastIndex matchIndex clusterSize currentCommitIndex currentTerm
          termAt N) ∧
        computeNewCommitIndex leaderLastIndex matchIndex clusterSize currentCommitIndex
          currentTerm termAt = currentCommitIndex) := by
  obtain ⟨candidate, hget⟩ := exists_candidate leaderLastIndex hsize
  have hreached : ∀ {N}, Committable leaderLastIndex matchIndex clusterSize currentCommitIndex
      currentTerm termAt N → N ≤ candidate := fun h => (le_candidate_iff hget).mpr h.2.2
  -- the candidate is one of the match indices, so it lies in the leader's log
  have hlast : candidate ≤ leaderLastIndex := by
    have hmem := (List.perm_insertionSort (· ≥ ·) (matchValues leaderLastIndex matchIndex)).subset
      (List.mem_of_getElem? hget)
    rcases List.mem_cons.mp hmem with rfl | hmem
    · exact le_rfl
    · obtain ⟨item, hitem, rfl⟩ := List.mem_map.mp hmem
      exact hmatch item hitem
  have hrule : computeNewCommitIndex leaderLastIndex matchIndex clusterSize currentCommitIndex
      currentTerm termAt =
        if candidate > currentCommitIndex ∧ termAt candidate = currentTerm then candidate
        else currentCommitIndex := by
    unfold matchValues at hget
    simp only [computeNewCommitIndex, hget, Option.getD_some]
  rw [hrule]
  split_ifs with hcond
  · left
    exact ⟨⟨hcond.1, hcond.2, (le_candidate_iff hget).mp le_rfl⟩, fun N hN => hreached hN⟩
  · right
    refine ⟨fun N hN => hcond ?_, rfl⟩
    have hle := hreached hN
    have hpos : 1 ≤ N := Nat.one_le_iff_ne_zero.mpr (Nat.ne_zero_of_lt hN.1)
    have hgt : candidate > currentCommitIndex := lt_of_lt_of_le hN.1 hle
    -- terms between the committable index and the candidate cannot differ
    have hge := hmono N candidate hpos hle hlast
    have hbound := hterm candidate (by omega) hlast
    rw [hN.2.1] at hge
    exact ⟨hgt, Nat.le_antisymm hbound hge⟩

end Rule

/-- Five nodes, the leader in term 4 with an entry of term 2 before its own: index 2, reached
by two followers, is the largest that may be committed. -/
theorem computeNewCommitIndex_spec_figureEight :
    IsGreatest
        {N | Committable 2 [(2, 2), (3, 2), (4, 0), (5, 0)] 5 0 4
          (fun i => if i = 1 then 2 else 4) N}
        (computeNewCommitIndex 2 [(2, 2), (3, 2), (4, 0), (5, 0)] 5 0 4
          (fun i => if i = 1 then 2 else 4)) ∧
      computeNewCommitIndex 2 [(2, 2), (3, 2), (4, 0), (5, 0)] 5 0 4
        (fun i => if i = 1 then 2 else 4) = 2 := by
  have hvalue : computeNewCommitIndex 2 [(2, 2), (3, 2), (4, 0), (5, 0)] 5 0 4
      (fun i => if i = 1 then 2 else 4) = 2 := by decide
  refine ⟨?_, hvalue⟩
  have hmono : ∀ i j, 1 ≤ i → i ≤ j → j ≤ 2 →
      (if i = 1 then 2 else 4) ≤ (if j = 1 then 2 else 4) := by
    intro i j _ _ _
    split_ifs <;> omega
  have hterm : ∀ i, 1 ≤ i → i ≤ 2 → (if i = 1 then 2 else 4) ≤ 4 := by
    intro i _ _
    split_ifs <;> omega
  rcases @computeNewCommitIndex_spec 2 [(2, 2), (3, 2), (4, 0), (5, 0)] 5 4
      (fun i => if i = 1 then 2 else 4) rfl (by decide) hmono hterm 0 with h | h
  · exact h
  · rw [hvalue] at h
    exact absurd h.2 (by decide)

end NanoDB.Raft
