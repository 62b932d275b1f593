import NanoDB.Index.Distance
import NanoDB.Index.Growth
import NanoDB.Lib.Scan

/-!
# A full neighbour list

When the list of a node is full, {lit}`add_link` looks for the farthest member and puts the new
node in its place if that is closer.  The scan for the maximum starts from {lit}`-1`.  Exact
squared Euclidean and cosine distances are above it; distances by inner product need not be, and
neither need a cosine in floats.  If none of them is, no member is found and the list stays.

Main results:

- Theorem {lit}`full_list_keeps_closest_iff`: when {lit}`add_link` keeps the closest.
- Theorem {lit}`full_list_keeps_closest`: under the other two metrics, in exact arithmetic with an
  exact square root, it always does, for a node that has a lock.
-/

namespace NanoDB.Index.HNSW

open NanoDB.Lib

section Scan

variable {V δ : Type*} [Zero V] [Preorder δ] [DecidableLT δ] (m : Metric V δ) (h : HNSW V)

/-- The distance of a node from a vector. -/
def distanceTo (vector : V) (n : Nat) : δ :=
  m.dist vector (h.getNode n).vector

theorem farthestNeighbor_eq_scanMax (vector : V) (list : List Nat) :
    h.farthestNeighbor m vector list =
      scanMax (h.distanceTo m vector) 0 (none, m.minusOne) list :=
  rfl

variable {m h} {src dest layer : Nat}

theorem addLink_of_no_lock (hlock : ¬ src < h.nodeLocks) : h.addLink m src dest layer = h := by
  rw [addLink, if_pos (Nat.not_lt.mp hlock)]

/-- {lit}`add_link` on a full list is decided by the scan. -/
theorem neighbors_addLink_full (hlock : src < h.nodeLocks)
    (hfull : maxConn layer ≤ (h.neighbors src layer).length) :
    (h.addLink m src dest layer).neighbors src layer =
      match scanMax (h.distanceTo m (h.getNode src).vector) 0 (none, m.minusOne)
        (h.neighbors src layer) with
      | (none, _) => h.neighbors src layer
      | (some i, maxD) =>
          if h.distanceTo m (h.getNode src).vector dest < maxD then
            (h.neighbors src layer).set i dest
          else h.neighbors src layer := by
  rw [addLink, if_neg (Nat.not_le.mpr hlock)]
  dsimp only
  rw [if_neg (Nat.not_lt.mpr hfull), farthestNeighbor_eq_scanMax]
  generalize scanMax (h.distanceTo m (h.getNode src).vector) 0 (none, m.minusOne)
    (h.neighbors src layer) = worst
  rcases worst with ⟨_ | i, maxD⟩
  · rfl
  · dsimp only
    by_cases hcloser : h.distanceTo m (h.getNode src).vector dest < maxD
    · have hdist : m.dist (h.getNode src).vector (h.getNode dest).vector < maxD := hcloser
      rw [if_pos hcloser, if_pos hdist, neighbors_setNeighbors, if_pos ⟨rfl, rfl⟩]
    · have hdist : ¬ m.dist (h.getNode src).vector (h.getNode dest).vector < maxD := hcloser
      rw [if_neg hcloser, if_neg hdist]

end Scan

section FullList

variable {V δ : Type*} [LinearOrder δ]

/-- The list with its farthest member replaced by {lit}`dest` if {lit}`dest` is strictly closer, and
the same list otherwise.  Of several farthest members it may be any. -/
def KeepsClosest (d : Nat → δ) (list : List Nat) (dest : Nat) (list' : List Nat) : Prop :=
  ∃ (i : Nat) (hi : i < list.length), (∀ a ∈ list, d a ≤ d list[i]) ∧
    list' = if d dest < d list[i] then list.set i dest else list

variable [Zero V]

/-- A full list changes only if its node has a lock and the scan finds a member. -/
theorem found_of_addLink_ne {m : Metric V δ} {h : HNSW V} {src dest layer : Nat}
    (hfull : maxConn layer ≤ (h.neighbors src layer).length)
    (hchanged : (h.addLink m src dest layer).neighbors src layer ≠ h.neighbors src layer) :
    src < h.nodeLocks ∧
      ∃ a ∈ h.neighbors src layer, m.minusOne < h.distanceTo m (h.getNode src).vector a := by
  have hlock : src < h.nodeLocks := by
    by_contra hno
    rw [addLink_of_no_lock hno] at hchanged
    exact hchanged rfl
  refine ⟨hlock, ?_⟩
  rw [neighbors_addLink_full hlock hfull] at hchanged
  rcases scanMax_cases (d := h.distanceTo m (h.getNode src).vector) 0 (none, m.minusOne)
    (h.neighbors src layer) with ⟨heq, -⟩ | ⟨i, hi, -, hlt, -⟩
  · rw [heq] at hchanged
    exact absurd rfl hchanged
  · exact ⟨_, List.getElem_mem hi, hlt⟩

/-- For every metric over a total order, every node whose list on a layer is full and every
{lit}`dest`: {lit}`add_link` replaces the farthest member iff {lit}`dest` is strictly closer, if and
only if {lit}`dest` is not closer than the farthest member, or the node has a lock and some member
is at a distance above {lit}`-1`. -/
theorem full_list_keeps_closest_iff (m : Metric V δ) (h : HNSW V) (src dest layer : Nat)
    (hfull : maxConn layer ≤ (h.neighbors src layer).length) :
    KeepsClosest (h.distanceTo m (h.getNode src).vector) (h.neighbors src layer) dest
        ((h.addLink m src dest layer).neighbors src layer) ↔
      (∀ a ∈ h.neighbors src layer, h.distanceTo m (h.getNode src).vector a ≤
          h.distanceTo m (h.getNode src).vector dest) ∨
        (src < h.nodeLocks ∧
          ∃ a ∈ h.neighbors src layer, m.minusOne < h.distanceTo m (h.getNode src).vector a) := by
  have hpos : 0 < maxConn layer := by
    rw [maxConn]
    split <;> decide
  have hne : h.neighbors src layer ≠ [] :=
    List.ne_nil_of_length_pos (lt_of_lt_of_le hpos hfull)
  constructor
  · rintro ⟨i, hi, hmax, heq⟩
    by_cases hcloser : h.distanceTo m (h.getNode src).vector dest <
        h.distanceTo m (h.getNode src).vector (h.neighbors src layer)[i]
    · right
      rw [if_pos hcloser] at heq
      apply found_of_addLink_ne hfull
      intro hsame
      -- the member at this position is not the new node, which is closer
      have hat : (h.neighbors src layer)[i] = dest := by
        rw [hsame] at heq
        have hget := congrArg (·[i]?) heq
        rw [List.getElem?_set_self hi, List.getElem?_eq_getElem hi] at hget
        exact Option.some.inj hget
      rw [hat] at hcloser
      exact lt_irrefl _ hcloser
    · left
      intro a ha
      exact (hmax a ha).trans (not_lt.mp hcloser)
  · intro hcondition
    rcases exists_max_getElem (h.distanceTo m (h.getNode src).vector) hne with ⟨i, hi, hmax⟩
    by_cases hlock : src < h.nodeLocks
    · rcases scanMax_cases (d := h.distanceTo m (h.getNode src).vector) 0 (none, m.minusOne)
        (h.neighbors src layer) with ⟨heq, hall⟩ | ⟨j, hj, heq, -, hfarthest⟩
      · -- no member is above the start of the scan
        refine ⟨i, hi, hmax, ?_⟩
        rw [neighbors_addLink_full hlock hfull, heq]
        rcases hcondition with hfar | ⟨-, a, ha, hlt⟩
        · rw [if_neg (not_lt.mpr (hfar _ (List.getElem_mem hi)))]
        · exact absurd (hall a ha) (not_le.mpr hlt)
      · refine ⟨j, hj, hfarthest, ?_⟩
        rw [neighbors_addLink_full hlock hfull, heq, Nat.zero_add]
    · refine ⟨i, hi, hmax, ?_⟩
      rcases hcondition with hfar | ⟨hlock', -⟩
      · rw [addLink_of_no_lock hlock, if_neg (not_lt.mpr (hfar _ (List.getElem_mem hi)))]
      · exact absurd hlock' hlock

end FullList

/-! ## The three metrics -/

section Metrics

variable {R : Type*} [Field R] [LinearOrder R]

/-- The distance of an index that was made with a metric, in exact arithmetic. -/
def indexMetric (sqrt : R → R) (metric : DistanceMetric) : Metric (Nat → R) R where
  dist a b := computeDistance sqrt a b vectorDim metric
  minusOne := -1

/-- In exact arithmetic with an exact square root, a node that has a lock keeps the closest if the
metric is not the inner product.  This is not about {lit}`float`: the cosine kernel can return
distances far below {lit}`-1` there, and {lit}`full_list_keeps_closest_iff` applies. -/
theorem full_list_keeps_closest [IsStrictOrderedRing R] {sqrt : R → R}
    (hsqrt : ∀ x, 0 ≤ x → 0 ≤ sqrt x ∧ sqrt x * sqrt x = x) {metric : DistanceMetric}
    (hmetric : metric ≠ .innerProduct) {h : HNSW (Nat → R)} {src layer : Nat}
    (hlock : src < h.nodeLocks) (hfull : maxConn layer ≤ (h.neighbors src layer).length)
    (dest : Nat) :
    KeepsClosest (h.distanceTo (indexMetric sqrt metric) (h.getNode src).vector)
      (h.neighbors src layer) dest
      ((h.addLink (indexMetric sqrt metric) src dest layer).neighbors src layer) := by
  have hpos : 0 < (h.neighbors src layer).length := by
    refine lt_of_lt_of_le ?_ hfull
    rw [maxConn]
    split <;> decide
  apply (full_list_keeps_closest_iff _ h src dest layer hfull).mpr
  right
  rcases List.exists_mem_of_length_pos hpos with ⟨a, ha⟩
  exact ⟨hlock, a, ha, neg_one_lt_computeDistance hsqrt _ _ _ hmetric⟩

end Metrics

/-! ## Two full lists -/

/-- A vector whose first coordinate alone is not zero. -/
def coordinate (a : Int) : Nat → Int :=
  fun i => if i = 0 then a else 0

/-- Such vectors under {lit}`inner_product_distance`. -/
def productMetric : Metric Int Int where
  dist a b := innerProductDistance (coordinate a) (coordinate b) vectorDim
  minusOne := -1

theorem productMetric_eq : productMetric = ⟨fun a b => -(a * b), -1⟩ := by
  have hdist : ∀ a b : Int,
      innerProductDistance (coordinate a) (coordinate b) vectorDim = -(a * b) := by
    intro a b
    rw [innerProductDistance_eq_sum, Finset.sum_eq_single 0]
    · rfl
    · intro i _ hi
      rw [coordinate, if_neg hi, zero_mul]
    · intro hout
      exact absurd (Finset.mem_range.mpr (by decide)) hout
  rw [productMetric]
  congr
  ext a b
  exact hdist a b

/-- An index whose first node has a full list on layer 1: the nodes 1 to 16 have been inserted
next to it, and each was deleted before the next one came.  All have the same vector. -/
def fullIndex {V δ : Type*} [Zero V] [Preorder δ] [DecidableLT δ] [PriorityQueue (Result δ)]
    (m : Metric V δ) (vec : V) : HNSW V :=
  (List.range' 1 16).foldl (fun h i => (h.insert m 1 vec i []).deleteVector i)
    (({ storageSize := 100 * 1024 * 1024 } : HNSW V).insert m 1 vec 0 [])

/-- The node 17 is not closer to the node 0 than the members of its list. -/
theorem full_list_keeps_closest_iff_far :
    ∃ h : HNSW Int, h = (fullIndex productMetric 2).insert productMetric 0 1 17 [] ∧
      KeepsClosest (h.distanceTo productMetric (h.getNode 0).vector) (h.neighbors 0 1) 17
        ((h.addLink productMetric 0 17 1).neighbors 0 1) := by
  rw [productMetric_eq]
  generalize hindex : (fullIndex (⟨fun a b => -(a * b), -1⟩ : Metric Int Int) 2).insert
    ⟨fun a b => -(a * b), -1⟩ 0 1 17 [] = h
  have hfacts : maxConn 1 ≤ (h.neighbors 0 1).length ∧
      ∀ a ∈ h.neighbors 0 1, h.distanceTo ⟨fun a b => -(a * b), -1⟩ (h.getNode 0).vector a ≤
        h.distanceTo ⟨fun a b => -(a * b), -1⟩ (h.getNode 0).vector 17 := by
    rw [← hindex]
    decide +kernel
  exact ⟨h, rfl, (full_list_keeps_closest_iff _ h 0 17 1 hfacts.1).mpr (.inl hfacts.2)⟩

/-- When it is closer, the list stays as well: all members are at the distance {lit}`-4`, and none
of them is found. -/
theorem closer_node_dropped :
    ∃ h : HNSW Int, h = (fullIndex productMetric 2).insert productMetric 0 5 17 [] ∧
      0 < h.nodeLocks ∧ maxConn 1 ≤ (h.neighbors 0 1).length ∧
      ¬ KeepsClosest (h.distanceTo productMetric (h.getNode 0).vector) (h.neighbors 0 1) 17
        ((h.addLink productMetric 0 17 1).neighbors 0 1) := by
  rw [productMetric_eq]
  generalize hindex : (fullIndex (⟨fun a b => -(a * b), -1⟩ : Metric Int Int) 2).insert
    ⟨fun a b => -(a * b), -1⟩ 0 5 17 [] = h
  have hfacts : (0 < h.nodeLocks ∧ maxConn 1 ≤ (h.neighbors 0 1).length) ∧
      (∀ a ∈ h.neighbors 0 1,
        h.distanceTo ⟨fun a b => -(a * b), -1⟩ (h.getNode 0).vector 17 <
          h.distanceTo ⟨fun a b => -(a * b), -1⟩ (h.getNode 0).vector a) ∧
      17 ∉ (h.addLink (⟨fun a b => -(a * b), -1⟩ : Metric Int Int) 0 17 1).neighbors 0 1 := by
    rw [← hindex]
    decide +kernel
  rcases hfacts with ⟨hfull, hcloser, hout⟩
  refine ⟨h, rfl, hfull.1, hfull.2, ?_⟩
  rintro ⟨i, hi, -, heq⟩
  rw [if_pos (hcloser _ (List.getElem_mem hi))] at heq
  rw [heq] at hout
  exact hout (List.mem_set hi 17)

end NanoDB.Index.HNSW
