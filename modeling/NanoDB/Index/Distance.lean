import Mathlib.Algebra.BigOperators.Fin
import Mathlib.Algebra.BigOperators.Pi
import Mathlib.Algebra.Order.BigOperators.Ring.Finset
import Mathlib.Algebra.Order.Field.Basic
import NanoDB.Lib.StridedLoop

/-!
# The distance kernels

The three kernels of {lit}`distance.cpp` in exact arithmetic.  Each has a loop over blocks of
eight elements, which are added lane by lane, a horizontal reduction of the lanes, and a scalar
loop over what the blocks leave.  A register of eight lanes is a function on {lit}`Fin 8`; an
array is a function of the index.

Main results:

- Theorem {lit}`kernel_sum`: a kernel whose loops add the same terms adds those of all indices.
- Theorem {lit}`kernels_eq_sums`: the three kernels are the plain sums.
- Theorem {lit}`neg_one_lt_computeDistance`: with an exact square root, squared Euclidean and cosine
  distances are above {lit}`-1`.  The rounded cosine of the float kernel need not be.
-/

namespace NanoDB.Index

open NanoDB.Lib

variable {R : Type*}

/-! ## Registers -/

/-- {lit}`__m256`. -/
abbrev Lanes (R : Type*) := Fin 8 → R

/-- {lit}`_mm256_loadu_ps`. -/
def loadu (a : Nat → R) (i : Nat) : Lanes R :=
  fun k => a (i + k)

/-- The horizontal reduction {lit}`total += temp[k]`. -/
def reduce [Zero R] [Add R] (temp : Lanes R) : R :=
  (List.finRange 8).foldl (fun total k => total + temp k) 0

/-- The loops of a kernel: over blocks of eight, then over the tail. -/
def kernel {σ τ : Type*} (dim : Nat) (block : Nat → σ → σ) (horizontal : σ → τ)
    (scalar : Nat → τ → τ) (zero : σ) : τ :=
  let stopped := strided 8 dim block 0 zero
  (strided 1 dim scalar stopped.1 (horizontal stopped.2)).2

/-! ## The kernels -/

section Kernels

variable [CommRing R]

def l2Distance (a b : Nat → R) (dim : Nat) : R :=
  kernel dim
    (fun i sum =>
      let diff := loadu a i - loadu b i
      sum + diff * diff)
    reduce
    (fun i total =>
      let d := a i - b i
      total + d * d)
    0

/-- {lit}`dot_acc`, {lit}`norm_a` and {lit}`norm_b`, reduced and completed by the tail. -/
def cosineAccumulators (a b : Nat → R) (dim : Nat) : R × R × R :=
  kernel dim
    (fun i acc =>
      let va := loadu a i
      let vb := loadu b i
      (acc.1 + va * vb, acc.2.1 + va * va, acc.2.2 + vb * vb))
    (fun acc : Lanes R × Lanes R × Lanes R => (reduce acc.1, reduce acc.2.1, reduce acc.2.2))
    (fun i t => (t.1 + a i * b i, t.2.1 + a i * a i, t.2.2 + b i * b i))
    (0, 0, 0)

def innerProductDistance (a b : Nat → R) (dim : Nat) : R :=
  -kernel dim (fun i acc => acc + loadu a i * loadu b i) reduce (fun i dot => dot + a i * b i) 0

/-- The indices that the loops of a kernel load, in order: an array that has the index in each
place. -/
def usedIndices (dim : Nat) : List Nat :=
  kernel dim (fun i used => used ++ List.ofFn (loadu id i)) id (fun i used => used ++ [id i]) []

end Kernels

/-! ## The metrics -/

/-- {lit}`config::VECTOR_DIM`, the dimension of every stored vector. -/
def vectorDim : Nat := 128

inductive DistanceMetric where
  | l2
  | cosine
  | innerProduct
deriving DecidableEq, Repr

section Metrics

variable [Field R] [LinearOrder R] (sqrt : R → R)

/-- In exact arithmetic, with {lit}`std::sqrt` as an argument.  Vectors whose norms are almost zero
are at the distance 1.  In floats a small norm underflows, and the quotient can be any number. -/
def cosineDistance (a b : Nat → R) (dim : Nat) : R :=
  let (dot, na, nb) := cosineAccumulators a b dim
  let denom := sqrt na * sqrt nb
  if denom < 1 / 10 ^ 10 then 1 else 1 - dot / denom

def computeDistance (a b : Nat → R) (dim : Nat) : DistanceMetric → R
  | .cosine => cosineDistance sqrt a b dim
  | .innerProduct => innerProductDistance a b dim
  | .l2 => l2Distance a b dim

end Metrics

/-! ## Plain sums -/

section Sums

variable {A : Type*} [AddCommMonoid A]

theorem reduce_eq_sum (temp : Lanes A) : reduce temp = ∑ k, temp k := by
  have hlanes : List.finRange 8 = [0, 1, 2, 3, 4, 5, 6, 7] := by decide
  rw [reduce, hlanes, Fin.sum_univ_eight]
  simp only [List.foldl_cons, List.foldl_nil, zero_add]

theorem reduce_add (x y : Lanes A) : reduce (x + y) = reduce x + reduce y := by
  simp only [reduce_eq_sum, Pi.add_apply, Finset.sum_add_distrib]

/-- The lanes of a block are the terms of its eight indices. -/
theorem reduce_terms (term : Nat → A) (i : Nat) :
    reduce (fun k => term (i + k)) = ∑ k ∈ Finset.range 8, term (i + k) := by
  rw [reduce_eq_sum]
  exact Fin.sum_univ_eq_sum_range (fun k => term (i + k)) 8

/-- A kernel whose two loops add the same terms. -/
theorem kernel_sum {σ : Type*} {dim : Nat} {block : Nat → σ → σ} {horizontal : σ → A}
    {scalar : Nat → A → A} {zero : σ} (term : Nat → A)
    (hblock : ∀ i s, horizontal (block i s) =
      horizontal s + ∑ k ∈ Finset.range 8, term (i + k))
    (hscalar : ∀ i t, scalar i t = t + term i) (hzero : horizontal zero = 0) :
    kernel dim block horizontal scalar zero = ∑ i ∈ Finset.range dim, term i := by
  rcases strided_sum (n := dim) (by decide) hblock zero with ⟨hblocks, hle⟩
  rw [kernel, hblocks, hzero, zero_add]
  exact strided_one_sum hscalar hle

end Sums

section Kernels

variable [CommRing R]

theorem l2Distance_eq_sum (a b : Nat → R) (dim : Nat) :
    l2Distance a b dim = ∑ i ∈ Finset.range dim, (a i - b i) ^ 2 := by
  apply kernel_sum
  · intro i sum
    dsimp only
    rw [reduce_add, ← reduce_terms (fun j => (a j - b j) ^ 2)]
    congr 2
    ext k
    simp only [Pi.mul_apply, Pi.sub_apply, loadu, pow_two]
  · intro i total
    dsimp only
    rw [pow_two]
  · rw [reduce_eq_sum]
    simp

theorem dot_block (a b : Nat → R) (i : Nat) (acc : Lanes R) :
    reduce (acc + loadu a i * loadu b i) =
      reduce acc + ∑ k ∈ Finset.range 8, a (i + k) * b (i + k) := by
  rw [reduce_add, ← reduce_terms (fun j => a j * b j)]
  rfl

theorem innerProductDistance_eq_sum (a b : Nat → R) (dim : Nat) :
    innerProductDistance a b dim = -∑ i ∈ Finset.range dim, a i * b i := by
  rw [innerProductDistance, kernel_sum (fun i => a i * b i) (dot_block a b) (fun _ _ => rfl)]
  rw [reduce_eq_sum]
  simp

theorem cosineAccumulators_eq_sums (a b : Nat → R) (dim : Nat) :
    cosineAccumulators a b dim =
      (∑ i ∈ Finset.range dim, a i * b i, ∑ i ∈ Finset.range dim, a i ^ 2,
        ∑ i ∈ Finset.range dim, b i ^ 2) := by
  have hzero : reduce (0 : Lanes R) = 0 := by
    rw [reduce_eq_sum]
    simp
  rw [cosineAccumulators, kernel_sum (fun i => (a i * b i, a i * a i, b i * b i))]
  · simp only [Prod.ext_iff, Prod.fst_sum, Prod.snd_sum, pow_two, and_self]
  · intro i acc
    dsimp only
    rw [dot_block, dot_block, dot_block]
    simp only [Prod.ext_iff, Prod.fst_add, Prod.snd_add, Prod.fst_sum, Prod.snd_sum, and_self]
  · intro i t
    rfl
  · simp only [hzero, Prod.mk_zero_zero]

omit [CommRing R] in
theorem lanes_eq_map (i : Nat) : List.ofFn (loadu id i) = (List.range 8).map fun k => i + k := by
  apply List.ext_getElem
  · simp
  · intro k hk _
    simp only [List.getElem_ofFn, List.getElem_map, List.getElem_range, loadu, id_eq]

omit [CommRing R] in
/-- The blocks and the tail together use every index once. -/
theorem usedIndices_eq_range (dim : Nat) : usedIndices dim = List.range dim := by
  have hbody : ∀ i used, i + 8 ≤ dim → used = List.range i →
      used ++ List.ofFn (loadu id i) = List.range (i + 8) := by
    rintro i used - rfl
    rw [List.range_add, lanes_eq_map]
  have hblocks := strided_invariant (by decide) (fun i used => used = List.range i) hbody
    (Nat.zero_le dim) List.range_zero.symm
  rw [usedIndices, kernel]
  apply strided_one_invariant (fun i used => used = List.range i) _ hblocks.2.1 hblocks.1
  rintro i used - rfl
  exact List.range_succ.symm

/-- Over every commutative ring, for every dimension and all vectors, the kernels compute the
plain sums, and their loops use every index below the dimension exactly once. -/
theorem kernels_eq_sums (a b : Nat → R) (dim : Nat) :
    l2Distance a b dim = ∑ i ∈ Finset.range dim, (a i - b i) ^ 2 ∧
      innerProductDistance a b dim = -∑ i ∈ Finset.range dim, a i * b i ∧
      cosineAccumulators a b dim =
        (∑ i ∈ Finset.range dim, a i * b i, ∑ i ∈ Finset.range dim, a i ^ 2,
          ∑ i ∈ Finset.range dim, b i ^ 2) ∧
      usedIndices dim = List.range dim :=
  ⟨l2Distance_eq_sum a b dim, innerProductDistance_eq_sum a b dim,
    cosineAccumulators_eq_sums a b dim, usedIndices_eq_range dim⟩

end Kernels

/-! ## The range of a distance -/

section Range

variable [Field R] [LinearOrder R] [IsStrictOrderedRing R]

theorem l2Distance_nonneg (a b : Nat → R) (dim : Nat) : 0 ≤ l2Distance a b dim := by
  rw [l2Distance_eq_sum]
  exact Finset.sum_nonneg fun i _ => sq_nonneg (a i - b i)

/-- By the Cauchy-Schwarz inequality the quotient is at most 1. -/
theorem cosineDistance_nonneg {sqrt : R → R}
    (hsqrt : ∀ x, 0 ≤ x → 0 ≤ sqrt x ∧ sqrt x * sqrt x = x) (a b : Nat → R) (dim : Nat) :
    0 ≤ cosineDistance sqrt a b dim := by
  rw [cosineDistance, cosineAccumulators_eq_sums]
  dsimp only
  have hna : 0 ≤ ∑ i ∈ Finset.range dim, a i ^ 2 := Finset.sum_nonneg fun i _ => sq_nonneg (a i)
  have hnb : 0 ≤ ∑ i ∈ Finset.range dim, b i ^ 2 := Finset.sum_nonneg fun i _ => sq_nonneg (b i)
  have hcauchy := Finset.sum_mul_sq_le_sq_mul_sq (Finset.range dim) a b
  generalize ∑ i ∈ Finset.range dim, a i * b i = dot at hcauchy ⊢
  generalize ∑ i ∈ Finset.range dim, a i ^ 2 = na at hna hcauchy ⊢
  generalize ∑ i ∈ Finset.range dim, b i ^ 2 = nb at hnb hcauchy ⊢
  split
  · exact zero_le_one
  · next hdenom =>
      have htiny : (0 : R) < 1 / 10 ^ 10 := by positivity
      have hpos : 0 < sqrt na * sqrt nb := lt_of_lt_of_le htiny (not_lt.mp hdenom)
      have hsquare : dot ^ 2 ≤ (sqrt na * sqrt nb) ^ 2 := by
        calc dot ^ 2 ≤ na * nb := hcauchy
          _ = (sqrt na * sqrt na) * (sqrt nb * sqrt nb) := by
            rw [(hsqrt na hna).2, (hsqrt nb hnb).2]
          _ = (sqrt na * sqrt nb) ^ 2 := by ring
      have hdot : dot ≤ sqrt na * sqrt nb :=
        (le_abs_self dot).trans (abs_le_of_sq_le_sq hsquare hpos.le)
      have hquotient : dot / (sqrt na * sqrt nb) ≤ 1 := (div_le_one hpos).mpr hdot
      exact sub_nonneg.mpr hquotient

/-- Only the inner product takes distances down to {lit}`-1`. -/
theorem neg_one_lt_computeDistance {sqrt : R → R}
    (hsqrt : ∀ x, 0 ≤ x → 0 ≤ sqrt x ∧ sqrt x * sqrt x = x) (a b : Nat → R) (dim : Nat)
    {metric : DistanceMetric} (hmetric : metric ≠ .innerProduct) :
    -1 < computeDistance sqrt a b dim metric := by
  have hneg : (-1 : R) < 0 := neg_one_lt_zero
  cases metric with
  | l2 => exact hneg.trans_le (l2Distance_nonneg a b dim)
  | cosine => exact hneg.trans_le (cosineDistance_nonneg hsqrt a b dim)
  | innerProduct => exact absurd rfl hmetric

end Range

end NanoDB.Index
