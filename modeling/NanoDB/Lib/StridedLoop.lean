import Mathlib.Algebra.BigOperators.Group.Finset.Basic
import Mathlib.Algebra.BigOperators.Intervals

/-!
# Loops with a stride

The loop {lit}`for (; i + w <= n; i += w) s = body(i, s)`.  It returns the index at which it
stops together with the state, so that another loop can go on from there; a plain loop has the
stride 1.

Main results:

- Theorem {lit}`strided_invariant`: the invariant rule, with where the loop stops.
- Theorem {lit}`strided_one_invariant`: a loop of stride 1 goes to the end.
- Theorem {lit}`strided_sum`: a loop whose body adds the terms of its block adds the terms of
  all indices that it passes.
-/

namespace NanoDB.Lib

variable {σ : Type*}

/-- The loop {lit}`for (; i + w <= n; i += w)`. -/
def strided (w n : Nat) (body : Nat → σ → σ) (i : Nat) (s : σ) : Nat × σ :=
  if 0 < w ∧ i + w ≤ n then strided w n body (i + w) (body i s) else (i, s)
termination_by n - i

variable {w n : Nat} {body : Nat → σ → σ}

/-- The invariant rule. -/
theorem strided_invariant (hw : 0 < w) (Inv : Nat → σ → Prop)
    (hbody : ∀ i s, i + w ≤ n → Inv i s → Inv (i + w) (body i s)) {i : Nat} {s : σ} (hi : i ≤ n)
    (hinit : Inv i s) :
    Inv (strided w n body i s).1 (strided w n body i s).2 ∧ (strided w n body i s).1 ≤ n ∧
      n < (strided w n body i s).1 + w := by
  induction i, s using strided.induct w n body with
  | case1 i s hle ih =>
      rw [strided, if_pos hle]
      exact ih hle.2 (hbody i s hle.2 hinit)
  | case2 i s hstop =>
      rw [strided, if_neg hstop]
      exact ⟨hinit, hi, by omega⟩

/-- A loop of stride 1 goes to the end. -/
theorem strided_one_invariant (Inv : Nat → σ → Prop)
    (hbody : ∀ i s, i < n → Inv i s → Inv (i + 1) (body i s)) {i : Nat} {s : σ} (hi : i ≤ n)
    (hinit : Inv i s) : Inv n (strided 1 n body i s).2 := by
  rcases strided_invariant Nat.one_pos Inv hbody hi hinit with ⟨hinv, hle, hlt⟩
  have hend : (strided 1 n body i s).1 = n := by omega
  rwa [hend] at hinv

variable {A : Type*} [AddCommMonoid A] {term : Nat → A} {value : σ → A}

/-- A loop whose body adds the terms of a block to the value of the state. -/
theorem strided_sum (hw : 0 < w)
    (hbody : ∀ i s, value (body i s) = value s + ∑ k ∈ Finset.range w, term (i + k)) (s : σ) :
    value (strided w n body 0 s).2 =
        value s + ∑ j ∈ Finset.range (strided w n body 0 s).1, term j ∧
      (strided w n body 0 s).1 ≤ n := by
  have hstep : ∀ i t, i + w ≤ n → value t = value s + ∑ j ∈ Finset.range i, term j →
      value (body i t) = value s + ∑ j ∈ Finset.range (i + w), term j := by
    intro i t _ ht
    rw [hbody, ht, Finset.sum_range_add, add_assoc]
  have hinit : value s = value s + ∑ j ∈ Finset.range 0, term j := by simp
  rcases strided_invariant hw (fun i t => value t = value s + ∑ j ∈ Finset.range i, term j) hstep
    (Nat.zero_le n) hinit with ⟨hsum, hle, -⟩
  exact ⟨hsum, hle⟩

/-- A loop of stride 1 whose body adds one term, from an index on to the end. -/
theorem strided_one_sum {tail : Nat → A → A} (htail : ∀ i t, tail i t = t + term i) {i : Nat}
    (hi : i ≤ n) :
    (strided 1 n tail i (∑ j ∈ Finset.range i, term j)).2 = ∑ j ∈ Finset.range n, term j := by
  apply strided_one_invariant (fun i t => t = ∑ j ∈ Finset.range i, term j) _ hi rfl
  rintro i t - rfl
  rw [htail, Finset.sum_range_succ]

end NanoDB.Lib
