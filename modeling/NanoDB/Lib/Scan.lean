import Mathlib.Data.Fintype.EquivFin
import Mathlib.Data.Fintype.Lattice

/-!
# Scans for a maximum

A scan over a list that remembers the position and the value of the largest entry so far.  It
starts from a given value; entries that do not exceed it are not found.

Main results:

- Theorem {lit}`scanMax_cases`: a scan finds a largest entry, or keeps its start if no entry
  exceeds it.
-/

namespace NanoDB.Lib

variable {α δ : Type*}

section Any

variable [LT δ] [DecidableLT δ]

/-- Scan a list, the first entry of which has the position {lit}`k`. -/
def scanMax (d : α → δ) (k : Nat) (start : Option Nat × δ) (list : List α) : Option Nat × δ :=
  (list.zipIdx k).foldl
    (fun worst entry => if worst.2 < d entry.1 then (some entry.2, d entry.1) else worst) start

variable {d : α → δ}

theorem scanMax_cons (k : Nat) (start : Option Nat × δ) (a : α) (list : List α) :
    scanMax d k start (a :: list) =
      scanMax d (k + 1) (if start.2 < d a then (some k, d a) else start) list :=
  rfl

/-- A scan looks at the last entry last. -/
theorem scanMax_concat (k : Nat) (start : Option Nat × δ) (list : List α) (a : α) :
    scanMax d k start (list ++ [a]) =
      if (scanMax d k start list).2 < d a then (some (k + list.length), d a)
      else scanMax d k start list := by
  rw [scanMax, List.zipIdx_append, List.foldl_append]
  rfl

omit [LT δ] [DecidableLT δ] in
/-- What is found in the rest of a list, in terms of the whole list. -/
theorem found_cons (k : Nat) (a : α) {list : List α} {i : Nat} (hi : i < list.length) :
    ∃ hi' : i + 1 < (a :: list).length,
      (some (k + 1 + i), d list[i]) = (some (k + (i + 1)), d (a :: list)[i + 1]) := by
  refine ⟨Nat.succ_lt_succ hi, ?_⟩
  rw [Nat.add_assoc, Nat.add_comm 1 i]
  rfl

/-- A position is found together with the value of its entry. -/
theorem scanMax_eq_or (k : Nat) (start : Option Nat × δ) (list : List α) :
    scanMax d k start list = start ∨
      ∃ (i : Nat) (hi : i < list.length), scanMax d k start list = (some (k + i), d list[i]) := by
  induction list generalizing k start with
  | nil => exact .inl rfl
  | cons b list ih =>
      rw [scanMax_cons]
      rcases ih (k + 1) (if start.2 < d b then (some k, d b) else start) with heq | ⟨i, hi, heq⟩
      · rw [heq]
        split
        · exact .inr ⟨0, by simp, rfl⟩
        · exact .inl rfl
      · rcases found_cons k b hi with ⟨hi', hfound⟩
        exact .inr ⟨i + 1, hi', heq.trans hfound⟩

end Any

variable [LinearOrder δ] {d : α → δ}

/-- A scan keeps its start, or finds a largest entry. -/
theorem scanMax_cases (k : Nat) (start : Option Nat × δ) (list : List α) :
    (scanMax d k start list = start ∧ ∀ a ∈ list, d a ≤ start.2) ∨
      ∃ (i : Nat) (hi : i < list.length), scanMax d k start list = (some (k + i), d list[i]) ∧
        start.2 < d list[i] ∧ ∀ a ∈ list, d a ≤ d list[i] := by
  induction list generalizing k start with
  | nil => exact .inl ⟨rfl, fun a ha => absurd ha List.not_mem_nil⟩
  | cons b list ih =>
      rw [scanMax_cons]
      by_cases hlarger : start.2 < d b
      · right
        rw [if_pos hlarger]
        rcases ih (k + 1) (some k, d b) with ⟨heq, hall⟩ | ⟨i, hi, heq, hlt, hall⟩
        · exact ⟨0, by simp, heq, hlarger, List.forall_mem_cons.mpr ⟨le_rfl, hall⟩⟩
        · rcases found_cons k b hi with ⟨hi', hfound⟩
          refine ⟨i + 1, hi', heq.trans hfound, hlarger.trans hlt, ?_⟩
          exact List.forall_mem_cons.mpr ⟨hlt.le, hall⟩
      · have hb : d b ≤ start.2 := not_lt.mp hlarger
        rw [if_neg hlarger]
        rcases ih (k + 1) start with ⟨heq, hall⟩ | ⟨i, hi, heq, hlt, hall⟩
        · exact .inl ⟨heq, List.forall_mem_cons.mpr ⟨hb, hall⟩⟩
        · rcases found_cons k b hi with ⟨hi', hfound⟩
          refine .inr ⟨i + 1, hi', heq.trans hfound, hlt, ?_⟩
          exact List.forall_mem_cons.mpr ⟨hb.trans hlt.le, hall⟩

/-- A list that is not empty has a largest entry. -/
theorem exists_max_getElem (d : α → δ) {list : List α} (hne : list ≠ []) :
    ∃ (i : Nat) (hi : i < list.length), ∀ a ∈ list, d a ≤ d list[i] := by
  have : Nonempty (Fin list.length) := ⟨⟨0, List.length_pos_of_ne_nil hne⟩⟩
  rcases Finite.exists_max fun i : Fin list.length => d list[i] with ⟨i, hmax⟩
  refine ⟨i, i.isLt, ?_⟩
  intro a ha
  rcases List.getElem_of_mem ha with ⟨j, hj, rfl⟩
  exact hmax ⟨j, hj⟩

end NanoDB.Lib
