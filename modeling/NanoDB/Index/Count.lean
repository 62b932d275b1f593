import NanoDB.Index.Session

/-!
# The counter of live vectors

{lit}`size()` is a counter: an insert counts up, whatever the slot held before, and a deletion
counts down if the slot was not deleted.  A slot that was never written reads as not deleted.

So the counter is the number of live ids as long as no live id is inserted again and no id is
deleted that was never inserted, unless its slot lies outside of the file.  The first call that
does either makes it wrong, and a deletion can take it below zero.

Main results:

- Theorem {lit}`Counted.step`: a call of the right kind keeps the counter right.
- Theorem {lit}`Counted.step_wrong`: a call of the other kind makes it wrong.
- Theorem {lit}`size_counts_live`: the counter after every history of calls of the right kind.
- Theorem {lit}`elementCount_deleteAll`: deletions of unwritten slots count down, each by one.
-/

namespace NanoDB.Index

open NanoDB.Lib

variable {V δ : Type*} [Zero V]

namespace HNSW

/-! ## Counting -/

/-- The number of live elements, by the counter. -/
def size (h : HNSW V) : Nat :=
  h.elementCount

theorem countUp_of_lt {n : Nat} (h : n < 2 ^ 64 - 1) : countUp n = n + 1 :=
  Nat.mod_eq_of_lt (by omega)

theorem countDown_succ {n : Nat} (h : n + 1 < 2 ^ 64) : countDown (n + 1) = n := by
  rw [countDown, Nat.add_right_comm, Nat.add_sub_cancel, Nat.add_mod_right, Nat.mod_eq_of_lt]
  omega

theorem countDown_ne {n : Nat} (h : n < 2 ^ 64) : countDown n ≠ n := by
  cases n with
  | zero => decide
  | succ n =>
      rw [countDown_succ h]
      omega

end HNSW

namespace Session

open HNSW

/-- An insert brings its id to life, and a deletion whose slot lies in the file is of an id that
was inserted. -/
def Counts (s : Session V) : Call V → Prop
  | .insert _ _ id _ => id ∉ s.live
  | .delete id => s.index.inStorage id = true → s.Inserted id
  | .reopen _ => True

instance (s : Session V) (c : Call V) : Decidable (s.Counts c) :=
  match c with
  | .insert _ _ id _ => inferInstanceAs (Decidable (id ∉ s.live))
  | .delete id => inferInstanceAs (Decidable (s.index.inStorage id = true → s.Inserted id))
  | .reopen _ => inferInstanceAs (Decidable True)

/-- The counter is the number of live ids, and no slot is deleted that was never written. -/
structure Counted (s : Session V) : Prop where
  wellFormed : s.WellFormed
  count : s.index.elementCount = s.live.card
  unwritten : ∀ id, ¬ s.Inserted id → (s.index.getNode id).isDeleted = false

theorem counted_create (storageSize : Nat) : (create storageSize : Session V).Counted where
  wellFormed := wellFormed_create storageSize
  count := rfl
  unwritten _ _ := rfl

namespace Counted

variable {s : Session V}

theorem count_lt (hs : s.Counted) : s.index.elementCount < 2 ^ 32 :=
  hs.count ▸ hs.wellFormed.card_live_lt

/-- The bitmaps of a counted index can be allocated. -/
theorem bitmapFits (hs : s.Counted) : s.index.BitmapFits := by
  have hlt := hs.count_lt
  unfold BitmapFits visitedSize maxBits
  omega

/-- Counting down is right for a live id. -/
theorem countDown_card (hs : s.Counted) {id : Nat} (hlive : id ∈ s.live) :
    countDown s.live.card = (s.live.erase id).card := by
  have hlt := hs.wellFormed.card_live_lt
  have hcard := Finset.card_erase_add_one hlive
  rw [← hcard, countDown_succ (by omega)]

/-- A deletion counts down if the id is live, or if it was never inserted and its slot lies in
the file. -/
theorem elementCount_delete (hs : s.Counted) (id : Nat) :
    (s.index.deleteVector id).elementCount =
      if id ∈ s.live ∨ ¬ s.Counts (.delete id) then countDown s.live.card
      else s.live.card := by
  rw [elementCount_deleteVector, hs.count]
  congr 1
  rw [eq_iff_iff, hs.wellFormed.live]
  constructor
  · rintro ⟨hin, hlive⟩
    by_cases hinserted : s.Inserted id
    · exact .inl ⟨hinserted, hlive⟩
    · exact .inr fun hall => hinserted (hall hin)
  · rintro (⟨hinserted, hlive⟩ | hnot)
    · exact ⟨(hs.wellFormed.stored id hinserted).2, hlive⟩
    · rw [Counts, Classical.not_imp] at hnot
      exact ⟨hnot.1, hs.unwritten id hnot.2⟩

section Step

variable [Preorder δ] [DecidableLT δ] [PriorityQueue (Result δ)] {m : Metric V δ} {c : Call V}
  {s' : Session V}

theorem elementCount_insert (hs : s.Counted) (level : Nat) (vec : V) (id : Nat)
    (metadata : Storage.Bytes) :
    (s.index.insertCall m level vec id metadata).elementCount = s.live.card + 1 := by
  have hlt := hs.wellFormed.card_live_lt
  rw [insertCall, if_pos (.inr hs.bitmapFits), HNSW.elementCount_insert, hs.count,
    countUp_of_lt (by omega)]

/-- A call that the counter is right for. -/
theorem step (hs : s.Counted) (hok : s.Counts c) (hstep : s.step m c = some s') : s'.Counted := by
  have hwf := hs.wellFormed.step m hstep
  rcases step_cases m hstep with ⟨level, vec, id, metadata, rfl, -, -, rfl⟩ | ⟨id, rfl, rfl⟩ |
    ⟨minSize, rfl, rfl⟩
  · refine ⟨hwf, ?_, ?_⟩
    · rw [index_insert, live_insert, hs.elementCount_insert, Finset.card_insert_of_notMem hok]
    · intro j hj
      rw [inserted_insert, not_or] at hj
      rw [index_insert, (getNode_insertCall m s.index level vec id metadata j).2, if_neg hj.1]
      exact hs.unwritten j hj.2
  · refine ⟨hwf, ?_, ?_⟩
    · rw [index_delete, live_delete, hs.elementCount_delete]
      by_cases hlive : id ∈ s.live
      · rw [if_pos (.inl hlive), hs.countDown_card hlive]
      · rw [if_neg (not_or.mpr ⟨hlive, not_not.mpr hok⟩), Finset.erase_eq_of_notMem hlive]
    · intro j hj
      rw [index_delete, getNode_deleteVector, if_neg]
      · exact hs.unwritten j hj
      · rintro ⟨rfl, hin⟩
        exact hj (hok hin)
  · refine ⟨hwf, ?_, hs.unwritten⟩
    exact (Nat.mod_eq_of_lt hs.count_lt).trans hs.count

/-- Any other call makes the counter wrong. -/
theorem step_wrong (hs : s.Counted) (hnot : ¬ s.Counts c) (hstep : s.step m c = some s') :
    s'.index.elementCount ≠ s'.live.card := by
  have hlt := hs.wellFormed.card_live_lt
  rcases step_cases m hstep with ⟨level, vec, id, metadata, rfl, -, -, rfl⟩ | ⟨id, rfl, rfl⟩ |
    ⟨minSize, rfl, rfl⟩
  · have hlive : id ∈ s.live := not_not.mp hnot
    rw [index_insert, live_insert, hs.elementCount_insert, Finset.insert_eq_of_mem hlive]
    omega
  · have hfresh : id ∉ s.live := by
      intro hlive
      exact hnot fun _ => ((hs.wellFormed.live id).mp hlive).1
    rw [index_delete, live_delete, hs.elementCount_delete, if_pos (.inr hnot),
      Finset.erase_eq_of_notMem hfresh]
    exact countDown_ne (by omega)
  · exact absurd trivial hnot

/-- A deletion that the counter is right for does not take it below zero. -/
theorem delete_le (hs : s.Counted) {id : Nat} (hok : s.Counts (.delete id)) :
    (s.index.deleteVector id).elementCount ≤ s.index.elementCount := by
  rw [hs.elementCount_delete, hs.count]
  split
  · next hcases =>
      have hlive := hcases.resolve_right (not_not.mpr hok)
      rw [hs.countDown_card hlive]
      exact Finset.card_le_card (Finset.erase_subset id s.live)
  · exact le_rfl

end Step

end Counted

/-! ## Whole histories -/

section Run

variable [Preorder δ] [DecidableLT δ] [PriorityQueue (Result δ)] {m : Metric V δ}

theorem counted_run {storageSize : Nat} {calls : List (Call V)} {s : Session V}
    (hrun : Exec (step m) Counts (create storageSize) calls s) : s.Counted :=
  hrun.invariant Counted (fun _ _ _ hs hok hstep => hs.step hok hstep) (counted_create storageSize)

/-- After every sequence of calls in which no live id is inserted again and no id is deleted
that was never inserted, unless its slot lies outside of the file, {lit}`size()` is the number
of live ids; and of the calls that can follow, exactly those of this kind leave it so and take
the counter down by a deletion only without passing zero. -/
theorem size_counts_live {storageSize : Nat} {calls : List (Call V)} {s : Session V}
    (hrun : Exec (step m) Counts (create storageSize) calls s) :
    s.index.size = s.live.card ∧
      ∀ c s', s.step m c = some s' →
        (s.Counts c ↔ s'.index.size = s'.live.card ∧
          ∀ id, c = .delete id → s'.index.size ≤ s.index.size) := by
  have hs := counted_run hrun
  refine ⟨hs.count, ?_⟩
  intro c s' hstep
  constructor
  · intro hok
    refine ⟨(hs.step hok hstep).count, ?_⟩
    rintro id rfl
    rw [← Option.some.inj hstep]
    exact hs.delete_le hok
  · rintro ⟨hcount, -⟩
    by_contra hnot
    exact hs.step_wrong hnot hstep hcount

/-- Deletions of slots that were never written, or were not deleted, one after the other. -/
theorem elementCount_deleteAll {s : Session V} (ids : List Nat)
    (hcount : s.index.elementCount < 2 ^ 64) (hnodup : ids.Nodup)
    (hin : ∀ id ∈ ids, s.index.inStorage id = true)
    (hlive : ∀ id ∈ ids, (s.index.getNode id).isDeleted = false) :
    ∃ s', Exec (step m) (fun _ _ => True) s (ids.map Call.delete) s' ∧
      s'.index.elementCount = (s.index.elementCount + ids.length * (2 ^ 64 - 1)) % 2 ^ 64 ∧
      s'.index.entryPointId = s.index.entryPointId := by
  induction ids generalizing s with
  | nil => exact ⟨s, .nil s, (Nat.mod_eq_of_lt (by simpa using hcount)).symm, rfl⟩
  | cons id ids ih =>
      rcases List.nodup_cons.mp hnodup with ⟨hnew, hnodup⟩
      rcases s.index.deleteVector_keeps id with ⟨hentry, -, -, hstorage, -⟩
      have hnext : (s.delete id).index.elementCount = countDown s.index.elementCount := by
        rw [index_delete, elementCount_deleteVector,
          if_pos ⟨hin id List.mem_cons_self, hlive id List.mem_cons_self⟩]
      have hin' : ∀ j ∈ ids, (s.delete id).index.inStorage j = true := by
        intro j hj
        rw [inStorage, index_delete, hstorage]
        exact hin j (List.mem_cons_of_mem _ hj)
      have hlive' : ∀ j ∈ ids, ((s.delete id).index.getNode j).isDeleted = false := by
        intro j hj
        rw [index_delete, getNode_deleteVector, if_neg]
        · exact hlive j (List.mem_cons_of_mem _ hj)
        · rintro ⟨rfl, -⟩
          exact hnew hj
      have hbelow : (s.delete id).index.elementCount < 2 ^ 64 := by
        rw [hnext]
        exact Nat.mod_lt _ (by decide)
      rcases ih hbelow hnodup hin' hlive' with ⟨s', hrest, hcount', hentry'⟩
      refine ⟨s', .cons trivial rfl hrest, ?_, hentry'.trans hentry⟩
      rw [hcount', hnext, countDown, Nat.mod_add_mod, List.length_cons]
      congr 1
      omega

end Run

/-- Two ids are inserted, one is deleted twice and inserted again, the index is opened again,
and an id past the end of the file is deleted. -/
theorem size_counts_live_reopened :
    ∃ s : Session Int, Exec (step lineMetric) Counts (create (100 * 1024 * 1024))
        [.insert 0 5 0 [], .insert 1 7 3 [], .delete 0, .delete 0, .insert 0 6 0 [], .reopen 0,
          .delete 200000] s ∧
      s.index.size = s.live.card ∧ s.live.card = 2 := by
  have hrun := Exec.of_guardedRun (step lineMetric) Counts (create (100 * 1024 * 1024))
    [.insert 0 5 0 [], .insert 1 7 3 [], .delete 0, .delete 0, .insert 0 6 0 [], .reopen 0,
      .delete 200000] (by decide +kernel)
  refine ⟨_, hrun, (size_counts_live hrun).1, ?_⟩
  decide +kernel

/-- An id that was never inserted is deleted from a new index: no id is live, and the counter is
{lit}`SIZE_MAX`.  An id that is inserted twice counts twice. -/
theorem size_wraps_below_zero :
    (∃ s : Session Int, Exec (step lineMetric) (fun _ _ => True) (create (100 * 1024 * 1024))
        [.delete 5] s ∧ s.live.card = 0 ∧ s.index.size = 2 ^ 64 - 1) ∧
      ∃ s : Session Int, Exec (step lineMetric) (fun _ _ => True) (create (100 * 1024 * 1024))
        [.insert 0 5 0 [], .insert 0 6 0 []] s ∧ s.live.card = 1 ∧ s.index.size = 2 := by
  constructor
  · have hrun := Exec.of_guardedRun (step lineMetric) (fun _ _ => True)
      (create (100 * 1024 * 1024)) [.delete 5] (by decide +kernel)
    exact ⟨_, hrun, by decide +kernel, by decide +kernel⟩
  · have hrun := Exec.of_guardedRun (step lineMetric) (fun _ _ => True)
      (create (100 * 1024 * 1024)) [.insert 0 5 0 [], .insert 0 6 0 []] (by decide +kernel)
    exact ⟨_, hrun, by decide +kernel, by decide +kernel⟩

end Session

end NanoDB.Index
