import Mathlib.Data.List.Perm.Subperm
import Mathlib.Logic.Relation
import Mathlib.Order.Basic

/-!
# Queues and worklists

What a search that keeps a queue of pending nodes rests on.  A queue is a list;
{lit}`extract` takes out an element that none of the others comes before.  Which of
several equal elements comes out first differs between implementations, so a
{lit}`PriorityQueue` is a parameter, and what is proved holds for every choice.

Main results:

- Theorem {lit}`extract_perm`: an extraction loses nothing and adds nothing.
- Theorem {lit}`drain_subperm`: what is drained was in the queue, as often.
- Theorem {lit}`Orders.drain_pairwise`: a queue with a total order is drained in order.
- Theorem {lit}`Orders.drain_rest`: nothing that stays comes before what is drained.
- Theorem {lit}`Explored.mem_of_reachable`: when nothing is pending, every node
  that can be reached has been visited.
- Theorem {lit}`countP_lt_of_lt`: a value that descends through a finite list has
  ever fewer values below it.
-/

namespace NanoDB.Lib

/-! ## Queues -/

/-- The comparison of a queue follows a total preorder. -/
structure Orders {α : Type*} (before : α → α → Bool) (le : α → α → Prop) : Prop where
  of_before : ∀ a b, before a b = true → le a b
  of_not_before : ∀ a b, before a b = false → le b a
  trans : ∀ a b c, le a b → le b c → le a c

/-- A priority queue, given by the list of its elements.  {lit}`extract` takes out the first
element to come out and leaves the rest of the queue; if the comparison follows a total
preorder, nothing that stays comes before it.  Which of several equal elements that is, and
in which order the rest is kept, is up to the queue. -/
class PriorityQueue (α : Type*) where
  extract : (α → α → Bool) → List α → Option (α × List α)
  extract_nil : ∀ before, extract before [] = none
  extract_cons : ∀ before a l, (extract before (a :: l)).isSome = true
  perm : ∀ {before l a rest}, extract before l = some (a, rest) → l.Perm (a :: rest)
  first : ∀ {before le l a rest}, Orders before le → extract before l = some (a, rest) →
    ∀ b ∈ rest, le a b

export PriorityQueue (extract)

section Queue

variable {α : Type*} [PriorityQueue α] (before : α → α → Bool)

/-- Take out the first {lit}`n` elements, or all if there are fewer. -/
def drain : Nat → List α → List α
  | 0, _ => []
  | n + 1, l =>
      match extract before l with
      | none => []
      | some (a, rest) => a :: drain n rest

variable {before}

theorem extract_eq_none_iff {l : List α} : extract before l = none ↔ l = [] := by
  cases l with
  | nil => simp [PriorityQueue.extract_nil]
  | cons a l =>
      have hsome := PriorityQueue.extract_cons before a l
      constructor
      · intro hnone
        rw [hnone] at hsome
        contradiction
      · intro hnil
        contradiction

/-- An extraction loses nothing and adds nothing. -/
theorem extract_perm {l rest : List α} {a : α} (h : extract before l = some (a, rest)) :
    l.Perm (a :: rest) :=
  PriorityQueue.perm h

theorem extract_singleton (a : α) : extract before [a] = some (a, []) := by
  cases hextract : extract before [a] with
  | none => exact absurd (extract_eq_none_iff.mp hextract) (List.cons_ne_nil a [])
  | some p =>
      rcases p with ⟨b, rest⟩
      have hperm := List.singleton_perm.mp (extract_perm hextract)
      rw [List.cons.injEq] at hperm
      rw [← hperm.1, ← hperm.2]

theorem length_of_extract {l rest : List α} {a : α} (h : extract before l = some (a, rest)) :
    l.length = rest.length + 1 :=
  (extract_perm h).length_eq

/-- What is drained was in the queue, as often. -/
theorem drain_subperm (n : Nat) (l : List α) : List.Subperm (drain before n l) l := by
  induction n generalizing l with
  | zero => exact List.nil_subperm
  | succ n ih =>
      rw [drain]
      split
      · exact List.nil_subperm
      · next a rest hextract =>
          exact (List.subperm_cons a).mpr (ih rest) |>.trans (extract_perm hextract).symm.subperm

theorem length_drain (n : Nat) (l : List α) : (drain before n l).length = min n l.length := by
  induction n generalizing l with
  | zero => simp [drain]
  | succ n ih =>
      rw [drain]
      split
      · next hnone => simp [extract_eq_none_iff.mp hnone]
      · next a rest hextract =>
          rw [List.length_cons, ih, length_of_extract hextract]
          omega

/-- A queue that is drained to its end. -/
theorem drain_perm {n : Nat} {l : List α} (h : l.length ≤ n) : (drain before n l).Perm l := by
  apply (drain_subperm n l).perm_of_length_le
  rw [length_drain]
  omega

theorem mem_of_mem_drain {n : Nat} {l : List α} {a : α} (h : a ∈ drain before n l) : a ∈ l :=
  (drain_subperm n l).subset h

theorem mem_drain_of_length_le {n : Nat} {l : List α} {a : α} (h : l.length ≤ n) :
    a ∈ drain before n l ↔ a ∈ l :=
  (drain_perm h).mem_iff

omit [PriorityQueue α] in
/-- What stays distinct when elements are taken out. -/
theorem nodup_map_of_subperm {β : Type*} (f : α → β) {l₁ l₂ : List α} (h : List.Subperm l₁ l₂)
    (hnodup : (l₂.map f).Nodup) : (l₁.map f).Nodup := by
  rcases h with ⟨l, hperm, hsub⟩
  exact (hperm.map f).nodup_iff.mp ((hsub.map f).nodup hnodup)

variable {le : α → α → Prop}

/-- Nothing that stays in the queue comes before what is taken out. -/
theorem Orders.le_of_extract (ho : Orders before le) {l rest : List α} {a : α}
    (h : extract before l = some (a, rest)) : ∀ b ∈ rest, le a b :=
  PriorityQueue.first ho h

/-- A queue is drained in order. -/
theorem Orders.drain_pairwise (ho : Orders before le) (n : Nat) (l : List α) :
    (drain before n l).Pairwise le := by
  induction n generalizing l with
  | zero => exact List.Pairwise.nil
  | succ n ih =>
      rw [drain]
      split
      · exact List.Pairwise.nil
      · next a rest hextract =>
          refine List.Pairwise.cons ?_ (ih rest)
          intro b hb
          exact ho.le_of_extract hextract b (mem_of_mem_drain hb)

/-- What stays in the queue when it is not drained to its end. -/
theorem Orders.drain_rest (ho : Orders before le) (n : Nat) (l : List α) :
    ∃ rest, l.Perm (drain before n l ++ rest) ∧ ∀ a ∈ drain before n l, ∀ b ∈ rest, le a b := by
  induction n generalizing l with
  | zero => exact ⟨l, .refl l, fun a ha => absurd ha List.not_mem_nil⟩
  | succ n ih =>
      rw [drain]
      split
      · next hnone =>
          rw [extract_eq_none_iff.mp hnone]
          exact ⟨[], .refl [], fun a ha => absurd ha List.not_mem_nil⟩
      · next a queue hextract =>
          rcases ih queue with ⟨rest, hperm, hle⟩
          refine ⟨rest, (extract_perm hextract).trans (hperm.cons a), ?_⟩
          intro x hx b hb
          rcases List.mem_cons.mp hx with rfl | hx
          · exact ho.le_of_extract hextract b (hperm.symm.subset (List.mem_append_right _ hb))
          · exact hle x hx b hb

end Queue

/-! ## Worklists -/

section Explore

variable {α : Type*} {succ : α → α → Prop} {visited pending : α → Prop}

/-- Every visited node is pending or has all its successors visited. -/
def Explored (succ : α → α → Prop) (visited pending : α → Prop) : Prop :=
  ∀ x, visited x → pending x ∨ ∀ y, succ x y → visited y

/-- A set that is closed under successors is not left. -/
theorem mem_of_reachable {S : α → Prop} (hclosed : ∀ x, S x → ∀ y, succ x y → S y) {x y : α}
    (hx : S x) (hreach : Relation.ReflTransGen succ x y) : S y := by
  induction hreach with
  | refl => exact hx
  | tail _ hstep ih => exact hclosed _ ih _ hstep

/-- When nothing is pending, every node that can be reached has been visited. -/
theorem Explored.mem_of_reachable (h : Explored succ visited pending) (hdone : ∀ x, ¬ pending x)
    {x y : α} (hx : visited x) (hreach : Relation.ReflTransGen succ x y) : visited y := by
  apply Lib.mem_of_reachable _ hx hreach
  intro a ha b hab
  rcases h a ha with hpending | hall
  · exact absurd hpending (hdone a)
  · exact hall b hab

end Explore

/-! ## Descent -/

/-- A value that descends through a finite list has ever fewer values below it. -/
theorem countP_lt_of_lt {δ : Type*} [Preorder δ] [DecidableLT δ] {l : List δ} {d d' : δ}
    (hlt : d' < d) (hmem : d' ∈ l) :
    l.countP (fun x => decide (x < d')) < l.countP (fun x => decide (x < d)) := by
  induction l with
  | nil => cases hmem
  | cons x l ih =>
      have hmono : l.countP (fun x => decide (x < d')) ≤ l.countP (fun x => decide (x < d)) := by
        apply List.countP_mono_left
        intro y _ hy
        simp only [decide_eq_true_eq] at hy ⊢
        exact hy.trans hlt
      rcases List.mem_cons.mp hmem with rfl | hl
      · rw [List.countP_cons_of_neg (by simp), List.countP_cons_of_pos (by simpa using hlt)]
        omega
      · have htail := ih hl
        by_cases hx : x < d'
        · rw [List.countP_cons_of_pos (by simpa using hx),
            List.countP_cons_of_pos (by simpa using hx.trans hlt)]
          omega
        · rw [List.countP_cons_of_neg (by simpa using hx), List.countP_cons]
          omega

end NanoDB.Lib
