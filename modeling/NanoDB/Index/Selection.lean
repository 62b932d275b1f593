import NanoDB.Index.BestSeen
import NanoDB.Index.Growth

/-!
# The selection of neighbours

{lit}`search_layer` returns a heap whose top is the farthest candidate, since the results are
compared by {lit}`operator<` on distances and the heap is a maximum heap.  {lit}`insert` takes the
first {lit}`M` results off it: the farthest ones.  The next layer starts from the first of them,
the farthest of all.

Main results:

- Theorem {lit}`drain_farther_nearest_iff`: what comes off such a heap first is nearest iff
  nothing stays or all distances are equal.
- Theorem {lit}`selects_nearest_iff`: on every layer of every insert.
-/

namespace NanoDB.Index

namespace HNSW

open NanoDB.Lib
open NanoDB.Storage (Bytes)

/-! ## Draining a heap of the farthest -/

section Heap

variable {δ : Type*} [LinearOrder δ] [PriorityQueue (Result δ)]

/-- No result that stays in the heap is closer than one that was taken out. -/
def TakesNearest (n : Nat) (heap : List (Result δ)) : Prop :=
  ∀ a ∈ heap, a.id ∉ (drain farther n heap).map (·.id) →
    ∀ b ∈ heap, b.id ∈ (drain farther n heap).map (·.id) → ¬ a.distance < b.distance

variable {n : Nat} {heap : List (Result δ)}

/-- Of a heap without repetitions, a result is among those taken out iff its id is. -/
theorem mem_drain_iff (hnodup : (heap.map (·.id)).Nodup) {a : Result δ} (ha : a ∈ heap) :
    a.id ∈ (drain farther n heap).map (·.id) ↔ a ∈ drain farther n heap := by
  constructor
  · intro hid
    rcases List.mem_map.mp hid with ⟨b, hb, heq⟩
    have hsame : b = a :=
      List.inj_on_of_nodup_map hnodup (mem_of_mem_drain hb) ha heq
    exact hsame ▸ hb
  · exact fun hmem => List.mem_map.mpr ⟨a, hmem, rfl⟩

theorem drain_farther_nearest_iff (hpos : 0 < n) (hnodup : (heap.map (·.id)).Nodup) :
    TakesNearest n heap ↔
      heap.length ≤ n ∨ ∀ a ∈ heap, ∀ b ∈ heap, a.distance = b.distance := by
  rcases (farther_orders (δ := δ)).drain_rest n heap with ⟨rest, hperm, hle⟩
  have hsplit : (drain farther n heap ++ rest).Nodup := hperm.nodup_iff.mp hnodup.of_map
  constructor
  · intro hnearest
    rcases Nat.lt_or_ge n heap.length with hmany | hfew
    · right
      have htaken : 0 < (drain farther n heap).length := by
        rw [length_drain]
        omega
      have hrest : 0 < rest.length := by
        have hlength := hperm.length_eq
        rw [List.length_append, length_drain] at hlength
        omega
      rcases List.exists_mem_of_length_pos htaken with ⟨first, hfirst⟩
      rcases List.exists_mem_of_length_pos hrest with ⟨last, hlast⟩
      -- what was taken out is at least as far as what stays, and at most as far
      have hcross : ∀ a ∈ drain farther n heap, ∀ b ∈ rest, a.distance = b.distance := by
        intro a ha b hb
        have hainheap := hperm.symm.subset (List.mem_append_left rest ha)
        have hbinheap := hperm.symm.subset (List.mem_append_right _ hb)
        have hbout : b ∉ drain farther n heap := fun hin =>
          (List.nodup_append.mp hsplit).2.2 b hin b hb rfl
        have hnot := hnearest b hbinheap (fun hid => hbout ((mem_drain_iff hnodup hbinheap).mp hid))
          a hainheap ((mem_drain_iff hnodup hainheap).mpr ha)
        exact le_antisymm (not_lt.mp hnot) (hle a ha b hb)
      have hall : ∀ a ∈ heap, a.distance = last.distance := by
        intro a ha
        rcases List.mem_append.mp (hperm.subset ha) with htaken | hstays
        · exact hcross a htaken last hlast
        · exact (hcross first hfirst a hstays).symm.trans (hcross first hfirst last hlast)
      intro a ha b hb
      rw [hall a ha, hall b hb]
    · exact .inl hfew
  · rintro (hfew | hequal) a ha hout b hb -
    · have hin : a ∈ drain farther n heap := (mem_drain_of_length_le hfew).mpr ha
      exact absurd ((mem_drain_iff hnodup ha).mpr hin) hout
    · exact (hequal a ha b hb).not_lt

end Heap

/-! ## The layers of an insert -/

/-- What {lit}`insert` starts from on a layer: the index, and {lit}`curr_obj`. -/
structure LayerStep (V : Type*) where
  layer : Nat
  index : HNSW V
  start : Nat

section Layers

variable {V δ : Type*} [Zero V] [Preorder δ] [DecidableLT δ] [PriorityQueue (Result δ)]
  (m : Metric V δ) (vec : V) (id : Nat)

namespace LayerStep

/-- The candidates returned by {lit}`search_layer`. -/
def candidates (s : LayerStep V) : List (Result δ) :=
  s.index.searchLayer m s.start vec efConstruction s.layer

/-- {lit}`selected_neighbors`. -/
def selected (s : LayerStep V) : List Nat :=
  s.index.selectNeighbors m vec s.layer s.start

/-- Where the next layer starts. -/
def next (s : LayerStep V) : Nat :=
  (s.selected m vec).headD s.start

/-- The index when the layer is linked. -/
def linkedIndex (s : LayerStep V) : HNSW V :=
  s.index.linkAll m id s.layer (s.selected m vec)

end LayerStep

/-- The layers below {lit}`l`, from the top one down. -/
def layerSteps : Nat → HNSW V → Nat → List (LayerStep V)
  | 0, _, _ => []
  | l + 1, h, curr =>
      let s : LayerStep V := ⟨l, h, curr⟩
      s :: layerSteps l (s.linkedIndex m vec id) (s.next m vec)

/-- The layers that {lit}`insert` processes. -/
def insertSteps (h : HNSW V) (level : Nat) : List (LayerStep V) :=
  match h.entryPointId with
  | none => []
  | some entryPoint =>
      layerSteps m vec id (min (level : Int) h.currentMaxLayer + 1).toNat (h.written vec id)
        ((h.written vec id).descendFrom m vec level entryPoint)

/-- Every layer is processed once, and each starts where the one above it has ended. -/
theorem layerSteps_spec (l : Nat) (h : HNSW V) (curr : Nat) :
    (layerSteps m vec id l h curr).map LayerStep.layer = (List.range l).reverse ∧
      (layerSteps m vec id l h curr).IsChain
        (fun s t => t.index = s.linkedIndex m vec id ∧ t.start = s.next m vec) := by
  induction l generalizing h curr with
  | zero => exact ⟨rfl, .nil⟩
  | succ l ih =>
      rcases ih (LayerStep.linkedIndex m vec id ⟨l, h, curr⟩) (LayerStep.next m vec ⟨l, h, curr⟩)
        with ⟨hlayers, hchain⟩
      rw [layerSteps, List.range_succ, List.reverse_append, List.map_cons, hlayers]
      refine ⟨rfl, ?_⟩
      cases l with
      | zero => exact .singleton _
      | succ l => exact .cons_cons ⟨rfl, rfl⟩ hchain

/-- {lit}`connect` goes through these steps. -/
theorem connect_eq_layerSteps (l : Nat) (h : HNSW V) (curr : Nat) :
    connect m vec id l h curr =
      ((layerSteps m vec id l h curr).getLast?.map (·.linkedIndex m vec id)).getD h := by
  induction l generalizing h curr with
  | zero => rfl
  | succ l ih =>
      have hrest := ih (LayerStep.linkedIndex m vec id ⟨l, h, curr⟩)
        (LayerStep.next m vec ⟨l, h, curr⟩)
      rw [layerSteps, List.getLast?_cons, Option.map_some, Option.getD_some]
      generalize layerSteps m vec id l _ _ = steps at hrest ⊢
      refine hrest.trans ?_
      cases steps.getLast? with
      | none => rfl
      | some s => rfl

theorem linked_eq_insertSteps (h : HNSW V) (level : Nat) :
    h.linked m level vec id =
      ((insertSteps m vec id h level).getLast?.map (·.linkedIndex m vec id)).getD
        (h.written vec id) := by
  rw [linked, insertSteps]
  cases h.entryPointId with
  | none => rfl
  | some entryPoint => exact connect_eq_layerSteps m vec id _ _ _

end Layers

/-! ## The nearest candidates -/

section Nearest

variable {V δ : Type*} [Zero V] [LinearOrder δ] [PriorityQueue (Result δ)]

/-- No candidate that is not selected is closer than a selected one, and a layer above layer 0
hands the closest selected candidate down as the next start. -/
structure LayerStep.SelectsNearest (m : Metric V δ) (vec : V) (s : LayerStep V) : Prop where
  nearest : ∀ a ∈ s.candidates m vec, a.id ∉ s.selected m vec →
    ∀ b ∈ s.candidates m vec, b.id ∈ s.selected m vec → ¬ a.distance < b.distance
  next_closest : 0 < s.layer → s.candidates m vec ≠ [] →
    ∃ a ∈ s.candidates m vec, a.id = s.next m vec ∧ a.id ∈ s.selected m vec ∧
      ∀ b ∈ s.candidates m vec, b.id ∈ s.selected m vec → a.distance ≤ b.distance

variable {m : Metric V δ} {vec : V} {s : LayerStep V}

theorem LayerStep.candidates_nodup : ((s.candidates m vec).map (·.id)).Nodup :=
  searchLayer_nodup m s.index vec efConstruction s.layer s.start

/-- The selection starts with the candidate that the next layer starts from. -/
theorem LayerStep.exists_first (hne : s.candidates m vec ≠ []) :
    ∃ first ∈ s.candidates m vec, ∃ taken,
      drain farther maxLinks (s.candidates m vec) = first :: taken ∧
        s.selected m vec = first.id :: taken.map (·.id) ∧ s.next m vec = first.id := by
  have hpos : 0 < (drain farther maxLinks (s.candidates m vec)).length := by
    rw [length_drain, maxLinks]
    have := List.length_pos_of_ne_nil hne
    omega
  rcases List.exists_cons_of_length_pos hpos with ⟨first, taken, hdrain⟩
  have hselected : s.selected m vec = first.id :: taken.map (·.id) := by
    rw [← List.map_cons (f := fun r : Result δ => r.id), ← hdrain]
    rfl
  refine ⟨first, ?_, taken, hdrain, hselected, ?_⟩
  · apply mem_of_mem_drain (n := maxLinks)
    rw [hdrain]
    exact List.mem_cons_self
  · rw [LayerStep.next, hselected, List.headD_cons]

/-- The next layer starts from the farthest candidate. -/
theorem LayerStep.next_farthest {a : Result δ} (ha : a ∈ s.candidates m vec)
    (hnext : a.id = s.next m vec) : ∀ b ∈ s.candidates m vec, b.distance ≤ a.distance := by
  rcases s.exists_first (List.ne_nil_of_mem ha) with ⟨first, hfirst, taken, hdrain, -, hstart⟩
  rcases (farther_orders (δ := δ)).drain_rest maxLinks (s.candidates m vec) with ⟨rest, hperm, hle⟩
  have hsorted := (farther_orders (δ := δ)).drain_pairwise maxLinks (s.candidates m vec)
  rw [hdrain] at hperm hle hsorted
  have hsame : first = a :=
    List.inj_on_of_nodup_map candidates_nodup hfirst ha (hstart.symm.trans hnext.symm)
  rw [← hsame]
  intro b hb
  rcases List.mem_append.mp (hperm.subset hb) with htaken | hstays
  · rcases List.mem_cons.mp htaken with rfl | htaken
    · exact le_rfl
    · exact (List.pairwise_cons.mp hsorted).1 b htaken
  · exact hle first List.mem_cons_self b hstays

theorem LayerStep.exists_next (hne : s.candidates m vec ≠ []) :
    ∃ a ∈ s.candidates m vec, a.id = s.next m vec ∧ a.id ∈ s.selected m vec := by
  rcases s.exists_first hne with ⟨first, hfirst, taken, -, hselected, hstart⟩
  refine ⟨first, hfirst, hstart.symm, ?_⟩
  rw [hselected]
  exact List.mem_cons_self

/-- For every index, inserted vector and layer that {lit}`insert` processes: the candidates that
are selected are the nearest ones and the next layer starts from the closest of them, iff all
candidates are at the same distance, or the layer is the lowest one and every candidate is
selected. -/
theorem selects_nearest_iff (m : Metric V δ) (h : HNSW V) (level : Nat) (vec : V)
    (id : Nat) :
    ∀ s ∈ insertSteps m vec id h level,
      s.SelectsNearest m vec ↔
        (∀ a ∈ s.candidates m vec, ∀ b ∈ s.candidates m vec, a.distance = b.distance) ∨
          (s.layer = 0 ∧ (s.candidates m vec).length ≤ maxLinks) := by
  intro s _
  have htakes : TakesNearest maxLinks (s.candidates m vec) ↔ _ :=
    drain_farther_nearest_iff (by decide) s.candidates_nodup
  constructor
  · intro hselects
    rcases Nat.eq_zero_or_pos s.layer with hlowest | habove
    · rcases htakes.mp hselects.nearest with hfew | hequal
      · exact .inr ⟨hlowest, hfew⟩
      · exact .inl hequal
    · left
      rcases htakes.mp hselects.nearest with hfew | hequal
      · -- every candidate is selected, and the next start is the farthest and the closest
        intro a ha b hb
        rcases hselects.next_closest habove (List.ne_nil_of_mem ha) with
          ⟨start, hstart, hnext, -, hclosest⟩
        have hin : ∀ c ∈ s.candidates m vec, start.distance = c.distance := by
          intro c hc
          have hdrained : c ∈ drain farther maxLinks (s.candidates m vec) :=
            (mem_drain_of_length_le hfew).mpr hc
          have hselected := (mem_drain_iff s.candidates_nodup hc).mpr hdrained
          exact le_antisymm (hclosest c hc hselected) (s.next_farthest hstart hnext c hc)
        exact (hin a ha).symm.trans (hin b hb)
      · exact hequal
  · intro hcondition
    refine ⟨htakes.mpr (hcondition.symm.imp_left And.right), ?_⟩
    intro habove hne
    rcases hcondition with hequal | ⟨hlowest, -⟩
    · rcases s.exists_next hne with ⟨a, ha, hnext, hselected⟩
      exact ⟨a, ha, hnext, hselected, fun b hb _ => (hequal a ha b hb).le⟩
    · omega

end Nearest

/-! ## Two inserts -/

/-- The third vector is linked with the other two. -/
theorem selects_nearest_iff_lowest :
    ∃ s : Filling Int,
      s = (Filling.create (100 * 1024 * 1024)).insertAll lineMetric [⟨0, 3, []⟩, ⟨0, 5, []⟩] ∧
      ∃ step ∈ insertSteps lineMetric 0 2 s.index 0, step.SelectsNearest lineMetric 0 := by
  refine ⟨_, rfl, _, List.get_mem _ ⟨0, by decide +kernel⟩, ?_⟩
  apply (selects_nearest_iff lineMetric _ 0 0 2 _ (List.get_mem _ ⟨0, by decide +kernel⟩)).mpr
  exact .inr (by decide +kernel)

/-- The vector 0 is inserted a second time, into an index with the vectors 0 to 16: it is linked
with those from 1 to 16, and not with the equal one. -/
theorem nearest_not_selected :
    ¬ ∀ (h : HNSW Int) (level : Nat) (vec : Int) (id : Nat),
      ∀ s ∈ insertSteps lineMetric vec id h level, s.SelectsNearest lineMetric vec := by
  intro hall
  have hstep : ∃ s ∈ insertSteps lineMetric 0 17
      ((Filling.create (100 * 1024 * 1024)).insertAll lineMetric
        ((List.range 17).map fun (i : Nat) => ⟨0, (i : Int), []⟩)).index 0,
      ({ id := 0, distance := 0 } ∈ s.candidates lineMetric 0 ∧ 0 ∉ s.selected lineMetric 0) ∧
        ({ id := 1, distance := 1 } ∈ s.candidates lineMetric 0 ∧ 1 ∈ s.selected lineMetric 0) := by
    decide +kernel
  rcases hstep with ⟨s, hs, ⟨hzero, hout⟩, hone, hin⟩
  exact absurd ((hall _ 0 0 17 s hs).nearest _ hzero hout _ hone hin) (by decide)

end HNSW

end NanoDB.Index
