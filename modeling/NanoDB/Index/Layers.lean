import Mathlib.Data.Int.ConditionallyCompleteOrder
import NanoDB.Index.Hnsw

/-!
# The layers that are accessed

{lit}`neighbors` and {lit}`neighbor_counts` of a node have {lit}`MAX_LAYERS` rows, and
{lit}`get_random_level` draws levels up to {lit}`M`.  Here every access to a row is
recorded: that of each turn of the greedy descent, of each node that a beam search expands,
and of each link that is added.

A call on a non-empty index accesses all layers from the current maximum down.  An insert
that draws a level past the last row raises that maximum, so the call after it is the first
one that leaves the arrays.

Main results:

- Theorem {lit}`insertAccesses_layers`, {lit}`searchAccesses_layers`: no layer above the
  current maximum is accessed, and that one is.
- Theorem {lit}`accesses_in_bounds_iff`: a sequence of calls stays inside the arrays iff
  every insert but a last one draws a level below {lit}`MAX_LAYERS`.
-/

namespace NanoDB.Index

open NanoDB.Lib
open NanoDB.Storage (Bytes)

/-! ## Drawing a level -/

/-- The loop of {lit}`get_random_level`; {lit}`below i` says whether draw {lit}`i` is below
0.03. -/
def levelFrom (below : Nat → Bool) : Nat → Nat → Nat
  | 0, level => level
  | fuel + 1, level =>
      if below level && decide (level < maxLinks) then levelFrom below fuel (level + 1) else level

/-- The level that is drawn; the loop has at most {lit}`M` turns. -/
def getRandomLevel (below : Nat → Bool) : Nat :=
  levelFrom below maxLinks 0

theorem levelFrom_le (below : Nat → Bool) {fuel level : Nat} (h : level ≤ maxLinks) :
    levelFrom below fuel level ≤ maxLinks := by
  induction fuel generalizing level with
  | zero => exact h
  | succ fuel ih =>
      rw [levelFrom]
      split
      · next hturn =>
          rw [Bool.and_eq_true, decide_eq_true_iff] at hturn
          exact ih hturn.2
      · exact h

theorem le_levelFrom (below : Nat → Bool) (fuel level : Nat) :
    level ≤ levelFrom below fuel level := by
  induction fuel generalizing level with
  | zero => exact Nat.le_refl _
  | succ fuel ih =>
      rw [levelFrom]
      split
      · exact Nat.le_trans (Nat.le_succ level) (ih (level + 1))
      · exact Nat.le_refl _

/-- The loop passes a level below {lit}`M` iff all draws up to it are below 0.03. -/
theorem lt_levelFrom_iff (below : Nat → Bool) {fuel level n : Nat} (hle : level ≤ n)
    (hfuel : n < level + fuel) (hn : n < maxLinks) :
    n < levelFrom below fuel level ↔ ∀ i, level ≤ i → i ≤ n → below i = true := by
  induction fuel generalizing level with
  | zero => omega
  | succ fuel ih =>
      rw [levelFrom]
      cases hbelow : below level with
      | false =>
          rw [Bool.false_and, if_neg (by decide)]
          constructor
          · intro hlt
            omega
          · intro hall
            rw [hall level (Nat.le_refl _) hle] at hbelow
            contradiction
      | true =>
          have hturn : (true && decide (level < maxLinks)) = true := by
            rw [Bool.true_and, decide_eq_true_iff]
            omega
          rw [if_pos hturn]
          rcases Nat.eq_or_lt_of_le hle with heq | hlt
          · have hpassed := le_levelFrom below fuel (level + 1)
            constructor
            · intro _ i hi hin
              have hi' : i = level := by omega
              rw [hi']
              exact hbelow
            · intro _
              omega
          · rw [ih hlt (by omega)]
            constructor
            · intro hall i hi hin
              rcases Nat.eq_or_lt_of_le hi with heq | hi
              · rw [← heq]
                exact hbelow
              · exact hall i hi hin
            · intro hall i hi
              exact hall i (by omega)

theorem getRandomLevel_le (below : Nat → Bool) : getRandomLevel below ≤ maxLinks :=
  levelFrom_le below (Nat.zero_le _)

/-- A level fits the arrays iff one of the first {lit}`MAX_LAYERS` draws is not below
0.03. -/
theorem getRandomLevel_lt_iff (below : Nat → Bool) :
    getRandomLevel below < maxLayers ↔ ∃ i < maxLayers, below i = false := by
  have hpass : 3 < levelFrom below maxLinks 0 ↔ _ :=
    lt_levelFrom_iff below (Nat.zero_le 3) (by decide) (by decide)
  rw [← Nat.not_le, getRandomLevel, ← not_iff_not, not_not]
  refine hpass.trans ?_
  unfold maxLayers
  simp only [not_exists, not_and, Bool.not_eq_false]
  constructor
  · intro hall i hi
    exact hall i (Nat.zero_le i) (by omega)
  · intro hall i _ hi
    exact hall i (by omega)

/-! ## Accesses -/

/-- A row of a node. -/
structure RowAccess where
  id : Nat
  layer : Nat
deriving DecidableEq, Repr

namespace HNSW

variable {V δ : Type*} [Zero V] [Preorder δ] [DecidableLT δ] [PriorityQueue (Result δ)]
  (m : Metric V δ)

/-- Each turn of the greedy descent reads the row of the node at its start. -/
def greedyLoopAccesses (h : HNSW V) (query : V) (layer : Nat) : Nat → Cursor δ → List RowAccess
  | 0, _ => []
  | fuel + 1, c =>
      ⟨c.id, layer⟩ ::
        (if (h.greedyPass m query layer c).changed then
          greedyLoopAccesses h query layer fuel (h.greedyPass m query layer c)
        else [])

def greedyLayerAccesses (h : HNSW V) (query : V) (layer : Nat) (c : Cursor δ) : List RowAccess :=
  h.greedyLoopAccesses m query layer (h.nodes.length + 2) c

def descendAccesses (h : HNSW V) (query : V) (bottom : Nat) : Nat → Cursor δ → List RowAccess
  | 0, _ => []
  | l + 1, c =>
      if l + 1 > bottom then
        h.greedyLayerAccesses m query (l + 1) c ++
          descendAccesses h query bottom l (h.greedyLayer m query (l + 1) c)
      else []

def descendFromAccesses (h : HNSW V) (query : V) (bottom entryPoint : Nat) : List RowAccess :=
  h.descendAccesses m query bottom h.currentMaxLayer.toNat
    { id := entryPoint, dist := m.dist query (h.getNode entryPoint).vector }

/-- A beam search reads the row of every node that it expands. -/
def searchLoopAccesses (h : HNSW V) (query : V) (ef size layer : Nat) :
    Nat → Beam δ → List RowAccess
  | 0, _ => []
  | fuel + 1, b =>
      match extract nearer b.candidates with
      | none => []
      | some (curr, rest) =>
          if stops ef b.found curr then []
          else
            ⟨curr.id, layer⟩ ::
              searchLoopAccesses h query ef size layer fuel
                ((h.neighbors curr.id layer).foldl (h.visit m query ef size)
                  { b with candidates := rest })

def searchLayerAccesses (h : HNSW V) (entryPoint : Nat) (query : V) (ef layer : Nat) :
    List RowAccess :=
  h.searchLoopAccesses m query ef (h.visitedSize entryPoint) layer (h.visitedSize entryPoint + 2)
    (h.startBeam m entryPoint query (h.visitedSize entryPoint))

omit [Zero V] in
/-- {lit}`add_link` reads and writes a row of its source, if that has a lock. -/
def addLinkAccesses (h : HNSW V) (src layer : Nat) : List RowAccess :=
  if src ≥ h.nodeLocks then [] else [⟨src, layer⟩]

def linkAllAccesses (h : HNSW V) (id layer : Nat) : List Nat → List RowAccess
  | [] => []
  | n :: selected =>
      h.addLinkAccesses id layer ++ (h.addLink m id n layer).addLinkAccesses n layer ++
        linkAllAccesses ((h.addLink m id n layer).addLink m n id layer) id layer selected

def connectAccesses (vec : V) (id : Nat) : Nat → HNSW V → Nat → List RowAccess
  | 0, _, _ => []
  | l + 1, h, curr =>
      h.searchLayerAccesses m curr vec efConstruction l ++
        h.linkAllAccesses m id l (h.selectNeighbors m vec l curr) ++
        connectAccesses vec id l (h.linkAll m id l (h.selectNeighbors m vec l curr))
          ((h.selectNeighbors m vec l curr).headD curr)

/-- The rows that {lit}`insert` accesses. -/
def insertAccesses (h : HNSW V) (level : Nat) (vec : V) (id : Nat) : List RowAccess :=
  match h.entryPointId with
  | none => []
  | some entryPoint =>
      (h.written vec id).descendFromAccesses m vec level entryPoint ++
        connectAccesses m vec id (min (level : Int) h.currentMaxLayer + 1).toNat (h.written vec id)
          ((h.written vec id).descendFrom m vec level entryPoint)

/-- The rows that {lit}`search` accesses. -/
def searchAccesses (h : HNSW V) (query : V) (k : Int) : List RowAccess :=
  match h.entryPointId with
  | none => []
  | some entryPoint =>
      h.descendFromAccesses m query 0 entryPoint ++
        h.searchLayerAccesses m (h.descendFrom m query 0 entryPoint) query (efSearch k) 0

/-! ## Which layers these are -/

variable {m}

omit [PriorityQueue (Result δ)] in
theorem layer_of_mem_greedyLayerAccesses {h : HNSW V} {query : V} {layer : Nat} {c : Cursor δ}
    {a : RowAccess} (ha : a ∈ h.greedyLayerAccesses m query layer c) : a.layer = layer := by
  rw [greedyLayerAccesses] at ha
  generalize h.nodes.length + 2 = fuel at ha
  induction fuel generalizing c with
  | zero => cases ha
  | succ fuel ih =>
      rw [greedyLoopAccesses] at ha
      rcases List.mem_cons.mp ha with rfl | ha
      · rfl
      · split at ha
        · exact ih ha
        · cases ha

omit [PriorityQueue (Result δ)] in
/-- A descent accesses every layer that it passes, and no other. -/
theorem layer_descendAccesses {h : HNSW V} {query : V} {bottom top : Nat} (c : Cursor δ)
    (layer : Nat) :
    (∃ a ∈ h.descendAccesses m query bottom top c, a.layer = layer) ↔
      bottom < layer ∧ layer ≤ top := by
  induction top generalizing c with
  | zero =>
      simp only [descendAccesses, List.not_mem_nil, false_and, exists_false, false_iff]
      omega
  | succ top ih =>
      rw [descendAccesses]
      split
      · next hpass =>
          simp only [List.mem_append, or_and_right, exists_or, ih]
          constructor
          · rintro (⟨a, ha, rfl⟩ | hrest)
            · rw [layer_of_mem_greedyLayerAccesses ha]
              omega
            · omega
          · intro hlayer
            rcases Nat.eq_or_lt_of_le hlayer.2 with rfl | hlt
            · exact .inl ⟨⟨c.id, top + 1⟩, List.mem_cons_self, rfl⟩
            · exact .inr ⟨hlayer.1, by omega⟩
      · simp only [List.not_mem_nil, false_and, exists_false, false_iff]
        omega

/-- A beam search accesses its own layer, at the start node for one. -/
theorem layer_searchLayerAccesses {h : HNSW V} (entryPoint : Nat) (query : V) (ef layer l : Nat) :
    (∃ a ∈ h.searchLayerAccesses m entryPoint query ef layer, a.layer = l) ↔ l = layer := by
  constructor
  · rintro ⟨a, ha, rfl⟩
    rw [searchLayerAccesses] at ha
    generalize h.visitedSize entryPoint + 2 = fuel,
      h.startBeam m entryPoint query (h.visitedSize entryPoint) = b at ha
    induction fuel generalizing b with
    | zero => cases ha
    | succ fuel ih =>
        rw [searchLoopAccesses] at ha
        split at ha
        · cases ha
        · split at ha
          · cases ha
          · rcases List.mem_cons.mp ha with rfl | ha
            · rfl
            · exact ih _ ha
  · rintro rfl
    rw [searchLayerAccesses, searchLoopAccesses]
    have hfirst : extract nearer
        (h.startBeam m entryPoint query (h.visitedSize entryPoint)).candidates =
          some (⟨entryPoint, m.dist query (h.getNode entryPoint).vector, []⟩, []) :=
      extract_singleton _
    rw [hfirst]
    dsimp only
    -- the start node is not farther than itself
    have hgo : stops ef (h.startBeam m entryPoint query (h.visitedSize entryPoint)).found
        ⟨entryPoint, m.dist query (h.getNode entryPoint).vector, []⟩ = false := by
      rw [stops, startBeam]
      dsimp only
      split
      · rfl
      · next worst hworst =>
          rw [top] at hworst
          split at hworst
          · rw [extract_eq_none_iff.mpr rfl] at hworst
            cases hworst
          · rw [extract_singleton] at hworst
            have hsame := Option.some_inj.mp hworst
            rw [← hsame]
            simp
    rw [hgo, if_neg (by decide)]
    exact ⟨_, List.mem_cons_self, rfl⟩

omit [PriorityQueue (Result δ)] in
theorem layer_of_mem_linkAllAccesses {h : HNSW V} {id layer : Nat} {selected : List Nat}
    {a : RowAccess} (ha : a ∈ h.linkAllAccesses m id layer selected) : a.layer = layer := by
  have hlink : ∀ (h : HNSW V) src, a ∈ h.addLinkAccesses src layer → a.layer = layer := by
    intro h src ha
    rw [addLinkAccesses] at ha
    split at ha
    · cases ha
    · rw [List.mem_singleton.mp ha]
  induction selected generalizing h with
  | nil => cases ha
  | cons n selected ih =>
      rw [linkAllAccesses, List.mem_append, List.mem_append] at ha
      rcases ha with (ha | ha) | ha
      · exact hlink _ _ ha
      · exact hlink _ _ ha
      · exact ih ha

/-- Connecting a node accesses the layers below {lit}`l` and no other. -/
theorem layer_connectAccesses (vec : V) (id l : Nat) (h : HNSW V) (curr layer : Nat) :
    (∃ a ∈ connectAccesses m vec id l h curr, a.layer = layer) ↔ layer < l := by
  induction l generalizing h curr with
  | zero =>
      simp only [connectAccesses, List.not_mem_nil, false_and, exists_false, false_iff]
      omega
  | succ l ih =>
      rw [connectAccesses]
      simp only [List.mem_append, or_and_right, exists_or, ih, layer_searchLayerAccesses]
      constructor
      · rintro ((rfl | ⟨a, ha, rfl⟩) | hlt)
        · omega
        · rw [layer_of_mem_linkAllAccesses ha]
          omega
        · omega
      · intro hlt
        rcases Nat.eq_or_lt_of_le (Nat.lt_succ_iff.mp hlt) with rfl | hlt
        · exact .inl (.inl rfl)
        · exact .inr hlt

variable (m)

/-- An insert into a non-empty index accesses the layers up to the current maximum. -/
theorem insertAccesses_layers {h : HNSW V} {entryPoint : Nat}
    (hentry : h.entryPointId = some entryPoint) (hmax : 0 ≤ h.currentMaxLayer) (level : Nat)
    (vec : V) (id layer : Nat) :
    (∃ a ∈ h.insertAccesses m level vec id, a.layer = layer) ↔
      (layer : Int) ≤ h.currentMaxLayer := by
  rw [insertAccesses, hentry]
  dsimp only
  simp only [List.mem_append, or_and_right, exists_or, descendFromAccesses, layer_descendAccesses,
    layer_connectAccesses, currentMaxLayer_written]
  omega

/-- A search in a non-empty index accesses the layers up to the current maximum. -/
theorem searchAccesses_layers {h : HNSW V} {entryPoint : Nat}
    (hentry : h.entryPointId = some entryPoint) (hmax : 0 ≤ h.currentMaxLayer) (query : V) (k : Int)
    (layer : Nat) :
    (∃ a ∈ h.searchAccesses m query k, a.layer = layer) ↔ (layer : Int) ≤ h.currentMaxLayer := by
  rw [searchAccesses, hentry]
  dsimp only
  simp only [List.mem_append, or_and_right, exists_or, descendFromAccesses, layer_descendAccesses,
    layer_searchLayerAccesses]
  omega

end HNSW

/-! ## Sequences of calls -/

/-- A call: an insert with the draws that decide its level, or a search.  The id
{lit}`-1`, which stands for no id, is left out. -/
inductive IndexCall (V : Type*) where
  | insert (below : Nat → Bool) (vec : V) (id : Fin noId) (metadata : Bytes)
  | search (query : V) (k : Int)

namespace IndexCall

open HNSW

variable {V δ : Type*} [Zero V] [Preorder δ] [DecidableLT δ] [PriorityQueue (Result δ)]
  (m : Metric V δ)

def accesses (h : HNSW V) : IndexCall V → List RowAccess
  | .insert below vec id _ => h.insertAccesses m (getRandomLevel below) vec id
  | .search query k => h.searchAccesses m query k

/-- The index after the call. -/
def apply (h : HNSW V) : IndexCall V → HNSW V
  | .insert below vec id metadata => h.insert m (getRandomLevel below) vec id metadata
  | .search _ _ => h

/-- The rows that a sequence of calls accesses. -/
def accessesOf (h : HNSW V) : List (IndexCall V) → List RowAccess
  | [] => []
  | c :: calls => c.accesses m h ++ accessesOf (c.apply m h) calls

/-- An insert draws a level below {lit}`MAX_LAYERS`: one of the first draws is not below
0.03. -/
def LevelFits : IndexCall V → Prop
  | .insert below _ _ _ => ∃ i < maxLayers, below i = false
  | .search _ _ => True

/-- The accesses of one call on a non-empty index. -/
theorem layer_accesses {h : HNSW V} {entryPoint : Nat} (hentry : h.entryPointId = some entryPoint)
    (hmax : 0 ≤ h.currentMaxLayer) (c : IndexCall V) (layer : Nat) :
    (∃ a ∈ c.accesses m h, a.layer = layer) ↔ (layer : Int) ≤ h.currentMaxLayer := by
  cases c with
  | insert below vec id metadata => exact insertAccesses_layers m hentry hmax _ vec id layer
  | search query k => exact searchAccesses_layers m hentry hmax query k layer

/-- The index is empty, or its maximum layer is inside the arrays. -/
def LayersFit (h : HNSW V) : Prop :=
  h.entryPointId = none ∨ (0 ≤ h.currentMaxLayer ∧ h.currentMaxLayer < maxLayers)

theorem accesses_lt_of_layersFit {h : HNSW V} (hfit : LayersFit h) (c : IndexCall V) :
    ∀ a ∈ c.accesses m h, a.layer < maxLayers := by
  intro a ha
  cases hentry : h.entryPointId with
  | none => cases c <;> simp [accesses, insertAccesses, searchAccesses, hentry] at ha
  | some entryPoint =>
      rcases hfit with hnone | ⟨hmax, hlt⟩
      · rw [hentry] at hnone
        contradiction
      · have hle := (layer_accesses m hentry hmax c a.layer).mp ⟨a, ha, rfl⟩
        omega

theorem LayersFit.apply {h : HNSW V} (hfit : LayersFit h) {c : IndexCall V} (hc : c.LevelFits) :
    LayersFit (c.apply m h) := by
  cases c with
  | search query k => exact hfit
  | insert below vec id metadata =>
      have hlevel := (getRandomLevel_lt_iff below).mpr hc
      right
      rw [IndexCall.apply, currentMaxLayer_insert]
      split
      · omega
      · next hkeep =>
          rw [not_or] at hkeep
          rcases hfit with hnone | hmax
          · exact absurd hnone hkeep.1
          · exact hmax

/-- After an insert of a higher level every call leaves the arrays. -/
theorem exists_access_of_not_levelFits {h : HNSW V} (hfit : LayersFit h) {c : IndexCall V}
    (hc : ¬ c.LevelFits) (next : IndexCall V) :
    ∃ a ∈ next.accesses m (c.apply m h), ¬ a.layer < maxLayers := by
  cases c with
  | search query k => exact absurd trivial hc
  | insert below vec id metadata =>
      have hlevel : maxLayers ≤ getRandomLevel below := by
        rw [← Nat.not_lt, getRandomLevel_lt_iff]
        exact hc
      -- the level is above the old maximum, so it becomes the new one
      have hraise : h.entryPointId = none ∨ (getRandomLevel below : Int) > h.currentMaxLayer := by
        rcases hfit with hnone | ⟨-, hlt⟩
        · exact .inl hnone
        · exact .inr (by omega)
      have hentry : (h.insert m (getRandomLevel below) vec id metadata).entryPointId =
          some id.val := by
        rw [entryPointId_insert, if_pos hraise]
      have hmax : (h.insert m (getRandomLevel below) vec id metadata).currentMaxLayer =
          getRandomLevel below := by
        rw [currentMaxLayer_insert, if_pos hraise]
      rcases (layer_accesses m hentry (by omega) next (getRandomLevel below)).mpr (by omega) with
        ⟨a, ha, hlayer⟩
      exact ⟨a, ha, by omega⟩

theorem accesses_lt_iff {h : HNSW V} (hfit : LayersFit h) (calls : List (IndexCall V)) :
    (∀ a ∈ accessesOf m h calls, a.layer < maxLayers) ↔ ∀ c ∈ calls.dropLast, c.LevelFits := by
  induction calls generalizing h with
  | nil => simp [accessesOf]
  | cons c calls ih =>
      rw [accessesOf]
      cases calls with
      | nil => simpa [accessesOf] using accesses_lt_of_layersFit m hfit c
      | cons next calls =>
          rw [List.dropLast_cons_cons, List.forall_mem_cons, List.forall_mem_append]
          by_cases hc : c.LevelFits
          · rw [ih (hfit.apply m hc)]
            exact ⟨fun hall => ⟨hc, hall.2⟩,
              fun hall => ⟨accesses_lt_of_layersFit m hfit c, hall.2⟩⟩
          · constructor
            · rintro ⟨-, hrest⟩
              rcases exists_access_of_not_levelFits m hfit hc next with ⟨a, ha, hout⟩
              exact absurd (hrest a (List.mem_append_left _ ha)) hout
            · exact fun hall => absurd hall.1 hc

/-- For every storage size, every sequence of inserts and searches and all draws: every
access to a row of a node uses a layer below {lit}`MAX_LAYERS` iff every insert that another
call follows has, among its first {lit}`MAX_LAYERS` draws, one that is not below 0.03. -/
theorem accesses_in_bounds_iff (m : Metric V δ) (storageSize : Nat) (calls : List (IndexCall V)) :
    (∀ a ∈ accessesOf m { storageSize := storageSize } calls, 0 ≤ a.layer ∧ a.layer < maxLayers) ↔
      ∀ c ∈ calls.dropLast, c.LevelFits := by
  simp only [Nat.zero_le, true_and]
  exact accesses_lt_iff m (.inl rfl) calls

/-- The first insert draws four times below 0.03 and is on layer 4; the search after it
reads row 4. -/
theorem search_reads_row_four :
    ¬ ∀ calls : List (IndexCall Int),
      ∀ a ∈ accessesOf ⟨fun x y => (x - y) * (x - y), -1⟩
          { storageSize := 100 * 1024 * 1024 } calls,
        0 ≤ a.layer ∧ a.layer < maxLayers := by
  intro hall
  have hread := hall
    [.insert (fun i => decide (i < 4)) 5 ⟨0, by decide⟩ [], .search 5 1] ⟨0, 4⟩ (by decide +kernel)
  exact absurd hread.2 (by decide)

end IndexCall

end NanoDB.Index
