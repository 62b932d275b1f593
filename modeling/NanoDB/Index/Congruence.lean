import NanoDB.Index.Answers

/-!
# What a search depends on

A search reads vectors, tombstones, links, the entry point, the top layer and, for the length of its
bitmap, the counter.  A search on one layer reads the links of that layer only.

Main results:

- Theorem {lit}`selectNeighbors_congr`: what {lit}`insert` selects on a layer depends on the links
  of that layer.
- Theorem {lit}`searchChecked_congr`: what {lit}`search` returns, and whether it throws, does not
  depend on the file and the locks.
-/

namespace NanoDB.Index.HNSW

open NanoDB.Lib (PriorityQueue)

variable {V δ : Type*} [Zero V]

/-- The nodes have the same vectors and tombstones, and the counters are equal. -/
structure SameNodes (h h' : HNSW V) : Prop where
  vector : ∀ j, (h'.getNode j).vector = (h.getNode j).vector
  isDeleted : ∀ j, (h'.getNode j).isDeleted = (h.getNode j).isDeleted
  elementCount : h'.elementCount = h.elementCount

theorem LinksOnly.sameNodes {h h' : HNSW V} (hlinks : LinksOnly h h') : SameNodes h h' :=
  ⟨hlinks.vector, hlinks.isDeleted, hlinks.elementCount⟩

variable [Preorder δ] [DecidableLT δ] [PriorityQueue (Result δ)] (m : Metric V δ) {h h' : HNSW V}
  {layer : Nat}

/-! ## One layer -/

theorem visit_congr (hsame : SameNodes h h') (query : V) (ef size : Nat) :
    h'.visit m query ef size = h.visit m query ef size := by
  ext b n : 2
  rw [visit, visit, hsame.vector n, hsame.isDeleted n]

theorem searchLoop_congr (hsame : SameNodes h h')
    (hlayer : ∀ x, h'.neighbors x layer = h.neighbors x layer) (query : V) (ef size fuel : Nat)
    (b : Beam δ) :
    h'.searchLoop m query ef size layer fuel b = h.searchLoop m query ef size layer fuel b := by
  induction fuel generalizing b with
  | zero => rfl
  | succ fuel ih =>
      rw [searchLoop, searchLoop, visit_congr m hsame]
      simp only [hlayer, ih]

omit [Zero V] in
theorem visitedSize_congr (hcount : h'.elementCount = h.elementCount) (entryPoint : Nat) :
    h'.visitedSize entryPoint = h.visitedSize entryPoint := by
  rw [visitedSize, visitedSize, hcount]

theorem searchLayer_congr (hsame : SameNodes h h')
    (hlayer : ∀ x, h'.neighbors x layer = h.neighbors x layer) (entryPoint : Nat) (query : V)
    (ef : Nat) :
    h'.searchLayer m entryPoint query ef layer = h.searchLayer m entryPoint query ef layer := by
  have hsize := visitedSize_congr hsame.elementCount entryPoint
  have hstart : ∀ size, h'.startBeam m entryPoint query size =
      h.startBeam m entryPoint query size := by
    intro size
    rw [startBeam, startBeam, hsame.vector, hsame.isDeleted]
  have hbeam : h'.searchBeam m entryPoint query ef layer =
      h.searchBeam m entryPoint query ef layer := by
    apply Option.some.inj
    rw [searchBeam, searchBeam, Option.some_get, Option.some_get, hsize, hstart,
      searchLoop_congr m hsame hlayer]
  rw [searchLayer, searchLayer, hbeam]

theorem selectNeighbors_congr (hsame : SameNodes h h')
    (hlayer : ∀ x, h'.neighbors x layer = h.neighbors x layer) (vec : V) (curr : Nat) :
    h'.selectNeighbors m vec layer curr = h.selectNeighbors m vec layer curr := by
  rw [selectNeighbors, selectNeighbors, searchLayer_congr m hsame hlayer]

/-! ## Descent -/

omit [PriorityQueue (Result δ)] in
theorem greedyLoop_congr (hsame : SameNodes h h')
    (hlayer : ∀ x, h'.neighbors x layer = h.neighbors x layer) (query : V) (fuel : Nat)
    (c : Cursor δ) :
    h'.greedyLoop m query layer fuel c = h.greedyLoop m query layer fuel c := by
  have hmove : h'.moveCloser m query = h.moveCloser m query := by
    ext c n : 2
    rw [moveCloser, moveCloser, hsame.vector n]
  induction fuel generalizing c with
  | zero => rfl
  | succ fuel ih =>
      rw [greedyLoop, greedyLoop, greedyPass, greedyPass, hmove, hlayer]
      simp only [ih]

/-! ## The whole search -/

/-- The ids and the distances of results. -/
def idsAndDistances (results : List (Result δ)) : List (Nat × δ) :=
  results.map fun r => (r.id, r.distance)

/-- What a search reads of an index. -/
structure SameForSearch (h h' : HNSW V) : Prop where
  nodes : h'.nodes = h.nodes
  entryPointId : h'.entryPointId = h.entryPointId
  currentMaxLayer : h'.currentMaxLayer = h.currentMaxLayer
  elementCount : h'.elementCount = h.elementCount

omit [Preorder δ] [DecidableLT δ] in
theorem SameForSearch.getNode (hsame : SameForSearch h h') (j : Nat) :
    h'.getNode j = h.getNode j := by
  rw [HNSW.getNode, HNSW.getNode, hsame.nodes]

omit [Preorder δ] [DecidableLT δ] in
theorem SameForSearch.neighbors (hsame : SameForSearch h h') (x l : Nat) :
    h'.neighbors x l = h.neighbors x l := by
  rw [HNSW.neighbors, HNSW.neighbors, hsame.getNode]

omit [Preorder δ] [DecidableLT δ] in
theorem SameForSearch.sameNodes (hsame : SameForSearch h h') : SameNodes h h' :=
  ⟨fun j => by rw [hsame.getNode], fun j => by rw [hsame.getNode], hsame.elementCount⟩

omit [PriorityQueue (Result δ)] in
theorem descend_congr (hsame : SameForSearch h h') (query : V) (bottom l : Nat) (c : Cursor δ) :
    h'.descend m query bottom l c = h.descend m query bottom l c := by
  induction l generalizing c with
  | zero => rfl
  | succ l ih =>
      have hlayer : h'.greedyLayer m query (l + 1) c = h.greedyLayer m query (l + 1) c := by
        apply Option.some.inj
        rw [greedyLayer, greedyLayer, Option.some_get, Option.some_get, hsame.nodes]
        exact greedyLoop_congr m hsame.sameNodes (fun x => hsame.neighbors x (l + 1)) query _ c
      rw [descend, descend, hlayer, ih]

omit [PriorityQueue (Result δ)] in
theorem descendFrom_congr (hsame : SameForSearch h h') (query : V) (bottom entryPoint : Nat) :
    h'.descendFrom m query bottom entryPoint = h.descendFrom m query bottom entryPoint := by
  rw [descendFrom, descendFrom, hsame.currentMaxLayer, hsame.getNode, descend_congr m hsame]

theorem search_congr (hsame : SameForSearch h h') (query : V) (k : Int) :
    idsAndDistances (h'.search m query k) = idsAndDistances (h.search m query k) := by
  rw [search, search, hsame.entryPointId]
  cases h.entryPointId with
  | none => rfl
  | some entryPoint =>
      dsimp only
      rw [descendFrom_congr m hsame, searchLayer_congr m hsame.sameNodes (hsame.neighbors · 0)]
      simp only [idsAndDistances, List.map_take, List.map_reverse, List.map_map, hsame.getNode]
      rfl

/-- The results of a search, and whether it throws. -/
theorem searchChecked_congr (hsame : SameForSearch h h') (query : V) (k : Int) :
    (h'.searchChecked m query k).map idsAndDistances =
      (h.searchChecked m query k).map idsAndDistances := by
  rw [searchChecked, searchChecked, hsame.entryPointId]
  cases h.entryPointId with
  | none => rw [Option.map_some, Option.map_some, search_congr m hsame]
  | some entryPoint =>
      dsimp only
      rw [descendFrom_congr m hsame, visitedSize_congr hsame.elementCount]
      split
      · rw [Option.map_some, Option.map_some, search_congr m hsame]
      · rfl

end NanoDB.Index.HNSW
