import NanoDB.Lib.BinaryHeap
import NanoDB.Storage.Metadata

/-!
# The HNSW index

One open index on its mapped file: the node slots with their neighbour lists, the entry
point, the counters, and the operations {lit}`insert`, {lit}`search` and
{lit}`delete_vector`, one call at a time.

Vectors and distances are of any type.  The code compares distances with {lit}`<` only,
so a preorder is enough; floats with a NaN among them are one.  Of several equal
elements a {lit}`std::priority_queue` may give any first: the queue is a parameter.

A slot that was never written reads as zero bytes: no vector, not deleted, no
neighbours.  The arrays of a node have {lit}`MAX_LAYERS` rows; here layers are
unbounded.  The id, the level of a node and the file header are written and never read
by these operations.

Main results:

- Theorem {lit}`greedyLoop_isSome`, {lit}`searchLoop_isSome`: both loops end, on every
  graph.
- Theorem {lit}`getNode_insert`: an insert writes its slot, live and with the new
  vector; of the other slots it changes the neighbour lists only.
-/

namespace NanoDB.Index

open NanoDB.Lib
open NanoDB.Storage (Bytes MetadataHandler)

/-! ## Data -/

/-- The rows of the neighbour arrays, {lit}`MAX_LAYERS`. -/
def maxLayers : Nat := 4

/-- The links of a new node on one layer, and the capacity of a list above layer 0,
{lit}`config::M`. -/
def maxLinks : Nat := 16

/-- The capacity of a list on layer 0, {lit}`config::M_MAX0`. -/
def maxLinks0 : Nat := 2 * maxLinks

/-- {lit}`config::EF_CONSTRUCTION`. -/
def efConstruction : Nat := 200

def headerSize : Nat := 64

/-- {lit}`sizeof(Node)`. -/
def nodeSize : Nat := 1056

/-- The value of {lit}`-1` as an {lit}`id_t`: no id. -/
def noId : Nat := 2 ^ 32 - 1

/-- A node slot; {lit}`neighbors l` is the used part of row {lit}`l`. -/
structure Node (V : Type*) where
  vector : V
  isDeleted : Bool := false
  neighbors : Nat → List Nat := fun _ => []

/-- The slots that were written, by id, the length of the file, the number of locks, and
the members of the class.  {lit}`entryPointId` is {lean}`none` for {lit}`-1`. -/
structure HNSW (V : Type*) where
  nodes : List (Node V) := []
  storageSize : Nat
  nodeLocks : Nat := 10000
  entryPointId : Option Nat := none
  currentMaxLayer : Int := -1
  elementCount : Nat := 0
  metadataStorage : MetadataHandler := {}

/-- The distance of an index, and the float {lit}`-1.0`, from which the search for the
farthest neighbour starts. -/
structure Metric (V δ : Type*) where
  dist : V → V → δ
  minusOne : δ

structure Result (δ : Type*) where
  id : Nat
  distance : δ
  metadata : Bytes := []
deriving DecidableEq, Repr

/-- In runs on fixed inputs distances are integers, and of equal results the one that libstdc++
takes comes out first. -/
instance : PriorityQueue (Result Int) :=
  binaryHeap

variable {V δ : Type*} [Zero V]

/-- A slot of zero bytes. -/
def zeroNode : Node V where
  vector := 0

namespace HNSW

def getNode (h : HNSW V) (id : Nat) : Node V :=
  (h.nodes[id]?).getD zeroNode

/-- The neighbour list of a node on a layer. -/
def neighbors (h : HNSW V) (id layer : Nat) : List Nat :=
  (h.getNode id).neighbors layer

/-- Write a slot; the slots skipped on the way are zero bytes. -/
def writeNode (h : HNSW V) (id : Nat) (node : Node V) : HNSW V :=
  { h with
    nodes := if id < h.nodes.length then h.nodes.set id node
      else h.nodes ++ List.replicate (id - h.nodes.length) zeroNode ++ [node] }

/-- Whether the slot of an id lies inside the file. -/
def inStorage (h : HNSW V) (id : Nat) : Bool :=
  headerSize + id * nodeSize + nodeSize ≤ h.storageSize

/-- The expansion step of {lit}`insert`: one growth by 10 MiB, and locks for an id that
has none. -/
def expandStorage (h : HNSW V) (id : Nat) : HNSW V :=
  if h.inStorage id then h
  else
    { h with
      storageSize := h.storageSize + 10 * 1024 * 1024
      nodeLocks := if id ≥ h.nodeLocks then id + 10000 else h.nodeLocks }

/-- The index after {lit}`insert` has written the new node. -/
def written (h : HNSW V) (vec : V) (id : Nat) : HNSW V :=
  (h.expandStorage id).writeNode id { vector := vec }

/-! ## Greedy descent -/

section Distance

variable [Preorder δ] [DecidableLT δ] (m : Metric V δ)

/-- {lit}`curr_obj`, {lit}`dist` and {lit}`changed`. -/
structure Cursor (δ : Type*) where
  id : Nat
  dist : δ
  changed : Bool := false

/-- Look at one neighbour. -/
def moveCloser (h : HNSW V) (query : V) (c : Cursor δ) (n : Nat) : Cursor δ :=
  if m.dist query (h.getNode n).vector < c.dist then
    ⟨n, m.dist query (h.getNode n).vector, true⟩
  else c

/-- One turn of the loop: the neighbours are those of the node at its start. -/
def greedyPass (h : HNSW V) (query : V) (layer : Nat) (c : Cursor δ) : Cursor δ :=
  (h.neighbors c.id layer).foldl (h.moveCloser m query) { c with changed := false }

/-- The loop {lit}`while (changed)`; {lean}`none` if {lit}`fuel` runs out. -/
def greedyLoop (h : HNSW V) (query : V) (layer : Nat) : Nat → Cursor δ → Option (Cursor δ)
  | 0, _ => none
  | fuel + 1, c =>
      let c := h.greedyPass m query layer c
      if c.changed then greedyLoop h query layer fuel c else some c

/-! ### The descent ends -/

/-- The distances that occur: those of the written slots and that of a zero slot. -/
def slotDistances (h : HNSW V) (query : V) : List δ :=
  h.nodes.map (fun node => m.dist query node.vector) ++ [m.dist query 0]

omit [Preorder δ] [DecidableLT δ] in
theorem dist_mem_slotDistances (h : HNSW V) (query : V) (n : Nat) :
    m.dist query (h.getNode n).vector ∈ h.slotDistances m query := by
  rw [slotDistances, List.mem_append, getNode]
  cases hnode : h.nodes[n]? with
  | none => exact .inr (List.mem_singleton.mpr rfl)
  | some node => exact .inl (List.mem_map.mpr ⟨node, List.mem_of_getElem? hnode, rfl⟩)

/-- Over a list of neighbours the cursor stays or moves to a closer one. -/
theorem foldl_moveCloser_cases (h : HNSW V) (query : V) (ns : List Nat) (c : Cursor δ) :
    ns.foldl (h.moveCloser m query) c = c ∨
      ((ns.foldl (h.moveCloser m query) c).changed = true ∧
        (ns.foldl (h.moveCloser m query) c).id ∈ ns ∧
        (ns.foldl (h.moveCloser m query) c).dist < c.dist ∧
        (ns.foldl (h.moveCloser m query) c).dist =
          m.dist query (h.getNode (ns.foldl (h.moveCloser m query) c).id).vector) := by
  induction ns generalizing c with
  | nil => exact .inl rfl
  | cons n ns ih =>
      rw [List.foldl_cons]
      by_cases hcloser : m.dist query (h.getNode n).vector < c.dist
      · have hmove : h.moveCloser m query c n =
            ⟨n, m.dist query (h.getNode n).vector, true⟩ := if_pos hcloser
        rw [hmove]
        right
        rcases ih ⟨n, m.dist query (h.getNode n).vector, true⟩ with heq | ⟨hch, hmem, hlt, hd⟩
        · rw [heq]
          exact ⟨rfl, List.mem_cons_self, hcloser, rfl⟩
        · exact ⟨hch, List.mem_cons_of_mem _ hmem, hlt.trans hcloser, hd⟩
      · have hmove : h.moveCloser m query c n = c := if_neg hcloser
        rw [hmove]
        rcases ih c with heq | ⟨hch, hmem, hlt, hd⟩
        · exact .inl heq
        · exact .inr ⟨hch, List.mem_cons_of_mem _ hmem, hlt, hd⟩

/-- The descent ends: the distances it passes through are among finitely many and
decrease. -/
theorem greedyLoop_isSome (h : HNSW V) (query : V) (layer : Nat) {fuel : Nat} {c : Cursor δ}
    (hfuel : (h.slotDistances m query).countP (fun d => decide (d < c.dist)) < fuel) :
    (h.greedyLoop m query layer fuel c).isSome = true := by
  induction fuel generalizing c with
  | zero => omega
  | succ fuel ih =>
      rw [greedyLoop]
      split
      · next hchanged =>
          apply ih
          rcases foldl_moveCloser_cases m h query (h.neighbors c.id layer)
            { c with changed := false } with heq | ⟨-, -, hlt, hd⟩
          · rw [greedyPass, heq] at hchanged
            contradiction
          · have hmem := h.dist_mem_slotDistances m query
              (h.greedyPass m query layer c).id
            have hfewer := countP_lt_of_lt hlt (hd ▸ hmem)
            exact lt_of_lt_of_le hfewer (Nat.lt_succ_iff.mp hfuel)
      · rfl

theorem greedyLoop_fuel (h : HNSW V) (query : V) (layer : Nat) (c : Cursor δ) :
    (h.greedyLoop m query layer (h.nodes.length + 2) c).isSome = true := by
  apply greedyLoop_isSome
  apply lt_of_le_of_lt List.countP_le_length
  simp [slotDistances]

/-! ## Beam search -/

variable [PriorityQueue (Result δ)]

/-- The nearest first. -/
def nearer (a b : Result δ) : Bool :=
  a.distance < b.distance

/-- The farthest first. -/
def farther (a b : Result δ) : Bool :=
  b.distance < a.distance

/-- {lit}`found_results.top()`. -/
def top (found : List (Result δ)) : Option (Result δ) :=
  (extract farther found).map (·.1)

/-- Push a result, and drop the farthest one if there are more than {lit}`ef`. -/
def keepBest (ef : Nat) (found : List (Result δ)) (r : Result δ) : List (Result δ) :=
  if (r :: found).length > ef then
    match extract farther (r :: found) with
    | none => []
    | some (_, rest) => rest
  else r :: found

/-- The two heaps of {lit}`search_layer` and the ids whose bit in {lit}`visited` is
set. -/
structure Beam (δ : Type*) where
  visited : List Nat
  candidates : List (Result δ)
  found : List (Result δ)

/-- The length of {lit}`visited`, as a {lit}`size_t`. -/
def visitedSize (h : HNSW V) (entryPoint : Nat) : Nat :=
  (max entryPoint h.elementCount + 2000) % 2 ^ 64

/-- Whether a result at distance {lit}`d` is wanted. -/
def wanted (ef : Nat) (found : List (Result δ)) (d : δ) : Bool :=
  found.length < ef ||
    match top found with
    | none => false
    | some worst => d < worst.distance

/-- Look at one neighbour. -/
def visit (h : HNSW V) (query : V) (ef size : Nat) (b : Beam δ) (n : Nat) : Beam δ :=
  if n ≥ size ∨ n ∈ b.visited then b
  else
    let d := m.dist query (h.getNode n).vector
    if wanted ef b.found d then
      { visited := n :: b.visited
        candidates := { id := n, distance := d } :: b.candidates
        found := if (h.getNode n).isDeleted then b.found
          else keepBest ef b.found { id := n, distance := d } }
    else { b with visited := n :: b.visited }

/-- Whether the nearest candidate ends the search. -/
def stops (ef : Nat) (found : List (Result δ)) (curr : Result δ) : Bool :=
  match top found with
  | none => false
  | some worst => worst.distance < curr.distance && ef ≤ found.length

/-- The loop of {lit}`search_layer`; {lean}`none` if {lit}`fuel` runs out.  A search
that is stopped ends with the candidates it did not expand. -/
def searchLoop (h : HNSW V) (query : V) (ef size layer : Nat) : Nat → Beam δ → Option (Beam δ)
  | 0, _ => none
  | fuel + 1, b =>
      match extract nearer b.candidates with
      | none => some b
      | some (curr, rest) =>
          if stops ef b.found curr then some b
          else
            searchLoop h query ef size layer fuel
              ((h.neighbors curr.id layer).foldl (h.visit m query ef size)
                { b with candidates := rest })

/-- The heaps at the start of {lit}`search_layer`. -/
def startBeam (h : HNSW V) (entryPoint : Nat) (query : V) (size : Nat) : Beam δ :=
  let start : Result δ :=
    { id := entryPoint, distance := m.dist query (h.getNode entryPoint).vector }
  { visited := if entryPoint < size then [entryPoint] else []
    candidates := [start]
    found := if (h.getNode entryPoint).isDeleted then [] else [start] }

/-! ### The search ends -/

/-- The visited ids are distinct and have a bit. -/
structure Beam.Bounded (size : Nat) (b : Beam δ) : Prop where
  nodup : b.visited.Nodup
  lt : ∀ n ∈ b.visited, n < size

omit [Preorder δ] [DecidableLT δ] [PriorityQueue (Result δ)] in
theorem Beam.Bounded.length_le {size : Nat} {b : Beam δ} (hb : b.Bounded size) :
    b.visited.length ≤ size := by
  have hsub : List.Subperm b.visited (List.range size) :=
    List.subperm_of_subset hb.nodup fun n hn => List.mem_range.mpr (hb.lt n hn)
  simpa using hsub.length_le

/-- A look at a neighbour adds at most one candidate, for a bit that it sets. -/
theorem Beam.Bounded.visit {size : Nat} {b : Beam δ} (hb : b.Bounded size) (h : HNSW V) (query : V)
    (ef n : Nat) :
    (h.visit m query ef size b n).Bounded size ∧
      (h.visit m query ef size b n).candidates.length + b.visited.length ≤
        b.candidates.length + (h.visit m query ef size b n).visited.length := by
  rw [HNSW.visit]
  split
  · exact ⟨hb, le_rfl⟩
  · next hnew =>
      have hnew' : n < size ∧ n ∉ b.visited := by
        rw [not_or] at hnew
        exact ⟨by omega, hnew.2⟩
      have hnodup : (n :: b.visited).Nodup := List.nodup_cons.mpr ⟨hnew'.2, hb.nodup⟩
      have hlt : ∀ i ∈ n :: b.visited, i < size := by
        intro i hi
        rcases List.mem_cons.mp hi with rfl | hi
        · exact hnew'.1
        · exact hb.lt i hi
      dsimp only
      split
      · refine ⟨⟨hnodup, hlt⟩, ?_⟩
        simp only [List.length_cons]
        omega
      · refine ⟨⟨hnodup, hlt⟩, ?_⟩
        simp only [List.length_cons]
        omega

theorem Beam.Bounded.foldl_visit {size : Nat} {b : Beam δ} (hb : b.Bounded size) (h : HNSW V)
    (query : V) (ef : Nat) (ns : List Nat) :
    (ns.foldl (h.visit m query ef size) b).Bounded size ∧
      (ns.foldl (h.visit m query ef size) b).candidates.length + b.visited.length ≤
        b.candidates.length + (ns.foldl (h.visit m query ef size) b).visited.length := by
  induction ns generalizing b with
  | nil => exact ⟨hb, le_rfl⟩
  | cons n ns ih =>
      rcases hb.visit m h query ef n with ⟨hnext, hgrow⟩
      rcases ih hnext with ⟨hlast, hgrow'⟩
      rw [List.foldl_cons]
      exact ⟨hlast, by omega⟩

/-- The beam search ends: every candidate has its own bit in {lit}`visited`. -/
theorem searchLoop_isSome (h : HNSW V) (query : V) (ef layer : Nat) {size fuel : Nat} {b : Beam δ}
    (hb : b.Bounded size) (hfuel : b.candidates.length + size < fuel + b.visited.length) :
    (h.searchLoop m query ef size layer fuel b).isSome = true := by
  induction fuel generalizing b with
  | zero =>
      have := hb.length_le
      omega
  | succ fuel ih =>
      rw [searchLoop]
      split
      · rfl
      · next curr rest hextract =>
          split
          · rfl
          · have hrest : ({ b with candidates := rest } : Beam δ).Bounded size := ⟨hb.nodup, hb.lt⟩
            rcases hrest.foldl_visit m h query ef (h.neighbors curr.id layer) with ⟨hnext, hgrow⟩
            apply ih hnext
            have := length_of_extract hextract
            dsimp only at hgrow
            omega

omit [Preorder δ] [DecidableLT δ] [PriorityQueue (Result δ)] in
theorem startBeam_bounded (h : HNSW V) (entryPoint : Nat) (query : V) (size : Nat) :
    (h.startBeam m entryPoint query size).Bounded size := by
  rw [startBeam]
  split
  · next hlt => exact ⟨List.nodup_singleton _, by simpa using hlt⟩
  · exact ⟨List.nodup_nil, by simp⟩

theorem searchLoop_fuel (h : HNSW V) (entryPoint : Nat) (query : V) (ef size layer : Nat) :
    (h.searchLoop m query ef size layer (size + 2)
      (h.startBeam m entryPoint query size)).isSome = true := by
  apply searchLoop_isSome m h query ef layer (h.startBeam_bounded m entryPoint query size)
  simp only [startBeam, List.length_singleton]
  omega

/-! ## Operations -/

/-- Greedy descent on one layer. -/
def greedyLayer (h : HNSW V) (query : V) (layer : Nat) (c : Cursor δ) : Cursor δ :=
  (h.greedyLoop m query layer (h.nodes.length + 2) c).get (h.greedyLoop_fuel m query layer c)

/-- Greedy descent from a layer down to the one above {lit}`bottom`. -/
def descend (h : HNSW V) (query : V) (bottom : Nat) : Nat → Cursor δ → Cursor δ
  | 0, c => c
  | l + 1, c =>
      if l + 1 > bottom then descend h query bottom l (h.greedyLayer m query (l + 1) c) else c

/-- The descent from the entry point. -/
def descendFrom (h : HNSW V) (query : V) (bottom entryPoint : Nat) : Nat :=
  (h.descend m query bottom h.currentMaxLayer.toNat
    { id := entryPoint, dist := m.dist query (h.getNode entryPoint).vector }).id

/-- The heaps at the end of {lit}`search_layer`. -/
def searchBeam (h : HNSW V) (entryPoint : Nat) (query : V) (ef layer : Nat) : Beam δ :=
  (h.searchLoop m query ef (h.visitedSize entryPoint) layer (h.visitedSize entryPoint + 2)
    (h.startBeam m entryPoint query (h.visitedSize entryPoint))).get
      (h.searchLoop_fuel m entryPoint query ef (h.visitedSize entryPoint) layer)

def searchLayer (h : HNSW V) (entryPoint : Nat) (query : V) (ef layer : Nat) : List (Result δ) :=
  (h.searchBeam m entryPoint query ef layer).found

def maxConn (layer : Nat) : Nat :=
  if layer = 0 then maxLinks0 else maxLinks

/-- Replace the neighbour list of a node on a layer. -/
def setNeighbors (h : HNSW V) (id layer : Nat) (list : List Nat) : HNSW V :=
  h.writeNode id
    { h.getNode id with neighbors := Function.update (h.getNode id).neighbors layer list }

/-- The position and the distance of the farthest entry of a list, if one is farther than
{lit}`-1.0`. -/
def farthestNeighbor (h : HNSW V) (vector : V) (list : List Nat) : Option Nat × δ :=
  list.zipIdx.foldl
    (fun worst entry =>
      if worst.2 < m.dist vector (h.getNode entry.1).vector then
        (some entry.2, m.dist vector (h.getNode entry.1).vector)
      else worst)
    (none, m.minusOne)

def addLink (h : HNSW V) (src dest layer : Nat) : HNSW V :=
  if src ≥ h.nodeLocks then h
  else
    let node := h.getNode src
    let list := h.neighbors src layer
    if list.length < maxConn layer then h.setNeighbors src layer (list ++ [dest])
    else
      match h.farthestNeighbor m node.vector list with
      | (none, _) => h
      | (some i, maxD) =>
          if m.dist node.vector (h.getNode dest).vector < maxD then
            h.setNeighbors src layer (list.set i dest)
          else h

/-- Link a node with each of its selected neighbours, in both directions. -/
def linkAll (h : HNSW V) (id layer : Nat) (selected : List Nat) : HNSW V :=
  selected.foldl (fun h n => (h.addLink m id n layer).addLink m n id layer) h

/-- The first {lit}`M` candidates that come off the heap. -/
def selectNeighbors (h : HNSW V) (vec : V) (layer curr : Nat) : List Nat :=
  (drain farther maxLinks (h.searchLayer m curr vec efConstruction layer)).map (·.id)

/-- Connect a node on the layers below {lit}`l`, from the top one down. -/
def connect (vec : V) (id : Nat) : Nat → HNSW V → Nat → HNSW V
  | 0, h, _ => h
  | l + 1, h, curr =>
      let selected := h.selectNeighbors m vec l curr
      connect vec id l (h.linkAll m id l selected) (selected.headD curr)

def countUp (n : Nat) : Nat := (n + 1) % 2 ^ 64

def countDown (n : Nat) : Nat := (n + 2 ^ 64 - 1) % 2 ^ 64

/-- {lit}`insert`, with the level it draws as an argument. -/
def insert (h : HNSW V) (level : Nat) (vec : V) (id : Nat) (metadata : Bytes) : HNSW V :=
  let h := h.written vec id
  match h.entryPointId with
  | none =>
      { h with
        entryPointId := some id
        currentMaxLayer := level
        elementCount := countUp h.elementCount
        metadataStorage := h.metadataStorage.saveMetadata id metadata }
  | some entryPoint =>
      let h' := connect m vec id (min (level : Int) h.currentMaxLayer + 1).toNat h
        (h.descendFrom m vec level entryPoint)
      { h' with
        entryPointId := if (level : Int) > h.currentMaxLayer then some id else h.entryPointId
        currentMaxLayer := if (level : Int) > h.currentMaxLayer then level else h.currentMaxLayer
        elementCount := countUp h.elementCount
        metadataStorage := h.metadataStorage.saveMetadata id metadata }

/-- The {lit}`ef` of {lit}`search`. -/
def efSearch (k : Int) : Nat :=
  (max 100 k).toNat

def search (h : HNSW V) (query : V) (k : Int) : List (Result δ) :=
  match h.entryPointId with
  | none => []
  | some entryPoint =>
      let found := h.searchLayer m (h.descendFrom m query 0 entryPoint) query (efSearch k) 0
      let live := (drain farther found.length found).filter fun r => !(h.getNode r.id).isDeleted
      (live.map fun r => { r with metadata := h.metadataStorage.getMetadata r.id }).reverse.take
        (k % 2 ^ 64).toNat

end Distance

/-- Lazy deletion: set the tombstone. -/
def deleteVector (h : HNSW V) (id : Nat) : HNSW V :=
  if h.inStorage id then
    if (h.getNode id).isDeleted then h
    else
      { h.writeNode id { h.getNode id with isDeleted := true } with
        elementCount := countDown h.elementCount }
  else h

def isDeleted (h : HNSW V) (id : Nat) : Bool :=
  if h.inStorage id then (h.getNode id).isDeleted else false

/-- The vector of an id, {lean}`none` (empty in the source) if it is out of range or
deleted. -/
def getVectorData (h : HNSW V) (id : Nat) : Option V :=
  if h.inStorage id then
    if (h.getNode id).isDeleted then none else some (h.getNode id).vector
  else none

/-! ## Reading what was written -/

@[simp] theorem getNode_writeNode (h : HNSW V) (id j : Nat) (node : Node V) :
    (h.writeNode id node).getNode j = if j = id then node else h.getNode j := by
  unfold writeNode getNode
  dsimp only
  split_ifs with hlt hj hj
  · rw [hj, List.getElem?_set_self hlt]
    rfl
  · rw [List.getElem?_set_ne (Ne.symm hj)]
  · rw [hj, List.getElem?_append_right (by simp; omega)]
    simp [Nat.add_sub_cancel' (Nat.le_of_not_lt hlt)]
  · rcases Nat.lt_or_ge j h.nodes.length with hin | hout
    · rw [List.append_assoc, List.getElem?_append_left hin]
    · rw [List.append_assoc, List.getElem?_append_right hout, List.getElem?_eq_none hout]
      rcases Nat.lt_or_ge (j - h.nodes.length) (id - h.nodes.length) with hgap | hafter
      · rw [List.getElem?_append_left (by simpa using hgap), List.getElem?_replicate, if_pos hgap]
        rfl
      · rw [List.getElem?_append_right (by simpa using hafter), List.getElem?_eq_none]
        simp
        omega

theorem neighbors_writeNode (h : HNSW V) (id j l : Nat) (node : Node V) :
    (h.writeNode id node).neighbors j l = if j = id then node.neighbors l else h.neighbors j l := by
  rw [neighbors, getNode_writeNode]
  split <;> rfl

theorem neighbors_setNeighbors (h : HNSW V) (id layer j l : Nat) (list : List Nat) :
    (h.setNeighbors id layer list).neighbors j l =
      if j = id ∧ l = layer then list else h.neighbors j l := by
  rw [setNeighbors, neighbors_writeNode]
  by_cases hj : j = id
  · by_cases hl : l = layer
    · simp [hj, hl]
    · simp [hj, hl, neighbors]
  · simp [hj]

@[simp] theorem getNode_expandStorage (h : HNSW V) (id j : Nat) :
    (h.expandStorage id).getNode j = h.getNode j := by
  unfold expandStorage
  split <;> rfl

omit [Zero V] in
theorem nodeLocks_le_expandStorage (h : HNSW V) (id : Nat) :
    h.nodeLocks ≤ (h.expandStorage id).nodeLocks := by
  unfold expandStorage
  split
  · exact le_rfl
  · dsimp only
    split <;> omega

theorem getNode_written (h : HNSW V) (vec : V) (id j : Nat) :
    (h.written vec id).getNode j = if j = id then { vector := vec } else h.getNode j := by
  rw [written, getNode_writeNode, getNode_expandStorage]

theorem neighbors_written (h : HNSW V) (vec : V) (id j l : Nat) :
    (h.written vec id).neighbors j l = if j = id then [] else h.neighbors j l := by
  rw [neighbors, getNode_written]
  split <;> rfl

@[simp] theorem entryPointId_written (h : HNSW V) (vec : V) (id : Nat) :
    (h.written vec id).entryPointId = h.entryPointId := by
  unfold written expandStorage
  split <;> rfl

@[simp] theorem currentMaxLayer_written (h : HNSW V) (vec : V) (id : Nat) :
    (h.written vec id).currentMaxLayer = h.currentMaxLayer := by
  unfold written expandStorage
  split <;> rfl

@[simp] theorem elementCount_written (h : HNSW V) (vec : V) (id : Nat) :
    (h.written vec id).elementCount = h.elementCount := by
  unfold written expandStorage
  split <;> rfl

@[simp] theorem metadataStorage_written (h : HNSW V) (vec : V) (id : Nat) :
    (h.written vec id).metadataStorage = h.metadataStorage := by
  unfold written expandStorage
  split <;> rfl

/-- {lit}`h'` differs from {lit}`h` in neighbour lists only. -/
structure LinksOnly (h h' : HNSW V) : Prop where
  vector : ∀ j, (h'.getNode j).vector = (h.getNode j).vector
  isDeleted : ∀ j, (h'.getNode j).isDeleted = (h.getNode j).isDeleted
  storageSize : h'.storageSize = h.storageSize
  nodeLocks : h'.nodeLocks = h.nodeLocks
  currentMaxLayer : h'.currentMaxLayer = h.currentMaxLayer
  elementCount : h'.elementCount = h.elementCount

theorem LinksOnly.refl (h : HNSW V) : LinksOnly h h :=
  ⟨fun _ => rfl, fun _ => rfl, rfl, rfl, rfl, rfl⟩

theorem LinksOnly.trans {h h' h'' : HNSW V} (h₁ : LinksOnly h h') (h₂ : LinksOnly h' h'') :
    LinksOnly h h'' where
  vector j := (h₂.vector j).trans (h₁.vector j)
  isDeleted j := (h₂.isDeleted j).trans (h₁.isDeleted j)
  storageSize := h₂.storageSize.trans h₁.storageSize
  nodeLocks := h₂.nodeLocks.trans h₁.nodeLocks
  currentMaxLayer := h₂.currentMaxLayer.trans h₁.currentMaxLayer
  elementCount := h₂.elementCount.trans h₁.elementCount

theorem linksOnly_setNeighbors (h : HNSW V) (id layer : Nat) (list : List Nat) :
    LinksOnly h (h.setNeighbors id layer list) := by
  refine ⟨?_, ?_, rfl, rfl, rfl, rfl⟩
  · intro j
    rw [setNeighbors, getNode_writeNode]
    split
    · next hj => rw [hj]
    · rfl
  · intro j
    rw [setNeighbors, getNode_writeNode]
    split
    · next hj => rw [hj]
    · rfl

section Frame

variable [Preorder δ] [DecidableLT δ] (m : Metric V δ)

theorem linksOnly_addLink (h : HNSW V) (src dest layer : Nat) :
    LinksOnly h (h.addLink m src dest layer) := by
  unfold addLink
  split
  · exact .refl h
  · dsimp only
    split
    · exact linksOnly_setNeighbors ..
    · split
      · exact .refl h
      · split
        · exact linksOnly_setNeighbors ..
        · exact .refl h

/-- A link and the one back. -/
theorem linksOnly_addLink_pair (h : HNSW V) (id n layer : Nat) :
    LinksOnly h ((h.addLink m id n layer).addLink m n id layer) :=
  (linksOnly_addLink m h id n layer).trans (linksOnly_addLink m _ n id layer)

theorem linksOnly_linkAll (h : HNSW V) (id layer : Nat) (selected : List Nat) :
    LinksOnly h (h.linkAll m id layer selected) := by
  induction selected generalizing h with
  | nil => exact .refl h
  | cons n selected ih => exact (linksOnly_addLink_pair m h id n layer).trans (ih _)

variable [PriorityQueue (Result δ)]

theorem linksOnly_connect (vec : V) (id l : Nat) (h : HNSW V) (curr : Nat) :
    LinksOnly h (connect m vec id l h curr) := by
  induction l generalizing h curr with
  | zero => exact .refl h
  | succ l ih => exact (linksOnly_linkAll m h id l _).trans (ih _ _)

/-- The index after {lit}`insert` has linked the node. -/
def linked (h : HNSW V) (level : Nat) (vec : V) (id : Nat) : HNSW V :=
  match h.entryPointId with
  | none => h.written vec id
  | some entryPoint =>
      connect m vec id (min (level : Int) h.currentMaxLayer + 1).toNat (h.written vec id)
        ((h.written vec id).descendFrom m vec level entryPoint)

theorem linksOnly_linked (h : HNSW V) (level : Nat) (vec : V) (id : Nat) :
    LinksOnly (h.written vec id) (h.linked m level vec id) := by
  unfold linked
  split
  · exact .refl _
  · exact linksOnly_connect ..

/-- {lit}`insert` in its three steps: write, link, count. -/
theorem insert_eq (h : HNSW V) (level : Nat) (vec : V) (id : Nat) (metadata : Bytes) :
    h.insert m level vec id metadata =
      { h.linked m level vec id with
        entryPointId :=
          if h.entryPointId = none ∨ (level : Int) > h.currentMaxLayer then some id
          else h.entryPointId
        currentMaxLayer :=
          if h.entryPointId = none ∨ (level : Int) > h.currentMaxLayer then (level : Int)
          else h.currentMaxLayer
        elementCount := countUp h.elementCount
        metadataStorage := h.metadataStorage.saveMetadata id metadata } := by
  unfold insert linked
  simp only [entryPointId_written, currentMaxLayer_written, elementCount_written,
    metadataStorage_written]
  cases h.entryPointId with
  | none => simp only [true_or, if_true]
  | some entryPoint => simp only [reduceCtorEq, false_or]

theorem neighbors_insert (h : HNSW V) (level : Nat) (vec : V) (id : Nat) (metadata : Bytes)
    (x l : Nat) :
    (h.insert m level vec id metadata).neighbors x l = (h.linked m level vec id).neighbors x l := by
  rw [insert_eq]
  rfl

theorem entryPointId_insert (h : HNSW V) (level : Nat) (vec : V) (id : Nat) (metadata : Bytes) :
    (h.insert m level vec id metadata).entryPointId =
      if h.entryPointId = none ∨ (level : Int) > h.currentMaxLayer then some id
      else h.entryPointId := by
  rw [insert_eq]

theorem currentMaxLayer_insert (h : HNSW V) (level : Nat) (vec : V) (id : Nat)
    (metadata : Bytes) :
    (h.insert m level vec id metadata).currentMaxLayer =
      if h.entryPointId = none ∨ (level : Int) > h.currentMaxLayer then (level : Int)
      else h.currentMaxLayer := by
  rw [insert_eq]

theorem nodeLocks_insert (h : HNSW V) (level : Nat) (vec : V) (id : Nat) (metadata : Bytes) :
    (h.insert m level vec id metadata).nodeLocks = (h.expandStorage id).nodeLocks := by
  rw [insert_eq]
  exact (linksOnly_linked m h level vec id).nodeLocks

theorem storageSize_insert (h : HNSW V) (level : Nat) (vec : V) (id : Nat) (metadata : Bytes) :
    (h.insert m level vec id metadata).storageSize = (h.expandStorage id).storageSize := by
  rw [insert_eq]
  exact (linksOnly_linked m h level vec id).storageSize

theorem metadataStorage_insert (h : HNSW V) (level : Nat) (vec : V) (id : Nat)
    (metadata : Bytes) :
    (h.insert m level vec id metadata).metadataStorage =
      h.metadataStorage.saveMetadata id metadata := by
  rw [insert_eq]

theorem elementCount_insert (h : HNSW V) (level : Nat) (vec : V) (id : Nat) (metadata : Bytes) :
    (h.insert m level vec id metadata).elementCount = countUp h.elementCount := by
  rw [insert_eq]

/-- What {lit}`insert` keeps of a slot, and what it writes. -/
theorem getNode_insert (h : HNSW V) (level : Nat) (vec : V) (id : Nat) (metadata : Bytes)
    (j : Nat) :
    ((h.insert m level vec id metadata).getNode j).vector =
        (if j = id then vec else (h.getNode j).vector) ∧
      ((h.insert m level vec id metadata).getNode j).isDeleted =
        (if j = id then false else (h.getNode j).isDeleted) := by
  have hlinks := linksOnly_linked m h level vec id
  rw [insert_eq]
  constructor
  · refine (hlinks.vector j).trans ?_
    rw [getNode_written]
    split <;> rfl
  · refine (hlinks.isDeleted j).trans ?_
    rw [getNode_written]
    split <;> rfl

end Frame

/-! ## Deletion -/

theorem getNode_setCount (h : HNSW V) (n j : Nat) :
    ({ h with elementCount := n } : HNSW V).getNode j = h.getNode j := rfl

/-- A deletion sets one tombstone. -/
theorem getNode_deleteVector (h : HNSW V) (id j : Nat) :
    (h.deleteVector id).getNode j =
      if j = id ∧ h.inStorage id = true then { h.getNode j with isDeleted := true }
      else h.getNode j := by
  unfold deleteVector
  split
  · next hin =>
      split
      · next hdeleted =>
          split
          · next hj =>
              rw [hj.1]
              cases hnode : h.getNode id with
              | mk vector isDeleted neighbors =>
                  rw [hnode] at hdeleted
                  dsimp only at hdeleted ⊢
                  rw [hdeleted]
          · rfl
      · rw [getNode_setCount, getNode_writeNode]
        by_cases hj : j = id
        · rw [if_pos hj, if_pos ⟨hj, hin⟩, hj]
        · rw [if_neg hj, if_neg fun hc => hj hc.1]
  · next hout => rw [if_neg fun hc => hout hc.2]

/-- A deletion counts down if it sets the tombstone. -/
theorem elementCount_deleteVector (h : HNSW V) (id : Nat) :
    (h.deleteVector id).elementCount =
      if h.inStorage id = true ∧ (h.getNode id).isDeleted = false then countDown h.elementCount
      else h.elementCount := by
  unfold deleteVector
  split
  · next hin =>
      split
      · next hdeleted => simp [hdeleted]
      · next hlive => simp [hin, hlive]
  · next hout => simp [hout]

theorem neighbors_deleteVector (h : HNSW V) (id x l : Nat) :
    (h.deleteVector id).neighbors x l = h.neighbors x l := by
  rw [neighbors, getNode_deleteVector]
  split <;> rfl

/-- A deletion changes tombstones and the counter only. -/
theorem deleteVector_keeps (h : HNSW V) (id : Nat) :
    (h.deleteVector id).entryPointId = h.entryPointId ∧
      (h.deleteVector id).currentMaxLayer = h.currentMaxLayer ∧
      (h.deleteVector id).nodeLocks = h.nodeLocks ∧
      (h.deleteVector id).storageSize = h.storageSize ∧
      (h.deleteVector id).metadataStorage = h.metadataStorage := by
  unfold deleteVector
  split
  · split
    · exact ⟨rfl, rfl, rfl, rfl, rfl⟩
    · exact ⟨rfl, rfl, rfl, rfl, rfl⟩
  · exact ⟨rfl, rfl, rfl, rfl, rfl⟩

end HNSW

end NanoDB.Index
