import NanoDB.Index.Connectivity

/-!
# The growth of the file and of the lock table

{lit}`insert` maps a larger file if the slot of the new id lies past its end: by 10 MiB,
and once.  Only in that branch does it look at the lock table, and it adds locks if the id
has none.

Two things can go wrong.  The slot of an id that lies more than 10 MiB past the end is
still outside afterwards.  And the file can have room for ids that have no lock: then
{lit}`add_link` returns at once, and the new node has no links of its own.

Main results:

- Theorem {lit}`slot_inside_iff`: after the growth step the slot is inside the file iff it
  ends at most 10 MiB past the old end.
- Theorem {lit}`links_kept_iff`: for ids inserted one after the other, every id has a lock
  iff there are at most 10000 ids, or at most 20000 and the file is full when the id 10000
  comes.
-/

namespace NanoDB.Index

open NanoDB.Lib
open NanoDB.Storage (Bytes)

/-! ## The mapped file -/

/-- The length of the file and {lit}`file_size_`, the length of its mapping. -/
structure MMapHandler where
  fileLength : Nat
  fileSize : Nat
deriving DecidableEq, Repr

namespace MMapHandler

/-- {lit}`open_file` on a file of a given length: a shorter one is extended. -/
def openFile (fileLength minSize : Nat) : MMapHandler :=
  if fileLength < minSize then ⟨minSize, minSize⟩ else ⟨fileLength, fileLength⟩

/-- Unmap the file and map it again. -/
def resize (s : MMapHandler) (newSize : Nat) : MMapHandler :=
  openFile s.fileLength newSize

def getSize (s : MMapHandler) : Nat :=
  s.fileSize

/-- The growth step. -/
def growthStep : Nat := 10 * 1024 * 1024

/-- The end of the slot of an id, {lit}`HEADER_SIZE + id * sizeof(Node) + sizeof(Node)`. -/
def slotEnd (id : Nat) : Nat :=
  headerSize + id * nodeSize + nodeSize

/-- The expansion step of {lit}`insert`. -/
def expand (s : MMapHandler) (id : Nat) : MMapHandler :=
  if slotEnd id > s.getSize then s.resize (s.getSize + growthStep) else s

/-- The file is mapped as a whole. -/
def Whole (s : MMapHandler) : Prop :=
  s.fileLength = s.fileSize

theorem openFile_whole (fileLength minSize : Nat) : (openFile fileLength minSize).Whole := by
  rw [openFile]
  split <;> rfl

theorem expand_whole {s : MMapHandler} (hs : s.Whole) (id : Nat) : (s.expand id).Whole := by
  rw [expand]
  split
  · exact openFile_whole _ _
  · exact hs

theorem getSize_expand {s : MMapHandler} (hs : s.Whole) (id : Nat) :
    (s.expand id).getSize = if slotEnd id > s.getSize then s.getSize + growthStep
      else s.getSize := by
  rw [expand]
  split
  · rw [resize, openFile, hs, if_pos]
    · rfl
    · show s.fileSize < s.fileSize + growthStep
      unfold growthStep
      omega
  · rfl

/-- The expansion step of the index is that of its file. -/
theorem storageSize_expandStorage {V : Type*} (h : HNSW V) (id : Nat) :
    (h.expandStorage id).storageSize =
      (expand ⟨h.storageSize, h.storageSize⟩ id).getSize := by
  have hwhole : Whole ⟨h.storageSize, h.storageSize⟩ := rfl
  rw [getSize_expand hwhole, HNSW.expandStorage, HNSW.inStorage]
  by_cases hin : slotEnd id ≤ h.storageSize
  · have hin' : headerSize + id * nodeSize + nodeSize ≤ h.storageSize := hin
    simp [getSize, hin, hin', Nat.not_lt.mpr]
  · have hin' : ¬ headerSize + id * nodeSize + nodeSize ≤ h.storageSize := hin
    simp [getSize, growthStep, hin', Nat.lt_of_not_le hin]

/-- For every size of the file and every 32-bit id: after the expansion step, with a
resize that succeeds, the slot of the id lies inside the mapping iff it ends at most 10 MiB
past the old end of the file. -/
theorem slot_inside_iff (size : Nat) (id : UInt32) :
    headerSize + id.toNat * nodeSize + nodeSize ≤
        ((openFile size 0).expand id.toNat).getSize ↔
      headerSize + id.toNat * nodeSize + nodeSize ≤ size + 10 * 1024 * 1024 := by
  have hsize : (openFile size 0).getSize = size := rfl
  rw [getSize_expand (openFile_whole size 0), hsize]
  show slotEnd id.toNat ≤ _ ↔ slotEnd id.toNat ≤ size + growthStep
  split
  · rfl
  · next hin =>
      constructor
      · intro hle
        omega
      · intro _
        omega

/-- A new file of 100 MiB and the id 200000: the slot ends at 211201120, and the file has
115343360 bytes after the growth. -/
theorem slot_outside_file :
    ¬ ∀ (size : Nat) (id : UInt32),
      headerSize + id.toNat * nodeSize + nodeSize ≤
        ((openFile size 0).expand id.toNat).getSize := by
  intro hall
  exact absurd (hall (100 * 1024 * 1024) 200000) (by decide)

end MMapHandler

/-! ## Links and locks -/

variable {V δ : Type*} [Zero V] [Preorder δ] [DecidableLT δ] [PriorityQueue (Result δ)]
  (m : Metric V δ)

namespace HNSW

/-- The nodes that {lit}`add_link` is called for while a node is connected. -/
def connectSources (vec : V) (id : Nat) : Nat → HNSW V → Nat → List Nat
  | 0, _, _ => []
  | l + 1, h, curr =>
      (h.selectNeighbors m vec l curr).flatMap (fun n => [id, n]) ++
        connectSources vec id l (h.linkAll m id l (h.selectNeighbors m vec l curr))
          ((h.selectNeighbors m vec l curr).headD curr)

/-- The nodes that {lit}`insert` calls {lit}`add_link` for. -/
def linkSources (h : HNSW V) (level : Nat) (vec : V) (id : Nat) : List Nat :=
  match h.entryPointId with
  | none => []
  | some entryPoint =>
      connectSources m vec id (min (level : Int) h.currentMaxLayer + 1).toNat (h.written vec id)
        ((h.written vec id).descendFrom m vec level entryPoint)

/-- Links are added between nodes of every set that has the node and its start and is closed
under links. -/
theorem mem_connectSources {S : Nat → Prop} {h : HNSW V} {vec : V} {id l curr : Nat}
    (hclosed : ∀ l x, S x → ∀ y ∈ h.neighbors x l, S y) (hid : S id) (hcurr : S curr) {src : Nat}
    (hsrc : src ∈ connectSources m vec id l h curr) : S src := by
  induction l generalizing h curr with
  | zero => cases hsrc
  | succ l ih =>
      have hselected : ∀ n ∈ h.selectNeighbors m vec l curr, S n := fun n hn =>
        (mem_selectNeighbors m (hclosed l) hcurr hn).1
      rw [connectSources, List.mem_append, List.mem_flatMap] at hsrc
      rcases hsrc with ⟨n, hn, hsrc⟩ | hsrc
      · rcases List.mem_cons.mp hsrc with rfl | hsrc
        · exact hid
        · rw [List.mem_singleton.mp hsrc]
          exact hselected n hn
      · apply ih _ _ hsrc
        · intro l' x hx y hy
          rcases mem_neighbors_linkAll m hy with hold | ⟨-, ⟨-, hsel⟩ | ⟨rfl, -⟩⟩
          · exact hclosed l' x hx y hold
          · exact hselected y hsel
          · exact hid
        · exact headD_selectNeighbors_mem m (hclosed l) hcurr

omit [PriorityQueue (Result δ)] in
/-- {lit}`add_link` never shortens a list. -/
theorem length_le_addLink (h : HNSW V) (src dest layer x l : Nat) :
    (h.neighbors x l).length ≤ ((h.addLink m src dest layer).neighbors x l).length := by
  by_cases hat : x = src ∧ l = layer
  · rw [hat.1, hat.2, addLink]
    split
    · exact le_rfl
    · dsimp only
      split
      · rw [neighbors_setNeighbors, if_pos ⟨rfl, rfl⟩, List.length_append]
        omega
      · split
        · exact le_rfl
        · split
          · rw [neighbors_setNeighbors, if_pos ⟨rfl, rfl⟩, List.length_set]
          · exact le_rfl
  · rw [neighbors_addLink_of_ne m h hat]

omit [PriorityQueue (Result δ)] in
theorem length_le_linkAll (h : HNSW V) (id layer : Nat) (selected : List Nat) (x l : Nat) :
    (h.neighbors x l).length ≤ ((h.linkAll m id layer selected).neighbors x l).length := by
  induction selected generalizing h with
  | nil => exact le_rfl
  | cons n selected ih =>
      exact ((length_le_addLink m h id n layer x l).trans
        (length_le_addLink m _ n id layer x l)).trans (ih _)

omit [PriorityQueue (Result δ)] in
/-- A node that has a lock and a selected neighbour gets a link. -/
theorem neighbors_linkAll_ne_nil {h : HNSW V} {id layer : Nat} {selected : List Nat}
    (hid : id < h.nodeLocks) (hselected : selected ≠ []) :
    (h.linkAll m id layer selected).neighbors id layer ≠ [] := by
  cases selected with
  | nil => exact absurd rfl hselected
  | cons n selected =>
      have hfirst : 0 < ((h.addLink m id n layer).neighbors id layer).length := by
        rcases Nat.lt_or_ge (h.neighbors id layer).length (maxConn layer) with hroom | hfull
        · rw [neighbors_addLink_self m h n hid hroom, List.length_append, List.length_singleton]
          omega
        · have hpos : 0 < maxConn layer := by
            rw [maxConn]
            split <;> decide
          exact lt_of_lt_of_le (lt_of_lt_of_le hpos hfull)
            (length_le_addLink m h id n layer id layer)
      apply List.ne_nil_of_length_pos
      exact lt_of_lt_of_le hfirst ((length_le_addLink m _ n id layer id layer).trans
        (length_le_linkAll m _ id layer selected id layer))

end HNSW

/-! ## Dense ids -/

/-- What an insert is called with, and the level that it draws. -/
structure Insertion (V : Type*) where
  level : Nat
  vec : V
  metadata : Bytes := []

namespace Filling

/-- Insert the next id. -/
def insertNext (s : Filling V) (x : Insertion V) : Filling V :=
  ⟨s.index.insert m x.level x.vec s.count x.metadata, s.count + 1⟩

/-- No link is dropped by an insert: every id that was inserted has a lock, so
{lit}`add_link` does not return at once; and if a live node can be reached from the entry
point, the new node has a neighbour on layer 0. -/
structure KeepsLinks (s : Filling V) (x : Insertion V) : Prop where
  locked : ∀ id < (s.insertNext m x).count, id < (s.insertNext m x).index.nodeLocks
  added : ∀ src ∈ s.index.linkSources m x.level x.vec s.count,
    src < (s.index.written x.vec s.count).nodeLocks
  neighbor : ∀ e y, s.index.entryPointId = some e → s.index.Connects e y →
    (s.index.getNode y).isDeleted = false →
    (s.insertNext m x).index.neighbors s.count 0 ≠ []

/-- No link is dropped by a sequence of inserts. -/
def LinksKept (s : Filling V) : List (Insertion V) → Prop
  | [] => True
  | x :: xs => s.KeepsLinks m x ∧ LinksKept (s.insertNext m x) xs

/-- The filling after a sequence of inserts. -/
def insertAll (s : Filling V) (xs : List (Insertion V)) : Filling V :=
  xs.foldl (insertNext m) s

theorem linksKept_append {s : Filling V} {xs ys : List (Insertion V)} :
    s.LinksKept m (xs ++ ys) ↔ s.LinksKept m xs ∧ (s.insertAll m xs).LinksKept m ys := by
  induction xs generalizing s with
  | nil => simp [LinksKept, insertAll]
  | cons x xs ih =>
      rw [List.cons_append, LinksKept, LinksKept, ih, and_assoc]
      rfl

theorem count_insertAll (s : Filling V) (xs : List (Insertion V)) :
    (s.insertAll m xs).count = s.count + xs.length := by
  induction xs generalizing s with
  | nil => rfl
  | cons x xs ih =>
      have hcount : (s.insertNext m x).count = s.count + 1 := rfl
      refine (ih (s.insertNext m x)).trans ?_
      rw [hcount, List.length_cons]
      omega

/-- The entry point and the links are among the inserted ids, and none of these is
deleted. -/
structure Dense (s : Filling V) : Prop where
  entry : (s.count = 0 ∧ s.index.entryPointId = none) ∨
    ∃ e, s.index.entryPointId = some e ∧ e < s.count ∧ 0 ≤ s.index.currentMaxLayer
  links_lt : ∀ x l y, y ∈ s.index.neighbors x l → y < s.count
  live : ∀ i < s.count, (s.index.getNode i).isDeleted = false

omit [Preorder δ] [DecidableLT δ] in
theorem dense_create (storageSize : Nat) : (create storageSize : Filling V).Dense where
  entry := .inl ⟨rfl, rfl⟩
  links_lt x l y hy := by cases hy
  live i hi := absurd hi (Nat.not_lt_zero i)

section Dense

variable {s : Filling V}

theorem Dense.links_written_lt (hs : s.Dense) (vec : V) (x l y : Nat)
    (hy : y ∈ (s.index.written vec s.count).neighbors x l) : y < s.count := by
  rw [HNSW.neighbors_written] at hy
  split at hy
  · cases hy
  · exact hs.links_lt x l y hy

theorem Dense.insertNext (hs : s.Dense) (x : Insertion V) : (s.insertNext m x).Dense := by
  refine ⟨.inr ?_, ?_, ?_⟩
  · rw [Filling.insertNext, HNSW.entryPointId_insert, HNSW.currentMaxLayer_insert]
    split
    · exact ⟨s.count, rfl, Nat.lt_succ_self _, by omega⟩
    · next hkeep =>
        rw [not_or] at hkeep
        rcases hs.entry with ⟨-, hnone⟩ | ⟨e, hentry, he, hmax⟩
        · exact absurd hnone hkeep.1
        · exact ⟨e, hentry, by simp only; omega, hmax⟩
  · intro a l y hy
    rw [Filling.insertNext] at hy ⊢
    simp only [HNSW.neighbors_insert] at hy ⊢
    rcases hs.entry with ⟨-, hnone⟩ | ⟨e, hentry, he, hmax⟩
    · rw [HNSW.linked, hnone] at hy
      have := hs.links_written_lt x.vec a l y hy
      omega
    · rcases HNSW.linked_cases (S := (· < s.count)) m x.level hentry hmax
        (fun l _ _ b _ c hc => hs.links_written_lt x.vec b l c hc) he with
        ⟨h', c, hlinked, hc, hupper⟩
      rw [hlinked] at hy
      have hselected : ∀ n ∈ h'.selectNeighbors m x.vec 0 c, n < s.count := by
        intro n hn
        refine (HNSW.mem_selectNeighbors (S := (· < s.count)) m ?_ hc hn).1
        intro b _ y hy
        rw [hupper.bottom] at hy
        exact hs.links_written_lt x.vec b 0 y hy
      rcases hupper.mem_neighbors m (fun n hn _ => hn) hselected hy with hold | ⟨-, hlt⟩ | ⟨rfl, -⟩
      · have := hs.links_written_lt x.vec a l y hold
        omega
      · omega
      · omega
  · intro i hi
    rw [Filling.insertNext] at hi ⊢
    dsimp only at hi ⊢
    rw [(HNSW.getNode_insert m s.index x.level x.vec s.count x.metadata i).2]
    split
    · rfl
    · exact hs.live i (by omega)

theorem Dense.insertAll (hs : s.Dense) (xs : List (Insertion V)) : (s.insertAll m xs).Dense := by
  induction xs generalizing s with
  | nil => exact hs
  | cons x xs ih => exact ih (hs.insertNext m x)

/-- A new node is linked if its id has a lock. -/
theorem Dense.neighbors_ne_nil (hs : s.Dense) (x : Insertion V) {e : Nat}
    (hentry : s.index.entryPointId = some e)
    (hlock : s.count < (s.index.expandStorage s.count).nodeLocks) :
    (s.insertNext m x).index.neighbors s.count 0 ≠ [] := by
  rcases hs.entry with ⟨-, hnone⟩ | ⟨e', hentry', he, hmax⟩
  · rw [hentry] at hnone
    cases hnone
  rcases HNSW.linked_cases (S := (· < s.count)) m x.level hentry' hmax
    (fun l _ _ b _ c hc => hs.links_written_lt x.vec b l c hc) he with ⟨h', c, hlinked, hc, hupper⟩
  rw [Filling.insertNext]
  dsimp only
  rw [HNSW.neighbors_insert, hlinked]
  apply HNSW.neighbors_linkAll_ne_nil
  · rw [hupper.linksOnly.nodeLocks]
    exact hlock
  · -- the search starts at a live node
    have hlive : (h'.getNode c).isDeleted = false := by
      rw [hupper.linksOnly.isDeleted, HNSW.getNode_written, if_neg (Nat.ne_of_lt hc)]
      exact hs.live c hc
    have hfound : h'.searchLayer m c x.vec efConstruction 0 ≠ [] :=
      HNSW.searchLayer_ne_nil (by decide) .refl hlive
    apply List.ne_nil_of_length_pos
    rw [HNSW.length_selectNeighbors]
    exact Nat.lt_min.mpr ⟨by decide, List.length_pos_of_ne_nil hfound⟩

theorem Dense.linkSources_le (hs : s.Dense) (level : Nat) (vec : V) {src : Nat}
    (hsrc : src ∈ s.index.linkSources m level vec s.count) : src ≤ s.count := by
  rw [HNSW.linkSources] at hsrc
  split at hsrc
  · cases hsrc
  · next e hentry =>
      rcases hs.entry with ⟨-, hnone⟩ | ⟨e', hentry', he, -⟩
      · rw [hnone] at hentry
        cases hentry
      have hclosed : ∀ l x, x ≤ s.count →
          ∀ y ∈ (s.index.written vec s.count).neighbors x l, y ≤ s.count :=
        fun l x _ y hy => Nat.le_of_lt (hs.links_written_lt vec x l y hy)
      have hstart : e ≤ s.count := by
        rw [hentry', Option.some_inj] at hentry
        omega
      refine HNSW.mem_connectSources (S := (· ≤ s.count)) m hclosed le_rfl ?_ hsrc
      exact HNSW.descendFrom_mem (S := (· ≤ s.count)) (fun l _ _ => hclosed l) hstart

/-- An insert of the next id keeps its links iff the id has a lock. -/
theorem Dense.keepsLinks_iff (hs : s.Dense) (x : Insertion V) :
    s.KeepsLinks m x ↔ s.count < (s.index.expandStorage s.count).nodeLocks := by
  have hlocks : (s.insertNext m x).index.nodeLocks = (s.index.expandStorage s.count).nodeLocks :=
    HNSW.nodeLocks_insert m s.index x.level x.vec s.count x.metadata
  constructor
  · intro hkeeps
    rw [← hlocks]
    exact hkeeps.locked s.count (Nat.lt_succ_self _)
  · intro hlock
    refine ⟨?_, ?_, ?_⟩
    · intro id hid
      have hcount : (s.insertNext m x).count = s.count + 1 := rfl
      rw [hlocks]
      omega
    · intro src hsrc
      exact lt_of_le_of_lt (hs.linkSources_le m x.level x.vec hsrc) hlock
    · intro e y hentry _ _
      exact hs.neighbors_ne_nil m x hentry hlock

end Dense

/-! ## The sizes along a run -/

/-- The number of slots in a file of the given size. -/
def slots (size : Nat) : Nat :=
  (size - headerSize) / nodeSize

/-- The file, or the file after one growth, has 10000 slots: it is full when the id 10000
comes. -/
def FullAt10000 (storageSize : Nat) : Prop :=
  slots storageSize = 10000 ∨ slots (storageSize + 10 * 1024 * 1024) = 10000

instance (storageSize : Nat) : Decidable (FullAt10000 storageSize) :=
  inferInstanceAs (Decidable (_ ∨ _))

section Sizes

variable {storageSize : Nat} {s : Filling V}

/-- The file and the lock table after an insert. -/
theorem insertNext_sizes (s : Filling V) (x : Insertion V) :
    (64 + s.count * 1056 + 1056 ≤ s.index.storageSize ∧
      (s.insertNext m x).index.storageSize = s.index.storageSize ∧
      (s.insertNext m x).index.nodeLocks = s.index.nodeLocks) ∨
    (s.index.storageSize < 64 + s.count * 1056 + 1056 ∧
      (s.insertNext m x).index.storageSize = s.index.storageSize + 10485760 ∧
      (s.insertNext m x).index.nodeLocks =
        if s.count ≥ s.index.nodeLocks then s.count + 10000 else s.index.nodeLocks) := by
  have hsize := HNSW.storageSize_insert m s.index x.level x.vec s.count x.metadata
  have hlocks := HNSW.nodeLocks_insert m s.index x.level x.vec s.count x.metadata
  rw [HNSW.expandStorage, HNSW.inStorage] at hsize hlocks
  unfold headerSize nodeSize at hsize hlocks
  by_cases hin : 64 + s.count * 1056 + 1056 ≤ s.index.storageSize
  · rw [if_pos (decide_eq_true hin)] at hsize hlocks
    exact .inl ⟨hin, hsize, hlocks⟩
  · rw [if_neg (by simpa using hin)] at hsize hlocks
    exact .inr ⟨by omega, hsize, hlocks⟩

/-- Up to 10000 ids: the lock table has its first size, and the file has grown as often as
was needed. -/
structure FirstLocks (storageSize : Nat) (s : Filling V) : Prop where
  locks : s.index.nodeLocks = 10000
  fits : 0 < s.count → 64 + s.count * 1056 ≤ s.index.storageSize
  grown : ∃ g, s.index.storageSize = storageSize + g * 10485760 ∧
    (g = 0 ∨ s.index.storageSize < 64 + s.count * 1056 + 10485760)

theorem FirstLocks.insertNext (hs : s.FirstLocks storageSize) (hcount : s.count < 10000)
    (x : Insertion V) : (s.insertNext m x).FirstLocks storageSize := by
  have hnext : (s.insertNext m x).count = s.count + 1 := rfl
  have hlocks := hs.locks
  rcases hs.grown with ⟨g, hsize, hneeded⟩
  have hfits := hs.fits
  rcases insertNext_sizes m s x with ⟨hin, hsame, hkept⟩ | ⟨hout, hmore, hraised⟩
  · refine ⟨hkept.trans hlocks, ?_, g, hsame.trans hsize, ?_⟩
    · rw [hnext, hsame]
      clear hnext hsame hkept
      omega
    · rw [hnext, hsame]
      exact hneeded.imp_right fun hlt => Nat.lt_of_lt_of_le hlt (by omega)
  · rw [if_neg (by omega)] at hraised
    refine ⟨hraised.trans hlocks, ?_, g + 1, ?_, .inr ?_⟩
    · rw [hnext, hmore]
      clear hnext hmore hraised
      omega
    · rw [hmore]
      clear hnext hmore hraised
      omega
    · rw [hnext, hmore]
      clear hnext hmore hraised
      omega

/-- Behind the id 10000, if the file was full when it came: the lock table has its second
size, and the file grows once more before the id 20000. -/
structure SecondLocks (s : Filling V) : Prop where
  locks : s.index.nodeLocks = 20000
  fits : 64 + s.count * 1056 ≤ s.index.storageSize
  grown : ∃ full, 10560064 ≤ full ∧ full < 10561120 ∧
    (s.index.storageSize = full + 10485760 ∨ s.index.storageSize = full + 20971520)

theorem SecondLocks.insertNext (hs : s.SecondLocks) (hcount : s.count < 20000) (x : Insertion V) :
    (s.insertNext m x).SecondLocks := by
  have hnext : (s.insertNext m x).count = s.count + 1 := rfl
  have hlocks := hs.locks
  rcases hs.grown with ⟨full, hlow, hhigh, hsize⟩
  have hfits := hs.fits
  rcases insertNext_sizes m s x with ⟨hin, hsame, hkept⟩ | ⟨hout, hmore, hraised⟩
  · refine ⟨hkept.trans hlocks, ?_, full, hlow, hhigh, hsame ▸ hsize⟩
    rw [hnext, hsame, Nat.succ_mul, ← Nat.add_assoc]
    exact hin
  · rw [if_neg (by omega)] at hraised
    refine ⟨hraised.trans hlocks, ?_, full, hlow, hhigh, ?_⟩
    · rw [hnext, hmore, Nat.succ_mul, ← Nat.add_assoc]
      exact Nat.add_le_add hfits (by decide)
    · rw [hmore]
      clear hnext hmore hraised
      rcases hsize with hsize | hsize
      · exact .inr (by omega)
      · omega

omit [Zero V] in
/-- The id 10000 gets a lock iff the file is full when it comes. -/
theorem FirstLocks.lt_nodeLocks_iff (hs : s.FirstLocks storageSize) (hcount : s.count = 10000) :
    s.count < (s.index.expandStorage s.count).nodeLocks ↔ FullAt10000 storageSize := by
  have hlocks := hs.locks
  rcases hs.grown with ⟨g, hsize, hneeded⟩
  have hfits := hs.fits
  unfold FullAt10000 slots HNSW.expandStorage HNSW.inStorage headerSize nodeSize
  by_cases hin : 64 + s.count * 1056 + 1056 ≤ s.index.storageSize
  · rw [if_pos (decide_eq_true hin)]
    omega
  · rw [if_neg (by simpa using hin)]
    dsimp only
    rw [if_pos (by omega)]
    omega

theorem FirstLocks.second (hs : s.FirstLocks storageSize) (hcount : s.count = 10000)
    (hfull : FullAt10000 storageSize) (x : Insertion V) : (s.insertNext m x).SecondLocks := by
  have hnext : (s.insertNext m x).count = s.count + 1 := rfl
  have hlocks := hs.locks
  rcases hs.grown with ⟨g, hsize, hneeded⟩
  have hfits := hs.fits
  unfold FullAt10000 slots headerSize nodeSize at hfull
  rcases insertNext_sizes m s x with ⟨hin, hsame, hkept⟩ | ⟨hout, hmore, hraised⟩
  · omega
  · rw [if_pos (by omega)] at hraised
    refine ⟨?_, ?_, s.index.storageSize, by omega, by omega, .inl hmore⟩
    · rw [hraised]
      omega
    · rw [hnext, hmore]
      omega

omit [Zero V] in
/-- The id 20000 gets no lock. -/
theorem SecondLocks.not_lt_nodeLocks (hs : s.SecondLocks) (hcount : s.count = 20000) :
    ¬ s.count < (s.index.expandStorage s.count).nodeLocks := by
  have hlocks := hs.locks
  rcases hs.grown with ⟨full, hlow, hhigh, hsize⟩
  have hfits := hs.fits
  have hin : s.index.inStorage s.count = true := by
    rw [HNSW.inStorage, decide_eq_true_iff]
    unfold headerSize nodeSize
    omega
  rw [HNSW.expandStorage, if_pos hin]
  omega

omit [Zero V] in
theorem firstLocks_create (storageSize : Nat) :
    (create storageSize : Filling V).FirstLocks storageSize where
  locks := rfl
  fits hpos := absurd hpos (Nat.lt_irrefl 0)
  grown := ⟨0, by simp [create], .inl rfl⟩

/-- The first 10000 ids have locks. -/
theorem FirstLocks.linksKept (hs : s.FirstLocks storageSize) (hdense : s.Dense)
    {xs : List (Insertion V)} (hcount : s.count + xs.length ≤ 10000) :
    s.LinksKept m xs ∧ (s.insertAll m xs).FirstLocks storageSize := by
  induction xs generalizing s with
  | nil => exact ⟨trivial, hs⟩
  | cons x xs ih =>
      rw [List.length_cons] at hcount
      have hnext := hs.insertNext m (by omega) x
      have hrest := ih hnext (hdense.insertNext m x) (by rw [Filling.insertNext]; dsimp only; omega)
      refine ⟨⟨(hdense.keepsLinks_iff m x).mpr ?_, hrest.1⟩, hrest.2⟩
      have hlocks : (s.insertNext m x).index.nodeLocks = _ :=
        HNSW.nodeLocks_insert m s.index x.level x.vec s.count x.metadata
      rw [← hlocks, hnext.locks]
      omega

/-- If the file was full when the id 10000 came, the first 20000 ids have locks. -/
theorem SecondLocks.linksKept (hs : s.SecondLocks) (hdense : s.Dense) {xs : List (Insertion V)}
    (hcount : s.count + xs.length ≤ 20000) :
    s.LinksKept m xs ∧ (s.insertAll m xs).SecondLocks := by
  induction xs generalizing s with
  | nil => exact ⟨trivial, hs⟩
  | cons x xs ih =>
      rw [List.length_cons] at hcount
      have hnext := hs.insertNext m (by omega) x
      have hrest := ih hnext (hdense.insertNext m x) (by rw [Filling.insertNext]; dsimp only; omega)
      refine ⟨⟨(hdense.keepsLinks_iff m x).mpr ?_, hrest.1⟩, hrest.2⟩
      have hlocks : (s.insertNext m x).index.nodeLocks = _ :=
        HNSW.nodeLocks_insert m s.index x.level x.vec s.count x.metadata
      rw [← hlocks, hnext.locks]
      omega

/-- The filling with 10000 ids. -/
theorem firstLocks_insertAll (storageSize : Nat) {xs : List (Insertion V)}
    (hlength : xs.length = 10000) :
    ((create storageSize).insertAll m xs).FirstLocks storageSize ∧
      ((create storageSize).insertAll m xs).Dense ∧
      ((create storageSize).insertAll m xs).count = 10000 := by
  have hkept : _ ∧ ((create storageSize).insertAll m xs).FirstLocks storageSize :=
    (firstLocks_create storageSize).linksKept m (dense_create storageSize)
      (by rw [create]; dsimp only; omega)
  have hzero : (create storageSize : Filling V).count = 0 := rfl
  refine ⟨hkept.2, (dense_create storageSize).insertAll m xs, ?_⟩
  rw [count_insertAll, hlength, hzero, Nat.zero_add]

/-- With more than 10000 ids, links are dropped unless the file is full when the id 10000
comes. -/
theorem fullAt10000_of_linksKept {xs ys : List (Insertion V)} {x : Insertion V}
    (hlength : xs.length = 10000)
    (hkept : (create storageSize).LinksKept m (xs ++ x :: ys)) : FullAt10000 storageSize := by
  rcases firstLocks_insertAll m storageSize hlength with ⟨hfirst, hdense, hcount⟩
  have hkeeps := ((linksKept_append m).mp hkept).2.1
  exact (hfirst.lt_nodeLocks_iff hcount).mp ((hdense.keepsLinks_iff m x).mp hkeeps)

/-- With more than 20000 ids, links are dropped. -/
theorem length_le_of_linksKept {xs ys : List (Insertion V)} {x : Insertion V}
    (hlength : xs.length = 10000)
    (hkept : (create storageSize).LinksKept m (xs ++ x :: ys)) : ys.length < 10000 := by
  rcases firstLocks_insertAll m storageSize hlength with ⟨hfirst, hdense, hcount⟩
  have hsecond := hfirst.second m hcount (fullAt10000_of_linksKept m hlength hkept) x
  have hdense' := hdense.insertNext m x
  by_contra hlong
  -- the id 20000
  have hdrop : ys.drop 9999 ≠ [] := by
    rw [Ne, List.drop_eq_nil_iff]
    omega
  rcases List.exists_cons_of_ne_nil hdrop with ⟨y, rest, hy⟩
  have hrest := ((linksKept_append m).mp hkept).2.2
  rw [← List.take_append_drop 9999 ys, hy, linksKept_append] at hrest
  have htake : (ys.take 9999).length = 9999 := by
    rw [List.length_take]
    omega
  have hnext : (((create storageSize).insertAll m xs).insertNext m x).count = 10001 := by
    rw [Filling.insertNext, hcount]
  generalize ((create storageSize).insertAll m xs).insertNext m x = s at *
  have hcount' : (s.insertAll m (ys.take 9999)).count = 20000 := by
    rw [count_insertAll, htake, hnext]
  have hthird : _ ∧ (s.insertAll m (ys.take 9999)).SecondLocks :=
    hsecond.linksKept m hdense' (by rw [hnext, htake])
  exact hthird.2.not_lt_nodeLocks hcount'
    (((hdense'.insertAll m _).keepsLinks_iff m y).mp hrest.2.1)

end Sizes

/-- For every size of the new file and all inserts of the ids 0, 1, 2, ...: no link is
dropped iff there are at most 10000 inserts, or at most 20000 and the file, at its first
size or after one growth, has room for exactly 10000 nodes. -/
theorem links_kept_iff (storageSize : Nat) (xs : List (Insertion V)) :
    (create storageSize).LinksKept m xs ↔
      xs.length ≤ 10000 ∨ (xs.length ≤ 20000 ∧ FullAt10000 storageSize) := by
  rcases Nat.lt_or_ge 10000 xs.length with hlong | hshort
  · -- split at the id 10000
    have hdrop : xs.drop 10000 ≠ [] := by
      rw [Ne, List.drop_eq_nil_iff]
      omega
    rcases List.exists_cons_of_ne_nil hdrop with ⟨x, ys, hx⟩
    have htake : (xs.take 10000).length = 10000 := by
      rw [List.length_take]
      omega
    have hlength : xs.length = 10000 + (ys.length + 1) := by
      conv_lhs => rw [← List.take_append_drop 10000 xs, hx]
      rw [List.length_append, htake, List.length_cons]
    rw [← List.take_append_drop 10000 xs, hx] at hlength ⊢
    constructor
    · intro hkept
      have := length_le_of_linksKept m htake hkept
      exact .inr ⟨by omega, fullAt10000_of_linksKept m htake hkept⟩
    · rintro (hle | ⟨hle, hfull⟩)
      · omega
      · rcases firstLocks_insertAll m storageSize htake with ⟨hfirst, hdense, hcount⟩
        rw [linksKept_append]
        refine ⟨((firstLocks_create storageSize).linksKept m (dense_create storageSize) ?_).1,
          (hdense.keepsLinks_iff m x).mpr ((hfirst.lt_nodeLocks_iff hcount).mpr hfull),
          ((hfirst.second m hcount hfull x).linksKept m (hdense.insertNext m x) ?_).1⟩
        · rw [create]
          dsimp only
          omega
        · rw [Filling.insertNext]
          dsimp only
          omega
  · constructor
    · exact fun _ => .inl hshort
    · intro _
      exact ((firstLocks_create storageSize).linksKept m (dense_create storageSize)
        (by rw [create]; dsimp only; omega)).1

/-- A new file of 100 MiB, as the shard node opens it, has room for 99296 nodes; the lock
table has 10000 locks when the id 10000 is inserted. -/
theorem link_dropped :
    ¬ ∀ (storageSize : Nat) (xs : List (Insertion Int)),
      (create storageSize).LinksKept lineMetric xs := by
  intro hall
  have hfull := fullAt10000_of_linksKept lineMetric (List.length_replicate (a := ⟨0, 5, []⟩))
    (hall (100 * 1024 * 1024) (List.replicate 10000 ⟨0, 5, []⟩ ++ [⟨0, 5, []⟩]))
  exact absurd hfull (by decide)

end Filling

end NanoDB.Index
