import NanoDB.Index.Congruence
import NanoDB.Index.Growth
import NanoDB.Index.LastMetadata

/-!
# The file header

The count, the entry point and the top layer are members of the class.  {lit}`persist_header` writes
them to the header of the file, with casts to 32 bits: at the end of an insert and of a deletion
that sets a tombstone.  An insert whose search throws leaves both as they were.  The constructor
reads them back.

Main results:

- Theorem {lit}`Mirrored.step`: the header is the image of the members after every call.
- Theorem {lit}`construct_close`: so the constructor gives the index that {lit}`HNSW.reopen` says.
- Theorem {lit}`reopen_invisible`: a reader cannot tell the reopened index from the old one.
-/

namespace NanoDB.Index

open NanoDB.Lib
open NanoDB.Storage (Bytes MetadataHandler)

variable {V δ : Type*} [Zero V]

/-! ## The header -/

structure FileHeader where
  magic : Nat
  elementCount : Nat
  entryPointId : Int
  maxLayer : Int
deriving DecidableEq, Repr

/-- {lit}`NANODB_MAGIC`. -/
def nanodbMagic : Nat := 0x4E444200

/-- The cast to {lit}`int32_t`. -/
def toInt32 (x : Int) : Int := x.bmod (2 ^ 32)

/-- {lit}`entry_point_id_`, with {lit}`-1` as an {lit}`id_t` for no entry point. -/
def idOf (entryPointId : Option Nat) : Nat :=
  entryPointId.getD noId

/-- The entry point of an {lit}`id_t`. -/
def entryOf (id : Nat) : Option Nat :=
  if id = noId then none else some id

theorem toInt32_of_range {x : Int} (hlow : -2 ^ 31 ≤ x) (hhigh : x < 2 ^ 31) : toInt32 x = x := by
  rw [toInt32]
  exact Int.bmod_eq_of_le (by omega) (by omega)

/-- An entry point below {lit}`2 ^ 31`, and none, are read as they were written. -/
theorem entryOf_toInt32 {entryPointId : Option Nat}
    (hlt : ∀ e, entryPointId = some e → e < 2 ^ 31) :
    entryOf (toInt32 (idOf entryPointId) % 2 ^ 32).toNat = entryPointId := by
  cases entryPointId with
  | none => decide
  | some e =>
      have he := hlt e rfl
      have hcast : toInt32 (idOf (some e)) = e := by
        apply toInt32_of_range
        · exact le_trans (by decide) (Int.natCast_nonneg e)
        · exact_mod_cast he
      have hmod : ((e : Int) % 2 ^ 32).toNat = e := by omega
      rw [hcast, hmod, entryOf, if_neg]
      rw [noId]
      omega

/-- An open index and the header of its file. -/
structure Stored (V : Type*) where
  index : HNSW V
  header : FileHeader

/-- What the files keep when the index is closed. -/
structure DataFile (V : Type*) where
  nodes : List (Node V) := []
  length : Nat := 0
  header : FileHeader := ⟨0, 0, 0, 0⟩
  metadata : Bytes := []

namespace Stored

def persistHeader (s : Stored V) : Stored V :=
  { s with
    header :=
      { s.header with
        elementCount := s.index.elementCount % 2 ^ 32
        entryPointId := toInt32 (idOf s.index.entryPointId)
        maxLayer := toInt32 s.index.currentMaxLayer } }

/-- The constructor on a file that is opened with a minimum size. -/
def construct (f : DataFile V) (minSize : Nat) : Stored V :=
  let size := (MMapHandler.openFile f.length minSize).getSize
  if f.header.magic ≠ nanodbMagic then
    { index :=
        { nodes := f.nodes
          storageSize := size
          metadataStorage := MetadataHandler.openFile f.metadata }
      header := ⟨nanodbMagic, 0, -1, -1⟩ }
  else
    { index :=
        { nodes := f.nodes
          storageSize := size
          nodeLocks := f.header.elementCount + 10000
          entryPointId := entryOf (f.header.entryPointId % 2 ^ 32).toNat
          currentMaxLayer := f.header.maxLayer
          elementCount := f.header.elementCount
          metadataStorage := MetadataHandler.openFile f.metadata }
      header := f.header }

/-- Close the storage; the files keep their bytes. -/
def close (s : Stored V) : DataFile V where
  nodes := s.index.nodes
  length := s.index.storageSize
  header := s.header
  metadata := s.index.metadataStorage.file

/-- {lit}`delete_vector`, which persists the header if it sets the tombstone. -/
def delete (s : Stored V) (id : Nat) : Stored V :=
  let s' : Stored V := { s with index := s.index.deleteVector id }
  if s.index.inStorage id = true ∧ (s.index.getNode id).isDeleted = false then s'.persistHeader
  else s'

section Step

variable [Preorder δ] [DecidableLT δ] [PriorityQueue (Result δ)] (m : Metric V δ)

/-- {lit}`insert`, which persists the header unless a search has thrown. -/
def insert (s : Stored V) (level : Nat) (vec : V) (id : Nat) (metadata : Bytes) : Stored V :=
  let s' : Stored V := { s with index := s.index.insertSaved m level vec id metadata }
  if s.index.entryPointId = none ∨ s.index.BitmapFits then s'.persistHeader else s'

/-- One call. -/
def step (s : Stored V) : Call V → Option (Stored V)
  | .insert level vec id metadata =>
      if (metadata = [] ∨ id + 1000 < 2 ^ 32) ∧ id < noId ∧
          (s.index.expandStorage id).inStorage id = true then
        some (s.insert m level vec id metadata)
      else none
  | .delete id => some (s.delete id)
  | .reopen minSize => some (construct s.close minSize)

end Step

end Stored

/-- Levels below {lit}`MAX_LAYERS` and ids below {lit}`2 ^ 31`. -/
def Call.InRange : Call V → Prop
  | .insert level _ id _ => level < maxLayers ∧ id < 2 ^ 31
  | .delete _ => True
  | .reopen _ => True

instance (c : Call V) : Decidable c.InRange :=
  match c with
  | .insert _ _ _ _ => inferInstanceAs (Decidable (_ ∧ _))
  | .delete _ => inferInstanceAs (Decidable True)
  | .reopen _ => inferInstanceAs (Decidable True)

namespace Stored

/-! ## The invariant -/

/-- The header is the image of the members, which are in range. -/
structure Mirrored (s : Stored V) : Prop where
  magic : s.header.magic = nanodbMagic
  elementCount : s.header.elementCount = s.index.elementCount % 2 ^ 32
  entryPointId : s.header.entryPointId = toInt32 (idOf s.index.entryPointId)
  maxLayer : s.header.maxLayer = toInt32 s.index.currentMaxLayer
  entry_lt : ∀ e, s.index.entryPointId = some e → e < 2 ^ 31
  layer_range : -1 ≤ s.index.currentMaxLayer ∧ s.index.currentMaxLayer < maxLayers

variable {s : Stored V}

omit [Zero V] in
/-- A call after which the header is persisted. -/
theorem Mirrored.persistHeader (hs : s.Mirrored) {h : HNSW V}
    (hentry : ∀ e, h.entryPointId = some e → e < 2 ^ 31)
    (hlayer : -1 ≤ h.currentMaxLayer ∧ h.currentMaxLayer < maxLayers) :
    ({ s with index := h } : Stored V).persistHeader.Mirrored := by
  constructor
  · rw [Stored.persistHeader]
    exact hs.magic
  · rw [Stored.persistHeader]
  · rw [Stored.persistHeader]
  · rw [Stored.persistHeader]
  · rw [Stored.persistHeader]
    exact hentry
  · rw [Stored.persistHeader]
    exact hlayer

omit [Zero V] in
/-- A call that leaves the members that the header mirrors. -/
theorem Mirrored.of_same (hs : s.Mirrored) {h : HNSW V}
    (hcount : h.elementCount = s.index.elementCount)
    (hentry : h.entryPointId = s.index.entryPointId)
    (hlayer : h.currentMaxLayer = s.index.currentMaxLayer) :
    ({ s with index := h } : Stored V).Mirrored := by
  refine ⟨hs.magic, ?_, ?_, ?_, ?_, ?_⟩
  · rw [hcount]
    exact hs.elementCount
  · rw [hentry]
    exact hs.entryPointId
  · rw [hlayer]
    exact hs.maxLayer
  · rw [hentry]
    exact hs.entry_lt
  · rw [hlayer]
    exact hs.layer_range

theorem Mirrored.delete (hs : s.Mirrored) (id : Nat) : (s.delete id).Mirrored := by
  rcases s.index.deleteVector_keeps id with ⟨hentry, hlayer, -⟩
  rw [Stored.delete]
  split
  · apply hs.persistHeader
    · rw [hentry]
      exact hs.entry_lt
    · rw [hlayer]
      exact hs.layer_range
  · next hkeeps =>
      apply hs.of_same _ hentry hlayer
      rw [HNSW.elementCount_deleteVector, if_neg hkeeps]

omit [Zero V] in
/-- The constructor on the files of an index whose header is its image. -/
theorem construct_close (hs : s.Mirrored) (minSize : Nat) :
    (construct s.close minSize).index = s.index.reopen minSize := by
  have hsize : (MMapHandler.openFile s.index.storageSize minSize).getSize =
      max s.index.storageSize minSize := by
    rw [MMapHandler.openFile]
    split
    · next hlt => exact (max_eq_right (Nat.le_of_lt hlt)).symm
    · next hge => exact (max_eq_left (Nat.not_lt.mp hge)).symm
  have hlayer : s.header.maxLayer = s.index.currentMaxLayer := by
    rw [hs.maxLayer]
    have hrange := hs.layer_range
    rw [maxLayers] at hrange
    exact toInt32_of_range (by omega) (by omega)
  have hentry : entryOf (s.header.entryPointId % 2 ^ 32).toNat = s.index.entryPointId := by
    rw [hs.entryPointId]
    exact entryOf_toInt32 hs.entry_lt
  rw [construct, HNSW.reopen]
  simp only [close, hs.magic, ne_eq, not_true_eq_false, if_false, hsize, hlayer, hentry,
    hs.elementCount]

omit [Zero V] in
theorem Mirrored.construct_close (hs : s.Mirrored) (minSize : Nat) :
    (construct s.close minSize).Mirrored := by
  have hheader : (construct s.close minSize).header = s.header := by
    have hmagic : ¬ s.close.header.magic ≠ nanodbMagic := not_not_intro hs.magic
    rw [construct, if_neg hmagic]
    rfl
  have hindex := Stored.construct_close hs minSize
  refine ⟨?_, ?_, ?_, ?_, ?_, ?_⟩
  · rw [hheader]
    exact hs.magic
  · rw [hheader, hindex, hs.elementCount]
    exact (Nat.mod_mod _ _).symm
  · rw [hheader, hindex]
    exact hs.entryPointId
  · rw [hheader, hindex]
    exact hs.maxLayer
  · rw [hindex]
    exact hs.entry_lt
  · rw [hindex]
    exact hs.layer_range

section Insert

variable [Preorder δ] [DecidableLT δ] [PriorityQueue (Result δ)] {m : Metric V δ}

theorem Mirrored.insert (hs : s.Mirrored) {level : Nat} (vec : V) {id : Nat} (metadata : Bytes)
    (hlevel : level < maxLayers) (hid : id < 2 ^ 31) :
    (s.insert m level vec id metadata).Mirrored := by
  rw [Stored.insert]
  split
  · next hsearches =>
      have hcall : ∀ (β : Type) (f : HNSW V → β), f (s.index.insertCall m level vec id metadata) =
          f (s.index.insert m level vec id metadata) := by
        intro β f
        rw [HNSW.insertCall, if_pos hsearches]
      apply hs.persistHeader
      · intro e he
        have hentry : (s.index.insertSaved m level vec id metadata).entryPointId =
            (s.index.insert m level vec id metadata).entryPointId := hcall _ HNSW.entryPointId
        rw [hentry, HNSW.entryPointId_insert] at he
        split at he
        · rw [← Option.some.inj he]
          exact hid
        · exact hs.entry_lt e he
      · have hlayer : (s.index.insertSaved m level vec id metadata).currentMaxLayer =
            (s.index.insert m level vec id metadata).currentMaxLayer :=
          hcall _ HNSW.currentMaxLayer
        have hrange := hs.layer_range
        rw [hlayer, HNSW.currentMaxLayer_insert]
        split <;> omega
  · next hthrows =>
      have hwritten : s.index.insertCall m level vec id metadata = s.index.written vec id := by
        rw [HNSW.insertCall, if_neg hthrows]
      apply hs.of_same
      · rw [HNSW.insertSaved, hwritten]
        exact HNSW.elementCount_written s.index vec id
      · rw [HNSW.insertSaved, hwritten]
        exact HNSW.entryPointId_written s.index vec id
      · rw [HNSW.insertSaved, hwritten]
        exact HNSW.currentMaxLayer_written s.index vec id

/-- After every call the header is the image of the members. -/
theorem Mirrored.step (hs : s.Mirrored) {c : Call V} {s' : Stored V} (hrange : c.InRange)
    (hstep : s.step m c = some s') : s'.Mirrored := by
  cases c with
  | insert level vec id metadata =>
      rw [Stored.step] at hstep
      split at hstep
      · rw [← Option.some.inj hstep]
        exact hs.insert vec metadata hrange.1 hrange.2
      · cases hstep
  | delete id =>
      rw [← Option.some.inj hstep]
      exact hs.delete id
  | reopen minSize =>
      rw [← Option.some.inj hstep]
      exact hs.construct_close minSize

/-- A new index on a new file. -/
def create (storageSize : Nat) : Stored V :=
  construct {} storageSize

omit [Zero V] in
theorem mirrored_create (storageSize : Nat) : (create storageSize : Stored V).Mirrored where
  magic := rfl
  elementCount := rfl
  entryPointId := (by decide : (-1 : Int) = toInt32 (idOf none))
  maxLayer := (by decide : (-1 : Int) = toInt32 (-1))
  entry_lt _ he := by cases he
  layer_range := (by decide : (-1 : Int) ≤ -1 ∧ (-1 : Int) < maxLayers)

theorem mirrored_run {storageSize : Nat} {calls : List (Call V)} {s : Stored V}
    (hrun : Exec (step m) (fun _ c => c.InRange) (create storageSize) calls s) : s.Mirrored :=
  hrun.invariant Mirrored (fun _ _ _ hs hrange hstep => hs.step hrange hstep)
    (mirrored_create storageSize)

/-! ## Reopening -/

/-- In every run of inserts and deletions from a new file, also with reopens in between: when the
count is below {lit}`2 ^ 32`, and the file is opened again with a minimum size that is not above its
length, then the constructed index has the same size, the same tombstones and vectors for all ids,
and the same ids and distances for all searches, which throw when they threw before. -/
theorem reopen_invisible {storageSize : Nat} {calls : List (Call V)} {s : Stored V}
    (hrun : Exec (step m) (fun _ c => c.InRange) (create storageSize) calls s)
    (hcount : s.index.elementCount < 2 ^ 32) {minSize : Nat}
    (hmin : minSize ≤ s.index.storageSize) :
    (construct s.close minSize).index.size = s.index.size ∧
      (∀ id, (construct s.close minSize).index.isDeleted id = s.index.isDeleted id ∧
        (construct s.close minSize).index.getVectorData id = s.index.getVectorData id) ∧
      ∀ query k, ((construct s.close minSize).index.searchChecked m query k).map
          HNSW.idsAndDistances =
        (s.index.searchChecked m query k).map HNSW.idsAndDistances := by
  have hmod : s.index.elementCount % 2 ^ 32 = s.index.elementCount := Nat.mod_eq_of_lt hcount
  have hsize : max s.index.storageSize minSize = s.index.storageSize := max_eq_left hmin
  rw [construct_close (mirrored_run hrun)]
  have hsame : HNSW.SameForSearch s.index (s.index.reopen minSize) := ⟨rfl, rfl, rfl, hmod⟩
  have hstored : ∀ id, (s.index.reopen minSize).inStorage id = s.index.inStorage id := by
    intro id
    rw [HNSW.inStorage, HNSW.inStorage, HNSW.reopen, hsize]
  refine ⟨hmod, ?_, fun query k => HNSW.searchChecked_congr m hsame query k⟩
  intro id
  constructor
  · rw [HNSW.isDeleted, HNSW.isDeleted, hstored, hsame.getNode]
  · rw [HNSW.getVectorData, HNSW.getVectorData, hstored, hsame.getNode]

/-- Two inserts and a deletion. -/
theorem reopen_invisible_oneDeleted :
    ∃ s : Stored Int, Exec (step lineMetric) (fun _ c => c.InRange) (create (100 * 1024 * 1024))
        [.insert 0 5 0 [], .insert 1 7 3 [65], .delete 0] s ∧
      (construct s.close 0).index.size = s.index.size ∧
      (∀ id, (construct s.close 0).index.isDeleted id = s.index.isDeleted id ∧
        (construct s.close 0).index.getVectorData id = s.index.getVectorData id) ∧
      ∀ query k, ((construct s.close 0).index.searchChecked lineMetric query k).map
          HNSW.idsAndDistances =
        (s.index.searchChecked lineMetric query k).map HNSW.idsAndDistances := by
  have hrun := Exec.of_guardedRun (step lineMetric) (fun _ c => c.InRange)
    (create (100 * 1024 * 1024)) [.insert 0 5 0 [], .insert 1 7 3 [65], .delete 0]
    (by decide +kernel)
  exact ⟨_, hrun, reopen_invisible hrun (by decide +kernel) (Nat.zero_le _)⟩

end Insert

end Stored

end NanoDB.Index
