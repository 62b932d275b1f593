import Mathlib.Data.Finset.Card
import NanoDB.Index.BestSeen

/-!
# Histories of one index

All histories of an index: any ids are inserted, inserted again and deleted, in any order,
also ids that were never inserted, and the index is closed and opened again.  Beside the index
stands what a caller would expect of it: the vector last inserted under each id, and the ids
whose last operation was an insert.

An id is inserted only if its slot lies inside the file after the growth step.  If there is an
entry point, an insert searches for neighbours; if the bitmap of that search cannot be
allocated, it ends with an exception after the slot was written.

Main results:

- Theorem {lit}`mem_neighbors_linked`: an insert links nothing but what a set closed under
  links and the new node have.
- Theorem {lit}`WellFormed.step`: every link and the entry point lead to ids that were
  inserted, each with the vector last inserted, and the live slots among them are the live
  ids.
- Theorem {lit}`wellFormed_run`: so it is after every history.
-/

namespace NanoDB.Index

open NanoDB.Lib
open NanoDB.Storage (Bytes MetadataHandler)

variable {V δ : Type*} [Zero V]

/-! ## Calls -/

namespace HNSW

/-- The constructor on an existing file: the members come from the header, where the count
has 32 bits. -/
def reopen (h : HNSW V) (minSize : Nat) : HNSW V where
  nodes := h.nodes
  storageSize := max h.storageSize minSize
  nodeLocks := h.elementCount % 2 ^ 32 + 10000
  entryPointId := h.entryPointId
  currentMaxLayer := h.currentMaxLayer
  elementCount := h.elementCount % 2 ^ 32
  metadataStorage := MetadataHandler.openFile h.metadataStorage.file

section Insert

variable [Preorder δ] [DecidableLT δ] [PriorityQueue (Result δ)] (m : Metric V δ)

/-- An insert adds links to the new node and to nodes of every set that contains the entry
point and the ends of all links. -/
theorem mem_neighbors_linked {S : Nat → Prop} {h : HNSW V} {level : Nat} {vec : V} {id : Nat}
    (hentry : ∀ e, h.entryPointId = some e → S e ∧ 0 ≤ h.currentMaxLayer)
    (hlinks : ∀ x l y, y ∈ h.neighbors x l → S y) (hid : S id) {x l y : Nat}
    (hy : y ∈ (h.linked m level vec id).neighbors x l) : S y := by
  have hwritten : ∀ x l, ∀ y ∈ (h.written vec id).neighbors x l, S y := by
    intro x l y hy
    rw [neighbors_written] at hy
    split at hy
    · cases hy
    · exact hlinks x l y hy
  cases he : h.entryPointId with
  | none =>
      rw [linked, he] at hy
      exact hwritten x l y hy
  | some e =>
      rcases hentry e he with ⟨hSe, hlayer⟩
      rcases linked_cases m level he hlayer (fun l _ _ x _ => hwritten x l) hSe with
        ⟨h', c, heq, hc, hupper⟩
      rw [heq] at hy
      have hselected : ∀ n ∈ h'.selectNeighbors m vec 0 c, S n := by
        intro n hn
        refine (mem_selectNeighbors m ?_ hc hn).1
        intro x _ y hy
        rw [hupper.bottom] at hy
        exact hwritten x 0 y hy
      rcases hupper.mem_neighbors m (fun n hn _ => hn) hselected hy with hold | ⟨-, hS⟩ | ⟨rfl, -⟩
      · exact hwritten x l y hold
      · exact hS
      · exact hid

end Insert

end HNSW

/-- A call on an index. -/
inductive Call (V : Type*)
  | insert (level : Nat) (vec : V) (id : Nat) (metadata : Bytes)
  | delete (id : Nat)
  | reopen (minSize : Nat)

/-- An index, the vector last inserted under each id, and the ids whose last operation was an
insert. -/
structure Session (V : Type*) where
  index : HNSW V
  vectors : Nat → Option V := fun _ => none
  live : Finset Nat := ∅

namespace Session

/-- A new index on a new file. -/
def create (storageSize : Nat) : Session V where
  index := { storageSize := storageSize }

/-- An id that was inserted before. -/
def Inserted (s : Session V) (id : Nat) : Prop :=
  (s.vectors id).isSome = true

instance (s : Session V) (id : Nat) : Decidable (s.Inserted id) :=
  inferInstanceAs (Decidable (_ = true))

def delete (s : Session V) (id : Nat) : Session V :=
  { s with
    index := s.index.deleteVector id
    live := s.live.erase id }

def reopen (s : Session V) (minSize : Nat) : Session V :=
  { s with index := s.index.reopen minSize }

@[simp] theorem index_delete (s : Session V) (id : Nat) :
    (s.delete id).index = s.index.deleteVector id := rfl

@[simp] theorem live_delete (s : Session V) (id : Nat) :
    (s.delete id).live = s.live.erase id := rfl

@[simp] theorem inserted_delete (s : Session V) (id j : Nat) :
    (s.delete id).Inserted j ↔ s.Inserted j := Iff.rfl

section Step

variable [Preorder δ] [DecidableLT δ] [PriorityQueue (Result δ)] (m : Metric V δ)

def insert (s : Session V) (level : Nat) (vec : V) (id : Nat) (metadata : Bytes) : Session V where
  index := s.index.insertCall m level vec id metadata
  vectors := Function.update s.vectors id (some vec)
  live := Insert.insert id s.live

@[simp] theorem index_insert (s : Session V) (level : Nat) (vec : V) (id : Nat)
    (metadata : Bytes) :
    (s.insert m level vec id metadata).index = s.index.insertCall m level vec id metadata := rfl

@[simp] theorem live_insert (s : Session V) (level : Nat) (vec : V) (id : Nat)
    (metadata : Bytes) :
    (s.insert m level vec id metadata).live = Insert.insert id s.live := rfl

@[simp] theorem vectors_insert (s : Session V) (level : Nat) (vec : V) (id : Nat)
    (metadata : Bytes) (j : Nat) :
    (s.insert m level vec id metadata).vectors j = if j = id then some vec else s.vectors j :=
  Function.update_apply ..

@[simp] theorem inserted_insert (s : Session V) (level : Nat) (vec : V) (id : Nat)
    (metadata : Bytes) (j : Nat) :
    (s.insert m level vec id metadata).Inserted j ↔ j = id ∨ s.Inserted j := by
  by_cases hj : j = id
  · simp [hj, Inserted]
  · simp [hj, Inserted]

/-- One call.  An id that does not fit the file is not inserted. -/
def step (s : Session V) : Call V → Option (Session V)
  | .insert level vec id metadata =>
      if id < noId ∧ (s.index.expandStorage id).inStorage id = true then
        some (s.insert m level vec id metadata)
      else none
  | .delete id => some (s.delete id)
  | .reopen minSize => some (s.reopen minSize)

/-- What one call can do. -/
theorem step_cases {s s' : Session V} {c : Call V} (hstep : s.step m c = some s') :
    (∃ level vec id metadata, c = .insert level vec id metadata ∧ id < noId ∧
      (s.index.expandStorage id).inStorage id = true ∧ s' = s.insert m level vec id metadata) ∨
    (∃ id, c = .delete id ∧ s' = s.delete id) ∨
    ∃ minSize, c = .reopen minSize ∧ s' = s.reopen minSize := by
  cases c with
  | insert level vec id metadata =>
      rw [step] at hstep
      split at hstep
      · next hfits =>
          exact .inl ⟨level, vec, id, metadata, rfl, hfits.1, hfits.2, (Option.some.inj hstep).symm⟩
      · cases hstep
  | delete id => exact .inr (.inl ⟨id, rfl, (Option.some.inj hstep).symm⟩)
  | reopen minSize => exact .inr (.inr ⟨minSize, rfl, (Option.some.inj hstep).symm⟩)

end Step

/-! ## The invariant -/

/-- The entry point and every link lead to ids that were inserted; their slots lie in the
file, hold the vector last inserted, and are live if the id is. -/
structure WellFormed (s : Session V) : Prop where
  entry : ∀ e, s.index.entryPointId = some e → s.Inserted e ∧ 0 ≤ s.index.currentMaxLayer
  links : ∀ x l y, y ∈ s.index.neighbors x l → s.Inserted y
  vector : ∀ id v, s.vectors id = some v → (s.index.getNode id).vector = v
  live : ∀ id, id ∈ s.live ↔ s.Inserted id ∧ (s.index.getNode id).isDeleted = false
  stored : ∀ id, s.Inserted id → id < noId ∧ s.index.inStorage id = true
  count_lt : s.index.elementCount < 2 ^ 64

theorem wellFormed_create (storageSize : Nat) : (create storageSize : Session V).WellFormed where
  entry e he := by cases he
  links x l y hy := by cases hy
  vector id v hv := by cases hv
  live id := by simp [create, Inserted]
  stored id hid := by cases hid
  count_lt := Nat.two_pow_pos 64

namespace WellFormed

variable {s : Session V}

/-- There are fewer live ids than values of an {lit}`id_t`. -/
theorem card_live_lt (hs : s.WellFormed) : s.live.card < 2 ^ 32 := by
  have hsub : s.live ⊆ Finset.range noId := by
    intro id hid
    exact Finset.mem_range.mpr (hs.stored id ((hs.live id).mp hid).1).1
  have hle : s.live.card ≤ noId := by simpa using Finset.card_le_card hsub
  exact lt_of_le_of_lt hle (by decide)

theorem delete (hs : s.WellFormed) (id : Nat) : (s.delete id).WellFormed := by
  rcases s.index.deleteVector_keeps id with ⟨hentry, hlayer, -, hstorage, -⟩
  refine ⟨?_, ?_, ?_, ?_, ?_, ?_⟩
  · rw [index_delete, hentry, hlayer]
    exact hs.entry
  · intro x l y hy
    rw [index_delete, HNSW.neighbors_deleteVector] at hy
    exact hs.links x l y hy
  · intro j v hv
    rw [index_delete, HNSW.getNode_deleteVector]
    split
    · exact hs.vector j v hv
    · exact hs.vector j v hv
  · intro j
    rw [live_delete, Finset.mem_erase, hs.live, inserted_delete, index_delete,
      HNSW.getNode_deleteVector]
    by_cases hj : j = id
    · constructor
      · exact fun h => absurd hj h.1
      · rintro ⟨hinserted, hlive⟩
        rw [if_pos ⟨hj, hj ▸ (hs.stored j hinserted).2⟩] at hlive
        cases hlive
    · rw [if_neg fun hc => hj hc.1]
      exact ⟨fun h => h.2, fun h => ⟨hj, h⟩⟩
  · intro j hj
    rw [HNSW.inStorage, index_delete, hstorage]
    exact hs.stored j hj
  · rw [index_delete, HNSW.elementCount_deleteVector]
    split
    · exact Nat.mod_lt _ (by decide)
    · exact hs.count_lt

theorem reopen (hs : s.WellFormed) (minSize : Nat) :
    (s.reopen minSize).WellFormed where
  entry := hs.entry
  links := hs.links
  vector := hs.vector
  live := hs.live
  stored := by
    intro id hid
    rcases hs.stored id hid with ⟨hlt, hin⟩
    refine ⟨hlt, ?_⟩
    rw [HNSW.inStorage, decide_eq_true_eq] at hin ⊢
    exact hin.trans (le_max_left _ _)
  count_lt := lt_trans (Nat.mod_lt _ (by decide)) (by decide)

section Insert

variable [Preorder δ] [DecidableLT δ] [PriorityQueue (Result δ)] (m : Metric V δ)

theorem insert (hs : s.WellFormed) (level : Nat) (vec : V) {id : Nat} (metadata : Bytes)
    (hid : id < noId) (hin : (s.index.expandStorage id).inStorage id = true) :
    (s.insert m level vec id metadata).WellFormed := by
  have hstorage : s.index.storageSize ≤ (s.index.expandStorage id).storageSize := by
    unfold HNSW.expandStorage
    split
    · exact le_rfl
    · exact Nat.le_add_right _ _
  have hentry : ∀ e, s.index.entryPointId = some e →
      (e = id ∨ s.Inserted e) ∧ 0 ≤ s.index.currentMaxLayer := by
    intro e he
    rcases hs.entry e he with ⟨hinserted, hlayer⟩
    exact ⟨.inr hinserted, hlayer⟩
  refine ⟨?_, ?_, ?_, ?_, ?_, ?_⟩
  · intro e he
    rw [inserted_insert]
    rw [index_insert, HNSW.insertCall] at he ⊢
    split at he
    · next hfits =>
        rw [if_pos hfits, HNSW.currentMaxLayer_insert]
        rw [HNSW.entryPointId_insert] at he
        split at he
        · next htop =>
            rw [if_pos htop]
            exact ⟨.inl (Option.some.inj he).symm, Int.natCast_nonneg _⟩
        · next htop =>
            rw [if_neg htop]
            exact hentry e he
    · next hthrows =>
        rw [if_neg hthrows, HNSW.currentMaxLayer_written]
        rw [HNSW.entryPointId_written] at he
        exact hentry e he
  · intro x l y hy
    rw [inserted_insert]
    rw [index_insert, HNSW.insertCall] at hy
    split at hy
    · rw [HNSW.neighbors_insert] at hy
      exact HNSW.mem_neighbors_linked m (S := fun j => j = id ∨ s.Inserted j) hentry
        (fun x l y hy => .inr (hs.links x l y hy)) (.inl rfl) hy
    · rw [HNSW.neighbors_written] at hy
      split at hy
      · cases hy
      · exact .inr (hs.links x l y hy)
  · intro j v hv
    rw [index_insert, (HNSW.getNode_insertCall m s.index level vec id metadata j).1]
    rw [vectors_insert] at hv
    split at hv
    · next hj =>
        rw [if_pos hj]
        exact Option.some.inj hv
    · next hj =>
        rw [if_neg hj]
        exact hs.vector j v hv
  · intro j
    rw [live_insert, Finset.mem_insert, hs.live, inserted_insert, index_insert,
      (HNSW.getNode_insertCall m s.index level vec id metadata j).2]
    by_cases hj : j = id
    · simp [hj]
    · simp [hj]
  · intro j hj
    rw [inserted_insert] at hj
    rw [HNSW.inStorage, index_insert, HNSW.storageSize_insertCall]
    rcases hj with rfl | hj
    · exact ⟨hid, hin⟩
    · rcases hs.stored j hj with ⟨hlt, hstored⟩
      rw [HNSW.inStorage, decide_eq_true_eq] at hstored
      exact ⟨hlt, decide_eq_true (hstored.trans hstorage)⟩
  · rw [index_insert, HNSW.insertCall]
    split
    · rw [HNSW.elementCount_insert]
      exact Nat.mod_lt _ (by decide)
    · rw [HNSW.elementCount_written]
      exact hs.count_lt

/-- One call keeps the invariant. -/
theorem step (hs : s.WellFormed) {c : Call V} {s' : Session V} (hstep : s.step m c = some s') :
    s'.WellFormed := by
  rcases step_cases m hstep with ⟨level, vec, id, metadata, -, hid, hin, rfl⟩ | ⟨id, -, rfl⟩ |
    ⟨minSize, -, rfl⟩
  · exact hs.insert m level vec metadata hid hin
  · exact hs.delete id
  · exact hs.reopen minSize

end Insert

end WellFormed

/-- The invariant holds after every history. -/
theorem wellFormed_run [Preorder δ] [DecidableLT δ] [PriorityQueue (Result δ)] {m : Metric V δ}
    {ok : Session V → Call V → Prop} {storageSize : Nat} {calls : List (Call V)} {s : Session V}
    (hrun : Exec (step m) ok (create storageSize) calls s) : s.WellFormed :=
  hrun.invariant WellFormed (fun _ _ _ hs _ hstep => hs.step m hstep)
    (wellFormed_create storageSize)

end Session

end NanoDB.Index
