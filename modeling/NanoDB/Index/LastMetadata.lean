import NanoDB.Index.Session

/-!
# The last metadata of an id

{lit}`insert` overwrites the slot of an id, and saves its metadata string only if that is not empty.
An empty string is also what an id without a record reads as, so an id that is inserted again with
an empty string keeps the string that it had.

{lit}`save_metadata` and {lit}`get_metadata` take the id as an {lit}`int`.  An id from
{lit}`2 ^ 31` on is negative there: it reads as the empty string, and saving a string under it
ends with an exception after the string was written to the file.

Main results:

- Theorem {lit}`getMetadata_insertSaved_iff`: when an insert leaves its own string.
- Theorem {lit}`last_metadata_wins`: in every run whose inserts do, the string of an id and of its
  search results is that of its last insert.
-/

namespace NanoDB.Storage.MetadataHandler

open NanoDB.Lib

/-! ## The metadata file -/

/-- Every slot lies inside the file, and every id that has a place is a non-negative
{lit}`int`. -/
structure Readable (h : MetadataHandler) : Prop where
  placed : h.WellPlaced
  length_le : h.offsets.length ≤ 2 ^ 31

theorem readable_new : ({} : MetadataHandler).Readable where
  placed := wellPlaced_new
  length_le := Nat.zero_le _

variable {h : MetadataHandler}

theorem length_setOffset (offsets : List (Nat × Nat)) (id : Nat) (slot : Nat × Nat) :
    (setOffset offsets id slot).length =
      if id ≥ offsets.length then id + 1000 else offsets.length := by
  unfold setOffset
  split
  · rw [List.length_set, List.length_append, List.length_replicate]
    omega
  · exact List.length_set

/-- The loop of {lit}`rebuild_index` makes a place for every record. -/
theorem length_rebuildFrom_le (strings : List Bytes) (hsmall : ∀ s ∈ strings, s.length < 2 ^ 32)
    (fuel offset currentId : Nat) (offsets : List (Nat × Nat))
    (hoffsets : offsets.length ≤ currentId + 1000) :
    (rebuildFrom fuel (encodeStrings strings) offset currentId offsets).length ≤
      currentId + strings.length + 1000 := by
  induction strings generalizing fuel offset currentId offsets with
  | nil =>
      cases fuel with
      | zero => simpa [rebuildFrom] using hoffsets
      | succ fuel => simpa [rebuildFrom, encodeStrings] using hoffsets
  | cons s strings ih =>
      cases fuel with
      | zero =>
          rw [rebuildFrom]
          omega
      | succ fuel =>
          rw [rebuildFrom_cons (hsmall s List.mem_cons_self), List.length_cons]
          have hgrown : (setOffset offsets currentId (offset, s.length)).length ≤
              currentId + 1 + 1000 := by
            rw [length_setOffset]
            split <;> omega
          have hrest := ih (fun s' hs' => hsmall s' (List.mem_cons_of_mem _ hs')) fuel
            (offset + (4 + s.length)) (currentId + 1) _ hgrown
          omega

/-- A file of complete records is opened with readable slots. -/
theorem readable_openFile {strings : List Bytes} (hsmall : ∀ s ∈ strings, s.length < 2 ^ 32)
    (hcount : strings.length + 1000 ≤ 2 ^ 31) : (openFile (encodeStrings strings)).Readable := by
  constructor
  · intro id hne
    have hslot : slot (openFile (encodeStrings strings)).offsets id = _ :=
      slot_rebuildFrom strings hsmall _ 0 0 [] id le_rfl
    rw [hslot, if_neg (Nat.not_lt_zero id), Nat.sub_zero] at hne ⊢
    show _ ≤ (encodeStrings strings).length
    cases hget : strings[id]? with
    | none =>
        rw [hget] at hne
        exact absurd rfl hne
    | some s =>
        rcases List.getElem?_eq_some_iff.mp hget with ⟨hid, hs⟩
        have hsplit : encodeStrings strings = encodeStrings (strings.take id) ++
            encodeStrings (s :: strings.drop (id + 1)) := by
          rw [← hs, ← List.drop_eq_getElem_cons hid]
          simp only [encodeStrings]
          rw [← List.flatMap_append, List.take_append_drop]
        have hlength := congrArg List.length hsplit
        rw [List.length_append, length_encodeStrings_cons] at hlength
        dsimp only
        omega
  · have hlength := length_rebuildFrom_le strings hsmall (encodeStrings strings).length 0 0 []
      (Nat.zero_le _)
    have hbound : 0 + strings.length + 1000 ≤ 2 ^ 31 := by omega
    exact hlength.trans hbound

theorem Readable.saveChecked (hread : h.Readable) (id : Nat) (metadata : Bytes) :
    (h.saveChecked id metadata).Readable := by
  refine ⟨hread.placed.saveChecked id metadata, ?_⟩
  have hlength := hread.length_le
  rw [MetadataHandler.saveChecked]
  split
  · next hsaves =>
      rw [MetadataHandler.saveMetadata]
      split
      · exact hlength
      · next hne =>
          dsimp only
          rw [length_setOffset]
          rcases hsaves.resolve_left hne with ⟨-, hplace | hroom⟩
          · rw [if_neg (Nat.not_le.mpr hplace)]
            exact hlength
          · split <;> omega
  · exact hlength

end NanoDB.Storage.MetadataHandler

namespace NanoDB.Index

open NanoDB.Lib
open NanoDB.Storage (Bytes MetadataHandler)

variable {V δ : Type*} [Zero V]

/-! ## The index -/

namespace HNSW

/-- The metadata string of an id, as an {lit}`int`. -/
def getMetadata (h : HNSW V) (id : Nat) : Bytes :=
  if id < 2 ^ 31 then h.metadataStorage.getMetadata id else []

omit [Zero V] in
/-- No id from {lit}`2 ^ 31` on has a record. -/
theorem getMetadata_eq {h : HNSW V} (hread : h.metadataStorage.Readable) (id : Nat) :
    h.getMetadata id = h.metadataStorage.getMetadata id := by
  rw [getMetadata]
  split
  · rfl
  · next hbig =>
      have hlength := hread.length_le
      rw [MetadataHandler.getMetadata, List.getElem?_eq_none (by omega)]

variable [Preorder δ] [DecidableLT δ] [PriorityQueue (Result δ)] (m : Metric V δ)

/-- A call of {lit}`insert` with the conversion of the id: the string is saved at its end, unless
the search has thrown. -/
def insertSaved (h : HNSW V) (level : Nat) (vec : V) (id : Nat) (metadata : Bytes) : HNSW V :=
  { h.insertCall m level vec id metadata with
    metadataStorage :=
      if h.entryPointId = none ∨ h.BitmapFits then h.metadataStorage.saveChecked id metadata
      else h.metadataStorage }

/-- Without a conversion that fails this is the call of before. -/
theorem insertSaved_eq (h : HNSW V) (level : Nat) (vec : V) (id : Nat) (metadata : Bytes)
    (hfits : metadata = [] ∨ h.metadataStorage.FitsInt id) :
    h.insertSaved m level vec id metadata = h.insertCall m level vec id metadata := by
  rw [insertSaved, insertCall, MetadataHandler.saveChecked, if_pos hfits]
  split
  · rw [← metadataStorage_insert m h level vec id metadata]
  · rw [← metadataStorage_written h vec id]

/-- Whether a call of {lit}`insert` ends without an exception: its search can allocate the bitmap,
and its string can be saved. -/
def InsertReturns (h : HNSW V) (id : Nat) (metadata : Bytes) : Prop :=
  (h.entryPointId = none ∨ h.BitmapFits) ∧ (metadata = [] ∨ h.metadataStorage.FitsInt id)

omit [Zero V] in
instance (h : HNSW V) (id : Nat) (metadata : Bytes) : Decidable (h.InsertReturns id metadata) :=
  inferInstanceAs (Decidable (_ ∧ _))

/-- The id has the string already; or the string is not empty, no search throws and the id
fits. -/
def SavesOwn (h : HNSW V) (id : Nat) (metadata : Bytes) : Prop :=
  h.getMetadata id = metadata ∨
    (metadata ≠ [] ∧ (h.entryPointId = none ∨ h.BitmapFits) ∧ h.metadataStorage.FitsInt id)

instance (h : HNSW V) (id : Nat) (metadata : Bytes) : Decidable (h.SavesOwn id metadata) :=
  inferInstanceAs (Decidable (_ ∨ _))

variable {m} {h : HNSW V}

/-- A call that returns does what {lit}`insert` does. -/
theorem insertSaved_of_returns {id : Nat} {metadata : Bytes}
    (hreturns : h.InsertReturns id metadata) (level : Nat) (vec : V) :
    h.insertSaved m level vec id metadata = h.insert m level vec id metadata := by
  rw [insertSaved_eq m h level vec id metadata hreturns.2, insertCall, if_pos hreturns.1]

theorem readable_insertSaved (hread : h.metadataStorage.Readable) (level : Nat) (vec : V) (id : Nat)
    (metadata : Bytes) : (h.insertSaved m level vec id metadata).metadataStorage.Readable := by
  rw [insertSaved]
  dsimp only
  split
  · exact hread.saveChecked id metadata
  · exact hread

/-- The strings after an insert. -/
theorem getMetadata_insertSaved (hread : h.metadataStorage.Readable) (level : Nat) (vec : V)
    (id : Nat) (metadata : Bytes) (j : Nat) :
    (h.insertSaved m level vec id metadata).getMetadata j =
      if id = j ∧ metadata ≠ [] ∧ (h.entryPointId = none ∨ h.BitmapFits) ∧
        h.metadataStorage.FitsInt id then metadata else h.getMetadata j := by
  rw [getMetadata_eq (readable_insertSaved hread level vec id metadata), getMetadata_eq hread,
    insertSaved]
  dsimp only
  split
  · next hsearches =>
      rw [MetadataHandler.getMetadata_saveChecked hread.placed]
      simp only [hsearches, true_and]
  · next hthrows => rw [if_neg fun hc => hthrows hc.2.2.1]

theorem getMetadata_insertSaved_iff (hread : h.metadataStorage.Readable) (level : Nat) (vec : V)
    (id : Nat) (metadata : Bytes) :
    (h.insertSaved m level vec id metadata).getMetadata id = metadata ↔ h.SavesOwn id metadata := by
  rw [getMetadata_insertSaved hread, SavesOwn]
  simp only [true_and]
  by_cases hsaves : metadata ≠ [] ∧ (h.entryPointId = none ∨ h.BitmapFits) ∧
    h.metadataStorage.FitsInt id
  · rw [if_pos hsaves]
    exact ⟨fun _ => .inr hsaves, fun _ => rfl⟩
  · rw [if_neg hsaves]
    exact ⟨.inl, fun hown => hown.resolve_right hsaves⟩

/-- A search attaches to a result what {lit}`get_metadata` returns for its id. -/
theorem metadata_of_mem_search (hread : h.metadataStorage.Readable) {query : V} {k : Int}
    {r : Result δ} (hr : r ∈ h.search m query k) : r.metadata = h.getMetadata r.id := by
  rw [getMetadata_eq hread]
  rw [search] at hr
  cases hentry : h.entryPointId with
  | none =>
      rw [hentry] at hr
      cases hr
  | some entryPoint =>
      rw [hentry] at hr
      rcases List.mem_map.mp (List.mem_reverse.mp (List.mem_of_mem_take hr)) with ⟨r', -, rfl⟩
      rfl

end HNSW

/-! ## Runs -/

/-- An open index, and the metadata of the last insert of each id. -/
structure Labelled (V : Type*) where
  index : HNSW V
  lastMetadata : Nat → Option Bytes := fun _ => none

namespace Labelled

variable [Preorder δ] [DecidableLT δ] [PriorityQueue (Result δ)] (m : Metric V δ)

/-- One call on an open index.  A string is not saved under one of the last 1000 ids, for which
{lit}`offsets_` would be indexed with a negative number. -/
def step (s : Labelled V) : Call V → Option (Labelled V)
  | .insert level vec id metadata =>
      if (metadata = [] ∨ id + 1000 < 2 ^ 32) ∧ id < noId ∧
          (s.index.expandStorage id).inStorage id = true then
        some
          { index := s.index.insertSaved m level vec id metadata
            lastMetadata := Function.update s.lastMetadata id (some metadata) }
      else none
  | .delete id => some { s with index := s.index.deleteVector id }
  | .reopen _ => none

/-- An insert leaves its own string. -/
def SavesOwn (s : Labelled V) : Call V → Prop
  | .insert _ _ id metadata => s.index.SavesOwn id metadata
  | .delete _ => True
  | .reopen _ => True

instance (s : Labelled V) (c : Call V) : Decidable (s.SavesOwn c) :=
  match c with
  | .insert _ _ _ _ => inferInstanceAs (Decidable (_ ∨ _))
  | .delete _ => inferInstanceAs (Decidable True)
  | .reopen _ => inferInstanceAs (Decidable True)

/-- Every id that was inserted has the string of its last insert. -/
structure UpToDate (s : Labelled V) : Prop where
  readable : s.index.metadataStorage.Readable
  last : ∀ id metadata, s.lastMetadata id = some metadata → s.index.getMetadata id = metadata

variable {m}

theorem UpToDate.step {s s' : Labelled V} {c : Call V} (hs : s.UpToDate) (hown : s.SavesOwn c)
    (hstep : s.step m c = some s') : s'.UpToDate := by
  cases c with
  | insert level vec id metadata =>
      rw [Labelled.step] at hstep
      split at hstep
      · rw [← Option.some.inj hstep]
        refine ⟨HNSW.readable_insertSaved hs.readable level vec id metadata, ?_⟩
        intro j metadata' hlast
        dsimp only at hlast ⊢
        by_cases hj : id = j
        · rw [← hj, Function.update_self] at hlast
          rw [← hj, ← Option.some.inj hlast]
          exact (HNSW.getMetadata_insertSaved_iff hs.readable level vec id metadata).mpr hown
        · rw [Function.update_of_ne (Ne.symm hj)] at hlast
          rw [HNSW.getMetadata_insertSaved hs.readable, if_neg fun hc => hj hc.1]
          exact hs.last j metadata' hlast
      · cases hstep
  | delete id =>
      rw [← Option.some.inj hstep]
      have hstorage := (s.index.deleteVector_keeps id).2.2.2.2
      refine ⟨?_, ?_⟩
      · rw [hstorage]
        exact hs.readable
      · intro j metadata hlast
        rw [HNSW.getMetadata, hstorage]
        exact hs.last j metadata hlast
  | reopen minSize => cases hstep

/-- In every run on an open index whose inserts leave their own strings: the string of every id that
was inserted, and the one attached to it in the results of every search, is that of its last
insert. -/
theorem last_metadata_wins {h : HNSW V} (hread : h.metadataStorage.Readable)
    {calls : List (Call V)} {s : Labelled V}
    (hrun : Exec (step m) (fun s c => s.SavesOwn c) { index := h } calls s) {id : Nat}
    {metadata : Bytes} (hlast : s.lastMetadata id = some metadata) :
    s.index.getMetadata id = metadata ∧
      ∀ query k, ∀ r ∈ s.index.search m query k, r.id = id → r.metadata = metadata := by
  have hs : s.UpToDate := by
    apply hrun.invariant UpToDate fun _ _ _ hs hown hstep => hs.step hown hstep
    exact ⟨hread, fun _ _ hnone => by cases hnone⟩
  refine ⟨hs.last id metadata hlast, ?_⟩
  rintro query k r hr rfl
  rw [HNSW.metadata_of_mem_search hs.readable hr]
  exact hs.last r.id metadata hlast

/-- An id is inserted, deleted and inserted with another string. -/
theorem last_metadata_wins_again :
    ∃ s : Labelled Int, Exec (step lineMetric) (fun s c => s.SavesOwn c)
        { index := { storageSize := 100 * 1024 * 1024 } }
        [.insert 0 5 7 [65], .delete 7, .insert 0 6 7 [66]] s ∧
      s.index.getMetadata 7 = [66] ∧
        ∀ query k, ∀ r ∈ s.index.search lineMetric query k, r.id = 7 → r.metadata = [66] := by
  have hrun := Exec.of_guardedRun (step lineMetric) (fun s c => s.SavesOwn c)
    { index := { storageSize := 100 * 1024 * 1024 } }
    [.insert 0 5 7 [65], .delete 7, .insert 0 6 7 [66]] (by decide +kernel)
  exact ⟨_, hrun, last_metadata_wins MetadataHandler.readable_new hrun (by decide +kernel)⟩

/-- An id is inserted again with an empty string, and reads the old one. -/
theorem empty_metadata_lost :
    ¬ ∀ (storageSize : Nat) (calls : List (Call Int)) (s : Labelled Int),
      Exec (step lineMetric) (fun _ _ => True) { index := { storageSize := storageSize } } calls s →
      ∀ id metadata, s.lastMetadata id = some metadata → s.index.getMetadata id = metadata := by
  intro hall
  have hrun := Exec.of_guardedRun (step lineMetric) (fun _ _ => True)
    { index := { storageSize := 100 * 1024 * 1024 } }
    [.insert 0 5 7 [65], .insert 0 6 7 []] (by decide +kernel)
  exact absurd (hall _ _ _ hrun 7 [] (by decide +kernel)) (by decide +kernel)

end Labelled

end NanoDB.Index
