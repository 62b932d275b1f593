import Mathlib.Data.Finset.Card
import NanoDB.Lib.Codec

/-!
# The metadata file

{lit}`MetadataHandler` appends every non-empty metadata string to a file, as its
length and its bytes, and keeps the offset of the last string of each id in memory.
The file does not hold the ids: {lit}`rebuild_index` gives the record at position
{lit}`i` to id {lit}`i`.

Ids are non-negative {lit}`int` values.  An id without a place in {lit}`offsets_`
gets one by {lit}`resize(id + 1000)`, which throws for the last ids of {lit}`int`,
where the sum overflows; then the record is in the file already.

Main results:

- Theorem {lit}`getMetadata_saveAll`: within one open file the last non-empty
  string of an id wins, if the ids are small enough.
- Theorem {lit}`getMetadata_reopen`: after a reopen a record belongs to the id of
  its position.
- Theorem {lit}`metadata_survives_iff`: when every string survives a reopen.
-/

namespace NanoDB.Storage

open NanoDB.Lib

/-- A byte string. -/
abbrev Bytes := List UInt8

/-- The file and the in-memory index, {lit}`(offset, length)` for each id. -/
structure MetadataHandler where
  file : Bytes := []
  offsets : List (Nat × Nat) := []
deriving DecidableEq, Repr

namespace MetadataHandler

/-- Grow the index if the id is beyond its end, then set the slot. -/
def setOffset (offsets : List (Nat × Nat)) (id : Nat) (slot : Nat × Nat) : List (Nat × Nat) :=
  let offsets :=
    if id ≥ offsets.length then
      offsets ++ List.replicate (id + 1000 - offsets.length) (0, 0)
    else offsets
  offsets.set id slot

def saveMetadata (h : MetadataHandler) (id : Nat) (metadata : Bytes) : MetadataHandler :=
  if metadata = [] then h
  else
    { file := h.file ++ (leBytes 4 metadata.length ++ metadata)
      offsets := setOffset h.offsets id (h.file.length, metadata.length) }

/-- Whether an id is a non-negative {lit}`int` that has a place in {lit}`offsets_`, or gets one
without an overflow. -/
def FitsInt (h : MetadataHandler) (id : Nat) : Prop :=
  id < 2 ^ 31 ∧ (id < h.offsets.length ∨ id + 1000 < 2 ^ 31)

instance (h : MetadataHandler) (id : Nat) : Decidable (h.FitsInt id) :=
  inferInstanceAs (Decidable (_ ∧ _))

/-- A call of {lit}`save_metadata`.  For a negative length {lit}`resize` throws; then the record is
in the file, and no id has it. -/
def saveChecked (h : MetadataHandler) (id : Nat) (metadata : Bytes) : MetadataHandler :=
  if metadata = [] ∨ h.FitsInt id then h.saveMetadata id metadata
  else { h with file := h.file ++ (leBytes 4 metadata.length ++ metadata) }

/-- The string of a slot; a failed read gives the empty string. -/
def readSlot (file : Bytes) (slot : Nat × Nat) : Bytes :=
  if slot.2 = 0 then []
  else
    let data := (file.drop (slot.1 + 4)).take slot.2
    if data.length = slot.2 then data else []

def getMetadata (h : MetadataHandler) (id : Nat) : Bytes :=
  match h.offsets[id]? with
  | none => []
  | some slot => readSlot h.file slot

/-- The loop of {lit}`rebuild_index`.  {lit}`rest` is the file from {lit}`offset`
on; every turn consumes at least four bytes of it, so {lit}`fuel` is enough when it
is at least its length. -/
def rebuildFrom : Nat → Bytes → Nat → Nat → List (Nat × Nat) → List (Nat × Nat)
  | 0, _, _, _, offsets => offsets
  | fuel + 1, rest, offset, currentId, offsets =>
      if rest.length < 4 then offsets
      else
        let len := leNat (rest.take 4)
        rebuildFrom fuel (rest.drop (4 + len)) (offset + (4 + len)) (currentId + 1)
          (setOffset offsets currentId (offset, len))

def rebuildIndex (h : MetadataHandler) : MetadataHandler :=
  { h with offsets := rebuildFrom h.file.length h.file 0 0 h.offsets }

/-- {lit}`open_file` on a handler that was closed: the index is rebuilt on top of
what is still in memory. -/
def reopen (h : MetadataHandler) : MetadataHandler :=
  h.rebuildIndex

/-- {lit}`open_file` on a new handler. -/
def openFile (file : Bytes) : MetadataHandler :=
  rebuildIndex { file := file }

/-- A sequence of {lit}`save_metadata` calls. -/
def saveAll (h : MetadataHandler) (saves : List (Nat × Bytes)) : MetadataHandler :=
  saves.foldl (fun h save => h.saveChecked save.1 save.2) h

/-! ## Slots -/

/-- The slot of an id; an id beyond the index has the empty slot. -/
def slot (offsets : List (Nat × Nat)) (id : Nat) : Nat × Nat :=
  (offsets[id]?).getD (0, 0)

theorem getMetadata_eq (h : MetadataHandler) (id : Nat) :
    h.getMetadata id = readSlot h.file (slot h.offsets id) := by
  unfold getMetadata slot
  cases h.offsets[id]? with
  | none => rfl
  | some s => rfl

/-- Setting a slot changes that slot only. -/
theorem slot_setOffset (offsets : List (Nat × Nat)) (id j : Nat) (s : Nat × Nat) :
    slot (setOffset offsets id s) j = if j = id then s else slot offsets j := by
  unfold slot setOffset
  dsimp only
  split_ifs with hgrow hj hj
  · subst hj
    rw [List.getElem?_set_self (by rw [List.length_append, List.length_replicate]; omega)]
    rfl
  · rw [List.getElem?_set_ne (Ne.symm hj)]
    by_cases hlt : j < offsets.length
    · rw [List.getElem?_append_left hlt]
    · rw [List.getElem?_append_right (by omega), List.getElem?_replicate,
        List.getElem?_eq_none (by omega)]
      split_ifs <;> rfl
  · subst hj
    rw [List.getElem?_set_self (by omega)]
    rfl
  · rw [List.getElem?_set_ne (Ne.symm hj)]

/-- What is behind a record does not change its string. -/
theorem readSlot_append {file : Bytes} {s : Nat × Nat} (more : Bytes)
    (h : s.2 ≠ 0 → s.1 + 4 + s.2 ≤ file.length) : readSlot (file ++ more) s = readSlot file s := by
  unfold readSlot
  split_ifs with hzero
  · rfl
  · have hfits := h hzero
    have hdrop : (file ++ more).drop (s.1 + 4) = file.drop (s.1 + 4) ++ more :=
      List.drop_append_of_le_length (by omega)
    rw [hdrop, List.take_append_of_le_length (by rw [List.length_drop]; omega)]

/-- A record in the file is read from its offset. -/
theorem readSlot_record (before after metadata : Bytes) (hne : metadata ≠ []) :
    readSlot (before ++ (leBytes 4 metadata.length ++ metadata) ++ after)
      (before.length, metadata.length) = metadata := by
  have hpos : metadata.length ≠ 0 := by simpa using hne
  have hdrop : (before ++ (leBytes 4 metadata.length ++ metadata) ++ after).drop
      (before.length + 4) = metadata ++ after := by
    rw [List.append_assoc, ← List.drop_drop, List.drop_left, List.append_assoc,
      List.drop_left' (leBytes_length 4 _)]
  simp only [readSlot, if_neg hpos, hdrop, List.take_left, if_true]

/-! ## Saving -/

/-- Every slot lies inside the file. -/
def WellPlaced (h : MetadataHandler) : Prop :=
  ∀ id, (slot h.offsets id).2 ≠ 0 →
    (slot h.offsets id).1 + 4 + (slot h.offsets id).2 ≤ h.file.length

theorem WellPlaced.saveMetadata {h : MetadataHandler} (hplaced : h.WellPlaced) (id : Nat)
    (metadata : Bytes) : (h.saveMetadata id metadata).WellPlaced := by
  unfold MetadataHandler.saveMetadata
  split_ifs with hempty
  · exact hplaced
  · intro j
    rw [slot_setOffset]
    simp only [List.length_append, leBytes_length]
    split_ifs with hj
    · intro _
      dsimp only
      omega
    · intro hne
      have := hplaced j hne
      omega

/-- A saved string is read back under its id and changes no other id. -/
theorem getMetadata_saveMetadata {h : MetadataHandler} (hplaced : h.WellPlaced) (id j : Nat)
    (metadata : Bytes) :
    (h.saveMetadata id metadata).getMetadata j =
      if id = j ∧ metadata ≠ [] then metadata else h.getMetadata j := by
  unfold MetadataHandler.saveMetadata
  by_cases hempty : metadata = []
  · rw [if_pos hempty, if_neg (fun hc => hc.2 hempty)]
  · rw [if_neg hempty, getMetadata_eq, slot_setOffset]
    by_cases hj : j = id
    · rw [if_pos hj, if_pos ⟨hj.symm, hempty⟩]
      simpa using readSlot_record h.file [] metadata hempty
    · rw [if_neg hj, if_neg (fun hc => hj hc.1.symm), readSlot_append _ (hplaced j),
        getMetadata_eq]

theorem WellPlaced.saveChecked {h : MetadataHandler} (hplaced : h.WellPlaced) (id : Nat)
    (metadata : Bytes) : (h.saveChecked id metadata).WellPlaced := by
  rw [MetadataHandler.saveChecked]
  split
  · exact hplaced.saveMetadata id metadata
  · intro j hne
    have hslot := hplaced j hne
    rw [List.length_append]
    exact hslot.trans (Nat.le_add_right _ _)

/-- A string that is not empty is saved under an id that fits, and nothing else changes. -/
theorem getMetadata_saveChecked {h : MetadataHandler} (hplaced : h.WellPlaced) (id j : Nat)
    (metadata : Bytes) :
    (h.saveChecked id metadata).getMetadata j =
      if id = j ∧ metadata ≠ [] ∧ h.FitsInt id then metadata else h.getMetadata j := by
  rw [MetadataHandler.saveChecked]
  split
  · next hsaves =>
      rw [getMetadata_saveMetadata hplaced]
      by_cases hne : metadata ≠ []
      · simp only [hne, hsaves.resolve_left hne, not_false_eq_true, ne_eq, and_self]
      · rw [if_neg fun hc => hne hc.2, if_neg fun hc => hne hc.2.1]
  · next hthrows =>
      rw [not_or] at hthrows
      rw [if_neg fun hc => hthrows.2 hc.2.2, getMetadata_eq, getMetadata_eq,
        readSlot_append _ (hplaced j)]

/-- The record is in the file, whether {lit}`resize` throws or not. -/
theorem saveChecked_file (h : MetadataHandler) (id : Nat) {metadata : Bytes}
    (hne : metadata ≠ []) :
    (h.saveChecked id metadata).file = h.file ++ (leBytes 4 metadata.length ++ metadata) := by
  rw [saveChecked]
  split
  · rw [saveMetadata, if_neg hne]
  · rfl

/-- The last non-empty string saved under an id, or what was there before. -/
def lastSaved (id : Nat) (before : Bytes) (saves : List (Nat × Bytes)) : Bytes :=
  saves.foldl (fun s save => if save.1 = id ∧ save.2 ≠ [] then save.2 else s) before

/-- The strings that reach the file, in order. -/
def written (saves : List (Nat × Bytes)) : List Bytes :=
  (saves.map (·.2)).filter (· ≠ [])

/-- The ids of the saves that reach the file. -/
def writtenIds (saves : List (Nat × Bytes)) : List Nat :=
  (saves.filter fun save => save.2 ≠ []).map (·.1)

theorem mem_writtenIds {saves : List (Nat × Bytes)} {id : Nat} :
    id ∈ writtenIds saves ↔ ∃ metadata, (id, metadata) ∈ saves ∧ metadata ≠ [] := by
  simp [writtenIds]

theorem writtenIds_length (saves : List (Nat × Bytes)) :
    (writtenIds saves).length = (written saves).length := by
  simp only [writtenIds, written, List.length_map, List.filter_map]
  rfl

theorem mem_writtenIds_cons_of_mem (save : Nat × Bytes) {saves : List (Nat × Bytes)} {id : Nat}
    (h : id ∈ writtenIds saves) : id ∈ writtenIds (save :: saves) := by
  rcases mem_writtenIds.mp h with ⟨metadata, hmem, hne⟩
  exact mem_writtenIds.mpr ⟨metadata, List.mem_cons_of_mem _ hmem, hne⟩

/-- Within one open file the last non-empty string of an id wins. -/
theorem getMetadata_saveAll {h : MetadataHandler} (hplaced : h.WellPlaced)
    {saves : List (Nat × Bytes)} (hids : ∀ id ∈ writtenIds saves, id + 1000 < 2 ^ 31) (id : Nat) :
    (h.saveAll saves).getMetadata id = lastSaved id (h.getMetadata id) saves := by
  induction saves generalizing h with
  | nil => rfl
  | cons save saves ih =>
      have hrest := ih (hplaced.saveChecked save.1 save.2)
        fun id hid => hids id (mem_writtenIds_cons_of_mem save hid)
      have hfits : save.2 ≠ [] → h.FitsInt save.1 := by
        intro hne
        have hroom := hids save.1 (mem_writtenIds.mpr ⟨save.2, List.mem_cons_self, hne⟩)
        exact ⟨by omega, .inr hroom⟩
      rw [getMetadata_saveChecked hplaced] at hrest
      refine hrest.trans ?_
      rw [lastSaved, lastSaved, List.foldl_cons]
      congr 1
      exact if_congr ⟨fun hc => ⟨hc.1, hc.2.1⟩, fun hc => ⟨hc.1, hc.2, hfits hc.2⟩⟩ rfl rfl

/-- An id whose string has changed was saved. -/
theorem mem_writtenIds_of_changed {h : MetadataHandler} (hplaced : h.WellPlaced)
    {saves : List (Nat × Bytes)} {id : Nat}
    (hchanged : (h.saveAll saves).getMetadata id ≠ h.getMetadata id) : id ∈ writtenIds saves := by
  induction saves generalizing h with
  | nil => exact absurd rfl hchanged
  | cons save saves ih =>
      by_cases hsave : save.1 = id ∧ save.2 ≠ []
      · exact mem_writtenIds.mpr ⟨save.2, by simp [← hsave.1], hsave.2⟩
      · apply mem_writtenIds_cons_of_mem save
        apply ih (hplaced.saveChecked save.1 save.2)
        rw [getMetadata_saveChecked hplaced, if_neg fun hc => hsave ⟨hc.1, hc.2.1⟩]
        exact hchanged

/-- The bytes of a list of strings. -/
def encodeStrings (strings : List Bytes) : Bytes :=
  strings.flatMap fun s => leBytes 4 s.length ++ s

theorem saveAll_file (h : MetadataHandler) (saves : List (Nat × Bytes)) :
    (h.saveAll saves).file = h.file ++ encodeStrings (written saves) := by
  induction saves generalizing h with
  | nil => simp [saveAll, written, encodeStrings]
  | cons save saves ih =>
      rw [saveAll, List.foldl_cons]
      refine (ih (h.saveChecked save.1 save.2)).trans ?_
      by_cases hempty : save.2 = []
      · simp [saveChecked, MetadataHandler.saveMetadata, written, hempty]
      · rw [saveChecked_file h save.1 hempty]
        simp [written, encodeStrings, hempty]

/-! ## Reopening -/

theorem length_encodeStrings_cons (s : Bytes) (strings : List Bytes) :
    (encodeStrings (s :: strings)).length = 4 + s.length + (encodeStrings strings).length := by
  simp only [encodeStrings, List.flatMap_cons, List.length_append, leBytes_length]

/-- One turn of the loop of {lit}`rebuild_index`. -/
theorem rebuildFrom_cons {s : Bytes} (hs : s.length < 2 ^ 32) (strings : List Bytes)
    (fuel offset currentId : Nat) (offsets : List (Nat × Nat)) :
    rebuildFrom (fuel + 1) (encodeStrings (s :: strings)) offset currentId offsets =
      rebuildFrom fuel (encodeStrings strings) (offset + (4 + s.length)) (currentId + 1)
        (setOffset offsets currentId (offset, s.length)) := by
  have hsplit : encodeStrings (s :: strings) =
      (leBytes 4 s.length ++ s) ++ encodeStrings strings := rfl
  have hlen : leNat ((encodeStrings (s :: strings)).take 4) = s.length := by
    rw [hsplit, List.append_assoc, List.take_left' (leBytes_length 4 _), leNat_leBytes]
    exact Nat.mod_eq_of_lt hs
  have hrest : (encodeStrings (s :: strings)).drop (4 + s.length) = encodeStrings strings := by
    rw [hsplit]
    exact List.drop_left' (by rw [List.length_append, leBytes_length])
  have hsize := length_encodeStrings_cons s strings
  rw [rebuildFrom, if_neg (by omega)]
  dsimp only
  rw [hlen, hrest]

/-- The loop of {lit}`rebuild_index` gives the record at position {lit}`i` to the
{lit}`i`-th id and leaves the later slots alone. -/
theorem slot_rebuildFrom (strings : List Bytes) (hsmall : ∀ s ∈ strings, s.length < 2 ^ 32)
    (fuel offset currentId : Nat) (offsets : List (Nat × Nat)) (id : Nat)
    (hfuel : (encodeStrings strings).length ≤ fuel) :
    slot (rebuildFrom fuel (encodeStrings strings) offset currentId offsets) id =
      if id < currentId then slot offsets id
      else
        match strings[id - currentId]? with
        | some s =>
            (offset + (encodeStrings (strings.take (id - currentId))).length, s.length)
        | none => slot offsets id := by
  induction strings generalizing fuel offset currentId offsets with
  | nil =>
      have hdone : rebuildFrom fuel (encodeStrings []) offset currentId offsets = offsets := by
        cases fuel with
        | zero => rfl
        | succ fuel => simp [rebuildFrom, encodeStrings]
      rw [hdone]
      simp
  | cons s strings ih =>
      have hsize := length_encodeStrings_cons s strings
      cases fuel with
      | zero => omega
      | succ fuel =>
          have htail := ih (fun s' hs' => hsmall s' (List.mem_cons_of_mem _ hs')) fuel
            (offset + (4 + s.length)) (currentId + 1)
            (setOffset offsets currentId (offset, s.length))
            (by omega)
          rw [rebuildFrom_cons (hsmall s List.mem_cons_self), htail]
          rcases Nat.lt_trichotomy id currentId with hlt | heq | hgt
          · rw [if_pos (by omega), if_pos hlt, slot_setOffset, if_neg (by omega)]
          · subst heq
            rw [if_pos (by omega), if_neg (lt_irrefl _), slot_setOffset, if_pos rfl]
            simp [encodeStrings]
          · rw [if_neg (by omega), if_neg (by omega),
              show id - currentId = id - (currentId + 1) + 1 by omega, List.getElem?_cons_succ,
              List.take_succ_cons]
            cases strings[id - (currentId + 1)]? with
            | none =>
                dsimp only
                rw [slot_setOffset, if_neg (by omega)]
            | some s' =>
                dsimp only
                congr 1
                rw [length_encodeStrings_cons]
                omega

/-- After a reopen a record belongs to the id of its position; other ids keep what
they had in memory. -/
theorem getMetadata_reopen {h : MetadataHandler} {strings : List Bytes}
    (hfile : h.file = encodeStrings strings) (hsmall : ∀ s ∈ strings, s.length < 2 ^ 32)
    (hne : ∀ s ∈ strings, s ≠ []) (id : Nat) :
    h.reopen.getMetadata id = (strings[id]?).getD (h.getMetadata id) := by
  rw [getMetadata_eq, getMetadata_eq h]
  change readSlot h.file (slot (rebuildFrom h.file.length h.file 0 0 h.offsets) id) = _
  rw [hfile, slot_rebuildFrom strings hsmall _ _ _ _ _ le_rfl, if_neg (Nat.not_lt_zero id)]
  simp only [Nat.sub_zero, Nat.zero_add]
  cases hget : strings[id]? with
  | none => rfl
  | some s =>
      have hid : id < strings.length := (List.getElem?_eq_some_iff.mp hget).1
      have hs : strings[id] = s := (List.getElem?_eq_some_iff.mp hget).2
      have hsplit : encodeStrings strings = encodeStrings (strings.take id) ++
          (leBytes 4 s.length ++ s) ++ encodeStrings (strings.drop (id + 1)) := by
        rw [← hs]
        simp only [encodeStrings]
        conv_lhs => rw [← List.take_append_drop id strings, List.flatMap_append,
          List.drop_eq_getElem_cons hid, List.flatMap_cons]
        simp
      dsimp only [Option.getD]
      rw [hsplit]
      exact readSlot_record _ _ s (hne s (List.mem_of_getElem? hget))

/-! ## When metadata survives -/

/-- The string at each position of the file is the last string saved under the id
of that position.  Then every id below the number of strings was saved exactly
once, and no other id was. -/
def Aligned (saves : List (Nat × Bytes)) : Prop :=
  ∀ i s, (written saves)[i]? = some s → lastSaved i [] saves = s

/-- Every id reads the same before and after closing the file and opening it
again. -/
def Survives (before after : MetadataHandler) : Prop :=
  ∀ id, after.getMetadata id = before.getMetadata id

theorem ne_nil_of_mem_written {saves : List (Nat × Bytes)} {s : Bytes} (h : s ∈ written saves) :
    s ≠ [] := by
  simpa using (List.mem_filter.mp h).2

theorem mem_of_mem_written {saves : List (Nat × Bytes)} {s : Bytes} (h : s ∈ written saves) :
    ∃ id, (id, s) ∈ saves := by
  rcases List.mem_map.mp (List.mem_filter.mp h).1 with ⟨save, hmem, rfl⟩
  exact ⟨save.1, hmem⟩

/-- An id with a string was saved. -/
theorem mem_writtenIds_of_lastSaved {id : Nat} {before : Bytes} {saves : List (Nat × Bytes)}
    (h : lastSaved id before saves ≠ before) : id ∈ writtenIds saves := by
  induction saves generalizing before with
  | nil => exact absurd rfl h
  | cons save saves ih =>
      by_cases hsave : save.1 = id ∧ save.2 ≠ []
      · exact mem_writtenIds.mpr ⟨save.2, by simp [← hsave.1], hsave.2⟩
      · have htail : lastSaved id before (save :: saves) = lastSaved id before saves := by
          rw [lastSaved, List.foldl_cons, if_neg hsave]
          rfl
        rw [htail] at h
        exact mem_writtenIds_cons_of_mem save (ih h)

/-- If every position in the file is an id that was saved, then no other id was. -/
theorem lt_of_mem_writtenIds {saves : List (Nat × Bytes)}
    (hcovered : ∀ i, i < (written saves).length → i ∈ writtenIds saves) {id : Nat}
    (hid : id ∈ writtenIds saves) : id < (written saves).length := by
  by_contra hbeyond
  have hsub : insert id (Finset.range (written saves).length) ⊆ (writtenIds saves).toFinset := by
    intro j hj
    rw [List.mem_toFinset]
    rcases Finset.mem_insert.mp hj with rfl | hj
    · exact hid
    · exact hcovered j (Finset.mem_range.mp hj)
  have hcard := (Finset.card_le_card hsub).trans (List.toFinset_card_le _)
  rw [Finset.card_insert_of_notMem (by simpa using hbeyond), Finset.card_range,
    writtenIds_length] at hcard
  omega

/-- In an aligned sequence the ids are the positions of the file. -/
theorem Aligned.mem_writtenIds {saves : List (Nat × Bytes)} (haligned : Aligned saves) (i : Nat)
    (hi : i < (written saves).length) : i ∈ writtenIds saves := by
  have hlast := haligned i _ (List.getElem?_eq_getElem hi)
  have hne : lastSaved i [] saves ≠ [] := by
    rw [hlast]
    exact ne_nil_of_mem_written (List.getElem_mem hi)
  exact mem_writtenIds_of_lastSaved hne

/-- In an aligned sequence no id beyond the strings of the file has a string. -/
theorem lastSaved_eq_nil_of_aligned {saves : List (Nat × Bytes)} (haligned : Aligned saves)
    {id : Nat} (hid : (written saves).length ≤ id) : lastSaved id [] saves = [] := by
  by_contra hsaved
  have hlt := lt_of_mem_writtenIds haligned.mem_writtenIds (mem_writtenIds_of_lastSaved hsaved)
  omega

theorem wellPlaced_new : WellPlaced {} := fun _ hne => absurd rfl hne

variable {saves : List (Nat × Bytes)}

/-- If every position in the file is an id that was saved, then no save has thrown. -/
theorem getMetadata_saveAll_of_covered (hcount : (written saves).length + 1000 ≤ 2 ^ 31)
    (hcovered : ∀ i, i < (written saves).length → i ∈ writtenIds saves) (id : Nat) :
    (saveAll {} saves).getMetadata id = lastSaved id [] saves := by
  apply getMetadata_saveAll wellPlaced_new
  intro j hj
  have hlt := lt_of_mem_writtenIds hcovered hj
  omega

/-- A handler that reads every record under its position, and every other id as an aligned
sequence leaves it, is the one before the close exactly for the aligned sequences. -/
theorem survives_iff_aligned (hcount : (written saves).length + 1000 ≤ 2 ^ 31)
    {after : MetadataHandler}
    (hrecord : ∀ i s, (written saves)[i]? = some s → after.getMetadata i = s)
    (hother : Aligned saves → ∀ id, (written saves).length ≤ id →
      after.getMetadata id = lastSaved id [] saves) :
    Survives (saveAll {} saves) after ↔ Aligned saves := by
  constructor
  · intro hsurvives
    have hcovered : ∀ i, i < (written saves).length → i ∈ writtenIds saves := by
      intro i hi
      apply mem_writtenIds_of_changed wellPlaced_new
      rw [← hsurvives i, hrecord i _ (List.getElem?_eq_getElem hi)]
      exact ne_nil_of_mem_written (List.getElem_mem hi)
    intro i s hi
    rw [← getMetadata_saveAll_of_covered hcount hcovered, ← hsurvives i]
    exact hrecord i s hi
  · intro haligned id
    rw [getMetadata_saveAll_of_covered hcount haligned.mem_writtenIds]
    cases hi : (written saves)[id]? with
    | none => exact hother haligned id (List.getElem?_eq_none_iff.mp hi)
    | some s => rw [hrecord id s hi, haligned id s hi]

/-- For every sequence of saves on a new file, of strings shorter than {lit}`2 ^ 32` bytes and so
few that {lit}`rebuild_index` can count them: closing and opening it again, on the same handler or
on a new one, changes no id exactly when the sequence is aligned. -/
theorem metadata_survives_iff (saves : List (Nat × Bytes))
    (hsmall : ∀ save ∈ saves, save.2.length < 2 ^ 32)
    (hcount : (written saves).length + 1000 ≤ 2 ^ 31) :
    (Survives (saveAll {} saves) (saveAll {} saves).reopen ↔ Aligned saves) ∧
      (Survives (saveAll {} saves) (openFile (saveAll {} saves).file) ↔ Aligned saves) := by
  have hfile : (saveAll {} saves).file = encodeStrings (written saves) := by
    rw [saveAll_file]
    rfl
  have hlen : ∀ s ∈ written saves, s.length < 2 ^ 32 := by
    intro s hs
    rcases mem_of_mem_written hs with ⟨id, hmem⟩
    exact hsmall _ hmem
  have hne : ∀ s ∈ written saves, s ≠ [] := fun s hs => ne_nil_of_mem_written hs
  constructor
  · have hsame := getMetadata_reopen hfile hlen hne
    apply survives_iff_aligned hcount
    · intro i s hi
      rw [hsame, hi]
      rfl
    · intro haligned id hid
      rw [hsame, List.getElem?_eq_none_iff.mpr hid]
      exact getMetadata_saveAll_of_covered hcount haligned.mem_writtenIds id
  · have hnew : ∀ id, (openFile (saveAll {} saves).file).getMetadata id =
        ((written saves)[id]?).getD [] :=
      fun id => getMetadata_reopen (h := { file := (saveAll {} saves).file }) hfile hlen hne id
    apply survives_iff_aligned hcount
    · intro i s hi
      rw [hnew, hi]
      rfl
    · intro haligned id hid
      rw [hnew, List.getElem?_eq_none_iff.mpr hid, lastSaved_eq_nil_of_aligned haligned hid]
      rfl

/-- Ids 0 and 1, saved once each and in order, with an empty save in between. -/
theorem metadata_survives_iff_inOrder :
    Survives (saveAll {} [(0, [65]), (7, []), (1, [66])])
      (openFile (saveAll {} [(0, [65]), (7, []), (1, [66])]).file) := by
  apply (metadata_survives_iff _ (by decide) (by decide)).2.mpr
  intro i s hi
  match i with
  | 0 => exact Option.some.inj hi
  | 1 => exact Option.some.inj hi
  | i + 2 => cases hi

/-- An insert without metadata shifts all later strings: only id 1 was saved, and
after a reopen its string is read under id 0. -/
theorem metadata_shifted :
    ¬ Survives (saveAll {} [(0, []), (1, [66])]) (saveAll {} [(0, []), (1, [66])]).reopen ∧
      ¬ Survives (saveAll {} [(0, []), (1, [66])])
        (openFile (saveAll {} [(0, []), (1, [66])]).file) := by
  constructor
  · intro hsurvives
    exact absurd (hsurvives 0) (by decide +kernel)
  · intro hsurvives
    exact absurd (hsurvives 0) (by decide +kernel)

end MetadataHandler

end NanoDB.Storage
