import NanoDB.Cluster.IdMapStore

/-!
# A kill inside the id map's {lit}`persist`

A process that is stopped inside {lit}`persist` leaves a record that is cut short.
{lit}`rebuild_index` stops at it and leaves its bytes where they are, and the records of
the ids that are assigned next are appended behind them.  The opening after that reads the
torn bytes and the new records as one input.

The file may be any bytes: an earlier kill may have left a torn record in it, and then the
record that is cut short stands behind those bytes.

Main results:

- Theorem {lit}`afterKill_eq`, {lit}`openFile_afterKill`: the store before and after the
  second opening.
- Theorem {lit}`survives_torn_write`: when both give every id the same local id.
-/

namespace NanoDB.Cluster

open NanoDB.Lib
open Raft (Bytes clip clip_of_lt)

namespace IdMapStore

/-! ## The two openings -/

/-- The ids of a sequence of {lit}`assign` calls that are new when they come. -/
def freshIds : List Key → List Key → List Key
  | _, [] => []
  | known, k :: ks => if k ∈ known then freshIds known ks else k :: freshIds (known ++ [k]) ks

theorem assignAll_ofIds (file : Bytes) (ids ks : List Key) :
    (ofIds file ids).assignAll ks =
      ofIds (file ++ idFormat.encodeAll (freshIds ids ks)) (ids ++ freshIds ids ks) := by
  induction ks generalizing file ids with
  | nil => simp [assignAll, freshIds]
  | cons k ks ih =>
      rw [assignAll, List.foldl_cons]
      by_cases hk : k ∈ ids
      · rw [assign_of_mem hk, freshIds, if_pos hk]
        exact ih file ids
      · rw [assign_of_notMem hk, freshIds, if_neg hk, RecordFormat.encodeAll_cons]
        have hrest := ih (file ++ encodeId k) (ids ++ [k])
        rw [List.append_assoc, List.append_assoc, List.singleton_append] at hrest
        exact hrest

theorem freshIds_spec (known ks : List Key) :
    (freshIds known ks).Nodup ∧ (∀ k ∈ freshIds known ks, k ∉ known ∧ k ∈ ks) ∧
      ∀ k ∈ ks, k ∈ known ∨ k ∈ freshIds known ks := by
  induction ks generalizing known with
  | nil => simp [freshIds]
  | cons k ks ih =>
      rw [freshIds]
      by_cases hk : k ∈ known
      · rcases ih known with ⟨hnodup, hnew, hall⟩
        rw [if_pos hk]
        refine ⟨hnodup, ?_, ?_⟩
        · intro x hx
          exact ⟨(hnew x hx).1, List.mem_cons_of_mem _ (hnew x hx).2⟩
        · intro x hx
          rcases List.mem_cons.mp hx with rfl | hx
          · exact .inl hk
          · exact hall x hx
      · rcases ih (known ++ [k]) with ⟨hnodup, hnew, hall⟩
        rw [if_neg hk]
        refine ⟨List.nodup_cons.mpr ⟨?_, hnodup⟩, ?_, ?_⟩
        · intro hmem
          exact (hnew k hmem).1 (List.mem_append_right _ (List.mem_singleton_self k))
        · intro x hx
          rcases List.mem_cons.mp hx with rfl | hx
          · exact ⟨hk, List.mem_cons_self⟩
          · rcases hnew x hx with ⟨hnot, hmem⟩
            exact ⟨fun hknown => hnot (List.mem_append_left _ hknown),
              List.mem_cons_of_mem _ hmem⟩
        · intro x hx
          rcases List.mem_cons.mp hx with rfl | hx
          · exact .inr List.mem_cons_self
          · rcases hall x hx with hknown | hfresh
            · rcases List.mem_append.mp hknown with hknown | hknown
              · exact .inl hknown
              · rw [List.mem_singleton.mp hknown]
                exact .inr List.mem_cons_self
            · exact .inr (List.mem_cons_of_mem _ hfresh)

/-- The file when {lit}`persist` is stopped after {lit}`n` bytes of a record. -/
def killedIn (file : Bytes) (externalId : Key) (n : Nat) : Bytes :=
  file ++ (encodeId externalId).take n

/-- The store of the process that is started after the kill, once it has assigned more
ids. -/
def afterKill (file : Bytes) (externalId : Key) (n : Nat) (more : List Key) : IdMapStore :=
  (openFile (killedIn file externalId n)).assignAll more

/-- Opening the file once more changes the local id of no id that was written before the
kill or assigned after it, in either direction. -/
def SurvivesTornWrite (file : Bytes) (externalId : Key) (n : Nat) (more : List Key) : Prop :=
  let before := afterKill file externalId n more
  let after := openFile before.file
  ∀ k, k ∈ idFormat.readAll file ∨ k ∈ more →
    after.lookup k = before.lookup k ∧
      ∀ localId, before.lookup k = some localId →
        after.reverseLookup localId = before.reverseLookup localId

/-- The bytes behind the last whole record of a file. -/
def tornBytes (file : Bytes) : Bytes :=
  file.drop (idFormat.sizeAll (idFormat.readAll file))

/-- The bytes that a torn record leaves do no harm: the records of the new ids stand at
the start of the torn bytes and the new records together, and what is left there has no
record of an id that is to be kept. -/
def HarmlessTail (kept : List Key) (torn : Bytes) (fresh : List Key) : Prop :=
  (∀ k ∈ fresh, k.length < 2 ^ 32) ∧
    ∃ tail, torn ++ idFormat.encodeAll fresh = idFormat.encodeAll fresh ++ tail ∧
      ∀ pre k, (∀ x ∈ pre ++ [k], x.length < 2 ^ 32) →
        idFormat.encodeAll (pre ++ [k]) <+: tail → k ∉ kept

/-- A file is its whole records and the bytes behind them. -/
theorem encodeAll_append_tornBytes (file : Bytes) :
    idFormat.encodeAll (idFormat.readAll file) ++ tornBytes file = file := by
  rcases idFormat.encodeAll_readAll_prefix file with ⟨rest, hrest⟩
  have htorn : tornBytes file = rest := by
    rw [tornBytes, RecordFormat.sizeAll]
    nth_rewrite 2 [← hrest]
    exact List.drop_left
  rw [htorn, hrest]

/-- What can be read from a file can be read when more bytes follow. -/
theorem readAll_prefix_append (file more : Bytes) :
    idFormat.readAll file <+: idFormat.readAll (file ++ more) := by
  apply (idFormat.encodeAll_prefix_iff (fun k hk => clip_of_lt (length_lt_of_mem_readAll hk)) _).mp
  exact (idFormat.encodeAll_readAll_prefix file).trans (List.prefix_append _ _)

/-- A stream of short ids in front of an input is read first. -/
theorem readAll_encodeAll_append {ids : List Key} (hshort : ∀ k ∈ ids, k.length < 2 ^ 32)
    (rest : Bytes) :
    idFormat.readAll (idFormat.encodeAll ids ++ rest) = ids ++ idFormat.readAll rest := by
  have hstored : ids.map idFormat.stored = ids :=
    (List.map_congr_left fun k hk => clip_of_lt (hshort k hk)).trans (List.map_id' _)
  rw [idFormat.readAll_append, hstored]

section TornWrite

variable (file : Bytes) (x : Key) (n : Nat) (more : List Key)

/-- The ids that the process after the kill reads. -/
def idsAfterKill : List Key :=
  idFormat.readAll (killedIn file x n)

/-- The process that is started after the kill knows the ids that can be read, and appends
behind the torn bytes. -/
theorem afterKill_eq :
    afterKill file x n more =
      ofIds (idFormat.encodeAll (idsAfterKill file x n) ++ (tornBytes (killedIn file x n) ++
          idFormat.encodeAll (freshIds (idsAfterKill file x n) more)))
        (idsAfterKill file x n ++ freshIds (idsAfterKill file x n) more) := by
  rw [afterKill, openFile_eq, assignAll_ofIds, ← idsAfterKill, ← List.append_assoc]
  congr 2
  exact (encodeAll_append_tornBytes _).symm

/-- The last opening reads the torn bytes and the new records as one input. -/
theorem openFile_afterKill :
    openFile (afterKill file x n more).file =
      ofIds (afterKill file x n more).file (idsAfterKill file x n ++
        idFormat.readAll (tornBytes (killedIn file x n) ++
          idFormat.encodeAll (freshIds (idsAfterKill file x n) more))) := by
  have hshort : ∀ k ∈ idsAfterKill file x n, k.length < 2 ^ 32 :=
    fun k => length_lt_of_mem_readAll
  rw [openFile_eq, ← readAll_encodeAll_append hshort, afterKill_eq]
  rfl

/-- The ids that can be read before the kill can be read after it. -/
theorem mem_idsAfterKill {k : Key} (hk : k ∈ idFormat.readAll file) :
    k ∈ idsAfterKill file x n :=
  (readAll_prefix_append file _).subset hk

end TornWrite

/-- Entries behind a list do not change what a local id of the list stands for. -/
theorem reverseLookup_append {ids more : List Key} {file file' : Bytes} {i : Nat}
    (hi : i < ids.length) :
    (ofIds file (ids ++ more)).reverseLookup i = (ofIds file' ids).reverseLookup i := by
  have hlt : i < (ids ++ more).length := by
    rw [List.length_append]
    omega
  have hlong : (ofIds file (ids ++ more)).reverseLookup i = (ids ++ more)[i] := dif_pos hlt
  have hids : (ofIds file' ids).reverseLookup i = ids[i] := dif_pos hi
  rw [hlong, hids, List.getElem_append_left hi]

/-- The local id of an id, when there are no more entries than local ids. -/
theorem exists_lookup_ofIds {ids : List Key} {i : Nat} {k : Key} (file : Bytes)
    (hsize : ids.length ≤ 2 ^ 32) (hi : ids[i]? = some k) :
    ∃ j, i ≤ j ∧ ids[j]? = some k ∧ (ofIds file ids).lookup k = some j := by
  rcases exists_lookup_forwardOf hi with ⟨j, hij, hj, hlookup⟩
  have hlt := (List.getElem?_eq_some_iff.mp hj).1
  rw [Nat.mod_eq_of_lt (by omega)] at hlookup
  exact ⟨j, hij, hj, hlookup⟩

/-- A record takes at least one byte. -/
theorem length_readAll_le (data : Bytes) : (idFormat.readAll data).length ≤ data.length := by
  calc (idFormat.readAll data).length
    _ ≤ idFormat.sizeAll (idFormat.readAll data) := idFormat.length_le_sizeAll _
    _ ≤ data.length := (idFormat.encodeAll_readAll_prefix data).length_le

/-- What follows the records of the new ids reads as the records behind them. -/
theorem readAll_of_harmlessTail {fresh : List Key} {torn tail : Bytes}
    (hshort : ∀ k ∈ fresh, k.length < 2 ^ 32)
    (htail : torn ++ idFormat.encodeAll fresh = idFormat.encodeAll fresh ++ tail) :
    idFormat.readAll (torn ++ idFormat.encodeAll fresh) = fresh ++ idFormat.readAll tail := by
  rw [htail, readAll_encodeAll_append hshort]

/-- The ids that are read from an input are those whose record stands behind other
records in it. -/
theorem mem_readAll_iff {tail : Bytes} {k : Key} :
    k ∈ idFormat.readAll tail ↔
      ∃ pre, (∀ x ∈ pre ++ [k], x.length < 2 ^ 32) ∧ idFormat.encodeAll (pre ++ [k]) <+: tail := by
  constructor
  · intro hk
    rcases List.append_of_mem hk with ⟨pre, post, heq⟩
    have hstart : pre ++ [k] <+: idFormat.readAll tail := by
      rw [heq]
      exact ⟨post, by simp⟩
    have hstored : ∀ x ∈ pre ++ [k], x.length < 2 ^ 32 :=
      fun x hx => length_lt_of_mem_readAll (hstart.subset hx)
    refine ⟨pre, hstored, ?_⟩
    exact (idFormat.encodeAll_prefix_iff (fun x hx => clip_of_lt (hstored x hx)) tail).mpr hstart
  · rintro ⟨pre, hshort, hstart⟩
    rw [idFormat.encodeAll_prefix_iff fun x hx => clip_of_lt (hshort x hx)] at hstart
    exact hstart.subset (List.mem_append_right _ (List.mem_singleton_self k))

theorem harmlessTail_iff {kept fresh : List Key} {torn : Bytes} :
    HarmlessTail kept torn fresh ↔
      ∃ rest, idFormat.readAll (torn ++ idFormat.encodeAll fresh) = fresh ++ rest ∧
        ∀ k ∈ rest, k ∉ kept := by
  constructor
  · rintro ⟨hshort, tail, htail, hclean⟩
    refine ⟨idFormat.readAll tail, readAll_of_harmlessTail hshort htail, ?_⟩
    intro k hk
    rcases mem_readAll_iff.mp hk with ⟨pre, hpre, hprefix⟩
    exact hclean pre k hpre hprefix
  · rintro ⟨rest, hread, hclean⟩
    have hshort : ∀ k ∈ fresh, k.length < 2 ^ 32 := by
      intro k hk
      have hmem : k ∈ idFormat.readAll (torn ++ idFormat.encodeAll fresh) := by
        rw [hread]
        exact List.mem_append_left _ hk
      exact length_lt_of_mem_readAll hmem
    have hprefix : idFormat.encodeAll fresh <+: torn ++ idFormat.encodeAll fresh := by
      rw [idFormat.encodeAll_prefix_iff fun k hk => clip_of_lt (hshort k hk), hread]
      exact List.prefix_append _ _
    rcases hprefix with ⟨tail, htail⟩
    refine ⟨hshort, tail, htail.symm, ?_⟩
    intro pre k hpre hbytes
    apply hclean
    have hrest := readAll_of_harmlessTail hshort htail.symm
    rw [hread, List.append_cancel_left_eq] at hrest
    rw [hrest]
    exact mem_readAll_iff.mpr ⟨pre, hpre, hbytes⟩

/-- Entries behind the old ones keep the local id of every id that is not among them. -/
theorem same_of_append {ids rest : List Key} (file file' : Bytes) {k : Key} (hk : k ∈ ids)
    (hclean : k ∉ rest) :
    (ofIds file (ids ++ rest)).lookup k = (ofIds file' ids).lookup k ∧
      ∀ i, (ofIds file' ids).lookup k = some i →
        (ofIds file (ids ++ rest)).reverseLookup i = (ofIds file' ids).reverseLookup i := by
  constructor
  · exact lookup_forwardOf_append hclean
  · intro i hlookup
    rcases List.mem_iff_getElem?.mp hk with ⟨p, hp⟩
    rcases exists_lookup_forwardOf hp with ⟨j, -, hj, hlookup'⟩
    have heq : i = j % 2 ^ 32 := Option.some_inj.mp (hlookup.symm.trans hlookup')
    have hlt := (List.getElem?_eq_some_iff.mp hj).1
    have hmod := Nat.mod_le j (2 ^ 32)
    exact reverseLookup_append (by omega)

/-- New ids that are found where they were before come first among the entries read, and
no other entry hides an id that is kept. -/
theorem append_of_same {ids fresh read kept : List Key} (file file' : Bytes)
    (hnodup : fresh.Nodup) (hnew : ∀ k ∈ fresh, k ∉ ids) (hfresh : fresh ⊆ kept)
    (hkept : kept ⊆ ids ++ fresh) (hsize : (ids ++ read).length ≤ 2 ^ 32)
    (hsize' : (ids ++ fresh).length ≤ 2 ^ 32)
    (hsame : ∀ k ∈ kept, (ofIds file (ids ++ read)).lookup k =
      (ofIds file' (ids ++ fresh)).lookup k) :
    ∃ rest, read = fresh ++ rest ∧ ∀ k ∈ rest, k ∉ kept := by
  -- The entry of a new id before the last opening is the only one it has.
  have hat : ∀ (j : Nat) (k : Key), fresh[j]? = some k → read[j]? = some k := by
    intro j k hj
    have hmem : k ∈ fresh := List.mem_of_getElem? hj
    have hwhere : ∀ {l : List Key} {i : Nat}, (ids ++ l)[i]? = some k →
        ids.length ≤ i ∧ l[i - ids.length]? = some k := by
      intro l i hi
      by_cases hlt : i < ids.length
      · rw [List.getElem?_append_left hlt] at hi
        exact absurd (List.mem_of_getElem? hi) (hnew k hmem)
      · rw [List.getElem?_append_right (by omega)] at hi
        exact ⟨by omega, hi⟩
    have hj' : (ids ++ fresh)[ids.length + j]? = some k := by
      rw [List.getElem?_append_right (by omega), Nat.add_sub_cancel_left, hj]
    rcases exists_lookup_ofIds file' hsize' hj' with ⟨i, -, hi, hlookup⟩
    rcases hwhere hi with ⟨hle, hi'⟩
    have hij : i - ids.length = j := by
      rw [List.getElem?_eq_some_iff] at hi' hj
      rcases hi' with ⟨_, hi'⟩
      rcases hj with ⟨_, hj⟩
      exact (List.getElem_inj hnodup).mp (hi'.trans hj.symm)
    have hread := hsame k (hfresh hmem)
    rw [hlookup] at hread
    have hmem' : k ∈ ids ++ read := by
      by_contra hnot
      have hnone : (ofIds file (ids ++ read)).lookup k = none := lookup_forwardOf_eq_none.mpr hnot
      rw [hnone] at hread
      contradiction
    rcases List.mem_iff_getElem?.mp hmem' with ⟨p, hp⟩
    rcases exists_lookup_ofIds file hsize hp with ⟨i', -, hi'', hlookup'⟩
    have heq : i' = i := Option.some_inj.mp (hlookup'.symm.trans hread)
    rw [heq] at hi''
    rw [← hij]
    exact (hwhere hi'').2
  have hprefix : fresh <+: read := by
    rw [List.prefix_iff_getElem?]
    intro j hj
    exact hat j _ (List.getElem?_eq_getElem hj)
  rcases hprefix with ⟨rest, rfl⟩
  refine ⟨rest, rfl, ?_⟩
  intro k hk hmem
  rcases List.mem_iff_getElem?.mp hk with ⟨p, hp⟩
  have hp' : (ids ++ (fresh ++ rest))[(ids ++ fresh).length + p]? = some k := by
    rw [← List.append_assoc, List.getElem?_append_right (by omega), Nat.add_sub_cancel_left, hp]
  rcases exists_lookup_ofIds file hsize hp' with ⟨i, hle, -, hlookup⟩
  rcases List.mem_iff_getElem?.mp (hkept hmem) with ⟨q, hq⟩
  rcases exists_lookup_ofIds file' hsize' hq with ⟨j, -, hj, hlookup'⟩
  have hlt := (List.getElem?_eq_some_iff.mp hj).1
  have heq : i = j := by
    rw [← Option.some_inj, ← hlookup, ← hlookup', hsame k hmem]
  omega

/-- For every id map file, whatever earlier kills left in it, every record and every number of
bytes of it: a harmless tail is enough for every id that can be read before the kill or is
assigned after it to survive, and in a file of at most {lit}`2 ^ 32` bytes it is needed. -/
theorem survives_torn_write (file : Bytes) (x : Key) (n : Nat) (more : List Key) :
    (HarmlessTail (idFormat.readAll file ++ more) (tornBytes (killedIn file x n))
        (freshIds (idsAfterKill file x n) more) → SurvivesTornWrite file x n more) ∧
      ((afterKill file x n more).file.length ≤ 2 ^ 32 → SurvivesTornWrite file x n more →
        HarmlessTail (idFormat.readAll file ++ more) (tornBytes (killedIn file x n))
          (freshIds (idsAfterKill file x n) more)) := by
  rcases freshIds_spec (idsAfterKill file x n) more with ⟨hnodup, hnew, hall⟩
  have hkept : idFormat.readAll file ++ more ⊆
      idsAfterKill file x n ++ freshIds (idsAfterKill file x n) more := by
    intro k hk
    rcases List.mem_append.mp hk with hk | hk
    · exact List.mem_append_left _ (mem_idsAfterKill file x n hk)
    · exact List.mem_append.mpr (hall k hk)
  rw [harmlessTail_iff, SurvivesTornWrite, openFile_afterKill]
  constructor
  · rintro ⟨rest, hread, hclean⟩ k hk
    have hk' := List.mem_append.mpr hk
    rw [hread, ← List.append_assoc, afterKill_eq]
    exact same_of_append _ _ (hkept hk') fun hin => hclean k hin hk'
  · intro hsize hsurvives
    have hread : idFormat.readAll (afterKill file x n more).file = idsAfterKill file x n ++
        idFormat.readAll (tornBytes (killedIn file x n) ++
          idFormat.encodeAll (freshIds (idsAfterKill file x n) more)) := by
      have hopen := congrArg IdMapStore.reverse (openFile_afterKill file x n more)
      rwa [openFile_eq] at hopen
    have hafter := length_readAll_le (afterKill file x n more).file
    rw [hread] at hafter
    have hids := idFormat.length_le_sizeAll (idsAfterKill file x n)
    have hfresh := idFormat.length_le_sizeAll (freshIds (idsAfterKill file x n) more)
    rw [RecordFormat.sizeAll] at hids hfresh
    have hbefore : (idsAfterKill file x n ++
        freshIds (idsAfterKill file x n) more).length ≤ 2 ^ 32 := by
      rw [afterKill_eq, ofIds] at hsize
      simp only [List.length_append] at hsize ⊢
      omega
    refine append_of_same (afterKill file x n more).file (afterKill file x n more).file hnodup
      (fun k hk => (hnew k hk).1) (fun k hk => List.mem_append_right _ (hnew k hk).2) hkept
      (hafter.trans hsize) hbefore ?_
    intro k hk
    rw [(hsurvives k (List.mem_append.mp hk)).1, afterKill_eq]
    rfl

/-- Two kills: one byte of a record is left in the file, and then nothing of the next record. -/
theorem survives_torn_write_zero_byte :
    SurvivesTornWrite (encodeId [97] ++ [0]) (List.replicate 256 0) 0 [[]] := by
  apply (survives_torn_write (encodeId [97] ++ [0]) (List.replicate 256 0) 0 [[]]).1
  rw [killedIn, List.take_zero, List.append_nil, idsAfterKill, killedIn, List.take_zero,
    List.append_nil]
  refine ⟨by decide, [0], by decide, ?_⟩
  intro pre k _ hprefix
  have hlen := hprefix.length_le
  simp only [RecordFormat.encodeAll, List.flatMap_append, List.length_append, List.flatMap_cons,
    List.flatMap_nil, idFormat, encodeId_length, List.length_singleton, List.length_nil] at hlen
  omega

/-- One byte of the record of {lit}`b` is left.  The next id is found while the process
runs and is gone when the file is opened again. -/
theorem torn_write_loses_next_id :
    1 < (encodeId [98]).length ∧
      (afterKill (encodeId [97]) [98] 1 [[99]]).lookup [99] = some 1 ∧
      ¬ SurvivesTornWrite (encodeId [97]) [98] 1 [[99]] := by
  refine ⟨by decide, by decide, ?_⟩
  intro hsurvives
  have hsame := (hsurvives [99] (.inr List.mem_cons_self)).1
  exact absurd hsame (by decide)

end IdMapStore

end NanoDB.Cluster
