import Mathlib.Data.List.Dedup
import Mathlib.Data.List.Induction
import NanoDB.Cluster.HashRing
import NanoDB.Raft.LogFile

/-!
# The id map file

{lit}`IdMapStore` gives every external id a local id, in the order in which the ids come.
It appends each new id to a file, as its length and its bytes, and rebuilds both
directions of the map from the file when it is opened.  A local id is not written: it is
the position of the record.

Main results:

- Theorem {lit}`WellFormed.run`: the maps and the file stay in step over every run.
- Theorem {lit}`ids_stable_of_count`: as long as the local ids last, they never change.
-/

namespace NanoDB.Cluster

open NanoDB.Lib
open Raft (Bytes clip clip_length clip_of_lt)

/-! ## Records -/

/-- The bytes that {lit}`persist` appends. -/
def encodeId (externalId : Key) : Bytes :=
  leBytes 4 externalId.length ++ clip externalId

/-- One turn of the loop of {lit}`rebuild_index`; {lean}`none` is a {lit}`break`, or the end
of the file. -/
def parseId (data : Bytes) : Option (Key × Bytes) :=
  if data.length < 4 then none
  else
    let len := leNat (data.take 4)
    if data.length < 4 + len then none
    else some ((data.drop 4).take len, data.drop (4 + len))

theorem encodeId_length (k : Key) : (encodeId k).length = 4 + (clip k).length := by
  rw [encodeId, List.length_append, leBytes_length]

/-- The length of a record, read from any input that starts with it. -/
private theorem id_length (k : Key) (rest : Bytes) :
    leNat ((leBytes 4 k.length ++ rest).take 4) = (clip k).length := by
  rw [List.take_left' (leBytes_length 4 _), leNat_leBytes, clip_length]
  norm_num

theorem parseId_encodeId (k : Key) (rest : Bytes) :
    parseId (encodeId k ++ rest) = some (clip k, rest) := by
  have hlen : (encodeId k ++ rest).length = 4 + (clip k).length + rest.length := by
    rw [List.length_append, encodeId_length]
  have hassoc : encodeId k ++ rest = leBytes 4 k.length ++ (clip k ++ rest) := by
    rw [encodeId, List.append_assoc]
  have hbody : (encodeId k ++ rest).drop 4 = clip k ++ rest := by
    rw [hassoc, List.drop_left' (leBytes_length 4 _)]
  rw [parseId, if_neg (by omega)]
  dsimp only
  rw [← List.drop_drop, hbody, hassoc, id_length, ← hassoc, if_neg (by omega), List.take_left' rfl,
    List.drop_left' rfl]

theorem parseId_take (k : Key) (n : Nat) (hn : n < (encodeId k).length) :
    parseId ((encodeId k).take n) = none := by
  have hlen : ((encodeId k).take n).length = n := by
    rw [List.length_take]
    omega
  rw [parseId, hlen]
  split_ifs with hshort
  · rfl
  · have htake : (encodeId k).take n = leBytes 4 k.length ++ (clip k).take (n - 4) := by
      rw [encodeId, List.take_append, leBytes_length,
        List.take_of_length_le (by rw [leBytes_length]; omega)]
    rw [encodeId_length] at hn
    dsimp only
    rw [htake, id_length, if_pos hn]

/-- What is read is the encoding of what it is read as. -/
theorem encodeId_of_parseId (data : Bytes) (k : Key) (rest : Bytes)
    (h : parseId data = some (k, rest)) : data = encodeId k ++ rest ∧ k.length < 2 ^ 32 := by
  rw [parseId] at h
  split_ifs at h with hshort
  dsimp only at h
  split_ifs at h with hbody
  simp only [Option.some.injEq, Prod.mk.injEq] at h
  rcases h with ⟨rfl, rfl⟩
  have hlen : ((data.drop 4).take (leNat (data.take 4))).length = leNat (data.take 4) := by
    rw [List.length_take, List.length_drop]
    omega
  have hfour : (data.take 4).length = 4 := by
    rw [List.length_take]
    omega
  have hhead : leBytes 4 (leNat (data.take 4)) = data.take 4 := by
    have hread := leBytes_leNat (data.take 4)
    rwa [hfour] at hread
  have hlt : leNat (data.take 4) < 2 ^ 32 := by
    have hread := leNat_leBytes 4 (leNat (data.take 4))
    rw [hhead] at hread
    rw [hread]
    exact Nat.mod_lt _ (by norm_num)
  refine ⟨?_, hlen.trans_lt hlt⟩
  rw [encodeId, clip_of_lt (hlen.trans_lt hlt), hlen, hhead, List.append_assoc, ← List.drop_drop,
    List.take_append_drop, List.take_append_drop]

/-- The records of an id map file. -/
def idFormat : ExactFormat Key UInt8 where
  encode := encodeId
  parse := parseId
  stored := clip
  encode_ne_nil k := by
    apply List.ne_nil_of_length_pos
    rw [encodeId_length]
    omega
  parse_encode := parseId_encodeId
  parse_take := parseId_take
  encode_of_parse data k rest h := (encodeId_of_parseId data k rest h).1

/-- Every id that is read is shorter than {lit}`2 ^ 32` bytes. -/
theorem length_lt_of_mem_readAll {data : Bytes} {k : Key} (h : k ∈ idFormat.readAll data) :
    k.length < 2 ^ 32 := by
  induction hn : data.length using Nat.strong_induction_on generalizing data with
  | _ n ih =>
      cases hparse : idFormat.parse data with
      | none =>
          rw [idFormat.readAll_of_none hparse] at h
          exact absurd h List.not_mem_nil
      | some p =>
          rw [idFormat.readAll_of_some hparse] at h
          rcases List.mem_cons.mp h with rfl | hmem
          · exact (encodeId_of_parseId data p.1 p.2 hparse).2
          · exact ih _ (hn ▸ idFormat.length_lt_of_parse hparse) hmem rfl

/-! ## The store -/

/-- The file and both directions of the map; the newest binding of {lit}`forward` comes
first. -/
structure IdMapStore where
  file : Bytes := []
  forward : List (Key × Nat) := []
  reverse : List Key := []
deriving DecidableEq, Repr

namespace IdMapStore

def lookup (s : IdMapStore) (externalId : Key) : Option Nat :=
  s.forward.lookup externalId

def reverseLookup (s : IdMapStore) (localId : Nat) : Key :=
  if h : localId < s.reverse.length then s.reverse[localId] else []

def size (s : IdMapStore) : Nat :=
  s.reverse.length

/-- The local id of the next entry, a {lit}`uint32_t`. -/
def nextId (s : IdMapStore) : Nat :=
  s.reverse.length % 2 ^ 32

/-- Enter an id into both maps. -/
def enter (s : IdMapStore) (externalId : Key) : IdMapStore :=
  { s with
    forward := (externalId, s.nextId) :: s.forward
    reverse := s.reverse ++ [externalId] }

def persist (s : IdMapStore) (externalId : Key) : IdMapStore :=
  { s with file := s.file ++ encodeId externalId }

/-- The local id, whether it is new, and the store after it. -/
def assign (s : IdMapStore) (externalId : Key) : (Nat × Bool) × IdMapStore :=
  match s.lookup externalId with
  | some localId => ((localId, false), s)
  | none => ((s.nextId, true), (s.persist externalId).enter externalId)

/-- {lit}`open_file` on a new store, which ends with {lit}`rebuild_index`. -/
def openFile (file : Bytes) : IdMapStore :=
  (idFormat.readAll file).foldl enter { file := file }

/-- A sequence of {lit}`assign` calls. -/
def assignAll (s : IdMapStore) (ids : List Key) : IdMapStore :=
  ids.foldl (fun s externalId => (s.assign externalId).2) s

/-! ## The forward map -/

/-- The forward map that goes with a reverse map. -/
def forwardOf (ids : List Key) : List (Key × Nat) :=
  (ids.zipIdx.map fun p => (p.1, p.2 % 2 ^ 32)).reverse

@[simp]
theorem forwardOf_nil : forwardOf [] = [] :=
  rfl

@[simp]
theorem forwardOf_concat (ids : List Key) (k : Key) :
    forwardOf (ids ++ [k]) = (k, ids.length % 2 ^ 32) :: forwardOf ids := by
  simp [forwardOf, List.zipIdx_append]

/-- Ids that come after do not hide another id. -/
theorem lookup_forwardOf_append {ids more : List Key} {k : Key} (hk : k ∉ more) :
    (forwardOf (ids ++ more)).lookup k = (forwardOf ids).lookup k := by
  induction more using List.reverseRecOn with
  | nil => rw [List.append_nil]
  | append_singleton more x ih =>
      rw [List.mem_append, List.mem_singleton, not_or] at hk
      rw [← List.append_assoc, forwardOf_concat, List.lookup_cons, beq_false_of_ne hk.2, ih hk.1]

/-- An id is found at a position where it stands, at or after every position where it is
known to stand. -/
theorem exists_lookup_forwardOf {ids : List Key} {i : Nat} {k : Key} (hi : ids[i]? = some k) :
    ∃ j, i ≤ j ∧ ids[j]? = some k ∧ (forwardOf ids).lookup k = some (j % 2 ^ 32) := by
  induction ids using List.reverseRecOn with
  | nil => simp at hi
  | append_singleton ids x ih =>
      have hbound : i < (ids ++ [x]).length := (List.getElem?_eq_some_iff.mp hi).1
      rw [List.length_append, List.length_singleton] at hbound
      by_cases hkx : k = x
      · subst hkx
        refine ⟨ids.length, by omega, List.getElem?_concat_length, ?_⟩
        rw [forwardOf_concat, List.lookup_cons_self]
      · have hlt : i < ids.length := by
          by_contra hge
          have heq : i = ids.length := by omega
          rw [heq, List.getElem?_concat_length] at hi
          exact hkx (Option.some_inj.mp hi).symm
        rw [List.getElem?_append_left hlt] at hi
        rcases ih hi with ⟨j, hij, hj, hlookup⟩
        refine ⟨j, hij, ?_, ?_⟩
        · rw [List.getElem?_append_left (List.getElem?_eq_some_iff.mp hj).1, hj]
        · rw [forwardOf_concat, List.lookup_cons, beq_false_of_ne hkx, hlookup]

theorem lookup_forwardOf_eq_none {ids : List Key} {k : Key} :
    (forwardOf ids).lookup k = none ↔ k ∉ ids := by
  constructor
  · intro hnone hmem
    rcases List.mem_iff_getElem?.mp hmem with ⟨i, hi⟩
    rcases exists_lookup_forwardOf hi with ⟨j, -, -, hlookup⟩
    rw [hnone] at hlookup
    contradiction
  · intro hmem
    have hall : (forwardOf ([] ++ ids)).lookup k = (forwardOf []).lookup k :=
      lookup_forwardOf_append hmem
    simpa using hall

/-! ## Maps and file in step -/

/-- The store with a given file and a given reverse map. -/
def ofIds (file : Bytes) (ids : List Key) : IdMapStore :=
  ⟨file, forwardOf ids, ids⟩

theorem foldl_enter_ofIds (file : Bytes) (ids more : List Key) :
    more.foldl enter (ofIds file ids) = ofIds file (ids ++ more) := by
  induction more generalizing ids with
  | nil => rw [List.append_nil, List.foldl_nil]
  | cons k more ih =>
      have henter : (ofIds file ids).enter k = ofIds file (ids ++ [k]) := by
        simp [enter, ofIds, nextId]
      rw [List.foldl_cons, henter, ih, List.append_assoc, List.singleton_append]

/-- A file is opened as the records that can be read from it. -/
theorem openFile_eq (file : Bytes) : openFile file = ofIds file (idFormat.readAll file) :=
  foldl_enter_ofIds file [] (idFormat.readAll file)

theorem assign_of_mem {file : Bytes} {ids : List Key} {k : Key} (hk : k ∈ ids) :
    ((ofIds file ids).assign k).2 = ofIds file ids := by
  rw [assign]
  cases hlookup : (ofIds file ids).lookup k with
  | none => exact absurd hk (lookup_forwardOf_eq_none.mp hlookup)
  | some i => rfl

theorem assign_of_notMem {file : Bytes} {ids : List Key} {k : Key} (hk : k ∉ ids) :
    (ofIds file ids).assign k =
      ((ids.length % 2 ^ 32, true), ofIds (file ++ encodeId k) (ids ++ [k])) := by
  have hlookup : (ofIds file ids).lookup k = none := lookup_forwardOf_eq_none.mpr hk
  rw [assign, hlookup]
  simp [enter, persist, ofIds, nextId]

/-- What holds of every store whose file was never cut: the file is the records of the
ids, each of them once. -/
structure WellFormed (s : IdMapStore) : Prop where
  forward : s.forward = forwardOf s.reverse
  file : s.file = idFormat.encodeAll s.reverse
  nodup : s.reverse.Nodup
  short : ∀ k ∈ s.reverse, k.length < 2 ^ 32

namespace WellFormed

variable {s : IdMapStore}

theorem eq_ofIds (h : WellFormed s) : s = ofIds (idFormat.encodeAll s.reverse) s.reverse := by
  rcases s with ⟨file, forward, reverse⟩
  rw [ofIds, ← h.forward, ← h.file]

/-- Opening the file again gives the same store. -/
theorem reopen (h : WellFormed s) : openFile s.file = s := by
  have hread : idFormat.readAll s.file = s.reverse := by
    have hnil : idFormat.readAll [] = [] := idFormat.readAll_of_none rfl
    have happend := idFormat.readAll_append s.reverse []
    rw [List.append_nil, hnil, List.append_nil, ← h.file] at happend
    rw [happend]
    exact (List.map_congr_left fun k hk => clip_of_lt (h.short k hk)).trans (List.map_id' _)
  rw [openFile_eq, hread]
  conv_rhs => rw [h.eq_ofIds]
  rw [h.file]

theorem assign_known (h : WellFormed s) {k : Key} (hk : k ∈ s.reverse) : (s.assign k).2 = s := by
  rw [h.eq_ofIds]
  exact assign_of_mem hk

theorem assign_fresh (h : WellFormed s) {k : Key} (hk : k ∉ s.reverse) :
    s.assign k =
      ((s.size % 2 ^ 32, true),
        ofIds (idFormat.encodeAll (s.reverse ++ [k])) (s.reverse ++ [k])) := by
  have hencode : idFormat.encodeAll (s.reverse ++ [k]) =
      idFormat.encodeAll s.reverse ++ encodeId k := by
    simp [RecordFormat.encodeAll, idFormat]
  rw [hencode]
  conv_lhs => rw [h.eq_ofIds]
  exact assign_of_notMem hk

theorem assign (h : WellFormed s) {k : Key} (hk : k.length < 2 ^ 32) :
    WellFormed (s.assign k).2 := by
  by_cases hmem : k ∈ s.reverse
  · rwa [h.assign_known hmem]
  · rw [h.assign_fresh hmem]
    have hnodup : (s.reverse ++ [k]).Nodup := by
      rw [← List.concat_eq_append]
      exact List.Nodup.concat hmem h.nodup
    refine ⟨rfl, rfl, hnodup, ?_⟩
    intro x hx
    rcases List.mem_append.mp hx with hx | hx
    · exact h.short x hx
    · rwa [List.mem_singleton.mp hx]

/-- A key is found at the local id it stands at, as long as local ids do not wrap. -/
theorem lookup_eq_some_iff (h : WellFormed s) (hsize : s.size ≤ 2 ^ 32) (k : Key) (i : Nat) :
    s.lookup k = some i ↔ s.reverse[i]? = some k := by
  rw [lookup, h.forward]
  have hat : ∀ {j : Nat}, s.reverse[j]? = some k →
      (forwardOf s.reverse).lookup k = some j := by
    intro j hj
    rcases exists_lookup_forwardOf hj with ⟨j', -, hj', hlookup⟩
    have hlt := (List.getElem?_eq_some_iff.mp hj').1
    have hsame : j' = j := by
      rw [List.getElem?_eq_some_iff] at hj hj'
      rcases hj with ⟨_, hj⟩
      rcases hj' with ⟨_, hj'⟩
      exact (List.getElem_inj h.nodup).mp (hj'.trans hj.symm)
    rw [hlookup, Nat.mod_eq_of_lt (lt_of_lt_of_le hlt hsize), hsame]
  constructor
  · intro hlookup
    have hmem : k ∈ s.reverse := by
      by_contra hmem
      rw [lookup_forwardOf_eq_none.mpr hmem] at hlookup
      contradiction
    rcases List.mem_iff_getElem?.mp hmem with ⟨j, hj⟩
    rw [hat hj, Option.some_inj] at hlookup
    rwa [← hlookup]
  · exact hat

end WellFormed

/-! ## Runs -/

/-- What a run is made of. -/
inductive Op
  | assign (externalId : Key)
  /-- {lit}`close_file`, then {lit}`open_file` on a new store. -/
  | reopen
deriving DecidableEq, Repr

def step (s : IdMapStore) : Op → IdMapStore
  | .assign externalId => (s.assign externalId).2
  | .reopen => openFile s.file

/-- The store after a run on a new file. -/
def run (ops : List Op) : IdMapStore :=
  ops.foldl step (openFile [])

theorem run_append (ops more : List Op) : run (ops ++ more) = more.foldl step (run ops) :=
  List.foldl_append

/-- The ids a run assigns. -/
def assignedIds (ops : List Op) : List Key :=
  ops.filterMap fun
    | .assign externalId => some externalId
    | .reopen => none

/-- Every id of the run is shorter than {lit}`2 ^ 32` bytes. -/
def ShortIds (ops : List Op) : Prop :=
  ∀ k ∈ assignedIds ops, k.length < 2 ^ 32

theorem mem_assignedIds {ops : List Op} {k : Key} : k ∈ assignedIds ops ↔ .assign k ∈ ops := by
  rw [assignedIds, List.mem_filterMap]
  constructor
  · rintro ⟨op, hmem, hop⟩
    cases op with
    | assign k' =>
        rw [Option.some_inj] at hop
        rwa [← hop]
    | reopen => contradiction
  · intro hmem
    exact ⟨_, hmem, rfl⟩

theorem assignedIds_map_assign (ids : List Key) : assignedIds (ids.map .assign) = ids := by
  rw [assignedIds, List.filterMap_map]
  exact List.filterMap_some

/-- One step keeps the maps and the file in step and takes no id away. -/
theorem WellFormed.step {s : IdMapStore} (h : WellFormed s) {op : Op}
    (hshort : ∀ k, op = .assign k → k.length < 2 ^ 32) :
    WellFormed (s.step op) ∧ s.reverse <+: (s.step op).reverse := by
  cases op with
  | assign k =>
      refine ⟨h.assign (hshort k rfl), ?_⟩
      rw [IdMapStore.step]
      by_cases hmem : k ∈ s.reverse
      · simp only [h.assign_known hmem, List.prefix_rfl]
      · rw [h.assign_fresh hmem]
        exact List.prefix_append _ _
  | reopen =>
      rw [IdMapStore.step, h.reopen]
      exact ⟨h, List.prefix_rfl⟩

theorem WellFormed.foldl_step {s : IdMapStore} (h : WellFormed s) {ops : List Op}
    (hshort : ShortIds ops) :
    WellFormed (ops.foldl IdMapStore.step s) ∧
      s.reverse <+: (ops.foldl IdMapStore.step s).reverse := by
  induction ops generalizing s with
  | nil => exact ⟨h, List.prefix_rfl⟩
  | cons op ops ih =>
      have hop : ∀ k, op = .assign k → k.length < 2 ^ 32 := by
        rintro k rfl
        exact hshort k (mem_assignedIds.mpr List.mem_cons_self)
      have hops : ShortIds ops := by
        intro k hk
        exact hshort k (mem_assignedIds.mpr (List.mem_cons_of_mem _ (mem_assignedIds.mp hk)))
      rcases h.step hop with ⟨hstep, hprefix⟩
      rcases ih hstep hops with ⟨hrun, hrest⟩
      exact ⟨hrun, hprefix.trans hrest⟩

/-- The maps and the file stay in step over every run. -/
theorem WellFormed.run {ops : List Op} (hshort : ShortIds ops) : WellFormed (run ops) := by
  have hinit : WellFormed (openFile []) := by
    refine ⟨rfl, rfl, List.nodup_nil, ?_⟩
    intro k hk
    exact absurd hk List.not_mem_nil
  exact (hinit.foldl_step hshort).1

/-- Nothing but the assigned ids is in the map. -/
theorem mem_assignedIds_of_mem_run {ops : List Op} (hshort : ShortIds ops) {k : Key}
    (hk : k ∈ (run ops).reverse) : k ∈ assignedIds ops := by
  induction ops using List.reverseRecOn with
  | nil => exact absurd hk List.not_mem_nil
  | append_singleton ops op ih =>
      have hops : ShortIds ops := by
        intro k hk
        exact hshort k (mem_assignedIds.mpr (List.mem_append_left _ (mem_assignedIds.mp hk)))
      have hold : k ∈ (run ops).reverse → k ∈ assignedIds (ops ++ [op]) := by
        intro hmem
        exact mem_assignedIds.mpr (List.mem_append_left _ (mem_assignedIds.mp (ih hops hmem)))
      rw [run_append, List.foldl_cons, List.foldl_nil] at hk
      cases op with
      | assign k' =>
          by_cases hmem : k' ∈ (run ops).reverse
          · rw [step, (WellFormed.run hops).assign_known hmem] at hk
            exact hold hk
          · rw [step, (WellFormed.run hops).assign_fresh hmem] at hk
            rcases List.mem_append.mp hk with hk | hk
            · exact hold hk
            · rw [List.mem_singleton.mp hk]
              exact mem_assignedIds.mpr (List.mem_append_right _ (List.mem_singleton_self _))
      | reopen =>
          rw [step, (WellFormed.run hops).reopen] at hk
          exact hold hk

/-- The map never has more entries than different ids were assigned. -/
theorem size_run_le {ops : List Op} (hshort : ShortIds ops) :
    (run ops).size ≤ (assignedIds ops).dedup.length := by
  have hsubset : (run ops).reverse ⊆ (assignedIds ops).dedup := by
    intro k hk
    exact List.mem_dedup.mpr (mem_assignedIds_of_mem_run hshort hk)
  exact (List.subperm_of_subset (WellFormed.run hshort).nodup hsubset).length_le

/-! ### States of a run -/

theorem ShortIds.of_isPrefix {ops before : List Op} (h : ShortIds ops) (hbefore : before <+: ops) :
    ShortIds before := by
  intro k hk
  exact h k (mem_assignedIds.mpr (hbefore.subset (mem_assignedIds.mp hk)))

theorem size_run_le_of_isPrefix {ops before : List Op} (h : ShortIds ops)
    (hbefore : before <+: ops) : (run before).size ≤ (assignedIds ops).dedup.length := by
  have hsubset : (assignedIds before).dedup ⊆ (assignedIds ops).dedup := by
    intro k hk
    rw [List.mem_dedup, mem_assignedIds] at hk ⊢
    exact hbefore.subset hk
  calc (run before).size
    _ ≤ (assignedIds before).dedup.length := size_run_le (h.of_isPrefix hbefore)
    _ ≤ (assignedIds ops).dedup.length :=
      (List.subperm_of_subset (List.nodup_dedup _) hsubset).length_le

/-- The ids of an earlier state stay where they are. -/
theorem reverse_run_isPrefix {before after : List Op} (h : ShortIds after)
    (hbefore : before <+: after) : (run before).reverse <+: (run after).reverse := by
  rcases hbefore with ⟨rest, rfl⟩
  have hrest : ShortIds rest := by
    intro x hx
    exact h x (mem_assignedIds.mpr (List.mem_append_right _ (mem_assignedIds.mp hx)))
  rw [run_append]
  exact ((WellFormed.run (h.of_isPrefix (List.prefix_append _ _))).foldl_step hrest).2

/-- The two directions of the map are inverse to each other, and the local ids are the
numbers below {lit}`size`. -/
def Inverse (s : IdMapStore) : Prop :=
  ∀ externalId localId,
    s.lookup externalId = some localId ↔ localId < s.size ∧ s.reverseLookup localId = externalId

/-- What the map promises about every state of a run and every call in it. -/
structure IdsStable (ops : List Op) : Prop where
  inverse : ∀ before, before <+: ops → (run before).Inverse
  known : ∀ before externalId, before ++ [.assign externalId] <+: ops →
    ∀ localId, (run before).lookup externalId = some localId →
      (run before).assign externalId = ((localId, false), run before)
  fresh : ∀ before externalId, before ++ [.assign externalId] <+: ops →
    (run before).lookup externalId = none →
      ((run before).assign externalId).1 = ((run before).size, true)
  stable : ∀ before after, before <+: after → after <+: ops → ∀ externalId localId,
    (run before).lookup externalId = some localId → (run after).lookup externalId = some localId

theorem WellFormed.inverse {s : IdMapStore} (h : WellFormed s) (hsize : s.size ≤ 2 ^ 32) :
    s.Inverse := by
  intro k i
  rw [h.lookup_eq_some_iff hsize, reverseLookup, size]
  constructor
  · intro hi
    rcases List.getElem?_eq_some_iff.mp hi with ⟨hlt, heq⟩
    rw [dif_pos hlt]
    exact ⟨hlt, heq⟩
  · rintro ⟨hlt, heq⟩
    rw [dif_pos hlt] at heq
    rw [List.getElem?_eq_getElem hlt, heq]

theorem WellFormed.lookup_eq_none_iff {s : IdMapStore} (h : WellFormed s) {k : Key} :
    s.lookup k = none ↔ k ∉ s.reverse := by
  rw [lookup, h.forward, lookup_forwardOf_eq_none]

/-- For every run in which at most {lit}`2 ^ 32` different ids are assigned. -/
theorem ids_stable_of_count (ops : List Op) (hshort : ShortIds ops)
    (hcount : (assignedIds ops).dedup.length ≤ 2 ^ 32) : IdsStable ops := by
  have hwf : ∀ {before : List Op}, before <+: ops → WellFormed (run before) :=
    fun hbefore => WellFormed.run (hshort.of_isPrefix hbefore)
  have hsize : ∀ {before : List Op}, before <+: ops → (run before).size ≤ 2 ^ 32 :=
    fun hbefore => (size_run_le_of_isPrefix hshort hbefore).trans hcount
  constructor
  · intro before hbefore
    exact (hwf hbefore).inverse (hsize hbefore)
  · intro before k _ i hlookup
    rw [assign, hlookup]
  · intro before k hcall hlookup
    have hbefore : before <+: ops := (List.prefix_append _ _).trans hcall
    have hfresh := (hwf hbefore).lookup_eq_none_iff.mp hlookup
    -- The state after the call has one id more and still fits.
    have hwhole := hsize hcall
    rw [run_append, List.foldl_cons, List.foldl_nil, step,
      (hwf hbefore).assign_fresh hfresh] at hwhole
    have hlt : (run before).size < 2 ^ 32 := by
      have hlen : ((run before).reverse ++ [k]).length ≤ 2 ^ 32 := hwhole
      rw [List.length_append, List.length_singleton] at hlen
      exact hlen
    rw [(hwf hbefore).assign_fresh hfresh, Nat.mod_eq_of_lt hlt]
  · intro before after hle hafter k i hlookup
    have hbefore : before <+: ops := hle.trans hafter
    rw [(hwf hbefore).lookup_eq_some_iff (hsize hbefore)] at hlookup
    rw [(hwf hafter).lookup_eq_some_iff (hsize hafter)]
    rcases reverse_run_isPrefix (hshort.of_isPrefix hafter) hle with ⟨more, hmore⟩
    have hlt := (List.getElem?_eq_some_iff.mp hlookup).1
    rw [← hmore, List.getElem?_append_left hlt, hlookup]

theorem ids_stable_of_count_reopened :
    IdsStable [.assign [97], .assign [], .reopen, .assign [98], .assign [97], .reopen] :=
  ids_stable_of_count _ (by unfold ShortIds; decide) (by decide)

/-! ### When the local ids run out -/

/-- Assigning different ids enters all of them. -/
theorem reverse_run_assign {ids : List Key} (hnodup : ids.Nodup)
    (hshort : ∀ k ∈ ids, k.length < 2 ^ 32) : (run (ids.map Op.assign)).reverse = ids := by
  induction ids using List.reverseRecOn with
  | nil => rfl
  | append_singleton ids k ih =>
      rw [← List.concat_eq_append, List.nodup_concat] at hnodup
      have hids : ∀ x ∈ ids, x.length < 2 ^ 32 :=
        fun x hx => hshort x (List.mem_append_left _ hx)
      have hops : ShortIds (ids.map Op.assign) := by rwa [ShortIds, assignedIds_map_assign]
      have hreverse := ih hnodup.2 hids
      have hfresh : k ∉ (run (ids.map Op.assign)).reverse := by
        rw [hreverse]
        exact hnodup.1
      rw [List.map_append, run_append, List.map_singleton, List.foldl_cons, List.foldl_nil, step,
        (WellFormed.run hops).assign_fresh hfresh, hreverse]
      rfl

/-- The first ids of the form of a five-byte number. -/
def numberedIds (n : Nat) : List Key :=
  (List.range n).map (leBytes 5)

theorem numberedIds_succ (n : Nat) : numberedIds (n + 1) = numberedIds n ++ [leBytes 5 n] := by
  rw [numberedIds, List.range_succ, List.map_append]
  rfl

theorem numberedIds_length (n : Nat) : (numberedIds n).length = n := by
  simp [numberedIds]

theorem numberedIds_nodup {n : Nat} (hn : n ≤ 256 ^ 5) : (numberedIds n).Nodup := by
  refine List.Nodup.map_on ?_ List.nodup_range
  intro i hi j hj heq
  have hread := congrArg leNat heq
  rw [List.mem_range] at hi hj
  rwa [leNat_leBytes, leNat_leBytes, Nat.mod_eq_of_lt (by omega), Nat.mod_eq_of_lt (by omega)]
    at hread

theorem length_of_mem_numberedIds {n : Nat} {k : Key} (hk : k ∈ numberedIds n) : k.length = 5 := by
  rcases List.mem_map.mp hk with ⟨i, -, rfl⟩
  exact leBytes_length 5 i

/-- An id that comes after {lit}`2 ^ 32` others gets the local id of another one. -/
theorem not_idsStable_numberedIds {n : Nat} (hwrap : 2 ^ 32 ≤ n) (hn : n < 256 ^ 5) :
    ¬ IdsStable ((numberedIds (n + 1)).map .assign) := by
  intro hstable
  have hnodup := numberedIds_nodup (n := n + 1) hn
  rw [numberedIds_succ, ← List.concat_eq_append, List.nodup_concat] at hnodup
  have hshort : ∀ k ∈ numberedIds n, k.length < 2 ^ 32 := by
    intro k hk
    rw [length_of_mem_numberedIds hk]
    norm_num
  have hreverse := reverse_run_assign hnodup.2 hshort
  have hops : ShortIds ((numberedIds n).map Op.assign) := by rwa [ShortIds, assignedIds_map_assign]
  have hsize : (run ((numberedIds n).map Op.assign)).size = n := by
    rw [size, hreverse, numberedIds_length]
  have hfresh : leBytes 5 n ∉ (run ((numberedIds n).map Op.assign)).reverse := by
    rw [hreverse]
    exact hnodup.1
  have hnext := hstable.fresh ((numberedIds n).map .assign) (leBytes 5 n)
    (by rw [numberedIds_succ, List.map_append]; exact List.prefix_rfl)
    ((WellFormed.run hops).lookup_eq_none_iff.mpr hfresh)
  rw [(WellFormed.run hops).assign_fresh hfresh, hsize, Prod.mk.injEq] at hnext
  have hlt := Nat.mod_lt n (Nat.two_pow_pos 32)
  omega

theorem ids_wrap_around :
    ShortIds ((numberedIds (2 ^ 32 + 1)).map .assign) ∧
      ¬ IdsStable ((numberedIds (2 ^ 32 + 1)).map .assign) := by
  constructor
  · intro k hk
    rw [assignedIds_map_assign] at hk
    rw [length_of_mem_numberedIds hk]
    norm_num
  · exact not_idsStable_numberedIds le_rfl (by norm_num)

end IdMapStore

end NanoDB.Cluster
