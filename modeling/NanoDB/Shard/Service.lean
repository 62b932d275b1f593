import Mathlib.Data.List.Nodup
import NanoDB.Cluster.HashRing
import NanoDB.Index.Distance

/-!
# A shard node

The id map, the vector slots and the write epoch of one shard process, and the
handlers of its service.  A handler is one atomic step on the state.  The state keeps
two facts: no key is mapped twice, and every mapped key has a slot.

The links between the slots are not part of the state here: they decide which slots a
search meets, never what a slot holds.  A search takes the slots it meets as an argument.

Main results:

- Theorem {lit}`liveVector_insert`: an accepted insert sets the vector of its key and
  no other.
- Theorem {lit}`liveVector_delete`: an accepted delete removes its key and no other.
- Theorem {lit}`mem_listLocalIds`: the listed keys are the live ones.
- Theorem {lit}`currentEpoch_le_insert`, {lit}`currentEpoch_le_delete`: the write epoch
  never goes back.
- Theorem {lit}`elementCount_insert`, {lit}`elementCount_delete`: what a write does to the
  counter that {lit}`Stats` reports.
- Theorem {lit}`liveVector_of_mem_search`: a search result is about a live vector.
-/

namespace NanoDB.Shard

open Raft (Bytes)
open Cluster (Key)
open NanoDB.Index (vectorDim)

/-- A list of floats, as their bit patterns. -/
abbrev Floats := List UInt32

/-! ## The id map -/

/-- External ids in the order of their local ids. -/
structure IdMapStore where
  reverse : List Key := []
  nodup : reverse.Nodup := by decide
deriving DecidableEq

namespace IdMapStore

/-- The local id of a key. -/
def lookup (m : IdMapStore) (externalId : Key) : Option Nat :=
  m.reverse.idxOf? externalId

/-- The local id of a key, a new one if the key has none, and the map after it. -/
def assign (m : IdMapStore) (externalId : Key) : Nat × IdMapStore :=
  if h : externalId ∈ m.reverse then (m.reverse.idxOf externalId, m)
  else (m.reverse.length, ⟨m.reverse ++ [externalId], by
    rw [List.nodup_append]
    refine ⟨m.nodup, List.nodup_singleton _, ?_⟩
    intro a ha b hb
    rw [List.mem_singleton.mp hb]
    exact fun heq => h (heq ▸ ha)⟩)

/-- A key is found at the local id it stands at. -/
theorem lookup_eq_some_iff {m : IdMapStore} {externalId : Key} {i : Nat} :
    m.lookup externalId = some i ↔ m.reverse[i]? = some externalId := by
  rw [lookup, List.idxOf?_eq_some_iff]
  constructor
  · rintro ⟨h, heq, -⟩
    rw [List.getElem?_eq_getElem h, heq]
  · intro hi
    rcases List.getElem?_eq_some_iff.mp hi with ⟨hlt, heq⟩
    refine ⟨hlt, heq, ?_⟩
    intro j hj heq'
    have hji : j = i := (List.getElem_inj m.nodup).mp (heq'.trans heq.symm)
    omega

theorem lookup_lt {m : IdMapStore} {externalId : Key} {i : Nat}
    (h : m.lookup externalId = some i) : i < m.reverse.length :=
  (List.getElem?_eq_some_iff.mp (lookup_eq_some_iff.mp h)).1

/-- Two keys with one local id are equal. -/
theorem lookup_inj {m : IdMapStore} {k k' : Key} {i : Nat} (h : m.lookup k = some i)
    (h' : m.lookup k' = some i) : k = k' :=
  Option.some_inj.mp ((lookup_eq_some_iff.mp h).symm.trans (lookup_eq_some_iff.mp h'))

/-- The assigned key is found at the assigned id. -/
theorem lookup_assign_self (m : IdMapStore) (k : Key) :
    (m.assign k).2.lookup k = some (m.assign k).1 := by
  rw [lookup_eq_some_iff, assign]
  split
  · next hmem =>
      apply List.getElem?_eq_some_iff.mpr
      exact ⟨List.idxOf_lt_length_iff.mpr hmem, List.getElem_idxOf _⟩
  · simp

/-- Assigning a key changes the id of no other. -/
theorem lookup_assign_of_ne (m : IdMapStore) {k k' : Key} (hne : k' ≠ k) :
    (m.assign k).2.lookup k' = m.lookup k' := by
  rw [assign]
  split
  · rfl
  · ext i
    rw [lookup_eq_some_iff, lookup_eq_some_iff]
    dsimp only
    rw [List.getElem?_append]
    split
    · rfl
    · next hge =>
        rw [List.getElem?_eq_none (by omega : m.reverse.length ≤ i), List.getElem?_singleton]
        split
        · simp [hne.symm]
        · simp

/-- The assigned id is the next one or one of the old ones. -/
theorem assign_cases (m : IdMapStore) (k : Key) :
    ((m.assign k).2.reverse = m.reverse ∧ (m.assign k).1 < m.reverse.length) ∨
      ((m.assign k).2.reverse = m.reverse ++ [k] ∧ (m.assign k).1 = m.reverse.length) := by
  rw [assign]
  split
  · next hmem => exact .inl ⟨rfl, List.idxOf_lt_length_iff.mpr hmem⟩
  · exact .inr ⟨rfl, rfl⟩

/-- The assigned id is at most the number of ids, and there is one more id if it is equal. -/
theorem assign_length (m : IdMapStore) (k : Key) :
    (m.assign k).1 ≤ m.reverse.length ∧
      (m.assign k).2.reverse.length = max m.reverse.length ((m.assign k).1 + 1) := by
  rcases m.assign_cases k with ⟨hrev, hid⟩ | ⟨hrev, hid⟩
  · rw [hrev]
    omega
  · rw [hrev, List.length_append, List.length_singleton]
    omega

end IdMapStore

/-! ## The vector slots -/

/-- The part of an index node that is not a link. -/
structure Node where
  vector : Floats
  isDeleted : Bool := false
  size : vector.length = vectorDim
deriving DecidableEq

/-- A slot of storage that was never written. -/
def zeroNode : Node where
  vector := List.replicate vectorDim 0
  size := List.length_replicate

/-- The slots of the index by local id, the metadata records, newest first, and the
counter that {lit}`Stats` reports. -/
structure Index where
  nodes : List Node := []
  metadata : List (Nat × Bytes) := []
  elementCount : Nat := 0
deriving DecidableEq

namespace Index

/-- Write a slot and count one element more, also where a live vector is
overwritten.  Empty metadata is not saved. -/
def insert (index : Index) (id : Nat) (node : Node) (metadata : Bytes) : Index where
  nodes := if id < index.nodes.length then index.nodes.set id node
    else index.nodes ++ List.replicate (id - index.nodes.length) zeroNode ++ [node]
  metadata := if metadata = [] then index.metadata else (id, metadata) :: index.metadata
  elementCount := index.elementCount + 1

/-- Lazy deletion: mark the slot. -/
def deleteVector (index : Index) (id : Nat) : Index :=
  match index.nodes[id]? with
  | none => index
  | some node =>
      if node.isDeleted then index
      else { index with
        nodes := index.nodes.set id { node with isDeleted := true }
        elementCount := index.elementCount - 1 }

def isDeleted (index : Index) (id : Nat) : Bool :=
  match index.nodes[id]? with
  | none => false
  | some node => node.isDeleted

/-- The vector of a slot, empty if the slot is out of range or deleted. -/
def getVectorData (index : Index) (id : Nat) : Floats :=
  match index.nodes[id]? with
  | none => []
  | some node => if node.isDeleted then [] else node.vector

def getMetadata (index : Index) (id : Nat) : Bytes :=
  (index.metadata.lookup id).getD []

/-- A slot holds a vector iff it is in range and not deleted. -/
theorem getVectorData_ne_nil_iff {index : Index} {id : Nat} :
    index.getVectorData id ≠ [] ↔ id < index.nodes.length ∧ index.isDeleted id = false := by
  rw [getVectorData, isDeleted]
  cases hnode : index.nodes[id]? with
  | none =>
      have := List.getElem?_eq_none_iff.mp hnode
      simp only [ne_eq, not_true_eq_false, and_true, false_iff]
      omega
  | some node =>
      have hlt := (List.getElem?_eq_some_iff.mp hnode).1
      have hvec : node.vector ≠ [] := by
        intro hnil
        have := node.size
        simp [hnil, vectorDim] at this
      cases hdel : node.isDeleted <;> simp [hdel, hvec, hlt]

theorem length_nodes_insert (index : Index) {id : Nat} (node : Node) (metadata : Bytes)
    (hid : id ≤ index.nodes.length) :
    (index.insert id node metadata).nodes.length = max index.nodes.length (id + 1) := by
  rw [insert]
  dsimp only
  split
  · rw [List.length_set]
    omega
  · simp only [List.length_append, List.length_replicate, List.length_singleton]
    omega

/-- The written slot. -/
theorem getElem?_insert_self (index : Index) {id : Nat} (node : Node) (metadata : Bytes)
    (hid : id ≤ index.nodes.length) :
    (index.insert id node metadata).nodes[id]? = some node := by
  rw [insert]
  dsimp only
  split
  · next hlt => exact List.getElem?_set_self hlt
  · next hge =>
      have heq : id = index.nodes.length := by omega
      simp [heq]

/-- The other slots. -/
theorem getElem?_insert_of_ne (index : Index) {id id' : Nat} (node : Node) (metadata : Bytes)
    (hid : id ≤ index.nodes.length) (hne : id' ≠ id) :
    (index.insert id node metadata).nodes[id']? = index.nodes[id']? := by
  rw [insert]
  dsimp only
  split
  · exact List.getElem?_set_ne hne.symm
  · next hge =>
      have heq : id - index.nodes.length = 0 := by omega
      rw [heq, List.replicate_zero, List.append_nil, List.getElem?_append]
      split
      · rfl
      · rw [List.getElem?_eq_none (by omega : index.nodes.length ≤ id'),
          List.getElem?_eq_none (by simp; omega)]

theorem length_nodes_deleteVector (index : Index) (id : Nat) :
    (index.deleteVector id).nodes.length = index.nodes.length := by
  rw [deleteVector]
  split
  · rfl
  · split
    · rfl
    · exact List.length_set

/-- A deleted slot holds no vector. -/
theorem getVectorData_deleteVector_self (index : Index) (id : Nat) :
    (index.deleteVector id).getVectorData id = [] := by
  rw [deleteVector]
  cases hnode : index.nodes[id]? with
  | none => simp [getVectorData, hnode]
  | some node =>
      have hlt := (List.getElem?_eq_some_iff.mp hnode).1
      cases hdel : node.isDeleted with
      | true => simp [getVectorData, hnode, hdel]
      | false => simp [getVectorData, hlt, hdel]

/-- Deletion leaves the other slots alone. -/
theorem getElem?_deleteVector_of_ne (index : Index) {id id' : Nat} (hne : id' ≠ id) :
    (index.deleteVector id).nodes[id']? = index.nodes[id']? := by
  rw [deleteVector]
  split
  · rfl
  · split
    · rfl
    · exact List.getElem?_set_ne hne.symm

end Index

/-! ## The service -/

structure InsertRequest where
  externalId : Key
  vector : Floats
  metadata : Bytes
  epoch : Nat
deriving DecidableEq, Repr

structure DeleteRequest where
  externalId : Key
  epoch : Nat
deriving DecidableEq, Repr

/-- The answer to {lit}`Insert` and {lit}`Delete`. -/
structure WriteResponse where
  ok : Bool
  error : String := ""
deriving DecidableEq, Repr

structure GetVectorResponse where
  ok : Bool
  error : String := ""
  vector : Floats := []
  metadata : Bytes := []
deriving DecidableEq, Repr

/-- The empty index is dense over the empty id map. -/
theorem dense_empty :
    ({} : Index).nodes.length = (⟨[], List.nodup_nil⟩ : IdMapStore).reverse.length :=
  rfl

/-- The state of a shard process: what it keeps on disk and the highest epoch it has
accepted a write of. -/
structure ShardServer where
  idMap : IdMapStore := ⟨[], List.nodup_nil⟩
  index : Index := {}
  currentEpoch : Nat := 0
  dense : index.nodes.length = idMap.reverse.length := by exact NanoDB.Shard.dense_empty
deriving DecidableEq

/-- The next epoch, or the message for a request that is behind. -/
def checkAndAdvanceEpoch (current request : Nat) : Except String Nat :=
  if request < current then
    .error ("stale epoch " ++ toString request ++ ", this shard has already seen epoch " ++
      toString current)
  else .ok (if request > current then request else current)

namespace ShardServer

def insert (s : ShardServer) (request : InsertRequest) : WriteResponse × ShardServer :=
  if hdim : request.vector.length = vectorDim then
    match checkAndAdvanceEpoch s.currentEpoch request.epoch with
    | .error message => (⟨false, message⟩, s)
    | .ok epoch =>
        (⟨true, ""⟩,
          { idMap := (s.idMap.assign request.externalId).2
            index := s.index.insert (s.idMap.assign request.externalId).1
              ⟨request.vector, false, hdim⟩ request.metadata
            currentEpoch := epoch
            dense := by
              have hdense := s.dense
              rcases s.idMap.assign_cases request.externalId with ⟨hrev, hid⟩ | ⟨hrev, hid⟩
              · rw [Index.length_nodes_insert _ _ _ (by omega), hrev]
                omega
              · rw [Index.length_nodes_insert _ _ _ (by omega), hrev, List.length_append,
                  List.length_singleton]
                omega })
  else
    (⟨false, "vector dimension mismatch, expected " ++ toString vectorDim⟩, s)

def delete (s : ShardServer) (request : DeleteRequest) : WriteResponse × ShardServer :=
  match checkAndAdvanceEpoch s.currentEpoch request.epoch with
  | .error message => (⟨false, message⟩, s)
  | .ok epoch =>
      match s.idMap.lookup request.externalId with
      | none =>
          (⟨false, "external_id not found on this shard"⟩, { s with currentEpoch := epoch })
      | some localId =>
          (⟨true, ""⟩,
            { s with
              index := s.index.deleteVector localId
              currentEpoch := epoch
              dense := (s.index.length_nodes_deleteVector localId).trans s.dense })

/-- The {lit}`element_count` of {lit}`Stats`. -/
def elementCount (s : ShardServer) : Nat :=
  s.index.elementCount

def listLocalIds (s : ShardServer) : List Key :=
  s.idMap.reverse.filter fun externalId =>
    match s.idMap.lookup externalId with
    | none => false
    | some localId => !s.index.isDeleted localId

def getVector (s : ShardServer) (externalId : Key) : GetVectorResponse :=
  match s.idMap.lookup externalId with
  | none => { ok := false, error := "external_id not found on this shard" }
  | some localId =>
      match s.index.getVectorData localId with
      | [] => { ok := false, error := "vector data unavailable (deleted or out of range)" }
      | f :: fs => { ok := true, vector := f :: fs, metadata := s.index.getMetadata localId }

/-- A restart keeps the data; the epoch is not persisted. -/
def restart (s : ShardServer) : ShardServer :=
  { s with currentEpoch := 0 }

/-! ## A shard as a map -/

/-- What a shard is for: the vector of each live key. -/
def liveVector (s : ShardServer) (k : Key) : Option Floats :=
  if (s.getVector k).ok then some (s.getVector k).vector else none

/-- Whether the key has a local id, live or deleted. -/
def mapped (s : ShardServer) (k : Key) : Bool :=
  (s.idMap.lookup k).isSome

/-- The live vector, read from the slots. -/
theorem liveVector_eq (s : ShardServer) (k : Key) :
    s.liveVector k = (s.idMap.lookup k).bind fun id =>
      if s.index.getVectorData id = [] then none else some (s.index.getVectorData id) := by
  rw [liveVector, getVector]
  cases s.idMap.lookup k with
  | none => rfl
  | some id => cases hvec : s.index.getVectorData id <;> simp [hvec]

theorem liveVector_eq_some_iff {s : ShardServer} {k : Key} {v : Floats} :
    s.liveVector k = some v ↔
      ∃ id, s.idMap.lookup k = some id ∧ s.index.getVectorData id = v ∧ v ≠ [] := by
  rw [liveVector_eq, Option.bind_eq_some_iff]
  constructor
  · rintro ⟨id, hid, h⟩
    split at h
    · exact absurd h (by simp)
    · next hne =>
        rw [Option.some_inj] at h
        exact ⟨id, hid, h, h ▸ hne⟩
  · rintro ⟨id, hid, rfl, hne⟩
    exact ⟨id, hid, by rw [if_neg hne]⟩

/-- The live vector depends on the id map and the slots only. -/
theorem liveVector_congr {s t : ShardServer} {k : Key} (hid : t.idMap.lookup k = s.idMap.lookup k)
    (hslot : ∀ id, s.idMap.lookup k = some id →
      t.index.nodes[id]? = s.index.nodes[id]?) : t.liveVector k = s.liveVector k := by
  rw [liveVector_eq, liveVector_eq, hid]
  cases hlookup : s.idMap.lookup k with
  | none => rfl
  | some id =>
      have hdata : t.index.getVectorData id = s.index.getVectorData id := by
        rw [Index.getVectorData, Index.getVectorData, hslot id hlookup]
      rw [Option.bind_some, Option.bind_some, hdata]

/-- The listed keys are the live ones. -/
theorem mem_listLocalIds {s : ShardServer} {k : Key} :
    k ∈ s.listLocalIds ↔ (s.liveVector k).isSome = true := by
  have hlive : (s.liveVector k).isSome = true ↔
      ∃ id, s.idMap.lookup k = some id ∧ s.index.isDeleted id = false := by
    rw [Option.isSome_iff_exists]
    constructor
    · rintro ⟨v, hv⟩
      rcases liveVector_eq_some_iff.mp hv with ⟨id, hid, hvec, hne⟩
      exact ⟨id, hid, (Index.getVectorData_ne_nil_iff.mp (hvec ▸ hne)).2⟩
    · rintro ⟨id, hid, hdel⟩
      have hlt : id < s.index.nodes.length := s.dense ▸ IdMapStore.lookup_lt hid
      exact ⟨_, liveVector_eq_some_iff.mpr
        ⟨id, hid, rfl, Index.getVectorData_ne_nil_iff.mpr ⟨hlt, hdel⟩⟩⟩
  rw [hlive, listLocalIds, List.mem_filter]
  constructor
  · rintro ⟨-, h⟩
    cases hid : s.idMap.lookup k with
    | none => simp [hid] at h
    | some id => exact ⟨id, rfl, by simpa [hid] using h⟩
  · rintro ⟨id, hid, hdel⟩
    refine ⟨?_, by simp [hid, hdel]⟩
    exact List.mem_of_getElem? (IdMapStore.lookup_eq_some_iff.mp hid)

/-- A live key has a local id. -/
theorem mapped_of_liveVector {s : ShardServer} {k : Key} {v : Floats}
    (h : s.liveVector k = some v) : s.mapped k = true := by
  rcases liveVector_eq_some_iff.mp h with ⟨id, hid, -⟩
  simp [mapped, hid]

/-- A live vector has the right dimension. -/
theorem length_of_liveVector {s : ShardServer} {k : Key} {v : Floats}
    (h : s.liveVector k = some v) : v.length = vectorDim := by
  rcases liveVector_eq_some_iff.mp h with ⟨id, -, hvec, hne⟩
  rw [← hvec] at hne ⊢
  rw [Index.getVectorData] at hne ⊢
  cases hnode : s.index.nodes[id]? with
  | none => simp [hnode] at hne
  | some node =>
      cases hdel : node.isDeleted with
      | true => simp [hnode, hdel] at hne
      | false => simpa [hdel] using node.size

/-- What {lit}`GetVector` answers. -/
theorem getVector_ok_iff {s : ShardServer} {k : Key} :
    (s.getVector k).ok = true ↔ s.liveVector k = some (s.getVector k).vector := by
  rw [liveVector]
  split <;> simp_all

/-- A live key is read. -/
theorem getVector_of_liveVector {s : ShardServer} {k : Key} {v : Floats}
    (h : s.liveVector k = some v) : (s.getVector k).ok = true ∧ (s.getVector k).vector = v := by
  rw [liveVector] at h
  split at h
  · next hok => exact ⟨hok, Option.some_inj.mp h⟩
  · contradiction

/-! ## Writes -/

section Writes

variable {s : ShardServer}

theorem checkAndAdvanceEpoch_of_le {current request : Nat} (h : current ≤ request) :
    checkAndAdvanceEpoch current request = .ok request := by
  rw [checkAndAdvanceEpoch, if_neg (by omega)]
  congr 1
  split <;> omega

theorem checkAndAdvanceEpoch_of_lt {current request : Nat} (h : request < current) :
    ∃ message, checkAndAdvanceEpoch current request = .error message := by
  rw [checkAndAdvanceEpoch, if_pos h]
  exact ⟨_, rfl⟩

/-- An insert is accepted iff its vector has the right dimension and its epoch is not
behind. -/
theorem insert_ok_iff {request : InsertRequest} :
    (s.insert request).1.ok = true ↔
      request.vector.length = vectorDim ∧ s.currentEpoch ≤ request.epoch := by
  rw [insert]
  split
  · next hdim =>
      rcases Nat.lt_or_ge request.epoch s.currentEpoch with hlt | hge
      · rcases checkAndAdvanceEpoch_of_lt hlt with ⟨message, hmsg⟩
        rw [hmsg]
        simp only [Bool.false_eq_true, false_iff]
        omega
      · rw [checkAndAdvanceEpoch_of_le hge]
        simp [hdim, hge]
  · next hdim => simp [hdim]

/-- A refused insert changes nothing. -/
theorem insert_refused {request : InsertRequest} (h : (s.insert request).1.ok = false) :
    (s.insert request).2 = s := by
  rw [insert] at h ⊢
  split
  · next hdim =>
      rw [dif_pos hdim] at h
      cases hcheck : checkAndAdvanceEpoch s.currentEpoch request.epoch with
      | error message => rfl
      | ok epoch => simp [hcheck] at h
  · rfl

/-- An accepted insert sets the vector of its key and no other. -/
theorem liveVector_insert {request : InsertRequest} (h : (s.insert request).1.ok = true) (k : Key) :
    (s.insert request).2.liveVector k =
      if k = request.externalId then some request.vector else s.liveVector k := by
  rcases insert_ok_iff.mp h with ⟨hdim, hepoch⟩
  have hassign : (s.idMap.assign request.externalId).1 ≤ s.index.nodes.length := by
    have hdense := s.dense
    rcases s.idMap.assign_cases request.externalId with ⟨-, hid⟩ | ⟨-, hid⟩ <;> omega
  rw [insert, dif_pos hdim, checkAndAdvanceEpoch_of_le hepoch]
  dsimp only
  split
  · next hk =>
      subst hk
      rw [liveVector_eq_some_iff]
      refine ⟨_, IdMapStore.lookup_assign_self _ _, ?_, ?_⟩
      · simp [Index.getVectorData, Index.getElem?_insert_self _ _ _ hassign]
      · intro hnil
        simp [hnil, vectorDim] at hdim
  · next hk =>
      apply liveVector_congr
      · exact IdMapStore.lookup_assign_of_ne _ hk
      · intro id hid
        apply Index.getElem?_insert_of_ne _ _ _ hassign
        intro heq
        rw [← IdMapStore.lookup_assign_of_ne s.idMap hk, heq] at hid
        exact hk (IdMapStore.lookup_inj hid (IdMapStore.lookup_assign_self _ _))

/-- The keys that have a local id after an insert. -/
theorem mapped_insert {request : InsertRequest} (h : (s.insert request).1.ok = true) (k : Key) :
    (s.insert request).2.mapped k = (decide (k = request.externalId) || s.mapped k) := by
  rcases insert_ok_iff.mp h with ⟨hdim, hepoch⟩
  rw [insert, dif_pos hdim, checkAndAdvanceEpoch_of_le hepoch]
  by_cases hk : k = request.externalId
  · subst hk
    simp [mapped, IdMapStore.lookup_assign_self]
  · simp [mapped, hk, IdMapStore.lookup_assign_of_ne _ hk]

/-- The epoch after an insert. -/
theorem currentEpoch_insert (request : InsertRequest) :
    (s.insert request).2.currentEpoch =
      if (s.insert request).1.ok then request.epoch else s.currentEpoch := by
  split
  · next h =>
      rcases insert_ok_iff.mp h with ⟨hdim, hepoch⟩
      rw [insert, dif_pos hdim, checkAndAdvanceEpoch_of_le hepoch]
  · next h => rw [insert_refused (by simpa using h)]

/-- A delete is answered with ok iff its epoch is not behind and the key has a local
id. -/
theorem delete_ok_iff {request : DeleteRequest} :
    (s.delete request).1.ok = true ↔
      s.currentEpoch ≤ request.epoch ∧ s.mapped request.externalId = true := by
  rw [delete, mapped]
  rcases Nat.lt_or_ge request.epoch s.currentEpoch with hlt | hge
  · rcases checkAndAdvanceEpoch_of_lt hlt with ⟨message, hmsg⟩
    rw [hmsg]
    simp only [Bool.false_eq_true, false_iff]
    omega
  · rw [checkAndAdvanceEpoch_of_le hge]
    cases s.idMap.lookup request.externalId <;> simp [hge]

/-- A delete whose epoch is behind changes nothing. -/
theorem delete_refused {request : DeleteRequest} (h : request.epoch < s.currentEpoch) :
    (s.delete request).2 = s := by
  rcases checkAndAdvanceEpoch_of_lt h with ⟨message, hmsg⟩
  rw [delete, hmsg]

/-- A delete whose epoch is accepted removes its key and no other. -/
theorem liveVector_delete {request : DeleteRequest} (h : s.currentEpoch ≤ request.epoch)
    (k : Key) :
    (s.delete request).2.liveVector k =
      if k = request.externalId then none else s.liveVector k := by
  rw [delete, checkAndAdvanceEpoch_of_le h]
  dsimp only
  cases hid : s.idMap.lookup request.externalId with
  | none =>
      by_cases hk : k = request.externalId
      · simp [liveVector_eq, hk, hid]
      · rw [if_neg hk]
        exact liveVector_congr rfl fun _ _ => rfl
  | some id =>
      by_cases hk : k = request.externalId
      · simp [liveVector_eq, hk, hid, Index.getVectorData_deleteVector_self]
      · rw [if_neg hk]
        apply liveVector_congr
        · rfl
        · intro id' hid'
          apply Index.getElem?_deleteVector_of_ne
          intro heq
          rw [heq] at hid'
          exact hk (IdMapStore.lookup_inj hid' hid)

/-- A delete forgets no local id. -/
theorem mapped_delete (request : DeleteRequest) (k : Key) :
    (s.delete request).2.mapped k = s.mapped k := by
  rw [delete]
  split
  · rfl
  · split <;> rfl

/-- The epoch after a delete. -/
theorem currentEpoch_delete (request : DeleteRequest) :
    (s.delete request).2.currentEpoch = max s.currentEpoch request.epoch := by
  rcases Nat.lt_or_ge request.epoch s.currentEpoch with hlt | hge
  · rw [delete_refused hlt]
    omega
  · rw [delete, checkAndAdvanceEpoch_of_le hge]
    dsimp only
    split <;> simp only <;> omega

/-- The epoch never goes back. -/
theorem currentEpoch_le_insert (request : InsertRequest) :
    s.currentEpoch ≤ (s.insert request).2.currentEpoch := by
  rw [currentEpoch_insert]
  split
  · next h => exact (insert_ok_iff.mp h).2
  · exact Nat.le_refl _

theorem currentEpoch_le_delete (request : DeleteRequest) :
    s.currentEpoch ≤ (s.delete request).2.currentEpoch := by
  rw [currentEpoch_delete]
  exact Nat.le_max_left _ _

/-- An accepted insert counts one element more, whether its key was there or not. -/
theorem elementCount_insert {request : InsertRequest} (h : (s.insert request).1.ok = true) :
    (s.insert request).2.elementCount = s.elementCount + 1 := by
  rcases insert_ok_iff.mp h with ⟨hdim, hepoch⟩
  rw [insert, dif_pos hdim, checkAndAdvanceEpoch_of_le hepoch]
  rfl

/-- A delete whose epoch is accepted counts one element less if its key is live. -/
theorem elementCount_delete {request : DeleteRequest} (h : s.currentEpoch ≤ request.epoch) :
    (s.delete request).2.elementCount =
      if (s.liveVector request.externalId).isSome then s.elementCount - 1 else s.elementCount := by
  rw [delete, checkAndAdvanceEpoch_of_le h]
  dsimp only
  rw [liveVector_eq]
  cases hid : s.idMap.lookup request.externalId with
  | none => simp [elementCount]
  | some id =>
      have hlt : id < s.index.nodes.length := s.dense ▸ IdMapStore.lookup_lt hid
      have hnode : s.index.nodes[id]? = some (s.index.nodes.get ⟨id, hlt⟩) :=
        List.getElem?_eq_getElem hlt
      generalize s.index.nodes.get ⟨id, hlt⟩ = node at hnode
      cases hdel : node.isDeleted with
      | true => simp [elementCount, Index.deleteVector, Index.getVectorData, hnode, hdel]
      | false =>
          have hne : s.index.getVectorData id ≠ [] :=
            Index.getVectorData_ne_nil_iff.mpr ⟨hlt, by simp [Index.isDeleted, hnode, hdel]⟩
          simp [elementCount, Index.deleteVector, hnode, hdel, hne]

end Writes

end ShardServer

/-! ## Search -/

/-- A conversion to {lit}`size_t`. -/
def sizeT (k : Int) : Nat :=
  (k % 2 ^ 64).toNat

structure SearchRequest where
  vector : Floats
  k : Int
deriving DecidableEq, Repr

/-- One result; distances are of any type. -/
structure SearchResult (δ : Type*) where
  externalId : Key
  distance : δ
  metadata : Bytes
deriving DecidableEq, Repr

structure SearchResponse (δ : Type*) where
  ok : Bool
  error : String := ""
  results : List (SearchResult δ) := []
deriving DecidableEq, Repr

/-- How the links are followed: the slots that the beam search of the bottom layer ends
with, the farthest first. -/
abbrev Traversal :=
  (index : Index) → Floats → Int → List (Fin index.nodes.length)

section Search

variable {δ : Type*} (dist : Floats → Floats → δ) (found : Traversal)

/-- The slots that were found, without the deleted ones, the nearest first and at most
{lit}`k` of them. -/
def Index.search (index : Index) (query : Floats) (k : Int) : List (Nat × δ × Bytes) :=
  (((found index query k).filter fun id => !(index.nodes.get id).isDeleted).map fun id =>
    (id.val, dist query (index.nodes.get id).vector, index.getMetadata id)).reverse.take (sizeT k)

/-- The key of a local id, empty if there is none. -/
def IdMapStore.reverseLookup (m : IdMapStore) (localId : Nat) : Key :=
  (m.reverse[localId]?).getD []

namespace ShardServer

def search (s : ShardServer) (request : SearchRequest) : SearchResponse δ :=
  if request.vector.length ≠ vectorDim then
    { ok := false, error := "vector dimension mismatch, expected " ++ toString vectorDim }
  else
    { ok := true
      results := (s.index.search dist found request.vector request.k).map fun r =>
        ⟨s.idMap.reverseLookup r.1, r.2.1, r.2.2⟩ }

/-- A result is about the live vector of its key. -/
theorem liveVector_of_mem_search {s : ShardServer} {request : SearchRequest}
    {r : SearchResult δ} (h : r ∈ (s.search dist found request).results) :
    ∃ v, s.liveVector r.externalId = some v ∧ r.distance = dist request.vector v := by
  rw [search] at h
  split at h
  · simp at h
  · rcases List.mem_map.mp h with ⟨hit, hhit, rfl⟩
    have hmem := List.mem_reverse.mp (List.mem_of_mem_take hhit)
    rcases List.mem_map.mp hmem with ⟨id, hid, rfl⟩
    have hlive : (s.index.nodes.get id).isDeleted = false := by
      simpa using (List.mem_filter.mp hid).2
    have hlt : id.val < s.idMap.reverse.length := s.dense ▸ id.isLt
    have hnode : s.index.nodes[id.val]? = some (s.index.nodes.get id) :=
      List.getElem?_eq_getElem id.isLt
    refine ⟨(s.index.nodes.get id).vector, liveVector_eq_some_iff.mpr ⟨id.val, ?_, ?_, ?_⟩, rfl⟩
    · rw [IdMapStore.lookup_eq_some_iff, IdMapStore.reverseLookup, List.getElem?_eq_getElem hlt]
      rfl
    · rw [Index.getVectorData, hnode]
      simp only [hlive, Bool.false_eq_true, if_false]
    · intro hnil
      have hsize := (s.index.nodes.get id).size
      rw [hnil] at hsize
      contradiction

end ShardServer

end Search

end NanoDB.Shard
