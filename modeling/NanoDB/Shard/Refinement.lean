import Mathlib.Data.Int.ConditionallyCompleteOrder
import Mathlib.Data.List.Dedup
import NanoDB.Cluster.IdMapStore
import NanoDB.Index.LastMetadata
import NanoDB.Shard.Service

/-!
# A shard on its index

The shard process as it is built: the handlers of the service on top of the id map and
the HNSW index, with neighbour lists, storage growth and the metadata file.  As long as no
handler throws, it answers every request as the shard of {lit}`NanoDB.Shard.Service` does,
which has none of these, and that one is a map from keys to vectors.

Local ids are cast to {lit}`uint32_t`, so the results need fewer than {lit}`2 ^ 31` keys.
{lit}`save_metadata` adds 1000 to the local id, as an {lit}`int`: for the last 1000 of these
keys it can throw, after the slot was written.  {lit}`Insert` is not accepted then, and the
vector is there.

Main results:

- Theorem {lit}`Refines.insert`, {lit}`Refines.delete`, {lit}`Refines.getVector`,
  {lit}`Refines.listLocalIds`: related states answer alike and stay related.
- Theorem {lit}`shard_is_map`: after any sequence of requests whose handlers return, the shard
  holds, for each key, the vector of its last accepted write.
- Theorem {lit}`unaccepted_insert_found`: after one whose handler throws it may not.
-/

namespace NanoDB.Shard

open NanoDB.Index (HNSW Metric headerSize nodeSize maxLayers vectorDim)
open NanoDB.Lib (Exec PriorityQueue instrument instrument_eq_some leBytes)
open NanoDB.Storage (MetadataHandler)
open Cluster (Key)

/-! ## The process -/

/-- A vector of the index. -/
abbrev Vec :=
  { v : Floats // v.length = vectorDim }

instance : Zero Vec :=
  ⟨⟨Shard.zeroNode.vector, Shard.zeroNode.size⟩⟩

/-- A conversion to {lit}`uint32_t`. -/
def uint32 (n : Nat) : Nat :=
  n % 2 ^ 32

/-- The members of {lit}`ShardServiceImpl`. -/
structure ShardProcess where
  idMap : IdMapStore := ⟨[], List.nodup_nil⟩
  index : HNSW Vec
  currentEpoch : Nat := 0

namespace ShardProcess

/-- If an {lit}`Insert` gets as far as the index, the call there ends without an exception. -/
def Returns (p : ShardProcess) (request : InsertRequest) : Prop :=
  request.vector.length = vectorDim →
    ∀ epoch, checkAndAdvanceEpoch p.currentEpoch request.epoch = .ok epoch →
      p.index.InsertReturns (uint32 (p.idMap.assign request.externalId).1) request.metadata

/-- A new shard on an index file of the given length. -/
def create (storageSize : Nat) : ShardProcess where
  index := { storageSize := storageSize }

/-- The local id of a key, from the map {lit}`forward_`. -/
def lookup (p : ShardProcess) (externalId : Key) : Option Nat :=
  (p.idMap.lookup externalId).map uint32

section Insert

variable {δ : Type*} [Preorder δ] [DecidableLT δ] [PriorityQueue (Index.Result δ)]
  (m : Metric Vec δ)

/-- {lit}`Insert`, with the level that the index draws as an argument.  The answer is {lean}`none`
if the call of the index throws; the key has its local id then, and the slot is written. -/
def insert (p : ShardProcess) (level : Nat) (request : InsertRequest) :
    Option WriteResponse × ShardProcess :=
  if hdim : request.vector.length = vectorDim then
    match checkAndAdvanceEpoch p.currentEpoch request.epoch with
    | .error message => (some ⟨false, message⟩, p)
    | .ok epoch =>
        let localId := uint32 (p.idMap.assign request.externalId).1
        (if p.index.InsertReturns localId request.metadata then some ⟨true, ""⟩ else none,
          { idMap := (p.idMap.assign request.externalId).2
            index := p.index.insertSaved m level ⟨request.vector, hdim⟩ localId request.metadata
            currentEpoch := epoch })
  else
    (some ⟨false, "vector dimension mismatch, expected " ++ toString vectorDim⟩, p)

end Insert

def delete (p : ShardProcess) (request : DeleteRequest) : WriteResponse × ShardProcess :=
  match checkAndAdvanceEpoch p.currentEpoch request.epoch with
  | .error message => (⟨false, message⟩, p)
  | .ok epoch =>
      match p.lookup request.externalId with
      | none =>
          (⟨false, "external_id not found on this shard"⟩, { p with currentEpoch := epoch })
      | some localId =>
          (⟨true, ""⟩,
            { p with
              index := p.index.deleteVector localId
              currentEpoch := epoch })

def listLocalIds (p : ShardProcess) : List Key :=
  p.idMap.reverse.filter fun externalId =>
    match p.lookup externalId with
    | none => false
    | some localId => !p.index.isDeleted localId

def getVector (p : ShardProcess) (externalId : Key) : GetVectorResponse :=
  match p.lookup externalId with
  | none => { ok := false, error := "external_id not found on this shard" }
  | some localId =>
      match p.index.getVectorData localId with
      | none => { ok := false, error := "vector data unavailable (deleted or out of range)" }
      | some v =>
          { ok := true, vector := v.1, metadata := p.index.getMetadata localId }

end ShardProcess

/-! ## Refinement -/

/-- The shard without links, files and machine integers that a process implements. -/
structure Refines (p : ShardProcess) (s : ShardServer) : Prop where
  idMap : s.idMap = p.idMap
  currentEpoch : s.currentEpoch = p.currentEpoch
  slots : ∀ i node, s.index.nodes[i]? = some node →
    node.vector = (p.index.getNode i).vector.1 ∧ node.isDeleted = (p.index.getNode i).isDeleted
  metadata : ∀ i, s.index.getMetadata i = p.index.metadataStorage.getMetadata i
  wellPlaced : p.index.metadataStorage.WellPlaced
  storage : headerSize + p.idMap.reverse.length * nodeSize ≤ p.index.storageSize

theorem refines_create {storageSize : Nat} (hsize : headerSize ≤ storageSize) :
    Refines (ShardProcess.create storageSize) {} where
  idMap := rfl
  currentEpoch := rfl
  slots i node hnode := by cases hnode
  metadata i := rfl
  wellPlaced i hne := absurd rfl hne
  storage := by simpa [ShardProcess.create] using hsize

theorem uint32_of_lt {n : Nat} (h : n < 2 ^ 31) : uint32 n = n :=
  Nat.mod_eq_of_lt (by omega)

namespace Refines

variable {p : ShardProcess} {s : ShardServer}

/-- Fewer than {lit}`2 ^ 31` keys: the casts do nothing. -/
theorem lookup (h : Refines p s) (hkeys : p.idMap.reverse.length < 2 ^ 31) (k : Key) :
    p.lookup k = s.idMap.lookup k := by
  rw [ShardProcess.lookup, h.idMap]
  cases hid : p.idMap.lookup k with
  | none => rfl
  | some id =>
      have := IdMapStore.lookup_lt hid
      rw [Option.map_some, uint32_of_lt (by omega)]

/-- The slot of a local id lies inside the file. -/
theorem inStorage (h : Refines p s) {i : Nat} (hi : i < p.idMap.reverse.length) :
    p.index.inStorage i = true := by
  have hstorage := h.storage
  rw [HNSW.inStorage, decide_eq_true_eq]
  have hmul : (i + 1) * nodeSize ≤ p.idMap.reverse.length * nodeSize :=
    Nat.mul_le_mul_right _ hi
  rw [Nat.add_mul, Nat.one_mul] at hmul
  omega

/-- The slot of a local id, on both sides. -/
theorem exists_node (h : Refines p s) {i : Nat} (hi : i < p.idMap.reverse.length) :
    ∃ node, s.index.nodes[i]? = some node ∧ node.vector = (p.index.getNode i).vector.1 ∧
      node.isDeleted = (p.index.getNode i).isDeleted := by
  have hlt : i < s.index.nodes.length := by
    rw [s.dense, h.idMap]
    exact hi
  exact ⟨s.index.nodes[i], List.getElem?_eq_getElem hlt,
    h.slots i _ (List.getElem?_eq_getElem hlt)⟩

theorem isDeleted (h : Refines p s) {i : Nat} (hi : i < p.idMap.reverse.length) :
    p.index.isDeleted i = s.index.isDeleted i := by
  rcases h.exists_node hi with ⟨node, hnode, -, hdeleted⟩
  rw [HNSW.isDeleted, if_pos (h.inStorage hi), Index.isDeleted, hnode]
  exact hdeleted.symm

/-- Related shards list the same keys. -/
theorem listLocalIds (h : Refines p s) (hkeys : p.idMap.reverse.length < 2 ^ 31) :
    p.listLocalIds = s.listLocalIds := by
  rw [ShardProcess.listLocalIds, ShardServer.listLocalIds, h.idMap]
  apply List.filter_congr
  intro k _
  rw [h.lookup hkeys, h.idMap]
  cases hid : p.idMap.lookup k with
  | none => rfl
  | some id =>
      dsimp only
      rw [h.isDeleted (IdMapStore.lookup_lt hid)]

/-- Related shards answer {lit}`GetVector` alike. -/
theorem getVector (h : Refines p s) (hkeys : p.idMap.reverse.length < 2 ^ 31) (k : Key) :
    p.getVector k = s.getVector k := by
  rw [ShardProcess.getVector, ShardServer.getVector, h.lookup hkeys, h.idMap]
  cases hid : p.idMap.lookup k with
  | none => rfl
  | some id =>
      have hlt := IdMapStore.lookup_lt hid
      rcases h.exists_node hlt with ⟨node, hnode, hvector, hdeleted⟩
      have hint : id < 2 ^ 31 := by omega
      dsimp only
      rw [HNSW.getVectorData, if_pos (h.inStorage hlt), Index.getVectorData, hnode, ← hdeleted,
        HNSW.getMetadata, if_pos hint, ← h.metadata]
      dsimp only
      cases node.isDeleted with
      | true => rfl
      | false =>
          simp only [Bool.false_eq_true, if_false]
          rw [← hvector]
          cases hv : node.vector with
          | nil =>
              have hsize := node.size
              rw [hv] at hsize
              contradiction
          | cons f fs => rfl

section Insert

variable {δ : Type*} [Preorder δ] [DecidableLT δ] [PriorityQueue (Index.Result δ)]
  (m : Metric Vec δ)

/-- The growth step of one insert makes room for the next local id. -/
theorem le_storageSize_expandStorage {h : HNSW Vec} {n id : Nat} (hid : id ≤ n)
    (hstorage : headerSize + n * nodeSize ≤ h.storageSize) :
    headerSize + max n (id + 1) * nodeSize ≤ (h.expandStorage id).storageSize := by
  rcases Nat.lt_or_ge id n with hlt | hge
  · have hmax : max n (id + 1) = n := by omega
    rw [hmax, HNSW.expandStorage]
    split
    · exact hstorage
    · dsimp only
      omega
  · have hmax : max n (id + 1) = id + 1 := by omega
    have hn : n = id := by omega
    rw [hmax, HNSW.expandStorage, Nat.add_mul, Nat.one_mul]
    split
    · next hin =>
        rw [HNSW.inStorage, decide_eq_true_eq] at hin
        omega
    · have hnode : nodeSize ≤ 10 * 1024 * 1024 := by decide
      rw [hn] at hstorage
      dsimp only
      omega

/-- The newest record of an id is read. -/
theorem getMetadata_insert (index : Index) (id i : Nat) (node : Node) (metadata : Raft.Bytes) :
    (index.insert id node metadata).getMetadata i =
      if id = i ∧ metadata ≠ [] then metadata else index.getMetadata i := by
  rw [Index.getMetadata, Index.insert]
  dsimp only
  by_cases hempty : metadata = []
  · rw [if_pos hempty, if_neg fun hc => hc.2 hempty, Index.getMetadata]
  · rw [if_neg hempty, List.lookup_cons]
    by_cases hi : id = i
    · rw [if_pos ⟨hi, hempty⟩, hi, beq_self_eq_true]
      rfl
    · rw [if_neg fun hc => hi hc.1, beq_eq_false_iff_ne.mpr (Ne.symm hi), Index.getMetadata]

/-- Related shards answer {lit}`Insert` alike and stay related, if the handler returns. -/
theorem insert (h : Refines p s) (hkeys : p.idMap.reverse.length < 2 ^ 31) (level : Nat)
    {request : InsertRequest} (hreturns : p.Returns request) :
    (p.insert m level request).1 = some (s.insert request).1 ∧
      Refines (p.insert m level request).2 (s.insert request).2 := by
  rw [ShardProcess.insert, ShardServer.insert, h.currentEpoch]
  split
  · next hdim =>
      cases hepoch : checkAndAdvanceEpoch p.currentEpoch request.epoch with
      | error message => exact ⟨rfl, h⟩
      | ok epoch =>
          have hcall := hreturns hdim epoch hepoch
          dsimp only
          rw [if_pos hcall, HNSW.insertSaved_of_returns hcall]
          refine ⟨rfl, ?_⟩
          have hassign := p.idMap.assign_length request.externalId
          have hid : (p.idMap.assign request.externalId).1 ≤ s.index.nodes.length := by
            rw [s.dense, h.idMap]
            exact hassign.1
          have hcast : uint32 (p.idMap.assign request.externalId).1 =
              (p.idMap.assign request.externalId).1 := uint32_of_lt (by omega)
          simp only [h.idMap, hcast]
          refine ⟨rfl, rfl, ?_, ?_, ?_, ?_⟩
          · intro i node hnode
            rcases HNSW.getNode_insert m p.index level ⟨request.vector, hdim⟩
              (p.idMap.assign request.externalId).1 request.metadata i with ⟨hvector, hdeleted⟩
            rw [hvector, hdeleted]
            by_cases hi : i = (p.idMap.assign request.externalId).1
            · rw [hi, Index.getElem?_insert_self _ _ _ hid] at hnode
              rw [if_pos hi, if_pos hi, ← Option.some.inj hnode]
              exact ⟨rfl, rfl⟩
            · rw [Index.getElem?_insert_of_ne _ _ _ hid hi] at hnode
              rw [if_neg hi, if_neg hi]
              exact h.slots i node hnode
          · intro i
            rw [getMetadata_insert, HNSW.metadataStorage_insert,
              MetadataHandler.getMetadata_saveMetadata h.wellPlaced, h.metadata]
          · rw [HNSW.metadataStorage_insert]
            exact h.wellPlaced.saveMetadata _ _
          · rw [HNSW.storageSize_insert, hassign.2]
            exact le_storageSize_expandStorage hassign.1 h.storage
  · exact ⟨rfl, h⟩

end Insert

/-- The slot of a deleted id. -/
theorem getElem?_deleteVector_self {index : Index} {id : Nat} {node : Node}
    (hnode : index.nodes[id]? = some node) :
    (index.deleteVector id).nodes[id]? = some { node with isDeleted := true } := by
  have hlt := (List.getElem?_eq_some_iff.mp hnode).1
  rw [Index.deleteVector, hnode]
  dsimp only
  split
  · next hdeleted =>
      rw [hnode, ← hdeleted]
  · exact List.getElem?_set_self hlt

theorem getMetadata_deleteVector (index : Index) (id i : Nat) :
    (index.deleteVector id).getMetadata i = index.getMetadata i := by
  rw [Index.deleteVector]
  split
  · rfl
  · split <;> rfl

/-- Related shards answer {lit}`Delete` alike and stay related. -/
theorem delete (h : Refines p s) (hkeys : p.idMap.reverse.length < 2 ^ 31)
    (request : DeleteRequest) :
    (p.delete request).1 = (s.delete request).1 ∧
      Refines (p.delete request).2 (s.delete request).2 := by
  rw [ShardProcess.delete, ShardServer.delete, h.currentEpoch]
  cases checkAndAdvanceEpoch p.currentEpoch request.epoch with
  | error message => exact ⟨rfl, h⟩
  | ok epoch =>
      dsimp only
      rw [h.lookup hkeys]
      cases hlookup : s.idMap.lookup request.externalId with
      | none => exact ⟨rfl, { h with currentEpoch := rfl }⟩
      | some id =>
          have hid : id < p.idMap.reverse.length := by
            rw [← h.idMap]
            exact IdMapStore.lookup_lt hlookup
          rcases p.index.deleteVector_keeps id with ⟨-, -, -, hsize, hmeta⟩
          refine ⟨rfl, h.idMap, rfl, ?_, ?_, ?_, ?_⟩
          · intro i node hnode
            dsimp only at hnode ⊢
            rw [HNSW.getNode_deleteVector]
            by_cases hi : i = id
            · rw [if_pos ⟨hi, h.inStorage hid⟩]
              rcases h.exists_node hid with ⟨old, hold, hvector, -⟩
              rw [hi, getElem?_deleteVector_self hold] at hnode
              rw [← Option.some.inj hnode, hi]
              exact ⟨hvector, rfl⟩
            · rw [if_neg fun hc => hi hc.1]
              rw [Index.getElem?_deleteVector_of_ne _ hi] at hnode
              exact h.slots i node hnode
          · intro i
            dsimp only
            rw [hmeta, getMetadata_deleteVector]
            exact h.metadata i
          · dsimp only
            rw [hmeta]
            exact h.wellPlaced
          · dsimp only
            rw [hsize]
            exact h.storage

end Refines

/-! ## Sequences of requests -/

/-- A request; an insert comes with the level that it draws. -/
inductive Rpc
  | insert (level : Nat) (request : InsertRequest)
  | delete (request : DeleteRequest)
  | listLocalIds
  | getVector (externalId : Key)

/-- The level of an insert has a row in the neighbour arrays. -/
def Rpc.LevelBelow (rpc : Rpc) : Prop :=
  match rpc with
  | .insert level _ => level < maxLayers
  | _ => True

instance (rpc : Rpc) : Decidable rpc.LevelBelow :=
  match rpc with
  | .insert level _ => inferInstanceAs (Decidable (level < maxLayers))
  | .delete _ => inferInstanceAs (Decidable True)
  | .listLocalIds => inferInstanceAs (Decidable True)
  | .getVector _ => inferInstanceAs (Decidable True)

/-- The keys that a sequence of requests inserts. -/
def insertedKeys (rpcs : List Rpc) : List Key :=
  rpcs.filterMap fun rpc =>
    match rpc with
    | .insert _ request => some request.externalId
    | _ => none

/-- The handler of the request returns. -/
def ShardProcess.HandlerReturns (p : ShardProcess) : Rpc → Prop
  | .insert _ request => p.Returns request
  | .delete _ => True
  | .listLocalIds => True
  | .getVector _ => True

section Run

variable {δ : Type*} [Preorder δ] [DecidableLT δ] [PriorityQueue (Index.Result δ)]
  (m : Metric Vec δ)

/-- The state after a request. -/
def ShardProcess.handle (p : ShardProcess) : Rpc → ShardProcess
  | .insert level request => (p.insert m level request).2
  | .delete request => (p.delete request).2
  | .listLocalIds => p
  | .getVector _ => p

/-- A request as a step of the process. -/
def ShardProcess.serve (p : ShardProcess) (rpc : Rpc) : Option ShardProcess :=
  some (p.handle m rpc)

/-- The vector of the last accepted write of each key, from the requests and their
answers. -/
def record (p : ShardProcess) : Rpc → (Key → Option Floats) → Key → Option Floats
  | .insert level request, last =>
      if (p.insert m level request).1.any (·.ok) then
        Function.update last request.externalId (some request.vector)
      else last
  | .delete request, last =>
      if (p.delete request).1.ok then Function.update last request.externalId none else last
  | .listLocalIds, last => last
  | .getVector _, last => last

/-- A process that holds a map: {lit}`GetVector` and {lit}`ListLocalIds` read it, and a
request that is rejected for its dimension or its epoch leaves the process as it is. -/
structure HoldsMap (p : ShardProcess) (map : Key → Option Floats) : Prop where
  ok_iff : ∀ k, (p.getVector k).ok = true ↔ (map k).isSome = true
  vector : ∀ k v, map k = some v → (p.getVector k).vector = v
  mem_iff : ∀ k, k ∈ p.listLocalIds ↔ (map k).isSome = true
  nodup : p.listLocalIds.Nodup
  insert_rejected : ∀ level request,
    request.vector.length ≠ vectorDim ∨ request.epoch < p.currentEpoch →
    ∃ message, p.insert m level request = (some ⟨false, message⟩, p)
  delete_rejected : ∀ request : DeleteRequest, request.epoch < p.currentEpoch →
    ∃ message, p.delete request = (⟨false, message⟩, p)

variable {m}

/-- Every request is a step. -/
theorem exec_append {ok : ShardProcess × (Key → Option Floats) → Rpc → Prop}
    {q q' : ShardProcess × (Key → Option Floats)} {rpcs : List Rpc}
    (hrun : Exec (instrument (ShardProcess.serve m) (record m)) ok q rpcs q') {rpc : Rpc}
    (hok : ok q' rpc) :
    Exec (instrument (ShardProcess.serve m) (record m)) ok q (rpcs ++ [rpc])
      (q'.1.handle m rpc, record m q'.1 rpc q'.2) :=
  hrun.append (.cons hok rfl (.nil _))

/-- The map of an abstract shard after an insert. -/
theorem liveVector_eq_insert {s : ShardServer} {last : Key → Option Floats}
    (hlast : s.liveVector = last) (request : InsertRequest) :
    (s.insert request).2.liveVector =
      if (s.insert request).1.ok then Function.update last request.externalId (some request.vector)
      else last := by
  split
  · next hok =>
      funext k
      rw [ShardServer.liveVector_insert hok, hlast, Function.update_apply]
  · next hok => rw [ShardServer.insert_refused (by simpa using hok), hlast]

/-- The map of an abstract shard after a delete. -/
theorem liveVector_eq_delete {s : ShardServer} {last : Key → Option Floats}
    (hlast : s.liveVector = last) (request : DeleteRequest) :
    (s.delete request).2.liveVector =
      if (s.delete request).1.ok then Function.update last request.externalId none else last := by
  rcases Nat.lt_or_ge request.epoch s.currentEpoch with hstale | hepoch
  · have hok : ¬ (s.delete request).1.ok = true := by
      rw [ShardServer.delete_ok_iff]
      omega
    rw [if_neg hok, ShardServer.delete_refused hstale, hlast]
  · funext k
    rw [ShardServer.liveVector_delete hepoch, hlast]
    split
    · next hk =>
        split
        · rw [hk, Function.update_self]
        · next hok =>
            -- an unknown key has no vector
            rw [ShardServer.delete_ok_iff] at hok
            cases hlive : s.liveVector k with
            | none => rw [← hlast, hlive]
            | some v =>
                have hmapped := ShardServer.mapped_of_liveVector hlive
                rw [hk] at hmapped
                exact absurd ⟨hepoch, hmapped⟩ hok
    · next hk =>
        split
        · rw [Function.update_of_ne hk]
        · rfl

/-- Only inserted keys get a local id. -/
theorem reverse_subset_handle {p : ShardProcess} {keys : List Key} (hsub : p.idMap.reverse ⊆ keys)
    {rpc : Rpc} (hrpc : insertedKeys [rpc] ⊆ keys) : (p.handle m rpc).idMap.reverse ⊆ keys := by
  cases rpc with
  | insert level request =>
      rw [ShardProcess.handle, ShardProcess.insert]
      split
      · split
        · exact hsub
        · rcases p.idMap.assign_cases request.externalId with ⟨hrev, -⟩ | ⟨hrev, -⟩
          · dsimp only
            rw [hrev]
            exact hsub
          · dsimp only
            rw [hrev]
            exact List.append_subset.mpr ⟨hsub, hrpc⟩
      · exact hsub
  | delete request =>
      rw [ShardProcess.handle, ShardProcess.delete]
      split
      · exact hsub
      · split <;> exact hsub
  | listLocalIds => exact hsub
  | getVector externalId => exact hsub

/-- As many local ids as different keys. -/
theorem length_reverse_lt {idMap : IdMapStore} {keys : List Key}
    (hkeys : keys.dedup.length < 2 ^ 31) (hsub : idMap.reverse ⊆ keys) :
    idMap.reverse.length < 2 ^ 31 := by
  have hle := (List.subperm_of_subset idMap.nodup
    (fun k hk => List.mem_dedup.mpr (hsub hk))).length_le
  omega

/-- One request whose handler returns: the process stays related to an abstract shard that
holds the recorded map. -/
theorem Refines.handle {p : ShardProcess} {s : ShardServer} (h : Refines p s)
    (hkeys : p.idMap.reverse.length < 2 ^ 31) {last : Key → Option Floats}
    (hlast : s.liveVector = last) {rpc : Rpc} (hreturns : p.HandlerReturns rpc) :
    ∃ s', Refines (p.handle m rpc) s' ∧ s'.liveVector = record m p rpc last := by
  cases rpc with
  | insert level request =>
      rcases h.insert m hkeys level hreturns with ⟨hresponse, hnext⟩
      refine ⟨_, hnext, ?_⟩
      rw [liveVector_eq_insert hlast, record, hresponse]
      rfl
  | delete request =>
      rcases h.delete hkeys request with ⟨hresponse, hnext⟩
      refine ⟨_, hnext, ?_⟩
      rw [liveVector_eq_delete hlast, record, hresponse]
  | listLocalIds => exact ⟨s, h, hlast⟩
  | getVector externalId => exact ⟨s, h, hlast⟩

/-- A sequence of requests on keys of a list of fewer than {lit}`2 ^ 31` different ones. -/
theorem Refines.run {rpcs : List Rpc} {q q' : ShardProcess × (Key → Option Floats)}
    (hrun : Exec (instrument (ShardProcess.serve m) (record m))
      (fun q rpc => q.1.HandlerReturns rpc) q rpcs q') {s : ShardServer} (h : Refines q.1 s)
    (hlast : s.liveVector = q.2) {keys : List Key} (hkeys : keys.dedup.length < 2 ^ 31)
    (hsub : q.1.idMap.reverse ⊆ keys) (hrpcs : insertedKeys rpcs ⊆ keys) :
    ∃ s', Refines q'.1 s' ∧ q'.1.idMap.reverse.length < 2 ^ 31 ∧ s'.liveVector = q'.2 := by
  induction hrun generalizing s with
  | nil q => exact ⟨s, h, length_reverse_lt hkeys hsub, hlast⟩
  | @cons q q₁ q' rpc rpcs hok hstep _ ih =>
      rcases instrument_eq_some.mp hstep with ⟨hnext, hlast₁⟩
      have hprocess := Option.some.inj hnext
      have hsplit : insertedKeys ([rpc] ++ rpcs) = insertedKeys [rpc] ++ insertedKeys rpcs :=
        List.filterMap_append
      rw [List.singleton_append] at hsplit
      rw [hsplit, List.append_subset] at hrpcs
      rcases h.handle (m := m) (length_reverse_lt hkeys hsub) hlast hok with ⟨s₁, hs₁, hmap⟩
      rw [hprocess] at hs₁
      apply ih hs₁ (hmap.trans hlast₁.symm) _ hrpcs.2
      rw [← hprocess]
      exact reverse_subset_handle hsub hrpcs.1

/-- A process that is related to an abstract shard holds the map of that shard. -/
theorem Refines.holdsMap {p : ShardProcess} {s : ShardServer} (h : Refines p s)
    (hkeys : p.idMap.reverse.length < 2 ^ 31) : HoldsMap m p s.liveVector where
  ok_iff k := by
    rw [h.getVector hkeys, ShardServer.liveVector]
    split <;> simp_all
  vector k v hv := by
    rw [ShardServer.liveVector] at hv
    rw [h.getVector hkeys]
    split at hv
    · exact Option.some.inj hv
    · cases hv
  mem_iff k := by
    rw [h.listLocalIds hkeys, ShardServer.mem_listLocalIds]
  nodup := by
    rw [h.listLocalIds hkeys, ShardServer.listLocalIds]
    exact s.idMap.nodup.filter _
  insert_rejected level request hbad := by
    rw [ShardProcess.insert]
    split
    · next hdim =>
        have hstale := hbad.resolve_left (not_not.mpr hdim)
        rcases ShardServer.checkAndAdvanceEpoch_of_lt hstale with ⟨message, hmessage⟩
        rw [hmessage]
        exact ⟨message, rfl⟩
    · exact ⟨_, rfl⟩
  delete_rejected request hstale := by
    rcases ShardServer.checkAndAdvanceEpoch_of_lt hstale with ⟨message, hmessage⟩
    rw [ShardProcess.delete, hmessage]
    exact ⟨message, rfl⟩

/-- After every sequence of requests on a new shard whose handlers return, with fewer than
{lit}`2 ^ 31` different keys, the shard holds the map of the last accepted writes. -/
theorem shard_is_map {storageSize : Nat} (hsize : headerSize ≤ storageSize) {rpcs : List Rpc}
    {q : ShardProcess × (Key → Option Floats)}
    (hrun : Exec (instrument (ShardProcess.serve m) (record m))
      (fun q rpc => q.1.HandlerReturns rpc) (ShardProcess.create storageSize, fun _ => none) rpcs q)
    (hkeys : (insertedKeys rpcs).dedup.length < 2 ^ 31) : HoldsMap m q.1 q.2 := by
  rcases Refines.run hrun (refines_create hsize) rfl hkeys (List.nil_subset _)
    (List.Subset.refl _) with ⟨s, hs, hlength, hlast⟩
  rw [← hlast]
  exact hs.holdsMap hlength

end Run

instance (p : ShardProcess) (request : InsertRequest) : Decidable (p.Returns request) :=
  match hepoch : checkAndAdvanceEpoch p.currentEpoch request.epoch with
  | .error _ => .isTrue fun _ epoch h => by rw [hepoch] at h; cases h
  | .ok _ =>
      decidable_of_iff (request.vector.length = vectorDim →
          p.index.InsertReturns (uint32 (p.idMap.assign request.externalId).1) request.metadata)
        ⟨fun h hdim _ _ => h hdim, fun h hdim => h hdim _ hepoch⟩

instance (p : ShardProcess) (rpc : Rpc) : Decidable (p.HandlerReturns rpc) :=
  match rpc with
  | .insert _ request => inferInstanceAs (Decidable (p.Returns request))
  | .delete _ => inferInstanceAs (Decidable True)
  | .listLocalIds => inferInstanceAs (Decidable True)
  | .getVector _ => inferInstanceAs (Decidable True)

/-- The distance of equal and of different vectors. -/
def discrete : Metric Vec Int :=
  ⟨fun v w => if v = w then 0 else 1, -1⟩

/-- A key that is inserted, deleted and inserted again with metadata, and a request with a stale
epoch in between. -/
theorem shard_is_map_reinserted :
    ∃ q, Exec (instrument (ShardProcess.serve discrete) (record discrete))
        (fun q rpc => q.1.HandlerReturns rpc)
        (ShardProcess.create (100 * 1024 * 1024), fun _ => none)
        [.insert 0 ⟨[97], List.replicate 128 5, [], 2⟩, .delete ⟨[97], 3⟩,
          .insert 0 ⟨[97], List.replicate 128 6, [], 1⟩,
          .insert 1 ⟨[97], List.replicate 128 7, [65], 3⟩] q ∧
      HoldsMap discrete q.1 q.2 ∧ q.2 [97] = some (List.replicate 128 7) ∧
      q.1.listLocalIds = [[97]] := by
  have hrun := Exec.of_guardedRun (instrument (ShardProcess.serve discrete) (record discrete))
    (fun q rpc => q.1.HandlerReturns rpc)
    (ShardProcess.create (100 * 1024 * 1024), fun _ => none)
    [.insert 0 ⟨[97], List.replicate 128 5, [], 2⟩, .delete ⟨[97], 3⟩,
      .insert 0 ⟨[97], List.replicate 128 6, [], 1⟩,
      .insert 1 ⟨[97], List.replicate 128 7, [65], 3⟩] (by decide +kernel)
  exact ⟨_, hrun, shard_is_map (by decide) hrun (by decide), by decide +kernel,
    by decide +kernel⟩

/-! ## An insert that throws -/

/-- The insert of the {lit}`i`-th of the numbered keys, without metadata. -/
def numberedInsert (i : Nat) : Rpc :=
  .insert 0 ⟨leBytes 5 i, List.replicate vectorDim 0, [], 0⟩

/-- An insert of another key, with one byte of metadata. -/
def labelledInsert : InsertRequest :=
  ⟨[65], List.replicate vectorDim 0, [65], 0⟩

/-- A process that took the first numbered keys, all without metadata. -/
structure Numbered (p : ShardProcess) (i : Nat) : Prop where
  reverse : p.idMap.reverse = Cluster.IdMapStore.numberedIds i
  epoch : p.currentEpoch = 0
  metadata : p.index.metadataStorage = {}
  storage : headerSize + i * nodeSize ≤ p.index.storageSize

theorem IdMapStore.assign_of_notMem {idMap : IdMapStore} {k : Key} (hk : k ∉ idMap.reverse) :
    (idMap.assign k).1 = idMap.reverse.length ∧
      (idMap.assign k).2.reverse = idMap.reverse ++ [k] := by
  rw [IdMapStore.assign, dif_neg hk]
  exact ⟨rfl, rfl⟩

namespace Numbered

variable {p : ShardProcess} {i : Nat}

theorem length_reverse (h : Numbered p i) : p.idMap.reverse.length = i := by
  rw [h.reverse, Cluster.IdMapStore.numberedIds_length]

theorem insert (h : Numbered p i) (hi : i < 2 ^ 31) :
    Numbered (p.handle discrete (numberedInsert i)) (i + 1) := by
  have hfresh : leBytes 5 i ∉ p.idMap.reverse := by
    have hnodup := Cluster.IdMapStore.numberedIds_nodup (n := i + 1) (by omega)
    rw [Cluster.IdMapStore.numberedIds_succ, ← List.concat_eq_append, List.nodup_concat] at hnodup
    rw [h.reverse]
    exact hnodup.1
  rcases IdMapStore.assign_of_notMem hfresh with ⟨hid, hrev⟩
  rw [h.length_reverse] at hid
  have hepoch : checkAndAdvanceEpoch p.currentEpoch 0 = .ok 0 := by
    rw [h.epoch]
    rfl
  rw [numberedInsert, ShardProcess.handle, ShardProcess.insert, dif_pos List.length_replicate,
    hepoch]
  dsimp only
  rw [hid, uint32_of_lt hi]
  refine ⟨?_, rfl, ?_, ?_⟩
  · rw [hrev, h.reverse, Cluster.IdMapStore.numberedIds_succ]
  · have hsame : p.index.metadataStorage.saveChecked i [] = p.index.metadataStorage := by
      rw [MetadataHandler.saveChecked, if_pos (.inl rfl), MetadataHandler.saveMetadata, if_pos rfl]
    rw [HNSW.insertSaved]
    dsimp only
    rw [hsame, ite_self]
    exact h.metadata
  · have hroom := Refines.le_storageSize_expandStorage (le_refl i) h.storage
    have hmax : max i (i + 1) = i + 1 := by omega
    rw [hmax] at hroom
    exact hroom.trans_eq (HNSW.storageSize_insertCall ..).symm

/-- The next insert has metadata: from id {lit}`2 ^ 31 - 1000` on it throws, and the vector is
found. -/
theorem throws (h : Numbered p i) (hi : i < 2 ^ 31) (hover : 2 ^ 31 ≤ i + 1000) :
    (p.insert discrete 0 labelledInsert).1 = none ∧
      ((p.insert discrete 0 labelledInsert).2.getVector [65]).ok = true := by
  have hfresh : [65] ∉ p.idMap.reverse := by
    rw [h.reverse]
    intro hmem
    have hlength := Cluster.IdMapStore.length_of_mem_numberedIds hmem
    rw [List.length_singleton] at hlength
    omega
  rcases IdMapStore.assign_of_notMem hfresh with ⟨hid, -⟩
  rw [h.length_reverse] at hid
  have hself := p.idMap.lookup_assign_self [65]
  rw [hid] at hself
  have hepoch : checkAndAdvanceEpoch p.currentEpoch 0 = .ok 0 := by
    rw [h.epoch]
    rfl
  have hthrows : ¬ p.index.InsertReturns i [65] := by
    rintro ⟨-, hempty | ⟨-, hplace | hroom⟩⟩
    · cases hempty
    · rw [h.metadata] at hplace
      exact Nat.not_lt_zero i hplace
    · omega
  rw [labelledInsert, ShardProcess.insert, dif_pos List.length_replicate, hepoch]
  dsimp only
  rw [hid, uint32_of_lt hi]
  refine ⟨if_neg hthrows, ?_⟩
  have hroom := Refines.le_storageSize_expandStorage (le_refl i) h.storage
  have hmax : max i (i + 1) = i + 1 := by omega
  rw [hmax, Nat.add_mul, Nat.one_mul] at hroom
  have hslot := HNSW.getNode_insertCall discrete p.index 0
    ⟨List.replicate vectorDim 0, List.length_replicate⟩ i [65] i
  have hsize := HNSW.storageSize_insertCall discrete p.index 0
    ⟨List.replicate vectorDim 0, List.length_replicate⟩ i [65]
  rw [if_pos rfl, if_pos rfl] at hslot
  have hin : (p.index.insertSaved discrete 0
      ⟨List.replicate vectorDim 0, List.length_replicate⟩ i [65]).inStorage i = true := by
    rw [HNSW.inStorage, decide_eq_true_eq]
    exact le_trans (by omega) (hroom.trans_eq hsize.symm)
  have hlive : ((p.index.insertSaved discrete 0
      ⟨List.replicate vectorDim 0, List.length_replicate⟩ i [65]).getNode i).isDeleted = false :=
    hslot.2
  rw [ShardProcess.getVector, ShardProcess.lookup]
  dsimp only
  rw [hself, Option.map_some, uint32_of_lt hi]
  dsimp only
  rw [HNSW.getVectorData, if_pos hin, hlive]
  rfl

end Numbered

/-- The numbered keys are inserted one after the other. -/
theorem numbered_run {n : Nat} (hn : n ≤ 2 ^ 31) :
    ∃ q, Exec (instrument (ShardProcess.serve discrete) (record discrete))
        (fun _ rpc => rpc.LevelBelow) (ShardProcess.create (100 * 1024 * 1024), fun _ => none)
        ((List.range n).map numberedInsert) q ∧
      Numbered q.1 n ∧ q.2 [65] = none := by
  induction n with
  | zero => exact ⟨_, .nil _, ⟨rfl, rfl, rfl, by decide⟩, rfl⟩
  | succ n ih =>
      rcases ih (by omega) with ⟨q, hrun, hnumbered, hnone⟩
      rw [List.range_succ, List.map_append, List.map_singleton]
      have hlevel : (numberedInsert n).LevelBelow := show 0 < maxLayers by decide
      refine ⟨_, exec_append hrun hlevel, ?_, ?_⟩
      · dsimp only
        exact hnumbered.insert (by omega)
      · have hne : ([65] : Key) ≠ leBytes 5 n := by
          intro heq
          have hlength := congrArg List.length heq
          rw [NanoDB.Lib.leBytes_length] at hlength
          contradiction
        rw [numberedInsert, record]
        split
        · exact (Function.update_of_ne hne _ _).trans hnone
        · exact hnone

/-- After {lit}`2 ^ 31 - 1000` keys without metadata, an insert of another key with metadata is not
accepted, and {lit}`GetVector` finds it. -/
theorem unaccepted_insert_found :
    ¬ ∀ (rpcs : List Rpc) (q : ShardProcess × (Key → Option Floats)),
      Exec (instrument (ShardProcess.serve discrete) (record discrete))
        (fun _ rpc => rpc.LevelBelow) (ShardProcess.create (100 * 1024 * 1024), fun _ => none)
        rpcs q →
      (insertedKeys rpcs).dedup.length < 2 ^ 31 → HoldsMap discrete q.1 q.2 := by
  intro hall
  rcases numbered_run (n := 2 ^ 31 - 1000) (by norm_num) with ⟨q, hrun, hnumbered, hnone⟩
  rcases hnumbered.throws (by norm_num) (by norm_num) with ⟨hthrown, hfound⟩
  have hkeys : (insertedKeys ((List.range (2 ^ 31 - 1000)).map numberedInsert ++
      [.insert 0 labelledInsert])).dedup.length < 2 ^ 31 := by
    refine lt_of_le_of_lt (List.dedup_sublist _).length_le ?_
    refine lt_of_le_of_lt (List.length_filterMap_le _ _) ?_
    rw [List.length_append, List.length_map, List.length_range, List.length_singleton]
    norm_num
  have hlevel : (Rpc.insert 0 labelledInsert).LevelBelow := by decide
  have hmap := hall _ _ (exec_append hrun hlevel) hkeys
  have hok := hmap.ok_iff [65]
  dsimp only at hok
  rw [ShardProcess.handle, record, hthrown, Option.any_none, if_neg Bool.false_ne_true,
    hnone] at hok
  cases hok.mp hfound

end NanoDB.Shard
