import NanoDB.Lib.Execution
import NanoDB.Shard.Refinement

/-!
# A kill between the id map and the index

{lit}`Insert` first gives the key a local id, which is written to the id map file, and then
writes the vector into the slot of that id.  A process that is killed between the two
leaves a key whose slot was never written.  The slot is zero bytes, or lies beyond the end
of the file, and neither is a tombstone.

A restart opens the files again: the id map, the index file with its header, and the
metadata file.  The epoch is not persisted.

Main results:

- Theorem {lit}`represents_assign`: the id map of the process is the one of
  {lit}`NanoDB.Cluster.IdMapStore`, and a restart reads it back.
- Theorem {lit}`no_phantom`: as long as every killed insert is of a key that had a local id
  before, only vectors that were written and not deleted are listed and found.
- Theorem {lit}`phantom_of_killed_insert`: a killed insert of any other key leaves a phantom.
-/

namespace NanoDB.Shard

open Lib (Exec PriorityQueue instrument instrument_eq_some guardedRun)
open NanoDB.Index (HNSW Metric headerSize nodeSize maxLayers vectorDim)
open Cluster (Key idFormat)

/-! ## The id map and its file -/

section Represents

variable {store : Cluster.IdMapStore} {idMap : IdMapStore}

/-- A store with its file that holds an id map. -/
structure Represents (store : Cluster.IdMapStore) (idMap : IdMapStore) : Prop where
  wellFormed : store.WellFormed
  reverse : store.reverse = idMap.reverse

/-- Both find a key at the same local id. -/
theorem represents_lookup (h : Represents store idMap) (k : Key) :
    store.lookup k = (idMap.lookup k).map uint32 := by
  cases hid : idMap.lookup k with
  | none =>
      have hmem : k ∉ store.reverse := by
        rw [h.reverse]
        intro hmem
        rcases List.mem_iff_getElem?.mp hmem with ⟨i, hi⟩
        rw [IdMapStore.lookup_eq_some_iff.mpr hi] at hid
        contradiction
      exact h.wellFormed.lookup_eq_none_iff.mpr hmem
  | some i =>
      have hi := IdMapStore.lookup_eq_some_iff.mp hid
      rw [← h.reverse] at hi
      rcases Cluster.IdMapStore.exists_lookup_forwardOf hi with ⟨j, -, hj, hlookup⟩
      have hij : j = i := by
        rw [List.getElem?_eq_some_iff] at hi hj
        rcases hi with ⟨_, hi⟩
        rcases hj with ⟨_, hj⟩
        exact (List.getElem_inj h.wellFormed.nodup).mp (hj.trans hi.symm)
      rw [Cluster.IdMapStore.lookup, h.wellFormed.forward, hlookup, hij]
      rfl

/-- Both assign the same local id, and still hold the same ids. -/
theorem represents_assign (h : Represents store idMap) {k : Key} (hk : k.length < 2 ^ 32) :
    (store.assign k).1.1 = uint32 (idMap.assign k).1 ∧
      Represents (store.assign k).2 (idMap.assign k).2 := by
  have hwf := h.wellFormed.assign hk
  by_cases hmem : k ∈ idMap.reverse
  · have hlookup := represents_lookup h k
    have hself := idMap.lookup_assign_self k
    have hsame : (idMap.assign k).2 = idMap := by
      rw [IdMapStore.assign, dif_pos hmem]
    rw [hsame] at hself ⊢
    rw [hself] at hlookup
    rw [h.wellFormed.assign_known (h.reverse ▸ hmem)]
    refine ⟨?_, h⟩
    rw [Cluster.IdMapStore.assign, hlookup]
    rfl
  · have hfresh := h.wellFormed.assign_fresh (h.reverse ▸ hmem)
    rw [IdMapStore.assign, dif_neg hmem]
    refine ⟨?_, hwf, ?_⟩
    · rw [hfresh, Cluster.IdMapStore.size, h.reverse]
      rfl
    · rw [hfresh, h.reverse]
      rfl

end Represents

/-- The id map that is read back from the file; {lean}`none` if two records are the same,
which takes keys of {lit}`2 ^ 32` bytes. -/
def IdMapStore.reopen (idMap : IdMapStore) : Option IdMapStore :=
  let ids := (Cluster.IdMapStore.openFile (idFormat.encodeAll idMap.reverse)).reverse
  if h : ids.Nodup then some ⟨ids, h⟩ else none

theorem IdMapStore.reopen_of_short {idMap : IdMapStore}
    (hshort : ∀ k ∈ idMap.reverse, k.length < 2 ^ 32) : idMap.reopen = some idMap := by
  have hwf : Cluster.IdMapStore.WellFormed
      (Cluster.IdMapStore.ofIds (idFormat.encodeAll idMap.reverse) idMap.reverse) :=
    ⟨rfl, rfl, idMap.nodup, hshort⟩
  have hids : (Cluster.IdMapStore.openFile (idFormat.encodeAll idMap.reverse)).reverse =
      idMap.reverse := congrArg Cluster.IdMapStore.reverse hwf.reopen
  rw [IdMapStore.reopen]
  simp only [hids]
  exact dif_pos idMap.nodup

/-! ## Restarts -/

/-- The length that {lit}`shard_node_main` opens the index file with. -/
def minFileSize : Nat := 100 * 1024 * 1024

namespace ShardProcess

/-- A new process on the same files. -/
def restart (p : ShardProcess) : Option ShardProcess :=
  p.idMap.reopen.map fun idMap => { idMap := idMap, index := p.index.reopen minFileSize }

/-- An {lit}`Insert` that is killed after {lit}`assign`, and the process after it. -/
def killedInsert (p : ShardProcess) (request : InsertRequest) : Option ShardProcess :=
  if request.vector.length = vectorDim then
    match checkAndAdvanceEpoch p.currentEpoch request.epoch with
    | .error _ => none
    | .ok _ => restart { p with idMap := (p.idMap.assign request.externalId).2 }
  else none

end ShardProcess

/-- Whether an {lit}`Insert` gets as far as the index.  It writes the slot there first, also if
the call throws afterwards. -/
def ShardProcess.writesSlot (p : ShardProcess) (request : InsertRequest) : Bool :=
  request.vector.length = vectorDim && (checkAndAdvanceEpoch p.currentEpoch request.epoch).isOk

/-- What can happen to a shard process. -/
inductive ShardAction
  | rpc (rpc : Rpc)
  | killedInsert (request : InsertRequest)
  | restart

section Runs

variable {δ : Type*} [Preorder δ] [DecidableLT δ] [PriorityQueue (Index.Result δ)]
  (m : Metric Vec δ)

def ShardProcess.step (p : ShardProcess) : ShardAction → Option ShardProcess
  | .rpc rpc => some (p.handle m rpc)
  | .killedInsert request => p.killedInsert request
  | .restart => p.restart

/-- The vector of the last completed write of each key into its slot that was not deleted
afterwards. -/
def trackWritten (p : ShardProcess) : ShardAction → (Key → Option Floats) → Key → Option Floats
  | .rpc (.insert _ request), last =>
      if p.writesSlot request then Function.update last request.externalId (some request.vector)
      else last
  | .rpc (.delete request), last => record m p (.delete request) last
  | .rpc .listLocalIds, last => last
  | .rpc (.getVector _), last => last
  | .killedInsert _, last => last
  | .restart, last => last

/-- A killed insert is of a key that has a local id, and any other insert is of a key for
which there is one, with a level that has a row in the neighbour arrays. -/
def KillsKnownOnly (p : ShardProcess) : ShardAction → Prop
  | .rpc (.insert level request) =>
      level < maxLayers ∧ request.externalId.length < 2 ^ 32 ∧
        (request.externalId ∈ p.idMap.reverse ∨ p.idMap.reverse.length < 2 ^ 32)
  | .killedInsert request => request.externalId ∈ p.idMap.reverse
  | _ => True

/-! ## Slots and writes -/

/-- Every key with a local id was written and not deleted since, or its slot has the
tombstone.  The slots behind the last local id were never written. -/
structure Accounted (p : ShardProcess) (last : Key → Option Floats) : Prop where
  count : p.idMap.reverse.length ≤ 2 ^ 32
  short : ∀ k ∈ p.idMap.reverse, k.length < 2 ^ 32
  storage : headerSize + p.idMap.reverse.length * nodeSize ≤ p.index.storageSize
  slots : ∀ i k, p.idMap.lookup k = some i →
    (last k).isSome = true ∨ (p.index.getNode i).isDeleted = true
  unmapped : ∀ k, p.idMap.lookup k = none → last k = none
  unwritten : ∀ i, p.idMap.reverse.length ≤ i → (p.index.getNode i).isDeleted = false

namespace Accounted

variable {p p' : ShardProcess} {last : Key → Option Floats}

theorem uint32_lookup (h : Accounted p last) {k : Key} {i : Nat}
    (hi : p.idMap.lookup k = some i) : uint32 i = i :=
  Nat.mod_eq_of_lt (lt_of_lt_of_le (IdMapStore.lookup_lt hi) h.count)

theorem inStorage (h : Accounted p last) {k : Key} {i : Nat} (hi : p.idMap.lookup k = some i) :
    p.index.inStorage i = true := by
  have hlt := IdMapStore.lookup_lt hi
  have hstorage := h.storage
  have hmul : (i + 1) * nodeSize ≤ p.idMap.reverse.length * nodeSize :=
    Nat.mul_le_mul_right _ hlt
  rw [Nat.add_mul, Nat.one_mul] at hmul
  rw [HNSW.inStorage, decide_eq_true_eq]
  omega

/-- What is found was written. -/
theorem written_of_getVector (h : Accounted p last) {k : Key} (hok : (p.getVector k).ok = true) :
    (last k).isSome = true := by
  rw [ShardProcess.getVector, ShardProcess.lookup] at hok
  cases hid : p.idMap.lookup k with
  | none =>
      rw [hid] at hok
      contradiction
  | some i =>
      rw [hid, Option.map_some, h.uint32_lookup hid] at hok
      rcases h.slots i k hid with hwritten | hdeleted
      · exact hwritten
      · dsimp only at hok
        rw [HNSW.getVectorData, if_pos (h.inStorage hid), if_pos hdeleted] at hok
        contradiction

/-- What is listed was written. -/
theorem written_of_listLocalIds (h : Accounted p last) {k : Key} (hk : k ∈ p.listLocalIds) :
    (last k).isSome = true := by
  rw [ShardProcess.listLocalIds, List.mem_filter, ShardProcess.lookup] at hk
  cases hid : p.idMap.lookup k with
  | none => simp [hid] at hk
  | some i =>
      rw [hid, Option.map_some, h.uint32_lookup hid] at hk
      rcases h.slots i k hid with hwritten | hdeleted
      · exact hwritten
      · have hlisted := hk.2
        dsimp only at hlisted
        rw [HNSW.isDeleted, if_pos (h.inStorage hid), hdeleted] at hlisted
        contradiction

/-- The epoch plays no part. -/
theorem setEpoch (h : Accounted p last) (epoch : Nat) :
    Accounted { p with currentEpoch := epoch } last :=
  ⟨h.count, h.short, h.storage, h.slots, h.unmapped, h.unwritten⟩

theorem restart (h : Accounted p last) (hrestart : p.restart = some p') : Accounted p' last := by
  rw [ShardProcess.restart, IdMapStore.reopen_of_short h.short, Option.map_some,
    Option.some_inj] at hrestart
  subst hrestart
  exact ⟨h.count, h.short, h.storage.trans (le_max_left ..), h.slots, h.unmapped, h.unwritten⟩

theorem killedInsert (h : Accounted p last) {request : InsertRequest}
    (hknown : request.externalId ∈ p.idMap.reverse)
    (hkilled : p.killedInsert request = some p') : Accounted p' last := by
  have hsame : (p.idMap.assign request.externalId).2 = p.idMap := by
    rw [IdMapStore.assign, dif_pos hknown]
  rw [ShardProcess.killedInsert, hsame] at hkilled
  split at hkilled
  · split at hkilled
    · contradiction
    · exact h.restart hkilled
  · contradiction

/-- A completed write. -/
theorem write (h : Accounted p last) {level epoch : Nat} {vector : Vec} {k : Key}
    (metadata : Raft.Bytes) (hk : k.length < 2 ^ 32)
    (hroom : k ∈ p.idMap.reverse ∨ p.idMap.reverse.length < 2 ^ 32) :
    Accounted
      { idMap := (p.idMap.assign k).2
        index := p.index.insertSaved m level vector (uint32 (p.idMap.assign k).1) metadata
        currentEpoch := epoch }
      (Function.update last k (some vector.1)) := by
  rcases p.idMap.assign_length k with ⟨hle, hlen⟩
  have hlt : (p.idMap.assign k).1 < 2 ^ 32 := by
    rcases hroom with hknown | hroom
    · have hsame : (p.idMap.assign k).2 = p.idMap := by
        rw [IdMapStore.assign, dif_pos hknown]
      have hcount := h.count
      rw [hsame] at hlen
      omega
    · omega
  have hcount := h.count
  have hcast : uint32 (p.idMap.assign k).1 = (p.idMap.assign k).1 := Nat.mod_eq_of_lt hlt
  have hslot : ∀ i, i ≠ (p.idMap.assign k).1 →
      ((p.index.insertSaved m level vector (p.idMap.assign k).1 metadata).getNode i).isDeleted =
        (p.index.getNode i).isDeleted := by
    intro i hi
    refine (HNSW.getNode_insertCall m p.index level vector _ metadata i).2.trans ?_
    rw [if_neg hi]
  rw [hcast]
  refine ⟨?_, ?_, ?_, ?_, ?_, ?_⟩
  · dsimp only
    omega
  · intro x hx
    rcases p.idMap.assign_cases k with ⟨hrev, -⟩ | ⟨hrev, -⟩
    · exact h.short x (hrev ▸ hx)
    · dsimp only at hx
      rw [hrev, List.mem_append, List.mem_singleton] at hx
      rcases hx with hx | rfl
      · exact h.short x hx
      · exact hk
  · dsimp only
    rw [hlen]
    exact (Refines.le_storageSize_expandStorage hle h.storage).trans_eq
      (HNSW.storageSize_insertCall ..).symm
  · intro i x hx
    by_cases hxk : x = k
    · rw [hxk, Function.update_self]
      exact .inl rfl
    · have hi : i ≠ (p.idMap.assign k).1 := by
        intro hi
        exact hxk (IdMapStore.lookup_inj hx (hi ▸ p.idMap.lookup_assign_self k))
      dsimp only at hx ⊢
      rw [IdMapStore.lookup_assign_of_ne _ hxk] at hx
      rw [Function.update_of_ne hxk, hslot i hi]
      exact h.slots i x hx
  · intro x hx
    have hxk : x ≠ k := by
      rintro rfl
      rw [p.idMap.lookup_assign_self x] at hx
      contradiction
    dsimp only at hx
    rw [IdMapStore.lookup_assign_of_ne _ hxk] at hx
    rw [Function.update_of_ne hxk]
    exact h.unmapped x hx
  · intro i hi
    dsimp only at hi ⊢
    rw [hslot i (by omega)]
    exact h.unwritten i (by omega)

/-- A completed deletion. -/
theorem erase (h : Accounted p last) {k : Key} {i : Nat} (epoch : Nat)
    (hi : p.idMap.lookup k = some i) :
    Accounted { p with index := p.index.deleteVector i, currentEpoch := epoch }
      (Function.update last k none) := by
  have hlt := IdMapStore.lookup_lt hi
  rcases p.index.deleteVector_keeps i with ⟨-, -, -, hsize, -⟩
  refine ⟨h.count, h.short, ?_, ?_, ?_, ?_⟩
  · dsimp only
    rw [hsize]
    exact h.storage
  · intro j x hx
    dsimp only at hx ⊢
    rw [HNSW.getNode_deleteVector]
    by_cases hj : j = i
    · rw [if_pos ⟨hj, h.inStorage hi⟩]
      exact .inr rfl
    · have hxk : x ≠ k := by
        rintro rfl
        exact hj (Option.some_inj.mp (hx.symm.trans hi))
      rw [if_neg fun hc => hj hc.1, Function.update_of_ne hxk]
      exact h.slots j x hx
  · intro x hx
    by_cases hxk : x = k
    · rw [hxk, Function.update_self]
    · rw [Function.update_of_ne hxk]
      exact h.unmapped x hx
  · intro j hj
    dsimp only at hj ⊢
    rw [HNSW.getNode_deleteVector, if_neg fun hc => by omega]
    exact h.unwritten j hj

/-- One request. -/
theorem handle (h : Accounted p last) {rpc : Rpc} (hok : KillsKnownOnly p (.rpc rpc)) :
    Accounted (p.handle m rpc) (trackWritten m p (.rpc rpc) last) := by
  cases rpc with
  | insert level request =>
      rcases hok with ⟨-, hshort, hroom⟩
      rw [ShardProcess.handle, trackWritten, ShardProcess.writesSlot, ShardProcess.insert]
      split
      · next hdim =>
          rw [decide_eq_true hdim, Bool.true_and]
          cases checkAndAdvanceEpoch p.currentEpoch request.epoch with
          | error message => exact h
          | ok epoch => exact h.write m request.metadata hshort hroom
      · next hdim =>
          rw [decide_eq_false hdim, Bool.false_and]
          exact h
  | delete request =>
      rw [ShardProcess.handle, trackWritten, record, ShardProcess.delete]
      cases checkAndAdvanceEpoch p.currentEpoch request.epoch with
      | error message => exact h
      | ok epoch =>
          dsimp only
          rw [ShardProcess.lookup]
          cases hid : p.idMap.lookup request.externalId with
          | none => exact h.setEpoch epoch
          | some i =>
              rw [Option.map_some, h.uint32_lookup hid]
              exact h.erase epoch hid
  | listLocalIds => exact h
  | getVector externalId => exact h

/-- One action. -/
theorem step {act : ShardAction} (h : Accounted p last) (hok : KillsKnownOnly p act)
    (hstep : p.step m act = some p') : Accounted p' (trackWritten m p act last) := by
  cases act with
  | rpc rpc =>
      rw [ShardProcess.step, Option.some_inj] at hstep
      rw [← hstep]
      exact h.handle m hok
  | killedInsert request => exact h.killedInsert hok hstep
  | restart => exact h.restart hstep

end Accounted

/-- The shard after its first start. -/
def newShard : ShardProcess :=
  ShardProcess.create minFileSize

theorem accounted_newShard : Accounted newShard fun _ => none where
  count := Nat.zero_le _
  short k hk := absurd hk List.not_mem_nil
  storage := by decide
  slots i k hi := by cases hi
  unmapped k _ := rfl
  unwritten i _ := rfl

/-- What {lit}`GetVector` finds and {lit}`ListLocalIds` lists was written and not deleted
afterwards. -/
def NoPhantom (p : ShardProcess) (last : Key → Option Floats) : Prop :=
  ∀ k, (p.getVector k).ok = true ∨ k ∈ p.listLocalIds → (last k).isSome = true

/-- In every run in which each killed insert is of a key that has a local id. -/
theorem no_phantom {acts : List ShardAction} {q : ShardProcess × (Key → Option Floats)}
    (hrun : Exec (instrument (ShardProcess.step m) (trackWritten m))
      (fun q act => KillsKnownOnly q.1 act) (newShard, fun _ => none) acts q) :
    NoPhantom q.1 q.2 := by
  have haccounted : Accounted q.1 q.2 := by
    refine hrun.invariant (fun q => Accounted q.1 q.2) ?_ accounted_newShard
    intro q act q' h hok hstep
    rcases instrument_eq_some.mp hstep with ⟨hnext, hlast⟩
    rw [hlast]
    exact h.step m hok hnext
  rintro k (hok | hk)
  · exact haccounted.written_of_getVector hok
  · exact haccounted.written_of_listLocalIds hk

/-- A killed insert of a key that has no local id is listed at once. -/
theorem phantom_of_killed_insert {p p' : ShardProcess} {last : Key → Option Floats}
    (h : Accounted p last) {request : InsertRequest} (hshort : request.externalId.length < 2 ^ 32)
    (hnew : request.externalId ∉ p.idMap.reverse) (hroom : p.idMap.reverse.length < 2 ^ 32)
    (hkilled : p.killedInsert request = some p') :
    request.externalId ∈ p'.listLocalIds ∧ last request.externalId = none := by
  have hassign : p.idMap.assign request.externalId = (p.idMap.reverse.length,
      (p.idMap.assign request.externalId).2) := by
    rw [IdMapStore.assign, dif_neg hnew]
  have hrev : (p.idMap.assign request.externalId).2.reverse =
      p.idMap.reverse ++ [request.externalId] := by
    rw [IdMapStore.assign, dif_neg hnew]
  have hreopen : (p.idMap.assign request.externalId).2.reopen =
      some (p.idMap.assign request.externalId).2 := by
    apply IdMapStore.reopen_of_short
    intro k hk
    rw [hrev, List.mem_append, List.mem_singleton] at hk
    rcases hk with hk | rfl
    · exact h.short k hk
    · exact hshort
  have hself := p.idMap.lookup_assign_self request.externalId
  rw [congrArg Prod.fst hassign] at hself
  rw [ShardProcess.killedInsert] at hkilled
  split at hkilled
  · split at hkilled
    · contradiction
    · rw [ShardProcess.restart, hreopen, Option.map_some, Option.some_inj] at hkilled
      subst hkilled
      have hdeleted : (p.index.reopen minFileSize).isDeleted p.idMap.reverse.length = false := by
        rw [HNSW.isDeleted]
        split
        · exact h.unwritten _ le_rfl
        · rfl
      have hcast : uint32 p.idMap.reverse.length = p.idMap.reverse.length :=
        Nat.mod_eq_of_lt hroom
      constructor
      · rw [ShardProcess.listLocalIds, List.mem_filter, ShardProcess.lookup, hself,
          Option.map_some, hcast]
        dsimp only
        rw [hdeleted, hrev]
        exact ⟨List.mem_append_right _ (List.mem_singleton_self _), rfl⟩
      · apply h.unmapped
        cases hid : p.idMap.lookup request.externalId with
        | none => rfl
        | some i =>
            exact absurd (List.mem_of_getElem? (IdMapStore.lookup_eq_some_iff.mp hid)) hnew
  · contradiction

end Runs

/-! ## Two histories -/

instance (p : ShardProcess) (act : ShardAction) : Decidable (KillsKnownOnly p act) :=
  match act with
  | .rpc (.insert level request) => inferInstanceAs (Decidable (level < maxLayers ∧
      request.externalId.length < 2 ^ 32 ∧
        (request.externalId ∈ p.idMap.reverse ∨ p.idMap.reverse.length < 2 ^ 32)))
  | .rpc (.delete _) => .isTrue trivial
  | .rpc .listLocalIds => .isTrue trivial
  | .rpc (.getVector _) => .isTrue trivial
  | .killedInsert request => inferInstanceAs (Decidable (request.externalId ∈ p.idMap.reverse))
  | .restart => .isTrue trivial

/-- An insert of a constant vector. -/
def insertOf (k : Key) (entry : UInt32) (epoch : Nat) : InsertRequest :=
  ⟨k, List.replicate vectorDim entry, [], epoch⟩

/-- A second insert of a key is killed; later the key is deleted and another one written. -/
def killedUpdate : List ShardAction :=
  [.rpc (.insert 0 (insertOf [97] 5 2)), .killedInsert (insertOf [97] 6 2),
    .rpc (.insert 1 (insertOf [98] 7 1)), .rpc (.delete ⟨[97], 2⟩),
    .killedInsert (insertOf [97] 8 3)]

theorem no_phantom_killedUpdate :
    ∃ q, Exec (instrument (ShardProcess.step discrete) (trackWritten discrete))
      (fun q act => KillsKnownOnly q.1 act) (newShard, fun _ => none) killedUpdate q ∧
      q.1.listLocalIds = [[98]] ∧ NoPhantom q.1 q.2 := by
  have hrun := Exec.of_guardedRun (instrument (ShardProcess.step discrete) (trackWritten discrete))
    (fun q act => KillsKnownOnly q.1 act) (newShard, fun _ => none) killedUpdate
    (by decide +kernel)
  exact ⟨_, hrun, by decide +kernel, no_phantom discrete hrun⟩

/-- The first insert of a key is killed, and a zero vector is listed and found. -/
theorem killed_insert_leaves_phantom :
    ∃ q, Exec (instrument (ShardProcess.step discrete) (trackWritten discrete))
      (fun _ _ => True) (newShard, fun _ => none) [.killedInsert (insertOf [97] 5 2)] q ∧
      q.1.listLocalIds = [[97]] ∧ (q.1.getVector [97]).vector = List.replicate vectorDim 0 ∧
      ¬ NoPhantom q.1 q.2 := by
  have hrun := Exec.of_guardedRun (instrument (ShardProcess.step discrete) (trackWritten discrete))
    (fun _ _ => True) (newShard, fun _ => none) [.killedInsert (insertOf [97] 5 2)]
    (by decide +kernel)
  refine ⟨_, hrun, by decide +kernel, by decide +kernel, ?_⟩
  intro hphantom
  exact absurd (hphantom [97] (.inr (by decide +kernel))) (by decide +kernel)

end NanoDB.Shard
