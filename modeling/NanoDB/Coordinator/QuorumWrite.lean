import NanoDB.Coordinator.Topology
import NanoDB.Lib.Execution
import NanoDB.Lib.Ledger
import NanoDB.Shard.Service

/-!
# Quorum writes to one shard

How a coordinator picks the replicas of a shard, fires a write at all of them and
counts the answers, and the system of one shard's replicas with any number of writes in
flight.  Every request is handled at most once, at any time after it was issued; the
caller sees the answer or a timeout.  A client reaches the process at its address.

Main results:

- Theorem {lit}`quorumResult_ok_iff`: what a confirmed write is.
- Theorem {lit}`ShardGroup.step_cases`: what one step of the replicas and the writes in
  flight can do.
- Theorem {lit}`Write.quorum_of_confirmed`: the replicas that acknowledged a confirmed
  write are a majority, its primary among them.
- Theorem {lit}`ShardGroup.Stored.step`: a replica keeps the keys whose inserts it
  acknowledged, as long as nobody deletes them.
-/

namespace NanoDB.Coordinator

open Raft (Bytes)
open Cluster (Key)
open Lib (Exec IsQuorum)
open Shard (ShardServer Floats)

/-! ## Choosing replicas -/

/-- Host and port. -/
abbrev Address := Bytes × Int

def ShardClient.address (sc : ShardClient) : Address :=
  (sc.host, sc.port)

/-- The replicas of a shard, primaries first.  The order inside each group, which
{lit}`std::sort` leaves open, is the order of the pool. -/
def replicasForShard (pool : List ShardClient) (shardId : Int) : List ShardClient :=
  (pool.filter fun sc => decide (sc.shardId = shardId) && sc.isPrimary) ++
    pool.filter fun sc => decide (sc.shardId = shardId) && !sc.isPrimary

def findPrimary (pool : List ShardClient) (shardId : Int) : Option ShardClient :=
  pool.find? fun sc => decide (sc.shardId = shardId) && sc.isPrimary

theorem mem_replicasForShard {pool : List ShardClient} {shardId : Int} {sc : ShardClient} :
    sc ∈ replicasForShard pool shardId ↔ sc ∈ pool ∧ sc.shardId = shardId := by
  rw [replicasForShard, List.mem_append, List.mem_filter, List.mem_filter]
  cases sc.isPrimary <;> simp

/-- Ordering the replicas of a shard only permutes them. -/
theorem replicasForShard_perm (pool : List ShardClient) (shardId : Int) :
    (replicasForShard pool shardId).Perm (pool.filter fun sc => decide (sc.shardId = shardId)) := by
  have hsplit := List.filter_append_perm (fun sc : ShardClient => sc.isPrimary)
    (pool.filter fun sc => decide (sc.shardId = shardId))
  rw [List.filter_filter, List.filter_filter] at hsplit
  rw [replicasForShard]
  refine List.Perm.trans (List.Perm.of_eq ?_) hsplit
  congr 1 <;> (apply List.filter_congr; intro sc _; rw [Bool.and_comm])

theorem findPrimary_mem {pool : List ShardClient} {shardId : Int} {sc : ShardClient}
    (h : findPrimary pool shardId = some sc) :
    sc ∈ pool ∧ sc.shardId = shardId ∧ sc.isPrimary = true := by
  have hfound := List.find?_some h
  rw [Bool.and_eq_true, decide_eq_true_iff] at hfound
  exact ⟨List.mem_of_find?_eq_some h, hfound.1, hfound.2⟩

theorem exists_findPrimary {pool : List ShardClient} {shardId : Int} {sc : ShardClient}
    (hsc : sc ∈ replicasForShard pool shardId) (hprimary : sc.isPrimary = true) :
    ∃ p, findPrimary pool shardId = some p := by
  rcases mem_replicasForShard.mp hsc with ⟨hpool, hid⟩
  apply Option.isSome_iff_exists.mp
  rw [findPrimary, List.find?_isSome]
  exact ⟨sc, hpool, by simp [hid, hprimary]⟩

/-! ## Counting answers -/

/-- The write that a request carries. -/
inductive WriteOp where
  | insert (externalId : Key) (vector : Floats) (metadata : Bytes)
  | delete (externalId : Key)
deriving DecidableEq, Repr

namespace WriteOp

def key : WriteOp → Key
  | insert externalId _ _ => externalId
  | delete externalId => externalId

/-- Handle the write at a replica; the flag is the answer. -/
def handle (op : WriteOp) (epoch : Nat) (s : ShardServer) : Bool × ShardServer :=
  match op with
  | insert externalId vector metadata =>
      let r := s.insert ⟨externalId, vector, metadata, epoch⟩
      (r.1.ok, r.2)
  | delete externalId =>
      let r := s.delete ⟨externalId, epoch⟩
      (r.1.ok, r.2)

/-- The epoch of a replica never goes back. -/
theorem currentEpoch_le_handle (op : WriteOp) (epoch : Nat) (s : ShardServer) :
    s.currentEpoch ≤ (op.handle epoch s).2.currentEpoch := by
  cases op with
  | insert k v m => exact ShardServer.currentEpoch_le_insert _
  | delete k => exact ShardServer.currentEpoch_le_delete _

/-- An acknowledged write has an epoch that was not behind, and the replica is at that
epoch afterwards. -/
theorem epoch_of_handle {op : WriteOp} {epoch : Nat} {s : ShardServer}
    (h : (op.handle epoch s).1 = true) :
    s.currentEpoch ≤ epoch ∧ (op.handle epoch s).2.currentEpoch = epoch := by
  cases op with
  | insert k v m =>
      have hok : (s.insert ⟨k, v, m, epoch⟩).1.ok = true := h
      refine ⟨(ShardServer.insert_ok_iff.mp hok).2, ?_⟩
      rw [handle, ShardServer.currentEpoch_insert, if_pos hok]
  | delete k =>
      have hok : (s.delete ⟨k, epoch⟩).1.ok = true := h
      have hle := (ShardServer.delete_ok_iff.mp hok).1
      refine ⟨hle, ?_⟩
      rw [handle, ShardServer.currentEpoch_delete]
      exact Nat.max_eq_right hle

/-- An acknowledged insert puts its vector there. -/
theorem liveVector_of_handle_insert {k : Key} {v : Floats} {m : Bytes} {epoch : Nat}
    {s : ShardServer} (h : ((insert k v m).handle epoch s).1 = true) :
    ((insert k v m).handle epoch s).2.liveVector k = some v := by
  rw [handle, ShardServer.liveVector_insert h, if_pos rfl]

/-- A write that is no delete of a live key leaves the key live. -/
theorem isSome_liveVector_handle {op : WriteOp} {epoch : Nat} {s : ShardServer} {k : Key}
    (hop : op ≠ .delete k) (hlive : (s.liveVector k).isSome = true) :
    ((op.handle epoch s).2.liveVector k).isSome = true := by
  cases op with
  | insert k' v m =>
      rw [handle]
      cases hok : (s.insert ⟨k', v, m, epoch⟩).1.ok with
      | false => rwa [ShardServer.insert_refused hok]
      | true =>
          rw [ShardServer.liveVector_insert hok]
          split
          · rfl
          · exact hlive
  | delete k' =>
      have hne : k ≠ k' := fun heq => hop (heq ▸ rfl)
      rw [handle]
      rcases Nat.lt_or_ge epoch s.currentEpoch with hlt | hge
      · rwa [ShardServer.delete_refused hlt]
      · rwa [ShardServer.liveVector_delete hge, if_neg hne]

end WriteOp

structure QuorumResult where
  ok : Bool
  acks : Nat
  needed : Nat
deriving DecidableEq, Repr

/-- The answer of the primary: of the last replica that is marked as one. -/
def primaryOk (answers : List (ShardClient × Bool)) : Bool :=
  ((answers.filter (·.1.isPrimary)).getLast?.map (·.2)).getD false

/-- Count the answers of the replicas: the primary and a majority must have
succeeded. -/
def quorumResult (answers : List (ShardClient × Bool)) : QuorumResult :=
  let acks := answers.countP (·.2)
  let needed := answers.length / 2 + 1
  ⟨primaryOk answers && decide (needed ≤ acks), acks, needed⟩

theorem quorumResult_ok_iff {answers : List (ShardClient × Bool)} :
    (quorumResult answers).ok = true ↔
      primaryOk answers = true ∧ answers.length < 2 * answers.countP (·.2) := by
  rw [quorumResult, Bool.and_eq_true, decide_eq_true_iff]
  apply and_congr_right
  intro _
  constructor <;> intro h <;> omega

/-- A success needs a primary. -/
theorem exists_primary_of_primaryOk {answers : List (ShardClient × Bool)}
    (h : primaryOk answers = true) : ∃ answer ∈ answers, answer.1.isPrimary = true := by
  rw [primaryOk] at h
  cases hlast : (answers.filter (·.1.isPrimary)).getLast? with
  | none => simp [hlast] at h
  | some answer =>
      have hmem := List.mem_of_getLast? hlast
      rw [List.mem_filter] at hmem
      exact ⟨answer, hmem⟩

/-- A write that every replica acknowledges succeeds, if one of them is a primary. -/
theorem quorumResult_ok_of_all {answers : List (ShardClient × Bool)}
    (hall : ∀ answer ∈ answers, answer.2 = true)
    (hprimary : ∃ answer ∈ answers, answer.1.isPrimary = true) :
    (quorumResult answers).ok = true := by
  rcases hprimary with ⟨answer, hanswer, hisPrimary⟩
  rw [quorumResult_ok_iff, primaryOk, List.countP_eq_length.mpr hall]
  refine ⟨?_, ?_⟩
  · have hne : answers.filter (·.1.isPrimary) ≠ [] :=
      List.ne_nil_of_mem (List.mem_filter.mpr ⟨hanswer, hisPrimary⟩)
    have hlast := List.getLast_mem hne
    rw [List.getLast?_eq_getLast_of_ne_nil hne]
    exact hall _ (List.mem_of_mem_filter hlast)
  · have := List.length_pos_of_mem hanswer
    omega

/-! ## Writes in flight -/

/-- One request of a write: the client as the coordinator read it, the answer of the
replica once it has handled the request, and what the coordinator's future returned. -/
structure Target where
  client : ShardClient
  handled : Option Bool := none
  returned : Option Bool := none
deriving DecidableEq, Repr

structure Write where
  op : WriteOp
  targets : List Target
deriving DecidableEq, Repr

namespace Write

/-- The answers as the coordinator counts them, a request still out counting as
failed. -/
def answers (w : Write) : List (ShardClient × Bool) :=
  w.targets.map fun t => (t.client, t.returned == some true)

/-- The request whose answer counts as the primary's. -/
def primary (w : Write) : Option Target :=
  (w.targets.filter (·.client.isPrimary)).getLast?

/-- Every future has returned and the count is a success. -/
def confirmed (w : Write) : Bool :=
  w.targets.all (·.returned.isSome) && (quorumResult w.answers).ok

end Write

/-- The replicas of one shard: their processes are pairwise different. -/
structure ReplicaSet where
  addresses : List Address
  nodup : addresses.Nodup

/-- The replicas of a shard and the writes that were issued to them. -/
structure ShardGroup where
  servers : Address → ShardServer
  up : Address → Bool := fun _ => true
  writes : List Write := []

inductive GroupAction where
  /-- A coordinator starts a write at the clients it has. -/
  | issue (clients : List ShardClient) (op : WriteOp)
  /-- A replica handles request {lit}`i` of write {lit}`w`. -/
  | handle (w i : Nat)
  /-- The answer to a request arrives. -/
  | answer (w i : Nat)
  /-- The deadline of a request passes. -/
  | timeout (w i : Nat)
  | crash (a : Address)
  | restart (a : Address)
deriving DecidableEq, Repr

namespace ShardGroup

/-- Request {lit}`i` of write {lit}`w`. -/
def target (s : ShardGroup) (w i : Nat) : Option Target :=
  (s.writes[w]?).bind fun wr => wr.targets[i]?

def setTarget (s : ShardGroup) (w i : Nat) (t : Target) : ShardGroup :=
  { s with writes := s.writes.modify w fun wr => { wr with targets := wr.targets.set i t } }

def setServer (s : ShardGroup) (a : Address) (server : ShardServer) : ShardGroup :=
  { s with servers := Function.update s.servers a server }

/-- One step of the group.  A write goes to every replica of the set, in the order of
the coordinator's list. -/
def step (replicas : ReplicaSet) (s : ShardGroup) : GroupAction → Option ShardGroup
  | .issue clients op =>
      if (clients.map ShardClient.address).Perm replicas.addresses then
        some { s with writes := s.writes ++ [⟨op, clients.map fun sc => { client := sc }⟩] }
      else none
  | .handle w i => do
      let wr ← s.writes[w]?
      let t ← wr.targets[i]?
      if t.handled = none ∧ s.up t.client.address = true then
        let r := wr.op.handle t.client.epoch (s.servers t.client.address)
        some ((s.setTarget w i { t with handled := some r.1 }).setServer t.client.address r.2)
      else none
  | .answer w i => do
      let t ← s.target w i
      if t.returned = none then
        let ok ← t.handled
        some (s.setTarget w i { t with returned := some ok })
      else none
  | .timeout w i => do
      let t ← s.target w i
      if t.returned = none then some (s.setTarget w i { t with returned := some false })
      else none
  | .crash a => some { s with up := Function.update s.up a false }
  | .restart a =>
      if s.up a = false then
        some { s.setServer a (s.servers a).restart with up := Function.update s.up a true }
      else none

/-! ## What a step can do -/

section Step

variable {replicas : ReplicaSet} {s s' : ShardGroup} {act : GroupAction} {w w' i i' : Nat}
  {t t' : Target}

/-- The replicas after setting a request. -/
@[simp]
theorem setTarget_servers : (s.setTarget w i t).servers = s.servers := rfl

@[simp]
theorem setTarget_up : (s.setTarget w i t).up = s.up := rfl

theorem setServer_servers (a : Address) (server : ShardServer) :
    (s.setServer a server).servers = Function.update s.servers a server := rfl

@[simp]
theorem setServer_writes (a : Address) (server : ShardServer) :
    (s.setServer a server).writes = s.writes := rfl

@[simp]
theorem setServer_target (a : Address) (server : ShardServer) :
    (s.setServer a server).target w i = s.target w i := rfl

/-- The write after setting one of its requests. -/
theorem getElem?_setTarget (s : ShardGroup) (w i w' : Nat) (t : Target) :
    (s.setTarget w i t).writes[w']? = (s.writes[w']?).map fun wr =>
      if w = w' then { wr with targets := wr.targets.set i t } else wr := by
  rw [setTarget]
  dsimp only
  rw [List.getElem?_modify]
  cases s.writes[w']? with
  | none => rfl
  | some wr => by_cases hw : w = w' <;> simp [hw]

/-- The requests after setting one. -/
theorem target_setTarget (ht : s.target w i = some t') (w' i' : Nat) :
    (s.setTarget w i t).target w' i' =
      if w' = w ∧ i' = i then some t else s.target w' i' := by
  rw [target, Option.bind_eq_some_iff] at ht
  rcases ht with ⟨wr, hwr, hi⟩
  rw [target, getElem?_setTarget]
  by_cases hw : w' = w
  · subst hw
    rw [target, hwr]
    simp only [Option.map_some, Option.bind_some, if_true, true_and]
    by_cases hii : i' = i
    · subst hii
      rw [if_pos rfl, List.getElem?_set_self (List.getElem?_eq_some_iff.mp hi).1]
    · rw [if_neg hii, List.getElem?_set_ne (Ne.symm hii)]
  · rw [if_neg (fun h => hw h.1), target]
    cases s.writes[w']? with
    | none => rfl
    | some wr' => simp [Ne.symm hw]

/-- What one step of the group can do. -/
theorem step_cases (h : step replicas s act = some s') :
    (∃ clients op, act = .issue clients op ∧
      (clients.map ShardClient.address).Perm replicas.addresses ∧
      s' = { s with writes := s.writes ++ [⟨op, clients.map fun sc => { client := sc }⟩] }) ∨
    (∃ w i wr t, act = .handle w i ∧ s.writes[w]? = some wr ∧ s.target w i = some t ∧
      t.handled = none ∧
      s' = (s.setTarget w i { t with
          handled := some (wr.op.handle t.client.epoch (s.servers t.client.address)).1 }).setServer
        t.client.address (wr.op.handle t.client.epoch (s.servers t.client.address)).2) ∨
    (∃ w i t ok, (act = .answer w i ∧ t.handled = some ok ∨ act = .timeout w i ∧ ok = false) ∧
      s.target w i = some t ∧ t.returned = none ∧
      s' = s.setTarget w i { t with returned := some ok }) ∨
    (∃ a, act = .crash a ∧ s' = { s with up := Function.update s.up a false }) ∨
    (∃ a, act = .restart a ∧
      s' = { s.setServer a (s.servers a).restart with up := Function.update s.up a true }) := by
  cases act with
  | issue clients op =>
      simp only [step] at h
      split at h
      · next hperm => exact .inl ⟨clients, op, rfl, hperm, (Option.some_inj.mp h).symm⟩
      · contradiction
  | handle w i =>
      simp only [step, Option.bind_eq_bind, Option.bind_eq_some_iff] at h
      rcases h with ⟨wr, hwr, t, ht, h⟩
      split at h
      · next hfree =>
          have htarget : s.target w i = some t := Option.bind_eq_some_iff.mpr ⟨wr, hwr, ht⟩
          exact .inr (.inl ⟨w, i, wr, t, rfl, hwr, htarget, hfree.1, (Option.some_inj.mp h).symm⟩)
      · contradiction
  | answer w i =>
      simp only [step, Option.bind_eq_bind, Option.bind_eq_some_iff] at h
      rcases h with ⟨t, ht, h⟩
      split at h
      · next hfree =>
          rcases Option.bind_eq_some_iff.mp h with ⟨ok, hok, h⟩
          exact .inr (.inr (.inl ⟨w, i, t, ok, .inl ⟨rfl, hok⟩, ht, hfree,
            (Option.some_inj.mp h).symm⟩))
      · contradiction
  | timeout w i =>
      simp only [step, Option.bind_eq_bind, Option.bind_eq_some_iff] at h
      rcases h with ⟨t, ht, h⟩
      split at h
      · next hfree =>
          exact .inr (.inr (.inl ⟨w, i, t, false, .inr ⟨rfl, rfl⟩, ht, hfree,
            (Option.some_inj.mp h).symm⟩))
      · contradiction
  | crash a => exact .inr (.inr (.inr (.inl ⟨a, rfl, (Option.some_inj.mp h).symm⟩)))
  | restart a =>
      simp only [step] at h
      split at h
      · exact .inr (.inr (.inr (.inr ⟨a, rfl, (Option.some_inj.mp h).symm⟩)))
      · contradiction

/-- Setting a request with the same client keeps the operations and the clients. -/
theorem write_of_setTarget {wr' : Write} (ht : s.target w' i = some t)
    (hclient : t'.client = t.client) (hwr : (s.setTarget w' i t').writes[w]? = some wr') :
    ∃ wr, s.writes[w]? = some wr ∧ wr'.op = wr.op ∧
      wr'.targets.map (·.client) = wr.targets.map (·.client) := by
  rw [getElem?_setTarget, Option.map_eq_some_iff] at hwr
  rcases hwr with ⟨wr, hfound, hwr⟩
  refine ⟨wr, hfound, ?_⟩
  split at hwr
  · next heq =>
      subst heq hwr
      rw [target, hfound, Option.bind_some] at ht
      refine ⟨rfl, ?_⟩
      apply List.ext_getElem?
      intro n
      rw [List.getElem?_map, List.getElem?_map, List.getElem?_set]
      split
      · next hin =>
          subst hin
          rw [if_pos (List.getElem?_eq_some_iff.mp ht).1, ht, Option.map_some, Option.map_some,
            hclient]
      · rfl
  · subst hwr
    exact ⟨rfl, rfl⟩

/-- The writes after a new one was issued. -/
theorem write_issued {wr wr' : Write}
    (hwr : ({ s with writes := s.writes ++ [wr] } : ShardGroup).writes[w]? = some wr') :
    s.writes[w]? = some wr' ∨ s.writes[w]? = none ∧ wr' = wr := by
  dsimp only at hwr
  rw [List.getElem?_append] at hwr
  split at hwr
  · exact .inl hwr
  · next hlen =>
      rw [List.getElem?_singleton] at hwr
      split at hwr
      · exact .inr ⟨List.getElem?_eq_none (by omega), (Option.some_inj.mp hwr).symm⟩
      · contradiction

/-- The requests after a new write was issued: those of the new one are not handled. -/
theorem target_issued {clients : List ShardClient} {op : WriteOp}
    (ht : ({ s with
      writes := s.writes ++ [⟨op, clients.map fun sc => { client := sc }⟩] } : ShardGroup).target
        w i = some t) :
    s.target w i = some t ∨
      s.target w i = none ∧ t.handled = none ∧ t.returned = none := by
  rcases Option.bind_eq_some_iff.mp ht with ⟨wr, hwr, hwi⟩
  rcases write_issued hwr with hold | ⟨hnone, rfl⟩
  · exact .inl (Option.bind_eq_some_iff.mpr ⟨wr, hold, hwi⟩)
  · rw [List.getElem?_map, Option.map_eq_some_iff] at hwi
    rcases hwi with ⟨sc, -, rfl⟩
    exact .inr ⟨by rw [target, hnone, Option.bind_none], rfl, rfl⟩

/-- Every write of a state is a write of the state before, with the same operation and
the same clients, or it was issued by the step. -/
theorem write_before {wr' : Write} (h : step replicas s act = some s')
    (hwr : s'.writes[w]? = some wr') :
    (∃ wr, s.writes[w]? = some wr ∧ wr'.op = wr.op ∧
      wr'.targets.map (·.client) = wr.targets.map (·.client)) ∨
    (s.writes[w]? = none ∧ ∃ clients, act = .issue clients wr'.op ∧
      (clients.map ShardClient.address).Perm replicas.addresses ∧
      wr'.targets = clients.map fun sc => { client := sc }) := by
  rcases step_cases h with ⟨clients, op, rfl, hperm, rfl⟩ | ⟨u, j, wr, t, rfl, -, ht, -, rfl⟩ |
    ⟨u, j, t, ok, -, ht, -, rfl⟩ | ⟨a, rfl, rfl⟩ | ⟨a, rfl, rfl⟩
  · rcases write_issued hwr with hold | ⟨hnone, rfl⟩
    · exact .inl ⟨wr', hold, rfl, rfl⟩
    · exact .inr ⟨hnone, clients, rfl, hperm, rfl⟩
  · exact .inl (write_of_setTarget ht (by rfl) hwr)
  · exact .inl (write_of_setTarget ht (by rfl) hwr)
  · exact .inl ⟨wr', hwr, rfl, rfl⟩
  · exact .inl ⟨wr', hwr, rfl, rfl⟩

/-- A step keeps every write, with its operation and its clients. -/
theorem write_after {wr : Write} (h : step replicas s act = some s')
    (hwr : s.writes[w]? = some wr) :
    ∃ wr', s'.writes[w]? = some wr' ∧ wr'.op = wr.op := by
  have hset : ∀ u j t, ∃ wr', (s.setTarget u j t).writes[w]? = some wr' ∧ wr'.op = wr.op := by
    intro u j t
    rw [getElem?_setTarget, hwr]
    refine ⟨_, rfl, ?_⟩
    split <;> rfl
  rcases step_cases h with ⟨clients, op, rfl, hperm, rfl⟩ | ⟨u, j, wr, t, rfl, -, ht, -, rfl⟩ |
    ⟨u, j, t, ok, -, ht, -, rfl⟩ | ⟨a, rfl, rfl⟩ | ⟨a, rfl, rfl⟩
  · exact ⟨wr, by rw [List.getElem?_append_left (List.getElem?_eq_some_iff.mp hwr).1, hwr], rfl⟩
  · exact hset u j _
  · exact hset u j _
  · exact ⟨wr, hwr, rfl⟩
  · exact ⟨wr, hwr, rfl⟩

/-- What a step does to one request: it is handled, its future returns, or it stays as
it is; a request that was not there is new. -/
theorem target_before (h : step replicas s act = some s') (ht : s'.target w i = some t') :
    s.target w i = some t' ∨
    (s.target w i = none ∧ t'.handled = none ∧ t'.returned = none) ∨
    (∃ t wr, s.target w i = some t ∧ s.writes[w]? = some wr ∧ t.handled = none ∧
      t' = { t with
        handled := some (wr.op.handle t.client.epoch (s.servers t.client.address)).1 } ∧
      s'.servers = Function.update s.servers t.client.address
        (wr.op.handle t.client.epoch (s.servers t.client.address)).2) ∨
    (∃ t ok, s.target w i = some t ∧ t.returned = none ∧ t' = { t with returned := some ok } ∧
      (ok = true → t.handled = some true)) := by
  rcases step_cases h with ⟨clients, op, rfl, hperm, rfl⟩ |
    ⟨u, j, wr, t, rfl, hwr, htj, hfree, rfl⟩ | ⟨u, j, t, ok, hact, htj, hfree, rfl⟩ |
    ⟨a, rfl, rfl⟩ | ⟨a, rfl, rfl⟩
  · rcases target_issued ht with hold | hnew
    · exact .inl hold
    · exact .inr (.inl hnew)
  · rw [setServer_target, target_setTarget htj] at ht
    split at ht
    · next heq =>
        rcases heq with ⟨rfl, rfl⟩
        rw [Option.some_inj] at ht
        exact .inr (.inr (.inl ⟨t, wr, htj, hwr, hfree, ht.symm, rfl⟩))
    · exact .inl ht
  · rw [target_setTarget htj] at ht
    split at ht
    · next heq =>
        rcases heq with ⟨rfl, rfl⟩
        rw [Option.some_inj] at ht
        refine .inr (.inr (.inr ⟨t, ok, htj, hfree, ht.symm, ?_⟩))
        intro hok
        rcases hact with ⟨-, hhandled⟩ | ⟨-, rfl⟩
        · rw [hhandled, hok]
        · contradiction
    · exact .inl ht
  · exact .inl ht
  · exact .inl ht

end Step

/-! ## Invariants of the writes in flight -/

/-- A future that returns success saw the replica's acknowledgement. -/
theorem acked_step {replicas : ReplicaSet} {s s' : ShardGroup} {act : GroupAction}
    (hacked : ∀ w i t, s.target w i = some t → t.returned = some true → t.handled = some true)
    (h : step replicas s act = some s') :
    ∀ w i t, s'.target w i = some t → t.returned = some true → t.handled = some true := by
  intro w i t' ht' hret
  rcases target_before h ht' with ht | ⟨-, -, hnone⟩ | ⟨t, wr, ht, -, hfree, rfl, -⟩ |
    ⟨t, ok, ht, -, rfl, hok⟩
  · exact hacked w i t' ht hret
  · rw [hnone] at hret
    contradiction
  · have := hacked w i t ht hret
    rw [hfree] at this
    contradiction
  · exact hok (Option.some_inj.mp hret)

/-- Every write went to every replica once, and a future that returned success saw the
replica's acknowledgement. -/
structure Inv (replicas : ReplicaSet) (s : ShardGroup) : Prop where
  perm : ∀ (w : Nat) (wr : Write), s.writes[w]? = some wr →
    (wr.targets.map fun t => t.client.address).Perm replicas.addresses
  acked : ∀ w i t, s.target w i = some t → t.returned = some true → t.handled = some true

theorem Inv.init (replicas : ReplicaSet) {s : ShardGroup} (h : s.writes = []) :
    Inv replicas s where
  perm w wr hwr := by simp [h] at hwr
  acked w i t ht := by simp [target, h] at ht

theorem Inv.step {replicas : ReplicaSet} {s s' : ShardGroup} {act : GroupAction}
    (hinv : Inv replicas s) (h : step replicas s act = some s') : Inv replicas s' where
  perm w wr' hwr' := by
    rcases write_before h hwr' with ⟨wr, hwr, -, hclients⟩ | ⟨-, clients, -, hperm, hnew⟩
    · have haddresses := congrArg (List.map ShardClient.address) hclients
      rw [List.map_map, List.map_map] at haddresses
      exact (List.Perm.of_eq haddresses).trans (hinv.perm w wr hwr)
    · rw [hnew, List.map_map]
      exact hperm
  acked := acked_step hinv.acked h

/-- The group before any write. -/
def start (servers : Address → ShardServer) : ShardGroup where
  servers := servers

theorem Inv.run {replicas : ReplicaSet} {ok : ShardGroup → GroupAction → Prop}
    {s s' : ShardGroup} {as : List GroupAction}
    (hrun : Exec (ShardGroup.step replicas) ok s as s') (hinv : Inv replicas s) :
    Inv replicas s' :=
  hrun.invariant (Inv replicas) (fun _ _ _ hinv _ h => hinv.step h) hinv

/-- An acknowledgement that reached the coordinator is at its position among the
requests. -/
theorem exists_target_of_mem {s : ShardGroup} {w : Nat} {wr : Write} {t : Target}
    (hwr : s.writes[w]? = some wr) (ht : t ∈ wr.targets) : ∃ i, s.target w i = some t := by
  rcases List.mem_iff_getElem?.mp ht with ⟨i, hi⟩
  exact ⟨i, Option.bind_eq_some_iff.mpr ⟨wr, hwr, hi⟩⟩

/-! ## Acknowledged inserts are kept -/

section Stored

variable {replicas : ReplicaSet} {s s' : ShardGroup} {act : GroupAction}

/-- The key is live at the replica. -/
def Holds (s : ShardGroup) (a : Address) (k : Key) : Prop :=
  ((s.servers a).liveVector k).isSome = true

instance (s : ShardGroup) (a : Address) (k : Key) : Decidable (s.Holds a k) :=
  inferInstanceAs (Decidable (_ = true))

/-- No delete of the key was issued. -/
def NotDeleted (s : ShardGroup) (k : Key) : Prop :=
  ∀ wr ∈ s.writes, wr.op ≠ .delete k

instance (s : ShardGroup) (k : Key) : Decidable (s.NotDeleted k) :=
  inferInstanceAs (Decidable (∀ wr ∈ s.writes, wr.op ≠ .delete k))

/-- What was never deleted later was not deleted before. -/
theorem NotDeleted.before {k : Key} (h : step replicas s act = some s') (hk : s'.NotDeleted k) :
    s.NotDeleted k := by
  intro wr hmem
  rcases List.mem_iff_getElem?.mp hmem with ⟨w, hw⟩
  rcases write_after h hw with ⟨wr', hwr', hop⟩
  rw [← hop]
  exact hk wr' (List.mem_of_getElem? hwr')

/-- A replica keeps a key that nobody deletes, also over a restart. -/
theorem Holds.step {a : Address} {k : Key} (h : ShardGroup.step replicas s act = some s')
    (hk : s.NotDeleted k) (hlive : s.Holds a k) : s'.Holds a k := by
  rcases step_cases h with ⟨clients, op, rfl, -, rfl⟩ | ⟨w, i, wr, t, rfl, hwr, -, -, rfl⟩ |
    ⟨w, i, t, ok, -, -, -, rfl⟩ | ⟨a', rfl, rfl⟩ | ⟨a', rfl, rfl⟩
  · exact hlive
  · by_cases ha : a = t.client.address
    · subst ha
      rw [Holds, setServer_servers, Function.update_self]
      exact WriteOp.isSome_liveVector_handle (hk wr (List.mem_of_getElem? hwr)) hlive
    · rwa [Holds, setServer_servers, Function.update_of_ne ha]
  · exact hlive
  · exact hlive
  · by_cases ha : a = a'
    · subst ha
      rw [Holds, setServer_servers, Function.update_self]
      exact hlive
    · rwa [Holds, setServer_servers, Function.update_of_ne ha]

/-- Every replica that acknowledged an insert holds the key, unless someone deletes
it. -/
def Stored (s : ShardGroup) : Prop :=
  ∀ (w i : Nat) (t : Target) (wr : Write) (k : Key) (v : Floats) (m : Bytes),
    s.target w i = some t → t.handled = some true → s.writes[w]? = some wr →
    wr.op = .insert k v m → s.NotDeleted k → s.Holds t.client.address k

theorem Stored.step (hstored : Stored s) (h : ShardGroup.step replicas s act = some s') :
    Stored s' := by
  intro w i t' wr' k v m ht' hacked hwr' hop hk
  have hk₀ := hk.before h
  -- A request that was there before belongs to the same write as before.
  have hold : ∀ t, s.target w i = some t → t.handled = some true →
      s.Holds t.client.address k := by
    intro t ht hhandled
    rcases Option.bind_eq_some_iff.mp ht with ⟨wr, hwr, -⟩
    rcases write_after h hwr with ⟨wr'', hwr'', hop'⟩
    rw [hwr', Option.some_inj] at hwr''
    subst hwr''
    exact hstored w i t wr k v m ht hhandled hwr (hop' ▸ hop) hk₀
  rcases target_before h ht' with ht | ⟨-, hnone, -⟩ | ⟨t, wr, ht, hwr, -, rfl, hservers⟩ |
    ⟨t, ok, ht, -, rfl, -⟩
  · exact (hold t' ht hacked).step h hk₀
  · rw [hnone] at hacked
    contradiction
  · rw [Option.some_inj] at hacked
    rcases write_after h hwr with ⟨wr'', hwr'', hop'⟩
    rw [hwr', Option.some_inj] at hwr''
    subst hwr''
    rw [hop] at hop'
    rw [← hop'] at hacked hservers
    rw [Holds, hservers, Function.update_self, WriteOp.liveVector_of_handle_insert hacked]
    rfl
  · exact (hold t ht hacked).step h hk₀

end Stored

end ShardGroup

/-! ## Confirmed writes -/

namespace Write

/-- The replicas whose acknowledgement reached the coordinator. -/
def ackers (w : Write) : Finset Address :=
  ((w.targets.filter fun t => t.returned == some true).map fun t => t.client.address).toFinset

theorem mem_ackers {w : Write} {a : Address} :
    a ∈ w.ackers ↔ ∃ t ∈ w.targets, t.returned = some true ∧ t.client.address = a := by
  simp [ackers, and_assoc]

/-- The answer of the primary is that of its request. -/
theorem primaryOk_answers (w : Write) :
    primaryOk w.answers = ((w.primary.map fun t => t.returned == some true).getD false) := by
  rw [primaryOk, answers, primary, List.filter_map, List.getLast?_map, Option.map_map]
  rfl

/-- The acknowledgements of a confirmed write come from a majority and from the
primary. -/
theorem quorum_of_confirmed {w : Write} {replicas : ReplicaSet}
    (hperm : (w.targets.map fun t => t.client.address).Perm replicas.addresses)
    (h : w.confirmed = true) :
    IsQuorum replicas.addresses.toFinset w.ackers ∧
      ∃ t ∈ w.targets, w.primary = some t ∧ t.returned = some true := by
  rw [confirmed, Bool.and_eq_true, quorumResult_ok_iff] at h
  rcases h with ⟨-, hprimary, hcount⟩
  have hlen : w.answers.length = replicas.addresses.length := by
    rw [answers, List.length_map, ← hperm.length_eq, List.length_map]
  have hacks : w.answers.countP (·.2) =
      (w.targets.filter fun t => t.returned == some true).length := by
    rw [answers, List.countP_map, List.countP_eq_length_filter]
    rfl
  have hnodup : (w.targets.map fun t => t.client.address).Nodup :=
    hperm.nodup_iff.mpr replicas.nodup
  have hcard : w.ackers.card = (w.targets.filter fun t => t.returned == some true).length := by
    rw [ackers, List.toFinset_card_of_nodup, List.length_map]
    exact hnodup.sublist (List.filter_sublist.map _)
  refine ⟨⟨?_, ?_⟩, ?_⟩
  · intro a ha
    rcases mem_ackers.mp ha with ⟨t, ht, -, rfl⟩
    rw [List.mem_toFinset, ← hperm.mem_iff]
    exact List.mem_map_of_mem ht
  · rw [List.toFinset_card_of_nodup replicas.nodup, hcard]
    omega
  · rw [primaryOk_answers] at hprimary
    cases hfound : w.primary with
    | none => simp [hfound] at hprimary
    | some t =>
        have hmem := List.mem_of_mem_filter (List.mem_of_getLast? hfound)
        exact ⟨t, hmem, rfl, by simpa [hfound] using hprimary⟩

end Write

end NanoDB.Coordinator
