import NanoDB.Coordinator.ApplyLoop
import NanoDB.Coordinator.Migration

/-!
# Adding and removing shards

The handlers of {lit}`POST /admin/shards/add` and {lit}`POST /admin/shards/remove` on
the leader, for every pattern of RPC fates and without client writes in between.  The
add handler commits first and moves the keys that the new ring gives to the new shard;
the remove handler moves all keys of the leaving shard and commits then.  Neither looks
at how many keys it failed to move: a shard whose listing fails is passed over, and the
answer is ok all the same.

Main results:

- Theorem {lit}`rebalance_ok_iff`: when a handler answers ok.
- Theorem {lit}`liveVector_rebalance`: what the new home of a key holds afterwards.
- Theorem {lit}`rebalance_keeps_iff`: exactly when a handler that answers ok has lost
  nothing.
-/

namespace NanoDB.Coordinator

open Raft (Bytes)
open Cluster (Key HashRing)
open Shard (ShardServer Floats)

/-! ## The handlers -/

/-- What a handler finds when it is called, apart from the topology: whether Raft is
enabled, whether this node leads, the {lit}`rebalancing` flag, and the index at which its
proposal is committed, if it is. -/
structure AdminContext where
  raftEnabled : Bool := true
  isLeader : Bool := true
  rebalancing : Bool := false
  commit : Option Nat
deriving DecidableEq, Repr

inductive RebalanceRequest where
  | add (shardId : Int) (replicas : List ReplicaSpec)
  | remove (shardId : Int)
deriving DecidableEq, Repr

/-- The answer to the client. -/
inductive AdminResponse where
  | ok (shardId : Int) (tally : Tally)
  | error (status : Nat) (text : String)
deriving DecidableEq, Repr

def AdminResponse.isOk : AdminResponse → Bool
  | ok _ _ => true
  | error _ _ => false

/-- A handler's answer, and the topology and the shards after it. -/
structure Outcome where
  response : AdminResponse
  co : CoordinatorState
  servers : Servers

/-- The checks that both handlers make before they read their request. -/
def precheck (ctx : AdminContext) : Option AdminResponse :=
  if ctx.raftEnabled = false then
    some (.error 400 "raft is not enabled on this coordinator")
  else if ctx.isLeader = false then some (.error 503 "not the leader")
  else if ctx.rebalancing = true then some (.error 409 "a rebalance is already in progress")
  else none

/-- What an add does with a listed key. -/
def addPlan (co : CoordinatorState) (newId : Int) (k : Key) : Plan :=
  if co.ring.route k = some newId then
    .moveTo (replicasForShard (activeClients co.shards) newId)
  else .skip

/-- The loop of an add over the other shards. -/
def migrateToNew (co : CoordinatorState) (newId : Int) (rpc : RpcPattern) (servers : Servers) :
    Tally × Servers :=
  ((activeIds co.shards).filter fun id => decide (id ≠ newId)).foldl
    (fun st source => migrateFrom (activeClients co.shards) (addPlan co newId) rpc source st)
    ({}, servers)

def addShard (ctx : AdminContext) (co : CoordinatorState) (newId : Int)
    (replicas : List ReplicaSpec) (rpc : RpcPattern) (servers : Servers) : Outcome :=
  match precheck ctx with
  | some response => ⟨response, co, servers⟩
  | none =>
      if replicas = [] then ⟨.error 400 "replicas must be a non-empty array", co, servers⟩
      else if replicas.all (fun r => !r.primary) then
        ⟨.error 400 "exactly one replica must be marked primary", co, servers⟩
      else match ctx.commit with
        | none =>
            ⟨.error 503 "raft proposal did not commit, lost leadership or timed out", co, servers⟩
        | some epoch =>
            let co := co.applyOne epoch (.addShard newId replicas)
            if replicasForShard (activeClients co.shards) newId = [] then
              ⟨.error 500
                "committed via raft but not present locally after apply -- this should not happen",
                co, servers⟩
            else
              let r := migrateToNew co newId rpc servers
              ⟨.ok newId r.1, co, r.2⟩

/-- What a remove does with a listed key, by the ring of the remaining shards. -/
def removePlan (pool : List ShardClient) (postRemoveRing : HashRing) (k : Key) : Plan :=
  match postRemoveRing.route k with
  | none => .fail
  | some dest =>
      if replicasForShard pool dest = [] then .fail
      else .moveTo (replicasForShard pool dest)

/-- The loop of a remove over the keys of the leaving shard. -/
def migrateFromLeaving (co : CoordinatorState) (leavingId : Int) (rpc : RpcPattern)
    (servers : Servers) : Tally × Servers :=
  let remainingIds := (activeIds co.shards).filter fun id => decide (id ≠ leavingId)
  migrateFrom (activeClients co.shards)
    (removePlan (activeClients co.shards) (HashRing.build remainingIds)) rpc leavingId ({}, servers)

def removeShard (ctx : AdminContext) (co : CoordinatorState) (leavingId : Int) (rpc : RpcPattern)
    (servers : Servers) : Outcome :=
  match precheck ctx with
  | some response => ⟨response, co, servers⟩
  | none =>
      let pool := activeClients co.shards
      if replicasForShard pool leavingId = [] ∨ findPrimary pool leavingId = none then
        ⟨.error 404 "shard not found or already inactive", co, servers⟩
      else if (activeIds co.shards).length ≤ 1 then
        ⟨.error 400 "cannot remove the last shard", co, servers⟩
      else
        let r := migrateFromLeaving co leavingId rpc servers
        match ctx.commit with
        | none =>
            ⟨.error 503 ("data was migrated but the raft proposal to finalize removal did not " ++
              "commit -- retry the remove, migration is idempotent"), co, r.2⟩
        | some epoch => ⟨.ok leavingId r.1, co.applyOne epoch (.removeShard leavingId), r.2⟩

def rebalance (ctx : AdminContext) (co : CoordinatorState) (rpc : RpcPattern) (servers : Servers) :
    RebalanceRequest → Outcome
  | .add newId replicas => addShard ctx co newId replicas rpc servers
  | .remove leavingId => removeShard ctx co leavingId rpc servers

/-! ## What a request asks for -/

namespace RebalanceRequest

def command : RebalanceRequest → Command
  | add newId replicas => .addShard newId replicas
  | remove leavingId => .removeShard leavingId

/-- The topology once the command is applied. -/
def after (req : RebalanceRequest) (co : CoordinatorState) (epoch : Nat) : CoordinatorState :=
  co.applyOne epoch req.command

/-- The replicas that take part in the migration. -/
def pool (req : RebalanceRequest) (co : CoordinatorState) (epoch : Nat) : List ShardClient :=
  match req with
  | add _ _ => activeClients (req.after co epoch).shards
  | remove _ => activeClients co.shards

/-- Whether the request passes the handler's checks. -/
def Valid (req : RebalanceRequest) (co : CoordinatorState) (epoch : Nat) : Prop :=
  match req with
  | add newId replicas => replicas ≠ [] ∧ replicas.all (fun r => !r.primary) = false ∧
      replicasForShard (activeClients (req.after co epoch).shards) newId ≠ []
  | remove leavingId => replicasForShard (activeClients co.shards) leavingId ≠ [] ∧
      findPrimary (activeClients co.shards) leavingId ≠ none ∧ 1 < (activeIds co.shards).length

/-- The shards whose copies of a key are to be moved, in the order in which they are. -/
def sources (req : RebalanceRequest) (co : CoordinatorState) (epoch : Nat) (k : Key) : List Int :=
  match req with
  | add newId _ =>
      if (req.after co epoch).ring.route k = some newId then
        (activeIds (req.after co epoch).shards).filter fun id => decide (id ≠ newId)
      else []
  | remove leavingId => [leavingId]

end RebalanceRequest

section Ok

variable {ctx : AdminContext} {co : CoordinatorState} {rpc : RpcPattern} {servers : Servers}

/-- What the checks answer is an error. -/
theorem not_isOk_of_precheck {response : AdminResponse} (h : precheck ctx = some response) :
    response.isOk = false := by
  rw [precheck] at h
  split_ifs at h
  all_goals
    cases h
    rfl

/-- When an add answers ok. -/
theorem addShard_ok_iff (hcheck : precheck ctx = none) {newId : Int}
    {replicas : List ReplicaSpec} :
    (addShard ctx co newId replicas rpc servers).response.isOk = true ↔
      ∃ epoch, ctx.commit = some epoch ∧ (RebalanceRequest.add newId replicas).Valid co epoch := by
  rw [addShard, hcheck]
  dsimp only
  split
  · next hnil => simp [AdminResponse.isOk, RebalanceRequest.Valid, hnil]
  · split
    · next hprimary => simp [AdminResponse.isOk, RebalanceRequest.Valid, hprimary]
    · next hnil hprimary =>
        cases hcommit : ctx.commit with
        | none => simp [AdminResponse.isOk]
        | some epoch =>
            dsimp only
            split
            · next hdest =>
                simp [AdminResponse.isOk, RebalanceRequest.Valid, RebalanceRequest.after,
                  RebalanceRequest.command, hdest]
            · next hdest =>
                simp [AdminResponse.isOk, RebalanceRequest.Valid, RebalanceRequest.after,
                  RebalanceRequest.command, hdest, hnil, hprimary]

/-- When a removal answers ok. -/
theorem removeShard_ok_iff (hcheck : precheck ctx = none) {leavingId : Int} :
    (removeShard ctx co leavingId rpc servers).response.isOk = true ↔
      ∃ epoch, ctx.commit = some epoch ∧ (RebalanceRequest.remove leavingId).Valid co epoch := by
  rw [removeShard, hcheck]
  dsimp only
  split
  · next hfound =>
      simp only [AdminResponse.isOk, RebalanceRequest.Valid, Bool.false_eq_true, false_iff,
        not_exists, not_and]
      intro epoch _ hreplicas hprimary
      rcases hfound with h | h
      · exact absurd h hreplicas
      · exact absurd h hprimary
  · next hfound =>
      rw [not_or] at hfound
      split
      · next hlast =>
          simp only [AdminResponse.isOk, RebalanceRequest.Valid, Bool.false_eq_true, false_iff,
            not_exists, not_and]
          intro epoch _ _ _
          omega
      · next hlast =>
          cases hcommit : ctx.commit with
          | none => simp [AdminResponse.isOk]
          | some epoch =>
              simp only [AdminResponse.isOk, RebalanceRequest.Valid, true_iff]
              exact ⟨epoch, rfl, hfound.1, hfound.2, by omega⟩

/-- When a handler answers ok. -/
theorem rebalance_ok_iff {req : RebalanceRequest} :
    (rebalance ctx co rpc servers req).response.isOk = true ↔
      precheck ctx = none ∧ ∃ epoch, ctx.commit = some epoch ∧ req.Valid co epoch := by
  cases hcheck : precheck ctx with
  | some response =>
      have hresponse := not_isOk_of_precheck hcheck
      cases req <;> simp [rebalance, addShard, removeShard, hcheck, hresponse]
  | none =>
      rw [eq_self_iff_true, true_and]
      cases req with
      | add newId replicas => exact addShard_ok_iff hcheck
      | remove leavingId => exact removeShard_ok_iff hcheck

end Ok

/-! ## The shard ids of a topology -/

/-- The active ids after a removal. -/
theorem activeIds_removeShard (shards : List ShardClient) (epoch : Nat) (shardId : Int) :
    activeIds (applyCommand shards epoch (.removeShard shardId)) =
      (activeIds shards).filter fun id => decide (id ≠ shardId) := by
  apply List.Perm.eq_of_pairwise' (sorted_activeIds _) ((sorted_activeIds shards).filter _)
  rw [List.perm_ext_iff_of_nodup (nodup_activeIds _) ((nodup_activeIds shards).filter _)]
  intro id
  rw [mem_activeIds, activeClients_removeShard, List.mem_filter, mem_activeIds, decide_eq_true_iff]
  constructor
  · rintro ⟨sc, hsc, rfl⟩
    rw [List.mem_filter, decide_eq_true_iff] at hsc
    exact ⟨⟨sc, hsc.1, rfl⟩, hsc.2⟩
  · rintro ⟨⟨sc, hsc, rfl⟩, hne⟩
    exact ⟨sc, List.mem_filter.mpr ⟨hsc, decide_eq_true hne⟩, rfl⟩

/-- A removal changes no other shard's primary. -/
theorem findPrimary_removeShard (shards : List ShardClient) (epoch : Nat) {shardId dest : Int}
    (hne : dest ≠ shardId) :
    findPrimary (activeClients (applyCommand shards epoch (.removeShard shardId))) dest =
      findPrimary (activeClients shards) dest := by
  rw [activeClients_removeShard, findPrimary, findPrimary, List.find?_filter]
  congr 1
  funext sc
  by_cases hsc : sc.shardId = dest
  · simp [hsc, hne]
  · simp [hsc]

/-! ## What the new home of a key holds -/

section Final

variable {co : CoordinatorState} (rpc : RpcPattern) (servers : Servers) {epoch : Nat}

/-- The vector that a replica ends up with: that of the last source whose copy is moved
there, or the one it holds already. -/
def RebalanceRequest.finalVector (req : RebalanceRequest) (co : CoordinatorState) (epoch : Nat)
    (rpc : RpcPattern) (servers : Servers) (q : ShardClient) (k : Key) : Option Floats :=
  (req.sources co epoch k).foldl
    (fun acc source => (movedVector (req.pool co epoch) rpc servers source q k).or acc)
    ((servers q.address).liveVector k)

theorem addPlan_within (co : CoordinatorState) (newId : Int) :
    Plan.Within (activeClients co.shards) (addPlan co newId) := by
  intro k destReplicas h
  rw [addPlan] at h
  split at h
  · cases h
    exact ⟨newId, rfl⟩
  · contradiction

theorem removePlan_within (pool : List ShardClient) (ring : HashRing) :
    Plan.Within pool (removePlan pool ring) := by
  intro k destReplicas h
  rw [removePlan] at h
  split at h
  · contradiction
  · next dest _ =>
      split at h
      · contradiction
      · cases h
        exact ⟨dest, rfl⟩

/-- What an add leaves at the home of a key. -/
theorem liveVector_migrateToNew {co' : CoordinatorState} {newId : Int}
    (hown : OwnProcesses (activeClients co'.shards)) {q : ShardClient}
    (hq : q ∈ activeClients co'.shards) {k : Key} (hroute : co'.ring.route k = some q.shardId) :
    ((migrateToNew co' newId rpc servers).2 q.address).liveVector k =
    (if co'.ring.route k = some newId then
        (activeIds co'.shards).filter fun id => decide (id ≠ newId)
      else []).foldl
      (fun acc source =>
        (movedVector (activeClients co'.shards) rpc servers source q k).or acc)
      ((servers q.address).liveVector k) := by
  rw [migrateToNew]
  by_cases hnew : co'.ring.route k = some newId
  · have hid : q.shardId = newId := Option.some_inj.mp (hroute.symm.trans hnew)
    rw [if_pos hnew]
    apply liveVector_foldl_migrateFrom hown (addPlan_within co' newId) hq
      ((nodup_activeIds _).filter _)
    · simp [hid]
    · intro k' destReplicas hk' x hx
      rw [addPlan] at hk'
      split at hk'
      · cases hk'
        exact (mem_replicasForShard.mp hx).2.trans hid.symm
      · contradiction
    · rw [addPlan, if_pos hnew, hid]
  · rw [if_neg hnew, List.foldl_nil]
    have hskip : ∀ destReplicas, addPlan co' newId k ≠ .moveTo destReplicas := by
      intro destReplicas h
      rw [addPlan, if_neg hnew] at h
      contradiction
    exact liveVector_foldl_of_not_moved hskip _ _ _

/-- What an add does that passes its checks. -/
theorem rebalance_add_eq {ctx : AdminContext} {newId : Int} {replicas : List ReplicaSpec}
    (hcheck : precheck ctx = none) (hcommit : ctx.commit = some epoch)
    (hvalid : RebalanceRequest.Valid (.add newId replicas) co epoch) :
    rebalance ctx co rpc servers (.add newId replicas) =
      let co' := RebalanceRequest.after (.add newId replicas) co epoch
      ⟨.ok newId (migrateToNew co' newId rpc servers).1, co',
        (migrateToNew co' newId rpc servers).2⟩ := by
  rcases hvalid with ⟨hnil, hprimary, hdest⟩
  rw [rebalance, addShard, hcheck]
  dsimp only
  rw [if_neg hnil, if_neg (by simp [hprimary]), hcommit]
  dsimp only
  exact if_neg hdest

/-- What a remove does that passes its checks. -/
theorem rebalance_remove_eq {ctx : AdminContext} {leavingId : Int}
    (hcheck : precheck ctx = none) (hcommit : ctx.commit = some epoch)
    (hvalid : RebalanceRequest.Valid (.remove leavingId) co epoch) :
    rebalance ctx co rpc servers (.remove leavingId) =
      ⟨.ok leavingId (migrateFromLeaving co leavingId rpc servers).1,
        RebalanceRequest.after (.remove leavingId) co epoch,
        (migrateFromLeaving co leavingId rpc servers).2⟩ := by
  rcases hvalid with ⟨hreplicas, hprimary, hlast⟩
  rw [rebalance, removeShard, hcheck]
  dsimp only
  rw [if_neg (not_or.mpr ⟨hreplicas, hprimary⟩), if_neg (by omega), hcommit]
  rfl

/-- The ring that a remove plans with is the one it ends with. -/
theorem ring_removeShard (co : CoordinatorState) (epoch : Nat) (leavingId : Int) :
    (RebalanceRequest.after (.remove leavingId) co epoch).ring =
      HashRing.build ((activeIds co.shards).filter fun id => decide (id ≠ leavingId)) :=
  congrArg HashRing.build (activeIds_removeShard co.shards epoch leavingId)

/-- What the new home of a key holds after a handler that answers ok. -/
theorem liveVector_rebalance {ctx : AdminContext} {req : RebalanceRequest}
    (hcheck : precheck ctx = none) (hcommit : ctx.commit = some epoch) (hvalid : req.Valid co epoch)
    (hown : OwnProcesses (req.pool co epoch)) :
    (rebalance ctx co rpc servers req).co = req.after co epoch ∧
    ∀ k dest q, (req.after co epoch).ring.route k = some dest →
      findPrimary (activeClients (req.after co epoch).shards) dest = some q →
      ((rebalance ctx co rpc servers req).servers q.address).liveVector k =
        req.finalVector co epoch rpc servers q k := by
  cases req with
  | add newId replicas =>
      rw [rebalance_add_eq rpc servers hcheck hcommit hvalid]
      refine ⟨rfl, ?_⟩
      intro k dest q hroute hq
      rcases findPrimary_mem hq with ⟨hqpool, rfl, -⟩
      exact liveVector_migrateToNew rpc servers hown hqpool hroute
  | remove leavingId =>
      rw [rebalance_remove_eq rpc servers hcheck hcommit hvalid]
      refine ⟨rfl, ?_⟩
      intro k dest q hroute hq
      rw [ring_removeShard] at hroute
      have hne : dest ≠ leavingId := by
        simpa using (List.mem_filter.mp (HashRing.route_mem hroute)).2
      have hq' : findPrimary (activeClients co.shards) dest = some q :=
        (findPrimary_removeShard co.shards epoch hne).symm.trans hq
      rcases findPrimary_mem hq' with ⟨hqpool, rfl, -⟩
      have hmem : q ∈ replicasForShard (activeClients co.shards) q.shardId :=
        mem_replicasForShard.mpr ⟨hqpool, rfl⟩
      exact liveVector_migrateFrom hown (removePlan_within _ _) hqpool hne
        (by rw [removePlan, hroute]; exact if_neg (List.ne_nil_of_mem hmem)) _

end Final

/-! ## Losing nothing -/

/-- Every key that was live on the primary of an active shard is live, with the same
vector, on the primary of the shard that the new ring gives it to. -/
def LosesNothing (co co' : CoordinatorState) (servers servers' : Servers) : Prop :=
  ∀ shardId p k v, findPrimary (activeClients co.shards) shardId = some p →
    (servers p.address).liveVector k = some v →
    ∃ dest q, co'.ring.route k = some dest ∧
      findPrimary (activeClients co'.shards) dest = some q ∧
      (servers' q.address).liveVector k = some v

/-- Every live copy of a key has a new home with a primary, and carries the vector of the
last source whose copy is moved there or, if none is, the vector that this primary holds
already. -/
def RebalanceRequest.CopiesArrive (req : RebalanceRequest) (co : CoordinatorState) (epoch : Nat)
    (rpc : RpcPattern) (servers : Servers) : Prop :=
  ∀ shardId p k v, findPrimary (activeClients co.shards) shardId = some p →
    (servers p.address).liveVector k = some v →
    ∃ dest q, (req.after co epoch).ring.route k = some dest ∧
      findPrimary (activeClients (req.after co epoch).shards) dest = some q ∧
      req.finalVector co epoch rpc servers q k = some v

/-- **Rebalancing.**  A handler that answers ok has lost nothing exactly if every live
copy is moved, or has no need to be. -/
theorem rebalance_keeps_iff (ctx : AdminContext) (co : CoordinatorState) (rpc : RpcPattern)
    (servers : Servers) (req : RebalanceRequest)
    (hown : ∀ epoch, ctx.commit = some epoch → OwnProcesses (req.pool co epoch)) :
    ((rebalance ctx co rpc servers req).response.isOk = true →
      LosesNothing co (rebalance ctx co rpc servers req).co servers
        (rebalance ctx co rpc servers req).servers) ↔
    ∀ epoch, precheck ctx = none → ctx.commit = some epoch → req.Valid co epoch →
      req.CopiesArrive co epoch rpc servers := by
  constructor
  · intro hkeeps epoch hcheck hcommit hvalid shardId p k v hp hv
    rcases liveVector_rebalance rpc servers hcheck hcommit hvalid (hown epoch hcommit) with
      ⟨hco, hfinal⟩
    rcases hkeeps (rebalance_ok_iff.mpr ⟨hcheck, epoch, hcommit, hvalid⟩) shardId p k v hp hv with
      ⟨dest, q, hroute, hq, hlive⟩
    rw [hco] at hroute hq
    exact ⟨dest, q, hroute, hq, (hfinal k dest q hroute hq).symm.trans hlive⟩
  · intro harrive hok shardId p k v hp hv
    rcases rebalance_ok_iff.mp hok with ⟨hcheck, epoch, hcommit, hvalid⟩
    rcases liveVector_rebalance rpc servers hcheck hcommit hvalid (hown epoch hcommit) with
      ⟨hco, hfinal⟩
    rcases harrive epoch hcheck hcommit hvalid shardId p k v hp hv with
      ⟨dest, q, hroute, hq, hlive⟩
    rw [hco]
    exact ⟨dest, q, hroute, hq, (hfinal k dest q hroute hq).trans hlive⟩

/-! ## Removing one of two shards -/

/-- Two shards of one replica each. -/
def twoShards : CoordinatorState :=
  .boot [⟨0, 0, [97], 1, true⟩, ⟨1, 0, [97], 2, true⟩] 0

/-- The client of the first of them. -/
def firstShard : ShardClient :=
  ofEndpoint ⟨0, 0, [97], 1, true⟩

def secondShard : ShardClient :=
  ofEndpoint ⟨1, 0, [97], 2, true⟩

def zeroVector : Floats :=
  List.replicate 128 0

theorem route_twoShards : (HashRing.build [0, 1]).route [97] = some 1 :=
  HashRing.route_of_chain (5333741077954516774, 1) (by decide) (by decide +kernel)
    (by decide +kernel) (by decide +kernel)

/-- The second shard holds one key. -/
def oneKey : Servers :=
  Function.update (fun _ => {}) ([97], 2)
    (({} : ShardServer).insert ⟨[107], zeroVector, [], 0⟩).2

/-- All RPCs get through, but those of listings have the given fate. -/
def listingFate (fate : Delivery) : RpcPattern where
  list _ := fate
  key _ _ := ⟨.answered, fun _ => .answered, fun _ => .answered⟩

theorem active_removed :
    activeClients (RebalanceRequest.after (.remove 1) twoShards 1).shards = [firstShard] := by
  decide +kernel

theorem rebalance_keeps_iff_allAnswered :
    (rebalance { commit := some 1 } twoShards (listingFate .answered) oneKey
      (.remove 1)).response.isOk = true ∧
    LosesNothing twoShards
      (rebalance { commit := some 1 } twoShards (listingFate .answered) oneKey (.remove 1)).co
      oneKey
      (rebalance { commit := some 1 } twoShards (listingFate .answered) oneKey
        (.remove 1)).servers := by
  have hok : (rebalance { commit := some 1 } twoShards (listingFate .answered) oneKey
      (.remove 1)).response.isOk = true := by decide +kernel
  refine ⟨hok, (rebalance_keeps_iff _ _ _ _ _ ?_).mpr ?_ hok⟩
  · intro epoch _
    change OwnProcesses (activeClients twoShards.shards)
    decide +kernel
  · rintro epoch - hcommit - shardId p k v hp hv
    cases hcommit
    have hpool : activeClients twoShards.shards = [firstShard, secondShard] := by decide +kernel
    have hmem := (findPrimary_mem hp).1
    rw [hpool] at hmem
    have hlisted : k ∈ (oneKey p.address).listLocalIds :=
      ShardServer.mem_listLocalIds.mpr (by rw [hv]; rfl)
    simp only [List.mem_cons, List.not_mem_nil, or_false] at hmem
    rcases hmem with rfl | rfl
    · have hnone : (oneKey firstShard.address).listLocalIds = [] := by decide +kernel
      rw [hnone] at hlisted
      contradiction
    · have hone : (oneKey secondShard.address).listLocalIds = [[107]] := by decide +kernel
      rw [hone, List.mem_singleton] at hlisted
      subst hlisted
      have hids : activeIds (RebalanceRequest.after (.remove 1) twoShards 1).shards = [0] := by
        decide +kernel
      -- Only the first shard remains, so every key is routed there.
      rcases HashRing.exists_route (by decide : ([0] : List Int) ≠ []) [107] with ⟨dest, hroute⟩
      have hdest : dest = 0 := by simpa using HashRing.route_mem hroute
      refine ⟨dest, firstShard, ?_, ?_, ?_⟩
      · rw [← hroute, ← hids]
        rfl
      · rw [active_removed, hdest]
        decide +kernel
      · rw [← hv]
        decide +kernel

/-- The listing of the leaving shard fails, the removal is committed and answered ok, and
its key is nowhere. -/
theorem rebalance_loses_key :
    ¬ ((rebalance { commit := some 1 } twoShards (listingFate .lost) oneKey
          (.remove 1)).response.isOk = true →
      LosesNothing twoShards
        (rebalance { commit := some 1 } twoShards (listingFate .lost) oneKey (.remove 1)).co oneKey
        (rebalance { commit := some 1 } twoShards (listingFate .lost) oneKey
          (.remove 1)).servers) := by
  intro hkeeps
  rcases hkeeps (by decide +kernel) 1 secondShard [107] zeroVector (by decide +kernel)
    (by decide +kernel) with ⟨dest, q, -, hq, hlive⟩
  have hmem := (findPrimary_mem hq).1
  change q ∈ activeClients (RebalanceRequest.after (.remove 1) twoShards 1).shards at hmem
  rw [active_removed, List.mem_singleton] at hmem
  subst hmem
  have hnone : ((rebalance { commit := some 1 } twoShards (listingFate .lost) oneKey
      (.remove 1)).servers firstShard.address).liveVector [107] = none := by decide +kernel
  rw [hnone] at hlive
  contradiction

end NanoDB.Coordinator
