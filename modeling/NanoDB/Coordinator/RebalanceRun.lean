import NanoDB.Coordinator.Rebalance
import NanoDB.Lib.Execution

/-!
# A rebalance with client inserts in between

One add or remove on the leader, step by step, interleaved with {lit}`POST /vectors`
requests on any coordinator.  Each coordinator tests its own {lit}`rebalancing` flag once,
reads its ring and then its pool, and fires its insert; each coordinator applies the
committed command at its own time.  All RPCs succeed: every request is handled and
answered, and no epoch is refused.

Main results:

- Theorem {lit}`RebalanceJob.replicas_of_view`: whatever a coordinator has applied, it
  writes to the replicas that the handler knows.
- Theorem {lit}`RebalanceJob.plan_moveTo`: keys are moved to shards that stay.
- Theorem {lit}`RebalanceJob.plan_remove`: a remove moves every key.
-/

namespace NanoDB.Coordinator

open Raft (Bytes)
open Cluster (Key HashRing)
open Lib (Exec)
open Shard (ShardServer Floats)

/-! ## The job -/

/-- What one rebalance is about: the leader, the request, the topology that every
coordinator starts from, and the index of the command.  The handler accepts the request,
replicas are processes of their own, and a remove leaves shards that have primaries. -/
structure RebalanceJob where
  leader : Nat
  req : RebalanceRequest
  co : CoordinatorState
  epoch : Nat
  valid : req.Valid co epoch
  own : OwnProcesses (req.pool co epoch)
  primaries : ∀ leavingId, req = .remove leavingId → ∀ sc ∈ req.pool co epoch,
    sc.shardId ≠ leavingId → (findPrimary (req.pool co epoch) sc.shardId).isSome = true

namespace RebalanceJob

variable (job : RebalanceJob)

/-- The topology once the command is applied. -/
def after : CoordinatorState :=
  job.req.after job.co job.epoch

def pool : List ShardClient :=
  job.req.pool job.co job.epoch

/-- The source shards of the handler's loop. -/
def sources : List Int :=
  match job.req with
  | .add newId _ => (activeIds job.after.shards).filter fun id => decide (id ≠ newId)
  | .remove leavingId => [leavingId]

def plan : Key → Plan :=
  match job.req with
  | .add newId _ => addPlan job.after newId
  | .remove leavingId =>
      removePlan (activeClients job.co.shards)
        (HashRing.build ((activeIds job.co.shards).filter fun id => decide (id ≠ leavingId)))

/-- The shards that are active in the end. -/
def finalIds : List Int :=
  activeIds job.after.shards

end RebalanceJob

/-! ## What a job fixes -/

theorem replicasForShard_append (pool pool' : List ShardClient) {shardId : Int}
    (h : ∀ sc ∈ pool', sc.shardId ≠ shardId) :
    replicasForShard (pool ++ pool') shardId = replicasForShard pool shardId := by
  have hnone : ∀ f : ShardClient → Bool,
      (pool'.filter fun sc => decide (sc.shardId = shardId) && f sc) = [] := by
    intro f
    rw [List.filter_eq_nil_iff]
    intro sc hsc
    simp [h sc hsc]
  rw [replicasForShard, replicasForShard, List.filter_append, List.filter_append, hnone, hnone,
    List.append_nil, List.append_nil]

theorem replicasForShard_eq_nil {pool : List ShardClient} {shardId : Int} :
    replicasForShard pool shardId = [] ↔ ∀ sc ∈ pool, sc.shardId ≠ shardId := by
  rw [List.eq_nil_iff_forall_not_mem]
  constructor
  · intro h sc hsc hid
    exact h sc (mem_replicasForShard.mpr ⟨hsc, hid⟩)
  · intro h sc hsc
    exact h sc (mem_replicasForShard.mp hsc).1 (mem_replicasForShard.mp hsc).2

theorem replicasForShard_filter (pool : List ShardClient) {shardId leavingId : Int}
    (hne : shardId ≠ leavingId) :
    replicasForShard (pool.filter fun sc => decide (sc.shardId ≠ leavingId)) shardId =
      replicasForShard pool shardId := by
  rw [replicasForShard, replicasForShard, List.filter_filter, List.filter_filter]
  congr 1 <;>
    (apply List.filter_congr
     intro sc _
     by_cases hsc : sc.shardId = shardId <;> simp [hsc, hne])

namespace RebalanceJob

variable (job : RebalanceJob)

/-- The replicas of a shard in any coordinator's view are those of the handler's pool, if
the view has the shard at all. -/
theorem replicas_of_view {view : CoordinatorState} (hview : view = job.co ∨ view = job.after)
    (shardId : Int) :
    replicasForShard (activeClients view.shards) shardId = [] ∨
      replicasForShard (activeClients view.shards) shardId = replicasForShard job.pool shardId := by
  rcases job with ⟨leader, req, co, epoch, valid, own, primaries⟩
  cases req with
  | add newId replicas =>
      rcases hview with hview | hview
      · rw [hview]
        change _ ∨ _ = replicasForShard (activeClients (applyCommand co.shards epoch
          (.addShard newId replicas))) shardId
        rw [applyCommand]
        split
        · exact .inr rfl
        · next hknown =>
            rw [activeClients_append, activeClients_map_ofReplica]
            by_cases hid : shardId = newId
            · refine .inl (replicasForShard_eq_nil.mpr ?_)
              intro sc hsc heq
              apply hknown
              rw [known_eq_true_iff]
              exact ⟨sc, (List.mem_filter.mp hsc).1, heq.trans hid⟩
            · refine .inr (replicasForShard_append _ _ ?_).symm
              intro sc hsc
              rcases List.mem_map.mp hsc with ⟨r, -, rfl⟩
              exact Ne.symm hid
      · exact .inr (by rw [hview]; rfl)
  | remove leavingId =>
      rcases hview with hview | hview
      · exact .inr (by rw [hview]; rfl)
      · rw [hview]
        change replicasForShard (activeClients (applyCommand co.shards epoch
          (.removeShard leavingId))) shardId = [] ∨ replicasForShard (activeClients (applyCommand
            co.shards epoch (.removeShard leavingId))) shardId = _
        rw [activeClients_removeShard]
        by_cases hid : shardId = leavingId
        · refine .inl (replicasForShard_eq_nil.mpr ?_)
          intro sc hsc heq
          rw [List.mem_filter, decide_eq_true_iff] at hsc
          exact hsc.2 (heq.trans hid)
        · exact .inr (replicasForShard_filter _ hid)

/-- A shard of the pool is active in the end, or it is the one that leaves. -/
theorem mem_finalIds_or {sc : ShardClient} (hsc : sc ∈ job.pool) :
    sc.shardId ∈ job.finalIds ∨ job.req = .remove sc.shardId := by
  rcases job with ⟨leader, req, co, epoch, valid, own, primaries⟩
  cases req with
  | add newId replicas => exact .inl (mem_activeIds.mpr ⟨sc, hsc, rfl⟩)
  | remove leavingId =>
      by_cases hid : sc.shardId = leavingId
      · exact .inr (by rw [hid])
      · refine .inl ?_
        change sc.shardId ∈ activeIds (applyCommand co.shards epoch (.removeShard leavingId))
        rw [activeIds_removeShard, List.mem_filter, decide_eq_true_iff]
        exact ⟨mem_activeIds.mpr ⟨sc, hsc, rfl⟩, hid⟩

/-- The primaries in the end. -/
theorem findPrimary_after {shardId : Int} (h : shardId ∈ job.finalIds) :
    findPrimary (activeClients job.after.shards) shardId = findPrimary job.pool shardId := by
  rcases job with ⟨leader, req, co, epoch, valid, own, primaries⟩
  cases req with
  | add newId replicas => rfl
  | remove leavingId =>
      change shardId ∈ activeIds (applyCommand co.shards epoch (.removeShard leavingId)) at h
      rw [activeIds_removeShard, List.mem_filter, decide_eq_true_iff] at h
      exact findPrimary_removeShard co.shards epoch h.2

/-- Where the plan sends a key: to all replicas of a shard that is active in the end and
no source. -/
theorem plan_moveTo {k : Key} {destReplicas : List ShardClient}
    (h : job.plan k = .moveTo destReplicas) :
    ∃ dest ∈ job.finalIds, dest ∉ job.sources ∧ destReplicas = replicasForShard job.pool dest := by
  rcases job with ⟨leader, req, co, epoch, valid, own, primaries⟩
  cases req with
  | add newId replicas =>
      change addPlan _ newId k = _ at h
      rw [addPlan] at h
      split at h
      · cases h
        rcases List.exists_mem_of_ne_nil _ valid.2.2 with ⟨sc, hsc⟩
        rcases mem_replicasForShard.mp hsc with ⟨hpool, hid⟩
        refine ⟨newId, mem_activeIds.mpr ⟨sc, hpool, hid⟩, ?_, rfl⟩
        simp [sources]
      · contradiction
  | remove leavingId =>
      change removePlan (activeClients co.shards) _ k = _ at h
      rw [removePlan] at h
      split at h
      · contradiction
      · next dest hroute =>
          split at h
          · contradiction
          · cases h
            have hid := HashRing.route_mem hroute
            refine ⟨dest, ?_, ?_, rfl⟩
            · change dest ∈ activeIds (applyCommand co.shards epoch (.removeShard leavingId))
              rw [activeIds_removeShard]
              exact hid
            · simpa [sources] using (List.mem_filter.mp hid).2

/-- The primaries of the shards that a remove leaves. -/
theorem exists_primary {leavingId dest : Int} (hreq : job.req = .remove leavingId)
    (hdest : dest ∈ job.finalIds) : ∃ q, findPrimary job.pool dest = some q := by
  rcases job with ⟨leader, req, co, epoch, valid, own, primaries⟩
  cases hreq
  change dest ∈ activeIds (applyCommand co.shards epoch (.removeShard leavingId)) at hdest
  rw [activeIds_removeShard, List.mem_filter, decide_eq_true_iff] at hdest
  rcases mem_activeIds.mp hdest.1 with ⟨sc, hsc, rfl⟩
  exact Option.isSome_iff_exists.mp (primaries leavingId rfl sc hsc hdest.2)

/-- A remove moves every key. -/
theorem plan_remove {leavingId : Int} (hreq : job.req = .remove leavingId) (k : Key) :
    ∃ destReplicas, job.plan k = .moveTo destReplicas := by
  rcases job with ⟨leader, req, co, epoch, valid, own, primaries⟩
  cases hreq
  have hne : ((activeIds co.shards).filter fun id => decide (id ≠ leavingId)) ≠ [] := by
    intro hnil
    have hlast : (activeIds co.shards).length ≤ [leavingId].length := by
      apply (List.subperm_of_subset (nodup_activeIds _) _).length_le
      intro id hid
      rw [List.filter_eq_nil_iff] at hnil
      simpa using hnil id hid
    have := valid.2.2
    rw [List.length_singleton] at hlast
    omega
  rcases HashRing.exists_route hne k with ⟨dest, hroute⟩
  rcases mem_activeIds.mp (List.mem_of_mem_filter (HashRing.route_mem hroute)) with ⟨sc, hsc, hid⟩
  change ∃ destReplicas, removePlan (activeClients co.shards) _ k = _
  rw [removePlan, hroute]
  refine ⟨_, if_neg ?_⟩
  exact fun hnil => replicasForShard_eq_nil.mp hnil sc hsc hid

end RebalanceJob

/-! ## Client inserts -/

/-- How far a {lit}`POST /vectors` request has come. -/
inductive InsertPhase where
  /-- The flag was tested and not set. -/
  | checked
  /-- The ring was copied. -/
  | routed (ring : HashRing)
  /-- The insert was fired at the replicas; the answers so far. -/
  | writing (targets : List (ShardClient × Option Bool))
  | refused

structure ClientInsert where
  coordinator : Nat
  externalId : Key
  vector : Floats
  metadata : Bytes
  phase : InsertPhase := .checked

/-- The request was answered with 201. -/
def ClientInsert.created (ins : ClientInsert) : Bool :=
  match ins.phase with
  | .writing targets => targets.all (·.2.isSome) &&
      (quorumResult (targets.map fun t => (t.1, t.2 == some true))).ok
  | _ => false

/-! ## The handler -/

/-- The key that is being moved, and the replicas whose RPC is still out. -/
structure Move where
  source : Int
  destReplicas : List ShardClient
  key : Key
  vector : Floats
  metadata : Bytes
  pending : List ShardClient

inductive HandlerPhase where
  | idle
  | proposing
  /-- The shards still to be listed. -/
  | sources (rest : List Int)
  /-- The listed keys of a shard that are still to be moved. -/
  | keys (source : Int) (keys : List Key) (rest : List Int)
  | inserting (mv : Move) (keys : List Key) (rest : List Int)
  | deleting (mv : Move) (keys : List Key) (rest : List Int)
  | done

structure RebalanceRun where
  servers : Servers
  views : Nat → CoordinatorState
  flags : Nat → Bool := fun _ => false
  committed : Bool := false
  handler : HandlerPhase := .idle
  inserts : List ClientInsert := []

/-- A step of the handler on the leader. -/
inductive HandlerAction where
  | start
  /-- List the keys of the next shard, or leave the loop over the shards. -/
  | list
  /-- Read the next key from the source's primary, or leave the loop over the keys. -/
  | get
  /-- A destination replica handles the insert of the key that is being moved. -/
  | insertAt (i : Nat)
  /-- A source replica handles its delete. -/
  | deleteAt (i : Nat)
  | commit
  /-- Go on once the leader has applied the command. -/
  | resume

/-- A step of a client request. -/
inductive ClientAction where
  | post (c : Nat) (externalId : Key) (vector : Floats) (metadata : Bytes)
  | readRing (n : Nat)
  | readPool (n : Nat)
  /-- Replica {lit}`i` handles the request of insert {lit}`n`. -/
  | handle (n i : Nat)

inductive RunAction where
  | handler (act : HandlerAction)
  | client (act : ClientAction)
  /-- A coordinator applies the command. -/
  | apply (c : Nat)

namespace RebalanceRun

/-- Read a key that is to be moved from the primary of its shard. -/
def fetch (job : RebalanceJob) (servers : Servers) (source : Int) (k : Key) : Option Move :=
  match job.plan k with
  | .moveTo destReplicas =>
      (findPrimary job.pool source).bind fun p =>
        let gres := (servers p.address).getVector k
        if gres.ok then
          some ⟨source, destReplicas, k, gres.vector, gres.metadata, destReplicas⟩
        else none
  | _ => none

/-- The handler once a destination replica has answered: when it was the last one, the
count decides whether the source is deleted from. -/
def afterInsert (job : RebalanceJob) (mv : Move) (i : Nat) (keys : List Key) (rest : List Int) :
    HandlerPhase :=
  if mv.pending.eraseIdx i ≠ [] then
    .inserting { mv with pending := mv.pending.eraseIdx i } keys rest
  else if (quorumResult (mv.destReplicas.map fun r => (r, true))).ok then
    .deleting { mv with pending := replicasForShard job.pool mv.source } keys rest
  else .keys mv.source keys rest

/-- The handler once a source replica has answered. -/
def afterDelete (mv : Move) (i : Nat) (keys : List Key) (rest : List Int) : HandlerPhase :=
  if mv.pending.eraseIdx i ≠ [] then
    .deleting { mv with pending := mv.pending.eraseIdx i } keys rest
  else .keys mv.source keys rest

/-- The handler when it has been called, and once the leader has applied its command. -/
def afterStart (job : RebalanceJob) : HandlerPhase :=
  match job.req with
  | .add _ _ => .proposing
  | .remove _ => .sources job.sources

def afterApply (job : RebalanceJob) : HandlerPhase :=
  match job.req with
  | .add _ _ => .sources job.sources
  | .remove _ => .done

/-- The handler at the end of its loop over the shards. -/
def afterSources (job : RebalanceJob) : HandlerPhase :=
  match job.req with
  | .add _ _ => .done
  | .remove _ => .proposing

/-- Enter a phase; the flag is released when the handler is done. -/
def enter (job : RebalanceJob) (s : RebalanceRun) (phase : HandlerPhase) : RebalanceRun :=
  { s with
    handler := phase
    flags := match phase with
      | .done => Function.update s.flags job.leader false
      | _ => s.flags }

def handlerStep (job : RebalanceJob) (s : RebalanceRun) : HandlerAction → Option RebalanceRun
  | .start =>
      match s.handler with
      | .idle =>
          if s.flags job.leader then none
          else some { s with
            flags := Function.update s.flags job.leader true
            handler := afterStart job }
      | _ => none
  | .list =>
      match s.handler with
      | .sources [] => some (enter job s (afterSources job))
      | .sources (source :: rest) =>
          match findPrimary job.pool source with
          | none => some (enter job s (.sources rest))
          | some p => some (enter job s (.keys source (s.servers p.address).listLocalIds rest))
      | _ => none
  | .get =>
      match s.handler with
      | .keys _ [] rest => some (enter job s (.sources rest))
      | .keys source (k :: ks) rest =>
          match fetch job s.servers source k with
          | none => some (enter job s (.keys source ks rest))
          | some mv => some (enter job s (.inserting mv ks rest))
      | _ => none
  | .insertAt i =>
      match s.handler with
      | .inserting mv ks rest =>
          (mv.pending[i]?).bind fun r =>
            let handled := (s.servers r.address).insert ⟨mv.key, mv.vector, mv.metadata, r.epoch⟩
            if handled.1.ok then
              some (enter job { s with servers := Function.update s.servers r.address handled.2 }
                (afterInsert job mv i ks rest))
            else none
      | _ => none
  | .deleteAt i =>
      match s.handler with
      | .deleting mv ks rest =>
          (mv.pending[i]?).bind fun r =>
            let handled := (s.servers r.address).delete ⟨mv.key, r.epoch⟩
            some (enter job { s with servers := Function.update s.servers r.address handled.2 }
              (afterDelete mv i ks rest))
      | _ => none
  | .commit =>
      match s.handler with
      | .proposing => if s.committed then none else some { s with committed := true }
      | _ => none
  | .resume =>
      match s.handler with
      | .proposing =>
          if s.committed then
            some (enter job { s with views := Function.update s.views job.leader job.after }
              (afterApply job))
          else none
      | _ => none

def setPhase (s : RebalanceRun) (n : Nat) (phase : InsertPhase) : RebalanceRun :=
  { s with inserts := s.inserts.modify n fun ins => { ins with phase := phase } }

/-- The replicas that a coordinator writes to, for the ring and the pool it has read. -/
def targetsOf (ring : HashRing) (pool : List ShardClient) (externalId : Key) : List ShardClient :=
  match ring.route externalId with
  | none => []
  | some shardId => replicasForShard pool shardId

def afterPool (replicas : List ShardClient) : InsertPhase :=
  if replicas = [] then .refused else .writing (replicas.map fun r => (r, none))

def clientStep (s : RebalanceRun) : ClientAction → Option RebalanceRun
  | .post c externalId vector metadata =>
      some { s with
        inserts := s.inserts ++
          [⟨c, externalId, vector, metadata, if s.flags c then .refused else .checked⟩] }
  | .readRing n =>
      (s.inserts[n]?).bind fun ins =>
        match ins.phase with
        | .checked => some (s.setPhase n (.routed (s.views ins.coordinator).ring))
        | _ => none
  | .readPool n =>
      (s.inserts[n]?).bind fun ins =>
        match ins.phase with
        | .routed ring =>
            some (s.setPhase n (afterPool
              (targetsOf ring (activeClients (s.views ins.coordinator).shards) ins.externalId)))
        | _ => none
  | .handle n i =>
      (s.inserts[n]?).bind fun ins =>
        match ins.phase with
        | .writing targets =>
            (targets[i]?).bind fun t =>
              if t.2 = none ∧ (s.servers t.1.address).currentEpoch ≤ t.1.epoch then
                let handled := (s.servers t.1.address).insert
                  ⟨ins.externalId, ins.vector, ins.metadata, t.1.epoch⟩
                some ({ s with
                    servers := Function.update s.servers t.1.address handled.2 }.setPhase n
                  (.writing (targets.set i (t.1, some handled.1.ok))))
              else none
        | _ => none

def step (job : RebalanceJob) (s : RebalanceRun) : RunAction → Option RebalanceRun
  | .handler act => handlerStep job s act
  | .client act => clientStep s act
  | .apply c =>
      if s.committed then some { s with views := Function.update s.views c job.after } else none

/-- Every coordinator knows the same topology, and nothing has happened yet. -/
def start (job : RebalanceJob) (servers : Servers) : RebalanceRun where
  servers := servers
  views := fun _ => job.co

end RebalanceRun

end NanoDB.Coordinator
