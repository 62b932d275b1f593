import NanoDB.Coordinator.Rebalance
import NanoDB.Coordinator.Search

/-!
# Copies that a rebalance leaves behind

Client inserts and deletes and completed rebalances, one after the other, on a cluster that
starts empty.  Every RPC is answered except deletes at the sources of a migration, which
nobody looks at.  A delete that is lost leaves a copy on a shard that the key no longer
belongs to: later inserts and deletes do not reach it, and a search still finds it.

Main results:

- Theorem {lit}`Clean.write`, {lit}`Clean.add`, {lit}`Clean.remove`: what each operation
  keeps.
- Theorem {lit}`strong_search_fresh`: if no add leaves a copy behind or brings one in, every
  strong search sees the last confirmed insert of a key.
-/

namespace NanoDB.Coordinator

open Raft (Bytes)
open Cluster (Key HashRing)
open Lib (Exec)
open NanoDB.Index (vectorDim)
open Shard (ShardServer Floats Traversal)

/-! ## Operations -/

/-- The cluster between two operations: the topology, the shard processes, the last
committed index, and the confirmed writes, newest first. -/
structure Database where
  co : CoordinatorState
  servers : Servers
  index : Nat := 0
  confirmed : List WriteOp := []

inductive Operation where
  /-- {lit}`POST /vectors` or {lit}`DELETE /vectors/<id>`. -/
  | write (op : WriteOp)
  /-- A rebalance whose command is committed at {lit}`epoch`. -/
  | rebalance (req : RebalanceRequest) (epoch : Nat) (fate : Int → Key → Address → Delivery)

namespace Database

/-- A client's write.  It is answered with 503 if the shard has no replicas. -/
def write (d : Database) (op : WriteOp) : Database :=
  match d.co.ring.route op.key with
  | none => d
  | some shardId =>
      let replicas := replicasForShard (activeClients d.co.shards) shardId
      if replicas = [] then d
      else
        let r := fanOut op (fun _ => .answered) replicas d.servers
        { d with
          servers := r.1
          confirmed := if (quorumResult r.2).ok then op :: d.confirmed else d.confirmed }

/-- One operation; only rebalances that are completed count. -/
def step (d : Database) : Operation → Option Database
  | .write op => some (d.write op)
  | .rebalance req epoch fate =>
      let outcome := Coordinator.rebalance { commit := some epoch } d.co (deleteFates fate)
        d.servers req
      if d.index < epoch ∧ outcome.response.isOk = true then
        some { d with co := outcome.co, servers := outcome.servers, index := epoch }
      else none

/-- A cluster that has just been set up from its config file. -/
def start (endpoints : List ShardEndpoint) : Database where
  co := .boot endpoints 0
  servers := fun _ => {}

/-- The last confirmed write of a key. -/
def lastConfirmed (d : Database) (k : Key) : Option WriteOp :=
  d.confirmed.find? fun op => decide (op.key = k)

/-! ## The invariant -/

/-- What an add must meet.  The replicas are processes of their own, the processes marked
as primaries of a new shard hold no key, and the delete of a key that is moved reaches
every source replica marked as primary that holds it. -/
def LeavesNothing (d : Database) : Operation → Prop
  | .rebalance (.add newId replicas) epoch fate =>
      let co' := RebalanceRequest.after (.add newId replicas) d.co epoch
      OwnProcesses (activeClients co'.shards) ∧
      (known d.co.shards newId = false → ∀ r ∈ replicas, r.primary = true →
        ∀ k, (d.servers (r.host, r.port)).liveVector k = none) ∧
      ∀ p ∈ activeClients co'.shards, p.isPrimary = true → p.shardId ≠ newId →
        ∀ k, co'.ring.route k = some newId → (d.servers p.address).liveVector k ≠ none →
          fate p.shardId k p.address ≠ .lost
  | _ => True

/-- The active replicas are processes of their own that accept what their clients send,
the primaries of a shard hold the same keys, and each of these keys belongs to the shard
and was last written by the insert of its vector. -/
structure Clean (d : Database) : Prop where
  own : OwnProcesses (activeClients d.co.shards)
  ring : d.co.ring = buildRing d.co.shards
  accepts : ∀ sc ∈ activeClients d.co.shards, (d.servers sc.address).currentEpoch ≤ sc.epoch
  epochs : ∀ sc ∈ activeClients d.co.shards, sc.epoch ≤ d.index
  bound : ∀ a, (d.servers a).currentEpoch ≤ d.index
  agree : ∀ p ∈ activeClients d.co.shards, ∀ q ∈ activeClients d.co.shards,
    p.isPrimary = true → q.isPrimary = true → p.shardId = q.shardId →
    ∀ k, (d.servers p.address).liveVector k = (d.servers q.address).liveVector k
  fresh : ∀ p ∈ activeClients d.co.shards, p.isPrimary = true → ∀ k v,
    (d.servers p.address).liveVector k = some v →
    d.co.ring.route k = some p.shardId ∧ ∃ m, d.lastConfirmed k = some (.insert k v m)

theorem Clean.init {endpoints : List ShardEndpoint}
    (hown : OwnProcesses (endpoints.map ofEndpoint)) : Clean (start endpoints) := by
  have hactive : activeClients (start endpoints).co.shards = endpoints.map ofEndpoint := by
    change activeClients (endpoints.map ofEndpoint) = _
    rw [activeClients, List.filter_eq_self]
    intro sc hsc
    rcases List.mem_map.mp hsc with ⟨ep, -, rfl⟩
    rfl
  have hempty : ∀ a k, ((start endpoints).servers a).liveVector k = none := fun _ _ => rfl
  refine ⟨hactive ▸ hown, rfl, fun _ _ => Nat.zero_le _, ?_, fun _ => Nat.le_refl _, ?_, ?_⟩
  · intro sc hsc
    rw [hactive] at hsc
    rcases List.mem_map.mp hsc with ⟨ep, -, rfl⟩
    exact Nat.le_refl _
  · intro p _ q _ _ _ _ k
    rw [hempty, hempty]
  · intro p _ _ k v hv
    rw [hempty] at hv
    contradiction

/-! ## Client writes -/

/-- What a write leaves of its key. -/
def written (op : WriteOp) (old : Option Floats) : Option Floats :=
  match op with
  | .insert _ v _ => if v.length = vectorDim then some v else old
  | .delete _ => none

theorem liveVector_handle_self {op : WriteOp} {epoch : Nat} {s : ShardServer}
    (h : s.currentEpoch ≤ epoch) :
    (op.handle epoch s).2.liveVector op.key = written op (s.liveVector op.key) := by
  cases op with
  | insert k v m =>
      rw [written]
      split
      · next hlen =>
          apply WriteOp.liveVector_of_handle_insert
          exact ShardServer.insert_ok_iff.mpr ⟨hlen, h⟩
      · next hlen =>
          have hno : (s.insert ⟨k, v, m, epoch⟩).1.ok = false := by
            cases hok : (s.insert ⟨k, v, m, epoch⟩).1.ok with
            | false => rfl
            | true => exact absurd (ShardServer.insert_ok_iff.mp hok).1 hlen
          rw [WriteOp.handle, ShardServer.insert_refused hno]
  | delete k =>
      rw [WriteOp.handle, ShardServer.liveVector_delete h]
      exact if_pos rfl

section Write

variable {d : Database} {op : WriteOp} {shardId : Int}

/-- A write that has a shard with replicas to go to. -/
theorem write_eq (hroute : d.co.ring.route op.key = some shardId)
    (hne : replicasForShard (activeClients d.co.shards) shardId ≠ []) :
    d.write op = { d with
      servers := (fanOut op (fun _ => .answered)
        (replicasForShard (activeClients d.co.shards) shardId) d.servers).1
      confirmed := if (quorumResult (fanOut op (fun _ => .answered)
        (replicasForShard (activeClients d.co.shards) shardId) d.servers).2).ok then
          op :: d.confirmed else d.confirmed } := by
  rw [write, hroute]
  exact if_neg hne

/-- What a write does to a key of an active replica. -/
theorem liveVector_write (hclean : Clean d) {p : ShardClient}
    (hp : p ∈ activeClients d.co.shards) (k : Key) :
    ((fanOut op (fun _ => .answered) (replicasForShard (activeClients d.co.shards) shardId)
      d.servers).1 p.address).liveVector k =
      if p.shardId = shardId ∧ k = op.key then written op ((d.servers p.address).liveVector k)
      else (d.servers p.address).liveVector k := by
  by_cases hid : p.shardId = shardId
  · rw [fanOut_apply (hclean.own.replicasForShard shardId) (mem_replicasForShard.mpr ⟨hp, hid⟩),
      if_neg (by simp)]
    by_cases hk : k = op.key
    · rw [if_pos ⟨hid, hk⟩, hk, liveVector_handle_self (hclean.accepts p hp)]
    · rw [if_neg (fun h => hk h.2), liveVector_handle_of_ne hk]
  · rw [if_neg (fun h => hid h.1), fanOut_of_not_mem]
    intro r hr
    rcases mem_replicasForShard.mp hr with ⟨hrpool, hrid⟩
    exact hclean.own.address_ne hrpool hp (fun heq => hid (heq ▸ hrid))

/-- An insert is confirmed iff its vector has the right dimension, if its shard has a
primary. -/
theorem confirmed_insert_iff (hclean : Clean d) {k : Key} {v : Floats} {m : Bytes}
    {p : ShardClient} (hp : p ∈ activeClients d.co.shards) (hid : p.shardId = shardId)
    (hprimary : p.isPrimary = true) :
    (quorumResult (fanOut (.insert k v m) (fun _ => .answered)
      (replicasForShard (activeClients d.co.shards) shardId) d.servers).2).ok = true ↔
      v.length = vectorDim := by
  have hanswer : ∀ r ∈ replicasForShard (activeClients d.co.shards) shardId,
      ((WriteOp.insert k v m).handle r.epoch (d.servers r.address)).1 = true ↔
        v.length = vectorDim := by
    intro r hr
    rw [WriteOp.handle, ShardServer.insert_ok_iff]
    exact and_iff_left (hclean.accepts r (mem_replicasForShard.mp hr).1)
  rw [fanOut_answers (hclean.own.replicasForShard shardId)]
  constructor
  · intro hok
    rcases quorumResult_ok_iff.mp hok with ⟨-, hcount⟩
    have hpos : 0 < ((replicasForShard (activeClients d.co.shards) shardId).map fun r =>
        (r, decide (Delivery.answered = Delivery.answered) &&
          ((WriteOp.insert k v m).handle r.epoch (d.servers r.address)).1)).countP (·.2) := by
      omega
    rcases List.countP_pos_iff.mp hpos with ⟨answer, hmem, htrue⟩
    rcases List.mem_map.mp hmem with ⟨r, hr, rfl⟩
    rw [Bool.and_eq_true] at htrue
    exact (hanswer r hr).mp htrue.2
  · intro hlen
    apply quorumResult_ok_of_all
    · intro answer hmem
      rcases List.mem_map.mp hmem with ⟨r, hr, rfl⟩
      rw [Bool.and_eq_true]
      exact ⟨rfl, (hanswer r hr).mpr hlen⟩
    · exact ⟨_, List.mem_map_of_mem (mem_replicasForShard.mpr ⟨hp, hid⟩), hprimary⟩

theorem lastConfirmed_of_ne {servers : Servers} {b : Bool} {k : Key} (hne : k ≠ op.key) :
    lastConfirmed { d with
      servers := servers, confirmed := if b then op :: d.confirmed else d.confirmed } k =
      d.lastConfirmed k := by
  rw [lastConfirmed, lastConfirmed]
  cases b with
  | false => rfl
  | true => exact List.find?_cons_of_neg (by simpa using hne.symm)

/-- The key of a write, if it is live afterwards, was last written by the insert of its
vector. -/
theorem lastConfirmed_written (hclean : Clean d) {servers : Servers} {p : ShardClient}
    (hp : p ∈ activeClients d.co.shards) (hid : p.shardId = shardId)
    (hprimary : p.isPrimary = true) {k : Key} (hk : k = op.key) {v : Floats}
    (hv : written op ((d.servers p.address).liveVector k) = some v) :
    ∃ m, lastConfirmed { d with
      servers := servers
      confirmed := if (quorumResult (fanOut op (fun _ => .answered)
        (replicasForShard (activeClients d.co.shards) shardId) d.servers).2).ok then
          op :: d.confirmed else d.confirmed } k = some (.insert k v m) := by
  cases op with
  | insert k' v' m =>
      have hquorum := confirmed_insert_iff (k := k') (v := v') (m := m) hclean hp hid hprimary
      rw [written] at hv
      split at hv
      · next hlen =>
          cases hv
          refine ⟨m, ?_⟩
          rw [lastConfirmed, hquorum.mpr hlen, if_pos rfl,
            List.find?_cons_of_pos (by simpa using hk.symm), hk]
          rfl
      · next hlen =>
          have hno : (quorumResult (fanOut (.insert k' v' m) (fun _ => .answered)
              (replicasForShard (activeClients d.co.shards) shardId) d.servers).2).ok = false := by
            rw [← Bool.not_eq_true, hquorum]
            exact hlen
          rw [hno]
          exact (hclean.fresh p hp hprimary k v hv).2
  | delete k' =>
      rw [written] at hv
      contradiction

theorem Clean.write (hclean : Clean d) (op : WriteOp) : Clean (d.write op) := by
  cases hroute : d.co.ring.route op.key with
  | none =>
      rw [Database.write, hroute]
      exact hclean
  | some shardId =>
      by_cases hne : replicasForShard (activeClients d.co.shards) shardId = []
      · rw [Database.write, hroute]
        dsimp only
        rw [if_pos hne]
        exact hclean
      · rw [write_eq hroute hne]
        have hsub : ∀ r ∈ replicasForShard (activeClients d.co.shards) shardId,
            r ∈ activeClients d.co.shards := fun r hr => (mem_replicasForShard.mp hr).1
        have haccepts : ∀ sc ∈ activeClients d.co.shards,
            ((fanOut op (fun _ => .answered)
              (replicasForShard (activeClients d.co.shards) shardId) d.servers).1
                sc.address).currentEpoch ≤ sc.epoch := by
          intro sc hsc
          rw [accepts_fanOut_iff hclean.own hsub hsc]
          exact hclean.accepts sc hsc
        refine ⟨hclean.own, hclean.ring, haccepts, hclean.epochs, ?_, ?_, ?_⟩
        · intro a
          by_cases ha : ∃ r ∈ replicasForShard (activeClients d.co.shards) shardId, r.address = a
          · rcases ha with ⟨r, hr, rfl⟩
            exact (haccepts r (hsub r hr)).trans (hclean.epochs r (hsub r hr))
          · have hout : ∀ r ∈ replicasForShard (activeClients d.co.shards) shardId,
                r.address ≠ a := fun r hr heq => ha ⟨r, hr, heq⟩
            dsimp only
            rw [fanOut_of_not_mem hout]
            exact hclean.bound a
        · intro p hp q hq hpprimary hqprimary hid k
          dsimp only
          rw [liveVector_write hclean hp, liveVector_write hclean hq, hid,
            hclean.agree p hp q hq hpprimary hqprimary hid]
        · intro p hp hprimary k v hv
          dsimp only at hv
          rw [liveVector_write hclean hp] at hv
          by_cases hk : k = op.key
          · by_cases hid : p.shardId = shardId
            · rw [if_pos ⟨hid, hk⟩] at hv
              exact ⟨by rw [hk, hroute, hid],
                lastConfirmed_written hclean hp hid hprimary hk hv⟩
            · rw [if_neg (fun h => hid h.1)] at hv
              have hown := (hclean.fresh p hp hprimary k v hv).1
              rw [hk, hroute, Option.some_inj] at hown
              exact absurd hown.symm hid
          · rw [if_neg (fun h => hk h.2)] at hv
            rw [lastConfirmed_of_ne hk]
            exact hclean.fresh p hp hprimary k v hv

end Write

/-! ## Removing a shard -/

section Remove

variable {d : Database} {leavingId : Int} {epoch : Nat} {fate : Int → Key → Address → Delivery}

/-- What a remove leaves on a replica of another shard. -/
theorem liveVector_migrateFromLeaving (epoch : Nat) (hclean : Clean d) {q : ShardClient}
    (hq : q ∈ activeClients d.co.shards) (hne : q.shardId ≠ leavingId) (k : Key) :
    ((migrateFromLeaving d.co leavingId (deleteFates fate) d.servers).2 q.address).liveVector k =
      if (RebalanceRequest.after (.remove leavingId) d.co epoch).ring.route k = some q.shardId then
        ((findPrimary (activeClients d.co.shards) leavingId).bind fun p =>
          (d.servers p.address).liveVector k).or ((d.servers q.address).liveVector k)
      else (d.servers q.address).liveVector k := by
  rw [ring_removeShard, migrateFromLeaving]
  split
  · next hroute =>
      have hmem : q ∈ replicasForShard (activeClients d.co.shards) q.shardId :=
        mem_replicasForShard.mpr ⟨hq, rfl⟩
      rw [liveVector_migrateFrom hclean.own (removePlan_within _ _) hq hne
        (by rw [removePlan, hroute]; exact if_neg (List.ne_nil_of_mem hmem)),
        movedVector_deleteFates _ _ (hclean.accepts q hq)]
  · next hroute =>
      apply liveVector_migrateFrom_of_apart hclean.own (removePlan_within _ _) hq hne
      intro destReplicas hplan x hx hid
      rw [removePlan] at hplan
      split at hplan
      · contradiction
      · next dest hdest =>
          split at hplan
          · contradiction
          · cases hplan
            rw [(mem_replicasForShard.mp hx).2] at hid
            exact hroute (hid ▸ hdest)

theorem Clean.remove (hclean : Clean d) (hepoch : d.index < epoch) :
    Clean { d with
      co := RebalanceRequest.after (.remove leavingId) d.co epoch
      servers := (migrateFromLeaving d.co leavingId (deleteFates fate) d.servers).2
      index := epoch } := by
  have hactive : ∀ {sc : ShardClient},
      sc ∈ activeClients (RebalanceRequest.after (.remove leavingId) d.co epoch).shards →
        sc ∈ activeClients d.co.shards ∧ sc.shardId ≠ leavingId := by
    intro sc hsc
    change sc ∈ activeClients (applyCommand d.co.shards epoch (.removeShard leavingId)) at hsc
    rw [activeClients_removeShard, List.mem_filter, decide_eq_true_iff] at hsc
    exact hsc
  have haccepts : ∀ sc ∈ activeClients d.co.shards,
      ((migrateFromLeaving d.co leavingId (deleteFates fate) d.servers).2
        sc.address).currentEpoch ≤ sc.epoch := by
    intro sc hsc
    rw [migrateFromLeaving, accepts_migrateFrom_iff hclean.own (removePlan_within _ _) hsc]
    exact hclean.accepts sc hsc
  refine ⟨?_, rfl, ?_, ?_, ?_, ?_, ?_⟩
  · change OwnProcesses (activeClients (applyCommand d.co.shards epoch (.removeShard leavingId)))
    rw [activeClients_removeShard]
    exact hclean.own.sublist (List.filter_sublist.map _)
  · intro sc hsc
    exact haccepts sc (hactive hsc).1
  · intro sc hsc
    exact (hclean.epochs sc (hactive hsc).1).trans hepoch.le
  · intro a
    by_cases ha : ∃ r ∈ activeClients d.co.shards, r.address = a
    · rcases ha with ⟨r, hr, rfl⟩
      exact (haccepts r hr).trans ((hclean.epochs r hr).trans hepoch.le)
    · have hout : ∀ r ∈ activeClients d.co.shards, r.address ≠ a :=
        fun r hr heq => ha ⟨r, hr, heq⟩
      dsimp only
      rw [migrateFromLeaving, migrateFrom_of_not_pool (removePlan_within _ _) hout]
      exact (hclean.bound a).trans hepoch.le
  · intro p hp q hq hpprimary hqprimary hid k
    rcases hactive hp with ⟨hppool, hpne⟩
    rcases hactive hq with ⟨hqpool, hqne⟩
    dsimp only
    rw [liveVector_migrateFromLeaving epoch hclean hppool hpne,
      liveVector_migrateFromLeaving epoch hclean hqpool hqne, hid,
      hclean.agree p hppool q hqpool hpprimary hqprimary hid]
  · intro p hp hprimary k v hv
    rcases hactive hp with ⟨hppool, hpne⟩
    dsimp only at hv
    rw [liveVector_migrateFromLeaving epoch hclean hppool hpne] at hv
    split at hv
    · next hroute =>
        refine ⟨hroute, ?_⟩
        rcases Option.or_eq_some_iff.mp hv with hmoved | ⟨-, hold⟩
        · rcases Option.bind_eq_some_iff.mp hmoved with ⟨p₀, hp₀, hv₀⟩
          rcases findPrimary_mem hp₀ with ⟨hmem₀, -, hprimary₀⟩
          exact (hclean.fresh p₀ hmem₀ hprimary₀ k v hv₀).2
        · exact (hclean.fresh p hppool hprimary k v hold).2
    · next hroute =>
        -- A key that is not moved stays with its shard, also on the new ring.
        have hown := (hclean.fresh p hppool hprimary k v hv).1
        rw [hclean.ring] at hown
        refine absurd ?_ hroute
        rw [ring_removeShard]
        apply HashRing.route_of_subset (List.filter_subset_self _) _ hown
        rw [List.mem_filter, decide_eq_true_iff]
        exact ⟨mem_activeIds.mpr ⟨p, hppool, rfl⟩, hpne⟩

end Remove

/-! ## Adding a shard -/

section Add

variable {co : CoordinatorState} {newId : Int} {replicas : List ReplicaSpec} {epoch : Nat}

/-- An add of a known shard changes nothing. -/
theorem after_add_known (h : known co.shards newId = true) :
    RebalanceRequest.after (.add newId replicas) co epoch = co := by
  simp [RebalanceRequest.after, RebalanceRequest.command, CoordinatorState.applyOne,
    applyCommand, h]

theorem activeClients_add (h : known co.shards newId = false) :
    activeClients (RebalanceRequest.after (.add newId replicas) co epoch).shards =
      activeClients co.shards ++ replicas.map (ofReplica newId epoch) := by
  change activeClients (applyCommand co.shards epoch (.addShard newId replicas)) = _
  rw [applyCommand, h]
  change activeClients (co.shards ++ _) = _
  rw [activeClients_append, activeClients_map_ofReplica]

theorem ring_add (h : known co.shards newId = false) :
    (RebalanceRequest.after (.add newId replicas) co epoch).ring =
      buildRing (RebalanceRequest.after (.add newId replicas) co epoch).shards := by
  simp [RebalanceRequest.after, RebalanceRequest.command, CoordinatorState.applyOne, h]

theorem shardId_ne_of_active (h : known co.shards newId = false) {sc : ShardClient}
    (hsc : sc ∈ activeClients co.shards) : sc.shardId ≠ newId := by
  intro hid
  have hknown := known_eq_true_iff.mpr ⟨sc, (List.mem_filter.mp hsc).1, hid⟩
  rw [h] at hknown
  contradiction

/-- A key that the new ring gives to an old shard belonged to it before. -/
theorem route_of_route_add (h : known co.shards newId = false) {k : Key} {sid : Int}
    (hne : sid ≠ newId)
    (hroute : (RebalanceRequest.after (.add newId replicas) co epoch).ring.route k = some sid) :
    (buildRing co.shards).route k = some sid := by
  rw [ring_add h] at hroute
  apply HashRing.route_of_subset _ _ hroute
  · intro id hid
    rcases mem_activeIds.mp hid with ⟨sc, hsc, rfl⟩
    exact mem_activeIds.mpr ⟨sc, by rw [activeClients_add h]; exact List.mem_append_left _ hsc, rfl⟩
  · rcases mem_activeIds.mp (HashRing.route_mem hroute) with ⟨sc, hsc, hid⟩
    rw [activeClients_add h, List.mem_append] at hsc
    rcases hsc with hold | hnew
    · exact mem_activeIds.mpr ⟨sc, hold, hid⟩
    · rcases List.mem_map.mp hnew with ⟨r, -, rfl⟩
      exact absurd hid.symm hne

variable {d : Database} {fate : Int → Key → Address → Delivery}

/-- An add changes only keys that go to the new shard. -/
theorem liveVector_migrateToNew_of_stays {co' : CoordinatorState} {rpc : RpcPattern}
    {servers : Servers} {k : Key} (hroute : co'.ring.route k ≠ some newId) (a : Address) :
    ((migrateToNew co' newId rpc servers).2 a).liveVector k = (servers a).liveVector k := by
  apply liveVector_foldl_of_not_moved
  intro destReplicas hplan
  rw [addPlan, if_neg hroute] at hplan
  contradiction

/-- An add of a known shard moves nothing. -/
theorem liveVector_migrateToNew_known (hclean : Clean d) (k : Key) (a : Address) :
    ((migrateToNew d.co newId (deleteFates fate) d.servers).2 a).liveVector k =
      (d.servers a).liveVector k := by
  by_cases hroute : d.co.ring.route k = some newId
  · apply liveVector_foldl_of_not_live
    intro source hsource p hp
    rcases findPrimary_mem hp with ⟨hmem, hid, hprimary⟩
    cases hv : (d.servers p.address).liveVector k with
    | none => rfl
    | some v =>
        have hown := (hclean.fresh p hmem hprimary k v hv).1
        rw [hroute, Option.some_inj, hid] at hown
        have hne := (List.mem_filter.mp hsource).2
        rw [decide_eq_true_iff] at hne
        exact absurd hown.symm hne
  · exact liveVector_migrateToNew_of_stays hroute a

/-- The epochs after an add. -/
theorem accepts_migrateToNew {co' : CoordinatorState} {servers : Servers}
    (hown : OwnProcesses (activeClients co'.shards))
    (haccepts : ∀ sc ∈ activeClients co'.shards, (servers sc.address).currentEpoch ≤ sc.epoch) :
    ∀ sc ∈ activeClients co'.shards,
      ((migrateToNew co' newId (deleteFates fate) servers).2 sc.address).currentEpoch ≤
        sc.epoch := by
  intro sc hsc
  rw [migrateToNew, accepts_foldl_iff hown (addPlan_within co' newId) hsc]
  exact haccepts sc hsc

theorem bound_migrateToNew {co' : CoordinatorState} {servers : Servers}
    (hown : OwnProcesses (activeClients co'.shards))
    (haccepts : ∀ sc ∈ activeClients co'.shards, (servers sc.address).currentEpoch ≤ sc.epoch)
    (hepochs : ∀ sc ∈ activeClients co'.shards, sc.epoch ≤ epoch)
    (hbound : ∀ a, (servers a).currentEpoch ≤ epoch) (a : Address) :
    ((migrateToNew co' newId (deleteFates fate) servers).2 a).currentEpoch ≤ epoch := by
  by_cases ha : ∃ r ∈ activeClients co'.shards, r.address = a
  · rcases ha with ⟨r, hr, rfl⟩
    exact (accepts_migrateToNew hown haccepts r hr).trans (hepochs r hr)
  · have hout : ∀ r ∈ activeClients co'.shards, r.address ≠ a :=
      fun r hr heq => ha ⟨r, hr, heq⟩
    rw [migrateToNew, foldl_of_not_pool (addPlan_within co' newId) hout]
    exact hbound a

theorem Clean.add_known (hclean : Clean d) (hepoch : d.index < epoch) :
    Clean { d with
      servers := (migrateToNew d.co newId (deleteFates fate) d.servers).2
      index := epoch } := by
  have hlive : ∀ k a, ((migrateToNew d.co newId (deleteFates fate) d.servers).2 a).liveVector k =
      (d.servers a).liveVector k := liveVector_migrateToNew_known hclean
  refine ⟨hclean.own, hclean.ring, accepts_migrateToNew hclean.own hclean.accepts, ?_, ?_, ?_, ?_⟩
  · intro sc hsc
    exact (hclean.epochs sc hsc).trans hepoch.le
  · apply bound_migrateToNew hclean.own hclean.accepts
    · exact fun sc hsc => (hclean.epochs sc hsc).trans hepoch.le
    · exact fun a => (hclean.bound a).trans hepoch.le
  · intro p hp q hq hpprimary hqprimary hid k
    dsimp only
    rw [hlive, hlive]
    exact hclean.agree p hp q hq hpprimary hqprimary hid k
  · intro p hp hprimary k v hv
    dsimp only at hv
    rw [hlive] at hv
    exact hclean.fresh p hp hprimary k v hv

/-- The last of several candidates, or the first value. -/
theorem foldl_or_eq_some {f : Int → Option Floats} {sources : List Int} {init : Option Floats}
    {v : Floats} (h : sources.foldl (fun acc source => (f source).or acc) init = some v) :
    init = some v ∨ ∃ source ∈ sources, f source = some v := by
  induction sources generalizing init with
  | nil => exact .inl h
  | cons source sources ih =>
      rcases ih h with hfirst | ⟨source', hmem, hv⟩
      · rcases Option.or_eq_some_iff.mp hfirst with hv | ⟨-, hinit⟩
        · exact .inr ⟨source, List.mem_cons_self, hv⟩
        · exact .inl hinit
      · exact .inr ⟨source', List.mem_cons_of_mem _ hmem, hv⟩

theorem mem_activeClients_add (hknown : known co.shards newId = false) {sc : ShardClient}
    (hsc : sc ∈ activeClients (RebalanceRequest.after (.add newId replicas) co epoch).shards) :
    (sc ∈ activeClients co.shards ∧ sc.shardId ≠ newId) ∨
      ∃ r ∈ replicas, sc = ofReplica newId epoch r := by
  rw [activeClients_add hknown, List.mem_append] at hsc
  rcases hsc with hold | hnew
  · exact .inl ⟨hold, shardId_ne_of_active hknown hold⟩
  · rcases List.mem_map.mp hnew with ⟨r, hr, rfl⟩
    exact .inr ⟨r, hr, rfl⟩

/-- The clients of the new shard come with the newest epoch. -/
theorem accepts_add (hclean : Clean d) (hepoch : d.index < epoch)
    (hknown : known d.co.shards newId = false) {sc : ShardClient}
    (hsc : sc ∈ activeClients (RebalanceRequest.after (.add newId replicas) d.co epoch).shards) :
    (d.servers sc.address).currentEpoch ≤ sc.epoch ∧ sc.epoch ≤ epoch := by
  rcases mem_activeClients_add hknown hsc with ⟨hold, -⟩ | ⟨r, -, rfl⟩
  · exact ⟨hclean.accepts sc hold, (hclean.epochs sc hold).trans hepoch.le⟩
  · exact ⟨(hclean.bound _).trans hepoch.le, Nat.le_refl _⟩

/-- A key that goes to the new shard is gone from the primaries of the others. -/
theorem liveVector_migrateToNew_source (hclean : Clean d) (hepoch : d.index < epoch)
    (hknown : known d.co.shards newId = false) (hprimary : ∃ r ∈ replicas, r.primary = true)
    (hcond : LeavesNothing d (.rebalance (.add newId replicas) epoch fate)) {q : ShardClient}
    (hq : q ∈ activeClients (RebalanceRequest.after (.add newId replicas) d.co epoch).shards)
    (hqprimary : q.isPrimary = true) (hne : q.shardId ≠ newId) {k : Key}
    (hroute : (RebalanceRequest.after (.add newId replicas) d.co epoch).ring.route k =
      some newId) :
    ((migrateToNew (RebalanceRequest.after (.add newId replicas) d.co epoch) newId
      (deleteFates fate) d.servers).2 q.address).liveVector k = none := by
  rcases hcond with ⟨hown, -, hdelete⟩
  rcases exists_findPrimary (mem_replicasForShard.mpr ⟨hq, rfl⟩) hqprimary with ⟨p, hp⟩
  rcases findPrimary_mem hp with ⟨hppool, hpid, hpprimary⟩
  have hold : ∀ {sc : ShardClient}, sc.shardId ≠ newId →
      sc ∈ activeClients (RebalanceRequest.after (.add newId replicas) d.co epoch).shards →
        sc ∈ activeClients d.co.shards := by
    intro sc hsc hmem
    rcases mem_activeClients_add hknown hmem with ⟨hold, -⟩ | ⟨r, -, rfl⟩
    · exact hold
    · exact absurd rfl hsc
  have hagree := hclean.agree q (hold hne hq) p (hold (hpid ▸ hne) hppool) hqprimary hpprimary
    hpid.symm k
  rw [migrateToNew]
  apply liveVector_foldl_source hown (addPlan_within _ newId)
  · exact if_pos hroute
  · rcases hprimary with ⟨r, hr, hrprimary⟩
    refine ⟨ofReplica newId epoch r, mem_replicasForShard.mpr ⟨?_, rfl⟩, hrprimary⟩
    rw [activeClients_add hknown]
    exact List.mem_append_right _ (List.mem_map_of_mem hr)
  · exact hp
  · exact hq
  · intro k' destReplicas hplan x hx
    rw [addPlan] at hplan
    split at hplan
    · cases hplan
      rw [(mem_replicasForShard.mp hx).2]
      exact hne.symm
    · contradiction
  · exact (nodup_activeIds _).filter _
  · rw [List.mem_filter, decide_eq_true_iff]
    exact ⟨mem_activeIds.mpr ⟨q, hq, rfl⟩, hne⟩
  · exact fun r hr => (accepts_add hclean hepoch hknown hr).1
  · exact hagree
  · intro hlive
    rw [← hagree] at hlive
    exact hdelete q hq hqprimary hne k hroute hlive

/-- What a replica of the new shard holds of a key that goes there. -/
theorem liveVector_migrateToNew_home (hclean : Clean d) (hepoch : d.index < epoch)
    (hknown : known d.co.shards newId = false)
    (hcond : LeavesNothing d (.rebalance (.add newId replicas) epoch fate)) {q : ShardClient}
    (hq : q ∈ activeClients (RebalanceRequest.after (.add newId replicas) d.co epoch).shards)
    (hqprimary : q.isPrimary = true) (hid : q.shardId = newId) {k : Key}
    (hroute : (RebalanceRequest.after (.add newId replicas) d.co epoch).ring.route k =
      some newId) :
    ((migrateToNew (RebalanceRequest.after (.add newId replicas) d.co epoch) newId
      (deleteFates fate) d.servers).2 q.address).liveVector k =
    ((activeIds (RebalanceRequest.after (.add newId replicas) d.co epoch).shards).filter
      fun id => decide (id ≠ newId)).foldl (fun acc source =>
        ((findPrimary (activeClients
          (RebalanceRequest.after (.add newId replicas) d.co epoch).shards) source).bind
            fun p => (d.servers p.address).liveVector k).or acc) none := by
  have hempty : (d.servers q.address).liveVector k = none := by
    rcases mem_activeClients_add hknown hq with ⟨-, hne⟩ | ⟨r, hr, rfl⟩
    · exact absurd hid hne
    · exact hcond.2.1 hknown r hr hqprimary k
  rw [liveVector_migrateToNew _ _ hcond.1 hq (hid.symm ▸ hroute), if_pos hroute, hempty]
  apply List.foldl_ext
  intro acc source _
  rw [movedVector_deleteFates _ _ (accepts_add hclean hepoch hknown hq).1]

theorem Clean.add_new (hclean : Clean d) (hepoch : d.index < epoch)
    (hknown : known d.co.shards newId = false) (hprimary : ∃ r ∈ replicas, r.primary = true)
    (hcond : LeavesNothing d (.rebalance (.add newId replicas) epoch fate)) :
    Clean { d with
      co := RebalanceRequest.after (.add newId replicas) d.co epoch
      servers := (migrateToNew (RebalanceRequest.after (.add newId replicas) d.co epoch) newId
        (deleteFates fate) d.servers).2
      index := epoch } := by
  have hempty : ∀ {q : ShardClient}, q ∈ activeClients
      (RebalanceRequest.after (.add newId replicas) d.co epoch).shards → q.isPrimary = true →
      q.shardId = newId → ∀ k, (d.servers q.address).liveVector k = none := by
    intro q hq hqprimary hid k
    rcases mem_activeClients_add hknown hq with ⟨-, hne⟩ | ⟨r, hr, rfl⟩
    · exact absurd hid hne
    · exact hcond.2.1 hknown r hr hqprimary k
  have hold : ∀ {q : ShardClient}, q ∈ activeClients
      (RebalanceRequest.after (.add newId replicas) d.co epoch).shards → q.shardId ≠ newId →
      q ∈ activeClients d.co.shards := by
    intro q hq hne
    rcases mem_activeClients_add hknown hq with ⟨hold, -⟩ | ⟨r, -, rfl⟩
    · exact hold
    · exact absurd rfl hne
  refine ⟨hcond.1, ring_add hknown, ?_, ?_, ?_, ?_, ?_⟩
  · exact accepts_migrateToNew hcond.1 fun sc hsc => (accepts_add hclean hepoch hknown hsc).1
  · exact fun sc hsc => (accepts_add hclean hepoch hknown hsc).2
  · apply bound_migrateToNew hcond.1
    · exact fun sc hsc => (accepts_add hclean hepoch hknown hsc).1
    · exact fun sc hsc => (accepts_add hclean hepoch hknown hsc).2
    · exact fun a => (hclean.bound a).trans hepoch.le
  · intro p hp q hq hpprimary hqprimary hid k
    dsimp only
    by_cases hroute : (RebalanceRequest.after (.add newId replicas) d.co epoch).ring.route k =
        some newId
    · by_cases hnew : p.shardId = newId
      · rw [liveVector_migrateToNew_home hclean hepoch hknown hcond hp hpprimary hnew hroute,
          liveVector_migrateToNew_home hclean hepoch hknown hcond hq hqprimary (hid ▸ hnew) hroute]
      · rw [liveVector_migrateToNew_source hclean hepoch hknown hprimary hcond hp hpprimary hnew
            hroute,
          liveVector_migrateToNew_source hclean hepoch hknown hprimary hcond hq hqprimary
            (hid ▸ hnew) hroute]
    · rw [liveVector_migrateToNew_of_stays hroute, liveVector_migrateToNew_of_stays hroute]
      by_cases hnew : p.shardId = newId
      · rw [hempty hp hpprimary hnew, hempty hq hqprimary (hid ▸ hnew)]
      · exact hclean.agree p (hold hp hnew) q (hold hq (hid ▸ hnew)) hpprimary hqprimary hid k
  · intro p hp hpprimary k v hv
    dsimp only at hv
    by_cases hroute : (RebalanceRequest.after (.add newId replicas) d.co epoch).ring.route k =
        some newId
    · by_cases hnew : p.shardId = newId
      · refine ⟨hnew ▸ hroute, ?_⟩
        rw [liveVector_migrateToNew_home hclean hepoch hknown hcond hp hpprimary hnew hroute] at hv
        rcases foldl_or_eq_some hv with hnone | ⟨source, hsource, hmoved⟩
        · contradiction
        · rcases Option.bind_eq_some_iff.mp hmoved with ⟨p₀, hp₀, hv₀⟩
          rcases findPrimary_mem hp₀ with ⟨hmem₀, hid₀, hprimary₀⟩
          have hne : p₀.shardId ≠ newId := by
            rw [hid₀]
            simpa using (List.mem_filter.mp hsource).2
          exact (hclean.fresh p₀ (hold hmem₀ hne) hprimary₀ k v hv₀).2
      · rw [liveVector_migrateToNew_source hclean hepoch hknown hprimary hcond hp hpprimary hnew
          hroute] at hv
        contradiction
    · rw [liveVector_migrateToNew_of_stays hroute] at hv
      have hne : p.shardId ≠ newId := by
        intro hnew
        rw [hempty hp hpprimary hnew] at hv
        contradiction
      rcases hclean.fresh p (hold hp hne) hpprimary k v hv with ⟨hown, hlast⟩
      refine ⟨?_, hlast⟩
      -- The new ring routes the key to an old shard, so to the one it was routed to.
      have hids : activeIds (RebalanceRequest.after (.add newId replicas) d.co epoch).shards ≠ [] :=
        List.ne_nil_of_mem (mem_activeIds.mpr ⟨p, hp, rfl⟩)
      rcases HashRing.exists_route hids k with ⟨sid, hsid⟩
      have hring : (RebalanceRequest.after (.add newId replicas) d.co epoch).ring.route k =
          some sid := by
        rw [ring_add hknown]
        exact hsid
      have hsidne : sid ≠ newId := fun heq => hroute (heq ▸ hring)
      have hsame := route_of_route_add hknown hsidne hring
      rw [← hclean.ring, hown] at hsame
      exact hring.trans hsame.symm

end Add

/-! ## Runs -/

/-- An add that passes its checks. -/
theorem step_rebalance_add {d : Database} {newId : Int} {replicas : List ReplicaSpec} {epoch : Nat}
    {fate : Int → Key → Address → Delivery} (hepoch : d.index < epoch)
    (hvalid : RebalanceRequest.Valid (.add newId replicas) d.co epoch) :
    d.step (.rebalance (.add newId replicas) epoch fate) = some { d with
      co := RebalanceRequest.after (.add newId replicas) d.co epoch
      servers := (migrateToNew (RebalanceRequest.after (.add newId replicas) d.co epoch) newId
        (deleteFates fate) d.servers).2
      index := epoch } := by
  rw [step, rebalance_add_eq _ _ rfl rfl hvalid]
  exact if_pos ⟨hepoch, rfl⟩

/-- Every operation that leaves nothing behind keeps the invariant. -/
theorem Clean.step {d d' : Database} {act : Operation} (hclean : Clean d)
    (hcond : LeavesNothing d act) (h : d.step act = some d') : Clean d' := by
  cases act with
  | write op =>
      cases h
      exact hclean.write op
  | rebalance req epoch fate =>
      rw [Database.step] at h
      split at h
      · next hguard =>
          cases h
          rcases rebalance_ok_iff.mp hguard.2 with ⟨hcheck, epoch', hcommit, hvalid⟩
          cases hcommit
          cases req with
          | add newId replicas =>
              rw [rebalance_add_eq _ _ hcheck rfl hvalid]
              cases hknown : known d.co.shards newId with
              | true =>
                  dsimp only
                  rw [after_add_known hknown]
                  exact hclean.add_known hguard.1
              | false =>
                  refine hclean.add_new hguard.1 hknown ?_ hcond
                  simpa using hvalid.2.1
          | remove leavingId =>
              rw [rebalance_remove_eq _ _ hcheck rfl hvalid]
              exact hclean.remove hguard.1
      · contradiction

/-- **Rebalancing and search.**  If no add leaves a copy behind or brings one in, every
result of a strong search is about the vector of the last confirmed write of its key, and
that is an insert. -/
theorem strong_search_fresh {δ : Type*} (dist : Floats → Floats → δ) (lt : δ → δ → Bool)
    (found : Traversal) (reached : Address → Bool) (endpoints : List ShardEndpoint)
    (hown : OwnProcesses (endpoints.map ofEndpoint)) (as : List Operation) (d : Database)
    (hrun : Exec Database.step LeavesNothing (start endpoints) as d) (vec : Floats) (k : Int)
    (r : Shard.SearchResult δ)
    (hr : r ∈ (search dist lt found reached (activeClients d.co.shards) d.servers vec k
      "strong").results) :
    ∃ v m, d.lastConfirmed r.externalId = some (.insert r.externalId v m) ∧
      r.distance = dist vec v := by
  have hclean : Clean d :=
    hrun.invariant Clean (fun _ _ _ hclean hcond h => hclean.step hcond h) (Clean.init hown)
  rcases liveVector_of_mem_results hr with ⟨sc, hsc, v, hv, hdist⟩
  rcases mem_selectReadTargets_strong hsc with ⟨hactive, hprimary⟩
  rcases (hclean.fresh sc hactive hprimary _ v hv).2 with ⟨m, hlast⟩
  exact ⟨v, m, hlast, hdist⟩

/-! ## Adding a second shard -/

/-- The squared Euclidean distance of vectors that have only zeros and ones. -/
def differing (u v : Floats) : Nat :=
  (u.zip v).countP fun p => decide (p.1 ≠ p.2)

/-- All slots are found. -/
def allSlots : Traversal :=
  fun index _ _ => List.finRange index.nodes.length

def oneVector : Floats :=
  List.replicate 128 0x3f800000

/-- The second shard as the add brings it in. -/
def newReplica : ReplicaSpec :=
  ⟨0, [97], 2, true⟩

def newClient : ShardClient :=
  ofReplica 1 1 newReplica

/-- A cluster of one shard. -/
def oneShard : Database :=
  start [⟨0, 0, [97], 1, true⟩]

/-- The first shard holds a key. -/
def keyStored : Database where
  co := oneShard.co
  servers := (fanOut (.insert [97] zeroVector []) (fun _ => .answered) [firstShard]
    oneShard.servers).1
  confirmed := [.insert [97] zeroVector []]

/-- The second shard was added; the delete at the first shard had the given fate. -/
def keyMoved (fate : Delivery) : Database where
  co := RebalanceRequest.after (.add 1 [newReplica]) oneShard.co 1
  servers := (migrateOneKey firstShard [firstShard] [newClient] [97]
    ⟨.answered, fun _ => .answered, fun _ => fate⟩ keyStored.servers).2
  index := 1
  confirmed := [.insert [97] zeroVector []]

/-- The key was written again. -/
def keyUpdated (fate : Delivery) : Database where
  co := (keyMoved fate).co
  servers := (fanOut (.insert [97] oneVector []) (fun _ => .answered) [newClient]
    (keyMoved fate).servers).1
  index := 1
  confirmed := [.insert [97] oneVector [], .insert [97] zeroVector []]

theorem step_store :
    oneShard.step (.write (.insert [97] zeroVector [])) = some keyStored := by
  have hroute : oneShard.co.ring.route (WriteOp.insert [97] zeroVector []).key = some 0 := by
    have hids : activeIds oneShard.co.shards = [0] := by decide +kernel
    rcases HashRing.exists_route (by decide : ([0] : List Int) ≠ []) [97] with ⟨sid, hsid⟩
    have hzero : sid = 0 := by simpa using HashRing.route_mem hsid
    rw [← hzero, ← hsid, ← hids]
    rfl
  have hreplicas : replicasForShard (activeClients oneShard.co.shards) 0 = [firstShard] := by
    decide +kernel
  have hok : (quorumResult (fanOut (.insert [97] zeroVector []) (fun _ => .answered) [firstShard]
      oneShard.servers).2).ok = true := by decide +kernel
  rw [Database.step, write_eq hroute (by rw [hreplicas]; simp), hreplicas, hok, if_pos rfl]
  rfl

theorem active_keyMoved :
    activeClients (RebalanceRequest.after (.add 1 [newReplica]) oneShard.co 1).shards =
      [firstShard, newClient] := by
  decide +kernel

theorem route_keyMoved :
    (RebalanceRequest.after (.add 1 [newReplica]) oneShard.co 1).ring.route [97] = some 1 := by
  have hids : activeIds (RebalanceRequest.after (.add 1 [newReplica]) oneShard.co 1).shards =
      [0, 1] := by decide +kernel
  have hring : (RebalanceRequest.after (.add 1 [newReplica]) oneShard.co 1).ring =
      HashRing.build [0, 1] := by
    rw [ring_add (by decide +kernel), buildRing, hids]
  rw [hring, route_twoShards]

theorem step_add (fate : Delivery) :
    keyStored.step (.rebalance (.add 1 [newReplica]) 1 fun _ _ _ => fate) =
      some (keyMoved fate) := by
  have hvalid : RebalanceRequest.Valid (.add 1 [newReplica]) keyStored.co 1 := by
    refine ⟨by decide, by decide, ?_⟩
    change replicasForShard (activeClients
      (RebalanceRequest.after (.add 1 [newReplica]) oneShard.co 1).shards) 1 ≠ []
    rw [active_keyMoved]
    decide
  have hlisted : (keyStored.servers firstShard.address).listLocalIds = [[97]] := by
    decide +kernel
  have hids : (activeIds (RebalanceRequest.after (.add 1 [newReplica]) oneShard.co 1).shards).filter
      (fun id => decide (id ≠ 1)) = [0] := by decide +kernel
  have hmoved : (migrateToNew (RebalanceRequest.after (.add 1 [newReplica]) oneShard.co 1) 1
      (deleteFates fun _ _ _ => fate) keyStored.servers).2 = (keyMoved fate).servers := by
    have hprimary : findPrimary [firstShard, newClient] 0 = some firstShard := by decide
    have hplan : addPlan (RebalanceRequest.after (.add 1 [newReplica]) oneShard.co 1) 1 [97] =
        .moveTo [newClient] := by
      rw [addPlan, if_pos route_keyMoved, active_keyMoved]
      rfl
    have hlist : (deleteFates fun _ _ _ => fate).list 0 = .answered := rfl
    rw [migrateToNew, hids, List.foldl_cons, List.foldl_nil, active_keyMoved, migrateFrom, hprimary]
    dsimp only
    rw [if_pos hlist, hlisted, migrateKeys, hplan]
    rfl
  have hco : keyStored.co = oneShard.co := rfl
  have hindex : keyStored.index < 1 := by decide
  rw [step_rebalance_add hindex hvalid, hco, hmoved]
  simp only [keyMoved, keyStored]

theorem step_update (fate : Delivery) :
    (keyMoved fate).step (.write (.insert [97] oneVector [])) = some (keyUpdated fate) := by
  have hreplicas : replicasForShard (activeClients (keyMoved fate).co.shards) 1 = [newClient] := by
    change replicasForShard (activeClients
      (RebalanceRequest.after (.add 1 [newReplica]) oneShard.co 1).shards) 1 = _
    rw [active_keyMoved]
    decide
  have hok : (quorumResult (fanOut (.insert [97] oneVector []) (fun _ => .answered) [newClient]
      (keyMoved fate).servers).2).ok = true := by
    cases fate <;> decide +kernel
  have hroute : (keyMoved fate).co.ring.route (WriteOp.insert [97] oneVector []).key = some 1 :=
    route_keyMoved
  rw [Database.step, write_eq hroute (by rw [hreplicas]; simp), hreplicas, hok, if_pos rfl]
  rfl

theorem leavesNothing_add :
    LeavesNothing keyStored (.rebalance (.add 1 [newReplica]) 1 fun _ _ _ => .answered) := by
  have hempty : keyStored.servers ([97], 2) = {} := by decide +kernel
  refine ⟨?_, ?_, ?_⟩
  · change OwnProcesses (activeClients
      (RebalanceRequest.after (.add 1 [newReplica]) oneShard.co 1).shards)
    rw [active_keyMoved]
    decide
  · intro _ r hr _ k
    rw [List.mem_singleton] at hr
    rw [hr]
    change (keyStored.servers ([97], 2)).liveVector k = none
    rw [hempty]
    rfl
  · intro p _ _ _ k _ _ hlost
    cases hlost

theorem strong_search_fresh_deleteAnswered :
    (⟨[97], 128, []⟩ : Shard.SearchResult Nat) ∈
        (search differing (fun a b => decide (a < b)) allSlots (fun _ => true)
          (activeClients (keyUpdated .answered).co.shards) (keyUpdated .answered).servers
          zeroVector 10 "strong").results ∧
      ∃ v m, (keyUpdated .answered).lastConfirmed [97] = some (.insert [97] v m) ∧
        128 = differing zeroVector v := by
  have hrun : Exec Database.step LeavesNothing (start [⟨0, 0, [97], 1, true⟩])
      [.write (.insert [97] zeroVector []),
        .rebalance (.add 1 [newReplica]) 1 fun _ _ _ => .answered,
        .write (.insert [97] oneVector [])] (keyUpdated .answered) :=
    .cons trivial step_store (.cons leavesNothing_add (step_add .answered)
      (.cons trivial (step_update .answered) (.nil _)))
  have hresult : (⟨[97], 128, []⟩ : Shard.SearchResult Nat) ∈
      (search differing (fun a b => decide (a < b)) allSlots (fun _ => true)
        (activeClients (keyUpdated .answered).co.shards) (keyUpdated .answered).servers
        zeroVector 10 "strong").results := by
    change _ ∈ (search differing (fun a b => decide (a < b)) allSlots (fun _ => true)
      (activeClients (RebalanceRequest.after (.add 1 [newReplica]) oneShard.co 1).shards)
      (keyUpdated .answered).servers zeroVector 10 "strong").results
    rw [active_keyMoved]
    decide +kernel
  exact ⟨hresult, strong_search_fresh differing _ allSlots _ _ (by decide) _ _ hrun zeroVector 10 _
    hresult⟩

/-- Add a shard with the source's delete lost, insert the key again, and search for its old
vector: the copy on the first shard is the answer. -/
theorem strong_search_stale :
    ∃ as d, Exec Database.step (fun _ _ => True) (start [⟨0, 0, [97], 1, true⟩]) as d ∧
      ∃ r ∈ (search differing (fun a b => decide (a < b)) allSlots (fun _ => true)
          (activeClients d.co.shards) d.servers zeroVector 10 "strong").results,
        ¬ ∃ v m, d.lastConfirmed r.externalId = some (.insert r.externalId v m) ∧
          r.distance = differing zeroVector v := by
  refine ⟨_, keyUpdated .lost, .cons trivial step_store (.cons trivial (step_add .lost)
    (.cons trivial (step_update .lost) (.nil _))), ⟨[97], 0, []⟩, ?_, ?_⟩
  · change _ ∈ (search differing (fun a b => decide (a < b)) allSlots (fun _ => true)
      (activeClients (RebalanceRequest.after (.add 1 [newReplica]) oneShard.co 1).shards)
      (keyUpdated .lost).servers zeroVector 10 "strong").results
    rw [active_keyMoved]
    decide +kernel
  · rintro ⟨v, m, hlast, hdist⟩
    have hupdate : (keyUpdated .lost).lastConfirmed [97] = some (.insert [97] oneVector []) := by
      decide +kernel
    rw [hupdate] at hlast
    cases hlast
    revert hdist
    decide +kernel

end Database

end NanoDB.Coordinator
