import Mathlib.Data.List.Dedup
import NanoDB.Cluster.HashRing

/-!
# The coordinator's topology

The replicas a coordinator knows, and what the committed commands
{lit}`add_shard`, {lit}`remove_shard` and {lit}`set_primary` do to them.  The list of
clients is append-only: a removed replica stays in it, inactive.  Channels and stubs
are left out.  Commands and snapshots are the JSON objects that are written to the
log, not their texts.

Main results:

- Theorem {lit}`active_applyCommand`: what a command does to the active replicas
  depends on them and on whether a shard id is known at all.
- Theorem {lit}`known_applyCommand`: which shard ids a command makes known.
- Theorem {lit}`active_loadSnapshot`: a loaded snapshot restores the active replicas
  it was taken from.
-/

namespace NanoDB.Coordinator

open Raft (Bytes)
open Cluster (HashRing Key)

/-- A replica as a coordinator knows it. -/
structure ShardClient where
  shardId : Int
  replicaId : Int
  host : Bytes
  port : Int
  active : Bool := true
  isPrimary : Bool := false
  epoch : Nat := 0
deriving DecidableEq, Repr

/-- One line of the cluster config file. -/
structure ShardEndpoint where
  shardId : Int
  replicaId : Int
  host : Bytes
  port : Int
  isPrimary : Bool
deriving DecidableEq, Repr

/-- One element of the replica list of an {lit}`add_shard` command. -/
structure ReplicaSpec where
  replicaId : Int
  host : Bytes
  port : Int
  primary : Bool
deriving DecidableEq, Repr

/-- A committed command.  {lit}`malformed` stands for every text that does not parse
as one of the three kinds: it is skipped with a warning. -/
inductive Command where
  | addShard (shardId : Int) (replicas : List ReplicaSpec)
  | removeShard (shardId : Int)
  | setPrimary (shardId : Int) (replicaId : Int)
  | malformed
deriving DecidableEq, Repr

/-- One element of the snapshot that {lit}`serialize_raft_snapshot` writes. -/
structure SnapshotShard where
  shardId : Int
  replicaId : Int
  host : Bytes
  port : Int
  primary : Bool
  epoch : Nat
deriving DecidableEq, Repr

/-! ## Clients -/

/-- The active replicas, in the order in which they were added. -/
def activeClients (shards : List ShardClient) : List ShardClient :=
  shards.filter (·.active)

/-- Whether any client, active or not, has the shard id. -/
def known (shards : List ShardClient) (shardId : Int) : Bool :=
  shards.any fun sc => decide (sc.shardId = shardId)

/-- The ids of the active shards, sorted and without repetition. -/
def activeIds (shards : List ShardClient) : List Int :=
  ((activeClients shards).map (·.shardId)).dedup.insertionSort (· ≤ ·)

/-- The ring over the active shards. -/
def buildRing (shards : List ShardClient) : HashRing :=
  HashRing.build (activeIds shards)

theorem mem_activeIds {shards : List ShardClient} {id : Int} :
    id ∈ activeIds shards ↔ ∃ sc ∈ activeClients shards, sc.shardId = id := by
  rw [activeIds, List.mem_insertionSort, List.mem_dedup, List.mem_map]

theorem nodup_activeIds (shards : List ShardClient) : (activeIds shards).Nodup := by
  rw [activeIds, (List.perm_insertionSort _ _).nodup_iff]
  exact List.nodup_dedup _

theorem sorted_activeIds (shards : List ShardClient) : (activeIds shards).Pairwise (· ≤ ·) :=
  List.pairwise_insertionSort _ _

/-- A client for an endpoint of the config file; its epoch is 0. -/
def ofEndpoint (ep : ShardEndpoint) : ShardClient where
  shardId := ep.shardId
  replicaId := ep.replicaId
  host := ep.host
  port := ep.port
  isPrimary := ep.isPrimary

/-- A client for a replica of an added shard. -/
def ofReplica (shardId : Int) (epoch : Nat) (r : ReplicaSpec) : ShardClient where
  shardId := shardId
  replicaId := r.replicaId
  host := r.host
  port := r.port
  isPrimary := r.primary
  epoch := epoch

/-! ## Commands -/

/-- One command of the apply loop.  A shard id that is known, even of a removed
shard, makes {lit}`add_shard` a no-op. -/
def applyCommand (shards : List ShardClient) (commandEpoch : Nat) : Command → List ShardClient
  | .addShard shardId replicas =>
      if known shards shardId then shards
      else shards ++ replicas.map (ofReplica shardId commandEpoch)
  | .removeShard shardId =>
      shards.map fun sc => if sc.shardId = shardId then { sc with active := false } else sc
  | .setPrimary shardId replicaId =>
      shards.map fun sc =>
        if sc.shardId = shardId then
          { sc with isPrimary := decide (sc.replicaId = replicaId), epoch := commandEpoch }
        else sc
  | .malformed => shards

/-- Apply commands in order; the first one has the index {lit}`base + 1`. -/
def applyFrom (base : Nat) (shards : List ShardClient) : List Command → List ShardClient
  | [] => shards
  | cmd :: cmds => applyFrom (base + 1) (applyCommand shards (base + 1) cmd) cmds

theorem applyFrom_append (base : Nat) (shards : List ShardClient) (cmds cmds' : List Command) :
    applyFrom base shards (cmds ++ cmds') =
      applyFrom (base + cmds.length) (applyFrom base shards cmds) cmds' := by
  induction cmds generalizing base shards with
  | nil => rfl
  | cons cmd cmds ih =>
      rw [List.cons_append, applyFrom, ih, List.length_cons, applyFrom]
      congr 1
      omega

/-! ## Snapshots -/

/-- Serialize the active replicas. -/
def serializeSnapshot (shards : List ShardClient) : List SnapshotShard :=
  (activeClients shards).map fun sc =>
    ⟨sc.shardId, sc.replicaId, sc.host, sc.port, sc.isPrimary, sc.epoch⟩

/-- A client for an element of a snapshot. -/
def ofSnapshot (r : SnapshotShard) : ShardClient where
  shardId := r.shardId
  replicaId := r.replicaId
  host := r.host
  port := r.port
  isPrimary := r.primary
  epoch := r.epoch

/-- Load a snapshot: the old clients stay, inactive. -/
def loadSnapshot (shards : List ShardClient) (snap : List SnapshotShard) : List ShardClient :=
  shards.map (fun sc => { sc with active := false }) ++ snap.map ofSnapshot

/-! ## What commands and snapshots do to the active replicas -/

section Active

variable {shards shards' : List ShardClient} {shardId : Int}

@[simp]
theorem activeClients_append (shards shards' : List ShardClient) :
    activeClients (shards ++ shards') = activeClients shards ++ activeClients shards' :=
  List.filter_append ..

theorem known_append (shards shards' : List ShardClient) (shardId : Int) :
    known (shards ++ shards') shardId = (known shards shardId || known shards' shardId) :=
  List.any_append

theorem known_eq_true_iff : known shards shardId = true ↔ ∃ sc ∈ shards, sc.shardId = shardId := by
  simp [known]

/-- New replicas are active. -/
theorem activeClients_map_ofReplica (shardId : Int) (epoch : Nat) (replicas : List ReplicaSpec) :
    activeClients (replicas.map (ofReplica shardId epoch)) =
      replicas.map (ofReplica shardId epoch) := by
  rw [activeClients, List.filter_eq_self]
  intro sc hsc
  obtain ⟨r, -, rfl⟩ := List.mem_map.mp hsc
  rfl

/-- A removal filters the active replicas. -/
theorem activeClients_removeShard (shards : List ShardClient) (epoch : Nat) (shardId : Int) :
    activeClients (applyCommand shards epoch (.removeShard shardId)) =
      (activeClients shards).filter fun sc => decide (sc.shardId ≠ shardId) := by
  simp only [applyCommand, activeClients]
  induction shards with
  | nil => rfl
  | cons sc shards ih =>
      by_cases hid : sc.shardId = shardId <;> by_cases hact : sc.active = true <;>
        simp [hid, hact, ih]

/-- A promotion changes the active replicas in place. -/
theorem activeClients_setPrimary (shards : List ShardClient) (epoch : Nat)
    (shardId replicaId : Int) :
    activeClients (applyCommand shards epoch (.setPrimary shardId replicaId)) =
      applyCommand (activeClients shards) epoch (.setPrimary shardId replicaId) := by
  simp only [applyCommand, activeClients]
  induction shards with
  | nil => rfl
  | cons sc shards ih =>
      by_cases hid : sc.shardId = shardId <;> by_cases hact : sc.active = true <;>
        simp [hid, hact, ih]

/-- Two lists with the same active replicas have the same ones after a command, if
they agree on whether the shard of an {lit}`add_shard` is known. -/
theorem active_applyCommand {epoch : Nat} {cmd : Command}
    (hactive : activeClients shards = activeClients shards')
    (hknown : ∀ shardId replicas, cmd = .addShard shardId replicas → replicas ≠ [] →
      known shards shardId = known shards' shardId) :
    activeClients (applyCommand shards epoch cmd) =
      activeClients (applyCommand shards' epoch cmd) := by
  cases cmd with
  | addShard shardId replicas =>
      by_cases hnil : replicas = []
      · simp [applyCommand, hnil, hactive]
      · simp only [applyCommand, hknown shardId replicas rfl hnil]
        split
        · exact hactive
        · rw [activeClients_append, activeClients_append, hactive]
  | removeShard shardId => rw [activeClients_removeShard, activeClients_removeShard, hactive]
  | setPrimary shardId replicaId =>
      rw [activeClients_setPrimary, activeClients_setPrimary, hactive]
  | malformed => exact hactive

/-- The shard ids a list knows after a command: only an {lit}`add_shard` with
replicas makes a new one known, and none is forgotten. -/
theorem known_applyCommand (shards : List ShardClient) (epoch : Nat) (cmd : Command)
    (shardId : Int) :
    known (applyCommand shards epoch cmd) shardId = true ↔
      known shards shardId = true ∨ ∃ replicas,
        cmd = .addShard shardId replicas ∧ replicas ≠ [] := by
  cases cmd with
  | addShard sid replicas =>
      by_cases hkn : known shards sid = true
      · simp only [applyCommand, hkn, if_true, Command.addShard.injEq]
        constructor
        · exact .inl
        · rintro (h | ⟨_, ⟨rfl, -⟩, -⟩)
          · exact h
          · exact hkn
      · simp only [applyCommand, hkn, Bool.false_eq_true, if_false, known_append, Bool.or_eq_true,
          Command.addShard.injEq]
        refine or_congr_right ?_
        simp only [known_eq_true_iff, List.mem_map, exists_exists_and_eq_and, ofReplica]
        constructor
        · rintro ⟨r, hr, rfl⟩
          exact ⟨replicas, ⟨rfl, rfl⟩, List.ne_nil_of_mem hr⟩
        · rintro ⟨_, ⟨rfl, rfl⟩, hne⟩
          obtain ⟨r, rest, rfl⟩ := List.exists_cons_of_ne_nil hne
          exact ⟨r, List.mem_cons_self, rfl⟩
  | removeShard sid =>
      simp only [applyCommand, known, List.any_map, Function.comp_def]
      simp [apply_ite]
  | setPrimary sid replicaId =>
      simp only [applyCommand, known, List.any_map, Function.comp_def]
      simp [apply_ite]
  | malformed => simp [applyCommand]

/-- The clients of a snapshot are the active replicas it was taken from. -/
theorem map_ofSnapshot_serializeSnapshot (shards : List ShardClient) :
    (serializeSnapshot shards).map ofSnapshot = activeClients shards := by
  rw [serializeSnapshot, List.map_map]
  refine (List.map_congr_left fun sc hsc => ?_).trans (List.map_id _)
  have hact := (List.mem_filter.mp hsc).2
  cases sc
  simp_all [ofSnapshot]

/-- After a load exactly the clients of the snapshot are active. -/
theorem activeClients_loadSnapshot (shards : List ShardClient) (snap : List SnapshotShard) :
    activeClients (loadSnapshot shards snap) = snap.map ofSnapshot := by
  have hold : activeClients (shards.map fun sc => { sc with active := false }) = [] := by
    simp [activeClients]
  rw [loadSnapshot, activeClients_append, hold, List.nil_append, activeClients,
    List.filter_eq_self]
  intro sc hsc
  rcases List.mem_map.mp hsc with ⟨r, -, rfl⟩
  rfl

/-- A loaded snapshot restores the active replicas it was taken from. -/
theorem active_loadSnapshot (shards shards' : List ShardClient) :
    activeClients (loadSnapshot shards (serializeSnapshot shards')) = activeClients shards' := by
  rw [activeClients_loadSnapshot, map_ofSnapshot_serializeSnapshot]

/-- Loading a snapshot forgets no shard id and makes the active ones of the snapshot
known. -/
theorem known_loadSnapshot (shards shards' : List ShardClient) (shardId : Int) :
    known (loadSnapshot shards (serializeSnapshot shards')) shardId =
      (known shards shardId || known (activeClients shards') shardId) := by
  simp only [loadSnapshot, known, List.any_append, List.any_map, serializeSnapshot]
  rfl

/-- An active shard is known. -/
theorem known_of_active (h : known (activeClients shards) shardId = true) :
    known shards shardId = true := by
  rw [known_eq_true_iff] at h ⊢
  obtain ⟨sc, hsc, hid⟩ := h
  exact ⟨sc, (List.mem_filter.mp hsc).1, hid⟩

end Active

end NanoDB.Coordinator
