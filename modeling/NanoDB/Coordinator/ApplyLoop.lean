import NanoDB.Coordinator.Topology
import NanoDB.Raft.Cluster

/-!
# The apply loop

{lit}`apply_pending_raft_commands` copies the applied part of the replicated log into
the coordinator's topology.  It reads the node's status once, loads a snapshot that
is newer than the one it knows of, applies the commands after its cursor, and may then
compact the node's log; between the status and the compaction the node may change.

Main results:

- Theorems {lit}`appliedLog_compact` and {lit}`appliedLog_handleInstallSnapshot`: the
  applied part of a Raft node changes as the abstract {lit}`AppliedLog` does.
- Theorem {lit}`CoordinatorState.applyCommands_shards`: the loop over the commands is
  {lit}`applyFrom`.
- Theorem {lit}`CoordInv.applyPending`: the rule of the apply loop, for any meaning of
  "the clients are right for an index" that one command preserves.
-/

namespace NanoDB.Coordinator

open Raft (Bytes RaftNode)
open Cluster (HashRing Key)

/-! ## The applied part of a Raft node -/

/-- What {lit}`RaftNode::status` shows of the applied log, for commands and snapshots
of arbitrary types; no snapshot data stands for the empty string. -/
structure AppliedLog (γ δ : Type*) where
  snapshotLastIndex : Nat := 0
  snapshotData : Option δ := none
  lastApplied : Nat := 0
  appliedCommands : List γ := []

namespace AppliedLog

variable {γ δ : Type*}

/-- The next committed command is applied. -/
def applyNext (st : AppliedLog γ δ) (cmd : γ) : AppliedLog γ δ :=
  { st with
    lastApplied := st.lastApplied + 1
    appliedCommands := st.appliedCommands ++ [cmd] }

/-- Local compaction. -/
def compact (st : AppliedLog γ δ) (upToIndex : Nat) (data : Option δ) : AppliedLog γ δ × Bool :=
  if upToIndex ≤ st.snapshotLastIndex then (st, false)
  else if upToIndex > st.lastApplied then (st, false)
  else if upToIndex - st.snapshotLastIndex > st.appliedCommands.length then (st, false)
  else
    ({ st with
        snapshotLastIndex := upToIndex
        snapshotData := data
        appliedCommands := st.appliedCommands.drop (upToIndex - st.snapshotLastIndex) },
      true)

/-- A snapshot arrives from the leader. -/
def installSnapshot (st : AppliedLog γ δ) (lastIncludedIndex : Nat) (data : Option δ) :
    AppliedLog γ δ :=
  if lastIncludedIndex ≤ st.snapshotLastIndex then st
  else
    { snapshotLastIndex := lastIncludedIndex
      snapshotData := data
      lastApplied := max st.lastApplied lastIncludedIndex
      appliedCommands := st.appliedCommands.drop
        (min (lastIncludedIndex - st.snapshotLastIndex) st.appliedCommands.length) }

end AppliedLog

section View

variable {γ δ : Type*} (parse : Bytes → γ) (parseData : Bytes → Option δ)

/-- The applied part of a node, with its texts parsed. -/
def appliedLog (node : RaftNode) : AppliedLog γ δ where
  snapshotLastIndex := node.log.snapshotLastIndex
  snapshotData := parseData node.log.snapshotData
  lastApplied := node.lastApplied
  appliedCommands := node.appliedCommands.map parse

/-- One turn of the node's apply loop, for a command that is not empty. -/
theorem appliedLog_applyNext (node : RaftNode)
    (hne : node.log.commandAt (node.lastApplied + 1) ≠ []) :
    appliedLog parse parseData node.applyNext =
      (appliedLog parse parseData node).applyNext
        (parse (node.log.commandAt (node.lastApplied + 1))) := by
  unfold RaftNode.applyNext
  dsimp only
  rw [if_neg (by simpa using hne)]
  simp [appliedLog, AppliedLog.applyNext]

theorem appliedLog_compact (node : RaftNode) (upToIndex : Nat) (data : Bytes) :
    (appliedLog parse parseData (node.compact upToIndex data).1, (node.compact upToIndex data).2) =
      (appliedLog parse parseData node).compact upToIndex (parseData data) := by
  unfold RaftNode.compact AppliedLog.compact appliedLog
  dsimp only
  simp only [List.length_map]
  split_ifs with hold happlied hlen
  · rfl
  · rfl
  · rfl
  · simp [Raft.RaftLog.compact, hold, List.map_drop]

/-- A snapshot that a node accepts: its term is current. -/
theorem appliedLog_handleInstallSnapshot (node : RaftNode) (req : Raft.InstallSnapshotRequest)
    (hterm : node.state.currentTerm ≤ req.term) :
    appliedLog parse parseData (node.handleInstallSnapshot req).1 =
      (appliedLog parse parseData node).installSnapshot req.lastIncludedIndex
        (parseData req.data) := by
  have hobs : (node.observeTerm req.term).state.currentTerm = req.term ∧
      (node.observeTerm req.term).appliedCommands = node.appliedCommands := by
    unfold RaftNode.observeTerm
    split_ifs with hnew
    · exact ⟨rfl, rfl⟩
    · exact ⟨le_antisymm hterm (Nat.le_of_not_gt hnew), rfl⟩
  unfold RaftNode.handleInstallSnapshot AppliedLog.installSnapshot appliedLog
  dsimp only
  rw [if_neg (by rw [hobs.1]; exact lt_irrefl _)]
  simp only [RaftNode.observeTerm_log, RaftNode.observeTerm_lastApplied, List.length_map, hobs.2]
  split_ifs with hold
  · simp
  · simp [Raft.RaftLog.compact, hold, List.map_drop]

end View

/-! ## The coordinator -/

/-- The snapshots and the applied log of the control plane. -/
abbrev Snapshot := List SnapshotShard

abbrev TopologyLog := AppliedLog Command Snapshot

/-- The topology of a coordinator and its two cursors.  {lit}`appliedIndex` is a
ghost: the log index up to which the topology reflects the log. -/
structure CoordinatorState where
  shards : List ShardClient
  ring : HashRing
  localAppliedCount : Nat := 0
  snapshotAppliedIndex : Nat := 0
  appliedIndex : Nat := 0

def compactionThreshold : Nat := 64

namespace CoordinatorState

/-- Startup: the topology of the config file, with the cursor set to the snapshot
index of the Raft node.  The snapshot itself is not loaded. -/
def boot (endpoints : List ShardEndpoint) (snapshotLastIndex : Nat) : CoordinatorState where
  shards := endpoints.map ofEndpoint
  ring := buildRing (endpoints.map ofEndpoint)
  snapshotAppliedIndex := snapshotLastIndex
  appliedIndex := snapshotLastIndex

/-- Load a snapshot that is newer than the cursor. -/
def catchUp (co : CoordinatorState) (st : TopologyLog) : CoordinatorState :=
  if st.snapshotLastIndex > co.snapshotAppliedIndex then
    let co := match st.snapshotData with
      | none => co
      | some snap =>
          { co with
            shards := loadSnapshot co.shards snap
            ring := buildRing (loadSnapshot co.shards snap) }
    { co with
      snapshotAppliedIndex := st.snapshotLastIndex
      localAppliedCount := 0
      appliedIndex := st.snapshotLastIndex }
  else co

/-- One turn of the loop over the commands.  The ring is rebuilt when replicas are
added or removed. -/
def applyOne (co : CoordinatorState) (commandEpoch : Nat) (cmd : Command) : CoordinatorState :=
  let shards := applyCommand co.shards commandEpoch cmd
  { co with
    shards := shards
    ring := match cmd with
      | .addShard shardId _ => if known co.shards shardId then co.ring else buildRing shards
      | .removeShard _ => buildRing shards
      | _ => co.ring }

/-- The loop over the commands; the first one has the index {lit}`base + 1`. -/
def applyCommands (base : Nat) (co : CoordinatorState) : List Command → CoordinatorState
  | [] => co
  | cmd :: cmds => applyCommands (base + 1) (co.applyOne (base + 1) cmd) cmds

/-- {lit}`apply_pending_raft_commands` up to its call of {lit}`compact`, with the
arguments of that call if there is one. -/
def applyPending (co : CoordinatorState) (st : TopologyLog) :
    CoordinatorState × Option (Nat × Snapshot) :=
  let co := co.catchUp st
  if st.appliedCommands.length ≤ co.localAppliedCount then (co, none)
  else
    let co := applyCommands (st.snapshotLastIndex + co.localAppliedCount) co
      (st.appliedCommands.drop co.localAppliedCount)
    let co :=
      { co with
        localAppliedCount := st.appliedCommands.length
        appliedIndex := st.snapshotLastIndex + st.appliedCommands.length }
    if co.localAppliedCount ≥ compactionThreshold then
      (co, some (st.snapshotLastIndex + co.localAppliedCount, serializeSnapshot co.shards))
    else (co, none)

/-- The loop applies the commands to the clients in order. -/
theorem applyCommands_shards (base : Nat) (co : CoordinatorState) (cmds : List Command) :
    (applyCommands base co cmds).shards = applyFrom base co.shards cmds := by
  induction cmds generalizing base co with
  | nil => rfl
  | cons cmd cmds ih => exact ih (base + 1) (co.applyOne (base + 1) cmd)

/-- The loop leaves the cursors alone. -/
theorem applyCommands_cursors (base : Nat) (co : CoordinatorState) (cmds : List Command) :
    (applyCommands base co cmds).snapshotAppliedIndex = co.snapshotAppliedIndex ∧
      (applyCommands base co cmds).localAppliedCount = co.localAppliedCount := by
  induction cmds generalizing base co with
  | nil => exact ⟨rfl, rfl⟩
  | cons cmd cmds ih => exact ih (base + 1) (co.applyOne (base + 1) cmd)

/-- A promotion moves no replica, so the ring stays. -/
theorem activeIds_setPrimary (shards : List ShardClient) (epoch : Nat) (shardId replicaId : Int) :
    activeIds (applyCommand shards epoch (.setPrimary shardId replicaId)) = activeIds shards := by
  have hids : (activeClients (applyCommand shards epoch (.setPrimary shardId replicaId))).map
      (·.shardId) = (activeClients shards).map (·.shardId) := by
    rw [activeClients_setPrimary, applyCommand, List.map_map]
    refine List.map_congr_left fun sc _ => ?_
    simp [apply_ite]
  rw [activeIds, hids, activeIds]

/-- A command keeps the ring the ring over the active shards. -/
theorem applyOne_ring {co : CoordinatorState} (commandEpoch : Nat) (cmd : Command)
    (hring : co.ring = buildRing co.shards) :
    (co.applyOne commandEpoch cmd).ring = buildRing (co.applyOne commandEpoch cmd).shards := by
  cases cmd with
  | addShard shardId replicas =>
      simp only [applyOne, applyCommand]
      split
      · exact hring
      · rfl
  | removeShard shardId => rfl
  | setPrimary shardId replicaId =>
      simp only [applyOne]
      rw [hring, buildRing, buildRing, activeIds_setPrimary]
  | malformed => exact hring

/-- The ring always is the ring over the active shards. -/
theorem applyCommands_ring (base : Nat) (co : CoordinatorState) (cmds : List Command)
    (hring : co.ring = buildRing co.shards) :
    (applyCommands base co cmds).ring = buildRing (applyCommands base co cmds).shards := by
  induction cmds generalizing base co with
  | nil => exact hring
  | cons cmd cmds ih => exact ih (base + 1) _ (applyOne_ring (base + 1) cmd hring)

end CoordinatorState

/-! ## The invariant of the loop -/

section LoopInvariant

variable (T : Nat → List ShardClient → Prop) (K : Nat → Snapshot → Prop) (base : Nat)
  (log : List Command)

/-- The applied part of the node is a slice of the log.  A snapshot beyond the index
{lit}`base` is a correct one, in the sense of {lit}`K`. -/
structure NodeInv (st : TopologyLog) : Prop where
  base_le : base ≤ st.snapshotLastIndex
  snapshot_le : st.snapshotLastIndex ≤ st.lastApplied
  applied_le : st.lastApplied ≤ log.length
  commands : st.appliedCommands = (log.take st.lastApplied).drop st.snapshotLastIndex
  data : base < st.snapshotLastIndex →
    ∃ snap, st.snapshotData = some snap ∧ K st.snapshotLastIndex snap

/-- The clients are right for the coordinator's applied index, in the sense of
{lit}`T`, and its cursors say where that is as long as the node has no newer
snapshot. -/
structure CoordInv (st : TopologyLog) (co : CoordinatorState) : Prop where
  base_le : base ≤ co.snapshotAppliedIndex
  cursor_le : co.snapshotAppliedIndex ≤ st.snapshotLastIndex
  cursor : co.snapshotAppliedIndex = st.snapshotLastIndex →
    co.appliedIndex = st.snapshotLastIndex + co.localAppliedCount ∧
      co.localAppliedCount ≤ st.appliedCommands.length
  index_le : co.appliedIndex ≤ log.length
  tracks : T co.appliedIndex co.shards
  ring : co.ring = buildRing co.shards

variable {T K base log} {st st' : TopologyLog} {co : CoordinatorState}

namespace NodeInv

theorem append {K' : Nat → Snapshot → Prop} (hinv : NodeInv K base log st) (cmds : List Command)
    (hK : ∀ index snap, K index snap → K' index snap) : NodeInv K' base (log ++ cmds) st where
  base_le := hinv.base_le
  snapshot_le := hinv.snapshot_le
  applied_le := hinv.applied_le.trans (by simp)
  commands := by
    rw [List.take_append_of_le_length hinv.applied_le]
    exact hinv.commands
  data hpos := by
    obtain ⟨snap, hsnap, hok⟩ := hinv.data hpos
    exact ⟨snap, hsnap, hK _ _ hok⟩

theorem length_commands (hinv : NodeInv K base log st) :
    st.snapshotLastIndex + st.appliedCommands.length = st.lastApplied := by
  have := hinv.snapshot_le
  rw [hinv.commands, List.length_drop, List.length_take, min_eq_left hinv.applied_le]
  omega

theorem applyNext (hinv : NodeInv K base log st) {cmd : Command}
    (hcmd : log[st.lastApplied]? = some cmd) : NodeInv K base log (st.applyNext cmd) where
  base_le := hinv.base_le
  snapshot_le := hinv.snapshot_le.trans (Nat.le_succ _)
  applied_le := (List.getElem?_eq_some_iff.mp hcmd).1
  commands := by
    have hlen : st.snapshotLastIndex ≤ (log.take st.lastApplied).length := by
      rw [List.length_take, min_eq_left hinv.applied_le]
      exact hinv.snapshot_le
    have htake : log.take (st.lastApplied + 1) = log.take st.lastApplied ++ [cmd] := by
      rw [List.take_add_one, hcmd]
      rfl
    simp only [AppliedLog.applyNext]
    rw [htake, List.drop_append_of_le_length hlen, ← hinv.commands]
  data := hinv.data

theorem installSnapshot (hinv : NodeInv K base log st) {index : Nat} {snap : Snapshot}
    (hle : index ≤ log.length) (hok : K index snap) :
    NodeInv K base log (st.installSnapshot index (some snap)) := by
  unfold AppliedLog.installSnapshot
  split_ifs with hold
  · exact hinv
  · have hlen := hinv.length_commands
    have hbase := hinv.base_le
    refine ⟨by dsimp only; omega, le_max_right _ _, max_le hinv.applied_le hle, ?_,
      fun _ => ⟨snap, rfl, hok⟩⟩
    dsimp only
    rcases Nat.le_total index st.lastApplied with hle | hge
    · rw [max_eq_left hle, min_eq_left (by omega), hinv.commands, List.drop_drop]
      congr 1
      omega
    · rw [max_eq_right hge, min_eq_right (by omega), List.drop_length,
        List.drop_eq_nil_of_le (by simp)]

theorem compact (hinv : NodeInv K base log st) {upToIndex : Nat} {snap : Snapshot}
    (hok : K upToIndex snap) : NodeInv K base log (st.compact upToIndex (some snap)).1 := by
  unfold AppliedLog.compact
  split_ifs with hold happlied hlen
  · exact hinv
  · exact hinv
  · exact hinv
  · have hbase := hinv.base_le
    refine ⟨by dsimp only; omega, Nat.le_of_not_gt happlied, hinv.applied_le, ?_,
      fun _ => ⟨snap, rfl, hok⟩⟩
    dsimp only
    rw [hinv.commands, List.drop_drop]
    congr 1
    omega

end NodeInv

/-- A compaction that is made puts the snapshot at the given index. -/
theorem AppliedLog.compact_done {γ δ : Type*} {st : AppliedLog γ δ} {upToIndex : Nat}
    {data : Option δ} (h : (st.compact upToIndex data).2 = true) :
    st.snapshotLastIndex < upToIndex ∧
      (st.compact upToIndex data).1.snapshotLastIndex = upToIndex := by
  unfold AppliedLog.compact at h ⊢
  split_ifs at h ⊢ with hold happlied hlen
  exact ⟨Nat.lt_of_not_le hold, rfl⟩

namespace CoordInv

theorem append {T' : Nat → List ShardClient → Prop} (hinv : CoordInv T base log st co)
    (cmds : List Command) (hT : ∀ i shards, i ≤ log.length → T i shards → T' i shards) :
    CoordInv T' base (log ++ cmds) st co :=
  ⟨hinv.base_le, hinv.cursor_le, hinv.cursor, hinv.index_le.trans (by simp),
    hT _ _ hinv.index_le hinv.tracks, hinv.ring⟩

/-- The node moves on: it applies more, or gets a newer snapshot. -/
theorem of_node (hinv : CoordInv T base log st co)
    (hnode : st.snapshotLastIndex < st'.snapshotLastIndex ∨
      (st'.snapshotLastIndex = st.snapshotLastIndex ∧
        st.appliedCommands.length ≤ st'.appliedCommands.length)) :
    CoordInv T base log st' co := by
  have hle := hinv.cursor_le
  refine ⟨hinv.base_le, by omega, fun hcursor => ?_, hinv.index_le, hinv.tracks, hinv.ring⟩
  rcases hnode with hlt | ⟨heq, hlen⟩
  · omega
  · rw [heq] at hcursor ⊢
    obtain ⟨hindex, hcount⟩ := hinv.cursor hcursor
    exact ⟨hindex, hcount.trans hlen⟩

/-- A compaction resets the count, but not the cursor to the snapshot. -/
theorem of_compact (hinv : CoordInv T base log st co)
    (hnewer : st.snapshotLastIndex < st'.snapshotLastIndex) :
    CoordInv T base log st' { co with localAppliedCount := 0 } := by
  have hold := hinv.of_node (.inl hnewer)
  have hle := hinv.cursor_le
  exact ⟨hold.base_le, hold.cursor_le, fun h => by dsimp only at h; omega, hold.index_le,
    hold.tracks, hold.ring⟩

/-- Loading a newer snapshot. -/
theorem catchUp (hnode : NodeInv K base log st) (hinv : CoordInv T base log st co)
    (hload : st.snapshotLastIndex > co.snapshotAppliedIndex → ∀ snap, K st.snapshotLastIndex snap →
      T st.snapshotLastIndex (loadSnapshot co.shards snap)) :
    CoordInv T base log st (co.catchUp st) ∧
      (co.catchUp st).snapshotAppliedIndex = st.snapshotLastIndex := by
  have hbase := hinv.base_le
  unfold CoordinatorState.catchUp
  split_ifs with hnew
  · obtain ⟨snap, hdata, hok⟩ := hnode.data (by omega)
    simp only [hdata, and_true]
    exact ⟨hnode.base_le, le_rfl, fun _ => ⟨rfl, Nat.zero_le _⟩,
      hnode.snapshot_le.trans hnode.applied_le, hload hnew snap hok, rfl⟩
  · exact ⟨hinv, le_antisymm hinv.cursor_le (Nat.le_of_not_gt hnew)⟩

/-- The commands of the log between two indices. -/
theorem applyFrom_slice
    (hcmd : ∀ i cmd shards, log[i]? = some cmd → T i shards →
      T (i + 1) (applyCommand shards (i + 1) cmd)) {i : Nat} {shards : List ShardClient} (k : Nat)
    (htracks : T i shards) (hk : i + k ≤ log.length) :
    T (i + k) (applyFrom i shards ((log.drop i).take k)) := by
  induction k generalizing i shards with
  | zero => simpa [applyFrom] using htracks
  | succ k ih =>
      have hlt : i < log.length := by omega
      have hget : log[i]? = some log[i] := List.getElem?_eq_getElem hlt
      rw [List.drop_eq_getElem_cons hlt, List.take_succ_cons, applyFrom]
      have hnext := ih (hcmd i _ _ hget htracks) (by omega)
      rwa [show i + 1 + k = i + (k + 1) by omega] at hnext

/-- **The rule of the apply loop.**  If one command, the loading of a snapshot and the
serialization of the clients fit the meanings {lit}`T` and {lit}`K`, then
{lit}`apply_pending_raft_commands` takes the coordinator to the node's index. -/
theorem applyPending (hnode : NodeInv K base log st) (hinv : CoordInv T base log st co)
    (hcmd : ∀ i cmd shards, log[i]? = some cmd → T i shards →
      T (i + 1) (applyCommand shards (i + 1) cmd))
    (hload : st.snapshotLastIndex > co.snapshotAppliedIndex → ∀ snap, K st.snapshotLastIndex snap →
      T st.snapshotLastIndex (loadSnapshot co.shards snap))
    (hser : ∀ i shards, i ≤ log.length → T i shards → K i (serializeSnapshot shards)) :
    CoordInv T base log st (co.applyPending st).1 ∧
      (co.applyPending st).1.snapshotAppliedIndex = st.snapshotLastIndex ∧
      (co.applyPending st).1.appliedIndex = st.lastApplied ∧
      ∀ upToIndex snap, (co.applyPending st).2 = some (upToIndex, snap) →
        upToIndex = (co.applyPending st).1.appliedIndex ∧ K upToIndex snap := by
  obtain ⟨hco, hcursor⟩ := hinv.catchUp hnode hload
  obtain ⟨hindex, hcount⟩ := hco.cursor hcursor
  have hlen := hnode.length_commands
  have happlied := hlen.le.trans hnode.applied_le
  unfold CoordinatorState.applyPending
  dsimp only
  generalize hmid : co.catchUp st = mid at hco hcursor hindex hcount ⊢
  split_ifs with hnone hthreshold
  · exact ⟨hco, hcursor, by dsimp only; omega, fun _ _ h => by simp at h⟩
  all_goals
    -- the commands after the cursor are the log between the two indices
    have hcmds : st.appliedCommands.drop mid.localAppliedCount =
        (log.drop mid.appliedIndex).take (st.lastApplied - mid.appliedIndex) := by
      rw [hnode.commands, List.drop_drop, List.drop_take, hindex]
    have htracks := applyFrom_slice hcmd (st.lastApplied - mid.appliedIndex) hco.tracks (by omega)
    rw [← hcmds,
      show mid.appliedIndex + (st.lastApplied - mid.appliedIndex) = st.lastApplied by omega,
      hindex, ← CoordinatorState.applyCommands_shards, ← hlen] at htracks
    have hring := CoordinatorState.applyCommands_ring (st.snapshotLastIndex + mid.localAppliedCount)
      mid (st.appliedCommands.drop mid.localAppliedCount) hco.ring
    have hkeep := (CoordinatorState.applyCommands_cursors
      (st.snapshotLastIndex + mid.localAppliedCount) mid
      (st.appliedCommands.drop mid.localAppliedCount)).1
    have hdone : CoordInv T base log st
        { CoordinatorState.applyCommands (st.snapshotLastIndex + mid.localAppliedCount) mid
            (st.appliedCommands.drop mid.localAppliedCount) with
          localAppliedCount := st.appliedCommands.length
          appliedIndex := st.snapshotLastIndex + st.appliedCommands.length } :=
      ⟨hkeep ▸ hco.base_le, hkeep ▸ hco.cursor_le, fun _ => ⟨rfl, le_rfl⟩, happlied, htracks, hring⟩
  · refine ⟨hdone, hkeep.trans hcursor, hlen, ?_⟩
    intro upToIndex snap hsome
    simp only [Option.some.injEq, Prod.mk.injEq] at hsome
    obtain ⟨rfl, rfl⟩ := hsome
    exact ⟨rfl, hser _ _ happlied htracks⟩
  · exact ⟨hdone, hkeep.trans hcursor, hlen, fun _ _ h => by simp at h⟩

end CoordInv

end LoopInvariant

end NanoDB.Coordinator
