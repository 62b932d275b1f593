import NanoDB.Coordinator.CommandText
import NanoDB.Coordinator.Convergence
import NanoDB.Raft.CommittedLog

/-!
# The topology on the replicated log

Every coordinator runs in one process with its Raft node.  It polls the node's status, applies
the texts it finds there and compacts the node's log with a snapshot of its topology; the
snapshot travels to other nodes and is read by their coordinators.  Elections, requests and
replies of the cluster interleave with all this in any order, and a process may restart as long
as its node has no snapshot, which startup does not read.

That there is one log that all coordinators apply is not assumed here: it is the committed log
of the cluster.

Main results:

- Theorem {lit}`ControlInv.step`: every step keeps the coordinators on the committed log and
  the snapshots of all nodes and messages snapshots of it.
- Theorem {lit}`topology_of_cluster`: the topology of every coordinator is the committed log
  replayed up to its index, so that coordinators at one index have the same.
-/

namespace NanoDB.Coordinator

open Lib CoordinatorState
open Raft (Bytes RaftNode ClusterState Membership History Replicating CommittedInv
  recordCommitted restartsNode)

/-! ## Coordinators on a cluster -/

/-- The cluster and its coordinators.  {lit}`pending` holds the arguments of a call of
{lit}`compact` that {lit}`apply_pending_raft_commands` is about to make.  {lit}`committed` is a
ghost: the committed log of the cluster. -/
structure ControlCluster where
  raft : ClusterState
  coord : Int → CoordinatorState
  pending : Int → Option (Nat × Bytes) := fun _ => none
  committed : List Bytes := []

/-- A critical section of the cluster, a run of {lit}`apply_pending_raft_commands` up to its
compaction, and the compaction itself. -/
inductive ControlAction where
  | raft (a : Raft.Action)
  | apply (n : Int)
  | compact (n : Int)
deriving DecidableEq

/-- The part of {lit}`RaftNode::status` that the apply loop reads. -/
def nodeStatus (node : RaftNode) : RaftStatus where
  snapshotLastIndex := node.log.snapshotLastIndex
  snapshotData := node.log.snapshotData
  appliedCommands := node.appliedCommands

/-- The applied log that a node shows to its coordinator. -/
def nodeLog (codec : JsonCodec) (node : RaftNode) : TopologyLog :=
  appliedLog (readCommand codec.parse) (readSnapshot codec.parse) node

/-- The loop does not look at the last applied index, only at the length of the list. -/
theorem applyPendingRaftCommands_nodeStatus (codec : JsonCodec) (co : CoordinatorState)
    (node : RaftNode) :
    co.applyPendingRaftCommands codec.parse (nodeStatus node) false =
      (co.applyPending (nodeLog codec node)).1 := by
  rw [applyPendingRaftCommands_eq, if_neg (by simp)]
  rfl

namespace ControlCluster

/-- All processes start on the same config file and empty files of their nodes. -/
def init (c : Membership) (endpoints : List ShardEndpoint) : ControlCluster where
  raft := ClusterState.init c
  coord _ := CoordinatorState.boot endpoints 0

/-- The transition function; {lean}`none` when the action is not enabled.  Nobody but a
coordinator compacts a log, and a node restarts with its coordinator. -/
def step (c : Membership) (codec : JsonCodec) (endpoints : List ShardEndpoint)
    (s : ControlCluster) : ControlAction → Option ControlCluster
  | .raft (.compact ..) => none
  | .raft a =>
      match Raft.step c s.raft a with
      | none => none
      | some raft =>
          some
            { raft := raft
              coord := fun n =>
                if restartsNode n a then
                  CoordinatorState.boot endpoints (raft.node n).log.snapshotLastIndex
                else s.coord n
              pending := fun n => if restartsNode n a then none else s.pending n
              committed := recordCommitted c s.raft a s.committed }
  | .apply n =>
      if n ∈ c.peers ∧ s.pending n = none then
        let coord := (s.coord n).applyPendingRaftCommands codec.parse
          (nodeStatus (s.raft.node n)) false
        -- the answer of the call is that of the action that makes it
        let call := ((s.coord n).applyPending (nodeLog codec (s.raft.node n))).2
        some
          { s with
            coord := Function.update s.coord n coord
            pending := Function.update s.pending n (call.bind fun (upToIndex, _) =>
              (serializeRaftSnapshot codec coord.shards).map fun text => (upToIndex, text)) }
      else none
  | .compact n =>
      match s.pending n with
      | none => none
      | some (upToIndex, text) =>
          match Raft.step c s.raft (.compact n upToIndex text) with
          | none => none
          | some raft =>
              some
                { raft := raft
                  coord :=
                    if ((s.raft.node n).compact upToIndex text).2 then
                      Function.update s.coord n { s.coord n with localAppliedCount := 0 }
                    else s.coord
                  pending := Function.update s.pending n none
                  committed := recordCommitted c s.raft (.compact n upToIndex text) s.committed }

/-- The commands of the committed log. -/
def commands (codec : JsonCodec) (s : ControlCluster) : List Command :=
  s.committed.map (readCommand codec.parse)

end ControlCluster

/-- The node that an action restarts has no snapshot. -/
def RestartsWithoutSnapshot (s : ClusterState) : Raft.Action → Prop
  | .restart n => (s.node n).log.snapshotLastIndex = 0
  | .crashAfterStepDown n _ => (s.node n).log.snapshotLastIndex = 0
  | _ => True

/-- The side condition: the cluster runs carefully, nobody restarts on a snapshot, no snapshot
that is loaded is from before the addition of a shard that the coordinator has applied, and the
values of a coordinator fit the types of the source. -/
def ControlOrderly (codec : JsonCodec) (endpoints : List ShardEndpoint) (s : ControlCluster) :
    ControlAction → Prop
  | .raft a => Replicating s.raft a ∧ RestartsWithoutSnapshot s.raft a
  | .apply n =>
      losesAddedShard endpoints (s.commands codec)
          { coord := s.coord n, node := nodeLog codec (s.raft.node n) } = false ∧
        ∀ sc ∈ ((s.coord n).applyPending (nodeLog codec (s.raft.node n))).1.shards, sc.InRange
  | .compact _ => True

/-- What an enabled action does. -/
inductive ControlStep (c : Membership) (codec : JsonCodec) (endpoints : List ShardEndpoint)
    (s : ControlCluster) : ControlAction → ControlCluster → Prop
  | raft {a : Raft.Action} {raft : ClusterState} (hnot : ∀ n index data, a ≠ .compact n index data)
      (hstep : Raft.step c s.raft a = some raft) :
      ControlStep c codec endpoints s (.raft a)
        { raft := raft
          coord := fun n =>
            if restartsNode n a then
              CoordinatorState.boot endpoints (raft.node n).log.snapshotLastIndex
            else s.coord n
          pending := fun n => if restartsNode n a then none else s.pending n
          committed := recordCommitted c s.raft a s.committed }
  | apply {n : Int} (hn : n ∈ c.peers) :
      ControlStep c codec endpoints s (.apply n)
        { s with
          coord := Function.update s.coord n
            ((s.coord n).applyPending (nodeLog codec (s.raft.node n))).1
          pending := Function.update s.pending n
            (((s.coord n).applyPending (nodeLog codec (s.raft.node n))).2.bind
              fun (upToIndex, _) =>
                (serializeRaftSnapshot codec
                  ((s.coord n).applyPending (nodeLog codec (s.raft.node n))).1.shards).map
                    fun text => (upToIndex, text)) }
  | compact {n : Int} {upToIndex : Nat} {text : Bytes} {raft : ClusterState}
      (hpending : s.pending n = some (upToIndex, text))
      (hstep : Raft.step c s.raft (.compact n upToIndex text) = some raft) :
      ControlStep c codec endpoints s (.compact n)
        { raft := raft
          coord :=
            if ((s.raft.node n).compact upToIndex text).2 then
              Function.update s.coord n { s.coord n with localAppliedCount := 0 }
            else s.coord
          pending := Function.update s.pending n none
          committed := recordCommitted c s.raft (.compact n upToIndex text) s.committed }

theorem ControlCluster.step_cases {c : Membership} {codec : JsonCodec}
    {endpoints : List ShardEndpoint} {s s' : ControlCluster} {a : ControlAction}
    (h : s.step c codec endpoints a = some s') : ControlStep c codec endpoints s a s' := by
  cases a with
  | raft a =>
      have hnot : ∀ n index data, a ≠ .compact n index data := by
        rintro n index data rfl
        cases h
      rw [ControlCluster.step] at h
      · split at h
        · contradiction
        · next raft hstep =>
            cases h
            exact .raft hnot hstep
      · exact hnot
  | apply n =>
      simp only [ControlCluster.step, applyPendingRaftCommands_nodeStatus,
        Option.ite_none_right_eq_some, Option.some.injEq] at h
      obtain ⟨⟨hn, -⟩, rfl⟩ := h
      exact .apply hn
  | compact n =>
      simp only [ControlCluster.step] at h
      split at h
      · contradiction
      · next upToIndex text hpending =>
          split at h
          · contradiction
          · next raft hstep =>
              cases h
              exact .compact hpending hstep

/-- The committed log grows with the cluster. -/
theorem ControlCluster.commands_isPrefix_of_raft {c : Membership} {s : ControlCluster}
    (codec : JsonCodec) {raft : ClusterState} {a : Raft.Action}
    (hstep : Raft.step c s.raft a = some raft) :
    s.commands codec <+:
      (recordCommitted c s.raft a s.committed).map (readCommand codec.parse) := by
  refine List.IsPrefix.map _ ?_
  rw [recordCommitted, hstep]
  exact Raft.prefix_foldl_extendCommitted _ _

/-- The committed log only grows. -/
theorem ControlCluster.commands_isPrefix {c : Membership} {codec : JsonCodec}
    {endpoints : List ShardEndpoint} {s s' : ControlCluster} {a : ControlAction}
    (hstep : s.step c codec endpoints a = some s') : s.commands codec <+: s'.commands codec := by
  cases ControlCluster.step_cases hstep with
  | raft hnot hraft => exact commands_isPrefix_of_raft codec hraft
  | apply hn => exact List.prefix_rfl
  | compact hpending hraft => exact commands_isPrefix_of_raft codec hraft

theorem ControlCluster.run_isPrefix {c : Membership} {codec : JsonCodec}
    {endpoints : List ShardEndpoint} {ok : ControlCluster → ControlAction → Prop}
    {s s' : ControlCluster} {as : List ControlAction}
    (hrun : Exec (ControlCluster.step c codec endpoints) ok s as s') :
    s.commands codec <+: s'.commands codec := by
  refine hrun.relation (fun _ => True) (fun t t' => t.commands codec <+: t'.commands codec)
    (fun _ => List.prefix_rfl) (fun _ _ _ => List.IsPrefix.trans) (fun _ _ _ _ _ _ => trivial) ?_
    trivial
  exact fun _ _ _ _ _ hstep => ControlCluster.commands_isPrefix hstep

/-! ## Snapshots as texts -/

/-- The text of a snapshot is read back. -/
theorem readSnapshot_serialize (codec : JsonCodec) {shards : List ShardClient} {text : Bytes}
    (hrange : ∀ sc ∈ shards, sc.InRange) (hdump : serializeRaftSnapshot codec shards = some text) :
    readSnapshot codec.parse text = some (serializeSnapshot shards) := by
  have hparse := codec.parse_dump _ text (plain_snapshotJson hrange) hdump
  have hne : text ≠ [] := by
    rintro rfl
    rw [codec.parse_empty] at hparse
    cases hparse
  rw [readSnapshot, if_neg hne, hparse, Option.bind_some, readSnapshotJson_snapshotJson hrange]

/-- The text is that of the snapshot of the replayed log. -/
def TextOk (codec : JsonCodec) (endpoints : List ShardEndpoint) (log : List Command) (index : Nat)
    (text : Bytes) : Prop :=
  ∃ snap, readSnapshot codec.parse text = some snap ∧ SnapshotOk endpoints log index snap

theorem TextOk.append {codec : JsonCodec} {endpoints : List ShardEndpoint} {log : List Command}
    {index : Nat} {text : Bytes} (h : TextOk codec endpoints log index text)
    (cmds : List Command) : TextOk codec endpoints (log ++ cmds) index text := by
  obtain ⟨snap, hread, hok⟩ := h
  exact ⟨snap, hread, hok.append cmds⟩

theorem NoReadd.of_prefix {endpoints : List ShardEndpoint} {log log' : List Command}
    (h : NoReadd endpoints log') (hpre : log <+: log') : NoReadd endpoints log := by
  obtain ⟨more, rfl⟩ := hpre
  intro i cmd hcmd
  have hlt := (List.getElem?_eq_some_iff.mp hcmd).1
  have hready := h i cmd (by rwa [List.getElem?_append_left hlt])
  rwa [List.take_append_of_le_length hlt.le] at hready

/-! ## The invariant -/

/-- The committed log, the coordinators on it, and the snapshots of nodes, messages and calls
of {lit}`compact`. -/
structure ControlInv (c : Membership) (codec : JsonCodec) (endpoints : List ShardEndpoint)
    (s : ControlCluster) (p : ClusterState × History) : Prop where
  raft : CommittedInv c s.raft p s.committed
  coord : ∀ n ∈ c.peers, CoordInv (Tracks endpoints (s.commands codec)) 0 (s.commands codec)
    (nodeLog codec (s.raft.node n)) (s.coord n)
  data : ∀ n, 0 < (s.raft.node n).log.snapshotLastIndex →
    TextOk codec endpoints (s.commands codec) (s.raft.node n).log.snapshotLastIndex
      (s.raft.node n).log.snapshotData
  sent : ∀ dst req, .installSnapshot dst req ∈ s.raft.net →
    TextOk codec endpoints (s.commands codec) req.lastIncludedIndex req.data
  pending : ∀ n upToIndex text, s.pending n = some (upToIndex, text) →
    TextOk codec endpoints (s.commands codec) upToIndex text

namespace ControlInv

variable {c : Membership} {codec : JsonCodec} {endpoints : List ShardEndpoint}
  {s s' : ControlCluster} {p : ClusterState × History}

/-- A coordinator that has just started, on a node without a snapshot. -/
theorem boot (codec : JsonCodec) (endpoints : List ShardEndpoint) (log : List Command)
    {node : RaftNode} (hsnap : node.log.snapshotLastIndex = 0) :
    CoordInv (Tracks endpoints log) 0 log (nodeLog codec node)
      (CoordinatorState.boot endpoints node.log.snapshotLastIndex) := by
  rw [hsnap]
  refine ⟨le_rfl, Nat.zero_le _, fun _ => ⟨?_, Nat.zero_le _⟩, Nat.zero_le _,
    ⟨rfl, fun _ h => h, fun _ h => h⟩, rfl⟩
  exact hsnap.symm

theorem init (c : Membership) (codec : JsonCodec) (endpoints : List ShardEndpoint) :
    ControlInv c codec endpoints (ControlCluster.init c endpoints) (ClusterState.init c, {}) where
  raft := CommittedInv.init c
  coord _ _ := boot codec endpoints [] rfl
  data _ h := absurd h (lt_irrefl 0)
  sent _ _ hmem := absurd hmem List.not_mem_nil
  pending _ _ _ h := by simp [ControlCluster.init] at h

/-- What a member's node shows is a part of the committed log. -/
theorem nodeInv (hinv : ControlInv c codec endpoints s p) {n : Int} (hn : n ∈ c.peers) :
    NodeInv (SnapshotOk endpoints (s.commands codec)) 0 (s.commands codec)
      (nodeLog codec (s.raft.node n)) where
  base_le := Nat.zero_le _
  snapshot_le := (hinv.raft.settled n).snapshot_le
  applied_le := by
    rw [ControlCluster.commands, List.length_map]
    exact (hinv.raft.settled n).applied_eq.trans_le (hinv.raft.reached n hn)
  commands := by
    rw [nodeLog, appliedLog, ControlCluster.commands, hinv.raft.applied n hn, List.map_drop,
      List.map_take]
  data := hinv.data n

/-- A step of the cluster moves a node that does not restart forward. -/
theorem coord_of_moves {T : Nat → List ShardClient → Prop} {log : List Command}
    {co : CoordinatorState} {reaches restarts : Prop} {node node' : RaftNode}
    (hcoord : CoordInv T 0 log (nodeLog codec node) co)
    (hmoves : Raft.Moves reaches restarts node node') (hnot : ¬ restarts) :
    CoordInv T 0 log (nodeLog codec node') co := by
  refine hcoord.of_node ?_
  cases hmoves with
  | append hsnap hend hcommit hbound happlied hcommands =>
      refine .inr ⟨hsnap, ?_⟩
      simp only [nodeLog, appliedLog, List.length_map, hcommands, List.length_append]
      exact Nat.le_add_right _ _
  | @compact upToIndex term data hnew hlog hcommit happlied hcommands =>
      left
      simp only [nodeLog, appliedLog]
      rw [hlog, Raft.RaftLog.snapshotLastIndex_compact hnew]
      exact hnew
  | restart hrestarts => exact (hnot hrestarts).elim

/-- A node that restarts has no snapshot. -/
theorem snapshot_of_restart {c : Membership} {t t' : ClusterState} {a : Raft.Action} {n : Int}
    (hfresh : RestartsWithoutSnapshot t a) (hstep : Raft.step c t a = some t')
    (hrestarts : restartsNode n a) : (t'.node n).log.snapshotLastIndex = 0 := by
  cases Raft.step_cases hstep with
  | restart =>
      cases hrestarts
      change (Function.update t.node n _ n).log.snapshotLastIndex = 0
      rw [Function.update_self]
      exact hfresh
  | crashAfterStepDown =>
      cases hrestarts
      change (Function.update t.node n _ n).log.snapshotLastIndex = 0
      rw [Function.update_self]
      exact hfresh
  | _ => exact hrestarts.elim

/-- The snapshot of a node comes from a node, from a message or from a call of
{lit}`compact`. -/
theorem data_of_step (hinv : ControlInv c codec endpoints s p) {a : Raft.Action}
    {raft : ClusterState} (hstep : Raft.step c s.raft a = some raft)
    (hcompact : ∀ n upToIndex data, a = .compact n upToIndex data →
      TextOk codec endpoints (s.commands codec) upToIndex data)
    {n : Int} (hpos : 0 < (raft.node n).log.snapshotLastIndex) :
    TextOk codec endpoints (s.commands codec) (raft.node n).log.snapshotLastIndex
      (raft.node n).log.snapshotData := by
  cases Raft.snapshotOf_step hstep n with
  | same hindex hdata =>
      rw [hindex] at hpos ⊢
      rw [hdata]
      exact hinv.data n hpos
  | compact haction hdone hindex hdata =>
      rw [hindex, hdata]
      exact hcompact _ _ _ haction
  | @install req hmem hindex hdata =>
      rw [hindex, hdata]
      exact hinv.sent n req hmem

/-- The snapshot of a message comes from a message or from a leader. -/
theorem sent_of_step (hinv : ControlInv c codec endpoints s p) {a : Raft.Action}
    {raft : ClusterState} (hstep : Raft.step c s.raft a = some raft) {dst : Int}
    {req : Raft.InstallSnapshotRequest} (hmem : .installSnapshot dst req ∈ raft.net) :
    TextOk codec endpoints (s.commands codec) req.lastIncludedIndex req.data := by
  rcases Raft.installSnapshot_of_step hstep hmem with hold | ⟨n, -, hpos, hindex, hdata⟩
  · exact hinv.sent dst req hold
  · rw [hindex] at hpos ⊢
    rw [hdata]
    exact hinv.data n hpos

/-- A compaction that is made puts a node behind its coordinator's cursor. -/
theorem coord_of_compact {T : Nat → List ShardClient → Prop} {log : List Command}
    {co : CoordinatorState} {node : RaftNode} {upToIndex : Nat} {text : Bytes}
    (hcoord : CoordInv T 0 log (nodeLog codec node) co)
    (hdone : (node.compact upToIndex text).2 = true) :
    CoordInv T 0 log (nodeLog codec (node.compact upToIndex text).1)
      { co with localAppliedCount := 0 } := by
  have hview := appliedLog_compact (readCommand codec.parse) (readSnapshot codec.parse) node
    upToIndex text
  have hdone' : ((nodeLog codec node).compact upToIndex (readSnapshot codec.parse text)).2 =
      true := by
    rw [nodeLog, ← hview]
    exact hdone
  obtain ⟨hnewer, hat⟩ := AppliedLog.compact_done hdone'
  rw [nodeLog, ← hview] at hat
  exact hcoord.of_compact (hnewer.trans_eq hat.symm)

/-- A critical section of the cluster. -/
theorem step_raft (hinv : ControlInv c codec endpoints s p) {a : Raft.Action}
    (hnot : ∀ n index data, a ≠ .compact n index data) {raft : ClusterState}
    (hok : Replicating s.raft a) (hfresh : RestartsWithoutSnapshot s.raft a)
    (hstep : Raft.step c s.raft a = some raft) :
    ∃ p', ControlInv c codec endpoints
      { raft := raft
        coord := fun n =>
          if restartsNode n a then
            CoordinatorState.boot endpoints (raft.node n).log.snapshotLastIndex
          else s.coord n
        pending := fun n => if restartsNode n a then none else s.pending n
        committed := recordCommitted c s.raft a s.committed } p' := by
  obtain ⟨p', -, hraft⟩ := hinv.raft.step hok hstep
  obtain ⟨more, hmore⟩ := ControlCluster.commands_isPrefix_of_raft codec hstep
  have hmoves := hinv.raft.moves hok hstep
  refine ⟨p', hraft, fun n hn => ?_, fun n hpos => ?_, fun dst req hmem => ?_,
    fun n upToIndex text hpending => ?_⟩
  · dsimp only [ControlCluster.commands]
    rw [← hmore]
    split_ifs with hrestarts
    · exact boot codec endpoints _ (snapshot_of_restart hfresh hstep hrestarts)
    · refine coord_of_moves ?_ (hmoves n) hrestarts
      exact (hinv.coord n hn).append more fun i shards hle htracks => htracks.append hle more
  · dsimp only [ControlCluster.commands]
    rw [← hmore]
    refine (hinv.data_of_step hstep ?_ hpos).append more
    exact fun _ _ _ haction => absurd haction (hnot _ _ _)
  · dsimp only [ControlCluster.commands]
    rw [← hmore]
    exact (hinv.sent_of_step hstep hmem).append more
  · dsimp only [ControlCluster.commands] at hpending ⊢
    rw [← hmore]
    split_ifs at hpending
    exact (hinv.pending n upToIndex text hpending).append more

/-- A run of the apply loop takes a coordinator to its node's last applied index. -/
theorem applyPending (hinv : ControlInv c codec endpoints s p)
    (hready : NoReadd endpoints (s.commands codec)) {n : Int} (hn : n ∈ c.peers)
    (hok : ControlOrderly codec endpoints s (.apply n)) :
    CoordInv (Tracks endpoints (s.commands codec)) 0 (s.commands codec)
        (nodeLog codec (s.raft.node n))
        ((s.coord n).applyPending (nodeLog codec (s.raft.node n))).1 ∧
      ((s.coord n).applyPending (nodeLog codec (s.raft.node n))).1.appliedIndex =
        (s.raft.node n).lastApplied ∧
      ∀ upToIndex snap,
        ((s.coord n).applyPending (nodeLog codec (s.raft.node n))).2 = some (upToIndex, snap) →
        upToIndex = ((s.coord n).applyPending (nodeLog codec (s.raft.node n))).1.appliedIndex := by
  have hcoord := hinv.coord n hn
  have hload : (nodeLog codec (s.raft.node n)).snapshotLastIndex >
        (s.coord n).snapshotAppliedIndex → ∀ snap,
      SnapshotOk endpoints (s.commands codec) (nodeLog codec (s.raft.node n)).snapshotLastIndex
        snap →
      Tracks endpoints (s.commands codec) (nodeLog codec (s.raft.node n)).snapshotLastIndex
        (loadSnapshot (s.coord n).shards snap) := by
    rintro hnew snap ⟨-, rfl⟩
    have hloses := hok.1
    refine hcoord.tracks.loadSnapshot fun hlt sc hsc => ?_
    simp only [losesAddedShard, gt_iff_lt.mp hnew, hlt, decide_true, Bool.true_and,
      List.any_eq_false] at hloses
    simpa using hloses sc hsc
  obtain ⟨hcoord', -, hindex, hpending⟩ := hcoord.applyPending (hinv.nodeInv hn)
    (fun i cmd shards hcmd htracks => htracks.applyCommand hcmd (hready i cmd hcmd)) hload
    (fun i shards hle htracks => ⟨hle, htracks.serializeSnapshot_eq⟩)
  exact ⟨hcoord', hindex, fun upToIndex snap hcall => (hpending upToIndex snap hcall).1⟩

/-- A run of the apply loop, with the text of the snapshot that it may ask to compact with. -/
theorem step_apply (hinv : ControlInv c codec endpoints s p)
    (hready : NoReadd endpoints (s.commands codec)) {n : Int} (hn : n ∈ c.peers)
    (hok : ControlOrderly codec endpoints s (.apply n)) :
    ControlInv c codec endpoints
      { s with
        coord := Function.update s.coord n
          ((s.coord n).applyPending (nodeLog codec (s.raft.node n))).1
        pending := Function.update s.pending n
          (((s.coord n).applyPending (nodeLog codec (s.raft.node n))).2.bind fun (upToIndex, _) =>
            (serializeRaftSnapshot codec
              ((s.coord n).applyPending (nodeLog codec (s.raft.node n))).1.shards).map
                fun text => (upToIndex, text)) } p := by
  obtain ⟨hcoord, -, hpending⟩ := hinv.applyPending hready hn hok
  refine ⟨hinv.raft, fun m hm => ?_, hinv.data, hinv.sent, fun m upToIndex text hsome => ?_⟩
  · by_cases heq : m = n
    · subst heq
      dsimp only
      rwa [Function.update_self]
    · dsimp only
      rw [Function.update_of_ne heq]
      exact hinv.coord m hm
  · dsimp only at hsome
    by_cases heq : m = n
    · subst heq
      rw [Function.update_self, Option.bind_eq_some_iff] at hsome
      obtain ⟨⟨index, snap⟩, hcall, hsome⟩ := hsome
      obtain ⟨text', hdump, heq⟩ := Option.map_eq_some_iff.mp hsome
      cases heq
      refine ⟨_, readSnapshot_serialize codec hok.2 hdump, ?_⟩
      rw [hpending _ _ hcall]
      exact ⟨hcoord.index_le, hcoord.tracks.serializeSnapshot_eq⟩
    · rw [Function.update_of_ne heq] at hsome
      exact hinv.pending m upToIndex text hsome

/-- The compaction that a coordinator asked for. -/
theorem step_compact (hinv : ControlInv c codec endpoints s p) {n : Int} {upToIndex : Nat}
    {text : Bytes} {raft : ClusterState} (hpending : s.pending n = some (upToIndex, text))
    (hstep : Raft.step c s.raft (.compact n upToIndex text) = some raft) :
    ∃ p', ControlInv c codec endpoints
      { raft := raft
        coord :=
          if ((s.raft.node n).compact upToIndex text).2 then
            Function.update s.coord n { s.coord n with localAppliedCount := 0 }
          else s.coord
        pending := Function.update s.pending n none
        committed := recordCommitted c s.raft (.compact n upToIndex text) s.committed } p' := by
  have hok := Replicating.compact s.raft n upToIndex text
  obtain ⟨p', -, hraft⟩ := hinv.raft.step hok hstep
  obtain ⟨more, hmore⟩ := ControlCluster.commands_isPrefix_of_raft codec hstep
  have hmoves := hinv.raft.moves hok hstep
  have hcoord : ∀ m ∈ c.peers, CoordInv (Tracks endpoints (s.commands codec ++ more)) 0
      (s.commands codec ++ more) (nodeLog codec (s.raft.node m)) (s.coord m) := fun m hm =>
    (hinv.coord m hm).append more fun i shards hle htracks => htracks.append hle more
  refine ⟨p', hraft, fun m hm => ?_, fun m hpos => ?_, fun dst req hmem => ?_,
    fun m index data hsome => ?_⟩
  · dsimp only [ControlCluster.commands]
    rw [← hmore]
    have hmoved := coord_of_moves (hcoord m hm) (hmoves m) not_false
    split_ifs with hdone
    · by_cases heq : m = n
      · subst heq
        rw [Function.update_self]
        cases Raft.step_cases hstep with
        | compact =>
            change CoordInv _ 0 _ (nodeLog codec (Function.update s.raft.node m _ m)) _
            rw [Function.update_self]
            exact coord_of_compact (hcoord m hm) hdone
      · rwa [Function.update_of_ne heq]
    · exact hmoved
  · dsimp only [ControlCluster.commands]
    rw [← hmore]
    refine (hinv.data_of_step hstep ?_ hpos).append more
    rintro _ _ _ ⟨⟩
    exact hinv.pending n upToIndex text hpending
  · dsimp only [ControlCluster.commands]
    rw [← hmore]
    exact (hinv.sent_of_step hstep hmem).append more
  · dsimp only [ControlCluster.commands] at hsome ⊢
    rw [← hmore]
    by_cases heq : m = n
    · rw [heq, Function.update_self] at hsome
      cases hsome
    · rw [Function.update_of_ne heq] at hsome
      exact (hinv.pending m index data hsome).append more

/-- **Step lemma.**  Every step keeps the coordinators on the committed log and the snapshots of
all nodes, messages and pending calls snapshots of it. -/
theorem step (hinv : ControlInv c codec endpoints s p)
    (hready : NoReadd endpoints (s.commands codec)) {a : ControlAction}
    (hok : ControlOrderly codec endpoints s a) (hstep : s.step c codec endpoints a = some s') :
    ∃ p', ControlInv c codec endpoints s' p' := by
  cases ControlCluster.step_cases hstep with
  | raft hnot hraft => exact hinv.step_raft hnot hok.1 hok.2 hraft
  | apply hn => exact ⟨p, hinv.step_apply hready hn hok⟩
  | compact hpending hraft => exact hinv.step_compact hpending hraft

end ControlInv

/-- **Run lemma.**  If the log of the last state adds no removed shard again, no log on the way
to it does. -/
theorem ControlInv.run {c : Membership} {codec : JsonCodec} {endpoints : List ShardEndpoint}
    {s s' : ControlCluster} {as : List ControlAction} {p : ClusterState × History}
    (hrun : Exec (ControlCluster.step c codec endpoints) (ControlOrderly codec endpoints) s as s')
    (hinv : ControlInv c codec endpoints s p) (hready : NoReadd endpoints (s'.commands codec)) :
    ∃ p', ControlInv c codec endpoints s' p' := by
  induction hrun generalizing p with
  | nil s => exact ⟨p, hinv⟩
  | cons hok hstep rest ih =>
      have hpre := (ControlCluster.commands_isPrefix hstep).trans
        (ControlCluster.run_isPrefix rest)
      obtain ⟨p₁, hinv₁⟩ := hinv.step (hready.of_prefix hpre) hok hstep
      exact ih hinv₁ hready

/-! ## One topology -/

/-- The topology of a coordinator is the log replayed up to its index. -/
structure Replays (endpoints : List ShardEndpoint) (log : List Command)
    (co : CoordinatorState) : Prop where
  index_le : co.appliedIndex ≤ log.length
  active : activeClients co.shards = activeClients (replay endpoints (log.take co.appliedIndex))
  ring : co.ring = buildRing (replay endpoints (log.take co.appliedIndex))

theorem Replays.sameTopology {endpoints : List ShardEndpoint} {log : List Command}
    {co co' : CoordinatorState} (h : Replays endpoints log co) (h' : Replays endpoints log co')
    (hindex : co.appliedIndex = co'.appliedIndex) : SameTopology co co' := by
  refine ⟨?_, fun key => ?_⟩
  · rw [h.active, h'.active, hindex]
  · rw [h.ring, h'.ring, hindex]

/-- A coordinator replays the committed log, as it is now and as it will be. -/
theorem ControlInv.replays {c : Membership} {codec : JsonCodec} {endpoints : List ShardEndpoint}
    {s : ControlCluster} {p : ClusterState × History} (hinv : ControlInv c codec endpoints s p)
    {n : Int} (hn : n ∈ c.peers) {log : List Command} (hpre : s.commands codec <+: log) :
    Replays endpoints log (s.coord n) := by
  obtain ⟨more, rfl⟩ := hpre
  have hcoord := hinv.coord n hn
  have htracks := hcoord.tracks.append hcoord.index_le more
  refine ⟨hcoord.index_le.trans (by simp), htracks.active, ?_⟩
  rw [hcoord.ring, htracks.buildRing_eq]

/-- **The topology of a cluster.**  Take any careful run of the cluster and its coordinators in
which nobody restarts on a snapshot or loads one from before an applied addition, and which
commits no second addition of a removed shard.  Every coordinator's topology is the committed
log replayed up to its index, so two coordinators at one index, at one time or at different
times, have the same. -/
theorem topology_of_cluster (c : Membership) (codec : JsonCodec) (endpoints : List ShardEndpoint)
    {as as' : List ControlAction} {s s' : ControlCluster}
    (hrun : Exec (ControlCluster.step c codec endpoints) (ControlOrderly codec endpoints)
      (ControlCluster.init c endpoints) as s)
    (hrun' : Exec (ControlCluster.step c codec endpoints) (ControlOrderly codec endpoints) s as' s')
    (hready : NoReadd endpoints (s'.commands codec)) {n m : Int} (hn : n ∈ c.peers)
    (hm : m ∈ c.peers) :
    Replays endpoints (s'.commands codec) (s.coord n) ∧
      Replays endpoints (s'.commands codec) (s'.coord m) ∧
      ((s.coord n).appliedIndex = (s'.coord m).appliedIndex →
        SameTopology (s.coord n) (s'.coord m)) := by
  have hpre := ControlCluster.run_isPrefix hrun'
  obtain ⟨p, hinv⟩ := ControlInv.run hrun (ControlInv.init c codec endpoints)
    (hready.of_prefix hpre)
  obtain ⟨p', hinv'⟩ := ControlInv.run hrun' hinv hready
  have hreplays := hinv.replays hn hpre
  have hreplays' := hinv'.replays hm List.prefix_rfl
  exact ⟨hreplays, hreplays', hreplays.sameTopology hreplays'⟩

instance (sc : ShardClient) : Decidable sc.InRange :=
  decidable_of_iff ((-2 ^ 31 ≤ sc.shardId ∧ sc.shardId < 2 ^ 31) ∧
      (-2 ^ 31 ≤ sc.replicaId ∧ sc.replicaId < 2 ^ 31) ∧
      (-2 ^ 31 ≤ sc.port ∧ sc.port < 2 ^ 31) ∧ sc.epoch < 2 ^ 64)
    ⟨fun ⟨hshard, hreplica, hport, hepoch⟩ => ⟨hshard, hreplica, hport, hepoch⟩,
      fun ⟨hshard, hreplica, hport, hepoch⟩ => ⟨hshard, hreplica, hport, hepoch⟩⟩

instance (s : ClusterState) (a : Raft.Action) : Decidable (RestartsWithoutSnapshot s a) := by
  unfold RestartsWithoutSnapshot
  split <;> infer_instance

instance (codec : JsonCodec) (endpoints : List ShardEndpoint) (s : ControlCluster)
    (a : ControlAction) : Decidable (ControlOrderly codec endpoints s a) := by
  unfold ControlOrderly
  split <;> infer_instance

instance (endpoints : List ShardEndpoint) (log : List Command) :
    Decidable (NoReadd endpoints log) :=
  decidable_of_iff (∀ i : Fin log.length, readdsShard endpoints (log.take i) log[i] = false) (by
    constructor
    · intro h i cmd hcmd
      obtain ⟨hlt, rfl⟩ := List.getElem?_eq_some_iff.mp hcmd
      exact h ⟨i, hlt⟩
    · intro h i
      exact h i _ (List.getElem?_eq_getElem i.isLt))

/-- A command that adds a shard with one replica. -/
def addShardJson : Json :=
  .object [("replicas", .array [.object [("host", .str [98]), ("port", .int 9090),
    ("primary", .bool true), ("replica_id", .int 0)]]), ("shard_id", .int 1),
    ("type", .str addShardType)]

/-- Its text. -/
def addShardText : Bytes :=
  ("\x7b\"replicas\":[\x7b\"host\":\"b\",\"port\":9090,\"primary\":true," ++
    "\"replica_id\":0\x7d],\"shard_id\":1,\"type\":\"add_shard\"\x7d").toList.map
      fun c => c.toNat.toUInt8

open Classical in
/-- A library that dumps and parses this one document. -/
noncomputable def addShardCodec : JsonCodec where
  dump j := if j = addShardJson then some addShardText else none
  parse text := if text = addShardText then some addShardJson else none
  parse_dump := by
    intro j text _ hdump
    split_ifs at hdump with hj
    cases hdump
    rw [if_pos rfl, hj]
  parse_empty := if_neg (by decide)

/-- A shard is added, a text that is no document is committed behind it, and two coordinators
apply both. -/
def addOnCluster : List ControlAction :=
  (Raft.commitProposals addShardText [98] ++ Raft.tellCommitted).map .raft ++ [.apply 0, .apply 1]

theorem topology_of_cluster_addOnCluster :
    ∃ s, Exec (ControlCluster.step Raft.threeNodes addShardCodec oneShard)
        (ControlOrderly addShardCodec oneShard) (ControlCluster.init Raft.threeNodes oneShard)
        addOnCluster s ∧
      (s.coord 0).appliedIndex = 2 ∧ known (s.coord 1).shards 1 = true ∧
      SameTopology (s.coord 0) (s.coord 1) := by
  have hrun := Exec.of_guardedRun (ControlCluster.step Raft.threeNodes addShardCodec oneShard)
    (ControlOrderly addShardCodec oneShard) (ControlCluster.init Raft.threeNodes oneShard)
    addOnCluster (by decide +kernel)
  refine ⟨_, hrun, by decide +kernel, by decide +kernel, ?_⟩
  exact (topology_of_cluster Raft.threeNodes addShardCodec oneShard hrun (.nil _)
    (by decide +kernel) (by decide) (by decide)).2.2 (by decide +kernel)

end NanoDB.Coordinator
