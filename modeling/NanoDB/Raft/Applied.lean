import NanoDB.Raft.Indices

/-!
# Applied commands and log indices

The coordinator takes {lit}`snapshot_last_index + i + 1` for the log index of the
{lit}`i`-th applied command.  The apply loop pushes no empty command, because
{lit}`command_at` answers with an empty string inside the snapshot, so an empty command in
the log shifts every later one.  Empty commands reach a log in two ways: they are proposed,
or a leader compacts its log between the two critical sections of a call that sends entries,
and the second section sends empty commands for the entries that are gone.

A history variable records the command that the log of a node held at an index when the
commit index of the node passed it.

Main results:

- Theorem {lit}`CommandsInv.step`: no empty command reaches a log or a request when none is
  proposed and no compaction overtakes a call.
- Theorem {lit}`applied_commands_aligned`: in runs that also lower no commit index, the
  applied commands of every node are those committed behind its snapshot, in order.
- Theorem {lit}`Moves.not_aligned`: a section that commits an empty command ends this.
-/

namespace NanoDB.Raft

open Lib (Exec guardedRun instrument instrument_eq_some)
open RaftNode

/-! ## Logs without empty commands -/

/-- No stored command is empty. -/
def RaftLog.NonemptyCommands (log : RaftLog) : Prop :=
  ∀ e ∈ log.entries, e.command ≠ []

/-- No command of the request is empty. -/
def AppendEntriesRequest.NonemptyCommands (req : AppendEntriesRequest) : Prop :=
  ∀ e ∈ req.entries, e.command ≠ []

namespace RaftLog.NonemptyCommands

variable {log : RaftLog}

theorem commandAt_ne_nil (h : log.NonemptyCommands) {index : Nat}
    (hbehind : log.snapshotLastIndex < index) (hle : index ≤ log.lastIndex) :
    log.commandAt index ≠ [] := by
  have hlt : index - 1 - log.snapshotLastIndex < log.entries.length := by
    rw [lastIndex] at hle
    omega
  rw [commandAt, if_neg (by omega), List.getElem?_eq_getElem hlt]
  exact h _ (List.getElem_mem hlt)

theorem append (h : log.NonemptyCommands) (term : Nat) {command : Bytes} (hne : command ≠ []) :
    (log.append term command).NonemptyCommands := by
  intro e he
  rw [append_entries, List.mem_append, List.mem_singleton] at he
  rcases he with he | rfl
  · exact h e he
  · exact hne

theorem acceptedLog (h : log.NonemptyCommands) {req : AppendEntriesRequest}
    (hreq : req.NonemptyCommands) : (RaftNode.acceptedLog log req).NonemptyCommands := by
  unfold RaftNode.acceptedLog
  split
  · exact h
  · intro e he
    rw [truncateAndAppend_entries, List.mem_append] at he
    rcases he with he | he
    · exact h e (List.mem_of_mem_take he)
    · have hmem := List.mem_of_mem_drop he
      rw [newEntries, List.mem_map] at hmem
      rcases hmem with ⟨sent, hsent, rfl⟩
      exact hreq sent hsent

theorem compact (h : log.NonemptyCommands) (upToIndex term : Nat) (data : Bytes) :
    (log.compact upToIndex term data).NonemptyCommands := by
  unfold RaftLog.compact
  split
  · exact h
  · exact fun e he => h e (List.mem_of_mem_drop he)

/-- The entries of a log from an index behind the snapshot on. -/
theorem entriesFrom (h : log.NonemptyCommands) {nextIdx : Nat}
    (hbehind : log.snapshotLastIndex < nextIdx) :
    ∀ e ∈ RaftNode.entriesFrom log nextIdx, e.command ≠ [] := by
  intro e he
  rw [RaftNode.entriesFrom, List.mem_map] at he
  rcases he with ⟨j, hj, rfl⟩
  rw [List.mem_range] at hj
  exact h.commandAt_ne_nil (by omega) (by omega)

end RaftLog.NonemptyCommands

/-- A request for an index that a compaction has passed carries an empty command. -/
theorem exists_empty_of_overtaken {node : RaftNode} {task : SendTask} {req : AppendEntriesRequest}
    (h : node.buildAppendEntries task = some req)
    (hovertaken : task.nextIdx ≤ node.log.snapshotLastIndex) :
    ∃ e ∈ req.entries, e.command = [] := by
  rcases buildAppendEntries_eq_some h with ⟨-, -, rfl⟩
  refine ⟨⟨node.log.termAt task.nextIdx, task.nextIdx, node.log.commandAt task.nextIdx⟩, ?_, ?_⟩
  · refine List.mem_map.mpr ⟨0, List.mem_range.mpr ?_, rfl⟩
    rw [RaftLog.lastIndex]
    omega
  · rw [RaftLog.commandAt, if_pos (.inr (.inl hovertaken))]

/-! ## Steps that bring no empty command in -/

/-- The side condition: no leader takes an empty proposal, no request is built for an index
that a compaction has passed, and no request lowers a commit index. -/
def KeepsAligned (s : ClusterState) : Action → Prop
  | .propose n command => (s.node n).role = .leader → command ≠ []
  | .sendAppendEntries n task => (s.node n).role = .leader →
      (s.node n).state.currentTerm = task.term → (s.node n).log.snapshotLastIndex < task.nextIdx
  | .handleAppendEntries n req => lowersCommit (s.node n) req = false
  | _ => True

instance (s : ClusterState) (a : Action) : Decidable (KeepsAligned s a) :=
  match a with
  | .propose n command =>
      inferInstanceAs (Decidable ((s.node n).role = .leader → command ≠ []))
  | .sendAppendEntries n task => inferInstanceAs (Decidable ((s.node n).role = .leader →
      (s.node n).state.currentTerm = task.term → (s.node n).log.snapshotLastIndex < task.nextIdx))
  | .handleAppendEntries .. => instDecidableEqBool _ _
  | .startElection .. | .handleRequestVote .. | .handleRequestVoteReply .. | .finishElection ..
  | .replicate .. | .sendCheck .. | .compact .. | .handleAppendEntriesReply ..
  | .handleInstallSnapshot .. | .handleInstallSnapshotReply .. | .restart ..
  | .crashAfterStepDown .. => instDecidableTrue

/-- No log and no request has an empty command. -/
structure CommandsInv (s : ClusterState) : Prop where
  log : ∀ n, (s.node n).log.NonemptyCommands
  append : ∀ dst req, .appendEntries dst req ∈ s.net → req.NonemptyCommands

namespace CommandsInv

variable {c : Membership} {s s' : ClusterState} {a : Action}

theorem init (c : Membership) : CommandsInv (ClusterState.init c) where
  log _ := fun _ he => absurd he List.not_mem_nil
  append _ _ hmem := absurd hmem List.not_mem_nil

/-- Nodes stay as they are, and a message is sent. -/
theorem send (hinv : CommandsInv s) {msg : Message}
    (hmsg : ∀ dst req, msg = .appendEntries dst req → req.NonemptyCommands) :
    CommandsInv { s with net := msg :: s.net } where
  log := hinv.log
  append dst req hmem := by
    rcases List.mem_cons.mp hmem with heq | hold
    · exact hmsg dst req heq.symm
    · exact hinv.append dst req hold

/-- One node is replaced, and no request is sent. -/
theorem of_update (hinv : CommandsInv s) {n : Int} {node : RaftNode} {msgs : List Message}
    (hnode : s'.node = Function.update s.node n node) (hnet : s'.net = msgs ++ s.net)
    (hlog : node.log.NonemptyCommands) (hmsgs : ∀ dst req, .appendEntries dst req ∉ msgs) :
    CommandsInv s' where
  log := by
    rw [hnode]
    exact (Function.forall_update_iff s.node fun _ x => x.log.NonemptyCommands).mpr
      ⟨hlog, fun m _ => hinv.log m⟩
  append dst req hmem := by
    rw [hnet, List.mem_append] at hmem
    rcases hmem with hmem | hmem
    · exact absurd hmem (hmsgs dst req)
    · exact hinv.append dst req hmem

theorem handleAppendEntries (hinv : CommandsInv s) {n : Int} {req : AppendEntriesRequest}
    (hmem : .appendEntries n req ∈ s.net) :
    ((s.node n).handleAppendEntries req).1.log.NonemptyCommands := by
  cases hsucc : ((s.node n).handleAppendEntries req).2.success with
  | true =>
      rw [(LogInv.accepted_frame hsucc).2.2.1]
      exact (hinv.log n).acceptedLog (hinv.append n req hmem)
  | false =>
      rcases handleAppendEntries_cases (s.node n) req with ⟨-, hlog, -⟩ | ⟨hyes, -⟩
      · rw [hlog]
        exact hinv.log n
      · rw [hsucc] at hyes
        contradiction

theorem handleInstallSnapshot (hinv : CommandsInv s) (n : Int) (req : InstallSnapshotRequest) :
    ((s.node n).handleInstallSnapshot req).1.log.NonemptyCommands := by
  unfold RaftNode.handleInstallSnapshot
  dsimp only
  split_ifs
  · rw [observeTerm_log]
    exact hinv.log n
  · rw [observeTerm_log]
    exact hinv.log n
  · rw [observeTerm_log]
    exact (hinv.log n).compact _ _ _

theorem compact (hinv : CommandsInv s) (n : Int) (upToIndex : Nat) (snapshotData : Bytes) :
    ((s.node n).compact upToIndex snapshotData).1.log.NonemptyCommands := by
  unfold RaftNode.compact
  dsimp only
  split_ifs
  · exact hinv.log n
  · exact hinv.log n
  · exact hinv.log n
  · exact (hinv.log n).compact _ _ _

/-- **Step lemma.**  No empty command reaches a log or a request. -/
theorem step (hinv : CommandsInv s) (hok : KeepsAligned s a)
    (hstep : NanoDB.Raft.step c s a = some s') : CommandsInv s' := by
  cases step_cases hstep with
  | @startElection n =>
      refine hinv.of_update (n := n) rfl rfl ?_ ?_
      · exact hinv.log n
      · simp
  | handleRequestVote =>
      refine hinv.of_update rfl rfl ?_ (by simp)
      rw [(Unmoved.handleRequestVote _ _).log]
      exact hinv.log _
  | handleRequestVoteReply =>
      refine hinv.of_update rfl rfl ?_ (by simp)
      rw [(Unmoved.handleRequestVoteReply _ _ _).log]
      exact hinv.log _
  | finishElection =>
      refine hinv.of_update rfl rfl ?_ (by simp)
      rw [(Unmoved.finishElection _ _ _).log]
      exact hinv.log _
  | @propose n command node call hn hcall =>
      rcases propose_eq_some hcall with ⟨hrole, rfl, -⟩
      refine hinv.of_update (n := n) rfl rfl ?_ (by simp)
      rw [advanceCommitIndex_log]
      exact (hinv.log n).append _ (hok hrole)
  | sendSnapshot => exact hinv.send (by simp)
  | @sendAppendEntries n task req hmem hreq =>
      rcases buildAppendEntries_eq_some hreq with ⟨hrole, hterm, rfl⟩
      refine hinv.send ?_
      rintro dst req heq
      cases heq
      exact (hinv.log n).entriesFrom (hok hrole hterm)
  | handleAppendEntries hmem =>
      exact hinv.of_update rfl rfl (hinv.handleAppendEntries hmem) (by simp)
  | handleAppendEntriesReply =>
      refine hinv.of_update rfl rfl ?_ (by simp)
      rw [RaftNode.handleAppendEntriesReply_log]
      exact hinv.log _
  | handleInstallSnapshot =>
      exact hinv.of_update rfl rfl (hinv.handleInstallSnapshot _ _) (by simp)
  | handleInstallSnapshotReply =>
      refine hinv.of_update rfl rfl ?_ (by simp)
      rw [(Unmoved.handleInstallSnapshotReply _ _ _ _).log]
      exact hinv.log _
  | compact => exact hinv.of_update rfl rfl (hinv.compact _ _ _) (by simp)
  | @restart n => exact hinv.of_update (n := n) rfl rfl (hinv.log n) (by simp)
  | @crashAfterStepDown n => exact hinv.of_update (n := n) rfl rfl (hinv.log n) (by simp)
  | proposeRefused | sendStop | sendRefused => exact hinv
  | replicate | sendChecked => exact ⟨hinv.log, hinv.append⟩

end CommandsInv

/-! ## What the apply loop takes from a log -/

/-- Without empty commands the apply loop takes every command. -/
theorem appliedBetween_eq_map {log : RaftLog} (h : log.NonemptyCommands) {i j : Nat}
    (hsnap : log.snapshotLastIndex ≤ i) (hle : i < j → j ≤ log.lastIndex) :
    appliedBetween log i j = (List.range' (i + 1) (j - i)).map log.commandAt := by
  rw [appliedBetween, List.filter_eq_self]
  intro cmd hcmd
  rw [List.mem_map] at hcmd
  rcases hcmd with ⟨k, hk, rfl⟩
  rw [List.mem_range'_1] at hk
  have hne := h.commandAt_ne_nil (by omega : log.snapshotLastIndex < k) (by omega)
  simpa using hne

/-- An empty command among those that are committed is left out, and the later ones move
down. -/
theorem length_appliedBetween_lt {log : RaftLog} {i j k : Nat} (hlo : i < k) (hhi : k ≤ j)
    (hempty : log.commandAt k = []) : (appliedBetween log i j).length < j - i := by
  have hmem : log.commandAt k ∈ (List.range' (i + 1) (j - i)).map log.commandAt :=
    List.mem_map_of_mem (List.mem_range'_1.mpr (by omega))
  have hlt : (appliedBetween log i j).length <
      ((List.range' (i + 1) (j - i)).map log.commandAt).length :=
    List.length_filter_lt_length_iff_exists.mpr ⟨_, hmem, by simp [hempty]⟩
  rwa [List.length_map, List.length_range'] at hlt

/-! ## Alignment -/

/-- The command that each node committed at each index. -/
abbrev Commits := Int → Nat → Bytes

/-- A section commits the commands that the log then holds at the indices which the commit
index passes. -/
def commitsOf (node node' : RaftNode) (committed : Nat → Bytes) (i : Nat) : Bytes :=
  if node.commitIndex < i ∧ i ≤ node'.commitIndex then node'.log.commandAt i else committed i

def recordCommits (c : Membership) (s : ClusterState) (a : Action) (h : Commits) : Commits :=
  match step c s a with
  | some s' => fun n => commitsOf (s.node n) (s'.node n) (h n)
  | none => h

/-- The applied commands are those committed behind the snapshot, in order. -/
structure Aligned (node : RaftNode) (committed : Nat → Bytes) : Prop where
  snapshot_le : node.log.snapshotLastIndex ≤ node.lastApplied
  length : node.appliedCommands.length = node.lastApplied - node.log.snapshotLastIndex
  command : ∀ i < node.appliedCommands.length, node.appliedCommands[i]? =
    some (committed (node.log.snapshotLastIndex + i + 1))

/-- The applied commands, read off the committed ones. -/
def committedBehind (node : RaftNode) (committed : Nat → Bytes) : List Bytes :=
  (List.range' (node.log.snapshotLastIndex + 1)
    (node.lastApplied - node.log.snapshotLastIndex)).map committed

theorem aligned_of_eq {node : RaftNode} {committed : Nat → Bytes} (hset : Settled node)
    (h : node.appliedCommands = committedBehind node committed) : Aligned node committed := by
  have hlength : node.appliedCommands.length = node.lastApplied - node.log.snapshotLastIndex := by
    rw [h, committedBehind, List.length_map, List.length_range']
  refine ⟨hset.snapshot_le, hlength, fun i hi => ?_⟩
  rw [hlength] at hi
  rw [h, committedBehind, List.getElem?_map, List.getElem?_range' hi, Option.map_some]
  congr 2
  omega

/-- **Step lemma.**  However a section moves the indices, the applied commands stay those
committed behind the snapshot. -/
theorem Moves.committedBehind {reaches restarts : Prop} {node node' : RaftNode}
    {committed : Nat → Bytes} (hmoves : Moves reaches restarts node node') (hset : Settled node)
    (hlog : node'.log.NonemptyCommands)
    (h : node.appliedCommands = committedBehind node committed) :
    node'.appliedCommands = Raft.committedBehind node' (commitsOf node node' committed) := by
  have hsnap := hset.snapshot_le
  have heq := hset.applied_eq
  cases hmoves with
  | append hsame hend hcommit hbound happlied hcommands =>
      have hfresh : appliedBetween node'.log node.commitIndex node'.commitIndex =
          (List.range' (node.commitIndex + 1) (node'.commitIndex - node.commitIndex)).map
            node'.log.commandAt :=
        appliedBetween_eq_map hlog (by omega) hbound
      have hsplit : List.range' (node.log.snapshotLastIndex + 1)
            (node'.commitIndex - node.log.snapshotLastIndex) =
          List.range' (node.log.snapshotLastIndex + 1)
              (node.commitIndex - node.log.snapshotLastIndex) ++
            List.range' (node.commitIndex + 1) (node'.commitIndex - node.commitIndex) := by
        have hstart : node.commitIndex + 1 = node.log.snapshotLastIndex + 1 +
            (node.commitIndex - node.log.snapshotLastIndex) := by omega
        have hlength : node'.commitIndex - node.log.snapshotLastIndex =
            node.commitIndex - node.log.snapshotLastIndex +
              (node'.commitIndex - node.commitIndex) := by omega
        rw [hlength, hstart, List.range'_append_1]
      rw [hcommands, hfresh, h, Raft.committedBehind, Raft.committedBehind, hsame, happlied, heq,
        hsplit, List.map_append]
      congr 1
      · refine List.map_congr_left fun i hi => ?_
        rw [List.mem_range'_1] at hi
        rw [commitsOf, if_neg (by omega)]
      · refine List.map_congr_left fun i hi => ?_
        rw [List.mem_range'_1] at hi
        rw [commitsOf, if_pos (by omega)]
  | @compact upToIndex term data hnew hlog' hcommit happlied hcommands =>
      have hstart : node.log.snapshotLastIndex + 1 +
          (upToIndex - node.log.snapshotLastIndex) * 1 = upToIndex + 1 := by omega
      have hlength : node.lastApplied - node.log.snapshotLastIndex -
          (upToIndex - node.log.snapshotLastIndex) =
          max node.lastApplied upToIndex - upToIndex := by
        omega
      rw [hcommands, h, Raft.committedBehind, Raft.committedBehind, hlog',
        RaftLog.snapshotLastIndex_compact hnew, happlied, ← List.map_drop, List.drop_range', hstart,
        hlength]
      refine List.map_congr_left fun i hi => ?_
      rw [List.mem_range'_1] at hi
      rw [commitsOf, if_neg (by omega)]
  | restart hrestarts hlog' hcommit happlied hcommands =>
      rw [hcommands, Raft.committedBehind, hlog', happlied, Nat.sub_self]
      rfl

/-- A section that commits an empty command behind the snapshot ends the alignment. -/
theorem Moves.not_aligned {reaches : Prop} {node node' : RaftNode}
    {committed committed' : Nat → Bytes} (hmoves : Moves reaches False node node')
    (hset : Settled node) (haligned : Aligned node committed)
    (hsame : node'.log.snapshotLastIndex = node.log.snapshotLastIndex) {k : Nat}
    (hlo : node.commitIndex < k) (hhi : k ≤ node'.commitIndex)
    (hempty : node'.log.commandAt k = []) : ¬ Aligned node' committed' := by
  intro hafter
  have hsnap := hset.snapshot_le
  have heq := hset.applied_eq
  have hlength := haligned.length
  have hlength' := hafter.length
  cases hmoves with
  | append hsnap' hend hcommit hbound happlied hcommands =>
      have hlt := length_appliedBetween_lt hlo hhi hempty
      rw [hcommands, List.length_append] at hlength'
      omega
  | compact hnew hlog hcommit happlied hcommands =>
      rw [hlog, RaftLog.snapshotLastIndex_compact hnew] at hsame
      omega
  | restart hrestarts => exact hrestarts

/-- All that holds of a recorded run. -/
structure AlignedInv (s : ClusterState) (h : Commits) : Prop where
  settled : ∀ n, Settled (s.node n)
  commands : CommandsInv s
  applied : ∀ n, (s.node n).appliedCommands = committedBehind (s.node n) (h n)

namespace AlignedInv

variable {c : Membership} {s s' : ClusterState} {h : Commits} {a : Action}

theorem init (c : Membership) (h : Commits) : AlignedInv (ClusterState.init c) h where
  settled _ := ⟨le_rfl, rfl, fun hrole => absurd rfl hrole⟩
  commands := CommandsInv.init c
  applied _ := rfl

/-- **Step lemma.** -/
theorem step (hinv : AlignedInv s h) (hok : KeepsAligned s a)
    (hstep : NanoDB.Raft.step c s a = some s') : AlignedInv s' (recordCommits c s a h) := by
  have hmoves : ∀ n, Moves (KeepsCommitted s a) (restartsNode n a) (s.node n) (s'.node n) := by
    refine fun n => step_moves n (hinv.settled n) ?_ hstep
    rintro m req rfl
    exact hok
  have hcommands := hinv.commands.step hok hstep
  have helected := Elected.step (fun n => (hinv.settled n).elected) hstep
  refine ⟨fun n => (hmoves n).settled (hinv.settled n) (helected n), hcommands, fun n => ?_⟩
  rw [recordCommits, hstep]
  exact (hmoves n).committedBehind (hinv.settled n) (hcommands.log n) (hinv.applied n)

end AlignedInv

/-- In every run in which no leader takes an empty proposal, no request is built for an index
that a compaction has passed, and no request lowers a commit index: the applied commands of
every node are those it committed behind its snapshot, in order. -/
theorem applied_commands_aligned (c : Membership) {as : List Action} {s : ClusterState}
    {h₀ h : Commits}
    (hrun : Exec (instrument (step c) (recordCommits c)) (fun p a => KeepsAligned p.1 a)
      (ClusterState.init c, h₀) as (s, h)) (n : Int) : Aligned (s.node n) (h n) := by
  have hinv : AlignedInv s h := by
    refine hrun.invariant (fun p => AlignedInv p.1 p.2) ?_ (AlignedInv.init c h₀)
    intro p a p' hp hok hstep
    rcases instrument_eq_some.mp hstep with ⟨hs, hrecord⟩
    rw [hrecord]
    exact hp.step hok hs
  exact aligned_of_eq (hinv.settled n) (hinv.applied n)

/-- Node 0 leads in term 1, takes two proposals, and commits them with node 1. -/
def commitProposals (first second : Bytes) : List Action :=
  [.startElection 0, .handleRequestVote 1 ⟨1, 0, 0, 0⟩, .finishElection 0 [1],
    .propose 0 first, .propose 0 second, .replicate 0, .sendCheck 0 ⟨1, 1, 1⟩,
    .sendAppendEntries 0 ⟨1, 1, 1⟩,
    .handleAppendEntries 1 ⟨1, 0, 0, 0, [⟨1, 1, first⟩, ⟨1, 2, second⟩], 0⟩,
    .handleAppendEntriesReply 1 ⟨1, 0, 0, 0, [⟨1, 1, first⟩, ⟨1, 2, second⟩], 0⟩ ⟨1, true⟩]

/-- After the first of two commands is compacted, the second is still at its index. -/
theorem applied_commands_aligned_compacted :
    ∃ s h, Exec (instrument (step threeNodes) (recordCommits threeNodes))
        (fun p a => KeepsAligned p.1 a) (ClusterState.init threeNodes, fun _ _ => [])
        (commitProposals [97] [98] ++ [.compact 0 1 [99]]) (s, h) ∧
      Aligned (s.node 0) (h 0) ∧ (s.node 0).log.snapshotLastIndex = 1 ∧
      (s.node 0).appliedCommands = [[98]] ∧ h 0 2 = [98] := by
  have hrun := Exec.of_guardedRun (instrument (step threeNodes) (recordCommits threeNodes))
    (fun p a => KeepsAligned p.1 a) (ClusterState.init threeNodes, fun _ _ => [])
    (commitProposals [97] [98] ++ [.compact 0 1 [99]]) (by decide +kernel)
  exact ⟨_, _, hrun, applied_commands_aligned threeNodes hrun 0, by decide +kernel,
    by decide +kernel, by decide +kernel⟩

/-- An empty command is committed at index 1 and the command of index 2 is applied in its
place. -/
theorem empty_command_shifts_applied :
    ∃ s h, Exec (instrument (step threeNodes) (recordCommits threeNodes)) (fun _ _ => True)
        (ClusterState.init threeNodes, fun _ _ => []) (commitProposals [] [98]) (s, h) ∧
      (s.node 0).lastApplied = 2 ∧ (s.node 0).log.snapshotLastIndex = 0 ∧
      (s.node 0).appliedCommands = [[98]] ∧ h 0 1 = [] ∧ ¬ Aligned (s.node 0) (h 0) := by
  have hrun := Exec.of_guardedRun (instrument (step threeNodes) (recordCommits threeNodes))
    (fun _ _ => True) (ClusterState.init threeNodes, fun _ _ => []) (commitProposals [] [98])
    (by decide +kernel)
  refine ⟨_, _, hrun, by decide +kernel, by decide +kernel, by decide +kernel, by decide +kernel,
    fun haligned => ?_⟩
  exact absurd haligned.length (by decide +kernel)

end NanoDB.Raft
