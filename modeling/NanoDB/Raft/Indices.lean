import NanoDB.Raft.CommitSafety
import NanoDB.Raft.Conflict

/-!
# The indices of a node

Five critical sections write {lit}`commit_index_` and {lit}`last_applied_`, and
{lit}`handle_append_entries` can move the end of the log below them: a late request cuts
committed entries off.  Requests that do not cut below the commit index keep the three
indices of a node in order.

Main results:

- Theorem {lit}`step_moves`: each transition appends and commits, compacts, or restarts, and
  how that moves the indices and the applied commands of every node.
- Theorem {lit}`indexInv_handleAppendEntries_iff`: a request keeps the indices of a node in
  order exactly when it does not cut below the commit index.
- Theorem {lit}`indices_ordered`: in every run without such a request the indices are in
  order and do not fall between restarts.
-/

namespace NanoDB.Raft

open Lib (Exec guardedRun)
open RaftNode

/-! ## The end of a log -/

namespace RaftLog

theorem le_lastIndex_of_termAt_pos {log : RaftLog} {index : Nat} (h : 0 < log.termAt index) :
    index ≤ log.lastIndex := by
  by_contra hbeyond
  rw [termAt] at h
  split_ifs at h <;> omega

@[simp]
theorem lastIndex_append (log : RaftLog) (term : Nat) (command : Bytes) :
    (log.append term command).lastIndex = log.lastIndex + 1 := by
  simp [lastIndex, append, Nat.add_assoc]

theorem lastIndex_compact {log : RaftLog} {upToIndex : Nat}
    (h : log.snapshotLastIndex < upToIndex) (term : Nat) (data : Bytes) :
    (log.compact upToIndex term data).lastIndex = max log.lastIndex upToIndex := by
  rw [compact, if_neg (by omega)]
  simp only [lastIndex, List.length_drop]
  omega

theorem snapshotLastIndex_compact {log : RaftLog} {upToIndex : Nat}
    (h : log.snapshotLastIndex < upToIndex) (term : Nat) (data : Bytes) :
    (log.compact upToIndex term data).snapshotLastIndex = upToIndex := by
  rw [compact, if_neg (by omega)]

end RaftLog

/-- Where a log ends once a request has been accepted: at the end of the request, if it has
entries. -/
def endAfter (log : RaftLog) (req : AppendEntriesRequest) : Nat :=
  if req.entries = [] then log.lastIndex
  else max log.snapshotLastIndex (req.prevLogIndex + req.entries.length)

theorem lastIndex_acceptedLog {node : RaftNode} {req : AppendEntriesRequest}
    (hprev : node.prevMatches req = true) :
    (acceptedLog node.log req).lastIndex = endAfter node.log req := by
  have hle := prevLogIndex_le_of_prevMatches hprev
  rw [endAfter]
  split
  · next hempty => rw [acceptedLog_of_entries_eq_nil hempty]
  · next hne =>
      have hpos : 0 < req.entries.length := List.length_pos_of_ne_nil hne
      rw [RaftLog.lastIndex] at hle
      rw [RaftLog.lastIndex, snapshotLastIndex_acceptedLog, entries_acceptedLog hne,
        List.length_append, List.length_take, List.length_drop, length_newEntries]
      omega

/-! ## The apply loop -/

/-- The commands that the apply loop takes from a log between two indices. -/
def appliedBetween (log : RaftLog) (lastApplied commitIndex : Nat) : List Bytes :=
  ((List.range' (lastApplied + 1) (commitIndex - lastApplied)).map log.commandAt).filter
    fun cmd => !cmd.isEmpty

theorem appliedBetween_self (log : RaftLog) (i : Nat) : appliedBetween log i i = [] := by
  simp [appliedBetween]

/-- What the turns of the apply loop do. -/
theorem iterate_applyNext (node : RaftNode) (k : Nat) :
    (applyNext^[k] node).log = node.log ∧
      (applyNext^[k] node).lastApplied = node.lastApplied + k ∧
      (applyNext^[k] node).appliedCommands =
        node.appliedCommands ++
          appliedBetween node.log node.lastApplied (node.lastApplied + k) := by
  induction k with
  | zero => exact ⟨rfl, rfl, by simp [appliedBetween_self]⟩
  | succ k ih =>
      rcases ih with ⟨hlog, happlied, hcommands⟩
      have hcount : node.lastApplied + (k + 1) - node.lastApplied = k + 1 := by omega
      have hcount' : node.lastApplied + k - node.lastApplied = k := by omega
      have hindex : node.lastApplied + 1 + k = node.lastApplied + k + 1 := by omega
      rw [appliedBetween, hcount'] at hcommands
      rw [Function.iterate_succ_apply', applyNext, hlog, happlied, hcommands, appliedBetween,
        hcount, List.range'_1_concat, hindex]
      split_ifs with hempty
      · exact ⟨rfl, rfl, by simp [hempty]⟩
      · exact ⟨rfl, rfl, by simp [hempty]⟩

theorem applyCommittedEntries_lastApplied (node : RaftNode) :
    node.applyCommittedEntries.lastApplied = max node.lastApplied node.commitIndex := by
  rw [applyCommittedEntries, (iterate_applyNext node _).2.1]
  omega

theorem applyCommittedEntries_appliedCommands (node : RaftNode) :
    node.applyCommittedEntries.appliedCommands =
      node.appliedCommands ++ appliedBetween node.log node.lastApplied node.commitIndex := by
  rw [applyCommittedEntries, (iterate_applyNext node _).2.2, appliedBetween, appliedBetween]
  congr 4
  omega

/-! ## How a section moves the indices -/

/-- The request is accepted, has entries, and ends before the commit index of the node. -/
def cutsCommitted (node : RaftNode) (req : AppendEntriesRequest) : Bool :=
  decide (node.state.currentTerm ≤ req.term) && node.prevMatches req && !req.entries.isEmpty &&
    decide (endAfter node.log req < node.commitIndex)

/-- The request is accepted, its sender has committed more than the node, and the log will
end before the commit index of the node, which is then set to that end. -/
def lowersCommit (node : RaftNode) (req : AppendEntriesRequest) : Bool :=
  decide (node.state.currentTerm ≤ req.term) && node.prevMatches req &&
    decide (node.commitIndex < req.leaderCommit) &&
    decide (endAfter node.log req < node.commitIndex)

section Accepted

variable {node : RaftNode} {req : AppendEntriesRequest}
  (hterm : node.state.currentTerm ≤ req.term) (hprev : node.prevMatches req = true)
include hterm hprev

theorem cutsCommitted_eq_false_iff (hbound : node.commitIndex ≤ node.log.lastIndex) :
    cutsCommitted node req = false ↔ node.commitIndex ≤ endAfter node.log req := by
  by_cases hne : req.entries = []
  · simp [cutsCommitted, endAfter, hne, hbound]
  · simp [cutsCommitted, hterm, hprev, hne]

theorem le_endAfter_of_lowersCommit (hkeeps : lowersCommit node req = false)
    (hnewer : node.commitIndex < req.leaderCommit) :
    node.commitIndex ≤ endAfter node.log req := by
  simpa [lowersCommit, hterm, hprev, hnewer] using hkeeps

end Accepted

/-- A request lowers no commit index inside the log if it cuts no committed entry off. -/
theorem lowersCommit_of_cutsCommitted {node : RaftNode} {req : AppendEntriesRequest}
    (hbound : node.commitIndex ≤ node.log.lastIndex) (h : cutsCommitted node req = false) :
    lowersCommit node req = false := by
  by_contra hlowers
  simp only [lowersCommit, Bool.not_eq_false, Bool.and_eq_true, decide_eq_true_eq] at hlowers
  rcases hlowers with ⟨⟨⟨hterm, hprev⟩, -⟩, hcut⟩
  have hle := (cutsCommitted_eq_false_iff hterm hprev hbound).mp h
  omega

/-- A node that stands for election or leads has been through an election. -/
def Elected (node : RaftNode) : Prop :=
  node.role ≠ .follower → 0 < node.state.currentTerm

/-- What holds between the sections of a node whose commit index is never lowered. -/
structure Settled (node : RaftNode) : Prop where
  snapshot_le : node.log.snapshotLastIndex ≤ node.lastApplied
  applied_eq : node.lastApplied = node.commitIndex
  elected : Elected node

/-- How one critical section moves the indices of a node: it may append and commit, it may
put a snapshot in place of the entries up to an index, or it is a restart.  {lit}`reaches`
is the condition under which the log still ends at or after the old commit index, and
{lit}`restarts` says whether the node may have been restarted. -/
inductive Moves (reaches restarts : Prop) (node node' : RaftNode) : Prop
  | append (hsnap : node'.log.snapshotLastIndex = node.log.snapshotLastIndex)
      (hend : reaches → node.commitIndex ≤ node.log.lastIndex →
        node.commitIndex ≤ node'.log.lastIndex)
      (hcommit : node.commitIndex ≤ node'.commitIndex)
      (hbound : node.commitIndex < node'.commitIndex → node'.commitIndex ≤ node'.log.lastIndex)
      (happlied : node'.lastApplied = node'.commitIndex)
      (hcommands : node'.appliedCommands = node.appliedCommands ++
        appliedBetween node'.log node.commitIndex node'.commitIndex)
  | compact {upToIndex term : Nat} {data : Bytes}
      (hnew : node.log.snapshotLastIndex < upToIndex)
      (hlog : node'.log = node.log.compact upToIndex term data)
      (hcommit : node'.commitIndex = max node.commitIndex upToIndex)
      (happlied : node'.lastApplied = max node.lastApplied upToIndex)
      (hcommands : node'.appliedCommands =
        node.appliedCommands.drop (upToIndex - node.log.snapshotLastIndex))
  | restart (hrestarts : restarts) (hlog : node'.log = node.log)
      (hcommit : node'.commitIndex = node.log.snapshotLastIndex)
      (happlied : node'.lastApplied = node.log.snapshotLastIndex)
      (hcommands : node'.appliedCommands = [])

/-- The section leaves the log and what was applied of it alone. -/
structure Unmoved (node node' : RaftNode) : Prop where
  log : node'.log = node.log
  commitIndex : node'.commitIndex = node.commitIndex
  lastApplied : node'.lastApplied = node.lastApplied
  appliedCommands : node'.appliedCommands = node.appliedCommands

namespace Unmoved

theorem observeTerm (node : RaftNode) (term : Nat) : Unmoved node (node.observeTerm term) := by
  unfold RaftNode.observeTerm
  split <;> exact ⟨rfl, rfl, rfl, rfl⟩

theorem handleRequestVote (node : RaftNode) (req : RequestVoteRequest) :
    Unmoved node (node.handleRequestVote req).1 := by
  have hobs := observeTerm node req.term
  rcases handleRequestVote_cases node req with ⟨-, hnode⟩ | ⟨hyes, -, -⟩
  · rw [hnode]
    exact hobs
  · rw [hyes]
    exact ⟨hobs.log, hobs.commitIndex, hobs.lastApplied, hobs.appliedCommands⟩

theorem handleRequestVoteReply (node : RaftNode) (electionTerm : Nat)
    (resp : RequestVoteResponse) :
    Unmoved node (node.handleRequestVoteReply electionTerm resp) := by
  unfold RaftNode.handleRequestVoteReply
  split
  · exact observeTerm node resp.term
  · exact ⟨rfl, rfl, rfl, rfl⟩

theorem finishElection (node : RaftNode) (electionTerm votes : Nat) :
    Unmoved node (node.finishElection electionTerm votes) := by
  unfold RaftNode.finishElection
  split <;> exact ⟨rfl, rfl, rfl, rfl⟩

theorem handleInstallSnapshotReply (node : RaftNode) (peerId : Int) (req : InstallSnapshotRequest)
    (resp : InstallSnapshotResponse) :
    Unmoved node (node.handleInstallSnapshotReply peerId req resp) := by
  unfold RaftNode.handleInstallSnapshotReply
  split_ifs <;> exact ⟨rfl, rfl, rfl, rfl⟩

end Unmoved

namespace Moves

variable {reaches restarts : Prop} {node mid node' : RaftNode}

/-- The log is replaced by one that starts at the same snapshot, and nothing is committed. -/
theorem of_uncommitted (hset : Settled node)
    (hsnap : node'.log.snapshotLastIndex = node.log.snapshotLastIndex)
    (hend : reaches → node.commitIndex ≤ node.log.lastIndex →
      node.commitIndex ≤ node'.log.lastIndex)
    (hcommit : node'.commitIndex = node.commitIndex)
    (happlied : node'.lastApplied = node.lastApplied)
    (hcommands : node'.appliedCommands = node.appliedCommands) :
    Moves reaches restarts node node' := by
  refine .append hsnap hend hcommit.ge ?_ ?_ ?_
  · intro hlt
    exact absurd (hlt.trans_eq hcommit) (lt_irrefl _)
  · rw [happlied, hcommit, hset.applied_eq]
  · rw [hcommands, hcommit, appliedBetween_self, List.append_nil]

theorem of_same (hset : Settled node) (h : Unmoved node node') :
    Moves reaches restarts node node' :=
  of_uncommitted hset (by rw [h.log]) (fun _ hle => by rwa [h.log]) h.commitIndex h.lastApplied
    h.appliedCommands

/-- The log is replaced by one that starts at the same snapshot, then the commit index rises
inside it and the apply loop runs. -/
theorem of_apply (hset : Settled node)
    (hsnap : mid.log.snapshotLastIndex = node.log.snapshotLastIndex)
    (hend : reaches → node.commitIndex ≤ node.log.lastIndex →
      node.commitIndex ≤ mid.log.lastIndex)
    (hcommit : node.commitIndex ≤ mid.commitIndex) (hbound : mid.commitIndex ≤ mid.log.lastIndex)
    (happlied : mid.lastApplied = node.lastApplied)
    (hcommands : mid.appliedCommands = node.appliedCommands) :
    Moves reaches restarts node mid.applyCommittedEntries := by
  have heq := hset.applied_eq
  refine .append ?_ ?_ ?_ ?_ ?_ ?_
  · rwa [applyCommittedEntries_log]
  · rwa [applyCommittedEntries_log]
  · rwa [applyCommittedEntries_commitIndex]
  · rw [applyCommittedEntries_log, applyCommittedEntries_commitIndex]
    exact fun _ => hbound
  · rw [applyCommittedEntries_lastApplied, applyCommittedEntries_commitIndex]
    omega
  · rw [applyCommittedEntries_appliedCommands, applyCommittedEntries_log,
      applyCommittedEntries_commitIndex, hcommands, happlied, heq]

/-- A leader with a log that is no shorter tries to advance its commit index. -/
theorem of_advance (hset : Settled node)
    (hsnap : mid.log.snapshotLastIndex = node.log.snapshotLastIndex)
    (hlast : node.log.lastIndex ≤ mid.log.lastIndex)
    (hcommit : mid.commitIndex = node.commitIndex) (happlied : mid.lastApplied = node.lastApplied)
    (hcommands : mid.appliedCommands = node.appliedCommands)
    (hterm : 0 < mid.state.currentTerm) :
    Moves reaches restarts node mid.advanceCommitIndex := by
  rw [advanceCommitIndex]
  split_ifs with hgt
  · have htermAt := (computeNewCommitIndex_gt rfl hgt).1
    refine of_apply hset hsnap (fun _ hle => hle.trans hlast) ?_ ?_ happlied hcommands
    · exact hcommit ▸ hgt.le
    · exact RaftLog.le_lastIndex_of_termAt_pos (htermAt.symm ▸ hterm)
  · exact of_uncommitted hset hsnap (fun _ hle => hle.trans hlast) hcommit happlied hcommands

theorem propose {command : Bytes} {call : ProposeCall} (hset : Settled node)
    (h : node.propose command = some (node', call)) : Moves reaches restarts node node' := by
  rcases propose_eq_some h with ⟨hrole, rfl, -⟩
  have hterm : 0 < node.state.currentTerm := hset.elected (by simp [hrole])
  refine of_advance hset rfl ?_ rfl rfl rfl hterm
  rw [RaftLog.lastIndex_append]
  exact Nat.le_succ _

theorem handleAppendEntriesReply (hset : Settled node) (peerId : Int) (req : AppendEntriesRequest)
    (resp : AppendEntriesResponse) :
    Moves reaches restarts node (node.handleAppendEntriesReply peerId req resp) := by
  unfold RaftNode.handleAppendEntriesReply
  split_ifs with hnew hstale
  · exact of_same hset ⟨rfl, rfl, rfl, rfl⟩
  · exact of_same hset ⟨rfl, rfl, rfl, rfl⟩
  · rw [not_or, not_not] at hstale
    have hterm : 0 < node.state.currentTerm := hset.elected (by simp [hstale.1])
    exact of_advance hset rfl le_rfl rfl rfl rfl hterm
  · exact of_same hset ⟨rfl, rfl, rfl, rfl⟩
  · exact of_same hset ⟨rfl, rfl, rfl, rfl⟩

/-- An accepted request that does not lower the commit index. -/
theorem acceptEntries {req : AppendEntriesRequest} (hset : Settled node) (hsame : Unmoved node mid)
    (hterm : node.state.currentTerm ≤ req.term) (hprev : node.prevMatches req = true)
    (hkeeps : lowersCommit node req = false) :
    Moves (cutsCommitted node req = false) restarts node (mid.acceptEntries req) := by
  have hlast := lastIndex_acceptedLog hprev
  have hend : cutsCommitted node req = false → node.commitIndex ≤ node.log.lastIndex →
      node.commitIndex ≤ (acceptedLog node.log req).lastIndex := by
    intro hcuts hbound
    rw [hlast]
    exact (cutsCommitted_eq_false_iff hterm hprev hbound).mp hcuts
  rw [acceptEntries_eq, hsame.log, hsame.commitIndex]
  split_ifs with hnewer
  · have hle := le_endAfter_of_lowersCommit hterm hprev hkeeps hnewer
    refine of_apply hset (snapshotLastIndex_acceptedLog _ _) hend ?_ ?_ hsame.lastApplied
      hsame.appliedCommands
    · rw [hlast]
      exact le_min hnewer.le hle
    · exact min_le_right _ _
  · exact of_uncommitted hset (snapshotLastIndex_acceptedLog _ _) hend rfl hsame.lastApplied
      hsame.appliedCommands

theorem handleAppendEntries {req : AppendEntriesRequest} (hset : Settled node)
    (hkeeps : lowersCommit node req = false) :
    Moves (cutsCommitted node req = false) restarts node (node.handleAppendEntries req).1 := by
  have hobs := Unmoved.observeTerm node req.term
  have hfollow : Unmoved node
      { node.observeTerm req.term with role := .follower, leaderId := req.leaderId } :=
    ⟨hobs.log, hobs.commitIndex, hobs.lastApplied, hobs.appliedCommands⟩
  cases hsucc : (node.handleAppendEntries req).2.success with
  | true =>
      rcases LogInv.accepted_frame hsucc with ⟨hterm, hprev, -, -, -⟩
      unfold RaftNode.handleAppendEntries at hsucc ⊢
      dsimp only at hsucc ⊢
      split_ifs at hsucc ⊢
      exact acceptEntries hset hfollow hterm hprev hkeeps
  | false =>
      unfold RaftNode.handleAppendEntries at hsucc ⊢
      dsimp only at hsucc ⊢
      split_ifs at hsucc ⊢
      · exact of_same hset hobs
      · exact of_same hset hfollow

theorem handleInstallSnapshot (hset : Settled node) (req : InstallSnapshotRequest) :
    Moves reaches restarts node (node.handleInstallSnapshot req).1 := by
  have hobs := Unmoved.observeTerm node req.term
  unfold RaftNode.handleInstallSnapshot
  dsimp only
  split_ifs with hstale hold
  · exact of_same hset hobs
  · exact of_same hset ⟨hobs.log, hobs.commitIndex, hobs.lastApplied, hobs.appliedCommands⟩
  · rw [hobs.log, hobs.commitIndex, hobs.lastApplied, hobs.appliedCommands]
    rw [hobs.log] at hold
    refine .compact (Nat.lt_of_not_ge hold) rfl rfl rfl ?_
    rcases Nat.le_total (req.lastIncludedIndex - node.log.snapshotLastIndex)
      node.appliedCommands.length with hle | hge
    · rw [Nat.min_eq_left hle]
    · rw [Nat.min_eq_right hge, List.drop_length, List.drop_eq_nil_of_le hge]

theorem of_compact (hset : Settled node) (upToIndex : Nat) (snapshotData : Bytes) :
    Moves reaches restarts node (node.compact upToIndex snapshotData).1 := by
  unfold RaftNode.compact
  dsimp only
  split_ifs with hold happlied
  · exact of_same hset ⟨rfl, rfl, rfl, rfl⟩
  · exact of_same hset ⟨rfl, rfl, rfl, rfl⟩
  · exact of_same hset ⟨rfl, rfl, rfl, rfl⟩
  · have hle : upToIndex ≤ node.lastApplied := Nat.le_of_not_gt happlied
    refine .compact (Nat.lt_of_not_ge hold) rfl ?_ (Nat.max_eq_left hle).symm rfl
    exact (Nat.max_eq_left (hle.trans_eq hset.applied_eq)).symm

theorem of_restart (node : RaftNode) (state : PersistentState) (h : restarts) :
    Moves reaches restarts node (node.restart state) :=
  .restart h rfl rfl rfl rfl

/-- Replacing one node moves the indices of that node only. -/
theorem of_update {s : ClusterState} {n : Int} (m : Int) (hset : Settled (s.node m))
    (h : m = n → Moves reaches restarts (s.node m) node) :
    Moves reaches restarts (s.node m) (Function.update s.node n node m) := by
  by_cases hm : m = n
  · subst hm
    rw [Function.update_self]
    exact h rfl
  · rw [Function.update_of_ne hm]
    exact of_same hset ⟨rfl, rfl, rfl, rfl⟩

end Moves

/-! ## Steps -/

/-- The side condition of a run in which no request cuts committed entries off. -/
def KeepsCommitted (s : ClusterState) : Action → Prop
  | .handleAppendEntries n req => cutsCommitted (s.node n) req = false
  | _ => True

instance (s : ClusterState) (a : Action) : Decidable (KeepsCommitted s a) :=
  match a with
  | .handleAppendEntries .. => instDecidableEqBool _ _
  | .startElection .. | .handleRequestVote .. | .handleRequestVoteReply .. | .finishElection ..
  | .propose .. | .replicate .. | .sendCheck .. | .sendAppendEntries .. | .compact ..
  | .handleAppendEntriesReply .. | .handleInstallSnapshot .. | .handleInstallSnapshotReply ..
  | .restart .. | .crashAfterStepDown .. => instDecidableTrue

/-- The action restarts the node. -/
def restartsNode (n : Int) : Action → Prop
  | .restart m => m = n
  | .crashAfterStepDown m _ => m = n
  | _ => False

instance (n : Int) (a : Action) : Decidable (restartsNode n a) :=
  match a with
  | .restart m => Int.instDecidableEq m n
  | .crashAfterStepDown m _ => Int.instDecidableEq m n
  | .startElection .. | .handleRequestVote .. | .handleRequestVoteReply .. | .finishElection ..
  | .propose .. | .replicate .. | .sendCheck .. | .sendAppendEntries .. | .compact ..
  | .handleAppendEntries .. | .handleAppendEntriesReply .. | .handleInstallSnapshot ..
  | .handleInstallSnapshotReply .. => instDecidableFalse

/-- **Step lemma.**  A transition that lowers no commit index moves the indices of every node
in one of the listed ways. -/
theorem step_moves {c : Membership} {s s' : ClusterState} {a : Action} (n : Int)
    (hset : Settled (s.node n))
    (hkeeps : ∀ m req, a = .handleAppendEntries m req → lowersCommit (s.node m) req = false)
    (hstep : step c s a = some s') :
    Moves (KeepsCommitted s a) (restartsNode n a) (s.node n) (s'.node n) := by
  cases step_cases hstep with
  | startElection =>
      refine .of_update n hset ?_
      rintro rfl
      exact .of_same hset ⟨rfl, rfl, rfl, rfl⟩
  | handleRequestVote =>
      refine .of_update n hset ?_
      rintro rfl
      exact .of_same hset (.handleRequestVote _ _)
  | handleRequestVoteReply =>
      refine .of_update n hset ?_
      rintro rfl
      exact .of_same hset (.handleRequestVoteReply _ _ _)
  | finishElection =>
      refine .of_update n hset ?_
      rintro rfl
      exact .of_same hset (.finishElection _ _ _)
  | propose _ hcall =>
      refine .of_update n hset ?_
      rintro rfl
      exact .propose hset hcall
  | @handleAppendEntries m req hmem =>
      refine .of_update n hset ?_
      rintro rfl
      exact .handleAppendEntries hset (hkeeps n req rfl)
  | handleAppendEntriesReply =>
      refine .of_update n hset ?_
      rintro rfl
      exact .handleAppendEntriesReply hset _ _ _
  | handleInstallSnapshot =>
      refine .of_update n hset ?_
      rintro rfl
      exact .handleInstallSnapshot hset _
  | handleInstallSnapshotReply =>
      refine .of_update n hset ?_
      rintro rfl
      exact .of_same hset (.handleInstallSnapshotReply _ _ _ _)
  | compact =>
      refine .of_update n hset ?_
      rintro rfl
      exact .of_compact hset _ _
  | restart =>
      refine .of_update n hset ?_
      rintro rfl
      exact .of_restart _ _ rfl
  | crashAfterStepDown =>
      refine .of_update n hset ?_
      rintro rfl
      exact .of_restart _ _ rfl
  | _ => exact .of_same hset ⟨rfl, rfl, rfl, rfl⟩

theorem Elected.of_quiet {node node' : RaftNode} (h : Elected node) (hquiet : Quiet node node') :
    Elected node' := by
  intro hrole
  rcases hquiet.role with hsame | hfollower
  · exact (h (hsame ▸ hrole)).trans_le hquiet.voteKept.1
  · exact absurd hfollower hrole

theorem Elected.update {s : ClusterState} (h : ∀ n, Elected (s.node n)) {n : Int}
    {node : RaftNode} (hnode : Elected node) (m : Int) :
    Elected (Function.update s.node n node m) :=
  (Function.forall_update_iff s.node fun _ x => Elected x).mpr ⟨hnode, fun k _ => h k⟩ m

/-- **Step lemma.**  Only {lit}`start_election` makes a candidate and only a candidate
becomes leader. -/
theorem Elected.step {c : Membership} {s s' : ClusterState} {a : Action}
    (h : ∀ n, Elected (s.node n)) (hstep : step c s a = some s') (n : Int) :
    Elected (s'.node n) := by
  cases step_cases hstep with
  | startElection => exact Elected.update h (fun _ => Nat.succ_pos _) n
  | @handleRequestVote m req =>
      refine Elected.update h ?_ n
      have hquiet := Quiet.observeTerm (s.node m) req.term
      rcases handleRequestVote_cases (s.node m) req with ⟨-, hnode⟩ | ⟨hyes, -, hfree⟩
      · rw [hnode]
        exact (h m).of_quiet hquiet
      · rw [hyes]
        intro hrole
        rcases hfree with hlt | ⟨heq, -⟩
        · exact Nat.zero_lt_of_lt hlt
        · rcases hquiet.role with hsame | hfollower
          · exact heq ▸ h m (hsame ▸ hrole)
          · exact absurd hfollower hrole
  | handleRequestVoteReply =>
      exact Elected.update h ((h _).of_quiet (Quiet.handleRequestVoteReply _ _ _)) n
  | finishElection =>
      refine Elected.update h ?_ n
      unfold RaftNode.finishElection
      split
      · next hwon => exact fun _ => h _ (by simp [hwon.1])
      · exact h _
  | propose _ hcall => exact Elected.update h ((h _).of_quiet (Quiet.propose hcall)) n
  | handleAppendEntries =>
      exact Elected.update h ((h _).of_quiet (Quiet.handleAppendEntries _ _)) n
  | handleAppendEntriesReply =>
      exact Elected.update h ((h _).of_quiet (Quiet.handleAppendEntriesReply _ _ _ _)) n
  | handleInstallSnapshot =>
      exact Elected.update h ((h _).of_quiet (Quiet.handleInstallSnapshot _ _)) n
  | handleInstallSnapshotReply =>
      exact Elected.update h ((h _).of_quiet (Quiet.handleInstallSnapshotReply _ _ _ _)) n
  | compact => exact Elected.update h ((h _).of_quiet (Quiet.compact _ _ _)) n
  | restart => exact Elected.update h ((h _).of_quiet (Quiet.restart _ (.inl rfl))) n
  | crashAfterStepDown _ hnew =>
      exact Elected.update h ((h _).of_quiet (Quiet.restart _ (.inr ⟨hnew, rfl⟩))) n
  | _ => exact h n

/-! ## The indices in order -/

/-- The order of the indices of a node between its critical sections. -/
structure IndexInv (node : RaftNode) : Prop where
  snapshot_le : node.log.snapshotLastIndex ≤ node.lastApplied
  applied_eq : node.lastApplied = node.commitIndex
  commit_le : node.commitIndex ≤ node.log.lastIndex

theorem IndexInv.settled {node : RaftNode} (h : IndexInv node) (helected : Elected node) :
    Settled node :=
  ⟨h.snapshot_le, h.applied_eq, helected⟩

namespace Moves

variable {reaches restarts : Prop} {node node' : RaftNode}

theorem settled (h : Moves reaches restarts node node') (hset : Settled node)
    (helected : Elected node') : Settled node' := by
  have hle := hset.snapshot_le
  have heq := hset.applied_eq
  cases h with
  | append hsnap hend hcommit hbound happlied hcommands => exact ⟨by omega, happlied, helected⟩
  | compact hnew hlog hcommit happlied hcommands =>
      refine ⟨?_, by omega, helected⟩
      rw [hlog, RaftLog.snapshotLastIndex_compact hnew]
      omega
  | restart hrestarts hlog hcommit happlied hcommands =>
      exact ⟨by rw [hlog, happlied], by rw [happlied, hcommit], helected⟩

/-- As long as the log is not cut below the commit index, it ends at or after it. -/
theorem commit_le (h : Moves reaches restarts node node') (hreaches : reaches)
    (hle : node.commitIndex ≤ node.log.lastIndex) :
    node'.commitIndex ≤ node'.log.lastIndex := by
  cases h with
  | append hsnap hend hcommit hbound happlied hcommands =>
      rcases hcommit.lt_or_eq with hlt | heq
      · exact hbound hlt
      · exact heq ▸ hend hreaches hle
  | compact hnew hlog hcommit happlied hcommands =>
      rw [hlog, hcommit, RaftLog.lastIndex_compact hnew]
      omega
  | restart hrestarts hlog hcommit happlied hcommands =>
      rw [hlog, hcommit, RaftLog.lastIndex]
      exact Nat.le_add_right _ _

theorem indexInv (h : Moves reaches restarts node node') (hreaches : reaches)
    (hinv : IndexInv node) (helected : Elected node) (helected' : Elected node') :
    IndexInv node' := by
  have hset := h.settled (hinv.settled helected) helected'
  exact ⟨hset.snapshot_le, hset.applied_eq, h.commit_le hreaches hinv.commit_le⟩

/-- Without a restart no index falls. -/
theorem commitIndex_le (h : Moves reaches restarts node node') (hrestarts : ¬ restarts) :
    node.commitIndex ≤ node'.commitIndex := by
  cases h with
  | append hsnap hend hcommit hbound happlied hcommands => exact hcommit
  | compact hnew hlog hcommit happlied hcommands => exact hcommit ▸ le_max_left _ _
  | restart hyes hlog hcommit happlied hcommands => exact absurd hyes hrestarts

end Moves

/-- The node after a request that it accepts. -/
theorem handleAppendEntries_of_accepts {node : RaftNode} {req : AppendEntriesRequest}
    (hterm : node.state.currentTerm ≤ req.term) (hprev : node.prevMatches req = true) :
    (node.handleAppendEntries req).1 = acceptEntries
      { node.observeTerm req.term with role := .follower, leaderId := req.leaderId } req := by
  have hobs : (node.observeTerm req.term).state.currentTerm = req.term := by
    unfold RaftNode.observeTerm
    split_ifs with hnew
    · rfl
    · exact le_antisymm hterm (Nat.le_of_not_gt hnew)
  have hprev' : prevMatches
      { node.observeTerm req.term with role := .follower, leaderId := req.leaderId } req =
        true := by
    simpa [prevMatches] using hprev
  unfold RaftNode.handleAppendEntries
  dsimp only
  rw [if_neg (by omega), if_pos hprev']

/-- A request keeps the indices of a node in order exactly when it does not cut committed
entries off. -/
theorem indexInv_handleAppendEntries_iff {node : RaftNode} (hinv : IndexInv node)
    (helected : Elected node) (req : AppendEntriesRequest) :
    IndexInv (node.handleAppendEntries req).1 ↔ cutsCommitted node req = false := by
  constructor
  · intro hafter
    by_contra hcuts
    simp only [cutsCommitted, Bool.not_eq_false, Bool.and_eq_true, decide_eq_true_eq] at hcuts
    rcases hcuts with ⟨⟨⟨hterm, hprev⟩, -⟩, hend⟩
    have happlied := hinv.applied_eq
    rw [handleAppendEntries_of_accepts hterm hprev, acceptEntries_eq] at hafter
    split_ifs at hafter with hnewer
    · -- The commit index falls to the new end, but the commands behind it stay applied.
      have heq := hafter.applied_eq
      rw [applyCommittedEntries_lastApplied, applyCommittedEntries_commitIndex] at heq
      simp only [observeTerm_log, observeTerm_lastApplied, lastIndex_acceptedLog hprev] at heq
      omega
    · -- The commit index stays behind the new end.
      have hle := hafter.commit_le
      simp only [observeTerm_log, observeTerm_commitIndex, lastIndex_acceptedLog hprev] at hle
      omega
  · intro hcuts
    have hkeeps := lowersCommit_of_cutsCommitted hinv.commit_le hcuts
    have hmoves : Moves (cutsCommitted node req = false) False node _ :=
      Moves.handleAppendEntries (hinv.settled helected) hkeeps
    exact hmoves.indexInv hcuts hinv helected
      (helected.of_quiet (Quiet.handleAppendEntries node req))

/-- The indices of every node are in order. -/
structure IndicesInv (s : ClusterState) : Prop where
  indices : ∀ n, IndexInv (s.node n)
  elected : ∀ n, Elected (s.node n)

namespace IndicesInv

variable {c : Membership} {s s' : ClusterState} {a : Action}

theorem init (c : Membership) : IndicesInv (ClusterState.init c) where
  indices _ := ⟨le_rfl, rfl, le_rfl⟩
  elected _ := fun hrole => absurd rfl hrole

theorem moves (hinv : IndicesInv s) (hok : KeepsCommitted s a) (hstep : step c s a = some s')
    (n : Int) : Moves (KeepsCommitted s a) (restartsNode n a) (s.node n) (s'.node n) := by
  refine step_moves n ((hinv.indices n).settled (hinv.elected n)) ?_ hstep
  rintro m req rfl
  exact lowersCommit_of_cutsCommitted (hinv.indices m).commit_le hok

/-- **Step lemma.**  A transition that cuts no committed entries off keeps the order. -/
theorem step (hinv : IndicesInv s) (hok : KeepsCommitted s a)
    (hstep : NanoDB.Raft.step c s a = some s') : IndicesInv s' := by
  have helected := Elected.step hinv.elected hstep
  refine ⟨fun n => ?_, helected⟩
  exact (hinv.moves hok hstep n).indexInv hok (hinv.indices n) (hinv.elected n) (helected n)

end IndicesInv

/-- In every run in which no accepted request cuts committed entries off, for every node:
the indices are in order, and they do not fall while the node is not restarted. -/
theorem indices_ordered (c : Membership) (n : Int) {as bs : List Action} {s s' : ClusterState}
    (hrun : Runs c KeepsCommitted (ClusterState.init c) as s)
    (hbetween : Runs c (fun s a => KeepsCommitted s a ∧ ¬ restartsNode n a) s bs s') :
    IndexInv (s.node n) ∧ (s.node n).commitIndex ≤ (s'.node n).commitIndex ∧
      (s.node n).lastApplied ≤ (s'.node n).lastApplied := by
  have hinv : IndicesInv s :=
    hrun.invariant IndicesInv (fun _ _ _ hinv hok hstep => hinv.step hok hstep) (IndicesInv.init c)
  have hinv' : IndicesInv s' :=
    hbetween.invariant IndicesInv (fun _ _ _ hinv hok hstep => hinv.step hok.1 hstep) hinv
  have hcommit : (s.node n).commitIndex ≤ (s'.node n).commitIndex := by
    refine hbetween.relation IndicesInv
      (fun s s' => (s.node n).commitIndex ≤ (s'.node n).commitIndex) (fun _ => le_rfl)
      (fun _ _ _ => le_trans) (fun _ _ _ hinv hok hstep => hinv.step hok.1 hstep) ?_ hinv
    intro s a s' hinv hok hstep
    exact (hinv.moves hok.1 hstep n).commitIndex_le hok.2
  refine ⟨hinv.indices n, hcommit, ?_⟩
  rw [(hinv.indices n).applied_eq, (hinv'.indices n).applied_eq]
  exact hcommit

/-- The leader of {lit}`commitTwo` tells node 1 that both entries are committed. -/
def tellCommitted : List Action :=
  [.replicate 0, .sendCheck 0 ⟨1, 1, 3⟩, .sendAppendEntries 0 ⟨1, 1, 3⟩,
    .handleAppendEntries 1 ⟨1, 0, 2, 1, [], 2⟩]

/-- The first request of {lit}`commitTwo` reaches node 1 only now. -/
def lateFirst : List Action :=
  [.handleAppendEntries 1 ⟨1, 0, 0, 0, [⟨1, 1, [97]⟩], 0⟩]

private theorem commitTwo_isSome :
    (guardedRun (step threeNodes) KeepsCommitted (ClusterState.init threeNodes)
      commitTwo).isSome := by
  decide +kernel

theorem indices_ordered_tellCommitted :
    ∃ s s', Runs threeNodes KeepsCommitted (ClusterState.init threeNodes) commitTwo s ∧
      Runs threeNodes (fun s a => KeepsCommitted s a ∧ ¬ restartsNode 1 a) s tellCommitted s' ∧
      IndexInv (s.node 1) ∧ (s.node 1).commitIndex ≤ (s'.node 1).commitIndex ∧
      (s'.node 1).commitIndex = 2 := by
  have hrun := Exec.of_guardedRun (step threeNodes) KeepsCommitted (ClusterState.init threeNodes)
    commitTwo commitTwo_isSome
  have hbetween := Exec.of_guardedRun (step threeNodes)
    (fun s a => KeepsCommitted s a ∧ ¬ restartsNode 1 a)
    ((guardedRun (step threeNodes) KeepsCommitted (ClusterState.init threeNodes) commitTwo).get
      commitTwo_isSome) tellCommitted (by decide +kernel)
  rcases indices_ordered threeNodes 1 hrun hbetween with ⟨hinv, hcommit, -⟩
  exact ⟨_, _, hrun, hbetween, hinv, hcommit, by decide +kernel⟩

/-- A request that arrives late cuts the log of node 1 below its commit index. -/
theorem late_request_cuts_committed :
    ∃ s, Runs threeNodes (fun _ _ => True) (ClusterState.init threeNodes)
        (commitTwo ++ tellCommitted ++ lateFirst) s ∧
      (s.node 1).commitIndex = 2 ∧ (s.node 1).log.lastIndex = 1 ∧ ¬ IndexInv (s.node 1) := by
  have hrun := Exec.of_guardedRun (step threeNodes) (fun _ _ => True)
    (ClusterState.init threeNodes) (commitTwo ++ tellCommitted ++ lateFirst) (by decide +kernel)
  refine ⟨_, hrun, by decide +kernel, by decide +kernel, fun hinv => ?_⟩
  exact absurd hinv.commit_le (by decide +kernel)

end NanoDB.Raft
