import NanoDB.Raft.Indices

/-!
# What an installed snapshot leaves of a log

A follower that installs a snapshot may hold entries above it.  They continue the snapshot
only if the entry under the snapshot's last index is of the snapshot's last term; else they
are the tail of an older leader and have to go.  {lit}`RaftLog::compact` compares no terms: it
keeps everything above the snapshot, also a conflicting tail, whose older terms
{lit}`last_term()` then reports.

Main results:

- Theorem {lit}`entryAt_compact`: which entries a compaction keeps.
- Theorem {lit}`keepsMatchingSuffix_handleInstallSnapshot_iff`: when an installed snapshot
  leaves a matching suffix only.
- Theorem {lit}`stale_tail_kept`: a reachable follower that keeps a conflicting tail.
-/

namespace NanoDB.Raft

open Lib RaftNode

namespace RaftLog

variable {log : RaftLog} {upToIndex : Nat}

/-! ## Compaction by absolute index -/

theorem entries_compact (h : log.snapshotLastIndex < upToIndex) (term : Nat) (data : Bytes) :
    (log.compact upToIndex term data).entries =
      log.entries.drop (upToIndex - log.snapshotLastIndex) := by
  rw [compact, if_neg (by omega)]
  dsimp only
  rcases Nat.le_total (upToIndex - log.snapshotLastIndex) log.entries.length with hle | hle
  · rw [Nat.min_eq_left hle]
  · rw [Nat.min_eq_right hle, List.drop_length, List.drop_of_length_le hle]

/-- A compaction keeps the entries above it and no others. -/
theorem entryAt_compact (h : log.snapshotLastIndex < upToIndex) (term : Nat) (data : Bytes)
    (index : Nat) : (log.compact upToIndex term data).entryAt index =
      if index ≤ upToIndex then none else log.entryAt index := by
  rw [entryAt, snapshotLastIndex_compact h, entries_compact h, List.getElem?_drop, entryAt]
  split_ifs with hle hsnap
  · rfl
  · omega
  · congr 1
    omega

/-- The log has an entry of the given term at an index behind the snapshot. -/
def HoldsTerm (log : RaftLog) (index term : Nat) : Prop :=
  ∃ e, log.entryAt index = some e ∧ e.term = term

/-- Under terms that do not decrease, the entries above a held entry have at least its term. -/
theorem HoldsTerm.le_of_mem_drop {term : Nat} (hheld : log.HoldsTerm upToIndex term)
    (hmono : log.entries.Pairwise fun e e' => e.term ≤ e'.term) {e : PersistedEntry}
    (he : e ∈ log.entries.drop (upToIndex - log.snapshotLastIndex)) : term ≤ e.term := by
  rcases hheld with ⟨held, hat, rfl⟩
  rw [entryAt] at hat
  split_ifs at hat with hle
  obtain ⟨hlt, rfl⟩ := List.getElem?_eq_some_iff.mp hat
  obtain ⟨j, hj, rfl⟩ := List.mem_iff_getElem.mp he
  rw [List.length_drop] at hj
  rw [List.getElem_drop]
  exact List.pairwise_iff_getElem.mp hmono _ _ hlt (by omega) (by omega)

end RaftLog

/-! ## Installation -/

/-- Whether the request gets past the two checks of {lit}`handle_install_snapshot`. -/
def installs (node : RaftNode) (req : InstallSnapshotRequest) : Bool :=
  decide (node.state.currentTerm ≤ req.term) &&
    decide (node.log.snapshotLastIndex < req.lastIncludedIndex)

/-- What installation may leave of a log.  Entries remain only behind an entry that matches
the snapshot's last index and term, and then all of them; terms that did not decrease before
do not fall below the snapshot's. -/
structure KeepsMatchingSuffix (req : InstallSnapshotRequest) (log log' : RaftLog) : Prop where
  snapshotLastIndex_eq : log'.snapshotLastIndex = req.lastIncludedIndex
  snapshotLastTerm_eq : log'.snapshotLastTerm = req.lastIncludedTerm
  above : log.HoldsTerm req.lastIncludedIndex req.lastIncludedTerm →
    ∀ index, req.lastIncludedIndex < index → log'.entryAt index = log.entryAt index
  ends : ¬ log.HoldsTerm req.lastIncludedIndex req.lastIncludedTerm →
    log'.lastIndex = req.lastIncludedIndex
  terms_le : (log.entries.Pairwise fun e e' => e.term ≤ e'.term) →
    ∀ e ∈ log'.entries, log'.snapshotLastTerm ≤ e.term

section Install

variable {node : RaftNode} {req : InstallSnapshotRequest}

/-- The log of a node that installs the snapshot. -/
theorem log_handleInstallSnapshot (h : installs node req = true) :
    (node.handleInstallSnapshot req).1.log =
      node.log.compact req.lastIncludedIndex req.lastIncludedTerm req.data := by
  simp only [installs, Bool.and_eq_true, decide_eq_true_eq] at h
  have hterm : ¬ req.term < (node.observeTerm req.term).state.currentTerm := by
    unfold RaftNode.observeTerm
    split_ifs with hnew
    · exact Nat.lt_irrefl _
    · omega
  unfold RaftNode.handleInstallSnapshot
  dsimp only
  rw [if_neg hterm, observeTerm_log, if_neg (by omega)]

/-- Otherwise the log stays as it is. -/
theorem log_handleInstallSnapshot_of_not (h : ¬ installs node req = true) :
    (node.handleInstallSnapshot req).1.log = node.log := by
  simp only [installs, Bool.and_eq_true, decide_eq_true_eq, not_and] at h
  unfold RaftNode.handleInstallSnapshot
  dsimp only
  split_ifs with hold hseen
  · exact observeTerm_log ..
  · exact observeTerm_log ..
  · rw [observeTerm_log] at hseen
    unfold RaftNode.observeTerm at hold
    split_ifs at hold with hnew
    · exact absurd (h hnew.le) (by omega)
    · exact absurd (h (by omega)) (by omega)

/-- A request that is installed leaves a matching suffix only, exactly when the log does not
reach above the snapshot or matches it. -/
theorem keepsMatchingSuffix_handleInstallSnapshot_iff (h : installs node req = true) :
    KeepsMatchingSuffix req node.log (node.handleInstallSnapshot req).1.log ↔
      node.log.lastIndex ≤ req.lastIncludedIndex ∨
        node.log.HoldsTerm req.lastIncludedIndex req.lastIncludedTerm := by
  rw [log_handleInstallSnapshot h]
  simp only [installs, Bool.and_eq_true, decide_eq_true_eq] at h
  have hlast := RaftLog.lastIndex_compact h.2 req.lastIncludedTerm req.data
  have hterm : (node.log.compact req.lastIncludedIndex req.lastIncludedTerm
      req.data).snapshotLastTerm = req.lastIncludedTerm := by
    rw [RaftLog.compact, if_neg (by omega)]
  constructor
  · intro hkeeps
    by_cases hheld : node.log.HoldsTerm req.lastIncludedIndex req.lastIncludedTerm
    · exact .inr hheld
    · left
      have hends := hkeeps.ends hheld
      omega
  · intro hcond
    refine ⟨RaftLog.snapshotLastIndex_compact h.2 _ _, hterm, ?_, ?_, ?_⟩
    · intro _ index hindex
      rw [RaftLog.entryAt_compact h.2, if_neg (by omega)]
    · intro hheld
      have hle := hcond.resolve_right hheld
      omega
    · intro hmono e he
      rw [RaftLog.entries_compact h.2] at he
      rw [hterm]
      rcases hcond with hle | hheld
      · -- a log that ends inside the snapshot has nothing left
        rw [RaftLog.lastIndex] at hle
        rw [List.drop_of_length_le (by omega)] at he
        cases he
      · exact hheld.le_of_mem_drop hmono he

end Install

/-- A follower whose entry at the snapshot's last index matches keeps the one above it. -/
theorem keepsMatchingSuffix_matching :
    installs { nodeId := 2, peers := [0, 1, 2], log := ⟨[⟨2, [97]⟩, ⟨2, [98]⟩], 0, 0, []⟩ }
        ⟨2, 0, 1, 2, [115]⟩ = true ∧
      KeepsMatchingSuffix ⟨2, 0, 1, 2, [115]⟩ ⟨[⟨2, [97]⟩, ⟨2, [98]⟩], 0, 0, []⟩
        (RaftNode.handleInstallSnapshot
          { nodeId := 2, peers := [0, 1, 2], log := ⟨[⟨2, [97]⟩, ⟨2, [98]⟩], 0, 0, []⟩ }
          ⟨2, 0, 1, 2, [115]⟩).1.log := by
  have hinstalls : installs
      { nodeId := 2, peers := [0, 1, 2], log := ⟨[⟨2, [97]⟩, ⟨2, [98]⟩], 0, 0, []⟩ }
      ⟨2, 0, 1, 2, [115]⟩ = true := by decide
  exact ⟨hinstalls, (keepsMatchingSuffix_handleInstallSnapshot_iff hinstalls).mpr
    (.inr ⟨⟨2, [97]⟩, rfl, rfl⟩)⟩

/-- Node 2 leads term 1 and keeps two entries to itself; node 0 leads term 2, commits an entry
with node 1, compacts it and sends node 2 the snapshot. -/
def snapshotOverTail : List Action :=
  [.startElection 2, .handleRequestVote 0 ⟨1, 2, 0, 0⟩, .finishElection 2 [0],
    .propose 2 [120], .propose 2 [121],
    .startElection 0, .handleRequestVote 1 ⟨2, 0, 0, 0⟩, .finishElection 0 [1],
    .propose 0 [97], .replicate 0, .sendCheck 0 ⟨2, 1, 1⟩, .sendAppendEntries 0 ⟨2, 1, 1⟩,
    .handleAppendEntries 1 ⟨2, 0, 0, 0, [⟨2, 1, [97]⟩], 0⟩,
    .handleAppendEntriesReply 1 ⟨2, 0, 0, 0, [⟨2, 1, [97]⟩], 0⟩ ⟨2, true⟩,
    .compact 0 1 [115], .sendCheck 0 ⟨2, 2, 1⟩]

/-- The snapshot reaches node 2, which installs it and keeps its second entry of term 1 above
a snapshot of term 2. -/
theorem stale_tail_kept :
    ∃ s, Runs threeNodes (fun _ _ => True) (ClusterState.init threeNodes) snapshotOverTail s ∧
      .installSnapshot 2 ⟨2, 0, 1, 2, [115]⟩ ∈ s.net ∧
      installs (s.node 2) ⟨2, 0, 1, 2, [115]⟩ = true ∧
      ((s.node 2).handleInstallSnapshot ⟨2, 0, 1, 2, [115]⟩).1.log =
        ⟨[⟨1, [121]⟩], 1, 2, [115]⟩ ∧
      ((s.node 2).handleInstallSnapshot ⟨2, 0, 1, 2, [115]⟩).1.log.lastTerm = 1 ∧
      ¬ KeepsMatchingSuffix ⟨2, 0, 1, 2, [115]⟩ (s.node 2).log
        ((s.node 2).handleInstallSnapshot ⟨2, 0, 1, 2, [115]⟩).1.log := by
  have hrun := Exec.of_guardedRun (step threeNodes) (fun _ _ => True)
    (ClusterState.init threeNodes) snapshotOverTail (by decide +kernel)
  refine ⟨_, hrun, by decide +kernel, by decide +kernel, by decide +kernel, by decide +kernel, ?_⟩
  intro hkeeps
  have hmono : (RaftLog.entries (RaftNode.log (ClusterState.node
      ((guardedRun (step threeNodes) (fun _ _ => True) (ClusterState.init threeNodes)
        snapshotOverTail).get (by decide +kernel)) 2))).Pairwise
        fun e e' => e.term ≤ e'.term := by decide +kernel
  exact absurd (hkeeps.terms_le hmono ⟨1, [121]⟩ (by decide +kernel)) (by decide +kernel)

end NanoDB.Raft
