import NanoDB.Raft.InstallSnapshot
import NanoDB.Raft.LogRefinement
import NanoDB.Raft.WholeLogs

/-!
# A node and its shadow

Beside a node that compacts its log and installs snapshots stands a shadow: the same node with
the whole log.  The two have the same term, vote, role and bookkeeping, and the node's log is
the part of the shadow's log behind the snapshot.  Here the critical sections of a node are
matched, one by one, by those of its shadow.

Main results:

- Theorem {lit}`Shadows.handleAppendEntries`: a request that both accept, or both reject, and
  that brings along what the snapshot covers leaves the two in step.
- Theorem {lit}`Shadows.compact`: a compaction is nothing to the shadow.
- Theorem {lit}`Shadows.restart`: a restarted shadow has to learn what the snapshot covers.
-/

namespace NanoDB.Raft

open Lib RaftNode

/-- The node is {lit}`y` with a part of the log covered by a snapshot.  What the snapshot covers
is committed, and everything committed is applied. -/
structure Shadows (x y : RaftNode) : Prop where
  nodeId : y.nodeId = x.nodeId
  peers : y.peers = x.peers
  state : y.state = x.state
  role : y.role = x.role
  leaderId : y.leaderId = x.leaderId
  commitIndex : y.commitIndex = x.commitIndex
  nextIndex : y.nextIndex = x.nextIndex
  matchIndex : y.matchIndex = x.matchIndex
  log : x.log.Represents y.log.entries
  whole : y.log.NoSnapshot
  snapshot_le : x.log.snapshotLastIndex ≤ x.commitIndex
  applied : x.lastApplied = x.commitIndex
  applied' : y.lastApplied = y.commitIndex
  trace : x.applyTrace ⊆ y.applyTrace

/-- A log without a snapshot is its list of entries. -/
theorem RaftLog.Represents.of_noSnapshot {log : RaftLog} (h : log.NoSnapshot) :
    log.Represents log.entries where
  covered := by rw [h.1]; exact Nat.zero_le _
  entries := by rw [h.1, List.drop_zero]
  snapshotTerm := by rw [h.1, h.2]; rfl

namespace Shadows

variable {x y : RaftNode}

theorem init (nodeId : Int) (peers : List Int) :
    Shadows (openFiles nodeId peers {} {}) (openFiles nodeId peers {} {}) where
  nodeId := rfl
  peers := rfl
  state := rfl
  role := rfl
  leaderId := rfl
  commitIndex := rfl
  nextIndex := rfl
  matchIndex := rfl
  log := .of_noSnapshot ⟨rfl, rfl⟩
  whole := ⟨rfl, rfl⟩
  snapshot_le := le_rfl
  applied := rfl
  applied' := rfl
  trace := List.Subset.refl _

/-! ## The log as both see it -/

theorem lastIndex_eq (h : Shadows x y) : y.log.lastIndex = x.log.lastIndex := by
  rw [h.log.lastIndex, RaftLog.lastIndex_of_noSnapshot h.whole]

theorem lastTerm_eq (h : Shadows x y) : y.log.lastTerm = x.log.lastTerm := by
  rw [h.log.lastTerm_eq, (RaftLog.Represents.of_noSnapshot h.whole).lastTerm_eq]

theorem termAt_eq (h : Shadows x y) {i : Nat} (hi : x.log.snapshotLastIndex ≤ i) :
    y.log.termAt i = x.log.termAt i := by
  rw [h.log.termAt_eq hi, (RaftLog.Represents.of_noSnapshot h.whole).termAt_eq]
  rw [h.whole.1]
  exact Nat.zero_le _

theorem commandAt_eq (h : Shadows x y) {i : Nat} (hi : x.log.snapshotLastIndex < i) :
    y.log.commandAt i = x.log.commandAt i := by
  rw [h.log.agrees.commandAt i hi,
    (RaftLog.Represents.of_noSnapshot h.whole).agrees.commandAt i (by rw [h.whole.1]; omega)]

theorem stubs_eq (h : Shadows x y) : y.stubs = x.stubs := by
  rw [stubs, stubs, h.nodeId, h.peers]

/-! ## Sections that leave the log alone -/

/-- A section that changes the same fields in both. -/
theorem of_same {x' y' : RaftNode} (h : Shadows x y) (hid : x'.nodeId = x.nodeId)
    (hid' : y'.nodeId = y.nodeId) (hpeers : x'.peers = x.peers) (hpeers' : y'.peers = y.peers)
    (hstate : y'.state = x'.state) (hrole : y'.role = x'.role)
    (hleader : y'.leaderId = x'.leaderId) (hcommit : x'.commitIndex = x.commitIndex)
    (hcommit' : y'.commitIndex = y.commitIndex) (hnext : y'.nextIndex = x'.nextIndex)
    (hmatch : y'.matchIndex = x'.matchIndex) (hlog : x'.log = x.log) (hlog' : y'.log = y.log)
    (happlied : x'.lastApplied = x.lastApplied) (happlied' : y'.lastApplied = y.lastApplied)
    (htrace : x'.applyTrace = x.applyTrace) (htrace' : y'.applyTrace = y.applyTrace) :
    Shadows x' y' where
  nodeId := by rw [hid', hid, h.nodeId]
  peers := by rw [hpeers', hpeers, h.peers]
  state := hstate
  role := hrole
  leaderId := hleader
  commitIndex := by rw [hcommit', hcommit, h.commitIndex]
  nextIndex := hnext
  matchIndex := hmatch
  log := by rw [hlog, hlog']; exact h.log
  whole := by rw [hlog']; exact h.whole
  snapshot_le := by rw [hlog, hcommit]; exact h.snapshot_le
  applied := by rw [happlied, hcommit]; exact h.applied
  applied' := by rw [happlied', hcommit']; exact h.applied'
  trace := by rw [htrace, htrace']; exact h.trace

theorem becomeFollower (h : Shadows x y) (term : Nat) :
    Shadows (x.becomeFollower term) (y.becomeFollower term) :=
  h.of_same rfl rfl rfl rfl rfl rfl h.leaderId rfl rfl h.nextIndex h.matchIndex rfl rfl rfl rfl rfl
    rfl

theorem observeTerm (h : Shadows x y) (term : Nat) :
    Shadows (x.observeTerm term) (y.observeTerm term) := by
  unfold RaftNode.observeTerm
  rw [h.state]
  split
  · exact h.becomeFollower term
  · exact h

theorem startElection (h : Shadows x y) :
    Shadows x.startElection.1 y.startElection.1 ∧ y.startElection.2 = x.startElection.2 := by
  constructor
  · refine h.of_same rfl rfl rfl rfl ?_ rfl rfl rfl rfl h.nextIndex h.matchIndex rfl rfl rfl rfl rfl
      rfl
    simp only [RaftNode.startElection, h.state, h.nodeId]
  · simp only [RaftNode.startElection, h.state, h.nodeId, h.lastIndex_eq, h.lastTerm_eq]

theorem handleRequestVote (h : Shadows x y) (req : RequestVoteRequest) :
    Shadows (x.handleRequestVote req).1 (y.handleRequestVote req).1 ∧
      (y.handleRequestVote req).2 = (x.handleRequestVote req).2 := by
  have hobs := h.observeTerm req.term
  have hok : (y.observeTerm req.term).logOk req = (x.observeTerm req.term).logOk req := by
    rw [logOk, logOk, hobs.lastTerm_eq, hobs.lastIndex_eq]
  have hcan : (y.observeTerm req.term).canVote req = (x.observeTerm req.term).canVote req := by
    rw [canVote, canVote, hobs.state]
  unfold RaftNode.handleRequestVote
  dsimp only
  rw [hobs.state, hok, hcan]
  split_ifs with hold hgrant
  · exact ⟨hobs, rfl⟩
  · exact ⟨hobs.of_same rfl rfl rfl rfl rfl hobs.role hobs.leaderId rfl rfl hobs.nextIndex
      hobs.matchIndex rfl rfl rfl rfl rfl rfl, rfl⟩
  · exact ⟨hobs, rfl⟩

theorem handleRequestVoteReply (h : Shadows x y) (electionTerm : Nat)
    (resp : RequestVoteResponse) :
    Shadows (x.handleRequestVoteReply electionTerm resp)
      (y.handleRequestVoteReply electionTerm resp) := by
  unfold RaftNode.handleRequestVoteReply
  split
  · exact h.observeTerm resp.term
  · exact h

theorem finishElection (h : Shadows x y) (electionTerm votes : Nat) :
    Shadows (x.finishElection electionTerm votes) (y.finishElection electionTerm votes) := by
  have hwins : (y.role = .candidate ∧ y.state.currentTerm = electionTerm ∧
      votes ≥ majority y.peers.length) ↔ (x.role = .candidate ∧
        x.state.currentTerm = electionTerm ∧ votes ≥ majority x.peers.length) := by
    rw [h.role, h.state, h.peers]
  unfold RaftNode.finishElection
  by_cases hwin : x.role = .candidate ∧ x.state.currentTerm = electionTerm ∧
      votes ≥ majority x.peers.length
  · rw [if_pos hwin, if_pos (hwins.mpr hwin)]
    refine h.of_same rfl rfl rfl rfl h.state rfl h.nodeId rfl rfl ?_ rfl rfl rfl rfl rfl rfl rfl
    simp only [h.lastIndex_eq]
  · rw [if_neg hwin, if_neg (mt hwins.mp hwin)]
    exact h

theorem replicateToFollowers (h : Shadows x y) :
    y.replicateToFollowers = x.replicateToFollowers := by
  rw [RaftNode.replicateToFollowers, RaftNode.replicateToFollowers, h.role, h.stubs_eq, h.state,
    h.nextIndex]

/-! ## Applying and committing -/

/-- Two nodes that apply the same indices of logs that agree there. -/
theorem iterate_applyNext_subset (k : Nat) (hsame : x.lastApplied = y.lastApplied)
    (hcmd : ∀ i, x.lastApplied < i → y.log.commandAt i = x.log.commandAt i)
    (htrace : x.applyTrace ⊆ y.applyTrace) :
    (applyNext^[k] x).applyTrace ⊆ (applyNext^[k] y).applyTrace := by
  induction k generalizing x y with
  | zero => exact htrace
  | succ k ih =>
      rw [Function.iterate_succ_apply, Function.iterate_succ_apply]
      have hnext : ∀ node : RaftNode, node.applyNext.lastApplied = node.lastApplied + 1 ∧
          node.applyNext.log = node.log := by
        intro node
        unfold applyNext
        dsimp only
        split <;> exact ⟨rfl, rfl⟩
      refine ih ?_ ?_ ?_
      · rw [(hnext x).1, (hnext y).1, hsame]
      · intro i hi
        rw [(hnext x).1] at hi
        rw [(hnext x).2, (hnext y).2]
        exact hcmd i (by omega)
      · unfold applyNext
        dsimp only
        rw [← hsame, hcmd _ (Nat.lt_succ_self _)]
        split
        · exact htrace
        · exact List.append_subset.mpr ⟨List.subset_append_of_subset_left _ htrace,
            List.subset_append_right _ _⟩

/-- Both take over a log that reaches as far back. -/
theorem withLog (h : Shadows x y) {xlog ylog : RaftLog} (hlog : xlog.Represents ylog.entries)
    (hwhole : ylog.NoSnapshot) (hsnap : xlog.snapshotLastIndex = x.log.snapshotLastIndex) :
    Shadows { x with log := xlog } { y with log := ylog } :=
  { h with
    log := hlog
    whole := hwhole
    snapshot_le := hsnap.trans_le h.snapshot_le }

/-- Both raise their commit index and apply everything up to it. -/
theorem commitTo (h : Shadows x y) {index : Nat} (hindex : x.commitIndex ≤ index) :
    Shadows (applyCommittedEntries { x with commitIndex := index })
      (applyCommittedEntries { y with commitIndex := index }) := by
  have hsame : x.lastApplied = y.lastApplied := by rw [h.applied, h.applied', h.commitIndex]
  have hleader : (applyCommittedEntries { y with commitIndex := index }).leaderId =
      (applyCommittedEntries { x with commitIndex := index }).leaderId := by
    obtain ⟨_, _, _, hx⟩ := applyCommittedEntries_frame { x with commitIndex := index }
    obtain ⟨_, _, _, hy⟩ := applyCommittedEntries_frame { y with commitIndex := index }
    rw [hx, hy]
    exact h.leaderId
  constructor
  case nodeId => simpa using h.nodeId
  case peers => simpa using h.peers
  case state => simpa using h.state
  case role => simpa using h.role
  case leaderId => exact hleader
  case commitIndex => simp
  case nextIndex => simpa using h.nextIndex
  case matchIndex => simpa using h.matchIndex
  case log => simpa using h.log
  case whole => simpa using h.whole
  case snapshot_le => simpa using h.snapshot_le.trans hindex
  case applied =>
    rw [applyCommittedEntries_lastApplied, applyCommittedEntries_commitIndex]
    have happlied := h.applied
    dsimp only
    omega
  case applied' =>
    rw [applyCommittedEntries_lastApplied, applyCommittedEntries_commitIndex]
    have happlied := h.applied
    dsimp only
    omega
  case trace =>
    have hcount : index - y.lastApplied = index - x.lastApplied := by rw [hsame]
    unfold applyCommittedEntries
    dsimp only
    rw [hcount]
    refine iterate_applyNext_subset _ hsame (fun i hi => h.commandAt_eq ?_) h.trace
    have hsnap := h.snapshot_le
    have happlied := h.applied
    dsimp only at hi
    omega

/-- The commit rule looks at terms above the commit index only. -/
theorem computeNewCommitIndex_congr {last size commit term : Nat} {ms : List (Int × Nat)}
    {termAt termAt' : Nat → Nat} (hsame : ∀ i, commit < i → termAt' i = termAt i) :
    computeNewCommitIndex last ms size commit term termAt' =
      computeNewCommitIndex last ms size commit term termAt := by
  unfold computeNewCommitIndex
  dsimp only
  refine if_congr (and_congr_right fun hgt => ?_) rfl rfl
  rw [hsame _ hgt]

theorem advanceCommitIndex (h : Shadows x y) :
    Shadows x.advanceCommitIndex y.advanceCommitIndex := by
  have hcompute : computeNewCommitIndex y.log.lastIndex
      (y.stubs.map fun p => (p, y.matchIndex p)) y.peers.length y.commitIndex
      y.state.currentTerm y.log.termAt =
      computeNewCommitIndex x.log.lastIndex (x.stubs.map fun p => (p, x.matchIndex p))
        x.peers.length x.commitIndex x.state.currentTerm x.log.termAt := by
    rw [h.lastIndex_eq, h.stubs_eq, h.matchIndex, h.peers, h.commitIndex, h.state]
    exact computeNewCommitIndex_congr fun i hi => h.termAt_eq (h.snapshot_le.trans hi.le)
  unfold RaftNode.advanceCommitIndex
  dsimp only
  rw [hcompute, h.commitIndex]
  split
  · next hgt => exact h.commitTo hgt.le
  · exact h

theorem propose (h : Shadows x y) (command : Bytes) :
    Shadows
      (RaftNode.advanceCommitIndex { x with log := x.log.append x.state.currentTerm command })
      (RaftNode.advanceCommitIndex { y with log := y.log.append y.state.currentTerm command }) := by
  have hlog : (x.log.append x.state.currentTerm command).Represents
      (y.log.append y.state.currentTerm command).entries := by
    rw [h.state]
    exact h.log.append _ _
  exact (h.withLog hlog (h.whole.append _ _) rfl).advanceCommitIndex

theorem handleAppendEntriesReply (h : Shadows x y) (peerId : Int) {req req' : AppendEntriesRequest}
    (hterm : req'.term = req.term)
    (hreach : req'.prevLogIndex + req'.entries.length = req.prevLogIndex + req.entries.length)
    (resp : AppendEntriesResponse) :
    Shadows (x.handleAppendEntriesReply peerId req resp)
      (y.handleAppendEntriesReply peerId req' resp) := by
  unfold RaftNode.handleAppendEntriesReply
  dsimp only
  rw [h.state, h.role, hterm, hreach, h.matchIndex, h.nextIndex]
  split
  · exact h.becomeFollower resp.term
  · split
    · exact h
    · split
      · refine advanceCommitIndex ?_
        exact h.of_same rfl rfl rfl rfl rfl rfl h.leaderId rfl rfl rfl rfl rfl rfl rfl rfl rfl rfl
      · split
        · exact h.of_same rfl rfl rfl rfl rfl rfl h.leaderId rfl rfl rfl rfl rfl rfl rfl rfl rfl rfl
        · exact h

/-! ## Requests -/

theorem follow (h : Shadows x y) (term : Nat) (leaderId : Int) :
    Shadows (x.follow term leaderId) (y.follow term leaderId) := by
  have hobs := h.observeTerm term
  exact hobs.of_same rfl rfl rfl rfl hobs.state rfl rfl rfl rfl hobs.nextIndex hobs.matchIndex rfl
    rfl rfl rfl rfl rfl

theorem whole_acceptedLog (h : Shadows x y) (req : AppendEntriesRequest) :
    (acceptedLog y.log req).NoSnapshot := by
  unfold acceptedLog
  split
  · exact h.whole
  · exact h.whole.truncateAndAppend _ _

/-- Both accept: the logs they then have agree and keep what is committed. -/
theorem acceptEntries (h : Shadows x y) {req req' : AppendEntriesRequest}
    (hcommit : req'.leaderCommit = req.leaderCommit)
    (hlog : (acceptedLog x.log req).Represents (acceptedLog y.log req').entries)
    (hend : x.commitIndex ≤ (acceptedLog y.log req').lastIndex) :
    Shadows (x.acceptEntries req) (y.acceptEntries req') := by
  have hwhole := h.whole_acceptedLog req'
  have hlast : (acceptedLog y.log req').lastIndex = (acceptedLog x.log req).lastIndex := by
    rw [hlog.lastIndex, RaftLog.lastIndex_of_noSnapshot hwhole]
  have hboth := h.withLog hlog hwhole (snapshotLastIndex_acceptedLog _ _)
  rw [acceptEntries_eq, acceptEntries_eq, hcommit, hlast]
  by_cases hnew : req.leaderCommit > x.commitIndex
  · rw [if_pos hnew, if_pos (by rwa [h.commitIndex])]
    exact hboth.commitTo (le_min hnew.le (hlast ▸ hend))
  · rw [if_neg hnew, if_neg (by rwa [h.commitIndex])]
    exact hboth

/-- The two handle requests of one term, leader and commit index.  If the checks agree, and the
logs that are accepted agree and keep what is committed, they stay in step and answer alike. -/
theorem handleAppendEntries (h : Shadows x y) {req req' : AppendEntriesRequest}
    (hterm : req'.term = req.term) (hleader : req'.leaderId = req.leaderId)
    (hcommit : req'.leaderCommit = req.leaderCommit)
    (hprev : x.state.currentTerm ≤ req.term → y.prevMatches req' = x.prevMatches req)
    (haccept : x.state.currentTerm ≤ req.term → x.prevMatches req = true →
      (acceptedLog x.log req).Represents (acceptedLog y.log req').entries ∧
        x.commitIndex ≤ (acceptedLog y.log req').lastIndex) :
    Shadows (x.handleAppendEntries req).1 (y.handleAppendEntries req').1 ∧
      (y.handleAppendEntries req').2 = (x.handleAppendEntries req).2 := by
  have hstate : y.state.currentTerm = x.state.currentTerm := by rw [h.state]
  rcases Nat.lt_or_ge req.term x.state.currentTerm with hold | hnew
  · rw [handleAppendEntries_of_lt hold, handleAppendEntries_of_lt (by omega)]
    exact ⟨h, by rw [hstate]⟩
  · have hfollow := h.follow req.term req.leaderId
    rw [handleAppendEntries_eq_of_le hnew, handleAppendEntries_eq_of_le (by omega), hprev hnew,
      hterm, hleader]
    by_cases hok : x.prevMatches req = true
    · obtain ⟨hlog, hend⟩ := haccept hnew hok
      rw [if_pos hok, if_pos hok]
      refine ⟨hfollow.acceptEntries hcommit ?_ ?_, rfl⟩
      · simpa [RaftNode.follow] using hlog
      · simpa [RaftNode.follow] using hend
    · rw [if_neg hok, if_neg hok]
      exact ⟨hfollow, rfl⟩

/-- Applying only adds to the trace. -/
theorem applyTrace_subset (node : RaftNode) :
    node.applyTrace ⊆ node.applyCommittedEntries.applyTrace := by
  unfold applyCommittedEntries
  generalize node.commitIndex - node.lastApplied = k
  induction k generalizing node with
  | zero => exact List.Subset.refl _
  | succ k ih =>
      rw [Function.iterate_succ_apply]
      refine List.Subset.trans ?_ (ih node.applyNext)
      unfold applyNext
      dsimp only
      split
      · exact List.Subset.refl _
      · exact List.subset_append_left _ _

/-- The node takes over a snapshot, the shadow the entries that it covers. -/
theorem install (h : Shadows x y) (commands : List Bytes) {req' : AppendEntriesRequest}
    {index term : Nat} {data : Bytes} (hcommit : req'.leaderCommit = index)
    (hnew : x.log.snapshotLastIndex < index)
    (hlog : (x.log.compact index term data).Represents (acceptedLog y.log req').entries) :
    Shadows
      { x with
        appliedCommands := commands
        lastApplied := max x.lastApplied index
        commitIndex := max x.commitIndex index
        log := x.log.compact index term data } (y.acceptEntries req') := by
  have hwhole := h.whole_acceptedLog req'
  have hsnap := RaftLog.snapshotLastIndex_compact hnew term data
  have hcovered := hlog.covered
  rw [hsnap, ← RaftLog.lastIndex_of_noSnapshot hwhole] at hcovered
  have hmin : min req'.leaderCommit (acceptedLog y.log req').lastIndex = index := by
    rw [hcommit, min_eq_left hcovered]
  have happlied := h.applied
  have happlied' := h.applied'
  have hindex := h.commitIndex
  rw [acceptEntries_eq, hmin, hcommit]
  split
  · next hgt =>
      obtain ⟨_, _, _, hframe⟩ := applyCommittedEntries_frame
        { y with log := acceptedLog y.log req', commitIndex := index }
      constructor
      case nodeId => simpa using h.nodeId
      case peers => simpa using h.peers
      case state => simpa using h.state
      case role => simpa using h.role
      case leaderId =>
        rw [hframe]
        exact h.leaderId
      case commitIndex =>
        rw [applyCommittedEntries_commitIndex]
        dsimp only
        omega
      case nextIndex => simpa using h.nextIndex
      case matchIndex => simpa using h.matchIndex
      case log => simpa using hlog
      case whole => simpa using hwhole
      case snapshot_le =>
        dsimp only
        rw [hsnap]
        exact le_max_right _ _
      case applied =>
        dsimp only
        rw [happlied]
      case applied' =>
        rw [applyCommittedEntries_lastApplied, applyCommittedEntries_commitIndex]
        dsimp only
        omega
      case trace =>
        exact List.Subset.trans h.trace
          (applyTrace_subset { y with log := acceptedLog y.log req', commitIndex := index })
  · next hle =>
      refine { h with
        commitIndex := ?_
        log := hlog
        whole := hwhole
        snapshot_le := ?_
        applied := ?_
        applied' := happlied' }
      · dsimp only
        omega
      · dsimp only
        rw [hsnap]
        exact le_max_right _ _
      · dsimp only
        rw [happlied]

/-- A snapshot is handled by the node, and an append request that announces its last index by
the shadow, which accepts it if its term is not old.  If the logs they then have agree, the two
stay in step. -/
theorem handleInstallSnapshot (h : Shadows x y) {req : InstallSnapshotRequest}
    {req' : AppendEntriesRequest} (hterm : req'.term = req.term)
    (hleader : req'.leaderId = req.leaderId) (hcommit : req'.leaderCommit = req.lastIncludedIndex)
    (hprev : x.state.currentTerm ≤ req.term → y.prevMatches req' = true)
    (hseen : x.state.currentTerm ≤ req.term → ¬ installs x req = true →
      x.log.Represents (acceptedLog y.log req').entries)
    (hlog : installs x req = true →
      (x.log.compact req.lastIncludedIndex req.lastIncludedTerm req.data).Represents
        (acceptedLog y.log req').entries) :
    Shadows (x.handleInstallSnapshot req).1 (y.handleAppendEntries req').1 ∧
      (y.handleAppendEntries req').2.term = (x.handleInstallSnapshot req).2.term ∧
      ((y.handleAppendEntries req').2.success = true ∨
        req.term < (x.handleInstallSnapshot req).2.term) := by
  have hstate : y.state.currentTerm = x.state.currentTerm := by rw [h.state]
  rcases Nat.lt_or_ge req.term x.state.currentTerm with hold | hnew
  · rw [handleInstallSnapshot_of_lt hold, handleAppendEntries_of_lt (by omega)]
    exact ⟨h, hstate, .inr hold⟩
  · have hfollow := h.follow req.term req.leaderId
    have hxlog : (x.follow req.term req.leaderId).log = x.log := observeTerm_log ..
    have hylog : (y.follow req.term req.leaderId).log = y.log := observeTerm_log ..
    rw [handleInstallSnapshot_eq_of_le hnew, handleAppendEntries_eq_of_le (by omega),
      if_pos (hprev hnew), hterm, hleader]
    refine ⟨?_, rfl, .inl rfl⟩
    by_cases hinstalls : installs x req = true
    · have hahead := hinstalls
      simp only [installs, Bool.and_eq_true, decide_eq_true_eq] at hahead
      rw [← hxlog, ← hylog] at hlog
      rw [if_neg hahead.2.not_ge]
      have hboth := hfollow.install (x.appliedCommands.drop (min (req.lastIncludedIndex -
        x.log.snapshotLastIndex) x.appliedCommands.length)) hcommit (hxlog ▸ hahead.2)
        (hlog hinstalls)
      simpa [RaftNode.follow] using hboth
    · have hseen' := hseen hnew hinstalls
      simp only [installs, Bool.and_eq_true, decide_eq_true_eq, not_and, not_lt] at hinstalls
      rw [if_pos (hinstalls hnew)]
      have hno : ¬ req'.leaderCommit > (y.follow req.term req.leaderId).commitIndex := by
        have hsnap := h.snapshot_le
        have hindex := h.commitIndex
        have hlast := hinstalls hnew
        have hsame : (y.follow req.term req.leaderId).commitIndex = y.commitIndex :=
          observeTerm_commitIndex ..
        omega
      rw [acceptEntries_eq, if_neg hno]
      rw [← hxlog, ← hylog] at hseen'
      exact hfollow.withLog hseen' (hfollow.whole_acceptedLog req') rfl

/-- A compaction is nothing to the shadow. -/
theorem compact (h : Shadows x y) (upToIndex : Nat) (snapshotData : Bytes)
    (hcommit : x.commitIndex ≤ x.log.lastIndex) :
    Shadows (x.compact upToIndex snapshotData).1 y := by
  have happlied := h.applied
  unfold RaftNode.compact
  dsimp only
  split_ifs with hold hunapplied hfew
  · exact h
  · exact h
  · exact h
  · have hlt : x.log.snapshotLastIndex < upToIndex := by omega
    refine { h with
      log := h.log.compact ⟨hlt, ?_, rfl⟩
      snapshot_le := ?_ }
    · dsimp only
      omega
    · dsimp only
      rw [RaftLog.snapshotLastIndex_compact hlt]
      omega

/-- A restarted node knows what its snapshot covers, which its shadow has to learn. -/
theorem restart (h : Shadows x y) (state : PersistentState) :
    Shadows (x.restart state) (learnCommitted (y.restart state) x.log.snapshotLastIndex) where
  nodeId := h.nodeId
  peers := h.peers
  state := rfl
  role := rfl
  leaderId := rfl
  commitIndex := rfl
  nextIndex := rfl
  matchIndex := rfl
  log := h.log
  whole := h.whole
  snapshot_le := le_rfl
  applied := rfl
  applied' := rfl
  trace := h.trace

/-! ## Requests that are built -/

theorem sendCheck_append (h : Shadows x y) {task : SendTask} (hgo : x.sendCheck task = .append) :
    y.sendCheck task = .append := by
  unfold RaftNode.sendCheck at hgo ⊢
  rw [h.role, h.state, h.whole.1]
  split at hgo
  · cases hgo
  · next hleads =>
      rw [if_neg hleads, if_neg (Nat.not_lt_zero _)]

/-- Behind the snapshot both send the same entries. -/
theorem buildAppendEntries (h : Shadows x y) {task : SendTask}
    (hbehind : x.log.snapshotLastIndex < task.nextIdx) :
    y.buildAppendEntries task = x.buildAppendEntries task := by
  have hentries : entriesFrom y.log task.nextIdx = entriesFrom x.log task.nextIdx := by
    unfold entriesFrom
    rw [h.lastIndex_eq]
    refine List.map_congr_left fun j _ => ?_
    rw [h.termAt_eq (by omega), h.commandAt_eq (by omega)]
  unfold RaftNode.buildAppendEntries
  dsimp only
  rw [h.role, h.state, h.nodeId, h.termAt_eq (by omega), hentries, h.commitIndex]

end Shadows

end NanoDB.Raft
