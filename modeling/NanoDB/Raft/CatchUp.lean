import NanoDB.Raft.InstallSnapshot
import NanoDB.Raft.SentEntries

/-!
# How a follower catches up

A leader moves {lit}`next_index_` of a follower down by one for every rejected request, until
the follower accepts or the leader's snapshot is reached, which is then installed in its place.
Repeated without a disturbance, this brings a follower to the end of the leader's log from
every pair of logs, with one exception.  A snapshot moves {lit}`next_index_` only together
with {lit}`match_index_`.  When the next index has fallen to the snapshot and the match index
is already there, the leader sends its snapshot for ever.

Main results:

- Theorem {lit}`exchange_outcome`: what one undisturbed call of
  {lit}`send_append_entries_to_peer` does to the two nodes.
- Theorem {lit}`follower_catches_up`: a follower reaches the end of the leader's log within a
  bound, or the pair is stuck and it never does.
-/

namespace NanoDB.Raft

open Lib RaftNode RaftLog

namespace RaftLog

/-! ## The consistency check on a log -/

/-- The log passes the consistency check for an index and a term. -/
def Accepts (log : RaftLog) (index term : Nat) : Prop :=
  index ≤ log.snapshotLastIndex ∨ (index ≤ log.lastIndex ∧ log.termAt index = term)

instance (log : RaftLog) (index term : Nat) : Decidable (log.Accepts index term) :=
  inferInstanceAs (Decidable (_ ∨ _))

theorem Accepts.le_lastIndex {log : RaftLog} {index term : Nat} (h : log.Accepts index term) :
    index ≤ log.lastIndex := by
  rcases h with hle | ⟨hle, -⟩
  · exact hle.trans (Nat.le_add_right _ _)
  · exact hle

theorem accepts_of_entryAt {log : RaftLog} {index : Nat} {e : PersistedEntry}
    (h : log.entryAt index = some e) : log.Accepts index e.term :=
  .inr ⟨(entryAt_isSome_iff.mp (by rw [h]; rfl)).2, (termAt_of_entryAt h).1⟩

/-- The log matching property of two logs, read off their stored entries. -/
def Matches (log log' : RaftLog) : Prop :=
  ∀ i e e', log.entryAt i = some e → log'.entryAt i = some e' → e.term = e'.term →
    ∀ j ≤ i, ∀ d d', log.entryAt j = some d → log'.entryAt j = some d' → d = d'

/-- From an index on, the second log has every stored entry of the first that its own snapshot
does not cover. -/
def CoveredFrom (start : Nat) (log log' : RaftLog) : Prop :=
  ∀ i e, start ≤ i → log'.snapshotLastIndex < i → log.entryAt i = some e →
    log'.entryAt i = some e

/-- A log that passes the check at the end of a matching log covers it. -/
theorem Matches.coveredFrom {log log' : RaftLog} (h : log.Matches log')
    (hend : log'.Accepts log.lastIndex (log.termAt log.lastIndex)) (start : Nat) :
    CoveredFrom start log log' := by
  intro i e _ hsnap he
  have hi := entryAt_isSome_iff.mp (by rw [he]; rfl)
  obtain ⟨hle, hterm⟩ := hend.resolve_left (by omega)
  obtain ⟨last, hlast⟩ := Option.isSome_iff_exists.mp
    (entryAt_isSome_iff.mpr ⟨by omega, le_rfl⟩ : (log.entryAt log.lastIndex).isSome = true)
  obtain ⟨last', hlast'⟩ := Option.isSome_iff_exists.mp
    (entryAt_isSome_iff.mpr ⟨by omega, hle⟩ : (log'.entryAt log.lastIndex).isSome = true)
  obtain ⟨e', he'⟩ := Option.isSome_iff_exists.mp
    (entryAt_isSome_iff.mpr ⟨hsnap, hi.2.trans hle⟩ : (log'.entryAt i).isSome = true)
  rw [(termAt_of_entryAt hlast).1, (termAt_of_entryAt hlast').1] at hterm
  rw [he', h _ _ _ hlast hlast' hterm.symm i hi.2 _ _ he he']

theorem Matches.of_sub {log log' log'' : RaftLog} (h : log.Matches log')
    (hsub : ∀ i e, log''.entryAt i = some e → log'.entryAt i = some e) : log.Matches log'' := by
  intro i e e' he he' hterm j hj d d' hd hd'
  exact h i e e' he (hsub _ _ he') hterm j hj d d' hd (hsub _ _ hd')

end RaftLog

theorem prevMatches_iff {node : RaftNode} {req : AppendEntriesRequest} :
    node.prevMatches req = true ↔ node.log.Accepts req.prevLogIndex req.prevLogTerm := by
  rw [prevMatches, RaftLog.Accepts]
  split_ifs with hpos hreal
  · rw [RaftLog.hasRealEntryAt]
    simp only [Bool.and_eq_true, decide_eq_true_eq]
    omega
  · simp only [true_iff]
    omega
  · simp only [true_iff]
    omega

/-! ## Requests that a leader builds -/

/-- The request for an index behind the snapshot carries the leader's entries from there on. -/
theorem requestEntryAt_entriesFrom (log : RaftLog) {nextIdx : Nat}
    (hsnap : log.snapshotLastIndex < nextIdx) (term : Nat) (leaderId : Int)
    (prevLogTerm leaderCommit : Nat) {index : Nat} (hindex : nextIdx ≤ index) :
    requestEntryAt ⟨term, leaderId, nextIdx - 1, prevLogTerm, entriesFrom log nextIdx,
      leaderCommit⟩ index = log.entryAt index := by
  have hpos : index - 1 - (nextIdx - 1) = index - nextIdx := by omega
  rw [requestEntryAt, if_neg (by dsimp only; omega), newEntries, hpos, entriesFrom, List.map_map,
    List.getElem?_map]
  rcases Nat.lt_or_ge log.lastIndex index with hbeyond | hle
  · have hnone : log.entryAt index = none := by
      rw [← Option.not_isSome_iff_eq_none, RaftLog.entryAt_isSome_iff]
      omega
    rw [List.getElem?_eq_none (by rw [List.length_range]; omega), hnone]
    rfl
  · obtain ⟨e, he⟩ := Option.isSome_iff_exists.mp
      (RaftLog.entryAt_isSome_iff.mpr ⟨by omega, hle⟩ : (log.entryAt index).isSome = true)
    have hat : nextIdx + (index - nextIdx) = index := by omega
    rw [List.getElem?_range (by omega), he, Option.map_some, Function.comp_apply, hat,
      (RaftLog.termAt_of_entryAt he).1, (RaftLog.termAt_of_entryAt he).2]

/-! ## Handlers of a node that has seen no newer term -/

section Handlers

variable {node : RaftNode}

theorem handleInstallSnapshot_of_le (req : InstallSnapshotRequest)
    (h : node.state.currentTerm ≤ req.term) :
    (node.handleInstallSnapshot req).2.term = req.term ∧
      (node.handleInstallSnapshot req).1.state.currentTerm = req.term ∧
      (node.handleInstallSnapshot req).1.log =
        node.log.compact req.lastIncludedIndex req.lastIncludedTerm req.data := by
  rw [handleInstallSnapshot_eq_of_le h]
  split_ifs with hseen
  · refine ⟨rfl, observeTerm_of_le h, ?_⟩
    rw [RaftLog.compact, if_pos hseen, follow, observeTerm_log]
  · exact ⟨rfl, observeTerm_of_le h, rfl⟩

theorem handleAppendEntries_of_le (req : AppendEntriesRequest)
    (h : node.state.currentTerm ≤ req.term) :
    (node.handleAppendEntries req).2 = ⟨req.term, node.prevMatches req⟩ ∧
      (node.handleAppendEntries req).1.state.currentTerm = req.term ∧
      (node.handleAppendEntries req).1.log =
        if node.prevMatches req then acceptedLog node.log req else node.log := by
  rw [handleAppendEntries_eq_of_le h]
  split_ifs with hok
  · rw [acceptEntries_state, acceptEntries_log, follow, observeTerm_log, hok]
    exact ⟨rfl, observeTerm_of_le h, rfl⟩
  · rw [Bool.not_eq_true] at hok
    rw [follow, observeTerm_log, hok]
    exact ⟨rfl, observeTerm_of_le h, rfl⟩

/-- A node that handles a snapshot or entries of its term or a newer one follows the sender. -/
theorem role_handleInstallSnapshot_of_le (req : InstallSnapshotRequest)
    (h : node.state.currentTerm ≤ req.term) :
    (node.handleInstallSnapshot req).1.role = .follower := by
  rw [handleInstallSnapshot_eq_of_le h]
  split_ifs <;> rfl

theorem role_handleAppendEntries_of_le (req : AppendEntriesRequest)
    (h : node.state.currentTerm ≤ req.term) :
    (node.handleAppendEntries req).1.role = .follower := by
  rw [handleAppendEntries_eq_of_le h]
  split_ifs
  · exact acceptEntries_role _ _
  · rfl

/-- An accepted request brings the leader's commit index, as far as the log reaches. -/
theorem le_commitIndex_of_accepts (req : AppendEntriesRequest)
    (h : node.state.currentTerm ≤ req.term) (hprev : node.prevMatches req = true) :
    min req.leaderCommit (acceptedLog node.log req).lastIndex ≤
      (node.handleAppendEntries req).1.commitIndex := by
  rw [handleAppendEntries_of_accepts h hprev, acceptEntries_eq]
  split_ifs with hnewer
  · rw [applyCommittedEntries_commitIndex, observeTerm_log]
  · exact (min_le_left _ _).trans (Nat.le_of_not_gt hnewer)

theorem commitIndex_le_advanceCommitIndex (node : RaftNode) :
    node.commitIndex ≤ node.advanceCommitIndex.commitIndex := by
  rw [advanceCommitIndex]
  split_ifs with hgt
  · rw [applyCommittedEntries_commitIndex]
    exact hgt.le
  · exact le_rfl

end Handlers

/-! ## A leader and one follower -/

/-- A leader and one of its followers. -/
structure Pair where
  leader : RaftNode
  follower : RaftNode

namespace Pair

/-- The leader's next index of the follower. -/
def next (p : Pair) : Nat :=
  p.leader.nextIndex p.follower.nodeId

/-- The leader's match index of the follower. -/
def matched (p : Pair) : Nat :=
  p.leader.matchIndex p.follower.nodeId

/-- The task that {lit}`replicate_to_followers` hands out for the follower. -/
def task (p : Pair) : SendTask :=
  ⟨p.leader.state.currentTerm, p.follower.nodeId, p.next⟩

/-- The snapshot that the leader sends. -/
def snapshotRequest (p : Pair) : InstallSnapshotRequest :=
  ⟨p.leader.state.currentTerm, p.leader.nodeId, p.leader.log.snapshotLastIndex,
    p.leader.log.snapshotLastTerm, p.leader.log.snapshotData⟩

/-- The entries that the leader sends. -/
def appendRequest (p : Pair) : AppendEntriesRequest :=
  ⟨p.leader.state.currentTerm, p.leader.nodeId, p.next - 1, p.leader.log.termAt (p.next - 1),
    entriesFrom p.leader.log p.next, p.leader.commitIndex⟩

/-- One call of {lit}`send_append_entries_to_peer` from its task to the handling of the reply,
with no other section in between. -/
def exchange (p : Pair) : Pair :=
  match p.leader.sendCheck p.task with
  | .stop => p
  | .snapshot req =>
      let (follower, resp) := p.follower.handleInstallSnapshot req
      ⟨p.leader.handleInstallSnapshotReply p.follower.nodeId req resp, follower⟩
  | .append =>
      match p.leader.buildAppendEntries p.task with
      | none => p
      | some req =>
          let (follower, resp) := p.follower.handleAppendEntries req
          ⟨p.leader.handleAppendEntriesReply p.follower.nodeId req resp, follower⟩

/-- The first node leads, the second has seen no newer term, and the leader's indices of the
follower are in range. -/
structure Exchanging (p : Pair) : Prop where
  leads : p.leader.role = .leader
  term_pos : 0 < p.leader.state.currentTerm
  term_le : p.follower.state.currentTerm ≤ p.leader.state.currentTerm
  next_pos : 0 < p.next
  next_le : p.next ≤ p.leader.log.lastIndex + 1
  matched_le : p.matched ≤ p.leader.log.lastIndex

/-- The follower holds the leader's last entry and the leader knows it. -/
structure CaughtUp (p : Pair) : Prop where
  next_eq : p.next = p.leader.log.lastIndex + 1
  matched_eq : p.matched = p.leader.log.lastIndex
  accepts : p.follower.log.Accepts p.leader.log.lastIndex
    (p.leader.log.termAt p.leader.log.lastIndex)

/-- The match index has reached the leader's snapshot, and the follower rejects every index
from there up to the next index. -/
structure Stuck (p : Pair) : Prop where
  snapshot_le : p.leader.log.snapshotLastIndex ≤ p.matched
  rejects : ∀ i, p.leader.log.snapshotLastIndex ≤ i → i < p.next →
    ¬ p.follower.log.Accepts i (p.leader.log.termAt i)

/-! ## One exchange -/

/-- What the reply of a peer leaves alone in a leader. -/
structure Steady (peer : Int) (node node' : RaftNode) : Prop where
  log : node'.log = node.log
  role : node'.role = node.role
  state : node'.state = node.state
  nodeId : node'.nodeId = node.nodeId
  peers : node'.peers = node.peers
  nextIndex : ∀ m ≠ peer, node'.nextIndex m = node.nextIndex m
  matchIndex : ∀ m ≠ peer, node'.matchIndex m = node.matchIndex m
  commit_le : node.commitIndex ≤ node'.commitIndex

theorem Steady.refl (peer : Int) (node : RaftNode) : Steady peer node node :=
  ⟨rfl, rfl, rfl, rfl, rfl, fun _ _ => rfl, fun _ _ => rfl, le_rfl⟩

theorem Steady.trans {peer : Int} {node node' node'' : RaftNode} (h : Steady peer node node')
    (h' : Steady peer node' node'') : Steady peer node node'' where
  log := h'.log.trans h.log
  role := h'.role.trans h.role
  state := h'.state.trans h.state
  nodeId := h'.nodeId.trans h.nodeId
  peers := h'.peers.trans h.peers
  nextIndex m hm := (h'.nextIndex m hm).trans (h.nextIndex m hm)
  matchIndex m hm := (h'.matchIndex m hm).trans (h.matchIndex m hm)
  commit_le := h.commit_le.trans h'.commit_le

/-- New indices of the peer. -/
theorem Steady.of_indices (peer : Int) (node : RaftNode) (next matched : Nat) :
    Steady peer node
      { node with
        matchIndex := Function.update node.matchIndex peer matched
        nextIndex := Function.update node.nextIndex peer next } where
  log := rfl
  role := rfl
  state := rfl
  nodeId := rfl
  peers := rfl
  nextIndex _ hm := Function.update_of_ne hm _ _
  matchIndex _ hm := Function.update_of_ne hm _ _
  commit_le := le_rfl

theorem Steady.advance {peer : Int} {node node' : RaftNode} (h : Steady peer node node') :
    Steady peer node node'.advanceCommitIndex where
  log := (advanceCommitIndex_log node').trans h.log
  role := (advanceCommitIndex_role node').trans h.role
  state := (advanceCommitIndex_state node').trans h.state
  nodeId := (advanceCommitIndex_nodeId node').trans h.nodeId
  peers := (advanceCommitIndex_peers node').trans h.peers
  nextIndex m hm := by rw [advanceCommitIndex_nextIndex, h.nextIndex m hm]
  matchIndex m hm := by rw [advanceCommitIndex_matchIndex, h.matchIndex m hm]
  commit_le := h.commit_le.trans (commitIndex_le_advanceCommitIndex node')

/-- What an exchange does to the follower's log and to the leader's indices. -/
inductive Outcome (p p' : Pair) : Prop
  | snapshot (hbehind : p.next ≤ p.leader.log.snapshotLastIndex)
      (hlog : p'.follower.log =
        p.follower.log.compact p.leader.log.snapshotLastIndex p.leader.log.snapshotLastTerm
          p.leader.log.snapshotData)
      (hnext : p'.next = if p.leader.log.snapshotLastIndex > p.matched then
        p.leader.log.snapshotLastIndex + 1 else p.next)
      (hmatched : p'.matched = max p.matched p.leader.log.snapshotLastIndex)
  | accepted (hbehind : p.leader.log.snapshotLastIndex < p.next)
      (haccepts : p.follower.log.Accepts (p.next - 1) (p.leader.log.termAt (p.next - 1)))
      (hlog : p'.follower.log = acceptedLog p.follower.log p.appendRequest)
      (hnext : p'.next = p.leader.log.lastIndex + 1)
      (hmatched : p'.matched = p.leader.log.lastIndex)
      (hcommit : min p.leader.commitIndex p.leader.log.lastIndex ≤ p'.follower.commitIndex)
  | rejected (hbehind : p.leader.log.snapshotLastIndex < p.next) (hone : 1 < p.next)
      (hrejects : ¬ p.follower.log.Accepts (p.next - 1) (p.leader.log.termAt (p.next - 1)))
      (hlog : p'.follower.log = p.follower.log) (hnext : p'.next = p.next - 1)
      (hmatched : p'.matched = p.matched)

/-- A stuck pair is not caught up. -/
theorem not_caughtUp_of_stuck {p : Pair} (hstuck : Stuck p) : ¬ CaughtUp p := by
  intro hcaught
  have hnext := hcaught.next_eq
  have hsnap : p.leader.log.snapshotLastIndex ≤ p.leader.log.lastIndex := Nat.le_add_right _ _
  exact hstuck.rejects _ hsnap (by omega) hcaught.accepts

/-- How many exchanges come before the one that the follower accepts. -/
def distance (p : Pair) : Nat :=
  if p.leader.log.snapshotLastIndex < p.next then
    if p.follower.log.Accepts (p.next - 1) (p.leader.log.termAt (p.next - 1)) then 0
    else p.next - p.leader.log.snapshotLastIndex + 1
  else 1

theorem distance_le (p : Pair) : distance p ≤ p.next - p.leader.log.snapshotLastIndex + 1 := by
  unfold distance
  split_ifs <;> omega

/-- A request that starts at the first entry is never rejected. -/
theorem one_lt_next_of_rejects {p : Pair} (h : ¬ p.follower.prevMatches p.appendRequest = true) :
    1 < p.next := by
  by_contra hle
  have hzero : p.next - 1 = 0 := by omega
  exact h (prevMatches_iff.mpr (.inl (by simp [appendRequest, hzero])))

section

variable {p : Pair} (h : Exchanging p)
include h

theorem exchange_of_behind (hbehind : p.next ≤ p.leader.log.snapshotLastIndex) :
    p.exchange =
      ⟨p.leader.handleInstallSnapshotReply p.follower.nodeId p.snapshotRequest
          (p.follower.handleInstallSnapshot p.snapshotRequest).2,
        (p.follower.handleInstallSnapshot p.snapshotRequest).1⟩ := by
  have hpos := h.next_pos
  have hcheck : p.leader.sendCheck p.task = .snapshot p.snapshotRequest := by
    unfold sendCheck
    rw [if_neg (by simp [h.leads, task]), if_pos (by dsimp only [task]; omega)]
    rfl
  rw [exchange, hcheck]

theorem exchange_of_ahead (hahead : p.leader.log.snapshotLastIndex < p.next) :
    p.exchange =
      ⟨p.leader.handleAppendEntriesReply p.follower.nodeId p.appendRequest
          (p.follower.handleAppendEntries p.appendRequest).2,
        (p.follower.handleAppendEntries p.appendRequest).1⟩ := by
  have hcheck : p.leader.sendCheck p.task = .append := by
    unfold sendCheck
    rw [if_neg (by simp [h.leads, task]), if_neg (by dsimp only [task]; omega)]
  have hbuild : p.leader.buildAppendEntries p.task = some p.appendRequest := by
    unfold buildAppendEntries
    rw [if_neg (by simp [h.leads, task])]
    rfl
  rw [exchange, hcheck]
  dsimp only
  rw [hbuild]

/-- The reply to a snapshot moves both indices to it, or neither. -/
theorem leader_of_behind (hbehind : p.next ≤ p.leader.log.snapshotLastIndex) :
    p.exchange.leader =
      if p.leader.log.snapshotLastIndex > p.matched then
        { p.leader with
          matchIndex := Function.update p.leader.matchIndex p.follower.nodeId
            p.leader.log.snapshotLastIndex
          nextIndex := Function.update p.leader.nextIndex p.follower.nodeId
            (p.leader.log.snapshotLastIndex + 1) }
      else p.leader := by
  have hresp := (handleInstallSnapshot_of_le p.snapshotRequest h.term_le).1
  rw [exchange_of_behind h hbehind]
  dsimp only
  unfold handleInstallSnapshotReply
  rw [hresp, if_neg (by simp [snapshotRequest]), if_neg (by simp [h.leads, snapshotRequest])]
  rfl

/-- The reply to entries that were accepted moves both indices to the end of the log. -/
theorem leader_of_accepts (hahead : p.leader.log.snapshotLastIndex < p.next)
    (haccepts : p.follower.prevMatches p.appendRequest = true) :
    p.exchange.leader = advanceCommitIndex
      { p.leader with
        matchIndex := Function.update p.leader.matchIndex p.follower.nodeId
          p.leader.log.lastIndex
        nextIndex := Function.update p.leader.nextIndex p.follower.nodeId
          (p.leader.log.lastIndex + 1) } := by
  have hpos := h.next_pos
  have hnext := h.next_le
  have hmatched := h.matched_le
  have hresp := (handleAppendEntries_of_le p.appendRequest h.term_le).1
  have hend : p.appendRequest.prevLogIndex + p.appendRequest.entries.length =
      p.leader.log.lastIndex := by
    simp only [appendRequest, Server.length_entriesFrom]
    omega
  rw [exchange_of_ahead h hahead]
  dsimp only
  unfold handleAppendEntriesReply
  rw [hresp, haccepts, if_neg (by simp [appendRequest]), if_neg (by simp [h.leads, appendRequest]),
    if_pos rfl]
  dsimp only
  rw [hend]
  split_ifs with hnew
  · rfl
  · have heq : p.leader.matchIndex p.follower.nodeId = p.leader.log.lastIndex := by
      rw [matched] at hmatched
      omega
    rw [← heq, Function.update_eq_self]

/-- A rejection moves the next index down by one. -/
theorem leader_of_rejects (hahead : p.leader.log.snapshotLastIndex < p.next)
    (hrejects : ¬ p.follower.prevMatches p.appendRequest = true) :
    p.exchange.leader =
      { p.leader with
        nextIndex := Function.update p.leader.nextIndex p.follower.nodeId (p.next - 1) } := by
  have hresp := (handleAppendEntries_of_le p.appendRequest h.term_le).1
  have hone : p.leader.nextIndex p.follower.nodeId > 1 := one_lt_next_of_rejects hrejects
  rw [exchange_of_ahead h hahead]
  dsimp only
  unfold handleAppendEntriesReply
  rw [Bool.not_eq_true] at hrejects
  rw [hresp, hrejects, if_neg (by simp [appendRequest]),
    if_neg (by simp [h.leads, appendRequest]), if_neg (by simp), if_pos hone]
  rfl

/-- The leader after an exchange differs from the one before in what the reply changed. -/
theorem leader_steady : Steady p.follower.nodeId p.leader p.exchange.leader := by
  rcases Nat.lt_or_ge p.leader.log.snapshotLastIndex p.next with hahead | hbehind
  · by_cases haccepts : p.follower.prevMatches p.appendRequest = true
    · rw [leader_of_accepts h hahead haccepts]
      exact (Steady.of_indices _ _ _ _).advance
    · rw [leader_of_rejects h hahead haccepts]
      have hsame := Steady.of_indices p.follower.nodeId p.leader (p.next - 1) p.matched
      rwa [matched, Function.update_eq_self] at hsame
  · rw [leader_of_behind h hbehind]
    split_ifs
    · exact Steady.of_indices _ _ _ _
    · exact Steady.refl _ _

theorem follower_quiet : Quiet p.follower p.exchange.follower := by
  rcases Nat.lt_or_ge p.leader.log.snapshotLastIndex p.next with hahead | hbehind
  · rw [exchange_of_ahead h hahead]
    exact Quiet.handleAppendEntries _ _
  · rw [exchange_of_behind h hbehind]
    exact Quiet.handleInstallSnapshot _ _

theorem follower_term :
    p.exchange.follower.state.currentTerm = p.leader.state.currentTerm := by
  rcases Nat.lt_or_ge p.leader.log.snapshotLastIndex p.next with hahead | hbehind
  · rw [exchange_of_ahead h hahead]
    exact (handleAppendEntries_of_le p.appendRequest h.term_le).2.1
  · rw [exchange_of_behind h hbehind]
    exact (handleInstallSnapshot_of_le p.snapshotRequest h.term_le).2.1

/-- **Step lemma.**  What one exchange does to the follower's log and to the leader's indices
of it. -/
theorem exchange_outcome : Outcome p p.exchange := by
  have hid := (follower_quiet h).nodeId
  have hpos := h.next_pos
  have hlast := h.next_le
  rcases Nat.lt_or_ge p.leader.log.snapshotLastIndex p.next with hahead | hbehind
  · have hfollower := handleAppendEntries_of_le p.appendRequest h.term_le
    by_cases haccepts : p.follower.prevMatches p.appendRequest = true
    · have hleader := leader_of_accepts h hahead haccepts
      refine .accepted hahead (prevMatches_iff.mp haccepts) ?_ ?_ ?_ ?_
      · rw [exchange_of_ahead h hahead]
        dsimp only
        rw [hfollower.2.2, if_pos haccepts]
      · rw [next, hid, hleader, advanceCommitIndex_nextIndex]
        exact Function.update_self _ _ _
      · rw [matched, hid, hleader, advanceCommitIndex_matchIndex]
        exact Function.update_self _ _ _
      · rw [exchange_of_ahead h hahead]
        refine le_trans (min_le_min le_rfl ?_)
          (le_commitIndex_of_accepts p.appendRequest h.term_le haccepts)
        -- an accepted request brings the follower's log to the end of the leader's
        have hprev := (prevMatches_iff.mp haccepts).le_lastIndex
        rw [lastIndex_acceptedLog haccepts, endAfter]
        simp only [appendRequest, ← List.length_eq_zero_iff, Server.length_entriesFrom] at hprev ⊢
        split_ifs <;> omega
    · have hleader := leader_of_rejects h hahead haccepts
      refine .rejected hahead (one_lt_next_of_rejects haccepts)
        (fun hok => haccepts (prevMatches_iff.mpr hok)) ?_ ?_ ?_
      · rw [exchange_of_ahead h hahead]
        dsimp only
        rw [hfollower.2.2, if_neg haccepts]
      · rw [next, hid, hleader]
        exact Function.update_self _ _ _
      · rw [matched, hid, hleader]
        rfl
  · have hleader := leader_of_behind h hbehind
    refine .snapshot hbehind ?_ ?_ ?_
    · rw [exchange_of_behind h hbehind]
      exact (handleInstallSnapshot_of_le p.snapshotRequest h.term_le).2.2
    · rw [next, hid, hleader]
      split_ifs
      · exact Function.update_self _ _ _
      · rfl
    · rw [matched, hid, hleader]
      split_ifs with hnew
      · rw [max_eq_right hnew.le]
        exact Function.update_self _ _ _
      · rw [max_eq_left (Nat.le_of_not_gt hnew)]
        rfl

/-- An exchange leaves the pair able to exchange. -/
theorem exchange_exchanging : Exchanging p.exchange := by
  have hsteady := leader_steady h
  have hsnap : p.leader.log.snapshotLastIndex ≤ p.leader.log.lastIndex := Nat.le_add_right _ _
  have hlast := h.next_le
  have hpos := h.next_pos
  have hmatched := h.matched_le
  have hindices : 0 < p.exchange.next ∧ p.exchange.next ≤ p.leader.log.lastIndex + 1 ∧
      p.exchange.matched ≤ p.leader.log.lastIndex := by
    cases exchange_outcome h with
    | snapshot hbehind hlog hnext hmatched' =>
        rw [hnext, hmatched']
        split_ifs <;> omega
    | accepted hahead haccepts hlog hnext hmatched' hcommit => omega
    | rejected hahead hone hrejects hlog hnext hmatched' => omega
  rw [← hsteady.log] at hindices
  exact
    { leads := hsteady.role.trans h.leads
      term_pos := hsteady.state ▸ h.term_pos
      term_le := by rw [follower_term h, hsteady.state]
      next_pos := hindices.1
      next_le := hindices.2.1
      matched_le := hindices.2.2 }

/-! ## The logs after an exchange -/

/-- The stored entries of a follower that has accepted the leader's entries: its own before the
next index, the leader's from there on. -/
theorem entryAt_of_accepts (hahead : p.leader.log.snapshotLastIndex < p.next)
    (haccepts : p.follower.prevMatches p.appendRequest = true) {i : Nat}
    (hsnap : p.follower.log.snapshotLastIndex < i) (hi : i ≤ p.leader.log.lastIndex) :
    (acceptedLog p.follower.log p.appendRequest).entryAt i =
      if i < p.next then p.follower.log.entryAt i else p.leader.log.entryAt i := by
  have hpos := h.next_pos
  by_cases hempty : p.appendRequest.entries = []
  · have hlen := congrArg List.length hempty
    simp only [appendRequest, Server.length_entriesFrom, List.length_nil] at hlen
    rw [acceptedLog_of_entries_eq_nil hempty, if_pos (by omega)]
  · rw [entryAt_acceptedLog haccepts hempty hsnap]
    have hprev : p.appendRequest.prevLogIndex = p.next - 1 := rfl
    split_ifs with hle hlt
    · rfl
    · omega
    · omega
    · exact requestEntryAt_entriesFrom p.leader.log hahead _ _ _ _ (by omega)

/-- A follower that has accepted the leader's entries passes the check at their end. -/
theorem accepts_lastIndex (hahead : p.leader.log.snapshotLastIndex < p.next)
    (haccepts : p.follower.prevMatches p.appendRequest = true) :
    (acceptedLog p.follower.log p.appendRequest).Accepts p.leader.log.lastIndex
      (p.leader.log.termAt p.leader.log.lastIndex) := by
  have hlast := h.next_le
  have hpos := h.next_pos
  rcases Nat.lt_or_ge p.leader.log.lastIndex p.next with hend | hinside
  · -- nothing was sent
    have hempty : p.appendRequest.entries = [] := by
      rw [← List.length_eq_zero_iff, appendRequest, Server.length_entriesFrom]
      omega
    have hprev : p.leader.log.lastIndex = p.next - 1 := by omega
    rw [acceptedLog_of_entries_eq_nil hempty, hprev]
    exact prevMatches_iff.mp haccepts
  · rcases Nat.lt_or_ge p.follower.log.snapshotLastIndex p.leader.log.lastIndex with
      hsnap | hcovered
    · have hentry := entryAt_of_accepts h hahead haccepts hsnap le_rfl
      rw [if_neg (by omega)] at hentry
      obtain ⟨e, he⟩ := Option.isSome_iff_exists.mp (RaftLog.entryAt_isSome_iff.mpr
        ⟨by omega, le_rfl⟩ : (p.leader.log.entryAt p.leader.log.lastIndex).isSome = true)
      rw [(RaftLog.termAt_of_entryAt he).1]
      exact RaftLog.accepts_of_entryAt (hentry.trans he)
    · exact .inl (by rwa [snapshotLastIndex_acceptedLog])

/-- An exchange keeps the two logs matching. -/
theorem exchange_matches (hmatch : p.leader.log.Matches p.follower.log) :
    p.exchange.leader.log.Matches p.exchange.follower.log := by
  rw [(leader_steady h).log]
  cases exchange_outcome h with
  | snapshot hbehind hlog hnext hmatched =>
      rw [hlog]
      refine hmatch.of_sub fun i e he => ?_
      rcases Nat.lt_or_ge p.follower.log.snapshotLastIndex p.leader.log.snapshotLastIndex with
        hnew | hold
      · rw [RaftLog.entryAt_compact hnew] at he
        split_ifs at he
        exact he
      · rwa [RaftLog.compact, if_pos hold] at he
  | rejected hahead hone hrejects hlog hnext hmatched => rwa [hlog]
  | accepted hahead haccepts hlog hnext hmatched hcommit =>
      rw [hlog]
      intro _ _ _ _ _ _ j _ d d' hd hd'
      have hj := RaftLog.entryAt_isSome_iff.mp (by rw [hd]; rfl)
      have hj' := RaftLog.entryAt_isSome_iff.mp (by rw [hd']; rfl)
      rw [snapshotLastIndex_acceptedLog] at hj'
      rw [entryAt_of_accepts h hahead (prevMatches_iff.mpr haccepts) hj'.1 hj.2] at hd'
      split_ifs at hd' with hbefore
      · -- the entry before the sent ones is of one term in both logs
        have hlast := h.next_le
        obtain ⟨hle, hterm⟩ := haccepts.resolve_left (by omega)
        obtain ⟨e, he⟩ := Option.isSome_iff_exists.mp (RaftLog.entryAt_isSome_iff.mpr
          ⟨by omega, by omega⟩ : (p.leader.log.entryAt (p.next - 1)).isSome = true)
        obtain ⟨e', he'⟩ := Option.isSome_iff_exists.mp (RaftLog.entryAt_isSome_iff.mpr
          ⟨by omega, hle⟩ : (p.follower.log.entryAt (p.next - 1)).isSome = true)
        rw [(RaftLog.termAt_of_entryAt he).1, (RaftLog.termAt_of_entryAt he').1] at hterm
        exact hmatch _ _ _ he he' hterm.symm j (by omega) _ _ hd hd'
      · exact Option.some_inj.mp (hd.symm.trans hd')

/-! ## Convergence -/

/-- A caught up pair stays so, and the follower is told the commit index. -/
theorem exchange_caughtUp (hcaught : CaughtUp p) :
    CaughtUp p.exchange ∧ p.exchange.follower.log = p.follower.log ∧
      min p.leader.commitIndex p.leader.log.lastIndex ≤ p.exchange.follower.commitIndex := by
  have hsteady := leader_steady h
  have hsnap : p.leader.log.snapshotLastIndex ≤ p.leader.log.lastIndex := Nat.le_add_right _ _
  have hnext := hcaught.next_eq
  have hprev : p.next - 1 = p.leader.log.lastIndex := by omega
  cases exchange_outcome h with
  | snapshot hbehind => omega
  | rejected hahead hone hrejects =>
      rw [hprev] at hrejects
      exact absurd hcaught.accepts hrejects
  | accepted hahead haccepts hlog hnext' hmatched hcommit =>
      have hempty : p.appendRequest.entries = [] := by
        rw [← List.length_eq_zero_iff, appendRequest, Server.length_entriesFrom]
        omega
      rw [acceptedLog_of_entries_eq_nil hempty] at hlog
      refine ⟨⟨by rw [hnext', hsteady.log], by rw [hmatched, hsteady.log], ?_⟩, hlog, hcommit⟩
      rw [hlog, hsteady.log]
      exact hcaught.accepts

/-- A stuck pair stays stuck. -/
theorem exchange_stuck (hstuck : Stuck p) : Stuck p.exchange := by
  have hsteady := leader_steady h
  have hsnap := hstuck.snapshot_le
  cases exchange_outcome h with
  | snapshot hbehind hlog hnext hmatched =>
      rw [if_neg (by omega)] at hnext
      refine ⟨by rw [hsteady.log, hmatched]; exact le_max_right _ _, ?_⟩
      rw [hsteady.log, hnext]
      intro i hlo hhi
      omega
  | rejected hahead hone hrejects hlog hnext hmatched =>
      refine ⟨by rwa [hsteady.log, hmatched], ?_⟩
      rw [hsteady.log, hnext, hlog]
      intro i hlo hhi
      exact hstuck.rejects i hlo (by omega)
  | accepted hahead haccepts =>
      exact absurd haccepts (hstuck.rejects _ (by omega) (by omega))

/-- An exchange with a pair that is not stuck gets it closer: either the follower accepts, or
the next exchange starts at the snapshot or one index lower. -/
theorem exchange_closer (hfree : ¬ Stuck p) :
    (CaughtUp p.exchange ∧ CoveredFrom p.next p.leader.log p.exchange.follower.log ∧
        min p.leader.commitIndex p.leader.log.lastIndex ≤ p.exchange.follower.commitIndex) ∨
      (¬ Stuck p.exchange ∧ distance p.exchange < distance p ∧
        p.exchange.next ≤ max p.next (p.leader.log.snapshotLastIndex + 1)) := by
  have hsteady := leader_steady h
  have hpos := h.next_pos
  cases exchange_outcome h with
  | snapshot hbehind hlog hnext hmatched =>
      have hnew : p.leader.log.snapshotLastIndex > p.matched := by
        by_contra hle
        exact hfree ⟨Nat.le_of_not_gt hle, fun i hlo hhi => by omega⟩
      have hinstalled : p.leader.log.snapshotLastIndex ≤
          p.exchange.follower.log.snapshotLastIndex := by
        rw [hlog]
        rcases Nat.lt_or_ge p.follower.log.snapshotLastIndex p.leader.log.snapshotLastIndex with
          hlt | hge
        · rw [RaftLog.snapshotLastIndex_compact hlt]
        · rwa [RaftLog.compact, if_pos hge]
      rw [if_pos hnew] at hnext
      right
      refine ⟨?_, ?_, by omega⟩
      · intro hstuck
        refine hstuck.rejects p.leader.log.snapshotLastIndex ?_ (by omega) (.inl hinstalled)
        rw [hsteady.log]
      · have hprev : p.exchange.next - 1 = p.leader.log.snapshotLastIndex := by omega
        have haccepts : p.exchange.follower.log.Accepts (p.exchange.next - 1)
            (p.exchange.leader.log.termAt (p.exchange.next - 1)) := .inl (hprev ▸ hinstalled)
        rw [distance, distance, hsteady.log, if_pos (by omega), ← hsteady.log, if_pos haccepts,
          hsteady.log, if_neg (by omega)]
        exact Nat.zero_lt_one
  | accepted hahead haccepts hlog hnext hmatched hcommit =>
      left
      refine ⟨⟨by rw [hnext, hsteady.log], by rw [hmatched, hsteady.log], ?_⟩, ?_, hcommit⟩
      · rw [hlog, hsteady.log]
        exact accepts_lastIndex h hahead (prevMatches_iff.mpr haccepts)
      · intro i e hi hsnap he
        have hlast := (RaftLog.entryAt_isSome_iff.mp (by rw [he]; rfl)).2
        rw [hlog, snapshotLastIndex_acceptedLog] at hsnap
        rw [hlog, entryAt_of_accepts h hahead (prevMatches_iff.mpr haccepts) hsnap hlast,
          if_neg (by omega), he]
  | rejected hahead hone hrejects hlog hnext hmatched =>
      right
      refine ⟨?_, ?_, by omega⟩
      · intro hstuck
        refine hfree ⟨by simpa only [hsteady.log, hmatched] using hstuck.snapshot_le, ?_⟩
        intro i hlo hhi
        by_cases hlast : i = p.next - 1
        · rwa [hlast]
        · have hbelow := hstuck.rejects i (by rwa [hsteady.log]) (by omega)
          rwa [hlog, hsteady.log] at hbelow
      · rw [distance, distance, if_pos hahead, if_neg hrejects, hsteady.log]
        split_ifs <;> omega

end

/-- What the exchanges from a first pair keep. -/
structure Follows (p₀ p : Pair) : Prop where
  exchanging : Exchanging p
  leaderLog : p.leader.log = p₀.leader.log
  commit_le : p₀.leader.commitIndex ≤ p.leader.commitIndex
  matching : p₀.leader.log.Matches p₀.follower.log → p.leader.log.Matches p.follower.log

theorem Follows.exchange {p₀ p : Pair} (h : Follows p₀ p) : Follows p₀ p.exchange where
  exchanging := exchange_exchanging h.exchanging
  leaderLog := (leader_steady h.exchanging).log.trans h.leaderLog
  commit_le := h.commit_le.trans (leader_steady h.exchanging).commit_le
  matching hmatch := exchange_matches h.exchanging (h.matching hmatch)

/-- The follower has reached the end of the log that the leader had at first. -/
structure Reached (p₀ p : Pair) : Prop where
  caughtUp : CaughtUp p
  covered : CoveredFrom p₀.next p₀.leader.log p.follower.log
  commit_le : min p₀.leader.commitIndex p₀.leader.log.lastIndex ≤ p.follower.commitIndex

theorem Reached.exchange {p₀ p : Pair} (h : Reached p₀ p) (hfollows : Follows p₀ p) :
    Reached p₀ p.exchange := by
  obtain ⟨hcaught, hlog, hcommit⟩ := exchange_caughtUp hfollows.exchanging h.caughtUp
  refine ⟨hcaught, hlog ▸ h.covered, ?_⟩
  rw [hfollows.leaderLog] at hcommit
  exact (min_le_min hfollows.commit_le le_rfl).trans hcommit

end Pair

open Pair

/-- A pair that is not stuck catches up within the bound. -/
theorem catches_up_of_not_stuck {p : Pair} (h : Exchanging p) (hfree : ¬ Stuck p) {k : Nat}
    (hk : p.next - p.leader.log.snapshotLastIndex + 1 < k) :
    CaughtUp (exchange^[k] p) ∧
      CoveredFrom p.next p.leader.log (exchange^[k] p).follower.log ∧
      min p.leader.commitIndex p.leader.log.lastIndex ≤ (exchange^[k] p).follower.commitIndex ∧
      (p.leader.log.Matches p.follower.log →
        CoveredFrom 0 p.leader.log (exchange^[k] p).follower.log) := by
  have hreached : Follows p (exchange^[k] p) ∧ Reached p (exchange^[k] p) := by
    refine iterate_reaches
      (fun q => Follows p q ∧ ¬ Stuck q ∧ q.next ≤ max p.next (p.leader.log.snapshotLastIndex + 1))
      (fun q => Follows p q ∧ Reached p q) distance ?_ ?_
      ⟨⟨h, rfl, le_rfl, id⟩, hfree, le_max_left _ _⟩ ((distance_le p).trans_lt hk)
    · rintro q ⟨hq, hreached⟩
      exact ⟨hq.exchange, hreached.exchange hq⟩
    · rintro q ⟨hq, hfree, hnext⟩
      rcases exchange_closer hq.exchanging hfree with
        ⟨hcaught, hcovered, hcommit⟩ | ⟨hfree', hlt, hnext'⟩
      · refine .inl ⟨hq.exchange, hcaught, ?_, ?_⟩
        · intro i e hi hsnap he
          have hbounds := RaftLog.entryAt_isSome_iff.mp (by rw [he]; rfl)
          exact hcovered i e (by omega) hsnap (by rwa [hq.leaderLog])
        · rw [hq.leaderLog] at hcommit
          exact (min_le_min hq.commit_le le_rfl).trans hcommit
      · refine .inr ⟨⟨hq.exchange, hfree', ?_⟩, hlt⟩
        rw [hq.leaderLog] at hnext'
        omega
  rcases hreached with ⟨hlast, hcaught, hcovered, hcommit⟩
  refine ⟨hcaught, hcovered, hcommit, fun hmatch => ?_⟩
  have hall := (hlast.matching hmatch).coveredFrom hcaught.accepts 0
  rwa [hlast.leaderLog] at hall

/-- For every leader and follower with the leader's indices in range, repeated exchanges bring
the follower to the end of the leader's log and to its commit index within a bound.  It then
holds the entries from the first next index on, and all of them if the logs matched.  Or the
pair is stuck, and they never do. -/
theorem follower_catches_up (p : Pair) (h : Exchanging p) :
    (Stuck p → ∀ k, ¬ CaughtUp (exchange^[k] p)) ∧
      (¬ Stuck p → ∀ k, p.next - p.leader.log.snapshotLastIndex + 1 < k →
        CaughtUp (exchange^[k] p) ∧
          CoveredFrom p.next p.leader.log (exchange^[k] p).follower.log ∧
          min p.leader.commitIndex p.leader.log.lastIndex ≤
            (exchange^[k] p).follower.commitIndex ∧
          (p.leader.log.Matches p.follower.log →
            CoveredFrom 0 p.leader.log (exchange^[k] p).follower.log)) := by
  constructor
  · intro hstuck k
    have hkept : Exchanging (exchange^[k] p) ∧ Stuck (exchange^[k] p) :=
      Function.Iterate.rec (fun q => Exchanging q ∧ Stuck q) ⟨h, hstuck⟩
        (fun q hq => ⟨exchange_exchanging hq.1, exchange_stuck hq.1 hq.2⟩) k
    exact not_caughtUp_of_stuck hkept.2
  · exact fun hfree k hk => catches_up_of_not_stuck h hfree hk

/-- A leader of term 2 and a follower whose second entry is of term 1. -/
def conflictingPair : Pair where
  leader :=
    { nodeId := 0, peers := [0, 1, 2], state := ⟨2, 0⟩, role := .leader, commitIndex := 1
      log := { entries := [⟨1, [97]⟩, ⟨2, [98]⟩] }
      nextIndex := fun _ => 3 }
  follower :=
    { nodeId := 1, peers := [0, 1, 2], state := ⟨1, -1⟩
      log := { entries := [⟨1, [97]⟩, ⟨1, [120]⟩, ⟨1, [121]⟩] } }

theorem follower_catches_up_conflictingPair :
    (conflictingPair.exchange).next = 2 ∧ CaughtUp (exchange^[5] conflictingPair) ∧
      1 ≤ (exchange^[5] conflictingPair).follower.commitIndex := by
  have hexchanging : Exchanging conflictingPair :=
    ⟨by decide, by decide, by decide, by decide, by decide, by decide⟩
  have hfree : ¬ Stuck conflictingPair := by
    intro hstuck
    exact hstuck.rejects 1 (by decide) (by decide) (by decide)
  have hcaught := (follower_catches_up conflictingPair hexchanging).2 hfree 5 (by decide)
  exact ⟨by decide, hcaught.1, hcaught.2.2.1⟩

/-- The acknowledgement of the request that arrived late moves the next index below the match
index, and a compaction passes it. -/
def lateAcknowledgement : List Action :=
  [.handleAppendEntriesReply 1 ⟨1, 0, 0, 0, [⟨1, 1, [97]⟩], 0⟩ ⟨1, true⟩, .compact 0 2 [115]]

/-- A stuck pair is reachable. -/
theorem stuck_after_lateAcknowledgement :
    ∃ s, Runs threeNodes (fun _ _ => True) (ClusterState.init threeNodes)
        (commitTwo ++ lateFirst ++ lateAcknowledgement) s ∧
      Exchanging ⟨s.node 0, s.node 1⟩ ∧ Stuck ⟨s.node 0, s.node 1⟩ := by
  have hrun := Exec.of_guardedRun (step threeNodes) (fun _ _ => True)
    (ClusterState.init threeNodes) (commitTwo ++ lateFirst ++ lateAcknowledgement)
    (by decide +kernel)
  refine ⟨_, hrun, ⟨?_, ?_, ?_, ?_, ?_, ?_⟩, by decide +kernel, ?_⟩
  case refine_7 =>
    intro i hlo hhi
    exact absurd (hlo.trans_lt hhi) (by decide +kernel)
  all_goals decide +kernel

end NanoDB.Raft
