import NanoDB.Raft.Indices

/-!
# Leadership

How the critical sections of a node move it in and out of leadership.  Only
{lit}`start_election` makes a candidate, always in a new term, and only its last section
makes a leader, always in the candidate's term.  A leader that hears of its own term or a
newer one in a request becomes a follower.  So a node leads a term once, and while it leads
its log is appended to or compacted, never cut.

Main results:

- Definition {lit}`LeadershipMove`: the three ways a section can end, with one lemma for each
  critical section.
- Theorems {lit}`LeadershipMove.term_le` and {lit}`LeadershipMove.lastIndex_le`: terms do not
  decrease, and the log of a leader does not get shorter.
-/

namespace NanoDB.Raft

open RaftNode

/-! ## Leadership -/

/-- How a critical section moves a node: it does not lead afterwards; or it was a candidate
and is now the leader of the same term; or it leads its term on.  A candidacy begins in a new
term.  While a node leads, its log is appended to or compacted, and what it knows about a
peer changes by one step back or to an acknowledged index. -/
inductive LeadershipMove (acked : Nat → Prop) (node node' : RaftNode) : Prop
  | idle (hrole : node'.role ≠ .leader) (hterm : node.state.currentTerm ≤ node'.state.currentTerm)
      (hstanding : node'.role = .candidate →
        node.state.currentTerm < node'.state.currentTerm ∨ node.role = .candidate)
  | elected (hrole : node.role = .candidate) (hrole' : node'.role = .leader)
      (hterm : node'.state.currentTerm = node.state.currentTerm) (hlog : node'.log = node.log)
      (hnext : node'.nextIndex = fun _ => node.log.lastIndex + 1)
      (hmatch : node'.matchIndex = fun _ => 0)
  | serves (hrole : node.role = .leader) (hrole' : node'.role = .leader)
      (hterm : node'.state.currentTerm = node.state.currentTerm)
      (hlog : node'.log = node.log ∨
        (∃ command, node'.log = node.log.append node.state.currentTerm command) ∨
        ∃ upToIndex data, node.log.snapshotLastIndex < upToIndex ∧
          node'.log = node.log.compact upToIndex (node.log.termAt upToIndex) data)
      (hnext : ∀ p, node'.nextIndex p = node.nextIndex p ∨
        (1 < node.nextIndex p ∧ node'.nextIndex p = node.nextIndex p - 1) ∨
        ∃ k, acked k ∧ node'.nextIndex p = k + 1)
      (hmatch : ∀ p, node'.matchIndex p = node.matchIndex p ∨
        ∃ k, acked k ∧ node.matchIndex p < k ∧ node'.matchIndex p = k)

namespace LeadershipMove

variable {acked : Nat → Prop} {node node' : RaftNode}

/-- What is known about a peer after the index of one peer was set. -/
theorem update_cases (f : Int → Nat) (peerId : Int) (k : Nat) (p : Int) :
    Function.update f peerId k p = f p ∨ p = peerId ∧ Function.update f peerId k p = k := by
  by_cases hp : p = peerId
  · subst hp
    exact .inr ⟨rfl, Function.update_self ..⟩
  · exact .inl (Function.update_of_ne hp _ _)

/-- A section that changes neither role, term, log nor indices. -/
theorem of_same (hrole : node'.role = node.role) (hstate : node'.state = node.state)
    (hlog : node'.log = node.log) (hnext : node'.nextIndex = node.nextIndex)
    (hmatch : node'.matchIndex = node.matchIndex) : LeadershipMove acked node node' := by
  by_cases hlead : node.role = .leader
  · exact .serves hlead (hrole.trans hlead) (by rw [hstate]) (.inl hlog)
      (fun p => .inl (by rw [hnext])) fun p => .inl (by rw [hmatch])
  · refine .idle (by rwa [hrole]) (by rw [hstate]) fun hcand => .inr ?_
    rwa [hrole] at hcand

/-- A section that makes no candidate and ends with a node that does not lead. -/
theorem of_quiet (hquiet : Quiet node node') (hrole : node'.role ≠ .leader) :
    LeadershipMove acked node node' := by
  refine .idle hrole ?_ fun hcand => ?_
  · rcases hquiet.state with hs | ⟨hlt, -, -⟩
    · rw [hs]
    · exact hlt.le
  · rcases hquiet.role with hr | hr
    · rw [hr] at hcand
      exact .inr hcand
    · rw [hr] at hcand
      cases hcand

/-- A step down to a newer term, or nothing. -/
theorem observeTerm (node : RaftNode) (term : Nat) :
    LeadershipMove acked node (node.observeTerm term) := by
  have hquiet := Quiet.observeTerm node term
  unfold RaftNode.observeTerm at hquiet ⊢
  split_ifs at hquiet ⊢ with hnew
  · exact of_quiet hquiet (by simp [becomeFollower])
  · exact of_same rfl rfl rfl rfl rfl

theorem handleRequestVote (node : RaftNode) (req : RequestVoteRequest) :
    LeadershipMove acked node (node.handleRequestVote req).1 := by
  rcases handleRequestVote_cases node req with ⟨-, heq⟩ | ⟨heq, -, hterm⟩
  · rw [heq]
    exact observeTerm node req.term
  · rw [heq]
    unfold RaftNode.observeTerm
    split_ifs with hnew
    · refine .idle ?_ hnew.le fun hcand => ?_
      · simp [becomeFollower]
      · simp [becomeFollower] at hcand
    · -- a vote in the current term
      have hsame : req.term = node.state.currentTerm := by omega
      by_cases hlead : node.role = .leader
      · exact .serves hlead hlead hsame (.inl rfl) (fun _ => .inl rfl) fun _ => .inl rfl
      · exact .idle hlead hsame.ge .inr

theorem handleRequestVoteReply (node : RaftNode) (electionTerm : Nat)
    (resp : RequestVoteResponse) :
    LeadershipMove acked node (node.handleRequestVoteReply electionTerm resp) := by
  unfold RaftNode.handleRequestVoteReply
  split
  · exact observeTerm node resp.term
  · exact of_same rfl rfl rfl rfl rfl

theorem startElection (node : RaftNode) : LeadershipMove acked node node.startElection.1 := by
  refine .idle (by simp [RaftNode.startElection]) ?_ fun _ => .inl ?_
  · exact Nat.le_succ _
  · exact Nat.lt_succ_self _

theorem finishElection (node : RaftNode) (electionTerm votes : Nat) :
    LeadershipMove acked node (node.finishElection electionTerm votes) := by
  unfold RaftNode.finishElection
  split_ifs with hwins
  · exact .elected hwins.1 rfl rfl rfl rfl rfl
  · exact of_same rfl rfl rfl rfl rfl

theorem propose {command : Bytes} {call : ProposeCall}
    (h : node.propose command = some (node', call)) : LeadershipMove acked node node' := by
  obtain ⟨hrole, rfl, -⟩ := propose_eq_some h
  refine .serves hrole (by simpa using hrole) (by simp) (.inr (.inl ⟨command, by simp⟩)) ?_ ?_
  · exact fun p => .inl (by simp)
  · exact fun p => .inl (by simp)

/-- A request of the node's term or a newer one makes it a follower; an older one is
refused. -/
theorem handleAppendEntries (node : RaftNode) (req : AppendEntriesRequest) :
    LeadershipMove acked node (node.handleAppendEntries req).1 := by
  have hquiet := Quiet.handleAppendEntries node req
  have hobs : LeadershipMove acked node (node.observeTerm req.term) := observeTerm node req.term
  unfold RaftNode.handleAppendEntries at hquiet ⊢
  dsimp only at hquiet ⊢
  split_ifs at hquiet ⊢ with hold hprev
  · exact hobs
  · exact of_quiet hquiet (by simp)
  · exact of_quiet hquiet (by simp)

theorem handleInstallSnapshot (node : RaftNode) (req : InstallSnapshotRequest) :
    LeadershipMove acked node (node.handleInstallSnapshot req).1 := by
  have hquiet := Quiet.handleInstallSnapshot node req
  have hobs : LeadershipMove acked node (node.observeTerm req.term) := observeTerm node req.term
  unfold RaftNode.handleInstallSnapshot at hquiet ⊢
  dsimp only at hquiet ⊢
  split_ifs at hquiet ⊢ with hold hseen
  · exact hobs
  · exact of_quiet hquiet (by simp)
  · exact of_quiet hquiet (by simp)

theorem compact (node : RaftNode) (upToIndex : Nat) (snapshotData : Bytes) :
    LeadershipMove acked node (node.compact upToIndex snapshotData).1 := by
  unfold RaftNode.compact
  dsimp only
  split_ifs with hseen happlied htrim
  · exact of_same rfl rfl rfl rfl rfl
  · exact of_same rfl rfl rfl rfl rfl
  · exact of_same rfl rfl rfl rfl rfl
  · by_cases hlead : node.role = .leader
    · exact .serves hlead hlead rfl (.inr (.inr ⟨upToIndex, snapshotData, by omega, rfl⟩))
        (fun _ => .inl rfl) fun _ => .inl rfl
    · exact .idle hlead le_rfl .inr

/-- The reply to an earlier request of the node; it counts only in the request's term. -/
theorem handleAppendEntriesReply (node : RaftNode) (peerId : Int) (req : AppendEntriesRequest)
    (resp : AppendEntriesResponse) :
    LeadershipMove (fun k => node.state.currentTerm = req.term ∧
        k = req.prevLogIndex + req.entries.length) node
      (node.handleAppendEntriesReply peerId req resp) := by
  have hquiet := Quiet.handleAppendEntriesReply node peerId req resp
  unfold RaftNode.handleAppendEntriesReply at hquiet ⊢
  dsimp only at hquiet ⊢
  split_ifs at hquiet ⊢ with hnew hleads hok hmatch hback
  · exact of_quiet hquiet (by simp [becomeFollower])
  · exact of_same rfl rfl rfl rfl rfl
  · rw [not_or, not_not, not_not] at hleads
    refine .serves hleads.1 (by simpa using hleads.1) (by simp) (.inl (by simp)) ?_ ?_
    · intro p
      rw [advanceCommitIndex_nextIndex]
      exact (update_cases node.nextIndex peerId _ p).imp id
        fun h => .inr ⟨_, ⟨hleads.2, rfl⟩, h.2⟩
    · intro p
      rw [advanceCommitIndex_matchIndex]
      rcases update_cases node.matchIndex peerId _ p with h | ⟨rfl, h⟩
      · exact .inl h
      · exact .inr ⟨_, ⟨hleads.2, rfl⟩, hmatch, h⟩
  · rw [not_or, not_not, not_not] at hleads
    refine .serves hleads.1 (by simpa using hleads.1) (by simp) (.inl (by simp)) ?_ ?_
    · intro p
      rw [advanceCommitIndex_nextIndex]
      exact (update_cases node.nextIndex peerId _ p).imp id
        fun h => .inr ⟨_, ⟨hleads.2, rfl⟩, h.2⟩
    · intro p
      exact .inl (by rw [advanceCommitIndex_matchIndex])
  · rw [not_or, not_not, not_not] at hleads
    refine .serves hleads.1 hleads.1 rfl (.inl rfl) (fun p => ?_) fun p => .inl rfl
    rcases update_cases node.nextIndex peerId (node.nextIndex peerId - 1) p with h | ⟨rfl, h⟩
    · exact .inl h
    · exact .inr (.inl ⟨hback, h⟩)
  · exact of_same rfl rfl rfl rfl rfl

theorem handleInstallSnapshotReply (node : RaftNode) (peerId : Int)
    (req : InstallSnapshotRequest) (resp : InstallSnapshotResponse) :
    LeadershipMove (fun k => node.state.currentTerm = req.term ∧ k = req.lastIncludedIndex) node
      (node.handleInstallSnapshotReply peerId req resp) := by
  have hquiet := Quiet.handleInstallSnapshotReply node peerId req resp
  unfold RaftNode.handleInstallSnapshotReply at hquiet ⊢
  split_ifs at hquiet ⊢ with hnew hleads hmatch
  · exact of_quiet hquiet (by simp [becomeFollower])
  · exact of_same rfl rfl rfl rfl rfl
  · rw [not_or, not_not, not_not] at hleads
    refine .serves hleads.1 hleads.1 rfl (.inl rfl) (fun p => ?_) fun p => ?_
    · exact (update_cases node.nextIndex peerId _ p).imp id
        fun h => .inr ⟨_, ⟨hleads.2, rfl⟩, h.2⟩
    · rcases update_cases node.matchIndex peerId _ p with h | ⟨rfl, h⟩
      · exact .inl h
      · exact .inr ⟨_, ⟨hleads.2, rfl⟩, hmatch, h⟩
  · exact of_same rfl rfl rfl rfl rfl

/-- Only that the acknowledged indices are acknowledged matters. -/
theorem weaken {acked' : Nat → Prop} (h : LeadershipMove acked node node')
    (hacked : ∀ k, acked k → acked' k) : LeadershipMove acked' node node' := by
  cases h with
  | idle hrole hterm hstanding => exact .idle hrole hterm hstanding
  | elected hrole hrole' hterm hlog hnext hmatch =>
      exact .elected hrole hrole' hterm hlog hnext hmatch
  | serves hrole hrole' hterm hlog hnext hmatch =>
      refine .serves hrole hrole' hterm hlog (fun p => ?_) fun p => ?_
      · rcases hnext p with hsame | hback | ⟨k, hk, hnew⟩
        · exact .inl hsame
        · exact .inr (.inl hback)
        · exact .inr (.inr ⟨k, hacked k hk, hnew⟩)
      · rcases hmatch p with hsame | ⟨k, hk, hnew⟩
        · exact .inl hsame
        · exact .inr ⟨k, hacked k hk, hnew⟩

/-- Terms do not decrease. -/
theorem term_le (h : LeadershipMove acked node node') :
    node.state.currentTerm ≤ node'.state.currentTerm := by
  cases h with
  | idle hrole hterm hstanding => exact hterm
  | elected hrole hrole' hterm hlog hnext hmatch => exact hterm.ge
  | serves hrole hrole' hterm hlog hnext hmatch => exact hterm.ge

/-- The log of a leader does not get shorter. -/
theorem lastIndex_le (h : LeadershipMove acked node node') (hrole : node'.role = .leader) :
    node.log.lastIndex ≤ node'.log.lastIndex := by
  cases h with
  | idle hidle hterm hstanding => exact absurd hrole hidle
  | elected hcand hrole' hterm hlog hnext hmatch => rw [hlog]
  | serves hlead hrole' hterm hlog hnext hmatch =>
      rcases hlog with hlog | ⟨command, hlog⟩ | ⟨upToIndex, data, hlt, hlog⟩
      · rw [hlog]
      · rw [hlog, RaftLog.lastIndex_append]
        exact Nat.le_succ _
      · rw [hlog, RaftLog.lastIndex_compact hlt]
        omega

end LeadershipMove

end NanoDB.Raft
