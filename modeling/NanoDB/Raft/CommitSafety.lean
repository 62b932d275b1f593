import NanoDB.Raft.Ballot
import NanoDB.Raft.CommitRule

/-!
# Commitment

A commit index is certified when the entries up to it were acknowledged by a
quorum, in the term of the last of them, and are still in the node's log.  Leaders
certify by counting, followers by hearing from a leader.

Main results:

- Theorem {lit}`committed_of_compute`: what the commit rule returns was
  acknowledged by a quorum.
- Theorem {lit}`CommitInv.step`: transitions that drop no matching suffix keep the
  commit invariant.
- Theorem {lit}`committed_entry_kept`: in runs whose steps drop no matching suffix,
  an entry a leader has committed is in the log of every later leader, and no node
  applies anything else at its index.
- Theorem {lit}`committed_entry_lost`: a delayed request that drops a matching
  suffix loses a committed entry.
-/

namespace NanoDB.Raft

open Lib RaftNode

/-! ## The commit rule counts a quorum -/

section Advance

variable {c : Membership} {h : History} {node : RaftNode} {n : Int} {T : Nat}

/-- The nodes counted for a value form a quorum. -/
theorem isQuorum_matched (hid : node.nodeId = n) (hpeers : node.peers = c.peers)
    (hn : n ∈ c.peers) {N last : Nat}
    (hcount : majority node.peers.length ≤
      (last :: (node.stubs.map fun p => (p, node.matchIndex p)).map (·.2)).countP (N ≤ ·)) :
    IsQuorum c.members
      (insert n (node.stubs.filter fun p => decide (N ≤ node.matchIndex p)).toFinset) := by
  have hstub : ∀ p ∈ node.stubs, p ∈ c.peers ∧ p ≠ n := by
    intro p hp
    simpa [stubs, hid, hpeers] using hp
  have hnodup : (node.stubs.filter fun p => decide (N ≤ node.matchIndex p)).Nodup :=
    (List.nodup_dedup _).filter _
  have hnot : n ∉ (node.stubs.filter fun p => decide (N ≤ node.matchIndex p)).toFinset := by
    intro hmem
    exact (hstub n (List.mem_filter.mp (List.mem_toFinset.mp hmem)).1).2 rfl
  constructor
  · intro p hp
    rcases Finset.mem_insert.mp hp with rfl | hp
    · exact List.mem_toFinset.mpr hn
    · exact List.mem_toFinset.mpr (hstub p (List.mem_filter.mp (List.mem_toFinset.mp hp)).1).1
  · rw [Finset.card_insert_of_notMem hnot, List.toFinset_card_of_nodup hnodup, Membership.members,
      List.toFinset_card_of_nodup c.nodup]
    have hle : (last :: (node.stubs.map fun p => (p, node.matchIndex p)).map (·.2)).countP (N ≤ ·) ≤
        (node.stubs.filter fun p => decide (N ≤ node.matchIndex p)).length + 1 := by
      rw [List.countP_cons, List.map_map, List.countP_map, List.countP_eq_length_filter]
      split
      · exact le_rfl
      · exact Nat.le_succ _
    rw [hpeers] at hcount
    unfold majority at hcount
    omega

/-- What the commit rule returns for the leader of a term was acknowledged by a
quorum, in this term. -/
theorem committed_of_compute (hid : node.nodeId = n) (hpeers : node.peers = c.peers)
    (hn : n ∈ c.peers) (hlog : node.log.NoSnapshot) (hterm : node.state.currentTerm = T)
    (hentries : node.log.entries = h.lead T) (hself : h.Acked T n (h.lead T).length)
    (hmatch : ∀ p, 0 < node.matchIndex p → h.Acked T p (node.matchIndex p))
    (hbound : ∀ v k, h.Acked T v k → k ≤ (h.lead T).length) {N : Nat}
    (hN : computeNewCommitIndex node.log.lastIndex (node.stubs.map fun p => (p, node.matchIndex p))
      node.peers.length node.commitIndex node.state.currentTerm node.log.termAt = N)
    (hgt : node.commitIndex < N) :
    Ledger.Committed PersistedEntry.term c.members h T N := by
  obtain ⟨hat, hmem, hcount⟩ := computeNewCommitIndex_gt hN hgt
  have hpos : 0 < N := by omega
  have hle : N ≤ (h.lead T).length := by
    rcases List.mem_cons.mp hmem with rfl | hmem
    · rw [RaftLog.lastIndex_of_noSnapshot hlog, hentries]
    · simp only [List.map_map, List.mem_map, Function.comp_apply] at hmem
      obtain ⟨p, -, rfl⟩ := hmem
      exact hbound p _ (hmatch p hpos)
  refine ⟨⟨(h.lead T)[N - 1], hpos, List.getElem?_eq_getElem _, ?_⟩, _,
    isQuorum_matched hid hpeers hn hcount, ?_⟩
  · rw [RaftLog.termAt_of_noSnapshot hlog hpos, hentries,
      List.getElem?_eq_getElem (by omega), hterm] at hat
    simpa using hat
  · intro v hv
    rcases Finset.mem_insert.mp hv with rfl | hv
    · obtain ⟨k, hk, hack⟩ := hself
      exact ⟨k, hle.trans hk, hack⟩
    · have hge := (List.mem_filter.mp (List.mem_toFinset.mp hv)).2
      rw [decide_eq_true_eq] at hge
      obtain ⟨k, hk, hack⟩ := hmatch v (by omega)
      exact ⟨k, hge.trans hk, hack⟩

end Advance

/-! ## Certified commit indices -/

/-- The first {lit}`i` entries of {lit}`l` were acknowledged by a quorum, in a term
up to {lit}`t`. -/
def Certified (c : Membership) (h : History) (t : Nat) (l : List PersistedEntry) (i : Nat) : Prop :=
  i = 0 ∨ ∃ T k, T ≤ t ∧ Ledger.Committed PersistedEntry.term c.members h T k ∧ i ≤ k ∧
    (h.lead T).take i <+: l

/-- The command was acknowledged by a quorum at the index. -/
def Chosen (c : Membership) (h : History) (i : Nat) (cmd : Bytes) : Prop :=
  ∃ T k e, Ledger.Committed PersistedEntry.term c.members h T k ∧ 0 < i ∧ i ≤ k ∧
    (h.lead T)[i - 1]? = some e ∧ e.command = cmd

section Certificates

variable {c : Membership} {h h' : History} {t t' i : Nat} {l l' : List PersistedEntry}

theorem Certified.mono (hcert : Certified c h t l i) (hext : h.Extends h') (ht : t ≤ t')
    (hl : l <+: l') : Certified c h' t' l' i := by
  rcases hcert with rfl | ⟨T, k, hT, hcom, hik, hp⟩
  · exact .inl rfl
  · refine .inr ⟨T, k, hT.trans ht, hcom.mono hext, hik, ?_⟩
    rw [Ledger.take_lead_eq (hext.lead T) (hik.trans hcom.length_le)]
    exact hp.trans hl

theorem Chosen.mono {cmd : Bytes} (hchosen : Chosen c h i cmd) (hext : h.Extends h') :
    Chosen c h' i cmd := by
  obtain ⟨T, k, e, hcom, hpos, hik, hget, hcmd⟩ := hchosen
  refine ⟨T, k, e, hcom.mono hext, hpos, hik, ?_, hcmd⟩
  obtain ⟨r, hr⟩ := hext.lead T
  rw [← hr, List.getElem?_append_left (List.getElem?_eq_some_iff.mp hget).1, hget]

/-- A certified index lies inside the log. -/
theorem Certified.length_le (hcert : Certified c h t l i) : i ≤ l.length := by
  rcases hcert with rfl | ⟨T, k, -, hcom, hik, hp⟩
  · exact Nat.zero_le _
  · have hlen := hp.length_le
    rwa [List.length_take, min_eq_left (hik.trans hcom.length_le)] at hlen

theorem Certified.anti (hcert : Certified c h t l i) {j : Nat} (hji : j ≤ i) :
    Certified c h t l j := by
  rcases hcert with rfl | ⟨T, k, hT, hcom, hik, hp⟩
  · exact .inl (Nat.le_zero.mp hji)
  · exact .inr ⟨T, k, hT, hcom, hji.trans hik, (List.take_prefix_take_left hji).trans hp⟩

/-- A certificate carries over to a log with the same first entries. -/
theorem Certified.of_take (hcert : Certified c h t l i) (ht : t ≤ t') (hl : l.take i <+: l') :
    Certified c h t' l' i := by
  rcases hcert with rfl | ⟨T, k, hT, hcom, hik, hp⟩
  · exact .inl rfl
  · refine .inr ⟨T, k, hT.trans ht, hcom, hik, ?_⟩
    have htake := List.prefix_iff_eq_take.mp hp
    rw [List.length_take, min_eq_left (hik.trans hcom.length_le)] at htake
    rwa [htake]

/-- The entries up to a certified index are chosen. -/
theorem Certified.chosen (hcert : Certified c h t l i) {j : Nat} (hj : 0 < j) (hji : j ≤ i)
    {e : PersistedEntry} (he : l[j - 1]? = some e) : Chosen c h j e.command := by
  rcases hcert with rfl | ⟨T, k, -, hcom, hik, hp⟩
  · omega
  · refine ⟨T, k, e, hcom, hj, hji.trans hik, ?_, rfl⟩
    have hlt : j - 1 < ((h.lead T).take i).length := by
      rw [List.length_take, min_eq_left (hik.trans hcom.length_le)]
      omega
    have hget := List.prefix_iff_getElem?.mp hp (j - 1) hlt
    rw [← List.getElem?_eq_getElem hlt, he, List.getElem?_take_of_lt (by omega)] at hget
    exact hget.symm

/-- A prefix certified in some term is in the log of the leader of every term from
then on. -/
theorem Certified.lead {s : ClusterState} (hvote : VoteInv c s h) (hlogs : LogInv s h)
    (hballots : BallotInv s h) (hcert : Certified c h t l i) {T' : Nat} (hle : t ≤ T') {n : Int}
    (hn : h.leader T' = some n) : l.take i <+: h.lead T' ∧ Certified c h T' (h.lead T') i := by
  rcases hcert with rfl | ⟨T, k, hT, hcom, hik, hp⟩
  · exact ⟨by simp, .inl rfl⟩
  · have hpre : (h.lead T).take i <+: h.lead T' := by
      rcases (hT.trans hle).lt_or_eq with hlt | rfl
      · exact (List.take_prefix_take_left hik).trans
          ((hballots.complete hvote hlogs hcom hlt hn).trans
            (hlogs.coherent.start_isPrefix T' n hn))
      · exact List.take_prefix _ _
    refine ⟨?_, .inr ⟨T, k, hT.trans hle, hcom, hik, hpre⟩⟩
    have heq : l.take i = (h.lead T).take i := by
      have htake := List.prefix_iff_eq_take.mp hp
      rwa [List.length_take, min_eq_left (hik.trans hcom.length_le), eq_comm] at htake
    rwa [heq]

/-- Two commands chosen at one index are equal. -/
theorem Chosen.unique {s : ClusterState} (hvote : VoteInv c s h) (hlogs : LogInv s h)
    (hballots : BallotInv s h) {cmd cmd' : Bytes} (hchosen : Chosen c h i cmd)
    (hchosen' : Chosen c h i cmd') : cmd = cmd' := by
  obtain ⟨T, k, e, hcom, hpos, hik, hget, rfl⟩ := hchosen
  obtain ⟨T', k', e', hcom', -, hik', hget', rfl⟩ := hchosen'
  have hleader : ∀ {T e}, (h.lead T)[i - 1]? = some e → ∃ n, h.leader T = some n := by
    intro T e hget
    cases hn : h.leader T with
    | none => simp [hlogs.coherent.lead_nil T hn] at hget
    | some n => exact ⟨n, rfl⟩
  -- the later of the two leaders has both entries
  have hlater : ∀ {T k T' e e'}, T < T' → Ledger.Committed PersistedEntry.term c.members h T k →
      i ≤ k → (h.lead T)[i - 1]? = some e → (h.lead T')[i - 1]? = some e' → e = e' := by
    intro T k T' e e' hlt hcom hik hget hget'
    obtain ⟨n, hn⟩ := hleader hget'
    have hp := (hballots.complete hvote hlogs hcom hlt hn).trans
      (hlogs.coherent.start_isPrefix T' n hn)
    have hidx : i - 1 < ((h.lead T).take k).length := by
      rw [List.length_take, min_eq_left hcom.length_le]
      omega
    have := List.prefix_iff_getElem?.mp hp (i - 1) hidx
    rw [← List.getElem?_eq_getElem hidx, List.getElem?_take_of_lt (by omega), hget, hget'] at this
    exact (Option.some.inj this).symm
  rcases Nat.lt_trichotomy T T' with hlt | rfl | hlt
  · rw [hlater hlt hcom hik hget hget']
  · rw [hget, Option.some.injEq] at hget'
    rw [hget']
  · rw [hlater hlt hcom' hik' hget' hget]

end Certificates

/-! ## Applying -/

/-- What is applied is the node's log between the old and the new position. -/
theorem mem_applyTrace_iterate (node : RaftNode) (k : Nat) {i : Nat} {cmd : Bytes}
    (hmem : (i, cmd) ∈ (applyNext^[k] node).applyTrace) :
    (i, cmd) ∈ node.applyTrace ∨
      (node.lastApplied < i ∧ i ≤ node.lastApplied + k ∧ cmd = node.log.commandAt i) := by
  induction k generalizing node with
  | zero => exact .inl hmem
  | succ k ih =>
      rw [Function.iterate_succ_apply] at hmem
      have hnext : node.applyNext.lastApplied = node.lastApplied + 1 ∧
          node.applyNext.log = node.log := by
        unfold applyNext
        dsimp only
        split_ifs <;> exact ⟨rfl, rfl⟩
      rcases ih node.applyNext hmem with hold | ⟨hlt, hle, hcmd⟩
      · unfold applyNext at hold
        dsimp only at hold
        split_ifs at hold with hempty
        · exact .inl hold
        · rw [List.mem_append, List.mem_singleton, Prod.mk.injEq] at hold
          rcases hold with hold | ⟨rfl, rfl⟩
          · exact .inl hold
          · exact .inr ⟨Nat.lt_succ_self _, by omega, rfl⟩
      · rw [hnext.1] at hlt hle
        rw [hnext.2] at hcmd
        exact .inr ⟨by omega, by omega, hcmd⟩

/-- The node's commit index is certified, and so is all it ever applied. -/
structure NodeOk (c : Membership) (h : History) (node : RaftNode) : Prop where
  certified : Certified c h node.state.currentTerm node.log.entries node.commitIndex
  applied : ∀ i cmd, (i, cmd) ∈ node.applyTrace → Chosen c h i cmd

namespace NodeOk

variable {c : Membership} {h h' : History} {node node' : RaftNode}

theorem mono (hok : NodeOk c h node) (hext : h.Extends h')
    (hterm : node.state.currentTerm ≤ node'.state.currentTerm)
    (hlog : node.log.entries <+: node'.log.entries)
    (hcommit : node'.commitIndex = node.commitIndex ∨ node'.commitIndex = 0)
    (htrace : node'.applyTrace = node.applyTrace) : NodeOk c h' node' where
  certified := by
    rcases hcommit with heq | hzero
    · rw [heq]
      exact hok.certified.mono hext hterm hlog
    · exact .inl hzero
  applied i cmd hmem := (hok.applied i cmd (htrace ▸ hmem)).mono hext

/-- Applying up to a certified index applies chosen commands. -/
theorem apply (hlog : node.log.NoSnapshot)
    (happlied : ∀ i cmd, (i, cmd) ∈ node.applyTrace → Chosen c h i cmd)
    (hcert : Certified c h node.state.currentTerm node.log.entries node.commitIndex) :
    NodeOk c h node.applyCommittedEntries where
  certified := by simpa using hcert
  applied i cmd hmem := by
    rcases mem_applyTrace_iterate node _ hmem with hold | ⟨hlt, hle, rfl⟩
    · exact happlied i cmd hold
    · have hi : 0 < i := by omega
      have hidx : i - 1 < node.log.entries.length := by
        have := hcert.length_le
        omega
      have hget := List.getElem?_eq_getElem hidx
      rw [RaftLog.commandAt_of_noSnapshot hlog hi, hget]
      exact hcert.chosen hi (by omega) hget

/-- A leader that advances its commit index stays in order. -/
theorem advance {n : Int} {T : Nat} (hok : NodeOk c h node) (hid : node.nodeId = n)
    (hpeers : node.peers = c.peers) (hn : n ∈ c.peers) (hlog : node.log.NoSnapshot)
    (hterm : node.state.currentTerm = T) (hentries : node.log.entries = h.lead T)
    (hself : h.Acked T n (h.lead T).length)
    (hmatch : ∀ p, 0 < node.matchIndex p → h.Acked T p (node.matchIndex p))
    (hbound : ∀ v k, h.Acked T v k → k ≤ (h.lead T).length) :
    NodeOk c h node.advanceCommitIndex := by
  unfold advanceCommitIndex
  dsimp only
  split_ifs with hgt
  · refine NodeOk.apply hlog hok.applied (.inr ⟨T, _, hterm.ge, ?_, le_rfl, ?_⟩)
    · exact committed_of_compute hid hpeers hn hlog hterm hentries hself hmatch hbound rfl hgt
    · dsimp only
      rw [hentries]
      exact List.take_prefix _ _
  · exact hok

/-- A follower that takes over entries and the commit index of a leader stays in
order. -/
theorem accept {s : ClusterState} (hvote : VoteInv c s h) (hlogs : LogInv s h)
    (hballots : BallotInv s h) {n : Int} {req : AppendEntriesRequest}
    (hok : NodeOk c h (s.node n)) (hmem : .appendEntries n req ∈ s.net)
    (hkeep : dropsMatchingSuffix (s.node n) req = false)
    (hcommit : Certified c h req.term (h.lead req.term) req.leaderCommit)
    (hreach : req.leaderCommit ≤ req.prevLogIndex + req.entries.length)
    (hsucc : ((s.node n).handleAppendEntries req).2.success = true) :
    NodeOk c h ((s.node n).handleAppendEntries req).1 := by
  rcases handleAppendEntries_cases (s.node n) req with ⟨hno, -⟩ |
    ⟨-, hle, hprev, node', hterm, -, hlog, hci, -, htrace, heq⟩
  · rw [hno] at hsucc
    contradiction
  have happend := (hlogs.append n req hmem).2
  have hnoSnap := hlogs.noSnapshot n
  have hfollow := hlogs.follows n
  -- the accepted log keeps the certified prefix
  have hcert : Certified c h req.term (acceptedLog (s.node n).log req).entries
      (s.node n).commitIndex := by
    obtain ⟨hlead, -⟩ := hok.certified.lead hvote hlogs hballots hle happend.leader
    exact hok.certified.of_take hle (prefix_acceptedLog hlogs.coherent happend hnoSnap hfollow hle
      hprev hkeep (List.take_prefix _ _) hlead)
  have hsnap : (acceptedLog (s.node n).log req).NoSnapshot := by
    unfold acceptedLog
    split_ifs
    · exact hnoSnap
    · exact hnoSnap.truncateAndAppend _ _
  have hnew : Certified c h req.term (acceptedLog (s.node n).log req).entries
      (min req.leaderCommit (acceptedLog (s.node n).log req).lastIndex) := by
    refine (hcommit.anti (min_le_left _ _)).of_take le_rfl ?_
    refine (List.take_prefix_take_left ((min_le_left _ _).trans hreach)).trans ?_
    exact take_prefix_acceptedLog hlogs.coherent happend hnoSnap hfollow hprev
  rw [heq, acceptEntries_eq, hlog, hci]
  split_ifs with hgt
  · refine NodeOk.apply hsnap ?_ ?_
    · exact fun i cmd hm => hok.applied i cmd (htrace ▸ hm)
    · simpa only [hterm] using hnew
  · refine ⟨?_, fun i cmd hm => hok.applied i cmd (htrace ▸ hm)⟩
    simpa only [hterm, hci] using hcert

end NodeOk

/-! ## The commit invariant -/

/-- Every commit index, stored or in flight, is certified. -/
structure CommitInv (c : Membership) (s : ClusterState) (h : History) : Prop where
  node : ∀ n, NodeOk c h (s.node n)
  append : ∀ dst req, .appendEntries dst req ∈ s.net →
    Certified c h req.term (h.lead req.term) req.leaderCommit ∧
      req.leaderCommit ≤ req.prevLogIndex + req.entries.length

namespace CommitInv

variable {c : Membership} {s s' : ClusterState} {h h' : History}

theorem init (c : Membership) : CommitInv c (ClusterState.init c) {} where
  node _ := ⟨.inl rfl, fun _ _ hm => absurd hm List.not_mem_nil⟩
  append _ _ hm := absurd hm List.not_mem_nil

/-- The node changes neither its log nor what it committed and applied; a restart
forgets the commit index. -/
structure Still (node node' : RaftNode) : Prop where
  term : node.state.currentTerm ≤ node'.state.currentTerm
  log : node'.log = node.log
  commit : node'.commitIndex = node.commitIndex ∨ node'.commitIndex = 0
  trace : node'.applyTrace = node.applyTrace

theorem Still.refl (node : RaftNode) : Still node node :=
  ⟨le_rfl, rfl, .inl rfl, rfl⟩

theorem Still.observeTerm (node : RaftNode) (term : Nat) : Still node (node.observeTerm term) :=
  ⟨(Quiet.observeTerm node term).voteKept.1, by simp, .inl (by simp), by simp⟩

theorem Still.handleRequestVote (node : RaftNode) (req : RequestVoteRequest) :
    Still node (node.handleRequestVote req).1 := by
  rcases handleRequestVote_cases node req with ⟨-, hnode⟩ | ⟨hyes, -, hfree⟩
  · rw [hnode]
    exact Still.observeTerm node req.term
  · rw [hyes]
    refine ⟨?_, by simp, .inl (by simp), by simp⟩
    dsimp only
    rcases hfree with hlt | ⟨heq, -⟩ <;> omega

theorem Still.rejected {node : RaftNode} {req : AppendEntriesRequest}
    (hno : (node.handleAppendEntries req).2.success = false) :
    Still node (node.handleAppendEntries req).1 := by
  rcases handleAppendEntries_cases node req with ⟨-, hlog, hci, -, htrace⟩ | ⟨hyes, -⟩
  · exact ⟨(Quiet.handleAppendEntries node req).voteKept.1, hlog, .inl hci, htrace⟩
  · rw [hno] at hyes
    contradiction

theorem Still.finishElection (node : RaftNode) (electionTerm votes : Nat) :
    Still node (node.finishElection electionTerm votes) := by
  unfold RaftNode.finishElection
  split <;> exact ⟨le_rfl, rfl, .inl rfl, rfl⟩

/-- Replacing one node while the history grows. -/
theorem node_of_update (hinv : CommitInv c s h) (hext : h.Extends h') {n : Int} {node : RaftNode}
    (hok : NodeOk c h' node) (m : Int) : NodeOk c h' (Function.update s.node n node m) := by
  by_cases hm : m = n
  · subst hm
    rwa [Function.update_self]
  · rw [Function.update_of_ne hm]
    exact (hinv.node m).mono hext le_rfl List.prefix_rfl (.inl rfl) rfl

theorem nodeOk_of_still (hinv : CommitInv c s h) (hext : h.Extends h') (n : Int) {node : RaftNode}
    (hstill : Still (s.node n) node) : NodeOk c h' node :=
  (hinv.node n).mono hext hstill.term (hstill.log ▸ List.prefix_rfl) hstill.commit hstill.trace

/-- Requests that were in flight before stay in order. -/
theorem append_of_old (hinv : CommitInv c s h) (hext : h.Extends h')
    (hold : ∀ dst req, .appendEntries dst req ∈ s'.net → .appendEntries dst req ∈ s.net) :
    ∀ dst req, .appendEntries dst req ∈ s'.net →
      Certified c h' req.term (h'.lead req.term) req.leaderCommit ∧
        req.leaderCommit ≤ req.prevLogIndex + req.entries.length := by
  intro dst req hm
  obtain ⟨hcert, hreach⟩ := hinv.append dst req (hold dst req hm)
  exact ⟨hcert.mono hext le_rfl (hext.lead _), hreach⟩

/-- A leader advances its commit index with the bookkeeping it has. -/
theorem nodeOk_of_advance (hvote : VoteInv c s h) (hlogs : LogInv s h) (hacks : AckInv s h)
    (hinv : CommitInv c s h) {n : Int} (hrole : (s.node n).role = .leader)
    {nextIndex matchIndex : Int → Nat}
    (hmatch : ∀ p, 0 < matchIndex p →
      h.Acked (s.node n).state.currentTerm p (matchIndex p)) :
    NodeOk c h (advanceCommitIndex
      { s.node n with matchIndex := matchIndex, nextIndex := nextIndex }) := by
  have hlead := hvote.leads n hrole
  exact NodeOk.advance ⟨(hinv.node n).certified, (hinv.node n).applied⟩ (hvote.nodeId n)
    (hvote.peers n) (hvote.leader_mem hlead) (hlogs.noSnapshot n) rfl (hlogs.leading n hlead)
    (hacks.selfAck _ n hlead) hmatch (fun v k hack => (hacks.held _ v k hack).length_le)

/-- A reply can make a leader advance its commit index. -/
theorem nodeOk_of_reply (hvote : VoteInv c s h) (hlogs : LogInv s h) (hacks : AckInv s h)
    (hinv : CommitInv c s h) {src : Int} {req : AppendEntriesRequest}
    {resp : AppendEntriesResponse} (hmem : .appendEntriesReply src req resp ∈ s.net) (n : Int) :
    NodeOk c h ((s.node n).handleAppendEntriesReply src req resp) := by
  have hmatched := fun p => hacks.matched_of_reply hmem (n := n) (p := p)
  have hok := hinv.node n
  unfold handleAppendEntriesReply at hmatched ⊢
  dsimp only at hmatched ⊢
  split_ifs at hmatched ⊢ with hnew hstale hsucc hmax hdec
  · exact ⟨hok.certified.mono (Ledger.Extends.refl h) (le_of_lt hnew) List.prefix_rfl, hok.applied⟩
  · exact hok
  · rw [not_or, not_not, not_not] at hstale
    refine hinv.nodeOk_of_advance hvote hlogs hacks hstale.1 fun p hpos => ?_
    simpa using hmatched p (by simpa using hstale.1) (by simpa using hpos)
  · rw [not_or, not_not, not_not] at hstale
    exact hinv.nodeOk_of_advance hvote hlogs hacks hstale.1 fun p => hacks.matched n p hstale.1
  · exact ⟨hok.certified, hok.applied⟩
  · exact hok

/-- A proposal can make the only member of a cluster advance its commit index. -/
theorem nodeOk_of_propose (hvote : VoteInv c s h) (hlogs : LogInv s h) (hacks : AckInv s h)
    (hinv : CommitInv c s h) {n : Int} {command : Bytes} (hrole : (s.node n).role = .leader) :
    NodeOk c (h.extend (s.node n).state.currentTerm n ⟨(s.node n).state.currentTerm, command⟩)
      (advanceCommitIndex
        { s.node n with log := (s.node n).log.append (s.node n).state.currentTerm command }) := by
  have hlead := hvote.leads n hrole
  have hext := Ledger.Extends.extend h (s.node n).state.currentTerm n
    ⟨(s.node n).state.currentTerm, command⟩
  have hself : (h.extend (s.node n).state.currentTerm n
      ⟨(s.node n).state.currentTerm, command⟩).lead (s.node n).state.currentTerm =
      h.lead (s.node n).state.currentTerm ++ [⟨(s.node n).state.currentTerm, command⟩] := by
    simp [Ledger.extend]
  refine NodeOk.advance (n := n) (T := (s.node n).state.currentTerm)
    ((hinv.node n).mono hext le_rfl (by simp) (.inl rfl) rfl) (hvote.nodeId n) (hvote.peers n)
    (hvote.leader_mem hlead) ((hlogs.noSnapshot n).append _ _) rfl ?_ ?_ ?_ ?_
  · rw [hself, RaftLog.append_entries, hlogs.leading n hlead]
  · exact (acked_insert rfl).mpr (.inl ⟨rfl, rfl, by simp [hself]⟩)
  · exact fun p hpos => (hacks.matched n p hrole hpos).mono hext.acks
  · intro v k hack
    rw [hself, List.length_append, List.length_singleton]
    rcases (acked_insert rfl).mp hack with ⟨-, -, hle⟩ | hold
    · exact hle
    · exact (hacks.held _ v k hold).length_le.trans (Nat.le_succ _)

/-- A request announces a certified commit index that it reaches. -/
theorem append_of_build (hvote : VoteInv c s h) (hlogs : LogInv s h) (hinv : CommitInv c s h)
    {n : Int} {task : SendTask} {req : AppendEntriesRequest} (htask : (n, task) ∈ s.checked)
    (hreq : (s.node n).buildAppendEntries task = some req) :
    Certified c h req.term (h.lead req.term) req.leaderCommit ∧
      req.leaderCommit ≤ req.prevLogIndex + req.entries.length := by
  obtain ⟨hrole, hterm, rfl⟩ := buildAppendEntries_eq_some hreq
  obtain ⟨-, hpos, hle⟩ := hlogs.tasks n task (.inr htask)
  have hentries := hlogs.leading n (hvote.leads n hrole)
  have hcert := (hinv.node n).certified
  have hlen := hcert.length_le
  rw [hentries, hterm] at hcert hlen
  refine ⟨hcert, ?_⟩
  dsimp only
  rw [entriesFrom, List.length_map, List.length_range,
    RaftLog.lastIndex_of_noSnapshot (hlogs.noSnapshot n), hentries, hterm]
  omega

/-- **Step lemma.**  Transitions that drop no matching suffix keep the commit
invariant. -/
theorem step (hvote : VoteInv c s h) (hlogs : LogInv s h) (hacks : AckInv s h)
    (hballots : BallotInv s h) (hinv : CommitInv c s h) {a : Action} (hok : KeepsSuffixes s a)
    (hstep : step c s a = some s') : CommitInv c s' (track s a h) := by
  have hext := track_extends hvote hstep
  cases step_cases hstep with
  | @startElection n hn hrole hidle =>
      have hstill : Still (s.node n) (s.node n).startElection.1 :=
        ⟨Nat.le_succ _, rfl, .inl rfl, rfl⟩
      exact ⟨hinv.node_of_update hext (hinv.nodeOk_of_still hext n hstill),
        hinv.append_of_old hext fun _ _ hm => by simpa using hm⟩
  | handleRequestVote hmem =>
      exact ⟨hinv.node_of_update hext (hinv.nodeOk_of_still hext _ (Still.handleRequestVote _ _)),
        hinv.append_of_old hext fun _ _ hm => by simpa using hm⟩
  | @handleRequestVoteReply src req resp hmem hel =>
      refine ⟨hinv.node_of_update hext (hinv.nodeOk_of_still hext req.candidateId ?_),
        hinv.append_of_old hext fun _ _ hm => hm⟩
      unfold RaftNode.handleRequestVoteReply
      split
      · exact Still.observeTerm _ _
      · exact Still.refl _
  | finishElection hel hnodup hcount =>
      exact ⟨hinv.node_of_update hext (hinv.nodeOk_of_still hext _ (Still.finishElection _ _ _)),
        hinv.append_of_old hext fun _ _ hm => hm⟩
  | proposeRefused hrole =>
      rw [track, if_neg hrole]
      exact hinv
  | @propose n command node call hn hcall =>
      obtain ⟨hrole, rfl, -⟩ := propose_eq_some hcall
      rw [track, if_pos hrole] at hext ⊢
      exact ⟨hinv.node_of_update hext (hinv.nodeOk_of_propose hvote hlogs hacks hrole),
        hinv.append_of_old hext fun _ _ hm => hm⟩
  | @sendAppendEntries n task req hmem hreq =>
      refine ⟨hinv.node, fun dst r hm => ?_⟩
      rw [List.mem_cons, Message.appendEntries.injEq] at hm
      rcases hm with ⟨-, rfl⟩ | hm
      · exact hinv.append_of_build hvote hlogs hmem hreq
      · exact hinv.append dst r hm
  | @handleAppendEntries n req hmem =>
      refine ⟨hinv.node_of_update hext ?_, hinv.append_of_old hext fun _ _ hm => by simpa using hm⟩
      cases hsucc : ((s.node n).handleAppendEntries req).2.success with
      | true =>
          obtain ⟨hcommit, hreach⟩ := hinv.append n req hmem
          have haccept := (hinv.node n).accept hvote hlogs hballots hmem hok hcommit hreach hsucc
          exact haccept.mono hext le_rfl List.prefix_rfl (.inl rfl) rfl
      | false => exact hinv.nodeOk_of_still hext _ (Still.rejected hsucc)
  | handleAppendEntriesReply hmem =>
      exact ⟨hinv.node_of_update hext (hinv.nodeOk_of_reply hvote hlogs hacks hmem _),
        hinv.append_of_old hext fun _ _ hm => hm⟩
  | @handleInstallSnapshot n req hmem => exact absurd hmem (hlogs.noInstall n req)
  | @handleInstallSnapshotReply src req resp hmem =>
      exact absurd hmem (hlogs.noInstallReply src req resp)
  | compact => exact absurd hok not_false
  | @restart n =>
      refine ⟨hinv.node_of_update hext (hinv.nodeOk_of_still hext n ?_),
        hinv.append_of_old hext fun _ _ hm => hm⟩
      exact ⟨le_rfl, rfl, .inr (hlogs.noSnapshot n).1, rfl⟩
  | @crashAfterStepDown n m term hmem hnew =>
      refine ⟨hinv.node_of_update hext (hinv.nodeOk_of_still hext n ?_),
        hinv.append_of_old hext fun _ _ hm => hm⟩
      exact ⟨hnew.le, rfl, .inr (hlogs.noSnapshot n).1, rfl⟩
  | sendSnapshot hmem hreq =>
      exact ⟨hinv.node, hinv.append_of_old hext fun _ _ hm => by simpa using hm⟩
  | replicate hn => exact ⟨hinv.node, hinv.append⟩
  | sendChecked hmem hgo => exact ⟨hinv.node, hinv.append⟩
  | sendStop => exact hinv
  | sendRefused => exact hinv

end CommitInv

/-! ## Committed entries stay -/

/-- All that holds of a tracked run without dropped suffixes. -/
structure SafetyInv (c : Membership) (s : ClusterState) (h : History) : Prop where
  votes : VoteInv c s h
  logs : LogInv s h
  acks : AckInv s h
  ballots : BallotInv s h
  commits : CommitInv c s h

namespace SafetyInv

variable {c : Membership} {s s' : ClusterState} {h h' : History}

theorem init (c : Membership) : SafetyInv c (ClusterState.init c) {} :=
  ⟨VoteInv.init c, LogInv.init c, AckInv.init c, BallotInv.init c, CommitInv.init c⟩

theorem step (hinv : SafetyInv c s h) {a : Action} (hok : KeepsSuffixes s a)
    (hstep : step c s a = some s') : SafetyInv c s' (track s a h) where
  votes := hinv.votes.step hstep
  logs := hinv.logs.step hinv.votes hok.noCompaction hstep
  acks := hinv.acks.step hinv.votes hinv.logs hok hstep
  ballots := hinv.ballots.step hinv.votes hinv.logs hinv.acks hok.noCompaction hstep
  commits := hinv.commits.step hinv.votes hinv.logs hinv.acks hinv.ballots hok hstep

/-- **Run lemma.**  The invariants hold at the end of every tracked run whose steps
drop no matching suffix. -/
theorem tracked {p p' : ClusterState × History} {as : List Action}
    (hrun : Exec (trackedStep c) (fun p a => KeepsSuffixes p.1 a) p as p')
    (hinv : SafetyInv c p.1 p.2) : SafetyInv c p'.1 p'.2 := by
  refine hrun.invariant (fun q => SafetyInv c q.1 q.2) ?_ hinv
  intro q a q' hq hok hstep
  obtain ⟨hs, hh⟩ := instrument_eq_some.mp hstep
  rw [hh]
  exact hq.step hok hs

end SafetyInv

/-- The log has the entry at the absolute index. -/
def RaftLog.Holds (log : RaftLog) (i : Nat) (e : PersistedEntry) : Prop :=
  log.hasEntryAt i = true ∧ log.termAt i = e.term ∧ log.commandAt i = e.command

instance (log : RaftLog) (i : Nat) (e : PersistedEntry) : Decidable (log.Holds i e) :=
  inferInstanceAs (Decidable (_ ∧ _ ∧ _))

theorem RaftLog.holds_iff {log : RaftLog} (hlog : log.NoSnapshot) {i : Nat} {e : PersistedEntry} :
    log.Holds i e ↔ 0 < i ∧ log.entries[i - 1]? = some e := by
  constructor
  · rintro ⟨hhas, hterm, hcmd⟩
    obtain ⟨hpos, e', hget, hterm', hcmd'⟩ := getElem?_of_hasEntryAt hlog hhas
    refine ⟨hpos, ?_⟩
    rw [hget, Option.some.injEq]
    cases e
    cases e'
    simp_all
  · rintro ⟨hpos, hget⟩
    have hlt := (List.getElem?_eq_some_iff.mp hget).1
    refine ⟨?_, ?_, ?_⟩
    · simp only [hasEntryAt, lastIndex_of_noSnapshot hlog, Bool.and_eq_true, decide_eq_true_eq]
      omega
    · rw [termAt_of_noSnapshot hlog hpos, hget]
      rfl
    · rw [commandAt_of_noSnapshot hlog hpos, hget]
      rfl

/-- What some leader has committed in {lit}`s` is, in {lit}`s'`, in the log of every
leader of a later term, and nothing else has been applied at its index. -/
def CommittedKept (s s' : ClusterState) : Prop :=
  ∀ n i e, (s.node n).role = .leader → i ≤ (s.node n).commitIndex → (s.node n).log.Holds i e →
    (∀ m, (s'.node m).role = .leader →
      (s.node n).state.currentTerm < (s'.node m).state.currentTerm → (s'.node m).log.Holds i e) ∧
    ∀ m cmd, (i, cmd) ∈ (s'.node m).applyTrace → cmd = e.command

/-- Leaders of two histories, one of which extends the other, keep what the other's
leaders committed. -/
theorem SafetyInv.committedKept {c : Membership} {s s' t : ClusterState} {h h' k : History}
    (hinv : SafetyInv c s h) (hinv' : SafetyInv c s' h') (hlast : SafetyInv c t k)
    (hext : h.Extends k) (hext' : h'.Extends k) : CommittedKept s s' := by
  intro n i e hrole hi hholds
  obtain ⟨hpos, hget⟩ := (RaftLog.holds_iff (hinv.logs.noSnapshot n)).mp hholds
  have hcert := ((hinv.commits.node n).certified.anti hi).mono hext le_rfl List.prefix_rfl
  constructor
  · intro m hm hlt
    rw [RaftLog.holds_iff (hinv'.logs.noSnapshot m)]
    refine ⟨hpos, ?_⟩
    have hleads := hinv'.votes.leads m hm
    have hleads' := hext'.leader _ _ hleads
    rw [hinv'.logs.leading m hleads]
    rcases hcert with rfl | ⟨T, j, hT, hcom, hij, hp⟩
    · omega
    · have hstart := hlast.ballots.complete hlast.votes hlast.logs hcom (hT.trans_lt hlt) hleads'
      rw [hext'.start _ _ hleads] at hstart
      have hlead := hstart.trans (hinv'.logs.coherent.start_isPrefix _ _ hleads)
      have hidx : i - 1 < ((k.lead T).take i).length := by
        rw [List.length_take, min_eq_left (hij.trans hcom.length_le)]
        omega
      have hmine := List.prefix_iff_getElem?.mp hp (i - 1) hidx
      have htheirs := List.prefix_iff_getElem?.mp
        ((List.take_prefix_take_left hij).trans hlead) (i - 1) hidx
      rw [htheirs, ← hmine, hget]
  · intro m cmd hmem
    have hchosen := ((hinv'.commits.node m).applied i cmd hmem).mono hext'
    exact hchosen.unique hlast.votes hlast.logs hlast.ballots (hcert.chosen hpos le_rfl hget)

/-- **Committed entries are never lost.**  In every run in which no node compacts and
no handled request drops a matching suffix, between any two states in either order:
what a leader has committed is in the log of every leader of a later term, and no
node ever applies another command at its index. -/
theorem committed_entry_kept (c : Membership) {as as' : List Action} {s s' : ClusterState}
    (hrun : Runs c KeepsSuffixes (ClusterState.init c) as s)
    (hrun' : Runs c KeepsSuffixes s as' s') :
    CommittedKept s s' ∧ CommittedKept s' s := by
  obtain ⟨h, htracked⟩ := hrun.instrument track {}
  obtain ⟨h', htracked'⟩ := hrun'.instrument track h
  have hinv : SafetyInv c s h := SafetyInv.tracked htracked (SafetyInv.init c)
  have hinv' : SafetyInv c s' h' := SafetyInv.tracked htracked' hinv
  obtain ⟨-, hext⟩ := VoteInv.tracked htracked' hinv.votes
  exact ⟨hinv.committedKept hinv' hinv' hext (Ledger.Extends.refl h'),
    hinv'.committedKept hinv hinv' (Ledger.Extends.refl h') hext⟩

/-- Node 0 leads in term 1, sends its first entry to node 1, then sends both of its
entries to node 1 and commits the second with its acknowledgement. -/
def commitTwo : List Action :=
  [.startElection 0, .handleRequestVote 1 ⟨1, 0, 0, 0⟩, .finishElection 0 [1],
    .propose 0 [97], .replicate 0, .sendCheck 0 ⟨1, 1, 1⟩, .sendAppendEntries 0 ⟨1, 1, 1⟩,
    .propose 0 [98], .replicate 0, .sendCheck 0 ⟨1, 1, 1⟩, .sendAppendEntries 0 ⟨1, 1, 1⟩,
    .handleAppendEntries 1 ⟨1, 0, 0, 0, [⟨1, 1, [97]⟩, ⟨1, 2, [98]⟩], 0⟩,
    .handleAppendEntriesReply 1 ⟨1, 0, 0, 0, [⟨1, 1, [97]⟩, ⟨1, 2, [98]⟩], 0⟩ ⟨1, true⟩]

/-- Node 1 is elected in term 2 with the vote of node 2. -/
def secondElection : List Action :=
  [.startElection 1, .handleRequestVote 2 ⟨2, 1, 2, 1⟩, .finishElection 1 [2]]

theorem committed_entry_kept_secondElection :
    ∃ s s', Runs threeNodes KeepsSuffixes (ClusterState.init threeNodes) commitTwo s ∧
      Runs threeNodes KeepsSuffixes s secondElection s' ∧
      (s.node 0).commitIndex = 2 ∧ (s'.node 1).role = .leader ∧
      (s'.node 1).log.Holds 2 ⟨1, [98]⟩ := by
  have hrun := Exec.of_guardedRun (step threeNodes) KeepsSuffixes (ClusterState.init threeNodes)
    commitTwo (by decide)
  have hrun' := Exec.of_guardedRun (step threeNodes) KeepsSuffixes ((guardedRun (step threeNodes)
    KeepsSuffixes (ClusterState.init threeNodes) commitTwo).get (by decide)) secondElection
    (by decide)
  have hkept := (committed_entry_kept threeNodes hrun hrun').1
  refine ⟨_, _, hrun, hrun', by decide, by decide, ?_⟩
  exact (hkept 0 2 ⟨1, [98]⟩ (by decide) (by decide) (by decide)).1 1 (by decide) (by decide)

/-- The first request reaches node 1 after the second one: node 1 drops the
committed entry and is elected without it. -/
def lateRequest : List Action :=
  [.handleAppendEntries 1 ⟨1, 0, 0, 0, [⟨1, 1, [97]⟩], 0⟩,
    .startElection 1, .handleRequestVote 2 ⟨2, 1, 1, 1⟩, .finishElection 1 [2]]

/-- In a run without compaction a committed entry can be lost. -/
theorem committed_entry_lost :
    ∃ s s', Runs threeNodes NoCompaction (ClusterState.init threeNodes) commitTwo s ∧
      Runs threeNodes NoCompaction s lateRequest s' ∧ ¬ CommittedKept s s' := by
  have hrun := Exec.of_guardedRun (step threeNodes) NoCompaction (ClusterState.init threeNodes)
    commitTwo (by decide)
  have hrun' := Exec.of_guardedRun (step threeNodes) NoCompaction ((guardedRun (step threeNodes)
    NoCompaction (ClusterState.init threeNodes) commitTwo).get (by decide)) lateRequest (by decide)
  refine ⟨_, _, hrun, hrun', fun hkept => ?_⟩
  have hholds := (hkept 0 2 ⟨1, [98]⟩ (by decide) (by decide) (by decide)).1 1 (by decide)
    (by decide)
  revert hholds
  decide

end NanoDB.Raft
