import NanoDB.Lib.Simulation
import NanoDB.Raft.CommitSafety

/-!
# Raft on whole logs

The cluster as it would be had nobody ever compacted a log or sent a snapshot.  A step is one
of the cluster without compaction, or one of three that only this abstract cluster takes: a
leader of some term may have sent any part of its log, a leader may take note of a reply
without looking for a new commit index, and a node may learn that entries it holds are
committed without applying them.  These are what a snapshot does to the whole logs.

Main results:

- Theorem {lit}`WholeStep.safety`: every step keeps the invariants behind commit safety.
- Theorem {lit}`whole_steps_safety`: so do any number of steps, and the history only grows.
-/

namespace NanoDB.Raft

open Lib RaftNode

/-- A request that the log of its term's leader warrants: it carries a part of it, and the
commit index it announces is certified and not behind that part. -/
structure Warranted (c : Membership) (h : History) (req : AppendEntriesRequest) : Prop where
  slice : AppendOk h req
  commit : Certified c h req.term (h.lead req.term) req.leaderCommit
  reach : req.leaderCommit ≤ req.prevLogIndex + req.entries.length

/-- The leader after a reply to a request that it only takes note of. -/
def noteReply (node : RaftNode) (peerId : Int) (req : AppendEntriesRequest) : RaftNode :=
  { node with
    matchIndex := Function.update node.matchIndex peerId (req.prevLogIndex + req.entries.length)
    nextIndex := Function.update node.nextIndex peerId
      (req.prevLogIndex + req.entries.length + 1) }

/-- The node after it learned that its first entries are committed. -/
def learnCommitted (node : RaftNode) (index : Nat) : RaftNode :=
  { node with commitIndex := index, lastApplied := index }

/-- The steps of the cluster with whole logs. -/
inductive WholeStep (c : Membership) : ClusterState × History → ClusterState × History → Prop
  | act {s s' : ClusterState} {h : History} {a : Action} (hok : KeepsSuffixes s a)
      (hstep : step c s a = some s') : WholeStep c (s, h) (s', track s a h)
  | send {s : ClusterState} {h : History} {dst : Int} {req : AppendEntriesRequest}
      (hdst : dst ≠ req.leaderId) (hreq : Warranted c h req) :
      WholeStep c (s, h) ({ s with net := .appendEntries dst req :: s.net }, h)
  | note {s : ClusterState} {h : History} {src : Int} {req : AppendEntriesRequest}
      {resp : AppendEntriesResponse} (hmem : .appendEntriesReply src req resp ∈ s.net)
      (hsucc : resp.success = true) (hrole : (s.node req.leaderId).role = .leader)
      (hterm : (s.node req.leaderId).state.currentTerm = req.term) :
      WholeStep c (s, h) (s.update req.leaderId (noteReply (s.node req.leaderId) src req), h)
  | learn {s : ClusterState} {h : History} {n : Int} {index : Nat}
      (hindex : Certified c h (s.node n).state.currentTerm (s.node n).log.entries index) :
      WholeStep c (s, h) (s.update n (learnCommitted (s.node n) index), h)

section Keeps

variable {c : Membership} {s : ClusterState} {h : History}

/-- A request that is warranted may have been sent. -/
theorem SafetyInv.send (hinv : SafetyInv c s h) {dst : Int} {req : AppendEntriesRequest}
    (hdst : dst ≠ req.leaderId) (hreq : Warranted c h req) :
    SafetyInv c { s with net := .appendEntries dst req :: s.net } h where
  votes := hinv.votes.of_quiet (fun _ => Quiet.refl _) (fun _ _ hm => by simpa using hm)
    (fun _ _ _ hm _ => by simpa using hm) (fun _ _ he => he) rfl rfl rfl (fun _ _ => rfl)
  logs := by
    refine hinv.logs.of_sameLog hinv.votes
      (fun m => ⟨rfl, le_rfl, fun hrole p => hinv.logs.next m p hrole⟩) rfl rfl rfl
      hinv.logs.tasks ?_ ?_ ?_ ?_
    · exact fun dst' r hm => hinv.logs.noInstall dst' r (by simpa using hm)
    · exact fun src r resp hm => hinv.logs.noInstallReply src r resp (by simpa using hm)
    · intro dst' r hm
      rw [List.mem_cons, Message.appendEntries.injEq] at hm
      rcases hm with ⟨rfl, rfl⟩ | hm
      · exact ⟨hdst, hreq.slice⟩
      · exact hinv.logs.append dst' r hm
    · exact fun src r resp hm => hinv.logs.reply src r resp (by simpa using hm)
  acks := hinv.acks.of_calm (fun _ => AckInv.Calm.refl _) (Ledger.Extends.refl h) rfl rfl rfl
    (fun _ _ _ hm _ => by simpa using hm)
  ballots := hinv.ballots.of_still hinv.acks (fun _ => le_rfl)
    (fun _ => BallotInv.StaysCandidate.refl _) (fun _ _ _ hm _ => by simpa using hm)
    (fun _ _ he => he)
  commits := by
    refine ⟨hinv.commits.node, fun dst' r hm => ?_⟩
    rw [List.mem_cons, Message.appendEntries.injEq] at hm
    rcases hm with ⟨-, rfl⟩ | hm
    · exact ⟨hreq.commit, hreq.reach⟩
    · exact hinv.commits.append dst' r hm

/-- A section that changes no log, vote, role or message of a node keeps all but what is known
about acknowledgements and commitment. -/
theorem SafetyInv.of_bookkeeping (hinv : SafetyInv c s h) {n : Int} {node : RaftNode}
    (hid : node.nodeId = (s.node n).nodeId) (hpeers : node.peers = (s.node n).peers)
    (hstate : node.state = (s.node n).state) (hrole : node.role = (s.node n).role)
    (hlog : node.log = (s.node n).log)
    (hnext : node.role = .leader → ∀ p, 1 ≤ node.nextIndex p ∧
      node.nextIndex p ≤ node.log.entries.length + 1)
    (hmatch : node.role = .leader → ∀ p, 0 < node.matchIndex p →
      h.Acked node.state.currentTerm p (node.matchIndex p))
    (hok : NodeOk c h node) : SafetyInv c (s.update n node) h where
  votes := by
    refine hinv.votes.of_quiet (ClusterState.rel_update Quiet.refl ?_) (fun _ _ hm => hm)
      (fun _ _ _ hm _ => hm) (fun _ _ he => he) rfl rfl rfl (fun _ _ => rfl)
    exact ⟨hid, hpeers, .inl hrole, .inl hstate⟩
  logs := by
    refine hinv.logs.of_votes hinv.votes (fun m => ?_) ⟨rfl, rfl, rfl⟩ rfl rfl
      (fun _ hm => .inl hm)
    by_cases hm : m = n
    · subst hm
      rw [ClusterState.update_node, Function.update_self]
      exact ⟨hlog, hstate ▸ le_rfl, hnext⟩
    · rw [ClusterState.update_node, Function.update_of_ne hm]
      exact ⟨rfl, le_rfl, fun hlead p => hinv.logs.next m p hlead⟩
  acks := by
    refine ⟨fun T v k hack => ?_, hinv.acks.selfAck, hinv.acks.replied, fun m p hlead hpos => ?_⟩
    · refine (hinv.acks.held T v k hack).mono (Ledger.Extends.refl h) ?_ ?_
      · by_cases hv : v = n
        · subst hv
          simp [hstate]
        · simp [hv]
      · by_cases hv : v = n
        · subst hv
          simp [hlog]
        · simp [hv]
    · by_cases hm : m = n
      · subst hm
        rw [ClusterState.update_node, Function.update_self] at hlead hpos ⊢
        exact hmatch hlead p hpos
      · rw [ClusterState.update_node, Function.update_of_ne hm] at hlead hpos ⊢
        exact hinv.acks.matched m p hlead hpos
  ballots := by
    refine hinv.ballots.of_still hinv.acks (fun m => ?_) (BallotInv.staysCandidate_update ?_)
      (fun _ _ _ hm _ => hm) (fun _ _ he => he)
    · by_cases hm : m = n
      · subst hm
        simp [hstate]
      · simp [hm]
    · exact fun hcandidate => ⟨hrole ▸ hcandidate, by rw [hstate], hlog⟩
  commits := ⟨hinv.commits.node_of_update (Ledger.Extends.refl h) hok, hinv.commits.append⟩

/-- A leader may take note of an acknowledgement. -/
theorem SafetyInv.note (hinv : SafetyInv c s h) {src : Int} {req : AppendEntriesRequest}
    {resp : AppendEntriesResponse} (hmem : .appendEntriesReply src req resp ∈ s.net)
    (hsucc : resp.success = true) (hrole : (s.node req.leaderId).role = .leader)
    (hterm : (s.node req.leaderId).state.currentTerm = req.term) :
    SafetyInv c (s.update req.leaderId (noteReply (s.node req.leaderId) src req)) h := by
  have hok := hinv.commits.node req.leaderId
  refine hinv.of_bookkeeping rfl rfl rfl rfl rfl (fun _ p => ?_) (fun _ p hpos => ?_)
    ⟨hok.certified, hok.applied⟩
  · simp only [noteReply]
    by_cases hp : p = src
    · subst hp
      have hreach := (hinv.logs.reply p req resp hmem).reach_le
      rw [← hterm, ← hinv.logs.leading _ (hinv.votes.leads _ hrole)] at hreach
      rw [Function.update_self]
      omega
    · rw [Function.update_of_ne hp]
      exact hinv.logs.next _ p hrole
  · simp only [noteReply] at hpos ⊢
    by_cases hp : p = src
    · subst hp
      rw [Function.update_self, hterm]
      exact hinv.acks.replied p req resp hmem hsucc
    · rw [Function.update_of_ne hp] at hpos ⊢
      exact hinv.acks.matched _ p hrole hpos

/-- A node may learn that entries it holds are committed. -/
theorem SafetyInv.learn (hinv : SafetyInv c s h) {n : Int} {index : Nat}
    (hindex : Certified c h (s.node n).state.currentTerm (s.node n).log.entries index) :
    SafetyInv c (s.update n (learnCommitted (s.node n) index)) h :=
  hinv.of_bookkeeping rfl rfl rfl rfl rfl (fun hrole p => hinv.logs.next n p hrole)
    (fun hrole p => hinv.acks.matched n p hrole) ⟨hindex, (hinv.commits.node n).applied⟩

end Keeps

/-- **Step lemma.**  Every step of the cluster with whole logs keeps the invariants behind
commit safety, and the history only grows. -/
theorem WholeStep.safety {c : Membership} {p p' : ClusterState × History}
    (hstep : WholeStep c p p') (hinv : SafetyInv c p.1 p.2) :
    SafetyInv c p'.1 p'.2 ∧ p.2.Extends p'.2 := by
  cases hstep with
  | act hok hstep => exact ⟨hinv.step hok hstep, track_extends hinv.votes hstep⟩
  | send hdst hreq => exact ⟨hinv.send hdst hreq, Ledger.Extends.refl _⟩
  | note hmem hsucc hrole hterm =>
      exact ⟨hinv.note hmem hsucc hrole hterm, Ledger.Extends.refl _⟩
  | learn hindex => exact ⟨hinv.learn hindex, Ledger.Extends.refl _⟩

/-- **Run lemma.**  So do any number of steps. -/
theorem whole_steps_safety {c : Membership} {p p' : ClusterState × History}
    (hsteps : Relation.ReflTransGen (WholeStep c) p p') (hinv : SafetyInv c p.1 p.2) :
    SafetyInv c p'.1 p'.2 ∧ p.2.Extends p'.2 :=
  rel_of_steps (S := fun p p' => p.2.Extends p'.2) (fun p => Ledger.Extends.refl p.2)
    (fun _ _ _ h h' => h.trans h')
    (fun _ _ (h : SafetyInv c _ _) hstep => hstep.safety h) hsteps hinv

end NanoDB.Raft
