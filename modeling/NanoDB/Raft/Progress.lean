import Mathlib.Data.Finset.Lattice.Fold
import Mathlib.Data.Finset.Max
import Mathlib.Data.Prod.Lex
import NanoDB.Raft.CatchUp
import NanoDB.Raft.CommitRule

/-!
# Commands can always be committed

Whatever happened to a cluster so far, messages lost or late, restarts, compactions, logs cut
off, it is never in a state from which nothing more can be committed.  If from now on nothing
fails, some node can win an election, take a command and get it into the log of every peer.

The run is built in phases: some node stops leading, it raises its term above all others until
nobody leads, the node with the most recent log is elected, and it exchanges messages with one
peer after the other.

Main results:

- Theorem {lit}`exchange_possible`: an undisturbed exchange is a run of the cluster.
- Theorem {lit}`command_can_be_committed`: from every reachable state a command can be
  committed on all members by a run without failures.
-/

namespace NanoDB.Raft

open Lib RaftNode RaftLog Pair

/-- The side condition of a run without failures: no node restarts or crashes, and no log is
compacted. -/
def FailureFree (_ : ClusterState) : Action → Prop
  | .compact .. | .restart _ | .crashAfterStepDown .. => False
  | _ => True

/-- The side condition of a run without failures and without proposals. -/
def Unattended (s : ClusterState) : Action → Prop
  | .propose .. => False
  | a => FailureFree s a

/-- A run without failures and proposals leads to a state with the property. -/
abbrev CanReach (c : Membership) (P : ClusterState → Prop) (s : ClusterState) : Prop :=
  Possible (step c) Unattended P s

/-- What every reachable state satisfies: the vote invariant for some history, and positive terms
of the nodes that stood for election. -/
structure Formed (c : Membership) (s : ClusterState) : Prop where
  voteInv : ∃ h, VoteInv c s h
  elected : ∀ n, Elected (s.node n)

section

variable {c : Membership} {s s' : ClusterState}

theorem Formed.init (c : Membership) : Formed c (ClusterState.init c) :=
  ⟨⟨_, VoteInv.init c⟩, (IndicesInv.init c).elected⟩

theorem Formed.step {a : Action} (h : Formed c s) (hstep : NanoDB.Raft.step c s a = some s') :
    Formed c s' := by
  rcases h with ⟨⟨h, hinv⟩, helected⟩
  exact ⟨⟨_, hinv.step hstep⟩, Elected.step helected hstep⟩

theorem Formed.nodeId (h : Formed c s) (n : Int) : (s.node n).nodeId = n := by
  rcases h.voteInv with ⟨h, hinv⟩
  exact hinv.nodeId n

theorem Formed.peers (h : Formed c s) (n : Int) : (s.node n).peers = c.peers := by
  rcases h.voteInv with ⟨h, hinv⟩
  exact hinv.peers n

theorem Formed.mem_stubs (h : Formed c s) {n m : Int} :
    m ∈ (s.node n).stubs ↔ m ∈ c.peers ∧ m ≠ n := by
  simp [stubs, h.nodeId, h.peers]

/-- The states that a run can lead to are formed. -/
theorem Formed.keeping {P : ClusterState → Prop} (h : Formed c s) (hreach : CanReach c P s) :
    CanReach c (fun t => Formed c t ∧ P t) s :=
  hreach.keeping (Formed c) (fun _ _ _ hinv _ hstep => hinv.step hstep) h

/-! ## Enabled actions -/

namespace CanReach

variable {P : ClusterState → Prop} {n : Int}

theorem startElection (hn : n ∈ c.peers) (hrole : (s.node n).role ≠ .leader)
    (hidle : s.election n = none)
    (h : CanReach c P ((s.update n (s.node n).startElection.1
      ((s.node n).startElection.1.stubs.map fun p =>
        .requestVote p (s.node n).startElection.2)).setElection n
          (some (s.node n).startElection.2))) : CanReach c P s :=
  Possible.cons (a := .startElection n) trivial (if_pos ⟨hn, hrole, hidle⟩) h

theorem handleRequestVote {req : RequestVoteRequest} (hmem : .requestVote n req ∈ s.net)
    (h : CanReach c P (s.update n ((s.node n).handleRequestVote req).1
      [.requestVoteReply n req ((s.node n).handleRequestVote req).2])) : CanReach c P s :=
  Possible.cons (a := .handleRequestVote n req) trivial (if_pos hmem) h

theorem finishElection (granted : List Int) {req : RequestVoteRequest}
    (hel : s.election n = some req) (hnodup : granted.Nodup)
    (hcount : ∀ p ∈ granted, p ∈ (s.node n).stubs ∧ voteCounted s.net p req = true)
    (h : CanReach c P ((s.update n ((s.node n).finishElection req.term
      (1 + granted.length))).setElection n none)) : CanReach c P s := by
  refine Possible.cons (a := .finishElection n granted) trivial ?_ h
  rw [step, hel]
  exact if_pos ⟨hnodup, hcount⟩

theorem replicate (hn : n ∈ c.peers)
    (h : CanReach c P
      { s with tasks := ((s.node n).replicateToFollowers.map fun t => (n, t)) ++ s.tasks }) :
    CanReach c P s :=
  Possible.cons (a := .replicate n) trivial (if_pos hn) h

theorem sendSnapshot {task : SendTask} {req : InstallSnapshotRequest}
    (hmem : (n, task) ∈ s.tasks) (hreq : (s.node n).sendCheck task = .snapshot req)
    (h : CanReach c P { s with net := .installSnapshot task.peerId req :: s.net }) :
    CanReach c P s := by
  refine Possible.cons (a := .sendCheck n task) trivial ?_ h
  rw [step, if_pos hmem, hreq]

theorem sendAppend {task : SendTask} {req : AppendEntriesRequest} (hmem : (n, task) ∈ s.tasks)
    (hgo : (s.node n).sendCheck task = .append)
    (hreq : (s.node n).buildAppendEntries task = some req)
    (h : CanReach c P
      { s with
        checked := (n, task) :: s.checked
        net := .appendEntries task.peerId req :: s.net }) : CanReach c P s := by
  refine Possible.cons (a := .sendCheck n task) trivial
    ((if_pos hmem).trans (by rw [hgo])) ?_
  refine Possible.cons (a := .sendAppendEntries n task) trivial
    ((if_pos List.mem_cons_self).trans ?_) h
  dsimp only
  rw [hreq]

theorem handleAppendEntries {req : AppendEntriesRequest} (hmem : .appendEntries n req ∈ s.net)
    (h : CanReach c P (s.update n ((s.node n).handleAppendEntries req).1
      [.appendEntriesReply n req ((s.node n).handleAppendEntries req).2])) : CanReach c P s :=
  Possible.cons (a := .handleAppendEntries n req) trivial (if_pos hmem) h

theorem handleAppendEntriesReply {req : AppendEntriesRequest} {resp : AppendEntriesResponse}
    (hmem : .appendEntriesReply n req resp ∈ s.net)
    (h : CanReach c P (s.update req.leaderId
      ((s.node req.leaderId).handleAppendEntriesReply n req resp))) : CanReach c P s :=
  Possible.cons (a := .handleAppendEntriesReply n req resp) trivial (if_pos hmem) h

theorem handleInstallSnapshot {req : InstallSnapshotRequest}
    (hmem : .installSnapshot n req ∈ s.net)
    (h : CanReach c P (s.update n ((s.node n).handleInstallSnapshot req).1
      [.installSnapshotReply n req ((s.node n).handleInstallSnapshot req).2])) :
    CanReach c P s :=
  Possible.cons (a := .handleInstallSnapshot n req) trivial (if_pos hmem) h

theorem handleInstallSnapshotReply {req : InstallSnapshotRequest}
    {resp : InstallSnapshotResponse} (hmem : .installSnapshotReply n req resp ∈ s.net)
    (h : CanReach c P (s.update req.leaderId
      ((s.node req.leaderId).handleInstallSnapshotReply n req resp))) : CanReach c P s :=
  Possible.cons (a := .handleInstallSnapshotReply n req resp) trivial (if_pos hmem) h

end CanReach

/-! ## An exchange in a cluster -/

/-- The nodes after an exchange between two of them. -/
def exchanged (s : ClusterState) (n m : Int) : Int → RaftNode :=
  Function.update (Function.update s.node m (exchange ⟨s.node n, s.node m⟩).follower) n
    (exchange ⟨s.node n, s.node m⟩).leader

/-- An exchange between a leader and a peer is a run of the cluster. -/
theorem exchange_possible (hformed : Formed c s) {n m : Int} (hn : n ∈ c.peers)
    (hm : m ∈ c.peers) (hne : m ≠ n) (hleads : (s.node n).role = .leader) :
    CanReach c (fun t => t.node = exchanged s n m) s := by
  have hid := hformed.nodeId m
  have hleader := hformed.nodeId n
  let p : Pair := ⟨s.node n, s.node m⟩
  have htask : (n, p.task) ∈
      ((s.node n).replicateToFollowers.map fun t => (n, t)) ++ s.tasks := by
    refine List.mem_append_left _ ?_
    rw [replicateToFollowers, if_neg (by simp [hleads]), List.map_map]
    exact List.mem_map.mpr ⟨m, hformed.mem_stubs.mpr ⟨hm, hne⟩, by simp [p, task, next, hid]⟩
  have hpeer : p.task.peerId = m := hid
  refine CanReach.replicate hn ?_
  cases hdecision : (s.node n).sendCheck p.task with
  | stop =>
      unfold sendCheck at hdecision
      rw [if_neg (by simp [hleads, task, p])] at hdecision
      split at hdecision <;> contradiction
  | snapshot req =>
      have hreq : req.leaderId = n := by
        unfold sendCheck at hdecision
        split_ifs at hdecision
        cases hdecision
        exact hleader
      have hexchange : exchange p =
          ⟨(s.node n).handleInstallSnapshotReply m req ((s.node m).handleInstallSnapshot req).2,
            ((s.node m).handleInstallSnapshot req).1⟩ := by
        rw [exchange, hdecision]
        dsimp only [p]
        rw [hid]
      have hsent : .installSnapshot m req ∈ Message.installSnapshot p.task.peerId req :: s.net := by
        rw [hpeer]
        exact List.mem_cons_self
      refine CanReach.sendSnapshot htask hdecision (CanReach.handleInstallSnapshot hsent
        (CanReach.handleInstallSnapshotReply List.mem_cons_self (Possible.here ?_)))
      rw [exchanged, hexchange, hreq]
      simp only [ClusterState.update_node, Function.update_of_ne hne.symm]
  | append =>
      obtain ⟨req, hreq⟩ : ∃ req, (s.node n).buildAppendEntries p.task = some req := by
        unfold buildAppendEntries
        rw [if_neg (by simp [hleads, task, p])]
        exact ⟨_, rfl⟩
      have hid' : req.leaderId = n := by
        rw [(buildAppendEntries_eq_some hreq).2.2]
        exact hleader
      have hexchange : exchange p =
          ⟨(s.node n).handleAppendEntriesReply m req ((s.node m).handleAppendEntries req).2,
            ((s.node m).handleAppendEntries req).1⟩ := by
        rw [exchange, hdecision]
        dsimp only [p]
        rw [hreq]
        dsimp only
        rw [hid]
      have hsent : .appendEntries m req ∈ Message.appendEntries p.task.peerId req :: s.net := by
        rw [hpeer]
        exact List.mem_cons_self
      refine CanReach.sendAppend htask hdecision hreq (CanReach.handleAppendEntries hsent
        (CanReach.handleAppendEntriesReply List.mem_cons_self (Possible.here ?_)))
      rw [exchanged, hexchange, hid']
      simp only [ClusterState.update_node, Function.update_of_ne hne.symm]

/-! ## Nobody leads -/

/-- A majority of two or more nodes is more than one vote. -/
theorem one_lt_majority {clusterSize : Nat} (h : 1 < clusterSize) : 1 < majority clusterSize := by
  unfold majority
  omega

/-- An election that is left without votes ends, and changes no node. -/
theorem canReach_idle (hformed : Formed c s) (hsize : 1 < c.peers.length) (n : Int) :
    CanReach c (fun t => t.node = s.node ∧ t.election n = none) s := by
  cases hel : s.election n with
  | none => exact Possible.here ⟨rfl, hel⟩
  | some req =>
      have hlose : (s.node n).finishElection req.term 1 = s.node n := by
        have hmajority := one_lt_majority hsize
        rw [finishElection, hformed.peers, if_neg (by omega)]
      refine CanReach.finishElection (n := n) [] hel List.nodup_nil
        (fun p hp => absurd hp List.not_mem_nil) (Possible.here ⟨?_, ?_⟩)
      · simp [hlose]
      · simp

/-- A node that does not lead raises its term by any amount. -/
theorem canReach_raise (hformed : Formed c s) (hsize : 1 < c.peers.length) {p : Int}
    (hp : p ∈ c.peers) (hrole : (s.node p).role ≠ .leader) (hidle : s.election p = none)
    (k : Nat) :
    CanReach c (fun t => (t.node p).role ≠ .leader ∧ t.election p = none ∧
      (t.node p).state.currentTerm = (s.node p).state.currentTerm + k ∧
      ∀ m ≠ p, t.node m = s.node m) s := by
  induction k with
  | zero => exact Possible.here ⟨hrole, hidle, rfl, fun _ _ => rfl⟩
  | succ k ih =>
      refine (hformed.keeping ih).bind fun t ht => ?_
      obtain ⟨hformed', hrole', hidle', hterm, hothers⟩ := ht
      have hlose : (t.node p).startElection.1.finishElection
          (t.node p).startElection.2.term 1 = (t.node p).startElection.1 := by
        have hmajority := one_lt_majority hsize
        have hpeers : (t.node p).startElection.1.peers = c.peers := hformed'.peers p
        rw [finishElection, hpeers, if_neg (by omega)]
      refine CanReach.startElection hp hrole' hidle' ?_
      refine CanReach.finishElection (n := p) [] (Function.update_self _ _ _) List.nodup_nil
        (fun q hq => absurd hq List.not_mem_nil) (Possible.here ?_)
      have hnode : ((t.node p).startElection.1).finishElection (t.node p).startElection.2.term
          (1 + ([] : List Int).length) = (t.node p).startElection.1 := hlose
      simp only [ClusterState.setElection_node, ClusterState.update_node, Function.update_self,
        ClusterState.setElection_election, hnode]
      refine ⟨by simp [startElection], trivial, ?_, fun m hm => ?_⟩
      · simp only [startElection]
        omega
      · rw [Function.update_of_ne hm, Function.update_of_ne hm, hothers m hm]

/-- The requests of a candidate reach some of its peers. -/
theorem canReach_votes (req : RequestVoteRequest) (ms : List Int) (hnodup : ms.Nodup)
    (hsent : ∀ m ∈ ms, .requestVote m req ∈ s.net) :
    CanReach c (fun t => t.election = s.election ∧ (∀ x ∈ s.net, x ∈ t.net) ∧
      (∀ m ∉ ms, t.node m = s.node m) ∧
      ∀ m ∈ ms, t.node m = ((s.node m).handleRequestVote req).1 ∧
        .requestVoteReply m req ((s.node m).handleRequestVote req).2 ∈ t.net) s := by
  induction ms generalizing s with
  | nil =>
      exact Possible.here
        ⟨rfl, fun _ h => h, fun _ _ => rfl, fun m hm => absurd hm List.not_mem_nil⟩
  | cons m ms ih =>
      obtain ⟨hm, hrest⟩ := List.nodup_cons.mp hnodup
      refine CanReach.handleRequestVote (hsent m List.mem_cons_self) ?_
      refine (ih hrest fun q hq =>
        List.mem_append_right _ (hsent q (List.mem_cons_of_mem _ hq))).mono fun t ht => ?_
      obtain ⟨hel, hnet, hothers, hvoted⟩ := ht
      refine ⟨hel, fun x hx => hnet x (List.mem_append_right _ hx), ?_, ?_⟩
      · intro q hq
        rw [List.mem_cons, not_or] at hq
        rw [hothers q hq.2, ClusterState.update_node, Function.update_of_ne hq.1]
      · intro q hq
        rcases List.mem_cons.mp hq with rfl | hlater
        · refine ⟨?_, hnet _ (List.mem_append_left _ List.mem_cons_self)⟩
          rw [hothers q hm, ClusterState.update_node, Function.update_self]
        · have hne : q ≠ m := by
            rintro rfl
            exact hm hlater
          have hvote := hvoted q hlater
          rwa [ClusterState.update_node, Function.update_of_ne hne] at hvote

/-- A follower that handles a request of its term or a newer one does not lead. -/
theorem exchange_follower_role {p : Pair} (hleads : p.leader.role = .leader)
    (hterm : p.follower.state.currentTerm ≤ p.leader.state.currentTerm) :
    p.exchange.follower.role = .follower := by
  have hgo : ¬ (p.leader.role ≠ .leader ∨ p.leader.state.currentTerm ≠ p.task.term) := by
    simp [hleads, task]
  unfold exchange sendCheck buildAppendEntries
  rw [if_neg hgo, if_neg hgo]
  split
  · next hstop => split at hstop <;> contradiction
  · next req hsnapshot =>
      split at hsnapshot
      · cases hsnapshot
        exact role_handleInstallSnapshot_of_le _ hterm
      · contradiction
  · exact role_handleAppendEntries_of_le _ hterm

/-- Some node can be brought to not lead. -/
theorem canReach_nonLeader (hformed : Formed c s) (hsize : 1 < c.peers.length) :
    CanReach c (fun t => ∃ p ∈ c.peers, (t.node p).role ≠ .leader) s := by
  by_cases hall : ∃ p ∈ c.peers, (s.node p).role ≠ .leader
  · exact Possible.here hall
  · have hleads : ∀ p ∈ c.peers, (s.node p).role = .leader := by
      intro p hp
      by_contra hrole
      exact hall ⟨p, hp, hrole⟩
    have hpair : ∀ a ∈ c.peers, ∀ b ∈ c.peers, a ≠ b →
        (s.node b).state.currentTerm ≤ (s.node a).state.currentTerm →
        CanReach c (fun t => ∃ p ∈ c.peers, (t.node p).role ≠ .leader) s := by
      intro a ha b hb hne hterm
      refine (exchange_possible hformed ha hb hne.symm (hleads a ha)).mono fun t ht => ?_
      refine ⟨b, hb, ?_⟩
      rw [ht, exchanged, Function.update_of_ne hne.symm, Function.update_self,
        exchange_follower_role (hleads a ha) hterm]
      simp
    obtain ⟨a, ha, b, hb, hne⟩ : ∃ a ∈ c.peers, ∃ b ∈ c.peers, a ≠ b := by
      rcases hpeers : c.peers with _ | ⟨a, _ | ⟨b, rest⟩⟩
      · simp [hpeers] at hsize
      · simp [hpeers] at hsize
      · have hnodup := hpeers ▸ c.nodup
        refine ⟨a, by simp, b, by simp, ?_⟩
        rintro rfl
        simp at hnodup
    rcases Nat.le_total (s.node b).state.currentTerm (s.node a).state.currentTerm with hle | hle
    · exact hpair a ha b hb hne hle
    · exact hpair b hb a ha hne.symm hle

/-- A node that handles a vote request of a newer term is a follower in that term. -/
theorem stepsDown_of_newer {node : RaftNode} {req : RequestVoteRequest}
    (h : node.state.currentTerm < req.term) :
    (node.handleRequestVote req).1.role ≠ .leader ∧
      (node.handleRequestVote req).1.state.currentTerm = req.term := by
  have hobs : node.observeTerm req.term = node.becomeFollower req.term := if_pos h
  rcases handleRequestVote_cases node req with ⟨-, hnode⟩ | ⟨hyes, -, -⟩
  · rw [hnode, hobs]
    exact ⟨by simp [becomeFollower], rfl⟩
  · rw [hyes, hobs]
    exact ⟨by simp [becomeFollower], rfl⟩

/-- Nobody leads, and all nodes are in one term. -/
def Leaderless (c : Membership) (s : ClusterState) : Prop :=
  ∃ T, ∀ m ∈ c.peers, (s.node m).role ≠ .leader ∧ (s.node m).state.currentTerm = T

/-- A node whose term is above all others makes everybody step down. -/
theorem canReach_leaderless (hformed : Formed c s) (hsize : 1 < c.peers.length) :
    CanReach c (Leaderless c) s := by
  refine (hformed.keeping (canReach_nonLeader hformed hsize)).bind fun t ht => ?_
  obtain ⟨hformed₁, p, hp, hrole⟩ := ht
  refine (hformed₁.keeping (canReach_idle hformed₁ hsize p)).bind fun u hu => ?_
  obtain ⟨hformed₂, hnode, hidle⟩ := hu
  rw [← hnode] at hrole
  obtain ⟨K, hK⟩ : ∃ K, ∀ m ∈ c.peers, (u.node m).state.currentTerm ≤ K :=
    ⟨c.peers.toFinset.sup fun m => (u.node m).state.currentTerm, fun m hm =>
      Finset.le_sup (f := fun m => (u.node m).state.currentTerm) (List.mem_toFinset.mpr hm)⟩
  refine (hformed₂.keeping (canReach_raise hformed₂ hsize hp hrole hidle K)).bind fun v hv => ?_
  obtain ⟨hformed₃, hrole', hidle', hterm, hothers⟩ := hv
  refine CanReach.startElection hp hrole' hidle' ?_
  -- the requests of this election are newer than what any node has seen
  let req := (v.node p).startElection.2
  have hreq : req.term = (v.node p).state.currentTerm + 1 := rfl
  refine (canReach_votes req (c.peers.filter (· ≠ p)) (c.nodup.filter _) ?_).mono fun w hw => ?_
  · intro m hm
    refine List.mem_append_left _ (List.mem_map.mpr ⟨m, ?_, rfl⟩)
    have hstub : m ∈ (v.node p).stubs := hformed₃.mem_stubs.mpr (by simpa using hm)
    exact hstub
  · obtain ⟨-, -, hself, hvoted⟩ := hw
    refine ⟨req.term, fun m hm => ?_⟩
    by_cases hmp : m = p
    · subst hmp
      rw [hself m (by simp)]
      simp only [ClusterState.setElection_node, ClusterState.update_node, Function.update_self]
      exact ⟨by simp [startElection], rfl⟩
    · have hnew : (v.node m).state.currentTerm < req.term := by
        have hle := hK m hm
        rw [hreq, hothers m hmp]
        omega
      rw [(hvoted m (by simp [hm, hmp])).1]
      simp only [ClusterState.setElection_node, ClusterState.update_node,
        Function.update_of_ne hmp]
      exact stepsDown_of_newer hnew

/-! ## An election -/

/-- A member that leads, with the highest term, from which nothing has been sent yet. -/
structure FreshLeader (c : Membership) (s : ClusterState) (n : Int) : Prop where
  mem : n ∈ c.peers
  leads : (s.node n).role = .leader
  term_le : ∀ m ∈ c.peers, (s.node m).state.currentTerm ≤ (s.node n).state.currentTerm
  next_eq : ∀ m ∈ c.peers, m ≠ n → (s.node n).nextIndex m = (s.node n).log.lastIndex + 1
  matched_eq : ∀ m ∈ c.peers, m ≠ n → (s.node n).matchIndex m = 0

/-- A node votes for a candidate of a newer term whose log is as recent as its own. -/
theorem handleRequestVote_of_newer {node : RaftNode} {req : RequestVoteRequest}
    (hnew : node.state.currentTerm < req.term) (hlog : node.logOk req = true) :
    (node.handleRequestVote req).2 = ⟨req.term, true⟩ := by
  have hobs : node.observeTerm req.term = node.becomeFollower req.term := if_pos hnew
  have hcan : (node.becomeFollower req.term).canVote req = true := by
    simp [canVote, becomeFollower]
  have hok : (node.becomeFollower req.term).logOk req = true := hlog
  have hterm : (node.becomeFollower req.term).state.currentTerm = req.term := rfl
  unfold handleRequestVote
  dsimp only
  rw [hobs, hterm, if_neg (Nat.lt_irrefl _), hcan, hok]
  rfl

theorem voteCounted_of_mem {net : List Message} {p : Int} {req : RequestVoteRequest}
    (h : .requestVoteReply p req ⟨req.term, true⟩ ∈ net) : voteCounted net p req = true := by
  rw [voteCounted, List.any_eq_true]
  exact ⟨_, h, by simp⟩

/-- A candidate that counts a majority of votes is a fresh leader. -/
theorem freshLeader_of_wins {n : Int} {electionTerm votes : Nat} (hn : n ∈ c.peers)
    (hrole : (s.node n).role = .candidate) (hterm : (s.node n).state.currentTerm = electionTerm)
    (hvotes : majority (s.node n).peers.length ≤ votes)
    (hle : ∀ m ∈ c.peers, m ≠ n → (s.node m).state.currentTerm ≤ electionTerm) :
    FreshLeader c
      ((s.update n ((s.node n).finishElection electionTerm votes)).setElection n none) n := by
  have hwins : (s.node n).finishElection electionTerm votes =
      { s.node n with
        role := .leader
        leaderId := (s.node n).nodeId
        nextIndex := fun _ => (s.node n).log.lastIndex + 1
        matchIndex := fun _ => 0 } := by
    rw [finishElection, if_pos ⟨hrole, hterm, hvotes⟩]
  rw [hwins]
  constructor
  case mem => exact hn
  all_goals
    rw [ClusterState.setElection_node, ClusterState.update_node, Function.update_self]
  · intro m hm
    by_cases hmn : m = n
    · rw [hmn, Function.update_self]
    · rw [Function.update_of_ne hmn]
      exact (hle m hm hmn).trans_eq hterm.symm
  · exact fun _ _ _ => rfl
  · exact fun _ _ _ => rfl

/-- The member with the most recent log wins an election when nobody leads. -/
theorem canReach_freshLeader_of_leaderless (hformed : Formed c s) (hne : c.peers ≠ [])
    (hfree : Leaderless c s)
    (hidle : ∀ n ∈ c.peers, CanReach c (fun t => t.node = s.node ∧ t.election n = none) s) :
    CanReach c (fun t => ∃ n, FreshLeader c t n) s := by
  obtain ⟨T, hT⟩ := hfree
  obtain ⟨n, hn, hmax⟩ := c.peers.toFinset.exists_max_image
    (fun m => toLex ((s.node m).log.lastTerm, (s.node m).log.lastIndex))
    (List.toFinset_nonempty_iff _ |>.mpr hne)
  rw [List.mem_toFinset] at hn
  refine (hformed.keeping (hidle n hn)).bind fun u hu => ?_
  obtain ⟨hformed', hnode, hnone⟩ := hu
  refine CanReach.startElection hn (hnode ▸ (hT n hn).1) hnone ?_
  let req := (u.node n).startElection.2
  have hterm : req.term = T + 1 := by
    rw [← (hT n hn).2, ← hnode]
    rfl
  let others := (u.node n).startElection.1.stubs
  have hothers : ∀ m, m ∈ others ↔ m ∈ c.peers ∧ m ≠ n := fun m => hformed'.mem_stubs
  refine (canReach_votes req others (List.nodup_dedup _) ?_).bind fun w hw => ?_
  · intro m hm
    exact List.mem_append_left _ (List.mem_map.mpr ⟨m, hm, rfl⟩)
  · obtain ⟨hel, -, hself, hvoted⟩ := hw
    have hvoter : ∀ m ∈ others, w.node m = ((s.node m).handleRequestVote req).1 ∧
        .requestVoteReply m req ((s.node m).handleRequestVote req).2 ∈ w.net := by
      intro m hm
      have hvote := hvoted m hm
      rwa [ClusterState.setElection_node, ClusterState.update_node,
        Function.update_of_ne ((hothers m).mp hm).2, hnode] at hvote
    have hcandidate : w.node n = (u.node n).startElection.1 := by
      rw [hself n (by simp [hothers]), ClusterState.setElection_node, ClusterState.update_node,
        Function.update_self]
    have hnewer : ∀ m ∈ others, (s.node m).state.currentTerm < req.term := by
      intro m hm
      rw [(hT m ((hothers m).mp hm).1).2, hterm]
      exact Nat.lt_succ_self T
    have helecting : w.election n = some req := by
      rw [hel, ClusterState.setElection_election, Function.update_self]
    have hdistinct : others.Nodup := List.nodup_dedup _
    refine CanReach.finishElection _ helecting hdistinct ?_ (Possible.here ⟨n, ?_⟩)
    · intro m hm
      constructor
      · rw [hcandidate]
        exact hm
      · -- the candidate's log is at least as recent as the voter's
        have hlog : (s.node m).logOk req = true := by
          have hle := hmax m (List.mem_toFinset.mpr ((hothers m).mp hm).1)
          rw [Prod.Lex.toLex_le_toLex] at hle
          have hsame : (u.node n).log = (s.node n).log := by rw [hnode]
          rw [← hsame] at hle
          simp only [logOk, Bool.or_eq_true, Bool.and_eq_true, decide_eq_true_eq]
          rcases hle with hlt | ⟨heq, hle⟩
          · exact .inl hlt
          · exact .inr ⟨heq.symm, hle⟩
        have hreply := (hvoter m hm).2
        rw [handleRequestVote_of_newer (hnewer m hm) hlog] at hreply
        exact voteCounted_of_mem hreply
    · have hlength : others.length + 1 = c.peers.length := by
        have hpeers : (u.node n).startElection.1.peers = c.peers := hformed'.peers n
        have hid : (u.node n).startElection.1.nodeId = n := hformed'.nodeId n
        rw [← hpeers]
        exact length_stubs (hpeers ▸ c.nodup) (by rw [hid, hpeers]; exact hn)
      have hpeers : (u.node n).startElection.1.peers = c.peers := hformed'.peers n
      have hvotes : majority c.peers.length ≤ 1 + others.length := by
        unfold majority
        omega
      refine freshLeader_of_wins hn (by rw [hcandidate]; rfl) (by rw [hcandidate]; rfl) ?_ ?_
      · rwa [hcandidate, hpeers]
      · intro m hm hmn
        have hmem := (hothers m).mpr ⟨hm, hmn⟩
        rw [(hvoter m hmem).1, (stepsDown_of_newer (hnewer m hmem)).2]

/-- A single member that leads is a fresh leader. -/
theorem freshLeader_of_single {n : Int} (hpeers : c.peers = [n])
    (hleads : (s.node n).role = .leader) : FreshLeader c s n := by
  have hsame : ∀ m ∈ c.peers, m = n := by
    intro m hm
    rwa [hpeers, List.mem_singleton] at hm
  refine ⟨by rw [hpeers]; exact List.mem_singleton_self n, hleads, ?_, ?_, ?_⟩
  · intro m hm
    rw [hsame m hm]
  · exact fun m hm hne => absurd (hsame m hm) hne
  · exact fun m hm hne => absurd (hsame m hm) hne

/-- A fresh leader can be elected from every state. -/
theorem canReach_freshLeader (hformed : Formed c s) (hne : c.peers ≠ []) :
    CanReach c (fun t => ∃ n, FreshLeader c t n) s := by
  by_cases hsize : 1 < c.peers.length
  · refine (hformed.keeping (canReach_leaderless hformed hsize)).bind fun t ht => ?_
    exact canReach_freshLeader_of_leaderless ht.1 hne ht.2 fun n _ => canReach_idle ht.1 hsize n
  · have hpos : 0 < c.peers.length := List.length_pos_of_ne_nil hne
    obtain ⟨n, hpeers⟩ := List.length_eq_one_iff.mp (by omega : c.peers.length = 1)
    -- a single node that runs no election wins the next one
    have hidle : ∀ t, Formed c t → t.election n = none →
        CanReach c (fun t => ∃ n, FreshLeader c t n) t := by
      intro t hformed' hnone
      by_cases hrole : (t.node n).role = .leader
      · exact Possible.here ⟨n, freshLeader_of_single hpeers hrole⟩
      · refine canReach_freshLeader_of_leaderless hformed' hne
          ⟨(t.node n).state.currentTerm, fun m hm => ?_⟩ fun m hm => Possible.here ⟨rfl, ?_⟩
        · rw [hpeers, List.mem_singleton] at hm
          rw [hm]
          exact ⟨hrole, rfl⟩
        · rw [hpeers, List.mem_singleton] at hm
          rwa [hm]
    cases hel : s.election n with
    | none => exact hidle s hformed hel
    | some req =>
        have hends : CanReach c (fun t => t.election n = none) s := by
          refine CanReach.finishElection (n := n) [] hel List.nodup_nil
            (fun p hp => absurd hp List.not_mem_nil) (Possible.here ?_)
          simp
        exact (hformed.keeping hends).bind fun t ht => hidle t ht.1 ht.2

/-! ## Exchanges with every peer -/

/-- What repeated exchanges leave alone. -/
theorem iterate_exchange_steady {p : Pair} (h : Exchanging p) (k : Nat) :
    Exchanging (exchange^[k] p) ∧
      Steady p.follower.nodeId p.leader (exchange^[k] p).leader ∧
      (exchange^[k] p).follower.nodeId = p.follower.nodeId := by
  induction k with
  | zero => exact ⟨h, Steady.refl _ _, rfl⟩
  | succ k ih =>
      obtain ⟨hk, hsteady, hid⟩ := ih
      rw [Function.iterate_succ_apply']
      refine ⟨exchange_exchanging hk, ?_, (follower_quiet hk).nodeId.trans hid⟩
      exact hsteady.trans (hid ▸ leader_steady hk)

/-- Repeated exchanges between a leader and a peer are a run of the cluster. -/
theorem canReach_exchanges (hformed : Formed c s) {n m : Int} (hn : n ∈ c.peers)
    (hm : m ∈ c.peers) (hne : m ≠ n) (h : Exchanging ⟨s.node n, s.node m⟩) (k : Nat) :
    CanReach c (fun t => t.node n = (exchange^[k] ⟨s.node n, s.node m⟩).leader ∧
      t.node m = (exchange^[k] ⟨s.node n, s.node m⟩).follower ∧
      ∀ q, q ≠ n → q ≠ m → t.node q = s.node q) s := by
  induction k with
  | zero => exact Possible.here ⟨rfl, rfl, fun _ _ _ => rfl⟩
  | succ k ih =>
      refine (hformed.keeping ih).bind fun t ht => ?_
      obtain ⟨hformed', hleader, hfollower, hothers⟩ := ht
      have hpair : (⟨t.node n, t.node m⟩ : Pair) = exchange^[k] ⟨s.node n, s.node m⟩ := by
        rw [hleader, hfollower]
      have hleads : (t.node n).role = .leader := by
        rw [hleader]
        exact (iterate_exchange_steady h k).1.leads
      refine (exchange_possible hformed' hn hm hne hleads).mono fun u hu => ?_
      rw [Function.iterate_succ_apply', ← hpair, hu, exchanged]
      refine ⟨Function.update_self _ _ _, ?_, fun q hqn hqm => ?_⟩
      · rw [Function.update_of_ne hne, Function.update_self]
      · rw [Function.update_of_ne hqn, Function.update_of_ne hqm, hothers q hqn hqm]

/-- A property of a leader and a follower that exchanges with other followers keep. -/
def Private (R : Pair → Prop) : Prop :=
  ∀ p peer leader, peer ≠ p.follower.nodeId → Steady peer p.leader leader → R p →
    R ⟨leader, p.follower⟩

/-- A leader exchanges messages with one peer after the other. -/
theorem canReach_round {P Q : Pair → Prop} {K : RaftNode → Prop} (k : Nat) (hP : Private P)
    (hQ : Private Q) (hK : ∀ peer leader leader', Steady peer leader leader' → K leader → K leader')
    (hexchanging : ∀ p, P p → Exchanging p) (hround : ∀ p, P p → Q (exchange^[k] p))
    (hformed : Formed c s) {n : Int} (hn : n ∈ c.peers) (hleader : K (s.node n))
    (ms : List Int) (hdistinct : ms.Nodup) (hms : ∀ m ∈ ms, m ∈ c.peers ∧ m ≠ n)
    (hready : ∀ m ∈ ms, P ⟨s.node n, s.node m⟩) :
    CanReach c (fun t => K (t.node n) ∧ (∀ m ∈ ms, Q ⟨t.node n, t.node m⟩) ∧
      ∀ R, Private R → ∀ q, q ≠ n → q ∉ ms → R ⟨s.node n, s.node q⟩ →
        R ⟨t.node n, t.node q⟩) s := by
  induction ms generalizing s with
  | nil =>
      exact Possible.here ⟨hleader, fun m hm => absurd hm List.not_mem_nil, fun _ _ _ _ _ h => h⟩
  | cons m ms ih =>
      obtain ⟨hfresh, hdistinct'⟩ := List.nodup_cons.mp hdistinct
      obtain ⟨hm, hne⟩ := hms m List.mem_cons_self
      have hpair := hready m List.mem_cons_self
      have hiterate := iterate_exchange_steady (hexchanging _ hpair) k
      have hid := hformed.nodeId
      refine (hformed.keeping
        (canReach_exchanges hformed hn hm hne (hexchanging _ hpair) k)).bind fun t ht => ?_
      obtain ⟨hformed', hleader', hfollower, hothers⟩ := ht
      have hsteady : Steady m (s.node n) (t.node n) := by
        have hboth := hiterate.2.1
        rwa [hid m, ← hleader'] at hboth
      have hkept : ∀ R, Private R → ∀ q, q ≠ n → q ≠ m → R ⟨s.node n, s.node q⟩ →
          R ⟨t.node n, t.node q⟩ := by
        intro R hR q hqn hqm hq
        rw [hothers q hqn hqm]
        exact hR ⟨s.node n, s.node q⟩ m (t.node n) (by rw [hid q]; exact hqm.symm) hsteady hq
      have hnext := ih hformed' (hK _ _ _ hsteady hleader) hdistinct'
        (fun q hq => hms q (List.mem_cons_of_mem _ hq)) fun q hq => by
          have hqm : q ≠ m := fun heq => hfresh (heq ▸ hq)
          exact hkept P hP q (hms q (List.mem_cons_of_mem _ hq)).2 hqm
            (hready q (List.mem_cons_of_mem _ hq))
      refine hnext.mono fun u hu => ?_
      obtain ⟨hleads, hdone, hrest⟩ := hu
      refine ⟨hleads, fun q hq => ?_, fun R hR q hqn hq hR' => ?_⟩
      · rcases List.mem_cons.mp hq with rfl | hlater
        · refine hrest Q hQ q hne hfresh ?_
          rw [hleader', hfollower]
          exact hround _ hpair
        · exact hdone q hlater
      · rw [List.mem_cons, not_or] at hq
        exact hrest R hR q hqn hq.2 (hkept R hR q hqn hq.1 hR')

/-! ## Replication and commit -/

/-- A leader that every peer has acknowledged to the end of its log, with an entry of its own
term there, commits it. -/
theorem lastIndex_le_commitIndex (node : RaftNode) (hnodup : node.peers.Nodup)
    (hself : node.nodeId ∈ node.peers)
    (hterm : node.log.termAt node.log.lastIndex = node.state.currentTerm)
    (hmatched : ∀ m ∈ node.stubs, node.matchIndex m = node.log.lastIndex) :
    node.log.lastIndex ≤ node.advanceCommitIndex.commitIndex := by
  have hlength := length_stubs hnodup hself
  let matchIndex := node.stubs.map fun p => (p, node.matchIndex p)
  have hsize : matchIndex.length + 1 = node.peers.length := by
    rw [List.length_map, hlength]
  obtain ⟨candidate, hcandidate⟩ := exists_candidate node.log.lastIndex hsize
  have hvalues : ∀ v ∈ matchValues node.log.lastIndex matchIndex, v = node.log.lastIndex := by
    intro v hv
    rcases List.mem_cons.mp hv with rfl | hv
    · rfl
    · simp only [matchIndex, List.map_map, List.mem_map, Function.comp_apply] at hv
      obtain ⟨m, hm, rfl⟩ := hv
      exact hmatched m hm
  have heq : candidate = node.log.lastIndex :=
    hvalues _ ((List.perm_insertionSort (· ≥ ·) _).subset (List.mem_of_getElem? hcandidate))
  subst heq
  rw [matchValues] at hcandidate
  unfold advanceCommitIndex computeNewCommitIndex
  dsimp only
  rw [hcandidate, Option.getD_some]
  split_ifs with hcond hgt
  · rw [applyCommittedEntries_commitIndex]
  · omega
  · omega
  · omega

/-- The pair after the leader has taken a proposal as its last entry. -/
structure Waiting (log : RaftLog) (p : Pair) : Prop where
  exchanging : Exchanging p
  leaderLog : p.leader.log = log
  next_eq : p.next = log.lastIndex
  matched_eq : p.matched = 0

/-- The follower holds the leader's last entry. -/
structure Replicated (log : RaftLog) (p : Pair) : Prop where
  exchanging : Exchanging p
  leaderLog : p.leader.log = log
  caughtUp : CaughtUp p
  covered : CoveredFrom log.lastIndex log p.follower.log

theorem Private.of_steady {R : Pair → Prop}
    (h : ∀ p peer leader, Steady peer p.leader leader → next ⟨leader, p.follower⟩ = p.next →
      matched ⟨leader, p.follower⟩ = p.matched → R p → R ⟨leader, p.follower⟩) : Private R := by
  intro p peer leader hne hsteady hR
  exact h p peer leader hsteady (hsteady.nextIndex _ hne.symm) (hsteady.matchIndex _ hne.symm) hR

theorem exchanging_of_steady {p : Pair} {peer : Int} {leader : RaftNode}
    (hsteady : Steady peer p.leader leader) (hnext : next ⟨leader, p.follower⟩ = p.next)
    (hmatched : matched ⟨leader, p.follower⟩ = p.matched) (h : Exchanging p) :
    Exchanging ⟨leader, p.follower⟩ where
  leads := hsteady.role.trans h.leads
  term_pos := hsteady.state ▸ h.term_pos
  term_le := hsteady.state ▸ h.term_le
  next_pos := hnext ▸ h.next_pos
  next_le := by
    rw [hnext, hsteady.log]
    exact h.next_le
  matched_le := by
    rw [hmatched, hsteady.log]
    exact h.matched_le

theorem private_waiting (log : RaftLog) : Private (Waiting log) := by
  refine Private.of_steady fun p peer leader hsteady hnext hmatched h => ?_
  exact ⟨exchanging_of_steady hsteady hnext hmatched h.exchanging,
    hsteady.log.trans h.leaderLog, hnext.trans h.next_eq, hmatched.trans h.matched_eq⟩

theorem private_replicated (log : RaftLog) : Private (Replicated log) := by
  refine Private.of_steady fun p peer leader hsteady hnext hmatched h => ?_
  refine ⟨exchanging_of_steady hsteady hnext hmatched h.exchanging,
    hsteady.log.trans h.leaderLog, ⟨?_, ?_, ?_⟩, h.covered⟩
  · rw [hnext, hsteady.log]
    exact h.caughtUp.next_eq
  · rw [hmatched, hsteady.log]
    exact h.caughtUp.matched_eq
  · rw [hsteady.log]
    exact h.caughtUp.accepts

/-- A peer that nothing was sent to catches up. -/
theorem Waiting.replicated {log : RaftLog} {p : Pair} (h : Waiting log p) :
    Replicated log (exchange^[log.lastIndex + 2] p) := by
  have hnext := h.next_eq
  have hfree : ¬ Stuck p := by
    intro hstuck
    have hsnap := hstuck.snapshot_le
    have hpos := h.exchanging.next_pos
    rw [h.matched_eq] at hsnap
    exact hstuck.rejects 0 hsnap hpos (.inl (Nat.zero_le _))
  obtain ⟨hcaught, hcovered, -, -⟩ :=
    catches_up_of_not_stuck (k := log.lastIndex + 2) h.exchanging hfree (by omega)
  have hiterate := iterate_exchange_steady h.exchanging (log.lastIndex + 2)
  rw [hnext, h.leaderLog] at hcovered
  exact ⟨hiterate.1, hiterate.2.1.log.trans h.leaderLog, hcaught, hcovered⟩

/-- One more exchange tells a peer that has the last entry what is committed. -/
theorem Replicated.exchange {log : RaftLog} {p : Pair} (h : Replicated log p) :
    Replicated log p.exchange ∧
      min p.leader.commitIndex log.lastIndex ≤ p.exchange.follower.commitIndex := by
  obtain ⟨hcaught, hlog, hcommit⟩ := exchange_caughtUp h.exchanging h.caughtUp
  refine ⟨⟨exchange_exchanging h.exchanging, (leader_steady h.exchanging).log.trans h.leaderLog,
    hcaught, hlog ▸ h.covered⟩, ?_⟩
  rwa [h.leaderLog] at hcommit

/-- What a leader keeps while its peers catch up. -/
structure Serving (log : RaftLog) (state : PersistentState) (commitIndex : Nat)
    (leader : RaftNode) : Prop where
  role : leader.role = .leader
  log_eq : leader.log = log
  state_eq : leader.state = state
  commit_le : commitIndex ≤ leader.commitIndex

theorem Serving.steady {log : RaftLog} {state : PersistentState} {commitIndex : Nat} {peer : Int}
    {leader leader' : RaftNode} (hsteady : Steady peer leader leader')
    (h : Serving log state commitIndex leader) : Serving log state commitIndex leader' :=
  ⟨hsteady.role.trans h.role, hsteady.log.trans h.log_eq, hsteady.state.trans h.state_eq,
    h.commit_le.trans hsteady.commit_le⟩

/-- The acknowledgement of a peer commits the last entry when all peers have it. -/
theorem exchange_commits (hformed : Formed c s) {n m : Int} (hn : n ∈ c.peers)
    (hmem : m ∈ c.peers) (hne : m ≠ n)
    (hterm : (s.node n).log.termAt (s.node n).log.lastIndex = (s.node n).state.currentTerm)
    (hall : ∀ q ∈ c.peers, q ≠ n → Replicated (s.node n).log ⟨s.node n, s.node q⟩) :
    (s.node n).log.lastIndex ≤ (exchange ⟨s.node n, s.node m⟩).leader.commitIndex := by
  have hpair := hall m hmem hne
  have hcaught := hpair.caughtUp
  have hsnap : (s.node n).log.snapshotLastIndex ≤ (s.node n).log.lastIndex := Nat.le_add_right _ _
  have hnext : next ⟨s.node n, s.node m⟩ = (s.node n).log.lastIndex + 1 := hcaught.next_eq
  have hahead : (s.node n).log.snapshotLastIndex < next ⟨s.node n, s.node m⟩ := by omega
  have haccepts : (s.node m).prevMatches (appendRequest ⟨s.node n, s.node m⟩) = true := by
    rw [prevMatches_iff, appendRequest, hnext, Nat.add_sub_cancel]
    exact hcaught.accepts
  rw [leader_of_accepts hpair.exchanging hahead haccepts, hformed.nodeId m]
  refine lastIndex_le_commitIndex
    { s.node n with
      matchIndex := Function.update (s.node n).matchIndex m (s.node n).log.lastIndex
      nextIndex := Function.update (s.node n).nextIndex m ((s.node n).log.lastIndex + 1) }
    (hformed.peers n ▸ c.nodup) ?_ hterm fun q hq => ?_
  · dsimp only
    rw [hformed.nodeId n, hformed.peers n]
    exact hn
  · obtain ⟨hqmem, hqn⟩ := hformed.mem_stubs.mp hq
    by_cases hqm : q = m
    · rw [hqm]
      exact Function.update_self _ _ _
    · have hmatched := (hall q hqmem hqn).caughtUp.matched_eq
      rw [matched, hformed.nodeId q] at hmatched
      exact (Function.update_of_ne hqm _ _).trans hmatched

/-- A leader whose last entry is of its term gets it to every peer and commits it everywhere. -/
theorem canReach_committed (hformed : Formed c s) {n : Int} (hn : n ∈ c.peers)
    (hleads : (s.node n).role = .leader)
    (hterm : (s.node n).log.termAt (s.node n).log.lastIndex = (s.node n).state.currentTerm)
    (halone : (∀ m ∈ c.peers, m = n) → (s.node n).log.lastIndex ≤ (s.node n).commitIndex)
    (hwaiting : ∀ m ∈ c.peers, m ≠ n → Waiting (s.node n).log ⟨s.node n, s.node m⟩) :
    CanReach c (fun t =>
      Serving (s.node n).log (s.node n).state (s.node n).log.lastIndex (t.node n) ∧
        ∀ m ∈ c.peers, m ≠ n → Replicated (s.node n).log ⟨t.node n, t.node m⟩ ∧
          (s.node n).log.lastIndex ≤ (t.node m).commitIndex) s := by
  let log := (s.node n).log
  let others := c.peers.filter (· ≠ n)
  have hothers : ∀ m, m ∈ others ↔ m ∈ c.peers ∧ m ≠ n := by simp [others]
  have hdistinct : others.Nodup := c.nodup.filter _
  -- every peer gets the entry
  have hfirst : CanReach c (fun t =>
      Serving log (s.node n).state (s.node n).commitIndex (t.node n) ∧
        ∀ m ∈ others, Replicated log ⟨t.node n, t.node m⟩) s := by
    refine (canReach_round (log.lastIndex + 2) (private_waiting log) (private_replicated log)
      (fun _ _ _ => Serving.steady) (fun p => Waiting.exchanging) (fun p => Waiting.replicated)
      hformed hn ⟨hleads, rfl, rfl, le_rfl⟩ others hdistinct (fun m hm => (hothers m).mp hm)
      fun m hm => hwaiting m ((hothers m).mp hm).1 ((hothers m).mp hm).2).mono fun t ht => ?_
    exact ⟨ht.1, ht.2.1⟩
  -- the leader commits it
  have hsecond : CanReach c (fun t => Serving log (s.node n).state log.lastIndex (t.node n) ∧
      ∀ m ∈ others, Replicated log ⟨t.node n, t.node m⟩) s := by
    refine (hformed.keeping hfirst).bind fun t ht => ?_
    obtain ⟨hformed', hserving, hall⟩ := ht
    by_cases hempty : ∀ m ∈ c.peers, m = n
    · exact Possible.here ⟨⟨hserving.role, hserving.log_eq, hserving.state_eq,
        (halone hempty).trans hserving.commit_le⟩, hall⟩
    · simp only [not_forall] at hempty
      obtain ⟨m, hm, hne⟩ := hempty
      have hpair := hall m ((hothers m).mpr ⟨hm, hne⟩)
      have hlog := hserving.log_eq
      have hcommits := exchange_commits hformed' hn hm hne (by
        rw [hlog, hserving.state_eq]
        exact hterm) fun q hq hqn => by rw [hlog]; exact hall q ((hothers q).mpr ⟨hq, hqn⟩)
      refine (canReach_exchanges hformed' hn hm hne hpair.exchanging 1).mono fun u hu => ?_
      obtain ⟨hleader, hfollower, hsame⟩ := hu
      rw [Function.iterate_one] at hleader hfollower
      have hsteady : Steady m (t.node n) (u.node n) := by
        have hboth := leader_steady hpair.exchanging
        rwa [hformed'.nodeId m, ← hleader] at hboth
      refine ⟨⟨hsteady.role.trans hserving.role, hsteady.log.trans hserving.log_eq,
        hsteady.state.trans hserving.state_eq, ?_⟩, fun q hq => ?_⟩
      · rw [hleader, ← hlog]
        exact hcommits
      · by_cases hqm : q = m
        · rw [hqm, hleader, hfollower]
          exact hpair.exchange.1
        · rw [hsame q ((hothers q).mp hq).2 hqm]
          refine private_replicated log ⟨t.node n, t.node q⟩ m (u.node n) ?_ hsteady (hall q hq)
          rw [hformed'.nodeId q]
          exact fun heq => hqm heq.symm
  -- every peer is told
  refine (hformed.keeping hsecond).bind fun t ht => ?_
  obtain ⟨hformed', hserving, hall⟩ := ht
  have hknown : Private fun p => Replicated log p ∧ log.lastIndex ≤ p.leader.commitIndex := by
    intro p peer leader hne hsteady h
    exact ⟨private_replicated log p peer leader hne hsteady h.1, h.2.trans hsteady.commit_le⟩
  have htold : Private fun p => Replicated log p ∧ log.lastIndex ≤ p.follower.commitIndex := by
    intro p peer leader hne hsteady h
    exact ⟨private_replicated log p peer leader hne hsteady h.1, h.2⟩
  refine (canReach_round 1 hknown htold (fun _ _ _ => Serving.steady) (fun p h => h.1.exchanging)
    (fun p h => ?_) hformed' hn hserving others hdistinct (fun m hm => (hothers m).mp hm)
    fun m hm => ⟨hall m hm, hserving.commit_le⟩).mono fun u hu => ?_
  · have hnext := h.1.exchange
    exact ⟨hnext.1, by rw [min_eq_right h.2] at hnext; exact hnext.2⟩
  · exact ⟨hu.1, fun m hm hne => hu.2.1 m ((hothers m).mpr ⟨hm, hne⟩)⟩

/-! ## Every reachable state -/

/-- The state after a fresh leader has taken a command. -/
structure Taken (c : Membership) (s t : ClusterState) (command : Bytes) (call : ProposeCall) :
    Prop where
  proposals : t.proposals = call :: s.proposals
  mem : call.nodeId ∈ c.peers
  command_eq : call.command = command
  leads : (t.node call.nodeId).role = .leader
  term_eq : (t.node call.nodeId).state.currentTerm = call.term
  index_eq : (t.node call.nodeId).log.lastIndex = call.index
  entry : (t.node call.nodeId).log.entryAt call.index = some ⟨call.term, command⟩
  alone : (∀ m ∈ c.peers, m = call.nodeId) → call.index ≤ (t.node call.nodeId).commitIndex
  waiting : ∀ m ∈ c.peers, m ≠ call.nodeId →
    Waiting (t.node call.nodeId).log ⟨t.node call.nodeId, t.node m⟩

/-- A fresh leader takes a command. -/
theorem FreshLeader.taken {n : Int} (hformed : Formed c s) (h : FreshLeader c s n)
    (command : Bytes) :
    ∃ call t, step c s (.propose n command) = some t ∧ Taken c s t command call := by
  let appended : RaftNode :=
    { s.node n with log := (s.node n).log.append (s.node n).state.currentTerm command }
  let call : ProposeCall :=
    ⟨n, (s.node n).state.currentTerm, (s.node n).log.lastIndex + 1, command⟩
  let t : ClusterState :=
    { s.update n appended.advanceCommitIndex with proposals := call :: s.proposals }
  have hpropose : (s.node n).propose command = some (appended.advanceCommitIndex, call) := by
    rw [propose, if_neg (by simp [h.leads])]
    dsimp only
    rw [lastIndex_append]
    exact congrArg (fun id => some (appended.advanceCommitIndex,
      (⟨id, (s.node n).state.currentTerm, (s.node n).log.lastIndex + 1, command⟩ : ProposeCall)))
      (hformed.nodeId n)
  have hstep : step c s (.propose n command) = some t := by
    rw [step, if_pos h.mem, hpropose]
  have hformed' := hformed.step hstep
  have hnode : t.node n = appended.advanceCommitIndex := Function.update_self _ _ _
  have hlog : (t.node n).log = (s.node n).log.append (s.node n).state.currentTerm command := by
    rw [hnode, advanceCommitIndex_log]
  have hlast : (t.node n).log.lastIndex = (s.node n).log.lastIndex + 1 := by
    rw [hlog, lastIndex_append]
  have hentry : (t.node n).log.entryAt call.index = some ⟨call.term, command⟩ := by
    rw [hlog, RaftLog.entryAt_append, if_pos rfl]
  have hrole : (t.node n).role = .leader := by
    rw [hnode, advanceCommitIndex_role]
    exact h.leads
  have hstate : (t.node n).state = (s.node n).state := by
    rw [hnode, advanceCommitIndex_state]
  refine ⟨call, t, hstep, rfl, h.mem, rfl, hrole, by rw [hstate], hlast, hentry, ?_, ?_⟩
  · intro hall
    have hindex : appended.log.lastIndex = call.index := lastIndex_append _ _ _
    have hself : appended.nodeId ∈ appended.peers := by
      have hid : appended.nodeId = n := hformed.nodeId n
      have hpeers : appended.peers = c.peers := hformed.peers n
      rw [hid, hpeers]
      exact h.mem
    have hterm : appended.log.termAt appended.log.lastIndex = appended.state.currentTerm := by
      rw [hlog] at hentry
      rw [hindex]
      exact (RaftLog.termAt_of_entryAt hentry).1
    have hcommit := lastIndex_le_commitIndex appended (hformed.peers n ▸ c.nodup) hself hterm
      fun m hm => by
        obtain ⟨hmem, hne⟩ := hformed.mem_stubs.mp hm
        exact absurd (hall m hmem) hne
    rwa [hindex, ← hnode] at hcommit
  · intro m hm hne
    have hother : t.node m = s.node m := Function.update_of_ne hne _ _
    have hnext : next ⟨t.node n, t.node m⟩ = (t.node n).log.lastIndex := by
      rw [next, hother, hformed.nodeId m, hnode, advanceCommitIndex_nextIndex, ← hnode, hlast]
      exact h.next_eq m hm hne
    have hmatched : matched ⟨t.node n, t.node m⟩ = 0 := by
      rw [matched, hother, hformed.nodeId m, hnode, advanceCommitIndex_matchIndex]
      exact h.matched_eq m hm hne
    refine ⟨⟨hrole, ?_, ?_, ?_, ?_, ?_⟩, rfl, hnext, hmatched⟩
    · exact hformed'.elected n (by rw [hrole]; simp)
    · rw [hother, hstate]
      exact h.term_le m hm
    · rw [hnext, hlast]
      exact Nat.succ_pos _
    · rw [hnext]
      exact Nat.le_succ _
    · rw [hmatched]
      exact Nat.zero_le _

/-- A run without proposals takes none. -/
theorem proposals_of_unattended {a : Action} (hok : Unattended s a)
    (hstep : step c s a = some s') : s'.proposals = s.proposals := by
  cases step_cases hstep with
  | propose => exact absurd hok id
  | _ => rfl

/-- A run without failures and proposals that is joined to one with a proposal is one without
failures. -/
theorem failureFree_of_unattended {a : Action} (h : Unattended s a) : FailureFree s a := by
  cases a with
  | propose => exact absurd h id
  | _ => exact h

theorem CanReach.failureFree {P : ClusterState → Prop} (h : CanReach c P s) :
    Possible (step c) FailureFree P s := by
  rcases h with ⟨as, t, hrun, ht⟩
  exact ⟨as, t, hrun.weaken fun _ _ => failureFree_of_unattended, ht⟩

/-- The proposal of a call is committed by its leader and by every member, and all of them hold
it unless their own snapshot covers it. -/
structure CommittedEverywhere (c : Membership) (t : ClusterState) (call : ProposeCall) : Prop where
  answered : (t.node call.nodeId).proposePoll call = some true
  committed : ∀ m ∈ c.peers, call.index ≤ (t.node m).commitIndex
  held : ∀ m ∈ c.peers, (t.node m).log.snapshotLastIndex < call.index →
    (t.node m).log.entryAt call.index = some ⟨call.term, call.command⟩

/-- A command that a fresh leader has taken can be committed everywhere. -/
theorem Taken.committed {t : ClusterState} {command : Bytes} {call : ProposeCall}
    (hformed : Formed c t) (h : Taken c s t command call) :
    CanReach c (fun u => u.proposals = call :: s.proposals ∧ CommittedEverywhere c u call) t := by
  have hindex := h.index_eq
  have hterm : (t.node call.nodeId).log.termAt (t.node call.nodeId).log.lastIndex =
      (t.node call.nodeId).state.currentTerm := by
    rw [hindex, h.term_eq]
    exact (RaftLog.termAt_of_entryAt h.entry).1
  have hreach := canReach_committed hformed h.mem h.leads hterm
    (fun hall => hindex ▸ h.alone hall) h.waiting
  refine (hreach.keeping (fun u => u.proposals = call :: s.proposals)
    (fun _ _ _ hinv hok hstep => (proposals_of_unattended hok hstep).trans hinv)
    h.proposals).mono fun u hu => ?_
  obtain ⟨hproposals, hserving, hall⟩ := hu
  rw [hindex] at hserving hall
  refine ⟨hproposals, ?_, fun m hm => ?_, fun m hm hsnap => ?_⟩
  · rw [proposePoll, if_neg, if_pos hserving.commit_le]
    simp [hserving.role, hserving.state_eq, h.term_eq]
  · by_cases hne : m = call.nodeId
    · rw [hne]
      exact hserving.commit_le
    · exact (hall m hm hne).2
  · rw [h.command_eq]
    by_cases hne : m = call.nodeId
    · rw [hne, hserving.log_eq]
      exact h.entry
    · exact (hall m hm hne).1.covered call.index _ hindex.le hsnap h.entry

end

/-- From every state that a cluster can reach, whatever was lost, restarted, compacted or cut off
on the way, and for every command: a run without failures leads to a state in which the command
has been proposed to a member, that member answers that it is committed, every member has
committed it, and every member whose snapshot does not cover it holds it. -/
theorem command_can_be_committed (c : Membership) (hne : c.peers ≠ []) {as : List Action}
    {s : ClusterState} (hrun : Runs c (fun _ _ => True) (ClusterState.init c) as s)
    (command : Bytes) :
    Possible (step c) FailureFree
      (fun t => ∃ call, t.proposals = call :: s.proposals ∧ call.nodeId ∈ c.peers ∧
        call.command = command ∧ CommittedEverywhere c t call) s := by
  have hformed : Formed c s :=
    hrun.invariant (Formed c) (fun _ _ _ hinv _ hstep => hinv.step hstep) (Formed.init c)
  have helected : CanReach c
      (fun t => t.proposals = s.proposals ∧ Formed c t ∧ ∃ n, FreshLeader c t n) s :=
    (hformed.keeping (canReach_freshLeader hformed hne)).keeping
      (fun t => t.proposals = s.proposals)
      (fun _ _ _ hinv hok hstep => (proposals_of_unattended hok hstep).trans hinv) rfl
  refine (CanReach.failureFree helected).bind fun t ht => ?_
  obtain ⟨hproposals, hformed', n, hfresh⟩ := ht
  obtain ⟨call, u, hstep, htaken⟩ := hfresh.taken hformed' command
  refine Possible.cons (a := .propose n command) trivial hstep ?_
  refine (CanReach.failureFree (htaken.committed (hformed'.step hstep))).mono fun v hv => ?_
  exact ⟨call, hproposals ▸ hv.1, htaken.mem, htaken.command_eq, hv.2⟩

/-- Also from a state in which the leader and node 1 are stuck. -/
theorem command_can_be_committed_lateAcknowledgement :
    ∃ s, Runs threeNodes (fun _ _ => True) (ClusterState.init threeNodes)
        (commitTwo ++ lateFirst ++ lateAcknowledgement) s ∧
      Stuck ⟨s.node 0, s.node 1⟩ ∧
      Possible (step threeNodes) FailureFree
        (fun t => ∃ call, t.proposals = call :: s.proposals ∧ call.nodeId ∈ threeNodes.peers ∧
          call.command = [99] ∧ CommittedEverywhere threeNodes t call) s := by
  rcases stuck_after_lateAcknowledgement with ⟨s, hrun, -, hstuck⟩
  exact ⟨s, hrun, hstuck, command_can_be_committed threeNodes (by decide) hrun [99]⟩

end NanoDB.Raft
