import NanoDB.Lib.Ledger
import NanoDB.Raft.Cluster

/-!
# Election safety

Every run of a cluster is instrumented with a ledger of votes, elections, leader
logs and acknowledgements.  The vote invariant ties the ledger to the term and
vote that each node keeps on disk; quorum intersection then leaves at most one
leader to a term.

Main results:

- Theorem {lit}`VoteInv.step`: every transition keeps the vote invariant.
- Theorem {lit}`election_safety`: along every run, with any messages, compactions,
  snapshots and restarts, a term has at most one leader, terms never decrease and
  votes are never changed within a term.
-/

namespace NanoDB.Raft

open Lib RaftNode

/-- The history of a cluster run. -/
abbrev History := Ledger Int PersistedEntry

/-- How an action that is taken in {lit}`s` is recorded. -/
def track (s : ClusterState) : Action → History → History
  | .startElection n, h =>
      h.castVote ((s.node n).state.currentTerm + 1) n n (s.node n).log.entries
  | .handleRequestVote n req, h =>
      if ((s.node n).handleRequestVote req).2.voteGranted then
        h.castVote req.term n req.candidateId (s.node n).log.entries
      else h
  | .finishElection n granted, h =>
      match s.election n with
      | none => h
      | some req =>
          if (s.node n).role = .candidate ∧ (s.node n).state.currentTerm = req.term ∧
              1 + granted.length ≥ majority (s.node n).peers.length then
            h.elect req.term n (s.node n).log.entries (insert n granted.toFinset)
          else h
  | .propose n command, h =>
      if (s.node n).role = .leader then
        h.extend (s.node n).state.currentTerm n ⟨(s.node n).state.currentTerm, command⟩
      else h
  | .handleAppendEntries n req, h =>
      if ((s.node n).handleAppendEntries req).2.success then
        h.acknowledge req.term n (req.prevLogIndex + req.entries.length)
      else h
  | _, h => h

/-! ## Sections that cast no vote -/

/-- The node neither votes nor stands for election: it keeps its role or steps
down, and keeps its term and vote or adopts a newer term as a follower. -/
structure Quiet (node node' : RaftNode) : Prop where
  nodeId : node'.nodeId = node.nodeId
  peers : node'.peers = node.peers
  role : node'.role = node.role ∨ node'.role = .follower
  state : node'.state = node.state ∨
    (node.state.currentTerm < node'.state.currentTerm ∧ node'.state.votedFor = -1 ∧
      node'.role = .follower)

namespace Quiet

variable {node node' node'' : RaftNode}

theorem refl (node : RaftNode) : Quiet node node :=
  ⟨rfl, rfl, .inl rfl, .inl rfl⟩

theorem trans (h : Quiet node node') (h' : Quiet node' node'') : Quiet node node'' where
  nodeId := h'.nodeId.trans h.nodeId
  peers := h'.peers.trans h.peers
  role := by
    rcases h'.role with hr' | hr'
    · rcases h.role with hr | hr
      · exact .inl (hr'.trans hr)
      · exact .inr (hr'.trans hr)
    · exact .inr hr'
  state := by
    rcases h'.state with hs' | ⟨hlt', hv', hr'⟩
    · rcases h.state with hs | ⟨hlt, hv, hr⟩
      · exact .inl (hs'.trans hs)
      · refine .inr ⟨hs' ▸ hlt, hs' ▸ hv, ?_⟩
        rcases h'.role with hrole | hrole
        · exact hrole.trans hr
        · exact hrole
    · refine .inr ⟨?_, hv', hr'⟩
      rcases h.state with hs | ⟨hlt, -, -⟩
      · rw [← hs]
        exact hlt'
      · exact hlt.trans hlt'

theorem observeTerm (node : RaftNode) (term : Nat) : Quiet node (node.observeTerm term) := by
  unfold RaftNode.observeTerm
  split
  · exact ⟨rfl, rfl, .inr rfl, .inr ⟨‹_›, rfl, rfl⟩⟩
  · exact refl node

theorem handleRequestVoteReply (node : RaftNode) (electionTerm : Nat)
    (resp : RequestVoteResponse) : Quiet node (node.handleRequestVoteReply electionTerm resp) := by
  unfold RaftNode.handleRequestVoteReply
  split
  · exact observeTerm node resp.term
  · exact refl node

theorem acceptEntries (node : RaftNode) (req : AppendEntriesRequest) :
    Quiet node (node.acceptEntries req) := by
  unfold RaftNode.acceptEntries
  dsimp only
  split_ifs <;> exact ⟨by simp, by simp, .inl (by simp), .inl (by simp)⟩

theorem handleAppendEntries (node : RaftNode) (req : AppendEntriesRequest) :
    Quiet node (node.handleAppendEntries req).1 := by
  have hobs := observeTerm node req.term
  unfold RaftNode.handleAppendEntries
  dsimp only
  split_ifs
  · exact hobs
  · refine (hobs.trans ?_).trans (acceptEntries _ req)
    exact ⟨rfl, rfl, .inr rfl, .inl rfl⟩
  · exact hobs.trans ⟨rfl, rfl, .inr rfl, .inl rfl⟩

theorem handleAppendEntriesReply (node : RaftNode) (peerId : Int) (req : AppendEntriesRequest)
    (resp : AppendEntriesResponse) :
    Quiet node (node.handleAppendEntriesReply peerId req resp) := by
  unfold RaftNode.handleAppendEntriesReply
  dsimp only
  split_ifs with hterm
  · exact ⟨rfl, rfl, .inr rfl, .inr ⟨hterm, rfl, rfl⟩⟩
  all_goals exact ⟨by simp, by simp, .inl (by simp), .inl (by simp)⟩

theorem handleInstallSnapshot (node : RaftNode) (req : InstallSnapshotRequest) :
    Quiet node (node.handleInstallSnapshot req).1 := by
  have hobs := observeTerm node req.term
  unfold RaftNode.handleInstallSnapshot
  dsimp only
  split_ifs
  · exact hobs
  · exact hobs.trans ⟨rfl, rfl, .inr rfl, .inl rfl⟩
  · exact hobs.trans ⟨rfl, rfl, .inr rfl, .inl rfl⟩

theorem handleInstallSnapshotReply (node : RaftNode) (peerId : Int) (req : InstallSnapshotRequest)
    (resp : InstallSnapshotResponse) :
    Quiet node (node.handleInstallSnapshotReply peerId req resp) := by
  unfold RaftNode.handleInstallSnapshotReply
  split_ifs with hterm
  · exact ⟨rfl, rfl, .inr rfl, .inr ⟨hterm, rfl, rfl⟩⟩
  all_goals exact ⟨rfl, rfl, .inl rfl, .inl rfl⟩

theorem compact (node : RaftNode) (upToIndex : Nat) (snapshotData : Bytes) :
    Quiet node (node.compact upToIndex snapshotData).1 := by
  unfold RaftNode.compact
  dsimp only
  split_ifs <;> exact ⟨rfl, rfl, .inl rfl, .inl rfl⟩

theorem propose {command : Bytes} {call : ProposeCall}
    (h : node.propose command = some (node', call)) : Quiet node node' := by
  unfold RaftNode.propose at h
  split_ifs at h
  simp only [Option.some.injEq, Prod.mk.injEq] at h
  obtain ⟨rfl, -⟩ := h
  exact ⟨by simp, by simp, .inl (by simp), .inl (by simp)⟩

/-- A restart from the term and vote on disk, or from a newer term that was written
by a handler which did not get further. -/
theorem restart (node : RaftNode) {state : PersistentState}
    (h : state = node.state ∨ (node.state.currentTerm < state.currentTerm ∧ state.votedFor = -1)) :
    Quiet node (node.restart state) := by
  refine ⟨rfl, rfl, .inr rfl, ?_⟩
  rcases h with rfl | ⟨hlt, hv⟩
  · exact .inl rfl
  · exact .inr ⟨hlt, hv, rfl⟩

end Quiet

/-! ## The vote invariant -/

/-- The members as a set. -/
def Membership.members (c : Membership) : Finset Int :=
  c.peers.toFinset

/-- The ledger's votes are backed by what the voters have on disk, and elections
by quorums of votes. -/
structure VoteInv (c : Membership) (s : ClusterState) (h : History) : Prop where
  nodeId : ∀ n, (s.node n).nodeId = n
  peers : ∀ n, (s.node n).peers = c.peers
  voted : ∀ t v m, (t, v, m) ∈ h.votes → m ≠ -1 ∧
    (t < (s.node v).state.currentTerm ∨
      ((s.node v).state.currentTerm = t ∧ (s.node v).state.votedFor = m))
  unique : ∀ t v m m', (t, v, m) ∈ h.votes → (t, v, m') ∈ h.votes → m = m'
  request : ∀ dst req, .requestVote dst req ∈ s.net → req.candidateId ≠ -1
  granted : ∀ src req resp, .requestVoteReply src req resp ∈ s.net → resp.voteGranted = true →
    (req.term, src, req.candidateId) ∈ h.votes
  selfVote : ∀ n, (s.node n).role ≠ .follower → ((s.node n).state.currentTerm, n, n) ∈ h.votes
  electing : ∀ n req, s.election n = some req → req.candidateId = n ∧ n ∈ c.peers
  quorum : ∀ t n, h.leader t = some n → IsQuorum c.members (h.electorate t) ∧
    n ∈ h.electorate t ∧ ∀ v ∈ h.electorate t, (t, v, n) ∈ h.votes
  leads : ∀ n, (s.node n).role = .leader → h.leader (s.node n).state.currentTerm = some n
  standing : ∀ n, (s.node n).role = .candidate → h.leader (s.node n).state.currentTerm ≠ some n
  leadNil : ∀ t, h.leader t = none → h.lead t = []

namespace VoteInv

variable {c : Membership} {s s' : ClusterState} {h h' : History}

/-- A term with a vote has been reached by the voter. -/
theorem term_le (hinv : VoteInv c s h) {t : Nat} {v m : Int} (hv : (t, v, m) ∈ h.votes) :
    t ≤ (s.node v).state.currentTerm := by
  rcases (hinv.voted t v m hv).2 with hlt | ⟨heq, -⟩
  · exact hlt.le
  · exact heq.ge

/-- A leader has reached its term. -/
theorem leader_term_le (hinv : VoteInv c s h) {t : Nat} {n : Int} (hn : h.leader t = some n) :
    t ≤ (s.node n).state.currentTerm := by
  obtain ⟨-, hmem, hvotes⟩ := hinv.quorum t n hn
  exact hinv.term_le (hvotes n hmem)

/-- A leader is a member. -/
theorem leader_mem (hinv : VoteInv c s h) {t : Nat} {n : Int} (hn : h.leader t = some n) :
    n ∈ c.peers := by
  obtain ⟨hquorum, hmem, -⟩ := hinv.quorum t n hn
  exact List.mem_toFinset.mp (hquorum.1 hmem)

theorem init (c : Membership) : VoteInv c (ClusterState.init c) {} where
  nodeId _ := rfl
  peers _ := rfl
  voted _ _ _ hv := absurd hv (Set.notMem_empty _)
  unique _ _ _ _ hv := absurd hv (Set.notMem_empty _)
  request _ _ hm := absurd hm List.not_mem_nil
  granted _ _ _ hm := absurd hm List.not_mem_nil
  selfVote _ hrole := absurd rfl hrole
  electing _ _ he := by simp [ClusterState.init] at he
  quorum _ _ hn := by simp at hn
  leads _ hrole := by simp [ClusterState.init, openFiles] at hrole
  standing _ hrole := by simp [ClusterState.init, openFiles] at hrole
  leadNil _ _ := rfl

/-- Transitions in which every node is quiet and no vote travels keep the
invariant. -/
theorem of_quiet (hinv : VoteInv c s h) (hquiet : ∀ n, Quiet (s.node n) (s'.node n))
    (hreq : ∀ dst req, .requestVote dst req ∈ s'.net → .requestVote dst req ∈ s.net)
    (hreply : ∀ src req resp, .requestVoteReply src req resp ∈ s'.net →
      resp.voteGranted = true → .requestVoteReply src req resp ∈ s.net)
    (hel : ∀ n req, s'.election n = some req → s.election n = some req)
    (hvotes : h'.votes = h.votes) (hleader : h'.leader = h.leader)
    (helectorate : h'.electorate = h.electorate)
    (hlead : ∀ t, h.leader t = none → h'.lead t = h.lead t) : VoteInv c s' h' where
  nodeId n := (hquiet n).nodeId.trans (hinv.nodeId n)
  peers n := (hquiet n).peers.trans (hinv.peers n)
  voted t v m hv := by
    obtain ⟨hm, hterm⟩ := hinv.voted t v m (hvotes ▸ hv)
    refine ⟨hm, ?_⟩
    rcases (hquiet v).state with hs | ⟨hlt, -, -⟩
    · rw [hs]
      exact hterm
    · exact .inl (lt_of_le_of_lt (hinv.term_le (hvotes ▸ hv)) hlt)
  unique t v m m' hv hv' := hinv.unique t v m m' (hvotes ▸ hv) (hvotes ▸ hv')
  request dst req hm := hinv.request dst req (hreq dst req hm)
  granted src req resp hm hg := hvotes ▸ hinv.granted src req resp (hreply src req resp hm hg) hg
  selfVote n hrole := by
    obtain hr | hr := (hquiet n).role
    · obtain hs | ⟨-, -, hf⟩ := (hquiet n).state
      · rw [hvotes, hs]
        exact hinv.selfVote n (hr ▸ hrole)
      · exact absurd hf hrole
    · exact absurd hr hrole
  electing n req he := hinv.electing n req (hel n req he)
  quorum t n hn := by
    rw [helectorate, hvotes]
    exact hinv.quorum t n (hleader ▸ hn)
  leads n hrole := by
    obtain hr | hr := (hquiet n).role
    · obtain hs | ⟨-, -, hf⟩ := (hquiet n).state
      · rw [hleader, hs]
        exact hinv.leads n (hr ▸ hrole)
      · simp [hf] at hrole
    · simp [hr] at hrole
  standing n hrole := by
    obtain hr | hr := (hquiet n).role
    · obtain hs | ⟨-, -, hf⟩ := (hquiet n).state
      · rw [hleader, hs]
        exact hinv.standing n (hr ▸ hrole)
      · simp [hf] at hrole
    · simp [hr] at hrole
  leadNil t ht := by
    rw [hleader] at ht
    rw [hlead t ht, hinv.leadNil t ht]

/-- While a node's vote of a term is free for a candidate, an older vote of the node in
that term names the same candidate. -/
theorem eq_of_free (hinv : VoteInv c s h) {v m m' : Int} {t : Nat}
    (hfree : (s.node v).state.currentTerm < t ∨ ((s.node v).state.currentTerm = t ∧
      ((s.node v).state.votedFor = -1 ∨ (s.node v).state.votedFor = m)))
    (hv : (t, v, m') ∈ h.votes) : m' = m := by
  obtain ⟨hm', hterm⟩ := hinv.voted t v m' hv
  rcases hfree with hlt | ⟨heq, hfree⟩
  · have := hinv.term_le hv
    omega
  · rcases hterm with hlt | ⟨-, hvoted⟩
    · omega
    · rcases hfree with hfree | hfree
      · exact absurd (hvoted.symm.trans hfree) hm'
      · exact hvoted.symm.trans hfree

/-- A node casts its vote of a newer term, or its still free vote of the current
one: the ledger gains a vote that contradicts no older one. -/
theorem of_vote (hinv : VoteInv c s h) {v m : Int} {t : Nat} {l : List PersistedEntry}
    (hother : ∀ n, n ≠ v → s'.node n = s.node n)
    (hid : (s'.node v).nodeId = (s.node v).nodeId) (hpeers : (s'.node v).peers = (s.node v).peers)
    (hstate : (s'.node v).state = ⟨t, m⟩) (hm : m ≠ -1)
    (hfree : (s.node v).state.currentTerm < t ∨ ((s.node v).state.currentTerm = t ∧
      ((s.node v).state.votedFor = -1 ∨ (s.node v).state.votedFor = m)))
    (hrole : (s'.node v).role = .follower ∨
      ((s'.node v).role = (s.node v).role ∧ (s.node v).state.currentTerm = t) ∨
      ((s'.node v).role = .candidate ∧ m = v ∧ (s.node v).state.currentTerm < t))
    (hreq : ∀ dst req, .requestVote dst req ∈ s'.net →
      .requestVote dst req ∈ s.net ∨ req.candidateId = m)
    (hreply : ∀ src req resp, .requestVoteReply src req resp ∈ s'.net →
      resp.voteGranted = true → .requestVoteReply src req resp ∈ s.net ∨
        (req.term = t ∧ src = v ∧ req.candidateId = m))
    (hel : ∀ n req, s'.election n = some req →
      s.election n = some req ∨ (req.candidateId = n ∧ n ∈ c.peers)) :
    VoteInv c s' (h.castVote t v m l) := by
  have hsame : ∀ m', (t, v, m') ∈ h.votes → m' = m := fun _ hv => hinv.eq_of_free hfree hv
  have hle : (s.node v).state.currentTerm ≤ t := by
    rcases hfree with hlt | ⟨heq, -⟩ <;> omega
  have hcast : ∀ t' v' m', (t', v', m') ∈ (h.castVote t v m l).votes ↔
      (t', v', m') = (t, v, m) ∨ (t', v', m') ∈ h.votes := fun _ _ _ => Iff.rfl
  constructor
  case nodeId =>
    intro n
    by_cases hn : n = v
    · subst hn
      rw [hid, hinv.nodeId]
    · rw [hother n hn, hinv.nodeId]
  case peers =>
    intro n
    by_cases hn : n = v
    · subst hn
      rw [hpeers, hinv.peers]
    · rw [hother n hn, hinv.peers]
  case voted =>
    intro t' v' m' hv
    rcases (hcast t' v' m').mp hv with heq | hold
    · simp only [Prod.mk.injEq] at heq
      obtain ⟨rfl, rfl, rfl⟩ := heq
      exact ⟨hm, .inr (by simp [hstate])⟩
    · obtain ⟨hm', hterm⟩ := hinv.voted t' v' m' hold
      refine ⟨hm', ?_⟩
      by_cases hv' : v' = v
      · subst hv'
        have hle' := hinv.term_le hold
        rw [hstate]
        rcases Nat.lt_or_ge t' t with hlt | hge
        · exact .inl hlt
        · have htt : t' = t := le_antisymm (hle'.trans hle) hge
          subst htt
          exact .inr ⟨rfl, (hsame m' hold).symm⟩
      · rw [hother v' hv']
        exact hterm
  case unique =>
    intro t' v' m₁ m₂ hv₁ hv₂
    rcases (hcast t' v' m₁).mp hv₁ with heq₁ | hold₁ <;>
      rcases (hcast t' v' m₂).mp hv₂ with heq₂ | hold₂
    · simp only [Prod.mk.injEq] at heq₁ heq₂
      exact heq₁.2.2.trans heq₂.2.2.symm
    · simp only [Prod.mk.injEq] at heq₁
      obtain ⟨rfl, rfl, rfl⟩ := heq₁
      exact (hsame m₂ hold₂).symm
    · simp only [Prod.mk.injEq] at heq₂
      obtain ⟨rfl, rfl, rfl⟩ := heq₂
      exact hsame m₁ hold₁
    · exact hinv.unique t' v' m₁ m₂ hold₁ hold₂
  case request =>
    intro dst req hmem
    rcases hreq dst req hmem with hold | hnew
    · exact hinv.request dst req hold
    · rw [hnew]
      exact hm
  case granted =>
    intro src req resp hmem hg
    rw [hcast]
    rcases hreply src req resp hmem hg with hold | ⟨rfl, rfl, rfl⟩
    · exact .inr (hinv.granted src req resp hold hg)
    · exact .inl rfl
  case selfVote =>
    intro n hn
    rw [hcast]
    by_cases hnv : n = v
    · subst hnv
      rw [hstate]
      rcases hrole with hf | ⟨hkeep, heq⟩ | ⟨-, rfl, -⟩
      · exact absurd hf hn
      · rw [hkeep] at hn
        exact .inr (heq ▸ hinv.selfVote n hn)
      · exact .inl rfl
    · rw [hother n hnv] at hn ⊢
      exact .inr (hinv.selfVote n hn)
  case electing =>
    intro n req he
    rcases hel n req he with hold | hnew
    · exact hinv.electing n req hold
    · exact hnew
  case quorum =>
    intro t' n hn
    obtain ⟨hq, hmem, hvotes⟩ := hinv.quorum t' n hn
    exact ⟨hq, hmem, fun v' hv' => .inr (hvotes v' hv')⟩
  case leads =>
    intro n hn
    by_cases hnv : n = v
    · subst hnv
      rcases hrole with hf | ⟨hkeep, heq⟩ | ⟨hcand, -, -⟩
      · simp [hf] at hn
      · rw [hstate]
        exact heq ▸ hinv.leads n (hkeep ▸ hn)
      · simp [hcand] at hn
    · rw [hother n hnv] at hn ⊢
      exact hinv.leads n hn
  case standing =>
    intro n hn
    by_cases hnv : n = v
    · subst hnv
      rw [hstate]
      rcases hrole with hf | ⟨hkeep, heq⟩ | ⟨-, -, hlt⟩
      · simp [hf] at hn
      · exact heq ▸ hinv.standing n (hkeep ▸ hn)
      · intro hlead
        exact absurd (hinv.leader_term_le hlead) (Nat.not_le.mpr hlt)
    · rw [hother n hnv] at hn ⊢
      exact hinv.standing n hn
  case leadNil => exact hinv.leadNil

/-- A candidate with a quorum of counted votes becomes the first and only leader
of its term. -/
theorem of_elect (hinv : VoteInv c s h) {n : Int} {t : Nat} {voters : Finset Int}
    {l : List PersistedEntry} (hother : ∀ m, m ≠ n → s'.node m = s.node m)
    (hid : (s'.node n).nodeId = (s.node n).nodeId) (hpeers : (s'.node n).peers = (s.node n).peers)
    (hstate : (s'.node n).state = (s.node n).state)
    (hterm : (s.node n).state.currentTerm = t) (hfresh : h.leader t = none)
    (hrole' : (s'.node n).role = .leader) (hnet : s'.net = s.net)
    (hel : ∀ m req, s'.election m = some req → s.election m = some req)
    (hquorum : IsQuorum c.members voters) (hself : n ∈ voters)
    (hvotes : ∀ v ∈ voters, (t, v, n) ∈ h.votes) : VoteInv c s' (h.elect t n l voters) := by
  have hsame : ∀ m, (s'.node m).state = (s.node m).state := by
    intro m
    by_cases hm : m = n
    · rw [hm, hstate]
    · rw [hother m hm]
  constructor
  case nodeId =>
    intro m
    by_cases hm : m = n
    · rw [hm, hid, hinv.nodeId]
    · rw [hother m hm, hinv.nodeId]
  case peers =>
    intro m
    by_cases hm : m = n
    · rw [hm, hpeers, hinv.peers]
    · rw [hother m hm, hinv.peers]
  case voted =>
    intro t' v m hv
    rw [hsame]
    exact hinv.voted t' v m hv
  case unique => exact hinv.unique
  case request =>
    rw [hnet]
    exact hinv.request
  case granted =>
    rw [hnet]
    exact hinv.granted
  case selfVote =>
    intro m hm
    rw [hsame]
    by_cases hmn : m = n
    · rw [hmn, hterm]
      exact hvotes n hself
    · rw [hother m hmn] at hm
      exact hinv.selfVote m hm
  case electing => exact fun m req he => hinv.electing m req (hel m req he)
  case quorum =>
    intro t' m hm
    by_cases ht : t' = t
    · subst ht
      simp only [Ledger.elect, Function.update_self, Option.some.injEq] at hm ⊢
      subst hm
      exact ⟨hquorum, hself, hvotes⟩
    · simp only [Ledger.elect, Function.update_of_ne ht] at hm ⊢
      exact hinv.quorum t' m hm
  case leads =>
    intro m hm
    rw [hsame]
    by_cases hmn : m = n
    · rw [hmn, hterm]
      simp [Ledger.elect]
    · rw [hother m hmn] at hm
      have hlead := hinv.leads m hm
      have hne : (s.node m).state.currentTerm ≠ t := by
        rintro heq
        rw [heq, hfresh] at hlead
        contradiction
      simp only [Ledger.elect, Function.update_of_ne hne]
      exact hlead
  case standing =>
    intro m hm
    rw [hsame]
    by_cases hmn : m = n
    · rw [hmn, hrole'] at hm
      contradiction
    · rw [hother m hmn] at hm
      by_cases ht : (s.node m).state.currentTerm = t
      · simp only [Ledger.elect, ht, Function.update_self, ne_eq, Option.some.injEq]
        exact fun heq => hmn heq.symm
      · simp only [Ledger.elect, Function.update_of_ne ht]
        exact hinv.standing m hm
  case leadNil =>
    intro t' ht'
    by_cases ht : t' = t
    · simp [Ledger.elect, ht] at ht'
    · simp only [Ledger.elect, Function.update_of_ne ht] at ht' ⊢
      exact hinv.leadNil t' ht'

/-- A quorum of counted votes in a term excludes another leader of it. -/
theorem leader_eq_none_of_quorum (hinv : VoteInv c s h) {n : Int} {voters : Finset Int}
    (hrole : (s.node n).role = .candidate) (hquorum : IsQuorum c.members voters)
    (hvotes : ∀ v ∈ voters, ((s.node n).state.currentTerm, v, n) ∈ h.votes) :
    h.leader (s.node n).state.currentTerm = none := by
  cases hlead : h.leader (s.node n).state.currentTerm with
  | none => rfl
  | some m =>
      obtain ⟨hq, -, hm⟩ := hinv.quorum _ m hlead
      obtain ⟨v, hv, hv'⟩ := hquorum.meet hq
      have : n = m := hinv.unique _ v n m (hvotes v hv) (hm v hv')
      exact absurd (this ▸ hlead) (hinv.standing n hrole)

/-- The node itself and the peers it counted form a quorum. -/
theorem isQuorum_counted (hinv : VoteInv c s h) {n : Int} {granted : List Int} (hn : n ∈ c.peers)
    (hnodup : granted.Nodup) (hstubs : ∀ p ∈ granted, p ∈ (s.node n).stubs)
    (hcard : 1 + granted.length ≥ majority (s.node n).peers.length) :
    IsQuorum c.members (insert n granted.toFinset) := by
  have hmem : ∀ p ∈ granted, p ∈ c.peers ∧ p ≠ n := by
    intro p hp
    have := hstubs p hp
    simpa [stubs, hinv.peers n, hinv.nodeId n] using this
  constructor
  · intro p hp
    rw [Membership.members, List.mem_toFinset]
    rcases Finset.mem_insert.mp hp with rfl | hp
    · exact hn
    · exact (hmem p (List.mem_toFinset.mp hp)).1
  · have hnot : n ∉ granted.toFinset := fun hp => (hmem n (List.mem_toFinset.mp hp)).2 rfl
    rw [Finset.card_insert_of_notMem hnot, List.toFinset_card_of_nodup hnodup, Membership.members,
      List.toFinset_card_of_nodup c.nodup]
    simp only [majority, hinv.peers n] at hcard
    omega

/-- What a won election rests on: a quorum of votes, in a term without a leader. -/
theorem of_win (hinv : VoteInv c s h) {n : Int} {granted : List Int} {req : RequestVoteRequest}
    (hel : s.election n = some req) (hnodup : granted.Nodup)
    (hcount : ∀ p ∈ granted, p ∈ (s.node n).stubs ∧ voteCounted s.net p req = true)
    (hwin : (s.node n).role = .candidate ∧ (s.node n).state.currentTerm = req.term ∧
      1 + granted.length ≥ majority (s.node n).peers.length) :
    IsQuorum c.members (insert n granted.toFinset) ∧
      (∀ v ∈ insert n granted.toFinset, (req.term, v, n) ∈ h.votes) ∧
      h.leader req.term = none := by
  obtain ⟨hrole, hterm, hcard⟩ := hwin
  obtain ⟨hid, hn⟩ := hinv.electing n req hel
  have hquorum := hinv.isQuorum_counted hn hnodup (fun p hp => (hcount p hp).1) hcard
  have hvotes : ∀ v ∈ insert n granted.toFinset, (req.term, v, n) ∈ h.votes := by
    intro v hv
    rcases Finset.mem_insert.mp hv with rfl | hv
    · exact hterm ▸ hinv.selfVote v (by simp [hrole])
    · obtain ⟨resp, hmem, hg⟩ := exists_of_voteCounted (hcount v (List.mem_toFinset.mp hv)).2
      exact hid ▸ hinv.granted v req resp hmem hg
  refine ⟨hquorum, hvotes, ?_⟩
  exact hterm ▸ hinv.leader_eq_none_of_quorum hrole hquorum (hterm ▸ hvotes)

/-- Updating one node quietly makes every node quiet. -/
theorem quiet_update {n : Int} {node : RaftNode} (hq : Quiet (s.node n) node) (m : Int) :
    Quiet (s.node m) (Function.update s.node n node m) :=
  ClusterState.rel_update Quiet.refl hq m

/-- Where also no message is sent and the history stays, only elections can have ended. -/
theorem of_silent (hinv : VoteInv c s h) (hquiet : ∀ n, Quiet (s.node n) (s'.node n))
    (hnet : s'.net = s.net) (hel : ∀ n req, s'.election n = some req → s.election n = some req) :
    VoteInv c s' h := by
  refine hinv.of_quiet hquiet ?_ ?_ hel rfl rfl rfl (fun _ _ => rfl)
  · intro dst req hm
    rwa [hnet] at hm
  · intro src req resp hm _
    rwa [hnet] at hm

/-- Dropping one election adds none. -/
theorem election_of_update_none {n m : Int} {req : RequestVoteRequest}
    (he : Function.update s.election n none m = some req) : s.election m = some req := by
  by_cases hm : m = n
  · simp [hm] at he
  · simpa [hm] using he

/-- **Step lemma.**  Every transition keeps the vote invariant. -/
theorem step (hinv : VoteInv c s h) {a : Action} (hstep : step c s a = some s') :
    VoteInv c s' (track s a h) := by
  cases step_cases hstep with
  | @startElection n hn hrole hidle =>
      have hne : n ≠ -1 := fun heq => c.noVote_notMem (heq ▸ hn)
      have hid := hinv.nodeId n
      refine hinv.of_vote (fun m hm => by simp [hm]) (by simp [RaftNode.startElection])
        (by simp [RaftNode.startElection]) (by simp [RaftNode.startElection, hid]) hne
        (.inl (Nat.lt_succ_self _))
        (.inr (.inr ⟨by simp [RaftNode.startElection], rfl, Nat.lt_succ_self _⟩)) ?_ ?_ ?_
      · intro dst req hmem
        simp only [ClusterState.setElection_net, ClusterState.update_net, List.mem_append,
          List.mem_map, Message.requestVote.injEq] at hmem
        rcases hmem with ⟨p, -, -, rfl⟩ | hold
        · exact .inr hid
        · exact .inl hold
      · intro src req resp hmem _
        exact .inl (by simpa using hmem)
      · intro m req he
        by_cases hm : m = n
        · subst hm
          simp only [ClusterState.setElection_election, Function.update_self,
            Option.some.injEq] at he
          exact .inr ⟨he ▸ hid, hn⟩
        · exact .inl (by simpa [hm] using he)
  | @handleRequestVote n req hmem =>
      rcases handleRequestVote_cases (s.node n) req with ⟨hno, hnode⟩ | ⟨hyes, -, hfree⟩
      · rw [track, if_neg (by simp [hno])]
        refine hinv.of_quiet (quiet_update (hnode ▸ Quiet.observeTerm _ _)) ?_ ?_
          (fun _ _ he => he) rfl rfl rfl (fun _ _ => rfl)
        · intro dst req' hm
          simpa using hm
        · intro src req' resp hm hg
          simp only [ClusterState.update_net, List.cons_append, List.nil_append, List.mem_cons,
            Message.requestVoteReply.injEq] at hm
          rcases hm with ⟨-, -, rfl⟩ | hold
          · rw [hno] at hg
            contradiction
          · exact hold
      · rw [track, if_pos (by simp [hyes])]
        have hcand := hinv.request n req hmem
        refine hinv.of_vote (fun m hm => by simp [hm]) ?_ ?_ (by simp [hyes]) hcand hfree ?_ ?_ ?_
          (fun _ _ he => .inl he)
        · simp [hyes, (Quiet.observeTerm (s.node n) req.term).nodeId]
        · simp [hyes, (Quiet.observeTerm (s.node n) req.term).peers]
        · rcases hfree with hlt | ⟨heq, -⟩
          · exact .inl (by simp [hyes, observeTerm, hlt, becomeFollower])
          · exact .inr (.inl ⟨by simp [hyes, observeTerm, heq], heq⟩)
        · intro dst req' hm
          exact .inl (by simpa using hm)
        · intro src req' resp hm _
          simp only [ClusterState.update_net, List.cons_append, List.nil_append, List.mem_cons,
            Message.requestVoteReply.injEq] at hm
          rcases hm with ⟨rfl, rfl, -⟩ | hold
          · exact .inr ⟨rfl, rfl, rfl⟩
          · exact .inl hold
  | handleRequestVoteReply hmem hel =>
      exact hinv.of_silent (quiet_update (Quiet.handleRequestVoteReply _ _ _)) rfl
        (fun _ _ he => he)
  | @finishElection n granted req hel hnodup hcount =>
      simp only [track, hel]
      by_cases hwin : (s.node n).role = .candidate ∧ (s.node n).state.currentTerm = req.term ∧
          1 + granted.length ≥ majority (s.node n).peers.length
      · rw [if_pos hwin]
        obtain ⟨hquorum, hvotes, hfresh⟩ := hinv.of_win hel hnodup hcount hwin
        obtain ⟨hrole, hterm, hcard⟩ := hwin
        refine hinv.of_elect (fun m hm => by simp [hm]) ?_ ?_ ?_ hterm hfresh ?_ rfl
          (fun _ _ => election_of_update_none) hquorum
          (Finset.mem_insert_self _ _) hvotes
        · simp [RaftNode.finishElection, hrole, hterm, hcard]
        · simp [RaftNode.finishElection, hrole, hterm, hcard]
        · simp [RaftNode.finishElection, hrole, hterm, hcard]
        · simp [RaftNode.finishElection, hrole, hterm, hcard]
      · rw [if_neg hwin]
        have hsame : (s.node n).finishElection req.term (1 + granted.length) = s.node n := by
          rw [RaftNode.finishElection, if_neg hwin]
        have hquiet : Quiet (s.node n) ((s.node n).finishElection req.term (1 + granted.length)) :=
          hsame.symm ▸ Quiet.refl (s.node n)
        exact hinv.of_silent (quiet_update hquiet) rfl (fun _ _ => election_of_update_none)
  | proposeRefused hrole =>
      rw [track, if_neg hrole]
      exact hinv
  | @propose n command node call hn hcall =>
      refine hinv.of_quiet (quiet_update (Quiet.propose hcall)) (fun _ _ hm => hm)
        (fun _ _ _ hm _ => hm) (fun _ _ he => he) ?_ ?_ ?_ ?_
      · rw [track]
        split <;> rfl
      · rw [track]
        split <;> rfl
      · rw [track]
        split <;> rfl
      · intro t ht
        rw [track]
        split
        · rename_i hrole
          have hne : t ≠ (s.node n).state.currentTerm := by
            rintro rfl
            rw [hinv.leads n hrole] at ht
            contradiction
          simp [Ledger.extend, hne]
        · rfl
  | replicate hn =>
      exact hinv.of_silent (fun _ => Quiet.refl _) rfl (fun _ _ he => he)
  | sendStop => exact hinv
  | sendSnapshot hmem hreq =>
      exact hinv.of_quiet (fun _ => Quiet.refl _) (fun _ _ hm => by simpa using hm)
        (fun _ _ _ hm _ => by simpa using hm) (fun _ _ he => he) rfl rfl rfl (fun _ _ => rfl)
  | sendChecked hmem hgo =>
      exact hinv.of_silent (fun _ => Quiet.refl _) rfl (fun _ _ he => he)
  | sendRefused => exact hinv
  | sendAppendEntries hmem hreq =>
      exact hinv.of_quiet (fun _ => Quiet.refl _) (fun _ _ hm => by simpa using hm)
        (fun _ _ _ hm _ => by simpa using hm) (fun _ _ he => he) rfl rfl rfl (fun _ _ => rfl)
  | handleAppendEntries hmem =>
      refine hinv.of_quiet (quiet_update (Quiet.handleAppendEntries _ _))
        (fun _ _ hm => by simpa using hm) (fun _ _ _ hm _ => by simpa using hm)
        (fun _ _ he => he) ?_ ?_ ?_ (fun _ _ => ?_)
      all_goals
        rw [track]
        split <;> rfl
  | handleAppendEntriesReply hmem =>
      exact hinv.of_silent (quiet_update (Quiet.handleAppendEntriesReply _ _ _ _)) rfl
        (fun _ _ he => he)
  | handleInstallSnapshot hmem =>
      exact hinv.of_quiet (quiet_update (Quiet.handleInstallSnapshot _ _))
        (fun _ _ hm => by simpa using hm) (fun _ _ _ hm _ => by simpa using hm)
        (fun _ _ he => he) rfl rfl rfl (fun _ _ => rfl)
  | handleInstallSnapshotReply hmem =>
      exact hinv.of_silent (quiet_update (Quiet.handleInstallSnapshotReply _ _ _ _)) rfl
        (fun _ _ he => he)
  | compact =>
      exact hinv.of_silent (quiet_update (Quiet.compact _ _ _)) rfl (fun _ _ he => he)
  | restart =>
      exact hinv.of_silent (quiet_update (Quiet.restart _ (.inl rfl))) rfl
        (fun _ _ => election_of_update_none)
  | crashAfterStepDown hmem hnew =>
      exact hinv.of_silent (quiet_update (Quiet.restart _ (.inr ⟨hnew, rfl⟩))) rfl
        (fun _ _ => election_of_update_none)

end VoteInv

/-! ## Runs -/

/-- The history only grows. -/
theorem track_extends {c : Membership} {s s' : ClusterState} {h : History} {a : Action}
    (hinv : VoteInv c s h) (hstep : step c s a = some s') : h.Extends (track s a h) := by
  cases step_cases hstep with
  | startElection => exact Ledger.Extends.castVote ..
  | handleRequestVote =>
      rw [track]
      split
      · exact Ledger.Extends.castVote ..
      · exact Ledger.Extends.refl h
  | finishElection hel hnodup hcount =>
      simp only [track, hel]
      split_ifs with hwin
      · obtain ⟨-, -, hfresh⟩ := hinv.of_win hel hnodup hcount hwin
        exact Ledger.Extends.elect hfresh (hinv.leadNil _ hfresh) ..
      · exact Ledger.Extends.refl h
  | proposeRefused hrole =>
      rw [track, if_neg hrole]
      exact Ledger.Extends.refl h
  | propose =>
      rw [track]
      split
      · exact Ledger.Extends.extend ..
      · exact Ledger.Extends.refl h
  | handleAppendEntries =>
      rw [track]
      split
      · exact Ledger.Extends.acknowledge ..
      · exact Ledger.Extends.refl h
  | _ => exact Ledger.Extends.refl h

/-- The term does not fall, and a vote cast in it stays while the term does. -/
def VoteKept (node node' : RaftNode) : Prop :=
  node.state.currentTerm ≤ node'.state.currentTerm ∧
    (node'.state.currentTerm = node.state.currentTerm → node.state.votedFor ≠ -1 →
      node'.state.votedFor = node.state.votedFor)

theorem VoteKept.refl (node : RaftNode) : VoteKept node node :=
  ⟨le_rfl, fun _ _ => rfl⟩

theorem VoteKept.trans {node node' node'' : RaftNode} (h : VoteKept node node')
    (h' : VoteKept node' node'') : VoteKept node node'' := by
  refine ⟨h.1.trans h'.1, fun heq hne => ?_⟩
  have hmid : node'.state.currentTerm = node.state.currentTerm := le_antisymm (heq ▸ h'.1) h.1
  have hkeep := h.2 hmid hne
  exact (h'.2 (heq.trans hmid.symm) (hkeep ▸ hne)).trans hkeep

theorem Quiet.voteKept {node node' : RaftNode} (h : Quiet node node') : VoteKept node node' := by
  rcases h.state with hs | ⟨hlt, -, -⟩
  · exact ⟨hs ▸ le_rfl, fun _ _ => hs ▸ rfl⟩
  · exact ⟨hlt.le, fun heq => absurd heq hlt.ne'⟩

/-- Replacing one node keeps votes if the node keeps its own. -/
theorem voteKept_update {s : ClusterState} {n : Int} {node : RaftNode}
    (hk : VoteKept (s.node n) node) (m : Int) :
    VoteKept (s.node m) (Function.update s.node n node m) :=
  ClusterState.rel_update VoteKept.refl hk m

/-- No transition lowers a term or changes a vote within a term. -/
theorem step_voteKept {c : Membership} {s s' : ClusterState} {a : Action}
    (hstep : step c s a = some s') (n : Int) : VoteKept (s.node n) (s'.node n) := by
  cases step_cases hstep with
  | startElection =>
      refine voteKept_update ⟨?_, fun heq => ?_⟩ n
      · exact Nat.le_succ _
      · exact absurd heq (Nat.succ_ne_self _)
  | @handleRequestVote m req =>
      refine voteKept_update ?_ n
      rcases handleRequestVote_cases (s.node m) req with ⟨-, hnode⟩ | ⟨hyes, -, hfree⟩
      · rw [hnode]
        exact (Quiet.observeTerm _ _).voteKept
      · rw [hyes]
        rcases hfree with hlt | ⟨heq, hfree⟩
        · exact ⟨hlt.le, fun heq => absurd heq hlt.ne'⟩
        · refine ⟨heq.le, fun _ hne => ?_⟩
          rcases hfree with hfree | hfree
          · exact absurd hfree hne
          · exact hfree.symm
  | handleRequestVoteReply =>
      exact voteKept_update (Quiet.handleRequestVoteReply _ _ _).voteKept n
  | finishElection =>
      refine voteKept_update ?_ n
      unfold RaftNode.finishElection
      split <;> exact VoteKept.refl _
  | propose _ hcall => exact voteKept_update (Quiet.propose hcall).voteKept n
  | handleAppendEntries => exact voteKept_update (Quiet.handleAppendEntries _ _).voteKept n
  | handleAppendEntriesReply =>
      exact voteKept_update (Quiet.handleAppendEntriesReply _ _ _ _).voteKept n
  | handleInstallSnapshot => exact voteKept_update (Quiet.handleInstallSnapshot _ _).voteKept n
  | handleInstallSnapshotReply =>
      exact voteKept_update (Quiet.handleInstallSnapshotReply _ _ _ _).voteKept n
  | compact => exact voteKept_update (Quiet.compact _ _ _).voteKept n
  | restart => exact voteKept_update (Quiet.restart _ (.inl rfl)).voteKept n
  | crashAfterStepDown _ hnew =>
      exact voteKept_update (Quiet.restart _ (.inr ⟨hnew, rfl⟩)).voteKept n
  | _ => exact VoteKept.refl _

/-- The cluster together with its history. -/
abbrev trackedStep (c : Membership) :=
  instrument (step c) track

/-- **Run lemma.**  The vote invariant holds at the end of every tracked run, and
the history at its end extends the one at its start. -/
theorem VoteInv.tracked {c : Membership} {ok : ClusterState × History → Action → Prop}
    {p p' : ClusterState × History} {as : List Action}
    (hrun : Exec (trackedStep c) ok p as p') (hinv : VoteInv c p.1 p.2) :
    VoteInv c p'.1 p'.2 ∧ p.2.Extends p'.2 := by
  have hpres : ∀ (q : ClusterState × History) (a : Action) (q' : ClusterState × History),
      VoteInv c q.1 q.2 → ok q a → trackedStep c q a = some q' → VoteInv c q'.1 q'.2 := by
    intro q a q' hq _ hstep
    obtain ⟨hs, hh⟩ := instrument_eq_some.mp hstep
    rw [hh]
    exact hq.step hs
  refine ⟨hrun.invariant (fun q => VoteInv c q.1 q.2) hpres hinv, ?_⟩
  refine hrun.relation (fun q => VoteInv c q.1 q.2) (fun q q' => q.2.Extends q'.2)
    (fun q => Ledger.Extends.refl q.2) (fun _ _ _ => Ledger.Extends.trans) hpres ?_ hinv
  intro q a q' hq _ hstep
  obtain ⟨hs, hh⟩ := instrument_eq_some.mp hstep
  rw [hh]
  exact track_extends hq hs

/-- **Election safety.**  Between any two states of a run, with any delivery of
messages and any compactions and restarts: one leader per term, terms that never
decrease, and votes that never change within a term. -/
theorem election_safety (c : Membership) {as as' : List Action} {s s' : ClusterState}
    (hrun : Runs c (fun _ _ => True) (ClusterState.init c) as s)
    (hrun' : Runs c (fun _ _ => True) s as' s') :
    (∀ n m, (s.node n).role = .leader → (s'.node m).role = .leader →
      (s.node n).state.currentTerm = (s'.node m).state.currentTerm → n = m) ∧
    (∀ n, (s.node n).state.currentTerm ≤ (s'.node n).state.currentTerm) ∧
    (∀ n, (s'.node n).state.currentTerm = (s.node n).state.currentTerm →
      (s.node n).state.votedFor ≠ -1 →
      (s'.node n).state.votedFor = (s.node n).state.votedFor) := by
  have hkept : ∀ n, VoteKept (s.node n) (s'.node n) := by
    refine hrun'.relation (fun _ => True) (fun s s' => ∀ n, VoteKept (s.node n) (s'.node n))
      (fun _ _ => VoteKept.refl _) (fun _ _ _ h h' n => (h n).trans (h' n))
      (fun _ _ _ _ _ _ => trivial) ?_ trivial
    exact fun _ _ _ _ _ hstep => step_voteKept hstep
  refine ⟨?_, fun n => (hkept n).1, fun n => (hkept n).2⟩
  intro n m hn hm hterm
  obtain ⟨h, htracked⟩ := hrun.instrument track {}
  obtain ⟨h', htracked'⟩ := hrun'.instrument track h
  obtain ⟨hinv, -⟩ := VoteInv.tracked htracked (VoteInv.init c)
  obtain ⟨hinv', hext⟩ := VoteInv.tracked htracked' hinv
  have hlead := hext.leader _ n (hinv.leads n hn)
  rw [hterm, hinv'.leads m hm] at hlead
  exact (Option.some.inj hlead).symm

/-- Node 0 wins the first election with the vote of node 1. -/
def firstElection : List Action :=
  [.startElection 0, .handleRequestVote 1 ⟨1, 0, 0, 0⟩, .finishElection 0 [1]]

theorem election_safety_firstElection :
    ∃ s, Runs threeNodes (fun _ _ => True) (ClusterState.init threeNodes) firstElection s ∧
      (s.node 0).role = .leader ∧
      ∀ m, (s.node m).role = .leader → (s.node 0).state.currentTerm = (s.node m).state.currentTerm →
        0 = m := by
  have hrun := Exec.of_guardedRun (step threeNodes) (fun _ _ => True)
    (ClusterState.init threeNodes) firstElection (by decide)
  have hrole : (((guardedRun (step threeNodes) (fun _ _ => True) (ClusterState.init threeNodes)
      firstElection).get (by decide)).node 0).role = .leader := by decide
  exact ⟨_, hrun, hrole, fun m => (election_safety threeNodes hrun (.nil _)).1 0 m hrole⟩

end NanoDB.Raft
