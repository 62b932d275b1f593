import NanoDB.Raft.Acknowledgement

/-!
# Ballots and leader completeness

A ballot records the log of a voter at the moment it votes.  A voter that had
acknowledged a prefix in an earlier term still has it in its ballot, or a leader in
between did not, and the log check of the vote compares the candidate with exactly
this log.

Main results:

- Theorem {lit}`BallotInv.step`: where acknowledged prefixes are kept, every
  transition but a compaction keeps the ballot invariant.
- Theorem {lit}`BallotInv.complete`: a prefix that a quorum acknowledged is in the
  first log of every later leader.
-/

namespace NanoDB.Raft

open Lib RaftNode

/-- The candidate of a request is at least as up to date as a voter's log. -/
def CandidateUpToDate (req : RequestVoteRequest) (l : List PersistedEntry) : Prop :=
  lastTerm PersistedEntry.term l < req.lastLogTerm ∨
    (req.lastLogTerm = lastTerm PersistedEntry.term l ∧ l.length ≤ req.lastLogIndex)

/-- The log check of a vote, on logs without a snapshot. -/
theorem candidateUpToDate_of_logOk {node : RaftNode} {req : RequestVoteRequest}
    (hlog : node.log.NoSnapshot) (hok : node.logOk req = true) :
    CandidateUpToDate req node.log.entries := by
  simpa [logOk, CandidateUpToDate, lastTerm, RaftLog.lastTerm_of_noSnapshot hlog,
    RaftLog.lastIndex_of_noSnapshot hlog] using hok

/-- Ballots are in order: they hold what their voters acknowledged, and every
election rests on ballots no more up to date than the winner. -/
structure BallotInv (s : ClusterState) (h : History) : Prop where
  reached : ∀ t v l, (t, v, l) ∈ h.ballots → t ≤ (s.node v).state.currentTerm
  follows : ∀ t v l, (t, v, l) ∈ h.ballots → Follows PersistedEntry.term h.lead l
  kept : ∀ t v l T k, (t, v, l) ∈ h.ballots → h.Acked T v k → T < t →
    (h.lead T).take k <+: l ∨
      ∃ T' n, T < T' ∧ T' < t ∧ h.leader T' = some n ∧ ¬ (h.lead T).take k <+: h.start T'
  granted : ∀ src req resp, .requestVoteReply src req resp ∈ s.net → resp.voteGranted = true →
    h.leader req.term = none → ∃ l, (req.term, src, l) ∈ h.ballots ∧ CandidateUpToDate req l
  electing : ∀ n req, s.election n = some req → (s.node n).role = .candidate →
    (s.node n).state.currentTerm = req.term →
    req.lastLogTerm = (s.node n).log.lastTerm ∧ req.lastLogIndex = (s.node n).log.lastIndex
  selfBallot : ∀ n, (s.node n).role = .candidate →
    h.leader (s.node n).state.currentTerm = none →
    ((s.node n).state.currentTerm, n, (s.node n).log.entries) ∈ h.ballots
  elected : ∀ t n, h.leader t = some n → ∀ v ∈ h.electorate t,
    ∃ l, (t, v, l) ∈ h.ballots ∧ UpToDate PersistedEntry.term (h.start t) l

namespace BallotInv

variable {c : Membership} {s s' : ClusterState} {h h' : History}

theorem init (c : Membership) : BallotInv (ClusterState.init c) {} where
  reached _ _ _ hb := absurd hb (Set.notMem_empty _)
  follows _ _ _ hb := absurd hb (Set.notMem_empty _)
  kept _ _ _ _ _ hb := absurd hb (Set.notMem_empty _)
  granted _ _ _ hm := absurd hm List.not_mem_nil
  electing _ _ he := by simp [ClusterState.init] at he
  selfBallot _ hrole := by simp [ClusterState.init, openFiles] at hrole
  elected _ _ hn := by simp at hn

/-- A prefix that a quorum of its term acknowledged is in the first log of every
later leader. -/
theorem complete (hvote : VoteInv c s h) (hlogs : LogInv s h) (hinv : BallotInv s h)
    {T k T' : Nat} {n : Int} (hcom : Ledger.Committed PersistedEntry.term c.members h T k)
    (hlt : T < T') (hn : h.leader T' = some n) : (h.lead T).take k <+: h.start T' :=
  Ledger.leader_completeness hlogs.coherent
    (fun t n hn => ⟨(hvote.quorum t n hn).1, hinv.elected t n hn⟩) hinv.follows hinv.kept hcom
    hlt hn

/-- The node is a candidate only if it was one before, with the same term and log. -/
def StaysCandidate (node node' : RaftNode) : Prop :=
  node'.role = .candidate → node.role = .candidate ∧
    node'.state.currentTerm = node.state.currentTerm ∧ node'.log = node.log

theorem StaysCandidate.refl (node : RaftNode) : StaysCandidate node node :=
  fun hrole => ⟨hrole, rfl, rfl⟩

/-- A quiet section that keeps the log. -/
theorem StaysCandidate.of_quiet {node node' : RaftNode} (hquiet : Quiet node node')
    (hlog : node'.log = node.log) : StaysCandidate node node' := by
  intro hrole
  rcases hquiet.role with hr | hr
  · rcases hquiet.state with hs | ⟨-, -, hf⟩
    · exact ⟨hr ▸ hrole, by rw [hs], hlog⟩
    · rw [hf] at hrole
      contradiction
  · rw [hr] at hrole
    contradiction

theorem StaysCandidate.handleAppendEntries (node : RaftNode) (req : AppendEntriesRequest) :
    StaysCandidate node (node.handleAppendEntries req).1 := by
  cases hsucc : (node.handleAppendEntries req).2.success with
  | true =>
      intro hrole
      rw [(LogInv.accepted_frame hsucc).2.2.2.2] at hrole
      contradiction
  | false =>
      exact StaysCandidate.of_quiet (Quiet.handleAppendEntries node req)
        (AckInv.Calm.rejected hsucc).log

/-- Replacing one node. -/
theorem staysCandidate_update {n : Int} {node : RaftNode}
    (hstays : StaysCandidate (s.node n) node) (m : Int) :
    StaysCandidate (s.node m) (Function.update s.node n node m) :=
  ClusterState.rel_update StaysCandidate.refl hstays m

/-- Transitions without votes and elections keep the invariant: new
acknowledgements are of terms no earlier than the node's own, which no ballot of
the node exceeds. -/
theorem of_steady (hacks : AckInv s h) (hinv : BallotInv s h)
    (hterm : ∀ n, (s.node n).state.currentTerm ≤ (s'.node n).state.currentTerm)
    (hstays : ∀ n, StaysCandidate (s.node n) (s'.node n)) (hext : h.Extends h')
    (hballots : h'.ballots = h.ballots) (hleader : h'.leader = h.leader)
    (hstart : h'.start = h.start) (helectorate : h'.electorate = h.electorate)
    (hnew : ∀ T v k, h'.Acked T v k → h.Acked T v k ∨ (s.node v).state.currentTerm ≤ T)
    (hreply : ∀ src req resp, .requestVoteReply src req resp ∈ s'.net →
      resp.voteGranted = true → .requestVoteReply src req resp ∈ s.net)
    (hel : ∀ n req, s'.election n = some req → s.election n = some req) : BallotInv s' h' := by
  constructor
  case reached =>
    intro t v l hb
    exact (hinv.reached t v l (hballots ▸ hb)).trans (hterm v)
  case follows =>
    intro t v l hb
    exact (hinv.follows t v l (hballots ▸ hb)).mono hext.lead
  case kept =>
    intro t v l T k hb hack hlt
    rw [hballots] at hb
    rcases hnew T v k hack with hold | hge
    · have hk := (hacks.held T v k hold).length_le
      rw [Ledger.take_lead_eq (hext.lead T) hk, hleader, hstart]
      exact hinv.kept t v l T k hb hold hlt
    · have := hinv.reached t v l hb
      omega
  case granted =>
    intro src req resp hm hg hnone
    rw [hballots]
    exact hinv.granted src req resp (hreply src req resp hm hg) hg (hleader ▸ hnone)
  case electing =>
    intro n req he hrole hcur
    obtain ⟨hold, hsame, hlog⟩ := hstays n hrole
    rw [hlog]
    exact hinv.electing n req (hel n req he) hold (hsame ▸ hcur)
  case selfBallot =>
    intro n hrole hnone
    obtain ⟨hold, hsame, hlog⟩ := hstays n hrole
    rw [hsame, hlog, hballots]
    exact hinv.selfBallot n hold (by rw [← hsame, ← hleader]; exact hnone)
  case elected =>
    intro t n hn
    rw [helectorate, hballots, hstart]
    exact hinv.elected t n (hleader ▸ hn)

/-- Where also the history stays. -/
theorem of_still (hacks : AckInv s h) (hinv : BallotInv s h)
    (hterm : ∀ n, (s.node n).state.currentTerm ≤ (s'.node n).state.currentTerm)
    (hstays : ∀ n, StaysCandidate (s.node n) (s'.node n))
    (hreply : ∀ src req resp, .requestVoteReply src req resp ∈ s'.net →
      resp.voteGranted = true → .requestVoteReply src req resp ∈ s.net)
    (hel : ∀ n req, s'.election n = some req → s.election n = some req) : BallotInv s' h :=
  hinv.of_steady hacks hterm hstays (Ledger.Extends.refl h) rfl rfl rfl rfl
    (fun _ _ _ hack => .inl hack) hreply hel

/-- A vote: the new ballot is the voter's log, in a term that has no leader yet. -/
theorem of_vote (hlogs : LogInv s h) (hacks : AckInv s h) (hinv : BallotInv s h) {v m : Int}
    {t : Nat} (hother : ∀ n, n ≠ v → s'.node n = s.node n)
    (hlog : (s'.node v).log = (s.node v).log) (hcur : (s'.node v).state.currentTerm = t)
    (hle : (s.node v).state.currentTerm ≤ t)
    (hreply : ∀ src req resp, .requestVoteReply src req resp ∈ s'.net →
      resp.voteGranted = true → .requestVoteReply src req resp ∈ s.net ∨
        (req.term = t ∧ src = v ∧ CandidateUpToDate req (s.node v).log.entries))
    (hel : ∀ n req, s'.election n = some req → (s'.node n).role = .candidate →
      (s.election n = some req ∧ StaysCandidate (s.node n) (s'.node n)) ∨
      (req.lastLogTerm = (s'.node n).log.lastTerm ∧ req.lastLogIndex = (s'.node n).log.lastIndex)) :
    BallotInv s' (h.castVote t v m (s.node v).log.entries) := by
  have hballot : ∀ {t' v' l'}, (t', v', l') ∈ (h.castVote t v m (s.node v).log.entries).ballots →
      (h.leader t = none ∧ t' = t ∧ v' = v ∧ l' = (s.node v).log.entries) ∨
        (t', v', l') ∈ h.ballots := by
    intro t' v' l' hb
    simp only [Ledger.castVote] at hb
    split_ifs at hb with hnone
    · rw [Set.mem_insert_iff, Prod.mk.injEq, Prod.mk.injEq] at hb
      exact hb.imp_left fun heq => ⟨hnone, heq⟩
    · exact .inr hb
  have hold : h.ballots ⊆ (h.castVote t v m (s.node v).log.entries).ballots := by
    simp only [Ledger.castVote]
    split_ifs
    · exact Set.subset_insert _ _
    · exact subset_rfl
  have hmine : h.leader t = none →
      (t, v, (s.node v).log.entries) ∈ (h.castVote t v m (s.node v).log.entries).ballots := by
    intro hnone
    simp only [Ledger.castVote, if_pos hnone]
    exact Set.mem_insert _ _
  constructor
  case reached =>
    intro t' v' l' hb
    by_cases hv : v' = v
    · subst hv
      rw [hcur]
      rcases hballot hb with ⟨-, rfl, -, -⟩ | hb
      · exact le_rfl
      · exact (hinv.reached t' v' l' hb).trans hle
    · rw [hother v' hv]
      rcases hballot hb with ⟨-, -, rfl, -⟩ | hb
      · exact absurd rfl hv
      · exact hinv.reached t' v' l' hb
  case follows =>
    intro t' v' l' hb
    rcases hballot hb with ⟨-, -, -, rfl⟩ | hb
    · exact hlogs.follows v
    · exact hinv.follows t' v' l' hb
  case kept =>
    intro t' v' l' T k hb hack hlt
    rcases hballot hb with ⟨hnone, rfl, rfl, rfl⟩ | hb
    · rcases (hacks.held T v' k hack).kept with hp | ⟨T', n, hlo, hhi, hn, hno⟩
      · exact .inl hp
      · -- the term of the vote has no leader yet
        refine .inr ⟨T', n, hlo, lt_of_le_of_ne (hhi.trans hle) ?_, hn, hno⟩
        rintro rfl
        rw [hnone] at hn
        contradiction
    · exact hinv.kept t' v' l' T k hb hack hlt
  case granted =>
    intro src req resp hm hg hnone
    rcases hreply src req resp hm hg with hm | ⟨rfl, rfl, hup⟩
    · obtain ⟨l, hb, hup⟩ := hinv.granted src req resp hm hg hnone
      exact ⟨l, hold hb, hup⟩
    · exact ⟨_, hmine hnone, hup⟩
  case electing =>
    intro n req he hrole hterm
    rcases hel n req he hrole with ⟨he, hstays⟩ | hnew
    · obtain ⟨hwas, hsame, hlog'⟩ := hstays hrole
      rw [hlog']
      exact hinv.electing n req he hwas (hsame ▸ hterm)
    · exact hnew
  case selfBallot =>
    intro n hrole hnone
    by_cases hn : n = v
    · subst hn
      rw [hcur] at hnone ⊢
      rw [hlog]
      exact hmine hnone
    · rw [hother n hn] at hrole hnone ⊢
      exact hold (hinv.selfBallot n hrole hnone)
  case elected =>
    intro t' n hn v' hv'
    obtain ⟨l, hb, hup⟩ := hinv.elected t' n hn v' hv'
    exact ⟨l, hold hb, hup⟩

/-- The votes counted at an election are ballots no more up to date than the
candidate. -/
theorem ballots_of_win (hvote : VoteInv c s h) (hlogs : LogInv s h) (hinv : BallotInv s h)
    {n : Int} {granted : List Int} {req : RequestVoteRequest} (hel : s.election n = some req)
    (hnodup : granted.Nodup)
    (hcount : ∀ p ∈ granted, p ∈ (s.node n).stubs ∧ voteCounted s.net p req = true)
    (hwin : (s.node n).role = .candidate ∧ (s.node n).state.currentTerm = req.term ∧
      1 + granted.length ≥ majority (s.node n).peers.length) :
    ∀ v ∈ insert n granted.toFinset, ∃ l, (req.term, v, l) ∈ h.ballots ∧
      UpToDate PersistedEntry.term (s.node n).log.entries l := by
  obtain ⟨-, -, hfresh⟩ := hvote.of_win hel hnodup hcount hwin
  obtain ⟨hlt, hli⟩ := hinv.electing n req hel hwin.1 hwin.2.1
  intro v hv
  rcases Finset.mem_insert.mp hv with rfl | hv
  · refine ⟨_, hwin.2.1 ▸ hinv.selfBallot v hwin.1 (hwin.2.1 ▸ hfresh), ?_⟩
    exact .inr ⟨rfl, le_rfl⟩
  · obtain ⟨resp, hm, hg⟩ := exists_of_voteCounted (hcount v (List.mem_toFinset.mp hv)).2
    obtain ⟨l, hb, hup⟩ := hinv.granted v req resp hm hg hfresh
    refine ⟨l, hb, ?_⟩
    rw [CandidateUpToDate, hlt, hli, RaftLog.lastTerm_of_noSnapshot (hlogs.noSnapshot n),
      RaftLog.lastIndex_of_noSnapshot (hlogs.noSnapshot n)] at hup
    exact hup

/-- A won election: its electorate consists of ballots no more up to date than the
new leader. -/
theorem of_elect (hacks : AckInv s h) (hinv : BallotInv s h) {n : Int} {t : Nat}
    {voters : Finset Int} (hext : h.Extends (h.elect t n (s.node n).log.entries voters))
    (hfresh : h.leader t = none) (hcur : (s.node n).state.currentTerm = t)
    (hother : ∀ m, m ≠ n → s'.node m = s.node m) (hstate : (s'.node n).state = (s.node n).state)
    (hrole : (s'.node n).role = .leader) (hnet : s'.net = s.net)
    (hel : ∀ m req, s'.election m = some req → s.election m = some req)
    (hvotes : ∀ v ∈ voters, ∃ l, (t, v, l) ∈ h.ballots ∧
      UpToDate PersistedEntry.term (s.node n).log.entries l) :
    BallotInv s' (h.elect t n (s.node n).log.entries voters) := by
  have hne : ∀ m, (s'.node m).role = .candidate → m ≠ n := by
    rintro m hm rfl
    rw [hrole] at hm
    contradiction
  have hleader : ∀ t', (h.elect t n (s.node n).log.entries voters).leader t' = none →
      h.leader t' = none := by
    intro t' hnone
    cases hl : h.leader t' with
    | none => rfl
    | some m =>
        rw [hext.leader t' m hl] at hnone
        contradiction
  constructor
  case reached =>
    intro t' v l hb
    have := hinv.reached t' v l hb
    by_cases hv : v = n
    · subst hv
      rwa [hstate]
    · rwa [hother v hv]
  case follows => exact fun t' v l hb => (hinv.follows t' v l hb).mono hext.lead
  case kept =>
    intro t' v l T k hb hack hlt
    rcases (acked_insert rfl).mp hack with ⟨rfl, rfl, -⟩ | hold
    · have := hinv.reached t' v l hb
      omega
    · rw [Ledger.take_lead_eq (hext.lead T) (hacks.held T v k hold).length_le]
      rcases hinv.kept t' v l T k hb hold hlt with hp | ⟨T', m, hlo, hhi, hm, hno⟩
      · exact .inl hp
      · exact .inr ⟨T', m, hlo, hhi, hext.leader _ _ hm, by rwa [hext.start _ _ hm]⟩
  case granted =>
    intro src req resp hm hg hnone
    exact hinv.granted src req resp (hnet ▸ hm) hg (hleader _ hnone)
  case electing =>
    intro m req he hr hterm
    have hmn := hne m hr
    rw [hother m hmn] at hr hterm ⊢
    exact hinv.electing m req (hel m req he) hr hterm
  case selfBallot =>
    intro m hr hnone
    have hmn := hne m hr
    rw [hother m hmn] at hr hnone ⊢
    exact hinv.selfBallot m hr (hleader _ hnone)
  case elected =>
    intro t' m hm
    by_cases ht : t' = t
    · subst ht
      simpa [Ledger.elect] using hvotes
    · simp only [Ledger.elect, Function.update_of_ne ht] at hm ⊢
      exact hinv.elected t' m hm

/-- **Step lemma.**  Where acknowledged prefixes are kept, every transition but a
compaction keeps the ballot invariant. -/
theorem step (hvote : VoteInv c s h) (hlogs : LogInv s h) (hacks : AckInv s h)
    (hinv : BallotInv s h) {a : Action} (hok : NoCompaction s a)
    (hstep : step c s a = some s') : BallotInv s' (track s a h) := by
  have hext := track_extends hvote hstep
  have hterm := fun n => (step_voteKept hstep n).1
  cases step_cases hstep with
  | @startElection n hn hrole hidle =>
      refine hinv.of_vote hlogs hacks (fun m hm => by simp [hm]) (by simp [RaftNode.startElection])
        (by simp [RaftNode.startElection]) (Nat.le_succ _) ?_ ?_
      · exact fun src req resp hm _ => .inl (by simpa using hm)
      · intro m req he _
        by_cases hm : m = n
        · subst hm
          simp only [ClusterState.setElection_election, Function.update_self,
            Option.some.injEq] at he
          subst he
          exact .inr (by simp [RaftNode.startElection])
        · refine .inl ⟨by simpa [hm] using he, ?_⟩
          simp only [ClusterState.setElection_node, ClusterState.update_node,
            Function.update_of_ne hm]
          exact StaysCandidate.refl _
  | @handleRequestVote n req hmem =>
      rcases handleRequestVote_cases (s.node n) req with ⟨hno, hnode⟩ | ⟨hyes, hlogOk, hfree⟩
      · rw [track, if_neg (by simp [hno])] at hext ⊢
        refine hinv.of_still hacks hterm (staysCandidate_update ?_) ?_ (fun _ _ he => he)
        · rw [hnode]
          exact StaysCandidate.of_quiet (Quiet.observeTerm _ _) (by simp)
        · intro src req' resp hm hg
          simp only [ClusterState.update_net, List.cons_append, List.nil_append, List.mem_cons,
            Message.requestVoteReply.injEq] at hm
          rcases hm with ⟨-, -, rfl⟩ | hm
          · rw [hno] at hg
            contradiction
          · exact hm
      · rw [track, if_pos (by simp [hyes])]
        have hle : (s.node n).state.currentTerm ≤ req.term := by
          rcases hfree with hlt | ⟨heq, -⟩ <;> omega
        refine hinv.of_vote hlogs hacks (fun m hm => by simp [hm]) (by simp [hyes])
          (by simp [hyes]) hle ?_ ?_
        · intro src req' resp hm _
          simp only [ClusterState.update_net, List.cons_append, List.nil_append, List.mem_cons,
            Message.requestVoteReply.injEq] at hm
          rcases hm with ⟨rfl, rfl, -⟩ | hm
          · exact .inr ⟨rfl, rfl, candidateUpToDate_of_logOk (hlogs.noSnapshot _) hlogOk⟩
          · exact .inl hm
        · intro m req' he _
          refine .inl ⟨he, staysCandidate_update ?_ m⟩
          rw [hyes]
          intro hrole
          obtain ⟨hwas, hsame, -⟩ := StaysCandidate.of_quiet
            (Quiet.observeTerm (s.node n) req.term) (by simp) hrole
          refine ⟨hwas, le_antisymm ?_ hle, by simp⟩
          exact (le_observeTerm _ _).trans hsame.le
  | @handleRequestVoteReply src req resp hmem hel =>
      refine hinv.of_still hacks hterm (staysCandidate_update ?_) (fun _ _ _ hm _ => hm)
        (fun _ _ he => he)
      refine StaysCandidate.of_quiet (Quiet.handleRequestVoteReply _ _ _) ?_
      unfold RaftNode.handleRequestVoteReply
      split <;> simp
  | @finishElection n granted req hel hnodup hcount =>
      simp only [track, hel] at hext ⊢
      split_ifs at hext ⊢ with hwin
      · obtain ⟨-, -, hfresh⟩ := hvote.of_win hel hnodup hcount hwin
        refine hinv.of_elect hacks hext hfresh hwin.2.1 (fun m hm => by simp [hm]) ?_ ?_ rfl
          (fun _ _ => VoteInv.election_of_update_none)
          (hinv.ballots_of_win hvote hlogs hel hnodup hcount hwin)
        · simp [RaftNode.finishElection, hwin]
        · simp [RaftNode.finishElection, hwin]
      · refine hinv.of_still hacks hterm (staysCandidate_update ?_) (fun _ _ _ hm _ => hm)
          (fun _ _ => VoteInv.election_of_update_none)
        rw [RaftNode.finishElection, if_neg hwin]
        exact StaysCandidate.refl _
  | proposeRefused hrole =>
      rw [track, if_neg hrole]
      exact hinv
  | @propose n command node call hn hcall =>
      obtain ⟨hrole, rfl, -⟩ := propose_eq_some hcall
      rw [track, if_pos hrole] at hext ⊢
      refine hinv.of_steady hacks hterm (staysCandidate_update ?_) hext rfl rfl rfl rfl ?_
        (fun _ _ _ hm _ => hm) (fun _ _ he => he)
      · intro hcand
        rw [advanceCommitIndex_role, hrole] at hcand
        contradiction
      · intro T v k hack
        rcases (acked_insert rfl).mp hack with ⟨rfl, rfl, -⟩ | hold
        · exact .inr le_rfl
        · exact .inl hold
  | @handleAppendEntries n req hmem =>
      have hstays := staysCandidate_update
        (StaysCandidate.handleAppendEntries (s.node n) req) (s := s)
      have hreply : ∀ src r resp, .requestVoteReply src r resp ∈
          (s.update n ((s.node n).handleAppendEntries req).1
            [.appendEntriesReply n req ((s.node n).handleAppendEntries req).2]).net →
          resp.voteGranted = true → .requestVoteReply src r resp ∈ s.net :=
        fun _ _ _ hm _ => by simpa using hm
      cases hsucc : ((s.node n).handleAppendEntries req).2.success with
      | true =>
          rw [track, if_pos hsucc] at hext ⊢
          refine hinv.of_steady hacks hterm hstays hext rfl rfl rfl rfl ?_ hreply (fun _ _ he => he)
          intro T v k hack
          rcases (acked_insert rfl).mp hack with ⟨rfl, rfl, -⟩ | hold
          · exact .inr (LogInv.accepted_frame hsucc).1
          · exact .inl hold
      | false =>
          rw [track, if_neg (by simp [hsucc])] at hext ⊢
          exact hinv.of_still hacks hterm hstays hreply (fun _ _ he => he)
  | @handleAppendEntriesReply src req resp hmem =>
      refine hinv.of_still hacks hterm (staysCandidate_update ?_) (fun _ _ _ hm _ => hm)
        (fun _ _ he => he)
      exact StaysCandidate.of_quiet (Quiet.handleAppendEntriesReply _ _ _ _)
        (RaftNode.handleAppendEntriesReply_log _ _ _ _)
  | sendAppendEntries hmem hreq =>
      exact hinv.of_still hacks hterm (fun _ => StaysCandidate.refl _)
        (fun _ _ _ hm _ => by simpa using hm) (fun _ _ he => he)
  | sendSnapshot hmem hreq =>
      exact hinv.of_still hacks hterm (fun _ => StaysCandidate.refl _)
        (fun _ _ _ hm _ => by simpa using hm) (fun _ _ he => he)
  | replicate hn =>
      exact hinv.of_still hacks hterm (fun _ => StaysCandidate.refl _)
        (fun _ _ _ hm _ => hm) (fun _ _ he => he)
  | sendChecked hmem hgo =>
      exact hinv.of_still hacks hterm (fun _ => StaysCandidate.refl _)
        (fun _ _ _ hm _ => hm) (fun _ _ he => he)
  | sendStop => exact hinv
  | sendRefused => exact hinv
  | @handleInstallSnapshot n req hmem => exact absurd hmem (hlogs.noInstall n req)
  | @handleInstallSnapshotReply src req resp hmem =>
      exact absurd hmem (hlogs.noInstallReply src req resp)
  | compact => exact absurd hok not_false
  | restart =>
      exact hinv.of_still hacks hterm
        (staysCandidate_update (StaysCandidate.of_quiet (Quiet.restart _ (.inl rfl)) rfl))
        (fun _ _ _ hm _ => hm) (fun _ _ => VoteInv.election_of_update_none)
  | crashAfterStepDown hmem hnew =>
      exact hinv.of_still hacks hterm
        (staysCandidate_update (StaysCandidate.of_quiet (Quiet.restart _ (.inr ⟨hnew, rfl⟩)) rfl))
        (fun _ _ _ hm _ => hm) (fun _ _ => VoteInv.election_of_update_none)

end BallotInv

end NanoDB.Raft
