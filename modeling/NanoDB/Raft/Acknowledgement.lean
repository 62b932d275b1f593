import NanoDB.Raft.LogMatching

/-!
# What an acknowledgement is worth

A follower truncates its log at every nonempty request.  A request that is older
than what the follower already stored can therefore remove entries that agree with
it: {lit}`dropsMatchingSuffix` says when.  In runs without such a step a node keeps
every prefix it acknowledged, until a leader of a later term that never had the
prefix appears.

Main results:

- Theorem {lit}`prefix_acceptedLog`: a request that drops no matching suffix keeps
  every common prefix of the follower's and the leader's log.
- Theorem {lit}`AckInv.step`: transitions that drop no matching suffix keep the
  acknowledgement invariant.
-/

namespace NanoDB.Raft

open Lib RaftNode

/-! ## Requests that drop entries they agree with -/

/-- The request will be accepted, it carries entries, the node's log reaches beyond
them, and the node already holds every one of them. -/
def dropsMatchingSuffix (node : RaftNode) (req : AppendEntriesRequest) : Bool :=
  decide (node.state.currentTerm ≤ req.term) && node.prevMatches req && !req.entries.isEmpty &&
    decide (req.prevLogIndex + req.entries.length < node.log.lastIndex) &&
    req.entries.zipIdx.all fun (e, j) =>
      decide (node.log.termAt (req.prevLogIndex + 1 + j) = e.term)

/-- The side condition of a run in which no node compacts and no handled request
drops a matching suffix. -/
def KeepsSuffixes (s : ClusterState) : Action → Prop
  | .compact .. => False
  | .handleAppendEntries n req => dropsMatchingSuffix (s.node n) req = false
  | _ => True

instance (s : ClusterState) (a : Action) : Decidable (KeepsSuffixes s a) :=
  match a with
  | .compact .. => instDecidableFalse
  | .handleAppendEntries .. => instDecidableEqBool _ _
  | .startElection .. | .handleRequestVote .. | .handleRequestVoteReply .. | .finishElection ..
  | .propose .. | .replicate .. | .sendCheck .. | .sendAppendEntries ..
  | .handleAppendEntriesReply .. | .handleInstallSnapshot .. | .handleInstallSnapshotReply ..
  | .restart .. | .crashAfterStepDown .. => instDecidableTrue

theorem KeepsSuffixes.noCompaction {s : ClusterState} {a : Action} (h : KeepsSuffixes s a) :
    NoCompaction s a := by
  cases a <;> first | exact h | trivial

/-- A request that drops no matching suffix keeps every prefix that the follower
shares with the leader.  Otherwise the request would end inside the prefix, and
its entries would all agree with the follower's. -/
theorem prefix_acceptedLog {h : History} {node : RaftNode} {req : AppendEntriesRequest}
    {p : List PersistedEntry} (hcoh : h.Coherent PersistedEntry.term) (hok : AppendOk h req)
    (hlog : node.log.NoSnapshot) (hfollow : Follows PersistedEntry.term h.lead node.log.entries)
    (hle : node.state.currentTerm ≤ req.term) (hprev : node.prevMatches req = true)
    (hkeep : dropsMatchingSuffix node req = false) (hp : p <+: node.log.entries)
    (hlead : p <+: h.lead req.term) : p <+: (acceptedLog node.log req).entries := by
  by_cases hne : newEntries req = []
  · rwa [acceptedLog, if_pos hne]
  · rw [acceptedLog_entries hcoh hok hlog hfollow hprev hne]
    refine List.prefix_take_iff.mpr ⟨hlead, ?_⟩
    rcases Nat.lt_or_ge (req.prevLogIndex + req.entries.length) p.length with hlt | hge
    · exfalso
      have hlen := hp.length_le
      have hdrops : dropsMatchingSuffix node req = true := by
        have hne' : req.entries ≠ [] := by simpa [newEntries] using hne
        simp only [dropsMatchingSuffix, hle, hprev, decide_true, Bool.true_and, Bool.and_eq_true,
          Bool.not_eq_true', List.isEmpty_eq_false_iff, decide_eq_true_eq,
          RaftLog.lastIndex_of_noSnapshot hlog, List.all_eq_true]
        refine ⟨⟨hne', by omega⟩, ?_⟩
        rintro ⟨e, j⟩ hmem
        have hget := List.mem_zipIdx_iff_getElem?.mp hmem
        have hj : j < req.entries.length := (List.getElem?_eq_some_iff.mp hget).1
        dsimp only
        rw [RaftLog.termAt_of_noSnapshot hlog (by omega)]
        -- position by position: follower, shared prefix, leader, request
        have hat : node.log.entries[req.prevLogIndex + j]? = (newEntries req)[j]? := by
          have hlead_at : (h.lead req.term)[req.prevLogIndex + j]? = (newEntries req)[j]? := by
            obtain ⟨r, hr⟩ := hok.slice
            rw [← hr, List.append_assoc, List.getElem?_append_right (by simp),
              List.length_take, min_eq_left hok.prev_le, Nat.add_sub_cancel_left,
              List.getElem?_append_left (by rw [length_newEntries]; exact hj)]
          rw [← hlead_at, List.prefix_iff_getElem?.mp hp _ (by omega),
            List.prefix_iff_getElem?.mp hlead _ (by omega)]
        have hidx : req.prevLogIndex + 1 + j - 1 = req.prevLogIndex + j := by omega
        rw [hidx, hat, newEntries, List.getElem?_map, hget]
        rfl
      rw [hdrops] at hkeep
      contradiction
    · exact hge

/-- After an accepted request the follower has all the request reaches. -/
theorem take_prefix_acceptedLog {h : History} {node : RaftNode} {req : AppendEntriesRequest}
    (hcoh : h.Coherent PersistedEntry.term) (hok : AppendOk h req)
    (hlog : node.log.NoSnapshot) (hfollow : Follows PersistedEntry.term h.lead node.log.entries)
    (hprev : node.prevMatches req = true) :
    (h.lead req.term).take (req.prevLogIndex + req.entries.length) <+:
      (acceptedLog node.log req).entries := by
  by_cases hne : newEntries req = []
  · have hzero : req.entries.length = 0 := by simpa [newEntries] using hne
    rw [acceptedLog, if_pos hne, hzero, Nat.add_zero,
      ← take_eq_of_prevMatches hcoh hok hlog hfollow hprev]
    exact List.take_prefix _ _
  · rw [acceptedLog_entries hcoh hok hlog hfollow hprev hne]

/-! ## The acknowledgement invariant -/

/-- Some leader after term {lit}`T`, and not after {lit}`t`, started without the
first {lit}`n` entries of the leader of {lit}`T`. -/
def Superseded (h : History) (T k t : Nat) : Prop :=
  ∃ T' n, T < T' ∧ T' ≤ t ∧ h.leader T' = some n ∧ ¬ (h.lead T).take k <+: h.start T'

/-- The node reached the term {lit}`T` and still has the first {lit}`k` entries of
its leader, unless they were superseded. -/
structure Held (h : History) (node : RaftNode) (T k : Nat) : Prop where
  term_le : T ≤ node.state.currentTerm
  length_le : k ≤ (h.lead T).length
  kept : (h.lead T).take k <+: node.log.entries ∨ Superseded h T k node.state.currentTerm

theorem Superseded.mono {h h' : History} {T k t t' : Nat} (hsup : Superseded h T k t)
    (hext : h.Extends h') (hk : k ≤ (h.lead T).length) (ht : t ≤ t') : Superseded h' T k t' := by
  obtain ⟨T', n, hlt, hle, hn, hno⟩ := hsup
  refine ⟨T', n, hlt, hle.trans ht, hext.leader _ _ hn, ?_⟩
  rwa [Ledger.take_lead_eq (hext.lead T) hk, hext.start _ _ hn]

theorem Held.mono {h h' : History} {node node' : RaftNode} {T k : Nat} (hheld : Held h node T k)
    (hext : h.Extends h') (hterm : node.state.currentTerm ≤ node'.state.currentTerm)
    (hlog : node.log.entries <+: node'.log.entries) : Held h' node' T k where
  term_le := hheld.term_le.trans hterm
  length_le := hheld.length_le.trans (hext.lead T).length_le
  kept := by
    rcases hheld.kept with hp | hsup
    · rw [Ledger.take_lead_eq (hext.lead T) hheld.length_le]
      exact .inl (hp.trans hlog)
    · exact .inr (hsup.mono hext hheld.length_le hterm)

/-- Acknowledgements are kept, and counted by nobody who did not get them. -/
structure AckInv (s : ClusterState) (h : History) : Prop where
  held : ∀ T v k, h.Acked T v k → Held h (s.node v) T k
  selfAck : ∀ T n, h.leader T = some n → h.Acked T n (h.lead T).length
  replied : ∀ src req resp, .appendEntriesReply src req resp ∈ s.net → resp.success = true →
    h.Acked req.term src (req.prevLogIndex + req.entries.length)
  matched : ∀ n p, (s.node n).role = .leader → 0 < (s.node n).matchIndex p →
    h.Acked (s.node n).state.currentTerm p ((s.node n).matchIndex p)

/-- Whether an acknowledgement holds after one was added. -/
theorem acked_insert {h h' : History} {t T k c : Nat} {n v : Int}
    (hacks : h'.acks = insert (t, n, c) h.acks) :
    h'.Acked T v k ↔ (T = t ∧ v = n ∧ k ≤ c) ∨ h.Acked T v k := by
  constructor
  · rintro ⟨c', hle, hmem⟩
    rw [hacks, Set.mem_insert_iff, Prod.mk.injEq, Prod.mk.injEq] at hmem
    rcases hmem with ⟨rfl, rfl, rfl⟩ | hmem
    · exact .inl ⟨rfl, rfl, hle⟩
    · exact .inr ⟨c', hle, hmem⟩
  · rintro (⟨rfl, rfl, hle⟩ | ⟨c', hle, hmem⟩)
    · exact ⟨c, hle, hacks ▸ Set.mem_insert _ _⟩
    · exact ⟨c', hle, hacks ▸ Set.mem_insert_of_mem _ hmem⟩

namespace AckInv

variable {c : Membership} {s s' : ClusterState} {h h' : History}

theorem init (c : Membership) : AckInv (ClusterState.init c) {} where
  held _ _ _ hack := by
    obtain ⟨_, _, hmem⟩ := hack
    exact absurd hmem (Set.notMem_empty _)
  selfAck _ _ hn := by simp at hn
  replied _ _ _ hm := absurd hm List.not_mem_nil
  matched _ _ hrole := by simp [ClusterState.init, openFiles] at hrole

/-- How one node may change when nothing is acknowledged. -/
structure Calm (node node' : RaftNode) : Prop where
  log : node'.log = node.log
  term : node.state.currentTerm ≤ node'.state.currentTerm
  leader : node'.role = .leader → node.role = .leader ∧
    node'.state.currentTerm = node.state.currentTerm ∧ node'.matchIndex = node.matchIndex

theorem Calm.refl (node : RaftNode) : Calm node node :=
  ⟨rfl, le_rfl, fun hrole => ⟨hrole, rfl, rfl⟩⟩

/-- Replacing one node by a calm successor. -/
theorem calm_update {n : Int} {node : RaftNode} (hcalm : Calm (s.node n) node) (m : Int) :
    Calm (s.node m) (Function.update s.node n node m) :=
  ClusterState.rel_update Calm.refl hcalm m

/-- Transitions that acknowledge nothing keep the invariant. -/
theorem of_calm (hinv : AckInv s h) (hcalm : ∀ n, Calm (s.node n) (s'.node n))
    (hext : h.Extends h') (hacks : h'.acks = h.acks) (hleader : h'.leader = h.leader)
    (hlead : h'.lead = h.lead)
    (hreply : ∀ src req resp, .appendEntriesReply src req resp ∈ s'.net → resp.success = true →
      .appendEntriesReply src req resp ∈ s.net) : AckInv s' h' := by
  have hacked : ∀ {T v k}, h'.Acked T v k ↔ h.Acked T v k := by
    intro T v k
    simp only [Ledger.Acked, hacks]
  constructor
  case held =>
    intro T v k hack
    refine (hinv.held T v k (hacked.mp hack)).mono hext (hcalm v).term ?_
    rw [(hcalm v).log]
  case selfAck =>
    intro T n hn
    rw [hlead]
    exact hacked.mpr (hinv.selfAck T n (hleader ▸ hn))
  case replied =>
    intro src req resp hm hsucc
    exact hacked.mpr (hinv.replied src req resp (hreply src req resp hm hsucc) hsucc)
  case matched =>
    intro n p hrole hpos
    obtain ⟨hold, hterm, hmatch⟩ := (hcalm n).leader hrole
    rw [hmatch] at hpos ⊢
    rw [hterm]
    exact hacked.mpr (hinv.matched n p hold hpos)

/-- The leader of a term stores what its own log becomes. -/
theorem of_lead (hinv : AckInv s h) {n : Int} {t : Nat} (hext : h.Extends h')
    (hacks : h'.acks = insert (t, n, (h'.lead t).length) h.acks)
    (hlead : ∀ T, T ≠ t → h'.lead T = h.lead T) (hleader : h'.leader t = some n)
    (hleader' : ∀ T, T ≠ t → h'.leader T = h.leader T)
    (hterm : ∀ m, (s.node m).state.currentTerm ≤ (s'.node m).state.currentTerm)
    (hself : (s'.node n).state.currentTerm = t) (hlog : (s'.node n).log.entries = h'.lead t)
    (hlogs : ∀ m, (s.node m).log.entries <+: (s'.node m).log.entries) (hnet : s'.net = s.net)
    (hmatch : ∀ m p, (s'.node m).role = .leader → 0 < (s'.node m).matchIndex p →
      (s.node m).role = .leader ∧ (s'.node m).state.currentTerm = (s.node m).state.currentTerm ∧
        (s'.node m).matchIndex p = (s.node m).matchIndex p) : AckInv s' h' := by
  constructor
  case held =>
    intro T v k hack
    rcases (acked_insert hacks).mp hack with ⟨rfl, rfl, hle⟩ | hold
    · refine ⟨hself.ge, hle, .inl ?_⟩
      rw [hlog]
      exact List.take_prefix _ _
    · exact (hinv.held T v k hold).mono hext (hterm v) (hlogs v)
  case selfAck =>
    intro T m hm
    by_cases hT : T = t
    · subst hT
      rw [hleader, Option.some.injEq] at hm
      subst hm
      exact (acked_insert hacks).mpr (.inl ⟨rfl, rfl, le_rfl⟩)
    · rw [hlead T hT]
      exact (acked_insert hacks).mpr (.inr (hinv.selfAck T m (hleader' T hT ▸ hm)))
  case replied =>
    intro src req resp hm hsucc
    exact (hinv.replied src req resp (hnet ▸ hm) hsucc).mono hext.acks
  case matched =>
    intro m p hrole hpos
    obtain ⟨hold, hterm', hmatch'⟩ := hmatch m p hrole hpos
    rw [hmatch'] at hpos ⊢
    rw [hterm']
    exact (hinv.matched m p hold hpos).mono hext.acks

/-- An accepted request: the follower has what it acknowledges, and keeps what it
acknowledged before. -/
theorem of_accept (hinv : AckInv s h) (hlogs : LogInv s h) {n : Int} {req : AppendEntriesRequest}
    (hmem : .appendEntries n req ∈ s.net) (hkeep : dropsMatchingSuffix (s.node n) req = false)
    (hsucc : ((s.node n).handleAppendEntries req).2.success = true) :
    AckInv (s.update n ((s.node n).handleAppendEntries req).1
        [.appendEntriesReply n req ((s.node n).handleAppendEntries req).2])
      (h.acknowledge req.term n (req.prevLogIndex + req.entries.length)) := by
  obtain ⟨hle, hprev, hlog, hterm, hrole⟩ := LogInv.accepted_frame hsucc
  obtain ⟨-, hok⟩ := hlogs.append n req hmem
  have hcoh := hlogs.coherent
  have hext := Ledger.Extends.acknowledge h req.term n (req.prevLogIndex + req.entries.length)
  have hkept : ∀ p, p <+: (s.node n).log.entries → p <+: h.lead req.term →
      p <+: ((s.node n).handleAppendEntries req).1.log.entries := by
    intro p hp hlead
    rw [hlog]
    exact prefix_acceptedLog hcoh hok (hlogs.noSnapshot n) (hlogs.follows n) hle hprev hkeep
      hp hlead
  constructor
  case held =>
    intro T v k hack
    rcases (acked_insert rfl).mp hack with ⟨rfl, rfl, hk⟩ | hold
    · -- the request itself is the acknowledged prefix
      rw [ClusterState.update_node, Function.update_self]
      refine ⟨hterm.ge, hk.trans hok.reach_le, .inl ?_⟩
      rw [hlog, show (h.acknowledge _ v _).lead = h.lead from rfl]
      exact (List.take_prefix_take_left hk).trans
        (take_prefix_acceptedLog hcoh hok (hlogs.noSnapshot v) (hlogs.follows v) hprev)
    · have hheld := hinv.held T v k hold
      by_cases hv : v = n
      · subst hv
        rw [ClusterState.update_node, Function.update_self]
        have hT : T ≤ req.term := hheld.term_le.trans hle
        refine ⟨hterm ▸ hT, hheld.length_le, ?_⟩
        rcases hheld.kept with hp | hsup
        · rcases hT.lt_or_eq with hlt | rfl
          · by_cases hstart : (h.lead T).take k <+: h.start req.term
            · exact .inl (hkept _ hp (hstart.trans (hcoh.start_isPrefix _ _ hok.leader)))
            · exact .inr ⟨req.term, req.leaderId, hlt, hterm.ge, hok.leader, hstart⟩
          · exact .inl (hkept _ hp (List.take_prefix _ _))
        · exact .inr (hsup.mono hext hheld.length_le (by rw [hterm]; exact hle))
      · rw [ClusterState.update_node, Function.update_of_ne hv]
        exact hheld.mono hext le_rfl List.prefix_rfl
  case selfAck =>
    intro T m hm
    exact (acked_insert rfl).mpr (.inr (hinv.selfAck T m hm))
  case replied =>
    intro src r resp hm hs
    simp only [ClusterState.update_net, List.cons_append, List.nil_append, List.mem_cons,
      Message.appendEntriesReply.injEq] at hm
    rcases hm with ⟨rfl, rfl, -⟩ | hm
    · exact (acked_insert rfl).mpr (.inl ⟨rfl, rfl, le_rfl⟩)
    · exact (acked_insert rfl).mpr (.inr (hinv.replied src r resp hm hs))
  case matched =>
    intro m p hr hpos
    by_cases hm : m = n
    · subst hm
      rw [ClusterState.update_node, Function.update_self, hrole] at hr
      contradiction
    · rw [ClusterState.update_node, Function.update_of_ne hm] at hr hpos ⊢
      exact (acked_insert rfl).mpr (.inr (hinv.matched m p hr hpos))

/-- A reply: the leader counts only what the follower acknowledged. -/
theorem matched_of_reply (hinv : AckInv s h) {src : Int} {req : AppendEntriesRequest}
    {resp : AppendEntriesResponse} (hmem : .appendEntriesReply src req resp ∈ s.net) {n p : Int}
    (hrole : ((s.node n).handleAppendEntriesReply src req resp).role = .leader)
    (hpos : 0 < ((s.node n).handleAppendEntriesReply src req resp).matchIndex p) :
    h.Acked ((s.node n).handleAppendEntriesReply src req resp).state.currentTerm p
      (((s.node n).handleAppendEntriesReply src req resp).matchIndex p) := by
  unfold handleAppendEntriesReply at hrole hpos ⊢
  dsimp only at hrole hpos ⊢
  split_ifs at hrole hpos ⊢ with hnew hstale hsucc hmax hdec
  · simp [becomeFollower] at hrole
  · exact hinv.matched n p hrole hpos
  all_goals rw [not_or, not_not, not_not] at hstale
  · simp only [advanceCommitIndex_matchIndex, advanceCommitIndex_state] at hpos ⊢
    by_cases hp : p = src
    · subst hp
      rw [Function.update_self, hstale.2]
      exact hinv.replied p req resp hmem hsucc
    · rw [Function.update_of_ne hp] at hpos ⊢
      exact hinv.matched n p hstale.1 hpos
  · simp only [advanceCommitIndex_matchIndex, advanceCommitIndex_state] at hpos ⊢
    exact hinv.matched n p hstale.1 hpos
  · exact hinv.matched n p hstale.1 hpos
  · exact hinv.matched n p hstale.1 hpos

/-- A section in which a node keeps its log, and stays leader only if it changes
neither term nor bookkeeping, is calm. -/
theorem Calm.of_quiet {node node' : RaftNode} (hquiet : Quiet node node')
    (hlog : node'.log = node.log) (hmatch : node'.matchIndex = node.matchIndex) :
    Calm node node' := by
  refine ⟨hlog, hquiet.voteKept.1, fun hrole => ?_⟩
  rcases hquiet.role with hr | hr
  · rcases hquiet.state with hs | ⟨-, -, hf⟩
    · exact ⟨hr ▸ hrole, by rw [hs], hmatch⟩
    · rw [hf] at hrole
      contradiction
  · rw [hr] at hrole
    contradiction

/-- A section that ends as a follower is calm when it keeps the log. -/
theorem Calm.of_follower {node node' : RaftNode} (hquiet : Quiet node node')
    (hlog : node'.log = node.log) (hrole : node'.role = .follower) : Calm node node' :=
  ⟨hlog, hquiet.voteKept.1, fun hr => by simp [hrole] at hr⟩

theorem Calm.observeTerm (node : RaftNode) (term : Nat) : Calm node (node.observeTerm term) := by
  refine Calm.of_quiet (Quiet.observeTerm node term) (by simp) ?_
  unfold RaftNode.observeTerm
  split <;> rfl

theorem Calm.handleRequestVote (node : RaftNode) (req : RequestVoteRequest) :
    Calm node (node.handleRequestVote req).1 := by
  rcases handleRequestVote_cases node req with ⟨-, hnode⟩ | ⟨hyes, -, hfree⟩
  · rw [hnode]
    exact Calm.observeTerm node req.term
  · rw [hyes]
    have hcalm := Calm.observeTerm node req.term
    refine ⟨hcalm.log, ?_, fun hrole => ?_⟩
    · dsimp only
      rcases hfree with hlt | ⟨heq, -⟩ <;> omega
    · obtain ⟨hold, hterm, hmatch⟩ := hcalm.leader hrole
      refine ⟨hold, le_antisymm ?_ ?_, hmatch⟩
      · exact (le_observeTerm node req.term).trans hterm.le
      · dsimp only
        rcases hfree with hlt | ⟨heq, -⟩ <;> omega

theorem Calm.rejected {node : RaftNode} {req : AppendEntriesRequest}
    (hno : (node.handleAppendEntries req).2.success = false) :
    Calm node (node.handleAppendEntries req).1 := by
  unfold handleAppendEntries at hno ⊢
  dsimp only at hno ⊢
  split_ifs at hno ⊢ with hlt hprev
  · exact Calm.observeTerm node req.term
  · refine Calm.of_follower ((Quiet.observeTerm node req.term).trans ?_) (by simp) rfl
    exact ⟨rfl, rfl, .inr rfl, .inl rfl⟩

/-- **Step lemma.**  Transitions that drop no matching suffix keep the
acknowledgement invariant. -/
theorem step (hvote : VoteInv c s h) (hlogs : LogInv s h) (hinv : AckInv s h) {a : Action}
    (hok : KeepsSuffixes s a) (hstep : step c s a = some s') : AckInv s' (track s a h) := by
  have hext := track_extends hvote hstep
  cases step_cases hstep with
  | @startElection n hn hrole hidle =>
      refine hinv.of_calm (calm_update ⟨rfl, Nat.le_succ _, fun hlead => ?_⟩) hext rfl rfl rfl ?_
      · simp [RaftNode.startElection] at hlead
      · exact fun src req resp hm _ => by simpa using hm
  | @handleRequestVote n req hmem =>
      refine hinv.of_calm (calm_update (Calm.handleRequestVote _ _)) hext ?_ ?_ ?_ ?_
      · rw [track]
        split <;> rfl
      · rw [track]
        split <;> rfl
      · rw [track]
        split <;> rfl
      · exact fun src req resp hm _ => by simpa using hm
  | @handleRequestVoteReply src req resp hmem hel =>
      refine hinv.of_calm (calm_update ?_) hext rfl rfl rfl (fun _ _ _ hm _ => hm)
      unfold RaftNode.handleRequestVoteReply
      split
      · exact Calm.observeTerm _ _
      · exact Calm.refl _
  | @finishElection n granted req hel hnodup hcount =>
      simp only [track, hel] at hext ⊢
      split_ifs at hext ⊢ with hwin
      · have hnode : (s.node n).finishElection req.term (1 + granted.length) =
            { s.node n with
              role := .leader
              leaderId := (s.node n).nodeId
              nextIndex := fun _ => (s.node n).log.lastIndex + 1
              matchIndex := fun _ => 0 } := by
          rw [RaftNode.finishElection, if_pos hwin]
        refine hinv.of_lead hext (t := req.term) (n := n) ?_ ?_ ?_ ?_ ?_ ?_ ?_ ?_ rfl ?_
        · simp [Ledger.elect]
        · intro T hT
          simp [Ledger.elect, hT]
        · simp [Ledger.elect]
        · intro T hT
          simp [Ledger.elect, hT]
        · exact fun m => (step_voteKept hstep m).1
        · simpa [hnode] using hwin.2.1
        · simp [hnode, Ledger.elect]
        · intro m
          by_cases hm : m = n
          · simp [hm, hnode]
          · simp [hm]
        · intro m p hrole hpos
          by_cases hm : m = n
          · subst hm
            simp [hnode] at hpos
          · simpa [hm] using hrole
      · refine hinv.of_calm (calm_update ?_) hext rfl rfl rfl (fun _ _ _ hm _ => hm)
        rw [RaftNode.finishElection, if_neg hwin]
        exact Calm.refl _
  | proposeRefused hrole =>
      rw [track, if_neg hrole]
      exact hinv
  | @propose n command node call hn hcall =>
      obtain ⟨hrole, rfl, -⟩ := propose_eq_some hcall
      have hlead := hvote.leads n hrole
      have hold := hlogs.leading n hlead
      rw [track, if_pos hrole] at hext ⊢
      refine hinv.of_lead hext (t := (s.node n).state.currentTerm) (n := n) ?_ ?_ hlead ?_ ?_ ?_
        ?_ ?_ rfl ?_
      · simp [Ledger.extend]
      · intro T hT
        simp [Ledger.extend, hT]
      · exact fun _ _ => rfl
      · exact fun m => (step_voteKept hstep m).1
      · simp
      · simp [Ledger.extend, hold]
      · intro m
        by_cases hm : m = n
        · simp [hm]
        · simp [hm]
      · intro m p hr hpos
        by_cases hm : m = n
        · subst hm
          simp [hrole]
        · simpa [hm] using hr
  | @handleAppendEntries n req hmem =>
      cases hsucc : ((s.node n).handleAppendEntries req).2.success with
      | true =>
          rw [track, if_pos hsucc]
          exact hinv.of_accept hlogs hmem hok hsucc
      | false =>
          rw [track, if_neg (by simp [hsucc])]
          refine hinv.of_calm (calm_update (Calm.rejected hsucc)) (Ledger.Extends.refl h)
            rfl rfl rfl ?_
          intro src r resp hm hs
          simp only [ClusterState.update_net, List.cons_append, List.nil_append, List.mem_cons,
            Message.appendEntriesReply.injEq] at hm
          rcases hm with ⟨-, -, rfl⟩ | hm
          · rw [hsucc] at hs
            contradiction
          · exact hm
  | @handleAppendEntriesReply src req resp hmem =>
      refine ⟨fun T v k hack => ?_, hinv.selfAck, hinv.replied, fun n p hrole hpos => ?_⟩
      · refine (hinv.held T v k hack).mono hext (step_voteKept hstep v).1 ?_
        by_cases hv : v = req.leaderId
        · subst hv
          rw [ClusterState.update_node, Function.update_self,
            RaftNode.handleAppendEntriesReply_log]
        · rw [ClusterState.update_node, Function.update_of_ne hv]
      · by_cases hn : n = req.leaderId
        · subst hn
          rw [ClusterState.update_node, Function.update_self] at hrole hpos ⊢
          exact hinv.matched_of_reply hmem hrole hpos
        · rw [ClusterState.update_node, Function.update_of_ne hn] at hrole hpos ⊢
          exact hinv.matched n p hrole hpos
  | @sendAppendEntries n task req hmem hreq =>
      exact hinv.of_calm (fun _ => Calm.refl _) hext rfl rfl rfl
        (fun _ _ _ hm _ => by simpa using hm)
  | @sendSnapshot n task req hmem hreq =>
      exact hinv.of_calm (fun _ => Calm.refl _) hext rfl rfl rfl
        (fun _ _ _ hm _ => by simpa using hm)
  | replicate hn =>
      exact hinv.of_calm (fun _ => Calm.refl _) hext rfl rfl rfl (fun _ _ _ hm _ => hm)
  | sendChecked hmem hgo =>
      exact hinv.of_calm (fun _ => Calm.refl _) hext rfl rfl rfl (fun _ _ _ hm _ => hm)
  | sendStop => exact hinv
  | sendRefused => exact hinv
  | @handleInstallSnapshot n req hmem => exact absurd hmem (hlogs.noInstall n req)
  | @handleInstallSnapshotReply src req resp hmem =>
      exact absurd hmem (hlogs.noInstallReply src req resp)
  | compact => exact absurd hok not_false
  | @restart n =>
      exact hinv.of_calm (calm_update (Calm.of_follower (Quiet.restart _ (.inl rfl)) rfl rfl)) hext
        rfl rfl rfl (fun _ _ _ hm _ => hm)
  | @crashAfterStepDown n m term hmem hnew =>
      exact hinv.of_calm (calm_update (Calm.of_follower (Quiet.restart _ (.inr ⟨hnew, rfl⟩)) rfl
        rfl)) hext rfl rfl rfl (fun _ _ _ hm _ => hm)

end AckInv

end NanoDB.Raft
