import NanoDB.Raft.CommitRule
import NanoDB.Raft.Leadership

/-!
# One server and its threads

A server runs the critical sections of one node against an arbitrary environment: any
request may arrive, and a call that the node has sent may get any answer, early or late,
several times or never.  The detached threads of {lit}`replicate_to_followers` act on old
copies of the node's indices, so every index that some thread still holds is a mark, with
the term it was taken in.  A mark of the term a node leads never exceeds its log: a leader's
log does not get shorter, and a node leads a term only once.

A restart starts another server, on whatever files the process finds.

Main results:

- Theorem {lit}`Server.step_move`: how one section moves a node in and out of leadership.
- Theorem {lit}`BookInv.step`: every section keeps the marks and the leader's indices in range.
- Theorem {lit}`leader_indices_in_range`: in every run the leader's indices are in range, the
  match indices of one term do not decrease, and the commit rule reads inside its list.
-/

namespace NanoDB.Raft

open Lib RaftNode

/-! ## The server -/

/-- A node with its threads: the term of the election that the ticker thread is waiting for,
the calls of {lit}`send_append_entries_to_peer` before their first and second critical section,
and the requests that were sent.  A call stays in its pool, so its next section may run at
any later time. -/
structure Server where
  node : RaftNode
  election : Option Nat := none
  tasks : List SendTask := []
  checked : List SendTask := []
  sentEntries : List (Int × AppendEntriesRequest) := []
  sentSnapshots : List (Int × InstallSnapshotRequest) := []

/-- The critical sections that a server can run. -/
inductive ServerAction where
  | requestVote (req : RequestVoteRequest)
  | appendEntries (req : AppendEntriesRequest)
  | installSnapshot (req : InstallSnapshotRequest)
  | startElection
  | requestVoteReply (resp : RequestVoteResponse)
  | finishElection (votes : Nat)
  | propose (command : Bytes)
  | replicate
  | sendCheck (task : SendTask)
  | sendAppendEntries (task : SendTask)
  | appendEntriesReply (peerId : Int) (req : AppendEntriesRequest) (resp : AppendEntriesResponse)
  | installSnapshotReply (peerId : Int) (req : InstallSnapshotRequest)
      (resp : InstallSnapshotResponse)
  | compact (upToIndex : Nat) (snapshotData : Bytes)
deriving DecidableEq, Repr

namespace Server

/-- A server that has opened its files. -/
def start (nodeId : Int) (peers : List Int) (state : PersistentState) (log : RaftLog) : Server where
  node := openFiles nodeId peers state log

/-- The transition function; {lean}`none` when the section cannot run. -/
def step (p : Server) : ServerAction → Option Server
  | .requestVote req => some { p with node := (p.node.handleRequestVote req).1 }
  | .appendEntries req => some { p with node := (p.node.handleAppendEntries req).1 }
  | .installSnapshot req => some { p with node := (p.node.handleInstallSnapshot req).1 }
  | .startElection =>
      if p.node.role ≠ .leader ∧ p.election = none then
        some
          { p with
            node := p.node.startElection.1
            election := some p.node.startElection.2.term }
      else none
  | .requestVoteReply resp =>
      p.election.map fun electionTerm =>
        { p with node := p.node.handleRequestVoteReply electionTerm resp }
  | .finishElection votes =>
      p.election.map fun electionTerm =>
        { p with node := p.node.finishElection electionTerm votes, election := none }
  | .propose command =>
      match p.node.propose command with
      | none => some p
      | some (node, _) => some { p with node := node }
  | .replicate => some { p with tasks := p.node.replicateToFollowers ++ p.tasks }
  | .sendCheck task =>
      if task ∈ p.tasks then
        match p.node.sendCheck task with
        | .stop => some p
        | .snapshot req => some { p with sentSnapshots := (task.peerId, req) :: p.sentSnapshots }
        | .append => some { p with checked := task :: p.checked }
      else none
  | .sendAppendEntries task =>
      if task ∈ p.checked then
        match p.node.buildAppendEntries task with
        | none => some p
        | some req => some { p with sentEntries := (task.peerId, req) :: p.sentEntries }
      else none
  | .appendEntriesReply peerId req resp =>
      if (peerId, req) ∈ p.sentEntries then
        some { p with node := p.node.handleAppendEntriesReply peerId req resp }
      else none
  | .installSnapshotReply peerId req resp =>
      if (peerId, req) ∈ p.sentSnapshots then
        some { p with node := p.node.handleInstallSnapshotReply peerId req resp }
      else none
  | .compact upToIndex snapshotData =>
      some { p with node := (p.node.compact upToIndex snapshotData).1 }

/-! ## Marks -/

/-- The indices that the threads hold, with the term each was taken in. -/
def marks (p : Server) : List (Nat × Nat) :=
  p.tasks.map (fun task => (task.term, task.nextIdx - 1)) ++
    p.checked.map (fun task => (task.term, task.nextIdx - 1)) ++
    p.sentEntries.map (fun sent => (sent.2.term, sent.2.prevLogIndex + sent.2.entries.length)) ++
    p.sentSnapshots.map fun sent => (sent.2.term, sent.2.lastIncludedIndex)

theorem mark_of_checked {p : Server} {task : SendTask} (h : task ∈ p.checked) :
    (task.term, task.nextIdx - 1) ∈ p.marks := by
  simp only [marks, List.mem_append, List.mem_map]
  exact .inl (.inl (.inr ⟨task, h, rfl⟩))

theorem mark_of_sentEntries {p : Server} {peerId : Int} {req : AppendEntriesRequest}
    (h : (peerId, req) ∈ p.sentEntries) :
    (req.term, req.prevLogIndex + req.entries.length) ∈ p.marks := by
  simp only [marks, List.mem_append, List.mem_map]
  exact .inl (.inr ⟨(peerId, req), h, rfl⟩)

theorem mark_of_sentSnapshots {p : Server} {peerId : Int} {req : InstallSnapshotRequest}
    (h : (peerId, req) ∈ p.sentSnapshots) : (req.term, req.lastIncludedIndex) ∈ p.marks := by
  simp only [marks, List.mem_append, List.mem_map]
  exact .inr ⟨(peerId, req), h, rfl⟩

/-! ## What one section does -/

/-- A section moves the node and leaves the threads' marks alone, where an index that is
acknowledged to a leader is a mark of its term; or it leaves the node alone and adds marks of
the leader's term and log. -/
inductive Moves (p p' : Server) : Prop
  | node (hmove : LeadershipMove (fun k => (p.node.state.currentTerm, k) ∈ p.marks) p.node p'.node)
      (hmarks : p'.marks = p.marks) (htasks : p'.tasks = p.tasks)
      (hchecked : p'.checked = p.checked)
  | threads (hnode : p'.node = p.node)
      (hmarks : ∀ T k, (T, k) ∈ p'.marks → (T, k) ∈ p.marks ∨
        (p.node.role = .leader ∧ T = p.node.state.currentTerm ∧
          ((∃ peer, k = p.node.nextIndex peer - 1) ∨ k = p.node.log.snapshotLastIndex ∨
            ∃ task ∈ p.checked, task.term = T ∧
              k = task.nextIdx - 1 + (p.node.log.lastIndex + 1 - task.nextIdx))))
      (htasks : ∀ task ∈ p'.tasks, task ∈ p.tasks ∨
        (p.node.role = .leader ∧ ∃ peer, task.nextIdx = p.node.nextIndex peer))
      (hchecked : ∀ task ∈ p'.checked, task ∈ p.checked ∨ task ∈ p.tasks)

theorem length_entriesFrom (log : RaftLog) (nextIdx : Nat) :
    (entriesFrom log nextIdx).length = log.lastIndex + 1 - nextIdx := by
  simp [entriesFrom]

/-- **Step lemma.**  What each section does to the node and to the marks. -/
theorem step_move {p p' : Server} {a : ServerAction} (h : p.step a = some p') : Moves p p' := by
  cases a with
  | requestVote req =>
      cases h
      exact .node (.handleRequestVote _ req) rfl rfl rfl
  | appendEntries req =>
      cases h
      exact .node (.handleAppendEntries _ req) rfl rfl rfl
  | installSnapshot req =>
      cases h
      exact .node (.handleInstallSnapshot _ req) rfl rfl rfl
  | startElection =>
      simp only [step, Option.ite_none_right_eq_some, Option.some.injEq] at h
      obtain ⟨-, rfl⟩ := h
      exact .node (.startElection _) rfl rfl rfl
  | requestVoteReply resp =>
      simp only [step, Option.map_eq_some_iff] at h
      obtain ⟨electionTerm, -, rfl⟩ := h
      exact .node (.handleRequestVoteReply _ electionTerm resp) rfl rfl rfl
  | finishElection votes =>
      simp only [step, Option.map_eq_some_iff] at h
      obtain ⟨electionTerm, -, rfl⟩ := h
      exact .node (.finishElection _ electionTerm votes) rfl rfl rfl
  | propose command =>
      simp only [step] at h
      split at h
      · cases h
        exact .node (.of_same rfl rfl rfl rfl rfl) rfl rfl rfl
      · rename_i node call hcall
        cases h
        exact .node (.propose hcall) rfl rfl rfl
  | replicate =>
      cases h
      have hnew : ∀ task ∈ p.node.replicateToFollowers, p.node.role = .leader ∧
          task.term = p.node.state.currentTerm ∧ ∃ peer, task.nextIdx = p.node.nextIndex peer := by
        intro task htask
        unfold replicateToFollowers at htask
        split_ifs at htask with hrole
        · cases htask
        · obtain ⟨peer, -, rfl⟩ := List.mem_map.mp htask
          exact ⟨not_not.mp hrole, rfl, peer, rfl⟩
      refine .threads rfl ?_ ?_ fun task htask => .inl htask
      · intro T k hmark
        simp only [marks, List.map_append, List.mem_append, List.mem_map, Prod.mk.injEq,
          Prod.exists] at hmark ⊢
        rcases hmark with (((⟨task, htask, rfl, rfl⟩ | hmark) | hmark) | hmark) | hmark
        · obtain ⟨hrole, hterm, peer, hnext⟩ := hnew task htask
          exact .inr ⟨hrole, hterm, .inl ⟨peer, by rw [hnext]⟩⟩
        · exact .inl (.inl (.inl (.inl hmark)))
        · exact .inl (.inl (.inl (.inr hmark)))
        · exact .inl (.inl (.inr hmark))
        · exact .inl (.inr hmark)
      · intro task htask
        rcases List.mem_append.mp htask with htask | htask
        · obtain ⟨hrole, -, hnext⟩ := hnew task htask
          exact .inr ⟨hrole, hnext⟩
        · exact .inl htask
  | sendCheck task =>
      simp only [step, Option.ite_none_right_eq_some] at h
      obtain ⟨hmem, h⟩ := h
      split at h
      · cases h
        exact .node (.of_same rfl rfl rfl rfl rfl) rfl rfl rfl
      · rename_i req hreq
        cases h
        have hsent : p.node.role = .leader ∧ req.term = p.node.state.currentTerm ∧
            req.lastIncludedIndex = p.node.log.snapshotLastIndex := by
          unfold RaftNode.sendCheck at hreq
          split_ifs at hreq with hno hlt
          rw [not_or, not_not, not_not] at hno
          cases hreq
          exact ⟨hno.1, hno.2.symm, rfl⟩
        refine .threads rfl ?_ (fun task htask => .inl htask) fun task htask => .inl htask
        intro T k hmark
        simp only [marks, List.map_cons, List.mem_append, List.mem_cons, Prod.mk.injEq] at hmark ⊢
        rcases hmark with hmark | ⟨rfl, rfl⟩ | hmark
        · exact .inl (.inl hmark)
        · exact .inr ⟨hsent.1, hsent.2.1, .inr (.inl hsent.2.2)⟩
        · exact .inl (.inr hmark)
      · cases h
        refine .threads rfl ?_ (fun task htask => .inl htask) ?_
        · intro T k hmark
          simp only [marks, List.map_cons, List.mem_append, List.mem_cons, Prod.mk.injEq] at hmark ⊢
          rcases hmark with ((hmark | ⟨rfl, rfl⟩ | hmark) | hmark) | hmark
          · exact .inl (.inl (.inl (.inl hmark)))
          · exact .inl (.inl (.inl (.inl (List.mem_map.mpr ⟨task, hmem, rfl⟩))))
          · exact .inl (.inl (.inl (.inr hmark)))
          · exact .inl (.inl (.inr hmark))
          · exact .inl (.inr hmark)
        · intro t ht
          rcases List.mem_cons.mp ht with rfl | ht
          · exact .inr hmem
          · exact .inl ht
  | sendAppendEntries task =>
      simp only [step, Option.ite_none_right_eq_some] at h
      obtain ⟨hmem, h⟩ := h
      split at h
      · cases h
        exact .node (.of_same rfl rfl rfl rfl rfl) rfl rfl rfl
      · rename_i req hreq
        cases h
        obtain ⟨hrole, hterm, rfl⟩ := buildAppendEntries_eq_some hreq
        refine .threads rfl ?_ (fun task htask => .inl htask) fun task htask => .inl htask
        intro T k hmark
        simp only [marks, List.map_cons, List.mem_append, List.mem_cons, Prod.mk.injEq,
          length_entriesFrom] at hmark ⊢
        rcases hmark with (hmark | ⟨rfl, rfl⟩ | hmark) | hmark
        · exact .inl (.inl (.inl hmark))
        · exact .inr ⟨hrole, hterm.symm, .inr (.inr ⟨task, hmem, rfl, rfl⟩)⟩
        · exact .inl (.inl (.inr hmark))
        · exact .inl (.inr hmark)
  | appendEntriesReply peerId req resp =>
      simp only [step, Option.ite_none_right_eq_some, Option.some.injEq] at h
      obtain ⟨hmem, rfl⟩ := h
      refine .node ((LeadershipMove.handleAppendEntriesReply _ peerId req resp).weaken ?_)
        rfl rfl rfl
      rintro k ⟨hterm, rfl⟩
      rw [hterm]
      exact mark_of_sentEntries hmem
  | installSnapshotReply peerId req resp =>
      simp only [step, Option.ite_none_right_eq_some, Option.some.injEq] at h
      obtain ⟨hmem, rfl⟩ := h
      refine .node ((LeadershipMove.handleInstallSnapshotReply _ peerId req resp).weaken ?_) rfl rfl
        rfl
      rintro k ⟨hterm, rfl⟩
      rw [hterm]
      exact mark_of_sentSnapshots hmem
  | compact upToIndex snapshotData =>
      cases h
      exact .node (.compact _ upToIndex snapshotData) rfl rfl rfl

end Server

/-! ## The leader's indices -/

/-- What a server keeps: calls start at index 1 or later; marks are of terms the node has
reached, and of older ones while it stands for election; a leader's own marks and indices lie
in its log. -/
structure BookInv (p : Server) : Prop where
  positive : ∀ task, task ∈ p.tasks ∨ task ∈ p.checked → 1 ≤ task.nextIdx
  reached : ∀ T k, (T, k) ∈ p.marks → T ≤ p.node.state.currentTerm
  standing : p.node.role = .candidate → ∀ T k, (T, k) ∈ p.marks → T < p.node.state.currentTerm
  inLog : p.node.role = .leader →
    ∀ k, (p.node.state.currentTerm, k) ∈ p.marks → k ≤ p.node.log.lastIndex
  next_pos : p.node.role = .leader → ∀ q, 1 ≤ p.node.nextIndex q
  next_le : p.node.role = .leader → ∀ q, p.node.nextIndex q ≤ p.node.log.lastIndex + 1
  match_le : p.node.role = .leader → ∀ q, p.node.matchIndex q ≤ p.node.log.lastIndex

namespace BookInv

variable {p p' : Server}

theorem start (nodeId : Int) (peers : List Int) (state : PersistentState) (log : RaftLog) :
    BookInv (Server.start nodeId peers state log) where
  positive task htask := by simp [Server.start] at htask
  reached T k hmark := by simp [Server.start, Server.marks] at hmark
  standing hrole := by simp [Server.start, openFiles] at hrole
  inLog hrole := by simp [Server.start, openFiles] at hrole
  next_pos hrole := by simp [Server.start, openFiles] at hrole
  next_le hrole := by simp [Server.start, openFiles] at hrole
  match_le hrole := by simp [Server.start, openFiles] at hrole

/-- A section that moves the node keeps the marks in range: a new leader has none of its term
yet, and the log of a leader that serves on is no shorter. -/
theorem of_node (hinv : BookInv p)
    (hmove : LeadershipMove (fun k => (p.node.state.currentTerm, k) ∈ p.marks) p.node p'.node)
    (hmarks : p'.marks = p.marks) (htasks : p'.tasks = p.tasks)
    (hchecked : p'.checked = p.checked) :
    BookInv p' := by
  have hpositive : ∀ task, task ∈ p'.tasks ∨ task ∈ p'.checked → 1 ≤ task.nextIdx := by
    rw [htasks, hchecked]
    exact hinv.positive
  have hterm := hmove.term_le
  have hlast := hmove.lastIndex_le
  have hreached : ∀ T k, (T, k) ∈ p'.marks → T ≤ p'.node.state.currentTerm := by
    intro T k hmark
    exact (hinv.reached T k (hmarks ▸ hmark)).trans hterm
  cases hmove with
  | idle hrole _ hstanding =>
      refine ⟨hpositive, hreached, ?_, fun h => absurd h hrole, fun h => absurd h hrole,
        fun h => absurd h hrole, fun h => absurd h hrole⟩
      intro hcand T k hmark
      rw [hmarks] at hmark
      rcases hstanding hcand with hlt | hold
      · exact lt_of_le_of_lt (hinv.reached T k hmark) hlt
      · exact lt_of_lt_of_le (hinv.standing hold T k hmark) hterm
  | elected hcand hrole hsame hlog hnext hmatch =>
      refine ⟨hpositive, hreached, ?_, ?_, ?_, ?_, ?_⟩
      · rw [hrole]
        exact fun h => absurd h (by decide)
      · intro _ k hmark
        rw [hmarks, hsame] at hmark
        exact absurd (hinv.standing hcand _ k hmark) (Nat.lt_irrefl _)
      · intro _ q
        rw [hnext]
        exact Nat.succ_pos _
      · intro _ q
        rw [hnext, hlog]
      · intro _ q
        rw [hmatch]
        exact Nat.zero_le _
  | serves hold hrole hsame hlog hnext hmatch =>
      have hgrow := hlast hrole
      refine ⟨hpositive, hreached, ?_, ?_, ?_, ?_, ?_⟩
      · rw [hrole]
        exact fun h => absurd h (by decide)
      · intro _ k hmark
        rw [hmarks, hsame] at hmark
        exact (hinv.inLog hold k hmark).trans hgrow
      · intro _ q
        have hpos := hinv.next_pos hold q
        rcases hnext q with heq | ⟨hlt, heq⟩ | ⟨k, -, heq⟩
        all_goals omega
      · intro _ q
        have hle := hinv.next_le hold q
        rcases hnext q with heq | ⟨hlt, heq⟩ | ⟨k, hacked, heq⟩
        · omega
        · omega
        · have hk := hinv.inLog hold k hacked
          omega
      · intro _ q
        have hle := hinv.match_le hold q
        rcases hmatch q with heq | ⟨k, hacked, -, heq⟩
        · omega
        · have hk := hinv.inLog hold k hacked
          omega

/-- **Step lemma.**  Every section keeps the leader's indices in range. -/
theorem step (hinv : BookInv p) {a : ServerAction} (h : p.step a = some p') : BookInv p' := by
  cases Server.step_move h with
  | node hmove hmarks htasks hchecked => exact hinv.of_node hmove hmarks htasks hchecked
  | threads hnode hmarks htasks hchecked =>
      have hpositive : ∀ task, task ∈ p'.tasks ∨ task ∈ p'.checked → 1 ≤ task.nextIdx := by
        rintro task (htask | htask)
        · rcases htasks task htask with hold | ⟨hrole, q, hnext⟩
          · exact hinv.positive task (.inl hold)
          · rw [hnext]
            exact hinv.next_pos hrole q
        · exact hinv.positive task (hchecked task htask).symm
      refine ⟨hpositive, ?_, ?_, ?_, ?_, ?_, ?_⟩
      · intro T k hmark
        rw [hnode]
        rcases hmarks T k hmark with hold | ⟨-, hterm, -⟩
        · exact hinv.reached T k hold
        · exact hterm.le
      · rw [hnode]
        intro hcand T k hmark
        rcases hmarks T k hmark with hold | ⟨hrole, -⟩
        · exact hinv.standing hcand T k hold
        · rw [hrole] at hcand
          cases hcand
      · rw [hnode]
        intro hrole k hmark
        rcases hmarks _ k hmark with hold | ⟨-, -, ⟨q, rfl⟩ | rfl | ⟨task, htask, hterm, rfl⟩⟩
        · exact hinv.inLog hrole k hold
        · have hle := hinv.next_le hrole q
          omega
        · exact Nat.le_add_right _ _
        · -- a request that is built reaches from the copied index to the end of the log
          have hpos := hinv.positive task (.inr htask)
          have hmark' := Server.mark_of_checked htask
          rw [hterm] at hmark'
          have hle := hinv.inLog hrole _ hmark'
          omega
      · rw [hnode]
        exact hinv.next_pos
      · rw [hnode]
        exact hinv.next_le
      · rw [hnode]
        exact hinv.match_le

/-- In every run of a server. -/
theorem of_run {ok : Server → ServerAction → Prop} {as : List ServerAction}
    (hrun : Exec Server.step ok p as p') (hinv : BookInv p) : BookInv p' :=
  hrun.invariant BookInv (fun _ _ _ hinv _ hstep => hinv.step hstep) hinv

end BookInv

/-! ## Match indices of one term -/

/-- Once a node has led a term, it is past the term, or a follower in it, or still its leader
with match indices that are no smaller. -/
def LedFrom (node node' : RaftNode) : Prop :=
  node.state.currentTerm < node'.state.currentTerm ∨
    (node'.state.currentTerm = node.state.currentTerm ∧ (node'.role = .follower ∨
      (node'.role = .leader ∧ ∀ q, node.matchIndex q ≤ node'.matchIndex q)))

theorem LedFrom.step {node : RaftNode} {p p' : Server} {a : ServerAction}
    (hled : LedFrom node p.node) (h : p.step a = some p') : LedFrom node p'.node := by
  cases Server.step_move h with
  | threads hnode hmarks htasks hchecked => rwa [hnode]
  | node hmove hmarks htasks hchecked =>
      have hterm := hmove.term_le
      rcases hled with hpast | ⟨hsame, hrole⟩
      · exact .inl (by omega)
      rcases hterm.lt_or_eq with hlt | heq
      · exact .inl (by omega)
      right
      refine ⟨by omega, ?_⟩
      cases hmove with
      | idle hidle _ hstanding =>
          left
          cases hrole' : p'.node.role with
          | follower => rfl
          | leader => exact absurd hrole' hidle
          | candidate =>
              rcases hstanding hrole' with hlt | hcand
              · omega
              · rcases hrole with hrole | ⟨hrole, -⟩
                · rw [hrole] at hcand
                  cases hcand
                · rw [hrole] at hcand
                  cases hcand
      | elected hcand hrole' _ hlog hnext hmatch =>
          rcases hrole with hrole | ⟨hrole, -⟩
          · rw [hrole] at hcand
            cases hcand
          · rw [hrole] at hcand
            cases hcand
      | serves hlead hrole' _ hlog hnext hmatch =>
          rcases hrole with hrole | ⟨-, hle⟩
          · rw [hrole] at hlead
            cases hlead
          · refine .inr ⟨hrole', fun q => (hle q).trans ?_⟩
            rcases hmatch q with heq | ⟨k, -, hlt, heq⟩
            · exact heq.ge
            · omega

/-! ## Peers -/

/-- A section changes neither the node's id nor its peers. -/
theorem Server.step_peers {p p' : Server} {a : ServerAction} (h : p.step a = some p') :
    p'.node.nodeId = p.node.nodeId ∧ p'.node.peers = p.node.peers := by
  have hquiet : ∀ {node : RaftNode}, Quiet p.node node →
      node.nodeId = p.node.nodeId ∧ node.peers = p.node.peers :=
    fun hquiet => ⟨hquiet.nodeId, hquiet.peers⟩
  cases a with
  | requestVote req =>
      cases h
      have hobs := hquiet (Quiet.observeTerm p.node req.term)
      rcases handleRequestVote_cases p.node req with ⟨-, heq⟩ | ⟨heq, -⟩
      · rw [heq]
        exact hobs
      · rw [heq]
        exact hobs
  | appendEntries req =>
      cases h
      exact hquiet (Quiet.handleAppendEntries _ req)
  | installSnapshot req =>
      cases h
      exact hquiet (Quiet.handleInstallSnapshot _ req)
  | startElection =>
      simp only [step, Option.ite_none_right_eq_some, Option.some.injEq] at h
      obtain ⟨-, rfl⟩ := h
      exact ⟨rfl, rfl⟩
  | requestVoteReply resp =>
      simp only [step, Option.map_eq_some_iff] at h
      obtain ⟨electionTerm, -, rfl⟩ := h
      exact hquiet (Quiet.handleRequestVoteReply _ electionTerm resp)
  | finishElection votes =>
      simp only [step, Option.map_eq_some_iff] at h
      obtain ⟨electionTerm, -, rfl⟩ := h
      dsimp only [RaftNode.finishElection]
      split
      · exact ⟨rfl, rfl⟩
      · exact ⟨rfl, rfl⟩
  | propose command =>
      simp only [step] at h
      split at h
      · cases h
        exact ⟨rfl, rfl⟩
      · rename_i node call hcall
        cases h
        exact hquiet (Quiet.propose hcall)
  | replicate =>
      cases h
      exact ⟨rfl, rfl⟩
  | sendCheck task =>
      simp only [step, Option.ite_none_right_eq_some] at h
      obtain ⟨-, h⟩ := h
      split at h <;> cases h <;> exact ⟨rfl, rfl⟩
  | sendAppendEntries task =>
      simp only [step, Option.ite_none_right_eq_some] at h
      obtain ⟨-, h⟩ := h
      split at h <;> cases h <;> exact ⟨rfl, rfl⟩
  | appendEntriesReply peerId req resp =>
      simp only [step, Option.ite_none_right_eq_some, Option.some.injEq] at h
      obtain ⟨-, rfl⟩ := h
      exact hquiet (Quiet.handleAppendEntriesReply _ peerId req resp)
  | installSnapshotReply peerId req resp =>
      simp only [step, Option.ite_none_right_eq_some, Option.some.injEq] at h
      obtain ⟨-, rfl⟩ := h
      exact hquiet (Quiet.handleInstallSnapshotReply _ peerId req resp)
  | compact upToIndex snapshotData =>
      cases h
      exact hquiet (Quiet.compact _ upToIndex snapshotData)

/-- With distinct ids that include its own, a node has one stub less than peers. -/
theorem length_stubs {node : RaftNode} (hnodup : node.peers.Nodup)
    (hself : node.nodeId ∈ node.peers) :
    node.stubs.length + 1 = node.peers.length := by
  have hstubs : node.stubs = node.peers.erase node.nodeId := by
    rw [stubs, (hnodup.filter _).dedup, hnodup.erase_eq_filter]
    refine List.filter_congr fun q _ => ?_
    by_cases hq : q = node.nodeId
    · simp [hq]
    · simp [hq]
  have hpos : 0 < node.peers.length := List.length_pos_of_mem hself
  rw [hstubs, List.length_erase_of_mem hself]
  omega

/-! ## Every run -/

/-- In every run of a server on a peer list with distinct ids that contains its own: while it
leads, the next index of every other peer lies between 1 and the index behind its log, the
match index lies in its log, and the commit rule reads inside its list; no call starts at
index 0; and match indices do not decrease while it leads one term. -/
theorem leader_indices_in_range {nodeId : Int} {peers : List Int} (hnodup : peers.Nodup)
    (hself : nodeId ∈ peers) (state : PersistentState) (log : RaftLog) {as : List ServerAction}
    {p : Server}
    (hrun : Exec Server.step (fun _ _ => True) (Server.start nodeId peers state log) as p) :
    (p.node.role = .leader →
      (∀ q ∈ peers, q ≠ nodeId → 1 ≤ p.node.nextIndex q ∧
        p.node.nextIndex q ≤ p.node.log.lastIndex + 1 ∧
        p.node.matchIndex q ≤ p.node.log.lastIndex) ∧
      majority p.node.peers.length - 1 < (matchValues p.node.log.lastIndex
        (p.node.stubs.map fun q => (q, p.node.matchIndex q))).length) ∧
    (∀ task, task ∈ p.tasks ∨ task ∈ p.checked → 1 ≤ task.nextIdx) ∧
    ∀ (bs : List ServerAction) (p' : Server), Exec Server.step (fun _ _ => True) p bs p' →
      p.node.role = .leader → p'.node.role = .leader →
      p'.node.state.currentTerm = p.node.state.currentTerm →
      ∀ q ∈ peers, q ≠ nodeId → p.node.matchIndex q ≤ p'.node.matchIndex q := by
  have hinv := BookInv.of_run hrun (BookInv.start nodeId peers state log)
  refine ⟨fun hrole => ⟨fun q _ _ => ?_, ?_⟩, hinv.positive, ?_⟩
  · exact ⟨hinv.next_pos hrole q, hinv.next_le hrole q, hinv.match_le hrole q⟩
  · have hids : p.node.nodeId = nodeId ∧ p.node.peers = peers := by
      refine hrun.invariant (fun p => p.node.nodeId = nodeId ∧ p.node.peers = peers) ?_ ⟨rfl, rfl⟩
      intro p a p' hids _ hstep
      obtain ⟨hid, hpeers⟩ := Server.step_peers hstep
      exact ⟨hid.trans hids.1, hpeers.trans hids.2⟩
    have hlen := length_stubs (by rwa [hids.2]) (by rwa [hids.1, hids.2])
    rw [matchValues, List.length_cons, List.length_map, List.length_map]
    unfold majority
    omega
  · intro bs p' hrun' hrole hrole' hterm q _ _
    have hled : LedFrom p.node p'.node := by
      refine hrun'.invariant (fun p' => LedFrom p.node p'.node) ?_ ?_
      · intro p a p' hled _ hstep
        exact hled.step hstep
      · exact .inr ⟨rfl, .inr ⟨hrole, fun _ => le_rfl⟩⟩
    rcases hled with hlt | ⟨-, hfollower | ⟨-, hle⟩⟩
    · omega
    · rw [hrole'] at hfollower
      cases hfollower
    · exact hle q

/-- Node 0 of three is elected, proposes twice, and gets a refusal and the replies to two
requests in the wrong order. -/
def staleReplies : List ServerAction :=
  [.startElection, .finishElection 2, .propose [97], .replicate, .sendCheck ⟨1, 1, 1⟩,
    .sendAppendEntries ⟨1, 1, 1⟩, .propose [98], .sendAppendEntries ⟨1, 1, 1⟩,
    .appendEntriesReply 1 ⟨1, 0, 0, 0, [⟨1, 1, [97]⟩, ⟨1, 2, [98]⟩], 0⟩ ⟨1, true⟩,
    .appendEntriesReply 1 ⟨1, 0, 0, 0, [⟨1, 1, [97]⟩], 0⟩ ⟨1, true⟩,
    .appendEntriesReply 1 ⟨1, 0, 0, 0, [⟨1, 1, [97]⟩], 0⟩ ⟨1, false⟩, .compact 1 [115]]

theorem leader_indices_in_range_staleReplies :
    ∃ p, Exec Server.step (fun _ _ => True) (Server.start 0 [0, 1, 2] {} {}) staleReplies p ∧
      p.node.role = .leader ∧ p.node.nextIndex 1 = 1 ∧ p.node.matchIndex 1 = 2 ∧
      (1 ≤ p.node.nextIndex 1 ∧ p.node.nextIndex 1 ≤ p.node.log.lastIndex + 1 ∧
        p.node.matchIndex 1 ≤ p.node.log.lastIndex) := by
  have hrun := Exec.of_guardedRun Server.step (fun _ _ => True) (Server.start 0 [0, 1, 2] {} {})
    staleReplies (by decide +kernel)
  have hrange := leader_indices_in_range (by decide) (by decide) {} {} hrun
  refine ⟨_, hrun, by decide +kernel, by decide +kernel, by decide +kernel, ?_⟩
  exact (hrange.1 (by decide +kernel)).1 1 (by decide) (by decide)

end NanoDB.Raft
