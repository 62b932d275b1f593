import NanoDB.Raft.SentEntries
import NanoDB.Raft.Shadow

/-!
# Commit safety of a cluster that compacts

Nodes compact their logs, leaders send snapshots to followers that are behind, and nodes
restart.  Beside such a cluster runs one with whole logs: a compaction is nothing there, a
snapshot is a request with all the entries it covers, or one that only announces them, and a
node that restarts learns how far its snapshot reaches.

Three things have to be ruled out, and they are all.  A request must not make a follower drop
stored entries that it agrees with; a snapshot must not be installed below a conflicting tail;
and a request must not be built from indices that a snapshot has covered since its call was
checked.

Main results:

- Theorem {lit}`compacting_cluster_refines`: every careful run is matched by steps of the
  cluster with whole logs.
- Theorem {lit}`compacting_cluster_safe`: what leaders of a careful run have committed stays
  committed, and all nodes apply the same commands and hold the same snapshots.
-/

namespace NanoDB.Raft

open Lib RaftNode

/-! ## Careful runs -/

/-- The request will be accepted, it carries entries, the log stores entries beyond what it
reaches, and it agrees with the request wherever the snapshot does not cover it. -/
def dropsStoredSuffix (node : RaftNode) (req : AppendEntriesRequest) : Bool :=
  decide (node.state.currentTerm ≤ req.term) && node.prevMatches req && !req.entries.isEmpty &&
    decide (max node.log.snapshotLastIndex (req.prevLogIndex + req.entries.length) <
      node.log.lastIndex) &&
    req.entries.zipIdx.all fun (e, j) =>
      decide (req.prevLogIndex + 1 + j ≤ node.log.snapshotLastIndex) ||
        decide (node.log.termAt (req.prevLogIndex + 1 + j) = e.term)

/-- The snapshot will be installed below entries that do not continue it. -/
def keepsStaleTail (node : RaftNode) (req : InstallSnapshotRequest) : Bool :=
  installs node req && decide (req.lastIncludedIndex < node.log.lastIndex) &&
    !decide (node.log.termAt req.lastIncludedIndex = req.lastIncludedTerm)

/-- The side condition of a careful run. -/
def Careful (s : ClusterState) : Action → Prop
  | .sendAppendEntries n task =>
      (s.node n).buildAppendEntries task = none ∨
        (s.node n).log.snapshotLastIndex < task.nextIdx
  | .handleAppendEntries n req => dropsStoredSuffix (s.node n) req = false
  | .handleInstallSnapshot n req => keepsStaleTail (s.node n) req = false
  | _ => True

instance (s : ClusterState) (a : Action) : Decidable (Careful s a) :=
  match a with
  | .sendAppendEntries .. => inferInstanceAs (Decidable (_ ∨ _))
  | .handleAppendEntries .. | .handleInstallSnapshot .. => instDecidableEqBool _ _
  | .startElection .. | .handleRequestVote .. | .handleRequestVoteReply .. | .finishElection ..
  | .propose .. | .replicate .. | .sendCheck .. | .handleAppendEntriesReply ..
  | .handleInstallSnapshotReply .. | .compact .. | .restart .. | .crashAfterStepDown .. =>
      instDecidableTrue

/-! ## What a node has committed -/

section Committed

variable {c : Membership} {v : ClusterState} {h : History} {n : Int}

theorem SafetyInv.commitIndex_le (hinv : SafetyInv c v h) (n : Int) :
    (v.node n).commitIndex ≤ (v.node n).log.entries.length :=
  (hinv.commits.node n).certified.length_le

/-- What a node has committed is in the log of the leader of every term it has not passed. -/
theorem SafetyInv.getElem?_lead (hinv : SafetyInv c v h) {T : Nat} {m : Int}
    (hle : (v.node n).state.currentTerm ≤ T) (hlead : h.leader T = some m) {i : Nat}
    (hpos : 0 < i) (hi : i ≤ (v.node n).commitIndex) :
    (h.lead T)[i - 1]? = (v.node n).log.entries[i - 1]? := by
  have hprefix := ((hinv.commits.node n).certified.lead hinv.votes hinv.logs hinv.ballots hle
    hlead).1
  have hlen := hinv.commitIndex_le n
  have hlt : i - 1 < ((v.node n).log.entries.take (v.node n).commitIndex).length := by
    rw [List.length_take]
    omega
  rw [List.prefix_iff_getElem?.mp hprefix _ hlt, ← List.getElem?_eq_getElem hlt,
    List.getElem?_take_of_lt (by omega)]

/-- A request whose previous index is committed passes the consistency check. -/
theorem SafetyInv.prevMatches (hinv : SafetyInv c v h) {req : AppendEntriesRequest}
    (hreq : AppendOk h req) (hle : (v.node n).state.currentTerm ≤ req.term)
    (hprev : req.prevLogIndex ≤ (v.node n).commitIndex) :
    (v.node n).prevMatches req = true := by
  rcases Nat.eq_zero_or_pos req.prevLogIndex with hzero | hpos
  · rw [RaftNode.prevMatches, if_neg (by omega)]
  · have hlog := hinv.logs.noSnapshot n
    have hlen := hinv.commitIndex_le n
    obtain ⟨e, he, hterm⟩ := hreq.prev_term hpos
    rw [hinv.getElem?_lead hle hreq.leader hpos hprev] at he
    have hsnap := hlog.1
    rw [RaftNode.prevMatches, if_pos hpos, if_pos (by omega),
      RaftLog.termAt_of_noSnapshot hlog hpos, he]
    simp only [RaftLog.hasRealEntryAt, RaftLog.lastIndex_of_noSnapshot hlog, Bool.and_eq_true,
      decide_eq_true_eq]
    exact ⟨⟨by omega, by omega⟩, hterm⟩

/-- An entry of a request is the one of its leader's log. -/
theorem AppendOk.getElem?_lead {req : AppendEntriesRequest} (hreq : AppendOk h req) {j : Nat}
    (hj : j < (newEntries req).length) :
    (h.lead req.term)[req.prevLogIndex + j]? = (newEntries req)[j]? := by
  obtain ⟨rest, hrest⟩ := hreq.slice
  have hprev := hreq.prev_le
  rw [← hrest, List.append_assoc, List.getElem?_append_right (by simp), List.length_take,
    min_eq_left hprev, Nat.add_sub_cancel_left, List.getElem?_append_left hj]

end Committed

/-! ## A follower with a snapshot and its shadow -/

section Follower

variable {c : Membership} {v : ClusterState} {h : History} {n : Int} {x : RaftNode}

/-- The consistency check of a node with a snapshot answers as that of its shadow. -/
theorem Shadows.prevMatches_eq (hx : Shadows x (v.node n)) (hinv : SafetyInv c v h)
    {req : AppendEntriesRequest} (hreq : AppendOk h req) (hle : x.state.currentTerm ≤ req.term) :
    (v.node n).prevMatches req = x.prevMatches req := by
  rcases Nat.lt_or_ge x.log.snapshotLastIndex req.prevLogIndex with hlt | hge
  · have hpos : req.prevLogIndex > 0 := by omega
    have hwhole := hx.whole.1
    rw [RaftNode.prevMatches, RaftNode.prevMatches, if_pos hpos, if_pos hpos, if_pos hlt,
      if_pos (by omega), hx.termAt_eq hlt.le]
    congr 1
    simp only [RaftLog.hasRealEntryAt, hx.lastIndex_eq, hlt, hwhole, hpos]
  · have hcommit := hx.commitIndex
    have hsnap := hx.snapshot_le
    rw [hinv.prevMatches hreq (by rwa [hx.state]) (by omega), RaftNode.prevMatches,
      if_neg (show ¬ req.prevLogIndex > x.log.snapshotLastIndex by omega), ite_self]

/-- What is accepted behind the previous index of a request is what the shadow accepts. -/
theorem Shadows.represents_accepted (hx : Shadows x (v.node n)) (hinv : SafetyInv c v h)
    {req : AppendEntriesRequest} (hreq : AppendOk h req) (hle : x.state.currentTerm ≤ req.term)
    (hprev : x.prevMatches req = true)
    (hreach : x.log.snapshotLastIndex ≤ req.prevLogIndex + req.entries.length) :
    (acceptedLog x.log req).Represents (acceptedLog (v.node n).log req).entries := by
  by_cases hne : newEntries req = []
  · rw [RaftNode.acceptedLog, RaftNode.acceptedLog, if_pos hne, if_pos hne]
    exact hx.log
  · rw [RaftNode.acceptedLog, RaftNode.acceptedLog, if_neg hne, if_neg hne,
      RaftLog.truncateAndAppend_of_noSnapshot hx.whole]
    refine hx.log.truncateAndAppend ⟨?_, fun hbelow => ⟨?_, fun index hlo hhi => ?_⟩⟩
    · -- the previous index is in the log, or covered by the snapshot
      have hsnap : x.log.snapshotLastIndex ≤ x.log.lastIndex := Nat.le_add_right _ _
      by_contra hgt
      dsimp only at hgt
      rw [RaftNode.prevMatches, if_pos (by omega), if_pos (by omega)] at hprev
      simp only [RaftLog.hasRealEntryAt, Bool.and_eq_true, decide_eq_true_eq] at hprev
      omega
    · rw [length_newEntries]
      exact hreach
    · -- what the snapshot covers is committed, and the leader has it
      dsimp only at hlo hhi ⊢
      have hcommit := hx.commitIndex
      have hsnap := hx.snapshot_le
      have hnew : index - 1 - req.prevLogIndex < (newEntries req).length := by
        rw [length_newEntries]
        omega
      rw [← hreq.getElem?_lead hnew,
        show req.prevLogIndex + (index - 1 - req.prevLogIndex) = index - 1 by omega]
      exact hinv.getElem?_lead (by rwa [hx.state]) hreq.leader (by omega) (by omega)

/-- A careful request drops no matching suffix of the shadow's log, if it reaches the
snapshot. -/
theorem Shadows.dropsMatchingSuffix_eq_false (hx : Shadows x (v.node n)) (hinv : SafetyInv c v h)
    {req : AppendEntriesRequest} (hreq : AppendOk h req)
    (hcareful : dropsStoredSuffix x req = false)
    (hreach : x.log.snapshotLastIndex ≤ req.prevLogIndex + req.entries.length) :
    dropsMatchingSuffix (v.node n) req = false := by
  rw [Bool.eq_false_iff] at hcareful ⊢
  refine fun hdrops => hcareful ?_
  simp only [dropsMatchingSuffix, Bool.and_eq_true, decide_eq_true_eq, List.all_eq_true] at hdrops
  obtain ⟨⟨⟨⟨hle, hprev⟩, hne⟩, hend⟩, hall⟩ := hdrops
  rw [hx.state] at hle
  rw [hx.prevMatches_eq hinv hreq hle] at hprev
  rw [hx.lastIndex_eq] at hend
  simp only [dropsStoredSuffix, Bool.and_eq_true, decide_eq_true_eq, List.all_eq_true,
    Bool.or_eq_true]
  refine ⟨⟨⟨⟨hle, hprev⟩, hne⟩, by omega⟩, fun p hp => ?_⟩
  rcases Nat.lt_or_ge x.log.snapshotLastIndex (req.prevLogIndex + 1 + p.2) with hlt | hge
  · right
    rw [← hx.termAt_eq hlt.le]
    exact hall p hp
  · exact .inl hge

/-- A careful request that ends inside the snapshot changes nothing. -/
theorem acceptedLog_of_inside {req : AppendEntriesRequest}
    (hcareful : dropsStoredSuffix x req = false) (hle : x.state.currentTerm ≤ req.term)
    (hprev : x.prevMatches req = true)
    (hinside : req.prevLogIndex + req.entries.length < x.log.snapshotLastIndex) :
    acceptedLog x.log req = x.log := by
  by_cases hne : newEntries req = []
  · rw [RaftNode.acceptedLog, if_pos hne]
  · have hlast : x.log.lastIndex ≤ x.log.snapshotLastIndex := by
      by_contra hgt
      rw [Bool.eq_false_iff] at hcareful
      refine hcareful ?_
      have hne' : req.entries ≠ [] := by simpa [newEntries] using hne
      simp only [dropsStoredSuffix, hle, hprev, decide_true, Bool.true_and, Bool.and_eq_true,
        Bool.not_eq_true', List.isEmpty_eq_false_iff, decide_eq_true_eq, List.all_eq_true,
        Bool.or_eq_true]
      refine ⟨⟨hne', by omega⟩, fun p hp => .inl ?_⟩
      have hlt := (List.getElem?_eq_some_iff.mp (List.mem_zipIdx_iff_getElem?.mp hp)).1
      omega
    have hnil : x.log.entries = [] := by
      rw [RaftLog.lastIndex] at hlast
      exact List.length_eq_zero_iff.mp (by omega)
    have hentries := RaftLog.truncateAndAppend_entries x.log req.prevLogIndex (newEntries req)
    rw [hnil, List.take_nil, List.drop_of_length_le (by rw [length_newEntries]; omega),
      List.append_nil, ← hnil] at hentries
    rw [RaftNode.acceptedLog, if_neg hne]
    -- a truncation changes the entries only
    calc x.log.truncateAndAppend req.prevLogIndex (newEntries req)
        = { x.log with
            entries := (x.log.truncateAndAppend req.prevLogIndex (newEntries req)).entries } := rfl
      _ = x.log := by rw [hentries]

/-- A careful request that reaches the snapshot cuts no committed entry off. -/
theorem Shadows.commitIndex_le_accepted (hx : Shadows x (v.node n)) (hinv : SafetyInv c v h)
    {req : AppendEntriesRequest} (hreq : AppendOk h req)
    (hcareful : dropsStoredSuffix x req = false) (hle : x.state.currentTerm ≤ req.term)
    (hprev : x.prevMatches req = true)
    (hreach : x.log.snapshotLastIndex ≤ req.prevLogIndex + req.entries.length) :
    x.commitIndex ≤ (acceptedLog (v.node n).log req).lastIndex := by
  have hterm : (v.node n).state.currentTerm ≤ req.term := by rwa [hx.state]
  have hlead := ((hinv.commits.node n).certified.lead hinv.votes hinv.logs hinv.ballots hterm
    hreq.leader).1
  have hkeeps := prefix_acceptedLog hinv.logs.coherent hreq hx.whole (hinv.logs.follows n) hterm
    (by rwa [hx.prevMatches_eq hinv hreq hle])
    (hx.dropsMatchingSuffix_eq_false hinv hreq hcareful hreach) (List.take_prefix _ _) hlead
  have hlen := hkeeps.length_le
  rw [List.length_take, min_eq_left (hinv.commitIndex_le n), hx.commitIndex] at hlen
  rwa [RaftLog.lastIndex_of_noSnapshot (hx.whole_acceptedLog req)]

/-- A careful request that reaches the snapshot is handled alike. -/
theorem Shadows.appendEntries (hx : Shadows x (v.node n)) (hinv : SafetyInv c v h)
    {req : AppendEntriesRequest} (hreq : AppendOk h req)
    (hcareful : dropsStoredSuffix x req = false)
    (hreach : x.log.snapshotLastIndex ≤ req.prevLogIndex + req.entries.length) :
    Shadows (x.handleAppendEntries req).1 ((v.node n).handleAppendEntries req).1 ∧
      ((v.node n).handleAppendEntries req).2 = (x.handleAppendEntries req).2 :=
  hx.handleAppendEntries rfl rfl rfl (hx.prevMatches_eq hinv hreq) fun hle hprev =>
    ⟨hx.represents_accepted hinv hreq hle hprev hreach,
      hx.commitIndex_le_accepted hinv hreq hcareful hle hprev hreach⟩

/-- A careful request cuts no committed entry off. -/
theorem Shadows.cutsCommitted_eq_false (hx : Shadows x (v.node n)) (hinv : SafetyInv c v h)
    {req : AppendEntriesRequest} (hreq : AppendOk h req)
    (hcareful : dropsStoredSuffix x req = false) : cutsCommitted x req = false := by
  rw [Bool.eq_false_iff]
  intro hcuts
  simp only [cutsCommitted, Bool.and_eq_true, decide_eq_true_eq] at hcuts
  obtain ⟨⟨⟨hle, hprev⟩, -⟩, hcut⟩ := hcuts
  rw [← lastIndex_acceptedLog hprev] at hcut
  rcases Nat.lt_or_ge (req.prevLogIndex + req.entries.length) x.log.snapshotLastIndex with
    hinside | hreach
  · have hlen := hinv.commitIndex_le n
    rw [hx.commitIndex, ← RaftLog.lastIndex_of_noSnapshot hx.whole, hx.lastIndex_eq] at hlen
    rw [acceptedLog_of_inside hcareful hle hprev hinside] at hcut
    omega
  · have hkeeps := hx.commitIndex_le_accepted hinv hreq hcareful hle hprev hreach
    have hsame := (hx.represents_accepted hinv hreq hle hprev hreach).lastIndex
    rw [RaftLog.lastIndex_of_noSnapshot (hx.whole_acceptedLog req)] at hkeeps
    omega

/-! ## Requests that stand for others -/

/-- The request without its entries, which only announces how far it reaches. -/
def AppendEntriesRequest.announcement (req : AppendEntriesRequest) (lead : List PersistedEntry) :
    AppendEntriesRequest :=
  { req with
    prevLogIndex := req.prevLogIndex + req.entries.length
    prevLogTerm := PlainLog.termAt lead (req.prevLogIndex + req.entries.length)
    entries := [] }

/-- The request that only announces how far a snapshot reaches. -/
def InstallSnapshotRequest.announcement (req : InstallSnapshotRequest) : AppendEntriesRequest :=
  ⟨req.term, req.leaderId, req.lastIncludedIndex, req.lastIncludedTerm, [], req.lastIncludedIndex⟩

/-- The request with all the entries that a snapshot covers. -/
def InstallSnapshotRequest.withEntries (req : InstallSnapshotRequest) (entries : List LogEntry) :
    AppendEntriesRequest :=
  ⟨req.term, req.leaderId, 0, 0, entries, req.lastIncludedIndex⟩

theorem Warranted.announcement {req : AppendEntriesRequest} (hreq : Warranted c h req) :
    Warranted c h (req.announcement (h.lead req.term)) where
  slice :=
    { leader := hreq.slice.leader
      prev_le := hreq.slice.reach_le
      prev_term := fun hpos => by
        have hreach := hreq.slice.reach_le
        simp only [AppendEntriesRequest.announcement] at hpos ⊢
        have hlt : req.prevLogIndex + req.entries.length - 1 < (h.lead req.term).length := by omega
        refine ⟨_, List.getElem?_eq_getElem hlt, ?_⟩
        rw [PlainLog.termAt, if_neg (by omega), List.getElem?_eq_getElem hlt]
        rfl
      slice := by
        simp only [AppendEntriesRequest.announcement, newEntries, List.map_nil, List.append_nil]
        exact List.take_prefix _ _ }
  commit := hreq.commit
  reach := hreq.reach

/-- A careful request that ends inside the snapshot is nothing but an announcement. -/
theorem Shadows.appendEntries_inside (hx : Shadows x (v.node n)) (hinv : SafetyInv c v h)
    {req : AppendEntriesRequest} (hreq : Warranted c h req)
    (hcareful : dropsStoredSuffix x req = false)
    (hinside : req.prevLogIndex + req.entries.length < x.log.snapshotLastIndex) :
    Shadows (x.handleAppendEntries req).1
        ((v.node n).handleAppendEntries (req.announcement (h.lead req.term))).1 ∧
      ((v.node n).handleAppendEntries (req.announcement (h.lead req.term))).2 =
        (x.handleAppendEntries req).2 := by
  have hsnap := hx.snapshot_le
  have hcommit := hx.commitIndex
  have haccepts : x.prevMatches req = true := by
    rw [RaftNode.prevMatches, if_neg (show ¬ req.prevLogIndex > x.log.snapshotLastIndex by omega),
      ite_self]
  refine hx.handleAppendEntries rfl rfl rfl (fun hle => ?_) fun hle _ => ?_
  · rw [haccepts]
    refine hinv.prevMatches hreq.announcement.slice (by rwa [hx.state]) ?_
    simp only [AppendEntriesRequest.announcement]
    omega
  · have hsame : acceptedLog (v.node n).log (req.announcement (h.lead req.term)) =
        (v.node n).log := if_pos rfl
    rw [acceptedLog_of_inside hcareful hle haccepts hinside, hsame,
      RaftLog.lastIndex_of_noSnapshot hx.whole, ← hcommit]
    exact ⟨hx.log, hinv.commitIndex_le n⟩

/-- A snapshot that a leader sends covers a part of its log, which it might as well have sent. -/
theorem Shadows.warranted_snapshot (hx : Shadows x (v.node n)) (hinv : SafetyInv c v h)
    {task : SendTask} {req : InstallSnapshotRequest} (hsend : x.sendCheck task = .snapshot req) :
    req.leaderId = n ∧ 0 < req.lastIncludedIndex ∧ Warranted c h req.announcement ∧
      ∃ entries, entries.length = req.lastIncludedIndex ∧
        Warranted c h (req.withEntries entries) := by
  have hpos := snapshotLastIndex_pos_of_sendCheck hsend
  unfold RaftNode.sendCheck at hsend
  split_ifs at hsend with hstop hbehind
  rw [not_or, not_not, not_not] at hstop
  obtain ⟨hrole, hterm⟩ := hstop
  have hleads := hinv.votes.leads n (by rw [hx.role, hrole])
  rw [hx.state, hterm] at hleads
  have hentries := hinv.logs.leading n (by rw [hx.state, hterm]; exact hleads)
  rw [hx.state, hterm] at hentries
  have hid : x.nodeId = n := hx.nodeId.symm.trans (hinv.votes.nodeId n)
  have hcovered := hx.log.covered
  have hlast := hx.log.snapshotTerm
  rw [hentries] at hcovered hlast
  have hcert : Certified c h task.term (h.lead task.term) x.log.snapshotLastIndex := by
    have hall := (hinv.commits.node n).certified
    rw [hentries, hx.state, hterm, hx.commitIndex] at hall
    exact hall.anti hx.snapshot_le
  have hlen : ((entriesFrom (v.node n).log 1).take x.log.snapshotLastIndex).length =
      x.log.snapshotLastIndex := by
    rw [List.length_take, entriesFrom, List.length_map, List.length_range,
      RaftLog.lastIndex_of_noSnapshot hx.whole, hentries]
    omega
  cases hsend
  refine ⟨hid, hpos, ⟨⟨?_, hcovered, fun _ => ?_, ?_⟩, hcert, le_rfl⟩,
    (entriesFrom (v.node n).log 1).take x.log.snapshotLastIndex, hlen,
    ⟨⟨?_, Nat.zero_le _, fun hzero => absurd hzero (lt_irrefl _), ?_⟩, hcert, ?_⟩⟩
  · dsimp only [InstallSnapshotRequest.announcement]
    rw [hid, hleads]
  · dsimp only [InstallSnapshotRequest.announcement]
    have hlt : x.log.snapshotLastIndex - 1 < (h.lead task.term).length := by omega
    refine ⟨_, List.getElem?_eq_getElem hlt, ?_⟩
    rw [hlast, PlainLog.termAt, if_neg (by omega), List.getElem?_eq_getElem hlt]
    rfl
  · dsimp only [InstallSnapshotRequest.announcement, newEntries]
    rw [List.map_nil, List.append_nil]
    exact List.take_prefix _ _
  · dsimp only [InstallSnapshotRequest.withEntries]
    rw [hid, hleads]
  · dsimp only [InstallSnapshotRequest.withEntries, newEntries]
    rw [List.map_take, entriesFrom_of_noSnapshot hx.whole le_rfl, Nat.sub_self, List.drop_zero,
      hentries, List.take_zero, List.nil_append]
    exact List.take_prefix _ _
  · dsimp only [InstallSnapshotRequest.withEntries]
    omega

/-- A snapshot that is installed carefully, or not at all, is to the shadow one of the two
requests that it stands for. -/
theorem Shadows.installSnapshot (hx : Shadows x (v.node n)) (hinv : SafetyInv c v h)
    {req : InstallSnapshotRequest} {entries : List LogEntry} (hpos : 0 < req.lastIncludedIndex)
    (hmark : AppendOk h req.announcement) (hall : AppendOk h (req.withEntries entries))
    (hlen : entries.length = req.lastIncludedIndex) (hcareful : keepsStaleTail x req = false) :
    ∃ req', (req' = req.announcement ∨ req' = req.withEntries entries) ∧
      dropsMatchingSuffix (v.node n) req' = false ∧
      Shadows (x.handleInstallSnapshot req).1 ((v.node n).handleAppendEntries req').1 ∧
      ((v.node n).handleAppendEntries req').2.term = (x.handleInstallSnapshot req).2.term ∧
      (((v.node n).handleAppendEntries req').2.success = true ∨
        req.term < (x.handleInstallSnapshot req).2.term) := by
  have hcommit := hx.commitIndex
  have hsnap := hx.snapshot_le
  by_cases hmatch : installs x req = true ∧ ¬ (req.lastIncludedIndex ≤ x.log.lastIndex ∧
      x.log.termAt req.lastIncludedIndex = req.lastIncludedTerm)
  · -- nothing of the log survives, and the snapshot brings along all it covers
    obtain ⟨hinstalls, hmatch⟩ := hmatch
    have hlast : x.log.lastIndex ≤ req.lastIncludedIndex := by
      by_contra hlt
      rw [Bool.eq_false_iff] at hcareful
      refine hcareful ?_
      simp only [keepsStaleTail, hinstalls, Bool.true_and, Bool.and_eq_true, decide_eq_true_eq,
        Bool.not_eq_true', decide_eq_false_iff_not]
      exact ⟨by omega, fun heq => hmatch ⟨by omega, heq⟩⟩
    have hnew : (newEntries (req.withEntries entries)).length = req.lastIncludedIndex := by
      rw [length_newEntries]
      exact hlen
    have hne : newEntries (req.withEntries entries) ≠ [] := by
      intro hnil
      rw [hnil, List.length_nil] at hnew
      omega
    have haccepted : (acceptedLog (v.node n).log (req.withEntries entries)).entries =
        newEntries (req.withEntries entries) := by
      rw [acceptedLog, if_neg hne, RaftLog.truncateAndAppend_of_noSnapshot hx.whole]
      rfl
    have hrep : (x.log.compact req.lastIncludedIndex req.lastIncludedTerm req.data).Represents
        (newEntries (req.withEntries entries)) := by
      have hahead := hinstalls
      simp only [installs, Bool.and_eq_true, decide_eq_true_eq] at hahead
      have hindex := RaftLog.snapshotLastIndex_compact hahead.2 req.lastIncludedTerm req.data
      constructor
      · rw [hindex, hnew]
      · rw [RaftLog.lastIndex] at hlast
        rw [RaftLog.entries_compact hahead.2, hindex, List.drop_of_length_le (by omega),
          List.drop_of_length_le hnew.le]
      · obtain ⟨e, he, hterm⟩ := hmark.prev_term hpos
        have hget := hall.getElem?_lead (j := req.lastIncludedIndex - 1) (by omega)
        rw [hindex, RaftLog.compact, if_neg (by omega), PlainLog.termAt, if_neg (by omega), ← hget]
        dsimp only [InstallSnapshotRequest.announcement, InstallSnapshotRequest.withEntries]
          at he hterm ⊢
        rw [Nat.zero_add, he, ← hterm]
        rfl
    refine ⟨req.withEntries entries, .inr rfl, ?_, hx.handleInstallSnapshot rfl rfl rfl
      (fun _ => rfl) (fun _ hno => absurd hinstalls hno) fun _ => haccepted ▸ hrep⟩
    rw [Bool.eq_false_iff]
    intro hdrops
    simp only [dropsMatchingSuffix, Bool.and_eq_true, decide_eq_true_eq, hx.lastIndex_eq] at hdrops
    have hend := hdrops.1.2
    dsimp only [InstallSnapshotRequest.withEntries] at hend
    omega
  · refine ⟨req.announcement, .inl rfl, ?_, hx.handleInstallSnapshot rfl rfl rfl
      (fun hle => ?_) (fun _ _ => hx.log) fun hinstalls => ?_⟩
    · simp [dropsMatchingSuffix, InstallSnapshotRequest.announcement]
    · by_cases hinstalls : installs x req = true
      · have hheld := not_not.mp fun hno => hmatch ⟨hinstalls, hno⟩
        simp only [installs, Bool.and_eq_true, decide_eq_true_eq] at hinstalls
        rw [hx.prevMatches_eq hinv hmark hle, RaftNode.prevMatches,
          if_pos (show req.announcement.prevLogIndex > 0 from hpos),
          if_pos (show req.announcement.prevLogIndex > x.log.snapshotLastIndex from hinstalls.2)]
        simp only [RaftLog.hasRealEntryAt, Bool.and_eq_true, decide_eq_true_eq]
        exact ⟨⟨hinstalls.2, hheld.1⟩, hheld.2⟩
      · refine hinv.prevMatches hmark (by rwa [hx.state]) ?_
        simp only [installs, Bool.and_eq_true, decide_eq_true_eq, not_and, not_lt] at hinstalls
        have hseen := hinstalls hle
        dsimp only [InstallSnapshotRequest.announcement]
        omega
    · have hheld := not_not.mp fun hno => hmatch ⟨hinstalls, hno⟩
      simp only [installs, Bool.and_eq_true, decide_eq_true_eq] at hinstalls
      exact hx.log.compact ⟨hinstalls.2, hheld.1, hheld.2.symm⟩

end Follower

/-! ## The two clusters side by side -/

/-- A request of the term and the leader that reaches up to the index. -/
structure AppendEntriesRequest.ReachesTo (req : AppendEntriesRequest) (term : Nat) (leaderId : Int)
    (index : Nat) : Prop where
  term : req.term = term
  leaderId : req.leaderId = leaderId
  index : req.prevLogIndex + req.entries.length = index

/-- What the network of the cluster with whole logs has for a message: the message itself, for
an acknowledgement one that reaches as far, for a snapshot the two requests that it stands for,
and for the reply to a snapshot the reply to one of them. -/
def Carried (net : List Message) : Message → Prop
  | .appendEntriesReply src req resp =>
      ∃ req', .appendEntriesReply src req' resp ∈ net ∧
        req'.ReachesTo req.term req.leaderId (req.prevLogIndex + req.entries.length)
  | .installSnapshot dst req =>
      0 < req.lastIncludedIndex ∧ .appendEntries dst req.announcement ∈ net ∧
        ∃ entries, entries.length = req.lastIncludedIndex ∧
          .appendEntries dst (req.withEntries entries) ∈ net
  | .installSnapshotReply src req resp =>
      ∃ req' resp', .appendEntriesReply src req' resp' ∈ net ∧
        req'.ReachesTo req.term req.leaderId req.lastIncludedIndex ∧ resp'.term = resp.term ∧
        (resp'.success = true ∨ req.term < resp.term)
  | m => m ∈ net

theorem Carried.mono {net net' : List Message} (hsub : net ⊆ net') {m : Message}
    (h : Carried net m) : Carried net' m := by
  cases m with
  | appendEntriesReply src req resp =>
      obtain ⟨req', hmem, hreach⟩ := h
      exact ⟨req', hsub hmem, hreach⟩
  | installSnapshot dst req =>
      obtain ⟨hpos, hmark, entries, hlen, hall⟩ := h
      exact ⟨hpos, hsub hmark, entries, hlen, hsub hall⟩
  | installSnapshotReply src req resp =>
      obtain ⟨req', resp', hmem, hrest⟩ := h
      exact ⟨req', resp', hsub hmem, hrest⟩
  | requestVote dst req => exact hsub h
  | requestVoteReply src req resp => exact hsub h
  | appendEntries dst req => exact hsub h

/-- The cluster {lit}`v` is {lit}`s` with whole logs. -/
structure Mirrors (s v : ClusterState) : Prop where
  node : ∀ n, Shadows (s.node n) (v.node n)
  election : v.election = s.election
  tasks : v.tasks = s.tasks
  checked : v.checked = s.checked
  net : ∀ m ∈ s.net, Carried v.net m

namespace Mirrors

variable {s v : ClusterState}

theorem init (c : Membership) : Mirrors (ClusterState.init c) (ClusterState.init c) where
  node n := .init n c.peers
  election := rfl
  tasks := rfl
  checked := rfl
  net _ hm := absurd hm List.not_mem_nil

/-- One node changes and sends messages. -/
theorem update (hm : Mirrors s v) {n : Int} {x y : RaftNode} {msgs msgs' : List Message}
    (hnode : Shadows x y) (hmsgs : ∀ m ∈ msgs, Carried (msgs' ++ v.net) m) :
    Mirrors (s.update n x msgs) (v.update n y msgs') where
  node m := by
    by_cases hn : m = n
    · subst hn
      simpa using hnode
    · simpa [hn] using hm.node m
  election := hm.election
  tasks := hm.tasks
  checked := hm.checked
  net m hmem := by
    rcases List.mem_append.mp hmem with hnew | hold
    · exact hmsgs m hnew
    · exact (hm.net m hold).mono (List.subset_append_right _ _)

/-- One node changes and sends nothing. -/
theorem update_silent (hm : Mirrors s v) {n : Int} {x y : RaftNode} (hnode : Shadows x y) :
    Mirrors (s.update n x) (v.update n y) :=
  hm.update hnode fun _ hmem => absurd hmem List.not_mem_nil

/-- One node changes and its shadow does not. -/
theorem update_left (hm : Mirrors s v) {n : Int} {x : RaftNode} (hnode : Shadows x (v.node n)) :
    Mirrors (s.update n x) v := by
  have hsame : v.update n (v.node n) = v := by
    rw [ClusterState.update, Function.update_eq_self]
    rfl
  rw [← hsame]
  exact hm.update_silent hnode

theorem setElection (hm : Mirrors s v) (n : Int) (e : Option RequestVoteRequest) :
    Mirrors (s.setElection n e) (v.setElection n e) where
  node := hm.node
  election := by
    rw [ClusterState.setElection_election, ClusterState.setElection_election, hm.election]
  tasks := hm.tasks
  checked := hm.checked
  net := hm.net

/-- More messages are sent in the cluster with whole logs. -/
theorem grow (hm : Mirrors s v) {net : List Message} (hsub : v.net ⊆ net) :
    Mirrors s { v with net := net } :=
  { hm with net := fun m hmem => (hm.net m hmem).mono hsub }

/-- A message that the other network carries is sent. -/
theorem send (hm : Mirrors s v) {m : Message} (hnew : Carried v.net m) :
    Mirrors { s with net := m :: s.net } v where
  node := hm.node
  election := hm.election
  tasks := hm.tasks
  checked := hm.checked
  net m' hmem := by
    rcases List.mem_cons.mp hmem with rfl | hold
    · exact hnew
    · exact hm.net m' hold

/-- The node that a message asks to step down is asked to in both. -/
theorem request (hm : Mirrors s v) {m : Message} (hmem : m ∈ s.net) {p : Int × Nat}
    (hreq : m.request? = some p) : ∃ m' ∈ v.net, m'.request? = some p := by
  have hcarried := hm.net m hmem
  cases m with
  | requestVote dst req => exact ⟨_, hcarried, hreq⟩
  | appendEntries dst req => exact ⟨_, hcarried, hreq⟩
  | installSnapshot dst req => exact ⟨_, hcarried.2.1, hreq⟩
  | requestVoteReply src req resp => contradiction
  | appendEntriesReply src req resp => contradiction
  | installSnapshotReply src req resp => contradiction

/-- A counted vote counts in both. -/
theorem voteCounted (hm : Mirrors s v) {p : Int} {req : RequestVoteRequest}
    (h : voteCounted s.net p req = true) : voteCounted v.net p req = true := by
  unfold Raft.voteCounted at h ⊢
  rw [List.any_eq_true] at h ⊢
  obtain ⟨m, hmem, hok⟩ := h
  have hcarried := hm.net m hmem
  cases m with
  | requestVoteReply src r resp => exact ⟨_, hcarried, hok⟩
  | _ => contradiction

end Mirrors

/-- Steps of the cluster with whole logs lead to a state that the given one mirrors. -/
def Matched (c : Membership) (s : ClusterState) (p : ClusterState × History) : Prop :=
  ∃ p', Relation.ReflTransGen (WholeStep c) p p' ∧ Mirrors s p'.1

namespace Matched

variable {c : Membership} {s : ClusterState} {p p' : ClusterState × History}

theorem here (hm : Mirrors s p.1) : Matched c s p :=
  ⟨p, .refl, hm⟩

theorem cons (hstep : WholeStep c p p') (h : Matched c s p') : Matched c s p := by
  obtain ⟨q, hsteps, hm⟩ := h
  exact ⟨q, .head hstep hsteps, hm⟩

/-- An action is matched by the same or another one. -/
theorem act {v v' : ClusterState} {h : History} {a : Action} (hok : KeepsSuffixes v a)
    (hstep : step c v a = some v') (hm : Mirrors s v') : Matched c s (v, h) :=
  cons (.act hok hstep) (here hm)

/-- A request in the network is handled. -/
theorem handleAppendEntries {v : ClusterState} {h : History} {n : Int}
    {req : AppendEntriesRequest} (hmem : .appendEntries n req ∈ v.net)
    (hkeep : dropsMatchingSuffix (v.node n) req = false)
    (hm : Mirrors s (v.update n ((v.node n).handleAppendEntries req).1
      [.appendEntriesReply n req ((v.node n).handleAppendEntries req).2])) : Matched c s (v, h) :=
  act (a := .handleAppendEntries n req) hkeep (if_pos hmem) hm

end Matched


/-! ## Steps are matched -/

namespace Mirrors

variable {c : Membership} {s s' v : ClusterState} {h : History} {n : Int}

theorem handleAppendEntries (hm : Mirrors s v) (hinv : SafetyInv c v h)
    {req : AppendEntriesRequest} (hmem : .appendEntries n req ∈ s.net)
    (hcareful : dropsStoredSuffix (s.node n) req = false) :
    Matched c (s.update n ((s.node n).handleAppendEntries req).1
      [.appendEntriesReply n req ((s.node n).handleAppendEntries req).2]) (v, h) := by
  have hsent : .appendEntries n req ∈ v.net := hm.net _ hmem
  have hreq := (hinv.logs.append n req hsent).2
  have hx := hm.node n
  rcases Nat.lt_or_ge (req.prevLogIndex + req.entries.length) (s.node n).log.snapshotLastIndex with
    hinside | hreach
  · -- a request with the same reach and no entries is sent and handled instead
    obtain ⟨hcommit, hend⟩ := hinv.commits.append n req hsent
    have hwarranted : Warranted c h req := ⟨hreq, hcommit, hend⟩
    obtain ⟨hnode, hresp⟩ := hx.appendEntries_inside hinv hwarranted hcareful hinside
    have hsend : WholeStep c (v, h) ({ v with
        net := .appendEntries n (req.announcement (h.lead req.term)) :: v.net }, h) :=
      .send (hinv.logs.append n req hsent).1 hwarranted.announcement
    refine .cons hsend (.handleAppendEntries List.mem_cons_self ?_
      ((hm.grow (List.subset_cons_self _ _)).update hnode fun m hnew => ?_))
    · simp [dropsMatchingSuffix, AppendEntriesRequest.announcement]
    · rw [List.mem_singleton] at hnew
      subst hnew
      rw [← hresp]
      exact ⟨_, List.mem_cons_self, rfl, rfl, rfl⟩
  · obtain ⟨hnode, hresp⟩ := hx.appendEntries hinv hreq hcareful hreach
    refine .handleAppendEntries hsent (hx.dropsMatchingSuffix_eq_false hinv hreq hcareful hreach)
      (hm.update hnode fun m hnew => ?_)
    rw [List.mem_singleton] at hnew
    subst hnew
    rw [← hresp]
    exact ⟨req, List.mem_cons_self, rfl, rfl, rfl⟩

theorem handleInstallSnapshot (hm : Mirrors s v) (hinv : SafetyInv c v h)
    {req : InstallSnapshotRequest} (hmem : .installSnapshot n req ∈ s.net)
    (hcareful : keepsStaleTail (s.node n) req = false) :
    Matched c (s.update n ((s.node n).handleInstallSnapshot req).1
      [.installSnapshotReply n req ((s.node n).handleInstallSnapshot req).2]) (v, h) := by
  obtain ⟨hpos, hmark, entries, hlen, hall⟩ := hm.net _ hmem
  obtain ⟨req', hreq', hkeep, hnode, hterm, hsucc⟩ := (hm.node n).installSnapshot hinv hpos
    (hinv.logs.append n _ hmark).2 (hinv.logs.append n _ hall).2 hlen hcareful
  have hsent : .appendEntries n req' ∈ v.net ∧
      req'.ReachesTo req.term req.leaderId req.lastIncludedIndex := by
    rcases hreq' with rfl | rfl
    · exact ⟨hmark, rfl, rfl, rfl⟩
    · exact ⟨hall, rfl, rfl, by rw [← hlen]; exact Nat.zero_add _⟩
  refine .handleAppendEntries hsent.1 hkeep (hm.update hnode fun m hnew => ?_)
  rw [List.mem_singleton] at hnew
  subst hnew
  exact ⟨req', _, List.mem_cons_self, hsent.2, hterm, hsucc⟩

theorem handleAppendEntriesReply (hm : Mirrors s v) {src : Int} {req : AppendEntriesRequest}
    {resp : AppendEntriesResponse} (hmem : .appendEntriesReply src req resp ∈ s.net) :
    Matched c (s.update req.leaderId
      ((s.node req.leaderId).handleAppendEntriesReply src req resp)) (v, h) := by
  obtain ⟨req', hmem', hterm, hleader, hindex⟩ := hm.net _ hmem
  refine .act (a := .handleAppendEntriesReply src req' resp) trivial (if_pos hmem') ?_
  rw [hleader]
  exact hm.update_silent ((hm.node _).handleAppendEntriesReply src hterm hindex resp)

theorem handleInstallSnapshotReply (hm : Mirrors s v) {src : Int} {req : InstallSnapshotRequest}
    {resp : InstallSnapshotResponse} (hmem : .installSnapshotReply src req resp ∈ s.net) :
    Matched c (s.update req.leaderId
      ((s.node req.leaderId).handleInstallSnapshotReply src req resp)) (v, h) := by
  obtain ⟨req', resp', hmem', ⟨hterm, hleader, hindex⟩, hresp, hsucc⟩ := hm.net _ hmem
  have hx := hm.node req.leaderId
  unfold RaftNode.handleInstallSnapshotReply
  split_ifs with hnewer hstale hahead
  · -- the reply of a node with a newer term
    refine .act (a := .handleAppendEntriesReply src req' resp') trivial (if_pos hmem') ?_
    rw [hleader]
    refine hm.update_silent ?_
    rw [RaftNode.handleAppendEntriesReply, if_pos (by rw [hx.state, hresp]; exact hnewer), hresp]
    exact hx.becomeFollower resp.term
  · exact .here (hm.update_left hx)
  · -- the leader takes note of an acknowledgement
    rw [not_or, not_not, not_not] at hstale
    refine .cons (.note hmem' (hsucc.resolve_right (by omega)) ?_ ?_) (.here ?_)
    · rw [hleader, hx.role, hstale.1]
    · rw [hleader, hx.state, hterm, hstale.2]
    · dsimp only
      rw [hleader]
      refine hm.update_silent ?_
      refine hx.of_same rfl rfl rfl rfl hx.state hx.role hx.leaderId rfl rfl ?_ ?_ rfl rfl rfl rfl
        rfl rfl
      · simp only [noteReply, hx.nextIndex, hindex]
      · simp only [noteReply, hx.matchIndex, hindex]
  · exact .here (hm.update_left hx)

/-- A snapshot that a leader sends. -/
theorem sendSnapshot (hm : Mirrors s v) (hinv : SafetyInv c v h) {task : SendTask}
    {req : InstallSnapshotRequest} (hmem : (n, task) ∈ s.tasks)
    (hsend : (s.node n).sendCheck task = .snapshot req) :
    Matched c { s with net := .installSnapshot task.peerId req :: s.net } (v, h) := by
  obtain ⟨hid, hpos, hmark, entries, hlen, hall⟩ := (hm.node n).warranted_snapshot hinv hsend
  have hdst : task.peerId ≠ req.leaderId := by
    rw [hid]
    exact (hinv.logs.tasks n task (.inl (by rwa [hm.tasks]))).1
  have hfirst : WholeStep c (v, h)
      ({ v with net := .appendEntries task.peerId req.announcement :: v.net }, h) :=
    .send hdst hmark
  refine .cons hfirst (.cons (.send hdst hall) (.here ?_))
  refine ((hm.grow (List.subset_cons_self _ _)).grow (List.subset_cons_self _ _)).send ?_
  exact ⟨hpos, List.mem_cons_of_mem _ List.mem_cons_self, entries, hlen, List.mem_cons_self⟩

/-- A restart, in which the shadow learns how far the snapshot reaches. -/
theorem restart (hm : Mirrors s v) (hinv : SafetyInv c v h) {a : Action} {state : PersistentState}
    (hok : KeepsSuffixes v a) (htrack : track v a h = h)
    (hstep : step c v a =
      some ((v.update n ((v.node n).restart state)).setElection n none))
    (hterm : (s.node n).state.currentTerm ≤ state.currentTerm) :
    Matched c ((s.update n ((s.node n).restart state)).setElection n none) (v, h) := by
  have hx := hm.node n
  have hcert : Certified c h state.currentTerm (v.node n).log.entries
      (s.node n).log.snapshotLastIndex := by
    have hall := (hinv.commits.node n).certified
    rw [hx.commitIndex] at hall
    exact (hall.anti hx.snapshot_le).mono (Ledger.Extends.refl h) (by rwa [hx.state])
      List.prefix_rfl
  have hact : WholeStep c (v, h)
      ((v.update n ((v.node n).restart state)).setElection n none, track v a h) := .act hok hstep
  rw [htrack] at hact
  refine .cons hact (.cons (@WholeStep.learn c _ _ n (s.node n).log.snapshotLastIndex ?_)
    (.here ?_))
  · simpa [RaftNode.restart, openFiles] using hcert
  · have hnode := hx.restart state
    have hboth : Mirrors ((s.update n _).setElection n none) ((v.update n _).setElection n none) :=
      (hm.update_silent hnode).setElection n none
    simpa [ClusterState.update, ClusterState.setElection] using hboth

/-- Every careful step is matched. -/
theorem step (hm : Mirrors s v) (hinv : SafetyInv c v h) {a : Action} (hok : Careful s a)
    (hstep : step c s a = some s') : Matched c s' (v, h) := by
  cases step_cases hstep with
  | @startElection n hn hrole hidle =>
      obtain ⟨hnode, hreq⟩ := (hm.node n).startElection
      have hact : Raft.step c v (.startElection n) =
          some ((v.update n (v.node n).startElection.1
            ((v.node n).startElection.1.stubs.map fun p =>
              .requestVote p (v.node n).startElection.2)).setElection n
                (some (v.node n).startElection.2)) :=
        if_pos ⟨hn, by rwa [(hm.node n).role], by rwa [hm.election]⟩
      refine .act (a := .startElection n) trivial hact ?_
      rw [hreq]
      refine (hm.update hnode fun m hmem => ?_).setElection n _
      rw [hnode.stubs_eq]
      obtain ⟨p, hp, rfl⟩ := List.mem_map.mp hmem
      exact List.mem_append_left _ hmem
  | @handleRequestVote n req hmem =>
      obtain ⟨hnode, hresp⟩ := (hm.node n).handleRequestVote req
      have hact : Raft.step c v (.handleRequestVote n req) =
          some (v.update n ((v.node n).handleRequestVote req).1
            [.requestVoteReply n req ((v.node n).handleRequestVote req).2]) :=
        if_pos (hm.net _ hmem)
      refine .act (a := .handleRequestVote n req) trivial hact ?_
      rw [hresp]
      refine hm.update hnode fun m hnew => ?_
      rw [List.mem_singleton] at hnew
      subst hnew
      exact List.mem_cons_self
  | @handleRequestVoteReply src req resp hmem hel =>
      exact .act (a := .handleRequestVoteReply src req resp) trivial
        (if_pos ⟨hm.net _ hmem, by rwa [hm.election]⟩)
        (hm.update_silent ((hm.node _).handleRequestVoteReply _ _))
  | @finishElection n granted req hel hnodup hcount =>
      refine .act (a := .finishElection n granted) trivial ?_
        ((hm.update_silent ((hm.node n).finishElection _ _)).setElection n none)
      rw [Raft.step, hm.election, hel]
      refine if_pos ⟨hnodup, fun p hp => ?_⟩
      rw [(hm.node n).stubs_eq]
      exact ⟨(hcount p hp).1, hm.voteCounted (hcount p hp).2⟩
  | proposeRefused hrole => exact .here hm
  | @propose n command node call hn hcall =>
      obtain ⟨hrole, rfl, -⟩ := propose_eq_some hcall
      have hleads : (v.node n).role = .leader := by rwa [(hm.node n).role]
      have hact : Raft.step c v (.propose n command) =
          some { v.update n (advanceCommitIndex
              { v.node n with
                log := (v.node n).log.append (v.node n).state.currentTerm command }) with
            proposals := ⟨(v.node n).nodeId, (v.node n).state.currentTerm,
              ((v.node n).log.append (v.node n).state.currentTerm command).lastIndex, command⟩ ::
                v.proposals } := by
        rw [Raft.step, if_pos hn, RaftNode.propose, if_neg (not_not.mpr hleads)]
      have hboth : Mirrors (s.update n _) (v.update n _) :=
        hm.update_silent ((hm.node n).propose command)
      exact .act (a := .propose n command) trivial hact { hboth with }
  | @replicate n hn =>
      refine .act (a := .replicate n) trivial (if_pos hn) { hm with tasks := ?_ }
      dsimp only
      rw [(hm.node n).replicateToFollowers, hm.tasks]
  | sendStop => exact .here hm
  | sendSnapshot hmem hreq => exact hm.sendSnapshot hinv hmem hreq
  | @sendChecked n task hmem hgo =>
      have hact : Raft.step c v (.sendCheck n task) =
          some { v with checked := (n, task) :: v.checked } := by
        rw [Raft.step, if_pos (by rwa [hm.tasks]), (hm.node n).sendCheck_append hgo]
      refine .act (a := .sendCheck n task) trivial hact { hm with checked := ?_ }
      rw [hm.checked]
  | sendRefused => exact .here hm
  | @sendAppendEntries n task req hmem hreq =>
      have hbehind : (s.node n).log.snapshotLastIndex < task.nextIdx := by
        refine hok.resolve_left fun hnone => ?_
        rw [hreq] at hnone
        contradiction
      have hact : Raft.step c v (.sendAppendEntries n task) =
          some { v with net := .appendEntries task.peerId req :: v.net } := by
        rw [Raft.step, if_pos (by rwa [hm.checked]), (hm.node n).buildAppendEntries hbehind, hreq]
      exact .act (a := .sendAppendEntries n task) trivial hact 
        ((hm.grow (List.subset_cons_self _ _)).send List.mem_cons_self)
  | handleAppendEntries hmem => exact hm.handleAppendEntries hinv hmem hok
  | handleAppendEntriesReply hmem => exact hm.handleAppendEntriesReply hmem
  | handleInstallSnapshot hmem => exact hm.handleInstallSnapshot hinv hmem hok
  | handleInstallSnapshotReply hmem => exact hm.handleInstallSnapshotReply hmem
  | @compact n upToIndex snapshotData =>
      refine .here (hm.update_left ((hm.node n).compact upToIndex snapshotData ?_))
      rw [← (hm.node n).lastIndex_eq, RaftLog.lastIndex_of_noSnapshot (hm.node n).whole,
        ← (hm.node n).commitIndex]
      exact hinv.commitIndex_le n
  | @restart n =>
      simp only [Raft.step, Option.ite_none_right_eq_some] at hstep
      have hact : Raft.step c v (.restart n) =
          some ((v.update n ((v.node n).restart (v.node n).state)).setElection n none) :=
        if_pos hstep.1
      rw [(hm.node n).state] at hact
      exact hm.restart hinv (a := .restart n) trivial rfl hact le_rfl
  | @crashAfterStepDown n m term hmem hnew =>
      rw [Raft.step] at hstep
      cases hreq : m.request? with
      | none =>
          rw [hreq] at hstep
          contradiction
      | some dst =>
          rw [hreq] at hstep
          dsimp only at hstep
          split_ifs at hstep with hguard
          obtain ⟨m', hmem', hreq'⟩ := hm.request hmem hreq
          have hact : Raft.step c v (.crashAfterStepDown n m') =
              some ((v.update n ((v.node n).restart ⟨dst.2, -1⟩)).setElection n none) := by
            rw [Raft.step, hreq']
            exact if_pos ⟨hmem', hguard.2.1, by rw [(hm.node n).state]; exact hguard.2.2⟩
          rw [← Option.some.inj hstep]
          exact hm.restart hinv (a := .crashAfterStepDown n m') trivial rfl hact hguard.2.2.le

end Mirrors

/-! ## Whole runs -/

/-- The given cluster is mirrored by one with whole logs in which commitment is safe. -/
def Refines (c : Membership) (s : ClusterState) (p : ClusterState × History) : Prop :=
  SafetyInv c p.1 p.2 ∧ Mirrors s p.1

/-- **Step lemma.**  Careful steps are simulated. -/
theorem careful_simulates (c : Membership) :
    Simulates (step c) Careful (WholeStep c) (Refines c) := by
  rintro s a s' ⟨v, h⟩ ⟨hinv, hm⟩ hok hstep
  obtain ⟨p', hsteps, hm'⟩ := hm.step hinv hok hstep
  exact ⟨p', hsteps, (whole_steps_safety hsteps hinv).1, hm'⟩

theorem Refines.init (c : Membership) : Refines c (ClusterState.init c) (ClusterState.init c, {}) :=
  ⟨SafetyInv.init c, Mirrors.init c⟩

/-- **A cluster that compacts refines one that does not.**  Every careful run is matched by
steps of the cluster with whole logs, which end in a cluster that the given one mirrors. -/
theorem compacting_cluster_refines (c : Membership) {as : List Action} {s : ClusterState}
    (hrun : Runs c Careful (ClusterState.init c) as s) :
    ∃ v h, Relation.ReflTransGen (WholeStep c) (ClusterState.init c, {}) (v, h) ∧
      Mirrors s v := by
  obtain ⟨⟨v, h⟩, hsteps, hrefines⟩ := (careful_simulates c).run hrun (Refines.init c)
  exact ⟨v, h, hsteps, hrefines.2⟩

/-- Node 0 commits two entries with node 1, compacts the first and sends node 2 its snapshot
and then the second entry. -/
def compactThenInstall : List Action :=
  [.startElection 0, .handleRequestVote 1 ⟨1, 0, 0, 0⟩, .finishElection 0 [1],
    .propose 0 [97], .propose 0 [98], .replicate 0, .sendCheck 0 ⟨1, 1, 1⟩,
    .sendAppendEntries 0 ⟨1, 1, 1⟩,
    .handleAppendEntries 1 ⟨1, 0, 0, 0, [⟨1, 1, [97]⟩, ⟨1, 2, [98]⟩], 0⟩,
    .handleAppendEntriesReply 1 ⟨1, 0, 0, 0, [⟨1, 1, [97]⟩, ⟨1, 2, [98]⟩], 0⟩ ⟨1, true⟩,
    .compact 0 1 [115], .sendCheck 0 ⟨1, 2, 1⟩, .handleInstallSnapshot 2 ⟨1, 0, 1, 1, [115]⟩,
    .handleInstallSnapshotReply 2 ⟨1, 0, 1, 1, [115]⟩ ⟨1⟩, .replicate 0, .sendCheck 0 ⟨1, 2, 2⟩,
    .sendAppendEntries 0 ⟨1, 2, 2⟩, .handleAppendEntries 2 ⟨1, 0, 1, 1, [⟨1, 2, [98]⟩], 2⟩]

theorem compacting_cluster_refines_install :
    ∃ s, Runs threeNodes Careful (ClusterState.init threeNodes) compactThenInstall s ∧
      (s.node 2).log = ⟨[⟨1, [98]⟩], 1, 1, [115]⟩ ∧
      ∃ v h, Relation.ReflTransGen (WholeStep threeNodes) (ClusterState.init threeNodes, {})
        (v, h) ∧ (v.node 2).log.entries.length = 2 := by
  have hrun := Exec.of_guardedRun (step threeNodes) Careful (ClusterState.init threeNodes)
    compactThenInstall (by decide +kernel)
  obtain ⟨v, h, hsteps, hm⟩ := compacting_cluster_refines threeNodes hrun
  refine ⟨_, hrun, by decide +kernel, v, h, hsteps, ?_⟩
  rw [← RaftLog.lastIndex_of_noSnapshot (hm.node 2).whole, (hm.node 2).lastIndex_eq]
  decide +kernel

/-! ## Committed entries -/

/-- Two logs agree up to an index wherever neither has covered it by a snapshot; they have the
same term also where a snapshot ends. -/
def AgreeUpTo (log log' : RaftLog) (index : Nat) : Prop :=
  ∀ i ≤ index, log.snapshotLastIndex ≤ i → log'.snapshotLastIndex ≤ i →
    log.termAt i = log'.termAt i ∧
      (log.snapshotLastIndex < i → log'.snapshotLastIndex < i →
        log.commandAt i = log'.commandAt i)

theorem RaftLog.Represents.agreeUpTo {log log' : RaftLog} {l l' : List PersistedEntry} {index : Nat}
    (h : log.Represents l) (h' : log'.Represents l') (htake : l.take index = l'.take index) :
    AgreeUpTo log log' index := by
  intro i hi hsnap hsnap'
  have hget : 0 < i → l[i - 1]? = l'[i - 1]? := by
    intro hpos
    rw [← List.getElem?_take_of_lt (show i - 1 < index by omega), htake,
      List.getElem?_take_of_lt (by omega)]
  refine ⟨?_, fun hlt hlt' => ?_⟩
  · rw [h.termAt_eq hsnap, h'.termAt_eq hsnap']
    exact PlainLog.termAt_congr hget
  · have hzero : i ≠ 0 := by omega
    rw [h.agrees.commandAt i hlt, h'.agrees.commandAt i hlt', PlainLog.commandAt,
      PlainLog.commandAt, if_neg hzero, if_neg hzero, hget (by omega)]

/-- Two certified prefixes of one length are equal. -/
theorem Certified.take_eq {c : Membership} {v : ClusterState} {h : History}
    (hinv : SafetyInv c v h) {t t' i : Nat} {l l' : List PersistedEntry}
    (hcert : Certified c h t l i) (hcert' : Certified c h t' l' i) : l.take i = l'.take i := by
  -- the later of the two leaders has the prefix of the earlier one
  have hordered : ∀ {T k T' k'}, T ≤ T' →
      Ledger.Committed PersistedEntry.term c.members h T k →
      Ledger.Committed PersistedEntry.term c.members h T' k' → i ≤ k →
      (h.lead T).take i <+: h.lead T' := by
    intro T k T' k' hle hcom hcom' hik
    rcases hle.lt_or_eq with hlt | rfl
    · obtain ⟨e, -, hget, -⟩ := hcom'.1
      obtain ⟨n, hn⟩ : ∃ n, h.leader T' = some n := by
        cases hn : h.leader T' with
        | none => simp [hinv.logs.coherent.lead_nil T' hn] at hget
        | some n => exact ⟨n, rfl⟩
      exact (List.take_prefix_take_left hik).trans
        ((hinv.ballots.complete hinv.votes hinv.logs hcom hlt hn).trans
          (hinv.logs.coherent.start_isPrefix T' n hn))
    · exact List.take_prefix _ _
  have htake : ∀ {T k} {l : List PersistedEntry},
      Ledger.Committed PersistedEntry.term c.members h T k → i ≤ k →
      (h.lead T).take i <+: l → l.take i = (h.lead T).take i := by
    intro T k l hcom hik hp
    have heq := List.prefix_iff_eq_take.mp hp
    rwa [List.length_take, min_eq_left (hik.trans hcom.length_le), eq_comm] at heq
  rcases hcert with rfl | ⟨T, k, -, hcom, hik, hp⟩
  · rw [List.take_zero, List.take_zero]
  · rcases hcert' with rfl | ⟨T', k', -, hcom', hik', hp'⟩
    · rw [List.take_zero, List.take_zero]
    · rw [htake hcom hik hp, htake hcom' hik' hp']
      rcases Nat.le_total T T' with hle | hle
      · exact (htake hcom hik (hordered hle hcom hcom' hik)).symm
      · exact htake hcom' hik' (hordered hle hcom' hcom hik')

/-- What the nodes of {lit}`s` have committed is safe in a later state {lit}`s'`. -/
structure CommittedSafely (s s' : ClusterState) : Prop where
  committed : ∀ n m, AgreeUpTo (s.node n).log (s'.node m).log
    (min (s.node n).commitIndex (s'.node m).commitIndex)
  leader : ∀ n m, (s'.node m).role = .leader →
    (s.node n).state.currentTerm ≤ (s'.node m).state.currentTerm →
    (s.node n).commitIndex ≤ (s'.node m).log.lastIndex ∧
      AgreeUpTo (s.node n).log (s'.node m).log (s.node n).commitIndex
  applied : ∀ n m i cmd cmd', (i, cmd) ∈ (s.node n).applyTrace →
    (i, cmd') ∈ (s'.node m).applyTrace → cmd = cmd'

/-- Clusters with whole logs, of which one is reached from the other, pass their safety on to
the clusters that mirror them. -/
theorem Refines.committedSafely {c : Membership} {s s' : ClusterState}
    {p p' : ClusterState × History} (href : Refines c s p) (href' : Refines c s' p')
    (hext : p.2.Extends p'.2) : CommittedSafely s s' := by
  obtain ⟨hinv, hm⟩ := href
  obtain ⟨hinv', hm'⟩ := href'
  have hcert : ∀ n, Certified c p'.2 (s.node n).state.currentTerm (p.1.node n).log.entries
      (s.node n).commitIndex := by
    intro n
    rw [← (hm.node n).state, ← (hm.node n).commitIndex]
    exact (hinv.commits.node n).certified.mono hext le_rfl List.prefix_rfl
  constructor
  case committed =>
    intro n m
    have hcert' := (hinv'.commits.node m).certified
    rw [(hm'.node m).commitIndex] at hcert'
    exact (hm.node n).log.agreeUpTo (hm'.node m).log (((hcert n).anti (min_le_left _ _)).take_eq
      hinv' (hcert'.anti (min_le_right _ _)))
  case leader =>
    intro n m hrole hle
    have hleads := hinv'.votes.leads m (by rw [(hm'.node m).role, hrole])
    have hentries := hinv'.logs.leading m hleads
    rw [(hm'.node m).state] at hleads hentries
    obtain ⟨hpre, hlead⟩ := (hcert n).lead hinv'.votes hinv'.logs hinv'.ballots hle hleads
    rw [← hentries] at hpre hlead
    refine ⟨?_, (hm.node n).log.agreeUpTo (hm'.node m).log ((hcert n).take_eq hinv' hlead)⟩
    rw [← (hm'.node m).lastIndex_eq, RaftLog.lastIndex_of_noSnapshot (hm'.node m).whole]
    exact hlead.length_le
  case applied =>
    intro n m i cmd cmd' hmem hmem'
    have hchosen := ((hinv.commits.node n).applied i cmd ((hm.node n).trace hmem)).mono hext
    exact hchosen.unique hinv'.votes hinv'.logs hinv'.ballots
      ((hinv'.commits.node m).applied i cmd' ((hm'.node m).trace hmem'))

/-- **Commitment survives compaction, snapshots and restarts.**  Between any two states of a
careful run: no two nodes disagree about an index that both have committed, every leader of a
term that a node had reached has what the node had committed, and no two nodes apply different
commands at one index. -/
theorem compacting_cluster_safe (c : Membership) {as as' : List Action} {s s' : ClusterState}
    (hrun : Runs c Careful (ClusterState.init c) as s) (hrun' : Runs c Careful s as' s') :
    CommittedSafely s s' := by
  obtain ⟨p, -, href⟩ := (careful_simulates c).run hrun (Refines.init c)
  obtain ⟨p', hsteps, href'⟩ := (careful_simulates c).run hrun' href
  exact href.committedSafely href' (whole_steps_safety hsteps href.1).2

/-- Node 2 restarts on its snapshot and is elected in term 2 with the vote of node 1. -/
def electionOnSnapshot : List Action :=
  [.restart 2, .startElection 2, .handleRequestVote 1 ⟨2, 2, 2, 1⟩, .finishElection 2 [1]]

theorem compacting_cluster_safe_election :
    ∃ s s', Runs threeNodes Careful (ClusterState.init threeNodes) compactThenInstall s ∧
      Runs threeNodes Careful s electionOnSnapshot s' ∧ (s.node 0).commitIndex = 2 ∧
      (s'.node 2).role = .leader ∧ (s'.node 2).commitIndex = 1 ∧
      (s.node 0).log.commandAt 2 = (s'.node 2).log.commandAt 2 := by
  have hrun := Exec.of_guardedRun (step threeNodes) Careful (ClusterState.init threeNodes)
    compactThenInstall (by decide +kernel)
  have hrun' := Exec.of_guardedRun (step threeNodes) Careful ((guardedRun (step threeNodes)
    Careful (ClusterState.init threeNodes) compactThenInstall).get (by decide +kernel))
    electionOnSnapshot (by decide +kernel)
  have hsafe := compacting_cluster_safe threeNodes hrun hrun'
  refine ⟨_, _, hrun, hrun', by decide +kernel, by decide +kernel, by decide +kernel, ?_⟩
  exact ((hsafe.leader 0 2 (by decide +kernel) (by decide +kernel)).2 2 (by decide +kernel)
    (by decide +kernel) (by decide +kernel)).2 (by decide +kernel) (by decide +kernel)

end NanoDB.Raft
