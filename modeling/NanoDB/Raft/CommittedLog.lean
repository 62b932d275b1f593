import NanoDB.Raft.Applied
import NanoDB.Raft.Compaction
import NanoDB.Raft.Proposals

/-!
# The committed log

Beside a run of the cluster goes one list of commands: whenever the commit index of a member
passes the end of the list, the commands that its log holds there are appended.  In careful
runs that propose no empty command this list is the log of everybody: the applied commands of
a member, to which {lit}`applied_commands_` gives indices by their position only, are the part
of the list between the member's snapshot and its last applied index.

Main results:

- Theorem {lit}`CommittedInv.step`: every step keeps the list and the members in agreement.
- Theorem {lit}`one_committed_log`: at every moment of a run all members have applied a part of
  one list, which only grows.
-/

namespace NanoDB.Raft

open Lib RaftNode

/-! ## The record of what was committed -/

/-- The list after a member showed its commit index. -/
def extendCommitted (committed : List Bytes) (node : RaftNode) : List Bytes :=
  committed ++ (List.range' (committed.length + 1) (node.commitIndex - committed.length)).map
    node.log.commandAt

/-- The list after an action: all members show their commit indices. -/
def recordCommitted (c : Membership) (s : ClusterState) (a : Action) (committed : List Bytes) :
    List Bytes :=
  match step c s a with
  | some s' => (c.peers.map s'.node).foldl extendCommitted committed
  | none => committed

theorem length_extendCommitted (committed : List Bytes) (node : RaftNode) :
    (extendCommitted committed node).length = max committed.length node.commitIndex := by
  rw [extendCommitted, List.length_append, List.length_map, List.length_range']
  omega

theorem prefix_extendCommitted (committed : List Bytes) (node : RaftNode) :
    committed <+: extendCommitted committed node :=
  List.prefix_append _ _

theorem prefix_foldl_extendCommitted (nodes : List RaftNode) (committed : List Bytes) :
    committed <+: nodes.foldl extendCommitted committed := by
  induction nodes generalizing committed with
  | nil => exact List.prefix_rfl
  | cons node nodes ih => exact (prefix_extendCommitted committed node).trans (ih _)

/-- All commit indices that were shown are inside the list. -/
theorem commitIndex_le_foldl {nodes : List RaftNode} {node : RaftNode} (hmem : node ∈ nodes)
    (committed : List Bytes) :
    node.commitIndex ≤ (nodes.foldl extendCommitted committed).length := by
  induction nodes generalizing committed with
  | nil => cases hmem
  | cons first nodes ih =>
      rcases List.mem_cons.mp hmem with rfl | hmem
      · refine le_trans ?_ (prefix_foldl_extendCommitted nodes _).length_le
        rw [length_extendCommitted]
        exact le_max_right _ _
      · exact ih hmem _

/-! ## The list is certified -/

/-- The list is the commands of a certified prefix. -/
def IsCommitted (c : Membership) (h : History) (committed : List Bytes) : Prop :=
  ∃ t l, Certified c h t l committed.length ∧ (l.take committed.length).map (·.command) = committed

namespace IsCommitted

variable {c : Membership} {v : ClusterState} {h h' : History} {committed : List Bytes}

theorem mono (hrec : IsCommitted c h committed) (hext : h.Extends h') :
    IsCommitted c h' committed := by
  obtain ⟨t, l, hcert, hmap⟩ := hrec
  exact ⟨t, l, hcert.mono hext le_rfl List.prefix_rfl, hmap⟩

/-- Whatever is certified agrees with the list. -/
theorem getElem?_eq (hrec : IsCommitted c h committed) (hinv : SafetyInv c v h) {t i j : Nat}
    {l : List PersistedEntry} (hcert : Certified c h t l i) (hpos : 0 < j) (hi : j ≤ i)
    (hj : j ≤ committed.length) : committed[j - 1]? = (l[j - 1]?).map (·.command) := by
  obtain ⟨t', l', hcert', hmap⟩ := hrec
  have htake := (hcert.anti hi).take_eq hinv (hcert'.anti hj)
  calc committed[j - 1]?
      = ((l'.take committed.length).map (·.command))[j - 1]? := by rw [hmap]
    _ = (l'[j - 1]?).map (·.command) := by
        rw [List.getElem?_map, List.getElem?_take_of_lt (by omega)]
    _ = ((l'.take j)[j - 1]?).map (·.command) := by
        rw [List.getElem?_take_of_lt (by omega)]
    _ = (l[j - 1]?).map (·.command) := by
        rw [← htake, List.getElem?_take_of_lt (by omega)]

/-- The list agrees with the log of a node as far as the node has committed. -/
theorem commandAt_eq (hrec : IsCommitted c h committed) (hinv : SafetyInv c v h) {x : RaftNode}
    {n : Int} (hx : Shadows x (v.node n)) {i : Nat} (hsnap : x.log.snapshotLastIndex < i)
    (hcommit : i ≤ x.commitIndex) (hi : i ≤ committed.length) :
    committed[i - 1]? = some (x.log.commandAt i) := by
  have hcert := (hinv.commits.node n).certified
  rw [hx.commitIndex] at hcert
  have hlt : i - 1 < (v.node n).log.entries.length := by
    have := hcert.length_le
    omega
  rw [hrec.getElem?_eq hinv hcert (by omega) hcommit hi, hx.log.agrees.commandAt i hsnap,
    PlainLog.commandAt, if_neg (by omega), List.getElem?_eq_getElem hlt]
  rfl

/-- A node whose snapshot is inside the list extends it to a certified one. -/
theorem extend (hrec : IsCommitted c h committed) (hinv : SafetyInv c v h) {x : RaftNode} {n : Int}
    (hx : Shadows x (v.node n)) (hsnap : x.log.snapshotLastIndex ≤ committed.length) :
    IsCommitted c h (extendCommitted committed x) := by
  rcases Nat.le_total x.commitIndex committed.length with hle | hle
  · have hsame : extendCommitted committed x = committed := by
      rw [extendCommitted, Nat.sub_eq_zero_of_le hle]
      exact List.append_nil _
    rwa [hsame]
  · have hcert := (hinv.commits.node n).certified
    have hlen := hinv.commitIndex_le n
    rw [hx.commitIndex] at hcert hlen
    refine ⟨(v.node n).state.currentTerm, (v.node n).log.entries, ?_, ?_⟩
    · rwa [length_extendCommitted, max_eq_right hle]
    · rw [length_extendCommitted, max_eq_right hle]
      apply List.ext_getElem?
      intro j
      by_cases hold : j < committed.length
      · have hat := hrec.getElem?_eq hinv hcert (j := j + 1) (by omega) (by omega) (by omega)
        rw [Nat.add_sub_cancel] at hat
        rw [extendCommitted, List.getElem?_append_left hold, hat, List.getElem?_map,
          List.getElem?_take_of_lt (by omega)]
      · rw [extendCommitted, List.getElem?_append_right (by omega), List.getElem?_map,
          List.getElem?_map]
        by_cases hnew : j < x.commitIndex
        · have hindex : committed.length + 1 + 1 * (j - committed.length) = j + 1 := by omega
          rw [List.getElem?_take_of_lt hnew, List.getElem?_range' (by omega), hindex,
            List.getElem?_eq_getElem (by omega), Option.map_some, Option.map_some,
            hx.log.agrees.commandAt (j + 1) (by omega), PlainLog.commandAt,
            if_neg (Nat.succ_ne_zero j), Nat.add_sub_cancel, List.getElem?_eq_getElem (by omega)]
          rfl
        · rw [List.getElem?_eq_none (by rw [List.length_take]; omega),
            List.getElem?_eq_none (by rw [List.length_range']; omega)]
          rfl

theorem foldl (hrec : IsCommitted c h committed) (hinv : SafetyInv c v h) {s : ClusterState}
    (hm : Mirrors s v) (ns : List Int)
    (hsnap : ∀ n ∈ ns, (s.node n).log.snapshotLastIndex ≤ committed.length) :
    IsCommitted c h ((ns.map s.node).foldl extendCommitted committed) := by
  induction ns generalizing committed with
  | nil => exact hrec
  | cons n ns ih =>
      refine ih (hrec.extend hinv (hm.node n) (hsnap n List.mem_cons_self)) fun m hmem => ?_
      exact (hsnap m (List.mem_cons_of_mem _ hmem)).trans
        (prefix_extendCommitted committed _).length_le

end IsCommitted

/-! ## Where snapshots come from -/

/-- The snapshot of a node after an action: the one it had, that of a compaction, or one that
a leader sent. -/
inductive SnapshotOf (s : ClusterState) (a : Action) (n : Int) (log : RaftLog) : Prop
  | same (hindex : log.snapshotLastIndex = (s.node n).log.snapshotLastIndex)
      (hdata : log.snapshotData = (s.node n).log.snapshotData)
  | compact {upToIndex : Nat} {data : Bytes} (haction : a = .compact n upToIndex data)
      (hdone : ((s.node n).compact upToIndex data).2 = true)
      (hindex : log.snapshotLastIndex = upToIndex) (hdata : log.snapshotData = data)
  | install {req : InstallSnapshotRequest} (hmem : .installSnapshot n req ∈ s.net)
      (hindex : log.snapshotLastIndex = req.lastIncludedIndex) (hdata : log.snapshotData = req.data)

namespace SnapshotOf

variable {c : Membership} {s s' : ClusterState} {a : Action}

theorem refl (s : ClusterState) (a : Action) (n : Int) : SnapshotOf s a n (s.node n).log :=
  .same rfl rfl

/-- Only the node that acts can get another snapshot. -/
theorem of_update {n : Int} {node : RaftNode} (m : Int) (h : SnapshotOf s a n node.log) :
    SnapshotOf s a m (Function.update s.node n node m).log := by
  by_cases hm : m = n
  · subst hm
    rwa [Function.update_self]
  · rw [Function.update_of_ne hm]
    exact refl s a m

theorem of_log {n : Int} {node : RaftNode} (h : node.log = (s.node n).log) :
    SnapshotOf s a n node.log :=
  .same (by rw [h]) (by rw [h])

theorem handleAppendEntries (s : ClusterState) (a : Action) (n : Int)
    (req : AppendEntriesRequest) : SnapshotOf s a n ((s.node n).handleAppendEntries req).1.log := by
  rcases handleAppendEntries_cases (s.node n) req with
    ⟨-, hlog, -⟩ | ⟨-, -, -, accepting, -, -, hlog, -, -, -, heq⟩
  · exact of_log hlog
  · rw [heq, acceptEntries_log, hlog]
    unfold acceptedLog
    split
    · exact refl s a n
    · exact .same rfl rfl

theorem handleInstallSnapshot {n : Int} {req : InstallSnapshotRequest}
    (hmem : .installSnapshot n req ∈ s.net) :
    SnapshotOf s a n ((s.node n).handleInstallSnapshot req).1.log := by
  by_cases h : installs (s.node n) req = true
  · rw [log_handleInstallSnapshot h]
    simp only [installs, Bool.and_eq_true, decide_eq_true_eq] at h
    rw [RaftLog.compact, if_neg (by omega)]
    exact .install hmem rfl rfl
  · exact of_log (log_handleInstallSnapshot_of_not h)

theorem ofCompact (s : ClusterState) (n : Int) (upToIndex : Nat) (data : Bytes) :
    SnapshotOf s (.compact n upToIndex data) n ((s.node n).compact upToIndex data).1.log := by
  cases hdone : ((s.node n).compact upToIndex data).2 with
  | true =>
      refine .compact rfl hdone ?_ ?_
      all_goals
        unfold RaftNode.compact at hdone ⊢
        dsimp only at hdone ⊢
        split_ifs at hdone ⊢ with hold
        rw [RaftLog.compact, if_neg hold]
  | false =>
      refine of_log ?_
      unfold RaftNode.compact at hdone ⊢
      dsimp only at hdone ⊢
      split_ifs at hdone ⊢
      all_goals rfl

end SnapshotOf

/-- **Step lemma.**  Every node has a snapshot that is accounted for. -/
theorem snapshotOf_step {c : Membership} {s s' : ClusterState} {a : Action}
    (hstep : step c s a = some s') (m : Int) : SnapshotOf s a m (s'.node m).log := by
  cases step_cases hstep with
  | startElection => exact .of_update m (.same rfl rfl)
  | handleRequestVote => exact .of_update m (.of_log (Unmoved.handleRequestVote _ _).log)
  | handleRequestVoteReply =>
      exact .of_update m (.of_log (Unmoved.handleRequestVoteReply _ _ _).log)
  | finishElection => exact .of_update m (.of_log (Unmoved.finishElection _ _ _).log)
  | propose hn hcall =>
      obtain ⟨-, rfl, -⟩ := propose_eq_some hcall
      refine .of_update m ?_
      rw [advanceCommitIndex_log]
      exact .same rfl rfl
  | handleAppendEntries => exact .of_update m (.handleAppendEntries _ _ _ _)
  | handleAppendEntriesReply =>
      exact .of_update m (.of_log (RaftNode.handleAppendEntriesReply_log _ _ _ _))
  | handleInstallSnapshot hmem => exact .of_update m (.handleInstallSnapshot hmem)
  | handleInstallSnapshotReply =>
      exact .of_update m (.of_log (Unmoved.handleInstallSnapshotReply _ _ _ _).log)
  | compact => exact .of_update m (.ofCompact _ _ _ _)
  | restart => exact .of_update m (.same rfl rfl)
  | crashAfterStepDown => exact .of_update m (.same rfl rfl)
  | proposeRefused => exact .refl s _ m
  | replicate => exact .refl s _ m
  | sendStop => exact .refl s _ m
  | sendSnapshot => exact .refl s _ m
  | sendChecked => exact .refl s _ m
  | sendRefused => exact .refl s _ m
  | sendAppendEntries => exact .refl s _ m

/-- A snapshot in the network was there before, or is the one of a leader. -/
theorem installSnapshot_of_step {c : Membership} {s s' : ClusterState} {a : Action}
    (hstep : step c s a = some s') {dst : Int} {req : InstallSnapshotRequest}
    (hmem : .installSnapshot dst req ∈ s'.net) :
    .installSnapshot dst req ∈ s.net ∨
      ∃ n, (s.node n).role = .leader ∧ 0 < req.lastIncludedIndex ∧
        req.lastIncludedIndex = (s.node n).log.snapshotLastIndex ∧
        req.data = (s.node n).log.snapshotData := by
  cases step_cases hstep with
  | @sendSnapshot n task sent htask hsend =>
      rw [List.mem_cons, Message.installSnapshot.injEq] at hmem
      rcases hmem with ⟨-, rfl⟩ | hmem
      · have hpos := snapshotLastIndex_pos_of_sendCheck hsend
        unfold RaftNode.sendCheck at hsend
        split_ifs at hsend with hstop hbehind
        rw [not_or, not_not] at hstop
        cases hsend
        exact .inr ⟨n, hstop.1, hpos, rfl, rfl⟩
      · exact .inl hmem
  | sendAppendEntries => exact .inl (by simpa using hmem)
  | startElection => exact .inl (by simpa using hmem)
  | handleRequestVote => exact .inl (by simpa using hmem)
  | handleRequestVoteReply => exact .inl hmem
  | finishElection => exact .inl hmem
  | propose => exact .inl hmem
  | handleAppendEntries => exact .inl (by simpa using hmem)
  | handleAppendEntriesReply => exact .inl hmem
  | handleInstallSnapshot => exact .inl (by simpa using hmem)
  | handleInstallSnapshotReply => exact .inl hmem
  | compact => exact .inl hmem
  | restart => exact .inl hmem
  | crashAfterStepDown => exact .inl hmem
  | proposeRefused => exact .inl hmem
  | replicate => exact .inl hmem
  | sendStop => exact .inl hmem
  | sendChecked => exact .inl hmem
  | sendRefused => exact .inl hmem

/-! ## Where calls of propose come from -/

/-- The index of the call is behind all that the leader of its term had appended. -/
def StartedAfter (h : History) (call : ProposeCall) : Prop :=
  (h.lead call.term).length < call.index

/-- A call in the list was there before, or is the one that a leader has just taken. -/
theorem proposals_of_step {c : Membership} {s s' : ClusterState} {a : Action}
    (hstep : step c s a = some s') {call : ProposeCall} (hmem : call ∈ s'.proposals) :
    call ∈ s.proposals ∨ ∃ n command node, a = .propose n command ∧
      (s.node n).propose command = some (node, call) ∧ s'.node n = node := by
  cases step_cases hstep with
  | @propose n command node call' hn hcall =>
      rcases List.mem_cons.mp hmem with rfl | hold
      · exact .inr ⟨n, command, node, rfl, hcall, Function.update_self ..⟩
      · exact .inl hold
  | _ => exact .inl hmem

/-- No call is dropped from the list. -/
theorem proposals_subset_of_step {c : Membership} {s s' : ClusterState} {a : Action}
    (hstep : step c s a = some s') : s.proposals ⊆ s'.proposals := by
  intro call hmem
  cases step_cases hstep with
  | propose hn hcall => exact List.mem_cons_of_mem _ hmem
  | _ => exact hmem

/-- A call that starts is the last entry of its leader, and was not there before. -/
theorem started_recorded {c : Membership} {p p' : ClusterState × History} {t t' : ClusterState}
    {n : Int} {command : Bytes} {node : RaftNode} {call : ProposeCall}
    (hrefines : Refines c t p) (hrefines' : Refines c t' p')
    (hcall : (t.node n).propose command = some (node, call)) (hnode : t'.node n = node) :
    Recorded p'.2 call ∧ StartedAfter p.2 call := by
  obtain ⟨hsafe, hm⟩ := hrefines
  obtain ⟨hsafe', hm'⟩ := hrefines'
  have hx := hm.node n
  have hx' := hm'.node n
  obtain ⟨hrole, rfl, rfl⟩ := propose_eq_some hcall
  rw [hnode] at hx'
  have hleads := hsafe.votes.leads n (by rw [hx.role, hrole])
  have hentries := hsafe.logs.leading n hleads
  have hleads' := hsafe'.votes.leads n (by rw [hx'.role, advanceCommitIndex_role, hrole])
  have hentries' := hsafe'.logs.leading n hleads'
  rw [hx.state] at hleads hentries
  rw [hx'.state, advanceCommitIndex_state] at hleads' hentries'
  have hid : (t.node n).nodeId = n := by
    rw [← hx.nodeId]
    exact hsafe.votes.nodeId n
  have hlast := hx.log.lastIndex
  rw [hentries] at hlast
  have hindex : ((t.node n).log.append (t.node n).state.currentTerm command).lastIndex =
      (p.2.lead (t.node n).state.currentTerm).length + 1 := by
    rw [RaftLog.lastIndex_append, hlast]
  -- one log behind the snapshot, seen as part of the leader's log before and after
  have hrep := hx.log.append (t.node n).state.currentTerm command
  have hrep' := hx'.log
  rw [hentries] at hrep
  rw [hentries', advanceCommitIndex_log] at hrep'
  have hsnap : ((t.node n).log.append (t.node n).state.currentTerm command).snapshotLastIndex <
      (p.2.lead (t.node n).state.currentTerm).length + 1 := by
    rw [← hlast]
    exact Nat.lt_succ_of_le (Nat.le_add_right _ _)
  have hget := (hrep'.getElem?_entries hsnap).symm.trans (hrep.getElem?_entries hsnap)
  refine ⟨⟨?_, hindex ▸ Nat.succ_pos _, ?_⟩, ?_⟩
  · rw [hid]
    exact hleads'
  · dsimp only
    rw [hindex, hget, Nat.add_sub_cancel, List.getElem?_concat_length]
  · rw [StartedAfter]
    dsimp only
    omega

/-! ## The members and the list -/

/-- No leader takes an empty proposal. -/
def ProposesNonempty (s : ClusterState) : Action → Prop
  | .propose n command => (s.node n).role = .leader → command ≠ []
  | _ => True

instance (s : ClusterState) (a : Action) : Decidable (ProposesNonempty s a) :=
  match a with
  | .propose n command =>
      inferInstanceAs (Decidable ((s.node n).role = .leader → command ≠ []))
  | .startElection .. | .handleRequestVote .. | .handleRequestVoteReply .. | .finishElection ..
  | .replicate .. | .sendCheck .. | .sendAppendEntries .. | .handleAppendEntries ..
  | .handleAppendEntriesReply .. | .handleInstallSnapshot .. | .handleInstallSnapshotReply ..
  | .compact .. | .restart .. | .crashAfterStepDown .. => instDecidableTrue

/-- The side condition of the runs with one committed log. -/
def Replicating (s : ClusterState) (a : Action) : Prop :=
  Careful s a ∧ ProposesNonempty s a

instance (s : ClusterState) (a : Action) : Decidable (Replicating s a) :=
  inferInstanceAs (Decidable (_ ∧ _))

/-- The applied commands are the part of the list between the snapshot and the last applied
index. -/
structure AppliedPart (committed : List Bytes) (node : RaftNode) : Prop where
  snapshot_le : node.log.snapshotLastIndex ≤ node.lastApplied
  applied_le : node.lastApplied ≤ committed.length
  commands : node.appliedCommands =
    (committed.take node.lastApplied).drop node.log.snapshotLastIndex

/-- A compaction always meets the condition. -/
theorem Replicating.compact (s : ClusterState) (n : Int) (upToIndex : Nat) (data : Bytes) :
    Replicating s (.compact n upToIndex data) :=
  ⟨trivial, trivial⟩

/-- The committed list, the cluster, and the cluster with whole logs that it mirrors. -/
structure CommittedInv (c : Membership) (s : ClusterState) (p : ClusterState × History)
    (committed : List Bytes) : Prop where
  refines : Refines c s p
  isCommitted : IsCommitted c p.2 committed
  commands : CommandsInv s
  elected : ∀ n, Elected (s.node n)
  recorded : ∀ call ∈ s.proposals, Recorded p.2 call
  reached : ∀ n ∈ c.peers, (s.node n).commitIndex ≤ committed.length
  sent : ∀ dst req, .installSnapshot dst req ∈ s.net → req.lastIncludedIndex ≤ committed.length
  applied : ∀ n ∈ c.peers, (s.node n).appliedCommands =
    (committed.take (s.node n).lastApplied).drop (s.node n).log.snapshotLastIndex

/-- The part of a list behind a node's snapshot, read off it index by index. -/
theorem committedBehind_eq {node : RaftNode} {committed : List Bytes}
    (hle : node.lastApplied ≤ committed.length) :
    committedBehind node (fun i => (committed[i - 1]?).getD []) =
      (committed.take node.lastApplied).drop node.log.snapshotLastIndex := by
  apply List.ext_getElem?
  intro j
  rw [committedBehind, List.getElem?_map, List.getElem?_drop]
  by_cases hj : j < node.lastApplied - node.log.snapshotLastIndex
  · have hindex : node.log.snapshotLastIndex + 1 + 1 * j - 1 = node.log.snapshotLastIndex + j := by
      omega
    rw [List.getElem?_range' hj, Option.map_some, hindex, List.getElem?_take_of_lt (by omega),
      List.getElem?_eq_getElem (by omega)]
    rfl
  · rw [List.getElem?_eq_none (by rw [List.length_range']; omega),
      List.getElem?_eq_none (by rw [List.length_take]; omega)]
    rfl

namespace CommittedInv

variable {c : Membership} {s s' : ClusterState} {p : ClusterState × History}
  {committed : List Bytes} {a : Action}

theorem init (c : Membership) :
    CommittedInv c (ClusterState.init c) (ClusterState.init c, {}) [] where
  refines := Refines.init c
  isCommitted := ⟨0, [], .inl rfl, rfl⟩
  commands := CommandsInv.init c
  elected _ hrole := absurd rfl hrole
  recorded _ hmem := absurd hmem List.not_mem_nil
  reached _ _ := le_rfl
  sent _ _ hmem := absurd hmem List.not_mem_nil
  applied _ _ := rfl

theorem settled (hinv : CommittedInv c s p committed) (n : Int) : Settled (s.node n) where
  snapshot_le := by
    rw [(hinv.refines.2.node n).applied]
    exact (hinv.refines.2.node n).snapshot_le
  applied_eq := (hinv.refines.2.node n).applied
  elected := hinv.elected n

/-- A careful action that proposes no empty command keeps the applied commands aligned. -/
theorem keepsAligned (hinv : CommittedInv c s p committed) (hok : Replicating s a)
    (hstep : NanoDB.Raft.step c s a = some s') : KeepsAligned s a := by
  obtain ⟨hcareful, hnonempty⟩ := hok
  obtain ⟨hsafe, hm⟩ := hinv.refines
  cases a with
  | propose n command => exact hnonempty
  | sendAppendEntries n task =>
      intro hrole hterm
      refine hcareful.resolve_left fun hnone => ?_
      rw [buildAppendEntries, if_neg (by simp [hrole, hterm])] at hnone
      cases hnone
  | handleAppendEntries n req =>
      simp only [NanoDB.Raft.step, Option.ite_none_right_eq_some] at hstep
      have hreq := (hsafe.logs.append n req (hm.net _ hstep.1)).2
      have hlen := hsafe.commitIndex_le n
      rw [(hm.node n).commitIndex, ← RaftLog.lastIndex_of_noSnapshot (hm.node n).whole,
        (hm.node n).lastIndex_eq] at hlen
      exact lowersCommit_of_cutsCommitted hlen
        ((hm.node n).cutsCommitted_eq_false hsafe hreq hcareful)
  | _ => trivial

/-- Every node moves in one of the listed ways. -/
theorem moves (hinv : CommittedInv c s p committed) (hok : Replicating s a)
    (hstep : NanoDB.Raft.step c s a = some s') (n : Int) :
    Moves (KeepsCommitted s a) (restartsNode n a) (s.node n) (s'.node n) := by
  refine step_moves n (hinv.settled n) ?_ hstep
  rintro m req rfl
  exact hinv.keepsAligned hok hstep

/-- After an action the snapshot of every member is still inside the list. -/
theorem snapshot_le (hinv : CommittedInv c s p committed)
    (hstep : NanoDB.Raft.step c s a = some s') {n : Int} (hn : n ∈ c.peers) :
    (s'.node n).log.snapshotLastIndex ≤ committed.length := by
  have hset := hinv.settled n
  have hsnap := hset.snapshot_le
  have hcommit := hset.applied_eq
  have hreached := hinv.reached n hn
  cases snapshotOf_step hstep n with
  | same hindex hdata => omega
  | @compact upToIndex data haction hdone hindex hdata =>
      unfold RaftNode.compact at hdone
      dsimp only at hdone
      split_ifs at hdone
      omega
  | install hmem hindex hdata =>
      rw [hindex]
      exact hinv.sent n _ hmem

/-- **Step lemma.**  Every step keeps the list and the members in agreement. -/
theorem step (hinv : CommittedInv c s p committed) (hok : Replicating s a)
    (hstep : NanoDB.Raft.step c s a = some s') :
    ∃ p', Relation.ReflTransGen (WholeStep c) p p' ∧
      CommittedInv c s' p' (recordCommitted c s a committed) := by
  obtain ⟨p', hsteps, hrefines⟩ := careful_simulates c s a s' p hinv.refines hok.1 hstep
  have hext := (whole_steps_safety hsteps hinv.refines.1).2
  have hcommands := hinv.commands.step (hinv.keepsAligned hok hstep) hstep
  have hrecord : recordCommitted c s a committed =
      (c.peers.map s'.node).foldl extendCommitted committed := by
    rw [recordCommitted, hstep]
  have hprefix : committed <+: recordCommitted c s a committed := by
    rw [hrecord]
    exact prefix_foldl_extendCommitted _ _
  have hcommitted : IsCommitted c p'.2 (recordCommitted c s a committed) := by
    rw [hrecord]
    exact (hinv.isCommitted.mono hext).foldl hrefines.1 hrefines.2 _
      fun n hn => hinv.snapshot_le hstep hn
  have hreached : ∀ n ∈ c.peers,
      (s'.node n).commitIndex ≤ (recordCommitted c s a committed).length := by
    intro n hn
    rw [hrecord]
    exact commitIndex_le_foldl (List.mem_map_of_mem hn) _
  refine ⟨p', hsteps, hrefines, hcommitted, hcommands, Elected.step hinv.elected hstep,
    fun call hmem => ?_, hreached, fun dst req hmem => ?_, fun n hn => ?_⟩
  · rcases proposals_of_step hstep hmem with hold | ⟨n, command, node, -, hcall, hnode⟩
    · exact (hinv.recorded call hold).mono hext
    · exact (started_recorded hinv.refines hrefines hcall hnode).1
  · rcases installSnapshot_of_step hstep hmem with hold | ⟨n, hrole, -, hindex, -⟩
    · exact (hinv.sent dst req hold).trans hprefix.length_le
    · have hx := hinv.refines.2.node n
      have hlead := hinv.refines.1.votes.leads n (by rw [hx.role, hrole])
      have hn := hinv.refines.1.votes.leader_mem hlead
      rw [hindex]
      exact (hx.snapshot_le.trans (hinv.reached n hn)).trans hprefix.length_le
  · have hx := hinv.refines.2.node n
    have hx' := hrefines.2.node n
    have happlied := hx.applied
    have happlied' := hx'.applied
    have hle := hinv.reached n hn
    have hle' := hreached n hn
    have hold := hinv.applied n hn
    rw [← committedBehind_eq (by omega)] at hold
    have hnew := (hinv.moves hok hstep n).committedBehind (hinv.settled n) (hcommands.log n) hold
    rw [hnew, ← committedBehind_eq (by omega)]
    refine List.map_congr_left fun i hi => ?_
    rw [List.mem_range'_1] at hi
    unfold commitsOf
    split_ifs with hfresh
    · rw [hcommitted.commandAt_eq hrefines.1 hx' (by omega) hfresh.2 (by omega)]
      rfl
    · have hlt : i - 1 < committed.length := by omega
      dsimp only
      rw [List.getElem?_eq_getElem hlt, List.prefix_iff_getElem?.mp hprefix _ hlt]

/-- A member has applied its part of the list. -/
theorem appliedPart (hinv : CommittedInv c s p committed) {n : Int} (hn : n ∈ c.peers) :
    AppliedPart committed (s.node n) := by
  refine ⟨(hinv.settled n).snapshot_le, ?_, hinv.applied n hn⟩
  rw [(hinv.settled n).applied_eq]
  exact hinv.reached n hn

/-- A call that decides to return {lean}`true` is certified, and inside the list. -/
theorem certified_of_poll (hinv : CommittedInv c s p committed) {call : ProposeCall}
    (hpoll : (s.node call.nodeId).proposePoll call = some true) :
    Certified c p.2 call.term (p.2.lead call.term) call.index ∧ call.index ≤ committed.length := by
  obtain ⟨hrole, hterm, hcommit⟩ := proposePoll_eq_true hpoll
  obtain ⟨hsafe, hm⟩ := hinv.refines
  have hx := hm.node call.nodeId
  have hleads := hsafe.votes.leads call.nodeId (by rw [hx.role, hrole])
  have hcert := (hsafe.commits.node call.nodeId).certified
  rw [hsafe.logs.leading call.nodeId hleads, hx.state, hx.commitIndex, hterm] at hcert
  exact ⟨hcert.anti hcommit, hcommit.trans (hinv.reached _ (hsafe.votes.leader_mem hleads))⟩

/-- The list has the command of a certified call at its index. -/
theorem committed_getElem? (hinv : CommittedInv c s p committed) {call : ProposeCall}
    (hcall : call ∈ s.proposals)
    (hcert : Certified c p.2 call.term (p.2.lead call.term) call.index)
    (hreached : call.index ≤ committed.length) :
    committed[call.index - 1]? = some call.command := by
  obtain ⟨-, hpos, hget⟩ := hinv.recorded call hcall
  rw [hinv.isCommitted.getElem?_eq hinv.refines.1 hcert hpos le_rfl hreached, hget]
  rfl

end CommittedInv

/-! ## One committed log -/

/-- The steps of a cluster beside which the committed commands are recorded. -/
abbrev recordingStep (c : Membership) :=
  instrument (step c) (recordCommitted c)

/-- **Run lemma.**  The record and the members agree at the end of a run as at its start, and
the record only grows. -/
theorem CommittedInv.run {c : Membership} {q q' : ClusterState × List Bytes} {as : List Action}
    {p : ClusterState × History}
    (hrun : Exec (recordingStep c) (fun q a => Replicating q.1 a) q as q')
    (hinv : CommittedInv c q.1 p q.2) :
    q.2 <+: q'.2 ∧ ∃ p', Relation.ReflTransGen (WholeStep c) p p' ∧
      CommittedInv c q'.1 p' q'.2 := by
  induction hrun generalizing p with
  | nil q => exact ⟨List.prefix_rfl, p, .refl, hinv⟩
  | cons hok hstep _ ih =>
      obtain ⟨hs, hrecord⟩ := instrument_eq_some.mp hstep
      obtain ⟨p₁, hsteps, hinv₁⟩ := hinv.step hok hs
      rw [← hrecord] at hinv₁
      obtain ⟨hpre, p', hsteps', hinv'⟩ := ih hinv₁
      refine ⟨List.IsPrefix.trans ?_ hpre, p', hsteps.trans hsteps', hinv'⟩
      rw [hrecord, recordCommitted, hs]
      exact prefix_foldl_extendCommitted _ _

/-- **One committed log.**  In every careful run that proposes no empty command there is one
list of commands, which only grows, and of which every member has, at every moment, applied
the part between its snapshot and its last applied index. -/
theorem one_committed_log (c : Membership) {as as' : List Action} {s s' : ClusterState}
    {committed committed' : List Bytes}
    (hrun : Exec (recordingStep c) (fun q a => Replicating q.1 a) (ClusterState.init c, []) as
      (s, committed))
    (hrun' : Exec (recordingStep c) (fun q a => Replicating q.1 a) (s, committed) as'
      (s', committed')) :
    committed <+: committed' ∧ ∀ n ∈ c.peers,
      AppliedPart committed (s.node n) ∧ AppliedPart committed' (s'.node n) := by
  obtain ⟨-, p, -, hinv⟩ := CommittedInv.run hrun (CommittedInv.init c)
  obtain ⟨hpre, p', -, hinv'⟩ := CommittedInv.run hrun' hinv
  exact ⟨hpre, fun n hn => ⟨hinv.appliedPart hn, hinv'.appliedPart hn⟩⟩

/-- A member that installed the snapshot of the first command has applied the second. -/
theorem one_committed_log_install :
    ∃ q q', Exec (recordingStep threeNodes) (fun q a => Replicating q.1 a)
        (ClusterState.init threeNodes, []) compactThenInstall q ∧
      Exec (recordingStep threeNodes) (fun q a => Replicating q.1 a) q electionOnSnapshot q' ∧
      q.2 = [[97], [98]] ∧ (q.1.node 2).log.snapshotLastIndex = 1 ∧
      (q.1.node 2).appliedCommands = [[98]] ∧ AppliedPart q.2 (q.1.node 2) ∧
      AppliedPart q'.2 (q'.1.node 2) := by
  have hrun := Exec.of_guardedRun (recordingStep threeNodes) (fun q a => Replicating q.1 a)
    (ClusterState.init threeNodes, []) compactThenInstall (by decide +kernel)
  have hrun' := Exec.of_guardedRun (recordingStep threeNodes) (fun q a => Replicating q.1 a)
    ((guardedRun (recordingStep threeNodes) (fun q a => Replicating q.1 a)
      (ClusterState.init threeNodes, []) compactThenInstall).get (by decide +kernel))
    electionOnSnapshot (by decide +kernel)
  have hparts := (one_committed_log threeNodes hrun hrun').2 2 (by decide)
  exact ⟨_, _, hrun, hrun', by decide +kernel, by decide +kernel, by decide +kernel, hparts.1,
    hparts.2⟩

end NanoDB.Raft
