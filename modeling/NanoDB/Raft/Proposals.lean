import NanoDB.Raft.CommitSafety

/-!
# What propose reports

A call of {lit}`propose` fixes an index in its first critical section and looks at the commit
index in later ones, after anything may have happened in the cluster.  Beside a cluster run
go the calls that still poll and the calls that have returned {lean}`true`.

A node leads a term once and only appends while it leads, so a call that decides to return
{lean}`true` still finds its command at its index.  That no other call returns for the same
index rests on committed entries staying in the log: a node that lost a committed entry to a
late request, and is elected again, gives the index away a second time.

Main results:

- Theorem {lit}`CallsInv.step`: in every run without compaction the command of a call stays in
  the log of the leader of its term.
- Theorem {lit}`propose_decides`: what holds in the section that decides to return.
- Theorem {lit}`propose_reports_own_index`: in runs whose steps drop no matching suffix, calls
  that returned have different indices.
- Theorem {lit}`index_reported_twice`: a late request makes a node report one index twice.
-/

namespace NanoDB.Raft

open Lib RaftNode

/-! ## Calls that poll -/

/-- A cluster with the calls of {lit}`propose` that still poll, and those that returned
{lean}`true`. -/
structure ProposeState where
  cluster : ClusterState
  pending : List ProposeCall := []
  returned : List ProposeCall := []

/-- A step of the cluster; the next polling section of the {lit}`i`-th pending call; or its
deadline. -/
inductive ProposeAction where
  | cluster (a : Action)
  | poll (i : Nat)
  | timeout (i : Nat)
deriving DecidableEq, Repr

namespace ProposeState

/-- The calls that an action of the cluster starts. -/
def started (s : ProposeState) : Action → List ProposeCall
  | .propose n command => (((s.cluster.node n).propose command).map (·.2)).toList
  | _ => []

def step (c : Membership) (s : ProposeState) : ProposeAction → Option ProposeState
  | .cluster a =>
      (NanoDB.Raft.step c s.cluster a).map fun t =>
        { s with cluster := t, pending := s.started a ++ s.pending }
  | .poll i =>
      match s.pending[i]? with
      | none => none
      | some call =>
          match (s.cluster.node call.nodeId).proposePoll call with
          | some true =>
              some { s with pending := s.pending.eraseIdx i, returned := call :: s.returned }
          | some false => some { s with pending := s.pending.eraseIdx i }
          | none => some s
  | .timeout i =>
      if i < s.pending.length then some { s with pending := s.pending.eraseIdx i } else none

def init (c : Membership) : ProposeState where
  cluster := ClusterState.init c

/-- The history of the cluster's steps. -/
def track (s : ProposeState) : ProposeAction → History → History
  | .cluster a, h => NanoDB.Raft.track s.cluster a h
  | .poll _, h => h
  | .timeout _, h => h

end ProposeState

/-- A condition on the steps of the cluster. -/
def OnCluster (ok : ClusterState → Action → Prop) (s : ProposeState) : ProposeAction → Prop
  | .cluster a => ok s.cluster a
  | .poll _ => True
  | .timeout _ => True

instance (ok : ClusterState → Action → Prop) [∀ s a, Decidable (ok s a)] (s : ProposeState)
    (a : ProposeAction) : Decidable (OnCluster ok s a) :=
  match a with
  | .cluster a => inferInstanceAs (Decidable (ok s.cluster a))
  | .poll _ => instDecidableTrue
  | .timeout _ => instDecidableTrue

/-- The polling section returns {lean}`true` only to the leader of the call's term, once the
commit index covers the call. -/
theorem RaftNode.proposePoll_eq_true {node : RaftNode} {call : ProposeCall}
    (h : node.proposePoll call = some true) :
    node.role = .leader ∧ node.state.currentTerm = call.term ∧ call.index ≤ node.commitIndex := by
  unfold proposePoll at h
  split_ifs at h with hleads hcommit
  · cases h
  · rw [not_or, not_not, not_not] at hleads
    exact ⟨hleads.1, hleads.2, hcommit⟩

/-! ## The command of a call stays in its leader's log -/

/-- The call was made by the leader of its term, whose log has the command at the index. -/
def Recorded (h : History) (call : ProposeCall) : Prop :=
  h.leader call.term = some call.nodeId ∧ 0 < call.index ∧
    (h.lead call.term)[call.index - 1]? = some ⟨call.term, call.command⟩

theorem Recorded.mono {h h' : History} {call : ProposeCall} (hheld : Recorded h call)
    (hext : h.Extends h') : Recorded h' call := by
  obtain ⟨hleader, hpos, hget⟩ := hheld
  refine ⟨hext.leader _ _ hleader, hpos, ?_⟩
  obtain ⟨r, hr⟩ := hext.lead call.term
  rw [← hr, List.getElem?_append_left (List.getElem?_eq_some_iff.mp hget).1, hget]

theorem Recorded.index_le {h : History} {call : ProposeCall} (hheld : Recorded h call) :
    call.index ≤ (h.lead call.term).length := by
  have hlt := (List.getElem?_eq_some_iff.mp hheld.2.2).1
  omega

/-- Two calls are made at different indices if they are made in one term. -/
def Apart (a b : ProposeCall) : Prop :=
  a.term = b.term → a.index ≠ b.index

theorem Apart.symm {a b : ProposeCall} (h : Apart a b) : Apart b a :=
  fun hterm hindex => h hterm.symm hindex.symm

/-- What holds of the calls of a run without compaction. -/
structure CallsInv (c : Membership) (s : ProposeState) (h : History) : Prop where
  votes : VoteInv c s.cluster h
  logs : LogInv s.cluster h
  held : ∀ call ∈ s.pending ++ s.returned, Recorded h call
  apart : (s.pending ++ s.returned).Pairwise Apart

/-- A new call is the leader's last entry, behind all calls of its term. -/
theorem recorded_of_propose {c : Membership} {s : ClusterState} {h : History} {n : Int}
    {command : Bytes} {node : RaftNode} {call : ProposeCall} (hvotes : VoteInv c s h)
    (hlogs : LogInv s h) (hcall : (s.node n).propose command = some (node, call)) :
    Recorded (track s (.propose n command) h) call ∧
      ∀ old, Recorded h old → Apart call old := by
  obtain ⟨hrole, -, rfl⟩ := propose_eq_some hcall
  have hleader := hvotes.leads n hrole
  have hentries := hlogs.leading n hleader
  have hlast : ((s.node n).log.append (s.node n).state.currentTerm command).lastIndex =
      (h.lead (s.node n).state.currentTerm).length + 1 := by
    rw [RaftLog.lastIndex_of_noSnapshot ((hlogs.noSnapshot n).append _ _), RaftLog.append_entries,
      List.length_append, hentries, List.length_singleton]
  constructor
  · rw [track, if_pos hrole]
    refine ⟨?_, hlast ▸ Nat.succ_pos _, ?_⟩
    · simp only [Ledger.extend, hvotes.nodeId n]
      exact hleader
    · simp only [hlast, Ledger.extend, Function.update_self, Nat.add_sub_cancel]
      rw [List.getElem?_append_right le_rfl, Nat.sub_self]
      rfl
  · intro old hold hterm hindex
    have hle := hold.index_le
    simp only at hterm hindex
    rw [← hterm] at hle
    omega

/-- Moving a call from the pending to the returned ones only reorders the calls. -/
theorem perm_of_return (returned : List ProposeCall) {pending : List ProposeCall} {i : Nat}
    {call : ProposeCall}
    (h : pending[i]? = some call) :
    (pending.eraseIdx i ++ call :: returned).Perm (pending ++ returned) := by
  obtain ⟨hlt, rfl⟩ := List.getElem?_eq_some_iff.mp h
  exact List.perm_middle.trans ((List.getElem_cons_eraseIdx_perm hlt).append_right returned)

namespace CallsInv

variable {c : Membership} {s s' : ProposeState} {h : History}

theorem init (c : Membership) : CallsInv c (ProposeState.init c) {} where
  votes := VoteInv.init c
  logs := LogInv.init c
  held _ hcall := absurd hcall List.not_mem_nil
  apart := List.Pairwise.nil

/-- Dropping a pending call keeps the invariant. -/
theorem of_erase (hinv : CallsInv c s h) (i : Nat) :
    CallsInv c { s with pending := s.pending.eraseIdx i } h where
  votes := hinv.votes
  logs := hinv.logs
  held call hcall := hinv.held call
    (((List.eraseIdx_sublist s.pending i).append_right s.returned).subset hcall)
  apart := hinv.apart.sublist ((List.eraseIdx_sublist s.pending i).append_right s.returned)

/-- **Step lemma.**  Without compaction, calls stay held by the leader of their term and apart
from each other. -/
theorem step (hinv : CallsInv c s h) {a : ProposeAction} (hok : OnCluster NoCompaction s a)
    (hstep : s.step c a = some s') : CallsInv c s' (s.track a h) := by
  cases a with
  | cluster a =>
      simp only [ProposeState.step, Option.map_eq_some_iff] at hstep
      obtain ⟨t, hstep, rfl⟩ := hstep
      have hext := track_extends hinv.votes hstep
      have hold : ∀ call ∈ s.pending ++ s.returned,
          Recorded (NanoDB.Raft.track s.cluster a h) call :=
        fun call hcall => (hinv.held call hcall).mono hext
      -- only a proposal that is taken starts a call
      have hnew : ∀ call ∈ s.started a, Recorded (NanoDB.Raft.track s.cluster a h) call ∧
          ∀ old, Recorded h old → Apart call old := by
        intro call hcall
        unfold ProposeState.started at hcall
        split at hcall
        · rename_i n command
          rw [Option.mem_toList, Option.map_eq_some_iff] at hcall
          obtain ⟨⟨node, call'⟩, hcall, rfl⟩ := hcall
          exact recorded_of_propose hinv.votes hinv.logs hcall
        · cases hcall
      have hone : (s.started a).Pairwise Apart := by
        unfold ProposeState.started
        split
        · generalize Option.map _ _ = started
          cases started with
          | none => exact List.Pairwise.nil
          | some call => exact List.pairwise_singleton _ _
        · exact List.Pairwise.nil
      refine ⟨hinv.votes.step hstep, hinv.logs.step hinv.votes hok hstep, ?_, ?_⟩
      · intro call hcall
        rw [List.append_assoc, List.mem_append] at hcall
        rcases hcall with hcall | hcall
        · exact (hnew call hcall).1
        · exact hold call hcall
      · rw [List.append_assoc, List.pairwise_append]
        refine ⟨hone, hinv.apart, ?_⟩
        intro call hcall old hmem
        exact (hnew call hcall).2 old (hinv.held old hmem)
  | poll i =>
      simp only [ProposeState.step] at hstep
      split at hstep
      · cases hstep
      · rename_i call hcall
        split at hstep
        · cases hstep
          have hperm := perm_of_return s.returned hcall
          refine ⟨hinv.votes, hinv.logs, fun call hmem => hinv.held call (hperm.subset hmem), ?_⟩
          exact (hperm.pairwise_iff fun h => h.symm).mpr hinv.apart
        · cases hstep
          exact hinv.of_erase i
        · cases hstep
          exact hinv
  | timeout i =>
      simp only [ProposeState.step, Option.ite_none_right_eq_some, Option.some.injEq] at hstep
      obtain ⟨-, rfl⟩ := hstep
      exact hinv.of_erase i

/-- The section that decides to return {lean}`true` finds the call's command in the log. -/
theorem holds (hinv : CallsInv c s h) {call : ProposeCall} (hcall : call ∈ s.pending)
    (hpoll : (s.cluster.node call.nodeId).proposePoll call = some true) :
    (s.cluster.node call.nodeId).log.entries = h.lead call.term ∧
      (s.cluster.node call.nodeId).log.Holds call.index ⟨call.term, call.command⟩ := by
  obtain ⟨hrole, hterm, -⟩ := proposePoll_eq_true hpoll
  have hentries := hinv.logs.leading _ (hinv.votes.leads _ hrole)
  rw [hterm] at hentries
  obtain ⟨-, hpos, hget⟩ := hinv.held call (List.mem_append_left _ hcall)
  refine ⟨hentries, ?_⟩
  rw [RaftLog.holds_iff (hinv.logs.noSnapshot _), hentries]
  exact ⟨hpos, hget⟩

end CallsInv

/-- In every run without compaction: a call that decides to return {lean}`true` finds its node
leading the call's term, with exactly its command at its index, under the commit index. -/
theorem propose_decides (c : Membership) {as : List ProposeAction} {s : ProposeState}
    (hrun : Exec (ProposeState.step c) (OnCluster NoCompaction) (ProposeState.init c) as s)
    {call : ProposeCall} (hcall : call ∈ s.pending)
    (hpoll : (s.cluster.node call.nodeId).proposePoll call = some true) :
    (s.cluster.node call.nodeId).role = .leader ∧
      (s.cluster.node call.nodeId).state.currentTerm = call.term ∧
      (s.cluster.node call.nodeId).log.Holds call.index ⟨call.term, call.command⟩ ∧
      call.index ≤ (s.cluster.node call.nodeId).commitIndex := by
  obtain ⟨h, htracked⟩ := hrun.instrument ProposeState.track {}
  have hinv : CallsInv c s h := by
    refine htracked.invariant (fun p => CallsInv c p.1 p.2) ?_ (CallsInv.init c)
    rintro ⟨s, h⟩ a ⟨s', h'⟩ hinv hok hstep
    obtain ⟨hstep, rfl⟩ := instrument_eq_some.mp hstep
    exact hinv.step hok hstep
  obtain ⟨hrole, hterm, hcommit⟩ := proposePoll_eq_true hpoll
  exact ⟨hrole, hterm, (hinv.holds hcall hpoll).2, hcommit⟩

/-! ## Returned calls -/

/-- What holds of the calls of a run that drops no matching suffix: those that returned are
certified in the log of their leader. -/
structure ReturnedInv (c : Membership) (s : ProposeState) (h : History) : Prop where
  safety : SafetyInv c s.cluster h
  calls : CallsInv c s h
  certified : ∀ call ∈ s.returned, Certified c h call.term (h.lead call.term) call.index

namespace ReturnedInv

variable {c : Membership} {s s' : ProposeState} {h : History}

theorem init (c : Membership) : ReturnedInv c (ProposeState.init c) {} where
  safety := SafetyInv.init c
  calls := CallsInv.init c
  certified _ hcall := absurd hcall List.not_mem_nil

/-- **Step lemma.**  A call returns only when its index is certified, and certificates last. -/
theorem step (hinv : ReturnedInv c s h) {a : ProposeAction} (hok : OnCluster KeepsSuffixes s a)
    (hstep : s.step c a = some s') : ReturnedInv c s' (s.track a h) := by
  have hok' : OnCluster NoCompaction s a := by
    cases a with
    | cluster a => exact KeepsSuffixes.noCompaction hok
    | poll i => trivial
    | timeout i => trivial
  have hcalls := hinv.calls.step hok' hstep
  cases a with
  | cluster a =>
      simp only [ProposeState.step, Option.map_eq_some_iff] at hstep
      obtain ⟨t, hstep, rfl⟩ := hstep
      have hext := track_extends hinv.calls.votes hstep
      refine ⟨hinv.safety.step hok hstep, hcalls, ?_⟩
      intro call hcall
      exact (hinv.certified call hcall).mono hext le_rfl (hext.lead call.term)
  | poll i =>
      simp only [ProposeState.step] at hstep
      split at hstep
      · cases hstep
      · rename_i call hcall
        split at hstep
        · rename_i hpoll
          cases hstep
          refine ⟨hinv.safety, hcalls, ?_⟩
          intro call' hcall'
          rcases List.mem_cons.mp hcall' with rfl | hold
          · obtain ⟨-, hterm, hcommit⟩ := proposePoll_eq_true hpoll
            have hcert := (hinv.safety.commits.node call'.nodeId).certified.anti hcommit
            rw [hterm, (hinv.calls.holds (List.mem_of_getElem? hcall) hpoll).1] at hcert
            exact hcert
          · exact hinv.certified call' hold
        · cases hstep
          exact ⟨hinv.safety, hcalls, hinv.certified⟩
        · cases hstep
          exact hinv
  | timeout i =>
      simp only [ProposeState.step, Option.ite_none_right_eq_some, Option.some.injEq] at hstep
      obtain ⟨-, rfl⟩ := hstep
      exact ⟨hinv.safety, hcalls, hinv.certified⟩

/-- A returned call keeps its index from every call of a later term: the leader of that term
has the command of the returned call there. -/
theorem index_ne_of_term_lt (hinv : ReturnedInv c s h) {a b : ProposeCall} (ha : a ∈ s.returned)
    (hb : b ∈ s.returned) (hlt : a.term < b.term) : a.index ≠ b.index := by
  intro hindex
  obtain ⟨-, hpos, hgetA⟩ := hinv.calls.held a (List.mem_append_right _ ha)
  obtain ⟨hleaderB, -, hgetB⟩ := hinv.calls.held b (List.mem_append_right _ hb)
  have hkept := ((hinv.certified a ha).lead hinv.safety.votes hinv.safety.logs
    hinv.safety.ballots hlt.le hleaderB).1
  have hidx : a.index - 1 < ((h.lead a.term).take a.index).length := by
    rw [List.length_take, min_eq_left (hinv.certified a ha).length_le]
    omega
  have hsame := List.prefix_iff_getElem?.mp hkept (a.index - 1) hidx
  rw [← List.getElem?_eq_getElem hidx, List.getElem?_take_of_lt (by omega), hgetA, hindex,
    hgetB] at hsame
  simp only [Option.some.injEq, PersistedEntry.mk.injEq] at hsame
  omega

/-- All returned calls have different indices. -/
theorem nodup (hinv : ReturnedInv c s h) : (s.returned.map (·.index)).Nodup := by
  rw [List.Nodup, List.pairwise_map]
  have hapart := (List.pairwise_append.mp hinv.calls.apart).2.1
  refine hapart.imp_of_mem ?_
  intro a b ha hb hab
  rcases Nat.lt_trichotomy a.term b.term with hlt | heq | hgt
  · exact hinv.index_ne_of_term_lt ha hb hlt
  · exact hab heq
  · exact (hinv.index_ne_of_term_lt hb ha hgt).symm

end ReturnedInv

/-- In every run in which no node compacts and no handled request drops a matching suffix: the
calls that returned {lean}`true` have different indices, and a call that decides to return
finds its node leading the call's term, with exactly its command at its index, under the
commit index. -/
theorem propose_reports_own_index (c : Membership) {as : List ProposeAction} {s : ProposeState}
    (hrun : Exec (ProposeState.step c) (OnCluster KeepsSuffixes) (ProposeState.init c) as s) :
    (s.returned.map (·.index)).Nodup ∧
      ∀ call ∈ s.pending, (s.cluster.node call.nodeId).proposePoll call = some true →
        (s.cluster.node call.nodeId).role = .leader ∧
        (s.cluster.node call.nodeId).state.currentTerm = call.term ∧
        (s.cluster.node call.nodeId).log.Holds call.index ⟨call.term, call.command⟩ ∧
        call.index ≤ (s.cluster.node call.nodeId).commitIndex := by
  obtain ⟨h, htracked⟩ := hrun.instrument ProposeState.track {}
  have hinv : ReturnedInv c s h := by
    refine htracked.invariant (fun p => ReturnedInv c p.1 p.2) ?_ (ReturnedInv.init c)
    rintro ⟨s, h⟩ a ⟨s', h'⟩ hinv hok hstep
    obtain ⟨hstep, rfl⟩ := instrument_eq_some.mp hstep
    exact hinv.step hok hstep
  refine ⟨hinv.nodup, fun call hcall hpoll => ?_⟩
  obtain ⟨hrole, hterm, hcommit⟩ := proposePoll_eq_true hpoll
  exact ⟨hrole, hterm, (hinv.calls.holds hcall hpoll).2, hcommit⟩

/-- Node 0 leads term 1, sends its first entry to node 1, commits three entries with node 1's
acknowledgement of all of them, and the call for the third returns. -/
def threeProposals : List ProposeAction :=
  [.cluster (.startElection 0), .cluster (.handleRequestVote 1 ⟨1, 0, 0, 0⟩),
    .cluster (.finishElection 0 [1]), .cluster (.propose 0 [97]), .cluster (.replicate 0),
    .cluster (.sendCheck 0 ⟨1, 1, 1⟩), .cluster (.sendAppendEntries 0 ⟨1, 1, 1⟩),
    .cluster (.propose 0 [98]), .cluster (.propose 0 [99]),
    .cluster (.sendAppendEntries 0 ⟨1, 1, 1⟩),
    .cluster (.handleAppendEntries 1
      ⟨1, 0, 0, 0, [⟨1, 1, [97]⟩, ⟨1, 2, [98]⟩, ⟨1, 3, [99]⟩], 0⟩),
    .cluster (.handleAppendEntriesReply 1
      ⟨1, 0, 0, 0, [⟨1, 1, [97]⟩, ⟨1, 2, [98]⟩, ⟨1, 3, [99]⟩], 0⟩ ⟨1, true⟩),
    .poll 0]

theorem propose_reports_own_index_threeProposals :
    ∃ s, Exec (ProposeState.step threeNodes) (OnCluster KeepsSuffixes)
        (ProposeState.init threeNodes) threeProposals s ∧
      s.returned = [⟨0, 1, 3, [99]⟩] ∧
      ⟨0, 1, 2, [98]⟩ ∈ s.pending ∧ (s.cluster.node 0).log.Holds 2 ⟨1, [98]⟩ := by
  have hrun := Exec.of_guardedRun (ProposeState.step threeNodes) (OnCluster KeepsSuffixes)
    (ProposeState.init threeNodes) threeProposals (by decide +kernel)
  have hreports := (propose_reports_own_index threeNodes hrun).2 ⟨0, 1, 2, [98]⟩
    (by decide +kernel) (by decide +kernel)
  exact ⟨_, hrun, by decide +kernel, by decide +kernel, hreports.2.2.1⟩

/-- The first request reaches node 1 only now and cuts two committed entries off.  Node 1 is
elected without them and overwrites the log of node 0, which is then elected again. -/
def secondStint : List ProposeAction :=
  [.cluster (.handleAppendEntries 1 ⟨1, 0, 0, 0, [⟨1, 1, [97]⟩], 0⟩),
    .cluster (.startElection 1), .cluster (.handleRequestVote 2 ⟨2, 1, 1, 1⟩),
    .cluster (.finishElection 1 [2]), .cluster (.propose 1 [120]), .cluster (.replicate 1),
    .cluster (.sendCheck 1 ⟨2, 0, 2⟩), .cluster (.sendAppendEntries 1 ⟨2, 0, 2⟩),
    .cluster (.handleAppendEntries 0 ⟨2, 1, 1, 1, [⟨2, 2, [120]⟩], 0⟩),
    .cluster (.startElection 0), .cluster (.handleRequestVote 2 ⟨3, 0, 2, 2⟩),
    .cluster (.finishElection 0 [2]), .cluster (.propose 0 [121]), .poll 0]

/-- Node 0 reports index 3 for two of its own calls. -/
theorem index_reported_twice :
    ∃ s, Exec (ProposeState.step threeNodes) (OnCluster NoCompaction)
        (ProposeState.init threeNodes) (threeProposals ++ secondStint) s ∧
      s.returned = [⟨0, 3, 3, [121]⟩, ⟨0, 1, 3, [99]⟩] ∧ ¬ (s.returned.map (·.index)).Nodup := by
  have hrun := Exec.of_guardedRun (ProposeState.step threeNodes) (OnCluster NoCompaction)
    (ProposeState.init threeNodes) (threeProposals ++ secondStint) (by decide +kernel)
  exact ⟨_, hrun, by decide +kernel, by decide +kernel⟩

end NanoDB.Raft
