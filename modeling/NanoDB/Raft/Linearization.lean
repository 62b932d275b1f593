import NanoDB.Raft.CommittedLog

/-!
# Proposals in the order of the committed log

Every call of {lit}`propose` that returns {lean}`true` has its command in the committed log at
the index that its first critical section fixed, no two calls have one index, and a call that
starts after another has returned has a larger one.  With this order of indices, the calls that
report success take effect one after the other, although clients talk to different leaders while
nodes restart, compact their logs and install snapshots.

A call that starts later is not behind an earlier one because of its term: a leader that was
deposed without noticing may still take proposals.  What keeps such a call from returning is
that the returned call's prefix is certified, and certified prefixes agree: an entry of the
later call inside it was in the log of its leader before the call started.

Main results:

- Theorem {lit}`index_lt_of_started`: the index of a later call is larger.
- Theorem {lit}`ProposedInv.step`: what every step keeps.
- Theorem {lit}`proposals_linearise`: the order of the committed log is an order in which the
  returned calls can have happened.
-/

namespace NanoDB.Raft

open Lib RaftNode

/-! ## Calls beside the committed log -/

/-- The committed log after an action. -/
def recordProposed (c : Membership) (s : ProposeState) : ProposeAction → List Bytes → List Bytes
  | .cluster a, committed => recordCommitted c s.cluster a committed
  | .poll _, committed => committed
  | .timeout _, committed => committed

/-- The steps of a cluster and its calls, beside which the committed commands are recorded. -/
abbrev proposingStep (c : Membership) :=
  instrument (ProposeState.step c) (recordProposed c)

/-- All calls that poll or have returned {lean}`true`. -/
def ProposeState.calls (s : ProposeState) : List ProposeCall :=
  s.pending ++ s.returned

theorem StartedAfter.anti {h h' : History} {call : ProposeCall} (hstarted : StartedAfter h' call)
    (hext : h.Extends h') : StartedAfter h call :=
  (hext.lead call.term).length_le.trans_lt hstarted

/-- Among the calls of one term a later one has a larger index. -/
theorem StartedAfter.apart {h : History} {call old : ProposeCall} (hstarted : StartedAfter h call)
    (hold : Recorded h old) : Apart call old := by
  intro hterm hindex
  have hle := hold.index_le
  rw [StartedAfter, hterm] at hstarted
  omega

section Certificates

variable {c : Membership} {v : ClusterState} {h h' : History} {a b : ProposeCall}

/-- Of two certified calls, the one with the smaller index has its entry in the log of the
other's leader. -/
theorem entry_of_certified (hinv : SafetyInv c v h) (hb : Recorded h b)
    (hcertA : Certified c h a.term (h.lead a.term) a.index)
    (hcertB : Certified c h b.term (h.lead b.term) b.index) (hle : b.index ≤ a.index) :
    (h.lead a.term)[b.index - 1]? = some ⟨b.term, b.command⟩ := by
  obtain ⟨-, hpos, hget⟩ := hb
  have htake := (hcertA.anti hle).take_eq hinv hcertB
  calc (h.lead a.term)[b.index - 1]?
      = ((h.lead a.term).take b.index)[b.index - 1]? := by
        rw [List.getElem?_take_of_lt (by omega)]
    _ = ((h.lead b.term).take b.index)[b.index - 1]? := by rw [htake]
    _ = some ⟨b.term, b.command⟩ := by rw [List.getElem?_take_of_lt (by omega), hget]

/-- Certified calls are at one index only if they are of one term. -/
theorem term_eq_of_index_eq (hinv : SafetyInv c v h) (ha : Recorded h a) (hb : Recorded h b)
    (hcertA : Certified c h a.term (h.lead a.term) a.index)
    (hcertB : Certified c h b.term (h.lead b.term) b.index) (hindex : a.index = b.index) :
    a.term = b.term := by
  have hentry := entry_of_certified hinv hb hcertA hcertB hindex.ge
  rw [← hindex, ha.2.2, Option.some.injEq, PersistedEntry.mk.injEq] at hentry
  exact hentry.1

/-- **Real-time order.**  A call that starts when another is certified, and is certified later
itself, has a larger index. -/
theorem index_lt_of_started (hinv : SafetyInv c v h) {v' : ClusterState}
    (hinv' : SafetyInv c v' h') (hext : h.Extends h')
    (hcertA : Certified c h a.term (h.lead a.term) a.index) (hb : Recorded h' b)
    (hcertB : Certified c h' b.term (h'.lead b.term) b.index) (hstarted : StartedAfter h b) :
    a.index < b.index := by
  by_contra hge
  have hle : b.index ≤ a.index := Nat.le_of_not_lt hge
  have hpos := hb.2.1
  have hlen := hcertA.length_le
  -- the entry of the later call is inside what was certified before
  have hentry := entry_of_certified hinv' hb
    (hcertA.mono hext le_rfl (hext.lead a.term)) hcertB hle
  have hbefore : (h.lead a.term)[b.index - 1]? = some ⟨b.term, b.command⟩ := by
    obtain ⟨more, hmore⟩ := hext.lead a.term
    rwa [← hmore, List.getElem?_append_left (by omega)] at hentry
  -- so its leader had appended it then
  have htake := congrArg List.length
    (hinv.logs.coherent.lead_follows a.term (b.index - 1) _ hbefore)
  simp only [List.length_take] at htake
  rw [StartedAfter] at hstarted
  omega

end Certificates

/-! ## The invariant -/

/-- The committed log, and the calls that have their commands in the logs of their leaders, or
in the committed log if they have returned. -/
structure ProposedInv (c : Membership) (s : ProposeState) (p : ClusterState × History)
    (committed : List Bytes) : Prop where
  log : CommittedInv c s.cluster p committed
  proposed : ∀ call ∈ s.calls, call ∈ s.cluster.proposals
  apart : s.calls.Pairwise Apart
  certified : ∀ call ∈ s.returned, Certified c p.2 call.term (p.2.lead call.term) call.index
  reached : ∀ call ∈ s.returned, call.index ≤ committed.length

namespace ProposedInv

variable {c : Membership} {s s' : ProposeState} {p p' : ClusterState × History}
  {committed : List Bytes}

theorem init (c : Membership) :
    ProposedInv c (ProposeState.init c) (ClusterState.init c, {}) [] where
  log := CommittedInv.init c
  proposed _ hcall := absurd hcall List.not_mem_nil
  apart := List.Pairwise.nil
  certified _ hcall := absurd hcall List.not_mem_nil
  reached _ hcall := absurd hcall List.not_mem_nil

/-- Every call has its command in the log of its leader. -/
theorem recorded (hinv : ProposedInv c s p committed) {call : ProposeCall}
    (hcall : call ∈ s.calls) :
    Recorded p.2 call :=
  hinv.log.recorded call (hinv.proposed call hcall)

/-- Dropping a pending call keeps the invariant. -/
theorem of_erase (hinv : ProposedInv c s p committed) (i : Nat) :
    ProposedInv c { s with pending := s.pending.eraseIdx i } p committed where
  log := hinv.log
  proposed call hcall := hinv.proposed call
    (((List.eraseIdx_sublist s.pending i).append_right s.returned).subset hcall)
  apart := hinv.apart.sublist ((List.eraseIdx_sublist s.pending i).append_right s.returned)
  certified := hinv.certified
  reached := hinv.reached

/-- What is known of the calls that an action starts. -/
theorem started_of_step (hrefines : Refines c s.cluster p) {a : Action} {t : ClusterState}
    (hrefines' : Refines c t p') (hstep : NanoDB.Raft.step c s.cluster a = some t) :
    ∀ call ∈ s.started a, call ∈ t.proposals ∧ StartedAfter p.2 call := by
  intro call hmem
  unfold ProposeState.started at hmem
  split at hmem
  · rename_i n command
    rw [Option.mem_toList, Option.map_eq_some_iff] at hmem
    obtain ⟨⟨node, call'⟩, hcall, rfl⟩ := hmem
    cases step_cases hstep with
    | propose hn hcall' =>
        rw [hcall, Option.some.injEq, Prod.mk.injEq] at hcall'
        obtain ⟨rfl, rfl⟩ := hcall'
        refine ⟨List.mem_cons_self, (started_recorded hrefines hrefines' hcall ?_).2⟩
        exact Function.update_self ..
    | proposeRefused hrole => exact absurd (propose_eq_some hcall).1 hrole
  · cases hmem

theorem pairwise_started (s : ProposeState) (a : Action) : (s.started a).Pairwise Apart := by
  unfold ProposeState.started
  split
  · generalize Option.map _ _ = started
    cases started with
    | none => exact List.Pairwise.nil
    | some call => exact List.pairwise_singleton _ _
  · exact List.Pairwise.nil

/-- A step of the cluster. -/
theorem step_cluster (hinv : ProposedInv c s p committed) {a : Action} {t : ClusterState}
    (hok : Replicating s.cluster a) (hstep : NanoDB.Raft.step c s.cluster a = some t) :
    ∃ p', p.2.Extends p'.2 ∧
      ProposedInv c { s with cluster := t, pending := s.started a ++ s.pending } p'
        (recordCommitted c s.cluster a committed) ∧
      ∀ call ∈ s.started a, StartedAfter p.2 call := by
  obtain ⟨p', hsteps, hlog⟩ := hinv.log.step hok hstep
  have hext := (whole_steps_safety hsteps hinv.log.refines.1).2
  have hnew := started_of_step hinv.log.refines hlog.refines hstep
  have hprefix : committed <+: recordCommitted c s.cluster a committed := by
    rw [recordCommitted, hstep]
    exact prefix_foldl_extendCommitted _ _
  refine ⟨p', hext, ⟨hlog, fun call hcall => ?_, ?_, fun call hcall => ?_, fun call hcall => ?_⟩,
    fun call hcall => (hnew call hcall).2⟩
  · rw [ProposeState.calls, List.append_assoc, List.mem_append] at hcall
    rcases hcall with hcall | hcall
    · exact (hnew call hcall).1
    · exact proposals_subset_of_step hstep (hinv.proposed call hcall)
  · rw [ProposeState.calls, List.append_assoc, List.pairwise_append]
    refine ⟨pairwise_started s a, hinv.apart, fun call hcall old hold => ?_⟩
    exact (hnew call hcall).2.apart (hinv.recorded hold)
  · exact (hinv.certified call hcall).mono hext le_rfl (hext.lead call.term)
  · exact (hinv.reached call hcall).trans hprefix.length_le

/-- A call that decides to return is certified, and inside the committed log. -/
theorem of_poll (hinv : ProposedInv c s p committed) {i : Nat} {call : ProposeCall}
    (hcall : s.pending[i]? = some call)
    (hpoll : (s.cluster.node call.nodeId).proposePoll call = some true) :
    ProposedInv c { s with pending := s.pending.eraseIdx i, returned := call :: s.returned } p
      committed := by
  have hperm := perm_of_return s.returned hcall
  obtain ⟨hcert, hreached⟩ := hinv.log.certified_of_poll hpoll
  refine ⟨hinv.log, fun old hmem => hinv.proposed old (hperm.subset hmem),
    (hperm.pairwise_iff fun h => h.symm).mpr hinv.apart, ?_, ?_⟩
  · rw [List.forall_mem_cons]
    exact ⟨hcert, hinv.certified⟩
  · rw [List.forall_mem_cons]
    exact ⟨hreached, hinv.reached⟩

/-- **Step lemma.**  Every step keeps the invariant, and the calls that it starts were not in
the log of their leader before. -/
theorem step (hinv : ProposedInv c s p committed) {a : ProposeAction}
    (hok : OnCluster Replicating s a) (hstep : s.step c a = some s') :
    ∃ p', p.2.Extends p'.2 ∧ ProposedInv c s' p' (recordProposed c s a committed) ∧
      ∀ call ∈ s'.calls, call ∈ s.calls ∨ StartedAfter p.2 call := by
  cases a with
  | cluster a =>
      simp only [ProposeState.step, Option.map_eq_some_iff] at hstep
      obtain ⟨t, hstep, rfl⟩ := hstep
      obtain ⟨p', hext, hinv', hnew⟩ := hinv.step_cluster hok hstep
      refine ⟨p', hext, hinv', fun call hcall => ?_⟩
      rw [ProposeState.calls, List.append_assoc, List.mem_append] at hcall
      exact hcall.symm.imp_right (hnew call)
  | poll i =>
      simp only [ProposeState.step] at hstep
      refine ⟨p, Ledger.Extends.refl p.2, ?_⟩
      split at hstep
      · cases hstep
      · next call hcall =>
          split at hstep
          · next hpoll =>
              cases hstep
              exact ⟨hinv.of_poll hcall hpoll, fun call hmem =>
                .inl ((perm_of_return s.returned hcall).subset hmem)⟩
          · cases hstep
            exact ⟨hinv.of_erase i, fun call hmem =>
              .inl (((List.eraseIdx_sublist s.pending i).append_right s.returned).subset hmem)⟩
          · cases hstep
            exact ⟨hinv, fun call hmem => .inl hmem⟩
  | timeout i =>
      simp only [ProposeState.step, Option.ite_none_right_eq_some, Option.some.injEq] at hstep
      obtain ⟨-, rfl⟩ := hstep
      exact ⟨p, Ledger.Extends.refl p.2, hinv.of_erase i, fun call hmem =>
        .inl (((List.eraseIdx_sublist s.pending i).append_right s.returned).subset hmem)⟩

/-- The committed log has the command of a returned call at its index. -/
theorem committed_getElem? (hinv : ProposedInv c s p committed) {call : ProposeCall}
    (hcall : call ∈ s.returned) : committed[call.index - 1]? = some call.command :=
  hinv.log.committed_getElem? (hinv.proposed call (List.mem_append_right _ hcall))
    (hinv.certified call hcall) (hinv.reached call hcall)

/-- All returned calls have different indices. -/
theorem nodup (hinv : ProposedInv c s p committed) : (s.returned.map (·.index)).Nodup := by
  rw [List.Nodup, List.pairwise_map]
  have hapart := (List.pairwise_append.mp hinv.apart).2.1
  refine hapart.imp_of_mem fun {a b} ha hb hab hindex => ?_
  have hterm := term_eq_of_index_eq hinv.log.refines.1
    (hinv.recorded (List.mem_append_right _ ha)) (hinv.recorded (List.mem_append_right _ hb))
    (hinv.certified a ha) (hinv.certified b hb) hindex
  exact hab hterm hindex

end ProposedInv

/-! ## Runs -/

section Run

variable {c : Membership} {q q' : ProposeState × List Bytes} {as : List ProposeAction}

/-- **Run lemma.**  The invariant holds at the end of a run as at its start, and the calls of
the end that are not calls of the start were not in the log of their leader at the start. -/
theorem ProposedInv.run {p : ClusterState × History}
    (hrun : Exec (proposingStep c) (fun q a => OnCluster Replicating q.1 a) q as q')
    (hinv : ProposedInv c q.1 p q.2) :
    ∃ p', p.2.Extends p'.2 ∧ ProposedInv c q'.1 p' q'.2 ∧
      ∀ call ∈ q'.1.calls, call ∈ q.1.calls ∨ StartedAfter p.2 call := by
  induction hrun generalizing p with
  | nil q => exact ⟨p, Ledger.Extends.refl p.2, hinv, fun call hcall => .inl hcall⟩
  | cons hok hstep _ ih =>
      obtain ⟨hs, hrecord⟩ := instrument_eq_some.mp hstep
      obtain ⟨p₁, hext, hinv₁, hcalls⟩ := hinv.step hok hs
      rw [← hrecord] at hinv₁
      obtain ⟨p', hext', hinv', hcalls'⟩ := ih hinv₁
      refine ⟨p', hext.trans hext', hinv', fun call hcall => ?_⟩
      rcases hcalls' call hcall with hmid | hstarted
      · exact hcalls call hmid
      · exact .inr (hstarted.anti hext)

theorem recordProposed_isPrefix {s s' : ProposeState} {a : ProposeAction} (committed : List Bytes)
    (hstep : s.step c a = some s') : committed <+: recordProposed c s a committed := by
  cases a with
  | cluster a =>
      simp only [ProposeState.step, Option.map_eq_some_iff] at hstep
      obtain ⟨t, hstep, -⟩ := hstep
      rw [recordProposed, recordCommitted, hstep]
      exact prefix_foldl_extendCommitted _ _
  | poll i => exact List.prefix_rfl
  | timeout i => exact List.prefix_rfl

theorem proposing_isPrefix {ok : ProposeState × List Bytes → ProposeAction → Prop}
    (hrun : Exec (proposingStep c) ok q as q') : q.2 <+: q'.2 := by
  refine hrun.relation (fun _ => True) (fun q q' => q.2 <+: q'.2) (fun _ => List.prefix_rfl)
    (fun _ _ _ => List.IsPrefix.trans) (fun _ _ _ _ _ _ => trivial) ?_ trivial
  intro q a q' _ _ hstep
  obtain ⟨hs, hrecord⟩ := instrument_eq_some.mp hstep
  rw [hrecord]
  exact recordProposed_isPrefix q.2 hs

end Run

/-- **Proposals are linearizable.**  In every careful run that proposes no empty command there
is one committed log, which only grows and of which every member has applied the part between
its snapshot and its last applied index.  It holds the command of every returned call at the
call's index, returned calls have different indices, and a returned call that was not there
when another had returned has a larger index than that one. -/
theorem proposals_linearise (c : Membership) {as as' : List ProposeAction} {s s' : ProposeState}
    {committed committed' : List Bytes}
    (hrun : Exec (proposingStep c) (fun q a => OnCluster Replicating q.1 a)
      (ProposeState.init c, []) as (s, committed))
    (hrun' : Exec (proposingStep c) (fun q a => OnCluster Replicating q.1 a) (s, committed) as'
      (s', committed')) :
    committed <+: committed' ∧ (∀ n ∈ c.peers, AppliedPart committed' (s'.cluster.node n)) ∧
      (∀ call ∈ s'.returned, committed'[call.index - 1]? = some call.command) ∧
      (s'.returned.map (·.index)).Nodup ∧
      ∀ a ∈ s.returned, ∀ b ∈ s'.returned, b ∉ s.calls → a.index < b.index := by
  obtain ⟨p, -, hinv, -⟩ := ProposedInv.run hrun (ProposedInv.init c)
  obtain ⟨p', hext, hinv', hcalls⟩ := ProposedInv.run hrun' hinv
  refine ⟨proposing_isPrefix hrun', fun n hn => hinv'.log.appliedPart hn,
    fun call hcall => hinv'.committed_getElem? hcall, hinv'.nodup, fun a ha b hb hnew => ?_⟩
  have hmem := List.mem_append_right s'.pending hb
  exact index_lt_of_started hinv.log.refines.1 hinv'.log.refines.1 hext (hinv.certified a ha)
    (hinv'.recorded hmem) (hinv'.certified b hb) ((hcalls b hmem).resolve_left hnew)

/-- The second call of node 0 returns after node 2 has installed a snapshot. -/
def firstReturn : List ProposeAction :=
  compactThenInstall.map .cluster ++ [.poll 0]

/-- Node 2 has restarted on its snapshot and commits its first entry with node 1. -/
def commitElsewhere : List Action :=
  [.propose 2 [99], .replicate 2, .sendCheck 2 ⟨2, 1, 3⟩, .sendAppendEntries 2 ⟨2, 1, 3⟩,
    .handleAppendEntries 1 ⟨2, 2, 2, 1, [⟨2, 3, [99]⟩], 1⟩,
    .handleAppendEntriesReply 1 ⟨2, 2, 2, 1, [⟨2, 3, [99]⟩], 1⟩ ⟨2, true⟩]

/-- The call on node 2 returns. -/
def returnElsewhere : List ProposeAction :=
  (electionOnSnapshot ++ commitElsewhere).map .cluster ++ [.poll 0]

theorem proposals_linearise_returnElsewhere :
    ∃ q q', Exec (proposingStep threeNodes) (fun q a => OnCluster Replicating q.1 a)
        (ProposeState.init threeNodes, []) firstReturn q ∧
      Exec (proposingStep threeNodes) (fun q a => OnCluster Replicating q.1 a) q
        returnElsewhere q' ∧
      q.1.returned = [⟨0, 1, 2, [98]⟩] ∧
      q'.1.returned = [⟨2, 2, 3, [99]⟩, ⟨0, 1, 2, [98]⟩] ∧ q'.2 = [[97], [98], [99]] ∧
      ∀ a ∈ q.1.returned, ∀ b ∈ q'.1.returned, b ∉ q.1.calls → a.index < b.index := by
  have hrun := Exec.of_guardedRun (proposingStep threeNodes)
    (fun q a => OnCluster Replicating q.1 a) (ProposeState.init threeNodes, []) firstReturn
    (by decide +kernel)
  have hrun' := Exec.of_guardedRun (proposingStep threeNodes)
    (fun q a => OnCluster Replicating q.1 a)
    ((guardedRun (proposingStep threeNodes) (fun q a => OnCluster Replicating q.1 a)
      (ProposeState.init threeNodes, []) firstReturn).get (by decide +kernel))
    returnElsewhere (by decide +kernel)
  have horder := (proposals_linearise threeNodes hrun hrun').2.2.2.2
  exact ⟨_, _, hrun, hrun', by decide +kernel, by decide +kernel, by decide +kernel, horder⟩

end NanoDB.Raft
