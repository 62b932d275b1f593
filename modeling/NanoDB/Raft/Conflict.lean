import NanoDB.Raft.LogMatching

/-!
# Which entries a request removes

Raft deletes an entry of a follower only when an entry of the request conflicts with it or
with one before it.  {lit}`handle_append_entries` does not compare: it cuts the log behind
{lit}`prev_log_index` whenever the request has entries.  A request that arrives late and
ends before the log does takes matching entries away.

Main results:

- Theorem {lit}`entryAt_acceptedLog`: the entries of a log after an accepted request.
- Theorem {lit}`removes_only_conflicts_iff`: when an accepted request removes conflicting
  entries only.
-/

namespace NanoDB.Raft

open RaftNode

namespace RaftLog

/-! ## Entries by absolute index -/

/-- The stored entry at an absolute index; none inside the snapshot. -/
def entryAt (log : RaftLog) (index : Nat) : Option PersistedEntry :=
  if index ≤ log.snapshotLastIndex then none
  else log.entries[index - 1 - log.snapshotLastIndex]?

theorem entryAt_isSome_iff {log : RaftLog} {index : Nat} :
    (log.entryAt index).isSome = true ↔ log.snapshotLastIndex < index ∧ index ≤ log.lastIndex := by
  rw [entryAt, lastIndex]
  split
  · simp only [Option.isSome_none, Bool.false_eq_true, false_iff]
    omega
  · rw [isSome_getElem?]
    omega

/-- The snapshot and the entries by index are the whole log. -/
theorem eq_of_entryAt {log log' : RaftLog} (hindex : log'.snapshotLastIndex = log.snapshotLastIndex)
    (hterm : log'.snapshotLastTerm = log.snapshotLastTerm)
    (hdata : log'.snapshotData = log.snapshotData)
    (hentry : ∀ i, log'.entryAt i = log.entryAt i) : log' = log := by
  have hentries : log'.entries = log.entries := by
    ext1 k
    have hk := hentry (log.snapshotLastIndex + 1 + k)
    have hpos : log.snapshotLastIndex + 1 + k - 1 - log.snapshotLastIndex = k := by omega
    rwa [entryAt, entryAt, hindex, if_neg (by omega), if_neg (by omega), hpos] at hk
  rcases log with ⟨entries, snapshotLastIndex, snapshotLastTerm, snapshotData⟩
  rcases log' with ⟨entries', snapshotLastIndex', snapshotLastTerm', snapshotData'⟩
  simp only at hindex hterm hdata hentries
  rw [hindex, hterm, hdata, hentries]

end RaftLog

/-! ## Requests -/

/-- The entry that a request has for an absolute index. -/
def requestEntryAt (req : AppendEntriesRequest) (index : Nat) : Option PersistedEntry :=
  if index ≤ req.prevLogIndex then none else (newEntries req)[index - 1 - req.prevLogIndex]?

/-- The request and the log have entries of different terms at an index behind the
snapshot. -/
def conflictsAt (log : RaftLog) (req : AppendEntriesRequest) (index : Nat) : Prop :=
  ∃ held new, log.entryAt index = some held ∧ requestEntryAt req index = some new ∧
    held.term ≠ new.term

theorem requestEntryAt_isSome_iff {req : AppendEntriesRequest} {index : Nat} :
    (requestEntryAt req index).isSome = true ↔
      req.prevLogIndex < index ∧ index ≤ req.prevLogIndex + req.entries.length := by
  rw [requestEntryAt]
  split
  · simp only [Option.isSome_none, Bool.false_eq_true, false_iff]
    omega
  · rw [isSome_getElem?, length_newEntries]
    omega

/-- An accepted request does not start behind the end of the log. -/
theorem prevLogIndex_le_of_prevMatches {node : RaftNode} {req : AppendEntriesRequest}
    (h : node.prevMatches req = true) (hlt : node.log.snapshotLastIndex < req.prevLogIndex) :
    req.prevLogIndex ≤ node.log.lastIndex := by
  rw [prevMatches, if_pos (by omega), if_pos hlt, Bool.and_eq_true, RaftLog.hasRealEntryAt,
    Bool.and_eq_true, decide_eq_true_eq, decide_eq_true_eq] at h
  exact h.1.2

theorem acceptedLog_of_entries_eq_nil {req : AppendEntriesRequest} (h : req.entries = [])
    (log : RaftLog) : acceptedLog log req = log := by
  rw [acceptedLog, if_pos (by simp [newEntries, h])]

@[simp]
theorem snapshotLastIndex_acceptedLog (log : RaftLog) (req : AppendEntriesRequest) :
    (acceptedLog log req).snapshotLastIndex = log.snapshotLastIndex := by
  unfold acceptedLog
  split <;> rfl

/-- The stored entries after a request with entries. -/
theorem entries_acceptedLog {req : AppendEntriesRequest} (hne : req.entries ≠ [])
    (log : RaftLog) : (acceptedLog log req).entries =
      log.entries.take (req.prevLogIndex - log.snapshotLastIndex) ++
        (newEntries req).drop (log.snapshotLastIndex - req.prevLogIndex) := by
  have hnew : newEntries req ≠ [] := by simpa [newEntries] using hne
  rw [acceptedLog, if_neg hnew, RaftLog.truncateAndAppend_entries]

/-- The entries of the log after an accepted request with entries: those up to
{lit}`prev_log_index`, then those of the request. -/
theorem entryAt_acceptedLog {node : RaftNode} {req : AppendEntriesRequest}
    (hprev : node.prevMatches req = true) (hne : req.entries ≠ []) {index : Nat}
    (hindex : node.log.snapshotLastIndex < index) :
    (acceptedLog node.log req).entryAt index =
      if index ≤ req.prevLogIndex then node.log.entryAt index else requestEntryAt req index := by
  have hle := prevLogIndex_le_of_prevMatches hprev
  rw [RaftLog.lastIndex] at hle
  rw [RaftLog.entryAt, snapshotLastIndex_acceptedLog, if_neg (by omega), entries_acceptedLog hne]
  split
  · next hkept =>
      rw [List.getElem?_append_left (by rw [List.length_take]; omega),
        List.getElem?_take_of_lt (by omega), RaftLog.entryAt, if_neg (by omega)]
  · next hsent =>
      have hlen : (node.log.entries.take (req.prevLogIndex - node.log.snapshotLastIndex)).length =
          req.prevLogIndex - node.log.snapshotLastIndex := by
        rw [List.length_take]
        omega
      rw [List.getElem?_append_right (by omega), hlen, List.getElem?_drop, requestEntryAt,
        if_neg hsent]
      congr 1
      omega

/-! ## Removing conflicts only -/

/-- What Raft asks of an accepted request that leaves {lit}`log'` of {lit}`log`. -/
structure RemovesOnlyConflicts (log : RaftLog) (req : AppendEntriesRequest) (log' : RaftLog) :
    Prop where
  conflict : ∀ i held, log.entryAt i = some held → log'.entryAt i ≠ some held →
    ∃ j ≤ i, conflictsAt log req j
  present : (∀ i new, log.snapshotLastIndex < i → requestEntryAt req i = some new →
    log.entryAt i = some new) → log' = log

/-- The request has no entries; or the log does not reach behind it or conflicts with it,
and before the first conflict entries of one term are the same. -/
def CoversLog (log : RaftLog) (req : AppendEntriesRequest) : Prop :=
  req.entries = [] ∨
    ((log.lastIndex ≤ max log.snapshotLastIndex (req.prevLogIndex + req.entries.length) ∨
        ∃ j, conflictsAt log req j) ∧
      ∀ i held new, log.entryAt i = some held → requestEntryAt req i = some new →
        held.term = new.term → held ≠ new → ∃ j < i, conflictsAt log req j)

theorem conflictsAt_bounds {log : RaftLog} {req : AppendEntriesRequest} {j : Nat}
    (h : conflictsAt log req j) : j ≤ req.prevLogIndex + req.entries.length := by
  rcases h with ⟨held, new, -, hnew, -⟩
  exact (requestEntryAt_isSome_iff.mp (by rw [hnew]; rfl)).2

section Accepted

variable {node : RaftNode} {req : AppendEntriesRequest} (hprev : node.prevMatches req = true)
include hprev

/-- A request that covers the log changes an entry only at or behind a conflict. -/
theorem conflict_of_changed (hcovers : CoversLog node.log req) {i : Nat} {held : PersistedEntry}
    (hheld : node.log.entryAt i = some held)
    (hchanged : (acceptedLog node.log req).entryAt i ≠ some held) :
    ∃ j ≤ i, conflictsAt node.log req j := by
  by_cases hne : req.entries = []
  · rw [acceptedLog_of_entries_eq_nil hne] at hchanged
    exact absurd hheld hchanged
  · rcases hcovers.resolve_left hne with ⟨hreach, hsame⟩
    have hbounds := RaftLog.entryAt_isSome_iff.mp (by rw [hheld]; rfl)
    rw [entryAt_acceptedLog hprev hne hbounds.1] at hchanged
    split at hchanged
    · exact absurd hheld hchanged
    · next hsent =>
        cases hnew : requestEntryAt req i with
        | none =>
            -- The entry stood behind the request.
            have hbehind : req.prevLogIndex + req.entries.length < i := by
              by_contra hin
              have hsome := requestEntryAt_isSome_iff.mpr
                (⟨by omega, by omega⟩ : req.prevLogIndex < i ∧ _)
              rw [hnew] at hsome
              contradiction
            rcases hreach with hend | ⟨j, hj⟩
            · omega
            · have := conflictsAt_bounds hj
              exact ⟨j, by omega, hj⟩
        | some new =>
            by_cases hterm : held.term = new.term
            · have hdiff : held ≠ new := by
                rintro rfl
                exact hchanged hnew
              rcases hsame i held new hheld hnew hterm hdiff with ⟨j, hlt, hj⟩
              exact ⟨j, hlt.le, hj⟩
            · exact ⟨i, le_rfl, held, new, hheld, hnew, hterm⟩

/-- A request that covers the log and has nothing new leaves it alone. -/
theorem acceptedLog_of_present (hcovers : CoversLog node.log req)
    (hpresent : ∀ i new, node.log.snapshotLastIndex < i → requestEntryAt req i = some new →
      node.log.entryAt i = some new) : acceptedLog node.log req = node.log := by
  by_cases hne : req.entries = []
  · exact acceptedLog_of_entries_eq_nil hne node.log
  · have hnew : newEntries req ≠ [] := by simpa [newEntries] using hne
    have hlog : acceptedLog node.log req =
        node.log.truncateAndAppend req.prevLogIndex (newEntries req) := by
      rw [acceptedLog, if_neg hnew]
    have hnone : ∀ j, ¬ conflictsAt node.log req j := by
      rintro j ⟨held, new, hheld, hsent, hterm⟩
      have hbounds := RaftLog.entryAt_isSome_iff.mp (by rw [hheld]; rfl)
      rw [hpresent j new hbounds.1 hsent, Option.some_inj] at hheld
      exact hterm (congrArg PersistedEntry.term hheld.symm)
    refine RaftLog.eq_of_entryAt (by rw [hlog]; rfl) (by rw [hlog]; rfl) (by rw [hlog]; rfl) ?_
    intro i
    cases hheld : node.log.entryAt i with
    | some held =>
        by_contra hchanged
        rcases conflict_of_changed hprev hcovers hheld hchanged with ⟨j, -, hj⟩
        exact hnone j hj
    | none =>
        rcases Nat.lt_or_ge node.log.snapshotLastIndex i with hlt | hge
        · rw [entryAt_acceptedLog hprev hne hlt]
          split
          · exact hheld
          · cases hsent : requestEntryAt req i with
            | none => rfl
            | some new =>
                rw [hpresent i new hlt hsent] at hheld
                contradiction
        · rw [hlog]
          exact if_pos hge

/-- A request that ends before a log without a conflict takes the last entry away. -/
theorem lastIndex_le_or_conflict (hne : req.entries ≠ [])
    (hconflict : ∀ i held, node.log.entryAt i = some held →
      (acceptedLog node.log req).entryAt i ≠ some held → ∃ j ≤ i, conflictsAt node.log req j) :
    node.log.lastIndex ≤ max node.log.snapshotLastIndex (req.prevLogIndex + req.entries.length) ∨
      ∃ j, conflictsAt node.log req j := by
  by_contra hreach
  rw [not_or, not_exists] at hreach
  rcases hreach with ⟨hend, hnone⟩
  have hsome : (node.log.entryAt node.log.lastIndex).isSome = true :=
    RaftLog.entryAt_isSome_iff.mpr ⟨by omega, le_rfl⟩
  rcases Option.isSome_iff_exists.mp hsome with ⟨held, hheld⟩
  have hbehind : requestEntryAt req node.log.lastIndex = none := by
    rw [← Option.not_isSome_iff_eq_none, requestEntryAt_isSome_iff]
    omega
  have hchanged : (acceptedLog node.log req).entryAt node.log.lastIndex ≠ some held := by
    rw [entryAt_acceptedLog hprev hne (by omega), if_neg (by omega), hbehind]
    exact (Option.some_ne_none held).symm
  rcases hconflict _ held hheld hchanged with ⟨j, -, hj⟩
  exact hnone j hj

/-- Two different entries of one index and term are a change without a conflict there, so
there is one before. -/
theorem exists_earlier_conflict (hne : req.entries ≠ [])
    (hconflict : ∀ i held, node.log.entryAt i = some held →
      (acceptedLog node.log req).entryAt i ≠ some held → ∃ j ≤ i, conflictsAt node.log req j)
    {i : Nat} {held new : PersistedEntry} (hheld : node.log.entryAt i = some held)
    (hnew : requestEntryAt req i = some new) (hterm : held.term = new.term) (hdiff : held ≠ new) :
    ∃ j < i, conflictsAt node.log req j := by
  have hbounds := RaftLog.entryAt_isSome_iff.mp (by rw [hheld]; rfl)
  have hsent := requestEntryAt_isSome_iff.mp (by rw [hnew]; rfl)
  have hchanged : (acceptedLog node.log req).entryAt i ≠ some held := by
    rw [entryAt_acceptedLog hprev hne hbounds.1, if_neg (by omega), hnew, ne_eq, Option.some_inj]
    exact fun heq => hdiff heq.symm
  rcases hconflict i held hheld hchanged with ⟨j, hle, hj⟩
  refine ⟨j, lt_of_le_of_ne hle ?_, hj⟩
  rintro rfl
  rcases hj with ⟨held', new', hheld', hnew', hterm'⟩
  rw [hheld, Option.some_inj] at hheld'
  rw [hnew, Option.some_inj] at hnew'
  rw [← hheld', ← hnew'] at hterm'
  exact hterm' hterm

end Accepted

/-- For every follower and every request that it accepts. -/
theorem removes_only_conflicts_iff (node : RaftNode) (req : AppendEntriesRequest)
    (haccepted : (node.handleAppendEntries req).2.success = true) :
    RemovesOnlyConflicts node.log req (node.handleAppendEntries req).1.log ↔
      CoversLog node.log req := by
  rcases LogInv.accepted_frame haccepted with ⟨-, hprev, hlog, -, -⟩
  rw [hlog]
  constructor
  · rintro ⟨hconflict, -⟩
    by_cases hne : req.entries = []
    · exact .inl hne
    · refine .inr ⟨lastIndex_le_or_conflict hprev hne hconflict, ?_⟩
      intro i held new hheld hnew hterm hdiff
      exact exists_earlier_conflict hprev hne hconflict hheld hnew hterm hdiff
  · intro hcovers
    constructor
    · intro i held hheld hchanged
      exact conflict_of_changed hprev hcovers hheld hchanged
    · intro hpresent
      exact acceptedLog_of_present hprev hcovers hpresent

/-- A follower of term 1 with the given entries. -/
def followerWith (entries : List PersistedEntry) : RaftNode where
  nodeId := 2
  peers := [1, 2]
  state := ⟨1, -1⟩
  log := { entries := entries }

/-- A request of term 1 that starts at the first entry. -/
def requestFromStart (entries : List LogEntry) : AppendEntriesRequest :=
  ⟨1, 1, 0, 0, entries, 0⟩

/-- A request that repeats an entry and has one more. -/
theorem removes_only_conflicts_iff_longer :
    ((followerWith [⟨1, [97]⟩]).handleAppendEntries
        (requestFromStart [⟨1, 1, [97]⟩, ⟨1, 2, [98]⟩])).2.success = true ∧
      RemovesOnlyConflicts (followerWith [⟨1, [97]⟩]).log
        (requestFromStart [⟨1, 1, [97]⟩, ⟨1, 2, [98]⟩])
        ((followerWith [⟨1, [97]⟩]).handleAppendEntries
          (requestFromStart [⟨1, 1, [97]⟩, ⟨1, 2, [98]⟩])).1.log := by
  refine ⟨by decide, (removes_only_conflicts_iff _ _ (by decide)).mpr (.inr ⟨.inl (by decide), ?_⟩)⟩
  intro i held new hheld hnew _ hdiff
  have hbounds := RaftLog.entryAt_isSome_iff.mp (by rw [hheld]; rfl)
  have hone : i = 1 := by
    have hlo : 0 < i := hbounds.1
    have hhi : i ≤ 1 := hbounds.2
    omega
  subst hone
  have hheld' : (⟨1, [97]⟩ : PersistedEntry) = held := Option.some_inj.mp hheld
  have hnew' : (⟨1, [97]⟩ : PersistedEntry) = new := Option.some_inj.mp hnew
  exact absurd (hheld'.symm.trans hnew') hdiff

/-- A late request repeats the first of two entries, and the second is gone. -/
theorem late_request_removes_entry :
    ((followerWith [⟨1, [97]⟩, ⟨1, [98]⟩]).handleAppendEntries
        (requestFromStart [⟨1, 1, [97]⟩])).2.success = true ∧
      ((followerWith [⟨1, [97]⟩, ⟨1, [98]⟩]).handleAppendEntries
        (requestFromStart [⟨1, 1, [97]⟩])).1.log.entryAt 2 = none ∧
      ¬ RemovesOnlyConflicts (followerWith [⟨1, [97]⟩, ⟨1, [98]⟩]).log
        (requestFromStart [⟨1, 1, [97]⟩])
        ((followerWith [⟨1, [97]⟩, ⟨1, [98]⟩]).handleAppendEntries
          (requestFromStart [⟨1, 1, [97]⟩])).1.log := by
  refine ⟨by decide, by decide, ?_⟩
  intro hremoves
  have hsame := hremoves.present ?_
  · exact absurd hsame (by decide)
  · intro i new _ hnew
    have hbounds := requestEntryAt_isSome_iff.mp (by rw [hnew]; rfl)
    have hone : i = 1 := by
      have hlo : 0 < i := hbounds.1
      have hhi : i ≤ 0 + 1 := hbounds.2
      omega
    subst hone
    exact hnew

end NanoDB.Raft
