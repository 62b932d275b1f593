import Mathlib.Data.List.Basic

/-!
# The replicated log

A model of {lit}`RaftLog` and {lit}`PersistentState`.  All indices are absolute
and 1-based, also after a compaction: {lit}`snapshotLastIndex` entries are
covered by the snapshot and only the later ones are stored.  Terms and indices
are natural numbers; the source's 64-bit counters would need {lit}`2 ^ 64`
elections or entries to differ.

Main results:

- Theorem {lit}`truncateAndAppend_entries`: which entries a truncation keeps and pushes.
- Theorems {lit}`truncateAndAppend_of_noSnapshot` and
  {lit}`termAt_of_noSnapshot`: without a snapshot the mutators and accessors are
  plain list operations.
-/

namespace NanoDB.Raft

/-- A byte string, the model of {lit}`std::string`. -/
abbrev Bytes := List UInt8

/-- One stored log record. -/
structure PersistedEntry where
  term : Nat
  command : Bytes
deriving DecidableEq, Repr

/-- The term and vote that a node keeps on disk; {lit}`votedFor = -1` stands for
no vote. -/
structure PersistentState where
  currentTerm : Nat := 0
  votedFor : Int := -1
deriving DecidableEq, Repr

/-- The in-memory log together with its snapshot. -/
structure RaftLog where
  entries : List PersistedEntry := []
  snapshotLastIndex : Nat := 0
  snapshotLastTerm : Nat := 0
  snapshotData : Bytes := []
deriving DecidableEq, Repr

namespace RaftLog

/-! ## Accessors -/

/-- Highest index present, the snapshot's coverage included. -/
def lastIndex (log : RaftLog) : Nat :=
  log.snapshotLastIndex + log.entries.length

/-- Term of the highest index. -/
def lastTerm (log : RaftLog) : Nat :=
  match log.entries.getLast? with
  | some e => e.term
  | none => log.snapshotLastTerm

/-- Term at an absolute index: the snapshot's term inside the snapshot, 0 at
index 0 and beyond the end. -/
def termAt (log : RaftLog) (index : Nat) : Nat :=
  if index = 0 then 0
  else if index > log.lastIndex then 0
  else if index ≤ log.snapshotLastIndex then log.snapshotLastTerm
  else ((log.entries[index - 1 - log.snapshotLastIndex]?).map (·.term)).getD 0

/-- Whether the index is covered by the snapshot or by a stored entry. -/
def hasEntryAt (log : RaftLog) (index : Nat) : Bool :=
  decide (index ≥ 1) && decide (index ≤ log.lastIndex)

/-- Whether the index is covered by a stored entry. -/
def hasRealEntryAt (log : RaftLog) (index : Nat) : Bool :=
  decide (index > log.snapshotLastIndex) && decide (index ≤ log.lastIndex)

/-- Command at an absolute index; empty inside the snapshot and out of bounds. -/
def commandAt (log : RaftLog) (index : Nat) : Bytes :=
  if index < 1 ∨ index ≤ log.snapshotLastIndex ∨ index > log.lastIndex then []
  else ((log.entries[index - 1 - log.snapshotLastIndex]?).map (·.command)).getD []

/-! ## Mutations -/

/-- The entries that {lit}`truncate_and_append` pushes: the {lit}`j`-th new entry
has absolute index {lit}`absIdx + j` and is skipped inside the snapshot. -/
def pushAfterSnapshot (snapshotLastIndex : Nat) : Nat → List PersistedEntry → List PersistedEntry
  | _, [] => []
  | absIdx, e :: es =>
      if absIdx ≤ snapshotLastIndex then pushAfterSnapshot snapshotLastIndex (absIdx + 1) es
      else e :: pushAfterSnapshot snapshotLastIndex (absIdx + 1) es

/-- Keep the entries up to the absolute index {lit}`keepCount`, then append. -/
def truncateAndAppend (log : RaftLog) (keepCount : Nat) (newEntries : List PersistedEntry) :
    RaftLog :=
  let physicalKeep :=
    if keepCount > log.snapshotLastIndex then keepCount - log.snapshotLastIndex else 0
  let kept :=
    if physicalKeep < log.entries.length then log.entries.take physicalKeep else log.entries
  { log with
    entries := kept ++ pushAfterSnapshot log.snapshotLastIndex (keepCount + 1) newEntries }

/-- Append one entry. -/
def append (log : RaftLog) (term : Nat) (command : Bytes) : RaftLog :=
  { log with entries := log.entries ++ [⟨term, command⟩] }

/-- Replace the entries through {lit}`upToIndex` by a snapshot.  The index may lie
beyond the end of the log, as it does when a snapshot is installed. -/
def compact (log : RaftLog) (upToIndex snapshotTerm : Nat) (snapshotData : Bytes) : RaftLog :=
  if upToIndex ≤ log.snapshotLastIndex then log
  else
    let removeCount := min (upToIndex - log.snapshotLastIndex) log.entries.length
    { entries := log.entries.drop removeCount
      snapshotLastIndex := upToIndex
      snapshotLastTerm := snapshotTerm
      snapshotData := snapshotData }

/-! ## Entries after a truncation -/

/-- The entries that a truncation pushes are those behind the snapshot. -/
theorem pushAfterSnapshot_eq_drop (snapshotLastIndex absIdx : Nat) (es : List PersistedEntry) :
    pushAfterSnapshot snapshotLastIndex absIdx es = es.drop (snapshotLastIndex + 1 - absIdx) := by
  induction es generalizing absIdx with
  | nil => simp [pushAfterSnapshot]
  | cons e es ih =>
      rw [pushAfterSnapshot]
      split_ifs with hle
      · rw [ih, show snapshotLastIndex + 1 - absIdx = snapshotLastIndex + 1 - (absIdx + 1) + 1 by
          omega, List.drop_succ_cons]
      · rw [ih, show snapshotLastIndex + 1 - absIdx = 0 by omega,
          show snapshotLastIndex + 1 - (absIdx + 1) = 0 by omega]
        rfl

/-- The entries after a truncation: what is kept behind the snapshot, then what is
pushed behind it. -/
theorem truncateAndAppend_entries (log : RaftLog) (keepCount : Nat)
    (newEntries : List PersistedEntry) :
    (log.truncateAndAppend keepCount newEntries).entries =
      log.entries.take (keepCount - log.snapshotLastIndex) ++
        newEntries.drop (log.snapshotLastIndex - keepCount) := by
  have hkeep : (if keepCount > log.snapshotLastIndex then keepCount - log.snapshotLastIndex
      else 0) = keepCount - log.snapshotLastIndex := by
    split_ifs <;> omega
  simp only [truncateAndAppend, hkeep, pushAfterSnapshot_eq_drop, Nat.add_sub_add_right]
  congr 1
  split_ifs with hlt
  · rfl
  · rw [List.take_of_length_le (by omega)]

/-! ## Logs without a snapshot -/

/-- The log was never compacted. -/
def NoSnapshot (log : RaftLog) : Prop :=
  log.snapshotLastIndex = 0 ∧ log.snapshotLastTerm = 0

@[simp]
theorem append_entries (log : RaftLog) (term : Nat) (command : Bytes) :
    (log.append term command).entries = log.entries ++ [⟨term, command⟩] :=
  rfl

theorem NoSnapshot.append {log : RaftLog} (h : log.NoSnapshot) (term : Nat) (command : Bytes) :
    (log.append term command).NoSnapshot :=
  h

theorem NoSnapshot.truncateAndAppend {log : RaftLog} (h : log.NoSnapshot) (keepCount : Nat)
    (newEntries : List PersistedEntry) :
    (log.truncateAndAppend keepCount newEntries).NoSnapshot :=
  h

theorem lastIndex_of_noSnapshot {log : RaftLog} (h : log.NoSnapshot) :
    log.lastIndex = log.entries.length := by
  simp [lastIndex, h.1]

/-- Without a snapshot the last term is that of the last stored entry. -/
theorem lastTerm_of_noSnapshot {log : RaftLog} (h : log.NoSnapshot) :
    log.lastTerm = (log.entries.getLast?.map (·.term)).getD 0 := by
  unfold lastTerm
  cases log.entries.getLast? with
  | none => simp [h.2]
  | some e => rfl

/-- Without a snapshot {lit}`termAt` reads the entry list. -/
theorem termAt_of_noSnapshot {log : RaftLog} (h : log.NoSnapshot) {index : Nat}
    (hpos : 0 < index) : log.termAt index = ((log.entries[index - 1]?).map (·.term)).getD 0 := by
  unfold termAt
  rw [if_neg (by omega), lastIndex_of_noSnapshot h, h.1]
  split_ifs with hbound hzero
  · rw [List.getElem?_eq_none (by omega)]
    rfl
  · omega
  · rfl

/-- Without a snapshot {lit}`commandAt` reads the entry list. -/
theorem commandAt_of_noSnapshot {log : RaftLog} (h : log.NoSnapshot) {index : Nat}
    (hpos : 0 < index) :
    log.commandAt index = ((log.entries[index - 1]?).map (·.command)).getD [] := by
  unfold commandAt
  rw [lastIndex_of_noSnapshot h, h.1]
  split_ifs with hbound
  · rw [List.getElem?_eq_none (by omega)]
    rfl
  · rfl

/-- Without a snapshot the truncation keeps a prefix and appends everything. -/
theorem truncateAndAppend_of_noSnapshot {log : RaftLog} (h : log.NoSnapshot) (keepCount : Nat)
    (newEntries : List PersistedEntry) :
    (log.truncateAndAppend keepCount newEntries).entries =
      log.entries.take keepCount ++ newEntries := by
  rw [truncateAndAppend_entries, h.1, Nat.sub_zero, Nat.zero_sub, List.drop_zero]

end RaftLog

end NanoDB.Raft
