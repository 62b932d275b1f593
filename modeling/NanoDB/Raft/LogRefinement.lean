import Mathlib.Tactic.IntervalCases
import NanoDB.Lib.Execution
import NanoDB.Raft.LogFile

/-!
# A compacted log refines the plain list

The log as it would be had nothing ever been compacted is a plain list of entries:
entry {lit}`i` is at position {lit}`i - 1`.  A {lit}`RaftLog` and a plain list go
through the same mutations, except that the list ignores compactions.  The log then
holds exactly the part of the list behind the snapshot.

Main results:

- Theorem {lit}`Represents.mutate`: one mutation keeps the two in step.
- Theorem {lit}`mutations_agree`: after every sequence of mutations the accessors of
  the log agree with the plain list.
-/

namespace NanoDB.Raft

open NanoDB.Lib

namespace PlainLog

/-- The term at a 1-based index, 0 at index 0 and beyond the end. -/
def termAt (ref : List PersistedEntry) (index : Nat) : Nat :=
  if index = 0 then 0 else ((ref[index - 1]?).map (·.term)).getD 0

/-- The command at a 1-based index, empty at index 0 and beyond the end. -/
def commandAt (ref : List PersistedEntry) (index : Nat) : Bytes :=
  if index = 0 then [] else ((ref[index - 1]?).map (·.command)).getD []

/-- Whether the list has an entry at a 1-based index. -/
def hasEntryAt (ref : List PersistedEntry) (index : Nat) : Bool :=
  decide (1 ≤ index) && decide (index ≤ ref.length)

/-- The term of the last entry, 0 for the empty list. -/
def lastTerm (ref : List PersistedEntry) : Nat :=
  termAt ref ref.length

/-- The mutations on a plain list. -/
def mutate (ref : List PersistedEntry) : RaftLog.Mutation → List PersistedEntry
  | .append term command => ref ++ [⟨term, command⟩]
  | .truncateAndAppend keepCount newEntries => ref.take keepCount ++ newEntries
  | .compact _ _ _ => ref

/-- The term at an index depends on the entries up to it. -/
theorem termAt_congr {ref ref' : List PersistedEntry} {index : Nat}
    (h : 0 < index → ref'[index - 1]? = ref[index - 1]?) :
    termAt ref' index = termAt ref index := by
  unfold termAt
  split_ifs with hzero
  · rfl
  · rw [h (by omega)]

end PlainLog

namespace RaftLog

/-- Which calls are made: a truncation keeps at most the whole log and, below the
snapshot, brings along what the snapshot covers; a compaction moves the snapshot
forward inside the log and stores the term found there. -/
def Allowed (s : RaftLog × List PersistedEntry) : Mutation → Prop
  | .append _ _ => True
  | .truncateAndAppend keepCount newEntries =>
      keepCount ≤ s.1.lastIndex ∧
        (keepCount < s.1.snapshotLastIndex →
          s.1.snapshotLastIndex ≤ keepCount + newEntries.length ∧
          ∀ index, keepCount < index → index ≤ s.1.snapshotLastIndex →
            newEntries[index - 1 - keepCount]? = s.2[index - 1]?)
  | .compact upToIndex snapshotTerm _ =>
      s.1.snapshotLastIndex < upToIndex ∧ upToIndex ≤ s.1.lastIndex ∧
        snapshotTerm = s.1.termAt upToIndex

/-- One call on both. -/
def mutateBoth (s : RaftLog × List PersistedEntry) (m : Mutation) :
    Option (RaftLog × List PersistedEntry) :=
  some (s.1.mutate m, PlainLog.mutate s.2 m)

/-- The log agrees with the plain list wherever it can be asked. -/
structure Agrees (log : RaftLog) (ref : List PersistedEntry) : Prop where
  lastIndex : log.lastIndex = ref.length
  lastTerm : log.lastTerm = PlainLog.lastTerm ref
  termAt : ∀ index, log.snapshotLastIndex ≤ index → log.termAt index = PlainLog.termAt ref index
  commandAt : ∀ index, log.snapshotLastIndex < index →
    log.commandAt index = PlainLog.commandAt ref index
  hasEntryAt : ∀ index, log.snapshotLastIndex < index →
    log.hasEntryAt index = PlainLog.hasEntryAt ref index

/-- The log is the plain list behind the snapshot, and remembers the term at the
snapshot. -/
structure Represents (log : RaftLog) (ref : List PersistedEntry) : Prop where
  covered : log.snapshotLastIndex ≤ ref.length
  entries : log.entries = ref.drop log.snapshotLastIndex
  snapshotTerm : log.snapshotLastTerm = PlainLog.termAt ref log.snapshotLastIndex

namespace Represents

variable {log : RaftLog} {ref : List PersistedEntry}

theorem lastIndex (h : Represents log ref) : log.lastIndex = ref.length := by
  rw [RaftLog.lastIndex, h.entries, List.length_drop]
  have := h.covered
  omega

/-- A stored entry is the entry of the list at the same absolute index. -/
theorem getElem?_entries (h : Represents log ref) {index : Nat}
    (hindex : log.snapshotLastIndex < index) :
    log.entries[index - 1 - log.snapshotLastIndex]? = ref[index - 1]? := by
  rw [h.entries, List.getElem?_drop]
  congr 1
  omega

theorem termAt_eq (h : Represents log ref) {index : Nat} (hindex : log.snapshotLastIndex ≤ index) :
    log.termAt index = PlainLog.termAt ref index := by
  unfold RaftLog.termAt
  split_ifs with hzero hbeyond hsnap
  · rw [hzero, PlainLog.termAt, if_pos rfl]
  · rw [h.lastIndex] at hbeyond
    rw [PlainLog.termAt, if_neg hzero, List.getElem?_eq_none (by omega)]
    rfl
  · rw [h.snapshotTerm, Nat.le_antisymm hsnap hindex]
  · rw [h.getElem?_entries (by omega), PlainLog.termAt, if_neg hzero]

theorem lastTerm_eq (h : Represents log ref) : log.lastTerm = PlainLog.lastTerm ref := by
  unfold RaftLog.lastTerm PlainLog.lastTerm
  have hcovered := h.covered
  rw [h.entries]
  by_cases hall : ref.length ≤ log.snapshotLastIndex
  · rw [List.drop_of_length_le hall, List.getLast?_nil]
    dsimp only
    rw [h.snapshotTerm, Nat.le_antisymm hcovered hall]
  · have hlast : (ref.drop log.snapshotLastIndex).getLast? = ref[ref.length - 1]? := by
      rw [List.getLast?_drop, if_neg (by omega), List.getLast?_eq_getElem?]
    rw [hlast, PlainLog.termAt, if_neg (by omega), List.getElem?_eq_getElem (by omega)]
    rfl

/-- What the representation means for the accessors. -/
theorem agrees (h : Represents log ref) : Agrees log ref where
  lastIndex := h.lastIndex
  lastTerm := h.lastTerm_eq
  termAt _ hindex := h.termAt_eq hindex
  commandAt index hindex := by
    unfold RaftLog.commandAt PlainLog.commandAt
    rw [h.lastIndex, if_neg (by omega : ¬ index = 0), h.getElem?_entries hindex]
    split_ifs with hout
    · rw [List.getElem?_eq_none (by omega)]
      rfl
    · rfl
  hasEntryAt index _ := by
    rw [RaftLog.hasEntryAt, PlainLog.hasEntryAt, h.lastIndex]

/-! ### One mutation -/

theorem append (h : Represents log ref) (term : Nat) (command : Bytes) :
    Represents (log.append term command) (ref ++ [⟨term, command⟩]) where
  covered := by
    rw [List.length_append]
    exact Nat.le_add_right_of_le h.covered
  entries := by
    rw [append_entries, h.entries]
    exact (List.drop_append_of_le_length h.covered).symm
  snapshotTerm := by
    have hcovered := h.covered
    refine h.snapshotTerm.trans (PlainLog.termAt_congr fun hpos => ?_)
    exact (List.getElem?_append_left (by omega)).symm

theorem truncateAndAppend (h : Represents log ref) {keepCount : Nat}
    {newEntries : List PersistedEntry}
    (hok : Allowed (log, ref) (.truncateAndAppend keepCount newEntries)) :
    Represents (log.truncateAndAppend keepCount newEntries)
      (ref.take keepCount ++ newEntries) := by
  rcases hok with ⟨hkeep, hbelow⟩
  rw [h.lastIndex] at hkeep
  dsimp only at hbelow
  have hcovered := h.covered
  have hlen : (ref.take keepCount).length = keepCount := by
    rw [List.length_take]
    omega
  constructor
  · change log.snapshotLastIndex ≤ _
    rw [List.length_append, hlen]
    by_cases hlt : keepCount < log.snapshotLastIndex
    · exact (hbelow hlt).1
    · omega
  · change _ = (ref.take keepCount ++ newEntries).drop log.snapshotLastIndex
    rw [truncateAndAppend_entries, h.entries, List.drop_append, hlen, List.drop_take]
  · refine h.snapshotTerm.trans (PlainLog.termAt_congr fun hpos => ?_)
    by_cases hlt : keepCount < log.snapshotLastIndex
    · -- the index is among the new entries, which agree with the old list there
      have hagree := (hbelow hlt).2 log.snapshotLastIndex hlt le_rfl
      rw [List.getElem?_append_right (by rw [hlen]; omega), hlen, hagree]
    · rw [List.getElem?_append_left (by rw [hlen]; omega), List.getElem?_take_of_lt (by omega)]

theorem compact (h : Represents log ref) {upToIndex snapshotTerm : Nat} {snapshotData : Bytes}
    (hok : Allowed (log, ref) (.compact upToIndex snapshotTerm snapshotData)) :
    Represents (log.compact upToIndex snapshotTerm snapshotData) ref := by
  rcases hok with ⟨hlo, hhi, hterm⟩
  dsimp only at hlo hhi hterm
  have hcovered := h.covered
  have hlast := h.lastIndex
  have hremove : min (upToIndex - log.snapshotLastIndex) log.entries.length =
      upToIndex - log.snapshotLastIndex := by
    rw [RaftLog.lastIndex] at hhi
    omega
  rw [RaftLog.compact, if_neg (by omega)]
  constructor
  · change upToIndex ≤ _
    omega
  · change log.entries.drop _ = ref.drop upToIndex
    rw [hremove, h.entries, List.drop_drop]
    congr 1
    omega
  · exact hterm.trans (h.termAt_eq hlo.le)

/-- One call on both keeps them in step. -/
theorem mutate (h : Represents log ref) {m : Mutation} (hok : Allowed (log, ref) m) :
    Represents (log.mutate m) (PlainLog.mutate ref m) := by
  cases m with
  | append term command => exact h.append term command
  | truncateAndAppend keepCount newEntries => exact h.truncateAndAppend hok
  | compact upToIndex snapshotTerm snapshotData => exact h.compact hok

end Represents

/-! ## Sequences of mutations -/

/-- After every sequence of allowed calls the accessors of the log agree with the
plain list. -/
theorem mutations_agree (ms : List Mutation) (log : RaftLog) (ref : List PersistedEntry)
    (h : Exec mutateBoth Allowed ({}, []) ms (log, ref)) : Agrees log ref := by
  have hinit : Represents {} [] := ⟨le_rfl, rfl, rfl⟩
  have hinv : Represents log ref :=
    h.invariant (fun s => Represents s.1 s.2)
      (fun s m s' hs hok hstep => by
        cases hstep
        exact hs.mutate hok)
      hinit
  exact hinv.agrees

/-- Two entries are appended, both are compacted, and a truncation to the start
brings them along with a third. -/
theorem mutations_agree_compactAll :
    Agrees ⟨[⟨2, [67]⟩], 2, 1, [9]⟩ [⟨1, [65]⟩, ⟨1, [66]⟩, ⟨2, [67]⟩] := by
  apply mutations_agree [.append 1 [65], .append 1 [66], .compact 2 1 [9],
    .truncateAndAppend 0 [⟨1, [65]⟩, ⟨1, [66]⟩, ⟨2, [67]⟩]]
  refine .cons trivial rfl (.cons trivial rfl (.cons ?_ rfl (.cons ?_ rfl (.nil _))))
  · exact ⟨by decide, by decide, by decide⟩
  · refine ⟨by decide, fun _ => ⟨by decide, ?_⟩⟩
    intro index hlo hhi
    change index ≤ 2 at hhi
    interval_cases index
    · rfl
    · rfl

end RaftLog

end NanoDB.Raft
