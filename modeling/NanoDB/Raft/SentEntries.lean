import NanoDB.Raft.InstallSnapshot
import NanoDB.Raft.Server

/-!
# What a leader sends

{lit}`send_append_entries_to_peer` looks at the snapshot in one critical section and builds
the request in the next.  A compaction in between moves the snapshot over indices that are
about to be sent; {lit}`term_at` and {lit}`command_at` answer for them with the snapshot's term
and an empty command, and these are replicated as if they were entries.

Beside every run goes a record of what was appended to the log at each index.

Main results:

- Theorem {lit}`RecordInv.step`: a compaction that does not go past the end of the log, and
  every other section, keeps the log in agreement with the record.
- Theorem {lit}`sent_was_appended`: in runs whose compactions do not fall between the two
  sections of a call, leaders send what was appended.
- Theorem {lit}`placeholder_sent`: one that does sends an empty command.
-/

namespace NanoDB.Raft

open Lib RaftNode

/-! ## The record of appended entries -/

/-- What was last appended to a log at each index, and the term of the entry there, which an
installed snapshot also gives for its last index. -/
structure AppendRecord where
  entry : Nat → Option PersistedEntry
  term : Nat → Nat

namespace AppendRecord

/-- The record of a log that was found on disk. -/
def ofLog (log : RaftLog) : AppendRecord where
  entry := log.entryAt
  term i := match log.entryAt i with
    | some e => e.term
    | none => log.snapshotLastTerm

/-- Entries are appended, the first of them at index {lit}`first`. -/
def append (r : AppendRecord) (first : Nat) (es : List PersistedEntry) : AppendRecord where
  entry i := if first ≤ i ∧ i < first + es.length then es[i - first]? else r.entry i
  term i := if first ≤ i then ((es[i - first]?).map (·.term)).getD (r.term i) else r.term i

/-- A snapshot is installed whose last entry has the given term. -/
def install (r : AppendRecord) (index term : Nat) : AppendRecord :=
  { r with term := Function.update r.term index term }

/-- A new entry is found under its index. -/
theorem append_of_getElem? (r : AppendRecord) {first i : Nat} {es : List PersistedEntry}
    {e : PersistedEntry} (hi : first ≤ i) (h : es[i - first]? = some e) :
    (r.append first es).entry i = some e ∧ (r.append first es).term i = e.term := by
  have hlt := (List.getElem?_eq_some_iff.mp h).1
  have hnew : first ≤ i ∧ i < first + es.length := by omega
  simp only [append, if_pos hnew, if_pos hi, h, Option.map_some, Option.getD_some, and_self]

/-- Below the new entries the record is unchanged. -/
theorem append_of_lt (r : AppendRecord) {first i : Nat} (es : List PersistedEntry)
    (hi : i < first) :
    (r.append first es).entry i = r.entry i ∧ (r.append first es).term i = r.term i := by
  have hold : ¬ (first ≤ i ∧ i < first + es.length) := by omega
  have hbelow : ¬ first ≤ i := by omega
  simp only [append, if_neg hold, if_neg hbelow, and_self]

end AppendRecord

/-- How a section of a server is recorded. -/
def recordAppends (s : Server) : ServerAction → AppendRecord → AppendRecord
  | .propose command, r =>
      if s.node.role = .leader then
        r.append (s.node.log.lastIndex + 1) [⟨s.node.state.currentTerm, command⟩]
      else r
  | .appendEntries req, r =>
      if (s.node.handleAppendEntries req).2.success then
        -- entries inside the snapshot are skipped
        r.append (max req.prevLogIndex s.node.log.snapshotLastIndex + 1)
          ((newEntries req).drop (s.node.log.snapshotLastIndex - req.prevLogIndex))
      else r
  | .installSnapshot req, r =>
      if installs s.node req then r.install req.lastIncludedIndex req.lastIncludedTerm else r
  | _, r => r

/-- The log agrees with the record: every stored entry is the one that was last appended at
its index, and the snapshot's term is that of the entry at its last index. -/
structure RecordInv (log : RaftLog) (r : AppendRecord) : Prop where
  entry : ∀ i e, log.entryAt i = some e → r.entry i = some e ∧ r.term i = e.term
  snapshot : 0 < log.snapshotLastIndex → r.term log.snapshotLastIndex = log.snapshotLastTerm

namespace RaftLog

theorem entryAt_append (log : RaftLog) (term : Nat) (command : Bytes) (i : Nat) :
    (log.append term command).entryAt i =
      if i = log.lastIndex + 1 then some ⟨term, command⟩ else log.entryAt i := by
  have hsnap : (log.append term command).snapshotLastIndex = log.snapshotLastIndex := rfl
  rw [entryAt, entryAt, append_entries, lastIndex, hsnap]
  split_ifs with hle hnew
  · omega
  · rfl
  · rw [List.getElem?_append_right (by omega)]
    simp [show i - 1 - log.snapshotLastIndex - log.entries.length = 0 by omega]
  · rcases Nat.lt_or_ge (i - 1 - log.snapshotLastIndex) log.entries.length with hlt | hge
    · rw [List.getElem?_append_left hlt]
    · rw [List.getElem?_eq_none hge, List.getElem?_eq_none]
      rw [List.length_append, List.length_singleton]
      omega

/-- Behind the snapshot the accessors read the stored entry. -/
theorem termAt_of_entryAt {log : RaftLog} {i : Nat} {e : PersistedEntry}
    (h : log.entryAt i = some e) : log.termAt i = e.term ∧ log.commandAt i = e.command := by
  have hbounds := entryAt_isSome_iff.mp (by rw [h]; rfl)
  rw [entryAt, if_neg (by omega)] at h
  constructor
  · rw [termAt, if_neg (by omega), if_neg (by omega), if_neg (by omega), h]
    rfl
  · rw [commandAt, if_neg (by omega), h]
    rfl

end RaftLog

namespace RecordInv

variable {log : RaftLog} {r : AppendRecord}

theorem ofLog (log : RaftLog) : RecordInv log (AppendRecord.ofLog log) where
  entry i e h := ⟨h, by simp [AppendRecord.ofLog, h]⟩
  snapshot _ := by
    have hnone : log.entryAt log.snapshotLastIndex = none := by
      rw [RaftLog.entryAt, if_pos le_rfl]
    simp [AppendRecord.ofLog, hnone]

/-- A leader's append is recorded behind the end of its log. -/
theorem append (hinv : RecordInv log r) (term : Nat) (command : Bytes) :
    RecordInv (log.append term command) (r.append (log.lastIndex + 1) [⟨term, command⟩]) where
  entry i e h := by
    rw [RaftLog.entryAt_append] at h
    split_ifs at h with hnew
    · refine r.append_of_getElem? hnew.ge ?_
      rw [hnew, Nat.sub_self]
      exact h
    · have hbounds := RaftLog.entryAt_isSome_iff.mp (by rw [h]; rfl)
      obtain ⟨hentry, hterm⟩ := r.append_of_lt [⟨term, command⟩]
        (show i < log.lastIndex + 1 by omega)
      rw [hentry, hterm]
      exact hinv.entry i e h
  snapshot hpos := by
    have hlt : log.snapshotLastIndex < log.lastIndex + 1 := by
      rw [RaftLog.lastIndex]
      omega
    exact (r.append_of_lt _ hlt).2.trans (hinv.snapshot hpos)

/-- An accepted request is recorded behind {lit}`prev_log_index`, or behind the snapshot. -/
theorem acceptedLog {node : RaftNode} {req : AppendEntriesRequest}
    (hinv : RecordInv node.log r) (hprev : node.prevMatches req = true) :
    RecordInv (RaftNode.acceptedLog node.log req)
      (r.append (max req.prevLogIndex node.log.snapshotLastIndex + 1)
        ((newEntries req).drop (node.log.snapshotLastIndex - req.prevLogIndex))) := by
  constructor
  · intro i e h
    have hsnap : node.log.snapshotLastIndex < i := by
      have hbounds := RaftLog.entryAt_isSome_iff.mp (by rw [h]; rfl)
      rw [snapshotLastIndex_acceptedLog] at hbounds
      exact hbounds.1
    by_cases hne : req.entries = []
    · rw [acceptedLog_of_entries_eq_nil hne] at h
      have hnil : newEntries req = [] := by simp [newEntries, hne]
      have hsame := hinv.entry i e h
      rw [hnil, List.drop_nil]
      simpa [AppendRecord.append] using hsame
    · rw [entryAt_acceptedLog hprev hne hsnap] at h
      split_ifs at h with hkept
      · obtain ⟨hentry, hterm⟩ := r.append_of_lt
          ((newEntries req).drop (node.log.snapshotLastIndex - req.prevLogIndex))
          (show i < max req.prevLogIndex node.log.snapshotLastIndex + 1 by omega)
        rw [hentry, hterm]
        exact hinv.entry i e h
      · rw [requestEntryAt, if_neg hkept] at h
        refine r.append_of_getElem? (by omega) ?_
        rw [List.getElem?_drop, ← h]
        congr 1
        omega
  · intro hpos
    rw [snapshotLastIndex_acceptedLog] at hpos ⊢
    have hterm : (RaftNode.acceptedLog node.log req).snapshotLastTerm =
        node.log.snapshotLastTerm := by
      unfold RaftNode.acceptedLog
      split <;> rfl
    rw [hterm, ← hinv.snapshot hpos]
    exact (r.append_of_lt _ (by omega)).2

/-- An installed snapshot records its term. -/
theorem install (hinv : RecordInv log r) {index : Nat} (hlt : log.snapshotLastIndex < index)
    (term : Nat) (data : Bytes) :
    RecordInv (log.compact index term data) (r.install index term) where
  entry i e h := by
    rw [RaftLog.entryAt_compact hlt] at h
    split_ifs at h with hle
    obtain ⟨hentry, hterm⟩ := hinv.entry i e h
    exact ⟨hentry, (Function.update_of_ne (by omega) _ _).trans hterm⟩
  snapshot _ := by
    rw [RaftLog.snapshotLastIndex_compact hlt]
    rw [RaftLog.compact, if_neg (by omega)]
    exact Function.update_self ..

/-- A compaction inside the log takes the term of its last entry from the log. -/
theorem compact (hinv : RecordInv log r) {index : Nat} (hlt : log.snapshotLastIndex < index)
    (hle : index ≤ log.lastIndex) (data : Bytes) :
    RecordInv (log.compact index (log.termAt index) data) r where
  entry i e h := by
    rw [RaftLog.entryAt_compact hlt] at h
    split_ifs at h with hbelow
    exact hinv.entry i e h
  snapshot _ := by
    obtain ⟨e, he⟩ := Option.isSome_iff_exists.mp (RaftLog.entryAt_isSome_iff.mpr ⟨hlt, hle⟩)
    rw [RaftLog.snapshotLastIndex_compact hlt, (hinv.entry index e he).2,
      ← (RaftLog.termAt_of_entryAt he).1]
    rw [RaftLog.compact, if_neg (by omega)]

end RecordInv

/-! ## Runs -/

/-- The condition on a section: a request is built only behind the snapshot, which is what
the first section of the call checked; and a compaction does not go past the end of the
log. -/
def SendsHeld (s : Server) : ServerAction → Prop
  | .sendAppendEntries task => s.node.role = .leader → s.node.state.currentTerm = task.term →
      s.node.log.snapshotLastIndex < task.nextIdx
  | .compact upToIndex _ => upToIndex ≤ s.node.lastApplied → upToIndex ≤ s.node.log.lastIndex
  | _ => True

instance (s : Server) (a : ServerAction) : Decidable (SendsHeld s a) :=
  match a with
  | .sendAppendEntries _ => inferInstanceAs (Decidable (_ → _ → _))
  | .compact _ _ => inferInstanceAs (Decidable (_ → _))
  | .requestVote .. | .appendEntries .. | .installSnapshot .. | .startElection
  | .requestVoteReply .. | .finishElection .. | .propose .. | .replicate | .sendCheck ..
  | .appendEntriesReply .. | .installSnapshotReply .. => instDecidableTrue

/-- Runs of a server beside the record of what was appended. -/
abbrev RecordedRuns (ok : Server → ServerAction → Prop) :=
  Exec (instrument Server.step recordAppends) fun p a => ok p.1 a

/-- **Step lemma.**  A section that meets the condition keeps the log in agreement with the
record. -/
theorem RecordInv.step {s s' : Server} {a : ServerAction} {r : AppendRecord}
    (hinv : RecordInv s.node.log r) (hok : SendsHeld s a) (h : s.step a = some s') :
    RecordInv s'.node.log (recordAppends s a r) := by
  cases a with
  | requestVote req =>
      cases h
      dsimp only [recordAppends]
      rwa [(Unmoved.handleRequestVote s.node req).log]
  | appendEntries req =>
      cases h
      rcases handleAppendEntries_cases s.node req with
        ⟨hsuccess, hlog, -⟩ | ⟨hsuccess, -, hprev, accepting, -, -, hlog, -, -, -, heq⟩
      · dsimp only [recordAppends]
        rwa [hsuccess, if_neg Bool.false_ne_true, hlog]
      · dsimp only [recordAppends]
        rw [hsuccess, if_pos rfl, heq, acceptEntries_log, hlog]
        exact hinv.acceptedLog hprev
  | installSnapshot req =>
      cases h
      dsimp only [recordAppends]
      split_ifs with hinstalls
      · rw [log_handleInstallSnapshot hinstalls]
        simp only [installs, Bool.and_eq_true, decide_eq_true_eq] at hinstalls
        exact hinv.install hinstalls.2 _ _
      · rwa [log_handleInstallSnapshot_of_not hinstalls]
  | startElection =>
      simp only [Server.step, Option.ite_none_right_eq_some, Option.some.injEq] at h
      obtain ⟨-, rfl⟩ := h
      exact hinv
  | requestVoteReply resp =>
      simp only [Server.step, Option.map_eq_some_iff] at h
      obtain ⟨electionTerm, -, rfl⟩ := h
      dsimp only [recordAppends]
      rwa [(Unmoved.handleRequestVoteReply s.node electionTerm resp).log]
  | finishElection votes =>
      simp only [Server.step, Option.map_eq_some_iff] at h
      obtain ⟨electionTerm, -, rfl⟩ := h
      dsimp only [recordAppends]
      rwa [(Unmoved.finishElection s.node electionTerm votes).log]
  | propose command =>
      simp only [Server.step] at h
      dsimp only [recordAppends]
      split at h
      · rename_i hnone
        cases h
        have hrole : s.node.role ≠ .leader := by
          intro hrole
          simp [RaftNode.propose, hrole] at hnone
        rwa [if_neg hrole]
      · rename_i node call hcall
        cases h
        obtain ⟨hrole, rfl, -⟩ := propose_eq_some hcall
        rw [if_pos hrole, advanceCommitIndex_log]
        exact hinv.append _ _
  | replicate =>
      cases h
      exact hinv
  | sendCheck task =>
      simp only [Server.step, Option.ite_none_right_eq_some] at h
      obtain ⟨-, h⟩ := h
      split at h <;> cases h <;> exact hinv
  | sendAppendEntries task =>
      simp only [Server.step, Option.ite_none_right_eq_some] at h
      obtain ⟨-, h⟩ := h
      split at h <;> cases h <;> exact hinv
  | appendEntriesReply peerId req resp =>
      simp only [Server.step, Option.ite_none_right_eq_some, Option.some.injEq] at h
      obtain ⟨-, rfl⟩ := h
      dsimp only [recordAppends]
      rwa [handleAppendEntriesReply_log]
  | installSnapshotReply peerId req resp =>
      simp only [Server.step, Option.ite_none_right_eq_some, Option.some.injEq] at h
      obtain ⟨-, rfl⟩ := h
      dsimp only [recordAppends]
      rwa [(Unmoved.handleInstallSnapshotReply s.node peerId req resp).log]
  | compact upToIndex snapshotData =>
      cases h
      dsimp only [recordAppends, RaftNode.compact]
      split_ifs with hseen happlied htrim
      · exact hinv
      · exact hinv
      · exact hinv
      · exact hinv.compact (by omega) (hok (by omega)) _

/-- A request carries what the record has: its entries follow {lit}`prev_log_index`, each with
the term and the command that were appended at its index, and for {lit}`prev_log_index` it has
the term there. -/
def Carries (r : AppendRecord) (req : AppendEntriesRequest) : Prop :=
  (∀ j e, req.entries[j]? = some e → e.index = req.prevLogIndex + 1 + j ∧
      r.entry e.index = some ⟨e.term, e.command⟩) ∧
    req.prevLogTerm = if req.prevLogIndex = 0 then 0 else r.term req.prevLogIndex

/-- A log in agreement with the record gives a request that carries it, from any index behind
the snapshot and at most one behind the end. -/
theorem carries_of_recordInv {node : RaftNode} {r : AppendRecord} {task : SendTask}
    {req : AppendEntriesRequest} (hinv : RecordInv node.log r)
    (hsnap : node.log.snapshotLastIndex < task.nextIdx)
    (hlast : task.nextIdx ≤ node.log.lastIndex + 1)
    (h : node.buildAppendEntries task = some req) : Carries r req := by
  obtain ⟨-, -, rfl⟩ := buildAppendEntries_eq_some h
  have hheld : ∀ i, node.log.snapshotLastIndex < i → i ≤ node.log.lastIndex →
      r.entry i = some ⟨node.log.termAt i, node.log.commandAt i⟩ ∧
        r.term i = node.log.termAt i := by
    intro i hlo hhi
    obtain ⟨e, he⟩ := Option.isSome_iff_exists.mp (RaftLog.entryAt_isSome_iff.mpr ⟨hlo, hhi⟩)
    obtain ⟨hentry, hterm⟩ := hinv.entry i e he
    obtain ⟨htermAt, hcommandAt⟩ := RaftLog.termAt_of_entryAt he
    rw [htermAt, hcommandAt]
    exact ⟨hentry, hterm⟩
  constructor
  · intro j e he
    simp only [entriesFrom, List.getElem?_map, Option.map_eq_some_iff] at he
    obtain ⟨i, hi, rfl⟩ := he
    obtain ⟨hlt, rfl⟩ := List.getElem?_eq_some_iff.mp hi
    rw [List.length_range] at hlt
    rw [List.getElem_range]
    dsimp only
    exact ⟨by omega, (hheld _ (by omega) (by omega)).1⟩
  · dsimp only
    split_ifs with hzero
    · rw [hzero]
      rfl
    · rcases Nat.lt_or_ge node.log.snapshotLastIndex (task.nextIdx - 1) with hlo | hge
      · exact (hheld _ hlo (by omega)).2.symm
      · -- the previous index is the snapshot's last one
        have heq : task.nextIdx - 1 = node.log.snapshotLastIndex := by omega
        rw [heq, hinv.snapshot (by omega), RaftLog.termAt, if_neg (by omega),
          if_neg (by rw [RaftLog.lastIndex]; omega), if_pos le_rfl]

/-- In every run whose sections meet the condition, from any files: a request that a leader
builds carries what was appended to its log. -/
theorem sent_was_appended (nodeId : Int) (peers : List Int) (state : PersistentState)
    (log : RaftLog) {as : List ServerAction} {s : Server} {r : AppendRecord}
    (hrun : RecordedRuns SendsHeld
      (Server.start nodeId peers state log, AppendRecord.ofLog log) as (s, r))
    {task : SendTask} (htask : task ∈ s.checked) (hok : SendsHeld s (.sendAppendEntries task))
    {req : AppendEntriesRequest} (hreq : s.node.buildAppendEntries task = some req) :
    Carries r req := by
  have hinv : BookInv s ∧ RecordInv s.node.log r := by
    refine hrun.invariant (fun p => BookInv p.1 ∧ RecordInv p.1.node.log p.2) ?_
      ⟨BookInv.start .., RecordInv.ofLog log⟩
    rintro ⟨s, r⟩ a ⟨s', r'⟩ ⟨hbook, hrecord⟩ hok hstep
    obtain ⟨hstep, rfl⟩ := instrument_eq_some.mp hstep
    exact ⟨hbook.step hstep, hrecord.step hok hstep⟩
  obtain ⟨hrole, hterm, -⟩ := buildAppendEntries_eq_some hreq
  have hmark := Server.mark_of_checked htask
  rw [← hterm] at hmark
  have hle := hinv.1.inLog hrole _ hmark
  exact carries_of_recordInv hinv.2 (hok hrole hterm) (by omega) hreq

/-- Node 0 of three leads, appends an entry, commits it with node 1 and has checked its call to
node 2. -/
def checkedCall : List ServerAction :=
  [.startElection, .finishElection 2, .propose [97], .replicate, .sendCheck ⟨1, 1, 1⟩,
    .sendAppendEntries ⟨1, 1, 1⟩, .sendCheck ⟨1, 2, 1⟩,
    .appendEntriesReply 1 ⟨1, 0, 0, 0, [⟨1, 1, [97]⟩], 0⟩ ⟨1, true⟩]

/-- A compaction falls between the two sections of the call to node 2. -/
def compactBetween : List ServerAction :=
  [.compact 1 [115]]

theorem sent_was_appended_checkedCall :
    ∃ s r, RecordedRuns SendsHeld (Server.start 0 [0, 1, 2] {} {}, AppendRecord.ofLog {})
        checkedCall (s, r) ∧
      s.node.buildAppendEntries ⟨1, 2, 1⟩ = some ⟨1, 0, 0, 0, [⟨1, 1, [97]⟩], 1⟩ ∧
      Carries r ⟨1, 0, 0, 0, [⟨1, 1, [97]⟩], 1⟩ := by
  have hrun := Exec.of_guardedRun (instrument Server.step recordAppends)
    (fun p a => SendsHeld p.1 a) (Server.start 0 [0, 1, 2] {} {}, AppendRecord.ofLog {})
    checkedCall (by decide +kernel)
  refine ⟨_, _, hrun, by decide +kernel, ?_⟩
  have hchecked : (⟨1, 2, 1⟩ : SendTask) ∈ ((guardedRun (instrument Server.step recordAppends)
      (fun p a => SendsHeld p.1 a) (Server.start 0 [0, 1, 2] {} {}, AppendRecord.ofLog {})
      checkedCall).get (by decide +kernel)).1.checked := by
    decide +kernel
  exact sent_was_appended 0 [0, 1, 2] {} {} hrun hchecked (by decide +kernel) (by decide +kernel)

/-- The request that is built then carries an empty command at index 1, where a command was
appended. -/
theorem placeholder_sent :
    ∃ s r, RecordedRuns (fun _ _ => True)
        (Server.start 0 [0, 1, 2] {} {}, AppendRecord.ofLog {})
        (checkedCall ++ compactBetween) (s, r) ∧
      (⟨1, 2, 1⟩ : SendTask) ∈ s.checked ∧ r.entry 1 = some ⟨1, [97]⟩ ∧
      s.node.buildAppendEntries ⟨1, 2, 1⟩ = some ⟨1, 0, 0, 0, [⟨1, 1, []⟩], 1⟩ ∧
      ¬ Carries r ⟨1, 0, 0, 0, [⟨1, 1, []⟩], 1⟩ := by
  have hrun := Exec.of_guardedRun (instrument Server.step recordAppends)
    (fun _ _ => True) (Server.start 0 [0, 1, 2] {} {}, AppendRecord.ofLog {})
    (checkedCall ++ compactBetween) (by decide +kernel)
  refine ⟨_, _, hrun, by decide +kernel, by decide +kernel, by decide +kernel, fun hcarries => ?_⟩
  exact absurd (hcarries.1 0 ⟨1, 1, []⟩ rfl).2 (by decide +kernel)

end NanoDB.Raft
