import Mathlib.Data.List.Sort
import Mathlib.Data.List.Dedup
import NanoDB.Raft.Log

/-!
# One Raft node

Every critical section of {lit}`RaftNode` is one function on the node's state.
A function of the source that takes the lock several times is split at its
unlocks: {lit}`start_election` into {lit}`startElection`,
{lit}`handleRequestVoteReply` (the section inside each asynchronous call) and
{lit}`finishElection`; {lit}`send_append_entries_to_peer` into {lit}`sendCheck`,
{lit}`buildAppendEntries` and {lit}`handleAppendEntriesReply`.

Election deadlines, heartbeat times, peer addresses and channels are left out: an
election or a heartbeat may start whenever the lock is free.
-/

namespace NanoDB.Raft

/-- The role of a node. -/
inductive Role where
  | follower
  | candidate
  | leader
deriving DecidableEq, Repr

/-! ## Messages -/

/-- A log entry on the wire. -/
structure LogEntry where
  term : Nat
  index : Nat
  command : Bytes
deriving DecidableEq, Repr

structure RequestVoteRequest where
  term : Nat
  candidateId : Int
  lastLogIndex : Nat
  lastLogTerm : Nat
deriving DecidableEq, Repr

structure RequestVoteResponse where
  term : Nat
  voteGranted : Bool
deriving DecidableEq, Repr

structure AppendEntriesRequest where
  term : Nat
  leaderId : Int
  prevLogIndex : Nat
  prevLogTerm : Nat
  entries : List LogEntry
  leaderCommit : Nat
deriving DecidableEq, Repr

structure AppendEntriesResponse where
  term : Nat
  success : Bool
deriving DecidableEq, Repr

structure InstallSnapshotRequest where
  term : Nat
  leaderId : Int
  lastIncludedIndex : Nat
  lastIncludedTerm : Nat
  data : Bytes
deriving DecidableEq, Repr

structure InstallSnapshotResponse where
  term : Nat
deriving DecidableEq, Repr

/-! ## The commit rule -/

/-- Votes and acknowledgements that make a majority of a cluster. -/
def majority (clusterSize : Nat) : Nat :=
  clusterSize / 2 + 1

/-- The pure commit rule.  {lit}`matchIndex` lists the items of the leader's
match-index map.  A position past the end of the sorted values, undefined in the
source, reads 0. -/
def computeNewCommitIndex (leaderLastIndex : Nat) (matchIndex : List (Int × Nat))
    (clusterSize currentCommitIndex currentTerm : Nat) (termAt : Nat → Nat) : Nat :=
  let matchValues := (leaderLastIndex :: matchIndex.map (·.2)).insertionSort (· ≥ ·)
  let candidateN := (matchValues[majority clusterSize - 1]?).getD 0
  if candidateN > currentCommitIndex ∧ termAt candidateN = currentTerm then candidateN
  else currentCommitIndex

/-! ## Node state -/

/-- The state of a node behind its mutex.  {lit}`nextIndex` and {lit}`matchIndex`
are read at the node's peers only.  {lit}`applyTrace` is a ghost: it records the
absolute index of every command pushed to {lit}`appliedCommands`, is read by no
function of the node and survives restarts. -/
structure RaftNode where
  nodeId : Int
  peers : List Int
  state : PersistentState := {}
  log : RaftLog := {}
  role : Role := .follower
  leaderId : Int := -1
  commitIndex : Nat := 0
  lastApplied : Nat := 0
  appliedCommands : List Bytes := []
  nextIndex : Int → Nat := fun _ => 0
  matchIndex : Int → Nat := fun _ => 0
  applyTrace : List (Nat × Bytes) := []

namespace RaftNode

/-- The constructor, on the state and log found on disk. -/
def openFiles (nodeId : Int) (peers : List Int) (state : PersistentState) (log : RaftLog) :
    RaftNode :=
  { nodeId := nodeId
    peers := peers
    state := state
    log := log
    lastApplied := log.snapshotLastIndex
    commitIndex := log.snapshotLastIndex }

/-- Peers a node holds a stub for: every listed node but itself, once. -/
def stubs (node : RaftNode) : List Int :=
  (node.peers.filter (· ≠ node.nodeId)).dedup

/-- Adopt a newer term as a follower without a vote. -/
def becomeFollower (node : RaftNode) (newTerm : Nat) : RaftNode :=
  { node with state := ⟨newTerm, -1⟩, role := .follower }

/-- The prologue of every handler: step down if the message has a newer term. -/
def observeTerm (node : RaftNode) (term : Nat) : RaftNode :=
  if term > node.state.currentTerm then node.becomeFollower term else node

/-- One turn of the apply loop. -/
def applyNext (node : RaftNode) : RaftNode :=
  let index := node.lastApplied + 1
  let cmd := node.log.commandAt index
  if cmd.isEmpty then { node with lastApplied := index }
  else
    { node with
      lastApplied := index
      appliedCommands := node.appliedCommands ++ [cmd]
      applyTrace := node.applyTrace ++ [(index, cmd)] }

/-- Apply everything up to the commit index. -/
def applyCommittedEntries (node : RaftNode) : RaftNode :=
  applyNext^[node.commitIndex - node.lastApplied] node

/-- Let a leader advance its commit index. -/
def advanceCommitIndex (node : RaftNode) : RaftNode :=
  let newCommit := computeNewCommitIndex node.log.lastIndex
    (node.stubs.map fun p => (p, node.matchIndex p)) node.peers.length node.commitIndex
    node.state.currentTerm node.log.termAt
  if newCommit > node.commitIndex then
    applyCommittedEntries { node with commitIndex := newCommit }
  else node

/-! ## Proposals -/

/-- What a call of {lit}`propose` remembers after its first critical section. -/
structure ProposeCall where
  nodeId : Int
  term : Nat
  index : Nat
  command : Bytes
deriving DecidableEq, Repr

/-- The first critical section of {lit}`propose`; {lean}`none` is the immediate
{lit}`false` of a node that does not lead. -/
def propose (node : RaftNode) (command : Bytes) : Option (RaftNode × ProposeCall) :=
  if node.role ≠ .leader then none
  else
    let myTerm := node.state.currentTerm
    let node := { node with log := node.log.append myTerm command }
    let myIndex := node.log.lastIndex
    some (node.advanceCommitIndex, ⟨node.nodeId, myTerm, myIndex, command⟩)

/-- One polling section of {lit}`propose`: {lean}`none` keeps polling. -/
def proposePoll (node : RaftNode) (call : ProposeCall) : Option Bool :=
  if node.role ≠ .leader ∨ node.state.currentTerm ≠ call.term then some false
  else if node.commitIndex ≥ call.index then some true
  else none

/-! ## Elections -/

/-- Whether a candidate's log is at least as up to date as the node's own. -/
def logOk (node : RaftNode) (req : RequestVoteRequest) : Bool :=
  decide (req.lastLogTerm > node.log.lastTerm) ||
    (decide (req.lastLogTerm = node.log.lastTerm) &&
      decide (req.lastLogIndex ≥ node.log.lastIndex))

/-- Whether the node's vote of the current term is free for the candidate. -/
def canVote (node : RaftNode) (req : RequestVoteRequest) : Bool :=
  decide (node.state.votedFor = -1) || decide (node.state.votedFor = req.candidateId)

def handleRequestVote (node : RaftNode) (req : RequestVoteRequest) :
    RaftNode × RequestVoteResponse :=
  let node := node.observeTerm req.term
  if req.term < node.state.currentTerm then (node, ⟨node.state.currentTerm, false⟩)
  else if node.canVote req && node.logOk req then
    ({ node with state := ⟨node.state.currentTerm, req.candidateId⟩ },
      ⟨node.state.currentTerm, true⟩)
  else (node, ⟨node.state.currentTerm, false⟩)

/-- First critical section of {lit}`start_election`, with the request that is
then sent to every peer. -/
def startElection (node : RaftNode) : RaftNode × RequestVoteRequest :=
  let node :=
    { node with
      state := ⟨node.state.currentTerm + 1, node.nodeId⟩
      role := .candidate
      leaderId := -1 }
  (node, ⟨node.state.currentTerm, node.nodeId, node.log.lastIndex, node.log.lastTerm⟩)

/-- The critical section of one vote call: only a reply with a newer term than
the election's takes the lock. -/
def handleRequestVoteReply (node : RaftNode) (electionTerm : Nat) (resp : RequestVoteResponse) :
    RaftNode :=
  if resp.term > electionTerm then node.observeTerm resp.term else node

/-- Last critical section of {lit}`start_election`. -/
def finishElection (node : RaftNode) (electionTerm votes : Nat) : RaftNode :=
  if node.role = .candidate ∧ node.state.currentTerm = electionTerm ∧
      votes ≥ majority node.peers.length then
    { node with
      role := .leader
      leaderId := node.nodeId
      nextIndex := fun _ => node.log.lastIndex + 1
      matchIndex := fun _ => 0 }
  else node

/-! ## Replication -/

/-- The arguments of one call of {lit}`send_append_entries_to_peer`; {lit}`nextIdx`
is at least 1, so {lit}`nextIdx - 1` does not wrap. -/
structure SendTask where
  term : Nat
  peerId : Int
  nextIdx : Nat
deriving DecidableEq, Repr

/-- The critical section of {lit}`replicate_to_followers`: one call per peer, all
from one copy of {lit}`next_index_`. -/
def replicateToFollowers (node : RaftNode) : List SendTask :=
  if node.role ≠ .leader then []
  else node.stubs.map fun p => ⟨node.state.currentTerm, p, node.nextIndex p⟩

/-- What the first critical section of {lit}`send_append_entries_to_peer` decides. -/
inductive SendDecision where
  | stop
  | snapshot (req : InstallSnapshotRequest)
  | append
deriving DecidableEq, Repr

/-- First critical section of {lit}`send_append_entries_to_peer`. -/
def sendCheck (node : RaftNode) (task : SendTask) : SendDecision :=
  if node.role ≠ .leader ∨ node.state.currentTerm ≠ task.term then .stop
  else if task.nextIdx - 1 < node.log.snapshotLastIndex then
    .snapshot ⟨task.term, node.nodeId, node.log.snapshotLastIndex, node.log.snapshotLastTerm,
      node.log.snapshotData⟩
  else .append

/-- The entries from an absolute index through the end of the log. -/
def entriesFrom (log : RaftLog) (nextIdx : Nat) : List LogEntry :=
  (List.range (log.lastIndex + 1 - nextIdx)).map fun j =>
    ⟨log.termAt (nextIdx + j), nextIdx + j, log.commandAt (nextIdx + j)⟩

/-- Second critical section of {lit}`send_append_entries_to_peer`: the request is
built from the log as it is now, for the index copied earlier. -/
def buildAppendEntries (node : RaftNode) (task : SendTask) : Option AppendEntriesRequest :=
  if node.role ≠ .leader ∨ node.state.currentTerm ≠ task.term then none
  else
    let prevLogIndex := task.nextIdx - 1
    some
      { term := task.term
        leaderId := node.nodeId
        prevLogIndex := prevLogIndex
        prevLogTerm := node.log.termAt prevLogIndex
        entries := entriesFrom node.log task.nextIdx
        leaderCommit := node.commitIndex }

/-- The consistency check of {lit}`handle_append_entries`.  An index inside the
snapshot is accepted without comparing terms. -/
def prevMatches (node : RaftNode) (req : AppendEntriesRequest) : Bool :=
  if req.prevLogIndex > 0 then
    if req.prevLogIndex > node.log.snapshotLastIndex then
      node.log.hasRealEntryAt req.prevLogIndex &&
        decide (node.log.termAt req.prevLogIndex = req.prevLogTerm)
    else true
  else true

/-- The entries of a request as they are stored. -/
def newEntries (req : AppendEntriesRequest) : List PersistedEntry :=
  req.entries.map fun e => ⟨e.term, e.command⟩

/-- Follower side of an accepted request: replace the log suffix, then follow the
leader's commit index. -/
def acceptEntries (node : RaftNode) (req : AppendEntriesRequest) : RaftNode :=
  let node :=
    if newEntries req = [] then node
    else { node with log := node.log.truncateAndAppend req.prevLogIndex (newEntries req) }
  if req.leaderCommit > node.commitIndex then
    applyCommittedEntries { node with commitIndex := min req.leaderCommit node.log.lastIndex }
  else node

def handleAppendEntries (node : RaftNode) (req : AppendEntriesRequest) :
    RaftNode × AppendEntriesResponse :=
  let node := node.observeTerm req.term
  if req.term < node.state.currentTerm then (node, ⟨node.state.currentTerm, false⟩)
  else
    let node := { node with role := .follower, leaderId := req.leaderId }
    if node.prevMatches req then (node.acceptEntries req, ⟨node.state.currentTerm, true⟩)
    else (node, ⟨node.state.currentTerm, false⟩)

/-- Third critical section of {lit}`send_append_entries_to_peer`, run when the
call for {lit}`req` to {lit}`peerId` returned. -/
def handleAppendEntriesReply (node : RaftNode) (peerId : Int) (req : AppendEntriesRequest)
    (resp : AppendEntriesResponse) : RaftNode :=
  if resp.term > node.state.currentTerm then node.becomeFollower resp.term
  else if node.role ≠ .leader ∨ node.state.currentTerm ≠ req.term then node
  else if resp.success then
    let newMatch := req.prevLogIndex + req.entries.length
    advanceCommitIndex
      { node with
        matchIndex :=
          if newMatch > node.matchIndex peerId then Function.update node.matchIndex peerId newMatch
          else node.matchIndex
        nextIndex := Function.update node.nextIndex peerId (newMatch + 1) }
  else if node.nextIndex peerId > 1 then
    { node with nextIndex := Function.update node.nextIndex peerId (node.nextIndex peerId - 1) }
  else node

/-! ## Snapshots -/

def handleInstallSnapshot (node : RaftNode) (req : InstallSnapshotRequest) :
    RaftNode × InstallSnapshotResponse :=
  let node := node.observeTerm req.term
  if req.term < node.state.currentTerm then (node, ⟨node.state.currentTerm⟩)
  else
    let node := { node with role := .follower, leaderId := req.leaderId }
    if req.lastIncludedIndex ≤ node.log.snapshotLastIndex then (node, ⟨node.state.currentTerm⟩)
    else
      let newSnap := req.lastIncludedIndex
      let trimCount := min (newSnap - node.log.snapshotLastIndex) node.appliedCommands.length
      ({ node with
          appliedCommands := node.appliedCommands.drop trimCount
          lastApplied := max node.lastApplied newSnap
          commitIndex := max node.commitIndex newSnap
          log := node.log.compact newSnap req.lastIncludedTerm req.data },
        ⟨node.state.currentTerm⟩)

/-- Local compaction; {lean}`false` leaves the node as it is. -/
def compact (node : RaftNode) (upToIndex : Nat) (snapshotData : Bytes) : RaftNode × Bool :=
  if upToIndex ≤ node.log.snapshotLastIndex then (node, false)
  else if upToIndex > node.lastApplied then (node, false)
  else
    let trimCount := upToIndex - node.log.snapshotLastIndex
    if trimCount > node.appliedCommands.length then (node, false)
    else
      ({ node with
          appliedCommands := node.appliedCommands.drop trimCount
          log := node.log.compact upToIndex (node.log.termAt upToIndex) snapshotData },
        true)

/-- The critical section of {lit}`send_install_snapshot_to_peer` after its call
returned. -/
def handleInstallSnapshotReply (node : RaftNode) (peerId : Int) (req : InstallSnapshotRequest)
    (resp : InstallSnapshotResponse) : RaftNode :=
  if resp.term > node.state.currentTerm then node.becomeFollower resp.term
  else if node.role ≠ .leader ∨ node.state.currentTerm ≠ req.term then node
  else if req.lastIncludedIndex > node.matchIndex peerId then
    { node with
      matchIndex := Function.update node.matchIndex peerId req.lastIncludedIndex
      nextIndex := Function.update node.nextIndex peerId (req.lastIncludedIndex + 1) }
  else node

/-- A restart: a new process opens the files the old one left.  The ghost trace
is carried over. -/
def restart (node : RaftNode) (state : PersistentState) : RaftNode :=
  { openFiles node.nodeId node.peers state node.log with applyTrace := node.applyTrace }

/-! ## The apply loop leaves the rest of the node alone -/

theorem applyNext_frame (node : RaftNode) : ∃ la ac tr,
    node.applyNext = { node with lastApplied := la, appliedCommands := ac, applyTrace := tr } := by
  unfold applyNext
  dsimp only
  split_ifs
  · exact ⟨_, node.appliedCommands, node.applyTrace, rfl⟩
  · exact ⟨_, _, _, rfl⟩

theorem applyCommittedEntries_frame (node : RaftNode) : ∃ la ac tr,
    node.applyCommittedEntries =
      { node with lastApplied := la, appliedCommands := ac, applyTrace := tr } := by
  unfold applyCommittedEntries
  generalize node.commitIndex - node.lastApplied = k
  induction k with
  | zero => exact ⟨_, _, _, rfl⟩
  | succ k ih =>
      obtain ⟨la, ac, tr, hk⟩ := ih
      rw [Function.iterate_succ_apply', hk]
      obtain ⟨la', ac', tr', hnext⟩ := applyNext_frame
        { node with lastApplied := la, appliedCommands := ac, applyTrace := tr }
      exact ⟨la', ac', tr', hnext⟩

@[simp]
theorem applyCommittedEntries_nodeId (node : RaftNode) :
    node.applyCommittedEntries.nodeId = node.nodeId := by
  obtain ⟨_, _, _, h⟩ := applyCommittedEntries_frame node
  rw [h]

@[simp]
theorem applyCommittedEntries_peers (node : RaftNode) :
    node.applyCommittedEntries.peers = node.peers := by
  obtain ⟨_, _, _, h⟩ := applyCommittedEntries_frame node
  rw [h]

@[simp]
theorem applyCommittedEntries_state (node : RaftNode) :
    node.applyCommittedEntries.state = node.state := by
  obtain ⟨_, _, _, h⟩ := applyCommittedEntries_frame node
  rw [h]

@[simp]
theorem applyCommittedEntries_role (node : RaftNode) :
    node.applyCommittedEntries.role = node.role := by
  obtain ⟨_, _, _, h⟩ := applyCommittedEntries_frame node
  rw [h]

@[simp]
theorem applyCommittedEntries_log (node : RaftNode) :
    node.applyCommittedEntries.log = node.log := by
  obtain ⟨_, _, _, h⟩ := applyCommittedEntries_frame node
  rw [h]

@[simp]
theorem applyCommittedEntries_commitIndex (node : RaftNode) :
    node.applyCommittedEntries.commitIndex = node.commitIndex := by
  obtain ⟨_, _, _, h⟩ := applyCommittedEntries_frame node
  rw [h]

@[simp]
theorem applyCommittedEntries_nextIndex (node : RaftNode) :
    node.applyCommittedEntries.nextIndex = node.nextIndex := by
  obtain ⟨_, _, _, h⟩ := applyCommittedEntries_frame node
  rw [h]

@[simp]
theorem applyCommittedEntries_matchIndex (node : RaftNode) :
    node.applyCommittedEntries.matchIndex = node.matchIndex := by
  obtain ⟨_, _, _, h⟩ := applyCommittedEntries_frame node
  rw [h]

section AdvanceCommitIndex

variable (node : RaftNode)

@[simp]
theorem advanceCommitIndex_nodeId : node.advanceCommitIndex.nodeId = node.nodeId := by
  simp only [advanceCommitIndex]
  split <;> simp

@[simp]
theorem advanceCommitIndex_peers : node.advanceCommitIndex.peers = node.peers := by
  simp only [advanceCommitIndex]
  split <;> simp

@[simp]
theorem advanceCommitIndex_state : node.advanceCommitIndex.state = node.state := by
  simp only [advanceCommitIndex]
  split <;> simp

@[simp]
theorem advanceCommitIndex_role : node.advanceCommitIndex.role = node.role := by
  simp only [advanceCommitIndex]
  split <;> simp

@[simp]
theorem advanceCommitIndex_log : node.advanceCommitIndex.log = node.log := by
  simp only [advanceCommitIndex]
  split <;> simp

@[simp]
theorem advanceCommitIndex_nextIndex : node.advanceCommitIndex.nextIndex = node.nextIndex := by
  simp only [advanceCommitIndex]
  split <;> simp

@[simp]
theorem advanceCommitIndex_matchIndex : node.advanceCommitIndex.matchIndex = node.matchIndex := by
  simp only [advanceCommitIndex]
  split <;> simp

end AdvanceCommitIndex

/-! ## What the handlers do -/

/-- After the prologue of a handler the node has reached the message's term. -/
theorem le_observeTerm (node : RaftNode) (term : Nat) :
    term ≤ (node.observeTerm term).state.currentTerm := by
  unfold observeTerm
  split_ifs with h
  · exact le_rfl
  · exact Nat.le_of_not_gt h

@[simp]
theorem observeTerm_log (node : RaftNode) (term : Nat) :
    (node.observeTerm term).log = node.log := by
  unfold observeTerm
  split <;> rfl

/-- A vote is refused after at most a step down, or granted: then the term is the
request's, the vote was free and the log check passed. -/
theorem handleRequestVote_cases (node : RaftNode) (req : RequestVoteRequest) :
    ((node.handleRequestVote req).2.voteGranted = false ∧
        (node.handleRequestVote req).1 = node.observeTerm req.term) ∨
      (node.handleRequestVote req =
          ({ node.observeTerm req.term with state := ⟨req.term, req.candidateId⟩ },
            ⟨req.term, true⟩) ∧
        node.logOk req = true ∧
        (node.state.currentTerm < req.term ∨ (node.state.currentTerm = req.term ∧
          (node.state.votedFor = -1 ∨ node.state.votedFor = req.candidateId)))) := by
  have hle := le_observeTerm node req.term
  unfold handleRequestVote
  dsimp only
  split_ifs with hlt hok
  · exact .inl ⟨rfl, rfl⟩
  · have hterm : (node.observeTerm req.term).state.currentTerm = req.term := by omega
    refine .inr ⟨by rw [hterm], ?_⟩
    simp only [canVote, logOk, observeTerm_log, Bool.and_eq_true] at hok ⊢
    refine ⟨hok.2, ?_⟩
    unfold observeTerm at hterm hok
    split_ifs at hterm hok with hnew
    · exact .inl hnew
    · exact .inr ⟨hterm, by simpa using hok.1⟩
  · exact .inl ⟨rfl, rfl⟩

@[simp]
theorem observeTerm_commitIndex (node : RaftNode) (term : Nat) :
    (node.observeTerm term).commitIndex = node.commitIndex := by
  unfold observeTerm
  split <;> rfl

@[simp]
theorem observeTerm_applyTrace (node : RaftNode) (term : Nat) :
    (node.observeTerm term).applyTrace = node.applyTrace := by
  unfold observeTerm
  split <;> rfl

@[simp]
theorem observeTerm_lastApplied (node : RaftNode) (term : Nat) :
    (node.observeTerm term).lastApplied = node.lastApplied := by
  unfold observeTerm
  split <;> rfl

/-- A reply changes no log. -/
@[simp]
theorem handleAppendEntriesReply_log (node : RaftNode) (peerId : Int)
    (req : AppendEntriesRequest) (resp : AppendEntriesResponse) :
    (node.handleAppendEntriesReply peerId req resp).log = node.log := by
  unfold handleAppendEntriesReply
  dsimp only
  split_ifs <;> simp [becomeFollower]

/-- The log after an accepted request. -/
def acceptedLog (log : RaftLog) (req : AppendEntriesRequest) : RaftLog :=
  if newEntries req = [] then log else log.truncateAndAppend req.prevLogIndex (newEntries req)

theorem acceptEntries_eq (node : RaftNode) (req : AppendEntriesRequest) :
    node.acceptEntries req =
      if req.leaderCommit > node.commitIndex then
        applyCommittedEntries
          { node with
            log := acceptedLog node.log req
            commitIndex := min req.leaderCommit (acceptedLog node.log req).lastIndex }
      else { node with log := acceptedLog node.log req } := by
  unfold acceptEntries acceptedLog
  dsimp only
  split_ifs <;> rfl

@[simp]
theorem acceptEntries_log (node : RaftNode) (req : AppendEntriesRequest) :
    (node.acceptEntries req).log = acceptedLog node.log req := by
  rw [acceptEntries_eq]
  split_ifs <;> simp

@[simp]
theorem acceptEntries_state (node : RaftNode) (req : AppendEntriesRequest) :
    (node.acceptEntries req).state = node.state := by
  rw [acceptEntries_eq]
  split_ifs <;> simp

@[simp]
theorem acceptEntries_role (node : RaftNode) (req : AppendEntriesRequest) :
    (node.acceptEntries req).role = node.role := by
  rw [acceptEntries_eq]
  split_ifs <;> simp

/-- A request is rejected, and then changes neither the log nor the commit index,
or it is accepted: then the node is a follower in the request's term and the
consistency check passed. -/
theorem handleAppendEntries_cases (node : RaftNode) (req : AppendEntriesRequest) :
    ((node.handleAppendEntries req).2.success = false ∧
        (node.handleAppendEntries req).1.log = node.log ∧
        (node.handleAppendEntries req).1.commitIndex = node.commitIndex ∧
        (node.handleAppendEntries req).1.lastApplied = node.lastApplied ∧
        (node.handleAppendEntries req).1.applyTrace = node.applyTrace) ∨
      ((node.handleAppendEntries req).2.success = true ∧
        node.state.currentTerm ≤ req.term ∧ node.prevMatches req = true ∧
        ∃ accepting : RaftNode, accepting.state.currentTerm = req.term ∧
          accepting.role = .follower ∧ accepting.log = node.log ∧
          accepting.commitIndex = node.commitIndex ∧ accepting.lastApplied = node.lastApplied ∧
          accepting.applyTrace = node.applyTrace ∧
          (node.handleAppendEntries req).1 = accepting.acceptEntries req) := by
  have hle := le_observeTerm node req.term
  unfold handleAppendEntries
  dsimp only
  split_ifs with hlt hprev
  · exact .inl ⟨rfl, by simp, by simp, by simp, by simp⟩
  · have hterm : (node.observeTerm req.term).state.currentTerm = req.term := by omega
    have hold : node.state.currentTerm ≤ req.term := by
      unfold observeTerm at hterm
      split_ifs at hterm with hnew
      · exact hnew.le
      · exact hterm.le
    refine .inr ⟨rfl, hold, ?_,
      { node.observeTerm req.term with role := .follower, leaderId := req.leaderId }, hterm, rfl,
      by simp, by simp, by simp, by simp, rfl⟩
    simpa [prevMatches] using hprev
  · exact .inl ⟨rfl, by simp, by simp, by simp, by simp⟩

/-! ## Requests of a leader -/

theorem observeTerm_of_lt {node : RaftNode} {term : Nat} (h : term < node.state.currentTerm) :
    node.observeTerm term = node := by
  rw [observeTerm, if_neg h.le.not_gt]

theorem observeTerm_of_le {node : RaftNode} {term : Nat} (h : node.state.currentTerm ≤ term) :
    (node.observeTerm term).state.currentTerm = term := by
  unfold observeTerm
  split_ifs with hnew
  · rfl
  · exact le_antisymm h (Nat.le_of_not_lt hnew)

/-- The node as a follower of a leader whose term it has reached. -/
def follow (node : RaftNode) (term : Nat) (leaderId : Int) : RaftNode :=
  { node.observeTerm term with role := .follower, leaderId := leaderId }

theorem handleAppendEntries_of_lt {node : RaftNode} {req : AppendEntriesRequest}
    (h : req.term < node.state.currentTerm) :
    node.handleAppendEntries req = (node, ⟨node.state.currentTerm, false⟩) := by
  unfold handleAppendEntries
  dsimp only
  rw [observeTerm_of_lt h, if_pos h]

theorem handleAppendEntries_eq_of_le {node : RaftNode} {req : AppendEntriesRequest}
    (h : node.state.currentTerm ≤ req.term) :
    node.handleAppendEntries req =
      if node.prevMatches req then
        ((node.follow req.term req.leaderId).acceptEntries req, ⟨req.term, true⟩)
      else (node.follow req.term req.leaderId, ⟨req.term, false⟩) := by
  have hterm := observeTerm_of_le h
  have hprev : (node.follow req.term req.leaderId).prevMatches req = node.prevMatches req := by
    simp [prevMatches, follow]
  unfold handleAppendEntries
  dsimp only
  rw [hterm, if_neg (lt_irrefl _), ← hprev]
  rfl

theorem handleInstallSnapshot_of_lt {node : RaftNode} {req : InstallSnapshotRequest}
    (h : req.term < node.state.currentTerm) :
    node.handleInstallSnapshot req = (node, ⟨node.state.currentTerm⟩) := by
  unfold handleInstallSnapshot
  dsimp only
  rw [observeTerm_of_lt h, if_pos h]

theorem handleInstallSnapshot_eq_of_le {node : RaftNode} {req : InstallSnapshotRequest}
    (h : node.state.currentTerm ≤ req.term) :
    node.handleInstallSnapshot req =
      (if req.lastIncludedIndex ≤ node.log.snapshotLastIndex then
        node.follow req.term req.leaderId
      else
        { node.follow req.term req.leaderId with
          appliedCommands := node.appliedCommands.drop
            (min (req.lastIncludedIndex - node.log.snapshotLastIndex) node.appliedCommands.length)
          lastApplied := max node.lastApplied req.lastIncludedIndex
          commitIndex := max node.commitIndex req.lastIncludedIndex
          log := node.log.compact req.lastIncludedIndex req.lastIncludedTerm req.data },
        ⟨req.term⟩) := by
  have hterm := observeTerm_of_le h
  have hcommands : (node.observeTerm req.term).appliedCommands = node.appliedCommands := by
    unfold observeTerm
    split <;> rfl
  unfold handleInstallSnapshot
  dsimp only
  rw [hterm, if_neg (lt_irrefl _)]
  by_cases hseen : req.lastIncludedIndex ≤ node.log.snapshotLastIndex
  · rw [if_pos (by rwa [observeTerm_log]), if_pos hseen]
    rfl
  · rw [if_neg (by rwa [observeTerm_log]), if_neg hseen, hcommands, observeTerm_lastApplied,
      observeTerm_commitIndex, observeTerm_log]
    rfl

/-- A proposal is taken by a leader only: it appends to the log and then tries to
advance the commit index. -/
theorem propose_eq_some {node node' : RaftNode} {command : Bytes} {call : ProposeCall}
    (h : node.propose command = some (node', call)) :
    node.role = .leader ∧
      node' = advanceCommitIndex
        { node with log := node.log.append node.state.currentTerm command } ∧
      call = ⟨node.nodeId, node.state.currentTerm,
        (node.log.append node.state.currentTerm command).lastIndex, command⟩ := by
  unfold propose at h
  split_ifs at h with hrole
  simp only [Option.some.injEq, Prod.mk.injEq] at h
  exact ⟨not_not.mp hrole, h.1.symm, h.2.symm⟩

/-- A request is built by the leader of the task's term. -/
theorem buildAppendEntries_eq_some {node : RaftNode} {task : SendTask}
    {req : AppendEntriesRequest} (h : node.buildAppendEntries task = some req) :
    node.role = .leader ∧ node.state.currentTerm = task.term ∧
      req = ⟨task.term, node.nodeId, task.nextIdx - 1, node.log.termAt (task.nextIdx - 1),
        entriesFrom node.log task.nextIdx, node.commitIndex⟩ := by
  unfold buildAppendEntries at h
  split_ifs at h with hno
  simp only [Option.some.injEq] at h
  rw [not_or, not_not, not_not] at hno
  exact ⟨hno.1, hno.2, h.symm⟩

/-- A snapshot is sent only by a node that has one. -/
theorem snapshotLastIndex_pos_of_sendCheck {node : RaftNode} {task : SendTask}
    {req : InstallSnapshotRequest} (h : node.sendCheck task = .snapshot req) :
    0 < node.log.snapshotLastIndex := by
  unfold sendCheck at h
  split_ifs at h with hno hlt
  omega

end RaftNode

end NanoDB.Raft
