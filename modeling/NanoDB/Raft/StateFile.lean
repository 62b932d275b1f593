import NanoDB.Lib.Codec
import NanoDB.Lib.Execution
import NanoDB.Raft.Node

/-!
# Votes and terms across crashes

The term and the vote of a node live in a 12-byte file that
{lit}`PersistentState::persist` truncates and then writes.  A process runs the
critical sections of {lit}`RaftNode`; it may stop before, between and inside the
{lit}`persist` calls of a section, and a new process then opens what the file
holds.  A stop inside {lit}`persist` leaves the bytes that had been written since
the truncation.  A stopped process does not take the kernel's file cache with it,
so a completed {lit}`write` is in the file whether or not {lit}`fsync` ran.

What the log file holds after a crash is left open: a new process may find any
log.

Main results:

- Theorem {lit}`votes_survive_crashes`: as long as no process stops inside
  {lit}`persist` after the node made a promise, the current term covers every
  answered term and no two candidates get the vote of one term.
- Theorem {lit}`votes_lost_in_persist`: one stop between the truncation and the
  write makes the node vote twice.
-/

namespace NanoDB.Raft

open NanoDB.Lib

/-! ## The state file -/

namespace PersistentState

/-- The record that {lit}`persist` writes: the term as {lit}`uint64_t`, the vote as
{lit}`int32_t`. -/
def toBytes (st : PersistentState) : Bytes :=
  leBytes 8 st.currentTerm ++ leIntBytes 4 st.votedFor

/-- {lit}`sizeof(buf)` of the source. -/
def recordSize : Nat := 12

/-- What {lit}`open_file` reads; {lean}`none` for a missing or short file. -/
def readRecord (file : Option Bytes) : Option PersistentState :=
  match file with
  | none => none
  | some data =>
      let buf := data.take recordSize
      if buf.length = recordSize then some ⟨leNat (buf.take 8), leInt (buf.drop 8)⟩ else none

/-- The state after {lit}`open_file`: the defaults of the class stand when no
record was read. -/
def openFile (file : Option Bytes) : PersistentState :=
  (readRecord file).getD {}

/-- The file after {lit}`open_file`, which writes the defaults when no record was
read. -/
def fileAfterOpen (file : Option Bytes) : Option Bytes :=
  match readRecord file with
  | some _ => file
  | none => some (toBytes {})

/-- The values fit the types of the source. -/
def Typed (st : PersistentState) : Prop :=
  st.currentTerm < 2 ^ 64 ∧ -2 ^ 31 ≤ st.votedFor ∧ st.votedFor < 2 ^ 31

/-- {lit}`st'` keeps every promise that {lit}`st` stands for: a newer term, or the
same term with the vote unchanged unless it was free. -/
def Keeps (st st' : PersistentState) : Prop :=
  st.currentTerm < st'.currentTerm ∨
    (st.currentTerm = st'.currentTerm ∧ (st.votedFor = -1 ∨ st.votedFor = st'.votedFor))

theorem typed_default : Typed {} := by
  constructor
  · norm_num
  · norm_num

@[simp]
theorem toBytes_length (st : PersistentState) : st.toBytes.length = recordSize := by
  simp [toBytes, recordSize]

/-- A record cut short reads as the defaults, a whole one as itself. -/
theorem openFile_take {st : PersistentState} (h : st.Typed) (n : Nat) :
    openFile (some (st.toBytes.take n)) = if n < recordSize then {} else st := by
  split_ifs with hn
  · have hread : readRecord (some (st.toBytes.take n)) = none := by
      simp only [readRecord, List.take_take]
      rw [if_neg]
      rw [List.length_take, toBytes_length]
      omega
    rw [openFile, hread]
    rfl
  · have hwhole : st.toBytes.take n = st.toBytes :=
      List.take_of_length_le (by rw [toBytes_length]; omega)
    have hbuf : st.toBytes.take recordSize = st.toBytes :=
      List.take_of_length_le (by rw [toBytes_length])
    have hterm : st.toBytes.take 8 = leBytes 8 st.currentTerm := by
      simp [toBytes]
    have hvote : st.toBytes.drop 8 = leIntBytes 4 st.votedFor := by
      simp [toBytes]
    rcases h with ⟨hterm', hlo, hhi⟩
    have hread : readRecord (some st.toBytes) = some st := by
      simp only [readRecord, hbuf, toBytes_length, if_true, hterm, hvote, leNat_leBytes]
      rw [leInt_leIntBytes (by omega) (by omega), Nat.mod_eq_of_lt (by omega)]
    rw [hwhole, openFile, hread]
    rfl

theorem openFile_toBytes {st : PersistentState} (h : st.Typed) :
    openFile (some st.toBytes) = st := by
  have hread := openFile_take h recordSize
  rw [List.take_of_length_le (by rw [toBytes_length])] at hread
  simpa using hread

/-- Opening a file does not change what it is opened as. -/
theorem openFile_fileAfterOpen (file : Option Bytes) :
    openFile (fileAfterOpen file) = openFile file := by
  unfold fileAfterOpen
  cases hread : readRecord file with
  | some st => rfl
  | none =>
      simp only [openFile_toBytes typed_default]
      simp [openFile, hread]

theorem Keeps.refl (st : PersistentState) : st.Keeps st :=
  .inr ⟨rfl, .inr rfl⟩

end PersistentState

/-! ## The critical sections and the records they write -/

/-- The critical sections of a node.  The first three answer an RPC. -/
inductive Operation where
  | requestVote (req : RequestVoteRequest)
  | appendEntries (req : AppendEntriesRequest)
  | installSnapshot (req : InstallSnapshotRequest)
  | startElection
  | requestVoteReply (electionTerm : Nat) (resp : RequestVoteResponse)
  | finishElection (electionTerm votes : Nat)
  | propose (command : Bytes)
  | appendEntriesReply (peerId : Int) (req : AppendEntriesRequest) (resp : AppendEntriesResponse)
  | installSnapshotReply (peerId : Int) (req : InstallSnapshotRequest)
      (resp : InstallSnapshotResponse)
  | compact (upToIndex : Nat) (snapshotData : Bytes)
deriving DecidableEq, Repr

namespace Operation

/-- The fields of the messages fit their wire types. -/
def Typed : Operation → Prop
  | requestVote req =>
      req.term < 2 ^ 64 ∧ -2 ^ 31 ≤ req.candidateId ∧ req.candidateId < 2 ^ 31
  | appendEntries req => req.term < 2 ^ 64
  | installSnapshot req => req.term < 2 ^ 64
  | requestVoteReply _ resp => resp.term < 2 ^ 64
  | appendEntriesReply _ _ resp => resp.term < 2 ^ 64
  | installSnapshotReply _ _ resp => resp.term < 2 ^ 64
  | _ => True

instance : DecidablePred Typed := fun op => by
  cases op <;> unfold Typed <;> infer_instance

end Operation

namespace RaftNode

/-- The first critical section of {lit}`start_election`, with the term counter of
the source: it wraps at {lit}`2 ^ 64`. -/
def startElection64 (node : RaftNode) : RaftNode :=
  let node := node.startElection.1
  { node with state := ⟨node.state.currentTerm % 2 ^ 64, node.state.votedFor⟩ }

/-- The node after a critical section. -/
def perform (node : RaftNode) : Operation → RaftNode
  | .requestVote req => (node.handleRequestVote req).1
  | .appendEntries req => (node.handleAppendEntries req).1
  | .installSnapshot req => (node.handleInstallSnapshot req).1
  | .startElection => node.startElection64
  | .requestVoteReply electionTerm resp => node.handleRequestVoteReply electionTerm resp
  | .finishElection electionTerm votes => node.finishElection electionTerm votes
  | .propose command => ((node.propose command).map (·.1)).getD node
  | .appendEntriesReply peerId req resp => node.handleAppendEntriesReply peerId req resp
  | .installSnapshotReply peerId req resp => node.handleInstallSnapshotReply peerId req resp
  | .compact upToIndex snapshotData => (node.compact upToIndex snapshotData).1

/-- The records of a step down to a message's term. -/
def observeSets (node : RaftNode) (term : Nat) : List PersistentState :=
  if term > node.state.currentTerm then [⟨term, -1⟩] else []

/-- The arguments of the {lit}`state_.set` calls of a critical section, in order. -/
def sets (node : RaftNode) : Operation → List PersistentState
  | .requestVote req =>
      node.observeSets req.term ++
        if (node.handleRequestVote req).2.voteGranted then
          [⟨(node.observeTerm req.term).state.currentTerm, req.candidateId⟩]
        else []
  | .appendEntries req => node.observeSets req.term
  | .installSnapshot req => node.observeSets req.term
  | .startElection => [⟨(node.state.currentTerm + 1) % 2 ^ 64, node.nodeId⟩]
  | .requestVoteReply electionTerm resp =>
      if resp.term > electionTerm then node.observeSets resp.term else []
  | .appendEntriesReply _ _ resp => node.observeSets resp.term
  | .installSnapshotReply _ _ resp => node.observeSets resp.term
  | _ => []

/-- The term of the answer that a critical section sends. -/
def answer (node : RaftNode) : Operation → Option Nat
  | .requestVote req => some (node.handleRequestVote req).2.term
  | .appendEntries req => some (node.handleAppendEntries req).2.term
  | .installSnapshot req => some (node.handleInstallSnapshot req).2.term
  | _ => none

/-- The vote that a critical section gives away, to another node or to the node
itself. -/
def grant (node : RaftNode) : Operation → Option (Nat × Int)
  | .requestVote req =>
      let resp := (node.handleRequestVote req).2
      if resp.voteGranted then some (resp.term, req.candidateId) else none
  | .startElection => some (node.startElection64.state.currentTerm, node.nodeId)
  | _ => none

/-! ### What the critical sections leave in the state -/

section

variable (node : RaftNode)

theorem observeTerm_state (term : Nat) :
    (node.observeTerm term).state = (node.observeSets term).getLast?.getD node.state := by
  unfold observeTerm observeSets
  split_ifs
  · rfl
  · rfl

@[simp]
theorem observeTerm_nodeId (term : Nat) : (node.observeTerm term).nodeId = node.nodeId := by
  unfold observeTerm
  split <;> rfl

theorem handleRequestVote_state (req : RequestVoteRequest) :
    (node.handleRequestVote req).1.state =
      if (node.handleRequestVote req).2.voteGranted then
        ⟨(node.observeTerm req.term).state.currentTerm, req.candidateId⟩
      else (node.observeTerm req.term).state := by
  unfold handleRequestVote
  dsimp only
  split_ifs <;> simp_all

theorem handleRequestVote_respTerm (req : RequestVoteRequest) :
    (node.handleRequestVote req).2.term = (node.observeTerm req.term).state.currentTerm := by
  unfold handleRequestVote
  dsimp only
  split_ifs <;> rfl

theorem handleAppendEntries_state (req : AppendEntriesRequest) :
    (node.handleAppendEntries req).1.state = (node.observeTerm req.term).state := by
  unfold handleAppendEntries
  dsimp only
  split_ifs <;> simp

theorem handleAppendEntries_respTerm (req : AppendEntriesRequest) :
    (node.handleAppendEntries req).2.term = (node.observeTerm req.term).state.currentTerm := by
  unfold handleAppendEntries
  dsimp only
  split_ifs <;> rfl

theorem handleInstallSnapshot_state (req : InstallSnapshotRequest) :
    (node.handleInstallSnapshot req).1.state = (node.observeTerm req.term).state := by
  unfold handleInstallSnapshot
  dsimp only
  split_ifs <;> rfl

theorem handleInstallSnapshot_respTerm (req : InstallSnapshotRequest) :
    (node.handleInstallSnapshot req).2.term = (node.observeTerm req.term).state.currentTerm := by
  unfold handleInstallSnapshot
  dsimp only
  split_ifs <;> rfl

theorem handleAppendEntriesReply_state (peerId : Int) (req : AppendEntriesRequest)
    (resp : AppendEntriesResponse) :
    (node.handleAppendEntriesReply peerId req resp).state = (node.observeTerm resp.term).state := by
  unfold handleAppendEntriesReply observeTerm
  dsimp only
  split_ifs <;> simp

theorem handleInstallSnapshotReply_state (peerId : Int) (req : InstallSnapshotRequest)
    (resp : InstallSnapshotResponse) :
    (node.handleInstallSnapshotReply peerId req resp).state =
      (node.observeTerm resp.term).state := by
  unfold handleInstallSnapshotReply observeTerm
  split_ifs <;> rfl

theorem propose_state (command : Bytes) :
    (((node.propose command).map (·.1)).getD node).state = node.state := by
  unfold propose
  dsimp only
  split_ifs <;> simp

theorem compact_state (upToIndex : Nat) (snapshotData : Bytes) :
    (node.compact upToIndex snapshotData).1.state = node.state := by
  unfold compact
  dsimp only
  split_ifs <;> rfl

theorem finishElection_state (electionTerm votes : Nat) :
    (node.finishElection electionTerm votes).state = node.state := by
  unfold finishElection
  split_ifs <;> rfl

/-- The state in memory after a critical section is the last record it wrote. -/
theorem perform_state (op : Operation) :
    (node.perform op).state = (node.sets op).getLast?.getD node.state := by
  cases op with
  | requestVote req =>
      simp only [perform, sets, handleRequestVote_state]
      split_ifs
      · simp
      · simp [observeTerm_state]
  | appendEntries req => simp only [perform, sets, handleAppendEntries_state, observeTerm_state]
  | installSnapshot req =>
      simp only [perform, sets, handleInstallSnapshot_state, observeTerm_state]
  | startElection => rfl
  | requestVoteReply electionTerm resp =>
      simp only [perform, sets, handleRequestVoteReply]
      split_ifs
      · exact observeTerm_state node resp.term
      · rfl
  | finishElection electionTerm votes => exact finishElection_state node electionTerm votes
  | propose command => exact propose_state node command
  | appendEntriesReply peerId req resp =>
      simp only [perform, sets, handleAppendEntriesReply_state, observeTerm_state]
  | installSnapshotReply peerId req resp =>
      simp only [perform, sets, handleInstallSnapshotReply_state, observeTerm_state]
  | compact upToIndex snapshotData => exact compact_state node upToIndex snapshotData

/-- The configured id of a node never changes. -/
theorem perform_nodeId (op : Operation) : (node.perform op).nodeId = node.nodeId := by
  cases op with
  | requestVote req =>
      simp only [perform, handleRequestVote]
      split_ifs <;> simp
  | appendEntries req =>
      simp only [perform, handleAppendEntries, acceptEntries_eq]
      split_ifs <;> simp
  | installSnapshot req =>
      simp only [perform, handleInstallSnapshot]
      split_ifs <;> simp
  | startElection => rfl
  | requestVoteReply electionTerm resp =>
      simp only [perform, handleRequestVoteReply]
      split_ifs <;> simp
  | finishElection electionTerm votes =>
      simp only [perform, finishElection]
      split_ifs <;> rfl
  | propose command =>
      simp only [perform, propose]
      split_ifs <;> simp
  | appendEntriesReply peerId req resp =>
      simp only [perform, handleAppendEntriesReply, becomeFollower]
      split_ifs <;> simp
  | installSnapshotReply peerId req resp =>
      simp only [perform, handleInstallSnapshotReply, becomeFollower]
      split_ifs <;> simp
  | compact upToIndex snapshotData =>
      simp only [perform, compact]
      split_ifs <;> rfl

variable {node}

/-- An answer carries the term the node has reached. -/
theorem answer_eq_some {op : Operation} {t : Nat} (h : node.answer op = some t) :
    t = (node.perform op).state.currentTerm := by
  cases op with
  | requestVote req =>
      simp only [answer, handleRequestVote_respTerm, Option.some.injEq] at h
      simp only [perform, handleRequestVote_state]
      split_ifs
      · exact h.symm
      · exact h.symm
  | appendEntries req =>
      simp only [answer, handleAppendEntries_respTerm, Option.some.injEq] at h
      simp only [perform, handleAppendEntries_state, h]
  | installSnapshot req =>
      simp only [answer, handleInstallSnapshot_respTerm, Option.some.injEq] at h
      simp only [perform, handleInstallSnapshot_state, h]
  | _ => cases h

/-- A vote given away is the vote that was recorded. -/
theorem grant_eq_some {op : Operation} {t : Nat} {c : Int} (h : node.grant op = some (t, c)) :
    (node.perform op).state = ⟨t, c⟩ := by
  cases op with
  | requestVote req =>
      simp only [grant, handleRequestVote_respTerm] at h
      split_ifs at h with hg
      simp only [Option.some.injEq, Prod.mk.injEq] at h
      simp only [perform, handleRequestVote_state, if_pos hg, h]
  | startElection =>
      simp only [grant, Option.some.injEq, Prod.mk.injEq] at h
      rcases h with ⟨rfl, rfl⟩
      rfl
  | _ => cases h

/-- Every record of a critical section keeps the promises made before it. -/
theorem keeps_of_mem_sets {op : Operation} {st : PersistentState}
    (hwrap : op = .startElection → node.state.currentTerm + 1 < 2 ^ 64)
    (h : st ∈ node.sets op) : node.state.Keeps st := by
  have hobserve : ∀ term, st ∈ node.observeSets term → node.state.Keeps st := by
    intro term hmem
    unfold observeSets at hmem
    split_ifs at hmem with hnew
    · rw [List.mem_singleton] at hmem
      subst hmem
      exact .inl hnew
    · cases hmem
  cases op with
  | requestVote req =>
      simp only [sets, List.mem_append] at h
      rcases h with h | h
      · exact hobserve _ h
      · rcases handleRequestVote_cases node req with ⟨hno, -⟩ | ⟨hyes, -, hfree⟩
        · rw [hno] at h
          cases h
        · have hterm := handleRequestVote_respTerm node req
          rw [hyes] at h hterm
          rw [if_pos rfl, List.mem_singleton] at h
          subst h
          rw [← hterm]
          exact hfree
  | appendEntries req => exact hobserve _ h
  | installSnapshot req => exact hobserve _ h
  | startElection =>
      simp only [sets, List.mem_singleton] at h
      subst h
      rw [Nat.mod_eq_of_lt (hwrap rfl)]
      exact .inl (Nat.lt_succ_self _)
  | requestVoteReply electionTerm resp =>
      simp only [sets] at h
      split_ifs at h
      · exact hobserve _ h
      · cases h
  | appendEntriesReply peerId req resp => exact hobserve _ h
  | installSnapshotReply peerId req resp => exact hobserve _ h
  | _ => cases h

/-- Every record of a critical section fits the file's types. -/
theorem typed_of_mem_sets {op : Operation} {st : PersistentState} (hop : op.Typed)
    (hstate : node.state.Typed) (hlo : -2 ^ 31 ≤ node.nodeId) (hhi : node.nodeId < 2 ^ 31)
    (h : st ∈ node.sets op) : st.Typed := by
  have hobserve : ∀ term, term < 2 ^ 64 → st ∈ node.observeSets term → st.Typed := by
    intro term hterm hmem
    unfold observeSets at hmem
    split_ifs at hmem with hnew
    · rw [List.mem_singleton] at hmem
      subst hmem
      exact ⟨hterm, by norm_num, by norm_num⟩
    · cases hmem
  cases op with
  | requestVote req =>
      simp only [sets, List.mem_append] at h
      rcases h with h | h
      · exact hobserve _ hop.1 h
      · split_ifs at h
        · rw [List.mem_singleton] at h
          subst h
          refine ⟨?_, hop.2⟩
          unfold observeTerm
          split_ifs
          · exact hop.1
          · exact hstate.1
        · cases h
  | appendEntries req => exact hobserve _ hop h
  | installSnapshot req => exact hobserve _ hop h
  | startElection =>
      simp only [sets, List.mem_singleton] at h
      subst h
      exact ⟨Nat.mod_lt _ (by norm_num), hlo, hhi⟩
  | requestVoteReply electionTerm resp =>
      simp only [sets] at h
      split_ifs at h
      · exact hobserve _ hop h
      · cases h
  | appendEntriesReply peerId req resp => exact hobserve _ hop h
  | installSnapshotReply peerId req resp => exact hobserve _ hop h
  | _ => cases h

end

end RaftNode

/-! ## A process that may stop anywhere -/

/-- The configuration a node is always started with; its id is an {lit}`int`. -/
structure NodeConfig where
  nodeId : Int
  peers : List Int
  nodeId_lo : -2 ^ 31 ≤ nodeId
  nodeId_hi : nodeId < 2 ^ 31

/-- A node over its lifetime: the state file, the running process if there is one,
and two histories, the terms in which it answered an RPC and the votes it gave. -/
structure Process where
  file : Option Bytes := none
  node : Option RaftNode := none
  answered : List Nat := []
  granted : List (Nat × Int) := []

/-- {lit}`boot` starts a process on the files, {lit}`stopInBoot` starts one that
stops {lit}`written` bytes into the {lit}`persist` of {lit}`open_file`.  {lit}`operate` runs a
critical section to its end.  {lit}`stop` ends the process in a critical section
that has completed {lit}`done` of its {lit}`persist` calls; with
{lit}`cut = some n` the next call had truncated the file and written {lit}`n`
bytes. -/
inductive ProcessAction where
  | boot (log : RaftLog)
  | stopInBoot (written : Nat)
  | operate (op : Operation)
  | stop (op : Operation) (done : Nat) (cut : Option Nat)
deriving DecidableEq, Repr

/-- The state file after a list of completed {lit}`persist` calls. -/
def persistAll (file : Option Bytes) (sets : List PersistentState) : Option Bytes :=
  match sets.getLast? with
  | none => file
  | some st => some st.toBytes

/-- The state file that a stopped critical section leaves behind. -/
def fileAfterStop (file : Option Bytes) (sets : List PersistentState) (done : Nat)
    (cut : Option Nat) : Option Bytes :=
  match cut, sets[done]? with
  | some n, some st => some (st.toBytes.take n)
  | _, _ => persistAll file (sets.take done)

section

variable {file : Option Bytes} {sets : List PersistentState}

theorem openFile_persistAll (htyped : ∀ st ∈ sets, st.Typed) :
    PersistentState.openFile (persistAll file sets) =
      sets.getLast?.getD (PersistentState.openFile file) := by
  unfold persistAll
  cases hlast : sets.getLast? with
  | none => rfl
  | some st =>
      exact PersistentState.openFile_toBytes (htyped st (List.mem_of_getLast? hlast))

/-- A stopped critical section leaves the old record, one of its own records, or,
when it stopped inside a {lit}`persist`, nothing that can be read. -/
theorem openFile_fileAfterStop (htyped : ∀ st ∈ sets, st.Typed) (done : Nat) (cut : Option Nat) :
    PersistentState.openFile (fileAfterStop file sets done cut) = PersistentState.openFile file ∨
      PersistentState.openFile (fileAfterStop file sets done cut) ∈ sets ∨
      (PersistentState.openFile (fileAfterStop file sets done cut) = {} ∧
        ∃ n, cut = some n ∧ n < PersistentState.recordSize) := by
  have hdone : PersistentState.openFile (persistAll file (sets.take done)) =
      PersistentState.openFile file ∨
      PersistentState.openFile (persistAll file (sets.take done)) ∈ sets := by
    rw [openFile_persistAll (fun st hst => htyped st (List.mem_of_mem_take hst))]
    cases hlast : (sets.take done).getLast? with
    | none => exact .inl rfl
    | some st => exact .inr (List.mem_of_mem_take (List.mem_of_getLast? hlast))
  unfold fileAfterStop
  cases cut with
  | none => exact hdone.imp_right .inl
  | some n =>
      cases hnext : sets[done]? with
      | none => exact hdone.imp_right .inl
      | some st =>
          have hmem := List.mem_of_getElem? hnext
          simp only [PersistentState.openFile_take (htyped st hmem)]
          split_ifs with hn
          · exact .inr (.inr ⟨rfl, n, rfl, hn⟩)
          · exact .inr (.inl hmem)

end

namespace Process

/-- The transition function of a process. -/
def step (config : NodeConfig) (p : Process) : ProcessAction → Option Process
  | .boot log =>
      match p.node with
      | some _ => none
      | none =>
          some { p with
            file := PersistentState.fileAfterOpen p.file
            node := some (RaftNode.openFiles config.nodeId config.peers
              (PersistentState.openFile p.file) log) }
  | .stopInBoot written =>
      match p.node, PersistentState.readRecord p.file with
      | none, none =>
          some { p with file := some ((PersistentState.toBytes {}).take written) }
      | _, _ => none
  | .operate op =>
      match p.node with
      | none => none
      | some node =>
          if op.Typed then
            some
              { file := persistAll p.file (node.sets op)
                node := some (node.perform op)
                answered := (node.answer op).toList ++ p.answered
                granted := (node.grant op).toList ++ p.granted }
          else none
  | .stop op done cut =>
      match p.node with
      | none => none
      | some node =>
          if op.Typed then
            some { p with
              file := fileAfterStop p.file (node.sets op) done cut
              node := none }
          else none

/-- The node has told others something that a reset to the defaults would forget. -/
def Promised (p : Process) : Prop :=
  (∃ t ∈ p.answered, 0 < t) ∨ p.granted ≠ []

/-- The term counter is not about to wrap. -/
def NoWrap (p : Process) (op : Operation) : Prop :=
  op = .startElection → ∀ node, p.node = some node → node.state.currentTerm + 1 < 2 ^ 64

/-- No vote is given to the id that stands for no vote. -/
def RealCandidate (p : Process) : Operation → Prop
  | .requestVote req => req.candidateId ≠ -1
  | .startElection => ∀ node, p.node = some node → node.nodeId ≠ -1
  | _ => True

/-- The condition on a step: a process of a node that made a promise does not stop
between the truncation of the state file and the end of the write. -/
def Durable (p : Process) : ProcessAction → Prop
  | .boot _ => True
  | .stopInBoot _ => True
  | .operate op => p.NoWrap op ∧ p.RealCandidate op
  | .stop op _ cut =>
      p.NoWrap op ∧ ∀ n, cut = some n → n < PersistentState.recordSize → ¬ p.Promised

/-- The running node has reached every term it answered in, and no vote of one
term went to two candidates. -/
def VotesSurvive (p : Process) : Prop :=
  (∀ node, p.node = some node → ∀ t ∈ p.answered, t ≤ node.state.currentTerm) ∧
    ∀ t c c', (t, c) ∈ p.granted → (t, c') ∈ p.granted → c = c'

/-! ### The invariant -/

/-- The state that the file stands for backs every answer and every vote. -/
structure Backed (p : Process) (st : PersistentState) : Prop where
  answered : ∀ t ∈ p.answered, t ≤ st.currentTerm
  granted : ∀ t c, (t, c) ∈ p.granted →
    c ≠ -1 ∧ t ≤ st.currentTerm ∧ (t = st.currentTerm → st.votedFor = c)

/-- What holds of a process between its steps. -/
structure Inv (config : NodeConfig) (p : Process) : Prop where
  typed : (PersistentState.openFile p.file).Typed
  backed : p.Backed (PersistentState.openFile p.file)
  node : ∀ node, p.node = some node →
    node.state = PersistentState.openFile p.file ∧ node.nodeId = config.nodeId
  unique : ∀ t c c', (t, c) ∈ p.granted → (t, c') ∈ p.granted → c = c'

variable {config : NodeConfig} {p p' : Process}

/-- A state that keeps the old promises backs the same history. -/
theorem Backed.keeps {st st' : PersistentState} (h : p.Backed st) (hkeeps : st.Keeps st') :
    p.Backed st' where
  answered t ht := by
    have hle := h.answered t ht
    rcases hkeeps with hlt | ⟨heq, -⟩ <;> omega
  granted t c hc := by
    rcases h.granted t c hc with ⟨hreal, hle, hvote⟩
    rcases hkeeps with hlt | ⟨heq, hfree⟩
    · exact ⟨hreal, by omega, fun ht => by omega⟩
    · refine ⟨hreal, by omega, fun ht => ?_⟩
      have hold := hvote (by omega)
      rcases hfree with hnone | hsame
      · exact absurd (hold.symm.trans hnone) hreal
      · rw [← hsame, hold]

/-- Nothing promised, nothing to back. -/
theorem backed_of_not_promised (h : ¬ p.Promised) : p.Backed {} := by
  rw [Promised, not_or, not_not] at h
  constructor
  · intro t ht
    apply Nat.le_of_not_lt
    intro hpos
    exact h.1 ⟨t, ht, hpos⟩
  · intro t c hc
    rw [h.2] at hc
    cases hc

theorem inv_init (config : NodeConfig) : Inv config {} where
  typed := PersistentState.typed_default
  backed := backed_of_not_promised (by simp [Promised])
  node := by simp
  unique := by simp

/-- Starting a process changes neither the record nor the history. -/
theorem inv_boot (h : Inv config p) {log : RaftLog}
    (hstep : step config p (.boot log) = some p') : Inv config p' := by
  simp only [step] at hstep
  split at hstep
  · cases hstep
  · cases hstep
    have hsame := PersistentState.openFile_fileAfterOpen p.file
    constructor
    · simpa only [hsame] using h.typed
    · simpa only [hsame] using ⟨h.backed.answered, h.backed.granted⟩
    · intro node hnode
      cases hnode
      exact ⟨hsame.symm, rfl⟩
    · exact h.unique

/-- A process that stops while it writes the defaults leaves the defaults. -/
theorem inv_stopInBoot (h : Inv config p) {written : Nat}
    (hstep : step config p (.stopInBoot written) = some p') : Inv config p' := by
  simp only [step] at hstep
  split at hstep
  · rename_i hnode hread
    cases hstep
    have hold : PersistentState.openFile p.file = {} := by
      rw [PersistentState.openFile, hread]
      rfl
    have hnew : PersistentState.openFile (some ((PersistentState.toBytes {}).take written)) =
        {} := by
      rw [PersistentState.openFile_take PersistentState.typed_default]
      split_ifs <;> rfl
    constructor
    · simpa only [hnew] using PersistentState.typed_default
    · have hbacked := h.backed
      rw [hold] at hbacked
      simpa only [hnew] using ⟨hbacked.answered, hbacked.granted⟩
    · intro node hsome
      rw [hnode] at hsome
      cases hsome
    · exact h.unique
  · cases hstep

section Node

variable {node : RaftNode} {op : Operation}

/-- Every record that a critical section writes has the ranges of its types. -/
theorem Inv.typed_sets (h : Inv config p) (hnode : p.node = some node) (htyped : op.Typed)
    {st : PersistentState} (hst : st ∈ node.sets op) : st.Typed := by
  rcases h.node node hnode with ⟨hstate, hid⟩
  exact RaftNode.typed_of_mem_sets htyped (hstate ▸ h.typed) (hid ▸ config.nodeId_lo)
    (hid ▸ config.nodeId_hi) hst

/-- The state after a critical section has the ranges of its types and keeps the promises
made before. -/
theorem Inv.typed_keeps_perform (h : Inv config p) (hnode : p.node = some node)
    (htyped : op.Typed) (hwrap : p.NoWrap op) :
    (node.perform op).state.Typed ∧
      (PersistentState.openFile p.file).Keeps (node.perform op).state := by
  have hstate := (h.node node hnode).1
  rw [RaftNode.perform_state, ← hstate]
  cases hlast : (node.sets op).getLast? with
  | none => exact ⟨hstate ▸ h.typed, PersistentState.Keeps.refl _⟩
  | some st =>
      have hmem := List.mem_of_getLast? hlast
      exact ⟨h.typed_sets hnode htyped hmem,
        RaftNode.keeps_of_mem_sets (fun hop => hwrap hop node hnode) hmem⟩

/-- A vote is written before it is given, and it goes to a real candidate. -/
theorem granted_by_perform (hnode : p.node = some node) (hreal : p.RealCandidate op) {t : Nat}
    {c : Int} (hgrant : node.grant op = some (t, c)) :
    (node.perform op).state = ⟨t, c⟩ ∧ c ≠ -1 := by
  refine ⟨RaftNode.grant_eq_some hgrant, ?_⟩
  cases op with
  | requestVote req =>
      simp only [RaftNode.grant] at hgrant
      split_ifs at hgrant
      cases hgrant
      exact hreal
  | startElection =>
      cases hgrant
      exact hreal node hnode
  | _ => cases hgrant

end Node

/-- A completed critical section records what it answers and grants. -/
theorem inv_operate (h : Inv config p) {op : Operation} (hok : p.Durable (.operate op))
    (hstep : step config p (.operate op) = some p') : Inv config p' := by
  rcases hok with ⟨hwrap, hreal⟩
  simp only [step] at hstep
  split at hstep
  · cases hstep
  rename_i node hnode
  split_ifs at hstep with htyped
  cases hstep
  rcases h.node node hnode with ⟨hstate, hid⟩
  rcases h.typed_keeps_perform hnode htyped hwrap with ⟨htyped', hkeeps⟩
  have hopen : PersistentState.openFile (persistAll p.file (node.sets op)) =
      (node.perform op).state := by
    rw [openFile_persistAll fun st => h.typed_sets hnode htyped, RaftNode.perform_state, hstate]
  have hold := h.backed.keeps hkeeps
  constructor
  · simp only [hopen]
    exact htyped'
  · simp only [hopen]
    constructor
    · intro t ht
      simp only [List.mem_append, Option.mem_toList] at ht
      rcases ht with ht | ht
      · exact (RaftNode.answer_eq_some ht).le
      · exact hold.answered t ht
    · intro t c hc
      simp only [List.mem_append, Option.mem_toList] at hc
      rcases hc with hc | hc
      · rcases granted_by_perform hnode hreal hc with ⟨hst, hne⟩
        exact ⟨hne, by rw [hst], fun _ => by rw [hst]⟩
      · exact hold.granted t c hc
  · intro node' hnode'
    cases hnode'
    exact ⟨hopen.symm, by rw [RaftNode.perform_nodeId, hid]⟩
  · intro t c c' hc hc'
    simp only [List.mem_append, Option.mem_toList] at hc hc'
    have hnew : ∀ c, node.grant op = some (t, c) → ∀ c', (t, c') ∈ p.granted → c = c' := by
      intro c hc c' hc'
      have hst := (granted_by_perform hnode hreal hc).1
      have hvote := (hold.granted t c' hc').2.2 (by rw [hst])
      rw [hst] at hvote
      exact hvote
    rcases hc with hc | hc <;> rcases hc' with hc' | hc'
    · rw [hc] at hc'
      cases hc'
      rfl
    · exact hnew c hc c' hc'
    · exact (hnew c' hc' c hc).symm
    · exact h.unique t c c' hc hc'

/-- A stopped critical section answers nothing and leaves a record that keeps the
promises made before. -/
theorem inv_stop (h : Inv config p) {op : Operation} {done : Nat} {cut : Option Nat}
    (hok : p.Durable (.stop op done cut))
    (hstep : step config p (.stop op done cut) = some p') : Inv config p' := by
  rcases hok with ⟨hwrap, hcut⟩
  simp only [step] at hstep
  split at hstep
  · cases hstep
  rename_i node hnode
  split_ifs at hstep with htyped
  cases hstep
  have hstate := (h.node node hnode).1
  have hsets : ∀ st ∈ node.sets op, st.Typed := fun st => h.typed_sets hnode htyped
  have hleft : (PersistentState.openFile (fileAfterStop p.file (node.sets op) done cut)).Typed ∧
      p.Backed (PersistentState.openFile (fileAfterStop p.file (node.sets op) done cut)) := by
    rcases openFile_fileAfterStop hsets done cut with hsame | hmem | ⟨hreset, n, hn, hshort⟩
    · rw [hsame]
      exact ⟨h.typed, h.backed⟩
    · have hkeeps := RaftNode.keeps_of_mem_sets (fun hop => hwrap hop node hnode) hmem
      rw [hstate] at hkeeps
      exact ⟨hsets _ hmem, h.backed.keeps hkeeps⟩
    · rw [hreset]
      exact ⟨PersistentState.typed_default, backed_of_not_promised (hcut n hn hshort)⟩
  constructor
  · exact hleft.1
  · exact ⟨hleft.2.answered, hleft.2.granted⟩
  · intro node' hnode'
    cases hnode'
  · exact h.unique

theorem inv_step (h : Inv config p) {a : ProcessAction} (hok : p.Durable a)
    (hstep : step config p a = some p') : Inv config p' := by
  cases a with
  | boot log => exact inv_boot h hstep
  | stopInBoot written => exact inv_stopInBoot h hstep
  | operate op => exact inv_operate h hok hstep
  | stop op done cut => exact inv_stop h hok hstep

/-! ### Votes and terms over whole runs -/

/-- In every run in which no process of a node that made a promise stops inside
{lit}`persist`, no vote is given to the id {lit}`-1` and the term counter does not
wrap, the terms and votes the node gave out survive every restart. -/
theorem votes_survive_crashes (config : NodeConfig) (as : List ProcessAction) (p : Process)
    (h : Exec (step config) Durable {} as p) : p.VotesSurvive := by
  have hinv : Inv config p :=
    h.invariant (Inv config) (fun _ _ _ hinv hok hstep => inv_step hinv hok hstep)
      (inv_init config)
  constructor
  · intro node hnode t ht
    rw [(hinv.node node hnode).1]
    exact hinv.backed.answered t ht
  · exact hinv.unique

/-- Node 1 of three. -/
private def nodeOne : NodeConfig where
  nodeId := 1
  peers := [1, 2, 3]
  nodeId_lo := by norm_num
  nodeId_hi := by norm_num

/-- A candidate of term 5 asks for a vote. -/
private def askVote (candidateId : Int) : Operation :=
  .requestVote ⟨5, candidateId, 0, 0⟩

/-- A node votes, stops after the {lit}`persist` of its own election and comes
back: the newer term and the vote are still there. -/
theorem votes_survive_crashes_stopAfterPersist :
    ∃ p : Process, Exec (step nodeOne) Durable {}
        [.boot {}, .operate (askVote 2), .stop .startElection 1 none, .boot {}] p ∧
      p.node.isSome ∧ p.answered = [5] ∧ p.granted = [(5, 2)] ∧ p.VotesSurvive := by
  have hrun : ∃ p : Process, Exec (step nodeOne) Durable {}
        [.boot {}, .operate (askVote 2), .stop .startElection 1 none, .boot {}] p ∧
      p.node.isSome ∧ p.answered = [5] ∧ p.granted = [(5, 2)] := by
    refine ⟨_, .cons trivial rfl (.cons ⟨?_, ?_⟩ rfl (.cons ⟨?_, ?_⟩ rfl (.cons trivial rfl
      (.nil _)))), rfl, rfl, rfl⟩
    · intro hop
      cases hop
    · exact (by decide : (2 : Int) ≠ -1)
    · intro _ node hnode
      cases hnode
      decide
    · intro n hn
      cases hn
  rcases hrun with ⟨p, hexec, hnode, hanswered, hgranted⟩
  exact ⟨p, hexec, hnode, hanswered, hgranted, votes_survive_crashes nodeOne _ p hexec⟩

/-- A stop between the truncation and the write resets the node to term 0 without a
vote, and it votes in term 5 again, for another candidate. -/
theorem votes_lost_in_persist :
    ∃ p q : Process,
      Exec (step nodeOne) (fun _ _ => True) {}
        [.boot {}, .operate (askVote 2), .stop .startElection 0 (some 0), .boot {}] p ∧
      ¬ p.VotesSurvive ∧
      Exec (step nodeOne) (fun _ _ => True) p [.operate (askVote 3)] q ∧
      (5, 2) ∈ q.granted ∧ (5, 3) ∈ q.granted ∧ ¬ q.VotesSurvive := by
  refine ⟨_, _, .cons trivial rfl (.cons trivial rfl (.cons trivial rfl (.cons trivial rfl
    (.nil _)))), ?_, .cons trivial rfl (.nil _), ?_, ?_, ?_⟩
  · intro hsurvive
    exact absurd (hsurvive.1 _ rfl 5 (by decide)) (by decide)
  · decide
  · decide
  · intro hsurvive
    exact absurd (hsurvive.2 5 2 3 (by decide) (by decide)) (by decide)

end Process

end NanoDB.Raft
