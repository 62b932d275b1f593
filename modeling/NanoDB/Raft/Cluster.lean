import Mathlib.Logic.Function.Basic
import NanoDB.Lib.Execution
import NanoDB.Raft.Node

/-!
# A cluster of Raft nodes

The nodes of a cluster run their critical sections one at a time, in any order,
and talk over a network.  A message stays in the network once it is sent, so it
may be handled late, out of order, several times or never; calls that are between
two of their critical sections are kept in pools in the same way.  A reply carries
the request it answers, because the sending thread holds that request.

Main results:

- Definition {lit}`step`: the executable transition function, one action for each
  critical section, and one for a restart.
- Theorem {lit}`step_cases`: what each enabled action does to the state.
-/

namespace NanoDB.Raft

open RaftNode

/-- A fixed membership: every node is configured with the same peer list, which
has no duplicates and does not contain the id that stands for no vote. -/
structure Membership where
  peers : List Int
  nodup : peers.Nodup
  noVote_notMem : -1 ∉ peers

/-- What travels between nodes. -/
inductive Message where
  | requestVote (dst : Int) (req : RequestVoteRequest)
  | requestVoteReply (src : Int) (req : RequestVoteRequest) (resp : RequestVoteResponse)
  | appendEntries (dst : Int) (req : AppendEntriesRequest)
  | appendEntriesReply (src : Int) (req : AppendEntriesRequest) (resp : AppendEntriesResponse)
  | installSnapshot (dst : Int) (req : InstallSnapshotRequest)
  | installSnapshotReply (src : Int) (req : InstallSnapshotRequest)
      (resp : InstallSnapshotResponse)
deriving DecidableEq, Repr

/-- The node and the term of a request, {lean}`none` for a reply. -/
def Message.request? : Message → Option (Int × Nat)
  | .requestVote dst req => some (dst, req.term)
  | .appendEntries dst req => some (dst, req.term)
  | .installSnapshot dst req => some (dst, req.term)
  | _ => none

/-- The state of a cluster.  {lit}`election n` is the election that the ticker
thread of {lit}`n` is waiting for; {lit}`tasks` and {lit}`checked` hold the calls
of {lit}`send_append_entries_to_peer` before their first and second critical
section. -/
structure ClusterState where
  node : Int → RaftNode
  election : Int → Option RequestVoteRequest := fun _ => none
  tasks : List (Int × SendTask) := []
  checked : List (Int × SendTask) := []
  proposals : List ProposeCall := []
  net : List Message := []

/-- All nodes start on empty files. -/
def ClusterState.init (c : Membership) : ClusterState where
  node n := openFiles n c.peers {} {}

/-- Whether a peer's vote for the request has been granted and the reply can be
counted. -/
def voteCounted (net : List Message) (p : Int) (req : RequestVoteRequest) : Bool :=
  net.any fun
    | .requestVoteReply src r resp =>
        decide (src = p) && decide (r = req) && decide (resp.term ≤ req.term) && resp.voteGranted
    | _ => false

/-- A counted vote is a granted reply in the network. -/
theorem exists_of_voteCounted {net : List Message} {p : Int} {req : RequestVoteRequest}
    (h : voteCounted net p req = true) :
    ∃ resp, .requestVoteReply p req resp ∈ net ∧ resp.voteGranted = true := by
  simp only [voteCounted, List.any_eq_true] at h
  rcases h with ⟨m, hm, hok⟩
  split at hok
  · simp only [Bool.and_eq_true, decide_eq_true_eq] at hok
    obtain ⟨⟨⟨rfl, rfl⟩, -⟩, hg⟩ := hok
    exact ⟨_, hm, hg⟩
  · contradiction

/-- One action for each critical section, one for a restart, and one for a crash
between the two writes of a handler: the newer term is on disk, the rest of the
handler did not run. -/
inductive Action where
  | startElection (n : Int)
  | handleRequestVote (n : Int) (req : RequestVoteRequest)
  | handleRequestVoteReply (src : Int) (req : RequestVoteRequest) (resp : RequestVoteResponse)
  | finishElection (n : Int) (granted : List Int)
  | propose (n : Int) (command : Bytes)
  | replicate (n : Int)
  | sendCheck (n : Int) (task : SendTask)
  | sendAppendEntries (n : Int) (task : SendTask)
  | handleAppendEntries (n : Int) (req : AppendEntriesRequest)
  | handleAppendEntriesReply (src : Int) (req : AppendEntriesRequest)
      (resp : AppendEntriesResponse)
  | handleInstallSnapshot (n : Int) (req : InstallSnapshotRequest)
  | handleInstallSnapshotReply (src : Int) (req : InstallSnapshotRequest)
      (resp : InstallSnapshotResponse)
  | compact (n : Int) (upToIndex : Nat) (snapshotData : Bytes)
  | restart (n : Int)
  | crashAfterStepDown (n : Int) (m : Message)
deriving DecidableEq, Repr

namespace ClusterState

/-- Replace the state of one node and send messages. -/
def update (s : ClusterState) (n : Int) (node : RaftNode) (msgs : List Message := []) :
    ClusterState :=
  { s with node := Function.update s.node n node, net := msgs ++ s.net }

/-- Replace what the ticker thread of a node is waiting for. -/
def setElection (s : ClusterState) (n : Int) (e : Option RequestVoteRequest) : ClusterState :=
  { s with election := Function.update s.election n e }

section

variable (s : ClusterState) (n : Int) (node : RaftNode) (msgs : List Message)
  (e : Option RequestVoteRequest)

@[simp] theorem update_node : (s.update n node msgs).node = Function.update s.node n node := rfl

@[simp] theorem update_net : (s.update n node msgs).net = msgs ++ s.net := rfl

@[simp] theorem update_election : (s.update n node msgs).election = s.election := rfl

@[simp] theorem update_tasks : (s.update n node msgs).tasks = s.tasks := rfl

@[simp] theorem update_checked : (s.update n node msgs).checked = s.checked := rfl

@[simp] theorem setElection_node : (s.setElection n e).node = s.node := rfl

@[simp] theorem setElection_net : (s.setElection n e).net = s.net := rfl

@[simp] theorem setElection_election :
    (s.setElection n e).election = Function.update s.election n e := rfl

@[simp] theorem setElection_tasks : (s.setElection n e).tasks = s.tasks := rfl

@[simp] theorem setElection_checked : (s.setElection n e).checked = s.checked := rfl

end

/-- A reflexive relation between the nodes before and after a step holds of all of them if
it holds of the one that is replaced. -/
theorem rel_update {R : RaftNode → RaftNode → Prop} (hrefl : ∀ node, R node node)
    {s : ClusterState} {n : Int} {node : RaftNode} (h : R (s.node n) node) (m : Int) :
    R (s.node m) (Function.update s.node n node m) := by
  by_cases hm : m = n
  · subst hm
    rwa [Function.update_self]
  · rw [Function.update_of_ne hm]
    exact hrefl _

end ClusterState

/-- The transition function; {lean}`none` when the action is not enabled. -/
def step (c : Membership) (s : ClusterState) : Action → Option ClusterState
  | .startElection n =>
      if n ∈ c.peers ∧ (s.node n).role ≠ .leader ∧ s.election n = none then
        let (node, req) := (s.node n).startElection
        some ((s.update n node (node.stubs.map fun p => .requestVote p req)).setElection n
          (some req))
      else none
  | .handleRequestVote n req =>
      if .requestVote n req ∈ s.net then
        let (node, resp) := (s.node n).handleRequestVote req
        some (s.update n node [.requestVoteReply n req resp])
      else none
  | .handleRequestVoteReply src req resp =>
      if .requestVoteReply src req resp ∈ s.net ∧ s.election req.candidateId = some req then
        some (s.update req.candidateId
          ((s.node req.candidateId).handleRequestVoteReply req.term resp))
      else none
  | .finishElection n granted =>
      match s.election n with
      | none => none
      | some req =>
          if granted.Nodup ∧
              ∀ p ∈ granted, p ∈ (s.node n).stubs ∧ voteCounted s.net p req = true then
            some ((s.update n ((s.node n).finishElection req.term
              (1 + granted.length))).setElection n none)
          else none
  | .propose n command =>
      if n ∈ c.peers then
        match (s.node n).propose command with
        | none => some s
        | some (node, call) => some { s.update n node with proposals := call :: s.proposals }
      else none
  | .replicate n =>
      if n ∈ c.peers then
        some { s with tasks := ((s.node n).replicateToFollowers.map fun t => (n, t)) ++ s.tasks }
      else none
  | .sendCheck n task =>
      if (n, task) ∈ s.tasks then
        match (s.node n).sendCheck task with
        | .stop => some s
        | .snapshot req => some { s with net := .installSnapshot task.peerId req :: s.net }
        | .append => some { s with checked := (n, task) :: s.checked }
      else none
  | .sendAppendEntries n task =>
      if (n, task) ∈ s.checked then
        match (s.node n).buildAppendEntries task with
        | none => some s
        | some req => some { s with net := .appendEntries task.peerId req :: s.net }
      else none
  | .handleAppendEntries n req =>
      if .appendEntries n req ∈ s.net then
        let (node, resp) := (s.node n).handleAppendEntries req
        some (s.update n node [.appendEntriesReply n req resp])
      else none
  | .handleAppendEntriesReply src req resp =>
      if .appendEntriesReply src req resp ∈ s.net then
        some (s.update req.leaderId
          ((s.node req.leaderId).handleAppendEntriesReply src req resp))
      else none
  | .handleInstallSnapshot n req =>
      if .installSnapshot n req ∈ s.net then
        let (node, resp) := (s.node n).handleInstallSnapshot req
        some (s.update n node [.installSnapshotReply n req resp])
      else none
  | .handleInstallSnapshotReply src req resp =>
      if .installSnapshotReply src req resp ∈ s.net then
        some (s.update req.leaderId
          ((s.node req.leaderId).handleInstallSnapshotReply src req resp))
      else none
  | .compact n upToIndex snapshotData =>
      if n ∈ c.peers then
        some (s.update n ((s.node n).compact upToIndex snapshotData).1)
      else none
  | .restart n =>
      if n ∈ c.peers then
        some ((s.update n ((s.node n).restart (s.node n).state)).setElection n none)
      else none
  | .crashAfterStepDown n m =>
      match m.request? with
      | none => none
      | some (dst, term) =>
          if m ∈ s.net ∧ dst = n ∧ term > (s.node n).state.currentTerm then
            some ((s.update n ((s.node n).restart ⟨term, -1⟩)).setElection n none)
          else none

/-! ## What an enabled action does -/

/-- The transitions as a relation: one constructor for each way an action can
succeed, with the state it leads to. -/
inductive Step (c : Membership) (s : ClusterState) : Action → ClusterState → Prop
  | startElection {n : Int} (hn : n ∈ c.peers) (hrole : (s.node n).role ≠ .leader)
      (hidle : s.election n = none) :
      Step c s (.startElection n)
        ((s.update n (s.node n).startElection.1
          ((s.node n).startElection.1.stubs.map fun p =>
            .requestVote p (s.node n).startElection.2)).setElection n
              (some (s.node n).startElection.2))
  | handleRequestVote {n : Int} {req : RequestVoteRequest} (hmem : .requestVote n req ∈ s.net) :
      Step c s (.handleRequestVote n req)
        (s.update n ((s.node n).handleRequestVote req).1
          [.requestVoteReply n req ((s.node n).handleRequestVote req).2])
  | handleRequestVoteReply {src : Int} {req : RequestVoteRequest} {resp : RequestVoteResponse}
      (hmem : .requestVoteReply src req resp ∈ s.net)
      (hel : s.election req.candidateId = some req) :
      Step c s (.handleRequestVoteReply src req resp)
        (s.update req.candidateId
          ((s.node req.candidateId).handleRequestVoteReply req.term resp))
  | finishElection {n : Int} {granted : List Int} {req : RequestVoteRequest}
      (hel : s.election n = some req) (hnodup : granted.Nodup)
      (hcount : ∀ p ∈ granted, p ∈ (s.node n).stubs ∧ voteCounted s.net p req = true) :
      Step c s (.finishElection n granted)
        ((s.update n ((s.node n).finishElection req.term (1 + granted.length))).setElection n
          none)
  | proposeRefused {n : Int} {command : Bytes} (hrole : (s.node n).role ≠ .leader) :
      Step c s (.propose n command) s
  | propose {n : Int} {command : Bytes} {node : RaftNode} {call : ProposeCall}
      (hn : n ∈ c.peers) (hcall : (s.node n).propose command = some (node, call)) :
      Step c s (.propose n command) { s.update n node with proposals := call :: s.proposals }
  | replicate {n : Int} (hn : n ∈ c.peers) :
      Step c s (.replicate n)
        { s with tasks := ((s.node n).replicateToFollowers.map fun t => (n, t)) ++ s.tasks }
  | sendStop {n : Int} {task : SendTask} : Step c s (.sendCheck n task) s
  | sendSnapshot {n : Int} {task : SendTask} {req : InstallSnapshotRequest}
      (hmem : (n, task) ∈ s.tasks) (hreq : (s.node n).sendCheck task = .snapshot req) :
      Step c s (.sendCheck n task) { s with net := .installSnapshot task.peerId req :: s.net }
  | sendChecked {n : Int} {task : SendTask} (hmem : (n, task) ∈ s.tasks)
      (hgo : (s.node n).sendCheck task = .append) :
      Step c s (.sendCheck n task) { s with checked := (n, task) :: s.checked }
  | sendRefused {n : Int} {task : SendTask} : Step c s (.sendAppendEntries n task) s
  | sendAppendEntries {n : Int} {task : SendTask} {req : AppendEntriesRequest}
      (hmem : (n, task) ∈ s.checked) (hreq : (s.node n).buildAppendEntries task = some req) :
      Step c s (.sendAppendEntries n task)
        { s with net := .appendEntries task.peerId req :: s.net }
  | handleAppendEntries {n : Int} {req : AppendEntriesRequest}
      (hmem : .appendEntries n req ∈ s.net) :
      Step c s (.handleAppendEntries n req)
        (s.update n ((s.node n).handleAppendEntries req).1
          [.appendEntriesReply n req ((s.node n).handleAppendEntries req).2])
  | handleAppendEntriesReply {src : Int} {req : AppendEntriesRequest}
      {resp : AppendEntriesResponse} (hmem : .appendEntriesReply src req resp ∈ s.net) :
      Step c s (.handleAppendEntriesReply src req resp)
        (s.update req.leaderId ((s.node req.leaderId).handleAppendEntriesReply src req resp))
  | handleInstallSnapshot {n : Int} {req : InstallSnapshotRequest}
      (hmem : .installSnapshot n req ∈ s.net) :
      Step c s (.handleInstallSnapshot n req)
        (s.update n ((s.node n).handleInstallSnapshot req).1
          [.installSnapshotReply n req ((s.node n).handleInstallSnapshot req).2])
  | handleInstallSnapshotReply {src : Int} {req : InstallSnapshotRequest}
      {resp : InstallSnapshotResponse} (hmem : .installSnapshotReply src req resp ∈ s.net) :
      Step c s (.handleInstallSnapshotReply src req resp)
        (s.update req.leaderId ((s.node req.leaderId).handleInstallSnapshotReply src req resp))
  | compact {n : Int} {upToIndex : Nat} {snapshotData : Bytes} :
      Step c s (.compact n upToIndex snapshotData)
        (s.update n ((s.node n).compact upToIndex snapshotData).1)
  | restart {n : Int} :
      Step c s (.restart n)
        ((s.update n ((s.node n).restart (s.node n).state)).setElection n none)
  | crashAfterStepDown {n : Int} {m : Message} {term : Nat} (hmem : m ∈ s.net)
      (hnew : term > (s.node n).state.currentTerm) :
      Step c s (.crashAfterStepDown n m)
        ((s.update n ((s.node n).restart ⟨term, -1⟩)).setElection n none)

/-- Every enabled action is one of the listed transitions. -/
theorem step_cases {c : Membership} {s s' : ClusterState} {a : Action}
    (h : step c s a = some s') : Step c s a s' := by
  cases a with
  | startElection n =>
      simp only [step, Option.ite_none_right_eq_some, Option.some.injEq] at h
      obtain ⟨⟨hn, hrole, hidle⟩, rfl⟩ := h
      exact .startElection hn hrole hidle
  | handleRequestVote n req =>
      simp only [step, Option.ite_none_right_eq_some, Option.some.injEq] at h
      obtain ⟨hmem, rfl⟩ := h
      exact .handleRequestVote hmem
  | handleRequestVoteReply src req resp =>
      simp only [step, Option.ite_none_right_eq_some, Option.some.injEq] at h
      obtain ⟨⟨hmem, hel⟩, rfl⟩ := h
      exact .handleRequestVoteReply hmem hel
  | finishElection n granted =>
      simp only [step] at h
      split at h
      · contradiction
      · rename_i req hel
        simp only [Option.ite_none_right_eq_some, Option.some.injEq] at h
        obtain ⟨⟨hnodup, hcount⟩, rfl⟩ := h
        exact .finishElection hel hnodup hcount
  | propose n command =>
      simp only [step, Option.ite_none_right_eq_some] at h
      obtain ⟨hn, h⟩ := h
      split at h
      · rename_i hnone
        cases h
        refine .proposeRefused fun hrole => ?_
        simp [RaftNode.propose, hrole] at hnone
      · rename_i node call hcall
        cases h
        exact .propose hn hcall
  | replicate n =>
      simp only [step, Option.ite_none_right_eq_some, Option.some.injEq] at h
      obtain ⟨hn, rfl⟩ := h
      exact .replicate hn
  | sendCheck n task =>
      simp only [step, Option.ite_none_right_eq_some] at h
      obtain ⟨hmem, h⟩ := h
      split at h
      · cases h
        exact .sendStop
      · rename_i req hreq
        cases h
        exact .sendSnapshot hmem hreq
      · rename_i hgo
        cases h
        exact .sendChecked hmem hgo
  | sendAppendEntries n task =>
      simp only [step, Option.ite_none_right_eq_some] at h
      obtain ⟨hmem, h⟩ := h
      split at h
      · cases h
        exact .sendRefused
      · rename_i req hreq
        cases h
        exact .sendAppendEntries hmem hreq
  | handleAppendEntries n req =>
      simp only [step, Option.ite_none_right_eq_some, Option.some.injEq] at h
      obtain ⟨hmem, rfl⟩ := h
      exact .handleAppendEntries hmem
  | handleAppendEntriesReply src req resp =>
      simp only [step, Option.ite_none_right_eq_some, Option.some.injEq] at h
      obtain ⟨hmem, rfl⟩ := h
      exact .handleAppendEntriesReply hmem
  | handleInstallSnapshot n req =>
      simp only [step, Option.ite_none_right_eq_some, Option.some.injEq] at h
      obtain ⟨hmem, rfl⟩ := h
      exact .handleInstallSnapshot hmem
  | handleInstallSnapshotReply src req resp =>
      simp only [step, Option.ite_none_right_eq_some, Option.some.injEq] at h
      obtain ⟨hmem, rfl⟩ := h
      exact .handleInstallSnapshotReply hmem
  | compact n upToIndex snapshotData =>
      simp only [step, Option.ite_none_right_eq_some, Option.some.injEq] at h
      obtain ⟨-, rfl⟩ := h
      exact .compact
  | restart n =>
      simp only [step, Option.ite_none_right_eq_some, Option.some.injEq] at h
      obtain ⟨-, rfl⟩ := h
      exact .restart
  | crashAfterStepDown n m =>
      simp only [step] at h
      split at h
      · contradiction
      · simp only [Option.ite_none_right_eq_some, Option.some.injEq] at h
        obtain ⟨⟨hmem, -, hnew⟩, rfl⟩ := h
        exact .crashAfterStepDown hmem hnew

/-- The runs of a cluster whose steps all satisfy a side condition. -/
abbrev Runs (c : Membership) (ok : ClusterState → Action → Prop) :=
  Lib.Exec (step c) ok

/-- The side condition of a run in which no node compacts. -/
def NoCompaction (_ : ClusterState) : Action → Prop
  | .compact .. => False
  | _ => True

instance (s : ClusterState) (a : Action) : Decidable (NoCompaction s a) :=
  match a with
  | .compact .. => instDecidableFalse
  | .startElection .. | .handleRequestVote .. | .handleRequestVoteReply .. | .finishElection ..
  | .propose .. | .replicate .. | .sendCheck .. | .sendAppendEntries ..
  | .handleAppendEntries ..
  | .handleAppendEntriesReply .. | .handleInstallSnapshot .. | .handleInstallSnapshotReply ..
  | .restart .. | .crashAfterStepDown .. => instDecidableTrue

/-- The deployed control plane: three coordinators. -/
def threeNodes : Membership where
  peers := [0, 1, 2]
  nodup := by decide
  noVote_notMem := by decide

end NanoDB.Raft
