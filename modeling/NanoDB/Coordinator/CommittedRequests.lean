import NanoDB.Coordinator.QuorumWrite
import NanoDB.Coordinator.ReplicatedTopology

/-!
# Requests after their commit

A handler that changes the topology dumps a command, hands it to {lit}`propose`, and, when that
returns {lean}`true`, runs the apply loop of its own coordinator before it looks at the
topology again.  What it finds then: the topology includes the command, and everything that was
committed before it, whatever the cluster did meanwhile.

Main results:

- Theorem {lit}`readCommand_addShardDoc` and its siblings: the texts of the handlers stand for
  the commands that they mean.
- Theorem {lit}`kept_applyFrom`: only its removal makes a known shard inactive.
- Theorem {lit}`committed_request_applied`: after the apply loop of a handler its coordinator has
  applied the handler's command.
- Theorem {lit}`rebalance_request_visible`: an added shard is there unless it has been removed,
  and a removed shard is gone.
-/

namespace NanoDB.Coordinator

open Lib CoordinatorState
open Raft (Bytes ClusterState Membership History RaftNode)

/-! ## The texts of the handlers -/

/-- The document that the add handler proposes; the replicas are those of the request body. -/
def addShardDoc (shardId : Int) (replicas : Json) : Json :=
  .object [("replicas", replicas), ("shard_id", .int shardId), ("type", .str addShardType)]

/-- The document that the remove handler proposes. -/
def removeShardDoc (shardId : Int) : Json :=
  .object [("shard_id", .int shardId), ("type", .str removeShardType)]

/-- The document that the set_primary handler and the health check propose. -/
def setPrimaryDoc (shardId replicaId : Int) : Json :=
  .object [("replica_id", .int replicaId), ("shard_id", .int shardId),
    ("type", .str setPrimaryType)]

/-- The values of the type {lit}`int`. -/
def InInt (i : Int) : Prop :=
  -2 ^ 31 ≤ i ∧ i < 2 ^ 31

theorem InInt.bmod {i : Int} (h : InInt i) : i.bmod (2 ^ 32) = i :=
  Int.bmod_eq_of_le (by have := h.1; omega) (by have := h.2; omega)

theorem InInt.plain {i : Int} (h : InInt i) : (Json.int i).Plain := by
  obtain ⟨hmin, hmax⟩ := h
  exact .int i (by omega) (by omega)

section Texts

variable {codec : JsonCodec} {shardId replicaId : Int} {text : Bytes}

theorem readCommand_addShardDoc {replicas : Json} {specs : List ReplicaSpec} (hid : InInt shardId)
    (hplain : replicas.Plain) (hread : replicas.items.mapM readReplica = some specs)
    (hdump : codec.dump (addShardDoc shardId replicas) = some text) :
    readCommand codec.parse text = .addShard shardId specs := by
  have hkeys : ["replicas", "shard_id", "type"].Pairwise (· < ·) := by decide
  have hdoc : (addShardDoc shardId replicas).Plain := by
    refine .object _ hkeys ?_
    simp only [List.forall_mem_cons, List.not_mem_nil, false_implies, implies_true, and_true]
    exact ⟨hplain, hid.plain, .str _⟩
  have hcommand : readCommandJson (addShardDoc shardId replicas) =
      (replicas.items.mapM readReplica).bind fun newClients =>
        some (.addShard (shardId.bmod (2 ^ 32)) newClients) := rfl
  rw [readCommand, codec.parse_dump _ text hdoc hdump, Option.bind_some, hcommand, hread, hid.bmod]
  rfl

theorem readCommand_removeShardDoc (hid : InInt shardId)
    (hdump : codec.dump (removeShardDoc shardId) = some text) :
    readCommand codec.parse text = .removeShard shardId := by
  have hkeys : ["shard_id", "type"].Pairwise (· < ·) := by decide
  have hdoc : (removeShardDoc shardId).Plain := by
    refine .object _ hkeys ?_
    simp only [List.forall_mem_cons, List.not_mem_nil, false_implies, implies_true, and_true]
    exact ⟨hid.plain, .str _⟩
  have hcommand : readCommandJson (removeShardDoc shardId) =
      some (.removeShard (shardId.bmod (2 ^ 32))) := rfl
  rw [readCommand, codec.parse_dump _ text hdoc hdump, Option.bind_some, hcommand, hid.bmod]
  rfl

theorem readCommand_setPrimaryDoc (hid : InInt shardId) (hreplica : InInt replicaId)
    (hdump : codec.dump (setPrimaryDoc shardId replicaId) = some text) :
    readCommand codec.parse text = .setPrimary shardId replicaId := by
  have hkeys : ["replica_id", "shard_id", "type"].Pairwise (· < ·) := by decide
  have hdoc : (setPrimaryDoc shardId replicaId).Plain := by
    refine .object _ hkeys ?_
    simp only [List.forall_mem_cons, List.not_mem_nil, false_implies, implies_true, and_true]
    exact ⟨hreplica.plain, hid.plain, .str _⟩
  have hcommand : readCommandJson (setPrimaryDoc shardId replicaId) =
      some (.setPrimary (shardId.bmod (2 ^ 32)) (replicaId.bmod (2 ^ 32))) := rfl
  rw [readCommand, codec.parse_dump _ text hdoc hdump, Option.bind_some, hcommand, hid.bmod,
    hreplica.bmod]
  rfl

end Texts

/-! ## Shards in a replayed log -/

/-- If the shard is known it has active replicas. -/
def Kept (shardId : Int) (shards : List ShardClient) : Prop :=
  known shards shardId = true → known (activeClients shards) shardId = true

/-- The shard is known and has no active replica. -/
def Gone (shardId : Int) (shards : List ShardClient) : Prop :=
  known shards shardId = true ∧ known (activeClients shards) shardId = false

section Replay

variable {shardId : Int} {shards : List ShardClient} {cmd : Command} {cmds : List Command}

/-- New replicas are known exactly if they are active. -/
theorem known_active_ofReplica (newId : Int) (epoch : Nat) (replicas : List ReplicaSpec) :
    known (activeClients (replicas.map (ofReplica newId epoch))) shardId =
      known (replicas.map (ofReplica newId epoch)) shardId := by
  rw [activeClients_map_ofReplica]

theorem kept_ofEndpoint (shardId : Int) (endpoints : List ShardEndpoint) :
    Kept shardId (endpoints.map ofEndpoint) := by
  intro hknown
  have hall : activeClients (endpoints.map ofEndpoint) = endpoints.map ofEndpoint := by
    rw [activeClients, List.filter_eq_self]
    intro sc hsc
    obtain ⟨ep, -, rfl⟩ := List.mem_map.mp hsc
    rfl
  rwa [hall]

theorem kept_applyCommand (h : Kept shardId shards) (epoch : Nat)
    (hnot : cmd ≠ .removeShard shardId) : Kept shardId (applyCommand shards epoch cmd) := by
  intro hknown
  cases cmd with
  | addShard newId replicas =>
      simp only [applyCommand] at hknown ⊢
      split_ifs at hknown ⊢ with hold
      · exact h hknown
      · rw [known_append, Bool.or_eq_true] at hknown
        rw [activeClients_append, known_append, Bool.or_eq_true, known_active_ofReplica]
        exact hknown.imp_left h
  | removeShard leavingId =>
      rw [known_applyCommand] at hknown
      have hactive := h (hknown.resolve_right (by simp))
      rw [activeClients_removeShard, known_eq_true_iff]
      obtain ⟨sc, hsc, rfl⟩ := known_eq_true_iff.mp hactive
      refine ⟨sc, List.mem_filter.mpr ⟨hsc, decide_eq_true fun heq => hnot ?_⟩, rfl⟩
      rw [heq]
  | setPrimary primaryId replicaId =>
      rw [known_applyCommand] at hknown
      rw [activeClients_setPrimary, known_applyCommand]
      exact .inl (h (hknown.resolve_right (by simp)))
  | malformed => exact h hknown

/-- Only its removal makes a known shard inactive. -/
theorem kept_applyFrom (h : Kept shardId shards) (base : Nat) (hnot : .removeShard shardId ∉ cmds) :
    Kept shardId (applyFrom base shards cmds) := by
  induction cmds generalizing base shards with
  | nil => exact h
  | cons cmd cmds ih =>
      rw [List.mem_cons, not_or] at hnot
      exact ih (kept_applyCommand h _ (Ne.symm hnot.1)) (base + 1) hnot.2

/-- A removed shard stays removed. -/
theorem gone_applyCommand (h : Gone shardId shards) (epoch : Nat) (cmd : Command) :
    Gone shardId (applyCommand shards epoch cmd) := by
  refine ⟨(known_applyCommand _ _ _ _).mpr (.inl h.1), ?_⟩
  rw [Bool.eq_false_iff]
  intro hactive
  refine absurd ?_ (Bool.eq_false_iff.mp h.2)
  cases cmd with
  | addShard newId replicas =>
      simp only [applyCommand] at hactive
      split_ifs at hactive with hold
      · exact hactive
      · rw [activeClients_append, known_append, known_active_ofReplica, Bool.or_eq_true] at hactive
        refine hactive.resolve_right fun hnew => hold ?_
        obtain ⟨sc, hsc, rfl⟩ := known_eq_true_iff.mp hnew
        obtain ⟨r, -, rfl⟩ := List.mem_map.mp hsc
        exact h.1
  | removeShard leavingId =>
      rw [activeClients_removeShard] at hactive
      obtain ⟨sc, hsc, rfl⟩ := known_eq_true_iff.mp hactive
      exact known_eq_true_iff.mpr ⟨sc, (List.mem_filter.mp hsc).1, rfl⟩
  | setPrimary primaryId replicaId =>
      rw [activeClients_setPrimary, known_applyCommand] at hactive
      exact hactive.resolve_right (by simp)
  | malformed => exact hactive

theorem gone_applyFrom (h : Gone shardId shards) (base : Nat) (cmds : List Command) :
    Gone shardId (applyFrom base shards cmds) := by
  induction cmds generalizing base shards with
  | nil => exact h
  | cons cmd cmds ih => exact ih (gone_applyCommand h _ cmd) (base + 1)

/-- The removal of a known shard. -/
theorem gone_removeShard (epoch : Nat) (h : known shards shardId = true) :
    Gone shardId (applyCommand shards epoch (.removeShard shardId)) := by
  refine ⟨(known_applyCommand _ _ _ _).mpr (.inl h), ?_⟩
  rw [Bool.eq_false_iff, activeClients_removeShard]
  intro hactive
  obtain ⟨sc, hsc, hid⟩ := known_eq_true_iff.mp hactive
  exact of_decide_eq_true (List.mem_filter.mp hsc).2 hid

/-- A shard has replicas in the pool exactly if it is known there. -/
theorem replicasForShard_ne_nil {pool : List ShardClient} :
    replicasForShard pool shardId ≠ [] ↔ known pool shardId = true := by
  constructor
  · intro hne
    obtain ⟨sc, hsc⟩ := List.exists_mem_of_ne_nil _ hne
    obtain ⟨hmem, hid⟩ := mem_replicasForShard.mp hsc
    exact known_eq_true_iff.mpr ⟨sc, hmem, hid⟩
  · intro hknown
    obtain ⟨sc, hmem, hid⟩ := known_eq_true_iff.mp hknown
    exact List.ne_nil_of_mem (mem_replicasForShard.mpr ⟨hmem, hid⟩)

/-- The commands between two indices. -/
theorem replay_take (endpoints : List ShardEndpoint) (log : List Command) {i k : Nat}
    (hik : i ≤ k) (hi : i ≤ log.length) :
    replay endpoints (log.take k) =
      applyFrom i (replay endpoints (log.take i)) ((log.take k).drop i) := by
  have htake : log.take k = log.take i ++ (log.take k).drop i := by
    conv_lhs => rw [← List.take_append_drop i (log.take k)]
    rw [List.take_take, min_eq_left hik]
  conv_lhs => rw [htake]
  rw [replay, applyFrom_append, List.length_take, min_eq_left hi, Nat.zero_add, replay]

/-- An added shard is active as long as the log does not remove it. -/
theorem active_replay_of_add (endpoints : List ShardEndpoint) {log : List Command} {i k : Nat}
    {replicas : List ReplicaSpec} (hcmd : log[i]? = some (.addShard shardId replicas))
    (hne : replicas ≠ []) (hik : i < k) (hnot : .removeShard shardId ∉ log.take k) :
    known (activeClients (replay endpoints (log.take k))) shardId = true := by
  refine kept_applyFrom (kept_ofEndpoint shardId endpoints) 0 hnot ?_
  refine known_replay_mono endpoints log hik ?_
  rw [replay_succ endpoints log hcmd]
  exact (known_applyCommand _ _ _ _).mpr (.inr ⟨replicas, rfl, hne⟩)

/-- A removed shard that was known is inactive for ever. -/
theorem inactive_replay_of_remove (endpoints : List ShardEndpoint) {log : List Command} {i k : Nat}
    (hcmd : log[i]? = some (.removeShard shardId)) (hik : i < k)
    (hknown : known (replay endpoints (log.take i)) shardId = true) :
    known (activeClients (replay endpoints (log.take k))) shardId = false := by
  have hlt := (List.getElem?_eq_some_iff.mp hcmd).1
  have hgone : Gone shardId (replay endpoints (log.take (i + 1))) := by
    rw [replay_succ endpoints log hcmd]
    exact gone_removeShard (i + 1) hknown
  rw [replay_take endpoints log hik hlt]
  exact (gone_applyFrom hgone (i + 1) _).2

end Replay

/-! ## After the apply loop of the handler -/

/-- The action restarts the process of the coordinator. -/
def restartsProcess (n : Int) : ControlAction → Prop
  | .raft a => Raft.restartsNode n a
  | .apply _ => False
  | .compact _ => False

instance (n : Int) (a : ControlAction) : Decidable (restartsProcess n a) :=
  match a with
  | .raft a => inferInstanceAs (Decidable (Raft.restartsNode n a))
  | .apply _ => instDecidableFalse
  | .compact _ => instDecidableFalse

section Handler

variable {c : Membership} {codec : JsonCodec} {endpoints : List ShardEndpoint}
  {s s' t t' : ControlCluster} {p : ClusterState × History} {as : List ControlAction} {n : Int}

/-- The commit index of a process that does not restart never falls. -/
theorem ControlInv.commitIndex_le (hinv : ControlInv c codec endpoints s p) {a : ControlAction}
    (hok : ControlOrderly codec endpoints s a) (hnot : ¬ restartsProcess n a)
    (hstep : s.step c codec endpoints a = some s') :
    (s.raft.node n).commitIndex ≤ (s'.raft.node n).commitIndex := by
  cases ControlCluster.step_cases hstep with
  | raft hcompact hraft => exact (hinv.raft.moves hok.1 hraft n).commitIndex_le hnot
  | apply hn => exact le_rfl
  | compact hpending hraft =>
      exact (hinv.raft.moves (.compact ..) hraft n).commitIndex_le not_false

theorem ControlInv.run_commitIndex_le
    (hrun : Exec (ControlCluster.step c codec endpoints)
      (fun s a => ControlOrderly codec endpoints s a ∧ ¬ restartsProcess n a) s as t)
    (hinv : ControlInv c codec endpoints s p) (hready : NoReadd endpoints (t.commands codec)) :
    (∃ p', ControlInv c codec endpoints t p') ∧
      (s.raft.node n).commitIndex ≤ (t.raft.node n).commitIndex := by
  induction hrun generalizing p with
  | nil s => exact ⟨⟨p, hinv⟩, le_rfl⟩
  | cons hok hstep rest ih =>
      have hprefix := (ControlCluster.commands_isPrefix hstep).trans
        (ControlCluster.run_isPrefix rest)
      obtain ⟨p₁, hinv₁⟩ := hinv.step (hready.of_prefix hprefix) hok.1 hstep
      obtain ⟨hinv', hle⟩ := ih hinv₁ hready
      exact ⟨hinv', (hinv.commitIndex_le hok.1 hok.2 hstep).trans hle⟩

/-- The coordinator replays a log that has the command, and has got as far as the command. -/
structure Includes (codec : JsonCodec) (endpoints : List ShardEndpoint) (log : List Command)
    (call : RaftNode.ProposeCall) (co : CoordinatorState) : Prop where
  replays : Replays endpoints log co
  index_pos : 0 < call.index
  index_le : call.index ≤ co.appliedIndex
  command : log[call.index - 1]? = some (readCommand codec.parse call.command)

/-- A call that decides to return, and the apply loop of its node any time later in the same
process. -/
theorem ControlInv.includes (hinv : ControlInv c codec endpoints s p) {call : RaftNode.ProposeCall}
    (hcall : call ∈ s.raft.proposals)
    (hpoll : (s.raft.node call.nodeId).proposePoll call = some true)
    (hrun : Exec (ControlCluster.step c codec endpoints)
      (fun s a => ControlOrderly codec endpoints s a ∧ ¬ restartsProcess call.nodeId a) s as t)
    (hok : ControlOrderly codec endpoints t (.apply call.nodeId))
    (happly : t.step c codec endpoints (.apply call.nodeId) = some t')
    (hready : NoReadd endpoints (t'.commands codec)) :
    Includes codec endpoints (t'.commands codec) call (t'.coord call.nodeId) := by
  obtain ⟨hcert, hreached⟩ := hinv.raft.certified_of_poll hpoll
  obtain ⟨-, hpos, -⟩ := hinv.raft.recorded call hcall
  have hget := hinv.raft.committed_getElem? hcall hcert hreached
  have hprefix := ControlCluster.run_isPrefix hrun
  have hprefix' := ControlCluster.commands_isPrefix happly
  obtain ⟨⟨p', hinv'⟩, hle⟩ := hinv.run_commitIndex_le hrun (hready.of_prefix hprefix')
  have hcommit := (Raft.RaftNode.proposePoll_eq_true hpoll).2.2
  obtain ⟨p'', hinv''⟩ := hinv'.step (hready.of_prefix hprefix') hok happly
  cases ControlCluster.step_cases happly with
  | apply hn =>
      refine ⟨hinv''.replays hn List.prefix_rfl, hpos, ?_, ?_⟩
      · have hindex := (hinv'.applyPending (hready.of_prefix hprefix') hn hok).2.1
        dsimp only
        rw [Function.update_self, hindex, (hinv'.raft.settled _).applied_eq]
        exact hcommit.trans hle
      · have hcommand : (s.commands codec)[call.index - 1]? =
            some (readCommand codec.parse call.command) := by
          rw [ControlCluster.commands, List.getElem?_map, hget]
          rfl
        have hlt := (List.getElem?_eq_some_iff.mp hcommand).1
        obtain ⟨more, hmore⟩ := hprefix.trans hprefix'
        rw [← hmore, List.getElem?_append_left hlt, hcommand]

/-- An added shard has replicas in the topology, unless it has been removed. -/
theorem Includes.added {log : List Command} {call : RaftNode.ProposeCall} {co : CoordinatorState}
    (h : Includes codec endpoints log call co) {shardId : Int} {replicas : List ReplicaSpec}
    (hcommand : readCommand codec.parse call.command = .addShard shardId replicas)
    (hne : replicas ≠ []) (hnot : .removeShard shardId ∉ log.take co.appliedIndex) :
    replicasForShard (activeClients co.shards) shardId ≠ [] := by
  have hget := h.command
  have hpos := h.index_pos
  have hle := h.index_le
  rw [hcommand] at hget
  rw [replicasForShard_ne_nil, h.replays.active]
  exact active_replay_of_add endpoints hget hne (by omega) hnot

/-- A removed shard that was known has none. -/
theorem Includes.removed {log : List Command} {call : RaftNode.ProposeCall} {co : CoordinatorState}
    (h : Includes codec endpoints log call co) {shardId : Int}
    (hcommand : readCommand codec.parse call.command = .removeShard shardId)
    (hknown : known (replay endpoints (log.take (call.index - 1))) shardId = true) :
    replicasForShard (activeClients co.shards) shardId = [] := by
  have hget := h.command
  have hpos := h.index_pos
  have hle := h.index_le
  rw [hcommand] at hget
  by_contra hne
  rw [← ne_eq, replicasForShard_ne_nil, h.replays.active,
    inactive_replay_of_remove endpoints hget (by omega) hknown] at hne
  cases hne

/-- **Requests take effect.**  A call of {lit}`propose` decides to return {lean}`true`, and at
any time later, with anything in between but a restart of that process, its coordinator runs
the apply loop.  Then the topology of this coordinator is the committed log replayed up to an
index that includes the call, and the log has the call's command at the call's index. -/
theorem committed_request_applied (c : Membership) (codec : JsonCodec)
    (endpoints : List ShardEndpoint) {as as' : List ControlAction} {s t t' : ControlCluster}
    (hrun : Exec (ControlCluster.step c codec endpoints) (ControlOrderly codec endpoints)
      (ControlCluster.init c endpoints) as s)
    {call : RaftNode.ProposeCall} (hcall : call ∈ s.raft.proposals)
    (hpoll : (s.raft.node call.nodeId).proposePoll call = some true)
    (hrun' : Exec (ControlCluster.step c codec endpoints)
      (fun s a => ControlOrderly codec endpoints s a ∧ ¬ restartsProcess call.nodeId a) s as' t)
    (hok : ControlOrderly codec endpoints t (.apply call.nodeId))
    (happly : t.step c codec endpoints (.apply call.nodeId) = some t')
    (hready : NoReadd endpoints (t'.commands codec)) :
    Includes codec endpoints (t'.commands codec) call (t'.coord call.nodeId) := by
  have hprefix := (ControlCluster.run_isPrefix hrun').trans
    (ControlCluster.commands_isPrefix happly)
  obtain ⟨p, hinv⟩ := ControlInv.run hrun (ControlInv.init c codec endpoints)
    (hready.of_prefix hprefix)
  exact hinv.includes hcall hpoll hrun' hok happly hready

/-- The cluster commits the addition of a shard on node 0. -/
def addCommitted : List ControlAction :=
  (Raft.commitProposals addShardText [98]).map .raft

/-- Node 1 hears of it before the handler on node 0 goes on. -/
def addTold : List ControlAction :=
  Raft.tellCommitted.map .raft

/-- The call of the handler. -/
def addCall : RaftNode.ProposeCall :=
  ⟨0, 1, 1, addShardText⟩

theorem addCommitted_isSome :
    (guardedRun (ControlCluster.step Raft.threeNodes addShardCodec oneShard)
      (ControlOrderly addShardCodec oneShard) (ControlCluster.init Raft.threeNodes oneShard)
      addCommitted).isSome := by
  decide +kernel

/-- The cluster when the call of the handler decides to return. -/
noncomputable def committedState : ControlCluster :=
  (guardedRun (ControlCluster.step Raft.threeNodes addShardCodec oneShard)
    (ControlOrderly addShardCodec oneShard) (ControlCluster.init Raft.threeNodes oneShard)
    addCommitted).get addCommitted_isSome

theorem addTold_isSome :
    (guardedRun (ControlCluster.step Raft.threeNodes addShardCodec oneShard)
      (fun s a => ControlOrderly addShardCodec oneShard s a ∧ ¬ restartsProcess addCall.nodeId a)
      committedState addTold).isSome := by
  decide +kernel

/-- The cluster when the handler runs its apply loop. -/
noncomputable def toldState : ControlCluster :=
  (guardedRun (ControlCluster.step Raft.threeNodes addShardCodec oneShard)
    (fun s a => ControlOrderly addShardCodec oneShard s a ∧ ¬ restartsProcess addCall.nodeId a)
    committedState addTold).get addTold_isSome

theorem exec_addCommitted :
    Exec (ControlCluster.step Raft.threeNodes addShardCodec oneShard)
      (ControlOrderly addShardCodec oneShard) (ControlCluster.init Raft.threeNodes oneShard)
      addCommitted committedState :=
  Exec.of_guardedRun (ControlCluster.step Raft.threeNodes addShardCodec oneShard)
    (ControlOrderly addShardCodec oneShard) (ControlCluster.init Raft.threeNodes oneShard)
    addCommitted addCommitted_isSome

theorem exec_addTold :
    Exec (ControlCluster.step Raft.threeNodes addShardCodec oneShard)
      (fun s a => ControlOrderly addShardCodec oneShard s a ∧ ¬ restartsProcess addCall.nodeId a)
      committedState addTold toldState :=
  Exec.of_guardedRun (ControlCluster.step Raft.threeNodes addShardCodec oneShard)
    (fun s a => ControlOrderly addShardCodec oneShard s a ∧ ¬ restartsProcess addCall.nodeId a)
    committedState addTold addTold_isSome

theorem toldState_isSome :
    (toldState.step Raft.threeNodes addShardCodec oneShard (.apply addCall.nodeId)).isSome := by
  decide +kernel

/-- The cluster after the apply loop. -/
noncomputable def appliedState : ControlCluster :=
  (toldState.step Raft.threeNodes addShardCodec oneShard (.apply addCall.nodeId)).get
    toldState_isSome

theorem step_toldState :
    toldState.step Raft.threeNodes addShardCodec oneShard (.apply addCall.nodeId) =
      some appliedState :=
  (Option.some_get toldState_isSome).symm

/-- What the handler meets on its way. -/
theorem addCall_conditions :
    (addCall ∈ committedState.raft.proposals ∧
        (committedState.raft.node addCall.nodeId).proposePoll addCall = some true) ∧
      ControlOrderly addShardCodec oneShard toldState (.apply addCall.nodeId) ∧
      NoReadd oneShard (appliedState.commands addShardCodec) ∧
      .removeShard 1 ∉ (appliedState.commands addShardCodec).take
        (appliedState.coord addCall.nodeId).appliedIndex := by
  decide +kernel

theorem committed_request_applied_addTold :
    Includes addShardCodec oneShard (appliedState.commands addShardCodec) addCall
      (appliedState.coord addCall.nodeId) := by
  obtain ⟨⟨hcall, hpoll⟩, hok, hready, -⟩ := addCall_conditions
  exact committed_request_applied Raft.threeNodes addShardCodec oneShard exec_addCommitted hcall
    hpoll exec_addTold hok step_toldState hready

/-- **Added and removed shards.**  After the apply loop of its handler, an added shard is in the
topology, so that the handler does not answer that it is missing, unless the part of the log
that the coordinator has applied removes it; and a removed shard that the log knew is gone. -/
theorem rebalance_request_visible (c : Membership) (codec : JsonCodec)
    (endpoints : List ShardEndpoint) {as as' : List ControlAction} {s t t' : ControlCluster}
    (hrun : Exec (ControlCluster.step c codec endpoints) (ControlOrderly codec endpoints)
      (ControlCluster.init c endpoints) as s)
    {call : RaftNode.ProposeCall} (hcall : call ∈ s.raft.proposals)
    (hpoll : (s.raft.node call.nodeId).proposePoll call = some true)
    (hrun' : Exec (ControlCluster.step c codec endpoints)
      (fun s a => ControlOrderly codec endpoints s a ∧ ¬ restartsProcess call.nodeId a) s as' t)
    (hok : ControlOrderly codec endpoints t (.apply call.nodeId))
    (happly : t.step c codec endpoints (.apply call.nodeId) = some t')
    (hready : NoReadd endpoints (t'.commands codec)) {shardId : Int} (hid : InInt shardId) :
    (∀ replicas specs, replicas.Plain → replicas.items.mapM readReplica = some specs →
      specs ≠ [] → codec.dump (addShardDoc shardId replicas) = some call.command →
      .removeShard shardId ∉ (t'.commands codec).take (t'.coord call.nodeId).appliedIndex →
      replicasForShard (activeClients (t'.coord call.nodeId).shards) shardId ≠ []) ∧
    (codec.dump (removeShardDoc shardId) = some call.command →
      known (replay endpoints ((t'.commands codec).take (call.index - 1))) shardId = true →
      replicasForShard (activeClients (t'.coord call.nodeId).shards) shardId = []) := by
  have hprefix := (ControlCluster.run_isPrefix hrun').trans
    (ControlCluster.commands_isPrefix happly)
  obtain ⟨p, hinv⟩ := ControlInv.run hrun (ControlInv.init c codec endpoints)
    (hready.of_prefix hprefix)
  have hincludes := hinv.includes hcall hpoll hrun' hok happly hready
  constructor
  · intro replicas specs hplain hread hne hdump hnot
    exact hincludes.added (readCommand_addShardDoc hid hplain hread hdump) hne hnot
  · intro hdump hknown
    exact hincludes.removed (readCommand_removeShardDoc hid hdump) hknown

/-- The replicas of the request body. -/
def addReplicas : Json :=
  .array [.object [("host", .str [98]), ("port", .int 9090), ("primary", .bool true),
    ("replica_id", .int 0)]]

theorem plain_addReplicas : addReplicas.Plain := by
  have hkeys : ["host", "port", "primary", "replica_id"].Pairwise (· < ·) := by decide
  refine .array _ ?_
  simp only [List.forall_mem_cons, List.not_mem_nil, false_implies, implies_true, and_true]
  refine .object _ hkeys ?_
  simp only [List.forall_mem_cons, List.not_mem_nil, false_implies, implies_true, and_true]
  exact ⟨.str _, .int _ (by decide) (by decide), .bool _, .int _ (by decide) (by decide)⟩

/-- Shard 1 has replicas on node 0 afterwards. -/
theorem rebalance_request_visible_addTold :
    replicasForShard (activeClients (appliedState.coord addCall.nodeId).shards) 1 ≠ [] := by
  obtain ⟨⟨hcall, hpoll⟩, hok, hready, hnot⟩ := addCall_conditions
  have hid : InInt 1 := ⟨by decide, by decide⟩
  exact (rebalance_request_visible Raft.threeNodes addShardCodec oneShard exec_addCommitted hcall
    hpoll exec_addTold hok step_toldState hready hid).1 addReplicas [⟨0, [98], 9090, true⟩]
    plain_addReplicas rfl (by simp) (if_pos rfl) hnot

end Handler

end NanoDB.Coordinator
