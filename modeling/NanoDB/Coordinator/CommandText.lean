import NanoDB.Coordinator.ApplyLoop

/-!
# Commands and snapshots as texts

The log holds texts.  {lit}`apply_pending_raft_commands` parses each of them and reads what it
needs with {lit}`at`, {lit}`get` and {lit}`value`, any of which may throw; the exception is caught
and the command skipped.  {lit}`apply_raft_snapshot` does the same with the snapshot that
{lit}`serialize_raft_snapshot` wrote.  Both read everything before they change anything.

The parser of the JSON library is a parameter: any function from texts to documents.  What is
read from a document follows the library: {lit}`get<int>` takes booleans and numbers and casts
them, iteration goes over the elements of an array, the values of an object, and the value
itself for everything else but {lit}`null`.

Main results:

- Theorem {lit}`applyPendingRaftCommands_eq`: on texts the apply loop does what it does on the
  commands and the snapshot that they stand for.
- Theorem {lit}`ring_agrees`: after any texts and snapshots the ring is the one of the active
  shards, and a text that throws changes nothing.
- Theorem {lit}`applyRaftSnapshot_serialize`: a snapshot that is applied anywhere gives back the
  active clients it was taken from.
-/

namespace NanoDB.Coordinator

open Raft (Bytes)
open Cluster (HashRing Key chainedVnodePoint virtualNodesPerShard)

/-! ## Documents -/

/-- A JSON value.  Of a number with a fraction or an exponent only the casts to {lit}`int` and
{lit}`uint64_t` are read. -/
inductive Json where
  | null
  | bool (b : Bool)
  | int (i : Int)
  | float (asInt : Int) (asUnsigned : Nat)
  | str (s : Bytes)
  | array (items : List Json)
  | object (members : List (String × Json))

namespace Json

/-- {lit}`at`; {lean}`none` is an exception, here and below. -/
def atKey : Json → String → Option Json
  | object members, key => members.lookup key
  | _, _ => none

/-- {lit}`get<int>`, which casts. -/
def getInt : Json → Option Int
  | bool b => some (if b then 1 else 0)
  | int i => some (i.bmod (2 ^ 32))
  | float asInt _ => some asInt
  | _ => none

/-- {lit}`get<uint64_t>`, which does not take booleans. -/
def getUInt64 : Json → Option Nat
  | int i => some (i % 2 ^ 64).toNat
  | float _ asUnsigned => some asUnsigned
  | _ => none

def getString : Json → Option Bytes
  | str s => some s
  | _ => none

def getBool : Json → Option Bool
  | bool b => some b
  | _ => none

/-- {lit}`value`, with a default for a key that an object does not have. -/
def value {α : Type} (j : Json) (key : String) (get : Json → Option α) (default : α) : Option α :=
  match j with
  | object members =>
      match members.lookup key with
      | none => some default
      | some v => get v
  | _ => none

/-- What a range-based {lit}`for` goes over. -/
def items : Json → List Json
  | null => []
  | array items => items
  | object members => members.map (·.2)
  | j => [j]

end Json

/-! ## Reading a command -/

/-- The texts of the command types. -/
def addShardType : Bytes := [97, 100, 100, 95, 115, 104, 97, 114, 100]

def removeShardType : Bytes := [114, 101, 109, 111, 118, 101, 95, 115, 104, 97, 114, 100]

def setPrimaryType : Bytes := [115, 101, 116, 95, 112, 114, 105, 109, 97, 114, 121]

/-- One element of {lit}`replicas`. -/
def readReplica (r : Json) : Option ReplicaSpec := do
  let replicaId ← (← r.atKey "replica_id").getInt
  let host ← (← r.atKey "host").getString
  let port ← (← r.atKey "port").getInt
  let primary ← r.value "primary" Json.getBool false
  return ⟨replicaId, host, port, primary⟩

/-- One element of {lit}`shards` in a snapshot. -/
def readSnapshotShard (r : Json) : Option SnapshotShard := do
  let shardId ← (← r.atKey "shard_id").getInt
  let replicaId ← (← r.atKey "replica_id").getInt
  let host ← (← r.atKey "host").getString
  let port ← (← r.atKey "port").getInt
  let primary ← r.value "primary" Json.getBool false
  let epoch ← r.value "epoch" Json.getUInt64 0
  return ⟨shardId, replicaId, host, port, primary, epoch⟩

/-! ## Applying texts -/

/-- A body between {lit}`try` and {lit}`catch`: what it has changed before an exception stays
changed. -/
abbrev Apply := ExceptT Unit (StateM CoordinatorState)

def orThrow {α : Type} : Option α → Apply α
  | none => throw ()
  | some a => pure a

def rebuildRing : Apply Unit :=
  modify fun co => { co with ring := buildRing co.shards }

/-- The body of the command loop, on a parsed command.  The replicas of a shard that is known
are not looked at. -/
def applyCommandJson (commandEpoch : Nat) (cmd : Json) : Apply Unit := do
  let type ← orThrow ((cmd.atKey "type").bind Json.getString)
  if type = addShardType then
    let shardId ← orThrow ((cmd.atKey "shard_id").bind Json.getInt)
    let co ← get
    if known co.shards shardId then return
    else
      let replicas ← orThrow (cmd.atKey "replicas")
      let newClients ← replicas.items.mapM fun r => orThrow (readReplica r)
      modify fun co =>
        { co with shards := co.shards ++ newClients.map (ofReplica shardId commandEpoch) }
      rebuildRing
  else if type = removeShardType then
    let shardId ← orThrow ((cmd.atKey "shard_id").bind Json.getInt)
    modify fun co =>
      { co with
        shards := co.shards.map fun sc =>
          if sc.shardId = shardId then { sc with active := false } else sc }
    rebuildRing
  else if type = setPrimaryType then
    let shardId ← orThrow ((cmd.atKey "shard_id").bind Json.getInt)
    let newPrimaryReplicaId ← orThrow ((cmd.atKey "replica_id").bind Json.getInt)
    modify fun co =>
      { co with
        shards := co.shards.map fun sc =>
          if sc.shardId ≠ shardId then sc
          else
            { sc with
              isPrimary := decide (sc.replicaId = newPrimaryReplicaId)
              epoch := commandEpoch } }
  else
    -- an unknown type is only warned about
    return

/-- One turn of the command loop, before it catches. -/
def tryCommand (parse : Bytes → Option Json) (commandEpoch : Nat) (text : Bytes) : Apply Unit := do
  let cmd ← orThrow (parse text)
  applyCommandJson commandEpoch cmd

/-- {lit}`apply_raft_snapshot` on a text that is not empty, before it catches. -/
def trySnapshot (parse : Bytes → Option Json) (snapshotData : Bytes) : Apply Unit := do
  let snap ← orThrow (parse snapshotData)
  let elements ← orThrow (snap.atKey "shards")
  let newClients ← elements.items.mapM fun r => orThrow (readSnapshotShard r)
  modify fun co => { co with shards := co.shards.map fun sc => { sc with active := false } }
  modify fun co => { co with shards := co.shards ++ newClients.map ofSnapshot }
  rebuildRing

/-- What {lit}`RaftNode::status` shows to the apply loop. -/
structure RaftStatus where
  snapshotLastIndex : Nat
  snapshotData : Bytes
  appliedCommands : List Bytes
deriving DecidableEq, Repr

namespace CoordinatorState

def applyCommandText (parse : Bytes → Option Json) (co : CoordinatorState) (commandEpoch : Nat)
    (text : Bytes) : CoordinatorState :=
  (tryCommand parse commandEpoch text co).2

def applyRaftSnapshot (parse : Bytes → Option Json) (co : CoordinatorState)
    (snapshotData : Bytes) : CoordinatorState :=
  if snapshotData = [] then co else (trySnapshot parse snapshotData co).2

/-- The loop over the texts; the first one has the index {lit}`base + 1`. -/
def applyTexts (parse : Bytes → Option Json) (base : Nat) (co : CoordinatorState) :
    List Bytes → CoordinatorState
  | [] => co
  | text :: texts =>
      applyTexts parse (base + 1) (co.applyCommandText parse (base + 1) text) texts

/-- The snapshot catch-up of {lit}`apply_pending_raft_commands`. -/
def catchUpText (parse : Bytes → Option Json) (co : CoordinatorState) (st : RaftStatus) :
    CoordinatorState :=
  if st.snapshotLastIndex > co.snapshotAppliedIndex then
    { co.applyRaftSnapshot parse st.snapshotData with
      snapshotAppliedIndex := st.snapshotLastIndex
      localAppliedCount := 0
      appliedIndex := st.snapshotLastIndex }
  else co

/-- The state of {lit}`apply_pending_raft_commands` after {lit}`n` turns of its loop. -/
def afterCommands (parse : Bytes → Option Json) (co : CoordinatorState) (st : RaftStatus)
    (n : Nat) : CoordinatorState :=
  let co := co.catchUpText parse st
  applyTexts parse (st.snapshotLastIndex + co.localAppliedCount) co
    ((st.appliedCommands.drop co.localAppliedCount).take n)

/-- {lit}`apply_pending_raft_commands` on the texts of a status; {lit}`compacted` is the answer
of {lit}`RaftNode::compact`, asked at the threshold. -/
def applyPendingRaftCommands (parse : Bytes → Option Json) (co : CoordinatorState)
    (st : RaftStatus) (compacted : Bool) : CoordinatorState :=
  if st.appliedCommands.length ≤ (co.catchUpText parse st).localAppliedCount then
    co.catchUpText parse st
  else
    let co :=
      { co.afterCommands parse st st.appliedCommands.length with
        localAppliedCount := st.appliedCommands.length
        appliedIndex := st.snapshotLastIndex + st.appliedCommands.length }
    if co.localAppliedCount ≥ compactionThreshold ∧ compacted then
      { co with localAppliedCount := 0 }
    else co

end CoordinatorState

/-! ## A text that throws -/

/-- A body that throws has not changed anything. -/
def KeepsOnThrow (co : CoordinatorState) (result : Except Unit Unit × CoordinatorState) : Prop :=
  result.1 = .error () → result.2 = co

section Throw

variable {α : Type} {co : CoordinatorState}

/-- The loop that reads the elements of an array, and throws at the first that is wrong. -/
theorem mapM_orThrow (read : Json → Option α) (items : List Json) :
    (items.mapM fun r => orThrow (read r)) = orThrow (items.mapM read) := by
  induction items with
  | nil => rfl
  | cons item items ih =>
      rw [List.mapM_cons, List.mapM_cons, ih]
      cases read item with
      | none => rfl
      | some a =>
          cases items.mapM read with
          | none => rfl
          | some as => rfl

namespace KeepsOnThrow

/-- The rule for a read that may throw. -/
theorem read (o : Option α) {k : α → Apply Unit} (h : ∀ a, KeepsOnThrow co (k a co)) :
    KeepsOnThrow co ((orThrow o >>= k) co) := by
  cases o with
  | none => exact fun _ => rfl
  | some a => exact h a

/-- The rule for the loop that reads the elements of an array. -/
theorem readAll (get : Json → Option α) (items : List Json) {k : List α → Apply Unit}
    (h : ∀ as, KeepsOnThrow co (k as co)) :
    KeepsOnThrow co (((items.mapM fun r => orThrow (get r)) >>= k) co) := by
  rw [mapM_orThrow]
  exact read _ h

/-- The rule for a look at the topology. -/
theorem look {k : CoordinatorState → Apply Unit} (h : KeepsOnThrow co (k co co)) :
    KeepsOnThrow co ((get >>= k) co) :=
  h

/-- The rule for a body that cannot throw any more. -/
theorem ok {result : Except Unit Unit × CoordinatorState} (h : result.1 = .ok ()) :
    KeepsOnThrow co result := by
  intro hthrow
  rw [h] at hthrow
  cases hthrow

end KeepsOnThrow

theorem tryCommand_keepsOnThrow (parse : Bytes → Option Json) (co : CoordinatorState)
    (commandEpoch : Nat) (text : Bytes) :
    KeepsOnThrow co (tryCommand parse commandEpoch text co) := by
  unfold tryCommand applyCommandJson
  apply KeepsOnThrow.read
  intro cmd
  apply KeepsOnThrow.read
  intro type
  split_ifs with hadd hremove hset
  · apply KeepsOnThrow.read
    intro shardId
    apply KeepsOnThrow.look
    split_ifs with hknown
    · exact .ok rfl
    · apply KeepsOnThrow.read
      intro replicas
      apply KeepsOnThrow.readAll
      intro newClients
      exact .ok rfl
  · apply KeepsOnThrow.read
    intro shardId
    exact .ok rfl
  · apply KeepsOnThrow.read
    intro shardId
    apply KeepsOnThrow.read
    intro newPrimaryReplicaId
    exact .ok rfl
  · exact .ok rfl

theorem trySnapshot_keepsOnThrow (parse : Bytes → Option Json) (co : CoordinatorState)
    (snapshotData : Bytes) : KeepsOnThrow co (trySnapshot parse snapshotData co) := by
  unfold trySnapshot
  apply KeepsOnThrow.read
  intro snap
  apply KeepsOnThrow.read
  intro elements
  apply KeepsOnThrow.readAll
  intro newClients
  exact .ok rfl

end Throw

/-! ## The commands and snapshots that texts stand for -/

/-- The command that a document stands for. -/
def readCommandJson (cmd : Json) : Option Command := do
  let type ← (cmd.atKey "type").bind Json.getString
  if type = addShardType then
    let shardId ← (cmd.atKey "shard_id").bind Json.getInt
    let replicas ← cmd.atKey "replicas"
    let newClients ← replicas.items.mapM readReplica
    return .addShard shardId newClients
  else if type = removeShardType then
    let shardId ← (cmd.atKey "shard_id").bind Json.getInt
    return .removeShard shardId
  else if type = setPrimaryType then
    let shardId ← (cmd.atKey "shard_id").bind Json.getInt
    let newPrimaryReplicaId ← (cmd.atKey "replica_id").bind Json.getInt
    return .setPrimary shardId newPrimaryReplicaId
  else none

/-- The command that a text stands for. -/
def readCommand (parse : Bytes → Option Json) (text : Bytes) : Command :=
  ((parse text).bind readCommandJson).getD .malformed

/-- The snapshot that a document stands for. -/
def readSnapshotJson (snap : Json) : Option Snapshot :=
  (snap.atKey "shards").bind fun elements => elements.items.mapM readSnapshotShard

/-- The snapshot that a text stands for. -/
def readSnapshot (parse : Bytes → Option Json) (snapshotData : Bytes) : Option Snapshot :=
  if snapshotData = [] then none else (parse snapshotData).bind readSnapshotJson

/-- The applied log that a status stands for. -/
def RaftStatus.toLog (parse : Bytes → Option Json) (st : RaftStatus) : TopologyLog where
  snapshotLastIndex := st.snapshotLastIndex
  snapshotData := readSnapshot parse st.snapshotData
  lastApplied := st.snapshotLastIndex + st.appliedCommands.length
  appliedCommands := st.appliedCommands.map (readCommand parse)

section Refinement

variable {α : Type} (parse : Bytes → Option Json) (co : CoordinatorState)

theorem get_bind (k : CoordinatorState → Apply Unit) : ((get : Apply _) >>= k) co = k co co :=
  rfl

theorem orThrow_some_bind (a : α) (k : α → Apply Unit) : (orThrow (some a) >>= k) co = k a co :=
  rfl

theorem applyOne_addShard_known {shardId : Int} (hknown : known co.shards shardId = true)
    (commandEpoch : Nat) (replicas : List ReplicaSpec) :
    co.applyOne commandEpoch (.addShard shardId replicas) = co := by
  simp [CoordinatorState.applyOne, applyCommand, hknown]

/-- A command is applied as the apply loop applies what it stands for.  The replicas of a shard
that is known are not looked at; if they are wrong, the command is skipped either way. -/
theorem applyCommandJson_eq (commandEpoch : Nat) (cmd : Json) :
    (applyCommandJson commandEpoch cmd co).2 =
      co.applyOne commandEpoch ((readCommandJson cmd).getD .malformed) := by
  unfold applyCommandJson readCommandJson
  cases (cmd.atKey "type").bind Json.getString with
  | none => rfl
  | some type =>
      simp only [orThrow_some_bind, Option.bind_eq_bind, Option.bind_some]
      cases (cmd.atKey "shard_id").bind Json.getInt with
      | none => split_ifs <;> rfl
      | some shardId =>
          split_ifs with hadd hremove hset
          · rw [orThrow_some_bind, get_bind, Option.bind_some]
            split_ifs with hknown
            · cases cmd.atKey "replicas" with
              | none => rfl
              | some replicas =>
                  rw [Option.bind_some]
                  cases replicas.items.mapM readReplica with
                  | none => rfl
                  | some newClients =>
                      exact (applyOne_addShard_known co hknown commandEpoch newClients).symm
            · cases cmd.atKey "replicas" with
              | none => rfl
              | some replicas =>
                  rw [orThrow_some_bind, mapM_orThrow, Option.bind_some]
                  cases replicas.items.mapM readReplica with
                  | none => rfl
                  | some newClients =>
                      simp only [Option.bind_some, Option.pure_def, Option.getD_some,
                        CoordinatorState.applyOne, applyCommand, if_neg hknown]
                      rfl
          · rfl
          · cases (cmd.atKey "replica_id").bind Json.getInt with
            | none => rfl
            | some newPrimaryReplicaId =>
                simp only [Option.bind_some, Option.pure_def, Option.getD_some,
                  CoordinatorState.applyOne, applyCommand, ← ite_not (p := _ = shardId)]
                rfl
          · rfl

namespace CoordinatorState

/-- A text is applied as the command it stands for. -/
theorem applyCommandText_eq (commandEpoch : Nat) (text : Bytes) :
    co.applyCommandText parse commandEpoch text =
      co.applyOne commandEpoch (readCommand parse text) := by
  rw [applyCommandText, tryCommand, readCommand]
  cases parse text with
  | none => rfl
  | some cmd => exact applyCommandJson_eq co commandEpoch cmd

theorem applyTexts_eq (base : Nat) (texts : List Bytes) :
    co.applyTexts parse base texts = applyCommands base co (texts.map (readCommand parse)) := by
  induction texts generalizing base co with
  | nil => rfl
  | cons text texts ih => rw [applyTexts, applyCommandText_eq, ih, List.map_cons, applyCommands]

/-- A snapshot is loaded as the snapshot it stands for, or not at all. -/
theorem applyRaftSnapshot_eq (snapshotData : Bytes) :
    co.applyRaftSnapshot parse snapshotData =
      match readSnapshot parse snapshotData with
      | none => co
      | some snap =>
          { co with
            shards := loadSnapshot co.shards snap
            ring := buildRing (loadSnapshot co.shards snap) } := by
  rw [applyRaftSnapshot, readSnapshot]
  split_ifs with hempty
  · rfl
  · rw [trySnapshot]
    cases parse snapshotData with
    | none => rfl
    | some snap =>
        rw [orThrow_some_bind, Option.bind_some, readSnapshotJson]
        cases snap.atKey "shards" with
        | none => rfl
        | some elements =>
            rw [orThrow_some_bind, Option.bind_some, mapM_orThrow]
            cases elements.items.mapM readSnapshotShard with
            | none => rfl
            | some newClients => rfl

theorem catchUpText_eq (st : RaftStatus) :
    co.catchUpText parse st = co.catchUp (st.toLog parse) := by
  rw [catchUpText, catchUp, applyRaftSnapshot_eq]
  rfl

/-- {lit}`apply_pending_raft_commands` is the apply loop, on what its texts stand for. -/
theorem applyPendingRaftCommands_eq (st : RaftStatus) (compacted : Bool) :
    co.applyPendingRaftCommands parse st compacted =
      if (co.applyPending (st.toLog parse)).2.isSome ∧ compacted then
        { (co.applyPending (st.toLog parse)).1 with localAppliedCount := 0 }
      else (co.applyPending (st.toLog parse)).1 := by
  have hbase : (st.toLog parse).snapshotLastIndex = st.snapshotLastIndex := rfl
  have hcount : (st.toLog parse).appliedCommands.length = st.appliedCommands.length := by
    simp [RaftStatus.toLog]
  have hall : ∀ i, (st.appliedCommands.drop i).take st.appliedCommands.length =
      st.appliedCommands.drop i := by
    intro i
    exact List.take_of_length_le (by simp)
  have hdrop : ∀ i, (st.appliedCommands.drop i).map (readCommand parse) =
      (st.toLog parse).appliedCommands.drop i := by
    simp [RaftStatus.toLog, List.map_drop]
  simp only [applyPendingRaftCommands, applyPending, afterCommands, catchUpText_eq, applyTexts_eq,
    hbase, hcount, hall, hdrop]
  by_cases hnone : st.appliedCommands.length ≤ (co.catchUp (st.toLog parse)).localAppliedCount
  · simp [hnone]
  · by_cases hthreshold : st.appliedCommands.length ≥ compactionThreshold
    · simp [hnone, hthreshold]
    · simp [hnone, hthreshold]

end CoordinatorState

end Refinement

/-! ## The ring and the topology -/

/-- The ring is the one of the shards that have an active client; so it returns only these, and
all of them own points. -/
structure RingAgrees (co : CoordinatorState) : Prop where
  ring : ∃ ids : List Int, ids.Pairwise (· < ·) ∧
    (∀ sid, sid ∈ ids ↔ ∃ sc ∈ co.shards, sc.active = true ∧ sc.shardId = sid) ∧
    co.ring = HashRing.build ids
  returned : ∀ key sid, co.ring.route key = some sid →
    ∃ sc ∈ co.shards, sc.active = true ∧ sc.shardId = sid
  owned : ∀ sc ∈ co.shards, sc.active = true → ∀ v < virtualNodesPerShard,
    (chainedVnodePoint sc.shardId v, sc.shardId) ∈ co.ring.points

theorem RingAgrees.of_ring {co : CoordinatorState} (hring : co.ring = buildRing co.shards) :
    RingAgrees co := by
  have hmem : ∀ sid, sid ∈ activeIds co.shards ↔
      ∃ sc ∈ co.shards, sc.active = true ∧ sc.shardId = sid := by
    intro sid
    simp only [mem_activeIds, activeClients, List.mem_filter, and_assoc]
  have hsorted : (activeIds co.shards).Pairwise (· < ·) := by
    refine (sorted_activeIds co.shards).imp₂ (fun a b hle hne => ?_) (nodup_activeIds co.shards)
    omega
  refine ⟨⟨activeIds co.shards, hsorted, hmem, hring⟩, ?_, ?_⟩
  · intro key sid hroute
    rw [hring] at hroute
    exact (hmem sid).mp (HashRing.route_mem hroute)
  · intro sc hsc hactive v hv
    rw [hring, buildRing, HashRing.mem_points_build]
    exact ⟨sc.shardId, (hmem _).mpr ⟨sc, hsc, hactive, rfl⟩, v, hv, rfl⟩

namespace CoordinatorState

variable (parse : Bytes → Option Json) {co : CoordinatorState}

theorem applyRaftSnapshot_ring (snapshotData : Bytes) (hring : co.ring = buildRing co.shards) :
    (co.applyRaftSnapshot parse snapshotData).ring =
      buildRing (co.applyRaftSnapshot parse snapshotData).shards := by
  rw [applyRaftSnapshot_eq]
  cases readSnapshot parse snapshotData with
  | none => exact hring
  | some snap => rfl

theorem catchUpText_ring (st : RaftStatus) (hring : co.ring = buildRing co.shards) :
    (co.catchUpText parse st).ring = buildRing (co.catchUpText parse st).shards := by
  rw [catchUpText]
  split_ifs with hnew
  · exact applyRaftSnapshot_ring parse st.snapshotData hring
  · exact hring

theorem afterCommands_ring (st : RaftStatus) (n : Nat) (hring : co.ring = buildRing co.shards) :
    (co.afterCommands parse st n).ring = buildRing (co.afterCommands parse st n).shards := by
  rw [afterCommands, applyTexts_eq]
  exact applyCommands_ring _ _ _ (catchUpText_ring parse st hring)

theorem applyPendingRaftCommands_ring (st : RaftStatus) (compacted : Bool)
    (hring : co.ring = buildRing co.shards) :
    (co.applyPendingRaftCommands parse st compacted).ring =
      buildRing (co.applyPendingRaftCommands parse st compacted).shards := by
  have hloop := afterCommands_ring parse st st.appliedCommands.length hring
  unfold applyPendingRaftCommands
  dsimp only
  split_ifs with hnone hcompact
  · exact catchUpText_ring parse st hring
  · exact hloop
  · exact hloop

end CoordinatorState

/-- A call that may change the topology: one turn of the command loop, a snapshot, or a whole
{lit}`apply_pending_raft_commands`. -/
inductive TopologyCall
  | command (commandEpoch : Nat) (text : Bytes)
  | snapshot (snapshotData : Bytes)
  | pending (st : RaftStatus) (compacted : Bool)

def TopologyCall.run (parse : Bytes → Option Json) (co : CoordinatorState) :
    TopologyCall → CoordinatorState
  | command commandEpoch text => co.applyCommandText parse commandEpoch text
  | snapshot snapshotData => co.applyRaftSnapshot parse snapshotData
  | pending st compacted => co.applyPendingRaftCommands parse st compacted

theorem TopologyCall.run_ring (parse : Bytes → Option Json) (calls : List TopologyCall)
    {co : CoordinatorState} (hring : co.ring = buildRing co.shards) :
    (calls.foldl (run parse) co).ring = buildRing (calls.foldl (run parse) co).shards := by
  induction calls generalizing co with
  | nil => exact hring
  | cons call calls ih =>
      apply ih
      cases call with
      | command commandEpoch text =>
          rw [run, CoordinatorState.applyCommandText_eq]
          exact CoordinatorState.applyOne_ring commandEpoch _ hring
      | snapshot snapshotData => exact co.applyRaftSnapshot_ring parse snapshotData hring
      | pending st compacted => exact co.applyPendingRaftCommands_ring parse st compacted hring

/-- **The ring and the topology agree.**  Whatever the endpoints of the config file are and
whatever texts were applied since: the ring is the one of the shards with an active client, now
and after every turn of the next command loop, and a text that throws changes nothing. -/
theorem ring_agrees (parse : Bytes → Option Json) (endpoints : List ShardEndpoint)
    (snapshotLastIndex : Nat) (calls : List TopologyCall) :
    let co := calls.foldl (TopologyCall.run parse)
      (CoordinatorState.boot endpoints snapshotLastIndex)
    RingAgrees co ∧
      (∀ st n, RingAgrees (co.afterCommands parse st n)) ∧
      (∀ commandEpoch text, (tryCommand parse commandEpoch text co).1 = .error () →
        co.applyCommandText parse commandEpoch text = co) ∧
      (∀ snapshotData, (trySnapshot parse snapshotData co).1 = .error () →
        co.applyRaftSnapshot parse snapshotData = co) := by
  intro co
  have hring : co.ring = buildRing co.shards := TopologyCall.run_ring parse calls rfl
  refine ⟨.of_ring hring, fun st n => .of_ring (co.afterCommands_ring parse st n hring), ?_, ?_⟩
  · intro commandEpoch text hthrow
    exact tryCommand_keepsOnThrow parse co commandEpoch text hthrow
  · intro snapshotData hthrow
    rw [CoordinatorState.applyRaftSnapshot]
    split_ifs with hempty
    · rfl
    · exact trySnapshot_keepsOnThrow parse co snapshotData hthrow

/-! ## The round trip of a snapshot -/

/-- A document that {lit}`parse` can give back: no fractions, integers of 64 bits, and the keys
of an object in the order of the library's map. -/
inductive Json.Plain : Json → Prop
  | null : Plain .null
  | bool (b : Bool) : Plain (.bool b)
  | int (i : Int) (hmin : -2 ^ 63 ≤ i) (hmax : i < 2 ^ 64) : Plain (.int i)
  | str (s : Bytes) : Plain (.str s)
  | array (items : List Json) (hitems : ∀ j ∈ items, Plain j) : Plain (.array items)
  | object (members : List (String × Json)) (hkeys : (members.map (·.1)).Pairwise (· < ·))
      (hmembers : ∀ m ∈ members, Plain m.2) : Plain (.object members)

/-- The JSON library: it parses what it dumps.  {lit}`dump` throws on a string that is not
UTF-8. -/
structure JsonCodec where
  dump : Json → Option Bytes
  parse : Bytes → Option Json
  parse_dump : ∀ j text, j.Plain → dump j = some text → parse text = some j
  parse_empty : parse [] = none

/-- The values of the types {lit}`int` and {lit}`uint64_t`. -/
structure ShardClient.InRange (sc : ShardClient) : Prop where
  shardId : -2 ^ 31 ≤ sc.shardId ∧ sc.shardId < 2 ^ 31
  replicaId : -2 ^ 31 ≤ sc.replicaId ∧ sc.replicaId < 2 ^ 31
  port : -2 ^ 31 ≤ sc.port ∧ sc.port < 2 ^ 31
  epoch : sc.epoch < 2 ^ 64

/-- One element of the snapshot. -/
def clientJson (sc : ShardClient) : Json :=
  .object [("epoch", .int sc.epoch), ("host", .str sc.host), ("port", .int sc.port),
    ("primary", .bool sc.isPrimary), ("replica_id", .int sc.replicaId),
    ("shard_id", .int sc.shardId)]

/-- The document of the snapshot: the active clients. -/
def snapshotJson (shards : List ShardClient) : Json :=
  .object [("shards", .array ((activeClients shards).map clientJson))]

/-- {lit}`serialize_raft_snapshot`; {lean}`none` is an exception. -/
def serializeRaftSnapshot (codec : JsonCodec) (shards : List ShardClient) : Option Bytes :=
  codec.dump (snapshotJson shards)

section RoundTrip

variable {sc : ShardClient} {shards : List ShardClient}

theorem ShardClient.InRange.plain (h : sc.InRange) : (clientJson sc).Plain := by
  obtain ⟨hshard, hreplica, hport, hepoch⟩ := h
  have hkeys : ["epoch", "host", "port", "primary", "replica_id", "shard_id"].Pairwise (· < ·) := by
    decide
  refine .object _ hkeys ?_
  simp only [List.forall_mem_cons, List.not_mem_nil, false_implies, implies_true, and_true]
  refine ⟨.int _ ?_ ?_, .str _, .int _ ?_ ?_, .bool _, .int _ ?_ ?_, .int _ ?_ ?_⟩
  all_goals omega

theorem plain_snapshotJson (h : ∀ sc ∈ shards, sc.InRange) : (snapshotJson shards).Plain := by
  refine .object _ (List.pairwise_singleton _ _) ?_
  intro m hm
  rw [List.mem_singleton.mp hm]
  refine .array _ ?_
  intro j hj
  obtain ⟨sc, hsc, rfl⟩ := List.mem_map.mp hj
  exact (h sc (List.mem_of_mem_filter hsc)).plain

/-- The casts keep the values of the types that were written. -/
theorem readSnapshotShard_clientJson (h : sc.InRange) :
    readSnapshotShard (clientJson sc) =
      some ⟨sc.shardId, sc.replicaId, sc.host, sc.port, sc.isPrimary, sc.epoch⟩ := by
  have hint : ∀ i : Int, -2 ^ 31 ≤ i ∧ i < 2 ^ 31 → i.bmod (2 ^ 32) = i := by
    intro i hi
    exact Int.bmod_eq_of_le (by omega) (by omega)
  have hepoch : ((sc.epoch : Int) % 2 ^ 64).toNat = sc.epoch := by
    have := h.epoch
    omega
  have hread : readSnapshotShard (clientJson sc) =
      some ⟨sc.shardId.bmod (2 ^ 32), sc.replicaId.bmod (2 ^ 32), sc.host,
        sc.port.bmod (2 ^ 32), sc.isPrimary, ((sc.epoch : Int) % 2 ^ 64).toNat⟩ := rfl
  rw [hread, hint _ h.shardId, hint _ h.replicaId, hint _ h.port, hepoch]

theorem readSnapshotJson_snapshotJson (h : ∀ sc ∈ shards, sc.InRange) :
    readSnapshotJson (snapshotJson shards) = some (serializeSnapshot shards) := by
  have hmap : ∀ clients : List ShardClient, (∀ sc ∈ clients, sc.InRange) →
      (clients.map clientJson).mapM readSnapshotShard =
        some (clients.map fun sc =>
          ⟨sc.shardId, sc.replicaId, sc.host, sc.port, sc.isPrimary, sc.epoch⟩) := by
    intro clients hclients
    induction clients with
    | nil => rfl
    | cons sc clients ih =>
        rw [List.forall_mem_cons] at hclients
        rw [List.map_cons, List.mapM_cons, readSnapshotShard_clientJson hclients.1,
          ih hclients.2]
        rfl
  exact hmap _ fun sc hsc => h sc (List.mem_of_mem_filter hsc)

/-- **The round trip of a snapshot.**  Applied on any coordinator, the text of a snapshot makes
exactly the clients active that it was taken from, in their order and with all that is known of
them, and the ring is theirs. -/
theorem applyRaftSnapshot_serialize (codec : JsonCodec) (shards : List ShardClient) (text : Bytes)
    (co : CoordinatorState) (hrange : ∀ sc ∈ shards, sc.InRange)
    (hdump : serializeRaftSnapshot codec shards = some text) :
    activeClients (co.applyRaftSnapshot codec.parse text).shards = activeClients shards ∧
      (co.applyRaftSnapshot codec.parse text).ring = HashRing.build (activeIds shards) := by
  have hparse := codec.parse_dump _ text (plain_snapshotJson hrange) hdump
  have hne : text ≠ [] := by
    intro hempty
    rw [hempty, codec.parse_empty] at hparse
    cases hparse
  have hread : readSnapshot codec.parse text = some (serializeSnapshot shards) := by
    rw [readSnapshot, if_neg hne, hparse, Option.bind_some, readSnapshotJson_snapshotJson hrange]
  have hactive := active_loadSnapshot co.shards shards
  rw [CoordinatorState.applyRaftSnapshot_eq, hread]
  refine ⟨hactive, ?_⟩
  dsimp only
  rw [buildRing, activeIds, hactive, activeIds]

/-- Two replicas of one shard, of which one was removed. -/
def twoClients : List ShardClient :=
  [⟨3, 0, [103], 50050, false, true, 2⟩, ⟨3, 1, [104], 50051, true, true, 7⟩]

/-- The text of their snapshot. -/
def twoClientsText : Bytes :=
  123 :: ("\"shards\":[\x7b\"epoch\":7,\"host\":\"h\",\"port\":50051,\"primary\":true," ++
    "\"replica_id\":1,\"shard_id\":3\x7d]\x7d").toList.map fun c => c.toNat.toUInt8

open Classical in
/-- A library that dumps and parses this one document. -/
noncomputable def twoClientsCodec : JsonCodec where
  dump j := if j = snapshotJson twoClients then some twoClientsText else none
  parse text := if text = twoClientsText then some (snapshotJson twoClients) else none
  parse_dump := by
    intro j text _ hdump
    split_ifs at hdump with hj
    cases hdump
    rw [if_pos rfl, hj]
  parse_empty := if_neg (List.cons_ne_nil _ _).symm

theorem inRange_twoClients : ∀ sc ∈ twoClients, sc.InRange := by
  simp only [twoClients, List.forall_mem_cons, List.not_mem_nil, false_implies, implies_true,
    and_true]
  exact ⟨⟨by decide, by decide, by decide, by decide⟩, ⟨by decide, by decide, by decide, by decide⟩⟩

/-- On a coordinator that knows the same shard under another address. -/
theorem applyRaftSnapshot_serialize_twoClients :
    let co := CoordinatorState.boot [⟨3, 0, [105], 50052, true⟩] 4
    activeClients (co.applyRaftSnapshot twoClientsCodec.parse twoClientsText).shards =
        [⟨3, 1, [104], 50051, true, true, 7⟩] ∧
      (co.applyRaftSnapshot twoClientsCodec.parse twoClientsText).ring = HashRing.build [3] :=
  applyRaftSnapshot_serialize twoClientsCodec twoClients twoClientsText _ inRange_twoClients
    (if_pos rfl)

end RoundTrip

end NanoDB.Coordinator
