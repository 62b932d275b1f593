import NanoDB.Coordinator.Failover
import NanoDB.Coordinator.Migration

/-!
# Which replica is more complete

The health check promotes the replica with the highest element count.  One replica of a
shard has processed a whole history of writes, another one has missed a block of it, and
both are compared by that count.

An insert counts up, also over a live vector, and a delete of a live key counts down.  So
the count of a replica is the number of inserts it has processed that the next write of the
same key does not delete.  A replica that has missed deletes may have the higher count.

Main results:

- Theorem {lit}`elementCount_processAll`: the count after a history is the number of its
  kept inserts.
- Theorem {lit}`complete_preferred_iff`: the replica that missed the block is never promoted
  over the complete one iff the history without the block has fewer kept inserts.
-/

namespace NanoDB.Coordinator

open Cluster (Key)
open NanoDB.Index (vectorDim)
open Shard (ShardServer Floats)

/-! ## Histories -/

/-- A write as a replica receives it, with its epoch. -/
abbrev WriteRequest := WriteOp × Nat

/-- Process requests in order; one that is refused is passed over. -/
def processAll (s : ShardServer) (requests : List WriteRequest) : ShardServer :=
  requests.foldl (fun s r => (r.1.handle r.2 s).2) s

/-- Every request is acknowledged. -/
def AllAccepted (s : ShardServer) : List WriteRequest → Prop
  | [] => True
  | r :: requests => (r.1.handle r.2 s).1 = true ∧ AllAccepted (r.1.handle r.2 s).2 requests

instance instDecidableAllAccepted (s : ShardServer) (requests : List WriteRequest) :
    Decidable (AllAccepted s requests) :=
  match requests with
  | [] => inferInstanceAs (Decidable True)
  | r :: requests =>
      have := instDecidableAllAccepted (r.1.handle r.2 s).2 requests
      inferInstanceAs (Decidable (_ ∧ _))

/-- A replica that was cut off, or down and started again. -/
def afterOutage (restarted : Bool) (s : ShardServer) : ShardServer :=
  if restarted then s.restart else s

/-! ## Kept inserts -/

def WriteOp.isInsert : WriteOp → Bool
  | .insert _ _ _ => true
  | .delete _ => false

/-- The first write of a key. -/
def firstOp (k : Key) (ops : List WriteOp) : Option WriteOp :=
  ops.find? fun op => decide (op.key = k)

/-- The last write of a key. -/
def lastOp (k : Key) (ops : List WriteOp) : Option WriteOp :=
  firstOp k ops.reverse

/-- The number of inserts that the next write of the same key does not delete. -/
def keptInserts : List WriteOp → Nat
  | [] => 0
  | .insert k _ _ :: ops => keptInserts ops + if (firstOp k ops).all WriteOp.isInsert then 1 else 0
  | .delete _ :: ops => keptInserts ops

theorem firstOp_append (k : Key) (ops ops' : List WriteOp) :
    firstOp k (ops ++ ops') = (firstOp k ops).or (firstOp k ops') :=
  List.find?_append

theorem firstOp_singleton (k : Key) (op : WriteOp) :
    firstOp k [op] = if op.key = k then some op else none := by
  by_cases h : op.key = k <;> simp [firstOp, h]

theorem lastOp_cons (k : Key) (op : WriteOp) (ops : List WriteOp) :
    lastOp k (op :: ops) = (lastOp k ops).or (if op.key = k then some op else none) := by
  rw [lastOp, List.reverse_cons, firstOp_append, firstOp_singleton]
  rfl

theorem lastOp_append (k : Key) (ops : List WriteOp) (op : WriteOp) :
    lastOp k (ops ++ [op]) = if op.key = k then some op else lastOp k ops := by
  rw [lastOp, List.reverse_append, firstOp_append]
  by_cases h : op.key = k <;> simp [firstOp, lastOp, h]

/-- A key has a first write iff it has a last one. -/
theorem lastOp_eq_none_iff {k : Key} {ops : List WriteOp} :
    lastOp k ops = none ↔ firstOp k ops = none := by
  simp [lastOp, firstOp]

/-- An insert at the end is kept. -/
theorem keptInserts_append_insert (ops : List WriteOp) (k : Key) (v : Floats) (m : Raft.Bytes) :
    keptInserts (ops ++ [.insert k v m]) = keptInserts ops + 1 := by
  induction ops with
  | nil => rfl
  | cons op ops ih =>
      cases op with
      | insert k' v' m' =>
          have hnext : (firstOp k' (ops ++ [.insert k v m])).all WriteOp.isInsert =
              (firstOp k' ops).all WriteOp.isInsert := by
            rw [firstOp_append, firstOp_singleton]
            cases firstOp k' ops with
            | none => split <;> rfl
            | some op => rfl
          rw [List.cons_append, keptInserts, keptInserts, ih, hnext]
          omega
      | delete k' => exact ih

/-- A delete at the end undoes the last write of its key if that is an insert. -/
theorem keptInserts_append_delete (ops : List WriteOp) (k : Key) :
    keptInserts (ops ++ [.delete k]) + (if (lastOp k ops).any WriteOp.isInsert then 1 else 0) =
      keptInserts ops := by
  induction ops with
  | nil => rfl
  | cons op ops ih =>
      cases op with
      | insert k' v' m' =>
          rw [List.cons_append, keptInserts, keptInserts, lastOp_cons, firstOp_append,
            firstOp_singleton]
          by_cases hk : k' = k
          · subst hk
            cases hfirst : firstOp k' ops with
            | none =>
                -- the insert is the last write of the key
                have hlast := lastOp_eq_none_iff.mpr hfirst
                rw [hlast] at ih ⊢
                simp [WriteOp.key, WriteOp.isInsert] at ih ⊢
                omega
            | some op =>
                cases hlast : lastOp k' ops with
                | none =>
                    rw [lastOp_eq_none_iff.mp hlast] at hfirst
                    contradiction
                | some op' =>
                    rw [hlast] at ih
                    rw [Option.some_or, Option.some_or, ← ih]
                    omega
          · have hne : ¬ k = k' := fun heq => hk heq.symm
            simp only [WriteOp.key, hk, hne, if_false, Option.or_none]
            omega
      | delete k' =>
          have hlast : (lastOp k (.delete k' :: ops)).any WriteOp.isInsert =
              (lastOp k ops).any WriteOp.isInsert := by
            rw [lastOp_cons]
            cases lastOp k ops with
            | none => split <;> rfl
            | some op => rfl
          rw [hlast]
          exact ih

/-! ## The count after a history -/

/-- The epochs do not go back from {lit}`epoch` on and every vector has the right
dimension. -/
def Admissible (epoch : Nat) : List WriteRequest → Prop
  | [] => True
  | r :: requests => epoch ≤ r.2 ∧ (∀ k v m, r.1 = .insert k v m → v.length = vectorDim) ∧
      Admissible r.2 requests

theorem AllAccepted.admissible {s : ShardServer} {requests : List WriteRequest}
    (h : AllAccepted s requests) : Admissible s.currentEpoch requests := by
  induction requests generalizing s with
  | nil => trivial
  | cons r requests ih =>
      rcases WriteOp.epoch_of_handle h.1 with ⟨hle, hnext⟩
      refine ⟨hle, ?_, hnext ▸ ih h.2⟩
      intro k v m hop
      have hok := h.1
      rw [hop] at hok
      exact (ShardServer.insert_ok_iff.mp hok).1

theorem Admissible.mono {epoch epoch' : Nat} (hle : epoch' ≤ epoch) {requests : List WriteRequest}
    (h : Admissible epoch requests) : Admissible epoch' requests := by
  cases requests with
  | nil => trivial
  | cons r requests => exact ⟨Nat.le_trans hle h.1, h.2⟩

/-- What is left when a block is missed is admissible. -/
theorem Admissible.of_append {epoch : Nat} {block requests : List WriteRequest}
    (h : Admissible epoch (block ++ requests)) : Admissible epoch requests := by
  induction block generalizing epoch with
  | nil => exact h
  | cons r block ih => exact (ih h.2.2).mono h.1

/-- A replica has processed the writes {lit}`ops`, up to an epoch. -/
structure Processed (s : ShardServer) (ops : List WriteOp) (epoch : Nat) : Prop where
  live : ∀ k, (s.liveVector k).isSome = (lastOp k ops).any WriteOp.isInsert
  count : s.elementCount = keptInserts ops
  epoch_le : s.currentEpoch ≤ epoch

theorem processed_empty : Processed {} [] 0 where
  live _ := rfl
  count := rfl
  epoch_le := Nat.le_refl 0

theorem Processed.handle {s : ShardServer} {ops : List WriteOp} {epoch : Nat}
    (h : Processed s ops epoch) {op : WriteOp} {epoch' : Nat} (hle : epoch ≤ epoch')
    (hdim : ∀ k v m, op = .insert k v m → v.length = vectorDim) :
    Processed (op.handle epoch' s).2 (ops ++ [op]) epoch' := by
  have hepoch : s.currentEpoch ≤ epoch' := Nat.le_trans h.epoch_le hle
  cases op with
  | insert k v m =>
      have hok : (s.insert ⟨k, v, m, epoch'⟩).1.ok = true :=
        ShardServer.insert_ok_iff.mpr ⟨hdim k v m rfl, hepoch⟩
      refine ⟨?_, ?_, ?_⟩
      · intro k'
        rw [WriteOp.handle, ShardServer.liveVector_insert hok, lastOp_append]
        by_cases hk : k' = k
        · simp [hk, WriteOp.key, WriteOp.isInsert]
        · have hne : ¬ k = k' := fun heq => hk heq.symm
          simp [hk, hne, WriteOp.key, h.live k']
      · rw [keptInserts_append_insert, ← h.count]
        exact ShardServer.elementCount_insert hok
      · rw [WriteOp.handle, ShardServer.currentEpoch_insert, if_pos hok]
  | delete k =>
      refine ⟨?_, ?_, ?_⟩
      · intro k'
        rw [WriteOp.handle, ShardServer.liveVector_delete hepoch, lastOp_append]
        by_cases hk : k' = k
        · simp [hk, WriteOp.key, WriteOp.isInsert]
        · have hne : ¬ k = k' := fun heq => hk heq.symm
          simp [hk, hne, WriteOp.key, h.live k']
      · have hcount := keptInserts_append_delete ops k
        rw [← h.live k, ← h.count] at hcount
        rw [WriteOp.handle, ShardServer.elementCount_delete hepoch]
        cases hlive : (s.liveVector k).isSome with
        | true =>
            rw [hlive, if_pos rfl] at hcount
            rw [if_pos rfl]
            omega
        | false =>
            rw [hlive, if_neg (by decide), Nat.add_zero] at hcount
            rw [if_neg (by decide), hcount]
      · rw [WriteOp.handle, ShardServer.currentEpoch_delete]
        exact Nat.le_of_eq (Nat.max_eq_right hepoch)

theorem Processed.processAll {s : ShardServer} {ops : List WriteOp} {epoch : Nat}
    {requests rest : List WriteRequest} (h : Processed s ops epoch)
    (hadmissible : Admissible epoch (requests ++ rest)) :
    ∃ epoch', Processed (processAll s requests) (ops ++ requests.map (·.1)) epoch' ∧
      Admissible epoch' rest := by
  induction requests generalizing s ops epoch with
  | nil =>
      rw [List.map_nil, List.append_nil]
      exact ⟨epoch, h, hadmissible⟩
  | cons r requests ih =>
      rcases ih (h.handle hadmissible.1 hadmissible.2.1) hadmissible.2.2 with ⟨epoch', hlast, hrest⟩
      rw [List.append_assoc, List.singleton_append] at hlast
      exact ⟨epoch', hlast, hrest⟩

theorem Processed.afterOutage {s : ShardServer} {ops : List WriteOp} {epoch : Nat}
    (h : Processed s ops epoch) (restarted : Bool) :
    Processed (afterOutage restarted s) ops epoch := by
  cases restarted with
  | false => exact h
  | true => exact ⟨h.live, h.count, Nat.zero_le _⟩

/-- The element count of a replica that has processed a history, and of one that has missed
a block of it. -/
theorem elementCount_processAll {before block after : List WriteRequest}
    (haccepted : AllAccepted {} (before ++ block ++ after)) (restarted : Bool) :
    (processAll {} (before ++ block ++ after)).elementCount =
        keptInserts ((before ++ block ++ after).map (·.1)) ∧
      (processAll (afterOutage restarted (processAll {} before)) after).elementCount =
        keptInserts ((before ++ after).map (·.1)) := by
  have hadmissible : Admissible 0 (before ++ block ++ after) := haccepted.admissible
  constructor
  · have hend : Admissible 0 (before ++ block ++ after ++ []) := by
      rwa [List.append_nil]
    rcases processed_empty.processAll hend with ⟨_, h, -⟩
    rw [h.count, List.nil_append]
  · rw [List.append_assoc] at hadmissible
    rcases processed_empty.processAll hadmissible with ⟨epoch, hbefore, hrest⟩
    have hend : Admissible epoch (after ++ []) := by
      rw [List.append_nil]
      exact hrest.of_append
    rcases (hbefore.afterOutage restarted).processAll hend with ⟨_, h, -⟩
    rw [h.count, List.nil_append, List.map_append]

/-! ## The choice of the health check -/

/-- What the replicas that answer report to {lit}`Stats`. -/
def reportedStats (servers : Servers) (answering : List Address) (r : ShardClient) : Option Nat :=
  if answering.contains r.address then some (servers r.address).elementCount else none

/-- The health check proposes the replica that it has chosen, after three misses. -/
theorem healthCheck_eq_some {pool : List ShardClient} {shardId : Int} {primary : ShardClient}
    (hprimary : findPrimary pool shardId = some primary) {pingOk : Bool}
    {stats : ShardClient → Option Nat} {failures : Nat} {cmd : Command} :
    (healthCheck pool shardId pingOk stats failures).2 = some cmd ↔
      pingOk = false ∧ failuresBeforeFailover ≤ failures + 1 ∧
        ∃ r count, chooseCandidate stats primary (replicasForShard pool shardId) = some (r, count) ∧
          cmd = .setPrimary shardId r.replicaId := by
  rw [healthCheck, hprimary]
  dsimp only
  cases pingOk with
  | true => simp
  | false =>
      rw [if_neg (by decide)]
      split
      · next hfew =>
          simp only [reduceCtorEq, false_iff, not_and]
          intro _ hmany
          omega
      · next hmany =>
          cases hchosen : chooseCandidate stats primary (replicasForShard pool shardId) with
          | none => simp
          | some best =>
              cases best with
              | mk r count => simp [Nat.le_of_not_lt hmany, eq_comm]

/-- Whatever the pool is, the health check does not promote a replica in the state
{lit}`missing` while one in the state {lit}`complete` answers as well.  Neither is the
primary, and the replicas of the shard have different replica ids. -/
def NeverPromotedOver (complete missing : ShardServer) : Prop :=
  ∀ (pool : List ShardClient) (shardId : Int) (servers : Servers) (answering : List Address)
    (pingOk : Bool) (failures : Nat) (primary c m : ShardClient),
    ((replicasForShard pool shardId).map (·.replicaId)).Nodup →
    findPrimary pool shardId = some primary →
    c ∈ replicasForShard pool shardId → c ≠ primary → c.address ∈ answering →
    servers c.address = complete →
    m ∈ replicasForShard pool shardId → m ≠ primary → m.address ∈ answering →
    servers m.address = missing →
    (healthCheck pool shardId pingOk (reportedStats servers answering) failures).2 ≠
      some (.setPrimary shardId m.replicaId)

/-- A replica with fewer elements is not promoted. -/
theorem neverPromotedOver_of_lt {complete missing : ShardServer}
    (hlt : missing.elementCount < complete.elementCount) : NeverPromotedOver complete missing := by
  intro pool shardId servers answering pingOk failures primary c m hids hprimary hc hcne hcans
    hcomplete hm _ hmans hmissing hproposed
  rcases (healthCheck_eq_some hprimary).mp hproposed with ⟨-, -, r, count, hchosen, hcmd⟩
  have hbest := isBest_chooseCandidate (reportedStats servers answering) primary
    (replicasForShard pool shardId)
  rw [hchosen] at hbest
  rcases hbest with ⟨hr, -, hstats, hle⟩
  have hsame : r = m := by
    apply List.inj_on_of_nodup_map hids hr hm
    injection hcmd with _ hid
    exact hid.symm
  have hcount : missing.elementCount = count := by
    rw [hsame, reportedStats, if_pos (List.contains_iff_mem.mpr hmans), hmissing] at hstats
    exact Option.some_inj.mp hstats
  have hcomplete' := hle c hc hcne complete.elementCount
    (by rw [reportedStats, if_pos (List.contains_iff_mem.mpr hcans), hcomplete])
  omega

/-- The replicas of a shard: its primary, the one that missed writes, and the complete
one. -/
def choicePool : List ShardClient :=
  [{ shardId := 0, replicaId := 1, host := [97], port := 1, isPrimary := true },
    { shardId := 0, replicaId := 2, host := [97], port := 2 },
    { shardId := 0, replicaId := 3, host := [97], port := 3 }]

/-- The second replica in one state and the others in another. -/
def choiceServers (complete missing : ShardServer) : Servers :=
  fun a => if a = ([97], 2) then missing else complete

/-- If it does not have fewer elements, the second replica of the pool is promoted. -/
theorem healthCheck_choicePool {complete missing : ShardServer}
    (hle : complete.elementCount ≤ missing.elementCount) :
    (healthCheck choicePool 0 false
      (reportedStats (choiceServers complete missing) [([97], 2), ([97], 3)]) 2).2 =
        some (.setPrimary 0 2) := by
  have hnot : ¬ complete.elementCount > missing.elementCount := by omega
  simp [healthCheck, choicePool, findPrimary, failuresBeforeFailover, chooseCandidate,
    replicasForShard, considerCandidate, reportedStats, choiceServers, ShardClient.address, hnot]

theorem not_neverPromotedOver {complete missing : ShardServer}
    (hle : complete.elementCount ≤ missing.elementCount) :
    ¬ NeverPromotedOver complete missing := by
  intro hnever
  exact hnever choicePool 0 (choiceServers complete missing) [([97], 2), ([97], 3)] false 2
    { shardId := 0, replicaId := 1, host := [97], port := 1, isPrimary := true }
    { shardId := 0, replicaId := 3, host := [97], port := 3 }
    { shardId := 0, replicaId := 2, host := [97], port := 2 }
    (by decide) (by decide) (by decide) (by decide) (by decide) rfl (by decide) (by decide)
    (by decide) rfl (healthCheck_choicePool hle)

/-- For every history of writes that a replica has acknowledged one by one, and every block
of it that another replica has missed, with or without a restart: that other replica is
never promoted over the complete one iff fewer inserts are kept in the history without the
block. -/
theorem complete_preferred_iff (before block after : List WriteRequest) (restarted : Bool)
    (haccepted : AllAccepted {} (before ++ block ++ after)) :
    NeverPromotedOver (processAll {} (before ++ block ++ after))
        (processAll (afterOutage restarted (processAll {} before)) after) ↔
      keptInserts ((before ++ after).map (·.1)) <
        keptInserts ((before ++ block ++ after).map (·.1)) := by
  rcases elementCount_processAll haccepted restarted with ⟨hcomplete, hmissing⟩
  rw [← hcomplete, ← hmissing]
  constructor
  · intro hnever
    by_contra hlt
    exact not_neverPromotedOver (Nat.le_of_not_lt hlt) hnever
  · exact neverPromotedOver_of_lt

/-- An insert of a zero vector. -/
def insertOf (k : Key) : WriteRequest :=
  (.insert k (List.replicate 128 0) [], 0)

/-- A missed insert, before an update and a delete of another key. -/
theorem complete_preferred_iff_insert :
    AllAccepted {} ([insertOf [97]] ++ [insertOf [98]] ++ [insertOf [97], (.delete [97], 0)]) ∧
      NeverPromotedOver
        (processAll {} ([insertOf [97]] ++ [insertOf [98]] ++
          [insertOf [97], (.delete [97], 0)]))
        (processAll (afterOutage true (processAll {} [insertOf [97]]))
          [insertOf [97], (.delete [97], 0)]) := by
  have haccepted : AllAccepted {}
      ([insertOf [97]] ++ [insertOf [98]] ++ [insertOf [97], (.delete [97], 0)]) := by
    decide +kernel
  exact ⟨haccepted, (complete_preferred_iff [insertOf [97]] [insertOf [98]]
    [insertOf [97], (.delete [97], 0)] true haccepted).mpr (by decide +kernel)⟩

/-- Two keys are inserted; then one replica misses an insert of a third key and the deletes
of the two.  It has two elements, the complete replica one, and it is promoted although it
does not hold the third key. -/
theorem incomplete_replica_promoted :
    ¬ ∀ before block after : List WriteRequest, block ≠ [] →
      AllAccepted {} (before ++ block ++ after) →
      (∃ k v m epoch, (WriteOp.insert k v m, epoch) ∈ block ∧
        ((processAll {} (before ++ block ++ after)).liveVector k).isSome = true) →
      ∀ restarted, NeverPromotedOver (processAll {} (before ++ block ++ after))
        (processAll (afterOutage restarted (processAll {} before)) after) := by
  intro hall
  have hnever := hall [insertOf [97], insertOf [98]]
    [insertOf [99], (.delete [97], 0), (.delete [98], 0)] [] (by decide) (by decide +kernel)
    ⟨[99], List.replicate 128 0, [], 0, by decide, by decide +kernel⟩ false
  exact not_neverPromotedOver (by decide +kernel) hnever

end NanoDB.Coordinator
