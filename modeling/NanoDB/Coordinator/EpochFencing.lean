import NanoDB.Coordinator.QuorumWrite

/-!
# Epoch fencing

A replica refuses a write whose epoch is below one it has accepted.  A write needs the
acknowledgements of a majority, so once a write at some epoch is confirmed, a majority of
the replicas refuses everything below that epoch, whatever the coordinators' views of
primary and epoch are and in whatever order the requests are handled.

Main results:

- Theorem {lit}`Fenced.step`: a replica stays at or above every epoch it has
  acknowledged.
- Theorem {lit}`FencedSince.step`: a request acknowledged later was not behind the
  epoch its replica had before.
- Theorem {lit}`epoch_fencing`: no write below the epoch of a confirmed one is
  confirmed afterwards.
-/

namespace NanoDB.Coordinator

open Lib (Exec guardedRun)
open Shard (ShardServer Floats)

namespace ShardGroup

/-- No replica restarts. -/
def notRestart : GroupAction → Bool
  | .restart _ => false
  | _ => true

section Fencing

variable {replicas : ReplicaSet} {s s' : ShardGroup} {act : GroupAction}

/-- Without restarts the epoch of a replica never goes back. -/
theorem currentEpoch_le_step (hok : notRestart act = true) (h : step replicas s act = some s')
    (a : Address) : (s.servers a).currentEpoch ≤ (s'.servers a).currentEpoch := by
  rcases step_cases h with ⟨clients, op, rfl, -, rfl⟩ | ⟨w, i, wr, t, rfl, -, -, -, rfl⟩ |
    ⟨w, i, t, ok, -, -, -, rfl⟩ | ⟨a', rfl, rfl⟩ | ⟨a', rfl, rfl⟩
  · exact Nat.le_refl _
  · by_cases ha : a = t.client.address
    · subst ha
      simp only [setServer, Function.update_self]
      exact WriteOp.currentEpoch_le_handle _ _ _
    · simp only [setServer, Function.update_of_ne ha]
      exact Nat.le_refl _
  · exact Nat.le_refl _
  · exact Nat.le_refl _
  · contradiction

/-- Every acknowledged epoch is at most the epoch of the replica. -/
def Fenced (s : ShardGroup) : Prop :=
  ∀ w i t, s.target w i = some t → t.handled = some true →
    t.client.epoch ≤ (s.servers t.client.address).currentEpoch

theorem Fenced.step (hfenced : Fenced s) (hok : notRestart act = true)
    (h : ShardGroup.step replicas s act = some s') : Fenced s' := by
  intro w i t' ht' hacked
  rcases target_before h ht' with ht | ⟨-, hnone, -⟩ | ⟨t, wr, ht, -, -, rfl, hservers⟩ |
    ⟨t, ok, ht, -, rfl, -⟩
  · exact (hfenced w i t' ht hacked).trans (currentEpoch_le_step hok h _)
  · rw [hnone] at hacked
    contradiction
  · rw [Option.some_inj] at hacked
    rw [hservers, Function.update_self, (WriteOp.epoch_of_handle hacked).2]
  · exact (hfenced w i t ht hacked).trans (currentEpoch_le_step hok h _)

/-- Between two states: epochs did not go back, and a request acknowledged in between
was not behind its replica's epoch at the start. -/
def FencedSince (s s' : ShardGroup) : Prop :=
  (∀ a, (s.servers a).currentEpoch ≤ (s'.servers a).currentEpoch) ∧
  ∀ w i t', s'.target w i = some t' → t'.handled = some true →
    (∃ t, s.target w i = some t ∧ t.client = t'.client ∧ t.handled = some true) ∨
      (s.servers t'.client.address).currentEpoch ≤ t'.client.epoch

theorem FencedSince.refl (s : ShardGroup) : FencedSince s s :=
  ⟨fun _ => Nat.le_refl _, fun _ _ t' ht' hacked => .inl ⟨t', ht', rfl, hacked⟩⟩

theorem FencedSince.trans {s s' s'' : ShardGroup} (h : FencedSince s s')
    (h' : FencedSince s' s'') : FencedSince s s'' := by
  refine ⟨fun a => (h.1 a).trans (h'.1 a), ?_⟩
  intro w i t'' ht'' hacked
  rcases h'.2 w i t'' ht'' hacked with ⟨t', ht', hclient, hacked'⟩ | hlater
  · rw [← hclient]
    exact h.2 w i t' ht' hacked'
  · exact .inr ((h.1 _).trans hlater)

theorem FencedSince.step (hok : notRestart act = true)
    (h : ShardGroup.step replicas s act = some s') : FencedSince s s' := by
  refine ⟨currentEpoch_le_step hok h, ?_⟩
  intro w i t' ht' hacked
  rcases target_before h ht' with ht | ⟨-, hnone, -⟩ | ⟨t, wr, ht, -, -, rfl, -⟩ |
    ⟨t, ok, ht, -, rfl, -⟩
  · exact .inl ⟨t', ht, rfl, hacked⟩
  · rw [hnone] at hacked
    contradiction
  · rw [Option.some_inj] at hacked
    exact .inr (WriteOp.epoch_of_handle hacked).1
  · exact .inl ⟨t, ht, rfl, hacked⟩

end Fencing

/-- **Epoch fencing.**  Once a write whose requests all carried epochs of at least
{lit}`e` is confirmed, no write is confirmed whose requests all carry epochs below
{lit}`e` and are handled afterwards. -/
theorem epoch_fencing (replicas : ReplicaSet) (servers : Address → ShardServer)
    {as as' : List GroupAction} {s s' : ShardGroup} (e w w' : Nat) {wr wr' : Write}
    (hrun : Exec (step replicas) (fun _ act => notRestart act = true) (start servers) as s)
    (hwr : s.writes[w]? = some wr) (hconfirmed : wr.confirmed = true)
    (hnew : ∀ t ∈ wr.targets, e ≤ t.client.epoch)
    (hrun' : Exec (step replicas) (fun _ act => notRestart act = true) s as' s')
    (hwr' : s'.writes[w']? = some wr') (hold : ∀ t ∈ wr'.targets, t.client.epoch < e)
    (hafter : ∀ i t, s.target w' i = some t → t.handled = none) :
    wr'.confirmed = false := by
  have hinv : Inv replicas s := Inv.run hrun (Inv.init replicas rfl)
  have hinv' : Inv replicas s' := Inv.run hrun' hinv
  have hfenced : Fenced s :=
    hrun.invariant Fenced (fun _ _ _ hf hok h => hf.step hok h)
      (fun w i t ht => by simp [target, start] at ht)
  have hsince : FencedSince s s' :=
    hrun'.relation (fun _ => True) FencedSince FencedSince.refl (fun _ _ _ => FencedSince.trans)
      (fun _ _ _ _ _ _ => trivial) (fun _ _ _ _ hok h => FencedSince.step hok h) trivial
  by_contra hne
  have hconfirmed' : wr'.confirmed = true := by simpa using hne
  -- A replica that acknowledged both writes.
  have hquorum := (Write.quorum_of_confirmed (hinv.perm w wr hwr) hconfirmed).1
  have hquorum' := (Write.quorum_of_confirmed (hinv'.perm w' wr' hwr') hconfirmed').1
  rcases hquorum.meet hquorum' with ⟨a, ha, ha'⟩
  rcases Write.mem_ackers.mp ha with ⟨t, ht, hret, haddr⟩
  rcases Write.mem_ackers.mp ha' with ⟨t', ht', hret', haddr'⟩
  rcases exists_target_of_mem hwr ht with ⟨i, hi⟩
  rcases exists_target_of_mem hwr' ht' with ⟨i', hi'⟩
  -- It was at the newer epoch already when it acknowledged the older write.
  have hfloor : e ≤ (s.servers a).currentEpoch := by
    rw [← haddr]
    exact (hnew t ht).trans (hfenced w i t hi (hinv.acked w i t hi hret))
  rcases hsince.2 w' i' t' hi' (hinv'.acked w' i' t' hi' hret') with ⟨t₀, ht₀, -, hacked₀⟩ | hle
  · rw [hafter i' t₀ ht₀] at hacked₀
    contradiction
  · rw [haddr'] at hle
    have := hold t' ht'
    omega

/-- Three replicas of a shard. -/
def threeReplicas : ReplicaSet where
  addresses := [([97], 1), ([97], 2), ([97], 3)]
  nodup := by decide

/-- The clients of a coordinator that takes the replica at a port for the primary. -/
def clientsAt (epoch : Nat) (primaryPort : Int) : List ShardClient :=
  [1, 2, 3].map fun port =>
    { shardId := 0, replicaId := port, host := [97], port := port
      isPrimary := decide (port = primaryPort), epoch := epoch }

/-- A coordinator at epoch 5 writes to two of three replicas. -/
def newWrite : List GroupAction :=
  [.issue (clientsAt 5 1) (.insert [107] (List.replicate 128 0) []), .handle 0 0, .handle 0 1,
    .answer 0 0, .answer 0 1, .timeout 0 2]

/-- A coordinator that is behind deletes the key; all replicas handle the request. -/
def staleWrite : List GroupAction :=
  [.issue (clientsAt 3 3) (.delete [107]), .handle 1 0, .handle 1 1, .handle 1 2,
    .answer 1 0, .answer 1 1, .answer 1 2]

/-- The group after the first write. -/
def afterNewWrite : ShardGroup :=
  (guardedRun (step threeReplicas) (fun _ act => notRestart act = true) (start fun _ => {})
    newWrite).get (by decide +kernel)

theorem epoch_fencing_staleWrite :
    ∃ s' wr wr',
      Exec (step threeReplicas) (fun _ act => notRestart act = true) (start fun _ => {}) newWrite
        afterNewWrite ∧
      Exec (step threeReplicas) (fun _ act => notRestart act = true) afterNewWrite staleWrite s' ∧
      afterNewWrite.writes[0]? = some wr ∧ wr.confirmed = true ∧
      s'.writes[1]? = some wr' ∧ wr'.confirmed = false := by
  have hrun : Exec (step threeReplicas) (fun _ act => notRestart act = true) (start fun _ => {})
      newWrite afterNewWrite :=
    Exec.of_guardedRun (step threeReplicas) _ _ _ (by decide +kernel)
  have hrun' := Exec.of_guardedRun (step threeReplicas) (fun _ act => notRestart act = true)
    afterNewWrite staleWrite (by decide +kernel)
  refine ⟨_, _, _, hrun, hrun', rfl, ?_, rfl, ?_⟩
  · decide +kernel
  · apply epoch_fencing threeReplicas (fun _ => {}) 4 0 1 hrun rfl _ _ hrun' rfl
    · decide +kernel
    · intro i t ht
      cases ht
    · decide +kernel
    · decide +kernel

end ShardGroup

end NanoDB.Coordinator
