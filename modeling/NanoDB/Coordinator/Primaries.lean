import NanoDB.Coordinator.AdminRequests

/-!
# One primary per shard

Every shard with an active replica has exactly one active primary, on every
coordinator and after every applied command, as long as the replica lists are sound: an
added shard has one primary and distinct replica ids, and a shard id that is used again
comes with the replica ids it had.  The add handler only checks that there is some
primary.

The promotions need no such condition although each is checked against a topology that
may be behind: a shard keeps its replica ids for as long as it is known, so a replica
that one coordinator found is a replica everywhere.

Main results:

- Theorem {lit}`Settled.applyCommand`: one command keeps one primary per shard.
- Theorem {lit}`one_primary_per_shard`: the invariant over whole runs.
- Theorem {lit}`two_primaries_added`: an add with two primaries is accepted.
-/

namespace NanoDB.Coordinator

open Lib

/-! ## Replica ids of a shard -/

/-- The replica ids of a shard, active or not. -/
def roster (shards : List ShardClient) (shardId : Int) : List Int :=
  (shards.filter fun sc => decide (sc.shardId = shardId)).map (·.replicaId)

/-- The active replicas of a shard. -/
def activeOf (shards : List ShardClient) (shardId : Int) : List ShardClient :=
  (activeClients shards).filter fun sc => decide (sc.shardId = shardId)

/-- Each shard with an active replica has exactly one active primary. -/
def OnePrimary (shards : List ShardClient) : Prop :=
  ∀ shardId, activeOf shards shardId ≠ [] →
    ((activeOf shards shardId).filter (·.isPrimary)).length = 1

/-- The active replicas of each shard are all of its replicas {lit}`R` or none, their
ids are distinct, and exactly one is primary. -/
def Settled (R : Int → List Int) (shards : List ShardClient) : Prop :=
  ∀ shardId, activeOf shards shardId ≠ [] →
    ((activeOf shards shardId).map (·.replicaId)).Nodup ∧
      (∀ r, r ∈ (activeOf shards shardId).map (·.replicaId) ↔ r ∈ R shardId) ∧
      ((activeOf shards shardId).filter (·.isPrimary)).length = 1

theorem Settled.onePrimary {R : Int → List Int} {shards : List ShardClient}
    (h : Settled R shards) : OnePrimary shards :=
  fun shardId hne => (h shardId hne).2.2

/-- A command that fits the replicas {lit}`R`. -/
def Command.Fits (R : Int → List Int) : Command → Prop
  | .addShard shardId replicas =>
      replicas ≠ [] ∧ (replicas.map (·.replicaId)).Nodup ∧
        (replicas.filter (·.primary)).length = 1 ∧
        ∀ r, r ∈ replicas.map (·.replicaId) ↔ r ∈ R shardId
  | .setPrimary shardId replicaId => replicaId ∈ R shardId
  | _ => True

/-- The replicas of a shard that has any stay as they are. -/
def RosterGrows (R R' : Int → List Int) : Prop :=
  ∀ shardId, R shardId ≠ [] → R' shardId = R shardId

theorem Settled.grows {R R' : Int → List Int} {shards : List ShardClient} (h : Settled R shards)
    (hgrows : RosterGrows R R') : Settled R' shards := by
  intro shardId hne
  rcases h shardId hne with ⟨hnodup, hids, hone⟩
  have hR : R shardId ≠ [] := by
    intro hnil
    rcases List.exists_mem_of_ne_nil _ hne with ⟨sc, hsc⟩
    have := (hids sc.replicaId).mp (List.mem_map_of_mem hsc)
    rw [hnil] at this
    cases this
  rw [hgrows shardId hR]
  exact ⟨hnodup, hids, hone⟩

theorem Command.Fits.grows {R R' : Int → List Int} {cmd : Command} (h : cmd.Fits R)
    (hgrows : RosterGrows R R') : cmd.Fits R' := by
  cases cmd with
  | addShard shardId replicas =>
      rcases h with ⟨hne, hnodup, hone, hids⟩
      have hR : R shardId ≠ [] := by
        intro hnil
        rcases List.exists_mem_of_ne_nil _ hne with ⟨r, hr⟩
        have := (hids r.replicaId).mp (List.mem_map_of_mem hr)
        rw [hnil] at this
        cases this
      exact ⟨hne, hnodup, hone, by rw [hgrows shardId hR]; exact hids⟩
  | removeShard shardId => trivial
  | setPrimary shardId replicaId =>
      have hR : R shardId ≠ [] := List.ne_nil_of_mem h
      rw [Fits, hgrows shardId hR]
      exact h
  | malformed => trivial

/-! ## One command -/

section

variable {shards : List ShardClient} {shardId : Int}

theorem activeOf_append (shards shards' : List ShardClient) (shardId : Int) :
    activeOf (shards ++ shards') shardId = activeOf shards shardId ++ activeOf shards' shardId := by
  rw [activeOf, activeClients_append, List.filter_append]
  rfl

/-- An unknown shard has no replica at all. -/
theorem activeOf_eq_nil_of_not_known (h : ¬ known shards shardId = true) :
    activeOf shards shardId = [] := by
  rw [activeOf, List.filter_eq_nil_iff]
  intro sc hsc hid
  apply h
  rw [known_eq_true_iff]
  exact ⟨sc, (List.mem_filter.mp hsc).1, by simpa using hid⟩

/-- The active replicas of the shards after an add that is carried out. -/
theorem activeOf_ofReplica (newId : Int) (epoch : Nat) (replicas : List ReplicaSpec)
    (shardId : Int) :
    activeOf (replicas.map (ofReplica newId epoch)) shardId =
      if shardId = newId then replicas.map (ofReplica newId epoch) else [] := by
  rw [activeOf, activeClients_map_ofReplica]
  split_ifs with hid
  · rw [List.filter_eq_self]
    intro sc hsc
    rcases List.mem_map.mp hsc with ⟨r, -, rfl⟩
    simp [ofReplica, hid]
  · rw [List.filter_eq_nil_iff]
    intro sc hsc
    rcases List.mem_map.mp hsc with ⟨r, -, rfl⟩
    simp [ofReplica, Ne.symm hid]

theorem activeOf_removeShard (shards : List ShardClient) (epoch : Nat) (leavingId shardId : Int) :
    activeOf (applyCommand shards epoch (.removeShard leavingId)) shardId =
      if shardId = leavingId then [] else activeOf shards shardId := by
  rw [activeOf, activeClients_removeShard, List.filter_filter]
  split_ifs with hid
  · rw [List.filter_eq_nil_iff]
    intro sc _
    simp [hid]
  · rw [activeOf]
    apply List.filter_congr
    intro sc _
    by_cases hsc : sc.shardId = shardId
    · simp [hsc, hid]
    · simp [hsc]

/-- A promotion marks the replicas of its shard by their id. -/
theorem activeOf_setPrimary (shards : List ShardClient) (epoch : Nat) (sid replicaId : Int)
    (shardId : Int) :
    activeOf (applyCommand shards epoch (.setPrimary sid replicaId)) shardId =
      if shardId = sid then
        (activeOf shards shardId).map fun sc =>
          { sc with isPrimary := decide (sc.replicaId = replicaId), epoch := epoch }
      else activeOf shards shardId := by
  rw [activeOf, activeClients_setPrimary, activeOf]
  induction activeClients shards with
  | nil => simp [applyCommand]
  | cons sc rest ih =>
      by_cases hsc : sc.shardId = sid <;> by_cases hid : shardId = sid <;>
        by_cases hboth : sc.shardId = shardId <;> simp_all [applyCommand]

end

/-- Among distinct ids exactly one is a given member. -/
theorem length_filter_eq_one {l : List ShardClient} {replicaId : Int} (epoch : Nat)
    (hnodup : (l.map (·.replicaId)).Nodup) (hmem : replicaId ∈ l.map (·.replicaId)) :
    ((l.map fun sc =>
      { sc with isPrimary := decide (sc.replicaId = replicaId), epoch := epoch }).filter
      (·.isPrimary)).length = 1 := by
  have hcount : (l.map (·.replicaId)).count replicaId = 1 := List.count_eq_one_of_mem hnodup hmem
  rw [List.filter_map, List.length_map, ← List.countP_eq_length_filter]
  rw [List.count, List.countP_map] at hcount
  rw [← hcount]
  apply List.countP_congr
  intro sc _
  simp

namespace Settled

variable {R : Int → List Int} {shards : List ShardClient}

/-- **Step lemma.**  A command that fits keeps one primary per shard. -/
theorem applyCommand (h : Settled R shards) {cmd : Command} (hfits : cmd.Fits R) (epoch : Nat) :
    Settled R (applyCommand shards epoch cmd) := by
  cases cmd with
  | addShard newId replicas =>
      by_cases hknown : known shards newId = true
      · rw [Coordinator.applyCommand, if_pos hknown]
        exact h
      · rw [Coordinator.applyCommand, if_neg hknown]
        intro shardId hne
        rw [activeOf_append, activeOf_ofReplica] at hne ⊢
        split_ifs at hne ⊢ with hid
        · subst hid
          rcases hfits with ⟨-, hnodup, hone, hids⟩
          have hmap : (replicas.map (ofReplica shardId epoch)).map (·.replicaId) =
              replicas.map (·.replicaId) := by
            rw [List.map_map]
            rfl
          rw [activeOf_eq_nil_of_not_known hknown, List.nil_append, hmap]
          refine ⟨hnodup, hids, ?_⟩
          rw [List.filter_map, List.length_map]
          exact hone
        · rw [List.append_nil] at hne ⊢
          exact h shardId hne
  | removeShard leavingId =>
      intro shardId hne
      rw [activeOf_removeShard] at hne ⊢
      split_ifs at hne ⊢ with hid
      · exact absurd rfl hne
      · exact h shardId hne
  | setPrimary sid replicaId =>
      intro shardId hne
      rw [activeOf_setPrimary] at hne ⊢
      split_ifs at hne ⊢ with hid
      · subst hid
        have hne' : activeOf shards shardId ≠ [] := fun hnil => hne (by rw [hnil]; rfl)
        rcases h shardId hne' with ⟨hnodup, hids, -⟩
        have hmap : ((activeOf shards shardId).map fun sc =>
            { sc with isPrimary := decide (sc.replicaId = replicaId), epoch := epoch }).map
              (·.replicaId) = (activeOf shards shardId).map (·.replicaId) := by
          rw [List.map_map]
          rfl
        rw [hmap]
        exact ⟨hnodup, hids, length_filter_eq_one epoch hnodup ((hids replicaId).mpr hfits)⟩
      · exact h shardId hne
  | malformed => exact h

/-- A whole batch of commands. -/
theorem applyFrom {cmds : List Command} (h : Settled R shards) (hfits : ∀ cmd ∈ cmds, cmd.Fits R)
    (base : Nat) : Settled R (applyFrom base shards cmds) := by
  induction cmds generalizing base shards with
  | nil => exact h
  | cons cmd cmds ih =>
      exact ih (h.applyCommand (hfits cmd List.mem_cons_self) (base + 1))
        (fun c hc => hfits c (List.mem_cons_of_mem _ hc)) (base + 1)

/-- Only the active replicas matter. -/
theorem of_active {shards' : List ShardClient} (h : Settled R shards)
    (hactive : activeClients shards' = activeClients shards) : Settled R shards' := by
  intro shardId hne
  rw [activeOf, hactive] at hne ⊢
  exact h shardId hne

/-- Loading a snapshot of settled replicas. -/
theorem loadSnapshot {snap : Snapshot} (h : Settled R (snap.map ofSnapshot))
    (shards : List ShardClient) : Settled R (loadSnapshot shards snap) := by
  apply h.of_active
  rw [activeClients_loadSnapshot, activeClients, eq_comm, List.filter_eq_self]
  intro sc hsc
  rcases List.mem_map.mp hsc with ⟨r, -, rfl⟩
  rfl

/-- The snapshot of settled replicas. -/
theorem serializeSnapshot (h : Settled R shards) :
    Settled R ((serializeSnapshot shards).map ofSnapshot) := by
  apply h.of_active
  rw [map_ofSnapshot_serializeSnapshot, activeClients, activeClients, List.filter_filter]
  simp

end Settled

/-! ## The replica ids that the log gives to a shard -/

/-- The replica ids of each shard in the replayed log. -/
def rosterOf (endpoints : List ShardEndpoint) (log : List Command) (shardId : Int) : List Int :=
  roster (replay endpoints log) shardId

theorem replay_append_singleton (endpoints : List ShardEndpoint) (log : List Command)
    (cmd : Command) :
    replay endpoints (log ++ [cmd]) =
      applyCommand (replay endpoints log) (log.length + 1) cmd := by
  rw [replay, applyFrom_append, Nat.zero_add]
  rfl

/-- The ids of the clients are all that a roster depends on. -/
theorem roster_map {f : ShardClient → ShardClient} (hshard : ∀ sc, (f sc).shardId = sc.shardId)
    (hreplica : ∀ sc, (f sc).replicaId = sc.replicaId) (shards : List ShardClient)
    (shardId : Int) : roster (shards.map f) shardId = roster shards shardId := by
  rw [roster, List.filter_map, List.map_map, roster]
  congr 1
  · funext sc
    exact hreplica sc
  · apply List.filter_congr
    intro sc _
    rw [Function.comp_apply, hshard]

theorem roster_append (shards shards' : List ShardClient) (shardId : Int) :
    roster (shards ++ shards') shardId = roster shards shardId ++ roster shards' shardId := by
  rw [roster, List.filter_append, List.map_append, roster, roster]

theorem roster_eq_nil_of_not_known {shards : List ShardClient} {shardId : Int}
    (h : ¬ known shards shardId = true) : roster shards shardId = [] := by
  rw [roster, List.map_eq_nil_iff, List.filter_eq_nil_iff]
  intro sc hsc heq
  exact h (known_eq_true_iff.mpr ⟨sc, hsc, by simpa using heq⟩)

theorem roster_map_ofReplica (newId : Int) (epoch : Nat) (replicas : List ReplicaSpec)
    (shardId : Int) :
    roster (replicas.map (ofReplica newId epoch)) shardId =
      if shardId = newId then replicas.map (·.replicaId) else [] := by
  rw [roster, List.filter_map, List.map_map]
  split_ifs with hid
  · rw [List.filter_eq_self.mpr]
    · rfl
    · intro r _
      simp [ofReplica, hid]
  · rw [List.filter_eq_nil_iff.mpr, List.map_nil]
    intro r _
    simp [ofReplica, Ne.symm hid]

/-- Removals and promotions keep the replica ids, an add sets those of an unknown
shard. -/
theorem roster_applyCommand (shards : List ShardClient) (epoch : Nat) (cmd : Command)
    (shardId : Int) :
    roster (applyCommand shards epoch cmd) shardId =
      match cmd with
      | .addShard newId replicas =>
          if shardId = newId ∧ known shards newId = false then replicas.map (·.replicaId)
          else roster shards shardId
      | _ => roster shards shardId := by
  cases cmd with
  | addShard newId replicas =>
      by_cases hknown : known shards newId = true
      · simp [applyCommand, hknown]
      · rw [applyCommand, if_neg hknown, roster_append, roster_map_ofReplica]
        by_cases hid : shardId = newId
        · subst hid
          rw [roster_eq_nil_of_not_known hknown]
          simp [hknown]
        · simp [hid]
  | removeShard leavingId =>
      apply roster_map <;> intro sc <;> split_ifs <;> rfl
  | setPrimary sid replicaId =>
      apply roster_map <;> intro sc <;> split_ifs <;> rfl
  | malformed => rfl

/-- A shard with replicas is known. -/
theorem known_of_roster {shards : List ShardClient} {shardId : Int}
    (h : roster shards shardId ≠ []) : known shards shardId = true := by
  rcases List.exists_mem_of_ne_nil _ h with ⟨r, hr⟩
  rcases List.mem_map.mp hr with ⟨sc, hsc, -⟩
  rw [List.mem_filter] at hsc
  exact known_eq_true_iff.mpr ⟨sc, hsc.1, by simpa using hsc.2⟩

theorem roster_of_known {shards : List ShardClient} {shardId : Int}
    (h : known shards shardId = true) : roster shards shardId ≠ [] := by
  rcases known_eq_true_iff.mp h with ⟨sc, hsc, hid⟩
  apply List.ne_nil_of_mem
  exact List.mem_map_of_mem (List.mem_filter.mpr ⟨hsc, by simpa using hid⟩)

/-- The log never changes the replica ids of a shard that has some. -/
theorem rosterGrows_append (endpoints : List ShardEndpoint) (log : List Command) (cmd : Command) :
    RosterGrows (rosterOf endpoints log) (rosterOf endpoints (log ++ [cmd])) := by
  intro shardId hne
  rw [rosterOf, replay_append_singleton, roster_applyCommand]
  cases cmd with
  | addShard newId replicas =>
      dsimp only
      rw [if_neg]
      · rfl
      · rintro ⟨rfl, hunknown⟩
        rw [known_of_roster hne] at hunknown
        cases hunknown
  | removeShard leavingId => rfl
  | setPrimary sid replicaId => rfl
  | malformed => rfl

/-! ## The apply loop, command by command -/

/-- The clients after {lit}`apply_pending_raft_commands` has loaded a newer snapshot and
applied {lit}`j` further commands. -/
def CoordinatorState.stage (co : CoordinatorState) (st : TopologyLog) (j : Nat) :
    List ShardClient :=
  (applyCommands (st.snapshotLastIndex + (co.catchUp st).localAppliedCount) (co.catchUp st)
    ((st.appliedCommands.drop (co.catchUp st).localAppliedCount).take j)).shards

/-- The loop ends in its last stage, and a compaction serializes it. -/
theorem CoordinatorState.applyPending_stage (co : CoordinatorState) (st : TopologyLog) :
    (co.applyPending st).1.shards = co.stage st st.appliedCommands.length ∧
      ∀ upToIndex snap, (co.applyPending st).2 = some (upToIndex, snap) →
        snap = serializeSnapshot (co.stage st st.appliedCommands.length) := by
  have hall : (st.appliedCommands.drop (co.catchUp st).localAppliedCount).take
      st.appliedCommands.length = st.appliedCommands.drop (co.catchUp st).localAppliedCount := by
    apply List.take_of_length_le
    rw [List.length_drop]
    omega
  simp only [applyPending, stage, hall]
  split_ifs with hdone hcompact
  · refine ⟨?_, fun _ _ h => by cases h⟩
    rw [List.drop_of_length_le hdone]
    rfl
  · refine ⟨rfl, fun _ _ h => ?_⟩
    cases h
    rfl
  · exact ⟨rfl, fun _ _ h => by cases h⟩

theorem Settled.stage {R : Int → List Int} {co : CoordinatorState} {st : TopologyLog}
    (h : Settled R co.shards) (hcmds : ∀ cmd ∈ st.appliedCommands, cmd.Fits R)
    (hdata : ∀ snap, st.snapshotData = some snap → Settled R (snap.map ofSnapshot)) (j : Nat) :
    Settled R (co.stage st j) := by
  have hcatchUp : Settled R (co.catchUp st).shards := by
    unfold CoordinatorState.catchUp
    split_ifs
    · cases hsnap : st.snapshotData with
      | none => exact h
      | some snap => exact Settled.loadSnapshot (hdata snap hsnap) co.shards
    · exact h
  rw [CoordinatorState.stage, CoordinatorState.applyCommands_shards]
  apply hcatchUp.applyFrom
  intro cmd hcmd
  exact hcmds cmd (List.mem_of_mem_drop (List.mem_of_mem_take hcmd))

/-! ## Whole runs -/

/-- What is known of a command before it is committed. -/
def Command.Sound (R : Int → List Int) : Command → Prop
  | .addShard _ replicas =>
      replicas ≠ [] ∧ (replicas.map (·.replicaId)).Nodup ∧
        (replicas.filter (·.primary)).length = 1
  | .setPrimary shardId replicaId => replicaId ∈ R shardId
  | _ => True

/-- The condition on a step: an add that the handler accepts has exactly one primary and
distinct replica ids, and when it is committed for a shard id that was used before, it
lists the replica ids the shard had. -/
def SoundReplicas {ι : Type*} (endpoints : List ShardEndpoint) (s : AdminPlane ι) :
    AdminAction ι → Prop
  | .request n (.add newId replicas) =>
      (RebalanceRequest.add newId replicas).Accepted (s.coord n) →
        (replicas.filter (·.primary)).length = 1 ∧ (replicas.map (·.replicaId)).Nodup
  | .commit k =>
      ∀ p newId replicas, s.proposals[k]? = some p → p.command = .addShard newId replicas →
        known (replay endpoints s.plane.log) newId = true →
        ∀ r, r ∈ replicas.map (·.replicaId) ↔ r ∈ rosterOf endpoints s.plane.log newId
  | _ => True

/-- A snapshot of the leader adds no command, and the data is the old one or its own. -/
theorem AppliedLog.installSnapshot_cases {γ δ : Type*} (st : AppliedLog γ δ)
    (lastIncludedIndex : Nat) (data : Option δ) :
    (∀ c ∈ (st.installSnapshot lastIncludedIndex data).appliedCommands, c ∈ st.appliedCommands) ∧
      ((st.installSnapshot lastIncludedIndex data).snapshotData = st.snapshotData ∨
        (st.installSnapshot lastIncludedIndex data).snapshotData = data) := by
  rw [AppliedLog.installSnapshot]
  split_ifs
  · exact ⟨fun c hc => hc, .inl rfl⟩
  · exact ⟨fun c hc => List.mem_of_mem_drop hc, .inr rfl⟩

/-- A compaction adds no command, and the data is the old one or the new one. -/
theorem AppliedLog.compact_cases {γ δ : Type*} (st : AppliedLog γ δ) (upToIndex : Nat)
    (data : Option δ) :
    (∀ c ∈ (st.compact upToIndex data).1.appliedCommands, c ∈ st.appliedCommands) ∧
      ((st.compact upToIndex data).1.snapshotData = st.snapshotData ∨
        (st.compact upToIndex data).1.snapshotData = data) := by
  rw [AppliedLog.compact]
  split_ifs
  · exact ⟨fun c hc => hc, .inl rfl⟩
  · exact ⟨fun c hc => hc, .inl rfl⟩
  · exact ⟨fun c hc => hc, .inl rfl⟩
  · exact ⟨fun c hc => List.mem_of_mem_drop hc, .inr rfl⟩

/-- The invariant of a process. -/
structure PrimaryProcess (R : Int → List Int) (log : List Command) (p : Process) : Prop where
  shards : Settled R p.coord.shards
  commands : ∀ cmd ∈ p.node.appliedCommands, cmd ∈ log
  data : ∀ snap, p.node.snapshotData = some snap → Settled R (snap.map ofSnapshot)
  pending : ∀ index snap, p.pending = some (index, snap) → Settled R (snap.map ofSnapshot)

/-- The node may drop commands and take the data of a settled snapshot. -/
theorem PrimaryProcess.setNode {R : Int → List Int} {log : List Command} {p p' : Process}
    {snap : Snapshot} (hp : PrimaryProcess R log p)
    (hcommands : ∀ c ∈ p'.node.appliedCommands, c ∈ p.node.appliedCommands)
    (hdata : p'.node.snapshotData = p.node.snapshotData ∨ p'.node.snapshotData = some snap)
    (hsnap : Settled R (snap.map ofSnapshot)) (hshards : Settled R p'.coord.shards)
    (hpending : ∀ index sn, p'.pending = some (index, sn) → Settled R (sn.map ofSnapshot)) :
    PrimaryProcess R log p' where
  shards := hshards
  commands c hc := hp.commands c (hcommands c hc)
  data sn hsn := by
    rcases hdata with hold | hnew
    · exact hp.data sn (hold ▸ hsn)
    · rw [hnew] at hsn
      cases hsn
      exact hsnap
  pending := hpending

/-- The invariant of the control plane: every coordinator, snapshot and command agrees
with the replica ids of the log. -/
structure PrimaryInv {ι : Type*} (endpoints : List ShardEndpoint) (s : AdminPlane ι) : Prop where
  log : ∀ cmd ∈ s.plane.log, cmd.Fits (rosterOf endpoints s.plane.log)
  proc : ∀ n, PrimaryProcess (rosterOf endpoints s.plane.log) s.plane.log (s.plane.proc n)
  produced : ∀ index snap, (index, snap) ∈ s.plane.produced →
    Settled (rosterOf endpoints s.plane.log) (snap.map ofSnapshot)
  inFlight : ∀ p, s.InFlight p → p.command.Sound (rosterOf endpoints s.plane.log)

theorem Command.Sound.grows {R R' : Int → List Int} {cmd : Command} (h : cmd.Sound R)
    (hgrows : RosterGrows R R') : cmd.Sound R' := by
  cases cmd with
  | addShard newId replicas => exact h
  | setPrimary shardId replicaId =>
      have hR : R shardId ≠ [] := List.ne_nil_of_mem h
      rw [Sound, hgrows shardId hR]
      exact h
  | removeShard leavingId => trivial
  | malformed => trivial

theorem PrimaryProcess.grows {R R' : Int → List Int} {log : List Command} {p : Process}
    (h : PrimaryProcess R log p) (hgrows : RosterGrows R R') (cmd : Command) :
    PrimaryProcess R' (log ++ [cmd]) p where
  shards := h.shards.grows hgrows
  commands c hc := List.mem_append_left _ (h.commands c hc)
  data snap hsnap := (h.data snap hsnap).grows hgrows
  pending index snap hp := (h.pending index snap hp).grows hgrows

/-- A sound command fits the log it has been committed to. -/
theorem Command.Sound.fits {endpoints : List ShardEndpoint} {log : List Command} {cmd : Command}
    (h : cmd.Sound (rosterOf endpoints log))
    (hsame : ∀ newId replicas, cmd = .addShard newId replicas →
      known (replay endpoints log) newId = true →
      ∀ r, r ∈ replicas.map (·.replicaId) ↔ r ∈ rosterOf endpoints log newId) :
    cmd.Fits (rosterOf endpoints (log ++ [cmd])) := by
  cases cmd with
  | addShard newId replicas =>
      rcases h with ⟨hne, hnodup, hone⟩
      refine ⟨hne, hnodup, hone, fun r => ?_⟩
      by_cases hknown : known (replay endpoints log) newId = true
      · rw [rosterGrows_append endpoints log _ newId (roster_of_known hknown)]
        exact hsame newId replicas rfl hknown r
      · rw [rosterOf, replay_append_singleton, roster_applyCommand]
        dsimp only
        rw [if_pos ⟨rfl, by simpa using hknown⟩]
  | setPrimary shardId replicaId => exact Command.Sound.grows h (rosterGrows_append _ _ _)
  | removeShard leavingId => trivial
  | malformed => trivial

namespace PrimaryInv

variable {ι : Type*} [DecidableEq ι] {endpoints : List ShardEndpoint} {s s' : AdminPlane ι}

omit [DecidableEq ι] in
/-- A config file with one primary per shard and distinct replica ids in each. -/
theorem init (hone : OnePrimary (endpoints.map ofEndpoint))
    (hids : ∀ shardId, (roster (endpoints.map ofEndpoint) shardId).Nodup) :
    PrimaryInv endpoints (AdminPlane.init endpoints : AdminPlane ι) where
  log _ h := absurd h List.not_mem_nil
  proc _ :=
    { shards := by
        intro shardId hne
        have hall : activeClients (endpoints.map ofEndpoint) = endpoints.map ofEndpoint := by
          rw [activeClients, List.filter_eq_self]
          intro sc hsc
          rcases List.mem_map.mp hsc with ⟨ep, -, rfl⟩
          rfl
        have hroster : (activeOf (endpoints.map ofEndpoint) shardId).map (·.replicaId) =
            roster (endpoints.map ofEndpoint) shardId := by
          rw [activeOf, hall, roster]
        change activeOf (endpoints.map ofEndpoint) shardId ≠ [] at hne
        refine ⟨?_, fun r => ?_, hone shardId hne⟩
        · exact hroster ▸ hids shardId
        · exact hroster ▸ Iff.rfl
      commands := fun _ h => absurd h List.not_mem_nil
      data := fun _ h => by cases h
      pending := fun _ _ h => by cases h }
  produced _ _ h := absurd h List.not_mem_nil
  inFlight p h := by
    rcases h with ⟨n, hn⟩ | h
    · cases hn
    · cases h

omit [DecidableEq ι] in
/-- The replica of a checked promotion is a replica of its shard in the log. -/
theorem sound_of_checkedOn (hinv : PrimaryInv endpoints s) {n : ι} {a : AdminAction ι}
    (hok : SoundReplicas endpoints s a) {cmd : Command} (hchecked : cmd.CheckedOn (s.coord n))
    (hasked : cmd.AskedFor a n) : cmd.Sound (rosterOf endpoints s.plane.log) := by
  cases cmd with
  | addShard newId replicas =>
      cases hasked
      rcases hok hchecked with ⟨hone, hnodup⟩
      exact ⟨hchecked.1, hnodup, hone⟩
  | removeShard leavingId => trivial
  | setPrimary shardId replicaId =>
      rcases hchecked with ⟨sc, hsc, hid, hreplica⟩
      have hmem : sc ∈ activeOf (s.coord n).shards shardId :=
        List.mem_filter.mpr ⟨hsc, by simpa using hid⟩
      rcases (hinv.proc n).shards shardId (List.ne_nil_of_mem hmem) with ⟨-, hids, -⟩
      rw [← hreplica]
      exact (hids sc.replicaId).mp (List.mem_map_of_mem hmem)
  | malformed => trivial

/-- An action of the control plane other than a commit. -/
theorem planeStep (hinv : PrimaryInv endpoints s) {a : PlaneAction ι} {plane : ControlPlane ι}
    (hnot : ∀ cmd, a ≠ .commit cmd) (hstep : s.plane.step a = some plane) :
    PrimaryInv endpoints { s with plane := plane } := by
  have hset : ∀ n p, PrimaryProcess (rosterOf endpoints s.plane.log) s.plane.log p →
      PrimaryInv endpoints { s with plane := s.plane.setProc n p } := by
    intro n p hp
    refine ⟨hinv.log, fun m => ?_, hinv.produced, hinv.inFlight⟩
    by_cases hm : m = n
    · subst hm
      simpa [ControlPlane.setProc] using hp
    · simpa [ControlPlane.setProc, hm] using hinv.proc m
  have hcases := ControlPlane.step_cases hstep
  cases a with
  | commit cmd => exact absurd rfl (hnot cmd)
  | deliver n =>
      rcases hcases with ⟨cmd, hcmd, rfl⟩
      have hp := hinv.proc n
      refine hset n _ ⟨hp.shards, fun c hc => ?_, hp.data, hp.pending⟩
      rcases List.mem_append.mp hc with hc | hc
      · exact hp.commands c hc
      · rw [List.mem_singleton] at hc
        subst hc
        exact List.mem_of_getElem? hcmd
  | install n k =>
      rcases hcases with ⟨index, snap, hk, rfl⟩
      have hp := hinv.proc n
      rcases (s.plane.proc n).node.installSnapshot_cases index (some snap) with ⟨hcommands, hdata⟩
      exact hset n _ (hp.setNode hcommands hdata
        (hinv.produced index snap (List.mem_of_getElem? hk)) hp.shards hp.pending)
  | apply n =>
      dsimp only at hcases
      subst hcases
      have hp := hinv.proc n
      have hstage := hp.shards.stage (fun cmd hcmd => hinv.log cmd (hp.commands cmd hcmd)) hp.data
        (s.plane.proc n).node.appliedCommands.length
      rcases CoordinatorState.applyPending_stage (s.plane.proc n).coord (s.plane.proc n).node with
        ⟨hshards, hpending⟩
      refine hset n _ ⟨hshards ▸ hstage, hp.commands, hp.data, fun index snap h => ?_⟩
      rw [hpending index snap h]
      exact hstage.serializeSnapshot
  | compact n =>
      rcases hcases with ⟨upToIndex, snap, hpending, ⟨-, rfl⟩ | rfl⟩
      · have hp := hinv.proc n
        have hsnap := hp.pending upToIndex snap hpending
        rcases (s.plane.proc n).node.compact_cases upToIndex (some snap) with ⟨hcommands, hdata⟩
        have hnew := hset n
          { coord := { (s.plane.proc n).coord with localAppliedCount := 0 }
            node := ((s.plane.proc n).node.compact upToIndex (some snap)).1 }
          (hp.setNode hcommands hdata hsnap hp.shards fun _ _ h => by cases h)
        refine ⟨hnew.log, hnew.proc, fun index sn h => ?_, hnew.inFlight⟩
        rcases List.mem_cons.mp h with heq | h
        · cases heq
          exact hsnap
        · exact hinv.produced index sn h
      · have hp := hinv.proc n
        exact hset n _ ⟨hp.shards, hp.commands, hp.data, fun _ _ h => by cases h⟩

/-- **Step lemma.** -/
theorem step (hinv : PrimaryInv endpoints s) {a : AdminAction ι}
    (hok : SoundReplicas endpoints s a) (hstep : s.step a = some s') :
    PrimaryInv endpoints s' := by
  rcases AdminPlane.step_cases hstep with ⟨hplane, hnew⟩ | ⟨k, p, rfl, hp, rfl⟩ |
    ⟨pa, plane, hnot, hplane, rfl⟩
  · refine ⟨hplane ▸ hinv.log, hplane ▸ hinv.proc, hplane ▸ hinv.produced, fun p hp => ?_⟩
    rw [hplane]
    rcases hnew p hp with hold | ⟨n, cmd, rfl, hchecked, hasked⟩
    · exact hinv.inFlight p hold
    · exact hinv.sound_of_checkedOn hok hchecked hasked
  · have hgrows := rosterGrows_append endpoints s.plane.log p.command
    have hsound := hinv.inFlight p (.inr (List.mem_of_getElem? hp))
    have hfits := hsound.fits fun newId replicas hcmd => hok p newId replicas hp hcmd
    refine ⟨fun cmd hcmd => ?_, fun n => (hinv.proc n).grows hgrows p.command,
      fun index snap h => (hinv.produced index snap h).grows hgrows,
      fun q hq => (hinv.inFlight q hq).grows hgrows⟩
    rcases List.mem_append.mp hcmd with hold | hlast
    · exact (hinv.log cmd hold).grows hgrows
    · rw [List.mem_singleton] at hlast
      subst hlast
      exact hfits
  · exact hinv.planeStep hnot hplane

end PrimaryInv

/-- **One primary per shard.**  From a config file with one primary per shard and
distinct replica ids, in every run whose adds have sound replica lists, every
coordinator has exactly one active primary for each shard with an active replica: in
every state reached, and after each single command that it is about to apply there. -/
theorem one_primary_per_shard {ι : Type*} [DecidableEq ι] (endpoints : List ShardEndpoint)
    (hone : OnePrimary (endpoints.map ofEndpoint))
    (hids : ∀ shardId, (roster (endpoints.map ofEndpoint) shardId).Nodup)
    (as : List (AdminAction ι)) (s : AdminPlane ι)
    (hrun : Exec AdminPlane.step (SoundReplicas endpoints) (AdminPlane.init endpoints) as s)
    (n : ι) :
    OnePrimary (s.coord n).shards ∧
      ∀ j, OnePrimary ((s.coord n).stage (s.plane.proc n).node j) := by
  have hinv : PrimaryInv endpoints s :=
    hrun.invariant (PrimaryInv endpoints) (fun _ _ _ hinv hok hstep => hinv.step hok hstep)
      (PrimaryInv.init hone hids)
  have hp := hinv.proc n
  refine ⟨hp.shards.onePrimary, fun j => ?_⟩
  have hstage := hp.shards.stage (fun cmd hcmd => hinv.log cmd (hp.commands cmd hcmd)) hp.data j
  exact hstage.onePrimary

/-- One shard with two replicas. -/
def twoReplicas : List ShardEndpoint :=
  [⟨0, 0, [97], 9090, true⟩, ⟨0, 1, [97], 9091, false⟩]

/-- A shard is added with two replicas; the flags say which of them are primary. -/
def addTwo (first second : Bool) : RebalanceRequest :=
  .add 1 [⟨0, [98], 9090, first⟩, ⟨1, [98], 9091, second⟩]

private theorem onePrimary_twoReplicas : OnePrimary (twoReplicas.map ofEndpoint) := by
  intro shardId hne
  by_cases hid : shardId = 0
  · subst hid
    decide
  · exact absurd (by simp [activeOf, activeClients, twoReplicas, ofEndpoint, Ne.symm hid]) hne

/-- Coordinator 1 adds a shard while coordinator 0, which has not applied the add,
promotes the other replica of shard 0; both then apply everything. -/
theorem one_primary_per_shard_addAndPromote :
    ∃ s, Exec AdminPlane.step (SoundReplicas twoReplicas)
        (AdminPlane.init twoReplicas : AdminPlane (Fin 2))
        [.request 1 (addTwo true false), .propose 1, .commit 0, .setPrimary 0 0 1, .commit 0,
          .deliver 1, .deliver 1, .apply 1] s ∧
      s.plane.log.length = 2 ∧ (activeOf (s.coord 1).shards 1).length = 2 ∧
      OnePrimary (s.coord 1).shards := by
  have hrun : ∃ s, Exec AdminPlane.step (SoundReplicas twoReplicas)
        (AdminPlane.init twoReplicas : AdminPlane (Fin 2))
        [.request 1 (addTwo true false), .propose 1, .commit 0, .setPrimary 0 0 1, .commit 0,
          .deliver 1, .deliver 1, .apply 1] s ∧
      s.plane.log.length = 2 ∧ (activeOf (s.coord 1).shards 1).length = 2 := by
    refine ⟨_, .cons ?_ rfl (.cons trivial rfl (.cons ?_ rfl (.cons trivial rfl (.cons ?_ rfl
      (.cons trivial rfl (.cons trivial rfl (.cons trivial rfl (.nil _)))))))), rfl, ?_⟩
    · exact fun _ => ⟨rfl, by decide⟩
    · intro p newId replicas hp hcmd hknown
      cases hp
      cases hcmd
      exact absurd hknown (by decide)
    · intro p newId replicas hp hcmd
      cases hp
      cases hcmd
    · decide +kernel
  rcases hrun with ⟨s, hexec, hlog, htwo⟩
  refine ⟨s, hexec, hlog, htwo, ?_⟩
  have hids : ∀ shardId, (roster (twoReplicas.map ofEndpoint) shardId).Nodup := by
    intro shardId
    by_cases hid : shardId = 0
    · subst hid
      decide
    · simp [roster, twoReplicas, ofEndpoint, Ne.symm hid]
  exact (one_primary_per_shard twoReplicas onePrimary_twoReplicas hids _ s hexec 1).1

/-- An add that marks both of its replicas as primary is accepted, committed and applied:
the new shard has two active primaries. -/
theorem two_primaries_added :
    OnePrimary (twoReplicas.map ofEndpoint) ∧
      ∃ s, Exec AdminPlane.step (fun _ _ => True)
          (AdminPlane.init twoReplicas : AdminPlane (Fin 2))
          [.request 0 (addTwo true true), .propose 0, .commit 0, .deliver 0, .apply 0] s ∧
        ((activeOf (s.coord 0).shards 1).filter (·.isPrimary)).length = 2 ∧
        ¬ OnePrimary (s.coord 0).shards := by
  refine ⟨onePrimary_twoReplicas, _, .cons trivial rfl (.cons trivial rfl (.cons trivial rfl
    (.cons trivial rfl (.cons trivial rfl (.nil _))))), ?_, ?_⟩
  · decide +kernel
  · intro hone
    exact absurd (hone 1 (by decide +kernel)) (by decide +kernel)

end NanoDB.Coordinator
