import NanoDB.Coordinator.QuorumWrite

/-!
# Failover of a shard

The health check that promotes a replica when the primary misses three pings in a row,
and the runs of one shard with a fixed set of replicas under any number of
coordinators: writes from stale views, replicas that crash and restart, promotions that
are committed and applied at different times.  Which coordinator leads is left open: any
of them may run its health check, and a proposal may be committed late or never.

Promotion compares element counts only.  Two replicas that missed different writes can
tie, and then the promoted one lacks a confirmed key.

Main results:

- Theorem {lit}`chooseCandidate_le`: no candidate that answered has a higher count than
  the chosen one.
- Theorem {lit}`chosen_holds`: where the candidates' keys are ordered by inclusion and
  counted right, the chosen one holds every key that any of them holds.
- Theorem {lit}`write_enabled`: every coordinator can write to the whole replica set at
  any time.
- Theorem {lit}`confirmed_insert_kept`: where a confirmed key is in every later state.
-/

namespace NanoDB.Coordinator

open Raft (Bytes)
open Cluster (Key)
open Lib (Exec guardedRun IsQuorum)
open Shard (ShardServer Floats)

/-! ## The health check -/

def failuresBeforeFailover : Nat := 3

/-- Ask one replica for its element count; the primary is not asked. -/
def considerCandidate (stats : ShardClient → Option Nat) (primary : ShardClient)
    (candidate : Option (ShardClient × Nat)) (r : ShardClient) : Option (ShardClient × Nat) :=
  if r = primary then candidate
  else match stats r with
    | none => candidate
    | some count =>
        match candidate with
        | none => some (r, count)
        | some (_, candidateCount) =>
            if count > candidateCount then some (r, count) else candidate

/-- The replica with the highest element count among those that answer, the first one on
a tie. -/
def chooseCandidate (stats : ShardClient → Option Nat) (primary : ShardClient)
    (replicas : List ShardClient) : Option (ShardClient × Nat) :=
  replicas.foldl (considerCandidate stats primary) none

/-- One round of the health check for one shard: the consecutive misses after it and the
command to propose. -/
def healthCheck (pool : List ShardClient) (shardId : Int) (pingOk : Bool)
    (stats : ShardClient → Option Nat) (failures : Nat) : Nat × Option Command :=
  match findPrimary pool shardId with
  | none => (failures, none)
  | some primary =>
      if pingOk then (0, none)
      else if failures + 1 < failuresBeforeFailover then (failures + 1, none)
      else match chooseCandidate stats primary (replicasForShard pool shardId) with
        | none => (failures + 1, none)
        | some (candidate, _) => (0, some (.setPrimary shardId candidate.replicaId))

section Candidates

variable {stats : ShardClient → Option Nat} {primary : ShardClient} {replicas : List ShardClient}

/-- What the loop over the candidates knows after the replicas {lit}`seen`: nobody
answered, or the best of those that did. -/
def IsBest (stats : ShardClient → Option Nat) (primary : ShardClient) (seen : List ShardClient) :
    Option (ShardClient × Nat) → Prop
  | none => ∀ x ∈ seen, x ≠ primary → stats x = none
  | some (r, count) => r ∈ seen ∧ r ≠ primary ∧ stats r = some count ∧
      ∀ x ∈ seen, x ≠ primary → ∀ n, stats x = some n → n ≤ count

theorem IsBest.consider {seen : List ShardClient} {candidate : Option (ShardClient × Nat)}
    (h : IsBest stats primary seen candidate) (r : ShardClient) :
    IsBest stats primary (seen ++ [r]) (considerCandidate stats primary candidate r) := by
  rw [considerCandidate]
  split
  · next hr =>
      -- The primary is skipped.
      cases candidate with
      | none =>
          intro x hx hne
          rcases List.mem_append.mp hx with hold | hnew
          · exact h x hold hne
          · exact absurd ((List.mem_singleton.mp hnew).trans hr) hne
      | some best =>
          rcases h with ⟨hmem, hprimary, hstats, hbest⟩
          refine ⟨List.mem_append_left _ hmem, hprimary, hstats, ?_⟩
          intro x hx hne
          rcases List.mem_append.mp hx with hold | hnew
          · exact hbest x hold hne
          · exact absurd ((List.mem_singleton.mp hnew).trans hr) hne
  · next hr =>
      cases hstats : stats r with
      | none =>
          dsimp only
          cases candidate with
          | none =>
              intro x hx hne
              rcases List.mem_append.mp hx with hold | hnew
              · exact h x hold hne
              · rw [List.mem_singleton.mp hnew, hstats]
          | some best =>
              rcases h with ⟨hmem, hprimary, hbestStats, hbest⟩
              refine ⟨List.mem_append_left _ hmem, hprimary, hbestStats, ?_⟩
              intro x hx hne n hn
              rcases List.mem_append.mp hx with hold | hnew
              · exact hbest x hold hne n hn
              · rw [List.mem_singleton.mp hnew, hstats] at hn
                contradiction
      | some count =>
          -- The new replica, if nobody seen so far has more.
          have hself : ∀ m, (∀ x ∈ seen, x ≠ primary → ∀ n, stats x = some n → n ≤ m) →
              count ≤ m → ∀ x ∈ seen ++ [r], x ≠ primary → ∀ n, stats x = some n → n ≤ m := by
            intro m hseen hcount x hx hne n hn
            rcases List.mem_append.mp hx with hold | hnew
            · exact hseen x hold hne n hn
            · rw [List.mem_singleton.mp hnew, hstats, Option.some_inj] at hn
              omega
          cases candidate with
          | none =>
              refine ⟨by simp, hr, hstats, hself count ?_ (Nat.le_refl _)⟩
              intro x hx hne n hn
              rw [h x hx hne] at hn
              contradiction
          | some best =>
              rcases h with ⟨hmem, hprimary, hbestStats, hbest⟩
              dsimp only
              split
              · next hgt =>
                  refine ⟨by simp, hr, hstats, hself count ?_ (Nat.le_refl _)⟩
                  intro x hx hne n hn
                  exact (hbest x hx hne n hn).trans (Nat.le_of_lt hgt)
              · next hle =>
                  exact ⟨List.mem_append_left _ hmem, hprimary, hbestStats,
                    hself best.2 hbest (by omega)⟩

theorem isBest_chooseCandidate (stats : ShardClient → Option Nat) (primary : ShardClient)
    (replicas : List ShardClient) :
    IsBest stats primary replicas (chooseCandidate stats primary replicas) := by
  induction replicas using List.reverseRecOn with
  | nil => intro x hx; simp at hx
  | append_singleton seen r ih =>
      rw [chooseCandidate, List.foldl_append]
      exact ih.consider r

end Candidates

/-! ## Runs of one shard -/

/-- The cluster config, read for one shard: its replicas are processes of their own. -/
structure ShardConfig where
  endpoints : List ShardEndpoint
  shardId : Int
  nodup : ((endpoints.filter fun ep => decide (ep.shardId = shardId)).map fun ep =>
    (ep.host, ep.port)).Nodup

namespace ShardConfig

def replicas (cfg : ShardConfig) : ReplicaSet :=
  ⟨_, cfg.nodup⟩

/-- The clients of a coordinator that has applied these commands. -/
def clients (cfg : ShardConfig) (cmds : List Command) : List ShardClient :=
  applyFrom 0 (cfg.endpoints.map ofEndpoint) cmds

/-- The clients that a coordinator counts as active. -/
def pool (cfg : ShardConfig) (cmds : List Command) : List ShardClient :=
  activeClients (cfg.clients cmds)

end ShardConfig

/-- Whether a command says nothing about a shard. -/
def Command.leavesAlone (shardId : Int) : Command → Bool
  | .addShard id _ => decide (id ≠ shardId)
  | .removeShard id => decide (id ≠ shardId)
  | .setPrimary id _ => decide (id ≠ shardId)
  | .malformed => true

/-- The shard's replicas and writes, the committed commands, and of each coordinator how
many commands it has applied and how many pings in a row its health check has missed. -/
structure FailoverState where
  group : ShardGroup
  log : List Command := []
  applied : Nat → Nat := fun _ => 0
  failures : Nat → Nat := fun _ => 0
  proposals : List Command := []

inductive FailoverAction where
  /-- Coordinator {lit}`c` starts a write from its own view. -/
  | write (c : Nat) (op : WriteOp)
  /-- A request is handled, answered or timed out, or a replica crashes or restarts. -/
  | replica (act : GroupAction)
  /-- One round of the health check of coordinator {lit}`c`. -/
  | healthCheck (c : Nat) (pingOk : Bool) (answering : List Address)
  | commit (cmd : Command)
  /-- Coordinator {lit}`c` applies its next command. -/
  | apply (c : Nat)

/-- Whether an action starts a write. -/
def GroupAction.isIssue : GroupAction → Bool
  | .issue _ _ => true
  | _ => false

namespace FailoverState

/-- The pool of coordinator {lit}`c`. -/
def pool (cfg : ShardConfig) (s : FailoverState) (c : Nat) : List ShardClient :=
  cfg.pool (s.log.take (s.applied c))

/-- What the replicas that answer report to {lit}`Stats`. -/
def stats (s : FailoverState) (answering : List Address) (r : ShardClient) : Option Nat :=
  if r.address ∈ answering then some (s.group.servers r.address).elementCount else none

def step (cfg : ShardConfig) (s : FailoverState) : FailoverAction → Option FailoverState
  | .write c op =>
      (s.group.step cfg.replicas
        (.issue (replicasForShard (s.pool cfg c) cfg.shardId) op)).map fun group =>
          { s with group := group }
  | .replica act =>
      if act.isIssue then none
      else (s.group.step cfg.replicas act).map fun group => { s with group := group }
  | .healthCheck c pingOk answering =>
      -- Only processes that run answer.
      if (answering.all fun a => s.group.up a) &&
          (!pingOk || (findPrimary (s.pool cfg c) cfg.shardId).all fun p => s.group.up p.address)
      then
        let r := healthCheck (s.pool cfg c) cfg.shardId pingOk (s.stats answering) (s.failures c)
        some { s with
          failures := Function.update s.failures c r.1
          proposals := s.proposals ++ r.2.toList }
      else none
  | .commit cmd =>
      if cmd ∈ s.proposals ∨ cmd.leavesAlone cfg.shardId = true then
        some { s with log := s.log ++ [cmd] }
      else none
  | .apply c =>
      if s.applied c < s.log.length then
        some { s with applied := Function.update s.applied c (s.applied c + 1) }
      else none

def start (servers : Address → ShardServer) : FailoverState where
  group := ShardGroup.start servers

/-- A step takes at most one step of the replicas and the writes in flight. -/
theorem group_step {cfg : ShardConfig} {s s' : FailoverState} {act : FailoverAction}
    (h : step cfg s act = some s') :
    s'.group = s.group ∨ ∃ gact, s.group.step cfg.replicas gact = some s'.group := by
  cases act with
  | write c op =>
      rcases Option.map_eq_some_iff.mp h with ⟨group, hgroup, rfl⟩
      exact .inr ⟨_, hgroup⟩
  | replica act =>
      simp only [step] at h
      split at h
      · contradiction
      · rcases Option.map_eq_some_iff.mp h with ⟨group, hgroup, rfl⟩
        exact .inr ⟨_, hgroup⟩
  | healthCheck c pingOk answering =>
      simp only [step] at h
      split at h
      · cases h
        exact .inl rfl
      · contradiction
  | commit cmd =>
      simp only [step] at h
      split at h
      · cases h
        exact .inl rfl
      · contradiction
  | apply c =>
      simp only [step] at h
      split at h
      · cases h
        exact .inl rfl
      · contradiction

end FailoverState

/-! ## The replica set of a coordinator's view -/

/-- Whether a command neither adds nor removes a shard. -/
def Command.keepsReplicas (shardId : Int) : Command → Bool
  | .addShard id _ => decide (id ≠ shardId)
  | .removeShard id => decide (id ≠ shardId)
  | _ => true

theorem Command.keepsReplicas_of_leavesAlone {shardId : Int} {cmd : Command}
    (h : cmd.leavesAlone shardId = true) : cmd.keepsReplicas shardId = true := by
  cases cmd with
  | addShard id replicas => exact h
  | removeShard id => exact h
  | setPrimary id replicaId => rfl
  | malformed => rfl

/-- The addresses of the active replicas of a shard. -/
def shardAddresses (shards : List ShardClient) (shardId : Int) : List Address :=
  ((activeClients shards).filter fun sc => decide (sc.shardId = shardId)).map ShardClient.address

theorem shardAddresses_applyCommand (shards : List ShardClient) (epoch : Nat) {shardId : Int}
    {cmd : Command} (h : cmd.keepsReplicas shardId = true) :
    shardAddresses (applyCommand shards epoch cmd) shardId = shardAddresses shards shardId := by
  rw [shardAddresses, shardAddresses]
  cases cmd with
  | addShard id replicas =>
      have hne : id ≠ shardId := by simpa [Command.keepsReplicas] using h
      simp only [applyCommand]
      split
      · rfl
      · rw [activeClients_append, activeClients_map_ofReplica, List.filter_append, List.map_append]
        have hnone : (replicas.map (ofReplica id epoch)).filter
            (fun sc => decide (sc.shardId = shardId)) = [] := by
          rw [List.filter_eq_nil_iff]
          intro sc hsc
          rcases List.mem_map.mp hsc with ⟨r, -, rfl⟩
          simp [ofReplica, hne]
        rw [hnone, List.map_nil, List.append_nil]
  | removeShard id =>
      have hne : id ≠ shardId := by simpa [Command.keepsReplicas] using h
      rw [activeClients_removeShard, List.filter_filter]
      congr 1
      apply List.filter_congr
      intro sc _
      by_cases hsc : sc.shardId = shardId
      · simp [hsc, Ne.symm hne]
      · simp [hsc]
  | setPrimary id replicaId =>
      rw [activeClients_setPrimary]
      induction activeClients shards with
      | nil => rfl
      | cons sc shards ih =>
          simp only [applyCommand, List.map_cons] at ih ⊢
          by_cases hid : sc.shardId = id <;> by_cases hsc : sc.shardId = shardId <;>
            simp_all [ShardClient.address]
  | malformed => rfl

theorem shardAddresses_applyFrom {shardId : Int} {cmds : List Command}
    (h : ∀ cmd ∈ cmds, cmd.keepsReplicas shardId = true) (base : Nat) (shards : List ShardClient) :
    shardAddresses (applyFrom base shards cmds) shardId = shardAddresses shards shardId := by
  induction cmds generalizing base shards with
  | nil => rfl
  | cons cmd cmds ih =>
      rw [applyFrom, ih (fun cmd' hmem => h cmd' (List.mem_cons_of_mem _ hmem)),
        shardAddresses_applyCommand _ _ (h cmd List.mem_cons_self)]

/-- A coordinator writes to the replicas of the config file, whatever it has applied. -/
theorem ShardConfig.replicas_perm (cfg : ShardConfig) {cmds : List Command}
    (h : ∀ cmd ∈ cmds, cmd.keepsReplicas cfg.shardId = true) :
    ((replicasForShard (cfg.pool cmds) cfg.shardId).map ShardClient.address).Perm
      cfg.replicas.addresses := by
  refine ((replicasForShard_perm _ _).map _).trans (List.Perm.of_eq ?_)
  have hview := shardAddresses_applyFrom h 0 (cfg.endpoints.map ofEndpoint)
  rw [shardAddresses, ← ShardConfig.clients, ← ShardConfig.pool] at hview
  rw [hview, shardAddresses]
  have hactive : activeClients (cfg.endpoints.map ofEndpoint) = cfg.endpoints.map ofEndpoint := by
    rw [activeClients, List.filter_eq_self]
    intro sc hsc
    rcases List.mem_map.mp hsc with ⟨ep, -, rfl⟩
    rfl
  rw [hactive, List.filter_map, List.map_map]
  rfl

/-! ## The invariant of a run -/

namespace FailoverState

/-- What holds in every state of a run. -/
structure Inv (cfg : ShardConfig) (s : FailoverState) : Prop where
  group : s.group.Inv cfg.replicas
  stored : s.group.Stored
  applied : ∀ c, s.applied c ≤ s.log.length
  log : ∀ cmd ∈ s.log, cmd.keepsReplicas cfg.shardId = true
  proposals : ∀ cmd ∈ s.proposals, cmd.keepsReplicas cfg.shardId = true

theorem Inv.init (cfg : ShardConfig) (servers : Address → ShardServer) :
    Inv cfg (start servers) where
  group := ShardGroup.Inv.init _ rfl
  stored w i t wr k v m ht := by simp [start, ShardGroup.start, ShardGroup.target] at ht
  applied _ := Nat.zero_le _
  log cmd hcmd := by simp [start] at hcmd
  proposals cmd hcmd := by simp [start] at hcmd

/-- The health check proposes promotions only. -/
theorem healthCheck_keepsReplicas {pool : List ShardClient} {shardId : Int} {pingOk : Bool}
    {stats : ShardClient → Option Nat} {failures : Nat} {cmd : Command}
    (h : (healthCheck pool shardId pingOk stats failures).2 = some cmd) :
    cmd.keepsReplicas shardId = true := by
  rw [healthCheck] at h
  split at h
  · contradiction
  · split at h
    · contradiction
    · split at h
      · contradiction
      · split at h
        · contradiction
        · cases h
          rfl

theorem Inv.step {cfg : ShardConfig} {s s' : FailoverState} {act : FailoverAction}
    (hinv : Inv cfg s) (h : FailoverState.step cfg s act = some s') : Inv cfg s' := by
  have hgroup : s'.group.Inv cfg.replicas ∧ s'.group.Stored := by
    rcases group_step h with heq | ⟨gact, hgact⟩
    · rw [heq]
      exact ⟨hinv.group, hinv.stored⟩
    · exact ⟨hinv.group.step hgact, hinv.stored.step hgact⟩
  cases act with
  | write c op =>
      rcases Option.map_eq_some_iff.mp h with ⟨group, -, rfl⟩
      exact { hinv with group := hgroup.1, stored := hgroup.2 }
  | replica act =>
      simp only [FailoverState.step] at h
      split at h
      · contradiction
      · rcases Option.map_eq_some_iff.mp h with ⟨group, -, rfl⟩
        exact { hinv with group := hgroup.1, stored := hgroup.2 }
  | healthCheck c pingOk answering =>
      simp only [FailoverState.step] at h
      split at h
      · cases h
        refine { hinv with proposals := ?_ }
        intro cmd hcmd
        rcases List.mem_append.mp hcmd with hold | hnew
        · exact hinv.proposals cmd hold
        · exact healthCheck_keepsReplicas (Option.mem_toList.mp hnew)
      · contradiction
  | commit cmd =>
      simp only [FailoverState.step] at h
      split at h
      · next hallowed =>
          cases h
          refine { hinv with applied := ?_, log := ?_ }
          · intro c
            rw [List.length_append]
            exact (hinv.applied c).trans (Nat.le_add_right _ _)
          · intro cmd' hcmd'
            rcases List.mem_append.mp hcmd' with hold | hnew
            · exact hinv.log cmd' hold
            · rw [List.mem_singleton.mp hnew]
              rcases hallowed with hproposed | halone
              · exact hinv.proposals cmd hproposed
              · exact Command.keepsReplicas_of_leavesAlone halone
      · contradiction
  | apply c =>
      simp only [FailoverState.step] at h
      split at h
      · next hlt =>
          cases h
          refine { hinv with applied := ?_ }
          intro c'
          dsimp only
          by_cases hc : c' = c
          · rw [hc, Function.update_self]
            omega
          · rw [Function.update_of_ne hc]
            exact hinv.applied c'
      · contradiction

theorem Inv.run {cfg : ShardConfig} {ok : FailoverState → FailoverAction → Prop}
    {s s' : FailoverState} {as : List FailoverAction}
    (hrun : Exec (FailoverState.step cfg) ok s as s') (hinv : Inv cfg s) : Inv cfg s' :=
  hrun.invariant (Inv cfg) (fun _ _ _ hinv _ h => hinv.step h) hinv

/-- Every coordinator can write to the whole replica set, however stale its view. -/
theorem write_enabled {cfg : ShardConfig} {s : FailoverState} (hinv : Inv cfg s) (c : Nat)
    (op : WriteOp) : (step cfg s (.write c op)).isSome = true := by
  have hperm : ((replicasForShard (s.pool cfg c) cfg.shardId).map ShardClient.address).Perm
      cfg.replicas.addresses := by
    apply cfg.replicas_perm
    intro cmd hcmd
    exact hinv.log cmd (List.mem_of_mem_take hcmd)
  simp [step, ShardGroup.step, hperm]

section Runs

variable {cfg : ShardConfig} {s s' : FailoverState} {as : List FailoverAction}
  {ok : FailoverState → FailoverAction → Prop} {k : Key}

/-- What was never deleted by the end of a run was not deleted at its start. -/
theorem notDeleted_of_run (hrun : Exec (step cfg) ok s as s') (hk : s'.group.NotDeleted k) :
    s.group.NotDeleted k := by
  induction hrun with
  | nil s => exact hk
  | cons _ hstep _ ih =>
      rcases group_step hstep with heq | ⟨gact, hgact⟩
      · exact heq ▸ ih hk
      · exact (ih hk).before hgact

/-- A key that nobody deletes stays where it is. -/
theorem holds_of_run (hrun : Exec (step cfg) ok s as s') (hk : s'.group.NotDeleted k)
    {a : Address} (hlive : s.group.Holds a k) : s'.group.Holds a k := by
  induction hrun with
  | nil s => exact hlive
  | cons _ hstep hrest ih =>
      apply ih hk
      rcases group_step hstep with heq | ⟨gact, hgact⟩
      · rwa [heq]
      · exact hlive.step hgact ((notDeleted_of_run hrest hk).before hgact)

end Runs

/-! ## Which replica is promoted -/

/-- The replicas that the health check of coordinator {lit}`c` compares. -/
def candidates (cfg : ShardConfig) (s : FailoverState) (c : Nat) (answering : List Address) :
    List ShardClient :=
  (replicasForShard (s.pool cfg c) cfg.shardId).filter fun r =>
    decide (findPrimary (s.pool cfg c) cfg.shardId ≠ some r ∧ r.address ∈ answering)

/-- The replica it promotes. -/
def promoted (cfg : ShardConfig) (s : FailoverState) (c : Nat) (answering : List Address) :
    Option ShardClient :=
  (findPrimary (s.pool cfg c) cfg.shardId).bind fun primary =>
    (chooseCandidate (s.stats answering) primary (replicasForShard (s.pool cfg c) cfg.shardId)).map
      (·.1)

/-- The keys that are live at a replica. -/
def keys (s : FailoverState) (r : ShardClient) : List Key :=
  (s.group.servers r.address).listLocalIds

/-- The replicas missed writes in one order: their keys are ordered by inclusion, and
the element count of each is the number of its keys. -/
def MissedInOrder (s : FailoverState) (rs : List ShardClient) : Prop :=
  (∀ x ∈ rs, ∀ y ∈ rs, s.keys x ⊆ s.keys y ∨ s.keys y ⊆ s.keys x) ∧
  ∀ x ∈ rs, (s.group.servers x.address).elementCount = (s.keys x).length

instance (s : FailoverState) (rs : List ShardClient) : Decidable (s.MissedInOrder rs) :=
  inferInstanceAs (Decidable (_ ∧ _))

theorem mem_keys {s : FailoverState} {r : ShardClient} {k : Key} :
    k ∈ s.keys r ↔ s.group.Holds r.address k :=
  ShardServer.mem_listLocalIds

theorem nodup_keys (s : FailoverState) (r : ShardClient) : (s.keys r).Nodup :=
  (s.group.servers r.address).idMap.nodup.filter _

/-- Where the candidates missed writes in one order, the promoted one holds every key
that any of them holds. -/
theorem promoted_holds {cfg : ShardConfig} {s : FailoverState} {c : Nat}
    {answering : List Address} {r x : ShardClient} {k : Key}
    (hpromoted : s.promoted cfg c answering = some r)
    (horder : s.MissedInOrder (s.candidates cfg c answering))
    (hx : x ∈ s.candidates cfg c answering) (hk : s.group.Holds x.address k) :
    s.group.Holds r.address k := by
  rcases Option.bind_eq_some_iff.mp hpromoted with ⟨primary, hprimary, hmap⟩
  rcases Option.map_eq_some_iff.mp hmap with ⟨⟨r', count⟩, hchosen, rfl⟩
  have hbest := isBest_chooseCandidate (s.stats answering) primary
    (replicasForShard (s.pool cfg c) cfg.shardId)
  rw [hchosen] at hbest
  rcases hbest with ⟨hmem, hne, hstats, hle⟩
  have hanswers : r'.address ∈ answering ∧
      (s.group.servers r'.address).elementCount = count := by
    rw [stats] at hstats
    split at hstats
    · next h => exact ⟨h, Option.some_inj.mp hstats⟩
    · contradiction
  have hr' : r' ∈ s.candidates cfg c answering := by
    rw [candidates, List.mem_filter, decide_eq_true_iff]
    refine ⟨hmem, ?_, hanswers.1⟩
    rw [hprimary]
    exact fun heq => hne (Option.some_inj.mp heq).symm
  -- The promoted replica has at least as many keys as the one that holds the key.
  have hcard : (s.keys x).length ≤ (s.keys r').length := by
    rw [← horder.2 x hx, ← horder.2 r' hr', hanswers.2]
    rw [candidates, List.mem_filter, decide_eq_true_iff] at hx
    rcases hx with ⟨hxmem, hxne, hxans⟩
    apply hle x hxmem
    · intro heq
      exact hxne (heq ▸ hprimary)
    · rw [stats, if_pos hxans]
  rw [← mem_keys] at hk ⊢
  rcases horder.1 x hx r' hr' with hsub | hsub
  · exact hsub hk
  · exact ((nodup_keys s r').subperm hsub).perm_of_length_le hcard |>.mem_iff.mpr hk

/-! ## Confirmed inserts -/

/-- No coordinator has applied more than {lit}`c`. -/
def Latest (s : FailoverState) (c : Nat) : Prop :=
  ∀ c', s.applied c' ≤ s.applied c

/-- Some state of the run to {lit}`s` promoted the replica at {lit}`a` from candidates
that had missed writes in one order and one of which held the key. -/
def PromotedWith (cfg : ShardConfig) (servers : Address → ShardServer) (s : FailoverState)
    (a : Address) (k : Key) : Prop :=
  ∃ as as' s₁ c answering r x,
    Exec (step cfg) (fun _ _ => True) (start servers) as s₁ ∧
    Exec (step cfg) (fun _ _ => True) s₁ as' s ∧
    s₁.promoted cfg c answering = some r ∧ r.address = a ∧
    s₁.MissedInOrder (s₁.candidates cfg c answering) ∧
    x ∈ s₁.candidates cfg c answering ∧ s₁.group.Holds x.address k

/-- **Confirmed inserts are kept.**  In every run, a key whose insert was confirmed and
that nobody deletes is live on a majority of the replicas.  The primary of the latest
applied topology is one of them if the insert was confirmed with this primary, or if it
was promoted from candidates that had missed writes in one order and one of which held
the key. -/
theorem confirmed_insert_kept (cfg : ShardConfig) (servers : Address → ShardServer)
    {as : List FailoverAction} {s : FailoverState} {w : Nat} {wr : Write} {k : Key} {v : Floats}
    {m : Bytes} (hrun : Exec (step cfg) (fun _ _ => True) (start servers) as s)
    (hwr : s.group.writes[w]? = some wr) (hop : wr.op = .insert k v m)
    (hconfirmed : wr.confirmed = true) (hk : s.group.NotDeleted k) :
    (∃ q, IsQuorum cfg.replicas.addresses.toFinset q ∧ ∀ a ∈ q, s.group.Holds a k) ∧
    ∀ c p, s.Latest c → findPrimary (s.pool cfg c) cfg.shardId = some p →
      ((wr.primary.map fun t => t.client.address) = some p.address ∨
        PromotedWith cfg servers s p.address k) →
      s.group.Holds p.address k := by
  have hinv : Inv cfg s := (Inv.init cfg servers).run hrun
  have hstored : ∀ t ∈ wr.targets, t.returned = some true → s.group.Holds t.client.address k := by
    intro t ht hret
    rcases ShardGroup.exists_target_of_mem hwr ht with ⟨i, hi⟩
    exact hinv.stored w i t wr k v m hi (hinv.group.acked w i t hi hret) hwr hop hk
  rcases Write.quorum_of_confirmed (hinv.group.perm w wr hwr) hconfirmed with
    ⟨hquorum, t, ht, hprimary, hret⟩
  refine ⟨⟨wr.ackers, hquorum, ?_⟩, ?_⟩
  · intro a ha
    rcases Write.mem_ackers.mp ha with ⟨t', ht', hret', rfl⟩
    exact hstored t' ht' hret'
  · rintro c p - - (hsame | ⟨as₁, as₂, s₁, c₁, answering, r, x, -, hrun₂, hr, haddr, horder,
    hx, hlive⟩)
    · rw [hprimary, Option.map_some, Option.some_inj] at hsame
      exact hsame ▸ hstored t ht hret
    · rw [← haddr]
      exact holds_of_run hrun₂ hk (promoted_holds hr horder hx hlive)

/-! ## Two failovers -/

/-- A shard with three replicas, the first its primary. -/
def threeEndpoints : ShardConfig where
  endpoints := [⟨0, 1, [97], 1, true⟩, ⟨0, 2, [97], 2, false⟩, ⟨0, 3, [97], 3, false⟩]
  shardId := 0
  nodup := by decide

/-- A write of coordinator 0 that reaches the primary and one other replica. -/
def writeTo (w i : Nat) (k : Key) : List FailoverAction :=
  [.write 0 (.insert k (List.replicate 128 0) []), .replica (.handle w 0), .replica (.handle w i),
    .replica (.answer w 0), .replica (.answer w i), .replica (.timeout w (3 - i))]

/-- The write after all its futures have returned. -/
def acknowledgedBy (i : Nat) (k : Key) : Write where
  op := .insert k (List.replicate 128 0) []
  targets := (threeEndpoints.endpoints.map ofEndpoint).mapIdx fun j sc =>
    { client := sc
      handled := if j = 0 ∨ j = i then some true else none
      returned := some (decide (j = 0 ∨ j = i)) }

/-- The primary crashes, the health check of coordinator 0 misses it three times while
both others answer, and its proposal is committed and applied. -/
def failoverTo (replicaId : Int) : List FailoverAction :=
  [.replica (.crash ([97], 1)),
    .healthCheck 0 false [([97], 2), ([97], 3)], .healthCheck 0 false [([97], 2), ([97], 3)],
    .healthCheck 0 false [([97], 2), ([97], 3)], .commit (.setPrimary 0 replicaId), .apply 0]

/-- What the health check promotes: the second replica. -/
def secondPrimary : ShardClient where
  shardId := 0
  replicaId := 2
  host := [97]
  port := 2
  isPrimary := true
  epoch := 1

/-- The third replica misses a write. -/
def oneMissed : FailoverState :=
  (guardedRun (step threeEndpoints) (fun _ _ => True) (start fun _ => {})
    (writeTo 0 1 [97])).get (by decide +kernel)

def oneMissedPromoted : FailoverState :=
  (guardedRun (step threeEndpoints) (fun _ _ => True) oneMissed (failoverTo 2)).get
    (by decide +kernel)

theorem confirmed_insert_kept_oneMissed :
    Exec (step threeEndpoints) (fun _ _ => True) (start fun _ => {})
      (writeTo 0 1 [97] ++ failoverTo 2) oneMissedPromoted ∧
    oneMissedPromoted.Latest 0 ∧
    findPrimary (oneMissedPromoted.pool threeEndpoints 0) 0 = some secondPrimary ∧
    oneMissedPromoted.group.Holds secondPrimary.address [97] := by
  have hrun : Exec (step threeEndpoints) (fun _ _ => True) (start fun _ => {}) (writeTo 0 1 [97])
      oneMissed := Exec.of_guardedRun (step threeEndpoints) _ _ _ (by decide +kernel)
  have hrun' : Exec (step threeEndpoints) (fun _ _ => True) oneMissed (failoverTo 2)
      oneMissedPromoted := Exec.of_guardedRun (step threeEndpoints) _ _ _ (by decide +kernel)
  have hlatest : oneMissedPromoted.Latest 0 := by
    intro c
    have happlied := ((Inv.init threeEndpoints fun _ => {}).run (hrun.append hrun')).applied c
    exact happlied.trans (by decide +kernel)
  have hprimary : findPrimary (oneMissedPromoted.pool threeEndpoints 0) 0 = some secondPrimary := by
    decide +kernel
  refine ⟨hrun.append hrun', hlatest, hprimary, ?_⟩
  have hwrite : oneMissedPromoted.group.writes[0]? = some (acknowledgedBy 1 [97]) := by
    decide +kernel
  have hkept := confirmed_insert_kept threeEndpoints (fun _ => {}) (hrun.append hrun') hwrite rfl
    (by decide +kernel) (by decide +kernel)
  apply hkept.2 0 secondPrimary hlatest hprimary
  -- It was promoted while the third replica, which holds nothing, answered as well.
  refine .inr ⟨_, _, oneMissed, 0, [([97], 2), ([97], 3)],
    { secondPrimary with isPrimary := false, epoch := 0 },
    { secondPrimary with isPrimary := false, epoch := 0 }, hrun, hrun', ?_⟩
  decide +kernel

/-- The second and the third replica miss one write each. -/
def bothMissed : FailoverState :=
  (guardedRun (step threeEndpoints) (fun _ _ => True) (start fun _ => {})
    (writeTo 0 1 [97] ++ writeTo 1 2 [98] ++ failoverTo 2)).get (by decide +kernel)

/-- The insert of the key {lit}`b` is confirmed by the primary and the third replica, the
insert of {lit}`a` by the primary and the second.  The two tie, the second is promoted,
and {lit}`b` is not there. -/
theorem confirmed_insert_missing :
    ∃ (as : List FailoverAction) (s : FailoverState) (w : Nat) (wr : Write) (k : Key) (v : Floats)
      (m : Bytes) (c : Nat) (p : ShardClient),
      Exec (step threeEndpoints) (fun _ _ => True) (start fun _ => {}) as s ∧
      s.group.writes[w]? = some wr ∧ wr.op = .insert k v m ∧ wr.confirmed = true ∧
      s.group.NotDeleted k ∧ s.Latest c ∧
      findPrimary (s.pool threeEndpoints c) threeEndpoints.shardId = some p ∧
      ¬ s.group.Holds p.address k := by
  have hrun : Exec (step threeEndpoints) (fun _ _ => True) (start fun _ => {})
      (writeTo 0 1 [97] ++ writeTo 1 2 [98] ++ failoverTo 2) bothMissed :=
    Exec.of_guardedRun (step threeEndpoints) _ _ _ (by decide +kernel)
  have hlatest : bothMissed.Latest 0 := by
    intro c
    exact (((Inv.init threeEndpoints fun _ => {}).run hrun).applied c).trans (by decide +kernel)
  exact ⟨_, bothMissed, 1, acknowledgedBy 2 [98], [98], List.replicate 128 0, [], 0, secondPrimary,
    hrun, by decide +kernel, rfl, by decide +kernel, by decide +kernel, hlatest,
    by decide +kernel, by decide +kernel⟩

end FailoverState

end NanoDB.Coordinator
