import NanoDB.Coordinator.Failover

/-!
# The health-check loop

The loop of one coordinator over any number of iterations: it pings the primary of each
shard while the node leads, counts misses by shard id, and proposes a promotion from the
third miss on.  Between any two pings the clients may change, by committed commands
(among them a manual {lit}`set_primary`) and by snapshots, and leadership may come and go.

The counter belongs to the shard and not to the replica that missed.  Nothing resets it
when the shard gets another primary, so the new one inherits the misses of the old one.

Main results:

- Theorem {lit}`proposal_after_three_misses`: where every ping of a shard with misses goes
  to the replica that missed last, a promotion is proposed only after three misses in a
  row of the replica that is replaced.
-/

namespace NanoDB.Coordinator

open Lib (Exec guardedRun)

/-! ## The loop -/

/-- A ping for a shard: the replica it was addressed to and whether it was answered. -/
structure Ping where
  shardId : Int
  replicaId : Int
  address : Address
  ok : Bool
deriving DecidableEq, Repr

/-- The ping of a primary. -/
def ShardClient.ping (primary : ShardClient) (shardId : Int) (ok : Bool) : Ping where
  shardId := shardId
  replicaId := primary.replicaId
  address := primary.address
  ok := ok

/-- Whether a ping was addressed to a replica. -/
def Ping.isTo (p : Ping) (r : ShardClient) : Prop :=
  p.replicaId = r.replicaId ∧ p.address = r.address

instance (p : Ping) (r : ShardClient) : Decidable (p.isTo r) :=
  inferInstanceAs (Decidable (_ ∧ _))

/-- A proposed promotion, with the replica that was taken as the primary and the pings of
its shard up to then, the newest first. -/
structure Promotion where
  command : Command
  primary : ShardClient
  recent : List Ping
deriving DecidableEq, Repr

/-- The clients of the coordinator, the counters of the loop, and what is left of the
current iteration: the positions of the clients that were live at its start and the
shards that are still to be checked.  {lit}`pings`, the newest first, and
{lit}`proposals` record what the loop has done. -/
structure HealthState where
  shards : List ShardClient
  leader : Bool := false
  failures : Int → Nat := fun _ => 0
  live : List Nat := []
  todo : List Int := []
  pings : List Ping := []
  proposals : List Promotion := []

inductive HealthAction where
  /-- The node becomes the leader or stops being it. -/
  | lead (leader : Bool)
  /-- A committed command is applied. -/
  | apply (epoch : Nat) (cmd : Command)
  /-- A snapshot is loaded. -/
  | snapshot (snap : List SnapshotShard)
  /-- An iteration of the loop begins. -/
  | wake
  /-- The next shard of the iteration is checked. -/
  | check (pingOk : Bool) (stats : ShardClient → Option Nat)

namespace HealthState

/-- The live clients of the current iteration, as they are now. -/
def pool (s : HealthState) : List ShardClient :=
  s.live.filterMap (s.shards[·]?)

/-- The pings of a shard, the newest first. -/
def pingsOf (s : HealthState) (shardId : Int) : List Ping :=
  s.pings.filter fun p => decide (p.shardId = shardId)

/-- Check one shard. -/
def checkShard (s : HealthState) (shardId : Int) (pingOk : Bool)
    (stats : ShardClient → Option Nat) : HealthState :=
  match findPrimary s.pool shardId with
  | none => s
  | some primary =>
      let r := healthCheck s.pool shardId pingOk stats (s.failures shardId)
      { s with
        failures := Function.update s.failures shardId r.1
        pings := primary.ping shardId pingOk :: s.pings
        proposals := s.proposals ++ r.2.toList.map fun cmd =>
          ⟨cmd, primary, primary.ping shardId pingOk :: s.pingsOf shardId⟩ }

def step (s : HealthState) : HealthAction → Option HealthState
  | .lead leader => some { s with leader := leader }
  | .apply epoch cmd => some { s with shards := applyCommand s.shards epoch cmd }
  | .snapshot snap => some { s with shards := loadSnapshot s.shards snap }
  | .wake =>
      match s.todo with
      | _ :: _ => none
      | [] =>
          if s.leader then
            some { s with
              live := (List.range s.shards.length).filter fun i =>
                (s.shards[i]?).any (·.active)
              todo := activeIds s.shards }
          else some s
  | .check pingOk stats =>
      match s.todo with
      | [] => none
      | shardId :: todo => some { s.checkShard shardId pingOk stats with todo := todo }

/-! ## Misses in a row -/

/-- The replica that is checked is the one that the newest ping of the shard was addressed
to, if this shard has misses. -/
def Steady (s : HealthState) : HealthAction → Prop
  | .check _ _ => ∀ shardId ∈ s.todo.head?, ∀ primary ∈ findPrimary s.pool shardId,
      0 < s.failures shardId → ∀ p ∈ (s.pingsOf shardId).head?, p.isTo primary
  | _ => True

/-- The counter of a shard counts its newest pings: all were missed, by one replica. -/
def Counted (s : HealthState) : Prop :=
  ∀ shardId, ∃ replicaId address, (s.pingsOf shardId).take (s.failures shardId) =
    List.replicate (s.failures shardId) ⟨shardId, replicaId, address, false⟩

/-- Every proposal follows three misses of the replica that it replaces. -/
def Justified (s : HealthState) : Prop :=
  ∀ p ∈ s.proposals, ∃ shardId replicaId, p.command = .setPrimary shardId replicaId ∧
    p.recent.take 3 = List.replicate 3 (p.primary.ping shardId false)

/-- What one check does to the counter and what it proposes. -/
theorem healthCheck_cases {pool : List ShardClient} {shardId : Int} {primary : ShardClient}
    (hprimary : findPrimary pool shardId = some primary) (pingOk : Bool)
    (stats : ShardClient → Option Nat) (failures : Nat) :
    ((healthCheck pool shardId pingOk stats failures).1 = 0 ∧
        (healthCheck pool shardId pingOk stats failures).2 = none) ∨
      (pingOk = false ∧ (healthCheck pool shardId pingOk stats failures).1 = failures + 1 ∧
        (healthCheck pool shardId pingOk stats failures).2 = none) ∨
      (pingOk = false ∧ 3 ≤ failures + 1 ∧
        (healthCheck pool shardId pingOk stats failures).1 = 0 ∧
        ∃ replicaId, (healthCheck pool shardId pingOk stats failures).2 =
          some (.setPrimary shardId replicaId)) := by
  rw [healthCheck, hprimary]
  dsimp only
  cases pingOk with
  | true => exact .inl ⟨rfl, rfl⟩
  | false =>
      rw [if_neg (by decide)]
      split
      · exact .inr (.inl ⟨rfl, rfl, rfl⟩)
      · next hreached =>
          unfold failuresBeforeFailover at hreached
          split
          · exact .inr (.inl ⟨rfl, rfl, rfl⟩)
          · next candidate count hchosen =>
              exact .inr (.inr ⟨rfl, by omega, rfl, candidate.replicaId, rfl⟩)

/-- One more miss of the replica that missed last. -/
theorem take_miss {s : HealthState} (hcounted : s.Counted) {shardId : Int} {primary : ShardClient}
    (hsteady : 0 < s.failures shardId → ∀ p ∈ (s.pingsOf shardId).head?, p.isTo primary) :
    (primary.ping shardId false :: s.pingsOf shardId).take (s.failures shardId + 1) =
      List.replicate (s.failures shardId + 1) (primary.ping shardId false) := by
  rw [List.take_succ_cons, List.replicate_succ]
  congr 1
  rcases hcounted shardId with ⟨replicaId, address, hmisses⟩
  cases hfailures : s.failures shardId with
  | zero => rfl
  | succ n =>
      rw [hfailures] at hmisses hsteady
      rw [hmisses]
      -- the newest of these pings is the one that the replica is compared with
      cases hpings : s.pingsOf shardId with
      | nil =>
          rw [hpings, List.take_nil, List.replicate_succ] at hmisses
          contradiction
      | cons newest rest =>
          rw [hpings, List.take_succ_cons, List.replicate_succ, List.cons.injEq] at hmisses
          have hto := hsteady (Nat.succ_pos n) newest (by rw [hpings]; rfl)
          rw [hmisses.1] at hto
          rw [ShardClient.ping, ← hto.1, ← hto.2]

theorem pingsOf_cons_self (s : HealthState) {shardId : Int} (primary : ShardClient) (ok : Bool) :
    ({ s with pings := primary.ping shardId ok :: s.pings } : HealthState).pingsOf shardId =
      primary.ping shardId ok :: s.pingsOf shardId :=
  List.filter_cons_of_pos (by simp [ShardClient.ping])

theorem pingsOf_cons_of_ne (s : HealthState) {shardId i : Int} (hne : i ≠ shardId)
    (primary : ShardClient) (ok : Bool) :
    ({ s with pings := primary.ping shardId ok :: s.pings } : HealthState).pingsOf i =
      s.pingsOf i :=
  List.filter_cons_of_neg (by simp [ShardClient.ping, hne.symm])

/-- The counters stay right. -/
theorem Counted.checkShard {s : HealthState} (hcounted : s.Counted) {shardId : Int}
    (pingOk : Bool) (stats : ShardClient → Option Nat)
    (hsteady : ∀ primary ∈ findPrimary s.pool shardId,
      0 < s.failures shardId → ∀ p ∈ (s.pingsOf shardId).head?, p.isTo primary) :
    (s.checkShard shardId pingOk stats).Counted := by
  rw [HealthState.checkShard]
  split
  · exact hcounted
  · next primary hprimary =>
      intro i
      by_cases hi : i = shardId
      · subst hi
        change ∃ replicaId address,
          (({ s with pings := primary.ping i pingOk :: s.pings } : HealthState).pingsOf i).take
            (Function.update s.failures i _ i) = List.replicate (Function.update s.failures i _ i) _
        rw [Function.update_self, pingsOf_cons_self]
        rcases healthCheck_cases hprimary pingOk stats (s.failures i) with
          ⟨hzero, -⟩ | ⟨hmissed, hnext, -⟩ | ⟨-, -, hzero, -⟩
        · exact ⟨0, primary.address, by rw [hzero]; rfl⟩
        · refine ⟨primary.replicaId, primary.address, ?_⟩
          rw [hnext, hmissed]
          exact take_miss hcounted (hsteady primary hprimary)
        · exact ⟨0, primary.address, by rw [hzero]; rfl⟩
      · rcases hcounted i with ⟨replicaId, address, hmisses⟩
        refine ⟨replicaId, address, ?_⟩
        change (({ s with pings := primary.ping shardId pingOk :: s.pings } : HealthState).pingsOf
          i).take (Function.update s.failures shardId _ i) =
            List.replicate (Function.update s.failures shardId _ i) _
        rw [Function.update_of_ne hi, pingsOf_cons_of_ne s hi]
        exact hmisses

/-- A check proposes only after three misses of the primary it checks. -/
theorem Justified.checkShard {s : HealthState} (hjustified : s.Justified) (hcounted : s.Counted)
    {shardId : Int} (pingOk : Bool) (stats : ShardClient → Option Nat)
    (hsteady : ∀ primary ∈ findPrimary s.pool shardId,
      0 < s.failures shardId → ∀ p ∈ (s.pingsOf shardId).head?, p.isTo primary) :
    (s.checkShard shardId pingOk stats).Justified := by
  rw [HealthState.checkShard]
  split
  · exact hjustified
  · next primary hprimary =>
      intro p hp
      rcases List.mem_append.mp hp with hold | hnew
      · exact hjustified p hold
      · rcases List.mem_map.mp hnew with ⟨cmd, hcmd, rfl⟩
        rw [Option.mem_toList] at hcmd
        rcases healthCheck_cases hprimary pingOk stats (s.failures shardId) with
          ⟨-, hnone⟩ | ⟨-, -, hnone⟩ | ⟨hmissed, hthree, -, replicaId, hproposed⟩
        · rw [hnone] at hcmd
          contradiction
        · rw [hnone] at hcmd
          contradiction
        · rw [hproposed, Option.some_inj] at hcmd
          refine ⟨shardId, replicaId, hcmd.symm, ?_⟩
          have hall := take_miss hcounted (hsteady primary hprimary)
          dsimp only
          rw [hmissed, ← Nat.min_eq_left hthree, ← List.take_take, hall, List.take_replicate,
            Nat.min_eq_left hthree]

theorem counted_justified_step {s s' : HealthState} {act : HealthAction}
    (h : s.Counted ∧ s.Justified) (hsteady : s.Steady act) (hstep : s.step act = some s') :
    s'.Counted ∧ s'.Justified := by
  cases act with
  | lead leader =>
      cases hstep
      exact h
  | apply epoch cmd =>
      cases hstep
      exact h
  | snapshot snap =>
      cases hstep
      exact h
  | wake =>
      simp only [step] at hstep
      split at hstep
      · contradiction
      · split at hstep
        · cases hstep
          exact h
        · cases hstep
          exact h
  | check pingOk stats =>
      simp only [step] at hstep
      split at hstep
      · contradiction
      · next shardId todo htodo =>
          have hsteady' : ∀ primary ∈ findPrimary s.pool shardId, 0 < s.failures shardId →
              ∀ p ∈ (s.pingsOf shardId).head?, p.isTo primary :=
            hsteady shardId (by rw [htodo]; rfl)
          cases hstep
          exact ⟨h.1.checkShard pingOk stats hsteady', h.2.checkShard h.1 pingOk stats hsteady'⟩

/-- In every run of the loop, from any clients and with any pattern of ping results, of
leadership and of applied commands, in which every ping of a shard with misses goes to the
replica that its previous ping went to: every promotion that was proposed followed three
misses in a row, all of the replica that was taken as the primary. -/
theorem proposal_after_three_misses (shards : List ShardClient) {as : List HealthAction}
    {s : HealthState} (hrun : Exec step Steady { shards := shards } as s) :
    ∀ p ∈ s.proposals, ∃ shardId replicaId, p.command = .setPrimary shardId replicaId ∧
      p.recent.take 3 = List.replicate 3 (p.primary.ping shardId false) := by
  have hinit : ({ shards := shards } : HealthState).Counted ∧
      ({ shards := shards } : HealthState).Justified := by
    constructor
    · exact fun shardId => ⟨0, ([], 0), rfl⟩
    · intro p hp
      cases hp
  exact (hrun.invariant (fun s => s.Counted ∧ s.Justified)
    (fun s a s' h hsteady hstep => counted_justified_step h hsteady hstep) hinit).2

instance (s : HealthState) (act : HealthAction) : Decidable (s.Steady act) :=
  match act with
  | .lead _ => inferInstanceAs (Decidable True)
  | .apply _ _ => inferInstanceAs (Decidable True)
  | .snapshot _ => inferInstanceAs (Decidable True)
  | .wake => inferInstanceAs (Decidable True)
  | .check _ _ => inferInstanceAs (Decidable (∀ shardId ∈ s.todo.head?, _))

/-- The clients of a shard with three replicas, the first its primary. -/
def threeClients : List ShardClient :=
  FailoverState.threeEndpoints.endpoints.map ofEndpoint

/-- The primary misses three pings while a manual promotion of another shard is applied. -/
def threeMisses : List HealthAction :=
  [.lead true, .wake, .check false fun _ => some 7, .apply 1 (.setPrimary 5 2), .wake,
    .check false fun _ => some 7, .lead false, .wake, .lead true, .wake,
    .check false fun _ => some 7]

theorem proposal_after_three_misses_first :
    ∃ s, Exec step Steady { shards := threeClients } threeMisses s ∧
      s.proposals.map (·.command) = [.setPrimary 0 2] ∧
      ∀ p ∈ s.proposals, ∃ shardId replicaId, p.command = .setPrimary shardId replicaId ∧
        p.recent.take 3 = List.replicate 3 (p.primary.ping shardId false) := by
  have hrun := Exec.of_guardedRun step Steady { shards := threeClients } threeMisses
    (by decide +kernel)
  have hproposed : ((guardedRun step Steady { shards := threeClients } threeMisses).get
      (by decide +kernel)).proposals.map (·.command) = [.setPrimary 0 2] := by
    decide +kernel
  generalize Option.get _ _ = s at hrun hproposed
  exact ⟨s, hrun, hproposed, proposal_after_three_misses threeClients hrun⟩

/-- Two misses of the first replica, then the second is made primary by hand and misses
one ping. -/
def inheritedMisses : List HealthAction :=
  [.lead true, .wake, .check false fun _ => some 7, .wake, .check false fun _ => some 7,
    .apply 1 (.setPrimary 0 2), .wake, .check false fun _ => some 7]

/-- The second replica is replaced after a single miss. -/
theorem proposal_after_one_miss :
    ¬ ∀ (as : List HealthAction) (s : HealthState),
      Exec step (fun _ _ => True) { shards := threeClients } as s →
      ∀ p ∈ s.proposals, ∃ shardId replicaId, p.command = .setPrimary shardId replicaId ∧
        p.recent.take 3 = List.replicate 3 (p.primary.ping shardId false) := by
  intro hall
  have hrun := Exec.of_guardedRun step (fun _ _ => True) { shards := threeClients } inheritedMisses
    (by decide +kernel)
  have hrecent : ((guardedRun step (fun _ _ => True) { shards := threeClients }
      inheritedMisses).get (by decide +kernel)).proposals.map
        (fun p => p.recent.map (·.replicaId)) = [[2, 1, 1]] := by
    decide +kernel
  generalize Option.get _ _ = s at hrun hrecent
  have hjustified := hall _ s hrun
  cases hproposals : s.proposals with
  | nil =>
      rw [hproposals] at hrecent
      contradiction
  | cons p rest =>
      rw [hproposals, List.map_cons, List.cons.injEq] at hrecent
      rcases hjustified p (hproposals ▸ List.mem_cons_self) with ⟨shardId, replicaId, -, hthree⟩
      have hsame : (p.recent.take 3).map (·.replicaId) =
          List.replicate 3 p.primary.replicaId := by
        rw [hthree, List.map_replicate]
        rfl
      rw [List.map_take, hrecent.1] at hsame
      have hfirst : (2 : Int) = p.primary.replicaId ∧ (1 : Int) = p.primary.replicaId := by
        simpa using hsame
      omega

end HealthState

end NanoDB.Coordinator
