import NanoDB.Coordinator.Convergence
import NanoDB.Coordinator.Failover
import NanoDB.Coordinator.Rebalance

/-!
# Requests that change the topology

The four proposers of commands: the handlers of {lit}`/admin/shards/add`,
{lit}`/admin/shards/remove` and {lit}`/admin/shards/set_primary`, and
{lit}`health_check_loop`.  Each of them checks its request against the topology of its
own coordinator and then hands a command to Raft; the command is committed later, or
never, and takes effect on each coordinator when that applies it.  Which coordinator
leads is left open: any of them may take a request at any time, so a request may be
checked against a topology that is behind the committed log.

Main results:

- Definition {lit}`AdminPlane.step`: requests, proposals and commits on top of the
  control plane.
- Theorem {lit}`AdminPlane.step_cases`: what each enabled action does.
-/

namespace NanoDB.Coordinator

open Lib

/-! ## The checks of the handlers -/

/-- The checks of the add and the remove handler on the request itself, made before
anything is proposed or moved. -/
def RebalanceRequest.Accepted (req : RebalanceRequest) (co : CoordinatorState) : Prop :=
  match req with
  | add _ replicas => replicas ≠ [] ∧ replicas.any (·.primary) = true
  | remove leavingId => replicasForShard (activeClients co.shards) leavingId ≠ [] ∧
      findPrimary (activeClients co.shards) leavingId ≠ none ∧ 1 < (activeIds co.shards).length

instance (req : RebalanceRequest) (co : CoordinatorState) : Decidable (req.Accepted co) :=
  match req with
  | .add _ replicas =>
      inferInstanceAs (Decidable (replicas ≠ [] ∧ replicas.any (·.primary) = true))
  | .remove leavingId =>
      inferInstanceAs (Decidable (replicasForShard (activeClients co.shards) leavingId ≠ [] ∧
        findPrimary (activeClients co.shards) leavingId ≠ none ∧ 1 < (activeIds co.shards).length))

/-- A request that is carried out was accepted. -/
theorem RebalanceRequest.accepted_of_valid {req : RebalanceRequest} {co : CoordinatorState}
    {epoch : Nat} (h : req.Valid co epoch) : req.Accepted co := by
  cases req with
  | add newId replicas =>
      refine ⟨h.1, ?_⟩
      simpa [List.all_eq_not_any_not] using h.2.1
  | remove leavingId => exact h

/-- The set_primary handler: the replica has to be an active one of the shard. -/
def setPrimaryRequest (co : CoordinatorState) (shardId replicaId : Int) : Option Command :=
  if (replicasForShard (activeClients co.shards) shardId).any (·.replicaId = replicaId) then
    some (.setPrimary shardId replicaId)
  else none

/-! ## The control plane with its proposers -/

/-- A command on its way to the log.  The other fields are ghosts: the index that its
coordinator had applied when it checked the request, and the active shards it saw. -/
structure Proposal where
  command : Command
  seen : Nat
  counted : List Int
deriving DecidableEq, Repr

/-- The control plane with its proposers.  {lit}`busy` holds the add or remove request
that a coordinator is working on; it holds {lit}`rebalancing` meanwhile. -/
structure AdminPlane (ι : Type*) where
  plane : ControlPlane ι
  busy : ι → Option Proposal := fun _ => none
  proposals : List Proposal := []

/-- A request arrives, the handler of an add or a remove calls {lit}`propose` or returns,
a promotion is requested or found necessary, an add whose replica entries lack a field
is proposed, a proposal is committed, or the control plane does something else. -/
inductive AdminAction (ι : Type*) where
  | request (n : ι) (req : RebalanceRequest)
  | propose (n : ι)
  | finish (n : ι)
  | setPrimary (n : ι) (shardId replicaId : Int)
  | healthCheck (n : ι) (shardId : Int) (pingOk : Bool) (stats : ShardClient → Option Nat)
      (failures : Nat)
  | unparsable (n : ι)
  | commit (k : Nat)
  | deliver (n : ι)
  | install (n : ι) (k : Nat)
  | apply (n : ι)
  | compact (n : ι)

namespace AdminPlane

variable {ι : Type*} [DecidableEq ι]

def init (endpoints : List ShardEndpoint) : AdminPlane ι where
  plane := ControlPlane.init endpoints

/-- The topology a coordinator checks requests against. -/
def coord (s : AdminPlane ι) (n : ι) : CoordinatorState :=
  (s.plane.proc n).coord

/-- A command that coordinator {lit}`n` has just checked. -/
def checked (s : AdminPlane ι) (n : ι) (cmd : Command) : Proposal :=
  ⟨cmd, (s.coord n).appliedIndex, activeIds (s.coord n).shards⟩

/-- Hand a command to Raft, if there is one. -/
def offer (s : AdminPlane ι) (n : ι) (cmd : Option Command) : AdminPlane ι :=
  { s with proposals := (cmd.map (s.checked n)).toList ++ s.proposals }

/-- Replace what a coordinator is working on. -/
def setBusy (s : AdminPlane ι) (n : ι) (p : Option Proposal) : AdminPlane ι :=
  { s with busy := Function.update s.busy n p }

/-- An action of the control plane itself. -/
def planeStep (s : AdminPlane ι) (a : PlaneAction ι) : Option (AdminPlane ι) :=
  (s.plane.step a).map fun plane => { s with plane := plane }

/-- The transition function; {lean}`none` when the action is not enabled. -/
def step (s : AdminPlane ι) : AdminAction ι → Option (AdminPlane ι)
  | .request n req =>
      match s.busy n with
      | some _ => none
      | none =>
          if req.Accepted (s.coord n) then
            some (s.setBusy n (some (s.checked n req.command)))
          else some s
  | .propose n =>
      match s.busy n with
      | none => none
      | some p => some { s with proposals := p :: s.proposals }
  | .finish n => some (s.setBusy n none)
  | .setPrimary n shardId replicaId =>
      some (s.offer n (setPrimaryRequest (s.coord n) shardId replicaId))
  | .healthCheck n shardId pingOk stats failures =>
      some (s.offer n
        (healthCheck (activeClients (s.coord n).shards) shardId pingOk stats failures).2)
  | .unparsable n => some (s.offer n (some .malformed))
  | .commit k =>
      match s.proposals[k]? with
      | none => none
      | some p => s.planeStep (.commit p.command)
  | .deliver n => s.planeStep (.deliver n)
  | .install n k => s.planeStep (.install n k)
  | .apply n => s.planeStep (.apply n)
  | .compact n => s.planeStep (.compact n)

/-! ## What an action does -/

/-- The proposal is being worked on or has been handed to Raft. -/
def InFlight (s : AdminPlane ι) (p : Proposal) : Prop :=
  (∃ n, s.busy n = some p) ∨ p ∈ s.proposals

end AdminPlane

/-- What the proposers check before they propose a command. -/
def Command.CheckedOn (co : CoordinatorState) : Command → Prop
  | .addShard shardId replicas => (RebalanceRequest.add shardId replicas).Accepted co
  | .removeShard shardId => (RebalanceRequest.remove shardId).Accepted co
  | .setPrimary shardId replicaId =>
      ∃ sc ∈ activeClients co.shards, sc.shardId = shardId ∧ sc.replicaId = replicaId
  | .malformed => True

/-- Adds and removes come from requests only. -/
def Command.AskedFor {ι : Type*} (a : AdminAction ι) (n : ι) : Command → Prop
  | .addShard shardId replicas => a = .request n (.add shardId replicas)
  | .removeShard shardId => a = .request n (.remove shardId)
  | _ => True

theorem checkedOn_setPrimaryRequest {co : CoordinatorState} {shardId replicaId : Int}
    {cmd : Command} (h : setPrimaryRequest co shardId replicaId = some cmd) :
    cmd = .setPrimary shardId replicaId ∧ cmd.CheckedOn co := by
  unfold setPrimaryRequest at h
  split_ifs at h with hany
  cases h
  rcases List.any_eq_true.mp hany with ⟨sc, hsc, hid⟩
  rcases mem_replicasForShard.mp hsc with ⟨hmem, hshard⟩
  exact ⟨rfl, sc, hmem, hshard, by simpa using hid⟩

/-- The health check promotes a replica of the topology it looked at. -/
theorem checkedOn_healthCheck {co : CoordinatorState} {shardId : Int} {pingOk : Bool}
    {stats : ShardClient → Option Nat} {failures : Nat} {cmd : Command}
    (h : (healthCheck (activeClients co.shards) shardId pingOk stats failures).2 = some cmd) :
    (∃ replicaId, cmd = .setPrimary shardId replicaId) ∧ cmd.CheckedOn co := by
  rw [healthCheck] at h
  split at h
  · cases h
  rename_i primary hprimary
  split at h
  · cases h
  split at h
  · cases h
  split at h
  · cases h
  rename_i candidate count hchosen
  cases h
  have hbest := isBest_chooseCandidate stats primary
    (replicasForShard (activeClients co.shards) shardId)
  rw [hchosen] at hbest
  rcases mem_replicasForShard.mp hbest.1 with ⟨hmem, hshard⟩
  exact ⟨⟨candidate.replicaId, rfl⟩, candidate, hmem, hshard, rfl⟩

namespace AdminPlane

variable {ι : Type*} [DecidableEq ι] {s s' : AdminPlane ι} {a : AdminAction ι}

omit [DecidableEq ι] in
/-- The proposals after a proposer has offered a command. -/
theorem inFlight_offer {n : ι} {cmd : Option Command} {p : Proposal}
    (h : (s.offer n cmd).InFlight p) : s.InFlight p ∨ ∃ c, cmd = some c ∧ p = s.checked n c := by
  rcases h with hbusy | hmem
  · exact .inl (.inl hbusy)
  · simp only [offer, List.mem_append, Option.mem_toList, Option.map_eq_some_iff] at hmem
    rcases hmem with ⟨c, hc, rfl⟩ | hmem
    · exact .inr ⟨c, hc, rfl⟩
    · exact .inl (.inr hmem)

theorem inFlight_setBusy {n : ι} {q : Option Proposal} {p : Proposal}
    (h : (s.setBusy n q).InFlight p) : s.InFlight p ∨ q = some p := by
  rcases h with ⟨m, hm⟩ | hp
  · by_cases hmn : m = n
    · subst hmn
      simp only [setBusy, Function.update_self] at hm
      exact .inr hm
    · simp only [setBusy, Function.update_of_ne hmn] at hm
      exact .inl (.inl ⟨m, hm⟩)
  · exact .inl (.inr hp)

/-- An action checks a request and leaves the control plane alone, or commits a proposal,
or is an action of the control plane other than a commit. -/
theorem step_cases (h : s.step a = some s') :
    (s'.plane = s.plane ∧ ∀ p, s'.InFlight p → s.InFlight p ∨
        ∃ n cmd, p = s.checked n cmd ∧ cmd.CheckedOn (s.coord n) ∧ cmd.AskedFor a n) ∨
      (∃ k p, a = .commit k ∧ s.proposals[k]? = some p ∧
        s' = { s with plane := { s.plane with log := s.plane.log ++ [p.command] } }) ∨
      (∃ pa plane, (∀ cmd, pa ≠ .commit cmd) ∧ s.plane.step pa = some plane ∧
        s' = { s with plane := plane }) := by
  have hplane : ∀ pa, (∀ cmd, pa ≠ .commit cmd) → s.planeStep pa = some s' →
      ∃ pa plane, (∀ cmd, pa ≠ .commit cmd) ∧ s.plane.step pa = some plane ∧
        s' = { s with plane := plane } := by
    intro pa hpa hstep
    rcases Option.map_eq_some_iff.mp hstep with ⟨plane, hplane, rfl⟩
    exact ⟨pa, plane, hpa, hplane, rfl⟩
  cases a with
  | request n req =>
      left
      simp only [step] at h
      split at h
      · cases h
      split_ifs at h with haccepted
      · cases h
        refine ⟨rfl, fun p hp => (inFlight_setBusy hp).imp_right ?_⟩
        intro hnew
        cases hnew
        cases req with
        | add newId replicas => exact ⟨n, _, rfl, haccepted, rfl⟩
        | remove leavingId => exact ⟨n, _, rfl, haccepted, rfl⟩
      · cases h
        exact ⟨rfl, fun p hp => .inl hp⟩
  | propose n =>
      left
      simp only [step] at h
      split at h
      · cases h
      rename_i q hq
      cases h
      refine ⟨rfl, fun p hp => ?_⟩
      rcases hp with hbusy | hp
      · exact .inl (.inl hbusy)
      · rcases List.mem_cons.mp hp with rfl | hp
        · exact .inl (.inl ⟨n, hq⟩)
        · exact .inl (.inr hp)
  | finish n =>
      left
      cases h
      refine ⟨rfl, fun p hp => (inFlight_setBusy hp).imp_right ?_⟩
      intro hnew
      cases hnew
  | setPrimary n shardId replicaId =>
      left
      cases h
      refine ⟨rfl, fun p hp => (inFlight_offer hp).imp_right ?_⟩
      rintro ⟨c, hc, rfl⟩
      rcases checkedOn_setPrimaryRequest hc with ⟨rfl, hchecked⟩
      exact ⟨n, _, rfl, hchecked, trivial⟩
  | healthCheck n shardId pingOk stats failures =>
      left
      cases h
      refine ⟨rfl, fun p hp => (inFlight_offer hp).imp_right ?_⟩
      rintro ⟨c, hc, rfl⟩
      rcases checkedOn_healthCheck hc with ⟨⟨replicaId, rfl⟩, hchecked⟩
      exact ⟨n, _, rfl, hchecked, trivial⟩
  | unparsable n =>
      left
      cases h
      refine ⟨rfl, fun p hp => (inFlight_offer hp).imp_right ?_⟩
      rintro ⟨c, hc, rfl⟩
      cases hc
      exact ⟨n, _, rfl, trivial, trivial⟩
  | commit k =>
      right
      left
      simp only [step] at h
      split at h
      · cases h
      rename_i p hp
      cases h
      exact ⟨k, p, rfl, hp, rfl⟩
  | deliver n => exact .inr (.inr (hplane (.deliver n) (fun _ => by simp) h))
  | install n k => exact .inr (.inr (hplane (.install n k) (fun _ => by simp) h))
  | apply n => exact .inr (.inr (hplane (.apply n) (fun _ => by simp) h))
  | compact n => exact .inr (.inr (hplane (.compact n) (fun _ => by simp) h))

end AdminPlane

end NanoDB.Coordinator
