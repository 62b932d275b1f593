import NanoDB.Coordinator.ApplyLoop

/-!
# Topology as a function of the committed log

Several coordinators apply one committed log, each at its own pace, by replay and by
snapshots of each other.  The existence test of {lit}`add_shard` also counts removed
replicas, which a snapshot does not carry: a coordinator that replayed the addition
and removal of a shard ignores a second addition, one that loaded a snapshot taken
in between performs it.

Main results:

- Theorem {lit}`Tracks.applyCommand`: one command takes a coordinator that tracks the
  replayed log one index further.
- Theorem {lit}`PlaneInv.step`: orderly transitions keep every coordinator on track.
- Theorem {lit}`topology_of_log`: in orderly runs, coordinators that have applied the
  log up to the same index have the same active replicas and route alike.
- Theorem {lit}`topology_diverges`: adding a removed shard again makes a replayed and
  a loaded topology differ.
-/

namespace NanoDB.Coordinator

open Lib

/-! ## The control plane -/

/-- One coordinator with its Raft node.  {lit}`pending` holds the arguments of a call
of {lit}`compact` that {lit}`apply_pending_raft_commands` is about to make; no other
call of it can start meanwhile. -/
structure Process where
  coord : CoordinatorState
  node : TopologyLog := {}
  pending : Option (Nat × Snapshot) := none

/-- The committed log, the coordinators, and all snapshots that compactions have
produced. -/
structure ControlPlane (ι : Type*) where
  log : List Command := []
  proc : ι → Process
  produced : List (Nat × Snapshot) := []

/-- A command is committed, a node applies the next committed command, a produced
snapshot arrives, {lit}`apply_pending_raft_commands` runs up to its compaction, and
the compaction itself. -/
inductive PlaneAction (ι : Type*) where
  | commit (cmd : Command)
  | deliver (n : ι)
  | install (n : ι) (k : Nat)
  | apply (n : ι)
  | compact (n : ι)

namespace ControlPlane

variable {ι : Type*} [DecidableEq ι]

/-- Every coordinator starts on the same config file and an empty log. -/
def init (endpoints : List ShardEndpoint) : ControlPlane ι where
  proc _ := { coord := CoordinatorState.boot endpoints 0 }

/-- Replace one process. -/
def setProc (s : ControlPlane ι) (n : ι) (p : Process) : ControlPlane ι :=
  { s with proc := Function.update s.proc n p }

/-- The transition function; {lean}`none` when the action is not enabled. -/
def step (s : ControlPlane ι) : PlaneAction ι → Option (ControlPlane ι)
  | .commit cmd => some { s with log := s.log ++ [cmd] }
  | .deliver n =>
      match s.log[(s.proc n).node.lastApplied]? with
      | none => none
      | some cmd => some (s.setProc n { s.proc n with node := (s.proc n).node.applyNext cmd })
  | .install n k =>
      match s.produced[k]? with
      | none => none
      | some (index, snap) =>
          some (s.setProc n
            { s.proc n with node := (s.proc n).node.installSnapshot index (some snap) })
  | .apply n =>
      match (s.proc n).pending with
      | some _ => none
      | none =>
          let (coord, pending) := (s.proc n).coord.applyPending (s.proc n).node
          some (s.setProc n { s.proc n with coord := coord, pending := pending })
  | .compact n =>
      match (s.proc n).pending with
      | none => none
      | some (upToIndex, snap) =>
          let (node, ok) := (s.proc n).node.compact upToIndex (some snap)
          if ok then
            some
              { s.setProc n
                  { coord := { (s.proc n).coord with localAppliedCount := 0 }, node := node } with
                produced := (upToIndex, snap) :: s.produced }
          else some (s.setProc n { s.proc n with pending := none })

/-- What an enabled action does. -/
theorem step_cases {s s' : ControlPlane ι} {a : PlaneAction ι} (h : s.step a = some s') :
    match a with
    | .commit cmd => s' = { s with log := s.log ++ [cmd] }
    | .deliver n => ∃ cmd, s.log[(s.proc n).node.lastApplied]? = some cmd ∧
        s' = s.setProc n { s.proc n with node := (s.proc n).node.applyNext cmd }
    | .install n k => ∃ index snap, s.produced[k]? = some (index, snap) ∧
        s' = s.setProc n
          { s.proc n with node := (s.proc n).node.installSnapshot index (some snap) }
    | .apply n =>
        s' = s.setProc n
          { s.proc n with
            coord := ((s.proc n).coord.applyPending (s.proc n).node).1
            pending := ((s.proc n).coord.applyPending (s.proc n).node).2 }
    | .compact n => ∃ upToIndex snap, (s.proc n).pending = some (upToIndex, snap) ∧
        (((s.proc n).node.compact upToIndex (some snap)).2 = true ∧
            s' = { s.setProc n
                { coord := { (s.proc n).coord with localAppliedCount := 0 }
                  node := ((s.proc n).node.compact upToIndex (some snap)).1 } with
              produced := (upToIndex, snap) :: s.produced } ∨
          s' = s.setProc n { s.proc n with pending := none }) := by
  cases a with
  | commit cmd =>
      cases h
      rfl
  | deliver n =>
      simp only [step] at h
      split at h
      · cases h
      · rename_i cmd hcmd
        cases h
        exact ⟨cmd, hcmd, rfl⟩
  | install n k =>
      simp only [step] at h
      split at h
      · cases h
      · rename_i index snap hk
        cases h
        exact ⟨index, snap, hk, rfl⟩
  | apply n =>
      simp only [step] at h
      split at h
      · cases h
      · cases h
        rfl
  | compact n =>
      simp only [step] at h
      split at h
      · cases h
      · rename_i upToIndex snap hpending
        refine ⟨upToIndex, snap, hpending, ?_⟩
        split_ifs at h with hdone
        · cases h
          exact .inl ⟨hdone, rfl⟩
        · cases h
          exact .inr rfl

/-- Only a commit changes the log. -/
theorem step_log {s s' : ControlPlane ι} {a : PlaneAction ι} (hnot : ∀ cmd, a ≠ .commit cmd)
    (h : s.step a = some s') : s'.log = s.log := by
  have hcases := step_cases h
  cases a with
  | commit cmd => exact absurd rfl (hnot cmd)
  | deliver n =>
      rcases hcases with ⟨cmd, -, rfl⟩
      rfl
  | install n k =>
      rcases hcases with ⟨index, snap, -, rfl⟩
      rfl
  | apply n =>
      dsimp only at hcases
      subst hcases
      rfl
  | compact n =>
      rcases hcases with ⟨upToIndex, snap, -, ⟨-, rfl⟩ | rfl⟩
      · rfl
      · rfl

end ControlPlane

/-! ## The replayed log -/

/-- The clients of a coordinator that starts on the config file and applies every
command of the log. -/
def replay (endpoints : List ShardEndpoint) (log : List Command) : List ShardClient :=
  applyFrom 0 (endpoints.map ofEndpoint) log

theorem replay_succ (endpoints : List ShardEndpoint) (log : List Command) {i : Nat} {cmd : Command}
    (h : log[i]? = some cmd) :
    replay endpoints (log.take (i + 1)) =
      applyCommand (replay endpoints (log.take i)) (i + 1) cmd := by
  have hlt : i < log.length := (List.getElem?_eq_some_iff.mp h).1
  have htake : log.take (i + 1) = log.take i ++ [cmd] := by
    rw [List.take_add_one, h]
    rfl
  rw [replay, htake, applyFrom_append, List.length_take, min_eq_left hlt.le, Nat.zero_add]
  rfl

/-- Replaying more makes more shard ids known. -/
theorem known_replay_mono (endpoints : List ShardEndpoint) (log : List Command) {i j : Nat}
    (hij : i ≤ j) {shardId : Int} (h : known (replay endpoints (log.take i)) shardId = true) :
    known (replay endpoints (log.take j)) shardId = true := by
  induction j, hij using Nat.le_induction with
  | base => exact h
  | succ j _ ih =>
      cases hget : log[j]? with
      | none =>
          have hlen := List.getElem?_eq_none_iff.mp hget
          rwa [List.take_of_length_le (by omega), ← List.take_of_length_le hlen]
      | some cmd =>
          rw [replay_succ endpoints log hget]
          exact (known_applyCommand _ _ _ _).mpr (.inl ih)

/-- Whether a command adds a shard that an earlier command added and that has been
removed since. -/
def readdsShard (endpoints : List ShardEndpoint) (log : List Command) : Command → Bool
  | .addShard shardId replicas =>
      !replicas.isEmpty && known (replay endpoints log) shardId &&
        !known (activeClients (replay endpoints log)) shardId &&
        !known (endpoints.map ofEndpoint) shardId
  | _ => false

/-- Whether the coordinator is about to load a snapshot from before the index it has
applied, and a shard was added in between. -/
def losesAddedShard (endpoints : List ShardEndpoint) (log : List Command) (p : Process) : Bool :=
  decide (p.coord.snapshotAppliedIndex < p.node.snapshotLastIndex) &&
    decide (p.node.snapshotLastIndex < p.coord.appliedIndex) &&
    (replay endpoints (log.take p.coord.appliedIndex)).any fun sc =>
      !known (replay endpoints (log.take p.node.snapshotLastIndex)) sc.shardId

/-- The side condition: no removed shard is added again, and no snapshot that is
loaded is from before the addition of a shard that the coordinator has applied. -/
def Orderly {ι : Type*} (endpoints : List ShardEndpoint) (s : ControlPlane ι) :
    PlaneAction ι → Prop
  | .commit cmd => readdsShard endpoints s.log cmd = false
  | .apply n => losesAddedShard endpoints s.log (s.proc n) = false
  | _ => True

/-- A log in which no removed shard is added again. -/
def NoReadd (endpoints : List ShardEndpoint) (log : List Command) : Prop :=
  ∀ i cmd, log[i]? = some cmd → readdsShard endpoints (log.take i) cmd = false

/-! ## A coordinator on track -/

/-- The clients have the active replicas of the replayed log, know the shards of the
config file and know no shard that the replayed log does not know. -/
structure Tracks (endpoints : List ShardEndpoint) (log : List Command) (i : Nat)
    (shards : List ShardClient) : Prop where
  active : activeClients shards = activeClients (replay endpoints (log.take i))
  knowsInit : ∀ shardId, known (endpoints.map ofEndpoint) shardId = true →
    known shards shardId = true
  knows : ∀ shardId, known shards shardId = true →
    known (replay endpoints (log.take i)) shardId = true

namespace Tracks

variable {endpoints : List ShardEndpoint} {log : List Command} {i : Nat} {shards : List ShardClient}

/-- The existence test of an {lit}`add_shard` gives what it gives in the replayed
log: a shard that only the replay knows would be a removed one. -/
theorem known_eq (htracks : Tracks endpoints log i shards) {shardId : Int}
    {replicas : List ReplicaSpec}
    (hfresh : readdsShard endpoints (log.take i) (.addShard shardId replicas) = false)
    (hne : replicas ≠ []) :
    known shards shardId = known (replay endpoints (log.take i)) shardId := by
  rw [Bool.eq_iff_iff]
  refine ⟨htracks.knows shardId, fun hreplay => ?_⟩
  by_cases hactive : known (activeClients (replay endpoints (log.take i))) shardId = true
  · rw [← htracks.active] at hactive
    exact known_of_active hactive
  · by_cases hinit : known (endpoints.map ofEndpoint) shardId = true
    · exact htracks.knowsInit shardId hinit
    · simp [readdsShard, hne, hreplay, hactive, hinit] at hfresh

/-- One command of the log. -/
theorem applyCommand (htracks : Tracks endpoints log i shards) {cmd : Command}
    (hcmd : log[i]? = some cmd) (hfresh : readdsShard endpoints (log.take i) cmd = false) :
    Tracks endpoints log (i + 1) (applyCommand shards (i + 1) cmd) where
  active := by
    rw [replay_succ endpoints log hcmd]
    apply active_applyCommand htracks.active
    rintro shardId replicas rfl hne
    exact htracks.known_eq hfresh hne
  knowsInit shardId h := (known_applyCommand _ _ _ _).mpr (.inl (htracks.knowsInit shardId h))
  knows shardId h := by
    rw [replay_succ endpoints log hcmd]
    rw [known_applyCommand] at h ⊢
    exact h.imp_left (htracks.knows shardId)

/-- Only the first part of the log matters. -/
theorem append (htracks : Tracks endpoints log i shards) (hi : i ≤ log.length)
    (cmds : List Command) : Tracks endpoints (log ++ cmds) i shards := by
  have htake : (log ++ cmds).take i = log.take i := List.take_append_of_le_length hi
  exact ⟨htake ▸ htracks.active, htracks.knowsInit, htake ▸ htracks.knows⟩

/-- A loaded snapshot of the index {lit}`j`: what was known before stays known, so
nothing may have been added between {lit}`j` and the index applied so far. -/
theorem loadSnapshot (htracks : Tracks endpoints log i shards) {j : Nat}
    (hback : j < i → ∀ sc ∈ replay endpoints (log.take i),
      known (replay endpoints (log.take j)) sc.shardId = true) :
    Tracks endpoints log j
      (loadSnapshot shards (serializeSnapshot (replay endpoints (log.take j)))) where
  active := active_loadSnapshot _ _
  knowsInit shardId h := by
    rw [known_loadSnapshot, htracks.knowsInit shardId h]
    rfl
  knows shardId h := by
    rw [known_loadSnapshot, Bool.or_eq_true] at h
    rcases h with h | h
    · have hold := htracks.knows shardId h
      rcases Nat.lt_or_ge j i with hlt | hge
      · obtain ⟨sc, hsc, rfl⟩ := known_eq_true_iff.mp hold
        exact hback hlt sc hsc
      · exact known_replay_mono endpoints log hge hold
    · exact known_of_active h

/-- A coordinator on track serializes the snapshot of the replayed log. -/
theorem serializeSnapshot_eq (htracks : Tracks endpoints log i shards) :
    serializeSnapshot shards = serializeSnapshot (replay endpoints (log.take i)) := by
  rw [serializeSnapshot, serializeSnapshot, htracks.active]

/-- The ring of a coordinator on track. -/
theorem buildRing_eq (htracks : Tracks endpoints log i shards) :
    buildRing shards = buildRing (replay endpoints (log.take i)) := by
  rw [buildRing, buildRing, activeIds, activeIds, htracks.active]

end Tracks

/-! ## The invariant of the control plane -/

/-- A snapshot is what the replayed log serializes to at its index. -/
def SnapshotOk (endpoints : List ShardEndpoint) (log : List Command) (index : Nat)
    (snap : Snapshot) : Prop :=
  index ≤ log.length ∧ snap = serializeSnapshot (replay endpoints (log.take index))

theorem SnapshotOk.append {endpoints : List ShardEndpoint} {log : List Command} {index : Nat}
    {snap : Snapshot} (h : SnapshotOk endpoints log index snap) (cmds : List Command) :
    SnapshotOk endpoints (log ++ cmds) index snap := by
  refine ⟨h.1.trans (by simp), ?_⟩
  rw [List.take_append_of_le_length h.1]
  exact h.2

/-- The invariant of one process. -/
structure ProcessInv (endpoints : List ShardEndpoint) (log : List Command)
    (p : Process) : Prop where
  node : NodeInv (SnapshotOk endpoints log) 0 log p.node
  coord : CoordInv (Tracks endpoints log) 0 log p.node p.coord
  pending : ∀ upToIndex snap, p.pending = some (upToIndex, snap) →
    SnapshotOk endpoints log upToIndex snap

/-- The invariant of the control plane. -/
structure PlaneInv {ι : Type*} (endpoints : List ShardEndpoint) (s : ControlPlane ι) : Prop where
  log : NoReadd endpoints s.log
  proc : ∀ n, ProcessInv endpoints s.log (s.proc n)
  produced : ∀ index snap, (index, snap) ∈ s.produced → SnapshotOk endpoints s.log index snap

namespace PlaneInv

variable {ι : Type*} [DecidableEq ι] {endpoints : List ShardEndpoint} {s s' : ControlPlane ι}

omit [DecidableEq ι] in
theorem init (endpoints : List ShardEndpoint) :
    PlaneInv endpoints (ControlPlane.init endpoints : ControlPlane ι) where
  log i cmd h := by simp [ControlPlane.init] at h
  proc _ :=
    { node := ⟨le_rfl, le_rfl, le_rfl, rfl, fun h => absurd h (lt_irrefl 0)⟩
      coord := ⟨le_rfl, le_rfl, fun _ => ⟨rfl, le_rfl⟩, le_rfl,
        ⟨rfl, fun _ h => h, fun _ h => h⟩, rfl⟩
      pending := fun _ _ h => by simp [ControlPlane.init] at h }
  produced _ _ h := absurd h List.not_mem_nil

/-- Replacing one process. -/
theorem of_setProc (hinv : PlaneInv endpoints s) {n : ι} {p : Process}
    (hp : ProcessInv endpoints s.log p) : PlaneInv endpoints (s.setProc n p) where
  log := hinv.log
  proc m := by
    by_cases hm : m = n
    · subst hm
      simpa [ControlPlane.setProc] using hp
    · simpa [ControlPlane.setProc, hm] using hinv.proc m
  produced := hinv.produced

/-- **Step lemma.**  Orderly transitions keep every coordinator on track. -/
theorem step (hinv : PlaneInv endpoints s) {a : PlaneAction ι} (hok : Orderly endpoints s a)
    (hstep : s.step a = some s') : PlaneInv endpoints s' := by
  have hcases := ControlPlane.step_cases hstep
  cases a with
  | commit cmd =>
      dsimp only at hcases
      subst hcases
      refine ⟨fun i c hc => ?_, fun n => ?_, fun index snap h => (hinv.produced _ _ h).append _⟩
      · rcases Nat.lt_or_ge i s.log.length with hlt | hge
        · rw [List.take_append_of_le_length hlt.le]
          rw [List.getElem?_append_left hlt] at hc
          exact hinv.log i c hc
        · have hi : i = s.log.length := by
            have := (List.getElem?_eq_some_iff.mp hc).1
            simp only [List.length_append, List.length_singleton] at this
            omega
          subst hi
          simp only [List.getElem?_concat_length, Option.some.injEq] at hc
          subst hc
          simpa [List.take_append_of_le_length, Orderly] using hok
      · have hp := hinv.proc n
        exact ⟨hp.node.append _ fun _ _ h => h.append _,
          hp.coord.append _ fun _ _ hle htracks => htracks.append hle _,
          fun u sn h => (hp.pending u sn h).append _⟩
  | deliver n =>
      rcases hcases with ⟨cmd, hcmd, rfl⟩
      have hp := hinv.proc n
      refine hinv.of_setProc ⟨hp.node.applyNext hcmd, hp.coord.of_node (.inr ⟨rfl, ?_⟩), hp.pending⟩
      simp [AppliedLog.applyNext]
  | install n k =>
      rcases hcases with ⟨index, snap, hk, rfl⟩
      have hp := hinv.proc n
      have hsnap := hinv.produced index snap (List.mem_of_getElem? hk)
      refine hinv.of_setProc ⟨hp.node.installSnapshot hsnap.1 hsnap, hp.coord.of_node ?_,
        hp.pending⟩
      dsimp only [AppliedLog.installSnapshot]
      split_ifs with hold
      · exact .inr ⟨rfl, le_rfl⟩
      · exact .inl (Nat.lt_of_not_le hold)
  | apply n =>
      dsimp only at hcases
      subst hcases
      have hp := hinv.proc n
      have hload : (s.proc n).node.snapshotLastIndex > (s.proc n).coord.snapshotAppliedIndex →
          ∀ snap, SnapshotOk endpoints s.log (s.proc n).node.snapshotLastIndex snap →
          Tracks endpoints s.log (s.proc n).node.snapshotLastIndex
            (loadSnapshot (s.proc n).coord.shards snap) := by
        rintro hnew snap ⟨-, rfl⟩
        refine hp.coord.tracks.loadSnapshot fun hlt sc hsc => ?_
        simp only [Orderly, losesAddedShard, gt_iff_lt.mp hnew, hlt, decide_true,
          Bool.true_and, List.any_eq_false] at hok
        simpa using hok sc hsc
      obtain ⟨hcoord, -, -, hpending⟩ := hp.coord.applyPending hp.node
        (fun i cmd shards hcmd htracks => htracks.applyCommand hcmd (hinv.log i cmd hcmd)) hload
        (fun i shards hle htracks => ⟨hle, htracks.serializeSnapshot_eq⟩)
      exact hinv.of_setProc ⟨hp.node, hcoord, fun u sn h => (hpending u sn h).2⟩
  | compact n =>
      rcases hcases with ⟨upToIndex, snap, hpending, hdone⟩
      have hp := hinv.proc n
      have hsnap := hp.pending upToIndex snap hpending
      rcases hdone with ⟨hdone, rfl⟩ | rfl
      · rcases AppliedLog.compact_done hdone with ⟨hnewer, hat⟩
        have hset := hinv.of_setProc (n := n)
          (⟨hp.node.compact hsnap, hp.coord.of_compact (hnewer.trans_eq hat.symm),
            fun _ _ h => by simp at h⟩ :
            ProcessInv endpoints s.log { coord := _, node := _, pending := none })
        refine ⟨hset.log, hset.proc, fun index sn h => ?_⟩
        simp only [List.mem_cons, Prod.mk.injEq] at h
        rcases h with ⟨rfl, rfl⟩ | h
        · exact hsnap
        · exact hinv.produced index sn h
      · exact hinv.of_setProc ⟨hp.node, hp.coord, fun _ _ h => by simp at h⟩

/-- The log only grows. -/
theorem log_isPrefix {a : PlaneAction ι} (hstep : s.step a = some s') : s.log <+: s'.log := by
  by_cases hcommit : ∃ cmd, a = .commit cmd
  · rcases hcommit with ⟨cmd, rfl⟩
    have hcases := ControlPlane.step_cases hstep
    dsimp only at hcases
    subst hcases
    exact List.prefix_append _ _
  · have hlog := ControlPlane.step_log (fun cmd heq => hcommit ⟨cmd, heq⟩) hstep
    simp only [hlog, List.prefix_rfl]

end PlaneInv

/-! ## Convergence -/

/-- The same active replicas, with their primaries and epochs, and the same routes. -/
def SameTopology (co co' : CoordinatorState) : Prop :=
  activeClients co.shards = activeClients co'.shards ∧
    ∀ key, co.ring.route key = co'.ring.route key

/-- **Topology is a function of the log.**  In every run in which no removed shard is
added again and no snapshot from before an applied addition is loaded, coordinators
that have applied the log up to the same index, at one time or at different times,
have the same topology. -/
theorem topology_of_log {ι : Type*} [DecidableEq ι] (endpoints : List ShardEndpoint)
    {as as' : List (PlaneAction ι)} {s s' : ControlPlane ι}
    (hrun : Exec ControlPlane.step (Orderly endpoints) (ControlPlane.init endpoints) as s)
    (hrun' : Exec ControlPlane.step (Orderly endpoints) s as' s') (n m : ι)
    (hindex : (s.proc n).coord.appliedIndex = (s'.proc m).coord.appliedIndex) :
    SameTopology (s.proc n).coord (s'.proc m).coord := by
  have hpres : ∀ (t : ControlPlane ι) (a : PlaneAction ι) (t' : ControlPlane ι),
      PlaneInv endpoints t → Orderly endpoints t a → t.step a = some t' → PlaneInv endpoints t' :=
    fun _ _ _ hinv hok hstep => hinv.step hok hstep
  have hinv := hrun.invariant (PlaneInv endpoints) hpres (PlaneInv.init endpoints)
  have hinv' := hrun'.invariant (PlaneInv endpoints) hpres hinv
  have hlog : s.log <+: s'.log := by
    refine hrun'.relation (fun _ => True) (fun t t' => t.log <+: t'.log) (fun _ => List.prefix_rfl)
      (fun _ _ _ => List.IsPrefix.trans) (fun _ _ _ _ _ _ => trivial) ?_ trivial
    exact fun _ _ _ _ _ hstep => PlaneInv.log_isPrefix hstep
  obtain ⟨more, hmore⟩ := hlog
  have htracks := (hinv.proc n).coord.tracks.append (hinv.proc n).coord.index_le more
  have htracks' := (hinv'.proc m).coord.tracks
  rw [hmore, hindex] at htracks
  refine ⟨htracks.active.trans htracks'.active.symm, fun key => ?_⟩
  rw [(hinv.proc n).coord.ring, (hinv'.proc m).coord.ring, htracks.buildRing_eq,
    htracks'.buildRing_eq]

/-- One shard with one replica. -/
def oneShard : List ShardEndpoint :=
  [⟨0, 0, [97], 9090, true⟩]

/-- Node 0 applies 64 commands, the first of which add and remove shard 1, and
compacts; node 1 gets the snapshot. -/
def snapshotAfterRemoval : List (PlaneAction (Fin 2)) :=
  [.commit (.addShard 1 [⟨0, [98], 9090, true⟩]), .commit (.removeShard 1)] ++
    List.replicate 62 (.commit (.setPrimary 0 0)) ++ List.replicate 64 (.deliver 0) ++
    [.apply 0, .compact 0, .install 1 0, .apply 1]

instance (endpoints : List ShardEndpoint) (s : ControlPlane (Fin 2)) (a : PlaneAction (Fin 2)) :
    Decidable (Orderly endpoints s a) := by
  unfold Orderly
  split <;> infer_instance

theorem topology_of_log_snapshotAfterRemoval :
    ∃ s, Exec ControlPlane.step (Orderly oneShard) (ControlPlane.init oneShard)
        snapshotAfterRemoval s ∧
      (s.proc 0).coord.appliedIndex = 64 ∧ SameTopology (s.proc 0).coord (s.proc 1).coord := by
  have hrun := Exec.of_guardedRun ControlPlane.step (Orderly oneShard)
    (ControlPlane.init oneShard : ControlPlane (Fin 2)) snapshotAfterRemoval (by decide +kernel)
  refine ⟨_, hrun, by decide +kernel, ?_⟩
  exact topology_of_log oneShard hrun (.nil _) 0 1 (by decide +kernel)

/-- Shard 1 is added again, and both coordinators apply it. -/
def addAgain : List (PlaneAction (Fin 2)) :=
  snapshotAfterRemoval ++ [.commit (.addShard 1 [⟨0, [98], 9090, true⟩]), .deliver 0, .deliver 1,
    .apply 0, .apply 1]

/-- Two coordinators can differ at the same index. -/
theorem topology_diverges :
    ∃ s, Exec ControlPlane.step (fun _ _ => True) (ControlPlane.init oneShard) addAgain s ∧
      (s.proc 0).coord.appliedIndex = (s.proc 1).coord.appliedIndex ∧
      ¬ SameTopology (s.proc 0).coord (s.proc 1).coord := by
  have hrun := Exec.of_guardedRun ControlPlane.step (fun _ _ => True)
    (ControlPlane.init oneShard : ControlPlane (Fin 2)) addAgain (by decide +kernel)
  refine ⟨_, hrun, by decide +kernel, fun hsame => ?_⟩
  have hlen := congrArg List.length hsame.1
  revert hlen
  decide +kernel

end NanoDB.Coordinator
