import NanoDB.Coordinator.Convergence

/-!
# Restarting a coordinator

At startup a coordinator reads its topology from the config file, opens its Raft node
and sets the snapshot cursor to the node's snapshot index.  It then applies the
commands after the snapshot to whatever the config file said; the snapshot itself is
never loaded, and the config file has no epochs.

Main results:

- Theorem {lit}`SoloInv.step`: a coordinator that gets no foreign snapshots replays the
  log onto the clients it started with.
- Theorem {lit}`restart_transparent_iff`: a restart goes unnoticed, whatever is
  committed after the snapshot, exactly when the config file still is the original one
  and no command the snapshot covers changed the topology.
- Theorem {lit}`restart_loses_shard`: a shard added before the snapshot is gone after a
  restart on the original config file.
-/

namespace NanoDB.Coordinator

open Lib
open Raft (Bytes RaftNode)

/-- Stop a coordinator and start it again on a config file.  The node keeps its
snapshot; the commands after it are applied again. -/
def Process.restart (p : Process) (endpoints : List ShardEndpoint) : Process where
  coord := CoordinatorState.boot endpoints p.node.snapshotLastIndex
  node :=
    { snapshotLastIndex := p.node.snapshotLastIndex
      snapshotData := p.node.snapshotData
      lastApplied := p.node.snapshotLastIndex }

/-- The node of a restarted process is the applied part of a restarted Raft node. -/
theorem appliedLog_restart {γ δ : Type*} (parse : Bytes → γ) (parseData : Bytes → Option δ)
    (node : RaftNode) (state : Raft.PersistentState) :
    appliedLog parse parseData (node.restart state) =
      { snapshotLastIndex := (appliedLog parse parseData node).snapshotLastIndex
        snapshotData := (appliedLog parse parseData node).snapshotData
        lastApplied := (appliedLog parse parseData node).snapshotLastIndex } :=
  rfl

/-! ## A coordinator on its own -/

/-- No snapshot arrives from another coordinator. -/
def Alone {ι : Type*} (_ : ControlPlane ι) : PlaneAction ι → Prop
  | .install .. => False
  | _ => True

/-- The clients after applying the log, from the index {lit}`base` on, to the clients
of a start. -/
def replayFrom (base : Nat) (start : List ShardClient) (log : List Command) (i : Nat) :
    List ShardClient :=
  applyFrom base start ((log.take i).drop base)

section Solo

variable {base : Nat} {start : List ShardClient} {log : List Command} {i : Nat}

theorem replayFrom_succ {cmd : Command} (hbase : base ≤ i) (h : log[i]? = some cmd) :
    replayFrom base start log (i + 1) =
      applyCommand (replayFrom base start log i) (i + 1) cmd := by
  have hlt : i < log.length := (List.getElem?_eq_some_iff.mp h).1
  have htake : log.take (i + 1) = log.take i ++ [cmd] := by
    rw [List.take_add_one, h]
    rfl
  have hlen : base ≤ (log.take i).length := by
    rw [List.length_take]
    omega
  rw [replayFrom, htake, List.drop_append_of_le_length hlen, applyFrom_append, List.length_drop,
    List.length_take, min_eq_left hlt.le, show base + (i - base) = i by omega]
  rfl

theorem replayFrom_append (hi : i ≤ log.length) (cmds : List Command) :
    replayFrom base start (log ++ cmds) i = replayFrom base start log i := by
  rw [replayFrom, List.take_append_of_le_length hi, replayFrom]

/-- The clients have the active replicas, and know the shards, of the replayed log. -/
def SoloTracks (base : Nat) (start : List ShardClient) (log : List Command) (i : Nat)
    (shards : List ShardClient) : Prop :=
  base ≤ i ∧ activeClients shards = activeClients (replayFrom base start log i) ∧
    ∀ shardId, known shards shardId = known (replayFrom base start log i) shardId

/-- The snapshot is the coordinator's own. -/
def SoloSnapshot (base : Nat) (start : List ShardClient) (log : List Command) (i : Nat)
    (snap : Snapshot) : Prop :=
  base ≤ i ∧ i ≤ log.length ∧ snap = serializeSnapshot (replayFrom base start log i)

theorem SoloTracks.applyCommand {shards : List ShardClient} {cmd : Command}
    (h : SoloTracks base start log i shards) (hcmd : log[i]? = some cmd) :
    SoloTracks base start log (i + 1) (applyCommand shards (i + 1) cmd) := by
  obtain ⟨hbase, hactive, hknown⟩ := h
  refine ⟨hbase.trans (Nat.le_succ i), ?_, fun shardId => ?_⟩
  · rw [replayFrom_succ hbase hcmd]
    exact active_applyCommand hactive fun shardId _ _ _ => hknown shardId
  · rw [replayFrom_succ hbase hcmd, Bool.eq_iff_iff, known_applyCommand, known_applyCommand,
      hknown]

/-- Loading its own snapshot changes nothing that matters. -/
theorem SoloTracks.loadSnapshot {shards : List ShardClient}
    (h : SoloTracks base start log i shards) :
    SoloTracks base start log i
      (loadSnapshot shards (serializeSnapshot (replayFrom base start log i))) := by
  obtain ⟨hbase, hactive, hknown⟩ := h
  refine ⟨hbase, active_loadSnapshot _ _, fun shardId => ?_⟩
  rw [known_loadSnapshot, hknown, Bool.or_eq_left_iff_imp]
  exact known_of_active

end Solo

/-- A process on its own: a snapshot of the node that is newer than the cursor was
taken at the index the coordinator has applied. -/
structure SoloInv (base : Nat) (start : List ShardClient) (log : List Command) (p : Process) :
    Prop where
  node : NodeInv (SoloSnapshot base start log) base log p.node
  coord : CoordInv (SoloTracks base start log) base log p.node p.coord
  pending : ∀ upToIndex snap, p.pending = some (upToIndex, snap) →
    upToIndex = p.coord.appliedIndex ∧ SoloSnapshot base start log upToIndex snap
  newer : p.coord.snapshotAppliedIndex < p.node.snapshotLastIndex →
    p.node.snapshotLastIndex = p.coord.appliedIndex

namespace SoloInv

variable {base : Nat} {start : List ShardClient} {log : List Command} {p : Process}

theorem init (endpoints : List ShardEndpoint) :
    SoloInv 0 (endpoints.map ofEndpoint) [] { coord := CoordinatorState.boot endpoints 0 } where
  node := ⟨le_rfl, le_rfl, le_rfl, rfl, fun h => absurd h (lt_irrefl 0)⟩
  coord := ⟨le_rfl, le_rfl, fun _ => ⟨rfl, le_rfl⟩, le_rfl, ⟨le_rfl, rfl, fun _ => rfl⟩, rfl⟩
  pending _ _ h := by simp at h
  newer h := absurd h (lt_irrefl 0)

theorem restart (p : Process) (endpoints : List ShardEndpoint)
    (hle : p.node.snapshotLastIndex ≤ log.length) :
    SoloInv p.node.snapshotLastIndex (endpoints.map ofEndpoint) log (p.restart endpoints) where
  node := ⟨le_rfl, le_rfl, hle, by simp [Process.restart], fun h => absurd h (lt_irrefl _)⟩
  coord := by
    have hnil : replayFrom p.node.snapshotLastIndex (endpoints.map ofEndpoint) log
        p.node.snapshotLastIndex = endpoints.map ofEndpoint := by
      rw [replayFrom, List.drop_eq_nil_of_le (by simp)]
      rfl
    exact ⟨le_rfl, le_rfl, fun _ => ⟨rfl, le_rfl⟩, hle, ⟨le_rfl, (congrArg activeClients hnil).symm,
      fun shardId => (congrArg (known · shardId) hnil).symm⟩, rfl⟩
  pending _ _ h := by simp [Process.restart] at h
  newer h := absurd h (lt_irrefl _)

theorem append (hinv : SoloInv base start log p) (cmds : List Command) :
    SoloInv base start (log ++ cmds) p := by
  have hsnap : ∀ i snap, SoloSnapshot base start log i snap →
      SoloSnapshot base start (log ++ cmds) i snap := by
    rintro i snap ⟨hbase, hle, rfl⟩
    exact ⟨hbase, hle.trans (by simp), by rw [replayFrom_append hle]⟩
  refine ⟨hinv.node.append cmds hsnap, hinv.coord.append cmds ?_, ?_, hinv.newer⟩
  · rintro i shards hle ⟨hbase, hactive, hknown⟩
    refine ⟨hbase, ?_, fun shardId => ?_⟩
    · rw [replayFrom_append hle, hactive]
    · rw [replayFrom_append hle, hknown]
  · exact fun u sn h => (hinv.pending u sn h).imp_right (hsnap u sn)

/-- One run of the apply loop brings the coordinator to the node's index. -/
theorem applyPending (hinv : SoloInv base start log p) :
    SoloInv base start log
        { p with
          coord := (p.coord.applyPending p.node).1
          pending := (p.coord.applyPending p.node).2 } ∧
      (p.coord.applyPending p.node).1.appliedIndex = p.node.lastApplied := by
  obtain ⟨hcoord, hcursor, hindex, hpending⟩ := hinv.coord.applyPending hinv.node
    (fun i cmd shards hcmd htracks => htracks.applyCommand hcmd)
    (by
      rintro hnew snap ⟨-, -, rfl⟩
      have htracks := hinv.coord.tracks
      rw [← hinv.newer hnew] at htracks
      exact htracks.loadSnapshot)
    (fun i shards hle htracks =>
      ⟨htracks.1, hle, by rw [serializeSnapshot, serializeSnapshot, htracks.2.1]⟩)
  refine ⟨⟨hinv.node, hcoord, hpending, fun h => ?_⟩, hindex⟩
  dsimp only at h
  omega

/-- **Step lemma.**  Without foreign snapshots the coordinator replays the log onto the
clients it started with. -/
theorem step {s s' : ControlPlane Unit} (hinv : SoloInv base start s.log (s.proc ()))
    {a : PlaneAction Unit} (hok : Alone s a) (hstep : s.step a = some s') :
    SoloInv base start s'.log (s'.proc ()) := by
  have hcases := ControlPlane.step_cases hstep
  cases a with
  | commit cmd =>
      dsimp only at hcases
      subst hcases
      exact hinv.append [cmd]
  | deliver n =>
      rcases hcases with ⟨cmd, hcmd, rfl⟩
      refine ⟨hinv.node.applyNext hcmd, hinv.coord.of_node (.inr ⟨rfl, ?_⟩), hinv.pending,
        hinv.newer⟩
      simp [ControlPlane.setProc, AppliedLog.applyNext]
  | install n k => exact absurd hok not_false
  | apply n =>
      dsimp only at hcases
      subst hcases
      simpa [ControlPlane.setProc] using hinv.applyPending.1
  | compact n =>
      rcases hcases with ⟨upToIndex, snap, hpending, hdone⟩
      rcases hinv.pending upToIndex snap hpending with ⟨hup, hsnap⟩
      rcases hdone with ⟨hdone, rfl⟩ | rfl
      · rcases AppliedLog.compact_done hdone with ⟨hnewer, hat⟩
        exact ⟨hinv.node.compact hsnap, hinv.coord.of_compact (hnewer.trans_eq hat.symm),
          fun _ _ h => by simp [ControlPlane.setProc] at h, fun _ => hat.trans hup⟩
      · exact ⟨hinv.node, hinv.coord, fun _ _ h => by simp [ControlPlane.setProc] at h,
          hinv.newer⟩

/-- **Run lemma.** -/
theorem run {s s' : ControlPlane Unit} {as : List (PlaneAction Unit)}
    (hrun : Exec ControlPlane.step Alone s as s') (hinv : SoloInv base start s.log (s.proc ())) :
    SoloInv base start s'.log (s'.proc ()) :=
  hrun.invariant (fun t => SoloInv base start t.log (t.proc ()))
    (fun _ _ _ ht hok hstep => ht.step hok hstep) hinv

/-- From a state in which nothing is left to load, the coordinator can get to the end
of any longer log. -/
theorem exists_run {s : ControlPlane Unit} (hinv : SoloInv base start s.log (s.proc ()))
    (hidle : (s.proc ()).pending = none) (rest : List Command) :
    ∃ as s', Exec ControlPlane.step Alone s as s' ∧ s'.log = s.log ++ rest ∧
      (s'.proc ()).coord.appliedIndex = s'.log.length := by
  -- commit the rest, let the node apply everything, then run the loop once
  have hcommit : ∀ (rest : List Command) (s : ControlPlane Unit), ∃ as t,
      Exec ControlPlane.step Alone s as t ∧ t.log = s.log ++ rest ∧ t.proc = s.proc := by
    intro rest
    induction rest with
    | nil => exact fun s => ⟨[], s, .nil s, by simp, rfl⟩
    | cons cmd rest ih =>
        intro s
        obtain ⟨as, t, hrun, hlog, hproc⟩ := ih { s with log := s.log ++ [cmd] }
        exact ⟨.commit cmd :: as, t, .cons trivial rfl hrun, by simp [hlog], hproc⟩
  obtain ⟨as, t, hrun, hlog, hproc⟩ := hcommit rest s
  have hdeliver : ∀ k (t : ControlPlane Unit), t.log.length = (t.proc ()).node.lastApplied + k →
      ∃ as t', Exec ControlPlane.step Alone t as t' ∧ t'.log = t.log ∧
        (t'.proc ()).pending = (t.proc ()).pending ∧
        (t'.proc ()).node.lastApplied = t'.log.length := by
    intro k
    induction k with
    | zero => exact fun t hk => ⟨[], t, .nil t, rfl, rfl, hk.symm⟩
    | succ k ih =>
        intro t hk
        have hlt : (t.proc ()).node.lastApplied < t.log.length := by omega
        obtain ⟨as, t', hrun, hlog, hpending, happlied⟩ := ih
          (t.setProc () { t.proc () with
            node := (t.proc ()).node.applyNext t.log[(t.proc ()).node.lastApplied] })
          (by simp only [ControlPlane.setProc, Function.update_self, AppliedLog.applyNext]; omega)
        refine ⟨.deliver () :: as, t', .cons trivial ?_ hrun, hlog, ?_, happlied⟩
        · simp [ControlPlane.step, List.getElem?_eq_getElem hlt]
        · simpa [ControlPlane.setProc] using hpending
  have hinv' := hinv.run hrun
  have hle := hinv'.node.applied_le
  obtain ⟨as', t', hrun', hlog', hpending, happlied⟩ :=
    hdeliver (t.log.length - (t.proc ()).node.lastApplied) t (by omega)
  have hinv'' := hinv'.run hrun'
  rw [hproc, hidle] at hpending
  refine ⟨as ++ as' ++ [.apply ()], t'.setProc ()
    { t'.proc () with
      coord := ((t'.proc ()).coord.applyPending (t'.proc ()).node).1
      pending := ((t'.proc ()).coord.applyPending (t'.proc ()).node).2 },
    (hrun.append hrun').append (.cons (show Alone t' (.apply ()) from trivial) ?_ (.nil _)),
    hlog'.trans hlog, ?_⟩
  · simp [ControlPlane.step, hpending]
  · simp only [ControlPlane.setProc, Function.update_self]
    rw [hinv''.applyPending.2, happlied]

/-- At the end of the log the topology is that of the replayed log. -/
theorem topology_eq (hinv : SoloInv base start log p) (hend : p.coord.appliedIndex = log.length) :
    activeClients p.coord.shards = activeClients (applyFrom base start (log.drop base)) ∧
      p.coord.ring = buildRing (applyFrom base start (log.drop base)) := by
  have hactive := hinv.coord.tracks.2.1
  rw [hend, replayFrom, List.take_length] at hactive
  refine ⟨hactive, ?_⟩
  rw [hinv.coord.ring, buildRing, buildRing, activeIds, activeIds, hactive]

end SoloInv

/-! ## When a restart goes unnoticed -/

/-- The same active replicas, with their primaries and epochs, as sets, and the same
routes. -/
def SameReplicas (co co' : CoordinatorState) : Prop :=
  (∀ sc, sc ∈ activeClients co.shards ↔ sc ∈ activeClients co'.shards) ∧
    ∀ key, co.ring.route key = co'.ring.route key

/-- For every log that starts with what the snapshot covers: a coordinator that was
restarted on the config file {lit}`config` and applied the log to its end has the
topology of one that started on {lit}`endpoints` and never stopped. -/
def RestartTransparent (endpoints config : List ShardEndpoint) (covered : List Command) : Prop :=
  ∀ (p : Process) (tail : List Command) (as as' : List (PlaneAction Unit))
    (s s' : ControlPlane Unit), p.node.snapshotLastIndex = covered.length →
    Exec ControlPlane.step Alone (ControlPlane.init endpoints) as s →
    Exec ControlPlane.step Alone { log := covered ++ tail, proc := fun _ => p.restart config } as'
      s' →
    s.log = s'.log → (s.proc ()).coord.appliedIndex = s.log.length →
    (s'.proc ()).coord.appliedIndex = s'.log.length →
    SameReplicas (s.proc ()).coord (s'.proc ()).coord

/-- A command that does nothing to the topology of a config file: it adds a shard the
file lists, or no replicas at all, or concerns a shard the file does not list. -/
def Ineffective (endpoints : List ShardEndpoint) : Command → Prop
  | .addShard shardId replicas => replicas = [] ∨ ∃ ep ∈ endpoints, ep.shardId = shardId
  | .removeShard shardId => ∀ ep ∈ endpoints, ep.shardId ≠ shardId
  | .setPrimary shardId _ => ∀ ep ∈ endpoints, ep.shardId ≠ shardId
  | .malformed => True

theorem known_ofEndpoint {endpoints : List ShardEndpoint} {shardId : Int} :
    known (endpoints.map ofEndpoint) shardId = true ↔ ∃ ep ∈ endpoints, ep.shardId = shardId := by
  simp [known_eq_true_iff, ofEndpoint]

theorem applyCommand_ineffective {endpoints : List ShardEndpoint} {cmd : Command}
    (h : Ineffective endpoints cmd) (epoch : Nat) :
    applyCommand (endpoints.map ofEndpoint) epoch cmd = endpoints.map ofEndpoint := by
  have hmap : ∀ (f : ShardClient → ShardClient) (shardId : Int),
      (∀ ep ∈ endpoints, ep.shardId ≠ shardId) →
      (endpoints.map ofEndpoint).map (fun sc => if sc.shardId = shardId then f sc else sc) =
        endpoints.map ofEndpoint := by
    intro f shardId hno
    refine (List.map_congr_left fun sc hsc => ?_).trans (List.map_id _)
    obtain ⟨ep, hep, rfl⟩ := List.mem_map.mp hsc
    exact if_neg (hno ep hep)
  cases cmd with
  | addShard shardId replicas =>
      rcases h with rfl | hknown
      · simp [applyCommand]
      · rw [applyCommand, if_pos (known_ofEndpoint.mpr hknown)]
  | removeShard shardId => exact hmap _ shardId h
  | setPrimary shardId replicaId => exact hmap _ shardId h
  | malformed => rfl

theorem applyFrom_ineffective {endpoints : List ShardEndpoint} (base : Nat) {cmds : List Command}
    (h : ∀ cmd ∈ cmds, Ineffective endpoints cmd) :
    applyFrom base (endpoints.map ofEndpoint) cmds = endpoints.map ofEndpoint := by
  induction cmds generalizing base with
  | nil => rfl
  | cons cmd cmds ih =>
      rw [applyFrom, applyCommand_ineffective (h cmd List.mem_cons_self)]
      exact ih (base + 1) fun c hc => h c (List.mem_cons_of_mem _ hc)

/-- Commands act on the set of clients, not on their order. -/
theorem mem_applyFrom_congr {shards shards' : List ShardClient}
    (h : ∀ sc, sc ∈ shards ↔ sc ∈ shards') (base : Nat) (cmds : List Command) (sc : ShardClient) :
    sc ∈ applyFrom base shards cmds ↔ sc ∈ applyFrom base shards' cmds := by
  induction cmds generalizing base shards shards' with
  | nil => exact h sc
  | cons cmd cmds ih =>
      apply ih
      intro c
      cases cmd with
      | addShard shardId replicas =>
          have hknown : known shards shardId = known shards' shardId := by
            rw [Bool.eq_iff_iff, known_eq_true_iff, known_eq_true_iff]
            simp only [h]
          simp only [applyCommand, hknown]
          split
          · exact h c
          · rw [List.mem_append, List.mem_append, h]
      | removeShard shardId => simp only [applyCommand, List.mem_map, h]
      | setPrimary shardId replicaId => simp only [applyCommand, List.mem_map, h]
      | malformed => exact h c

/-- The ring depends on the set of active replicas only. -/
theorem buildRing_congr {shards shards' : List ShardClient}
    (h : ∀ sc, sc ∈ activeClients shards ↔ sc ∈ activeClients shards') :
    buildRing shards = buildRing shards' := by
  have hperm : ((activeClients shards).map (·.shardId)).dedup.Perm
      ((activeClients shards').map (·.shardId)).dedup := by
    rw [List.perm_ext_iff_of_nodup (List.nodup_dedup _) (List.nodup_dedup _)]
    simp only [List.mem_dedup, List.mem_map, h, implies_true]
  have hsort : activeIds shards = activeIds shards' := by
    refine List.Perm.eq_of_pairwise' (List.pairwise_insertionSort _ _)
      (List.pairwise_insertionSort _ _) ?_
    exact (List.perm_insertionSort _ _).trans (hperm.trans (List.perm_insertionSort _ _).symm)
  rw [buildRing, buildRing, hsort]

/-- Transparency in terms of the replayed logs. -/
theorem restartTransparent_iff_mem {endpoints config : List ShardEndpoint}
    {covered : List Command} :
    RestartTransparent endpoints config covered ↔
      ∀ rest sc, sc ∈ activeClients (applyFrom covered.length (replay endpoints covered) rest) ↔
        sc ∈ activeClients (applyFrom covered.length (config.map ofEndpoint) rest) := by
  have hsplit : ∀ rest, applyFrom covered.length (replay endpoints covered) rest =
      applyFrom 0 (endpoints.map ofEndpoint) ((covered ++ rest).drop 0) := by
    intro rest
    rw [List.drop_zero, applyFrom_append, Nat.zero_add, replay]
  have hdrop : ∀ rest : List Command, (covered ++ rest).drop covered.length = rest :=
    fun rest => List.drop_left
  constructor
  · intro h rest sc
    obtain ⟨as, s, hrun, hlog, hend⟩ :=
      SoloInv.exists_run (s := ControlPlane.init endpoints) (SoloInv.init endpoints) rfl
        (covered ++ rest)
    obtain ⟨p, hp⟩ : ∃ p : Process, p.node.snapshotLastIndex = covered.length :=
      ⟨{ coord := CoordinatorState.boot config 0, node := ⟨covered.length, none, 0, []⟩ }, rfl⟩
    have hstart : SoloInv p.node.snapshotLastIndex (config.map ofEndpoint) (covered ++ rest)
        (p.restart config) := SoloInv.restart p config (by simp [hp])
    obtain ⟨as', s', hrun', hlog', hend'⟩ := SoloInv.exists_run
      (s := ⟨covered ++ rest, fun _ => p.restart config, []⟩) hstart rfl []
    rw [ControlPlane.init, List.nil_append] at hlog
    rw [List.append_nil] at hlog'
    have hsame := h p rest as as' s s' hp hrun hrun' (hlog.trans hlog'.symm) hend hend'
    have htop := ((SoloInv.init endpoints).run (s := ControlPlane.init endpoints) hrun).topology_eq
      hend
    have htop' := (hstart.run hrun').topology_eq hend'
    rw [hlog] at htop
    rw [hlog', hp, hdrop] at htop'
    rw [hsplit, ← htop.1, hsame.1 sc, htop'.1]
  · intro h p tail as as' s s' hsnap hrun hrun' hlog hend hend'
    have hstart : SoloInv p.node.snapshotLastIndex (config.map ofEndpoint) (covered ++ tail)
        (p.restart config) := SoloInv.restart p config (by simp [hsnap])
    have htop := ((SoloInv.init endpoints).run (s := ControlPlane.init endpoints) hrun).topology_eq
      hend
    have htop' := (hstart.run hrun').topology_eq hend'
    -- the log has only grown, so it still begins with what the snapshot covers
    have hprefix : covered ++ tail <+: s'.log := by
      refine hrun'.relation (fun _ => True) (fun t t' => t.log <+: t'.log)
        (fun _ => List.prefix_rfl) (fun _ _ _ => List.IsPrefix.trans) (fun _ _ _ _ _ _ => trivial)
        ?_ trivial
      exact fun _ _ _ _ _ hstep => PlaneInv.log_isPrefix hstep
    obtain ⟨more, hmore⟩ := hprefix
    rw [List.append_assoc] at hmore
    rw [hlog, ← hmore, ← hsplit] at htop
    rw [← hmore, hsnap, hdrop] at htop'
    have hmem : ∀ sc, sc ∈ activeClients (s.proc ()).coord.shards ↔
        sc ∈ activeClients (s'.proc ()).coord.shards := by
      intro sc
      rw [htop.1, htop'.1]
      exact h _ sc
    refine ⟨hmem, fun key => ?_⟩
    rw [htop.2, htop'.2]
    congr 1
    apply buildRing_congr
    intro sc
    rw [← htop.1, ← htop'.1]
    exact hmem sc

/-- A command has changed the shard: it is known, and each of its replicas is inactive
or has the epoch of a command. -/
def Touched (shards : List ShardClient) (shardId : Int) : Prop :=
  known shards shardId = true ∧
    ∀ sc ∈ shards, sc.shardId = shardId → sc.active = false ∨ 0 < sc.epoch

/-- A changed shard stays changed. -/
theorem Touched.applyCommand {shards : List ShardClient} {shardId : Int}
    (h : Touched shards shardId) (epoch : Nat) (hepoch : 0 < epoch) (cmd : Command) :
    Touched (applyCommand shards epoch cmd) shardId := by
  refine ⟨(known_applyCommand _ _ _ _).mpr (.inl h.1), ?_⟩
  intro sc hsc hid
  cases cmd with
  | addShard sid replicas =>
      simp only [Coordinator.applyCommand] at hsc
      split at hsc
      · exact h.2 sc hsc hid
      · rw [List.mem_append, List.mem_map] at hsc
        rcases hsc with hsc | ⟨r, -, rfl⟩
        · exact h.2 sc hsc hid
        · exact .inr hepoch
  | removeShard sid =>
      obtain ⟨old, hold, rfl⟩ := List.mem_map.mp hsc
      split_ifs at hid ⊢ with heq
      · exact .inl rfl
      · exact h.2 old hold hid
  | setPrimary sid replicaId =>
      obtain ⟨old, hold, rfl⟩ := List.mem_map.mp hsc
      split_ifs at hid ⊢ with heq
      · exact .inr hepoch
      · exact h.2 old hold hid
  | malformed => exact h.2 sc hsc hid

theorem Touched.applyFrom {shards : List ShardClient} {shardId : Int}
    (h : Touched shards shardId) (base : Nat) (cmds : List Command) :
    Touched (applyFrom base shards cmds) shardId := by
  induction cmds generalizing base shards with
  | nil => exact h
  | cons cmd cmds ih => exact ih (h.applyCommand (base + 1) (Nat.succ_pos base) cmd) (base + 1)

/-- A command that is not ineffective changes a shard. -/
theorem exists_touched_applyCommand {endpoints : List ShardEndpoint} {cmd : Command}
    (h : ¬ Ineffective endpoints cmd) (epoch : Nat) (hepoch : 0 < epoch) :
    ∃ shardId, Touched (applyCommand (endpoints.map ofEndpoint) epoch cmd) shardId := by
  cases cmd with
  | addShard shardId replicas =>
      rw [Ineffective, not_or, ← known_ofEndpoint] at h
      refine ⟨shardId, (known_applyCommand _ _ _ _).mpr (.inr ⟨replicas, rfl, h.1⟩), ?_⟩
      intro sc hsc hid
      rw [applyCommand, if_neg h.2, List.mem_append] at hsc
      rcases hsc with hsc | hsc
      · exact absurd (known_eq_true_iff.mpr ⟨sc, hsc, hid⟩) h.2
      · obtain ⟨r, -, rfl⟩ := List.mem_map.mp hsc
        exact .inr hepoch
  | removeShard shardId =>
      simp only [Ineffective, not_forall, not_not] at h
      obtain ⟨ep, hep, hid⟩ := h
      refine ⟨shardId,
        (known_applyCommand _ _ _ _).mpr (.inl (known_ofEndpoint.mpr ⟨ep, hep, hid⟩)), ?_⟩
      intro sc hsc hid
      obtain ⟨old, -, rfl⟩ := List.mem_map.mp hsc
      split_ifs at hid ⊢ with heq
      · exact .inl rfl
      · contradiction
  | setPrimary shardId replicaId =>
      simp only [Ineffective, not_forall, not_not] at h
      obtain ⟨ep, hep, hid⟩ := h
      refine ⟨shardId,
        (known_applyCommand _ _ _ _).mpr (.inl (known_ofEndpoint.mpr ⟨ep, hep, hid⟩)), ?_⟩
      intro sc hsc hid
      obtain ⟨old, -, rfl⟩ := List.mem_map.mp hsc
      split_ifs at hid ⊢ with heq
      · exact .inr hepoch
      · contradiction
  | malformed => exact absurd trivial h

/-- Commands that are not all ineffective change a shard. -/
theorem exists_touched {endpoints : List ShardEndpoint} (base : Nat) {cmds : List Command}
    (h : ¬ ∀ cmd ∈ cmds, Ineffective endpoints cmd) :
    ∃ shardId, Touched (applyFrom base (endpoints.map ofEndpoint) cmds) shardId := by
  induction cmds generalizing base with
  | nil => simp at h
  | cons cmd cmds ih =>
      by_cases hcmd : Ineffective endpoints cmd
      · rw [applyFrom, applyCommand_ineffective hcmd]
        apply ih
        simpa [hcmd] using h
      · obtain ⟨shardId, htouched⟩ :=
          exists_touched_applyCommand hcmd (base + 1) (Nat.succ_pos base)
        exact ⟨shardId, htouched.applyFrom (base + 1) cmds⟩

theorem ofEndpoint_injective : Function.Injective ofEndpoint := by
  rintro ⟨_, _, _, _, _⟩ ⟨_, _, _, _, _⟩ h
  simpa [ofEndpoint] using h

theorem activeClients_map_ofEndpoint (endpoints : List ShardEndpoint) :
    activeClients (endpoints.map ofEndpoint) = endpoints.map ofEndpoint := by
  rw [activeClients, List.filter_eq_self]
  intro sc hsc
  obtain ⟨ep, -, rfl⟩ := List.mem_map.mp hsc
  rfl

/-- **When a restart is transparent.**  A restarted coordinator ends, on every log, with
the topology of one that never stopped if and only if its config file lists exactly
the replicas of the original one and no command covered by the snapshot changed
them. -/
theorem restart_transparent_iff (endpoints config : List ShardEndpoint) (covered : List Command) :
    RestartTransparent endpoints config covered ↔
      (∀ ep, ep ∈ config ↔ ep ∈ endpoints) ∧ ∀ cmd ∈ covered, Ineffective endpoints cmd := by
  rw [restartTransparent_iff_mem]
  constructor
  · intro h
    have hnow : ∀ sc, sc ∈ activeClients (replay endpoints covered) ↔
        sc ∈ config.map ofEndpoint := by
      intro sc
      have := h [] sc
      rwa [applyFrom, applyFrom, activeClients_map_ofEndpoint] at this
    have hcovered : ∀ cmd ∈ covered, Ineffective endpoints cmd := by
      by_contra hno
      obtain ⟨shardId, hknown, htouched⟩ := exists_touched 0 hno
      -- the config file has no epochs, so it cannot list the shard
      have hunknown : known (config.map ofEndpoint) shardId = false := by
        rw [Bool.eq_false_iff, Ne, known_eq_true_iff]
        rintro ⟨sc, hsc, hid⟩
        have hactive := (hnow sc).mpr hsc
        rw [activeClients, List.mem_filter] at hactive
        rcases htouched sc hactive.1 hid with hoff | hepoch
        · rw [hoff] at hactive
          exact absurd hactive.2 (by simp)
        · obtain ⟨ep, -, rfl⟩ := List.mem_map.mp hsc
          exact absurd hepoch (lt_irrefl 0)
      -- adding the shard again works for the restarted coordinator only
      have hadd := (h [.addShard shardId [⟨0, [], 0, true⟩]]
        (ofReplica shardId (covered.length + 1) ⟨0, [], 0, true⟩)).mpr ?_
      · simp only [applyFrom, applyCommand, replay, hknown, if_true] at hadd
        have := (hnow _).mp hadd
        obtain ⟨ep, -, hep⟩ := List.mem_map.mp this
        simp [ofEndpoint, ofReplica] at hep
      · simp [applyFrom, applyCommand, hunknown, activeClients, ofReplica]
    refine ⟨fun ep => ?_, hcovered⟩
    have := hnow (ofEndpoint ep)
    rw [replay, applyFrom_ineffective 0 hcovered, activeClients_map_ofEndpoint,
      List.mem_map_of_injective ofEndpoint_injective,
      List.mem_map_of_injective ofEndpoint_injective] at this
    exact this.symm
  · rintro ⟨hsame, hcovered⟩ rest sc
    rw [replay, applyFrom_ineffective 0 hcovered, activeClients, activeClients, List.mem_filter,
      List.mem_filter]
    refine and_congr_left fun _ => mem_applyFrom_congr (fun c => ?_) _ rest sc
    simp only [List.mem_map, hsame]

instance (s : ControlPlane Unit) (a : PlaneAction Unit) : Decidable (Alone s a) := by
  unfold Alone
  split <;> infer_instance

/-- Shard 1 is added as the first of 64 commands; then the coordinator compacts. -/
def compactAfterAdd : List (PlaneAction Unit) :=
  .commit (.addShard 1 [⟨0, [98], 9090, true⟩]) ::
    (List.replicate 63 (.commit (.setPrimary 0 0)) ++ List.replicate 64 (.deliver ()) ++
      [.apply (), .compact ()])

/-- After a restart on the original config file the added shard is gone, although the
coordinator has applied the whole log. -/
theorem restart_loses_shard :
    ∃ s, Exec ControlPlane.step Alone (ControlPlane.init oneShard) compactAfterAdd s ∧
      (s.proc ()).node.snapshotLastIndex = s.log.length ∧
      (s.proc ()).coord.appliedIndex = s.log.length ∧
      ((s.proc ()).restart oneShard).coord.appliedIndex = s.log.length ∧
      ¬ SameReplicas (s.proc ()).coord ((s.proc ()).restart oneShard).coord := by
  have hrun := Exec.of_guardedRun ControlPlane.step Alone
    (ControlPlane.init oneShard : ControlPlane Unit) compactAfterAdd (by decide +kernel)
  refine ⟨_, hrun, by decide +kernel, by decide +kernel, by decide +kernel, fun hsame => ?_⟩
  have hadded := (hsame.1 (ofReplica 1 1 ⟨0, [98], 9090, true⟩)).mp (by decide +kernel)
  revert hadded
  decide +kernel

end NanoDB.Coordinator
