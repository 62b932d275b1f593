import NanoDB.Coordinator.AdminRequests

/-!
# The last shard

The remove handler refuses to remove the only shard that its coordinator knows of.  It
counts the shards before it migrates any key; the command is committed afterwards, and
others may be committed in between.  A coordinator that applies the committed commands
in log order has, after the first {lit}`k` of them, the clients of the replayed log.

Main results:

- Theorem {lit}`mem_activeIds_replay`: a shard stays active until a command removes it.
- Theorem {lit}`last_shard_kept`: no coordinator loses its last shard as long as not too
  many of the shards that a guard counted are removed before its own command.
- Theorem {lit}`last_shard_removed`: two coordinators that each keep the other's shard
  remove both.
-/

namespace NanoDB.Coordinator

open Lib
open Cluster (HashRing Key)

/-! ## Active shards -/

/-- Only a removal makes a shard inactive. -/
theorem mem_activeIds_applyCommand {shards : List ShardClient} {shardId : Int} {cmd : Command}
    (hne : cmd ≠ .removeShard shardId) (epoch : Nat) (h : shardId ∈ activeIds shards) :
    shardId ∈ activeIds (applyCommand shards epoch cmd) := by
  cases cmd with
  | addShard newId replicas =>
      rw [applyCommand]
      split_ifs
      · exact h
      · rw [mem_activeIds] at h ⊢
        rcases h with ⟨sc, hsc, hid⟩
        rw [activeClients_append]
        exact ⟨sc, List.mem_append_left _ hsc, hid⟩
  | removeShard leavingId =>
      rw [mem_activeIds] at h ⊢
      rcases h with ⟨sc, hsc, hid⟩
      refine ⟨sc, ?_, hid⟩
      rw [activeClients_removeShard, List.mem_filter]
      refine ⟨hsc, ?_⟩
      rw [hid, decide_eq_true_eq]
      rintro rfl
      exact hne rfl
  | setPrimary sid replicaId => rwa [CoordinatorState.activeIds_setPrimary]
  | malformed => exact h

theorem mem_activeIds_applyFrom {cmds : List Command} {shardId : Int}
    (hnot : .removeShard shardId ∉ cmds) (base : Nat) {shards : List ShardClient}
    (h : shardId ∈ activeIds shards) : shardId ∈ activeIds (applyFrom base shards cmds) := by
  induction cmds generalizing base shards with
  | nil => exact h
  | cons cmd cmds ih =>
      rw [List.mem_cons, not_or] at hnot
      exact ih hnot.2 (base + 1) (mem_activeIds_applyCommand (Ne.symm hnot.1) (base + 1) h)

/-- A shard that was active after the first {lit}`i` commands and is not removed by a
later one is active at the end. -/
theorem mem_activeIds_replay {endpoints : List ShardEndpoint} {log : List Command} {i : Nat}
    {shardId : Int} (h : shardId ∈ activeIds (replay endpoints (log.take i)))
    (hnot : .removeShard shardId ∉ log.drop i) : shardId ∈ activeIds (replay endpoints log) := by
  have hsplit : replay endpoints log =
      applyFrom (0 + (log.take i).length) (replay endpoints (log.take i)) (log.drop i) := by
    rw [replay, replay, ← applyFrom_append, List.take_append_drop]
  rw [hsplit]
  exact mem_activeIds_applyFrom hnot _ h

/-! ## Whole runs -/

/-- The other shards that the guard of a removal counted and that commands committed
since then remove. -/
def overtaken (log : List Command) (p : Proposal) (leavingId : Int) : List Int :=
  p.counted.filter fun t => decide (t ≠ leavingId) && decide (.removeShard t ∈ log.drop p.seen)

/-- The condition on a step.  The guard of an accepted removal is evaluated on the
topology of the log up to the index its coordinator has applied, and when the command
is committed, at most all but two of the shards it counted have been removed by other
commands. -/
def FreshGuard {ι : Type*} (endpoints : List ShardEndpoint) (s : AdminPlane ι) :
    AdminAction ι → Prop
  | .request n (.remove leavingId) =>
      (RebalanceRequest.remove leavingId).Accepted (s.coord n) →
        (s.coord n).appliedIndex ≤ s.plane.log.length ∧
          activeIds (s.coord n).shards =
            activeIds (replay endpoints (s.plane.log.take (s.coord n).appliedIndex))
  | .commit k =>
      ∀ p leavingId, s.proposals[k]? = some p → p.command = .removeShard leavingId →
        (overtaken s.plane.log p leavingId).length ≤ p.counted.length - 2
  | _ => True

/-- What is known of a removal that is on its way: the guard counted at least two shards
of the log. -/
structure GuardPassed (endpoints : List ShardEndpoint) (log : List Command) (p : Proposal) :
    Prop where
  seen_le : p.seen ≤ log.length
  counted : p.counted = activeIds (replay endpoints (log.take p.seen))
  two : 2 ≤ p.counted.length

/-- The invariant of the control plane. -/
structure ShardsInv {ι : Type*} (endpoints : List ShardEndpoint) (s : AdminPlane ι) : Prop where
  active : ∀ k, activeIds (replay endpoints (s.plane.log.take k)) ≠ []
  inFlight : ∀ p leavingId, s.InFlight p → p.command = .removeShard leavingId →
    GuardPassed endpoints s.plane.log p

theorem GuardPassed.append {endpoints : List ShardEndpoint} {log : List Command} {p : Proposal}
    (h : GuardPassed endpoints log p) (cmd : Command) :
    GuardPassed endpoints (log ++ [cmd]) p where
  seen_le := by
    rw [List.length_append]
    exact Nat.le_add_right_of_le h.seen_le
  counted := by
    rw [List.take_append_of_le_length h.seen_le]
    exact h.counted
  two := h.two

/-- A removal that is not overtaken leaves a shard: of those that its guard counted, one
is neither the leaving shard nor removed since. -/
theorem GuardPassed.exists_remaining {endpoints : List ShardEndpoint} {log : List Command}
    {p : Proposal} (h : GuardPassed endpoints log p) {leavingId : Int}
    (hfew : (overtaken log p leavingId).length ≤ p.counted.length - 2) :
    ∃ t ∈ activeIds (replay endpoints log), t ≠ leavingId := by
  have hnodup : p.counted.Nodup := h.counted ▸ nodup_activeIds _
  have hothers : p.counted.length ≤
      (p.counted.filter fun t => decide (t ≠ leavingId)).length + 1 := by
    have hsplit := List.length_eq_length_filter_add (l := p.counted) fun t => decide (t ≠ leavingId)
    have hone : (p.counted.filter fun t => !decide (t ≠ leavingId)).length ≤ 1 := by
      have hcount : p.counted.count leavingId ≤ 1 := List.nodup_iff_count_le_one.mp hnodup leavingId
      rw [List.count, List.countP_eq_length_filter] at hcount
      refine le_trans (le_of_eq ?_) hcount
      congr 1
      apply List.filter_congr
      intro t _
      by_cases ht : t = leavingId <;> simp [ht]
    omega
  by_contra hnone
  have hall : (p.counted.filter fun t => decide (t ≠ leavingId)) = overtaken log p leavingId := by
    apply List.filter_congr
    intro t ht
    by_cases hid : t = leavingId
    · simp [hid]
    · have hremoved : .removeShard t ∈ log.drop p.seen := by
        by_contra hkept
        rw [h.counted] at ht
        exact hnone ⟨t, mem_activeIds_replay ht hkept, hid⟩
      simp [hid, hremoved]
  rw [hall] at hothers
  have := h.two
  omega

namespace ShardsInv

variable {ι : Type*} [DecidableEq ι] {endpoints : List ShardEndpoint} {s s' : AdminPlane ι}

omit [DecidableEq ι] in
theorem init (hne : endpoints ≠ []) :
    ShardsInv endpoints (AdminPlane.init endpoints : AdminPlane ι) where
  active k := by
    rcases List.exists_mem_of_ne_nil _ hne with ⟨ep, hep⟩
    have hlog : (AdminPlane.init endpoints : AdminPlane ι).plane.log.take k = [] := List.take_nil
    rw [hlog]
    apply List.ne_nil_of_mem (a := ep.shardId)
    rw [mem_activeIds]
    exact ⟨ofEndpoint ep, List.mem_filter.mpr ⟨List.mem_map_of_mem hep, rfl⟩, rfl⟩
  inFlight p leavingId h _ := by
    rcases h with ⟨n, hn⟩ | h
    · cases hn
    · cases h

omit [DecidableEq ι] in
/-- A committed command leaves a shard active. -/
theorem active_append (hinv : ShardsInv endpoints s) {cmd : Command}
    (hremains : ∀ leavingId, cmd = .removeShard leavingId →
      ∃ t ∈ activeIds (replay endpoints s.plane.log), t ≠ leavingId) (k : Nat) :
    activeIds (replay endpoints ((s.plane.log ++ [cmd]).take k)) ≠ [] := by
  rcases Nat.lt_or_ge s.plane.log.length k with hlt | hge
  · have hall : (s.plane.log ++ [cmd]).take k = s.plane.log ++ [cmd] :=
      List.take_of_length_le (by rw [List.length_append]; exact hlt)
    have hsome : ∃ t ∈ activeIds (replay endpoints s.plane.log), cmd ≠ .removeShard t := by
      cases cmd with
      | removeShard leavingId =>
          rcases hremains leavingId rfl with ⟨t, ht, hne⟩
          exact ⟨t, ht, fun heq => hne (Command.removeShard.inj heq).symm⟩
      | _ =>
          have hactive := hinv.active s.plane.log.length
          rw [List.take_length] at hactive
          rcases List.exists_mem_of_ne_nil _ hactive with ⟨t, ht⟩
          exact ⟨t, ht, fun heq => by cases heq⟩
    rcases hsome with ⟨t, ht, hne⟩
    rw [hall, replay, applyFrom_append]
    exact List.ne_nil_of_mem (mem_activeIds_applyCommand hne _ ht)
  · rw [List.take_append_of_le_length hge]
    exact hinv.active k

/-- **Step lemma.** -/
theorem step (hinv : ShardsInv endpoints s) {a : AdminAction ι} (hok : FreshGuard endpoints s a)
    (hstep : s.step a = some s') : ShardsInv endpoints s' := by
  rcases AdminPlane.step_cases hstep with ⟨hplane, hnew⟩ | ⟨k, p, rfl, hp, rfl⟩ |
    ⟨pa, plane, hnot, hplane, rfl⟩
  · refine ⟨hplane ▸ hinv.active, fun p leavingId hp hcmd => ?_⟩
    rw [hplane]
    rcases hnew p hp with hold | ⟨n, cmd, rfl, hchecked, hasked⟩
    · exact hinv.inFlight p leavingId hold hcmd
    · change cmd = .removeShard leavingId at hcmd
      subst hcmd
      cases hasked
      rcases hok hchecked with ⟨hle, hview⟩
      exact ⟨hle, hview, hchecked.2.2⟩
  · refine ⟨hinv.active_append fun leavingId hcmd => ?_, fun q leavingId hq hcmd =>
      (hinv.inFlight q leavingId hq hcmd).append p.command⟩
    have hpassed := hinv.inFlight p leavingId (.inr (List.mem_of_getElem? hp)) hcmd
    exact hpassed.exists_remaining (hok p leavingId hp hcmd)
  · have hlog := ControlPlane.step_log hnot hplane
    refine ⟨fun k => ?_, fun p leavingId hp hcmd => ?_⟩
    · change activeIds (replay endpoints (plane.log.take k)) ≠ []
      rw [hlog]
      exact hinv.active k
    · change GuardPassed endpoints plane.log p
      rw [hlog]
      exact hinv.inFlight p leavingId hp hcmd

end ShardsInv

/-- **The last shard stays.**  From at least one shard, in every run in which the guards of
removals are evaluated on prefixes of the log and not overtaken, a coordinator that has
applied any number of the committed commands in log order has an active shard, and its
ring routes every key. -/
theorem last_shard_kept {ι : Type*} [DecidableEq ι] (endpoints : List ShardEndpoint)
    (hne : endpoints ≠ []) (as : List (AdminAction ι)) (s : AdminPlane ι)
    (hrun : Exec AdminPlane.step (FreshGuard endpoints) (AdminPlane.init endpoints) as s)
    (k : Nat) :
    activeIds (replay endpoints (s.plane.log.take k)) ≠ [] ∧
      ∀ key : Key, ∃ shardId,
        (buildRing (replay endpoints (s.plane.log.take k))).route key = some shardId := by
  have hinv : ShardsInv endpoints s :=
    hrun.invariant (ShardsInv endpoints) (fun _ _ _ hinv hok hstep => hinv.step hok hstep)
      (ShardsInv.init hne)
  exact ⟨hinv.active k, fun key => HashRing.exists_route (hinv.active k) key⟩

/-- Two shards with one replica each. -/
def twoEndpoints : List ShardEndpoint :=
  [⟨0, 0, [97], 9090, true⟩, ⟨1, 0, [98], 9090, true⟩]

/-- Coordinator 0 removes shard 1 and nobody else removes anything. -/
theorem last_shard_kept_oneRemoval :
    ∃ s, Exec AdminPlane.step (FreshGuard twoEndpoints)
        (AdminPlane.init twoEndpoints : AdminPlane (Fin 2))
        [.request 0 (.remove 1), .propose 0, .commit 0] s ∧
      s.plane.log = [.removeShard 1] ∧
      activeIds (replay twoEndpoints (s.plane.log.take 1)) ≠ [] := by
  have hrun : ∃ s, Exec AdminPlane.step (FreshGuard twoEndpoints)
        (AdminPlane.init twoEndpoints : AdminPlane (Fin 2))
        [.request 0 (.remove 1), .propose 0, .commit 0] s ∧
      s.plane.log = [.removeShard 1] := by
    refine ⟨_, .cons ?_ rfl (.cons trivial rfl (.cons ?_ rfl (.nil _))), rfl⟩
    · exact fun _ => ⟨le_rfl, rfl⟩
    · intro p leavingId hp hcmd
      cases hp
      cases hcmd
      decide
  rcases hrun with ⟨s, hexec, hlog⟩
  exact ⟨s, hexec, hlog, (last_shard_kept twoEndpoints (by decide) _ s hexec 1).1⟩

/-- Coordinator 0 removes shard 1; the next leader, coordinator 1, has not applied that
and still counts two shards when it removes shard 0.  Whoever applies both commands has
no shard left and cannot route any key. -/
theorem last_shard_removed :
    ∃ s, Exec AdminPlane.step (fun _ _ => True)
        (AdminPlane.init twoEndpoints : AdminPlane (Fin 2))
        [.request 0 (.remove 1), .propose 0, .commit 0, .request 1 (.remove 0), .propose 1,
          .commit 0] s ∧
      activeIds (replay twoEndpoints (s.plane.log.take 2)) = [] ∧
      (buildRing (replay twoEndpoints (s.plane.log.take 2))).route [] = none := by
  refine ⟨_, .cons trivial rfl (.cons trivial rfl (.cons trivial rfl (.cons trivial rfl
    (.cons trivial rfl (.cons trivial rfl (.nil _)))))), ?_, ?_⟩
  · decide +kernel
  · decide +kernel

end NanoDB.Coordinator
