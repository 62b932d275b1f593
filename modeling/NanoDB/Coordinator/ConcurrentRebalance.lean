import NanoDB.Coordinator.RebalanceInvariant

/-!
# Client inserts during a rebalance

The remove handler lists the keys of the leaving shard once.  An insert that the leaving
primary handles after that is lost with the shard, unless its key still waits to be moved.

Main results:

- Theorem {lit}`Inv.step`: the invariant of a run, one lemma for each kind of step.
- Theorem {lit}`created_insert_present`: in a run whose inserts reach the leaving primary
  in time, every confirmed insert is on an active shard in the end.
-/

namespace NanoDB.Coordinator

open Raft (Bytes)
open Cluster (Key HashRing)
open Lib (Exec)
open NanoDB.Index (vectorDim)
open Shard (ShardServer Floats)

namespace RebalanceRun

/-! ## Steps of the handler -/

/-- The client insert and the replica that a step is about. -/
def handledAt (s : RebalanceRun) : RunAction → Option (ClientInsert × ShardClient)
  | .client (.handle n i) =>
      (s.inserts[n]?).bind fun ins =>
        match ins.phase with
        | .writing targets => (targets[i]?).map fun t => (ins, t.1)
        | _ => none
  | _ => none

/-- An insert that the leaving primary handles comes before the listing, or its key still
waits to be moved. -/
def InTime (job : RebalanceJob) (s : RebalanceRun) (act : RunAction) : Prop :=
  ∀ ins r, s.handledAt act = some (ins, r) → job.req = .remove r.shardId →
    findPrimary job.pool r.shardId = some r → waits r.shardId ins.externalId s.handler

/-- No vector of a client is dropped for a moved copy, unless that is a client's too: by a
delete at a source that was read before, or by an insert at the destination. -/
structure NoLostUpdate (job : RebalanceJob) (Q : List (Key × Floats) → Key → Floats → Prop)
    (s : RebalanceRun) (act : RunAction) : Prop where
  source : ∀ ins r mv, s.handledAt act = some (ins, r) → Leaving job s.handler r mv →
    mv.key = ins.externalId → Q s.posted mv.key mv.vector
  dest : ∀ i mv ks rest r, act = .handler (.insertAt i) → s.handler = .inserting mv ks rest →
    mv.pending[i]? = some r → findPrimary job.pool r.shardId = some r →
    Good Q s.servers s.posted r mv.key → Q s.posted mv.key mv.vector

section Steps

variable {job : RebalanceJob} {Q : List (Key × Floats) → Key → Floats → Prop}
  {s s' : RebalanceRun}

/-- A step that leaves the client inserts alone. -/
theorem Inv.of_handler (hinv : Inv job Q s) (hinserts : s'.inserts = s.inserts)
    (hviews : ∀ c, s'.views c = s.views c ∨ s'.views c = job.after)
    (hhandler : HandlerInv job Q s'.servers s.posted s'.handler)
    (hsafe : ∀ k, Safe job Q s.servers s.posted s.handler k →
      Safe job Q s'.servers s.posted s'.handler k) : Inv job Q s' := by
  have hposted : s'.posted = s.posted := by rw [posted, posted, hinserts]
  refine ⟨?_, ?_, ?_, ?_⟩
  · intro c
    rcases hviews c with hc | hc
    · rw [hc]
      exact hinv.views c
    · exact .inr hc
  · rw [hinserts]
    exact hinv.targets
  · rw [hposted]
    exact hhandler
  · rw [hinserts, hposted]
    intro ins hins targets hphase t ht htrue hprimary
    exact hsafe _ (hinv.safe ins hins targets hphase t ht htrue hprimary)

theorem Inv.start (hinv : Inv job Q s) (h : handlerStep job s .start = some s') :
    Inv job Q s' := by
  rw [handlerStep] at h
  split at h
  · next hidle =>
      split at h
      · contradiction
      · cases h
        refine hinv.of_handler rfl (fun c => .inl rfl) ?_ ?_
        · rw [afterStart]
          split
          · trivial
          · exact fun x hx => hx
        · rw [hidle]
          exact fun k hk => hk.start
  · contradiction

theorem Inv.list (hinv : Inv job Q s) (h : handlerStep job s .list = some s') :
    Inv job Q s' := by
  have hhandler := hinv.handler
  rw [handlerStep] at h
  split at h
  · next hphase =>
      cases h
      refine hinv.of_handler rfl (fun c => .inl rfl) ?_ ?_
      · change HandlerInv job Q s.servers s.posted (afterSources job)
        rw [afterSources]
        split <;> trivial
      · rw [hphase]
        exact fun k hk => hk.leaveSources
  · next source rest hphase =>
      rw [hphase] at hhandler
      have hrest : ∀ x ∈ rest, x ∈ job.sources := fun x hx => hhandler x (List.mem_cons_of_mem _ hx)
      split at h
      · next hnone =>
          cases h
          refine hinv.of_handler rfl (fun c => .inl rfl) hrest ?_
          rw [hphase]
          exact fun k hk => hk.passOver hnone
      · next p hp =>
          cases h
          have hsource : source ∈ job.sources := hhandler source List.mem_cons_self
          refine hinv.of_handler rfl (fun c => .inl rfl) ⟨hsource, ?_, hrest⟩ ?_
          · exact (s.servers p.address).idMap.nodup.filter _
          · rw [hphase]
            exact fun k hk => hk.list hp hsource
  · contradiction

theorem Inv.get (hinv : Inv job Q s) (h : handlerStep job s .get = some s') :
    Inv job Q s' := by
  have hhandler := hinv.handler
  rw [handlerStep] at h
  split at h
  · next source rest hphase =>
      rw [hphase] at hhandler
      cases h
      refine hinv.of_handler rfl (fun c => .inl rfl) hhandler.2.2 ?_
      rw [hphase]
      exact fun k hk => hk.leaveKeys
  · next source x ks rest hphase =>
      rw [hphase] at hhandler
      split at h
      · next hnone =>
          cases h
          refine hinv.of_handler rfl (fun c => .inl rfl) ?_ ?_
          · exact ⟨hhandler.1, (List.nodup_cons.mp hhandler.2.1).2, hhandler.2.2⟩
          · rw [hphase]
            exact fun k hk => hk.skip hnone hhandler.1
      · next mv hfetch =>
          cases h
          refine hinv.of_handler rfl (fun c => .inl rfl) (HandlerInv.get hfetch hhandler) ?_
          rw [hphase]
          exact fun k hk => hk.get hfetch hhandler.1
  · contradiction

theorem Inv.insertAt {i : Nat} (hinv : Inv job Q s)
    (hok : NoLostUpdate job Q s (.handler (.insertAt i)))
    (h : handlerStep job s (.insertAt i) = some s') : Inv job Q s' := by
  have hhandler := hinv.handler
  rw [handlerStep] at h
  split at h
  · next mv ks rest hphase =>
      rw [hphase] at hhandler
      rcases Option.bind_eq_some_iff.mp h with ⟨r, hr, h⟩
      dsimp only at h
      split at h
      · next haccepted =>
          cases h
          refine hinv.of_handler rfl (fun c => .inl rfl) (hhandler.insertAt haccepted hr) ?_
          rw [hphase]
          rcases hhandler with ⟨-, q, hmove, hpending, -⟩
          have hdest := hmove.dest ▸ hpending r (List.mem_of_getElem? hr)
          intro k hk
          exact hk.insertAt haccepted (mem_replicasForShard.mp hdest).1 hr hmove.pending
            (hok.dest i mv ks rest r rfl hphase hr)
      · contradiction
  · contradiction

theorem Inv.deleteAt {i : Nat} (hinv : Inv job Q s)
    (h : handlerStep job s (.deleteAt i) = some s') : Inv job Q s' := by
  have hhandler := hinv.handler
  rw [handlerStep] at h
  split at h
  · next mv ks rest hphase =>
      rw [hphase] at hhandler
      rcases Option.bind_eq_some_iff.mp h with ⟨r, hr, h⟩
      cases h
      refine hinv.of_handler rfl (fun c => .inl rfl) (hhandler.deleteAt hr) ?_
      rw [hphase]
      exact fun k hk => hk.deleteAt hr hhandler
  · contradiction

theorem Inv.commit (hinv : Inv job Q s) (h : handlerStep job s .commit = some s') :
    Inv job Q s' := by
  rw [handlerStep] at h
  split at h
  · split at h
    · contradiction
    · cases h
      exact hinv.of_handler rfl (fun c => .inl rfl) hinv.handler fun k hk => hk
  · contradiction

theorem views_update (views : Nat → CoordinatorState) (c c' : Nat) (view : CoordinatorState) :
    Function.update views c view c' = views c' ∨ Function.update views c view c' = view := by
  by_cases hc : c' = c
  · exact .inr (by rw [hc, Function.update_self])
  · exact .inl (Function.update_of_ne hc _ _)

theorem Inv.resume (hinv : Inv job Q s) (h : handlerStep job s .resume = some s') :
    Inv job Q s' := by
  rw [handlerStep] at h
  split at h
  · next hphase =>
      split at h
      · cases h
        refine hinv.of_handler rfl (fun c => views_update _ _ _ _) ?_ ?_
        · change HandlerInv job Q s.servers s.posted (afterApply job)
          rw [afterApply]
          split
          · exact fun x hx => hx
          · trivial
        · rw [hphase]
          exact fun k hk => hk.apply
      · contradiction
  · contradiction

end Steps

/-! ## Steps of the clients -/

section SetPhase

variable {s : RebalanceRun} {n : Nat} {phase : InsertPhase}

@[simp]
theorem setPhase_servers : (s.setPhase n phase).servers = s.servers := rfl

@[simp]
theorem setPhase_views : (s.setPhase n phase).views = s.views := rfl

@[simp]
theorem setPhase_handler : (s.setPhase n phase).handler = s.handler := rfl

@[simp]
theorem setPhase_posted : (s.setPhase n phase).posted = s.posted := by
  apply List.ext_getElem?
  intro j
  rw [posted, posted, setPhase, List.getElem?_map, List.getElem?_map, List.getElem?_modify]
  cases s.inserts[j]? with
  | none => rfl
  | some ins =>
      by_cases hj : n = j
      · simp [hj]
      · simp [hj]

/-- The inserts after the phase of one was set. -/
theorem mem_setPhase {ins' : ClientInsert} (h : ins' ∈ (s.setPhase n phase).inserts) :
    ins' ∈ s.inserts ∨ ∃ ins, s.inserts[n]? = some ins ∧ ins' = { ins with phase := phase } := by
  rcases List.mem_iff_getElem?.mp h with ⟨j, hj⟩
  rw [setPhase, List.getElem?_modify] at hj
  rcases Option.map_eq_some_iff.mp hj with ⟨ins, hins, heq⟩
  by_cases hnj : n = j
  · rw [if_pos hnj] at heq
    exact .inr ⟨ins, hnj ▸ hins, heq.symm⟩
  · rw [if_neg hnj] at heq
    exact .inl (heq ▸ List.mem_of_getElem? hins)

theorem mem_posted {ins : ClientInsert} (h : ins ∈ s.inserts) :
    (ins.externalId, ins.vector) ∈ s.posted :=
  List.mem_map_of_mem h

end SetPhase

section ClientSteps

variable {job : RebalanceJob} {Q : List (Key × Floats) → Key → Floats → Prop}
  {s s' : RebalanceRun}

theorem Inv.post (hQ : Vouching Q) (hinv : Inv job Q s) {c : Nat} {k : Key} {v : Floats}
    {m : Bytes} (h : clientStep s (.post c k v m) = some s') : Inv job Q s' := by
  cases h
  have hposted : ∀ ins : ClientInsert,
      posted { s with inserts := s.inserts ++ [ins] } =
        s.posted ++ [(ins.externalId, ins.vector)] := by
    intro ins
    simp [posted]
  -- A new request writes nothing.
  have hphase : ∀ targets, (if s.flags c then InsertPhase.refused else .checked) ≠
      .writing targets := by
    intro targets heq
    split at heq <;> contradiction
  refine ⟨hinv.views, ?_, ?_, ?_⟩
  · intro ins hins targets htargets
    rcases List.mem_append.mp hins with hold | hnew
    · exact hinv.targets ins hold targets htargets
    · rw [List.mem_singleton] at hnew
      rw [hnew] at htargets
      exact absurd htargets (hphase targets)
  · rw [hposted]
    exact hinv.handler.append hQ _
  · intro ins hins targets htargets t ht htrue hprimary
    rw [hposted]
    rcases List.mem_append.mp hins with hold | hnew
    · exact (hinv.safe ins hold targets htargets t ht htrue hprimary).append hQ _
    · rw [List.mem_singleton] at hnew
      rw [hnew] at htargets
      exact absurd htargets (hphase targets)

/-- A request that goes on without a write. -/
theorem Inv.goOn (hinv : Inv job Q s) (n : Nat) (phase : InsertPhase)
    (hphase : ∀ targets, phase = .writing targets →
      (∃ shardId, targets.map (·.1) = replicasForShard job.pool shardId) ∧
        ∀ t ∈ targets, t.2 = none) : Inv job Q (s.setPhase n phase) := by
  refine ⟨hinv.views, ?_, ?_, ?_⟩
  · intro ins' hins' targets htargets
    rcases mem_setPhase hins' with hold | ⟨ins, -, rfl⟩
    · exact hinv.targets ins' hold targets htargets
    · rcases hphase targets htargets with ⟨hshard, hnone⟩
      refine ⟨hshard, ?_⟩
      intro t ht ok hok
      rw [hnone t ht] at hok
      contradiction
  · rw [setPhase_posted]
    exact hinv.handler
  · intro ins' hins' targets htargets t ht htrue hprimary
    rw [setPhase_posted]
    rcases mem_setPhase hins' with hold | ⟨ins, -, rfl⟩
    · exact hinv.safe ins' hold targets htargets t ht htrue hprimary
    · rw [(hphase targets htargets).2 t ht] at htrue
      contradiction

theorem Inv.readRing (hinv : Inv job Q s) {n : Nat}
    (h : clientStep s (.readRing n) = some s') : Inv job Q s' := by
  rcases Option.bind_eq_some_iff.mp h with ⟨ins, hins, h⟩
  split at h
  · cases h
    exact hinv.goOn n _ fun targets htargets => by contradiction
  · contradiction

theorem Inv.readPool (hinv : Inv job Q s) {n : Nat}
    (h : clientStep s (.readPool n) = some s') : Inv job Q s' := by
  rcases Option.bind_eq_some_iff.mp h with ⟨ins, hins, h⟩
  split at h
  · next ring _ =>
      cases h
      apply hinv.goOn n
      intro targets htargets
      rw [afterPool] at htargets
      split at htargets
      · contradiction
      · next hne =>
          cases htargets
          refine ⟨?_, by simp⟩
          rw [targetsOf] at hne ⊢
          split
          · next hnone => simp [hnone] at hne
          · next shardId hroute =>
              rw [hroute] at hne
              refine ⟨shardId, ?_⟩
              rw [List.map_map]
              rcases job.replicas_of_view (hinv.views ins.coordinator) shardId with hnil | hsame
              · exact absurd hnil hne
              · rw [hsame]
                exact List.map_id _
  · contradiction

/-- What a handled request leaves behind. -/
theorem handle_cases {n i : Nat} (h : clientStep s (.handle n i) = some s') :
    ∃ ins targets r handled, s.inserts[n]? = some ins ∧ ins.phase = .writing targets ∧
      targets[i]? = some (r, none) ∧ (s.servers r.address).currentEpoch ≤ r.epoch ∧
      handled = (s.servers r.address).insert
        ⟨ins.externalId, ins.vector, ins.metadata, r.epoch⟩ ∧
      s' = setPhase { s with servers := Function.update s.servers r.address handled.2 } n
        (.writing (targets.set i (r, some handled.1.ok))) := by
  rcases Option.bind_eq_some_iff.mp h with ⟨ins, hins, h⟩
  split at h
  · next targets hphase =>
      rcases Option.bind_eq_some_iff.mp h with ⟨⟨r, answer⟩, ht, h⟩
      dsimp only at h
      split at h
      · next hguard =>
          cases h
          exact ⟨ins, targets, r, _, hins, hphase, hguard.1 ▸ ht, hguard.2, rfl, rfl⟩
      · contradiction
  · contradiction

/-- The answer of a replica that accepts the epoch. -/
theorem insert_answer {server : ShardServer} {k : Key} {v : Floats} {m : Bytes} {epoch : Nat}
    (h : server.currentEpoch ≤ epoch) :
    (server.insert ⟨k, v, m, epoch⟩).1.ok = decide (v.length = vectorDim) := by
  rw [Bool.eq_iff_iff, ShardServer.insert_ok_iff, decide_eq_true_iff]
  exact and_iff_left h

theorem Inv.handle (hQ : Vouching Q) (hinv : Inv job Q s) {n i : Nat}
    (htime : InTime job s (.client (.handle n i)))
    (hupdate : NoLostUpdate job Q s (.client (.handle n i)))
    (h : clientStep s (.handle n i) = some s') : Inv job Q s' := by
  rcases handle_cases h with ⟨ins, targets, r, handled, hins, hphase, ht, hepoch, hhandled, rfl⟩
  have hmem := List.mem_of_getElem? hins
  have hat : s.handledAt (.client (.handle n i)) = some (ins, r) := by
    simp [handledAt, hins, hphase, ht]
  rcases hinv.targets ins hmem targets hphase with ⟨⟨shardId, hshard⟩, hanswers⟩
  have hr : r ∈ job.pool := by
    have hfst : r ∈ targets.map (·.1) := List.mem_map_of_mem (List.mem_of_getElem? ht)
    rw [hshard] at hfst
    exact (mem_replicasForShard.mp hfst).1
  have hanswer : handled.1.ok = decide (ins.vector.length = vectorDim) := by
    rw [hhandled]
    exact insert_answer hepoch
  -- A refused insert changes nothing, an accepted one spoils nothing.
  have hkeep : HandlerInv job Q (Function.update s.servers r.address handled.2) s.posted s.handler ∧
      ∀ k, Safe job Q s.servers s.posted s.handler k →
        Safe job Q (Function.update s.servers r.address handled.2) s.posted s.handler k := by
    cases hok : handled.1.ok with
    | false =>
        rw [hhandled] at hok ⊢
        rw [ShardServer.insert_refused hok, Function.update_eq_self]
        exact ⟨hinv.handler, fun k hk => hk⟩
    | true =>
        rw [hhandled] at hok ⊢
        refine ⟨hinv.handler.client hQ hok (mem_posted hmem) hr ?_,
          fun k hk => hk.client hQ hok (mem_posted hmem)⟩
        intro mv hleaving hkey
        exact hupdate.source ins r mv hat hleaving hkey
  refine ⟨hinv.views, ?_, ?_, ?_⟩
  · intro ins' hins' targets' htargets'
    rcases mem_setPhase hins' with hold | ⟨ins₀, hins₀, rfl⟩
    · exact hinv.targets ins' hold targets' htargets'
    · have heq : ins₀ = ins := Option.some_inj.mp (hins₀.symm.trans hins)
      cases htargets'
      refine ⟨⟨shardId, ?_⟩, ?_⟩
      · rcases List.getElem?_eq_some_iff.mp ht with ⟨hi, hti⟩
        have hfst : (targets.map (·.1))[i]? = some r := by
          rw [List.getElem?_map, ht]
          rfl
        rcases List.getElem?_eq_some_iff.mp hfst with ⟨hi, hri⟩
        rw [← hshard, List.map_set, ← hri, List.set_getElem_self]
      · intro t htmem ok hok
        rw [heq]
        rcases List.mem_or_eq_of_mem_set htmem with hold | rfl
        · exact hanswers t hold ok hok
        · cases hok
          exact hanswer
  · rw [setPhase_posted]
    exact hkeep.1
  · intro ins' hins' targets' htargets' t htmem htrue hprimary
    rw [setPhase_posted]
    rcases mem_setPhase hins' with hold | ⟨ins₀, hins₀, rfl⟩
    · exact hkeep.2 _ (hinv.safe ins' hold targets' htargets' t htmem htrue hprimary)
    · have heq : ins₀ = ins := Option.some_inj.mp (hins₀.symm.trans hins)
      cases htargets'
      rw [heq]
      rcases List.mem_or_eq_of_mem_set htmem with hold | rfl
      · exact hkeep.2 _ (hinv.safe ins hmem targets hphase t hold htrue hprimary)
      · have hok : handled.1.ok = true := Option.some_inj.mp htrue
        rw [hhandled] at hok ⊢
        have hgood := Good.client_self hQ hok (mem_posted hmem)
        rcases job.mem_finalIds_or hr with hfinal | hreq
        · exact .inl ⟨r, hprimary, hfinal, hgood⟩
        · exact .inr (.inl ⟨r, hprimary, hreq, htime ins r hat hreq hprimary, hgood⟩)

end ClientSteps

/-! ## Whole runs -/

section Runs

variable {job : RebalanceJob} {Q : List (Key × Floats) → Key → Floats → Prop}
  {servers : Servers} {s s' : RebalanceRun} {act : RunAction}

theorem Inv.init (job : RebalanceJob) (Q : List (Key × Floats) → Key → Floats → Prop)
    (servers : Servers) : Inv job Q (RebalanceRun.start job servers) where
  views _ := .inl rfl
  targets _ hins := absurd hins List.not_mem_nil
  handler := trivial
  safe _ hins := absurd hins List.not_mem_nil

/-- Every step that meets the two conditions keeps the invariant. -/
theorem Inv.step (hQ : Vouching Q) (hinv : Inv job Q s)
    (hok : InTime job s act ∧ NoLostUpdate job Q s act)
    (h : RebalanceRun.step job s act = some s') : Inv job Q s' := by
  cases act with
  | handler act =>
      cases act with
      | start => exact hinv.start h
      | list => exact hinv.list h
      | get => exact hinv.get h
      | insertAt i => exact hinv.insertAt hok.2 h
      | deleteAt i => exact hinv.deleteAt h
      | commit => exact hinv.commit h
      | resume => exact hinv.resume h
  | client act =>
      cases act with
      | post c k v m => exact hinv.post hQ h
      | readRing n => exact hinv.readRing h
      | readPool n => exact hinv.readPool h
      | handle n i => exact hinv.handle hQ hok.1 hok.2 h
  | apply c =>
      rw [RebalanceRun.step] at h
      split at h
      · cases h
        exact hinv.of_handler rfl (fun c' => views_update _ _ _ _) hinv.handler fun k hk => hk
      · contradiction

theorem Inv.run (hQ : Vouching Q) {as : List RunAction}
    (h : Exec (RebalanceRun.step job) (fun s act => InTime job s act ∧ NoLostUpdate job Q s act)
      (RebalanceRun.start job servers) as s) : Inv job Q s :=
  h.invariant (Inv job Q) (fun _ _ _ hinv hok hstep => hinv.step hQ hok hstep)
    (Inv.init job Q servers)

/-- A created insert was accepted by its shard's primary. -/
theorem exists_primary_of_created (hinv : Inv job Q s) {ins : ClientInsert} (hins : ins ∈ s.inserts)
    (hcreated : ins.created = true) :
    ∃ targets t, ins.phase = .writing targets ∧ t ∈ targets ∧ t.2 = some true ∧
      findPrimary job.pool t.1.shardId = some t.1 := by
  rw [ClientInsert.created] at hcreated
  split at hcreated
  · next targets hphase =>
      rw [Bool.and_eq_true, List.all_eq_true] at hcreated
      rcases hcreated with ⟨hall, hquorum⟩
      rcases hinv.targets ins hins targets hphase with ⟨⟨shardId, hshard⟩, hanswers⟩
      rw [quorumResult_ok_iff] at hquorum
      -- Some replica accepted the insert, so its vector is one that all replicas accept.
      have hlen : decide (ins.vector.length = vectorDim) = true := by
        have hpos : 0 < (targets.map fun t => (t.1, t.2 == some true)).countP (·.2) := by omega
        rcases List.countP_pos_iff.mp hpos with ⟨answer, hanswer, htrue⟩
        rcases List.mem_map.mp hanswer with ⟨t, ht, rfl⟩
        rw [beq_iff_eq] at htrue
        exact (hanswers t ht true htrue).symm
      rcases exists_primary_of_primaryOk hquorum.1 with ⟨answer, hanswer, hisPrimary⟩
      rcases List.mem_map.mp hanswer with ⟨t₀, ht₀, rfl⟩
      rcases exists_findPrimary (hshard ▸ List.mem_map_of_mem ht₀) hisPrimary with ⟨p, hp⟩
      rcases findPrimary_mem hp with ⟨hppool, hpid, -⟩
      have hpmem : p ∈ targets.map (·.1) := by
        rw [hshard]
        exact mem_replicasForShard.mpr ⟨hppool, hpid⟩
      rcases List.mem_map.mp hpmem with ⟨t, ht, rfl⟩
      rcases Option.isSome_iff_exists.mp (hall t ht) with ⟨ok, hok⟩
      refine ⟨targets, t, hphase, ht, ?_, ?_⟩
      · rw [hok, hanswers t ht ok hok, hlen]
      · rw [hpid]
        exact hp
  · contradiction

/-- Where the key of a created insert is when the handler is done. -/
theorem Inv.present (hinv : Inv job Q s) (hdone : s.handler = .done) {ins : ClientInsert}
    (hins : ins ∈ s.inserts) (hcreated : ins.created = true) {c : Nat}
    (hview : s.views c = job.after) :
    ∃ shardId p v, findPrimary (activeClients (s.views c).shards) shardId = some p ∧
      (s.servers p.address).liveVector ins.externalId = some v ∧
      Q s.posted ins.externalId v := by
  rcases exists_primary_of_created hinv hins hcreated with
    ⟨targets, t, hphase, ht, htrue, hprimary⟩
  have hsafe := hinv.safe ins hins targets hphase t ht htrue hprimary
  rw [hdone] at hsafe
  rcases hsafe with ⟨p, hp, hfinal, v, hv, hq⟩ | ⟨p, -, -, hwaits, -⟩ |
    ⟨mv, ks, rest, q, hhandler, -⟩
  · refine ⟨p.shardId, p, v, ?_, hv, hq⟩
    rw [hview, job.findPrimary_after hfinal, hp]
  · exact False.elim hwaits
  · contradiction

/-- The client of a posted insert is vouched for. -/
theorem vouching_posted : Vouching fun l k v => (k, v) ∈ l where
  posted _ _ _ h := h
  append _ _ _ _ h := List.mem_append_left _ h

theorem vouching_true : Vouching fun _ _ _ => True where
  posted _ _ _ _ := trivial
  append _ _ _ _ _ := trivial

end Runs

/-- In every run whose inserts reach the leaving primary in time, each insert that was
answered with 201 is on the primary of an active shard when the handler is done, for every
coordinator that has applied the command.  If no update is lost to a moved copy, the
vector there is a client's. -/
theorem created_insert_present (job : RebalanceJob) (servers : Servers) (as : List RunAction)
    (s : RebalanceRun) (hrun : Exec (step job) (InTime job) (start job servers) as s)
    (hdone : s.handler = .done) (c : Nat) (hview : s.views c = job.after) (ins : ClientInsert)
    (hins : ins ∈ s.inserts) (hcreated : ins.created = true) :
    (∃ shardId p v, findPrimary (activeClients (s.views c).shards) shardId = some p ∧
      (s.servers p.address).liveVector ins.externalId = some v) ∧
    (Exec (step job) (fun s act => InTime job s act ∧
        NoLostUpdate job (fun l k v => (k, v) ∈ l) s act) (start job servers) as s →
      ∃ shardId p v, findPrimary (activeClients (s.views c).shards) shardId = some p ∧
        (s.servers p.address).liveVector ins.externalId = some v ∧
        (ins.externalId, v) ∈ s.posted) := by
  constructor
  · have hinv : Inv job (fun _ _ _ => True) s := by
      refine Inv.run vouching_true (hrun.weaken ?_)
      intro s act htime
      exact ⟨htime, ⟨fun _ _ _ _ _ _ => trivial, fun _ _ _ _ _ _ _ _ _ _ => trivial⟩⟩
    rcases hinv.present hdone hins hcreated hview with ⟨shardId, p, v, hp, hv, -⟩
    exact ⟨shardId, p, v, hp, hv⟩
  · intro hrun'
    exact (Inv.run vouching_posted hrun').present hdone hins hcreated hview

/-! ## Removing one of two shards -/

/-- Coordinator 0 removes the second of two shards. -/
def removeSecond : RebalanceJob where
  leader := 0
  req := .remove 1
  co := twoShards
  epoch := 1
  valid := ⟨by decide +kernel, by decide +kernel, by decide +kernel⟩
  own := by
    change OwnProcesses (activeClients twoShards.shards)
    decide +kernel
  primaries := by
    have hall : ∀ sc ∈ activeClients twoShards.shards,
        (findPrimary (activeClients twoShards.shards) sc.shardId).isSome = true := by
      decide +kernel
    exact fun _ _ sc hsc _ => hall sc hsc

theorem pool_removeSecond : removeSecond.pool = [firstShard, secondShard] := by
  change activeClients twoShards.shards = _
  decide +kernel

theorem findPrimary_removeSecond : findPrimary removeSecond.pool 1 = some secondShard := by
  rw [pool_removeSecond]
  decide

theorem targetsOf_twoShards :
    targetsOf twoShards.ring (activeClients twoShards.shards) [97] = [secondShard] := by
  have hids : activeIds twoShards.shards = [0, 1] := by decide +kernel
  have hring : twoShards.ring = HashRing.build [0, 1] := by
    rw [← hids]
    rfl
  rw [targetsOf, hring, route_twoShards]
  change replicasForShard removeSecond.pool 1 = _
  rw [pool_removeSecond]
  decide

/-- Coordinator 1 has received an insert and fired it at the second shard. -/
def fired (answer : Option Bool) : ClientInsert :=
  ⟨1, [97], zeroVector, [], .writing [(secondShard, answer)]⟩

/-- A state before the command is applied. -/
def midway (servers : Servers) (flags : Nat → Bool) (handler : HandlerPhase)
    (answer : Option Bool) : RebalanceRun where
  servers := servers
  views := fun _ => twoShards
  flags := flags
  handler := handler
  inserts := [fired answer]

/-- Only handled inserts and moved copies have conditions. -/
theorem quiet {job : RebalanceJob} {Q : List (Key × Floats) → Key → Floats → Prop}
    {s : RebalanceRun} {act : RunAction} (hhandled : s.handledAt act = none)
    (hmoved : ∀ i, act ≠ .handler (.insertAt i)) :
    InTime job s act ∧ NoLostUpdate job Q s act := by
  refine ⟨?_, ?_, ?_⟩
  · intro ins r h
    rw [hhandled] at h
    contradiction
  · intro ins r mv h
    rw [hhandled] at h
    contradiction
  · intro i mv ks rest r h
    exact absurd h (hmoved i)

/-- The request of coordinator 1 up to its write. -/
theorem exec_fire (Q : List (Key × Floats) → Key → Floats → Prop) :
    Exec (step removeSecond)
      (fun s act => InTime removeSecond s act ∧ NoLostUpdate removeSecond Q s act)
      (start removeSecond fun _ => {})
      [.client (.post 1 [97] zeroVector []), .client (.readRing 0), .client (.readPool 0)]
      (midway (fun _ => {}) (fun _ => false) .idle none) := by
  refine .cons (quiet rfl (by simp)) rfl (.cons (quiet rfl (by simp)) rfl
    (.cons (quiet rfl (by simp)) ?_ (.nil _)))
  change some (setPhase _ 0 (afterPool (targetsOf twoShards.ring
    (activeClients twoShards.shards) [97]))) = _
  rw [targetsOf_twoShards]
  rfl

/-- The second shard once it has handled the insert. -/
def stored : Servers :=
  Function.update (fun _ => {}) secondShard.address
    (({} : ShardServer).insert ⟨[97], zeroVector, [], 0⟩).2

/-- The leader's flag while its handler runs. -/
def flagged : Nat → Bool :=
  Function.update (fun _ => false) 0 true

/-- The end of the run: the handler has returned and both coordinators have applied the
command. -/
def finished (servers : Servers) : RebalanceRun where
  servers := servers
  views := Function.update (Function.update (fun _ => twoShards) 0 removeSecond.after) 1
    removeSecond.after
  flags := Function.update flagged 0 false
  committed := true
  handler := .done
  inserts := [fired (some true)]

/-- The handler from the end of its loop over the keys on. -/
theorem exec_finish (Q : List (Key × Floats) → Key → Floats → Prop) (servers : Servers) :
    Exec (step removeSecond)
      (fun s act => InTime removeSecond s act ∧ NoLostUpdate removeSecond Q s act)
      (midway servers flagged (.keys 1 [] []) (some true))
      [.handler .get, .handler .list, .handler .commit, .handler .resume, .apply 1]
      (finished servers) :=
  .cons (quiet rfl (by simp)) rfl (.cons (quiet rfl (by simp)) rfl
    (.cons (quiet rfl (by simp)) rfl (.cons (quiet rfl (by simp)) rfl
      (.cons (quiet rfl (by simp)) rfl (.nil _)))))

theorem step_start (servers : Servers) (answer : Option Bool) :
    step removeSecond (midway servers (fun _ => false) .idle answer) (.handler .start) =
      some (midway servers flagged (.sources [1]) answer) := rfl

theorem step_list (servers : Servers) (answer : Option Bool) :
    step removeSecond (midway servers flagged (.sources [1]) answer) (.handler .list) =
      some (midway servers flagged
        (.keys 1 (servers secondShard.address).listLocalIds []) answer) := by
  simp [step, handlerStep, midway, findPrimary_removeSecond, enter]

/-- The second shard handles the insert. -/
theorem step_handle (flags : Nat → Bool) (handler : HandlerPhase) :
    step removeSecond (midway (fun _ => {}) flags handler none) (.client (.handle 0 0)) =
      some (midway stored flags handler (some true)) := by
  have hok : (({} : ShardServer).insert ⟨[97], zeroVector, [], 0⟩).1.ok = true := by
    decide +kernel
  simp [step, clientStep, midway, fired, hok, setPhase, stored, secondShard, ofEndpoint]

/-- The key that is moved. -/
def moving (pending : List ShardClient) : Move :=
  ⟨1, [firstShard], [97], zeroVector, [], pending⟩

/-- The shards once the key has been copied, and once it has been moved. -/
def copied : Servers :=
  Function.update stored firstShard.address
    ((stored firstShard.address).insert ⟨[97], zeroVector, [], firstShard.epoch⟩).2

def moved : Servers :=
  Function.update copied secondShard.address
    ((copied secondShard.address).delete ⟨[97], secondShard.epoch⟩).2

/-- Only the first shard remains, so every key goes there. -/
theorem plan_removeSecond (k : Key) : removeSecond.plan k = .moveTo [firstShard] := by
  rcases removeSecond.plan_remove rfl k with ⟨destReplicas, hplan⟩
  rcases removeSecond.plan_moveTo hplan with ⟨dest, hfinal, -, hdest⟩
  have hids : removeSecond.finalIds = [0] := by
    change activeIds (RebalanceRequest.after (.remove 1) twoShards 1).shards = [0]
    decide +kernel
  rw [hids, List.mem_singleton] at hfinal
  rw [hplan, hdest, hfinal, pool_removeSecond]
  rfl

theorem fetch_removeSecond :
    fetch removeSecond stored 1 [97] = some (moving [firstShard]) := by
  have hgres : (stored secondShard.address).getVector [97] = ⟨true, "", zeroVector, []⟩ := by
    decide +kernel
  rw [fetch, plan_removeSecond]
  dsimp only
  rw [findPrimary_removeSecond, Option.bind_some, hgres, if_pos rfl, moving]

theorem handlerStep_get {job : RebalanceJob} {s : RebalanceRun} {source : Int} {k : Key}
    {ks : List Key} {rest : List Int} {mv : Move} (hphase : s.handler = .keys source (k :: ks) rest)
    (hfetch : fetch job s.servers source k = some mv) :
    handlerStep job s .get = some (enter job s (.inserting mv ks rest)) := by
  simp [handlerStep, hphase, hfetch]

theorem step_get :
    step removeSecond (midway stored flagged (.keys 1 [[97]] []) (some true)) (.handler .get) =
      some (midway stored flagged (.inserting (moving [firstShard]) [] []) (some true)) := by
  rw [step, handlerStep_get (s := midway stored flagged (.keys 1 [[97]] []) (some true)) rfl
    fetch_removeSecond]
  rfl

theorem step_insertAt :
    step removeSecond (midway stored flagged (.inserting (moving [firstShard]) [] []) (some true))
      (.handler (.insertAt 0)) =
      some (midway copied flagged (.deleting (moving [secondShard]) [] []) (some true)) := by
  have hok : ((stored firstShard.address).insert
      ⟨[97], zeroVector, [], firstShard.epoch⟩).1.ok = true := by decide +kernel
  have hquorum : (quorumResult [(firstShard, true)]).ok = true := by decide
  have hsources : replicasForShard removeSecond.pool 1 = [secondShard] := by
    rw [pool_removeSecond]
    decide
  simp [step, handlerStep, midway, moving, hok, hquorum, hsources, afterInsert, enter, copied]

theorem step_deleteAt :
    step removeSecond (midway copied flagged (.deleting (moving [secondShard]) [] []) (some true))
      (.handler (.deleteAt 0)) =
      some (midway moved flagged (.keys 1 [] []) (some true)) := by
  simp [step, handlerStep, midway, moving, afterDelete, enter, moved]

/-- A run in which the insert is listed and moved. -/
theorem exec_move :
    Exec (step removeSecond)
      (fun s act => InTime removeSecond s act ∧
        NoLostUpdate removeSecond (fun l k v => (k, v) ∈ l) s act)
      (midway (fun _ => {}) (fun _ => false) .idle none)
      [.client (.handle 0 0), .handler .start, .handler .list, .handler .get,
        .handler (.insertAt 0), .handler (.deleteAt 0)]
      (midway moved flagged (.keys 1 [] []) (some true)) := by
  have hlisted : (stored secondShard.address).listLocalIds = [[97]] := by decide +kernel
  have hlist := step_list stored (some true)
  rw [hlisted] at hlist
  have hhandle : InTime removeSecond (midway (fun _ => {}) (fun _ => false) .idle none)
      (.client (.handle 0 0)) ∧ NoLostUpdate removeSecond (fun l k v => (k, v) ∈ l)
      (midway (fun _ => {}) (fun _ => false) .idle none) (.client (.handle 0 0)) := by
    refine ⟨fun _ _ _ _ _ => trivial, ?_, ?_⟩
    · rintro ins r mv - ⟨-, ⟨ks, rest, hphase⟩ | ⟨ks, rest, hphase, -⟩⟩ <;> cases hphase
    · intro i mv ks rest r h
      cases h
  have hinsert : InTime removeSecond
      (midway stored flagged (.inserting (moving [firstShard]) [] []) (some true))
      (.handler (.insertAt 0)) ∧ NoLostUpdate removeSecond (fun l k v => (k, v) ∈ l)
      (midway stored flagged (.inserting (moving [firstShard]) [] []) (some true))
      (.handler (.insertAt 0)) := by
    refine ⟨?_, ?_, ?_⟩
    · intro ins r h
      cases h
    · intro ins r mv h
      cases h
    · rintro i mv ks rest r - hphase - - -
      cases hphase
      exact List.mem_singleton_self _
  exact .cons hhandle (step_handle _ _) (.cons (quiet rfl (by simp)) (step_start _ _)
    (.cons (quiet rfl (by simp)) hlist (.cons (quiet rfl (by simp)) step_get
      (.cons hinsert step_insertAt (.cons (quiet rfl (by simp)) step_deleteAt (.nil _))))))

theorem created_insert_present_movedInTime :
    ∃ shardId p v, findPrimary (activeClients removeSecond.after.shards) shardId = some p ∧
      (moved p.address).liveVector [97] = some v ∧ ([97], v) ∈ (finished moved).posted := by
  have hrun := ((exec_fire _).append exec_move).append (exec_finish _ moved)
  exact (created_insert_present removeSecond _ _ (finished moved) (hrun.weaken fun _ _ h => h.1)
    rfl 0 rfl (fired (some true)) (List.mem_singleton_self _) (by decide +kernel)).2 hrun

/-- The insert reaches the second shard after its keys were listed.  It is answered with
201, and no active replica has it in the end. -/
theorem created_insert_lost :
    ∃ as s, Exec (step removeSecond) (fun _ _ => True) (start removeSecond fun _ => {}) as s ∧
      s.handler = .done ∧ (∀ c < 2, s.views c = removeSecond.after) ∧
      ∃ ins ∈ s.inserts, ins.created = true ∧
        ∀ sc ∈ activeClients removeSecond.after.shards,
          (s.servers sc.address).liveVector ins.externalId = none := by
  have hfire : Exec (step removeSecond) (fun _ _ => True) (start removeSecond fun _ => {}) _
      (midway (fun _ => {}) (fun _ => false) .idle none) :=
    (exec_fire fun _ _ _ => True).weaken fun _ _ _ => trivial
  have hfinish : Exec (step removeSecond) (fun _ _ => True)
      (midway stored flagged (.keys 1 [] []) (some true)) _ (finished stored) :=
    (exec_finish (fun _ _ _ => True) stored).weaken fun _ _ _ => trivial
  have hlist : Exec (step removeSecond) (fun _ _ => True)
      (midway (fun _ => {}) (fun _ => false) .idle none)
      [.handler .start, .handler .list, .client (.handle 0 0)]
      (midway stored flagged (.keys 1 [] []) (some true)) :=
    .cons trivial (step_start _ _) (.cons trivial (step_list _ _)
      (.cons trivial (step_handle _ _) (.nil _)))
  refine ⟨_, _, (hfire.append hlist).append hfinish, rfl, ?_, fired (some true),
    List.mem_singleton_self _, by decide +kernel, ?_⟩
  · intro c hc
    have hc : c = 0 ∨ c = 1 := by omega
    rcases hc with rfl | rfl
    · rfl
    · rfl
  · change ∀ sc ∈ activeClients (RebalanceRequest.after (.remove 1) twoShards 1).shards, _
    rw [active_removed]
    intro sc hsc
    rw [List.mem_singleton.mp hsc]
    decide +kernel

end RebalanceRun

end NanoDB.Coordinator
