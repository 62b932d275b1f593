import NanoDB.Coordinator.Migration

/-!
# Moving one key, RPC by RPC

{lit}`migrate_one_key` as a system of steps.  The coordinator reads the key from the source's
primary, fires the inserts and waits for all of their futures, fires the deletes and waits for
those.  A request takes effect at its replica at most once, at any time after it was sent and
also after its future has returned; a future returns the answer of the replica, or an error at
any time.  Nobody else writes, and the clients do not change.

Main results:

- Theorem {lit}`KeyMove.step_cases`: what one step can do.
- Theorem {lit}`KeyMoveInv.step`: until the deletes are fired the source's primary holds the key,
  from then on the destination's primary does.
- Theorem {lit}`migrate_one_key_keeps`: the key never vanishes.
- Theorem {lit}`exec_migrateOneKey`: the handler as one step, with the fates of its RPCs, is one
  of the runs.
-/

namespace NanoDB.Coordinator

open Cluster (Key)
open Lib (Exec guardedRun)
open Shard (ShardServer Floats GetVectorResponse)

/-! ## The system -/

/-- The arguments of {lit}`migrate_one_key`. -/
structure KeyMove where
  sourcePrimary : ShardClient
  sourceReplicas : List ShardClient
  destReplicas : List ShardClient
  externalId : Key
deriving DecidableEq, Repr

/-- Where {lit}`migrate_one_key` is. -/
inductive KeyMoveStage
  /-- It waits for {lit}`GetVector`. -/
  | reading
  /-- It waits for the futures of {lit}`quorum_insert`. -/
  | inserting
  /-- It waits for the futures of {lit}`quorum_delete`. -/
  | deleting
  | returned (ok : Bool)
deriving DecidableEq, Repr

/-- The servers with the writes in flight, what the source's primary made of the read, and the
stage. -/
structure KeyMoveState where
  group : ShardGroup
  gres : Option GetVectorResponse := none
  stage : KeyMoveStage := .reading

/-- The call begins. -/
def KeyMoveState.start (servers : Servers) : KeyMoveState where
  group := ShardGroup.start servers

inductive KeyMoveAction
  /-- The source's primary handles the read. -/
  | readHandled
  /-- The answer to the read arrives. -/
  | readReturns
  /-- The read fails. -/
  | readFails
  /-- A replica handles request {lit}`i` of write {lit}`w`. -/
  | handle (w i : Nat)
  /-- The answer to a request arrives. -/
  | answer (w i : Nat)
  /-- A request fails. -/
  | fail (w i : Nat)
  /-- All futures of {lit}`quorum_insert` have returned. -/
  | insertReturns
  /-- All futures of {lit}`quorum_delete` have returned. -/
  | deleteReturns
deriving DecidableEq, Repr

/-- Fire a write at all replicas. -/
def ShardGroup.fire (s : ShardGroup) (replicas : List ShardClient) (op : WriteOp) : ShardGroup :=
  { s with writes := s.writes ++ [⟨op, replicas.map fun sc => { client := sc }⟩] }

/-- A step of a request in flight. -/
def GroupAction.IsNetwork : GroupAction → Prop
  | .handle _ _ | .answer _ _ | .timeout _ _ => True
  | .issue _ _ | .crash _ | .restart _ => False

/-- A step of the requests in flight; it does not depend on a replica set. -/
def KeyMoveState.network (s : KeyMoveState) (act : GroupAction) : Option KeyMoveState :=
  (ShardGroup.step ⟨[], List.nodup_nil⟩ s.group act).map fun group => { s with group := group }

namespace KeyMove

def step (m : KeyMove) (s : KeyMoveState) : KeyMoveAction → Option KeyMoveState
  | .readHandled =>
      if s.gres = none then
        some { s with
          gres := some ((s.group.servers m.sourcePrimary.address).getVector m.externalId) }
      else none
  | .readReturns =>
      match s.stage, s.gres with
      | .reading, some gres =>
          if gres.ok = false then some { s with stage := .returned false }
          else
            some { s with
              group := s.group.fire m.destReplicas
                (.insert m.externalId gres.vector gres.metadata)
              stage := .inserting }
      | _, _ => none
  | .readFails => if s.stage = .reading then some { s with stage := .returned false } else none
  | .handle w i => s.network (.handle w i)
  | .answer w i => s.network (.answer w i)
  | .fail w i => s.network (.timeout w i)
  | .insertReturns => do
      let write ← s.group.writes[0]?
      if s.stage = .inserting ∧ write.targets.all (·.returned.isSome) = true then
        if (quorumResult write.answers).ok = false then some { s with stage := .returned false }
        else
          some { s with
            group := s.group.fire m.sourceReplicas (.delete m.externalId)
            stage := .deleting }
      else none
  | .deleteReturns => do
      let write ← s.group.writes[1]?
      -- the result of the deletes is not looked at
      if s.stage = .deleting ∧ write.targets.all (·.returned.isSome) = true then
        some { s with stage := .returned true }
      else none

variable {m : KeyMove} {s s' : KeyMoveState} {act : KeyMoveAction}

/-- What one step can do. -/
theorem step_cases (h : m.step s act = some s') :
    (act = .readHandled ∧ s.gres = none ∧
      s' = { s with
        gres := some ((s.group.servers m.sourcePrimary.address).getVector m.externalId) }) ∨
    (∃ gres, act = .readReturns ∧ s.stage = .reading ∧ s.gres = some gres ∧ gres.ok = true ∧
      s' = { s with
        group := s.group.fire m.destReplicas (.insert m.externalId gres.vector gres.metadata)
        stage := .inserting }) ∨
    ((s.stage = .reading ∨ s.stage = .inserting) ∧ s' = { s with stage := .returned false }) ∨
    (∃ gact group, gact.IsNetwork ∧
      ShardGroup.step ⟨[], List.nodup_nil⟩ s.group gact = some group ∧
      s' = { s with group := group }) ∨
    (∃ write, act = .insertReturns ∧ s.stage = .inserting ∧ s.group.writes[0]? = some write ∧
      (quorumResult write.answers).ok = true ∧
      s' = { s with
        group := s.group.fire m.sourceReplicas (.delete m.externalId)
        stage := .deleting }) ∨
    (act = .deleteReturns ∧ s.stage = .deleting ∧ s' = { s with stage := .returned true }) := by
  have hnetwork : ∀ gact : GroupAction, gact.IsNetwork → s.network gact = some s' →
      ∃ gact group, GroupAction.IsNetwork gact ∧
        ShardGroup.step ⟨[], List.nodup_nil⟩ s.group gact = some group ∧
        s' = { s with group := group } := by
    intro gact hact h
    rw [KeyMoveState.network, Option.map_eq_some_iff] at h
    obtain ⟨group, hgroup, hs'⟩ := h
    exact ⟨gact, group, hact, hgroup, hs'.symm⟩
  cases act with
  | readHandled =>
      simp only [step] at h
      split_ifs at h with hnone
      exact .inl ⟨rfl, hnone, (Option.some_inj.mp h).symm⟩
  | readReturns =>
      simp only [step] at h
      split at h
      · next gres hstage hgres =>
          split_ifs at h with hok
          · exact .inr (.inr (.inl ⟨.inl hstage, (Option.some_inj.mp h).symm⟩))
          · exact .inr (.inl ⟨gres, rfl, hstage, hgres, by simpa using hok,
              (Option.some_inj.mp h).symm⟩)
      · contradiction
  | readFails =>
      simp only [step] at h
      split_ifs at h with hstage
      exact .inr (.inr (.inl ⟨.inl hstage, (Option.some_inj.mp h).symm⟩))
  | handle w i => exact .inr (.inr (.inr (.inl (hnetwork (.handle w i) trivial h))))
  | answer w i => exact .inr (.inr (.inr (.inl (hnetwork (.answer w i) trivial h))))
  | fail w i => exact .inr (.inr (.inr (.inl (hnetwork (.timeout w i) trivial h))))
  | insertReturns =>
      simp only [step, Option.bind_eq_bind, Option.bind_eq_some_iff] at h
      obtain ⟨write, hwrite, h⟩ := h
      split_ifs at h with hdone hok
      · exact .inr (.inr (.inl ⟨.inr hdone.1, (Option.some_inj.mp h).symm⟩))
      · exact .inr (.inr (.inr (.inr (.inl ⟨write, rfl, hdone.1, hwrite, by simpa using hok,
          (Option.some_inj.mp h).symm⟩))))
  | deleteReturns =>
      simp only [step, Option.bind_eq_bind, Option.bind_eq_some_iff] at h
      obtain ⟨write, -, h⟩ := h
      split_ifs at h with hdone
      exact .inr (.inr (.inr (.inr (.inr ⟨rfl, hdone.1, (Option.some_inj.mp h).symm⟩))))

end KeyMove

/-! ## Requests in flight -/

namespace ShardGroup

variable {replicas : ReplicaSet} {s s' : ShardGroup} {act : GroupAction}

/-- What a request in flight can do: take effect, or return. -/
theorem network_cases (hact : act.IsNetwork) (h : step replicas s act = some s') :
    (∃ w i wr t, s.writes[w]? = some wr ∧ s.target w i = some t ∧ t.handled = none ∧
      s' = (s.setTarget w i { t with
          handled := some (wr.op.handle t.client.epoch (s.servers t.client.address)).1 }).setServer
        t.client.address (wr.op.handle t.client.epoch (s.servers t.client.address)).2) ∨
    (∃ w i t ok, s.target w i = some t ∧ (ok = true → t.handled = some true) ∧
      s' = s.setTarget w i { t with returned := some ok }) := by
  rcases step_cases h with ⟨clients, op, rfl, -, -⟩ | ⟨w, i, wr, t, rfl, hwr, ht, hfree, hs'⟩ |
    ⟨w, i, t, ok, hret, ht, -, hs'⟩ | ⟨a, rfl, -⟩ | ⟨a, rfl, -⟩
  · exact hact.elim
  · exact .inl ⟨w, i, wr, t, hwr, ht, hfree, hs'⟩
  · refine .inr ⟨w, i, t, ok, ht, ?_, hs'⟩
    intro hok
    rcases hret with ⟨-, hhandled⟩ | ⟨-, hfalse⟩
    · rw [hhandled, hok]
    · rw [hok] at hfalse
      contradiction
  · exact hact.elim
  · exact hact.elim

/-- A server changes when it handles a request that was sent to it. -/
theorem servers_network (hact : act.IsNetwork) (h : step replicas s act = some s') (a : Address) :
    s'.servers a = s.servers a ∨
      ∃ w i wr t, s.writes[w]? = some wr ∧ s.target w i = some t ∧ t.client.address = a ∧
        s'.servers a = (wr.op.handle t.client.epoch (s.servers a)).2 := by
  rcases network_cases hact h with ⟨w, i, wr, t, hwr, ht, -, rfl⟩ | ⟨w, i, t, ok, -, -, rfl⟩
  · by_cases ha : t.client.address = a
    · subst ha
      exact .inr ⟨w, i, wr, t, hwr, ht, rfl, by rw [setServer_servers, Function.update_self]⟩
    · refine .inl ?_
      rw [setServer_servers, Function.update_of_ne (Ne.symm ha), setTarget_servers]
  · exact .inl rfl

/-- The client of a request is one of those the write was fired at. -/
theorem client_mem {w i : Nat} {wr : Write} {t : Target} (hwr : s.writes[w]? = some wr)
    (ht : s.target w i = some t) : t.client ∈ wr.targets.map (·.client) := by
  rw [target, hwr, Option.bind_some] at ht
  exact List.mem_map_of_mem (List.mem_of_getElem? ht)

end ShardGroup

/-- A second insert of the vector that is there changes nothing. -/
theorem WriteOp.liveVector_insert_again {k : Key} {v : Floats} {metadata : Raft.Bytes}
    {epoch : Nat} {s : ShardServer} (h : s.liveVector k = some v) :
    ((insert k v metadata).handle epoch s).2.liveVector k = some v := by
  cases hok : (s.insert ⟨k, v, metadata, epoch⟩).1.ok with
  | false =>
      rw [handle, ShardServer.insert_refused hok]
      exact h
  | true => exact liveVector_of_handle_insert hok

/-! ## The invariant -/

/-- The replicas of a shard: their processes serve that shard, and one of them is the primary.
{lit}`serves` is the shard that each process was started for. -/
structure ReplicasOf (serves : Address → Int) (shardId : Int) (replicas : List ShardClient)
    (primary : ShardClient) : Prop where
  serves : ∀ r ∈ replicas, serves r.address = shardId
  primary : replicas.filter (·.isPrimary) = [primary]

theorem ReplicasOf.mem {serves : Address → Int} {shardId : Int} {replicas : List ShardClient}
    {primary : ShardClient} (h : ReplicasOf serves shardId replicas primary) :
    primary ∈ replicas := by
  have hmem : primary ∈ replicas.filter (·.isPrimary) := by simp [h.primary]
  exact List.mem_of_mem_filter hmem

/-- The replicas of two shards have processes of their own. -/
theorem ReplicasOf.address_ne {serves : Address → Int} {id id' : Int}
    {replicas replicas' : List ShardClient} {primary primary' : ShardClient}
    (h : ReplicasOf serves id replicas primary) (h' : ReplicasOf serves id' replicas' primary')
    (hne : id ≠ id') {r r' : ShardClient} (hr : r ∈ replicas) (hr' : r' ∈ replicas') :
    r.address ≠ r'.address := by
  intro heq
  apply hne
  rw [← h.serves r hr, heq, h'.serves r' hr']

/-- The writes of a move and what they have done, before and after the deletes are fired. -/
structure KeyMoveWrites (m : KeyMove) (destPrimary : ShardClient) (v : Floats) (deleting : Prop)
    (g : ShardGroup) : Prop where
  writes : ∀ (w : Nat) (wr : Write), g.writes[w]? = some wr →
    (∃ metadata, wr.op = .insert m.externalId v metadata ∧
      wr.targets.map (·.client) = m.destReplicas) ∨
    (deleting ∧ wr.op = .delete m.externalId ∧ wr.targets.map (·.client) = m.sourceReplicas)
  source : ¬deleting → (g.servers m.sourcePrimary.address).liveVector m.externalId = some v
  dest : deleting → (g.servers destPrimary.address).liveVector m.externalId = some v
  stored : ∀ (w i : Nat) (wr : Write) (t : Target), g.writes[w]? = some wr →
    g.target w i = some t → wr.op ≠ .delete m.externalId →
    t.client.address = destPrimary.address → t.handled = some true →
    (g.servers destPrimary.address).liveVector m.externalId = some v
  acked : ∀ w i t, g.target w i = some t → t.returned = some true → t.handled = some true

namespace KeyMoveWrites

section Step

variable {serves : Address → Int} {sourceId destId : Int} {m : KeyMove} {destPrimary : ShardClient}
  {v : Floats} {deleting : Prop} {replicas : ReplicaSet} {g g' : ShardGroup} {act : GroupAction}
  (hsource : ReplicasOf serves sourceId m.sourceReplicas m.sourcePrimary)
  (hdest : ReplicasOf serves destId m.destReplicas destPrimary) (hne : sourceId ≠ destId)

include hsource hdest hne

/-- Inserts do not reach the source. -/
theorem source_network (hinv : KeyMoveWrites m destPrimary v deleting g) (hact : act.IsNetwork)
    (h : ShardGroup.step replicas g act = some g') (hdel : ¬deleting) :
    (g'.servers m.sourcePrimary.address).liveVector m.externalId = some v := by
  rcases ShardGroup.servers_network hact h m.sourcePrimary.address with
    hsame | ⟨w, i, wr, t, hwr, ht, haddress, -⟩
  · rw [hsame]
    exact hinv.source hdel
  · rcases hinv.writes w wr hwr with ⟨metadata, -, hclients⟩ | ⟨hdeleting, -⟩
    · have hclient := ShardGroup.client_mem hwr ht
      rw [hclients] at hclient
      exact absurd haddress.symm (hsource.address_ne hdest hne hsource.mem hclient)
    · exact absurd hdeleting hdel

/-- Deletes do not reach the destination, and inserts bring the vector that is there. -/
theorem dest_network (hinv : KeyMoveWrites m destPrimary v deleting g) (hact : act.IsNetwork)
    (h : ShardGroup.step replicas g act = some g')
    (hlive : (g.servers destPrimary.address).liveVector m.externalId = some v) :
    (g'.servers destPrimary.address).liveVector m.externalId = some v := by
  rcases ShardGroup.servers_network hact h destPrimary.address with
    hsame | ⟨w, i, wr, t, hwr, ht, haddress, hhandled⟩
  · rw [hsame]
    exact hlive
  · rcases hinv.writes w wr hwr with ⟨metadata, hop, -⟩ | ⟨-, -, hclients⟩
    · rw [hhandled, hop]
      exact WriteOp.liveVector_insert_again hlive
    · have hclient := ShardGroup.client_mem hwr ht
      rw [hclients] at hclient
      exact absurd haddress (hsource.address_ne hdest hne hclient hdest.mem)

/-- The acknowledgement of the destination's primary means that it holds the key. -/
theorem stored_network (hinv : KeyMoveWrites m destPrimary v deleting g) (hact : act.IsNetwork)
    (h : ShardGroup.step replicas g act = some g') {w i : Nat} {wr' : Write} {t' : Target}
    (hwr' : g'.writes[w]? = some wr') (ht' : g'.target w i = some t')
    (hop' : wr'.op ≠ .delete m.externalId) (haddress : t'.client.address = destPrimary.address)
    (hhandled : t'.handled = some true) :
    (g'.servers destPrimary.address).liveVector m.externalId = some v := by
  rcases ShardGroup.write_before h hwr' with ⟨wr, hwr, hop, -⟩ | ⟨-, clients, rfl, -⟩
  · rw [hop] at hop'
    have hkeep := dest_network hsource hdest hne hinv hact h
    rcases ShardGroup.target_before h ht' with ht | ⟨-, hnone, -⟩ |
      ⟨t, wr₁, ht, hwr₁, -, rfl, hservers⟩ | ⟨t, ok, ht, -, rfl, -⟩
    · exact hkeep (hinv.stored w i wr t' hwr ht hop' haddress hhandled)
    · rw [hnone] at hhandled
      contradiction
    · rw [hwr, Option.some_inj] at hwr₁
      subst hwr₁
      rcases hinv.writes w wr hwr with ⟨metadata, hinsert, -⟩ | ⟨-, hdelete, -⟩
      · rw [hinsert] at hservers hhandled
        dsimp only at haddress hhandled
        rw [hservers, ← haddress, Function.update_self]
        exact WriteOp.liveVector_of_handle_insert (Option.some_inj.mp hhandled)
      · exact absurd hdelete hop'
    · exact hkeep (hinv.stored w i wr t hwr ht hop' haddress hhandled)
  · exact hact.elim

/-- A request in flight takes effect or returns. -/
theorem network (hinv : KeyMoveWrites m destPrimary v deleting g) (hact : act.IsNetwork)
    (h : ShardGroup.step replicas g act = some g') : KeyMoveWrites m destPrimary v deleting g' where
  writes w wr' hwr' := by
    rcases ShardGroup.write_before h hwr' with ⟨wr, hwr, hop, hclients⟩ | ⟨-, clients, rfl, -⟩
    · rw [hop, hclients]
      exact hinv.writes w wr hwr
    · exact hact.elim
  source := source_network hsource hdest hne hinv hact h
  dest hdel := dest_network hsource hdest hne hinv hact h (hinv.dest hdel)
  stored w i wr t := stored_network hsource hdest hne hinv hact h
  acked := ShardGroup.acked_step hinv.acked h

end Step

variable {m : KeyMove} {destPrimary : ShardClient} {v : Floats} {deleting deleting' : Prop}
  {g : ShardGroup}

/-- A write is fired: the inserts, or the deletes once the destination holds the key. -/
theorem fire (hinv : KeyMoveWrites m destPrimary v deleting g) {clients : List ShardClient}
    {op : WriteOp} (hmono : deleting → deleting')
    (hop : (∃ metadata, op = .insert m.externalId v metadata ∧ clients = m.destReplicas) ∨
      (deleting' ∧ op = .delete m.externalId ∧ clients = m.sourceReplicas))
    (hdest : deleting' → (g.servers destPrimary.address).liveVector m.externalId = some v) :
    KeyMoveWrites m destPrimary v deleting' (g.fire clients op) where
  writes w wr hwr := by
    rcases ShardGroup.write_issued hwr with hold | ⟨-, rfl⟩
    · rcases hinv.writes w wr hold with hinsert | ⟨hdel, hdelete⟩
      · exact .inl hinsert
      · exact .inr ⟨hmono hdel, hdelete⟩
    · simpa [Function.comp_def] using hop
  source hdel := hinv.source (mt hmono hdel)
  dest := hdest
  stored w i wr t hwr ht hne haddress hhandled := by
    rcases ShardGroup.target_issued ht with hold | ⟨-, hnone, -⟩
    · rcases Option.bind_eq_some_iff.mp hold with ⟨wr₀, hwr₀, -⟩
      rcases ShardGroup.write_issued hwr with hwr | ⟨hnone, -⟩
      · exact hinv.stored w i wr t hwr hold hne haddress hhandled
      · rw [hnone] at hwr₀
        contradiction
    · rw [hnone] at hhandled
      contradiction
  acked w i t ht hret := by
    rcases ShardGroup.target_issued ht with hold | ⟨-, -, hnone⟩
    · exact hinv.acked w i t hold hret
    · rw [hnone] at hret
      contradiction

/-- A quorum of the inserts includes the destination's primary. -/
theorem dest_of_quorum (hinv : KeyMoveWrites m destPrimary v deleting g) (hdel : ¬deleting)
    (hprimary : m.destReplicas.filter (·.isPrimary) = [destPrimary]) {w : Nat} {wr : Write}
    (hwr : g.writes[w]? = some wr) (hok : (quorumResult wr.answers).ok = true) :
    (g.servers destPrimary.address).liveVector m.externalId = some v := by
  rcases hinv.writes w wr hwr with ⟨metadata, hop, hclients⟩ | ⟨hdeleting, -⟩
  · have hclient : (wr.targets.filter (·.client.isPrimary)).map (·.client) = [destPrimary] := by
      rw [← hprimary, ← hclients, List.filter_map]
      rfl
    obtain ⟨t, htargets, rfl⟩ := List.map_eq_singleton_iff.mp hclient
    have hreturned : t.returned = some true := by
      have hanswer := (quorumResult_ok_iff.mp hok).1
      rw [Write.primaryOk_answers, Write.primary, htargets] at hanswer
      simpa using hanswer
    have hmem : t ∈ wr.targets.filter (·.client.isPrimary) := by simp [htargets]
    obtain ⟨i, ht⟩ := ShardGroup.exists_target_of_mem hwr (List.mem_of_mem_filter hmem)
    exact hinv.stored w i wr t hwr ht (by simp [hop]) rfl (hinv.acked w i t ht hreturned)
  · exact absurd hdeleting hdel

end KeyMoveWrites

/-- The deletes were fired. -/
def KeyMoveState.Deleting (s : KeyMoveState) : Prop :=
  s.stage = .deleting ∨ s.stage = .returned true

/-- The invariant of a move: until the deletes are fired the source's primary holds the key, and
from then on the destination's primary does. -/
structure KeyMoveInv (m : KeyMove) (destPrimary : ShardClient) (v : Floats) (s : KeyMoveState) :
    Prop where
  requests : KeyMoveWrites m destPrimary v s.Deleting s.group
  read : ∀ gres, s.gres = some gres → gres.ok = true ∧ gres.vector = v
  unread : s.gres = none → s.stage = .reading ∨ s.stage = .returned false

namespace KeyMoveInv

variable {serves : Address → Int} {sourceId destId : Int} {m : KeyMove} {destPrimary : ShardClient}
  {v : Floats} {s s' : KeyMoveState} {act : KeyMoveAction}

theorem start {servers : Servers}
    (hlive : (servers m.sourcePrimary.address).liveVector m.externalId = some v) :
    KeyMoveInv m destPrimary v (.start servers) where
  requests :=
    { writes := by simp [KeyMoveState.start, ShardGroup.start]
      source := fun _ => hlive
      dest := by simp [KeyMoveState.start, KeyMoveState.Deleting]
      stored := by simp [KeyMoveState.start, ShardGroup.start]
      acked := by simp [KeyMoveState.start, ShardGroup.start, ShardGroup.target] }
  read := by simp [KeyMoveState.start]
  unread _ := .inl rfl

/-- A key that was not read is not deleted. -/
theorem not_deleting (hinv : KeyMoveInv m destPrimary v s) (hnone : s.gres = none) :
    ¬s.Deleting := by
  rcases hinv.unread hnone with hstage | hstage <;> simp [KeyMoveState.Deleting, hstage]

/-- The call returns, and whether the deletes were fired does not change. -/
theorem of_returned (hinv : KeyMoveInv m destPrimary v s) (ok : Bool)
    (hdel : ok = true ↔ s.Deleting) :
    KeyMoveInv m destPrimary v { s with stage := .returned ok } where
  requests := by
    have heq : ({ s with stage := .returned ok } : KeyMoveState).Deleting ↔ s.Deleting := by
      rw [← hdel]
      simp [KeyMoveState.Deleting]
    rw [propext heq]
    exact hinv.requests
  read := hinv.read
  unread hnone := by
    cases ok with
    | false => exact .inr rfl
    | true => exact absurd (hdel.mp rfl) (hinv.not_deleting hnone)

theorem step (hsource : ReplicasOf serves sourceId m.sourceReplicas m.sourcePrimary)
    (hdest : ReplicasOf serves destId m.destReplicas destPrimary) (hne : sourceId ≠ destId)
    (hinv : KeyMoveInv m destPrimary v s) (h : m.step s act = some s') :
    KeyMoveInv m destPrimary v s' := by
  rcases KeyMove.step_cases h with ⟨-, hnone, rfl⟩ | ⟨gres, -, hstage, hgres, -, rfl⟩ |
    ⟨hstage, rfl⟩ | ⟨gact, group, hact, hgroup, rfl⟩ | ⟨write, -, hstage, hwrite, hok, rfl⟩ |
    ⟨-, hstage, rfl⟩
  · -- the source still holds the key when the read is handled
    have hlive := hinv.requests.source (hinv.not_deleting hnone)
    refine ⟨hinv.requests, ?_, fun hgres => absurd hgres (by simp)⟩
    intro gres hgres
    rw [Option.some_inj] at hgres
    rw [← hgres]
    exact ShardServer.getVector_of_liveVector hlive
  · have hdel : ¬s.Deleting := by simp [KeyMoveState.Deleting, hstage]
    refine ⟨?_, hinv.read, fun hnone => absurd (hgres.symm.trans hnone) (by simp)⟩
    apply hinv.requests.fire (fun h => absurd h hdel)
    · exact .inl ⟨gres.metadata, by rw [(hinv.read gres hgres).2], rfl⟩
    · simp [KeyMoveState.Deleting]
  · have hdel : ¬s.Deleting := by
      rcases hstage with hstage | hstage <;> simp [KeyMoveState.Deleting, hstage]
    exact hinv.of_returned false ⟨fun h => absurd h (by simp), fun h => absurd h hdel⟩
  · exact ⟨hinv.requests.network hsource hdest hne hact hgroup, hinv.read, hinv.unread⟩
  · have hdel : ¬s.Deleting := by simp [KeyMoveState.Deleting, hstage]
    have hlive := hinv.requests.dest_of_quorum hdel hdest.primary hwrite hok
    refine ⟨?_, hinv.read, fun hnone => ?_⟩
    · exact hinv.requests.fire (fun _ => .inl rfl) (.inr ⟨.inl rfl, rfl, rfl⟩) fun _ => hlive
    · rcases hinv.unread hnone with h | h <;> rw [hstage] at h <;> contradiction
  · exact hinv.of_returned true ⟨fun _ => .inl hstage, fun _ => rfl⟩

end KeyMoveInv

/-- **A key that is moved never vanishes.**  Two shards have one primary each, and the key is
live with the vector {lit}`v` at the source's primary when {lit}`migrate_one_key` is called.
Whatever its RPCs do, at every moment of the call and after it the key is live with {lit}`v` at
one of the two primaries, and at the destination's if the call has returned {lit}`true`; what
was read is {lit}`v`. -/
theorem migrate_one_key_keeps {serves : Address → Int} {sourceId destId : Int} {m : KeyMove}
    {destPrimary : ShardClient} {v : Floats} {servers : Servers} {actions : List KeyMoveAction}
    {s : KeyMoveState} (hsource : ReplicasOf serves sourceId m.sourceReplicas m.sourcePrimary)
    (hdest : ReplicasOf serves destId m.destReplicas destPrimary) (hne : sourceId ≠ destId)
    (hlive : (servers m.sourcePrimary.address).liveVector m.externalId = some v)
    (hrun : Exec m.step (fun _ _ => True) (.start servers) actions s) :
    (∀ gres, s.gres = some gres → gres.ok = true ∧ gres.vector = v) ∧
      ((s.group.servers m.sourcePrimary.address).liveVector m.externalId = some v ∨
        (s.group.servers destPrimary.address).liveVector m.externalId = some v) ∧
      (s.stage = .returned true →
        (s.group.servers destPrimary.address).liveVector m.externalId = some v) := by
  have hinv : KeyMoveInv m destPrimary v s :=
    hrun.invariant (KeyMoveInv m destPrimary v)
      (fun _ _ _ hinv _ h => hinv.step hsource hdest hne h) (.start hlive)
  refine ⟨hinv.read, ?_, fun hstage => hinv.requests.dest (.inr hstage)⟩
  by_cases hdel : s.Deleting
  · exact .inr (hinv.requests.dest hdel)
  · exact .inl (hinv.requests.source hdel)

/-- A move from a shard with one replica to a shard with three. -/
def oneToThree : KeyMove where
  sourcePrimary := ⟨0, 0, [97], 1, true, true, 0⟩
  sourceReplicas := [⟨0, 0, [97], 1, true, true, 0⟩]
  destReplicas := [⟨1, 0, [98], 2, true, true, 3⟩, ⟨1, 1, [98], 3, true, false, 3⟩,
    ⟨1, 2, [98], 4, true, false, 3⟩]
  externalId := [107]

/-- The source holds the key, the destination is empty. -/
def keyAtSource : Servers :=
  Function.update (fun _ => {}) ([97], 1)
    (ShardServer.insert {} ⟨[107], List.replicate 128 0, [], 0⟩).2

/-- One insert and the delete fail, and both take effect after the call has returned. -/
def lateEffects : List KeyMoveAction :=
  [.readHandled, .readReturns, .fail 0 1, .handle 0 0, .answer 0 0, .handle 0 2, .answer 0 2,
    .insertReturns, .fail 1 0, .deleteReturns, .handle 0 1, .handle 1 0]

theorem migrate_one_key_keeps_lateEffects :
    ∃ s, Exec oneToThree.step (fun _ _ => True) (.start keyAtSource) lateEffects s ∧
      s.stage = .returned true ∧ (s.group.servers ([97], 1)).liveVector [107] = none ∧
      (s.group.servers ([98], 2)).liveVector [107] = some (List.replicate 128 0) := by
  have hsource : ReplicasOf (fun a => if a.1 = [97] then 0 else 1) 0 oneToThree.sourceReplicas
      oneToThree.sourcePrimary := ⟨by decide, by decide⟩
  have hdest : ReplicasOf (fun a => if a.1 = [97] then 0 else 1) 1 oneToThree.destReplicas
      ⟨1, 0, [98], 2, true, true, 3⟩ := ⟨by decide, by decide⟩
  have hlive : (keyAtSource oneToThree.sourcePrimary.address).liveVector oneToThree.externalId =
      some (List.replicate 128 0) := by decide +kernel
  have hrun := Exec.of_guardedRun oneToThree.step (fun _ _ => True) (.start keyAtSource)
    lateEffects (by decide +kernel)
  have hend : ((guardedRun oneToThree.step (fun _ _ => True) (.start keyAtSource)
        lateEffects).get (by decide +kernel)).stage = .returned true ∧
      (((guardedRun oneToThree.step (fun _ _ => True) (.start keyAtSource)
        lateEffects).get (by decide +kernel)).group.servers ([97], 1)).liveVector [107] = none := by
    decide +kernel
  generalize (guardedRun oneToThree.step (fun _ _ => True) (.start keyAtSource)
    lateEffects).get (by decide +kernel) = s at hrun hend
  have hkeeps := migrate_one_key_keeps hsource hdest (by decide) hlive hrun
  exact ⟨s, hrun, hend.1, hend.2, hkeeps.2.2 hend.1⟩

/-! ## The handler as one of the runs -/

/-- A state in which every server is up. -/
def KeyMoveState.of (servers : Servers) (writes : List Write) (gres : Option GetVectorResponse)
    (stage : KeyMoveStage) : KeyMoveState :=
  ⟨{ servers := servers, writes := writes }, gres, stage⟩

/-- A request that is on its way. -/
def Target.fresh (r : ShardClient) : Target where
  client := r

/-- One request with its fate: the servers afterwards, and what its future returns. -/
def deliver (op : WriteOp) (fate : Delivery) (r : ShardClient) (servers : Servers) :
    Servers × Bool :=
  if fate = .lost then (servers, false)
  else
    let handled := op.handle r.epoch (servers r.address)
    (Function.update servers r.address handled.2, handled.1 && decide (fate = .answered))

theorem fanOut_cons (op : WriteOp) (fate : Address → Delivery) (r : ShardClient)
    (rs : List ShardClient) (servers : Servers) :
    fanOut op fate (r :: rs) servers =
      ((fanOut op fate rs (deliver op (fate r.address) r servers).1).1,
        (r, (deliver op (fate r.address) r servers).2) ::
          (fanOut op fate rs (deliver op (fate r.address) r servers).1).2) := by
  rw [fanOut, deliver]
  split_ifs with hlost <;> rfl

section FanOut

variable (m : KeyMove) (servers : Servers) (ws : List Write) (op : WriteOp)
  (done rest : List Target) (t : Target) (gres : Option GetVectorResponse) (stage : KeyMoveStage)

theorem ShardGroup.setTarget_middle (t' : Target) :
    ShardGroup.setTarget { servers := servers, writes := ws ++ [⟨op, done ++ t :: rest⟩] }
        ws.length done.length t' =
      { servers := servers, writes := ws ++ [⟨op, done ++ t' :: rest⟩] } := by
  have hset : (done ++ t :: rest).set done.length t' = done ++ t' :: rest := by
    rw [List.set_append_right _ _ (Nat.le_refl _), Nat.sub_self, List.set_cons_zero]
  rw [ShardGroup.setTarget, List.modify_eq_set_getElem?]
  simp [hset]

/-- A replica handles the request. -/
theorem step_handle_middle (hfree : t.handled = none) :
    m.step (.of servers (ws ++ [⟨op, done ++ t :: rest⟩]) gres stage)
        (.handle ws.length done.length) =
      some (.of (Function.update servers t.client.address
          (op.handle t.client.epoch (servers t.client.address)).2)
        (ws ++ [⟨op, done ++ { t with
          handled := some (op.handle t.client.epoch (servers t.client.address)).1 } :: rest⟩])
        gres stage) := by
  have hwrite : (ws ++ [⟨op, done ++ t :: rest⟩] : List Write)[ws.length]? =
      some ⟨op, done ++ t :: rest⟩ := by simp
  have htarget : (done ++ t :: rest)[done.length]? = some t := by simp
  simp only [KeyMove.step, KeyMoveState.network, KeyMoveState.of, ShardGroup.step, hwrite, htarget,
    Option.bind_eq_bind, Option.bind_some, hfree, and_self, if_true, Option.map_some,
    ShardGroup.setTarget_middle]
  rfl

/-- The future of the request fails. -/
theorem step_fail_middle (hfree : t.returned = none) :
    m.step (.of servers (ws ++ [⟨op, done ++ t :: rest⟩]) gres stage)
        (.fail ws.length done.length) =
      some (.of servers (ws ++ [⟨op, done ++ { t with returned := some false } :: rest⟩])
        gres stage) := by
  have htarget : ShardGroup.target { servers := servers, writes := ws ++ [⟨op, done ++ t :: rest⟩] }
      ws.length done.length = some t := by simp [ShardGroup.target]
  simp only [KeyMove.step, KeyMoveState.network, KeyMoveState.of, ShardGroup.step, htarget,
    Option.bind_eq_bind, Option.bind_some, hfree, if_true, Option.map_some,
    ShardGroup.setTarget_middle]

/-- The future of the request returns the answer. -/
theorem step_answer_middle {ok : Bool} (hfree : t.returned = none) (hok : t.handled = some ok) :
    m.step (.of servers (ws ++ [⟨op, done ++ t :: rest⟩]) gres stage)
        (.answer ws.length done.length) =
      some (.of servers (ws ++ [⟨op, done ++ { t with returned := some ok } :: rest⟩])
        gres stage) := by
  have htarget : ShardGroup.target { servers := servers, writes := ws ++ [⟨op, done ++ t :: rest⟩] }
      ws.length done.length = some t := by simp [ShardGroup.target]
  simp only [KeyMove.step, KeyMoveState.network, KeyMoveState.of, ShardGroup.step, htarget,
    Option.bind_eq_bind, Option.bind_some, hfree, hok, if_true, Option.map_some,
    ShardGroup.setTarget_middle]

theorem exec_deliver (fate : Delivery) (r : ShardClient) :
    ∃ actions t, t.client = r ∧ t.returned = some (deliver op fate r servers).2 ∧
      Exec m.step (fun _ _ => True)
        (.of servers (ws ++ [⟨op, done ++ .fresh r :: rest⟩]) gres stage) actions
        (.of (deliver op fate r servers).1 (ws ++ [⟨op, done ++ t :: rest⟩]) gres stage) := by
  have hhandle := step_handle_middle m servers ws op done rest (.fresh r) gres stage rfl
  cases fate with
  | lost =>
      have hfail := step_fail_middle m servers ws op done rest (.fresh r) gres stage rfl
      exact ⟨_, _, by rfl, by rfl, .cons trivial hfail (.nil _)⟩
  | unanswered =>
      refine ⟨_, _, ?_, ?_, .cons trivial hhandle
        (.cons trivial (step_fail_middle _ _ _ _ _ _ _ _ _ rfl) (.nil _))⟩
      · rfl
      · simp [deliver]
  | answered =>
      refine ⟨_, _, ?_, ?_, .cons trivial hhandle
        (.cons trivial (step_answer_middle _ _ _ _ _ _ _ _ _ rfl rfl) (.nil _))⟩
      · rfl
      · simp [deliver, Target.fresh]

/-- A whole write with the fates of its requests: all futures return. -/
theorem exec_fanOut (fate : Address → Delivery) (replicas : List ShardClient) :
    ∃ actions targets, (∀ t ∈ targets, t.returned.isSome = true) ∧
      (targets.map fun t => (t.client, t.returned == some true)) =
        (fanOut op fate replicas servers).2 ∧
      Exec m.step (fun _ _ => True)
        (.of servers (ws ++ [⟨op, done ++ replicas.map .fresh⟩]) gres stage) actions
        (.of (fanOut op fate replicas servers).1 (ws ++ [⟨op, done ++ targets⟩]) gres stage) := by
  induction replicas generalizing servers done with
  | nil => exact ⟨[], [], by simp, rfl, .nil _⟩
  | cons r rs ih =>
      obtain ⟨actions, t, hclient, hreturned, hfirst⟩ :=
        exec_deliver m servers ws op done (rs.map .fresh) gres stage (fate r.address) r
      obtain ⟨actions', targets, hsome, hanswers, hrest⟩ :=
        ih (deliver op (fate r.address) r servers).1 (done ++ [t])
      rw [List.append_assoc, List.append_assoc] at hrest
      rw [fanOut_cons]
      refine ⟨actions ++ actions', t :: targets, ?_, ?_, hfirst.append hrest⟩
      · rw [List.forall_mem_cons, hreturned]
        exact ⟨rfl, hsome⟩
      · rw [List.map_cons, hanswers, hclient, hreturned]
        simp

/-- A quorum write: its answers are those of {lit}`fanOut`. -/
theorem exec_write (fate : Address → Delivery) (replicas : List ShardClient) :
    ∃ actions write, write.targets.all (·.returned.isSome) = true ∧
      write.answers = (fanOut op fate replicas servers).2 ∧
      Exec m.step (fun _ _ => True)
        (.of servers (ws ++ [⟨op, replicas.map .fresh⟩]) gres stage) actions
        (.of (fanOut op fate replicas servers).1 (ws ++ [write]) gres stage) := by
  obtain ⟨actions, targets, hsome, hanswers, hrun⟩ :=
    exec_fanOut m servers ws op [] gres stage fate replicas
  exact ⟨actions, ⟨op, targets⟩, List.all_eq_true.mpr hsome, hanswers, hrun⟩

end FanOut

/-- **The handler as one of the runs.**  With the fates of its RPCs given in advance,
{lit}`migrate_one_key` is a run that returns. -/
theorem exec_migrateOneKey (m : KeyMove) (fates : KeyFates) (servers : Servers) :
    ∃ actions s, Exec m.step (fun _ _ => True) (.start servers) actions s ∧
      s.stage = .returned (migrateOneKey m.sourcePrimary m.sourceReplicas m.destReplicas
        m.externalId fates servers).1 ∧
      s.group.servers = (migrateOneKey m.sourcePrimary m.sourceReplicas m.destReplicas
        m.externalId fates servers).2 := by
  rw [migrateOneKey]
  generalize hgres : (servers m.sourcePrimary.address).getVector m.externalId = gres
  have hread : m.step (.start servers) .readHandled =
      some (.of servers [] (some gres) .reading) := by
    rw [← hgres]
    rfl
  by_cases hget : fates.get = .answered
  · by_cases hok : gres.ok = false
    · rw [if_pos (.inr hok)]
      exact ⟨[.readHandled, .readReturns], _,
        .cons trivial hread (.cons trivial (if_pos hok) (.nil _)), rfl, rfl⟩
    · rw [if_neg (by simp [hget, hok])]
      dsimp only [quorumInsert, quorumDelete]
      obtain ⟨inserts, insert, hdone, hanswers, hinserts⟩ := exec_write m servers []
        (.insert m.externalId gres.vector gres.metadata) (some gres) .inserting fates.insert
        m.destReplicas
      generalize fanOut (.insert m.externalId gres.vector gres.metadata) fates.insert
        m.destReplicas servers = fan at hanswers hinserts ⊢
      have hinserted : Exec m.step (fun _ _ => True) (.start servers)
          (.readHandled :: .readReturns :: inserts)
          (.of fan.1 [insert] (some gres) .inserting) :=
        .cons trivial hread (.cons trivial (if_neg hok) hinserts)
      have hreturns : m.step (.of fan.1 [insert] (some gres) .inserting) .insertReturns =
          if (quorumResult fan.2).ok = false then
            some (.of fan.1 [insert] (some gres) (.returned false))
          else
            some (.of fan.1 ([insert] ++ [⟨.delete m.externalId, m.sourceReplicas.map .fresh⟩])
              (some gres) .deleting) := by
        rw [← hanswers]
        exact if_pos ⟨rfl, hdone⟩
      by_cases hquorum : (quorumResult fan.2).ok = false
      · rw [if_pos hquorum] at hreturns ⊢
        exact ⟨_, _, hinserted.append (.cons trivial hreturns (.nil _)), rfl, rfl⟩
      · rw [if_neg hquorum] at hreturns ⊢
        obtain ⟨deletes, delete, hdeleted, -, hdeletes⟩ := exec_write m fan.1 [insert]
          (.delete m.externalId) (some gres) .deleting fates.delete m.sourceReplicas
        have hend : m.step (.of (fanOut (.delete m.externalId) fates.delete m.sourceReplicas
            fan.1).1 [insert, delete] (some gres) .deleting) .deleteReturns =
            some (.of (fanOut (.delete m.externalId) fates.delete m.sourceReplicas fan.1).1
              [insert, delete] (some gres) (.returned true)) := if_pos ⟨rfl, hdeleted⟩
        exact ⟨_, _, hinserted.append (.cons trivial hreturns
          (hdeletes.append (.cons trivial hend (.nil _)))), rfl, rfl⟩
  · rw [if_pos (.inl hget)]
    exact ⟨[.readFails], _, .cons trivial rfl (.nil _), rfl, rfl⟩

end NanoDB.Coordinator
