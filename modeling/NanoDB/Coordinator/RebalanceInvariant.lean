import NanoDB.Coordinator.RebalanceRun

/-!
# Where a key is during a rebalance

A key whose insert was accepted is on the primary of a shard that stays, on the leaving
primary waiting to be moved, or on its way.  Client inserts and the steps of the handler
keep it so; the lemmas are stated for any notion of "a vector of a client", so that they
speak about the key alone or about its vector too.

Main results:

- Theorem {lit}`Safe.client`, {lit}`HandlerInv.client`: a client's insert.
- Theorem {lit}`Safe.insertAt`, {lit}`Safe.deleteAt`: the two halves of a move.
- Theorem {lit}`Safe.list`, {lit}`Safe.get`: the handler's loops.
-/

namespace NanoDB.Coordinator

open Raft (Bytes)
open Cluster (Key HashRing)
open Lib (Exec)
open NanoDB.Index (vectorDim)
open Shard (ShardServer Floats)

namespace RebalanceRun

/-! ## Where a confirmed key is -/

/-- The keys and vectors that clients have posted. -/
def posted (s : RebalanceRun) : List (Key × Floats) :=
  s.inserts.map fun ins => (ins.externalId, ins.vector)

/-- Whether a key on the leaving shard will still be moved. -/
def waits (leavingId : Int) (k : Key) : HandlerPhase → Prop
  | .idle => True
  | .sources rest => leavingId ∈ rest
  | .keys _ ks _ => k ∈ ks
  | .inserting _ ks _ => k ∈ ks
  | .deleting _ ks _ => k ∈ ks
  | .proposing => False
  | .done => False

/-- The rebalance touches the copy of a key that is at a source's primary: the key has
been read and its delete is still out. -/
def Leaving (job : RebalanceJob) (handler : HandlerPhase) (r : ShardClient) (mv : Move) : Prop :=
  findPrimary job.pool mv.source = some r ∧
    ((∃ ks rest, handler = .inserting mv ks rest) ∨
      ∃ ks rest, handler = .deleting mv ks rest ∧ r ∈ mv.pending)

/-- Which vectors count as a client's, given what clients have posted. -/
structure Vouching (Q : List (Key × Floats) → Key → Floats → Prop) : Prop where
  posted : ∀ l k v, (k, v) ∈ l → Q l k v
  append : ∀ l l' k v, Q l k v → Q (l ++ l') k v

section Locating

variable (job : RebalanceJob) (Q : List (Key × Floats) → Key → Floats → Prop)

/-- A replica holds a client's vector for the key. -/
def Good (servers : Servers) (l : List (Key × Floats)) (p : ShardClient) (k : Key) : Prop :=
  ∃ v, (servers p.address).liveVector k = some v ∧ Q l k v

/-- The key is on the primary of a shard that stays, on the leaving primary waiting to be
moved, or on its way to the primary of a shard that stays. -/
def Safe (servers : Servers) (l : List (Key × Floats)) (handler : HandlerPhase) (k : Key) : Prop :=
  (∃ p, findPrimary job.pool p.shardId = some p ∧ p.shardId ∈ job.finalIds ∧
    Good Q servers l p k) ∨
  (∃ p, findPrimary job.pool p.shardId = some p ∧ job.req = .remove p.shardId ∧
    waits p.shardId k handler ∧ Good Q servers l p k) ∨
  ∃ mv ks rest q, handler = .inserting mv ks rest ∧ mv.key = k ∧ Q l k mv.vector ∧
    q ∈ mv.pending ∧ findPrimary job.pool q.shardId = some q ∧ q.shardId ∈ job.finalIds

/-- What holds while a key is moved to the shard {lit}`dest`. -/
structure MoveInv (mv : Move) (ks : List Key) (dest : Int) : Prop where
  source : mv.source ∈ job.sources
  final : dest ∈ job.finalIds
  apart : dest ∉ job.sources
  dest : mv.destReplicas = replicasForShard job.pool dest
  key : mv.key ∉ ks
  nodup : ks.Nodup
  pending : mv.pending.Nodup

/-- The source's primary still holds what was read, or what was read is a client's. -/
def SourceCopy (servers : Servers) (l : List (Key × Floats)) (mv : Move) : Prop :=
  ∀ p, findPrimary job.pool mv.source = some p →
    Q l mv.key mv.vector ∨ (servers p.address).liveVector mv.key = some mv.vector

/-- The destination's primary holds what was moved or a client's vector. -/
def DestCopy (servers : Servers) (l : List (Key × Floats)) (mv : Move) (q : ShardClient) : Prop :=
  ∃ v, (servers q.address).liveVector mv.key = some v ∧ (v = mv.vector ∨ Q l mv.key v)

/-- What holds of the handler. -/
def HandlerInv (servers : Servers) (l : List (Key × Floats)) : HandlerPhase → Prop
  | .sources rest => ∀ source ∈ rest, source ∈ job.sources
  | .keys source ks rest => source ∈ job.sources ∧ ks.Nodup ∧ ∀ x ∈ rest, x ∈ job.sources
  | .inserting mv ks rest => (∀ x ∈ rest, x ∈ job.sources) ∧
      ∃ dest, MoveInv job mv ks dest ∧ (∀ r ∈ mv.pending, r ∈ mv.destReplicas) ∧
        SourceCopy job Q servers l mv ∧
        ∀ q, findPrimary job.pool dest = some q → q ∉ mv.pending → DestCopy Q servers l mv q
  | .deleting mv ks rest => (∀ x ∈ rest, x ∈ job.sources) ∧
      ∃ dest, MoveInv job mv ks dest ∧
        (∀ r ∈ mv.pending, r ∈ replicasForShard job.pool mv.source) ∧
        (∀ p, findPrimary job.pool mv.source = some p → p ∈ mv.pending →
          SourceCopy job Q servers l mv) ∧
        ∃ q, findPrimary job.pool dest = some q ∧ DestCopy Q servers l mv q
  | _ => True

end Locating

/-- The invariant of a run. -/
structure Inv (job : RebalanceJob) (Q : List (Key × Floats) → Key → Floats → Prop)
    (s : RebalanceRun) : Prop where
  views : ∀ c, s.views c = job.co ∨ s.views c = job.after
  targets : ∀ ins ∈ s.inserts, ∀ targets, ins.phase = .writing targets →
    (∃ shardId, targets.map (·.1) = replicasForShard job.pool shardId) ∧
    ∀ t ∈ targets, ∀ ok, t.2 = some ok → ok = decide (ins.vector.length = vectorDim)
  handler : HandlerInv job Q s.servers s.posted s.handler
  safe : ∀ ins ∈ s.inserts, ∀ targets, ins.phase = .writing targets →
    ∀ t ∈ targets, t.2 = some true → findPrimary job.pool t.1.shardId = some t.1 →
      Safe job Q s.servers s.posted s.handler ins.externalId

/-! ## Writes to one replica -/

section OneReplica

variable {servers : Servers}

/-- Where an accepted insert shows. -/
theorem liveVector_update_insert {r : ShardClient} {k : Key} {v : Floats} {m : Bytes}
    (hok : ((servers r.address).insert ⟨k, v, m, r.epoch⟩).1.ok = true) (a : Address) (k' : Key) :
    (Function.update servers r.address ((servers r.address).insert ⟨k, v, m, r.epoch⟩).2
      a).liveVector k' =
      if a = r.address ∧ k' = k then some v else (servers a).liveVector k' := by
  by_cases ha : a = r.address
  · rw [ha, Function.update_self, ShardServer.liveVector_insert hok]
    simp
  · rw [Function.update_of_ne ha, if_neg (fun h => ha h.1)]

/-- Where a delete shows. -/
theorem liveVector_update_delete (servers : Servers) (r : ShardClient) (k : Key) (a : Address)
    (k' : Key) :
    (Function.update servers r.address ((servers r.address).delete ⟨k, r.epoch⟩).2
      a).liveVector k' = (servers a).liveVector k' ∨
    (a = r.address ∧ k' = k) := by
  by_cases h : a = r.address ∧ k' = k
  · exact .inr h
  · refine .inl ?_
    by_cases ha : a = r.address
    · have hne : k' ≠ k := fun hk => h ⟨ha, hk⟩
      rw [ha, Function.update_self]
      exact liveVector_handle_of_ne (show k' ≠ (WriteOp.delete k).key from hne) _ _
    · rw [Function.update_of_ne ha]

end OneReplica

/-! ## Client inserts keep the invariant -/

section Client

variable {job : RebalanceJob} {Q : List (Key × Floats) → Key → Floats → Prop}
  {servers : Servers} {l : List (Key × Floats)} {handler : HandlerPhase}

theorem Good.append (hQ : Vouching Q) {p : ShardClient} {k : Key} (h : Good Q servers l p k)
    (l' : List (Key × Floats)) : Good Q servers (l ++ l') p k := by
  rcases h with ⟨v, hv, hq⟩
  exact ⟨v, hv, hQ.append _ _ _ _ hq⟩

theorem Safe.append (hQ : Vouching Q) {k : Key} (h : Safe job Q servers l handler k)
    (l' : List (Key × Floats)) : Safe job Q servers (l ++ l') handler k := by
  rcases h with ⟨p, hp, hfinal, hgood⟩ | ⟨p, hp, hreq, hwaits, hgood⟩ |
    ⟨mv, ks, rest, q, hhandler, hkey, hq, hrest⟩
  · exact .inl ⟨p, hp, hfinal, hgood.append hQ l'⟩
  · exact .inr (.inl ⟨p, hp, hreq, hwaits, hgood.append hQ l'⟩)
  · exact .inr (.inr ⟨mv, ks, rest, q, hhandler, hkey, hQ.append _ _ _ _ hq, hrest⟩)

theorem SourceCopy.append (hQ : Vouching Q) {mv : Move} (h : SourceCopy job Q servers l mv)
    (l' : List (Key × Floats)) : SourceCopy job Q servers (l ++ l') mv := by
  intro p hp
  exact (h p hp).imp_left (hQ.append _ _ _ _)

theorem DestCopy.append (hQ : Vouching Q) {mv : Move} {q : ShardClient}
    (h : DestCopy Q servers l mv q) (l' : List (Key × Floats)) :
    DestCopy Q servers (l ++ l') mv q := by
  rcases h with ⟨v, hv, hvouched⟩
  exact ⟨v, hv, hvouched.imp_right (hQ.append _ _ _ _)⟩

theorem HandlerInv.append (hQ : Vouching Q) (h : HandlerInv job Q servers l handler)
    (l' : List (Key × Floats)) : HandlerInv job Q servers (l ++ l') handler := by
  cases handler with
  | inserting mv ks rest =>
      rcases h with ⟨hrest, dest, hmove, hpending, hsource, hdest⟩
      exact ⟨hrest, dest, hmove, hpending, hsource.append hQ l',
        fun q hq hout => (hdest q hq hout).append hQ l'⟩
  | deleting mv ks rest =>
      rcases h with ⟨hrest, dest, hmove, hpending, hsource, q, hq, hdest⟩
      exact ⟨hrest, dest, hmove, hpending, fun p hp hmem => (hsource p hp hmem).append hQ l',
        q, hq, hdest.append hQ l'⟩
  | idle => exact h
  | proposing => exact h
  | sources rest => exact h
  | keys source ks rest => exact h
  | done => exact h

variable {r : ShardClient} {k : Key} {v : Floats} {m : Bytes}

/-- A client's insert spoils no client's vector. -/
theorem Good.client (hQ : Vouching Q)
    (hok : ((servers r.address).insert ⟨k, v, m, r.epoch⟩).1.ok = true) (hposted : (k, v) ∈ l)
    {p : ShardClient} {k' : Key} (h : Good Q servers l p k') :
    Good Q (Function.update servers r.address
      ((servers r.address).insert ⟨k, v, m, r.epoch⟩).2) l p k' := by
  by_cases hhit : p.address = r.address ∧ k' = k
  · refine ⟨v, ?_, ?_⟩
    · rw [liveVector_update_insert hok, if_pos hhit]
    · rw [hhit.2]
      exact hQ.posted l k v hposted
  · rcases h with ⟨w, hw, hq⟩
    exact ⟨w, by rw [liveVector_update_insert hok, if_neg hhit, hw], hq⟩

theorem Good.client_self (hQ : Vouching Q)
    (hok : ((servers r.address).insert ⟨k, v, m, r.epoch⟩).1.ok = true) (hposted : (k, v) ∈ l) :
    Good Q (Function.update servers r.address
      ((servers r.address).insert ⟨k, v, m, r.epoch⟩).2) l r k :=
  ⟨v, by rw [liveVector_update_insert hok, if_pos ⟨rfl, rfl⟩], hQ.posted l k v hposted⟩

theorem Safe.client (hQ : Vouching Q)
    (hok : ((servers r.address).insert ⟨k, v, m, r.epoch⟩).1.ok = true) (hposted : (k, v) ∈ l)
    {k' : Key} (h : Safe job Q servers l handler k') :
    Safe job Q (Function.update servers r.address
      ((servers r.address).insert ⟨k, v, m, r.epoch⟩).2) l handler k' := by
  rcases h with ⟨p, hp, hfinal, hgood⟩ | ⟨p, hp, hreq, hwaits, hgood⟩ | hmoving
  · exact .inl ⟨p, hp, hfinal, hgood.client hQ hok hposted⟩
  · exact .inr (.inl ⟨p, hp, hreq, hwaits, hgood.client hQ hok hposted⟩)
  · exact .inr (.inr hmoving)

/-- What was read from a source stays vouched for, if a client's insert meets it there. -/
theorem SourceCopy.client (hok : ((servers r.address).insert ⟨k, v, m, r.epoch⟩).1.ok = true)
    (hr : r ∈ job.pool) {mv : Move} (h : SourceCopy job Q servers l mv)
    (hmeets : findPrimary job.pool mv.source = some r → mv.key = k → Q l mv.key mv.vector) :
    SourceCopy job Q (Function.update servers r.address
      ((servers r.address).insert ⟨k, v, m, r.epoch⟩).2) l mv := by
  intro p hp
  by_cases hhit : p.address = r.address ∧ mv.key = k
  · have heq : p = r := job.own.eq_of_address (findPrimary_mem hp).1 hr hhit.1
    exact .inl (hmeets (heq ▸ hp) hhit.2)
  · rw [liveVector_update_insert hok, if_neg hhit]
    exact h p hp

theorem DestCopy.client (hQ : Vouching Q)
    (hok : ((servers r.address).insert ⟨k, v, m, r.epoch⟩).1.ok = true) (hposted : (k, v) ∈ l)
    {mv : Move} {q : ShardClient} (h : DestCopy Q servers l mv q) :
    DestCopy Q (Function.update servers r.address
      ((servers r.address).insert ⟨k, v, m, r.epoch⟩).2) l mv q := by
  by_cases hhit : q.address = r.address ∧ mv.key = k
  · refine ⟨v, by rw [liveVector_update_insert hok, if_pos hhit], .inr ?_⟩
    rw [hhit.2]
    exact hQ.posted l k v hposted
  · rcases h with ⟨w, hw, hvouched⟩
    exact ⟨w, by rw [liveVector_update_insert hok, if_neg hhit, hw], hvouched⟩

theorem HandlerInv.client (hQ : Vouching Q)
    (hok : ((servers r.address).insert ⟨k, v, m, r.epoch⟩).1.ok = true) (hposted : (k, v) ∈ l)
    (hr : r ∈ job.pool) (h : HandlerInv job Q servers l handler)
    (hmeets : ∀ mv, Leaving job handler r mv → mv.key = k → Q l mv.key mv.vector) :
    HandlerInv job Q (Function.update servers r.address
      ((servers r.address).insert ⟨k, v, m, r.epoch⟩).2) l handler := by
  cases handler with
  | inserting mv ks rest =>
      rcases h with ⟨hrest, dest, hmove, hpending, hsource, hdest⟩
      refine ⟨hrest, dest, hmove, hpending, hsource.client hok hr ?_,
        fun q hq hout => (hdest q hq hout).client hQ hok hposted⟩
      intro hp
      exact hmeets mv ⟨hp, .inl ⟨ks, rest, rfl⟩⟩
  | deleting mv ks rest =>
      rcases h with ⟨hrest, dest, hmove, hpending, hsource, q, hq, hdest⟩
      refine ⟨hrest, dest, hmove, hpending, ?_, q, hq, hdest.client hQ hok hposted⟩
      intro p hp hmem
      apply (hsource p hp hmem).client hok hr
      intro hpr
      have heq : p = r := Option.some_inj.mp (hp.symm.trans hpr)
      exact hmeets mv ⟨hpr, .inr ⟨ks, rest, rfl, heq ▸ hmem⟩⟩
  | idle => exact h
  | proposing => exact h
  | sources rest => exact h
  | keys source ks rest => exact h
  | done => exact h

end Client

/-! ## The moves keep the invariant -/

section Moving

variable {job : RebalanceJob} {Q : List (Key × Floats) → Key → Floats → Prop}
  {servers : Servers} {l : List (Key × Floats)} {mv : Move} {ks : List Key} {rest : List Int}
  {i : Nat} {r : ShardClient}

theorem waits_afterInsert {leavingId : Int} {k : Key} (h : k ∈ ks) :
    waits leavingId k (afterInsert job mv i ks rest) := by
  rw [afterInsert]
  split
  · exact h
  · split
    · exact h
    · exact h

theorem waits_afterDelete {leavingId : Int} {k : Key} (h : k ∈ ks) :
    waits leavingId k (afterDelete mv i ks rest) := by
  rw [afterDelete]
  split
  · exact h
  · exact h

/-- What is still out after one request was handled. -/
theorem mem_eraseIdx_iff {pending : List ShardClient} (hnodup : pending.Nodup)
    (hr : pending[i]? = some r) {q : ShardClient} :
    q ∈ pending.eraseIdx i ↔ q ∈ pending ∧ q ≠ r := by
  rcases List.getElem?_eq_some_iff.mp hr with ⟨hi, rfl⟩
  rw [← hnodup.erase_getElem i hi, hnodup.mem_erase_iff, and_comm]

/-- A moved copy that overwrites no client's vector spoils none. -/
theorem Good.insertAt
    (hok : ((servers r.address).insert ⟨mv.key, mv.vector, mv.metadata, r.epoch⟩).1.ok = true)
    (hr : r ∈ job.pool)
    (hover : findPrimary job.pool r.shardId = some r → Good Q servers l r mv.key →
      Q l mv.key mv.vector) {p : ShardClient} (hp : findPrimary job.pool p.shardId = some p)
    {k : Key} (h : Good Q servers l p k) :
    Good Q (Function.update servers r.address
      ((servers r.address).insert ⟨mv.key, mv.vector, mv.metadata, r.epoch⟩).2) l p k := by
  by_cases hhit : p.address = r.address ∧ k = mv.key
  · have heq : p = r := job.own.eq_of_address (findPrimary_mem hp).1 hr hhit.1
    rw [heq] at hp h
    rw [hhit.2] at h ⊢
    exact ⟨mv.vector, by rw [liveVector_update_insert hok, if_pos ⟨hhit.1, rfl⟩], hover hp h⟩
  · rcases h with ⟨w, hw, hq⟩
    exact ⟨w, by rw [liveVector_update_insert hok, if_neg hhit, hw], hq⟩

theorem Safe.insertAt
    (hok : ((servers r.address).insert ⟨mv.key, mv.vector, mv.metadata, r.epoch⟩).1.ok = true)
    (hr : r ∈ job.pool) (hi : mv.pending[i]? = some r) (hnodup : mv.pending.Nodup)
    (hover : findPrimary job.pool r.shardId = some r → Good Q servers l r mv.key →
      Q l mv.key mv.vector) {k : Key} (h : Safe job Q servers l (.inserting mv ks rest) k) :
    Safe job Q (Function.update servers r.address
      ((servers r.address).insert ⟨mv.key, mv.vector, mv.metadata, r.epoch⟩).2) l
      (afterInsert job mv i ks rest) k := by
  rcases h with ⟨p, hp, hfinal, hgood⟩ | ⟨p, hp, hreq, hwaits, hgood⟩ |
    ⟨mv', ks', rest', q, hhandler, rfl, hq, hpending, hprimary, hfinal⟩
  · exact .inl ⟨p, hp, hfinal, hgood.insertAt hok hr hover hp⟩
  · exact .inr (.inl ⟨p, hp, hreq, waits_afterInsert hwaits, hgood.insertAt hok hr hover hp⟩)
  · cases hhandler
    by_cases hqr : q = r
    · refine .inl ⟨q, hprimary, hfinal, mv.vector, ?_, hq⟩
      rw [hqr, liveVector_update_insert hok, if_pos ⟨rfl, rfl⟩]
    · have hmem := (mem_eraseIdx_iff hnodup hi).mpr ⟨hpending, hqr⟩
      refine .inr (.inr ⟨{ mv with pending := mv.pending.eraseIdx i }, ks, rest, q, ?_, rfl, hq,
        hmem, hprimary, hfinal⟩)
      rw [afterInsert, if_pos (List.ne_nil_of_mem hmem)]

theorem HandlerInv.insertAt
    (hok : ((servers r.address).insert ⟨mv.key, mv.vector, mv.metadata, r.epoch⟩).1.ok = true)
    (hi : mv.pending[i]? = some r) (h : HandlerInv job Q servers l (.inserting mv ks rest)) :
    HandlerInv job Q (Function.update servers r.address
      ((servers r.address).insert ⟨mv.key, mv.vector, mv.metadata, r.epoch⟩).2) l
      (afterInsert job mv i ks rest) := by
  rcases h with ⟨hrest, dest, hmove, hpending, hsource, hdest⟩
  have hrdest := hpending r (List.mem_of_getElem? hi)
  rw [hmove.dest] at hrdest
  rcases mem_replicasForShard.mp hrdest with ⟨hrpool, hrid⟩
  -- The source's primary is no replica of the destination.
  have hsource' : SourceCopy job Q (Function.update servers r.address
      ((servers r.address).insert ⟨mv.key, mv.vector, mv.metadata, r.epoch⟩).2) l mv := by
    intro p hp
    rcases findPrimary_mem hp with ⟨hppool, hpid, -⟩
    have hne : p.address ≠ r.address := by
      apply job.own.address_ne hppool hrpool
      intro heq
      exact hmove.apart (hrid ▸ heq ▸ hpid ▸ hmove.source)
    rw [Function.update_of_ne hne]
    exact hsource p hp
  have hdest' : ∀ q, findPrimary job.pool dest = some q → q ∉ mv.pending.eraseIdx i →
      DestCopy Q (Function.update servers r.address
        ((servers r.address).insert ⟨mv.key, mv.vector, mv.metadata, r.epoch⟩).2) l mv q := by
    intro q hprimary hq
    by_cases hqr : q.address = r.address
    · exact ⟨mv.vector, by rw [liveVector_update_insert hok, if_pos ⟨hqr, rfl⟩], .inl rfl⟩
    · rw [mem_eraseIdx_iff hmove.pending hi, not_and_not_right] at hq
      have hout : q ∉ mv.pending := fun hmem => hqr (congrArg _ (hq hmem))
      rw [DestCopy, Function.update_of_ne hqr]
      exact hdest q hprimary hout
  rw [afterInsert]
  split
  · refine ⟨hrest, dest,
      { hmove with pending := hmove.pending.sublist (List.eraseIdx_sublist _ _) },
      ?_, hsource', hdest'⟩
    intro x hx
    exact hpending x (List.mem_of_mem_eraseIdx hx)
  · next hlast =>
      rw [not_not] at hlast
      split
      · next hquorum =>
          -- The quorum includes a primary of the destination.
          rcases exists_primary_of_primaryOk (quorumResult_ok_iff.mp hquorum).1 with
            ⟨answer, hanswer, hisPrimary⟩
          rcases List.mem_map.mp hanswer with ⟨sc, hsc, rfl⟩
          rcases exists_findPrimary (hmove.dest ▸ hsc) hisPrimary with ⟨q, hq⟩
          refine ⟨hrest, dest, { hmove with pending := ?_ }, fun x hx => hx,
            fun p _ _ => hsource', q, hq, ?_⟩
          · exact (job.own.replicasForShard mv.source).of_map _
          · exact hdest' q hq (by rw [hlast]; exact List.not_mem_nil)
      · exact ⟨hmove.source, hmove.nodup, hrest⟩

/-- What a delete at the source leaves of a key: the destination has it. -/
theorem Safe.deleteAt (hi : mv.pending[i]? = some r)
    (hinv : HandlerInv job Q servers l (.deleting mv ks rest)) {k : Key}
    (h : Safe job Q servers l (.deleting mv ks rest) k) :
    Safe job Q (Function.update servers r.address
      ((servers r.address).delete ⟨mv.key, r.epoch⟩).2) l (afterDelete mv i ks rest) k := by
  rcases hinv with ⟨-, dest, hmove, hpending, hsource, q, hprimary, hdest⟩
  rcases findPrimary_mem hprimary with ⟨hqpool, hqid, -⟩
  have hrmem := List.mem_of_getElem? hi
  rcases mem_replicasForShard.mp (hpending r hrmem) with ⟨hrpool, hrid⟩
  rcases h with ⟨p, hp, hfinal, v, hv, hq⟩ | ⟨p, hp, hreq, hwaits, v, hv, hq⟩ |
    ⟨mv', ks', rest', q', hhandler, -⟩
  · rcases liveVector_update_delete servers r mv.key p.address k with hsame | hhit
    · exact .inl ⟨p, hp, hfinal, v, hsame.trans hv, hq⟩
    · have heq : p = r := job.own.eq_of_address (findPrimary_mem hp).1 hrpool hhit.1
      rw [heq, hrid] at hp
      rw [heq] at hv
      rw [hhit.2] at hv hq ⊢
      have hmoved : Q l mv.key mv.vector := by
        rcases hsource r hp hrmem r hp with hvouched | hcopy
        · exact hvouched
        · rw [Option.some_inj.mp (hcopy.symm.trans hv)]
          exact hq
      rcases hdest with ⟨w, hw, hvouched⟩
      refine .inl ⟨q, hqid ▸ hprimary, hqid ▸ hmove.final, w, ?_, ?_⟩
      · rw [Function.update_of_ne, hw]
        apply job.own.address_ne hqpool hrpool
        exact fun heq => hmove.apart (hqid ▸ heq ▸ hrid ▸ hmove.source)
      · rcases hvouched with rfl | hvouched
        · exact hmoved
        · exact hvouched
  · refine .inr (.inl ⟨p, hp, hreq, waits_afterDelete hwaits, v, ?_, hq⟩)
    rcases liveVector_update_delete servers r mv.key p.address k with hsame | hhit
    · exact hsame.trans hv
    · exact absurd (hhit.2 ▸ hwaits) hmove.key
  · contradiction

theorem HandlerInv.deleteAt (hi : mv.pending[i]? = some r)
    (h : HandlerInv job Q servers l (.deleting mv ks rest)) :
    HandlerInv job Q (Function.update servers r.address
      ((servers r.address).delete ⟨mv.key, r.epoch⟩).2) l (afterDelete mv i ks rest) := by
  rcases h with ⟨hrest, dest, hmove, hpending, hsource, q, hprimary, hdest⟩
  rcases findPrimary_mem hprimary with ⟨hqpool, hqid, -⟩
  rcases mem_replicasForShard.mp (hpending r (List.mem_of_getElem? hi)) with ⟨hrpool, hrid⟩
  rw [afterDelete]
  split
  · refine ⟨hrest, dest,
      { hmove with pending := hmove.pending.sublist (List.eraseIdx_sublist _ _) },
      fun x hx => hpending x (List.mem_of_mem_eraseIdx hx), ?_, q, hprimary, ?_⟩
    · intro p hp hmem p' hp'
      have heq : p' = p := Option.some_inj.mp (hp'.symm.trans hp)
      rcases (mem_eraseIdx_iff hmove.pending hi).mp hmem with ⟨hmem, hne⟩
      have hne' : p'.address ≠ r.address := by
        intro ha
        exact hne (heq ▸ job.own.eq_of_address (findPrimary_mem hp').1 hrpool ha)
      rw [Function.update_of_ne hne']
      exact hsource p hp hmem p' hp'
    · have hne : q.address ≠ r.address := by
        apply job.own.address_ne hqpool hrpool
        exact fun heq => hmove.apart (hqid ▸ heq ▸ hrid ▸ hmove.source)
      rw [DestCopy, Function.update_of_ne hne]
      exact hdest
  · exact ⟨hmove.source, hmove.nodup, hrest⟩

end Moving

/-! ## The handler's loops keep the invariant -/

theorem sources_remove {job : RebalanceJob} {leavingId : Int} (h : job.req = .remove leavingId) :
    job.sources = [leavingId] := by
  rw [RebalanceJob.sources, h]

section Loops

variable {job : RebalanceJob} {Q : List (Key × Floats) → Key → Floats → Prop}
  {servers : Servers} {l : List (Key × Floats)} {handler handler' : HandlerPhase} {k : Key}
  {source : Int} {ks : List Key} {rest : List Int} {mv : Move}

/-- Between two moves a key is safe if it keeps waiting. -/
theorem Safe.of_waits (hphase : ∀ mv ks rest, handler ≠ .inserting mv ks rest)
    (hwaits : ∀ p, findPrimary job.pool p.shardId = some p → job.req = .remove p.shardId →
      Good Q servers l p k → waits p.shardId k handler → waits p.shardId k handler')
    (h : Safe job Q servers l handler k) : Safe job Q servers l handler' k := by
  rcases h with hfinal | ⟨p, hp, hreq, hw, hgood⟩ | ⟨mv, ks, rest, q, hhandler, -⟩
  · exact .inl hfinal
  · exact .inr (.inl ⟨p, hp, hreq, hwaits p hp hreq hgood hw, hgood⟩)
  · exact absurd hhandler (hphase mv ks rest)

theorem Safe.start (h : Safe job Q servers l .idle k) :
    Safe job Q servers l (afterStart job) k := by
  refine h.of_waits (by simp) ?_
  intro p _ hreq _ _
  rw [afterStart, hreq, sources_remove hreq]
  exact List.mem_singleton_self _

theorem Safe.apply (h : Safe job Q servers l .proposing k) :
    Safe job Q servers l (afterApply job) k := by
  refine h.of_waits (by simp) ?_
  intro p _ _ _ hw
  exact False.elim hw

theorem Safe.leaveSources (h : Safe job Q servers l (.sources []) k) :
    Safe job Q servers l (afterSources job) k := by
  refine h.of_waits (by simp) ?_
  intro p _ _ _ hw
  exact absurd hw List.not_mem_nil

theorem Safe.passOver (hprimary : findPrimary job.pool source = none)
    (h : Safe job Q servers l (.sources (source :: rest)) k) :
    Safe job Q servers l (.sources rest) k := by
  refine h.of_waits (by simp) ?_
  intro p hp _ _ hw
  rcases List.mem_cons.mp hw with heq | hmem
  · rw [heq, hprimary] at hp
    contradiction
  · exact hmem

/-- The listing has every key of the leaving shard that is live now. -/
theorem Safe.list {p : ShardClient} (hprimary : findPrimary job.pool source = some p)
    (hsource : source ∈ job.sources) (h : Safe job Q servers l (.sources (source :: rest)) k) :
    Safe job Q servers l (.keys source (servers p.address).listLocalIds rest) k := by
  refine h.of_waits (by simp) ?_
  rintro p' hp' hreq ⟨v, hv, -⟩ -
  rw [sources_remove hreq, List.mem_singleton] at hsource
  rw [hsource, hp', Option.some_inj] at hprimary
  rw [hprimary] at hv
  exact ShardServer.mem_listLocalIds.mpr (by rw [hv]; rfl)

theorem Safe.leaveKeys (h : Safe job Q servers l (.keys source [] rest) k) :
    Safe job Q servers l (.sources rest) k :=
  h.of_waits (by simp) fun _ _ _ _ hw => absurd hw List.not_mem_nil

/-- What is read of a key. -/
theorem fetch_eq_some (h : fetch job servers source k = some mv) :
    ∃ p, findPrimary job.pool source = some p ∧
      (servers p.address).liveVector k = some mv.vector ∧ job.plan k = .moveTo mv.destReplicas ∧
      mv.source = source ∧ mv.key = k ∧ mv.pending = mv.destReplicas := by
  rw [fetch] at h
  split at h
  · next destReplicas hplan =>
      rcases Option.bind_eq_some_iff.mp h with ⟨p, hp, h⟩
      dsimp only at h
      split at h
      · next hok =>
          cases h
          exact ⟨p, hp, ShardServer.getVector_ok_iff.mp hok, hplan, rfl, rfl, rfl⟩
      · contradiction
  · contradiction

theorem fetch_eq_none {p : ShardClient} {destReplicas : List ShardClient} {v : Floats}
    (hplan : job.plan k = .moveTo destReplicas) (hp : findPrimary job.pool source = some p)
    (h : fetch job servers source k = none) : (servers p.address).liveVector k ≠ some v := by
  intro hv
  rw [fetch, hplan] at h
  dsimp only at h
  rw [hp, Option.bind_some, ShardServer.getVector_ok_iff.mpr, if_pos rfl] at h
  · contradiction
  · rw [ShardServer.liveVector] at hv ⊢
    split at hv
    · next hok => rw [if_pos hok]
    · contradiction

/-- A remove reads every live key that is listed. -/
theorem Safe.skip {x : Key} (hnone : fetch job servers source x = none)
    (hsource : source ∈ job.sources) (h : Safe job Q servers l (.keys source (x :: ks) rest) k) :
    Safe job Q servers l (.keys source ks rest) k := by
  refine h.of_waits (by simp) ?_
  rintro p hp hreq ⟨v, hv, -⟩ hw
  rcases List.mem_cons.mp hw with heq | hmem
  · rw [sources_remove hreq, List.mem_singleton] at hsource
    rcases job.plan_remove hreq x with ⟨destReplicas, hplan⟩
    rw [← hsource] at hp
    rw [heq] at hv
    exact absurd hv (fetch_eq_none hplan hp hnone)
  · exact hmem

/-- A key that was read is on its way. -/
theorem Safe.get {x : Key} (hfetch : fetch job servers source x = some mv)
    (hsource : source ∈ job.sources) (h : Safe job Q servers l (.keys source (x :: ks) rest) k) :
    Safe job Q servers l (.inserting mv ks rest) k := by
  rcases h with hfinal | ⟨p, hp, hreq, hw, v, hv, hq⟩ | ⟨mv', ks', rest', q, hhandler, -⟩
  · exact .inl hfinal
  · rcases List.mem_cons.mp hw with heq | hmem
    · rcases fetch_eq_some hfetch with ⟨p', hp', hv', hplan, -, hkey, hpending⟩
      rw [sources_remove hreq, List.mem_singleton] at hsource
      rw [hsource, hp, Option.some_inj] at hp'
      rw [← hp', ← heq, hv, Option.some_inj] at hv'
      rcases job.plan_moveTo hplan with ⟨dest, hfinal, -, hdest⟩
      rcases job.exists_primary hreq hfinal with ⟨q, hprimary⟩
      rcases findPrimary_mem hprimary with ⟨hqpool, hqid, -⟩
      refine .inr (.inr ⟨mv, ks, rest, q, rfl, hkey.trans heq.symm, hv' ▸ hq, ?_, hqid ▸ hprimary,
        hqid ▸ hfinal⟩)
      rw [hpending, hdest]
      exact mem_replicasForShard.mpr ⟨hqpool, hqid⟩
    · exact .inr (.inl ⟨p, hp, hreq, hmem, v, hv, hq⟩)
  · contradiction

theorem HandlerInv.get {x : Key} (hfetch : fetch job servers source x = some mv)
    (h : HandlerInv job Q servers l (.keys source (x :: ks) rest)) :
    HandlerInv job Q servers l (.inserting mv ks rest) := by
  rcases h with ⟨hsource, hnodup, hrest⟩
  rw [List.nodup_cons] at hnodup
  rcases fetch_eq_some hfetch with ⟨p, hp, hv, hplan, hmvsource, hkey, hpending⟩
  rcases job.plan_moveTo hplan with ⟨dest, hfinal, hapart, hdest⟩
  refine ⟨hrest, dest, ⟨hmvsource ▸ hsource, hfinal, hapart, hdest, hkey ▸ hnodup.1,
    hnodup.2, ?_⟩, ?_, ?_, ?_⟩
  · rw [hpending, hdest]
    exact (job.own.replicasForShard _).of_map _
  · rw [hpending]
    exact fun r hr => hr
  · intro p' hp'
    rw [hmvsource, hp, Option.some_inj] at hp'
    rw [← hp', hkey]
    exact .inr hv
  · intro q hq hout
    rcases findPrimary_mem hq with ⟨hqpool, hqid, -⟩
    rw [hpending, hdest] at hout
    exact absurd (mem_replicasForShard.mpr ⟨hqpool, hqid⟩) hout

end Loops

end RebalanceRun

end NanoDB.Coordinator
