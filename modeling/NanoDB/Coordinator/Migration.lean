import NanoDB.Coordinator.QuorumWrite

/-!
# Moving keys between shards

A quorum write and the migration of a key as they run in one handler, with no other
write at the same time: each RPC is lost, is carried out without its answer arriving, or
is answered.  The requests of one write go to processes of their own, so the order in
which they are handled does not matter.

Main results:

- Theorem {lit}`fanOut_apply`: what a write does to one replica.
- Theorem {lit}`liveVector_migrateOneKey`: a key is at a destination replica afterwards
  iff it was read there from the source and the insert got through, or it was there
  before.
- Theorem {lit}`liveVector_migrateKeys`: the same for a loop over keys.
-/

namespace NanoDB.Coordinator

open Raft (Bytes)
open Cluster (Key)
open Shard (ShardServer Floats)

/-- The shard processes. -/
abbrev Servers := Address → ShardServer

/-- The fate of one RPC. -/
inductive Delivery where
  /-- It was not carried out; the caller sees an error. -/
  | lost
  /-- It was carried out, but the caller sees an error. -/
  | unanswered
  | answered
deriving DecidableEq, Repr

/-- The fates of the RPCs that move one key. -/
structure KeyFates where
  get : Delivery
  insert : Address → Delivery
  delete : Address → Delivery

/-- No client of the list shares its process with another. -/
def OwnProcesses (pool : List ShardClient) : Prop :=
  (pool.map ShardClient.address).Nodup

instance (pool : List ShardClient) : Decidable (OwnProcesses pool) :=
  inferInstanceAs (Decidable (List.Nodup _))

theorem OwnProcesses.eq_of_address {pool : List ShardClient} (h : OwnProcesses pool)
    {r r' : ShardClient} (hr : r ∈ pool) (hr' : r' ∈ pool) (heq : r.address = r'.address) :
    r = r' :=
  List.inj_on_of_nodup_map h hr hr' heq

/-! ## Writes to all replicas -/

/-- Fire a write at every replica; the servers afterwards and the answers. -/
def fanOut (op : WriteOp) (fate : Address → Delivery) :
    List ShardClient → Servers → Servers × List (ShardClient × Bool)
  | [], servers => (servers, [])
  | r :: rs, servers =>
      if fate r.address = .lost then
        let rest := fanOut op fate rs servers
        (rest.1, (r, false) :: rest.2)
      else
        let handled := op.handle r.epoch (servers r.address)
        let rest := fanOut op fate rs (Function.update servers r.address handled.2)
        (rest.1, (r, handled.1 && decide (fate r.address = .answered)) :: rest.2)

def quorumInsert (replicas : List ShardClient) (externalId : Key) (vec : Floats)
    (metadata : Bytes) (fate : Address → Delivery) (servers : Servers) : QuorumResult × Servers :=
  let r := fanOut (.insert externalId vec metadata) fate replicas servers
  (quorumResult r.2, r.1)

def quorumDelete (replicas : List ShardClient) (externalId : Key) (fate : Address → Delivery)
    (servers : Servers) : QuorumResult × Servers :=
  let r := fanOut (.delete externalId) fate replicas servers
  (quorumResult r.2, r.1)

section FanOut

variable {op : WriteOp} {fate : Address → Delivery} {replicas : List ShardClient}

/-- Processes that are not addressed do not change. -/
theorem fanOut_of_not_mem {a : Address} (h : ∀ r ∈ replicas, r.address ≠ a) (servers : Servers) :
    (fanOut op fate replicas servers).1 a = servers a := by
  induction replicas generalizing servers with
  | nil => rfl
  | cons r rs ih =>
      have hrs := fun r' hr' => h r' (List.mem_cons_of_mem _ hr')
      rw [fanOut]
      split
      · exact ih hrs servers
      · rw [ih hrs, Function.update_of_ne (h r List.mem_cons_self).symm]

/-- What a write does to one of its replicas. -/
theorem fanOut_apply (hown : OwnProcesses replicas) {r : ShardClient} (hr : r ∈ replicas)
    (servers : Servers) :
    (fanOut op fate replicas servers).1 r.address =
      if fate r.address = .lost then servers r.address
      else (op.handle r.epoch (servers r.address)).2 := by
  induction replicas generalizing servers with
  | nil => simp at hr
  | cons x rs ih =>
      rw [OwnProcesses, List.map_cons, List.nodup_cons] at hown
      have hx : ∀ r' ∈ rs, r'.address ≠ x.address :=
        fun r' hr' heq => hown.1 (heq ▸ List.mem_map_of_mem hr')
      rw [fanOut]
      rcases List.mem_cons.mp hr with rfl | hrs
      · split
        · exact fanOut_of_not_mem hx servers
        · rw [fanOut_of_not_mem hx, Function.update_self]
      · split
        · exact ih hown.2 hrs servers
        · rw [ih hown.2 hrs, Function.update_of_ne (hx r hrs)]

/-- What the replicas of a write answer. -/
theorem fanOut_answers (hown : OwnProcesses replicas) (servers : Servers) :
    (fanOut op fate replicas servers).2 = replicas.map fun r =>
      (r, decide (fate r.address = .answered) && (op.handle r.epoch (servers r.address)).1) := by
  induction replicas generalizing servers with
  | nil => rfl
  | cons x rs ih =>
      rw [OwnProcesses, List.map_cons, List.nodup_cons] at hown
      have hx : ∀ r ∈ rs, r.address ≠ x.address :=
        fun r hr heq => hown.1 (heq ▸ List.mem_map_of_mem hr)
      rw [fanOut, List.map_cons]
      split
      · next hlost => simp [hlost, ih hown.2]
      · dsimp only
        rw [ih hown.2, Bool.and_comm]
        congr 1
        apply List.map_congr_left
        intro r hr
        rw [Function.update_of_ne (hx r hr)]

end FanOut

/-- A write changes no other key. -/
theorem liveVector_handle_of_ne {op : WriteOp} {k : Key} (hne : k ≠ op.key) (epoch : Nat)
    (s : ShardServer) : (op.handle epoch s).2.liveVector k = s.liveVector k := by
  cases op with
  | insert k' v m =>
      rw [WriteOp.handle]
      cases hok : (s.insert ⟨k', v, m, epoch⟩).1.ok with
      | false => rw [ShardServer.insert_refused hok]
      | true =>
          rw [ShardServer.liveVector_insert hok]
          exact if_neg hne
  | delete k' =>
      rw [WriteOp.handle]
      rcases Nat.lt_or_ge epoch s.currentEpoch with hlt | hge
      · rw [ShardServer.delete_refused hlt]
      · rw [ShardServer.liveVector_delete hge]
        exact if_neg hne

/-- Whether a replica accepts an epoch is not changed by a write of that epoch. -/
theorem currentEpoch_handle_le_iff (op : WriteOp) (epoch : Nat) (s : ShardServer) :
    (op.handle epoch s).2.currentEpoch ≤ epoch ↔ s.currentEpoch ≤ epoch := by
  cases op with
  | insert k v m =>
      rw [WriteOp.handle, ShardServer.currentEpoch_insert]
      split
      · next hok => simp [(ShardServer.insert_ok_iff.mp hok).2]
      · rfl
  | delete k =>
      rw [WriteOp.handle, ShardServer.currentEpoch_delete]
      simp

theorem liveVector_fanOut_of_ne {op : WriteOp} {k : Key} (hne : k ≠ op.key)
    (fate : Address → Delivery) (replicas : List ShardClient) (servers : Servers) (a : Address) :
    ((fanOut op fate replicas servers).1 a).liveVector k = (servers a).liveVector k := by
  induction replicas generalizing servers with
  | nil => rfl
  | cons r rs ih =>
      rw [fanOut]
      split
      · exact ih servers
      · rw [ih]
        by_cases ha : a = r.address
        · rw [ha, Function.update_self, liveVector_handle_of_ne hne]
        · rw [Function.update_of_ne ha]

/-- Whether a client's epoch is accepted is not changed by a write to replicas of its
pool. -/
theorem accepts_fanOut_iff {pool replicas : List ShardClient} (hown : OwnProcesses pool)
    (hsub : ∀ r ∈ replicas, r ∈ pool) {q : ShardClient} (hq : q ∈ pool) (op : WriteOp)
    (fate : Address → Delivery) (servers : Servers) :
    ((fanOut op fate replicas servers).1 q.address).currentEpoch ≤ q.epoch ↔
      (servers q.address).currentEpoch ≤ q.epoch := by
  induction replicas generalizing servers with
  | nil => rfl
  | cons r rs ih =>
      have hrs := fun r' hr' => hsub r' (List.mem_cons_of_mem _ hr')
      rw [fanOut]
      split
      · exact ih hrs servers
      · rw [ih hrs]
        by_cases ha : q.address = r.address
        · have heq : q = r := hown.eq_of_address hq (hsub r List.mem_cons_self) ha
          rw [heq, Function.update_self, currentEpoch_handle_le_iff]
        · rw [Function.update_of_ne ha]

/-! ## One key -/

/-- Move one key: read it from the source's primary, insert it at the destination, and
only then delete it at the source, whose outcome is not looked at. -/
def migrateOneKey (sourcePrimary : ShardClient) (sourceReplicas destReplicas : List ShardClient)
    (externalId : Key) (fates : KeyFates) (servers : Servers) : Bool × Servers :=
  let gres := (servers sourcePrimary.address).getVector externalId
  if fates.get ≠ .answered ∨ gres.ok = false then (false, servers)
  else
    let inserted := quorumInsert destReplicas externalId gres.vector gres.metadata fates.insert
      servers
    if inserted.1.ok = false then (false, inserted.2)
    else (true, (quorumDelete sourceReplicas externalId fates.delete inserted.2).2)

section OneKey

variable {sourcePrimary : ShardClient} {sourceReplicas destReplicas : List ShardClient}
  {externalId : Key} {fates : KeyFates} {servers : Servers}

/-- What moving a key can do. -/
theorem migrateOneKey_cases (sourcePrimary : ShardClient)
    (sourceReplicas destReplicas : List ShardClient) (externalId : Key) (fates : KeyFates)
    (servers : Servers) :
    ((fates.get ≠ .answered ∨ (servers sourcePrimary.address).liveVector externalId = none) ∧
      migrateOneKey sourcePrimary sourceReplicas destReplicas externalId fates servers =
        (false, servers)) ∨
    ∃ v m, fates.get = .answered ∧
      (servers sourcePrimary.address).liveVector externalId = some v ∧
      ((migrateOneKey sourcePrimary sourceReplicas destReplicas externalId fates servers).2 =
          (fanOut (.insert externalId v m) fates.insert destReplicas servers).1 ∨
        (migrateOneKey sourcePrimary sourceReplicas destReplicas externalId fates servers).2 =
          (fanOut (.delete externalId) fates.delete sourceReplicas
            (fanOut (.insert externalId v m) fates.insert destReplicas servers).1).1) := by
  rw [migrateOneKey]
  split
  · next h =>
      refine .inl ⟨?_, rfl⟩
      rcases h with hget | hgres
      · exact .inl hget
      · refine .inr ?_
        rw [ShardServer.liveVector, hgres]
        rfl
  · next h =>
      have hget : fates.get = .answered := by
        by_contra hne
        exact h (.inl hne)
      have hok : ((servers sourcePrimary.address).getVector externalId).ok = true := by
        cases hgres : ((servers sourcePrimary.address).getVector externalId).ok with
        | false => exact absurd (.inr hgres) h
        | true => rfl
      refine .inr ⟨_, ((servers sourcePrimary.address).getVector externalId).metadata, hget,
        ShardServer.getVector_ok_iff.mp hok, ?_⟩
      dsimp only
      split
      · exact .inl rfl
      · exact .inr rfl

/-- Moving a key changes no other key. -/
theorem liveVector_migrateOneKey_of_ne {k : Key} (hne : k ≠ externalId) (a : Address) :
    ((migrateOneKey sourcePrimary sourceReplicas destReplicas externalId fates servers).2
      a).liveVector k = (servers a).liveVector k := by
  rcases migrateOneKey_cases sourcePrimary sourceReplicas destReplicas externalId fates servers with
    ⟨-, heq⟩ | ⟨v, m, -, -, heq | heq⟩
  · rw [heq]
  · rw [heq, liveVector_fanOut_of_ne hne]
  · rw [heq, liveVector_fanOut_of_ne hne, liveVector_fanOut_of_ne hne]

/-- Moving a key changes no process outside the two shards. -/
theorem migrateOneKey_of_not_mem {a : Address} (hsource : ∀ r ∈ sourceReplicas, r.address ≠ a)
    (hdest : ∀ r ∈ destReplicas, r.address ≠ a) :
    (migrateOneKey sourcePrimary sourceReplicas destReplicas externalId fates servers).2 a =
      servers a := by
  rcases migrateOneKey_cases sourcePrimary sourceReplicas destReplicas externalId fates servers with
    ⟨-, heq⟩ | ⟨v, m, -, -, heq | heq⟩
  · rw [heq]
  · rw [heq, fanOut_of_not_mem hdest]
  · rw [heq, fanOut_of_not_mem hsource, fanOut_of_not_mem hdest]

/-- Moving a key does not change which epochs are accepted. -/
theorem accepts_migrateOneKey_iff {pool : List ShardClient} (hown : OwnProcesses pool)
    (hsource : ∀ r ∈ sourceReplicas, r ∈ pool) (hdest : ∀ r ∈ destReplicas, r ∈ pool)
    {q : ShardClient} (hq : q ∈ pool) :
    ((migrateOneKey sourcePrimary sourceReplicas destReplicas externalId fates servers).2
      q.address).currentEpoch ≤ q.epoch ↔ (servers q.address).currentEpoch ≤ q.epoch := by
  rcases migrateOneKey_cases sourcePrimary sourceReplicas destReplicas externalId fates servers with
    ⟨-, heq⟩ | ⟨v, m, -, -, heq | heq⟩
  · rw [heq]
  · rw [heq, accepts_fanOut_iff hown hdest hq]
  · rw [heq, accepts_fanOut_iff hown hsource hq, accepts_fanOut_iff hown hdest hq]

/-- The vector that the move of a key brings to a destination replica: the read is
answered, the insert gets through, and its epoch is accepted. -/
def arriving (sourcePrimary q : ShardClient) (externalId : Key) (fates : KeyFates)
    (servers : Servers) : Option Floats :=
  if fates.get = .answered ∧ fates.insert q.address ≠ .lost ∧
      (servers q.address).currentEpoch ≤ q.epoch then
    (servers sourcePrimary.address).liveVector externalId
  else none

/-- An arrival depends on the source's copy and on whether the epoch is accepted. -/
theorem arriving_congr {q : ShardClient} {servers' : Servers}
    (hlive : (servers' sourcePrimary.address).liveVector externalId =
      (servers sourcePrimary.address).liveVector externalId)
    (hepoch : (servers' q.address).currentEpoch ≤ q.epoch ↔
      (servers q.address).currentEpoch ≤ q.epoch) :
    arriving sourcePrimary q externalId fates servers' =
      arriving sourcePrimary q externalId fates servers := by
  simp only [arriving, hlive, hepoch]

/-- What a destination replica holds of the key after the move. -/
theorem liveVector_migrateOneKey (hown : OwnProcesses destReplicas) {q : ShardClient}
    (hq : q ∈ destReplicas) (hsource : ∀ r ∈ sourceReplicas, r.address ≠ q.address) :
    ((migrateOneKey sourcePrimary sourceReplicas destReplicas externalId fates servers).2
      q.address).liveVector externalId =
      (arriving sourcePrimary q externalId fates servers).or
        ((servers q.address).liveVector externalId) := by
  have hinsert : ∀ v m, fates.get = .answered →
      (servers sourcePrimary.address).liveVector externalId = some v →
      ((fanOut (.insert externalId v m) fates.insert destReplicas servers).1
        q.address).liveVector externalId =
      (arriving sourcePrimary q externalId fates servers).or
        ((servers q.address).liveVector externalId) := by
    intro v m hget hv
    rw [arriving, fanOut_apply hown hq]
    by_cases hlost : fates.insert q.address = .lost
    · simp [hlost]
    · rw [if_neg hlost]
      by_cases hepoch : (servers q.address).currentEpoch ≤ q.epoch
      · have hok : ((servers q.address).insert ⟨externalId, v, m, q.epoch⟩).1.ok = true :=
          ShardServer.insert_ok_iff.mpr ⟨ShardServer.length_of_liveVector hv, hepoch⟩
        rw [if_pos ⟨hget, hlost, hepoch⟩, hv, Option.some_or]
        exact WriteOp.liveVector_of_handle_insert hok
      · have hno : ((servers q.address).insert ⟨externalId, v, m, q.epoch⟩).1.ok = false := by
          cases hok : ((servers q.address).insert ⟨externalId, v, m, q.epoch⟩).1.ok with
          | false => rfl
          | true => exact absurd (ShardServer.insert_ok_iff.mp hok).2 hepoch
        rw [if_neg (fun h => hepoch h.2.2), Option.none_or, WriteOp.handle,
          ShardServer.insert_refused hno]
  rcases migrateOneKey_cases sourcePrimary sourceReplicas destReplicas externalId fates servers with
    ⟨hnone, heq⟩ | ⟨v, m, hget, hv, heq | heq⟩
  · rw [heq, arriving]
    rcases hnone with hget | hnone
    · rw [if_neg (fun h => hget h.1), Option.none_or]
    · rw [hnone, ite_self, Option.none_or]
  · rw [heq]
    exact hinsert v m hget hv
  · rw [heq, fanOut_of_not_mem hsource]
    exact hinsert v m hget hv

/-- A move that succeeds leaves nothing at a source replica that its delete reaches. -/
theorem liveVector_migrateOneKey_source {pool : List ShardClient} (hown : OwnProcesses pool)
    (hsource : ∀ r ∈ sourceReplicas, r ∈ pool) (hdest : ∀ r ∈ destReplicas, r ∈ pool)
    (hsourceOwn : OwnProcesses sourceReplicas) (hdestOwn : OwnProcesses destReplicas)
    (hget : fates.get = .answered)
    (hinsert : ∀ r ∈ destReplicas, fates.insert r.address = .answered)
    (hprimary : ∃ r ∈ destReplicas, r.isPrimary = true)
    (haccepts : ∀ r ∈ pool, (servers r.address).currentEpoch ≤ r.epoch)
    (hlive : (servers sourcePrimary.address).liveVector externalId ≠ none) {q : ShardClient}
    (hq : q ∈ sourceReplicas) (hdelete : fates.delete q.address ≠ .lost) :
    ((migrateOneKey sourcePrimary sourceReplicas destReplicas externalId fates servers).2
      q.address).liveVector externalId = none := by
  have hgres : ((servers sourcePrimary.address).getVector externalId).ok = true := by
    rw [ShardServer.liveVector] at hlive
    by_contra hok
    exact hlive (if_neg hok)
  have hv := ShardServer.getVector_ok_iff.mp hgres
  have hquorum : (quorumInsert destReplicas externalId
      ((servers sourcePrimary.address).getVector externalId).vector
      ((servers sourcePrimary.address).getVector externalId).metadata fates.insert
      servers).1.ok = true := by
    apply quorumResult_ok_of_all
    · intro answer hanswer
      rw [fanOut_answers hdestOwn] at hanswer
      rcases List.mem_map.mp hanswer with ⟨r, hr, rfl⟩
      rw [hinsert r hr, Bool.and_eq_true]
      exact ⟨rfl, ShardServer.insert_ok_iff.mpr
        ⟨ShardServer.length_of_liveVector hv, haccepts r (hdest r hr)⟩⟩
    · rcases hprimary with ⟨r, hr, hisPrimary⟩
      rw [fanOut_answers hdestOwn]
      exact ⟨_, List.mem_map_of_mem hr, hisPrimary⟩
  rw [migrateOneKey]
  dsimp only
  rw [if_neg (by simp [hget, hgres]), if_neg (by simp [hquorum])]
  dsimp only [quorumDelete]
  rw [fanOut_apply hsourceOwn hq, if_neg hdelete, WriteOp.handle, ShardServer.liveVector_delete,
    if_pos rfl]
  exact (accepts_fanOut_iff hown hdest (hsource q hq) _ _ _).mpr (haccepts q (hsource q hq))

end OneKey

/-! ## A loop over keys -/

/-- What a handler does with a listed key. -/
inductive Plan where
  /-- It stays where it is. -/
  | skip
  /-- Its destination has no replicas. -/
  | fail
  | moveTo (destReplicas : List ShardClient)

/-- The counters that a handler answers with. -/
structure Tally where
  migrated : Nat := 0
  failed : Nat := 0
deriving DecidableEq, Repr

def migrateKeys (sourcePrimary : ShardClient) (sourceReplicas : List ShardClient)
    (plan : Key → Plan) (fates : Key → KeyFates) : List Key → Tally → Servers → Tally × Servers
  | [], tally, servers => (tally, servers)
  | k :: ks, tally, servers =>
      match plan k with
      | .skip => migrateKeys sourcePrimary sourceReplicas plan fates ks tally servers
      | .fail =>
          migrateKeys sourcePrimary sourceReplicas plan fates ks
            { tally with failed := tally.failed + 1 } servers
      | .moveTo destReplicas =>
          let r := migrateOneKey sourcePrimary sourceReplicas destReplicas k (fates k) servers
          migrateKeys sourcePrimary sourceReplicas plan fates ks
            (if r.1 then { tally with migrated := tally.migrated + 1 }
              else { tally with failed := tally.failed + 1 }) r.2

section Keys

variable {sourcePrimary : ShardClient} {sourceReplicas : List ShardClient} {plan : Key → Plan}
  {fates : Key → KeyFates} {keys : List Key}

/-- The loop changes only keys that are listed and moved. -/
theorem liveVector_migrateKeys_of_not_moved {k : Key}
    (h : k ∈ keys → ∀ destReplicas, plan k ≠ .moveTo destReplicas) (tally : Tally)
    (servers : Servers) (a : Address) :
    ((migrateKeys sourcePrimary sourceReplicas plan fates keys tally servers).2 a).liveVector k =
      (servers a).liveVector k := by
  induction keys generalizing tally servers with
  | nil => rfl
  | cons x ks ih =>
      have hks := fun hmem => h (List.mem_cons_of_mem _ hmem)
      rw [migrateKeys]
      split
      · exact ih hks tally servers
      · exact ih hks _ servers
      · next destReplicas hplan =>
          rw [ih hks]
          apply liveVector_migrateOneKey_of_ne
          rintro rfl
          exact h List.mem_cons_self destReplicas hplan

/-- The loop changes no process outside the source and the destinations. -/
theorem migrateKeys_of_not_mem {a : Address} (hsource : ∀ r ∈ sourceReplicas, r.address ≠ a)
    (hdest : ∀ k destReplicas, plan k = .moveTo destReplicas → ∀ r ∈ destReplicas, r.address ≠ a)
    (tally : Tally) (servers : Servers) :
    (migrateKeys sourcePrimary sourceReplicas plan fates keys tally servers).2 a = servers a := by
  induction keys generalizing tally servers with
  | nil => rfl
  | cons x ks ih =>
      rw [migrateKeys]
      split
      · exact ih tally servers
      · exact ih _ servers
      · next destReplicas hplan =>
          rw [ih, migrateOneKey_of_not_mem hsource (hdest x destReplicas hplan)]

/-- The loop changes a key only at the source and where it is moved to. -/
theorem liveVector_migrateKeys_of_apart {a : Address} {k : Key}
    (hsource : ∀ r ∈ sourceReplicas, r.address ≠ a)
    (hdest : ∀ destReplicas, plan k = .moveTo destReplicas → ∀ r ∈ destReplicas, r.address ≠ a)
    (tally : Tally) (servers : Servers) :
    ((migrateKeys sourcePrimary sourceReplicas plan fates keys tally servers).2 a).liveVector k =
      (servers a).liveVector k := by
  induction keys generalizing tally servers with
  | nil => rfl
  | cons x ks ih =>
      rw [migrateKeys]
      split
      · exact ih tally servers
      · exact ih _ servers
      · next destReplicas hplan =>
          rw [ih]
          by_cases hx : x = k
          · subst hx
            rw [migrateOneKey_of_not_mem hsource (hdest destReplicas hplan)]
          · exact liveVector_migrateOneKey_of_ne (Ne.symm hx) a

variable {pool : List ShardClient}

/-- The loop does not change which epochs are accepted. -/
theorem accepts_migrateKeys_iff (hown : OwnProcesses pool)
    (hsource : ∀ r ∈ sourceReplicas, r ∈ pool)
    (hdest : ∀ k destReplicas, plan k = .moveTo destReplicas → ∀ r ∈ destReplicas, r ∈ pool)
    {q : ShardClient} (hq : q ∈ pool) (tally : Tally) (servers : Servers) :
    ((migrateKeys sourcePrimary sourceReplicas plan fates keys tally servers).2
      q.address).currentEpoch ≤ q.epoch ↔ (servers q.address).currentEpoch ≤ q.epoch := by
  induction keys generalizing tally servers with
  | nil => rfl
  | cons x ks ih =>
      rw [migrateKeys]
      split
      · exact ih tally servers
      · exact ih _ servers
      · next destReplicas hplan =>
          rw [ih, accepts_migrateOneKey_iff hown hsource (hdest x destReplicas hplan) hq]

/-- What a destination replica holds of a listed key after the loop. -/
theorem liveVector_migrateKeys (hown : OwnProcesses pool) (hsource : ∀ r ∈ sourceReplicas, r ∈ pool)
    (hdest : ∀ k destReplicas, plan k = .moveTo destReplicas → ∀ r ∈ destReplicas, r ∈ pool)
    (hnodup : keys.Nodup) {k : Key} (hk : k ∈ keys) {destReplicas : List ShardClient}
    (hplan : plan k = .moveTo destReplicas) (hdestOwn : OwnProcesses destReplicas)
    {q : ShardClient} (hq : q ∈ destReplicas) (hapart : ∀ r ∈ sourceReplicas, r.address ≠ q.address)
    (tally : Tally) (servers : Servers) :
    ((migrateKeys sourcePrimary sourceReplicas plan fates keys tally servers).2
      q.address).liveVector k =
      (arriving sourcePrimary q k (fates k) servers).or ((servers q.address).liveVector k) := by
  induction keys generalizing tally servers with
  | nil => simp at hk
  | cons x ks ih =>
      rw [List.nodup_cons] at hnodup
      by_cases hxk : x = k
      · subst hxk
        rw [migrateKeys, hplan]
        dsimp only
        rw [liveVector_migrateKeys_of_not_moved (fun hmem => absurd hmem hnodup.1),
          liveVector_migrateOneKey hdestOwn hq hapart]
      · have hks : k ∈ ks := by
          rcases List.mem_cons.mp hk with heq | hmem
          · exact absurd heq.symm hxk
          · exact hmem
        rw [migrateKeys]
        split
        · exact ih hnodup.2 hks tally servers
        · exact ih hnodup.2 hks _ servers
        · next dest hdestx =>
            -- Moving another key changes nothing that the arrival of this one depends on.
            have hqpool : q ∈ pool := hdest k destReplicas hplan q hq
            rw [ih hnodup.2 hks, liveVector_migrateOneKey_of_ne (Ne.symm hxk)]
            congr 1
            apply arriving_congr
            · exact liveVector_migrateOneKey_of_ne (Ne.symm hxk) _
            · exact accepts_migrateOneKey_iff hown hsource (hdest x dest hdestx) hqpool

/-- A listed key that is moved is gone from a source replica that its delete reaches. -/
theorem liveVector_migrateKeys_source (hown : OwnProcesses pool)
    (hsource : ∀ r ∈ sourceReplicas, r ∈ pool)
    (hdest : ∀ k destReplicas, plan k = .moveTo destReplicas → ∀ r ∈ destReplicas, r ∈ pool)
    (hnodup : keys.Nodup) (hsourceOwn : OwnProcesses sourceReplicas) {k : Key} (hk : k ∈ keys)
    {destReplicas : List ShardClient} (hplan : plan k = .moveTo destReplicas)
    (hdestOwn : OwnProcesses destReplicas) (hprimary : ∃ r ∈ destReplicas, r.isPrimary = true)
    (hget : (fates k).get = .answered)
    (hinsert : ∀ r ∈ destReplicas, (fates k).insert r.address = .answered) {q : ShardClient}
    (hq : q ∈ sourceReplicas) (hdelete : (fates k).delete q.address ≠ .lost) (tally : Tally)
    (servers : Servers) (haccepts : ∀ r ∈ pool, (servers r.address).currentEpoch ≤ r.epoch)
    (hlive : (servers sourcePrimary.address).liveVector k ≠ none) :
    ((migrateKeys sourcePrimary sourceReplicas plan fates keys tally servers).2
      q.address).liveVector k = none := by
  induction keys generalizing tally servers with
  | nil => simp at hk
  | cons x ks ih =>
      rw [List.nodup_cons] at hnodup
      by_cases hxk : x = k
      · subst hxk
        rw [migrateKeys, hplan]
        dsimp only
        rw [liveVector_migrateKeys_of_not_moved (fun hmem => absurd hmem hnodup.1)]
        exact liveVector_migrateOneKey_source hown hsource (hdest x destReplicas hplan) hsourceOwn
          hdestOwn hget hinsert hprimary haccepts hlive hq hdelete
      · have hks : k ∈ ks := by
          rcases List.mem_cons.mp hk with heq | hmem
          · exact absurd heq.symm hxk
          · exact hmem
        rw [migrateKeys]
        split
        · exact ih hnodup.2 hks tally servers haccepts hlive
        · exact ih hnodup.2 hks _ servers haccepts hlive
        · next dest hdestx =>
            apply ih hnodup.2 hks
            · intro r hr
              rw [accepts_migrateOneKey_iff hown hsource (hdest x dest hdestx) hr]
              exact haccepts r hr
            · rw [liveVector_migrateOneKey_of_ne (Ne.symm hxk)]
              exact hlive

end Keys

/-! ## The keys of one shard -/

/-- The fates of the RPCs of one handler run, by source shard. -/
structure RpcPattern where
  list : Int → Delivery
  key : Int → Key → KeyFates

/-- List the keys at the primary of a shard and move them as planned.  A shard without a
primary and a listing that fails are passed over. -/
def migrateFrom (pool : List ShardClient) (plan : Key → Plan) (rpc : RpcPattern) (source : Int)
    (state : Tally × Servers) : Tally × Servers :=
  match findPrimary pool source with
  | none => state
  | some sourcePrimary =>
      if rpc.list source = .answered then
        migrateKeys sourcePrimary (replicasForShard pool source) plan (rpc.key source)
          (state.2 sourcePrimary.address).listLocalIds state.1 state.2
      else state

/-- The vector that a source shard brings to a destination replica: its listing, the
read and the insert all get through. -/
def movedVector (pool : List ShardClient) (rpc : RpcPattern) (servers : Servers) (source : Int)
    (q : ShardClient) (k : Key) : Option Floats :=
  match findPrimary pool source with
  | none => none
  | some sourcePrimary =>
      if rpc.list source = .answered then arriving sourcePrimary q k (rpc.key source k) servers
      else none

section From

variable {pool : List ShardClient} {plan : Key → Plan} {rpc : RpcPattern} {source : Int}

theorem OwnProcesses.replicasForShard (hown : OwnProcesses pool) (shardId : Int) :
    OwnProcesses (replicasForShard pool shardId) := by
  rw [OwnProcesses, ((replicasForShard_perm pool shardId).map _).nodup_iff]
  exact hown.sublist (List.filter_sublist.map _)

/-- Replicas of different shards are different processes. -/
theorem OwnProcesses.address_ne (hown : OwnProcesses pool) {r q : ShardClient} (hr : r ∈ pool)
    (hq : q ∈ pool) (hne : r.shardId ≠ q.shardId) : r.address ≠ q.address := by
  intro heq
  exact hne (congrArg _ (hown.eq_of_address hr hq heq))

/-- Where a plan sends keys. -/
def Plan.Within (pool : List ShardClient) (plan : Key → Plan) : Prop :=
  ∀ k destReplicas, plan k = .moveTo destReplicas →
    ∃ dest, destReplicas = replicasForShard pool dest

theorem Plan.Within.mem (hplan : Plan.Within pool plan) {k : Key}
    {destReplicas : List ShardClient} (h : plan k = .moveTo destReplicas) {r : ShardClient}
    (hr : r ∈ destReplicas) : r ∈ pool := by
  rcases hplan k destReplicas h with ⟨dest, rfl⟩
  exact (mem_replicasForShard.mp hr).1

/-- What the new home of a key holds after the keys of another shard were moved. -/
theorem liveVector_migrateFrom (hown : OwnProcesses pool) (hplan : Plan.Within pool plan)
    {q : ShardClient} (hq : q ∈ pool) (hne : q.shardId ≠ source) {k : Key}
    (hk : plan k = .moveTo (replicasForShard pool q.shardId)) (state : Tally × Servers) :
    ((migrateFrom pool plan rpc source state).2 q.address).liveVector k =
      (movedVector pool rpc state.2 source q k).or ((state.2 q.address).liveVector k) := by
  rw [migrateFrom, movedVector]
  cases hprimary : findPrimary pool source with
  | none => rfl
  | some p =>
      dsimp only
      split
      · by_cases hlisted : k ∈ (state.2 p.address).listLocalIds
        · apply liveVector_migrateKeys hown
          · exact fun r hr => (mem_replicasForShard.mp hr).1
          · exact fun k' dest hdest r hr => hplan.mem hdest hr
          · exact (state.2 p.address).idMap.nodup.filter _
          · exact hlisted
          · exact hk
          · exact hown.replicasForShard _
          · exact mem_replicasForShard.mpr ⟨hq, rfl⟩
          · intro r hr
            rcases mem_replicasForShard.mp hr with ⟨hrpool, hrid⟩
            exact hown.address_ne hrpool hq (hrid ▸ hne.symm)
        · rw [liveVector_migrateKeys_of_not_moved (fun hmem => absurd hmem hlisted)]
          have hnone : (state.2 p.address).liveVector k = none := by
            rw [ShardServer.mem_listLocalIds] at hlisted
            simpa using hlisted
          rw [arriving, hnone, ite_self, Option.none_or]
      · rw [Option.none_or]

/-- A key that the plan does not move stays as it is everywhere. -/
theorem liveVector_migrateFrom_of_not_moved {k : Key}
    (h : ∀ destReplicas, plan k ≠ .moveTo destReplicas) (state : Tally × Servers) (a : Address) :
    ((migrateFrom pool plan rpc source state).2 a).liveVector k = (state.2 a).liveVector k := by
  rw [migrateFrom]
  split
  · rfl
  · split
    · exact liveVector_migrateKeys_of_not_moved (fun _ => h) _ _ _
    · rfl

theorem liveVector_foldl_of_not_moved {k : Key}
    (h : ∀ destReplicas, plan k ≠ .moveTo destReplicas) (sources : List Int)
    (state : Tally × Servers) (a : Address) :
    ((sources.foldl (fun st source => migrateFrom pool plan rpc source st) state).2
      a).liveVector k = (state.2 a).liveVector k := by
  induction sources generalizing state with
  | nil => rfl
  | cons source sources ih =>
      rw [List.foldl_cons, ih, liveVector_migrateFrom_of_not_moved h]

/-- Moving the keys of a shard changes only that shard and the destinations. -/
theorem migrateFrom_of_not_mem (hown : OwnProcesses pool) (hplan : Plan.Within pool plan)
    {r : ShardClient} (hr : r ∈ pool) (hne : r.shardId ≠ source)
    (hdest : ∀ k destReplicas, plan k = .moveTo destReplicas →
      ∀ x ∈ destReplicas, x.shardId ≠ r.shardId)
    (state : Tally × Servers) :
    (migrateFrom pool plan rpc source state).2 r.address = state.2 r.address := by
  rw [migrateFrom]
  split
  · rfl
  · split
    · apply migrateKeys_of_not_mem
      · intro x hx
        rcases mem_replicasForShard.mp hx with ⟨hxpool, hxid⟩
        exact hown.address_ne hxpool hr (hxid ▸ hne.symm)
      · intro k destReplicas hk x hx
        exact hown.address_ne (hplan.mem hk hx) hr (hdest k destReplicas hk x hx)
    · rfl

theorem accepts_migrateFrom_iff (hown : OwnProcesses pool) (hplan : Plan.Within pool plan)
    {q : ShardClient} (hq : q ∈ pool) (state : Tally × Servers) :
    ((migrateFrom pool plan rpc source state).2 q.address).currentEpoch ≤ q.epoch ↔
      (state.2 q.address).currentEpoch ≤ q.epoch := by
  rw [migrateFrom]
  split
  · rfl
  · split
    · exact accepts_migrateKeys_iff hown (fun r hr => (mem_replicasForShard.mp hr).1)
        (fun k dest hdest r hr => hplan.mem hdest hr) hq _ _
    · rfl

/-- What a source brings depends on its own copy and on whether the epoch is
accepted. -/
theorem movedVector_congr {servers servers' : Servers} {q : ShardClient} {k : Key}
    (hlive : ∀ p, findPrimary pool source = some p → servers' p.address = servers p.address)
    (hepoch : (servers' q.address).currentEpoch ≤ q.epoch ↔
      (servers q.address).currentEpoch ≤ q.epoch) :
    movedVector pool rpc servers' source q k = movedVector pool rpc servers source q k := by
  rw [movedVector, movedVector]
  cases hprimary : findPrimary pool source with
  | none => rfl
  | some p =>
      dsimp only
      rw [arriving_congr (by rw [hlive p hprimary]) hepoch]

/-- What the home of a key holds after the keys of several other shards were moved
there, one shard after the other. -/
theorem liveVector_foldl_migrateFrom (hown : OwnProcesses pool) (hplan : Plan.Within pool plan)
    {q : ShardClient} (hq : q ∈ pool) {sources : List Int} (hnodup : sources.Nodup)
    (hne : q.shardId ∉ sources)
    (hdest : ∀ k destReplicas, plan k = .moveTo destReplicas →
      ∀ x ∈ destReplicas, x.shardId = q.shardId) {k : Key}
    (hk : plan k = .moveTo (replicasForShard pool q.shardId)) (state : Tally × Servers) :
    ((sources.foldl (fun st source => migrateFrom pool plan rpc source st) state).2
      q.address).liveVector k =
      sources.foldl (fun acc source => (movedVector pool rpc state.2 source q k).or acc)
        ((state.2 q.address).liveVector k) := by
  induction sources generalizing state with
  | nil => rfl
  | cons source sources ih =>
      rw [List.nodup_cons] at hnodup
      rw [List.mem_cons, not_or] at hne
      rw [List.foldl_cons, List.foldl_cons, ih hnodup.2 hne.2,
        liveVector_migrateFrom hown hplan hq hne.1 hk]
      apply List.foldl_ext
      intro acc source' hsource'
      congr 1
      apply movedVector_congr
      · intro p hp
        rcases findPrimary_mem hp with ⟨hppool, hpid, -⟩
        apply migrateFrom_of_not_mem hown hplan hppool
        · rintro heq
          exact hnodup.1 (heq ▸ hpid ▸ hsource')
        · intro k' destReplicas hk' x hx heq
          exact hne.2 ((hdest k' destReplicas hk' x hx).symm.trans heq ▸ hpid ▸ hsource')
      · exact accepts_migrateFrom_iff hown hplan hq _

/-- Moving the keys of a shard changes a key only there and where it is moved to. -/
theorem liveVector_migrateFrom_of_apart (hown : OwnProcesses pool) (hplan : Plan.Within pool plan)
    {r : ShardClient} (hr : r ∈ pool) (hne : r.shardId ≠ source) {k : Key}
    (hdest : ∀ destReplicas, plan k = .moveTo destReplicas → ∀ x ∈ destReplicas,
      x.shardId ≠ r.shardId) (state : Tally × Servers) :
    ((migrateFrom pool plan rpc source state).2 r.address).liveVector k =
      (state.2 r.address).liveVector k := by
  rw [migrateFrom]
  split
  · rfl
  · split
    · apply liveVector_migrateKeys_of_apart
      · intro x hx
        rcases mem_replicasForShard.mp hx with ⟨hxpool, hxid⟩
        exact hown.address_ne hxpool hr (hxid ▸ hne.symm)
      · intro destReplicas hk x hx
        exact hown.address_ne (hplan.mem hk hx) hr (hdest destReplicas hk x hx)
    · rfl

/-- A key that is not live at the source's primary is not listed, and stays as it is
everywhere. -/
theorem liveVector_migrateFrom_of_not_live {k : Key} {state : Tally × Servers}
    (h : ∀ p, findPrimary pool source = some p → (state.2 p.address).liveVector k = none)
    (a : Address) :
    ((migrateFrom pool plan rpc source state).2 a).liveVector k = (state.2 a).liveVector k := by
  rw [migrateFrom]
  split
  · rfl
  · next p hp =>
      split
      · apply liveVector_migrateKeys_of_not_moved
        intro hlisted
        rw [ShardServer.mem_listLocalIds, h p hp] at hlisted
        contradiction
      · rfl

theorem liveVector_foldl_of_not_live {k : Key} {sources : List Int} {state : Tally × Servers}
    (h : ∀ source ∈ sources, ∀ p, findPrimary pool source = some p →
      (state.2 p.address).liveVector k = none) (a : Address) :
    ((sources.foldl (fun st source => migrateFrom pool plan rpc source st) state).2
      a).liveVector k = (state.2 a).liveVector k := by
  induction sources generalizing state with
  | nil => rfl
  | cons source sources ih =>
      have hsame : ∀ a, ((migrateFrom pool plan rpc source state).2 a).liveVector k =
          (state.2 a).liveVector k :=
        liveVector_migrateFrom_of_not_live (h source List.mem_cons_self)
      rw [List.foldl_cons, ih, hsame]
      intro source' hsource' p hp
      rw [hsame]
      exact h source' (List.mem_cons_of_mem _ hsource') p hp

/-- Processes outside the pool do not change. -/
theorem migrateFrom_of_not_pool (hplan : Plan.Within pool plan) {a : Address}
    (h : ∀ r ∈ pool, r.address ≠ a) (state : Tally × Servers) :
    (migrateFrom pool plan rpc source state).2 a = state.2 a := by
  rw [migrateFrom]
  split
  · rfl
  · split
    · apply migrateKeys_of_not_mem
      · exact fun x hx => h x (mem_replicasForShard.mp hx).1
      · exact fun k destReplicas hk x hx => h x (hplan.mem hk hx)
    · rfl

theorem foldl_of_not_pool (hplan : Plan.Within pool plan) {a : Address}
    (h : ∀ r ∈ pool, r.address ≠ a) (sources : List Int) (state : Tally × Servers) :
    (sources.foldl (fun st source => migrateFrom pool plan rpc source st) state).2 a =
      state.2 a := by
  induction sources generalizing state with
  | nil => rfl
  | cons source sources ih => rw [List.foldl_cons, ih, migrateFrom_of_not_pool hplan h]

theorem accepts_foldl_iff (hown : OwnProcesses pool) (hplan : Plan.Within pool plan)
    {q : ShardClient} (hq : q ∈ pool) (sources : List Int) (state : Tally × Servers) :
    ((sources.foldl (fun st source => migrateFrom pool plan rpc source st) state).2
      q.address).currentEpoch ≤ q.epoch ↔ (state.2 q.address).currentEpoch ≤ q.epoch := by
  induction sources generalizing state with
  | nil => rfl
  | cons source sources ih => rw [List.foldl_cons, ih, accepts_migrateFrom_iff hown hplan hq]

end From

/-! ## Failing deletes -/

/-- All RPCs are answered except deletes at the sources, which have the given fates. -/
def deleteFates (fate : Int → Key → Address → Delivery) : RpcPattern where
  list _ := .answered
  key source k := ⟨.answered, fun _ => .answered, fate source k⟩

section Source

variable {pool : List ShardClient} {plan : Key → Plan} {fate : Int → Key → Address → Delivery}

/-- Every destination replica gets what the source's primary holds. -/
theorem movedVector_deleteFates (pool : List ShardClient) (fate : Int → Key → Address → Delivery)
    {servers : Servers} {q : ShardClient} (haccepts : (servers q.address).currentEpoch ≤ q.epoch)
    (source : Int) (k : Key) :
    movedVector pool (deleteFates fate) servers source q k =
      (findPrimary pool source).bind fun p => (servers p.address).liveVector k := by
  rw [movedVector]
  cases findPrimary pool source with
  | none => rfl
  | some p => simp [deleteFates, arriving, haccepts]

/-- A moved key is gone from a replica of its source that holds what the source's primary
holds and is reached by the delete. -/
theorem liveVector_migrateFrom_source (hown : OwnProcesses pool) (hplan : Plan.Within pool plan)
    {k : Key} {destReplicas : List ShardClient} (hk : plan k = .moveTo destReplicas)
    (hprimary : ∃ r ∈ destReplicas, r.isPrimary = true) {p q : ShardClient}
    (hp : findPrimary pool q.shardId = some p) (hq : q ∈ pool) (state : Tally × Servers)
    (haccepts : ∀ r ∈ pool, (state.2 r.address).currentEpoch ≤ r.epoch)
    (hagree : (state.2 q.address).liveVector k = (state.2 p.address).liveVector k)
    (hdelete : (state.2 p.address).liveVector k ≠ none → fate q.shardId k q.address ≠ .lost) :
    ((migrateFrom pool plan (deleteFates fate) q.shardId state).2 q.address).liveVector k =
      none := by
  have hlist : (deleteFates fate).list q.shardId = .answered := rfl
  rw [migrateFrom, hp]
  dsimp only
  rw [if_pos hlist]
  by_cases hlive : (state.2 p.address).liveVector k = none
  · rw [liveVector_migrateKeys_of_not_moved, hagree, hlive]
    intro hlisted
    rw [ShardServer.mem_listLocalIds, hlive] at hlisted
    contradiction
  · rcases hplan k destReplicas hk with ⟨dest, hdest⟩
    apply liveVector_migrateKeys_source hown
    · exact fun r hr => (mem_replicasForShard.mp hr).1
    · exact fun k' dest' hdest' r hr => hplan.mem hdest' hr
    · exact (state.2 p.address).idMap.nodup.filter _
    · exact hown.replicasForShard _
    · exact ShardServer.mem_listLocalIds.mpr (Option.isSome_iff_ne_none.mpr hlive)
    · exact hk
    · exact hdest ▸ hown.replicasForShard dest
    · exact hprimary
    · rfl
    · exact fun _ _ => rfl
    · exact mem_replicasForShard.mpr ⟨hq, rfl⟩
    · exact hdelete hlive
    · exact haccepts
    · exact hlive

/-- The same for a loop over source shards. -/
theorem liveVector_foldl_source (hown : OwnProcesses pool) (hplan : Plan.Within pool plan)
    {k : Key} {destReplicas : List ShardClient} (hk : plan k = .moveTo destReplicas)
    (hprimary : ∃ r ∈ destReplicas, r.isPrimary = true) {p q : ShardClient}
    (hp : findPrimary pool q.shardId = some p) (hq : q ∈ pool)
    (hdest : ∀ k destReplicas, plan k = .moveTo destReplicas → ∀ x ∈ destReplicas,
      x.shardId ≠ q.shardId) {sources : List Int} (hnodup : sources.Nodup)
    (hmem : q.shardId ∈ sources) (state : Tally × Servers)
    (haccepts : ∀ r ∈ pool, (state.2 r.address).currentEpoch ≤ r.epoch)
    (hagree : (state.2 q.address).liveVector k = (state.2 p.address).liveVector k)
    (hdelete : (state.2 p.address).liveVector k ≠ none → fate q.shardId k q.address ≠ .lost) :
    ((sources.foldl (fun st source => migrateFrom pool plan (deleteFates fate) source st)
      state).2 q.address).liveVector k = none := by
  have hother : ∀ {r : ShardClient}, r ∈ pool → r.shardId = q.shardId → ∀ {source : Int},
      q.shardId ≠ source → ∀ st : Tally × Servers,
      (migrateFrom pool plan (deleteFates fate) source st).2 r.address = st.2 r.address := by
    intro r hr hid source hne st
    apply migrateFrom_of_not_mem hown hplan hr (hid ▸ hne)
    intro k' destReplicas' hk' x hx
    rw [hid]
    exact hdest k' destReplicas' hk' x hx
  rcases findPrimary_mem hp with ⟨hppool, hpid, -⟩
  induction sources generalizing state with
  | nil => simp at hmem
  | cons source sources ih =>
      rw [List.nodup_cons] at hnodup
      rw [List.foldl_cons]
      by_cases hsource : q.shardId = source
      · -- The later sources leave the replica alone.
        have hrest : ∀ st : Tally × Servers,
            (sources.foldl (fun st source => migrateFrom pool plan (deleteFates fate) source st)
              st).2 q.address = st.2 q.address := by
          have hout : q.shardId ∉ sources := hsource ▸ hnodup.1
          clear ih hnodup hmem
          induction sources with
          | nil => exact fun st => rfl
          | cons source' sources ih' =>
              intro st
              rw [List.mem_cons, not_or] at hout
              rw [List.foldl_cons, ih' hout.2, hother hq rfl hout.1]
        rw [hrest, ← hsource]
        exact liveVector_migrateFrom_source hown hplan hk hprimary hp hq state haccepts hagree
          hdelete
      · have hmem' : q.shardId ∈ sources := by
          rcases List.mem_cons.mp hmem with heq | hmem'
          · exact absurd heq hsource
          · exact hmem'
        apply ih hnodup.2 hmem'
        · intro r hr
          rw [accepts_migrateFrom_iff hown hplan hr]
          exact haccepts r hr
        · rw [hother hq rfl hsource, hother hppool hpid hsource]
          exact hagree
        · rw [hother hppool hpid hsource]
          exact hdelete

end Source

end NanoDB.Coordinator
