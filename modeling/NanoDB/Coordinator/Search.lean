import NanoDB.Coordinator.Migration

/-!
# Scatter-gather search

The handler of {lit}`POST /search`: it picks one replica of each shard, asks them all, and
merges their answers by distance.  A key that occurs twice is kept once, at its smaller
distance.  Distances are of any type with a comparison.

Main results:

- Theorem {lit}`mem_selectReadTargets_strong`: a strong search asks primaries only.
- Theorem {lit}`liveVector_of_mem_results`: every result is about the live vector of its
  key on a replica that was asked.
- Theorem {lit}`search_covers_pool_iff`: every shard of the pool is represented in the
  answer iff the search is not strong or every shard has a primary.
-/

namespace NanoDB.Coordinator

open Cluster (Key)
open Shard (ShardServer Floats SearchResult SearchResponse Traversal sizeT)

/-! ## Choosing replicas -/

/-- The replica that is asked for one shard: for {lit}`"strong"` the last one that is marked as
primary, else the first one that is not, or the first of all. -/
def readTarget (pool : List ShardClient) (consistency : String) (shardId : Int) :
    Option ShardClient :=
  let replicas := pool.filter fun sc => decide (sc.shardId = shardId)
  if consistency = "strong" then (replicas.filter (·.isPrimary)).getLast?
  else (replicas.find? fun sc => !sc.isPrimary).or replicas.head?

/-- One replica of each shard, in the order of the shard ids. -/
def selectReadTargets (pool : List ShardClient) (consistency : String) : List ShardClient :=
  ((pool.map (·.shardId)).dedup.insertionSort (· ≤ ·)).filterMap (readTarget pool consistency)

theorem readTarget_mem {pool : List ShardClient} {consistency : String} {shardId : Int}
    {sc : ShardClient} (h : readTarget pool consistency shardId = some sc) :
    sc ∈ pool ∧ sc.shardId = shardId ∧ (consistency = "strong" → sc.isPrimary = true) := by
  have hreplica : ∀ x, x ∈ pool.filter (fun sc => decide (sc.shardId = shardId)) →
      x ∈ pool ∧ x.shardId = shardId := by
    intro x hx
    simpa using hx
  rw [readTarget] at h
  split at h
  · next hstrong =>
      have hmem := List.mem_filter.mp (List.mem_of_getLast? h)
      exact ⟨(hreplica sc hmem.1).1, (hreplica sc hmem.1).2, fun _ => hmem.2⟩
  · next hstrong =>
      have hmem : sc ∈ pool.filter (fun sc => decide (sc.shardId = shardId)) := by
        rcases Option.or_eq_some_iff.mp h with hfind | ⟨-, hhead⟩
        · exact List.mem_of_find?_eq_some hfind
        · exact List.mem_of_head? hhead
      exact ⟨(hreplica sc hmem).1, (hreplica sc hmem).2, fun hc => absurd hc hstrong⟩

/-- A strong search asks primaries only. -/
theorem mem_selectReadTargets_strong {pool : List ShardClient} {sc : ShardClient}
    (h : sc ∈ selectReadTargets pool "strong") : sc ∈ pool ∧ sc.isPrimary = true := by
  rcases List.mem_filterMap.mp h with ⟨shardId, -, hsc⟩
  rcases readTarget_mem hsc with ⟨hmem, -, hprimary⟩
  exact ⟨hmem, hprimary rfl⟩

/-! ## Merging answers -/

section Merge

variable {δ : Type*}

/-- Keep the first result of each key, until there are {lit}`k` of them. -/
def dedupe (k : Nat) (seen : List Key) (deduped : List (SearchResult δ)) :
    List (SearchResult δ) → List (SearchResult δ)
  | [] => deduped
  | r :: rest =>
      if r.externalId ∈ seen then dedupe k seen deduped rest
      else if k ≤ (deduped ++ [r]).length then deduped ++ [r]
      else dedupe k (r.externalId :: seen) (deduped ++ [r]) rest

theorem mem_of_mem_dedupe {k : Nat} {seen : List Key} {deduped merged : List (SearchResult δ)}
    {r : SearchResult δ} (h : r ∈ dedupe k seen deduped merged) : r ∈ deduped ∨ r ∈ merged := by
  induction merged generalizing seen deduped with
  | nil => exact .inl h
  | cons x rest ih =>
      have hkeep : r ∈ deduped ++ [x] ∨ r ∈ rest → r ∈ deduped ∨ r ∈ x :: rest := by
        rw [List.mem_append, List.mem_singleton, List.mem_cons]
        rintro ((hold | heq) | hrest)
        · exact .inl hold
        · exact .inr (.inl heq)
        · exact .inr (.inr hrest)
      rw [dedupe] at h
      split at h
      · exact (ih h).imp_right (List.mem_cons_of_mem _)
      · split at h
        · exact hkeep (.inl h)
        · exact hkeep (ih h)

/-- The answer to the client; it is degraded if a shard was not available. -/
structure SearchAnswer (δ : Type*) where
  results : List (SearchResult δ)
  consistency : String
  unavailable : List Int
deriving DecidableEq, Repr

/-- Merge the answers of the shards.  The order of results at one distance, which
{lit}`std::sort` leaves open, is that of the shards. -/
def mergeResponses (lt : δ → δ → Bool) (k : Int) (consistency : String)
    (responses : List (Int × SearchResponse δ)) : SearchAnswer δ where
  results := dedupe (sizeT k) [] []
    (((responses.filter (·.2.ok)).flatMap (·.2.results)).insertionSort
      fun a b => lt b.distance a.distance = false)
  consistency := consistency
  unavailable := (responses.filter fun r => !r.2.ok).map (·.1)

/-- Ask the chosen replicas; {lit}`reached` says whose answers arrive in time. -/
def search (dist : Floats → Floats → δ) (lt : δ → δ → Bool) (found : Traversal)
    (reached : Address → Bool) (pool : List ShardClient) (servers : Servers) (vec : Floats)
    (k : Int) (consistency : String) : SearchAnswer δ :=
  mergeResponses lt k consistency ((selectReadTargets pool consistency).map fun sc =>
    (sc.shardId, if reached sc.address then (servers sc.address).search dist found ⟨vec, k⟩
      else { ok := false }))

/-- Every result is about the live vector of its key on a replica that was asked. -/
theorem liveVector_of_mem_results {dist : Floats → Floats → δ} {lt : δ → δ → Bool}
    {found : Traversal} {reached : Address → Bool} {pool : List ShardClient} {servers : Servers}
    {vec : Floats} {k : Int} {consistency : String} {r : SearchResult δ}
    (h : r ∈ (search dist lt found reached pool servers vec k consistency).results) :
    ∃ sc ∈ selectReadTargets pool consistency, ∃ v,
      (servers sc.address).liveVector r.externalId = some v ∧ r.distance = dist vec v := by
  rcases mem_of_mem_dedupe h with hnone | hmerged
  · simp at hnone
  · rw [List.mem_insertionSort, List.mem_flatMap] at hmerged
    rcases hmerged with ⟨response, hresponse, hr⟩
    rcases List.mem_map.mp (List.mem_of_mem_filter hresponse) with ⟨sc, hsc, rfl⟩
    refine ⟨sc, hsc, ?_⟩
    dsimp only at hr
    split at hr
    · exact ShardServer.liveVector_of_mem_search dist found hr
    · simp at hr

/-! ## Every shard is represented -/

/-- A shard of the pool has a replica to ask, unless the search is strong and it has no
primary. -/
theorem readTarget_isSome_iff {pool : List ShardClient} (consistency : String) {shardId : Int}
    (hmem : shardId ∈ pool.map (·.shardId)) :
    (readTarget pool consistency shardId).isSome = true ↔
      (consistency = "strong" → ∃ p ∈ pool, p.shardId = shardId ∧ p.isPrimary = true) := by
  rw [readTarget]
  split
  · next hstrong =>
      simp [hstrong, and_comm]
  · next hstrong =>
      rcases List.mem_map.mp hmem with ⟨sc, hsc, hid⟩
      simp only [hstrong, false_implies, iff_true, Option.isSome_or, Bool.or_eq_true]
      right
      simpa using ⟨sc, hsc, hid⟩

/-- At most one replica of a shard is asked. -/
theorem selectReadTargets_filter {pool : List ShardClient} (consistency : String) {shardId : Int}
    (hmem : shardId ∈ pool.map (·.shardId)) :
    (selectReadTargets pool consistency).filter (fun sc => decide (sc.shardId = shardId)) =
      (readTarget pool consistency shardId).toList := by
  rw [selectReadTargets]
  have hsorted : shardId ∈ (pool.map (·.shardId)).dedup.insertionSort (· ≤ ·) := by
    rwa [List.mem_insertionSort, List.mem_dedup]
  have hnodup : ((pool.map (·.shardId)).dedup.insertionSort (· ≤ ·)).Nodup := by
    rw [(List.perm_insertionSort _ _).nodup_iff]
    exact List.nodup_dedup _
  generalize (pool.map (·.shardId)).dedup.insertionSort (· ≤ ·) = shardIds at hsorted hnodup
  have hid : ∀ i sc, readTarget pool consistency i = some sc → sc.shardId = i :=
    fun i sc h => (readTarget_mem h).2.1
  -- the shards before and behind it have other ids
  have hother : ∀ others : List Int, shardId ∉ others →
      (others.filterMap (readTarget pool consistency)).filter
        (fun sc => decide (sc.shardId = shardId)) = [] := by
    intro others hnot
    rw [List.filter_eq_nil_iff]
    intro sc hsc heq
    rcases List.mem_filterMap.mp hsc with ⟨i, hi, hsome⟩
    exact hnot ((of_decide_eq_true heq) ▸ hid i sc hsome ▸ hi)
  rcases List.append_of_mem hsorted with ⟨before, behind, rfl⟩
  rw [List.nodup_append] at hnodup
  have hbehind := (List.nodup_cons.mp hnodup.2.1).1
  have hbefore : shardId ∉ before :=
    fun hc => hnodup.2.2 shardId hc shardId List.mem_cons_self rfl
  rw [List.filterMap_append, List.filter_append, hother before hbefore, List.nil_append,
    List.filterMap_cons]
  cases htarget : readTarget pool consistency shardId with
  | none => exact hother behind hbehind
  | some sc =>
      have hself : decide (sc.shardId = shardId) = true := decide_eq_true (hid shardId sc htarget)
      simp only [List.filter_cons, hself, if_true, hother behind hbehind, Option.toList_some]

/-- The loop keeps what it has. -/
theorem mem_dedupe_of_mem {k : Nat} {seen : List Key} {deduped merged : List (SearchResult δ)}
    {r : SearchResult δ} (h : r ∈ deduped) : r ∈ dedupe k seen deduped merged := by
  induction merged generalizing seen deduped with
  | nil => exact h
  | cons x rest ih =>
      rw [dedupe]
      split
      · exact ih h
      · split
        · exact List.mem_append_left _ h
        · exact ih (List.mem_append_left _ h)

/-- Every merged key is in the answer, unless the answer is full. -/
theorem key_mem_dedupe {k : Nat} {seen : List Key} {deduped merged : List (SearchResult δ)}
    (hseen : ∀ key ∈ seen, key ∈ deduped.map (·.externalId)) {r : SearchResult δ}
    (hr : r ∈ merged) :
    r.externalId ∈ (dedupe k seen deduped merged).map (·.externalId) ∨
      k ≤ (dedupe k seen deduped merged).length := by
  induction merged generalizing seen deduped with
  | nil => cases hr
  | cons x rest ih =>
      rw [dedupe]
      split
      · next hx =>
          rcases List.mem_cons.mp hr with rfl | hr
          · rcases List.mem_map.mp (hseen _ hx) with ⟨r', hr', heq⟩
            exact .inl (List.mem_map.mpr ⟨r', mem_dedupe_of_mem hr', heq⟩)
          · exact ih hseen hr
      · split
        · next hfull => exact .inr hfull
        · have hseen' : ∀ key ∈ x.externalId :: seen,
              key ∈ (deduped ++ [x]).map (·.externalId) := by
            intro key hkey
            rw [List.map_append, List.mem_append]
            rcases List.mem_cons.mp hkey with rfl | hkey
            · exact .inr List.mem_cons_self
            · exact .inl (hseen key hkey)
          rcases List.mem_cons.mp hr with rfl | hr
          · exact .inl (List.mem_map.mpr
              ⟨r, mem_dedupe_of_mem (List.mem_append_right _ List.mem_cons_self), rfl⟩)
          · exact ih hseen' hr

/-- Whether {lit}`degraded` is set in the answer. -/
def SearchAnswer.degraded (answer : SearchAnswer δ) : Bool :=
  !answer.unavailable.isEmpty

section Represented

variable (dist : Floats → Floats → δ) (lt : δ → δ → Bool) (found : Traversal)
  (reached : Address → Bool) (pool : List ShardClient) (servers : Servers) (vec : Floats) (k : Int)
  (consistency : String)

/-- What comes back from a replica that is asked. -/
def askReplica (sc : ShardClient) : SearchResponse δ :=
  if reached sc.address then (servers sc.address).search dist found ⟨vec, k⟩ else { ok := false }

theorem search_eq : search dist lt found reached pool servers vec k consistency =
    mergeResponses lt k consistency ((selectReadTargets pool consistency).map fun sc =>
      (sc.shardId, askReplica dist found reached servers vec k sc)) :=
  rfl

/-- A shard is represented in the answer by the results of one of its replicas, the only
one that was asked and for a strong search a primary: each of their keys is in the answer
unless it is full.  Or the shard is reported as unavailable. -/
def Represented (shardId : Int) : Prop :=
  (∃ sc ∈ pool, sc.shardId = shardId ∧ (consistency = "strong" → sc.isPrimary = true) ∧
    (selectReadTargets pool consistency).filter (fun sc => decide (sc.shardId = shardId)) = [sc] ∧
    (askReplica dist found reached servers vec k sc).ok = true ∧
    ∀ r ∈ (askReplica dist found reached servers vec k sc).results,
      r.externalId ∈ (search dist lt found reached pool servers vec k consistency).results.map
          (·.externalId) ∨
        sizeT k ≤ (search dist lt found reached pool servers vec k consistency).results.length) ∨
  (shardId ∈ (search dist lt found reached pool servers vec k consistency).unavailable ∧
    (search dist lt found reached pool servers vec k consistency).degraded = true)

variable {dist lt found reached pool servers vec k consistency}

/-- A shard whose replica is asked is represented. -/
theorem represented_of_readTarget {shardId : Int} (hmem : shardId ∈ pool.map (·.shardId))
    {sc : ShardClient} (htarget : readTarget pool consistency shardId = some sc) :
    Represented dist lt found reached pool servers vec k consistency shardId := by
  have hfilter := selectReadTargets_filter consistency hmem
  rw [htarget, Option.toList_some] at hfilter
  have hasked : sc ∈ selectReadTargets pool consistency :=
    List.mem_of_mem_filter (hfilter ▸ List.mem_singleton_self sc)
  rcases readTarget_mem htarget with ⟨hpool, hid, hprimary⟩
  cases hok : (askReplica dist found reached servers vec k sc).ok with
  | true =>
      refine .inl ⟨sc, hpool, hid, hprimary, hfilter, hok, ?_⟩
      intro r hr
      rw [search_eq, mergeResponses]
      apply key_mem_dedupe (by simp)
      rw [List.mem_insertionSort, List.mem_flatMap]
      exact ⟨_, List.mem_filter.mpr ⟨List.mem_map.mpr ⟨sc, hasked, rfl⟩, hok⟩, hr⟩
  | false =>
      have hreported : shardId ∈
          (search dist lt found reached pool servers vec k consistency).unavailable := by
        rw [search_eq, mergeResponses, ← hid]
        refine List.mem_map.mpr ⟨_, List.mem_filter.mpr
          ⟨List.mem_map.mpr ⟨sc, hasked, rfl⟩, ?_⟩, rfl⟩
        simp [hok]
      refine .inr ⟨hreported, ?_⟩
      rw [SearchAnswer.degraded]
      cases hlist : (search dist lt found reached pool servers vec k consistency).unavailable with
      | nil => rw [hlist] at hreported; cases hreported
      | cons i rest => rfl

/-- A shard that nobody is asked for is not represented. -/
theorem readTarget_isSome_of_represented {shardId : Int} (hmem : shardId ∈ pool.map (·.shardId))
    (h : Represented dist lt found reached pool servers vec k consistency shardId) :
    (readTarget pool consistency shardId).isSome = true := by
  have hfilter := selectReadTargets_filter consistency hmem
  cases htarget : readTarget pool consistency shardId with
  | some sc => rfl
  | none =>
      rw [htarget, Option.toList_none, List.filter_eq_nil_iff] at hfilter
      exfalso
      rcases h with ⟨sc, -, -, -, hasked, -⟩ | ⟨hreported, -⟩
      · have hsc := List.mem_filter.mp (hasked ▸ List.mem_singleton_self sc)
        exact hfilter sc hsc.1 hsc.2
      · rw [search_eq, mergeResponses] at hreported
        rcases List.mem_map.mp hreported with ⟨response, hresponse, hid⟩
        rcases List.mem_map.mp (List.mem_of_mem_filter hresponse) with ⟨sc, hsc, rfl⟩
        exact hfilter sc hsc (decide_eq_true hid)

/-- For every pool, every consistency string and whatever the replicas answer: each shard
of the pool is represented in the answer iff the search is not strong or each shard of the
pool has a primary there. -/
theorem search_covers_pool_iff (dist : Floats → Floats → δ) (lt : δ → δ → Bool)
    (found : Traversal) (reached : Address → Bool) (pool : List ShardClient) (servers : Servers)
    (vec : Floats) (k : Int) (consistency : String) :
    (∀ shardId ∈ pool.map (·.shardId),
      Represented dist lt found reached pool servers vec k consistency shardId) ↔
    (consistency = "strong" →
      ∀ shardId ∈ pool.map (·.shardId), ∃ p ∈ pool, p.shardId = shardId ∧ p.isPrimary = true) := by
  constructor
  · intro hall hstrong shardId hmem
    exact (readTarget_isSome_iff consistency hmem).mp
      (readTarget_isSome_of_represented hmem (hall shardId hmem)) hstrong
  · intro hprimaries shardId hmem
    have hsome := (readTarget_isSome_iff consistency hmem).mpr
      fun hstrong => hprimaries hstrong shardId hmem
    rcases Option.isSome_iff_exists.mp hsome with ⟨sc, hsc⟩
    exact represented_of_readTarget hmem hsc

end Represented

end Merge

/-- One shard whose only active replica is not marked as primary. -/
def poolWithoutPrimary : List ShardClient :=
  [{ shardId := 0, replicaId := 1, host := [97], port := 1 }]

/-- A strong search over a shard without a primary: the answer is empty and reports no
shard. -/
theorem strong_search_skips_shard :
    ¬ ∀ (pool : List ShardClient) (consistency : String), ∀ shardId ∈ pool.map (·.shardId),
      Represented (fun _ _ => (0 : Nat)) (fun a b => decide (a < b)) (fun _ _ _ => [])
        (fun _ => true) pool (fun _ => {}) (List.replicate 128 0) 1 consistency shardId := by
  intro hall
  have hsome := readTarget_isSome_of_represented (by decide)
    (hall poolWithoutPrimary "strong" 0 (by decide))
  exact absurd hsome (by decide)

end NanoDB.Coordinator
