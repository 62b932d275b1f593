import NanoDB.Coordinator.Search
import NanoDB.Lib.TopK

/-!
# Scatter-gather search is a global search

Every shard cuts its answer to {lit}`k` entries before the coordinator removes the keys
that several shards have.  An entry that is cut off has {lit}`k` entries of other keys
before it, so it is in no global result either, except for one at the same distance.

{lit}`std::sort` may leave entries at one distance in any order.  The result is about every
order of the merged entries that it can produce.

Main results:

- Theorem {lit}`dedupe_eq_take`: the dedupe loop keeps the first entry of each key and stops
  at {lit}`k`.
- Theorem {lit}`search_is_top_k`: the merged answer has the {lit}`k` smallest distances of
  the keys.
-/

namespace NanoDB.Coordinator

open Lib
open Cluster (Key)
open Shard (SearchResult SearchResponse sizeT)

variable {δ : Type*}

/-! ## The dedupe loop -/

/-- The loop stops when {lit}`k` entries are kept; it keeps the first of each key. -/
theorem dedupe_eq_take {k : Nat} (seen : List Key) (deduped merged : List (SearchResult δ))
    (hlt : deduped.length < k) :
    dedupe k seen deduped merged =
      (deduped ++ firsts SearchResult.externalId seen merged).take k := by
  induction merged generalizing seen deduped with
  | nil =>
      rw [dedupe, firsts, List.append_nil, List.take_of_length_le hlt.le]
  | cons r rest ih =>
      rw [dedupe, firsts]
      split
      · exact ih seen deduped hlt
      · have hlength : (deduped ++ [r]).length = deduped.length + 1 := List.length_append
        have hsplit : deduped ++ r :: firsts SearchResult.externalId (r.externalId :: seen) rest =
            (deduped ++ [r]) ++ firsts SearchResult.externalId (r.externalId :: seen) rest := by
          rw [List.append_assoc, List.singleton_append]
        rw [hsplit]
        split
        · rw [List.take_left' (by omega)]
        · exact ih _ _ (by omega)

/-! ## Shards that answer with their nearest entries -/

/-- A shard, everything it holds for a query, and its answer: the {lit}`k` nearest of its
entries, which have different keys. -/
structure AnsweringShard (δ : Type*) [LinearOrder δ] (k : Nat) where
  shardId : Int
  entries : List (SearchResult δ)
  answer : List (SearchResult δ)
  distinct : (entries.map SearchResult.externalId).Nodup
  nearest : Nearest SearchResult.distance k entries answer

section Merge

variable [LinearOrder δ]

/-- What arrives from a shard. -/
def AnsweringShard.response {k : Nat} (shard : AnsweringShard δ k) : Int × SearchResponse δ :=
  (shard.shardId, { ok := true, results := shard.answer })

/-- The entries of all answers. -/
theorem flatMap_responses {k : Nat} (shards : List (AnsweringShard δ k)) :
    ((shards.map AnsweringShard.response).filter (·.2.ok)).flatMap (·.2.results) =
      shards.flatMap AnsweringShard.answer := by
  induction shards with
  | nil => rfl
  | cons shard shards ih =>
      rw [List.map_cons, List.filter_cons_of_pos (by rfl), List.flatMap_cons, ih,
        List.flatMap_cons]
      rfl

/-- For every set of shards that answer with their {lit}`k` nearest entries: whatever order
the sort gives to the merged entries, and for the order that {lit}`mergeResponses` gives
them, the results have different keys, the nearest first, and their distances are the
{lit}`k` smallest of the distances of the keys over all that the shards hold. -/
theorem search_is_top_k (k : Int) (hk : 1 ≤ k) (hint : k < 2 ^ 31) (consistency : String)
    (shards : List (AnsweringShard δ k.toNat)) :
    (∀ merged : List (SearchResult δ), merged.Perm (shards.flatMap AnsweringShard.answer) →
      (merged.Pairwise fun a b => a.distance ≤ b.distance) →
      TopK SearchResult.externalId SearchResult.distance k.toNat
        (shards.flatMap AnsweringShard.entries) (dedupe (sizeT k) [] [] merged)) ∧
    TopK SearchResult.externalId SearchResult.distance k.toNat
      (shards.flatMap AnsweringShard.entries)
      (mergeResponses (fun a b => decide (a < b)) k consistency
        (shards.map AnsweringShard.response)).results := by
  have hsize : sizeT k = k.toNat := by
    unfold sizeT
    omega
  have hall : ∀ merged : List (SearchResult δ),
      merged.Perm (shards.flatMap AnsweringShard.answer) →
      (merged.Pairwise fun a b => a.distance ≤ b.distance) →
      TopK SearchResult.externalId SearchResult.distance k.toNat
        (shards.flatMap AnsweringShard.entries) (dedupe (sizeT k) [] [] merged) := by
    intro merged hperm hsorted
    rw [hsize, dedupe_eq_take [] [] merged (by rw [List.length_nil]; omega), List.nil_append]
    exact topK_merge (fun shard _ => shard.distinct) (fun shard _ => shard.nearest) hperm hsorted
  refine ⟨hall, ?_⟩
  have hle : (fun a b : SearchResult δ => decide (b.distance < a.distance) = false) =
      fun a b => a.distance ≤ b.distance := by
    funext a b
    rw [decide_eq_false_iff_not, not_lt]
  have hsorted : ((shards.flatMap AnsweringShard.answer).insertionSort
      fun a b => decide (b.distance < a.distance) = false).Pairwise
        fun a b => a.distance ≤ b.distance := by
    have : Std.Total fun a b : SearchResult δ => decide (b.distance < a.distance) = false := by
      rw [hle]
      exact ⟨fun a b => le_total a.distance b.distance⟩
    have : IsTrans (SearchResult δ) fun a b => decide (b.distance < a.distance) = false := by
      rw [hle]
      exact ⟨fun a b c => le_trans⟩
    have hpairwise := List.pairwise_insertionSort
      (fun a b : SearchResult δ => decide (b.distance < a.distance) = false)
      (shards.flatMap AnsweringShard.answer)
    exact hpairwise.imp fun h => not_lt.mp (of_decide_eq_false h)
  rw [mergeResponses, flatMap_responses]
  exact hall _ (List.perm_insertionSort _ _) hsorted

end Merge

/-- The first of two shards; its answer leaves one entry out. -/
def firstAnswer : AnsweringShard Int 2 where
  shardId := 0
  entries := [⟨[99], 5, []⟩, ⟨[97], 1, []⟩, ⟨[98], 4, []⟩]
  answer := [⟨[97], 1, []⟩, ⟨[98], 4, []⟩]
  distinct := by decide
  nearest := ⟨[⟨[99], 5, []⟩], by decide, rfl, by decide⟩

/-- The second shard has a nearer entry of a key of the first. -/
def secondAnswer : AnsweringShard Int 2 where
  shardId := 1
  entries := [⟨[98], 2, []⟩, ⟨[100], 3, []⟩]
  answer := [⟨[98], 2, []⟩, ⟨[100], 3, []⟩]
  distinct := by decide
  nearest := ⟨[], by decide, rfl, by decide⟩

theorem search_is_top_k_twoShards :
    TopK SearchResult.externalId SearchResult.distance 2
        ([firstAnswer, secondAnswer].flatMap AnsweringShard.entries)
        (mergeResponses (fun a b : Int => decide (a < b)) 2 "eventual"
          ([firstAnswer, secondAnswer].map AnsweringShard.response)).results ∧
      (mergeResponses (fun a b : Int => decide (a < b)) 2 "eventual"
        ([firstAnswer, secondAnswer].map AnsweringShard.response)).results =
          [⟨[97], 1, []⟩, ⟨[98], 2, []⟩] :=
  ⟨(search_is_top_k 2 (by decide) (by decide) "eventual" [firstAnswer, secondAnswer]).2,
    by decide⟩

end NanoDB.Coordinator
