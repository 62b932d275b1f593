import NanoDB.Index.Count

/-!
# What a search answers after any history

Two statements about the index after any sequence of inserts and deletions.

A search on one layer with room for all live ids answers with the live nodes that it can reach
by links to ids with a bit in {lit}`visited`, going through deleted nodes as well.  The length
of {lit}`visited` follows from the counter and the start node, not from the ids, so a node with
a large id is passed over, with all that is behind it.

{lit}`search` drains the heap of layer 0, turns it around and cuts it: live ids, each once,
with the distance of the vector last inserted, nearest first.  It throws if the counter has
gone so far below zero that the bitmap cannot be allocated.

Main results:

- Theorem {lit}`mem_searchLayer_iff`: the answer of a wide search.
- Theorem {lit}`wide_search_exhaustive_iff`: when it is every live node that links lead to.
- Theorem {lit}`search_answers_iff`: {lit}`search` answers with the nearest candidates unless it
  throws.
-/

namespace NanoDB.Index

open NanoDB.Lib
open Relation (ReflTransGen)

variable {V δ : Type*} [Zero V]

namespace HNSW

section Calls

variable [Preorder δ] [DecidableLT δ] [PriorityQueue (Result δ)] (m : Metric V δ)

/-- A call of {lit}`search_layer`, {lean}`none` if it throws. -/
def searchLayerChecked (h : HNSW V) (entryPoint : Nat) (query : V) (ef layer : Nat) :
    Option (List (Result δ)) :=
  (searchBeamChecked m h entryPoint query ef layer).map (·.found)

/-- What {lit}`search_layer` returned to {lit}`search`. -/
def candidates (h : HNSW V) (query : V) (k : Int) : List (Result δ) :=
  match h.entryPointId with
  | none => []
  | some entryPoint =>
      h.searchLayer m (h.descendFrom m query 0 entryPoint) query (efSearch k) 0

end Calls

end HNSW

namespace Session

open HNSW

namespace WellFormed

variable [Preorder δ] [DecidableLT δ] [PriorityQueue (Result δ)] {s : Session V} {m : Metric V δ}

/-- Links lead from inserted ids to inserted ids. -/
theorem inserted_of_reachable (hs : s.WellFormed) {layer size x y : Nat} (hx : s.Inserted x)
    (hxy : ReflTransGen (s.index.link layer size) x y) : s.Inserted y :=
  Lib.mem_of_reachable (fun a _ b hb => hs.links a layer b hb.1) hx hxy

omit [PriorityQueue (Result δ)] in
theorem inserted_descendFrom (hs : s.WellFormed) {e : Nat} (he : s.index.entryPointId = some e)
    (query : V) (bottom : Nat) : s.Inserted (s.index.descendFrom m query bottom e) :=
  descendFrom_mem (fun l _ _ x _ y hy => hs.links x l y hy) (hs.entry e he).1

/-- The results of a search on one layer are live. -/
theorem searchLayer_live (hs : s.WellFormed) {entryPoint : Nat} (hentry : s.Inserted entryPoint)
    {query : V} {ef layer : Nat} {r : Result δ}
    (hr : r ∈ s.index.searchLayer m entryPoint query ef layer) : r.id ∈ s.live := by
  rcases searchLayer_sound m s.index query ef layer entryPoint hr with ⟨hreach, hlive, -⟩
  exact (hs.live r.id).mpr ⟨hs.inserted_of_reachable hentry hreach, hlive⟩

/-- A search with room for all live ids. -/
theorem mem_searchLayer_iff (hs : s.WellFormed) {entryPoint : Nat} (hentry : s.Inserted entryPoint)
    (query : V) {ef : Nat} (hef : s.live.card ≤ ef) (layer n : Nat) :
    n ∈ ids (s.index.searchLayer m entryPoint query ef layer) ↔
      n ∈ s.live ∧
        ReflTransGen (s.index.link layer (s.index.visitedSize entryPoint)) entryPoint n := by
  constructor
  · intro hn
    rcases List.mem_map.mp hn with ⟨r, hr, rfl⟩
    exact ⟨hs.searchLayer_live hentry hr,
      (searchLayer_sound m s.index query ef layer entryPoint hr).1⟩
  · rintro ⟨hn, hreach⟩
    rcases searchLayer_complete m s.index query ef layer entryPoint with hfull | hall
    · -- as many results as live ids: these are all of them
      have hnodup := searchLayer_nodup m s.index query ef layer entryPoint
      have hsub : (ids (s.index.searchLayer m entryPoint query ef layer)).toFinset ⊆ s.live := by
        intro i hi
        rcases List.mem_map.mp (List.mem_toFinset.mp hi) with ⟨r, hr, rfl⟩
        exact hs.searchLayer_live hentry hr
      have hcard : s.live.card ≤
          (ids (s.index.searchLayer m entryPoint query ef layer)).toFinset.card := by
        rw [List.toFinset_card_of_nodup hnodup, ids, List.length_map]
        exact hef.trans hfull
      rw [← List.mem_toFinset, Finset.eq_of_subset_of_card_le hsub hcard]
      exact hn
    · exact hall n hreach ((hs.live n).mp hn).2

theorem visitedSize_le_iff (hs : s.WellFormed) {x : Nat} (hx : s.Inserted x) :
    s.index.visitedSize x ≤ maxBits ↔ s.index.BitmapFits := by
  apply visitedSize_le_maxBits_iff
  have hlt := (hs.stored x hx).1
  unfold noId at hlt
  omega

end WellFormed

/-! ## Wide searches -/

section Wide

variable [Preorder δ] [DecidableLT δ] [PriorityQueue (Result δ)] (m : Metric V δ)

/-- For every history, layer, inserted start node, query and {lit}`ef` with room for all live
ids: {lit}`search_layer` returns exactly the live nodes that the links of the layer lead to,
each once, if and only if the bitmap can be allocated and every such node can be reached by
links to ids below its length. -/
theorem wide_search_exhaustive_iff {storageSize : Nat} {calls : List (Call V)} {s : Session V}
    (hrun : Exec (step m) (fun _ _ => True) (create storageSize) calls s) (layer entryPoint : Nat)
    (query : V) (ef : Nat) (hentry : s.Inserted entryPoint) (hef : s.live.card ≤ ef) :
    (∃ found, searchLayerChecked m s.index entryPoint query ef layer = some found ∧
      (ids found).Nodup ∧
      ∀ n, n ∈ ids found ↔ n ∈ s.live ∧
        ReflTransGen (fun x y => y ∈ s.index.neighbors x layer) entryPoint n) ↔
    s.index.BitmapFits ∧
      ∀ n ∈ s.live, ReflTransGen (fun x y => y ∈ s.index.neighbors x layer) entryPoint n →
        ReflTransGen (fun x y => y ∈ s.index.neighbors x layer ∧ y < s.index.visitedSize entryPoint)
          entryPoint n := by
  have hs := wellFormed_run hrun
  have hfits := hs.visitedSize_le_iff hentry
  have hmem := hs.mem_searchLayer_iff (m := m) hentry query hef layer
  constructor
  · rintro ⟨found, hfound, -, hall⟩
    rw [searchLayerChecked, searchBeamChecked] at hfound
    split at hfound
    · next hle =>
        refine ⟨hfits.mp hle, ?_⟩
        intro n hn hreach
        have hin := (hall n).mpr ⟨hn, hreach⟩
        rw [← Option.some.inj hfound] at hin
        exact ((hmem n).mp hin).2
    · cases hfound
  · rintro ⟨hle, hbits⟩
    refine ⟨s.index.searchLayer m entryPoint query ef layer, ?_,
      searchLayer_nodup m s.index query ef layer entryPoint, ?_⟩
    · rw [searchLayerChecked, searchBeamChecked, if_pos (hfits.mpr hle)]
      rfl
    · intro n
      rw [hmem n]
      constructor
      · rintro ⟨hn, hreach⟩
        exact ⟨hn, ReflTransGen.mono (fun x y hxy => hxy.1) _ _ hreach⟩
      · rintro ⟨hn, hreach⟩
        exact ⟨hn, hbits n hn hreach⟩

end Wide

/-- Three ids with one of them deleted, searched from the deleted one. -/
theorem wide_search_exhaustive_iff_oneDeleted :
    ∃ s : Session Int, Exec (step lineMetric) (fun _ _ => True) (create (100 * 1024 * 1024))
        [.insert 0 5 0 [], .insert 0 7 1 [], .insert 0 9 2 [], .delete 0] s ∧
      ((∃ found, searchLayerChecked lineMetric s.index 0 6 3 0 = some found ∧
        (ids found).Nodup ∧
        ∀ n, n ∈ ids found ↔ n ∈ s.live ∧
          ReflTransGen (fun x y => y ∈ s.index.neighbors x 0) 0 n) ↔
      s.index.BitmapFits ∧
        ∀ n ∈ s.live, ReflTransGen (fun x y => y ∈ s.index.neighbors x 0) 0 n →
          ReflTransGen (fun x y => y ∈ s.index.neighbors x 0 ∧ y < s.index.visitedSize 0) 0 n) := by
  have hrun := Exec.of_guardedRun (step lineMetric) (fun _ _ => True)
    (create (100 * 1024 * 1024))
    [.insert 0 5 0 [], .insert 0 7 1 [], .insert 0 9 2 [], .delete 0] (by decide +kernel)
  exact ⟨_, hrun, wide_search_exhaustive_iff lineMetric hrun 0 0 6 3 (by decide +kernel)
    (by decide +kernel)⟩

/-- The ids 0 and 2002 are inserted and linked: {lit}`visited` has 2002 bits, and the search from
0 does not return the live node 2002. -/
theorem wide_search_misses_neighbor :
    ∃ s : Session Int, Exec (step lineMetric) (fun _ _ => True) (create (100 * 1024 * 1024))
        [.insert 0 5 0 [], .insert 0 7 2002 []] s ∧
      s.Inserted 0 ∧ s.live.card ≤ 2 ∧ 2002 ∈ s.live ∧ 2002 ∈ s.index.neighbors 0 0 ∧
      (searchLayerChecked lineMetric s.index 0 5 2 0).map ids = some [0] := by
  have hrun := Exec.of_guardedRun (step lineMetric) (fun _ _ => True)
    (create (100 * 1024 * 1024)) [.insert 0 5 0 [], .insert 0 7 2002 []] (by decide +kernel)
  exact ⟨_, hrun, by decide +kernel, by decide +kernel, by decide +kernel, by decide +kernel,
    by decide +kernel⟩

/-! ## Whole searches -/

section Whole

variable [LinearOrder δ] [PriorityQueue (Result δ)] (m : Metric V δ)

/-- What a caller expects of {lit}`search`: at most {lit}`k` live ids, each once and with the
distance of the vector last inserted under it, nearest first, and of the candidates none of the
others is nearer. -/
structure Answers (s : Session V) (query : V) (k : Nat) (candidates results : List (Result δ)) :
    Prop where
  length_le : results.length ≤ k
  nodup : (ids results).Nodup
  live : ∀ r ∈ results, r.id ∈ s.live
  distance : ∀ r ∈ results, ∃ v, s.vectors r.id = some v ∧ r.distance = m.dist query v
  sorted : results.Pairwise fun a b => a.distance ≤ b.distance
  nearest : Nearest Prod.snd k (candidates.map fun r => (r.id, r.distance))
    (results.map fun r => (r.id, r.distance))

variable {s : Session V}

omit [Zero V] [PriorityQueue (Result δ)] in
theorem answers_nil (query : V) (k : Nat) : s.Answers m query k [] [] where
  length_le := Nat.zero_le k
  nodup := List.nodup_nil
  live r hr := by cases hr
  distance r hr := by cases hr
  sorted := List.Pairwise.nil
  nearest := ⟨[], List.Perm.refl _, by simp, fun a ha => absurd ha List.not_mem_nil⟩

variable {m} {query : V} {k : Nat} {candidates : List (Result δ)}

omit [Zero V] in
/-- Candidates that are drained, turned around and cut. -/
theorem answers_of_drain (metadata : Nat → Storage.Bytes) (hnodup : (ids candidates).Nodup)
    (hlive : ∀ r ∈ candidates, r.id ∈ s.live)
    (hdist : ∀ r ∈ candidates, ∃ v, s.vectors r.id = some v ∧ r.distance = m.dist query v) :
    s.Answers m query k candidates
      (((drain farther candidates.length candidates).reverse.map
        fun r => { r with metadata := metadata r.id }).take k) := by
  have hperm : (drain farther candidates.length candidates).reverse.Perm candidates :=
    (List.reverse_perm _).trans (drain_perm le_rfl)
  have hsorted : (drain farther candidates.length candidates).reverse.Pairwise
      fun a b => a.distance ≤ b.distance := by
    rw [List.pairwise_reverse]
    exact farther_orders.drain_pairwise _ _
  generalize (drain farther candidates.length candidates).reverse = sorted at hperm hsorted
  have hmem : ∀ r ∈ (sorted.map fun r => { r with metadata := metadata r.id }).take k,
      ∃ c ∈ candidates, r.id = c.id ∧ r.distance = c.distance := by
    intro r hr
    rcases List.mem_map.mp (List.mem_of_mem_take hr) with ⟨c, hc, rfl⟩
    exact ⟨c, hperm.mem_iff.mp hc, rfl, rfl⟩
  refine ⟨List.length_take_le _ _, ?_, ?_, ?_, ?_, ?_⟩
  · have hids : ids (sorted.map fun r => { r with metadata := metadata r.id }) = ids sorted := by
      rw [ids, List.map_map]
      rfl
    have hall : (ids (sorted.map fun r => { r with metadata := metadata r.id })).Nodup := by
      rw [hids]
      exact (hperm.map Result.id).nodup_iff.mpr hnodup
    exact hall.sublist ((List.take_sublist _ _).map _)
  · intro r hr
    rcases hmem r hr with ⟨c, hc, hid, -⟩
    rw [hid]
    exact hlive c hc
  · intro r hr
    rcases hmem r hr with ⟨c, hc, hid, hd⟩
    rw [hid, hd]
    exact hdist c hc
  · refine List.Pairwise.sublist (List.take_sublist _ _) ?_
    rw [List.pairwise_map]
    exact hsorted
  · rw [List.map_take, List.map_map]
    refine Nearest.take_of_sorted (hperm.map _) ?_ k
    rw [List.pairwise_map]
    exact hsorted

/-- {lit}`search` answers with the nearest candidates. -/
theorem WellFormed.search_answers (hs : s.WellFormed) (m : Metric V δ) (query : V) {k : Int}
    (hk : 0 ≤ k) (hint : k < 2 ^ 31) :
    s.Answers m query k.toNat (s.index.candidates m query k) (s.index.search m query k) := by
  cases he : s.index.entryPointId with
  | none =>
      rw [HNSW.candidates, he, search, he]
      exact answers_nil m query k.toNat
  | some e =>
      have hstart := hs.inserted_descendFrom (m := m) he query 0
      have hcut : (k % 2 ^ 64).toNat = k.toNat := by omega
      rw [HNSW.candidates, he, search_eq k he, hcut]
      apply answers_of_drain
      · exact searchLayer_nodup m s.index query (efSearch k) 0 _
      · exact fun r hr => hs.searchLayer_live hstart hr
      · intro r hr
        have hinserted := ((hs.live r.id).mp (hs.searchLayer_live hstart hr)).1
        rcases Option.isSome_iff_exists.mp hinserted with ⟨v, hv⟩
        refine ⟨v, hv, ?_⟩
        rw [(searchLayer_sound m s.index query (efSearch k) 0 _ hr).2.2, hs.vector r.id v hv]

/-- For every history, query and {lit}`k` from 0 on, with distances from a total order:
{lit}`search` returns at most {lit}`k` live ids, each once and with the distance of the vector
last inserted, nearest first, the {lit}`k` nearest of what {lit}`search_layer` returned; if and
only if there is no entry point or the bitmap can be allocated. -/
theorem search_answers_iff (m : Metric V δ) {storageSize : Nat} {calls : List (Call V)}
    {s : Session V} (hrun : Exec (step m) (fun _ _ => True) (create storageSize) calls s)
    (query : V) (k : Int) (hk : 0 ≤ k) (hint : k < 2 ^ 31) :
    (∃ results, searchChecked m s.index query k = some results ∧
      s.Answers m query k.toNat (s.index.candidates m query k) results) ↔
    s.index.entryPointId = none ∨ s.index.BitmapFits := by
  have hs := wellFormed_run hrun
  have hanswers := hs.search_answers m query hk hint
  cases he : s.index.entryPointId with
  | none =>
      refine iff_of_true ⟨_, ?_, hanswers⟩ (.inl rfl)
      rw [searchChecked, he]
  | some e =>
      have hfits := hs.visitedSize_le_iff (hs.inserted_descendFrom (m := m) he query 0)
      constructor
      · rintro ⟨results, hresults, -⟩
        rw [searchChecked, he] at hresults
        dsimp only at hresults
        split at hresults
        · next hle => exact .inr (hfits.mp hle)
        · cases hresults
      · intro hcases
        have hle := hcases.resolve_left (Option.some_ne_none e)
        refine ⟨_, ?_, hanswers⟩
        rw [searchChecked, he]
        exact if_pos (hfits.mpr hle)

end Whole

/-- An id that is inserted twice, and another one. -/
theorem search_answers_iff_reinserted :
    ∃ s : Session Int, Exec (step lineMetric) (fun _ _ => True) (create (100 * 1024 * 1024))
        [.insert 0 5 0 [], .insert 0 7 1 [], .insert 0 9 0 []] s ∧
      ∃ results, searchChecked lineMetric s.index 8 1 = some results ∧
        s.Answers lineMetric 8 1 (s.index.candidates lineMetric 8 1) results := by
  have hrun := Exec.of_guardedRun (step lineMetric) (fun _ _ => True)
    (create (100 * 1024 * 1024)) [.insert 0 5 0 [], .insert 0 7 1 [], .insert 0 9 0 []]
    (by decide +kernel)
  exact ⟨_, hrun, (search_answers_iff lineMetric hrun 8 1 (by decide) (by decide)).mpr
    (.inr (by decide +kernel))⟩

/-- One id is inserted and 3000 ids are deleted that were never inserted: the bitmap would have
2^64 - 999 bits, and every search throws. -/
theorem search_throws :
    ∃ s : Session Int, Exec (step lineMetric) (fun _ _ => True) (create (100 * 1024 * 1024))
        (.insert 0 7 0 [] :: (List.range' 1 3000).map Call.delete) s ∧
      s.index.entryPointId = some 0 ∧
      ∀ query k, searchChecked lineMetric s.index query k = none := by
  generalize hfirst : (create (100 * 1024 * 1024) : Session Int).insert lineMetric 0 7 0 [] = first
  have hstep : (create (100 * 1024 * 1024) : Session Int).step lineMetric (.insert 0 7 0 []) =
      some first := by
    rw [← hfirst]
    rfl
  have hstorage : first.index.storageSize = 100 * 1024 * 1024 := by
    rw [← hfirst, index_insert, storageSize_insertCall]
    rfl
  have hcount : first.index.elementCount = 1 := by
    rw [← hfirst]
    rfl
  have hentry : first.index.entryPointId = some 0 := by
    rw [← hfirst]
    rfl
  have hin : ∀ id ∈ List.range' 1 3000, first.index.inStorage id = true := by
    intro id hid
    have hlt := (List.mem_range'_1.mp hid).2
    rw [inStorage, hstorage, decide_eq_true_eq, headerSize, nodeSize]
    exact le_trans (by omega : 64 + id * 1056 + 1056 ≤ 4000000) (by decide)
  have hlive : ∀ id ∈ List.range' 1 3000, (first.index.getNode id).isDeleted = false := by
    intro id _
    rw [← hfirst, index_insert, (getNode_insertCall lineMetric _ 0 7 0 [] id).2]
    split <;> rfl
  rcases elementCount_deleteAll (m := lineMetric) (List.range' 1 3000)
    (by rw [hcount]; decide) List.nodup_range' hin hlive with ⟨s, hdeletes, hwrapped, hsame⟩
  have hrun : Exec (step lineMetric) (fun _ _ => True) (create (100 * 1024 * 1024))
      (.insert 0 7 0 [] :: (List.range' 1 3000).map Call.delete) s := .cons trivial hstep hdeletes
  refine ⟨s, hrun, hsame.trans hentry, ?_⟩
  intro query k
  have hs := wellFormed_run hrun
  rw [hcount, List.length_range'] at hwrapped
  have hlong : ¬ s.index.BitmapFits := by
    rw [BitmapFits, visitedSize, hwrapped]
    decide
  rw [searchChecked, hsame, hentry]
  refine if_neg fun hle => hlong ?_
  exact (hs.visitedSize_le_iff (hs.inserted_descendFrom (hsame.trans hentry) query 0)).mp hle

end Session

end NanoDB.Index
