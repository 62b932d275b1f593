import NanoDB.Index.Connectivity
import NanoDB.Lib.TopK

/-!
# The best of what a beam search has seen

Distances are from a total order here.  {lit}`search_layer` marks every node that it looks
at.  Of the live ones among these it keeps the nearest: a node is passed over only while
there are {lit}`ef` results that are not farther, and a result is dropped only for one that
is not farther.  A deleted node is expanded like any other and kept by neither heap of
results.

The search stops when the nearest candidate is farther than the worst of {lit}`ef` results.
The start node has a bit in {lit}`visited` unless the length of it has wrapped around, which a
counter below zero makes it do; such a node is a result that was not marked.

Main results:

- Theorem {lit}`nearest_keepBest`: pushing into the bounded heap keeps the nearest.
- Theorem {lit}`Beam.Best.searchLoop`: the results are the nearest of the live nodes that were
  looked at, and no candidate that is left could improve them.
- Theorem {lit}`search_keeps_best_iff`: when they are the nearest of the marked ones.
-/

namespace NanoDB.Index

open NanoDB.Lib

variable {V δ : Type*} [Zero V] [LinearOrder δ]

namespace HNSW

/-! ## The two heaps -/

theorem nearer_orders :
    Orders (nearer : Result δ → Result δ → Bool) fun a b => a.distance ≤ b.distance where
  of_before _ _ h := le_of_lt (of_decide_eq_true h)
  of_not_before _ _ h := not_lt.mp (of_decide_eq_false h)
  trans _ _ _ := le_trans

theorem farther_orders :
    Orders (farther : Result δ → Result δ → Bool) fun a b => b.distance ≤ a.distance where
  of_before _ _ h := le_of_lt (of_decide_eq_true h)
  of_not_before _ _ h := not_lt.mp (of_decide_eq_false h)
  trans _ _ _ hab hbc := le_trans hbc hab

variable [PriorityQueue (Result δ)]

/-- The top of the result heap is one of the farthest results. -/
theorem le_top {found : List (Result δ)} {worst : Result δ} (h : top found = some worst) :
    worst ∈ found ∧ ∀ r ∈ found, r.distance ≤ worst.distance := by
  rcases Option.map_eq_some_iff.mp h with ⟨⟨w, rest⟩, hextract, rfl⟩
  have hperm := extract_perm hextract
  constructor
  · exact hperm.mem_iff.mpr List.mem_cons_self
  · intro r hr
    rcases List.mem_cons.mp (hperm.mem_iff.mp hr) with rfl | hr
    · exact le_rfl
    · exact farther_orders.le_of_extract hextract r hr

theorem top_eq_none_iff {found : List (Result δ)} : top found = none ↔ found = [] := by
  rw [top, Option.map_eq_none_iff, extract_eq_none_iff]

section Nearest

variable {ef : Nat} {contents found : List (Result δ)}

/-- Pushing into the bounded heap keeps the nearest. -/
theorem nearest_keepBest (h : Nearest Result.distance ef contents found) (r : Result δ) :
    Nearest Result.distance ef (r :: contents) (keepBest ef found r) := by
  have hlength : found.length = min ef contents.length := by
    rcases h with ⟨rest, -, hlength, -⟩
    exact hlength
  rcases Nat.lt_or_ge found.length ef with hroom | hfull
  · -- nothing was dropped so far
    have hperm := h.perm_of_length_le (by omega)
    rw [keepBest_of_lt r hroom]
    refine ⟨[], ?_, ?_, fun a _ b hb => absurd hb List.not_mem_nil⟩
    · rw [List.append_nil]
      exact hperm.cons r
    · rw [List.length_cons, List.length_cons]
      omega
  · rcases h with ⟨rest, hperm, -, hle⟩
    have hkept := length_keepBest r hfull
    rw [keepBest, if_pos (by rw [List.length_cons]; omega)] at hkept ⊢
    cases hextract : extract farther (r :: found) with
    | none => simp [extract_eq_none_iff] at hextract
    | some taken =>
        rcases taken with ⟨worst, kept⟩
        rw [hextract] at hkept
        dsimp only at hkept ⊢
        have hsplit := extract_perm hextract
        have hworst := farther_orders.le_of_extract hextract
        refine ⟨worst :: rest, ?_, ?_, ?_⟩
        · have hmid : (kept ++ worst :: rest).Perm (worst :: kept ++ rest) :=
            List.perm_middle
          exact hmid.trans ((hsplit.symm.append_right rest).trans (hperm.cons r))
        · rw [List.length_cons]
          omega
        · intro a ha b hb
          rcases List.mem_cons.mp hb with rfl | hb
          · exact hworst a ha
          -- the dropped result is the new one, or an old one that is not farther than the rest
          · rcases List.mem_cons.mp (hsplit.mem_iff.mpr List.mem_cons_self) with hr | hold
            · rw [hr] at hsplit
              exact hle a (hsplit.cons_inv.mem_iff.mpr ha) b hb
            · exact (hworst a ha).trans (hle worst hold b hb)

/-- A node that is not wanted is not nearer than any result. -/
theorem nearest_of_not_wanted (h : Nearest Result.distance ef contents found)
    {r : Result δ} (hnot : wanted ef found r.distance = false) :
    Nearest Result.distance ef (r :: contents) found := by
  rcases h with ⟨rest, hperm, hlength, hle⟩
  rw [wanted, Bool.or_eq_false_iff, decide_eq_false_iff_not] at hnot
  refine ⟨r :: rest, ?_, ?_, ?_⟩
  · exact List.perm_middle.trans (hperm.cons r)
  · rw [List.length_cons]
    omega
  · intro a ha b hb
    rcases List.mem_cons.mp hb with rfl | hb
    · cases htop : top found with
      | none =>
          rw [top_eq_none_iff.mp htop] at ha
          cases ha
      | some worst =>
          rw [htop] at hnot
          exact ((le_top htop).2 a ha).trans (not_lt.mp (of_decide_eq_false hnot.2))
    · exact hle a ha b hb

end Nearest

/-! ## The invariant of the loop -/

section Loop

variable (m : Metric V δ) (h : HNSW V) (query : V) (ef size layer entryPoint : Nat)

/-- A node with its distance. -/
def resultOf (n : Nat) : Result δ where
  id := n
  distance := m.dist query (h.getNode n).vector

/-- The live nodes of a list, with their distances. -/
def liveResults (ns : List Nat) : List (Result δ) :=
  (ns.filter fun n => !(h.getNode n).isDeleted).map (h.resultOf m query)

/-- The nodes that a search has looked at: those with their bit in {lit}`visited`, and the
start node. -/
def Beam.seen (b : Beam δ) : List Nat :=
  b.visited ++ if entryPoint < size then [] else [entryPoint]

/-- The results are the nearest of the live nodes that were looked at. -/
def Beam.Best (b : Beam δ) : Prop :=
  Nearest Result.distance ef (h.liveResults m query (b.seen size entryPoint)) b.found

variable {m h query ef size entryPoint}

omit [LinearOrder δ] [PriorityQueue (Result δ)] in
theorem liveResults_cons (n : Nat) (ns : List Nat) :
    h.liveResults m query (n :: ns) =
      if (h.getNode n).isDeleted then h.liveResults m query ns
      else h.resultOf m query n :: h.liveResults m query ns := by
  rw [liveResults, liveResults, List.filter_cons]
  cases (h.getNode n).isDeleted <;> rfl

omit [LinearOrder δ] [PriorityQueue (Result δ)] in
theorem mem_ids_of_mem_liveResults {ns : List Nat} {r : Result δ}
    (hr : r ∈ h.liveResults m query ns) : r.id ∈ ns := by
  rcases List.mem_map.mp hr with ⟨n, hn, rfl⟩
  exact List.mem_of_mem_filter hn

omit [LinearOrder δ] [PriorityQueue (Result δ)] in
theorem mem_liveResults {ns : List Nat} {n : Nat} (hn : n ∈ ns)
    (hlive : (h.getNode n).isDeleted = false) : h.resultOf m query n ∈ h.liveResults m query ns :=
  List.mem_map.mpr ⟨n, List.mem_filter.mpr ⟨hn, by simp [hlive]⟩, rfl⟩

/-- A look at a neighbour: a node that is wanted and live is pushed, and one that is not
wanted is not nearer than any result. -/
theorem Beam.Best.visit {b : Beam δ} (hb : b.Best m h query ef size entryPoint) (n : Nat) :
    (h.visit m query ef size b n).Best m h query ef size entryPoint := by
  rw [HNSW.visit]
  split
  · exact hb
  · dsimp only
    split
    · rw [Beam.Best, Beam.seen, List.cons_append, liveResults_cons]
      dsimp only
      split
      · exact hb
      · exact nearest_keepBest hb _
    · next hnot =>
        rw [Beam.Best, Beam.seen, List.cons_append, liveResults_cons]
        dsimp only
        split
        · exact hb
        · exact nearest_of_not_wanted hb (Bool.eq_false_iff.mpr hnot)

theorem Beam.Best.foldl_visit {b : Beam δ} (hb : b.Best m h query ef size entryPoint)
    (ns : List Nat) :
    (ns.foldl (h.visit m query ef size) b).Best m h query ef size entryPoint := by
  induction ns generalizing b with
  | nil => exact hb
  | cons n ns ih => exact ih (hb.visit n)

omit [PriorityQueue (Result δ)] in
theorem startBeam_best (hef : 0 < ef) :
    (h.startBeam m entryPoint query size).Best m h query ef size entryPoint := by
  have hseen : (h.startBeam m entryPoint query size).seen size entryPoint = [entryPoint] := by
    rw [Beam.seen, startBeam]
    split <;> rfl
  rw [Beam.Best, hseen, startBeam, liveResults]
  cases hdeleted : (h.getNode entryPoint).isDeleted with
  | true => exact ⟨[], by simp [hdeleted], by simp [hdeleted], by simp⟩
  | false => exact ⟨[], by simp [hdeleted, resultOf], by simp [hdeleted]; omega, by simp⟩

variable {layer}

/-- At the end, every candidate that is left is farther than every result. -/
theorem Beam.Best.searchLoop {fuel : Nat} {b b' : Beam δ}
    (hb : b.Best m h query ef size entryPoint)
    (hloop : h.searchLoop m query ef size layer fuel b = some b') :
    b'.Best m h query ef size entryPoint ∧
      ∀ c ∈ b'.candidates, ∀ r ∈ b'.found, r.distance < c.distance := by
  induction fuel generalizing b with
  | zero => simp [HNSW.searchLoop] at hloop
  | succ fuel ih =>
      rw [HNSW.searchLoop] at hloop
      split at hloop
      · next hnone =>
          rw [← Option.some.inj hloop]
          refine ⟨hb, ?_⟩
          rw [extract_eq_none_iff.mp hnone]
          exact fun c hc => absurd hc List.not_mem_nil
      · next curr rest hextract =>
          split at hloop
          · next hstops =>
              rw [← Option.some.inj hloop]
              refine ⟨hb, ?_⟩
              intro c hc r hr
              have hcurr : curr.distance ≤ c.distance := by
                rcases List.mem_cons.mp ((extract_perm hextract).mem_iff.mp hc) with rfl | hc
                · exact le_rfl
                · exact nearer_orders.le_of_extract hextract c hc
              rw [stops] at hstops
              split at hstops
              · contradiction
              · next worst htop =>
                  have hworst := of_decide_eq_true (Bool.and_eq_true_iff.mp hstops).1
                  exact lt_of_le_of_lt ((le_top htop).2 r hr) (lt_of_lt_of_le hworst hcurr)
          · have hpopped : ({ b with candidates := rest } : Beam δ).Best m h query ef size
                entryPoint := hb
            exact ih (hpopped.foldl_visit _) hloop

/-- Every id that is marked has a bit. -/
theorem Beam.Bounded.searchLoop {fuel : Nat} {b b' : Beam δ} (hb : b.Bounded size)
    (hloop : h.searchLoop m query ef size layer fuel b = some b') : b'.Bounded size := by
  induction fuel generalizing b with
  | zero => simp [HNSW.searchLoop] at hloop
  | succ fuel ih =>
      rw [HNSW.searchLoop] at hloop
      split at hloop
      · rw [← Option.some.inj hloop]
        exact hb
      · next curr rest hextract =>
          split at hloop
          · rw [← Option.some.inj hloop]
            exact hb
          · have hpopped : ({ b with candidates := rest } : Beam δ).Bounded size :=
              ⟨hb.nodup, hb.lt⟩
            exact ih (hpopped.foldl_visit m h query ef _).1 hloop

end Loop

/-! ## The results -/

section Results

variable (m : Metric V δ) (h : HNSW V) (entryPoint : Nat) (query : V) (ef layer : Nat)

theorem searchBeam_best (hef : 0 < ef) :
    (h.searchBeam m entryPoint query ef layer).Best m h query ef (h.visitedSize entryPoint)
        entryPoint ∧
      ∀ c ∈ (h.searchBeam m entryPoint query ef layer).candidates,
        ∀ r ∈ (h.searchBeam m entryPoint query ef layer).found, r.distance < c.distance :=
  (startBeam_best hef).searchLoop (Option.some_get _).symm

theorem searchBeam_bounded :
    (h.searchBeam m entryPoint query ef layer).Bounded (h.visitedSize entryPoint) :=
  (h.startBeam_bounded m entryPoint query _).searchLoop (Option.some_get _).symm

/-- What {lit}`search_layer` returns: no id twice and no deleted node, the nearest of the live
nodes whose bit is set, and when it is full, every candidate that is left is farther. -/
structure KeepsBest (b : Beam δ) : Prop where
  nodup : (ids b.found).Nodup
  live : ∀ r ∈ b.found, (h.getNode r.id).isDeleted = false
  nearest : Nearest Result.distance ef (h.liveResults m query b.visited) b.found
  rest_farther : b.found.length = ef →
    ∀ c ∈ b.candidates, ∀ r ∈ b.found, r.distance < c.distance

variable {m h entryPoint query ef layer}

/-- A start node with a bit is marked, and a deleted one is no result. -/
theorem searchBeam_keepsBest (hef : 0 < ef)
    (hstart : entryPoint < h.visitedSize entryPoint ∨ (h.getNode entryPoint).isDeleted = true) :
    h.KeepsBest m query ef (h.searchBeam m entryPoint query ef layer) := by
  rcases searchBeam_best m h entryPoint query ef layer hef with ⟨hbest, hrest⟩
  have hsound := (searchBeam_inv m h query ef layer entryPoint).1.sound
  refine ⟨hsound.found_nodup, hsound.found_live, ?_, fun _ => hrest⟩
  rw [Beam.Best, Beam.seen] at hbest
  split at hbest
  · rw [List.append_nil] at hbest
    exact hbest
  · next hno =>
      have hdeleted := hstart.resolve_left hno
      rw [liveResults, List.filter_append] at hbest
      simpa [liveResults, hdeleted] using hbest

/-- A live start node without a bit stays among the results of a wide search. -/
theorem not_keepsBest_of_no_bit (hno : h.visitedSize entryPoint ≤ entryPoint)
    (hlive : (h.getNode entryPoint).isDeleted = false) (hef : h.visitedSize entryPoint < ef) :
    ¬ h.KeepsBest m query ef (h.searchBeam m entryPoint query ef layer) := by
  intro hkeeps
  have hbounded := searchBeam_bounded m h entryPoint query ef layer
  rcases searchBeam_best m h entryPoint query ef layer (by omega) with ⟨hbest, -⟩
  generalize h.searchBeam m entryPoint query ef layer = b at hkeeps hbounded hbest
  have hseen : entryPoint ∈ b.seen (h.visitedSize entryPoint) entryPoint := by
    rw [Beam.seen, if_neg (by omega)]
    exact List.mem_append_right _ List.mem_cons_self
  have hroom : (h.liveResults m query (b.seen (h.visitedSize entryPoint) entryPoint)).length ≤
      ef := by
    have hvisited := hbounded.length_le
    rw [liveResults, List.length_map, Beam.seen, if_neg (by omega)]
    refine (List.length_filter_le _ _).trans ?_
    rw [List.length_append, List.length_singleton]
    omega
  have hfound : h.resultOf m query entryPoint ∈ b.found := by
    have hperm := Nearest.perm_of_length_le hbest hroom
    exact hperm.mem_iff.mpr (mem_liveResults hseen hlive)
  rcases hkeeps.nearest with ⟨rest, hperm, -, -⟩
  have hmem := hperm.mem_iff.mp (List.mem_append_left rest hfound)
  have hlt := hbounded.lt entryPoint (mem_ids_of_mem_liveResults hmem)
  omega

end Results

/-- For every index whose counter is a {lit}`size_t`, start node, query and layer: with
every {lit}`ef` from 1 on, {lit}`search_layer` returns the {lit}`min(ef, m)` nearest of the
{lit}`m` live nodes that it marked, each once, and when there are {lit}`ef` every candidate that
is left is farther; if and only if its bitmap can be allocated, and has a bit for the start
node or that node is deleted. -/
theorem search_keeps_best_iff (m : Metric V δ) (h : HNSW V) (entryPoint : Nat) (query : V)
    (layer : Nat) (hcount : h.elementCount < 2 ^ 64) (hentry : entryPoint < 2 ^ 32) :
    (∀ ef, 1 ≤ ef → ef < 2 ^ 31 →
      ∃ b, searchBeamChecked m h entryPoint query ef layer = some b ∧ h.KeepsBest m query ef b) ↔
    h.visitedSize entryPoint ≤ maxBits ∧
      (entryPoint < h.visitedSize entryPoint ∨ (h.getNode entryPoint).isDeleted = true) := by
  constructor
  · intro hall
    have hfits : h.visitedSize entryPoint ≤ maxBits := by
      rcases hall 1 le_rfl (by decide) with ⟨b, hb, -⟩
      by_contra hlong
      rw [searchBeamChecked, if_neg hlong] at hb
      cases hb
    refine ⟨hfits, ?_⟩
    by_contra hno
    rw [not_or, Bool.not_eq_true, Nat.not_lt] at hno
    -- the sum has wrapped around, so the bitmap is short
    have hsize : h.visitedSize entryPoint < 2000 := by
      have hle := hno.1
      unfold visitedSize at hle ⊢
      omega
    rcases hall 2000 (by decide) (by decide) with ⟨b, hb, hkeeps⟩
    rw [searchBeamChecked, if_pos hfits, Option.some_inj] at hb
    rw [← hb] at hkeeps
    exact not_keepsBest_of_no_bit hno.1 hno.2 hsize hkeeps
  · rintro ⟨hfits, hstart⟩ ef hef -
    refine ⟨h.searchBeam m entryPoint query ef layer, ?_, searchBeam_keepsBest hef hstart⟩
    rw [searchBeamChecked, if_pos hfits]

/-- The search from the entry point of an index with one vector. -/
theorem search_keeps_best_iff_single :
    ∃ h : HNSW Int,
      h = ({ storageSize := 100 * 1024 * 1024 } : HNSW Int).insert lineMetric 0 7 5 [] ∧
      ∃ b, searchBeamChecked lineMetric h 5 4 2 0 = some b ∧ h.KeepsBest lineMetric 4 2 b := by
  refine ⟨_, rfl, ?_⟩
  generalize hsingle :
    ({ storageSize := 100 * 1024 * 1024 } : HNSW Int).insert lineMetric 0 7 5 [] = h
  have hcount : h.elementCount = 1 := by
    rw [← hsingle, elementCount_insert]
    rfl
  have hsize : h.visitedSize 5 = 2005 := by
    rw [visitedSize, hcount]
    rfl
  have hfits : h.visitedSize 5 ≤ maxBits ∧
      (5 < h.visitedSize 5 ∨ (h.getNode 5).isDeleted = true) := by
    rw [hsize]
    exact ⟨by decide, .inl (by decide)⟩
  exact (search_keeps_best_iff lineMetric h 5 4 0 (by rw [hcount]; decide) (by decide)).mpr hfits 2
    (by decide) (by decide)

/-- The id 1999 is inserted and the ids 0 and 1 are deleted, which were never inserted: the
counter wraps around, {lit}`visited` has 1999 bits, and the entry point is returned without
having been marked. -/
theorem start_without_bit :
    ∃ h : HNSW Int,
      h = ((({ storageSize := 100 * 1024 * 1024 } : HNSW Int).insert lineMetric 0 7 1999
        []).deleteVector 0).deleteVector 1 ∧
      h.elementCount = 2 ^ 64 - 1 ∧
      ¬ ∀ ef, 1 ≤ ef → ef < 2 ^ 31 →
        ∃ b, searchBeamChecked lineMetric h 1999 4 ef 0 = some b ∧
          h.KeepsBest lineMetric 4 ef b := by
  generalize hfirst : ({ storageSize := 100 * 1024 * 1024 } : HNSW Int).insert lineMetric 0 7 1999
    [] = first
  have hstorage : first.storageSize = 100 * 1024 * 1024 := by
    rw [← hfirst, storageSize_insert]
    rfl
  have hdeleted : ∀ j, (first.getNode j).isDeleted = false := by
    intro j
    rw [← hfirst, (getNode_insert lineMetric _ 0 7 1999 [] j).2]
    split <;> rfl
  have hcount : ((first.deleteVector 0).deleteVector 1).elementCount = 2 ^ 64 - 1 := by
    have hzero : first.inStorage 0 = true := by
      rw [inStorage, hstorage]
      rfl
    have hone : (first.deleteVector 0).inStorage 1 = true := by
      rw [inStorage, (first.deleteVector_keeps 0).2.2.2.1, hstorage]
      rfl
    have hfresh : ((first.deleteVector 0).getNode 1).isDeleted = false := by
      rw [getNode_deleteVector, if_neg (by simp)]
      exact hdeleted 1
    rw [elementCount_deleteVector, if_pos ⟨hone, hfresh⟩, elementCount_deleteVector,
      if_pos ⟨hzero, hdeleted 0⟩, ← hfirst, elementCount_insert]
    rfl
  have hlive : (((first.deleteVector 0).deleteVector 1).getNode 1999).isDeleted = false := by
    rw [getNode_deleteVector, if_neg (by simp), getNode_deleteVector, if_neg (by simp)]
    exact hdeleted 1999
  refine ⟨_, rfl, hcount, ?_⟩
  generalize (first.deleteVector 0).deleteVector 1 = h at hcount hlive
  have hsize : h.visitedSize 1999 = 1999 := by
    rw [visitedSize, hcount]
    rfl
  intro hall
  rcases hall 2000 (by decide) (by decide) with ⟨b, hb, hkeeps⟩
  rw [searchBeamChecked, if_pos (by rw [hsize]; decide), Option.some_inj] at hb
  rw [← hb] at hkeeps
  exact not_keepsBest_of_no_bit (by rw [hsize]) hlive (by rw [hsize]; decide) hkeeps

end HNSW

end NanoDB.Index
