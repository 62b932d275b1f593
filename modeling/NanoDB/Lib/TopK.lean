import Mathlib.Data.List.Dedup
import Mathlib.Data.List.Sort
import Mathlib.Order.MinMax

/-!
# The nearest entries, one for each key

Entries have a key and a distance.  Several sources each answer with their nearest
entries; the answers are merged in the order of distance, the first entry of each key is
kept, and the first {lit}`k` of these are the result.

An entry that its source cut off is covered: the source answered with {lit}`k` entries of
different keys that are at most as far.

Main results:

- Theorem {lit}`TopK.of_covered`: entries that cover all others have the {lit}`k` smallest
  distances of the keys.
- Theorem {lit}`topK_merge`: the merged answers have them.
-/

namespace NanoDB.Lib

variable {α κ δ : Type*} [DecidableEq κ] (key : α → κ)

/-! ## The first entry of each key -/

/-- The first entry of each key that is not in {lit}`seen`. -/
def firsts (seen : List κ) : List α → List α
  | [] => []
  | a :: l => if key a ∈ seen then firsts seen l else a :: firsts (key a :: seen) l

variable {key}

theorem firsts_sublist (seen : List κ) (l : List α) : (firsts key seen l).Sublist l := by
  induction l generalizing seen with
  | nil => exact .slnil
  | cons a l ih =>
      rw [firsts]
      split
      · exact (ih seen).cons a
      · exact (ih _).cons_cons a

theorem key_notMem_of_mem_firsts {seen : List κ} {l : List α} {a : α}
    (h : a ∈ firsts key seen l) : key a ∉ seen := by
  induction l generalizing seen with
  | nil => cases h
  | cons b l ih =>
      rw [firsts] at h
      split at h
      · exact ih h
      · next hb =>
          rcases List.mem_cons.mp h with rfl | h
          · exact hb
          · exact fun hseen => ih h (List.mem_cons_of_mem _ hseen)

theorem firsts_keys_nodup (seen : List κ) (l : List α) : ((firsts key seen l).map key).Nodup := by
  induction l generalizing seen with
  | nil => exact List.nodup_nil
  | cons a l ih =>
      rw [firsts]
      split
      · exact ih seen
      · rw [List.map_cons, List.nodup_cons]
        refine ⟨?_, ih _⟩
        intro hmem
        rcases List.mem_map.mp hmem with ⟨b, hb, hkey⟩
        exact key_notMem_of_mem_firsts hb (hkey ▸ List.mem_cons_self)

/-- In a list that is sorted by distance, the first entry of a key is its nearest. -/
theorem exists_mem_firsts [Preorder δ] {dist : α → δ} {seen : List κ} {l : List α} {a : α}
    (hsorted : l.Pairwise fun a b => dist a ≤ dist b) (ha : a ∈ l) (hseen : key a ∉ seen) :
    ∃ b ∈ firsts key seen l, key b = key a ∧ dist b ≤ dist a := by
  induction l generalizing seen with
  | nil => cases ha
  | cons b l ih =>
      rw [List.pairwise_cons] at hsorted
      rw [firsts]
      by_cases hkey : key b = key a
      · rw [if_neg (hkey ▸ hseen)]
        refine ⟨b, List.mem_cons_self, hkey, ?_⟩
        rcases List.mem_cons.mp ha with rfl | ha
        · exact le_rfl
        · exact hsorted.1 a ha
      · have ha : a ∈ l := by
          rcases List.mem_cons.mp ha with rfl | ha
          · exact absurd rfl hkey
          · exact ha
        have hseen' : key a ∉ key b :: seen := by
          rw [List.mem_cons, not_or]
          exact ⟨Ne.symm hkey, hseen⟩
        split
        · exact ih hsorted.2 ha hseen
        · rcases ih hsorted.2 ha hseen' with ⟨c, hc, hrest⟩
          exact ⟨c, List.mem_cons_of_mem _ hc, hrest⟩

/-! ## The distances of the keys -/

section Ranking

variable [LinearOrder δ] (key) (dist : α → δ)

/-- The distance of the nearest entry of a key. -/
def closest (all : List α) (x : κ) : Option δ :=
  ((all.filter fun a => decide (key a = x)).map dist).min?

/-- The distances of all keys, the smallest first. -/
def ranking (all : List α) : List δ :=
  ((all.map key).dedup.filterMap (closest key dist all)).insertionSort (· ≤ ·)

/-- The result of a search for {lit}`k` keys: entries with different keys, the nearest
first, that have the {lit}`k` smallest distances of the keys. -/
structure TopK (k : Nat) (all results : List α) : Prop where
  mem : ∀ r ∈ results, r ∈ all
  nodup : (results.map key).Nodup
  sorted : results.Pairwise fun a b => dist a ≤ dist b
  nearest : ∀ r ∈ results, closest key dist all (key r) = some (dist r)
  distances : results.map dist = (ranking key dist all).take k

/-- The answer of one source: {lit}`k` of its entries, or all if it has fewer, and none of
the others is nearer. -/
def Nearest (k : Nat) (contents answer : List α) : Prop :=
  ∃ rest, (answer ++ rest).Perm contents ∧ answer.length = min k contents.length ∧
    ∀ a ∈ answer, ∀ b ∈ rest, dist a ≤ dist b

variable {key dist} {k : Nat} {all results : List α}

theorem closest_eq_some_iff {x : κ} {d : δ} : closest key dist all x = some d ↔
    (∃ a ∈ all, key a = x ∧ dist a = d) ∧ ∀ a ∈ all, key a = x → d ≤ dist a := by
  have : Std.LawfulOrderMin δ :=
    { min_eq_or := min_choice
      le_min_iff := fun a b c => le_min_iff }
  rw [closest, List.min?_eq_some_iff]
  simp only [List.mem_map, List.mem_filter, decide_eq_true_eq, and_assoc]
  refine and_congr_right fun _ => ⟨?_, ?_⟩
  · intro hle a ha hkey
    exact hle (dist a) ⟨a, ha, hkey, rfl⟩
  · rintro hle b ⟨a, ha, hkey, rfl⟩
    exact hle a ha hkey

/-- A sorted list is a sorted part of it, if nothing else is smaller, and the sorted rest. -/
theorem insertionSort_eq_append {l l₁ l₂ : List δ} (hperm : (l₁ ++ l₂).Perm l)
    (hsorted : l₁.Pairwise (· ≤ ·)) (hle : ∀ a ∈ l₁, ∀ b ∈ l₂, a ≤ b) :
    l.insertionSort (· ≤ ·) = l₁ ++ l₂.insertionSort (· ≤ ·) := by
  have hrest := List.perm_insertionSort (· ≤ ·) l₂
  refine List.Perm.eq_of_pairwise (fun a b _ _ => le_antisymm)
    (List.pairwise_insertionSort _ _) ?_ ?_
  · rw [List.pairwise_append]
    refine ⟨hsorted, List.pairwise_insertionSort _ _, ?_⟩
    intro a ha b hb
    exact hle a ha b (hrest.mem_iff.mp hb)
  · exact ((List.perm_insertionSort _ l).trans hperm.symm).trans (hrest.symm.append_left l₁)

/-- The first {lit}`k` of the sorted entries are an answer. -/
theorem Nearest.take_of_sorted {contents sorted : List α} (hperm : sorted.Perm contents)
    (hsorted : sorted.Pairwise fun a b => dist a ≤ dist b) (k : Nat) :
    Nearest dist k contents (sorted.take k) := by
  refine ⟨sorted.drop k, ?_, ?_, ?_⟩
  · rw [List.take_append_drop]
    exact hperm
  · rw [List.length_take, hperm.length_eq]
  · intro a ha b hb
    rw [← List.take_append_drop k sorted, List.pairwise_append] at hsorted
    exact hsorted.2.2 a ha b hb

/-- A source with at most {lit}`k` entries answers with all of them. -/
theorem Nearest.perm_of_length_le {contents answer : List α} (h : Nearest dist k contents answer)
    (hle : contents.length ≤ k) : answer.Perm contents := by
  rcases h with ⟨rest, hperm, hlength, -⟩
  have hrest : rest = [] := by
    have htotal := hperm.length_eq
    rw [List.length_append] at htotal
    exact List.eq_nil_of_length_eq_zero (by omega)
  rw [hrest, List.append_nil] at hperm
  exact hperm

/-- An entry that its source does not answer with is covered by those it answers with. -/
theorem Nearest.covers {contents answer : List α} (h : Nearest dist k contents answer) {a : α}
    (ha : a ∈ contents) :
    a ∈ answer ∨ (answer.length = k ∧ ∀ b ∈ answer, dist b ≤ dist a) := by
  rcases h with ⟨rest, hperm, hlength, hle⟩
  rcases List.mem_append.mp (hperm.mem_iff.mpr ha) with hin | hout
  · exact .inl hin
  · right
    have hrest := List.length_pos_of_mem hout
    have htotal := hperm.length_eq
    rw [List.length_append] at htotal
    exact ⟨by omega, fun b hb => hle b hb a hout⟩

/-- Entries with different keys, each the nearest of its key, have the smallest distances
if every other key is at least as far and there are {lit}`k` of them, or there is no other
key. -/
theorem TopK.of_covered (hlength : results.length ≤ k) (hmem : ∀ r ∈ results, r ∈ all)
    (hnodup : (results.map key).Nodup)
    (hsorted : results.Pairwise fun a b => dist a ≤ dist b)
    (hnearest : ∀ r ∈ results, ∀ a ∈ all, key a = key r → dist r ≤ dist a)
    (hcovered : ∀ a ∈ all, key a ∈ results.map key ∨
      (results.length = k ∧ ∀ r ∈ results, dist r ≤ dist a)) :
    TopK key dist k all results := by
  have hclosest : ∀ r ∈ results, closest key dist all (key r) = some (dist r) := by
    intro r hr
    rw [closest_eq_some_iff]
    exact ⟨⟨r, hmem r hr, rfl, rfl⟩, hnearest r hr⟩
  refine ⟨hmem, hnodup, hsorted, hclosest, ?_⟩
  -- the keys are those of the results and some others
  have hkeys : ((results.map key) ++ ((all.map key).dedup.filter
      fun x => !decide (x ∈ results.map key))).Perm (all.map key).dedup := by
    refine List.Perm.trans (List.Perm.append_right _ ?_)
      (List.filter_append_perm (fun x => decide (x ∈ results.map key)) _)
    rw [List.perm_ext_iff_of_nodup hnodup ((List.nodup_dedup _).filter _)]
    intro x
    rw [List.mem_filter, List.mem_dedup, decide_eq_true_eq]
    refine ⟨fun hx => ⟨?_, hx⟩, fun hx => hx.2⟩
    rcases List.mem_map.mp hx with ⟨r, hr, rfl⟩
    exact List.mem_map_of_mem (hmem r hr)
  have hresults : (results.map key).filterMap (closest key dist all) = results.map dist := by
    rw [List.filterMap_map, ← List.filterMap_eq_map]
    exact List.filterMap_congr hclosest
  generalize hothers : ((all.map key).dedup.filter
    fun x => !decide (x ∈ results.map key)) = others at hkeys
  have hperm := hkeys.filterMap (closest key dist all)
  rw [List.filterMap_append, hresults] at hperm
  have hfar : ∀ d ∈ others.filterMap (closest key dist all), results.length = k ∧
      ∀ r ∈ results, dist r ≤ d := by
    intro d hd
    rcases List.mem_filterMap.mp hd with ⟨x, hx, hxd⟩
    rw [← hothers, List.mem_filter] at hx
    rcases (closest_eq_some_iff.mp hxd).1 with ⟨a, ha, rfl, rfl⟩
    rcases hcovered a ha with hin | hcut
    · simp [hin] at hx
    · exact hcut
  have hsort : ranking key dist all =
      results.map dist ++ (others.filterMap (closest key dist all)).insertionSort (· ≤ ·) := by
    apply insertionSort_eq_append hperm
    · rw [List.pairwise_map]
      exact hsorted
    · intro a ha b hb
      rcases List.mem_map.mp ha with ⟨r, hr, rfl⟩
      exact (hfar b hb).2 r hr
  rw [hsort]
  cases hrest : others.filterMap (closest key dist all) with
  | nil =>
      rw [List.insertionSort_nil, List.append_nil, List.take_of_length_le]
      rwa [List.length_map]
  | cons d ds =>
      have hk : results.length = k := (hfar d (hrest ▸ List.mem_cons_self)).1
      rw [List.take_left']
      rw [List.length_map, hk]

/-! ## Merging the answers -/

/-- The first entries of a sorted list that are at most as far as a bound fill the result if
there are {lit}`k` of them. -/
theorem dist_le_of_mem_take {l : List α} (near : List α) {d : δ}
    (hsorted : l.Pairwise fun a b => dist a ≤ dist b) (hnear : near.Subperm l)
    (hle : ∀ a ∈ near, dist a ≤ d) (hk : k ≤ near.length) :
    (l.take k).length = k ∧ ∀ r ∈ l.take k, dist r ≤ d := by
  have hlength : (l.take k).length = k := by
    rw [List.length_take]
    have := hnear.length_le
    omega
  refine ⟨hlength, ?_⟩
  intro r hr
  by_contra hfar
  -- an entry that is too far in the result leaves no place for one of the near ones
  have hdrop : (l.drop k).countP (fun a => decide (dist a ≤ d)) = 0 := by
    rw [List.countP_eq_zero]
    intro b hb hbd
    have hrb : dist r ≤ dist b := by
      rw [← List.take_append_drop k l, List.pairwise_append] at hsorted
      exact hsorted.2.2 r hr b hb
    exact hfar (hrb.trans (of_decide_eq_true hbd))
  have htake : (l.take k).countP (fun a => decide (dist a ≤ d)) ≠ (l.take k).length := by
    intro hall
    exact hfar (of_decide_eq_true (List.countP_eq_length.mp hall r hr))
  have hcount : near.countP (fun a => decide (dist a ≤ d)) = near.length :=
    List.countP_eq_length.mpr fun a ha => decide_eq_true (hle a ha)
  have hsub := hnear.countP_le fun a => decide (dist a ≤ d)
  have hle' : (l.take k).countP (fun a => decide (dist a ≤ d)) ≤ (l.take k).length :=
    List.countP_le_length
  have hsplit : l.countP (fun a => decide (dist a ≤ d)) =
      (l.take k).countP (fun a => decide (dist a ≤ d)) + 0 := by
    rw [← hdrop, ← List.countP_append, List.take_append_drop]
  omega

section Merge

variable {ι : Type*} {sources : List ι} {contents answer : ι → List α} {merged : List α}

/-- An entry of a source is represented by one of its key that is at most as far, or the
result is full of entries that are at most as far. -/
theorem covered_of_mem_contents
    (hdistinct : ∀ i ∈ sources, ((contents i).map key).Nodup)
    (hnearest : ∀ i ∈ sources, Nearest dist k (contents i) (answer i))
    (hperm : merged.Perm (sources.flatMap answer))
    (hsorted : merged.Pairwise fun a b => dist a ≤ dist b) {a : α}
    (ha : a ∈ sources.flatMap contents) :
    (∃ b ∈ firsts key [] merged, key b = key a ∧ dist b ≤ dist a) ∨
      (((firsts key [] merged).take k).length = k ∧
        ∀ r ∈ (firsts key [] merged).take k, dist r ≤ dist a) := by
  rcases List.mem_flatMap.mp ha with ⟨i, hi, hai⟩
  have hfirst : ∀ b ∈ answer i, ∃ c ∈ firsts key [] merged, key c = key b ∧ dist c ≤ dist b := by
    intro b hb
    refine exists_mem_firsts hsorted ?_ List.not_mem_nil
    exact hperm.mem_iff.mpr (List.mem_flatMap.mpr ⟨i, hi, hb⟩)
  rcases (hnearest i hi).covers hai with hin | ⟨hlength, hle⟩
  · exact .inl (hfirst a hin)
  · right
    choose! first hfirst hkey hdist using hfirst
    have hanswer : ((answer i).map key).Nodup := by
      rcases hnearest i hi with ⟨rest, hrest, -⟩
      have hmap := (hrest.map key).nodup_iff.mpr (hdistinct i hi)
      rw [List.map_append] at hmap
      exact hmap.of_append_left
    have hkeys : ((answer i).map first).map key = (answer i).map key := by
      rw [List.map_map]
      exact List.map_congr_left hkey
    refine dist_le_of_mem_take ((answer i).map first) (hsorted.sublist (firsts_sublist _ _))
      ?_ ?_ ?_
    · refine List.subperm_of_subset (List.Nodup.of_map key (hkeys ▸ hanswer)) ?_
      intro c hc
      rcases List.mem_map.mp hc with ⟨b, hb, rfl⟩
      exact hfirst b hb
    · intro c hc
      rcases List.mem_map.mp hc with ⟨b, hb, rfl⟩
      exact (hdist b hb).trans (hle b hb)
    · rw [List.length_map, hlength]

/-- The answers of all sources, merged by distance, without the repetitions of a key and
cut to {lit}`k`, are the result of a search over everything the sources have. -/
theorem topK_merge (hdistinct : ∀ i ∈ sources, ((contents i).map key).Nodup)
    (hnearest : ∀ i ∈ sources, Nearest dist k (contents i) (answer i))
    (hperm : merged.Perm (sources.flatMap answer))
    (hsorted : merged.Pairwise fun a b => dist a ≤ dist b) :
    TopK key dist k (sources.flatMap contents) ((firsts key [] merged).take k) := by
  have hcover := fun (a : α) (ha : a ∈ sources.flatMap contents) =>
    covered_of_mem_contents hdistinct hnearest hperm hsorted ha
  have hnodup : ((firsts key [] merged).map key).Nodup := firsts_keys_nodup [] merged
  have hfirsts : (firsts key [] merged).Pairwise fun a b => dist a ≤ dist b :=
    hsorted.sublist (firsts_sublist [] merged)
  generalize hF : firsts key [] merged = F at hcover hnodup hfirsts ⊢
  have htake : (F.take k).Sublist F := List.take_sublist k F
  refine TopK.of_covered (List.length_take_le k F) ?_ (hnodup.sublist (htake.map key))
    (hfirsts.sublist htake) ?_ ?_
  · intro r hr
    have hmerged : r ∈ merged := (firsts_sublist [] merged).subset (hF ▸ htake.subset hr)
    rcases List.mem_flatMap.mp (hperm.mem_iff.mp hmerged) with ⟨i, hi, hri⟩
    rcases hnearest i hi with ⟨rest, hrest, -⟩
    exact List.mem_flatMap.mpr ⟨i, hi, hrest.mem_iff.mp (List.mem_append_left rest hri)⟩
  · intro r hr a ha hkey
    rcases hcover a ha with ⟨b, hb, hbkey, hbdist⟩ | ⟨-, hle⟩
    · have hrb : b = r :=
        List.inj_on_of_nodup_map hnodup hb (htake.subset hr) (hbkey.trans hkey)
      exact hrb ▸ hbdist
    · exact hle r hr
  · intro a ha
    rcases hcover a ha with ⟨b, hb, hbkey, hbdist⟩ | hfull
    · rw [← List.take_append_drop k F, List.mem_append] at hb
      rcases hb with hin | hout
      · exact .inl (hbkey ▸ List.mem_map_of_mem hin)
      · right
        have hpos := List.length_pos_of_mem hout
        rw [List.length_drop] at hpos
        refine ⟨by rw [List.length_take]; omega, ?_⟩
        intro r hr
        rw [← List.take_append_drop k F, List.pairwise_append] at hfirsts
        exact (hfirsts.2.2 r hr b hout).trans hbdist
    · exact .inr hfull

end Merge

end Ranking

end NanoDB.Lib
