import NanoDB.Index.Connectivity

/-!
# Updating a vector

An {lit}`insert` of an id that is already there overwrites the node and with it the
node's own links; the links of other nodes to it stay.  It then links the node again
through a search that starts at the entry point and may pass the node itself.

The other ids stay findable if nothing depended on the links that were wiped: the node
is not the entry point, no link above layer 0 leads to it, and the other nodes are
connected on layer 0 without it.  If the node is the entry point, every search after
the update starts at a node whose only link is to itself.

Main results:

- Theorem {lit}`others_found_after_update`: under these conditions every wide search
  after the update returns every other id.
- Theorem {lit}`search_after_update_of_entry`: after an update of the entry point no
  search returns another id.
-/

namespace NanoDB.Index

open NanoDB.Lib
open NanoDB.Storage (Bytes)
open Relation (ReflTransGen)

variable {V δ : Type*} [Zero V] [Preorder δ] [DecidableLT δ] [PriorityQueue (Result δ)]

/-! ## Runs without deletes -/

/-- An insert that is admissible. -/
def Filling.AdmissibleInsert (s : Filling V) : Op V → Prop
  | .insert level vec metadata => s.Admissible (.insert level vec metadata)
  | .delete _ => False

/-- A filling in which nothing was deleted. -/
structure Undeleted (s : Filling V) : Prop where
  connected : Connected s
  live : ∀ i < s.count, (s.index.getNode i).isDeleted = false
  elementCount : s.index.elementCount = s.count

omit [Preorder δ] [DecidableLT δ] in
theorem Undeleted.covered {s : Filling V} (hs : Undeleted s) : s.Covered := by
  have hle := hs.connected.count_le
  unfold noId at hle
  rw [Filling.Covered, HNSW.BitmapFits, HNSW.visitedSize, HNSW.maxBits, hs.elementCount]
  omega

theorem Undeleted.insert {s : Filling V} (hs : Undeleted s) (m : Metric V δ) {level : Nat} {vec : V}
    {metadata : Bytes} (hadmissible : s.Admissible (.insert level vec metadata)) :
    Undeleted ⟨s.index.insert m level vec s.count metadata, s.count + 1⟩ := by
  refine ⟨hs.connected.insert m hadmissible (hs.connected.meetsLive ?_), ?_, ?_⟩
  · rcases hs.connected.entry with ⟨-, hnone⟩ | ⟨e, -, he, -, -⟩
    · exact .inl hnone
    · exact .inr ⟨hs.covered, e, he, he, hs.live e he⟩
  · intro i hi
    dsimp only at hi ⊢
    rw [(HNSW.getNode_insert m s.index level vec s.count metadata i).2]
    split
    · rfl
    · exact hs.live i (by omega)
  · have hid := hadmissible.2.1
    unfold noId at hid
    dsimp only
    rw [HNSW.elementCount_insert, hs.elementCount, HNSW.countUp]
    omega

theorem undeleted_run (m : Metric V δ) {storageSize : Nat} {ops : List (Op V)} {s : Filling V}
    (hrun : Exec (Filling.step m) Filling.AdmissibleInsert (Filling.create storageSize) ops s) :
    Undeleted s := by
  apply hrun.invariant Undeleted
  · intro s a s' hs hok hstep
    cases a with
    | insert level vec metadata =>
        rw [← Option.some.inj hstep, HNSW.insertCall, if_pos (.inr hs.covered.1)]
        exact hs.insert m hok
    | delete id => exact hok.elim
  · exact ⟨connected_create storageSize, fun i hi => absurd hi (Nat.not_lt_zero i), rfl⟩

/-! ## The links after an update -/

/-- Nothing depends on the links of the node: it is the only one; or it is not the entry
point, no link above layer 0 leads to it, and layer 0 connects the other nodes without
it. -/
def Filling.Bypassed (s : Filling V) (id : Nat) : Prop :=
  s.count = 1 ∨
    (s.index.entryPointId ≠ some id ∧
      (∀ x (l : Nat), 0 < l → l ≤ s.index.currentMaxLayer → id ∉ s.index.neighbors x l) ∧
      ∀ i j, i < s.count → j < s.count → i ≠ id → j ≠ id →
        ReflTransGen (fun x y => y ≠ id ∧ y ∈ s.index.neighbors x 0) i j)

namespace Undeleted

open HNSW

variable {s : Filling V} (m : Metric V δ)

/-- The links after an update of a node that is not the entry point and that no link
above layer 0 leads to: {lit}`selected` are its neighbours on layer 0. -/
theorem linked_cases (hs : Undeleted s) (hroom : s.index.NoFullList) {id e : Nat}
    (hid : id < s.count) (hentry : s.index.entryPointId = some e) (he : e < s.count)
    (hlayer : 0 ≤ s.index.currentMaxLayer) (hne : e ≠ id)
    (hupper : ∀ x (l : Nat), 0 < l → l ≤ s.index.currentMaxLayer → id ∉ s.index.neighbors x l)
    (level : Nat) (vec : V) :
    ∃ selected : List Nat, (∃ n ∈ selected, n < s.count ∧ n ≠ id) ∧
      (∀ x y, y ∈ (s.index.linked m level vec id).neighbors x 0 ↔
        y ∈ (s.index.written vec id).neighbors x 0 ∨ (x = id ∧ y ∈ selected) ∨
          (y = id ∧ x ∈ selected)) ∧
      ∀ l x, x < s.count → ∀ y ∈ (s.index.linked m level vec id).neighbors x l, y < s.count := by
  have hwritten : ∀ x l y, y ∈ (s.index.written vec id).neighbors x l →
      x ≠ id ∧ y ∈ s.index.neighbors x l := by
    intro x l y hy
    rw [neighbors_written] at hy
    split at hy
    · cases hy
    · next hx => exact ⟨hx, hy⟩
  have hclosed : ∀ l : Nat, 0 < l → l ≤ s.index.currentMaxLayer → ∀ x, x < s.count ∧ x ≠ id →
      ∀ y ∈ (s.index.written vec id).neighbors x l, y < s.count ∧ y ≠ id := by
    intro l hpos hmax x _ y hy
    have hold := (hwritten x l y hy).2
    refine ⟨(hs.connected.links_lt x l y hold).2, ?_⟩
    rintro rfl
    exact hupper x l hpos hmax hold
  rcases HNSW.linked_cases m level hentry hlayer hclosed ⟨he, hne⟩ with
    ⟨h', c, hlinked, hc, hupper'⟩
  have hselected : ∀ n ∈ h'.selectNeighbors m vec 0 c, n < s.count := by
    intro n hn
    refine (mem_selectNeighbors (S := (· < s.count)) m ?_ hc.1 hn).1
    intro x _ y hy
    rw [hupper'.bottom] at hy
    exact (hs.connected.links_lt x 0 y (hwritten x 0 y hy).2).2
  have hlocks : s.count ≤ (s.index.expandStorage id).nodeLocks :=
    le_trans hs.connected.locks (nodeLocks_le_expandStorage s.index id)
  refine ⟨h'.selectNeighbors m vec 0 c, ?_, ?_, ?_⟩
  · have hlive : (h'.getNode c).isDeleted = false := by
      rw [hupper'.linksOnly.isDeleted, getNode_written, if_neg hc.2]
      exact hs.live c hc.1
    rcases exists_mem_selectNeighbors_ne m hlive hc.2 with ⟨n, hn, hnid⟩
    exact ⟨n, hn, hselected n hn, hnid⟩
  · intro x y
    rw [hlinked, mem_neighbors_linked_iff m hupper' hroom (by omega)]
    intro n hn
    have := hselected n hn
    omega
  · intro l x _ y hy
    rw [hlinked] at hy
    rcases hupper'.mem_neighbors m (fun n hn _ => hn.1) hselected hy with hold | ⟨-, hlt⟩ | ⟨rfl, -⟩
    · exact (hs.connected.links_lt x l y (hwritten x l y hold).2).2
    · exact hlt
    · exact hid

omit [Preorder δ] [DecidableLT δ] in
/-- A walk that avoids the node is still one if the links of the other nodes are kept. -/
theorem reachable_of_avoids (hs : Undeleted s) {id size : Nat} {vec : V} {h' : HNSW V}
    (hkept : ∀ x y, y ∈ (s.index.written vec id).neighbors x 0 → y ∈ h'.neighbors x 0)
    (hsize : s.count ≤ size) {a b : Nat} (ha : a ≠ id)
    (hwalk : ReflTransGen (fun x y => y ≠ id ∧ y ∈ s.index.neighbors x 0) a b) :
    b ≠ id ∧ ReflTransGen (h'.link 0 size) a b := by
  induction hwalk with
  | refl => exact ⟨ha, .refl⟩
  | @tail x y _ hxy ih =>
      have hlt := (hs.connected.links_lt x 0 y hxy.2).2
      refine ⟨hxy.1, ih.2.tail ⟨hkept x y ?_, by omega⟩⟩
      rw [neighbors_written, if_neg ih.1]
      exact hxy.2

/-- After the update, a wide search returns every other id. -/
theorem mem_search_after_update (hs : Undeleted s) (hroom : s.index.NoFullList) {id : Nat}
    (hid : id < s.count) (hbypassed : s.Bypassed id) (level : Nat) (vec : V) (metadata : Bytes)
    (query : V) {k : Int} (hk : (s.count : Int) ≤ k) (hint : k < 2 ^ 31) {i : Nat}
    (hi : i < s.count) (hne : i ≠ id) :
    i ∈ ids ((s.index.insert m level vec id metadata).search m query k) := by
  rcases hbypassed with hone | ⟨hentryNe, hupper, hconn⟩
  · omega
  rcases hs.connected.entry with ⟨hzero, -⟩ | ⟨e, hentry, he, hlayer, -⟩
  · omega
  have hene : e ≠ id := fun heq => hentryNe (heq ▸ hentry)
  rcases hs.linked_cases m hroom hid hentry he hlayer hene hupper level vec with
    ⟨selected, ⟨n, hn, hnlt, hnid⟩, hbottom, hclosed⟩
  simp only [← neighbors_insert m s.index level vec id metadata] at hbottom hclosed
  -- the entry point afterwards
  have hentry' : ∃ e', (s.index.insert m level vec id metadata).entryPointId = some e' ∧
      e' < s.count := by
    rw [entryPointId_insert]
    split
    · exact ⟨id, rfl, hid⟩
    · exact ⟨e, hentry, he⟩
  rcases hentry' with ⟨e', hentry', he'⟩
  have hstart : (s.index.insert m level vec id metadata).descendFrom m query 0 e' < s.count :=
    descendFrom_mem (S := (· < s.count)) (fun l _ _ => hclosed l) he'
  have hsize : ∀ c < s.count, s.count ≤ (s.index.insert m level vec id metadata).visitedSize c := by
    intro c hc
    have hle := hs.connected.count_le
    unfold noId at hle
    rw [visitedSize, elementCount_insert, hs.elementCount, countUp]
    omega
  have hwalk : ∀ a, a < s.count → a ≠ id → ∀ size, s.count ≤ size →
      ReflTransGen ((s.index.insert m level vec id metadata).link 0 size) a i := by
    intro a ha haid size hle
    exact (hs.reachable_of_avoids (fun x y hy => (hbottom x y).mpr (.inl hy)) hle haid
      (hconn a i ha hi haid hne)).2
  apply mem_search_of_reachable hentry' hk hint
  · intro x hx
    exact mem_of_reachable (S := (· < s.count)) (fun a ha b hab => hclosed 0 a ha b hab.1) hstart hx
  · generalize (s.index.insert m level vec id metadata).descendFrom m query 0 e' = start at hstart ⊢
    have hle := hsize start hstart
    by_cases hsid : start = id
    · have hfirst : (s.index.insert m level vec id metadata).link 0
          ((s.index.insert m level vec id metadata).visitedSize start) start n :=
        ⟨(hbottom start n).mpr (.inr (.inl ⟨hsid, hn⟩)), by omega⟩
      exact (ReflTransGen.single hfirst).trans (hwalk n hnlt hnid _ hle)
    · exact hwalk start hstart hsid _ hle
  · rw [(getNode_insert m s.index level vec id metadata i).2, if_neg hne]
    exact hs.live i hi

/-- After an update of the entry point, no search returns another id. -/
theorem search_after_update_of_entry (hs : Undeleted s) {id : Nat}
    (hentry : s.index.entryPointId = some id) (level : Nat) (vec : V) (metadata : Bytes)
    (query : V) (k : Int) {i : Nat}
    (hi : i ∈ ids ((s.index.insert m level vec id metadata).search m query k)) : i = id := by
  rcases hs.connected.entry with ⟨-, hnone⟩ | ⟨e, -, -, hlayer, -⟩
  · rw [hentry] at hnone
    cases hnone
  have hempty : ∀ l y, y ∉ (s.index.written vec id).neighbors id l := by
    intro l y hy
    rw [neighbors_written, if_pos rfl] at hy
    cases hy
  have hclosed₀ : ∀ l : Nat, 0 < l → l ≤ s.index.currentMaxLayer → ∀ x, x = id →
      ∀ y ∈ (s.index.written vec id).neighbors x l, y = id := by
    rintro l - - x rfl y hy
    exact absurd hy (hempty l y)
  rcases HNSW.linked_cases m level hentry hlayer hclosed₀ rfl with ⟨h', c, hlinked, hc, hupper⟩
  have hclosed : ∀ l x, x = id →
      ∀ y ∈ (s.index.insert m level vec id metadata).neighbors x l, y = id := by
    rintro l x rfl y hy
    rw [neighbors_insert, hlinked] at hy
    have hselected : ∀ n ∈ h'.selectNeighbors m vec 0 c, n = x := by
      intro n hn
      refine (mem_selectNeighbors (S := (· = x)) m ?_ hc hn).1
      rintro z rfl w hw
      rw [hupper.bottom] at hw
      exact absurd hw (hempty 0 w)
    rcases hupper.mem_neighbors m (fun n hn _ => hn) hselected hy with hold | ⟨-, hy'⟩ | ⟨hy', -⟩
    · exact absurd hold (hempty l y)
    · exact hy'
    · exact hy'
  have hentry' : (s.index.insert m level vec id metadata).entryPointId = some id := by
    rw [entryPointId_insert, hentry, ite_self]
  exact mem_of_mem_search (S := (· = id)) hclosed hentry' rfl hi

end Undeleted

/-! ## Runs -/

/-- In every state reached by admissible inserts of the next id, and for every id there
that is bypassed: after an insert of that id with any vector and any level, every search
with {lit}`k` at least the number of ids returns every other id. -/
theorem others_found_after_update (m : Metric V δ) {storageSize : Nat} {ops : List (Op V)}
    {s : Filling V}
    (hrun : Exec (Filling.step m) Filling.AdmissibleInsert (Filling.create storageSize) ops s)
    (hroom : s.index.NoFullList) (id : Nat) (hid : id < s.count) (hbypassed : s.Bypassed id)
    (level : Nat) (vec : V) (metadata : Bytes) (query : V) (k : Int) (hk : (s.count : Int) ≤ k)
    (hint : k < 2 ^ 31) (i : Nat) (hi : i < s.count) (hne : i ≠ id) :
    i ∈ HNSW.ids ((s.index.insert m level vec id metadata).search m query k) :=
  (undeleted_run m hrun).mem_search_after_update m hroom hid hbypassed level vec metadata query hk
    hint hi hne

instance (s : Filling V) (a : Op V) : Decidable (s.AdmissibleInsert a) :=
  match a with
  | .insert level vec metadata =>
      inferInstanceAs (Decidable (s.Admissible (.insert level vec metadata)))
  | .delete _ => inferInstanceAs (Decidable False)

/-- Three nodes, the entry point on layer 1; the second of them is updated. -/
theorem others_found_after_update_second :
    ∃ s : Filling Int, Exec (Filling.step lineMetric) Filling.AdmissibleInsert
        (Filling.create (100 * 1024 * 1024)) [.insert 1 5 [], .insert 0 7 [], .insert 0 9 []] s ∧
      s.Bypassed 1 ∧
      ∀ query, 2 ∈ HNSW.ids ((s.index.insert lineMetric 0 6 1 []).search lineMetric query 3) := by
  have hrun := Exec.of_guardedRun (Filling.step lineMetric) Filling.AdmissibleInsert
    (Filling.create (100 * 1024 * 1024)) [.insert 1 5 [], .insert 0 7 [], .insert 0 9 []]
    (by decide +kernel)
  generalize hs : Option.get _ _ = s at hrun
  have hcount : s.count = 3 := by
    rw [← hs]
    decide +kernel
  have hlayer : s.index.currentMaxLayer = 1 := by
    rw [← hs]
    decide +kernel
  have hupper : ∀ x < 3, 1 ∉ s.index.neighbors x 1 := by
    rw [← hs]
    decide +kernel
  have hlinks : 2 ∈ s.index.neighbors 0 0 ∧ 0 ∈ s.index.neighbors 2 0 := by
    rw [← hs]
    decide +kernel
  have hbypassed : s.Bypassed 1 := by
    refine .inr ⟨?_, ?_, ?_⟩
    · rw [← hs]
      decide +kernel
    · intro x l hpos hmax hmem
      have hl : l = 1 := by omega
      have hx := ((undeleted_run lineMetric hrun).connected.links_lt x l 1 hmem).1
      exact hupper x (by omega) (hl ▸ hmem)
    · intro i j hi hj hi1 hj1
      have hi' : i = 0 ∨ i = 2 := by omega
      have hj' : j = 0 ∨ j = 2 := by omega
      rcases hi' with rfl | rfl <;> rcases hj' with rfl | rfl
      · exact .refl
      · exact .single ⟨by decide, hlinks.1⟩
      · exact .single ⟨by decide, hlinks.2⟩
      · exact .refl
  have hroom : s.index.NoFullList := by
    rw [← hs]
    decide +kernel
  exact ⟨s, hrun, hbypassed, fun query => others_found_after_update lineMetric hrun hroom 1
    (by omega) hbypassed 0 6 [] query 3 (by omega) (by decide) 2 (by omega) (by decide)⟩

/-- Ids 0 and 1, then id 0, the entry point, gets a new vector: a search for the vector of
id 1 returns id 0 only. -/
theorem other_id_hidden :
    ¬ ∀ (ops : List (Op Int)) (s : Filling Int),
      Exec (Filling.step lineMetric) Filling.AdmissibleInsert
        (Filling.create (100 * 1024 * 1024)) ops s → s.index.NoFullList →
      ∀ id < s.count, ∀ level < maxLayers, ∀ (vec : Int) (metadata : Bytes) (query k : Int),
        (s.count : Int) ≤ k → k < 2 ^ 31 → ∀ i < s.count, i ≠ id →
          i ∈ HNSW.ids ((s.index.insert lineMetric level vec id metadata).search lineMetric query
            k) := by
  intro hall
  have hrun := Exec.of_guardedRun (Filling.step lineMetric) Filling.AdmissibleInsert
    (Filling.create (100 * 1024 * 1024)) [.insert 0 5 [], .insert 0 7 []] (by decide +kernel)
  exact absurd (hall _ _ hrun (by decide +kernel) 0 (by decide +kernel) 0 (by decide) 8 [] 7 2
    (by decide +kernel) (by decide) 1 (by decide +kernel) (by decide)) (by decide +kernel)

end NanoDB.Index
