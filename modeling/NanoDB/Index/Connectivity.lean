import Mathlib.Data.Int.ConditionallyCompleteOrder
import NanoDB.Index.Links
import NanoDB.Lib.Execution

/-!
# Live vectors and the layer-0 graph

Runs that insert the ids 0, 1, 2, ... and delete any ids in between.  Links are made in
both directions, so the nodes of a layer fall into components, and a search finds the
live nodes of the component of the entry point.

A new node is linked with live nodes only.  If none is met, it gets no link and stays
alone: this is so when every node is deleted, and it may be so when more than 2000 nodes
are, since {lit}`visited` is sized by the number of live ones and the start of the search.
Deletes of ids that were never written take the count below zero, until {lit}`visited` is
so long that it cannot be allocated and the call throws.

Main results:

- Theorem {lit}`Connected.insert`: an insert that meets a live node keeps all live nodes
  in the component of the entry point.
- Theorem {lit}`live_ids_found`: in a run of such inserts, every wide search from whose
  starts {lit}`visited` cuts nothing off returns every live id.
- Theorem {lit}`mem_search_iff`: a search returns no live id that is cut off.
-/

namespace NanoDB.Index

open NanoDB.Lib
open NanoDB.Storage (Bytes)
open Relation (ReflTransGen)

variable {V δ : Type*} [Zero V]

/-! ## Runs -/

/-- An operation: insert the next id, or delete some id. -/
inductive Op (V : Type*)
  | insert (level : Nat) (vec : V) (metadata : Bytes)
  | delete (id : Nat)

/-- An index and the number of ids that were inserted. -/
structure Filling (V : Type*) where
  index : HNSW V
  count : Nat := 0

namespace Filling

section Step

variable [Preorder δ] [DecidableLT δ] [PriorityQueue (Result δ)] (m : Metric V δ)

def step (s : Filling V) : Op V → Option (Filling V)
  | .insert level vec metadata =>
      some ⟨s.index.insertCall m level vec s.count metadata, s.count + 1⟩
  | .delete id => some ⟨s.index.deleteVector id, s.count⟩

end Step

/-- An id that was inserted and is not deleted. -/
def Live (s : Filling V) (i : Nat) : Prop :=
  i < s.count ∧ (s.index.getNode i).isDeleted = false

/-- The level has a row, the id is one and has a lock, and no list is full. -/
def Admissible (s : Filling V) : Op V → Prop
  | .insert level _ _ =>
      level < maxLayers ∧ s.count < noId ∧ s.count < (s.index.expandStorage s.count).nodeLocks ∧
        s.index.NoFullList
  | .delete _ => True

end Filling

namespace HNSW

/-- Connected by links of layer 0. -/
def Connects (h : HNSW V) : Nat → Nat → Prop :=
  ReflTransGen fun x y => y ∈ h.neighbors x 0

/-- The descent from the entry point {lit}`e` can end here: links of the layers above layer 0 lead
here. -/
def StartsAt (h : HNSW V) : Nat → Nat → Prop :=
  ReflTransGen fun x y => ∃ l, 0 < l ∧ y ∈ h.neighbors x l

/-- A search of layer 0 that starts at {lit}`c` can get there: by links to ids with a bit in
{lit}`visited`. -/
def Reaches (h : HNSW V) (c : Nat) : Nat → Prop :=
  ReflTransGen (h.link 0 (h.visitedSize c)) c

end HNSW

namespace Filling

/-- The insert can allocate its bitmap and meets a live node, wherever its search of layer 0
starts; or there is no live node and the new one becomes the entry point. -/
def MeetsLive (s : Filling V) : Op V → Prop
  | .insert level _ _ => ∀ e, s.index.entryPointId = some e →
      s.index.BitmapFits ∧
        ((∀ c, s.index.StartsAt e c → ∃ i, s.Live i ∧ s.index.Reaches c i) ∨
          ((∀ i < s.count, (s.index.getNode i).isDeleted = true) ∧
            s.index.currentMaxLayer < level))
  | .delete _ => True

/-- A search can allocate its bitmap, and the bitmap cuts no live node off that layer 0 connects
with the start, wherever the search starts. -/
def Uncut (s : Filling V) : Prop :=
  ∀ e, s.index.entryPointId = some e → s.index.BitmapFits ∧
    ∀ c, s.index.StartsAt e c → ∀ i, s.Live i → s.index.Connects c i → s.index.Reaches c i

end Filling

/-! ## The invariant -/

/-- The links lie between inserted ids; those of layer 0 go both ways and connect
whatever a link of any layer connects; and they connect every live node with the entry
point. -/
structure Connected (s : Filling V) : Prop where
  entry : (s.count = 0 ∧ s.index.entryPointId = none) ∨
    ∃ e, s.index.entryPointId = some e ∧ e < s.count ∧ 0 ≤ s.index.currentMaxLayer ∧
      ∀ i, s.Live i → s.index.Connects e i
  links_lt : ∀ x l y, y ∈ s.index.neighbors x l → x < s.count ∧ y < s.count
  symm : ∀ x y, y ∈ s.index.neighbors x 0 → x ∈ s.index.neighbors y 0
  connects : ∀ x l y, y ∈ s.index.neighbors x l → s.index.Connects x y
  locks : s.count ≤ s.index.nodeLocks
  count_le : s.count ≤ noId

namespace HNSW

theorem Connects.symm {h : HNSW V} (hsymm : ∀ x y, y ∈ h.neighbors x 0 → x ∈ h.neighbors y 0)
    {x y : Nat} (hxy : h.Connects x y) : h.Connects y x := by
  have : Std.Symm fun x y => y ∈ h.neighbors x 0 := ⟨hsymm⟩
  exact ReflTransGen.stdSymm.symm _ _ hxy

theorem Connects.mono {h h' : HNSW V} (hmono : ∀ x y, y ∈ h.neighbors x 0 → y ∈ h'.neighbors x 0)
    {x y : Nat} (hxy : h.Connects x y) : h'.Connects x y :=
  ReflTransGen.mono hmono _ _ hxy

omit [Zero V] in
/-- {lit}`visited` is never shorter than for entry point 0. -/
theorem visitedSize_le (h : HNSW V) {c : Nat} (hc : c < noId) :
    h.visitedSize 0 ≤ h.visitedSize c := by
  unfold visitedSize
  unfold noId at hc
  omega

end HNSW

namespace Connected

open HNSW

variable {s : Filling V}

/-- The component of the entry point is closed under the links of all layers. -/
theorem closed (hs : Connected s) (e : Nat) (l x : Nat) (hx : s.index.Connects e x) (y : Nat)
    (hy : y ∈ s.index.neighbors x l) : s.index.Connects e y :=
  hx.trans (hs.connects x l y hy)

theorem lt_of_connects (hs : Connected s) {e x : Nat} (he : e < s.count)
    (hx : s.index.Connects e x) :
    x < s.count := by
  induction hx with
  | refl => exact he
  | tail _ hstep _ => exact (hs.links_lt _ 0 _ hstep).2

/-- Where a search can start is in the component of the entry point. -/
theorem connects_of_startsAt (hs : Connected s) {e c : Nat} (hc : s.index.StartsAt e c) :
    s.index.Connects e c := by
  induction hc with
  | refl => exact .refl
  | tail _ hlink ih =>
      rcases hlink with ⟨l, -, hy⟩
      exact ih.trans (hs.connects _ l _ hy)

/-- Between connected nodes a search may go, if every inserted id has a bit. -/
theorem reaches_of_count_le (hs : Connected s) (hcovered : s.count ≤ s.index.visitedSize 0)
    {c x : Nat} (hc : c < s.count) (hx : s.index.Connects c x) : s.index.Reaches c x := by
  have hsize : s.count ≤ s.index.visitedSize c :=
    le_trans hcovered (visitedSize_le s.index (lt_of_lt_of_le hc hs.count_le))
  induction hx with
  | refl => exact .refl
  | tail _ hstep ih =>
      have hlt := (hs.links_lt _ 0 _ hstep).2
      exact ih.tail ⟨hstep, by omega⟩

/-- Writing the next id changes no link. -/
theorem neighbors_written (hs : Connected s) (vec : V) (x l : Nat) :
    (s.index.written vec s.count).neighbors x l = s.index.neighbors x l := by
  rw [HNSW.neighbors_written]
  split
  · next hx =>
      rw [hx]
      symm
      apply List.eq_nil_iff_forall_not_mem.mpr
      intro y hy
      have := (hs.links_lt _ l y hy).1
      omega
  · rfl

/-! ## Inserts -/

section Insert

variable [Preorder δ] [DecidableLT δ] [PriorityQueue (Result δ)] (m : Metric V δ)

/-- The links {lit}`h'` after an insert of the next id into an index with the entry point
{lit}`e`: {lit}`selected` are its neighbours on layer 0. -/
structure NextLinked (s : Filling V) (e : Nat) (selected : List Nat) (h' : HNSW V) : Prop where
  selected_live : ∀ n ∈ selected, s.index.Connects e n ∧ (s.index.getNode n).isDeleted = false
  bottom : ∀ x y, y ∈ h'.neighbors x 0 ↔
    y ∈ s.index.neighbors x 0 ∨ (x = s.count ∧ y ∈ selected) ∨ (y = s.count ∧ x ∈ selected)
  links : ∀ x l y, y ∈ h'.neighbors x l → y ∈ s.index.neighbors x l ∨
    (x = s.count ∧ s.index.Connects e y ∧ (s.index.getNode y).isDeleted = false) ∨
    (y = s.count ∧ s.index.Connects e x ∧ (s.index.getNode x).isDeleted = false)
  ne_nil : (∀ c, s.index.StartsAt e c → ∃ i, s.Live i ∧ s.index.Reaches c i) → selected ≠ []

/-- A live node that the beam search can get to is met, so that something is selected. -/
theorem selectNeighbors_ne_nil (hs : Connected s) {h' : HNSW V} {S : Nat → Prop} {vec : V}
    {c i : Nat} (hupper : UpperLinked (s.index.written vec s.count) s.count S h')
    (hi : s.Live i) (hreaches : s.index.Reaches c i) : h'.selectNeighbors m vec 0 c ≠ [] := by
  have hsize : h'.visitedSize c = s.index.visitedSize c := by
    rw [visitedSize, hupper.linksOnly.elementCount, elementCount_written, visitedSize]
  have hreach : ReflTransGen (h'.link 0 (h'.visitedSize c)) c i := by
    refine ReflTransGen.mono ?_ _ _ hreaches
    intro x y hxy
    rw [link, hupper.bottom, hs.neighbors_written, hsize]
    exact hxy
  have hlive : (h'.getNode i).isDeleted = false := by
    rw [hupper.linksOnly.isDeleted, getNode_written, if_neg (Nat.ne_of_lt hi.1)]
    exact hi.2
  have hfound : h'.searchLayer m c vec efConstruction 0 ≠ [] :=
    searchLayer_ne_nil (by decide) hreach hlive
  apply List.ne_nil_of_length_pos
  rw [length_selectNeighbors]
  exact lt_min (by decide) (List.length_pos_iff.mpr hfound)

theorem nextLinked (hs : Connected s) {e : Nat} (level : Nat) (vec : V) (metadata : Bytes)
    (hentry : s.index.entryPointId = some e) (he : e < s.count)
    (hlayer : 0 ≤ s.index.currentMaxLayer)
    (hlock : s.count < (s.index.expandStorage s.count).nodeLocks) (hroom : s.index.NoFullList) :
    ∃ selected, NextLinked s e selected (s.index.insert m level vec s.count metadata) := by
  have hclosed : ∀ l x, s.index.Connects e x →
      ∀ y ∈ (s.index.written vec s.count).neighbors x l, s.index.Connects e y := by
    intro l x hx y hy
    rw [hs.neighbors_written] at hy
    exact hs.closed e l x hx y hy
  have hstarts : ∀ l : Nat, 0 < l → l ≤ s.index.currentMaxLayer → ∀ x,
      s.index.Connects e x ∧ s.index.StartsAt e x →
      ∀ y ∈ (s.index.written vec s.count).neighbors x l,
        s.index.Connects e y ∧ s.index.StartsAt e y := by
    intro l hl _ x hx y hy
    refine ⟨hclosed l x hx.1 y hy, ?_⟩
    rw [hs.neighbors_written] at hy
    exact hx.2.tail ⟨l, hl, hy⟩
  rcases HNSW.linked_cases m level hentry hlayer hstarts ⟨.refl, .refl⟩ with
    ⟨h', c, hlinked, ⟨hc, hstart⟩, hupper⟩
  have hold : ∀ n, s.index.Connects e n →
      ((s.index.written vec s.count).getNode n).isDeleted = false →
      s.index.Connects e n ∧ (s.index.getNode n).isDeleted = false := by
    intro n hn hlive
    rw [getNode_written, if_neg (Nat.ne_of_lt (hs.lt_of_connects he hn))] at hlive
    exact ⟨hn, hlive⟩
  have hselected : ∀ n ∈ h'.selectNeighbors m vec 0 c,
      s.index.Connects e n ∧ (s.index.getNode n).isDeleted = false := by
    intro n hn
    rcases mem_selectNeighbors (S := s.index.Connects e) m
      (fun x hx y hy => hclosed 0 x hx y (hupper.bottom x ▸ hy)) hc hn with ⟨hconnects, hlive⟩
    rw [hupper.linksOnly.isDeleted] at hlive
    exact hold n hconnects hlive
  refine ⟨h'.selectNeighbors m vec 0 c, hselected, ?_, ?_, ?_⟩
  · intro x y
    rw [neighbors_insert, hlinked, mem_neighbors_linked_iff m hupper hroom hlock,
      hs.neighbors_written]
    intro n hn
    have := hs.lt_of_connects he (hselected n hn).1
    omega
  · intro x l y hy
    rw [neighbors_insert, hlinked] at hy
    rw [← hs.neighbors_written vec x l]
    exact hupper.mem_neighbors m (fun n hn hlive => hold n hn.1 hlive) hselected hy
  · intro hmeets
    rcases hmeets c hstart with ⟨i, hi, hreaches⟩
    exact hs.selectNeighbors_ne_nil m hupper hi hreaches

/-- The first insert. -/
theorem insert_first (hs : Connected s) {level : Nat} (vec : V) (metadata : Bytes)
    (hcount : s.count = 0) (hentry : s.index.entryPointId = none)
    (hlock : s.count < (s.index.expandStorage s.count).nodeLocks) (hid : s.count < noId) :
    Connected ⟨s.index.insert m level vec s.count metadata, s.count + 1⟩ := by
  have hnone : ∀ x l y, y ∉ (s.index.insert m level vec s.count metadata).neighbors x l := by
    intro x l y hy
    rw [neighbors_insert, linked, hentry] at hy
    dsimp only at hy
    rw [hs.neighbors_written] at hy
    have := (hs.links_lt x l y hy).1
    omega
  refine ⟨.inr ⟨s.count, ?_, Nat.lt_succ_self _, ?_, ?_⟩, ?_, ?_, ?_, ?_, hid⟩
  · rw [entryPointId_insert, if_pos (.inl hentry)]
  · rw [currentMaxLayer_insert, if_pos (.inl hentry)]
    omega
  · intro i hi
    have hi' : i < s.count + 1 := hi.1
    have heq : i = s.count := by omega
    rw [heq]
    exact .refl
  · exact fun x l y hy => absurd hy (hnone x l y)
  · exact fun x y hy => absurd hy (hnone x 0 y)
  · exact fun x l y hy => absurd hy (hnone x l y)
  · dsimp only
    rw [nodeLocks_insert]
    omega

section NextLinked

omit [Preorder δ] [DecidableLT δ]

variable {e : Nat} {selected : List Nat} {h' : HNSW V}

theorem NextLinked.symm (hs : Connected s) (hlinked : NextLinked s e selected h') (x y : Nat)
    (hy : y ∈ h'.neighbors x 0) : x ∈ h'.neighbors y 0 := by
  rw [hlinked.bottom] at hy ⊢
  rcases hy with hold | hnew | hnew
  · exact .inl (hs.symm x y hold)
  · exact .inr (.inr hnew)
  · exact .inr (.inl hnew)

theorem NextLinked.mono (hlinked : NextLinked s e selected h') {x y : Nat}
    (hxy : s.index.Connects x y) : h'.Connects x y :=
  hxy.mono fun x y hy => (hlinked.bottom x y).mpr (.inl hy)

theorem NextLinked.links_lt (hs : Connected s) (hlinked : NextLinked s e selected h')
    (he : e < s.count) {x l y : Nat} (hy : y ∈ h'.neighbors x l) :
    x < s.count + 1 ∧ y < s.count + 1 := by
  rcases hlinked.links x l y hy with hold | ⟨rfl, hconnects, -⟩ | ⟨rfl, hconnects, -⟩
  · have := hs.links_lt x l y hold
    omega
  · have := hs.lt_of_connects he hconnects
    omega
  · have := hs.lt_of_connects he hconnects
    omega

/-- The new node is connected with every live node of the component of the entry point:
through one that was selected for it. -/
theorem NextLinked.connects_new (hs : Connected s) (hlinked : NextLinked s e selected h')
    (he : e < s.count) {level : Nat} {vec : V} {metadata : Bytes}
    (hentry : s.index.entryPointId = some e)
    (hmeets : s.MeetsLive (.insert level vec metadata)) {y : Nat} (hy : s.index.Connects e y)
    (hlive : (s.index.getNode y).isDeleted = false) : h'.Connects s.count y := by
  have hlt := hs.lt_of_connects he hy
  rcases (hmeets e hentry).2 with hmet | ⟨hdead, -⟩
  · have hne := hlinked.ne_nil hmet
    rcases List.exists_mem_of_ne_nil _ hne with ⟨n, hn⟩
    have hfirst : h'.Connects s.count n :=
      .single ((hlinked.bottom _ _).mpr (.inr (.inl ⟨rfl, hn⟩)))
    have hback : s.index.Connects n e := Connects.symm hs.symm (hlinked.selected_live n hn).1
    exact hfirst.trans (hlinked.mono (hback.trans hy))
  · rw [hdead y hlt] at hlive
    contradiction

end NextLinked

/-- The live ids after an insert. -/
theorem live_insert {level : Nat} {vec : V} {metadata : Bytes} {i : Nat}
    (hi : (⟨s.index.insert m level vec s.count metadata, s.count + 1⟩ : Filling V).Live i) :
    i = s.count ∨ s.Live i := by
  rcases hi with ⟨hlt, hlive⟩
  by_cases heq : i = s.count
  · exact .inl heq
  · dsimp only at hlt hlive
    rw [(getNode_insert m s.index level vec s.count metadata i).2, if_neg heq] at hlive
    exact .inr ⟨by omega, hlive⟩

/-- An insert that meets a live node, or that becomes the entry point where there is
none. -/
theorem insert (hs : Connected s) {level : Nat} {vec : V} {metadata : Bytes}
    (hadmissible : s.Admissible (.insert level vec metadata))
    (hmeets : s.MeetsLive (.insert level vec metadata)) :
    Connected ⟨s.index.insert m level vec s.count metadata, s.count + 1⟩ := by
  rcases hadmissible with ⟨-, hid, hlock, hroom⟩
  rcases hs.entry with ⟨hcount, hentry⟩ | ⟨e, hentry, he, hlayer, hlive⟩
  · exact hs.insert_first m vec metadata hcount hentry hlock hid
  · rcases hs.nextLinked m level vec metadata hentry he hlayer hlock hroom with
      ⟨selected, hlinked⟩
    have hnew : ∀ y, s.index.Connects e y → (s.index.getNode y).isDeleted = false →
        (s.index.insert m level vec s.count metadata).Connects s.count y := fun y hy hylive =>
      hlinked.connects_new hs he hentry hmeets hy hylive
    refine ⟨.inr ?_, fun x l y => hlinked.links_lt hs he, hlinked.symm hs, ?_, ?_, hid⟩
    · dsimp only
      rw [entryPointId_insert, currentMaxLayer_insert]
      split
      · -- the new node is the entry point
        refine ⟨s.count, rfl, Nat.lt_succ_self _, by omega, ?_⟩
        intro i hi
        rcases live_insert m hi with rfl | hold
        · exact .refl
        · exact hnew i (hlive i hold) hold.2
      · next hnot =>
          refine ⟨e, hentry, by omega, hlayer, ?_⟩
          intro i hi
          rcases live_insert m hi with rfl | hold
          · rcases (hmeets e hentry).2 with hmet | ⟨-, hhigher⟩
            · rcases hmet e .refl with ⟨j, hj, -⟩
              have hej := hlive j hj
              exact (hlinked.mono hej).trans (Connects.symm (hlinked.symm hs) (hnew j hej hj.2))
            · exact absurd (.inr hhigher) hnot
          · exact hlinked.mono (hlive i hold)
    · intro x l y hy
      rcases hlinked.links x l y hy with hold | ⟨rfl, hconnects, hylive⟩ | ⟨rfl, hconnects, hxlive⟩
      · exact hlinked.mono (hs.connects x l y hold)
      · exact hnew y hconnects hylive
      · exact Connects.symm (hlinked.symm hs) (hnew x hconnects hxlive)
    · dsimp only
      rw [nodeLocks_insert]
      omega

end Insert

/-! ## Deletes -/

theorem delete (hs : Connected s) (id : Nat) : Connected ⟨s.index.deleteVector id, s.count⟩ := by
  rcases s.index.deleteVector_keeps id with ⟨hentry, hlayer, hlocks, -, -⟩
  have hconnects : (s.index.deleteVector id).Connects = s.index.Connects := by
    unfold Connects
    simp only [neighbors_deleteVector]
  have hlive : ∀ i, (⟨s.index.deleteVector id, s.count⟩ : Filling V).Live i → s.Live i := by
    rintro i ⟨hlt, hi⟩
    refine ⟨hlt, ?_⟩
    dsimp only at hi
    rw [getNode_deleteVector] at hi
    split at hi
    · contradiction
    · exact hi
  refine ⟨?_, ?_, ?_, ?_, ?_, hs.count_le⟩
  · dsimp only
    rw [hentry, hlayer, hconnects]
    rcases hs.entry with hnone | ⟨e, he, hlt, hlayer', hall⟩
    · exact .inl hnone
    · exact .inr ⟨e, he, hlt, hlayer', fun i hi => hall i (hlive i hi)⟩
  · simp only [neighbors_deleteVector]
    exact hs.links_lt
  · simp only [neighbors_deleteVector]
    exact hs.symm
  · simp only [neighbors_deleteVector, hconnects]
    exact hs.connects
  · dsimp only
    rw [hlocks]
    exact hs.locks

/-! ## Searches -/

section Search

variable [Preorder δ] [DecidableLT δ] [PriorityQueue (Result δ)] (m : Metric V δ)

/-- A wide search returns the live ids that it reaches from the end of its descent. -/
theorem mem_search_iff (hs : Connected s) {e : Nat} (hentry : s.index.entryPointId = some e)
    (query : V) {k : Int} (hk : (s.count : Int) ≤ k) (hint : k < 2 ^ 31) {i : Nat}
    (hi : s.Live i) :
    i ∈ ids (s.index.search m query k) ↔
      s.index.Reaches (s.index.descendFrom m query 0 e) i := by
  constructor
  · intro hmem
    rcases List.mem_map.mp (mem_searchLayer_of_mem_search hentry hmem) with ⟨r, hr, rfl⟩
    exact (searchLayer_sound m s.index query (efSearch k) 0 _ hr).1
  · intro hreaches
    rcases hs.entry with ⟨-, hnone⟩ | ⟨e', hentry', he, -, -⟩
    · rw [hnone] at hentry
      cases hentry
    · rw [← Option.some.inj (hentry.symm.trans hentry')] at he
      have hstart : s.index.Connects e (s.index.descendFrom m query 0 e) :=
        descendFrom_mem (fun l _ _ x hx y hy => hs.closed e l x hx y hy) .refl
      have hlt := hs.lt_of_connects he hstart
      apply mem_search_of_reachable hentry hk hint _ hreaches hi.2
      intro x hx
      exact hs.lt_of_connects hlt (ReflTransGen.mono (fun a b hab => hab.1) _ _ hx)

/-- A wide search whose bitmap cuts nothing off returns every live id. -/
theorem search_found (hs : Connected s) (huncut : s.Uncut) (query : V) {k : Int}
    (hk : (s.count : Int) ≤ k) (hint : k < 2 ^ 31) :
    ∃ results, s.index.searchChecked m query k = some results ∧
      ∀ i, s.Live i → i ∈ ids results := by
  rcases hs.entry with ⟨hcount, hentry⟩ | ⟨e, hentry, he, -, hlive⟩
  · refine ⟨s.index.search m query k, ?_, ?_⟩
    · rw [searchChecked, hentry]
    · intro i hi
      have := hi.1
      omega
  · rcases huncut e hentry with ⟨hfits, hreaches⟩
    have hstart : s.index.StartsAt e (s.index.descendFrom m query 0 e) :=
      descendFrom_mem (fun l hl _ x hx y hy => hx.tail ⟨l, hl, hy⟩) .refl
    have hconnects := hs.connects_of_startsAt hstart
    refine ⟨s.index.search m query k, ?_, ?_⟩
    · have hlt := hs.lt_of_connects he hconnects
      have hle := hs.count_le
      unfold noId at hle
      rw [searchChecked, hentry]
      dsimp only
      rw [if_pos ((visitedSize_le_maxBits_iff s.index (by omega)).mpr hfits)]
    · intro i hi
      apply (hs.mem_search_iff m hentry query hk hint hi).mpr
      exact hreaches _ hstart i hi ((Connects.symm hs.symm hconnects).trans (hlive i hi))

/-- The other way round: a node that is inserted where every node is deleted, and does not
become the entry point, is live and is returned by no search. -/
theorem notMem_search_of_dead (hs : Connected s) {level : Nat} {vec : V} {metadata : Bytes}
    (hadmissible : s.Admissible (.insert level vec metadata)) (hcount : 0 < s.count)
    (hdead : ∀ i < s.count, (s.index.getNode i).isDeleted = true)
    (hlevel : (level : Int) ≤ s.index.currentMaxLayer) (query : V) (k : Int) :
    s.count ∉ ids ((s.index.insert m level vec s.count metadata).search m query k) := by
  rcases hadmissible with ⟨-, -, hlock, hroom⟩
  rcases hs.entry with ⟨hzero, -⟩ | ⟨e, hentry, he, hlayer, -⟩
  · omega
  · rcases hs.nextLinked m level vec metadata hentry he hlayer hlock hroom with
      ⟨selected, hlinked⟩
    have hclosed : ∀ l x, x < s.count →
        ∀ y ∈ (s.index.insert m level vec s.count metadata).neighbors x l, y < s.count := by
      intro l x hx y hy
      rcases hlinked.links x l y hy with hold | ⟨rfl, -⟩ | ⟨-, -, hlive⟩
      · exact (hs.links_lt x l y hold).2
      · omega
      · rw [hdead x hx] at hlive
        contradiction
    have hentry' : (s.index.insert m level vec s.count metadata).entryPointId = some e := by
      rw [entryPointId_insert, hentry, if_neg]
      simp only [reduceCtorEq, false_or, not_lt]
      exact hlevel
    intro hmem
    have hlt := mem_of_mem_search (S := (· < s.count)) hclosed hentry' he hmem
    exact lt_irrefl _ hlt

end Search

end Connected

/-! ## Runs -/

section Run

variable [Preorder δ] [DecidableLT δ] [PriorityQueue (Result δ)] (m : Metric V δ)

/-- A new index on a file of the given length. -/
def Filling.create (storageSize : Nat) : Filling V where
  index := { storageSize := storageSize }

theorem connected_create (storageSize : Nat) :
    Connected (Filling.create storageSize : Filling V) where
  entry := .inl ⟨rfl, rfl⟩
  links_lt x l y hy := by cases hy
  symm x y hy := by cases hy
  connects x l y hy := by cases hy
  locks := Nat.zero_le _
  count_le := Nat.zero_le _

theorem Connected.step {s s' : Filling V} (hs : Connected s) {a : Op V}
    (hok : s.Admissible a ∧ s.MeetsLive a) (hstep : s.step m a = some s') : Connected s' := by
  cases a with
  | insert level vec metadata =>
      have hcalled : s.index.entryPointId = none ∨ s.index.BitmapFits := by
        cases hentry : s.index.entryPointId with
        | none => exact .inl rfl
        | some e => exact .inr (hok.2 e hentry).1
      rw [← Option.some.inj hstep, HNSW.insertCall, if_pos hcalled]
      exact hs.insert m hok.1 hok.2
  | delete id =>
      rw [← Option.some.inj hstep]
      exact hs.delete id

theorem connected_run {storageSize : Nat} {ops : List (Op V)} {s : Filling V}
    (hrun : Exec (Filling.step m) (fun s a => s.Admissible a ∧ s.MeetsLive a)
      (Filling.create storageSize) ops s) : Connected s :=
  hrun.invariant Connected (fun _ _ _ hs hok hstep => hs.step m hok hstep)
    (connected_create storageSize)

/-- In every run whose inserts meet a live node, and from whose last state no search is cut off:
every search with {lit}`k` at least the number of inserted ids returns every live id. -/
theorem live_ids_found {storageSize : Nat} {ops : List (Op V)} {s : Filling V}
    (hrun : Exec (Filling.step m) (fun s a => s.Admissible a ∧ s.MeetsLive a)
      (Filling.create storageSize) ops s) (huncut : s.Uncut) (query : V) (k : Int)
    (hk : (s.count : Int) ≤ k) (hint : k < 2 ^ 31) :
    ∃ results, s.index.searchChecked m query k = some results ∧
      ∀ i, s.Live i → i ∈ HNSW.ids results :=
  (connected_run m hrun).search_found m huncut query hk hint

/-- {lit}`visited` has a bit for every inserted id, wherever a search starts. -/
def Filling.Covered (s : Filling V) : Prop :=
  s.index.BitmapFits ∧ s.count ≤ s.index.visitedSize 0

omit [Preorder δ] [DecidableLT δ] [PriorityQueue (Result δ)] in
theorem Connected.uncut {s : Filling V} (hs : Connected s) (hcovered : s.Covered) : s.Uncut := by
  intro e hentry
  refine ⟨hcovered.1, ?_⟩
  intro c hstart i _ hconnects
  rcases hs.entry with ⟨-, hnone⟩ | ⟨e', hentry', he, -, -⟩
  · rw [hnone] at hentry
    cases hentry
  · rw [Option.some.inj (hentry.symm.trans hentry')] at hstart
    exact hs.reaches_of_count_le hcovered.2
      (hs.lt_of_connects he (hs.connects_of_startsAt hstart)) hconnects

/-- The insert is the first one, or {lit}`visited` has a bit for every id and some id is live. -/
def Filling.MeetsCovered (s : Filling V) : Op V → Prop
  | .insert _ _ _ => s.index.entryPointId = none ∨ (s.Covered ∧ ∃ i < s.count, s.Live i)
  | .delete _ => True

omit [Preorder δ] [DecidableLT δ] [PriorityQueue (Result δ)] in
theorem Connected.meetsLive {s : Filling V} (hs : Connected s) {a : Op V}
    (hcovered : s.MeetsCovered a) : s.MeetsLive a := by
  cases a with
  | delete id => trivial
  | insert level vec metadata =>
      intro e hentry
      rcases hcovered with hnone | ⟨hcovered, i, -, hi⟩
      · rw [hnone] at hentry
        cases hentry
      · rcases hs.entry with ⟨-, hnone⟩ | ⟨e', hentry', -, -, hlive⟩
        · rw [hnone] at hentry
          cases hentry
        · rw [← Option.some.inj (hentry.symm.trans hentry')] at hlive
          refine ⟨hcovered.1, .inl ?_⟩
          intro c hstart
          have hback := HNSW.Connects.symm hs.symm (hs.connects_of_startsAt hstart)
          exact ⟨i, hi, (hs.uncut hcovered e hentry).2 c hstart i hi (hback.trans (hlive i hi))⟩

instance (s : Filling V) : Decidable s.Covered :=
  inferInstanceAs (Decidable (_ ∧ _))

instance (s : Filling V) (i : Nat) : Decidable (s.Live i) :=
  inferInstanceAs (Decidable (_ ∧ _))

instance (s : Filling V) (a : Op V) : Decidable (s.Admissible a) :=
  match a with
  | .insert _ _ _ => inferInstanceAs (Decidable (_ ∧ _ ∧ _ ∧ _))
  | .delete _ => inferInstanceAs (Decidable True)

instance (s : Filling V) (a : Op V) : Decidable (s.MeetsCovered a) :=
  match a with
  | .insert _ _ _ => inferInstanceAs (Decidable (_ ∨ (_ ∧ _)))
  | .delete _ => inferInstanceAs (Decidable True)

/-- While some node is live and {lit}`visited` has a bit for every id, every insert meets a live
node. -/
theorem meetsLive_run {storageSize : Nat} {ops : List (Op V)} {s : Filling V}
    (hrun : Exec (Filling.step m) (fun s a => s.Admissible a ∧ s.MeetsCovered a)
      (Filling.create storageSize) ops s) :
    Exec (Filling.step m) (fun s a => s.Admissible a ∧ s.MeetsLive a)
      (Filling.create storageSize) ops s := by
  apply hrun.strengthen Connected _ _ (connected_create storageSize)
  · intro s a s' hs hok hstep
    exact hs.step m ⟨hok.1, hs.meetsLive hok.2⟩ hstep
  · intro s a hs hok
    exact ⟨hok.1, hs.meetsLive hok.2⟩

end Run

/-! ## Two runs -/

/-- Vectors with one coordinate that is not zero, under {lit}`l2_distance`. -/
def lineMetric : Metric Int Int where
  dist a b := (a - b) * (a - b)
  minusOne := -1

/-- Three inserts with one delete before the last. -/
theorem live_ids_found_oneDeleted :
    ∃ s : Filling Int, Exec (Filling.step lineMetric) (fun s a => s.Admissible a ∧ s.MeetsLive a)
        (Filling.create (100 * 1024 * 1024))
        [.insert 0 5 [], .insert 1 7 [], .delete 0, .insert 0 9 []] s ∧
      s.Uncut ∧ s.Live 2 ∧
      ∀ query, ∃ results, s.index.searchChecked lineMetric query 3 = some results ∧
        ∀ i, s.Live i → i ∈ HNSW.ids results := by
  have hcovered := Exec.of_guardedRun (Filling.step lineMetric)
    (fun s a => s.Admissible a ∧ s.MeetsCovered a) (Filling.create (100 * 1024 * 1024))
    [.insert 0 5 [], .insert 1 7 [], .delete 0, .insert 0 9 []] (by decide +kernel)
  have hrun := meetsLive_run lineMetric hcovered
  have huncut := (connected_run lineMetric hrun).uncut (by decide +kernel)
  exact ⟨_, hrun, huncut, by decide +kernel, fun query => live_ids_found lineMetric hrun huncut
    query 3 (by decide +kernel) (by decide)⟩

/-- Insert id 0, delete it, insert id 1: id 1 has no link, the entry point is still the
deleted node, and a search for id 1's own vector returns nothing. -/
theorem live_id_hidden :
    ¬ ∀ (ops : List (Op Int)) (s : Filling Int),
      Exec (Filling.step lineMetric) Filling.Admissible (Filling.create (100 * 1024 * 1024)) ops s →
      ∀ (query k : Int), (s.count : Int) ≤ k → k < 2 ^ 31 →
        ∃ results, s.index.searchChecked lineMetric query k = some results ∧
          ∀ i, s.Live i → i ∈ HNSW.ids results := by
  intro hall
  have hrun := Exec.of_guardedRun (Filling.step lineMetric) Filling.Admissible
    (Filling.create (100 * 1024 * 1024))
    [.insert 0 5 [], .delete 0, .insert 0 7 []] (by decide +kernel)
  rcases hall _ _ hrun 7 2 (by decide +kernel) (by decide) with ⟨results, hsearch, hfound⟩
  have hnil : results = [] :=
    Option.some.inj (hsearch.symm.trans (by decide +kernel))
  have hmem := hfound 1 (by decide +kernel)
  rw [hnil] at hmem
  cases hmem

end NanoDB.Index
