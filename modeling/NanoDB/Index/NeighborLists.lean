import NanoDB.Index.Congruence
import NanoDB.Index.FullList

/-!
# Well-formed neighbour lists

{lit}`add_link` appends or replaces and looks for neither duplicates nor the node itself.  An id
that is inserted for the first time is in no list, so no search finds it and no list gets it
twice.  An id that is inserted again is: the entry point or a stale link can lead a search back
to it, and a node that kept a link to it gets another one.

Which neighbours {lit}`insert` links depends on the index with the new slot only: a search on a
layer does not see what was linked on the layers above.  Of candidates at equal distances the
heaps choose one, so a search can find a way back with one queue and none with another.  No
search leaves the nodes that links lead to: where no path leads from the entry point to the id,
there is no way back for any queue.

Main results:

- Theorem {lit}`Tidy.linkAll`: what one layer of an insert keeps.
- Theorem {lit}`tidy_linked_iff`: an insert that finds a way back leaves a list that is not tidy,
  and only such an insert.
- Theorem {lit}`not_tidy_linked_of_leadsTo`: in a small index an insert of an id that a path
  leads to finds one with every queue.
- Theorem {lit}`lists_well_formed`: in every run without such inserts the lists are well formed.
-/

namespace NanoDB.Index

open NanoDB.Lib
open NanoDB.Storage (Bytes)
open Relation (ReflTransGen)

variable {V δ : Type*} [Zero V]

namespace HNSW

/-! ## One link -/

section AddLink

variable [Preorder δ] [DecidableLT δ] (m : Metric V δ)

/-- Whether {lit}`add_link` puts {lit}`dest` in the place of the member that it finds in a full
list. -/
def Evicts (h : HNSW V) (src dest layer : Nat) : Prop :=
  match h.farthestNeighbor m (h.getNode src).vector (h.neighbors src layer) with
  | (none, _) => False
  | (some _, maxD) => h.distanceTo m (h.getNode src).vector dest < maxD

/-- A new link to {lit}`dest` does not make it a member twice: it is not a member, or the list is
full and stays. -/
def NoSecond (h : HNSW V) (src dest layer : Nat) : Prop :=
  dest ∈ h.neighbors src layer →
    maxConn layer ≤ (h.neighbors src layer).length ∧ ¬ h.Evicts m src dest layer

instance (h : HNSW V) (src dest layer : Nat) : Decidable (h.Evicts m src dest layer) :=
  match hscan : h.farthestNeighbor m (h.getNode src).vector (h.neighbors src layer) with
  | (none, _) => .isFalse (by simp [Evicts, hscan])
  | (some _, maxD) =>
      decidable_of_iff (h.distanceTo m (h.getNode src).vector dest < maxD) (by simp [Evicts, hscan])

instance (h : HNSW V) (src dest layer : Nat) : Decidable (h.NoSecond m src dest layer) :=
  inferInstanceAs (Decidable (_ → _))

/-- What {lit}`add_link` does to the list. -/
theorem addLink_cases (h : HNSW V) (src dest layer : Nat) :
    (h.addLink m src dest layer).neighbors src layer = h.neighbors src layer ∨
      ((h.neighbors src layer).length < maxConn layer ∧
        (h.addLink m src dest layer).neighbors src layer = h.neighbors src layer ++ [dest]) ∨
      (maxConn layer ≤ (h.neighbors src layer).length ∧ h.Evicts m src dest layer ∧
        ∃ i < (h.neighbors src layer).length,
          (h.addLink m src dest layer).neighbors src layer =
            (h.neighbors src layer).set i dest) := by
  rcases Nat.lt_or_ge src h.nodeLocks with hlock | hno
  · rcases Nat.lt_or_ge (h.neighbors src layer).length (maxConn layer) with hroom | hfull
    · exact .inr (.inl ⟨hroom, neighbors_addLink_self m h dest hlock hroom⟩)
    · rw [neighbors_addLink_full hlock hfull, Evicts, farthestNeighbor_eq_scanMax]
      rcases scanMax_eq_or (d := h.distanceTo m (h.getNode src).vector) 0 (none, m.minusOne)
        (h.neighbors src layer) with heq | ⟨i, hi, heq⟩
      · rw [heq]
        exact .inl rfl
      · rw [heq, Nat.zero_add]
        dsimp only
        split
        · next hcloser => exact .inr (.inr ⟨hfull, hcloser, i, hi, rfl⟩)
        · exact .inl rfl
  · rw [addLink, if_pos hno]
    exact .inl rfl

/-- A list of a node on a layer: no longer than its row, without duplicates and without the node
itself. -/
structure TidyList (x l : Nat) (list : List Nat) : Prop where
  length_le : list.length ≤ maxConn l
  nodup : list.Nodup
  not_self : x ∉ list

/-- All lists of an index are tidy. -/
def Tidy (h : HNSW V) : Prop :=
  ∀ x l, TidyList x l (h.neighbors x l)

variable {m} {h : HNSW V}

theorem Tidy.addLink (ht : h.Tidy) {src dest layer : Nat} (hne : src ≠ dest)
    (hsecond : h.NoSecond m src dest layer) : (h.addLink m src dest layer).Tidy := by
  intro x l
  by_cases hat : x = src ∧ l = layer
  · rcases hat with ⟨rfl, rfl⟩
    have hold := ht x l
    rcases addLink_cases m h x dest l with heq | ⟨hroom, heq⟩ | ⟨hfull, hevicts, i, hi, heq⟩
    · rw [heq]
      exact hold
    · have hnew : dest ∉ h.neighbors x l := fun hin => by
        have := (hsecond hin).1
        omega
      rw [heq]
      refine ⟨?_, ?_, ?_⟩
      · rw [List.length_append, List.length_singleton]
        exact hroom
      · exact List.nodup_append.mpr ⟨hold.nodup, List.nodup_singleton dest,
          fun a ha b hb heq => hnew (List.mem_singleton.mp hb ▸ heq ▸ ha)⟩
      · rw [List.mem_append, List.mem_singleton, not_or]
        exact ⟨hold.not_self, hne⟩
    · have hnew : dest ∉ h.neighbors x l := fun hin => (hsecond hin).2 hevicts
      rw [heq]
      refine ⟨?_, hold.nodup.set hnew, ?_⟩
      · rw [List.length_set]
        exact hold.length_le
      · intro hin
        rcases List.mem_or_eq_of_mem_set hin with hin | hself
        · exact hold.not_self hin
        · exact hne hself
  · rw [neighbors_addLink_of_ne m h hat]
    exact ht x l

end AddLink

/-! ## One layer -/

section LinkAll

variable [Preorder δ] [DecidableLT δ] {m : Metric V δ} {h h' : HNSW V} {id layer : Nat}
  {selected : List Nat}

omit [Preorder δ] [DecidableLT δ] in
theorem distanceTo_congr (hlinks : LinksOnly h h') (vector : V) :
    h'.distanceTo m vector = h.distanceTo m vector := by
  ext n
  rw [distanceTo, distanceTo, hlinks.vector n]

theorem noSecond_congr (hlinks : LinksOnly h h') {src : Nat} (dest : Nat)
    (hsame : h'.neighbors src layer = h.neighbors src layer) :
    h'.NoSecond m src dest layer ↔ h.NoSecond m src dest layer := by
  rw [NoSecond, NoSecond, Evicts, Evicts, farthestNeighbor_eq_scanMax,
    farthestNeighbor_eq_scanMax, hsame, hlinks.vector src, distanceTo_congr hlinks]

/-- What the links of a node and its selected neighbours on a layer keep tidy: there is room for
them in the list of the node, and none of the neighbours gets it twice. -/
structure Linkable (m : Metric V δ) (h : HNSW V) (id layer : Nat) (selected : List Nat) :
    Prop where
  nodup : selected.Nodup
  not_self : id ∉ selected
  not_linked : ∀ n ∈ selected, n ∉ h.neighbors id layer
  room : (h.neighbors id layer).length + selected.length ≤ maxConn layer
  no_second : ∀ n ∈ selected, h.NoSecond m n id layer

theorem Tidy.linkAll (ht : h.Tidy) (hlinkable : Linkable m h id layer selected) :
    (h.linkAll m id layer selected).Tidy := by
  induction selected generalizing h with
  | nil => exact ht
  | cons n selected ih =>
      rcases hlinkable with ⟨hnodup, hself, hnot, hroom, hsecond⟩
      rw [List.nodup_cons] at hnodup
      rw [List.mem_cons, not_or] at hself
      rw [List.length_cons] at hroom
      have hfirst : (h.addLink m id n layer).Tidy := by
        apply ht.addLink hself.1
        exact fun hin => absurd hin (hnot n List.mem_cons_self)
      have hlinks := linksOnly_addLink m h id n layer
      have hother : ∀ x, x ≠ id → (h.addLink m id n layer).neighbors x layer =
          h.neighbors x layer := by
        intro x hx
        exact neighbors_addLink_of_ne m h fun hc => hx hc.1
      have hboth : ((h.addLink m id n layer).addLink m n id layer).Tidy := by
        apply hfirst.addLink (Ne.symm hself.1)
        exact (noSecond_congr hlinks id (hother n (Ne.symm hself.1))).mpr
          (hsecond n List.mem_cons_self)
      -- the other lists are those of before, and the list of the node is at most one longer
      have hlinks' := linksOnly_addLink_pair m h id n layer
      have hid : ((h.addLink m id n layer).addLink m n id layer).neighbors id layer =
          (h.addLink m id n layer).neighbors id layer :=
        neighbors_addLink_of_ne m _ fun hc => hself.1 hc.1
      have hgrow : (h.addLink m id n layer).neighbors id layer = h.neighbors id layer ∨
          (h.addLink m id n layer).neighbors id layer = h.neighbors id layer ++ [n] := by
        rcases addLink_cases m h id n layer with heq | ⟨-, heq⟩ | ⟨hfull, -⟩
        · exact .inl heq
        · exact .inr heq
        · omega
      apply ih hboth
      refine ⟨hnodup.2, hself.2, ?_, ?_, ?_⟩
      · intro n' hn' hin
        rw [hid] at hin
        rcases hgrow with heq | heq
        · rw [heq] at hin
          exact hnot n' (List.mem_cons_of_mem _ hn') hin
        · rw [heq, List.mem_append, List.mem_singleton] at hin
          rcases hin with hin | rfl
          · exact hnot n' (List.mem_cons_of_mem _ hn') hin
          · exact hnodup.1 hn'
      · rw [hid]
        rcases hgrow with heq | heq
        · rw [heq]
          omega
        · rw [heq, List.length_append, List.length_singleton]
          omega
      · intro n' hn'
        have hne : n' ≠ id := fun heq => hself.2 (heq ▸ hn')
        have hne' : n' ≠ n := fun heq => hnodup.1 (heq ▸ hn')
        apply (noSecond_congr hlinks' id _).mpr (hsecond n' (List.mem_cons_of_mem _ hn'))
        rw [neighbors_addLink_of_ne m _ fun hc => hne' hc.1, hother n' hne]

end LinkAll

/-! ## All layers -/

section Connect

variable [Preorder δ] [DecidableLT δ] [PriorityQueue (Result δ)] (m : Metric V δ)

/-- What the searches of {lit}`insert` select on the layers below {lit}`l`, from the top one down,
when nothing is linked on the way. -/
def selections (h : HNSW V) (vec : V) : Nat → Nat → List (Nat × List Nat)
  | 0, _ => []
  | l + 1, curr =>
      (l, h.selectNeighbors m vec l curr) ::
        selections h vec l ((h.selectNeighbors m vec l curr).headD curr)

/-- What the searches of {lit}`insert` select in the index in which only the slot is written. -/
def insertSelections (h : HNSW V) (level : Nat) (vec : V) (id : Nat) : List (Nat × List Nat) :=
  match h.entryPointId with
  | none => []
  | some entryPoint =>
      (h.written vec id).selections m vec (min (level : Int) h.currentMaxLayer + 1).toNat
        ((h.written vec id).descendFrom m vec level entryPoint)

/-- No search of an insert finds the id itself, and no list of a node that is found gets the id a
second time. -/
def NoWayBack (h : HNSW V) (level : Nat) (vec : V) (id : Nat) : Prop :=
  ∀ p ∈ h.insertSelections m level vec id,
    id ∉ p.2 ∧ ∀ n ∈ p.2, (h.written vec id).NoSecond m n id p.1

instance (h : HNSW V) (level : Nat) (vec : V) (id : Nat) :
    Decidable (h.NoWayBack m level vec id) :=
  inferInstanceAs (Decidable (∀ p ∈ _, _ ∧ _))

variable {m} {h h' : HNSW V} {vec : V} {id : Nat}

/-- The neighbours that are selected on a layer of a new node can be linked. -/
theorem linkable_of_noSecond {layer curr : Nat} (hempty : h.neighbors id layer = [])
    (hself : id ∉ h.selectNeighbors m vec layer curr)
    (hsecond : ∀ n ∈ h.selectNeighbors m vec layer curr, h.NoSecond m n id layer) :
    Linkable m h id layer (h.selectNeighbors m vec layer curr) := by
  refine ⟨selectNeighbors_nodup m h vec layer curr, hself, ?_, ?_, hsecond⟩
  · intro n _ hin
    rw [hempty] at hin
    cases hin
  · rw [hempty, List.length_nil, length_selectNeighbors, maxConn, maxLinks0]
    split <;> omega

omit [PriorityQueue (Result δ)] in
/-- Linking a layer leaves the layers below as they were. -/
theorem neighbors_linkAll_lower {l : Nat} (selected : List Nat)
    (hlower : ∀ l' < l + 1, ∀ x, h'.neighbors x l' = h.neighbors x l') :
    ∀ l' < l, ∀ x, (h'.linkAll m id l selected).neighbors x l' = h.neighbors x l' := by
  intro l' hl' x
  rw [neighbors_linkAll_of_ne m h' x _ (Nat.ne_of_lt hl')]
  exact hlower l' (Nat.lt_succ_of_lt hl') x

/-- {lit}`connect` selects what the searches in the index at its start select. -/
theorem Tidy.connect {l curr : Nat} (ht : h'.Tidy) (hlinks : LinksOnly h h')
    (hlower : ∀ l' < l, ∀ x, h'.neighbors x l' = h.neighbors x l')
    (hempty : ∀ l', h.neighbors id l' = [])
    (hback : ∀ p ∈ h.selections m vec l curr, id ∉ p.2 ∧ ∀ n ∈ p.2, h.NoSecond m n id p.1) :
    (HNSW.connect m vec id l h' curr).Tidy := by
  induction l generalizing h' curr with
  | zero => exact ht
  | succ l ih =>
      have hlayer := hlower l (Nat.lt_succ_self l)
      have hsame := selectNeighbors_congr m hlinks.sameNodes hlayer vec curr
      rw [selections, List.forall_mem_cons] at hback
      rcases hback with ⟨⟨hself, hsecond⟩, hrest⟩
      rw [HNSW.connect]
      apply ih
      · apply ht.linkAll
        apply linkable_of_noSecond ((hlayer id).trans (hempty l))
        · rw [hsame]
          exact hself
        · intro n hn
          rw [hsame] at hn
          exact (noSecond_congr hlinks id (hlayer n)).mpr (hsecond n hn)
      · exact hlinks.trans (linksOnly_linkAll m h' id l _)
      · exact neighbors_linkAll_lower _ hlower
      · rw [hsame]
        exact hrest

theorem Tidy.written (ht : h.Tidy) (vec : V) (id : Nat) : (h.written vec id).Tidy := by
  intro x l
  rw [neighbors_written]
  split
  · exact ⟨Nat.zero_le _, List.nodup_nil, List.not_mem_nil⟩
  · exact ht x l

/-- An insert that finds no way back keeps the lists tidy. -/
theorem Tidy.linked (ht : h.Tidy) {level : Nat} (hback : h.NoWayBack m level vec id) :
    (h.linked m level vec id).Tidy := by
  rw [NoWayBack, insertSelections] at hback
  rw [HNSW.linked]
  cases hentry : h.entryPointId with
  | none => exact ht.written vec id
  | some entryPoint =>
      rw [hentry] at hback
      apply (ht.written vec id).connect (.refl _) (fun _ _ _ => rfl) _ hback
      intro l'
      rw [neighbors_written, if_pos rfl]

/-- Everything that is selected lies in a set that is closed under links. -/
theorem mem_selections {S : Nat → Prop} {l curr : Nat}
    (hclosed : ∀ l x, S x → ∀ y ∈ h.neighbors x l, S y) (hcurr : S curr) {p : Nat × List Nat}
    (hp : p ∈ h.selections m vec l curr) : ∀ n ∈ p.2, S n := by
  induction l generalizing curr with
  | zero => cases hp
  | succ l ih =>
      rw [selections, List.mem_cons] at hp
      rcases hp with rfl | hp
      · exact fun n hn => (mem_selectNeighbors m (hclosed l) hcurr hn).1
      · exact ih (headD_selectNeighbors_mem m (hclosed l) hcurr) hp

/-! ### Paths -/

/-- A path of links of any layers. -/
def LeadsTo (h : HNSW V) : Nat → Nat → Prop :=
  ReflTransGen fun x y => ∃ l, y ∈ h.neighbors x l

/-- An insert of an id that the entry point does not lead to finds no way back, whatever the
queues choose among equals. -/
theorem noWayBack_of_not_leadsTo (level : Nat) (vec : V)
    (hno : ∀ e, h.entryPointId = some e → ¬ h.LeadsTo e id) : h.NoWayBack m level vec id := by
  intro p hp
  rw [insertSelections] at hp
  cases hentry : h.entryPointId with
  | none =>
      rw [hentry] at hp
      cases hp
  | some entryPoint =>
      rw [hentry] at hp
      have hclosed : ∀ l x, h.LeadsTo entryPoint x → ∀ y ∈ (h.written vec id).neighbors x l,
          h.LeadsTo entryPoint y := by
        intro l x hx y hy
        rw [neighbors_written] at hy
        split at hy
        · cases hy
        · exact hx.tail ⟨l, hy⟩
      have hstart : h.LeadsTo entryPoint
          ((h.written vec id).descendFrom m vec level entryPoint) :=
        descendFrom_mem (fun l _ _ => hclosed l) .refl
      have hmem : ∀ n ∈ p.2, h.LeadsTo entryPoint n := mem_selections hclosed hstart hp
      refine ⟨fun hid => hno entryPoint hentry (hmem id hid), ?_⟩
      intro n hn hin
      exact absurd (hclosed p.1 n (hmem n hn) id hin) (hno entryPoint hentry)

end Connect

/-! ## Inserts that find a way back -/

section WayBack

variable [Preorder δ] [DecidableLT δ] {m : Metric V δ} {h : HNSW V} {id layer : Nat}
  {selected : List Nat}

/-- A node that is not selected keeps its list. -/
theorem neighbors_linkAll_of_notMem {x : Nat} (hx : x ∉ selected) (hne : x ≠ id) :
    (h.linkAll m id layer selected).neighbors x layer = h.neighbors x layer := by
  induction selected generalizing h with
  | nil => rfl
  | cons n selected ih =>
      rw [List.mem_cons, not_or] at hx
      refine (ih hx.2).trans ?_
      rw [neighbors_addLink_of_ne m _ fun hc => hx.1 hc.1,
        neighbors_addLink_of_ne m _ fun hc => hne hc.1]

/-- An element of a list without duplicates is neither before nor behind its place. -/
theorem exists_split_of_mem {n : Nat} (hn : n ∈ selected) (hnodup : selected.Nodup) :
    ∃ l₁ l₂, selected = l₁ ++ n :: l₂ ∧ n ∉ l₁ ∧ n ∉ l₂ := by
  rcases List.append_of_mem hn with ⟨l₁, l₂, rfl⟩
  have hout : n ∉ l₁ ++ l₂ := (List.nodup_cons.mp (List.nodup_middle.mp hnodup)).1
  rw [List.mem_append, not_or] at hout
  exact ⟨l₁, l₂, rfl, hout.1, hout.2⟩

theorem linkAll_append (l₁ l₂ : List Nat) :
    h.linkAll m id layer (l₁ ++ l₂) = (h.linkAll m id layer l₁).linkAll m id layer l₂ :=
  List.foldl_append

/-- With room, the node gets its selected neighbours in order. -/
theorem neighbors_linkAll_self (hlock : id < h.nodeLocks) (hself : id ∉ selected)
    (hroom : (h.neighbors id layer).length + selected.length ≤ maxConn layer) :
    (h.linkAll m id layer selected).neighbors id layer = h.neighbors id layer ++ selected := by
  induction selected generalizing h with
  | nil => exact (List.append_nil _).symm
  | cons n selected ih =>
      rw [List.mem_cons, not_or] at hself
      rw [List.length_cons] at hroom
      have hpair : ((h.addLink m id n layer).addLink m n id layer).neighbors id layer =
          h.neighbors id layer ++ [n] := by
        rw [neighbors_addLink_of_ne m _ fun hc => hself.1 hc.1]
        exact neighbors_addLink_self m h n hlock (by omega)
      have hlinks := linksOnly_addLink_pair m h id n layer
      have hrest := ih (h := (h.addLink m id n layer).addLink m n id layer)
        (by rw [hlinks.nodeLocks]; exact hlock) hself.2
        (by
          rw [hpair, List.length_append, List.length_singleton]
          omega)
      rw [hpair, List.append_assoc] at hrest
      exact hrest

/-- A link of a node to itself stays: at most one of the links that follow replaces a member, and
then there are two of them. -/
theorem mem_self_linkAll (hself : id ∉ selected)
    (hlinked : (id ∈ h.neighbors id layer ∧
        (h.neighbors id layer).length + selected.length ≤ maxConn layer) ∨
      (2 ≤ (h.neighbors id layer).count id ∧ (h.neighbors id layer).length ≤ maxConn layer ∧
        (h.neighbors id layer).length + selected.length ≤ maxConn layer + 1)) :
    id ∈ (h.linkAll m id layer selected).neighbors id layer := by
  induction selected generalizing h with
  | nil =>
      rcases hlinked with ⟨hin, -⟩ | ⟨hcount, -⟩
      · exact hin
      · have hin : id ∈ h.neighbors id layer := List.count_pos_iff.mp (by omega)
        exact hin
  | cons n selected ih =>
      rw [List.mem_cons, not_or] at hself
      rw [List.length_cons] at hlinked
      apply ih hself.2
      rw [neighbors_addLink_of_ne m _ fun hc => hself.1 hc.1]
      rcases addLink_cases m h id n layer with heq | ⟨hroom, heq⟩ | ⟨hfull, -, i, hi, heq⟩
      · rw [heq]
        exact hlinked.imp (And.imp_right (by omega)) (And.imp_right (And.imp_right (by omega)))
      · rw [heq, List.length_append, List.length_singleton, List.count_append, List.mem_append]
        rcases hlinked with ⟨hin, hle⟩ | ⟨hcount, -, hle⟩
        · exact .inl ⟨.inl hin, by omega⟩
        · exact .inr ⟨by omega, by omega, by omega⟩
      · rw [heq, List.length_set]
        rcases hlinked with ⟨-, hle⟩ | ⟨hcount, hlength, hle⟩
        · omega
        · left
          refine ⟨?_, by omega⟩
          apply List.count_pos_iff.mp
          rw [List.count_set hi]
          split <;> omega

/-- A node that is among its own selected neighbours is linked to itself. -/
theorem mem_self_of_selected (hlock : id < h.nodeLocks) (hempty : h.neighbors id layer = [])
    (hnodup : selected.Nodup) (hlength : selected.length ≤ maxLinks) (hin : id ∈ selected) :
    id ∈ (h.linkAll m id layer selected).neighbors id layer := by
  have hcap : maxLinks ≤ maxConn layer := by
    rw [maxConn, maxLinks0]
    split <;> omega
  rcases exists_split_of_mem hin hnodup with ⟨l₁, l₂, rfl, hbefore, hafter⟩
  rw [List.length_append, List.length_cons] at hlength
  have hlist : (h.linkAll m id layer l₁).neighbors id layer = l₁ := by
    rw [neighbors_linkAll_self hlock hbefore, hempty, List.nil_append]
    rw [hempty, List.length_nil]
    omega
  have hlock' : id < (h.linkAll m id layer l₁).nodeLocks := by
    rw [(linksOnly_linkAll m h id layer l₁).nodeLocks]
    exact hlock
  rw [linkAll_append]
  generalize h.linkAll m id layer l₁ = h₁ at hlist hlock'
  have hfirst : (h₁.addLink m id id layer).neighbors id layer = l₁ ++ [id] := by
    rw [neighbors_addLink_self m h₁ id hlock' (by rw [hlist]; omega), hlist]
  apply mem_self_linkAll (h := (h₁.addLink m id id layer).addLink m id id layer) hafter
  rcases addLink_cases m (h₁.addLink m id id layer) id id layer with
    heq | ⟨hroom, heq⟩ | ⟨-, -, i, hi, heq⟩
  · left
    rw [heq, hfirst, List.length_append, List.length_singleton]
    exact ⟨by simp, by omega⟩
  · right
    rw [hfirst, List.length_append, List.length_singleton] at hroom
    rw [heq, hfirst]
    simp only [List.length_append, List.length_singleton, List.count_append,
      List.count_singleton_self]
    omega
  · left
    rw [hfirst] at hi
    rw [heq, hfirst, List.length_set, List.length_append, List.length_singleton]
    exact ⟨List.mem_set hi id, by omega⟩

/-- A member that takes the place of another one is a member twice. -/
theorem not_nodup_set {list : List Nat} {i a : Nat} (hi : i < list.length) (ha : a ∈ list)
    (hne : list[i] ≠ a) : ¬ (list.set i a).Nodup := by
  intro hnodup
  rcases List.getElem_of_mem ha with ⟨j, hj, hat⟩
  have hji : j ≠ i := by
    rintro rfl
    exact hne hat
  have hpos : (list.set i a)[i]? = (list.set i a)[j]? := by
    rw [List.getElem?_set_self hi, List.getElem?_set_ne (Ne.symm hji), List.getElem?_eq_getElem hj,
      hat]
  exact hji ((List.getElem?_inj (by simpa using hi) hnodup).mp hpos).symm

/-- A node that gets a second link has a list with a duplicate. -/
theorem not_nodup_addLink {src dest : Nat} (hlock : src < h.nodeLocks)
    (hsecond : ¬ h.NoSecond m src dest layer) :
    ¬ ((h.addLink m src dest layer).neighbors src layer).Nodup := by
  rw [NoSecond, Classical.not_imp] at hsecond
  rcases hsecond with ⟨hin, hchanges⟩
  rcases Nat.lt_or_ge (h.neighbors src layer).length (maxConn layer) with hroom | hfull
  · rw [neighbors_addLink_self m h dest hlock hroom, List.nodup_append]
    exact fun hnodup => hnodup.2.2 dest hin dest (List.mem_singleton_self dest) rfl
  · have hevicts : h.Evicts m src dest layer := by
      by_contra hstays
      exact hchanges ⟨hfull, hstays⟩
    rw [Evicts, farthestNeighbor_eq_scanMax] at hevicts
    rw [neighbors_addLink_full hlock hfull]
    rcases scanMax_eq_or (d := h.distanceTo m (h.getNode src).vector) 0 (none, m.minusOne)
      (h.neighbors src layer) with heq | ⟨i, hi, heq⟩
    · rw [heq] at hevicts
      exact hevicts.elim
    · rw [heq] at hevicts ⊢
      rw [Nat.zero_add]
      dsimp only at hevicts ⊢
      rw [if_pos hevicts]
      apply not_nodup_set hi hin
      intro hat
      rw [hat] at hevicts
      exact lt_irrefl _ hevicts

/-- If the lists of a layer are tidy when it is linked, there was no way back on it. -/
theorem noWayBack_of_tidy (hlock : id < h.nodeLocks) (hlocks : ∀ n ∈ selected, n < h.nodeLocks)
    (hempty : h.neighbors id layer = []) (hnodup : selected.Nodup)
    (hlength : selected.length ≤ maxLinks)
    (htidy : ∀ x, TidyList x layer ((h.linkAll m id layer selected).neighbors x layer)) :
    id ∉ selected ∧ ∀ n ∈ selected, h.NoSecond m n id layer := by
  have hself : id ∉ selected := fun hin =>
    (htidy id).not_self (mem_self_of_selected hlock hempty hnodup hlength hin)
  refine ⟨hself, ?_⟩
  intro n hn
  by_contra hsecond
  have hne : n ≠ id := fun heq => hself (heq ▸ hn)
  have hlockn := hlocks n hn
  have hlistn := (htidy n).nodup
  rcases exists_split_of_mem hn hnodup with ⟨l₁, l₂, rfl, hbefore, hafter⟩
  rw [linkAll_append] at hlistn
  have hlinks := (linksOnly_linkAll m h id layer l₁).trans
    (linksOnly_addLink m (h.linkAll m id layer l₁) id n layer)
  have hsame : ((h.linkAll m id layer l₁).addLink m id n layer).neighbors n layer =
      h.neighbors n layer := by
    rw [neighbors_addLink_of_ne m _ fun hc => hne hc.1, neighbors_linkAll_of_notMem hbefore hne]
  have hlast : ((h.linkAll m id layer l₁).linkAll m id layer (n :: l₂)).neighbors n layer =
      (((h.linkAll m id layer l₁).addLink m id n layer).addLink m n id layer).neighbors n layer :=
    neighbors_linkAll_of_notMem hafter hne
  rw [hlast] at hlistn
  apply not_nodup_addLink _ _ hlistn
  · rw [hlinks.nodeLocks]
    exact hlockn
  · rw [noSecond_congr hlinks id hsame]
    exact hsecond

variable [PriorityQueue (Result δ)]

/-- {lit}`connect` does not touch the layers above. -/
theorem neighbors_connect_of_le {vec : V} {l curr x : Nat} (hle : l ≤ layer) :
    (connect m vec id l h curr).neighbors x layer = h.neighbors x layer := by
  induction l generalizing h curr with
  | zero => rfl
  | succ l ih =>
      rw [connect]
      refine (ih (Nat.le_of_succ_le hle)).trans ?_
      exact neighbors_linkAll_of_ne m h x _ (Nat.ne_of_gt hle)

theorem selections_of_tidy_connect {h' : HNSW V} {vec : V} {l curr : Nat}
    (hlinks : LinksOnly h h') (hlower : ∀ l' < l, ∀ x, h'.neighbors x l' = h.neighbors x l')
    (hempty : ∀ l', h.neighbors id l' = []) (hlock : id < h.nodeLocks)
    (hlocks : ∀ p ∈ h.selections m vec l curr, ∀ n ∈ p.2, n < h.nodeLocks)
    (htidy : (connect m vec id l h' curr).Tidy) :
    ∀ p ∈ h.selections m vec l curr, id ∉ p.2 ∧ ∀ n ∈ p.2, h.NoSecond m n id p.1 := by
  induction l generalizing h' curr with
  | zero => exact fun p hp => absurd hp List.not_mem_nil
  | succ l ih =>
      have hlayer := hlower l (Nat.lt_succ_self l)
      have hsame := selectNeighbors_congr m hlinks.sameNodes hlayer vec curr
      rw [selections, List.forall_mem_cons] at hlocks ⊢
      rw [connect] at htidy
      constructor
      · have hlast : ∀ x, TidyList x l
            ((h'.linkAll m id l (h'.selectNeighbors m vec l curr)).neighbors x l) := by
          intro x
          have hconnect := htidy x l
          rw [neighbors_connect_of_le le_rfl] at hconnect
          exact hconnect
        rw [hsame] at hlast
        have hlength : (h.selectNeighbors m vec l curr).length ≤ maxLinks := by
          rw [length_selectNeighbors]
          omega
        rcases noWayBack_of_tidy (by rw [hlinks.nodeLocks]; exact hlock)
          (by rw [hlinks.nodeLocks]; exact hlocks.1) ((hlayer id).trans (hempty l))
          (selectNeighbors_nodup m h vec l curr) hlength hlast with ⟨hself, hsecond⟩
        exact ⟨hself, fun n hn => (noSecond_congr hlinks id (hlayer n)).mp (hsecond n hn)⟩
      · rw [hsame] at htidy
        apply ih _ _ hlocks.2 htidy
        · exact hlinks.trans (linksOnly_linkAll m h' id l _)
        · exact neighbors_linkAll_lower _ hlower

/-- An insert into an index with tidy lists keeps them tidy iff it finds no way back, if the id and
the nodes that it selects have locks. -/
theorem tidy_linked_iff (ht : h.Tidy) {level : Nat} {vec : V}
    (hlock : id < (h.written vec id).nodeLocks)
    (hlocks : ∀ p ∈ h.insertSelections m level vec id, ∀ n ∈ p.2,
      n < (h.written vec id).nodeLocks) :
    (h.linked m level vec id).Tidy ↔ h.NoWayBack m level vec id := by
  constructor
  · intro htidy
    rw [insertSelections] at hlocks
    rw [linked] at htidy
    rw [NoWayBack, insertSelections]
    cases hentry : h.entryPointId with
    | none => exact fun p hp => absurd hp List.not_mem_nil
    | some entryPoint =>
        rw [hentry] at hlocks htidy
        apply selections_of_tidy_connect (.refl _) (fun _ _ _ => rfl) _ hlock hlocks htidy
        intro l'
        rw [neighbors_written, if_pos rfl]
  · exact ht.linked

/-- A path that leads to a node also leads to it when the list of the node is empty. -/
theorem reaches_written {vec : V} {entryPoint size : Nat}
    (hlinks : ∀ x l y, y ∈ h.neighbors x l → l = 0 ∧ y < size)
    (hleads : h.LeadsTo entryPoint id) :
    ReflTransGen ((h.written vec id).link 0 size) entryPoint id := by
  have hpath : ∀ x, h.LeadsTo entryPoint x →
      ReflTransGen ((h.written vec id).link 0 size) entryPoint id ∨
        ReflTransGen ((h.written vec id).link 0 size) entryPoint x := by
    intro x hx
    induction hx with
    | refl => exact .inr .refl
    | @tail x y _ hlink ih =>
        rcases ih with hdone | hreach
        · exact .inl hdone
        · by_cases hid : x = id
          · rw [hid] at hreach
            exact .inl hreach
          · rcases hlink with ⟨l, hy⟩
            rcases hlinks x l y hy with ⟨rfl, hlt⟩
            right
            apply hreach.tail
            rw [link, neighbors_written, if_neg hid]
            exact ⟨hy, hlt⟩
  exact (hpath id hleads).elim (fun hreach => hreach) fun hreach => hreach

/-- Where a search has room for all nodes and selects them all, a path to the id is always found:
in an index of one layer with ids below {lit}`M`, such an insert leaves a list that is not tidy,
whatever the queues choose among equals. -/
theorem not_tidy_linked_of_leadsTo (ht : h.Tidy) {level entryPoint : Nat} {vec : V}
    (hentry : h.entryPointId = some entryPoint) (hlayer : h.currentMaxLayer = 0)
    (hlinks : ∀ x l y, y ∈ h.neighbors x l → l = 0 ∧ y < maxLinks)
    (hstart : entryPoint < maxLinks) (hsize : maxLinks ≤ h.visitedSize entryPoint)
    (hlocks : maxLinks ≤ (h.written vec id).nodeLocks) (hleads : h.LeadsTo entryPoint id) :
    ¬ (h.linked m level vec id).Tidy := by
  have hdescend : (h.written vec id).descendFrom m vec level entryPoint = entryPoint := by
    rw [descendFrom, currentMaxLayer_written, hlayer]
    rfl
  have hselections : h.insertSelections m level vec id =
      [(0, (h.written vec id).selectNeighbors m vec 0 entryPoint)] := by
    have hone : (min (level : Int) h.currentMaxLayer + 1).toNat = 1 := by omega
    rw [insertSelections, hentry]
    dsimp only
    rw [hone, hdescend]
    rfl
  have hvisited : (h.written vec id).visitedSize entryPoint = h.visitedSize entryPoint := by
    rw [visitedSize, elementCount_written, visitedSize]
  have hbelow : ∀ x, ReflTransGen
      ((h.written vec id).link 0 ((h.written vec id).visitedSize entryPoint)) entryPoint x →
      x < maxLinks := by
    intro x hx
    induction hx with
    | refl => exact hstart
    | @tail x y _ hlink _ =>
        have hy := hlink.1
        rw [neighbors_written] at hy
        split at hy
        · cases hy
        · exact (hlinks x 0 y hy).2
  have hreach : ReflTransGen
      ((h.written vec id).link 0 ((h.written vec id).visitedSize entryPoint)) entryPoint id := by
    rw [hvisited]
    apply reaches_written _ hleads
    intro x l y hy
    exact ⟨(hlinks x l y hy).1, lt_of_lt_of_le (hlinks x l y hy).2 hsize⟩
  have hlive : ((h.written vec id).getNode id).isDeleted = false := by
    rw [getNode_written, if_pos rfl]
  have hfound : id ∈ ids ((h.written vec id).searchLayer m entryPoint vec efConstruction 0) :=
    mem_searchLayer_of_le (by decide : maxLinks ≤ efConstruction) hbelow hreach hlive
  have hall : ((h.written vec id).searchLayer m entryPoint vec efConstruction 0).length ≤
      maxLinks := by
    have hids : List.Subperm
        (ids ((h.written vec id).searchLayer m entryPoint vec efConstruction 0))
        (List.range maxLinks) :=
      searchLayer_subperm hbelow
    have hle := hids.length_le
    rw [ids, List.length_map, List.length_range] at hle
    exact hle
  have hself : id ∈ (h.written vec id).selectNeighbors m vec 0 entryPoint := by
    rcases List.mem_map.mp hfound with ⟨r, hr, hid⟩
    exact List.mem_map.mpr ⟨r, (mem_drain_of_length_le hall).mpr hr, hid⟩
  rw [tidy_linked_iff ht (lt_of_lt_of_le (hbelow id hreach) hlocks)]
  · rw [NoWayBack, hselections]
    exact fun hback => (hback _ List.mem_cons_self).1 hself
  · rw [hselections]
    intro p hp n hn
    rw [List.mem_singleton] at hp
    rw [hp] at hn
    apply lt_of_lt_of_le _ hlocks
    rcases List.mem_map.mp hn with ⟨r, hr, rfl⟩
    exact hbelow r.id (searchLayer_sound m _ vec efConstruction 0 entryPoint
      (mem_of_mem_drain hr)).1

end WayBack

end HNSW

/-! ## Histories -/

namespace Session

section Lists

variable (s : Session V)

/-- Every list has room for its layer, leads to nodes that were inserted, and has neither
duplicates nor its own node. -/
structure WellLinked : Prop where
  length_le : ∀ x l, (s.index.neighbors x l).length ≤ HNSW.maxConn l
  inserted : ∀ x l, ∀ y ∈ s.index.neighbors x l, s.Inserted y
  nodup : ∀ x l, (s.index.neighbors x l).Nodup
  not_self : ∀ x l, x ∉ s.index.neighbors x l

/-- An insert that searches is of an id that no path of links leads to from the entry point. -/
def MeetsLinks : Call V → Prop
  | .insert _ _ id _ => s.index.BitmapFits →
      ∀ e, s.index.entryPointId = some e → ¬ s.index.LeadsTo e id
  | .delete _ => True
  | .reopen _ => True

variable {s}

/-- No path leads to an id that was never inserted. -/
theorem not_leadsTo_of_fresh (hs : s.WellFormed) {id : Nat} (hfresh : ¬ s.Inserted id) {e : Nat}
    (hentry : s.index.entryPointId = some e) : ¬ s.index.LeadsTo e id := by
  intro hleads
  apply hfresh
  apply mem_of_reachable (S := s.Inserted) _ (hs.entry e hentry).1 hleads
  rintro x - y ⟨l, hy⟩
  exact hs.links x l y hy

variable [Preorder δ] [DecidableLT δ] [PriorityQueue (Result δ)] {m : Metric V δ}

variable (m) in
/-- An insert that searches finds no way back with the queue of the run. -/
def FindsNoWayBack (s : Session V) : Call V → Prop
  | .insert level vec id _ => s.index.BitmapFits → s.index.NoWayBack m level vec id
  | .delete _ => True
  | .reopen _ => True

/-- Where no path leads to the id, no queue finds a way back. -/
theorem MeetsLinks.findsNoWayBack {c : Call V} (hmeets : s.MeetsLinks c) :
    s.FindsNoWayBack m c := by
  cases c with
  | insert level vec id metadata =>
      exact fun hfits => HNSW.noWayBack_of_not_leadsTo level vec (hmeets hfits)
  | delete id => trivial
  | reopen minSize => trivial

theorem tidy_step {s' : Session V} {c : Call V} (ht : s.index.Tidy) (hfinds : s.FindsNoWayBack m c)
    (hstep : s.step m c = some s') : s'.index.Tidy := by
  rcases step_cases m hstep with ⟨level, vec, id, metadata, rfl, -, -, rfl⟩ | ⟨id, -, rfl⟩ |
    ⟨minSize, -, rfl⟩
  · intro x l
    rw [index_insert, HNSW.insertCall]
    split
    · next hcall =>
        rw [HNSW.neighbors_insert]
        rcases hcall with hnone | hfits
        · have hnothing : s.index.NoWayBack m level vec id := by
            intro p hp
            rw [HNSW.insertSelections, hnone] at hp
            cases hp
          exact ht.linked hnothing x l
        · exact ht.linked (hfinds hfits) x l
    · exact ht.written vec id x l
  · intro x l
    rw [index_delete, HNSW.neighbors_deleteVector]
    exact ht x l
  · exact ht

/-- The lists of a run whose inserts find no way back, with the queue that it has. -/
theorem wellLinked_run {storageSize : Nat} {calls : List (Call V)}
    (hrun : Exec (step m) (fun s c => s.FindsNoWayBack m c) (create storageSize) calls s) :
    s.WellLinked := by
  have htidy : s.index.Tidy := by
    apply hrun.invariant (fun s => s.index.Tidy) (fun _ _ _ ht hfinds hstep =>
      tidy_step ht hfinds hstep)
    intro x l
    exact ⟨Nat.zero_le _, List.nodup_nil, List.not_mem_nil⟩
  have hformed := wellFormed_run hrun
  exact ⟨fun x l => (htidy x l).length_le, hformed.links, fun x l => (htidy x l).nodup,
    fun x l => (htidy x l).not_self⟩

/-- In every run from a new index whose inserts are of ids that the entry point does not lead to,
after every call: every list has room for its layer, contains ids of inserted nodes only, and has
neither an id twice nor the id of its own node. -/
theorem lists_well_formed {storageSize : Nat} {calls : List (Call V)} {s : Session V}
    (hrun : Exec (step m) MeetsLinks (create storageSize) calls s) :
    s.WellLinked :=
  wellLinked_run (hrun.weaken fun _ _ hmeets => hmeets.findsNoWayBack)

/-- The inserts and deletes of one open index that the lists are meant for: levels below
{lit}`MAX_LAYERS` and ids that have a lock. -/
def HasLock (s : Session V) : Call V → Prop
  | .insert level _ id _ => level < maxLayers ∧ id < (s.index.expandStorage id).nodeLocks
  | .delete _ => True
  | .reopen _ => False

instance (s : Session V) (c : Call V) : Decidable (s.HasLock c) :=
  match c with
  | .insert _ _ _ _ => inferInstanceAs (Decidable (_ ∧ _))
  | .delete _ => inferInstanceAs (Decidable True)
  | .reopen _ => inferInstanceAs (Decidable False)

end Lists

/-! ## Two runs -/

/-- Without links nothing leads from one node to another. -/
theorem not_leadsTo_of_nil {h : HNSW V} (hnone : ∀ x l, h.neighbors x l = []) {e id : Nat}
    (hne : e ≠ id) : ¬ h.LeadsTo e id := by
  intro hleads
  apply hne
  apply mem_of_reachable (S := fun x => e = x) _ rfl hleads
  rintro x - y ⟨l, hy⟩
  rw [hnone] at hy
  cases hy

/-- An id is inserted twice, and nothing leads back to it. -/
theorem lists_well_formed_again :
    ∃ s : Session Int, Exec (step lineMetric) MeetsLinks (create (100 * 1024 * 1024))
        [.insert 0 5 0 [], .delete 0, .insert 0 7 1 [], .insert 0 9 1 []] s ∧ s.WellLinked := by
  let s₁ : Session Int := (create (100 * 1024 * 1024)).insert lineMetric 0 5 0 []
  let s₂ := s₁.delete 0
  let s₃ := s₂.insert lineMetric 0 7 1 []
  let s₄ := s₃.insert lineMetric 0 9 1 []
  have hentry : s₂.index.entryPointId = some 0 ∧ s₃.index.entryPointId = some 0 := by
    decide +kernel
  -- the only candidate of id 1 is the deleted entry point
  have hnone₂ : ∀ x l, s₂.index.neighbors x l = [] := by
    intro x l
    have hfirst : s₁.index.neighbors x l =
        (((create (100 * 1024 * 1024) : Session Int).index).written 5 0).neighbors x l := rfl
    rw [index_delete, HNSW.neighbors_deleteVector, hfirst, HNSW.neighbors_written]
    exact ite_self []
  have hfits : s₂.index.BitmapFits := by decide +kernel
  have hlinked : s₃.index = s₂.index.insert lineMetric 0 7 1 [] := by
    rw [index_insert, HNSW.insertCall, if_pos (.inr hfits)]
  have hselected : (s₂.index.written 7 1).selectNeighbors lineMetric 7 0 0 = [] := by
    decide +kernel
  have hnone₃ : ∀ x l, s₃.index.neighbors x l = [] := by
    intro x l
    rw [hlinked, HNSW.neighbors_insert]
    change ((s₂.index.written 7 1).linkAll lineMetric 1 0
      ((s₂.index.written 7 1).selectNeighbors lineMetric 7 0 0)).neighbors x l = []
    rw [hselected]
    change (s₂.index.written 7 1).neighbors x l = []
    rw [HNSW.neighbors_written, hnone₂, ite_self]
  have hrun : Exec (step lineMetric) MeetsLinks (create (100 * 1024 * 1024))
      [.insert 0 5 0 [], .delete 0, .insert 0 7 1 [], .insert 0 9 1 []] s₄ := by
    have hstep₁ : (create (100 * 1024 * 1024)).step lineMetric (.insert 0 5 0 []) = some s₁ := by
      rw [step, if_pos (by decide +kernel)]
    have hstep₃ : s₂.step lineMetric (.insert 0 7 1 []) = some s₃ := by
      rw [step, if_pos (by decide +kernel)]
    have hstep₄ : s₃.step lineMetric (.insert 0 9 1 []) = some s₄ := by
      rw [step, if_pos (by decide +kernel)]
    refine .cons ?_ hstep₁ (.cons trivial rfl (.cons ?_ hstep₃ (.cons ?_ hstep₄ (.nil s₄))))
    · intro _ e he
      cases he
    · intro _ e he
      rw [hentry.1] at he
      exact not_leadsTo_of_nil hnone₂ (by rw [← Option.some.inj he]; decide)
    · intro _ e he
      rw [hentry.2] at he
      exact not_leadsTo_of_nil hnone₃ (by rw [← Option.some.inj he]; decide)
  exact ⟨s₄, hrun, lists_well_formed hrun⟩

/-- The first id is inserted twice: its list on layer 0 has it twice. -/
theorem linked_to_itself :
    ¬ ∀ (storageSize : Nat) (calls : List (Call Int)) (s : Session Int),
      Exec (step lineMetric) (fun s c => s.HasLock c) (create storageSize) calls s →
      s.WellLinked := by
  intro hall
  have hrun := Exec.of_guardedRun (step lineMetric) (fun s c => s.HasLock c)
    (create (100 * 1024 * 1024)) [.insert 0 5 0 [], .insert 0 6 0 []] (by decide +kernel)
  exact absurd ((hall _ _ _ hrun).not_self 0 0) (by decide +kernel)

end Session

end NanoDB.Index
