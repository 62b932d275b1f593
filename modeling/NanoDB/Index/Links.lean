import NanoDB.Index.SearchLayer

/-!
# What an insert does to the links

{lit}`insert` links the new node on its layers from the top down and reaches layer 0
last.  Above layer 0 the results below say only where new links may lead; on layer 0
they say exactly which links there are, as long as no list involved is full.

Main results:

- Theorem {lit}`mem_neighbors_linkAll`: a link after {lit}`linkAll` is an old one or
  one between the node and a selected neighbour.
- Theorem {lit}`mem_neighbors_linkAll_iff`: with room in the lists, these are the links.
- Theorem {lit}`connect_cases`: the last step of {lit}`connect` links layer 0, in a
  graph whose layer 0 is still the old one.
-/

namespace NanoDB.Index

open NanoDB.Lib
open Relation (ReflTransGen)

variable {V δ : Type*} [Zero V]

namespace HNSW

/-- No neighbour list is full. -/
def NoFullList (h : HNSW V) : Prop :=
  ∀ node ∈ h.nodes, ∀ l < maxLayers, (node.neighbors l).length < maxConn l

instance (h : HNSW V) : Decidable h.NoFullList :=
  inferInstanceAs (Decidable (∀ node ∈ h.nodes, ∀ l < maxLayers, _))

theorem NoFullList.length_lt {h : HNSW V} (hroom : h.NoFullList) (x : Nat) {l : Nat}
    (hl : l < maxLayers) : (h.neighbors x l).length < maxConn l := by
  rw [neighbors, getNode]
  cases hnode : h.nodes[x]? with
  | none =>
      rw [maxConn]
      split <;> simp [zeroNode, maxLinks0, maxLinks]
  | some node => exact hroom node (List.mem_of_getElem? hnode) l hl

variable [Preorder δ] [DecidableLT δ]

/-! ## One link -/

section AddLink

variable (m : Metric V δ) (h : HNSW V)

/-- A link after {lit}`add_link` is an old one or the new one. -/
theorem mem_neighbors_addLink {src dest layer x l y : Nat}
    (hy : y ∈ (h.addLink m src dest layer).neighbors x l) :
    y ∈ h.neighbors x l ∨ (x = src ∧ l = layer ∧ y = dest) := by
  have hset : ∀ list : List Nat, (∀ z ∈ list, z ∈ h.neighbors src layer ∨ z = dest) →
      y ∈ (h.setNeighbors src layer list).neighbors x l →
      y ∈ h.neighbors x l ∨ (x = src ∧ l = layer ∧ y = dest) := by
    intro list hlist hmem
    rw [neighbors_setNeighbors] at hmem
    split at hmem
    · next hat =>
        rw [hat.1, hat.2]
        rcases hlist y hmem with hold | hnew
        · exact .inl hold
        · exact .inr ⟨rfl, rfl, hnew⟩
    · exact .inl hmem
  unfold addLink at hy
  split at hy
  · exact .inl hy
  · dsimp only at hy
    split at hy
    · apply hset _ _ hy
      intro z hz
      simpa using hz
    · split at hy
      · exact .inl hy
      · split at hy
        · apply hset _ _ hy
          exact fun z hz => List.mem_or_eq_of_mem_set hz
        · exact .inl hy

/-- {lit}`add_link` touches one layer of one node. -/
theorem neighbors_addLink_of_ne {src dest layer x l : Nat} (hne : ¬ (x = src ∧ l = layer)) :
    (h.addLink m src dest layer).neighbors x l = h.neighbors x l := by
  have hset : ∀ list : List Nat,
      (h.setNeighbors src layer list).neighbors x l = h.neighbors x l := by
    intro list
    rw [neighbors_setNeighbors, if_neg hne]
  unfold addLink
  split
  · rfl
  · dsimp only
    split
    · exact hset _
    · split
      · rfl
      · split
        · exact hset _
        · rfl

/-- With a lock and with room, the link is appended. -/
theorem neighbors_addLink_self {src layer : Nat} (dest : Nat) (hlock : src < h.nodeLocks)
    (hroom : (h.neighbors src layer).length < maxConn layer) :
    (h.addLink m src dest layer).neighbors src layer = h.neighbors src layer ++ [dest] := by
  rw [addLink, if_neg (by omega)]
  dsimp only
  rw [if_pos hroom, neighbors_setNeighbors, if_pos ⟨rfl, rfl⟩]

end AddLink

/-! ## The links of one layer -/

section LinkAll

variable (m : Metric V δ)

/-- A link after {lit}`linkAll` is an old one or one between the node and a selected
neighbour. -/
theorem mem_neighbors_linkAll {h : HNSW V} {id layer x l y : Nat} {selected : List Nat}
    (hy : y ∈ (h.linkAll m id layer selected).neighbors x l) :
    y ∈ h.neighbors x l ∨
      (l = layer ∧ ((x = id ∧ y ∈ selected) ∨ (y = id ∧ x ∈ selected))) := by
  induction selected generalizing h with
  | nil => exact .inl hy
  | cons n selected ih =>
      rcases ih hy with hpair | ⟨hl, hends⟩
      · rcases mem_neighbors_addLink m _ hpair with hfirst | ⟨rfl, hl, rfl⟩
        · rcases mem_neighbors_addLink m _ hfirst with hold | ⟨rfl, hl, rfl⟩
          · exact .inl hold
          · exact .inr ⟨hl, .inl ⟨rfl, List.mem_cons_self⟩⟩
        · exact .inr ⟨hl, .inr ⟨rfl, List.mem_cons_self⟩⟩
      · refine .inr ⟨hl, ?_⟩
        exact hends.imp (And.imp_right (List.mem_cons_of_mem _))
          (And.imp_right (List.mem_cons_of_mem _))

/-- {lit}`linkAll` touches one layer. -/
theorem neighbors_linkAll_of_ne (h : HNSW V) {id layer l : Nat} (x : Nat) (selected : List Nat)
    (hne : l ≠ layer) : (h.linkAll m id layer selected).neighbors x l = h.neighbors x l := by
  induction selected generalizing h with
  | nil => rfl
  | cons n selected ih =>
      refine (ih _).trans ?_
      rw [neighbors_addLink_of_ne m _ fun hc => hne hc.2,
        neighbors_addLink_of_ne m _ fun hc => hne hc.2]

/-- A pair of links, with room in both lists. -/
theorem neighbors_addLink_pair {h : HNSW V} {id n layer : Nat} (hid : id < h.nodeLocks)
    (hn : n < h.nodeLocks) (hroom : n ≠ id → (h.neighbors n layer).length < maxConn layer)
    (hroomId : (h.neighbors id layer).length + 2 ≤ maxConn layer) (x : Nat) :
    ((h.addLink m id n layer).addLink m n id layer).neighbors x layer =
      h.neighbors x layer ++ (if x = id then [n] else []) ++ (if x = n then [id] else []) := by
  have hfirst : ∀ x, (h.addLink m id n layer).neighbors x layer =
      h.neighbors x layer ++ (if x = id then [n] else []) := by
    intro x
    split
    · next hx =>
        rw [hx]
        exact neighbors_addLink_self m h n hid (by omega)
    · next hx => rw [neighbors_addLink_of_ne m h fun hc => hx hc.1, List.append_nil]
  rw [← hfirst]
  by_cases hx : x = n
  · subst hx
    rw [if_pos rfl]
    apply neighbors_addLink_self
    · rw [(linksOnly_addLink m h id x layer).nodeLocks]
      exact hn
    · rw [hfirst, List.length_append]
      by_cases hxid : x = id
      · rw [if_pos hxid, hxid, List.length_singleton]
        omega
      · rw [if_neg hxid, List.length_nil]
        exact hroom hxid
  · rw [if_neg hx, List.append_nil, neighbors_addLink_of_ne m _ fun hc => hx hc.1]

/-- With room in the lists, the links after {lit}`linkAll` are the old ones and those
between the node and its selected neighbours. -/
theorem mem_neighbors_linkAll_iff {h : HNSW V} {id layer : Nat} {selected : List Nat}
    (hnodup : selected.Nodup) (hid : id < h.nodeLocks) (hlocks : ∀ n ∈ selected, n < h.nodeLocks)
    (hroom : ∀ n ∈ selected, n ≠ id → (h.neighbors n layer).length < maxConn layer)
    (hroomId : (h.neighbors id layer).length + 2 * selected.length ≤ maxConn layer) (x y : Nat) :
    y ∈ (h.linkAll m id layer selected).neighbors x layer ↔
      y ∈ h.neighbors x layer ∨ (x = id ∧ y ∈ selected) ∨ (y = id ∧ x ∈ selected) := by
  constructor
  · intro hy
    exact (mem_neighbors_linkAll m hy).imp_right And.right
  induction selected generalizing h with
  | nil => simp [linkAll]
  | cons n selected ih =>
      rw [List.nodup_cons] at hnodup
      rw [List.length_cons] at hroomId
      have hpair := neighbors_addLink_pair m hid (hlocks n List.mem_cons_self)
        (hroom n List.mem_cons_self) (by omega)
      have hkeep := linksOnly_addLink_pair m h id n layer
      have hrest := ih hnodup.2 (h := (h.addLink m id n layer).addLink m n id layer)
        (by rw [hkeep.nodeLocks]; exact hid)
        (by
          intro n' hn'
          rw [hkeep.nodeLocks]
          exact hlocks n' (List.mem_cons_of_mem _ hn'))
        (by
          intro n' hn' hne
          have hother : n' ≠ n := fun heq => hnodup.1 (heq ▸ hn')
          rw [hpair, if_neg hne, if_neg hother, List.append_nil, List.append_nil]
          exact hroom n' (List.mem_cons_of_mem _ hn') hne)
        (by
          rw [hpair, List.length_append, List.length_append, if_pos rfl, List.length_singleton]
          split <;> simp only [List.length_singleton, List.length_nil] <;> omega)
      intro hcases
      apply hrest
      rw [hpair, List.mem_append, List.mem_append]
      rcases hcases with hold | ⟨hx, hy⟩ | ⟨hy, hx⟩
      · exact .inl (.inl (.inl hold))
      · rcases List.mem_cons.mp hy with rfl | hy
        · exact .inl (.inl (.inr (by rw [if_pos hx]; exact List.mem_singleton_self _)))
        · exact .inr (.inl ⟨hx, hy⟩)
      · rcases List.mem_cons.mp hx with rfl | hx
        · exact .inl (.inr (by rw [if_pos rfl, hy]; exact List.mem_singleton_self _))
        · exact .inr (.inr ⟨hy, hx⟩)

end LinkAll

/-! ## All layers -/

section Connect

variable [PriorityQueue (Result δ)] (m : Metric V δ) {h : HNSW V} {vec : V} {id : Nat}
  {S : Nat → Prop}

/-- The selected neighbours are live and lie in every set that is closed under the links
of the layer. -/
theorem mem_selectNeighbors {layer curr n : Nat}
    (hclosed : ∀ x, S x → ∀ y ∈ h.neighbors x layer, S y) (hcurr : S curr)
    (hn : n ∈ h.selectNeighbors m vec layer curr) :
    S n ∧ (h.getNode n).isDeleted = false := by
  rcases List.mem_map.mp hn with ⟨r, hr, rfl⟩
  have hfound := mem_of_mem_drain hr
  exact ⟨searchLayer_mem hclosed hcurr (List.mem_map.mpr ⟨r, hfound, rfl⟩),
    (searchLayer_sound m h vec efConstruction layer curr hfound).2.1⟩

/-- The next layer starts from the nearest selected neighbour, or where this one did. -/
theorem headD_selectNeighbors_mem {layer curr : Nat}
    (hclosed : ∀ x, S x → ∀ y ∈ h.neighbors x layer, S y) (hcurr : S curr) :
    S ((h.selectNeighbors m vec layer curr).headD curr) := by
  cases hsel : h.selectNeighbors m vec layer curr with
  | nil => exact hcurr
  | cons n rest =>
      exact (mem_selectNeighbors m hclosed hcurr (hsel ▸ List.mem_cons_self)).1

theorem selectNeighbors_nodup (h : HNSW V) (vec : V) (layer curr : Nat) :
    (h.selectNeighbors m vec layer curr).Nodup :=
  nodup_map_of_subperm _ (drain_subperm _ _)
    (searchLayer_nodup m h vec efConstruction layer curr)

theorem length_selectNeighbors (h : HNSW V) (vec : V) (layer curr : Nat) :
    (h.selectNeighbors m vec layer curr).length =
      min maxLinks (h.searchLayer m curr vec efConstruction layer).length := by
  rw [selectNeighbors, List.length_map, length_drain]

/-- A search from a live node selects it or something else, so it selects a node other
than a given one that it does not start from. -/
theorem exists_mem_selectNeighbors_ne {layer c : Nat} (hlive : (h.getNode c).isDeleted = false)
    (hne : c ≠ id) : ∃ n ∈ h.selectNeighbors m vec layer c, n ≠ id := by
  have hlength := length_selectNeighbors m h vec layer c
  rcases Nat.lt_or_ge 1 (h.selectNeighbors m vec layer c).length with hmany | hfew
  · -- two of them are different
    have hnodup := selectNeighbors_nodup m h vec layer c
    cases hsel : h.selectNeighbors m vec layer c with
    | nil => simp [hsel] at hmany
    | cons a rest =>
        cases rest with
        | nil => simp [hsel] at hmany
        | cons b rest =>
            rw [hsel, List.nodup_cons] at hnodup
            by_cases ha : a = id
            · have hb : b ≠ id := fun hb => hnodup.1 (by rw [ha, hb]; exact List.mem_cons_self)
              exact ⟨b, List.mem_cons_of_mem _ List.mem_cons_self, hb⟩
            · exact ⟨a, List.mem_cons_self, ha⟩
  · -- nothing was dropped, and the start is among the results
    rw [maxLinks] at hlength
    refine ⟨c, ?_, hne⟩
    rcases searchLayer_complete m h vec efConstruction layer c with hfull | hall
    · rw [efConstruction] at hfull hlength
      omega
    · have hperm : (drain farther maxLinks (h.searchLayer m c vec efConstruction layer)).Perm
          (h.searchLayer m c vec efConstruction layer) := by
        apply drain_perm
        rw [maxLinks]
        omega
      exact (hperm.map Result.id).mem_iff.mpr (hall c .refl hlive)

/-- What {lit}`connect` has done when it comes to layer 0: links above layer 0 between
the node and live nodes of {lit}`S`, and nothing else. -/
structure UpperLinked (h : HNSW V) (id : Nat) (S : Nat → Prop) (h' : HNSW V) : Prop where
  linksOnly : LinksOnly h h'
  bottom : ∀ x, h'.neighbors x 0 = h.neighbors x 0
  upper : ∀ x l y, y ∈ h'.neighbors x l → y ∈ h.neighbors x l ∨
    (x = id ∧ S y ∧ (h.getNode y).isDeleted = false) ∨
    (y = id ∧ S x ∧ (h.getNode x).isDeleted = false)

/-- {lit}`connect` links layer 0 last, from a node of every set that contains its start
and is closed under links above layer 0. -/
theorem connect_cases (l : Nat) {curr : Nat}
    (hclosed : ∀ l', 0 < l' → l' ≤ l → ∀ x, S x → ∀ y ∈ h.neighbors x l', S y)
    (hcurr : S curr) :
    ∃ h' c, connect m vec id (l + 1) h curr =
        h'.linkAll m id 0 (h'.selectNeighbors m vec 0 c) ∧
      S c ∧ UpperLinked h id S h' := by
  induction l generalizing h curr with
  | zero => exact ⟨h, curr, rfl, hcurr, .refl h, fun _ => rfl, fun _ _ _ hy => .inl hy⟩
  | succ l ih =>
      have hselected : ∀ n ∈ h.selectNeighbors m vec (l + 1) curr,
          S n ∧ (h.getNode n).isDeleted = false := fun n hn =>
        mem_selectNeighbors m (hclosed (l + 1) (Nat.succ_pos l) le_rfl) hcurr hn
      have hkeep := linksOnly_linkAll m h id (l + 1) (h.selectNeighbors m vec (l + 1) curr)
      have hclosed' : ∀ l', 0 < l' → l' ≤ l → ∀ x, S x →
          ∀ y ∈ (h.linkAll m id (l + 1) (h.selectNeighbors m vec (l + 1) curr)).neighbors x l',
            S y := by
        intro l' hpos hl' x hx y hy
        rw [neighbors_linkAll_of_ne m h x _ (by omega)] at hy
        exact hclosed l' hpos (by omega) x hx y hy
      have hcurr' : S ((h.selectNeighbors m vec (l + 1) curr).headD curr) :=
        headD_selectNeighbors_mem m (hclosed (l + 1) (Nat.succ_pos l) le_rfl) hcurr
      rcases ih hclosed' hcurr' with ⟨h', c, heq, hc, hupper⟩
      refine ⟨h', c, heq, hc, hkeep.trans hupper.linksOnly, ?_, ?_⟩
      · intro x
        rw [hupper.bottom, neighbors_linkAll_of_ne m h x _ (by omega)]
      · intro x l' y hy
        rcases hupper.upper x l' y hy with hold | ⟨hx, hS, hlive⟩ | ⟨hy', hS, hlive⟩
        · rcases mem_neighbors_linkAll m hold with hold | ⟨-, ⟨hx, hsel⟩ | ⟨hy', hsel⟩⟩
          · exact .inl hold
          · exact .inr (.inl ⟨hx, hselected y hsel⟩)
          · exact .inr (.inr ⟨hy', hselected x hsel⟩)
        · exact .inr (.inl ⟨hx, hS, (hkeep.isDeleted y).symm.trans hlive⟩)
        · exact .inr (.inr ⟨hy', hS, (hkeep.isDeleted x).symm.trans hlive⟩)

variable {h' : HNSW V} {c : Nat}

omit [PriorityQueue (Result δ)] in
/-- When layer 0 is linked too, every new link joins the node with one of {lit}`T`. -/
theorem UpperLinked.mem_neighbors {T : Nat → Prop} {selected : List Nat} {x l y : Nat}
    (hupper : UpperLinked h id S h')
    (hT : ∀ n, S n → (h.getNode n).isDeleted = false → T n) (hselected : ∀ n ∈ selected, T n)
    (hy : y ∈ (h'.linkAll m id 0 selected).neighbors x l) :
    y ∈ h.neighbors x l ∨ (x = id ∧ T y) ∨ (y = id ∧ T x) := by
  rcases mem_neighbors_linkAll m hy with hold | ⟨-, ⟨hx, hsel⟩ | ⟨hy', hsel⟩⟩
  · rcases hupper.upper x l y hold with hold | ⟨hx, hS, hlive⟩ | ⟨hy', hS, hlive⟩
    · exact .inl hold
    · exact .inr (.inl ⟨hx, hT y hS hlive⟩)
    · exact .inr (.inr ⟨hy', hT x hS hlive⟩)
  · exact .inr (.inl ⟨hx, hselected y hsel⟩)
  · exact .inr (.inr ⟨hy', hselected x hsel⟩)

/-- {lit}`insert` into an index with an entry point: the links above layer 0, then those
of layer 0. -/
theorem linked_cases (level : Nat) {entryPoint : Nat} (hentry : h.entryPointId = some entryPoint)
    (hlayer : 0 ≤ h.currentMaxLayer)
    (hclosed : ∀ l : Nat, 0 < l → l ≤ h.currentMaxLayer →
      ∀ x, S x → ∀ y ∈ (h.written vec id).neighbors x l, S y)
    (hstart : S entryPoint) :
    ∃ h' c, h.linked m level vec id = h'.linkAll m id 0 (h'.selectNeighbors m vec 0 c) ∧
      S c ∧ UpperLinked (h.written vec id) id S h' := by
  have hlayers : (min (level : Int) h.currentMaxLayer + 1).toNat =
      (min (level : Int) h.currentMaxLayer).toNat + 1 := by
    omega
  have hcurr : S ((h.written vec id).descendFrom m vec level entryPoint) :=
    descendFrom_mem
      (fun l hl hmax => hclosed l (by omega) (currentMaxLayer_written h vec id ▸ hmax)) hstart
  rw [linked, hentry]
  dsimp only
  rw [hlayers]
  exact connect_cases m _ (fun l hpos hl => hclosed l hpos (by omega)) hcurr

/-- The links of layer 0 after an insert into an index with no full list. -/
theorem mem_neighbors_linked_iff (hupper : UpperLinked (h.written vec id) id S h')
    (hroom : h.NoFullList) (hid : id < (h.expandStorage id).nodeLocks)
    (hlocks : ∀ n ∈ h'.selectNeighbors m vec 0 c, n < (h.expandStorage id).nodeLocks) (x y : Nat) :
    y ∈ (h'.linkAll m id 0 (h'.selectNeighbors m vec 0 c)).neighbors x 0 ↔
      y ∈ (h.written vec id).neighbors x 0 ∨ (x = id ∧ y ∈ h'.selectNeighbors m vec 0 c) ∨
        (y = id ∧ x ∈ h'.selectNeighbors m vec 0 c) := by
  have hnodeLocks : h'.nodeLocks = (h.expandStorage id).nodeLocks := hupper.linksOnly.nodeLocks
  rw [← hnodeLocks] at hid hlocks
  rw [mem_neighbors_linkAll_iff m (selectNeighbors_nodup m h' vec 0 c) hid hlocks, hupper.bottom]
  · intro n _ hne
    rw [hupper.bottom, neighbors_written, if_neg hne]
    exact hroom.length_lt n (by decide)
  · rw [hupper.bottom, neighbors_written, if_pos rfl, length_selectNeighbors, List.length_nil,
      maxConn, if_pos rfl, maxLinks0]
    omega

end Connect

end HNSW

end NanoDB.Index
