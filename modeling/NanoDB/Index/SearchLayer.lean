import NanoDB.Index.Hnsw

/-!
# What a beam search finds

{lit}`search_layer` follows the links of one layer between ids that have a bit in
{lit}`visited`.  It keeps at most {lit}`ef` results; as long as it has fewer, it drops
nothing, so it ends with {lit}`ef` results or with every live node that can be reached.

No statement here depends on the distances: a node that is met while there is room is
kept, wherever the query is.

Main results:

- Theorem {lit}`searchLayer_sound`: every result is a live node that can be reached.
- Theorem {lit}`searchLayer_complete`: the search ends with {lit}`ef` results or with
  every live node that can be reached.
- Theorem {lit}`mem_searchLayer_of_le`: a wide search is exhaustive.
- Theorem {lit}`descendFrom_mem`: greedy descent does not leave a set that is closed
  under links.
-/

namespace NanoDB.Index

open NanoDB.Lib
open NanoDB.Storage (Bytes)
open Relation (ReflTransGen)

variable {V δ : Type*} [Zero V]

namespace HNSW

/-- A link of a layer that a search follows: its target has a bit in {lit}`visited`. -/
def link (h : HNSW V) (layer size x y : Nat) : Prop :=
  y ∈ h.neighbors x layer ∧ y < size

/-- The ids of a list of results. -/
def ids (results : List (Result δ)) : List Nat :=
  results.map (·.id)

variable [Preorder δ] [DecidableLT δ] [PriorityQueue (Result δ)]

/-! ## The result heap -/

section KeepBest

variable {ef : Nat} {found : List (Result δ)}

/-- While there is room, nothing is dropped. -/
theorem keepBest_of_lt (r : Result δ) (h : found.length < ef) :
    keepBest ef found r = r :: found := by
  rw [keepBest, if_neg]
  rw [List.length_cons]
  omega

theorem length_keepBest (r : Result δ) (h : ef ≤ found.length) :
    (keepBest ef found r).length = found.length := by
  rw [keepBest, if_pos (by rw [List.length_cons]; omega)]
  split
  · next hnone => simp [extract_eq_none_iff] at hnone
  · next worst rest hextract =>
      have := length_of_extract hextract
      rw [List.length_cons] at this
      omega

/-- Only old results and the new one are kept. -/
theorem keepBest_subperm (ef : Nat) (found : List (Result δ)) (r : Result δ) :
    List.Subperm (keepBest ef found r) (r :: found) := by
  rw [keepBest]
  split
  · split
    · exact List.nil_subperm
    · next worst rest hextract =>
        have hperm := extract_perm hextract
        exact (List.sublist_cons_self worst rest).subperm.trans hperm.symm.subperm
  · exact List.Subperm.refl _

theorem mem_keepBest {r r' : Result δ} (h : r' ∈ keepBest ef found r) : r' = r ∨ r' ∈ found :=
  List.mem_cons.mp ((keepBest_subperm ef found r).subset h)

/-- A full heap stays full. -/
theorem le_length_keepBest (r : Result δ) (h : ef ≤ found.length) :
    ef ≤ (keepBest ef found r).length := by
  rw [length_keepBest r h]
  exact h

end KeepBest

/-! ## The invariants of the loop -/

section Loop

variable (m : Metric V δ) (h : HNSW V) (query : V) (ef size layer entryPoint : Nat)

/-- The ids that will not be looked at again. -/
def Beam.Seen (b : Beam δ) (x : Nat) : Prop :=
  x ∈ b.visited ∨ x = entryPoint

/-- What a search has seen can be reached, and its results are distinct live nodes that
it has seen, with their distances. -/
structure Beam.Sound (b : Beam δ) : Prop where
  entry_mem : entryPoint < size → entryPoint ∈ b.visited
  reachable : ∀ x, b.Seen entryPoint x → ReflTransGen (h.link layer size) entryPoint x
  candidates_seen : ∀ r ∈ b.candidates, b.Seen entryPoint r.id
  found_seen : ∀ r ∈ b.found, b.Seen entryPoint r.id
  found_live : ∀ r ∈ b.found, (h.getNode r.id).isDeleted = false
  found_dist : ∀ r ∈ b.found, r.distance = m.dist query (h.getNode r.id).vector
  found_nodup : (ids b.found).Nodup

/-- A search has {lit}`ef` results, or has dropped nothing: every node it has seen is
still to be expanded or has its neighbours seen, and the live ones are results.
{lit}`expanding` is the node whose neighbours are being looked at. -/
def Beam.Complete (expanding : Nat → Prop) (b : Beam δ) : Prop :=
  ef ≤ b.found.length ∨
    (Explored (h.link layer size) (b.Seen entryPoint)
        (fun x => x ∈ ids b.candidates ∨ expanding x) ∧
      ∀ x, b.Seen entryPoint x → (h.getNode x).isDeleted = false → x ∈ ids b.found)

variable {m h query ef size layer entryPoint}

/-- Looking at a neighbour changes nothing, or the neighbour has a bit, was not seen before
and is seen now.  It is then the only new candidate and, if it is not deleted, the only
new result. -/
theorem visit_cases (m : Metric V δ) (h : HNSW V) (query : V) (ef size : Nat) (b : Beam δ)
    (n : Nat) :
    h.visit m query ef size b n = b ∨
      (n < size ∧ n ∉ b.visited ∧ (h.visit m query ef size b n).visited = n :: b.visited ∧
        (∀ r ∈ (h.visit m query ef size b n).candidates, r.id = n ∨ r ∈ b.candidates) ∧
        ((h.visit m query ef size b n).found = b.found ∨
          ((h.getNode n).isDeleted = false ∧ (h.visit m query ef size b n).found =
            keepBest ef b.found { id := n, distance := m.dist query (h.getNode n).vector }))) := by
  rw [HNSW.visit]
  split
  · exact .inl rfl
  · next hskip =>
      rw [not_or, not_le] at hskip
      right
      dsimp only
      split
      · refine ⟨hskip.1, hskip.2, rfl, ?_, ?_⟩
        · intro r hr
          rcases List.mem_cons.mp hr with rfl | hr
          · exact .inl rfl
          · exact .inr hr
        · split
          · exact .inl rfl
          · next hlive => exact .inr ⟨by simpa using hlive, rfl⟩
      · exact ⟨hskip.1, hskip.2, rfl, fun r hr => .inr hr, .inl rfl⟩

theorem Beam.Sound.visit {b : Beam δ} (hb : b.Sound m h query size layer entryPoint) {curr n : Nat}
    (hcurr : b.Seen entryPoint curr) (hn : n ∈ h.neighbors curr layer) :
    (h.visit m query ef size b n).Sound m h query size layer entryPoint := by
  rcases visit_cases m h query ef size b n with hsame | ⟨hlt, hfresh, hvisited, hcandidates, hfound⟩
  · rw [hsame]
    exact hb
  · generalize h.visit m query ef size b n = b' at hvisited hcandidates hfound ⊢
    have hseen : ∀ x, b'.Seen entryPoint x ↔ x = n ∨ b.Seen entryPoint x := by
      intro x
      rw [Beam.Seen, hvisited, List.mem_cons, or_assoc, Beam.Seen]
    -- a result is an old one, or the neighbour
    have hresult : ∀ r ∈ b'.found, r ∈ b.found ∨ ((h.getNode n).isDeleted = false ∧
        r = { id := n, distance := m.dist query (h.getNode n).vector }) := by
      intro r hr
      rcases hfound with hsame | ⟨hlive, hkept⟩
      · exact .inl (hsame ▸ hr)
      · rw [hkept] at hr
        exact (mem_keepBest hr).symm.imp_right fun heq => ⟨hlive, heq⟩
    constructor
    · intro hlt'
      rw [hvisited]
      exact List.mem_cons_of_mem _ (hb.entry_mem hlt')
    · intro x hx
      rcases (hseen x).mp hx with rfl | hx
      · exact (hb.reachable curr hcurr).tail ⟨hn, hlt⟩
      · exact hb.reachable x hx
    · intro r hr
      rw [hseen]
      exact (hcandidates r hr).imp_right (hb.candidates_seen r)
    · intro r hr
      rw [hseen]
      rcases hresult r hr with hr | ⟨-, rfl⟩
      · exact .inr (hb.found_seen r hr)
      · exact .inl rfl
    · intro r hr
      rcases hresult r hr with hr | ⟨hlive, rfl⟩
      · exact hb.found_live r hr
      · exact hlive
    · intro r hr
      rcases hresult r hr with hr | ⟨-, rfl⟩
      · exact hb.found_dist r hr
      · rfl
    · rcases hfound with hsame | ⟨-, hkept⟩
      · rw [hsame]
        exact hb.found_nodup
      · rw [hkept]
        apply nodup_map_of_subperm _ (keepBest_subperm ef b.found _)
        rw [List.map_cons, List.nodup_cons]
        refine ⟨?_, hb.found_nodup⟩
        -- the neighbour was not seen before, so it is not the id of a result
        intro hmem
        rcases List.mem_map.mp hmem with ⟨r, hr, rfl⟩
        rcases hb.found_seen r hr with hvis | heq
        · exact hfresh hvis
        · exact hfresh (heq ▸ hb.entry_mem (heq ▸ hlt))

/-- Looking at neighbours forgets no visited id. -/
theorem visited_subset_foldl {b : Beam δ} (ns : List Nat) :
    ∀ x ∈ b.visited, x ∈ (ns.foldl (h.visit m query ef size) b).visited := by
  induction ns generalizing b with
  | nil => exact fun x hx => hx
  | cons n ns ih =>
      intro x hx
      apply ih
      rw [HNSW.visit]
      split
      · exact hx
      · dsimp only
        split <;> exact List.mem_cons_of_mem _ hx

/-- The neighbours that have a bit are visited afterwards. -/
theorem mem_visited_foldl {b : Beam δ} {ns : List Nat} {n : Nat} (hn : n ∈ ns) (hlt : n < size) :
    n ∈ (ns.foldl (h.visit m query ef size) b).visited := by
  induction ns generalizing b with
  | nil => cases hn
  | cons n' ns ih =>
      rcases List.mem_cons.mp hn with rfl | hn
      · have hvisit : n ∈ (h.visit m query ef size b n).visited := by
          rw [HNSW.visit]
          split
          · next hskip => exact hskip.resolve_left (by omega)
          · dsimp only
            split <;> exact List.mem_cons_self
        exact visited_subset_foldl ns n hvisit
      · exact ih hn

theorem Beam.Sound.foldl_visit {b : Beam δ} (hb : b.Sound m h query size layer entryPoint)
    {curr : Nat} (hcurr : b.Seen entryPoint curr) {ns : List Nat}
    (hns : ∀ n ∈ ns, n ∈ h.neighbors curr layer) :
    (ns.foldl (h.visit m query ef size) b).Sound m h query size layer entryPoint := by
  induction ns generalizing b with
  | nil => exact hb
  | cons n ns ih =>
      apply ih (hb.visit hcurr (hns n List.mem_cons_self))
      · exact hcurr.imp_left (visited_subset_foldl [n] curr)
      · exact fun n' hn' => hns n' (List.mem_cons_of_mem _ hn')

theorem Beam.Complete.visit {expanding : Nat → Prop} {b : Beam δ}
    (hb : b.Complete h ef size layer entryPoint expanding) (m : Metric V δ) (query : V) (n : Nat) :
    (h.visit m query ef size b n).Complete h ef size layer entryPoint expanding := by
  rw [HNSW.visit]
  split
  · exact hb
  · next hskip =>
      dsimp only
      rcases Nat.lt_or_ge b.found.length ef with hroom | hfull
      · rcases hb with hfull | ⟨hexplored, hlive⟩
        · omega
        · have hwanted : wanted ef b.found (m.dist query (h.getNode n).vector) = true := by
            rw [wanted, decide_eq_true hroom, Bool.true_or]
          rw [if_pos hwanted]
          right
          -- a node is new, or it was seen before and stays pending or expanded
          have hcases : ∀ x, x ∈ n :: b.visited ∨ x = entryPoint → x = n ∨ b.Seen entryPoint x := by
            rintro x (hx | hx)
            · exact (List.mem_cons.mp hx).imp_right .inl
            · exact .inr (.inr hx)
          constructor
          · intro x hx
            rcases hcases x hx with rfl | hold
            · exact .inl (.inl List.mem_cons_self)
            · rcases hexplored x hold with hpending | hall
              · exact .inl (hpending.imp_left (List.mem_cons_of_mem _))
              · exact .inr fun y hy => (hall y hy).imp_left (List.mem_cons_of_mem _)
          · intro x hx hxlive
            rcases hcases x hx with rfl | hold
            · rw [if_neg (by simp [hxlive]), keepBest_of_lt _ hroom]
              exact List.mem_cons_self
            · have hmem := hlive x hold hxlive
              dsimp only
              split
              · exact hmem
              · rw [keepBest_of_lt _ hroom]
                exact List.mem_cons_of_mem _ hmem
      · left
        split
        · dsimp only
          split
          · exact hfull
          · exact le_length_keepBest _ hfull
        · exact hfull

theorem Beam.Complete.foldl_visit {expanding : Nat → Prop} {b : Beam δ}
    (hb : b.Complete h ef size layer entryPoint expanding) (m : Metric V δ) (query : V)
    (ns : List Nat) :
    (ns.foldl (h.visit m query ef size) b).Complete h ef size layer entryPoint expanding := by
  induction ns generalizing b with
  | nil => exact hb
  | cons n ns ih => exact ih (hb.visit m query n)

/-- The invariant of the loop between two turns. -/
structure Beam.Inv (m : Metric V δ) (h : HNSW V) (query : V) (ef size layer entryPoint : Nat)
    (b : Beam δ) : Prop where
  sound : b.Sound m h query size layer entryPoint
  complete : b.Complete h ef size layer entryPoint fun _ => False

/-- One turn: the nearest candidate is taken and its neighbours are looked at. -/
theorem Beam.Inv.expand {b : Beam δ} (hb : b.Inv m h query ef size layer entryPoint)
    {curr : Result δ} {rest : List (Result δ)}
    (hextract : extract nearer b.candidates = some (curr, rest)) :
    ((h.neighbors curr.id layer).foldl (h.visit m query ef size)
      { b with candidates := rest }).Inv m h query ef size layer entryPoint := by
  have hperm := extract_perm hextract
  have hmem : ∀ r, r ∈ b.candidates ↔ r = curr ∨ r ∈ rest := by
    intro r
    rw [hperm.mem_iff, List.mem_cons]
  have hcurr : b.Seen entryPoint curr.id :=
    hb.sound.candidates_seen curr ((hmem curr).mpr (.inl rfl))
  constructor
  · have hpopped : ({ b with candidates := rest } : Beam δ).Sound m h query size layer entryPoint :=
      { hb.sound with
        candidates_seen := fun r hr => hb.sound.candidates_seen r ((hmem r).mpr (.inr hr)) }
    exact hpopped.foldl_visit hcurr fun n hn => hn
  · have hpopped : ({ b with candidates := rest } : Beam δ).Complete h ef size layer entryPoint
        (· = curr.id) := by
      rcases hb.complete with hfull | ⟨hexplored, hlive⟩
      · exact .inl hfull
      · refine .inr ⟨?_, hlive⟩
        intro x hx
        rcases hexplored x hx with (hpending | hno) | hall
        · rcases List.mem_map.mp hpending with ⟨r, hr, rfl⟩
          rcases (hmem r).mp hr with rfl | hr
          · exact .inl (.inr rfl)
          · exact .inl (.inl (List.mem_map.mpr ⟨r, hr, rfl⟩))
        · exact hno.elim
        · exact .inr hall
    rcases hpopped.foldl_visit m query (h.neighbors curr.id layer) with
      hfull | ⟨hexplored, hlive⟩
    · exact .inl hfull
    · refine .inr ⟨?_, hlive⟩
      intro x hx
      rcases hexplored x hx with (hpending | rfl) | hall
      · exact .inl (.inl hpending)
      · exact .inr fun y hy => .inl (mem_visited_foldl hy.1 hy.2)
      · exact .inr hall

/-- The loop ends with no candidate left or with {lit}`ef` results. -/
theorem Beam.Inv.searchLoop {fuel : Nat} {b b' : Beam δ}
    (hb : b.Inv m h query ef size layer entryPoint)
    (hloop : h.searchLoop m query ef size layer fuel b = some b') :
    b'.Inv m h query ef size layer entryPoint ∧ (b'.candidates = [] ∨ ef ≤ b'.found.length) := by
  induction fuel generalizing b with
  | zero => simp [HNSW.searchLoop] at hloop
  | succ fuel ih =>
      rw [HNSW.searchLoop] at hloop
      split at hloop
      · next hnone =>
          rw [← Option.some.inj hloop]
          exact ⟨hb, .inl (extract_eq_none_iff.mp hnone)⟩
      · next curr rest hextract =>
          split at hloop
          · next hstops =>
              rw [← Option.some.inj hloop]
              refine ⟨hb, .inr ?_⟩
              rw [stops] at hstops
              split at hstops
              · contradiction
              · simpa using (Bool.and_eq_true_iff.mp hstops).2
          · exact ih (hb.expand hextract) hloop

omit [Preorder δ] [DecidableLT δ] [PriorityQueue (Result δ)] in
theorem startBeam_inv (m : Metric V δ) (h : HNSW V) (query : V) (ef size layer entryPoint : Nat) :
    (h.startBeam m entryPoint query size).Inv m h query ef size layer entryPoint := by
  have hseen : ∀ x, (h.startBeam m entryPoint query size).Seen entryPoint x → x = entryPoint := by
    rintro x (hx | hx)
    · rw [startBeam] at hx
      dsimp only at hx
      split at hx
      · exact List.mem_singleton.mp hx
      · cases hx
    · exact hx
  have hfound : ∀ r ∈ (h.startBeam m entryPoint query size).found,
      r = ⟨entryPoint, m.dist query (h.getNode entryPoint).vector, []⟩ ∧
        (h.getNode entryPoint).isDeleted = false := by
    intro r hr
    rw [startBeam] at hr
    dsimp only at hr
    split at hr
    · cases hr
    · next hlive => exact ⟨List.mem_singleton.mp hr, by simpa using hlive⟩
  constructor
  · refine ⟨?_, ?_, ?_, ?_, ?_, ?_, ?_⟩
    · intro hlt
      simp [startBeam, hlt]
    · intro x hx
      rw [hseen x hx]
    · intro r hr
      rw [List.mem_singleton.mp hr]
      exact .inr rfl
    · intro r hr
      rw [(hfound r hr).1]
      exact .inr rfl
    · intro r hr
      rw [(hfound r hr).1]
      exact (hfound r hr).2
    · intro r hr
      rw [(hfound r hr).1]
    · rw [startBeam]
      dsimp only
      split
      · exact List.nodup_nil
      · exact List.nodup_singleton _
  · refine .inr ⟨?_, ?_⟩
    · intro x hx
      rw [hseen x hx]
      exact .inl (.inl List.mem_cons_self)
    · intro x hx hlive
      rw [hseen x hx] at hlive ⊢
      simp [startBeam, hlive, ids]

end Loop

/-! ## The results -/

section Results

variable (m : Metric V δ) (h : HNSW V) (query : V) (ef layer entryPoint : Nat)

theorem searchBeam_inv :
    (h.searchBeam m entryPoint query ef layer).Inv m h query ef (h.visitedSize entryPoint) layer
        entryPoint ∧
      ((h.searchBeam m entryPoint query ef layer).candidates = [] ∨
        ef ≤ (h.searchBeam m entryPoint query ef layer).found.length) :=
  (startBeam_inv m h query ef _ layer entryPoint).searchLoop (Option.some_get _).symm

/-- Every result is a live node that can be reached, with its distance. -/
theorem searchLayer_sound {r : Result δ} (hr : r ∈ h.searchLayer m entryPoint query ef layer) :
    ReflTransGen (h.link layer (h.visitedSize entryPoint)) entryPoint r.id ∧
      (h.getNode r.id).isDeleted = false ∧
      r.distance = m.dist query (h.getNode r.id).vector := by
  have hsound := (searchBeam_inv m h query ef layer entryPoint).1.sound
  exact ⟨hsound.reachable _ (hsound.found_seen r hr), hsound.found_live r hr,
    hsound.found_dist r hr⟩

/-- No id is found twice. -/
theorem searchLayer_nodup : (ids (h.searchLayer m entryPoint query ef layer)).Nodup :=
  (searchBeam_inv m h query ef layer entryPoint).1.sound.found_nodup

/-- The search ends with {lit}`ef` results or with every live node that can be
reached. -/
theorem searchLayer_complete :
    ef ≤ (h.searchLayer m entryPoint query ef layer).length ∨
      ∀ x, ReflTransGen (h.link layer (h.visitedSize entryPoint)) entryPoint x →
        (h.getNode x).isDeleted = false → x ∈ ids (h.searchLayer m entryPoint query ef layer) := by
  rcases searchBeam_inv m h query ef layer entryPoint with ⟨hinv, hend⟩
  rcases hinv.complete with hfull | ⟨hexplored, hlive⟩
  · exact .inl hfull
  · rcases hend with hempty | hfull
    · right
      intro x hreach hxlive
      apply hlive x _ hxlive
      apply hexplored.mem_of_reachable _ (.inr rfl) hreach
      rintro y (hy | hno)
      · rw [hempty] at hy
        cases hy
      · exact hno
    · exact .inl hfull

variable {m h query ef layer entryPoint}

/-- The results of a search that reaches only ids below {lit}`n` are among these. -/
theorem searchLayer_subperm {n : Nat}
    (hbelow : ∀ x, ReflTransGen (h.link layer (h.visitedSize entryPoint)) entryPoint x → x < n) :
    List.Subperm (ids (h.searchLayer m entryPoint query ef layer)) (List.range n) := by
  apply List.subperm_of_subset (searchLayer_nodup m h query ef layer entryPoint)
  intro y hy
  rcases List.mem_map.mp hy with ⟨r, hr, rfl⟩
  exact List.mem_range.mpr (hbelow _ (searchLayer_sound m h query ef layer entryPoint hr).1)

/-- A search that has room for all the ids below {lit}`n`, and reaches no others, is
exhaustive. -/
theorem mem_searchLayer_of_le {n : Nat} (hn : n ≤ ef)
    (hbelow : ∀ x, ReflTransGen (h.link layer (h.visitedSize entryPoint)) entryPoint x → x < n)
    {x : Nat} (hx : ReflTransGen (h.link layer (h.visitedSize entryPoint)) entryPoint x)
    (hlive : (h.getNode x).isDeleted = false) :
    x ∈ ids (h.searchLayer m entryPoint query ef layer) := by
  rcases searchLayer_complete m h query ef layer entryPoint with hfull | hall
  · have hlen : (List.range n).length ≤
        (ids (h.searchLayer m entryPoint query ef layer)).length := by
      rw [List.length_range, ids, List.length_map]
      omega
    rw [((searchLayer_subperm hbelow).perm_of_length_le hlen).mem_iff, List.mem_range]
    exact hbelow x hx
  · exact hall x hx hlive

/-- A search finds something if a live node can be reached. -/
theorem searchLayer_ne_nil (hef : 0 < ef) {x : Nat}
    (hx : ReflTransGen (h.link layer (h.visitedSize entryPoint)) entryPoint x)
    (hlive : (h.getNode x).isDeleted = false) :
    h.searchLayer m entryPoint query ef layer ≠ [] := by
  rcases searchLayer_complete m h query ef layer entryPoint with hfull | hall
  · apply List.ne_nil_of_length_pos
    omega
  · intro hnil
    have hmem := hall x hx hlive
    rw [hnil] at hmem
    cases hmem

/-! ## Greedy descent -/

omit [PriorityQueue (Result δ)] in
/-- Greedy descent on a layer does not leave a set that is closed under its links. -/
theorem greedyLayer_mem {S : Nat → Prop} (hclosed : ∀ x, S x → ∀ y ∈ h.neighbors x layer, S y)
    {c : Cursor δ} (hc : S c.id) : S (h.greedyLayer m query layer c).id := by
  have hloop : ∀ fuel (c c' : Cursor δ), S c.id → h.greedyLoop m query layer fuel c = some c' →
      S c'.id := by
    intro fuel
    induction fuel with
    | zero => simp [greedyLoop]
    | succ fuel ih =>
        intro c c' hc hc'
        have hpass : S (h.greedyPass m query layer c).id := by
          rcases foldl_moveCloser_cases m h query (h.neighbors c.id layer)
            { c with changed := false } with heq | ⟨-, hmem, -⟩
          · rw [greedyPass, heq]
            exact hc
          · exact hclosed c.id hc _ hmem
        rw [greedyLoop] at hc'
        split at hc'
        · exact ih _ _ hpass hc'
        · rw [← Option.some.inj hc']
          exact hpass
  exact hloop _ c _ hc (Option.some_get _).symm

omit [PriorityQueue (Result δ)] in
/-- Greedy descent does not leave a set that is closed under the links of the layers it
passes. -/
theorem descend_mem {S : Nat → Prop} {bottom l : Nat}
    (hclosed : ∀ l', bottom < l' → l' ≤ l → ∀ x, S x → ∀ y ∈ h.neighbors x l', S y)
    {c : Cursor δ} (hc : S c.id) : S (h.descend m query bottom l c).id := by
  induction l generalizing c with
  | zero => exact hc
  | succ l ih =>
      rw [descend]
      split
      · next hlt =>
          apply ih
          · exact fun l' hbottom hl' => hclosed l' hbottom (by omega)
          · exact greedyLayer_mem (hclosed (l + 1) hlt le_rfl) hc
      · exact hc

omit [PriorityQueue (Result δ)] in
theorem descendFrom_mem {S : Nat → Prop} {bottom : Nat}
    (hclosed : ∀ l : Nat, bottom < l → l ≤ h.currentMaxLayer →
      ∀ x, S x → ∀ y ∈ h.neighbors x l, S y)
    (hentry : S entryPoint) : S (h.descendFrom m query bottom entryPoint) :=
  descend_mem (fun l hbottom hl => hclosed l hbottom (by omega)) hentry

/-- A beam search does not leave a set that is closed under the links of its layer. -/
theorem searchLayer_mem {S : Nat → Prop} (hclosed : ∀ x, S x → ∀ y ∈ h.neighbors x layer, S y)
    (hentry : S entryPoint) {n : Nat} (hn : n ∈ ids (h.searchLayer m entryPoint query ef layer)) :
    S n := by
  rcases List.mem_map.mp hn with ⟨r, hr, rfl⟩
  apply mem_of_reachable _ hentry (searchLayer_sound m h query ef layer entryPoint hr).1
  exact fun x hx y hy => hclosed x hx y hy.1

/-! ## The whole search -/

/-- {lit}`search` returns nothing but what it found on layer 0. -/
theorem mem_searchLayer_of_mem_search {k : Int} (hentry : h.entryPointId = some entryPoint)
    {i : Nat} (hi : i ∈ ids (h.search m query k)) :
    i ∈ ids (h.searchLayer m (h.descendFrom m query 0 entryPoint) query (efSearch k) 0) := by
  rw [search, hentry] at hi
  rcases List.mem_map.mp hi with ⟨r, hr, rfl⟩
  rcases List.mem_map.mp (List.mem_reverse.mp (List.mem_of_mem_take hr)) with ⟨r', hr', rfl⟩
  exact List.mem_map.mpr ⟨r', mem_of_mem_drain (List.mem_of_mem_filter hr'), rfl⟩

/-- A search does not leave a set that is closed under the links of all layers. -/
theorem mem_of_mem_search {S : Nat → Prop} {k : Int}
    (hclosed : ∀ l x, S x → ∀ y ∈ h.neighbors x l, S y)
    (hentry : h.entryPointId = some entryPoint) (hS : S entryPoint) {i : Nat}
    (hi : i ∈ ids (h.search m query k)) : S i := by
  have hstart : S (h.descendFrom m query 0 entryPoint) :=
    descendFrom_mem (fun l _ _ => hclosed l) hS
  exact searchLayer_mem (hclosed 0) hstart (mem_searchLayer_of_mem_search hentry hi)

/-- {lit}`search` drains what it found on layer 0, nearest last, and turns it around; nothing
is left out as deleted. -/
theorem search_eq (k : Int) (hentry : h.entryPointId = some entryPoint) :
    h.search m query k =
      ((drain farther
          (h.searchLayer m (h.descendFrom m query 0 entryPoint) query (efSearch k) 0).length
          (h.searchLayer m (h.descendFrom m query 0 entryPoint) query (efSearch k) 0)).reverse.map
        fun r => { r with metadata := h.metadataStorage.getMetadata r.id }).take
          (k % 2 ^ 64).toNat := by
  rw [search, hentry]
  dsimp only
  rw [List.filter_eq_self.mpr, List.map_reverse]
  intro r hr
  have hmem := mem_of_mem_drain hr
  simp [(searchLayer_sound m h query (efSearch k) 0 _ hmem).2.1]

/-- If {lit}`k` is not below the number of results, {lit}`search` returns what it found
on layer 0. -/
theorem mem_ids_search {k : Int} (hentry : h.entryPointId = some entryPoint)
    (hk : (h.searchLayer m (h.descendFrom m query 0 entryPoint) query (efSearch k) 0).length ≤
      (k % 2 ^ 64).toNat) {i : Nat} :
    i ∈ ids (h.search m query k) ↔
      i ∈ ids (h.searchLayer m (h.descendFrom m query 0 entryPoint) query (efSearch k) 0) := by
  rw [search_eq k hentry, List.take_of_length_le]
  · rw [ids, List.map_map]
    exact (((List.reverse_perm _).trans (drain_perm le_rfl)).map Result.id).mem_iff
  · rw [List.length_map, List.length_reverse, length_drain]
    omega

/-- A search with {lit}`k` at least the number of ids returns every live id that it can
reach on layer 0. -/
theorem mem_search_of_reachable {n : Nat} {k : Int} (hentry : h.entryPointId = some entryPoint)
    (hk : (n : Int) ≤ k) (hint : k < 2 ^ 31)
    (hbelow : ∀ x, ReflTransGen (h.link 0 (h.visitedSize (h.descendFrom m query 0 entryPoint)))
      (h.descendFrom m query 0 entryPoint) x → x < n) {i : Nat}
    (hi : ReflTransGen (h.link 0 (h.visitedSize (h.descendFrom m query 0 entryPoint)))
      (h.descendFrom m query 0 entryPoint) i)
    (hlive : (h.getNode i).isDeleted = false) : i ∈ ids (h.search m query k) := by
  apply (mem_ids_search hentry ?_).mpr
  · apply mem_searchLayer_of_le _ hbelow hi hlive
    rw [efSearch]
    omega
  · have hsub : List.Subperm
        (ids (h.searchLayer m (h.descendFrom m query 0 entryPoint) query (efSearch k) 0))
        (List.range n) := searchLayer_subperm hbelow
    have hlength := hsub.length_le
    rw [ids, List.length_map, List.length_range] at hlength
    omega

end Results

/-! ## The bitmap -/

/-- No {lit}`std::vector` has more elements than its {lit}`difference_type` can count. -/
def maxBits : Nat := 2 ^ 63 - 1

/-- The heaps of {lit}`search_layer`, {lean}`none` if {lit}`visited` is too long and its
allocation throws. -/
def searchBeamChecked (m : Metric V δ) (h : HNSW V) (entryPoint : Nat) (query : V)
    (ef layer : Nat) : Option (Beam δ) :=
  if h.visitedSize entryPoint ≤ maxBits then some (h.searchBeam m entryPoint query ef layer)
  else none

/-- The bitmap of a search can be allocated. -/
def BitmapFits (h : HNSW V) : Prop :=
  h.visitedSize 0 ≤ maxBits

omit [Zero V] in
/-- It makes no difference where the search starts. -/
theorem visitedSize_le_maxBits_iff (h : HNSW V) {entryPoint : Nat} (hentry : entryPoint < 2 ^ 32) :
    h.visitedSize entryPoint ≤ maxBits ↔ h.BitmapFits := by
  unfold BitmapFits visitedSize maxBits
  rcases Nat.lt_or_ge h.elementCount (2 ^ 32) with hsmall | hlarge
  · have hzero : max 0 h.elementCount < 2 ^ 32 := by omega
    have hmax : max entryPoint h.elementCount < 2 ^ 32 := by omega
    rw [Nat.mod_eq_of_lt (by omega), Nat.mod_eq_of_lt (by omega)]
    omega
  · rw [Nat.max_eq_right (by omega), Nat.max_eq_right (Nat.zero_le _)]

omit [Zero V] in
instance (h : HNSW V) : Decidable h.BitmapFits :=
  inferInstanceAs (Decidable (_ ≤ _))

/-! ## Calls -/

section Calls

variable (m : Metric V δ)

/-- A call of {lit}`search`, {lean}`none` if it throws. -/
def searchChecked (h : HNSW V) (query : V) (k : Int) : Option (List (Result δ)) :=
  match h.entryPointId with
  | none => some (h.search m query k)
  | some entryPoint =>
      if h.visitedSize (h.descendFrom m query 0 entryPoint) ≤ maxBits then
        some (h.search m query k)
      else none

/-- A call of {lit}`insert`.  The first search of it throws if its bitmap is too long, wherever
the search starts; then the slot is written, and nothing is linked or counted. -/
def insertCall (h : HNSW V) (level : Nat) (vec : V) (id : Nat) (metadata : Bytes) : HNSW V :=
  if h.entryPointId = none ∨ h.BitmapFits then h.insert m level vec id metadata
  else h.written vec id

/-- The slot after a call, and what it keeps of the others. -/
theorem getNode_insertCall (h : HNSW V) (level : Nat) (vec : V) (id : Nat) (metadata : Bytes)
    (j : Nat) :
    ((h.insertCall m level vec id metadata).getNode j).vector =
        (if j = id then vec else (h.getNode j).vector) ∧
      ((h.insertCall m level vec id metadata).getNode j).isDeleted =
        (if j = id then false else (h.getNode j).isDeleted) := by
  rw [insertCall]
  split
  · exact getNode_insert m h level vec id metadata j
  · rw [getNode_written]
    split
    · exact ⟨rfl, rfl⟩
    · exact ⟨rfl, rfl⟩

theorem storageSize_insertCall (h : HNSW V) (level : Nat) (vec : V) (id : Nat)
    (metadata : Bytes) :
    (h.insertCall m level vec id metadata).storageSize = (h.expandStorage id).storageSize := by
  rw [insertCall]
  split
  · exact storageSize_insert m h level vec id metadata
  · rfl

end Calls

end HNSW

end NanoDB.Index
