import Mathlib.Algebra.Group.Int.Defs
import Mathlib.Algebra.Group.Nat.Defs
import Mathlib.Data.List.Sort
import Mathlib.Data.Prod.Lex
import Mathlib.Order.Bounds.Defs
import NanoDB.Raft.Log

/-!
# Consistent hashing

The hash functions of {lit}`routing.hpp` and the ring of {lit}`hash_ring.hpp`.
Hashes are natural numbers below {lit}`2 ^ 64`; the multiplication wraps.  A ring is
built from the list of shard ids and never changed in place.

Main results:

- Theorem {lit}`HashRing.route_mem`: a key is routed to one of the shards the ring
  was built from.
- Theorem {lit}`HashRing.exists_route`: a ring of at least one shard routes every
  key.
- Theorem {lit}`HashRing.route_eq_some_iff`: the owner of a key is the least point at or
  after its hash, or the least of all.
- Theorem {lit}`HashRing.route_of_subset`: a key stays with its shard when other shards
  leave.
- Theorem {lit}`HashRing.route_add_shard`: a key moves only to a shard that joins, and only
  from a shard that leaves.
- Theorem {lit}`HashRing.route_of_same_shards`: the owner of a key depends on the set of shards
  only.
-/

namespace NanoDB.Cluster

open Raft (Bytes)

/-- A client-supplied key, {lit}`external_id`. -/
abbrev Key := Bytes

instance : LawfulBEq Key :=
  inferInstanceAs (LawfulBEq (List UInt8))

/-- {lit}`std::to_string` of an unsigned number. -/
def decimal (n : Nat) : Bytes :=
  (Nat.toDigits 10 n).map fun c => UInt8.ofNat c.toNat

/-- {lit}`std::to_string` of a signed number. -/
def decimalInt : Int → Bytes
  | .ofNat n => decimal n
  | .negSucc n => 45 :: decimal (n + 1)

/-- FNV-1a, 64 bits. -/
def fnv1a64 (s : Bytes) : Nat :=
  s.foldl (fun h c => ((h ^^^ c.toNat) * 1099511628211) % 2 ^ 64) 14695981039346656037

/-- The hash a key is routed by. -/
def wellMixedHash (externalId : Key) : Nat :=
  fnv1a64 (decimal (fnv1a64 externalId))

def virtualNodesPerShard : Nat := 200

/-- Hash points of virtual nodes come from hashing the shard id's hash again and
again. -/
def chainedVnodePoint (shardId : Int) (vnodeIndex : Nat) : Nat :=
  (fun h => fnv1a64 (decimal h))^[vnodeIndex + 1] (fnv1a64 (decimalInt shardId))

/-- The sorted points of a ring, each with the shard that owns it. -/
structure HashRing where
  points : List (Nat × Int) := []
deriving DecidableEq, Repr

namespace HashRing

/-- The order of {lit}`std::pair`. -/
def pointLe (p q : Nat × Int) : Prop :=
  p.1 < q.1 ∨ (p.1 = q.1 ∧ p.2 ≤ q.2)

instance : DecidableRel pointLe := fun p q =>
  inferInstanceAs (Decidable (p.1 < q.1 ∨ (p.1 = q.1 ∧ p.2 ≤ q.2)))

def build (shardIds : List Int) : HashRing where
  points := (shardIds.flatMap fun sid =>
    (List.range virtualNodesPerShard).map fun v => (chainedVnodePoint sid v, sid)).insertionSort
      pointLe

/-- The owner of a key: the first point at or after the key's hash, wrapping around.
An empty ring, for which the source requires not to be asked, has no owner. -/
def route (ring : HashRing) (externalId : Key) : Option Int :=
  ((ring.points.find? fun p => decide (wellMixedHash externalId ≤ p.1)).or ring.points.head?).map
    (·.2)

theorem mem_build_points {shardIds : List Int} {p : Nat × Int} (hp : p ∈ (build shardIds).points) :
    p.2 ∈ shardIds := by
  rw [build, List.mem_insertionSort, List.mem_flatMap] at hp
  obtain ⟨sid, hsid, hp⟩ := hp
  obtain ⟨v, -, rfl⟩ := List.mem_map.mp hp
  exact hsid

/-- A key is routed to one of the shards of the ring. -/
theorem route_mem {shardIds : List Int} {externalId : Key} {sid : Int}
    (h : (build shardIds).route externalId = some sid) : sid ∈ shardIds := by
  rw [route, Option.map_eq_some_iff] at h
  obtain ⟨p, hp, rfl⟩ := h
  apply mem_build_points
  rw [Option.or_eq_some_iff] at hp
  rcases hp with hfound | ⟨-, hfirst⟩
  · exact List.mem_of_find?_eq_some hfound
  · exact List.mem_of_head? hfirst

/-- A ring of at least one shard routes every key. -/
theorem exists_route {shardIds : List Int} (hne : shardIds ≠ []) (externalId : Key) :
    ∃ sid, (build shardIds).route externalId = some sid := by
  obtain ⟨sid, rest, rfl⟩ := List.exists_cons_of_ne_nil hne
  have hmem : (chainedVnodePoint sid 0, sid) ∈ (build (sid :: rest)).points := by
    rw [build, List.mem_insertionSort, List.mem_flatMap]
    exact ⟨sid, List.mem_cons_self, List.mem_map.mpr ⟨0, by decide, rfl⟩⟩
  cases hpoints : (build (sid :: rest)).points with
  | nil => simp [hpoints] at hmem
  | cons p ps =>
      rw [route, hpoints, List.head?_cons]
      cases (p :: ps).find? fun q => decide (wellMixedHash externalId ≤ q.1) with
      | none => exact ⟨p.2, rfl⟩
      | some q => exact ⟨q.2, rfl⟩

/-! ## The owner of a hash -/

section Owner

variable {shardIds shardIds' : List Int} {externalId : Key} {sid : Int} {p q : Nat × Int}

theorem pointLe_refl (p : Nat × Int) : pointLe p p :=
  .inr ⟨rfl, Int.le_refl _⟩

theorem pointLe_trans {r : Nat × Int} (h : pointLe p q) (h' : pointLe q r) : pointLe p r := by
  rw [pointLe] at *
  omega

theorem pointLe_total (p q : Nat × Int) : pointLe p q ∨ pointLe q p := by
  rw [pointLe, pointLe]
  omega

theorem pointLe_antisymm (h : pointLe p q) (h' : pointLe q p) : p = q := by
  rw [pointLe] at *
  exact Prod.ext (by omega) (by omega)

/-- The points of a ring. -/
theorem mem_points_build : p ∈ (build shardIds).points ↔
    ∃ sid ∈ shardIds, ∃ v < virtualNodesPerShard, p = (chainedVnodePoint sid v, sid) := by
  rw [build, List.mem_insertionSort, List.mem_flatMap]
  constructor
  · rintro ⟨sid, hsid, hp⟩
    rcases List.mem_map.mp hp with ⟨v, hv, rfl⟩
    exact ⟨sid, hsid, v, List.mem_range.mp hv, rfl⟩
  · rintro ⟨sid, hsid, v, hv, rfl⟩
    exact ⟨sid, hsid, List.mem_map.mpr ⟨v, List.mem_range.mpr hv, rfl⟩⟩

theorem sorted_build (shardIds : List Int) : (build shardIds).points.Pairwise pointLe := by
  have : Std.Total pointLe := ⟨pointLe_total⟩
  have : IsTrans (Nat × Int) pointLe := ⟨fun _ _ _ => pointLe_trans⟩
  exact List.pairwise_insertionSort _ _

/-- The point that owns a hash: the least one at or after it, or the least one of all if
there is none. -/
def IsOwner (points : List (Nat × Int)) (h : Nat) (p : Nat × Int) : Prop :=
  p ∈ points ∧ ((h ≤ p.1 ∧ ∀ q ∈ points, h ≤ q.1 → pointLe p q) ∨
    ((∀ q ∈ points, q.1 < h) ∧ ∀ q ∈ points, pointLe p q))

theorem IsOwner.unique {points : List (Nat × Int)} {h : Nat} (hp : IsOwner points h p)
    (hq : IsOwner points h q) : p = q := by
  rcases hp with ⟨hpmem, ⟨hple, hpleast⟩ | ⟨hpnone, hpleast⟩⟩
  · rcases hq with ⟨hqmem, ⟨hqle, hqleast⟩ | ⟨hqnone, -⟩⟩
    · exact pointLe_antisymm (hpleast q hqmem hqle) (hqleast p hpmem hple)
    · exact absurd (hqnone p hpmem) (by omega)
  · rcases hq with ⟨hqmem, ⟨hqle, -⟩ | ⟨-, hqleast⟩⟩
    · exact absurd (hpnone q hqmem) (by omega)
    · exact pointLe_antisymm (hpleast q hqmem) (hqleast p hpmem)

/-- A sorted list is searched for the owner. -/
theorem isOwner_of_find {points : List (Nat × Int)} (hsorted : points.Pairwise pointLe) {h : Nat}
    (hp : ((points.find? fun p => decide (h ≤ p.1)).or points.head?) = some p) :
    IsOwner points h p := by
  have hhead : ∀ {l : List (Nat × Int)} {x}, l.Pairwise pointLe → l.head? = some x →
      x ∈ l ∧ ∀ y ∈ l, pointLe x y := by
    intro l x hl hx
    cases l with
    | nil => contradiction
    | cons y l =>
        cases hx
        refine ⟨List.mem_cons_self, ?_⟩
        intro z hz
        rcases List.mem_cons.mp hz with rfl | hz
        · exact pointLe_refl z
        · exact (List.pairwise_cons.mp hl).1 z hz
  rw [Option.or_eq_some_iff] at hp
  rcases hp with hfound | ⟨hnone, hfirst⟩
  · rw [← List.head?_filter] at hfound
    rcases hhead (hsorted.filter _) hfound with ⟨hmem, hleast⟩
    rw [List.mem_filter, decide_eq_true_iff] at hmem
    refine ⟨hmem.1, .inl ⟨hmem.2, ?_⟩⟩
    intro q hq hle
    exact hleast q (List.mem_filter.mpr ⟨hq, decide_eq_true hle⟩)
  · rcases hhead hsorted hfirst with ⟨hmem, hleast⟩
    refine ⟨hmem, .inr ⟨?_, hleast⟩⟩
    intro q hq
    have := List.find?_eq_none.mp hnone q hq
    simpa using this

/-- A key is routed to the shard of the point that owns its hash. -/
theorem route_eq_some_iff : (build shardIds).route externalId = some sid ↔
    ∃ p, IsOwner (build shardIds).points (wellMixedHash externalId) p ∧ p.2 = sid := by
  rw [route, Option.map_eq_some_iff]
  constructor
  · rintro ⟨p, hp, rfl⟩
    exact ⟨p, isOwner_of_find (sorted_build shardIds) hp, rfl⟩
  · rintro ⟨p, hp, rfl⟩
    cases hfound : ((build shardIds).points.find? fun p =>
        decide (wellMixedHash externalId ≤ p.1)).or (build shardIds).points.head? with
    | some q => exact ⟨q, rfl, by rw [hp.unique (isOwner_of_find (sorted_build shardIds) hfound)]⟩
    | none =>
        rw [Option.or_eq_none_iff, List.head?_eq_none_iff] at hfound
        rw [IsOwner, hfound.2] at hp
        simp at hp

/-- A key stays with its shard when other shards leave. -/
theorem route_of_subset (hsub : shardIds ⊆ shardIds') (hsid : sid ∈ shardIds)
    (h : (build shardIds').route externalId = some sid) :
    (build shardIds).route externalId = some sid := by
  rw [route_eq_some_iff] at h ⊢
  rcases h with ⟨p, ⟨hmem, hleast⟩, rfl⟩
  have hpoints : ∀ q ∈ (build shardIds).points, q ∈ (build shardIds').points := by
    intro q hq
    rcases mem_points_build.mp hq with ⟨sid, hsid, rest⟩
    exact mem_points_build.mpr ⟨sid, hsub hsid, rest⟩
  refine ⟨p, ⟨?_, ?_⟩, rfl⟩
  · rcases mem_points_build.mp hmem with ⟨sid, -, v, hv, rfl⟩
    exact mem_points_build.mpr ⟨sid, hsid, v, hv, rfl⟩
  · rcases hleast with ⟨hle, hleast⟩ | ⟨hnone, hleast⟩
    · exact .inl ⟨hle, fun q hq => hleast q (hpoints q hq)⟩
    · exact .inr ⟨fun q hq => hnone q (hpoints q hq), fun q hq => hleast q (hpoints q hq)⟩

/-- Adding a shard moves a key to the new shard or not at all, and removing it moves the
keys of that shard and no others.  The two rings may list their shards in any order and
more than once. -/
theorem route_add_shard (hnew : sid ∉ shardIds)
    (hadd : ∀ x, x ∈ shardIds' ↔ x = sid ∨ x ∈ shardIds) (externalId : Key) :
    ((build shardIds').route externalId = some sid ∨
      (build shardIds').route externalId = (build shardIds).route externalId) ∧
    ((build shardIds').route externalId ≠ (build shardIds).route externalId ↔
      (build shardIds').route externalId = some sid) := by
  have hne : shardIds' ≠ [] := List.ne_nil_of_mem ((hadd sid).mpr (.inl rfl))
  rcases exists_route hne externalId with ⟨owner, howner⟩
  rcases (hadd owner).mp (route_mem howner) with rfl | hold
  · -- the new shard cannot have been the owner before
    refine ⟨.inl howner, fun _ => howner, ?_⟩
    rintro - heq
    rw [howner] at heq
    exact hnew (route_mem heq.symm)
  · have hkept : (build shardIds).route externalId = some owner :=
      route_of_subset (fun x hx => (hadd x).mpr (.inr hx)) hold howner
    have hsame : (build shardIds').route externalId = (build shardIds).route externalId :=
      howner.trans hkept.symm
    refine ⟨.inr hsame, fun hmoved => absurd hsame hmoved, ?_⟩
    intro hsid
    rw [howner, Option.some_inj] at hsid
    exact absurd (hsid ▸ hold) hnew

end Owner

/-- Shard 1 joins shard 0. -/
theorem route_add_shard_one :
    ((build [1, 0]).route [97] = some 1 ∨ (build [1, 0]).route [97] = (build [0]).route [97]) ∧
    ((build [1, 0]).route [97] ≠ (build [0]).route [97] ↔ (build [1, 0]).route [97] = some 1) :=
  route_add_shard (by decide) (by simp) [97]

/-! ## The set of shards -/

section SetOfShards

variable {shardIds : List Int} {externalId : Key} {sid : Int}

/-- The virtual nodes of a set of shards, ordered by point and then by shard. -/
def virtualNodes (shards : Set Int) : Set (Nat ×ₗ Int) :=
  {q | ∃ sid ∈ shards, ∃ v < virtualNodesPerShard, q = toLex (chainedVnodePoint sid v, sid)}

/-- The virtual node that owns a hash: the least one whose point is not below it, or the least
of all when there is none. -/
def OwnerNode (shards : Set Int) (h : Nat) (q : Nat ×ₗ Int) : Prop :=
  IsLeast {q ∈ virtualNodes shards | h ≤ (ofLex q).1} q ∨
    ({q ∈ virtualNodes shards | h ≤ (ofLex q).1} = ∅ ∧ IsLeast (virtualNodes shards) q)

theorem toLex_le_toLex_iff (p q : Nat × Int) : toLex p ≤ toLex q ↔ pointLe p q :=
  Prod.Lex.toLex_le_toLex

/-- The points of a ring are the virtual nodes of its set of shards. -/
theorem mem_virtualNodes (p : Nat × Int) :
    toLex p ∈ virtualNodes {sid | sid ∈ shardIds} ↔ p ∈ (build shardIds).points :=
  mem_points_build.symm

/-- The owner in the sorted list of points is the owner in the set of virtual nodes. -/
theorem isOwner_iff_ownerNode (h : Nat) (p : Nat × Int) :
    IsOwner (build shardIds).points h p ↔
      OwnerNode {sid | sid ∈ shardIds} h (toLex p) := by
  constructor
  · rintro ⟨hmem, ⟨hle, hleast⟩ | ⟨hnone, hleast⟩⟩
    · left
      refine ⟨⟨(mem_virtualNodes p).mpr hmem, hle⟩, ?_⟩
      rintro q ⟨hq, hqle⟩
      exact (toLex_le_toLex_iff p (ofLex q)).mpr
        (hleast (ofLex q) ((mem_virtualNodes (ofLex q)).mp hq) hqle)
    · right
      constructor
      · ext q
        simp only [Set.mem_ofPred_eq, Set.mem_empty_iff_false, iff_false, not_and]
        intro hq
        exact Nat.not_le.mpr (hnone (ofLex q) ((mem_virtualNodes (ofLex q)).mp hq))
      · refine ⟨(mem_virtualNodes p).mpr hmem, ?_⟩
        intro q hq
        exact (toLex_le_toLex_iff p (ofLex q)).mpr
          (hleast (ofLex q) ((mem_virtualNodes (ofLex q)).mp hq))
  · rintro (⟨⟨hmem, hle⟩, hleast⟩ | ⟨hnone, hmem, hleast⟩)
    · refine ⟨(mem_virtualNodes p).mp hmem, .inl ⟨hle, ?_⟩⟩
      intro q hq hqle
      exact (toLex_le_toLex_iff p q).mp (hleast ⟨(mem_virtualNodes q).mpr hq, hqle⟩)
    · refine ⟨(mem_virtualNodes p).mp hmem, .inr ⟨?_, ?_⟩⟩
      · intro q hq
        apply Nat.lt_of_not_le
        intro hqle
        have hin : toLex q ∈ {q ∈ virtualNodes {sid | sid ∈ shardIds} | h ≤ (ofLex q).1} :=
          ⟨(mem_virtualNodes q).mpr hq, hqle⟩
        rw [hnone] at hin
        exact hin
      · intro q hq
        exact (toLex_le_toLex_iff p q).mp (hleast ((mem_virtualNodes q).mpr hq))

/-- A key is routed to the shard of the virtual node that owns its hash. -/
theorem route_eq_some_iff_ownerNode :
    (build shardIds).route externalId = some sid ↔
      ∃ x, OwnerNode {sid | sid ∈ shardIds} (wellMixedHash externalId) (toLex (x, sid)) := by
  rw [route_eq_some_iff]
  constructor
  · rintro ⟨p, hp, rfl⟩
    exact ⟨p.1, (isOwner_iff_ownerNode _ p).mp hp⟩
  · rintro ⟨x, hx⟩
    exact ⟨(x, sid), (isOwner_iff_ownerNode _ (x, sid)).mpr hx, rfl⟩

/-- The rings of two lists with the same set of shards, in any order and with any repetitions,
route every key in the same way: to the shard of the lexicographically least virtual node whose
point is at least the hash of the key, or of the least one of all when there is none. -/
theorem route_of_same_shards {shardIds shardIds' : List Int}
    (hsame : ∀ sid, sid ∈ shardIds ↔ sid ∈ shardIds') (externalId : Key) :
    (build shardIds).route externalId = (build shardIds').route externalId ∧
      (shardIds ≠ [] → ∃ sid, (build shardIds).route externalId = some sid) ∧
      ∀ sid, (build shardIds).route externalId = some sid ↔
        ∃ x, OwnerNode {sid | sid ∈ shardIds} (wellMixedHash externalId) (toLex (x, sid)) := by
  refine ⟨?_, fun hne => exists_route hne externalId, fun sid => route_eq_some_iff_ownerNode⟩
  have hset : {sid | sid ∈ shardIds} = {sid | sid ∈ shardIds'} := Set.ext hsame
  apply Option.ext
  intro sid
  rw [route_eq_some_iff_ownerNode, route_eq_some_iff_ownerNode, hset]

/-- The shards 0 and 1 in another order, one of them twice. -/
theorem route_of_same_shards_two :
    (build [0, 1]).route [97] = (build [1, 0, 1]).route [97] ∧
      (([0, 1] : List Int) ≠ [] → ∃ sid, (build [0, 1]).route [97] = some sid) ∧
      ∀ sid, (build [0, 1]).route [97] = some sid ↔
        ∃ x, OwnerNode {sid | sid ∈ [0, 1]} (wellMixedHash [97]) (toLex (x, sid)) := by
  have hsame : ∀ sid : Int, sid ∈ [0, 1] ↔ sid ∈ [1, 0, 1] := by
    intro sid
    simp only [List.mem_cons, List.not_mem_nil, or_false]
    omega
  exact route_of_same_shards hsame [97]

end SetOfShards

/-! ## Computing a route -/

/-- The hash points of one shard, each from the one before. -/
def chainFrom (h : Nat) : Nat → List Nat
  | 0 => []
  | n + 1 => fnv1a64 (decimal h) :: chainFrom (fnv1a64 (decimal h)) n

theorem mem_chainFrom {h x n : Nat} :
    x ∈ chainFrom h n ↔ ∃ v < n, x = (fun h => fnv1a64 (decimal h))^[v + 1] h := by
  induction n generalizing h with
  | zero => simp [chainFrom]
  | succ n ih =>
      rw [chainFrom, List.mem_cons, ih]
      constructor
      · rintro (rfl | ⟨v, hv, rfl⟩)
        · exact ⟨0, by omega, rfl⟩
        · exact ⟨v + 1, by omega, rfl⟩
      · rintro ⟨v, hv, rfl⟩
        cases v with
        | zero => exact .inl rfl
        | succ v => exact .inr ⟨v, by omega, rfl⟩

/-- The owner of a key, found without sorting the points. -/
theorem route_of_chain {shardIds : List Int} {externalId : Key} (p : Nat × Int)
    (hsid : p.2 ∈ shardIds)
    (hp : p.1 ∈ chainFrom (fnv1a64 (decimalInt p.2)) virtualNodesPerShard)
    (hle : wellMixedHash externalId ≤ p.1)
    (hleast : ∀ sid ∈ shardIds, ∀ x ∈ chainFrom (fnv1a64 (decimalInt sid)) virtualNodesPerShard,
      wellMixedHash externalId ≤ x → pointLe p (x, sid)) :
    (build shardIds).route externalId = some p.2 := by
  rw [route_eq_some_iff]
  refine ⟨p, ⟨?_, .inl ⟨hle, ?_⟩⟩, rfl⟩
  · rcases mem_chainFrom.mp hp with ⟨v, hv, hx⟩
    exact mem_points_build.mpr ⟨p.2, hsid, v, hv, Prod.ext hx rfl⟩
  · intro q hq hqle
    rcases mem_points_build.mp hq with ⟨sid, hsid', v, hv, rfl⟩
    exact hleast sid hsid' _ (mem_chainFrom.mpr ⟨v, hv, rfl⟩) hqle

end HashRing

end NanoDB.Cluster
