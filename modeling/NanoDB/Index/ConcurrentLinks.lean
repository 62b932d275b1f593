import NanoDB.Index.FullList
import NanoDB.Lib.CriticalSection

/-!
# Concurrent links

Inserts run on several threads, and {lit}`add_link` is where they meet: it changes the
neighbour arrays of a node under the spin lock of that node.  Here its steps are taken apart,
down to the single reads and writes of the arrays and of the counter, and interleaved with the
steps of other threads.

The vectors are written before a node is linked and do not change.  What the searches of other
inserts read without a lock while the arrays change is left out.

Main results:

- Theorem {lit}`implements_linkRows`: what the steps of one {lit}`add_link` come to.
- Theorem {lit}`concurrent_links_linearise`: in every interleaving the lists are those of the
  calls one after the other, in the order of their unlocks.
- Theorem {lit}`no_link_lost`: as long as there is room, no link of any thread is lost.
- Theorem {lit}`links_not_deadlocked`: no thread spins on a lock that nobody can leave.
-/

namespace NanoDB.Index

open NanoDB.Lib

variable {V δ : Type*}

/-! ## The arrays of a node -/

/-- The arrays {lit}`neighbors` and {lit}`neighbor_counts` of a node, all slots of them. -/
structure Rows where
  slot : Nat → Nat → Nat
  count : Nat → Nat

namespace Rows

/-- The used part of a row. -/
def list (r : Rows) (layer : Nat) : List Nat :=
  (List.range (r.count layer)).map (r.slot layer)

def setSlot (r : Rows) (layer i id : Nat) : Rows :=
  { r with slot := Function.update r.slot layer (Function.update (r.slot layer) i id) }

def setCount (r : Rows) (layer n : Nat) : Rows :=
  { r with count := Function.update r.count layer n }

@[simp]
theorem length_list (r : Rows) (layer : Nat) : (r.list layer).length = r.count layer := by
  simp [list]

@[simp]
theorem count_setSlot (r : Rows) (layer i id : Nat) : (r.setSlot layer i id).count = r.count :=
  rfl

theorem getElem?_list (r : Rows) (layer j : Nat) :
    (r.list layer)[j]? = if j < r.count layer then some (r.slot layer j) else none := by
  rw [list, List.getElem?_map]
  split
  · next hlt => rw [List.getElem?_range hlt, Option.map_some]
  · next hge => rw [List.getElem?_eq_none (by rw [List.length_range]; omega), Option.map_none]

theorem slot_setSlot (r : Rows) (layer i id : Nat) :
    (r.setSlot layer i id).slot layer = Function.update (r.slot layer) i id :=
  Function.update_self _ _ _

theorem slot_setSlot_of_ne (r : Rows) {layer l : Nat} (hne : l ≠ layer) (i id : Nat) :
    (r.setSlot layer i id).slot l = r.slot l :=
  Function.update_of_ne hne _ _

theorem count_setCount_of_ne (r : Rows) {layer l : Nat} (hne : l ≠ layer) (n : Nat) :
    (r.setCount layer n).count l = r.count l :=
  Function.update_of_ne hne _ _

/-- A write to the slot behind the used part is not seen. -/
theorem list_setSlot_count (r : Rows) (layer id : Nat) :
    (r.setSlot layer (r.count layer) id).list layer = r.list layer := by
  refine List.ext_getElem? fun j => ?_
  rw [getElem?_list, getElem?_list, count_setSlot]
  split
  · next hlt =>
      rw [slot_setSlot, Function.update_of_ne (by omega)]
  · rfl

/-- It is seen when the counter is raised. -/
theorem list_append (r : Rows) (layer id : Nat) :
    ((r.setSlot layer (r.count layer) id).setCount layer (r.count layer + 1)).list layer =
      r.list layer ++ [id] := by
  rw [← list_setSlot_count r layer id]
  simp only [list, setCount, Function.update_self, List.range_succ, List.map_append,
    List.map_cons, List.map_nil, setSlot]

/-- A write to a used slot replaces an entry. -/
theorem list_setSlot (r : Rows) (layer i id : Nat) :
    (r.setSlot layer i id).list layer = (r.list layer).set i id := by
  refine List.ext_getElem? fun j => ?_
  rw [List.getElem?_set, getElem?_list, getElem?_list, count_setSlot, length_list, slot_setSlot]
  by_cases hij : i = j
  · subst hij
    rw [Function.update_self, if_pos rfl]
  · rw [Function.update_of_ne (fun heq => hij heq.symm), if_neg hij]

theorem list_setSlot_of_ne (r : Rows) {layer l : Nat} (hne : l ≠ layer) (i id : Nat) :
    (r.setSlot layer i id).list l = r.list l := by
  rw [list, list, count_setSlot, slot_setSlot_of_ne r hne]

theorem list_setCount_of_ne (r : Rows) {layer l : Nat} (hne : l ≠ layer) (n : Nat) :
    (r.setCount layer n).list l = r.list l := by
  rw [list, list, count_setCount_of_ne r hne]
  rfl

/-- The entries before a position, and the one there. -/
theorem take_succ_list (r : Rows) {layer i : Nat} (hi : i < r.count layer) :
    (r.list layer).take (i + 1) = (r.list layer).take i ++ [r.slot layer i] := by
  rw [List.take_add_one, getElem?_list, if_pos hi]
  rfl

end Rows

/-! ## The steps of one call -/

/-- The arguments of a call of {lit}`add_link` for a node that has a lock. -/
structure LinkCall (locks : Nat) where
  src : Nat
  dest : Nat
  layer : Nat
  locked : src < locks

/-- Where a call is, with its local variables.  {lit}`scan` is the loop over the first
{lit}`count` slots at turn {lit}`i`. -/
inductive LinkPc (δ : Type*) where
  | start
  | counted (count : Nat)
  | stored
  | loaded (count : Nat)
  | scan (count i : Nat) (worst : Option Nat × δ)
  | compare (worst : Option Nat × δ)
  | finished

section Calls

variable [Preorder δ] [DecidableLT δ] (m : Metric V δ) (vec : Nat → V) {locks : Nat}

/-- The distance of a slot's node from the node that is linked. -/
def linkDistance (call : LinkCall locks) (n : Nat) : δ :=
  m.dist (vec call.src) (vec n)

/-- One read or write of {lit}`add_link` under the lock. -/
def linkWork (call : LinkCall locks) : LinkPc δ → Rows → Option (LinkPc δ × Rows)
  | .start, r => some (.counted (r.count call.layer), r)
  | .counted count, r =>
      if count < HNSW.maxConn call.layer then some (.stored, r.setSlot call.layer count call.dest)
      else some (.scan count 0 (none, m.minusOne), r)
  | .stored, r => some (.loaded (r.count call.layer), r)
  | .loaded count, r => some (.finished, r.setCount call.layer (count + 1))
  | .scan count i worst, r =>
      if i < count then
        let d := linkDistance m vec call (r.slot call.layer i)
        some (.scan count (i + 1) (if worst.2 < d then (some i, d) else worst), r)
      else some (.compare worst, r)
  | .compare (none, _), r => some (.finished, r)
  | .compare (some i, maxD), r =>
      if linkDistance m vec call call.dest < maxD then
        some (.finished, r.setSlot call.layer i call.dest)
      else some (.finished, r)
  | .finished, _ => none

/-- The calls of {lit}`add_link` on an index with the given vectors. -/
def linkCalls (locks : Nat) : LockedCalls Nat (LinkCall locks) (LinkPc δ) Rows where
  key := LinkCall.src
  start _ := .start
  work := linkWork m vec

/-- A call of {lit}`add_link` in one step. -/
def linkRows (call : LinkCall locks) (r : Rows) : Rows :=
  if r.count call.layer < HNSW.maxConn call.layer then
    (r.setSlot call.layer (r.count call.layer) call.dest).setCount call.layer
      (r.count call.layer + 1)
  else
    match scanMax (linkDistance m vec call) 0 (none, m.minusOne) (r.list call.layer) with
    | (none, _) => r
    | (some i, maxD) =>
        if linkDistance m vec call call.dest < maxD then r.setSlot call.layer i call.dest else r

/-- Where a call that runs alone stands, in terms of the arrays at its start. -/
def LinkAt (call : LinkCall locks) (r : Rows) : LinkPc δ → Rows → Prop
  | .start, res => res = r
  | .counted count, res => res = r ∧ count = r.count call.layer
  | .stored, res => r.count call.layer < HNSW.maxConn call.layer ∧
      res = r.setSlot call.layer (r.count call.layer) call.dest
  | .loaded count, res => r.count call.layer < HNSW.maxConn call.layer ∧
      res = r.setSlot call.layer (r.count call.layer) call.dest ∧ count = r.count call.layer
  | .scan count i worst, res => ¬ r.count call.layer < HNSW.maxConn call.layer ∧ res = r ∧
      count = r.count call.layer ∧ i ≤ count ∧
      worst = scanMax (linkDistance m vec call) 0 (none, m.minusOne)
        ((r.list call.layer).take i)
  | .compare worst, res => ¬ r.count call.layer < HNSW.maxConn call.layer ∧ res = r ∧
      worst = scanMax (linkDistance m vec call) 0 (none, m.minusOne) (r.list call.layer)
  | .finished, res => res = linkRows m vec call r

/-- Each step of a call that runs alone goes from one of its places to the next. -/
theorem linkAt_of_alone {call : LinkCall locks} {r res : Rows} {pc : LinkPc δ}
    (h : (linkCalls m vec locks).Alone call r pc res) : LinkAt m vec call r pc res := by
  induction h with
  | start => rfl
  | @work loc loc' res res' _ hwork ih =>
      cases loc with
      | start =>
          cases hwork
          rw [LinkAt] at ih
          rw [ih]
          exact ⟨rfl, rfl⟩
      | counted count =>
          obtain ⟨rfl, rfl⟩ := ih
          simp only [linkCalls, linkWork] at hwork
          split at hwork
          · next hroom =>
              cases hwork
              exact ⟨hroom, rfl⟩
          · next hfull =>
              cases hwork
              exact ⟨hfull, rfl, rfl, Nat.zero_le _, rfl⟩
      | stored =>
          obtain ⟨hroom, rfl⟩ := ih
          cases hwork
          exact ⟨hroom, rfl, rfl⟩
      | loaded count =>
          obtain ⟨hroom, rfl, rfl⟩ := ih
          cases hwork
          rw [LinkAt, linkRows, if_pos hroom]
      | scan count i worst =>
          obtain ⟨hfull, rfl, rfl, hi, rfl⟩ := ih
          simp only [linkCalls, linkWork] at hwork
          split at hwork
          · next hlt =>
              cases hwork
              refine ⟨hfull, rfl, rfl, hlt, ?_⟩
              rw [Rows.take_succ_list _ hlt, scanMax_concat, List.length_take, Rows.length_list,
                Nat.min_eq_left hi, Nat.zero_add]
          · next hge =>
              cases hwork
              refine ⟨hfull, rfl, ?_⟩
              rw [List.take_of_length_le (by rw [Rows.length_list]; omega)]
      | compare worst =>
          obtain ⟨hfull, rfl, hworst⟩ := ih
          rcases worst with ⟨_ | i, maxD⟩
          · cases hwork
            rw [LinkAt, linkRows, if_neg hfull, ← hworst]
          · simp only [linkCalls, linkWork] at hwork
            split at hwork
            · next hcloser =>
                cases hwork
                rw [LinkAt, linkRows, if_neg hfull, ← hworst]
                exact (if_pos hcloser).symm
            · next hfarther =>
                cases hwork
                rw [LinkAt, linkRows, if_neg hfull, ← hworst]
                exact (if_neg hfarther).symm
      | finished => cases hwork

/-- What the steps of a call come to. -/
theorem implements_linkRows : (linkCalls m vec locks).Implements (linkRows m vec) := by
  intro call r loc res halone hdone
  have hat := linkAt_of_alone m vec halone
  have hend : loc = .finished := by
    cases loc with
    | finished => rfl
    | start => cases hdone
    | stored => cases hdone
    | loaded count => cases hdone
    | counted count =>
        simp only [linkCalls, linkWork] at hdone
        split at hdone <;> contradiction
    | scan count i worst =>
        simp only [linkCalls, linkWork] at hdone
        split at hdone <;> contradiction
    | compare worst =>
        rcases worst with ⟨_ | i, maxD⟩
        · cases hdone
        · simp only [linkCalls, linkWork] at hdone
          split at hdone <;> contradiction
  subst hend
  exact hat

end Calls

/-! ## The index that the arrays stand for -/

section Linearise

variable [Zero V] [Preorder δ] [DecidableLT δ] (m : Metric V δ)

/-- The arrays hold the neighbour lists of an index with the given vectors. -/
structure Represents (h : HNSW V) (vec : Nat → V) (rows : Nat → Rows) : Prop where
  vector : ∀ x, (h.getNode x).vector = vec x
  list : ∀ x l, (rows x).list l = h.neighbors x l

/-- Arrays for an index, with zeros behind the used parts. -/
def rowsOf (h : HNSW V) (x : Nat) : Rows where
  slot l i := (h.neighbors x l)[i]?.getD 0
  count l := (h.neighbors x l).length

theorem represents_rowsOf (h : HNSW V) : Represents h (fun x => (h.getNode x).vector) (rowsOf h)
    where
  vector _ := rfl
  list x l := by
    refine List.ext_getElem? fun j => ?_
    rw [Rows.getElem?_list, rowsOf]
    dsimp only
    split
    · next hlt => rw [List.getElem?_eq_getElem hlt, Option.getD_some]
    · next hge => rw [List.getElem?_eq_none (Nat.le_of_not_lt hge)]

/-- The calls one after the other. -/
def addLinks {locks : Nat} (h : HNSW V) (calls : List (LinkCall locks)) : HNSW V :=
  calls.foldl (fun h call => h.addLink m call.src call.dest call.layer) h

variable {m} {vec : Nat → V} {locks : Nat}

/-- The lists of a node after a call on its arrays are those after {lit}`add_link`. -/
theorem list_linkRows {h : HNSW V} {rows : Nat → Rows} (hrep : Represents h vec rows)
    (call : LinkCall locks) (hlock : call.src < h.nodeLocks) (l : Nat) :
    (linkRows m vec call (rows call.src)).list l =
      (h.addLink m call.src call.dest call.layer).neighbors call.src l := by
  have hdist : linkDistance m vec call = h.distanceTo m (h.getNode call.src).vector := by
    funext n
    rw [linkDistance, HNSW.distanceTo, hrep.vector, hrep.vector]
  have hcount : (rows call.src).count call.layer = (h.neighbors call.src call.layer).length := by
    rw [← hrep.list, Rows.length_list]
  by_cases hl : l = call.layer
  · subst hl
    rw [linkRows, hcount]
    split
    · next hroom =>
        rw [HNSW.neighbors_addLink_self m h call.dest hlock hroom, ← hcount, Rows.list_append,
          hrep.list]
    · next hfull =>
        rw [HNSW.neighbors_addLink_full hlock (Nat.le_of_not_lt hfull), hdist, hrep.list]
        generalize scanMax (h.distanceTo m (h.getNode call.src).vector) 0 (none, m.minusOne)
          (h.neighbors call.src call.layer) = worst
        rcases worst with ⟨_ | i, maxD⟩
        · exact hrep.list _ _
        · dsimp only
          split
          · rw [Rows.list_setSlot, hrep.list]
          · exact hrep.list _ _
  · rw [HNSW.neighbors_addLink_of_ne m h (fun heq => hl heq.2), ← hrep.list, linkRows]
    split
    · rw [Rows.list_setCount_of_ne _ hl, Rows.list_setSlot_of_ne _ hl]
    · split
      · rfl
      · split
        · exact Rows.list_setSlot_of_ne _ hl _ _
        · rfl

/-- A call on the arrays stands for {lit}`add_link`. -/
theorem Represents.addLink {h : HNSW V} {rows : Nat → Rows} (hrep : Represents h vec rows)
    (call : LinkCall locks) (hlock : call.src < h.nodeLocks) :
    Represents (h.addLink m call.src call.dest call.layer) vec
      ((linkCalls m vec locks).applyCall (linkRows m vec) rows call) where
  vector x := ((HNSW.linksOnly_addLink m h call.src call.dest call.layer).vector x).trans
    (hrep.vector x)
  list x l := by
    rw [LockedCalls.applyCall]
    by_cases hx : x = call.src
    · subst hx
      exact (congrArg (Rows.list · l) (Function.update_self _ _ _)).trans
        (list_linkRows hrep call hlock l)
    · rw [HNSW.neighbors_addLink_of_ne m h (fun heq => hx heq.1), ← hrep.list]
      exact congrArg (Rows.list · l) (Function.update_of_ne hx _ _)

/-- So do calls one after the other. -/
theorem Represents.addLinks {h : HNSW V} {rows : Nat → Rows} (hrep : Represents h vec rows)
    (hlocks : locks ≤ h.nodeLocks) (calls : List (LinkCall locks)) :
    Represents (addLinks m h calls) vec
      ((linkCalls m vec locks).applyAll (linkRows m vec) rows calls) := by
  induction calls generalizing h rows with
  | nil => exact hrep
  | cons call calls ih =>
      refine ih (hrep.addLink call (call.locked.trans_le hlocks)) ?_
      rw [(HNSW.linksOnly_addLink m h call.src call.dest call.layer).nodeLocks]
      exact hlocks

omit [Zero V] in
/-- The counters stay inside the rows also while calls are under way. -/
theorem LinkAt.count_le {call : LinkCall locks} {r res : Rows} {pc : LinkPc δ}
    (h : LinkAt m vec call r pc res) (hle : ∀ l, r.count l ≤ HNSW.maxConn l) (l : Nat) :
    res.count l ≤ HNSW.maxConn l := by
  cases pc with
  | start => exact h ▸ hle l
  | counted count => exact h.1 ▸ hle l
  | stored =>
      rw [h.2]
      exact hle l
  | loaded count =>
      rw [h.2.1]
      exact hle l
  | scan count i worst => exact h.2.1 ▸ hle l
  | compare worst => exact h.2.1 ▸ hle l
  | finished =>
      rw [h, linkRows]
      split
      · next hroom =>
          by_cases hl : l = call.layer
          · rw [hl]
            simp only [Rows.setCount, Function.update_self]
            exact Nat.succ_le_of_lt hroom
          · rw [Rows.count_setCount_of_ne _ hl]
            exact hle l
      · split
        · exact hle l
        · split
          · exact hle l
          · exact hle l

omit [Zero V] in
/-- The counters stay inside the rows over calls one after the other. -/
theorem count_applyAll_le (m : Metric V δ) (vec : Nat → V) {rows : Nat → Rows}
    (hle : ∀ x l, (rows x).count l ≤ HNSW.maxConn l)
    (calls : List (LinkCall locks)) (x l : Nat) :
    ((linkCalls m vec locks).applyAll (linkRows m vec) rows calls x).count l ≤
      HNSW.maxConn l := by
  induction calls generalizing rows with
  | nil => exact hle x l
  | cons call calls ih =>
      refine ih fun y l' => ?_
      rw [LockedCalls.applyCall]
      by_cases hy : y = (linkCalls m vec locks).key call
      · rw [hy, Function.update_self]
        have hat : LinkAt m vec call (rows call.src) .finished
            (linkRows m vec call (rows call.src)) := rfl
        exact hat.count_le (fun l => hle _ l) l'
      · rw [Function.update_of_ne hy]
        exact hle y l'

/-- In every interleaving of calls of {lit}`add_link` on any number of threads: at most one
thread is inside under the lock of a node; the lists of a node whose lock is free are those that
the finished calls leave one after the other, in the order of their unlocks; and no counter
leaves its row, also while calls are under way. -/
theorem concurrent_links_linearise (m : Metric V δ) {τ : Type*} [DecidableEq τ] (h : HNSW V)
    {rows₀ : Nat → Rows} (hrep : Represents h vec rows₀)
    {as : List (LockedCalls.Action (LinkCall h.nodeLocks) τ)}
    {s : LockedCalls.State Nat (LinkCall h.nodeLocks) (LinkPc δ) Rows τ}
    (hrun : Exec (linkCalls m vec h.nodeLocks).step (fun _ _ => True) { res := rows₀ } as s) :
    (∀ t t' x, (linkCalls m vec h.nodeLocks).Holds s t x →
        (linkCalls m vec h.nodeLocks).Holds s t' x → t = t') ∧
      (∀ x l, s.flag x = false → (s.res x).list l = (addLinks m h s.finished).neighbors x l) ∧
      ((∀ x l, (h.neighbors x l).length ≤ HNSW.maxConn l) →
        ∀ x l, (s.res x).count l ≤ HNSW.maxConn l) := by
  have hinv := LockedCalls.LockInv.of_run (implements_linkRows m vec) hrun
  refine ⟨hinv.unique, fun x l hfree => ?_, fun hle x l => ?_⟩
  · rw [hinv.settled x hfree]
    exact (hrep.addLinks le_rfl s.finished).list x l
  · have hle₀ : ∀ x l, (rows₀ x).count l ≤ HNSW.maxConn l := by
      intro x l
      rw [← Rows.length_list, hrep.list]
      exact hle x l
    have hsettled := count_applyAll_le m vec hle₀ s.finished
    cases hflag : s.flag x with
    | false =>
        rw [hinv.settled x hflag]
        exact hsettled x l
    | true =>
        obtain ⟨t, call, loc, hphase, hkey⟩ := hinv.held x hflag
        have hat := linkAt_of_alone m vec (hinv.progress t call loc hphase)
        rw [hkey] at hat
        exact hat.count_le (hsettled x) l

/-- Two threads that link the same node; the second spins until the first has left. -/
def twoLinkers : List (LockedCalls.Action (LinkCall 10000) Bool) :=
  [.call false ⟨0, 1, 0, by decide⟩, .call true ⟨0, 2, 0, by decide⟩, .testAndSet true,
    .work true, .testAndSet false, .work true, .testAndSet false, .work true, .work true,
    .unlock true, .testAndSet false, .work false, .work false, .work false, .work false,
    .unlock false]

/-- An index with three nodes and no links. -/
def threeNodes : HNSW Int where
  nodes := [{ vector := 10 }, { vector := 20 }, { vector := 30 }]
  storageSize := 100 * 1024 * 1024

theorem concurrent_links_linearise_twoLinkers :
    ∃ s : LockedCalls.State Nat (LinkCall 10000) (LinkPc Int) Rows Bool,
      Exec (linkCalls lineMetric (fun x => (threeNodes.getNode x).vector) 10000).step
        (fun _ _ => True) { res := rowsOf threeNodes } twoLinkers s ∧
      (s.res 0).list 0 = [2, 1] ∧
      ∀ x l, s.flag x = false →
        (s.res x).list l = (addLinks lineMetric threeNodes s.finished).neighbors x l := by
  have hrun := Exec.of_guardedRun
    (linkCalls lineMetric (fun x => (threeNodes.getNode x).vector) 10000).step
    (fun _ _ => True) { res := rowsOf threeNodes } twoLinkers (by decide +kernel)
  exact ⟨_, hrun, by decide +kernel,
    (concurrent_links_linearise lineMetric threeNodes (represents_rowsOf threeNodes) hrun).2.1⟩

/-- Calls one after the other append, as long as there is room. -/
theorem neighbors_addLinks_of_room (m : Metric V δ) {h : HNSW V} (hlocks : locks ≤ h.nodeLocks)
    (calls : List (LinkCall locks)) (x l : Nat)
    (hroom : (h.neighbors x l).length +
      (calls.filter fun call => call.src = x ∧ call.layer = l).length ≤ HNSW.maxConn l) :
    (addLinks m h calls).neighbors x l =
      h.neighbors x l ++
        (calls.filter fun call => call.src = x ∧ call.layer = l).map LinkCall.dest := by
  induction calls generalizing h with
  | nil => simp [addLinks]
  | cons call calls ih =>
      have hlocks' : locks ≤ (h.addLink m call.src call.dest call.layer).nodeLocks := by
        rw [(HNSW.linksOnly_addLink m h call.src call.dest call.layer).nodeLocks]
        exact hlocks
      rw [addLinks, List.foldl_cons, ← addLinks]
      by_cases hat : call.src = x ∧ call.layer = l
      · obtain ⟨rfl, rfl⟩ := hat
        rw [List.filter_cons_of_pos (by simp), List.length_cons] at hroom
        have hself := HNSW.neighbors_addLink_self m h call.dest (call.locked.trans_le hlocks)
          (by omega : (h.neighbors call.src call.layer).length < HNSW.maxConn call.layer)
        rw [ih hlocks' (by rw [hself, List.length_append, List.length_singleton]; omega), hself,
          List.filter_cons_of_pos (by simp), List.map_cons, List.append_assoc,
          List.singleton_append]
      · have hother : (h.addLink m call.src call.dest call.layer).neighbors x l =
            h.neighbors x l :=
          HNSW.neighbors_addLink_of_ne m h fun heq => hat ⟨heq.1.symm, heq.2.symm⟩
        rw [List.filter_cons_of_neg (by simpa using hat)] at hroom ⊢
        rw [ih hlocks' (by rw [hother]; exact hroom), hother]

omit [Zero V] in
/-- In every interleaving a thread that spins on the lock of a node gets in, or the thread that is
inside can read or write on or leave. -/
theorem links_not_deadlocked (m : Metric V δ) {τ : Type*} [DecidableEq τ] {rows₀ : Nat → Rows}
    {as : List (LockedCalls.Action (LinkCall locks) τ)}
    {s : LockedCalls.State Nat (LinkCall locks) (LinkPc δ) Rows τ}
    (hrun : Exec (linkCalls m vec locks).step (fun _ _ => True) { res := rows₀ } as s) {t : τ}
    {call : LinkCall locks} (hphase : s.phase t = .spinning call) :
    (∃ s', (linkCalls m vec locks).step s (.testAndSet t) = some s' ∧
        (linkCalls m vec locks).Holds s' t call.src) ∨
      ∃ t' a, (linkCalls m vec locks).Holds s t' call.src ∧ (a = .work t' ∨ a = .unlock t') ∧
        ((linkCalls m vec locks).step s a).isSome = true :=
  (LockedCalls.LockInv.of_run (implements_linkRows m vec) hrun).not_deadlocked hphase

/-- In every interleaving no link is lost: a list with room for the links of all finished calls
has the old ones and then theirs, in the order of the unlocks. -/
theorem no_link_lost (m : Metric V δ) {τ : Type*} [DecidableEq τ] (h : HNSW V)
    {rows₀ : Nat → Rows} (hrep : Represents h vec rows₀)
    {as : List (LockedCalls.Action (LinkCall h.nodeLocks) τ)}
    {s : LockedCalls.State Nat (LinkCall h.nodeLocks) (LinkPc δ) Rows τ}
    (hrun : Exec (linkCalls m vec h.nodeLocks).step (fun _ _ => True) { res := rows₀ } as s)
    {x l : Nat} (hfree : s.flag x = false)
    (hroom : (h.neighbors x l).length +
      (s.finished.filter fun call => call.src = x ∧ call.layer = l).length ≤ HNSW.maxConn l) :
    (s.res x).list l = h.neighbors x l ++
      (s.finished.filter fun call => call.src = x ∧ call.layer = l).map LinkCall.dest := by
  have hinv := LockedCalls.LockInv.of_run (implements_linkRows m vec) hrun
  rw [hinv.settled x hfree, (hrep.addLinks le_rfl s.finished).list x l]
  exact neighbors_addLinks_of_room m le_rfl s.finished x l hroom

theorem no_link_lost_twoLinkers :
    ∃ s : LockedCalls.State Nat (LinkCall 10000) (LinkPc Int) Rows Bool,
      Exec (linkCalls lineMetric (fun x => (threeNodes.getNode x).vector) 10000).step
        (fun _ _ => True) { res := rowsOf threeNodes } twoLinkers s ∧
      (s.res 0).list 0 = threeNodes.neighbors 0 0 ++
        (s.finished.filter fun call => call.src = 0 ∧ call.layer = 0).map LinkCall.dest := by
  have hrun := Exec.of_guardedRun
    (linkCalls lineMetric (fun x => (threeNodes.getNode x).vector) 10000).step
    (fun _ _ => True) { res := rowsOf threeNodes } twoLinkers (by decide +kernel)
  exact ⟨_, hrun, no_link_lost lineMetric threeNodes (represents_rowsOf threeNodes) hrun
    (x := 0) (l := 0) (by decide +kernel) (by decide +kernel)⟩

end Linearise

end NanoDB.Index
