import Mathlib.Data.List.Induction
import NanoDB.Lib.Worklist

/-!
# A binary heap

{lit}`std::priority_queue` with {lit}`push_heap` and {lit}`pop_heap` as libstdc++ has them.  A new
element rises from the end of the array.  When the root is taken out, its hole falls to a leaf
along the children that come first, and the last element rises from there.

A {lit}`PriorityQueue` is a list with the newest element first; its array is what the pushes of
these elements leave.  The rest of a queue is the array after {lit}`pop_heap`, read from its end:
these pushes leave the array as it is.

Main results:

- Theorem {lit}`isHeap_pushHeap`, {lit}`isHeap_popHeap`: the array stays a heap.
- Theorem {lit}`IsHeap.le_of_mem`: nothing in a heap comes before its root.
- Theorem {lit}`pushes_rest`: the rest of a queue has the array that {lit}`pop_heap` left.
-/

namespace NanoDB.Lib

namespace BinaryHeap

variable {α : Type*}

def parent (i : Nat) : Nat :=
  (i - 1) / 2

section Operations

variable (before : α → α → Bool)

/-- {lit}`__push_heap`: {lit}`v` rises from a hole.  The position of the hole is enough fuel. -/
def siftUp (v : α) : Nat → List α → Nat → List α
  | 0, l, hole => l.set hole v
  | fuel + 1, l, hole =>
      match l[parent hole]? with
      | none => l.set hole v
      | some p =>
          if 0 < hole ∧ before v p = true then siftUp v fuel (l.set hole p) (parent hole)
          else l.set hole v

/-- {lit}`push_back` and {lit}`push_heap`. -/
def pushHeap (l : List α) (v : α) : List α :=
  siftUp before v l.length (l ++ [v]) l.length

/-- The loop of {lit}`__adjust_heap`: the hole falls to a leaf.  The length of the array is enough
fuel. -/
def siftDown : Nat → List α → Nat → List α × Nat
  | 0, l, hole => (l, hole)
  | fuel + 1, l, hole =>
      match l[2 * hole + 1]?, l[2 * hole + 2]? with
      | some left, some right =>
          if before left right then siftDown fuel (l.set hole left) (2 * hole + 1)
          else siftDown fuel (l.set hole right) (2 * hole + 2)
      | some left, none => (l.set hole left, 2 * hole + 1)
      | none, _ => (l, hole)

/-- {lit}`pop_heap` and {lit}`pop_back`. -/
def popHeap (l : List α) : List α :=
  match l.getLast? with
  | none => []
  | some v =>
      let (down, hole) := siftDown before l.dropLast.length l.dropLast 0
      siftUp before v hole down hole

/-- The array of a queue. -/
def pushes : List α → List α
  | [] => []
  | a :: l => pushHeap before (pushes l) a

def extract (l : List α) : Option (α × List α) :=
  match pushes before l with
  | [] => none
  | a :: heap => some (a, (popHeap before (a :: heap)).reverse)

end Operations

/-! ### Pairs in order -/

section Order

variable (le : α → α → Prop) (l : List α)

/-- The elements at two positions are in order, if there are any. -/
def InOrder (i j : Nat) : Prop :=
  ∀ x y, l[i]? = some x → l[j]? = some y → le x y

/-- No element comes before its parent. -/
def IsHeap : Prop :=
  ∀ i, 0 < i → InOrder le l (parent i) i

/-- A heap but for the element at a hole. -/
structure HeapWithHole (hole : Nat) : Prop where
  lt : hole < l.length
  others : ∀ i, 0 < i → i ≠ hole → parent i ≠ hole → InOrder le l (parent i) i
  above : ∀ i, 0 < i → parent i = hole → 0 < hole → InOrder le l (parent hole) i

end Order

variable {le : α → α → Prop} {l : List α} {i j k : Nat} {v x : α}

theorem parent_lt (hi : 0 < i) : parent i < i := by
  unfold parent
  omega

theorem parent_eq_iff (hi : 0 < i) : parent i = k ↔ i = 2 * k + 1 ∨ i = 2 * k + 2 := by
  unfold parent
  omega

theorem inOrder_set_of_ne (hi : k ≠ i) (hj : k ≠ j) :
    InOrder le (l.set k x) i j ↔ InOrder le l i j := by
  simp only [InOrder, List.getElem?_set_ne hi, List.getElem?_set_ne hj]

theorem inOrder_set_left (hk : k < l.length) (hj : k ≠ j) :
    InOrder le (l.set k x) k j ↔ ∀ y, l[j]? = some y → le x y := by
  simp only [InOrder, List.getElem?_set_self hk, List.getElem?_set_ne hj, Option.some.injEq]
  exact ⟨fun h y hy => h x y rfl hy, fun h z y hz hy => hz ▸ h y hy⟩

theorem inOrder_set_right (hk : k < l.length) (hi : k ≠ i) :
    InOrder le (l.set k x) i k ↔ ∀ y, l[i]? = some y → le y x := by
  simp only [InOrder, List.getElem?_set_self hk, List.getElem?_set_ne hi, Option.some.injEq]
  exact ⟨fun h y hy => h y x hy rfl, fun h y z hy hz => hz ▸ h y hy⟩

theorem IsHeap.init (h : IsHeap le (l ++ [v])) : IsHeap le l := by
  intro i hi x y hx hy
  apply h i hi x y
  · rwa [List.getElem?_append_left (List.getElem?_eq_some_iff.mp hx).1]
  · rwa [List.getElem?_append_left (List.getElem?_eq_some_iff.mp hy).1]

/-- Nothing in a heap comes before its root. -/
theorem IsHeap.le_of_mem {before : α → α → Bool} (ho : Orders before le) {a : α} {rest : List α}
    (h : IsHeap le (a :: rest)) {b : α} (hb : b ∈ rest) : le a b := by
  have hroot : ∀ i y, (a :: rest)[i]? = some y → 0 < i → le a y := by
    intro i
    induction i using Nat.strongRecOn with
    | ind i ih =>
        intro y hy hi
        have hlt := (List.getElem?_eq_some_iff.mp hy).1
        have hparent := List.getElem?_eq_getElem (Nat.lt_trans (parent_lt hi) hlt)
        have hle := h i hi _ y hparent hy
        rcases Nat.eq_zero_or_pos (parent i) with hzero | hpos
        · simpa only [hzero, List.getElem_cons_zero] using hle
        · exact ho.trans _ _ _ (ih _ (parent_lt hi) _ hparent hpos) hle
  rcases List.mem_iff_getElem?.mp hb with ⟨i, hi⟩
  exact hroot (i + 1) b hi (Nat.succ_pos i)

/-! ### Rising -/

variable {before : α → α → Bool} {hole : Nat}

/-- The hole changes places with its parent. -/
theorem perm_move {p : α} (hlt : hole < l.length) (hp : l[k]? = some p) (hk : k ≠ hole) :
    ((l.set hole p).set k v).Perm (l.set hole v) := by
  rcases List.getElem?_eq_some_iff.mp hp with ⟨hklt, hp⟩
  have hlength : (l.set hole v).length = l.length := List.length_set
  have hswap := List.set_set_perm (hlength.symm ▸ hlt) (hlength.symm ▸ hklt)
  rwa [List.getElem_set_self, List.getElem_set_ne hk.symm, hp, List.set_set] at hswap

theorem siftUp_perm (fuel : Nat) (hlt : hole < l.length) :
    (siftUp before v fuel l hole).Perm (l.set hole v) := by
  induction fuel generalizing l hole with
  | zero => exact .refl _
  | succ fuel ih =>
      rw [siftUp]
      split
      · exact .refl _
      · next p hp =>
          split
          · next hrises =>
              have hup := parent_lt hrises.1
              have hlt' : parent hole < (l.set hole p).length := by
                rw [List.length_set]
                exact Nat.lt_trans hup hlt
              exact (ih hlt').trans (perm_move hlt hp (Nat.ne_of_lt hup))
          · exact .refl _

/-- The hole changes places with its parent, and the pairs that it leaves are in order. -/
theorem HeapWithHole.rise (ho : Orders before le) (hh : HeapWithHole le l hole) {p : α}
    (hpos : 0 < hole) (hp : l[parent hole]? = some p) :
    HeapWithHole le (l.set hole p) (parent hole) := by
  have hup := parent_lt hpos
  refine ⟨by rw [List.length_set]; exact Nat.lt_trans hup hh.lt, ?_, ?_⟩
  · intro i hi hne hparent
    have hhole : i ≠ hole := by
      rintro rfl
      exact hparent rfl
    by_cases hbelow : parent i = hole
    · rw [hbelow, inOrder_set_left hh.lt hhole.symm]
      intro y hy
      exact hh.above i hi hbelow hpos p y hp hy
    · rw [inOrder_set_of_ne (Ne.symm hbelow) hhole.symm]
      exact hh.others i hi hhole hbelow
  · intro i hi hparent hpos'
    have hup' := parent_lt hpos'
    have habove : InOrder le l (parent (parent hole)) (parent hole) :=
      hh.others (parent hole) hpos' (Nat.ne_of_lt hup) (by omega)
    by_cases hhole : i = hole
    · rw [hhole, inOrder_set_right hh.lt (by omega)]
      intro y hy
      exact habove y p hy hp
    · rw [inOrder_set_of_ne (by omega) (Ne.symm hhole)]
      intro y z hy hz
      have hleft := habove y p hy hp
      have hright := hh.others i hi hhole (by omega)
      rw [hparent] at hright
      exact ho.trans _ _ _ hleft (hright p z hp hz)

/-- The hole is filled. -/
theorem HeapWithHole.fill (hh : HeapWithHole le l hole)
    (hover : 0 < hole → ∀ p, l[parent hole]? = some p → le p v)
    (hunder : ∀ i, 0 < i → parent i = hole → ∀ y, l[i]? = some y → le v y) :
    IsHeap le (l.set hole v) := by
  intro i hi
  by_cases hhole : i = hole
  · rw [hhole] at hi ⊢
    rw [inOrder_set_right hh.lt (Nat.ne_of_gt (parent_lt hi))]
    exact hover hi
  · by_cases hbelow : parent i = hole
    · rw [hbelow, inOrder_set_left hh.lt (Ne.symm hhole)]
      exact hunder i hi hbelow
    · rw [inOrder_set_of_ne (Ne.symm hbelow) (Ne.symm hhole)]
      exact hh.others i hi hhole hbelow

theorem isHeap_siftUp (ho : Orders before le) {fuel : Nat} (hfuel : hole ≤ fuel)
    (hh : HeapWithHole le l hole)
    (hunder : ∀ i, 0 < i → parent i = hole → ∀ y, l[i]? = some y → le v y) :
    IsHeap le (siftUp before v fuel l hole) := by
  induction fuel generalizing l hole with
  | zero =>
      apply hh.fill _ hunder
      intro hpos
      omega
  | succ fuel ih =>
      rw [siftUp]
      split
      · next hnone =>
          apply hh.fill _ hunder
          intro _ p hp
          rw [hnone] at hp
          cases hp
      · next p hp =>
          split
          · next hrises =>
              have hup := parent_lt hrises.1
              apply ih (by omega) (hh.rise ho hrises.1 hp)
              have hvp := ho.of_before v p hrises.2
              intro i hi hparent y hy
              by_cases hhole : i = hole
              · rw [hhole, List.getElem?_set_self hh.lt] at hy
                exact Option.some.inj hy ▸ hvp
              · rw [List.getElem?_set_ne (Ne.symm hhole)] at hy
                have hpair := hh.others i hi hhole (by omega)
                rw [hparent] at hpair
                exact ho.trans _ _ _ hvp (hpair p y hp hy)
          · next hstays =>
              apply hh.fill _ hunder
              intro hpos p' hp'
              rw [hp] at hp'
              have hafter : before v p = false := by
                rw [← Bool.not_eq_true]
                exact fun hbefore => hstays ⟨hpos, hbefore⟩
              exact Option.some.inj hp' ▸ ho.of_not_before v p hafter

/-- A pushed element is a child of what was there, and has no children. -/
theorem heapWithHole_append (hl : IsHeap le l) (v : α) :
    HeapWithHole le (l ++ [v]) l.length := by
  refine ⟨by simp, ?_, ?_⟩
  · intro i hi hne _ x y hx hy
    have hlt := (List.getElem?_eq_some_iff.mp hy).1
    rw [List.length_append, List.length_singleton] at hlt
    have hup := parent_lt hi
    rw [List.getElem?_append_left (by omega)] at hx hy
    exact hl i hi x y hx hy
  · intro i hi hparent _ x y _ hy
    have hup := parent_lt hi
    rw [List.getElem?_eq_none (by rw [List.length_append, List.length_singleton]; omega)] at hy
    cases hy

theorem pushHeap_perm (l : List α) (v : α) : (pushHeap before l v).Perm (v :: l) := by
  have hlt : l.length < (l ++ [v]).length := by simp
  refine (siftUp_perm l.length hlt).trans ?_
  rw [List.set_append_right _ _ (Nat.le_refl _), Nat.sub_self]
  exact List.perm_append_singleton v l

theorem isHeap_pushHeap (ho : Orders before le) (hl : IsHeap le l) (v : α) :
    IsHeap le (pushHeap before l v) := by
  apply isHeap_siftUp ho (Nat.le_refl _) (heapWithHole_append hl v)
  intro i hi hparent y hy
  have hup := parent_lt hi
  rw [List.getElem?_eq_none (by rw [List.length_append, List.length_singleton]; omega)] at hy
  cases hy

variable (before) in
theorem pushes_perm (l : List α) : (pushes before l).Perm l := by
  induction l with
  | nil => exact .refl _
  | cons a l ih => exact (pushHeap_perm _ a).trans (ih.cons a)

theorem isHeap_pushes (ho : Orders before le) (l : List α) : IsHeap le (pushes before l) := by
  induction l with
  | nil =>
      intro i _ x y hx
      cases hx
  | cons a l ih => exact isHeap_pushHeap ho ih a

/-! ### Falling -/

/-- The hole changes places with the child that comes first. -/
theorem HeapWithHole.fall (hh : HeapWithHole le l hole) {c : Nat} {x : α} (hc : 0 < c)
    (hchild : parent c = hole) (hx : l[c]? = some x)
    (hfirst : ∀ i, 0 < i → parent i = hole → i ≠ c → ∀ y, l[i]? = some y → le x y) :
    HeapWithHole le (l.set hole x) c := by
  have hdown := parent_lt hc
  refine ⟨by rw [List.length_set]; exact (List.getElem?_eq_some_iff.mp hx).1, ?_, ?_⟩
  · intro i hi hne hparent
    by_cases hhole : i = hole
    · rw [hhole] at hi ⊢
      rw [inOrder_set_right hh.lt (Nat.ne_of_gt (parent_lt hi))]
      intro y hy
      exact hh.above c hc hchild hi y x hy hx
    · by_cases hsibling : parent i = hole
      · rw [hsibling, inOrder_set_left hh.lt (Ne.symm hhole)]
        exact hfirst i hi hsibling hne
      · rw [inOrder_set_of_ne (Ne.symm hsibling) (Ne.symm hhole)]
        exact hh.others i hi hhole hsibling
  · intro i hi hparent _
    have hdown' := parent_lt hi
    rw [hchild, inOrder_set_left hh.lt (by omega)]
    intro y hy
    have hpair := hh.others i hi (by omega) (by omega)
    rw [hparent] at hpair
    exact hpair x y hx hy

theorem HeapWithHole.fall_left (hh : HeapWithHole le l hole) {left : α}
    (hleft : l[2 * hole + 1]? = some left)
    (hfirst : ∀ right, l[2 * hole + 2]? = some right → le left right) :
    HeapWithHole le (l.set hole left) (2 * hole + 1) := by
  apply hh.fall (Nat.succ_pos _) ((parent_eq_iff (Nat.succ_pos _)).mpr (.inl rfl)) hleft
  intro i hi hparent hne y hy
  rw [((parent_eq_iff hi).mp hparent).resolve_left hne] at hy
  exact hfirst y hy

theorem HeapWithHole.fall_right (hh : HeapWithHole le l hole) {right : α}
    (hright : l[2 * hole + 2]? = some right)
    (hfirst : ∀ left, l[2 * hole + 1]? = some left → le right left) :
    HeapWithHole le (l.set hole right) (2 * hole + 2) := by
  apply hh.fall (Nat.succ_pos _) ((parent_eq_iff (Nat.succ_pos _)).mpr (.inr rfl)) hright
  intro i hi hparent hne y hy
  rw [((parent_eq_iff hi).mp hparent).resolve_right hne] at hy
  exact hfirst y hy

/-- The hole falls to a leaf. -/
theorem siftDown_spec (ho : Orders before le) {fuel : Nat} (hfuel : l.length ≤ hole + fuel)
    (hh : HeapWithHole le l hole) :
    HeapWithHole le (siftDown before fuel l hole).1 (siftDown before fuel l hole).2 ∧
      (siftDown before fuel l hole).1.length ≤ 2 * (siftDown before fuel l hole).2 + 1 := by
  induction fuel generalizing l hole with
  | zero =>
      have hlt := hh.lt
      omega
  | succ fuel ih =>
      rw [siftDown]
      split
      · next left right hleft hright =>
          split
          · next hbefore =>
              apply ih
              · rw [List.length_set]
                omega
              · apply hh.fall_left hleft
                intro right' hright'
                rw [hright] at hright'
                exact Option.some.inj hright' ▸ ho.of_before left right hbefore
          · next hbefore =>
              apply ih
              · rw [List.length_set]
                omega
              · apply hh.fall_right hright
                intro left' hleft'
                rw [hleft] at hleft'
                have hafter : before left right = false := Bool.eq_false_iff.mpr hbefore
                exact Option.some.inj hleft' ▸ ho.of_not_before left right hafter
      · next left hleft hright =>
          constructor
          · apply hh.fall_left hleft
            intro right hright'
            rw [hright] at hright'
            cases hright'
          · have hend := List.getElem?_eq_none_iff.mp hright
            rw [List.length_set]
            omega
      · next hleft => exact ⟨hh, List.getElem?_eq_none_iff.mp hleft⟩

variable (before) in
theorem siftDown_perm (fuel : Nat) (hlt : hole < l.length) (v : α) :
    (siftDown before fuel l hole).2 < (siftDown before fuel l hole).1.length ∧
      ((siftDown before fuel l hole).1.set (siftDown before fuel l hole).2 v).Perm
        (l.set hole v) := by
  induction fuel generalizing l hole with
  | zero => exact ⟨hlt, .refl _⟩
  | succ fuel ih =>
      have hmoved : ∀ {c : Nat} {x : α}, hole < c → l[c]? = some x →
          c < (l.set hole x).length ∧ ((l.set hole x).set c v).Perm (l.set hole v) := by
        intro c x hc hx
        rw [List.length_set]
        exact ⟨(List.getElem?_eq_some_iff.mp hx).1, perm_move hlt hx (Nat.ne_of_gt hc)⟩
      rw [siftDown]
      split
      · next left right hleft hright =>
          split
          · rcases hmoved (by omega) hleft with ⟨hin, hperm⟩
            exact ⟨(ih hin).1, (ih hin).2.trans hperm⟩
          · rcases hmoved (by omega) hright with ⟨hin, hperm⟩
            exact ⟨(ih hin).1, (ih hin).2.trans hperm⟩
      · next left hleft _ => exact hmoved (by omega) hleft
      · exact ⟨hlt, .refl _⟩

theorem popHeap_concat (l : List α) (v : α) :
    popHeap before (l ++ [v]) =
      siftUp before v (siftDown before l.length l 0).2 (siftDown before l.length l 0).1
        (siftDown before l.length l 0).2 := by
  rw [popHeap, List.getLast?_concat, List.dropLast_concat]

/-- The root is taken out. -/
theorem popHeap_perm (a : α) (rest : List α) : (popHeap before (a :: rest)).Perm rest := by
  rcases List.eq_nil_or_concat' rest with rfl | ⟨mid, v, rfl⟩
  · exact .refl _
  · rw [← List.cons_append, popHeap_concat]
    have hroot : 0 < (a :: mid).length := Nat.succ_pos mid.length
    rcases siftDown_perm before (a :: mid).length hroot v with ⟨hlt, hperm⟩
    refine (siftUp_perm _ hlt).trans (hperm.trans ?_)
    exact (List.perm_append_singleton v mid).symm

theorem isHeap_popHeap (ho : Orders before le) (hl : IsHeap le l) :
    IsHeap le (popHeap before l) := by
  rcases List.eq_nil_or_concat' l with rfl | ⟨body, v, rfl⟩
  · exact hl
  · rw [popHeap_concat]
    rcases Nat.eq_zero_or_pos body.length with hnil | hpos
    · rw [List.length_eq_zero_iff.mp hnil]
      intro i _ x y hx
      cases hx
    · have hhole : HeapWithHole le body 0 :=
        ⟨hpos, fun i hi _ _ => hl.init i hi, fun _ _ _ hroot => absurd hroot (Nat.lt_irrefl 0)⟩
      rcases siftDown_spec ho (Nat.le_add_left _ _) hhole with ⟨hleaf, hend⟩
      apply isHeap_siftUp ho (Nat.le_refl _) hleaf
      intro i hi hparent y hy
      have hlt := (List.getElem?_eq_some_iff.mp hy).1
      have hchild := (parent_eq_iff hi).mp hparent
      omega

/-! ### Pushes of a heap -/

theorem pushHeap_of_isHeap (hstrict : ∀ a b, before a b = true → ¬ le b a)
    (hl : IsHeap le (l ++ [v])) : pushHeap before l v = l ++ [v] := by
  have hself : (l ++ [v]).set l.length v = l ++ [v] := by
    rw [List.set_append_right _ _ (Nat.le_refl _), Nat.sub_self, List.set_cons_zero]
  have hv : (l ++ [v])[l.length]? = some v := List.getElem?_concat_length
  rw [pushHeap]
  generalize l.length = fuel at hself hv ⊢
  cases fuel with
  | zero => exact hself
  | succ fuel =>
      rw [siftUp]
      split
      · exact hself
      · next p hp =>
          split
          · next hrises =>
              exact absurd (hl (fuel + 1) hrises.1 p v hp hv) (hstrict v p hrises.2)
          · exact hself

/-- The pushes of a heap from its root on leave it as it is. -/
theorem pushes_reverse (hstrict : ∀ a b, before a b = true → ¬ le b a) (hl : IsHeap le l) :
    pushes before l.reverse = l := by
  induction l using List.reverseRecOn with
  | nil => rfl
  | append_singleton l v ih =>
      rw [List.reverse_concat, pushes, ih hl.init, pushHeap_of_isHeap hstrict hl]

/-! ### The queue -/

theorem extract_eq_some {a : α} {rest : List α} (h : extract before l = some (a, rest)) :
    ∃ heap, pushes before l = a :: heap ∧ rest = (popHeap before (a :: heap)).reverse := by
  rw [extract] at h
  split at h
  · cases h
  · next b heap hpushes =>
      cases h
      exact ⟨heap, hpushes, rfl⟩

/-- The rest of a queue has the array that {lit}`pop_heap` left. -/
theorem pushes_rest (ho : Orders before le) (hstrict : ∀ a b, before a b = true → ¬ le b a) {a : α}
    {rest : List α} (h : extract before l = some (a, rest)) :
    pushes before rest = popHeap before (pushes before l) := by
  rcases extract_eq_some h with ⟨heap, hpushes, rfl⟩
  rw [hpushes]
  apply pushes_reverse hstrict (isHeap_popHeap ho _)
  rw [← hpushes]
  exact isHeap_pushes ho l

theorem extract_perm {a : α} {rest : List α} (h : extract before l = some (a, rest)) :
    l.Perm (a :: rest) := by
  rcases extract_eq_some h with ⟨heap, hpushes, rfl⟩
  have hperm := (pushes_perm before l).symm
  rw [hpushes] at hperm
  exact hperm.trans (((popHeap_perm a heap).symm.trans (List.reverse_perm _).symm).cons a)

theorem extract_first (ho : Orders before le) {a : α} {rest : List α}
    (h : extract before l = some (a, rest)) : ∀ b ∈ rest, le a b := by
  rcases extract_eq_some h with ⟨heap, hpushes, rfl⟩
  have hheap := isHeap_pushes ho l
  rw [hpushes] at hheap
  intro b hb
  exact hheap.le_of_mem ho ((popHeap_perm a heap).subset (List.mem_reverse.mp hb))

end BinaryHeap

/-- The queue of libstdc++. -/
@[reducible] def binaryHeap {α : Type*} : PriorityQueue α where
  extract := BinaryHeap.extract
  extract_nil _ := rfl
  extract_cons before a l := by
    have hlength := (BinaryHeap.pushes_perm before (a :: l)).length_eq
    rw [BinaryHeap.extract]
    split
    · next hnil =>
        rw [hnil] at hlength
        cases hlength
    · rfl
  perm h := BinaryHeap.extract_perm h
  first ho h := BinaryHeap.extract_first ho h

end NanoDB.Lib
