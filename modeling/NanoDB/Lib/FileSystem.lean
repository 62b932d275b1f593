import Mathlib.Logic.Function.Basic

/-!
# Files and their names

A directory maps names to files, and a file has contents.  A process that has opened a
file keeps it whatever happens to the name.  Opening for writing empties the file, or
makes a new one; a rename moves a name onto another in one step.

Names are elements of an arbitrary type.  In a directory without links no file has two
names, so a file that is written under one name is not the file of any other.

Main results:

- Theorem {lit}`NoLinks.openTrunc`, {lit}`NoLinks.rename`: no operation makes a link.
- Theorem {lit}`data_openTrunc_of_ne`, {lit}`rename_cases`: what an operation changes and
  what it leaves alone.
-/

namespace NanoDB.Lib

/-- The names and the contents of the files. -/
structure FileSystem (P β : Type*) where
  dir : P → Option Nat
  data : Nat → List β
  /-- No file has this number or a higher one. -/
  next : Nat

namespace FileSystem

variable {P β : Type*} [DecidableEq P]

/-- Open for writing and truncate, or create; the file and the state after it. -/
def openTrunc (fs : FileSystem P β) (p : P) : Nat × FileSystem P β :=
  match fs.dir p with
  | some i => (i, { fs with data := Function.update fs.data i [] })
  | none => (fs.next,
      { dir := Function.update fs.dir p (some fs.next)
        data := Function.update fs.data fs.next []
        next := fs.next + 1 })

/-- The contents after a write at an offset; a gap is filled with zeros. -/
def overwrite [Zero β] (content : List β) (offset : Nat) (chunk : List β) : List β :=
  content.take offset ++ List.replicate (offset - content.length) 0 ++ chunk ++
    content.drop (offset + chunk.length)

def writeAt [Zero β] (fs : FileSystem P β) (i offset : Nat) (chunk : List β) : FileSystem P β :=
  { fs with data := Function.update fs.data i (overwrite (fs.data i) offset chunk) }

/-- Move a name onto another; {lean}`none` if there is no file of that name. -/
def rename (fs : FileSystem P β) (p q : P) : Option (FileSystem P β) :=
  match fs.dir p with
  | none => none
  | some i =>
      if fs.dir q = some i then some fs
      else some { fs with dir := Function.update (Function.update fs.dir q (some i)) p none }

/-- A write at the end appends. -/
theorem overwrite_of_length [Zero β] {content chunk : List β} {offset : Nat}
    (h : content.length = offset) : overwrite content offset chunk = content ++ chunk := by
  subst h
  rw [overwrite, List.take_length, Nat.sub_self, List.replicate_zero, List.append_nil,
    List.drop_eq_nil_of_le (by omega), List.append_nil]

omit [DecidableEq P] in
theorem data_writeAt_self [Zero β] {fs : FileSystem P β} {i offset : Nat} {chunk : List β}
    (h : (fs.data i).length = offset) :
    (fs.writeAt i offset chunk).data i = fs.data i ++ chunk :=
  (Function.update_self ..).trans (overwrite_of_length h)

/-! ## Directories without links -/

/-- No file has two names, and every file was made. -/
structure NoLinks (fs : FileSystem P β) : Prop where
  inj : ∀ p q i, fs.dir p = some i → fs.dir q = some i → p = q
  lt : ∀ p i, fs.dir p = some i → i < fs.next

variable {fs fs' : FileSystem P β} {p q : P}

/-- The opened file has the name it was opened by and is empty. -/
theorem openTrunc_self (fs : FileSystem P β) (p : P) :
    (fs.openTrunc p).2.dir p = some (fs.openTrunc p).1 ∧
      (fs.openTrunc p).2.data (fs.openTrunc p).1 = [] := by
  rw [openTrunc]
  split
  · next hp => exact ⟨hp, Function.update_self ..⟩
  · exact ⟨Function.update_self .., Function.update_self ..⟩

/-- The other names stay. -/
theorem dir_openTrunc_of_ne (hq : q ≠ p) : (fs.openTrunc p).2.dir q = fs.dir q := by
  rw [openTrunc]
  split
  · rfl
  · exact Function.update_of_ne hq ..

/-- A file that was made and does not have the name stays as it is. -/
theorem data_openTrunc_of_ne {i : Nat} (hp : fs.dir p ≠ some i) (hi : i < fs.next) :
    (fs.openTrunc p).2.data i = fs.data i := by
  rw [openTrunc]
  split
  · next j hj =>
      apply Function.update_of_ne
      rintro rfl
      exact hp hj
  · exact Function.update_of_ne (by omega) ..

theorem next_le_openTrunc (fs : FileSystem P β) (p : P) : fs.next ≤ (fs.openTrunc p).2.next := by
  rw [openTrunc]
  split
  · exact Nat.le_refl _
  · exact Nat.le_succ _

/-- The opened file is the one that had the name, or a new one. -/
theorem dir_of_openTrunc_eq {i : Nat} (hi : (fs.openTrunc p).1 = i) (hlt : i < fs.next) :
    fs.dir p = some i := by
  rw [openTrunc] at hi
  split at hi
  · next j hj =>
      rw [hj]
      exact congrArg some hi
  · dsimp only at hi
    omega

theorem NoLinks.openTrunc (h : NoLinks fs) (p : P) : NoLinks (fs.openTrunc p).2 := by
  rw [FileSystem.openTrunc]
  split
  · exact ⟨h.inj, h.lt⟩
  · next hp =>
      have hdir : ∀ q i, Function.update fs.dir p (some fs.next) q = some i →
          (q = p ∧ i = fs.next) ∨ (fs.dir q = some i ∧ i < fs.next) := by
        intro q i hq
        by_cases hqp : q = p
        · rw [hqp, Function.update_self, Option.some_inj] at hq
          exact .inl ⟨hqp, hq.symm⟩
        · rw [Function.update_of_ne hqp] at hq
          exact .inr ⟨hq, h.lt q i hq⟩
      constructor
      · intro q q' i hq hq'
        rcases hdir q i hq with ⟨rfl, hi⟩ | ⟨hold, hi⟩
        · rcases hdir q' i hq' with ⟨rfl, -⟩ | ⟨-, hi'⟩
          · rfl
          · omega
        · rcases hdir q' i hq' with ⟨rfl, hi'⟩ | ⟨hold', -⟩
          · omega
          · exact h.inj q q' i hold hold'
      · intro q i hq
        dsimp only
        rcases hdir q i hq with ⟨-, hi⟩ | ⟨-, hi⟩
        · omega
        · omega

omit [DecidableEq P] in
theorem NoLinks.writeAt [Zero β] (h : NoLinks fs) (i offset : Nat) (chunk : List β) :
    NoLinks (fs.writeAt i offset chunk) :=
  ⟨h.inj, h.lt⟩

/-- After a rename the file has the new name only. -/
theorem rename_cases (hpq : p ≠ q) (h : NoLinks fs) (hr : fs.rename p q = some fs') :
    ∃ i, fs.dir p = some i ∧ fs'.dir q = some i ∧ fs'.dir p = none ∧
      (∀ r, r ≠ p → r ≠ q → fs'.dir r = fs.dir r) ∧ fs'.data = fs.data ∧ fs'.next = fs.next := by
  rw [rename] at hr
  split at hr
  · contradiction
  · next i hi =>
      split at hr
      · next hq => exact absurd (h.inj p q i hi hq) hpq
      · rw [Option.some_inj] at hr
        subst hr
        refine ⟨i, hi, ?_, Function.update_self .., ?_, rfl, rfl⟩
        · dsimp only
          rw [Function.update_of_ne hpq.symm, Function.update_self]
        · intro r hrp hrq
          dsimp only
          rw [Function.update_of_ne hrp, Function.update_of_ne hrq]

theorem NoLinks.rename (h : NoLinks fs) (hpq : p ≠ q) (hr : fs.rename p q = some fs') :
    NoLinks fs' := by
  rcases rename_cases hpq h hr with ⟨i, hi, hq, hp, hother, -, hnext⟩
  have hdir : ∀ r j, fs'.dir r = some j → (r = q ∧ j = i) ∨ (r ≠ p ∧ fs.dir r = some j) := by
    intro r j hrj
    by_cases hrp : r = p
    · rw [hrp, hp] at hrj
      contradiction
    · by_cases hrq : r = q
      · rw [hrq, hq, Option.some_inj] at hrj
        exact .inl ⟨hrq, hrj.symm⟩
      · rw [hother r hrp hrq] at hrj
        exact .inr ⟨hrp, hrj⟩
  constructor
  · intro r r' j hr hr'
    rcases hdir r j hr with ⟨rfl, rfl⟩ | ⟨hrp, hold⟩
    · rcases hdir r' j hr' with ⟨rfl, -⟩ | ⟨hrp', hold'⟩
      · rfl
      · exact absurd (h.inj r' p j hold' hi) hrp'
    · rcases hdir r' j hr' with ⟨rfl, rfl⟩ | ⟨-, hold'⟩
      · exact absurd (h.inj r p j hold hi) hrp
      · exact h.inj r r' j hold hold'
  · intro r j hr
    rw [hnext]
    rcases hdir r j hr with ⟨-, rfl⟩ | ⟨-, hold⟩
    · exact h.lt p j hi
    · exact h.lt r j hold

end FileSystem

end NanoDB.Lib
