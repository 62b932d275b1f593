import Mathlib.Logic.Function.Basic
import NanoDB.Lib.Execution

/-!
# Sections under spin locks

Threads run calls that each work on one resource under the lock of that resource.  A lock is a
flag: a thread that wants it sets the flag and looks at its old value, again and again, until
that was clear; it clears the flag when its work is done.  Between the two a call takes any
number of steps, and the steps of different threads interleave in any order.

A call is linearised at its unlock.  The only thing to know about its steps is what they do to
the resource when nobody else touches it.

Main results:

- Theorem {lit}`LockInv.of_run`: a flag is set exactly while one thread is inside, and a
  resource whose flag is clear is what the finished calls make of it one after the other.
- Theorem {lit}`LockInv.not_deadlocked`: a thread that spins gets in, or the one inside moves.
-/

namespace NanoDB.Lib

/-- Calls on resources.  {lit}`work` is one step of a call under the lock, {lean}`none` when it
is done. -/
structure LockedCalls (κ γ ℓ ρ : Type*) where
  key : γ → κ
  start : γ → ℓ
  work : γ → ℓ → ρ → Option (ℓ × ρ)

namespace LockedCalls

variable {κ γ ℓ ρ τ : Type*}

/-- Where a thread is. -/
inductive Phase (γ ℓ : Type*) where
  | outside
  | spinning (call : γ)
  | inside (call : γ) (loc : ℓ)

/-- The flags, the resources and the threads.  {lit}`done` is a ghost: the finished calls, each
with its thread, in the order of their unlocks. -/
structure State (κ γ ℓ ρ τ : Type*) where
  flag : κ → Bool := fun _ => false
  res : κ → ρ
  phase : τ → Phase γ ℓ := fun _ => .outside
  done : List (τ × γ) := []

inductive Action (γ τ : Type*) where
  | call (t : τ) (call : γ)
  | testAndSet (t : τ)
  | work (t : τ)
  | unlock (t : τ)

variable [DecidableEq κ] [DecidableEq τ] (p : LockedCalls κ γ ℓ ρ)

/-- The transition function; {lean}`none` when the action is not enabled. -/
def step (s : State κ γ ℓ ρ τ) : Action γ τ → Option (State κ γ ℓ ρ τ)
  | .call t call =>
      match s.phase t with
      | .outside => some { s with phase := Function.update s.phase t (.spinning call) }
      | _ => none
  | .testAndSet t =>
      match s.phase t with
      | .spinning call =>
          if s.flag (p.key call) then some s
          else
            some { s with
              flag := Function.update s.flag (p.key call) true
              phase := Function.update s.phase t (.inside call (p.start call)) }
      | _ => none
  | .work t =>
      match s.phase t with
      | .inside call loc =>
          (p.work call loc (s.res (p.key call))).map fun (loc', res') =>
            { s with
              res := Function.update s.res (p.key call) res'
              phase := Function.update s.phase t (.inside call loc') }
      | _ => none
  | .unlock t =>
      match s.phase t with
      | .inside call loc =>
          if (p.work call loc (s.res (p.key call))).isNone then
            some { s with
              flag := Function.update s.flag (p.key call) false
              phase := Function.update s.phase t .outside
              done := s.done ++ [(t, call)] }
          else none
      | _ => none

/-- The transitions as a relation. -/
inductive Step (s : State κ γ ℓ ρ τ) : Action γ τ → State κ γ ℓ ρ τ → Prop
  | call {t : τ} {call : γ} (hphase : s.phase t = .outside) :
      Step s (.call t call) { s with phase := Function.update s.phase t (.spinning call) }
  | spin {t : τ} {call : γ} (hphase : s.phase t = .spinning call)
      (hflag : s.flag (p.key call) = true) : Step s (.testAndSet t) s
  | lock {t : τ} {call : γ} (hphase : s.phase t = .spinning call)
      (hflag : s.flag (p.key call) = false) :
      Step s (.testAndSet t)
        { s with
          flag := Function.update s.flag (p.key call) true
          phase := Function.update s.phase t (.inside call (p.start call)) }
  | work {t : τ} {call : γ} {loc loc' : ℓ} {res' : ρ} (hphase : s.phase t = .inside call loc)
      (hwork : p.work call loc (s.res (p.key call)) = some (loc', res')) :
      Step s (.work t)
        { s with
          res := Function.update s.res (p.key call) res'
          phase := Function.update s.phase t (.inside call loc') }
  | unlock {t : τ} {call : γ} {loc : ℓ} (hphase : s.phase t = .inside call loc)
      (hdone : p.work call loc (s.res (p.key call)) = none) :
      Step s (.unlock t)
        { s with
          flag := Function.update s.flag (p.key call) false
          phase := Function.update s.phase t .outside
          done := s.done ++ [(t, call)] }

theorem step_cases {s s' : State κ γ ℓ ρ τ} {a : Action γ τ} (h : p.step s a = some s') :
    p.Step s a s' := by
  cases a with
  | call t call =>
      simp only [step] at h
      split at h
      · next hphase =>
          cases h
          exact .call hphase
      · contradiction
  | testAndSet t =>
      simp only [step] at h
      split at h
      · next call hphase =>
          split at h
          · next hflag =>
              cases h
              exact .spin hphase hflag
          · next hflag =>
              cases h
              exact .lock hphase (Bool.not_eq_true _ ▸ hflag)
      · contradiction
  | work t =>
      simp only [step] at h
      split at h
      · next call loc hphase =>
          obtain ⟨⟨loc', res'⟩, hwork, rfl⟩ := Option.map_eq_some_iff.mp h
          exact .work hphase hwork
      · contradiction
  | unlock t =>
      simp only [step] at h
      split at h
      · next call loc hphase =>
          rw [Option.ite_none_right_eq_some] at h
          obtain ⟨hdone, h⟩ := h
          cases h
          exact .unlock hphase (Option.isNone_iff_eq_none.mp hdone)
      · contradiction

/-! ## Calls that run alone -/

/-- The steps of a call from its start, when nobody else touches the resource. -/
inductive Alone (call : γ) (r : ρ) : ℓ → ρ → Prop
  | start : Alone call r (p.start call) r
  | work {loc loc' : ℓ} {res res' : ρ} (before : Alone call r loc res)
      (hwork : p.work call loc res = some (loc', res')) : Alone call r loc' res'

/-- What a call does to its resource when it runs alone. -/
def Implements (effect : γ → ρ → ρ) : Prop :=
  ∀ call r loc res, p.Alone call r loc res → p.work call loc res = none → res = effect call r

/-- The resources after a call that runs alone. -/
def applyCall (effect : γ → ρ → ρ) (res : κ → ρ) (call : γ) : κ → ρ :=
  Function.update res (p.key call) (effect call (res (p.key call)))

/-- The resources after calls that run one after the other. -/
def applyAll (effect : γ → ρ → ρ) (res : κ → ρ) (calls : List γ) : κ → ρ :=
  calls.foldl (p.applyCall effect) res

theorem applyAll_concat (effect : γ → ρ → ρ) (res : κ → ρ) (calls : List γ) (call : γ) :
    p.applyAll effect res (calls ++ [call]) =
      p.applyCall effect (p.applyAll effect res calls) call := by
  rw [applyAll, applyAll, List.foldl_append]
  rfl

/-! ## The invariant -/

/-- The finished calls in the order of their unlocks. -/
def State.finished (s : State κ γ ℓ ρ τ) : List γ :=
  s.done.map (·.2)

/-- The thread is inside under the lock. -/
def Holds (s : State κ γ ℓ ρ τ) (t : τ) (k : κ) : Prop :=
  ∃ call loc, s.phase t = .inside call loc ∧ p.key call = k

/-- A set flag has one holder, whose call has got from the resource that the finished calls left
to the present one; a clear flag has none, and its resource is what the finished calls left. -/
structure LockInv (effect : γ → ρ → ρ) (res₀ : κ → ρ) (s : State κ γ ℓ ρ τ) : Prop where
  flag : ∀ t k, p.Holds s t k → s.flag k = true
  unique : ∀ t t' k, p.Holds s t k → p.Holds s t' k → t = t'
  held : ∀ k, s.flag k = true → ∃ t, p.Holds s t k
  progress : ∀ t call loc, s.phase t = .inside call loc →
    p.Alone call (p.applyAll effect res₀ s.finished (p.key call)) loc (s.res (p.key call))
  settled : ∀ k, s.flag k = false → s.res k = p.applyAll effect res₀ s.finished k

variable {p} {effect : γ → ρ → ρ} {res₀ : κ → ρ} {s s' : State κ γ ℓ ρ τ}

omit [DecidableEq τ] in
theorem LockInv.init (p : LockedCalls κ γ ℓ ρ) (effect : γ → ρ → ρ) (res₀ : κ → ρ) :
    p.LockInv effect res₀ ({ res := res₀ } : State κ γ ℓ ρ τ) where
  flag t k h := by
    rcases h with ⟨call, loc, hphase, -⟩
    cases hphase
  unique t t' k h _ := by
    rcases h with ⟨call, loc, hphase, -⟩
    cases hphase
  held k h := by cases h
  progress t call loc hphase := by cases hphase
  settled k _ := rfl

omit [DecidableEq κ] in
/-- The other threads stay where they are. -/
theorem holds_update_of_ne {t t' : τ} {k : κ} {phase : Phase γ ℓ} (hne : t' ≠ t)
    (hphase : s'.phase = Function.update s.phase t phase) :
    p.Holds s' t' k ↔ p.Holds s t' k := by
  rw [Holds, Holds, hphase, Function.update_of_ne hne]

omit [DecidableEq κ] in
/-- The thread that moves holds what its new phase says. -/
theorem holds_update_self {t : τ} {k : κ} {phase : Phase γ ℓ}
    (hphase : s'.phase = Function.update s.phase t phase) :
    p.Holds s' t k ↔ ∃ call loc, phase = .inside call loc ∧ p.key call = k := by
  rw [Holds, hphase, Function.update_self]

namespace LockInv

/-- The thread enters: it was alone to see the flag clear. -/
theorem lock (hinv : p.LockInv effect res₀ s) {t : τ} {call : γ}
    (hphase : s.phase t = .spinning call) (hflag : s.flag (p.key call) = false)
    (hflag' : s'.flag = Function.update s.flag (p.key call) true) (hres' : s'.res = s.res)
    (hphase' : s'.phase = Function.update s.phase t (.inside call (p.start call)))
    (hdone' : s'.done = s.done) : p.LockInv effect res₀ s' := by
  have hfinished : s'.finished = s.finished := congrArg (List.map Prod.snd) hdone'
  have hothers : ∀ t', ¬ p.Holds s t' (p.key call) := by
    intro t' hholds
    rw [hinv.flag t' _ hholds] at hflag
    contradiction
  have hkey : ∀ k, p.Holds s' t k → k = p.key call := by
    intro k hholds
    obtain ⟨call', loc, heq, hk⟩ := (holds_update_self hphase').mp hholds
    cases heq
    exact hk.symm
  have hold : ∀ t' k, p.Holds s' t' k → t' ≠ t → p.Holds s t' k ∧ k ≠ p.key call := by
    intro t' k hholds hne
    have hbefore := (holds_update_of_ne hne hphase').mp hholds
    refine ⟨hbefore, ?_⟩
    rintro rfl
    exact hothers t' hbefore
  constructor
  · intro t' k hholds
    rw [hflag']
    by_cases hne : t' = t
    · subst hne
      rw [hkey k hholds, Function.update_self]
    · obtain ⟨hbefore, hk⟩ := hold t' k hholds hne
      rw [Function.update_of_ne hk]
      exact hinv.flag t' k hbefore
  · intro t₁ t₂ k h₁ h₂
    by_cases h₁t : t₁ = t
    · by_cases h₂t : t₂ = t
      · rw [h₁t, h₂t]
      · exact absurd (hkey k (h₁t ▸ h₁)) (hold t₂ k h₂ h₂t).2
    · by_cases h₂t : t₂ = t
      · exact absurd (hkey k (h₂t ▸ h₂)) (hold t₁ k h₁ h₁t).2
      · exact hinv.unique t₁ t₂ k (hold t₁ k h₁ h₁t).1 (hold t₂ k h₂ h₂t).1
  · intro k hk
    by_cases hself : k = p.key call
    · exact ⟨t, (holds_update_self hphase').mpr ⟨call, p.start call, rfl, hself.symm⟩⟩
    · rw [hflag', Function.update_of_ne hself] at hk
      obtain ⟨t', hholds⟩ := hinv.held k hk
      have hne : t' ≠ t := by
        rintro rfl
        obtain ⟨call', loc, hinside, -⟩ := hholds
        rw [hphase] at hinside
        contradiction
      exact ⟨t', (holds_update_of_ne hne hphase').mpr hholds⟩
  · intro t' call' loc hinside
    rw [hphase'] at hinside
    rw [hfinished, hres']
    by_cases hne : t' = t
    · rw [hne, Function.update_self] at hinside
      cases hinside
      rw [hinv.settled _ hflag]
      exact .start
    · rw [Function.update_of_ne hne] at hinside
      exact hinv.progress t' call' loc hinside
  · intro k hk
    have hne : k ≠ p.key call := by
      rintro rfl
      rw [hflag', Function.update_self] at hk
      contradiction
    rw [hflag', Function.update_of_ne hne] at hk
    rw [hres', hfinished]
    exact hinv.settled k hk

/-- The thread that is inside takes a step on a resource that no other thread works on. -/
theorem work (hinv : p.LockInv effect res₀ s) {t : τ} {call : γ} {loc loc' : ℓ} {res' : ρ}
    (hphase : s.phase t = .inside call loc)
    (hwork : p.work call loc (s.res (p.key call)) = some (loc', res'))
    (hflag' : s'.flag = s.flag) (hres' : s'.res = Function.update s.res (p.key call) res')
    (hphase' : s'.phase = Function.update s.phase t (.inside call loc'))
    (hdone' : s'.done = s.done) : p.LockInv effect res₀ s' := by
  have hfinished : s'.finished = s.finished := congrArg (List.map Prod.snd) hdone'
  have hself : p.Holds s t (p.key call) := ⟨call, loc, hphase, rfl⟩
  have hsame : ∀ t' k, p.Holds s' t' k ↔ p.Holds s t' k := by
    intro t' k
    by_cases hne : t' = t
    · rw [hne, holds_update_self hphase', Holds, hphase]
      constructor
      · rintro ⟨call', loc₁, heq, hk⟩
        cases heq
        exact ⟨call, loc, rfl, hk⟩
      · rintro ⟨call', loc₁, heq, hk⟩
        cases heq
        exact ⟨call, loc', rfl, hk⟩
    · exact holds_update_of_ne hne hphase'
  constructor
  · intro t' k hholds
    rw [hflag']
    exact hinv.flag t' k ((hsame t' k).mp hholds)
  · exact fun t₁ t₂ k h₁ h₂ => hinv.unique t₁ t₂ k ((hsame t₁ k).mp h₁) ((hsame t₂ k).mp h₂)
  · intro k hk
    rw [hflag'] at hk
    obtain ⟨t', hholds⟩ := hinv.held k hk
    exact ⟨t', (hsame t' k).mpr hholds⟩
  · intro t' call' loc₁ hinside
    rw [hphase'] at hinside
    rw [hfinished, hres']
    by_cases hne : t' = t
    · rw [hne, Function.update_self] at hinside
      cases hinside
      rw [Function.update_self]
      exact .work (hinv.progress t call loc hphase) hwork
    · rw [Function.update_of_ne hne] at hinside
      have hkey : p.key call' ≠ p.key call := by
        intro heq
        exact hne (hinv.unique t' t _ ⟨call', loc₁, hinside, heq⟩ hself)
      rw [Function.update_of_ne hkey]
      exact hinv.progress t' call' loc₁ hinside
  · intro k hk
    rw [hflag'] at hk
    have hne : k ≠ p.key call := by
      rintro rfl
      rw [hinv.flag t _ hself] at hk
      contradiction
    rw [hfinished, hres', Function.update_of_ne hne]
    exact hinv.settled k hk

/-- The thread leaves, and its call is finished. -/
theorem unlock (himpl : p.Implements effect) (hinv : p.LockInv effect res₀ s) {t : τ} {call : γ}
    {loc : ℓ} (hphase : s.phase t = .inside call loc)
    (hdone : p.work call loc (s.res (p.key call)) = none)
    (hflag' : s'.flag = Function.update s.flag (p.key call) false) (hres' : s'.res = s.res)
    (hphase' : s'.phase = Function.update s.phase t .outside)
    (hdone' : s'.done = s.done ++ [(t, call)]) : p.LockInv effect res₀ s' := by
  have hfinished : s'.finished = s.finished ++ [call] := by
    rw [State.finished, hdone', List.map_append]
    rfl
  have hself : p.Holds s t (p.key call) := ⟨call, loc, hphase, rfl⟩
  have hinside : ∀ t' call' loc', s'.phase t' = .inside call' loc' →
      t' ≠ t ∧ s.phase t' = .inside call' loc' := by
    intro t' call' loc' h
    rw [hphase'] at h
    have hne : t' ≠ t := by
      rintro rfl
      rw [Function.update_self] at h
      contradiction
    exact ⟨hne, by rwa [Function.update_of_ne hne] at h⟩
  have hothers : ∀ t' k, p.Holds s' t' k → p.Holds s t' k ∧ k ≠ p.key call := by
    rintro t' k ⟨call', loc', h, hk⟩
    obtain ⟨hne, hold⟩ := hinside t' call' loc' h
    refine ⟨⟨call', loc', hold, hk⟩, ?_⟩
    rintro rfl
    exact hne (hinv.unique t' t _ ⟨call', loc', hold, hk⟩ hself)
  constructor
  · intro t' k h
    obtain ⟨hold, hne⟩ := hothers t' k h
    rw [hflag', Function.update_of_ne hne]
    exact hinv.flag t' k hold
  · exact fun t₁ t₂ k h₁ h₂ => hinv.unique t₁ t₂ k (hothers t₁ k h₁).1 (hothers t₂ k h₂).1
  · intro k hk
    have hne : k ≠ p.key call := by
      rintro rfl
      rw [hflag', Function.update_self] at hk
      contradiction
    rw [hflag', Function.update_of_ne hne] at hk
    obtain ⟨t', hholds⟩ := hinv.held k hk
    have ht : t' ≠ t := by
      rintro rfl
      obtain ⟨call', loc', h, hkey⟩ := hholds
      rw [hphase] at h
      cases h
      exact hne hkey.symm
    exact ⟨t', (holds_update_of_ne ht hphase').mpr hholds⟩
  · intro t' call' loc' h
    obtain ⟨ht, hold⟩ := hinside t' call' loc' h
    have hne : p.key call' ≠ p.key call := by
      intro heq
      exact ht (hinv.unique t' t _ ⟨call', loc', hold, heq⟩ hself)
    rw [hfinished, hres', applyAll_concat, applyCall, Function.update_of_ne hne]
    exact hinv.progress t' call' loc' hold
  · intro k hk
    rw [hfinished, hres', applyAll_concat, applyCall]
    by_cases hne : k = p.key call
    · rw [hne, Function.update_self]
      exact himpl _ _ _ _ (hinv.progress t call loc hphase) hdone
    · rw [hflag', Function.update_of_ne hne] at hk
      rw [Function.update_of_ne hne]
      exact hinv.settled k hk

/-- The thread starts to wait. -/
theorem call (hinv : p.LockInv effect res₀ s) {t : τ} {call : γ} (hphase : s.phase t = .outside)
    (hflag' : s'.flag = s.flag) (hres' : s'.res = s.res)
    (hphase' : s'.phase = Function.update s.phase t (.spinning call))
    (hdone' : s'.done = s.done) : p.LockInv effect res₀ s' := by
  have hfinished : s'.finished = s.finished := congrArg (List.map Prod.snd) hdone'
  have hinside : ∀ t' call' loc, s'.phase t' = .inside call' loc ↔
      s.phase t' = .inside call' loc := by
    intro t' call' loc
    rw [hphase']
    by_cases hne : t' = t
    · rw [hne, Function.update_self, hphase]
      simp
    · rw [Function.update_of_ne hne]
  have hsame : ∀ t' k, p.Holds s' t' k ↔ p.Holds s t' k := by
    intro t' k
    simp only [Holds, hinside]
  constructor
  · intro t' k hholds
    rw [hflag']
    exact hinv.flag t' k ((hsame t' k).mp hholds)
  · exact fun t₁ t₂ k h₁ h₂ => hinv.unique t₁ t₂ k ((hsame t₁ k).mp h₁) ((hsame t₂ k).mp h₂)
  · intro k hk
    rw [hflag'] at hk
    obtain ⟨t', hholds⟩ := hinv.held k hk
    exact ⟨t', (hsame t' k).mpr hholds⟩
  · intro t' call' loc h
    rw [hfinished, hres']
    exact hinv.progress t' call' loc ((hinside t' call' loc).mp h)
  · rw [hflag', hres', hfinished]
    exact hinv.settled

/-- **Step lemma.**  Every action keeps the invariant. -/
theorem step (himpl : p.Implements effect) (hinv : p.LockInv effect res₀ s) {a : Action γ τ}
    (h : p.step s a = some s') : p.LockInv effect res₀ s' := by
  cases p.step_cases h with
  | call hphase => exact hinv.call hphase rfl rfl rfl rfl
  | spin hphase hflag => exact hinv
  | lock hphase hflag => exact hinv.lock hphase hflag rfl rfl rfl rfl
  | work hphase hwork => exact hinv.work hphase hwork rfl rfl rfl rfl
  | unlock hphase hdone => exact hinv.unlock himpl hphase hdone rfl rfl rfl rfl

/-- **Run lemma.**  In every interleaving: flags, holders and resources agree with the calls
that have finished. -/
theorem of_run (himpl : p.Implements effect) {ok : State κ γ ℓ ρ τ → Action γ τ → Prop}
    {as : List (Action γ τ)} (hrun : Exec p.step ok { res := res₀ } as s) :
    p.LockInv effect res₀ s :=
  hrun.invariant (p.LockInv effect res₀) (fun _ _ _ hinv _ hstep => hinv.step himpl hstep)
    (LockInv.init p effect res₀)

end LockInv

/-- The lock of a resource is passed on: a thread that spins on a clear flag gets in, and
while a flag is set the thread inside can take a step or leave. -/
theorem LockInv.not_deadlocked (hinv : p.LockInv effect res₀ s) {t : τ} {call : γ}
    (hphase : s.phase t = .spinning call) :
    (∃ s', p.step s (.testAndSet t) = some s' ∧ p.Holds s' t (p.key call)) ∨
      ∃ t' a, p.Holds s t' (p.key call) ∧ (a = .work t' ∨ a = .unlock t') ∧
        (p.step s a).isSome = true := by
  cases hflag : s.flag (p.key call) with
  | false =>
      left
      refine ⟨_, by rw [LockedCalls.step, hphase]; exact if_neg (by simp [hflag]), ?_⟩
      exact (holds_update_self rfl).mpr ⟨call, p.start call, rfl, rfl⟩
  | true =>
      right
      obtain ⟨t', call', loc, hinside, hkey⟩ := hinv.held _ hflag
      cases hwork : p.work call' loc (s.res (p.key call')) with
      | none =>
          refine ⟨t', .unlock t', ⟨call', loc, hinside, hkey⟩, .inr rfl, ?_⟩
          rw [LockedCalls.step, hinside]
          dsimp only
          rw [hwork]
          rfl
      | some next =>
          refine ⟨t', .work t', ⟨call', loc, hinside, hkey⟩, .inl rfl, ?_⟩
          rw [LockedCalls.step, hinside]
          dsimp only
          rw [hwork]
          rfl

end LockedCalls

end NanoDB.Lib
