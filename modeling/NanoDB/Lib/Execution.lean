import Mathlib.Logic.Function.Iterate
import Mathlib.Logic.Relation

/-!
# Executions of labelled transition systems

A system is given by an executable step function {lit}`σ → α → Option σ`: an
action that is not enabled yields {lean}`none`.  A finite execution is a list of
actions, each enabled where it is taken and each satisfying a side condition on
the state it is taken in.  The side condition is how "every step of the run
meets the condition" is said.

Main results:

- Theorem {lit}`Exec.invariant`: a property preserved by one step holds at the
  end of every execution.
- Theorem {lit}`Exec.relation`: a reflexive and transitive relation that every
  step respects relates the two ends of every execution.
- Theorem {lit}`Exec.instrument`: an execution extends to the system that also
  carries a history variable.
- Theorem {lit}`iterate_reaches`: when each round of a system reaches a goal or lowers a rank,
  all rounds from the rank on are at the goal.
-/

namespace NanoDB.Lib

variable {σ α η : Type*}

/-- {lit}`Exec step ok s as s'`: the actions {lit}`as` lead from {lit}`s` to
{lit}`s'`, and each of them satisfies {lit}`ok` in the state it is taken in. -/
inductive Exec (step : σ → α → Option σ) (ok : σ → α → Prop) : σ → List α → σ → Prop
  | nil (s : σ) : Exec step ok s [] s
  | cons {s s' s'' : σ} {a : α} {as : List α} (hok : ok s a) (hstep : step s a = some s')
      (rest : Exec step ok s' as s'') : Exec step ok s (a :: as) s''

namespace Exec

variable {step : σ → α → Option σ} {ok ok' : σ → α → Prop} {s s' s'' : σ} {as bs : List α}

/-- Executions compose. -/
theorem append (h : Exec step ok s as s') (h' : Exec step ok s' bs s'') :
    Exec step ok s (as ++ bs) s'' := by
  induction h with
  | nil s => exact h'
  | cons hok hstep _ ih => exact cons hok hstep (ih h')

/-- An execution under a stronger side condition is one under a weaker one. -/
theorem weaken (hweak : ∀ s a, ok s a → ok' s a) (h : Exec step ok s as s') :
    Exec step ok' s as s' := by
  induction h with
  | nil s => exact nil s
  | cons hok hstep _ ih => exact cons (hweak _ _ hok) hstep ih

/-- An execution is one under a side condition that follows from its own and an invariant. -/
theorem strengthen (h : Exec step ok s as s') (Inv : σ → Prop)
    (hpres : ∀ s a s', Inv s → ok s a → step s a = some s' → Inv s')
    (hok : ∀ s a, Inv s → ok s a → ok' s a) (hinit : Inv s) : Exec step ok' s as s' := by
  induction h with
  | nil s => exact nil s
  | cons hcons hstep _ ih =>
      exact cons (hok _ _ hinit hcons) hstep (ih (hpres _ _ _ hinit hcons hstep))

/-- The invariant rule. -/
theorem invariant (h : Exec step ok s as s') (Inv : σ → Prop)
    (hpres : ∀ s a s', Inv s → ok s a → step s a = some s' → Inv s') (hinit : Inv s) :
    Inv s' := by
  induction h with
  | nil s => exact hinit
  | cons hok hstep _ ih => exact ih (hpres _ _ _ hinit hok hstep)

/-- The rule for relations between the two ends of an execution.  The invariant
{lit}`Inv` is available at every step. -/
theorem relation (h : Exec step ok s as s') (Inv : σ → Prop) (R : σ → σ → Prop)
    (hrefl : ∀ s, R s s) (htrans : ∀ s s' s'', R s s' → R s' s'' → R s s'')
    (hpres : ∀ s a s', Inv s → ok s a → step s a = some s' → Inv s')
    (hrel : ∀ s a s', Inv s → ok s a → step s a = some s' → R s s') (hinit : Inv s) :
    R s s' := by
  induction h with
  | nil s => exact hrefl s
  | cons hok hstep _ ih =>
      exact htrans _ _ _ (hrel _ _ _ hinit hok hstep) (ih (hpres _ _ _ hinit hok hstep))

end Exec

/-- Take the actions of a list one after the other, as long as each is enabled and
satisfies the side condition. -/
def guardedRun (step : σ → α → Option σ) (ok : σ → α → Prop) [∀ s a, Decidable (ok s a)] :
    σ → List α → Option σ
  | s, [] => some s
  | s, a :: as => if ok s a then (step s a).bind fun s' => guardedRun step ok s' as else none

/-- An evaluated run is an execution. -/
theorem Exec.of_guardedRun (step : σ → α → Option σ) (ok : σ → α → Prop)
    [∀ s a, Decidable (ok s a)] (s : σ) (as : List α) (h : (guardedRun step ok s as).isSome) :
    Exec step ok s as ((guardedRun step ok s as).get h) := by
  induction as generalizing s with
  | nil => exact Exec.nil s
  | cons a as ih =>
      have hok : ok s a := by
        by_cases hok : ok s a
        · exact hok
        · simp [guardedRun, hok] at h
      cases hstep : step s a with
      | none => simp [guardedRun, hstep] at h
      | some t =>
          have heq : guardedRun step ok s (a :: as) = guardedRun step ok t as := by
            simp [guardedRun, hok, hstep]
          simp only [heq] at h ⊢
          exact Exec.cons hok hstep (ih t h)

/-! ## History variables -/

/-- The system that also carries a history, updated by {lit}`track` from the
state before the step, the action and the old history. -/
def instrument (step : σ → α → Option σ) (track : σ → α → η → η) (p : σ × η) (a : α) :
    Option (σ × η) :=
  (step p.1 a).map fun s' => (s', track p.1 a p.2)

/-- A step of the instrumented system is a step of the system and an update of
the history. -/
theorem instrument_eq_some {step : σ → α → Option σ} {track : σ → α → η → η} {p p' : σ × η}
    {a : α} : instrument step track p a = some p' ↔
      step p.1 a = some p'.1 ∧ p'.2 = track p.1 a p.2 := by
  rcases p' with ⟨s', h'⟩
  simp only [instrument, Option.map_eq_some_iff, Prod.mk.injEq]
  constructor
  · rintro ⟨t, ht, rfl, rfl⟩
    exact ⟨ht, rfl⟩
  · rintro ⟨hs, rfl⟩
    exact ⟨s', hs, rfl, rfl⟩

/-- Every execution extends to the instrumented system, from any history. -/
theorem Exec.instrument {step : σ → α → Option σ} {ok : σ → α → Prop} (track : σ → α → η → η)
    {s s' : σ} {as : List α} (h : Exec step ok s as s') (h₀ : η) :
    ∃ h₁, Exec (instrument step track) (fun p a => ok p.1 a) (s, h₀) as (s', h₁) := by
  induction h generalizing h₀ with
  | nil s => exact ⟨h₀, Exec.nil _⟩
  | @cons s t s'' a as hok hstep _ ih =>
      rcases ih (track s a h₀) with ⟨h₁, hrest⟩
      exact ⟨h₁, Exec.cons hok (instrument_eq_some.mpr ⟨hstep, rfl⟩) hrest⟩

/-! ## Possible outcomes -/

/-- Some execution leads from a state to one with the property. -/
def Possible (step : σ → α → Option σ) (ok : σ → α → Prop) (P : σ → Prop) (s : σ) : Prop :=
  ∃ as s', Exec step ok s as s' ∧ P s'

namespace Possible

variable {step : σ → α → Option σ} {ok : σ → α → Prop} {P Q : σ → Prop} {s s' : σ}

theorem here (h : P s) : Possible step ok P s :=
  ⟨[], s, Exec.nil s, h⟩

theorem cons {a : α} (hok : ok s a) (hstep : step s a = some s') (h : Possible step ok P s') :
    Possible step ok P s := by
  rcases h with ⟨as, t, hrun, ht⟩
  exact ⟨a :: as, t, Exec.cons hok hstep hrun, ht⟩

/-- What is possible from a possible state is possible. -/
theorem bind (h : Possible step ok P s) (hnext : ∀ t, P t → Possible step ok Q t) :
    Possible step ok Q s := by
  rcases h with ⟨as, t, hrun, ht⟩
  rcases hnext t ht with ⟨bs, u, hrest, hu⟩
  exact ⟨as ++ bs, u, hrun.append hrest, hu⟩

theorem mono (h : Possible step ok P s) (hweak : ∀ t, P t → Q t) : Possible step ok Q s :=
  h.bind fun t ht => here (hweak t ht)

/-- What every execution keeps may be assumed of a possible state. -/
theorem keeping (Inv : σ → Prop) (h : Possible step ok P s)
    (hpres : ∀ s a s', Inv s → ok s a → step s a = some s' → Inv s') (hinit : Inv s) :
    Possible step ok (fun t => Inv t ∧ P t) s := by
  rcases h with ⟨as, t, hrun, ht⟩
  exact ⟨as, t, hrun, hrun.invariant Inv hpres hinit, ht⟩

end Possible

/-! ## Rounds -/

/-- The convergence rule for a system that repeats one round: a round from the invariant
reaches the goal, or keeps the invariant and lowers the rank; the goal is kept. -/
theorem iterate_reaches {round : σ → σ} (Inv Goal : σ → Prop) (rank : σ → Nat)
    (hkeep : ∀ s, Goal s → Goal (round s))
    (hstep : ∀ s, Inv s → Goal (round s) ∨ (Inv (round s) ∧ rank (round s) < rank s))
    {s : σ} (hs : Inv s) {k : Nat} (hk : rank s < k) : Goal (round^[k] s) := by
  induction k generalizing s with
  | zero => exact absurd hk (Nat.not_lt_zero _)
  | succ k ih =>
      rw [Function.iterate_succ_apply]
      rcases hstep s hs with hgoal | ⟨hinv, hlt⟩
      · exact Function.Iterate.rec Goal hgoal hkeep k
      · exact ih hinv (by omega)

end NanoDB.Lib
