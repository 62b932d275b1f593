import Mathlib.Logic.Relation
import NanoDB.Lib.Execution

/-!
# Forward simulation

A system whose steps are a function of an action is simulated by an abstract one whose steps
are a relation: whatever it does from a state related to an abstract one, some number of
abstract steps does too.  The side condition of the runs says which steps have to be matched.

Main results:

- Theorem {lit}`Simulates.run`: a simulation matches whole runs.
- Theorem {lit}`rel_of_steps`: what holds between the ends of each abstract step holds between
  the ends of any number of them.
-/

namespace NanoDB.Lib

variable {σ α τ : Type*}

/-- Every step from related states that meets the side condition is matched by abstract steps
that lead to related states. -/
def Simulates (step : σ → α → Option σ) (ok : σ → α → Prop) (absStep : τ → τ → Prop)
    (R : σ → τ → Prop) : Prop :=
  ∀ s a s' t, R s t → ok s a → step s a = some s' →
    ∃ t', Relation.ReflTransGen absStep t t' ∧ R s' t'

variable {step : σ → α → Option σ} {ok : σ → α → Prop} {absStep : τ → τ → Prop} {R : σ → τ → Prop}

/-- A simulation matches whole runs. -/
theorem Simulates.run (h : Simulates step ok absStep R) {s s' : σ} {as : List α}
    (hrun : Exec step ok s as s') {t : τ} (hR : R s t) :
    ∃ t', Relation.ReflTransGen absStep t t' ∧ R s' t' := by
  induction hrun generalizing t with
  | nil s => exact ⟨t, .refl, hR⟩
  | cons hok hstep _ ih =>
      rcases h _ _ _ t hR hok hstep with ⟨u, hsteps, hu⟩
      rcases ih hu with ⟨t', hrest, ht'⟩
      exact ⟨t', hsteps.trans hrest, ht'⟩

/-- A relation between abstract states that each abstract step keeps holds over any number of
steps. -/
theorem rel_of_steps {S : τ → τ → Prop} (hrefl : ∀ t, S t t)
    (htrans : ∀ t u v, S t u → S u v → S t v) {Inv : τ → Prop}
    (hstep : ∀ t u, Inv t → absStep t u → Inv u ∧ S t u) {t u : τ}
    (hsteps : Relation.ReflTransGen absStep t u) (hinv : Inv t) : Inv u ∧ S t u := by
  induction hsteps with
  | refl => exact ⟨hinv, hrefl t⟩
  | tail _ hlast ih =>
      rcases hstep _ _ ih.1 hlast with ⟨hinv', hS⟩
      exact ⟨hinv', htrans _ _ _ ih.2 hS⟩

end NanoDB.Lib
