/-
# `Lib.Run` — guarded runs of a transition function

A run is a list of events folded into a state.  `Guarded ok step s es` says
that every event of the run meets the condition `ok` in the state it is taken
from; the rules below turn "one guarded step keeps the invariant" into "every
state of a guarded run has it".
-/
import Mathlib.Data.List.Basic

namespace Lib

section Guarded

variable {σ ε : Type*}

/-- Every event of the run meets `ok` in the state it is taken from. -/
def Guarded (ok : σ → ε → Prop) (step : σ → ε → σ) : σ → List ε → Prop
  | _, [] => True
  | s, e :: es => ok s e ∧ Guarded ok step (step s e) es

variable {ok : σ → ε → Prop} {step : σ → ε → σ}

/-- A prefix of a guarded run is guarded. -/
theorem Guarded.of_append {s : σ} {es fs : List ε} (h : Guarded ok step s (es ++ fs)) :
    Guarded ok step s es := by
  induction es generalizing s with
  | nil => trivial
  | cons e es ih => exact ⟨h.1, ih h.2⟩

/-- The rest of a guarded run is guarded from the state reached. -/
theorem Guarded.drop {s : σ} {es fs : List ε} (h : Guarded ok step s (es ++ fs)) :
    Guarded ok step (es.foldl step s) fs := by
  induction es generalizing s with
  | nil => exact h
  | cons e es ih => exact ih h.2

/-- The invariant rule: what a guarded step keeps, a guarded run keeps. -/
theorem Guarded.inv {I : σ → Prop} (hstep : ∀ s e, I s → ok s e → I (step s e))
    {s : σ} {es : List ε} (hs : I s) (h : Guarded ok step s es) : I (es.foldl step s) := by
  induction es generalizing s with
  | nil => exact hs
  | cons e es ih => exact ih (hstep s e hs h.1) h.2

end Guarded

section Runs

variable {σ ε : Type*}

/-- A run of a step that may fail; every event meets `ok` in the state it is
taken from. -/
inductive Runs (ok : σ → ε → Prop) (step : ε → σ → Option σ) : σ → List ε → σ → Prop
  | nil {s : σ} : Runs ok step s [] s
  | cons {s s₁ s' : σ} {e : ε} {es : List ε} (hok : ok s e) (hstep : step e s = some s₁)
      (hrest : Runs ok step s₁ es s') : Runs ok step s (e :: es) s'

variable {ok : σ → ε → Prop} {step : ε → σ → Option σ}

theorem Runs.append {s s₁ s₂ : σ} {es fs : List ε} (h : Runs ok step s es s₁)
    (g : Runs ok step s₁ fs s₂) : Runs ok step s (es ++ fs) s₂ := by
  induction h with
  | nil => exact g
  | cons hok hstep _ ih => exact .cons hok hstep (ih g)

/-- A run that meets a condition meets a weaker one. -/
theorem Runs.mono {ok' : σ → ε → Prop} (hok : ∀ s e, ok s e → ok' s e) {s s' : σ} {es : List ε}
    (h : Runs ok step s es s') : Runs ok' step s es s' := by
  induction h with
  | nil => exact .nil
  | cons hok₁ hstep _ ih => exact .cons (hok _ _ hok₁) hstep ih

/-- What every step keeps, every run keeps. -/
theorem Runs.inv {I : σ → Prop} (hstep : ∀ s e s', I s → ok s e → step e s = some s' → I s')
    {s s' : σ} {es : List ε} (h : Runs ok step s es s') (hs : I s) : I s' := by
  induction h with
  | nil => exact hs
  | cons hok hs₁ _ ih => exact ih (hstep _ _ _ hs hok hs₁)

/-- What one event brings about and every step keeps holds after a run with
that event. -/
theorem Runs.after {I J : σ → Prop} {e₀ : ε}
    (hI : ∀ s e s', I s → ok s e → step e s = some s' → I s')
    (hJ : ∀ s e s', J s → ok s e → step e s = some s' → J s')
    (hIJ : ∀ s s', I s → ok s e₀ → step e₀ s = some s' → J s')
    {s s' : σ} {es : List ε} (h : Runs ok step s es s') (hs : I s) (hmem : e₀ ∈ es) : J s' := by
  induction h with
  | nil => cases hmem
  | cons hok hs₁ hrest ih =>
      rcases List.mem_cons.mp hmem with rfl | hmem
      · exact hrest.inv hJ (hIJ _ _ hs hok hs₁)
      · exact ih (hI _ _ _ hs hok hs₁) hmem

end Runs

end Lib
