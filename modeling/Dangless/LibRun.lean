import Mathlib.Logic.Basic
import Mathlib.Tactic.TypeStar

/-! Finite runs of a labelled transition system, and the rule every property of a whole run is derived
from: an invariant of the steps holds in every state reached. -/

namespace Lts

variable {σ ι : Type*}

/-- A finite run from one state to another, with the labels of its steps, first step first. -/
inductive Run (step : σ → ι → σ → Prop) : σ → List ι → σ → Prop
  | nil (s : σ) : Run step s [] s
  | snoc {s t u : σ} {labels : List ι} {label : ι} :
      Run step s labels t → step t label u → Run step s (labels ++ [label]) u

variable {step : σ → ι → σ → Prop} {s t u : σ} {labels more : List ι}

theorem Run.single {label : ι} (h : step s label t) : Run step s [label] t :=
  Run.snoc (Run.nil s) h

theorem Run.append (hfirst : Run step s labels t) (hsecond : Run step t more u) :
    Run step s (labels ++ more) u := by
  induction hsecond with
  | nil => rwa [List.append_nil]
  | snoc _ hstep ih =>
      rw [← List.append_assoc]
      exact Run.snoc ih hstep

/-- The invariant rule. -/
theorem Run.invariant {I : σ → Prop}
    (hstep : ∀ s label t, I s → step s label t → I t) (hrun : Run step s labels t) (hs : I s) :
    I t := by
  induction hrun with
  | nil => exact hs
  | snoc _ h ih => exact hstep _ _ _ ih h

/-- The invariant rule for runs of steps with labels of a kind. -/
theorem Run.invariant_of {I : σ → Prop} {P : ι → Prop}
    (hstep : ∀ s label t, I s → P label → step s label t → I t) (hrun : Run step s labels t)
    (hlabels : ∀ label ∈ labels, P label) (hs : I s) : I t := by
  induction hrun with
  | nil => exact hs
  | snoc _ h ih =>
      have hbefore := ih fun label hlabel => hlabels label (List.mem_append_left _ hlabel)
      exact hstep _ _ _ hbefore (hlabels _ (List.mem_append_right _ List.mem_cons_self)) h

end Lts
