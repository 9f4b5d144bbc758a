import Mathlib.Data.List.Basic

/-!
# Isolation of domains

Several domains drive one machine. A domain is isolated when its own calls act on a view
of the state that the calls of the others leave alone: what they return in a run is then
what they return in the run of these calls alone.
-/

namespace ZNet.Isolation

variable {σ α β τ : Type} (perform : σ → α → β×σ)

/-- The calls of a run with what they return. -/
def trace : σ → List α → List (α×β)
  | _,[] => []
  | s,a::as => (a,(perform s a).1)::trace (perform s a).2 as

/-- The calls of the domain are `own`, and `view` is its part of the state. -/
structure Isolated (own : α → Bool) (view : σ → τ) : Prop where
  result : ∀ {s s' a}, own a = true → view s = view s' → (perform s a).1 = (perform s' a).1
  consistent : ∀ {s s' a}, own a = true → view s = view s' → view (perform s a).2 = view (perform s' a).2
  respects : ∀ {s a}, own a = false → view (perform s a).2 = view s

variable {perform} {own : α → Bool} {view : σ → τ}

/-- Two runs that start with the same view return the same to the domain, when one of them
takes the calls of the others too. -/
theorem Isolated.filter_trace (h : Isolated perform own view) {s s' : σ} (hview : view s = view s') (as : List α) :
    (trace perform s as).filter (fun call => own call.1) = trace perform s' (as.filter own) := by
  induction as generalizing s s' with
  | nil => rfl
  | cons a as ih =>
    cases hown : own a with
    | true =>
      simp only [trace,List.filter_cons,hown,if_true]
      rw [h.result hown hview,ih (h.consistent hown hview)]
    | false =>
      simp only [trace,List.filter_cons,hown,Bool.false_eq_true,if_false]
      exact ih ((h.respects hown).trans hview)

/-- They end in the same view. -/
theorem Isolated.filter_run (h : Isolated perform own view) {s s' : σ} (hview : view s = view s') (as : List α) :
    view (as.foldl (fun s a => (perform s a).2) s) =
      view ((as.filter own).foldl (fun s a => (perform s a).2) s') := by
  induction as generalizing s s' with
  | nil => exact hview
  | cons a as ih =>
    cases hown : own a with
    | true =>
      rw [List.filter_cons_of_pos hown]
      exact ih (h.consistent hown hview)
    | false =>
      rw [List.filter_cons_of_neg (by simp [hown])]
      exact ih ((h.respects hown).trans hview)

end ZNet.Isolation
