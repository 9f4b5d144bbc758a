import ZNet.Runs

/-!
# Answers of machines

What a machine answers in a run. A machine that translates calls may stand before another
one: the two answer as a third machine does when each call keeps the states related.
-/

namespace ZNet.Answers
open Runs

variable {σ τ μ α α' β : Type}

/-- The answers to the calls of a run. -/
def answers (perform : σ → α → β×σ) : σ → List α → List β
  | _,[] => []
  | s,a::as => (perform s a).1::answers perform (perform s a).2 as

/-- A call is answered alike and keeps the states related, with `translate` before the machine
on the right. -/
structure Simulates (perform : σ → α → β×σ) (translate : μ → α → α'×μ) (perform' : τ → α' → β×τ)
    (R : σ → μ → τ → Prop) : Prop where
  answer : ∀ {s m t}, R s m t → ∀ a, (perform s a).1 = (perform' t (translate m a).1).1
  next : ∀ {s m t}, R s m t → ∀ a, R (perform s a).2 (translate m a).2 (perform' t (translate m a).1).2

variable {perform : σ → α → β×σ} {translate : μ → α → α'×μ} {perform' : τ → α' → β×τ} {R : σ → μ → τ → Prop}

theorem Simulates.answers_eq (h : Simulates perform translate perform' R) {s : σ} {m : μ} {t : τ} (hR : R s m t)
    (as : List α) : answers perform s as = answers perform' t (answers translate m as) := by
  induction as generalizing s m t with
  | nil => rfl
  | cons a as ih =>
    simp only [answers]
    rw [h.answer hR a,ih (h.next hR a)]

/-- A translation that leaves every call of a run as it is. -/
theorem answers_self {translate : μ → α → α×μ} {m : μ} {as : List α}
    (h : Along (fun m a => (translate m a).2) (fun m a => (translate m a).1 = a) m as) : answers translate m as = as := by
  induction as generalizing m with
  | nil => rfl
  | cons a as ih =>
    simp only [answers]
    rw [h.1,ih h.2]

end ZNet.Answers
