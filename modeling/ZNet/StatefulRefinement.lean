import Mathlib.Data.Nat.Notation

/-!
# Refinement of computations with a state and an error

A computation on a detailed state refines one on an abstract state when related
states lead to the same value or the same error in related states. A cost
function of the state bounds what a computation spends, whether it succeeds or not.
-/

namespace ZNet.StatefulRefinement

variable {ε σ τ α β : Type}

/-- Related results: the same value or the same error, in related states. -/
def ResultRel (R : σ → τ → Prop) : EStateM.Result ε σ α → EStateM.Result ε τ α → Prop
  | .ok a s,.ok b t => a = b ∧ R s t
  | .error e s,.error f t => e = f ∧ R s t
  | _,_ => False

def Refines (R : σ → τ → Prop) (m : EStateM ε σ α) (n : EStateM ε τ α) : Prop :=
  ∀ s t, R s t → ResultRel R (m s) (n t)

theorem Refines.pure (R : σ → τ → Prop) (a : α) :
    Refines R (Pure.pure a : EStateM ε σ α) (Pure.pure a : EStateM ε τ α) :=
  fun _ _ h => ⟨rfl,h⟩

theorem Refines.throw (R : σ → τ → Prop) (e : ε) :
    Refines R (MonadExcept.throw e : EStateM ε σ α) (MonadExcept.throw e : EStateM ε τ α) :=
  fun _ _ h => ⟨rfl,h⟩

theorem Refines.bind {R : σ → τ → Prop} {m : EStateM ε σ α} {n : EStateM ε τ α} (h : Refines R m n)
    {f : α → EStateM ε σ β} {g : α → EStateM ε τ β} (hf : ∀ a, Refines R (f a) (g a)) :
    Refines R (m >>= f) (n >>= g) := by
  intro s t hst
  have hm := h s t hst
  simp only [Bind.bind,EStateM.bind]
  cases hms : m s <;> cases hnt : n t <;> rw [hms,hnt] at hm
  · obtain ⟨rfl,hst'⟩ := hm
    exact hf _ _ _ hst'
  · exact hm.elim
  · exact hm.elim
  · exact hm

theorem bind_eq_ok {m : EStateM ε σ α} {f : α → EStateM ε σ β} {s s'' : σ} {b : β}
    (h : (m >>= f) s = .ok b s'') : ∃ a s', m s = .ok a s' ∧ f a s' = .ok b s'' := by
  simp only [Bind.bind,EStateM.bind] at h
  cases hm : m s with
  | ok a s' =>
    rw [hm] at h
    exact ⟨a,s',rfl,h⟩
  | error e s' =>
    rw [hm] at h
    cases h

/-- The state a computation stops in. -/
def finalState : EStateM.Result ε σ α → σ
  | .ok _ s => s
  | .error _ s => s

/-- The value or the error a computation stops with. -/
def outcome : EStateM.Result ε σ α → Except ε α
  | .ok a _ => .ok a
  | .error e _ => .error e

theorem ResultRel.outcome_eq {R : σ → τ → Prop} {r : EStateM.Result ε σ α} {q : EStateM.Result ε τ α}
    (h : ResultRel R r q) : outcome r = outcome q := by
  cases r <;> cases q
  · exact congrArg _ h.1
  · exact h.elim
  · exact h.elim
  · exact congrArg _ h.1

/-- The computation raises `cost` by at most `k`. -/
def Within (cost : σ → ℕ) (k : ℕ) (m : EStateM ε σ α) : Prop := ∀ s, cost (finalState (m s)) ≤ cost s+k

theorem Within.mono {cost : σ → ℕ} {k l : ℕ} {m : EStateM ε σ α} (h : Within cost k m) (hkl : k ≤ l) :
    Within cost l m := fun s => Nat.le_trans (h s) (Nat.add_le_add_left hkl _)

theorem Within.pure (cost : σ → ℕ) (k : ℕ) (a : α) : Within cost k (Pure.pure a : EStateM ε σ α) :=
  fun s => Nat.le_add_right (cost s) k

theorem Within.throw (cost : σ → ℕ) (k : ℕ) (e : ε) : Within cost k (MonadExcept.throw e : EStateM ε σ α) :=
  fun s => Nat.le_add_right (cost s) k

theorem Within.bind {cost : σ → ℕ} {k l : ℕ} {m : EStateM ε σ α} {f : α → EStateM ε σ β}
    (h : Within cost k m) (hf : ∀ a, Within cost l (f a)) : Within cost (k+l) (m >>= f) := by
  intro s
  have hm := h s
  simp only [Bind.bind,EStateM.bind]
  cases hms : m s with
  | ok a s' =>
    rw [hms] at hm
    have hfa := hf a s'
    simp only [finalState] at hm hfa ⊢
    omega
  | error e s' =>
    rw [hms] at hm
    simp only [finalState] at hm ⊢
    omega

theorem bind_of_ok {m : EStateM ε σ α} {f : α → EStateM ε σ β} {s s' : σ} {a : α} (h : m s = .ok a s') :
    (m >>= f) s = f a s' := by
  simp only [Bind.bind,EStateM.bind]
  rw [h]

theorem bind_eq_error_iff {m : EStateM ε σ α} {f : α → EStateM ε σ β} {s : σ} {e : ε} :
    outcome ((m >>= f) s) = .error e ↔
      outcome (m s) = .error e ∨ ∃ a s', m s = .ok a s' ∧ outcome (f a s') = .error e := by
  simp only [Bind.bind,EStateM.bind]
  cases hm : m s with
  | ok a s' =>
    constructor
    · intro h
      exact Or.inr ⟨a,s',rfl,h⟩
    · rintro (h | ⟨_,_,⟨⟩,h⟩)
      · cases h
      · exact h
  | error e' s' =>
    constructor
    · intro h
      cases h
      exact Or.inl rfl
    · rintro (h | ⟨_,_,h,-⟩)
      · cases h
        rfl
      · cases h

end ZNet.StatefulRefinement
