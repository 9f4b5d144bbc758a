import Mathlib.Data.Nat.Notation

/-!
# Properties along a run

A deterministic machine driven by a list of actions. `Along` says that a predicate
holds at every step of the run, of the state before the step and the action.
-/

namespace ZNet.Runs

variable {σ α : Type} (step : σ → α → σ)

def run (s : σ) (as : List α) : σ := as.foldl step s

def Along (P : σ → α → Prop) : σ → List α → Prop
  | _,[] => True
  | s,a::as => P s a ∧ Along P (step s a) as

variable {step}

theorem along_and {P Q : σ → α → Prop} {s : σ} {as : List α} :
    Along step (fun s a => P s a ∧ Q s a) s as ↔ Along step P s as ∧ Along step Q s as := by
  induction as generalizing s with
  | nil => simp [Along]
  | cons a as ih =>
    simp only [Along,ih]
    constructor
    · rintro ⟨⟨hp,hq⟩,hps,hqs⟩
      exact ⟨⟨hp,hps⟩,hq,hqs⟩
    · rintro ⟨⟨hp,hps⟩,hq,hqs⟩
      exact ⟨⟨hp,hq⟩,hps,hqs⟩

theorem run_concat (s : σ) (as : List α) (a : α) : run step s (as++[a]) = step (run step s as) a := by
  rw [run,run,List.foldl_append,List.foldl_cons,List.foldl_nil]

/-- What holds along a run holds of its last action. -/
theorem Along.last {P : σ → α → Prop} {s : σ} {as : List α} {a : α} (h : Along step P s (as++[a])) :
    P (run step s as) a := by
  induction as generalizing s with
  | nil => exact h.1
  | cons a as ih => exact ih h.2

/-- An invariant that every admissible step keeps holds at the end of the run. -/
theorem Along.inv {Q : σ → α → Prop} {I : σ → Prop}
    (hstep : ∀ s a, I s → Q s a → I (step s a)) {s : σ} {as : List α} (hs : I s)
    (h : Along step Q s as) : I (run step s as) := by
  induction as generalizing s with
  | nil => exact hs
  | cons a as ih => exact ih (hstep s a hs h.1) h.2

/-- An invariant that every step keeps holds at the end of every run. -/
theorem run_inv {I : σ → Prop} (hstep : ∀ s a, I s → I (step s a)) {s : σ} (hs : I s) (as : List α) :
    I (run step s as) := by
  induction as generalizing s with
  | nil => exact hs
  | cons a as ih => exact ih (hstep s a hs)

/-- The same for the runs of legal actions. -/
theorem run_inv_of_legal {L : α → Prop} {I : σ → Prop} (hstep : ∀ s a, I s → L a → I (step s a)) {s : σ} {as : List α}
    (hs : I s) (hL : ∀ a ∈ as, L a) : I (run step s as) := by
  induction as generalizing s with
  | nil => exact hs
  | cons a as ih =>
    exact ih (hstep s a hs (hL a List.mem_cons_self)) fun b hb => hL b (List.mem_cons_of_mem _ hb)

/-- Along a run of legal actions a property holds that each of them gives, with an invariant
that it keeps. -/
theorem along_of_inv {P : σ → α → Prop} {L : α → Prop} {I : σ → Prop}
    (hstep : ∀ s a, I s → L a → P s a ∧ I (step s a)) {s : σ} {as : List α} (hs : I s)
    (hL : ∀ a ∈ as, L a) : Along step P s as := by
  induction as generalizing s with
  | nil => trivial
  | cons a as ih =>
    obtain ⟨hp,hs⟩ := hstep s a hs (hL a List.mem_cons_self)
    exact ⟨hp,ih hs fun b hb => hL b (List.mem_cons_of_mem _ hb)⟩

/-- The same where every action is legal. -/
theorem along_of_step {P : σ → α → Prop} {I : σ → Prop} (hstep : ∀ s a, I s → P s a ∧ I (step s a)) {s : σ}
    (hs : I s) (as : List α) : Along step P s as :=
  along_of_inv (L:=fun _ => True) (fun s a h _ => hstep s a h) hs fun _ _ => trivial

/-- Under an invariant that admissible steps keep, they have a property all along the run. -/
theorem Along.of_inv {P Q : σ → α → Prop} {I : σ → Prop} (hstep : ∀ s a, I s → Q s a → P s a ∧ I (step s a))
    {s : σ} {as : List α} (hs : I s) (h : Along step Q s as) : Along step P s as := by
  induction as generalizing s with
  | nil => trivial
  | cons a as ih =>
    obtain ⟨hp,hs⟩ := hstep s a hs h.1
    exact ⟨hp,ih hs h.2⟩

/-- Under an invariant that admissible steps keep, a property of single steps that is
the same as their admissibility holds along a run exactly if the run is admissible. -/
theorem along_iff {P Q : σ → α → Prop} {I : σ → Prop}
    (hstep : ∀ s a, I s → Q s a → I (step s a)) (hiff : ∀ s a, I s → (P s a ↔ Q s a))
    {s : σ} {as : List α} (hs : I s) : Along step P s as ↔ Along step Q s as := by
  induction as generalizing s with
  | nil => exact Iff.rfl
  | cons a as ih =>
    simp only [Along]
    rw [hiff s a hs]
    constructor
    · rintro ⟨hq,hp⟩
      exact ⟨hq,(ih (hstep s a hs hq)).mp hp⟩
    · rintro ⟨hq,hp⟩
      exact ⟨hq,(ih (hstep s a hs hq)).mpr hp⟩

/-- The same where only those runs matter whose steps all satisfy `L`. -/
theorem along_iff_of_along {L P Q : σ → α → Prop} {I : σ → Prop}
    (hstep : ∀ s a, I s → L s a → Q s a → I (step s a)) (hiff : ∀ s a, I s → L s a → (P s a ↔ Q s a))
    {s : σ} {as : List α} (hs : I s) (hL : Along step L s as) : Along step P s as ↔ Along step Q s as := by
  have hboth : Along step (fun s a => L s a ∧ P s a) s as ↔ Along step (fun s a => L s a ∧ Q s a) s as := by
    apply along_iff (I:=I) _ _ hs
    · intro s a h hgood
      exact hstep s a h hgood.1 hgood.2
    · intro s a h
      exact and_congr_right (hiff s a h)
  rw [along_and,along_and] at hboth
  exact and_congr_right_iff.mp hboth hL

/-- What each step keeps exactly if it is admissible holds at the end of a run exactly if it
holds at the start and the run is admissible. -/
theorem run_iff_along {G I : σ → Prop} {Q : σ → α → Prop} (hstep : ∀ s a, I s → I (step s a))
    (hiff : ∀ s a, I s → (G (step s a) ↔ G s ∧ Q s a)) {s : σ} (hs : I s) (as : List α) :
    G (run step s as) ↔ G s ∧ Along step Q s as := by
  induction as generalizing s with
  | nil => exact ⟨fun h => ⟨h,trivial⟩,And.left⟩
  | cons a as ih =>
    have hrest : G (run step s (a::as)) ↔ G (step s a) ∧ Along step Q (step s a) as := ih (hstep s a hs)
    rw [hrest,hiff s a hs,and_assoc]
    rfl

end ZNet.Runs
