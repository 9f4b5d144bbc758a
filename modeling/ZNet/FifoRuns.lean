import ZNet.Runs
import Mathlib.Tactic.Common

/-!
# Queues along a run

A machine that takes items in and gives items out, and the items it holds. A step
conserves the order when what is held and taken in is what is given out and then held.
-/

namespace ZNet.FifoRuns
open Runs

variable {σ α β : Type} (step : σ → α → σ) (contents : σ → List β) (accepted delivered : σ → α → List β)

/-- What a machine takes in, or gives out, during a run. -/
def total (f : σ → α → List β) : σ → List α → List β
  | _,[] => []
  | s,a::as => f s a++total f (step s a) as

def Conserves (s : σ) (a : α) : Prop := contents s++accepted s a = delivered s a++contents (step s a)

/-- At any time of the run, what has been taken in is what has been given out, in the same
order and each item once, and then what is held. -/
def InOrder (s : σ) (as : List α) : Prop :=
  ∀ n, contents s++total step accepted s (as.take n) =
    total step delivered s (as.take n)++contents (run step s (as.take n))

variable {step contents accepted delivered}

/-- The order is conserved by a run each of whose steps conserves it. -/
theorem conserves_run {s : σ} {as : List α} (h : Along step (Conserves step contents accepted delivered) s as) :
    contents s++total step accepted s as = total step delivered s as++contents (run step s as) := by
  induction as generalizing s with
  | nil => rw [total,total,List.append_nil,List.nil_append,run,List.foldl_nil]
  | cons a as ih =>
    calc contents s++total step accepted s (a::as)
      _ = (contents s++accepted s a)++total step accepted (step s a) as := (List.append_assoc ..).symm
      _ = delivered s a++(contents (step s a)++total step accepted (step s a) as) := by rw [h.1,List.append_assoc]
      _ = delivered s a++(total step delivered (step s a) as++contents (run step (step s a) as)) := by rw [ih h.2]
      _ = total step delivered s (a::as)++contents (run step s (a::as)) := (List.append_assoc ..).symm

/-- A run is in order exactly if each of its steps conserves the order. -/
theorem inOrder_iff {s : σ} {as : List α} :
    InOrder step contents accepted delivered s as ↔ Along step (Conserves step contents accepted delivered) s as := by
  induction as generalizing s with
  | nil =>
    refine iff_of_true (fun n => ?_) trivial
    rw [List.take_nil,total,total,List.append_nil,List.nil_append,run,List.foldl_nil]
  | cons a as ih =>
    constructor
    · intro h
      have ha : Conserves step contents accepted delivered s a := by
        have hone := h 1
        rw [List.take_succ_cons,List.take_zero,total,total,total,total,List.append_nil,List.append_nil] at hone
        exact hone
      refine ⟨ha,ih.mp fun n => ?_⟩
      have hn := h (n+1)
      rw [List.take_succ_cons,total,total,← List.append_assoc,ha,List.append_assoc,List.append_assoc] at hn
      exact List.append_cancel_left hn
    · rintro ⟨ha,has⟩ n
      cases n with
      | zero => rw [List.take_zero,total,total,List.append_nil,List.nil_append,run,List.foldl_nil]
      | succ n =>
        have hrest := ih.mpr has n
        rw [List.take_succ_cons,total,total,← List.append_assoc,ha,List.append_assoc,hrest,List.append_assoc]
        rfl

end ZNet.FifoRuns
