import Mathlib.Algebra.Order.Ring.Nat
import Mathlib.Data.Nat.Periodic
import Mathlib.Order.Interval.Finset.Nat

/-!
# Weighted choice

The items of a list divide the numbers below the sum of their weights among themselves,
one after the other. A number picks the item in whose part it is.
-/

namespace ZNet.WeightedChoice

variable {α : Type} (weight : α → ℕ)

def pick : ℕ → List α → Option α
  | _,[] => none
  | n,x::xs => if n < weight x then some x else pick (n-weight x) xs

/-- The number is in the part of the item at `i`, with the given weights. -/
def InPart (ws : List ℕ) (i n : ℕ) : Prop := (ws.take i).sum ≤ n ∧ n < (ws.take (i+1)).sum

instance (ws : List ℕ) (i n : ℕ) : Decidable (InPart ws i n) := inferInstanceAs (Decidable (_ ∧ _))

variable {weight} {n : ℕ} {x : α} {xs : List α}

theorem pick_some (hlt : n < (xs.map weight).sum) : ∃ x ∈ xs, pick weight n xs = some x ∧ 0 < weight x := by
  induction xs generalizing n with
  | nil => cases hlt
  | cons y ys ih =>
    rw [List.map_cons,List.sum_cons] at hlt
    by_cases hy : n < weight y
    · refine ⟨y,List.mem_cons_self,?_,by omega⟩
      rw [pick,if_pos hy]
    · obtain ⟨x,hx,hpick,hpos⟩ := ih (n:=n-weight y) (by omega)
      refine ⟨x,List.mem_cons_of_mem y hx,?_,hpos⟩
      rw [pick,if_neg hy]
      exact hpick

/-- Every item of positive weight is picked by some number. -/
theorem exists_pick (hx : x ∈ xs) (hpos : 0 < weight x) : ∃ n < (xs.map weight).sum, pick weight n xs = some x := by
  induction xs with
  | nil => cases hx
  | cons y ys ih =>
    rcases List.mem_cons.mp hx with rfl | hx
    · refine ⟨0,?_,?_⟩
      · rw [List.map_cons,List.sum_cons]
        omega
      · rw [pick,if_pos hpos]
    · obtain ⟨n,hlt,hpick⟩ := ih hx
      refine ⟨weight y+n,?_,?_⟩
      · rw [List.map_cons,List.sum_cons]
        omega
      · rw [pick,if_neg (by omega),Nat.add_sub_cancel_left]
        exact hpick

section Parts

variable {ws : List ℕ} {w i j : ℕ}

theorem inPart_zero : InPart (w::ws) 0 n ↔ n < w := by simp [InPart]

theorem inPart_succ : InPart (w::ws) (i+1) n ↔ w ≤ n ∧ InPart ws i (n-w) := by
  simp only [InPart,List.take_succ_cons,List.sum_cons]
  omega

theorem exists_inPart (hlt : n < ws.sum) : ∃ i, InPart ws i n := by
  induction ws generalizing n with
  | nil => cases hlt
  | cons w ws ih =>
    rw [List.sum_cons] at hlt
    by_cases hw : n < w
    · exact ⟨0,inPart_zero.mpr hw⟩
    · obtain ⟨i,hi⟩ := ih (n:=n-w) (by omega)
      exact ⟨i+1,inPart_succ.mpr ⟨Nat.not_lt.mp hw,hi⟩⟩

/-- The parts do not overlap. -/
theorem InPart.unique (hi : InPart ws i n) (hj : InPart ws j n) : j = i := by
  induction ws generalizing n i j with
  | nil => simp [InPart] at hi
  | cons w ws ih =>
    cases i with
    | zero =>
      cases j with
      | zero => rfl
      | succ j => exact absurd (inPart_zero.mp hi) (Nat.not_lt.mpr (inPart_succ.mp hj).1)
    | succ i =>
      cases j with
      | zero => exact absurd (inPart_zero.mp hj) (Nat.not_lt.mpr (inPart_succ.mp hi).1)
      | succ j => rw [ih (inPart_succ.mp hi).2 (inPart_succ.mp hj).2]

/-- A number picks the item in whose part it is. -/
theorem InPart.pick (h : InPart (xs.map weight) i n) : ∃ x, xs[i]? = some x ∧ pick weight n xs = some x := by
  induction xs generalizing n i with
  | nil => simp [InPart] at h
  | cons y ys ih =>
    cases i with
    | zero => exact ⟨y,rfl,by rw [WeightedChoice.pick,if_pos (inPart_zero.mp h)]⟩
    | succ i =>
      obtain ⟨hle,hrest⟩ := inPart_succ.mp h
      obtain ⟨x,hx,hpick⟩ := ih hrest
      exact ⟨x,hx,by rw [WeightedChoice.pick,if_neg (Nat.not_lt.mpr hle),hpick]⟩

/-- Among as many successive numbers as the weights add up to, each part is met as often
as its weight says. -/
theorem card_inPart (hw : ws[i]? = some w) (t : ℕ) :
    ((Finset.Ico t (t+ws.sum)).filter fun n => InPart ws i (n%ws.sum)).card = w := by
  have hperiodic : Function.Periodic (fun n => InPart ws i (n%ws.sum)) ws.sum := by
    intro n
    simp only [Nat.add_mod_right]
  obtain ⟨hi,hget⟩ := List.getElem?_eq_some_iff.mp hw
  have hsucc : (ws.take (i+1)).sum = (ws.take i).sum+w := by rw [List.sum_take_succ ws i hi,hget]
  have hle : (ws.take (i+1)).sum ≤ ws.sum := by
    rw [← List.sum_take_add_sum_drop ws (i+1)]
    exact Nat.le_add_right _ _
  rw [Nat.filter_Ico_card_eq_of_periodic t ws.sum _ hperiodic,Nat.count_eq_card_filter_range]
  have hpart : (Finset.range ws.sum).filter (fun n => InPart ws i (n%ws.sum)) =
      Finset.Ico (ws.take i).sum (ws.take (i+1)).sum := by
    ext n
    rw [Finset.mem_filter,Finset.mem_range,Finset.mem_Ico]
    constructor
    · rintro ⟨hlt,hn⟩
      rw [Nat.mod_eq_of_lt hlt] at hn
      exact hn
    · intro hn
      have hlt : n < ws.sum := Nat.lt_of_lt_of_le hn.2 hle
      rw [Nat.mod_eq_of_lt hlt]
      exact ⟨hlt,hn⟩
  rw [hpart,Nat.card_Ico,hsucc,Nat.add_sub_cancel_left]

end Parts

end ZNet.WeightedChoice
