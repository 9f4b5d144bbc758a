import Mathlib.Order.Lattice
import Mathlib.Data.List.Basic

/-!
# Stable sorting by rank

A list is sorted by the ranks of its values, the highest one first. Values of one rank keep
their order, and that determines the result.
-/

namespace ZNet.StableSort

variable {α κ : Type} [LinearOrder κ] (rank : α → κ)

/-- The first value need not come after the second one. -/
def before (a b : α) : Bool := decide (rank b ≤ rank a)

def sort (l : List α) : List α := l.mergeSort (before rank)

/-- The values of one rank, in their order. -/
def level (k : κ) (l : List α) : List α := l.filter fun a => decide (rank a = k)

def Ranked (l : List α) : Prop := l.Pairwise fun a b => rank b ≤ rank a

variable {rank} {l m : List α} {a : α} {k : κ}

@[simp] theorem level_nil (k : κ) : level rank k [] = [] := rfl

@[simp] theorem level_append (k : κ) (l m : List α) : level rank k (l++m) = level rank k l++level rank k m :=
  List.filter_append ..

@[simp] theorem mem_level : a ∈ level rank k l ↔ a ∈ l ∧ rank a = k := by simp [level]

theorem level_cons_self (a : α) (l : List α) : level rank (rank a) (a::l) = a::level rank (rank a) l := by
  simp [level]

theorem level_cons_of_ne (h : rank a ≠ k) (l : List α) : level rank k (a::l) = level rank k l := by
  simp [level,h]

theorem before_trans (a b c : α) (hab : before rank a b) (hbc : before rank b c) : before rank a c := by
  simp only [before,decide_eq_true_eq] at *
  exact le_trans hbc hab

theorem before_total (a b : α) : before rank a b || before rank b a := by
  simpa [before] using le_total (rank b) (rank a)

theorem ranked_sort (rank : α → κ) (l : List α) : Ranked rank (sort rank l) :=
  (List.pairwise_mergeSort before_trans before_total l).imp fun h => by simpa [before] using h

theorem sort_perm (rank : α → κ) (l : List α) : (sort rank l).Perm l := List.mergeSort_perm l _

@[simp] theorem sort_nil : sort rank [] = [] := by simp [sort]

/-- Sorting is stable. -/
@[simp] theorem level_sort (k : κ) (l : List α) : level rank k (sort rank l) = level rank k l := by
  have hsorted : (level rank k l).Pairwise fun a b => before rank a b := by
    apply List.pairwise_of_forall_mem_list
    intro a ha b hb
    rw [mem_level] at ha hb
    simp [before,ha.2,hb.2]
  have hkept : (level rank k l).Sublist (sort rank l) :=
    List.sublist_mergeSort before_trans before_total hsorted List.filter_sublist
  have hlevel := hkept.filter fun a => decide (rank a = k)
  rw [level,List.filter_filter] at hlevel
  simp only [Bool.and_self] at hlevel
  exact (hlevel.eq_of_length ((sort_perm rank l).filter _).length_eq.symm).symm

/-- Lists in the order of the ranks are the same if they have the same levels. -/
theorem Ranked.ext (hl : Ranked rank l) (hm : Ranked rank m) (h : ∀ k, level rank k l = level rank k m) : l = m := by
  induction l generalizing m with
  | nil =>
    cases m with
    | nil => rfl
    | cons b m =>
      have hb := h (rank b)
      simp [level_cons_self] at hb
  | cons a l ih =>
    have hmem : ∀ c, c ∈ a::l ↔ c ∈ m := by
      intro c
      have hc := congrArg (c ∈ ·) (h (rank c))
      simpa using hc
    cases m with
    | nil => exact absurd ((hmem a).mp List.mem_cons_self) List.not_mem_nil
    | cons b m =>
      obtain ⟨hla,hlrest⟩ := List.pairwise_cons.mp hl
      obtain ⟨hmb,hmrest⟩ := List.pairwise_cons.mp hm
      -- The first values have the highest rank of all.
      have hranks : rank a = rank b := by
        apply le_antisymm
        · rcases List.mem_cons.mp ((hmem a).mp List.mem_cons_self) with rfl|ha
          · exact le_rfl
          · exact hmb a ha
        · rcases List.mem_cons.mp ((hmem b).mpr List.mem_cons_self) with rfl|hb
          · exact le_rfl
          · exact hla b hb
      have hfirst := h (rank a)
      rw [level_cons_self,hranks,level_cons_self,List.cons.injEq] at hfirst
      obtain ⟨rfl,hrest⟩ := hfirst
      congr 1
      apply ih hlrest hmrest
      intro k
      by_cases hk : rank a = k
      · rw [← hk,hrest]
      · have hother := h k
        rwa [level_cons_of_ne hk,level_cons_of_ne hk] at hother

/-- What sorting results in. -/
theorem sort_eq_iff : sort rank l = m ↔ Ranked rank m ∧ ∀ k, level rank k m = level rank k l := by
  constructor
  · rintro rfl
    exact ⟨ranked_sort rank l,fun k => level_sort k l⟩
  · rintro ⟨hranked,hlevels⟩
    exact (ranked_sort rank l).ext hranked fun k => (level_sort k l).trans (hlevels k).symm

end ZNet.StableSort
