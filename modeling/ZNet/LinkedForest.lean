import Mathlib.Logic.Function.Basic
import Mathlib.Logic.Relation
import Mathlib.Data.List.Nodup
import Mathlib.Data.Nat.Notation
import Mathlib.Data.Finset.Range
import Mathlib.Data.Finset.Card

/-!
# Forests in memory

Nodes are addresses. Each has a list of children and a link to its parent, and a child
is allocated after its parent. Linking a leaf and unlinking a subtree keep both in step.
-/

namespace ZNet.LinkedForest

section Definitions

variable (lists : ℕ → List ℕ) (parent : ℕ → Option ℕ)

/-- A node is listed once, and by the node its link leads to. -/
structure Linked : Prop where
  parent_iff : ∀ a c, parent c = some a ↔ c ∈ lists a
  lt : ∀ a c, c ∈ lists a → a < c
  nodup : ∀ a, (lists a).Nodup

def Lists (a c : ℕ) : Prop := c ∈ lists a

def Reach : ℕ → ℕ → Prop := Relation.ReflTransGen (Lists lists)

/-- A value computed from those of the children. -/
def fold {β : Type} (f : ℕ → List β → β) : ℕ → ℕ → β
  | 0,a => f a []
  | fuel+1,a => f a ((lists a).map (fold f fuel))

def link (a c : ℕ) : ℕ → List ℕ := Function.update lists a (lists a++[c])

def unlink (a c : ℕ) : ℕ → List ℕ := Function.update lists a ((lists a).erase c)

/-- The first node, a parent before its children, that satisfies `p`. -/
def search (p : ℕ → Bool) : ℕ → ℕ → Option ℕ
  | 0,_ => none
  | fuel+1,a => if p a then some a else (lists a).findSome? (search p fuel)

/-- The number of nodes on the way up. -/
def climb : ℕ → Option ℕ → ℕ
  | 0,_ => 0
  | _+1,none => 0
  | fuel+1,some a => climb fuel (parent a)+1

end Definitions

variable {lists : ℕ → List ℕ} {parent : ℕ → Option ℕ} {a b c r : ℕ}

section Reach

theorem le_of_reach (hlt : ∀ a c, c ∈ lists a → a < c) (hreach : Reach lists a b) : a ≤ b := by
  induction hreach with
  | refl => exact Nat.le_refl a
  | tail _ hlists ih => exact Nat.le_of_lt (Nat.lt_of_le_of_lt ih (hlt _ _ hlists))

theorem Linked.le_of_reach (h : Linked lists parent) (hreach : Reach lists a b) : a ≤ b :=
  LinkedForest.le_of_reach h.lt hreach

/-- No node is below itself. -/
theorem Linked.acyclic (h : Linked lists parent) (a : ℕ) : ¬Relation.TransGen (Lists lists) a a := by
  intro hcycle
  obtain ⟨b,hreach,hlists⟩ := Relation.TransGen.tail'_iff.mp hcycle
  have hle := h.le_of_reach hreach
  have hlt := h.lt _ _ hlists
  omega

theorem Linked.reach_parent (h : Linked lists parent) (hreach : Reach lists a b) (hparent : parent b = some c)
    (hne : b ≠ a) : Reach lists a c := by
  rcases Relation.ReflTransGen.cases_tail hreach with heq | ⟨c',hreach',hlists⟩
  · exact (hne heq).elim
  · have hc' := (h.parent_iff c' b).mpr hlists
    rw [hparent,Option.some.injEq] at hc'
    rw [hc']
    exact hreach'

theorem Linked.exists_parent (h : Linked lists parent) (hreach : Reach lists a b) (hne : b ≠ a) :
    ∃ c, parent b = some c ∧ Reach lists a c := by
  rcases Relation.ReflTransGen.cases_tail hreach with heq | ⟨c,hreach',hlists⟩
  · exact (hne heq).elim
  · exact ⟨c,(h.parent_iff c b).mpr hlists,hreach'⟩

/-- Below a leaf there is only the leaf. -/
theorem reach_leaf (hleaf : lists a = []) : Reach lists a b ↔ b = a := by
  constructor
  · intro hreach
    rcases Relation.ReflTransGen.cases_head hreach with heq | ⟨c,hlists,-⟩
    · exact heq.symm
    · rw [Lists,hleaf] at hlists
      cases hlists
  · rintro rfl
    exact .refl

end Reach

section Link

theorem mem_link {x : ℕ} : x ∈ link lists a c b ↔ x ∈ lists b ∨ b = a ∧ x = c := by
  by_cases heq : b = a
  · subst heq
    simp [link]
  · simp [link,heq]

theorem Linked.link (h : Linked lists parent) (hlt : a < c) (hfree : parent c = none) :
    Linked (link lists a c) (Function.update parent c (some a)) where
  parent_iff b x := by
    rw [mem_link,← h.parent_iff]
    by_cases hx : x = c
    · subst hx
      rw [Function.update_self,hfree]
      simp [eq_comm]
    · rw [Function.update_of_ne hx]
      simp [hx]
  lt b x hmem := by
    rcases mem_link.mp hmem with hmem | ⟨rfl,rfl⟩
    · exact h.lt b x hmem
    · exact hlt
  nodup b := by
    by_cases heq : b = a
    · subst heq
      rw [LinkedForest.link,Function.update_self]
      refine List.nodup_append.mpr ⟨h.nodup b,List.nodup_singleton c,?_⟩
      rintro x hx y hy rfl
      rw [List.mem_singleton.mp hy,← h.parent_iff,hfree] at hx
      cases hx
    · rw [LinkedForest.link,Function.update_of_ne heq]
      exact h.nodup b

/-- A leaf that is linked is reached where its parent is. -/
theorem reach_link (hne : c ≠ a) (hleaf : lists c = []) :
    Reach (link lists a c) r b ↔ Reach lists r b ∨ b = c ∧ Reach lists r a := by
  have hmono {x : ℕ} (hreach : Reach lists r x) : Reach (link lists a c) r x :=
    hreach.lift id fun _ _ hmem => mem_link.mpr (Or.inl hmem)
  constructor
  · intro hreach
    induction hreach with
    | refl => exact Or.inl .refl
    | tail _ hlists ih =>
      rcases ih with ih | ⟨rfl,-⟩
      · rcases mem_link.mp hlists with hmem | ⟨rfl,rfl⟩
        · exact Or.inl (.tail ih hmem)
        · exact Or.inr ⟨rfl,ih⟩
      · rcases mem_link.mp hlists with hmem | ⟨heq,-⟩
        · rw [hleaf] at hmem
          cases hmem
        · exact (hne heq).elim
  · rintro (hreach | ⟨rfl,hreach⟩)
    · exact hmono hreach
    · exact .tail (hmono hreach) (mem_link.mpr (Or.inr ⟨rfl,rfl⟩))

end Link

section Unlink

theorem Linked.mem_unlink (h : Linked lists parent) (hmem : c ∈ lists a) {x : ℕ} :
    x ∈ unlink lists a c b ↔ x ∈ lists b ∧ x ≠ c := by
  by_cases heq : b = a
  · subst heq
    rw [unlink,Function.update_self,(h.nodup b).mem_erase_iff,and_comm]
  · rw [unlink,Function.update_of_ne heq]
    constructor
    · rintro hx
      refine ⟨hx,?_⟩
      rintro rfl
      have hb := (h.parent_iff b x).mpr hx
      rw [(h.parent_iff a x).mpr hmem,Option.some.injEq] at hb
      exact heq hb.symm
    · exact And.left

theorem Linked.unlink (h : Linked lists parent) (hmem : c ∈ lists a) :
    Linked (unlink lists a c) (Function.update parent c none) where
  parent_iff b x := by
    rw [h.mem_unlink hmem,← h.parent_iff]
    by_cases hx : x = c
    · subst hx
      rw [Function.update_self]
      simp
    · rw [Function.update_of_ne hx]
      simp [hx]
  lt b x hx := h.lt b x ((h.mem_unlink hmem).mp hx).1
  nodup b := by
    by_cases heq : b = a
    · subst heq
      rw [LinkedForest.unlink,Function.update_self]
      exact (h.nodup b).erase c
    · rw [LinkedForest.unlink,Function.update_of_ne heq]
      exact h.nodup b

/-- Unlinking a node takes away what is below it, and nothing else. -/
theorem Linked.reach_unlink (h : Linked lists parent) (hmem : c ∈ lists a) (hroot : parent r = none) :
    Reach (LinkedForest.unlink lists a c) r b ↔ Reach lists r b ∧ ¬Reach lists c b := by
  constructor
  · intro hreach
    induction hreach with
    | refl =>
      refine ⟨.refl,fun hbelow => ?_⟩
      have hparent := (h.parent_iff a c).mpr hmem
      by_cases heq : r = c
      · rw [← heq,hroot] at hparent
        cases hparent
      · obtain ⟨x,hx,-⟩ := h.exists_parent hbelow heq
        rw [hroot] at hx
        cases hx
    | tail _ hlists ih =>
      obtain ⟨hlists,hne⟩ := (h.mem_unlink hmem).mp hlists
      exact ⟨.tail ih.1 hlists,fun hbelow => ih.2 (h.reach_parent hbelow ((h.parent_iff _ _).mpr hlists) hne)⟩
  · rintro ⟨hreach,hbelow⟩
    induction hreach with
    | refl => exact .refl
    | tail _ hlists ih =>
      refine .tail (ih fun hbelow' => hbelow (.tail hbelow' hlists)) ((h.mem_unlink hmem).mpr ⟨hlists,?_⟩)
      rintro rfl
      exact hbelow .refl

end Unlink

section Search

variable {p : ℕ → Bool} {fuel n : ℕ}

theorem search_some (h : search lists p fuel a = some b) : Reach lists a b ∧ p b = true := by
  induction fuel generalizing a with
  | zero => cases h
  | succ fuel ih =>
    rw [search] at h
    split at h
    · rename_i hp
      cases h
      exact ⟨.refl,hp⟩
    · obtain ⟨c,hc,hfound⟩ := List.exists_of_findSome?_eq_some h
      exact ⟨.head hc (ih hfound).1,(ih hfound).2⟩

/-- With as much fuel as there are nodes from `a` on, the search misses nothing. -/
theorem Linked.search_none (h : Linked lists parent) (hbound : ∀ a c, c ∈ lists a → c < n) (ha : a < n)
    (hfuel : n ≤ a+fuel) (hnone : search lists p fuel a = none) (hreach : Reach lists a b) : p b = false := by
  induction fuel generalizing a with
  | zero => omega
  | succ fuel ih =>
    rw [search] at hnone
    split at hnone
    · cases hnone
    · rename_i hp
      rcases Relation.ReflTransGen.cases_head hreach with rfl | ⟨c,hc,hrest⟩
      · simpa using hp
      · have hlt := h.lt a c hc
        exact ih (hbound a c hc) (by omega) (List.findSome?_eq_none_iff.mp hnone c hc) hrest

theorem findSome?_congr {f g : ℕ → Option ℕ} {xs : List ℕ} (h : ∀ x ∈ xs, f x = g x) :
    xs.findSome? f = xs.findSome? g := by
  induction xs with
  | nil => rfl
  | cons x xs ih =>
    obtain ⟨hx,hxs⟩ := List.forall_mem_cons.mp h
    rw [List.findSome?_cons,List.findSome?_cons,hx,ih hxs]

/-- More fuel does not change the search. -/
theorem Linked.search_succ (h : Linked lists parent) (hbound : ∀ a c, c ∈ lists a → c < n) (ha : a < n)
    (hfuel : n ≤ a+fuel) : search lists p (fuel+1) a = search lists p fuel a := by
  induction fuel generalizing a with
  | zero => omega
  | succ fuel ih =>
    have hchildren : (lists a).findSome? (search lists p (fuel+1)) = (lists a).findSome? (search lists p fuel) := by
      apply findSome?_congr
      intro c hc
      have hlt := h.lt a c hc
      exact ih (hbound a c hc) (by omega)
    rw [search,hchildren,search]

/-- The only node that satisfies `p` is found. -/
theorem Linked.search_unique (h : Linked lists parent) (hbound : ∀ a c, c ∈ lists a → c < n) (ha : a < n)
    (hfuel : n ≤ a+fuel) (hreach : Reach lists a b) (hp : p b = true)
    (hunique : ∀ c, Reach lists a c → p c = true → c = b) : search lists p fuel a = some b := by
  cases hsearch : search lists p fuel a with
  | none =>
    rw [h.search_none hbound ha hfuel hsearch hreach] at hp
    cases hp
  | some c =>
    obtain ⟨hc,hpc⟩ := search_some hsearch
    rw [hunique c hc hpc]

/-- More fuel does not change the number of nodes on the way up. -/
theorem Linked.climb_succ (h : Linked lists parent) (hfuel : a < fuel) :
    climb parent (fuel+1) (some a) = climb parent fuel (some a) := by
  induction fuel generalizing a with
  | zero => omega
  | succ fuel ih =>
    rw [climb,climb]
    cases hparent : parent a with
    | none => cases fuel <;> rfl
    | some b =>
      have hlt := h.lt b a ((h.parent_iff b a).mp hparent)
      rw [ih (by omega)]

/-- A leaf is on no other node's way up. -/
theorem climb_update (hleaf : ∀ x, parent x ≠ some c) (hne : b ≠ c) :
    climb (Function.update parent c none) fuel (some b) = climb parent fuel (some b) := by
  induction fuel generalizing b with
  | zero => rfl
  | succ fuel ih =>
    rw [climb,climb,Function.update_of_ne hne]
    cases hparent : parent b with
    | none => cases fuel <;> rfl
    | some x =>
      have hx : x ≠ c := by
        rintro rfl
        exact hleaf b hparent
      rw [ih hx]

end Search

section Fold

variable {β : Type} {f : ℕ → List β → β} {fuel fuel' n : ℕ}

/-- With as much fuel as there are nodes from `a` on, the value does not depend on the fuel. -/
theorem Linked.fold_fuel (h : Linked lists parent) (hbound : ∀ a c, c ∈ lists a → c < n) (ha : a < n)
    (hfuel : n ≤ a+fuel) (hfuel' : n ≤ a+fuel') : fold lists f fuel a = fold lists f fuel' a := by
  induction fuel generalizing a fuel' with
  | zero => omega
  | succ fuel ih =>
    obtain ⟨m,rfl⟩ : ∃ m, fuel' = m+1 := ⟨fuel'-1,by omega⟩
    rw [fold,fold]
    congr 1
    apply List.map_congr_left
    intro c hc
    have hlt := h.lt a c hc
    exact ih (hbound a c hc) (by omega) (by omega)

theorem Linked.fold_eq (h : Linked lists parent) (hbound : ∀ a c, c ∈ lists a → c < n) (ha : a < n) :
    fold lists f n a = f a ((lists a).map (fold lists f n)) := by
  obtain ⟨m,rfl⟩ : ∃ m, n = m+1 := ⟨n-1,by omega⟩
  rw [fold]
  congr 1
  apply List.map_congr_left
  intro c hc
  have hlt := h.lt a c hc
  exact h.fold_fuel hbound (hbound a c hc) (by omega) (by omega)

end Fold

section Height

open Classical in
/-- The number of nodes below `n` that are reached. -/
noncomputable def height (lists : ℕ → List ℕ) (n a : ℕ) : ℕ := ((Finset.range n).filter (Reach lists a)).card

theorem height_le (n a : ℕ) : height lists n a ≤ n := by
  classical
  refine Nat.le_trans (Finset.card_filter_le _ _) ?_
  rw [Finset.card_range]

theorem height_pos (lists : ℕ → List ℕ) {n : ℕ} (ha : a < n) : 0 < height lists n a := by
  classical
  exact Finset.card_pos.mpr ⟨a,Finset.mem_filter.mpr ⟨Finset.mem_range.mpr ha,.refl⟩⟩

/-- A child that does not lead back to its parent is less high. -/
theorem height_lt {n : ℕ} (hc : c ∈ lists a) (ha : a < n) (hacyclic : ¬Reach lists c a) :
    height lists n c < height lists n a := by
  classical
  refine Finset.card_lt_card ((Finset.ssubset_iff_of_subset ?_).mpr ⟨a,?_,?_⟩)
  · intro x hx
    rw [Finset.mem_filter] at hx ⊢
    exact ⟨hx.1,.head hc hx.2⟩
  · rw [Finset.mem_filter]
    exact ⟨Finset.mem_range.mpr ha,.refl⟩
  · rw [Finset.mem_filter]
    exact fun h => hacyclic h.2

end Height

end ZNet.LinkedForest
