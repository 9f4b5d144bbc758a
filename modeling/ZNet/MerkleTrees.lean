import Mathlib.Algebra.Ring.Nat
import Mathlib.Data.Nat.Log
import Mathlib.Data.List.Basic

/-!
# Merkle trees

A list of leaves is split at the largest power of two below its length, and the hashes of
the two trees are hashed together. If nothing that is hashed collides, the root determines
the leaves.
-/

namespace ZNet.MerkleTrees

/-- What is hashed for a tree. -/
inductive Preimage (Leaf Hash : Type)
  | empty
  | leaf (d : Leaf)
  | node (left right : Hash)

inductive Tree (Leaf : Type)
  | empty
  | leaf (d : Leaf)
  | node (left right : Tree Leaf)

/-- The largest power of two below the number. -/
def splitSize (n : ℕ) : ℕ := 2^Nat.log 2 (n-1)

theorem splitSize_pos (n : ℕ) : 0 < splitSize n := Nat.pow_pos (by decide)

theorem splitSize_lt {n : ℕ} (h : 2 ≤ n) : splitSize n < n := by
  have hle : splitSize n ≤ n-1 := Nat.pow_log_le_self 2 (by omega)
  omega

namespace Tree

variable {Leaf Hash : Type}

def leaves : Tree Leaf → List Leaf
  | empty => []
  | leaf d => [d]
  | node left right => left.leaves++right.leaves

/-- The tree over a list of leaves. -/
def ofLeaves (ds : List Leaf) : Tree Leaf :=
  match ds with
  | [] => empty
  | [d] => leaf d
  | d::e::rest =>
    have hlt : splitSize (d::e::rest).length < (d::e::rest).length := splitSize_lt (by simp)
    have hpos := splitSize_pos (d::e::rest).length
    node (ofLeaves ((d::e::rest).take (splitSize (d::e::rest).length)))
      (ofLeaves ((d::e::rest).drop (splitSize (d::e::rest).length)))
termination_by ds.length
decreasing_by
  · rw [List.length_take]
    omega
  · rw [List.length_drop]
    omega

theorem leaves_ofLeaves (ds : List Leaf) : (ofLeaves ds).leaves = ds := by
  induction ds using ofLeaves.induct with
  | case1 => rw [ofLeaves,leaves]
  | case2 d => rw [ofLeaves,leaves]
  | case3 d e rest hlt hpos ihleft ihright => rw [ofLeaves,leaves,ihleft,ihright,List.take_append_drop]

variable (hash : Preimage Leaf Hash → Hash)

def root : Tree Leaf → Hash
  | empty => hash .empty
  | leaf d => hash (.leaf d)
  | node left right => hash (.node left.root right.root)

/-- Everything that is hashed for the root. -/
def hashed : Tree Leaf → List (Preimage Leaf Hash)
  | empty => [.empty]
  | leaf d => [.leaf d]
  | node left right => .node (left.root hash) (right.root hash)::(left.hashed++right.hashed)

variable {hash}

/-- Without a collision, trees with the same root are the same. -/
theorem root_injective {s t : Tree Leaf}
    (hfree : ∀ x ∈ s.hashed hash, ∀ y ∈ t.hashed hash, hash x = hash y → x = y) (h : s.root hash = t.root hash) :
    s = t := by
  induction s generalizing t with
  | empty =>
    cases t with
    | empty => rfl
    | leaf d => cases hfree _ (List.mem_singleton_self _) _ (List.mem_singleton_self _) h
    | node left right => cases hfree _ (List.mem_singleton_self _) _ (List.mem_cons_self ..) h
  | leaf d =>
    cases t with
    | empty => cases hfree _ (List.mem_singleton_self _) _ (List.mem_singleton_self _) h
    | leaf e =>
      cases hfree _ (List.mem_singleton_self _) _ (List.mem_singleton_self _) h
      rfl
    | node left right => cases hfree _ (List.mem_singleton_self _) _ (List.mem_cons_self ..) h
  | node left right ihleft ihright =>
    cases t with
    | empty => cases hfree _ (List.mem_cons_self ..) _ (List.mem_singleton_self _) h
    | leaf e => cases hfree _ (List.mem_cons_self ..) _ (List.mem_singleton_self _) h
    | node left' right' =>
      -- the hashes of the two halves are the same, and so are the halves
      have hroots := hfree _ (List.mem_cons_self ..) _ (List.mem_cons_self ..) h
      rw [Preimage.node.injEq] at hroots
      have hleft : left = left' := by
        apply ihleft _ hroots.1
        intro x hx y hy
        exact hfree x (List.mem_cons_of_mem _ (List.mem_append_left _ hx)) y
          (List.mem_cons_of_mem _ (List.mem_append_left _ hy))
      have hright : right = right' := by
        apply ihright _ hroots.2
        intro x hx y hy
        exact hfree x (List.mem_cons_of_mem _ (List.mem_append_right _ hx)) y
          (List.mem_cons_of_mem _ (List.mem_append_right _ hy))
      rw [hleft,hright]

end Tree

variable {Leaf Hash : Type} (hash : Preimage Leaf Hash → Hash)

/-- The hashes that lead from the first `m` leaves to all of them. The root of the first ones is
left out if it is the one that the proof starts from. -/
def subproof (m : ℕ) (ds : List Leaf) (known : Bool) : List Hash :=
  if hm : m = 0 ∨ ds.length ≤ m then if known then [] else [(Tree.ofLeaves ds).root hash]
  else
    have hlt : splitSize ds.length < ds.length := splitSize_lt (by omega)
    have hpos := splitSize_pos ds.length
    if m ≤ splitSize ds.length then
      subproof m (ds.take (splitSize ds.length)) known++[(Tree.ofLeaves (ds.drop (splitSize ds.length))).root hash]
    else
      subproof (m-splitSize ds.length) (ds.drop (splitSize ds.length)) false++
        [(Tree.ofLeaves (ds.take (splitSize ds.length))).root hash]
termination_by ds.length
decreasing_by
  · rw [List.length_take]
    omega
  · rw [List.length_drop]
    omega

def consistencyProof (m : ℕ) (ds : List Leaf) : List Hash := subproof hash m ds true

end ZNet.MerkleTrees
