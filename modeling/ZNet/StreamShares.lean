import ZNet.StreamScheduler

/-!
# The shares of the children of the root

Each unblocked child of the root has a part of the milliseconds that is as long as the
weight of its subtree. The trees here are of any shape, with exclusive children or not.
-/

namespace ZNet.StreamShares
open Prioritization LinkedForest WeightedChoice

/-- The nodes have been allocated, and no node is below one of its children. -/
structure Tree (s : HTTP2StreamManager) : Prop where
  allocated : ∀ a, InTree s a → a < s.nextNode
  acyclic : ∀ a, InTree s a → ∀ c ∈ s.lists a, ¬Reach s.lists c a

/-- All streams of the tree are of the normal class, and their weights are bytes. -/
structure NormalTree (s : HTTP2StreamManager) : Prop extends Tree s where
  streams : ∀ a, InTree s a → a ≠ 0 →
    ∃ p, s.priorities (s.nodes a).priority = some p ∧ p.priorityClass = .normal ∧ p.weight < 256

/-- The effective weight of the stream at a node, without a bound. -/
def effectiveWeight (s : HTTP2StreamManager) (a : ℕ) : ℕ :=
  (s.priorities (s.nodes a).priority).elim 0 HTTP2StreamPriority.scaledWeight

/-- The weight of a subtree, without a bound. Only the regular children share theirs. -/
def subtreeWeight (s : HTTP2StreamManager) : ℕ → ℕ → ℕ
  | 0,_ => 0
  | fuel+1,a => effectiveWeight s a+((s.nodes a).exclusiveChildren.map (subtreeWeight s fuel)).sum+
      ((s.nodes a).children.map fun c => subtreeWeight s fuel c/max 1 (s.nodes a).children.length).sum

def weight (s : HTTP2StreamManager) (a : ℕ) : ℕ := subtreeWeight s s.nextNode a

/-- The unblocked children of the root, the exclusive ones first. -/
def active (s : HTTP2StreamManager) : List ℕ :=
  ((s.nodes 0).exclusiveChildren++(s.nodes 0).children).filter (isReady s)

def weights (s : HTTP2StreamManager) : List ℕ := (active s).map (weight s)

/-- No weight that is computed for the selection overflows. -/
structure Fits (s : HTTP2StreamManager) : Prop where
  subtrees : ∀ c ∈ active s, ∀ x, Reach s.lists c x → weight s x < 4294967296
  total : (weights s).sum < 4294967296

/-- At any time the child is returned in whose part the time is, modulo the total weight,
and each child has its weight as its share of the total. -/
structure Proportional (s : HTTP2StreamManager) : Prop where
  selected : ∀ t, ∃ i c, (active s)[i]? = some c ∧ InPart (weights s) i (t%(weights s).sum) ∧
    (∀ j, InPart (weights s) j (t%(weights s).sum) → j = i) ∧
    s.selectChild (t%(weights s).sum) (active s) = .ok (some c) ∧
    s.selectNextStream t = .ok (some (s.nodes c).priority) ∧ isReady s c = true
  shares : ∀ i w, (weights s)[i]? = some w → ∀ t,
    ((Finset.Ico t (t+(weights s).sum)).filter fun n => InPart (weights s) i (n%(weights s).sum)).card = w

section Weights

variable {s : HTTP2StreamManager} {a c : ℕ}

theorem Tree.child (h : Tree s) (ha : InTree s a) (hc : c ∈ s.lists a) :
    InTree s c ∧ c ≠ 0 ∧ height s.lists s.nextNode c < height s.lists s.nextNode a := by
  refine ⟨.tail ha hc,?_,height_lt hc (h.allocated a ha) (h.acyclic a ha c hc)⟩
  rintro rfl
  exact h.acyclic a ha 0 hc ha

theorem mem_lists : c ∈ s.lists a ↔ c ∈ (s.nodes a).exclusiveChildren ∨ c ∈ (s.nodes a).children := by
  rw [HTTP2StreamManager.lists,List.mem_append,or_comm]

theorem Tree.weight_fuel (h : Tree s) (ha : InTree s a) {fuel fuel' : ℕ}
    (hfuel : height s.lists s.nextNode a ≤ fuel) (hfuel' : height s.lists s.nextNode a ≤ fuel') :
    subtreeWeight s fuel a = subtreeWeight s fuel' a := by
  induction fuel generalizing a fuel' with
  | zero =>
    have hpos := height_pos s.lists (h.allocated a ha)
    omega
  | succ fuel ih =>
    have hpos := height_pos s.lists (h.allocated a ha)
    obtain ⟨fuel',rfl⟩ : ∃ m, fuel' = m+1 := ⟨fuel'-1,by omega⟩
    have hchild : ∀ c ∈ s.lists a, subtreeWeight s fuel c = subtreeWeight s fuel' c := by
      intro c hc
      obtain ⟨htree,-,hlt⟩ := h.child ha hc
      exact ih htree (by omega) (by omega)
    rw [subtreeWeight,subtreeWeight]
    congr 2
    · congr 1
      exact List.map_congr_left fun c hc => hchild c (mem_lists.mpr (.inl hc))
    · exact List.map_congr_left fun c hc => by rw [hchild c (mem_lists.mpr (.inr hc))]

/-- The weight of a node in terms of those of its children. -/
theorem Tree.weight_eq (h : Tree s) (ha : InTree s a) :
    weight s a = effectiveWeight s a+((s.nodes a).exclusiveChildren.map (weight s)).sum+
      ((s.nodes a).children.map fun c => weight s c/max 1 (s.nodes a).children.length).sum := by
  have hle : ∀ c, height s.lists s.nextNode c ≤ s.nextNode := height_le s.nextNode
  have hfuel : subtreeWeight s s.nextNode a = subtreeWeight s (s.nextNode+1) a :=
    h.weight_fuel ha (hle a) (Nat.le_succ_of_le (hle a))
  rw [weight,hfuel,subtreeWeight]
  rfl

theorem effectiveWeight_ok {p : HTTP2StreamPriority} (hnormal : p.priorityClass = .normal) (hbyte : p.weight < 256) :
    p.computeEffectiveWeight = .ok p.scaledWeight := by
  rw [computeEffectiveWeight_eq,checked_ok]
  refine ⟨?_,rfl⟩
  simp only [HTTP2StreamPriority.scaledWeight,hnormal]
  split
  · omega
  · exact hbyte

theorem addWeights_eq {weigh : ℕ → Except Failure ℕ} (g : ℕ → ℕ) {cs : List ℕ} (total : ℕ)
    (hweigh : ∀ c ∈ cs, weigh c = .ok (g c)) (hfits : total+(cs.map g).sum < 4294967296) :
    addWeights weigh total cs = .ok (total+(cs.map g).sum) := by
  have hlt : total < 4294967296 := by omega
  refine (addWeights_ok (P:=fun _ => True) (g:=g) ?_ hlt).mpr ⟨fun _ _ => trivial,hfits,rfl⟩
  intro c hc w
  rw [hweigh c hc,Except.ok.injEq,true_and,eq_comm]

/-- In a tree of normal streams the weight of a subtree is computed if none below it
overflows. -/
theorem NormalTree.computeSubtreeWeight_eq (h : NormalTree s) (ha : InTree s a) (hne : a ≠ 0)
    (hfits : ∀ x, Reach s.lists a x → weight s x < 4294967296) {fuel : ℕ}
    (hfuel : height s.lists s.nextNode a ≤ fuel) : s.computeSubtreeWeight fuel a = .ok (weight s a) := by
  induction fuel generalizing a with
  | zero =>
    have hpos := height_pos s.lists (h.allocated a ha)
    omega
  | succ fuel ih =>
    obtain ⟨p,hp,hnormal,hbyte⟩ := h.streams a ha hne
    have hchild : ∀ c ∈ s.lists a, s.computeSubtreeWeight fuel c = .ok (weight s c) := by
      intro c hc
      obtain ⟨htree,hne,hlt⟩ := h.child ha hc
      exact ih htree hne (fun x hx => hfits x (.head hc hx)) (by omega)
    have hself := hfits a .refl
    have hweight := h.weight_eq ha
    have heffective : effectiveWeight s a = p.scaledWeight := by rw [effectiveWeight,hp]; rfl
    have hexclusive := addWeights_eq (weight s) (effectiveWeight s a)
      (fun c hc => hchild c (mem_lists.mpr (.inl hc))) (by omega)
    have hshare : ∀ c ∈ (s.nodes a).children,
        (s.computeSubtreeWeight fuel c).map (·/max 1 (s.nodes a).children.length) =
          .ok (weight s c/max 1 (s.nodes a).children.length) := by
      intro c hc
      rw [hchild c (mem_lists.mpr (.inr hc))]
      rfl
    have hregular := addWeights_eq (fun c => weight s c/max 1 (s.nodes a).children.length)
      (effectiveWeight s a+((s.nodes a).exclusiveChildren.map (weight s)).sum) hshare
      (by rw [← hweight]; exact hself)
    rw [HTTP2StreamManager.computeSubtreeWeight,hweight,← hregular]
    simp only [priorityOf_ok.mpr hp,effectiveWeight_ok hnormal hbyte,← heffective,bind,Except.bind,hexclusive]

end Weights

/-- The memory of a manager always holds a tree. -/
theorem tree_of_wellFormed {s : HTTP2StreamManager} (h : WellFormed s) : Tree s where
  allocated _ ha := h.inTree_lt ha
  acyclic a _ _ hc hreach := h.linked.acyclic a (.head' hc hreach)

/-- In every tree of normal streams whose weights fit, the children of the root are chosen
in proportion to their weights, and there is nothing else to fall back on. -/
theorem selectNextStream_proportional (s : HTTP2StreamManager) (htree : NormalTree s) (hfits : Fits s)
    (hpos : 0 < (weights s).sum) : Proportional s := by
  have hactive : ∀ c ∈ active s, InTree s c ∧ c ≠ 0 ∧ isReady s c = true := by
    intro c hc
    obtain ⟨hmem,hready⟩ := List.mem_filter.mp hc
    have hlists : c ∈ s.lists 0 := mem_lists.mpr (List.mem_append.mp hmem)
    obtain ⟨hc,hne,-⟩ := htree.child .refl hlists
    exact ⟨hc,hne,hready⟩
  have hweigh : ∀ c ∈ active s, s.computeSubtreeWeight s.nextNode c = .ok (weight s c) := by
    intro c hc
    obtain ⟨hc',hne,-⟩ := hactive c hc
    exact htree.computeSubtreeWeight_eq hc' hne (hfits.subtrees c hc) (height_le _ _)
  have hchildren : s.getActiveChildren 0 = .ok (active s) := by
    rw [HTTP2StreamManager.getActiveChildren,unblocked_ok]
    refine ⟨fun c hc => ?_,rfl⟩
    obtain ⟨hc,hne,-⟩ := htree.child .refl (mem_lists.mpr (List.mem_append.mp hc))
    obtain ⟨p,hp,-⟩ := htree.streams c hc hne
    exact ⟨p,hp⟩
  refine ⟨fun t => ?_,fun i w hw t => card_inPart hw t⟩
  obtain ⟨i,hi⟩ := exists_inPart (Nat.mod_lt t hpos)
  obtain ⟨c,hc,hpick⟩ := hi.pick
  have hmem := List.mem_of_getElem? hc
  have hselect : s.selectChild (t%(weights s).sum) (active s) = .ok (some c) := by
    rw [selectChild_eq hweigh,hpick]
  refine ⟨i,c,hc,hi,fun j hj => hi.unique hj,hselect,?_,(hactive c hmem).2.2⟩
  have htotal := addWeights_eq (weight s) 0 hweigh (by rw [Nat.zero_add]; exact hfits.total)
  rw [Nat.zero_add] at htotal
  have hzero : (weights s).sum ≠ 0 := by omega
  rw [HTTP2StreamManager.selectNextStream,hchildren]
  rw [weights] at hselect hzero
  cases hlist : active s with
  | nil =>
    rw [hlist] at hmem
    cases hmem
  | cons first rest =>
    rw [hlist] at htotal hselect hzero
    simp only [bind,Except.bind,htotal,if_neg hzero,hselect,Option.getD_some]


/-- A root with the regular children 1 and 2, of which the second is blocked, and the
exclusive child 3. The streams 4 and 5 share the first child's weight, and 6 is below the
third. -/
def mixedTree : HTTP2StreamManager where
  nodes
    | 0 => ⟨0,0,[1,2],none,[3],false⟩
    | 1 => ⟨1,1,[4,5],some 0,[],false⟩
    | 2 => ⟨2,2,[],some 0,[],false⟩
    | 3 => ⟨3,3,[],some 0,[6],true⟩
    | a => ⟨a,a,[],none,[],false⟩
  nextNode := 7
  priorities a := some { HTTP2StreamPriority.init a (if a < 3 then 16 else 8) none false 0 with
    isBlocked := decide (a = 2) }
  nextPriority := 7
  streams := ∅
  maxConcurrentStreams := 8
  concurrentStreams := 6

theorem mixedTree_lists {a c : ℕ} (hc : c ∈ mixedTree.lists a) : a < c ∧ c < 7 := by
  rcases a with _|_|_|_|a <;> simp [HTTP2StreamManager.lists,mixedTree] at hc <;> omega

theorem mixedTree_reach {a x : ℕ} (ha : a < 7) (hx : Reach mixedTree.lists a x) : x < 7 := by
  induction hx with
  | refl => exact ha
  | tail _ hc _ => exact (mixedTree_lists hc).2

/-- The children 3 and 1 have weights of 16 and 24 milliseconds. -/
theorem mixedTree_proportional :
    (NormalTree mixedTree ∧ Fits mixedTree ∧ 0 < (weights mixedTree).sum) ∧ weights mixedTree = [16,24] ∧
    Proportional mixedTree := by
  have hlow : ∀ a < 7, ∀ x, Reach mixedTree.lists a x → weight mixedTree x < 4294967296 := by
    intro a ha x hx
    have hall : ∀ x < 7, weight mixedTree x < 4294967296 := by decide
    exact hall x (mixedTree_reach ha hx)
  have htree : NormalTree mixedTree := by
    refine ⟨⟨fun a ha => mixedTree_reach (by decide) ha,fun a _ c hc hreach => ?_⟩,fun a _ _ => ⟨_,rfl,rfl,?_⟩⟩
    · have hle := le_of_reach (fun _ _ h => (mixedTree_lists h).1) hreach
      have hlt := (mixedTree_lists hc).1
      omega
    · simp only [HTTP2StreamPriority.init]
      split <;> omega
  have hfits : Fits mixedTree := by
    refine ⟨fun c hc => hlow c ?_,by decide⟩
    exact (mixedTree_lists (mem_lists.mpr (List.mem_append.mp (List.mem_filter.mp hc).1))).2
  have hpos : 0 < (weights mixedTree).sum := by decide
  exact ⟨⟨htree,hfits,hpos⟩,by decide,selectNextStream_proportional _ htree hfits hpos⟩

end ZNet.StreamShares
