import ZNet.StreamManager
import ZNet.Tables

/-!
# The places of streams in the dependency tree

A place is a node under the node of the parent. While every stream has exactly one, the
removal through a stored parent id drops that node.
-/

namespace ZNet.Prioritization
open LinkedForest
open Tables (mem_of_lookup exists_lookup lookup_of_erase)

/-- There is a node for the stream in the tree, besides the root. -/
def HasNode (s : HTTP2StreamManager) (id : ℕ) : Prop := ∃ a, InTree s a ∧ a ≠ 0 ∧ (s.nodes a).streamId = id

/-- A parent is another stream that there is, or the root. -/
def ParentOk (s : HTTP2StreamManager) (id : ℕ) (parent : Option ℕ) : Prop :=
  ∀ q, parent = some q → q ≠ id ∧ (q = 0 ∨ q ∈ s.streams)

section Places

variable {s : HTTP2StreamManager} {id addr a : ℕ} {p : HTTP2StreamPriority}

/-- The node at `a` is the place of the stream: it is under the node of its parent. -/
structure Place (s : HTTP2StreamManager) (id addr : ℕ) (p : HTTP2StreamPriority) (a q : ℕ) : Prop where
  inTree : InTree s a
  ne_root : a ≠ 0
  streamId : (s.nodes a).streamId = id
  priority : (s.nodes a).priority = addr
  parentOf : s.parentOf a = some q
  parentId : (s.nodes q).streamId = p.parentStreamId.getD 0
  root : p.parentStreamId.getD 0 = 0 → q = 0

theorem Place.of_nodes {s' : HTTP2StreamManager} {q : ℕ} (h : Place s id addr p a q) (hnodes : s'.nodes = s.nodes) :
    Place s' id addr p a q where
  inTree := by
    rw [InTree,lists_congr hnodes]
    exact h.inTree
  ne_root := h.ne_root
  streamId := by
    rw [hnodes]
    exact h.streamId
  priority := by
    rw [hnodes]
    exact h.priority
  parentOf := by
    rw [HTTP2StreamManager.parentOf,hnodes]
    exact h.parentOf
  parentId := by
    rw [hnodes]
    exact h.parentId
  root := h.root

/-- Every stream but one has a place, and this one has no node. -/
structure PlacedBut (s : HTTP2StreamManager) (id : ℕ) : Prop where
  wellFormed : WellFormed s
  located : ∀ id' addr p, id' ≠ id → s.streams.lookup id' = some addr → s.priorities addr = some p →
    ∃ a q, Place s id' addr p a q
  unique : ∀ a b, InTree s a → InTree s b → a ≠ 0 → b ≠ 0 → (s.nodes a).streamId = (s.nodes b).streamId → a = b
  known : ∀ a, InTree s a → a ≠ 0 → (s.nodes a).streamId ∈ s.streams ∧ (s.nodes a).streamId ≠ id

/-- Every stream has a place, and there are no other nodes in the tree. -/
structure Placed (s : HTTP2StreamManager) : Prop where
  wellFormed : WellFormed s
  located : ∀ id addr p, s.streams.lookup id = some addr → s.priorities addr = some p → ∃ a q, Place s id addr p a q
  unique : ∀ a b, InTree s a → InTree s b → a ≠ 0 → b ≠ 0 → (s.nodes a).streamId = (s.nodes b).streamId → a = b
  known : ∀ a, InTree s a → a ≠ 0 → (s.nodes a).streamId ∈ s.streams

theorem Placed.place (h : Placed s) (hid : id ∈ s.streams) :
    ∃ addr p a q, s.streams.lookup id = some addr ∧ s.priorities addr = some p ∧ Place s id addr p a q := by
  obtain ⟨addr,hlookup⟩ := exists_lookup hid
  obtain ⟨-,p,hp,-⟩ := h.wellFormed.owned id addr hlookup
  obtain ⟨a,q,hplace⟩ := h.located id addr p hlookup hp
  exact ⟨addr,p,a,q,hlookup,hp,hplace⟩

theorem Placed.hasNode (h : Placed s) (hid : id ∈ s.streams) : HasNode s id := by
  obtain ⟨addr,p,a,q,-,-,hplace⟩ := h.place hid
  exact ⟨a,hplace.inTree,hplace.ne_root,hplace.streamId⟩

theorem placed_init (maxConcurrentStreams now : ℕ) : Placed (.init maxConcurrentStreams now) where
  wellFormed := wellFormed_init maxConcurrentStreams now
  located _ _ _ hlookup := by cases hlookup
  unique a b ha _ hne := by
    cases (reach_leaf rfl).mp ha
    exact (hne rfl).elim
  known a ha hne := by
    cases (reach_leaf rfl).mp ha
    exact (hne rfl).elim

/-- The parent of a stream is in the tree if the other streams are. -/
theorem WellFormed.exists_parentNode (h : WellFormed s) (hnode : ∀ q ∈ s.streams, q ≠ id → HasNode s q)
    {parent : Option ℕ} (hparent : ParentOk s id parent) : ∃ a, s.parentNode parent = some a := by
  cases hfound : s.parentNode parent with
  | some a => exact ⟨a,rfl⟩
  | none =>
    obtain ⟨q,rfl,hq,hfind⟩ := parentNode_none hfound
    obtain ⟨hne,hzero | hmem⟩ := hparent q rfl
    · exact (hq hzero).elim
    · obtain ⟨a,ha,-,hid⟩ := hnode q hmem hne
      exact (h.find_none hfind ha hid).elim

theorem PlacedBut.hasNode (h : PlacedBut s id) {q : ℕ} (hmem : q ∈ s.streams) (hne : q ≠ id) : HasNode s q := by
  obtain ⟨addr,hlookup⟩ := exists_lookup hmem
  obtain ⟨-,p,hp,-⟩ := h.wellFormed.owned q addr hlookup
  obtain ⟨a,r,hplace⟩ := h.located q addr p hne hlookup hp
  exact ⟨a,hplace.inTree,hplace.ne_root,hplace.streamId⟩

/-- The only node of a stream is found. -/
theorem Placed.find_eq (h : Placed s) (hzero : id ≠ 0) (ha : InTree s a) (hid : (s.nodes a).streamId = id) :
    s.findDependencyNode id = some a := by
  have hroot {b : ℕ} (hb : (s.nodes b).streamId = id) : b ≠ 0 := by
    rintro rfl
    exact hzero (hb.symm.trans h.wellFormed.root.2)
  rw [HTTP2StreamManager.findDependencyNode,findNodeRecursive_eq]
  apply h.wellFormed.linked.search_unique (fun _ _ hmem => h.wellFormed.lt_nextNode hmem) h.wellFormed.root.1 (by omega) ha
  · exact decide_eq_true hid
  · intro b hb hfound
    have hbid := of_decide_eq_true hfound
    exact h.unique b a hb ha (hroot hbid) (hroot hid) (hbid.trans hid.symm)

/-- A parent in the tree is found. -/
theorem Placed.parentNode_eq (h : Placed s) {parent : Option ℕ} (ha : InTree s a)
    (hplace : (parent.getD 0 = 0 ∧ a = 0) ∨ parent.getD 0 ≠ 0 ∧ (s.nodes a).streamId = parent.getD 0) :
    s.parentNode parent = some a := by
  cases parent with
  | none =>
    obtain ⟨-,rfl⟩ | ⟨hne,-⟩ := hplace
    · rfl
    · exact (hne rfl).elim
  | some parentId =>
    rw [HTTP2StreamManager.parentNode]
    obtain ⟨hzero,rfl⟩ | ⟨hne,hid⟩ := hplace
    · exact if_pos hzero
    · exact (if_neg hne).trans (h.find_eq hne ha hid)

/-- The removal of a stream that was given a parent drops its node. -/
theorem Placed.removeFrom_eq (h : Placed s) {q : ℕ} (hparent : p.parentStreamId ≠ none) (hplace : Place s id addr p a q) :
    s.removeFrom p.parentStreamId id = detached s q a ∧ a ∈ s.lists q := by
  obtain ⟨old,hold⟩ := Option.ne_none_iff_exists'.mp hparent
  have hold' : p.parentStreamId.getD 0 = old := by rw [hold,Option.getD_some]
  have hlisted : a ∈ s.lists q := (h.wellFormed.linked.parent_iff q a).mp hplace.parentOf
  have hq : InTree s q := h.wellFormed.linked.reach_parent hplace.inTree hplace.parentOf hplace.ne_root
  have hfind : s.findDependencyNode old = some q := by
    have hqid : (s.nodes q).streamId = old := hplace.parentId.trans hold'
    by_cases hzero : old = 0
    · rw [hplace.root (hold'.trans hzero),hzero]
      exact h.wellFormed.find_zero
    · exact h.find_eq hzero hq hqid
  have hchild : childFor s q id = some a := by
    cases hchild : childFor s q id with
    | none => exact (h.wellFormed.childFor_none hchild hlisted hplace.streamId).elim
    | some c =>
      obtain ⟨hc,hcid⟩ := childFor_some hchild
      have hlt := h.wellFormed.linked.lt q c hc
      have hcTree : InTree s c := .tail hq hc
      rw [h.unique c a hcTree hplace.inTree (by omega) hplace.ne_root (hcid.trans hplace.streamId.symm)]
  refine ⟨?_,hlisted⟩
  rw [HTTP2StreamManager.removeFrom,hold,Option.bind_some,hfind]
  simp only [h.wellFormed.removeChild_eq,hchild,Option.elim_some]

end Places

section Steps

variable {s : HTTP2StreamManager} {id addr a q : ℕ} {p : HTTP2StreamPriority}

/-- Without its node, a leaf, the stream is the one without a place. -/
theorem Placed.unlinked (h : Placed s) (hplace : Place s id addr p a q) (hlisted : a ∈ s.lists q)
    (hleaf : s.lists a = []) : PlacedBut (detached s q a) id where
  wellFormed := h.wellFormed.of_detached hlisted
  located id' addr' p' hne hlookup hp := by
    obtain ⟨b,r,hb⟩ := h.located id' addr' p' hlookup hp
    have hba : b ≠ a := by
      rintro rfl
      exact hne (hb.streamId.symm.trans hplace.streamId)
    have hstreamId (x : ℕ) := (h.wellFormed.streamId_detached hlisted x).1
    refine ⟨b,r,?_,hb.ne_root,(hstreamId b).trans hb.streamId,?_,?_,(hstreamId r).trans hb.parentId,hb.root⟩
    · rw [h.wellFormed.inTree_detached hlisted,reach_leaf hleaf]
      exact ⟨hb.inTree,hba⟩
    · exact (h.wellFormed.streamId_detached hlisted b).2.trans hb.priority
    · rw [h.wellFormed.parentOf_detached hlisted,Function.update_of_ne hba]
      exact hb.parentOf
  unique x y hx hy hx0 hy0 hid := by
    rw [h.wellFormed.inTree_detached hlisted] at hx hy
    rw [(h.wellFormed.streamId_detached hlisted x).1,(h.wellFormed.streamId_detached hlisted y).1] at hid
    exact h.unique x y hx.1 hy.1 hx0 hy0 hid
  known x hx hx0 := by
    rw [h.wellFormed.inTree_detached hlisted,reach_leaf hleaf] at hx
    rw [(h.wellFormed.streamId_detached hlisted x).1]
    refine ⟨h.known x hx.1 hx0,fun hid => hx.2 ?_⟩
    exact h.unique x a hx.1 hplace.inTree hx0 hplace.ne_root (hid.trans hplace.streamId.symm)

theorem Placed.registered (h : Placed s) (hnew : s.streams.lookup id = none) (hid : p.streamId = id) :
    PlacedBut (s.register id p) id where
  wellFormed := h.wellFormed.register hid
  located id' addr' p' hne hlookup hp := by
    rw [HTTP2StreamManager.register,AList.lookup_insert_ne hne] at hlookup
    have hlt := (h.wellFormed.owned id' addr' hlookup).1
    have hne' : addr' ≠ s.nextPriority := by omega
    have hp' : s.priorities addr' = some p' := by
      rw [← hp,HTTP2StreamManager.register]
      simp only [Function.update_of_ne hne']
    obtain ⟨b,r,hb⟩ := h.located id' addr' p' hlookup hp'
    exact ⟨b,r,hb.of_nodes rfl⟩
  unique := h.unique
  known x hx hx0 := by
    have hmem : (s.nodes x).streamId ∈ s.streams := h.known x hx hx0
    refine ⟨(AList.mem_insert _).mpr (Or.inr hmem),fun hid' => ?_⟩
    have hid'' : (s.nodes x).streamId = id := hid'
    obtain ⟨addr',hlookup⟩ := exists_lookup hmem
    rw [hid'',hnew] at hlookup
    cases hlookup

theorem PlacedBut.modifyPriority (h : PlacedBut s id) (hlookup : s.streams.lookup id = some addr)
    {f : HTTP2StreamPriority → HTTP2StreamPriority} (hf : ∀ p, (f p).streamId = p.streamId) :
    PlacedBut (s.modifyPriority addr f) id where
  wellFormed := h.wellFormed.modifyPriority addr hf
  located id' addr' p' hne hlookup' hp := by
    have hne' : addr' ≠ addr := by
      rintro rfl
      exact hne (h.wellFormed.addr_injective hlookup' hlookup)
    have hp' : s.priorities addr' = some p' := by
      rw [← hp,HTTP2StreamManager.modifyPriority]
      simp only [Function.update_of_ne hne']
    obtain ⟨b,r,hb⟩ := h.located id' addr' p' hne hlookup' hp'
    exact ⟨b,r,hb.of_nodes rfl⟩
  unique := h.unique
  known := h.known

/-- A new node leaves the places of other streams alone. -/
theorem Place.of_attached {b id' addr' : ℕ} (hb : Place s id' addr' p b q) (h : WellFormed s) (ha : InTree s a) :
    Place (attached s id addr a) id' addr' p b q := by
  have hlt := h.inTree_lt ha
  have hold {x : ℕ} (hx : InTree s x) : x ≠ s.nextNode := Nat.ne_of_lt (h.inTree_lt hx)
  have hq : InTree s q := h.linked.reach_parent hb.inTree hb.parentOf hb.ne_root
  refine ⟨(h.inTree_attached ha b).mpr (Or.inl hb.inTree),hb.ne_root,?_,?_,?_,?_,hb.root⟩
  · rw [streamId_attached hlt,if_neg (hold hb.inTree)]
    exact hb.streamId
  · rw [priority_attached hlt,if_neg (hold hb.inTree)]
    exact hb.priority
  · rw [parentOf_attached hlt,Function.update_of_ne (hold hb.inTree)]
    exact hb.parentOf
  · rw [streamId_attached hlt,if_neg (hold hq)]
    exact hb.parentId

/-- A new node under that of its parent is the place of the stream. -/
theorem place_new (h : WellFormed s) (hparent : s.parentNode p.parentStreamId = some a) :
    Place (attached s id addr a) id addr p s.nextNode a := by
  obtain ⟨ha,hplace⟩ := parentNode_some hparent
  have hlt := h.inTree_lt ha
  refine ⟨(h.inTree_attached ha _).mpr (Or.inr rfl),by omega,?_,?_,?_,?_,fun hzero => ?_⟩
  · rw [streamId_attached hlt,if_pos rfl]
  · rw [priority_attached hlt,if_pos rfl]
  · rw [parentOf_attached hlt,Function.update_self]
  · rw [streamId_attached hlt,if_neg (Nat.ne_of_lt hlt)]
    rcases hplace with ⟨hzero,rfl⟩ | ⟨-,hid⟩
    · rw [hzero,h.root.2]
    · exact hid
  · rcases hplace with ⟨-,rfl⟩ | ⟨hne,-⟩
    · rfl
    · exact (hne hzero).elim

/-- The stream without a node gets its place. -/
theorem PlacedBut.of_attached (h : PlacedBut s id) (hlookup : s.streams.lookup id = some addr)
    (hp : s.priorities addr = some p) (hparent : s.parentNode p.parentStreamId = some a) :
    Placed (attached s id addr a) := by
  obtain ⟨ha,-⟩ := parentNode_some hparent
  have hlt := h.wellFormed.inTree_lt ha
  have htree (x : ℕ) : InTree (attached s id addr a) x ↔ InTree s x ∨ x = s.nextNode :=
    h.wellFormed.inTree_attached ha x
  have hold {x : ℕ} (hx : InTree s x) : x ≠ s.nextNode := Nat.ne_of_lt (h.wellFormed.inTree_lt hx)
  refine ⟨h.wellFormed.of_attached hlt,?_,?_,?_⟩
  · intro id' addr' p' hlookup' hp'
    by_cases hne : id' = id
    · subst hne
      obtain rfl : addr = addr' := Option.some.inj (hlookup.symm.trans hlookup')
      have hp'' : p' = { p with dependencyDepth := s.dependencyDepth (some a) } := by
        simpa [attached,hp] using hp'.symm
      refine ⟨s.nextNode,a,place_new h.wellFormed ?_⟩
      rw [hp'']
      exact hparent
    · have hne' : addr' ≠ addr := by
        rintro rfl
        exact hne (h.wellFormed.addr_injective hlookup' hlookup)
      have hp'' : s.priorities addr' = some p' := by
        simpa [attached,hne'] using hp'
      obtain ⟨b,r,hb⟩ := h.located id' addr' p' hne hlookup' hp''
      exact ⟨b,r,hb.of_attached h.wellFormed ha⟩
  · intro x y hx hy hx0 hy0 hid
    rw [streamId_attached hlt,streamId_attached hlt] at hid
    rcases (htree x).mp hx with hx | rfl
    · rw [if_neg (hold hx)] at hid
      rcases (htree y).mp hy with hy | rfl
      · rw [if_neg (hold hy)] at hid
        exact h.unique x y hx hy hx0 hy0 hid
      · rw [if_pos rfl] at hid
        exact ((h.known x hx hx0).2 hid).elim
    · rw [if_pos rfl] at hid
      rcases (htree y).mp hy with hy | rfl
      · rw [if_neg (hold hy)] at hid
        exact ((h.known y hy hy0).2 hid.symm).elim
      · rfl
  · intro x hx hx0
    rw [streamId_attached hlt]
    rcases (htree x).mp hx with hx | rfl
    · rw [if_neg (hold hx)]
      exact (h.known x hx hx0).1
    · rw [if_pos rfl]
      exact mem_of_lookup hlookup

theorem PlacedBut.released (h : PlacedBut s id) (hlookup : s.streams.lookup id = some addr) :
    Placed (s.release id addr) where
  wellFormed := h.wellFormed.release hlookup
  located id' addr' p' hlookup' hp := by
    obtain ⟨hne,hbefore⟩ := lookup_of_erase hlookup'
    have hne' : addr' ≠ addr := by
      rintro rfl
      exact hne (h.wellFormed.addr_injective hbefore hlookup)
    have hp' : s.priorities addr' = some p' := by
      rw [← hp,HTTP2StreamManager.release]
      simp only [Function.update_of_ne hne']
    obtain ⟨b,r,hb⟩ := h.located id' addr' p' hne hbefore hp'
    exact ⟨b,r,hb.of_nodes rfl⟩
  unique := h.unique
  known x hx hx0 := by
    obtain ⟨hmem,hne⟩ := h.known x hx hx0
    exact AList.mem_erase.mpr ⟨hne,hmem⟩

/-- The holder of a priority does not move its stream. -/
theorem Placed.change (h : Placed s) (id : ℕ) (c : Change) : Placed (s.change id c) := by
  have hwell := h.wellFormed.change id c
  rw [HTTP2StreamManager.change] at hwell ⊢
  split at hwell
  · rename_i addr hlookup
    refine ⟨hwell,?_,h.unique,h.known⟩
    intro id' addr' p' hlookup' hp
    by_cases heq : addr' = addr
    · subst heq
      obtain ⟨-,p,hp',-⟩ := h.wellFormed.owned id' addr' hlookup'
      have hp'' : p' = c.apply p := by simpa [HTTP2StreamManager.modifyPriority,hp'] using hp.symm
      obtain ⟨b,r,hb⟩ := h.located id' addr' p hlookup' hp'
      refine ⟨b,r,hb.inTree,hb.ne_root,hb.streamId,hb.priority,hb.parentOf,?_,?_⟩
      · rw [hp'',c.parentStreamId]
        exact hb.parentId
      · rw [hp'',c.parentStreamId]
        exact hb.root
    · have hp' : s.priorities addr' = some p' := by simpa [HTTP2StreamManager.modifyPriority,heq] using hp
      obtain ⟨b,r,hb⟩ := h.located id' addr' p' hlookup' hp'
      exact ⟨b,r,hb.of_nodes rfl⟩
  · exact h

end Steps

end ZNet.Prioritization
