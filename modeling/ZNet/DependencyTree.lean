import ZNet.LinkedForest
import Mathlib.Data.List.AList

/-!
# The dependency tree of HTTP/2 streams

Nodes and priorities are objects in memory, here at numbered addresses. A node has lists
of its children and a link to its parent; the root of the tree is the node at address 0.
-/

namespace ZNet.Prioritization
open LinkedForest

inductive PriorityClass
  | critical | high | normal | low | background
deriving DecidableEq

structure HTTP2StreamPriority where
  streamId : ℕ
  weight : ℕ
  exclusive : Bool
  parentStreamId : Option ℕ
  dependencyDepth : ℕ := 0
  priorityClass : PriorityClass := .normal
  isBlocked : Bool := false
  lastActivity : ℕ
  receiveWindow : ℕ := 65535
  sendWindow : ℕ := 65535
  bufferedData : ℕ := 0

def HTTP2StreamPriority.init (streamId weight : ℕ) (parent : Option ℕ) (exclusive : Bool) (now : ℕ) :
    HTTP2StreamPriority where
  streamId := streamId
  weight := weight
  exclusive := exclusive
  parentStreamId := parent
  lastActivity := now

structure DependencyTreeNode where
  streamId : ℕ
  priority : ℕ
  children : List ℕ := []
  parent : Option ℕ
  exclusiveChildren : List ℕ := []
  isExclusive : Bool := false

/-- The manager and the memory it uses. Nothing is at the address of a priority that has
been freed. Nodes are never freed. -/
structure HTTP2StreamManager where
  nodes : ℕ → DependencyTreeNode
  nextNode : ℕ
  priorities : ℕ → Option HTTP2StreamPriority
  nextPriority : ℕ
  streams : AList fun _ : ℕ => ℕ
  maxConcurrentStreams : ℕ
  concurrentStreams : ℕ

namespace HTTP2StreamManager

def modifyNode (self : HTTP2StreamManager) (a : ℕ) (f : DependencyTreeNode → DependencyTreeNode) :
    HTTP2StreamManager :=
  { self with nodes := Function.update self.nodes a (f (self.nodes a)) }

def modifyPriority (self : HTTP2StreamManager) (addr : ℕ) (f : HTTP2StreamPriority → HTTP2StreamPriority) :
    HTTP2StreamManager :=
  { self with priorities := Function.update self.priorities addr ((self.priorities addr).map f) }

/-- The children that a node lists, in both of its lists. -/
def lists (self : HTTP2StreamManager) (a : ℕ) : List ℕ :=
  (self.nodes a).children++(self.nodes a).exclusiveChildren

def parentOf (self : HTTP2StreamManager) (a : ℕ) : Option ℕ := (self.nodes a).parent

/-- The loop of `DependencyTreeNode.init`. -/
def dependencyDepth (self : HTTP2StreamManager) (parent : Option ℕ) : ℕ := climb self.parentOf self.nextNode parent

/-- `DependencyTreeNode.init` traps when the depth is not a `u16`. -/
def initNode (self : HTTP2StreamManager) (streamId priority : ℕ) (parent : Option ℕ) :
    Option (ℕ×HTTP2StreamManager) :=
  let depth := self.dependencyDepth parent
  if depth < 65536 then
    let node := self.nextNode
    let self := { self with
      nodes := Function.update self.nodes node ⟨streamId,priority,[],parent,[],false⟩
      nextNode := node+1 }
    some (node,self.modifyPriority priority fun p => { p with dependencyDepth := depth })
  else none

def makeExclusive (self : HTTP2StreamManager) (a : ℕ) : HTTP2StreamManager :=
  (self.modifyNode a fun node => { node with isExclusive := true }).modifyPriority (self.nodes a).priority
    fun p => { p with exclusive := true }

/-- The node at `a` takes the child. An exclusive child takes over its other children. -/
def addChild (self : HTTP2StreamManager) (a child : ℕ) : HTTP2StreamManager :=
  let self := self.modifyNode child fun node => { node with parent := some a }
  if (self.nodes child).isExclusive then
    let existing := (self.nodes a).children
    let self := self.modifyNode a fun node => { node with exclusiveChildren := node.exclusiveChildren++[child] }
    let self := existing.foldl makeExclusive self
    let self := existing.foldl (fun self c =>
      (self.modifyNode child fun node => { node with children := node.children++[c] }).modifyNode c
        fun node => { node with parent := some child }) self
    self.modifyNode a fun node => { node with children := [] }
  else self.modifyNode a fun node => { node with children := node.children++[child] }

/-- The node at `a` drops its first child with the given stream. -/
def removeChild (self : HTTP2StreamManager) (a childId : ℕ) : Bool×HTTP2StreamManager :=
  let isChild := fun c => decide ((self.nodes c).streamId = childId)
  match (self.nodes a).children.find? isChild with
  | some child =>
    (true,(self.modifyNode child fun node => { node with parent := none }).modifyNode a
      fun node => { node with children := node.children.eraseP isChild })
  | none =>
    match (self.nodes a).exclusiveChildren.find? isChild with
    | some child =>
      (true,(self.modifyNode child fun node => { node with parent := none }).modifyNode a
        fun node => { node with exclusiveChildren := node.exclusiveChildren.eraseP isChild })
    | none => (false,self)

/-- The recursion goes down the tree, at most as deep as there are nodes. -/
def findNodeRecursive (self : HTTP2StreamManager) (streamId : ℕ) : ℕ → ℕ → Option ℕ
  | 0,_ => none
  | fuel+1,a =>
    if (self.nodes a).streamId = streamId then some a
    else ((self.nodes a).children.findSome? (self.findNodeRecursive streamId fuel)).or
      ((self.nodes a).exclusiveChildren.findSome? (self.findNodeRecursive streamId fuel))

def findDependencyNode (self : HTTP2StreamManager) (streamId : ℕ) : Option ℕ :=
  self.findNodeRecursive streamId self.nextNode 0

end HTTP2StreamManager

section Memory

variable {s : HTTP2StreamManager} {a c n id addr : ℕ}

/-- What holds of the memory in every run: child lists and parent links agree, no child is
exclusive, and every stream has a priority of its own that has not been freed. -/
structure WellFormed (s : HTTP2StreamManager) : Prop where
  linked : Linked s.lists s.parentOf
  plain : ∀ a, (s.nodes a).exclusiveChildren = [] ∧ (s.nodes a).isExclusive = false
  unallocated : ∀ a, s.nextNode ≤ a → s.lists a = [] ∧ s.parentOf a = none
  root : 0 < s.nextNode ∧ (s.nodes 0).streamId = 0
  owned : ∀ id addr, s.streams.lookup id = some addr →
    addr < s.nextPriority ∧ ∃ p, s.priorities addr = some p ∧ p.streamId = id

/-- The node at `a` is in the tree. -/
def InTree (s : HTTP2StreamManager) (a : ℕ) : Prop := Reach s.lists 0 a

theorem WellFormed.root_parent (h : WellFormed s) : s.parentOf 0 = none := by
  cases hparent : s.parentOf 0 with
  | none => rfl
  | some a =>
    have hlt := h.linked.lt a 0 ((h.linked.parent_iff a 0).mp hparent)
    omega

theorem WellFormed.lt_nextNode (h : WellFormed s) (hmem : c ∈ s.lists a) : c < s.nextNode := by
  by_contra hge
  have hparent := (h.linked.parent_iff a c).mpr hmem
  rw [(h.unallocated c (by omega)).2] at hparent
  cases hparent

theorem WellFormed.inTree_lt (h : WellFormed s) (ha : InTree s a) : a < s.nextNode := by
  rcases Relation.ReflTransGen.cases_tail ha with rfl | ⟨b,-,hmem⟩
  · exact h.root.1
  · exact h.lt_nextNode hmem

section Find

theorem findNodeRecursive_eq (s : HTTP2StreamManager) (id fuel a : ℕ) :
    s.findNodeRecursive id fuel a = search s.lists (fun a => decide ((s.nodes a).streamId = id)) fuel a := by
  induction fuel generalizing a with
  | zero => rfl
  | succ fuel ih =>
    have hrec : s.findNodeRecursive id fuel = search s.lists (fun a => decide ((s.nodes a).streamId = id)) fuel :=
      funext ih
    rw [HTTP2StreamManager.findNodeRecursive,search,hrec,HTTP2StreamManager.lists,List.findSome?_append]
    simp only [decide_eq_true_eq]

/-- More fuel than there are nodes finds the same node. -/
theorem findNodeRecursive_fuel (h : WellFormed s) (id extra : ℕ) :
    s.findNodeRecursive id (s.nextNode+extra) 0 = s.findDependencyNode id := by
  induction extra with
  | zero => rfl
  | succ extra ih =>
    have hfuel : s.nextNode ≤ 0+(s.nextNode+extra) := by omega
    rw [← ih,findNodeRecursive_eq,findNodeRecursive_eq]
    exact h.linked.search_succ (fun _ _ hmem => h.lt_nextNode hmem) h.root.1 hfuel

theorem find_some (hfind : s.findDependencyNode id = some a) : InTree s a ∧ (s.nodes a).streamId = id := by
  rw [HTTP2StreamManager.findDependencyNode,findNodeRecursive_eq] at hfind
  obtain ⟨hreach,hid⟩ := search_some hfind
  exact ⟨hreach,of_decide_eq_true hid⟩

theorem WellFormed.find_none (h : WellFormed s) (hfind : s.findDependencyNode id = none) (ha : InTree s a) :
    (s.nodes a).streamId ≠ id := by
  rw [HTTP2StreamManager.findDependencyNode,findNodeRecursive_eq] at hfind
  have hid := h.linked.search_none (fun _ _ hmem => h.lt_nextNode hmem) h.root.1 (by omega) hfind ha
  exact of_decide_eq_false hid

/-- The stream 0 is found at the root, whatever other node has its number. -/
theorem WellFormed.find_zero (h : WellFormed s) : s.findDependencyNode 0 = some 0 := by
  obtain ⟨n,hn⟩ : ∃ n, s.nextNode = n+1 := ⟨s.nextNode-1,by have hpos := h.root.1; omega⟩
  rw [HTTP2StreamManager.findDependencyNode,hn,HTTP2StreamManager.findNodeRecursive,if_pos h.root.2]

/-- More fuel than there are nodes counts the same depth. -/
theorem dependencyDepth_fuel (h : WellFormed s) (ha : a < s.nextNode) (extra : ℕ) :
    climb s.parentOf (s.nextNode+extra) (some a) = s.dependencyDepth (some a) := by
  induction extra with
  | zero => rfl
  | succ extra ih =>
    have hfuel : a < s.nextNode+extra := by omega
    rw [← ih]
    exact h.linked.climb_succ hfuel

end Find

section Attach

theorem update_update_apply {β : Type} (f : ℕ → β) {c a : ℕ} (hne : c ≠ a) (n m : β) (x : ℕ) :
    Function.update (Function.update f c n) a m x = if x = c then n else if x = a then m else f x := by
  by_cases hx : x = c
  · rw [if_pos hx,hx,Function.update_of_ne hne,Function.update_self]
  · rw [if_neg hx,Function.update_apply,Function.update_of_ne hx]

/-- Where two nodes are replaced and the second keeps its parent, only the first one may
have another. -/
theorem parentOf_eq_update {s s' : HTTP2StreamManager} {c a : ℕ} {n m : DependencyTreeNode}
    (hnodes : ∀ x, s'.nodes x = if x = c then n else if x = a then m else s.nodes x)
    (hparent : m.parent = (s.nodes a).parent) : s'.parentOf = Function.update s.parentOf c n.parent := by
  funext x
  rw [HTTP2StreamManager.parentOf,hnodes]
  by_cases hx : x = c
  · rw [if_pos hx,hx,Function.update_self]
  · rw [if_neg hx,Function.update_of_ne hx]
    split_ifs with hxa
    · rw [hparent,hxa]
      rfl
    · rfl

/-- The memory after a new node for a stream has been put under the node at `a`. -/
def attached (s : HTTP2StreamManager) (id addr a : ℕ) : HTTP2StreamManager :=
  { s with
    nodes := Function.update (Function.update s.nodes s.nextNode ⟨id,addr,[],some a,[],false⟩) a
      { s.nodes a with children := (s.nodes a).children++[s.nextNode] }
    nextNode := s.nextNode+1
    priorities := Function.update s.priorities addr
      ((s.priorities addr).map fun p => { p with dependencyDepth := s.dependencyDepth (some a) }) }

/-- `DependencyTreeNode.init` and `addChild` one after the other. -/
def attach (s : HTTP2StreamManager) (id addr a : ℕ) : Option HTTP2StreamManager :=
  (s.initNode id addr (some a)).map fun (node,s) => s.addChild a node

theorem attach_eq (ha : a < s.nextNode) :
    attach s id addr a = if s.dependencyDepth (some a) < 65536 then some (attached s id addr a) else none := by
  have hne : a ≠ s.nextNode := by omega
  rw [attach,HTTP2StreamManager.initNode]
  split
  · simp [HTTP2StreamManager.addChild,HTTP2StreamManager.modifyNode,HTTP2StreamManager.modifyPriority,attached,hne]
  · rfl

theorem nodes_attached (ha : a < s.nextNode) (x : ℕ) :
    (attached s id addr a).nodes x = if x = s.nextNode then ⟨id,addr,[],some a,[],false⟩
      else if x = a then { s.nodes a with children := (s.nodes a).children++[s.nextNode] } else s.nodes x := by
  have hne : s.nextNode ≠ a := by omega
  exact update_update_apply s.nodes hne _ _ x

/-- The other nodes keep what does not depend on the children. -/
theorem field_attached {β : Type} (f : DependencyTreeNode → β)
    (hf : ∀ node children, f { node with children := children } = f node) (ha : a < s.nextNode) (x : ℕ) :
    f ((attached s id addr a).nodes x) =
      if x = s.nextNode then f ⟨id,addr,[],some a,[],false⟩ else f (s.nodes x) := by
  rw [nodes_attached ha]
  split_ifs with hx hxa
  · rfl
  · rw [hf,hxa]
  · rfl

theorem streamId_attached (ha : a < s.nextNode) (x : ℕ) :
    ((attached s id addr a).nodes x).streamId = if x = s.nextNode then id else (s.nodes x).streamId :=
  field_attached DependencyTreeNode.streamId (fun _ _ => rfl) ha x

theorem priority_attached (ha : a < s.nextNode) (x : ℕ) :
    ((attached s id addr a).nodes x).priority = if x = s.nextNode then addr else (s.nodes x).priority :=
  field_attached DependencyTreeNode.priority (fun _ _ => rfl) ha x

theorem parentOf_attached (ha : a < s.nextNode) :
    (attached s id addr a).parentOf = Function.update s.parentOf s.nextNode (some a) :=
  parentOf_eq_update (nodes_attached ha) rfl

theorem WellFormed.lists_attached (h : WellFormed s) (ha : a < s.nextNode) :
    (attached s id addr a).lists = link s.lists a s.nextNode := by
  have hempty : s.lists s.nextNode = [] := (h.unallocated _ (Nat.le_refl _)).1
  funext x
  rw [HTTP2StreamManager.lists,nodes_attached ha]
  by_cases hx : x = s.nextNode
  · have hxa : x ≠ a := by omega
    rw [if_pos hx,link,Function.update_of_ne hxa,hx,hempty]
    rfl
  · rw [if_neg hx]
    split_ifs with hxa
    · rw [hxa,link,Function.update_self,HTTP2StreamManager.lists,(h.plain a).1,List.append_nil,List.append_nil]
    · rw [link,Function.update_of_ne hxa]
      rfl

theorem WellFormed.of_attached (h : WellFormed s) (ha : a < s.nextNode) :
    WellFormed (attached s id addr a) where
  linked := by
    rw [h.lists_attached ha,parentOf_attached ha]
    exact h.linked.link ha (h.unallocated _ (Nat.le_refl _)).2
  plain x := by
    rw [nodes_attached ha]
    split_ifs
    · exact ⟨rfl,rfl⟩
    · exact h.plain a
    · exact h.plain x
  unallocated x hx := by
    have hx' : s.nextNode+1 ≤ x := hx
    obtain ⟨hlists,hparent⟩ := h.unallocated x (by omega)
    rw [h.lists_attached ha,parentOf_attached ha,link,Function.update_of_ne (by omega),Function.update_of_ne (by omega)]
    exact ⟨hlists,hparent⟩
  root := by
    have hpos := h.root.1
    rw [streamId_attached ha,if_neg (by omega)]
    exact ⟨Nat.succ_pos _,h.root.2⟩
  owned id' addr' hlookup := by
    obtain ⟨hlt,p,hp,hid⟩ := h.owned id' addr' hlookup
    refine ⟨hlt,?_⟩
    by_cases heq : addr' = addr
    · exact ⟨{ p with dependencyDepth := s.dependencyDepth (some a) },
        by rw [← heq]; simp [attached,hp],hid⟩
    · exact ⟨p,by simp [attached,heq,hp],hid⟩

/-- The new node is in the tree if its parent is, and nothing else changes. -/
theorem WellFormed.inTree_attached (h : WellFormed s) (ha : InTree s a) (x : ℕ) :
    InTree (attached s id addr a) x ↔ InTree s x ∨ x = s.nextNode := by
  have hlt := h.inTree_lt ha
  rw [InTree,h.lists_attached hlt,reach_link (by omega) (h.unallocated _ (Nat.le_refl _)).1]
  exact or_congr Iff.rfl (and_iff_left ha)

end Attach

section Detach

theorem eraseP_eq_erase {p : ℕ → Bool} {xs : List ℕ} (hfind : xs.find? p = some c) : xs.eraseP p = xs.erase c := by
  induction xs with
  | nil => cases hfind
  | cons x xs ih =>
    rw [List.find?_cons] at hfind
    split at hfind
    · rename_i hp
      cases hfind
      rw [List.eraseP_cons_of_pos hp,List.erase_cons_head]
    · rename_i hp
      have hne : x ≠ c := by
        rintro rfl
        rw [List.find?_some hfind] at hp
        cases hp
      rw [List.eraseP_cons_of_neg (by simp [hp]),List.erase_cons_tail (by simpa using hne),ih hfind]

/-- The first child of the node at `a` that is for the given stream. -/
def childFor (s : HTTP2StreamManager) (a id : ℕ) : Option ℕ :=
  (s.nodes a).children.find? fun c => decide ((s.nodes c).streamId = id)

/-- The memory after the child `c` of the node at `a` has been dropped. -/
def detached (s : HTTP2StreamManager) (a c : ℕ) : HTTP2StreamManager :=
  { s with
    nodes := Function.update (Function.update s.nodes c { s.nodes c with parent := none }) a
      { s.nodes a with children := (s.nodes a).children.erase c } }

theorem childFor_some (hfind : childFor s a id = some c) : c ∈ s.lists a ∧ (s.nodes c).streamId = id :=
  ⟨List.mem_append_left _ (List.mem_of_find?_eq_some hfind),by simpa using List.find?_some hfind⟩

theorem WellFormed.childFor_none (h : WellFormed s) (hfind : childFor s a id = none) (hmem : c ∈ s.lists a) :
    (s.nodes c).streamId ≠ id := by
  rw [HTTP2StreamManager.lists,(h.plain a).1,List.append_nil] at hmem
  exact of_decide_eq_false (by simpa using List.find?_eq_none.mp hfind c hmem)

theorem WellFormed.removeChild_eq (h : WellFormed s) (a id : ℕ) :
    (s.removeChild a id).2 = (childFor s a id).elim s (detached s a) := by
  rw [HTTP2StreamManager.removeChild,childFor]
  simp only [(h.plain a).1,List.find?_nil]
  cases hfind : (s.nodes a).children.find? fun c => decide ((s.nodes c).streamId = id) with
  | none => rfl
  | some c =>
    have hmem : c ∈ s.lists a := List.mem_append_left _ (List.mem_of_find?_eq_some hfind)
    have hne : a ≠ c := Nat.ne_of_lt (h.linked.lt a c hmem)
    simp only [HTTP2StreamManager.modifyNode,Function.update_of_ne hne,eraseP_eq_erase hfind]
    rfl

theorem WellFormed.nodes_detached (h : WellFormed s) (hmem : c ∈ s.lists a) (x : ℕ) :
    (detached s a c).nodes x = if x = c then { s.nodes c with parent := none }
      else if x = a then { s.nodes a with children := (s.nodes a).children.erase c } else s.nodes x := by
  have hne : c ≠ a := Nat.ne_of_gt (h.linked.lt a c hmem)
  exact update_update_apply s.nodes hne _ _ x

theorem WellFormed.streamId_detached (h : WellFormed s) (hmem : c ∈ s.lists a) (x : ℕ) :
    ((detached s a c).nodes x).streamId = (s.nodes x).streamId ∧
    ((detached s a c).nodes x).priority = (s.nodes x).priority := by
  rw [h.nodes_detached hmem]
  split_ifs with hx hxa
  · rw [hx]
    exact ⟨rfl,rfl⟩
  · rw [hxa]
    exact ⟨rfl,rfl⟩
  · exact ⟨rfl,rfl⟩

theorem WellFormed.parentOf_detached (h : WellFormed s) (hmem : c ∈ s.lists a) :
    (detached s a c).parentOf = Function.update s.parentOf c none :=
  parentOf_eq_update (h.nodes_detached hmem) rfl

theorem WellFormed.lists_detached (h : WellFormed s) (hmem : c ∈ s.lists a) :
    (detached s a c).lists = unlink s.lists a c := by
  have hne : c ≠ a := Nat.ne_of_gt (h.linked.lt a c hmem)
  have hlists (x : ℕ) : s.lists x = (s.nodes x).children := by
    rw [HTTP2StreamManager.lists,(h.plain x).1,List.append_nil]
  funext x
  rw [HTTP2StreamManager.lists,h.nodes_detached hmem]
  by_cases hx : x = c
  · rw [if_pos hx,hx,unlink,Function.update_of_ne hne]
    rfl
  · rw [if_neg hx]
    split_ifs with hxa
    · rw [hxa,unlink,Function.update_self,hlists,(h.plain a).1,List.append_nil]
    · rw [unlink,Function.update_of_ne hxa]
      rfl

theorem WellFormed.of_detached (h : WellFormed s) (hmem : c ∈ s.lists a) :
    WellFormed (detached s a c) where
  linked := by
    rw [h.lists_detached hmem,h.parentOf_detached hmem]
    exact h.linked.unlink hmem
  plain x := by
    rw [h.nodes_detached hmem]
    split_ifs
    · exact h.plain c
    · exact h.plain a
    · exact h.plain x
  unallocated x hx := by
    have hc := h.lt_nextNode hmem
    have hlt := h.linked.lt a c hmem
    have hx' : s.nextNode ≤ x := hx
    rw [h.lists_detached hmem,h.parentOf_detached hmem,unlink,Function.update_of_ne (by omega),
      Function.update_of_ne (by omega)]
    exact h.unallocated x hx
  root := ⟨h.root.1,(h.streamId_detached hmem 0).1.trans h.root.2⟩
  owned := h.owned

/-- A node that is dropped takes what is below it out of the tree. -/
theorem WellFormed.inTree_detached (h : WellFormed s) (hmem : c ∈ s.lists a) (x : ℕ) :
    InTree (detached s a c) x ↔ InTree s x ∧ ¬Reach s.lists c x := by
  rw [InTree,h.lists_detached hmem]
  exact h.linked.reach_unlink hmem h.root_parent

end Detach

end Memory

end ZNet.Prioritization
