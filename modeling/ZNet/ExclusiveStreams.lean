import ZNet.StreamManager

/-!
# Exclusive dependencies

`addChild` moves the children of the parent below an exclusive child, but a new node is
never marked as exclusive: `createStream` puts it after the children that are there.
-/

namespace ZNet.ExclusiveStreams
open Prioritization

/-- The children of a node in the order of `getActiveChildren`. -/
def childrenOf (s : HTTP2StreamManager) (a : ℕ) : List ℕ :=
  (s.nodes a).exclusiveChildren++(s.nodes a).children

/-- The node `n` has been put between the node at `a` and its children, as RFC 7540 §5.3.1
says. -/
structure Inserted (s s' : HTTP2StreamManager) (a n : ℕ) : Prop where
  only : childrenOf s' a = [n]
  below : childrenOf s' n = childrenOf s a
  link : s'.parentOf n = some a
  links : ∀ c ∈ childrenOf s a, s'.parentOf c = some n
  parent : (s'.nodes a).streamId = (s.nodes a).streamId ∧ s'.parentOf a = s.parentOf a
  rest : ∀ x, InTree s x → x ≠ a → childrenOf s' x = childrenOf s x ∧
    (s'.nodes x).streamId = (s.nodes x).streamId ∧ (s'.nodes x).priority = (s.nodes x).priority ∧
    (x ∉ childrenOf s a → s'.parentOf x = s.parentOf x)

section Create

variable {s s' : HTTP2StreamManager} {id weight now addr a : ℕ} {parent : Option ℕ} {exclusive : Bool}

/-- A call that succeeds attaches a node to the parent, whatever the flag is. -/
theorem nodes_createStream (ha : a < s.nextNode) (hparent : s.parentNode parent = some a)
    (hcreate : s.createStream id weight parent exclusive now = (.ok addr,s')) (x : ℕ) :
    s'.nodes x = if x = s.nextNode then ⟨id,addr,[],some a,[],false⟩
      else if x = a then { s.nodes a with children := (s.nodes a).children++[s.nextNode] } else s.nodes x := by
  rw [HTTP2StreamManager.createStream] at hcreate
  split at hcreate
  · cases hcreate
  · have hnodes : (s.register id (.init id weight parent exclusive now)).nodes = s.nodes := rfl
    simp only [parentNode_congr hnodes rfl,hparent] at hcreate
    rw [attach_eq (s:=s.register id (.init id weight parent exclusive now)) ha] at hcreate
    split at hcreate
    · rename_i s'' hattach
      split at hattach
      · obtain rfl := Option.some.inj hattach
        obtain ⟨haddr,rfl⟩ := Prod.mk.inj hcreate
        obtain rfl := Except.ok.inj haddr
        exact nodes_attached (s:=s.register id (.init id weight parent exclusive now)) ha x
      · cases hattach
    · cases hcreate

theorem childrenOf_createStream (ha : a < s.nextNode) (hparent : s.parentNode parent = some a)
    (hcreate : s.createStream id weight parent exclusive now = (.ok addr,s')) (x : ℕ) :
    childrenOf s' x = if x = s.nextNode then []
      else if x = a then childrenOf s a++[s.nextNode] else childrenOf s x := by
  rw [childrenOf,nodes_createStream ha hparent hcreate]
  split_ifs with hx hxa
  · rfl
  · rw [childrenOf,List.append_assoc]
  · rfl

end Create

/-- An exclusive stream takes its place exactly if the parent has no children, in either of
its lists: there is then nothing to take over. -/
theorem inserted_iff (s s' : HTTP2StreamManager) (id weight now addr a : ℕ) (parent : Option ℕ)
    (hnodes : ∀ x, InTree s x → x < s.nextNode) (hparent : s.parentNode parent = some a)
    (hcreate : s.createStream id weight parent true now = (.ok addr,s')) :
    Inserted s s' a s.nextNode ↔ (s.nodes a).children = [] ∧ (s.nodes a).exclusiveChildren = [] := by
  have ha : a < s.nextNode := hnodes a (parentNode_some hparent).1
  have hne : a ≠ s.nextNode := by omega
  have hchildren := childrenOf_createStream ha hparent hcreate
  have hnode := nodes_createStream ha hparent hcreate
  constructor
  · intro h
    have honly := h.only
    rw [hchildren,if_neg hne,if_pos rfl,List.append_eq_singleton_iff] at honly
    obtain ⟨hnone,-⟩|⟨-,hcons⟩ := honly
    · exact And.comm.mp (List.append_eq_nil_iff.mp hnone)
    · cases hcons
  · rintro ⟨hregular,hexclusive⟩
    have hnone : childrenOf s a = [] := by rw [childrenOf,hregular,hexclusive]; rfl
    refine ⟨?_,?_,?_,?_,?_,?_⟩
    · rw [hchildren,if_neg hne,if_pos rfl,hnone]
      rfl
    · rw [hchildren,if_pos rfl,hnone]
    · rw [HTTP2StreamManager.parentOf,hnode,if_pos rfl]
    · rw [hnone]
      intro c hc
      cases hc
    · rw [HTTP2StreamManager.parentOf,hnode,if_neg hne,if_pos rfl]
      exact ⟨rfl,rfl⟩
    · intro x hx hxa
      have hxn : x ≠ s.nextNode := Nat.ne_of_lt (hnodes x hx)
      rw [hchildren,HTTP2StreamManager.parentOf,hnode,if_neg hxn,if_neg hxa,if_neg hxn,if_neg hxa]
      exact ⟨rfl,rfl,rfl,fun _ => rfl⟩

theorem inTree_init {maxConcurrentStreams now x : ℕ} (hx : InTree (.init maxConcurrentStreams now) x) : x = 0 := by
  induction hx with
  | refl => rfl
  | tail _ hmem _ => cases hmem

/-- The first stream of a manager. -/
theorem inserted_iff_first :
    let s := HTTP2StreamManager.init 8 0
    ((∀ x, InTree s x → x < s.nextNode) ∧ s.parentNode none = some 0 ∧
      s.createStream 1 16 none true 0 = (.ok 1,(s.createStream 1 16 none true 0).2)) ∧
    (Inserted s (s.createStream 1 16 none true 0).2 0 1 ↔
      (s.nodes 0).children = [] ∧ (s.nodes 0).exclusiveChildren = []) := by
  have hnodes : ∀ x, InTree (.init 8 0) x → x < (HTTP2StreamManager.init 8 0).nextNode := by
    intro x hx
    rw [inTree_init hx]
    exact Nat.zero_lt_one
  exact ⟨⟨hnodes,rfl,rfl⟩,inserted_iff _ _ 1 16 0 1 0 none hnodes rfl rfl⟩

/-- The manager with one stream below the root. -/
def oneStream : HTTP2StreamManager := ((HTTP2StreamManager.init 8 0).createStream 1 16 none false 0).2

/-- An exclusive stream next to another one: the root has both as its children. -/
theorem exclusive_beside :
    oneStream.parentNode none = some 0 ∧ (oneStream.createStream 3 16 none true 0).1 = .ok 2 ∧
    childrenOf (oneStream.createStream 3 16 none true 0).2 0 = [1,2] ∧
    ¬Inserted oneStream (oneStream.createStream 3 16 none true 0).2 0 oneStream.nextNode := by
  have hchildren : childrenOf (oneStream.createStream 3 16 none true 0).2 0 = [1,2] := rfl
  refine ⟨rfl,rfl,hchildren,fun h => ?_⟩
  have honly := h.only
  rw [hchildren] at honly
  cases honly

end ZNet.ExclusiveStreams
