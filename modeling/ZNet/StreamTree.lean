import ZNet.StreamPlaces
import ZNet.Runs

/-!
# The integrity of the dependency tree

A stream has one node in the tree, under the node of its parent. An update makes a new
node without the children of the old one, and a stream without a parent keeps its node.
-/

namespace ZNet.Prioritization
open LinkedForest Runs

/-- The nodes in the tree besides the root are those of the streams, one for each, and
lists and links agree. -/
structure Integrity (s : HTTP2StreamManager) : Prop where
  acyclic : ∀ a, InTree s a → ¬Relation.TransGen (Lists s.lists) a a
  live : ∀ id, id ∈ s.streams ↔ HasNode s id
  unique : ∀ a b, InTree s a → InTree s b → a ≠ 0 → b ≠ 0 → (s.nodes a).streamId = (s.nodes b).streamId → a = b
  parent : ∀ a c, InTree s a → c ∈ s.lists a → s.parentOf c = some a
  once : ∀ a, InTree s a → (s.lists a).Nodup

/-- The stream that a call is about. -/
def subject : Call → Option ℕ
  | .createStream streamId _ _ _ _ => some streamId
  | .updateStreamPriority streamId _ _ _ => some streamId
  | .closeStream streamId => some streamId
  | .cleanup _ _ => none
  | .change streamId _ => some streamId

/-- The call returns, the tree is intact afterwards, and other streams are still in it. -/
structure Integral (s : HTTP2StreamManager) (call : Call) : Prop where
  noTrap : (perform s call).1 ≠ .error .trap
  integrity : Integrity (step s call)
  kept : ∀ id ∈ s.streams, some id ≠ subject call → HasNode s id → HasNode (step s call) id

/-- Streams are created with new ids, and created and updated with parents that there are. -/
def Legal (s : HTTP2StreamManager) : Call → Prop
  | .createStream streamId _ parent _ _ => s.streams.lookup streamId = none ∧ ParentOk s streamId parent
  | .updateStreamPriority streamId _ newParent _ => ParentOk s streamId newParent
  | .closeStream _ => True
  | .cleanup _ _ => False
  | .change _ _ => True

/-- The node of the stream has no children. -/
def Leaf (s : HTTP2StreamManager) (id : ℕ) : Prop :=
  ∀ a, InTree s a → a ≠ 0 → (s.nodes a).streamId = id → s.lists a = []

/-- The depth of a node under that of the parent is a `u16`. -/
def Shallow (s : HTTP2StreamManager) (parent : Option ℕ) : Prop :=
  ∀ a, s.parentNode parent = some a → s.dependencyDepth (some a) < 65536

/-- The streams that are updated and closed were given a parent, be it the root, and no
other stream depends on them. No node is put deeper than a `u16` can tell. -/
def Tidy (s : HTTP2StreamManager) : Call → Prop
  | .createStream _ _ parent _ _ => s.maxConcurrentStreams ≤ s.concurrentStreams ∨ Shallow s parent
  | .updateStreamPriority streamId _ newParent _ =>
    ∀ addr p, s.streams.lookup streamId = some addr → s.priorities addr = some p →
      (p.parentStreamId ≠ none ∧ Leaf s streamId) ∧ Shallow s newParent
  | .closeStream streamId =>
    ∀ addr p, s.streams.lookup streamId = some addr → s.priorities addr = some p →
      p.parentStreamId ≠ none ∧ Leaf s streamId
  | .cleanup _ _ => True
  | .change _ _ => True

section Calls

variable {s : HTTP2StreamManager} {id addr a q d : ℕ} {p : HTTP2StreamPriority} {call : Call}

theorem Placed.integrity (h : Placed s) : Integrity s where
  acyclic a _ := h.wellFormed.linked.acyclic a
  live id := by
    constructor
    · exact h.hasNode
    · rintro ⟨a,ha,hne,rfl⟩
      exact h.known a ha hne
  unique := h.unique
  parent a c _ hmem := (h.wellFormed.linked.parent_iff a c).mpr hmem
  once a _ := h.wellFormed.linked.nodup a

theorem Placed.leaf_iff (h : Placed s) (hplace : Place s id addr p a q) : Leaf s id ↔ s.lists a = [] := by
  constructor
  · exact fun hleaf => hleaf a hplace.inTree hplace.ne_root hplace.streamId
  · intro hlists b hb hb0 hid
    rw [h.unique b a hb hplace.inTree hb0 hplace.ne_root (hid.trans hplace.streamId.symm)]
    exact hlists

/-- Dropping a leaf changes neither another node's depth nor where a parent is found. -/
theorem Placed.parentNode_unlinked (h : Placed s) (hlisted : a ∈ s.lists q) (hleaf : s.lists a = [])
    {parent : Option ℕ} {b : ℕ} (hb : (detached s q a).parentNode parent = some b) :
    s.parentNode parent = some b ∧ (detached s q a).dependencyDepth (some b) = s.dependencyDepth (some b) := by
  obtain ⟨hbTree,hbId⟩ := parentNode_some hb
  rw [h.wellFormed.inTree_detached hlisted,reach_leaf hleaf] at hbTree
  rw [(h.wellFormed.streamId_detached hlisted b).1] at hbId
  refine ⟨h.parentNode_eq hbTree.1 hbId,?_⟩
  have hchildless : ∀ x, s.parentOf x ≠ some a := by
    intro x hx
    have hmem := (h.wellFormed.linked.parent_iff a x).mp hx
    rw [hleaf] at hmem
    cases hmem
  rw [HTTP2StreamManager.dependencyDepth,h.wellFormed.parentOf_detached hlisted]
  exact climb_update hchildless hbTree.2

theorem Placed.integral (h : Placed (step s call)) (htrap : (perform s call).1 ≠ .error .trap)
    (hkept : ∀ id ∈ s.streams, some id ≠ subject call → id ∈ (step s call).streams) : Integral s call where
  noTrap := htrap
  integrity := h.integrity
  kept id hid hne _ := h.hasNode (hkept id hid hne)

theorem Placed.unchanged (h : Placed s) (hstep : step s call = s) (htrap : (perform s call).1 ≠ .error .trap) :
    Integral s call ∧ Placed (step s call) := by
  have h' : Placed (step s call) := by
    rw [hstep]
    exact h
  refine ⟨h'.integral htrap fun id hid _ => ?_,h'⟩
  rw [hstep]
  exact hid

/-- A stream that depends on the one whose node is dropped has no node any more. -/
theorem Placed.lost (h : Placed s) (hplace : Place s id addr p a q) (hlisted : a ∈ s.lists q) (hd : d ∈ s.lists a) :
    (s.nodes d).streamId ∈ s.streams ∧ (s.nodes d).streamId ≠ id ∧
      ∀ x, InTree (detached s q a) x → x ≠ 0 → ((detached s q a).nodes x).streamId ≠ (s.nodes d).streamId := by
  have hlt := h.wellFormed.linked.lt a d hd
  have hdTree : InTree s d := .tail hplace.inTree hd
  have hd0 : d ≠ 0 := by omega
  refine ⟨h.known d hdTree hd0,fun hid => ?_,fun x hx hx0 hid => ?_⟩
  · have heq := h.unique d a hdTree hplace.inTree hd0 hplace.ne_root (hid.trans hplace.streamId.symm)
    omega
  · rw [h.wellFormed.inTree_detached hlisted] at hx
    rw [(h.wellFormed.streamId_detached hlisted x).1] at hid
    obtain rfl := h.unique x d hx.1 hdTree hx0 hd0 hid
    exact hx.2 (.single hd)

theorem Placed.createStream (h : Placed s) (weight : ℕ) (parent : Option ℕ) (exclusive : Bool) (now : ℕ)
    (hlegal : Legal s (.createStream id weight parent exclusive now)) :
    (Integral s (.createStream id weight parent exclusive now) ↔
      Tidy s (.createStream id weight parent exclusive now)) ∧
    (Integral s (.createStream id weight parent exclusive now) →
      Placed (step s (.createStream id weight parent exclusive now))) := by
  obtain ⟨hnew,hparent⟩ := hlegal
  obtain ⟨a,ha⟩ := h.wellFormed.exists_parentNode (fun q hq _ => h.hasNode hq) hparent
  rcases h.wellFormed.createStream_cases id weight parent exclusive now with
    ⟨hlimit,hcreate⟩ | ⟨hroom,hdeep,s',hcreate⟩ | ⟨hroom,a',ha',hdepth,hcreate⟩
  · have hperform : perform s (.createStream id weight parent exclusive now) = (.error .maxStreamsExceeded,s) := by
      rw [perform,hcreate]
      rfl
    obtain ⟨hintegral,hplaced⟩ := h.unchanged (congrArg Prod.snd hperform) (by rw [hperform]; simp)
    exact ⟨iff_of_true hintegral (Or.inl hlimit),fun _ => hplaced⟩
  · have hperform : (perform s (.createStream id weight parent exclusive now)).1 = .error .trap := by
      rw [perform,hcreate]
      rfl
    refine ⟨iff_of_false (fun hintegral => hintegral.noTrap hperform) ?_,fun hintegral => ?_⟩
    · rintro (hfull | hshallow)
      · omega
      · have hlt := hshallow a ha
        have hge := hdeep a ha
        omega
    · exact (hintegral.noTrap hperform).elim
  · have hok : (perform s (.createStream id weight parent exclusive now)).1 = .ok () := by
      rw [perform,hcreate]
      rfl
    have hstep : step s (.createStream id weight parent exclusive now) =
        attached (s.register id (.init id weight parent exclusive now)) id s.nextPriority a' := by
      rw [step,perform,hcreate]
    have hbut : PlacedBut (s.register id (.init id weight parent exclusive now)) id := h.registered hnew rfl
    have hparent' : (s.register id (.init id weight parent exclusive now)).parentNode parent = some a' := by
      rw [← ha']
      apply parentNode_congr
      · rfl
      · rfl
    have hplaced : Placed (step s (.createStream id weight parent exclusive now)) := by
      rw [hstep]
      refine hbut.of_attached (p:=.init id weight parent exclusive now) (AList.lookup_insert _) ?_ hparent'
      exact Function.update_self _ _ _
    refine ⟨iff_of_true (hplaced.integral (by rw [hok]; simp) fun id' hid _ => ?_) (Or.inr fun b hb => ?_),
      fun _ => hplaced⟩
    · rw [hstep]
      exact (AList.mem_insert _).mpr (Or.inr hid)
    · rw [ha',Option.some.injEq] at hb
      rw [← hb]
      exact hdepth

section Close

theorem Placed.step_close (h : Placed s) (hlookup : s.streams.lookup id = some addr) (hp : s.priorities addr = some p) :
    step s (.closeStream id) = (s.removeFrom p.parentStreamId id).release id addr ∧
    (step s (.closeStream id)).streams = s.streams.erase id := by
  have hstep : step s (.closeStream id) = (s.removeFrom p.parentStreamId id).release id addr :=
    congrArg Prod.snd (closeStream_eq hlookup hp)
  refine ⟨hstep,?_⟩
  rw [hstep]
  simp only [HTTP2StreamManager.release,(h.wellFormed.removeFrom_frame p.parentStreamId id).1]

/-- The node of a stream without a parent stays in the tree. -/
theorem Placed.close_unparented (h : Placed s) (hlookup : s.streams.lookup id = some addr)
    (hp : s.priorities addr = some p) (hparent : p.parentStreamId = none) : ¬Integral s (.closeStream id) := by
  intro hintegral
  obtain ⟨a,q,hplace⟩ := h.located id addr p hlookup hp
  obtain ⟨hstep,hstreams⟩ := h.step_close hlookup hp
  have hstay : s.removeFrom p.parentStreamId id = s := by
    rw [hparent]
    rfl
  have hlive := hintegral.integrity.live id
  rw [hstreams,AList.mem_erase,hstep,hstay] at hlive
  exact (hlive.mpr ⟨a,hplace.inTree,hplace.ne_root,hplace.streamId⟩).1 rfl

/-- The nodes of the children of a stream go with its node. -/
theorem Placed.close_lost (h : Placed s) (hlookup : s.streams.lookup id = some addr) (hp : s.priorities addr = some p)
    (hparent : p.parentStreamId ≠ none) (hplace : Place s id addr p a q) (hd : d ∈ s.lists a) :
    ¬Integral s (.closeStream id) := by
  intro hintegral
  obtain ⟨hremove,hlisted⟩ := h.removeFrom_eq hparent hplace
  obtain ⟨hmem,hne,hgone⟩ := h.lost hplace hlisted hd
  have hkept := hintegral.kept _ hmem (fun heq => hne (Option.some.inj heq)) (h.hasNode hmem)
  rw [(h.step_close hlookup hp).1,hremove] at hkept
  obtain ⟨x,hx,hx0,hid⟩ := hkept
  exact hgone x hx hx0 hid

theorem Placed.closeStream (h : Placed s) (id : ℕ) :
    (Integral s (.closeStream id) ↔ Tidy s (.closeStream id)) ∧
    (Integral s (.closeStream id) → Placed (step s (.closeStream id))) := by
  cases hlookup : s.streams.lookup id with
  | none =>
    have hperform : perform s (.closeStream id) = (.error .streamNotFound,s) := closeStream_unknown hlookup
    obtain ⟨hintegral,hplaced⟩ := h.unchanged (congrArg Prod.snd hperform) (by rw [hperform]; simp)
    exact ⟨iff_of_true hintegral (forall_priority_unknown hlookup),fun _ => hplaced⟩
  | some addr =>
    obtain ⟨-,p,hp,-⟩ := h.wellFormed.owned id addr hlookup
    obtain ⟨a,q,hplace⟩ := h.located id addr p hlookup hp
    have htidy : Tidy s (.closeStream id) ↔ p.parentStreamId ≠ none ∧ s.lists a = [] := by
      rw [← h.leaf_iff hplace]
      exact forall_priority hlookup hp
    rw [htidy]
    by_cases hparent : p.parentStreamId = none
    · have hbad := h.close_unparented hlookup hp hparent
      exact ⟨iff_of_false hbad fun hgood => hgood.1 hparent,fun hintegral => (hbad hintegral).elim⟩
    · cases hlists : s.lists a with
      | cons d ds =>
        have hbad := h.close_lost hlookup hp hparent hplace (d:=d) (by rw [hlists]; simp)
        exact ⟨iff_of_false hbad (by simp),fun hintegral => (hbad hintegral).elim⟩
      | nil =>
        obtain ⟨hremove,hlisted⟩ := h.removeFrom_eq hparent hplace
        obtain ⟨hstep,hstreams⟩ := h.step_close hlookup hp
        have hok : (perform s (.closeStream id)).1 = .ok () := congrArg Prod.fst (closeStream_eq hlookup hp)
        have hlookup' : (detached s q a).streams.lookup id = some addr := hlookup
        have hplaced : Placed (step s (.closeStream id)) := by
          rw [hstep,hremove]
          exact (h.unlinked hplace hlisted hlists).released hlookup'
        refine ⟨iff_of_true (hplaced.integral (by rw [hok]; simp) fun id' hid hne => ?_) ⟨hparent,rfl⟩,fun _ => hplaced⟩
        rw [hstreams,AList.mem_erase]
        exact ⟨fun heq => hne (congrArg some heq),hid⟩

end Close

/-- The state after an update whose removal and depth are fine. -/
theorem Placed.of_replaced (h : Placed s) (hlookup : s.streams.lookup id = some addr) (hp : s.priorities addr = some p)
    (hplace : Place s id addr p a q) (hlisted : a ∈ s.lists q) (hleaf : s.lists a = [])
    (hremove : s.removeFrom p.parentStreamId id = detached s q a) (weight : ℕ) (parent : Option ℕ) (exclusive : Bool)
    {b : ℕ} (hb : (detached s q a).parentNode parent = some b) :
    Placed (attached (replaced s p addr id weight parent exclusive) id addr b) := by
  have hlookup' : (detached s q a).streams.lookup id = some addr := hlookup
  have hp' : (detached s q a).priorities addr = some p := hp
  rw [replaced,hremove]
  have hbut := (h.unlinked hplace hlisted hleaf).modifyPriority hlookup'
    (f:=fun p => { p with weight := weight, parentStreamId := parent, exclusive := exclusive }) fun _ => rfl
  refine hbut.of_attached (p:={ p with weight := weight, parentStreamId := parent, exclusive := exclusive }) hlookup' ?_ ?_
  · rw [HTTP2StreamManager.modifyPriority]
    simp only [Function.update_self,hp',Option.map_some]
  · rw [← hb]
    apply parentNode_congr
    · rfl
    · rfl

section Update

variable (weight : ℕ) (parent : Option ℕ) (exclusive : Bool)

/-- The nodes after an update are those that its removal has left, and a new one. -/
theorem WellFormed.inTree_updated (h : WellFormed s) (addr : ℕ) {b x : ℕ}
    (hb : (s.removeFrom p.parentStreamId id).parentNode parent = some b) :
    (InTree (attached (replaced s p addr id weight parent exclusive) id addr b) x ↔
      InTree (s.removeFrom p.parentStreamId id) x ∨ x = s.nextNode) ∧
    ((attached (replaced s p addr id weight parent exclusive) id addr b).nodes x).streamId =
      if x = s.nextNode then id else ((s.removeFrom p.parentStreamId id).nodes x).streamId := by
  have hwell := h.of_replaced p addr id weight parent exclusive
  have hnext : (replaced s p addr id weight parent exclusive).nextNode = s.nextNode :=
    (h.removeFrom_frame p.parentStreamId id).2.2.2.2
  have hlt : b < (replaced s p addr id weight parent exclusive).nextNode :=
    (h.removeFrom p.parentStreamId id).parentNode_lt hb
  have hbTree : InTree (replaced s p addr id weight parent exclusive) b := (parentNode_some hb).1
  rw [hwell.inTree_attached hbTree,streamId_attached hlt,hnext]
  exact ⟨Iff.rfl,rfl⟩

/-- A stream without a parent keeps its node and gets another one. -/
theorem Placed.update_unparented (h : Placed s) (hlookup : s.streams.lookup id = some addr)
    (hp : s.priorities addr = some p) (hlegal : ParentOk s id parent) (hparent : p.parentStreamId = none) :
    ¬Integral s (.updateStreamPriority id weight parent exclusive) := by
  intro hintegral
  obtain ⟨a,q,hplace⟩ := h.located id addr p hlookup hp
  have hstay : s.removeFrom p.parentStreamId id = s := by
    rw [hparent]
    rfl
  rcases h.wellFormed.updateStreamPriority_cases hlookup hp weight parent exclusive with
    ⟨hb,-⟩ | ⟨b,-,-,hupdate⟩ | ⟨b,hb,-,hupdate⟩
  · rw [hstay] at hb
    obtain ⟨b,hb'⟩ := h.wellFormed.exists_parentNode (fun q hq _ => h.hasNode hq) hlegal
    rw [hb] at hb'
    cases hb'
  · exact hintegral.noTrap (congrArg Prod.fst hupdate)
  · have hstep : step s (.updateStreamPriority id weight parent exclusive) =
        attached (replaced s p addr id weight parent exclusive) id addr b := congrArg Prod.snd hupdate
    have hlt := h.wellFormed.inTree_lt hplace.inTree
    have hnodes (x : ℕ) := h.wellFormed.inTree_updated weight parent exclusive addr (x:=x) hb
    rw [hstay] at hnodes
    have hunique := hintegral.integrity.unique a s.nextNode
    rw [hstep,(hnodes a).1,(hnodes s.nextNode).1,(hnodes a).2,(hnodes s.nextNode).2,if_pos rfl,
      if_neg (Nat.ne_of_lt hlt)] at hunique
    have heq := hunique (Or.inl hplace.inTree) (Or.inr rfl) hplace.ne_root (by omega) hplace.streamId
    omega

/-- The nodes of the children of a stream go with its old node. -/
theorem Placed.update_lost (h : Placed s) (hlookup : s.streams.lookup id = some addr)
    (hp : s.priorities addr = some p) (hparent : p.parentStreamId ≠ none) (hplace : Place s id addr p a q)
    (hd : d ∈ s.lists a) : ¬Integral s (.updateStreamPriority id weight parent exclusive) := by
  intro hintegral
  obtain ⟨hremove,hlisted⟩ := h.removeFrom_eq hparent hplace
  obtain ⟨hmem,hne,hgone⟩ := h.lost hplace hlisted hd
  have hkept := hintegral.kept _ hmem (fun heq => hne (Option.some.inj heq)) (h.hasNode hmem)
  rcases h.wellFormed.updateStreamPriority_cases hlookup hp weight parent exclusive with
    ⟨-,hupdate⟩ | ⟨b,-,-,hupdate⟩ | ⟨b,hb,-,hupdate⟩
  · have hstep : step s (.updateStreamPriority id weight parent exclusive) =
        replaced s p addr id weight parent exclusive := congrArg Prod.snd hupdate
    rw [hstep,replaced,hremove] at hkept
    obtain ⟨x,hx,hx0,hid⟩ := hkept
    exact hgone x hx hx0 hid
  · exact hintegral.noTrap (congrArg Prod.fst hupdate)
  · have hstep : step s (.updateStreamPriority id weight parent exclusive) =
        attached (replaced s p addr id weight parent exclusive) id addr b := congrArg Prod.snd hupdate
    rw [hstep] at hkept
    obtain ⟨x,hx,hx0,hid⟩ := hkept
    have hnodes := h.wellFormed.inTree_updated weight parent exclusive addr (x:=x) hb
    rw [hnodes.1] at hx
    rw [hnodes.2] at hid
    split at hid
    · exact hne hid.symm
    · rename_i hx'
      rw [hremove] at hid
      rw [hremove,or_iff_left hx'] at hx
      exact hgone x hx hx0 hid

/-- The node of a stream that no other depends on is put under its new parent. -/
theorem Placed.update_leaf (h : Placed s) (hlookup : s.streams.lookup id = some addr) (hp : s.priorities addr = some p)
    (hparent : p.parentStreamId ≠ none) (hplace : Place s id addr p a q) (hleaf : s.lists a = [])
    (hlegal : ParentOk s id parent) :
    (Integral s (.updateStreamPriority id weight parent exclusive) ↔ Shallow s parent) ∧
    (Integral s (.updateStreamPriority id weight parent exclusive) →
      Placed (step s (.updateStreamPriority id weight parent exclusive))) := by
  obtain ⟨hremove,hlisted⟩ := h.removeFrom_eq hparent hplace
  have hbut := h.unlinked hplace hlisted hleaf
  have hlegal' : ParentOk (detached s q a) id parent := hlegal
  obtain ⟨c,hc⟩ := hbut.wellFormed.exists_parentNode (fun r hr hne => hbut.hasNode hr hne) hlegal'
  obtain ⟨hknown,hsame⟩ := h.parentNode_unlinked hlisted hleaf hc
  rw [← hremove] at hc hsame
  rcases h.wellFormed.updateStreamPriority_cases hlookup hp weight parent exclusive with
    ⟨hnone,-⟩ | ⟨b,hb,hdeep,hupdate⟩ | ⟨b,hb,hdepth,hupdate⟩
  · rw [hnone] at hc
    cases hc
  · have hperform : (perform s (.updateStreamPriority id weight parent exclusive)).1 = .error .trap :=
      congrArg Prod.fst hupdate
    refine ⟨iff_of_false (fun hintegral => hintegral.noTrap hperform) fun hshallow => ?_,
      fun hintegral => (hintegral.noTrap hperform).elim⟩
    obtain rfl : c = b := Option.some.inj (hc.symm.trans hb)
    have hlt := hshallow c hknown
    omega
  · have hok : (perform s (.updateStreamPriority id weight parent exclusive)).1 = .ok () :=
      congrArg Prod.fst hupdate
    have hstep : step s (.updateStreamPriority id weight parent exclusive) =
        attached (replaced s p addr id weight parent exclusive) id addr b := congrArg Prod.snd hupdate
    have hplaced : Placed (step s (.updateStreamPriority id weight parent exclusive)) := by
      rw [hstep]
      rw [hremove] at hb
      exact h.of_replaced hlookup hp hplace hlisted hleaf hremove weight parent exclusive hb
    refine ⟨iff_of_true (hplaced.integral (by rw [hok]; simp) fun id' hid _ => ?_) ?_,fun _ => hplaced⟩
    · have hstreams : (step s (.updateStreamPriority id weight parent exclusive)).streams = s.streams := by
        rw [hstep]
        exact (h.wellFormed.removeFrom_frame p.parentStreamId id).1
      rw [hstreams]
      exact hid
    · intro b' hb'
      obtain rfl : c = b := Option.some.inj (hc.symm.trans hb)
      obtain rfl : c = b' := Option.some.inj (hknown.symm.trans hb')
      rw [← hsame]
      exact hdepth

theorem Placed.updateStreamPriority (h : Placed s)
    (hlegal : Legal s (.updateStreamPriority id weight parent exclusive)) :
    (Integral s (.updateStreamPriority id weight parent exclusive) ↔
      Tidy s (.updateStreamPriority id weight parent exclusive)) ∧
    (Integral s (.updateStreamPriority id weight parent exclusive) →
      Placed (step s (.updateStreamPriority id weight parent exclusive))) := by
  cases hlookup : s.streams.lookup id with
  | none =>
    have hperform : perform s (.updateStreamPriority id weight parent exclusive) = (.error .streamNotFound,s) :=
      updateStreamPriority_unknown hlookup weight parent exclusive
    obtain ⟨hintegral,hplaced⟩ := h.unchanged (congrArg Prod.snd hperform) (by rw [hperform]; simp)
    exact ⟨iff_of_true hintegral (forall_priority_unknown hlookup),fun _ => hplaced⟩
  | some addr =>
    obtain ⟨-,p,hp,-⟩ := h.wellFormed.owned id addr hlookup
    obtain ⟨a,q,hplace⟩ := h.located id addr p hlookup hp
    have htidy : Tidy s (.updateStreamPriority id weight parent exclusive) ↔
        (p.parentStreamId ≠ none ∧ s.lists a = []) ∧ Shallow s parent := by
      rw [← h.leaf_iff hplace]
      exact forall_priority hlookup hp
    rw [htidy]
    by_cases hparent : p.parentStreamId = none
    · have hbad := h.update_unparented weight parent exclusive hlookup hp hlegal hparent
      exact ⟨iff_of_false hbad fun hgood => hgood.1.1 hparent,fun hintegral => (hbad hintegral).elim⟩
    · cases hlists : s.lists a with
      | cons d ds =>
        have hbad := h.update_lost weight parent exclusive hlookup hp hparent hplace (d:=d) (by rw [hlists]; simp)
        exact ⟨iff_of_false hbad (by simp),fun hintegral => (hbad hintegral).elim⟩
      | nil =>
        obtain ⟨hiff,hplaced⟩ := h.update_leaf weight parent exclusive hlookup hp hparent hplace hlists hlegal
        exact ⟨hiff.trans ⟨fun hshallow => ⟨⟨hparent,rfl⟩,hshallow⟩,And.right⟩,hplaced⟩

end Update

/-- The calls that keep the tree intact, one by one. -/
theorem integral_iff (h : Placed s) (hlegal : Legal s call) :
    (Integral s call ↔ Tidy s call) ∧ (Integral s call → Placed (step s call)) := by
  cases call with
  | createStream streamId weight parent exclusive now => exact h.createStream weight parent exclusive now hlegal
  | updateStreamPriority streamId newWeight newParent exclusive =>
    exact h.updateStreamPriority newWeight newParent exclusive hlegal
  | closeStream streamId => exact h.closeStream streamId
  | cleanup now order => exact hlegal.elim
  | change streamId c =>
    have hplaced : Placed (step s (.change streamId c)) := h.change streamId c
    refine ⟨iff_of_true (hplaced.integral (by rw [perform]; simp) fun id hid _ => ?_) trivial,fun _ => hplaced⟩
    have hstreams : (step s (.change streamId c)).streams = s.streams := by
      rw [step,perform,HTTP2StreamManager.change]
      split
      · rfl
      · rfl
    rw [hstreams]
    exact hid

end Calls

/-- Over legal calls the tree is intact at the start, and every call keeps it intact
exactly if no stream is updated or closed that was created without a parent or that others
depend on, and no depth overflows. -/
theorem along_integral_iff (maxConcurrentStreams now : ℕ) (calls : List Call)
    (hlegal : Along step Legal (.init maxConcurrentStreams now) calls) :
    Integrity (.init maxConcurrentStreams now) ∧
    (Along step Integral (.init maxConcurrentStreams now) calls ↔
      Along step Tidy (.init maxConcurrentStreams now) calls) := by
  have hinit := placed_init maxConcurrentStreams now
  refine ⟨hinit.integrity,along_iff_of_along (I:=Placed) ?_ ?_ hinit hlegal⟩
  · intro s call h hlegal htidy
    exact (integral_iff h hlegal).2 ((integral_iff h hlegal).1.mpr htidy)
  · intro s call h hlegal
    exact (integral_iff h hlegal).1

theorem along_integral_iff_sample :
    Integrity (.init 8 0) ∧
    (Along step Integral (.init 8 0) [.createStream 1 16 none false 0,.createStream 3 16 (some 1) false 0] ↔
      Along step Tidy (.init 8 0) [.createStream 1 16 none false 0,.createStream 3 16 (some 1) false 0]) := by
  refine along_integral_iff 8 0 _ ⟨⟨rfl,?_⟩,⟨rfl,?_⟩,trivial⟩
  · intro q hq
    cases hq
  · rintro q ⟨⟩
    exact ⟨by decide,Or.inr (by decide)⟩

/-- A stream that was created without a parent keeps its node when it is closed, and an
update drops the nodes of the streams that depend on a stream. -/
theorem integral_broken :
    (Along step Legal (.init 8 0) [.createStream 1 16 none false 0,.closeStream 1] ∧
      ¬Along step Integral (.init 8 0) [.createStream 1 16 none false 0,.closeStream 1]) ∧
    (Along step Legal (.init 8 0) [.createStream 1 16 (some 0) false 0,.createStream 3 16 (some 1) false 0,
        .updateStreamPriority 1 32 (some 0) false] ∧
      ¬Along step Integral (.init 8 0) [.createStream 1 16 (some 0) false 0,.createStream 3 16 (some 1) false 0,
        .updateStreamPriority 1 32 (some 0) false]) := by
  refine ⟨⟨⟨⟨rfl,?_⟩,trivial,trivial⟩,?_⟩,⟨⟨rfl,?_⟩,⟨rfl,?_⟩,?_,trivial⟩,?_⟩
  · intro q hq
    cases hq
  · rintro ⟨-,hclose,-⟩
    have hlive := (hclose.integrity.live 1).mpr ⟨1,.single (List.mem_singleton.mpr rfl),by decide,by decide⟩
    exact absurd hlive (by decide)
  · rintro q ⟨⟩
    exact ⟨by decide,Or.inl rfl⟩
  · rintro q ⟨⟩
    exact ⟨by decide,Or.inr (by decide)⟩
  · rintro q ⟨⟩
    exact ⟨by decide,Or.inl rfl⟩
  · rintro ⟨-,-,hupdate,-⟩
    obtain ⟨x,hx,hx0,hid⟩ := (hupdate.integrity.live 3).mp (by decide)
    have honly : x = 0 ∨ x = 3 := by
      clear hx0 hid
      induction hx with
      | refl => exact Or.inl rfl
      | tail _ hlists ih =>
        rcases ih with rfl | rfl
        · exact Or.inr (List.mem_singleton.mp hlists)
        · cases hlists
    rcases honly with rfl | rfl
    · exact hx0 rfl
    · exact absurd hid (by decide)

end ZNet.Prioritization
