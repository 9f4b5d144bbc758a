import ZNet.DependencyTree
import ZNet.Runs
import ZNet.Tables

/-!
# The stream manager of HTTP/2

Streams are created, given another priority, closed and cleaned up. Each of these calls
changes the table of streams, their number and the dependency tree one after the other.
-/

namespace ZNet.Prioritization
open LinkedForest Runs
open Tables (lookup_of_erase)

inductive Failure
  | maxStreamsExceeded | streamNotFound
  /-- A check of the language traps, or memory is read that has been freed. -/
  | trap
deriving DecidableEq

/-- What the holder of a priority can do to it: anything but change its place. -/
structure Change where
  apply : HTTP2StreamPriority → HTTP2StreamPriority
  streamId : ∀ p, (apply p).streamId = p.streamId
  parentStreamId : ∀ p, (apply p).parentStreamId = p.parentStreamId

def Change.setBlocked (isBlocked : Bool) : Change :=
  ⟨fun p => { p with isBlocked := isBlocked },fun _ => rfl,fun _ => rfl⟩

/-- The order in which the table of streams iterates over its keys. -/
abbrev IterationOrder := (keys : List ℕ) → { ids : List ℕ // ids.Perm keys }

/-- Five minutes in nanoseconds. -/
def idleThreshold : ℕ := 300000000000

namespace HTTP2StreamManager

def init (maxConcurrentStreams now : ℕ) : HTTP2StreamManager where
  nodes := fun _ => ⟨0,0,[],none,[],false⟩
  nextNode := 1
  priorities := Function.update (fun _ => none) 0 (some { HTTP2StreamPriority.init 0 16 none false now with
    priorityClass := .critical })
  nextPriority := 1
  streams := ∅
  maxConcurrentStreams := maxConcurrentStreams
  concurrentStreams := 0

/-- The node a stream with the given parent depends on. -/
def parentNode (self : HTTP2StreamManager) : Option ℕ → Option ℕ
  | some parentId => if parentId = 0 then some 0 else self.findDependencyNode parentId
  | none => some 0

/-- The part of `createStream` before the tree: a new priority and an entry for it. -/
def register (self : HTTP2StreamManager) (streamId : ℕ) (priority : HTTP2StreamPriority) : HTTP2StreamManager :=
  { self with
    priorities := Function.update self.priorities self.nextPriority (some priority)
    nextPriority := self.nextPriority+1
    streams := self.streams.insert streamId self.nextPriority
    concurrentStreams := self.concurrentStreams+1 }

/-- Without a node for the parent, a node is made and the access to the parent traps. -/
def createStream (self : HTTP2StreamManager) (streamId weight : ℕ) (parent : Option ℕ) (exclusive : Bool) (now : ℕ) :
    Except Failure ℕ×HTTP2StreamManager :=
  if self.maxConcurrentStreams ≤ self.concurrentStreams then (.error .maxStreamsExceeded,self)
  else
    let priority := self.nextPriority
    let self := self.register streamId (.init streamId weight parent exclusive now)
    match self.parentNode parent with
    | some a =>
      match attach self streamId priority a with
      | some self => (.ok priority,self)
      | none => (.error .trap,self)
    | none => (.error .trap,(self.initNode streamId priority none).elim self Prod.snd)

/-- The removal from the current parent in `updateStreamPriority` and `closeStream`. -/
def removeFrom (self : HTTP2StreamManager) (parent : Option ℕ) (streamId : ℕ) : HTTP2StreamManager :=
  match parent.bind self.findDependencyNode with
  | some a => (self.removeChild a streamId).2
  | none => self

def updateStreamPriority (self : HTTP2StreamManager) (streamId newWeight : ℕ) (newParent : Option ℕ)
    (exclusive : Bool) : Except Failure Unit×HTTP2StreamManager :=
  match self.streams.lookup streamId with
  | none => (.error .streamNotFound,self)
  | some addr =>
    match self.priorities addr with
    | none => (.error .trap,self)
    | some priority =>
      let self := self.removeFrom priority.parentStreamId streamId
      let self := self.modifyPriority addr fun p =>
        { p with weight := newWeight, parentStreamId := newParent, exclusive := exclusive }
      match self.parentNode newParent with
      | some a =>
        match attach self streamId addr a with
        | some self => (.ok (),self)
        | none => (.error .trap,self)
      | none => (.ok (),self)

/-- The part of `closeStream` after the tree. -/
def release (self : HTTP2StreamManager) (streamId addr : ℕ) : HTTP2StreamManager :=
  { self with
    streams := self.streams.erase streamId
    concurrentStreams := self.concurrentStreams-1
    priorities := Function.update self.priorities addr none }

def closeStream (self : HTTP2StreamManager) (streamId : ℕ) : Except Failure Unit×HTTP2StreamManager :=
  match self.streams.lookup streamId with
  | none => (.error .streamNotFound,self)
  | some addr =>
    match self.priorities addr with
    | none => (.error .trap,self)
    | some priority => (.ok (),(self.removeFrom priority.parentStreamId streamId).release streamId addr)

/-- The condition under which `cleanup` closes a stream. -/
def isIdle (now : ℕ) (p : HTTP2StreamPriority) : Bool :=
  decide (now-p.lastActivity > idleThreshold) && decide (p.sendWindow = 0) && decide (p.bufferedData = 0)

/-- The loop of `cleanup` over the priorities of the streams. -/
def idleStreams (self : HTTP2StreamManager) (now : ℕ) : List ℕ → Except Failure (List ℕ)
  | [] => .ok []
  | key::keys => do
    let priority ← match (self.streams.lookup key).bind self.priorities with
      | some priority => .ok priority
      | none => .error .trap
    let toClose ← self.idleStreams now keys
    pure (if isIdle now priority then priority.streamId::toClose else toClose)

def closeAll (self : HTTP2StreamManager) : List ℕ → Except Failure Unit×HTTP2StreamManager
  | [] => (.ok (),self)
  | streamId::toClose =>
    match self.closeStream streamId with
    | (.ok (),self) => self.closeAll toClose
    | (.error e,self) => (.error e,self)

def cleanup (self : HTTP2StreamManager) (now : ℕ) (order : IterationOrder) : Except Failure Unit×HTTP2StreamManager :=
  match self.idleStreams now (order self.streams.keys).1 with
  | .ok toClose => self.closeAll toClose
  | .error e => (.error e,self)

/-- A change that the holder of the priority of a stream makes. -/
def change (self : HTTP2StreamManager) (streamId : ℕ) (c : Change) : HTTP2StreamManager :=
  match self.streams.lookup streamId with
  | some addr => self.modifyPriority addr c.apply
  | none => self

end HTTP2StreamManager

inductive Call
  | createStream (streamId weight : ℕ) (parent : Option ℕ) (exclusive : Bool) (now : ℕ)
  | updateStreamPriority (streamId newWeight : ℕ) (newParent : Option ℕ) (exclusive : Bool)
  | closeStream (streamId : ℕ)
  | cleanup (now : ℕ) (order : IterationOrder)
  | change (streamId : ℕ) (c : Change)

def perform (s : HTTP2StreamManager) : Call → Except Failure Unit×HTTP2StreamManager
  | .createStream streamId weight parent exclusive now =>
    let (result,s) := s.createStream streamId weight parent exclusive now
    (result.map fun _ => (),s)
  | .updateStreamPriority streamId newWeight newParent exclusive =>
    s.updateStreamPriority streamId newWeight newParent exclusive
  | .closeStream streamId => s.closeStream streamId
  | .cleanup now order => s.cleanup now order
  | .change streamId c => (.ok (),s.change streamId c)

def step (s : HTTP2StreamManager) (call : Call) : HTTP2StreamManager := (perform s call).2

section Memory

variable {s : HTTP2StreamManager} {a c id addr : ℕ} {parent : Option ℕ}

theorem wellFormed_init (maxConcurrentStreams now : ℕ) :
    WellFormed (HTTP2StreamManager.init maxConcurrentStreams now) where
  linked := by
    refine ⟨fun a c => ⟨fun h => ?_,fun h => ?_⟩,fun a c h => ?_,fun a => List.Pairwise.nil⟩
    all_goals cases h
  plain _ := ⟨rfl,rfl⟩
  unallocated _ _ := ⟨rfl,rfl⟩
  root := ⟨Nat.zero_lt_one,rfl⟩
  owned _ _ h := by cases h

/-- The tree that a state has depends on its nodes alone. -/
theorem lists_congr {s' : HTTP2StreamManager} (hnodes : s'.nodes = s.nodes) : s'.lists = s.lists := by
  funext a
  rw [HTTP2StreamManager.lists,hnodes]
  rfl

theorem findDependencyNode_congr {s' : HTTP2StreamManager} (hnodes : s'.nodes = s.nodes)
    (hnext : s'.nextNode = s.nextNode) (id : ℕ) : s'.findDependencyNode id = s.findDependencyNode id := by
  rw [HTTP2StreamManager.findDependencyNode,findNodeRecursive_eq,HTTP2StreamManager.findDependencyNode,
    findNodeRecursive_eq,lists_congr hnodes,hnodes,hnext]

theorem parentNode_congr {s' : HTTP2StreamManager} (hnodes : s'.nodes = s.nodes)
    (hnext : s'.nextNode = s.nextNode) (parent : Option ℕ) : s'.parentNode parent = s.parentNode parent := by
  cases parent with
  | none => rfl
  | some parentId =>
    rw [HTTP2StreamManager.parentNode,HTTP2StreamManager.parentNode,findDependencyNode_congr hnodes hnext]

theorem parentNode_some (hparent : s.parentNode parent = some a) :
    InTree s a ∧ ((parent.getD 0 = 0 ∧ a = 0) ∨ parent.getD 0 ≠ 0 ∧ (s.nodes a).streamId = parent.getD 0) := by
  cases parent with
  | none =>
    cases hparent
    exact ⟨.refl,Or.inl ⟨rfl,rfl⟩⟩
  | some parentId =>
    rw [HTTP2StreamManager.parentNode] at hparent
    split at hparent
    · rename_i hzero
      cases hparent
      exact ⟨.refl,Or.inl ⟨hzero,rfl⟩⟩
    · rename_i hzero
      obtain ⟨ha,hid⟩ := find_some hparent
      exact ⟨ha,Or.inr ⟨hzero,hid⟩⟩

theorem WellFormed.parentNode_lt (h : WellFormed s) (hparent : s.parentNode parent = some a) : a < s.nextNode :=
  h.inTree_lt (parentNode_some hparent).1

theorem WellFormed.modifyPriority (h : WellFormed s) (addr : ℕ) {f : HTTP2StreamPriority → HTTP2StreamPriority}
    (hf : ∀ p, (f p).streamId = p.streamId) : WellFormed (s.modifyPriority addr f) where
  linked := h.linked
  plain := h.plain
  unallocated := h.unallocated
  root := h.root
  owned id' addr' hlookup := by
    obtain ⟨hlt,p,hp,hid⟩ := h.owned id' addr' hlookup
    refine ⟨hlt,?_⟩
    by_cases heq : addr' = addr
    · subst heq
      exact ⟨f p,by simp [HTTP2StreamManager.modifyPriority,hp],(hf p).trans hid⟩
    · exact ⟨p,by simp [HTTP2StreamManager.modifyPriority,heq,hp],hid⟩

theorem WellFormed.register (h : WellFormed s) {p : HTTP2StreamPriority} (hid : p.streamId = id) :
    WellFormed (s.register id p) where
  linked := h.linked
  plain := h.plain
  unallocated := h.unallocated
  root := h.root
  owned id' addr' hlookup := by
    by_cases heq : id' = id
    · subst heq
      rw [HTTP2StreamManager.register,AList.lookup_insert,Option.some.injEq] at hlookup
      subst hlookup
      exact ⟨Nat.lt_succ_self _,p,by simp [HTTP2StreamManager.register],hid⟩
    · rw [HTTP2StreamManager.register,AList.lookup_insert_ne heq] at hlookup
      obtain ⟨hlt,p',hp',hid'⟩ := h.owned id' addr' hlookup
      have hne : addr' ≠ s.nextPriority := by omega
      exact ⟨Nat.lt_succ_of_lt hlt,p',by simp [HTTP2StreamManager.register,hne,hp'],hid'⟩

/-- No two streams share a priority. -/
theorem WellFormed.addr_injective (h : WellFormed s) {id' : ℕ} (hid : s.streams.lookup id = some addr)
    (hid' : s.streams.lookup id' = some addr) : id = id' := by
  obtain ⟨-,p,hp,rfl⟩ := h.owned id addr hid
  obtain ⟨-,p',hp',rfl⟩ := h.owned id' addr hid'
  rw [hp,Option.some.injEq] at hp'
  rw [hp']

/-- A stream that there is has one priority. -/
theorem forall_priority {p : HTTP2StreamPriority} (hlookup : s.streams.lookup id = some addr)
    (hp : s.priorities addr = some p) {P : HTTP2StreamPriority → Prop} :
    (∀ addr p, s.streams.lookup id = some addr → s.priorities addr = some p → P p) ↔ P p := by
  constructor
  · exact fun h => h addr p hlookup hp
  · intro h addr' p' hlookup' hp'
    obtain rfl : addr = addr' := Option.some.inj (hlookup.symm.trans hlookup')
    obtain rfl : p = p' := Option.some.inj (hp.symm.trans hp')
    exact h

theorem forall_priority_unknown (hlookup : s.streams.lookup id = none) {P : HTTP2StreamPriority → Prop}
    (addr : ℕ) (p : HTTP2StreamPriority) (hknown : s.streams.lookup id = some addr)
    (_hp : s.priorities addr = some p) : P p := by
  rw [hlookup] at hknown
  cases hknown

theorem WellFormed.release (h : WellFormed s) (hlookup : s.streams.lookup id = some addr) :
    WellFormed (s.release id addr) where
  linked := h.linked
  plain := h.plain
  unallocated := h.unallocated
  root := h.root
  owned id' addr' hlookup' := by
    obtain ⟨hid',hbefore⟩ := lookup_of_erase hlookup'
    obtain ⟨hlt,p,hp,hid⟩ := h.owned id' addr' hbefore
    have hne : addr' ≠ addr := by
      rintro rfl
      exact hid' (h.addr_injective hbefore hlookup)
    exact ⟨hlt,p,by simp [HTTP2StreamManager.release,hne,hp],hid⟩

/-- The removal drops a child for the stream, or finds none to drop. -/
theorem WellFormed.removeFrom_cases (h : WellFormed s) (parent : Option ℕ) (id : ℕ) :
    (∃ a c, parent.bind s.findDependencyNode = some a ∧ childFor s a id = some c ∧
      s.removeFrom parent id = detached s a c) ∨
    s.removeFrom parent id = s := by
  rw [HTTP2StreamManager.removeFrom]
  cases hfind : parent.bind s.findDependencyNode with
  | none => exact Or.inr rfl
  | some a =>
    simp only [h.removeChild_eq]
    cases hchild : childFor s a id with
    | none => exact Or.inr rfl
    | some c => exact Or.inl ⟨a,c,rfl,hchild,rfl⟩

theorem WellFormed.removeFrom (h : WellFormed s) (parent : Option ℕ) (id : ℕ) :
    WellFormed (s.removeFrom parent id) := by
  rcases h.removeFrom_cases parent id with ⟨a,c,-,hchild,heq⟩ | heq
  · rw [heq]
    exact h.of_detached (childFor_some hchild).1
  · rw [heq]
    exact h

/-- The removal leaves everything but the nodes as it is. -/
theorem WellFormed.removeFrom_frame (h : WellFormed s) (parent : Option ℕ) (id : ℕ) :
    (s.removeFrom parent id).streams = s.streams ∧ (s.removeFrom parent id).priorities = s.priorities ∧
    (s.removeFrom parent id).concurrentStreams = s.concurrentStreams ∧
    (s.removeFrom parent id).maxConcurrentStreams = s.maxConcurrentStreams ∧
    (s.removeFrom parent id).nextNode = s.nextNode := by
  rcases h.removeFrom_cases parent id with ⟨a,c,-,hchild,heq⟩ | heq
  · rw [heq]
    exact ⟨rfl,rfl,rfl,rfl,rfl⟩
  · rw [heq]
    exact ⟨rfl,rfl,rfl,rfl,rfl⟩

theorem WellFormed.inTree_removeFrom (h : WellFormed s) {x : ℕ} (hx : InTree (s.removeFrom parent id) x) :
    InTree s x ∧ ((s.removeFrom parent id).nodes x).streamId = (s.nodes x).streamId := by
  rcases h.removeFrom_cases parent id with ⟨a,c,-,hchild,heq⟩ | heq
  · rw [heq] at hx ⊢
    exact ⟨((h.inTree_detached (childFor_some hchild).1 x).mp hx).1,(h.streamId_detached (childFor_some hchild).1 x).1⟩
  · rw [heq] at hx ⊢
    exact ⟨hx,rfl⟩

theorem parentNode_none (hparent : s.parentNode parent = none) :
    ∃ q, parent = some q ∧ q ≠ 0 ∧ s.findDependencyNode q = none := by
  cases parent with
  | none => cases hparent
  | some q =>
    rw [HTTP2StreamManager.parentNode] at hparent
    split at hparent
    · cases hparent
    · rename_i hzero
      exact ⟨q,rfl,hzero,hparent⟩

/-- A parent that is not in the tree is not after a removal. -/
theorem WellFormed.parentNode_removeFrom (h : WellFormed s) {newParent : Option ℕ}
    (hparent : s.parentNode newParent = none) : (s.removeFrom parent id).parentNode newParent = none := by
  obtain ⟨q,rfl,hq,hfind⟩ := parentNode_none hparent
  rw [HTTP2StreamManager.parentNode,if_neg hq]
  cases hfind' : (s.removeFrom parent id).findDependencyNode q with
  | none => rfl
  | some a =>
    obtain ⟨ha,hid⟩ := find_some hfind'
    obtain ⟨ha',hid'⟩ := h.inTree_removeFrom ha
    exact (h.find_none hfind ha' (hid'.symm.trans hid)).elim

section Cases

/-- What `createStream` can do. -/
theorem WellFormed.createStream_cases (h : WellFormed s) (id weight : ℕ) (parent : Option ℕ) (exclusive : Bool)
    (now : ℕ) :
    (s.maxConcurrentStreams ≤ s.concurrentStreams ∧
      s.createStream id weight parent exclusive now = (.error .maxStreamsExceeded,s)) ∨
    (s.concurrentStreams < s.maxConcurrentStreams ∧
      (∀ a, s.parentNode parent = some a → 65536 ≤ s.dependencyDepth (some a)) ∧
      ∃ s', s.createStream id weight parent exclusive now = (.error .trap,s')) ∨
    (s.concurrentStreams < s.maxConcurrentStreams ∧ ∃ a, s.parentNode parent = some a ∧
      s.dependencyDepth (some a) < 65536 ∧ s.createStream id weight parent exclusive now = (.ok s.nextPriority,
        attached (s.register id (.init id weight parent exclusive now)) id s.nextPriority a)) := by
  by_cases hlimit : s.maxConcurrentStreams ≤ s.concurrentStreams
  · exact Or.inl ⟨hlimit,by rw [HTTP2StreamManager.createStream,if_pos hlimit]⟩
  · have hroom : s.concurrentStreams < s.maxConcurrentStreams := by omega
    refine Or.inr ?_
    have hsame : (s.register id (.init id weight parent exclusive now)).parentNode parent = s.parentNode parent := by
      apply parentNode_congr
      · rfl
      · rfl
    rw [HTTP2StreamManager.createStream,if_neg hlimit]
    simp only [hsame]
    cases hparent : s.parentNode parent with
    | none =>
      refine Or.inl ⟨hroom,?_,_,rfl⟩
      intro a ha
      cases ha
    | some a =>
      have hlt : a < (s.register id (.init id weight parent exclusive now)).nextNode := h.parentNode_lt hparent
      simp only [attach_eq hlt]
      by_cases hdepth : s.dependencyDepth (some a) < 65536
      · refine Or.inr ⟨hroom,a,rfl,hdepth,?_⟩
        have hdepth' : (s.register id (.init id weight parent exclusive now)).dependencyDepth (some a) < 65536 := hdepth
        rw [if_pos hdepth']
      · refine Or.inl ⟨hroom,?_,s.register id (.init id weight parent exclusive now),?_⟩
        · rintro a' ⟨⟩
          omega
        · have hdepth' : ¬(s.register id (.init id weight parent exclusive now)).dependencyDepth (some a) < 65536 :=
            hdepth
          rw [if_neg hdepth']

/-- A stream's priority and its old place after the first part of `updateStreamPriority`. -/
def replaced (s : HTTP2StreamManager) (p : HTTP2StreamPriority) (addr id newWeight : ℕ) (newParent : Option ℕ)
    (exclusive : Bool) : HTTP2StreamManager :=
  (s.removeFrom p.parentStreamId id).modifyPriority addr fun p =>
    { p with weight := newWeight, parentStreamId := newParent, exclusive := exclusive }

theorem WellFormed.of_replaced (h : WellFormed s) (p : HTTP2StreamPriority) (addr id newWeight : ℕ)
    (newParent : Option ℕ) (exclusive : Bool) : WellFormed (replaced s p addr id newWeight newParent exclusive) :=
  (h.removeFrom p.parentStreamId id).modifyPriority addr fun _ => rfl

/-- What `updateStreamPriority` can do for a stream that there is. -/
theorem WellFormed.updateStreamPriority_cases (h : WellFormed s) {p : HTTP2StreamPriority}
    (hlookup : s.streams.lookup id = some addr) (hp : s.priorities addr = some p) (newWeight : ℕ)
    (newParent : Option ℕ) (exclusive : Bool) :
    ((s.removeFrom p.parentStreamId id).parentNode newParent = none ∧
      s.updateStreamPriority id newWeight newParent exclusive =
        (.ok (),replaced s p addr id newWeight newParent exclusive)) ∨
    (∃ a, (s.removeFrom p.parentStreamId id).parentNode newParent = some a ∧
      65536 ≤ (s.removeFrom p.parentStreamId id).dependencyDepth (some a) ∧
      s.updateStreamPriority id newWeight newParent exclusive =
        (.error .trap,replaced s p addr id newWeight newParent exclusive)) ∨
    (∃ a, (s.removeFrom p.parentStreamId id).parentNode newParent = some a ∧
      (s.removeFrom p.parentStreamId id).dependencyDepth (some a) < 65536 ∧
      s.updateStreamPriority id newWeight newParent exclusive =
        (.ok (),attached (replaced s p addr id newWeight newParent exclusive) id addr a)) := by
  have hsame : (replaced s p addr id newWeight newParent exclusive).parentNode newParent =
      (s.removeFrom p.parentStreamId id).parentNode newParent := by
    apply parentNode_congr
    · rfl
    · rfl
  have hupdate : s.updateStreamPriority id newWeight newParent exclusive =
      match (replaced s p addr id newWeight newParent exclusive).parentNode newParent with
      | some a =>
        match attach (replaced s p addr id newWeight newParent exclusive) id addr a with
        | some s => (.ok (),s)
        | none => (.error .trap,replaced s p addr id newWeight newParent exclusive)
      | none => (.ok (),replaced s p addr id newWeight newParent exclusive) := by
    rw [HTTP2StreamManager.updateStreamPriority]
    simp only [hlookup,hp]
    rfl
  rw [hupdate,hsame]
  cases hparent : (s.removeFrom p.parentStreamId id).parentNode newParent with
  | none => exact Or.inl ⟨rfl,rfl⟩
  | some a =>
    refine Or.inr ?_
    have hlt : a < (replaced s p addr id newWeight newParent exclusive).nextNode :=
      (h.removeFrom p.parentStreamId id).parentNode_lt hparent
    simp only [attach_eq hlt]
    by_cases hdepth : (s.removeFrom p.parentStreamId id).dependencyDepth (some a) < 65536
    · refine Or.inr ⟨a,rfl,hdepth,?_⟩
      have hdepth' : (replaced s p addr id newWeight newParent exclusive).dependencyDepth
          (some a) < 65536 := hdepth
      rw [if_pos hdepth']
    · refine Or.inl ⟨a,rfl,by omega,?_⟩
      have hdepth' : ¬(replaced s p addr id newWeight newParent exclusive).dependencyDepth
          (some a) < 65536 := hdepth
      rw [if_neg hdepth']

theorem updateStreamPriority_unknown (hlookup : s.streams.lookup id = none) (newWeight : ℕ) (newParent : Option ℕ)
    (exclusive : Bool) :
    s.updateStreamPriority id newWeight newParent exclusive = (.error .streamNotFound,s) := by
  rw [HTTP2StreamManager.updateStreamPriority]
  simp only [hlookup]

theorem closeStream_unknown (hlookup : s.streams.lookup id = none) :
    s.closeStream id = (.error .streamNotFound,s) := by
  rw [HTTP2StreamManager.closeStream]
  simp only [hlookup]

theorem closeStream_eq {p : HTTP2StreamPriority} (hlookup : s.streams.lookup id = some addr)
    (hp : s.priorities addr = some p) :
    s.closeStream id = (.ok (),(s.removeFrom p.parentStreamId id).release id addr) := by
  rw [HTTP2StreamManager.closeStream]
  simp only [hlookup,hp]

theorem WellFormed.closeStream (h : WellFormed s) (id : ℕ) : WellFormed (s.closeStream id).2 := by
  cases hlookup : s.streams.lookup id with
  | none =>
    rw [closeStream_unknown hlookup]
    exact h
  | some addr =>
    obtain ⟨-,p,hp,-⟩ := h.owned id addr hlookup
    rw [closeStream_eq hlookup hp]
    refine (h.removeFrom p.parentStreamId id).release ?_
    rw [(h.removeFrom_frame p.parentStreamId id).1]
    exact hlookup

theorem WellFormed.change (h : WellFormed s) (id : ℕ) (c : Change) : WellFormed (s.change id c) := by
  rw [HTTP2StreamManager.change]
  split
  · exact h.modifyPriority _ c.streamId
  · exact h

theorem WellFormed.closeAll (h : WellFormed s) (ids : List ℕ) : WellFormed (s.closeAll ids).2 := by
  induction ids generalizing s with
  | nil => exact h
  | cons id ids ih =>
    have hclose := h.closeStream id
    rw [HTTP2StreamManager.closeAll]
    split
    · rename_i hresult
      rw [hresult] at hclose
      exact ih hclose
    · rename_i hresult
      rw [hresult] at hclose
      exact hclose

/-- A call that returns leaves the memory well formed, be it with an error. -/
theorem WellFormed.step (h : WellFormed s) (call : Call) (hreturns : (perform s call).1 ≠ .error .trap) :
    WellFormed (step s call) := by
  cases call with
  | createStream streamId weight parent exclusive now =>
    rw [perform] at hreturns
    rw [Prioritization.step,perform]
    rcases h.createStream_cases streamId weight parent exclusive now with
      ⟨-,hcreate⟩ | ⟨-,-,s',hcreate⟩ | ⟨-,a,ha,-,hcreate⟩
    · rw [hcreate]
      exact h
    · rw [hcreate] at hreturns
      exact (hreturns rfl).elim
    · rw [hcreate]
      exact (h.register rfl).of_attached (h.parentNode_lt ha)
  | updateStreamPriority streamId newWeight newParent exclusive =>
    rw [Prioritization.step,perform]
    cases hlookup : s.streams.lookup streamId with
    | none =>
      rw [updateStreamPriority_unknown hlookup]
      exact h
    | some addr =>
      obtain ⟨-,p,hp,-⟩ := h.owned streamId addr hlookup
      have hreplaced := h.of_replaced p addr streamId newWeight newParent exclusive
      rcases h.updateStreamPriority_cases hlookup hp newWeight newParent exclusive with
        ⟨-,hupdate⟩ | ⟨a,-,-,hupdate⟩ | ⟨a,ha,-,hupdate⟩
      · rw [hupdate]
        exact hreplaced
      · rw [hupdate]
        exact hreplaced
      · rw [hupdate]
        exact hreplaced.of_attached ((h.removeFrom p.parentStreamId streamId).parentNode_lt ha)
  | closeStream streamId => exact h.closeStream streamId
  | cleanup now order =>
    rw [Prioritization.step,perform,HTTP2StreamManager.cleanup]
    split
    · exact h.closeAll _
    · exact h
  | change streamId c => exact h.change streamId c

end Cases

end Memory

end ZNet.Prioritization
