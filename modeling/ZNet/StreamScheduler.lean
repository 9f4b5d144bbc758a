import ZNet.StreamPlaces
import ZNet.WeightedChoice
import ZNet.Runs

/-!
# The selection of the next stream

`getNextStream` chooses among the children of the root that are not blocked, each with
the weight of its subtree. It does not look further down for streams that could be served.
-/

namespace ZNet.Prioritization
open LinkedForest Runs WeightedChoice

/-- Integer types are bounded, and a value beyond the bound traps. -/
def checked (bound n : ℕ) : Except Failure ℕ := if n < bound then .ok n else .error .trap

def HTTP2StreamPriority.computeEffectiveWeight (self : HTTP2StreamPriority) : Except Failure ℕ := do
  let effectiveWeight := match self.parentStreamId with
    | some _ => max 1 (self.weight-self.weight/4)
    | none => self.weight
  let effectiveWeight ← match self.priorityClass with
    | .critical => (checked 256 (effectiveWeight*4)).map (min 255)
    | .high => (checked 256 (effectiveWeight*2)).map (min 255)
    | .low => .ok (max 1 (effectiveWeight/2))
    | .background => .ok (max 1 (effectiveWeight/4))
    | .normal => .ok effectiveWeight
  checked 256 effectiveWeight

/-- The loops over weights: a `u32` takes the sum. -/
def addWeights (weigh : ℕ → Except Failure ℕ) (total : ℕ) : List ℕ → Except Failure ℕ
  | [] => .ok total
  | child::rest => do
    let weight ← weigh child
    let total ← checked 4294967296 (total+weight)
    addWeights weigh total rest

namespace HTTP2StreamManager

/-- A priority that has been freed cannot be read. -/
def priorityOf (self : HTTP2StreamManager) (a : ℕ) : Except Failure HTTP2StreamPriority :=
  match self.priorities (self.nodes a).priority with
  | some priority => .ok priority
  | none => .error .trap

/-- The loops of `getActiveChildren`. -/
def unblocked (self : HTTP2StreamManager) : List ℕ → Except Failure (List ℕ)
  | [] => .ok []
  | child::rest => do
    let priority ← self.priorityOf child
    let active ← self.unblocked rest
    .ok (if priority.isBlocked then active else child::active)

def getActiveChildren (self : HTTP2StreamManager) (a : ℕ) : Except Failure (List ℕ) :=
  self.unblocked ((self.nodes a).exclusiveChildren++(self.nodes a).children)

/-- The recursion goes down the tree, at most as deep as there are nodes. -/
def computeSubtreeWeight (self : HTTP2StreamManager) : ℕ → ℕ → Except Failure ℕ
  | 0,_ => .error .trap
  | fuel+1,a => do
    let priority ← self.priorityOf a
    let total ← priority.computeEffectiveWeight
    let total ← addWeights (self.computeSubtreeWeight fuel) total (self.nodes a).exclusiveChildren
    addWeights (fun child => (self.computeSubtreeWeight fuel child).map (·/max 1 (self.nodes a).children.length)) total
      (self.nodes a).children

/-- The loop that takes the weights off the random number. -/
def selectChild (self : HTTP2StreamManager) (randomWeight : ℕ) : List ℕ → Except Failure (Option ℕ)
  | [] => .ok none
  | child::rest => do
    let childWeight ← self.computeSubtreeWeight self.nextNode child
    if randomWeight < childWeight then .ok (some child) else self.selectChild (randomWeight-childWeight) rest

/-- The address of a priority. The random number is the time in milliseconds. -/
def selectNextStream (self : HTTP2StreamManager) (milliTimestamp : ℕ) : Except Failure (Option ℕ) := do
  match ← self.getActiveChildren 0 with
  | [] => .ok none
  | first::rest =>
    let totalWeight ← addWeights (self.computeSubtreeWeight self.nextNode) 0 (first::rest)
    if totalWeight = 0 then .ok (some (self.nodes first).priority)
    else
      let child ← self.selectChild (milliTimestamp%totalWeight) (first::rest)
      .ok (some (self.nodes (child.getD first)).priority)

def getNextStream (self : HTTP2StreamManager) (milliTimestamp : ℕ) : Except Failure (Option ℕ) :=
  self.selectNextStream milliTimestamp

end HTTP2StreamManager

/-- The weight that the class of the stream gives it, without a bound. -/
def HTTP2StreamPriority.scaledWeight (self : HTTP2StreamPriority) : ℕ :=
  let effectiveWeight := match self.parentStreamId with
    | some _ => max 1 (self.weight-self.weight/4)
    | none => self.weight
  match self.priorityClass with
  | .critical => effectiveWeight*4
  | .high => effectiveWeight*2
  | .normal => effectiveWeight
  | .low => max 1 (effectiveWeight/2)
  | .background => max 1 (effectiveWeight/4)

/-- The weight of the subtree at `a`, without a bound. -/
def share (s : HTTP2StreamManager) (a : ℕ) : ℕ :=
  fold s.lists (fun a shares => ((s.priorities (s.nodes a).priority).elim 0 HTTP2StreamPriority.scaledWeight)+
    (shares.map (·/max 1 shares.length)).sum) s.nextNode a

/-- The priority of the node can be read and the bounds of the weights are kept. -/
def Weighable (s : HTTP2StreamManager) (a : ℕ) : Prop :=
  (∃ p, s.priorities (s.nodes a).priority = some p ∧ p.scaledWeight < 256) ∧ share s a < 4294967296

/-- The node is for a stream that is not blocked. -/
def isReady (s : HTTP2StreamManager) (a : ℕ) : Bool := (s.priorities (s.nodes a).priority).any fun p => !p.isBlocked

/-- The children of the root among which the next stream is chosen. -/
def candidates (s : HTTP2StreamManager) : List ℕ := (s.lists 0).filter (isReady s)

/-- There is a choice, and what has to be read and added up for it can be. -/
structure Weighed (s : HTTP2StreamManager) : Prop where
  allocated : ∀ c ∈ s.lists 0, ∃ p, s.priorities (s.nodes c).priority = some p
  ready : candidates s ≠ []
  weighable : ∀ c ∈ candidates s, ∀ x, Reach s.lists c x → Weighable s x
  total : ((candidates s).map (share s)).sum < 4294967296

/-- Of the candidates those of positive weight are chosen at some time, and the first one
if there are none. -/
def Selectable (s : HTTP2StreamManager) (c : ℕ) : Prop :=
  c ∈ candidates s ∧
    (0 < share s c ∨ (candidates s).head? = some c ∧ ((candidates s).map (share s)).sum = 0)

section Weights

variable {s : HTTP2StreamManager} {a c w fuel : ℕ}

theorem bind_ok {α β : Type} {x : Except Failure α} {f : α → Except Failure β} {b : β} :
    (x >>= f) = .ok b ↔ ∃ a, x = .ok a ∧ f a = .ok b := by
  cases x with
  | error e => simp [bind,Except.bind]
  | ok a => simp [bind,Except.bind]

theorem checked_ok {bound n m : ℕ} : checked bound n = .ok m ↔ n < bound ∧ m = n := by
  rw [checked]
  split
  · rename_i hlt
    simp [hlt,eq_comm]
  · rename_i hge
    simp [hge]

theorem clamped_eq (n : ℕ) : ((checked 256 n).map (min 255) >>= checked 256) = checked 256 n := by
  rw [checked]
  split
  · rename_i hlt
    have hmin : min 255 n = n := by omega
    simp [Except.map,bind,Except.bind,checked,hmin,hlt]
  · rfl

/-- The limit of a weight at 255 comes too late: the product has trapped before. -/
theorem computeEffectiveWeight_eq (p : HTTP2StreamPriority) : p.computeEffectiveWeight = checked 256 p.scaledWeight := by
  rw [HTTP2StreamPriority.computeEffectiveWeight,HTTP2StreamPriority.scaledWeight]
  cases p.priorityClass with
  | critical => exact clamped_eq _
  | high => exact clamped_eq _
  | normal => rfl
  | low => rfl
  | background => rfl

theorem addWeights_ok {weigh : ℕ → Except Failure ℕ} {P : ℕ → Prop} {g : ℕ → ℕ} {cs : List ℕ}
    (hweigh : ∀ c ∈ cs, ∀ w, weigh c = .ok w ↔ P c ∧ w = g c) {total : ℕ} (htotal : total < 4294967296) :
    addWeights weigh total cs = .ok w ↔
      (∀ c ∈ cs, P c) ∧ total+(cs.map g).sum < 4294967296 ∧ w = total+(cs.map g).sum := by
  induction cs generalizing total with
  | nil =>
    rw [addWeights]
    simp [htotal,eq_comm]
  | cons c cs ih =>
    obtain ⟨hc,hcs⟩ := List.forall_mem_cons.mp hweigh
    rw [addWeights,bind_ok,List.forall_mem_cons,List.map_cons,List.sum_cons,← Nat.add_assoc]
    constructor
    · rintro ⟨w',hw',hrest⟩
      obtain ⟨hp,rfl⟩ := (hc w').mp hw'
      obtain ⟨total',htotal',hrest⟩ := bind_ok.mp hrest
      obtain ⟨hlt,rfl⟩ := checked_ok.mp htotal'
      obtain ⟨hps,hsum,rfl⟩ := (ih hcs hlt).mp hrest
      exact ⟨⟨hp,hps⟩,hsum,rfl⟩
    · rintro ⟨⟨hp,hps⟩,hsum,rfl⟩
      have hlt : total+g c < 4294967296 := by omega
      refine ⟨g c,(hc (g c)).mpr ⟨hp,rfl⟩,bind_ok.mpr ⟨total+g c,checked_ok.mpr ⟨hlt,rfl⟩,?_⟩⟩
      exact (ih hcs hlt).mpr ⟨hps,hsum,rfl⟩

theorem priorityOf_ok {p : HTTP2StreamPriority} :
    s.priorityOf a = .ok p ↔ s.priorities (s.nodes a).priority = some p := by
  rw [HTTP2StreamManager.priorityOf]
  cases s.priorities (s.nodes a).priority with
  | none => simp
  | some p' => simp

theorem map_ok {α β : Type} {x : Except Failure α} {f : α → β} {b : β} :
    x.map f = .ok b ↔ ∃ a, x = .ok a ∧ f a = b := by
  cases x with
  | error e => simp [Except.map]
  | ok a => simp [Except.map]

theorem share_eq (h : WellFormed s) (ha : a < s.nextNode) :
    share s a = ((s.priorities (s.nodes a).priority).elim 0 HTTP2StreamPriority.scaledWeight)+
      ((s.lists a).map fun c => share s c/max 1 (s.lists a).length).sum := by
  rw [share,h.linked.fold_eq (fun _ _ hmem => h.lt_nextNode hmem) ha,List.map_map,List.length_map]
  rfl

/-- The weight of a subtree is computed exactly if no bound is passed below its node. -/
theorem computeSubtreeWeight_ok (h : WellFormed s) (ha : a < s.nextNode) (hfuel : s.nextNode ≤ a+fuel) :
    s.computeSubtreeWeight fuel a = .ok w ↔ (∀ x, Reach s.lists a x → Weighable s x) ∧ w = share s a := by
  induction fuel generalizing a w with
  | zero => omega
  | succ fuel ih =>
    have hlists : s.lists a = (s.nodes a).children := by
      rw [HTTP2StreamManager.lists,(h.plain a).1,List.append_nil]
    have hreach : (∀ x, Reach s.lists a x → Weighable s x) ↔
        Weighable s a ∧ ∀ c ∈ s.lists a, ∀ x, Reach s.lists c x → Weighable s x := by
      constructor
      · exact fun hall => ⟨hall a .refl,fun c hc x hx => hall x (.head hc hx)⟩
      · rintro ⟨hself,hbelow⟩ x hx
        rcases Relation.ReflTransGen.cases_head hx with rfl | ⟨c,hc,hx⟩
        · exact hself
        · exact hbelow c hc x hx
    have hchild : ∀ c ∈ s.lists a, ∀ w,
        (s.computeSubtreeWeight fuel c).map (·/max 1 (s.lists a).length) = .ok w ↔
          (∀ x, Reach s.lists c x → Weighable s x) ∧ w = share s c/max 1 (s.lists a).length := by
      intro c hc w
      have hlt := h.linked.lt a c hc
      rw [map_ok]
      constructor
      · rintro ⟨w',hw',rfl⟩
        obtain ⟨hall,rfl⟩ := (ih (h.lt_nextNode hc) (by omega)).mp hw'
        exact ⟨hall,rfl⟩
      · rintro ⟨hall,rfl⟩
        exact ⟨share s c,(ih (h.lt_nextNode hc) (by omega)).mpr ⟨hall,rfl⟩,rfl⟩
    rw [HTTP2StreamManager.computeSubtreeWeight,(h.plain a).1,← hlists,hreach,Weighable,share_eq h ha,bind_ok]
    simp only [bind_ok,priorityOf_ok,computeEffectiveWeight_eq,checked_ok]
    constructor
    · rintro ⟨p,hp,_,⟨hfits,rfl⟩,_,htotal,hsum⟩
      cases htotal
      obtain ⟨hbelow,hlt,rfl⟩ := (addWeights_ok hchild (by omega)).mp hsum
      rw [hp,Option.elim_some]
      exact ⟨⟨⟨⟨p,rfl,hfits⟩,hlt⟩,hbelow⟩,rfl⟩
    · rintro ⟨⟨⟨⟨p,hp,hfits⟩,hlt⟩,hbelow⟩,rfl⟩
      rw [hp,Option.elim_some] at hlt ⊢
      exact ⟨p,rfl,_,⟨hfits,rfl⟩,_,rfl,(addWeights_ok hchild (by omega)).mpr ⟨hbelow,hlt,rfl⟩⟩

end Weights

section Selection

variable {s : HTTP2StreamManager} {c addr : ℕ}

theorem unblocked_ok {cs active : List ℕ} :
    s.unblocked cs = .ok active ↔
      (∀ c ∈ cs, ∃ p, s.priorities (s.nodes c).priority = some p) ∧ active = cs.filter (isReady s) := by
  induction cs generalizing active with
  | nil => simp [HTTP2StreamManager.unblocked,eq_comm]
  | cons c cs ih =>
    rw [HTTP2StreamManager.unblocked,List.forall_mem_cons]
    simp only [bind_ok,priorityOf_ok,ih]
    have hfilter {p : HTTP2StreamPriority} (hp : s.priorities (s.nodes c).priority = some p) :
        (c::cs).filter (isReady s) = if p.isBlocked then cs.filter (isReady s) else c::cs.filter (isReady s) := by
      rw [List.filter_cons,isReady,hp]
      cases hblocked : p.isBlocked <;> simp [hblocked]
    constructor
    · rintro ⟨p,hp,_,⟨hall,rfl⟩,hactive⟩
      cases hactive
      exact ⟨⟨⟨p,hp⟩,hall⟩,(hfilter hp).symm⟩
    · rintro ⟨⟨⟨p,hp⟩,hall⟩,rfl⟩
      exact ⟨p,hp,_,⟨hall,rfl⟩,by rw [hfilter hp]⟩

theorem WellFormed.getActiveChildren_ok (h : WellFormed s) {active : List ℕ} :
    s.getActiveChildren 0 = .ok active ↔
      (∀ c ∈ s.lists 0, ∃ p, s.priorities (s.nodes c).priority = some p) ∧ active = candidates s := by
  have hlists : (s.nodes 0).exclusiveChildren++(s.nodes 0).children = s.lists 0 := by
    rw [HTTP2StreamManager.lists,(h.plain 0).1,List.append_nil,List.nil_append]
  rw [HTTP2StreamManager.getActiveChildren,hlists,unblocked_ok]
  rfl

theorem WellFormed.candidate_lt (h : WellFormed s) (hc : c ∈ candidates s) : c < s.nextNode :=
  h.lt_nextNode (List.mem_filter.mp hc).1

theorem selectChild_eq {g : ℕ → ℕ} {cs : List ℕ} (hcs : ∀ c ∈ cs, s.computeSubtreeWeight s.nextNode c = .ok (g c))
    (n : ℕ) : s.selectChild n cs = .ok (pick g n cs) := by
  induction cs generalizing n with
  | nil => rfl
  | cons c cs ih =>
    obtain ⟨hc,hcs⟩ := List.forall_mem_cons.mp hcs
    rw [HTTP2StreamManager.selectChild,hc,pick]
    by_cases hlt : n < g c
    · simp [bind,Except.bind,hlt]
    · simp [bind,Except.bind,hlt,ih hcs]

theorem WellFormed.totalWeight_ok (h : WellFormed s) {total : ℕ} :
    addWeights (s.computeSubtreeWeight s.nextNode) 0 (candidates s) = .ok total ↔
      (∀ c ∈ candidates s, ∀ x, Reach s.lists c x → Weighable s x) ∧
        ((candidates s).map (share s)).sum < 4294967296 ∧ total = ((candidates s).map (share s)).sum := by
  have hweigh : ∀ c ∈ candidates s, ∀ w, s.computeSubtreeWeight s.nextNode c = .ok w ↔
      (∀ x, Reach s.lists c x → Weighable s x) ∧ w = share s c :=
    fun c hc w => computeSubtreeWeight_ok h (h.candidate_lt hc) (by omega)
  rw [addWeights_ok hweigh (by omega),Nat.zero_add]

/-- The choice, once everything has been added up. -/
theorem Weighed.getNextStream (hs : Weighed s) (h : WellFormed s) (now : ℕ) : ∃ first, (candidates s).head? = some first ∧
    s.getNextStream now = .ok (some (s.nodes (if ((candidates s).map (share s)).sum = 0 then first
      else (pick (share s) (now%((candidates s).map (share s)).sum) (candidates s)).getD first)).priority) := by
  have hactive := h.getActiveChildren_ok.mpr ⟨hs.allocated,rfl⟩
  have htotal := h.totalWeight_ok.mpr ⟨hs.weighable,hs.total,rfl⟩
  have hweights : ∀ c ∈ candidates s, s.computeSubtreeWeight s.nextNode c = .ok (share s c) :=
    fun c hc => (computeSubtreeWeight_ok h (h.candidate_lt hc) (by omega)).mpr ⟨hs.weighable c hc,rfl⟩
  have hselect := selectChild_eq hweights
  rw [HTTP2StreamManager.getNextStream,HTTP2StreamManager.selectNextStream,hactive]
  have hready := hs.ready
  generalize candidates s = active at *
  cases active with
  | nil => exact (hready rfl).elim
  | cons first rest =>
    refine ⟨first,rfl,?_⟩
    simp only [bind,Except.bind,htotal,hselect]
    split <;> rfl

/-- If a stream is returned, there was a choice. -/
theorem weighed_of_some (h : WellFormed s) {now : ℕ} (hsome : s.getNextStream now = .ok (some addr)) : Weighed s := by
  rw [HTTP2StreamManager.getNextStream,HTTP2StreamManager.selectNextStream,bind_ok] at hsome
  obtain ⟨active,hactive,hsome⟩ := hsome
  obtain ⟨hallocated,rfl⟩ := h.getActiveChildren_ok.mp hactive
  cases hcandidates : candidates s with
  | nil =>
    rw [hcandidates] at hsome
    cases hsome
  | cons first rest =>
    rw [hcandidates] at hsome
    obtain ⟨total,htotal,-⟩ := bind_ok.mp hsome
    rw [← hcandidates] at htotal
    obtain ⟨hweighable,hlt,-⟩ := h.totalWeight_ok.mp htotal
    exact ⟨hallocated,by simp [hcandidates],hweighable,hlt⟩

/-- What is returned is for a node that can be selected. -/
theorem Weighed.selectable (hs : Weighed s) (h : WellFormed s) (now : ℕ) :
    ∃ c, Selectable s c ∧ s.getNextStream now = .ok (some (s.nodes c).priority) := by
  obtain ⟨first,hfirst,hnext⟩ := hs.getNextStream h now
  rw [hnext]
  by_cases hzero : ((candidates s).map (share s)).sum = 0
  · rw [if_pos hzero]
    exact ⟨first,⟨List.mem_of_head? hfirst,Or.inr ⟨hfirst,hzero⟩⟩,rfl⟩
  · rw [if_neg hzero]
    obtain ⟨c,hc,hpick,hpos⟩ := pick_some (Nat.mod_lt now (Nat.pos_of_ne_zero hzero))
    rw [hpick]
    exact ⟨c,⟨hc,Or.inl hpos⟩,rfl⟩

/-- Every node that can be selected is, at some time. -/
theorem Weighed.exists_time (hs : Weighed s) (h : WellFormed s) (hc : Selectable s c) :
    ∃ now, s.getNextStream now = .ok (some (s.nodes c).priority) := by
  obtain ⟨hmem,hpos | ⟨hhead,hzero⟩⟩ := hc
  · obtain ⟨now,hlt,hpick⟩ := exists_pick hmem hpos
    obtain ⟨first,-,hnext⟩ := hs.getNextStream h now
    refine ⟨now,?_⟩
    rw [hnext,if_neg (by omega),Nat.mod_eq_of_lt hlt,hpick]
    rfl
  · obtain ⟨first,hfirst,hnext⟩ := hs.getNextStream h 0
    rw [hhead,Option.some.injEq] at hfirst
    refine ⟨0,?_⟩
    rw [hnext,if_pos hzero,hfirst]

end Selection

def Change.setPriorityClass (priorityClass : PriorityClass) : Change :=
  ⟨fun p => { p with priorityClass := priorityClass },fun _ => rfl,fun _ => rfl⟩

/-- The states in which runs are whose calls have all returned. -/
def Reachable (s : HTTP2StreamManager) : Prop :=
  ∃ maxConcurrentStreams now calls,
    Along step (fun s call => (perform s call).1 ≠ .error .trap) (.init maxConcurrentStreams now) calls ∧
      run step (.init maxConcurrentStreams now) calls = s

/-- The priority is that of a live stream that is not blocked. -/
def Servable (s : HTTP2StreamManager) (addr : ℕ) : Prop :=
  ∃ id p, s.streams.lookup id = some addr ∧ s.priorities addr = some p ∧ p.isBlocked = false

/-- While there is a live stream that is not blocked, such a stream is returned at any time. -/
def WorkConserving (s : HTTP2StreamManager) : Prop :=
  (∃ addr, Servable s addr) → ∀ now, ∃ addr, s.getNextStream now = .ok (some addr) ∧ Servable s addr

/-- A live stream that is not blocked is below a blocked one. -/
def Hidden (s : HTTP2StreamManager) (a : ℕ) : Prop :=
  InTree s a ∧ Servable s (s.nodes a).priority ∧ ∃ b p, InTree s b ∧ b ≠ 0 ∧
    s.priorities (s.nodes b).priority = some p ∧ p.isBlocked = true ∧ Relation.TransGen (Lists s.lists) b a

/-- The streams below blocked ones get their turn at some time. -/
def Unhidden (s : HTTP2StreamManager) : Prop :=
  ∀ a, Hidden s a → ∃ now, s.getNextStream now = .ok (some (s.nodes a).priority)

/-- There is a choice, and it is one of live streams. -/
def Schedulable (s : HTTP2StreamManager) : Prop :=
  Weighed s ∧ ∀ c, Selectable s c → ∃ id, s.streams.lookup id = some (s.nodes c).priority

section Service

variable {s : HTTP2StreamManager} {a b c addr : ℕ}

theorem Reachable.wellFormed (hs : Reachable s) : WellFormed s := by
  obtain ⟨maxConcurrentStreams,now,calls,hreturns,rfl⟩ := hs
  exact hreturns.inv (fun s call h hreturns => h.step call hreturns) (wellFormed_init maxConcurrentStreams now)

theorem Selectable.servable (hc : Selectable s c) (hlive : ∃ id, s.streams.lookup id = some (s.nodes c).priority) :
    Servable s (s.nodes c).priority := by
  obtain ⟨id,hlookup⟩ := hlive
  have hready := (List.mem_filter.mp hc.1).2
  rw [isReady,Option.any_eq_true] at hready
  obtain ⟨p,hp,hblocked⟩ := hready
  exact ⟨id,p,hlookup,hp,by simpa using hblocked⟩

theorem WellFormed.workConserving_iff (h : WellFormed s) :
    WorkConserving s ↔ ((∃ addr, Servable s addr) → Schedulable s) := by
  constructor
  · intro hserves hawake
    obtain ⟨addr,hnext,-⟩ := hserves hawake 0
    have hweighed := weighed_of_some h hnext
    refine ⟨hweighed,fun c hc => ?_⟩
    obtain ⟨now,hnow⟩ := hweighed.exists_time h hc
    obtain ⟨addr',hnext',id,p,hlookup,-⟩ := hserves hawake now
    rw [hnow] at hnext'
    cases hnext'
    exact ⟨id,hlookup⟩
  · intro hschedulable hawake now
    obtain ⟨hweighed,hlive⟩ := hschedulable hawake
    obtain ⟨c,hc,hnext⟩ := hweighed.selectable h now
    exact ⟨_,hnext,hc.servable (hlive c hc)⟩

theorem WellFormed.unhidden_iff (h : WellFormed s) :
    Unhidden s ↔ ∀ a, Hidden s a → Weighed s ∧ ∃ c, Selectable s c ∧ (s.nodes c).priority = (s.nodes a).priority := by
  constructor
  · intro hunhidden a ha
    obtain ⟨now,hnext⟩ := hunhidden a ha
    have hweighed := weighed_of_some h hnext
    obtain ⟨c,hc,hnext'⟩ := hweighed.selectable h now
    rw [hnext] at hnext'
    injection hnext' with hsome
    exact ⟨hweighed,c,hc,(Option.some.inj hsome).symm⟩
  · intro hall a ha
    obtain ⟨hweighed,c,hc,hsame⟩ := hall a ha
    obtain ⟨now,hnext⟩ := hweighed.exists_time h hc
    exact ⟨now,hsame ▸ hnext⟩

end Service

/-! ### Intact trees -/

section Intact

variable {s : HTTP2StreamManager} {a b c : ℕ}

/-- The node is the place of a stream. -/
theorem Placed.at_node (h : Placed s) (ha : InTree s a) (hne : a ≠ 0) :
    ∃ id addr p q, s.streams.lookup id = some addr ∧ s.priorities addr = some p ∧ Place s id addr p a q := by
  obtain ⟨addr,p,b,q,hlookup,hp,hplace⟩ := h.place (h.known a ha hne)
  obtain rfl := h.unique b a hplace.inTree ha hplace.ne_root hne hplace.streamId
  exact ⟨_,addr,p,q,hlookup,hp,hplace⟩

theorem Placed.at_child (h : Placed s) (hc : c ∈ s.lists 0) :
    ∃ id addr p q, s.streams.lookup id = some addr ∧ s.priorities addr = some p ∧ Place s id addr p c q := by
  have hlt := h.wellFormed.linked.lt 0 c hc
  exact h.at_node (.single hc) (by omega)

/-- In an intact tree there only has to be a choice, and the weights have to be in bounds. -/
theorem Placed.schedulable_iff (h : Placed s) :
    Schedulable s ↔ candidates s ≠ [] ∧ (∀ c ∈ candidates s, ∀ x, Reach s.lists c x → Weighable s x) ∧
      ((candidates s).map (share s)).sum < 4294967296 := by
  constructor
  · exact fun hs => ⟨hs.1.ready,hs.1.weighable,hs.1.total⟩
  · rintro ⟨hready,hweighable,htotal⟩
    refine ⟨⟨fun c hc => ?_,hready,hweighable,htotal⟩,fun c hc => ?_⟩
    · obtain ⟨id,addr,p,q,-,hp,hplace⟩ := h.at_child hc
      rw [hplace.priority]
      exact ⟨p,hp⟩
    · obtain ⟨id,addr,p,q,hlookup,-,hplace⟩ := h.at_child (List.mem_filter.mp hc.1).1
      rw [hplace.priority]
      exact ⟨id,hlookup⟩

/-- In an intact tree a stream below a blocked one never gets its turn. -/
theorem Placed.unhidden_iff (h : Placed s) : Unhidden s ↔ ∀ a, ¬Hidden s a := by
  rw [h.wellFormed.unhidden_iff]
  constructor
  · intro hall a ha
    obtain ⟨-,c,hc,hsame⟩ := hall a ha
    obtain ⟨haTree,-,b,-,-,hb0,-,-,hbelow⟩ := ha
    obtain ⟨x,hreach,hlists⟩ := Relation.TransGen.tail'_iff.mp hbelow
    have hle := h.wellFormed.linked.le_of_reach hreach
    have hlt := h.wellFormed.linked.lt x a hlists
    have hchild := (List.mem_filter.mp hc.1).1
    obtain ⟨id,addr,p,q,hlookup,hp,hplace⟩ := h.at_node haTree (by omega)
    obtain ⟨id',addr',p',q',hlookup',hp',hplace'⟩ := h.at_child hchild
    -- both nodes are the place of one stream
    have haddr : addr' = addr := by rw [← hplace'.priority,hsame,hplace.priority]
    rw [haddr] at hlookup'
    have hid := h.wellFormed.addr_injective hlookup' hlookup
    have heq := h.unique c a hplace'.inTree haTree hplace'.ne_root (by omega)
      (hplace'.streamId.trans (hid.trans hplace.streamId.symm))
    rw [heq] at hchild
    have hparent := (h.wellFormed.linked.parent_iff 0 a).mpr hchild
    rw [(h.wellFormed.linked.parent_iff x a).mpr hlists,Option.some.injEq] at hparent
    omega
  · intro hnone a ha
    exact (hnone a ha).elim

end Intact

/-- In every state that a run reaches, a live stream is returned while one is not blocked
exactly if a child of the root can be chosen then, only live streams can be, and the
priorities that are read for it have not been freed and their weights are within bounds.
A stream below a blocked one is returned at some time exactly if it is such a child too. -/
theorem reachable_workConserving_iff (s : HTTP2StreamManager) (hs : Reachable s) :
    (WorkConserving s ↔ ((∃ addr, Servable s addr) → Schedulable s)) ∧
    (Unhidden s ↔
      ∀ a, Hidden s a → Weighed s ∧ ∃ c, Selectable s c ∧ (s.nodes c).priority = (s.nodes a).priority) :=
  ⟨hs.wellFormed.workConserving_iff,hs.wellFormed.unhidden_iff⟩

/-- A stream that is blocked, and one that depends on it. -/
def blockedCalls : List Call :=
  [.createStream 1 16 none false 0,.createStream 3 16 (some 1) false 0,.change 1 (.setBlocked true)]

theorem reachable_blocked : Reachable (run step (.init 8 0) blockedCalls) := by
  refine ⟨8,0,blockedCalls,⟨?_,?_,?_,trivial⟩,rfl⟩
  · rintro ⟨⟩
  · rintro ⟨⟩
  · rintro ⟨⟩

theorem reachable_workConserving_iff_blocked :
    (WorkConserving (run step (.init 8 0) blockedCalls) ↔
      ((∃ addr, Servable (run step (.init 8 0) blockedCalls) addr) →
        Schedulable (run step (.init 8 0) blockedCalls))) ∧
    (Unhidden (run step (.init 8 0) blockedCalls) ↔
      ∀ a, Hidden (run step (.init 8 0) blockedCalls) a → Weighed (run step (.init 8 0) blockedCalls) ∧
        ∃ c, Selectable (run step (.init 8 0) blockedCalls) c ∧
          ((run step (.init 8 0) blockedCalls).nodes c).priority =
            ((run step (.init 8 0) blockedCalls).nodes a).priority) :=
  reachable_workConserving_iff _ reachable_blocked

/-- A weight of 64 that the class of its stream multiplies by four. -/
def criticalCalls : List Call := [.createStream 1 64 none false 0,.change 1 (.setPriorityClass .critical)]

/-- The stream that depends on the blocked one could be served, but nothing is returned.
With a weight that has to be multiplied beyond 255 the selection traps. -/
theorem idle_with_work :
    (Reachable (run step (.init 8 0) blockedCalls) ∧ ¬WorkConserving (run step (.init 8 0) blockedCalls) ∧
      ¬Unhidden (run step (.init 8 0) blockedCalls)) ∧
    Reachable (run step (.init 8 0) criticalCalls) ∧ ¬WorkConserving (run step (.init 8 0) criticalCalls) := by
  have hnone : ∀ now, (run step (.init 8 0) blockedCalls).getNextStream now = .ok none := fun _ => rfl
  refine ⟨⟨reachable_blocked,?_,?_⟩,⟨8,0,criticalCalls,⟨?_,?_,trivial⟩,rfl⟩,?_⟩
  · intro h
    obtain ⟨addr,hnext,-⟩ := h ⟨2,3,_,by decide,rfl,rfl⟩ 0
    rw [hnone] at hnext
    cases hnext
  · intro h
    have hhidden : Hidden (run step (.init 8 0) blockedCalls) 2 :=
      ⟨.tail (.single (List.mem_singleton.mpr rfl)) (List.mem_singleton.mpr rfl),⟨3,_,by decide,rfl,rfl⟩,
        1,_,.single (List.mem_singleton.mpr rfl),by decide,rfl,rfl,.single (List.mem_singleton.mpr rfl)⟩
    obtain ⟨now,hnext⟩ := h 2 hhidden
    rw [hnone] at hnext
    cases hnext
  · rintro ⟨⟩
  · rintro ⟨⟩
  · intro h
    obtain ⟨addr,hnext,-⟩ := h ⟨1,1,_,by decide,rfl,rfl⟩ 0
    have htrap : (run step (.init 8 0) criticalCalls).getNextStream 0 = .error .trap := rfl
    rw [htrap] at hnext
    cases hnext

end ZNet.Prioritization
