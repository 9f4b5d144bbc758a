import ZNet.StreamManager
import ZNet.TextScan

/-!
# Server push

Each promise has a state, the pushes in progress are in a list, and a counter stands for
the length of that list. A call changes all three without a look at the promise's state.
-/

namespace ZNet.Prioritization
open Runs TextScan
open Tables (lookup_of_erase)

inductive PushFailure
  | pushPromiseNotFound | maxPushesExceeded
  /-- A check of the language traps, or memory is read that has been freed. -/
  | trap
deriving DecidableEq

inductive PromiseState
  | promised | inProgress | completed | cancelled
deriving DecidableEq

/-- Times and durations are in nanoseconds. -/
structure PushPromise where
  pushId : ℕ
  streamId : ℕ
  url : List UInt8 := []
  headers : List (List UInt8×List UInt8) := []
  priority : HTTP2StreamPriority
  promiseState : PromiseState := .promised
  estimatedSize : ℕ := 0
  actualSize : ℕ := 0
  timestamp : ℕ
  timeout : ℕ := 30000000000

structure PushResource where
  url : List UInt8
  contentType : List UInt8 := ascii "application/octet-stream".toList
  contentEncoding : List UInt8 := ascii "identity".toList
  cacheKey : List UInt8
  etag : List UInt8 := []
  lastModified : ℕ
  expires : ℕ
  size : ℕ := 0
  isCached : Bool := false

/-- One hour in nanoseconds. -/
def resourceLifetime : ℕ := 3600000000000

def PushResource.init (url : List UInt8) (now : ℕ) : PushResource where
  url := url
  cacheKey := url
  lastModified := now
  expires := now+resourceLifetime

/-- The manager and its memory. Nothing is at the address of a promise that has been
freed. -/
structure ServerPushManager where
  promises : ℕ → Option PushPromise
  nextPromise : ℕ
  pushPromises : AList fun _ : ℕ => ℕ
  activePushes : List ℕ
  maxConcurrentPushes : ℕ
  concurrentPushes : ℕ
  pushResources : AList fun _ : List UInt8 => PushResource

namespace ServerPushManager

def init (maxConcurrentPushes : ℕ) : ServerPushManager where
  promises := fun _ => none
  nextPromise := 0
  pushPromises := ∅
  activePushes := []
  maxConcurrentPushes := maxConcurrentPushes
  concurrentPushes := 0
  pushResources := ∅

/-- The entry of `push_promises` for a new promise. -/
def register (self : ServerPushManager) (promise : PushPromise) : ServerPushManager :=
  { self with
    promises := Function.update self.promises self.nextPromise (some promise)
    nextPromise := self.nextPromise+1
    pushPromises := self.pushPromises.insert promise.pushId self.nextPromise }

/-- The id is the clock's milliseconds, if they are a `u32`. -/
def createPushPromise (self : ServerPushManager) (streamId : ℕ) (url : List UInt8)
    (headers : List (List UInt8×List UInt8)) (milliTimestamp : ℤ) (now : ℕ) : Except PushFailure ℕ×ServerPushManager :=
  if 0 ≤ milliTimestamp ∧ milliTimestamp < 4294967296 then
    let pushId := milliTimestamp.toNat
    let priority := { HTTP2StreamPriority.init pushId 16 (some streamId) false now with priorityClass := .high }
    (.ok pushId,self.register ⟨pushId,streamId,url,headers,priority,.promised,0,0,now,30000000000⟩)
  else (.error .trap,self)

/-- The promise of an id, with its address. -/
def find (self : ServerPushManager) (pushId : ℕ) : Except PushFailure (ℕ×PushPromise) :=
  match self.pushPromises.lookup pushId with
  | none => .error .pushPromiseNotFound
  | some addr => ((self.promises addr).map (Prod.mk addr)).elim (.error .trap) .ok

def modifyPromise (self : ServerPushManager) (addr : ℕ) (f : PushPromise → PushPromise) : ServerPushManager :=
  { self with promises := Function.update self.promises addr ((self.promises addr).map f) }

def setState (self : ServerPushManager) (addr : ℕ) (state : PromiseState) : ServerPushManager :=
  self.modifyPromise addr fun p => { p with promiseState := state }

def startPush (self : ServerPushManager) (pushId : ℕ) : Except PushFailure Unit×ServerPushManager :=
  match self.find pushId with
  | .error e => (.error e,self)
  | .ok (addr,_) =>
    if self.maxConcurrentPushes ≤ self.concurrentPushes then (.error .maxPushesExceeded,self)
    else (.ok (),{ self.setState addr .inProgress with
      activePushes := self.activePushes++[addr]
      concurrentPushes := self.concurrentPushes+1 })

/-- The loop over the active pushes, which removes the first one of the id. -/
def removeActive (self : ServerPushManager) (pushId : ℕ) : List ℕ → Except PushFailure (List ℕ)
  | [] => .ok []
  | addr::rest =>
    match self.promises addr with
    | none => .error .trap
    | some p => if p.pushId = pushId then .ok rest else (self.removeActive pushId rest).map (addr::·)

/-- What `cancelPush` and `completePush` share: the new state, the removal from the active
pushes, and the counter, which stays at zero. -/
def withdraw (self : ServerPushManager) (pushId : ℕ) (state : PromiseState) :
    Except PushFailure PushPromise×ServerPushManager :=
  match self.find pushId with
  | .error e => (.error e,self)
  | .ok (addr,promise) =>
    let self := self.setState addr state
    match self.removeActive pushId self.activePushes with
    | .error e => (.error e,self)
    | .ok active => (.ok promise,{ self with activePushes := active, concurrentPushes := self.concurrentPushes-1 })

def cancelPush (self : ServerPushManager) (pushId : ℕ) : Except PushFailure Unit×ServerPushManager :=
  let (result,self) := self.withdraw pushId .cancelled
  (result.map fun _ => (),self)

def cachePushResource (self : ServerPushManager) (promise : PushPromise) (now : ℕ) : ServerPushManager :=
  let contentType := (promise.headers.lookup (ascii "content-type".toList)).getD (ascii "application/octet-stream".toList)
  let resource := { PushResource.init promise.url now with contentType := contentType, size := promise.actualSize }
  { self with pushResources := self.pushResources.insert promise.url resource }

def completePush (self : ServerPushManager) (pushId now : ℕ) : Except PushFailure Unit×ServerPushManager :=
  match self.withdraw pushId .completed with
  | (.error e,self) => (.error e,self)
  | (.ok promise,self) => (.ok (),if promise.estimatedSize > 0 then self.cachePushResource promise now else self)

/-- The loop of `cleanup` over the promises. -/
def expired (self : ServerPushManager) (now : ℕ) : List ℕ → Except PushFailure (List ℕ)
  | [] => .ok []
  | key::keys => do
    let (_,promise) ← self.find key
    let toRemove ← self.expired now keys
    pure (if now-promise.timestamp > promise.timeout then promise.pushId::toRemove else toRemove)

/-- The end of a promise in `cleanup`. -/
def destroy (self : ServerPushManager) (pushId addr : ℕ) : ServerPushManager :=
  { self with
    promises := Function.update self.promises addr none
    pushPromises := self.pushPromises.erase pushId }

/-- `push_promises.get(push_id).?` traps without an entry. -/
def removeAll (self : ServerPushManager) : List ℕ → Except PushFailure Unit×ServerPushManager
  | [] => (.ok (),self)
  | pushId::toRemove =>
    match self.find pushId with
    | .error _ => (.error .trap,self)
    | .ok (addr,promise) =>
      match if promise.promiseState = .inProgress then self.cancelPush pushId else (.ok (),self) with
      | (.error e,self) => (.error e,self)
      | (.ok (),self) => (self.destroy pushId addr).removeAll toRemove

def cleanup (self : ServerPushManager) (now : ℕ) (order : IterationOrder) : Except PushFailure Unit×ServerPushManager :=
  match self.expired now (order self.pushPromises.keys).1 with
  | .ok toRemove => self.removeAll toRemove
  | .error e => (.error e,self)

end ServerPushManager

/-- What the holder of a promise can do to it. -/
structure PromiseChange where
  apply : PushPromise → PushPromise
  pushId : ∀ p, (apply p).pushId = p.pushId
  promiseState : ∀ p, (apply p).promiseState = p.promiseState

inductive PushCall
  | createPushPromise (streamId : ℕ) (url : List UInt8) (headers : List (List UInt8×List UInt8)) (milliTimestamp : ℤ)
      (now : ℕ)
  | startPush (pushId : ℕ)
  | cancelPush (pushId : ℕ)
  | completePush (pushId now : ℕ)
  | cleanup (now : ℕ) (order : IterationOrder)
  | change (pushId : ℕ) (c : PromiseChange)

def pushStep (s : ServerPushManager) : PushCall → ServerPushManager
  | .createPushPromise streamId url headers milliTimestamp now =>
    (s.createPushPromise streamId url headers milliTimestamp now).2
  | .startPush pushId => (s.startPush pushId).2
  | .cancelPush pushId => (s.cancelPush pushId).2
  | .completePush pushId now => (s.completePush pushId now).2
  | .cleanup now order => (s.cleanup now order).2
  | .change pushId c => (s.pushPromises.lookup pushId).elim s fun addr => s.modifyPromise addr c.apply

/-- The pushes in progress are the active ones, each once, and they are counted right and
within the limit. -/
structure PushesAccounted (s : ServerPushManager) : Prop where
  counter : s.concurrentPushes = s.activePushes.length
  limit : s.concurrentPushes ≤ s.maxConcurrentPushes
  once : s.activePushes.Nodup
  active : ∀ addr, addr ∈ s.activePushes ↔ ∃ p, s.promises addr = some p ∧ p.promiseState = .inProgress

/-- The id of a new promise is not that of another promise. -/
def DistinctId (s : ServerPushManager) : PushCall → Prop
  | .createPushPromise _ _ _ milliTimestamp _ =>
    0 ≤ milliTimestamp ∧ milliTimestamp < 4294967296 → s.pushPromises.lookup milliTimestamp.toNat = none
  | _ => True

/-- A push is started when it is not in progress, unless the limit is reached, and
cancelled or completed when it is in progress, unless nothing is. -/
def Orderly (s : ServerPushManager) : PushCall → Prop
  | .startPush pushId => s.concurrentPushes < s.maxConcurrentPushes →
    ∀ addr p, s.find pushId = .ok (addr,p) → p.promiseState ≠ .inProgress
  | .cancelPush pushId | .completePush pushId _ => 0 < s.concurrentPushes →
    ∀ addr p, s.find pushId = .ok (addr,p) → p.promiseState = .inProgress
  | _ => True

/-- The allocated promises are those of the table, each under its own id. -/
structure PromisesOwned (s : ServerPushManager) : Prop where
  owned : ∀ id addr, s.pushPromises.lookup id = some addr → ∃ p, s.promises addr = some p ∧ p.pushId = id
  listed : ∀ addr p, s.promises addr = some p → s.pushPromises.lookup p.pushId = some addr
  allocated : ∀ addr p, s.promises addr = some p → addr < s.nextPromise

variable {s : ServerPushManager} {id addr addr' : ℕ} {p q : PushPromise}

section Memory

theorem promisesOwned_init (maxConcurrentPushes : ℕ) : PromisesOwned (.init maxConcurrentPushes) where
  owned _ _ h := by cases h
  listed _ _ h := by cases h
  allocated _ _ h := by cases h

theorem update_some {m : ℕ → Option PushPromise} {o : Option PushPromise} :
    Function.update m addr o addr' = some q ↔ addr' = addr ∧ o = some q ∨ addr' ≠ addr ∧ m addr' = some q := by
  by_cases heq : addr' = addr
  · subst heq
    simp
  · simp [heq]

theorem modifyPromise_some {f : PushPromise → PushPromise} :
    (s.modifyPromise addr f).promises addr' = some q ↔
      ∃ p, s.promises addr' = some p ∧ q = if addr' = addr then f p else p := by
  rw [ServerPushManager.modifyPromise]
  simp only [update_some,Option.map_eq_some_iff]
  by_cases heq : addr' = addr
  · subst heq
    simp [eq_comm]
  · simp [heq]

theorem register_some : (s.register p).promises addr = some q ↔
    addr = s.nextPromise ∧ q = p ∨ addr ≠ s.nextPromise ∧ s.promises addr = some q := by
  refine update_some.trans ?_
  rw [Option.some.injEq,eq_comm (a:=p)]

theorem destroy_some : (s.destroy id addr).promises addr' = some q ↔ addr' ≠ addr ∧ s.promises addr' = some q := by
  rw [ServerPushManager.destroy]
  simp only [update_some,reduceCtorEq,and_false,false_or]

theorem find_ok : s.find id = .ok (addr,p) ↔ s.pushPromises.lookup id = some addr ∧ s.promises addr = some p := by
  rw [ServerPushManager.find]
  cases hlookup : s.pushPromises.lookup id with
  | none => simp
  | some addr' =>
    cases hp : s.promises addr' with
    | none =>
      simp only [hp,Option.map_none,Option.elim_none,reduceCtorEq,Option.some.injEq,false_iff]
      rintro ⟨rfl,hsome⟩
      rw [hp] at hsome
      cases hsome
    | some p' =>
      simp only [hp,Option.map_some,Option.elim_some,Except.ok.injEq,Prod.mk.injEq,Option.some.injEq]
      apply and_congr_right
      rintro rfl
      rw [hp,Option.some.injEq]

/-- An id is unknown, or its promise is allocated and no other promise has it. -/
theorem PromisesOwned.find_cases (h : PromisesOwned s) (id : ℕ) :
    s.find id = .error .pushPromiseNotFound ∨
    ∃ addr p, s.find id = .ok (addr,p) ∧ ∀ addr' q, s.promises addr' = some q → (q.pushId = id ↔ addr' = addr) := by
  cases hlookup : s.pushPromises.lookup id with
  | none => exact Or.inl (by rw [ServerPushManager.find,hlookup])
  | some addr =>
    obtain ⟨p,hp,hid⟩ := h.owned id addr hlookup
    refine Or.inr ⟨addr,p,find_ok.mpr ⟨hlookup,hp⟩,fun addr' q hq => ⟨fun heq => ?_,fun heq => ?_⟩⟩
    · have hlisted := h.listed addr' q hq
      rw [heq,hlookup] at hlisted
      exact (Option.some.inj hlisted).symm
    · rw [heq,hp] at hq
      rw [← Option.some.inj hq]
      exact hid

/-- The table and the allocation do not depend on the states of the promises. -/
theorem PromisesOwned.modifyPromise (h : PromisesOwned s) (addr : ℕ) {f : PushPromise → PushPromise}
    (hid : ∀ p, (f p).pushId = p.pushId) : PromisesOwned (s.modifyPromise addr f) := by
  have hsame : ∀ addr' p, (if addr' = addr then f p else p).pushId = p.pushId := by
    intro addr' p
    split
    · exact hid p
    · rfl
  constructor
  · intro id addr' hlookup
    obtain ⟨p,hp,hpid⟩ := h.owned id addr' hlookup
    exact ⟨_,modifyPromise_some.mpr ⟨p,hp,rfl⟩,(hsame addr' p).trans hpid⟩
  · intro addr' q hq
    obtain ⟨p,hp,rfl⟩ := modifyPromise_some.mp hq
    rw [hsame]
    exact h.listed addr' p hp
  · intro addr' q hq
    obtain ⟨p,hp,-⟩ := modifyPromise_some.mp hq
    exact h.allocated addr' p hp

theorem PromisesOwned.register (h : PromisesOwned s) (hnew : s.pushPromises.lookup p.pushId = none) :
    PromisesOwned (s.register p) := by
  constructor
  · intro id addr hlookup
    by_cases hid : id = p.pushId
    · rw [hid,ServerPushManager.register,AList.lookup_insert,Option.some.injEq] at hlookup
      exact ⟨p,register_some.mpr (Or.inl ⟨hlookup.symm,rfl⟩),hid.symm⟩
    · rw [ServerPushManager.register,AList.lookup_insert_ne hid] at hlookup
      obtain ⟨q,hq,hqid⟩ := h.owned id addr hlookup
      exact ⟨q,register_some.mpr (Or.inr ⟨(h.allocated addr q hq).ne,hq⟩),hqid⟩
  · intro addr q hq
    rcases register_some.mp hq with ⟨rfl,rfl⟩ | ⟨-,hq⟩
    · exact AList.lookup_insert _
    · have hlisted := h.listed addr q hq
      have hid : q.pushId ≠ p.pushId := by
        intro heq
        rw [heq,hnew] at hlisted
        cases hlisted
      rw [ServerPushManager.register,AList.lookup_insert_ne hid]
      exact hlisted
  · intro addr q hq
    rcases register_some.mp hq with ⟨rfl,-⟩ | ⟨-,hq⟩
    · exact Nat.lt_succ_self _
    · exact Nat.lt_succ_of_lt (h.allocated addr q hq)

theorem PromisesOwned.destroy (h : PromisesOwned s) (hlookup : s.pushPromises.lookup id = some addr) :
    PromisesOwned (s.destroy id addr) := by
  constructor
  · intro id' addr' hlookup'
    obtain ⟨hid,hbefore⟩ := lookup_of_erase hlookup'
    obtain ⟨q,hq,hqid⟩ := h.owned id' addr' hbefore
    obtain ⟨p,hp,hpid⟩ := h.owned id addr hlookup
    refine ⟨q,destroy_some.mpr ⟨?_,hq⟩,hqid⟩
    rintro rfl
    rw [hp,Option.some.injEq] at hq
    exact hid (by rw [← hqid,← hpid,hq])
  · intro addr' q hq
    obtain ⟨hne,hq⟩ := destroy_some.mp hq
    have hlisted := h.listed addr' q hq
    have hid : q.pushId ≠ id := by
      intro heq
      rw [heq,hlookup] at hlisted
      exact hne (Option.some.inj hlisted).symm
    rw [ServerPushManager.destroy,AList.lookup_erase_ne hid]
    exact hlisted
  · intro addr' q hq
    exact h.allocated addr' q (destroy_some.mp hq).2

end Memory

section Pushes

/-- The state after a push that could be started. -/
def started (s : ServerPushManager) (addr : ℕ) : ServerPushManager :=
  { s.setState addr .inProgress with
    activePushes := s.activePushes++[addr]
    concurrentPushes := s.concurrentPushes+1 }

/-- The state after `withdraw`. -/
def withdrawn (s : ServerPushManager) (addr : ℕ) (state : PromiseState) : ServerPushManager :=
  { s.setState addr state with
    activePushes := s.activePushes.erase addr
    concurrentPushes := s.concurrentPushes-1 }

theorem setState_some {state : PromiseState} : (s.setState addr state).promises addr' = some q ↔
    ∃ p, s.promises addr' = some p ∧ q = if addr' = addr then { p with promiseState := state } else p :=
  modifyPromise_some

/-- Which pushes are in progress after one promise has changed its state. -/
theorem setState_inProgress (hp : s.promises addr = some p) (state : PromiseState) :
    (∃ q, (s.setState addr state).promises addr' = some q ∧ q.promiseState = .inProgress) ↔
      if addr' = addr then state = .inProgress else ∃ q, s.promises addr' = some q ∧ q.promiseState = .inProgress := by
  simp only [setState_some]
  by_cases heq : addr' = addr
  · subst heq
    simp [hp]
  · simp [heq]

theorem removeActive_eq {l : List ℕ} (hl : ∀ a ∈ l, ∃ q, s.promises a = some q)
    (hunique : ∀ a q, s.promises a = some q → (q.pushId = id ↔ a = addr)) :
    s.removeActive id l = .ok (l.erase addr) := by
  induction l with
  | nil => rfl
  | cons a l ih =>
    obtain ⟨⟨q,hq⟩,hrest⟩ := List.forall_mem_cons.mp hl
    rw [ServerPushManager.removeActive,hq]
    by_cases ha : a = addr
    · rw [ha,List.erase_cons_head]
      exact if_pos ((hunique a q hq).mpr ha)
    · rw [List.erase_cons_tail (by simpa using ha),ih hrest]
      exact if_neg fun hid => ha ((hunique a q hq).mp hid)

theorem withdraw_eq (h : PushesAccounted s) (hfind : s.find id = .ok (addr,p))
    (hunique : ∀ addr' q, s.promises addr' = some q → (q.pushId = id ↔ addr' = addr)) (state : PromiseState) :
    s.withdraw id state = (.ok p,withdrawn s addr state) := by
  have hactive : (s.setState addr state).removeActive id s.activePushes = .ok (s.activePushes.erase addr) := by
    apply removeActive_eq
    · intro a ha
      obtain ⟨q,hq,-⟩ := (h.active a).mp ha
      exact ⟨_,setState_some.mpr ⟨q,hq,rfl⟩⟩
    · intro a q hq
      obtain ⟨p,hp,rfl⟩ := setState_some.mp hq
      refine Iff.trans ?_ (hunique a p hp)
      split
      · exact Iff.rfl
      · exact Iff.rfl
  rw [ServerPushManager.withdraw,hfind]
  have hsame : (s.setState addr state).activePushes = s.activePushes := rfl
  simp only [hsame,hactive]
  rfl

theorem PushesAccounted.notMem (h : PushesAccounted s) (hp : s.promises addr = some p)
    (hstate : p.promiseState ≠ .inProgress) : addr ∉ s.activePushes := by
  intro hmem
  obtain ⟨q,hq,hprogress⟩ := (h.active addr).mp hmem
  rw [hp,Option.some.injEq] at hq
  exact hstate (hq ▸ hprogress)

/-- The counter is right after a withdrawal exactly if the push was in progress, or no
push was. -/
theorem PushesAccounted.withdrawn_iff (h : PushesAccounted s) (hp : s.promises addr = some p) {state : PromiseState}
    (hstate : state ≠ .inProgress) :
    PushesAccounted (withdrawn s addr state) ↔ (0 < s.concurrentPushes → p.promiseState = .inProgress) := by
  have hcounter := h.counter
  constructor
  · intro hafter hpos
    by_contra hidle
    have hkept : s.activePushes.erase addr = s.activePushes := List.erase_of_not_mem (h.notMem hp hidle)
    have hless : s.concurrentPushes-1 = (s.activePushes.erase addr).length := hafter.counter
    rw [hkept] at hless
    omega
  · intro hgood
    constructor
    · change s.concurrentPushes-1 = (s.activePushes.erase addr).length
      rcases Nat.eq_zero_or_pos s.concurrentPushes with hzero | hpos
      · have hnil : s.activePushes = [] := List.length_eq_zero_iff.mp (by omega)
        rw [hzero,hnil]
        rfl
      · rw [List.length_erase_of_mem ((h.active addr).mpr ⟨p,hp,hgood hpos⟩),hcounter]
    · exact (Nat.sub_le _ _).trans h.limit
    · exact h.once.erase addr
    · intro addr'
      refine (h.once.mem_erase_iff).trans ?_
      refine Iff.trans ?_ (setState_inProgress hp state).symm
      rw [h.active]
      split
      · rename_i heq
        simp [heq,hstate]
      · rename_i hne
        simp [hne]

theorem PushesAccounted.started_iff (h : PushesAccounted s) (hp : s.promises addr = some p)
    (hroom : s.concurrentPushes < s.maxConcurrentPushes) :
    PushesAccounted (started s addr) ↔ p.promiseState ≠ .inProgress := by
  constructor
  · intro hafter hprogress
    have hmem : addr ∈ s.activePushes := (h.active addr).mpr ⟨p,hp,hprogress⟩
    exact (List.nodup_append.mp hafter.once).2.2 addr hmem addr (List.mem_singleton_self addr) rfl
  · intro hidle
    constructor
    · change s.concurrentPushes+1 = (s.activePushes++[addr]).length
      rw [h.counter,List.length_append,List.length_singleton]
    · exact hroom
    · exact List.nodup_append.mpr ⟨h.once,List.nodup_singleton addr,fun a ha b hb => by
        rw [List.mem_singleton.mp hb]
        rintro rfl
        exact h.notMem hp hidle ha⟩
    · intro addr'
      refine List.mem_append.trans (Iff.trans ?_ (setState_inProgress hp .inProgress).symm)
      rw [h.active,List.mem_singleton]
      split
      · rename_i heq
        simp [heq]
      · rename_i hne
        simp [hne]

theorem PushesAccounted.destroy (h : PushesAccounted s)
    (hidle : ∀ q, s.promises addr = some q → q.promiseState ≠ .inProgress) : PushesAccounted (s.destroy id addr) := by
  refine ⟨h.counter,h.limit,h.once,fun addr' => (h.active addr').trans ?_⟩
  simp only [destroy_some]
  constructor
  · rintro ⟨q,hq,hstate⟩
    refine ⟨q,⟨?_,hq⟩,hstate⟩
    rintro rfl
    exact hidle q hq hstate
  · rintro ⟨q,⟨-,hq⟩,hstate⟩
    exact ⟨q,hq,hstate⟩

end Pushes

section Calls

/-- What every legal call keeps. -/
structure Tracked (s : ServerPushManager) : Prop where
  owned : PromisesOwned s
  accounted : PushesAccounted s

theorem tracked_init (maxConcurrentPushes : ℕ) : Tracked (.init maxConcurrentPushes) where
  owned := promisesOwned_init maxConcurrentPushes
  accounted := by
    refine ⟨rfl,Nat.zero_le _,List.nodup_nil,fun addr => iff_of_false List.not_mem_nil ?_⟩
    rintro ⟨q,hq,-⟩
    cases hq

/-- A change of the promise at one address that leaves its id and its state. -/
theorem Tracked.modifyPromise (h : Tracked s) (addr : ℕ) (c : PromiseChange) :
    Tracked (s.modifyPromise addr c.apply) where
  owned := h.owned.modifyPromise addr c.pushId
  accounted := by
    refine ⟨h.accounted.counter,h.accounted.limit,h.accounted.once,fun addr' => (h.accounted.active addr').trans ?_⟩
    have hsame : ∀ p, (if addr' = addr then c.apply p else p).promiseState = p.promiseState := by
      intro p
      split
      · exact c.promiseState p
      · rfl
    constructor
    · rintro ⟨p,hp,hstate⟩
      exact ⟨_,modifyPromise_some.mpr ⟨p,hp,rfl⟩,(hsame p).trans hstate⟩
    · rintro ⟨q,hq,hstate⟩
      obtain ⟨p,hp,rfl⟩ := modifyPromise_some.mp hq
      exact ⟨p,hp,(hsame p).symm.trans hstate⟩

theorem Tracked.register (h : Tracked s) (hnew : s.pushPromises.lookup p.pushId = none)
    (hidle : p.promiseState ≠ .inProgress) : Tracked (s.register p) where
  owned := h.owned.register hnew
  accounted := by
    refine ⟨h.accounted.counter,h.accounted.limit,h.accounted.once,fun addr => (h.accounted.active addr).trans ?_⟩
    simp only [register_some]
    constructor
    · rintro ⟨q,hq,hstate⟩
      exact ⟨q,Or.inr ⟨(h.owned.allocated addr q hq).ne,hq⟩,hstate⟩
    · rintro ⟨q,⟨-,rfl⟩ | ⟨-,hq⟩,hstate⟩
      · exact absurd hstate hidle
      · exact ⟨q,hq,hstate⟩

theorem Tracked.startPush (h : Tracked s) (id : ℕ) :
    (PushesAccounted (s.startPush id).2 ↔ Orderly s (.startPush id)) ∧ PromisesOwned (s.startPush id).2 := by
  rcases h.owned.find_cases id with hfind | ⟨addr,p,hfind,-⟩
  · have hstep : (s.startPush id).2 = s := by rw [ServerPushManager.startPush,hfind]
    rw [hstep]
    refine ⟨iff_of_true h.accounted fun _ addr p hok => ?_,h.owned⟩
    rw [hfind] at hok
    cases hok
  · have hp := (find_ok.mp hfind).2
    have horderly : Orderly s (.startPush id) ↔
        (s.concurrentPushes < s.maxConcurrentPushes → p.promiseState ≠ .inProgress) := by
      simp [Orderly,hfind]
    rw [horderly]
    by_cases hroom : s.concurrentPushes < s.maxConcurrentPushes
    · have hstep : (s.startPush id).2 = started s addr := by
        rw [ServerPushManager.startPush,hfind]
        simp only [if_neg (Nat.not_le.mpr hroom)]
        rfl
      have howned := h.owned.modifyPromise addr (f:=fun p => { p with promiseState := .inProgress }) fun _ => rfl
      rw [hstep,h.accounted.started_iff hp hroom]
      exact ⟨⟨fun hidle _ => hidle,fun hidle => hidle hroom⟩,⟨howned.owned,howned.listed,howned.allocated⟩⟩
    · have hstep : (s.startPush id).2 = s := by
        rw [ServerPushManager.startPush,hfind]
        simp only [if_pos (Nat.not_lt.mp hroom)]
      rw [hstep]
      exact ⟨iff_of_true h.accounted fun hlt => absurd hlt hroom,h.owned⟩

/-- The common part of `cancelPush` and `completePush`. -/
theorem Tracked.withdraw (h : Tracked s) (id : ℕ) {state : PromiseState} (hstate : state ≠ .inProgress) :
    (PushesAccounted (s.withdraw id state).2 ↔ Orderly s (.cancelPush id)) ∧
    PromisesOwned (s.withdraw id state).2 := by
  rcases h.owned.find_cases id with hfind | ⟨addr,p,hfind,hunique⟩
  · have hstep : (s.withdraw id state).2 = s := by rw [ServerPushManager.withdraw,hfind]
    rw [hstep]
    refine ⟨iff_of_true h.accounted fun _ addr p hok => ?_,h.owned⟩
    rw [hfind] at hok
    cases hok
  · have horderly : Orderly s (.cancelPush id) ↔ (0 < s.concurrentPushes → p.promiseState = .inProgress) := by
      simp [Orderly,hfind]
    have howned := h.owned.modifyPromise addr (f:=fun p => { p with promiseState := state }) fun _ => rfl
    rw [horderly,withdraw_eq h.accounted hfind hunique,h.accounted.withdrawn_iff (find_ok.mp hfind).2 hstate]
    exact ⟨Iff.rfl,⟨howned.owned,howned.listed,howned.allocated⟩⟩

/-- The resources do not matter to the promises. -/
theorem completePush_cases (s : ServerPushManager) (id now : ℕ) :
    ∃ resources, (s.completePush id now).2 = { (s.withdraw id .completed).2 with pushResources := resources } := by
  rw [ServerPushManager.completePush]
  split
  · rename_i hwithdraw
    rw [hwithdraw]
    exact ⟨_,rfl⟩
  · rename_i hwithdraw
    rw [hwithdraw]
    split
    · exact ⟨_,rfl⟩
    · exact ⟨_,rfl⟩

theorem Tracked.completePush (h : Tracked s) (id now : ℕ) :
    (PushesAccounted (s.completePush id now).2 ↔ Orderly s (.completePush id now)) ∧
    PromisesOwned (s.completePush id now).2 := by
  obtain ⟨hiff,howned⟩ := h.withdraw id (show PromiseState.completed ≠ .inProgress by simp)
  obtain ⟨resources,hresources⟩ := completePush_cases s id now
  rw [hresources]
  refine ⟨Iff.trans ⟨fun hacc => ?_,fun hacc => ?_⟩ hiff,⟨howned.owned,howned.listed,howned.allocated⟩⟩
  · exact ⟨hacc.counter,hacc.limit,hacc.once,hacc.active⟩
  · exact ⟨hacc.counter,hacc.limit,hacc.once,hacc.active⟩

/-- `cleanup` cancels what is in progress before it frees it. -/
theorem Tracked.removeAll (h : Tracked s) (ids : List ℕ) : Tracked (s.removeAll ids).2 := by
  induction ids generalizing s with
  | nil => exact h
  | cons id ids ih =>
    rcases h.owned.find_cases id with hfind | ⟨addr,p,hfind,hunique⟩
    · rw [ServerPushManager.removeAll,hfind]
      exact h
    · obtain ⟨hlookup,hp⟩ := find_ok.mp hfind
      rw [ServerPushManager.removeAll,hfind]
      by_cases hprogress : p.promiseState = .inProgress
      · have hcancel : s.cancelPush id = (.ok (),withdrawn s addr .cancelled) := by
          rw [ServerPushManager.cancelPush,withdraw_eq h.accounted hfind hunique]
          rfl
        have hacc := (h.accounted.withdrawn_iff hp (show PromiseState.cancelled ≠ .inProgress by simp)).mpr fun _ => hprogress
        have howned := h.owned.modifyPromise addr (f:=fun p => { p with promiseState := .cancelled }) fun _ => rfl
        have howned : PromisesOwned (withdrawn s addr .cancelled) := ⟨howned.owned,howned.listed,howned.allocated⟩
        simp only [if_pos hprogress,hcancel]
        refine ih ⟨howned.destroy hlookup,hacc.destroy fun q hq => ?_⟩
        obtain ⟨p,-,rfl⟩ := setState_some.mp hq
        simp
      · simp only [if_neg hprogress]
        refine ih ⟨h.owned.destroy hlookup,h.accounted.destroy fun q hq => ?_⟩
        rw [hp,Option.some.injEq] at hq
        exact hq ▸ hprogress

/-- The calls after which the pushes are accounted for, one by one. -/
theorem pushStep_iff (h : Tracked s) (call : PushCall) (hdistinct : DistinctId s call) :
    (PushesAccounted (pushStep s call) ↔ Orderly s call) ∧ PromisesOwned (pushStep s call) := by
  cases call with
  | createPushPromise streamId url headers milliTimestamp now =>
    have hafter : Tracked (pushStep s (.createPushPromise streamId url headers milliTimestamp now)) := by
      rw [pushStep,ServerPushManager.createPushPromise]
      split
      · rename_i hfits
        exact h.register (hdistinct hfits) (by simp)
      · exact h
    exact ⟨iff_of_true hafter.accounted trivial,hafter.owned⟩
  | startPush pushId => exact h.startPush pushId
  | cancelPush pushId => exact h.withdraw pushId (by simp)
  | completePush pushId now => exact h.completePush pushId now
  | cleanup now order =>
    have hafter : Tracked (pushStep s (.cleanup now order)) := by
      rw [pushStep,ServerPushManager.cleanup]
      split
      · exact h.removeAll _
      · exact h
    exact ⟨iff_of_true hafter.accounted trivial,hafter.owned⟩
  | change pushId c =>
    have hafter : Tracked (pushStep s (.change pushId c)) := by
      rw [pushStep]
      cases s.pushPromises.lookup pushId with
      | none => exact h
      | some addr => exact h.modifyPromise addr c
    exact ⟨iff_of_true hafter.accounted trivial,hafter.owned⟩

end Calls

/-- With distinct ids the pushes are accounted for after every call exactly if no push is
started that is in progress already, and none cancelled or completed that is not in
progress while others are. -/
theorem along_pushesAccounted_iff (maxConcurrentPushes : ℕ) (calls : List PushCall)
    (hdistinct : Along pushStep DistinctId (.init maxConcurrentPushes) calls) :
    PushesAccounted (.init maxConcurrentPushes) ∧
    (Along pushStep (fun s call => PushesAccounted (pushStep s call)) (.init maxConcurrentPushes) calls ↔
      Along pushStep Orderly (.init maxConcurrentPushes) calls) := by
  have hinit := tracked_init maxConcurrentPushes
  refine ⟨hinit.accounted,along_iff_of_along (I:=Tracked) ?_ ?_ hinit hdistinct⟩
  · intro s call h hnew hgood
    obtain ⟨hiff,howned⟩ := pushStep_iff h call hnew
    exact ⟨howned,hiff.mpr hgood⟩
  · intro s call h hnew
    exact (pushStep_iff h call hnew).1

/-- Two promises, of the stream 1, at milliseconds 5 and 6. -/
def twoPromises : List PushCall := [.createPushPromise 1 [] [] 5 0,.createPushPromise 1 [] [] 6 0]

theorem along_pushesAccounted_iff_twoPromises :
    PushesAccounted (.init 2) ∧
    (Along pushStep (fun s call => PushesAccounted (pushStep s call)) (.init 2)
        (twoPromises++[.startPush 5,.completePush 5 0]) ↔
      Along pushStep Orderly (.init 2) (twoPromises++[.startPush 5,.completePush 5 0])) :=
  along_pushesAccounted_iff 2 _ ⟨fun _ => rfl,fun _ => rfl,trivial,trivial,trivial⟩

/-- A push that is started twice is active twice, and when a promise is cancelled that was
not started, the counter forgets the push that was. -/
theorem pushesAccounted_broken :
    (Along pushStep DistinctId (.init 2) (twoPromises++[.startPush 5,.startPush 5]) ∧
      ¬Along pushStep (fun s call => PushesAccounted (pushStep s call)) (.init 2)
        (twoPromises++[.startPush 5,.startPush 5])) ∧
    (Along pushStep DistinctId (.init 2) (twoPromises++[.startPush 5,.cancelPush 6]) ∧
      ¬Along pushStep (fun s call => PushesAccounted (pushStep s call)) (.init 2)
        (twoPromises++[.startPush 5,.cancelPush 6])) := by
  refine ⟨⟨⟨fun _ => rfl,fun _ => rfl,trivial,trivial,trivial⟩,?_⟩,
    ⟨⟨fun _ => rfl,fun _ => rfl,trivial,trivial,trivial⟩,?_⟩⟩
  · rintro ⟨-,-,-,hstart,-⟩
    exact absurd hstart.once (by decide)
  · rintro ⟨-,-,-,hcancel,-⟩
    exact absurd hcancel.counter (by decide)

end ZNet.Prioritization
