import ZNet.WorkerCache
import ZNet.WorkerLifecycle
import ZNet.Isolation

/-!
# Access to caches

A worker is associated with the caches that it opens. Lookups ask for the association, and
what puts something into a cache does not.
-/

namespace ZNet.WorkerCache
open Tables Runs Isolation
open WorkerLifecycle (WorkerId)

/-- A cache as calls make it, in which no size is missing from the count. -/
structure SoundCache where
  cache : Cache
  covered : cache.Covered

namespace SoundCache

def init (name : Str) (maxEntries maxSize : ℕ) : SoundCache := ⟨.init name maxEntries maxSize,Nat.zero_le _⟩

/-- A put does not trap. -/
theorem put_isSome (self : SoundCache) (order : IterationOrder Str) (request : CacheRequest) (response : CacheResponse)
    (now : ℤ) : (self.cache.put order request response now).isSome := by
  obtain ⟨self',hput,-⟩ := Cache.putEntry_covered order (.init request response now) self.covered
  rw [Cache.put,hput]
  rfl

def put (self : SoundCache) (order : IterationOrder Str) (request : CacheRequest) (response : CacheResponse) (now : ℤ) :
    SoundCache where
  cache := (self.cache.put order request response now).get (self.put_isSome order request response now)
  covered := by
    obtain ⟨self',hput,hcovered⟩ := Cache.putEntry_covered order (.init request response now) self.covered
    rw [← Cache.put] at hput
    simp only [hput,Option.get_some]
    exact hcovered

def matchOne (self : SoundCache) (order : IterationOrder Str) (request : CacheRequest) (options : CacheMatchOptions)
    (now : ℤ) : Option CacheEntry×SoundCache where
  fst := (self.cache.matchOne order request options now).1
  snd := {
    cache := (self.cache.matchOne order request options now).2
    covered := by
      rcases Cache.matchOne_cases self.cache order request options now with ⟨-,hmatch⟩ | ⟨best,-,-,hlookup,hmatch⟩
      · rw [hmatch]
        exact self.covered
      · rw [hmatch]
        exact Cache.covered_updateAccess self.covered hlookup now }

end SoundCache

structure CacheManagerConfig where
  maxCacheEntries : ℕ := 1000
  maxCacheSize : ℕ := 50*1024*1024

structure CacheManager where
  caches : Table Str SoundCache
  workerCaches : Table WorkerId (List Str)
  globalConfig : CacheManagerConfig

/-- What a call returns. -/
inductive Answer
  | opened
  | deleted (found : Bool)
  | names (names : List Str)
  | done
  | cacheNotFound
  | found (entry : Option CacheEntry)
  | entries (entries : List CacheEntry)
deriving DecidableEq

namespace CacheManager

def init (config : CacheManagerConfig) : CacheManager := ⟨∅,∅,config⟩

def namesOf (self : CacheManager) (worker : WorkerId) : List Str := (self.workerCaches.lookup worker).getD []

def associateWorkerWithCache (self : CacheManager) (worker : WorkerId) (name : Str) : CacheManager :=
  match self.workerCaches.lookup worker with
  | some names =>
    if names.contains name then self else { self with workerCaches := self.workerCaches.insert worker (names++[name]) }
  | none => { self with workerCaches := self.workerCaches.insert worker [name] }

def workerHasCacheAccess (self : CacheManager) (worker : WorkerId) (name : Str) : Bool :=
  match self.workerCaches.lookup worker with
  | some names => names.contains name
  | none => false

def isCacheUsedByOtherWorker (self : CacheManager) (worker : WorkerId) (name : Str) : Bool :=
  self.workerCaches.entries.any fun e => !decide (e.1 = worker) && e.2.contains name

def open_ (self : CacheManager) (worker : WorkerId) (name : Str) : Answer×CacheManager :=
  match self.caches.lookup name with
  | some _ => (.opened,self.associateWorkerWithCache worker name)
  | none =>
    let cache := SoundCache.init name self.globalConfig.maxCacheEntries self.globalConfig.maxCacheSize
    (.opened,({ self with caches := self.caches.insert name cache } : CacheManager).associateWorkerWithCache worker name)

/-- The name leaves the list of the worker, in place. -/
def dissociate (self : CacheManager) (worker : WorkerId) (name : Str) : CacheManager :=
  match self.workerCaches.lookup worker with
  | some names =>
    if names.contains name then { self with workerCaches := self.workerCaches.insert worker (names.erase name) } else self
  | none => self

def delete (self : CacheManager) (worker : WorkerId) (name : Str) : Answer×CacheManager :=
  match self.caches.lookup name with
  | some _ =>
    let self := self.dissociate worker name
    if self.isCacheUsedByOtherWorker worker name then (.deleted false,self)
    else (.deleted true,{ self with caches := self.caches.erase name })
  | none => (.deleted false,self)

def keys (self : CacheManager) (worker : WorkerId) : Answer×CacheManager :=
  match self.workerCaches.lookup worker with
  | some names => (.names names,self)
  | none => (.names [],self)

def put (self : CacheManager) (name : Str) (request : CacheRequest) (response : CacheResponse) (order : IterationOrder Str)
    (now : ℤ) : Answer×CacheManager :=
  match self.caches.lookup name with
  | some cache => (.done,{ self with caches := self.caches.insert name (cache.put order request response now) })
  | none => (.cacheNotFound,self)

/-- The requests come with their responses. Where the cache exists, each is put into it. -/
def addAll (self : CacheManager) (name : Str) (pairs : List (CacheRequest×CacheResponse)) (order : IterationOrder Str)
    (now : ℤ) : Answer×CacheManager :=
  (.done,pairs.foldl (fun self pair => (self.put name pair.1 pair.2 order now).2) self)

/-- The function `match`. -/
def matchOne (self : CacheManager) (worker : WorkerId) (name : Str) (request : CacheRequest) (options : CacheMatchOptions)
    (order : IterationOrder Str) (now : ℤ) : Answer×CacheManager :=
  match self.caches.lookup name with
  | some cache =>
    if self.workerHasCacheAccess worker name then
      let (entry,cache) := cache.matchOne order request options now
      (.found entry,{ self with caches := self.caches.insert name cache })
    else (.found none,self)
  | none => (.found none,self)

def matchAll (self : CacheManager) (worker : WorkerId) (name : Str) (request : CacheRequest) (options : CacheMatchOptions)
    (order : IterationOrder Str) (now : ℤ) : Answer×CacheManager :=
  match self.caches.lookup name with
  | some cache =>
    if self.workerHasCacheAccess worker name then (.entries (cache.cache.matchAll order request options now),self)
    else (.entries [],self)
  | none => (.entries [],self)

end CacheManager

inductive Operation
  | open_ (name : Str)
  | delete (name : Str)
  | keys
  | addAll (name : Str) (pairs : List (CacheRequest×CacheResponse))
  | put (name : Str) (request : CacheRequest) (response : CacheResponse)
  | matchOne (name : Str) (request : CacheRequest) (options : CacheMatchOptions)
  | matchAll (name : Str) (request : CacheRequest) (options : CacheMatchOptions)

/-- A call of a worker, with the time and the order in which entries are iterated over. -/
structure WorkerCall where
  worker : WorkerId
  operation : Operation
  now : ℤ
  order : IterationOrder Str

def CacheManager.serve (self : CacheManager) (c : WorkerCall) : Answer×CacheManager :=
  match c.operation with
  | .open_ name => self.open_ c.worker name
  | .delete name => self.delete c.worker name
  | .keys => self.keys c.worker
  | .addAll name pairs => self.addAll name pairs c.order c.now
  | .put name request response => self.put name request response c.order c.now
  | .matchOne name request options => self.matchOne c.worker name request options c.order c.now
  | .matchAll name request options => self.matchAll c.worker name request options c.order c.now

/-- The manager, and the caches that each worker has opened and not deleted since. -/
structure World where
  manager : CacheManager
  opened : WorkerId → Str → Bool

def World.init (config : CacheManagerConfig) : World := ⟨.init config,fun _ _ => false⟩

/-- What a worker has opened after a call. -/
def openedAfter (opened : WorkerId → Str → Bool) (c : WorkerCall) : WorkerId → Str → Bool :=
  match c.operation with
  | .open_ name => fun worker name' => decide (worker = c.worker ∧ name' = name) || opened worker name'
  | .delete name => fun worker name' => !decide (worker = c.worker ∧ name' = name) && opened worker name'
  | _ => opened

def enact (s : World) (c : WorkerCall) : Answer×World :=
  ((s.manager.serve c).1,⟨(s.manager.serve c).2,openedAfter s.opened c⟩)

def after (s : World) (c : WorkerCall) : World := (enact s c).2

/-- The name of the cache that a call is about. -/
def Operation.name? : Operation → Option Str
  | .keys => none
  | .open_ name | .delete name | .addAll name _ | .put name _ _ | .matchOne name _ _ | .matchAll name _ _ => some name

/-- The same with one cache less. -/
def CacheManager.without (self : CacheManager) (name : Str) : CacheManager :=
  { self with caches := self.caches.erase name }

/-- A call of a worker leaves the caches alone that the worker has not opened, and returns
what it would return without them. -/
def Harmless (s : World) (c : WorkerCall) : Prop :=
  ∀ name, s.opened c.worker name = false → c.operation ≠ .open_ name →
    (s.manager.serve c).2.caches.lookup name = s.manager.caches.lookup name ∧
    ((s.manager.without name).serve c).1 = (s.manager.serve c).1

/-- A worker puts nothing into a cache that it has not opened. -/
def Permitted (s : World) (c : WorkerCall) : Prop :=
  match c.operation with
  | .put name _ _ => s.opened c.worker name = false → s.manager.caches.lookup name = none
  | .addAll name pairs => s.opened c.worker name = false → s.manager.caches.lookup name = none ∨ pairs = []
  | _ => True

/-- A call of the worker with the name of a cache that it has not opened, other than to open
it. -/
def Outside (worker : WorkerId) (name : Str) (s : World) (c : WorkerCall) : Bool :=
  decide (c.worker = worker ∧ c.operation.name? = some name) && !s.opened worker name &&
    match c.operation with
    | .open_ _ => false
    | _ => true

/-- The calls of a run without those. -/
def others (worker : WorkerId) (name : Str) : World → List WorkerCall → List WorkerCall
  | _,[] => []
  | s,c::calls =>
    if Outside worker name s c then others worker name (enact s c).2 calls
    else c::others worker name (enact s c).2 calls

/-- The caches are those that some worker is associated with, and the associations are what
the workers have opened. -/
structure Linked (s : World) : Prop where
  opened : ∀ worker name, s.opened worker name = true ↔ name ∈ s.manager.namesOf worker
  nodup : ∀ worker, (s.manager.namesOf worker).Nodup
  stored : ∀ worker name, s.opened worker name = true → name ∈ s.manager.caches
  used : ∀ name, name ∈ s.manager.caches → ∃ worker, s.opened worker name = true

section Associations

variable {self : CacheManager} {worker other : WorkerId} {name : Str}

theorem namesOf_of_none (h : self.workerCaches.lookup worker = none) : self.namesOf worker = [] := by
  rw [CacheManager.namesOf,h]
  rfl

theorem namesOf_of_some {names : List Str} (h : self.workerCaches.lookup worker = some names) :
    self.namesOf worker = names := by
  rw [CacheManager.namesOf,h]
  rfl

theorem access_iff : self.workerHasCacheAccess worker name = true ↔ name ∈ self.namesOf worker := by
  rw [CacheManager.workerHasCacheAccess,CacheManager.namesOf]
  cases self.workerCaches.lookup worker with
  | none => simp
  | some names => simp

theorem usedByOther_iff : self.isCacheUsedByOtherWorker worker name = true ↔
    ∃ other, other ≠ worker ∧ name ∈ self.namesOf other := by
  rw [CacheManager.isCacheUsedByOtherWorker,List.any_eq_true]
  constructor
  · rintro ⟨⟨other,names⟩,hmem,hused⟩
    rw [Bool.and_eq_true,Bool.not_eq_true',decide_eq_false_iff_not,List.contains_iff_mem] at hused
    refine ⟨other,hused.1,?_⟩
    rw [namesOf_of_some (AList.mem_lookup_iff.mpr hmem)]
    exact hused.2
  · rintro ⟨other,hne,hname⟩
    cases hlookup : self.workerCaches.lookup other with
    | none =>
      rw [namesOf_of_none hlookup] at hname
      cases hname
    | some names =>
      rw [namesOf_of_some hlookup] at hname
      refine ⟨⟨other,names⟩,AList.mem_lookup_iff.mp hlookup,?_⟩
      rw [Bool.and_eq_true,Bool.not_eq_true',decide_eq_false_iff_not,List.contains_iff_mem]
      exact ⟨hne,hname⟩

theorem namesOf_insert (manager : CacheManager) (names : List Str) :
    ({ manager with workerCaches := manager.workerCaches.insert worker names } : CacheManager).namesOf other =
      if other = worker then names else manager.namesOf other := by
  rw [CacheManager.namesOf,lookup_insert_eq]
  by_cases h : other = worker
  · rw [if_pos h,if_pos h]
    rfl
  · rw [if_neg h,if_neg h]
    rfl

theorem associate_frame (self : CacheManager) (worker : WorkerId) (name : Str) :
    (self.associateWorkerWithCache worker name).caches = self.caches ∧
    ∀ other, (self.associateWorkerWithCache worker name).namesOf other =
      if other = worker ∧ name ∉ self.namesOf worker then self.namesOf worker++[name] else self.namesOf other := by
  rw [CacheManager.associateWorkerWithCache]
  cases hlookup : self.workerCaches.lookup worker with
  | none =>
    refine ⟨rfl,fun other => ?_⟩
    rw [namesOf_insert,namesOf_of_none hlookup]
    simp
  | some names =>
    have hnames := namesOf_of_some hlookup
    rw [hnames]
    by_cases hmem : name ∈ names
    · simp only [List.contains_iff_mem,if_pos hmem]
      exact ⟨trivial,fun other => by rw [if_neg fun h => h.2 hmem]⟩
    · simp only [List.contains_iff_mem,if_neg hmem]
      refine ⟨trivial,fun other => ?_⟩
      rw [namesOf_insert]
      simp [hmem]

theorem dissociate_frame (self : CacheManager) (worker : WorkerId) (name : Str) :
    (self.dissociate worker name).caches = self.caches ∧
    ∀ other, (self.dissociate worker name).namesOf other =
      if other = worker then (self.namesOf worker).erase name else self.namesOf other := by
  rw [CacheManager.dissociate]
  cases hlookup : self.workerCaches.lookup worker with
  | none =>
    refine ⟨rfl,fun other => ?_⟩
    change self.namesOf other = _
    split
    · rename_i hsame
      rw [hsame,namesOf_of_none hlookup]
      rfl
    · rfl
  | some names =>
    have hnames := namesOf_of_some hlookup
    rw [hnames]
    by_cases hmem : name ∈ names
    · simp only [List.contains_iff_mem,if_pos hmem]
      exact ⟨trivial,fun other => namesOf_insert self (names.erase name)⟩
    · simp only [List.contains_iff_mem,if_neg hmem]
      refine ⟨trivial,fun other => ?_⟩
      rw [List.erase_of_not_mem hmem]
      split
      · rename_i hsame
        rw [hsame,hnames]
      · rfl

/-- A worker that is not associated stays so. -/
theorem dissociate_of_not_mem (h : name ∉ self.namesOf worker) : self.dissociate worker name = self := by
  rw [CacheManager.dissociate]
  cases hlookup : self.workerCaches.lookup worker with
  | none => rfl
  | some names =>
    rw [namesOf_of_some hlookup,← List.contains_iff_mem] at h
    exact if_neg h

end Associations

section Puts

variable {self : CacheManager} {name name' : Str} {order : IterationOrder Str} {now : ℤ}

/-- A cache with another content stands in its place. -/
theorem replace_frame {cache : SoundCache} (h : self.caches.lookup name = some cache) (cache' : SoundCache) :
    (∀ name', name' ∈ self.caches.insert name cache' ↔ name' ∈ self.caches) ∧
    ∀ name', name' ≠ name → (self.caches.insert name cache').lookup name' = self.caches.lookup name' := by
  refine ⟨fun name' => ?_,fun name' hne => AList.lookup_insert_ne hne⟩
  rw [AList.mem_insert,or_iff_right_of_imp]
  rintro rfl
  exact mem_of_lookup h

/-- A put changes only the cache that it names. -/
theorem put_frame (self : CacheManager) (name : Str) (request : CacheRequest) (response : CacheResponse)
    (order : IterationOrder Str) (now : ℤ) :
    (self.put name request response order now).2.workerCaches = self.workerCaches ∧
    (∀ name', name' ∈ (self.put name request response order now).2.caches ↔ name' ∈ self.caches) ∧
    ∀ name', name' ≠ name → (self.put name request response order now).2.caches.lookup name' = self.caches.lookup name' := by
  rw [CacheManager.put]
  cases hlookup : self.caches.lookup name with
  | none => exact ⟨rfl,fun _ => Iff.rfl,fun _ _ => rfl⟩
  | some cache => exact ⟨rfl,replace_frame hlookup _⟩

theorem put_of_none (h : self.caches.lookup name = none) (request : CacheRequest) (response : CacheResponse)
    (order : IterationOrder Str) (now : ℤ) :
    self.put name request response order now = (.cacheNotFound,self) := by
  rw [CacheManager.put,h]

theorem addAll_frame (self : CacheManager) (name : Str) (pairs : List (CacheRequest×CacheResponse))
    (order : IterationOrder Str) (now : ℤ) :
    (self.addAll name pairs order now).2.workerCaches = self.workerCaches ∧
    (∀ name', name' ∈ (self.addAll name pairs order now).2.caches ↔ name' ∈ self.caches) ∧
    ∀ name', name' ≠ name → (self.addAll name pairs order now).2.caches.lookup name' = self.caches.lookup name' := by
  rw [CacheManager.addAll]
  induction pairs generalizing self with
  | nil => exact ⟨rfl,fun _ => Iff.rfl,fun _ _ => rfl⟩
  | cons pair pairs ih =>
    obtain ⟨hworkers,hmem,hother⟩ := put_frame self name pair.1 pair.2 order now
    obtain ⟨hworkers',hmem',hother'⟩ := ih (self.put name pair.1 pair.2 order now).2
    refine ⟨hworkers'.trans hworkers,fun name' => (hmem' name').trans (hmem name'),?_⟩
    intro name' hne
    exact (hother' name' hne).trans (hother name' hne)

theorem addAll_of_none (h : self.caches.lookup name = none) (pairs : List (CacheRequest×CacheResponse)) :
    (self.addAll name pairs order now).2 = self := by
  rw [CacheManager.addAll]
  induction pairs with
  | nil => rfl
  | cons pair pairs ih =>
    rw [List.foldl_cons,put_of_none h]
    exact ih

end Puts

section Calls

variable {s : World} {c : WorkerCall} {worker : WorkerId} {name : Str}

theorem Linked.init (config : CacheManagerConfig) : Linked (.init config) where
  opened _ _ := iff_of_false Bool.false_ne_true nofun
  nodup _ := List.nodup_nil
  stored _ _ h := absurd h Bool.false_ne_true
  used _ h := absurd h (AList.notMem_empty _)

/-- Where neither the associations nor the set of the caches change. -/
theorem Linked.congr {t : World} (hlinked : Linked s) (hopened : t.opened = s.opened)
    (hworkers : t.manager.workerCaches = s.manager.workerCaches)
    (hmem : ∀ name, name ∈ t.manager.caches ↔ name ∈ s.manager.caches) : Linked t := by
  have hnames : ∀ worker, t.manager.namesOf worker = s.manager.namesOf worker := by
    intro worker
    rw [CacheManager.namesOf,CacheManager.namesOf,hworkers]
  constructor
  · intro worker name
    rw [hopened,hnames]
    exact hlinked.opened worker name
  · intro worker
    rw [hnames]
    exact hlinked.nodup worker
  · intro worker name h
    rw [hopened] at h
    exact (hmem name).mpr (hlinked.stored worker name h)
  · intro name h
    rw [hopened]
    exact hlinked.used name ((hmem name).mp h)

theorem Linked.access (hlinked : Linked s) : s.manager.workerHasCacheAccess worker name = s.opened worker name := by
  rw [Bool.eq_iff_iff,access_iff,hlinked.opened]

theorem open_frame (self : CacheManager) (worker : WorkerId) (name : Str) :
    (self.open_ worker name).1 = .opened ∧
    (∀ name', name' ∈ (self.open_ worker name).2.caches ↔ name' = name ∨ name' ∈ self.caches) ∧
    (∀ name', name' ≠ name → (self.open_ worker name).2.caches.lookup name' = self.caches.lookup name') ∧
    ∀ other, (self.open_ worker name).2.namesOf other =
      if other = worker ∧ name ∉ self.namesOf worker then self.namesOf worker++[name] else self.namesOf other := by
  rw [CacheManager.open_]
  cases hlookup : self.caches.lookup name with
  | some cache =>
    obtain ⟨hcaches,hnames⟩ := associate_frame self worker name
    simp only [hcaches]
    refine ⟨trivial,fun name' => ?_,fun _ _ => trivial,hnames⟩
    rw [or_iff_right_of_imp]
    rintro rfl
    exact mem_of_lookup hlookup
  | none =>
    simp only
    generalize SoundCache.init name self.globalConfig.maxCacheEntries self.globalConfig.maxCacheSize = cache
    obtain ⟨hcaches,hnames⟩ := associate_frame { self with caches := self.caches.insert name cache } worker name
    rw [hcaches]
    refine ⟨trivial,fun name' => AList.mem_insert _,fun name' hne => AList.lookup_insert_ne hne,hnames⟩

theorem openedAfter_open (opened : WorkerId → Str → Bool) (now : ℤ) (order : IterationOrder Str) (worker' : WorkerId)
    (name' : Str) : openedAfter opened ⟨worker,.open_ name,now,order⟩ worker' name' = true ↔
      worker' = worker ∧ name' = name ∨ opened worker' name' = true := by
  rw [openedAfter]
  simp

theorem openedAfter_delete (opened : WorkerId → Str → Bool) (now : ℤ) (order : IterationOrder Str) (worker' : WorkerId)
    (name' : Str) : openedAfter opened ⟨worker,.delete name,now,order⟩ worker' name' = true ↔
      ¬(worker' = worker ∧ name' = name) ∧ opened worker' name' = true := by
  simp only [openedAfter,Bool.and_eq_true,Bool.not_eq_true',decide_eq_false_iff_not]

/-- To delete a cache that one has not opened changes nothing of what was opened. -/
theorem openedAfter_delete_closed {opened : WorkerId → Str → Bool} (h : opened worker name = false) (now : ℤ)
    (order : IterationOrder Str) : openedAfter opened ⟨worker,.delete name,now,order⟩ = opened := by
  funext worker' name'
  rw [Bool.eq_iff_iff,openedAfter_delete]
  refine and_iff_right_of_imp ?_
  rintro hold ⟨rfl,rfl⟩
  rw [h] at hold
  cases hold

theorem linked_open (hlinked : Linked s) (worker : WorkerId) (name : Str) (now : ℤ) (order : IterationOrder Str) :
    Linked (enact s ⟨worker,.open_ name,now,order⟩).2 := by
  obtain ⟨-,hmem,-,hnames⟩ := open_frame s.manager worker name
  have hopened := @openedAfter_open worker name s.opened now order
  constructor
  · intro worker' name'
    refine (hopened worker' name').trans ?_
    change _ ↔ name' ∈ (s.manager.open_ worker name).2.namesOf worker'
    rw [hnames,hlinked.opened]
    by_cases hworker : worker' = worker
    · by_cases hold : name ∈ s.manager.namesOf worker
      · rw [if_neg fun h => h.2 hold,or_iff_right_of_imp]
        rintro ⟨rfl,rfl⟩
        exact hold
      · rw [if_pos ⟨hworker,hold⟩,List.mem_append,List.mem_singleton,hworker]
        simp [or_comm]
    · rw [if_neg fun h => hworker h.1,or_iff_right fun h => hworker h.1]
  · intro worker'
    change ((s.manager.open_ worker name).2.namesOf worker').Nodup
    rw [hnames]
    split
    · rename_i hnew
      rw [List.nodup_append]
      refine ⟨hlinked.nodup worker,List.nodup_singleton name,?_⟩
      intro a ha b hb hab
      rw [List.mem_singleton] at hb
      exact hnew.2 (hb ▸ hab ▸ ha)
    · exact hlinked.nodup worker'
  · intro worker' name' h
    apply (hmem name').mpr
    rcases (hopened worker' name').mp h with ⟨-,hname⟩ | hold
    · exact Or.inl hname
    · exact Or.inr (hlinked.stored worker' name' hold)
  · intro name' h
    rcases (hmem name').mp h with hname | hold
    · exact ⟨worker,(hopened worker name').mpr (Or.inl ⟨rfl,hname⟩)⟩
    · obtain ⟨worker',hworker'⟩ := hlinked.used name' hold
      exact ⟨worker',(hopened worker' name').mpr (Or.inr hworker')⟩

/-- A cache is deleted with its last association. -/
theorem delete_cases (self : CacheManager) (worker : WorkerId) (name : Str) :
    name ∉ self.caches ∧ self.delete worker name = (.deleted false,self) ∨
    name ∈ self.caches ∧ (∃ other, other ≠ worker ∧ name ∈ self.namesOf other) ∧
      self.delete worker name = (.deleted false,self.dissociate worker name) ∨
    name ∈ self.caches ∧ (∀ other, other ≠ worker → name ∉ self.namesOf other) ∧
      self.delete worker name = (.deleted true,(self.dissociate worker name).without name) := by
  rw [CacheManager.delete]
  cases hlookup : self.caches.lookup name with
  | none => exact Or.inl ⟨AList.lookup_eq_none.mp hlookup,rfl⟩
  | some cache =>
    right
    have hmem := mem_of_lookup hlookup
    obtain ⟨-,hnames⟩ := dissociate_frame self worker name
    have hused : (self.dissociate worker name).isCacheUsedByOtherWorker worker name = true ↔
        ∃ other, other ≠ worker ∧ name ∈ self.namesOf other := by
      rw [usedByOther_iff]
      refine exists_congr fun other => and_congr_right fun hne => ?_
      rw [hnames,if_neg hne]
    by_cases h : (self.dissociate worker name).isCacheUsedByOtherWorker worker name = true
    · simp only [h,if_true]
      exact Or.inl ⟨hmem,hused.mp h,trivial⟩
    · simp only [h]
      refine Or.inr ⟨hmem,?_,rfl⟩
      intro other hne hname
      exact h (hused.mpr ⟨other,hne,hname⟩)

theorem delete_answer (self : CacheManager) (worker : WorkerId) (name : Str) :
    ∃ found, (self.delete worker name).1 = .deleted found ∧
      (found = true ↔ name ∈ self.caches ∧ ∀ other, other ≠ worker → name ∉ self.namesOf other) := by
  rcases delete_cases self worker name with ⟨hnone,hdelete⟩ | ⟨-,⟨other,hne,hused⟩,hdelete⟩ | ⟨hmem,hlast,hdelete⟩
  · exact ⟨false,by rw [hdelete],iff_of_false Bool.false_ne_true fun h => hnone h.1⟩
  · exact ⟨false,by rw [hdelete],iff_of_false Bool.false_ne_true fun h => h.2 other hne hused⟩
  · exact ⟨true,by rw [hdelete],iff_of_true rfl ⟨hmem,hlast⟩⟩

theorem linked_delete (hlinked : Linked s) (worker : WorkerId) (name : Str) (now : ℤ) (order : IterationOrder Str) :
    Linked (enact s ⟨worker,.delete name,now,order⟩).2 := by
  have hopened := @openedAfter_delete worker name s.opened now order
  obtain ⟨hcaches,hnames⟩ := dissociate_frame s.manager worker name
  have hassociated : ∀ worker' name', openedAfter s.opened ⟨worker,.delete name,now,order⟩ worker' name' = true ↔
      name' ∈ (s.manager.dissociate worker name).namesOf worker' := by
    intro worker' name'
    rw [hopened,hlinked.opened,hnames]
    by_cases hworker : worker' = worker
    · rw [if_pos hworker,(hlinked.nodup worker).mem_erase_iff,hworker]
      simp
    · rw [if_neg hworker]
      exact and_iff_right fun h => hworker h.1
  have hnodup : ∀ worker', ((s.manager.dissociate worker name).namesOf worker').Nodup := by
    intro worker'
    rw [hnames]
    split
    · exact (hlinked.nodup worker).erase name
    · exact hlinked.nodup worker'
  rcases delete_cases s.manager worker name with ⟨hnone,hdelete⟩ | ⟨hmem,⟨other,hne,hother⟩,hdelete⟩ | ⟨hmem,hlast,hdelete⟩
  · -- No worker is associated with a cache that does not exist.
    have hclosed : s.opened worker name = false := by
      rw [Bool.eq_false_iff]
      exact fun hopen => hnone (hlinked.stored worker name hopen)
    rw [enact,openedAfter_delete_closed hclosed]
    change Linked ⟨(s.manager.delete worker name).2,s.opened⟩
    rw [hdelete]
    exact hlinked
  · change Linked ⟨(s.manager.delete worker name).2,_⟩
    rw [hdelete]
    refine ⟨hassociated,hnodup,?_,?_⟩
    · intro worker' name' h
      change name' ∈ (s.manager.dissociate worker name).caches
      rw [hcaches]
      exact hlinked.stored worker' name' ((hopened worker' name').mp h).2
    · intro name' h
      change name' ∈ (s.manager.dissociate worker name).caches at h
      rw [hcaches] at h
      by_cases hname : name' = name
      · exact ⟨other,(hopened other name').mpr ⟨fun h => hne h.1,(hlinked.opened other name').mpr (hname ▸ hother)⟩⟩
      · obtain ⟨worker',hworker'⟩ := hlinked.used name' h
        exact ⟨worker',(hopened worker' name').mpr ⟨fun h => hname h.2,hworker'⟩⟩
  · change Linked ⟨(s.manager.delete worker name).2,_⟩
    rw [hdelete]
    refine ⟨hassociated,hnodup,?_,?_⟩
    · intro worker' name' h
      obtain ⟨hkept,hold⟩ := (hopened worker' name').mp h
      change name' ∈ (s.manager.dissociate worker name).caches.erase name
      rw [hcaches,AList.mem_erase]
      refine ⟨?_,hlinked.stored worker' name' hold⟩
      rintro rfl
      exact hlast worker' (fun hworker => hkept ⟨hworker,rfl⟩) ((hlinked.opened worker' name').mp hold)
    · intro name' h
      change name' ∈ (s.manager.dissociate worker name).caches.erase name at h
      rw [hcaches,AList.mem_erase] at h
      obtain ⟨worker',hworker'⟩ := hlinked.used name' h.2
      exact ⟨worker',(hopened worker' name').mpr ⟨fun hsame => h.1 hsame.2,hworker'⟩⟩

theorem matchOne_frame (self : CacheManager) (worker : WorkerId) (name : Str) (request : CacheRequest)
    (options : CacheMatchOptions) (order : IterationOrder Str) (now : ℤ) :
    (self.matchOne worker name request options order now).2.workerCaches = self.workerCaches ∧
    (∀ name', name' ∈ (self.matchOne worker name request options order now).2.caches ↔ name' ∈ self.caches) ∧
    ∀ name', name' ≠ name →
      (self.matchOne worker name request options order now).2.caches.lookup name' = self.caches.lookup name' := by
  rw [CacheManager.matchOne]
  cases hlookup : self.caches.lookup name with
  | none => exact ⟨rfl,fun _ => Iff.rfl,fun _ _ => rfl⟩
  | some cache =>
    simp only
    split
    · exact ⟨rfl,replace_frame hlookup _⟩
    · exact ⟨rfl,fun _ => Iff.rfl,fun _ _ => rfl⟩

theorem matchOne_refused {self : CacheManager} {worker : WorkerId} {name : Str}
    (h : self.workerHasCacheAccess worker name = false) (request : CacheRequest) (options : CacheMatchOptions)
    (order : IterationOrder Str) (now : ℤ) :
    self.matchOne worker name request options order now = (.found none,self) := by
  rw [CacheManager.matchOne,h]
  cases self.caches.lookup name with
  | none => rfl
  | some cache => rfl

theorem matchAll_refused {self : CacheManager} {worker : WorkerId} {name : Str}
    (h : self.workerHasCacheAccess worker name = false) (request : CacheRequest) (options : CacheMatchOptions)
    (order : IterationOrder Str) (now : ℤ) :
    self.matchAll worker name request options order now = (.entries [],self) := by
  rw [CacheManager.matchAll,h]
  cases self.caches.lookup name with
  | none => rfl
  | some cache => rfl

theorem matchAll_same (self : CacheManager) (worker : WorkerId) (name : Str) (request : CacheRequest)
    (options : CacheMatchOptions) (order : IterationOrder Str) (now : ℤ) :
    (self.matchAll worker name request options order now).2 = self := by
  rw [CacheManager.matchAll]
  split
  · split
    · rfl
    · rfl
  · rfl

theorem keys_same (self : CacheManager) (worker : WorkerId) : (self.keys worker).2 = self := by
  rw [CacheManager.keys]
  split
  · rfl
  · rfl

theorem enact_linked (hlinked : Linked s) (c : WorkerCall) : Linked (enact s c).2 := by
  obtain ⟨worker,operation,now,order⟩ := c
  cases operation with
  | open_ name => exact linked_open hlinked worker name now order
  | delete name => exact linked_delete hlinked worker name now order
  | keys =>
    change Linked ⟨(s.manager.keys worker).2,s.opened⟩
    rw [keys_same]
    exact hlinked
  | addAll name pairs =>
    obtain ⟨hworkers,hmem,-⟩ := addAll_frame s.manager name pairs order now
    exact hlinked.congr rfl hworkers hmem
  | put name request response =>
    obtain ⟨hworkers,hmem,-⟩ := put_frame s.manager name request response order now
    exact hlinked.congr rfl hworkers hmem
  | matchOne name request options =>
    obtain ⟨hworkers,hmem,-⟩ := matchOne_frame s.manager worker name request options order now
    exact hlinked.congr rfl hworkers hmem
  | matchAll name request options =>
    change Linked ⟨(s.manager.matchAll worker name request options order now).2,s.opened⟩
    rw [matchAll_same]
    exact hlinked

theorem delete_outside (hlinked : Linked s) (hclosed : s.opened worker name = false) :
    s.manager.delete worker name = (.deleted false,s.manager) := by
  have hnames : name ∉ s.manager.namesOf worker := by
    rw [← hlinked.opened,hclosed]
    exact Bool.false_ne_true
  rcases delete_cases s.manager worker name with ⟨-,hdelete⟩ | ⟨-,-,hdelete⟩ | ⟨hmem,hlast,-⟩
  · exact hdelete
  · rw [hdelete,dissociate_of_not_mem hnames]
  · obtain ⟨other,hused⟩ := hlinked.used name hmem
    rw [hlinked.opened] at hused
    by_cases hsame : other = worker
    · exact absurd (hsame ▸ hused) hnames
    · exact absurd hused (hlast other hsame)

/-- What an outsider does changes nothing. -/
theorem outside_same (hlinked : Linked s) (hpermitted : Permitted s c) (hout : Outside worker name s c = true) :
    (enact s c).2 = s := by
  obtain ⟨worker',operation,now,order⟩ := c
  rw [Outside,Bool.and_eq_true,Bool.and_eq_true,decide_eq_true_iff,Bool.not_eq_true'] at hout
  obtain ⟨⟨⟨hworker,hname⟩,hclosed⟩,hother⟩ := hout
  change worker' = worker at hworker
  rw [← hworker] at hclosed
  suffices hserve : (s.manager.serve ⟨worker',operation,now,order⟩).2 = s.manager ∧
      openedAfter s.opened ⟨worker',operation,now,order⟩ = s.opened by
    rw [enact,hserve.1,hserve.2]
  cases operation with
  | open_ name' => cases hother
  | delete name' =>
    cases hname
    exact ⟨congrArg Prod.snd (delete_outside hlinked hclosed),openedAfter_delete_closed hclosed now order⟩
  | keys => cases hname
  | addAll name' pairs =>
    cases hname
    refine ⟨?_,rfl⟩
    change (s.manager.addAll name pairs order now).2 = s.manager
    rcases hpermitted hclosed with hnone | hempty
    · exact addAll_of_none hnone pairs
    · change pairs = [] at hempty
      rw [hempty]
      rfl
  | put name' request response =>
    cases hname
    refine ⟨?_,rfl⟩
    change (s.manager.put name request response order now).2 = s.manager
    rw [put_of_none (hpermitted hclosed)]
  | matchOne name' request options =>
    cases hname
    refine ⟨?_,rfl⟩
    change (s.manager.matchOne worker' name request options order now).2 = s.manager
    rw [matchOne_refused (hlinked.access.trans hclosed)]
  | matchAll name' request options =>
    cases hname
    exact ⟨matchAll_same s.manager worker' name request options order now,rfl⟩

section Without

variable {self : CacheManager} {name' : Str} {order : IterationOrder Str} {now : ℤ}

/-- Without a cache, the others are the same. -/
theorem lookup_without (h : name' ≠ name) : (self.without name).caches.lookup name' = self.caches.lookup name' :=
  AList.lookup_erase_ne h

theorem access_without (self : CacheManager) (worker : WorkerId) (name name' : Str) :
    (self.without name).workerHasCacheAccess worker name' = self.workerHasCacheAccess worker name' := rfl

theorem keys_without (self : CacheManager) (worker : WorkerId) (name : Str) :
    ((self.without name).keys worker).1 = (self.keys worker).1 := by
  rw [CacheManager.keys,CacheManager.keys]
  change (match self.workerCaches.lookup worker with | some names => _ | none => _ : Answer×CacheManager).1 = _
  cases self.workerCaches.lookup worker with
  | none => rfl
  | some names => rfl

theorem put_without (h : name' ≠ name) (request : CacheRequest) (response : CacheResponse) :
    ((self.without name).put name' request response order now).1 = (self.put name' request response order now).1 := by
  rw [CacheManager.put,CacheManager.put,lookup_without h]
  cases self.caches.lookup name' with
  | none => rfl
  | some cache => rfl

theorem matchOne_without (h : name' ≠ name) (worker : WorkerId) (request : CacheRequest) (options : CacheMatchOptions) :
    ((self.without name).matchOne worker name' request options order now).1 =
      (self.matchOne worker name' request options order now).1 := by
  rw [CacheManager.matchOne,CacheManager.matchOne,lookup_without h,access_without]
  cases self.caches.lookup name' with
  | none => rfl
  | some cache =>
    cases self.workerHasCacheAccess worker name' with
    | true => rfl
    | false => rfl

theorem matchAll_without (h : name' ≠ name) (worker : WorkerId) (request : CacheRequest) (options : CacheMatchOptions) :
    ((self.without name).matchAll worker name' request options order now).1 =
      (self.matchAll worker name' request options order now).1 := by
  rw [CacheManager.matchAll,CacheManager.matchAll,lookup_without h,access_without]
  cases self.caches.lookup name' with
  | none => rfl
  | some cache =>
    cases self.workerHasCacheAccess worker name' with
    | true => rfl
    | false => rfl

theorem delete_without (h : name' ≠ name) (worker : WorkerId) :
    ((self.without name).delete worker name').1 = (self.delete worker name').1 := by
  obtain ⟨found,hanswer,hfound⟩ := delete_answer self worker name'
  obtain ⟨found',hanswer',hfound'⟩ := delete_answer (self.without name) worker name'
  have hmem : name' ∈ (self.without name).caches ↔ name' ∈ self.caches := AList.mem_erase.trans (and_iff_right h)
  rw [hmem] at hfound'
  rw [hanswer,hanswer',Bool.eq_iff_iff.mpr (hfound'.trans hfound.symm)]

end Without

theorem delete_absent {self : CacheManager} (worker : WorkerId) (h : name ∉ self.caches) :
    self.delete worker name = (.deleted false,self) := by
  rcases delete_cases self worker name with ⟨-,hdelete⟩ | ⟨hmem,-⟩ | ⟨hmem,-⟩
  · exact hdelete
  · exact absurd hmem h
  · exact absurd hmem h

theorem lookup_delete_ne {self : CacheManager} {name' : Str} (h : name ≠ name') :
    (self.delete worker name').2.caches.lookup name = self.caches.lookup name := by
  obtain ⟨hcaches,-⟩ := dissociate_frame self worker name'
  rcases delete_cases self worker name' with ⟨-,hdelete⟩ | ⟨-,-,hdelete⟩ | ⟨-,-,hdelete⟩
  · rw [hdelete]
  · rw [hdelete,hcaches]
  · rw [hdelete,lookup_without h,hcaches]

/-- Two calls with one answer, of which the first changes nothing. -/
theorem answered_alike {r r' : Answer×CacheManager} {answer : Answer} {self self' : CacheManager} (h : r = (answer,self))
    (h' : r' = (answer,self')) (name : Str) :
    r.2.caches.lookup name = self.caches.lookup name ∧ r'.1 = r.1 := by
  rw [h,h']
  exact ⟨rfl,rfl⟩

theorem harmless_of_permitted (hlinked : Linked s) (hpermitted : Permitted s c) : Harmless s c := by
  intro name hclosed hopen
  obtain ⟨worker,operation,now,order⟩ := c
  have haccess : s.manager.workerHasCacheAccess worker name = false := hlinked.access.trans hclosed
  have haccess' := (access_without s.manager worker name name).trans haccess
  have hnone : (s.manager.without name).caches.lookup name = none := AList.lookup_erase name _
  cases operation with
  | open_ name' =>
    have hne : name ≠ name' := fun h => hopen (h ▸ rfl)
    obtain ⟨hanswer,-,hother,-⟩ := open_frame s.manager worker name'
    exact ⟨hother name hne,(open_frame _ worker name').1.trans hanswer.symm⟩
  | delete name' =>
    by_cases hname : name = name'
    · subst hname
      have houtside := delete_outside hlinked hclosed
      have habsent := delete_absent worker (AList.lookup_eq_none.mp hnone)
      exact answered_alike houtside habsent name
    · exact ⟨lookup_delete_ne hname,delete_without (Ne.symm hname) worker⟩
  | keys => exact ⟨congrArg (fun m : CacheManager => m.caches.lookup name) (keys_same s.manager worker),keys_without _ _ _⟩
  | addAll name' pairs =>
    refine ⟨?_,rfl⟩
    change (s.manager.addAll name' pairs order now).2.caches.lookup name = _
    by_cases hname : name = name'
    · rcases hpermitted (hname ▸ hclosed) with habsent | hempty
      · rw [addAll_of_none habsent]
      · change pairs = [] at hempty
        rw [hempty]
        rfl
    · exact (addAll_frame s.manager name' pairs order now).2.2 name hname
  | put name' request response =>
    by_cases hname : name = name'
    · subst hname
      have habsent := put_of_none (hpermitted hclosed) request response order now
      have habsent' := put_of_none hnone request response order now
      exact answered_alike habsent habsent' name
    · exact ⟨(put_frame s.manager name' request response order now).2.2 name hname,
        put_without (Ne.symm hname) request response⟩
  | matchOne name' request options =>
    by_cases hname : name = name'
    · subst hname
      have hrefused := matchOne_refused haccess request options order now
      have hrefused' := matchOne_refused haccess' request options order now
      exact answered_alike hrefused hrefused' name
    · exact ⟨(matchOne_frame s.manager worker name' request options order now).2.2 name hname,
        matchOne_without (Ne.symm hname) worker request options⟩
  | matchAll name' request options =>
    by_cases hname : name = name'
    · subst hname
      have hrefused := matchAll_refused haccess request options order now
      have hrefused' := matchAll_refused haccess' request options order now
      exact answered_alike hrefused hrefused' name
    · exact ⟨congrArg (fun m : CacheManager => m.caches.lookup name) (matchAll_same _ _ _ _ _ _ _),
        matchAll_without (Ne.symm hname) worker request options⟩

/-- The others get what they get in the run without the calls of an outsider. -/
theorem trace_others {calls : List WorkerCall} (hlinked : Linked s)
    (hpermitted : Along after Permitted s calls) {observer : WorkerId} (hobserver : observer ≠ worker) :
    (trace enact s calls).filter (fun call => decide (call.1.worker = observer)) =
      (trace enact s (others worker name s calls)).filter (fun call => decide (call.1.worker = observer)) := by
  induction calls generalizing s with
  | nil => rfl
  | cons c calls ih =>
    obtain ⟨hfirst,hrest⟩ := hpermitted
    rw [others]
    split
    · rename_i hout
      have hsame := outside_same hlinked hfirst hout
      have hworker : c.worker ≠ observer := by
        rw [Outside,Bool.and_eq_true,Bool.and_eq_true,decide_eq_true_iff] at hout
        rw [hout.1.1.1]
        exact hobserver.symm
      rw [trace,List.filter_cons_of_neg (by simpa using hworker),hsame]
      rw [after,hsame] at hrest
      exact ih hlinked hrest
    · rw [trace,trace,List.filter_cons,List.filter_cons,ih (enact_linked hlinked c) hrest]

end Calls

/-- Where nothing is put into a cache by a worker that has not opened it, such workers leave
the caches alone and learn nothing of them, and two runs that differ in the calls of such a
worker only are the same for the others. -/
theorem access_controlled (config : CacheManagerConfig) {calls calls' : List WorkerCall} {worker : WorkerId} {name : Str}
    (hpermitted : Along after Permitted (.init config) calls) (hpermitted' : Along after Permitted (.init config) calls')
    (hsame : others worker name (.init config) calls = others worker name (.init config) calls') :
    Along after Harmless (.init config) calls ∧ ∀ observer, observer ≠ worker →
      (trace enact (.init config) calls).filter (fun call => decide (call.1.worker = observer)) =
        (trace enact (.init config) calls').filter (fun call => decide (call.1.worker = observer)) := by
  constructor
  · exact hpermitted.of_inv (I:=Linked) (fun s c hlinked hc => ⟨harmless_of_permitted hlinked hc,enact_linked hlinked c⟩)
      (.init config)
  · intro observer hobserver
    rw [trace_others (.init config) hpermitted hobserver,trace_others (.init config) hpermitted' hobserver,hsame]

def owner : WorkerId := Vector.replicate 16 0

def outsider : WorkerId := Vector.replicate 16 1

/-- A lookup of an outsider, which the other run lacks. -/
def lookupCalls (asked : Bool) : List WorkerCall :=
  let order : IterationOrder Str := fun keys => ⟨keys,.refl keys⟩
  [⟨owner,.open_ [97],0,order⟩]++if asked then [⟨outsider,.matchAll [97] (.init [47]) .init,1,order⟩] else []

theorem access_controlled_lookup : Along after Harmless (.init {}) (lookupCalls true) ∧ ∀ observer, observer ≠ outsider →
    (trace enact (.init {}) (lookupCalls true)).filter (fun call => decide (call.1.worker = observer)) =
      (trace enact (.init {}) (lookupCalls false)).filter (fun call => decide (call.1.worker = observer)) :=
  @access_controlled {} (lookupCalls true) (lookupCalls false) outsider [97] ⟨trivial,trivial,trivial⟩ ⟨trivial,trivial⟩ rfl

/-- An outsider puts a page into the cache of another worker. -/
def intrusion : List WorkerCall :=
  let order : IterationOrder Str := fun keys => ⟨keys,.refl keys⟩
  [⟨owner,.open_ [97],0,order⟩,⟨outsider,.put [97] (.init [47]) (.init [47]),1,order⟩]

theorem outsider_puts : ¬Along after Harmless (.init {}) intrusion := by
  intro h
  have hanswer := (h.2.1 [97] rfl nofun).2
  cases hanswer

end ZNet.WorkerCache
