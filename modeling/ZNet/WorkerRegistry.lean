import ZNet.Heaps
import ZNet.Runs
import Mathlib.Tactic.Common

/-!
# The registry of service workers

A worker is kept by its registration, as the one that installs and as the active one, and by
the pool. Each of them gives the worker back.
-/

namespace ZNet.WorkerRegistry
open Tables Heaps Runs

abbrev Str := List UInt8
abbrev Id := Vector UInt8 16
abbrev Hash := Vector UInt8 32

/-- Registrations and workers are passed around by their addresses. -/
abbrev Ptr := ℕ

inductive ServiceWorkerState
  | installing | installed | activating | activated | activatedPeriodicSync | redundant
deriving DecidableEq

inductive RegistryError
  | invalidScope | workerPoolFull
deriving DecidableEq

structure ServiceWorkerRegistration where
  scope : Str
  scriptUrl : Str
  state : ServiceWorkerState
  installing : Option Ptr
  waiting : Option Ptr
  active : Option Ptr
  updateFound : Bool
  registrationId : Id

/-- Whether the containers of the worker have been given back is in `torn`. -/
structure ServiceWorker where
  id : Id
  scriptUrl : Str
  state : ServiceWorkerState
  registration : Ptr
  scriptHash : Hash
  lastUpdate : ℤ
  torn : Bool

/-- The hash of the source is the same for every script. -/
def calculateScriptHash (_scriptUrl : Str) : Hash := .replicate 32 0

abbrev Registrations := Heap ServiceWorkerRegistration
abbrev Workers := Heap ServiceWorker

namespace ServiceWorkerRegistration

def init (scope scriptUrl : Str) (registrationId : Id) : ServiceWorkerRegistration :=
  ⟨scope,scriptUrl,.installing,none,none,none,false,registrationId⟩

end ServiceWorkerRegistration

namespace ServiceWorker

def init (id : Id) (scriptUrl : Str) (registration : Ptr) (now : ℤ) : ServiceWorker :=
  ⟨id,scriptUrl,.installing,registration,calculateScriptHash scriptUrl,now,false⟩

/-- The containers are given back, once. -/
def deinit (workers : Workers) (self : Ptr) : Option Workers :=
  match workers.load self with
  | none => none
  | some worker => if worker.torn then none else workers.modify self ({ · with torn := true })

end ServiceWorker

def deinitAll (workers : Workers) : List Ptr → Option Workers
  | [] => some workers
  | w::ws => (ServiceWorker.deinit workers w).bind (deinitAll · ws)

/-- The workers that a registration refers to. -/
def ServiceWorkerRegistration.workers (self : ServiceWorkerRegistration) : List Ptr :=
  self.installing.toList++(self.waiting.toList++self.active.toList)

def ServiceWorkerRegistration.deinit (workers : Workers) (self : ServiceWorkerRegistration) : Option Workers :=
  deinitAll workers self.workers

structure ServiceWorkerRegistry where
  registrationHeap : Registrations
  workerHeap : Workers
  registrations : Table Str Ptr
  workerPool : Table Id Ptr
  activeWorkers : ℕ
  maxWorkers : ℕ
  lifecycleQueue : List Ptr

namespace ServiceWorkerRegistry

def init : ServiceWorkerRegistry := ⟨.empty,.empty,∅,∅,0,64,[]⟩

def https : Str := "https://".toUTF8.toList
def http : Str := "http://".toUTF8.toList

/-- A scope of less than eight bytes has no slice to compare. -/
def validateScope (scope : Str) : Option (Except RegistryError Unit) :=
  if scope.length < 8 then none
  else if scope.take 8 ≠ https ∧ scope.take 7 ≠ http then some (.error .invalidScope)
  else some (.ok ())

def startWorker (self : ServiceWorkerRegistry) (worker : Ptr) : Except RegistryError ServiceWorkerRegistry :=
  if self.maxWorkers ≤ self.activeWorkers then .error .workerPoolFull
  else .ok { self with lifecycleQueue := self.lifecycleQueue++[worker] }

/-- The addresses of a new registration and of its worker, and the registry with them. -/
def create (self : ServiceWorkerRegistry) (scope scriptUrl : Str) (registrationId workerId : Id) (now : ℤ) :
    (Ptr×Ptr)×ServiceWorkerRegistry :=
  let registration := self.registrationHeap.next
  let (worker,workers) := self.workerHeap.alloc (.init workerId scriptUrl registration now)
  let (_,registrations) := self.registrationHeap.alloc
    { ServiceWorkerRegistration.init scope scriptUrl registrationId with installing := some worker }
  ((registration,worker),{ self with
    registrationHeap := registrations
    workerHeap := workers
    registrations := self.registrations.insert scope registration
    workerPool := self.workerPool.insert workerId worker })

/-- The registration and, where it is new, its worker. An error of `startWorker` leaves both
in the registry. -/
def register (self : ServiceWorkerRegistry) (scope scriptUrl : Str) (registrationId workerId : Id) (now : ℤ) :
    Option (Except RegistryError (Ptr×Option Ptr)×ServiceWorkerRegistry) :=
  match validateScope scope with
  | none => none
  | some (.error e) => some (.error e,self)
  | some (.ok ()) =>
    match self.registrations.lookup scope with
    | some existing => some (.ok (existing,none),self)
    | none =>
      let ((registration,worker),self) := self.create scope scriptUrl registrationId workerId now
      match self.startWorker worker with
      | .error e => some (.error e,self)
      | .ok self => some (.ok (registration,some worker),self)

def unregister (self : ServiceWorkerRegistry) (scope : Str) : Option (Bool×ServiceWorkerRegistry) :=
  match self.registrations.lookup scope with
  | none => some (false,self)
  | some r =>
    match self.registrationHeap.load r with
    | none => none
    | some registration =>
      let marked := match registration.active with
        | none => some self.workerHeap
        | some worker => self.workerHeap.modify worker ({ · with state := .redundant })
      match marked.bind registration.deinit with
      | none => none
      | some workers => (self.registrationHeap.free r).map fun registrations =>
        (true,{ self with
          registrationHeap := registrations
          workerHeap := workers
          registrations := self.registrations.erase scope })

/-- The worker is started. -/
def start (self : ServiceWorkerRegistry) (w : Ptr) : Option ServiceWorkerRegistry :=
  match self.workerHeap.load w with
  | none => none
  | some worker =>
    match self.workerHeap.modify w ({ · with state := .installed }),
      self.registrationHeap.modify worker.registration ({ · with installing := some w }) with
    | some workers,some registrations => some { self with workerHeap := workers, registrationHeap := registrations }
    | _,_ => none

/-- The worker is activated. A worker that waits is given back. -/
def activate (self : ServiceWorkerRegistry) (w : Ptr) : Option ServiceWorkerRegistry :=
  match self.workerHeap.load w with
  | none => none
  | some worker =>
    match self.workerHeap.modify w ({ · with state := .activated }),self.registrationHeap.load worker.registration with
    | some workers,some registration =>
      match deinitAll workers registration.waiting.toList,
        self.registrationHeap.modify worker.registration
          ({ · with active := some w, waiting := none, updateFound := false }) with
      | some workers,some registrations => some { self with workerHeap := workers, registrationHeap := registrations }
      | _,_ => none
    | _,_ => none

/-- Where the script has another hash than that of the active worker, a worker for it waits. -/
def update (self : ServiceWorkerRegistry) (r : Ptr) (workerId : Id) (now : ℤ) : Option ServiceWorkerRegistry :=
  match self.registrationHeap.load r with
  | none => none
  | some registration =>
    match registration.active with
    | none => some self
    | some active =>
      match self.workerHeap.load active with
      | none => none
      | some activeWorker =>
        if activeWorker.scriptHash = calculateScriptHash registration.scriptUrl then some self
        else
          let (worker,workers) := self.workerHeap.alloc (.init workerId registration.scriptUrl r now)
          (self.registrationHeap.modify r ({ · with waiting := some worker, updateFound := true })).map
            fun registrations => { self with
              registrationHeap := registrations
              workerHeap := workers
              workerPool := self.workerPool.insert workerId worker }

def deinitRegistrations (registrations : Registrations) (workers : Workers) : List Ptr → Option Workers
  | [] => some workers
  | r::rs =>
    match registrations.load r with
    | none => none
    | some registration =>
      match registration.deinit workers,registrations.free r with
      | some workers,some registrations => deinitRegistrations registrations workers rs
      | _,_ => none

def deinitPool (workers : Workers) : List Ptr → Option Workers
  | [] => some workers
  | w::ws =>
    match ServiceWorker.deinit workers w with
    | none => none
    | some workers => (workers.free w).bind (deinitPool · ws)

/-- Both tables are emptied, in whatever order they are iterated over. -/
def deinit (self : ServiceWorkerRegistry) (order : IterationOrder Str) (poolOrder : IterationOrder Id) :
    Option Workers :=
  let registrations := (order self.registrations.keys).1.filterMap self.registrations.lookup
  let pool := (poolOrder self.workerPool.keys).1.filterMap self.workerPool.lookup
  (deinitRegistrations self.registrationHeap self.workerHeap registrations).bind (deinitPool · pool)

end ServiceWorkerRegistry

inductive Call
  | register (scope scriptUrl : Str) (registrationId workerId : Id) (now : ℤ)
  | unregister (scope : Str)
  | update (registration : Ptr) (workerId : Id) (now : ℤ)
  | start (worker : Ptr)
  | activate (worker : Ptr)

/-- What has happened to the registrations and their workers. -/
inductive Event
  | created (scope : Str) (registration worker : Ptr)
  | unregistered (scope : Str) (registration worker : Ptr)
  | activated (worker : Ptr)
deriving DecidableEq

/-- The registration of a scope and its worker, in a history whose last event comes first. -/
def current : List Event → Str → Option (Ptr×Ptr)
  | [],_ => none
  | .created scope registration worker::history,s =>
    if s = scope then some (registration,worker) else current history s
  | .unregistered scope _ _::history,s => if s = scope then none else current history s
  | .activated _::history,s => current history s

/-- The registry, unless the program was stopped by a trap or touched what was given back,
and what has happened. -/
structure World where
  registry : Option ServiceWorkerRegistry
  history : List Event

def World.init : World := ⟨some .init,[]⟩

/-- What happens in a call. -/
def events (s : World) (m : ServiceWorkerRegistry) : Call → List Event
  | .register scope scriptUrl registrationId workerId now =>
    match m.register scope scriptUrl registrationId workerId now with
    | some (.ok (registration,some worker),_) => [.created scope registration worker]
    | _ => []
  | .unregister scope => ((current s.history scope).map fun (r,w) => Event.unregistered scope r w).toList
  | .activate worker => [.activated worker]
  | _ => []

def perform (m : ServiceWorkerRegistry) : Call → Option ServiceWorkerRegistry
  | .register scope scriptUrl registrationId workerId now =>
    (m.register scope scriptUrl registrationId workerId now).map Prod.snd
  | .unregister scope => (m.unregister scope).map Prod.snd
  | .update registration workerId now => m.update registration workerId now
  | .start worker => m.start worker
  | .activate worker => m.activate worker

def step (s : World) (call : Call) : World :=
  match s.registry with
  | none => s
  | some m => ⟨perform m call,events s m call++s.history⟩

/-- Scopes have eight bytes, a registration is used until it is unregistered, and it is
unregistered before its worker is activated. -/
def Careful (s : World) : Call → Prop
  | .register scope _ _ _ _ => 8 ≤ scope.length
  | .unregister scope => ∀ r w, current s.history scope = some (r,w) → .activated w ∉ s.history
  | .update registration _ _ => ∃ scope w, current s.history scope = some (registration,w)
  | .start worker => ∃ scope r, current s.history scope = some (r,worker)
  | .activate worker => ∃ scope r, current s.history scope = some (r,worker)

/-- What the heaps hold is what the history tells. -/
structure Reflects (m : ServiceWorkerRegistry) (history : List Event) : Prop where
  table : ∀ s, m.registrations.lookup s = (current history s).map Prod.fst
  registration : ∀ s r w, current history s = some (r,w) → ∃ reg, m.registrationHeap.load r = some reg ∧ reg.scope = s ∧
    reg.installing = some w ∧ reg.waiting = none ∧ reg.active = if .activated w ∈ history then some w else none
  worker : ∀ s r w, current history s = some (r,w) → ∃ worker, m.workerHeap.load w = some worker ∧
    worker.registration = r ∧ worker.torn = false
  used : ∀ r reg, m.registrationHeap.load r = some reg → ∃ s w, current history s = some (r,w)
  stale : ∀ w worker, m.workerHeap.load w = some worker → (∃ s, current history s = some (worker.registration,w)) ∨
    worker.torn = true ∧ m.registrationHeap.load worker.registration = none
  earlier : ∀ w worker, m.workerHeap.load w = some worker → worker.registration < m.registrationHeap.next
  hash : ∀ w worker, m.workerHeap.load w = some worker → worker.scriptHash = .replicate 32 0
  pool : ∀ id w, m.workerPool.lookup id = some w → ∃ worker, m.workerHeap.load w = some worker
  created : (∃ s r w, .created s r w ∈ history) ↔ ∃ id w, m.workerPool.lookup id = some w
  activated : ∀ w, .activated w ∈ history → w < m.workerHeap.next
  limits : m.activeWorkers = 0 ∧ m.maxWorkers = 64

variable {m m' : ServiceWorkerRegistry} {history : List Event}

section Step

theorem Reflects.init : Reflects .init [] where
  table s := by simp [ServiceWorkerRegistry.init,current]
  registration s r w h := by cases h
  worker s r w h := by cases h
  used r reg h := by simp [ServiceWorkerRegistry.init] at h
  stale w worker h := by simp [ServiceWorkerRegistry.init] at h
  earlier w worker h := by simp [ServiceWorkerRegistry.init] at h
  hash w worker h := by simp [ServiceWorkerRegistry.init] at h
  pool id w h := by simp [ServiceWorkerRegistry.init] at h
  created := by simp [ServiceWorkerRegistry.init]
  activated w h := by cases h
  limits := ⟨rfl,rfl⟩

/-- A registration belongs to one scope and has one worker. -/
theorem Reflects.unique (h : Reflects m history) {s s' : Str} {r w w' : ℕ} (hs : current history s = some (r,w))
    (hs' : current history s' = some (r,w')) : s = s' ∧ w = w' := by
  obtain ⟨reg,hload,hscope,hinstalling,-⟩ := h.registration s r w hs
  obtain ⟨reg',hload',hscope',hinstalling',-⟩ := h.registration s' r w' hs'
  rw [hload] at hload'
  cases hload'
  exact ⟨hscope.symm.trans hscope',Option.some.inj (hinstalling.symm.trans hinstalling')⟩

theorem Reflects.unique_worker (h : Reflects m history) {s s' : Str} {r r' w : ℕ} (hs : current history s = some (r,w))
    (hs' : current history s' = some (r',w)) : r = r' ∧ s = s' := by
  obtain ⟨worker,hload,hr,-⟩ := h.worker s r w hs
  obtain ⟨worker',hload',hr',-⟩ := h.worker s' r' w hs'
  rw [hload] at hload'
  cases hload'
  have hrr : r = r' := hr.symm.trans hr'
  subst hrr
  exact ⟨rfl,(h.unique hs hs').1⟩

/-- Where nothing of what is said of the workers and registrations changes, all of it stays. -/
theorem Reflects.changed (h : Reflects m history) {regs : Registrations} {workers : Workers}
    {f : Ptr → ServiceWorkerRegistration → ServiceWorkerRegistration} {g : Ptr → ServiceWorker → ServiceWorker}
    (hf : m.registrationHeap.Changed regs f) (hg : m.workerHeap.Changed workers g)
    (hscope : ∀ r reg, (f r reg).scope = reg.scope)
    (hkept : ∀ s r w reg, current history s = some (r,w) → reg.installing = some w → reg.waiting = none →
      (f r reg).installing = some w ∧ (f r reg).waiting = none)
    {history' : List Event} (hcurrent : ∀ s, current history' s = current history s)
    (hactive : ∀ s r w reg, current history s = some (r,w) → m.registrationHeap.load r = some reg →
      reg.active = (if .activated w ∈ history then some w else none) →
        (f r reg).active = if .activated w ∈ history' then some w else none)
    (hworker : ∀ w worker, (g w worker).registration = worker.registration ∧ (g w worker).torn = worker.torn ∧
      (g w worker).scriptHash = worker.scriptHash)
    (hcreated : ∀ s r w, .created s r w ∈ history' ↔ .created s r w ∈ history)
    (hactivated : ∀ w, .activated w ∈ history' → w < m.workerHeap.next) (queue : List Ptr) :
    Reflects { m with registrationHeap := regs, workerHeap := workers, lifecycleQueue := queue } history' where
  table s := by rw [hcurrent]; exact h.table s
  registration s r w hs := by
    rw [hcurrent] at hs
    obtain ⟨reg,hload,hregscope,hinstalling,hwaiting,hact⟩ := h.registration s r w hs
    obtain ⟨hi,hw⟩ := hkept s r w reg hs hinstalling hwaiting
    exact ⟨f r reg,by simp [hf.load,hload],(hscope r reg).trans hregscope,hi,hw,hactive s r w reg hs hload hact⟩
  worker s r w hs := by
    rw [hcurrent] at hs
    obtain ⟨worker,hload,hr,htorn⟩ := h.worker s r w hs
    exact ⟨g w worker,by simp [hg.load,hload],(hworker w worker).1.trans hr,(hworker w worker).2.1.trans htorn⟩
  used r reg hload := by
    simp only [hcurrent]
    rw [hf.load,Option.map_eq_some_iff] at hload
    obtain ⟨old,hold,-⟩ := hload
    exact h.used r old hold
  stale w worker hload := by
    rw [hg.load,Option.map_eq_some_iff] at hload
    obtain ⟨old,hold,rfl⟩ := hload
    rw [(hworker w old).1,(hworker w old).2.1]
    rcases h.stale w old hold with ⟨s,hs⟩|⟨htorn,hnone⟩
    · exact Or.inl ⟨s,(hcurrent s).trans hs⟩
    · exact Or.inr ⟨htorn,by simp [hf.load,hnone]⟩
  earlier w worker hload := by
    rw [hg.load,Option.map_eq_some_iff] at hload
    obtain ⟨old,hold,rfl⟩ := hload
    rw [(hworker w old).1,hf.next]
    exact h.earlier w old hold
  hash w worker hload := by
    rw [hg.load,Option.map_eq_some_iff] at hload
    obtain ⟨old,hold,rfl⟩ := hload
    exact (hworker w old).2.2.trans (h.hash w old hold)
  pool id w hlookup := by
    obtain ⟨worker,hload⟩ := h.pool id w hlookup
    exact ⟨g w worker,by simp [hg.load,hload]⟩
  created := by simp only [hcreated]; exact h.created
  activated w hw := by rw [hg.next]; exact hactivated w hw
  limits := h.limits

/-- A call goes wrong exactly where it is careless, and otherwise the registry keeps to the
history. -/
def Settled (m : ServiceWorkerRegistry) (history : List Event) (call : Call) : Prop :=
  ¬ Careful ⟨some m,history⟩ call ∧ perform m call = none ∨
    Careful ⟨some m,history⟩ call ∧ ∃ m', perform m call = some m' ∧
      Reflects m' (events ⟨some m,history⟩ m call++history)

theorem settled_update (h : Reflects m history) (r : ℕ) (workerId : Id) (now : ℤ) :
    Settled m history (.update r workerId now) ∧
      ∀ m', m.update r workerId now = some m' → m' = m := by
  cases hload : m.registrationHeap.load r with
  | none =>
    have hnone : m.update r workerId now = none := by simp [ServiceWorkerRegistry.update,hload]
    refine ⟨Or.inl ⟨?_,hnone⟩,by simp [hnone]⟩
    rintro ⟨s,w,hs⟩
    obtain ⟨reg,hreg,-⟩ := h.registration s r w hs
    rw [hload] at hreg
    cases hreg
  | some reg =>
    obtain ⟨s,w,hs⟩ := h.used r reg hload
    obtain ⟨reg',hload',-,-,-,hactive⟩ := h.registration s r w hs
    rw [hload] at hload'
    cases hload'
    have hsame : m.update r workerId now = some m := by
      by_cases hw : .activated w ∈ history
      · rw [if_pos hw] at hactive
        obtain ⟨worker,hworker,-⟩ := h.worker s r w hs
        simp [ServiceWorkerRegistry.update,hload,hactive,hworker,h.hash w worker hworker,calculateScriptHash]
      · rw [if_neg hw] at hactive
        simp [ServiceWorkerRegistry.update,hload,hactive]
    refine ⟨Or.inr ⟨⟨s,w,hs⟩,m,hsame,h⟩,fun m' hm' => ?_⟩
    rw [hsame] at hm'
    exact (Option.some.inj hm').symm

/-- A worker can be started and activated as long as its registration is used. -/
theorem live_iff (h : Reflects m history) {w : ℕ} {worker : ServiceWorker} (hload : m.workerHeap.load w = some worker) :
    (∃ s r, current history s = some (r,w)) ↔ ∃ reg, m.registrationHeap.load worker.registration = some reg := by
  constructor
  · rintro ⟨s,r,hs⟩
    obtain ⟨worker',hload',hr,-⟩ := h.worker s r w hs
    rw [hload] at hload'
    cases hload'
    obtain ⟨reg,hreg,-⟩ := h.registration s r w hs
    exact ⟨reg,hr ▸ hreg⟩
  · rintro ⟨reg,hreg⟩
    rcases h.stale w worker hload with ⟨s,hs⟩|⟨-,hnone⟩
    · exact ⟨s,_,hs⟩
    · rw [hreg] at hnone
      cases hnone

theorem settled_start (h : Reflects m history) (w : ℕ) : Settled m history (.start w) := by
  cases hload : m.workerHeap.load w with
  | none =>
    refine Or.inl ⟨?_,by simp [perform,ServiceWorkerRegistry.start,hload]⟩
    rintro ⟨s,r,hs⟩
    obtain ⟨worker,hworker,-⟩ := h.worker s r w hs
    rw [hload] at hworker
    cases hworker
  | some worker =>
    obtain ⟨workers,hworkers,hg⟩ := Heap.modify_of_load hload fun v : ServiceWorker => { v with state := .installed }
    cases hreg : m.registrationHeap.load worker.registration with
    | none =>
      refine Or.inl ⟨fun hlive => ?_,?_⟩
      · obtain ⟨reg,hsome⟩ := (live_iff h hload).mp hlive
        rw [hreg] at hsome
        cases hsome
      · simp [perform,ServiceWorkerRegistry.start,hload,hworkers,Heap.modify_of_load_none hreg]
    | some reg =>
      obtain ⟨regs,hregs,hf⟩ := Heap.modify_of_load hreg fun v : ServiceWorkerRegistration =>
        { v with installing := some w }
      have hstart : perform m (.start w) = some { m with workerHeap := workers, registrationHeap := regs } := by
        simp [perform,ServiceWorkerRegistry.start,hload,hworkers,hregs]
      refine Or.inr ⟨(live_iff h hload).mpr ⟨reg,hreg⟩,_,hstart,?_⟩
      obtain ⟨s₀,r₀,hs₀⟩ := (live_iff h hload).mpr ⟨reg,hreg⟩
      obtain ⟨worker₀,hload₀,hr₀,-⟩ := h.worker s₀ r₀ w hs₀
      rw [hload] at hload₀
      cases hload₀
      apply h.changed hf hg
      · intro r v
        split <;> rfl
      · intro s r w' v hs hi hw
        split
        · rename_i hr
          subst hr
          rw [hr₀] at hs
          rw [(h.unique hs hs₀).2]
          exact ⟨rfl,hw⟩
        · exact ⟨hi,hw⟩
      · exact fun _ => rfl
      · intro s r w' v _ _ hact
        split <;> exact hact
      · intro w' v
        split <;> exact ⟨rfl,rfl,rfl⟩
      · exact fun _ _ _ => Iff.rfl
      · exact h.activated

theorem settled_activate (h : Reflects m history) (w : ℕ) : Settled m history (.activate w) := by
  cases hload : m.workerHeap.load w with
  | none =>
    refine Or.inl ⟨?_,by simp [perform,ServiceWorkerRegistry.activate,hload]⟩
    rintro ⟨s,r,hs⟩
    obtain ⟨worker,hworker,-⟩ := h.worker s r w hs
    rw [hload] at hworker
    cases hworker
  | some worker =>
    obtain ⟨workers,hworkers,hg⟩ := Heap.modify_of_load hload fun v : ServiceWorker => { v with state := .activated }
    cases hreg : m.registrationHeap.load worker.registration with
    | none =>
      refine Or.inl ⟨fun hlive => ?_,?_⟩
      · obtain ⟨reg,hsome⟩ := (live_iff h hload).mp hlive
        rw [hreg] at hsome
        cases hsome
      · simp [perform,ServiceWorkerRegistry.activate,hload,hworkers,hreg]
    | some reg =>
      obtain ⟨regs,hregs,hf⟩ := Heap.modify_of_load hreg fun v : ServiceWorkerRegistration =>
        { v with active := some w, waiting := none, updateFound := false }
      obtain ⟨s₀,r₀,hs₀⟩ := (live_iff h hload).mpr ⟨reg,hreg⟩
      obtain ⟨worker₀,hload₀,hr₀,-⟩ := h.worker s₀ r₀ w hs₀
      rw [hload] at hload₀
      cases hload₀
      obtain ⟨reg₀,hreg₀,-,-,hwaiting,-⟩ := h.registration s₀ r₀ w hs₀
      rw [← hr₀,hreg] at hreg₀
      cases hreg₀
      have hactivate : perform m (.activate w) = some { m with workerHeap := workers, registrationHeap := regs } := by
        simp [perform,ServiceWorkerRegistry.activate,hload,hworkers,hreg,hwaiting,deinitAll,hregs]
      refine Or.inr ⟨⟨s₀,r₀,hs₀⟩,_,hactivate,?_⟩
      apply h.changed hf hg
      · intro r v
        split <;> rfl
      · intro s r w' v hs hi hw
        split
        · exact ⟨hi,rfl⟩
        · exact ⟨hi,hw⟩
      · exact fun _ => rfl
      · intro s r w' v hs _ hact
        split
        · rename_i hr
          subst hr
          rw [hr₀] at hs
          simp [events,(h.unique hs hs₀).2]
        · rename_i hr
          have hne : w' ≠ w := by
            rintro rfl
            exact hr ((h.unique_worker hs hs₀).1.trans hr₀.symm)
          simp [events,hne,hact]
      · intro w' v
        split <;> exact ⟨rfl,rfl,rfl⟩
      · simp [events]
      · intro w' hw'
        simp only [events,List.singleton_append,List.mem_cons,Event.activated.injEq] at hw'
        rcases hw' with rfl|hw'
        · exact Heap.lt_of_load hload
        · exact h.activated w' hw'

theorem Reflects.current_eq_none (h : Reflects m history) {s : Str} :
    m.registrations.lookup s = none ↔ current history s = none := by
  rw [h.table,Option.map_eq_none_iff]

/-- The registry with a new registration in it. -/
theorem Reflects.create (h : Reflects m history) {scope : Str} (hnone : current history scope = none) (scriptUrl : Str)
    (registrationId workerId : Id) (now : ℤ) (queue : List Ptr) :
    Reflects { (m.create scope scriptUrl registrationId workerId now).2 with lifecycleQueue := queue }
      (.created scope m.registrationHeap.next m.workerHeap.next::history) := by
  have hother : ∀ s r w, current history s = some (r,w) → s ≠ scope := by
    rintro s r w hs rfl
    rw [hnone] at hs
    cases hs
  have hcurrent : ∀ s r w, current (.created scope m.registrationHeap.next m.workerHeap.next::history) s = some (r,w) ↔
      s = scope ∧ r = m.registrationHeap.next ∧ w = m.workerHeap.next ∨ current history s = some (r,w) := by
    intro s r w
    rw [current]
    by_cases hs : s = scope
    · simp [hs,hnone,eq_comm]
    · simp [hs]
  have hfresh : .activated m.workerHeap.next ∉ history := fun hmem => Nat.lt_irrefl _ (h.activated _ hmem)
  refine ⟨?_,?_,?_,?_,?_,?_,?_,?_,?_,?_,h.limits⟩
  · intro s
    change (m.registrations.insert scope m.registrationHeap.next).lookup s = _
    rw [lookup_insert_eq,current]
    split
    · rfl
    · exact h.table s
  · intro s r w hs
    rcases (hcurrent s r w).mp hs with ⟨rfl,rfl,rfl⟩|hs
    · exact ⟨_,Heap.load_alloc_self _ _,rfl,rfl,rfl,by simp [hfresh,ServiceWorkerRegistration.init]⟩
    · obtain ⟨reg,hload,hregscope,hi,hw,hact⟩ := h.registration s r w hs
      exact ⟨reg,Heap.load_alloc_of_load hload _,hregscope,hi,hw,by simpa using hact⟩
  · intro s r w hs
    rcases (hcurrent s r w).mp hs with ⟨rfl,rfl,rfl⟩|hs
    · exact ⟨_,Heap.load_alloc_self _ _,rfl,rfl⟩
    · obtain ⟨worker,hload,hr,htorn⟩ := h.worker s r w hs
      exact ⟨worker,Heap.load_alloc_of_load hload _,hr,htorn⟩
  · intro r reg hload
    change (m.registrationHeap.alloc _).2.load r = some reg at hload
    rw [Heap.load_alloc] at hload
    split at hload
    · rename_i hr
      exact ⟨scope,m.workerHeap.next,(hcurrent _ _ _).mpr (Or.inl ⟨rfl,hr,rfl⟩)⟩
    · obtain ⟨s,w,hs⟩ := h.used r reg hload
      exact ⟨s,w,(hcurrent _ _ _).mpr (Or.inr hs)⟩
  · intro w worker hload
    change (m.workerHeap.alloc _).2.load w = some worker at hload
    rw [Heap.load_alloc] at hload
    split at hload
    · rename_i hw
      cases hload
      exact Or.inl ⟨scope,(hcurrent _ _ _).mpr (Or.inl ⟨rfl,rfl,hw⟩)⟩
    · rcases h.stale w worker hload with ⟨s,hs⟩|⟨htorn,hfreed⟩
      · exact Or.inl ⟨s,(hcurrent _ _ _).mpr (Or.inr hs)⟩
      · refine Or.inr ⟨htorn,?_⟩
        change (m.registrationHeap.alloc _).2.load worker.registration = none
        rw [Heap.load_alloc,if_neg (Nat.ne_of_lt (h.earlier w worker hload)),hfreed]
  · intro w worker hload
    change (m.workerHeap.alloc _).2.load w = some worker at hload
    rw [Heap.load_alloc] at hload
    split at hload
    · cases hload
      exact Nat.lt_succ_self _
    · exact Nat.lt_succ_of_lt (h.earlier w worker hload)
  · intro w worker hload
    change (m.workerHeap.alloc _).2.load w = some worker at hload
    rw [Heap.load_alloc] at hload
    split at hload
    · cases hload
      rfl
    · exact h.hash w worker hload
  · intro id w hlookup
    change (m.workerPool.insert workerId m.workerHeap.next).lookup id = some w at hlookup
    rw [lookup_insert_eq] at hlookup
    split at hlookup
    · cases hlookup
      exact ⟨_,Heap.load_alloc_self _ _⟩
    · obtain ⟨worker,hload⟩ := h.pool id w hlookup
      exact ⟨worker,Heap.load_alloc_of_load hload _⟩
  · refine iff_of_true ⟨scope,_,_,List.mem_cons_self⟩ ⟨workerId,m.workerHeap.next,?_⟩
    exact AList.lookup_insert _
  · intro w hw
    exact Nat.lt_succ_of_lt (h.activated w (by simpa using hw))

theorem settled_register (h : Reflects m history) (scope scriptUrl : Str) (registrationId workerId : Id) (now : ℤ) :
    Settled m history (.register scope scriptUrl registrationId workerId now) := by
  by_cases hshort : scope.length < 8
  · refine Or.inl ⟨Nat.not_le.mpr hshort,?_⟩
    simp [perform,ServiceWorkerRegistry.register,ServiceWorkerRegistry.validateScope,hshort]
  · refine Or.inr ⟨Nat.not_lt.mp hshort,?_⟩
    cases hvalid : ServiceWorkerRegistry.validateScope scope with
    | none =>
      rw [ServiceWorkerRegistry.validateScope,if_neg hshort] at hvalid
      split at hvalid <;> cases hvalid
    | some result =>
      cases result with
      | error e =>
        refine ⟨m,by simp [perform,ServiceWorkerRegistry.register,hvalid],?_⟩
        simpa [events,ServiceWorkerRegistry.register,hvalid] using h
      | ok u =>
        cases hlookup : m.registrations.lookup scope with
        | some existing =>
          refine ⟨m,by simp [perform,ServiceWorkerRegistry.register,hvalid,hlookup],?_⟩
          simpa [events,ServiceWorkerRegistry.register,hvalid,hlookup] using h
        | none =>
          have hregister : m.register scope scriptUrl registrationId workerId now =
              some (.ok (m.registrationHeap.next,some m.workerHeap.next),
                { (m.create scope scriptUrl registrationId workerId now).2 with
                  lifecycleQueue := m.lifecycleQueue++[m.workerHeap.next] }) := by
            simp [ServiceWorkerRegistry.register,hvalid,hlookup,ServiceWorkerRegistry.create,
              ServiceWorkerRegistry.startWorker,h.limits.1,h.limits.2]
          refine ⟨_,by rw [perform,hregister,Option.map_some],?_⟩
          rw [events,hregister]
          exact h.create (h.current_eq_none.mp hlookup) scriptUrl registrationId workerId now _

theorem deinit_of_load {workers : Workers} {w : ℕ} {worker : ServiceWorker} (hload : workers.load w = some worker)
    (htorn : worker.torn = false) : ∃ workers', ServiceWorker.deinit workers w = some workers' ∧
      workers.Changed workers' fun q v => if q = w then { v with torn := true } else v := by
  obtain ⟨workers',hmodify,hchanged⟩ := Heap.modify_of_load hload fun v : ServiceWorker => { v with torn := true }
  exact ⟨workers',by simp [ServiceWorker.deinit,hload,htorn,hmodify],hchanged⟩

theorem deinit_torn {workers : Workers} {w : ℕ} {worker : ServiceWorker} (hload : workers.load w = some worker)
    (htorn : worker.torn = true) : ServiceWorker.deinit workers w = none := by
  simp [ServiceWorker.deinit,hload,htorn]

/-- The worker of an activated registration is given back twice. -/
theorem unregister_activated (h : Reflects m history) {s : Str} {r w : ℕ} (hs : current history s = some (r,w))
    (hw : .activated w ∈ history) : m.unregister s = none := by
  obtain ⟨reg,hreg,-,hi,hwait,hact⟩ := h.registration s r w hs
  rw [if_pos hw] at hact
  obtain ⟨worker,hload,-,htorn⟩ := h.worker s r w hs
  have hlookup : m.registrations.lookup s = some r := by rw [h.table,hs]; rfl
  obtain ⟨marked,hmarked,hg⟩ := Heap.modify_of_load hload fun v : ServiceWorker => { v with state := .redundant }
  have hload₁ : marked.load w = some { worker with state := .redundant } := by simp [hg.load,hload]
  obtain ⟨workers,hdeinit,hg₂⟩ := deinit_of_load hload₁ htorn
  have hload₂ : workers.load w = some { worker with state := .redundant, torn := true } := by
    simp [hg₂.load,hload₁]
  simp [ServiceWorkerRegistry.unregister,hlookup,hreg,hact,hmarked,ServiceWorkerRegistration.deinit,
    ServiceWorkerRegistration.workers,hi,hwait,deinitAll,hdeinit,deinit_torn hload₂]

/-- The registration is freed and its worker given back. -/
theorem Reflects.unregister (h : Reflects m history) {scope : Str} {r w : ℕ} (hs : current history scope = some (r,w))
    {workers : Workers} {regs : Registrations}
    (hg : m.workerHeap.Changed workers fun q v => if q = w then { v with torn := true } else v)
    (hnext : regs.next = m.registrationHeap.next)
    (hf : ∀ q, regs.load q = if q = r then none else m.registrationHeap.load q) :
    Reflects { m with registrationHeap := regs, workerHeap := workers, registrations := m.registrations.erase scope }
      (.unregistered scope r w::history) := by
  have hcurrent : ∀ s r' w', current (.unregistered scope r w::history) s = some (r',w') →
      s ≠ scope ∧ r' ≠ r ∧ w' ≠ w ∧ current history s = some (r',w') := by
    intro s r' w' hs'
    rw [current] at hs'
    split at hs'
    · cases hs'
    · rename_i hne
      refine ⟨hne,?_,?_,hs'⟩
      · rintro rfl
        exact hne (h.unique hs' hs).1
      · rintro rfl
        exact hne (h.unique_worker hs' hs).2
  have hkept : ∀ s r' w', s ≠ scope → current history s = some (r',w') →
      current (.unregistered scope r w::history) s = some (r',w') := by
    intro s r' w' hne hs'
    rw [current,if_neg hne]
    exact hs'
  refine ⟨?_,?_,?_,?_,?_,?_,?_,?_,?_,?_,h.limits⟩
  · intro s
    change (m.registrations.erase scope).lookup s = _
    rw [lookup_erase_eq,current]
    split
    · rfl
    · exact h.table s
  · intro s r' w' hs'
    obtain ⟨-,hr,-,hs'⟩ := hcurrent s r' w' hs'
    obtain ⟨reg,hload,hregscope,hi,hwait,hact⟩ := h.registration s r' w' hs'
    exact ⟨reg,by rw [hf,if_neg hr,hload],hregscope,hi,hwait,by simpa using hact⟩
  · intro s r' w' hs'
    obtain ⟨-,-,hw,hs'⟩ := hcurrent s r' w' hs'
    obtain ⟨worker,hload,hr,htorn⟩ := h.worker s r' w' hs'
    exact ⟨worker,by simp [hg.load,hload,hw],hr,htorn⟩
  · intro r' reg hload
    rw [hf] at hload
    split at hload
    · cases hload
    · rename_i hr
      obtain ⟨s,w',hs'⟩ := h.used r' reg hload
      refine ⟨s,w',hkept s r' w' ?_ hs'⟩
      rintro rfl
      rw [hs] at hs'
      cases hs'
      exact hr rfl
  · intro w' worker hload
    rw [hg.load,Option.map_eq_some_iff] at hload
    obtain ⟨old,hold,rfl⟩ := hload
    by_cases hw : w' = w
    · subst hw
      obtain ⟨worker,hload,hr,-⟩ := h.worker scope r w' hs
      rw [hold] at hload
      cases hload
      refine Or.inr ⟨by simp,?_⟩
      simp [hf,hr]
    · simp only [if_neg hw]
      rcases h.stale w' old hold with ⟨s,hs'⟩|⟨htorn,hnone⟩
      · refine Or.inl ⟨s,hkept s _ w' ?_ hs'⟩
        rintro rfl
        rw [hs] at hs'
        cases hs'
        exact hw rfl
      · refine Or.inr ⟨htorn,?_⟩
        rw [hf,hnone,ite_self]
  · intro w' worker hload
    rw [hg.load,Option.map_eq_some_iff] at hload
    obtain ⟨old,hold,rfl⟩ := hload
    rw [hnext]
    have hearlier := h.earlier w' old hold
    split <;> exact hearlier
  · intro w' worker hload
    rw [hg.load,Option.map_eq_some_iff] at hload
    obtain ⟨old,hold,rfl⟩ := hload
    have hhash := h.hash w' old hold
    split <;> exact hhash
  · intro id w' hlookup
    obtain ⟨worker,hload⟩ := h.pool id w' hlookup
    exact ⟨_,by rw [hg.load,hload,Option.map_some]⟩
  · simp only [List.mem_cons,reduceCtorEq,false_or]
    exact h.created
  · intro w' hw'
    rw [hg.next]
    exact h.activated w' (by simpa using hw')

theorem settled_unregister (h : Reflects m history) (scope : Str) : Settled m history (.unregister scope) := by
  cases hs : current history scope with
  | none =>
    have hlookup := h.current_eq_none.mpr hs
    refine Or.inr ⟨by simp [Careful,hs],m,by simp [perform,ServiceWorkerRegistry.unregister,hlookup],?_⟩
    simpa [events,hs] using h
  | some pair =>
    obtain ⟨r,w⟩ := pair
    by_cases hw : .activated w ∈ history
    · refine Or.inl ⟨fun hcareful => hcareful r w hs hw,?_⟩
      simp [perform,unregister_activated h hs hw]
    · obtain ⟨reg,hreg,-,hi,hwait,hact⟩ := h.registration scope r w hs
      rw [if_neg hw] at hact
      obtain ⟨worker,hload,-,htorn⟩ := h.worker scope r w hs
      have hlookup : m.registrations.lookup scope = some r := by rw [h.table,hs]; rfl
      obtain ⟨workers,hdeinit,hg⟩ := deinit_of_load hload htorn
      obtain ⟨regs,hfree⟩ := Heap.free_of_load hreg
      obtain ⟨hnext,hf⟩ := Heap.free_eq_some hfree
      have hunregister : perform m (.unregister scope) = some { m with
          registrationHeap := regs, workerHeap := workers, registrations := m.registrations.erase scope } := by
        simp [perform,ServiceWorkerRegistry.unregister,hlookup,hreg,hact,ServiceWorkerRegistration.deinit,
          ServiceWorkerRegistration.workers,hi,hwait,deinitAll,hdeinit,hfree]
      refine Or.inr ⟨?_,_,hunregister,?_⟩
      · intro r' w' hs' hw'
        change current history scope = some (r',w') at hs'
        rw [hs] at hs'
        cases hs'
        exact hw hw'
      · simpa [events,hs] using h.unregister hs hg hnext hf

theorem settled (h : Reflects m history) (call : Call) : Settled m history call := by
  cases call with
  | register scope scriptUrl registrationId workerId now =>
    exact settled_register h scope scriptUrl registrationId workerId now
  | unregister scope => exact settled_unregister h scope
  | update r workerId now => exact (settled_update h r workerId now).1
  | start w => exact settled_start h w
  | activate w => exact settled_activate h w

end Step

end ZNet.WorkerRegistry
