import ZNet.TextScan
import ZNet.Tables
import ZNet.Runs
import ZNet.WorkerLifecycle
import Mathlib.Data.List.Chain

/-!
# Background sync

An attempt counts itself and notes its time in the registration of the tag. The options of
the registration have a limit and an interval, which no attempt is compared with.
-/

namespace ZNet.BackgroundSync
open TextScan Tables Runs
open WorkerLifecycle (WorkerId)

abbrev Str := List UInt8

structure SyncOptions where
  minInterval : ℕ
  maxAttempts : ℕ
  networkType : Str
  batterySaver : Bool
deriving DecidableEq

def SyncOptions.init : SyncOptions := ⟨60000,3,ascii "any".toList,false⟩

/-- Times are in milliseconds. The counter has 32 bits, as the limit of the options has. -/
structure SyncRegistration where
  tag : Str
  worker : WorkerId
  options : SyncOptions
  createdAt : ℤ
  lastAttempt : Option ℤ
  attemptCount : ℕ
  maxAttempts : ℕ
deriving DecidableEq

def SyncRegistration.init (tag : Str) (worker : WorkerId) (options : SyncOptions) (now : ℤ) : SyncRegistration :=
  ⟨tag,worker,options,now,none,0,3⟩

/-- After an attempt. -/
def SyncRegistration.attempted (self : SyncRegistration) (now : ℤ) : SyncRegistration :=
  { self with lastAttempt := some now, attemptCount := self.attemptCount+1 }

structure SyncEvent where
  worker : WorkerId
  tag : Str
  lastChance : Bool
  timestamp : ℤ
deriving DecidableEq

def SyncEvent.init (registration : SyncRegistration) (lastChance : Bool) (now : ℤ) : SyncEvent :=
  ⟨registration.worker,registration.tag,lastChance,now⟩

inductive TaskPriority
  | low | normal | high | critical
deriving DecidableEq

structure SyncTask where
  tag : Str
  worker : WorkerId
  data : List UInt8
  priority : TaskPriority
  createdAt : ℤ
  retryCount : ℕ
  maxRetries : ℕ

def SyncTask.init (tag : Str) (worker : WorkerId) (data : List UInt8) (priority : TaskPriority) (now : ℤ) : SyncTask :=
  ⟨tag,worker,data,priority,now,0,3⟩

/-- The order of the queue, with the highest priority first. -/
def taskPriorityCompare (a b : SyncTask) : Bool := decide (b.priority.ctorIdx ≤ a.priority.ctorIdx)

structure NetworkMonitor where
  isOnline : Bool
  networkType : Str
  /-- The level of the battery is below 0.2. -/
  batteryBelow : Bool
  batterySaverEnabled : Bool

namespace NetworkMonitor

def init : NetworkMonitor := ⟨true,ascii "wifi".toList,false,false⟩

def isNetworkTypeAllowed (_self : NetworkMonitor) (_tag : Str) : Bool := true

def isBatteryLow (self : NetworkMonitor) : Bool := self.batteryBelow || self.batterySaverEnabled

end NetworkMonitor

structure SyncScheduler where
  scheduledSyncs : Table Str ℤ
  syncDelays : Table Str ℕ

namespace SyncScheduler

def init : SyncScheduler := ⟨∅,∅⟩

def scheduleSync (self : SyncScheduler) (tag : Str) (delay : ℕ) (now : ℤ) : SyncScheduler :=
  ⟨self.scheduledSyncs.insert tag (now+delay),self.syncDelays.insert tag delay⟩

/-- After the sync of a tag was triggered. -/
def reschedule (self : SyncScheduler) (tag : Str) (now : ℤ) : SyncScheduler :=
  match self.syncDelays.lookup tag with
  | some delay => self.scheduleSync tag delay now
  | none => { self with scheduledSyncs := self.scheduledSyncs.erase tag }

def isDue (self : SyncScheduler) (now : ℤ) (tag : Str) : Bool :=
  (self.scheduledSyncs.lookup tag).any fun time => decide (time ≤ now)

def dueTags (self : SyncScheduler) (order : IterationOrder Str) (now : ℤ) : List Str :=
  (order self.scheduledSyncs.keys).1.filter (self.isDue now)

end SyncScheduler

variable {ε : Type}

/-- What the handler of a worker for sync events answers. A worker without one answers
nothing. -/
abbrev Handlers (ε : Type) := WorkerId → Except ε Unit

structure BackgroundSyncManager where
  syncRegistrations : Table Str SyncRegistration
  taskQueues : Table Str (List SyncTask)
  workerSyncs : Table WorkerId (List Str)
  networkMonitor : NetworkMonitor

namespace BackgroundSyncManager

def init : BackgroundSyncManager := ⟨∅,∅,∅,.init⟩

def associateWorkerWithSync (self : BackgroundSyncManager) (worker : WorkerId) (tag : Str) : BackgroundSyncManager :=
  match self.workerSyncs.lookup worker with
  | some tags =>
    if tags.contains tag then self else { self with workerSyncs := self.workerSyncs.insert worker (tags++[tag]) }
  | none => { self with workerSyncs := self.workerSyncs.insert worker [tag] }

def register (self : BackgroundSyncManager) (worker : WorkerId) (tag : Str) (options : SyncOptions) (now : ℤ) :
    SyncRegistration×BackgroundSyncManager :=
  match self.syncRegistrations.lookup tag with
  | some existing => (existing,self)
  | none =>
    let registration := SyncRegistration.init tag worker options now
    let stored := { self with syncRegistrations := self.syncRegistrations.insert tag registration }
    let associated := stored.associateWorkerWithSync worker tag
    (registration,
      match associated.taskQueues.lookup tag with
      | some _ => associated
      | none => { associated with taskQueues := associated.taskQueues.insert tag [] })

/-- The event that is dispatched, what comes of it, and the manager. -/
def triggerSync (self : BackgroundSyncManager) (handlers : Handlers ε) (tag : Str) (lastChance : Bool) (now : ℤ) :
    Option SyncEvent×Except ε Unit×BackgroundSyncManager :=
  match self.syncRegistrations.lookup tag with
  | some registration =>
    (some (.init registration lastChance now),handlers registration.worker,
      { self with syncRegistrations := self.syncRegistrations.insert tag (registration.attempted now) })
  | none => (none,.ok (),self)

def enqueue (self : BackgroundSyncManager) (tag : Str) (task : SyncTask) : BackgroundSyncManager :=
  match self.taskQueues.lookup tag with
  | some queue =>
    { self with taskQueues := self.taskQueues.insert tag ((queue++[task]).mergeSort taskPriorityCompare) }
  | none => { self with taskQueues := self.taskQueues.insert tag [task] }

/-- The conditions under which a task that is added triggers a sync. -/
def allowsSync (self : BackgroundSyncManager) (tag : Str) : Bool :=
  self.networkMonitor.isOnline && self.networkMonitor.isNetworkTypeAllowed tag &&
    !self.networkMonitor.isBatteryLow

end BackgroundSyncManager

/-- The manager with its scheduler, and the events that were dispatched, the last one
first. -/
structure System where
  manager : BackgroundSyncManager
  scheduler : SyncScheduler
  sent : List SyncEvent

def System.init : System := ⟨.init,.init,[]⟩

namespace System

def triggerSync (s : System) (handlers : Handlers ε) (tag : Str) (lastChance : Bool) (now : ℤ) :
    Except ε Unit×System :=
  let (event,result,manager) := s.manager.triggerSync handlers tag lastChance now
  (result,⟨manager,s.scheduler,event.toList++s.sent⟩)

def maybeTriggerSync (s : System) (handlers : Handlers ε) (tag : Str) (now : ℤ) : Except ε Unit×System :=
  if s.manager.allowsSync tag then s.triggerSync handlers tag false now else (.ok (),s)

def addTask (s : System) (handlers : Handlers ε) (worker : WorkerId) (tag : Str) (data : List UInt8)
    (priority : TaskPriority) (now : ℤ) : Except ε Unit×System :=
  let task := SyncTask.init tag worker data priority now
  ({ s with manager := s.manager.enqueue tag task } : System).maybeTriggerSync handlers tag now

/-- The loop over the tags that are due. Each turn reads the clock. -/
def triggerDue (handlers : Handlers ε) (clock : Str → ℤ) : List Str → System → Except ε Unit×System
  | [],s => (.ok (),s)
  | tag::tags,s =>
    match s.triggerSync handlers tag false (clock tag) with
    | (.error e,s) => (.error e,s)
    | (.ok _,s) => triggerDue handlers clock tags { s with scheduler := s.scheduler.reschedule tag (clock tag) }

def processScheduledSyncs (s : System) (handlers : Handlers ε) (order : IterationOrder Str) (now : ℤ)
    (clock : Str → ℤ) : Except ε Unit×System :=
  triggerDue handlers clock (s.scheduler.dueTags order now) s

end System

inductive Call (ε : Type)
  | register (worker : WorkerId) (tag : Str) (options : SyncOptions) (now : ℤ)
  | addTask (worker : WorkerId) (tag : Str) (data : List UInt8) (priority : TaskPriority) (now : ℤ)
    (handlers : Handlers ε)
  | triggerSync (tag : Str) (lastChance : Bool) (now : ℤ) (handlers : Handlers ε)
  | processScheduledSyncs (order : IterationOrder Str) (now : ℤ) (clock : Str → ℤ) (handlers : Handlers ε)
  | scheduleSync (tag : Str) (delay : ℕ) (now : ℤ)
  | updateNetworkStatus (network : NetworkMonitor)

def step (s : System) : Call ε → System
  | .register worker tag options now => { s with manager := (s.manager.register worker tag options now).2 }
  | .addTask worker tag data priority now handlers => (s.addTask handlers worker tag data priority now).2
  | .triggerSync tag lastChance now handlers => (s.triggerSync handlers tag lastChance now).2
  | .processScheduledSyncs order now clock handlers => (s.processScheduledSyncs handlers order now clock).2
  | .scheduleSync tag delay now => { s with scheduler := s.scheduler.scheduleSync tag delay now }
  | .updateNetworkStatus network => { s with manager := { s.manager with networkMonitor := network } }

def registrationOf (s : System) (tag : Str) : Option SyncRegistration := s.manager.syncRegistrations.lookup tag

/-- The events for a tag, the last one first. -/
def sentFor (s : System) (tag : Str) : List SyncEvent := s.sent.filter fun event => decide (event.tag = tag)

/-- There are no more events than the options allow, consecutive ones are an interval apart,
and the one that reaches the limit is the last chance. -/
structure Honoured (options : SyncOptions) (sent : List SyncEvent) : Prop where
  attempts : sent.length ≤ options.maxAttempts
  apart : sent.IsChain fun later earlier : SyncEvent => earlier.timestamp+(options.minInterval : ℤ) ≤ later.timestamp
  lastChance : sent.length = options.maxAttempts → ∀ event ∈ sent.head?, event.lastChance = true

def AllHonoured (s : System) : Prop :=
  ∀ tag registration, registrationOf s tag = some registration → Honoured registration.options (sentFor s tag)

/-- What the options allow, from the counters of the registration. -/
structure Allowed (registration : SyncRegistration) (lastChance : Bool) (now : ℤ) : Prop where
  attempts : registration.attemptCount < registration.options.maxAttempts
  apart : ∀ last, registration.lastAttempt = some last → last+(registration.options.minInterval : ℤ) ≤ now
  lastChance : registration.attemptCount+1 = registration.options.maxAttempts → lastChance = true

def AllowedAt (s : System) (tag : Str) (lastChance : Bool) (now : ℤ) : Prop :=
  ∀ registration, registrationOf s tag = some registration → Allowed registration lastChance now

/-- The tags up to the first one whose handler fails. -/
def reached (s : System) (handlers : Handlers ε) : List Str → List Str
  | [] => []
  | tag::tags =>
    match registrationOf s tag with
    | none => tag::reached s handlers tags
    | some registration =>
      match handlers registration.worker with
      | .ok _ => tag::reached s handlers tags
      | .error _ => [tag]

/-- Each attempt that the call starts is one that the options allow. -/
def Heeds (s : System) : Call ε → Prop
  | .addTask _ tag _ _ now _ => s.manager.allowsSync tag → AllowedAt s tag false now
  | .triggerSync tag lastChance now _ => AllowedAt s tag lastChance now
  | .processScheduledSyncs order now clock handlers =>
    ∀ tag ∈ reached s handlers (s.scheduler.dueTags order now), AllowedAt s tag false (clock tag)
  | _ => True

/-- The counters of a registration are those of the events. -/
structure Counted (tag : Str) (registration : SyncRegistration) (sent : List SyncEvent) : Prop where
  tag : registration.tag = tag
  count : registration.attemptCount = sent.length
  last : registration.lastAttempt = sent.head?.map (·.timestamp)

/-- There are no events for a tag without a registration. -/
structure Inv (s : System) : Prop where
  counted : ∀ tag registration, registrationOf s tag = some registration → Counted tag registration (sentFor s tag)
  fresh : ∀ tag, registrationOf s tag = none → sentFor s tag = []

theorem Inv.init : Inv .init where
  counted _ _ h := nomatch h
  fresh _ _ := rfl

section Unchanged

variable {s t : System}

/-- Only the registrations and the events count. -/
theorem registrationOf_congr (h : t.manager.syncRegistrations = s.manager.syncRegistrations) :
    registrationOf t = registrationOf s := by
  funext tag
  rw [registrationOf,registrationOf,h]

theorem sentFor_congr (h : t.sent = s.sent) : sentFor t = sentFor s := by
  funext tag
  rw [sentFor,sentFor,h]

theorem Inv.congr (hregistrations : t.manager.syncRegistrations = s.manager.syncRegistrations)
    (hsent : t.sent = s.sent) (hinv : Inv s) : Inv t := by
  obtain ⟨hcounted,hfresh⟩ := hinv
  rw [← registrationOf_congr hregistrations,← sentFor_congr hsent] at hcounted hfresh
  exact ⟨hcounted,hfresh⟩

theorem allHonoured_congr (hregistrations : t.manager.syncRegistrations = s.manager.syncRegistrations)
    (hsent : t.sent = s.sent) : AllHonoured t ↔ AllHonoured s := by
  rw [AllHonoured,AllHonoured,registrationOf_congr hregistrations,sentFor_congr hsent]

end Unchanged

/-- One more event is in order exactly if the options allow it, and the events before were. -/
theorem honoured_cons {options : SyncOptions} {event : SyncEvent} {sent : List SyncEvent} :
    Honoured options (event::sent) ↔ Honoured options sent ∧ sent.length < options.maxAttempts ∧
      (∀ last ∈ sent.head?, last.timestamp+(options.minInterval : ℤ) ≤ event.timestamp) ∧
      (sent.length+1 = options.maxAttempts → event.lastChance = true) := by
  constructor
  · rintro ⟨hattempts,hapart,hlast⟩
    rw [List.length_cons] at hattempts hlast
    rw [List.isChain_cons] at hapart
    refine ⟨⟨by omega,hapart.2,fun hfull => ?_⟩,by omega,hapart.1,fun hfull => hlast hfull event rfl⟩
    omega
  · rintro ⟨hsent,hattempts,hgap,hlast⟩
    refine ⟨hattempts,List.isChain_cons.mpr ⟨hgap,hsent.apart⟩,?_⟩
    intro hfull last hhead
    rw [← Option.some.inj hhead]
    exact hlast hfull

section Triggers

variable {s : System} {handlers : Handlers ε} {tag : Str} {lastChance : Bool} {now : ℤ}
  {registration : SyncRegistration}

theorem triggerSync_none (h : registrationOf s tag = none) :
    s.triggerSync handlers tag lastChance now = (.ok (),s) := by
  rw [registrationOf] at h
  rw [System.triggerSync,BackgroundSyncManager.triggerSync,h]
  rfl

theorem triggerSync_some (h : registrationOf s tag = some registration) :
    s.triggerSync handlers tag lastChance now =
      (handlers registration.worker,
        ⟨{ s.manager with
            syncRegistrations := s.manager.syncRegistrations.insert tag (registration.attempted now) },
          s.scheduler,.init registration lastChance now::s.sent⟩) := by
  rw [registrationOf] at h
  rw [System.triggerSync,BackgroundSyncManager.triggerSync,h]
  rfl

theorem registrationOf_triggerSync (h : registrationOf s tag = some registration) (b : Str) :
    registrationOf (s.triggerSync handlers tag lastChance now).2 b =
      if b = tag then some (registration.attempted now) else registrationOf s b := by
  rw [triggerSync_some h]
  exact lookup_insert_eq tag b _ _

theorem sentFor_triggerSync (hinv : Inv s) (h : registrationOf s tag = some registration) (b : Str) :
    sentFor (s.triggerSync handlers tag lastChance now).2 b =
      if b = tag then .init registration lastChance now::sentFor s b else sentFor s b := by
  rw [triggerSync_some h,sentFor,List.filter_cons]
  have htag : (SyncEvent.init registration lastChance now).tag = tag := (hinv.counted tag registration h).tag
  rw [htag]
  by_cases hb : b = tag
  · rw [if_pos hb,if_pos (decide_eq_true hb.symm)]
    rfl
  · rw [if_neg hb,if_neg (by simpa using Ne.symm hb)]
    rfl

theorem Counted.attempted {sent : List SyncEvent} (h : Counted tag registration sent) (lastChance : Bool) (now : ℤ) :
    Counted tag (registration.attempted now) (.init registration lastChance now::sent) where
  tag := h.tag
  count := congrArg (·+1) h.count
  last := rfl

theorem triggerSync_inv (handlers : Handlers ε) (tag : Str) (lastChance : Bool) (now : ℤ) (hinv : Inv s) :
    Inv (s.triggerSync handlers tag lastChance now).2 := by
  cases h : registrationOf s tag with
  | none =>
    rw [triggerSync_none h]
    exact hinv
  | some registration =>
    constructor
    · intro b registration'
      rw [registrationOf_triggerSync h,sentFor_triggerSync hinv h]
      by_cases hb : b = tag
      · rw [if_pos hb,if_pos hb,hb]
        intro hsome
        rw [← Option.some.inj hsome]
        exact (hinv.counted tag registration h).attempted lastChance now
      · rw [if_neg hb,if_neg hb]
        exact hinv.counted b registration'
    · intro b
      rw [registrationOf_triggerSync h,sentFor_triggerSync hinv h]
      by_cases hb : b = tag
      · rw [if_pos hb]
        exact nofun
      · rw [if_neg hb,if_neg hb]
        exact hinv.fresh b

theorem Counted.allowed_iff {sent : List SyncEvent} (h : Counted tag registration sent) :
    Allowed registration lastChance now ↔ sent.length < registration.options.maxAttempts ∧
      (∀ last ∈ sent.head?, last.timestamp+(registration.options.minInterval : ℤ) ≤ now) ∧
      (sent.length+1 = registration.options.maxAttempts → lastChance = true) := by
  constructor
  · rintro ⟨hattempts,hapart,hlast⟩
    rw [h.count] at hattempts hlast
    refine ⟨hattempts,?_,hlast⟩
    intro last hmem
    apply hapart
    rw [h.last,hmem]
    rfl
  · rintro ⟨hattempts,hapart,hlast⟩
    refine ⟨h.count ▸ hattempts,?_,h.count ▸ hlast⟩
    intro time htime
    rw [h.last] at htime
    obtain ⟨last,hmem,rfl⟩ := Option.map_eq_some_iff.mp htime
    exact hapart last hmem

/-- An attempt leaves the events in order exactly if the options allow it. -/
theorem triggerSync_honoured (handlers : Handlers ε) (tag : Str) (lastChance : Bool) (now : ℤ) (hinv : Inv s) :
    AllHonoured (s.triggerSync handlers tag lastChance now).2 ↔ AllHonoured s ∧ AllowedAt s tag lastChance now := by
  cases h : registrationOf s tag with
  | none =>
    rw [triggerSync_none h]
    refine ⟨fun hall => ⟨hall,?_⟩,And.left⟩
    intro registration hsome
    rw [h] at hsome
    cases hsome
  | some registration =>
    have hcounted := hinv.counted tag registration h
    have hallowed : AllowedAt s tag lastChance now ↔ Allowed registration lastChance now := by
      rw [AllowedAt,h]
      simp
    have hcons : Honoured (registration.attempted now).options (.init registration lastChance now::sentFor s tag) ↔
        Honoured registration.options (sentFor s tag) ∧ Allowed registration lastChance now := by
      rw [hcounted.allowed_iff]
      exact honoured_cons
    rw [hallowed]
    constructor
    · intro hall
      have htag := hall tag (registration.attempted now) (by rw [registrationOf_triggerSync h,if_pos rfl])
      rw [sentFor_triggerSync hinv h,if_pos rfl,hcons] at htag
      refine ⟨?_,htag.2⟩
      intro b registration' hb
      by_cases hsame : b = tag
      · rw [hsame,h,Option.some.injEq] at hb
        rw [hsame,← hb]
        exact htag.1
      · have hother := hall b registration' (by rw [registrationOf_triggerSync h,if_neg hsame,hb])
        rw [sentFor_triggerSync hinv h,if_neg hsame] at hother
        exact hother
    · rintro ⟨hall,hnow⟩ b registration'
      rw [registrationOf_triggerSync h,sentFor_triggerSync hinv h]
      by_cases hsame : b = tag
      · rw [if_pos hsame,if_pos hsame,hsame]
        intro hsome
        rw [← Option.some.inj hsome]
        exact hcons.mpr ⟨hall tag registration h,hnow⟩
      · rw [if_neg hsame,if_neg hsame]
        exact hall b registration'

theorem registrationOf_triggerSync_ne {b : Str} (hb : b ≠ tag) :
    registrationOf (s.triggerSync handlers tag lastChance now).2 b = registrationOf s b := by
  cases h : registrationOf s tag with
  | none => rw [triggerSync_none h]
  | some registration => rw [registrationOf_triggerSync h,if_neg hb]

theorem allowedAt_congr {t : System} (h : registrationOf t tag = registrationOf s tag) :
    AllowedAt t tag lastChance now ↔ AllowedAt s tag lastChance now := by
  rw [AllowedAt,AllowedAt,h]

theorem reached_congr {t : System} {tags : List Str} (h : ∀ b ∈ tags, registrationOf t b = registrationOf s b) :
    reached t handlers tags = reached s handlers tags := by
  induction tags with
  | nil => rfl
  | cons b tags ih =>
    obtain ⟨hfirst,hrest⟩ := List.forall_mem_cons.mp h
    rw [reached,reached,hfirst,ih hrest]

theorem reached_subset (s : System) (handlers : Handlers ε) (tags : List Str) : reached s handlers tags ⊆ tags := by
  induction tags with
  | nil => exact List.Subset.refl []
  | cons b tags ih =>
    rw [reached]
    split
    · exact List.cons_subset_cons b ih
    · split
      · exact List.cons_subset_cons b ih
      · exact List.cons_subset_cons b (List.nil_subset tags)

/-- The loop goes on after an attempt that did not fail. -/
theorem reached_cons (s : System) (handlers : Handlers ε) (tag : Str) (lastChance : Bool) (now : ℤ) (tags : List Str) :
    reached s handlers (tag::tags) =
    match (s.triggerSync handlers tag lastChance now).1 with
    | .ok _ => tag::reached s handlers tags
    | .error _ => [tag] := by
  cases h : registrationOf s tag with
  | none => rw [triggerSync_none h,reached,h]
  | some registration => rw [triggerSync_some h,reached,h]

/-- An attempt for each tag that the loop comes to. -/
theorem triggerDue_spec {clock : Str → ℤ} {tags : List Str} (hnodup : tags.Nodup) (hinv : Inv s) :
    Inv (System.triggerDue handlers clock tags s).2 ∧
    (AllHonoured (System.triggerDue handlers clock tags s).2 ↔
      AllHonoured s ∧ ∀ tag ∈ reached s handlers tags, AllowedAt s tag false (clock tag)) := by
  induction tags generalizing s with
  | nil => exact ⟨hinv,fun h => ⟨h,nofun⟩,And.left⟩
  | cons tag tags ih =>
    obtain ⟨hnew,hnodup⟩ := List.nodup_cons.mp hnodup
    have hreached := reached_cons s handlers tag false (clock tag) tags
    have hinv' := triggerSync_inv handlers tag false (clock tag) hinv
    have hiff := triggerSync_honoured handlers tag false (clock tag) hinv
    have hother : ∀ b ∈ tags, registrationOf (s.triggerSync handlers tag false (clock tag)).2 b = registrationOf s b := by
      intro b hb
      apply registrationOf_triggerSync_ne
      rintro rfl
      exact hnew hb
    rw [hreached,System.triggerDue]
    rcases htrigger : s.triggerSync handlers tag false (clock tag) with ⟨result,t⟩
    rw [htrigger] at hinv' hiff hother
    cases result with
    | error e =>
      simp only [List.forall_mem_singleton]
      exact ⟨hinv',hiff⟩
    | ok _ =>
      -- The scheduler has no part in what follows.
      obtain ⟨u,hu⟩ : ∃ u, u = ({ t with scheduler := t.scheduler.reschedule tag (clock tag) } : System) := ⟨_,rfl⟩
      have huinv : Inv u := Inv.congr (s:=t) (hu ▸ rfl) (hu ▸ rfl) hinv'
      have huiff : AllHonoured u ↔ AllHonoured t := allHonoured_congr (hu ▸ rfl) (hu ▸ rfl)
      have huother : ∀ b ∈ tags, registrationOf u b = registrationOf s b := by
        rw [hu]
        exact hother
      obtain ⟨hloop,hloopIff⟩ := ih hnodup huinv
      simp only [← hu]
      refine ⟨hloop,hloopIff.trans ?_⟩
      rw [huiff,hiff,reached_congr huother,List.forall_mem_cons,and_assoc]
      refine and_congr_right fun _ => and_congr_right fun _ => forall₂_congr fun b hb => ?_
      exact allowedAt_congr (huother b (reached_subset s handlers tags hb))

end Triggers

section Registering

variable {s : System} {worker : WorkerId} {tag : Str} {options : SyncOptions} {now : ℤ}

theorem syncRegistrations_register (manager : BackgroundSyncManager) (h : manager.syncRegistrations.lookup tag = none) :
    (manager.register worker tag options now).2.syncRegistrations =
      manager.syncRegistrations.insert tag (.init tag worker options now) := by
  rw [BackgroundSyncManager.register,h]
  have hassociate : ∀ m : BackgroundSyncManager,
      (m.associateWorkerWithSync worker tag).syncRegistrations = m.syncRegistrations := by
    intro m
    rw [BackgroundSyncManager.associateWorkerWithSync]
    split
    · split
      · rfl
      · rfl
    · rfl
  simp only
  split
  · exact hassociate _
  · exact hassociate _

theorem registrationOf_register (worker : WorkerId) (options : SyncOptions) (now : ℤ) (h : registrationOf s tag = none)
    (b : Str) :
    registrationOf { s with manager := (s.manager.register worker tag options now).2 } b =
      if b = tag then some (.init tag worker options now) else registrationOf s b := by
  rw [registrationOf]
  change AList.lookup b (s.manager.register worker tag options now).2.syncRegistrations = _
  rw [syncRegistrations_register s.manager h,lookup_insert_eq]
  rfl

theorem register_existing {existing : SyncRegistration} (h : registrationOf s tag = some existing) :
    (s.manager.register worker tag options now).2 = s.manager := by
  rw [registrationOf] at h
  rw [BackgroundSyncManager.register,h]

theorem honoured_nil (options : SyncOptions) : Honoured options [] where
  attempts := Nat.zero_le _
  apart := .nil
  lastChance _ := nofun

theorem register_spec (worker : WorkerId) (tag : Str) (options : SyncOptions) (now : ℤ) (hinv : Inv s) :
    Inv { s with manager := (s.manager.register worker tag options now).2 } ∧
    (AllHonoured { s with manager := (s.manager.register worker tag options now).2 } ↔ AllHonoured s) := by
  cases h : registrationOf s tag with
  | some existing =>
    rw [register_existing h]
    exact ⟨hinv,Iff.rfl⟩
  | none =>
    have hof := registrationOf_register worker options now h
    obtain ⟨t,ht⟩ : ∃ t, t = ({ s with manager := (s.manager.register worker tag options now).2 } : System) := ⟨_,rfl⟩
    rw [← ht] at hof ⊢
    have hsent : sentFor t = sentFor s := sentFor_congr (ht ▸ rfl)
    have hnone := hinv.fresh tag h
    refine ⟨⟨?_,?_⟩,?_,?_⟩
    · intro b registration hb
      rw [hof] at hb
      rw [hsent]
      split at hb
      · rename_i hsame
        rw [hsame,hnone,← Option.some.inj hb]
        exact ⟨rfl,rfl,rfl⟩
      · exact hinv.counted b registration hb
    · intro b hb
      rw [hof] at hb
      rw [hsent]
      split at hb
      · cases hb
      · exact hinv.fresh b hb
    · intro hall b registration hb
      have hne : b ≠ tag := by
        rintro rfl
        rw [h] at hb
        cases hb
      rw [← hsent]
      exact hall b registration (by rw [hof,if_neg hne,hb])
    · intro hall b registration hb
      rw [hof] at hb
      rw [hsent]
      split at hb
      · rename_i hsame
        rw [hsame,hnone]
        exact honoured_nil registration.options
      · exact hall b registration hb

end Registering

theorem enqueue_frame (manager : BackgroundSyncManager) (tag : Str) (task : SyncTask) :
    (manager.enqueue tag task).syncRegistrations = manager.syncRegistrations ∧
    (manager.enqueue tag task).networkMonitor = manager.networkMonitor := by
  rw [BackgroundSyncManager.enqueue]
  split
  · exact ⟨rfl,rfl⟩
  · exact ⟨rfl,rfl⟩

theorem dueTags_nodup (scheduler : SyncScheduler) (order : IterationOrder Str) (now : ℤ) :
    (scheduler.dueTags order now).Nodup :=
  ((order scheduler.scheduledSyncs.keys).2.nodup_iff.mpr scheduler.scheduledSyncs.nodupKeys).filter _

theorem addTask_spec {s : System} {handlers : Handlers ε} {worker : WorkerId} {tag : Str} {data : List UInt8}
    {priority : TaskPriority} {now : ℤ} (hinv : Inv s) :
    Inv (s.addTask handlers worker tag data priority now).2 ∧
    (AllHonoured (s.addTask handlers worker tag data priority now).2 ↔
      AllHonoured s ∧ (s.manager.allowsSync tag → AllowedAt s tag false now)) := by
  obtain ⟨hregistrations,hmonitor⟩ := enqueue_frame s.manager tag (.init tag worker data priority now)
  rw [System.addTask]
  obtain ⟨t,ht⟩ : ∃ t, t = ({ s with manager := s.manager.enqueue tag (.init tag worker data priority now) } : System) :=
    ⟨_,rfl⟩
  have hsame : t.manager.syncRegistrations = s.manager.syncRegistrations := by rw [ht,← hregistrations]
  have hallows : t.manager.allowsSync tag = s.manager.allowsSync tag := by
    rw [ht,BackgroundSyncManager.allowsSync,hmonitor]
    rfl
  have htinv : Inv t := Inv.congr hsame (ht ▸ rfl) hinv
  have htiff : AllHonoured t ↔ AllHonoured s := allHonoured_congr hsame (ht ▸ rfl)
  simp only [← ht]
  rw [System.maybeTriggerSync,hallows]
  split
  · rename_i hallowed
    refine ⟨triggerSync_inv handlers tag false now htinv,(triggerSync_honoured handlers tag false now htinv).trans ?_⟩
    rw [htiff,allowedAt_congr (congrFun (registrationOf_congr hsame) tag)]
    exact and_congr_right fun _ => ⟨fun h _ => h,fun h => h hallowed⟩
  · rename_i hallowed
    exact ⟨htinv,htiff.trans ⟨fun h => ⟨h,fun hallows => absurd hallows hallowed⟩,And.left⟩⟩

/-- What a call does to the counters, and when it leaves the events in order. -/
theorem step_spec (s : System) (call : Call ε) (hinv : Inv s) :
    Inv (step s call) ∧ (AllHonoured (step s call) ↔ AllHonoured s ∧ Heeds s call) := by
  cases call with
  | register worker tag options now =>
    obtain ⟨hregistered,hiff⟩ := register_spec worker tag options now hinv
    exact ⟨hregistered,hiff.trans ⟨fun h => ⟨h,trivial⟩,And.left⟩⟩
  | addTask worker tag data priority now handlers => exact addTask_spec hinv
  | triggerSync tag lastChance now handlers => exact ⟨triggerSync_inv _ _ _ _ hinv,triggerSync_honoured _ _ _ _ hinv⟩
  | processScheduledSyncs order now clock handlers => exact triggerDue_spec (dueTags_nodup _ _ _) hinv
  | scheduleSync tag delay now =>
    refine ⟨Inv.congr (s:=s) rfl rfl hinv,(allHonoured_congr (s:=s) rfl rfl).trans ?_⟩
    exact ⟨fun h => ⟨h,trivial⟩,And.left⟩
  | updateNetworkStatus network =>
    refine ⟨Inv.congr (s:=s) rfl rfl hinv,(allHonoured_congr (s:=s) rfl rfl).trans ?_⟩
    exact ⟨fun h => ⟨h,trivial⟩,And.left⟩

/-- The options are honoured at the end of a run exactly if all its calls heed them. -/
theorem honoured_iff (calls : List (Call ε)) : AllHonoured (run step .init calls) ↔ Along step Heeds .init calls := by
  have hstart : AllHonoured .init := fun _ _ h => nomatch h
  rw [run_iff_along (I:=Inv) (fun s call hinv => (step_spec s call hinv).1)
    (fun s call hinv => (step_spec s call hinv).2) .init]
  exact ⟨And.right,fun h => ⟨hstart,h⟩⟩

def tag : Str := ascii "outbox".toList

/-- A tag with the default options is triggered twice within a millisecond. -/
def hasty : List (Call Unit) :=
  let worker : WorkerId := Vector.replicate 16 0
  let handlers : Handlers Unit := fun _ => .ok ()
  [.register worker tag .init 0,.triggerSync tag false 0 handlers,.triggerSync tag false 1 handlers]

theorem hasty_attempt : ¬AllHonoured (run step .init hasty) := by
  intro h
  have happart := (h tag _ rfl).apart
  exact absurd happart (by decide)

end ZNet.BackgroundSync
