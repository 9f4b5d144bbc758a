import ZNet.BackgroundSync
import ZNet.StableSort
import ZNet.FifoRuns

/-!
# Queues of sync tasks

Each tag has a queue of tasks, which is sorted again after each task that is added. It is
emptied by a sync event of the tag and by its unregistration.
-/

namespace ZNet.BackgroundSync
open TextScan Tables Runs StableSort FifoRuns
open WorkerLifecycle (WorkerId)

namespace BackgroundSyncManager

def disassociateWorkerFromSync (self : BackgroundSyncManager) (worker : WorkerId) (tag : Str) : BackgroundSyncManager :=
  match self.workerSyncs.lookup worker with
  | some tags => { self with workerSyncs := self.workerSyncs.insert worker (tags.erase tag) }
  | none => self

/-- The answer, the tasks that are freed with the queue, and the manager. A tag without a
registration keeps its queue. -/
def unregister (self : BackgroundSyncManager) (tag : Str) : Bool×List SyncTask×BackgroundSyncManager :=
  match self.syncRegistrations.lookup tag with
  | some registration =>
    let disassociated := self.disassociateWorkerFromSync registration.worker tag
    (true,(disassociated.taskQueues.lookup tag).getD [],
      { disassociated with
        taskQueues := disassociated.taskQueues.erase tag
        syncRegistrations := disassociated.syncRegistrations.erase tag })
  | none => (false,[],self)

/-- The loop takes the first task of the queue until none is left. The second list has the
tasks that were sent to the worker. -/
def sendTasks (sent : List SyncTask) : List SyncTask → List SyncTask×List SyncTask
  | [] => ([],sent)
  | task::queue => sendTasks (sent++[task]) queue

/-- The tasks that are sent to the worker, and the manager. The worker of the event then has
a new state, which is not the manager's. -/
def processSyncEvent (self : BackgroundSyncManager) (event : SyncEvent) : List SyncTask×BackgroundSyncManager :=
  match self.taskQueues.lookup event.tag with
  | some queue =>
    let (rest,sent) := sendTasks [] queue
    (sent,{ self with taskQueues := self.taskQueues.insert event.tag rest })
  | none => ([],self)

end BackgroundSyncManager

variable {ε : Type}

/-- All calls of the manager. -/
inductive ManagerCall (ε : Type)
  | sync (call : Call ε)
  | unregister (tag : Str)
  | processSyncEvent (event : SyncEvent)

def managerStep (s : System) : ManagerCall ε → System
  | .sync call => step s call
  | .unregister tag => { s with manager := (s.manager.unregister tag).2.2 }
  | .processSyncEvent event => { s with manager := (s.manager.processSyncEvent event).2 }

def queueOf (s : System) (tag : Str) : List SyncTask := (s.manager.taskQueues.lookup tag).getD []

def rank (task : SyncTask) : ℕ := task.priority.ctorIdx

/-- The tasks of a priority, in their order. -/
def ofPriority (priority : TaskPriority) (tasks : List SyncTask) : List SyncTask := level rank priority.ctorIdx tasks

section Tasks

variable (tag : Str)

/-- The task that a call adds for the tag. -/
def added (_s : System) : ManagerCall ε → List SyncTask
  | .sync (.addTask worker t data priority now _) => if t = tag then [.init t worker data priority now] else []
  | _ => []

/-- The tasks of the tag that a call sends to the worker. -/
def dispatched (s : System) : ManagerCall ε → List SyncTask
  | .processSyncEvent event => if event.tag = tag then (s.manager.processSyncEvent event).1 else []
  | _ => []

/-- The tasks of the tag that a call frees. -/
def freed (s : System) : ManagerCall ε → List SyncTask
  | .unregister t => if t = tag then (s.manager.unregister t).2.1 else []
  | _ => []

end Tasks

/-- The tasks, the tags of the workers and the owners of the tags are the same. -/
structure SameTasks (s t : System) : Prop where
  taskQueues : t.manager.taskQueues = s.manager.taskQueues
  workerSyncs : t.manager.workerSyncs = s.manager.workerSyncs
  owners : ∀ tag, (registrationOf t tag).map (fun r => (r.tag,r.worker)) =
    (registrationOf s tag).map fun r => (r.tag,r.worker)

theorem SameTasks.refl (s : System) : SameTasks s s := ⟨rfl,rfl,fun _ => rfl⟩

theorem SameTasks.trans {s t u : System} (h : SameTasks s t) (h' : SameTasks t u) : SameTasks s u where
  taskQueues := h'.taskQueues.trans h.taskQueues
  workerSyncs := h'.workerSyncs.trans h.workerSyncs
  owners tag := (h'.owners tag).trans (h.owners tag)

theorem SameTasks.queueOf_eq {s t : System} (h : SameTasks s t) (tag : Str) : queueOf t tag = queueOf s tag := by
  rw [queueOf,queueOf,h.taskQueues]

section Frames

variable (s : System) (handlers : Handlers ε) (tag : Str) (lastChance : Bool) (now : ℤ)

theorem triggerSync_same : SameTasks s (s.triggerSync handlers tag lastChance now).2 := by
  cases h : registrationOf s tag with
  | none =>
    rw [triggerSync_none h]
    exact .refl s
  | some registration =>
    refine ⟨?_,?_,fun b => ?_⟩
    · rw [triggerSync_some h]
    · rw [triggerSync_some h]
    · rw [registrationOf_triggerSync h]
      split
      · rename_i hb
        simp [hb,h,SyncRegistration.attempted]
      · rfl

theorem maybeTriggerSync_same : SameTasks s (s.maybeTriggerSync handlers tag now).2 := by
  rw [System.maybeTriggerSync]
  split
  · exact triggerSync_same s handlers tag false now
  · exact .refl s

theorem triggerDue_same (clock : Str → ℤ) (tags : List Str) : SameTasks s (System.triggerDue handlers clock tags s).2 := by
  induction tags generalizing s with
  | nil => exact .refl s
  | cons tag tags ih =>
    have hfirst := triggerSync_same s handlers tag false (clock tag)
    rw [System.triggerDue]
    rcases htrigger : s.triggerSync handlers tag false (clock tag) with ⟨result,t⟩
    rw [htrigger] at hfirst
    cases result with
    | error e => exact hfirst
    | ok _ =>
      have hscheduler : SameTasks t { t with scheduler := t.scheduler.reschedule tag (clock tag) } := ⟨rfl,rfl,fun _ => rfl⟩
      exact (hfirst.trans hscheduler).trans (ih _)

end Frames

theorem sendTasks_eq (sent queue : List SyncTask) : BackgroundSyncManager.sendTasks sent queue = ([],sent++queue) := by
  induction queue generalizing sent with
  | nil => simp [BackgroundSyncManager.sendTasks]
  | cons task queue ih => simp [BackgroundSyncManager.sendTasks,ih]

theorem associate_taskQueues (manager : BackgroundSyncManager) (worker : WorkerId) (tag : Str) :
    (manager.associateWorkerWithSync worker tag).taskQueues = manager.taskQueues := by
  rw [BackgroundSyncManager.associateWorkerWithSync]
  split
  · split <;> rfl
  · rfl

theorem register_eq {s : System} {tag : Str} (h : registrationOf s tag = none) (worker : WorkerId) (options : SyncOptions)
    (now : ℤ) : ∃ taskQueues : Table Str (List SyncTask),
    (∀ b, (taskQueues.lookup b).getD [] = queueOf s b) ∧
    (s.manager.register worker tag options now).2 =
      { s.manager.associateWorkerWithSync worker tag with
        syncRegistrations := s.manager.syncRegistrations.insert tag (.init tag worker options now)
        taskQueues := taskQueues } := by
  rw [registrationOf] at h
  cases hqueue : s.manager.taskQueues.lookup tag with
  | some queue =>
    refine ⟨s.manager.taskQueues,fun b => rfl,?_⟩
    simp only [BackgroundSyncManager.register,h,associate_taskQueues,hqueue]
    simp only [BackgroundSyncManager.associateWorkerWithSync]
    split
    · split <;> rfl
    · rfl
  | none =>
    refine ⟨s.manager.taskQueues.insert tag [],fun b => ?_,?_⟩
    · rw [queueOf,lookup_insert_eq]
      split
      · rename_i hb
        subst hb
        simp [hqueue]
      · rfl
    · simp only [BackgroundSyncManager.register,h,associate_taskQueues,hqueue]
      simp only [BackgroundSyncManager.associateWorkerWithSync]
      split
      · split <;> rfl
      · rfl

/-- A registration makes an empty queue where there is none. -/
theorem queueOf_register (s : System) (worker : WorkerId) (tag : Str) (options : SyncOptions) (now : ℤ) (b : Str) :
    queueOf { s with manager := (s.manager.register worker tag options now).2 } b = queueOf s b := by
  cases h : registrationOf s tag with
  | some existing => rw [register_existing h]
  | none =>
    obtain ⟨taskQueues,hqueues,hregister⟩ := register_eq h worker options now
    rw [hregister]
    exact hqueues b

theorem queueOf_addTask (s : System) (handlers : Handlers ε) (worker : WorkerId) (tag : Str) (data : List UInt8)
    (priority : TaskPriority) (now : ℤ) (b : Str) :
    queueOf (s.addTask handlers worker tag data priority now).2 b =
      if b = tag then sort rank (queueOf s tag++[.init tag worker data priority now]) else queueOf s b := by
  rw [System.addTask,(maybeTriggerSync_same ..).queueOf_eq]
  simp only [queueOf,BackgroundSyncManager.enqueue]
  cases h : s.manager.taskQueues.lookup tag with
  | none =>
    rw [lookup_insert_eq]
    split
    · simp [sort]
    · rfl
  | some queue =>
    rw [lookup_insert_eq]
    split
    · rfl
    · rfl

theorem queueOf_processSyncEvent (s : System) (event : SyncEvent) (b : Str) :
    (s.manager.processSyncEvent event).1 = queueOf s event.tag ∧
    queueOf { s with manager := (s.manager.processSyncEvent event).2 } b =
      if b = event.tag then [] else queueOf s b := by
  cases h : s.manager.taskQueues.lookup event.tag with
  | none =>
    have hprocess : s.manager.processSyncEvent event = ([],s.manager) := by
      simp [BackgroundSyncManager.processSyncEvent,h]
    rw [hprocess]
    refine ⟨by simp [queueOf,h],?_⟩
    split
    · rename_i hb
      subst hb
      simp [queueOf,h]
    · rfl
  | some queue =>
    have hprocess : s.manager.processSyncEvent event =
        (queue,{ s.manager with taskQueues := s.manager.taskQueues.insert event.tag [] }) := by
      simp [BackgroundSyncManager.processSyncEvent,h,sendTasks_eq]
    rw [hprocess]
    refine ⟨by simp [queueOf,h],?_⟩
    simp only [queueOf,lookup_insert_eq]
    split <;> rfl

theorem disassociate_frame (manager : BackgroundSyncManager) (worker : WorkerId) (tag : Str) :
    (manager.disassociateWorkerFromSync worker tag).taskQueues = manager.taskQueues ∧
    (manager.disassociateWorkerFromSync worker tag).syncRegistrations = manager.syncRegistrations := by
  rw [BackgroundSyncManager.disassociateWorkerFromSync]
  split <;> exact ⟨rfl,rfl⟩

section Unregistering

variable {s : System} {tag : Str} {registration : SyncRegistration}

theorem unregister_none (h : registrationOf s tag = none) : s.manager.unregister tag = (false,[],s.manager) := by
  rw [registrationOf] at h
  rw [BackgroundSyncManager.unregister,h]

theorem unregister_some (h : registrationOf s tag = some registration) :
    s.manager.unregister tag = (true,queueOf s tag,
      { s.manager.disassociateWorkerFromSync registration.worker tag with
        taskQueues := s.manager.taskQueues.erase tag
        syncRegistrations := s.manager.syncRegistrations.erase tag }) := by
  obtain ⟨hqueues,hregistrations⟩ := disassociate_frame s.manager registration.worker tag
  rw [registrationOf] at h
  rw [BackgroundSyncManager.unregister,h]
  simp only [hqueues,hregistrations,queueOf]

end Unregistering

section Queues

variable {s : System} {tag : Str}

/-- What a call does to a queue. -/
theorem queueOf_step (h : Ranked rank (queueOf s tag)) (call : ManagerCall ε) :
    (dispatched tag s call++freed tag s call = [] ∧
      queueOf (managerStep s call) tag = sort rank (queueOf s tag++added tag s call)) ∨
    added tag s call = [] ∧ queueOf (managerStep s call) tag = [] ∧
      (dispatched tag s call = queueOf s tag ∧ freed tag s call = [] ∨
        dispatched tag s call = [] ∧ freed tag s call = queueOf s tag) := by
  have hsame : sort rank (queueOf s tag) = queueOf s tag := sort_eq_iff.mpr ⟨h,fun _ => rfl⟩
  have hframe (call : Call ε) (hsteps : SameTasks s (step s call)) (hadded : added tag s (.sync call) = []) :
      queueOf (managerStep s (.sync call)) tag = sort rank (queueOf s tag++added tag s (.sync call)) := by
    rw [hadded,List.append_nil,hsame]
    exact hsteps.queueOf_eq tag
  cases call with
  | sync call =>
    refine .inl ⟨rfl,?_⟩
    cases call with
    | register worker t options now => simp [managerStep,step,queueOf_register,added,hsame]
    | addTask worker t data priority now handlers =>
      simp only [managerStep,step,queueOf_addTask,added]
      by_cases hb : t = tag
      · simp [hb]
      · simp [hb,Ne.symm hb,hsame]
    | triggerSync t lastChance now handlers => exact hframe _ (triggerSync_same ..) rfl
    | processScheduledSyncs order now clock handlers => exact hframe _ (triggerDue_same ..) rfl
    | scheduleSync t delay now => exact hframe _ ⟨rfl,rfl,fun _ => rfl⟩ rfl
    | updateNetworkStatus network => exact hframe _ ⟨rfl,rfl,fun _ => rfl⟩ rfl
  | unregister t =>
    by_cases hb : t = tag
    · subst hb
      cases hregistration : registrationOf s t with
      | none => simp [managerStep,dispatched,freed,added,unregister_none hregistration,hsame]
      | some registration =>
        refine .inr ⟨rfl,?_,.inr ⟨rfl,?_⟩⟩
        · simp [managerStep,unregister_some hregistration,queueOf]
        · simp [freed,unregister_some hregistration]
    · refine .inl ⟨by simp [dispatched,freed,hb],?_⟩
      simp only [managerStep,added,List.append_nil,hsame]
      cases hregistration : registrationOf s t with
      | none => rw [unregister_none hregistration]
      | some registration =>
        rw [unregister_some hregistration,queueOf,lookup_erase_eq,if_neg (Ne.symm hb)]
        rfl
  | processSyncEvent event =>
    obtain ⟨hsent,hqueue⟩ := queueOf_processSyncEvent s event tag
    by_cases hb : event.tag = tag
    · refine .inr ⟨rfl,?_,.inl ⟨?_,rfl⟩⟩
      · simp [managerStep,hqueue,hb]
      · simp [dispatched,hb,hsent]
    · refine .inl ⟨by simp [dispatched,freed,hb],?_⟩
      simp [managerStep,hqueue,Ne.symm hb,added,hsame]

theorem conserves_step (h : Ranked rank (queueOf s tag)) (priority : TaskPriority) (call : ManagerCall ε) :
    Conserves managerStep (fun s => ofPriority priority (queueOf s tag)) (fun s call => ofPriority priority (added tag s call))
      (fun s call => ofPriority priority (dispatched tag s call++freed tag s call)) s call := by
  rcases queueOf_step h call with ⟨hout,hqueue⟩ | ⟨hadded,hqueue,⟨hsent,hfreed⟩ | ⟨hsent,hfreed⟩⟩
  · simp [Conserves,ofPriority,hout,hqueue]
  · simp [Conserves,ofPriority,hadded,hqueue,hsent,hfreed]
  · simp [Conserves,ofPriority,hadded,hqueue,hsent,hfreed]

end Queues

end ZNet.BackgroundSync
