import ZNet.Tables
import ZNet.Runs

/-!
# Background tasks

A pass goes over the table and runs what is due. It gives recurring tasks a new time and
leaves the other tasks as they are.
-/

namespace ZNet.BackgroundTasks
open Tables Runs

abbrev Str := List UInt8

/-- The functions that tasks call are numbered. -/
abbrev Callback := ℕ

/-- Times are in seconds. -/
structure BackgroundTask where
  taskId : ℕ
  taskType : Str
  data : Str
  scheduledTime : ℕ
  interval : ℕ
  recurring : Bool
  callback : Option Callback
deriving DecidableEq

/-- A sum of 64 bits. The check of the language traps where it does not fit. -/
def checkedAdd (a b : ℕ) : Option ℕ := if a+b < 2^64 then some (a+b) else none

namespace BackgroundTask

def init (taskId : ℕ) (taskType data : Str) (now : ℕ) : BackgroundTask :=
  ⟨taskId,taskType,data,now,0,false,none⟩

def setInterval (self : BackgroundTask) (interval : ℕ) (recurring : Bool) (now : ℕ) : Option BackgroundTask :=
  (checkedAdd now interval).map fun time =>
    { self with interval := interval, recurring := recurring, scheduledTime := time }

def setCallback (self : BackgroundTask) (callback : Callback) : BackgroundTask :=
  { self with callback := some callback }

def isDue (self : BackgroundTask) (now : ℕ) : Bool := decide (self.scheduledTime ≤ now)

/-- What the task is after its callback was called. -/
def execute (self : BackgroundTask) (now : ℕ) : Option BackgroundTask :=
  if self.recurring then (checkedAdd now self.interval).map fun time => { self with scheduledTime := time }
  else some self

end BackgroundTask

/-- What the clock shows during a pass when a task is looked at, after its callback was
called, and when it is rescheduled. -/
structure Readings where
  due : ℕ
  executed : ℕ
  rescheduled : ℕ
  due_le : due ≤ executed
  executed_le : executed ≤ rescheduled

/-- The tasks whose callbacks are called, and unless an addition traps the table and the
tasks to reschedule. -/
def executeDue (readings : ℕ → Readings) : List ℕ → Table ℕ BackgroundTask → List BackgroundTask →
    List ℕ×Option (Table ℕ BackgroundTask×List BackgroundTask)
  | [],tasks,toReschedule => ([],some (tasks,toReschedule))
  | id::ids,tasks,toReschedule =>
    match (tasks.lookup id).filter (·.isDue (readings id).due) with
    | none => executeDue readings ids tasks toReschedule
    | some task =>
      let called := if task.callback.isSome then [id] else []
      match task.execute (readings id).executed with
      | none => (called,none)
      | some task =>
        let rest := executeDue readings ids (tasks.insert id task)
          (if task.recurring then toReschedule++[task] else toReschedule)
        (called++rest.1,rest.2)

def reschedule (readings : ℕ → Readings) : List BackgroundTask → Table ℕ BackgroundTask →
    Option (Table ℕ BackgroundTask)
  | [],tasks => some tasks
  | task::toReschedule,tasks =>
    match checkedAdd (readings task.taskId).rescheduled task.interval with
    | none => none
    | some time => reschedule readings toReschedule (tasks.insert task.taskId { task with scheduledTime := time })

structure EventLoopManager where
  backgroundTasks : Table ℕ BackgroundTask

namespace EventLoopManager

def init : EventLoopManager := ⟨∅⟩

def scheduleBackgroundTask (self : EventLoopManager) (task : BackgroundTask) : EventLoopManager :=
  ⟨self.backgroundTasks.insert task.taskId task⟩

def cancelBackgroundTask (self : EventLoopManager) (taskId : ℕ) : EventLoopManager :=
  ⟨self.backgroundTasks.erase taskId⟩

/-- The tasks whose callbacks are called, and nothing more where an addition traps. -/
def processBackgroundTasks (self : EventLoopManager) (order : IterationOrder ℕ) (readings : ℕ → Readings) :
    List ℕ×Option EventLoopManager :=
  match executeDue readings (order self.backgroundTasks.keys).1 self.backgroundTasks [] with
  | (ran,none) => (ran,none)
  | (ran,some (tasks,toReschedule)) => (ran,(reschedule readings toReschedule tasks).map .mk)

end EventLoopManager

inductive Call
  | scheduleBackgroundTask (task : BackgroundTask)
  | cancelBackgroundTask (taskId : ℕ)
  | processBackgroundTasks (order : IterationOrder ℕ) (readings : ℕ → Readings)

/-- What has happened to the tasks. -/
inductive Event
  | scheduled (task : BackgroundTask)
  | cancelled (taskId : ℕ)
  | passed (readings : ℕ → Readings) (ran : List ℕ)

/-- The manager, unless the program has been stopped by a trap, and what has happened, the
last event first. -/
structure World where
  manager : Option EventLoopManager
  history : List Event

def World.init : World := ⟨some .init,[]⟩

/-- The tasks whose callbacks a call runs. -/
def ran (s : World) : Call → List ℕ
  | .processBackgroundTasks order readings =>
    (s.manager.map fun manager => (manager.processBackgroundTasks order readings).1).getD []
  | _ => []

def step (s : World) (call : Call) : World :=
  match s.manager with
  | none => s
  | some manager =>
    match call with
    | .scheduleBackgroundTask task => ⟨some (manager.scheduleBackgroundTask task),.scheduled task::s.history⟩
    | .cancelBackgroundTask taskId => ⟨some (manager.cancelBackgroundTask taskId),.cancelled taskId::s.history⟩
    | .processBackgroundTasks order readings =>
      let (ran,manager) := manager.processBackgroundTasks order readings
      ⟨manager,.passed readings ran::s.history⟩

/-- The task as it was scheduled last, if it was not cancelled afterwards. -/
def current : List Event → ℕ → Option BackgroundTask
  | [],_ => none
  | .scheduled task::history,id => if task.taskId = id then some task else current history id
  | .cancelled taskId::history,id => if taskId = id then none else current history id
  | .passed _ _::history,id => current history id

/-- The passes since the task was scheduled or cancelled. -/
def passesSince : List Event → ℕ → List Readings
  | [],_ => []
  | .scheduled task::history,id => if task.taskId = id then [] else passesSince history id
  | .cancelled taskId::history,id => if taskId = id then [] else passesSince history id
  | .passed readings _::history,id => readings id::passesSince history id

/-- The passes since then that have run its callback. -/
def runsSince : List Event → ℕ → List Readings
  | [],_ => []
  | .scheduled task::history,id => if task.taskId = id then [] else runsSince history id
  | .cancelled taskId::history,id => if taskId = id then [] else runsSince history id
  | .passed readings ran::history,id =>
    if id ∈ ran then readings id::runsSince history id else runsSince history id

/-- A callback runs once in a pass, and only if its task is scheduled and due. Another run of
the task is an interval away, or there is no other run. -/
def Timely (s : World) (call : Call) : Prop :=
  match call with
  | .processBackgroundTasks _ readings =>
    (ran s call).Nodup ∧ ∀ id ∈ ran s call, ∃ task, current s.history id = some task ∧
      task.scheduledTime ≤ (readings id).due ∧
      if task.recurring then ∀ u ∈ runsSince s.history id, u.executed+task.interval ≤ (readings id).due
      else runsSince s.history id = []
  | _ => True

/-- A task with a callback that is not recurring and is due was not yet due in an earlier
pass. -/
def FirstDue (s : World) : Call → Prop
  | .processBackgroundTasks _ readings =>
    ∀ id task, current s.history id = some task → task.recurring = false → task.callback.isSome →
      task.scheduledTime ≤ (readings id).due → ∀ r ∈ passesSince s.history id, r.due < task.scheduledTime
  | _ => True

/-- The next times of the recurring tasks have 64 bits. -/
def Fits (s : World) : Call → Prop
  | .processBackgroundTasks _ readings =>
    ∀ id task, current s.history id = some task → task.recurring → (readings id).rescheduled+task.interval < 2^64
  | _ => True

section Passes

variable {readings : ℕ → Readings} {tasks tasks' : Table ℕ BackgroundTask} {toReschedule again : List BackgroundTask}
  {ids : List ℕ}

/-- The task that is due under an id. -/
def dueAt (readings : ℕ → Readings) (tasks : Table ℕ BackgroundTask) (id : ℕ) : Option BackgroundTask :=
  (tasks.lookup id).filter (·.isDue (readings id).due)

/-- The callback of the task under an id is called. -/
def calledAt (readings : ℕ → Readings) (tasks : Table ℕ BackgroundTask) (id : ℕ) : Bool :=
  (dueAt readings tasks id).any (·.callback.isSome)

def executed (readings : ℕ → Readings) (id : ℕ) (task : BackgroundTask) : BackgroundTask :=
  if task.recurring then { task with scheduledTime := (readings id).executed+task.interval } else task

/-- A due task that is recurring, as it is put aside. -/
def putAside (readings : ℕ → Readings) (tasks : Table ℕ BackgroundTask) (id : ℕ) : Option BackgroundTask :=
  ((dueAt readings tasks id).filter (·.recurring)).map (executed readings id)

theorem execute_eq {task task' : BackgroundTask} {id : ℕ} (h : task.execute (readings id).executed = some task') :
    task' = executed readings id task := by
  rw [BackgroundTask.execute] at h
  rw [executed]
  split at h
  · rw [checkedAdd] at h
    split at h
    · rw [if_pos (by assumption)]
      exact (Option.some.inj h).symm
    · cases h
  · rw [if_neg (by assumption)]
    exact (Option.some.inj h).symm

theorem executeDue_skip {id : ℕ} (h : dueAt readings tasks id = none) :
    executeDue readings (id::ids) tasks toReschedule = executeDue readings ids tasks toReschedule := by
  rw [dueAt] at h
  rw [executeDue,h]

/-- One turn of the loop at a due task. -/
theorem executeDue_due (ids : List ℕ) (toReschedule : List BackgroundTask) {id : ℕ} {task : BackgroundTask}
    (h : dueAt readings tasks id = some task) :
    let called := if task.callback.isSome then [id] else []
    task.execute (readings id).executed = none ∧ executeDue readings (id::ids) tasks toReschedule = (called,none) ∨
    ∃ tasks', tasks' = tasks.insert id (executed readings id task) ∧
      let rest := executeDue readings ids tasks'
        (if task.recurring then toReschedule++[executed readings id task] else toReschedule)
      executeDue readings (id::ids) tasks toReschedule = (called++rest.1,rest.2) := by
  intro called
  rw [dueAt] at h
  rw [executeDue,h]
  cases hexecute : task.execute (readings id).executed with
  | none => exact Or.inl ⟨rfl,by simp only [hexecute]; rfl⟩
  | some task' =>
    right
    have heq := execute_eq hexecute
    have hrecurring : task'.recurring = task.recurring := by
      rw [heq,executed]
      split
      · rfl
      · rfl
    refine ⟨_,rfl,?_⟩
    simp only [hexecute,← heq,hrecurring]
    rfl

theorem dueAt_insert_ne {a b : ℕ} (h : b ≠ a) (task : BackgroundTask) :
    dueAt readings (tasks.insert a task) b = dueAt readings tasks b := by
  rw [dueAt,dueAt,AList.lookup_insert_ne h]

theorem calledAt_insert {a b : ℕ} (h : b ≠ a) (task : BackgroundTask) :
    calledAt readings (tasks.insert a task) b = calledAt readings tasks b := by
  rw [calledAt,calledAt,dueAt_insert_ne h]

/-- The callbacks are called in the order of the ids, up to the task at which an addition
traps. -/
theorem executeDue_ran (readings : ℕ → Readings) (hnodup : ids.Nodup) (tasks : Table ℕ BackgroundTask)
    (toReschedule : List BackgroundTask) :
    (executeDue readings ids tasks toReschedule).1 <+: ids.filter (calledAt readings tasks) ∧
    ((executeDue readings ids tasks toReschedule).2.isSome →
      (executeDue readings ids tasks toReschedule).1 = ids.filter (calledAt readings tasks)) := by
  induction ids generalizing tasks toReschedule with
  | nil => exact ⟨List.prefix_rfl,fun _ => rfl⟩
  | cons id ids ih =>
    obtain ⟨hnew,hnodup⟩ := List.nodup_cons.mp hnodup
    cases hdue : dueAt readings tasks id with
    | none =>
      have hnot : calledAt readings tasks id = false := by rw [calledAt,hdue]; rfl
      rw [executeDue_skip hdue,List.filter_cons_of_neg (by rw [hnot]; exact Bool.false_ne_true)]
      exact ih hnodup tasks toReschedule
    | some task =>
      have hfilter : (id::ids).filter (calledAt readings tasks) =
          (if task.callback.isSome then [id] else [])++ids.filter (calledAt readings tasks) := by
        rw [List.filter_cons,calledAt,hdue,Option.any_some]
        split
        · rfl
        · rfl
      rw [hfilter]
      rcases executeDue_due ids toReschedule hdue with ⟨-,htrap⟩ | ⟨tasks',htasks',hrest⟩
      · rw [htrap]
        exact ⟨List.prefix_append _ _,fun h => nomatch h⟩
      · have hsame : ids.filter (calledAt readings tasks') = ids.filter (calledAt readings tasks) := by
          apply List.filter_congr
          intro b hb
          have hne : b ≠ id := fun hab => hnew (hab ▸ hb)
          rw [htasks',calledAt_insert hne]
        obtain ⟨hinitial,hall⟩ := ih hnodup tasks'
          (if task.recurring then toReschedule++[executed readings id task] else toReschedule)
        rw [hsame] at hinitial hall
        rw [hrest]
        exact ⟨(List.prefix_append_right_inj _).mpr hinitial,fun h => congrArg _ (hall h)⟩

/-- Unless an addition traps, every due task is executed and the recurring ones are put
aside. -/
theorem executeDue_some (hnodup : ids.Nodup)
    (h : (executeDue readings ids tasks toReschedule).2 = some (tasks',again)) :
    again = toReschedule++ids.filterMap (putAside readings tasks) ∧
    ∀ id, tasks'.lookup id =
      if id ∈ ids then ((dueAt readings tasks id).map (executed readings id)).or (tasks.lookup id)
      else tasks.lookup id := by
  induction ids generalizing tasks toReschedule with
  | nil =>
    simp only [executeDue,Option.some.injEq,Prod.mk.injEq] at h
    obtain ⟨rfl,rfl⟩ := h
    simp
  | cons id ids ih =>
    obtain ⟨hnew,hnodup⟩ := List.nodup_cons.mp hnodup
    cases hdue : dueAt readings tasks id with
    | none =>
      rw [executeDue_skip hdue] at h
      obtain ⟨hagain,hlookup⟩ := ih hnodup h
      have hnot : putAside readings tasks id = none := by rw [putAside,hdue]; rfl
      refine ⟨by rw [hagain,List.filterMap_cons_none hnot],?_⟩
      intro b
      rw [hlookup]
      by_cases hb : b = id
      · rw [hb,if_neg hnew,if_pos List.mem_cons_self,hdue]
        rfl
      · simp only [List.mem_cons,hb,false_or]
    | some task =>
      rcases executeDue_due ids toReschedule hdue with ⟨-,htrap⟩ | ⟨tasks₁,htasks₁,hrest⟩
      · rw [htrap] at h
        cases h
      · rw [hrest] at h
        obtain ⟨hagain,hlookup⟩ := ih hnodup h
        have haside : ids.filterMap (putAside readings tasks₁) = ids.filterMap (putAside readings tasks) := by
          apply List.filterMap_congr
          intro b hb
          have hne : b ≠ id := fun hab => hnew (hab ▸ hb)
          rw [putAside,putAside,htasks₁,dueAt_insert_ne hne]
        constructor
        · rw [hagain,haside,List.filterMap_cons,putAside,hdue]
          by_cases hrecurring : task.recurring
          · simp [Option.filter,hrecurring]
          · simp [Option.filter,hrecurring]
        · intro b
          rw [hlookup,htasks₁]
          by_cases hb : b = id
          · rw [hb,if_neg hnew,if_pos List.mem_cons_self,hdue,AList.lookup_insert]
            rfl
          · simp only [List.mem_cons,hb,false_or,dueAt_insert_ne hb,AList.lookup_insert_ne hb]

/-- Each task that was put aside is stored with its next time. -/
theorem reschedule_some (hnodup : (again.map (·.taskId)).Nodup) (h : reschedule readings again tasks = some tasks') :
    (∀ id ∉ again.map (·.taskId), tasks'.lookup id = tasks.lookup id) ∧
    ∀ task ∈ again, tasks'.lookup task.taskId =
      some { task with scheduledTime := (readings task.taskId).rescheduled+task.interval } := by
  induction again generalizing tasks with
  | nil =>
    rw [reschedule,Option.some.injEq] at h
    rw [h]
    exact ⟨fun _ _ => rfl,nofun⟩
  | cons task again ih =>
    rw [List.map_cons,List.nodup_cons] at hnodup
    obtain ⟨hnew,hnodup⟩ := hnodup
    rw [reschedule,checkedAdd] at h
    split at h
    · cases h
    · rename_i time htime
      split at htime
      · obtain ⟨hother,hagain⟩ := ih hnodup h
        rw [← Option.some.inj htime] at hother
        constructor
        · intro id hid
          rw [List.map_cons,List.mem_cons,not_or] at hid
          rw [hother id hid.2,AList.lookup_insert_ne hid.1]
        · intro task' hmem
          rcases List.mem_cons.mp hmem with rfl | hmem
          · rw [hother _ hnew,AList.lookup_insert]
          · exact hagain task' hmem
      · cases htime

/-- Tasks are stored under their ids. -/
def Keyed (tasks : Table ℕ BackgroundTask) : Prop := ∀ id task, tasks.lookup id = some task → task.taskId = id

/-- A task after a pass. -/
def renewed (readings : ℕ → Readings) (id : ℕ) (task : BackgroundTask) : BackgroundTask :=
  if task.isDue (readings id).due && task.recurring then
    { task with scheduledTime := (readings id).rescheduled+task.interval }
  else task

theorem putAside_eq (readings : ℕ → Readings) {id : ℕ} {task : BackgroundTask} (h : tasks.lookup id = some task) :
    putAside readings tasks id =
      if task.isDue (readings id).due && task.recurring then
        some { task with scheduledTime := (readings id).executed+task.interval }
      else none := by
  rw [putAside,dueAt,h,Option.filter_filter]
  cases hdue : task.isDue (readings id).due with
  | false => simp [Option.filter,hdue]
  | true =>
    cases hrecurring : task.recurring with
    | false => simp [Option.filter,hrecurring]
    | true => simp [Option.filter,hdue,hrecurring,executed]

theorem putAside_taskId (hkeyed : Keyed tasks) {id : ℕ} {task : BackgroundTask}
    (h : putAside readings tasks id = some task) : task.taskId = id := by
  cases hlookup : tasks.lookup id with
  | none =>
    rw [putAside,dueAt,hlookup] at h
    cases h
  | some stored =>
    rw [putAside_eq readings hlookup] at h
    split at h
    · rw [← Option.some.inj h]
      exact hkeyed id stored hlookup
    · cases h

theorem putAside_sublist (readings : ℕ → Readings) (hkeyed : Keyed tasks) (ids : List ℕ) :
    ((ids.filterMap (putAside readings tasks)).map (·.taskId)).Sublist ids := by
  induction ids with
  | nil => exact List.Sublist.slnil
  | cons id ids ih =>
    cases haside : putAside readings tasks id with
    | none =>
      rw [List.filterMap_cons_none haside]
      exact ih.cons id
    | some task =>
      rw [List.filterMap_cons_some haside,List.map_cons,putAside_taskId hkeyed haside]
      exact ih.cons_cons id

/-- What a pass leaves of each task. -/
theorem processBackgroundTasks_some {self manager : EventLoopManager} {order : IterationOrder ℕ}
    (hkeyed : Keyed self.backgroundTasks)
    (h : (self.processBackgroundTasks order readings).2 = some manager) (id : ℕ) :
    manager.backgroundTasks.lookup id = (self.backgroundTasks.lookup id).map (renewed readings id) := by
  have hnodup : (order self.backgroundTasks.keys).1.Nodup :=
    (order self.backgroundTasks.keys).2.nodup_iff.mpr self.backgroundTasks.nodupKeys
  rw [EventLoopManager.processBackgroundTasks] at h
  split at h
  · cases h
  · rename_i ran tasks again hexecute
    obtain ⟨hagain,hlookup⟩ := executeDue_some hnodup (congrArg Prod.snd hexecute)
    obtain ⟨tasks',hreschedule,rfl⟩ := Option.map_eq_some_iff.mp h
    rw [List.nil_append] at hagain
    have hids := putAside_sublist readings hkeyed (order self.backgroundTasks.keys).1
    rw [← hagain] at hids
    obtain ⟨hother,hstored⟩ := reschedule_some (hnodup.sublist hids) hreschedule
    have hkept : putAside readings self.backgroundTasks id = none → tasks'.lookup id = tasks.lookup id := by
      intro hnone
      apply hother
      intro hmem
      obtain ⟨task,htask,hid⟩ := List.mem_map.mp hmem
      rw [hagain] at htask
      obtain ⟨id',-,haside⟩ := List.mem_filterMap.mp htask
      rw [← putAside_taskId hkeyed haside,hid,hnone] at haside
      cases haside
    change tasks'.lookup id = _
    cases hstart : self.backgroundTasks.lookup id with
    | none =>
      have hdue : dueAt readings self.backgroundTasks id = none := by rw [dueAt,hstart]; rfl
      rw [hkept (by rw [putAside,hdue]; rfl),hlookup,hstart,hdue]
      split
      · rfl
      · rfl
    | some task =>
      have hmem : id ∈ (order self.backgroundTasks.keys).1 :=
        (order self.backgroundTasks.keys).2.mem_iff.mpr (mem_keys_of_lookup hstart)
      have haside := putAside_eq readings hstart
      rw [Option.map_some,renewed]
      split at haside
      · rename_i hrenewed
        have hin : _ ∈ again := hagain ▸ List.mem_filterMap.mpr ⟨id,hmem,haside⟩
        have hresult := hstored _ hin
        rw [putAside_taskId hkeyed haside] at hresult
        rw [hresult,if_pos hrenewed,hkeyed id task hstart]
      · rename_i hrenewed
        rw [hkept haside,hlookup,if_pos hmem,hstart,dueAt,hstart,if_neg hrenewed]
        cases hdue : task.isDue (readings id).due with
        | false => simp [Option.filter,hdue]
        | true =>
          have hrecurring : task.recurring = false := by simpa [hdue] using hrenewed
          simp [Option.filter,hdue,executed,hrecurring]

/-- The callbacks of the due tasks are called, each once, up to the task at which an addition
traps. -/
theorem processBackgroundTasks_ran (self : EventLoopManager) (order : IterationOrder ℕ) (readings : ℕ → Readings) :
    (self.processBackgroundTasks order readings).1.Nodup ∧
    (∀ id ∈ (self.processBackgroundTasks order readings).1, calledAt readings self.backgroundTasks id) ∧
    ((self.processBackgroundTasks order readings).2.isSome →
      ∀ id, calledAt readings self.backgroundTasks id → id ∈ (self.processBackgroundTasks order readings).1) := by
  have hnodup : (order self.backgroundTasks.keys).1.Nodup :=
    (order self.backgroundTasks.keys).2.nodup_iff.mpr self.backgroundTasks.nodupKeys
  obtain ⟨hinitial,hall⟩ := executeDue_ran readings hnodup self.backgroundTasks []
  have hran : (self.processBackgroundTasks order readings).1 =
      (executeDue readings (order self.backgroundTasks.keys).1 self.backgroundTasks []).1 := by
    rw [EventLoopManager.processBackgroundTasks]
    split
    · rename_i hexecute
      rw [hexecute]
    · rename_i hexecute
      rw [hexecute]
  rw [hran]
  refine ⟨(hnodup.filter _).sublist hinitial.sublist,?_,?_⟩
  · intro id hid
    exact (List.mem_filter.mp (hinitial.subset hid)).2
  · intro hsome id hcalled
    have hexecute : (executeDue readings (order self.backgroundTasks.keys).1 self.backgroundTasks []).2.isSome := by
      rw [EventLoopManager.processBackgroundTasks] at hsome
      split at hsome
      · cases hsome
      · rename_i hexecute
        rw [hexecute]
        rfl
    rw [hall hexecute,List.mem_filter]
    refine ⟨(order self.backgroundTasks.keys).2.mem_iff.mpr ?_,hcalled⟩
    rw [calledAt,dueAt] at hcalled
    cases hlookup : self.backgroundTasks.lookup id with
    | none =>
      rw [hlookup] at hcalled
      cases hcalled
    | some task => exact mem_keys_of_lookup hlookup

theorem executeDue_isSome (hnodup : ids.Nodup)
    (hfits : ∀ id ∈ ids, ∀ task, tasks.lookup id = some task → task.recurring →
      (readings id).executed+task.interval < 2^64) :
    (executeDue readings ids tasks toReschedule).2.isSome := by
  induction ids generalizing tasks toReschedule with
  | nil => rfl
  | cons id ids ih =>
    obtain ⟨hnew,hnodup⟩ := List.nodup_cons.mp hnodup
    obtain ⟨hfirst,hfits⟩ := List.forall_mem_cons.mp hfits
    cases hdue : dueAt readings tasks id with
    | none =>
      rw [executeDue_skip hdue]
      exact ih hnodup hfits
    | some task =>
      have hlookup := (Option.filter_eq_some_iff.mp hdue).1
      rcases executeDue_due ids toReschedule hdue with ⟨htrap,-⟩ | ⟨tasks',htasks',hrest⟩
      · rw [BackgroundTask.execute] at htrap
        split at htrap
        · rename_i hrecurring
          rw [checkedAdd,if_pos (hfirst task hlookup hrecurring)] at htrap
          cases htrap
        · cases htrap
      · rw [hrest]
        apply ih hnodup
        intro b hb
        have hne : b ≠ id := fun hab => hnew (hab ▸ hb)
        rw [htasks',AList.lookup_insert_ne hne]
        exact hfits b hb

theorem reschedule_isSome (hfits : ∀ task ∈ again, (readings task.taskId).rescheduled+task.interval < 2^64) :
    (reschedule readings again tasks).isSome := by
  induction again generalizing tasks with
  | nil => rfl
  | cons task again ih =>
    obtain ⟨hfirst,hfits⟩ := List.forall_mem_cons.mp hfits
    rw [reschedule,checkedAdd,if_pos hfirst]
    exact ih hfits

theorem processBackgroundTasks_isSome {self : EventLoopManager} {order : IterationOrder ℕ}
    (hkeyed : Keyed self.backgroundTasks)
    (hfits : ∀ id task, self.backgroundTasks.lookup id = some task → task.recurring →
      (readings id).rescheduled+task.interval < 2^64) :
    (self.processBackgroundTasks order readings).2.isSome := by
  have hnodup : (order self.backgroundTasks.keys).1.Nodup :=
    (order self.backgroundTasks.keys).2.nodup_iff.mpr self.backgroundTasks.nodupKeys
  have hsome : (executeDue readings (order self.backgroundTasks.keys).1 self.backgroundTasks []).2.isSome := by
    apply executeDue_isSome hnodup
    intro id _ task hlookup hrecurring
    have hle := (readings id).executed_le
    have hlt := hfits id task hlookup hrecurring
    omega
  rw [EventLoopManager.processBackgroundTasks]
  split
  · rename_i hexecute
    rw [hexecute] at hsome
    cases hsome
  · rename_i ran tasks again hexecute
    obtain ⟨hagain,-⟩ := executeDue_some hnodup (congrArg Prod.snd hexecute)
    rw [Option.isSome_map]
    apply reschedule_isSome
    intro task htask
    rw [hagain,List.nil_append] at htask
    obtain ⟨id,-,haside⟩ := List.mem_filterMap.mp htask
    rw [putAside_taskId hkeyed haside]
    cases hlookup : self.backgroundTasks.lookup id with
    | none =>
      rw [putAside,dueAt,hlookup] at haside
      cases haside
    | some stored =>
      rw [putAside_eq readings hlookup] at haside
      split at haside
      · rename_i hrenewed
        rw [← Option.some.inj haside]
        exact hfits id stored hlookup (Bool.and_eq_true_iff.mp hrenewed).2
      · cases haside

theorem calledAt_iff {id : ℕ} : calledAt readings tasks id ↔
    ∃ task, tasks.lookup id = some task ∧ task.isDue (readings id).due ∧ task.callback.isSome := by
  rw [calledAt,dueAt]
  cases tasks.lookup id with
  | none => simp
  | some task =>
    cases hdue : task.isDue (readings id).due with
    | false => simp [Option.filter,hdue]
    | true => simp [Option.filter,hdue]

end Passes

/-- A stored task and the task as it was scheduled. Its runs were passes that found it due,
and unless it is recurring a pass that found it due has run it. -/
structure Linked (history : List Event) (id : ℕ) (stored scheduled : BackgroundTask) : Prop where
  taskId : stored.taskId = id
  same : stored = { scheduled with scheduledTime := stored.scheduledTime }
  later : scheduled.scheduledTime ≤ stored.scheduledTime
  once : scheduled.recurring = false → stored = scheduled
  apart : scheduled.recurring → ∀ u ∈ runsSince history id, u.executed+scheduled.interval ≤ stored.scheduledTime
  found : ∀ u ∈ runsSince history id, u ∈ passesSince history id ∧ scheduled.scheduledTime ≤ u.due
  complete : scheduled.recurring = false → scheduled.callback.isSome → ∀ r ∈ passesSince history id,
    scheduled.scheduledTime ≤ r.due → runsSince history id ≠ []

/-- The table holds the tasks that are scheduled. -/
def Inv (s : World) : Prop := ∀ manager, s.manager = some manager → ∀ id,
  Option.Rel (Linked s.history id) (manager.backgroundTasks.lookup id) (current s.history id)

theorem Inv.init : Inv .init := by
  intro manager h id
  cases h
  exact .none

theorem Inv.keyed {s : World} (hinv : Inv s) {manager : EventLoopManager} (h : s.manager = some manager) :
    Keyed manager.backgroundTasks := by
  intro id task hlookup
  have hrel := hinv manager h id
  rw [hlookup] at hrel
  obtain ⟨scheduled,-,hlinked⟩ := exists_of_rel_left hrel
  exact hlinked.taskId

section Histories

variable {history : List Event} {id : ℕ} {stored scheduled : BackgroundTask}

theorem Linked.new (history : List Event) (task : BackgroundTask) :
    Linked (.scheduled task::history) task.taskId task task := by
  have hruns : runsSince (.scheduled task::history) task.taskId = [] := by rw [runsSince,if_pos rfl]
  have hpasses : passesSince (.scheduled task::history) task.taskId = [] := by rw [passesSince,if_pos rfl]
  refine ⟨rfl,rfl,le_rfl,fun _ => rfl,?_,?_,?_⟩
  · rw [hruns]
    exact fun _ => nofun
  · rw [hruns]
    exact nofun
  · rw [hpasses]
    exact fun _ _ => nofun

/-- An event about other tasks. -/
theorem Linked.frame {e : Event} (h : Linked history id stored scheduled)
    (hruns : runsSince (e::history) id = runsSince history id)
    (hpasses : passesSince (e::history) id = passesSince history id) : Linked (e::history) id stored scheduled where
  taskId := h.taskId
  same := h.same
  later := h.later
  once := h.once
  apart := by
    rw [hruns]
    exact h.apart
  found := by
    rw [hruns,hpasses]
    exact h.found
  complete := by
    rw [hruns,hpasses]
    exact h.complete

/-- A pass changes nothing of a task but its time, which it puts later. -/
theorem renewed_spec (readings : ℕ → Readings) (id : ℕ) (task : BackgroundTask) :
    renewed readings id task = { task with scheduledTime := (renewed readings id task).scheduledTime } ∧
    task.scheduledTime ≤ (renewed readings id task).scheduledTime := by
  rw [renewed]
  split
  · rename_i hrenewed
    have hdue := of_decide_eq_true (Bool.and_eq_true_iff.mp hrenewed).1
    have hdue_le := (readings id).due_le
    have hexecuted_le := (readings id).executed_le
    refine ⟨rfl,?_⟩
    change task.scheduledTime ≤ (readings id).rescheduled+task.interval
    omega
  · exact ⟨rfl,le_rfl⟩

theorem mem_runsSince_passed {readings : ℕ → Readings} {ran : List ℕ} {u : Readings} :
    u ∈ runsSince (.passed readings ran::history) id ↔ id ∈ ran ∧ u = readings id ∨ u ∈ runsSince history id := by
  rw [runsSince]
  split
  · rename_i h
    simp [h]
  · rename_i h
    simp [h]

/-- A pass that has called exactly the callbacks of the due tasks. -/
theorem Linked.passed {readings : ℕ → Readings} {ran : List ℕ} (h : Linked history id stored scheduled)
    (hran : id ∈ ran ↔ stored.isDue (readings id).due ∧ stored.callback.isSome) :
    Linked (.passed readings ran::history) id (renewed readings id stored) scheduled := by
  have hrecurring : stored.recurring = scheduled.recurring := by rw [h.same]
  have hinterval : stored.interval = scheduled.interval := by rw [h.same]
  have hdue_le := (readings id).due_le
  have hexecuted_le := (readings id).executed_le
  obtain ⟨hsame,hrenewed⟩ := renewed_spec readings id stored
  constructor
  · rw [hsame]
    exact h.taskId
  · rw [hsame,h.same]
  · exact Nat.le_trans h.later hrenewed
  · intro hnot
    rw [renewed,hrecurring,hnot,Bool.and_false,if_neg Bool.false_ne_true]
    exact h.once hnot
  · intro hagain u hu
    rw [mem_runsSince_passed] at hu
    rw [renewed,hrecurring,hagain,Bool.and_true]
    split
    · rename_i hdue
      have hdue := of_decide_eq_true hdue
      change u.executed+scheduled.interval ≤ (readings id).rescheduled+stored.interval
      rcases hu with ⟨-,rfl⟩ | hu
      · omega
      · have hapart := h.apart hagain u hu
        omega
    · rename_i hdue
      rcases hu with ⟨hmem,-⟩ | hu
      · exact absurd (hran.mp hmem).1 hdue
      · exact h.apart hagain u hu
  · intro u hu
    rw [mem_runsSince_passed] at hu
    rw [passesSince,List.mem_cons]
    rcases hu with ⟨hmem,rfl⟩ | hu
    · have hdue := of_decide_eq_true (hran.mp hmem).1
      exact ⟨Or.inl rfl,Nat.le_trans h.later hdue⟩
    · exact ⟨Or.inr (h.found u hu).1,(h.found u hu).2⟩
  · intro hnot hcallback r hr hdue hnone
    have hstored := h.once hnot
    have hnever : ∀ u, u ∉ runsSince (.passed readings ran::history) id := by
      rw [hnone]
      exact nofun
    rw [passesSince,List.mem_cons] at hr
    rcases hr with rfl | hr
    · have hmem : id ∈ ran := by
        rw [hran,hstored]
        exact ⟨decide_eq_true hdue,hcallback⟩
      exact hnever _ (mem_runsSince_passed.mpr (Or.inl ⟨hmem,rfl⟩))
    · obtain ⟨u,hu⟩ := List.exists_mem_of_ne_nil _ (h.complete hnot hcallback r hr hdue)
      exact hnever u (mem_runsSince_passed.mpr (Or.inr hu))

end Histories

theorem step_inv (s : World) (call : Call) (hinv : Inv s) : Inv (step s call) := by
  rcases hmanager : s.manager with _ | manager
  · intro after h
    rw [step,hmanager] at h
    cases hmanager.symm.trans h
  intro after h id
  have hrel := hinv manager hmanager id
  rw [step,hmanager] at h ⊢
  cases call with
  | scheduleBackgroundTask task =>
    cases h
    change Option.Rel _ ((manager.backgroundTasks.insert task.taskId task).lookup id) _
    rw [lookup_insert_eq,current]
    by_cases hid : id = task.taskId
    · rw [if_pos hid,if_pos hid.symm,hid]
      exact .some (.new _ task)
    · rw [if_neg hid,if_neg (Ne.symm hid)]
      refine rel_imp (fun stored scheduled hlinked => hlinked.frame ?_ ?_) hrel
      · rw [runsSince,if_neg (Ne.symm hid)]
      · rw [passesSince,if_neg (Ne.symm hid)]
  | cancelBackgroundTask taskId =>
    cases h
    change Option.Rel _ ((manager.backgroundTasks.erase taskId).lookup id) _
    rw [lookup_erase_eq,current]
    by_cases hid : id = taskId
    · rw [if_pos hid,if_pos hid.symm]
      exact .none
    · rw [if_neg hid,if_neg (Ne.symm hid)]
      refine rel_imp (fun stored scheduled hlinked => hlinked.frame ?_ ?_) hrel
      · rw [runsSince,if_neg (Ne.symm hid)]
      · rw [passesSince,if_neg (Ne.symm hid)]
  | processBackgroundTasks order readings =>
    change (manager.processBackgroundTasks order readings).2 = some after at h
    obtain ⟨-,hcalled,hall⟩ := processBackgroundTasks_ran manager order readings
    rw [processBackgroundTasks_some (hinv.keyed hmanager) h id,current]
    refine rel_map_left (fun stored scheduled hlookup hlinked => hlinked.passed ?_) hrel
    have hiff : calledAt readings manager.backgroundTasks id ↔
        stored.isDue (readings id).due ∧ stored.callback.isSome := by
      rw [calledAt_iff,hlookup]
      simp
    rw [← hiff]
    exact ⟨hcalled id,hall (by rw [h]; rfl) id⟩

/-- What a pass runs is scheduled and due. -/
theorem mem_ran {s : World} (hinv : Inv s) {order : IterationOrder ℕ} {readings : ℕ → Readings} {id : ℕ}
    (h : id ∈ ran s (.processBackgroundTasks order readings)) : ∃ stored scheduled,
    current s.history id = some scheduled ∧ Linked s.history id stored scheduled ∧
      stored.scheduledTime ≤ (readings id).due ∧ stored.callback.isSome := by
  rw [ran] at h
  cases hmanager : s.manager with
  | none =>
    rw [hmanager] at h
    cases h
  | some manager =>
    rw [hmanager] at h
    obtain ⟨stored,hlookup,hdue,hcallback⟩ :=
      calledAt_iff.mp ((processBackgroundTasks_ran manager order readings).2.1 id h)
    have hrel := hinv manager hmanager id
    rw [hlookup] at hrel
    obtain ⟨scheduled,hcurrent,hlinked⟩ := exists_of_rel_left hrel
    exact ⟨stored,scheduled,hcurrent,hlinked,of_decide_eq_true hdue,hcallback⟩

theorem ran_nodup (s : World) (order : IterationOrder ℕ) (readings : ℕ → Readings) :
    (ran s (.processBackgroundTasks order readings)).Nodup := by
  rw [ran]
  cases s.manager with
  | none => exact List.nodup_nil
  | some manager => exact (processBackgroundTasks_ran manager order readings).1

theorem timely_of_firstDue {s : World} {call : Call} (hinv : Inv s) (hfirst : FirstDue s call) : Timely s call := by
  cases call with
  | scheduleBackgroundTask task => trivial
  | cancelBackgroundTask taskId => trivial
  | processBackgroundTasks order readings =>
    refine ⟨ran_nodup s order readings,?_⟩
    intro id hid
    obtain ⟨stored,task,hcurrent,hlinked,hdue,hcallback⟩ := mem_ran hinv hid
    refine ⟨task,hcurrent,Nat.le_trans hlinked.later hdue,?_⟩
    split
    · rename_i hrecurring
      intro u hu
      exact Nat.le_trans (hlinked.apart hrecurring u hu) hdue
    · rename_i hrecurring
      have hnot : task.recurring = false := Bool.eq_false_iff.mpr hrecurring
      rw [hlinked.once hnot] at hdue hcallback
      apply List.eq_nil_iff_forall_not_mem.mpr
      intro u hu
      obtain ⟨hpass,hle⟩ := hlinked.found u hu
      exact absurd (hfirst id task hcurrent hnot hcallback hdue u hpass) (Nat.not_lt.mpr hle)

theorem pass_isSome {s : World} (hinv : Inv s) {manager : EventLoopManager} (hmanager : s.manager = some manager)
    {order : IterationOrder ℕ} {readings : ℕ → Readings} (hfits : Fits s (.processBackgroundTasks order readings)) :
    (manager.processBackgroundTasks order readings).2.isSome := by
  apply processBackgroundTasks_isSome (hinv.keyed hmanager)
  intro id stored hlookup hrecurring
  have hrel := hinv manager hmanager id
  rw [hlookup] at hrel
  obtain ⟨scheduled,hcurrent,hlinked⟩ := exists_of_rel_left hrel
  rw [hlinked.same] at hrecurring ⊢
  exact hfits id scheduled hcurrent hrecurring

theorem step_isSome {s : World} {call : Call} (hinv : Inv s) (halive : s.manager.isSome) (hfits : Fits s call) :
    (step s call).manager.isSome := by
  obtain ⟨manager,hmanager⟩ := Option.isSome_iff_exists.mp halive
  rw [step,hmanager]
  cases call with
  | scheduleBackgroundTask task => rfl
  | cancelBackgroundTask taskId => rfl
  | processBackgroundTasks order readings => exact pass_isSome hinv hmanager hfits

/-- Where no addition traps, a pass runs all that is due, so a task that was due before was
run before. -/
theorem firstDue_of_timely {s : World} {call : Call} (hinv : Inv s) (halive : s.manager.isSome) (hfits : Fits s call)
    (htimely : Timely s call) : FirstDue s call := by
  cases call with
  | scheduleBackgroundTask task => trivial
  | cancelBackgroundTask taskId => trivial
  | processBackgroundTasks order readings =>
    intro id task hcurrent hnot hcallback hdue r hr
    by_contra hlate
    obtain ⟨manager,hmanager⟩ := Option.isSome_iff_exists.mp halive
    have hrel := hinv manager hmanager id
    rw [hcurrent] at hrel
    obtain ⟨stored,hlookup,hlinked⟩ := exists_of_rel_right hrel
    have hran : id ∈ ran s (.processBackgroundTasks order readings) := by
      have hcalled : calledAt readings manager.backgroundTasks id := by
        refine calledAt_iff.mpr ⟨stored,hlookup,?_⟩
        rw [hlinked.once hnot]
        exact ⟨decide_eq_true hdue,hcallback⟩
      rw [ran,hmanager]
      exact (processBackgroundTasks_ran manager order readings).2.2 (pass_isSome hinv hmanager hfits) id hcalled
    obtain ⟨task',hcurrent',-,hruns⟩ := htimely.2 id hran
    rw [hcurrent,Option.some.injEq] at hcurrent'
    rw [← hcurrent',hnot,if_neg Bool.false_ne_true] at hruns
    exact hlinked.complete hnot hcallback r hr (Nat.le_of_not_lt hlate) hruns

/-- If tasks that are not recurring are due in one pass only, all passes are timely, and
where no addition traps only then. -/
theorem timely_along_iff (calls : List Call) :
    (Along step FirstDue .init calls → Along step Timely .init calls) ∧
    (Along step Fits .init calls → (Along step Timely .init calls ↔ Along step FirstDue .init calls)) := by
  constructor
  · exact Along.of_inv (I:=Inv) (fun s call hinv hfirst => ⟨timely_of_firstDue hinv hfirst,step_inv s call hinv⟩) .init
  · intro hfits
    refine along_iff_of_along (I:=fun s => Inv s ∧ s.manager.isSome) ?_ ?_ ⟨.init,rfl⟩ hfits
    · intro s call hinv hfits _
      exact ⟨step_inv s call hinv.1,step_isSome hinv.1 hinv.2 hfits⟩
    · intro s call hinv hfits
      exact ⟨firstDue_of_timely hinv.1 hinv.2 hfits,timely_of_firstDue hinv.1⟩

/-- The clock stands still during a pass. -/
def stopped (now : ℕ) : ℕ → Readings := fun _ => ⟨now,now,now,le_rfl,le_rfl⟩

/-- A task for one run is scheduled, and two passes follow. -/
def twice : List Call :=
  let order : IterationOrder ℕ := fun keys => ⟨keys,.refl keys⟩
  [.scheduleBackgroundTask ((BackgroundTask.init 1 [] [] 0).setCallback 0),
    .processBackgroundTasks order (stopped 0),.processBackgroundTasks order (stopped 1)]

theorem run_twice : ¬Along step Timely .init twice := by
  intro h
  obtain ⟨task,hcurrent,-,hruns⟩ := h.2.2.1.2 1 (by decide)
  cases hcurrent
  cases hruns

end ZNet.BackgroundTasks
