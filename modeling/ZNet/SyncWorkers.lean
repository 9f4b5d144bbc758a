import ZNet.SyncQueues

/-!
# Registrations of the workers

A tag belongs to the worker that registers it first, until it is unregistered. The manager
keeps this in two tables, by tag and by worker.
-/

namespace ZNet.BackgroundSync
open TextScan Tables Runs
open WorkerLifecycle (WorkerId)

section Owners

variable {α β : Type} [DecidableEq α] [DecidableEq β] {m : Table α β} {a : α} {v w : β}

/-- The keys with a value, the one that was inserted first at the front. -/
def keysOf (m : Table α β) (v : β) : List α := ((m.entries.filter fun e => decide (e.2 = v)).map Sigma.fst).reverse

theorem mem_keysOf : a ∈ keysOf m v ↔ m.lookup a = some v := by
  rw [← Option.mem_def,AList.mem_lookup_iff]
  simp [keysOf]

theorem keysOf_insert (h : m.lookup a = none) (v w : β) :
    keysOf (m.insert a v) w = if w = v then keysOf m w++[a] else keysOf m w := by
  have hnew : a ∉ m := AList.lookup_eq_none.mp h
  simp only [keysOf,AList.entries_insert_of_notMem hnew,List.filter_cons]
  by_cases hw : w = v
  · simp [hw]
  · simp [hw,Ne.symm hw]

theorem keysOf_erase [BEq α] [LawfulBEq α] (m : Table α β) (a : α) (w : β) : keysOf (m.erase a) w = (keysOf m w).erase a := by
  cases h : m.lookup a with
  | none =>
    have hnone : a ∉ keysOf m w := by simp [mem_keysOf,h]
    rw [erase_of_lookup_none h,List.erase_of_not_mem hnone]
  | some v =>
    obtain ⟨l₁,l₂,hentries,herase⟩ := entries_split h
    have hothers : ∀ e ∈ l₁++l₂, e.1 ≠ a := by
      intro e he hkey
      have hkeys : e.1 ∈ m.erase a := AList.mem_keys.mpr (List.mem_map_of_mem (herase ▸ he))
      exact (AList.mem_erase.mp hkeys).1 hkey
    have hfirst : a ∉ ((l₂.filter fun e => decide (e.2 = w)).map Sigma.fst).reverse := by
      simp only [List.mem_reverse,List.mem_map,List.mem_filter]
      rintro ⟨e,⟨he,-⟩,hkey⟩
      exact hothers e (List.mem_append_right l₁ he) hkey
    simp only [keysOf,hentries,herase,List.filter_append,List.filter_cons,List.map_append,List.reverse_append]
    by_cases hv : v = w
    · simp [hv,List.erase_append_right _ hfirst]
    · have hnone : a ∉ keysOf m w := by simp [mem_keysOf,h,hv]
      simp only [keysOf,hentries,List.filter_append,List.filter_cons,List.map_append,List.reverse_append] at hnone
      simp only [hv,decide_false,Bool.false_eq_true,if_false] at hnone ⊢
      rw [List.erase_of_not_mem hnone]

end Owners

variable {ε : Type}

/-- Who owns each tag that is registered. -/
def ownersStep (owners : Table Str WorkerId) : ManagerCall ε → Table Str WorkerId
  | .sync (.register worker tag _ _) =>
    match owners.lookup tag with
    | some _ => owners
    | none => owners.insert tag worker
  | .unregister tag => owners.erase tag
  | _ => owners

/-- The two tables of the manager agree with the owners. -/
structure Simulates (owners : Table Str WorkerId) (s : System) : Prop where
  registered : ∀ tag, (registrationOf s tag).map (fun r => (r.tag,r.worker)) = (owners.lookup tag).map fun worker => (tag,worker)
  tags : ∀ worker, (s.manager.workerSyncs.lookup worker).getD [] = keysOf owners worker

theorem Simulates.same {owners : Table Str WorkerId} {s t : System} (h : Simulates owners s) (hsame : SameTasks s t) :
    Simulates owners t where
  registered tag := (hsame.owners tag).trans (h.registered tag)
  tags worker := by rw [hsame.workerSyncs,h.tags]

section Steps

variable {owners : Table Str WorkerId} {s : System}

theorem Simulates.init : Simulates ∅ .init where
  registered _ := rfl
  tags _ := rfl

theorem Simulates.owner_none (h : Simulates owners s) {tag : Str} :
    owners.lookup tag = none ↔ registrationOf s tag = none := by
  have htag := h.registered tag
  cases howner : owners.lookup tag <;> cases hregistration : registrationOf s tag <;> simp_all

theorem Simulates.owner_some (h : Simulates owners s) {tag : Str} {registration : SyncRegistration}
    (hregistration : registrationOf s tag = some registration) :
    registration.tag = tag ∧ owners.lookup tag = some registration.worker := by
  have htag := h.registered tag
  rw [hregistration] at htag
  cases howner : owners.lookup tag <;> simp_all

theorem associate_workerSyncs (manager : BackgroundSyncManager) (worker : WorkerId) {tag : Str}
    (hnew : tag ∉ (manager.workerSyncs.lookup worker).getD []) (other : WorkerId) :
    ((manager.associateWorkerWithSync worker tag).workerSyncs.lookup other).getD [] =
      if other = worker then (manager.workerSyncs.lookup other).getD []++[tag]
      else (manager.workerSyncs.lookup other).getD [] := by
  rw [BackgroundSyncManager.associateWorkerWithSync]
  cases h : manager.workerSyncs.lookup worker with
  | none =>
    simp only [lookup_insert_eq]
    split
    · rename_i hother
      subst hother
      simp [h]
    · rfl
  | some tags =>
    rw [h,Option.getD_some] at hnew
    have hcontains : tags.contains tag = false := by simpa using hnew
    simp only [hcontains,Bool.false_eq_true,if_false,lookup_insert_eq]
    split
    · rename_i hother
      subst hother
      simp [h]
    · rfl

theorem disassociate_workerSyncs (manager : BackgroundSyncManager) (worker : WorkerId) (tag : Str) (other : WorkerId) :
    ((manager.disassociateWorkerFromSync worker tag).workerSyncs.lookup other).getD [] =
      if other = worker then ((manager.workerSyncs.lookup other).getD []).erase tag
      else (manager.workerSyncs.lookup other).getD [] := by
  cases h : manager.workerSyncs.lookup worker with
  | none =>
    simp only [BackgroundSyncManager.disassociateWorkerFromSync,h]
    split
    · rename_i hother
      subst hother
      simp [h]
    · rfl
  | some tags =>
    simp only [BackgroundSyncManager.disassociateWorkerFromSync,h,lookup_insert_eq]
    split
    · rename_i hother
      subst hother
      simp [h]
    · rfl

theorem Simulates.register (h : Simulates owners s) (worker : WorkerId) (tag : Str) (options : SyncOptions) (now : ℤ) :
    Simulates (ownersStep owners (.sync (.register worker tag options now : Call ε)))
      { s with manager := (s.manager.register worker tag options now).2 } := by
  cases hregistration : registrationOf s tag with
  | some existing =>
    rw [register_existing hregistration,ownersStep,(h.owner_some hregistration).2]
    exact h
  | none =>
    have howner := h.owner_none.mpr hregistration
    obtain ⟨taskQueues,-,hregister⟩ := register_eq hregistration worker options now
    rw [hregister,ownersStep,howner]
    constructor
    · intro b
      simp only [registrationOf,lookup_insert_eq]
      split
      · rename_i hb
        subst hb
        rfl
      · exact h.registered b
    · intro other
      have hnew : tag ∉ (s.manager.workerSyncs.lookup worker).getD [] := by
        rw [h.tags,mem_keysOf,howner]
        simp
      change ((s.manager.associateWorkerWithSync worker tag).workerSyncs.lookup other).getD [] = _
      rw [associate_workerSyncs s.manager worker hnew,keysOf_insert howner,h.tags]

theorem Simulates.unregister (h : Simulates owners s) (tag : Str) :
    Simulates (owners.erase tag) { s with manager := (s.manager.unregister tag).2.2 } := by
  cases hregistration : registrationOf s tag with
  | none =>
    rw [unregister_none hregistration,erase_of_lookup_none (h.owner_none.mpr hregistration)]
    exact h
  | some registration =>
    obtain ⟨-,howner⟩ := h.owner_some hregistration
    rw [unregister_some hregistration]
    constructor
    · intro b
      simp only [registrationOf,lookup_erase_eq]
      split
      · rfl
      · exact h.registered b
    · intro other
      change ((s.manager.disassociateWorkerFromSync registration.worker tag).workerSyncs.lookup other).getD [] = _
      rw [disassociate_workerSyncs,keysOf_erase,h.tags]
      split
      · rfl
      · rename_i hother
        have hnone : tag ∉ keysOf owners other := by
          rw [mem_keysOf,howner,Option.some.injEq]
          exact Ne.symm hother
        rw [List.erase_of_not_mem hnone]

theorem enqueue_owners (manager : BackgroundSyncManager) (tag : Str) (task : SyncTask) :
    (manager.enqueue tag task).syncRegistrations = manager.syncRegistrations ∧
    (manager.enqueue tag task).workerSyncs = manager.workerSyncs := by
  rw [BackgroundSyncManager.enqueue]
  split <;> exact ⟨rfl,rfl⟩

theorem processSyncEvent_owners (manager : BackgroundSyncManager) (event : SyncEvent) :
    (manager.processSyncEvent event).2.syncRegistrations = manager.syncRegistrations ∧
    (manager.processSyncEvent event).2.workerSyncs = manager.workerSyncs := by
  rw [BackgroundSyncManager.processSyncEvent]
  split <;> exact ⟨rfl,rfl⟩

theorem Simulates.step (h : Simulates owners s) (call : ManagerCall ε) :
    Simulates (ownersStep owners call) (managerStep s call) := by
  cases call with
  | sync call =>
    cases call with
    | register worker tag options now => exact h.register worker tag options now
    | addTask worker tag data priority now handlers =>
      obtain ⟨hregistrations,hworkers⟩ := enqueue_owners s.manager tag (.init tag worker data priority now)
      have henqueued : Simulates owners { s with manager := s.manager.enqueue tag (.init tag worker data priority now) } := by
        constructor
        · intro b
          rw [registrationOf_congr (s:=s) hregistrations]
          exact h.registered b
        · intro other
          rw [← h.tags,hworkers]
      exact henqueued.same (maybeTriggerSync_same ..)
    | triggerSync tag lastChance now handlers => exact h.same (triggerSync_same ..)
    | processScheduledSyncs order now clock handlers => exact h.same (triggerDue_same ..)
    | scheduleSync tag delay now => exact ⟨h.registered,h.tags⟩
    | updateNetworkStatus network => exact ⟨h.registered,h.tags⟩
  | unregister tag => exact h.unregister tag
  | processSyncEvent event =>
    obtain ⟨hregistrations,hworkers⟩ := processSyncEvent_owners s.manager event
    constructor
    · intro b
      rw [managerStep,registrationOf_congr (s:=s) hregistrations]
      exact h.registered b
    · intro other
      simp only [managerStep,hworkers]
      exact h.tags other

theorem Simulates.run (h : Simulates owners s) (calls : List (ManagerCall ε)) :
    Simulates (run ownersStep owners calls) (run managerStep s calls) := by
  induction calls generalizing owners s with
  | nil => exact h
  | cons call calls ih => exact ih (h.step call)

/-- The worker of the registration that is answered is the owner of the tag. -/
theorem Simulates.answered (h : Simulates owners s) (worker : WorkerId) (tag : Str) (options : SyncOptions) (now : ℤ) :
    (ownersStep owners (.sync (.register worker tag options now : Call ε))).lookup tag =
      some (s.manager.register worker tag options now).1.worker := by
  cases hregistration : registrationOf s tag with
  | none =>
    rw [ownersStep,h.owner_none.mpr hregistration,AList.lookup_insert]
    rw [registrationOf] at hregistration
    rw [BackgroundSyncManager.register,hregistration]
    rfl
  | some registration =>
    obtain ⟨-,howner⟩ := h.owner_some hregistration
    rw [ownersStep,howner,howner]
    rw [registrationOf] at hregistration
    rw [BackgroundSyncManager.register,hregistration]

end Steps

end ZNet.BackgroundSync
