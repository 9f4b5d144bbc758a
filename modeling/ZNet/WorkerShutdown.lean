import ZNet.WorkerRegistry

/-!
# Shutting the registry down

Registrations and pool give the same workers back, so that a registry which has ever had a
worker cannot be shut down.
-/

namespace ZNet.WorkerRegistry
open Tables Heaps Runs

variable {m m' : ServiceWorkerRegistry} {history : List Event}

section Shutdown

theorem deinit_eq_some {workers workers' : Workers} {w : ℕ} (h : ServiceWorker.deinit workers w = some workers') :
    (∃ v, workers.load w = some v ∧ v.torn = false) ∧
      workers.Changed workers' fun q v => if q = w then { v with torn := true } else v := by
  rw [ServiceWorker.deinit] at h
  cases hload : workers.load w with
  | none => simp [hload] at h
  | some v =>
    cases htorn : v.torn with
    | true => simp [hload,htorn] at h
    | false =>
      simp only [hload,htorn,Bool.false_eq_true,if_false] at h
      exact ⟨⟨v,rfl,htorn⟩,(Heap.modify_changed h).2⟩

/-- Whatever is given back stays given back. -/
theorem deinitAll_torn {workers workers' : Workers} {ws : List Ptr} (h : deinitAll workers ws = some workers') {q : ℕ}
    {v : ServiceWorker} (hload : workers.load q = some v) :
    ∃ v', workers'.load q = some v' ∧ (v.torn = true ∨ q ∈ ws → v'.torn = true) := by
  induction ws generalizing workers v with
  | nil =>
    cases h
    exact ⟨v,hload,by simp⟩
  | cons w ws ih =>
    obtain ⟨workers₁,hdeinit,hrest⟩ := Option.bind_eq_some_iff.mp h
    have hchanged := (deinit_eq_some hdeinit).2
    have hload₁ : workers₁.load q = some (if q = w then { v with torn := true } else v) := by
      simp [hchanged.load,hload]
    obtain ⟨v',hv',htorn⟩ := ih hrest hload₁
    refine ⟨v',hv',fun hq => htorn ?_⟩
    by_cases hqw : q = w
    · simp [hqw]
    · simpa [hqw] using hq

theorem deinitRegistrations_torn {regs : Registrations} {workers workers' : Workers} {rs : List Ptr}
    (h : ServiceWorkerRegistry.deinitRegistrations regs workers rs = some workers') {q : ℕ} {v : ServiceWorker}
    (hload : workers.load q = some v) : ∃ v', workers'.load q = some v' ∧
      (v.torn = true ∨ (∃ r ∈ rs, ∃ reg, regs.load r = some reg ∧ q ∈ reg.workers) → v'.torn = true) := by
  induction rs generalizing regs workers v with
  | nil =>
    cases h
    exact ⟨v,hload,by simp⟩
  | cons r rs ih =>
    rw [ServiceWorkerRegistry.deinitRegistrations] at h
    cases hreg : regs.load r with
    | none => simp [hreg] at h
    | some reg =>
      cases hdeinit : reg.deinit workers with
      | none => simp [hreg,hdeinit] at h
      | some workers₁ =>
        obtain ⟨regs₁,hfree⟩ := Heap.free_of_load hreg
        simp only [hreg,hdeinit,hfree] at h
        obtain ⟨v₁,hload₁,htorn₁⟩ := deinitAll_torn hdeinit hload
        obtain ⟨v',hload',htorn'⟩ := ih h hload₁
        refine ⟨v',hload',fun hq => htorn' ?_⟩
        rcases hq with htorn|⟨r',hr',reg',hreg',hmem⟩
        · exact Or.inl (htorn₁ (Or.inl htorn))
        · by_cases hrr : r' = r
          · subst hrr
            rw [hreg] at hreg'
            cases hreg'
            exact Or.inl (htorn₁ (Or.inr hmem))
          · refine Or.inr ⟨r',(List.mem_cons.mp hr').resolve_left hrr,reg',?_,hmem⟩
            rw [(Heap.free_eq_some hfree).2,if_neg hrr,hreg']

/-- The pool gives back what was given back before. -/
theorem deinitPool_torn {workers : Workers} {ws : List Ptr} {w : ℕ} (hw : w ∈ ws) {v : ServiceWorker}
    (hload : workers.load w = some v) (htorn : v.torn = true) : ServiceWorkerRegistry.deinitPool workers ws = none := by
  induction ws generalizing workers with
  | nil => cases hw
  | cons x ws ih =>
    rw [ServiceWorkerRegistry.deinitPool]
    cases hdeinit : ServiceWorker.deinit workers x with
    | none => rfl
    | some workers₁ =>
      obtain ⟨⟨v₁,hload₁,htorn₁⟩,hchanged⟩ := deinit_eq_some hdeinit
      have hne : w ≠ x := by
        rintro rfl
        rw [hload] at hload₁
        cases hload₁
        rw [htorn] at htorn₁
        cases htorn₁
      cases hfree : workers₁.free x with
      | none => simp [hfree]
      | some workers₂ =>
        have hload₂ : workers₂.load w = some v := by
          rw [(Heap.free_eq_some hfree).2,if_neg hne,hchanged.load,hload]
          simp [hne]
        simpa [hfree] using ih ((List.mem_cons.mp hw).resolve_left hne) hload₂

theorem created_of_current {history : List Event} {s : Str} {r w : ℕ} (h : current history s = some (r,w)) :
    .created s r w ∈ history := by
  induction history with
  | nil => cases h
  | cons e history ih =>
    cases e with
    | created scope r' w' =>
      rw [current] at h
      split at h
      · rename_i hs
        cases h
        simp [hs]
      · exact List.mem_cons_of_mem _ (ih h)
    | unregistered scope r' w' =>
      rw [current] at h
      split at h
      · cases h
      · exact List.mem_cons_of_mem _ (ih h)
    | activated w' => exact List.mem_cons_of_mem _ (ih h)

theorem deinit_eq_none_iff (h : Reflects m history) (order : IterationOrder Str) (poolOrder : IterationOrder Id) :
    m.deinit order poolOrder = none ↔ ∃ s r w, .created s r w ∈ history := by
  constructor
  · intro hnone
    by_contra hcreated
    have hregistrations : ∀ s, m.registrations.lookup s = none := by
      intro s
      rw [h.current_eq_none]
      cases hs : current history s with
      | none => rfl
      | some pair => exact absurd ⟨s,pair.1,pair.2,created_of_current hs⟩ hcreated
    have hpool : ∀ id, m.workerPool.lookup id = none := by
      intro id
      cases hid : m.workerPool.lookup id with
      | none => rfl
      | some w => exact absurd (h.created.mpr ⟨id,w,hid⟩) hcreated
    have hempty : (order m.registrations.keys).1.filterMap m.registrations.lookup = [] :=
      List.filterMap_eq_nil_iff.mpr fun s _ => hregistrations s
    have hpoolEmpty : (poolOrder m.workerPool.keys).1.filterMap m.workerPool.lookup = [] :=
      List.filterMap_eq_nil_iff.mpr fun id _ => hpool id
    simp [ServiceWorkerRegistry.deinit,hempty,hpoolEmpty,ServiceWorkerRegistry.deinitRegistrations,
      ServiceWorkerRegistry.deinitPool] at hnone
  · intro hcreated
    obtain ⟨id,w,hid⟩ := h.created.mp hcreated
    obtain ⟨worker,hload⟩ := h.pool id w hid
    rw [ServiceWorkerRegistry.deinit]
    cases hdeinit : ServiceWorkerRegistry.deinitRegistrations m.registrationHeap m.workerHeap
        ((order m.registrations.keys).1.filterMap m.registrations.lookup) with
    | none => rfl
    | some workers =>
      obtain ⟨v,hv,htorn⟩ := deinitRegistrations_torn hdeinit hload
      have hw : w ∈ (poolOrder m.workerPool.keys).1.filterMap m.workerPool.lookup :=
        List.mem_filterMap.mpr ⟨id,(poolOrder m.workerPool.keys).2.mem_iff.mpr (mem_keys_of_lookup hid),hid⟩
      refine deinitPool_torn hw hv (htorn ?_)
      rcases h.stale w worker hload with ⟨s,hs⟩|⟨htorn,-⟩
      · obtain ⟨reg,hreg,-,hi,-⟩ := h.registration s _ w hs
        have hlookup : m.registrations.lookup s = some worker.registration := by rw [h.table,hs]; rfl
        refine Or.inr ⟨worker.registration,?_,reg,hreg,by simp [ServiceWorkerRegistration.workers,hi]⟩
        exact List.mem_filterMap.mpr ⟨s,(order m.registrations.keys).2.mem_iff.mpr (mem_keys_of_lookup hlookup),hlookup⟩
      · exact Or.inl htorn

end Shutdown

def World.Reflected (s : World) : Prop := ∀ m ∈ s.registry, Reflects m s.history

theorem step_some {s : World} (hm : s.registry = some m) (call : Call) :
    step s call = ⟨perform m call,events s m call++s.history⟩ := by
  simp [step,hm]

theorem step_reflected (s : World) (call : Call) (h : s.Reflected) : (step s call).Reflected := by
  cases hm : s.registry with
  | none => simpa [step,hm] using h
  | some m =>
    rw [step_some hm]
    intro m' hm'
    rcases settled (h m hm) call with ⟨-,hnone⟩|⟨-,m₁,hsome,hreflects⟩
    · change perform m call = some m' at hm'
      rw [hnone] at hm'
      cases hm'
    · change perform m call = some m' at hm'
      rw [hsome] at hm'
      cases hm'
      have hevents : events s m call = events ⟨some m,s.history⟩ m call := by cases call <;> rfl
      rw [hevents]
      exact hreflects

theorem step_isSome_iff (s : World) (call : Call) (h : s.Reflected) :
    (step s call).registry.isSome ↔ s.registry.isSome ∧ Careful s call := by
  cases hm : s.registry with
  | none => simp [step,hm]
  | some m =>
    have hcareful : Careful s call ↔ Careful ⟨some m,s.history⟩ call := by cases call <;> rfl
    rw [hcareful]
    rcases settled (h m hm) call with ⟨hcareless,hnone⟩|⟨hcareful,m₁,hsome,-⟩
    · simp [step,hm,hnone,hcareless]
    · simp [step,hm,hsome,hcareful]

/-- A run goes wrong exactly where it uses a registration that has been unregistered,
unregisters one whose worker was activated, or registers a scope of less than eight bytes.
The registry can be shut down only if nothing was ever registered, and an update never finds
a new script. -/
theorem run_registry (calls : List Call) :
    ((run step .init calls).registry.isSome ↔ Along step Careful .init calls) ∧
      ∀ m ∈ (run step .init calls).registry,
        (∀ order poolOrder, m.deinit order poolOrder = none ↔
          ∃ s r w, .created s r w ∈ (run step .init calls).history) ∧
        ∀ r workerId now m', m.update r workerId now = some m' → m' = m := by
  have hinit : World.init.Reflected := by
    intro m hm
    cases hm
    exact Reflects.init
  constructor
  · have hiff := run_iff_along (G:=fun s : World => s.registry.isSome) step_reflected step_isSome_iff hinit calls
    exact hiff.trans (and_iff_right rfl)
  · intro m hm
    have h : Reflects m (run step .init calls).history := run_inv step_reflected hinit calls m hm
    exact ⟨deinit_eq_none_iff h,fun r workerId now => (settled_update h r workerId now).2⟩

end ZNet.WorkerRegistry
