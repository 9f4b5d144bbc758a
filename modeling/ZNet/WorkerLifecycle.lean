import ZNet.Tables
import ZNet.Runs
import Mathlib.Data.Finset.Basic

/-!
# The lifecycle of service workers

A change of state is a list of steps. The table of the steps has an empty list for every
change that it does not name.
-/

namespace ZNet.WorkerLifecycle
open Tables Runs

abbrev WorkerId := Vector UInt8 16

inductive ServiceWorkerState
  | installing | installed | activating | activated | activatedPeriodicSync | redundant
deriving DecidableEq

inductive LifecycleResult
  | success | pending | failed | timeout | cancelled
deriving DecidableEq

inductive WorkerError
  | workerInstallFailed | workerActivationFailed
deriving DecidableEq

inductive TransitionStep
  | validateInstall | completeInstall | startActivation | completeActivation | cancelActivation | markRedundant
  | initiateTermination
deriving DecidableEq

structure TransitionContext where
  worker : WorkerId
  fromState : ServiceWorkerState
  toState : ServiceWorkerState
  startTime : ℤ
  steps : List TransitionStep

def getTransitionSteps (source target : ServiceWorkerState) : List TransitionStep :=
  match source with
  | .installing =>
    match target with
    | .installed => [.validateInstall,.completeInstall]
    | _ => []
  | .installed =>
    match target with
    | .activating => [.startActivation]
    | .redundant => [.markRedundant]
    | _ => []
  | .activating =>
    match target with
    | .activated => [.completeActivation]
    | .redundant => [.cancelActivation]
    | _ => []
  | .activated =>
    match target with
    | .redundant => [.initiateTermination]
    | _ => []
  | _ => []

/-- The functions of the steps. Those of the source do nothing and succeed. -/
abbrev StepFunctions (ε : Type) := TransitionStep → WorkerId → Except ε Unit

/-- What a call gets from outside. -/
structure Io (ε : Type) where
  functions : StepFunctions ε
  now : ℤ

structure LifecycleStateMachine where
  workers : Finset WorkerId
  activeTransitions : Table WorkerId TransitionContext

variable {ε : Type}

namespace LifecycleStateMachine

def init : LifecycleStateMachine := ⟨∅,∅⟩

def addWorker (self : LifecycleStateMachine) (worker : WorkerId) : LifecycleStateMachine :=
  { self with workers := insert worker self.workers }

def executeTransition (self : LifecycleStateMachine) (functions : StepFunctions ε) (workerId : WorkerId) :
    Except ε LifecycleResult×LifecycleStateMachine :=
  match self.activeTransitions.lookup workerId with
  | some context =>
    match forM context.steps fun step => functions step context.worker with
    | .error e => (.error e,self)
    | .ok () => (.ok .success,{ self with activeTransitions := self.activeTransitions.erase workerId })
  | none => (.ok .failed,self)

/-- The answer, the machine and the state of the worker. -/
def transitionTo (self : LifecycleStateMachine) (io : Io ε) (worker : WorkerId) (state newState : ServiceWorkerState) :
    Except ε LifecycleResult×LifecycleStateMachine×ServiceWorkerState :=
  if state = newState then (.ok .success,self,state)
  else
    let context : TransitionContext := ⟨worker,state,newState,io.now,getTransitionSteps state newState⟩
    let pending := { self with activeTransitions := self.activeTransitions.insert worker context }
    match pending.executeTransition io.functions worker with
    | (.ok .success,self) => (.ok .success,self,newState)
    | (result,self) => (result,self,state)

end LifecycleStateMachine

structure LifecycleManager where
  stateMachine : LifecycleStateMachine
  activeWorkers : Finset WorkerId

/-- The manager and the states of the workers. -/
structure Workers where
  manager : LifecycleManager
  state : WorkerId → ServiceWorkerState

def Workers.init : Workers := ⟨⟨.init,∅⟩,fun _ => .installing⟩

inductive Request
  | transitionTo (newState : ServiceWorkerState)
  | startWorker
  | activateWorker
  | terminateWorker
deriving DecidableEq

structure Call (ε : Type) where
  worker : WorkerId
  request : Request
  io : Io ε

inductive Reply (ε : Type)
  | transition (result : Except ε LifecycleResult)
  | done (result : Except WorkerError Unit)

namespace Workers

def transitions (s : Workers) : Table WorkerId TransitionContext := s.manager.stateMachine.activeTransitions

def transitionTo (s : Workers) (io : Io ε) (worker : WorkerId) (newState : ServiceWorkerState) :
    Except ε LifecycleResult×Workers :=
  let (result,stateMachine,state) := s.manager.stateMachine.transitionTo io worker (s.state worker) newState
  (result,⟨{ s.manager with stateMachine := stateMachine },Function.update s.state worker state⟩)

/-- An error of a step is not one of the results that the callers compare with. -/
def isResult (result : Except ε LifecycleResult) (expected : LifecycleResult) : Bool :=
  match result with
  | .ok result => decide (result = expected)
  | .error _ => false

def startWorker (s : Workers) (io : Io ε) (worker : WorkerId) : Except WorkerError Unit×Workers :=
  let added : Workers :=
    { s with manager := ⟨s.manager.stateMachine.addWorker worker,insert worker s.manager.activeWorkers⟩ }
  let (result,s) := added.transitionTo io worker .installed
  if isResult result .failed then (.error .workerInstallFailed,s) else (.ok (),s)

def activateWorker (s : Workers) (io : Io ε) (worker : WorkerId) : Except WorkerError Unit×Workers :=
  let (result,s) := s.transitionTo io worker .activated
  if isResult result .failed then (.error .workerActivationFailed,s) else (.ok (),s)

def terminateWorker (s : Workers) (io : Io ε) (worker : WorkerId) : Except WorkerError Unit×Workers :=
  let (result,s) := s.transitionTo io worker .redundant
  if isResult result .success then
    (.ok (),{ s with manager := { s.manager with activeWorkers := s.manager.activeWorkers.erase worker } })
  else (.ok (),s)

end Workers

/-- The state that a call asks for. -/
def Request.newState : Request → ServiceWorkerState
  | .transitionTo newState => newState
  | .startWorker => .installed
  | .activateWorker => .activated
  | .terminateWorker => .redundant

def serve (s : Workers) (call : Call ε) : Reply ε×Workers :=
  match call.request with
  | .transitionTo newState => (s.transitionTo call.io call.worker newState).map .transition id
  | .startWorker => (s.startWorker call.io call.worker).map .done id
  | .activateWorker => (s.activateWorker call.io call.worker).map .done id
  | .terminateWorker => (s.terminateWorker call.io call.worker).map .done id

def step (s : Workers) (call : Call ε) : Workers := (serve s call).2

def Reply.failure : Reply ε → Prop
  | .transition (.ok .success) => False
  | .transition _ => True
  | .done (.ok ()) => False
  | .done (.error _) => True

inductive Edge : ServiceWorkerState → ServiceWorkerState → Prop
  | install : Edge .installing .installed
  | activate : Edge .installed .activating
  | discard : Edge .installed .redundant
  | complete : Edge .activating .activated
  | cancel : Edge .activating .redundant
  | terminate : Edge .activated .redundant

/-- Workers change along the edges and no worker leaves the last state, another change is
refused, and nothing is left of the transition. -/
structure Ordered (s : Workers) (call : Call ε) : Prop where
  change : ∀ worker, (step s call).state worker = s.state worker ∨ Edge (s.state worker) ((step s call).state worker)
  kept : ∀ worker, s.state worker = .redundant → (step s call).state worker = .redundant
  refused : call.request.newState ≠ s.state call.worker → ¬Edge (s.state call.worker) call.request.newState →
    (serve s call).1.failure ∧ (step s call).state call.worker = s.state call.worker
  cleared : (step s call).transitions.lookup call.worker = none

/-- The worker has the state already, or an edge leads to it and its steps succeed. -/
def Legal (s : Workers) (call : Call ε) : Prop :=
  call.request.newState = s.state call.worker ∨
  Edge (s.state call.worker) call.request.newState ∧
    ∀ t ∈ getTransitionSteps (s.state call.worker) call.request.newState, call.io.functions t call.worker = .ok ()

theorem edge_iff {source target : ServiceWorkerState} : Edge source target ↔ getTransitionSteps source target ≠ [] := by
  constructor
  · intro h
    cases h with
    | install => simp [getTransitionSteps]
    | activate => simp [getTransitionSteps]
    | discard => simp [getTransitionSteps]
    | complete => simp [getTransitionSteps]
    | cancel => simp [getTransitionSteps]
    | terminate => simp [getTransitionSteps]
  · intro h
    cases source with
    | installing =>
      cases target with
      | installed => exact .install
      | _ => exact absurd rfl h
    | installed =>
      cases target with
      | activating => exact .activate
      | redundant => exact .discard
      | _ => exact absurd rfl h
    | activating =>
      cases target with
      | activated => exact .complete
      | redundant => exact .cancel
      | _ => exact absurd rfl h
    | activated =>
      cases target with
      | redundant => exact .terminate
      | _ => exact absurd rfl h
    | activatedPeriodicSync => exact absurd rfl h
    | redundant => exact absurd rfl h

theorem Edge.ne {source target : ServiceWorkerState} (h : Edge source target) : target ≠ source := by
  cases h <;> exact ServiceWorkerState.noConfusion

/-- All functions succeed, or one fails and with it the loop. -/
theorem forM_cases (functions : StepFunctions ε) (worker : WorkerId) (steps : List TransitionStep) :
    (∀ t ∈ steps, functions t worker = .ok ()) ∧ (forM steps fun t => functions t worker) = .ok () ∨
    ∃ e, (∃ t ∈ steps, functions t worker = .error e) ∧ (forM steps fun t => functions t worker) = .error e := by
  induction steps with
  | nil => exact Or.inl ⟨nofun,rfl⟩
  | cons t steps ih =>
    rw [List.forM_cons]
    cases hfirst : functions t worker with
    | error e => exact Or.inr ⟨e,⟨t,List.mem_cons_self,hfirst⟩,rfl⟩
    | ok _ =>
      rcases ih with ⟨hall,hrun⟩ | ⟨e,⟨u,hmem,hfail⟩,hrun⟩
      · refine Or.inl ⟨?_,hrun⟩
        rw [List.forall_mem_cons]
        exact ⟨hfirst,hall⟩
      · exact Or.inr ⟨e,⟨u,List.mem_cons_of_mem t hmem,hfail⟩,hrun⟩

/-- Nothing is asked for, or the steps succeed, or one of them fails and the transition stays
in the table. -/
theorem LifecycleStateMachine.transitionTo_cases (self : LifecycleStateMachine) (io : Io ε) (worker : WorkerId)
    (state newState : ServiceWorkerState) :
    newState = state ∧ self.transitionTo io worker state newState = (.ok .success,self,state) ∨
    newState ≠ state ∧ (∀ t ∈ getTransitionSteps state newState, io.functions t worker = .ok ()) ∧
      self.transitionTo io worker state newState =
        (.ok .success,{ self with activeTransitions := self.activeTransitions.erase worker },newState) ∨
    newState ≠ state ∧ ∃ e context, (∃ t ∈ getTransitionSteps state newState, io.functions t worker = .error e) ∧
      self.transitionTo io worker state newState =
        (.error e,{ self with activeTransitions := self.activeTransitions.insert worker context },state) := by
  by_cases hsame : state = newState
  · exact Or.inl ⟨hsame.symm,by rw [transitionTo,if_pos hsame]⟩
  · right
    have hne := Ne.symm hsame
    rw [transitionTo,if_neg hsame]
    simp only [executeTransition,AList.lookup_insert]
    rcases forM_cases io.functions worker (getTransitionSteps state newState) with ⟨hall,hrun⟩ | ⟨e,hfail,hrun⟩
    · rw [hrun]
      refine Or.inl ⟨hne,hall,?_⟩
      simp only [erase_insert]
    · rw [hrun]
      exact Or.inr ⟨hne,e,_,hfail,rfl⟩

/-- A call is a transition of the worker, for `startWorker` after the worker was added. What
it reports follows from the result. -/
theorem serve_transition (s : Workers) (call : Call ε) : ∃ entry : Workers,
    entry.state = s.state ∧ entry.transitions = s.transitions ∧
    (step s call).state = (entry.transitionTo call.io call.worker call.request.newState).2.state ∧
    (step s call).transitions = (entry.transitionTo call.io call.worker call.request.newState).2.transitions ∧
    ((entry.transitionTo call.io call.worker call.request.newState).1 = .ok .success →
      ¬(serve s call).1.failure) := by
  obtain ⟨worker,request,io⟩ := call
  cases request with
  | transitionTo newState =>
    refine ⟨s,rfl,rfl,rfl,rfl,?_⟩
    intro hsuccess
    simp only [Request.newState] at hsuccess
    simp only [serve,Prod.map,hsuccess]
    exact id
  | startWorker =>
    refine ⟨{ s with manager := ⟨s.manager.stateMachine.addWorker worker,insert worker s.manager.activeWorkers⟩ },
      rfl,rfl,?_⟩
    simp only [step,serve,Workers.startWorker,Request.newState]
    split
    · rename_i hfailed
      refine ⟨rfl,rfl,?_⟩
      intro hsuccess
      rw [hsuccess] at hfailed
      cases hfailed
    · exact ⟨rfl,rfl,fun _ => id⟩
  | activateWorker =>
    refine ⟨s,rfl,rfl,?_⟩
    simp only [step,serve,Workers.activateWorker,Request.newState]
    split
    · rename_i hfailed
      refine ⟨rfl,rfl,?_⟩
      intro hsuccess
      rw [hsuccess] at hfailed
      cases hfailed
    · exact ⟨rfl,rfl,fun _ => id⟩
  | terminateWorker =>
    refine ⟨s,rfl,rfl,?_⟩
    simp only [step,serve,Workers.terminateWorker,Request.newState]
    split
    · exact ⟨rfl,rfl,fun _ => id⟩
    · exact ⟨rfl,rfl,fun _ => id⟩

/-- Nothing changes, or the steps succeed and the state is the one asked for, whether or not
there is an edge, or a step fails and the transition stays in the table. -/
theorem step_cases (s : Workers) (call : Call ε) :
    call.request.newState = s.state call.worker ∧ (step s call).state = s.state ∧
      (step s call).transitions = s.transitions ∨
    call.request.newState ≠ s.state call.worker ∧
      (∀ t ∈ getTransitionSteps (s.state call.worker) call.request.newState,
        call.io.functions t call.worker = .ok ()) ∧
      (step s call).state = Function.update s.state call.worker call.request.newState ∧
      (step s call).transitions = s.transitions.erase call.worker ∧ ¬(serve s call).1.failure ∨
    call.request.newState ≠ s.state call.worker ∧
      (∃ e, ∃ t ∈ getTransitionSteps (s.state call.worker) call.request.newState,
        call.io.functions t call.worker = .error e) ∧
      ∃ context, (step s call).transitions = s.transitions.insert call.worker context := by
  obtain ⟨entry,hstate,htransitions,hstep,hafter,hreply⟩ := serve_transition s call
  rw [hstep,hafter,← hstate,← htransitions]
  simp only [Workers.transitionTo,Workers.transitions] at hreply ⊢
  rcases entry.manager.stateMachine.transitionTo_cases call.io call.worker (entry.state call.worker)
    call.request.newState with ⟨hasked,hrun⟩ | ⟨hasked,hall,hrun⟩ | ⟨hasked,e,context,hfail,hrun⟩
  · left
    simp only [hrun,Function.update_eq_self]
    exact ⟨hasked,trivial,trivial⟩
  · right; left
    simp only [hrun] at hreply ⊢
    exact ⟨hasked,hall,trivial,trivial,hreply trivial⟩
  · right; right
    simp only [hrun]
    exact ⟨hasked,⟨e,hfail⟩,context,rfl⟩

/-- Without entries before, the call is in order exactly if it is legal. -/
theorem ordered_iff {s : Workers} {call : Call ε} (hnone : s.transitions.lookup call.worker = none) :
    Ordered s call ↔ Legal s call := by
  rcases step_cases s call with ⟨hasked,hstate,htransitions⟩ | ⟨hasked,hall,hstate,htransitions,hreply⟩ |
    ⟨hasked,⟨e,t,hmem,hfail⟩,context,htransitions⟩
  · -- The worker has the state already.
    refine iff_of_true ?_ (Or.inl hasked)
    refine ⟨fun worker => Or.inl (congrFun hstate worker),fun worker h => (congrFun hstate worker).trans h,?_,?_⟩
    · exact fun hne => absurd hasked hne
    · rw [htransitions,hnone]
  · by_cases hedge : Edge (s.state call.worker) call.request.newState
    · refine iff_of_true ?_ (Or.inr ⟨hedge,hall⟩)
      constructor
      · intro worker
        rw [hstate]
        by_cases hworker : worker = call.worker
        · right
          rw [hworker,Function.update_self]
          exact hedge
        · exact Or.inl (Function.update_of_ne hworker _ _)
      · intro worker hredundant
        have hworker : worker ≠ call.worker := by
          rintro rfl
          rw [hredundant] at hedge
          cases hedge
        rw [hstate,Function.update_of_ne hworker,hredundant]
      · exact fun _ hno => absurd hedge hno
      · rw [htransitions,AList.lookup_erase]
    · -- A change that the table does not name has no steps and succeeds.
      refine iff_of_false ?_ ?_
      · intro hordered
        exact hreply (hordered.refused hasked hedge).1
      · rintro (hsame | ⟨h,-⟩)
        · exact hasked hsame
        · exact hedge h
  · refine iff_of_false ?_ ?_
    · intro hordered
      have hcleared := hordered.cleared
      rw [htransitions,AList.lookup_insert] at hcleared
      cases hcleared
    · rintro (hsame | ⟨-,hall⟩)
      · exact hasked hsame
      · rw [hall t hmem] at hfail
        cases hfail

theorem legal_keeps {s : Workers} {call : Call ε} (hnone : ∀ worker, s.transitions.lookup worker = none)
    (hlegal : Legal s call) (worker : WorkerId) : (step s call).transitions.lookup worker = none := by
  rcases step_cases s call with ⟨-,-,htransitions⟩ | ⟨-,-,-,htransitions,-⟩ | ⟨hasked,⟨e,t,hmem,hfail⟩,-⟩
  · rw [htransitions,hnone]
  · rw [htransitions,lookup_erase_eq,hnone,ite_self]
  · rcases hlegal with hsame | ⟨-,hall⟩
    · exact absurd hsame hasked
    · rw [hall t hmem] at hfail
      cases hfail

/-- The calls of a run are all in order exactly if each of them is legal where it is made. -/
theorem ordered_along_iff (calls : List (Call ε)) : Along step Ordered .init calls ↔ Along step Legal .init calls :=
  along_iff (I:=fun s => ∀ worker, s.transitions.lookup worker = none) (fun _ _ => legal_keeps)
    (fun _ call h => ordered_iff (h call.worker)) fun _ => rfl

def worker : WorkerId := Vector.replicate 16 0

/-- A worker is started, discarded and started again. -/
def discarded : List (Call Unit) :=
  let io : Io Unit := ⟨fun _ _ => .ok (),0⟩
  [⟨worker,.startWorker,io⟩,⟨worker,.transitionTo .redundant,io⟩,⟨worker,.startWorker,io⟩]

theorem redundant_left : ¬Along step Ordered .init discarded := by
  intro h
  have hkept := h.2.2.1.kept worker (by decide)
  exact absurd hkept (by decide)

end ZNet.WorkerLifecycle
