import ZNet.FifoRuns
import ZNet.Tables

/-!
# The registry of WebTransport sessions

The process has one registry behind its C interface. A handle is a copy of a session of
its own: closing frees the copy and leaves the registry as it is.
-/

namespace ZNet.WebTransportRegistries
open Runs FifoRuns
open Tables (keys_length_erase)

structure WTSession where
  sessionId : UInt64
  outgoingStreams : ℕ
  incomingStreams : ℕ
  datagramsQueued : ℕ
  maxSessions : UInt32
  datagramsEnabled : Bool

structure WTDatagram where
  sessionId : UInt64
  dataPtr : ℕ
  dataLen : ℕ

structure WtRegistry where
  sessions : List WTSession
  datagrams : List WTDatagram

/-- The registry and the sessions that handles point to. A null pointer is no handle. -/
structure Process where
  registry : WtRegistry
  handles : AList fun _ : ℕ => WTSession
  nextHandle : ℕ

namespace Process

def new : Process := ⟨⟨[],[]⟩,∅,0⟩

/-- `znet_wt_create_session` compares the length of the list, cut to 32 bits. -/
def createSession (self : Process) (sessionId : UInt64) (maxSessions : UInt32) (datagramsEnabled : Bool) :
    Option ℕ×Process :=
  if maxSessions ≤ UInt32.ofNat self.registry.sessions.length then (none,self)
  else
    let session : WTSession := ⟨sessionId,0,0,0,maxSessions,datagramsEnabled⟩
    (some self.nextHandle,{
      registry := { self.registry with sessions := self.registry.sessions++[session] }
      handles := self.handles.insert self.nextHandle session
      nextHandle := self.nextHandle+1 })

/-- `znet_wt_close_session` -/
def closeSession (self : Process) (handle : Option ℕ) : ℤ×Process :=
  match handle with
  | none => (-1,self)
  | some handle => (0,{ self with handles := self.handles.erase handle })

/-- `znet_wt_queue_datagram`. The handle has to be open, unless it is null. -/
def queueDatagram (self : Process) (handle : Option ℕ) (sessionId : UInt64) (data : Option ℕ) (dataLen : ℕ) :
    ℤ×Process :=
  match handle,data with
  | some handle,some data =>
    match self.handles.lookup handle with
    | some session =>
      if session.datagramsEnabled then
        (0,{ self with
          registry := { self.registry with datagrams := self.registry.datagrams++[⟨sessionId,data,dataLen⟩] }
          handles := self.handles.insert handle { session with datagramsQueued := session.datagramsQueued+1 } })
      else (-2,self)
    | none => (-1,self)
  | _,_ => (-1,self)

/-- The loop of `znet_wt_drain_datagrams`: what it writes out, and what is left. -/
def drainLoop : ℕ → List WTDatagram → List WTDatagram×List WTDatagram
  | 0,datagrams => ([],datagrams)
  | _+1,[] => ([],[])
  | max+1,dg::datagrams =>
    let (out,rest) := drainLoop max datagrams
    (dg::out,rest)

/-- `znet_wt_drain_datagrams`, unless `out` is null. -/
def drainDatagrams (self : Process) (out : Bool) (max : ℕ) : List WTDatagram×Process :=
  if out then
    let (drained,rest) := drainLoop max self.registry.datagrams
    (drained,{ self with registry := { self.registry with datagrams := rest } })
  else ([],self)

end Process

inductive Call
  | createSession (sessionId : UInt64) (datagramsEnabled : Bool)
  | closeSession (handle : Option ℕ)
  | queueDatagram (handle : Option ℕ) (sessionId : UInt64) (data : Option ℕ) (dataLen : ℕ)
  | drainDatagrams (out : Bool) (max : ℕ)

def step (maxSessions : UInt32) (process : Process) : Call → Process
  | .createSession sessionId datagramsEnabled => (process.createSession sessionId maxSessions datagramsEnabled).2
  | .closeSession handle => (process.closeSession handle).2
  | .queueDatagram handle sessionId data dataLen => (process.queueDatagram handle sessionId data dataLen).2
  | .drainDatagrams out max => (process.drainDatagrams out max).2

/-- A datagram is queued for an open session, or the call fails and changes nothing. -/
theorem queueDatagram_cases (process : Process) (handle : Option ℕ) (sessionId : UInt64) (data : Option ℕ)
    (dataLen : ℕ) :
    (∃ key ptr session, data = some ptr ∧ process.handles.lookup key = some session ∧
      process.queueDatagram handle sessionId data dataLen = (0,{ process with
        registry := { process.registry with datagrams := process.registry.datagrams++[⟨sessionId,ptr,dataLen⟩] }
        handles := process.handles.insert key { session with datagramsQueued := session.datagramsQueued+1 } })) ∨
    ∃ code ≠ 0, process.queueDatagram handle sessionId data dataLen = (code,process) := by
  cases handle with
  | none => exact Or.inr ⟨-1,by decide,rfl⟩
  | some key =>
    cases data with
    | none => exact Or.inr ⟨-1,by decide,rfl⟩
    | some ptr =>
      rw [Process.queueDatagram]
      split
      · rename_i session hsession
        split
        · exact Or.inl ⟨key,ptr,session,rfl,hsession,rfl⟩
        · exact Or.inr ⟨-2,by decide,rfl⟩
      · exact Or.inr ⟨-1,by decide,rfl⟩

section Limit

variable {maxSessions : UInt32} {process : Process}

/-- The sessions that have been created and not closed. -/
def openSessions (process : Process) : ℕ := process.handles.keys.length

/-- A session can be created exactly if fewer than `maxSessions` are open. -/
def CreatesExactly (maxSessions : UInt32) (process : Process) : Call → Prop
  | .createSession sessionId datagramsEnabled =>
    (process.createSession sessionId maxSessions datagramsEnabled).1 ≠ none ↔
      openSessions process < maxSessions.toNat
  | _ => True

/-- No session is asked for after all have been created and one has been closed. -/
def NotSpent (maxSessions : UInt32) (process : Process) : Call → Prop
  | .createSession _ _ =>
    process.registry.sessions.length = maxSessions.toNat → openSessions process = maxSessions.toNat
  | _ => True

/-- The registry keeps every session, and never more than `maxSessions`. -/
structure Bounded (maxSessions : UInt32) (process : Process) : Prop where
  opened : openSessions process ≤ process.registry.sessions.length
  created : process.registry.sessions.length ≤ maxSessions.toNat

theorem createSession_ne_none (h : Bounded maxSessions process) (sessionId : UInt64) (datagramsEnabled : Bool) :
    (process.createSession sessionId maxSessions datagramsEnabled).1 ≠ none ↔
      process.registry.sessions.length < maxSessions.toNat := by
  have hlt : maxSessions.toNat < UInt32.size := maxSessions.toNat_lt
  have hcreated := h.created
  have hcast : (UInt32.ofNat process.registry.sessions.length).toNat = process.registry.sessions.length :=
    UInt32.toNat_ofNat_of_lt' (by omega)
  have hfull : maxSessions ≤ UInt32.ofNat process.registry.sessions.length ↔
      maxSessions.toNat ≤ process.registry.sessions.length := by rw [UInt32.le_iff_toNat_le,hcast]
  rw [Process.createSession]
  split
  · rename_i hle
    have hge := hfull.mp hle
    simp only [ne_eq,not_true_eq_false,false_iff]
    omega
  · rename_i hle
    have hge := mt hfull.mpr hle
    simp only [ne_eq,reduceCtorEq,not_false_eq_true,true_iff]
    omega

theorem openSessions_insert (process : Process) (handle : ℕ) (session : WTSession) :
    (process.handles.insert handle session).keys.length ≤ openSessions process+1 := by
  rw [AList.keys_insert,List.length_cons]
  exact Nat.succ_le_succ List.length_erase_le

theorem bounded_step (h : Bounded maxSessions process) (call : Call) :
    Bounded maxSessions (step maxSessions process call) := by
  cases call with
  | createSession sessionId datagramsEnabled =>
    have hcreate := createSession_ne_none h sessionId datagramsEnabled
    rw [step]
    rw [Process.createSession] at hcreate ⊢
    split at hcreate
    · rename_i hfull
      rw [if_pos hfull]
      exact h
    · rename_i hfree
      have hlt := hcreate.mp (by simp)
      have hopen := openSessions_insert process process.nextHandle ⟨sessionId,0,0,0,maxSessions,datagramsEnabled⟩
      have hopened := h.opened
      rw [if_neg hfree]
      exact ⟨by simp only [openSessions,List.length_append,List.length_singleton] at hopen hopened ⊢; omega,
        by simp only [List.length_append,List.length_singleton]; omega⟩
  | closeSession handle =>
    cases handle with
    | none => exact h
    | some handle =>
      refine ⟨?_,h.created⟩
      have hopened := h.opened
      have herase : (process.handles.erase handle).keys.length ≤ openSessions process := by
        rw [AList.keys_erase]
        exact List.length_erase_le
      exact Nat.le_trans herase hopened
  | queueDatagram handle sessionId data dataLen =>
    rw [step]
    rcases queueDatagram_cases process handle sessionId data dataLen with
      ⟨key,ptr,session,-,hsession,hqueue⟩ | ⟨code,-,hqueue⟩
    · rw [hqueue]
      refine ⟨?_,h.created⟩
      have hkeys : (process.handles.keys.erase key).length+1 = openSessions process := by
        rw [← AList.keys_erase]
        exact keys_length_erase hsession
      simp only [openSessions,AList.keys_insert,List.length_cons]
      rw [hkeys]
      exact h.opened
    · rw [hqueue]
      exact h
  | drainDatagrams out max =>
    simp only [step,Process.drainDatagrams]
    split
    · exact ⟨h.opened,h.created⟩
    · exact h

theorem createsExactly_iff (h : Bounded maxSessions process) (call : Call) :
    CreatesExactly maxSessions process call ↔ NotSpent maxSessions process call := by
  cases call with
  | createSession sessionId datagramsEnabled =>
    obtain ⟨hopened,hcreated⟩ := h
    rw [CreatesExactly,createSession_ne_none ⟨hopened,hcreated⟩,NotSpent]
    omega
  | closeSession => exact Iff.rfl
  | queueDatagram => exact Iff.rfl
  | drainDatagrams => exact Iff.rfl

/-- In a run a session can be created exactly if fewer than `maxSessions` are open, as
long as the sessions that were closed are not needed to make room. -/
theorem along_createsExactly_iff (maxSessions : UInt32) (calls : List Call) :
    Along (step maxSessions) (CreatesExactly maxSessions) .new calls ↔
      Along (step maxSessions) (NotSpent maxSessions) .new calls :=
  along_iff (I:=Bounded maxSessions) (fun _ call h _ => bounded_step h call) (fun _ call h => createsExactly_iff h call)
    ⟨Nat.le_refl 0,Nat.zero_le _⟩

end Limit

section Datagrams

variable {maxSessions : UInt32}

/-- The datagram that a call appends to the queue. -/
def arrived (process : Process) : Call → List WTDatagram
  | .queueDatagram handle sessionId data dataLen =>
    if (process.queueDatagram handle sessionId data dataLen).1 = 0 then [⟨sessionId,data.getD 0,dataLen⟩] else []
  | _ => []

def delivered (process : Process) : Call → List WTDatagram
  | .drainDatagrams out max => (process.drainDatagrams out max).1
  | _ => []

def queued (process : Process) : List WTDatagram := process.registry.datagrams

theorem drainLoop_eq (max : ℕ) (datagrams : List WTDatagram) :
    Process.drainLoop max datagrams = (datagrams.take max,datagrams.drop max) := by
  induction max generalizing datagrams with
  | zero => rfl
  | succ max ih =>
    cases datagrams with
    | nil => rfl
    | cons dg datagrams => rw [Process.drainLoop,ih,List.take_succ_cons,List.drop_succ_cons]

theorem conserves_step (process : Process) (call : Call) :
    Conserves (step maxSessions) queued arrived delivered process call := by
  cases call with
  | createSession sessionId datagramsEnabled =>
    have hqueued : queued (step maxSessions process (.createSession sessionId datagramsEnabled)) = queued process := by
      rw [step,Process.createSession]
      split <;> rfl
    rw [Conserves,hqueued]
    exact List.append_nil _
  | closeSession handle =>
    have hqueued : queued (step maxSessions process (.closeSession handle)) = queued process := by
      cases handle <;> rfl
    rw [Conserves,hqueued]
    exact List.append_nil _
  | queueDatagram handle sessionId data dataLen =>
    simp only [Conserves,arrived,delivered,step]
    rcases queueDatagram_cases process handle sessionId data dataLen with
      ⟨key,ptr,session,rfl,-,hqueue⟩ | ⟨code,hcode,hqueue⟩
    · rw [hqueue]
      rfl
    · rw [hqueue,if_neg hcode]
      exact List.append_nil _
  | drainDatagrams out max =>
    simp only [Conserves,arrived,delivered,step,Process.drainDatagrams,drainLoop_eq]
    split
    · simp [queued]
    · simp

theorem along_conserves (process : Process) (calls : List Call) :
    Along (step maxSessions) (Conserves (step maxSessions) queued arrived delivered) process calls := by
  exact along_of_step (I:=fun _ => True) (fun process call _ => ⟨conserves_step process call,trivial⟩) trivial calls

end Datagrams

end ZNet.WebTransportRegistries
