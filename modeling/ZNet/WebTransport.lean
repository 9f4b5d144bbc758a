import ZNet.WebTransportRegistry

/-!
# WebTransport handles

`connect` puts the limit of sessions into the settings of the connection and makes a new
session in any case. The datagrams of a session are drained from the end of their queue.
-/

namespace ZNet.WebTransports
open Runs FifoRuns

def alpn : List Char := "webtransport".toList

def settingsWebtransportMaxSessions : ℕ := 0xC671706A

/-- The part of a QUIC connection that sessions use. -/
structure Connection where
  alpn : List Char
  h3Settings : List (ℕ×ℕ)
  wtSessions : List ℕ

namespace Connection

/-- The result of `setAlpn`, which rejects another protocol than the one that is set. -/
def setAlpn (self : Connection) (alpn : List Char) : Option Connection :=
  if self.alpn.length ≠ 0 ∧ self.alpn ≠ alpn then none else some { self with alpn := alpn }

/-- `memory` tells whether a new entry can be appended. -/
def putH3Setting (self : Connection) (id value : ℕ) (memory : Bool) : Connection :=
  match self.h3Settings.findIdx? (·.1 = id) with
  | some i => { self with h3Settings := self.h3Settings.set i (id,value) }
  | none => if memory then { self with h3Settings := self.h3Settings++[(id,value)] } else self

/-- `drawn` is the first random number that is not zero. -/
def nextSessionId (self : Connection) (drawn : ℕ) (memory : Bool) : ℕ×Connection :=
  if memory then (drawn,{ self with wtSessions := self.wtSessions++[drawn] }) else (0,self)

def closeSession (self : Connection) (sessionId : ℕ) : Connection :=
  { self with wtSessions := self.wtSessions.erase sessionId }

end Connection

/-- `δ` is the type of the datagrams, which are only moved. -/
structure Session (δ : Type) where
  sessionId : ℕ
  datagramsEnabled : Bool
  datagramQueue : List δ

structure WebTransport (δ : Type) where
  session : Session δ
  closed : Bool := false

structure ConnectOptions where
  datagramsEnabled : Bool := true
  maxSessions : UInt32 := 16

namespace WebTransport

variable {δ : Type}

/-- Without a result the protocol has been rejected. -/
def connect (quicConn : Connection) (options : ConnectOptions) (drawn : ℕ) (settingMemory sessionMemory : Bool) :
    Option (WebTransport δ)×Connection :=
  match quicConn.setAlpn alpn with
  | none => (none,quicConn)
  | some quicConn =>
    let quicConn := quicConn.putH3Setting settingsWebtransportMaxSessions options.maxSessions.toNat settingMemory
    let (sessionId,quicConn) := quicConn.nextSessionId drawn sessionMemory
    (some ⟨⟨sessionId,options.datagramsEnabled,[]⟩,false⟩,quicConn)

def close (self : WebTransport δ) (quicConn : Connection) : WebTransport δ×Connection :=
  if self.closed then (self,quicConn)
  else ({ self with closed := true },quicConn.closeSession self.session.sessionId)

/-- The loop of `drainDatagrams`: what it writes to `out`, and what is left. -/
def drainLoop : ℕ → List δ → List δ×List δ
  | 0,queue => ([],queue)
  | len+1,queue =>
    match queue.getLast? with
    | some next =>
      let (out,rest) := drainLoop len queue.dropLast
      (next::out,rest)
    | none => ([],queue)

def drainDatagrams (self : WebTransport δ) (len : ℕ) : List δ×WebTransport δ :=
  let (out,rest) := drainLoop len self.session.datagramQueue
  (out,{ self with session := { self.session with datagramQueue := rest } })

end WebTransport

section Limit

/-- One connection and the handles that were made for it. -/
structure Handles (δ : Type) where
  quicConn : Connection
  handles : List (WebTransport δ)

inductive Call
  | connect (datagramsEnabled : Bool) (drawn : ℕ) (settingMemory sessionMemory : Bool)
  | close (handle : ℕ)

variable {δ : Type}

def step (maxSessions : UInt32) (s : Handles δ) : Call → Handles δ
  | .connect datagramsEnabled drawn settingMemory sessionMemory =>
    let (transport,quicConn) :=
      WebTransport.connect s.quicConn ⟨datagramsEnabled,maxSessions⟩ drawn settingMemory sessionMemory
    ⟨quicConn,s.handles++transport.toList⟩
  | .close handle =>
    match s.handles[handle]? with
    | some transport =>
      let (transport,quicConn) := transport.close s.quicConn
      ⟨quicConn,s.handles.set handle transport⟩
    | none => s

/-- The sessions that have not been closed. -/
def liveSessions (s : Handles δ) : ℕ := s.handles.countP fun transport => !transport.closed

/-- After the call no more than `maxSessions` sessions are live. -/
def WithinLimit (maxSessions : UInt32) (s : Handles δ) (call : Call) : Prop :=
  liveSessions (step maxSessions s call) ≤ maxSessions.toNat

/-- Sessions are asked for while there is room, or while the protocol is rejected. -/
def RoomFor (maxSessions : UInt32) (s : Handles δ) : Call → Prop
  | .connect .. => s.quicConn.setAlpn alpn ≠ none → liveSessions s < maxSessions.toNat
  | .close _ => True

variable {maxSessions : UInt32} {s : Handles δ}

theorem liveSessions_connect (s : Handles δ) (datagramsEnabled : Bool) (drawn : ℕ)
    (settingMemory sessionMemory : Bool) :
    liveSessions (step maxSessions s (.connect datagramsEnabled drawn settingMemory sessionMemory)) =
      if s.quicConn.setAlpn alpn = none then liveSessions s else liveSessions s+1 := by
  simp only [step,WebTransport.connect]
  split
  · rename_i hreject
    rw [if_pos hreject]
    simp [liveSessions]
  · rename_i quicConn haccept
    rw [if_neg (by rw [haccept]; simp)]
    simp [liveSessions]

theorem liveSessions_close (s : Handles δ) (handle : ℕ) :
    liveSessions (step maxSessions s (.close handle)) ≤ liveSessions s := by
  rw [step]
  split
  · rename_i transport hget
    obtain ⟨hlt,rfl⟩ := List.getElem?_eq_some_iff.mp hget
    have hclosed : (s.handles[handle].close s.quicConn).1.closed = true := by
      rw [WebTransport.close]
      split
      · assumption
      · rfl
    simp only [liveSessions]
    rw [List.countP_set hlt]
    simp [hclosed]
  · exact Nat.le_refl _

theorem withinLimit_iff (h : liveSessions s ≤ maxSessions.toNat) (call : Call) :
    WithinLimit maxSessions s call ↔ RoomFor maxSessions s call := by
  cases call with
  | connect datagramsEnabled drawn settingMemory sessionMemory =>
    rw [WithinLimit,liveSessions_connect,RoomFor]
    split
    · rename_i hreject
      simp [hreject,h]
    · rename_i haccept
      exact ⟨fun hle _ => hle,fun hroom => hroom haccept⟩
  | close handle => exact iff_of_true (Nat.le_trans (liveSessions_close s handle) h) trivial

theorem along_withinLimit_iff (quicConn : Connection) (maxSessions : UInt32) (calls : List Call) :
    Along (step maxSessions) (WithinLimit maxSessions) (⟨quicConn,[]⟩ : Handles δ) calls ↔
      Along (step maxSessions) (RoomFor maxSessions) (⟨quicConn,[]⟩ : Handles δ) calls :=
  along_iff (I:=fun s => liveSessions s ≤ maxSessions.toNat)
    (fun _ call h hroom => (withinLimit_iff h call).mpr hroom) (fun _ call h => withinLimit_iff h call) (Nat.zero_le _)

end Limit

section Datagrams

/-- What happens to the queue of a session. -/
inductive QueueCall (δ : Type)
  | arrive (datagram : δ)
  | drain (len : ℕ)

variable {δ : Type}

def queueStep (s : WebTransport δ) : QueueCall δ → WebTransport δ
  | .arrive datagram => { s with session := { s.session with datagramQueue := s.session.datagramQueue++[datagram] } }
  | .drain len => (s.drainDatagrams len).2

def arrived (_s : WebTransport δ) : QueueCall δ → List δ
  | .arrive datagram => [datagram]
  | .drain _ => []

def drained (s : WebTransport δ) : QueueCall δ → List δ
  | .arrive _ => []
  | .drain len => (s.drainDatagrams len).1

def queued (s : WebTransport δ) : List δ := s.session.datagramQueue

/-- Drains meet at most one datagram, or have no room for any. -/
def AtMostOne (s : WebTransport δ) : QueueCall δ → Prop
  | .arrive _ => True
  | .drain len => len = 0 ∨ (queued s).length ≤ 1

/-- The calls with the number of its arrival for each datagram, so that equal ones differ. -/
def number : ℕ → List (QueueCall δ) → List (QueueCall (ℕ×δ))
  | _,[] => []
  | n,.arrive datagram::calls => .arrive (n,datagram)::number (n+1) calls
  | n,.drain len::calls => .drain len::number n calls

theorem drainLoop_eq (len : ℕ) (queue : List δ) :
    WebTransport.drainLoop len queue = (queue.reverse.take len,queue.take (queue.length-len)) := by
  induction len generalizing queue with
  | zero => simp [WebTransport.drainLoop]
  | succ len ih =>
    rcases List.eq_nil_or_concat queue with rfl | ⟨rest,next,rfl⟩
    · simp [WebTransport.drainLoop]
    · rw [List.concat_eq_append,WebTransport.drainLoop,List.getLast?_concat]
      simp only [List.dropLast_concat,ih,List.reverse_append,List.reverse_singleton,List.singleton_append,
        List.take_succ_cons,List.length_append,List.length_singleton,Nat.add_sub_add_right]
      rw [List.take_append_of_le_length (Nat.sub_le _ _)]

/-- Draining from the end keeps the order of different datagrams exactly if there is at
most one of them. -/
theorem conserves_drain_iff {s : WebTransport δ} (h : (queued s).Nodup) (len : ℕ) :
    Conserves queueStep queued arrived drained s (.drain len) ↔ AtMostOne s (.drain len) := by
  have hdrain : Conserves queueStep queued arrived drained s (.drain len) ↔
      queued s = (queued s).reverse.take len++(queued s).take ((queued s).length-len) := by
    simp only [Conserves,arrived,drained,queueStep,WebTransport.drainDatagrams,drainLoop_eq,List.append_nil]
    exact Iff.rfl
  rw [hdrain,AtMostOne]
  generalize queued s = queue at h ⊢
  cases len with
  | zero => simp
  | succ len =>
    rcases List.eq_nil_or_concat queue with rfl | ⟨rest,last,rfl⟩
    · simp
    · rw [List.concat_eq_append] at h ⊢
      have hlast : last ∉ rest := fun hmem =>
        (List.nodup_append.mp h).2.2 last hmem last (List.mem_singleton_self _) rfl
      cases rest with
      | nil => simp
      | cons first rest =>
        have hne : first ≠ last := by
          rintro rfl
          exact hlast (List.mem_cons_self ..)
        simp [hne]

theorem conserves_arrive (s : WebTransport δ) (datagram : δ) :
    Conserves queueStep queued arrived drained s (.arrive datagram) := rfl

/-- The queued datagrams are different, and have arrived before. -/
structure Numbered (n : ℕ) (s : WebTransport (ℕ×δ)) : Prop where
  nodup : (queued s).Nodup
  lt : ∀ datagram ∈ queued s, datagram.1 < n

theorem numbered_arrive {n : ℕ} {s : WebTransport (ℕ×δ)} (h : Numbered n s) (datagram : δ) :
    Numbered (n+1) (queueStep s (.arrive (n,datagram))) where
  nodup := by
    have hnew : (n,datagram) ∉ queued s := fun hmem => Nat.lt_irrefl n (h.lt _ hmem)
    exact List.nodup_append.mpr ⟨h.nodup,List.nodup_singleton _,fun a ha b hb => by
      rw [List.mem_singleton.mp hb]
      rintro rfl
      exact hnew ha⟩
  lt other hmem := by
    rcases List.mem_append.mp hmem with hmem | hmem
    · exact Nat.lt_succ_of_lt (h.lt other hmem)
    · rw [List.mem_singleton.mp hmem]
      exact Nat.lt_succ_self n

theorem numbered_drain {n : ℕ} {s : WebTransport (ℕ×δ)} (h : Numbered n s) (len : ℕ) :
    Numbered n (queueStep s (.drain len)) := by
  have hqueued : queued (queueStep s (.drain len)) = (queued s).take ((queued s).length-len) := by
    simp only [queueStep,WebTransport.drainDatagrams,drainLoop_eq]
    rfl
  constructor
  · rw [hqueued]
    exact h.nodup.sublist (List.take_sublist _ _)
  · rw [hqueued]
    exact fun datagram hmem => h.lt datagram (List.mem_of_mem_take hmem)

theorem along_conserves_iff {n : ℕ} {s : WebTransport (ℕ×δ)} (h : Numbered n s) (calls : List (QueueCall δ)) :
    Along queueStep (Conserves queueStep queued arrived drained) s (number n calls) ↔
      Along queueStep AtMostOne s (number n calls) := by
  induction calls generalizing n s with
  | nil => exact Iff.rfl
  | cons call calls ih =>
    cases call with
    | arrive datagram =>
      exact and_congr (iff_of_true (conserves_arrive s (n,datagram)) trivial) (ih (numbered_arrive h datagram))
    | drain len => exact and_congr (conserves_drain_iff h.nodup len) (ih (numbered_drain h len))

end Datagrams

/-- The registry counts closed sessions: a session can be created exactly if fewer than
`maxSessions` are open as long as no room made by closing is needed. `connect` does not
count: the sessions stay within the limit as long as they are asked for while there is room. -/
theorem sessionLimit_iff (maxSessions : UInt32) (registryCalls : List WebTransportRegistries.Call)
    (quicConn : Connection) (calls : List Call) :
    (Along (WebTransportRegistries.step maxSessions) (WebTransportRegistries.CreatesExactly maxSessions) .new
        registryCalls ↔
      Along (WebTransportRegistries.step maxSessions) (WebTransportRegistries.NotSpent maxSessions) .new
        registryCalls) ∧
    (Along (step maxSessions) (WithinLimit maxSessions) (⟨quicConn,[]⟩ : Handles (List UInt8)) calls ↔
      Along (step maxSessions) (RoomFor maxSessions) (⟨quicConn,[]⟩ : Handles (List UInt8)) calls) :=
  ⟨WebTransportRegistries.along_createsExactly_iff maxSessions registryCalls,
    along_withinLimit_iff quicConn maxSessions calls⟩

/-- The queue of the registry is always drained in order. That of a handle is exactly if
every drain that has room meets at most one datagram. -/
theorem datagramOrder_iff (maxSessions : UInt32) (registryCalls : List WebTransportRegistries.Call) (sessionId : ℕ)
    (datagramsEnabled : Bool) (calls : List (QueueCall (List UInt8))) :
    InOrder (WebTransportRegistries.step maxSessions) WebTransportRegistries.queued WebTransportRegistries.arrived
      WebTransportRegistries.delivered .new registryCalls ∧
    (InOrder queueStep queued arrived drained ⟨⟨sessionId,datagramsEnabled,[]⟩,false⟩ (number 0 calls) ↔
      Along queueStep AtMostOne ⟨⟨sessionId,datagramsEnabled,[]⟩,false⟩ (number 0 calls)) := by
  refine ⟨inOrder_iff.mpr (WebTransportRegistries.along_conserves .new registryCalls),?_⟩
  have hempty : Numbered 0 (⟨⟨sessionId,datagramsEnabled,[]⟩,false⟩ : WebTransport (ℕ×List UInt8)) :=
    ⟨List.Pairwise.nil,List.forall_mem_nil _⟩
  exact inOrder_iff.trans (along_conserves_iff hempty calls)

/-- With one session allowed, a session that is closed leaves no room for the next. -/
def createAgain : List WebTransportRegistries.Call :=
  [.createSession 1 true,.closeSession (some 0),.createSession 2 true]

/-- The registry refuses a session though none is open, and two connects make two live
sessions where one is allowed. -/
theorem sessionLimit_broken :
    ¬Along (WebTransportRegistries.step 1) (WebTransportRegistries.CreatesExactly 1) .new createAgain ∧
    ¬Along (step 1) (WithinLimit 1) (⟨⟨[],[],[]⟩,[]⟩ : Handles (List UInt8))
      [.connect true 5 true true,.connect true 6 true true] := by
  constructor
  · rintro ⟨-,-,h,-⟩
    exact h.mpr (by decide) rfl
  · rintro ⟨-,h,-⟩
    exact absurd h (by unfold WithinLimit; decide)

/-- Two datagrams are drained in reverse. -/
theorem drained_reversed :
    ¬InOrder queueStep queued arrived drained (⟨⟨5,true,[]⟩,false⟩ : WebTransport (ℕ×List UInt8))
      (number 0 [.arrive [1],.arrive [2],.drain 2]) := by
  intro h
  exact absurd (h 3) (by decide)

end ZNet.WebTransports
