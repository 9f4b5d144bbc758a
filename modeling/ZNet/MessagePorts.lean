import ZNet.Heaps
import ZNet.Runs
import Mathlib.Tactic.Common

/-!
# Message ports

Two ports that are connected hold each other's address. Closing a port frees it, and its peer
keeps the address of what was freed.
-/

namespace ZNet.MessagePorts
open Tables Heaps Runs

abbrev PortId := Vector UInt8 16
abbrev WorkerId := Vector UInt8 16

/-- Ports are passed around by their addresses. -/
abbrev Ptr := ℕ

/-- The functions that listen to a port are numbered. -/
abbrev MessageHandler := ℕ

inductive MessageType
  | message | error | ping | pong
deriving DecidableEq

structure Message (δ : Type) where
  data : Option δ
  portId : PortId
  timestamp : ℤ
  type : MessageType
deriving DecidableEq

inductive MessageEventType
  | message | messageError | ping | pong
deriving DecidableEq

def MessageEventType.tagName : MessageEventType → String
  | .message => "MESSAGE"
  | .messageError => "MESSAGE_ERROR"
  | .ping => "PING"
  | .pong => "PONG"

inductive PortError
  | portClosed | portNotFound
deriving DecidableEq

structure MessagePort (δ : Type) where
  id : PortId
  ownerWorker : WorkerId
  peerPort : Option Ptr
  eventHandlers : Table String MessageHandler
  messageQueue : List (Message δ)
  isClosed : Bool
  createdAt : ℤ

variable {δ : Type}

namespace MessagePort

def init (id : PortId) (ownerWorker : WorkerId) (now : ℤ) : MessagePort δ :=
  ⟨id,ownerWorker,none,∅,[],false,now⟩

def append (message : Message δ) (self : MessagePort δ) : MessagePort δ :=
  { self with messageQueue := self.messageQueue++[message] }

def shut (self : MessagePort δ) : MessagePort δ := { self with isClosed := true, messageQueue := [] }

def pair (peer : Ptr) (self : MessagePort δ) : MessagePort δ := { self with peerPort := some peer }

/-- The handler that is called when a message comes in. -/
def listener (self : MessagePort δ) : Option MessageHandler := self.eventHandlers.lookup "message"

end MessagePort

abbrev Ports (δ : Type) := Heap (MessagePort δ)

/-- The handlers that are called, and the ports. -/
def enqueueMessage (heap : Ports δ) (self : Ptr) (message : Message δ) : Option (List MessageHandler×Ports δ) :=
  match heap.load self with
  | none => none
  | some port => (heap.modify self (.append message)).map (port.listener.toList,·)

/-- What was posted and the handlers that were called, or an error, and the ports. -/
def postMessage (heap : Ports δ) (self : Ptr) (data : δ) (now : ℤ) :
    Option (Except PortError (Message δ×List MessageHandler)×Ports δ) :=
  match heap.load self with
  | none => none
  | some port =>
    if port.isClosed then some (.error .portClosed,heap)
    else
      let message : Message δ := ⟨some data,port.id,now,.message⟩
      match heap.modify self (.append message) with
      | none => none
      | some heap =>
        match port.peerPort with
        | none => some (.ok (message,port.listener.toList),heap)
        | some peer =>
          (enqueueMessage heap peer message).map fun (called,heap) =>
            (.ok (message,called++port.listener.toList),heap)

def start (heap : Ports δ) (self peer : Ptr) : Option (Ports δ) :=
  (heap.modify self (.pair peer)).bind (·.modify peer (.pair self))

def close (heap : Ports δ) (self : Ptr) : Option (Ports δ) :=
  match heap.load self with
  | none => none
  | some port =>
    match port.peerPort with
    | none => heap.modify self .shut
    | some peer => (heap.modify self .shut).bind (·.modify peer .shut)

def addEventListener (heap : Ports δ) (self : Ptr) (event : MessageEventType) (handler : MessageHandler) :
    Option (Ports δ) :=
  heap.modify self fun port => { port with eventHandlers := port.eventHandlers.insert event.tagName handler }

def removeEventListener (heap : Ports δ) (self : Ptr) (event : MessageEventType) : Option (Ports δ) :=
  heap.modify self fun port => { port with eventHandlers := port.eventHandlers.erase event.tagName }

structure MessageManager (δ : Type) where
  heap : Ports δ
  ports : Table PortId Ptr
  workerPorts : Table WorkerId (List PortId)

/-- What has happened to the ports. -/
inductive Event (δ : Type)
  | connected (p q : Ptr)
  | posted (p : Ptr) (message : Message δ) (called : List MessageHandler)
  | pinged (p : Ptr) (message : Message δ) (called : List MessageHandler)
  | closed (p : Ptr)
deriving DecidableEq

namespace MessageManager

def init : MessageManager δ := ⟨.empty,∅,∅⟩

def associateWorkerWithPort (self : MessageManager δ) (workerId : WorkerId) (portId : PortId) : MessageManager δ :=
  match self.workerPorts.lookup workerId with
  | some list =>
    if portId ∈ list then self else { self with workerPorts := self.workerPorts.insert workerId (list++[portId]) }
  | none => { self with workerPorts := self.workerPorts.insert workerId [portId] }

def disassociateWorkerFromPort (self : MessageManager δ) (workerId : WorkerId) (portId : PortId) : MessageManager δ :=
  match self.workerPorts.lookup workerId with
  | some list => { self with workerPorts := self.workerPorts.insert workerId (list.erase portId) }
  | none => self

/-- The identity of the port is drawn at random. -/
def createPort (self : MessageManager δ) (worker : WorkerId) (id : PortId) (now : ℤ) : Ptr×MessageManager δ :=
  let (port,heap) := self.heap.alloc (.init id worker now)
  (port,{ self with heap := heap, ports := self.ports.insert id port }.associateWorkerWithPort worker id)

def connectPorts (self : MessageManager δ) (port1 port2 : Ptr) : Option (MessageManager δ) :=
  (start self.heap port1 port2).map fun heap => { self with heap := heap }

/-- What happened, unless it was refused, and the manager. -/
def postMessageToPort (self : MessageManager δ) (portId : PortId) (data : δ) (now : ℤ) :
    Option (Except PortError (List (Event δ))×MessageManager δ) :=
  match self.ports.lookup portId with
  | none => some (.error .portNotFound,self)
  | some port =>
    (postMessage self.heap port data now).map fun (result,heap) =>
      (result.map fun (message,called) => [.posted port message called],{ self with heap := heap })

def pingPort (self : MessageManager δ) (portId : PortId) (now : ℤ) :
    Option (Except PortError (List (Event δ))×MessageManager δ) :=
  match self.ports.lookup portId with
  | none => some (.error .portNotFound,self)
  | some p =>
    match self.heap.load p with
    | none => none
    | some port =>
      let message : Message δ := ⟨none,port.id,now,.ping⟩
      (enqueueMessage self.heap p message).map fun (called,heap) =>
        (.ok [.pinged p message called],{ self with heap := heap })

def closePort (self : MessageManager δ) (portId : PortId) : Option (Except PortError Unit×MessageManager δ) :=
  match self.ports.lookup portId with
  | none => some (.error .portNotFound,self)
  | some p =>
    match close self.heap p with
    | none => none
    | some heap =>
      match heap.load p with
      | none => none
      | some port =>
        let removed := { self with heap := heap, ports := self.ports.erase portId }.disassociateWorkerFromPort
          port.ownerWorker portId
        (removed.heap.free p).map fun heap => (.ok (),{ removed with heap := heap })

/-- A post that is refused ends the loop. -/
def broadcastTo (self : MessageManager δ) (data : δ) (now : PortId → ℤ) :
    List PortId → Option (Except PortError Unit×List (Event δ)×MessageManager δ)
  | [] => some (.ok (),[],self)
  | portId::portIds =>
    match self.ports.lookup portId with
    | none => self.broadcastTo data now portIds
    | some _ =>
      match self.postMessageToPort portId data (now portId) with
      | none => none
      | some (.error e,self) => some (.error e,[],self)
      | some (.ok events,self) =>
        (self.broadcastTo data now portIds).map fun (result,rest,self) => (result,events++rest,self)

def broadcastToWorker (self : MessageManager δ) (workerId : WorkerId) (data : δ) (now : PortId → ℤ) :
    Option (Except PortError Unit×List (Event δ)×MessageManager δ) :=
  match self.workerPorts.lookup workerId with
  | none => some (.ok (),[],self)
  | some portIds => self.broadcastTo data now portIds

end MessageManager

inductive Call (δ : Type)
  | createPort (worker : WorkerId) (id : PortId) (now : ℤ)
  | connectPorts (port1 port2 : Ptr)
  | postMessageToPort (portId : PortId) (data : δ) (now : ℤ)
  | pingPort (portId : PortId) (now : ℤ)
  | closePort (portId : PortId)
  | broadcastToWorker (workerId : WorkerId) (data : δ) (now : PortId → ℤ)
  | addEventListener (port : Ptr) (event : MessageEventType) (handler : MessageHandler)
  | removeEventListener (port : Ptr) (event : MessageEventType)

/-- What happens in a call, the first event first, and unless it touches a freed port the
manager after it. -/
def perform (m : MessageManager δ) : Call δ → List (Event δ)×Option (MessageManager δ)
  | .createPort worker id now => ([],some (m.createPort worker id now).2)
  | .connectPorts port1 port2 => ([.connected port1 port2],m.connectPorts port1 port2)
  | .postMessageToPort portId data now =>
    match m.postMessageToPort portId data now with
    | none => ([],none)
    | some (result,m) => (result.toOption.getD [],some m)
  | .pingPort portId now =>
    match m.pingPort portId now with
    | none => ([],none)
    | some (result,m) => (result.toOption.getD [],some m)
  | .closePort portId => ((m.ports.lookup portId).toList.map .closed,(m.closePort portId).map Prod.snd)
  | .broadcastToWorker workerId data now =>
    match m.broadcastToWorker workerId data now with
    | none => ([],none)
    | some (_,events,m) => (events,some m)
  | .addEventListener port event handler =>
    ([],(addEventListener m.heap port event handler).map fun heap => { m with heap := heap })
  | .removeEventListener port event =>
    ([],(removeEventListener m.heap port event).map fun heap => { m with heap := heap })

/-- The manager, unless a freed port has been touched, and what has happened, the last event
first. -/
structure World (δ : Type) where
  manager : Option (MessageManager δ)
  history : List (Event δ)

def World.init : World δ := ⟨some .init,[]⟩

def step (s : World δ) (call : Call δ) : World δ :=
  match s.manager with
  | none => s
  | some m => ⟨(perform m call).2,(perform m call).1.reverse++s.history⟩

/-- The handlers that were called. -/
def Event.called : Event δ → List MessageHandler
  | .posted _ _ called => called
  | .pinged _ _ called => called
  | _ => []

/-- Ports are connected in calls of `connectPorts` and closed in calls of `closePort`, and no
handler is called. -/
def Event.Regular (call : Call δ) : Event δ → Prop
  | .connected p q => call = .connectPorts p q
  | .posted _ message called => message.type = .message ∧ called = []
  | .pinged _ message called => message.type = .ping ∧ called = []
  | .closed _ => ∃ id, call = .closePort id

/-- A new port has an identity of its own, and callers pass ports that have not been freed and
connect two of them. -/
def MessageManager.Legal (m : MessageManager δ) : Call δ → Prop
  | .createPort _ id _ => (m.ports.lookup id).isNone
  | .connectPorts p q => p ≠ q ∧ (m.heap.load p).isSome ∧ (m.heap.load q).isSome
  | .addEventListener p _ _ => (m.heap.load p).isSome
  | .removeEventListener p _ => (m.heap.load p).isSome
  | _ => True

instance (m : MessageManager δ) : (call : Call δ) → Decidable (m.Legal call)
  | .createPort _ id _ => inferInstanceAs (Decidable ((m.ports.lookup id).isNone = true))
  | .connectPorts p q => inferInstanceAs (Decidable (p ≠ q ∧ (m.heap.load p).isSome ∧ (m.heap.load q).isSome))
  | .addEventListener p _ _ => inferInstanceAs (Decidable ((m.heap.load p).isSome = true))
  | .removeEventListener p _ => inferInstanceAs (Decidable ((m.heap.load p).isSome = true))
  | .postMessageToPort _ _ _ => .isTrue trivial
  | .pingPort _ _ => .isTrue trivial
  | .closePort _ => .isTrue trivial
  | .broadcastToWorker _ _ _ => .isTrue trivial

def Legal (s : World δ) (call : Call δ) : Prop := ∀ m ∈ s.manager, m.Legal call

instance (s : World δ) (call : Call δ) : Decidable (Legal s call) :=
  inferInstanceAs (Decidable (∀ m ∈ s.manager, m.Legal call))

/-! What a history says of a port. -/

/-- The port that the last connection of a port has at its other end. -/
def peer : List (Event δ) → Ptr → Option Ptr
  | [],_ => none
  | .connected a b::history,p => if p = b then some a else if p = a then some b else peer history p
  | _::history,p => peer history p

/-- The port or one that was connected to it has been closed. -/
def shut : List (Event δ) → Ptr → Bool
  | [],_ => false
  | .closed q::history,p => decide (p = q ∨ peer history q = some p) || shut history p
  | _::history,p => shut history p

/-- What was posted to the port itself or to one that is connected to it, since either was
closed, in the order in which it was posted. -/
def inbox : List (Event δ) → Ptr → List (Message δ)
  | [],_ => []
  | .posted q message _::history,p =>
    if p = q ∨ peer history q = some p then inbox history p++[message] else inbox history p
  | .pinged q message _::history,p => if p = q then inbox history p++[message] else inbox history p
  | .closed q::history,p => if p = q ∨ peer history q = some p then [] else inbox history p
  | .connected _ _::history,p => inbox history p

variable {heap heap' : Ports δ} {p q : ℕ} {port : MessagePort δ} {history : List (Event δ)}

@[simp] theorem append_listener (message : Message δ) (port : MessagePort δ) :
    (port.append message).listener = port.listener := rfl

@[simp] theorem shut_listener (port : MessagePort δ) : port.shut.listener = port.listener := rfl

@[simp] theorem pair_listener (peer : Ptr) (port : MessagePort δ) : (port.pair peer).listener = port.listener := rfl

section Operations

theorem enqueueMessage_changed (hload : heap.load p = some port) (message : Message δ) :
    ∃ heap', enqueueMessage heap p message = some (port.listener.toList,heap') ∧
      heap.Changed heap' fun q v => if q = p then v.append message else v := by
  obtain ⟨heap',hmodify,hchanged⟩ := Heap.modify_of_load hload (.append message)
  exact ⟨heap',by simp [enqueueMessage,hload,hmodify],hchanged⟩

theorem postMessage_closed (hload : heap.load p = some port) (hclosed : port.isClosed = true) (data : δ) (now : ℤ) :
    postMessage heap p data now = some (.error .portClosed,heap) := by
  simp [postMessage,hload,hclosed]

/-- The port keeps a message of its own and gives it to its peer. -/
theorem postMessage_open (hload : heap.load p = some port) (hopen : port.isClosed = false)
    (hself : port.peerPort ≠ some p) (hpeer : ∀ q, port.peerPort = some q → ∃ w, heap.load q = some w)
    (hunheard : ∀ q w, heap.load q = some w → w.listener = none) (data : δ) (now : ℤ) :
    ∃ heap', postMessage heap p data now = some (.ok (⟨some data,port.id,now,.message⟩,[]),heap') ∧
      heap.Changed heap' fun q v =>
        if q = p ∨ port.peerPort = some q then v.append ⟨some data,port.id,now,.message⟩ else v := by
  obtain ⟨heap₁,hmodify,hchanged⟩ := Heap.modify_of_load hload (.append ⟨some data,port.id,now,.message⟩)
  have hport := hunheard p port hload
  cases hpeerPort : port.peerPort with
  | none =>
    refine ⟨heap₁,by simp [postMessage,hload,hopen,hmodify,hpeerPort,hport],?_⟩
    exact hchanged.congr fun q v _ => by simp
  | some q =>
    obtain ⟨w,hw⟩ := hpeer q hpeerPort
    have hne : q ≠ p := fun h => hself (h ▸ hpeerPort)
    have hw₁ : heap₁.load q = some w := by simp [hchanged.load,hw,hne]
    obtain ⟨heap₂,henqueue,hchanged₂⟩ := enqueueMessage_changed hw₁ ⟨some data,port.id,now,.message⟩
    refine ⟨heap₂,by simp [postMessage,hload,hopen,hmodify,hpeerPort,hport,henqueue,hunheard q w hw],?_⟩
    apply (hchanged.trans hchanged₂).congr
    intro r v _
    by_cases hr : r = p
    · simp [hr,Ne.symm hne]
    · by_cases hrq : r = q
      · simp [hrq,hne]
      · simp [hr,hrq,Ne.symm hrq]

theorem postMessage_dangling (hload : heap.load p = some port) (hopen : port.isClosed = false)
    (hpeer : port.peerPort = some q) (hq : heap.load q = none) (data : δ) (now : ℤ) :
    postMessage heap p data now = none := by
  obtain ⟨heap₁,hmodify,hchanged⟩ := Heap.modify_of_load hload (.append ⟨some data,port.id,now,.message⟩)
  have hq₁ : heap₁.load q = none := by simp [hchanged.load,hq]
  simp [postMessage,hload,hopen,hmodify,hpeer,enqueueMessage,hq₁]

theorem start_changed (hp : (heap.load p).isSome) (hq : (heap.load q).isSome) (hne : p ≠ q) :
    ∃ heap', start heap p q = some heap' ∧
      heap.Changed heap' fun r v => if r = q then v.pair p else if r = p then v.pair q else v := by
  obtain ⟨v,hv⟩ := Option.isSome_iff_exists.mp hp
  obtain ⟨w,hw⟩ := Option.isSome_iff_exists.mp hq
  obtain ⟨heap₁,hmodify,hchanged⟩ := Heap.modify_of_load hv (.pair q)
  have hw₁ : heap₁.load q = some w := by simp [hchanged.load,hw,Ne.symm hne]
  obtain ⟨heap₂,hmodify₂,hchanged₂⟩ := Heap.modify_of_load hw₁ (.pair p)
  refine ⟨heap₂,by simp [start,hmodify,hmodify₂],?_⟩
  apply (hchanged.trans hchanged₂).congr
  intro r v _
  by_cases hr : r = p
  · simp [hr,hne]
  · simp [hr]

/-- The port and its peer are closed and emptied. -/
theorem close_changed (hload : heap.load p = some port) (hself : port.peerPort ≠ some p)
    (hpeer : ∀ q, port.peerPort = some q → ∃ w, heap.load q = some w) :
    ∃ heap', close heap p = some heap' ∧
      heap.Changed heap' fun q v => if q = p ∨ port.peerPort = some q then v.shut else v := by
  obtain ⟨heap₁,hmodify,hchanged⟩ := Heap.modify_of_load hload .shut
  cases hpeerPort : port.peerPort with
  | none =>
    refine ⟨heap₁,by simp [close,hload,hpeerPort,hmodify],?_⟩
    exact hchanged.congr fun q v _ => by simp
  | some q =>
    obtain ⟨w,hw⟩ := hpeer q hpeerPort
    have hne : q ≠ p := fun h => hself (h ▸ hpeerPort)
    have hw₁ : heap₁.load q = some w := by simp [hchanged.load,hw,hne]
    obtain ⟨heap₂,hmodify₂,hchanged₂⟩ := Heap.modify_of_load hw₁ .shut
    refine ⟨heap₂,by simp [close,hload,hpeerPort,hmodify,hmodify₂],?_⟩
    apply (hchanged.trans hchanged₂).congr
    intro r v _
    by_cases hr : r = p
    · simp [hr,Ne.symm hne]
    · by_cases hrq : r = q
      · simp [hrq,hne]
      · simp [hr,hrq,Ne.symm hrq]

/-- A peer that has been freed is written to. -/
theorem close_dangling (hload : heap.load p = some port)
    (hpeer : port.peerPort = some q) (hq : heap.load q = none) : close heap p = none := by
  obtain ⟨heap₁,hmodify,hchanged⟩ := Heap.modify_of_load hload .shut
  have hq₁ : heap₁.load q = none := by simp [hchanged.load,hq]
  simp [close,hload,hpeer,hmodify,Heap.modify_of_load_none hq₁]

end Operations

/-- The port is what the history says of it, and nobody listens to it. -/
structure Described (history : List (Event δ)) (p : Ptr) (port : MessagePort δ) : Prop where
  peerPort : port.peerPort = peer history p
  isClosed : port.isClosed = shut history p
  messageQueue : port.messageQueue = inbox history p
  listener : port.listener = none

/-- The history does not speak of the port. -/
structure Unnamed (history : List (Event δ)) (p : Ptr) : Prop where
  peer_eq : peer history p = none
  peer_ne : ∀ q, peer history q ≠ some p
  shut_eq : shut history p = false
  inbox_eq : inbox history p = []

structure Reflects (m : MessageManager δ) (history : List (Event δ)) : Prop where
  registered : ∀ a p, m.ports.lookup a = some p → ∃ port, m.heap.load p = some port ∧ port.id = a
  known : ∀ p port, m.heap.load p = some port → m.ports.lookup port.id = some p
  described : ∀ p port, m.heap.load p = some port → Described history p port
  unnamed : ∀ p, m.heap.next ≤ p → Unnamed history p
  distinct : ∀ p, peer history p ≠ some p
  freed : ∀ p, .closed p ∈ history ↔ m.heap.Dangling p

section Refinement

variable {m m' : MessageManager δ}

theorem Reflects.init : Reflects (.init : MessageManager δ) [] where
  registered a p h := by simp [MessageManager.init] at h
  known p port h := by simp [MessageManager.init] at h
  described p port h := by simp [MessageManager.init] at h
  unnamed p _ := ⟨rfl,by simp [peer],rfl,rfl⟩
  distinct p := by simp [peer]
  freed p := by simp [MessageManager.init,Heap.Dangling,Heap.empty]

theorem Reflects.lt_next (h : Reflects m history) (hpeer : peer history p = some q) : q < m.heap.next := by
  by_contra hge
  exact (h.unnamed q (Nat.not_lt.mp hge)).peer_ne p hpeer

/-- The ports are changed, and the history tells it. -/
theorem Reflects.changed (h : Reflects m history) {history' : List (Event δ)} {f : Ptr → MessagePort δ → MessagePort δ}
    (hchanged : m.heap.Changed heap' f) (hid : ∀ q v, (f q v).id = v.id)
    (hdescribed : ∀ q v, m.heap.load q = some v → Described history q v → Described history' q (f q v))
    (hunnamed : ∀ q, m.heap.next ≤ q → Unnamed history q → Unnamed history' q)
    (hdistinct : ∀ q, peer history' q ≠ some q) (hclosed : ∀ q, .closed q ∈ history' ↔ .closed q ∈ history) :
    Reflects { m with heap := heap' } history' where
  registered a p hlookup := by
    obtain ⟨port,hload,ha⟩ := h.registered a p hlookup
    exact ⟨f p port,by simp [hchanged.load,hload],by rw [hid,ha]⟩
  known p port hload := by
    rw [hchanged.load,Option.map_eq_some_iff] at hload
    obtain ⟨v,hv,rfl⟩ := hload
    rw [hid]
    exact h.known p v hv
  described p port hload := by
    rw [hchanged.load,Option.map_eq_some_iff] at hload
    obtain ⟨v,hv,rfl⟩ := hload
    exact hdescribed p v hv (h.described p v hv)
  unnamed p hp := by
    rw [hchanged.next] at hp
    exact hunnamed p hp (h.unnamed p hp)
  distinct := hdistinct
  freed p := by rw [hclosed,h.freed,hchanged.dangling_iff]

theorem Reflects.posted (h : Reflects m history) (hload : m.heap.load p = some port) {message : Message δ}
    (hchanged : m.heap.Changed heap' fun q v => if q = p ∨ port.peerPort = some q then v.append message else v) :
    Reflects { m with heap := heap' } (.posted p message []::history) := by
  have hpeer := (h.described p port hload).peerPort
  apply h.changed hchanged
  · intro q v
    split <;> rfl
  · intro q v _ hd
    rw [hpeer]
    by_cases hq : q = p ∨ peer history p = some q
    · simp only [if_pos hq]
      exact ⟨hd.peerPort,hd.isClosed,by simp [inbox,hq,MessagePort.append,hd.messageQueue],hd.listener⟩
    · simp only [if_neg hq]
      exact ⟨hd.peerPort,hd.isClosed,by simp [inbox,hq,hd.messageQueue],hd.listener⟩
  · intro q hq hu
    have hne : q ≠ p := fun e => Nat.not_lt.mpr hq (e ▸ Heap.lt_of_load hload)
    exact ⟨hu.peer_eq,hu.peer_ne,hu.shut_eq,by simp [inbox,hne,hu.peer_ne p,hu.inbox_eq]⟩
  · exact h.distinct
  · simp

theorem Reflects.pinged (h : Reflects m history) (hload : m.heap.load p = some port) {message : Message δ}
    (hchanged : m.heap.Changed heap' fun q v => if q = p then v.append message else v) :
    Reflects { m with heap := heap' } (.pinged p message []::history) := by
  apply h.changed hchanged
  · intro q v
    split <;> rfl
  · intro q v _ hd
    by_cases hq : q = p
    · subst hq
      simp only [if_true]
      exact ⟨hd.peerPort,hd.isClosed,by simp [inbox,MessagePort.append,hd.messageQueue],hd.listener⟩
    · simp only [if_neg hq]
      exact ⟨hd.peerPort,hd.isClosed,by simp [inbox,hq,hd.messageQueue],hd.listener⟩
  · intro q hq hu
    have hne : q ≠ p := fun e => Nat.not_lt.mpr hq (e ▸ Heap.lt_of_load hload)
    exact ⟨hu.peer_eq,hu.peer_ne,hu.shut_eq,by simp [inbox,hne,hu.inbox_eq]⟩
  · exact h.distinct
  · simp

theorem Reflects.connected (h : Reflects m history) (hp : p < m.heap.next) (hq : q < m.heap.next) (hne : p ≠ q)
    (hchanged : m.heap.Changed heap' fun r v => if r = q then v.pair p else if r = p then v.pair q else v) :
    Reflects { m with heap := heap' } (.connected p q::history) := by
  apply h.changed hchanged
  · intro r v
    split
    · rfl
    · split <;> rfl
  · intro r v _ hd
    by_cases hrq : r = q
    · simp only [if_pos hrq]
      exact ⟨by simp [peer,hrq,MessagePort.pair],hd.isClosed,hd.messageQueue,hd.listener⟩
    · by_cases hrp : r = p
      · simp only [if_neg hrq,if_pos hrp]
        exact ⟨by simp [peer,hrp,hne,MessagePort.pair],hd.isClosed,hd.messageQueue,hd.listener⟩
      · simp only [if_neg hrq,if_neg hrp]
        exact ⟨by simp [peer,hrq,hrp,hd.peerPort],hd.isClosed,hd.messageQueue,hd.listener⟩
  · intro r hr hu
    have hrp : p ≠ r := Nat.ne_of_lt (Nat.lt_of_lt_of_le hp hr)
    have hrq : q ≠ r := Nat.ne_of_lt (Nat.lt_of_lt_of_le hq hr)
    refine ⟨by simp [peer,hrp.symm,hrq.symm,hu.peer_eq],fun r' => ?_,hu.shut_eq,hu.inbox_eq⟩
    rw [peer]
    split
    · simpa using hrp
    · split
      · simpa using hrq
      · exact hu.peer_ne r'
  · intro r
    rw [peer]
    split
    · rename_i hr
      simpa [hr] using hne
    · split
      · rename_i hr
        simpa [hr] using hne.symm
      · exact h.distinct r
  · simp

/-- A change of the handlers under a tag leaves the port as it was for whoever posts to it. -/
theorem Reflects.relistened (h : Reflects m history) {f : Table String MessageHandler → Table String MessageHandler}
    (hf : ∀ handlers, (f handlers).lookup "message" = handlers.lookup "message")
    (hmodify : m.heap.modify p (fun port => { port with eventHandlers := f port.eventHandlers }) = some heap') :
    Reflects { m with heap := heap' } history := by
  apply h.changed (Heap.modify_changed hmodify).2
  · intro q v
    split <;> rfl
  · intro q v _ hd
    split
    · exact ⟨hd.peerPort,hd.isClosed,hd.messageQueue,(hf v.eventHandlers).trans hd.listener⟩
    · exact hd
  · exact fun _ _ hu => hu
  · exact h.distinct
  · exact fun _ => Iff.rfl

@[simp] theorem associate_heap (m : MessageManager δ) (worker : WorkerId) (id : PortId) :
    (m.associateWorkerWithPort worker id).heap = m.heap := by
  rw [MessageManager.associateWorkerWithPort]
  split
  · split <;> rfl
  · rfl

@[simp] theorem associate_ports (m : MessageManager δ) (worker : WorkerId) (id : PortId) :
    (m.associateWorkerWithPort worker id).ports = m.ports := by
  rw [MessageManager.associateWorkerWithPort]
  split
  · split <;> rfl
  · rfl

@[simp] theorem disassociate_heap (m : MessageManager δ) (worker : WorkerId) (id : PortId) :
    (m.disassociateWorkerFromPort worker id).heap = m.heap := by
  rw [MessageManager.disassociateWorkerFromPort]
  split <;> rfl

@[simp] theorem disassociate_ports (m : MessageManager δ) (worker : WorkerId) (id : PortId) :
    (m.disassociateWorkerFromPort worker id).ports = m.ports := by
  rw [MessageManager.disassociateWorkerFromPort]
  split <;> rfl

/-- All that is said of the manager is said of its ports. -/
theorem Reflects.congr (h : Reflects m history) (hheap : m'.heap = m.heap) (hports : m'.ports = m.ports) :
    Reflects m' history := by
  obtain ⟨heap,ports,workerPorts⟩ := m
  obtain ⟨heap',ports',workerPorts'⟩ := m'
  subst hheap hports
  exact ⟨h.registered,h.known,h.described,h.unnamed,h.distinct,h.freed⟩

theorem Unnamed.described (hu : Unnamed history p) (id : PortId) (worker : WorkerId) (now : ℤ) :
    Described history p (.init id worker now) :=
  ⟨hu.peer_eq.symm,hu.shut_eq.symm,hu.inbox_eq.symm,by simp [MessagePort.listener,MessagePort.init]⟩

theorem Reflects.created (h : Reflects m history) {id : PortId} (hid : m.ports.lookup id = none) (worker : WorkerId)
    (now : ℤ) : Reflects (m.createPort worker id now).2 history := by
  refine Reflects.congr (m:={ m with heap := (m.heap.alloc (.init id worker now)).2, ports := m.ports.insert id m.heap.next })
    ⟨?_,?_,?_,?_,h.distinct,?_⟩ (by simp [MessageManager.createPort]) (by simp [MessageManager.createPort])
  · intro a p hlookup
    rw [lookup_insert_eq] at hlookup
    split at hlookup
    · rename_i ha
      cases hlookup
      exact ⟨.init id worker now,by simp,ha.symm⟩
    · obtain ⟨port,hload,ha⟩ := h.registered a p hlookup
      exact ⟨port,Heap.load_alloc_of_load hload _,ha⟩
  · intro p port hload
    rw [Heap.load_alloc] at hload
    split at hload
    · rename_i hp
      cases hload
      exact (AList.lookup_insert _).trans (congrArg some hp.symm)
    · have hknown := h.known p port hload
      have hne : port.id ≠ id := by
        intro e
        rw [e,hid] at hknown
        cases hknown
      rw [AList.lookup_insert_ne hne]
      exact hknown
  · intro p port hload
    rw [Heap.load_alloc] at hload
    split at hload
    · rename_i hp
      cases hload
      exact (h.unnamed p (Nat.le_of_eq hp.symm)).described id worker now
    · exact h.described p port hload
  · intro p hp
    exact h.unnamed p (Nat.le_of_succ_le hp)
  · intro p
    rw [h.freed]
    simp only [Heap.Dangling,Heap.next_alloc,Heap.load_alloc]
    by_cases hp : p = m.heap.next
    · simp [hp]
    · simp only [if_neg hp,Nat.lt_succ_iff,Nat.lt_iff_le_and_ne]
      simp [hp]

/-- Unless the peer has been freed, the port is closed with its peer and then freed. -/
theorem Reflects.closed (h : Reflects m history) {id : PortId} (hlookup : m.ports.lookup id = some p)
    {result : Except PortError Unit} (hclose : m.closePort id = some (result,m')) :
    Reflects m' (.closed p::history) := by
  obtain ⟨port,hload,hid⟩ := h.registered id p hlookup
  have hd := h.described p port hload
  have hself : port.peerPort ≠ some p := hd.peerPort ▸ h.distinct p
  have hpeer : ∀ q, port.peerPort = some q → ∃ w, m.heap.load q = some w := by
    intro q hq
    cases hw : m.heap.load q with
    | some w => exact ⟨w,rfl⟩
    | none => simp [MessageManager.closePort,hlookup,close_dangling hload hq hw] at hclose
  obtain ⟨heap₁,heq,hchanged⟩ := close_changed hload hself hpeer
  have hp₁ : heap₁.load p = some port.shut := by simp [hchanged.load,hload]
  obtain ⟨heap₂,hfree⟩ := Heap.free_of_load hp₁
  obtain ⟨hnext,hloads⟩ := Heap.free_eq_some hfree
  simp only [MessageManager.closePort,hlookup,heq,hp₁,disassociate_heap,hfree,Option.map_some,Option.some.injEq,
    Prod.mk.injEq] at hclose
  obtain ⟨-,rfl⟩ := hclose
  have hload₂ : ∀ q w, heap₂.load q = some w → q ≠ p ∧ ∃ v, m.heap.load q = some v ∧
      w = if q = p ∨ peer history p = some q then v.shut else v := by
    intro q w hw
    rw [hloads] at hw
    split at hw
    · cases hw
    · rename_i hq
      rw [hchanged.load,Option.map_eq_some_iff] at hw
      obtain ⟨v,hv,rfl⟩ := hw
      exact ⟨hq,v,hv,by rw [hd.peerPort]⟩
  refine Reflects.congr (m:={ m with heap := heap₂, ports := m.ports.erase id }) ⟨?_,?_,?_,?_,h.distinct,?_⟩ rfl
    (by simp)
  · intro a q ha
    obtain ⟨hne,ha⟩ := lookup_of_erase ha
    obtain ⟨v,hv,hva⟩ := h.registered a q ha
    have hq : q ≠ p := by
      rintro rfl
      rw [hload] at hv
      cases hv
      exact hne (hva.symm.trans hid)
    refine ⟨_,by rw [hloads,if_neg hq,hchanged.load,hv,Option.map_some],?_⟩
    rw [← hva]
    split <;> rfl
  · intro q w hw
    obtain ⟨hq,v,hv,rfl⟩ := hload₂ q w hw
    have hknown := h.known q v hv
    have hne : v.id ≠ id := by
      intro e
      rw [e,hlookup] at hknown
      exact hq (Option.some.inj hknown).symm
    have hsame : (if q = p ∨ peer history p = some q then v.shut else v).id = v.id := by split <;> rfl
    rw [hsame,AList.lookup_erase_ne hne]
    exact hknown
  · intro q w hw
    obtain ⟨hq,v,hv,rfl⟩ := hload₂ q w hw
    have hdv := h.described q v hv
    split
    · rename_i hshut
      exact ⟨hdv.peerPort,by simp [shut,hshut,MessagePort.shut],by simp [inbox,hshut,MessagePort.shut],hdv.listener⟩
    · rename_i hshut
      exact ⟨hdv.peerPort,by simp [shut,hshut,hdv.isClosed],by simp [inbox,hshut,hdv.messageQueue],hdv.listener⟩
  · intro q hq
    rw [hnext,hchanged.next] at hq
    have hu := h.unnamed q hq
    have hne : q ≠ p := fun e => Nat.not_lt.mpr hq (e ▸ Heap.lt_of_load hload)
    exact ⟨hu.peer_eq,hu.peer_ne,by simp [shut,hne,hu.peer_ne p,hu.shut_eq],by simp [inbox,hne,hu.peer_ne p,hu.inbox_eq]⟩
  · intro q
    have hlt := Heap.lt_of_load hload
    by_cases hq : q = p
    · simp [hq,Heap.Dangling,hnext,hchanged.next,hloads,hlt]
    · simp [hq,h.freed,Heap.Dangling,hnext,hchanged.next,hloads,hchanged.load]

theorem Event.Regular.called_eq {call : Call δ} {e : Event δ} (h : e.Regular call) : e.called = [] := by
  cases e with
  | connected p q => rfl
  | posted p message called => exact h.2
  | pinged p message called => exact h.2
  | closed p => rfl

/-- A post is refused, or the history tells it. -/
theorem Reflects.post (h : Reflects m history) {id : PortId} {data : δ} {now : ℤ}
    {result : Except PortError (List (Event δ))} (hpost : m.postMessageToPort id data now = some (result,m')) :
    (∃ e, result = .error e ∧ m' = m) ∨
      ∃ p message, result = .ok [.posted p message []] ∧ message.type = .message ∧
        Reflects m' (.posted p message []::history) := by
  cases hlookup : m.ports.lookup id with
  | none =>
    simp only [MessageManager.postMessageToPort,hlookup,Option.some.injEq,Prod.mk.injEq] at hpost
    exact Or.inl ⟨_,hpost.1.symm,hpost.2.symm⟩
  | some p =>
    obtain ⟨port,hload,-⟩ := h.registered id p hlookup
    have hd := h.described p port hload
    cases hclosed : port.isClosed with
    | true =>
      simp only [MessageManager.postMessageToPort,hlookup,postMessage_closed hload hclosed,Option.map_some,
        Option.some.injEq,Prod.mk.injEq] at hpost
      exact Or.inl ⟨_,hpost.1.symm,hpost.2.symm⟩
    | false =>
      have hpeer : ∀ q, port.peerPort = some q → ∃ w, m.heap.load q = some w := by
        intro q hq
        cases hw : m.heap.load q with
        | some w => exact ⟨w,rfl⟩
        | none => simp [MessageManager.postMessageToPort,hlookup,postMessage_dangling hload hclosed hq hw] at hpost
      obtain ⟨heap',heq,hchanged⟩ := postMessage_open hload hclosed (hd.peerPort ▸ h.distinct p) hpeer
        (fun q w hw => (h.described q w hw).listener) data now
      simp only [MessageManager.postMessageToPort,hlookup,heq,Option.map_some,Option.some.injEq,
        Prod.mk.injEq] at hpost
      obtain ⟨rfl,rfl⟩ := hpost
      exact Or.inr ⟨p,_,rfl,rfl,h.posted hload hchanged⟩

theorem Reflects.ping (h : Reflects m history) {id : PortId} {now : ℤ}
    {result : Except PortError (List (Event δ))} (hping : m.pingPort id now = some (result,m')) :
    (∃ e, result = .error e ∧ m' = m) ∨
      ∃ p message, result = .ok [.pinged p message []] ∧ message.type = .ping ∧
        Reflects m' (.pinged p message []::history) := by
  cases hlookup : m.ports.lookup id with
  | none =>
    simp only [MessageManager.pingPort,hlookup,Option.some.injEq,Prod.mk.injEq] at hping
    exact Or.inl ⟨_,hping.1.symm,hping.2.symm⟩
  | some p =>
    obtain ⟨port,hload,-⟩ := h.registered id p hlookup
    obtain ⟨heap',heq,hchanged⟩ := enqueueMessage_changed hload ⟨none,port.id,now,.ping⟩
    simp only [MessageManager.pingPort,hlookup,hload,heq,(h.described p port hload).listener,Option.map_some,
      Option.some.injEq,Prod.mk.injEq] at hping
    obtain ⟨rfl,rfl⟩ := hping
    exact Or.inr ⟨p,_,rfl,rfl,h.pinged hload hchanged⟩

theorem Reflects.broadcast (h : Reflects m history) {data : δ} {now : PortId → ℤ} {ids : List PortId}
    {result : Except PortError Unit} {events : List (Event δ)}
    (hbroadcast : m.broadcastTo data now ids = some (result,events,m')) (call : Call δ) :
    Reflects m' (events.reverse++history) ∧ ∀ e ∈ events, e.Regular call := by
  induction ids generalizing m history events result with
  | nil =>
    simp only [MessageManager.broadcastTo,Option.some.injEq,Prod.mk.injEq] at hbroadcast
    obtain ⟨-,rfl,rfl⟩ := hbroadcast
    exact ⟨h,by simp⟩
  | cons id ids ih =>
    rw [MessageManager.broadcastTo] at hbroadcast
    cases hlookup : m.ports.lookup id with
    | none =>
      simp only [hlookup] at hbroadcast
      exact ih h hbroadcast
    | some p =>
      simp only [hlookup] at hbroadcast
      cases hpost : m.postMessageToPort id data (now id) with
      | none => simp [hpost] at hbroadcast
      | some out =>
        obtain ⟨posted,m₁⟩ := out
        rcases h.post hpost with ⟨e,rfl,rfl⟩|⟨p,message,rfl,htype,h₁⟩
        · simp only [hpost,Option.some.injEq,Prod.mk.injEq] at hbroadcast
          obtain ⟨-,rfl,rfl⟩ := hbroadcast
          exact ⟨h,by simp⟩
        · simp only [hpost,Option.map_eq_some_iff,Prod.exists] at hbroadcast
          obtain ⟨_,rest,m₂,hrest,heq⟩ := hbroadcast
          simp only [Prod.mk.injEq] at heq
          obtain ⟨-,rfl,rfl⟩ := heq
          obtain ⟨h₂,hregular⟩ := ih h₁ hrest
          refine ⟨by simpa using h₂,?_⟩
          rintro e (_|⟨_,he⟩)
          · exact ⟨htype,rfl⟩
          · exact hregular e he

/-- The world is what its history says, and no handler has ever been called. -/
structure World.Reflected (s : World δ) : Prop where
  reflects : ∀ m, s.manager = some m → Reflects m s.history
  unheard : ∀ e ∈ s.history, e.called = []

theorem World.Reflected.init : (World.init : World δ).Reflected where
  reflects m h := by cases h; exact Reflects.init
  unheard e h := by cases h

theorem step_some {s : World δ} (hm : s.manager = some m) (call : Call δ) :
    step s call = ⟨(perform m call).2,(perform m call).1.reverse++s.history⟩ := by
  simp [step,hm]

theorem tag_ne_message (event : MessageEventType) : "message" ≠ event.tagName := by
  cases event <;> decide

/-- Every call keeps the ports and the history in agreement. -/
theorem reflects_perform (h : Reflects m history) (call : Call δ) (hlegal : m.Legal call) :
    (∀ m', (perform m call).2 = some m' → Reflects m' ((perform m call).1.reverse++history)) ∧
      ∀ e ∈ (perform m call).1, e.Regular call := by
  cases call with
  | createPort worker id now =>
    refine ⟨?_,by simp [perform]⟩
    intro m' hm'
    cases hm'
    exact h.created (Option.isNone_iff_eq_none.mp hlegal) worker now
  | connectPorts p q =>
    obtain ⟨hne,hp,hq⟩ := hlegal
    refine ⟨?_,by simp [perform,Event.Regular]⟩
    intro m' hm'
    obtain ⟨heap',hstart,hchanged⟩ := start_changed hp hq hne
    obtain ⟨v,hv⟩ := Option.isSome_iff_exists.mp hp
    obtain ⟨w,hw⟩ := Option.isSome_iff_exists.mp hq
    simp only [perform,MessageManager.connectPorts,hstart,Option.map_some,Option.some.injEq] at hm'
    subst hm'
    exact h.connected (Heap.lt_of_load hv) (Heap.lt_of_load hw) hne hchanged
  | postMessageToPort id data now =>
    cases hpost : m.postMessageToPort id data now with
    | none => simp [perform,hpost]
    | some out =>
      obtain ⟨result,m₁⟩ := out
      simp only [perform,hpost,Option.some.injEq,forall_eq']
      rcases h.post hpost with ⟨e,rfl,rfl⟩|⟨p,message,rfl,htype,h₁⟩
      · exact ⟨h,by simp [Except.toOption]⟩
      · exact ⟨h₁,by simp [Except.toOption,Event.Regular,htype]⟩
  | pingPort id now =>
    cases hping : m.pingPort id now with
    | none => simp [perform,hping]
    | some out =>
      obtain ⟨result,m₁⟩ := out
      simp only [perform,hping,Option.some.injEq,forall_eq']
      rcases h.ping hping with ⟨e,rfl,rfl⟩|⟨p,message,rfl,htype,h₁⟩
      · exact ⟨h,by simp [Except.toOption]⟩
      · exact ⟨h₁,by simp [Except.toOption,Event.Regular,htype]⟩
  | closePort id =>
    refine ⟨?_,?_⟩
    · intro m' hm'
      obtain ⟨⟨result,m₁⟩,hclose,rfl⟩ := Option.map_eq_some_iff.mp hm'
      cases hlookup : m.ports.lookup id with
      | none =>
        simp only [MessageManager.closePort,hlookup,Option.some.injEq,Prod.mk.injEq] at hclose
        simpa [perform,hlookup,← hclose.2] using h
      | some p => simpa [perform,hlookup] using h.closed hlookup hclose
    · intro e he
      simp only [perform,List.mem_map] at he
      obtain ⟨p,-,rfl⟩ := he
      exact ⟨id,rfl⟩
  | broadcastToWorker worker data now =>
    cases hworker : m.workerPorts.lookup worker with
    | none => simpa [perform,MessageManager.broadcastToWorker,hworker] using h
    | some ids =>
      cases hbroadcast : m.broadcastTo data now ids with
      | none => simp [perform,MessageManager.broadcastToWorker,hworker,hbroadcast]
      | some out =>
        obtain ⟨result,events,m₁⟩ := out
        simp only [perform,MessageManager.broadcastToWorker,hworker,hbroadcast,Option.some.injEq,forall_eq']
        exact h.broadcast hbroadcast _
  | addEventListener p event handler =>
    refine ⟨?_,by simp [perform]⟩
    intro m' hm'
    obtain ⟨heap',hmodify,rfl⟩ := Option.map_eq_some_iff.mp hm'
    exact h.relistened (fun handlers => AList.lookup_insert_ne (tag_ne_message event)) hmodify
  | removeEventListener p event =>
    refine ⟨?_,by simp [perform]⟩
    intro m' hm'
    obtain ⟨heap',hmodify,rfl⟩ := Option.map_eq_some_iff.mp hm'
    exact h.relistened (fun handlers => AList.lookup_erase_ne (tag_ne_message event)) hmodify

theorem step_reflected (s : World δ) (call : Call δ) (h : s.Reflected) (hlegal : Legal s call) :
    (step s call).Reflected := by
  cases hm : s.manager with
  | none => simpa [step,hm] using h
  | some m =>
    obtain ⟨hreflects,hregular⟩ := reflects_perform (h.reflects m hm) call (hlegal m hm)
    rw [step_some hm]
    refine ⟨hreflects,?_⟩
    intro e he
    rcases List.mem_append.mp he with he|he
    · exact (hregular e (List.mem_reverse.mp he)).called_eq
    · exact h.unheard e he

/-- In every run a port that has not been freed holds what was posted through it and through
the port it is connected to, its own messages included, since either was closed, and it is
closed if either was. No handler that was added to a port is ever called. -/
theorem run_ports {calls : List (Call δ)} (h : Along step Legal .init calls) :
    (∀ m ∈ (run step .init calls).manager, ∀ p port, m.heap.load p = some port →
      Described (run step .init calls).history p port) ∧ ∀ e ∈ (run step .init calls).history, e.called = [] := by
  have hreflected := Along.inv step_reflected World.Reflected.init h
  exact ⟨fun m hm => (hreflected.reflects m hm).described,hreflected.unheard⟩

/-- A post over a channel whose other end has a listener. -/
def listenedRun : List (Call ℕ) :=
  [.createPort (.replicate 16 0) (.replicate 16 1) 5,.createPort (.replicate 16 0) (.replicate 16 2) 6,
    .connectPorts 0 1,.addEventListener 1 .message 3,.postMessageToPort (.replicate 16 1) 8 9]

theorem run_ports_listened : (∀ m ∈ (run step .init listenedRun).manager, ∀ p port, m.heap.load p = some port →
    Described (run step .init listenedRun).history p port) ∧
    (∀ e ∈ (run step .init listenedRun).history, e.called = []) ∧
    inbox (run step .init listenedRun).history 1 = [⟨some 8,.replicate 16 1,9,.message⟩] := by
  have h : Along step Legal .init listenedRun := ⟨by decide,by decide,by decide,by decide,by decide,trivial⟩
  exact ⟨(run_ports h).1,(run_ports h).2,by decide⟩

end Refinement

end ZNet.MessagePorts
