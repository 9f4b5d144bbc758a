import ZNet.WebSocketConnection
import ZNet.Runs
import ZNet.Tables

/-!
# The connection pool

`WebSocketPool` keeps its connections by id and one id for each URL. A connection that
is removed takes the entry of its URL with it, whichever connection the entry is for.
-/

namespace ZNet.WebSocketPools
open ByteOrder WebSocketFrames WebSocketConnections Runs
open Tables (mem_of_lookup)

abbrev Url := List UInt8

structure WebSocketPool where
  connections : AList fun _ : ℕ => WebSocketConnection
  urlToConnection : AList fun _ : Url => ℕ
  nextConnectionId : ℕ
  maxConnectionsPerOrigin : ℕ
  connectionTimeoutSeconds : ℕ

/-- Which of the two insertions of `createConnection` find memory. -/
structure Memory where
  connectionsPut : Bool
  urlToConnectionPut : Bool

inductive CreateFailure
  | outOfMemory | trap

/-- The encoding of the close frame may fail; its bytes are not sent. -/
def sendClose (self : WebSocketConnection) (frameData : Except Failure (List UInt8)) :
    Except Failure WebSocketConnection := do
  let _ ← frameData
  pure { self with state := .closing }

/-- The difference of the timestamps is a `u64`. -/
def isActive (self : WebSocketConnection) (now timeoutSeconds : ℕ) : Except Failure Bool :=
  if self.lastActivityTimestamp ≤ now then .ok (decide (now-self.lastActivityTimestamp < timeoutSeconds))
  else .error .trap

namespace WebSocketPool

def init (maxPerOrigin : ℕ) : WebSocketPool := ⟨∅,∅,1,maxPerOrigin,300⟩

def getConnection (self : WebSocketPool) (url : Url) : Option WebSocketConnection :=
  match self.urlToConnection.lookup url with
  | some connectionId => self.connections.lookup connectionId
  | none => none

/-- The part of `createConnection` that creates a connection. -/
def insertConnection (self : WebSocketPool) (url : Url) (protocols : Option (List (List UInt8))) (now : ℕ)
    (memory : Memory) : Except CreateFailure WebSocketConnection×WebSocketPool :=
  let connectionId := self.nextConnectionId
  if connectionId+1 < 2^64 then
    let self := { self with nextConnectionId := connectionId+1 }
    let connection := (protocols.getD []).foldl WebSocketConnection.addProtocol (.init connectionId url now)
    if memory.connectionsPut then
      let self := { self with connections := self.connections.insert connectionId connection }
      if memory.urlToConnectionPut then
        (.ok connection,{ self with urlToConnection := self.urlToConnection.insert url connectionId })
      else (.error .outOfMemory,self)
    else (.error .outOfMemory,self)
  else (.error .trap,self)

def createConnection (self : WebSocketPool) (url : Url) (protocols : Option (List (List UInt8))) (now : ℕ)
    (memory : Memory) : Except CreateFailure WebSocketConnection×WebSocketPool :=
  match self.getConnection url with
  | some existing =>
    if existing.state = .opened then (.ok existing,self) else self.insertConnection url protocols now memory
  | none => self.insertConnection url protocols now memory

def removeConnection (self : WebSocketPool) (connectionId : ℕ) : WebSocketPool :=
  { self with
    urlToConnection := match self.connections.lookup connectionId with
      | some connection => self.urlToConnection.erase connection.url
      | none => self.urlToConnection
    connections := self.connections.erase connectionId }

def closeConnection (self : WebSocketPool) (connectionId : ℕ) (frameData : Except Failure (List UInt8)) :
    Except Failure Unit×WebSocketPool :=
  match self.connections.lookup connectionId with
  | some connection =>
    match sendClose connection frameData with
    | .ok connection => (.ok (),{ self with connections := self.connections.insert connectionId connection })
    | .error e => (.error e,self)
  | none => (.ok (),self)

/-- The ids that `cleanupInactive` collects; `appended` tells for which there is memory. -/
def toRemove (self : WebSocketPool) (now : ℕ) (appended : ℕ → Bool) : List ℕ → Except Failure (List ℕ)
  | [] => .ok []
  | connectionId::ids =>
    match self.connections.lookup connectionId with
    | none => self.toRemove now appended ids
    | some connection => do
      let active ← isActive connection now self.connectionTimeoutSeconds
      let rest ← self.toRemove now appended ids
      pure (if !active && appended connectionId then connectionId::rest else rest)

def removeAll (self : WebSocketPool) (ids : List ℕ) : WebSocketPool := ids.foldl removeConnection self

def cleanupInactive (self : WebSocketPool) (now : ℕ) (appended : ℕ → Bool) : Except Failure Unit×WebSocketPool :=
  match self.toRemove now appended self.connections.keys with
  | .ok ids => (.ok (),self.removeAll ids)
  | .error e => (.error e,self)

end WebSocketPool

/-- What the holder of a connection can do to it: anything but change its identity. -/
structure Change where
  apply : WebSocketConnection → WebSocketConnection
  connectionId : ∀ c, (apply c).connectionId = c.connectionId
  url : ∀ c, (apply c).url = c.url

def Change.setState (state : WebSocketState) : Change := ⟨fun c => { c with state := state },fun _ => rfl,fun _ => rfl⟩

def Change.updateActivity (now : ℕ) : Change := ⟨fun c => c.updateActivity now,fun _ => rfl,fun _ => rfl⟩

theorem appendCurrent_identity {c c' : WebSocketConnection} {message : WebSocketMessage} {frame : WebSocketFrame}
    (h : c.appendCurrent message frame = .ok c') : c'.connectionId = c.connectionId ∧ c'.url = c.url := by
  rw [appendCurrent_eq] at h
  split_ifs at h
  cases h
  rw [WebSocketConnection.settle]
  split_ifs
  · exact ⟨rfl,rfl⟩
  · exact ⟨rfl,rfl⟩

theorem dispatch_identity {c c' : WebSocketConnection} {frame : WebSocketFrame} (h : c.dispatch frame = .ok c') :
    c'.connectionId = c.connectionId ∧ c'.url = c.url := by
  have hdata : c.processDataFrame frame = .ok c' → c'.connectionId = c.connectionId ∧ c'.url = c.url := by
    intro h
    rw [WebSocketConnection.processDataFrame] at h
    split_ifs at h
    exact appendCurrent_identity h
  rw [WebSocketConnection.dispatch] at h
  cases hop : frame.opcode with
  | text =>
    rw [hop] at h
    exact hdata h
  | binary =>
    rw [hop] at h
    exact hdata h
  | continuation =>
    simp only [hop,WebSocketConnection.processContinuationFrame] at h
    cases hcurrent : c.currentMessage with
    | none =>
      rw [hcurrent] at h
      cases h
    | some message =>
      rw [hcurrent] at h
      exact appendCurrent_identity h
  | ping =>
    simp only [hop,WebSocketConnection.processPingFrame,WebSocketConnection.sendPong] at h
    split_ifs at h
    · cases h
    · cases h
      exact ⟨rfl,rfl⟩
  | pong =>
    simp only [hop,WebSocketConnection.processPongFrame] at h
    cases h
    exact ⟨rfl,rfl⟩
  | close =>
    simp only [hop,WebSocketConnection.processCloseFrame] at h
    cases h
    exact ⟨rfl,rfl⟩

theorem processFrame_identity (order : Endian) (now : ℕ) (c : WebSocketConnection) (frameData : List UInt8) :
    (c.processFrame order now frameData).2.connectionId = c.connectionId ∧
    (c.processFrame order now frameData).2.url = c.url := by
  rw [WebSocketConnection.processFrame]
  split
  · exact ⟨rfl,rfl⟩
  · split
    · exact ⟨rfl,rfl⟩
    · next hdispatch => exact dispatch_identity (c:=c.updateActivity now) hdispatch

/-- Received frames are such changes. -/
def Change.processFrame (order : Endian) (r : Receipt) : Change where
  apply c := (c.processFrame order r.now r.frameData).2
  connectionId c := (processFrame_identity order r.now c r.frameData).1
  url c := (processFrame_identity order r.now c r.frameData).2

inductive Call
  | createConnection (url : Url) (protocols : Option (List (List UInt8))) (now : ℕ) (memory : Memory)
  | closeConnection (connectionId : ℕ) (frameData : Except Failure (List UInt8))
  | removeConnection (connectionId : ℕ)
  | cleanupInactive (now : ℕ) (appended : ℕ → Bool)
  | change (connectionId : ℕ) (change : Change)

def WebSocketPool.call (self : WebSocketPool) : Call → WebSocketPool
  | .createConnection url protocols now memory => (self.createConnection url protocols now memory).2
  | .closeConnection connectionId frameData => (self.closeConnection connectionId frameData).2
  | .removeConnection connectionId => self.removeConnection connectionId
  | .cleanupInactive now appended => (self.cleanupInactive now appended).2
  | .change connectionId change =>
    match self.connections.lookup connectionId with
    | some connection => { self with connections := self.connections.insert connectionId (change.apply connection) }
    | none => self

/-- The connections that a call removes. -/
def Removes (p : WebSocketPool) (call : Call) (id : ℕ) : Prop :=
  match call with
  | .removeConnection connectionId => id = connectionId
  | .cleanupInactive now appended =>
    (∀ id connection, p.connections.lookup id = some connection → connection.lastActivityTimestamp ≤ now) ∧
    appended id = true ∧ ∃ connection, p.connections.lookup id = some connection ∧
      p.connectionTimeoutSeconds ≤ now-connection.lastActivityTimestamp
  | _ => False

/-- A new connection is put into the pool while there is no memory for its entry. -/
def Unindexed (p : WebSocketPool) : Call → Prop
  | .createConnection url _ _ memory =>
    (∀ existing, p.getConnection url = some existing → existing.state ≠ .opened) ∧ p.nextConnectionId+1 < 2^64 ∧
      memory.connectionsPut = true ∧ memory.urlToConnectionPut = false
  | _ => False

section Lookups

variable {p : WebSocketPool}

theorem lookup_removeConnection (id id' : ℕ) :
    (p.removeConnection id).connections.lookup id' = if id' = id then none else p.connections.lookup id' := by
  rw [WebSocketPool.removeConnection]
  split_ifs with heq
  · rw [heq]
    exact AList.lookup_erase _ _
  · exact AList.lookup_erase_ne heq

theorem lookup_removeAll (ids : List ℕ) (id : ℕ) :
    (p.removeAll ids).connections.lookup id = if id ∈ ids then none else p.connections.lookup id := by
  induction ids generalizing p with
  | nil => simp [WebSocketPool.removeAll]
  | cons first ids ih =>
    rw [WebSocketPool.removeAll,List.foldl_cons]
    refine (ih (p:=p.removeConnection first)).trans ?_
    rw [lookup_removeConnection]
    by_cases hid : id = first <;> by_cases hids : id ∈ ids <;> simp [hid,hids]

theorem index_removeConnection (id : ℕ) (url : Url) :
    (p.removeConnection id).urlToConnection.lookup url =
      if ∃ connection, p.connections.lookup id = some connection ∧ connection.url = url then none
      else p.urlToConnection.lookup url := by
  rw [WebSocketPool.removeConnection]
  cases hid : p.connections.lookup id with
  | none => simp
  | some connection =>
    by_cases hurl : connection.url = url
    · rw [if_pos ⟨connection,rfl,hurl⟩,← hurl]
      exact AList.lookup_erase _ _
    · rw [if_neg]
      · exact AList.lookup_erase_ne (Ne.symm hurl)
      · rintro ⟨_,⟨⟩,heq⟩
        exact hurl heq

/-- A connection of this URL is among the ids. -/
def Hits (p : WebSocketPool) (ids : List ℕ) (url : Url) : Prop :=
  ∃ id ∈ ids, ∃ connection, p.connections.lookup id = some connection ∧ connection.url = url

theorem hits_cons {first : ℕ} {ids : List ℕ} {url : Url} :
    Hits p (first::ids) url ↔ (∃ connection, p.connections.lookup first = some connection ∧ connection.url = url) ∨
      Hits (p.removeConnection first) ids url := by
  constructor
  · rintro ⟨id,hid,connection,hlookup,hurl⟩
    by_cases heq : id = first
    · rw [heq] at hlookup
      exact Or.inl ⟨connection,hlookup,hurl⟩
    · refine Or.inr ⟨id,(List.mem_cons.mp hid).resolve_left heq,connection,?_,hurl⟩
      rw [lookup_removeConnection,if_neg heq]
      exact hlookup
  · rintro (⟨connection,hlookup,hurl⟩ | ⟨id,hid,connection,hlookup,hurl⟩)
    · exact ⟨first,List.mem_cons_self ..,connection,hlookup,hurl⟩
    · rw [lookup_removeConnection] at hlookup
      split_ifs at hlookup
      exact ⟨id,List.mem_cons_of_mem _ hid,connection,hlookup,hurl⟩

open Classical in
/-- Every connection that is removed takes the entry of its URL with it. -/
theorem index_removeAll (ids : List ℕ) (url : Url) :
    (p.removeAll ids).urlToConnection.lookup url = if Hits p ids url then none else p.urlToConnection.lookup url := by
  induction ids generalizing p with
  | nil =>
    rw [if_neg]
    · rfl
    · rintro ⟨id,hid,-⟩
      cases hid
  | cons first ids ih =>
    rw [WebSocketPool.removeAll,List.foldl_cons]
    refine (ih (p:=p.removeConnection first)).trans ?_
    rw [index_removeConnection]
    by_cases hfirst : ∃ connection, p.connections.lookup first = some connection ∧ connection.url = url
    · rw [if_pos hfirst,ite_self,if_pos (hits_cons.mpr (Or.inl hfirst))]
    · rw [if_neg hfirst]
      by_cases hrest : Hits (p.removeConnection first) ids url
      · rw [if_pos hrest,if_pos (hits_cons.mpr (Or.inr hrest))]
      · rw [if_neg hrest,if_neg]
        intro h
        exact (hits_cons.mp h).elim hfirst hrest

end Lookups

section Removal

variable {ids : List ℕ}

theorem mem_removeAll {p : WebSocketPool} (id : ℕ) :
    id ∈ (p.removeAll ids).connections ↔ id ∉ ids ∧ id ∈ p.connections := by
  rw [← AList.lookup_isSome,← AList.lookup_isSome,lookup_removeAll]
  split_ifs with hid <;> simp [hid]

theorem lookup_of_removeAll {p : WebSocketPool} {id : ℕ} {connection : WebSocketConnection}
    (hlookup : (p.removeAll ids).connections.lookup id = some connection) :
    id ∉ ids ∧ p.connections.lookup id = some connection := by
  rw [lookup_removeAll] at hlookup
  split_ifs at hlookup with hid
  exact ⟨hid,hlookup⟩

theorem nextConnectionId_removeAll (p : WebSocketPool) (ids : List ℕ) :
    (p.removeAll ids).nextConnectionId = p.nextConnectionId := by
  induction ids generalizing p with
  | nil => rfl
  | cons first ids ih => exact ih (p.removeConnection first)

end Removal

section Steps

/-- The ids that have expired, among those for which there is memory. -/
def Expired (p : WebSocketPool) (now : ℕ) (appended : ℕ → Bool) (id : ℕ) : Prop :=
  appended id = true ∧ ∃ c, p.connections.lookup id = some c ∧ p.connectionTimeoutSeconds ≤ now-c.lastActivityTimestamp

theorem mem_cons_and_of_not {P : ℕ → Prop} {first : ℕ} (h : ¬P first) (id : ℕ) (ids : List ℕ) :
    id ∈ first::ids ∧ P id ↔ id ∈ ids ∧ P id := by
  rw [List.mem_cons]
  constructor
  · rintro ⟨rfl | hid,hp⟩
    · exact (h hp).elim
    · exact ⟨hid,hp⟩
  · rintro ⟨hid,hp⟩
    exact ⟨Or.inr hid,hp⟩

theorem mem_cons_and {P : ℕ → Prop} {first : ℕ} (h : P first) (id : ℕ) (ids : List ℕ) :
    id ∈ first::ids ∧ P id ↔ id = first ∨ id ∈ ids ∧ P id := by
  rw [List.mem_cons,or_and_right,and_iff_left_of_imp]
  rintro rfl
  exact h

theorem toRemove_ok {p : WebSocketPool} {now : ℕ} (appended : ℕ → Bool) {ids : List ℕ}
    (hclock : ∀ id ∈ ids, ∀ c, p.connections.lookup id = some c → c.lastActivityTimestamp ≤ now) :
    ∃ removed, p.toRemove now appended ids = .ok removed ∧ ∀ id, id ∈ removed ↔ id ∈ ids ∧ Expired p now appended id := by
  induction ids with
  | nil => exact ⟨[],rfl,by simp⟩
  | cons first ids ih =>
    obtain ⟨removed,hok,hmem⟩ := ih fun id hid => hclock id (List.mem_cons_of_mem _ hid)
    rw [WebSocketPool.toRemove]
    cases hfirst : p.connections.lookup first with
    | none =>
      have hkept : ¬Expired p now appended first := by
        rintro ⟨-,c,hc,-⟩
        rw [hfirst] at hc
        cases hc
      refine ⟨removed,hok,fun id => ?_⟩
      rw [hmem,mem_cons_and_of_not hkept]
    | some connection =>
      have hactive : isActive connection now p.connectionTimeoutSeconds =
          .ok (decide (now-connection.lastActivityTimestamp < p.connectionTimeoutSeconds)) :=
        if_pos (hclock first (List.mem_cons_self ..) connection hfirst)
      have hexpired : Expired p now appended first ↔
          appended first = true ∧ p.connectionTimeoutSeconds ≤ now-connection.lastActivityTimestamp := by
        simp [Expired,hfirst]
      refine ⟨if appended first = true ∧ p.connectionTimeoutSeconds ≤ now-connection.lastActivityTimestamp
        then first::removed else removed,?_,fun id => ?_⟩
      · simp only [hactive,hok]
        refine congrArg Except.ok (if_congr ?_ rfl rfl)
        simp [and_comm]
      · split_ifs with hinactive
        · rw [List.mem_cons,hmem,mem_cons_and (hexpired.mpr hinactive)]
        · rw [hmem,mem_cons_and_of_not (mt hexpired.mp hinactive)]

/-- A clock behind the last activity of a connection stops the clean-up before it starts. -/
theorem toRemove_error {p : WebSocketPool} {now : ℕ} (appended : ℕ → Bool) {ids : List ℕ} {id : ℕ}
    {connection : WebSocketConnection} (hid : id ∈ ids) (hlookup : p.connections.lookup id = some connection)
    (hclock : now < connection.lastActivityTimestamp) : ∃ e, p.toRemove now appended ids = .error e := by
  induction ids with
  | nil => cases hid
  | cons first ids ih =>
    rw [WebSocketPool.toRemove]
    by_cases heq : id = first
    · subst heq
      have hactive : isActive connection now p.connectionTimeoutSeconds = .error .trap :=
        if_neg (Nat.not_le.mpr hclock)
      simp only [hlookup,hactive]
      exact ⟨_,rfl⟩
    · obtain ⟨e,he⟩ := ih ((List.mem_cons.mp hid).resolve_left heq)
      rw [he]
      cases p.connections.lookup first with
      | none => exact ⟨e,rfl⟩
      | some connection' =>
        cases hactive : isActive connection' now p.connectionTimeoutSeconds with
        | error e' =>
          simp only [hactive]
          exact ⟨e',rfl⟩
        | ok active =>
          simp only [hactive]
          exact ⟨e,rfl⟩

theorem cleanupInactive_cases (p : WebSocketPool) (now : ℕ) (appended : ℕ → Bool) :
    ∃ ids, (p.cleanupInactive now appended).2 = p.removeAll ids ∧
      ∀ id, id ∈ ids ↔ Removes p (.cleanupInactive now appended) id := by
  rw [WebSocketPool.cleanupInactive]
  by_cases hclock : ∀ id c, p.connections.lookup id = some c → c.lastActivityTimestamp ≤ now
  · obtain ⟨removed,hok,hmem⟩ := toRemove_ok appended fun id (_ : id ∈ p.connections.keys) => hclock id
    rw [hok]
    refine ⟨removed,rfl,?_⟩
    intro id
    rw [hmem,Removes]
    constructor
    · rintro ⟨-,hrest⟩
      exact ⟨hclock,hrest⟩
    · rintro ⟨-,happended,c,hc,htimeout⟩
      exact ⟨AList.mem_keys.mp (mem_of_lookup hc),happended,c,hc,htimeout⟩
  · have hbehind := hclock
    push Not at hbehind
    obtain ⟨id,c,hc,hlt⟩ := hbehind
    obtain ⟨e,he⟩ := toRemove_error appended (AList.mem_keys.mp (mem_of_lookup hc)) hc hlt
    rw [he]
    refine ⟨[],rfl,?_⟩
    intro id
    constructor
    · nofun
    · rintro ⟨h,-⟩
      exact (hclock h).elim

theorem foldl_addProtocol (protocols : List (List UInt8)) (c : WebSocketConnection) :
    (protocols.foldl WebSocketConnection.addProtocol c).connectionId = c.connectionId ∧
    (protocols.foldl WebSocketConnection.addProtocol c).url = c.url := by
  induction protocols generalizing c with
  | nil => exact ⟨rfl,rfl⟩
  | cons protocol protocols ih => exact ih (c.addProtocol protocol)

/-- The pool with a new connection. -/
def withConnection (p : WebSocketPool) (connection : WebSocketConnection) : WebSocketPool :=
  { p with
    nextConnectionId := p.nextConnectionId+1
    connections := p.connections.insert p.nextConnectionId connection }

/-- The pool with a new connection and its entry. -/
def withEntry (p : WebSocketPool) (connection : WebSocketConnection) (url : Url) : WebSocketPool :=
  { withConnection p connection with urlToConnection := p.urlToConnection.insert url p.nextConnectionId }

theorem next_mem_withConnection (p : WebSocketPool) (connection : WebSocketConnection) :
    p.nextConnectionId ∈ (withConnection p connection).connections :=
  (AList.mem_insert _).mpr (Or.inl rfl)

/-- A call of `createConnection` leaves the connections alone, or puts a new one under
the next id, with or without an entry for it. -/
theorem createConnection_cases (p : WebSocketPool) (url : Url) (protocols : Option (List (List UInt8))) (now : ℕ)
    (memory : Memory) :
    ¬Unindexed p (.createConnection url protocols now memory) ∧
      (∃ n, p.nextConnectionId ≤ n ∧
        (p.createConnection url protocols now memory).2 = { p with nextConnectionId := n }) ∨
    ∃ connection, connection.connectionId = p.nextConnectionId ∧ connection.url = url ∧
      (Unindexed p (.createConnection url protocols now memory) ∧
        (p.createConnection url protocols now memory).2 = withConnection p connection ∨
      ¬Unindexed p (.createConnection url protocols now memory) ∧
        (p.createConnection url protocols now memory).2 = withEntry p connection url) := by
  by_cases hopen : ∃ existing, p.getConnection url = some existing ∧ existing.state = .opened
  · obtain ⟨existing,hget,hstate⟩ := hopen
    refine Or.inl ⟨?_,p.nextConnectionId,le_rfl,?_⟩
    · rintro ⟨hnone,-⟩
      exact hnone existing hget hstate
    · rw [WebSocketPool.createConnection,hget]
      simp only [if_pos hstate]
  · have hinsert : p.createConnection url protocols now memory = p.insertConnection url protocols now memory := by
      rw [WebSocketPool.createConnection]
      cases hget : p.getConnection url with
      | none => rfl
      | some existing => exact if_neg fun hstate => hopen ⟨existing,hget,hstate⟩
    have hnone : ∀ existing, p.getConnection url = some existing → existing.state ≠ .opened :=
      fun existing hget hstate => hopen ⟨existing,hget,hstate⟩
    obtain ⟨connectionsPut,urlToConnectionPut⟩ := memory
    obtain ⟨hid,hurl⟩ := foldl_addProtocol (protocols.getD []) (.init p.nextConnectionId url now)
    rw [hinsert,WebSocketPool.insertConnection]
    by_cases hnext : p.nextConnectionId+1 < 2^64
    · rw [if_pos hnext]
      cases connectionsPut with
      | false => exact Or.inl ⟨fun h => Bool.noConfusion h.2.2.1,p.nextConnectionId+1,Nat.le_succ _,rfl⟩
      | true =>
        refine Or.inr ⟨_,hid,hurl,?_⟩
        cases urlToConnectionPut with
        | false => exact Or.inl ⟨⟨hnone,hnext,rfl,rfl⟩,rfl⟩
        | true => exact Or.inr ⟨fun h => Bool.noConfusion h.2.2.2,rfl⟩
    · rw [if_neg hnext]
      exact Or.inl ⟨fun h => hnext h.2.1,p.nextConnectionId,le_rfl,rfl⟩

theorem lookup_withConnection {p : WebSocketPool} {connection : WebSocketConnection} (id : ℕ) :
    (withConnection p connection).connections.lookup id =
      if id = p.nextConnectionId then some connection else p.connections.lookup id := by
  split_ifs with hid
  · rw [hid]
    exact AList.lookup_insert _
  · exact AList.lookup_insert_ne hid

theorem lookup_withEntry {p : WebSocketPool} {connection c : WebSocketConnection} {url : Url} {id : ℕ}
    (hc : (withEntry p connection url).connections.lookup id = some c) :
    id = p.nextConnectionId ∧ c = connection ∨ id ≠ p.nextConnectionId ∧ p.connections.lookup id = some c := by
  change (withConnection p connection).connections.lookup id = some c at hc
  rw [lookup_withConnection] at hc
  split_ifs at hc with hid
  · exact Or.inl ⟨hid,(Option.some.inj hc).symm⟩
  · exact Or.inr ⟨hid,hc⟩

end Steps

section Entries

variable {p : WebSocketPool}

/-- Entries lead to connections of their URL, and the next id is unused. -/
structure Backed (p : WebSocketPool) : Prop where
  entries : ∀ url id, p.urlToConnection.lookup url = some id →
    ∃ connection, p.connections.lookup id = some connection ∧ connection.url = url
  lt : ∀ id connection, p.connections.lookup id = some connection → id < p.nextConnectionId

end Entries

end ZNet.WebSocketPools
