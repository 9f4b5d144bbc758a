import ZNet.BackgroundTasks
import ZNet.WebSocketHandshake
import ZNet.WebSocketPool

/-!
# Opening WebSocket connections

`connect` takes a connection from the pool, the open one of the URL if there is one, and
builds a request for it. The values of two headers are given back before the request is built
from them. There is enough memory.
-/

namespace ZNet.WebSocketHandshake
open Tables TextScan Runs
open BackgroundTasks (BackgroundTask Callback EventLoopManager)
open WebSocketConnections (WebSocketConnection)
open WebSocketPools (WebSocketPool)

structure WebSocketConfig where
  maxConnectionsPerOrigin : ℕ
  pingIntervalSeconds : ℕ
  enableCompression : Bool
  enablePermessageDeflate : Bool

inductive HandshakeError
  | invalidUrl | policyViolation
  /-- The error of the policy manager. -/
  | validation
  /-- A number of a connection or a time does not fit. -/
  | overflow
  /-- A slice is out of bounds. -/
  | trap
  /-- A value is read whose memory has been given back. -/
  | freed
deriving DecidableEq

/-- The memory of a value may have been given back. -/
structure WebSocketHandshakeRequest where
  url : Str
  method : Str
  headers : Table Str (Option Str)
  key : Key

def ws : Str := ascii "ws:".toList

def wss : Str := ascii "wss:".toList

def sliceTo (s : Str) : Str := s.takeWhile (· ≠ 0)

def extractHostFromUrl (url : Str) : Option Str :=
  if url.length < 3 then none
  else
    let wsStart := if url.take 3 = ws then 5 else 6
    if wsStart ≤ url.length then some ((url.drop wsStart).takeWhile (· ≠ 0x2f)) else none

def extractOriginFromUrl (url : Str) : Option Str :=
  if url.length < 3 then none else some (url.takeWhile (· ≠ 0x2f))

def hostHeader : Str := ascii "Host".toList
def upgradeHeader : Str := ascii "Upgrade".toList
def connectionHeader : Str := ascii "Connection".toList
def keyHeader : Str := ascii "Sec-WebSocket-Key".toList
def versionHeader : Str := ascii "Sec-WebSocket-Version".toList
def originHeader : Str := ascii "Origin".toList
def agentHeader : Str := ascii "User-Agent".toList
def protocolHeader : Str := ascii "Sec-WebSocket-Protocol".toList
def extensionsHeader : Str := ascii "Sec-WebSocket-Extensions".toList

def headerLine (name value : Str) : Str := name++0x3a::0x20::value

namespace WebSocketHandshakeRequest

def init (url : Str) (key : Key) : WebSocketHandshakeRequest := ⟨url,ascii "GET".toList,∅,key⟩

def setHeader (self : WebSocketHandshakeRequest) (name value : Str) : WebSocketHandshakeRequest :=
  { self with headers := self.headers.insert name (some value) }

/-- The memory of the value is given back, and the table keeps its address. -/
def freeHeader (self : WebSocketHandshakeRequest) (name : Str) : WebSocketHandshakeRequest :=
  { self with headers := self.headers.insert name none }

def withRequiredHeaders (self : WebSocketHandshakeRequest) (host : Str) : WebSocketHandshakeRequest :=
  let self := self.setHeader hostHeader host
  let self := self.setHeader upgradeHeader (ascii "websocket".toList)
  let self := self.setHeader connectionHeader (ascii "Upgrade".toList)
  let self := self.setHeader keyHeader (sliceTo self.key.toList)
  self.setHeader versionHeader (ascii "13".toList)

def requestLine (self : WebSocketHandshakeRequest) : Str :=
  self.method++0x20::(self.url++ascii " HTTP/1.1".toList)

def generateHandshakeRequest (order : IterationOrder Str) (self : WebSocketHandshakeRequest) :
    Except HandshakeError Str :=
  match extractHostFromUrl self.url with
  | none => .error .trap
  | some host =>
    let self := self.withRequiredHeaders host
    match (order self.headers.keys).1.mapM fun name => (self.headers.lookup name).join.map (headerLine name) with
    | none => .error .freed
    | some lines => .ok (joinLines (self.requestLine::(lines++[[]])))

end WebSocketHandshakeRequest

open WebSocketHandshakeRequest

/-- The memory of the joined protocols and of the extensions is given back at once. -/
def withHandshakeHeaders (config : WebSocketConfig) (origin : Str) (protocols : List Str)
    (request : WebSocketHandshakeRequest) : WebSocketHandshakeRequest :=
  let request := request.setHeader originHeader origin
  let request := request.setHeader agentHeader (ascii "z-net/1.0".toList)
  let request :=
    if protocols = [] then request
    else (request.setHeader protocolHeader ((ascii ", ".toList).intercalate protocols)).freeHeader protocolHeader
  if config.enableCompression && config.enablePermessageDeflate then
    (request.setHeader extensionsHeader (ascii "permessage-deflate".toList)).freeHeader extensionsHeader
  else request

def initiateHandshake (config : WebSocketConfig) (order : IterationOrder Str) (connection : WebSocketConnection)
    (key : Key) : Except HandshakeError (Str×WebSocketConnection) :=
  match extractOriginFromUrl connection.url with
  | none => .error .trap
  | some origin => do
    let request := withHandshakeHeaders config origin connection.protocols (.init connection.url key)
    let requestData ← request.generateHandshakeRequest order
    pure (requestData,{ connection with state := .opened })

/-- Whether the URL has one of the two schemes, unless a slice of it is out of bounds. -/
def validUrl (url : Str) : Option Bool :=
  if url.length < 3 then none
  else if url.take 3 = ws then some true
  else if url.length < 4 then none
  else some (decide (url.take 4 = wss))

/-- The callback has no effect. -/
def pingCallback : Callback := 0

/-- The event loop with a task for the connection, unless the interval or the time overflows. -/
def startConnectionMonitoring (config : WebSocketConfig) (eventLoop : EventLoopManager) (connection : WebSocketConnection)
    (now : ℕ) : Option EventLoopManager :=
  if 0 < config.pingIntervalSeconds then
    if config.pingIntervalSeconds*1000 < 2^64 then
      let pingTask := BackgroundTask.init connection.connectionId (ascii "websocket-ping".toList) (ascii "ping".toList) now
      (pingTask.setInterval (config.pingIntervalSeconds*1000) true now).map fun pingTask =>
        eventLoop.scheduleBackgroundTask (pingTask.setCallback pingCallback)
    else none
  else some eventLoop

/-- What `validateRequest` of the policy manager makes of a URL. -/
inductive Validation
  | allowed | notAllowed | failed

structure WebSocketManager where
  config : WebSocketConfig
  eventLoop : EventLoopManager
  connectionPool : WebSocketPool
  policyManager : Option (Str → Validation)

namespace WebSocketManager

def init (eventLoop : EventLoopManager) (config : WebSocketConfig) : WebSocketManager :=
  ⟨config,eventLoop,.init config.maxConnectionsPerOrigin,none⟩

def setPolicyManager (self : WebSocketManager) (policyManager : Str → Validation) : WebSocketManager :=
  { self with policyManager := some policyManager }

/-- What `connect` checks before it takes a connection. -/
def checkUrl (self : WebSocketManager) (url : Str) : Except HandshakeError Unit :=
  match validUrl url with
  | none => .error .trap
  | some false => .error .invalidUrl
  | some true =>
    match self.policyManager with
    | none => .ok ()
    | some validateRequest =>
      match validateRequest url with
      | .allowed => .ok ()
      | .notAllowed => .error .policyViolation
      | .failed => .error .validation

/-- The request and the number of its connection. The clock is read for the connection and
for its task. -/
def connect (self : WebSocketManager) (order : IterationOrder Str) (url : Str) (protocols : Option (List Str)) (key : Key)
    (created monitored : ℕ) : Except HandshakeError (Str×ℕ)×WebSocketManager :=
  match self.checkUrl url with
  | .error e => (.error e,self)
  | .ok () =>
    match self.connectionPool.createConnection url protocols created ⟨true,true⟩ with
    | (.error _,pool) => (.error .overflow,{ self with connectionPool := pool })
    | (.ok connection,pool) =>
      match initiateHandshake self.config order connection key with
      | .error e => (.error e,{ self with connectionPool := pool })
      | .ok (request,connection) =>
        let connections := pool.connections.insert connection.connectionId connection
        let self := { self with connectionPool := { pool with connections := connections } }
        match startConnectionMonitoring self.config self.eventLoop connection monitored with
        | none => (.error .overflow,self)
        | some eventLoop => (.ok (request,connection.connectionId),{ self with eventLoop := eventLoop })

end WebSocketManager

section Server

def keyName : Str := ascii "sec-websocket-key".toList

/-- The key that a server finds in a request. -/
def offeredKey (request : Str) : Option Str := (valuesOf keyName (splitLines request).tail).head?

/-- The answer of a server as RFC 6455 §4.2.2 asks for it. -/
def answer (sha1 : Str → Vector UInt8 20) (request : Str) : Option Str :=
  (offeredKey request).map fun key => joinLines [ascii "HTTP/1.1 101 Switching Protocols".toList,
    headerLine upgradeHeader (ascii "websocket".toList),headerLine connectionHeader (ascii "Upgrade".toList),
    headerLine (ascii "Sec-WebSocket-Accept".toList) (acceptOf sha1 key),[]]

end Server

/-- What is left of the key on its way: what comes before the first zero and the first line
end, without blanks at its ends. -/
def sentKey (key : Key) : Str := trim blank ((splitLines (sliceTo key.toList)).headD [])

open WebSocketHandshakeResponse (headerOf)

section Fields

/-- A name without separators. -/
def plainName (name : Str) : Bool := name.all fun b => b ≠ 0x0d && b ≠ 0x3a && b ≠ 0x20 && b ≠ 0x09

variable {name value : Str}

theorem headerOf_headerLine (h : plainName name = true) (value : Str) :
    headerOf (headerLine name value) = some (name,trim blank value) := by
  simp only [plainName,List.all_eq_true,Bool.and_eq_true,decide_eq_true_eq] at h
  have hcolon : 0x3a ∉ name := fun hmem => (h _ hmem).1.1.2 rfl
  have hname : trim blank name = name := trim_eq_self (by
    intro b hb
    simp [blank,(h b hb).1.2,(h b hb).2])
  have hvalue : trim blank (0x20::value) = trim blank value := by simp [trim,blank]
  rw [headerOf,headerLine,idxOf?_append_cons hcolon]
  simp [hname,hvalue]

theorem front_plain (h : plainName name = true) : 0x0d ∉ name++[0x3a,0x20] := by
  simp only [plainName,List.all_eq_true,Bool.and_eq_true,decide_eq_true_eq] at h
  intro hmem
  rcases List.mem_append.mp hmem with hmem | hmem
  · exact (h _ hmem).1.1.1 rfl
  · simp at hmem

theorem headerLine_eq (name value : Str) : headerLine name value = (name++[0x3a,0x20])++value := by simp [headerLine]

theorem splitLines_headerLine (h : plainName name = true) (value : Str) :
    splitLines (headerLine name value) = (splitLines value).modifyHead (headerLine name) := by
  have hline : headerLine name = fun value => (name++[0x3a,0x20])++value := by
    funext value
    exact headerLine_eq name value
  rw [hline]
  exact TextLines.splitLines_front (front_plain h) value

theorem unbroken_headerLine (h : plainName name = true) (hvalue : TextLines.Unbroken 0x0d 0x0a value) :
    TextLines.Unbroken 0x0d 0x0a (headerLine name value) := by
  rw [headerLine_eq]
  exact TextLines.unbroken_append (front_plain h) hvalue

theorem headerLine_ne_nil (name value : Str) : headerLine name value ≠ [] := by simp [headerLine]

theorem valueOf_headerLine (h : plainName name = true) (field value : Str) :
    valueOf field (headerLine name value) = if name.map toLower = field then some (trim blank value) else none := by
  rw [valueOf,headerOf_headerLine h]
  rfl

/-- Lines of other headers do not hide a value. -/
theorem valuesOf_append {field : Str} {lines : List Str} (h : ∀ line ∈ lines, line ≠ [] ∧ valueOf field line = none)
    (rest : List Str) : valuesOf field (lines++rest) = valuesOf field rest := by
  induction lines with
  | nil => rfl
  | cons line lines ih =>
    obtain ⟨⟨hline,hvalue⟩,hlines⟩ := List.forall_mem_cons.mp h
    rw [List.cons_append,valuesOf_cons hline,hvalue,ih hlines]
    rfl

end Fields

section Tables

variable {headers : Table Str (Option Str)} {name value : Str}

/-- No value has been given back. -/
def Whole (headers : Table Str (Option Str)) : Prop := ∀ name, headers.lookup name ≠ some none

theorem Whole.insert (h : Whole headers) (name value : Str) : Whole (headers.insert name (some value)) := by
  intro other
  rw [lookup_insert_eq]
  split
  · simp
  · exact h other

/-- Names and values keep a header on its line, except for the key. -/
def Sendable (headers : Table Str (Option Str)) : Prop :=
  ∀ name value, headers.lookup name = some (some value) → plainName name = true ∧
    (name ≠ keyHeader → name.map toLower ≠ keyName ∧ TextLines.Unbroken 0x0d 0x0a value)

theorem Sendable.insert (h : Sendable headers) (hname : plainName name = true) (hkey : name.map toLower ≠ keyName)
    (hvalue : TextLines.Unbroken 0x0d 0x0a value) : Sendable (headers.insert name (some value)) := by
  intro other v hlookup
  rw [lookup_insert_eq] at hlookup
  split at hlookup
  · rename_i hother
    cases hlookup
    exact ⟨hother ▸ hname,fun _ => ⟨hother ▸ hkey,hvalue⟩⟩
  · exact h other v hlookup

theorem Sendable.insertKey (h : Sendable headers) (value : Str) : Sendable (headers.insert keyHeader (some value)) := by
  intro other v hlookup
  rw [lookup_insert_eq] at hlookup
  split at hlookup
  · rename_i hother
    rw [hother]
    exact ⟨by decide,fun hne => absurd rfl hne⟩
  · exact h other v hlookup

theorem Sendable.free (h : Sendable headers) (name : Str) : Sendable (headers.insert name none) := by
  intro other v hlookup
  rw [lookup_insert_eq] at hlookup
  split at hlookup
  · cases hlookup
  · exact h other v hlookup

end Tables

section Requests

variable {order : IterationOrder Str} {request : WebSocketHandshakeRequest} {url host text : Str} {key : Key}

theorem Sendable.withRequiredHeaders (h : Sendable request.headers) (hhost : TextLines.Unbroken 0x0d 0x0a host) :
    Sendable (request.withRequiredHeaders host).headers := by
  have hplain (s : List Char) (hs : 0x0d ∉ ascii s) : TextLines.Unbroken 0x0d 0x0a (ascii s) :=
    TextLines.unbroken_of_notMem hs
  apply Sendable.insert _ (by decide) (by decide) (hplain _ (by decide))
  apply Sendable.insertKey
  apply Sendable.insert _ (by decide) (by decide) (hplain _ (by decide))
  apply Sendable.insert _ (by decide) (by decide) (hplain _ (by decide))
  exact h.insert (by decide) (by decide) hhost

theorem lookup_withRequiredHeaders (request : WebSocketHandshakeRequest) (host : Str) {name : Str}
    (hname : name ∉ [hostHeader,upgradeHeader,connectionHeader,keyHeader,versionHeader]) :
    (request.withRequiredHeaders host).headers.lookup name = request.headers.lookup name := by
  simp only [List.mem_cons,List.not_mem_nil,or_false,not_or] at hname
  simp [withRequiredHeaders,setHeader,AList.lookup_insert_ne,hname]

theorem lookup_key (request : WebSocketHandshakeRequest) (host : Str) :
    (request.withRequiredHeaders host).headers.lookup keyHeader = some (some (sliceTo request.key.toList)) := by
  have hne : keyHeader ≠ versionHeader := by decide
  simp [withRequiredHeaders,setHeader,AList.lookup_insert_ne,hne]

theorem mapM_eq_map {α β : Type} {f : α → Option β} {g : α → β} {l : List α} (h : ∀ x ∈ l, f x = some (g x)) :
    l.mapM f = some (l.map g) := by
  induction l with
  | nil => rfl
  | cons x l ih =>
    obtain ⟨hx,hl⟩ := List.forall_mem_cons.mp h
    simp [hx,ih hl]

theorem mapM_eq_none {α β : Type} {f : α → Option β} {l : List α} {x : α} (hmem : x ∈ l) (hx : f x = none) :
    l.mapM f = none := by
  induction l with
  | nil => cases hmem
  | cons y l ih =>
    rcases List.mem_cons.mp hmem with rfl | hmem
    · simp [hx]
    · cases f y <;> simp [*]

/-- The line of a header in the table. -/
def lineOf (headers : Table Str (Option Str)) (name : Str) : Str := headerLine name ((headers.lookup name).join.getD [])

theorem generate_whole (hhost : extractHostFromUrl request.url = some host)
    (h : Whole (request.withRequiredHeaders host).headers) (order : IterationOrder Str) :
    request.generateHandshakeRequest order = .ok (joinLines (request.requestLine::
      ((order (request.withRequiredHeaders host).headers.keys).1.map (lineOf (request.withRequiredHeaders host).headers)++
        [[]]))) := by
  have hlines : ∀ name ∈ (order (request.withRequiredHeaders host).headers.keys).1,
      ((request.withRequiredHeaders host).headers.lookup name).join.map (headerLine name) =
        some (lineOf (request.withRequiredHeaders host).headers name) := by
    intro name hname
    rw [(order _).2.mem_iff,← AList.mem_keys] at hname
    obtain ⟨value,hvalue⟩ := exists_lookup hname
    cases value with
    | none => exact absurd hvalue (h name)
    | some value => simp [lineOf,hvalue]
  rw [generateHandshakeRequest,hhost]
  simp only [mapM_eq_map hlines]
  rfl

theorem generate_freed (hhost : extractHostFromUrl request.url = some host) {name : Str}
    (h : (request.withRequiredHeaders host).headers.lookup name = some none) (order : IterationOrder Str) :
    request.generateHandshakeRequest order = .error .freed := by
  have hmem : name ∈ (order (request.withRequiredHeaders host).headers.keys).1 :=
    (order _).2.mem_iff.mpr (mem_keys_of_lookup h)
  rw [generateHandshakeRequest,hhost]
  simp only
  rw [mapM_eq_none hmem (by simp [h])]

/-- The lines of a request as the server reads them. -/
theorem splitLines_request {requestLine : Str} (hline : TextLines.Unbroken 0x0d 0x0a requestLine) (lines : List Str) :
    (splitLines (joinLines (requestLine::(lines++[[]])))).tail = lines.flatMap splitLines++[[],[]] := by
  have hsplit := TextLines.splitLines_joinLines (show (0x0d : UInt8) ≠ 0x0a by decide) (requestLine::(lines++[[]])) []
  rw [List.append_nil,List.flatMap_cons,TextLines.splitLines_unbroken hline,List.flatMap_append] at hsplit
  rw [splitLines,joinLines,hsplit]
  simp [TextLines.splitLines]
  rfl

/-- The server finds the key header, with what is left of the key. -/
theorem offeredKey_request {headers : Table Str (Option Str)} (hsendable : Sendable headers) (hwhole : Whole headers)
    (hkey : headers.lookup keyHeader = some (some (sliceTo key.toList))) {requestLine : Str}
    (hline : TextLines.Unbroken 0x0d 0x0a requestLine) (order : IterationOrder Str) :
    offeredKey (joinLines (requestLine::((order headers.keys).1.map (lineOf headers)++[[]]))) = some (sentKey key) := by
  have hnodup : (order headers.keys).1.Nodup := (order headers.keys).2.nodup_iff.mpr headers.nodupKeys
  have hmem : keyHeader ∈ (order headers.keys).1 := (order _).2.mem_iff.mpr (mem_keys_of_lookup hkey)
  obtain ⟨before,after,hnames⟩ := List.append_of_mem hmem
  have hbefore : keyHeader ∉ before := by
    rw [hnames] at hnodup
    intro hearlier
    exact (List.disjoint_of_nodup_append hnodup) hearlier List.mem_cons_self
  have hothers : ∀ name ∈ before, plainName name = true ∧ name.map toLower ≠ keyName ∧
      TextLines.Unbroken 0x0d 0x0a ((headers.lookup name).join.getD []) := by
    intro name hname
    have hstored : name ∈ headers.keys := by
      rw [← (order headers.keys).2.mem_iff,hnames]
      exact List.mem_append_left _ hname
    obtain ⟨value,hvalue⟩ := exists_lookup (AList.mem_keys.mpr hstored)
    cases value with
    | none => exact absurd hvalue (hwhole name)
    | some value =>
      obtain ⟨hplain,hother⟩ := hsendable name value hvalue
      have hne : name ≠ keyHeader := fun heq => hbefore (heq ▸ hname)
      exact ⟨hplain,(hother hne).1,by simpa [hvalue] using (hother hne).2⟩
  have hfirst : (before.map (lineOf headers)).flatMap splitLines = before.map (lineOf headers) := by
    apply TextLines.flatMap_splitLines
    intro line hline
    obtain ⟨name,hname,rfl⟩ := List.mem_map.mp hline
    exact unbroken_headerLine (hothers name hname).1 (hothers name hname).2.2
  have hhidden : ∀ line ∈ before.map (lineOf headers), line ≠ [] ∧ valueOf keyName line = none := by
    intro line hline
    obtain ⟨name,hname,rfl⟩ := List.mem_map.mp hline
    refine ⟨headerLine_ne_nil _ _,?_⟩
    rw [lineOf,valueOf_headerLine (hothers name hname).1,if_neg (hothers name hname).2.1]
  obtain ⟨first,more,hpieces⟩ := List.exists_cons_of_ne_nil (TextLines.splitLines_ne_nil 0x0d 0x0a (sliceTo key.toList))
  have hpieces : splitLines (sliceTo key.toList) = first::more := hpieces
  have hkeyLine : splitLines (lineOf headers keyHeader) = headerLine keyHeader first::more := by
    rw [lineOf,hkey]
    simp only [Option.join_some,Option.getD_some]
    rw [splitLines_headerLine (by decide),hpieces,List.modifyHead_cons]
  have hkeyValue : valueOf keyName (headerLine keyHeader first) = some (trim blank first) := by
    rw [valueOf_headerLine (by decide),if_pos (by decide)]
  rw [offeredKey,splitLines_request hline,hnames,List.map_append,List.flatMap_append,hfirst,List.append_assoc,
    valuesOf_append hhidden,List.map_cons,List.flatMap_cons,hkeyLine,List.cons_append,List.cons_append,
    valuesOf_cons (headerLine_ne_nil _ _),hkeyValue,sentKey,hpieces]
  rfl

end Requests

section Answers

variable {key : Key}

end Answers

section Opening

variable {url : Str}

def HasScheme (url : Str) : Prop := url.take 3 = ws ∨ url.take 4 = wss

/-- The URL ends before its scheme is read. -/
def SchemeCut (url : Str) : Prop := url.length < 3 ∨ url.take 3 ≠ ws ∧ url.length < 4

/-- The URL ends before its host. -/
def HostCut (url : Str) : Prop := url.length < if url.take 3 = ws then 5 else 6

/-- A header is given back before it is read. -/
def Spoilt (config : WebSocketConfig) (protocols : List Str) : Prop :=
  protocols ≠ [] ∨ config.enableCompression ∧ config.enablePermessageDeflate

section Headers

variable {config : WebSocketConfig} {protocols : List Str} {origin : Str} {request : WebSocketHandshakeRequest}

theorem withHandshakeHeaders_same (config : WebSocketConfig) (origin : Str) (protocols : List Str)
    (request : WebSocketHandshakeRequest) :
    (withHandshakeHeaders config origin protocols request).url = request.url ∧
    (withHandshakeHeaders config origin protocols request).method = request.method ∧
    (withHandshakeHeaders config origin protocols request).key = request.key := by
  simp only [withHandshakeHeaders]
  split <;> split <;> simp [setHeader,freeHeader]

theorem withHandshakeHeaders_spoilt (h : Spoilt config protocols) (origin : Str) (request : WebSocketHandshakeRequest) :
    ∃ name ∉ [hostHeader,upgradeHeader,connectionHeader,keyHeader,versionHeader],
      (withHandshakeHeaders config origin protocols request).headers.lookup name = some none := by
  by_cases hdeflate : config.enableCompression ∧ config.enablePermessageDeflate
  · have hflags : (config.enableCompression && config.enablePermessageDeflate) = true := by simpa using hdeflate
    refine ⟨extensionsHeader,by decide,?_⟩
    simp only [withHandshakeHeaders,if_pos hflags]
    exact AList.lookup_insert _
  · have hprotocols : protocols ≠ [] := h.resolve_right hdeflate
    have hflags : ¬(config.enableCompression && config.enablePermessageDeflate) = true := by simpa using hdeflate
    refine ⟨protocolHeader,by decide,?_⟩
    simp only [withHandshakeHeaders,if_neg hflags,if_neg hprotocols]
    exact AList.lookup_insert _

theorem withHandshakeHeaders_whole (h : ¬Spoilt config protocols) (hrequest : request.headers = ∅) :
    (withHandshakeHeaders config origin protocols request).headers =
      ((∅ : Table Str (Option Str)).insert originHeader (some origin)).insert agentHeader
        (some (ascii "z-net/1.0".toList)) := by
  simp only [Spoilt,not_or,not_not] at h
  have hflags : ¬(config.enableCompression && config.enablePermessageDeflate) = true := by simpa using h.2
  simp only [withHandshakeHeaders,if_neg hflags,if_pos h.1]
  rw [setHeader,setHeader,hrequest]

end Headers

theorem take_three (h : url.take 4 = wss) : 4 ≤ url.length ∧ url.take 3 ≠ ws := by
  constructor
  · have hlength := congrArg List.length h
    simp [wss,ascii] at hlength
    omega
  · intro hws
    have htake : (url.take 4).take 3 = url.take 3 := List.take_take
    rw [h,hws] at htake
    exact absurd htake (by decide)

theorem take_ws (h : url.take 3 = ws) : 3 ≤ url.length := by
  have hlength := congrArg List.length h
  simp [ws,ascii] at hlength
  omega

theorem extractHostFromUrl_eq {n : ℕ} (hlength : 3 ≤ url.length) (hstart : (if url.take 3 = ws then 5 else 6) = n) :
    extractHostFromUrl url = if n ≤ url.length then some ((url.drop n).takeWhile (· ≠ 0x2f)) else none := by
  rw [extractHostFromUrl,if_neg (Nat.not_lt.mpr hlength)]
  simp only [hstart]

/-- The host begins behind the scheme and two more bytes. -/
theorem extractHost_cases (hlength : 3 ≤ url.length) :
    (HostCut url ∧ extractHostFromUrl url = none) ∨
    ¬HostCut url ∧ ∃ host, extractHostFromUrl url = some host ∧ host <:+: url := by
  rw [extractHostFromUrl_eq hlength rfl,HostCut]
  by_cases hcut : url.length < if url.take 3 = ws then 5 else 6
  · exact .inl ⟨hcut,if_neg (Nat.not_le.mpr hcut)⟩
  · refine .inr ⟨hcut,_,if_pos (Nat.not_lt.mp hcut),?_⟩
    exact (List.takeWhile_prefix _).isInfix.trans (List.drop_suffix _ url).isInfix

/-- The request of an opening whose values are all there, read by the server. -/
theorem opening_request {host origin : Str} {config : WebSocketConfig} {protocols : List Str}
    (hhost : extractHostFromUrl url = some host) (hwithin : host <:+: url) (horigin : origin <:+: url)
    (h : ¬Spoilt config protocols) (order : IterationOrder Str) (key : Key) :
    ∃ request, (withHandshakeHeaders config origin protocols
        (WebSocketHandshakeRequest.init url key)).generateHandshakeRequest order = .ok request ∧
      (TextLines.Unbroken 0x0d 0x0a url → offeredKey request = some (sentKey key)) := by
  have hheaders : (withHandshakeHeaders config origin protocols (WebSocketHandshakeRequest.init url key)).headers = _ :=
    withHandshakeHeaders_whole h rfl
  obtain ⟨hurl,hmethod,hkey⟩ := withHandshakeHeaders_same config origin protocols (WebSocketHandshakeRequest.init url key)
  generalize withHandshakeHeaders config origin protocols (WebSocketHandshakeRequest.init url key) = request at *
  have hwhole : Whole (request.withRequiredHeaders host).headers := by
    have hstart : Whole request.headers := by
      rw [hheaders]
      exact (Whole.insert (fun name => by simp) _ _).insert _ _
    exact ((((hstart.insert _ _).insert _ _).insert _ _).insert _ _).insert _ _
  refine ⟨_,generate_whole (hurl ▸ hhost) hwhole order,fun hunbroken => ?_⟩
  have hsendable : Sendable request.headers := by
    rw [hheaders]
    apply Sendable.insert _ (by decide) (by decide) (TextLines.unbroken_of_notMem (by decide))
    apply Sendable.insert _ (by decide) (by decide) (hunbroken.of_infix horigin)
    intro name value hlookup
    simp at hlookup
  have hline : TextLines.Unbroken 0x0d 0x0a request.requestLine := by
    have hfront : 0x0d ∉ ascii "GET ".toList := by decide
    have hback : 0x0a ∉ ascii " HTTP/1.1".toList := by decide
    have hline : request.requestLine = ascii "GET ".toList++(url++ascii " HTTP/1.1".toList) := by
      rw [requestLine,hmethod,hurl]
      rfl
    rw [hline]
    exact TextLines.unbroken_append hfront (hunbroken.append hback)
  have hstored := lookup_key request host
  rw [hkey] at hstored
  exact offeredKey_request (hsendable.withRequiredHeaders (hunbroken.of_infix hwithin)) hwhole hstored hline order

theorem opening_freed {host : Str} {config : WebSocketConfig} {protocols : List Str}
    (hhost : extractHostFromUrl url = some host) (h : Spoilt config protocols) (origin : Str)
    (order : IterationOrder Str) (key : Key) : (withHandshakeHeaders config origin protocols
      (WebSocketHandshakeRequest.init url key)).generateHandshakeRequest order = .error .freed := by
  obtain ⟨name,hname,hlookup⟩ := withHandshakeHeaders_spoilt h origin (WebSocketHandshakeRequest.init url key)
  have hsame := (withHandshakeHeaders_same config origin protocols (WebSocketHandshakeRequest.init url key)).1
  rw [← lookup_withRequiredHeaders _ host hname] at hlookup
  exact generate_freed (hsame ▸ hhost) hlookup order

/-- The handshake of a connection. -/
theorem initiateHandshake_cases (config : WebSocketConfig) (order : IterationOrder Str) {connection : WebSocketConnection}
    (hlength : 3 ≤ connection.url.length) (key : Key) :
    (HostCut connection.url ∧ initiateHandshake config order connection key = .error .trap) ∨
    (¬HostCut connection.url ∧ Spoilt config connection.protocols ∧
      initiateHandshake config order connection key = .error .freed) ∨
    ¬HostCut connection.url ∧ ¬Spoilt config connection.protocols ∧
      ∃ request, initiateHandshake config order connection key = .ok (request,{ connection with state := .opened }) ∧
        (TextLines.Unbroken 0x0d 0x0a connection.url → offeredKey request = some (sentKey key)) := by
  have horigin : extractOriginFromUrl connection.url = some (connection.url.takeWhile (· ≠ 0x2f)) :=
    if_neg (Nat.not_lt.mpr hlength)
  have hwithin : connection.url.takeWhile (· ≠ 0x2f) <:+: connection.url := (List.takeWhile_prefix _).isInfix
  simp only [initiateHandshake,horigin]
  rcases extractHost_cases hlength with ⟨hcut,hnone⟩ | ⟨hlong,host,hhost,hhostIn⟩
  · refine .inl ⟨hcut,?_⟩
    rw [generateHandshakeRequest,(withHandshakeHeaders_same ..).1,WebSocketHandshakeRequest.init,hnone]
    rfl
  · by_cases hspoilt : Spoilt config connection.protocols
    · refine .inr (.inl ⟨hlong,hspoilt,?_⟩)
      rw [opening_freed hhost hspoilt]
      rfl
    · obtain ⟨request,hrequest,hoffered⟩ := opening_request hhost hhostIn hwithin hspoilt order key
      refine .inr (.inr ⟨hlong,hspoilt,request,?_,hoffered⟩)
      rw [hrequest]
      rfl

/-- The connection that the pool hands out again. -/
def openConnection (pool : WebSocketPool) (url : Str) : Option WebSocketConnection :=
  (pool.getConnection url).filter (·.state = .opened)

/-- The protocols of a connection for the URL: the given ones count for a new connection only. -/
def carried (pool : WebSocketPool) (url : Str) (protocols : Option (List Str)) : List Str :=
  match openConnection pool url with
  | some connection => connection.protocols
  | none => protocols.getD []

/-- There is an open connection, or a number for a new one. -/
def Connectable (pool : WebSocketPool) (url : Str) : Prop :=
  (openConnection pool url).isSome ∨ pool.nextConnectionId+1 < 2^64

theorem foldl_addProtocol (protocols : List Str) (connection : WebSocketConnection) :
    (protocols.foldl WebSocketConnection.addProtocol connection).protocols = connection.protocols++protocols := by
  induction protocols generalizing connection with
  | nil => simp
  | cons protocol protocols ih =>
    rw [List.foldl_cons,ih]
    simp [WebSocketConnection.addProtocol]

/-- What `createConnection` hands out from a pool whose entries are in order. -/
theorem createConnection_carried {pool : WebSocketPool} (hpool : WebSocketPools.Backed pool) (url : Str)
    (protocols : Option (List Str)) (now : ℕ) :
    (Connectable pool url ∧ ∃ connection pool',
      pool.createConnection url protocols now ⟨true,true⟩ = (.ok connection,pool') ∧
        connection.url = url ∧ connection.protocols = carried pool url protocols) ∨
    ¬Connectable pool url ∧ ∃ e pool', pool.createConnection url protocols now ⟨true,true⟩ = (.error e,pool') := by
  cases hopen : openConnection pool url with
  | some connection =>
    obtain ⟨hget,hstate⟩ := Option.filter_eq_some_iff.mp hopen
    have hstate : connection.state = .opened := of_decide_eq_true hstate
    have hurl : connection.url = url := by
      rw [WebSocketPool.getConnection] at hget
      split at hget
      · rename_i id hid
        obtain ⟨connection',hlookup,hurl⟩ := hpool.entries url id hid
        cases hget.symm.trans hlookup
        exact hurl
      · cases hget
    refine .inl ⟨.inl (by simp [hopen]),connection,pool,?_,hurl,by simp [carried,hopen]⟩
    rw [WebSocketPool.createConnection,hget]
    exact if_pos hstate
  | none =>
    have hinsert : pool.createConnection url protocols now ⟨true,true⟩ =
        pool.insertConnection url protocols now ⟨true,true⟩ := by
      rw [WebSocketPool.createConnection]
      cases hget : pool.getConnection url with
      | none => rfl
      | some existing =>
        rw [openConnection,hget] at hopen
        exact if_neg (by simpa using hopen)
    rw [hinsert,WebSocketPool.insertConnection]
    by_cases hnext : pool.nextConnectionId+1 < 2^64
    · rw [if_pos hnext]
      refine .inl ⟨.inr hnext,_,_,rfl,(WebSocketPools.foldl_addProtocol _ _).2,?_⟩
      rw [foldl_addProtocol,carried,hopen]
      rfl
    · rw [if_neg hnext]
      refine .inr ⟨?_,_,_,rfl⟩
      rw [Connectable,hopen]
      exact not_or.mpr ⟨Bool.false_ne_true,hnext⟩

/-- The interval and the time of the task fit. -/
def Monitored (config : WebSocketConfig) (now : ℕ) : Prop :=
  config.pingIntervalSeconds = 0 ∨ config.pingIntervalSeconds*1000 < 2^64 ∧ now+config.pingIntervalSeconds*1000 < 2^64

theorem startConnectionMonitoring_isSome (config : WebSocketConfig) (eventLoop : EventLoopManager)
    (connection : WebSocketConnection) (now : ℕ) :
    (startConnectionMonitoring config eventLoop connection now).isSome ↔ Monitored config now := by
  rw [startConnectionMonitoring,Monitored]
  by_cases hzero : config.pingIntervalSeconds = 0
  · simp [hzero]
  rw [if_pos (Nat.pos_of_ne_zero hzero)]
  by_cases hinterval : config.pingIntervalSeconds*1000 < 2^64
  · rw [if_pos hinterval,Option.isSome_map,BackgroundTask.setInterval,Option.isSome_map,BackgroundTasks.checkedAdd]
    by_cases htime : now+config.pingIntervalSeconds*1000 < 2^64
    · rw [if_pos htime]
      exact iff_of_true rfl (.inr ⟨hinterval,htime⟩)
    · rw [if_neg htime]
      exact iff_of_false Bool.false_ne_true (not_or.mpr ⟨hzero,fun h => htime h.2⟩)
  · rw [if_neg hinterval]
    exact iff_of_false Bool.false_ne_true (not_or.mpr ⟨hzero,fun h => hinterval h.1⟩)

namespace WebSocketManager

variable {self : WebSocketManager}

/-- The policy manager, if there is one, lets the URL pass. -/
def Admits (self : WebSocketManager) (url : Str) : Prop :=
  ∀ validateRequest ∈ self.policyManager, validateRequest url = .allowed

/-- `connect` comes as far as the handshake. -/
def Reaches (self : WebSocketManager) (url : Str) : Prop :=
  HasScheme url ∧ self.Admits url ∧ Connectable self.connectionPool url

/-- The manager after calls to its pool. -/
def after (self : WebSocketManager) (calls : List WebSocketPools.Call) : WebSocketManager :=
  { self with connectionPool := run WebSocketPool.call (.init self.config.maxConnectionsPerOrigin) calls }

end WebSocketManager

theorem validUrl_cases (url : Str) :
    (SchemeCut url ∧ ¬HasScheme url ∧ validUrl url = none) ∨
    ¬SchemeCut url ∧ ∃ valid, validUrl url = some valid ∧ (valid = true ↔ HasScheme url) := by
  by_cases hws : url.take 3 = ws
  · have hthree : ¬url.length < 3 := Nat.not_lt.mpr (take_ws hws)
    refine .inr ⟨by simp [SchemeCut,hthree,hws],true,?_,by simp [HasScheme,hws]⟩
    rw [validUrl,if_neg hthree,if_pos hws]
  · by_cases hfour : url.length < 4
    · have hwss : url.take 4 ≠ wss := fun h => absurd (take_three h).1 (Nat.not_le.mpr hfour)
      refine .inl ⟨.inr ⟨hws,hfour⟩,not_or.mpr ⟨hws,hwss⟩,?_⟩
      rw [validUrl,if_neg hws,if_pos hfour,ite_self]
    · have hthree : ¬url.length < 3 := by omega
      refine .inr ⟨by simp [SchemeCut,hthree,hfour],decide (url.take 4 = wss),?_,by simp [HasScheme,hws]⟩
      rw [validUrl,if_neg hthree,if_neg hws,if_neg hfour]

/-- What the checks let pass. -/
theorem checkUrl_cases (self : WebSocketManager) (url : Str) :
    (SchemeCut url ∧ ¬HasScheme url ∧ self.checkUrl url = .error .trap) ∨
    ¬SchemeCut url ∧ (¬(HasScheme url ∧ self.Admits url) ∧
        (∃ e, self.checkUrl url = .error e ∧ e ≠ .trap ∧ e ≠ .freed) ∨
      HasScheme url ∧ self.Admits url ∧ self.checkUrl url = .ok ()) := by
  rcases validUrl_cases url with ⟨hcut,hscheme,hvalid⟩ | ⟨hcut,valid,hvalid,hscheme⟩
  · exact .inl ⟨hcut,hscheme,by rw [WebSocketManager.checkUrl,hvalid]⟩
  · refine .inr ⟨hcut,?_⟩
    cases valid with
    | false =>
      refine .inl ⟨fun h => Bool.noConfusion (hscheme.mpr h.1),.invalidUrl,?_,nofun,nofun⟩
      rw [WebSocketManager.checkUrl,hvalid]
    | true =>
      cases hmanager : self.policyManager with
      | none =>
        refine .inr ⟨hscheme.mp rfl,by simp [WebSocketManager.Admits,hmanager],?_⟩
        rw [WebSocketManager.checkUrl,hvalid,hmanager]
      | some validateRequest =>
        simp only [WebSocketManager.checkUrl,WebSocketManager.Admits,hvalid,hmanager,Option.mem_some_iff,forall_eq']
        cases hurl : validateRequest url with
        | allowed => exact .inr ⟨hscheme.mp rfl,rfl,rfl⟩
        | notAllowed => exact .inl ⟨by simp,_,rfl,nofun,nofun⟩
        | failed => exact .inl ⟨by simp,_,rfl,nofun,nofun⟩

section Outcomes

variable {self : WebSocketManager} {order : IterationOrder Str} {protocols : Option (List Str)} {key : Key}
variable {created monitored : ℕ}

/-- What comes of an opening: a failed check, a slice out of bounds, a value that has been
given back, or a request. -/
theorem connect_cases (hpool : WebSocketPools.Backed self.connectionPool) (order : IterationOrder Str) (url : Str)
    (protocols : Option (List Str)) (key : Key) (created monitored : ℕ) :
    (¬self.Reaches url ∧ ∃ e, (self.connect order url protocols key created monitored).1 = .error e ∧
      (e = .trap ↔ SchemeCut url) ∧ e ≠ .freed) ∨
    ¬SchemeCut url ∧ self.Reaches url ∧
      ((HostCut url ∧ (self.connect order url protocols key created monitored).1 = .error .trap) ∨
      (¬HostCut url ∧ Spoilt self.config (carried self.connectionPool url protocols) ∧
        (self.connect order url protocols key created monitored).1 = .error .freed) ∨
      ¬HostCut url ∧ ¬Spoilt self.config (carried self.connectionPool url protocols) ∧
        ((¬Monitored self.config monitored ∧
          (self.connect order url protocols key created monitored).1 = .error .overflow) ∨
        Monitored self.config monitored ∧ ∃ request connectionId,
          (self.connect order url protocols key created monitored).1 = .ok (request,connectionId) ∧
            (TextLines.Unbroken 0x0d 0x0a url → offeredKey request = some (sentKey key)))) := by
  rw [WebSocketManager.connect]
  rcases checkUrl_cases self url with ⟨hcut,hscheme,hcheck⟩ |
    ⟨hcut,⟨hnot,e,hcheck,htrap,hfreed⟩ | ⟨hscheme,hadmits,hcheck⟩⟩
  · refine .inl ⟨fun h => hscheme h.1,.trap,?_,iff_of_true rfl hcut,nofun⟩
    rw [hcheck]
  · refine .inl ⟨fun h => hnot ⟨h.1,h.2.1⟩,e,?_,iff_of_false htrap hcut,hfreed⟩
    rw [hcheck]
  rcases createConnection_carried hpool url protocols created with
    ⟨hconnectable,connection,pool,hcreate,rfl,hprotocols⟩ | ⟨hconnectable,e,pool,hcreate⟩
  swap
  · refine .inl ⟨fun h => hconnectable h.2.2,.overflow,?_,iff_of_false nofun hcut,nofun⟩
    rw [hcheck,hcreate]
  have hlength : 3 ≤ connection.url.length := by
    rcases hscheme with hws | hwss
    · exact take_ws hws
    · exact le_trans (by decide) (take_three hwss).1
  refine .inr ⟨hcut,⟨hscheme,hadmits,hconnectable⟩,?_⟩
  rw [← hprotocols,hcheck,hcreate]
  rcases initiateHandshake_cases self.config order hlength key with
    ⟨hhost,hshake⟩ | ⟨hhost,hspoilt,hshake⟩ | ⟨hhost,hspoilt,request,hshake,hoffered⟩
  · exact .inl ⟨hhost,by simp only [hshake]⟩
  · exact .inr (.inl ⟨hhost,hspoilt,by simp only [hshake]⟩)
  · refine .inr (.inr ⟨hhost,hspoilt,?_⟩)
    have hmonitored := startConnectionMonitoring_isSome self.config self.eventLoop { connection with state := .opened }
      monitored
    simp only [hshake]
    cases hstart : startConnectionMonitoring self.config self.eventLoop { connection with state := .opened } monitored with
    | none =>
      rw [hstart] at hmonitored
      exact .inl ⟨fun h => Bool.noConfusion (hmonitored.mpr h),rfl⟩
    | some eventLoop =>
      rw [hstart] at hmonitored
      exact .inr ⟨hmonitored.mp rfl,request,connection.connectionId,rfl,hoffered⟩

end Outcomes

end Opening

end ZNet.WebSocketHandshake
