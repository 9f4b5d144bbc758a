import ZNet.BodyRing
import Mathlib.Data.List.AList

/-!
# The network engine

The state behind an engine handle and its C entry points on TCP connections, QUIC
endpoints and body rings. Every call takes the answers of the operating system as
arguments. A null pointer is a flag, a null connection handle is `0`. `rustls` is
a parameter with an abstract connection state.
-/

namespace ZNet.Engine
open BodyRing

def nsOk : ℤ := 0
def nsErrorFailure : ℤ := -2147467259

inductive ErrorKind
  | wouldBlock | other
deriving DecidableEq

/-- What the operating system answers to one call on a socket. -/
inductive Io
  | ready (n : ℕ)
  | error (e : ErrorKind)
deriving DecidableEq

/-- A non-blocking stream: what the peer sends before it closes, and what was written. -/
structure TcpStream where
  incoming : List UInt8
  outgoing : List UInt8
deriving DecidableEq

namespace TcpStream

/-- At least one byte while there is one; no byte at the end of the stream. -/
def read (s : TcpStream) (io : Io) (len : ℕ) : Except ErrorKind (List UInt8)×TcpStream :=
  match io with
  | .error e => (.error e,s)
  | .ready n =>
    let k := min (max 1 n) len
    (.ok (s.incoming.take k),{ s with incoming := s.incoming.drop k })

def write (s : TcpStream) (io : Io) (src : List UInt8) : Except ErrorKind ℕ×TcpStream :=
  match io with
  | .error e => (.error e,s)
  | .ready n => (.ok (min n src.length),{ s with outgoing := s.outgoing++src.take n })

end TcpStream

inductive ProtocolVersion
  | tls12 | tls13 | other
deriving DecidableEq

/-- The part of `rustls` the engine calls, over the state `σ` of a `ClientConnection`.
`client` is `ServerName::try_from` followed by `ClientConnection::new`. `readTls` and
`processNewPackets` also say whether they succeeded. `writeTls` hands out pending
ciphertext, at most as many bytes as the socket takes. -/
structure Rustls (σ : Type) where
  client : String → Option σ
  isHandshaking : σ → Bool
  wantsRead : σ → Bool
  wantsWrite : σ → Bool
  protocolVersion : σ → Option ProtocolVersion
  readTls : σ → List UInt8 → Bool×σ
  processNewPackets : σ → Bool×σ
  writeTls : σ → ℕ → List UInt8×σ
  reader : σ → ℕ → Except ErrorKind (List UInt8)×σ
  writer : σ → List UInt8 → Option ℕ×σ

def maxBufferSize : ℕ := 16384

structure Connection (σ : Type) where
  stream : TcpStream
  isPaused : Bool
  host : String
  port : UInt16
  tlsconn : Option σ

def Connection.new {σ : Type} (stream : TcpStream) (host : String) (port : UInt16) : Connection σ :=
  ⟨stream,false,host,port,none⟩

/-- An event source, named by the kind and the id of the connection that owns it. -/
inductive Source
  | tcp (connId : ℕ)
  | udp (connId : ℕ)
deriving DecidableEq

def Source.connId : Source → ℕ
  | .tcp connId => connId
  | .udp connId => connId

structure Registration where
  token : ℕ
  source : Source
deriving DecidableEq

/-- What `Poll` watches. A source that is dropped leaves it. -/
abbrev Registry := List Registration

namespace Registry

def sources (reg : Registry) : List Source := reg.map Registration.source

def tokens (reg : Registry) : List ℕ := reg.map Registration.token

/-- `register` fails on a source that is registered already, or if the system refuses. -/
def register (reg : Registry) (ok : Bool) (source : Source) (token : ℕ) : Option Registry :=
  if ok ∧ source ∉ reg.sources then some (⟨token,source⟩::reg) else none

def drop (reg : Registry) (source : Source) : Registry := reg.filter (fun r => r.source ≠ source)

/-- `deregister` fails on a source that is not registered, or if the system refuses. -/
def deregister (reg : Registry) (ok : Bool) (source : Source) : Option Registry :=
  if ok ∧ source ∈ reg.sources then some (reg.drop source) else none

theorem mem_sources_drop {reg : Registry} {source s : Source} :
    s ∈ (reg.drop source).sources ↔ s ≠ source ∧ s ∈ reg.sources := by
  simp only [sources,drop,List.mem_map,List.mem_filter,decide_eq_true_eq]
  constructor
  · rintro ⟨r,⟨hr,hne⟩,rfl⟩
    exact ⟨hne,r,hr,rfl⟩
  · rintro ⟨hne,r,hr,rfl⟩
    exact ⟨r,⟨hr,hne⟩,rfl⟩

theorem nodup_sources_drop {reg : Registry} (h : reg.sources.Nodup) (source : Source) :
    (reg.drop source).sources.Nodup :=
  h.sublist ((List.filter_sublist).map _)

end Registry

/-- A finite map with numbers as keys: the engine's `HashMap`s. -/
abbrev IdMap (α : Type) := AList (fun _ : ℕ => α)

structure QuicEndpointEntry where
  serverAddr : ℕ
  localAddr : ℕ
deriving DecidableEq

structure QuicConnectionEntry where
  remote : ℕ
deriving DecidableEq

structure TlsState (σ : Type) where
  stream : TcpStream
  tls : σ
  host : String
  port : UInt16
  isClosed : Bool

structure NetEngine (σ : Type) where
  registry : Registry
  connections : IdMap (Connection σ)
  nextTlsId : ℕ
  tlsStates : IdMap (TlsState σ)
  nextConnId : ℕ
  bodyRings : IdMap ℕ
  connBodyRings : IdMap ℕ
  quicEndpoints : IdMap QuicEndpointEntry
  quicConns : IdMap QuicConnectionEntry
  nextQuicId : ℕ

def NetEngine.new (σ : Type) : NetEngine σ := ⟨[],∅,1,∅,1,∅,∅,∅,∅,1⟩

/-- The engine and the shared memory its `body_rings` point to. -/
structure World (σ : Type) where
  engine : NetEngine σ
  rings : ℕ → BodyRingDescriptor

section Connect

variable {σ : Type} (R : Rustls σ)

/-- Arguments and environment of `net_connect`. `addrs` is what the host resolves
to, with whether each address can be connected to; `incoming` is what the peer
will send. -/
structure ConnectCall where
  engineNull : Bool
  host : String
  port : UInt16
  addrs : Option (List Bool)
  registers : Bool
  incoming : List UInt8

/-- The stream exists and is registered. -/
def ConnectCall.opens (c : ConnectCall) : Bool :=
  !c.engineNull && (c.addrs.getD []).any id && c.registers

def initTls (conn : Connection σ) : Connection σ :=
  if conn.port = 443 then { conn with tlsconn := R.client conn.host } else conn

def netConnect (e : NetEngine σ) (c : ConnectCall) : ℕ×NetEngine σ :=
  if c.engineNull then (0,e)
  else match c.addrs with
    | none => (0,e)
    | some addrs =>
      if addrs.any id then
        let connId := e.nextConnId
        let e := { e with nextConnId := connId+1 }
        match e.registry.register c.registers (.tcp connId) connId with
        | none => (0,e)
        | some registry =>
          let conn := initTls R (.new ⟨c.incoming,[]⟩ c.host c.port)
          (connId,{ e with registry := registry, connections := e.connections.insert connId conn })
      else (0,e)

def netClose (e : NetEngine σ) (engineNull : Bool) (connHandle : ℕ) : ℤ×NetEngine σ :=
  if engineNull ∨ connHandle = 0 then (nsErrorFailure,e)
  else if connHandle ∈ e.connections then
    (nsOk,{ e with
      connections := e.connections.erase connHandle
      registry := e.registry.drop (.tcp connHandle) })
  else (nsErrorFailure,e)

/-- Arguments and environment of `net_http3_connect`: the addresses the host
resolves to and the answers of the fallible steps in order. Those after the
registration are the crypto configuration and `endpoint.connect`. -/
structure Http3Call where
  engineNull : Bool
  host : String
  port : UInt16
  addrs : Option (List ℕ)
  binds : Bool
  nonblocking : Bool
  localAddr : Option ℕ
  registers : Bool
  crypto : Bool
  connects : Bool

/-- The server's and the own address, once the socket is open. -/
def Http3Call.binding (c : Http3Call) : Option (ℕ×ℕ) :=
  if c.engineNull then none
  else do
    let addrs ← c.addrs
    let serverAddr ← addrs.head?
    if c.binds && c.nonblocking then return (serverAddr,← c.localAddr) else none

/-- The whole call succeeds. -/
def Http3Call.opens (c : Http3Call) : Bool := c.binding.isSome && c.registers && c.crypto && c.connects

def netHttp3Connect (e : NetEngine σ) (c : Http3Call) : ℕ×NetEngine σ :=
  match c.binding with
  | none => (0,e)
  | some (serverAddr,localAddr) =>
    let connId := e.nextQuicId
    let e := { e with nextQuicId := connId+1 }
    match e.registry.register c.registers (.udp connId) connId with
    | none => (0,e)
    | some registry =>
      if c.crypto && c.connects then
        (connId,{ e with
          registry := registry
          quicEndpoints := e.quicEndpoints.insert connId ⟨serverAddr,localAddr⟩
          quicConns := e.quicConns.insert connId ⟨serverAddr⟩ })
      else (0,{ e with registry := registry.drop (.udp connId) })

def netHttp3Close (e : NetEngine σ) (engineNull : Bool) (connHandle : ℕ) : ℤ×NetEngine σ :=
  if engineNull ∨ connHandle = 0 then (nsErrorFailure,e)
  else (nsOk,{ e with
    quicConns := e.quicConns.erase connHandle
    quicEndpoints := e.quicEndpoints.erase connHandle
    registry := if connHandle ∈ e.quicEndpoints then e.registry.drop (.udp connHandle) else e.registry })

end Connect

section Rings

variable {σ : Type}

def netBodyRingRegister (e : NetEngine σ) (engineNull : Bool) (id ptr : ℕ) : ℤ×NetEngine σ :=
  if engineNull then (nsErrorFailure,e) else (0,{ e with bodyRings := e.bodyRings.insert id ptr })

def netBodyRingUnregister (e : NetEngine σ) (engineNull : Bool) (id : ℕ) : ℤ×NetEngine σ :=
  if engineNull then (nsErrorFailure,e) else (0,{ e with bodyRings := e.bodyRings.erase id })

def netConnBindBodyRing (e : NetEngine σ) (engineNull : Bool) (connHandle id : ℕ) : ℤ×NetEngine σ :=
  if engineNull ∨ connHandle = 0 then (nsErrorFailure,e)
  else (0,{ e with connBodyRings := e.connBodyRings.insert connHandle id })

/-- The consumer advances the tail of a ring. -/
def advanceTail (w : World σ) (ptr bytes : ℕ) : World σ :=
  { w with rings := Function.update w.rings ptr ((w.rings ptr).release bytes) }

end Rings

section Read

variable {σ : Type} (R : Rustls σ)

/-- The return code of `net_read`, what it stores through `bytes_read`, and the
bytes it put into the ring or the buffer. -/
structure ReadOutcome where
  status : ℤ
  bytesRead : Option ℕ
  data : List UInt8
deriving DecidableEq

def ReadOutcome.failed : ReadOutcome := ⟨nsErrorFailure,none,[]⟩

def ReadOutcome.ok (data : List UInt8) : ReadOutcome := ⟨nsOk,some data.length,data⟩

/-- Arguments of `net_read`, the answer of the socket, and whether `deregister` is granted. -/
structure ReadCall where
  engineNull : Bool
  connHandle : ℕ
  bufferNull : Bool
  bufferLen : ℕ
  io : Io
  deregisters : Bool

/-- `ring.capacity * 95 / 100` in wrapping machine arithmetic. -/
def highWatermark (capacity : ℕ) : ℕ := capacity*95%2^64/100

def lowWatermark (capacity : ℕ) : ℕ := capacity*50%2^64/100

def availableRead (ring : BodyRingDescriptor) : ℕ := wrappingSub ring.head ring.tail

/-- The bytes that `read_vectored` scattered over the iovecs, committed. -/
def fill (ring : BodyRingDescriptor) (bufs : List IndexRange) (bytes : List UInt8) : BodyRingDescriptor :=
  (ring.putAll ((bufs.flatMap IndexRange.indices).zip bytes)).commitWrite bytes.length

/-- The ring branch of `net_read` up to its backpressure check. -/
def readRing (ring : BodyRingDescriptor) (stream : TcpStream) (io : Io) :
    ReadOutcome×BodyRingDescriptor×TcpStream :=
  match readIovecsAt ring.capacity ring.head ring.tail with
  | none => (.failed,ring,stream)
  | some bufs =>
    match stream.read io (bufs.map IndexRange.len).sum with
    | (.error _,stream) => (.failed,ring,stream)
    | (.ok bytes,stream) =>
      if bytes.length = 0 then (.failed,ring,stream) else (.ok bytes,fill ring bufs bytes,stream)

/-- The high watermark check that follows a successful read. -/
def overfull (out : ReadOutcome) (ring : BodyRingDescriptor) : Bool :=
  out.status = nsOk ∧ availableRead ring > highWatermark ring.capacity

/-- The plaintext of the TLS connection that is ready, up to the length of the buffer. -/
def readPlaintext (conn : Connection σ) (t : σ) (bufferLen : ℕ) : ReadOutcome×Connection σ :=
  match R.reader t bufferLen with
  | (.ok data,t) => (.ok data,{ conn with tlsconn := some t })
  | (.error _,t) => (.failed,{ conn with tlsconn := some t })

/-- The branch of `net_read` on a TLS connection without a ring. -/
def readTlsconn (conn : Connection σ) (t : σ) (io : Io) (bufferLen : ℕ) : ReadOutcome×Connection σ :=
  match conn.stream.read io maxBufferSize with
  | (.error .wouldBlock,stream) => readPlaintext R { conn with stream := stream } t bufferLen
  | (.error .other,stream) => (.failed,{ conn with stream := stream })
  | (.ok bytes,stream) =>
    let conn := { conn with stream := stream }
    if bytes.length = 0 then (.failed,conn)
    else match R.readTls t bytes with
      | (false,t) => (.failed,{ conn with tlsconn := some t })
      | (true,t) =>
        match R.processNewPackets t with
        | (false,t) => (.failed,{ conn with tlsconn := some t })
        | (true,t) => readPlaintext R conn t bufferLen

/-- The branches of `net_read` that copy to the caller's buffer. -/
def readCopy (conn : Connection σ) (io : Io) (bufferLen : ℕ) : ReadOutcome×Connection σ :=
  match conn.tlsconn with
  | some t => readTlsconn R conn t io bufferLen
  | none =>
    match conn.stream.read io bufferLen with
    | (.error _,stream) => (.failed,{ conn with stream := stream })
    | (.ok data,stream) => (.ok data,{ conn with stream := stream })

/-- The ring `net_read` and `net_poll` find for a connection. -/
def NetEngine.boundRing (e : NetEngine σ) (connId : ℕ) : Option ℕ := do
  let ringId ← e.connBodyRings.lookup connId
  e.bodyRings.lookup ringId

def setConnection (e : NetEngine σ) (connId : ℕ) (conn : Connection σ) : NetEngine σ :=
  { e with connections := e.connections.insert connId conn }

def netRead (w : World σ) (c : ReadCall) : ReadOutcome×World σ :=
  if c.engineNull ∨ c.connHandle = 0 ∨ c.bufferNull then (.failed,w)
  else match w.engine.boundRing c.connHandle,w.engine.connections.lookup c.connHandle with
    | _,none => (.failed,w)
    | some ptr,some conn =>
      let (out,ring,stream) := readRing (w.rings ptr) conn.stream c.io
      let e := if overfull out ring then
          { w.engine with registry :=
              (w.engine.registry.deregister c.deregisters (.tcp c.connHandle)).getD w.engine.registry }
        else w.engine
      let conn := { conn with stream := stream, isPaused := conn.isPaused || overfull out ring }
      (out,⟨setConnection e c.connHandle conn,Function.update w.rings ptr ring⟩)
    | none,some conn =>
      let (out,conn) := readCopy R conn c.io c.bufferLen
      (out,{ w with engine := setConnection w.engine c.connHandle conn })

end Read

section Write

variable {σ : Type} (R : Rustls σ)

structure WriteOutcome where
  status : ℤ
  bytesWritten : Option ℕ
deriving DecidableEq

def WriteOutcome.failed : WriteOutcome := ⟨nsErrorFailure,none⟩

def WriteOutcome.ok (n : ℕ) : WriteOutcome := ⟨nsOk,some n⟩

/-- Arguments of `net_write` and the answers of the socket. After the listed answers
it takes no more and would block. -/
structure WriteCall where
  engineNull : Bool
  connHandle : ℕ
  dataNull : Bool
  data : List UInt8
  ios : List Io

/-- Flush ciphertext to the socket; `false` is an error other than `WouldBlock`. -/
def flush : List Io → TcpStream → σ → Bool×TcpStream×σ
  | [],stream,t => (true,stream,t)
  | io::ios,stream,t =>
    if R.wantsWrite t then
      match io with
      | .error .wouldBlock => (true,stream,t)
      | .error .other => (false,stream,t)
      | .ready n =>
        let (bytes,t) := R.writeTls t n
        flush ios { stream with outgoing := stream.outgoing++bytes } t
    else (true,stream,t)

def writeConnection (conn : Connection σ) (data : List UInt8) (ios : List Io) :
    WriteOutcome×Connection σ :=
  match conn.tlsconn with
  | some t =>
    match R.writer t data with
    | (none,t) => (.failed,{ conn with tlsconn := some t })
    | (some n,t) =>
      match flush R ios conn.stream t with
      | (false,stream,t) => (.failed,{ conn with stream := stream, tlsconn := some t })
      | (true,stream,t) => (.ok n,{ conn with stream := stream, tlsconn := some t })
  | none =>
    match conn.stream.write (ios.headD (.error .wouldBlock)) data with
    | (.error _,stream) => (.failed,{ conn with stream := stream })
    | (.ok n,stream) => (.ok n,{ conn with stream := stream })

def netWrite (w : World σ) (c : WriteCall) : WriteOutcome×World σ :=
  if c.engineNull ∨ c.connHandle = 0 ∨ c.dataNull then (.failed,w)
  else match w.engine.connections.lookup c.connHandle with
    | none => (.failed,w)
    | some conn =>
      let (out,conn) := writeConnection R conn c.data c.ios
      (out,{ w with engine := setConnection w.engine c.connHandle conn })

end Write

section Poll

variable {σ : Type}

/-- The resume check of `poll` for one entry of `conn_body_rings`. -/
def resume (ok : ℕ → Bool) (w : World σ) (connId : ℕ) : World σ :=
  match w.engine.connections.lookup connId,w.engine.boundRing connId with
  | some conn,some ptr =>
    if conn.isPaused ∧ availableRead (w.rings ptr) < lowWatermark (w.rings ptr).capacity then
      let registry := (w.engine.registry.register (ok connId) (.tcp connId) connId).getD w.engine.registry
      let conn := { conn with isPaused := false }
      { w with engine := setConnection { w.engine with registry := registry } connId conn }
    else w
  | _,_ => w

/-- `order` is the order in which the hash map yields the keys of `conn_body_rings`,
`events` the number of events or an error of the system's poll. -/
def netPoll (w : World σ) (engineNull : Bool) (order : List ℕ) (ok : ℕ → Bool) (events : Option ℕ) :
    ℤ×World σ :=
  if engineNull then (nsErrorFailure,w)
  else ((events.map Int.ofNat).getD (-1),order.foldl (resume ok) w)

end Poll

/-- A `rustls` that has no client for any host. -/
def noClient : Rustls Unit where
  client _ := none
  isHandshaking _ := false
  wantsRead _ := false
  wantsWrite _ := false
  protocolVersion _ := none
  readTls t _ := (true,t)
  processNewPackets t := (true,t)
  writeTls t _ := ([],t)
  reader t _ := (.error .wouldBlock,t)
  writer t _ := (none,t)

def plainConnect : ConnectCall := ⟨false,"example.com",80,some [true],true,[]⟩

end ZNet.Engine
