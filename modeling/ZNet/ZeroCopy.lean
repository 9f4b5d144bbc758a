import ZNet.Engine
import ZNet.Runs

/-!
# The zero-copy read path

With a bound body ring `net_read` scatters the socket's bytes into the ring; without
one it decrypts them if the connection has a `tlsconn`, and copies them otherwise.
Here successive calls on one connection are compared on the same socket bytes.
-/

namespace ZNet.ZeroCopy
open BodyRing BodyRingDescriptor Engine Runs

variable {σ : Type} {R : Rustls σ}

/-- What happens to one connection: `net_read` is called on it, or the consumer of a
ring advances its tail. -/
inductive Event
  | read (bufferLen : ℕ) (io : Io) (deregisters : Bool)
  | advanceTail (ptr bytes : ℕ)

/-- The bytes that the successive calls of `net_read` deliver, in order. -/
def delivered (R : Rustls σ) (connId : ℕ) : World σ → List Event → List UInt8
  | _,[] => []
  | w,.read bufferLen io deregisters::events =>
    let (out,w') := netRead R w ⟨false,connId,false,bufferLen,io,deregisters⟩
    out.data++delivered R connId w' events
  | w,.advanceTail ptr bytes::events => delivered R connId (advanceTail w ptr bytes) events

/-- The engine and the rings after an event. -/
def step (R : Rustls σ) (connId : ℕ) (w : World σ) : Event → World σ
  | .read bufferLen io deregisters => (netRead R w ⟨false,connId,false,bufferLen,io,deregisters⟩).2
  | .advanceTail ptr bytes => advanceTail w ptr bytes

/-- What a call of `net_read` delivers is what the unread bytes of the ring grow by. -/
def RingGains (R : Rustls σ) (connId ptr : ℕ) (w : World σ) : Event → Prop
  | .read bufferLen io deregisters =>
    let (out,w') := netRead R w ⟨false,connId,false,bufferLen,io,deregisters⟩
    (w.rings ptr).Valid → (w.rings ptr).head+out.data.length < 2^64 → Wrote (w.rings ptr) (w'.rings ptr) out.data
  | .advanceTail _ _ => True

/-- The engine once a ring is registered and bound to a connection. -/
def withRing (e : NetEngine σ) (connId ringId ptr : ℕ) : NetEngine σ :=
  (netConnBindBodyRing (netBodyRingRegister e false ringId ptr).2 false connId ringId).2

/-- The engine without a binding for a connection. -/
def withoutRing (e : NetEngine σ) (connId : ℕ) : NetEngine σ :=
  { e with connBodyRings := e.connBodyRings.erase connId }

/-- For a connection that `net_connect` creates and all bytes of its socket: what a
bound ring receives is a front part of what the calls without a ring could deliver. -/
def RingMatchesCopy (R : Rustls σ) (e : NetEngine σ) (c : ConnectCall) : Prop :=
  ∀ incoming rings ringId ptr events,
    let (connId,e') := netConnect R e { c with incoming := incoming }
    ∃ copyEvents, delivered R connId ⟨withRing e' connId ringId ptr,rings⟩ events <+:
      delivered R connId ⟨withoutRing e' connId,rings⟩ copyEvents

/-- `rustls` as a function from the ciphertext stream to the plaintext stream: every
connection has `received` some ciphertext, of which `read_tls` may take only a part,
and handed out the `taken` plaintext. A longer ciphertext decrypts to a longer
plaintext, and no plaintext is longer than its ciphertext. -/
structure Decryption (R : Rustls σ) where
  decrypt : List UInt8 → List UInt8
  received : σ → List UInt8
  taken : σ → List UInt8
  client : ∀ host t, R.client host = some t → received t = [] ∧ taken t = []
  readTls : ∀ t xs, ∃ k, received (R.readTls t xs).2 = received t++xs.take k
  taken_readTls : ∀ t xs, taken (R.readTls t xs).2 = taken t
  received_process : ∀ t, received (R.processNewPackets t).2 = received t
  taken_process : ∀ t, taken (R.processNewPackets t).2 = taken t
  received_reader : ∀ t n, received (R.reader t n).2 = received t
  reader_ok : ∀ t n data t', R.reader t n = (.ok data,t') → taken t' = taken t++data ∧
    (taken t <+: decrypt (received t) → taken t++data <+: decrypt (received t))
  reader_error : ∀ t n e t', R.reader t n = (.error e,t') → taken t' = taken t
  decrypt_mono : ∀ xs ys, decrypt xs <+: decrypt (xs++ys)
  decrypt_length : ∀ xs, (decrypt xs).length ≤ xs.length

/-- A handle that is not null belongs to a connection with a fresh stream. -/
theorem netConnect_created {e : NetEngine σ} {c : ConnectCall} (h : (netConnect R e c).1 ≠ 0) :
    ∃ connId e', connId ≠ 0 ∧ netConnect R e c = (connId,e') ∧
      e'.connections.lookup connId = some (initTls R (.new ⟨c.incoming,[]⟩ c.host c.port)) := by
  obtain ⟨engineNull,host,port,addrs,registers,incoming⟩ := c
  cases engineNull with
  | true => exact (h rfl).elim
  | false =>
    cases addrs with
    | none => exact (h rfl).elim
    | some addrs =>
      cases hany : addrs.any id with
      | false => simp [netConnect,hany] at h
      | true =>
        cases hreg : e.registry.register registers (.tcp e.nextConnId) e.nextConnId with
        | none => simp [netConnect,hany,hreg] at h
        | some registry =>
          have heq : netConnect R e ⟨false,host,port,some addrs,registers,incoming⟩ =
              (e.nextConnId,{ e with
                nextConnId := e.nextConnId+1
                registry := registry
                connections := e.connections.insert e.nextConnId (initTls R (.new ⟨incoming,[]⟩ host port)) }) := by
            simp [netConnect,hany,hreg]
          refine ⟨_,_,?_,heq,AList.lookup_insert _⟩
          rw [heq] at h
          exact h

theorem netConnect_incoming (e : NetEngine σ) (c : ConnectCall) (incoming : List UInt8) :
    (netConnect R e { c with incoming := incoming }).1 = (netConnect R e c).1 := by
  simp only [netConnect]
  repeat' split
  all_goals rfl

theorem initTls_tlsconn (host : String) (port : UInt16) (stream : TcpStream) :
    (initTls R (.new stream host port)).tlsconn = if port = 443 then R.client host else none := by
  rw [initTls,Connection.new]
  split_ifs <;> rfl

theorem initTls_stream (host : String) (port : UInt16) (stream : TcpStream) :
    (initTls R (.new stream host port)).stream = stream := by
  rw [initTls,Connection.new]
  split_ifs <;> rfl

section Bound

variable {w : World σ} {connId ptr : ℕ} {conn : Connection σ}

/-- The socket loses exactly the bytes that go into the ring. -/
theorem readRing_incoming (ring : BodyRingDescriptor) (stream : TcpStream) (io : Io) :
    stream.incoming = (readRing ring stream io).1.data++(readRing ring stream io).2.2.incoming := by
  rw [readRing]
  cases readIovecsAt ring.capacity ring.head ring.tail with
  | none => rfl
  | some bufs =>
    cases io with
    | error e => rfl
    | ready n =>
      simp only [TcpStream.read]
      split_ifs with hz
      · have hnil := List.length_eq_zero_iff.mp hz
        have happ := List.take_append_drop (min (max 1 n) (bufs.map IndexRange.len).sum) stream.incoming
        rw [hnil] at happ
        exact happ.symm
      · exact (List.take_append_drop _ _).symm

/-- In a valid ring the delivered bytes follow the unread ones, where the consumer
finds them. -/
theorem readRing_wrote {ring : BodyRingDescriptor} (hr : ring.Valid) (stream : TcpStream) (io : Io)
    (hlt : ring.head+(readRing ring stream io).1.data.length < 2^64) :
    Wrote ring (readRing ring stream io).2.1 (readRing ring stream io).1.data := by
  rw [readRing] at hlt ⊢
  cases hio : readIovecsAt ring.capacity ring.head ring.tail with
  | none => exact .refl hr
  | some bufs =>
    have hidx := hr.readIovecsAt_indices hio
    have hsum : (bufs.map IndexRange.len).sum = ring.room := by
      rw [IndexRange.sum_len,hidx,CircularWindow.length_slots]
    rw [hio] at hlt
    cases io with
    | error e => exact .refl hr
    | ready n =>
      simp only [TcpStream.read] at hlt ⊢
      split_ifs at hlt ⊢ with hz
      · exact .refl hr
      · simp only [fill,hidx]
        refine append_wrote hr ?_ hlt
        rw [List.length_take]
        omega

theorem netRead_bound (hid : connId ≠ 0) (hb : w.engine.boundRing connId = some ptr)
    (hl : w.engine.connections.lookup connId = some conn) (bufferLen : ℕ) (io : Io) (deregisters : Bool) :
    ∃ w' conn', netRead R w ⟨false,connId,false,bufferLen,io,deregisters⟩ =
        ((readRing (w.rings ptr) conn.stream io).1,w') ∧
      w'.engine.boundRing connId = some ptr ∧ w'.engine.connections.lookup connId = some conn' ∧
      conn'.stream = (readRing (w.rings ptr) conn.stream io).2.2 ∧
      w'.rings ptr = (readRing (w.rings ptr) conn.stream io).2.1 := by
  simp only [netRead,hb,hl,hid,Bool.false_eq_true,or_self,if_false]
  refine ⟨_,_,rfl,?_,AList.lookup_insert _,rfl,Function.update_self ..⟩
  rw [← hb]
  split_ifs <;> rfl

/-- Every call of a run puts into the bound ring what it delivers. -/
theorem ringGains_along (hid : connId ≠ 0) (hb : w.engine.boundRing connId = some ptr)
    (hl : w.engine.connections.lookup connId = some conn) (events : List Event) :
    Along (step R connId) (RingGains R connId ptr) w events := by
  refine along_of_step (I:=fun w => w.engine.boundRing connId = some ptr ∧
    ∃ conn, w.engine.connections.lookup connId = some conn) ?_ ⟨hb,conn,hl⟩ events
  rintro w event ⟨hb,conn,hl⟩
  cases event with
  | read bufferLen io deregisters =>
    obtain ⟨w',conn',hread,hb',hl',-,hring⟩ := netRead_bound (R:=R) hid hb hl bufferLen io deregisters
    rw [RingGains,step,hread]
    refine ⟨fun hvalid hlt => ?_,hb',conn',hl'⟩
    rw [hring]
    exact readRing_wrote hvalid conn.stream io hlt
  | advanceTail p bytes => exact ⟨trivial,hb,conn,hl⟩

/-- However the reads and the consumer alternate, the ring receives the socket's bytes
as they are. -/
theorem delivered_bound (hid : connId ≠ 0) (hb : w.engine.boundRing connId = some ptr)
    (hl : w.engine.connections.lookup connId = some conn) (events : List Event) :
    delivered R connId w events <+: conn.stream.incoming := by
  induction events generalizing w conn with
  | nil => exact List.nil_prefix
  | cons event events ih =>
    cases event with
    | read bufferLen io deregisters =>
      obtain ⟨w',conn',hread,hb',hl',hstream,-⟩ := netRead_bound (R:=R) hid hb hl bufferLen io deregisters
      rw [delivered,hread,readRing_incoming (w.rings ptr) conn.stream io,← hstream]
      exact (List.prefix_append_right_inj _).mpr (ih hb' hl')
    | advanceTail p bytes => exact ih (w:=advanceTail w p bytes) hb hl

end Bound

section Unbound

variable {w : World σ} {connId : ℕ} {conn : Connection σ}

theorem netRead_unbound (hid : connId ≠ 0) (hb : w.engine.boundRing connId = none)
    (hl : w.engine.connections.lookup connId = some conn) (bufferLen : ℕ) (io : Io) (deregisters : Bool) :
    ∃ w', netRead R w ⟨false,connId,false,bufferLen,io,deregisters⟩ = ((readCopy R conn io bufferLen).1,w') ∧
      w'.engine.boundRing connId = none ∧
      w'.engine.connections.lookup connId = some (readCopy R conn io bufferLen).2 := by
  simp only [netRead,hb,hl,hid,Bool.false_eq_true,or_self,if_false]
  exact ⟨_,rfl,hb,AList.lookup_insert _⟩

/-- What reading does to a TLS connection: some bytes leave the socket, `rustls`
receives a part of them, and `data` is the next plaintext. -/
structure TlsStep (D : Decryption R) (stream : TcpStream) (t : σ) (data : List UInt8) (stream' : TcpStream)
    (t' : σ) : Prop where
  received : ∃ bytes r, stream.incoming = bytes++stream'.incoming ∧ r.Sublist bytes ∧
    D.received t' = D.received t++r
  taken : D.taken t' = D.taken t++data
  sound : D.taken t <+: D.decrypt (D.received t) → D.taken t' <+: D.decrypt (D.received t')

theorem TlsStep.refl (D : Decryption R) (stream : TcpStream) (t : σ) : TlsStep D stream t [] stream t :=
  ⟨⟨[],[],rfl,.slnil,by simp⟩,by simp,id⟩

theorem TlsStep.trans {D : Decryption R} {stream stream' stream'' : TcpStream} {t t' t'' : σ}
    {data data' : List UInt8} (h : TlsStep D stream t data stream' t')
    (h' : TlsStep D stream' t' data' stream'' t'') : TlsStep D stream t (data++data') stream'' t'' := by
  obtain ⟨bytes,r,hin,hsub,hrec⟩ := h.received
  obtain ⟨bytes',r',hin',hsub',hrec'⟩ := h'.received
  refine ⟨⟨bytes++bytes',r++r',?_,hsub.append hsub',?_⟩,?_,fun hs => h'.sound (h.sound hs)⟩
  · rw [hin,hin',List.append_assoc]
  · rw [hrec',hrec,List.append_assoc]
  · rw [h'.taken,h.taken,List.append_assoc]

theorem readPlaintext_step (D : Decryption R) (conn : Connection σ) (t : σ) (bufferLen : ℕ) :
    ∃ t', (readPlaintext R conn t bufferLen).2.tlsconn = some t' ∧
      TlsStep D conn.stream t (readPlaintext R conn t bufferLen).1.data
        (readPlaintext R conn t bufferLen).2.stream t' := by
  have hrec := D.received_reader t bufferLen
  rw [readPlaintext]
  rcases hr : R.reader t bufferLen with ⟨r,t'⟩
  rw [hr] at hrec
  refine ⟨t',?_⟩
  cases r with
  | error e =>
    have htaken := D.reader_error t bufferLen e t' hr
    refine ⟨rfl,⟨[],[],rfl,.slnil,by simpa using hrec⟩,by simpa [ReadOutcome.failed] using htaken,?_⟩
    intro hsound
    rw [htaken,hrec]
    exact hsound
  | ok data =>
    obtain ⟨htaken,hsound⟩ := D.reader_ok t bufferLen data t' hr
    refine ⟨rfl,⟨[],[],rfl,.slnil,by simpa using hrec⟩,htaken,?_⟩
    rw [htaken,hrec]
    exact hsound

/-- Bytes that left the socket are fed to `rustls`. -/
theorem readTls_step (D : Decryption R) {stream stream' : TcpStream} (t : σ) {bytes : List UInt8}
    (hin : stream.incoming = bytes++stream'.incoming) :
    TlsStep D stream t [] stream' (R.readTls t bytes).2 := by
  obtain ⟨k,hrec⟩ := D.readTls t bytes
  refine ⟨⟨bytes,bytes.take k,hin,List.take_sublist k bytes,hrec⟩,?_,?_⟩
  · rw [D.taken_readTls,List.append_nil]
  · intro hsound
    rw [D.taken_readTls,hrec]
    exact hsound.trans (D.decrypt_mono _ _)

theorem processNewPackets_step (D : Decryption R) (stream : TcpStream) (t : σ) :
    TlsStep D stream t [] stream (R.processNewPackets t).2 := by
  refine ⟨⟨[],[],rfl,.slnil,?_⟩,?_,?_⟩
  · rw [D.received_process,List.append_nil]
  · rw [D.taken_process,List.append_nil]
  · rw [D.taken_process,D.received_process]
    exact id

theorem readTlsconn_step (D : Decryption R) (conn : Connection σ) (t : σ) (ht : conn.tlsconn = some t) (io : Io)
    (bufferLen : ℕ) :
    ∃ t', (readTlsconn R conn t io bufferLen).2.tlsconn = some t' ∧
      TlsStep D conn.stream t (readTlsconn R conn t io bufferLen).1.data
        (readTlsconn R conn t io bufferLen).2.stream t' := by
  cases io with
  | error e =>
    cases e with
    | wouldBlock => exact readPlaintext_step D conn t bufferLen
    | other => exact ⟨t,ht,.refl D conn.stream t⟩
  | ready n =>
    simp only [readTlsconn,TcpStream.read]
    generalize min (max 1 n) maxBufferSize = k
    have hin : conn.stream.incoming =
        conn.stream.incoming.take k++(⟨conn.stream.incoming.drop k,conn.stream.outgoing⟩ : TcpStream).incoming :=
      (List.take_append_drop k _).symm
    split_ifs with hz
    · rw [List.length_eq_zero_iff.mp hz] at hin
      exact ⟨t,ht,⟨[],[],hin,.slnil,by simp⟩,by simp [ReadOutcome.failed],id⟩
    · have hfeed := readTls_step D t hin
      generalize R.readTls t (conn.stream.incoming.take k) = r at hfeed
      obtain ⟨ok,t₁⟩ := r
      cases ok with
      | false => exact ⟨t₁,rfl,hfeed⟩
      | true =>
        have hproc := hfeed.trans (processNewPackets_step D _ t₁)
        simp only
        generalize R.processNewPackets t₁ = r at hproc
        obtain ⟨ok,t₂⟩ := r
        cases ok with
        | false => exact ⟨t₂,rfl,hproc⟩
        | true =>
          obtain ⟨t',ht',hplain⟩ := readPlaintext_step D
            { conn with stream := ⟨conn.stream.incoming.drop k,conn.stream.outgoing⟩ } t₂ bufferLen
          exact ⟨t',ht',hproc.trans hplain⟩

/-- Without a ring, what the calls on a TLS connection deliver continues the plaintext
of some part of the socket's bytes. -/
theorem delivered_tls (D : Decryption R) (hid : connId ≠ 0) (hb : w.engine.boundRing connId = none)
    (hl : w.engine.connections.lookup connId = some conn) {t : σ} (ht : conn.tlsconn = some t)
    (events : List Event) :
    ∃ stream' t', TlsStep D conn.stream t (delivered R connId w events) stream' t' := by
  induction events generalizing w conn t with
  | nil => exact ⟨conn.stream,t,.refl D conn.stream t⟩
  | cons event events ih =>
    cases event with
    | read bufferLen io deregisters =>
      obtain ⟨w',hread,hb',hl'⟩ := netRead_unbound (R:=R) hid hb hl bufferLen io deregisters
      have hcopy : readCopy R conn io bufferLen = readTlsconn R conn t io bufferLen := by
        rw [readCopy,ht]
      rw [hcopy] at hread hl'
      obtain ⟨t₁,ht₁,hstep⟩ := readTlsconn_step D conn t ht io bufferLen
      obtain ⟨stream',t',hrest⟩ := ih hb' hl' ht₁
      rw [delivered,hread]
      exact ⟨stream',t',hstep.trans hrest⟩
    | advanceTail p bytes => exact ih (w:=advanceTail w p bytes) hb hl ht

/-- Without a ring and without TLS, one call delivers all bytes of the socket. -/
theorem delivered_plain (hid : connId ≠ 0) (hb : w.engine.boundRing connId = none)
    (hl : w.engine.connections.lookup connId = some conn) (ht : conn.tlsconn = none) :
    ∃ events, delivered R connId w events = conn.stream.incoming := by
  refine ⟨[.read conn.stream.incoming.length (.ready conn.stream.incoming.length) true],?_⟩
  obtain ⟨w',hread,-,-⟩ := netRead_unbound (R:=R) hid hb hl conn.stream.incoming.length
    (.ready conn.stream.incoming.length) true
  rw [delivered,hread]
  simp only [delivered,readCopy,ht,TcpStream.read,ReadOutcome.ok,List.append_nil]
  exact List.take_of_length_le (by omega)

end Unbound

section Comparison

variable {e : NetEngine σ} {c : ConnectCall} {connId : ℕ}

theorem withRing_boundRing (e : NetEngine σ) (hid : connId ≠ 0) (ringId ptr : ℕ) :
    (withRing e connId ringId ptr).boundRing connId = some ptr := by
  simp [withRing,netConnBindBodyRing,netBodyRingRegister,NetEngine.boundRing,hid]

theorem withRing_connections (e : NetEngine σ) (connId ringId ptr : ℕ) :
    (withRing e connId ringId ptr).connections = e.connections := by
  simp only [withRing,netConnBindBodyRing,netBodyRingRegister]
  split_ifs <;> rfl

theorem withoutRing_boundRing (e : NetEngine σ) (connId : ℕ) : (withoutRing e connId).boundRing connId = none := by
  simp [withoutRing,NetEngine.boundRing]

theorem ringMatchesCopy_of_plain (hcreated : (netConnect R e c).1 ≠ 0)
    (hplain : ¬(c.port = 443 ∧ (R.client c.host).isSome)) : RingMatchesCopy R e c := by
  intro incoming rings ringId ptr events
  rw [← netConnect_incoming e c incoming] at hcreated
  obtain ⟨connId,e',hid,heq,hl⟩ := netConnect_created hcreated
  have htls : (initTls R (.new ⟨incoming,[]⟩ c.host c.port)).tlsconn = none := by
    rw [initTls_tlsconn]
    split_ifs with hport
    · simpa [hport] using hplain
    · rfl
  obtain ⟨copyEvents,hcopy⟩ := delivered_plain (R:=R) (w:=⟨withoutRing e' connId,rings⟩) hid
    (withoutRing_boundRing e' connId) hl htls
  have hring := delivered_bound (R:=R) (w:=⟨withRing e' connId ringId ptr,rings⟩) hid
    (withRing_boundRing e' hid ringId ptr) (by rw [withRing_connections]; exact hl) events
  rw [heq]
  refine ⟨copyEvents,?_⟩
  rw [hcopy]
  exact hring

/-- A fresh ring as large as the socket's content receives it in one call. -/
theorem delivered_whole {w : World σ} {ptr : ℕ} {conn : Connection σ} (hid : connId ≠ 0)
    (hb : w.engine.boundRing connId = some ptr) (hl : w.engine.connections.lookup connId = some conn)
    {s : List UInt8} (hs : s ≠ []) (hin : conn.stream.incoming = s)
    (hring : w.rings ptr = .init (fun _ => 0) s.length) :
    delivered R connId w [.read 0 (.ready s.length) true] = s := by
  have hpos : 0 < s.length := List.length_pos_iff.mpr hs
  obtain ⟨w',conn',hread,-⟩ := netRead_bound (R:=R) hid hb hl 0 (.ready s.length) true
  have hbufs : readIovecsAt s.length 0 0 = some [⟨0,s.length⟩,⟨0,0⟩] := by
    simp [readIovecsAt,wrappingSub]
    omega
  have htake : s.take (min (max 1 s.length) s.length) = s := List.take_of_length_le (by omega)
  rw [delivered,hread,hring]
  simp only [delivered,readRing,BodyRingDescriptor.init,hbufs,TcpStream.read,hin,List.map_cons,List.map_nil,
    List.sum_cons,List.sum_nil,Nat.add_zero,htake]
  rw [if_neg (by omega)]
  exact List.append_nil s

theorem not_ringMatchesCopy_of_tls (D : Decryption R) (hne : ∃ s, D.decrypt s ≠ s)
    (hcreated : (netConnect R e c).1 ≠ 0) (hport : c.port = 443) (hclient : (R.client c.host).isSome) :
    ¬RingMatchesCopy R e c := by
  obtain ⟨s,hs⟩ := hne
  obtain ⟨t,ht⟩ := Option.isSome_iff_exists.mp hclient
  have hnil : s ≠ [] := by
    rintro rfl
    exact hs (List.length_eq_zero_iff.mp (Nat.le_zero.mp (D.decrypt_length [])))
  intro hmatch
  rw [← netConnect_incoming e c s] at hcreated
  obtain ⟨connId,e',hid,heq,hl⟩ := netConnect_created hcreated
  have hstream := initTls_stream (R:=R) c.host c.port ⟨s,[]⟩
  have htls : (initTls R (.new ⟨s,[]⟩ c.host c.port)).tlsconn = some t := by
    rw [initTls_tlsconn,if_pos hport,ht]
  obtain ⟨copyEvents,hfront⟩ := by
    simpa only [heq] using hmatch s (fun _ => .init (fun _ => 0) s.length) 0 0 [.read 0 (.ready s.length) true]
  rw [delivered_whole (w:=⟨withRing e' connId 0 0,_⟩) hid (withRing_boundRing e' hid 0 0)
    (by rw [withRing_connections]; exact hl) hnil (congrArg TcpStream.incoming hstream) rfl] at hfront
  obtain ⟨stream',t',hstep⟩ := delivered_tls D (w:=⟨withoutRing e' connId,_⟩) hid
    (withoutRing_boundRing e' connId) hl htls copyEvents
  obtain ⟨hrec,htaken⟩ := D.client c.host t ht
  obtain ⟨bytes,r,hin,hsub,hr⟩ := hstep.received
  have hsound := hstep.sound (by rw [htaken]; exact List.nil_prefix)
  rw [hstep.taken,htaken,List.nil_append,hr,hrec,List.nil_append] at hsound
  have hbytes : s = bytes++stream'.incoming := by
    rw [← hin,hstream]
  have hwhole := hfront.trans hsound
  have hlen := D.decrypt_length r
  have hle := hwhole.length_le
  have hrs : r.Sublist s := hbytes ▸ hsub.trans (List.sublist_append_left _ _)
  have hrle := hrs.length_le
  obtain rfl : r = s := hrs.eq_of_length (by omega)
  exact hs (hwhole.eq_of_length (by omega)).symm

theorem withRing_gains (hcreated : (netConnect R e c).1 ≠ 0) (incoming : List UInt8) (rings : ℕ → BodyRingDescriptor)
    (ringId ptr : ℕ) (events : List Event) :
    let (connId,e') := netConnect R e { c with incoming := incoming }
    Along (step R connId) (RingGains R connId ptr) ⟨withRing e' connId ringId ptr,rings⟩ events := by
  rw [← netConnect_incoming e c incoming] at hcreated
  obtain ⟨connId,e',hid,heq,hl⟩ := netConnect_created hcreated
  rw [heq]
  exact ringGains_along (w:=⟨withRing e' connId ringId ptr,rings⟩) hid (withRing_boundRing e' hid ringId ptr)
    (by rw [withRing_connections]; exact hl) events

/-- For every connection that `net_connect` creates, the zero-copy path agrees with the
copying one on all socket bytes exactly if the connection is no TLS connection: another
port than 443, or a host that `rustls` makes no client for. What the zero-copy path delivers
is in the memory of the ring, behind the bytes that are there. -/
theorem ringMatchesCopy_iff (D : Decryption R) (hne : ∃ s, D.decrypt s ≠ s) (e : NetEngine σ) (c : ConnectCall)
    (hcreated : (netConnect R e c).1 ≠ 0) :
    (RingMatchesCopy R e c ↔ ¬(c.port = 443 ∧ (R.client c.host).isSome)) ∧
    ∀ incoming rings ringId ptr events,
      let (connId,e') := netConnect R e { c with incoming := incoming }
      Along (step R connId) (RingGains R connId ptr) ⟨withRing e' connId ringId ptr,rings⟩ events := by
  refine ⟨⟨?_,ringMatchesCopy_of_plain hcreated⟩,fun incoming rings ringId ptr events => ?_⟩
  · rintro hmatch ⟨hport,hclient⟩
    exact not_ringMatchesCopy_of_tls D hne hcreated hport hclient hmatch
  · exact withRing_gains hcreated incoming rings ringId ptr events

end Comparison

/-- `rustls` while a handshake record is incomplete: it keeps what it receives, and
there is no plaintext. -/
def buffering : Rustls (List UInt8) where
  client _ := some []
  isHandshaking _ := true
  wantsRead _ := true
  wantsWrite _ := false
  protocolVersion _ := none
  readTls t bytes := (true,t++bytes)
  processNewPackets t := (true,t)
  writeTls t _ := ([],t)
  reader t _ := (.error .wouldBlock,t)
  writer t data := (some data.length,t)

def bufferingDecryption : Decryption buffering where
  decrypt _ := []
  received t := t
  taken _ := []
  client host t h := ⟨(Option.some.inj h).symm,rfl⟩
  readTls t xs := ⟨xs.length,by simp [buffering]⟩
  taken_readTls _ _ := rfl
  received_process _ := rfl
  taken_process _ := rfl
  received_reader _ _ := rfl
  reader_ok t n data t' h := by cases h
  reader_error _ _ _ _ _ := rfl
  decrypt_mono _ _ := List.nil_prefix
  decrypt_length _ := Nat.zero_le _

def connectTo (port : UInt16) (incoming : List UInt8) : ConnectCall :=
  ⟨false,"example.com",port,some [true],true,incoming⟩

/-- A connection to port 80. -/
theorem ringMatchesCopy_iff_plain : RingMatchesCopy buffering (NetEngine.new _) (connectTo 80 []) := by
  have hiff := ringMatchesCopy_iff bufferingDecryption ⟨[0x16],by decide⟩ (NetEngine.new _) (connectTo 80 []) (by decide)
  exact hiff.1.mpr (by decide)

/-- A connection to port 443 whose server sends the first byte of a handshake record:
the ring receives it as if it were application data. -/
theorem ringMatchesCopy_fails :
    delivered buffering 1
      ⟨withRing (netConnect buffering (NetEngine.new _) (connectTo 443 [0x16])).2 1 0 0,
        fun _ => .init (fun _ => 0) 16⟩ [.read 16 (.ready 1) true] = [0x16] ∧
    ¬RingMatchesCopy buffering (NetEngine.new _) (connectTo 443 []) := by
  refine ⟨by decide,?_⟩
  exact not_ringMatchesCopy_of_tls bufferingDecryption ⟨[0x16],by decide⟩ (by decide) rfl rfl

end ZNet.ZeroCopy
