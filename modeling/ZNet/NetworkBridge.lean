import ZNet.Engine

/-!
# Error codes across the FFI

`Connection.read` and `Connection.write` of `z_network_bridge.zig` turn the `i32` of
the engine into a `NetErrorCode` with `@enumFromInt`, which is legal only on the
declared members. The engine returns `NS_OK` or `NS_ERROR_FAILURE`.
-/

namespace ZNet.NetworkBridge
open BodyRing Engine

variable {σ : Type} {R : Rustls σ}

inductive NetErrorCode
  | none | invalidHandle | notConnected | ioError | tlsError | wouldBlock | outOfMemory | alreadyRunning
deriving DecidableEq

def NetErrorCode.toInt : NetErrorCode → ℤ
  | .none => 0
  | .invalidHandle => -1
  | .notConnected => -2
  | .ioError => -3
  | .tlsError => -4
  | .wouldBlock => -5
  | .outOfMemory => -6
  | .alreadyRunning => -7

def NetErrorCode.members : List NetErrorCode :=
  [.none,.invalidHandle,.notConnected,.ioError,.tlsError,.wouldBlock,.outOfMemory,.alreadyRunning]

/-- `@enumFromInt`; `none` is the illegal conversion of a value without a member. -/
def enumFromInt (code : ℤ) : Option NetErrorCode := NetErrorCode.members.find? (fun e => e.toInt = code)

inductive NetworkError
  | invalidHandle | connectionFailed | ioError | tlsError | wouldBlock | pollFailed | unknown
deriving DecidableEq

/-- The `Connection` of the Zig side: two opaque handles, `0` being null. -/
structure ConnectionWrapper where
  engineNull : Bool
  handle : ℕ

def readResult (bytesRead : ℕ) : NetErrorCode → Except NetworkError ℕ
  | .none => .ok bytesRead
  | .wouldBlock => .error .wouldBlock
  | .ioError => .error .ioError
  | .tlsError => .error .tlsError
  | _ => .error .unknown

def writeResult (bytesWritten : ℕ) : NetErrorCode → Except NetworkError ℕ
  | .none => .ok bytesWritten
  | .wouldBlock => .error .wouldBlock
  | .ioError => .error .ioError
  | _ => .error .unknown

namespace ConnectionWrapper

/-- A slice has no null pointer, and `bytes_read` starts at zero. -/
def read (R : Rustls σ) (self : ConnectionWrapper) (w : World σ) (bufferLen : ℕ) (io : Io) (deregisters : Bool) :
    Option (Except NetworkError ℕ)×World σ :=
  let (out,w') := netRead R w ⟨self.engineNull,self.handle,false,bufferLen,io,deregisters⟩
  ((enumFromInt out.status).map (readResult (out.bytesRead.getD 0)),w')

def write (R : Rustls σ) (self : ConnectionWrapper) (w : World σ) (data : List UInt8) (ios : List Io) :
    Option (Except NetworkError ℕ)×World σ :=
  let (out,w') := netWrite R w ⟨self.engineNull,self.handle,false,data,ios⟩
  ((enumFromInt out.status).map (writeResult (out.bytesWritten.getD 0)),w')

end ConnectionWrapper

/-- The failure code of the engine is no member of `NetErrorCode`. -/
theorem enumFromInt_nsErrorFailure : enumFromInt nsErrorFailure = none := by decide

section Read

/-- The ring has room and the socket has a byte. -/
def RingReady (ring : BodyRingDescriptor) (stream : TcpStream) (io : Io) : Prop :=
  wrappingSub ring.head ring.tail < ring.capacity ∧ stream.incoming ≠ [] ∧ ∃ n, io = .ready n

/-- The socket would block or has bytes that `rustls` accepts, and then `rustls` has an
answer for the reader other than an error. -/
def TlsReady (R : Rustls σ) (stream : TcpStream) (t : σ) (io : Io) (bufferLen : ℕ) : Prop :=
  match io with
  | .error .wouldBlock => (R.reader t bufferLen).1.isOk
  | .error .other => False
  | .ready n =>
    let fed := R.readTls t (stream.incoming.take (min (max 1 n) maxBufferSize))
    let processed := R.processNewPackets fed.2
    stream.incoming ≠ [] ∧ fed.1 ∧ processed.1 ∧ (R.reader processed.2 bufferLen).1.isOk

/-- What the ring branch, the TLS branch and the plain branch of `net_read` need. -/
def ReadReady (R : Rustls σ) (w : World σ) (connId bufferLen : ℕ) (io : Io) : Prop :=
  ∃ conn, w.engine.connections.lookup connId = some conn ∧
    match w.engine.boundRing connId,conn.tlsconn with
    | some ptr,_ => RingReady (w.rings ptr) conn.stream io
    | none,some t => TlsReady R conn.stream t io bufferLen
    | none,none => ∃ n, io = .ready n

theorem failed_status_ne : ReadOutcome.failed.status ≠ nsOk := by decide

/-- The iovecs of a ring that is not full have room for a byte. -/
theorem readIovecsAt_of_lt {capacity head tail : ℕ} (h : wrappingSub head tail < capacity) :
    ∃ bufs, readIovecsAt capacity head tail = some bufs ∧ 0 < (bufs.map IndexRange.len).sum := by
  have hcap : 0 < capacity := Nat.zero_lt_of_lt h
  have hhead := Nat.mod_lt head hcap
  simp only [readIovecsAt,ge_iff_le,if_neg (Nat.not_le.mpr h)]
  split_ifs with hidx
  · refine ⟨_,rfl,?_⟩
    simp only [List.map_cons,List.sum_cons]
    omega
  · refine ⟨_,rfl,?_⟩
    simp only [List.map_cons,List.map_nil,List.sum_cons,List.sum_nil]
    omega

theorem take_length_eq_zero {s : List UInt8} {k : ℕ} (hk : 0 < k) : (s.take k).length = 0 ↔ s = [] := by
  rw [List.length_take,← List.length_eq_zero_iff]
  omega

theorem readRing_ok_iff (ring : BodyRingDescriptor) (stream : TcpStream) (io : Io) :
    (readRing ring stream io).1.status = nsOk ↔ RingReady ring stream io := by
  rw [readRing,RingReady]
  by_cases hfull : wrappingSub ring.head ring.tail < ring.capacity
  · obtain ⟨bufs,hbufs,hpos⟩ := readIovecsAt_of_lt hfull
    rw [hbufs]
    cases io with
    | error e => exact iff_of_false failed_status_ne (by simp)
    | ready n =>
      have hk : 0 < min (max 1 n) (bufs.map IndexRange.len).sum := by omega
      simp only [TcpStream.read,take_length_eq_zero hk]
      split_ifs with hnil
      · exact iff_of_false failed_status_ne (by simp [hnil])
      · exact iff_of_true rfl ⟨hfull,hnil,n,rfl⟩
  · rw [readIovecsAt,if_pos (Nat.not_lt.mp hfull)]
    exact iff_of_false failed_status_ne (fun h => hfull h.1)

theorem readPlaintext_ok_iff (conn : Connection σ) (t : σ) (bufferLen : ℕ) :
    (readPlaintext R conn t bufferLen).1.status = nsOk ↔ (R.reader t bufferLen).1.isOk := by
  rw [readPlaintext]
  rcases R.reader t bufferLen with ⟨r,t'⟩
  cases r with
  | error e => exact iff_of_false failed_status_ne nofun
  | ok data => exact iff_of_true rfl rfl

theorem readTlsconn_ok_iff (conn : Connection σ) (t : σ) (io : Io) (bufferLen : ℕ) :
    (readTlsconn R conn t io bufferLen).1.status = nsOk ↔ TlsReady R conn.stream t io bufferLen := by
  cases io with
  | error e =>
    cases e with
    | wouldBlock => exact readPlaintext_ok_iff conn t bufferLen
    | other => exact iff_of_false failed_status_ne id
  | ready n =>
    have hk : 0 < min (max 1 n) maxBufferSize := by
      simp only [maxBufferSize]
      omega
    simp only [readTlsconn,TlsReady,TcpStream.read,take_length_eq_zero hk]
    split_ifs with hnil
    · exact iff_of_false failed_status_ne (fun h => h.1 hnil)
    · rw [and_iff_right hnil]
      rcases R.readTls t (conn.stream.incoming.take (min (max 1 n) maxBufferSize)) with ⟨ok,t₁⟩
      cases ok with
      | false => exact iff_of_false failed_status_ne nofun
      | true =>
        simp only [true_and]
        rcases R.processNewPackets t₁ with ⟨ok,t₂⟩
        cases ok with
        | false => exact iff_of_false failed_status_ne nofun
        | true =>
          simp only [true_and]
          exact readPlaintext_ok_iff _ t₂ bufferLen

theorem readCopy_plain_ok_iff {conn : Connection σ} (ht : conn.tlsconn = none) (io : Io) (bufferLen : ℕ) :
    (readCopy R conn io bufferLen).1.status = nsOk ↔ ∃ n, io = .ready n := by
  rw [readCopy,ht]
  cases io with
  | error e => exact iff_of_false failed_status_ne (by simp)
  | ready n => exact iff_of_true rfl ⟨n,rfl⟩

theorem netRead_ok_iff (R : Rustls σ) (w : World σ) (c : ReadCall) :
    (netRead R w c).1.status = nsOk ↔
      c.engineNull = false ∧ c.connHandle ≠ 0 ∧ c.bufferNull = false ∧
        ReadReady R w c.connHandle c.bufferLen c.io := by
  rw [netRead]
  split_ifs with hnull
  · refine iff_of_false failed_status_ne ?_
    rintro ⟨he,hc,hb,-⟩
    simp [he,hc,hb] at hnull
  · have hargs : c.engineNull = false ∧ c.connHandle ≠ 0 ∧ c.bufferNull = false := by
      simpa [not_or] using hnull
    rw [and_iff_right hargs.1,and_iff_right hargs.2.1,and_iff_right hargs.2.2,ReadReady]
    cases hl : w.engine.connections.lookup c.connHandle with
    | none =>
      refine iff_of_false ?_ (by simp)
      cases w.engine.boundRing c.connHandle <;> exact failed_status_ne
    | some conn =>
      simp only [Option.some.injEq,exists_eq_left']
      cases w.engine.boundRing c.connHandle with
      | some ptr => exact readRing_ok_iff _ _ _
      | none =>
        cases ht : conn.tlsconn with
        | none => exact readCopy_plain_ok_iff ht _ _
        | some t =>
          simp only [readCopy,ht]
          exact readTlsconn_ok_iff _ _ _ _

theorem readRing_status (ring : BodyRingDescriptor) (stream : TcpStream) (io : Io) :
    (readRing ring stream io).1.status = nsOk ∨ (readRing ring stream io).1.status = nsErrorFailure := by
  simp only [readRing]
  repeat' split
  all_goals first | exact Or.inl rfl | exact Or.inr rfl

theorem readCopy_status (R : Rustls σ) (conn : Connection σ) (io : Io) (bufferLen : ℕ) :
    (readCopy R conn io bufferLen).1.status = nsOk ∨ (readCopy R conn io bufferLen).1.status = nsErrorFailure := by
  simp only [readCopy,readTlsconn,readPlaintext]
  repeat' split
  all_goals first | exact Or.inl rfl | exact Or.inr rfl

theorem netRead_status (R : Rustls σ) (w : World σ) (c : ReadCall) :
    (netRead R w c).1.status = nsOk ∨ (netRead R w c).1.status = nsErrorFailure := by
  rw [netRead]
  split_ifs
  · exact Or.inr rfl
  · cases w.engine.connections.lookup c.connHandle with
    | none => cases w.engine.boundRing c.connHandle <;> exact Or.inr rfl
    | some conn =>
      cases w.engine.boundRing c.connHandle with
      | some ptr => exact readRing_status _ _ _
      | none => exact readCopy_status _ _ _ _

end Read

section Write

/-- The socket fails, otherwise than by `WouldBlock`, while `rustls` still has
ciphertext to send after the writes `ns` before. -/
def FlushFails (R : Rustls σ) (t : σ) (ios : List Io) : Prop :=
  ∃ (ns : List ℕ) (rest : List Io), ios = ns.map Io.ready++.error .other::rest ∧
    ∀ i ≤ ns.length, R.wantsWrite ((ns.take i).foldl (fun t n => (R.writeTls t n).2) t)

theorem flush_eq_false_iff (ios : List Io) (stream : TcpStream) (t : σ) :
    (flush R ios stream t).1 = false ↔ FlushFails R t ios := by
  induction ios generalizing stream t with
  | nil => exact iff_of_false nofun (by simp [FlushFails])
  | cons io ios ih =>
    rw [flush.eq_def]
    simp only
    by_cases hw : R.wantsWrite t
    · rw [if_pos hw]
      cases io with
      | error e =>
        cases e with
        | wouldBlock =>
          refine iff_of_false nofun ?_
          rintro ⟨ns,rest,hios,-⟩
          cases ns <;> cases hios
        | other =>
          refine iff_of_true rfl ⟨[],ios,rfl,?_⟩
          intro i hi
          simpa using hw
      | ready n =>
        apply (ih _ _).trans
        constructor
        · rintro ⟨ns,rest,rfl,hwants⟩
          refine ⟨n::ns,rest,rfl,?_⟩
          intro i hi
          cases i with
          | zero => exact hw
          | succ i => exact hwants i (Nat.le_of_succ_le_succ hi)
        · rintro ⟨ns,rest,hios,hwants⟩
          cases ns with
          | nil => cases hios
          | cons m ns =>
            cases hios
            exact ⟨ns,rest,rfl,fun i hi => hwants (i+1) (Nat.succ_le_succ hi)⟩
    · rw [if_neg hw]
      refine iff_of_false nofun ?_
      rintro ⟨ns,rest,-,hwants⟩
      exact hw (hwants 0 (Nat.zero_le _))

/-- What the TLS branch and the plain branch of `net_write` need. -/
def WriteReady (R : Rustls σ) (w : World σ) (connId : ℕ) (data : List UInt8) (ios : List Io) : Prop :=
  ∃ conn, w.engine.connections.lookup connId = some conn ∧
    match conn.tlsconn with
    | some t => (R.writer t data).1.isSome ∧ ¬FlushFails R (R.writer t data).2 ios
    | none => ∃ n rest, ios = .ready n::rest

theorem write_failed_status_ne : WriteOutcome.failed.status ≠ nsOk := by decide

theorem writeConnection_tls_ok_iff {conn : Connection σ} {t : σ} (ht : conn.tlsconn = some t) (data : List UInt8)
    (ios : List Io) :
    (writeConnection R conn data ios).1.status = nsOk ↔
      (R.writer t data).1.isSome ∧ ¬FlushFails R (R.writer t data).2 ios := by
  simp only [writeConnection,ht]
  rcases R.writer t data with ⟨n,t'⟩
  cases n with
  | none => exact iff_of_false write_failed_status_ne nofun
  | some n =>
    have hflush := flush_eq_false_iff (R:=R) ios conn.stream t'
    simp only [Option.isSome_some,true_and,← hflush]
    rcases flush R ios conn.stream t' with ⟨ok,stream,t''⟩
    cases ok with
    | false => exact iff_of_false write_failed_status_ne (by simp)
    | true => exact iff_of_true rfl (by simp)

theorem writeConnection_plain_ok_iff {conn : Connection σ} (ht : conn.tlsconn = none) (data : List UInt8)
    (ios : List Io) :
    (writeConnection R conn data ios).1.status = nsOk ↔ ∃ n rest, ios = .ready n::rest := by
  rw [writeConnection,ht]
  cases ios with
  | nil => exact iff_of_false write_failed_status_ne (by simp)
  | cons io ios =>
    cases io with
    | error e => exact iff_of_false write_failed_status_ne (by simp)
    | ready n => exact iff_of_true rfl ⟨n,ios,rfl⟩

theorem netWrite_ok_iff (R : Rustls σ) (w : World σ) (c : WriteCall) :
    (netWrite R w c).1.status = nsOk ↔
      c.engineNull = false ∧ c.connHandle ≠ 0 ∧ c.dataNull = false ∧ WriteReady R w c.connHandle c.data c.ios := by
  rw [netWrite]
  split_ifs with hnull
  · refine iff_of_false write_failed_status_ne ?_
    rintro ⟨he,hc,hd,-⟩
    simp [he,hc,hd] at hnull
  · have hargs : c.engineNull = false ∧ c.connHandle ≠ 0 ∧ c.dataNull = false := by
      simpa [not_or] using hnull
    rw [and_iff_right hargs.1,and_iff_right hargs.2.1,and_iff_right hargs.2.2,WriteReady]
    cases w.engine.connections.lookup c.connHandle with
    | none => exact iff_of_false write_failed_status_ne (by simp)
    | some conn =>
      simp only [Option.some.injEq,exists_eq_left']
      cases ht : conn.tlsconn with
      | some t => exact writeConnection_tls_ok_iff ht _ _
      | none => exact writeConnection_plain_ok_iff ht _ _

theorem writeConnection_status (R : Rustls σ) (conn : Connection σ) (data : List UInt8) (ios : List Io) :
    (writeConnection R conn data ios).1.status = nsOk ∨
      (writeConnection R conn data ios).1.status = nsErrorFailure := by
  simp only [writeConnection]
  repeat' split
  all_goals first | exact Or.inl rfl | exact Or.inr rfl

theorem netWrite_status (R : Rustls σ) (w : World σ) (c : WriteCall) :
    (netWrite R w c).1.status = nsOk ∨ (netWrite R w c).1.status = nsErrorFailure := by
  rw [netWrite]
  split_ifs
  · exact Or.inr rfl
  · cases w.engine.connections.lookup c.connHandle with
    | none => exact Or.inr rfl
    | some conn => exact writeConnection_status _ _ _ _

end Write

theorem enumFromInt_isSome_iff {status : ℤ} (h : status = nsOk ∨ status = nsErrorFailure) :
    (enumFromInt status).isSome ↔ status = nsOk := by
  rcases h with rfl | rfl
  · exact iff_of_true rfl rfl
  · exact iff_of_false (by simp [enumFromInt_nsErrorFailure]) (by decide)

/-- In every state of the engine and for every answer of the system, the code that
`net_read` or `net_write` returns is converted to a declared member, and so to a byte
count or an error of the declared set, exactly if the call succeeds in the engine:
the handles are not null, the connection is live, and what its branch needs is there. -/
theorem codes_converted_iff (R : Rustls σ) (self : ConnectionWrapper) (w : World σ) :
    (∀ bufferLen io deregisters, (self.read R w bufferLen io deregisters).1.isSome ↔
      self.engineNull = false ∧ self.handle ≠ 0 ∧ ReadReady R w self.handle bufferLen io) ∧
    (∀ data ios, (self.write R w data ios).1.isSome ↔
      self.engineNull = false ∧ self.handle ≠ 0 ∧ WriteReady R w self.handle data ios) := by
  constructor
  · intro bufferLen io deregisters
    simp only [ConnectionWrapper.read,Option.isSome_map]
    rw [enumFromInt_isSome_iff (netRead_status R w _),netRead_ok_iff]
    simp
  · intro data ios
    simp only [ConnectionWrapper.write,Option.isSome_map]
    rw [enumFromInt_isSome_iff (netWrite_status R w _),netWrite_ok_iff]
    simp

/-- An engine with one plain connection. -/
def onePlain : World Unit :=
  ⟨(netConnect noClient (NetEngine.new Unit) plainConnect).2,fun _ => .init (fun _ => 0) 1⟩

/-- The socket of a live connection has nothing to read and takes nothing to write:
the engine answers `NS_ERROR_FAILURE`, and neither conversion is legal. -/
theorem codes_converted_fails :
    (netRead noClient onePlain ⟨false,1,false,16,.error .wouldBlock,true⟩).1.status = -2147467259 ∧
    ((⟨false,1⟩ : ConnectionWrapper).read noClient onePlain 16 (.error .wouldBlock) true).1.isSome = false ∧
    ((⟨false,1⟩ : ConnectionWrapper).write noClient onePlain [104,105] [.error .wouldBlock]).1.isSome = false := by
  refine ⟨?_,?_,?_⟩ <;> decide

end ZNet.NetworkBridge
