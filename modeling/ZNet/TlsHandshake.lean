import ZNet.Engine

/-!
# The standalone TLS handshake

`net_tls_create` opens its own stream and drives `rustls` until the handshake is over,
or until one of the breaks of its loop. `TlsConnection.connect` of `z_tls` takes every
handle it returns for an established connection.
-/

namespace ZNet.TlsHandshake
open Engine

variable {σ : Type} {R : Rustls σ}

inductive NetError
  | none | invalidHandle | notConnected | ioError | tlsError | wouldBlock | outOfMemory | alreadyRunning
deriving DecidableEq

/-- `TlsState::new`: `addrs` is what the host resolves to, with whether each address can
be connected to, and `incoming` what the server sends. -/
def tlsStateNew (R : Rustls σ) (host : String) (port : UInt16) (addrs : Option (List Bool))
    (incoming : List UInt8) : Except NetError (TlsState σ) :=
  match addrs with
  | none => .error .ioError
  | some addrs =>
    if addrs.any id then
      match R.client host with
      | none => .error .tlsError
      | some t => .ok ⟨⟨incoming,[]⟩,t,host,port,false⟩
    else .error .ioError

/-- Bytes from TLS to the socket; `none` is an error other than `WouldBlock`. -/
def pumpOut (R : Rustls σ) (io : Io) (state : TlsState σ) : Option (TlsState σ) :=
  if R.wantsWrite state.tls then
    match io with
    | .ready n =>
      let (bytes,t) := R.writeTls state.tls n
      some { state with stream := { state.stream with outgoing := state.stream.outgoing++bytes }, tls := t }
    | .error .wouldBlock => some state
    | .error .other => none
  else some state

inductive Pumped (σ : Type)
  | failed
  | wouldBlock
  | ok (state : TlsState σ)

/-- Bytes from the socket to TLS. -/
def pumpIn (R : Rustls σ) (io : Io) (state : TlsState σ) : Pumped σ :=
  if R.wantsRead state.tls then
    match state.stream.read io (16*1024) with
    | (.error .wouldBlock,_) => .wouldBlock
    | (.error .other,_) => .failed
    | (.ok bytes,stream) =>
      if bytes.length = 0 then .failed
      else match R.readTls state.tls bytes with
        | (false,_) => .failed
        | (true,t) =>
          match R.processNewPackets t with
          | (false,_) => .failed
          | (true,t) => .ok { state with stream := stream, tls := t }
  else .ok state

/-- How the loop of `net_tls_create` ends: with a null handle, by leaving the loop, or
not at all within the answers of the socket. -/
inductive Exit (σ : Type)
  | failed
  | left (state : TlsState σ)
  | pending

/-- The loop. Each round has an answer of the socket for `write_tls` and one for the
read, which are used if the calls are made. -/
def handshake (R : Rustls σ) : List (Io×Io) → TlsState σ → Exit σ
  | [],state => if R.isHandshaking state.tls then .pending else .left state
  | (wio,rio)::rounds,state =>
    if R.isHandshaking state.tls then
      match pumpOut R wio state with
      | none => .failed
      | some state =>
        match pumpIn R rio state with
        | .failed => .failed
        | .wouldBlock => .left state
        | .ok state =>
          if R.isHandshaking state.tls then
            if R.wantsRead state.tls || R.wantsWrite state.tls then handshake R rounds state else .left state
          else .left state
    else .left state

/-- Arguments and environment of `net_tls_create`. The host is a C string, given by the
memory it points to. -/
structure TlsCall where
  engineNull : Bool
  host : Option (List UInt8)
  port : UInt16
  addrs : Option (List Bool)
  incoming : List UInt8
  rounds : List (Io×Io)

/-- `CStr::from_ptr(host).to_str()`. -/
def cstrToStr (memory : List UInt8) : Option String := String.fromUTF8? ⟨(memory.takeWhile (· ≠ 0)).toArray⟩

/-- The state with which the loop starts, if the call gets that far. -/
def TlsCall.start (R : Rustls σ) (c : TlsCall) : Option (TlsState σ) :=
  if c.engineNull then none
  else do
    let host ← c.host
    let host ← cstrToStr host
    (tlsStateNew R host c.port c.addrs c.incoming).toOption

/-- `none` is a call that has not returned. -/
def netTlsCreate (R : Rustls σ) (e : NetEngine σ) (c : TlsCall) : Option (ℕ×NetEngine σ) :=
  match c.start R with
  | none => some (0,e)
  | some state =>
    match handshake R c.rounds state with
    | .pending => none
    | .failed => some (0,e)
    | .left state =>
      some (e.nextTlsId,{ e with
        nextTlsId := e.nextTlsId+1
        tlsStates := e.tlsStates.insert e.nextTlsId state })

def netTlsProtocolVersion (R : Rustls σ) (e : NetEngine σ) (engineNull : Bool) (tlsHandle : ℕ) : UInt16 :=
  if engineNull ∨ tlsHandle = 0 then 0
  else match e.tlsStates.lookup tlsHandle with
    | none => 0
    | some state =>
      match R.protocolVersion state.tls with
      | some .tls12 => 0x0303
      | some .tls13 => 0x0304
      | _ => 0

inductive TlsError
  | handshakeFailed | libraryNotLoaded
deriving DecidableEq

inductive TlsVersion
  | tls12 | tls13
deriving DecidableEq

inductive TlsConnectionState
  | initial | handshakeInProgress | established | closed | failed
deriving DecidableEq

structure TlsConnection where
  engineNull : Bool
  handle : ℕ
  state : TlsConnectionState
  version : TlsVersion
  host : List UInt8

namespace TlsConnection

/-- A connection as `init` returns it, once its `engine` field is set. -/
def init (engineNull : Bool) (host : List UInt8) : TlsConnection := ⟨engineNull,0,.initial,.tls13,host⟩

/-- The call of `net_tls_create` that `connect` makes: the host in a buffer with a
terminating zero. -/
def call (self : TlsConnection) (addrs : Option (List Bool)) (incoming : List UInt8) (rounds : List (Io×Io)) :
    TlsCall :=
  ⟨self.engineNull,some (self.host++[0]),443,addrs,incoming,rounds⟩

/-- What `connect` makes of the handle that `net_tls_create` returned. -/
def adopt (R : Rustls σ) (self : TlsConnection) (created : ℕ×NetEngine σ) :
    Except TlsError Unit×TlsConnection×NetEngine σ :=
  let (handle,e) := created
  if handle = 0 then (.error .handshakeFailed,{ self with state := .failed },e)
  else
    let version := if netTlsProtocolVersion R e self.engineNull handle = 0x0303 then .tls12 else .tls13
    (.ok (),{ self with handle := handle, version := version, state := .established },e)

def connect (R : Rustls σ) (self : TlsConnection) (e : NetEngine σ) (addrs : Option (List Bool))
    (incoming : List UInt8) (rounds : List (Io×Io)) : Option (Except TlsError Unit×TlsConnection×NetEngine σ) :=
  if self.engineNull then some (.error .libraryNotLoaded,self,e)
  else if self.host.length = 0 then some (.error .handshakeFailed,self,e)
  else if self.host.length ≥ 256 then some (.error .handshakeFailed,self,e)
  else (netTlsCreate R e (self.call addrs incoming rounds)).map (self.adopt R)

end TlsConnection

/-- The loop is left while `rustls` is still handshaking: a read answers `WouldBlock`,
or `rustls` wants neither to read nor to write. -/
inductive Interrupted (R : Rustls σ) : List (Io×Io) → TlsState σ → Prop
  | wouldBlock {wio rounds state state'} (hs : R.isHandshaking state.tls = true)
      (hout : pumpOut R wio state = some state') (hread : R.wantsRead state'.tls = true)
      (hs' : R.isHandshaking state'.tls = true) : Interrupted R ((wio,.error .wouldBlock)::rounds) state
  | stalled {wio rio rounds state state' state''} (hs : R.isHandshaking state.tls = true)
      (hout : pumpOut R wio state = some state') (hin : pumpIn R rio state' = .ok state'')
      (hs' : R.isHandshaking state''.tls = true) (hread : R.wantsRead state''.tls = false)
      (hwrite : R.wantsWrite state''.tls = false) : Interrupted R ((wio,rio)::rounds) state
  | later {wio rio rounds state state' state''} (hs : R.isHandshaking state.tls = true)
      (hout : pumpOut R wio state = some state') (hin : pumpIn R rio state' = .ok state'')
      (hs' : R.isHandshaking state''.tls = true)
      (hwants : (R.wantsRead state''.tls || R.wantsWrite state''.tls) = true)
      (tail : Interrupted R rounds state'') : Interrupted R ((wio,rio)::rounds) state

theorem pumpIn_wouldBlock {rio : Io} {state : TlsState σ} :
    pumpIn R rio state = .wouldBlock ↔ R.wantsRead state.tls = true ∧ rio = .error .wouldBlock := by
  rw [pumpIn]
  by_cases hread : R.wantsRead state.tls = true
  · rw [if_pos hread,and_iff_right hread]
    cases rio with
    | error e => cases e <;> simp [TcpStream.read]
    | ready n =>
      simp only [TcpStream.read]
      refine iff_of_false ?_ nofun
      repeat' split
      all_goals nofun
  · rw [if_neg hread]
    exact iff_of_false nofun (fun h => hread h.1)

/-- An interrupted handshake leaves the loop unfinished. -/
theorem Interrupted.handshake_left {rounds : List (Io×Io)} {state : TlsState σ} (h : Interrupted R rounds state) :
    ∃ state', handshake R rounds state = .left state' ∧ R.isHandshaking state'.tls = true := by
  induction h with
  | wouldBlock hs hout hread hs' =>
    refine ⟨_,?_,hs'⟩
    simp only [handshake,if_pos hs,hout,pumpIn_wouldBlock.mpr ⟨hread,rfl⟩]
  | stalled hs hout hin hs' hread hwrite =>
    refine ⟨_,?_,hs'⟩
    simp [handshake,hs,hout,hin,hs',hread,hwrite]
  | later hs hout hin hs' hwants tail ih =>
    obtain ⟨state',hleft,hstill⟩ := ih
    refine ⟨state',?_,hstill⟩
    simp only [handshake,if_pos hs,hout,hin,if_pos hs',if_pos hwants,hleft]

/-- Conversely, the loop is left unfinished only by an interruption. -/
theorem interrupted_of_left {rounds : List (Io×Io)} {state state' : TlsState σ}
    (h : handshake R rounds state = .left state') (hstill : R.isHandshaking state'.tls = true) :
    Interrupted R rounds state := by
  induction rounds generalizing state with
  | nil =>
    rw [handshake] at h
    split_ifs at h with hs
    cases h
    exact (hs hstill).elim
  | cons round rounds ih =>
    obtain ⟨wio,rio⟩ := round
    rw [handshake] at h
    split_ifs at h with hs
    · cases hout : pumpOut R wio state with
      | none =>
        rw [hout] at h
        cases h
      | some state₁ =>
        simp only [hout] at h
        cases hin : pumpIn R rio state₁ with
        | failed =>
          rw [hin] at h
          cases h
        | wouldBlock =>
          rw [hin] at h
          cases h
          obtain ⟨hread,rfl⟩ := pumpIn_wouldBlock.mp hin
          exact .wouldBlock hs hout hread hstill
        | ok state₂ =>
          simp only [hin] at h
          split_ifs at h with hs₂ hwants
          · exact .later hs hout hin hs₂ hwants (ih h)
          · rw [Bool.not_eq_true,Bool.or_eq_false_iff] at hwants
            exact .stalled hs hout hin hs₂ hwants.1 hwants.2
          · cases h
            exact (hs₂ hstill).elim
    · cases h
      exact (hs hstill).elim

/-- The handle stands for a finished handshake. -/
def Finished (R : Rustls σ) (e : NetEngine σ) (handle : ℕ) : Prop :=
  ∀ state, e.tlsStates.lookup handle = some state → R.isHandshaking state.tls = false

/-- The call never leaves its loop by an interruption. -/
def TlsCall.Completes (R : Rustls σ) (c : TlsCall) : Prop :=
  ∀ state, c.start R = some state → ¬Interrupted R c.rounds state

theorem netTlsCreate_finished_iff {e : NetEngine σ} (hid : e.nextTlsId ≠ 0) (c : TlsCall) :
    (∀ handle e', netTlsCreate R e c = some (handle,e') → handle ≠ 0 → Finished R e' handle) ↔ c.Completes R := by
  rw [TlsCall.Completes]
  cases hstart : c.start R with
  | none =>
    refine iff_of_true ?_ nofun
    intro handle e' hcreate hnull
    simp only [netTlsCreate,hstart,Option.some.injEq,Prod.mk.injEq] at hcreate
    exact (hnull hcreate.1.symm).elim
  | some state =>
    simp only [netTlsCreate,hstart,Option.some.injEq,forall_eq']
    constructor
    · intro hfin hint
      obtain ⟨state',hleft,hstill⟩ := hint.handshake_left
      have hdone := hfin e.nextTlsId _ (by rw [hleft]) hid state' (AList.lookup_insert _)
      rw [hstill] at hdone
      cases hdone
    · intro hint handle e' hcreate hnull state' hl
      cases hexit : handshake R c.rounds state with
      | failed =>
        simp only [hexit,Option.some.injEq,Prod.mk.injEq] at hcreate
        exact (hnull hcreate.1.symm).elim
      | pending => simp [hexit] at hcreate
      | left state₁ =>
        rw [hexit] at hcreate
        cases hcreate
        rw [AList.lookup_insert] at hl
        cases hl
        by_contra hstill
        exact hint (interrupted_of_left hexit (by simpa using hstill))

theorem connect_cases (R : Rustls σ) (e : NetEngine σ) (engineNull : Bool) (host : List UInt8)
    (addrs : Option (List Bool)) (incoming : List UInt8) (rounds : List (Io×Io)) :
    (engineNull = false ∧ host.length ≠ 0 ∧ host.length < 256) ∧
      (TlsConnection.init engineNull host).connect R e addrs incoming rounds =
        (netTlsCreate R e ((TlsConnection.init engineNull host).call addrs incoming rounds)).map
          ((TlsConnection.init engineNull host).adopt R) ∨
    ¬(engineNull = false ∧ host.length ≠ 0 ∧ host.length < 256) ∧
      ∃ err, (TlsConnection.init engineNull host).connect R e addrs incoming rounds =
        some (.error err,TlsConnection.init engineNull host,e) := by
  rw [TlsConnection.connect]
  split_ifs with hengine hempty hlong
  · exact Or.inr ⟨fun h => by simp [TlsConnection.init,h.1] at hengine,_,rfl⟩
  · exact Or.inr ⟨fun h => h.2.1 hempty,_,rfl⟩
  · exact Or.inr ⟨fun h => Nat.not_lt.mpr hlong h.2.2,_,rfl⟩
  · exact Or.inl ⟨⟨by simpa [TlsConnection.init] using hengine,hempty,Nat.not_le.mp hlong⟩,rfl⟩

/-- A connection is established by every handle that is not null. -/
theorem adopt_handle (R : Rustls σ) (self : TlsConnection) (e : NetEngine σ) {handle : ℕ} (hne : handle ≠ 0) :
    ∃ result self', self.adopt R (handle,e) = (result,self',e) ∧ self'.state = .established ∧
      self'.handle = handle := by
  rw [TlsConnection.adopt]
  simp only [if_neg hne]
  exact ⟨_,_,rfl,rfl,rfl⟩

theorem adopt_null (R : Rustls σ) (self : TlsConnection) (e : NetEngine σ) :
    self.adopt R (0,e) = (.error .handshakeFailed,{ self with state := .failed },e) := rfl

theorem connect_established_iff {e : NetEngine σ} (hid : e.nextTlsId ≠ 0) (engineNull : Bool) (host : List UInt8)
    (addrs : Option (List Bool)) (incoming : List UInt8) (rounds : List (Io×Io)) :
    (∀ result self e', (TlsConnection.init engineNull host).connect R e addrs incoming rounds =
        some (result,self,e') → self.state = .established → Finished R e' self.handle) ↔
      (engineNull = false ∧ host.length ≠ 0 ∧ host.length < 256 →
        ((TlsConnection.init engineNull host).call addrs incoming rounds).Completes R) := by
  rcases connect_cases R e engineNull host addrs incoming rounds with ⟨hargs,hconn⟩ | ⟨hargs,err,hconn⟩
  · rw [forall_prop_of_true hargs,← netTlsCreate_finished_iff hid,hconn]
    constructor
    · intro h handle e' hcreate hne
      obtain ⟨result,self,hadopt,hstate,hhandle⟩ := adopt_handle R (TlsConnection.init engineNull host) e' hne
      have hfin := h result self e' (by rw [hcreate,Option.map_some,hadopt]) hstate
      rwa [hhandle] at hfin
    · intro h result self e' hmap hest
      obtain ⟨⟨handle,e₁⟩,hcreate,heq⟩ := Option.map_eq_some_iff.mp hmap
      by_cases hne : handle = 0
      · rw [hne,adopt_null] at heq
        cases heq
        cases hest
      · obtain ⟨result',self',hadopt,-,hhandle⟩ := adopt_handle R (TlsConnection.init engineNull host) e₁ hne
        rw [hadopt] at heq
        cases heq
        rw [hhandle]
        exact h handle e' hcreate hne
  · refine iff_of_true ?_ (fun h => (hargs h).elim)
    intro result self e' hsome hest
    rw [hconn] at hsome
    cases hsome
    cases hest

/-- For every call of `net_tls_create` and every answer of the socket and of `rustls`,
a handle that is not null stands for a finished handshake exactly if the call is not
interrupted; and `TlsConnection.connect` reports `Established` only for a finished
handshake exactly if the call it makes is not. -/
theorem tls_handle_finished_iff (R : Rustls σ) (e : NetEngine σ) (hid : e.nextTlsId ≠ 0) :
    (∀ c : TlsCall,
      (∀ handle e', netTlsCreate R e c = some (handle,e') → handle ≠ 0 → Finished R e' handle) ↔ c.Completes R) ∧
    (∀ engineNull host addrs incoming rounds,
      (∀ result self e', (TlsConnection.init engineNull host).connect R e addrs incoming rounds =
        some (result,self,e') → self.state = .established → Finished R e' self.handle) ↔
      (engineNull = false ∧ host.length ≠ 0 ∧ host.length < 256 →
        ((TlsConnection.init engineNull host).call addrs incoming rounds).Completes R)) :=
  ⟨netTlsCreate_finished_iff hid,connect_established_iff hid⟩

/-- `rustls` before the server has answered: the state says whether the first flight
is still to be written, and only then is there something to read. -/
def firstFlight : Rustls Bool where
  client _ := some true
  isHandshaking _ := true
  wantsRead unsent := !unsent
  wantsWrite unsent := unsent
  protocolVersion _ := none
  readTls t _ := (true,t)
  processNewPackets t := (true,t)
  writeTls _ _ := ([0x16],false)
  reader t _ := (.error .wouldBlock,t)
  writer t data := (some data.length,t)

/-- A call to a server that takes the first flight and then answers the read with `io`. -/
def firstFlightCall (io : Io) : TlsCall := ⟨false,some [97,0],443,some [true],[],[(.ready 1,io)]⟩

/-- The server closes the connection: the handle is null, and the call completes. -/
theorem tls_handle_finished_iff_closed : (firstFlightCall (.ready 1)).Completes firstFlight := by
  apply ((tls_handle_finished_iff firstFlight (NetEngine.new Bool) (by decide)).1 _).mp
  intro handle e' hcreate hne
  have hnull : (netTlsCreate firstFlight (NetEngine.new Bool) (firstFlightCall (.ready 1))).map Prod.fst = some 0 := by
    decide
  rw [hcreate] at hnull
  exact (hne (Option.some.inj hnull)).elim

/-- The read would block: the caller gets a handle, and `connect` an established
connection, in the middle of the handshake. -/
theorem tls_handle_finished_fails :
    (netTlsCreate firstFlight (NetEngine.new Bool) (firstFlightCall (.error .wouldBlock))).map Prod.fst = some 1 ∧
    ¬(∀ handle e', netTlsCreate firstFlight (NetEngine.new Bool) (firstFlightCall (.error .wouldBlock)) =
      some (handle,e') → handle ≠ 0 → Finished firstFlight e' handle) ∧
    ((TlsConnection.init false [97]).connect firstFlight (NetEngine.new Bool) (some [true]) []
      [(.ready 1,.error .wouldBlock)]).map (fun r => r.2.1.state) = some .established := by
  refine ⟨by decide,?_,by decide⟩
  rw [netTlsCreate_finished_iff (by decide)]
  intro hcomplete
  obtain ⟨state,hstart⟩ : ∃ state, (firstFlightCall (.error .wouldBlock)).start firstFlight = some state :=
    Option.isSome_iff_exists.mp (by decide)
  have htls : state.tls = true := by
    have hmap : ((firstFlightCall (.error .wouldBlock)).start firstFlight).map TlsState.tls = some true := by
      decide
    rw [hstart] at hmap
    exact Option.some.inj hmap
  have hout : pumpOut firstFlight (.ready 1) state =
      some { state with stream := { state.stream with outgoing := state.stream.outgoing++[0x16] }, tls := false } := by
    simp [pumpOut,firstFlight,htls]
  exact hcomplete state hstart (.wouldBlock rfl hout rfl rfl)

end ZNet.TlsHandshake
