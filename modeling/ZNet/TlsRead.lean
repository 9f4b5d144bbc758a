import ZNet.Engine

/-!
# Reading from a standalone TLS connection

`net_tls_read` reads from its socket until a read would block, and only then hands out
plaintext. The socket of a `TlsState` is blocking, so that the reads go on to the end of the
stream, where the call fails.
-/

namespace ZNet.TlsRead
open Engine

variable {σ : Type}

/-- How the loop over the socket ends: the call fails, a read would block, or a read waits. -/
inductive Drained (σ : Type)
  | failed (state : TlsState σ)
  | wouldBlock (state : TlsState σ)
  | waiting

/-- The loop. Each round has an answer of the socket. -/
def drain (R : Rustls σ) : List Io → TlsState σ → Drained σ
  | [],_ => .waiting
  | io::ios,state =>
    match state.stream.read io (16*1024) with
    | (.error .wouldBlock,stream) => .wouldBlock { state with stream := stream }
    | (.error .other,stream) => .failed { state with stream := stream }
    | (.ok bytes,stream) =>
      let state := { state with stream := stream }
      if bytes.length = 0 then .failed state
      else match R.readTls state.tls bytes with
        | (false,t) => .failed { state with tls := t }
        | (true,t) =>
          match R.processNewPackets t with
          | (false,t) => .failed { state with tls := t }
          | (true,t) => drain R ios { state with tls := t }

/-- The plaintext for the caller, which fails if there is none. -/
def readPlaintext (R : Rustls σ) (state : TlsState σ) (bufferLen : ℕ) : ReadOutcome×TlsState σ :=
  match R.reader state.tls bufferLen with
  | (.ok data,t) => (if data.length = 0 then .failed else .ok data,{ state with tls := t })
  | (.error _,t) => (.failed,{ state with tls := t })

/-- Arguments of `net_tls_read` and the answers of the socket. -/
structure TlsReadCall where
  engineNull : Bool
  tlsHandle : ℕ
  bufferNull : Bool
  bufferLen : ℕ
  ios : List Io

def setTlsState (e : NetEngine σ) (tlsHandle : ℕ) (state : TlsState σ) : NetEngine σ :=
  { e with tlsStates := e.tlsStates.insert tlsHandle state }

/-- `none` is a call that has not returned. -/
def netTlsRead (R : Rustls σ) (e : NetEngine σ) (c : TlsReadCall) : Option (ReadOutcome×NetEngine σ) :=
  if c.engineNull ∨ c.tlsHandle = 0 ∨ c.bufferNull then some (.failed,e)
  else match e.tlsStates.lookup c.tlsHandle with
    | none => some (.failed,e)
    | some state =>
      if state.isClosed then some (.failed,e)
      else match drain R c.ios state with
        | .waiting => none
        | .failed state => some (.failed,setTlsState e c.tlsHandle state)
        | .wouldBlock state =>
          let (out,state) := readPlaintext R state c.bufferLen
          some (out,setTlsState e c.tlsHandle state)

/-- The answers of a blocking socket: it has data, or it is at the end of the stream. -/
def Blocking (ios : List Io) : Prop := ∀ io ∈ ios, ∃ n, io = .ready n

/-- What is assumed of `rustls`: the plaintext it hands out is a function of the ciphertext
it was given, and more ciphertext only adds to it. -/
structure Decryption (R : Rustls σ) where
  decrypt : List UInt8 → List UInt8
  received : σ → List UInt8
  taken : σ → ℕ
  mono : ∀ front back, decrypt front <+: decrypt (front++back)
  readTls : ∀ t bytes, ∃ t₁ t₂, R.readTls t bytes = (true,t₁) ∧ R.processNewPackets t₁ = (true,t₂) ∧
    received t₂ = received t++bytes ∧ taken t₂ = taken t
  reader : ∀ t len, 0 < len →
    if ((decrypt (received t)).drop (taken t)) = [] then R.reader t len = (.error .wouldBlock,t)
    else ∃ t₁, R.reader t len = (.ok (((decrypt (received t)).drop (taken t)).take len),t₁) ∧
      received t₁ = received t ∧ taken t₁ = taken t+min len ((decrypt (received t)).drop (taken t)).length

/-- An open connection on which nothing was received yet, and the reads to come: the answers
of its socket are enough for each of them to return. -/
structure TlsStream {R : Rustls σ} (D : Decryption R) where
  engine : NetEngine σ
  tlsHandle : ℕ
  state : TlsState σ
  bufferLen : ℕ
  answers : ℕ → List Io
  handle_ne : tlsHandle ≠ 0
  stored : engine.tlsStates.lookup tlsHandle = some state
  opened : state.isClosed = false
  fresh : D.received state.tls = [] ∧ D.taken state.tls = 0
  room : 0 < bufferLen
  blocking : ∀ i, Blocking (answers i)
  enough : ∀ i, state.stream.incoming.length < (answers i).length

/-- The calls return `NS_OK` one after the other, with pieces of the plaintext that make up all
of it. -/
def Delivered (R : Rustls σ) (tlsHandle bufferLen : ℕ) : NetEngine σ → List (List Io) → List UInt8 → Prop
  | _,[],plaintext => plaintext = []
  | e,ios::calls,plaintext => ∃ data rest e',
      netTlsRead R e ⟨false,tlsHandle,false,bufferLen,ios⟩ = some (.ok data,e') ∧ data ≠ [] ∧ plaintext = data++rest ∧
        Delivered R tlsHandle bufferLen e' calls rest

/-- Finitely many reads deliver the whole plaintext before one of them fails. -/
def TlsStream.Delivers {R : Rustls σ} {D : Decryption R} (c : TlsStream D) : Prop :=
  ∃ n, Delivered R c.tlsHandle c.bufferLen c.engine ((List.range n).map c.answers) (D.decrypt c.state.stream.incoming)

variable {R : Rustls σ}

/-- On a blocking socket the loop is left only by a failure. -/
theorem drain_blocking {ios : List Io} (h : Blocking ios) (state : TlsState σ) :
    drain R ios state = .waiting ∨ ∃ state', drain R ios state = .failed state' := by
  induction ios generalizing state with
  | nil => exact Or.inl rfl
  | cons io ios ih =>
    obtain ⟨n,rfl⟩ := h io (List.mem_cons_self ..)
    have hrest : Blocking ios := fun io hio => h io (List.mem_cons_of_mem _ hio)
    rw [drain,TcpStream.read]
    dsimp only
    split
    · exact Or.inr ⟨_,rfl⟩
    · split
      · exact Or.inr ⟨_,rfl⟩
      · split
        · exact Or.inr ⟨_,rfl⟩
        · exact ih hrest _

/-- No call on a blocking socket returns `NS_OK`. -/
theorem netTlsRead_blocking {e e' : NetEngine σ} {c : TlsReadCall} {out : ReadOutcome} (h : Blocking c.ios)
    (hcall : netTlsRead R e c = some (out,e')) : out = .failed := by
  rw [netTlsRead] at hcall
  split at hcall
  · cases hcall
    rfl
  · split at hcall
    · cases hcall
      rfl
    · rename_i state hstate
      split at hcall
      · cases hcall
        rfl
      · rcases drain_blocking (R:=R) h state with hdrain | ⟨state',hdrain⟩
        · rw [hdrain] at hcall
          cases hcall
        · rw [hdrain] at hcall
          cases hcall
          rfl

theorem not_delivered {tlsHandle bufferLen : ℕ} {e : NetEngine σ} {ios : List Io} {calls : List (List Io)}
    {plaintext : List UInt8} (h : Blocking ios) : ¬Delivered R tlsHandle bufferLen e (ios::calls) plaintext := by
  rintro ⟨data,rest,e',hcall,hdata,-⟩
  have hfailed := netTlsRead_blocking h hcall
  rw [ReadOutcome.ok,ReadOutcome.failed,ReadOutcome.mk.injEq] at hfailed
  exact hdata hfailed.2.2

/-- No plaintext is ever delivered. -/
theorem delivers_never {D : Decryption R} (c : TlsStream D) (hplaintext : D.decrypt c.state.stream.incoming ≠ []) :
    ¬c.Delivers := by
  rintro ⟨n,hdelivered⟩
  cases n with
  | zero => exact hplaintext hdelivered
  | succ n =>
    rw [List.range_succ_eq_map,List.map_cons] at hdelivered
    exact not_delivered (c.blocking 0) hdelivered

/-- A `rustls` whose ciphertext is the plaintext, with what was received and how much of it was
handed out. -/
def clearRustls : Rustls (List UInt8×ℕ) where
  client _ := some ([],0)
  isHandshaking _ := false
  wantsRead _ := true
  wantsWrite _ := false
  protocolVersion _ := some .tls13
  readTls t bytes := (true,t.1++bytes,t.2)
  processNewPackets t := (true,t)
  writeTls t _ := ([],t)
  reader t len :=
    if t.1.drop t.2 = [] then (.error .wouldBlock,t)
    else (.ok ((t.1.drop t.2).take len),t.1,t.2+min len (t.1.drop t.2).length)
  writer t data := (some data.length,t)

def clearDecryption : Decryption clearRustls where
  decrypt := id
  received := Prod.fst
  taken := Prod.snd
  mono := List.prefix_append
  readTls _ _ := ⟨_,_,rfl,rfl,rfl,rfl⟩
  reader t len _ := by
    simp only [id_eq,clearRustls]
    split
    · rfl
    · exact ⟨_,rfl,rfl,rfl⟩

/-- A server that sends one byte and closes. -/
def oneByte : TlsState (List UInt8×ℕ) := ⟨⟨[1],[]⟩,([],0),"host",853,false⟩

def oneByteStream : TlsStream clearDecryption where
  engine := setTlsState (NetEngine.new _) 1 oneByte
  tlsHandle := 1
  state := oneByte
  bufferLen := 1
  answers _ := [.ready 1,.ready 1]
  handle_ne := Nat.one_ne_zero
  stored := AList.lookup_insert _
  opened := rfl
  fresh := ⟨rfl,rfl⟩
  room := Nat.one_pos
  blocking _ io hio := by
    simp only [List.mem_cons,List.not_mem_nil,or_false,or_self] at hio
    exact ⟨1,hio⟩
  enough _ := Nat.one_lt_two

theorem delivers_never_oneByte : ¬oneByteStream.Delivers := delivers_never oneByteStream nofun

/-- The byte is read, decrypted and never handed out. -/
theorem plaintext_lost : ¬∀ (σ : Type) (R : Rustls σ) (D : Decryption R) (c : TlsStream D),
    D.decrypt c.state.stream.incoming ≠ [] → c.Delivers := by
  intro h
  obtain ⟨n,hdelivered⟩ := h _ _ _ oneByteStream nofun
  cases n with
  | zero => cases hdelivered
  | succ n =>
    rw [List.range_succ_eq_map,List.map_cons] at hdelivered
    exact not_delivered (oneByteStream.blocking 0) hdelivered

end ZNet.TlsRead
