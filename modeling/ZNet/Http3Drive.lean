import ZNet.TextScan
import ZNet.Engine

/-!
# Driving a QUIC connection

`net_http3_drive` feeds the datagrams of its socket to the endpoint and sends what the
connection produces. Both write behind what is already in one buffer, which is only cleared
after a datagram was sent. `quinn-proto` is a parameter.
-/

namespace ZNet.Http3Drive
open TextScan Engine

structure Datagram where
  bytes : List UInt8
  remote : ℕ

structure Transmit where
  destination : ℕ
  size : ℕ

inductive DatagramEvent (ν : Type)
  | connectionEvent (handle : ℕ) (event : ν)
  | newConnection
  | response (transmit : Transmit)

/-- The calls of `quinn-proto`, over the states of an endpoint and of a connection and the
events between them. Two of them also return the bytes that they append to the buffer. -/
structure Quinn (ε κ ν : Type) where
  handle : ε → ℕ → ℕ → List UInt8 → Option (DatagramEvent ν)×List UInt8×ε
  handleEvent : κ → ν → κ
  pollTimeout : κ → Option ℕ
  handleTimeout : κ → ℕ → κ
  pollTransmit : κ → ℕ → ℕ → Option Transmit×List UInt8×κ

structure QuicConnectionEntry (κ : Type) where
  handle : ℕ
  connection : κ

structure QuicEngine (ε κ : Type) where
  quicEndpoints : IdMap ε
  quicConns : IdMap (QuicConnectionEntry κ)

/-- A payload that was sent, beside the bytes that the connection appended for it. -/
structure Sent where
  destination : ℕ
  payload : List UInt8
  produced : List UInt8

/-- The size of the buffer that datagrams are received into. -/
def rxBufLen : ℕ := 2048

def maxDatagrams : ℕ := 1

variable {ε κ ν : Type} (Q : Quinn ε κ ν) (now : ℕ)

/-- The loop over the datagrams of the socket; the rest of a long one is lost. -/
def receive : List Datagram → ε → Option (QuicConnectionEntry κ) → List UInt8 →
    ε×Option (QuicConnectionEntry κ)×List UInt8
  | [],endpoint,conn,txBuf => (endpoint,conn,txBuf)
  | datagram::datagrams,endpoint,conn,txBuf =>
    match Q.handle endpoint now datagram.remote (datagram.bytes.take rxBufLen) with
    | (some (.connectionEvent handle event),appended,endpoint) =>
      let conn := conn.map fun entry =>
        if entry.handle = handle then { entry with connection := Q.handleEvent entry.connection event } else entry
      receive datagrams endpoint conn (txBuf++appended)
    | (_,appended,endpoint) => receive datagrams endpoint conn (txBuf++appended)

/-- The loop over the timeouts that are due; `none` if it has not ended after `rounds`. -/
def settle : ℕ → κ → Option κ
  | 0,_ => none
  | rounds+1,connection =>
    match Q.pollTimeout connection with
    | some timeout => if now < timeout then some connection else settle rounds (Q.handleTimeout connection now)
    | none => some connection

/-- The loop over the datagrams to send, and the connection when it ends. -/
def transmit : ℕ → κ → List UInt8 → List Sent×Option κ
  | 0,_,_ => ([],none)
  | rounds+1,connection,txBuf =>
    match Q.pollTransmit connection now maxDatagrams with
    | (none,_,connection) => ([],some connection)
    | (some transmit',appended,connection) =>
      if (txBuf++appended).length < transmit'.size then ([],some connection)
      else
        let (sent,connection) := transmit rounds connection []
        (⟨transmit'.destination,(txBuf++appended).take transmit'.size,appended⟩::sent,connection)

/-- Arguments of `net_http3_drive`, the time, the datagrams that the socket has, and a bound on
the rounds of its other loops. -/
structure DriveCall where
  engineNull : Bool
  connHandle : ℕ
  now : ℕ
  datagrams : List Datagram
  rounds : ℕ

/-- What the call returns, if it does, and what it sends. -/
structure Driven (ε κ : Type) where
  result : Option ℤ
  sent : List Sent
  engine : QuicEngine ε κ

def netHttp3Drive (e : QuicEngine ε κ) (c : DriveCall) : Driven ε κ :=
  if c.engineNull ∨ c.connHandle = 0 then ⟨some (-1),[],e⟩
  else match e.quicEndpoints.lookup c.connHandle with
    | none => ⟨some (-1),[],e⟩
    | some endpoint =>
      match receive Q c.now c.datagrams endpoint (e.quicConns.lookup c.connHandle) [] with
      | (endpoint,none,_) =>
        ⟨some c.datagrams.length,[],{ e with quicEndpoints := e.quicEndpoints.insert c.connHandle endpoint }⟩
      | (endpoint,some entry,txBuf) =>
        let e := { e with quicEndpoints := e.quicEndpoints.insert c.connHandle endpoint }
        match settle Q c.now c.rounds entry.connection with
        | none => ⟨none,[],e⟩
        | some connection =>
          match transmit Q c.now c.rounds connection txBuf with
          | (sent,none) => ⟨none,sent,e⟩
          | (sent,some connection) =>
            ⟨some c.datagrams.length,sent,
              { e with quicConns := e.quicConns.insert c.connHandle { entry with connection := connection } }⟩

/-- Every payload is what the connection appended for it. -/
def Exact (driven : Driven ε κ) : Prop := ∀ sent ∈ driven.sent, sent.payload = sent.produced

/-- What is assumed of `quinn-proto`: a transmit comes with a datagram of its size. -/
def Sized : Prop :=
  ∀ connection time count transmit appended connection',
    Q.pollTransmit connection time count = (some transmit,appended,connection') → appended.length = transmit.size

/-- What the endpoint appends for the datagrams of the socket. -/
def replies : ε → List Datagram → List UInt8
  | _,[] => []
  | endpoint,datagram::datagrams =>
    let (_,appended,endpoint) := Q.handle endpoint now datagram.remote (datagram.bytes.take rxBufLen)
    appended++replies endpoint datagrams

/-- The call comes to poll the connection in this state, after this endpoint was given the
datagrams. -/
structure Polled (e : QuicEngine ε κ) (c : DriveCall) (endpoint : ε) (connection : κ) : Prop where
  arguments : ¬(c.engineNull ∨ c.connHandle = 0)
  found : e.quicEndpoints.lookup c.connHandle = some endpoint
  settled : ((receive Q c.now c.datagrams endpoint (e.quicConns.lookup c.connHandle) []).2.1.bind fun entry =>
    settle Q c.now c.rounds entry.connection) = some connection

/-- If the endpoint has appended anything, the first datagram of the connection repeats it. -/
def Undisturbed (e : QuicEngine ε κ) (c : DriveCall) : Prop :=
  ∀ endpoint connection transmit datagram connection', Polled Q e c endpoint connection →
    Q.pollTransmit connection c.now maxDatagrams = (some transmit,datagram,connection') →
    replies Q c.now endpoint c.datagrams = [] ∨ Repeats (replies Q c.now endpoint c.datagrams) datagram

section Loops

variable {Q} {now}

theorem receive_txBuf (Q : Quinn ε κ ν) (now : ℕ) (datagrams : List Datagram) (endpoint : ε)
    (conn : Option (QuicConnectionEntry κ)) (txBuf : List UInt8) :
    (receive Q now datagrams endpoint conn txBuf).2.2 = txBuf++replies Q now endpoint datagrams := by
  induction datagrams generalizing endpoint conn txBuf with
  | nil => exact (List.append_nil txBuf).symm
  | cons datagram datagrams ih =>
    rw [receive,replies]
    split
    · rename_i hhandle
      rw [hhandle,ih,List.append_assoc]
    · rename_i hhandle
      rw [hhandle,ih,List.append_assoc]

/-- The first datagram is read from the start of the buffer, the others stand alone in it. -/
theorem transmit_exact (h : Sized Q) (rounds : ℕ) (connection : κ) (txBuf : List UInt8) :
    (∀ sent ∈ (transmit Q now (rounds+1) connection txBuf).1, sent.payload = sent.produced) ↔
      ∀ transmit' datagram connection', Q.pollTransmit connection now maxDatagrams = (some transmit',datagram,connection') →
        txBuf = [] ∨ Repeats txBuf datagram := by
  induction rounds generalizing connection txBuf with
  | zero =>
    rw [transmit]
    split
    · rename_i hpoll
      simp [hpoll]
    · rename_i transmit' datagram connection' hpoll
      have hsize := h _ _ _ _ _ _ hpoll
      rw [if_neg (by rw [List.length_append]; omega),transmit,← hsize]
      simp [hpoll,take_append_eq_iff]
  | succ rounds ih =>
    rw [transmit]
    split
    · rename_i hpoll
      simp [hpoll]
    · rename_i transmit' datagram connection' hpoll
      have hsize := h _ _ _ _ _ _ hpoll
      have hrest : ∀ sent ∈ (transmit Q now (rounds+1) connection' []).1, sent.payload = sent.produced :=
        (ih connection' []).mpr fun _ _ _ _ => Or.inl rfl
      rw [if_neg (by rw [List.length_append]; omega),← hsize]
      simp only [List.forall_mem_cons,take_append_eq_iff,and_iff_left hrest,hpoll]
      simp

end Loops

variable {Q}

theorem Polled.unique {e : QuicEngine ε κ} {c : DriveCall} {endpoint endpoint' : ε} {connection connection' : κ}
    (h : Polled Q e c endpoint connection) (h' : Polled Q e c endpoint' connection') :
    endpoint = endpoint' ∧ connection = connection' := by
  obtain rfl : endpoint = endpoint' := Option.some.inj (h.found.symm.trans h'.found)
  exact ⟨rfl,Option.some.inj (h.settled.symm.trans h'.settled)⟩

/-- The loop over the timeouts ends after one round at least. -/
theorem Polled.rounds_pos {e : QuicEngine ε κ} {c : DriveCall} {endpoint : ε} {connection : κ}
    (h : Polled Q e c endpoint connection) : ∃ rounds, c.rounds = rounds+1 := by
  obtain ⟨entry,-,hsettle⟩ := Option.bind_eq_some_iff.mp h.settled
  cases hrounds : c.rounds with
  | zero =>
    rw [hrounds] at hsettle
    cases hsettle
  | succ rounds => exact ⟨rounds,rfl⟩

/-- Only a connection that is polled sends anything. -/
theorem sent_cases (e : QuicEngine ε κ) (c : DriveCall) :
    (∀ endpoint connection, ¬Polled Q e c endpoint connection) ∧ (netHttp3Drive Q e c).sent = [] ∨
    ∃ endpoint connection, Polled Q e c endpoint connection ∧
      (netHttp3Drive Q e c).sent = (transmit Q c.now c.rounds connection (replies Q c.now endpoint c.datagrams)).1 := by
  rw [netHttp3Drive]
  by_cases hargs : c.engineNull ∨ c.connHandle = 0
  · rw [if_pos hargs]
    exact Or.inl ⟨fun _ _ h => h.arguments hargs,rfl⟩
  rw [if_neg hargs]
  cases hfound : e.quicEndpoints.lookup c.connHandle with
  | none =>
    refine Or.inl ⟨fun _ _ h => ?_,rfl⟩
    have hendpoint := h.found
    rw [hfound] at hendpoint
    cases hendpoint
  | some endpoint =>
    have htxBuf := receive_txBuf Q c.now c.datagrams endpoint (e.quicConns.lookup c.connHandle) []
    have hunsettled (hnone : ((receive Q c.now c.datagrams endpoint (e.quicConns.lookup c.connHandle) []).2.1.bind
        fun entry => settle Q c.now c.rounds entry.connection) = none) :
        ∀ endpoint connection, ¬Polled Q e c endpoint connection := by
      intro endpoint' connection h
      obtain rfl : endpoint = endpoint' := Option.some.inj (hfound.symm.trans h.found)
      have hsettled := h.settled
      rw [hnone] at hsettled
      cases hsettled
    cases hreceive : receive Q c.now c.datagrams endpoint (e.quicConns.lookup c.connHandle) [] with
    | mk endpoint' rest =>
      obtain ⟨conn,txBuf⟩ := rest
      rw [hreceive] at htxBuf hunsettled
      cases conn with
      | none => exact Or.inl ⟨hunsettled rfl,by simp only [hreceive]⟩
      | some entry =>
        cases hsettle : settle Q c.now c.rounds entry.connection with
        | none => exact Or.inl ⟨hunsettled hsettle,by simp only [hreceive,hsettle]⟩
        | some connection =>
          refine Or.inr ⟨endpoint,connection,⟨hargs,hfound,by rw [hreceive]; exact hsettle⟩,?_⟩
          rw [List.nil_append] at htxBuf
          simp only [hreceive,hsettle,← htxBuf]
          split
          · rename_i htransmit
            rw [htransmit]
          · rename_i htransmit
            rw [htransmit]

/-- What is sent is exact exactly if the replies of the endpoint do not disturb it. -/
theorem exact_iff (h : Sized Q) (e : QuicEngine ε κ) (c : DriveCall) :
    Exact (netHttp3Drive Q e c) ↔ Undisturbed Q e c := by
  rw [Exact]
  rcases sent_cases (Q:=Q) e c with ⟨hnever,hsent⟩ | ⟨endpoint,connection,hpolled,hsent⟩
  · rw [hsent]
    exact iff_of_true nofun fun endpoint connection _ _ _ hpolled => (hnever endpoint connection hpolled).elim
  · obtain ⟨rounds,hrounds⟩ := hpolled.rounds_pos
    rw [hsent,hrounds,transmit_exact h]
    constructor
    · intro hclean endpoint' connection' transmit' datagram connection'' hpolled' hpoll
      obtain ⟨rfl,rfl⟩ := hpolled.unique hpolled'
      exact hclean transmit' datagram connection'' hpoll
    · intro hclean transmit' datagram connection' hpoll
      exact hclean endpoint connection transmit' datagram connection' hpolled hpoll

/-- An endpoint that replies to every datagram with one byte, and a connection that is the list
of the datagrams it will send. -/
def replyQuinn : Quinn Unit (List (List UInt8)) Unit where
  handle _ _ _ _ := (some (.response ⟨0,1⟩),[1],())
  handleEvent connection _ := connection
  pollTimeout _ := none
  handleTimeout connection _ := connection
  pollTransmit
    | [],_,_ => (none,[],[])
    | datagram::connection,_,_ => (some ⟨0,datagram.length⟩,datagram,connection)

theorem sized_replyQuinn : Sized replyQuinn := by
  intro connection time count transmit' appended connection' hpoll
  cases connection with
  | nil => cases hpoll
  | cons datagram connection =>
    cases hpoll
    rfl

def replyEngine : QuicEngine Unit (List (List UInt8)) := ⟨AList.insert 1 () ∅,AList.insert 1 ⟨0,[[2]]⟩ ∅⟩

def replyCall : DriveCall := ⟨false,1,0,[⟨[0],0⟩],2⟩

theorem exact_iff_reply :
    Exact (netHttp3Drive replyQuinn replyEngine replyCall) ↔ Undisturbed replyQuinn replyEngine replyCall :=
  exact_iff sized_replyQuinn replyEngine replyCall

/-- The reply is sent in the place of the datagram. -/
theorem reply_sent : ¬∀ (ε κ ν : Type) (Q : Quinn ε κ ν), Sized Q → ∀ e c, Exact (netHttp3Drive Q e c) := by
  intro h
  have hpayload := h _ _ _ replyQuinn sized_replyQuinn replyEngine replyCall ⟨0,[1],[2]⟩ (List.mem_singleton.mpr rfl)
  cases hpayload

end ZNet.Http3Drive
