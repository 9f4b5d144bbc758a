import ZNet.StatefulRefinement
import Mathlib.Data.List.GetD
import Mathlib.Data.Nat.Init
import Mathlib.Tactic.Common

/-!
# The SOCKS5 handshake over a fragmented byte stream

`recv` returns what has arrived, up to the requested length, and `recvExact` loops
until a message is complete. `connect` is written over a transport, and is used at
two of them: the socket with its short reads, and the plain byte sequence.
-/

namespace ZNet.Socks5
open StatefulRefinement

inductive SocksError
  | handshakeFailed | authRequired | unsupportedAuthMethod | connectionRefused | networkUnreachable
  | hostUnreachable | ttlExpired | commandNotSupported | addressTypeNotSupported | unknownError
deriving DecidableEq

/-- How `connect` can stop early: a SOCKS error, an error of `send` passed on by
`try`, or an `@intCast` of a length that is no byte. -/
inductive Failure
  | socks (e : SocksError)
  | send
  | invalidCast
deriving DecidableEq

structure Credentials where
  user : List UInt8
  pass : List UInt8

/-- A connected socket. `incoming` is what the peer sends before it closes. The
`i`-th `recv` fails where `recvs i` is `none` and is otherwise willing to return
`recvs i` bytes; the `i`-th `send` succeeds where `sends i` says so. -/
structure Socket where
  incoming : List UInt8
  recvs : ℕ → Option ℕ
  calls : ℕ
  sends : ℕ → Bool
  sent : List (List UInt8)

/-- `recv` into a buffer of length `len`: at least one byte if there is one. -/
def Socket.recv (s : Socket) (len : ℕ) : Option (List UInt8)×Socket :=
  match s.recvs s.calls with
  | none => (none,{ s with calls := s.calls+1 })
  | some n =>
    let k := min (max 1 n) len
    (some (s.incoming.take k),{ s with incoming := s.incoming.drop k, calls := s.calls+1 })

def Socket.send (data : List UInt8) : EStateM Failure Socket Bool := fun s =>
  .ok (s.sends s.sent.length) { s with sent := s.sent++[data] }

def recvExact (len : ℕ) : EStateM Failure Socket (List UInt8) := fun s =>
  if len = 0 then .ok [] s
  else match s.recv len with
    | (none,s') => .error (.socks .handshakeFailed) s'
    | (some bytes,s') =>
      if bytes.length = 0 then .error (.socks .handshakeFailed) s'
      else match recvExact (len-bytes.length) s' with
        | .error e s'' => .error e s''
        | .ok more s'' => .ok (bytes++more) s''
termination_by len
decreasing_by omega

/-- What `connect` needs of the connection to the proxy. -/
structure Transport (σ : Type) where
  send : List UInt8 → EStateM Failure σ Bool
  recvExact : ℕ → EStateM Failure σ (List UInt8)

def socket : Transport Socket := ⟨Socket.send,recvExact⟩

def socks5AuthNone : UInt8 := 0x00
def socks5AuthUserpass : UInt8 := 0x02
def socks5NoAcceptable : UInt8 := 0xff
def socks5CmdConnect : UInt8 := 0x01
def socks5AtypIpv4 : UInt8 := 0x01
def socks5AtypDomain : UInt8 := 0x03
def socks5AtypIpv6 : UInt8 := 0x04
def socks5RepSuccess : UInt8 := 0x00
def socks5RepNotAllowed : UInt8 := 0x02
def socks5RepNetUnreachable : UInt8 := 0x03
def socks5RepHostUnreachable : UInt8 := 0x04
def socks5RepRefused : UInt8 := 0x05
def socks5RepTtl : UInt8 := 0x06
def socks5RepCmdUnsupported : UInt8 := 0x07
def socks5RepAtypUnsupported : UInt8 := 0x08

def mapError (rep : UInt8) : SocksError :=
  if rep = socks5RepNotAllowed ∨ rep = socks5RepRefused then .connectionRefused
  else if rep = socks5RepNetUnreachable then .networkUnreachable
  else if rep = socks5RepHostUnreachable then .hostUnreachable
  else if rep = socks5RepTtl then .ttlExpired
  else if rep = socks5RepCmdUnsupported then .commandNotSupported
  else if rep = socks5RepAtypUnsupported then .addressTypeNotSupported
  else .unknownError

def memWriteU16Be (v : UInt16) : List UInt8 := [(v>>>8).toUInt8,v.toUInt8]

section Connect

variable {σ : Type} (t : Transport σ)

/-- `@intCast` of a length to `u8`. -/
def castU8 (n : ℕ) : EStateM Failure σ UInt8 :=
  if n < 256 then pure (UInt8.ofNat n) else throw .invalidCast

/-- A `send` whose error is reported as the given failure. -/
def sendOr (e : Failure) (data : List UInt8) : EStateM Failure σ Unit := do
  let ok ← t.send data
  if ok then pure () else throw e

def greeting (credentials : Option Credentials) : List UInt8 :=
  [0x05,if credentials.isSome then 0x02 else 0x01,socks5AuthNone,0x00]

/-- Username/password subnegotiation. -/
def authenticate (credentials : Option Credentials) : EStateM Failure σ Unit :=
  match credentials with
  | none => throw (.socks .authRequired)
  | some creds => do
    let userLen ← castU8 creds.user.length
    let passLen ← castU8 creds.pass.length
    sendOr t .send ([0x01,userLen]++creds.user++[passLen]++creds.pass)
    let resp ← t.recvExact 2
    if resp.getD 1 0 ≠ 0x00 then throw (.socks .authRequired) else pure ()

/-- Skip `BND.ADDR` and `BND.PORT` according to the address type. -/
def skipAddress (atyp : UInt8) : EStateM Failure σ Unit :=
  if atyp = socks5AtypIpv4 then do
    let _ ← t.recvExact 6
    pure ()
  else if atyp = socks5AtypIpv6 then do
    let _ ← t.recvExact 18
    pure ()
  else if atyp = socks5AtypDomain then do
    let len ← t.recvExact 1
    let _ ← t.recvExact (len.getD 0 0).toNat
    let _ ← t.recvExact 2
    pure ()
  else throw (.socks .addressTypeNotSupported)

def requestConnect (targetHost : List UInt8) (targetPort : UInt16) : EStateM Failure σ Unit := do
  let hostLen ← castU8 targetHost.length
  sendOr t (.socks .handshakeFailed)
    ([0x05,socks5CmdConnect,0x00,socks5AtypDomain,hostLen]++targetHost++memWriteU16Be targetPort)
  let head ← t.recvExact 4
  if head.getD 0 0 ≠ 0x05 then throw (.socks .handshakeFailed)
  else if head.getD 1 0 ≠ socks5RepSuccess then throw (.socks (mapError (head.getD 1 0)))
  else skipAddress t (head.getD 3 0)

def connect (targetHost : List UInt8) (targetPort : UInt16) (credentials : Option Credentials) :
    EStateM Failure σ Unit := do
  sendOr t (.socks .handshakeFailed) (greeting credentials)
  let methodResp ← t.recvExact 2
  if methodResp.getD 0 0 ≠ 0x05 then throw (.socks .handshakeFailed)
  else if methodResp.getD 1 0 = socks5NoAcceptable then throw (.socks .unsupportedAuthMethod)
  else if methodResp.getD 1 0 = socks5AuthUserpass then do
    authenticate t credentials
    requestConnect t targetHost targetPort
  else requestConnect t targetHost targetPort

end Connect

/-- The proxy's byte sequence, without any fragmentation. -/
structure Wire where
  incoming : List UInt8
  sends : ℕ → Bool
  sent : List (List UInt8)

/-- The next `len` bytes, or a failed handshake at the end of the sequence. -/
def Wire.takeExact (len : ℕ) : EStateM Failure Wire (List UInt8) := fun w =>
  if len ≤ w.incoming.length then .ok (w.incoming.take len) { w with incoming := w.incoming.drop len }
  else .error (.socks .handshakeFailed) { w with incoming := [] }

def Wire.send (data : List UInt8) : EStateM Failure Wire Bool := fun w =>
  .ok (w.sends w.sent.length) { w with sent := w.sent++[data] }

def wire : Transport Wire := ⟨Wire.send,Wire.takeExact⟩

/-- A socket whose `recv` never fails, and the bytes it still has to deliver. -/
structure Agrees (s : Socket) (w : Wire) : Prop where
  incoming : s.incoming = w.incoming
  sends : s.sends = w.sends
  sent : s.sent = w.sent
  recvs : ∀ i, (s.recvs i).isSome

theorem send_refines (data : List UInt8) : Refines Agrees (Socket.send data) (Wire.send data) := by
  intro s w h
  refine ⟨?_,h.incoming,h.sends,?_,h.recvs⟩
  · rw [h.sends,h.sent]
  · simp only [h.sent]

/-- A successful `recv` takes a front part of what is left, which is empty only at
the end of the sequence. -/
theorem recv_some {s : Socket} {len : ℕ} (hlen : len ≠ 0) (hlive : ∀ i, (s.recvs i).isSome) :
    ∃ k, 0 < k ∧ k ≤ len ∧ s.recv len =
      (some (s.incoming.take k),{ s with incoming := s.incoming.drop k, calls := s.calls+1 }) := by
  obtain ⟨n,hn⟩ := Option.isSome_iff_exists.mp (hlive s.calls)
  refine ⟨min (max 1 n) len,by omega,by omega,?_⟩
  simp only [Socket.recv,hn]

/-- However the bytes arrive, `recvExact` delivers the next `len` of them. -/
theorem recvExact_refines (len : ℕ) : Refines Agrees (recvExact len) (Wire.takeExact len) := by
  induction len using Nat.strong_induction_on with
  | _ len ih =>
    intro s w h
    rw [recvExact]
    by_cases hlen : len = 0
    · subst hlen
      simp only [if_true,Wire.takeExact,Nat.zero_le,List.take_zero,List.drop_zero]
      exact ⟨rfl,h⟩
    · obtain ⟨k,hk,hkl,hrecv⟩ := recv_some hlen h.recvs
      simp only [if_neg hlen,hrecv,List.length_take,h.incoming]
      by_cases hend : w.incoming.length = 0
      · rw [if_pos (by omega),Wire.takeExact,if_neg (by omega)]
        refine ⟨rfl,?_,h.sends,h.sent,h.recvs⟩
        simp [List.length_eq_zero_iff.mp hend]
      · rw [if_neg (by omega)]
        have hrest := ih (len-min k w.incoming.length) (by omega)
          { s with incoming := w.incoming.drop k, calls := s.calls+1 }
          { w with incoming := w.incoming.drop k } ⟨rfl,h.sends,h.sent,h.recvs⟩
        by_cases hshort : len ≤ w.incoming.length
        · have hmin : min k w.incoming.length = k := by omega
          rw [hmin] at hrest ⊢
          rw [Wire.takeExact,if_pos (by rw [List.length_drop]; omega)] at hrest
          rw [Wire.takeExact,if_pos hshort]
          cases hr : recvExact (len-k) { s with incoming := w.incoming.drop k, calls := s.calls+1 } with
          | error e s' =>
            rw [hr] at hrest
            exact hrest.elim
          | ok more s' =>
            rw [hr] at hrest
            obtain ⟨rfl,hag⟩ := hrest
            refine ⟨?_,?_⟩
            · rw [← List.take_add,Nat.add_sub_of_le hkl]
            · rw [List.drop_drop,Nat.add_sub_of_le hkl] at hag
              exact hag
        · rw [Wire.takeExact,if_neg (by rw [List.length_drop]; omega)] at hrest
          rw [Wire.takeExact,if_neg hshort]
          cases hr : recvExact (len-min k w.incoming.length)
              { s with incoming := w.incoming.drop k, calls := s.calls+1 } with
          | error e s' =>
            rw [hr] at hrest
            exact hrest
          | ok more s' =>
            rw [hr] at hrest
            exact hrest.elim

theorem castU8_refines (n : ℕ) :
    Refines Agrees (castU8 n : EStateM Failure Socket UInt8) (castU8 n : EStateM Failure Wire UInt8) := by
  rw [castU8,castU8]
  split
  · exact .pure _ _
  · exact .throw _ _

theorem sendOr_refines (e : Failure) (data : List UInt8) :
    Refines Agrees (sendOr socket e data) (sendOr wire e data) := by
  apply (send_refines data).bind
  intro ok
  split
  · exact .pure _ _
  · exact .throw _ _

theorem authenticate_refines (credentials : Option Credentials) :
    Refines Agrees (authenticate socket credentials) (authenticate wire credentials) := by
  cases credentials with
  | none => exact .throw _ _
  | some creds =>
    apply (castU8_refines _).bind
    intro userLen
    apply (castU8_refines _).bind
    intro passLen
    apply (sendOr_refines _ _).bind
    intro _
    apply (recvExact_refines 2).bind
    intro resp
    split
    · exact .throw _ _
    · exact .pure _ _

theorem skipAddress_refines (atyp : UInt8) : Refines Agrees (skipAddress socket atyp) (skipAddress wire atyp) := by
  rw [skipAddress,skipAddress]
  split_ifs
  · exact (recvExact_refines 6).bind fun _ => .pure _ _
  · exact (recvExact_refines 18).bind fun _ => .pure _ _
  · exact (recvExact_refines 1).bind fun len => (recvExact_refines _).bind fun _ =>
      (recvExact_refines 2).bind fun _ => .pure _ _
  · exact .throw _ _

theorem requestConnect_refines (targetHost : List UInt8) (targetPort : UInt16) :
    Refines Agrees (requestConnect socket targetHost targetPort) (requestConnect wire targetHost targetPort) := by
  apply (castU8_refines _).bind
  intro hostLen
  apply (sendOr_refines _ _).bind
  intro _
  apply (recvExact_refines 4).bind
  intro head
  split_ifs
  · exact .throw _ _
  · exact .throw _ _
  · exact skipAddress_refines _

/-- The handshake on the socket is the handshake on the byte sequence. -/
theorem connect_refines (targetHost : List UInt8) (targetPort : UInt16) (credentials : Option Credentials) :
    Refines Agrees (connect socket targetHost targetPort credentials)
      (connect wire targetHost targetPort credentials) := by
  apply (sendOr_refines _ _).bind
  intro _
  apply (recvExact_refines 2).bind
  intro methodResp
  split_ifs
  · exact .throw _ _
  · exact .throw _ _
  · exact (authenticate_refines _).bind fun _ => requestConnect_refines _ _
  · exact requestConnect_refines _ _

section Calls

theorem recv_calls (s : Socket) (len : ℕ) : (s.recv len).2.calls = s.calls+1 := by
  rw [Socket.recv]
  cases s.recvs s.calls <;> rfl

/-- A message of `len` bytes costs at most `len` calls of `recv`. -/
theorem recvExact_within (len : ℕ) : Within Socket.calls len (recvExact len) := by
  induction len using Nat.strong_induction_on with
  | _ len ih =>
    intro s
    rw [recvExact]
    by_cases hlen : len = 0
    · simp only [if_pos hlen,finalState]
      omega
    · have hcalls := recv_calls s len
      rw [if_neg hlen]
      generalize s.recv len = r at hcalls
      obtain ⟨_ | bytes,s'⟩ := r
      · simp only [finalState] at hcalls ⊢
        omega
      · simp only at hcalls ⊢
        split_ifs with hz
        · simp only [finalState]
          omega
        · have hrest := ih (len-bytes.length) (by omega) s'
          cases hr : recvExact (len-bytes.length) s' <;> rw [hr] at hrest <;>
            simp only [finalState] at hrest ⊢ <;> omega

theorem castU8_within (n : ℕ) : Within Socket.calls 0 (castU8 n : EStateM Failure Socket UInt8) := by
  rw [castU8]
  split
  · exact .pure _ _ _
  · exact .throw _ _ _

theorem sendOr_within (e : Failure) (data : List UInt8) : Within Socket.calls 0 (sendOr socket e data) := by
  have hsend : Within Socket.calls 0 (Socket.send data) := fun s => Nat.le_refl _
  refine hsend.bind fun ok => (?_ : Within Socket.calls 0 _)
  split
  · exact .pure _ _ _
  · exact .throw _ _ _

theorem authenticate_within (credentials : Option Credentials) :
    Within Socket.calls 2 (authenticate socket credentials) := by
  cases credentials with
  | none => exact .throw _ _ _
  | some creds =>
    refine ((castU8_within _).bind fun userLen => (castU8_within _).bind fun passLen =>
      (sendOr_within _ _).bind fun _ => (recvExact_within 2).bind fun resp =>
        (?_ : Within Socket.calls 0 _)).mono (by decide)
    split
    · exact .throw _ _ _
    · exact .pure _ _ _

theorem skipAddress_within (atyp : UInt8) : Within Socket.calls 258 (skipAddress socket atyp) := by
  have hdone : ∀ _ : List UInt8, Within Socket.calls 0 (pure () : EStateM Failure Socket Unit) :=
    fun _ => .pure _ _ _
  rw [skipAddress]
  split_ifs
  · exact ((recvExact_within 6).bind hdone).mono (by decide)
  · exact ((recvExact_within 18).bind hdone).mono (by decide)
  · refine ((recvExact_within 1).bind fun len => ?_ : Within Socket.calls (1+257) _)
    have hlen := UInt8.toNat_lt (len.getD 0 0)
    exact ((recvExact_within _).bind fun _ => (recvExact_within 2).bind hdone).mono (by omega)
  · exact .throw _ _ _

theorem requestConnect_within (targetHost : List UInt8) (targetPort : UInt16) :
    Within Socket.calls 262 (requestConnect socket targetHost targetPort) := by
  refine ((castU8_within _).bind fun hostLen => (sendOr_within _ _).bind fun _ =>
    (recvExact_within 4).bind fun head => (?_ : Within Socket.calls 258 _)).mono (by decide)
  split_ifs
  · exact .throw _ _ _
  · exact .throw _ _ _
  · exact skipAddress_within _

theorem connect_within (targetHost : List UInt8) (targetPort : UInt16) (credentials : Option Credentials) :
    Within Socket.calls 266 (connect socket targetHost targetPort credentials) := by
  refine ((sendOr_within _ _).bind fun _ => (recvExact_within 2).bind fun methodResp =>
    (?_ : Within Socket.calls 264 _)).mono (by decide)
  split_ifs
  · exact .throw _ _ _
  · exact .throw _ _ _
  · exact (authenticate_within _).bind fun _ => requestConnect_within _ _
  · exact (requestConnect_within _ _).mono (by decide)

end Calls

section Consumed

/-- A complete CONNECT reply: its length follows from the address type in it. -/
def IsReply (reply : List UInt8) : Prop :=
  reply.getD 3 0 = socks5AtypIpv4 ∧ reply.length = 10 ∨
  reply.getD 3 0 = socks5AtypIpv6 ∧ reply.length = 22 ∨
  reply.getD 3 0 = socks5AtypDomain ∧ reply.length = 7+(reply.getD 4 0).toNat

theorem takeExact_ok {n : ℕ} {w w' : Wire} {bytes : List UInt8} (h : Wire.takeExact n w = .ok bytes w') :
    w.incoming = bytes++w'.incoming ∧ bytes.length = n := by
  rw [Wire.takeExact] at h
  split_ifs at h with hn
  cases h
  exact ⟨(List.take_append_drop n _).symm,List.length_take_of_le hn⟩

theorem castU8_ok {n : ℕ} {w w' : Wire} {b : UInt8} (h : castU8 n w = .ok b w') : w' = w := by
  rw [castU8] at h
  split_ifs at h
  · cases h
    rfl
  · cases h

theorem sendOr_ok {e : Failure} {data : List UInt8} {w w' : Wire} (h : sendOr wire e data w = .ok () w') :
    w'.incoming = w.incoming := by
  obtain ⟨ok,w₁,hsend,hok⟩ := bind_eq_ok h
  cases hsend
  split_ifs at hok
  · cases hok
    rfl
  · cases hok

theorem authenticate_ok {credentials : Option Credentials} {w w' : Wire}
    (h : authenticate wire credentials w = .ok () w') :
    ∃ auth, w.incoming = auth++w'.incoming ∧ auth.length = 2 := by
  cases credentials with
  | none => cases h
  | some creds =>
    obtain ⟨userLen,w₁,hu,h⟩ := bind_eq_ok h
    obtain ⟨passLen,w₂,hp,h⟩ := bind_eq_ok h
    obtain ⟨_,w₃,hsend,h⟩ := bind_eq_ok h
    obtain ⟨resp,w₄,hresp,h⟩ := bind_eq_ok h
    obtain ⟨hin,hlen⟩ := takeExact_ok hresp
    have hw₃ : w₃.incoming = w.incoming := by
      rw [sendOr_ok hsend,castU8_ok hp,castU8_ok hu]
    split_ifs at h
    · cases h
    · cases h
      exact ⟨resp,hw₃ ▸ hin,hlen⟩

/-- After a head of four bytes that names the address type, the rest of the reply. -/
theorem skipAddress_ok {head : List UInt8} (hhead : head.length = 4) {w w' : Wire}
    (h : skipAddress wire (head.getD 3 0) w = .ok () w') :
    ∃ address, w.incoming = address++w'.incoming ∧ IsReply (head++address) := by
  have hatyp : ∀ address : List UInt8, (head++address).getD 3 0 = head.getD 3 0 := by
    intro address
    rw [List.getD_append _ _ _ _ (by omega)]
  rw [skipAddress] at h
  split_ifs at h with h4 h6 hd
  · obtain ⟨address,w₁,hrecv,h⟩ := bind_eq_ok h
    cases h
    obtain ⟨hin,hlen⟩ := takeExact_ok hrecv
    refine ⟨address,hin,Or.inl ⟨(hatyp _).trans h4,?_⟩⟩
    rw [List.length_append]
    omega
  · obtain ⟨address,w₁,hrecv,h⟩ := bind_eq_ok h
    cases h
    obtain ⟨hin,hlen⟩ := takeExact_ok hrecv
    refine ⟨address,hin,Or.inr (Or.inl ⟨(hatyp _).trans h6,?_⟩)⟩
    rw [List.length_append]
    omega
  · obtain ⟨len,w₁,hl,h⟩ := bind_eq_ok h
    obtain ⟨name,w₂,hn,h⟩ := bind_eq_ok h
    obtain ⟨port,w₃,hp,h⟩ := bind_eq_ok h
    cases h
    obtain ⟨hin₁,hlen₁⟩ := takeExact_ok hl
    obtain ⟨hin₂,hlen₂⟩ := takeExact_ok hn
    obtain ⟨hin₃,hlen₃⟩ := takeExact_ok hp
    refine ⟨len++(name++port),?_,Or.inr (Or.inr ⟨(hatyp _).trans hd,?_⟩)⟩
    · rw [hin₁,hin₂,hin₃]
      simp
    · have hbyte : (head++(len++(name++port))).getD 4 0 = len.getD 0 0 := by
        rw [List.getD_append_right _ _ _ _ (by omega),hhead,List.getD_append _ _ _ _ (by omega)]
      rw [hbyte]
      simp only [List.length_append]
      omega
  · cases h

theorem requestConnect_ok {targetHost : List UInt8} {targetPort : UInt16} {w w' : Wire}
    (h : requestConnect wire targetHost targetPort w = .ok () w') :
    ∃ reply, w.incoming = reply++w'.incoming ∧ IsReply reply := by
  obtain ⟨hostLen,w₁,hh,h⟩ := bind_eq_ok h
  obtain ⟨_,w₂,hsend,h⟩ := bind_eq_ok h
  obtain ⟨head,w₃,hhead,h⟩ := bind_eq_ok h
  have hw₂ : w₂.incoming = w.incoming := by
    rw [sendOr_ok hsend,castU8_ok hh]
  obtain ⟨hin,hlen⟩ := takeExact_ok hhead
  split_ifs at h
  · cases h
  · cases h
  · obtain ⟨address,haddr,hreply⟩ := skipAddress_ok hlen h
    refine ⟨head++address,?_,hreply⟩
    rw [← hw₂,hin,haddr,List.append_assoc]

/-- A successful handshake took exactly the method reply, the reply of the
subnegotiation if there was one, and the CONNECT reply. -/
theorem connect_ok {targetHost : List UInt8} {targetPort : UInt16} {credentials : Option Credentials} {w w' : Wire}
    (h : connect wire targetHost targetPort credentials w = .ok () w') :
    ∃ method auth reply, w.incoming = method++(auth++(reply++w'.incoming)) ∧ method.length = 2 ∧
      auth.length = (if method.getD 1 0 = socks5AuthUserpass then 2 else 0) ∧ IsReply reply := by
  obtain ⟨_,w₁,hsend,h⟩ := bind_eq_ok h
  obtain ⟨method,w₂,hmethod,h⟩ := bind_eq_ok h
  have hw₁ := sendOr_ok hsend
  obtain ⟨hin,hlen⟩ := takeExact_ok hmethod
  split_ifs at h with h₁ h₂ h₃
  · cases h
  · cases h
  · obtain ⟨_,w₃,hauth,h⟩ := bind_eq_ok h
    obtain ⟨auth,hin₂,hlen₂⟩ := authenticate_ok hauth
    obtain ⟨reply,hin₃,hreply⟩ := requestConnect_ok h
    refine ⟨method,auth,reply,?_,hlen,?_,hreply⟩
    · rw [← hw₁,hin,hin₂,hin₃]
    · rw [if_pos h₃,hlen₂]
  · obtain ⟨reply,hin₃,hreply⟩ := requestConnect_ok h
    refine ⟨method,[],reply,?_,hlen,?_,hreply⟩
    · rw [← hw₁,hin,hin₃,List.nil_append]
    · rw [if_neg h₃,List.length_nil]

end Consumed

/-- A fresh socket: the bytes the proxy will send, and how `recv` fragments them. -/
def Socket.start (incoming : List UInt8) (sends : ℕ → Bool) (recvs : ℕ → ℕ) : Socket :=
  ⟨incoming,fun i => some (recvs i),0,sends,[]⟩

theorem start_agrees (incoming : List UInt8) (sends : ℕ → Bool) (recvs : ℕ → ℕ) :
    Agrees (Socket.start incoming sends recvs) ⟨incoming,sends,[]⟩ := ⟨rfl,rfl,rfl,fun _ => rfl⟩

/-- The next `recv` returns the first byte that is left. -/
theorem recv_first {s : Socket} (hlive : ∀ i, (s.recvs i).isSome) {len : ℕ} (hlen : len ≠ 0) {b : UInt8}
    {rest : List UInt8} (hs : s.incoming = b::rest) :
    ∃ more s', s.recv len = (some (b::more),s') ∧ more <+: rest := by
  obtain ⟨k,hk,hkl,hrecv⟩ := recv_some hlen hlive
  obtain ⟨j,rfl⟩ : ∃ j, k = j+1 := ⟨k-1,by omega⟩
  rw [hs,List.take_succ_cons] at hrecv
  exact ⟨rest.take j,_,hrecv,List.take_prefix _ _⟩

/-- The handshake over any byte sequence and any fragmentation. It stops after at
most 266 calls of `recv`, its outcome is the same for every fragmentation, and on
success it has consumed exactly the messages addressed to it, so that the next
`recv` returns the first byte of the tunnel. -/
theorem connect_fragmentation (targetHost : List UInt8) (targetPort : UInt16) (credentials : Option Credentials)
    (incoming : List UInt8) (sends : ℕ → Bool) (recvs recvs' : ℕ → ℕ) :
    (finalState (connect socket targetHost targetPort credentials (Socket.start incoming sends recvs))).calls ≤ 266 ∧
    outcome (connect socket targetHost targetPort credentials (Socket.start incoming sends recvs)) =
      outcome (connect socket targetHost targetPort credentials (Socket.start incoming sends recvs')) ∧
    ∀ s, connect socket targetHost targetPort credentials (Socket.start incoming sends recvs) = .ok () s →
      ∃ method auth reply, incoming = method++(auth++(reply++s.incoming)) ∧ method.length = 2 ∧
        auth.length = (if method.getD 1 0 = socks5AuthUserpass then 2 else 0) ∧ IsReply reply ∧
        ∀ len b rest, len ≠ 0 → s.incoming = b::rest → ∃ more s', s.recv len = (some (b::more),s') ∧ more <+: rest := by
  have href := connect_refines targetHost targetPort credentials
  have h := href _ _ (start_agrees incoming sends recvs)
  have h' := href _ _ (start_agrees incoming sends recvs')
  refine ⟨?_,h.outcome_eq.trans h'.outcome_eq.symm,?_⟩
  · simpa [Socket.start] using
      connect_within targetHost targetPort credentials (Socket.start incoming sends recvs)
  · intro s hs
    rw [hs] at h
    cases hw : connect wire targetHost targetPort credentials ⟨incoming,sends,[]⟩ with
    | error e w =>
      rw [hw] at h
      exact h.elim
    | ok u w =>
      rw [hw] at h
      obtain ⟨-,hag⟩ := h
      obtain ⟨method,auth,reply,hin,hlen,hauth,hreply⟩ := connect_ok hw
      refine ⟨method,auth,reply,?_,hlen,hauth,hreply,?_⟩
      · rw [hag.incoming]
        exact hin
      · intro len b rest hne hb
        exact recv_first hag.recvs hne hb

end ZNet.Socks5
