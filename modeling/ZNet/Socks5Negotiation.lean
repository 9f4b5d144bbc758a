import ZNet.Socks5

/-!
# Method negotiation of the SOCKS5 handshake

The greeting is four bytes with two zero methods, whatever the credentials. The method
that the proxy selects is compared only with "no acceptable method" and
username/password, and the lengths of names are cast to bytes where they are sent.
-/

namespace ZNet.Socks5
open StatefulRefinement

/-- The methods that a greeting announces. -/
def offered (greeting : List UInt8) : List UInt8 := (greeting.drop 2).take (greeting.getD 1 0).toNat

/-- A greeting as the protocol defines it, with username/password among its methods
exactly if there are credentials. -/
structure IsGreeting (credentials : Option Credentials) (greeting : List UInt8) : Prop where
  version : greeting.head? = some 0x05
  length : ∃ nMethods, greeting.getD 1 0 = nMethods ∧ greeting.length = 2+nMethods.toNat
  userpass : socks5AuthUserpass ∈ offered greeting ↔ credentials.isSome

theorem mem_offered_greeting {credentials : Option Credentials} {method : UInt8} :
    method ∈ offered (greeting credentials) ↔ method = socks5AuthNone := by
  cases credentials with
  | none => simp [offered,greeting,socks5AuthNone]
  | some creds => simp [offered,greeting,socks5AuthNone]

/-- Without credentials the greeting is a byte too long, with credentials it does not
offer username/password. -/
theorem greeting_not_isGreeting (credentials : Option Credentials) : ¬IsGreeting credentials (greeting credentials) := by
  intro h
  cases credentials with
  | none =>
    obtain ⟨nMethods,rfl,hlength⟩ := h.length
    exact absurd hlength (by decide)
  | some creds =>
    have huserpass := mem_offered_greeting.mp (h.userpass.mpr rfl)
    exact absurd huserpass (by decide)

section Casts

variable {w : Wire}

/-- The computation stops at a length that is no byte. -/
def Miscasts {α : Type} (m : EStateM Failure Wire α) (w : Wire) : Prop := outcome (m w) = .error .invalidCast

theorem takeExact_not_miscasts (n : ℕ) : ¬Miscasts (Wire.takeExact n) w := by
  intro h
  rw [Miscasts,Wire.takeExact] at h
  split_ifs at h
  · cases h
  · cases h

theorem castU8_miscasts (n : ℕ) : Miscasts (castU8 n) w ↔ 256 ≤ n := by
  rw [Miscasts,castU8]
  split_ifs with hn
  · refine iff_of_false (fun h => ?_) (Nat.not_le.mpr hn)
    cases h
  · exact iff_of_true rfl (Nat.not_lt.mp hn)

theorem sendOr_not_miscasts {e : Failure} (he : e ≠ .invalidCast) (data : List UInt8) :
    ¬Miscasts (sendOr wire e data) w := by
  intro h
  rcases bind_eq_error_iff.mp h with h | ⟨ok,w',-,h⟩
  · cases h
  · split_ifs at h
    · cases h
    · exact he (Except.error.inj h)

theorem skipAddress_not_miscasts (atyp : UInt8) : ¬Miscasts (skipAddress wire atyp) w := by
  have hdone : ∀ {n w'}, ¬Miscasts (do
      let _ ← wire.recvExact n
      pure () : EStateM Failure Wire Unit) w' := by
    intro n w' h
    rcases bind_eq_error_iff.mp h with h | ⟨_,_,-,h⟩
    · exact takeExact_not_miscasts n h
    · cases h
  intro h
  rw [Miscasts,skipAddress] at h
  split_ifs at h
  · exact hdone h
  · exact hdone h
  · rcases bind_eq_error_iff.mp h with h | ⟨len,_,-,h⟩
    · exact takeExact_not_miscasts 1 h
    · rcases bind_eq_error_iff.mp h with h | ⟨_,_,-,h⟩
      · exact takeExact_not_miscasts _ h
      · exact hdone h
  · cases h

theorem requestConnect_miscasts (targetHost : List UInt8) (targetPort : UInt16) :
    Miscasts (requestConnect wire targetHost targetPort) w ↔ 256 ≤ targetHost.length := by
  constructor
  · intro h
    rcases bind_eq_error_iff.mp h with h | ⟨_,_,-,h⟩
    · exact (castU8_miscasts _).mp h
    · rcases bind_eq_error_iff.mp h with h | ⟨_,_,-,h⟩
      · exact (sendOr_not_miscasts (e:=.socks .handshakeFailed) nofun _ h).elim
      · rcases bind_eq_error_iff.mp h with h | ⟨head,_,-,h⟩
        · exact (takeExact_not_miscasts 4 h).elim
        · split_ifs at h
          · cases h
          · cases h
          · exact (skipAddress_not_miscasts _ h).elim
  · intro hlong
    exact bind_eq_error_iff.mpr (Or.inl ((castU8_miscasts _).mpr hlong))

theorem authenticate_miscasts (credentials : Option Credentials) :
    Miscasts (authenticate wire credentials) w ↔
      ∃ creds ∈ credentials, 256 ≤ creds.user.length ∨ 256 ≤ creds.pass.length := by
  cases credentials with
  | none => exact iff_of_false nofun nofun
  | some creds =>
    constructor
    · intro h
      refine ⟨creds,rfl,?_⟩
      rcases bind_eq_error_iff.mp h with h | ⟨_,_,-,h⟩
      · exact Or.inl ((castU8_miscasts _).mp h)
      · rcases bind_eq_error_iff.mp h with h | ⟨_,_,-,h⟩
        · exact Or.inr ((castU8_miscasts _).mp h)
        · rcases bind_eq_error_iff.mp h with h | ⟨_,_,-,h⟩
          · exact (sendOr_not_miscasts (e:=.send) nofun _ h).elim
          · rcases bind_eq_error_iff.mp h with h | ⟨resp,_,-,h⟩
            · exact (takeExact_not_miscasts 2 h).elim
            · split_ifs at h
              · cases h
              · cases h
    · rintro ⟨_,⟨⟩,hlong⟩
      by_cases huser : creds.user.length < 256
      · refine bind_eq_error_iff.mpr (Or.inr ⟨UInt8.ofNat creds.user.length,w,?_,?_⟩)
        · rw [castU8,if_pos huser]
          rfl
        · exact bind_eq_error_iff.mpr (Or.inl ((castU8_miscasts _).mpr (hlong.resolve_left (Nat.not_le.mpr huser))))
      · exact bind_eq_error_iff.mpr (Or.inl ((castU8_miscasts _).mpr (Nat.not_lt.mp huser)))

end Casts

section Negotiation

variable {targetHost : List UInt8} {targetPort : UInt16} {credentials : Option Credentials}

theorem takeExact_two_iff {w w' : Wire} {bytes : List UInt8} :
    wire.recvExact 2 w = .ok bytes w' ↔
      ∃ a b rest, w.incoming = a::b::rest ∧ bytes = [a,b] ∧ w' = { w with incoming := rest } := by
  change Wire.takeExact 2 w = .ok bytes w' ↔ _
  rw [Wire.takeExact]
  constructor
  · intro h
    split_ifs at h with hlen
    cases h
    cases hin : w.incoming with
    | nil =>
      rw [hin] at hlen
      cases hlen
    | cons a tail =>
      cases tail with
      | nil =>
        rw [hin] at hlen
        exact absurd hlen (Nat.lt_irrefl 1)
      | cons b rest => exact ⟨a,b,rest,rfl,rfl,rfl⟩
  · rintro ⟨a,b,rest,hin,rfl,rfl⟩
    rw [hin,if_pos (by simp)]
    rfl

theorem sendOr_eq (e : Failure) (data : List UInt8) (w : Wire) : sendOr wire e data w =
    (if w.sends w.sent.length then pure () else throw e : EStateM Failure Wire Unit)
      { w with sent := w.sent++[data] } := rfl

theorem sendOr_ok_iff {e : Failure} {data : List UInt8} {w w' : Wire} :
    sendOr wire e data w = .ok () w' ↔ w.sends w.sent.length = true ∧ w' = { w with sent := w.sent++[data] } := by
  rw [sendOr_eq]
  split_ifs with hok
  · constructor
    · intro h
      cases h
      exact ⟨hok,rfl⟩
    · rintro ⟨-,rfl⟩
      rfl
  · constructor
    · nofun
    · rintro ⟨h,-⟩
      exact (hok h).elim

theorem castU8_of_lt {n : ℕ} {w : Wire} (hn : n < 256) : castU8 n w = .ok (UInt8.ofNat n) w := by
  rw [castU8,if_pos hn]
  rfl

theorem castU8_lt {n : ℕ} {w w' : Wire} {b : UInt8} (h : castU8 n w = .ok b w') : n < 256 := by
  by_contra hn
  rw [castU8,if_neg hn] at h
  cases h

/-- The subnegotiation succeeds: there are credentials, their lengths are bytes, and the
proxy answers with success. -/
def Subnegotiates (credentials : Option Credentials) (w : Wire) : Prop :=
  ∃ creds ∈ credentials, creds.user.length < 256 ∧ creds.pass.length < 256 ∧ w.sends w.sent.length = true ∧
    ∃ version rest, w.incoming = version::0x00::rest

theorem authenticate_ok_iff {w : Wire} :
    (∃ w', authenticate wire credentials w = .ok () w') ↔ Subnegotiates credentials w := by
  cases credentials with
  | none =>
    refine iff_of_false ?_ nofun
    rintro ⟨w',h⟩
    cases h
  | some creds =>
    constructor
    · rintro ⟨w',h⟩
      obtain ⟨userLen,w₁,hu,h⟩ := bind_eq_ok h
      obtain ⟨passLen,w₂,hp,h⟩ := bind_eq_ok h
      obtain ⟨_,w₃,hsend,h⟩ := bind_eq_ok h
      obtain ⟨resp,w₄,hresp,h⟩ := bind_eq_ok h
      obtain rfl := castU8_ok hu
      obtain rfl := castU8_ok hp
      obtain ⟨hsends,rfl⟩ := sendOr_ok_iff.mp hsend
      obtain ⟨version,status,rest,hin,rfl,-⟩ := takeExact_two_iff.mp hresp
      split_ifs at h with hstatus
      · cases h
      · refine ⟨creds,rfl,castU8_lt hu,castU8_lt hp,hsends,version,rest,?_⟩
        rw [not_not] at hstatus
        exact hstatus ▸ hin
    · obtain ⟨incoming,sends,sent⟩ := w
      rintro ⟨_,⟨⟩,huser,hpass,hsends,version,rest,rfl⟩
      exact ⟨_,(bind_of_ok (castU8_of_lt huser)).trans ((bind_of_ok (castU8_of_lt hpass)).trans
        ((bind_of_ok (sendOr_ok_iff.mpr ⟨hsends,rfl⟩)).trans
          (bind_of_ok (takeExact_two_iff.mpr ⟨version,0x00,rest,rfl,rfl,rfl⟩))))⟩

/-- The proxy selects this method in answer to the greeting. -/
def Selects (method : UInt8) (rest : List UInt8) (w : Wire) : Prop :=
  w.sends w.sent.length = true ∧ w.incoming = 0x05::method::rest ∧ method ≠ socks5NoAcceptable

/-- What is left of the handshake once the method is selected. -/
def continueWith (targetHost : List UInt8) (targetPort : UInt16) (credentials : Option Credentials) (method : UInt8) :
    EStateM Failure Wire Unit :=
  if method = socks5AuthUserpass then do
    authenticate wire credentials
    requestConnect wire targetHost targetPort
  else requestConnect wire targetHost targetPort

theorem connect_selects {w : Wire} {method : UInt8} {rest : List UInt8} (h : Selects method rest w) :
    connect wire targetHost targetPort credentials w = continueWith targetHost targetPort credentials method
      { w with incoming := rest, sent := w.sent++[greeting credentials] } := by
  obtain ⟨incoming,sends,sent⟩ := w
  obtain ⟨hsends,rfl,hmethod⟩ := h
  refine (bind_of_ok (sendOr_ok_iff.mpr ⟨hsends,rfl⟩)).trans ?_
  refine (bind_of_ok (takeExact_two_iff.mpr ⟨0x05,method,rest,rfl,rfl,rfl⟩)).trans ?_
  have hversion : ¬[0x05,method].getD 0 0 ≠ 0x05 := not_not.mpr rfl
  have hacceptable : [0x05,method].getD 1 0 ≠ socks5NoAcceptable := hmethod
  rw [if_neg hversion,if_neg hacceptable]
  rfl

theorem sendOr_of_false {e : Failure} {data : List UInt8} {w : Wire} (h : w.sends w.sent.length = false) :
    outcome (sendOr wire e data w) = .error e := by
  rw [sendOr_eq,h]
  rfl

/-- Without a selected method the handshake ends with an error of its own. -/
theorem connect_not_selects (targetHost : List UInt8) (targetPort : UInt16) (credentials : Option Credentials)
    {w : Wire} (h : ¬∃ method rest, Selects method rest w) :
    ∃ e, outcome (connect wire targetHost targetPort credentials w) = .error (.socks e) := by
  obtain ⟨incoming,sends,sent⟩ := w
  cases hsends : sends sent.length with
  | false => exact ⟨.handshakeFailed,bind_eq_error_iff.mpr (Or.inl (sendOr_of_false hsends))⟩
  | true =>
    have hgreeting : sendOr wire (.socks .handshakeFailed) (greeting credentials) ⟨incoming,sends,sent⟩ =
        .ok () ⟨incoming,sends,sent++[greeting credentials]⟩ := sendOr_ok_iff.mpr ⟨hsends,rfl⟩
    match incoming with
    | [] =>
      refine ⟨.handshakeFailed,bind_eq_error_iff.mpr (Or.inr ⟨_,_,hgreeting,?_⟩)⟩
      exact bind_eq_error_iff.mpr (Or.inl rfl)
    | [_] =>
      refine ⟨.handshakeFailed,bind_eq_error_iff.mpr (Or.inr ⟨_,_,hgreeting,?_⟩)⟩
      exact bind_eq_error_iff.mpr (Or.inl rfl)
    | version::method::rest =>
      have hmethod : wire.recvExact 2 ⟨version::method::rest,sends,sent++[greeting credentials]⟩ =
          .ok [version,method] ⟨rest,sends,sent++[greeting credentials]⟩ :=
        takeExact_two_iff.mpr ⟨version,method,rest,rfl,rfl,rfl⟩
      by_cases hversion : version = 0x05
      · by_cases hacceptable : method = socks5NoAcceptable
        · refine ⟨.unsupportedAuthMethod,bind_eq_error_iff.mpr (Or.inr ⟨_,_,hgreeting,?_⟩)⟩
          refine bind_eq_error_iff.mpr (Or.inr ⟨_,_,hmethod,?_⟩)
          subst hversion hacceptable
          rfl
        · subst hversion
          exact (h ⟨method,rest,hsends,rfl,hacceptable⟩).elim
      · refine ⟨.handshakeFailed,bind_eq_error_iff.mpr (Or.inr ⟨_,_,hgreeting,?_⟩)⟩
        refine bind_eq_error_iff.mpr (Or.inr ⟨_,_,hmethod,?_⟩)
        have hne : [version,method].getD 0 0 ≠ 0x05 := hversion
        rw [if_pos hne]
        rfl

/-- A successful handshake selected a method; for username/password the subnegotiation
succeeded. -/
theorem connect_ok_negotiated {w w' : Wire} (h : connect wire targetHost targetPort credentials w = .ok () w') :
    ∃ method rest, Selects method rest w ∧ targetHost.length < 256 ∧ (method = socks5AuthUserpass →
      Subnegotiates credentials { w with incoming := rest, sent := w.sent++[greeting credentials] }) := by
  by_cases hselects : ∃ method rest, Selects method rest w
  · obtain ⟨method,rest,hselects⟩ := hselects
    rw [connect_selects hselects,continueWith] at h
    have hrequest : ∀ {w w' : Wire}, requestConnect wire targetHost targetPort w = .ok () w' →
        targetHost.length < 256 := by
      intro w w' h
      obtain ⟨hostLen,w₁,hcast,-⟩ := bind_eq_ok h
      exact castU8_lt hcast
    refine ⟨method,rest,hselects,?_⟩
    split_ifs at h with huserpass
    · obtain ⟨_,w₁,hauth,h⟩ := bind_eq_ok h
      exact ⟨hrequest h,fun _ => authenticate_ok_iff.mp ⟨w₁,hauth⟩⟩
    · exact ⟨hrequest h,fun heq => (huserpass heq).elim⟩
  · obtain ⟨e,he⟩ := connect_not_selects targetHost targetPort credentials hselects
    rw [h] at he
    cases he

/-- A length that is no byte is reached: the host name once nothing else stops the
handshake, user name and password once their method is selected. -/
def Overlong (targetHost : List UInt8) (credentials : Option Credentials) (w : Wire) : Prop :=
  ∃ method rest, Selects method rest w ∧
    if method = socks5AuthUserpass then
      (∃ creds ∈ credentials, 256 ≤ creds.user.length ∨ 256 ≤ creds.pass.length) ∨
      Subnegotiates credentials { w with incoming := rest, sent := w.sent++[greeting credentials] } ∧
        256 ≤ targetHost.length
    else 256 ≤ targetHost.length

theorem selects_unique {w : Wire} {method method' : UInt8} {rest rest' : List UInt8} (h : Selects method rest w)
    (h' : Selects method' rest' w) : method = method' ∧ rest = rest' := by
  obtain ⟨-,hin,-⟩ := h
  obtain ⟨-,hin',-⟩ := h'
  rw [hin] at hin'
  cases hin'
  exact ⟨rfl,rfl⟩

/-- The invalid cast is reached exactly for overlong names. -/
theorem connect_miscasts_iff {w : Wire} :
    Miscasts (connect wire targetHost targetPort credentials) w ↔ Overlong targetHost credentials w := by
  by_cases hselects : ∃ method rest, Selects method rest w
  · obtain ⟨method,rest,hselects⟩ := hselects
    have hoverlong : Overlong targetHost credentials w ↔
        if method = socks5AuthUserpass then
          (∃ creds ∈ credentials, 256 ≤ creds.user.length ∨ 256 ≤ creds.pass.length) ∨
          Subnegotiates credentials { w with incoming := rest, sent := w.sent++[greeting credentials] } ∧
            256 ≤ targetHost.length
        else 256 ≤ targetHost.length := by
      constructor
      · rintro ⟨method',rest',hselects',h⟩
        obtain ⟨rfl,rfl⟩ := selects_unique hselects hselects'
        exact h
      · intro h
        exact ⟨method,rest,hselects,h⟩
    rw [hoverlong,Miscasts,connect_selects hselects,continueWith]
    split_ifs with huserpass
    · constructor
      · intro h
        rcases bind_eq_error_iff.mp h with h | ⟨_,w₁,hauth,h⟩
        · exact Or.inl ((authenticate_miscasts credentials).mp h)
        · exact Or.inr ⟨authenticate_ok_iff.mp ⟨w₁,hauth⟩,(requestConnect_miscasts targetHost targetPort).mp h⟩
      · rintro (h | ⟨hauth,h⟩)
        · exact bind_eq_error_iff.mpr (Or.inl ((authenticate_miscasts credentials).mpr h))
        · obtain ⟨w₁,hauth⟩ := authenticate_ok_iff.mpr hauth
          exact bind_eq_error_iff.mpr (Or.inr ⟨(),w₁,hauth,(requestConnect_miscasts targetHost targetPort).mpr h⟩)
    · exact requestConnect_miscasts targetHost targetPort
  · obtain ⟨e,he⟩ := connect_not_selects targetHost targetPort credentials hselects
    refine iff_of_false ?_ ?_
    · intro h
      rw [Miscasts,he] at h
      cases h
    · rintro ⟨method,rest,hselects',-⟩
      exact hselects ⟨method,rest,hselects'⟩

end Negotiation

/-- The negotiation as the protocol has it. -/
structure Sound (targetHost : List UInt8) (targetPort : UInt16) (credentials : Option Credentials) (s : Socket) :
    Prop where
  greeting : IsGreeting credentials (greeting credentials)
  method : ∀ s', connect socket targetHost targetPort credentials s = .ok () s' →
    s.incoming.getD 1 0 ∈ offered (Socks5.greeting credentials)
  subnegotiation : ∀ s', connect socket targetHost targetPort credentials s = .ok () s' →
    s.incoming.getD 1 0 = socks5AuthUserpass → credentials.isSome ∧ s.incoming[3]? = some 0x00
  lengths : (256 ≤ targetHost.length ∨ ∃ creds ∈ credentials, 256 ≤ creds.user.length ∨ 256 ≤ creds.pass.length) →
    outcome (connect socket targetHost targetPort credentials s) ≠ .error .invalidCast

section Start

variable (targetHost : List UInt8) (targetPort : UInt16) (credentials : Option Credentials)
  (incoming : List UInt8) (sends : ℕ → Bool) (recvs : ℕ → ℕ)

/-- For no credentials, no names and no proxy is the negotiation sound: the greeting
never is. -/
theorem negotiation_never_sound :
    ¬Sound targetHost targetPort credentials (Socket.start incoming sends recvs) := by
  intro h
  exact greeting_not_isGreeting credentials h.greeting

theorem connect_start_outcome :
    outcome (connect socket targetHost targetPort credentials (Socket.start incoming sends recvs)) =
      outcome (connect wire targetHost targetPort credentials ⟨incoming,sends,[]⟩) :=
  (connect_refines targetHost targetPort credentials _ _ (start_agrees incoming sends recvs)).outcome_eq

/-- What a success of `connect` says: the method is offered exactly if it is no
authentication, and a subnegotiation succeeded. -/
theorem connect_ok_method {s : Socket}
    (h : connect socket targetHost targetPort credentials (Socket.start incoming sends recvs) = .ok () s) :
    (incoming.getD 1 0 ∈ offered (greeting credentials) ↔ incoming.getD 1 0 = socks5AuthNone) ∧
    targetHost.length < 256 ∧
    (incoming.getD 1 0 = socks5AuthUserpass → credentials.isSome ∧ incoming[3]? = some 0x00) := by
  have houtcome := connect_start_outcome targetHost targetPort credentials incoming sends recvs
  rw [h] at houtcome
  cases hw : connect wire targetHost targetPort credentials ⟨incoming,sends,[]⟩ with
  | error e w =>
    rw [hw] at houtcome
    cases houtcome
  | ok u w =>
    obtain ⟨method,rest,⟨-,rfl,-⟩,hhost,hauth⟩ := connect_ok_negotiated hw
    refine ⟨mem_offered_greeting,hhost,?_⟩
    intro heq
    obtain ⟨creds,hcreds,-,-,-,version,rest',hrest⟩ := hauth heq
    cases hcreds
    cases hrest
    exact ⟨rfl,rfl⟩

theorem invalidCast_iff :
    outcome (connect socket targetHost targetPort credentials (Socket.start incoming sends recvs)) =
      .error .invalidCast ↔ Overlong targetHost credentials ⟨incoming,sends,[]⟩ := by
  rw [connect_start_outcome]
  exact connect_miscasts_iff

end Start

/-- Without credentials the last byte of the greeting is one too many. -/
theorem negotiation_not_sound :
    ¬Sound [97] 443 none (Socket.start [0x05,0x00,0x05,0x00,0x00,0x01,127,0,0,1,0,80] (fun _ => true) fun _ => 1) := by
  intro h
  obtain ⟨nMethods,rfl,hlength⟩ := h.greeting.length
  exact absurd hlength (by decide)

end ZNet.Socks5
