import ZNet.HttpConnect
import ZNet.IpAddress

/-!
# Tunneled connections

`connectTunneled` opens a TCP connection to the proxy, or to the target where there is
no proxy. `TlsManager.connectTunneled` looks up the proxy for the bare name of the
target host, which `resolveFor` takes for no URL.
-/

namespace ZNet.ProxyTunnels
open StatefulRefinement TextScan IpAddresses ProxyConfigs Socks5

/-- Only an address in dotted form resolves. -/
def resolveHost (host : Text) (port : UInt16) : Option IpAddress :=
  parseIp4 host port

inductive TunnelError
  | socks (e : Failure)
  | http (e : HttpConnect.ConnectError)
  | resolutionFailed | connectFailed | unsupportedProxyScheme

/-- What the system does: whether a socket can be created, and the connected socket for
an address that accepts. -/
structure Network where
  creates : Bool
  accepts : IpAddress → Option Socket

/-- What a call does on its way to a socket; `via` is the proxy that it is for. -/
inductive Event
  | resolveHost (via : Option ProxyHop) (host : Text) (port : UInt16)
  | connect (via : Option ProxyHop) (address : IpAddress)

/-- Resolve an endpoint and connect to it. -/
def openSocket (net : Network) (via : Option ProxyHop) (host : Text) (port : UInt16) :
    Except TunnelError Socket×List Event :=
  match resolveHost host port with
  | none => (.error .resolutionFailed,[.resolveHost via host port])
  | some address =>
    if net.creates then
      match net.accepts address with
      | none => (.error .connectFailed,[.resolveHost via host port,.connect via address])
      | some sock => (.ok sock,[.resolveHost via host port,.connect via address])
    else (.error .connectFailed,[.resolveHost via host port])

/-- The handshake with the proxy. -/
def handshake (stack : HttpConnect.DeadStack) (hop : ProxyHop) (targetHost : Text) (targetPort : UInt16)
    (credentials : Option Credentials) (sock : Socket) : Except TunnelError Socket :=
  match hop.scheme with
  | .direct => .ok sock
  | .http =>
    match HttpConnect.connect stack hop targetHost targetPort sock with
    | .ok _ sock => .ok sock
    | .error e _ => .error (.http e)
  | .socks5 =>
    match Socks5.connect socket targetHost targetPort credentials sock with
    | .ok _ sock => .ok sock
    | .error e _ => .error (.socks e)
  | .socks4 => .error .unsupportedProxyScheme

def connectTunneled (net : Network) (stack : HttpConnect.DeadStack) (proxy : Option ProxyHop) (targetHost : Text)
    (targetPort : UInt16) (credentials : Option Credentials) : Except TunnelError Socket×List Event :=
  match proxy with
  | none => openSocket net none targetHost targetPort
  | some hop =>
    match openSocket net (some hop) hop.host hop.port with
    | (.error e,events) => (.error e,events)
    | (.ok sock,events) => (handshake stack hop targetHost targetPort credentials sock,events)

structure TlsManager where
  proxy : Option ProxyConfig

def TlsManager.connectTunneled (self : TlsManager) (net : Network) (stack : HttpConnect.DeadStack) (targetHost : Text)
    (targetPort : UInt16) : Except TunnelError Socket×List Event :=
  let hop := match self.proxy with
    | some cfg => resolveFor cfg targetHost (targetPort == 443)
    | none => none
  ProxyTunnels.connectTunneled net stack hop targetHost targetPort none

/-- The proxy that is configured for a host: that of its PAC entry, or else the override. -/
def configuredProxy (cfg : ProxyConfig) (host : Text) : Option ProxyHop :=
  match cfg.pacCache.lookup host with
  | some entry => parseFirstProxy entry.proxy
  | none => cfg.httpsOverride

def Event.via : Event → Option ProxyHop
  | .resolveHost via _ _ => via
  | .connect via _ => via

/-- The call turns to this proxy and to nobody else. -/
structure Through (net : Network) (hop : ProxyHop) (events : List Event) : Prop where
  resolves : .resolveHost (some hop) hop.host hop.port ∈ events
  connects : ∀ address, resolveHost hop.host hop.port = some address → net.creates = true →
    .connect (some hop) address ∈ events
  only : ∀ event ∈ events, event.via = some hop

/-- A proxy that is configured for the target is used. -/
def NeverSkipped (net : Network) (stack : HttpConnect.DeadStack) (cfg : ProxyConfig) (targetHost : Text)
    (targetPort : UInt16) : Prop :=
  shouldBypassProxy cfg targetHost = false → ∀ hop, configuredProxy cfg targetHost = some hop →
    Through net hop (TlsManager.connectTunneled ⟨some cfg⟩ net stack targetHost targetPort).2

/-- The target is written as a URL, and the rules for the host in it name the proxy that
is configured for the target. -/
def Routed (cfg : ProxyConfig) (targetHost : Text) (targetPort : UInt16) : Prop :=
  shouldBypassProxy cfg targetHost = false → ∀ hop, configuredProxy cfg targetHost = some hop →
    ∃ host, extractHost targetHost = some host ∧ shouldBypassProxy cfg host = false ∧
      ruleFor cfg host (targetPort == 443) = some hop

section Routes

variable {net : Network} {stack : HttpConnect.DeadStack} {cfg : ProxyConfig} {targetHost : Text} {targetPort : UInt16}

theorem openSocket_resolves (via : Option ProxyHop) (host : Text) (port : UInt16) :
    .resolveHost via host port ∈ (openSocket net via host port).2 := by
  rw [openSocket]
  cases resolveHost host port with
  | none => simp
  | some address =>
    dsimp only
    split_ifs
    · cases net.accepts address <;> simp
    · simp

theorem openSocket_connects (via : Option ProxyHop) {host : Text} {port : UInt16} {address : IpAddress}
    (haddress : resolveHost host port = some address) (hcreates : net.creates = true) :
    .connect via address ∈ (openSocket net via host port).2 := by
  rw [openSocket,haddress]
  dsimp only
  rw [if_pos hcreates]
  cases net.accepts address <;> simp

theorem openSocket_via {via : Option ProxyHop} {host : Text} {port : UInt16} {event : Event}
    (h : event ∈ (openSocket net via host port).2) : event.via = via := by
  have hall : ∀ event ∈ [.resolveHost via host port], Event.via event = via := by simp [Event.via]
  have hboth : ∀ address, ∀ event ∈ [.resolveHost via host port,.connect via address], Event.via event = via := by
    simp [Event.via]
  rw [openSocket] at h
  cases hresolve : resolveHost host port with
  | none =>
    rw [hresolve] at h
    exact hall event h
  | some address =>
    rw [hresolve] at h
    dsimp only at h
    split_ifs at h
    · cases haccepts : net.accepts address with
      | none =>
        rw [haccepts] at h
        exact hboth address event h
      | some sock =>
        rw [haccepts] at h
        exact hboth address event h
    · exact hall event h

/-- The events of a call, direct or to a proxy. -/
theorem connectTunneled_events (proxy : Option ProxyHop) (credentials : Option Credentials) :
    (connectTunneled net stack proxy targetHost targetPort credentials).2 =
      match proxy with
      | none => (openSocket net none targetHost targetPort).2
      | some hop => (openSocket net (some hop) hop.host hop.port).2 := by
  cases proxy with
  | none => rfl
  | some hop =>
    rw [connectTunneled]
    dsimp only
    split
    · next heq => rw [heq]
    · next heq => rw [heq]

theorem through_iff {proxy : Option ProxyHop} {credentials : Option Credentials} {hop : ProxyHop} :
    Through net hop (connectTunneled net stack proxy targetHost targetPort credentials).2 ↔ proxy = some hop := by
  rw [connectTunneled_events]
  constructor
  · intro h
    cases proxy with
    | none => exact (openSocket_via h.resolves).symm
    | some hop' => exact (openSocket_via h.resolves).symm
  · rintro rfl
    exact ⟨openSocket_resolves _ _ _,fun _ => openSocket_connects _,fun _ => openSocket_via⟩

/-- A configured proxy is used exactly where the target is written as a URL and the rules
for its host name the same proxy. -/
theorem neverSkipped_iff (net : Network) (stack : HttpConnect.DeadStack) (cfg : ProxyConfig) (targetHost : Text)
    (targetPort : UInt16) : NeverSkipped net stack cfg targetHost targetPort ↔ Routed cfg targetHost targetPort := by
  refine imp_congr_right fun _ => forall_congr' fun hop => imp_congr_right fun _ => ?_
  have hthrough : Through net hop (TlsManager.connectTunneled ⟨some cfg⟩ net stack targetHost targetPort).2 ↔
      resolveFor cfg targetHost (targetPort == 443) = some hop := through_iff
  rw [hthrough,resolveFor_eq_some_iff]

/-- The name of a host is connected to directly, whatever is configured. -/
theorem bare_host_direct (manager : TlsManager) (hhttp : startsWithIgnoreCase targetHost httpScheme = false)
    (hhttps : startsWithIgnoreCase targetHost httpsScheme = false) :
    manager.connectTunneled net stack targetHost targetPort = openSocket net none targetHost targetPort := by
  rw [TlsManager.connectTunneled]
  cases manager.proxy with
  | none => rfl
  | some cfg =>
    have hresolve : resolveFor cfg targetHost (targetPort == 443) = none := by
      rw [resolveFor,extractHost_bare hhttp hhttps]
    simp only [hresolve]
    rfl

end Routes

/-- A proxy for `https` as the environment gives it. -/
def corporateConfig : ProxyConfig :=
  fromEnv ⟨none,some (ascii ['1','0','.','0','.','0','.','1',':','3','1','2','8']),none⟩

/-- The connection to `192.0.2.7` is made directly. -/
theorem neverSkipped_fails :
    ¬NeverSkipped ⟨true,fun _ => none⟩ id corporateConfig (ascii ['1','9','2','.','0','.','2','.','7']) 443 := by
  intro h
  have hthrough := h rfl ⟨.http,ascii ['1','0','.','0','.','0','.','1'],3128,none⟩ (by decide)
  rw [bare_host_direct ⟨some corporateConfig⟩ (by decide) (by decide)] at hthrough
  cases hthrough.only _ (openSocket_resolves none _ _)

end ZNet.ProxyTunnels
