import ZNet.TextScan
import Mathlib.Data.List.AList

/-!
# Proxy configuration

`resolveFor` picks the proxy for a target. It looks for the host of a URL and gives no
proxy for anything else.
-/

namespace ZNet.ProxyConfigs
open TextScan

abbrev Text := List UInt8

inductive Scheme
  | direct | http | socks5 | socks4
deriving DecidableEq

structure ProxyHop where
  scheme : Scheme
  host : Text
  port : UInt16
  authHeader : Option Text
deriving DecidableEq

/-- The rules of a PAC result, separated by `;`. -/
structure PacResult where
  proxy : Text

structure ProxyConfig where
  httpOverride : Option ProxyHop
  httpsOverride : Option ProxyHop
  pacCache : AList fun _ : Text => PacResult
  noProxy : List Text

def ProxyConfig.init : ProxyConfig := ⟨none,none,∅,[]⟩

def defaultPort : Scheme → UInt16
  | .http => 8080
  | .socks5 | .socks4 => 1080
  | .direct => 0

def blanks : Text := ascii [' ','\t']
def socks5Scheme : Text := ascii ['s','o','c','k','s','5',':','/','/']
def socks4Scheme : Text := ascii ['s','o','c','k','s','4',':','/','/']
def httpScheme : Text := ascii ['h','t','t','p',':','/','/']
def httpsScheme : Text := ascii ['h','t','t','p','s',':','/','/']

/-- The scheme of a proxy URL, and the rest. -/
def splitScheme (rest : Text) (defaultScheme : Scheme) : Scheme×Text :=
  if startsWithIgnoreCase rest socks5Scheme then (.socks5,rest.drop socks5Scheme.length)
  else if startsWithIgnoreCase rest socks4Scheme then (.socks4,rest.drop socks4Scheme.length)
  else if startsWithIgnoreCase rest httpScheme then (.http,rest.drop httpScheme.length)
  else if startsWithIgnoreCase rest httpsScheme then (.http,rest.drop httpsScheme.length)
  else (defaultScheme,rest)

/-- Parse `scheme://host:port`, or `host:port` with the default scheme. -/
def parseProxy (raw : Text) (defaultScheme : Scheme) : ProxyHop :=
  let (scheme,rest) := splitScheme (trim blanks raw) defaultScheme
  match lastIndexOfScalar 0x3a rest with
  | none => ⟨scheme,rest,defaultPort scheme,none⟩
  | some colon =>
    let port := match parseUnsigned 65536 (rest.drop (colon+1)) with
      | some port => UInt16.ofNat port
      | none => defaultPort scheme
    ⟨scheme,rest.take colon,port,none⟩

/-- The environment variables that `fromEnv` reads. -/
structure Environment where
  httpProxy : Option Text
  httpsProxy : Option Text
  noProxy : Option Text

def fromEnv (env : Environment) : ProxyConfig :=
  { ProxyConfig.init with
    httpOverride := env.httpProxy.map (parseProxy · .http)
    httpsOverride := env.httpsProxy.map (parseProxy · .http)
    noProxy := match env.noProxy with
      | some v => ((v.splitOn 0x2c).map (trim blanks)).filter (· ≠ [])
      | none => [] }

def shouldBypassProxy (cfg : ProxyConfig) (host : Text) : Bool :=
  cfg.noProxy.any fun entry => host == entry || entry.isSuffixOf host

/-- The host of an `http` or `https` URL, of at most 256 bytes. -/
def extractHost (url : Text) : Option Text :=
  let rest :=
    if startsWithIgnoreCase url httpScheme then some (url.drop httpScheme.length)
    else if startsWithIgnoreCase url httpsScheme then some (url.drop httpsScheme.length)
    else none
  match rest with
  | none => none
  | some rest =>
    let hostPort := rest.take ((rest.idxOf? 0x2f).getD rest.length)
    let host := hostPort.take ((lastIndexOfScalar 0x3a hostPort).getD hostPort.length)
    if host.length = 0 ∨ host.length > 256 then none else some host

def proxyKeyword : Text := ascii ['P','R','O','X','Y',' ']
def socks5Keyword : Text := ascii ['S','O','C','K','S','5',' ']
def socks4Keyword : Text := ascii ['S','O','C','K','S','4',' ']
def directKeyword : Text := ascii ['D','I','R','E','C','T']

/-- The first rule of these that is understood. -/
def firstRule : List Text → Option ProxyHop
  | [] => none
  | raw::parts =>
    let part := trim blanks raw
    if startsWithIgnoreCase part proxyKeyword then some (parseProxy (part.drop proxyKeyword.length) .http)
    else if startsWithIgnoreCase part socks5Keyword then some (parseProxy (part.drop socks5Keyword.length) .socks5)
    else if startsWithIgnoreCase part socks4Keyword then some (parseProxy (part.drop socks4Keyword.length) .socks4)
    else if part = directKeyword then none
    else firstRule parts

def parseFirstProxy (rule : Text) : Option ProxyHop := firstRule (rule.splitOn 0x3b)

/-- What the rules say for a host that is not bypassed. -/
def ruleFor (cfg : ProxyConfig) (host : Text) (isHttps : Bool) : Option ProxyHop :=
  match cfg.pacCache.lookup host with
  | some entry => parseFirstProxy entry.proxy
  | none => if isHttps then cfg.httpsOverride else cfg.httpOverride

def resolveFor (cfg : ProxyConfig) (target : Text) (isHttps : Bool) : Option ProxyHop :=
  match extractHost target with
  | none => none
  | some host => if shouldBypassProxy cfg host then none else ruleFor cfg host isHttps

theorem resolveFor_eq_some_iff {cfg : ProxyConfig} {target : Text} {isHttps : Bool} {hop : ProxyHop} :
    resolveFor cfg target isHttps = some hop ↔
      ∃ host, extractHost target = some host ∧ shouldBypassProxy cfg host = false ∧ ruleFor cfg host isHttps = some hop := by
  rw [resolveFor]
  cases extractHost target with
  | none => simp
  | some host => cases hbypass : shouldBypassProxy cfg host <;> simp [hbypass]

/-- A name without a scheme has no host. -/
theorem extractHost_bare {url : Text} (hhttp : startsWithIgnoreCase url httpScheme = false)
    (hhttps : startsWithIgnoreCase url httpsScheme = false) : extractHost url = none := by
  simp only [extractHost,hhttp,hhttps]
  rfl

end ZNet.ProxyConfigs
