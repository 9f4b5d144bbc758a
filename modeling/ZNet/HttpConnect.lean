import ZNet.ProxyConfig
import ZNet.Socks5

/-!
# The HTTP CONNECT handshake

`connect` sends a CONNECT request and reads until the head of the response is complete;
after a first `407` it sends the request once more. The response is returned as a slice
of the buffer of `readResponse`, which no longer exists when its status line is parsed.
-/

namespace ZNet.HttpConnect
open TextScan ProxyConfigs Socks5

inductive ConnectError
  | connectFailed | proxyAuthRequired | unexpectedResponse | handshakeFailed
deriving DecidableEq

def responseMax : ℕ := 8192

def lineEnd : Text := [0x0d,0x0a]

/-- `{d}` -/
def decimal (n : ℕ) : Text := ascii (Nat.toDigits 10 n)

/-- The CONNECT request, with the credentials of the proxy if it has any. -/
def request (proxy : ProxyHop) (targetHost : Text) (targetPort : UInt16) : Text :=
  let authority := targetHost++[0x3a]++decimal targetPort.toNat
  ascii ['C','O','N','N','E','C','T',' ']++authority++ascii [' ','H','T','T','P','/','1','.','1']++lineEnd++
  ascii ['H','o','s','t',':',' ']++authority++lineEnd++
  ascii ['U','s','e','r','-','A','g','e','n','t',':',' ','Z','a','w','r','a','/','z','-','n','e','t']++lineEnd++
  ascii ['P','r','o','x','y','-','C','o','n','n','e','c','t','i','o','n',':',' ',
    'k','e','e','p','-','a','l','i','v','e']++lineEnd++
  (match proxy.authHeader with
    | some hdr => ascii ['P','r','o','x','y','-','A','u','t','h','o','r','i','z','a','t','i','o','n',':',' ']++hdr++lineEnd
    | none => [])++
  lineEnd

/-- Receive until the response holds an empty line. -/
def readResponse (filled : Text) : EStateM ConnectError Socket Text := fun s =>
  if filled.length < responseMax then
    match s.recv (responseMax-filled.length) with
    | (none,s') => .error .handshakeFailed s'
    | (some bytes,s') =>
      if bytes.length = 0 then .error .handshakeFailed s'
      else if (indexOf (lineEnd++lineEnd) (filled++bytes)).isSome then .ok (filled++bytes) s'
      else readResponse (filled++bytes) s'
  else .error .handshakeFailed s
termination_by responseMax-filled.length
decreasing_by
  rw [List.length_append]
  omega

def parseStatusLine (response : Text) : Option ℕ :=
  match indexOf lineEnd response with
  | none => none
  | some crlf =>
    match (response.take crlf).splitOn 0x20 with
    | _::code::_ => parseUnsigned 65536 code
    | _ => none

/-- What is read through a slice of a buffer whose function has returned. -/
abbrev DeadStack := Text → Text

/-- One round: the status of the response to a request. -/
def attempt (stack : DeadStack) (proxy : ProxyHop) (targetHost : Text) (targetPort : UInt16) :
    EStateM ConnectError Socket ℕ := fun s =>
  match Socket.send (request proxy targetHost targetPort) s with
  | .ok true s' =>
    match readResponse [] s' with
    | .ok response s'' =>
      match parseStatusLine (stack response) with
      | some status => .ok status s''
      | none => .error .handshakeFailed s''
    | .error _ s'' => .error .handshakeFailed s''
  | .ok false s' => .error .handshakeFailed s'
  | .error _ s' => .error .handshakeFailed s'

def connect (stack : DeadStack) (proxy : ProxyHop) (targetHost : Text) (targetPort : UInt16) :
    EStateM ConnectError Socket Unit := do
  let status ← attempt stack proxy targetHost targetPort
  if status = 200 then pure ()
  else if status = 407 then do
    let status ← attempt stack proxy targetHost targetPort
    if status = 200 then pure ()
    else if status = 407 then throw .proxyAuthRequired
    else throw .unexpectedResponse
  else throw .unexpectedResponse

end ZNet.HttpConnect
