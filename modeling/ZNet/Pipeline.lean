import ZNet.Origin
import ZNet.Tables

/-!
# The request pipeline

What `fetch` and `execute_request` share: the URLs as their parser gives them, the options
of a request, responses and errors.
-/

namespace ZNet.Pipelines
open TextScan Tables

abbrev Str := List UInt8

/-- The parts of a URL that are read. -/
structure ParsedUrl where
  scheme : Str
  host : Option Str
  port : Option ℕ
deriving DecidableEq

/-- The parser of URLs, which is another package. -/
structure UrlCrate where
  parse : Str → Option ParsedUrl
  join : ParsedUrl → Str → Option Str

inductive PipelineError
  | dnsResolutionFailed (message : String)
  | connectionFailed (message : String)
  | timeout (message : String)
  | httpError (status : ℕ)
  | tlsError (message : String)
  | maxRetriesExceeded
  | invalidRedirect
  | cacheError (message : String)
  | networkError (message : String)
deriving DecidableEq

structure RequestOptions where
  followRedirects : Bool := true
  maxRedirects : ℕ := 5
deriving DecidableEq

structure PipelineResponse where
  statusCode : ℕ
  headers : Table Str Str
  body : Str
  url : Str
  finalUrl : Str
  redirects : List Str
deriving DecidableEq

/-- The host of a URL, with the error that both functions give without one. -/
def UrlCrate.host (urls : UrlCrate) (message : String) (url : Str) : Except PipelineError Str :=
  match urls.parse url with
  | none => .error .invalidRedirect
  | some parsed =>
    match parsed.host with
    | none => .error (.dnsResolutionFailed message)
    | some host => .ok host

def exampleUrl : Str := ascii "http://example.com".toList

def UrlCrate.resolveRelativeUrl (urls : UrlCrate) (baseUrl relativeUrl : Str) : Str :=
  (((urls.parse baseUrl).or (urls.parse exampleUrl)).bind (urls.join · relativeUrl)).getD relativeUrl

/-- The URL `http://a/`. -/
def urlA : Str := [0x68,0x74,0x74,0x70,0x3a,0x2f,0x2f,0x61,0x2f]

/-- A parser that reads the URLs of origins. -/
def originUrls : UrlCrate where
  parse url := match Origins.Origin.parse url with
    | .ok origin => some ⟨origin.scheme,some origin.host,none⟩
    | .error _ => none
  join _ relativeUrl := some relativeUrl

end ZNet.Pipelines
