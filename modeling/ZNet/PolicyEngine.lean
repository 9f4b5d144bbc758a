import ZNet.Origin
import ZNet.LetterCase
import ZNet.Tables

/-!
# The policy engine

`validateCORS` allows requests to the same origin, then those for which a cached answer, a
rule or the whitelist is found. No rule is ever found.
-/

namespace ZNet.Policy
open TextScan Tables Origins

abbrev Str := List UInt8

/-- The headers of a request or an answer. -/
abbrev Headers := Table Str Str

def text (s : String) : Str := ascii s.toList

structure ValidationResult where
  allowed : Bool
  reason : String
  headers : Headers

structure PolicyEngineConfig where
  enableSop : Bool := true
  enableCors : Bool := true
  enableCsp : Bool := true
  enableMixedContentBlocking : Bool := true
  strictTransportSecurity : Bool := true

structure CORSRequest where
  method : Str
  headers : Headers
  url : Str
  origin : Origin

structure CORSResponse where
  allowOrigin : Option Str := none
  allowMethods : Option Str := none
  allowHeaders : Option Str := none
  allowCredentials : Bool := false
  maxAge : Option ℤ := none
  exposeHeaders : Option Str := none

structure PolicyRule where
  sourceOrigin : Origin
  allowedMethods : List Str
  allowedHeaders : List Str
  allowCredentials : Bool
  maxAge : ℤ

structure PolicyEngine where
  config : PolicyEngineConfig
  corsCache : Table (Origin×Origin) CORSResponse
  originWhitelist : Table Origin Bool

def PolicyEngine.init (config : PolicyEngineConfig) : PolicyEngine := ⟨config,∅,∅⟩

def put (name : String) (value : Str) (headers : Headers) : Headers := headers.insert (text name) value

def putSome (name : String) (value : Option Str) (headers : Headers) : Headers :=
  match value with
  | some value => put name value headers
  | none => headers

def isCORSResponseValid (response : CORSResponse) : Bool :=
  match response.maxAge with
  | some age => decide (0 < age)
  | none => true

/-- The search has no rule store. -/
def findCORSRule (_source _target : Origin) : Option PolicyRule := none

def checkCORSRule (rule : PolicyRule) (request : CORSRequest) : ValidationResult :=
  if !rule.allowedMethods.contains (request.method.map toUpper) then ⟨false,"Method not allowed by CORS rule",∅⟩
  else if request.headers.keys.any fun name => !rule.allowedHeaders.contains (name.map toLower) then
    ⟨false,"Header not allowed by CORS rule",∅⟩
  else ⟨true,"CORS rule validation passed",∅⟩

/-- The items with `, ` between them, unless there are none. -/
def joinSome (items : List Str) : Option Str :=
  if items.isEmpty then none else some ((text ", ").intercalate items)

def PolicyRule.response (rule : PolicyRule) : CORSResponse where
  allowOrigin := some rule.sourceOrigin.host
  allowMethods := joinSome rule.allowedMethods
  allowHeaders := joinSome rule.allowedHeaders
  allowCredentials := rule.allowCredentials
  maxAge := some rule.maxAge

def cachedResult (response : CORSResponse) : ValidationResult where
  allowed := true
  reason := "Cached CORS response"
  headers := putSome "Access-Control-Expose-Headers" response.exposeHeaders
    (putSome "Access-Control-Allow-Headers" response.allowHeaders
      (putSome "Access-Control-Allow-Methods" response.allowMethods
        (putSome "Access-Control-Allow-Origin" response.allowOrigin ∅)))

def ruleResult (response : CORSResponse) : ValidationResult where
  allowed := true
  reason := "CORS rule match"
  headers := put "Access-Control-Allow-Credentials" (text (if response.allowCredentials then "true" else "false"))
    (putSome "Access-Control-Allow-Headers" response.allowHeaders
      (putSome "Access-Control-Allow-Methods" response.allowMethods
        (put "Access-Control-Allow-Origin" (response.allowOrigin.getD []) ∅)))

def whitelistResult (target : Origin) : ValidationResult where
  allowed := true
  reason := "Origin whitelist"
  headers := put "Access-Control-Allow-Credentials" (text "true") (put "Access-Control-Allow-Origin" target.host ∅)

/-- The answer in the cache for the two origins, if it is still valid. -/
def PolicyEngine.cached (self : PolicyEngine) (source target : Origin) : Option CORSResponse :=
  (self.corsCache.lookup (source,target)).filter isCORSResponseValid

/-- The rule for the two origins, if it allows the request. -/
def matchedRule (target : Origin) (request : CORSRequest) : Option PolicyRule :=
  (findCORSRule request.origin target).filter fun rule => (checkCORSRule rule request).allowed

def PolicyEngine.validateCORS (self : PolicyEngine) (request : CORSRequest) :
    Except OriginError (ValidationResult×PolicyEngine) :=
  if !self.config.enableCors then .ok (⟨true,"CORS disabled",∅⟩,self)
  else match Origin.parse request.url with
    | .error e => .error e
    | .ok target =>
      if request.origin.isSameOrigin target then .ok (⟨true,"Same-origin request",∅⟩,self)
      else match self.cached request.origin target,matchedRule target request with
        | some response,_ => .ok (cachedResult response,self)
        | none,some rule => .ok (ruleResult rule.response,
            { self with corsCache := self.corsCache.insert (request.origin,target) rule.response })
        | none,none =>
          if self.originWhitelist.lookup target = some true then .ok (whitelistResult target,self)
          else .ok (⟨false,"CORS policy violation",∅⟩,self)

def PolicyEngine.addToWhitelist (self : PolicyEngine) (origin : Origin) : PolicyEngine :=
  { self with originWhitelist := self.originWhitelist.insert origin true }

def PolicyEngine.removeFromWhitelist (self : PolicyEngine) (origin : Origin) : PolicyEngine :=
  { self with originWhitelist := self.originWhitelist.erase origin }

/-- Without cached answers requests to the same origin and to the origins of the whitelist are
allowed. -/
theorem validateCORS_uncached {engine : PolicyEngine} (henabled : engine.config.enableCors = true)
    (hempty : engine.corsCache = ∅) {request : CORSRequest} {target : Origin}
    (hparse : Origin.parse request.url = .ok target) :
    engine.validateCORS request = .ok (if request.origin = target then ⟨true,"Same-origin request",∅⟩
      else if engine.originWhitelist.lookup target = some true then whitelistResult target
      else ⟨false,"CORS policy violation",∅⟩,engine) := by
  have hcached : engine.cached request.origin target = none := by
    rw [PolicyEngine.cached,hempty,AList.lookup_empty]
    rfl
  have hrule : matchedRule target request = none := rfl
  simp only [PolicyEngine.validateCORS,henabled,hparse,hcached,hrule,Bool.not_true,Bool.false_eq_true,if_false]
  by_cases hsame : request.origin = target
  · rw [if_pos ((Origin.isSameOrigin_iff ..).mpr hsame),if_pos hsame]
  · rw [if_neg fun h => hsame ((Origin.isSameOrigin_iff ..).mp h),if_neg hsame]
    split <;> rfl

end ZNet.Policy
