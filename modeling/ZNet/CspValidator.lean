import ZNet.FreedMemory
import ZNet.PolicyEngine

/-!
# The validator of content security policies

A header is read as directives with source tokens, which are freed while the directives are
kept for an origin. A resource is compared with the directive of its type or else with
`default-src`.
-/

namespace ZNet.Policy
open TextScan Tables Origins

inductive CSPTokenType
  | sourceExpression | nonce | hash | keyword | hostSource | schemeSource | selfKeyword | unsafeInlineKeyword
  | unsafeEvalKeyword | noneKeyword
deriving DecidableEq

structure CSPToken where
  tokenType : CSPTokenType
  value : Str
  isKeyword : Bool

structure CSPDirectiveRule where
  directive : Str
  sources : List CSPToken
  allowSelf : Bool := false
  allowUnsafeInline : Bool := false

structure ContentSecurityPolicy where
  directives : List CSPDirectiveRule

structure CSPViolation where
  directive : Str
  blockedUri : Str
  violatedDirective : Str
  originalPolicy : Str

structure CSPValidationContext where
  resourceUrl : Str
  resourceType : Str
  scriptNonce : Option Str := none
  scriptHash : Option Str := none
  documentUrl : Str

structure CSPValidationResult where
  allowed : Bool
  reason : String
  violation : Option CSPViolation := none

structure CSPValidator where
  policies : Table Origin ContentSecurityPolicy
  nonceCache : Table Str Bool

def CSPValidator.init : CSPValidator := ⟨∅,∅⟩

inductive CSPError
  | origin (e : OriginError) | panic
deriving DecidableEq

def isBlank (b : UInt8) : Bool := decide (b = 0x20)

/-- A nonce is cut out from behind `'nonce-` up to the last byte, which traps if that byte
belongs to the keyword. -/
def parseSourceToken (source : Str) : Except CSPError CSPToken :=
  if source = text "'self'" then .ok ⟨.selfKeyword,source,true⟩
  else if source = text "'unsafe-inline'" then .ok ⟨.unsafeInlineKeyword,source,true⟩
  else if source = text "'unsafe-eval'" then .ok ⟨.unsafeEvalKeyword,source,true⟩
  else if source = text "'none'" then .ok ⟨.noneKeyword,source,true⟩
  else if (text "'nonce-").isPrefixOf source then
    if source.length < 8 then .error .panic else .ok ⟨.nonce,(source.drop 7).take (source.length-8),false⟩
  else if (text "'sha").isPrefixOf source then .ok ⟨.hash,source,false⟩
  else if (indexOf schemeEnd source).isSome then .ok ⟨.schemeSource,source,false⟩
  else .ok ⟨.hostSource,source,false⟩

/-- The name up to the first blank and the tokens behind it. -/
def parseDirective (directive : Str) : Except CSPError CSPDirectiveRule := do
  let firstSpace := (directive.idxOf? 0x20).getD directive.length
  let words := ((directive.drop (firstSpace+1)).splitOnP isBlank).map (trim (ascii [' ','\t']))
  let sources ← (words.filter fun word => !word.isEmpty).mapM parseSourceToken
  return { directive := directive.take firstSpace, sources := sources }

/-- The directive after its list of sources was freed. -/
def CSPDirectiveRule.afterDeinit (freed : FreedMemory CSPToken) (self : CSPDirectiveRule) : CSPDirectiveRule :=
  { self with sources := freed.read self.sources }

/-- Each directive is deinitialized when it has been appended to the policy. -/
def CSPValidator.parseCSPHeader (freed : FreedMemory CSPToken) (self : CSPValidator) (header : Str) (origin : Origin) :
    Except CSPError (ContentSecurityPolicy×CSPValidator) := do
  let parts := (header.splitOnP (· == 0x3b)).map (trim (ascii [' ','\t','\r','\n']))
  let directives ← (parts.filter fun part => !part.isEmpty).mapM parseDirective
  let policy : ContentSecurityPolicy := ⟨directives.map (CSPDirectiveRule.afterDeinit freed)⟩
  return (policy,{ self with policies := self.policies.insert origin policy })

def CSPValidator.addPolicy (self : CSPValidator) (origin : Origin) (policy : ContentSecurityPolicy) : CSPValidator :=
  { self with policies := self.policies.insert origin policy }

def CSPValidator.removePolicy (self : CSPValidator) (origin : Origin) : CSPValidator :=
  { self with policies := self.policies.erase origin }

def CSPValidator.clearNonceCache (self : CSPValidator) : CSPValidator := { self with nonceCache := ∅ }

def directiveMap : List (Str×Str) :=
  [(text "script",text "script-src"),(text "style",text "style-src"),(text "img",text "img-src"),
   (text "font",text "font-src"),(text "media",text "media-src"),(text "connect",text "connect-src"),
   (text "frame",text "frame-src"),(text "object",text "object-src"),(text "worker",text "worker-src")]

def getDirectiveForResourceType (resourceType : Str) : Str :=
  (directiveMap.lookup resourceType).getD (text "default-src")

def findDirective (policy : ContentSecurityPolicy) (name : Str) : Option CSPDirectiveRule :=
  policy.directives.find? fun rule => rule.directive == name

/-- A source that starts with `*.` matches every host with the rest at its end. -/
def matchHostSource (hostSource : Str) (resource : Origin) : Bool :=
  if (text "*.").isPrefixOf hostSource ∧ 2 < hostSource.length then (hostSource.drop 2).isSuffixOf resource.host
  else hostSource == resource.host

def matchSource (source : CSPToken) (resource : Origin) (context : CSPValidationContext) : Bool :=
  match source.tokenType with
  | .selfKeyword =>
    match Origin.parse context.documentUrl with
    | .ok document => resource.isSameOrigin document
    | .error _ => false
  | .hostSource => matchHostSource source.value resource
  | .schemeSource => source.value == resource.scheme
  | .nonce => context.scriptNonce == some source.value
  | .sourceExpression | .hash | .keyword | .unsafeInlineKeyword | .unsafeEvalKeyword | .noneKeyword => false

/-- The resource is of the origin of the document, where the directive allows that. -/
def selfAllowed (rule : CSPDirectiveRule) (resource : Origin) (context : CSPValidationContext) :
    Option CSPValidationResult :=
  if rule.allowSelf then
    match Origin.parse context.documentUrl with
    | .error _ => some { allowed := true, reason := "Invalid document URL" }
    | .ok document =>
      if resource.isSameOrigin document then some { allowed := true, reason := "Self origin allowed" } else none
  else none

def validateAgainstDirective (rule : CSPDirectiveRule) (context : CSPValidationContext) : CSPValidationResult :=
  match Origin.parse context.resourceUrl with
  | .error _ => { allowed := true, reason := "Invalid resource URL" }
  | .ok resource =>
    match selfAllowed rule resource context with
    | some result => result
    | none =>
      if rule.sources.any fun source => matchSource source resource context then
        { allowed := true, reason := "Source matched" }
      else
        { allowed := false, reason := "No CSP sources matched",
          violation := some ⟨rule.directive,context.resourceUrl,rule.directive,[]⟩ }

def CSPValidator.validateResource (self : CSPValidator) (context : CSPValidationContext) :
    Except OriginError CSPValidationResult :=
  match Origin.parse context.documentUrl with
  | .error e => .error e
  | .ok origin =>
    match self.policies.lookup origin with
    | none => .ok { allowed := true, reason := "No CSP policy defined" }
    | some policy =>
      match findDirective policy (getDirectiveForResourceType context.resourceType),
          findDirective policy (text "default-src") with
      | some rule,_ => .ok (validateAgainstDirective rule context)
      | none,some rule => .ok (validateAgainstDirective rule context)
      | none,none => .ok { allowed := true, reason := "No CSP restrictions" }

/-- A validator without policies allows every resource of a document with an origin. -/
theorem validateResource_init (context : CSPValidationContext) :
    CSPValidator.init.validateResource context =
      (Origin.parse context.documentUrl).map fun _ => { allowed := true, reason := "No CSP policy defined" } := by
  rw [CSPValidator.validateResource]
  cases Origin.parse context.documentUrl with
  | error e => rfl
  | ok origin => rfl

/-- A result comes from a directive unless nothing restricts the resource. -/
theorem validateResource_cases {self : CSPValidator} {context : CSPValidationContext} {result : CSPValidationResult}
    (h : self.validateResource context = .ok result) :
    result.allowed = true ∨ ∃ rule, result = validateAgainstDirective rule context := by
  rw [CSPValidator.validateResource] at h
  split at h
  · cases h
  · split at h
    · cases h
      exact Or.inl rfl
    · split at h
      · cases h
        exact Or.inr ⟨_,rfl⟩
      · cases h
        exact Or.inr ⟨_,rfl⟩
      · cases h
        exact Or.inl rfl

/-- A resource that is refused has an origin. -/
theorem parse_of_refused {self : CSPValidator} {context : CSPValidationContext} {result : CSPValidationResult}
    (h : self.validateResource context = .ok result) (hrefused : result.allowed = false) :
    ∃ origin, Origin.parse context.resourceUrl = .ok origin := by
  cases hparse : Origin.parse context.resourceUrl with
  | ok origin => exact ⟨origin,rfl⟩
  | error e =>
    rcases validateResource_cases h with hallowed | ⟨rule,rfl⟩
    · cases hallowed.symm.trans hrefused
    · rw [validateAgainstDirective,hparse] at hrefused
      cases hrefused

end ZNet.Policy
