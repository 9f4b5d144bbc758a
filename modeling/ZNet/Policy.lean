import ZNet.OriginCase
import ZNet.CspValidator
import ZNet.CorsHandler

/-!
# Validation of requests

A request passes the checks of the same origin, of mixed content, of CORS and of the
content security policy one after the other. The last two are made by an engine and a
validator of their own, which are new for every request.
-/

namespace ZNet.Policy
open TextScan Tables Origins

def schemeHttps : Str := text "https"

def schemeHttp : Str := text "http"

def validateSameOriginPolicy (pageOrigin requestOrigin : Origin) : ValidationResult :=
  if pageOrigin.isSameOrigin requestOrigin then ⟨true,"Same-origin request",∅⟩
  else ⟨false,"Cross-origin request blocked by SOP",∅⟩

def validateMixedContentPolicy (pageOrigin : Origin) (resourceUrl : Str) : Except OriginError ValidationResult := do
  let resourceOrigin ← Origin.parse resourceUrl
  if pageOrigin.scheme = schemeHttps ∧ resourceOrigin.scheme = schemeHttp then
    return ⟨false,"Mixed content violation",∅⟩
  else return ⟨true,"No mixed content violation",∅⟩

def validateCORSRequest (request : CORSRequest) (config : PolicyEngineConfig) : Except OriginError ValidationResult :=
  ((PolicyEngine.init config).validateCORS request).map Prod.fst

/-- The document of the resource is given by the host of the origin alone. -/
def validateCSPResource (url contentType : Str) (origin : Origin) : Except OriginError CSPValidationResult :=
  CSPValidator.init.validateResource { resourceUrl := url, resourceType := contentType, documentUrl := origin.host }

/-- What one of the checks says: the request is refused, or it goes on with these headers. -/
inductive Verdict
  | refused (result : ValidationResult)
  | passed (headers : Headers)

section Checks

variable (config : PolicyEngineConfig) (pageOrigin : Origin)

def sopCheck (requestOrigin : Origin) : Verdict :=
  if config.enableSop then
    let sop := validateSameOriginPolicy pageOrigin requestOrigin
    if sop.allowed then .passed ∅ else .refused ⟨false,"Same-Origin Policy violation",sop.headers⟩
  else .passed ∅

def mixedContentCheck (requestUrl : Str) : Except OriginError Verdict :=
  if config.enableMixedContentBlocking then do
    let mixed ← validateMixedContentPolicy pageOrigin requestUrl
    return if mixed.allowed then .passed ∅ else .refused ⟨false,"Mixed content violation",mixed.headers⟩
  else .ok (.passed ∅)

/-- The headers of a successful check become those of the result. -/
def corsCheck (requestUrl method : Str) (headers : Headers) : Except OriginError Verdict :=
  if config.enableCors then do
    let cors ← validateCORSRequest ⟨method,headers,requestUrl,pageOrigin⟩ config
    return if cors.allowed then .passed cors.headers else .refused ⟨false,"CORS policy violation",cors.headers⟩
  else .ok (.passed ∅)

def cspCheck (requestUrl : Str) : Except OriginError Verdict :=
  if config.enableCsp then do
    let csp ← validateCSPResource requestUrl (text "fetch") pageOrigin
    return if csp.allowed then .passed ∅ else .refused ⟨false,"CSP policy violation",∅⟩
  else .ok (.passed ∅)

end Checks

def validateRequest (requestUrl method : Str) (headers : Headers) (pageOrigin : Origin) (config : PolicyEngineConfig) :
    Except OriginError ValidationResult := do
  let requestOrigin ← Origin.parse requestUrl
  match sopCheck config pageOrigin requestOrigin with
  | .refused result => return result
  | .passed _ =>
    match ← mixedContentCheck config pageOrigin requestUrl with
    | .refused result => return result
    | .passed _ =>
      match ← corsCheck config pageOrigin requestUrl method headers with
      | .refused result => return result
      | .passed corsHeaders =>
        match ← cspCheck config pageOrigin requestUrl with
        | .refused result => return result
        | .passed _ => return ⟨true,"Request passed all policy checks",corsHeaders⟩

/-- The answer to the request, without the reason. -/
def decision (outcome : Except OriginError ValidationResult) : Except OriginError Bool := outcome.map (·.allowed)

section Decision

variable {config : PolicyEngineConfig} {page origin : Origin} {url method : Str} {headers : Headers}

/-- What is left of the request to the page's own origin: the host of the page is read as a URL. -/
def ownDecision (config : PolicyEngineConfig) (page : Origin) : Except OriginError Bool :=
  if config.enableCsp then (Origin.parse page.host).map fun _ => true else .ok true

/-- The mixed content check as it is written. -/
def Mixed (config : PolicyEngineConfig) (page origin : Origin) : Prop :=
  config.enableMixedContentBlocking = true ∧ page.scheme = schemeHttps ∧ origin.scheme = schemeHttp

instance (config : PolicyEngineConfig) (page origin : Origin) : Decidable (Mixed config page origin) :=
  inferInstanceAs (Decidable (_ ∧ _ ∧ _))

/-- The request is refused unless it is for the page's own origin. -/
def OwnOnly (config : PolicyEngineConfig) : Prop := config.enableSop = true ∨ config.enableCors = true

instance (config : PolicyEngineConfig) : Decidable (OwnOnly config) := inferInstanceAs (Decidable (_ ∨ _))

theorem sopCheck_eq (config : PolicyEngineConfig) (page origin : Origin) :
    sopCheck config page origin = if config.enableSop = true ∧ page ≠ origin then
      .refused ⟨false,"Same-Origin Policy violation",∅⟩ else .passed ∅ := by
  rw [sopCheck,validateSameOriginPolicy]
  cases henabled : config.enableSop with
  | false => simp
  | true =>
    by_cases hsame : page = origin
    · rw [if_pos rfl,if_pos ((Origin.isSameOrigin_iff ..).mpr hsame)]
      exact (if_neg fun h => h.2 hsame).symm
    · rw [if_pos rfl,if_neg fun h => hsame ((Origin.isSameOrigin_iff ..).mp h)]
      exact (if_pos ⟨rfl,hsame⟩).symm

theorem cspCheck_eq (config : PolicyEngineConfig) (page : Origin) (url : Str) :
    cspCheck config page url = (ownDecision config page).map fun _ => .passed ∅ := by
  rw [cspCheck,ownDecision]
  split
  · rw [validateCSPResource,validateResource_init]
    cases Origin.parse page.host with
    | error e => rfl
    | ok document => rfl
  · rfl

theorem ownDecision_ok {config : PolicyEngineConfig} {page : Origin} {b : Bool} (h : ownDecision config page = .ok b) :
    b = true := by
  rw [ownDecision] at h
  split at h
  · cases hparse : Origin.parse page.host with
    | error e =>
      rw [hparse] at h
      cases h
    | ok document =>
      rw [hparse] at h
      cases h
      rfl
  · cases h
    rfl

theorem mixedContentCheck_eq (hparse : Origin.parse url = .ok origin) (config : PolicyEngineConfig) (page : Origin) :
    mixedContentCheck config page url = .ok (if Mixed config page origin then
      .refused ⟨false,"Mixed content violation",∅⟩ else .passed ∅) := by
  rw [mixedContentCheck,validateMixedContentPolicy,hparse]
  cases hblock : config.enableMixedContentBlocking with
  | false =>
    rw [if_neg (by decide),if_neg fun h : Mixed config page origin => (by cases hblock.symm.trans h.1)]
  | true =>
    by_cases hmixed : page.scheme = schemeHttps ∧ origin.scheme = schemeHttp
    · rw [if_pos rfl,if_pos (show Mixed config page origin from ⟨hblock,hmixed⟩)]
      simp only [bind,Except.bind,pure,Except.pure,if_pos hmixed]
      rfl
    · rw [if_pos rfl,if_neg fun h : Mixed config page origin => hmixed h.2]
      simp only [bind,Except.bind,pure,Except.pure,if_neg hmixed]
      rfl

/-- A new engine allows requests to the same origin only. -/
theorem validateCORS_init (config : PolicyEngineConfig) (hparse : Origin.parse url = .ok origin)
    (henabled : config.enableCors = true) (page : Origin) (method : Str) (headers : Headers) :
    validateCORSRequest ⟨method,headers,url,page⟩ config = .ok (if page ≠ origin then
      ⟨false,"CORS policy violation",∅⟩ else ⟨true,"Same-origin request",∅⟩) := by
  have hlist : (PolicyEngine.init config).originWhitelist.lookup origin = none := AList.lookup_empty _
  have hresult : (PolicyEngine.init config).validateCORS ⟨method,headers,url,page⟩ = .ok _ :=
    validateCORS_uncached henabled rfl hparse
  rw [validateCORSRequest,hresult,hlist,Except.map]
  by_cases hsame : page = origin
  · rw [if_pos hsame,if_neg (not_not.mpr hsame)]
  · rw [if_neg hsame,if_pos hsame,if_neg nofun]

theorem corsCheck_eq (hparse : Origin.parse url = .ok origin) (config : PolicyEngineConfig) (page : Origin)
    (method : Str) (headers : Headers) :
    corsCheck config page url method headers = .ok (if config.enableCors = true ∧ page ≠ origin then
      .refused ⟨false,"CORS policy violation",∅⟩ else .passed ∅) := by
  rw [corsCheck]
  cases henabled : config.enableCors with
  | false => simp
  | true =>
    rw [if_pos rfl,validateCORS_init config hparse henabled]
    by_cases hsame : page = origin
    · rw [if_neg (not_not.mpr hsame),if_neg fun h => h.2 hsame]
      rfl
    · rw [if_pos hsame,if_pos ⟨rfl,hsame⟩]
      rfl

/-- The decision on a request whose URL is parsed. -/
theorem decision_eq (hparse : Origin.parse url = .ok origin) :
    decision (validateRequest url method headers page config) =
      if OwnOnly config ∧ page ≠ origin ∨ Mixed config page origin then .ok false else ownDecision config page := by
  rw [validateRequest,hparse]
  simp only [bind,Except.bind,sopCheck_eq,mixedContentCheck_eq hparse,corsCheck_eq hparse,cspCheck_eq]
  by_cases hsop : config.enableSop = true ∧ page ≠ origin
  · rw [if_pos hsop,if_pos (Or.inl ⟨Or.inl hsop.1,hsop.2⟩)]
    rfl
  · rw [if_neg hsop]
    by_cases hmixed : Mixed config page origin
    · simp only [if_pos hmixed,if_pos (Or.inr hmixed)]
      rfl
    · by_cases hcors : config.enableCors = true ∧ page ≠ origin
      · simp only [if_neg hmixed,if_pos hcors]
        rw [if_pos (Or.inl ⟨Or.inr hcors.1,hcors.2⟩)]
        rfl
      · simp only [if_neg hmixed,if_neg hcors]
        rw [if_neg]
        · cases hcsp : ownDecision config page with
          | error e => rfl
          | ok b =>
            rw [ownDecision_ok hcsp]
            rfl
        · rintro (⟨hsop' | hcors',hne⟩ | hmixed')
          · exact hsop ⟨hsop',hne⟩
          · exact hcors ⟨hcors',hne⟩
          · exact hmixed hmixed'

theorem decision_error {e : OriginError} (hparse : Origin.parse url = .error e) :
    decision (validateRequest url method headers page config) = .error e := by
  rw [validateRequest,hparse]
  rfl

/-- The request may be made. -/
def Allowed (outcome : Except OriginError ValidationResult) : Prop := decision outcome = .ok true

/-- While the content security policy is enabled, no request of a page with an origin is allowed. -/
theorem not_allowed_of_csp {pageUrl : Str} (hpage : Origin.parse pageUrl = .ok page) (hcsp : config.enableCsp = true)
    (url method : Str) (headers : Headers) : ¬Allowed (validateRequest url method headers page config) := by
  intro h
  rw [Allowed] at h
  cases hparse : Origin.parse url with
  | error e =>
    rw [decision_error hparse] at h
    cases h
  | ok origin =>
    rw [decision_eq hparse,ownDecision,if_pos hcsp,parse_host hpage] at h
    split at h
    · cases h
    · cases h

end Decision

def getDefaultPolicyConfig : PolicyEngineConfig where
  enableSop := true
  enableCors := true
  enableCsp := true
  enableMixedContentBlocking := true
  strictTransportSecurity := true

/-- Under the default configuration a request to the page's own origin is never allowed. -/
theorem own_request_never_allowed {pageUrl url : Str} {page origin : Origin} (hpage : Origin.parse pageUrl = .ok page)
    (_hurl : Origin.parse url = .ok origin) (_hsame : page.isSameOrigin origin = true) (method : Str)
    (headers : Headers) : ¬Allowed (validateRequest url method headers page getDefaultPolicyConfig) :=
  not_allowed_of_csp hpage rfl url method headers

def examplePage : Origin := ⟨text "https",text "example.com",443⟩

def exampleHeaders : Headers := put "Content-Type" (text "application/json") ∅

theorem example_never_allowed :
    (Origin.parse (text "https://example.com") = .ok examplePage ∧
      Origin.parse (text "https://example.com/api/data") = .ok examplePage ∧
      examplePage.isSameOrigin examplePage = true) ∧
    ¬Allowed (validateRequest (text "https://example.com/api/data") (text "GET") exampleHeaders examplePage
      getDefaultPolicyConfig) :=
  ⟨by decide,own_request_never_allowed
    (show Origin.parse (text "https://example.com") = .ok examplePage by decide)
    (show Origin.parse (text "https://example.com/api/data") = .ok examplePage by decide)
    (by decide) _ _⟩

/-- The request is the one that the source tests. -/
theorem own_request_refused : ¬∀ (pageUrl url : Str) (page origin : Origin), Origin.parse pageUrl = .ok page →
    Origin.parse url = .ok origin → page.isSameOrigin origin = true → ∀ (method : Str) (headers : Headers),
      Allowed (validateRequest url method headers page getDefaultPolicyConfig) := by
  intro h
  have hpage : Origin.parse (text "https://example.com") = .ok examplePage := by decide
  have hurl : Origin.parse (text "https://example.com/api/data") = .ok examplePage := by decide
  exact not_allowed_of_csp hpage rfl _ _ _
    (h _ _ _ _ hpage hurl ((Origin.isSameOrigin_iff ..).mpr rfl) (text "GET") exampleHeaders)

end ZNet.Policy
