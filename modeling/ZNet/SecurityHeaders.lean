import ZNet.FreedMemory
import ZNet.HstsRoundTrip

/-!
# Security headers

The headers that a server adds to its responses are generated from a configuration, and each
is checked again before it is added. In the end the names and the values of all of them are
freed, though the names are literals. A policy for content is written directive by directive,
each under the name of its tag.
-/

namespace ZNet.SecurityHeaders
open TextScan Policy Hsts

/-- An age that is refused has an error of its own, which the source's set of errors lacks. -/
inductive SecurityHeaderError
  | invalidHeaderValue | unsupportedDirective | headerTooLong | invalidDirectiveValue | invalidMaxAge | panic
deriving DecidableEq

inductive SecurityHeaderType
  | contentSecurityPolicy | strictTransportSecurity | xFrameOptions | xContentTypeOptions | xXssProtection
  | referrerPolicy | permissionsPolicy | crossOriginOpenerPolicy | crossOriginEmbedderPolicy
  | crossOriginResourcePolicy | featurePolicy | reportingEndpoints | expectCt
deriving DecidableEq

inductive CspDirective
  | defaultSrc | scriptSrc | styleSrc | imgSrc | connectSrc | fontSrc | objectSrc | mediaSrc | frameSrc | workerSrc
  | childSrc | manifestSrc | baseUri | formAction | frameAncestors | upgradeInsecureRequests | blockAllMixedContent
  | requireTrustedTypesFor
deriving DecidableEq

def CspDirective.tagName : CspDirective → Str
  | .defaultSrc => text "default_src"
  | .scriptSrc => text "script_src"
  | .styleSrc => text "style_src"
  | .imgSrc => text "img_src"
  | .connectSrc => text "connect_src"
  | .fontSrc => text "font_src"
  | .objectSrc => text "object_src"
  | .mediaSrc => text "media_src"
  | .frameSrc => text "frame_src"
  | .workerSrc => text "worker_src"
  | .childSrc => text "child_src"
  | .manifestSrc => text "manifest_src"
  | .baseUri => text "base_uri"
  | .formAction => text "form_action"
  | .frameAncestors => text "frame_ancestors"
  | .upgradeInsecureRequests => text "upgrade_insecure_requests"
  | .blockAllMixedContent => text "block_all_mixed_content"
  | .requireTrustedTypesFor => text "require_trusted_types_for"

inductive CspSourceType
  | keywordSrc | schemeSrc | hostSrc | nonceSrc | hashSrc
deriving DecidableEq

structure CspSource where
  sourceType : CspSourceType
  value : Str
  isWildcard : Bool := false
deriving DecidableEq

def keywordSources : List Str :=
  [text "'self'",text "'unsafe-inline'",text "'unsafe-eval'",text "'unsafe-hashes'",text "'strict-dynamic'",
   text "'report-sample'",text "'none'"]

def schemeSources : List Str :=
  [text "https:",text "http:",text "data:",text "blob:",text "filesystem:",text "mediastream:",text "ws:",text "wss:"]

/-- Whatever is nothing else is a host, so that nothing is refused. -/
def CspSource.parse (source : Str) : CspSource :=
  if keywordSources.contains source then ⟨.keywordSrc,source,false⟩
  else if schemeSources.contains source then ⟨.schemeSrc,source,false⟩
  else if (text "'nonce-").isPrefixOf source then ⟨.nonceSrc,source,false⟩
  else if [text "'sha256-",text "'sha384-",text "'sha512-"].any (·.isPrefixOf source) then ⟨.hashSrc,source,false⟩
  else ⟨.hostSrc,source,(text "*").isSuffixOf source⟩

/-- The directives in the order in which their names were put first. -/
structure ContentSecurityPolicy where
  directives : List (Str×List CspSource) := []
  reportOnly : Bool := false
  reportUri : Option Str := none

/-- A name that is there keeps its place. -/
def putDirective (name : Str) (sources : List CspSource) : List (Str×List CspSource) → List (Str×List CspSource)
  | [] => [(name,sources)]
  | (other,old)::directives =>
    if other = name then (name,sources)::directives else (other,old)::putDirective name sources directives

def ContentSecurityPolicy.addDirective (self : ContentSecurityPolicy) (directive : CspDirective) (sources : List Str) :
    ContentSecurityPolicy :=
  { self with directives := putDirective directive.tagName (sources.map CspSource.parse) self.directives }

def directiveText (directive : Str×List CspSource) : Str :=
  directive.1++0x20::(text " ").intercalate (directive.2.map CspSource.value)

def ContentSecurityPolicy.generateHeaderValue (self : ContentSecurityPolicy) : Str :=
  joinParts (self.directives.map directiveText)++self.reportUri.elim [] fun uri => text "; report-uri "++uri

structure SecurityHeaderConfig where
  contentSecurityPolicy : Option ContentSecurityPolicy := none
  strictTransportSecurity : Option Str := none
  xFrameOptions : Option Str := none
  xContentTypeOptions : Option Str := none
  xXssProtection : Option Str := none
  referrerPolicy : Option Str := none
  permissionsPolicy : Option Str := none
  crossOriginOpenerPolicy : Option Str := none
  crossOriginEmbedderPolicy : Option Str := none
  crossOriginResourcePolicy : Option Str := none
  featurePolicy : Option Str := none
  reportingEndpoints : Option Str := none
  expectCt : Option Str := none

def hstsValue (maxAge : ℕ) (includeSubDomains preload : Bool) : Str :=
  text "max-age="++decimal maxAge++
    ((if includeSubDomains then text "; includeSubDomains" else [])++if preload then text "; preload" else [])

namespace SecurityHeaderConfig

def withCsp (self : SecurityHeaderConfig) (csp : ContentSecurityPolicy) : SecurityHeaderConfig :=
  { self with contentSecurityPolicy := some csp }

def withHsts (self : SecurityHeaderConfig) (maxAge : ℕ) (includeSubDomains preload : Bool) : SecurityHeaderConfig :=
  { self with strictTransportSecurity := some (hstsValue maxAge includeSubDomains preload) }

end SecurityHeaderConfig

namespace SecurityProfiles

def minimal : SecurityHeaderConfig where
  strictTransportSecurity := some (text "max-age=31536000; includeSubDomains")
  xContentTypeOptions := some (text "nosniff")
  referrerPolicy := some (text "strict-origin-when-cross-origin")

def moderate : SecurityHeaderConfig where
  strictTransportSecurity := some (text "max-age=31536000; includeSubDomains; preload")
  xContentTypeOptions := some (text "nosniff")
  xFrameOptions := some (text "DENY")
  xXssProtection := some (text "1; mode=block")
  referrerPolicy := some (text "strict-origin-when-cross-origin")
  crossOriginOpenerPolicy := some (text "same-origin")
  crossOriginResourcePolicy := some (text "same-site")

def strict : SecurityHeaderConfig where
  strictTransportSecurity := some (text "max-age=31536000; includeSubDomains; preload")
  xContentTypeOptions := some (text "nosniff")
  xFrameOptions := some (text "DENY")
  xXssProtection := some (text "1; mode=block")
  referrerPolicy := some (text "no-referrer")
  crossOriginOpenerPolicy := some (text "same-origin")
  crossOriginEmbedderPolicy := some (text "require-corp")
  crossOriginResourcePolicy := some (text "same-site")

end SecurityProfiles

def cspName (csp : Option ContentSecurityPolicy) : Str :=
  if csp.any ContentSecurityPolicy.reportOnly then text "Content-Security-Policy-Report-Only"
  else text "Content-Security-Policy"

/-- The headers that a configuration may have, in the order in which they are generated. -/
def headerFields (config : SecurityHeaderConfig) : List (Str×Option Str) :=
  [(cspName config.contentSecurityPolicy,config.contentSecurityPolicy.map ContentSecurityPolicy.generateHeaderValue),
   (text "Strict-Transport-Security",config.strictTransportSecurity),
   (text "X-Frame-Options",config.xFrameOptions),
   (text "X-Content-Type-Options",config.xContentTypeOptions),
   (text "X-XSS-Protection",config.xXssProtection),
   (text "Referrer-Policy",config.referrerPolicy),
   (text "Permissions-Policy",config.permissionsPolicy),
   (text "Cross-Origin-Opener-Policy",config.crossOriginOpenerPolicy),
   (text "Cross-Origin-Embedder-Policy",config.crossOriginEmbedderPolicy),
   (text "Cross-Origin-Resource-Policy",config.crossOriginResourcePolicy),
   (text "Feature-Policy",config.featurePolicy),
   (text "Reporting-Endpoints",config.reportingEndpoints),
   (text "Expect-CT",config.expectCt)]

def generateHeaders (config : SecurityHeaderConfig) : List HttpHeader :=
  (headerFields config).filterMap fun field => field.2.map fun value => ⟨field.1,value⟩

/-- The directives of a header, with the blanks around them cut off. -/
def trimmedDirectives (value : Str) : List Str :=
  ((value.splitOnP (· == 0x3b)).map (trim (ascii [' ','\t']))).filter fun directive => !directive.isEmpty

def validDirectives : List Str :=
  [text "default-src",text "script-src",text "style-src",text "img-src",text "connect-src",text "font-src",
   text "object-src",text "media-src",text "frame-src",text "worker-src",text "child-src",text "manifest-src",
   text "base-uri",text "form-action",text "frame-ancestors",text "upgrade-insecure-requests",
   text "block-all-mixed-content"]

/-- The sources are parsed, too, but none of them is refused. -/
def validateCsp (cspValue : Str) : Except SecurityHeaderError Unit :=
  if (trimmedDirectives cspValue).all fun directive =>
      validDirectives.contains (directive.take ((directive.idxOf? 0x20).getD directive.length)) then .ok ()
  else .error .unsupportedDirective

def knownHstsDirective (directive : Str) : Bool :=
  directive == text "includeSubDomains" || directive == text "preload" || (text "max-age=").isPrefixOf directive

/-- The end of the number is counted from its start, but it is used as if it were counted from
the start of the header. -/
def validateHsts (hstsValue : Str) : Except SecurityHeaderError Unit :=
  if 2000 < hstsValue.length then .error .headerTooLong
  else match indexOf (text "max-age=") hstsValue with
  | none => .error .invalidHeaderValue
  | some idx =>
    let maxAgeStart := idx+8
    let maxAgeEnd := ((hstsValue.drop maxAgeStart).idxOf? 0x3b).getD hstsValue.length
    if maxAgeEnd < maxAgeStart then .error .panic
    else
      let maxAgeStr := (hstsValue.take maxAgeEnd).drop maxAgeStart
      if maxAgeStr = [] then .error .invalidMaxAge
      else match parseUnsigned (2^64) maxAgeStr with
      | none => .error .invalidMaxAge
      | some maxAge =>
        if maxAge = 0 then .error .invalidMaxAge
        else if (trimmedDirectives hstsValue).all knownHstsDirective then .ok ()
        else .error .invalidDirectiveValue

def validateXFrameOptions (xfoValue : Str) : Except SecurityHeaderError Unit :=
  let trimmed := trim (ascii [' ','\t']) xfoValue
  if trimmed = text "DENY" ∨ trimmed = text "SAMEORIGIN" then .ok ()
  else if (text "ALLOW-FROM ").isPrefixOf trimmed then
    if (trimmed.drop 11).length < 4 then .error .invalidHeaderValue else .ok ()
  else .error .invalidHeaderValue

def validateXContentTypeOptions (xctoValue : Str) : Except SecurityHeaderError Unit :=
  if trim (ascii [' ','\t']) xctoValue = text "nosniff" then .ok () else .error .invalidHeaderValue

def validateXXssProtection (xssValue : Str) : Except SecurityHeaderError Unit :=
  let trimmed := trim (ascii [' ','\t']) xssValue
  if trimmed = text "0" ∨ trimmed = text "1" then .ok ()
  else if (text "1; mode=").isPrefixOf trimmed ∧ (trimmed.drop 8 = text "block" ∨ trimmed.drop 8 = text "report") then .ok ()
  else .error .invalidHeaderValue

def validPolicies : List Str :=
  [text "no-referrer",text "no-referrer-when-downgrade",text "origin",text "origin-when-cross-origin",
   text "same-origin",text "strict-origin",text "strict-origin-when-cross-origin",text "unsafe-url"]

def validateReferrerPolicy (policyValue : Str) : Except SecurityHeaderError Unit :=
  if validPolicies.contains (trim (ascii [' ','\t']) policyValue) then .ok () else .error .invalidHeaderValue

def validateHeader (headerType : SecurityHeaderType) (value : Str) : Except SecurityHeaderError Unit :=
  match headerType with
  | .contentSecurityPolicy => validateCsp value
  | .strictTransportSecurity => validateHsts value
  | .xFrameOptions => validateXFrameOptions value
  | .xContentTypeOptions => validateXContentTypeOptions value
  | .xXssProtection => validateXXssProtection value
  | .referrerPolicy => validateReferrerPolicy value
  | _ => .ok ()

def headersMap : List (Str×SecurityHeaderType) :=
  [(text "Content-Security-Policy",.contentSecurityPolicy),
   (text "Content-Security-Policy-Report-Only",.contentSecurityPolicy),
   (text "Strict-Transport-Security",.strictTransportSecurity),
   (text "X-Frame-Options",.xFrameOptions),
   (text "X-Content-Type-Options",.xContentTypeOptions),
   (text "X-XSS-Protection",.xXssProtection),
   (text "Referrer-Policy",.referrerPolicy),
   (text "Permissions-Policy",.permissionsPolicy),
   (text "Cross-Origin-Opener-Policy",.crossOriginOpenerPolicy),
   (text "Cross-Origin-Embedder-Policy",.crossOriginEmbedderPolicy),
   (text "Cross-Origin-Resource-Policy",.crossOriginResourcePolicy),
   (text "Feature-Policy",.featurePolicy),
   (text "Reporting-Endpoints",.reportingEndpoints),
   (text "Expect-CT",.expectCt)]

def getHeaderType (headerName : Str) : Option SecurityHeaderType := headersMap.lookup headerName

/-- The allocator traps or not where it gets memory that it did not hand out. -/
structure SecurityHeadersMiddleware where
  config : SecurityHeaderConfig
  validateOnAdd : Bool := true
  foreign : ForeignFree

/-- The check of one header. A name that is not in the map is not checked. -/
def SecurityHeadersMiddleware.check (self : SecurityHeadersMiddleware) (header : HttpHeader) :
    Except SecurityHeaderError Unit :=
  if self.validateOnAdd then
    match getHeaderType header.name with
    | some headerType => validateHeader headerType header.value
    | none => .ok ()
  else .ok ()

/-- Only the policy for content is written for the response; the other values are those of the
configuration. -/
def valueAllocated (header : HttpHeader) : Bool := getHeaderType header.name == some .contentSecurityPolicy

/-- The header as it is read when its value is freed. -/
def afterFree (freed : FreedMemory UInt8) (header : HttpHeader) : HttpHeader :=
  if valueAllocated header then { header with value := freed.read header.value } else header

namespace SecurityHeadersMiddleware

/-- A header that is refused is left out. The response is only read when the values are freed. -/
def addHeader (self : SecurityHeadersMiddleware) (freed : FreedMemory UInt8) (headers : List HttpHeader)
    (header : HttpHeader) : Except SecurityHeaderError (List HttpHeader) :=
  match self.check header with
  | .ok () => .ok (headers++[afterFree freed header])
  | .error .panic => .error .panic
  | .error _ => .ok headers

def free (self : SecurityHeadersMiddleware) (allocated : Bool) : Except SecurityHeaderError Unit :=
  if allocated ∨ self.foreign = .ignored then .ok () else .error .panic

/-- The name is a literal. -/
def freeHeader (self : SecurityHeadersMiddleware) (header : HttpHeader) : Except SecurityHeaderError Unit := do
  self.free false
  self.free (valueAllocated header)

def processResponse (self : SecurityHeadersMiddleware) (freed : FreedMemory UInt8) (response : List HttpHeader) :
    Except SecurityHeaderError (List HttpHeader) := do
  let response ← (generateHeaders self.config).foldlM (self.addHeader freed) response
  (generateHeaders self.config).forM self.freeHeader
  return response

end SecurityHeadersMiddleware

section Adding

variable {m : SecurityHeadersMiddleware} {header : HttpHeader} {headers response : List HttpHeader} {e : SecurityHeaderError}
variable {freed : FreedMemory UInt8}

/-- The headers that are added, which are those that are not refused. -/
def SecurityHeadersMiddleware.added (m : SecurityHeadersMiddleware) (freed : FreedMemory UInt8) : List HttpHeader :=
  ((generateHeaders m.config).filter fun header => decide (m.check header = .ok ())).map (afterFree freed)

/-- Some check traps. -/
def SecurityHeadersMiddleware.CheckTraps (m : SecurityHeadersMiddleware) : Prop :=
  ∃ header ∈ generateHeaders m.config, m.check header = .error .panic

/-- Some check traps, or a header is generated, whose name cannot be freed. -/
def SecurityHeadersMiddleware.Traps (m : SecurityHeadersMiddleware) : Prop :=
  m.CheckTraps ∨ m.foreign = .trapped ∧ generateHeaders m.config ≠ []

theorem foldlM_addHeader (headers response : List HttpHeader) : headers.foldlM (m.addHeader freed) response =
    if ∃ header ∈ headers, m.check header = .error .panic then .error .panic
    else .ok (response++(headers.filter fun header => decide (m.check header = .ok ())).map (afterFree freed)) := by
  induction headers generalizing response with
  | nil => simp [pure,Except.pure]
  | cons header headers ih =>
    rw [List.foldlM_cons,SecurityHeadersMiddleware.addHeader]
    cases hcheck : m.check header with
    | ok _ => simpa [hcheck,bind,Except.bind] using ih (response++[afterFree freed header])
    | error e =>
      cases e with
      | panic => simp [hcheck,bind,Except.bind]
      | _ => simpa [hcheck,bind,Except.bind] using ih response

/-- The first name decides. -/
theorem forM_freeHeader (headers : List HttpHeader) : headers.forM m.freeHeader =
    if m.foreign = .trapped ∧ headers ≠ [] then .error .panic else .ok () := by
  cases hforeign : m.foreign with
  | ignored =>
    rw [if_neg (fun h => by cases h.1)]
    induction headers with
    | nil => rfl
    | cons header headers ih =>
      have hfree (allocated : Bool) : m.free allocated = .ok () := if_pos (.inr hforeign)
      change (m.freeHeader header >>= fun _ => headers.forM m.freeHeader) = .ok ()
      rw [SecurityHeadersMiddleware.freeHeader,hfree,hfree]
      exact ih
  | trapped =>
    cases headers with
    | nil => rfl
    | cons header headers =>
      have hfree : m.free false = .error .panic := by
        rw [SecurityHeadersMiddleware.free,hforeign]
        rfl
      rw [if_pos ⟨rfl,List.cons_ne_nil _ _⟩]
      change (m.freeHeader header >>= fun _ => headers.forM m.freeHeader) = .error .panic
      rw [SecurityHeadersMiddleware.freeHeader,hfree]
      rfl

/-- The response gets the headers that are not refused unless something traps. -/
theorem processResponse_eq (m : SecurityHeadersMiddleware) (freed : FreedMemory UInt8) (response : List HttpHeader)
    [Decidable m.Traps] :
    m.processResponse freed response = if m.Traps then .error .panic else .ok (response++m.added freed) := by
  rw [SecurityHeadersMiddleware.processResponse,foldlM_addHeader,forM_freeHeader]
  by_cases hcheck : ∃ header ∈ generateHeaders m.config, m.check header = .error .panic
  · have htraps : m.Traps := .inl hcheck
    rw [if_pos hcheck,if_pos htraps]
    rfl
  · rw [if_neg hcheck]
    by_cases hfree : m.foreign = .trapped ∧ generateHeaders m.config ≠ []
    · have htraps : m.Traps := .inr hfree
      rw [if_pos hfree,if_pos htraps]
      rfl
    · have htraps : ¬m.Traps := not_or.mpr ⟨hcheck,hfree⟩
      rw [if_neg hfree,if_neg htraps]
      rfl

theorem processResponse_ok_iff :
    m.processResponse freed response = .ok headers ↔ ¬m.Traps ∧ headers = response++m.added freed := by
  classical
  rw [processResponse_eq]
  split_ifs with htraps
  · exact iff_of_false nofun fun h => h.1 htraps
  · rw [Except.ok.injEq]
    exact ⟨fun h => ⟨htraps,h.symm⟩,fun h => h.2.symm⟩

theorem processResponse_error_iff : m.processResponse freed response = .error e ↔ m.Traps ∧ e = .panic := by
  classical
  rw [processResponse_eq]
  split_ifs with htraps
  · rw [Except.error.injEq]
    exact ⟨fun h => ⟨htraps,h.symm⟩,fun h => h.2.symm⟩
  · exact iff_of_false nofun fun h => htraps h.1

/-- Only the check of the age can trap. -/
theorem validateHeader_panic {headerType : SecurityHeaderType} {value : Str}
    (h : validateHeader headerType value = .error .panic) : headerType = .strictTransportSecurity := by
  cases headerType with
  | strictTransportSecurity => rfl
  | contentSecurityPolicy =>
    rw [validateHeader,validateCsp] at h
    split_ifs at h
    cases h
  | xFrameOptions =>
    rw [validateHeader,validateXFrameOptions] at h
    split_ifs at h
    · cases h
    · cases h
  | xContentTypeOptions =>
    rw [validateHeader,validateXContentTypeOptions] at h
    split_ifs at h
    cases h
  | xXssProtection =>
    rw [validateHeader,validateXXssProtection] at h
    split_ifs at h
    cases h
  | referrerPolicy =>
    rw [validateHeader,validateReferrerPolicy] at h
    split_ifs at h
    cases h
  | _ => cases h

theorem mem_generateHeaders {config : SecurityHeaderConfig} :
    header ∈ generateHeaders config ↔ (header.name,some header.value) ∈ headerFields config := by
  rw [generateHeaders,List.mem_filterMap]
  constructor
  · rintro ⟨⟨name,value⟩,hmem,hvalue⟩
    obtain ⟨value,rfl,rfl⟩ := Option.map_eq_some_iff.mp hvalue
    exact hmem
  · exact fun h => ⟨_,h,rfl⟩

/-- The names of the headers are those of the map. -/
theorem name_mem {config : SecurityHeaderConfig} (h : header ∈ generateHeaders config) :
    header.name ∈ headersMap.map Prod.fst := by
  have hnames : (headerFields config).map Prod.fst = cspName config.contentSecurityPolicy::(headersMap.map Prod.fst).drop 2 :=
    rfl
  have hname : header.name ∈ (headerFields config).map Prod.fst :=
    List.mem_map.mpr ⟨_,mem_generateHeaders.mp h,rfl⟩
  rw [hnames,List.mem_cons] at hname
  rcases hname with hcsp | hname
  · rw [hcsp,cspName]
    split_ifs
    · exact List.mem_cons_of_mem _ List.mem_cons_self
    · exact List.mem_cons_self
  · exact List.mem_of_mem_drop hname

/-- The client looks for the name in small letters, which no header has. -/
theorem name_ne {config : SecurityHeaderConfig} (h : header ∈ generateHeaders config) : header.name ≠ hstsName := by
  have hnames : ∀ name ∈ headersMap.map Prod.fst, name ≠ hstsName := by decide
  exact hnames _ (name_mem h)

theorem hsts_type {name : Str} (h : getHeaderType name = some .strictTransportSecurity) : name = hstsHeader := by
  have honly : ∀ pair ∈ headersMap, pair.2 = .strictTransportSecurity → pair.1 = hstsHeader := by decide
  obtain ⟨before,after,hmap,-⟩ := List.lookup_eq_some_iff.mp h
  exact honly (name,.strictTransportSecurity) (hmap ▸ by simp) rfl

/-- The header for the transport is the one that is configured. -/
theorem mem_generateHeaders_hsts {config : SecurityHeaderConfig} (hname : header.name = hstsHeader) :
    header ∈ generateHeaders config ↔ config.strictTransportSecurity = some header.value := by
  have hfields : (headerFields config).filter (fun field => field.1 == hstsHeader) =
      [(hstsHeader,config.strictTransportSecurity)] := by
    rw [headerFields,cspName]
    split_ifs
    · rfl
    · rfl
  have hmem : (header.name,some header.value) ∈ headerFields config ↔
      (header.name,some header.value) ∈ (headerFields config).filter fun field => field.1 == hstsHeader := by
    simp [List.mem_filter,hname]
  rw [mem_generateHeaders,hmem,hfields,List.mem_singleton,Prod.mk.injEq]
  exact ⟨fun h => h.2.symm,fun h => ⟨hname,h.symm⟩⟩

theorem check_hsts (hname : header.name = hstsHeader) :
    m.check header = if m.validateOnAdd then validateHsts header.value else .ok () := by
  have htype : getHeaderType hstsHeader = some .strictTransportSecurity := by decide
  rw [SecurityHeadersMiddleware.check,hname,htype]
  rfl

/-- A check traps exactly if that of the age does. -/
theorem checkTraps_iff : m.CheckTraps ↔ m.validateOnAdd = true ∧
    ∃ value, m.config.strictTransportSecurity = some value ∧ validateHsts value = .error .panic := by
  constructor
  · rintro ⟨header,hmem,hcheck⟩
    have hname : header.name = hstsHeader := by
      rw [SecurityHeadersMiddleware.check] at hcheck
      split_ifs at hcheck
      cases htype : getHeaderType header.name with
      | none =>
        rw [htype] at hcheck
        cases hcheck
      | some headerType =>
        rw [htype] at hcheck
        rw [validateHeader_panic hcheck] at htype
        exact hsts_type htype
    rw [check_hsts hname] at hcheck
    split_ifs at hcheck with hvalidate
    exact ⟨hvalidate,header.value,(mem_generateHeaders_hsts hname).mp hmem,hcheck⟩
  · rintro ⟨hvalidate,value,hvalue,hpanic⟩
    refine ⟨⟨hstsHeader,value⟩,(mem_generateHeaders_hsts rfl).mpr hvalue,?_⟩
    rw [check_hsts rfl,if_pos hvalidate]
    exact hpanic

theorem afterFree_name (freed : FreedMemory UInt8) (header : HttpHeader) : (afterFree freed header).name = header.name := by
  rw [afterFree]
  split_ifs
  · rfl
  · rfl

/-- The value of the header for the transport is not allocated. -/
theorem afterFree_hsts (freed : FreedMemory UInt8) (hname : header.name = hstsHeader) : afterFree freed header = header := by
  have hallocated : valueAllocated header = false := by
    rw [valueAllocated,hname]
    decide
  rw [afterFree,hallocated,if_neg Bool.false_ne_true]

/-- The header for the transport is added exactly if it is configured and not refused. -/
theorem mem_added_hsts (hname : header.name = hstsHeader) : header ∈ m.added freed ↔
    m.config.strictTransportSecurity = some header.value ∧
      (m.validateOnAdd = true → validateHsts header.value = .ok ()) := by
  have hmem : header ∈ m.added freed ↔ header ∈ generateHeaders m.config ∧ m.check header = .ok () := by
    rw [SecurityHeadersMiddleware.added,List.mem_map]
    constructor
    · rintro ⟨generated,hgenerated,rfl⟩
      rw [afterFree_hsts freed ((afterFree_name freed generated).symm.trans hname)]
      exact ⟨(List.mem_filter.mp hgenerated).1,of_decide_eq_true (List.mem_filter.mp hgenerated).2⟩
    · rintro ⟨hgenerated,hcheck⟩
      exact ⟨header,List.mem_filter.mpr ⟨hgenerated,decide_eq_true hcheck⟩,afterFree_hsts freed hname⟩
  rw [hmem,mem_generateHeaders_hsts hname,check_hsts hname]
  cases m.validateOnAdd with
  | true => simp
  | false => simp

end Adding

end ZNet.SecurityHeaders
