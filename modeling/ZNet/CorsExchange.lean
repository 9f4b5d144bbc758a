import ZNet.Preflight
import ZNet.CorsProtocol

/-!
# Requests to another origin

A browser asks first, reads the headers that the manager generates for its answer, and then
sends the request. It asks for headers in small letters, and the manager takes them as they are
written. The generated headers list what is allowed now, whatever the answer from the cache
lists, and the answer to the request itself depends on a header of its own.
-/

namespace ZNet.Policy
open TextScan Tables Runs
open HttpGrammar (IsToken)
open CorsProtocol (CorsRequest CorsHeaders listed listed_join)

/-- The names with `, ` between them. -/
def joined (names : List Str) : Str := (text ", ").intercalate names

def CORSHangler.generateCORSHeaders (self : CORSHangler) (methodOrder headerOrder : IterationOrder Str) (origin : Str)
    (allowCredentials : Bool) : Headers :=
  let headers := put "Access-Control-Allow-Origin" origin ∅
  let headers := if allowCredentials then put "Access-Control-Allow-Credentials" (text "true") headers else headers
  let headers := put "Access-Control-Allow-Methods" (joined (methodOrder self.allowedMethods.keys).1) headers
  let headers := put "Access-Control-Allow-Headers" (joined (headerOrder self.allowedHeaders.keys).1) headers
  put "Access-Control-Max-Age" (text "86400") headers

def PolicyManager.generateCORSHeaders (self : PolicyManager) (methodOrder headerOrder : IterationOrder Str) (origin : Str)
    (allowCredentials : Bool) : Headers :=
  self.corsHandler.generateCORSHeaders methodOrder headerOrder origin allowCredentials

def sensitiveHeaders : List Str :=
  [text "Authorization",text "Cookie",text "Set-Cookie",text "X-Requested-With",text "Host",text "Origin",text "Referer"]

def isSensitiveHeader (header : Str) : Bool := sensitiveHeaders.any fun sensitive => header.map toLower == sensitive.map toLower

/-- Each name takes the place of the one before. -/
def exposeHeaders (names : List Str) (headers : Headers) : Headers :=
  names.foldl (fun headers name =>
    if isSensitiveHeader name then headers else put "Access-Control-Expose-Headers" name headers) headers

def CORSHangler.handleActualRequest (self : CORSHangler) (headerOrder : IterationOrder Str) (origin : Str)
    (requestHeaders : Headers) : ValidationResult :=
  if !isAllowed self.allowedOrigins origin then ⟨false,"Origin not allowed by CORS",∅⟩
  else
    let headers :=
      match requestHeaders.lookup (text "Access-Control-Request-Credentials") with
      | some creds =>
        if creds.map toLower == text "true" then
          put "Access-Control-Allow-Origin" origin (put "Access-Control-Allow-Credentials" (text "true") ∅)
        else ∅
      | none => put "Access-Control-Allow-Origin" origin ∅
    ⟨true,"CORS actual request allowed",exposeHeaders (headerOrder self.allowedHeaders.keys).1 headers⟩

def isPreflightRequest (method : Str) (headers : Headers) : Bool :=
  method.map toUpper == text "OPTIONS" && (headers.lookup (text "Origin")).isSome &&
    ((headers.lookup (text "Access-Control-Request-Method")).isSome ||
      (headers.lookup (text "Access-Control-Request-Headers")).isSome)

/-- What the browser asks first. -/
def preflightHeaders (request : CorsRequest) : Headers :=
  putSome "Access-Control-Request-Headers"
    (if request.asked.isEmpty then none else some ((text ",").intercalate request.asked))
    (put "Access-Control-Request-Method" request.method (put "Origin" request.origin ∅))

/-- What the handler makes of it. -/
def extracted (request : CorsRequest) : CORSPreflightRequest :=
  ⟨request.origin,.fromString request.method,request.asked⟩

/-- What the browser reads. -/
def corsHeaders (headers : Headers) : CorsHeaders where
  allowOrigin := headers.lookup (text "Access-Control-Allow-Origin")
  allowCredentials := headers.lookup (text "Access-Control-Allow-Credentials")
  allowMethods := headers.lookup (text "Access-Control-Allow-Methods")
  allowHeaders := headers.lookup (text "Access-Control-Allow-Headers")

inductive ExchangeCall
  | configureCORS (origin : Str) (options : CORSOptions)
  | preflight (call : PreflightCall)

/-- The manager with the options of the latest configuration. -/
structure TracedManager where
  manager : PolicyManager
  latest : Option CORSOptions

def TracedManager.init (config : PolicyEngineConfig) : TracedManager := ⟨.init config,none⟩

section Exchange

variable (wyhash : Str → UInt64)

def exchangeStep (s : TracedManager) : ExchangeCall → TracedManager
  | .configureCORS origin options => ⟨s.manager.configureCORS origin options,some { options with origin := origin }⟩
  | .preflight call => ⟨preflightStep wyhash s.manager call,s.latest⟩

/-- The manager sees that the browser asks, and the headers that it generates from its answer
permit the request. -/
def Sendable (m : PolicyManager) (methodOrder headerOrder : IterationOrder Str) (request : CorsRequest) : Prop :=
  isPreflightRequest (text "OPTIONS") (preflightHeaders request) = true ∧
  ∃ response m', m.handlePreflightRequest wyhash methodOrder headerOrder (preflightHeaders request) = (.ok response,m') ∧
    (corsHeaders (m'.generateCORSHeaders methodOrder headerOrder response.allowOrigin
      response.allowCredentials)).Permits request

/-- The configuration must have the headers in small letters, which the default headers are
not. -/
structure Grants (options : CORSOptions) (request : CorsRequest) : Prop where
  origin : request.origin = options.origin ∧ options.origin ≠ []
  method : ∃ method ∈ options.methods, request.method = method.tagName
  names : ∀ name ∈ request.names, name.map toLower ∈ options.headers

/-- The request itself says whether it comes with credentials. -/
def Announced (requestHeaders : Headers) (credentials : Bool) : Prop :=
  match requestHeaders.lookup (text "Access-Control-Request-Credentials") with
  | some creds => SameLetters creds (text "true")
  | none => credentials = false

variable {wyhash}

section Headers

variable {handler : CORSHangler} {methodOrder headerOrder : IterationOrder Str} {request : CorsRequest}

theorem generateCORSHeaders_eq (handler : CORSHangler) (methodOrder headerOrder : IterationOrder Str) (origin : Str) :
    corsHeaders (handler.generateCORSHeaders methodOrder headerOrder origin true) =
      ⟨some origin,some (text "true"),some (joined (methodOrder handler.allowedMethods.keys).1),
        some (joined (headerOrder handler.allowedHeaders.keys).1)⟩ := rfl

theorem lookup_preflightHeaders (request : CorsRequest) :
    (preflightHeaders request).lookup (text "Origin") = some request.origin ∧
    (preflightHeaders request).lookup (text "Access-Control-Request-Method") = some request.method ∧
    (preflightHeaders request).lookup (text "Access-Control-Request-Headers") =
      if request.asked.isEmpty then none else some ((text ",").intercalate request.asked) := by
  rw [preflightHeaders]
  cases request.asked with
  | nil => exact ⟨rfl,rfl,rfl⟩
  | cons name names => exact ⟨rfl,rfl,rfl⟩

theorem isPreflightRequest_asked (request : CorsRequest) :
    isPreflightRequest (text "OPTIONS") (preflightHeaders request) = true := by
  obtain ⟨horigin,hmethod,-⟩ := lookup_preflightHeaders request
  have hupper : (text "OPTIONS").map toUpper = text "OPTIONS" := by decide
  rw [isPreflightRequest,horigin,hmethod,hupper]
  simp

/-- There is no white space in a token. -/
theorem trim_token {name : Str} (h : IsToken name) : trim (ascii [' ','\t','\r','\n']) name = name := by
  have hspace {b : UInt8} (hb : b ∈ ascii [' ','\t','\r','\n']) : b ∉ name := by
    have hnone : ((ascii [' ','\t','\r','\n']).all fun b => !HttpGrammar.isTchar b) = true := rfl
    apply IsToken.notMem h
    simpa using List.all_eq_true.mp hnone b hb
  apply trim_ends
  · intro b hb hmem
    exact hspace hmem (List.mem_of_mem_head? hb)
  · intro b hb hmem
    exact hspace hmem (List.mem_of_mem_getLast? hb)
  · exact h.1

/-- The names are read as they were asked for. -/
theorem requestedHeaders_asked (request : CorsRequest) : requestedHeaders (preflightHeaders request) = request.asked := by
  obtain ⟨-,-,hnames⟩ := lookup_preflightHeaders request
  rw [requestedHeaders,hnames]
  cases hlist : request.asked with
  | nil => rfl
  | cons first names =>
    have htokens : ∀ name ∈ first::names, IsToken name := hlist ▸ request.token_asked
    have hcommas : ∀ name ∈ first::names, (0x2c : UInt8) ∉ name := fun name hname =>
      CorsProtocol.comma_notMem (htokens name hname)
    have hsplit : ((text ",").intercalate (first::names)).splitOnP (· == 0x2c) = first::names :=
      List.splitOn_eq_splitOnP.symm.trans (List.splitOn_intercalate 0x2c hcommas (List.cons_ne_nil _ _))
    have htrim : (first::names).map (trim (ascii [' ','\t','\r','\n'])) = first::names :=
      (List.map_congr_left fun name hname => trim_token (htokens name hname)).trans (List.map_id _)
    rw [List.isEmpty_cons,if_neg Bool.false_ne_true]
    dsimp only
    rw [hsplit,htrim]

end Headers

section Answers

variable {handler : CORSHangler} {options : CORSOptions} {methodOrder headerOrder : IterationOrder Str}
  {request : CorsRequest}

theorem token_tagName (method : CORSMethod) : IsToken method.tagName := by
  cases method <;> exact ⟨by decide,rfl⟩

theorem Configured.mem_methods (h : Configured handler options) (name : Str) :
    name ∈ handler.allowedMethods.keys ↔ ∃ method ∈ options.methods, name = method.tagName := by
  rw [h.methods,CORSHangler.configure,mem_putAll,AList.keys_empty,List.mem_map]
  simp [eq_comm]

theorem Configured.mem_headers (h : Configured handler options) (name : Str) :
    name ∈ handler.allowedHeaders.keys ↔ options.Header name := by
  rw [h.headers,CORSHangler.configure,mem_putAll,mem_putAll,AList.keys_empty,CORSOptions.Header]
  simp [or_comm]

theorem token_header (htokens : ∀ name ∈ options.headers, IsToken name) {name : Str} (h : options.Header name) :
    IsToken name := by
  rcases h with h | h
  · exact htokens name h
  · have hdefault : (defaultHeaders.all fun name => !name.isEmpty && name.all HttpGrammar.isTchar) = true := rfl
    have hname := List.all_eq_true.mp hdefault name h
    rw [Bool.and_eq_true] at hname
    exact ⟨by simpa using hname.1,hname.2⟩

/-- The lists that the handler generates are read as the methods and headers that it allows. -/
theorem Configured.listed_generated (h : Configured handler options) (htokens : ∀ name ∈ options.headers, IsToken name)
    (methodOrder headerOrder : IterationOrder Str) :
    listed (joined (methodOrder handler.allowedMethods.keys).1) = some (methodOrder handler.allowedMethods.keys).1 ∧
    listed (joined (headerOrder handler.allowedHeaders.keys).1) = some (headerOrder handler.allowedHeaders.keys).1 := by
  constructor
  · apply listed_join
    intro name hname
    obtain ⟨method,-,rfl⟩ := (h.mem_methods name).mp ((methodOrder _).2.mem_iff.mp hname)
    exact token_tagName method
  · apply listed_join
    intro name hname
    exact token_header htokens ((h.mem_headers name).mp ((headerOrder _).2.mem_iff.mp hname))

theorem shared_generated (handler : CORSHangler) (methodOrder headerOrder : IterationOrder Str) (origin : Str)
    (credentials : Bool) :
    (corsHeaders (handler.generateCORSHeaders methodOrder headerOrder origin true)).Shared origin credentials := by
  rw [generateCORSHeaders_eq]
  exact ⟨origin,rfl,.inr ⟨rfl,fun _ => rfl⟩⟩

/-- The methods that need not be listed are only answered if they are. -/
theorem safelisted_method {method : CORSMethod} {token : Str} (h : token ∈ CorsProtocol.safelistedMethods)
    (hmethod : CORSMethod.fromString token = method) : token = method.tagName := by
  subst hmethod
  simp only [CorsProtocol.safelistedMethods,List.mem_cons,List.not_mem_nil,or_false] at h
  rcases h with rfl | rfl | rfl
  · rfl
  · rfl
  · rfl

/-- No default header is written in small letters. -/
theorem lower_not_default (name : Str) : name.map toLower ∉ defaultHeaders := by
  intro hdefault
  have hcapitals : (defaultHeaders.all fun name => decide (name.map toLower ≠ name)) = true := by decide
  have hne := of_decide_eq_true (List.all_eq_true.mp hcapitals _ hdefault)
  exact hne (sameLetters_lower name)

/-- What is asked for is allowed exactly if the configuration has it in small letters. -/
theorem asked_allowed_iff (options : CORSOptions) (request : CorsRequest) :
    (∀ name ∈ request.asked, options.Header name) ↔ ∀ name ∈ request.names, name.map toLower ∈ options.headers := by
  constructor
  · intro h name hname
    exact (h _ ((request.mem_asked _).mpr ⟨name,hname,rfl⟩)).resolve_right (lower_not_default name)
  · intro h name hname
    obtain ⟨written,hwritten,rfl⟩ := (request.mem_asked name).mp hname
    exact .inl (h written hwritten)

/-- What the browser reads permits a request that was answered exactly if it is granted. -/
theorem Configured.permits_iff (h : Configured handler options) (htokens : ∀ name ∈ options.headers, IsToken name)
    (horigin : request.origin = options.origin ∧ options.origin ≠ [])
    (hmethod : CORSMethod.fromString request.method ∈ options.methods)
    (hnames : ∀ name ∈ request.names, name.map toLower ∈ options.headers) :
    (corsHeaders (handler.generateCORSHeaders methodOrder headerOrder request.origin true)).Permits request ↔
      Grants options request := by
  obtain ⟨hmethods,hheaders⟩ := h.listed_generated htokens methodOrder headerOrder
  constructor
  · intro hpermits
    obtain ⟨methods,hlisted,hmember⟩ := hpermits.methods
    rw [generateCORSHeaders_eq,Option.elim_some,hmethods,Option.some.injEq] at hlisted
    subst hlisted
    have hkeys {name : Str} (hname : name ∈ (methodOrder handler.allowedMethods.keys).1) :
        ∃ method ∈ options.methods, name = method.tagName :=
      (h.mem_methods name).mp ((methodOrder _).2.mem_iff.mp hname)
    refine ⟨horigin,?_,hnames⟩
    rcases hmember with hmember | hmember | ⟨-,hmember⟩
    · exact hkeys hmember
    · exact ⟨_,hmethod,safelisted_method hmember rfl⟩
    · obtain ⟨method,-,hwildcard⟩ := hkeys hmember
      cases method <;> cases hwildcard
  · intro hgrants
    refine ⟨shared_generated ..,⟨_,hmethods,.inl ?_⟩,⟨_,hheaders,fun name hname => .inl ⟨name.map toLower,?_,?_⟩⟩⟩
    · exact (methodOrder _).2.mem_iff.mpr ((h.mem_methods _).mpr hgrants.method)
    · exact (headerOrder _).2.mem_iff.mpr ((h.mem_headers _).mpr (.inl (hnames name hname)))
    · exact sameLetters_lower name

end Answers

section Actual

variable {handler : CORSHangler} {headerOrder : IterationOrder Str} {origin : Str} {requestHeaders : Headers}

/-- Exposing names changes no header that the check of the browser reads. -/
theorem corsHeaders_expose (names : List Str) (headers : Headers) :
    corsHeaders (exposeHeaders names headers) = corsHeaders headers := by
  induction names generalizing headers with
  | nil => rfl
  | cons name names ih =>
    refine (ih _).trans ?_
    dsimp only
    split
    · rfl
    · simp only [corsHeaders,put,lookup_insert_eq]
      rfl

theorem shared_actual (credentials : Bool) :
    (corsHeaders (handler.handleActualRequest headerOrder origin requestHeaders).headers).Shared origin credentials ↔
      isAllowed handler.allowedOrigins origin = true ∧ Announced requestHeaders credentials := by
  have hnone : ¬(corsHeaders ∅).Shared origin credentials := by
    rintro ⟨allowed,hallowed,-⟩
    cases hallowed
  rw [CORSHangler.handleActualRequest]
  cases isAllowed handler.allowedOrigins origin with
  | false => simpa using hnone
  | true =>
    simp only [Bool.not_true,Bool.false_eq_true,if_false,true_and,corsHeaders_expose]
    rw [Announced]
    cases requestHeaders.lookup (text "Access-Control-Request-Credentials") with
    | none =>
      constructor
      · rintro ⟨allowed,hallowed,⟨hfalse,-⟩ | ⟨-,hcredentials⟩⟩
        · exact hfalse
        · cases credentials with
          | false => rfl
          | true => cases hcredentials rfl
      · rintro rfl
        exact ⟨origin,rfl,.inr ⟨rfl,fun h => by cases h⟩⟩
    | some creds =>
      have hletters : (creds.map toLower == text "true") = true ↔ SameLetters creds (text "true") := beq_iff_eq
      dsimp only
      by_cases hsame : SameLetters creds (text "true")
      · rw [if_pos (hletters.mpr hsame)]
        exact iff_of_true ⟨origin,rfl,.inr ⟨rfl,fun _ => rfl⟩⟩ hsame
      · rw [if_neg (mt hletters.mp hsame)]
        exact iff_of_false hnone hsame

end Actual

section Runs

variable {s : TracedManager} {methodOrder headerOrder : IterationOrder Str} {request : CorsRequest}

/-- The tables are those of the latest configuration, whose headers have names, and each kept
answer is for the origin of its key. -/
structure ExchangeInv (s : TracedManager) : Prop where
  unconfigured : s.latest = none → s.manager.corsHandler.allowedOrigins = ∅
  configured : ∀ options, s.latest = some options → Configured s.manager.corsHandler options
  tokens : ∀ options, s.latest = some options → ∀ name ∈ options.headers, IsToken name
  kept : ∀ key response, s.manager.corsHandler.preflightCache.lookup key = some response →
    response.allowOrigin = key.origin ∧ response.allowCredentials = true

/-- The configurations name headers. -/
def ExchangeCall.Legal : ExchangeCall → Prop
  | .configureCORS _ options => ∀ name ∈ options.headers, IsToken name
  | .preflight _ => True

theorem ExchangeInv.init (config : PolicyEngineConfig) : ExchangeInv (.init config) :=
  ⟨fun _ => rfl,fun _ h => (Option.some_ne_none _ h.symm).elim,fun _ h => (Option.some_ne_none _ h.symm).elim,
    fun _ _ h => (Option.some_ne_none _ h.symm).elim⟩

/-- What a request for permission leaves, and the origin of its answer. -/
theorem ExchangeInv.answered (h : ExchangeInv s) (wyhash : Str → UInt64) (methodOrder headerOrder : IterationOrder Str)
    (request : CORSPreflightRequest) :
    ExchangeInv ⟨{ s.manager with corsHandler :=
        (s.manager.corsHandler.handlePreflight wyhash methodOrder headerOrder request).2 },s.latest⟩ ∧
      ∀ response, (s.manager.corsHandler.handlePreflight wyhash methodOrder headerOrder request).1 = .ok response →
        response.allowOrigin = request.origin ∧ response.allowCredentials = true := by
  rw [CORSHangler.handlePreflight]
  cases hrefusal : s.manager.corsHandler.refusal request with
  | some e => exact ⟨h,fun _ hanswer => by cases hanswer⟩
  | none =>
    cases hcached : s.manager.corsHandler.preflightCache.lookup (createCacheKey wyhash request) with
    | some cached =>
      refine ⟨h,fun response hresponse => ?_⟩
      cases hresponse
      exact h.kept _ _ hcached
    | none =>
      refine ⟨⟨h.unconfigured,?_,h.tokens,?_⟩,fun response hresponse => ?_⟩
      · intro options hlatest
        obtain ⟨horigins,hmethods,hheaders⟩ := h.configured options hlatest
        exact ⟨horigins,hmethods,hheaders⟩
      · intro key response hlookup
        change (s.manager.corsHandler.preflightCache.insert _ _).lookup key = some response at hlookup
        rw [lookup_insert_eq] at hlookup
        split at hlookup
        · rename_i hkey
          cases hlookup
          rw [hkey]
          exact ⟨rfl,rfl⟩
        · exact h.kept key response hlookup
      · cases hresponse
        exact ⟨rfl,rfl⟩

theorem ExchangeInv.step (h : ExchangeInv s) {call : ExchangeCall} (hcall : call.Legal) :
    ExchangeInv (exchangeStep wyhash s call) := by
  cases call with
  | configureCORS origin options =>
    refine ⟨fun hlatest => (Option.some_ne_none _ hlatest).elim,?_,?_,h.kept⟩
    · intro options' hlatest
      cases hlatest
      exact ⟨rfl,rfl,rfl⟩
    · intro options' hlatest
      cases hlatest
      exact hcall
  | preflight call =>
    cases call with
    | handlePreflightRequest methodOrder headerOrder requestHeaders =>
      rw [exchangeStep,preflightStep,PolicyManager.handlePreflightRequest]
      cases extractPreflightRequest requestHeaders with
      | error e => exact h
      | ok request => exact (h.answered wyhash methodOrder headerOrder request).1
    | clearCaches =>
      refine ⟨h.unconfigured,?_,h.tokens,fun _ _ hlookup => (Option.some_ne_none _ hlookup.symm).elim⟩
      intro options hlatest
      obtain ⟨horigins,hmethods,hheaders⟩ := h.configured options hlatest
      exact ⟨horigins,hmethods,hheaders⟩

theorem ExchangeInv.allowed_iff (h : ExchangeInv s) (origin : Str) :
    isAllowed s.manager.corsHandler.allowedOrigins origin = true ↔
      ∃ options, s.latest = some options ∧ origin = options.origin ∧ options.origin ≠ [] := by
  cases hlatest : s.latest with
  | none => simp [h.unconfigured hlatest,isAllowed_empty]
  | some options => simpa using (h.configured options hlatest).origin_iff origin

theorem ExchangeInv.sendable_iff (h : ExchangeInv s) :
    Sendable wyhash s.manager methodOrder headerOrder request ↔
      ∃ options, s.latest = some options ∧ Grants options request := by
  obtain ⟨horigin,hmethod,-⟩ := lookup_preflightHeaders request
  have hextract : extractPreflightRequest (preflightHeaders request) = .ok (extracted request) := by
    rw [extractPreflightRequest,horigin,hmethod,requestedHeaders_asked]
    rfl
  have hanswer : s.manager.handlePreflightRequest wyhash methodOrder headerOrder (preflightHeaders request) =
      ((s.manager.corsHandler.handlePreflight wyhash methodOrder headerOrder (extracted request)).1,
        { s.manager with corsHandler :=
          (s.manager.corsHandler.handlePreflight wyhash methodOrder headerOrder (extracted request)).2 }) := by
    rw [PolicyManager.handlePreflightRequest,hextract]
  have hread := (h.answered wyhash methodOrder headerOrder (extracted request)).2
  rw [Sendable,hanswer]
  constructor
  · rintro ⟨-,response,m',hpair,hpermits⟩
    obtain ⟨hok,rfl⟩ := Prod.mk.inj hpair
    obtain ⟨hallow,hcredentials⟩ := hread response hok
    rw [hallow,hcredentials] at hpermits
    have hrefusal := (handlePreflight_ok_iff ..).mp ⟨response,hok⟩
    cases hlatest : s.latest with
    | none =>
      rw [CORSHangler.refusal,h.unconfigured hlatest] at hrefusal
      cases hrefusal
    | some options =>
      have hconfigured := h.configured options hlatest
      obtain ⟨horigin,hmethod,hnames⟩ := (hconfigured.refusal_iff _).mp hrefusal
      have hkept : Configured (s.manager.corsHandler.handlePreflight wyhash methodOrder headerOrder (extracted request)).2
        options := hconfigured.handlePreflight methodOrder headerOrder (extracted request)
      exact ⟨options,rfl,(hkept.permits_iff (h.tokens options hlatest) horigin hmethod
        ((asked_allowed_iff options request).mp hnames)).mp hpermits⟩
  · rintro ⟨options,hlatest,hgrants⟩
    have hconfigured := h.configured options hlatest
    obtain ⟨method,hmem,hname⟩ := hgrants.method
    have hfrom : CORSMethod.fromString request.method ∈ options.methods := by
      rw [hname,fromString_tagName]
      exact hmem
    have hnames := (asked_allowed_iff options request).mpr hgrants.names
    have hrefusal := (hconfigured.refusal_iff (extracted request)).mpr ⟨hgrants.origin,hfrom,hnames⟩
    obtain ⟨response,hok⟩ : ∃ response, (s.manager.corsHandler.handlePreflight wyhash methodOrder headerOrder
        (extracted request)).1 = .ok response := (handlePreflight_ok_iff ..).mpr hrefusal
    obtain ⟨hallow,hcredentials⟩ := hread response hok
    have hkept : Configured (s.manager.corsHandler.handlePreflight wyhash methodOrder headerOrder (extracted request)).2
      options := hconfigured.handlePreflight methodOrder headerOrder (extracted request)
    refine ⟨isPreflightRequest_asked request,response,_,Prod.ext hok rfl,?_⟩
    rw [hallow,hcredentials]
    exact (hkept.permits_iff (h.tokens options hlatest) hgrants.origin hfrom hgrants.names).mpr hgrants

variable (wyhash)

/-- After any calls a browser may send a request exactly if the latest configuration grants
it, and may read the answer exactly if the origin is the configured one and the request says
whether it comes with credentials. -/
theorem cors_exchange (config : PolicyEngineConfig) (calls : List ExchangeCall) (hlegal : ∀ call ∈ calls, call.Legal)
    (methodOrder headerOrder : IterationOrder Str) (request : CorsRequest) :
    (Sendable wyhash (run (exchangeStep wyhash) (.init config) calls).manager methodOrder headerOrder request ↔
      ∃ options, (run (exchangeStep wyhash) (.init config) calls).latest = some options ∧ Grants options request) ∧
    ∀ requestHeaders, (corsHeaders ((run (exchangeStep wyhash) (.init config) calls).manager.corsHandler.handleActualRequest
        headerOrder request.origin requestHeaders).headers).Shared request.origin request.credentials ↔
      (∃ options, (run (exchangeStep wyhash) (.init config) calls).latest = some options ∧
        request.origin = options.origin ∧ options.origin ≠ []) ∧ Announced requestHeaders request.credentials := by
  have hinv : ExchangeInv (run (exchangeStep wyhash) (.init config) calls) :=
    run_inv_of_legal (fun _ _ h hcall => h.step hcall) (.init config) hlegal
  refine ⟨hinv.sendable_iff,fun requestHeaders => ?_⟩
  rw [shared_actual,hinv.allowed_iff]

end Runs

end Exchange

def putOptions : CORSOptions := ⟨[.put],[text "x-a"],[]⟩

theorem token_name : ∀ name ∈ [text "x-a"], IsToken name := by
  intro name hname
  rw [List.mem_singleton.mp hname]
  exact ⟨by decide,rfl⟩

/-- A request with credentials. -/
def putRequest : CorsRequest := ⟨text "https://a",text "PUT",[text "x-a"],true,⟨by decide,rfl⟩,token_name⟩

/-- A request that was allowed with credentials is sent, and its answer may not be read. -/
theorem cors_exchange_withheld :
    Sendable (fun _ => 0) (PolicyManager.configureCORS (.init {}) (text "https://a") putOptions) inOrder inOrder putRequest ∧
    ¬(corsHeaders ((PolicyManager.configureCORS (.init {}) (text "https://a") putOptions).corsHandler.handleActualRequest
      inOrder putRequest.origin ∅).headers).Shared putRequest.origin putRequest.credentials := by
  have hlegal : ∀ call ∈ [ExchangeCall.configureCORS (text "https://a") putOptions], call.Legal := by
    intro call hcall
    rw [List.mem_singleton.mp hcall]
    exact token_name
  obtain ⟨hsendable,hshared⟩ := cors_exchange (fun _ => 0) {} _ hlegal inOrder inOrder putRequest
  constructor
  · refine hsendable.mpr ⟨_,rfl,⟨rfl,by decide⟩,⟨.put,List.mem_singleton_self _,rfl⟩,?_⟩
    intro name hname
    rw [List.mem_singleton.mp hname]
    exact List.mem_singleton_self _
  · intro h
    have hannounced := ((hshared ∅).mp h).2
    cases hannounced

end ZNet.Policy
