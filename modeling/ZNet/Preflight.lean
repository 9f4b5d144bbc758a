import ZNet.PolicyManager

/-!
# Preflight requests

The method of a preflight request is turned into one of nine before it is looked up. Every
unknown token becomes `GET`.
-/

namespace ZNet.Policy
open TextScan Tables Runs

/-- What happens to the manager after its configuration. -/
inductive PreflightCall
  | handlePreflightRequest (methodOrder headerOrder : IterationOrder Str) (requestHeaders : Headers)
  | clearCaches

def preflightStep (wyhash : Str → UInt64) (m : PolicyManager) : PreflightCall → PolicyManager
  | .handlePreflightRequest methodOrder headerOrder requestHeaders =>
    (m.handlePreflightRequest wyhash methodOrder headerOrder requestHeaders).2
  | .clearCaches => m.clearCaches

/-- The token is the name of the method, in capitals or not. -/
def CORSMethod.Named (method : CORSMethod) (token : Str) : Prop := SameLetters token method.tagName

/-- The headers ask for a method, from the origin and with headers that the options allow. -/
structure Approved (options : CORSOptions) (headers : Headers) : Prop where
  method : ∃ token, headers.lookup (text "Access-Control-Request-Method") = some token ∧
    ∃ method ∈ options.methods, method.Named token
  origin : headers.lookup (text "Origin") = some options.origin
  requested : ∀ name ∈ requestedHeaders headers, options.Header name

/-- An unknown method passes for `GET`, and nothing else is against it. -/
structure PassesForGet (options : CORSOptions) (headers : Headers) : Prop where
  unknown : ∃ token, headers.lookup (text "Access-Control-Request-Method") = some token ∧
    ∀ method : CORSMethod, ¬method.Named token
  get : .get ∈ options.methods
  origin : headers.lookup (text "Origin") = some options.origin ∧ options.origin ≠ []
  requested : ∀ name ∈ requestedHeaders headers, options.Header name

/-- The tables are those of the options. -/
structure Configured (handler : CORSHangler) (options : CORSOptions) : Prop where
  origins : handler.allowedOrigins = (handler.configure options).allowedOrigins
  methods : handler.allowedMethods = (handler.configure options).allowedMethods
  headers : handler.allowedHeaders = (handler.configure options).allowedHeaders

section Methods

variable {token : Str} {method : CORSMethod}

theorem named_iff : method.Named token ↔ token.map toUpper = method.tagName := by
  have hupper : method.tagName.map toUpper = method.tagName := by cases method <;> decide
  constructor
  · intro h
    rw [SameLetters.upper_eq h,hupper]
  · intro h
    rw [CORSMethod.Named,← h]
    exact (sameLetters_upper token).symm

theorem fromString_named (h : method.Named token) : CORSMethod.fromString token = method := by
  have hupper : method.tagName.map toUpper = method.tagName := by cases method <;> decide
  rw [← fromString_tagName method,CORSMethod.fromString,CORSMethod.fromString,named_iff.mp h,hupper]

theorem fromString_unknown (h : ∀ method : CORSMethod, ¬method.Named token) : CORSMethod.fromString token = .get := by
  have hnone : (corsMethods.find? fun m => m.tagName == token.map toUpper) = none := by
    rw [List.find?_eq_none]
    intro m _ hm
    exact h m (named_iff.mpr (beq_iff_eq.mp hm).symm)
  rw [CORSMethod.fromString,hnone]
  rfl

end Methods

section Permission

variable {handler : CORSHangler} {options : CORSOptions} {wyhash : Str → UInt64}

theorem isAllowed_empty (name : Str) : isAllowed ∅ name = false := rfl

theorem isAllowed_putAll (names : List Str) (m : Table Str Bool) (name : Str) :
    isAllowed (putAll names m) name = true ↔ name ∈ names ∨ isAllowed m name = true := by
  induction names generalizing m with
  | nil => simp [putAll]
  | cons first names ih =>
    have hinsert : isAllowed (m.insert first true) name = true ↔ name = first ∨ isAllowed m name = true := by
      rw [isAllowed,isAllowed,lookup_insert_eq]
      split <;> simp [*]
    rw [List.mem_cons,or_assoc,or_left_comm,← hinsert]
    exact ih (m.insert first true)

theorem Configured.origin_iff (h : Configured handler options) (origin : Str) :
    isAllowed handler.allowedOrigins origin = true ↔ origin = options.origin ∧ options.origin ≠ [] := by
  rw [h.origins,CORSHangler.configure]
  cases options.origin with
  | nil => simp [isAllowed_empty]
  | cons b rest =>
    rw [List.isEmpty_cons,if_neg Bool.false_ne_true,isAllowed,lookup_insert_eq]
    split <;> simp [*]

theorem Configured.method_iff (h : Configured handler options) (method : CORSMethod) :
    isAllowed handler.allowedMethods method.tagName = true ↔ method ∈ options.methods := by
  rw [h.methods,CORSHangler.configure,isAllowed_putAll,isAllowed_empty,List.mem_map]
  constructor
  · rintro (⟨other,hmem,htag⟩ | hfalse)
    · rwa [← fromString_tagName method,← htag,fromString_tagName]
    · cases hfalse
  · exact fun hmem => Or.inl ⟨method,hmem,rfl⟩

theorem Configured.header_iff (h : Configured handler options) (name : Str) :
    isAllowed handler.allowedHeaders name = true ↔ options.Header name := by
  rw [h.headers,CORSHangler.configure,isAllowed_putAll,isAllowed_putAll,isAllowed_empty,CORSOptions.Header]
  simp [or_comm]

/-- A request is permitted exactly if its origin, its method and its headers are. -/
theorem Configured.refusal_iff (h : Configured handler options) (request : CORSPreflightRequest) :
    handler.refusal request = none ↔ (request.origin = options.origin ∧ options.origin ≠ []) ∧
      request.method ∈ options.methods ∧ ∀ name ∈ request.headers, options.Header name := by
  rw [← h.origin_iff,← h.method_iff,CORSHangler.refusal]
  simp only [← h.header_iff]
  cases isAllowed handler.allowedOrigins request.origin with
  | false => simp
  | true =>
    cases isAllowed handler.allowedMethods request.method.tagName with
    | false => simp
    | true => simp

theorem handlePreflight_ok_iff (methodOrder headerOrder : IterationOrder Str) (request : CORSPreflightRequest) :
    (∃ response, (handler.handlePreflight wyhash methodOrder headerOrder request).1 = .ok response) ↔
      handler.refusal request = none := by
  rw [CORSHangler.handlePreflight]
  cases handler.refusal request with
  | some e => simp
  | none =>
    cases handler.preflightCache.lookup (createCacheKey wyhash request) with
    | some cached => simp
    | none => simp

/-- Answering a request leaves the tables as they are. -/
theorem Configured.handlePreflight (h : Configured handler options) (methodOrder headerOrder : IterationOrder Str)
    (request : CORSPreflightRequest) :
    Configured (handler.handlePreflight wyhash methodOrder headerOrder request).2 options := by
  rw [CORSHangler.handlePreflight]
  cases handler.refusal request with
  | some e => exact h
  | none =>
    cases handler.preflightCache.lookup (createCacheKey wyhash request) with
    | some cached => exact h
    | none => exact ⟨h.origins,h.methods,h.headers⟩

end Permission

section Requests

variable {m : PolicyManager} {options : CORSOptions} {headers : Headers} {wyhash : Str → UInt64}

theorem Configured.step (h : Configured m.corsHandler options) (call : PreflightCall) :
    Configured (preflightStep wyhash m call).corsHandler options := by
  cases call with
  | handlePreflightRequest methodOrder headerOrder requestHeaders =>
    rw [preflightStep,PolicyManager.handlePreflightRequest]
    cases extractPreflightRequest requestHeaders with
    | error e => exact h
    | ok request => exact h.handlePreflight methodOrder headerOrder request
  | clearCaches => exact ⟨h.origins,h.methods,h.headers⟩

theorem extractPreflightRequest_ok {request : CORSPreflightRequest} :
    extractPreflightRequest headers = .ok request ↔ ∃ token,
      headers.lookup (text "Access-Control-Request-Method") = some token ∧
      headers.lookup (text "Origin") = some request.origin ∧
      request = ⟨request.origin,.fromString token,requestedHeaders headers⟩ := by
  rw [extractPreflightRequest]
  constructor
  · intro h
    split at h
    · rename_i origin token horigin htoken
      cases h
      exact ⟨token,htoken,horigin,rfl⟩
    · cases h
  · rintro ⟨token,htoken,horigin,hrequest⟩
    rw [htoken,horigin]
    exact congrArg Except.ok hrequest.symm

/-- What a request has to ask for to succeed. -/
theorem handlePreflightRequest_ok_iff (h : Configured m.corsHandler options)
    (methodOrder headerOrder : IterationOrder Str) :
    (∃ response, (m.handlePreflightRequest wyhash methodOrder headerOrder headers).1 = .ok response) ↔
      ∃ token, headers.lookup (text "Access-Control-Request-Method") = some token ∧
        CORSMethod.fromString token ∈ options.methods ∧
        (headers.lookup (text "Origin") = some options.origin ∧ options.origin ≠ []) ∧
        ∀ name ∈ requestedHeaders headers, options.Header name := by
  rw [PolicyManager.handlePreflightRequest]
  cases hextract : extractPreflightRequest headers with
  | error e =>
    refine iff_of_false (by simp) ?_
    rintro ⟨token,htoken,-,⟨horigin,-⟩,-⟩
    rw [extractPreflightRequest,htoken,horigin] at hextract
    cases hextract
  | ok request =>
    obtain ⟨token,htoken,horigin,hrequest⟩ := extractPreflightRequest_ok.mp hextract
    refine (handlePreflight_ok_iff ..).trans ((h.refusal_iff request).trans ?_)
    rw [hrequest]
    simp only [htoken,horigin,Option.some.injEq,exists_eq_left']
    tauto

variable (wyhash)

/-- The request succeeds only if it asks for what the options allow. -/
def ApprovesAsked (m : PolicyManager) (options : CORSOptions) (headers : Headers) : Prop :=
  ∀ methodOrder headerOrder response,
    (m.handlePreflightRequest wyhash methodOrder headerOrder headers).1 = .ok response → Approved options headers

theorem approvesAsked_iff (h : Configured m.corsHandler options) :
    ApprovesAsked wyhash m options headers ↔ ¬PassesForGet options headers := by
  constructor
  · intro happroves hpasses
    obtain ⟨token,htoken,hunknown⟩ := hpasses.unknown
    have hget : CORSMethod.fromString token ∈ options.methods := by
      rw [fromString_unknown hunknown]
      exact hpasses.get
    obtain ⟨response,hok⟩ := (handlePreflightRequest_ok_iff h inOrder inOrder).mpr
      ⟨token,htoken,hget,hpasses.origin,hpasses.requested⟩
    obtain ⟨token',htoken',method,-,hnamed⟩ := (happroves inOrder inOrder response hok).method
    rw [htoken,Option.some.injEq] at htoken'
    exact hunknown method (htoken'.symm ▸ hnamed)
  · intro hpasses methodOrder headerOrder response hok
    obtain ⟨token,htoken,hmethod,horigin,hrequested⟩ :=
      (handlePreflightRequest_ok_iff h methodOrder headerOrder).mp ⟨response,hok⟩
    refine ⟨⟨token,htoken,?_⟩,horigin.1,hrequested⟩
    by_cases hnamed : ∃ method : CORSMethod, method.Named token
    · obtain ⟨method,hnamed⟩ := hnamed
      rw [fromString_named hnamed] at hmethod
      exact ⟨method,hmethod,hnamed⟩
    · have hunknown : ∀ method : CORSMethod, ¬method.Named token := not_exists.mp hnamed
      rw [fromString_unknown hunknown] at hmethod
      exact (hpasses ⟨⟨token,htoken,hunknown⟩,hmethod,horigin,hrequested⟩).elim

/-- After any calls on a configured manager, what succeeds is what was allowed exactly if no
unknown method passes for an allowed `GET`. -/
theorem preflight_approves_iff (m : PolicyManager) (origin : Str) (options : CORSOptions)
    (calls : List PreflightCall) (headers : Headers) :
    ApprovesAsked wyhash (run (preflightStep wyhash) (m.configureCORS origin options) calls)
      { options with origin := origin } headers ↔
      ¬PassesForGet { options with origin := origin } headers := by
  have hconfigured : Configured (m.configureCORS origin options).corsHandler { options with origin := origin } :=
    ⟨rfl,rfl,rfl⟩
  have hkept : ∀ (m : PolicyManager) call, Configured m.corsHandler { options with origin := origin } →
      Configured (preflightStep wyhash m call).corsHandler { options with origin := origin } :=
    fun _ call h => h.step call
  exact approvesAsked_iff wyhash (run_inv hkept hconfigured calls)

end Requests

def purgeHeaders : Headers :=
  put "Access-Control-Request-Method" (text "PURGE") (put "Origin" (text "https://a") ∅)

/-- Where `GET` is allowed, so is `PURGE`. -/
theorem unknown_approved : ¬∀ (wyhash : Str → UInt64) (m : PolicyManager) (origin : Str) (options : CORSOptions)
    (calls : List PreflightCall) (headers : Headers),
    ApprovesAsked wyhash (run (preflightStep wyhash) (m.configureCORS origin options) calls)
      { options with origin := origin } headers := by
  intro h
  have happroves := h (fun _ => 0) (.init {}) (text "https://a") (siteOptions [.get]) [] purgeHeaders inOrder inOrder
    _ rfl
  obtain ⟨token,htoken,method,hmem,hnamed⟩ := happroves.method
  have hpurge : purgeHeaders.lookup (text "Access-Control-Request-Method") = some (text "PURGE") := by decide
  rw [hpurge,Option.some.injEq] at htoken
  rw [List.mem_singleton.mp hmem,← htoken,named_iff] at hnamed
  revert hnamed
  decide

end ZNet.Policy
