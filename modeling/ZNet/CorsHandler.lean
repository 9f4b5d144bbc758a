import ZNet.PolicyEngine
import ZNet.Runs

/-!
# Preflight answers

An answer to a preflight request is kept in a cache behind the permission checks. The cache
is not part of the configuration, so an answer can be older than the configuration.
-/

namespace ZNet.Policy
open TextScan Tables Runs

inductive CORSMethod
  | get | post | put | delete | patch | options | head | connect | trace
deriving DecidableEq

def CORSMethod.tagName : CORSMethod → Str
  | .get => text "GET"
  | .post => text "POST"
  | .put => text "PUT"
  | .delete => text "DELETE"
  | .patch => text "PATCH"
  | .options => text "OPTIONS"
  | .head => text "HEAD"
  | .connect => text "CONNECT"
  | .trace => text "TRACE"

def corsMethods : List CORSMethod := [.get,.post,.put,.delete,.patch,.options,.head,.connect,.trace]

def CORSMethod.fromString (method : Str) : CORSMethod :=
  (corsMethods.find? fun m => m.tagName == method.map toUpper).getD .get

structure CORSOptions where
  methods : List CORSMethod
  headers : List Str
  origin : Str

structure CORSPreflightRequest where
  origin : Str
  method : CORSMethod
  headers : List Str

structure CORSPreflightResponse where
  allowOrigin : Str
  allowMethods : List CORSMethod
  allowHeaders : List Str
  allowCredentials : Bool
  maxAge : ℤ
  vary : Option Str

inductive CORSError
  | preflightFailed | originMismatch | methodNotAllowed | headerNotAllowed
deriving DecidableEq

structure PreflightCacheKey where
  origin : Str
  method : Str
  headersHash : UInt64
deriving DecidableEq

structure CORSHangler where
  preflightCache : Table PreflightCacheKey CORSPreflightResponse
  allowedOrigins : Table Str Bool
  allowedMethods : Table Str Bool
  allowedHeaders : Table Str Bool

def CORSHangler.init : CORSHangler := ⟨∅,∅,∅,∅⟩

/-- The names are put into the table one after the other. -/
def putAll (names : List Str) (m : Table Str Bool) : Table Str Bool := names.foldl (fun m name => m.insert name true) m

def defaultHeaders : List Str :=
  [text "Accept",text "Accept-Language",text "Content-Language",text "Content-Type",text "Range"]

def CORSHangler.configure (self : CORSHangler) (options : CORSOptions) : CORSHangler where
  preflightCache := self.preflightCache
  allowedOrigins := if options.origin.isEmpty then ∅ else AList.insert options.origin true ∅
  allowedMethods := putAll (options.methods.map CORSMethod.tagName) ∅
  allowedHeaders := putAll defaultHeaders (putAll options.headers ∅)

def CORSHangler.cacheResponse (self : CORSHangler) (key : PreflightCacheKey) (response : CORSPreflightResponse) :
    CORSHangler :=
  { self with preflightCache := self.preflightCache.insert key response }

def CORSHangler.clearCache (self : CORSHangler) : CORSHangler := { self with preflightCache := ∅ }

/-- The parts between the commas of the requested headers, without white space. -/
def requestedHeaders (headers : Headers) : List Str :=
  match headers.lookup (text "Access-Control-Request-Headers") with
  | some headersStr => (headersStr.splitOnP (· == 0x2c)).map (trim (ascii [' ','\t','\r','\n']))
  | none => []

/-- The origin and the method have to be there. -/
def extractPreflightRequest (headers : Headers) : Except CORSError CORSPreflightRequest :=
  match headers.lookup (text "Origin"),headers.lookup (text "Access-Control-Request-Method") with
  | some origin,some requestMethod => .ok ⟨origin,.fromString requestMethod,requestedHeaders headers⟩
  | _,_ => .error .preflightFailed

/-- The value for the name, which is false if there is none. -/
def isAllowed (m : Table Str Bool) (name : Str) : Bool := (m.lookup name).getD false

/-- The first of the three checks that fails. -/
def CORSHangler.refusal (self : CORSHangler) (request : CORSPreflightRequest) : Option CORSError :=
  if !isAllowed self.allowedOrigins request.origin then some .originMismatch
  else if !isAllowed self.allowedMethods request.method.tagName then some .methodNotAllowed
  else if request.headers.any fun header => !isAllowed self.allowedHeaders header then some .headerNotAllowed
  else none

section Hash

variable (wyhash : Str → UInt64)

/-- Lists of headers are compared by the hash of their names with commas between. -/
def createCacheKey (request : CORSPreflightRequest) : PreflightCacheKey :=
  ⟨request.origin,request.method.tagName,wyhash ((text ",").intercalate request.headers)⟩

/-- The orders are those of the iterations over the allowed methods and headers. -/
def CORSHangler.response (self : CORSHangler) (methodOrder headerOrder : IterationOrder Str) (origin : Str) :
    CORSPreflightResponse where
  allowOrigin := origin
  allowMethods := (methodOrder self.allowedMethods.keys).1.map CORSMethod.fromString
  allowHeaders := (headerOrder self.allowedHeaders.keys).1
  allowCredentials := true
  maxAge := 86400
  vary := some (text "Origin")

def CORSHangler.handlePreflight (self : CORSHangler) (methodOrder headerOrder : IterationOrder Str)
    (request : CORSPreflightRequest) : Except CORSError CORSPreflightResponse×CORSHangler :=
  match self.refusal request with
  | some e => (.error e,self)
  | none =>
    match self.preflightCache.lookup (createCacheKey wyhash request) with
    | some cached => (.ok cached,self)
    | none =>
      let response := self.response methodOrder headerOrder request.origin
      (.ok response,self.cacheResponse (createCacheKey wyhash request) response)

inductive CORSCall
  | configure (options : CORSOptions)
  | clearCache
  | handlePreflight (methodOrder headerOrder : IterationOrder Str) (request : CORSPreflightRequest)

/-- A handler with the options of the latest `configure`, and those under which the kept
answers were made. -/
structure TracedHandler where
  handler : CORSHangler
  latest : Option CORSOptions
  madeUnder : Table PreflightCacheKey CORSOptions

def TracedHandler.init : TracedHandler := ⟨.init,none,∅⟩

/-- The options of the latest call are noted for the first permitted request with a key. -/
def note (s : TracedHandler) (request : CORSPreflightRequest) : Table PreflightCacheKey CORSOptions :=
  match s.handler.refusal request,s.madeUnder.lookup (createCacheKey wyhash request),s.latest with
  | none,none,some options => s.madeUnder.insert (createCacheKey wyhash request) options
  | _,_,_ => s.madeUnder

def corsStep (s : TracedHandler) : CORSCall → TracedHandler
  | .configure options => ⟨s.handler.configure options,some options,s.madeUnder⟩
  | .clearCache => ⟨s.handler.clearCache,s.latest,∅⟩
  | .handlePreflight methodOrder headerOrder request =>
    ⟨(s.handler.handlePreflight wyhash methodOrder headerOrder request).2,s.latest,note wyhash s request⟩

/-- The headers that a configuration allows. -/
def CORSOptions.Header (options : CORSOptions) (header : Str) : Prop :=
  header ∈ options.headers ∨ header ∈ defaultHeaders

/-- The response has exactly the methods and headers of the options. -/
structure Lists (response : CORSPreflightResponse) (options : CORSOptions) : Prop where
  methods : ∀ m, m ∈ response.allowMethods ↔ m ∈ options.methods
  headers : ∀ h, h ∈ response.allowHeaders ↔ options.Header h

/-- The two configurations allow the same methods and headers. -/
structure SameAllowed (options options' : CORSOptions) : Prop where
  methods : ∀ m, m ∈ options.methods ↔ m ∈ options'.methods
  headers : ∀ h, options.Header h ↔ options'.Header h

/-- A successful answer has what the latest configuration allows. -/
def Current (s : TracedHandler) : CORSCall → Prop
  | .handlePreflight methodOrder headerOrder request =>
    ∀ response, (s.handler.handlePreflight wyhash methodOrder headerOrder request).1 = .ok response →
      ∃ options, s.latest = some options ∧ Lists response options
  | _ => True

/-- A permitted request that was answered since the cache was cleared was answered under a
configuration with the same methods and headers. -/
def Unchanged (s : TracedHandler) : CORSCall → Prop
  | .handlePreflight _ _ request =>
    s.handler.refusal request = none → ∀ options options', s.latest = some options →
      s.madeUnder.lookup (createCacheKey wyhash request) = some options' → SameAllowed options' options
  | _ => True

variable {wyhash}

theorem fromString_tagName (m : CORSMethod) : CORSMethod.fromString m.tagName = m := by
  cases m <;> decide

theorem mem_putAll (names : List Str) (m : Table Str Bool) (name : Str) :
    name ∈ (putAll names m).keys ↔ name ∈ names ∨ name ∈ m.keys := by
  induction names generalizing m with
  | nil => simp [putAll]
  | cons first names ih =>
    have hinsert : name ∈ (m.insert first true).keys ↔ name = first ∨ name ∈ m.keys := by
      rw [← AList.mem_keys,AList.mem_insert,AList.mem_keys]
    have hrest := ih (m.insert first true)
    rw [hinsert] at hrest
    rw [List.mem_cons]
    exact hrest.trans (by tauto)

/-- The response of a configured handler. -/
theorem lists_response {handler : CORSHangler} {options : CORSOptions}
    (hmethods : handler.allowedMethods = (handler.configure options).allowedMethods)
    (hheaders : handler.allowedHeaders = (handler.configure options).allowedHeaders)
    (methodOrder headerOrder : IterationOrder Str) (origin : Str) :
    Lists (handler.response methodOrder headerOrder origin) options := by
  constructor
  · intro m
    rw [CORSHangler.response,hmethods,List.mem_map]
    simp only [(methodOrder _).2.mem_iff,CORSHangler.configure,mem_putAll,AList.keys_empty,List.not_mem_nil,or_false]
    constructor
    · rintro ⟨name,hname,rfl⟩
      obtain ⟨m,hm,rfl⟩ := List.mem_map.mp hname
      rwa [fromString_tagName]
    · intro hm
      exact ⟨m.tagName,List.mem_map_of_mem hm,fromString_tagName m⟩
  · intro h
    rw [CORSHangler.response,hheaders,(headerOrder _).2.mem_iff,CORSHangler.configure,mem_putAll,mem_putAll,
      AList.keys_empty,CORSOptions.Header]
    simp only [List.not_mem_nil,or_false]
    exact or_comm

/-- A response lists what another configuration allows exactly if both allow the same. -/
theorem Lists.iff {response : CORSPreflightResponse} {options options' : CORSOptions} (h : Lists response options') :
    Lists response options ↔ SameAllowed options' options := by
  constructor
  · intro h'
    exact ⟨fun m => (h.methods m).symm.trans (h'.methods m),fun k => (h.headers k).symm.trans (h'.headers k)⟩
  · intro hsame
    exact ⟨fun m => (h.methods m).trans (hsame.methods m),fun k => (h.headers k).trans (hsame.headers k)⟩

/-- The tables are those of the latest configuration, and each kept answer lists what was
allowed when it was made. -/
structure HandlerInv (s : TracedHandler) : Prop where
  unconfigured : s.latest = none → s.handler.allowedOrigins = ∅
  methods : ∀ options, s.latest = some options →
    s.handler.allowedMethods = (s.handler.configure options).allowedMethods
  headers : ∀ options, s.latest = some options →
    s.handler.allowedHeaders = (s.handler.configure options).allowedHeaders
  kept : ∀ key, Option.Rel Lists (s.handler.preflightCache.lookup key) (s.madeUnder.lookup key)

/-- Only a configured handler permits a request. -/
theorem HandlerInv.configured {s : TracedHandler} (h : HandlerInv s) {request : CORSPreflightRequest}
    (hpermit : s.handler.refusal request = none) : ∃ options, s.latest = some options := by
  cases hlatest : s.latest with
  | some options => exact ⟨options,rfl⟩
  | none =>
    rw [CORSHangler.refusal,isAllowed,h.unconfigured hlatest,AList.lookup_empty] at hpermit
    cases hpermit

theorem HandlerInv.init : HandlerInv .init where
  unconfigured _ := rfl
  methods _ h := by cases h
  headers _ h := by cases h
  kept _ := .none

theorem HandlerInv.step {s : TracedHandler} (h : HandlerInv s) (call : CORSCall) :
    HandlerInv (corsStep wyhash s call) := by
  cases call with
  | configure options =>
    refine ⟨fun hnone => (by cases hnone),?_,?_,h.kept⟩
    · rintro options' hsome
      cases hsome
      rfl
    · rintro options' hsome
      cases hsome
      rfl
  | clearCache => exact ⟨h.unconfigured,h.methods,h.headers,fun key => .none⟩
  | handlePreflight methodOrder headerOrder request =>
    have hkept := h.kept (createCacheKey wyhash request)
    cases hpermit : s.handler.refusal request with
    | some e =>
      have hstep : corsStep wyhash s (.handlePreflight methodOrder headerOrder request) = s := by
        rw [corsStep,CORSHangler.handlePreflight,note,hpermit]
      rwa [hstep]
    | none =>
      obtain ⟨options,hlatest⟩ := h.configured hpermit
      cases hcached : s.handler.preflightCache.lookup (createCacheKey wyhash request) with
      | some response =>
        rw [hcached] at hkept
        obtain ⟨options',hmade,-⟩ := exists_of_rel_left hkept
        have hstep : corsStep wyhash s (.handlePreflight methodOrder headerOrder request) = s := by
          rw [corsStep,CORSHangler.handlePreflight,note,hpermit,hcached,hmade]
        rwa [hstep]
      | none =>
        rw [hcached] at hkept
        have hmade := none_of_rel_none hkept
        have hstep : corsStep wyhash s (.handlePreflight methodOrder headerOrder request) =
            ⟨s.handler.cacheResponse (createCacheKey wyhash request)
                (s.handler.response methodOrder headerOrder request.origin),s.latest,
              s.madeUnder.insert (createCacheKey wyhash request) options⟩ := by
          rw [corsStep,CORSHangler.handlePreflight,note,hpermit,hcached,hmade,hlatest]
        rw [hstep]
        refine ⟨h.unconfigured,h.methods,h.headers,fun key => ?_⟩
        rw [CORSHangler.cacheResponse,lookup_insert_eq,lookup_insert_eq]
        split
        · exact .some (lists_response (h.methods options hlatest) (h.headers options hlatest) ..)
        · exact h.kept key

theorem current_iff {s : TracedHandler} (h : HandlerInv s) (call : CORSCall) :
    Current wyhash s call ↔ Unchanged wyhash s call := by
  cases call with
  | configure options => exact Iff.rfl
  | clearCache => exact Iff.rfl
  | handlePreflight methodOrder headerOrder request =>
    have hkept := h.kept (createCacheKey wyhash request)
    rw [Current,Unchanged,CORSHangler.handlePreflight]
    cases hpermit : s.handler.refusal request with
    | some e => simp
    | none =>
      obtain ⟨options,hlatest⟩ := h.configured hpermit
      cases hcached : s.handler.preflightCache.lookup (createCacheKey wyhash request) with
      | some response =>
        rw [hcached] at hkept
        obtain ⟨options',hmade,hlists⟩ := exists_of_rel_left hkept
        simp [hlatest,hmade,hlists.iff]
      | none =>
        rw [hcached] at hkept
        have hmade := none_of_rel_none hkept
        have hlists := lists_response (h.methods options hlatest) (h.headers options hlatest) methodOrder headerOrder
          request.origin
        simp [hlatest,hmade,hlists]

variable (wyhash)

/-- Every answer is up to date exactly if no answer is asked for again after the allowed
methods or headers have changed, unless the cache was cleared. -/
theorem answers_current_iff (calls : List CORSCall) :
    Along (corsStep wyhash) (Current wyhash) .init calls ↔ Along (corsStep wyhash) (Unchanged wyhash) .init calls :=
  along_iff (I:=HandlerInv) (fun _ call h _ => h.step call) (fun _ call h => current_iff h call) .init

end Hash

/-- The iteration in the order of the keys. -/
def inOrder : IterationOrder Str := fun keys => ⟨keys,List.Perm.refl _⟩

def siteOptions (methods : List CORSMethod) : CORSOptions := ⟨methods,[],text "https://a"⟩

def getRequest : CORSPreflightRequest := ⟨text "https://a",.get,[]⟩

/-- The method `PUT` is still listed after it was taken out of the configuration. -/
theorem answers_stale : ¬∀ (wyhash : Str → UInt64) (calls : List CORSCall),
    Along (corsStep wyhash) (Current wyhash) .init calls := by
  intro h
  have hrun := h (fun _ => 0)
    [.configure (siteOptions [.get,.put]),.handlePreflight inOrder inOrder getRequest,
      .configure (siteOptions [.get]),.handlePreflight inOrder inOrder getRequest]
  obtain ⟨options,hlatest,hlists⟩ := hrun.2.2.2.1 _ rfl
  cases hlatest
  have hput := (hlists.methods .put).mp (by decide)
  revert hput
  decide

end ZNet.Policy
