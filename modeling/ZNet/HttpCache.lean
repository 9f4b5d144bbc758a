import ZNet.Cache

/-!
# The cache of HTTP responses

A response is stored under its URL as the value of a cache entry. The reader looks for a
variant of the URL first, in an index that starts empty.
-/

namespace ZNet.Caching
open ByteOrder Tables TextScan

/-- The headers of a request. -/
abbrev RequestHeaders := Table Str Str

structure HttpCacheEntry where
  url : Str
  statusCode : ℕ
  headers : List HttpHeader
  body : Str
  metadata : CacheMetadata
  createdAt : ℤ
  expiresAt : ℤ
  etag : Option Str
  lastModified : Option Str

structure HttpCache where
  cache : Cache
  varyCache : Table Str Str

/-- Names of headers. -/
def headerCacheControl : Str := ascii "Cache-Control".toList

def headerExpires : Str := ascii "Expires".toList

def headerContentType : Str := ascii "Content-Type".toList

def headerContentEncoding : Str := ascii "Content-Encoding".toList

def headerETag : Str := ascii "ETag".toList

def headerLastModified : Str := ascii "Last-Modified".toList

def headerVary : Str := ascii "Vary".toList

def headerIfNoneMatch : Str := ascii "If-None-Match".toList

section Responses

/-- The lifetime that is calculated from the headers so far, and if the response can be stored. -/
structure CacheControl where
  calculatedTtl : UInt32
  canCache : Bool
deriving DecidableEq

def CacheControl.apply (config : CacheConfig) (self : CacheControl) (header : HttpHeader) : CacheControl :=
  if header.name = headerCacheControl then
    if (indexOf (ascii "no-store".toList) header.value).isSome then { self with canCache := false }
    else if (indexOf (ascii "no-cache".toList) header.value).isSome then { self with calculatedTtl := 0 }
    else
      match indexOf (ascii "max-age=".toList) header.value with
      | none => self
      | some idx =>
        match parseUnsigned u32End ((header.value.drop (idx+8)).takeWhile isDigit) with
        | none => self
        | some ttl => { self with calculatedTtl := .ofNat ttl }
  else if header.name = headerExpires then { self with calculatedTtl := config.defaultTtl }
  else self

def cacheControl (config : CacheConfig) (response : HttpResponse) (ttl : Option UInt32) : CacheControl :=
  response.headers.foldl (·.apply config) ⟨ttl.getD config.defaultTtl,true⟩

def CacheMetadata.apply (self : CacheMetadata) (header : HttpHeader) : CacheMetadata :=
  if header.name = headerContentType then { self with contentType := some header.value }
  else if header.name = headerContentEncoding then { self with contentEncoding := some header.value }
  else if header.name = headerETag then { self with etag := some header.value }
  else if header.name = headerLastModified then { self with lastModified := some header.value }
  else if header.name = headerVary then { self with varyHeaders := some header.value }
  else self

def metadataOf (response : HttpResponse) : CacheMetadata :=
  response.headers.foldl CacheMetadata.apply { size := response.body.length }

end Responses

/-- The text `http:{s}` of the URL. -/
def httpKey (url : Str) : Str := ascii "http:".toList++url

/-- Common headers that affect cache variations. -/
def variedHeaders : List Str := [ascii "Accept".toList,ascii "Accept-Encoding".toList,
  ascii "Accept-Language".toList,ascii "User-Agent".toList,ascii "Cookie".toList,ascii "Authorization".toList]

def shouldVaryOn (headerName : Str) : Bool := decide (headerName ∈ variedHeaders)

/-- The text `vary:{s}:{s}` of the URL and the varied headers. -/
def buildVaryKey (url : Str) (requestHeaders : RequestHeaders) : Str :=
  ascii "vary:".toList++(url++0x3a::(requestHeaders.entries.filter fun e => shouldVaryOn e.1).flatMap
    fun e => e.1++(0x3d::e.2++[0x3b]))

namespace HttpCache

def init : HttpCache := ⟨.init,∅⟩

def putHttpResponse (P : Platform) (config : CacheConfig) (self : HttpCache) (url : Str) (response : HttpResponse)
    (ttl : Option UInt32) (now : ℤ) : Except Failure Unit×HttpCache :=
  let control := cacheControl config response ttl
  if control.canCache then
    match serializeHttpResponse P response with
    | .error e => (.error e,self)
    | .ok serialized =>
      let (result,cache) :=
        self.cache.put P config (httpKey url) serialized (metadataOf response) (some control.calculatedTtl) now
      (result,{ self with cache := cache })
  else (.ok (),self)

/-- What a fresh entry is answered with: no body if the client has the same version. -/
def answer (P : Platform) (requestHeaders : RequestHeaders) (entry : CacheEntry) : Except Failure HttpCacheEntry := do
  let headers ← parseHeadersFromEntry P entry
  let matched := match requestHeaders.lookup headerIfNoneMatch,entry.metadata.etag with
    | some etag,some cachedEtag => decide (etag = cachedEtag)
    | _,_ => false
  return {
    url := entry.key
    statusCode := if matched then 304 else 200
    headers := headers
    body := if matched then [] else entry.value
    metadata := entry.metadata
    createdAt := entry.createdAt
    expiresAt := entry.expiresAt
    etag := entry.metadata.etag
    lastModified := entry.metadata.lastModified }

/-- The clock is read in the cache and again after it. An error of the cache counts as a miss. -/
def getHttpResponse (P : Platform) (self : HttpCache) (url : Str) (requestHeaders : RequestHeaders) (now later : ℤ) :
    Except Failure (Option HttpCacheEntry)×HttpCache :=
  let cacheKey := (self.varyCache.lookup (buildVaryKey url requestHeaders)).getD (httpKey url)
  let (found,cache) := self.cache.get P cacheKey now
  let self := { self with cache := cache }
  match found with
  | .error .trap => (.error .trap,self)
  | .error (.error _) => (.ok none,self)
  | .ok none => (.ok none,self)
  | .ok (some entry) =>
    if entry.expiresAt ≤ later then (.error (.error .revalidationRequired),self)
    else ((answer P requestHeaders entry).map some,self)

end HttpCache

section Runs

/-- A put is made with the answer to a request. -/
inductive HttpCall
  | put (url : Str) (request : RequestHeaders) (response : HttpResponse) (ttl : Option UInt32) (now : ℤ)
  | get (url : Str) (request : RequestHeaders) (now later : ℤ)

/-- A stored response with the request it was stored for. -/
structure StoredResponse where
  request : RequestHeaders
  response : HttpResponse
  putAt : ℤ
  expiresAt : ℤ

/-- A cache with the response that was stored last under each URL. -/
structure TracedCache where
  http : HttpCache
  stored : Str → Option StoredResponse

def TracedCache.init : TracedCache := ⟨.init,fun _ => none⟩

def TracedCache.record (config : CacheConfig) (s : TracedCache) (url : Str) (request : RequestHeaders)
    (response : HttpResponse) (ttl : Option UInt32) (now : ℤ) : Str → Option StoredResponse :=
  let control := cacheControl config response ttl
  if control.canCache then
    fun url' => if url' = url then some ⟨request,response,now,now+control.calculatedTtl.toNat⟩ else s.stored url'
  else s.stored

/-- A trap ends the program and leaves the state as it was. -/
def httpStep (P : Platform) (config : CacheConfig) (s : TracedCache) : HttpCall → TracedCache
  | .put url request response ttl now =>
    match s.http.putHttpResponse P config url response ttl now with
    | (.error .trap,_) => s
    | (.error (.error _),http) => { s with http := http }
    | (.ok (),http) => ⟨http,s.record config url request response ttl now⟩
  | .get url request now later =>
    match s.http.getHttpResponse P url request now later with
    | (.error .trap,_) => s
    | (_,http) => { s with http := http }

/-- The response can be stored, in an empty cache at least. -/
structure Storable (P : Platform) (config : CacheConfig) (response : HttpResponse) (ttl : Option UInt32) : Prop where
  canCache : (cacheControl config response ttl).canCache = true
  fits : ∃ serialized, serializeHttpResponse P response = .ok serialized ∧
    Fits P (finalMetadata P config serialized (metadataOf response)) (finalValue P config serialized).1

end Runs

variable {P : Platform} {config : CacheConfig} {s : TracedCache} {url : Str} {request : RequestHeaders}
  {response : HttpResponse} {ttl : Option UInt32} {now later : ℤ}

section Puts

/-- The entry that a response is stored as. -/
def responseEntry (P : Platform) (config : CacheConfig) (url : Str) (response : HttpResponse) (ttl : Option UInt32)
    (now : ℤ) (serialized : Str) : CacheEntry :=
  newEntry P config (httpKey url) serialized (metadataOf response) (some (cacheControl config response ttl).calculatedTtl)
    now

/-- A short response is not compressed. -/
theorem responseEntry_plain {serialized : Str} (hplain : serialized.length ≤ config.compressionThreshold) (url : Str)
    (response : HttpResponse) (ttl : Option UInt32) (now : ℤ) :
    (responseEntry P config url response ttl now serialized).metadata = metadataOf response ∧
      (responseEntry P config url response ttl now serialized).value = serialized := by
  have hfinal : finalValue P config serialized = (serialized,false) := by
    rw [finalValue,if_neg (Nat.not_lt.mpr hplain)]
  simp only [responseEntry,newEntry,finalMetadata,hfinal,Bool.false_eq_true,if_false,and_self]

theorem putHttpResponse_eq (hcan : (cacheControl config response ttl).canCache = true) {serialized : Str}
    (hserialized : serializeHttpResponse P response = .ok serialized) (http : HttpCache) :
    http.putHttpResponse P config url response ttl now =
      ((http.cache.store P config (responseEntry P config url response ttl now serialized) now).1,
        { http with cache :=
          (http.cache.store P config (responseEntry P config url response ttl now serialized) now).2 }) := by
  rw [HttpCache.putHttpResponse]
  simp only [hcan,if_true,hserialized]
  rfl

/-- A put records nothing new, and then it stores nothing, or it stores an accepted entry. -/
theorem put_cases (P : Platform) (config : CacheConfig) (s : TracedCache) (url : Str) (request : RequestHeaders)
    (response : HttpResponse) (ttl : Option UInt32) (now : ℤ) :
    httpStep P config s (.put url request response ttl now) = s ∨
    ∃ serialized, serializeHttpResponse P response = .ok serialized ∧
      (cacheControl config response ttl).canCache = true ∧
      Accepts P config s.http.cache (responseEntry P config url response ttl now serialized) now ∧
      httpStep P config s (.put url request response ttl now) =
        ⟨⟨(s.http.cache.store P config (responseEntry P config url response ttl now serialized) now).2,
          s.http.varyCache⟩,s.record config url request response ttl now⟩ := by
  cases hcan : (cacheControl config response ttl).canCache with
  | false =>
    left
    simp only [httpStep,HttpCache.putHttpResponse,TracedCache.record,hcan,Bool.false_eq_true,if_false]
  | true =>
    cases hserialized : serializeHttpResponse P response with
    | error e =>
      left
      simp only [httpStep,HttpCache.putHttpResponse,hcan,if_true,hserialized]
      cases e with
      | trap => rfl
      | error e => rfl
    | ok serialized =>
      rw [httpStep,putHttpResponse_eq hcan hserialized]
      rcases store_cases P config s.http.cache (responseEntry P config url response ttl now serialized) now with
        haccepts | htrap | ⟨e,herror⟩
      · right
        refine ⟨serialized,rfl,rfl,haccepts,?_⟩
        rw [store_accepted haccepts]
      · left
        rw [htrap]
      · left
        rw [herror]
        cases e with
        | trap => rfl
        | error e => rfl

theorem storable_of_accepts {serialized : Str} (hserialized : serializeHttpResponse P response = .ok serialized)
    (hcan : (cacheControl config response ttl).canCache = true) {cache : Cache}
    (h : Accepts P config cache (responseEntry P config url response ttl now serialized) now) :
    Storable P config response ttl := ⟨hcan,serialized,hserialized,h.fits⟩

/-- The first put of a response that can be stored. -/
theorem put_first (hstorable : Storable P config response ttl) {serialized : Str}
    (hserialized : serializeHttpResponse P response = .ok serialized) (url : Str) (request : RequestHeaders)
    (hexpires : now+(cacheControl config response ttl).calculatedTtl.toNat < i64End) :
      (httpStep P config .init (.put url request response ttl now)).http.cache.db.lookup (httpKey url) =
        some (layout P (responseEntry P config url response ttl now serialized)) ∧
      (httpStep P config .init (.put url request response ttl now)).http.varyCache = ∅ ∧
      (httpStep P config .init (.put url request response ttl now)).stored url =
        some ⟨request,response,now,now+(cacheControl config response ttl).calculatedTtl.toNat⟩ := by
  obtain ⟨hcan,serialized',hserialized',hfits⟩ := hstorable
  cases hserialized.symm.trans hserialized'
  have haccepts : Accepts P config .init (responseEntry P config url response ttl now serialized) now := by
    refine ⟨hexpires,?_,Or.inr ?_,hfits,by decide⟩
    · have hlength : (finalValue P config serialized).1.length < 2^32 := hfits.2
      have hvalue : (responseEntry P config url response ttl now serialized).value = (finalValue P config serialized).1 := rfl
      rw [hvalue,usizeEnd]
      change 0+(finalValue P config serialized).1.length < 2^64
      omega
    · have hempty : (P.order (Cache.init.db).keys).1 = [] := List.perm_nil.mp (P.order (Cache.init.db).keys).2
      rw [Cache.evict,hempty]
      rfl
  have hroom : ∀ length, makeRoom config .init length = .init := by
    intro length
    rw [makeRoom,if_neg fun h => h.2.2 rfl]
  have hinit : TracedCache.init.http.cache = .init := rfl
  rw [httpStep,putHttpResponse_eq hcan hserialized,hinit,store_accepted haccepts,hroom]
  refine ⟨AList.lookup_insert _,rfl,?_⟩
  simp only [TracedCache.record,hcan,if_true]

end Puts

section Gets

/-- What is returned is the answer with an entry that is fresh when the clock is read again. -/
theorem getHttpResponse_found {http : HttpCache} {found : HttpCacheEntry}
    (h : (http.getHttpResponse P url request now later).1 = .ok (some found)) :
    let key := (http.varyCache.lookup (buildVaryKey url request)).getD (httpKey url)
    ∃ entry, (http.cache.get P key now).1 = .ok (some entry) ∧ later < entry.expiresAt ∧
      HttpCache.answer P request entry = .ok found := by
  intro key
  rw [HttpCache.getHttpResponse] at h
  change ∃ entry, (http.cache.get P ((http.varyCache.lookup (buildVaryKey url request)).getD (httpKey url)) now).1 = _ ∧ _
  generalize http.cache.get P ((http.varyCache.lookup (buildVaryKey url request)).getD (httpKey url)) now = result at h ⊢
  obtain ⟨result,cache⟩ := result
  rcases result with (_ | e) | _ | entry
  · cases h
  · cases h
  · cases h
  · simp only at h
    split at h
    · cases h
    · rename_i hfresh
      refine ⟨entry,rfl,Int.not_le.mp hfresh,?_⟩
      cases hanswer : HttpCache.answer P request entry with
      | error e =>
        rw [hanswer] at h
        cases h
      | ok found' =>
        rw [hanswer] at h
        cases h
        rfl

theorem getHttpResponse_snd (P : Platform) (http : HttpCache) (url : Str) (request : RequestHeaders) (now later : ℤ) :
    (http.getHttpResponse P url request now later).2 = { http with cache :=
      (http.cache.get P ((http.varyCache.lookup (buildVaryKey url request)).getD (httpKey url)) now).2 } := by
  rw [HttpCache.getHttpResponse]
  generalize http.cache.get P _ now = result
  obtain ⟨result,cache⟩ := result
  rcases result with (_ | e) | _ | entry
  · rfl
  · rfl
  · rfl
  · simp only
    split
    · rfl
    · rfl

/-- A response that is returned without a clock that runs backwards was read fresh, and its
entry was stored again. -/
theorem getHttpResponse_ok {http : HttpCache} {found : HttpCacheEntry} (hclock : now ≤ later)
    (h : (http.getHttpResponse P url request now later).1 = .ok (some found)) :
    let key := (http.varyCache.lookup (buildVaryKey url request)).getD (httpKey url)
    ∃ data entry, Renewable P http.cache key now data entry ∧
      HttpCache.answer P request (entry.access now) = .ok found ∧
      (http.getHttpResponse P url request now later).2 =
        { http with cache :=
          { http.cache with db := http.cache.db.insert key (layout P (entry.access now)) } } := by
  intro key
  obtain ⟨entry',hfound,hfresh,hanswer⟩ := getHttpResponse_found h
  rw [getHttpResponse_snd]
  rcases get_cases P http.cache key now with ⟨-,-,hstale⟩ | ⟨data,entry,hrenewable,hget⟩
  · have hexpired := hstale entry' hfound
    omega
  · rw [hget] at hfound ⊢
    cases hfound
    exact ⟨data,entry,hrenewable,hanswer,rfl⟩

/-- A get leaves the cache, or it stores the entry that it finds again. -/
theorem httpStep_get (P : Platform) (config : CacheConfig) (s : TracedCache) (url : Str) (request : RequestHeaders)
    (now later : ℤ) :
    let key := (s.http.varyCache.lookup (buildVaryKey url request)).getD (httpKey url)
    httpStep P config s (.get url request now later) = s ∨
    ∃ data entry, Renewable P s.http.cache key now data entry ∧
      httpStep P config s (.get url request now later) = { s with http := { s.http with cache :=
        { s.http.cache with db := s.http.cache.db.insert key (layout P (entry.access now)) } } } := by
  intro key
  have hstep : httpStep P config s (.get url request now later) = s ∨
      httpStep P config s (.get url request now later) =
        { s with http := { s.http with cache := (s.http.cache.get P key now).2 } } := by
    rw [httpStep,← getHttpResponse_snd P s.http url request now later]
    split
    · exact Or.inl rfl
    · rename_i hresult
      rw [hresult]
      exact Or.inr rfl
  rcases hstep with hsame | hstep
  · exact Or.inl hsame
  · rcases get_cases P s.http.cache key now with ⟨hkept,-⟩ | ⟨data,entry,hrenewable,hget⟩
    · rw [hkept] at hstep
      exact Or.inl hstep
    · rw [hget] at hstep
      exact Or.inr ⟨data,entry,hrenewable,hstep⟩

end Gets

end ZNet.Caching
