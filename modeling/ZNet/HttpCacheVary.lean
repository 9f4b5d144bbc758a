import ZNet.HttpCache
import ZNet.Runs

/-!
# Responses that vary

The reader looks for a variant of a URL in an index that no put fills. So a response is
returned to every request for its URL, unless its bytes cannot be read.
-/

namespace ZNet.Caching
open ByteOrder Tables Runs TextScan

/-- The names in the value of a header that lists names. -/
def listedNames (value : Str) : List Str := tokenizeAny (fun b => b == 0x2c || b == 0x20 || b == 0x09) value

/-- Names of headers are compared without case. -/
def VariesOn (response : HttpResponse) (name : Str) : Prop :=
  ∃ header ∈ response.headers, header.name.map toLower = headerVary.map toLower ∧
    ∃ listed ∈ listedNames header.value, listed.map toLower = name.map toLower

def headerValues (request : RequestHeaders) (name : Str) : Set Str :=
  {value | ∃ spelling : Str, spelling.map toLower = name.map toLower ∧ request.lookup spelling = some value}

/-- The requests have the same values of the headers that the response varies on. -/
def SameVariant (response : HttpResponse) (request request' : RequestHeaders) : Prop :=
  ∀ name, VariesOn response name → headerValues request name = headerValues request' name

/-- A stored response is returned only to requests of its variant. -/
def Isolated (P : Platform) (s : TracedCache) (call : HttpCall) : Prop :=
  ∀ url request now later found stored, call = .get url request now later →
    (s.http.getHttpResponse P url request now later).1 = .ok (some found) → s.stored url = some stored →
      SameVariant stored.response request stored.request

/-- A response that is put, with the request it answers. -/
structure PutRequest where
  url : Str
  request : RequestHeaders
  response : HttpResponse
  ttl : Option UInt32

structure GetRequest where
  url : Str
  request : RequestHeaders

/-- The requests that are made, at any times. -/
structure Traffic where
  puts : Set PutRequest
  gets : Set GetRequest

def Traffic.Has (self : Traffic) : HttpCall → Prop
  | .put url request response ttl _ => ⟨url,request,response,ttl⟩ ∈ self.puts
  | .get url request _ _ => ⟨url,request⟩ ∈ self.gets

/-- The bytes that can lie in the database for a response: its entry, or what gets store for it. -/
inductive StoredBytes (P : Platform) (config : CacheConfig) (put : PutRequest) : Str → Prop
  | put {now : ℤ} {serialized : Str} (hstorable : Storable P config put.response put.ttl)
      (hserialized : serializeHttpResponse P put.response = .ok serialized)
      (hexpires : now+(cacheControl config put.response put.ttl).calculatedTtl.toNat < i64End) :
      StoredBytes P config put (layout P (responseEntry P config put.url put.response put.ttl now serialized))
  | get {data : Str} {entry : CacheEntry} {now : ℤ} (h : StoredBytes P config put data) (hrenews : Renews P now data entry) :
      StoredBytes P config put (layout P (entry.access now))

/-- The bytes are read as an entry with headers. -/
def Readable (P : Platform) (data : Str) : Prop :=
  ∃ entry headers, deserializeCacheEntry P data = .ok entry ∧ parseHeadersFromEntry P entry = .ok headers

def Returnable (P : Platform) (config : CacheConfig) (put : PutRequest) : Prop :=
  ∃ data, StoredBytes P config put data ∧ Readable P data

variable {P : Platform} {config : CacheConfig} {s : TracedCache} {url : Str} {request : RequestHeaders}
  {response : HttpResponse} {ttl : Option UInt32} {now later : ℤ} {data : Str} {traffic : Traffic}

theorem httpKey_inj {url' : Str} (h : httpKey url = httpKey url') : url = url' := List.append_cancel_left h

theorem cacheKey_eq (hvariants : s.http.varyCache = ∅) :
    (s.http.varyCache.lookup (buildVaryKey url request)).getD (httpKey url) = httpKey url := by
  rw [hvariants]
  rfl

section Reading

theorem get_found {cache : Cache} {key : Str} {entry' : CacheEntry} (h : (cache.get P key now).1 = .ok (some entry')) :
    ∃ data entry, cache.db.lookup key = some data ∧ deserializeCacheEntry P data = .ok entry ∧
      entry'.value = entry.value := by
  rw [Cache.get] at h
  cases hlookup : cache.db.lookup key with
  | none =>
    rw [hlookup] at h
    cases h
  | some data =>
    cases hread : deserializeCacheEntry P data with
    | error e =>
      simp only [hlookup,hread] at h
      cases h
    | ok entry =>
      refine ⟨data,entry,rfl,hread,?_⟩
      simp only [hlookup,hread] at h
      split at h
      · cases h
        rfl
      · split at h
        · cases h
        · split at h
          · cases h
          · cases h
            rfl

/-- What is returned was read. -/
theorem readable_of_returned {found : HttpCacheEntry} (hvariants : s.http.varyCache = ∅)
    (h : (s.http.getHttpResponse P url request now later).1 = .ok (some found)) :
    ∃ data, s.http.cache.db.lookup (httpKey url) = some data ∧ Readable P data := by
  obtain ⟨entry',hfound,-,hanswer⟩ := getHttpResponse_found h
  rw [cacheKey_eq hvariants] at hfound
  obtain ⟨data,entry,hlookup,hread,hvalue⟩ := get_found hfound
  obtain ⟨headers,hheaders,-⟩ := bind_ok hanswer
  refine ⟨data,hlookup,entry,headers,hread,?_⟩
  rw [parseHeadersFromEntry,← hvalue]
  exact hheaders

/-- What can be read is returned, when the clock is set back at its expiry at least. -/
theorem returned_of_readable (hvariants : s.http.varyCache = ∅) (request : RequestHeaders)
    (hlookup : s.http.cache.db.lookup (httpKey url) = some data) (h : Readable P data) :
    ∃ now later found, (s.http.getHttpResponse P url request now later).1 = .ok (some found) := by
  obtain ⟨entry,headers,hread,hheaders⟩ := h
  refine ⟨entry.expiresAt,entry.expiresAt-1,?_⟩
  have hget : s.http.cache.get P (httpKey url) entry.expiresAt = (.ok (some entry),s.http.cache) := by
    rw [Cache.get,hlookup]
    simp only [hread,le_refl,if_true]
  simp only [HttpCache.getHttpResponse,cacheKey_eq hvariants,hget]
  rw [if_neg (by omega),HttpCache.answer,hheaders]
  exact ⟨_,rfl⟩

/-- On a big-endian machine that reads its own JSON, a response that is not compressed can be
returned. -/
theorem returnable_of_big (hbig : P.endian = .big) {put : PutRequest}
    (hstorable : Storable P config put.response put.ttl) {serialized : Str}
    (hserialized : serializeHttpResponse P put.response = .ok serialized)
    (hplain : serialized.length ≤ config.compressionThreshold) {metadata : CacheMetadata}
    (hmetadata : P.parseMetadata (P.stringifyMetadata (metadataOf put.response)) = some metadata)
    {headers : List HttpHeader} (hheaders : P.parseHeaders (P.stringifyHeaders put.response.headers) = some headers) :
    Returnable P config put := by
  obtain ⟨serialized',hserialized',hfits⟩ := hstorable.fits
  cases hserialized.symm.trans hserialized'
  have hexpires : 0+((cacheControl config put.response put.ttl).calculatedTtl.toNat : ℤ) < i64End := by
    have hlt : (cacheControl config put.response put.ttl).calculatedTtl.toNat < 2^32 := UInt32.toNat_lt _
    rw [i64End]
    omega
  have hentry := responseEntry_plain (P:=P) hplain put.url put.response put.ttl 0
  have hread := deserializeCacheEntry_layout hbig (show Fits P
    (responseEntry P config put.url put.response put.ttl 0 serialized).metadata _ from hfits)
  rw [hentry.1,hentry.2,hmetadata] at hread
  refine ⟨_,.put hstorable hserialized hexpires,_,headers,hread,?_⟩
  rw [parseHeadersFromEntry_serialized hbig hserialized,hheaders]
  rfl

end Reading

section Sufficiency

/-- The entry under a URL with a recorded response holds bytes of this response. -/
structure Recorded (P : Platform) (config : CacheConfig) (traffic : Traffic) (s : TracedCache) : Prop where
  noVariants : s.http.varyCache = ∅
  bytes : ∀ url stored data, s.stored url = some stored → s.http.cache.db.lookup (httpKey url) = some data →
    ∃ put ∈ traffic.puts, put.url = url ∧ put.request = stored.request ∧ put.response = stored.response ∧
      StoredBytes P config put data

theorem Recorded.get (h : Recorded P config traffic s) (url : Str) (request : RequestHeaders) (now later : ℤ) :
    Recorded P config traffic (httpStep P config s (.get url request now later)) := by
  rcases httpStep_get P config s url request now later with hsame | ⟨data,entry,hrenewable,hstep⟩
  · rw [hsame]
    exact h
  · rw [cacheKey_eq h.noVariants] at hrenewable hstep
    rw [hstep]
    refine ⟨h.noVariants,fun url' stored data' hstored hlookup => ?_⟩
    by_cases hkey : httpKey url' = httpKey url
    · rw [hkey,AList.lookup_insert] at hlookup
      cases hlookup
      cases httpKey_inj hkey
      obtain ⟨put,hput,hurl,hrequest,hresponse,hbytes⟩ := h.bytes url stored data hstored hrenewable.lookup
      exact ⟨put,hput,hurl,hrequest,hresponse,hbytes.get hrenewable.toRenews⟩
    · rw [AList.lookup_insert_ne hkey] at hlookup
      exact h.bytes url' stored data' hstored hlookup

theorem lookup_makeRoom (config : CacheConfig) (cache : Cache) (length : ℕ) (url : Str) :
    (makeRoom config cache length).db.lookup (httpKey url) = cache.db.lookup (httpKey url) := by
  rw [makeRoom]
  split
  · exact AList.lookup_erase_ne fun hempty => by cases hempty
  · rfl

/-- A put changes the entry of its URL only. -/
theorem lookup_store {cache : Cache} {serialized : Str}
    (h : Accepts P config cache (responseEntry P config url response ttl now serialized) now) (url' : Str) :
    (cache.store P config (responseEntry P config url response ttl now serialized) now).2.db.lookup (httpKey url') =
      if url' = url then some (layout P (responseEntry P config url response ttl now serialized))
      else cache.db.lookup (httpKey url') := by
  have hkey : (responseEntry P config url response ttl now serialized).key = httpKey url := rfl
  rw [store_accepted h,hkey]
  split
  · rename_i hurl
    rw [hurl,AList.lookup_insert]
  · rename_i hurl
    rw [AList.lookup_insert_ne fun hsame => hurl (httpKey_inj hsame),lookup_makeRoom]

theorem Recorded.put (h : Recorded P config traffic s) {put : PutRequest} (hput : put ∈ traffic.puts) (now : ℤ) :
    Recorded P config traffic (httpStep P config s (.put put.url put.request put.response put.ttl now)) := by
  rcases put_cases P config s put.url put.request put.response put.ttl now with
    hsame | ⟨serialized,hserialized,hcan,haccepts,hstep⟩
  · rw [hsame]
    exact h
  · rw [hstep]
    refine ⟨h.noVariants,fun url stored data hstored hlookup => ?_⟩
    rw [lookup_store haccepts] at hlookup
    simp only [TracedCache.record,hcan,if_true] at hstored
    by_cases hurl : url = put.url
    · rw [if_pos hurl] at hstored hlookup
      cases hstored
      cases hlookup
      exact ⟨put,hput,hurl.symm,rfl,rfl,.put (storable_of_accepts hserialized hcan haccepts) hserialized haccepts.expires⟩
    · rw [if_neg hurl] at hstored hlookup
      exact h.bytes url stored data hstored hlookup

/-- The requests for each URL under which a response can be returned are of one variant. -/
def Compatible (P : Platform) (config : CacheConfig) (traffic : Traffic) : Prop :=
  ∀ put ∈ traffic.puts, ∀ get ∈ traffic.gets, put.url = get.url → Returnable P config put →
    SameVariant put.response get.request put.request

theorem Recorded.step (h : Recorded P config traffic s) (hcompatible : Compatible P config traffic) {call : HttpCall}
    (hcall : traffic.Has call) : Isolated P s call ∧ Recorded P config traffic (httpStep P config s call) := by
  cases call with
  | put url request response ttl now =>
    refine ⟨fun url' request' now' later found stored hget => ?_,h.put hcall now⟩
    cases hget
  | get url request now later =>
    refine ⟨fun url' request' now' later' found stored hget hreturned hstored => ?_,h.get url request now later⟩
    cases hget
    obtain ⟨data,hlookup,hreadable⟩ := readable_of_returned h.noVariants hreturned
    obtain ⟨put,hput,hurl,hrequest,hresponse,hbytes⟩ := h.bytes url stored data hstored hlookup
    rw [← hrequest,← hresponse]
    exact hcompatible put hput ⟨url,request⟩ hcall hurl ⟨data,hbytes,hreadable⟩

end Sufficiency

section Necessity

/-- An entry that has expired when the clock is read again was stored again before. -/
theorem httpStep_renewable (config : CacheConfig) (hvariants : s.http.varyCache = ∅) (request : RequestHeaders) {entry : CacheEntry}
    (h : Renewable P s.http.cache (httpKey url) now data entry) :
    httpStep P config s (.get url request now entry.expiresAt) = { s with http := { s.http with cache :=
      { s.http.cache with db := s.http.cache.db.insert (httpKey url) (layout P (entry.access now)) } } } := by
  have hexpired : (entry.access now).expiresAt ≤ entry.expiresAt := le_refl entry.expiresAt
  simp only [httpStep,HttpCache.getHttpResponse,cacheKey_eq hvariants,h.get,if_pos hexpired]

/-- A run that leaves the bytes of a response in the database. -/
theorem StoredBytes.reached {put : PutRequest} (h : StoredBytes P config put data) (hput : put ∈ traffic.puts)
    {request : RequestHeaders} (hget : ⟨put.url,request⟩ ∈ traffic.gets) : ∃ calls, (∀ call ∈ calls, traffic.Has call) ∧
      (run (httpStep P config) .init calls).http.varyCache = ∅ ∧
      (run (httpStep P config) .init calls).http.cache.db.lookup (httpKey put.url) = some data ∧
      ∃ stored, (run (httpStep P config) .init calls).stored put.url = some stored ∧
        stored.request = put.request ∧ stored.response = put.response := by
  induction h with
  | put hstorable hserialized hexpires =>
    rename_i now serialized
    obtain ⟨hlookup,hvariants,hstored⟩ := put_first hstorable hserialized put.url put.request hexpires
    refine ⟨[.put put.url put.request put.response put.ttl now],?_,hvariants,hlookup,_,hstored,rfl,rfl⟩
    intro call hcall
    rw [List.mem_singleton.mp hcall]
    exact hput
  | get h hrenews ih =>
    rename_i data entry now
    obtain ⟨calls,hcalls,hvariants,hlookup,stored,hstored,hrequest,hresponse⟩ := ih
    have hrenewable : Renewable P (run (httpStep P config) .init calls).http.cache (httpKey put.url) now data entry :=
      ⟨hrenews,hlookup⟩
    have hstep := httpStep_renewable config hvariants request hrenewable
    refine ⟨calls++[.get put.url request now entry.expiresAt],?_,?_⟩
    · intro call hcall
      rcases List.mem_append.mp hcall with hbefore | hlast
      · exact hcalls call hbefore
      · rw [List.mem_singleton.mp hlast]
        exact hget
    · rw [run_concat,hstep]
      exact ⟨hvariants,AList.lookup_insert _,stored,hstored,hrequest,hresponse⟩

end Necessity

/-- In every run of the given traffic responses are returned only to requests of their variant
exactly if the requests for a URL are of one variant where a response can be returned. -/
theorem isolated_iff (P : Platform) (config : CacheConfig) (traffic : Traffic) :
    (∀ calls, (∀ call ∈ calls, traffic.Has call) → Along (httpStep P config) (Isolated P) .init calls) ↔
      Compatible P config traffic := by
  constructor
  · rintro h put hput get hget hurl ⟨data,hbytes,hreadable⟩
    obtain ⟨url,request⟩ := get
    cases hurl
    obtain ⟨calls,hcalls,hvariants,hlookup,stored,hstored,hrequest,hresponse⟩ := hbytes.reached hput hget
    obtain ⟨now,later,found,hreturned⟩ := returned_of_readable hvariants request hlookup hreadable
    have hrun := h (calls++[.get put.url request now later]) (by
      intro call hcall
      rcases List.mem_append.mp hcall with hbefore | hlast
      · exact hcalls call hbefore
      · rw [List.mem_singleton.mp hlast]
        exact hget)
    have hsame := hrun.last put.url request now later found stored rfl hreturned hstored
    rw [hrequest,hresponse] at hsame
    exact hsame
  · intro hcompatible calls hcalls
    apply along_of_inv (I:=Recorded P config traffic) _ _ hcalls
    · intro s call h hcall
      exact h.step hcompatible hcall
    · refine ⟨rfl,fun url stored data hstored => ?_⟩
      cases hstored

section Example

def cookie : Str := ascii "Cookie".toList

def alice : RequestHeaders := AList.insert cookie (ascii "alice".toList) ∅

def bob : RequestHeaders := AList.insert cookie (ascii "bob".toList) ∅

def accountUrl : Str := ascii "http://a/account".toList

/-- A response for one user. -/
def account : HttpResponse := ⟨200,[⟨headerVary,cookie⟩],[0x61]⟩

def accountPlatform : Platform := plainPlatform .big { varyHeaders := some cookie, size := 1 } [⟨headerVary,cookie⟩]

/-- The user asks for the response, and another one asks for it a second later. -/
def accountCalls : List HttpCall :=
  [.put accountUrl alice account none 1700000000,.get accountUrl bob 1700000001 1700000001]

theorem account_storable : Storable accountPlatform {} account none :=
  ⟨by decide,_,rfl,by decide +kernel,by decide +kernel⟩

def accountPut : TracedCache := httpStep accountPlatform {} .init (.put accountUrl alice account none 1700000000)

theorem account_returned :
    ∃ found, (accountPut.http.getHttpResponse accountPlatform accountUrl bob 1700000001 1700000001).1 = .ok (some found) := by
  have hfound : (accountPut.http.getHttpResponse accountPlatform accountUrl bob 1700000001
      1700000001).1.toOption.join.isSome := by decide +kernel
  obtain ⟨found,hfound⟩ := Option.isSome_iff_exists.mp hfound
  generalize (accountPut.http.getHttpResponse accountPlatform accountUrl bob 1700000001 1700000001).1 = result at hfound
  cases result with
  | error e => cases hfound
  | ok result => exact ⟨found,congrArg _ hfound⟩

theorem bob_not_alice : ¬SameVariant account bob alice := by
  intro hsame
  have hvaries : VariesOn account cookie :=
    ⟨⟨headerVary,cookie⟩,List.mem_singleton.mpr rfl,rfl,cookie,by decide,rfl⟩
  have hbob : ascii "bob".toList ∈ headerValues bob cookie := ⟨cookie,rfl,AList.lookup_insert _⟩
  rw [hsame cookie hvaries] at hbob
  obtain ⟨spelling,-,hlookup⟩ := hbob
  by_cases hspelling : spelling = cookie
  · rw [hspelling,alice,AList.lookup_insert] at hlookup
    revert hlookup
    decide
  · rw [alice,AList.lookup_insert_ne hspelling] at hlookup
    cases hlookup

theorem isolated_broken : ¬Along (httpStep accountPlatform {}) (Isolated accountPlatform) .init accountCalls := by
  rintro ⟨-,hget,-⟩
  obtain ⟨-,-,hstored⟩ := put_first account_storable rfl accountUrl alice (show (1700000000 : ℤ)+_ < i64End by decide)
  obtain ⟨found,hreturned⟩ := account_returned
  exact bob_not_alice (hget accountUrl bob 1700000001 1700000001 found _ rfl hreturned hstored)

end Example

end ZNet.Caching
