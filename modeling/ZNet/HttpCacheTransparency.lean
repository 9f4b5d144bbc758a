import ZNet.HttpCache
import ZNet.Runs

/-!
# Transparency of the cache

A response that is returned from the cache is to be the one that was stored. A
little-endian machine reads other times than it wrote, and no machine reads an entry more
often than its count of accesses can hold.
-/

namespace ZNet.Caching
open ByteOrder Tables Runs

/-- The client has the stored version. -/
def Matches (request : RequestHeaders) (response : HttpResponse) : Prop :=
  ∃ etag, request.lookup headerIfNoneMatch = some etag ∧ (metadataOf response).etag = some etag

/-- A get between the put and the expiry of a response returns this response. -/
def Transparent (P : Platform) (s : TracedCache) (call : HttpCall) : Prop :=
  ∀ url request now later stored, call = .get url request now later → s.stored url = some stored →
    stored.putAt ≤ now → now ≤ later → later < stored.expiresAt → ¬Matches request stored.response →
      ∃ found, (s.http.getHttpResponse P url request now later).1 = .ok (some found) ∧
        found.statusCode = stored.response.statusCode ∧ found.headers = stored.response.headers ∧
        found.body = stored.response.body

/-- The responses and lifetimes that are put. -/
def PutsOf (kind : Set (HttpResponse×Option UInt32)) (call : HttpCall) : Prop :=
  ∀ url request response ttl now, call = .put url request response ttl now → (response,ttl) ∈ kind

variable {P : Platform} {config : CacheConfig} {s : TracedCache} {url : Str} {request : RequestHeaders}
  {response : HttpResponse} {ttl : Option UInt32} {now later : ℤ}

section Clocks

/-- A number whose low byte has its high bit set is read as a negative one. -/
theorem readI64_little {n : ℕ} (h : n%256 = 128) : readI64 (toBytes .little 8 n) < 0 := by
  have hfirst : toBytes .little 8 n = UInt8.ofNat n::littleBytes 7 (n/256) := rfl
  have hread : ofBytes .big (toBytes .little 8 n) =
      Nat.ofDigits 256 ((littleBytes 7 (n/256)).reverse.map UInt8.toNat)+256^7*128 := by
    rw [hfirst,ofBytes,List.reverse_cons,ofLittleBytes,List.map_append,Nat.ofDigits_append]
    have hlow : (UInt8.ofNat n).toNat = 128 := by
      rw [UInt8.toNat_ofNat']
      exact h
    simp [hlow]
  have hbound : Nat.ofDigits 256 ((littleBytes 7 (n/256)).reverse.map UInt8.toNat) < 256^7 := by
    have hlt := ofLittleBytes_lt (littleBytes 7 (n/256)).reverse
    rw [List.length_reverse,length_littleBytes] at hlt
    exact hlt
  rw [readI64,hread,if_neg (by omega)]
  omega

end Clocks

section Kinds

variable {kind : Set (HttpResponse×Option UInt32)}

/-- What is recorded expires when it is put. -/
def Expired (s : TracedCache) : Prop := ∀ url stored, s.stored url = some stored → stored.expiresAt = stored.putAt

theorem Expired.step (h : Expired s) (hkind : ∀ r ∈ kind, Storable P config r.1 r.2 →
    (cacheControl config r.1 r.2).calculatedTtl = 0) {call : HttpCall} (hcall : PutsOf kind call) :
    Transparent P s call ∧ Expired (httpStep P config s call) := by
  constructor
  · intro url request now later stored _ hstored hput hclock hfresh
    have hsame := h url stored hstored
    omega
  · cases call with
    | get url request now later =>
      have hsame : (httpStep P config s (.get url request now later)).stored = s.stored := by
        rw [httpStep]
        split
        · rfl
        · rfl
      intro url' stored hstored
      rw [hsame] at hstored
      exact h url' stored hstored
    | put url request response ttl now =>
      rcases put_cases P config s url request response ttl now with hsame | ⟨serialized,hserialized,hcan,haccepts,hstep⟩
      · rw [hsame]
        exact h
      · intro url' stored hstored
        rw [hstep] at hstored
        simp only [TracedCache.record,hcan,if_true] at hstored
        split at hstored
        · cases hstored
          have hzero := hkind (response,ttl) (hcall url request response ttl now rfl)
            (storable_of_accepts hserialized hcan haccepts)
          simp only [hzero]
          exact Int.add_zero now
        · exact h url' stored hstored

/-- A response that is recorded under the URL and fresh at the time, with its entry. -/
structure Fresh (s : TracedCache) (url : Str) (now : ℤ) (data : Str) : Prop where
  entry : s.http.cache.db.lookup (httpKey url) = some data
  noVariants : s.http.varyCache = ∅
  recorded : ∃ stored, s.stored url = some stored ∧ stored.putAt ≤ now ∧ now < stored.expiresAt

/-- A transparent get returns the fresh response and stores its entry again. -/
theorem Fresh.returned {data : Str} (h : Fresh s url now data) (htransparent : Transparent P s (.get url ∅ now now)) :
    ∃ stored found entry, s.stored url = some stored ∧ found.body = stored.response.body ∧
      HttpCache.answer P ∅ (entry.access now) = .ok found ∧ Renewable P s.http.cache (httpKey url) now data entry ∧
      s.http.getHttpResponse P url ∅ now now = (.ok (some found),{ s.http with cache :=
        { s.http.cache with db := s.http.cache.db.insert (httpKey url) (layout P (entry.access now)) } }) := by
  obtain ⟨stored,hstored,hput,hfresh⟩ := h.recorded
  have hunmatched : ¬Matches ∅ stored.response := by
    rintro ⟨etag,hetag,-⟩
    cases hetag
  obtain ⟨found,hfound,-,-,hbody⟩ := htransparent url ∅ now now stored rfl hstored hput le_rfl hfresh hunmatched
  have hkey : (s.http.varyCache.lookup (buildVaryKey url ∅)).getD (httpKey url) = httpKey url := by
    rw [h.noVariants]
    rfl
  obtain ⟨data',entry,hrenewable,hanswer,hstate⟩ := getHttpResponse_ok le_rfl hfound
  rw [hkey] at hrenewable hstate
  cases h.entry.symm.trans hrenewable.lookup
  exact ⟨stored,found,entry,hstored,hbody,hanswer,hrenewable,Prod.ext hfound hstate⟩

theorem Fresh.get (config : CacheConfig) {data : Str} (h : Fresh s url now data)
    (htransparent : Transparent P s (.get url ∅ now now)) :
    ∃ entry, Renewable P s.http.cache (httpKey url) now data entry ∧
      Fresh (httpStep P config s (.get url ∅ now now)) url now (layout P (entry.access now)) := by
  obtain ⟨_,found,entry,-,-,-,hrenewable,hget⟩ := h.returned htransparent
  refine ⟨entry,hrenewable,?_⟩
  rw [httpStep,hget]
  exact ⟨AList.lookup_insert _,h.noVariants,h.recorded⟩

/-- Where numbers are read as they were written, every get counts in the entry. -/
theorem Fresh.gets (hbig : P.endian = .big) {data : Str} (h : Fresh s url now data) (n : ℕ)
    (hrun : Along (httpStep P config) (Transparent P) s (List.replicate n (.get url ∅ now now))) :
    0 < n → ofBytes .big ((data.drop 16).take 4)+n < u32End := by
  induction n generalizing s data with
  | zero => exact fun hpos => absurd hpos (Nat.lt_irrefl 0)
  | succ n ih =>
    intro _
    obtain ⟨entry,hrenewable,hafter⟩ := h.get config hrun.1
    have hcount := (deserializeCacheEntry_ok hrenewable.read).2.2
    have hroom := hrenewable.count
    rw [hcount] at hroom
    rcases Nat.eq_zero_or_pos n with rfl | hpos
    · exact hroom
    · have hnext := ih hafter hrun.2 hpos
      have hwritten : toBytes P.endian 4 (entry.accessCount+1) = ((layout P (entry.access now)).drop 16).take 4 :=
        slice_ok (slice_accessCount P (entry.access now))
      have hread : ofBytes .big (toBytes .big 4 (entry.accessCount+1)) = entry.accessCount+1 :=
        ofBytes_toBytes .big hrenewable.count
      rw [← hwritten,hbig,hread,hcount] at hnext
      omega

theorem Fresh.little (hlittle : P.endian = .little) {serialized : Str}
    (h : Fresh s url now (layout P (responseEntry P config url response ttl now serialized))) (hnow : 0 ≤ now)
    (hlow : (now+(cacheControl config response ttl).calculatedTtl.toNat).toNat%256 = 128)
    (hexpires : now+(cacheControl config response ttl).calculatedTtl.toNat < i64End) :
    ¬Transparent P s (.get url ∅ now now) := by
  intro htransparent
  obtain ⟨entry,hrenewable,-⟩ := h.get config htransparent
  have hread := (deserializeCacheEntry_ok hrenewable.read).2.1
  have hwritten := slice_ok (slice_expiresAt P (responseEntry P config url response ttl now serialized))
  rw [← hwritten,hlittle] at hread
  have htime : (responseEntry P config url response ttl now serialized).expiresAt =
      now+(cacheControl config response ttl).calculatedTtl.toNat := rfl
  have hmod : (now+(cacheControl config response ttl).calculatedTtl.toNat)%2^64 =
      now+(cacheControl config response ttl).calculatedTtl.toNat := by
    rw [i64End] at hexpires
    omega
  rw [htime,i64Bytes,hmod] at hread
  have hnegative := readI64_little hlow
  have hfresh := hrenewable.fresh
  omega

/-- The response is put, and the client asks for it as often as an entry can count. -/
def hits (url : Str) (response : HttpResponse) (ttl : Option UInt32) (now : ℤ) : List HttpCall :=
  .put url ∅ response ttl now::List.replicate u32End (.get url ∅ now now)

theorem putsOf_hits (hkind : (response,ttl) ∈ kind) : ∀ call ∈ hits url response ttl now, PutsOf kind call := by
  intro call hcall url' request response' ttl' now' hput
  rcases List.mem_cons.mp hcall with rfl | hget
  · cases hput
    exact hkind
  · cases (List.eq_of_mem_replicate hget).symm.trans hput

/-- A time at which the low byte of the time of expiry has its high bit set alone. -/
def oddTime (lifetime : UInt32) : ℤ := 128+255*lifetime.toNat

theorem oddTime_expires (lifetime : UInt32) : oddTime lifetime+lifetime.toNat < i64End := by
  have hlt : lifetime.toNat < 2^32 := lifetime.toNat_lt
  rw [oddTime,i64End]
  omega

theorem oddTime_low (lifetime : UInt32) : (oddTime lifetime+lifetime.toNat).toNat%256 = 128 := by
  rw [oddTime]
  omega

/-- A response with a positive lifetime is fresh after it has been put. -/
theorem Fresh.put (hstorable : Storable P config response ttl) {serialized : Str}
    (hserialized : serializeHttpResponse P response = .ok serialized)
    (hpositive : (cacheControl config response ttl).calculatedTtl ≠ 0) (url : Str)
    (hexpires : now+(cacheControl config response ttl).calculatedTtl.toNat < i64End) :
    Fresh (httpStep P config .init (.put url ∅ response ttl now)) url now
      (layout P (responseEntry P config url response ttl now serialized)) := by
  obtain ⟨hlookup,hvariants,hstored⟩ := put_first hstorable hserialized url ∅ hexpires
  have hpos : 0 < (cacheControl config response ttl).calculatedTtl.toNat :=
    Nat.pos_of_ne_zero fun hzero => hpositive (UInt32.toNat_inj.mp hzero)
  refine ⟨hlookup,hvariants,_,hstored,le_rfl,?_⟩
  simp only
  omega

theorem answer_body {entry : CacheEntry} {found : HttpCacheEntry} (h : HttpCache.answer P ∅ entry = .ok found) :
    found.body = entry.value := by
  obtain ⟨headers,-,h⟩ := bind_ok h
  cases h
  rfl

/-- The body that is returned is the value of the entry that was stored. -/
theorem Fresh.big (hbig : P.endian = .big) {entry : CacheEntry} (hfits : Fits P entry.metadata entry.value)
    (h : Fresh s url now (layout P entry)) (htransparent : Transparent P s (.get url ∅ now now)) :
    ∃ stored, s.stored url = some stored ∧ stored.response.body = entry.value := by
  obtain ⟨stored,found,read,hstored,hbody,hanswer,hrenewable,-⟩ := h.returned htransparent
  have hread := hrenewable.read
  rw [deserializeCacheEntry_layout hbig hfits] at hread
  have hvalue : read.value = entry.value := by
    split at hread
    · cases hread
    · cases hread
      rfl
  exact ⟨stored,hstored,hbody.symm.trans ((answer_body hanswer).trans hvalue)⟩

/-- A response that is stored uncompressed with a positive lifetime is not returned by the first
get after the put already. -/
theorem first_get_not_transparent (hstorable : Storable P config response ttl) {serialized : Str}
    (hserialized : serializeHttpResponse P response = .ok serialized)
    (hplain : serialized.length ≤ config.compressionThreshold)
    (hpositive : (cacheControl config response ttl).calculatedTtl ≠ 0) (url : Str) :
    ¬Along (httpStep P config) (Transparent P) .init
      [.put url ∅ response ttl (oddTime (cacheControl config response ttl).calculatedTtl),
        .get url ∅ (oddTime (cacheControl config response ttl).calculatedTtl)
          (oddTime (cacheControl config response ttl).calculatedTtl)] := by
  rintro ⟨-,htransparent,-⟩
  have hexpires := oddTime_expires (cacheControl config response ttl).calculatedTtl
  have hfresh := Fresh.put hstorable hserialized hpositive url hexpires
  cases hendian : P.endian with
  | little =>
    apply hfresh.little hendian _ (oddTime_low _) hexpires htransparent
    rw [oddTime]
    omega
  | big =>
    obtain ⟨hcan,serialized',hserialized',hfits⟩ := hstorable
    cases hserialized.symm.trans hserialized'
    obtain ⟨stored,hstored,hbody⟩ := hfresh.big hendian hfits htransparent
    obtain ⟨-,-,hresponse⟩ := put_first ⟨hcan,serialized,hserialized,hfits⟩ hserialized url ∅ hexpires
    cases hresponse.symm.trans hstored
    rw [(responseEntry_plain hplain url response ttl _).2] at hbody
    have hlength := length_serializeHttpResponse hserialized
    rw [← hbody] at hlength
    exact Nat.lt_irrefl _ hlength

/-- After as many gets as an entry can count at the latest. -/
theorem not_transparent (hstorable : Storable P config response ttl)
    (hpositive : (cacheControl config response ttl).calculatedTtl ≠ 0) (url : Str) :
    ¬Along (httpStep P config) (Transparent P) .init
      (hits url response ttl (oddTime (cacheControl config response ttl).calculatedTtl)) := by
  obtain ⟨serialized,hserialized,-⟩ := hstorable.fits
  have hexpires := oddTime_expires (cacheControl config response ttl).calculatedTtl
  have hfresh := Fresh.put hstorable hserialized hpositive url hexpires
  rintro ⟨-,hrun⟩
  cases hendian : P.endian with
  | little =>
    obtain ⟨n,hn⟩ := Nat.exists_eq_succ_of_ne_zero (show u32End ≠ 0 by decide)
    rw [hn,List.replicate_succ] at hrun
    apply hfresh.little hendian _ (oddTime_low _) hexpires hrun.1
    rw [oddTime]
    omega
  | big =>
    have hcount := hfresh.gets hendian u32End hrun (by decide)
    omega

end Kinds

/-- Every run that puts only responses of the given kind is transparent exactly if those of
them that can be stored get a lifetime of zero. -/
theorem transparent_iff (P : Platform) (config : CacheConfig) (kind : Set (HttpResponse×Option UInt32)) :
    (∀ calls, (∀ call ∈ calls, PutsOf kind call) → Along (httpStep P config) (Transparent P) .init calls) ↔
      ∀ r ∈ kind, Storable P config r.1 r.2 → (cacheControl config r.1 r.2).calculatedTtl = 0 := by
  constructor
  · rintro h ⟨response,ttl⟩ hkind hstorable
    by_contra hpositive
    exact not_transparent hstorable hpositive [] (h _ (putsOf_hits hkind))
  · intro hkind calls hcalls
    apply along_of_inv (I:=Expired) _ _ hcalls
    · intro s call h hcall
      exact h.step hkind hcall
    · intro url stored hstored
      cases hstored

def greeting : HttpResponse := ⟨200,[],[0x68,0x69]⟩

def greetingUrl : Str := TextScan.ascii "http://a/".toList

def greetingPlatform (endian : Endian) : Platform := plainPlatform endian { size := 2 } []

/-- A response is put, and the client asks for it a second later. -/
def greetingCalls : List HttpCall :=
  [.put greetingUrl ∅ greeting none 1700000000,.get greetingUrl ∅ 1700000001 1700000001]

def greetingPut (P : Platform) : TracedCache := httpStep P {} .init (.put greetingUrl ∅ greeting none 1700000000)

theorem greeting_storable (endian : Endian) : Storable (greetingPlatform endian) {} greeting none := by
  refine ⟨by decide,_,rfl,?_⟩
  cases endian with
  | little => exact ⟨by decide +kernel,by decide +kernel⟩
  | big => exact ⟨by decide +kernel,by decide +kernel⟩

theorem greeting_not_transparent {endian : Endian} (hbody : ((greetingPut (greetingPlatform endian)).http.getHttpResponse
      (greetingPlatform endian) greetingUrl ∅ 1700000001 1700000001).1.toOption.join.map (·.body) ≠ some greeting.body) :
    ¬Along (httpStep (greetingPlatform endian) {}) (Transparent (greetingPlatform endian)) .init greetingCalls := by
  rintro ⟨-,hget,-⟩
  obtain ⟨-,-,hstored⟩ := put_first (greeting_storable endian) rfl greetingUrl ∅ (show (1700000000 : ℤ)+_ < i64End by decide)
  have hunmatched : ¬Matches ∅ greeting := by
    rintro ⟨etag,hetag,-⟩
    cases hetag
  obtain ⟨found,hfound,-,-,hsame⟩ :=
    hget greetingUrl ∅ 1700000001 1700000001 _ rfl hstored (by decide) (by decide) (by decide) hunmatched
  apply hbody
  rw [greetingPut,hfound,← hsame]
  rfl

/-- The body that is returned is not the one that was stored, on either kind of machine. -/
theorem transparent_broken :
    ¬Along (httpStep (greetingPlatform .big) {}) (Transparent (greetingPlatform .big)) .init greetingCalls ∧
    ¬Along (httpStep (greetingPlatform .little) {}) (Transparent (greetingPlatform .little)) .init greetingCalls := by
  constructor
  · apply greeting_not_transparent
    decide +kernel
  · apply greeting_not_transparent
    decide +kernel

end ZNet.Caching
