import ZNet.CookiePartitions
import ZNet.LetterCase
import ZNet.OriginAuthority

/-!
# Cookies for a URL

The path of a cookie is compared with the beginning of the whole URL, where the scheme stands,
and its domain with the end of the host, at any character. A cookie with a rooted path is
retrieved for no URL at all.
-/

namespace ZNet.Storage
open TextScan Origins Tables

def dot : UInt8 := 0x2e

def atSign : UInt8 := 0x40

def question : UInt8 := 0x3f

def hash : UInt8 := 0x23

/-- A URL with the scheme `http` or `https` in its parts. A host with colons is in brackets. -/
structure HttpUrl where
  scheme : Str
  userinfo : Option Str
  host : Str
  port : Option Str
  path : Str
  query : Option Str
  fragment : Option Str
  http : SameLetters scheme (ascii "http".toList) ∨ SameLetters scheme (ascii "https".toList)
  userinfo_plain : ∀ text ∈ userinfo, ∀ c ∈ text, c ≠ slash ∧ c ≠ question ∧ c ≠ hash ∧ c ≠ atSign
  host_plain : ∀ c ∈ host, c ≠ slash ∧ c ≠ question ∧ c ≠ hash ∧ c ≠ atSign
  host_colon : colon ∈ host → host.head? = some 0x5b ∧ host.getLast? = some 0x5d
  port_digits : ∀ text ∈ port, ∀ c ∈ text, isDigit c = true
  path_rooted : ∀ c ∈ path.head?, c = slash
  path_plain : ∀ c ∈ path, c ≠ question ∧ c ≠ hash
  query_plain : ∀ text ∈ query, hash ∉ text

namespace HttpUrl

def authority (url : HttpUrl) : Str :=
  url.userinfo.elim [] (·++[atSign])++(url.host++url.port.elim [] (colon::·))

def text (url : HttpUrl) : Str :=
  url.scheme++(schemeEnd++(url.authority++(url.path++(url.query.elim [] (question::·)++
    url.fragment.elim [] (hash::·)))))

def IsHttps (url : HttpUrl) : Prop := SameLetters url.scheme (ascii "https".toList)

/-- The path that is requested, where an empty path is the root. -/
def requestPath (url : HttpUrl) : Str := if url.path = [] then [slash] else url.path

end HttpUrl

/-- The domain is empty, or the host, or what is behind a dot of the host. -/
def DomainMatches (domain host : Str) : Prop := domain = [] ∨ domain = host ∨ dot::domain <:+ host

/-- The path of the request is the path of the cookie, or it goes on at a slash. -/
def PathMatches (cookiePath requestPath : Str) : Prop :=
  cookiePath = requestPath ∨ cookiePath <+: requestPath ∧
    (cookiePath.getLast? = some slash ∨ requestPath[cookiePath.length]? = some slash)

/-- The cookie is to be sent with a request for the URL. -/
structure Retrievable (cookie : Cookie) (url : HttpUrl) (now : ℕ) : Prop where
  live : cookie.isExpired now = false
  domain : DomainMatches cookie.domain url.host
  path : PathMatches cookie.path url.requestPath
  secure : cookie.secure = true → url.IsHttps

/-- The text is a URL for the code, and the domain is at the end of the host that it finds. -/
def HostEnds (domain text : Str) : Prop := ∃ origin, Origin.parse text = .ok origin ∧ domain <:+ origin.host

/-- Where retrieval does what it should. The cookie has expired; or it has no path, and the end
of the host decides like the domain and `Secure`; or its path is rooted and it is not to be sent;
or its path is of neither kind and the code refuses it too. -/
def Agrees (cookie : Cookie) (url : HttpUrl) (now : ℕ) : Prop :=
  cookie.isExpired now = true ∨
  (cookie.path = [] ∧ (HostEnds cookie.domain url.text ↔
    DomainMatches cookie.domain url.host ∧ (cookie.secure = true → url.IsHttps))) ∨
  (cookie.path.head? = some slash ∧ ¬(DomainMatches cookie.domain url.host ∧
    PathMatches cookie.path url.requestPath ∧ (cookie.secure = true → url.IsHttps))) ∨
  (cookie.path ≠ [] ∧ cookie.path.head? ≠ some slash ∧
    ¬(HostEnds cookie.domain url.text ∧ cookie.path <+: url.text))

variable {s : StorageBridge} {pair : SitePair} {name text : Str} {cookie : Cookie} {now : ℕ}

section Code

theorem matchesUrl_iff : cookie.matchesUrl text = true ↔ HostEnds cookie.domain text ∧ cookie.path <+: text := by
  rw [Cookie.matchesUrl,HostEnds]
  cases hparse : Origin.parse text with
  | error e => simp
  | ok origin =>
    simp only [Except.ok.injEq,exists_eq_left']
    cases hdomain : cookie.domain with
    | nil => simp [List.isPrefixOf_iff_prefix]
    | cons c rest =>
      by_cases hends : c::rest <:+ origin.host
      · simp [List.isSuffixOf_iff_suffix.mpr hends,hends,List.isPrefixOf_iff_prefix]
      · have hother : ¬origin.host = c::rest := fun hsame => hends (hsame ▸ List.suffix_refl _)
        have hsuffix : (c::rest).isSuffixOf origin.host = false := by
          rw [Bool.eq_false_iff,ne_eq,List.isSuffixOf_iff_suffix]
          exact hends
        simp [hends,hother,hsuffix]

/-- A stored cookie is retrieved exactly if it is live and matches. -/
theorem mem_getCookiesForUrl (hstored : cookieAt s (partitionKey pair) name = some cookie) :
    cookie ∈ s.getCookiesForUrl text pair.topLevelSite pair.origin now ↔
      cookie.isExpired now = false ∧ HostEnds cookie.domain text ∧ cookie.path <+: text := by
  obtain ⟨partition,hlookup,hname⟩ := Option.bind_eq_some_iff.mp hstored
  have hmem : cookie ∈ partition.cookies.entries.map (·.2) :=
    List.mem_map.mpr ⟨⟨name,cookie⟩,AList.mem_lookup_iff.mp hname,rfl⟩
  rw [partitionKey] at hlookup
  rw [StorageBridge.getCookiesForUrl,hlookup,← matchesUrl_iff]
  simp only [List.mem_filter,Bool.and_eq_true,Bool.not_eq_true',hmem,true_and]

end Code

section Urls

variable (url : HttpUrl)

/-- The text begins with the scheme, which is no slash. -/
theorem text_not_rooted {path : Str} (hrooted : path.head? = some slash) : ¬path <+: url.text := by
  intro hbegins
  obtain ⟨c,scheme,hscheme,hletter⟩ : ∃ c scheme, url.scheme = c::scheme ∧ toLower c = 0x68 := by
    have hhttp := url.http
    cases hscheme : url.scheme with
    | nil =>
      rw [hscheme] at hhttp
      rcases hhttp with h | h
      · cases h
      · cases h
    | cons c scheme =>
      rw [hscheme] at hhttp
      exact ⟨c,scheme,rfl,hhttp.elim (fun h => (List.cons.inj h).1) fun h => (List.cons.inj h).1⟩
  cases path with
  | nil => cases hrooted
  | cons d path =>
    obtain rfl := Option.some.inj hrooted
    rw [HttpUrl.text,hscheme,List.cons_append,List.cons_prefix_cons] at hbegins
    rw [← hbegins.1] at hletter
    exact absurd hletter (by decide)

theorem requestPath_head : url.requestPath.head? = some slash := by
  rw [HttpUrl.requestPath]
  have hrooted := url.path_rooted
  cases hpath : url.path with
  | nil => rfl
  | cons c path =>
    rw [hpath] at hrooted
    rw [if_neg (List.cons_ne_nil c path),hrooted c rfl]
    rfl

/-- A cookie without a path is for every path. -/
theorem pathMatches_nil : PathMatches [] url.requestPath := by
  refine Or.inr ⟨List.nil_prefix,Or.inr ?_⟩
  rw [List.length_nil,← List.head?_eq_getElem?]
  exact requestPath_head url

/-- Only a rooted path is the beginning of a path. -/
theorem head_of_pathMatches {path : Str} (hmatches : PathMatches path url.requestPath) (hne : path ≠ []) :
    path.head? = some slash := by
  have hbegins : path <+: url.requestPath := by
    rcases hmatches with hsame | ⟨hbegins,-⟩
    · exact ⟨[],(List.append_nil path).trans hsame⟩
    · exact hbegins
  obtain ⟨rest,hrest⟩ := hbegins
  rw [← requestPath_head url,← hrest,List.head?_append_of_ne_nil _ hne]

end Urls

section Text

theorem elim_cons_inj {c : UInt8} {o o' : Option Str} (h : o.elim [] (c::·) = o'.elim [] (c::·)) : o = o' := by
  cases o with
  | none =>
    cases o' with
    | none => rfl
    | some text => cases h
  | some text =>
    cases o' with
    | none => cases h
    | some text' => rw [(List.cons.inj h).2]

theorem scheme_plain (url : HttpUrl) : ∀ c ∈ url.scheme, (c == colon) = false := by
  intro c hc
  rw [beq_eq_false_iff_ne]
  rintro rfl
  have hlower := List.mem_map_of_mem (f:=toLower) hc
  rcases url.http with h | h
  · rw [h] at hlower
    exact absurd hlower (by decide)
  · rw [h] at hlower
    exact absurd hlower (by decide)

/-- What ends the part of a URL before its path. -/
def endsAuthority (c : UInt8) : Bool := c == slash || c == question || c == hash

def endsPath (c : UInt8) : Bool := c == question || c == hash

theorem port_plain {url : HttpUrl} {c : UInt8} (hc : c ∈ url.port.elim [] (colon::·)) :
    c = colon ∨ isDigit c = true := by
  have hdigits := url.port_digits
  cases hport : url.port with
  | none =>
    rw [hport] at hc
    cases hc
  | some text =>
    rw [hport] at hc hdigits
    rcases List.mem_cons.mp hc with hcolon | hc
    · exact .inl hcolon
    · exact .inr (hdigits text rfl c hc)

theorem isDigit_ne {c d : UInt8} (hc : isDigit c = true) (hd : isDigit d = false) : c ≠ d := by
  rintro rfl
  rw [hc] at hd
  cases hd

theorem authority_plain (url : HttpUrl) : ∀ c ∈ url.authority, endsAuthority c = false := by
  intro c hc
  simp only [endsAuthority,Bool.or_eq_false_iff,beq_eq_false_iff_ne,and_assoc]
  rw [HttpUrl.authority,List.mem_append,List.mem_append] at hc
  rcases hc with huser | hhost | hport
  · have hplain := url.userinfo_plain
    cases huserinfo : url.userinfo with
    | none =>
      rw [huserinfo] at huser
      cases huser
    | some text =>
      rw [huserinfo] at huser hplain
      rcases List.mem_append.mp huser with huser | huser
      · obtain ⟨hslash,hquestion,hhash,-⟩ := hplain text rfl c huser
        exact ⟨hslash,hquestion,hhash⟩
      · obtain rfl := List.mem_singleton.mp huser
        decide
  · obtain ⟨hslash,hquestion,hhash,-⟩ := url.host_plain c hhost
    exact ⟨hslash,hquestion,hhash⟩
  · rcases port_plain hport with rfl | hdigit
    · decide
    · exact ⟨isDigit_ne hdigit (by decide),isDigit_ne hdigit (by decide),isDigit_ne hdigit (by decide)⟩

theorem query_head (url : HttpUrl) :
    ∀ c ∈ (url.query.elim [] (question::·)++url.fragment.elim [] (hash::·)).head?, endsPath c = true := by
  intro c hc
  cases hquery : url.query with
  | some text =>
    rw [hquery] at hc
    obtain rfl := Option.some.inj hc
    rfl
  | none =>
    cases hfragment : url.fragment with
    | some text =>
      rw [hquery,hfragment] at hc
      obtain rfl := Option.some.inj hc
      rfl
    | none =>
      rw [hquery,hfragment] at hc
      cases hc

theorem path_plain (url : HttpUrl) : ∀ c ∈ url.path, endsPath c = false := by
  intro c hc
  simp only [endsPath,Bool.or_eq_false_iff,beq_eq_false_iff_ne]
  exact url.path_plain c hc

theorem path_head (url : HttpUrl) :
    ∀ c ∈ (url.path++(url.query.elim [] (question::·)++url.fragment.elim [] (hash::·))).head?,
      endsAuthority c = true := by
  intro c hc
  have hrooted := url.path_rooted
  cases hpath : url.path with
  | nil =>
    rw [hpath,List.nil_append] at hc
    have hends := query_head url c hc
    rw [endsPath] at hends
    rw [endsAuthority,Bool.or_assoc,hends,Bool.or_true]
  | cons d path =>
    rw [hpath] at hc hrooted
    obtain rfl := Option.some.inj hc
    rw [hrooted d rfl]
    rfl

theorem query_cut (url : HttpUrl) : (∀ c ∈ url.query.elim [] (question::·), (c == hash) = false) ∧
    ∀ c ∈ (url.fragment.elim [] (hash::·)).head?, (c == hash) = true := by
  constructor
  · intro c hc
    rw [beq_eq_false_iff_ne]
    rintro rfl
    have hplain := url.query_plain
    cases hquery : url.query with
    | none =>
      rw [hquery] at hc
      cases hc
    | some text =>
      rw [hquery] at hc hplain
      rcases List.mem_cons.mp hc with hsame | hc
      · exact absurd hsame (by decide)
      · exact hplain text rfl hc
  · intro c hc
    cases hfragment : url.fragment with
    | none =>
      rw [hfragment] at hc
      cases hc
    | some text =>
      rw [hfragment] at hc
      obtain rfl := Option.some.inj hc
      rfl

/-- Where there is no port in one URL, there is none behind its host in the other. -/
theorem port_none {url url' : HttpUrl} (h : url.host = url'.host++url'.port.elim [] (colon::·)) : url'.port = none := by
  cases hport : url'.port with
  | none => rfl
  | some text =>
    rw [hport] at h
    have hcolon : colon ∈ url.host := by
      rw [h]
      simp
    have hlast := (url.host_colon hcolon).2
    rw [h,Option.elim_some,List.getLast?_append_of_ne_nil _ (List.cons_ne_nil colon text)] at hlast
    have hmem : (0x5d : UInt8) ∈ url'.port.elim [] (colon::·) := by
      rw [hport]
      exact List.mem_of_getLast? hlast
    rcases port_plain hmem with hsame | hdigit
    · exact absurd hsame (by decide)
    · exact absurd hdigit (by decide)

theorem host_inj {url url' : HttpUrl}
    (h : url.host++url.port.elim [] (colon::·) = url'.host++url'.port.elim [] (colon::·)) :
    url.host = url'.host ∧ url.port = url'.port := by
  cases hport : url.port with
  | none =>
    rw [hport,Option.elim_none,List.append_nil] at h
    have hnone := port_none h
    rw [hnone,Option.elim_none,List.append_nil] at h
    exact ⟨h,hnone.symm⟩
  | some text =>
    cases hport' : url'.port with
    | none =>
      rw [hport',Option.elim_none,List.append_nil] at h
      rw [port_none h.symm] at hport
      cases hport
    | some text' =>
      have hdigits (url : HttpUrl) (text : Str) (hport : url.port = some text) : colon ∉ text := by
        intro hcolon
        exact absurd (url.port_digits text hport colon hcolon) (by decide)
      rw [hport,hport'] at h
      obtain ⟨hhost,hsame⟩ := append_last_inj (hdigits url text hport) (hdigits url' text' hport') h
      exact ⟨hhost,congrArg some hsame⟩

theorem host_no_at (url : HttpUrl) : atSign ∉ url.host++url.port.elim [] (colon::·) := by
  intro hmem
  rcases List.mem_append.mp hmem with hhost | hport
  · exact (url.host_plain atSign hhost).2.2.2 rfl
  · rcases port_plain hport with hsame | hdigit
    · exact absurd hsame (by decide)
    · exact absurd hdigit (by decide)

theorem authority_inj {url url' : HttpUrl} (h : url.authority = url'.authority) :
    url.userinfo = url'.userinfo ∧ url.host = url'.host ∧ url.port = url'.port := by
  have hno := host_no_at url
  have hno' := host_no_at url'
  have hplain (url : HttpUrl) (text : Str) (huser : url.userinfo = some text) : atSign ∉ text :=
    fun hat => (url.userinfo_plain text huser atSign hat).2.2.2 rfl
  rw [HttpUrl.authority,HttpUrl.authority] at h
  cases huser : url.userinfo with
  | none =>
    cases huser' : url'.userinfo with
    | none =>
      rw [huser,huser'] at h
      exact ⟨rfl,host_inj h⟩
    | some text' =>
      rw [huser,huser',Option.elim_none,List.nil_append] at h
      rw [h] at hno
      simp at hno
  | some text =>
    cases huser' : url'.userinfo with
    | none =>
      rw [huser,huser',Option.elim_none,List.nil_append] at h
      rw [← h] at hno'
      simp at hno'
    | some text' =>
      rw [huser,huser',Option.elim_some,Option.elim_some,List.append_assoc,List.append_assoc] at h
      obtain ⟨hsame,hrest⟩ := append_first_inj (hplain url text huser) (hplain url' text' huser') h
      exact ⟨congrArg some hsame,host_inj hrest⟩

/-- The text of a URL determines its parts. -/
theorem text_injective {url url' : HttpUrl} (h : url.text = url'.text) : url = url' := by
  have hcolon (s : Str) : ∀ c ∈ (schemeEnd++s).head?, (c == colon) = true := by
    intro c hc
    obtain rfl := Option.some.inj hc
    rfl
  obtain ⟨hscheme,h⟩ := append_cut_inj (scheme_plain url) (scheme_plain url') (hcolon _) (hcolon _) h
  obtain ⟨hauthority,h⟩ := append_cut_inj (authority_plain url) (authority_plain url') (path_head url) (path_head url')
    (List.append_cancel_left h)
  obtain ⟨hpath,h⟩ := append_cut_inj (path_plain url) (path_plain url') (query_head url) (query_head url') h
  obtain ⟨hquery,hfragment⟩ :=
    append_cut_inj (query_cut url).1 (query_cut url').1 (query_cut url).2 (query_cut url').2 h
  obtain ⟨huserinfo,hhost,hport⟩ := authority_inj hauthority
  have hquery := elim_cons_inj hquery
  have hfragment := elim_cons_inj hfragment
  cases url
  cases url'
  cases hscheme
  cases huserinfo
  cases hhost
  cases hport
  cases hpath
  cases hquery
  cases hfragment
  rfl

end Text

section Hosts

variable {url : HttpUrl}

/-- For an ordinary URL the code finds the scheme and the host. -/
theorem parse_text (huser : url.userinfo = none) (hport : url.port = none) (hcolon : colon ∉ url.host)
    (hpath : url.path ≠ []) : ∃ port, Origin.parse url.text = .ok ⟨url.scheme,url.host,port⟩ := by
  have hauthority : url.authority = url.host := by
    rw [HttpUrl.authority,huser,hport]
    exact List.append_nil url.host
  have hscheme : colon ∉ url.scheme := fun hmem => absurd (scheme_plain url colon hmem) (by decide)
  have hslash : ∀ c ∈ url.host, decide (c ≠ slash) = true := fun c hc => decide_eq_true (url.host_plain c hc).1
  have hhost : ∀ rest, (url.authority++(url.path++rest)).takeWhile (· ≠ slash) = url.host := by
    intro rest
    obtain ⟨c,path,hcons⟩ := List.exists_cons_of_ne_nil hpath
    have hrooted := url.path_rooted c (by rw [hcons]; rfl)
    rw [hauthority,hcons,hrooted,List.takeWhile_append_of_pos hslash,List.cons_append,
      List.takeWhile_cons_of_neg (by simp),List.append_nil]
  obtain ⟨port,hdefault⟩ : ∃ port, defaultPort (url.scheme.map toLower) = some port := by
    rcases url.http with h | h
    · exact ⟨80,by rw [h]; decide⟩
    · exact ⟨443,by rw [h]; decide⟩
  exact ⟨port,by rw [HttpUrl.text,parse_append hscheme,hhost,authorityOrigin_host hcolon hdefault]⟩

theorem hostEnds_iff (huser : url.userinfo = none) (hport : url.port = none) (hcolon : colon ∉ url.host)
    (hpath : url.path ≠ []) {domain : Str} : HostEnds domain url.text ↔ domain <:+ url.host := by
  obtain ⟨port,hparse⟩ := parse_text huser hport hcolon hpath
  rw [HostEnds,hparse]
  simp

end Hosts

/-- A cookie is retrieved as it should be exactly where the end of the host decides like the
rules, with a path that is empty, or where neither the code nor the rules let it be sent. -/
theorem retrieval_iff (hstored : cookieAt s (partitionKey pair) name = some cookie) (url : HttpUrl) (now : ℕ) :
    (cookie ∈ s.getCookiesForUrl url.text pair.topLevelSite pair.origin now ↔ Retrievable cookie url now) ↔
      Agrees cookie url now := by
  rw [mem_getCookiesForUrl hstored,Agrees]
  have hrules : Retrievable cookie url now ↔ cookie.isExpired now = false ∧ DomainMatches cookie.domain url.host ∧
      PathMatches cookie.path url.requestPath ∧ (cookie.secure = true → url.IsHttps) :=
    ⟨fun h => ⟨h.live,h.domain,h.path,h.secure⟩,fun h => ⟨h.1,h.2.1,h.2.2.1,h.2.2.2⟩⟩
  rw [hrules]
  cases hexpired : cookie.isExpired now with
  | true => simp
  | false =>
    cases hpath : cookie.path with
    | nil => simp [pathMatches_nil]
    | cons c path =>
      by_cases hc : c = slash
      · subst hc
        have hnone : ¬slash::path <+: url.text := text_not_rooted url rfl
        simp [hnone]
      · have hnone : ¬PathMatches (c::path) url.requestPath := by
          intro hmatches
          exact hc (Option.some.inj (head_of_pathMatches url hmatches (List.cons_ne_nil c path)))
        simp [hnone,hc]

/-- The URL `https://example.com/page`. -/
def pageUrl : HttpUrl where
  scheme := ascii "https".toList
  userinfo := none
  host := ascii "example.com".toList
  port := none
  path := ascii "/page".toList
  query := none
  fragment := none
  http := .inr rfl
  userinfo_plain := by
    intro text h
    cases h
  host_plain := List.all_iff_forall_prop.mp (by decide)
  host_colon := fun h => absurd h (by decide)
  port_digits := by
    intro text h
    cases h
  path_rooted := fun c h => (Option.some.inj h).symm
  path_plain := List.all_iff_forall_prop.mp (by decide)
  query_plain := by
    intro text h
    cases h

/-- The cookie `a=b`. -/
def smallCookie (domain path : Str) : Cookie := { Cookie.init [0x61] [0x62] with domain := domain, path := path }

/-- A bridge with one cookie. -/
def alone (cookie : Cookie) : StorageBridge := StorageBridge.init.setCookie cookie [] [] 0

/-- What is retrieved for the page from a bridge with one cookie. -/
def retrievedAlone (cookie : Cookie) : List Cookie := (alone cookie).getCookiesForUrl pageUrl.text [] [] 0

theorem retrieval_iff_pathless : smallCookie pageUrl.host [] ∈ retrievedAlone (smallCookie pageUrl.host []) ↔
    Retrievable (smallCookie pageUrl.host []) pageUrl 0 := by
  have hstored : cookieAt (alone (smallCookie pageUrl.host [])) (partitionKey ⟨[],[]⟩) [0x61] =
    some (smallCookie pageUrl.host []) := rfl
  apply (retrieval_iff hstored pageUrl 0).mpr
  have hends : HostEnds pageUrl.host pageUrl.text :=
    (hostEnds_iff rfl rfl (by decide) (List.cons_ne_nil _ _)).mpr (List.suffix_refl _)
  refine Or.inr (Or.inl ⟨rfl,iff_of_true hends ⟨.inr (.inl rfl),?_⟩⟩)
  intro hsecure
  cases hsecure

/-- A cookie with the default path is not retrieved for a page of its site, and a cookie of
`ample.com` is retrieved for a page of `example.com`. -/
theorem default_path_missed :
    ¬(smallCookie [] [slash] ∈ retrievedAlone (smallCookie [] [slash]) ↔
      Retrievable (smallCookie [] [slash]) pageUrl 0) ∧
    ¬(smallCookie (ascii "ample.com".toList) [] ∈ retrievedAlone (smallCookie (ascii "ample.com".toList) []) ↔
      Retrievable (smallCookie (ascii "ample.com".toList) []) pageUrl 0) := by
  constructor
  · intro hsame
    have hretrievable : Retrievable (smallCookie [] [slash]) pageUrl 0 := by
      refine ⟨rfl,.inl rfl,.inr ⟨by decide,.inl rfl⟩,?_⟩
      intro hsecure
      cases hsecure
    exact absurd (hsame.mpr hretrievable) (by decide)
  · intro hsame
    rcases (hsame.mp (by decide)).domain with hempty | hhost | hdot
    · exact absurd hempty (by decide)
    · exact absurd hhost (by decide)
    · exact absurd hdot (by decide)

end ZNet.Storage
