import ZNet.StorageBridge
import ZNet.Decimals

/-!
# The Set-Cookie header

A cookie is written as its name and value with the attributes behind semicolons. The parser
takes the attributes one after the other, each by the first test that it passes.
-/

namespace ZNet.Storage
open TextScan Tables

def text (s : String) : Str := ascii s.toList

def blanks : Str := ascii [' ','\t']

inductive CookieError
  | invalidCookie | panic
deriving DecidableEq

namespace Cookie

def calculateSize (self : Cookie) : Cookie :=
  { self with
    sizeBytes := self.name.length+self.value.length+(if 0 < self.domain.length then self.domain.length+7 else 0)+
      (if 0 < self.path.length then self.path.length+6 else 0)+(if self.expires.isSome then 20 else 0)+
      (if self.secure then 9 else 0)+(if self.httpOnly then 12 else 0)+15 }

def setDomain (self : Cookie) (domain : Str) : Cookie := calculateSize { self with domain := domain }

def setPath (self : Cookie) (path : Str) : Cookie := calculateSize { self with path := path }

def setExpiration (self : Cookie) (expires : ℕ) : Cookie := { self with expires := some expires }

def setSecure (self : Cookie) (secure : Bool) : Cookie := { self with secure := secure }

def setHttpOnly (self : Cookie) (httpOnly : Bool) : Cookie := { self with httpOnly := httpOnly }

def setSameSite (self : Cookie) (policy : SameSitePolicy) : Cookie := { self with sameSite := policy }

/-- The sum of the clock and an age traps when it overflows. -/
def expireAfter (self : Cookie) (now age : ℕ) : Except CookieError Cookie :=
  if now+age < 2^64 then .ok (self.setExpiration (now+age)) else .error .panic

end Cookie

/-- A date is not read: the result is the present time. -/
def parseHttpDate (now : ℕ) (_date : Str) : Except CookieError ℕ := .ok now

/-- The timestamp in decimal. -/
def formatHttpDate (timestamp : ℕ) : Str := decimal timestamp

/-- One part behind a semicolon changes the cookie; unknown ones do not. -/
def applyAttribute (now : ℕ) (cookie : Cookie) (part : Str) : Except CookieError Cookie :=
  let trimmed := trim blanks part
  if trimmed = text "Secure" then .ok (cookie.setSecure true)
  else if trimmed = text "HttpOnly" then .ok (cookie.setHttpOnly true)
  else if trimmed = text "SameSite=Strict" then .ok (cookie.setSameSite .strict)
  else if trimmed = text "SameSite=Lax" then .ok (cookie.setSameSite .lax)
  else if trimmed = text "SameSite=None" then .ok (cookie.setSameSite .none)
  else if (text "Domain=").isPrefixOf trimmed then .ok (cookie.setDomain (trimmed.drop 7))
  else if (text "Path=").isPrefixOf trimmed then .ok (cookie.setPath (trimmed.drop 5))
  else if (text "Expires=").isPrefixOf trimmed then
    match parseHttpDate now (trimmed.drop 8) with
    | .error _ => cookie.expireAfter now 3600
    | .ok time => .ok (cookie.setExpiration time)
  else if (text "Max-Age=").isPrefixOf trimmed then
    match parseUnsigned (2^64) (trimmed.drop 8) with
    | none => .ok cookie
    | some maxAge => cookie.expireAfter now maxAge
  else .ok cookie

/-- The name and the value are on either side of the first equals sign. -/
def parseSetCookieHeader (now : ℕ) (header : Str) : Except CookieError Cookie :=
  match header.splitOnP (· == 0x3b) with
  | [] => .error .invalidCookie
  | nameValue::parts =>
    match indexOf [0x3d] nameValue with
    | none => .error .invalidCookie
    | some eqPos =>
      parts.foldlM (applyAttribute now)
        (.init (trim blanks (nameValue.take eqPos)) (trim blanks (nameValue.drop (eqPos+1))))

def SameSitePolicy.text : SameSitePolicy → Str
  | .strict => Storage.text "Strict"
  | .lax => Storage.text "Lax"
  | .none => Storage.text "None"

/-- The attributes of the header, which are written only where there is something to write. -/
def cookieString (cookie : Cookie) : Str :=
  cookie.name++0x3d::cookie.value++
  (if 0 < cookie.domain.length then text "; Domain="++cookie.domain else [])++
  (if 0 < cookie.path.length then text "; Path="++cookie.path else [])++
  (match cookie.expires with
    | some expires => text "; Expires="++formatHttpDate expires
    | none => [])++
  (if cookie.secure then text "; Secure" else [])++
  (if cookie.httpOnly then text "; HttpOnly" else [])++
  (text "; SameSite="++cookie.sameSite.text)

/-- The header is first put without attributes and then replaced. -/
def generateCookieHeader (cookie : Cookie) : Table Str Str :=
  (AList.insert (text "Set-Cookie") (cookie.name++0x3d::cookie.value) ∅).insert (text "Set-Cookie")
    (cookieString cookie)

/-- Without semicolons, and without blanks at the ends. -/
structure Plain (s : Str) : Prop where
  semicolon : 0x3b ∉ s
  first : ∀ b ∈ s.head?, b ∉ blanks
  last : ∀ b ∈ s.getLast?, b ∉ blanks

instance (first : Option UInt8) : Decidable (∀ b ∈ first, b ∉ blanks) := Option.decidableForallMem first

instance (s : Str) : Decidable (Plain s) :=
  decidable_of_iff (0x3b ∉ s ∧ (∀ b ∈ s.head?, b ∉ blanks) ∧ ∀ b ∈ s.getLast?, b ∉ blanks)
    ⟨fun h => ⟨h.1,h.2.1,h.2.2⟩,fun h => ⟨h.semicolon,h.first,h.last⟩⟩

/-- A cookie that can be written in a header and does not expire. -/
structure SessionCookie where
  cookie : Cookie
  session : cookie.expires = none
  name_plain : Plain cookie.name
  value_plain : Plain cookie.value
  domain_plain : Plain cookie.domain
  path_plain : Plain cookie.path
  name_equals : 0x3d ∉ cookie.name
  path_ne_nil : cookie.path ≠ []

/-- The cookies agree in everything that is written in a header. -/
structure SameAttributes (cookie cookie' : Cookie) : Prop where
  name : cookie.name = cookie'.name
  value : cookie.value = cookie'.value
  domain : cookie.domain = cookie'.domain
  path : cookie.path = cookie'.path
  secure : cookie.secure = cookie'.secure
  httpOnly : cookie.httpOnly = cookie'.httpOnly
  sameSite : cookie.sameSite = cookie'.sameSite

section Parts

variable {now : ℕ} {cookie : Cookie} {s t : Str}

theorem Plain.trim_eq (h : Plain s) : trim blanks s = s := by
  cases s with
  | nil => rfl
  | cons b s => exact trim_ends h.first h.last (List.cons_ne_nil b s)

/-- A part is written behind a blank. -/
theorem Plain.trim_blank (h : Plain s) (hne : s ≠ []) : trim blanks (0x20::s) = s := by
  have hblank : ∀ b ∈ [(0x20 : UInt8)], b ∈ blanks := by decide +kernel
  have hnone : ∀ b ∈ ([] : Str), b ∈ blanks := nofun
  have hpadded := trim_padded hblank hnone h.first h.last hne
  rwa [List.append_nil,List.singleton_append] at hpadded

theorem Plain.append (h : Plain s) (hne : s ≠ []) (h' : Plain t) : Plain (s++t) where
  semicolon hmem := (List.mem_append.mp hmem).elim h.semicolon h'.semicolon
  first := by
    rw [List.head?_append_of_ne_nil s hne]
    exact h.first
  last := by
    cases t with
    | nil =>
      rw [List.append_nil]
      exact h.last
    | cons b t =>
      rw [List.getLast?_append_of_ne_nil s (List.cons_ne_nil b t)]
      exact h'.last

theorem applyAttribute_secure : applyAttribute now cookie (text " Secure") = .ok (cookie.setSecure true) := by
  have htrim : trim blanks (text " Secure") = text "Secure" := by decide
  simp only [applyAttribute,htrim,if_true]

theorem applyAttribute_httpOnly : applyAttribute now cookie (text " HttpOnly") = .ok (cookie.setHttpOnly true) := by
  have htrim : trim blanks (text " HttpOnly") = text "HttpOnly" := by decide
  have hother : text "HttpOnly" ≠ text "Secure" := by decide
  simp only [applyAttribute,htrim,if_neg hother,if_true]

theorem applyAttribute_sameSite (policy : SameSitePolicy) :
    applyAttribute now cookie (text " SameSite="++policy.text) = .ok (cookie.setSameSite policy) := by
  cases policy with
  | strict =>
    have htrim : trim blanks (text " SameSite="++SameSitePolicy.strict.text) = text "SameSite=Strict" := by decide
    simp only [applyAttribute,htrim]
    rfl
  | lax =>
    have htrim : trim blanks (text " SameSite="++SameSitePolicy.lax.text) = text "SameSite=Lax" := by decide
    simp only [applyAttribute,htrim]
    rfl
  | none =>
    have htrim : trim blanks (text " SameSite="++SameSitePolicy.none.text) = text "SameSite=None" := by decide
    simp only [applyAttribute,htrim]
    rfl

/-- A domain passes no earlier test, whatever it looks like. -/
theorem applyAttribute_domain (h : Plain s) :
    applyAttribute now cookie (text " Domain="++s) = .ok (cookie.setDomain s) := by
  have hplain : Plain (text "Domain=") := by decide
  have hne : text "Domain="++s ≠ [] := List.append_ne_nil_of_left_ne_nil (by decide) s
  have htrim : trim blanks (text " Domain="++s) = text "Domain="++s := (hplain.append (by decide) h).trim_blank hne
  simp only [applyAttribute,htrim]
  simp [text,ascii]

theorem applyAttribute_path (h : Plain s) : applyAttribute now cookie (text " Path="++s) = .ok (cookie.setPath s) := by
  have hplain : Plain (text "Path=") := by decide
  have hne : text "Path="++s ≠ [] := List.append_ne_nil_of_left_ne_nil (by decide) s
  have htrim : trim blanks (text " Path="++s) = text "Path="++s := (hplain.append (by decide) h).trim_blank hne
  simp only [applyAttribute,htrim]
  simp [text,ascii]

end Parts

section Header

/-- The part of the header for a domain, and its effect. -/
def domainParts (cookie : Cookie) : List Str := if 0 < cookie.domain.length then [text " Domain="++cookie.domain] else []

def pathParts (cookie : Cookie) : List Str := if 0 < cookie.path.length then [text " Path="++cookie.path] else []

def secureParts (cookie : Cookie) : List Str := if cookie.secure then [text " Secure"] else []

def httpOnlyParts (cookie : Cookie) : List Str := if cookie.httpOnly then [text " HttpOnly"] else []

/-- The parts behind the semicolons. -/
def headerParts (cookie : Cookie) : List Str :=
  domainParts cookie++(pathParts cookie++(secureParts cookie++(httpOnlyParts cookie++
    [text " SameSite="++cookie.sameSite.text])))

theorem cookieString_eq {cookie : Cookie} (h : cookie.expires = none) :
    cookieString cookie = cookie.name++0x3d::cookie.value++(headerParts cookie).flatMap (0x3b::·) := by
  have hdomain : (domainParts cookie).flatMap (0x3b::·) =
      if 0 < cookie.domain.length then text "; Domain="++cookie.domain else [] := by
    rw [domainParts]
    split
    · exact List.flatMap_singleton ..
    · rfl
  have hpath : (pathParts cookie).flatMap (0x3b::·) =
      if 0 < cookie.path.length then text "; Path="++cookie.path else [] := by
    rw [pathParts]
    split
    · exact List.flatMap_singleton ..
    · rfl
  have hsecure : (secureParts cookie).flatMap (0x3b::·) = if cookie.secure then text "; Secure" else [] := by
    rw [secureParts]
    cases cookie.secure <;> rfl
  have hhttpOnly : (httpOnlyParts cookie).flatMap (0x3b::·) = if cookie.httpOnly then text "; HttpOnly" else [] := by
    rw [httpOnlyParts]
    cases cookie.httpOnly <;> rfl
  have hsameSite : [text " SameSite="++cookie.sameSite.text].flatMap (0x3b::·) =
      text "; SameSite="++cookie.sameSite.text := List.flatMap_singleton ..
  rw [cookieString,h,headerParts,List.flatMap_append,List.flatMap_append,List.flatMap_append,List.flatMap_append,
    hdomain,hpath,hsecure,hhttpOnly,hsameSite]
  simp only [List.append_assoc,List.nil_append]

namespace SessionCookie

variable (c : SessionCookie) (now : ℕ)

theorem semicolon_not_in_parts : ∀ part ∈ headerParts c.cookie, 0x3b ∉ part := by
  intro part hpart
  simp only [headerParts,domainParts,pathParts,secureParts,httpOnlyParts,List.mem_append,List.mem_ite_nil_right,
    List.mem_singleton] at hpart
  rcases hpart with ⟨-,rfl⟩ | ⟨-,rfl⟩ | ⟨-,rfl⟩ | ⟨-,rfl⟩ | rfl
  · exact fun hmem => (List.mem_append.mp hmem).elim (by decide) c.domain_plain.semicolon
  · exact fun hmem => (List.mem_append.mp hmem).elim (by decide) c.path_plain.semicolon
  · decide
  · decide
  · cases c.cookie.sameSite <;> decide

/-- The cookie as the parser puts it together. -/
def rebuilt : Cookie :=
  let named := Cookie.init c.cookie.name c.cookie.value
  let placed := if 0 < c.cookie.domain.length then named.setDomain c.cookie.domain else named
  let rooted := placed.setPath c.cookie.path
  let secured := if c.cookie.secure then rooted.setSecure true else rooted
  let hidden := if c.cookie.httpOnly then secured.setHttpOnly true else secured
  hidden.setSameSite c.cookie.sameSite

theorem foldlM_headerParts : (headerParts c.cookie).foldlM (applyAttribute now)
    (.init c.cookie.name c.cookie.value) = .ok c.rebuilt := by
  have hpath : 0 < c.cookie.path.length := List.length_pos_of_ne_nil c.path_ne_nil
  have hdomain (start : Cookie) : (domainParts c.cookie).foldlM (applyAttribute now) start =
      .ok (if 0 < c.cookie.domain.length then start.setDomain c.cookie.domain else start) := by
    rw [domainParts]
    split
    · rw [List.foldlM_cons,applyAttribute_domain c.domain_plain]
      rfl
    · rfl
  have hroot (start : Cookie) :
      (pathParts c.cookie).foldlM (applyAttribute now) start = .ok (start.setPath c.cookie.path) := by
    rw [pathParts,if_pos hpath,List.foldlM_cons,applyAttribute_path c.path_plain]
    rfl
  have hsecure (start : Cookie) : (secureParts c.cookie).foldlM (applyAttribute now) start =
      .ok (if c.cookie.secure then start.setSecure true else start) := by
    rw [secureParts]
    split
    · rw [List.foldlM_cons,applyAttribute_secure]
      rfl
    · rfl
  have hhttpOnly (start : Cookie) : (httpOnlyParts c.cookie).foldlM (applyAttribute now) start =
      .ok (if c.cookie.httpOnly then start.setHttpOnly true else start) := by
    rw [httpOnlyParts]
    split
    · rw [List.foldlM_cons,applyAttribute_httpOnly]
      rfl
    · rfl
  simp only [headerParts,List.foldlM_append,hdomain,hroot,hsecure,hhttpOnly,List.foldlM_cons,List.foldlM_nil,
    applyAttribute_sameSite,bind,Except.bind,rebuilt]
  rfl

theorem sameAttributes_rebuilt : SameAttributes c.rebuilt c.cookie := by
  have hempty : ¬0 < c.cookie.domain.length → c.cookie.domain = [] := fun h => List.length_eq_zero_iff.mp (by omega)
  rw [rebuilt]
  split_ifs with hdomain hsecure hhttpOnly
  all_goals
    constructor <;> simp_all [Cookie.setDomain,Cookie.setPath,Cookie.setSecure,Cookie.setHttpOnly,Cookie.setSameSite,
      Cookie.calculateSize,Cookie.init]

/-- A session cookie that is written in a header is read from it again. -/
theorem parse_generate : ∃ header parsed, (generateCookieHeader c.cookie).lookup (text "Set-Cookie") = some header ∧
    parseSetCookieHeader now header = .ok parsed ∧ SameAttributes parsed c.cookie := by
  have hname : 0x3b ∉ c.cookie.name++0x3d::c.cookie.value := by
    rw [List.mem_append,List.mem_cons,not_or,not_or]
    exact ⟨c.name_plain.semicolon,by decide,c.value_plain.semicolon⟩
  have hequals : indexOf [0x3d] (c.cookie.name++0x3d::c.cookie.value) = some c.cookie.name.length :=
    indexOf_append_first c.name_equals [] c.cookie.value
  have htake : (c.cookie.name++0x3d::c.cookie.value).take c.cookie.name.length = c.cookie.name := List.take_left
  have hdrop : (c.cookie.name++0x3d::c.cookie.value).drop (c.cookie.name.length+1) = c.cookie.value := by
    rw [← List.drop_drop,List.drop_left]
    rfl
  refine ⟨cookieString c.cookie,c.rebuilt,AList.lookup_insert _,?_,c.sameAttributes_rebuilt⟩
  rw [parseSetCookieHeader,cookieString_eq c.session,splitOnP_flatMap hname c.semicolon_not_in_parts]
  simp only [hequals,htake,hdrop,c.name_plain.trim_eq,c.value_plain.trim_eq,c.foldlM_headerParts]

/-- `id=a b`, for the path `/app` of `b.c` and secure connections. -/
def appCookie : SessionCookie where
  cookie := { ((Cookie.init (text "id") (text "a b")).setDomain (text "b.c")).setPath (text "/app") with secure := true }
  session := rfl
  name_plain := by decide
  value_plain := by decide
  domain_plain := by decide
  path_plain := by decide
  name_equals := by decide
  path_ne_nil := by decide

theorem parse_generate_app : ∃ header parsed,
    (generateCookieHeader appCookie.cookie).lookup (text "Set-Cookie") = some header ∧
      parseSetCookieHeader 0 header = .ok parsed ∧ SameAttributes parsed appCookie.cookie :=
  parse_generate appCookie 0

end SessionCookie

end Header

end ZNet.Storage
