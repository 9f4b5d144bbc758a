import ZNet.TextScan

/-!
# Origins

`Origin.parse` takes the scheme, the host and the port from a URL. Written out again as
`scheme://host:port`, different origins that were parsed are different texts.
-/

namespace ZNet.Origins
open TextScan

structure Origin where
  scheme : List UInt8
  host : List UInt8
  port : ℕ
deriving DecidableEq

inductive OriginError
  | invalidUrl | unsupportedScheme | invalidPort
deriving DecidableEq

def schemeEnd : List UInt8 := [0x3a,0x2f,0x2f]

def colon : UInt8 := 0x3a

def slash : UInt8 := 0x2f

def defaultPort (scheme : List UInt8) : Option ℕ :=
  if scheme = ascii "https".toList then some 443
  else if scheme = ascii "http".toList then some 80
  else if scheme = ascii "ws".toList then some 80
  else if scheme = ascii "wss".toList then some 443
  else none

/-- The part of a URL between `://` and the next slash. -/
def hostPort (url : List UInt8) (start : ℕ) : List UInt8 := (url.drop start).takeWhile (· ≠ slash)

def Origin.parse (url : List UInt8) : Except OriginError Origin :=
  match indexOf schemeEnd url with
  | none => .error .invalidUrl
  | some colonPos =>
    let scheme := url.take colonPos
    let hostPort := hostPort url (colonPos+3)
    match lastIndexOfScalar colon hostPort with
    | none =>
      match defaultPort (scheme.map toLower) with
      | some port => .ok ⟨scheme,hostPort,port⟩
      | none => .error .unsupportedScheme
    | some colonPosHost =>
      match parseUnsigned 65536 (hostPort.drop (colonPosHost+1)) with
      | some port => .ok ⟨scheme,hostPort.take colonPosHost,port⟩
      | none => .error .invalidPort

def Origin.isSameOrigin (self other : Origin) : Bool :=
  self.scheme == other.scheme && self.host == other.host && self.port == other.port

theorem Origin.isSameOrigin_iff (o o' : Origin) : o.isSameOrigin o' = true ↔ o = o' := by
  cases o
  cases o'
  simp only [isSameOrigin,Bool.and_eq_true,beq_iff_eq,Origin.mk.injEq,and_assoc]

/-- The text `{}://{}:{}` of the scheme, the host and the port. -/
def Origin.format (self : Origin) : List UInt8 := self.scheme++schemeEnd++(self.host++colon::decimal self.port)

/-- An origin that some URL is parsed to. -/
structure ParsedOrigin where
  origin : Origin
  parsed : ∃ url, Origin.parse url = .ok origin

instance : DecidableEq ParsedOrigin := fun a b =>
  decidable_of_iff (a.origin = b.origin) ⟨fun h => by cases a; cases b; cases h; rfl,fun h => h ▸ rfl⟩

/-- The scheme of a parsed origin ends at the first `://`. -/
theorem parse_scheme {url : List UInt8} {o : Origin} (h : Origin.parse url = .ok o) (rest : List UInt8) :
    indexOf schemeEnd (o.scheme++schemeEnd++rest) = some o.scheme.length := by
  rw [Origin.parse] at h
  cases hindex : indexOf schemeEnd url with
  | none =>
    rw [hindex] at h
    cases h
  | some colonPos =>
    obtain ⟨-,hle,hfirst⟩ := indexOf_some hindex
    have hscheme : o.scheme = url.take colonPos := by
      simp only [hindex] at h
      split at h
      · split at h
        · cases h
          rfl
        · cases h
      · split at h
        · cases h
          rfl
        · cases h
    rw [hscheme,hfirst rest,List.length_take,Nat.min_eq_left hle]

/-- Two parsed origins with the same text are the same. -/
theorem format_injective {o o' : ParsedOrigin} (h : o.origin.format = o'.origin.format) : o = o' := by
  obtain ⟨o,url,hurl⟩ := o
  obtain ⟨o',url',hurl'⟩ := o'
  obtain ⟨hscheme,hrest⟩ := append_needle_inj (parse_scheme hurl) (parse_scheme hurl') h
  have hcolon : ∀ n, colon ∉ decimal n := notMem_decimal (Or.inr (by decide))
  obtain ⟨hhost,hport⟩ := append_last_inj (hcolon _) (hcolon _) hrest
  have hport := decimal_injective hport
  cases o
  cases o'
  cases hscheme
  cases hhost
  cases hport
  rfl

/-- The keys of the storages agree exactly where the origins are the same. -/
theorem format_eq_iff (o o' : ParsedOrigin) : o.origin.format = o'.origin.format ↔ o.origin.isSameOrigin o'.origin := by
  rw [Origin.isSameOrigin_iff]
  constructor
  · intro h
    exact congrArg ParsedOrigin.origin (format_injective h)
  · exact congrArg Origin.format

end ZNet.Origins
