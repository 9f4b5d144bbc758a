import ZNet.Origin
import ZNet.Decimals

/-!
# Where the authority ends

The host and the port of a web URL end at a slash, a question mark or a number sign.
`Origin.parse` looks for the slash only, so what stands before it is taken for the host or
the port.
-/

namespace ZNet.Origins
open TextScan

section Authority

variable {scheme host authority rest : List UInt8} {origin : Origin}

/-- What `parse` makes of the text in front of the first slash. -/
def authorityOrigin (scheme authority : List UInt8) : Except OriginError Origin :=
  match lastIndexOfScalar colon authority with
  | none =>
    match defaultPort (scheme.map toLower) with
    | some port => .ok ⟨scheme,authority,port⟩
    | none => .error .unsupportedScheme
  | some colonPos =>
    match parseUnsigned 65536 (authority.drop (colonPos+1)) with
    | some port => .ok ⟨scheme,authority.take colonPos,port⟩
    | none => .error .invalidPort

theorem parse_append (hscheme : colon ∉ scheme) (rest : List UInt8) :
    Origin.parse (scheme++(schemeEnd++rest)) = authorityOrigin scheme (rest.takeWhile (· ≠ slash)) := by
  have hindex : indexOf schemeEnd (scheme++(schemeEnd++rest)) = some scheme.length :=
    indexOf_append_first hscheme [0x2f,0x2f] rest
  have hdrop : (scheme++(schemeEnd++rest)).drop (scheme.length+3) = rest := by
    rw [← List.append_assoc]
    apply List.drop_left'
    rw [List.length_append]
    rfl
  rw [Origin.parse,hindex]
  simp only [hostPort,hdrop,List.take_left]
  rfl

theorem lastIndexOfScalar_none (h : colon ∉ host) : lastIndexOfScalar colon host = none := by
  rw [lastIndexOfScalar,List.idxOf?_eq_none_iff.mpr (by simpa using h)]
  rfl

theorem authorityOrigin_host (h : colon ∉ host) {port : ℕ} (hport : defaultPort (scheme.map toLower) = some port) :
    authorityOrigin scheme host = .ok ⟨scheme,host,port⟩ := by
  simp only [authorityOrigin,lastIndexOfScalar_none h,hport]

theorem authorityOrigin_port (host : List UInt8) {digits : List UInt8} (h : colon ∉ digits) {port : ℕ}
    (hport : parseUnsigned 65536 digits = some port) :
    authorityOrigin scheme (host++colon::digits) = .ok ⟨scheme,host,port⟩ := by
  have hdrop : (host++colon::digits).drop (host.length+1) = digits := by
    rw [← List.drop_drop,List.drop_left]
    rfl
  simp only [authorityOrigin,lastIndexOfScalar_append h,hdrop,hport,List.take_left]

/-- The authority is the host, or the host with the text of a port. -/
theorem authorityOrigin_ok (h : authorityOrigin scheme authority = .ok origin) :
    authority = origin.host ∨
    ∃ digits, authority = origin.host++colon::digits ∧ parseUnsigned 65536 digits = some origin.port := by
  rw [authorityOrigin] at h
  cases hlast : lastIndexOfScalar colon authority with
  | none =>
    rw [hlast] at h
    cases hport : defaultPort (scheme.map toLower) with
    | none =>
      simp only [hport] at h
      cases h
    | some port =>
      simp only [hport] at h
      cases h
      exact Or.inl rfl
  | some i =>
    have hcolon : authority[i]? = some colon := lastIndexOfScalar_some hlast
    obtain ⟨hlt,hget⟩ := List.getElem?_eq_some_iff.mp hcolon
    rw [hlast] at h
    cases hport : parseUnsigned 65536 (authority.drop (i+1)) with
    | none =>
      simp only [hport] at h
      cases h
    | some port =>
      simp only [hport] at h
      cases h
      refine Or.inr ⟨authority.drop (i+1),?_,hport⟩
      rw [← hget,List.getElem_cons_drop,List.take_append_drop]

end Authority

/-- The schemes with a default port. -/
inductive WebScheme
  | http | https | ws | wss
deriving DecidableEq

def WebScheme.text : WebScheme → List UInt8
  | .http => ascii "http".toList
  | .https => ascii "https".toList
  | .ws => ascii "ws".toList
  | .wss => ascii "wss".toList

def WebScheme.port : WebScheme → ℕ
  | .http => 80
  | .https => 443
  | .ws => 80
  | .wss => 443

/-- A slash, a question mark or a number sign. -/
def authorityEnds : List UInt8 := [slash,0x3f,0x23]

/-- A URL by its parts: in the host there is neither a colon nor an at sign nor what ends the
authority, and what ends it begins the rest. -/
structure WebUrl where
  scheme : WebScheme
  host : List UInt8
  port : Option UInt16
  suffix : List UInt8
  host_plain : ∀ c ∈ host, c ∉ authorityEnds ∧ c ≠ colon ∧ c ≠ 0x40
  suffix_ends : ∀ c ∈ suffix.head?, c ∈ authorityEnds

namespace WebUrl

def portText (url : WebUrl) : List UInt8 := url.port.elim [] fun port => colon::decimal port.toNat

def text (url : WebUrl) : List UInt8 :=
  url.scheme.text++(schemeEnd++(url.host++url.portText++url.suffix))

/-- The port that is given, or else the one of the scheme. -/
def origin (url : WebUrl) : Origin := ⟨url.scheme.text,url.host,url.port.elim url.scheme.port UInt16.toNat⟩

variable (url : WebUrl)

theorem portText_plain : ∀ c ∈ url.portText, c ∉ authorityEnds := by
  intro c hc
  rw [portText] at hc
  cases hport : url.port with
  | none =>
    rw [hport] at hc
    cases hc
  | some port =>
    rw [hport] at hc
    rcases List.mem_cons.mp hc with rfl | hdigit
    · decide
    · intro hends
      have hbytes : ∀ b ∈ authorityEnds, b < 0x30 ∨ 0x39 < b := by decide +kernel
      exact notMem_decimal (hbytes c hends) port.toNat hdigit

theorem parse_text : Origin.parse url.text =
    authorityOrigin url.scheme.text (url.host++url.portText++url.suffix.takeWhile (· ≠ slash)) := by
  have hscheme : colon ∉ url.scheme.text := by cases url.scheme <;> decide
  have hplain : ∀ c ∈ url.host++url.portText, decide (c ≠ slash) = true := by
    intro c hc
    rw [decide_eq_true_iff]
    rintro rfl
    rcases List.mem_append.mp hc with hhost | hport
    · exact (url.host_plain slash hhost).1 List.mem_cons_self
    · exact url.portText_plain slash hport List.mem_cons_self
  rw [text,parse_append hscheme,List.takeWhile_append_of_pos hplain]

/-- Without anything behind it the authority is read as it was written. -/
theorem authorityOrigin_eq : authorityOrigin url.scheme.text (url.host++url.portText) = .ok url.origin := by
  have hcolon : colon ∉ url.host := fun hmem => (url.host_plain colon hmem).2.1 rfl
  rw [origin,portText]
  cases url.port with
  | none =>
    have hport : defaultPort (url.scheme.text.map toLower) = some url.scheme.port := by
      cases url.scheme <;> decide
    rw [Option.elim_none,List.append_nil]
    exact authorityOrigin_host hcolon hport
  | some port =>
    exact authorityOrigin_port url.host (notMem_decimal (Or.inr (by decide)) _) (parseUnsigned_decimal port.toNat_lt)

/-- What begins with a question mark or a number sign is neither in the host nor in a port. -/
theorem authorityOrigin_ne {c : UInt8} (hcolon : c ≠ colon) (hnumber : ¬NumberByte c) (tail : List UInt8) :
    authorityOrigin url.scheme.text (url.host++url.portText++c::tail) ≠ .ok url.origin := by
  intro h
  rcases authorityOrigin_ok h with hhost | ⟨digits,hport,hdigits⟩
  · have hlength := congrArg List.length hhost
    simp [origin] at hlength
  · rw [List.append_assoc,origin,List.append_cancel_left_eq,portText] at hport
    cases hgiven : url.port with
    | none =>
      rw [hgiven] at hport
      exact hcolon (List.cons.inj hport).1
    | some port =>
      rw [hgiven] at hport
      have hrest := (List.cons.inj hport).2
      have hmem : c ∈ digits := by simp [← hrest]
      exact hnumber ((parseUnsigned_bytes hdigits).2 c hmem)

/-- The origin of a web URL is found exactly if the authority ends at a slash or the URL does. -/
theorem parse_iff : Origin.parse url.text = .ok url.origin ↔ ∀ c ∈ url.suffix.head?, c = slash := by
  have hends := url.suffix_ends
  rw [url.parse_text]
  cases hsuffix : url.suffix with
  | nil =>
    rw [List.takeWhile_nil,List.append_nil]
    exact iff_of_true url.authorityOrigin_eq nofun
  | cons c tail =>
    rw [hsuffix] at hends
    simp only [List.head?_cons,Option.mem_some_iff,forall_eq'] at hends ⊢
    by_cases hslash : c = slash
    · rw [List.takeWhile_cons_of_neg (by simpa using hslash),List.append_nil]
      exact iff_of_true url.authorityOrigin_eq hslash
    · have hother : ∀ b ∈ authorityEnds, b ≠ slash → b ≠ colon ∧ ¬NumberByte b := by decide +kernel
      obtain ⟨hcolon,hnumber⟩ := hother c hends hslash
      rw [List.takeWhile_cons_of_pos (by simpa using hslash)]
      exact iff_of_false (url.authorityOrigin_ne hcolon hnumber _) hslash

end WebUrl

/-- `https://a?b` -/
def queryUrl : WebUrl where
  scheme := .https
  host := ascii ['a']
  port := none
  suffix := ascii ['?','b']
  host_plain := by decide +kernel
  suffix_ends := by decide +kernel

/-- The host of `https://a?b` is taken to be `a?b`. -/
theorem query_in_host : ¬∀ url : WebUrl, Origin.parse url.text = .ok url.origin := by
  intro h
  have hquery := h queryUrl
  revert hquery
  decide

end ZNet.Origins
