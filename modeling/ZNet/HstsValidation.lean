import ZNet.Hsts
import ZNet.LetterCase
import Mathlib.Data.List.ReduceOption

/-!
# The validation of responses

The policy module checks the header that names the strict transport security by a reading
of its own, which ends the age at a comma, while the parser of the enforcer splits the
header at semicolons.
-/

namespace ZNet.Policy
open TextScan Tables Origins Hsts

def isValidHSTSHeader (hsts : Str) : Bool :=
  if !(text "max-age=").isPrefixOf hsts then false
  else if hsts.length ≤ 8 then false
  else
    let maxAge := hsts.drop 8
    let maxAgeComma := (maxAge.idxOf? 0x2c).getD maxAge.length
    (parseUnsigned (2^64) (maxAge.take maxAgeComma)).isSome

def hstsHeader : Str := text "Strict-Transport-Security"

/-- Credentials are allowed for every origin. -/
def credentialConflict (headers : Headers) : Bool :=
  match headers.lookup (text "Access-Control-Allow-Origin"),headers.lookup (text "Access-Control-Allow-Credentials") with
  | some corsHeader,some credentials => credentials.map toLower == text "true" && corsHeader == text "*"
  | _,_ => false

/-- The checks of the CORS headers and of the strict transport security. -/
def checkResponseHeaders (headers : Headers) (config : PolicyEngineConfig) : ValidationResult :=
  if config.enableCors ∧ credentialConflict headers then
    ⟨false,"CORS credential conflict: wildcard origin with credentials",∅⟩
  else match config.strictTransportSecurity,headers.lookup hstsHeader with
    | true,some hsts =>
      if isValidHSTSHeader hsts then ⟨true,"Response passed security validation",∅⟩
      else ⟨false,"Invalid HSTS header format",∅⟩
    | _,_ => ⟨true,"Response passed security validation",∅⟩

/-- The URL of a response with a content security policy is to have an origin. -/
def validateResponse (responseUrl : Str) (headers : Headers) (config : PolicyEngineConfig) :
    Except OriginError ValidationResult :=
  if config.enableCsp ∧ (headers.lookup (text "Content-Security-Policy")).isSome then
    (Origin.parse responseUrl).map fun _ => checkResponseHeaders headers config
  else .ok (checkResponseHeaders headers config)

section Ages

variable {now : ℤ} {numbers : List (Option ℕ)} {age : ℕ}

/-- The number of a directive that names the age, where it is one. -/
def maxAgeNumber (directive : Str) : Option (Option ℕ) :=
  if (text "max-age=").isPrefixOf directive then some (parseUnsigned (2^64) (directive.drop 8)) else none

def maxAgeNumbers (value : Str) : List (Option ℕ) := (hstsDirectives value).filterMap maxAgeNumber

/-- The age can be added to the time. -/
def Fits (now : ℤ) (age : ℕ) : Prop := age < 2^63 ∧ now+age < 2^63

instance (now : ℤ) (age : ℕ) : Decidable (Fits now age) := inferInstanceAs (Decidable (_ ∧ _))

/-- The numbers before the first that cannot be read. -/
def reached (numbers : List (Option ℕ)) : List ℕ := (numbers.takeWhile Option.isSome).reduceOption

/-- The last age that is read, starting from the given one. -/
def readAges (now : ℤ) : ℕ → List (Option ℕ) → Except HstsError ℕ
  | age,[] => .ok age
  | _,none::_ => .error .invalidMaxAge
  | _,some n::numbers => if Fits now n then readAges now n numbers else .error .panic

theorem applyDirective_age (now : ℤ) (policy : HstsPolicy) (directive : Str) :
    (applyDirective now policy directive).map HstsPolicy.maxAge = match maxAgeNumber directive with
      | none => .ok policy.maxAge
      | some none => .error .invalidMaxAge
      | some (some n) => if Fits now n then .ok n else .error .panic := by
  rw [applyDirective]
  by_cases hpreload : directive = text "preload"
  · rw [if_pos hpreload,hpreload]
    rfl
  rw [if_neg hpreload]
  by_cases hsub : directive = text "includeSubDomains"
  · rw [if_pos hsub,hsub]
    rfl
  rw [if_neg hsub]
  by_cases hfive : directive = text "includeSubDomainsFor5Years"
  · rw [if_pos hfive,hfive]
    rfl
  rw [if_neg hfive,maxAgeNumber]
  by_cases hage : (text "max-age=").isPrefixOf directive = true
  · rw [if_pos hage,if_pos hage]
    cases parseUnsigned (2^64) (directive.drop 8) with
    | none => rfl
    | some n =>
      by_cases hfits : Fits now n
      · simp only [expiry,if_pos (show n < 2^63 ∧ now+n < 2^63 from hfits),if_pos hfits]
        rfl
      · simp only [expiry,if_neg (show ¬(n < 2^63 ∧ now+n < 2^63) from hfits),if_neg hfits]
        rfl
  · rw [if_neg hage,if_neg hage]
    rfl

theorem foldlM_age (now : ℤ) (policy : HstsPolicy) (directives : List Str) :
    (directives.foldlM (applyDirective now) policy).map HstsPolicy.maxAge =
      readAges now policy.maxAge (directives.filterMap maxAgeNumber) := by
  induction directives generalizing policy with
  | nil => rfl
  | cons directive directives ih =>
    have hfirst := applyDirective_age now policy directive
    rw [List.foldlM_cons,List.filterMap_cons]
    cases happly : applyDirective now policy directive with
    | error e =>
      rw [happly] at hfirst
      cases hnumber : maxAgeNumber directive with
      | none =>
        rw [hnumber] at hfirst
        cases hfirst
      | some number =>
        rw [hnumber] at hfirst
        cases number with
        | none =>
          cases hfirst
          rfl
        | some n =>
          by_cases hfits : Fits now n
          · simp only [if_pos hfits] at hfirst
            cases hfirst
          · simp only [if_neg hfits] at hfirst
            cases hfirst
            exact (if_neg hfits).symm
    | ok next =>
      rw [happly] at hfirst
      change (directives.foldlM (applyDirective now) next).map HstsPolicy.maxAge = _
      rw [ih]
      cases hnumber : maxAgeNumber directive with
      | none =>
        rw [hnumber] at hfirst
        rw [show next.maxAge = policy.maxAge from Except.ok.inj hfirst]
      | some number =>
        rw [hnumber] at hfirst
        cases number with
        | none => cases hfirst
        | some n =>
          by_cases hfits : Fits now n
          · simp only [if_pos hfits] at hfirst
            rw [show next.maxAge = n from Except.ok.inj hfirst]
            exact (if_pos hfits).symm
          · simp only [if_neg hfits] at hfirst
            cases hfirst

theorem reached_cons (n : ℕ) (numbers : List (Option ℕ)) : reached (some n::numbers) = n::reached numbers := by
  rw [reached,List.takeWhile_cons_of_pos rfl,List.reduceOption_cons_of_some]
  rfl

theorem readAges_panic (now : ℤ) (age : ℕ) (numbers : List (Option ℕ)) :
    readAges now age numbers = .error .panic ↔ ∃ n ∈ reached numbers, ¬Fits now n := by
  induction numbers generalizing age with
  | nil => exact iff_of_false (fun h => nomatch h) (by simp [reached])
  | cons number numbers ih =>
    cases number with
    | none => exact iff_of_false (fun h => nomatch h) (by simp [reached])
    | some n =>
      rw [readAges,reached_cons,List.exists_mem_cons_iff]
      by_cases hfits : Fits now n
      · rw [if_pos hfits,ih]
        exact ⟨Or.inr,fun h => h.resolve_left (not_not.mpr hfits)⟩
      · rw [if_neg hfits]
        exact iff_of_true rfl (Or.inl hfits)

/-- All numbers can be read; the last one counts. -/
theorem readAges_ok {numbers : List (Option ℕ)} (hfits : ∀ n ∈ reached numbers, Fits now n) (age n : ℕ) :
    readAges now age numbers = .ok n ↔
      (∀ x ∈ numbers, x ≠ none) ∧ n = numbers.reduceOption.getLast?.getD age := by
  induction numbers generalizing age with
  | nil => simp [readAges,eq_comm]
  | cons number numbers ih =>
    cases number with
    | none => simp [readAges]
    | some m =>
      rw [reached_cons,List.forall_mem_cons] at hfits
      rw [readAges,if_pos hfits.1,ih hfits.2,List.reduceOption_cons_of_some,List.getLast?_cons]
      simp

end Ages

/-- Every age in the header is a number, and the last one is positive. -/
def Counted (value : Str) : Prop :=
  (∀ x ∈ maxAgeNumbers value, x ≠ none) ∧ 0 < (maxAgeNumbers value).reduceOption.getLast?.getD 0

/-- The header has one directive and no blanks around it. -/
def Plain (value : Str) : Prop := 0x3b ∉ value ∧ trim (ascii [' ','\t']) value = value

/-- The parser does not trap, what it accepts is valid, and no response is refused for it. -/
structure Agree (value : Str) (now : ℤ) : Prop where
  total : parseHstsHeader value now ≠ .error .panic
  valid : ∀ policy, parseHstsHeader value now = .ok policy → isValidHSTSHeader value = true
  unblocked : ∀ policy url headers config result, parseHstsHeader value now = .ok policy →
    headers.lookup hstsHeader = some value → validateResponse url headers config = .ok result →
      result.allowed = false → credentialConflict headers = true

/-- The ages that are read fit, and a header with a positive age is plain. -/
structure AgreeWhen (value : Str) (now : ℤ) : Prop where
  fits : ∀ n ∈ reached (maxAgeNumbers value), Fits now n
  plain : Counted value → Plain value

section Headers

variable {value : Str} {now : ℤ}

/-- The ages decide whether a header is accepted. -/
theorem parse_ages (value : Str) (now : ℤ) : (parseHstsHeader value now).map HstsPolicy.maxAge =
    if value = [] then .error .invalidHstsHeader
    else match readAges now 0 (maxAgeNumbers value) with
      | .error e => .error e
      | .ok n => if n = 0 then .error .invalidMaxAge else .ok n := by
  rw [parseHstsHeader]
  split_ifs
  · rfl
  · have hages : _ = readAges now 0 (maxAgeNumbers value) := foldlM_age now (.init value) (hstsDirectives value)
    rw [← hages]
    cases (hstsDirectives value).foldlM (applyDirective now) (.init value) with
    | error e => rfl
    | ok policy =>
      by_cases hzero : policy.maxAge = 0
      · simp only [bind,Except.bind,Except.map,if_pos hzero]
      · simp only [bind,Except.bind,Except.map,if_neg hzero]
        rfl

theorem maxAgeNumbers_nil : maxAgeNumbers [] = [] := by decide

theorem parse_total (value : Str) (now : ℤ) :
    parseHstsHeader value now ≠ .error .panic ↔ ∀ n ∈ reached (maxAgeNumbers value), Fits now n := by
  have hages := parse_ages value now
  have hpanic : (parseHstsHeader value now).map HstsPolicy.maxAge = .error .panic ↔
      parseHstsHeader value now = .error .panic := by
    cases parseHstsHeader value now with
    | error e => exact ⟨fun h => congrArg _ (Except.error.inj h),fun h => congrArg _ (Except.error.inj h)⟩
    | ok policy => exact iff_of_false (fun h => nomatch h) (fun h => nomatch h)
  have hreached : (∀ n ∈ reached (maxAgeNumbers value), Fits now n) ↔
      readAges now 0 (maxAgeNumbers value) ≠ .error .panic := by
    rw [Ne,readAges_panic]
    simp
  rw [Ne,← hpanic,hages,hreached,not_iff_not]
  split_ifs with hempty
  · rw [hempty,maxAgeNumbers_nil]
    exact iff_of_false (fun h => nomatch h) (fun h => nomatch h)
  · cases readAges now 0 (maxAgeNumbers value) with
    | error e => exact Iff.rfl
    | ok n =>
      simp only
      split_ifs
      · exact iff_of_false (fun h => nomatch h) (fun h => nomatch h)
      · exact iff_of_false (fun h => nomatch h) (fun h => nomatch h)

theorem parse_accepts (hfits : ∀ n ∈ reached (maxAgeNumbers value), Fits now n) :
    (∃ policy, parseHstsHeader value now = .ok policy) ↔ Counted value := by
  have hages := parse_ages value now
  have hok : (∃ policy, parseHstsHeader value now = .ok policy) ↔
      ∃ n, (parseHstsHeader value now).map HstsPolicy.maxAge = .ok n := by
    cases parseHstsHeader value now with
    | error e => exact iff_of_false (fun ⟨_,h⟩ => nomatch h) (fun ⟨_,h⟩ => nomatch h)
    | ok policy => exact iff_of_true ⟨policy,rfl⟩ ⟨_,rfl⟩
  rw [hok,hages,Counted]
  split_ifs with hempty
  · rw [hempty,maxAgeNumbers_nil]
    exact iff_of_false (fun ⟨_,h⟩ => nomatch h) (by simp)
  · constructor
    · rintro ⟨n,hn⟩
      cases hread : readAges now 0 (maxAgeNumbers value) with
      | error e =>
        rw [hread] at hn
        cases hn
      | ok m =>
        obtain ⟨hall,hlast⟩ := (readAges_ok hfits 0 m).mp hread
        simp only [hread] at hn
        split_ifs at hn with hzero
        exact ⟨hall,hlast ▸ Nat.pos_of_ne_zero hzero⟩
    · rintro ⟨hall,hpos⟩
      rw [(readAges_ok hfits 0 _).mpr ⟨hall,rfl⟩]
      exact ⟨_,if_neg (Nat.ne_of_gt hpos)⟩

/-- The name of the directive with the equals sign. -/
def agePrefix : Str := text "max-age="

def blanks : Str := ascii [' ','\t']

/-- The first directive of a header is the part before the first semicolon. -/
theorem hstsDirectives_split {front tail : Str} (hfront : 0x3b ∉ front) (htail : ∀ b ∈ tail.head?, b = 0x3b) :
    ∃ rest, hstsDirectives (front++tail) = trim blanks front::rest := by
  have hsingle : front.splitOnP (· == 0x3b) = [front] := by
    apply List.splitOnP_eq_singleton
    intro b hb
    rw [beq_eq_false_iff_ne]
    rintro rfl
    exact hfront hb
  cases tail with
  | nil =>
    rw [List.append_nil,hstsDirectives,hsingle]
    exact ⟨[],rfl⟩
  | cons b tail =>
    have hb : b = 0x3b := htail b rfl
    rw [hstsDirectives,List.splitOnP_append_cons front tail (by rw [hb]; rfl),hsingle]
    exact ⟨_,rfl⟩

theorem maxAgeNumber_append (rest : Str) : maxAgeNumber (agePrefix++rest) = some (parseUnsigned (2^64) rest) := by
  have hstart : (text "max-age=").isPrefixOf (agePrefix++rest) = true :=
    List.isPrefixOf_iff_prefix.mpr (List.prefix_append ..)
  have hdrop : (agePrefix++rest).drop 8 = rest := List.drop_left' rfl
  rw [maxAgeNumber,if_pos hstart,hdrop]

theorem isValid_append (rest : Str) : isValidHSTSHeader (agePrefix++rest) = true ↔
    ∃ n, parseUnsigned (2^64) (rest.takeWhile (· ≠ 0x2c)) = some n := by
  have hstart : (text "max-age=").isPrefixOf (agePrefix++rest) = true :=
    List.isPrefixOf_iff_prefix.mpr (List.prefix_append ..)
  have hdrop : (agePrefix++rest).drop 8 = rest := List.drop_left' rfl
  rw [isValidHSTSHeader,hstart,hdrop]
  cases rest with
  | nil => exact iff_of_false (by decide) (fun ⟨_,h⟩ => nomatch h)
  | cons b rest =>
    have hlen : ¬(agePrefix++b::rest).length ≤ 8 := by
      rw [List.length_append,List.length_cons]
      have h8 : agePrefix.length = 8 := rfl
      omega
    rw [if_neg hlen]
    simp only [take_idxOf,Bool.not_true,Bool.false_eq_true,if_false]
    exact Option.isSome_iff_exists

/-- The blanks around the number are the only difference between a directive and its text. -/
theorem trim_age (rest : Str) : trim blanks (agePrefix++rest) = agePrefix++rest.rdropWhile (· ∈ blanks) :=
  trim_append (by decide +kernel) (by decide +kernel) (by decide +kernel) rest

theorem notMem_of_bytes {s : Str} (h : ∀ b ∈ s, NumberByte b) {c : UInt8} (hc : ¬NumberByte c) : c ∉ s :=
  fun hmem => hc (h c hmem)

/-- The part of a header before the first semicolon, if it begins with the age. -/
theorem exists_number (hcounted : Counted (agePrefix++value)) : ∃ number tail n,
    value = number++tail ∧ 0x3b ∉ number ∧ (∀ b ∈ tail.head?, b = 0x3b) ∧
    parseUnsigned (2^64) (number.rdropWhile (· ∈ blanks)) = some n := by
  have hhead : ∀ b ∈ (value.dropWhile (· ≠ 0x3b)).head?, b = 0x3b := by
    intro b hb
    have hstop := List.head?_dropWhile_not (fun b => decide (b ≠ 0x3b)) value
    rw [hb] at hstop
    simpa using hstop
  have hnumber : 0x3b ∉ value.takeWhile (· ≠ 0x3b) := by
    intro hmem
    simpa using List.mem_takeWhile_imp hmem
  have hfront : 0x3b ∉ agePrefix++value.takeWhile (· ≠ 0x3b) := by
    rw [List.mem_append,not_or]
    exact ⟨by decide,hnumber⟩
  obtain ⟨rest,hrest⟩ := hstsDirectives_split hfront hhead
  rw [List.append_assoc,List.takeWhile_append_dropWhile,trim_age] at hrest
  have hfirst : some (parseUnsigned (2^64) ((value.takeWhile (· ≠ 0x3b)).rdropWhile (· ∈ blanks))) ∈
      some <$> maxAgeNumbers (agePrefix++value) := by
    rw [maxAgeNumbers,hrest,List.filterMap_cons,maxAgeNumber_append]
    exact List.mem_map_of_mem (List.mem_cons_self ..)
  obtain ⟨number,hmem,hsome⟩ := List.mem_map.mp hfirst
  obtain ⟨n,hn⟩ := Option.ne_none_iff_exists'.mp (hcounted.1 number hmem)
  exact ⟨_,_,n,(List.takeWhile_append_dropWhile ..).symm,hnumber,hhead,(Option.some.inj hsome).symm.trans hn⟩

/-- A valid header has the age in front and a number up to its end. -/
theorem plain_of_valid (hcounted : Counted value) (hvalid : isValidHSTSHeader value = true) : Plain value := by
  have hstart : (text "max-age=").isPrefixOf value = true := by
    by_contra hno
    rw [isValidHSTSHeader,eq_false_of_ne_true hno] at hvalid
    cases hvalid
  obtain ⟨rest,rfl⟩ := List.isPrefixOf_iff_prefix.mp hstart
  obtain ⟨n,hn⟩ := (isValid_append rest).mp hvalid
  obtain ⟨number,tail,m,rfl,hsemi,htail,hm⟩ := exists_number hcounted
  -- only blanks are left out of the number that the parser reads
  have hcomma : ∀ b ∈ number, b ≠ 0x2c := by
    rintro b hb rfl
    rw [← List.rdropWhile_append_rtakeWhile (p:=(· ∈ blanks)) (l:=number),List.mem_append] at hb
    rcases hb with hb | hb
    · exact notMem_of_bytes (parseUnsigned_bytes hm).2 (by decide) hb
    · have hblank := List.mem_rtakeWhile_imp hb
      revert hblank
      decide
  rw [List.takeWhile_append_of_pos (by simpa using hcomma)] at hn
  have hbytes := (parseUnsigned_bytes hn).2
  have hnil : tail = [] := by
    cases tail with
    | nil => rfl
    | cons b tail =>
      have hb : b = 0x3b := htail b rfl
      have hmem : b ∈ number++(b::tail).takeWhile (· ≠ 0x2c) := by
        rw [hb]
        exact List.mem_append_right _ (List.mem_cons_self ..)
      exact (notMem_of_bytes hbytes (hb ▸ by decide) hmem).elim
  rw [hnil,List.takeWhile_nil,List.append_nil] at hbytes
  have hend : number.rdropWhile (· ∈ blanks) = number := by
    rw [List.rdropWhile_eq_self_iff]
    intro hne hblank
    have hlast := hbytes _ (List.getLast_mem hne)
    have hnone : ∀ b ∈ blanks, ¬NumberByte b := by decide +kernel
    exact hnone _ (by simpa using hblank) hlast
  rw [hnil,List.append_nil]
  refine ⟨?_,(trim_age number).trans (congrArg _ hend)⟩
  rw [List.mem_append,not_or]
  exact ⟨by decide,hsemi⟩

theorem valid_of_plain (hcounted : Counted value) (hplain : Plain value) : isValidHSTSHeader value = true := by
  obtain ⟨hsemi,htrim⟩ := hplain
  obtain ⟨hall,hpos⟩ := hcounted
  have hdirectives : hstsDirectives value = [value] := by
    have hsingle : value.splitOnP (· == 0x3b) = [value] := by
      apply List.splitOnP_eq_singleton
      intro b hb
      rw [beq_eq_false_iff_ne]
      rintro rfl
      exact hsemi hb
    rw [hstsDirectives,hsingle,List.map_singleton,htrim]
  rw [maxAgeNumbers,hdirectives] at hall hpos
  by_cases hstart : (text "max-age=").isPrefixOf value = true
  · obtain ⟨rest,rfl⟩ := List.isPrefixOf_iff_prefix.mp hstart
    have hnumber := maxAgeNumber_append rest
    rw [agePrefix] at hnumber
    rw [List.filterMap_cons,hnumber] at hall
    obtain ⟨n,hn⟩ := Option.ne_none_iff_exists'.mp (hall _ (List.mem_cons_self ..))
    have hcomma : ∀ b ∈ rest, b ≠ 0x2c := by
      rintro b hb rfl
      exact notMem_of_bytes (parseUnsigned_bytes hn).2 (by decide) hb
    have hwhole : rest.takeWhile (· ≠ 0x2c) = rest := List.takeWhile_eq_self_iff.mpr (by simpa using hcomma)
    exact (isValid_append rest).mpr ⟨n,hwhole.symm ▸ hn⟩
  · have hnone : maxAgeNumber value = none := if_neg hstart
    rw [List.filterMap_cons,hnone] at hpos
    exact absurd hpos (by decide)

theorem valid_iff (hcounted : Counted value) : isValidHSTSHeader value = true ↔ Plain value :=
  ⟨plain_of_valid hcounted,valid_of_plain hcounted⟩

/-- A response is refused for its credentials or for its header. -/
theorem validateResponse_refused {url : Str} {headers : Headers} {config : PolicyEngineConfig}
    {result : ValidationResult} (h : validateResponse url headers config = .ok result)
    (hrefused : result.allowed = false) :
    credentialConflict headers = true ∨
      ∃ hsts, headers.lookup hstsHeader = some hsts ∧ isValidHSTSHeader hsts = false := by
  have hresult : result = checkResponseHeaders headers config := by
    rw [validateResponse] at h
    split at h
    · cases hparse : Origin.parse url with
      | error e =>
        rw [hparse] at h
        cases h
      | ok origin =>
        rw [hparse] at h
        exact (Except.ok.inj h).symm
    · exact (Except.ok.inj h).symm
  rw [hresult,checkResponseHeaders] at hrefused
  split at hrefused
  · rename_i hconflict
    exact Or.inl hconflict.2
  · split at hrefused
    · rename_i hsts _ hlookup
      split at hrefused
      · cases hrefused
      · rename_i hinvalid
        exact Or.inr ⟨_,hlookup,eq_false_of_ne_true hinvalid⟩
    · cases hrefused

/-- The two readings of a header agree exactly under this condition. -/
theorem validators_agree_iff (value : Str) (now : ℤ) : Agree value now ↔ AgreeWhen value now := by
  constructor
  · intro h
    have hfits := (parse_total value now).mp h.total
    refine ⟨hfits,fun hcounted => ?_⟩
    obtain ⟨policy,hparse⟩ := (parse_accepts hfits).mpr hcounted
    exact (valid_iff hcounted).mp (h.valid policy hparse)
  · intro h
    have hvalid : ∀ policy, parseHstsHeader value now = .ok policy → isValidHSTSHeader value = true := by
      intro policy hparse
      have hcounted := (parse_accepts h.fits).mp ⟨policy,hparse⟩
      exact (valid_iff hcounted).mpr (h.plain hcounted)
    refine ⟨(parse_total value now).mpr h.fits,hvalid,?_⟩
    intro policy url headers config result hparse hheader hresult hrefused
    rcases validateResponse_refused hresult hrefused with hconflict | ⟨hsts,hfound,hinvalid⟩
    · exact hconflict
    · cases hheader.symm.trans hfound
      cases (hvalid policy hparse).symm.trans hinvalid

end Headers

/-- A header with a second directive. -/
def subDomainsHeader : Str := text "max-age=100; includeSubDomains"

theorem validators_disagree : ¬∀ (value : Str) (now : ℤ), Agree value now := by
  intro h
  have hparse : parseHstsHeader subDomainsHeader 0 =
      .ok { domain := subDomainsHeader, maxAge := 100, includeSubDomains := true, expiresAt := 100 } := by
    decide
  have hvalid := (h subDomainsHeader 0).valid _ hparse
  revert hvalid
  decide

end ZNet.Policy
