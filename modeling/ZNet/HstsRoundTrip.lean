import ZNet.HstsValidation
import ZNet.Decimals

/-!
# The header of a policy

A policy is written as a header, and the parser is to find it there again. In which order
the directives stand matters to the parser only through the ages that they give.
-/

namespace ZNet.Policy
open TextScan Hsts

/-- What the allocator does with memory that it did not hand out. -/
inductive ForeignFree
  | ignored | trapped
deriving DecidableEq

/-- A part of the header; the parts without a number are literals of the program. -/
structure HeaderPart where
  part : Str
  allocated : Bool

def headerParts (policy : HstsPolicy) : List HeaderPart :=
  ⟨text "max-age="++decimal policy.maxAge,true⟩::
    ((if policy.includeSubDomains then [⟨text "includeSubDomains",false⟩] else [])++
      if policy.preload then [⟨text "preload",false⟩] else [])

/-- The parts with semicolons between them. -/
def joinParts : List Str → Str
  | [] => []
  | part::parts => part++parts.flatMap (0x3b::·)

def freePart (foreign : ForeignFree) (part : HeaderPart) : Except HstsError Unit :=
  if part.allocated ∨ foreign = .ignored then .ok () else .error .panic

/-- Once the header is there, every part is freed. -/
def buildHstsHeader (foreign : ForeignFree) (policy : HstsPolicy) : Except HstsError Str := do
  (headerParts policy).forM (freePart foreign)
  return joinParts ((headerParts policy).map HeaderPart.part)

/-- The policy is written as a header, and the parser reads the same policy from it. -/
def RoundTrips (foreign : ForeignFree) (now : ℤ) (policy : HstsPolicy) : Prop :=
  ∃ header found, buildHstsHeader foreign policy = .ok header ∧ parseHstsHeader header now = .ok found ∧
    found.maxAge = policy.maxAge ∧ found.includeSubDomains = policy.includeSubDomains ∧
    found.preload = policy.preload ∧ found.expiresAt = now+policy.maxAge

/-- The policy without the domain, which the parser takes from the header as a whole. -/
def nameless (policy : HstsPolicy) : HstsPolicy := { policy with domain := [] }

def preloadName : Str := text "preload"

def subDomainsName : Str := text "includeSubDomains"

def fiveYearsName : Str := text "includeSubDomainsFor5Years"

/-- What a list of directives says: the flags are there or not, and the age is read in order. -/
def outcome (now : ℤ) (directives : List Str) : Except HstsError HstsPolicy :=
  match readAges now 0 (directives.filterMap maxAgeNumber) with
  | .error e => .error e
  | .ok age =>
    if age = 0 then .error .invalidMaxAge
    else .ok { domain := [], maxAge := age, preload := directives.contains preloadName,
               includeSubDomains := directives.contains subDomainsName || directives.contains fiveYearsName,
               includeSubDomainsFor5Years := directives.contains fiveYearsName, expiresAt := now+age }

theorem names_ne :
    preloadName ≠ subDomainsName ∧ preloadName ≠ fiveYearsName ∧ subDomainsName ≠ fiveYearsName := by decide

section Directives

variable {now : ℤ} {policy policy' : HstsPolicy} {directives : List Str}

theorem applyDirective_flags {directive : Str} (h : applyDirective now policy directive = .ok policy') :
    policy'.preload = (policy.preload || decide (preloadName = directive)) ∧
    policy'.includeSubDomains =
      (policy.includeSubDomains || decide (subDomainsName = directive ∨ fiveYearsName = directive)) ∧
    policy'.includeSubDomainsFor5Years =
      (policy.includeSubDomainsFor5Years || decide (fiveYearsName = directive)) := by
  obtain ⟨hps,hpf,hsf⟩ := names_ne
  rw [applyDirective,← preloadName,← subDomainsName,← fiveYearsName] at h
  by_cases hpreload : directive = preloadName
  · rw [if_pos hpreload] at h
    cases h
    simp [hpreload,hps.symm,hpf.symm]
  rw [if_neg hpreload] at h
  by_cases hsub : directive = subDomainsName
  · rw [if_pos hsub] at h
    cases h
    simp [hsub,hps,hsf.symm]
  rw [if_neg hsub] at h
  by_cases hfive : directive = fiveYearsName
  · rw [if_pos hfive] at h
    cases h
    simp [hfive,hpf,hsf]
  rw [if_neg hfive] at h
  have hsame : policy'.preload = policy.preload ∧ policy'.includeSubDomains = policy.includeSubDomains ∧
      policy'.includeSubDomainsFor5Years = policy.includeSubDomainsFor5Years := by
    split_ifs at h
    · cases hnumber : parseUnsigned (2^64) (directive.drop 8) with
      | none =>
        rw [hnumber] at h
        cases h
      | some age =>
        simp only [hnumber,expiry] at h
        split_ifs at h
        · cases h
          exact ⟨rfl,rfl,rfl⟩
        · cases h
    · cases h
      exact ⟨rfl,rfl,rfl⟩
  simpa [Ne.symm hpreload,Ne.symm hsub,Ne.symm hfive] using hsame

theorem foldlM_flags (h : directives.foldlM (applyDirective now) policy = .ok policy') :
    policy'.preload = (policy.preload || decide (preloadName ∈ directives)) ∧
    policy'.includeSubDomains =
      (policy.includeSubDomains || decide (subDomainsName ∈ directives ∨ fiveYearsName ∈ directives)) ∧
    policy'.includeSubDomainsFor5Years =
      (policy.includeSubDomainsFor5Years || decide (fiveYearsName ∈ directives)) := by
  induction directives generalizing policy with
  | nil =>
    cases h
    simp
  | cons directive directives ih =>
    rw [List.foldlM_cons] at h
    cases hfirst : applyDirective now policy directive with
    | error e =>
      rw [hfirst] at h
      cases h
    | ok next =>
      rw [hfirst] at h
      obtain ⟨hpreload,hsub,hfive⟩ := ih h
      obtain ⟨hpreload',hsub',hfive'⟩ := applyDirective_flags hfirst
      rw [hpreload,hsub,hfive,hpreload',hsub',hfive']
      simp only [List.mem_cons,Bool.decide_or,Bool.or_assoc]
      refine ⟨trivial,?_,trivial⟩
      rw [Bool.or_left_comm (decide (fiveYearsName = directive))]

/-- The parser finds what the directives say. -/
theorem parse_outcome (value : Str) (now : ℤ) : (parseHstsHeader value now).map nameless =
    if value = [] then .error .invalidHstsHeader else outcome now (hstsDirectives value) := by
  have hages := parse_ages value now
  rw [parseHstsHeader] at hages ⊢
  split_ifs at hages ⊢ with hempty
  · rfl
  rw [outcome,← maxAgeNumbers]
  have hread := foldlM_age now (.init value) (hstsDirectives value)
  change _ = readAges now 0 (maxAgeNumbers value) at hread
  rw [← hread]
  cases hfold : (hstsDirectives value).foldlM (applyDirective now) (.init value) with
  | error e => rfl
  | ok policy =>
    change (if policy.maxAge = 0 then Except.error HstsError.invalidMaxAge else .ok policy).map nameless = _
    by_cases hzero : policy.maxAge = 0
    · simp only [Except.map,if_pos hzero]
    · obtain ⟨hpreload,hsub,hfive⟩ := foldlM_flags hfold
      have hexpires := foldlM_dated (fun hne => absurd rfl hne) hfold hzero
      simp only [Except.map,if_neg hzero,nameless,List.contains_eq_mem]
      rw [hpreload,hsub,hfive,hexpires]
      simp [HstsPolicy.init]

end Directives

/-- The directive with blanks around it. -/
def Padded (part directive : Str) : Prop :=
  ∃ left right, (∀ b ∈ left, b ∈ blanks) ∧ (∀ b ∈ right, b ∈ blanks) ∧ part = left++(directive++right)

/-- The header has the directives in their order, each with blanks around it. -/
def Spells (value : Str) (directives : List Str) : Prop :=
  ∃ parts, List.Forall₂ Padded parts directives ∧ value = joinParts parts

/-- Neither the order of the directives nor the blanks around them matter. -/
def Orderless (now : ℤ) (directives : List Str) : Prop :=
  ∀ directives' value value', directives'.Perm directives → Spells value directives → Spells value' directives' →
    (parseHstsHeader value' now).map nameless = (parseHstsHeader value now).map nameless

/-- The header is not empty; its ages are not in part malformed and in part out of range; and
if all of them can be read, they are the same. -/
structure Unanimous (now : ℤ) (directives : List Str) : Prop where
  written : directives ≠ [[]]
  readable : none ∈ directives.filterMap maxAgeNumber →
    ∀ n, some n ∈ directives.filterMap maxAgeNumber → Fits now n
  alike : none ∉ directives.filterMap maxAgeNumber →
    (∀ n, some n ∈ directives.filterMap maxAgeNumber → Fits now n) →
      ∀ m n, some m ∈ directives.filterMap maxAgeNumber → some n ∈ directives.filterMap maxAgeNumber → m = n

section Spelling

variable {directive part value : Str} {directives : List Str}

theorem trim_blank (h : ∀ b ∈ part, b ∈ blanks) : trim blanks part = [] := by
  have hdrop : part.dropWhile (· ∈ blanks) = [] := List.dropWhile_eq_nil_iff.mpr (by simpa using h)
  rw [trim,hdrop]
  rfl

theorem Plain.ends (h : Plain directive) :
    (∀ b ∈ directive.head?, b ∉ blanks) ∧ ∀ b ∈ directive.getLast?, b ∉ blanks :=
  ⟨h.2 ▸ trim_first blanks directive,h.2 ▸ trim_last blanks directive⟩

theorem Padded.trim (hplain : Plain directive) (h : Padded part directive) : trim blanks part = directive := by
  obtain ⟨left,right,hleft,hright,rfl⟩ := h
  by_cases hnil : directive = []
  · rw [hnil,List.nil_append]
    apply trim_blank
    intro b hb
    exact (List.mem_append.mp hb).elim (hleft b) (hright b)
  · exact trim_padded hleft hright hplain.ends.1 hplain.ends.2 hnil

theorem Padded.semicolon (hplain : Plain directive) (h : Padded part directive) : 0x3b ∉ part := by
  obtain ⟨left,right,hleft,hright,rfl⟩ := h
  have hblank : (0x3b : UInt8) ∉ blanks := by decide
  rw [List.mem_append,List.mem_append]
  rintro (hmem | hmem | hmem)
  · exact hblank (hleft _ hmem)
  · exact hplain.1 hmem
  · exact hblank (hright _ hmem)

theorem padded_parts {parts : List Str} (hplain : ∀ directive ∈ directives, Plain directive)
    (h : List.Forall₂ Padded parts directives) :
    parts.map (trim blanks) = directives ∧ ∀ part ∈ parts, 0x3b ∉ part := by
  induction h with
  | nil => exact ⟨rfl,List.forall_mem_nil _⟩
  | cons hpart _ ih =>
    obtain ⟨hfirst,hrest⟩ := List.forall_mem_cons.mp hplain
    obtain ⟨htrim,hsemi⟩ := ih hrest
    rw [List.map_cons,hpart.trim hfirst,htrim]
    exact ⟨rfl,List.forall_mem_cons.mpr ⟨hpart.semicolon hfirst,hsemi⟩⟩

/-- The parser splits a header into its directives. -/
theorem Spells.split (hplain : ∀ directive ∈ directives, Plain directive) (hne : directives ≠ [])
    (h : Spells value directives) : hstsDirectives value = directives := by
  obtain ⟨parts,hparts,rfl⟩ := h
  obtain ⟨htrim,hsemi⟩ := padded_parts hplain hparts
  cases parts with
  | nil => exact (hne htrim.symm).elim
  | cons part parts =>
    obtain ⟨hfirst,hrest⟩ := List.forall_mem_cons.mp hsemi
    rw [hstsDirectives,joinParts,splitOnP_flatMap hfirst hrest]
    exact htrim

/-- Only the empty directive can be written as an empty header. -/
theorem Spells.ne_nil (hne : directives ≠ []) (hwritten : directives ≠ [[]]) (h : Spells value directives) :
    value ≠ [] := by
  obtain ⟨parts,hparts,rfl⟩ := h
  cases hparts with
  | nil => exact (hne rfl).elim
  | cons hpart hparts =>
    rw [joinParts]
    intro hnil
    obtain ⟨left,right,-,-,rfl⟩ := hpart
    cases hparts with
    | nil => simp_all
    | cons _ _ => simp_all

theorem spells_join (directives : List Str) : Spells (joinParts directives) directives :=
  ⟨directives,List.forall₂_same.mpr fun directive _ => ⟨[],[],nofun,nofun,(List.append_nil directive).symm⟩,rfl⟩

/-- However a header is written, the parser finds what its directives say. -/
theorem Spells.parse (hplain : ∀ directive ∈ directives, Plain directive) (hne : directives ≠ [])
    (hwritten : directives ≠ [[]]) (h : Spells value directives) (now : ℤ) :
    (parseHstsHeader value now).map nameless = outcome now directives := by
  rw [parse_outcome,if_neg (h.ne_nil hne hwritten),h.split hplain hne]

end Spelling

section Orders

variable {now : ℤ} {numbers numbers' : List (Option ℕ)} {directive : Str} {directives directives' : List Str}

theorem readAges_malformed (hnone : none ∈ numbers) (hfits : ∀ n, some n ∈ numbers → Fits now n) (age : ℕ) :
    readAges now age numbers = .error .invalidMaxAge := by
  induction numbers generalizing age with
  | nil => cases hnone
  | cons number numbers ih =>
    cases number with
    | none => rfl
    | some n =>
      rw [readAges,if_pos (hfits n (List.mem_cons_self ..))]
      apply ih
      · simpa using hnone
      · exact fun m hm => hfits m (List.mem_cons_of_mem _ hm)

theorem readAges_unfit (hnone : none ∉ numbers) (hunfit : ∃ n, some n ∈ numbers ∧ ¬Fits now n) (age : ℕ) :
    readAges now age numbers = .error .panic := by
  rw [readAges_panic,reached]
  obtain ⟨n,hmem,hn⟩ := hunfit
  have hall : numbers.takeWhile Option.isSome = numbers := by
    rw [List.takeWhile_eq_self_iff]
    intro x hx
    rw [Option.isSome_iff_ne_none]
    rintro rfl
    exact hnone hx
  rw [hall]
  exact ⟨n,List.reduceOption_mem_iff.mpr hmem,hn⟩

theorem readAges_fit (hnone : none ∉ numbers) (hfits : ∀ n, some n ∈ numbers → Fits now n) (age : ℕ) :
    readAges now age numbers = .ok (numbers.reduceOption.getLast?.getD age) := by
  rw [readAges_ok]
  · exact ⟨fun x hx hx' => hnone (hx' ▸ hx),rfl⟩
  · intro n hn
    apply hfits
    exact (List.takeWhile_prefix _).subset (List.reduceOption_mem_iff.mp hn)

/-- Where the ages agree in this sense, their order does not matter. -/
theorem readAges_perm (hperm : numbers'.Perm numbers)
    (hreadable : none ∈ numbers → ∀ n, some n ∈ numbers → Fits now n)
    (halike : none ∉ numbers → (∀ n, some n ∈ numbers → Fits now n) →
      ∀ m n, some m ∈ numbers → some n ∈ numbers → m = n) :
    readAges now 0 numbers' = readAges now 0 numbers := by
  by_cases hnone : none ∈ numbers
  · have hfits := hreadable hnone
    rw [readAges_malformed hnone hfits,readAges_malformed (hperm.mem_iff.mpr hnone)]
    exact fun n hn => hfits n (hperm.mem_iff.mp hn)
  have hnone' : none ∉ numbers' := fun h => hnone (hperm.mem_iff.mp h)
  by_cases hfits : ∀ n, some n ∈ numbers → Fits now n
  · rw [readAges_fit hnone hfits,readAges_fit hnone' fun n hn => hfits n (hperm.mem_iff.mp hn)]
    have hsame := halike hnone hfits
    congr 1
    cases hlast : numbers.reduceOption.getLast? with
    | none =>
      have hnil : numbers'.reduceOption = [] := by
        have hreduced : numbers'.reduceOption.Perm numbers.reduceOption := hperm.filterMap id
        rw [List.getLast?_eq_none_iff.mp hlast] at hreduced
        exact hreduced.eq_nil
      rw [hnil]
      rfl
    | some n =>
      have hn := List.reduceOption_mem_iff.mp (List.mem_of_getLast? hlast)
      cases hlast' : numbers'.reduceOption.getLast? with
      | none =>
        have hmem : n ∈ numbers'.reduceOption := List.reduceOption_mem_iff.mpr (hperm.mem_iff.mpr hn)
        rw [List.getLast?_eq_none_iff.mp hlast'] at hmem
        cases hmem
      | some m =>
        have hm := List.reduceOption_mem_iff.mp (List.mem_of_getLast? hlast')
        exact hsame m n (hperm.mem_iff.mp hm) hn
  · push Not at hfits
    have hunfit' : ∃ n, some n ∈ numbers' ∧ ¬Fits now n := by
      obtain ⟨n,hmem,hn⟩ := hfits
      exact ⟨n,hperm.mem_iff.mpr hmem,hn⟩
    rw [readAges_unfit hnone hfits,readAges_unfit hnone' hunfit']

theorem outcome_perm (hperm : directives'.Perm directives) (h : Unanimous now directives) :
    outcome now directives' = outcome now directives := by
  have hread := readAges_perm (hperm.filterMap maxAgeNumber) h.readable h.alike
  rw [outcome,outcome,hread]
  simp only [List.contains_eq_mem,hperm.mem_iff]

theorem outcome_malformed (h : maxAgeNumber directive = some none) (directives : List Str) :
    outcome now (directive::directives) = .error .invalidMaxAge := by
  rw [outcome,List.filterMap_cons,h]
  rfl

theorem outcome_unfit {n : ℕ} (h : maxAgeNumber directive = some (some n)) (hn : ¬Fits now n)
    (directives : List Str) : outcome now (directive::directives) = .error .panic := by
  rw [outcome,List.filterMap_cons,h]
  simp only [readAges,if_neg hn]

/-- The age of the last directive counts. -/
theorem outcome_concat {n : ℕ} (h : maxAgeNumber directive = some (some n))
    (hnone : none ∉ (directives++[directive]).filterMap maxAgeNumber)
    (hfits : ∀ m, some m ∈ (directives++[directive]).filterMap maxAgeNumber → Fits now m) :
    (outcome now (directives++[directive])).map HstsPolicy.maxAge =
      if n = 0 then .error .invalidMaxAge else .ok n := by
  have hread := readAges_fit hnone hfits 0
  have hnumbers : (directives++[directive]).filterMap maxAgeNumber =
      directives.filterMap maxAgeNumber++[some n] := by
    rw [List.filterMap_append,List.filterMap_cons,h]
    rfl
  have hlast : (directives.filterMap maxAgeNumber++[some n]).reduceOption.getLast? = some n := by
    rw [List.reduceOption_append]
    exact List.getLast?_concat
  rw [hnumbers,hlast] at hread
  rw [outcome,hnumbers,hread]
  simp only [Option.getD_some]
  split_ifs
  · rfl
  · rfl

/-- A directive can be put first or last. -/
theorem perm_ends (h : directive ∈ directives) :
    (directive::directives.erase directive).Perm directives ∧
    (directives.erase directive++[directive]).Perm directives :=
  ⟨(List.perm_cons_erase h).symm,(List.perm_append_singleton ..).trans (List.perm_cons_erase h).symm⟩

theorem unanimous_of_outcome (hwritten : directives ≠ [[]])
    (h : ∀ directives', directives'.Perm directives → outcome now directives' = outcome now directives) :
    Unanimous now directives := by
  refine ⟨hwritten,?_,?_⟩
  · intro hnone n hn
    obtain ⟨malformed,hmalformed,hnumber⟩ := List.mem_filterMap.mp hnone
    obtain ⟨named,hnamed,hage⟩ := List.mem_filterMap.mp hn
    by_contra hunfit
    -- the malformed age in front gives one error, the unfit one another
    have hfirst := h _ (perm_ends hmalformed).1
    have hsecond := h _ (perm_ends hnamed).1
    rw [outcome_malformed hnumber] at hfirst
    rw [outcome_unfit hage hunfit,← hfirst] at hsecond
    cases hsecond
  · intro hnone hfits m n hm hn
    have hlast : ∀ k, some k ∈ directives.filterMap maxAgeNumber →
        (outcome now directives).map HstsPolicy.maxAge = if k = 0 then .error .invalidMaxAge else .ok k := by
      intro k hk
      obtain ⟨named,hnamed,hage⟩ := List.mem_filterMap.mp hk
      have hperm := (perm_ends hnamed).2
      have hnumbers := hperm.filterMap maxAgeNumber
      rw [← h _ hperm]
      apply outcome_concat hage
      · exact fun hmem => hnone (hnumbers.mem_iff.mp hmem)
      · exact fun j hj => hfits j (hnumbers.mem_iff.mp hj)
    have hsame := (hlast m hm).symm.trans (hlast n hn)
    split_ifs at hsame with hzero hzero'
    · exact hzero.trans hzero'.symm
    · exact Except.ok.inj hsame

/-- The order of the directives and the blanks around them are of no importance exactly if
the ages agree. -/
theorem directives_orderless_iff (hplain : ∀ directive ∈ directives, Plain directive) :
    Orderless now directives ↔ Unanimous now directives := by
  by_cases hempty : directives = []
  · obtain rfl := hempty
    have hnil : ∀ value, Spells value [] → value = [] := by
      rintro value ⟨parts,hparts,rfl⟩
      cases hparts
      rfl
    refine iff_of_true ?_ ⟨by simp,by simp,by simp⟩
    intro directives' value value' hperm hvalue hvalue'
    rw [hperm.eq_nil] at hvalue'
    rw [hnil value hvalue,hnil value' hvalue']
  by_cases hwritten : directives = [[]]
  · -- blanks alone are another error than nothing at all
    obtain rfl := hwritten
    refine iff_of_false ?_ fun h => h.written rfl
    intro h
    have hblank : Spells [0x20] [[]] :=
      ⟨[[0x20]],.cons ⟨[0x20],[],by decide +kernel,nofun,rfl⟩ .nil,rfl⟩
    have hsame := h [[]] [] [0x20] (List.Perm.refl _) (spells_join [[]]) hblank
    have hsplit : hstsDirectives [0x20] = [[]] := by decide
    have hblanks : outcome now [[]] = .error .invalidMaxAge := rfl
    rw [parse_outcome,if_neg (List.cons_ne_nil 0x20 []),hsplit,hblanks,parse_outcome,if_pos rfl] at hsame
    cases hsame
  have hparse : ∀ directives' value, directives'.Perm directives → Spells value directives' →
      (parseHstsHeader value now).map nameless = outcome now directives' := by
    intro directives' value hperm hvalue
    apply hvalue.parse
    · exact fun directive hdirective => hplain directive (hperm.mem_iff.mp hdirective)
    · rintro rfl
      exact hempty hperm.symm.eq_nil
    · rintro rfl
      exact hwritten (List.perm_singleton.mp hperm.symm)
  constructor
  · intro h
    apply unanimous_of_outcome hwritten
    intro directives' hperm
    rw [← hparse directives' _ hperm (spells_join directives'),
      ← hparse directives _ (List.Perm.refl _) (spells_join directives)]
    exact h _ _ _ hperm (spells_join directives) (spells_join directives')
  · intro h directives' value value' hperm hvalue hvalue'
    rw [hparse _ _ hperm hvalue',hparse _ _ (List.Perm.refl _) hvalue,outcome_perm hperm h]

end Orders

section RoundTrip

variable {foreign : ForeignFree} {now : ℤ} {policy : HstsPolicy}

/-- The directives of the header that is built. -/
def builtDirectives (policy : HstsPolicy) : List Str := (headerParts policy).map HeaderPart.part

theorem builtDirectives_eq (policy : HstsPolicy) : builtDirectives policy =
    (agePrefix++decimal policy.maxAge)::((if policy.includeSubDomains then [subDomainsName] else [])++
      if policy.preload then [preloadName] else []) := by
  rw [builtDirectives,headerParts,List.map_cons,List.map_append]
  cases policy.includeSubDomains <;> cases policy.preload <;> rfl

theorem mem_builtDirectives {directive : Str} : directive ∈ builtDirectives policy ↔
    directive = agePrefix++decimal policy.maxAge ∨ directive = subDomainsName ∧ policy.includeSubDomains = true ∨
      directive = preloadName ∧ policy.preload = true := by
  rw [builtDirectives_eq]
  cases policy.includeSubDomains <;> cases policy.preload <;> simp

theorem age_plain (n : ℕ) : Plain (agePrefix++decimal n) := by
  refine ⟨?_,?_⟩
  · rw [List.mem_append,not_or]
    exact ⟨by decide,notMem_decimal (by decide) n⟩
  · apply trim_ends
    · have hhead : (agePrefix++decimal n).head? = some 0x6d := rfl
      rw [hhead]
      decide +kernel
    · intro b hb hblank
      have hdigits : ∀ c ∈ blanks, c < 0x30 ∨ 0x39 < c := by decide +kernel
      rw [List.getLast?_append_of_ne_nil _ (decimal_ne_nil n)] at hb
      exact notMem_decimal (hdigits b hblank) n (List.mem_of_getLast? hb)
    · exact List.append_ne_nil_of_left_ne_nil (by decide) _

theorem freeParts_ok (parts : List HeaderPart) : parts.forM (freePart foreign) = .ok () ↔
    ∀ part ∈ parts, part.allocated = true ∨ foreign = .ignored := by
  induction parts with
  | nil => exact iff_of_true rfl (List.forall_mem_nil _)
  | cons part parts ih =>
    change (freePart foreign part >>= fun _ => parts.forM (freePart foreign)) = .ok () ↔ _
    rw [List.forall_mem_cons,freePart]
    split_ifs with hfree
    · exact ih.trans (and_iff_right hfree).symm
    · exact iff_of_false (fun h => nomatch h) fun h => hfree h.1

/-- The literals are the parts that the allocator does not know. -/
theorem buildHstsHeader_ok {header : Str} : buildHstsHeader foreign policy = .ok header ↔
    (foreign = .ignored ∨ policy.includeSubDomains = false ∧ policy.preload = false) ∧
      header = joinParts (builtDirectives policy) := by
  have hfree : (∀ part ∈ headerParts policy, part.allocated = true ∨ foreign = .ignored) ↔
      foreign = .ignored ∨ policy.includeSubDomains = false ∧ policy.preload = false := by
    rw [headerParts]
    cases policy.includeSubDomains <;> cases policy.preload <;> simp
  rw [← hfree,← freeParts_ok,buildHstsHeader,builtDirectives]
  cases (headerParts policy).forM (freePart foreign) with
  | error e => exact iff_of_false (fun h => nomatch h) (fun h => nomatch h.1)
  | ok _ => exact ⟨fun h => ⟨rfl,(Except.ok.inj h).symm⟩,fun h => congrArg _ h.2.symm⟩

theorem builtDirectives_plain : ∀ directive ∈ builtDirectives policy, Plain directive := by
  intro directive hmem
  rcases mem_builtDirectives.mp hmem with rfl | ⟨rfl,-⟩ | ⟨rfl,-⟩
  · exact age_plain policy.maxAge
  · exact ⟨by decide,by decide⟩
  · exact ⟨by decide,by decide⟩

/-- The flags have no number, so the age is the only one. -/
theorem builtDirectives_numbers :
    (builtDirectives policy).filterMap maxAgeNumber = [parseUnsigned (2^64) (decimal policy.maxAge)] := by
  have hsub : maxAgeNumber subDomainsName = none := by decide
  have hpreload : maxAgeNumber preloadName = none := by decide
  rw [builtDirectives_eq,List.filterMap_cons,maxAgeNumber_append]
  cases policy.includeSubDomains <;> cases policy.preload <;> simp [hsub,hpreload]

theorem builtDirectives_flags (policy : HstsPolicy) : (preloadName ∈ builtDirectives policy ↔ policy.preload = true) ∧
    (subDomainsName ∈ builtDirectives policy ↔ policy.includeSubDomains = true) ∧
    fiveYearsName ∉ builtDirectives policy := by
  have hage : ∀ name : Str, name.head? ≠ some 0x6d → name ≠ agePrefix++decimal policy.maxAge := by
    rintro name hne rfl
    exact hne rfl
  have hpreload := hage preloadName (by decide)
  have hsub := hage subDomainsName (by decide)
  have hfive := hage fiveYearsName (by decide)
  obtain ⟨hps,hpf,hsf⟩ := names_ne
  simp [mem_builtDirectives,hpreload,hsub,hfive,hps,hps.symm,hpf.symm,hsf.symm]

theorem parse_built (now : ℤ) (policy : HstsPolicy) :
    (parseHstsHeader (joinParts (builtDirectives policy)) now).map nameless =
      outcome now (builtDirectives policy) := by
  have hfirst : agePrefix++decimal policy.maxAge ≠ [] := List.append_ne_nil_of_left_ne_nil (by decide) _
  apply (spells_join _).parse builtDirectives_plain
  · rw [builtDirectives_eq]
    exact List.cons_ne_nil _ _
  · rw [builtDirectives_eq]
    exact fun h => hfirst (List.cons.inj h).1

/-- The directives of a policy say what the policy says. -/
theorem outcome_built (hpos : 0 < policy.maxAge) (hlt : policy.maxAge < 2^63) (hfits : now+policy.maxAge < 2^63) :
    outcome now (builtDirectives policy) =
      .ok { domain := [], maxAge := policy.maxAge, includeSubDomains := policy.includeSubDomains,
            preload := policy.preload, expiresAt := now+policy.maxAge } := by
  have hnumber : parseUnsigned (2^64) (decimal policy.maxAge) = some policy.maxAge :=
    parseUnsigned_decimal (hlt.trans (by decide))
  have hn : Fits now policy.maxAge := ⟨hlt,hfits⟩
  obtain ⟨hpreload,hsub,hfive⟩ := builtDirectives_flags policy
  rw [outcome,builtDirectives_numbers,hnumber,readAges,if_pos hn]
  simp only [readAges,if_neg (Nat.ne_of_gt hpos),List.contains_eq_mem,hpreload,hsub,hfive,Bool.decide_eq_true,
    decide_false,Bool.or_false]

/-- The age that is found is a signed number. -/
theorem outcome_built_lt {found : HstsPolicy} (h : outcome now (builtDirectives policy) = .ok found) :
    found.maxAge < 2^63 := by
  rw [outcome,builtDirectives_numbers] at h
  cases hnumber : parseUnsigned (2^64) (decimal policy.maxAge) with
  | none =>
    rw [hnumber] at h
    cases h
  | some n =>
    rw [hnumber,readAges] at h
    split_ifs at h with hn
    simp only [readAges] at h
    split_ifs at h
    cases h
    exact hn.1

/-- A policy is read back from its header exactly if the header survives the freeing of the
literals and its age is a signed number. -/
theorem policy_roundTrips_iff (hpos : 0 < policy.maxAge) (hfits : now+policy.maxAge < 2^63) :
    RoundTrips foreign now policy ↔
      (foreign = .ignored ∨ policy.includeSubDomains = false ∧ policy.preload = false) ∧ policy.maxAge < 2^63 := by
  have hparse := parse_built now policy
  constructor
  · rintro ⟨header,found,hbuild,hfound,hage,-⟩
    obtain ⟨hfree,rfl⟩ := buildHstsHeader_ok.mp hbuild
    rw [hfound] at hparse
    have hsame : outcome now (builtDirectives policy) = .ok (nameless found) := hparse.symm
    have hlt : (nameless found).maxAge < 2^63 := outcome_built_lt hsame
    exact ⟨hfree,hage ▸ hlt⟩
  · rintro ⟨hfree,hlt⟩
    rw [outcome_built hpos hlt hfits] at hparse
    cases hfound : parseHstsHeader (joinParts (builtDirectives policy)) now with
    | error e =>
      rw [hfound] at hparse
      cases hparse
    | ok found =>
      rw [hfound] at hparse
      have hsame : nameless found = _ := Except.ok.inj hparse
      have hage : (nameless found).maxAge = _ := congrArg HstsPolicy.maxAge hsame
      have hsub : (nameless found).includeSubDomains = _ := congrArg HstsPolicy.includeSubDomains hsame
      have hpreload : (nameless found).preload = _ := congrArg HstsPolicy.preload hsame
      have hexpires : (nameless found).expiresAt = _ := congrArg HstsPolicy.expiresAt hsame
      exact ⟨_,found,buildHstsHeader_ok.mpr ⟨hfree,rfl⟩,hfound,hage,hsub,hpreload,hexpires⟩

/-- When a policy survives being written and read, and when the order of directives and the
blanks around them are of no importance. -/
theorem roundTrips_orderless_iff (foreign : ForeignFree) (now : ℤ) (policy : HstsPolicy) (directives : List Str)
    (hpos : 0 < policy.maxAge) (hfits : now+policy.maxAge < 2^63)
    (hplain : ∀ directive ∈ directives, Plain directive) :
    (RoundTrips foreign now policy ↔
      (foreign = .ignored ∨ policy.includeSubDomains = false ∧ policy.preload = false) ∧ policy.maxAge < 2^63) ∧
    (Orderless now directives ↔ Unanimous now directives) :=
  ⟨policy_roundTrips_iff hpos hfits,directives_orderless_iff hplain⟩

end RoundTrip

/-- A policy with a flag, whose name is a literal. -/
def flaggedPolicy : HstsPolicy := { domain := [], maxAge := 300, includeSubDomains := true }

theorem roundTrips_orderless_flagged :
    RoundTrips .ignored 0 flaggedPolicy ∧ Orderless 0 (builtDirectives flaggedPolicy) := by
  have hiff := fun foreign => roundTrips_orderless_iff foreign 0 flaggedPolicy (builtDirectives flaggedPolicy)
    (by decide) (by decide) builtDirectives_plain
  have hnumbers : (builtDirectives flaggedPolicy).filterMap maxAgeNumber = [some 300] := by decide
  refine ⟨(hiff .ignored).1.mpr ⟨Or.inl rfl,by decide⟩,(hiff .ignored).2.mpr ⟨by decide,?_,?_⟩⟩
  · rw [hnumbers]
    exact fun h => by simp at h
  · rw [hnumbers]
    intro _ _ m n hm hn
    simp_all

/-- Two ages that are not the same. -/
def twoAges : List Str := [text "max-age=1",text "max-age=2"]

/-- Freeing a literal traps, and the later of two ages counts. -/
theorem roundTrips_orderless_fail :
    (¬∀ (foreign : ForeignFree) (now : ℤ) (policy : HstsPolicy), 0 < policy.maxAge → now+policy.maxAge < 2^63 →
      RoundTrips foreign now policy) ∧
    ¬∀ (now : ℤ) (directives : List Str), (∀ directive ∈ directives, Plain directive) → Orderless now directives := by
  constructor
  · intro h
    obtain ⟨header,found,hbuild,-⟩ := h .trapped 0 flaggedPolicy (by decide) (by decide)
    cases hbuild
  · intro h
    have hplain : ∀ directive ∈ twoAges, 0x3b ∉ directive ∧ trim (ascii [' ','\t']) directive = directive := by
      decide
    have horderless := h 0 twoAges hplain
    have hsame := horderless _ _ _ (List.Perm.swap ..) (spells_join _) (spells_join _)
    revert hsame
    decide

end ZNet.Policy
