import ZNet.CspValidator
import ZNet.OriginCase
import Mathlib.Data.List.Forall2

/-!
# The sources of a content security policy

What a header says is stated on its words. The validator works on what memory holds in place
of the tokens that the parser made of them.
-/

namespace ZNet.Policy
open TextScan Tables Origins

/-- The directives of a header, with the blanks around them cut off. -/
def directiveParts (header : Str) : List Str :=
  ((header.splitOnP (· == 0x3b)).map (trim (ascii [' ','\t','\r','\n']))).filter fun part => !part.isEmpty

def directiveName (part : Str) : Str := part.take ((part.idxOf? 0x20).getD part.length)

/-- The words behind the name. -/
def sourceWords (part : Str) : List Str :=
  (((part.drop ((part.idxOf? 0x20).getD part.length+1)).splitOnP isBlank).map (trim (ascii [' ','\t']))).filter
    fun word => !word.isEmpty

def partNamed (header name : Str) : Option Str := (directiveParts header).find? fun part => directiveName part == name

/-- The directive for a type of resources or else `default-src`. -/
def applicablePart (header resourceType : Str) : Option Str :=
  (partNamed header (getDirectiveForResourceType resourceType)).or (partNamed header (text "default-src"))

def noncePrefix : Str := text "'nonce-"

/-- What closes a keyword or a nonce. -/
def quote : UInt8 := 0x27

/-- A word that is neither a keyword nor a nonce nor a hash. -/
structure HostWord (word : Str) : Prop where
  keyword : word ∉ [text "'self'",text "'unsafe-inline'",text "'unsafe-eval'",text "'none'"]
  nonce : ¬noncePrefix <+: word
  hash : ¬text "'sha" <+: word

section Words

variable (document resource : Origin) (nonce : Option Str)

/-- A source other than one with a scheme that permits the resource. -/
inductive Permits : Str → Prop
  | self (h : resource = document) : Permits (text "'self'")
  | host (h : HostWord resource.host) : Permits resource.host
  | subdomain {domain : Str} (hne : domain ≠ []) (h : (0x2e::domain) <:+ resource.host) :
      Permits (text "*."++domain)
  | nonce {n : Str} (h : nonce = some n) : Permits (noncePrefix++n++[quote])

/-- A source that permits the resource by its scheme and its host. -/
def schemeSource : Str := resource.scheme++schemeEnd++resource.host

/-- A source that the validator takes for one that permits the resource: there is no dot before
the domain, or no quote behind the nonce. -/
inductive Strays : Str → Prop
  | suffix {domain : Str} (hne : domain ≠ []) (h : domain <:+ resource.host)
      (hdot : ¬(0x2e::domain) <:+ resource.host) : Strays (text "*."++domain)
  | nonce {n : Str} {last : UInt8} (h : nonce = some n) (hlast : last ≠ quote) : Strays (noncePrefix++n++[last])

end Words

/-- A rule that was read from a part of the header. -/
structure ReadFrom (freed : FreedMemory CSPToken) (part : Str) (rule : CSPDirectiveRule) : Prop where
  name : rule.directive = directiveName part
  sources : ∃ tokens, List.Forall₂ (fun word token => parseSourceToken word = .ok token) (sourceWords part) tokens ∧
    rule.sources = freed.read tokens
  allowSelf : rule.allowSelf = false
  allowUnsafeInline : rule.allowUnsafeInline = false

section Parsing

variable {freed : FreedMemory CSPToken} {header part : Str} {rule : CSPDirectiveRule} {policy : ContentSecurityPolicy}
  {origin : Origin} {self self' : CSPValidator}

theorem forall₂_of_mapM {α β ε : Type} {f : α → Except ε β} {xs : List α} {ys : List β} (h : xs.mapM f = .ok ys) :
    List.Forall₂ (fun x y => f x = .ok y) xs ys := by
  induction xs generalizing ys with
  | nil =>
    cases h
    exact .nil
  | cons x xs ih =>
    rw [List.mapM_cons] at h
    cases hx : f x with
    | error e =>
      rw [hx] at h
      cases h
    | ok y =>
      cases hxs : xs.mapM f with
      | error e =>
        rw [hx,hxs] at h
        cases h
      | ok ys' =>
        rw [hx,hxs] at h
        cases h
        exact .cons hx (ih hxs)

/-- Some element has a property exactly if some element beside it has the other one. -/
theorem exists_iff_of_forall₂ {α β : Type} {R : α → β → Prop} {P : α → Prop} {Q : β → Prop} {xs : List α} {ys : List β}
    (h : List.Forall₂ R xs ys) (hPQ : ∀ x y, R x y → (P x ↔ Q y)) : (∃ x ∈ xs, P x) ↔ ∃ y ∈ ys, Q y := by
  induction h with
  | nil => simp
  | cons hxy _ ih => rw [List.exists_mem_cons_iff,List.exists_mem_cons_iff,hPQ _ _ hxy,ih]

theorem parseDirective_eq (part : Str) : parseDirective part = (sourceWords part).mapM parseSourceToken >>= fun sources =>
    (pure { directive := directiveName part, sources := sources } : Except CSPError CSPDirectiveRule) := rfl

theorem parseCSPHeader_eq (freed : FreedMemory CSPToken) (self : CSPValidator) (header : Str) (origin : Origin) :
    self.parseCSPHeader freed header origin = (directiveParts header).mapM parseDirective >>= fun directives =>
      let policy : ContentSecurityPolicy := ⟨directives.map (CSPDirectiveRule.afterDeinit freed)⟩
      (pure (policy,{ self with policies := self.policies.insert origin policy }) :
        Except CSPError (ContentSecurityPolicy×CSPValidator)) := rfl

theorem parseDirective_ok (h : parseDirective part = .ok rule) : ReadFrom freed part (rule.afterDeinit freed) := by
  rw [parseDirective_eq] at h
  cases hwords : (sourceWords part).mapM parseSourceToken with
  | error e =>
    rw [hwords] at h
    cases h
  | ok sources =>
    rw [hwords] at h
    cases h
    exact ⟨rfl,⟨sources,forall₂_of_mapM hwords,rfl⟩,rfl,rfl⟩

/-- The rules of a header are kept for the origin. -/
theorem parseCSPHeader_ok (h : self.parseCSPHeader freed header origin = .ok (policy,self')) :
    List.Forall₂ (ReadFrom freed) (directiveParts header) policy.directives ∧
    self' = { self with policies := self.policies.insert origin policy } := by
  rw [parseCSPHeader_eq] at h
  cases hparts : (directiveParts header).mapM parseDirective with
  | error e =>
    rw [hparts] at h
    cases h
  | ok directives =>
    rw [hparts] at h
    cases h
    exact ⟨List.forall₂_map_right_iff.mpr ((forall₂_of_mapM hparts).imp fun part rule => parseDirective_ok),rfl⟩

theorem find_readFrom {parts : List Str} {rules : List CSPDirectiveRule} (h : List.Forall₂ (ReadFrom freed) parts rules)
    (name : Str) : Option.Rel (ReadFrom freed) (parts.find? fun part => directiveName part == name)
      (rules.find? fun rule => rule.directive == name) := by
  induction h with
  | nil => exact .none
  | @cons part rule parts rules hread _ ih =>
    rw [List.find?_cons,List.find?_cons,hread.name]
    cases directiveName part == name with
    | true => exact .some hread
    | false => exact ih

end Parsing

section Matching

variable {document resource : Origin} {nonce : Option Str} {word : Str} {token : CSPToken}
  {context : CSPValidationContext}

theorem permits_iff : Permits document resource nonce word ↔
    word = text "'self'" ∧ resource = document ∨ word = resource.host ∧ HostWord word ∨
      (∃ domain, domain ≠ [] ∧ (0x2e::domain) <:+ resource.host ∧ word = text "*."++domain) ∨
        ∃ n, nonce = some n ∧ word = noncePrefix++n++[quote] := by
  constructor
  · intro h
    cases h with
    | self h => exact Or.inl ⟨rfl,h⟩
    | host h => exact Or.inr (Or.inl ⟨rfl,h⟩)
    | subdomain hne h => exact Or.inr (Or.inr (Or.inl ⟨_,hne,h,rfl⟩))
    | nonce h => exact Or.inr (Or.inr (Or.inr ⟨_,h,rfl⟩))
  · rintro (⟨rfl,h⟩ | ⟨rfl,h⟩ | ⟨domain,hne,h,rfl⟩ | ⟨n,h,rfl⟩)
    · exact .self h
    · exact .host h
    · exact .subdomain hne h
    · exact .nonce h

theorem strays_iff : Strays resource nonce word ↔
    (∃ domain, domain ≠ [] ∧ domain <:+ resource.host ∧ ¬(0x2e::domain) <:+ resource.host ∧ word = text "*."++domain) ∨
      ∃ n last, nonce = some n ∧ last ≠ quote ∧ word = noncePrefix++n++[last] := by
  constructor
  · intro h
    cases h with
    | suffix hne h hdot => exact Or.inl ⟨_,hne,h,hdot,rfl⟩
    | nonce h hlast => exact Or.inr ⟨_,_,h,hlast,rfl⟩
  · rintro (⟨domain,hne,h,hdot,rfl⟩ | ⟨n,last,h,hlast,rfl⟩)
    · exact .suffix hne h hdot
    · exact .nonce h hlast

theorem ne_wildcard (h : word.head? ≠ some 0x2a) (domain : Str) : word ≠ text "*."++domain := by
  rintro rfl
  exact h rfl

theorem ne_nonce (h : ¬noncePrefix <+: word) (n : Str) (last : UInt8) : word ≠ noncePrefix++n++[last] := by
  rintro rfl
  apply h
  rw [List.append_assoc]
  exact List.prefix_append ..

/-- Only `'self'` permits anything among the words that name no host. -/
theorem keyword_iff (hhead : word.head? ≠ some 0x2a) (hnonce : ¬noncePrefix <+: word) (hhost : ¬HostWord word) :
    Permits document resource nonce word ∨ Strays resource nonce word ↔
      word = text "'self'" ∧ resource = document := by
  rw [permits_iff,strays_iff]
  simp only [ne_wildcard hhead,ne_nonce hnonce,hhost,and_false,exists_false,or_false]

/-- The last byte of a nonce is cut off, whether it is a quote or not. -/
theorem nonce_iff (n : Str) (last : UInt8) : Permits document resource nonce (noncePrefix++n++[last]) ∨
    Strays resource nonce (noncePrefix++n++[last]) ↔ nonce = some n := by
  have hhost : ¬HostWord (noncePrefix++n++[last]) := by
    intro h
    apply h.nonce
    rw [List.append_assoc]
    exact List.prefix_append ..
  have hhead : (noncePrefix++n++[last]).head? ≠ some 0x2a := by
    have hfirst : (noncePrefix++n++[last]).head? = some 0x27 := rfl
    rw [hfirst]
    decide
  have hself : noncePrefix++n++[last] ≠ text "'self'" := by
    intro h
    have hsecond : (noncePrefix++n++[last])[1]? = some 0x6e := rfl
    rw [h] at hsecond
    revert hsecond
    decide
  rw [permits_iff,strays_iff]
  have hlast {m : Str} {b : UInt8} : noncePrefix++n++[last] = noncePrefix++m++[b] ↔ n = m ∧ last = b := by
    rw [List.append_assoc,List.append_assoc,List.append_cancel_left_eq]
    constructor
    · intro h
      obtain ⟨hn,hb⟩ := List.append_inj' h rfl
      exact ⟨hn,List.head_eq_of_cons_eq hb⟩
    · rintro ⟨rfl,rfl⟩
      rfl
  simp only [hself,hhost,ne_wildcard hhead,hlast,false_and,and_false,exists_false,false_or]
  constructor
  · rintro (⟨m,hm,rfl,-⟩ | ⟨m,b,hm,-,rfl,-⟩)
    · exact hm
    · exact hm
  · intro h
    by_cases hquote : last = quote
    · exact Or.inl ⟨n,h,rfl,hquote⟩
    · exact Or.inr ⟨n,last,h,hquote,rfl,rfl⟩

/-- A word for hosts is compared as the code does it, with a dot before the domain or without. -/
theorem host_iff (h : HostWord word) : Permits document resource nonce word ∨ Strays resource nonce word ↔
    matchHostSource word resource = true := by
  have hself : word ≠ text "'self'" := by
    rintro rfl
    exact h.keyword List.mem_cons_self
  have hsuffix : Permits document resource nonce word ∨ Strays resource nonce word ↔
      word = resource.host ∨ ∃ domain, domain ≠ [] ∧ domain <:+ resource.host ∧ word = text "*."++domain := by
    rw [permits_iff,strays_iff]
    simp only [hself,h,ne_nonce h.nonce,false_and,and_false,exists_false,or_false,false_or,and_true,or_assoc]
    apply or_congr_right
    constructor
    · rintro (⟨domain,hne,hdot,hword⟩ | ⟨domain,hne,hend,-,hword⟩)
      · exact ⟨domain,hne,(List.suffix_cons ..).trans hdot,hword⟩
      · exact ⟨domain,hne,hend,hword⟩
    · rintro ⟨domain,hne,hend,hword⟩
      by_cases hdot : (0x2e::domain) <:+ resource.host
      · exact Or.inl ⟨domain,hne,hdot,hword⟩
      · exact Or.inr ⟨domain,hne,hend,hdot,hword⟩
  have hdrop : ∀ domain : Str, (text "*."++domain).drop 2 = domain := fun domain => List.drop_left' rfl
  rw [hsuffix,matchHostSource]
  split_ifs with hwild
  · obtain ⟨domain,rfl⟩ := List.isPrefixOf_iff_prefix.mp hwild.1
    have hne : domain ≠ [] := by
      rintro rfl
      exact absurd hwild.2 (by decide)
    rw [hdrop,List.isSuffixOf_iff_suffix]
    constructor
    · rintro (hword | ⟨found,-,hend,hword⟩)
      · rw [← hword]
        exact List.suffix_append ..
      · rwa [List.append_cancel_left hword]
    · exact fun hend => Or.inr ⟨domain,hne,hend,rfl⟩
  · rw [beq_iff_eq]
    apply or_iff_left
    rintro ⟨domain,hne,-,rfl⟩
    apply hwild
    refine ⟨List.isPrefixOf_iff_prefix.mpr (List.prefix_append ..),?_⟩
    rw [List.length_append]
    have hpos := List.length_pos_iff.mpr hne
    have htwo : (text "*.").length = 2 := rfl
    omega

/-- No host has a scheme in it. -/
theorem match_of_scheme (hslash : slash ∉ resource.host) (hscheme : (indexOf schemeEnd word).isSome = true) :
    matchHostSource word resource = false := by
  have hmem : slash ∈ word := by
    obtain ⟨i,hi⟩ := Option.isSome_iff_exists.mp hscheme
    rw [(indexOf_some hi).1]
    simp [schemeEnd,slash]
  rw [matchHostSource]
  split_ifs with hwild
  · obtain ⟨domain,rfl⟩ := List.isPrefixOf_iff_prefix.mp hwild.1
    have hdrop : (text "*."++domain).drop 2 = domain := List.drop_left' rfl
    have hdomain : slash ∈ domain := by
      rcases List.mem_append.mp hmem with hstar | hdomain
      · exact absurd hstar (by decide)
      · exact hdomain
    rw [hdrop]
    apply eq_false_of_ne_true
    intro hend
    exact hslash ((List.isSuffixOf_iff_suffix.mp hend).subset hdomain)
  · rw [beq_eq_false_iff_ne]
    rintro rfl
    exact hslash hmem

/-- What becomes of a word: a keyword, a hash or a nonce, or a source of the two other kinds. -/
inductive Tokenized (word : Str) : CSPToken → Prop
  | self (h : word = text "'self'") : Tokenized word ⟨.selfKeyword,word,true⟩
  | inert {token : CSPToken} (hhead : word.head? = some quote) (hself : word ≠ text "'self'")
      (hnonce : ¬noncePrefix <+: word) (hhost : ¬HostWord word)
      (h : token.tokenType ∈ [.unsafeInlineKeyword,.unsafeEvalKeyword,.noneKeyword,.hash]) : Tokenized word token
  | nonce (n : Str) (last : UInt8) (h : word = noncePrefix++n++[last]) : Tokenized word ⟨.nonce,n,false⟩
  | scheme (hhost : HostWord word) (h : (indexOf schemeEnd word).isSome = true) : Tokenized word ⟨.schemeSource,word,false⟩
  | host (hhost : HostWord word) : Tokenized word ⟨.hostSource,word,false⟩

theorem keyword_inert (keyword : Str) (h : keyword ∈ [text "'unsafe-inline'",text "'unsafe-eval'",text "'none'"]) :
    keyword.head? = some quote ∧ ¬noncePrefix <+: keyword ∧ ¬HostWord keyword := by
  refine ⟨?_,?_,fun hhost => hhost.keyword (List.mem_cons_of_mem _ h)⟩
  · revert keyword
    decide
  · revert keyword
    decide

/-- The value of a nonce is what stands before its last byte. -/
theorem nonce_value (n : Str) (last : UInt8) :
    ((noncePrefix++n++[last]).drop 7).take ((noncePrefix++n++[last]).length-8) = n := by
  have hdrop : (noncePrefix++n++[last]).drop 7 = n++[last] := by
    rw [List.append_assoc]
    exact List.drop_left' rfl
  have hlen : (noncePrefix++n++[last]).length = n.length+8 := by
    have hseven : noncePrefix.length = 7 := rfl
    rw [List.length_append,List.length_append,List.length_singleton,hseven]
    omega
  rw [hdrop,hlen,Nat.add_sub_cancel]
  exact List.take_left' rfl

theorem parseSourceToken_ok (h : parseSourceToken word = .ok token) : Tokenized word token := by
  rw [parseSourceToken,← noncePrefix] at h
  split_ifs at h with hself hinline heval hnone hnonce hshort hsha hscheme
  · cases h
    exact .self hself
  · cases h
    obtain ⟨hhead,hnonce,hhost⟩ := keyword_inert word (by simp [hinline])
    exact .inert hhead hself hnonce hhost (by simp)
  · cases h
    obtain ⟨hhead,hnonce,hhost⟩ := keyword_inert word (by simp [heval])
    exact .inert hhead hself hnonce hhost (by simp)
  · cases h
    obtain ⟨hhead,hnonce,hhost⟩ := keyword_inert word (by simp [hnone])
    exact .inert hhead hself hnonce hhost (by simp)
  · cases h
    obtain ⟨rest,rfl⟩ := List.isPrefixOf_iff_prefix.mp hnonce
    rcases List.eq_nil_or_concat rest with rfl | ⟨n,last,rfl⟩
    · exact absurd (by decide) hshort
    · rw [List.concat_eq_append,← List.append_assoc,nonce_value]
      exact .nonce n last rfl
  · cases h
    rw [List.isPrefixOf_iff_prefix] at hnonce hsha
    obtain ⟨rest,rfl⟩ := hsha
    exact .inert rfl hself hnonce (fun hhost => hhost.hash (List.prefix_append ..)) (by simp)
  · cases h
    rw [List.isPrefixOf_iff_prefix] at hnonce hsha
    exact .scheme ⟨by simp [hself,hinline,heval,hnone],hnonce,hsha⟩ hscheme
  · cases h
    rw [List.isPrefixOf_iff_prefix] at hnonce hsha
    exact .host ⟨by simp [hself,hinline,heval,hnone],hnonce,hsha⟩

/-- No scheme of an origin goes on behind `://`. -/
theorem parse_scheme_plain {url : Str} (h : Origin.parse url = .ok resource) : indexOf schemeEnd resource.scheme = none := by
  cases hindex : indexOf schemeEnd resource.scheme with
  | none => rfl
  | some i =>
    obtain ⟨hcut,-,hfirst⟩ := indexOf_some hindex
    have hfound := parse_scheme h []
    have hlen := congrArg List.length hcut
    rw [hcut,List.append_assoc,List.append_assoc,hfirst] at hfound
    have hi : i = resource.scheme.length := (Option.some.inj hfound).trans (congrArg List.length hcut.symm)
    simp only [List.length_append,List.length_take,schemeEnd,List.length_cons,List.length_nil] at hlen
    omega

/-- A token matches exactly if its word permits the resource or strays to it. -/
theorem matchSource_iff (hparse : parseSourceToken word = .ok token)
    (hresource : Origin.parse context.resourceUrl = .ok resource)
    (hdocument : Origin.parse context.documentUrl = .ok document) :
    matchSource token resource context = true ↔
      Permits document resource context.scriptNonce word ∨ Strays resource context.scriptNonce word := by
  obtain ⟨-,hslash,-⟩ := parse_shape hresource
  cases parseSourceToken_ok hparse with
  | self h =>
    obtain rfl := h
    rw [keyword_iff (by decide) (by decide) fun hhost => hhost.keyword (List.mem_cons_self ..),matchSource]
    simp only [hdocument,Origin.isSameOrigin_iff,true_and]
  | inert hhead hself hnonce hhost h =>
    rw [keyword_iff (by rw [hhead]; decide) hnonce hhost]
    apply iff_of_false
    · rw [matchSource]
      simp only [List.mem_cons,List.not_mem_nil,or_false] at h
      rcases h with h | h | h | h
      all_goals
        rw [h]
        exact Bool.false_ne_true
    · exact fun heq => hself heq.1
  | nonce n last h =>
    rw [h,nonce_iff]
    exact beq_iff_eq
  | scheme hhost h =>
    rw [host_iff hhost,match_of_scheme hslash h]
    apply iff_of_false
    · intro heq
      have hword : word = resource.scheme := beq_iff_eq.mp heq
      rw [hword,parse_scheme_plain hresource] at h
      cases h
    · exact Bool.false_ne_true
  | host hhost => exact (host_iff hhost).symm

end Matching

section Validation

variable {freed : FreedMemory CSPToken} {self self' : CSPValidator} {header part : Str} {document : Origin}
  {policy : ContentSecurityPolicy} {context : CSPValidationContext}

/-- The resource is let through. -/
def Allows (self : CSPValidator) (context : CSPValidationContext) : Prop :=
  ∃ result, self.validateResource context = .ok result ∧ result.allowed = true

/-- The resource has an origin, and a source of the directive permits it. -/
def Permitted (part : Str) (document : Origin) (context : CSPValidationContext) : Prop :=
  ∃ resource, Origin.parse context.resourceUrl = .ok resource ∧ ∃ word ∈ sourceWords part,
    Permits document resource context.scriptNonce word ∨ word = schemeSource resource

/-- The resource has an origin, and either a source other than one with a scheme permits it, or
sources stray to it exactly if one with a scheme permits it. -/
def MatchedAsWritten (part : Str) (document : Origin) (context : CSPValidationContext) : Prop :=
  ∃ resource, Origin.parse context.resourceUrl = .ok resource ∧
    ((∃ word ∈ sourceWords part, Permits document resource context.scriptNonce word) ∨
      ((∃ word ∈ sourceWords part, Strays resource context.scriptNonce word) ↔
        schemeSource resource ∈ sourceWords part))

/-- The policy is kept for the document, and each of its rules is read from the part of that name. -/
theorem parseCSPHeader_stored (h : self.parseCSPHeader freed header document = .ok (policy,self')) :
    self'.policies.lookup document = some policy ∧ self'.nonceCache = self.nonceCache ∧
    ∀ name, Option.Rel (ReadFrom freed) (partNamed header name) (findDirective policy name) := by
  obtain ⟨hrules,rfl⟩ := parseCSPHeader_ok h
  refine ⟨?_,rfl,find_readFrom hrules⟩
  rw [lookup_insert_eq,if_pos rfl]

/-- The rule for the resource comes from the applicable part of the header. -/
theorem validateResource_stored (hdocument : Origin.parse context.documentUrl = .ok document)
    (hheader : self.parseCSPHeader freed header document = .ok (policy,self'))
    (hpart : applicablePart header context.resourceType = some part) :
    ∃ rule, ReadFrom freed part rule ∧ self'.validateResource context = .ok (validateAgainstDirective rule context) := by
  obtain ⟨hlookup,-,hnamed⟩ := parseCSPHeader_stored hheader
  have htyped := hnamed (getDirectiveForResourceType context.resourceType)
  have hdefault := hnamed (text "default-src")
  rw [CSPValidator.validateResource,hdocument]
  simp only [hlookup]
  rw [applicablePart] at hpart
  cases hfound : partNamed header (getDirectiveForResourceType context.resourceType) with
  | some found =>
    rw [hfound,Option.some_or] at hpart
    cases hpart
    rw [hfound] at htyped
    obtain ⟨rule,hrule,hread⟩ := exists_of_rel_left htyped
    rw [hrule]
    exact ⟨rule,hread,rfl⟩
  | none =>
    rw [hfound,Option.none_or] at hpart
    rw [hfound] at htyped
    rw [hpart] at hdefault
    obtain ⟨rule,hrule,hread⟩ := exists_of_rel_left hdefault
    rw [none_of_rel_none htyped,hrule]
    exact ⟨rule,hread,rfl⟩

/-- A directive of the header sets no flag, so that only its sources count. -/
theorem validateAgainstDirective_any {rule : CSPDirectiveRule} (hread : ReadFrom freed part rule) {resource : Origin}
    (hresource : Origin.parse context.resourceUrl = .ok resource) :
    (validateAgainstDirective rule context).allowed = rule.sources.any fun source => matchSource source resource context := by
  have hself : selfAllowed rule resource context = none := by
    rw [selfAllowed,hread.allowSelf]
    rfl
  rw [validateAgainstDirective,hresource]
  simp only [hself]
  split_ifs with hany
  · exact hany.symm
  · exact (eq_false_of_ne_true hany).symm

/-- What the validator lets through if it finds the tokens as they were. -/
theorem validateAgainstDirective_iff {rule : CSPDirectiveRule} (hread : ReadFrom .kept part rule)
    (hdocument : Origin.parse context.documentUrl = .ok document) :
    (validateAgainstDirective rule context).allowed = true ↔
      ∀ resource, Origin.parse context.resourceUrl = .ok resource → ∃ word ∈ sourceWords part,
        Permits document resource context.scriptNonce word ∨ Strays resource context.scriptNonce word := by
  cases hresource : Origin.parse context.resourceUrl with
  | error e =>
    refine iff_of_true ?_ ?_
    · rw [validateAgainstDirective,hresource]
    · rintro resource ⟨⟩
  | ok resource =>
    obtain ⟨tokens,htokens,hsources⟩ := hread.sources
    rw [FreedMemory.read_kept] at hsources
    rw [validateAgainstDirective_any hread hresource,hsources,List.any_eq_true]
    simp only [Except.ok.injEq,forall_eq']
    exact (exists_iff_of_forall₂ htokens fun word token hparse => (matchSource_iff hparse hresource hdocument).symm).symm

/-- A token that matches the resource. -/
def hostToken (resource : Origin) : CSPToken := ⟨.hostSource,resource.host,false⟩

theorem matchSource_hostToken (resource : Origin) (context : CSPValidationContext) :
    matchSource (hostToken resource) resource context = true := by
  rw [hostToken,matchSource,matchHostSource]
  split_ifs
  · exact List.isSuffixOf_iff_suffix.mpr (List.drop_suffix ..)
  · exact beq_self_eq_true _

/-- A token that matches nothing. -/
def noneToken : CSPToken := ⟨.noneKeyword,text "'none'",true⟩

theorem any_replicate {α : Type} {p : α → Bool} {n : ℕ} {a : α} (hn : n ≠ 0) : (List.replicate n a).any p = p a := by
  cases n with
  | zero => exact (hn rfl).elim
  | succ n => simp

theorem parseCSPHeader_freed (hheader : self.parseCSPHeader freed header document = .ok (policy,self'))
    (freed' : FreedMemory CSPToken) : ∃ policy' self'', self.parseCSPHeader freed' header document = .ok (policy',self'') := by
  rw [parseCSPHeader_eq] at hheader ⊢
  cases hparts : (directiveParts header).mapM parseDirective with
  | error e =>
    rw [hparts] at hheader
    cases hheader
  | ok directives => exact ⟨_,_,rfl⟩

theorem allows_eq (hdocument : Origin.parse context.documentUrl = .ok document)
    (hheader : self.parseCSPHeader freed header document = .ok (policy,self'))
    (hpart : applicablePart header context.resourceType = some part) :
    ∃ rule, ReadFrom freed part rule ∧ (Allows self' context ↔ (validateAgainstDirective rule context).allowed = true) := by
  obtain ⟨rule,hread,hresult⟩ := validateResource_stored hdocument hheader hpart
  refine ⟨rule,hread,?_⟩
  rw [Allows,hresult]
  simp

/-- Where the memory of the tokens is filled with one token, that token decides. -/
theorem allows_filled (hdocument : Origin.parse context.documentUrl = .ok document) {token : CSPToken}
    (hheader : self.parseCSPHeader (.filled token) header document = .ok (policy,self'))
    (hpart : applicablePart header context.resourceType = some part) (hwords : sourceWords part ≠ []) {resource : Origin}
    (hresource : Origin.parse context.resourceUrl = .ok resource) :
    Allows self' context ↔ matchSource token resource context = true := by
  obtain ⟨rule,hread,hallows⟩ := allows_eq hdocument hheader hpart
  obtain ⟨tokens,htokens,hsources⟩ := hread.sources
  have hlength : tokens.length ≠ 0 := by
    rw [← htokens.length_eq]
    exact fun hnone => hwords (List.length_eq_zero_iff.mp hnone)
  rw [hallows,validateAgainstDirective_any hread hresource,hsources,FreedMemory.read_filled,any_replicate hlength]

/-- Without sources nothing is read from the memory of the tokens, and nothing is let through. -/
theorem not_allows_of_no_words (hdocument : Origin.parse context.documentUrl = .ok document)
    (hheader : self.parseCSPHeader freed header document = .ok (policy,self'))
    (hpart : applicablePart header context.resourceType = some part) (hwords : sourceWords part = []) {resource : Origin}
    (hresource : Origin.parse context.resourceUrl = .ok resource) : ¬Allows self' context := by
  obtain ⟨rule,hread,hallows⟩ := allows_eq hdocument hheader hpart
  obtain ⟨tokens,htokens,hsources⟩ := hread.sources
  rw [hwords,List.forall₂_nil_left_iff] at htokens
  rw [hallows,validateAgainstDirective_any hread hresource,hsources,htokens,FreedMemory.read_nil,List.any_nil]
  exact Bool.false_ne_true

/-- With tokens that are still as they were, exactly then a stored header lets a resource
through if and only if one of its sources permits it. -/
theorem allows_kept_iff (hdocument : Origin.parse context.documentUrl = .ok document)
    (hheader : self.parseCSPHeader .kept header document = .ok (policy,self'))
    (hpart : applicablePart header context.resourceType = some part) :
    (Allows self' context ↔ Permitted part document context) ↔ MatchedAsWritten part document context := by
  obtain ⟨rule,hread,hallows⟩ := allows_eq hdocument hheader hpart
  rw [hallows,validateAgainstDirective_iff hread hdocument,Permitted,MatchedAsWritten]
  cases hresource : Origin.parse context.resourceUrl with
  | error e => simp
  | ok resource =>
    simp only [Except.ok.injEq,forall_eq',exists_eq_left',and_or_left,exists_or,exists_eq_right]
    by_cases hpermits : ∃ word ∈ sourceWords part, Permits document resource context.scriptNonce word
    · simp only [hpermits,true_or]
    · simp only [hpermits,false_or]

/-- The validator that keeps the header lets the resource through if and only if a source of
the directive permits it, whatever the freed list of the sources holds. -/
def Sound (self : CSPValidator) (header part : Str) (document : Origin) (context : CSPValidationContext) : Prop :=
  ∀ freed policy self', self.parseCSPHeader freed header document = .ok (policy,self') →
    (Allows self' context ↔ Permitted part document context)

/-- The matching is sound exactly if the resource has an origin and the directive has no source,
so that the freed list is not read. Where the list is still as it was, it is sound exactly if
the sources are matched as they are written. -/
theorem allows_iff (hdocument : Origin.parse context.documentUrl = .ok document)
    (hheader : self.parseCSPHeader freed header document = .ok (policy,self'))
    (hpart : applicablePart header context.resourceType = some part) :
    (Sound self header part document context ↔
      (∃ resource, Origin.parse context.resourceUrl = .ok resource) ∧ sourceWords part = []) ∧
    ∀ policy' kept, self.parseCSPHeader .kept header document = .ok (policy',kept) →
      ((Allows kept context ↔ Permitted part document context) ↔ MatchedAsWritten part document context) := by
  refine ⟨⟨fun hsound => ?_,?_⟩,fun _ _ hkept => allows_kept_iff hdocument hkept hpart⟩
  · obtain ⟨policy',kept,hkept⟩ := parseCSPHeader_freed hheader .kept
    obtain ⟨resource,hresource,-⟩ := (allows_kept_iff hdocument hkept hpart).mp (hsound _ _ _ hkept)
    refine ⟨⟨resource,hresource⟩,?_⟩
    by_contra hwords
    -- the same header lets the resource through or not, depending on what the memory holds
    obtain ⟨_,open',hopen⟩ := parseCSPHeader_freed hheader (.filled (hostToken resource))
    obtain ⟨_,closed,hclosed⟩ := parseCSPHeader_freed hheader (.filled noneToken)
    have hallows := (allows_filled hdocument hopen hpart hwords hresource).mpr (matchSource_hostToken ..)
    have hpermitted := (hsound _ _ _ hopen).mp hallows
    have hmatch := (allows_filled hdocument hclosed hpart hwords hresource).mp ((hsound _ _ _ hclosed).mpr hpermitted)
    cases hmatch
  · rintro ⟨⟨resource,hresource⟩,hwords⟩ freed' policy' self'' hparse
    refine iff_of_false (not_allows_of_no_words hdocument hparse hpart hwords hresource) ?_
    rintro ⟨_,-,word,hword,-⟩
    rw [hwords] at hword
    cases hword

end Validation

/-- The origin of the documents below. -/
def pageOrigin : Origin := ⟨text "https",text "a",443⟩

def pageContext (resourceUrl : Str) : CSPValidationContext :=
  { resourceUrl := resourceUrl, resourceType := text "script", documentUrl := text "https://a/" }

def selfRule : CSPDirectiveRule := { directive := text "script-src", sources := [⟨.selfKeyword,text "'self'",true⟩] }

def emptyRule : CSPDirectiveRule := { directive := text "script-src", sources := [] }

/-- A directive without sources lets no script through, not even one of the page itself, which
`'self'` lets through as long as the list is as it was. -/
theorem allows_iff_self :
    Sound .init (text "script-src") (text "script-src") pageOrigin (pageContext (text "https://a/x")) ∧
    (Allows (CSPValidator.init.addPolicy pageOrigin ⟨[selfRule]⟩) (pageContext (text "https://a/x")) ↔
      Permitted (text "script-src 'self'") pageOrigin (pageContext (text "https://a/x"))) := by
  have hpage : Origin.parse (text "https://a/x") = .ok pageOrigin := by decide
  have hdocument : Origin.parse (pageContext (text "https://a/x")).documentUrl = .ok pageOrigin := by decide
  have hempty : CSPValidator.init.parseCSPHeader .kept (text "script-src") pageOrigin =
      .ok (⟨[emptyRule]⟩,CSPValidator.init.addPolicy pageOrigin ⟨[emptyRule]⟩) := rfl
  have hself : CSPValidator.init.parseCSPHeader .kept (text "script-src 'self'") pageOrigin =
      .ok (⟨[selfRule]⟩,CSPValidator.init.addPolicy pageOrigin ⟨[selfRule]⟩) := rfl
  have hword : text "'self'" ∈ sourceWords (text "script-src 'self'") := by decide
  refine ⟨(allows_iff hdocument hempty (by decide)).1.mpr ⟨⟨pageOrigin,hpage⟩,by decide⟩,?_⟩
  exact ((allows_iff hdocument hself (by decide)).2 _ _ hself).mpr ⟨pageOrigin,hpage,Or.inl ⟨_,hword,.self rfl⟩⟩

def noneRule : CSPDirectiveRule := { directive := text "script-src", sources := [⟨.noneKeyword,text "'none'",true⟩] }

/-- A text that is no URL is let through though no script is to be. -/
theorem unparsed_allowed : ¬∀ (freed : FreedMemory CSPToken) (self self' : CSPValidator) (header part : Str)
    (document : Origin) (policy : ContentSecurityPolicy) (context : CSPValidationContext),
    Origin.parse context.documentUrl = .ok document → self.parseCSPHeader freed header document = .ok (policy,self') →
      applicablePart header context.resourceType = some part →
        (Allows self' context ↔ Permitted part document context) := by
  intro h
  have hallows := h .kept .init _ (text "script-src 'none'") (text "script-src 'none'") pageOrigin ⟨[noneRule]⟩
    (pageContext (text "x")) (by decide) rfl (by decide)
  obtain ⟨resource,hresource,-⟩ := hallows.mp ⟨_,rfl,by decide⟩
  have herror : Origin.parse (text "x") = .error .invalidUrl := by decide
  cases herror.symm.trans hresource

end ZNet.Policy
