import ZNet.Policy

/-!
# Letter case in the validation of requests

Origins and schemes are compared byte by byte, so a request can be allowed or refused by
the way in which its URL is written.
-/

namespace ZNet.Policy
open TextScan Origins

section Case

variable {config : PolicyEngineConfig} {page origin : Origin} {url url' method : Str} {headers : Headers}

/-- The decision is the same for every way to write the scheme and the host of the URL, and
an https page may not load from http while mixed content is blocked. -/
structure CaseBlind (url method : Str) (headers : Headers) (page : Origin) (config : PolicyEngineConfig) : Prop where
  unvaried : ∀ url', CaseVariant url url' →
    decision (validateRequest url' method headers page config) =
      decision (validateRequest url method headers page config)
  mixed : config.enableMixedContentBlocking = true → page.scheme.map toLower = schemeHttps →
    ∀ origin, Origin.parse url = .ok origin → origin.scheme.map toLower = schemeHttp →
      ¬Allowed (validateRequest url method headers page config)

/-- Where only the page's own origin is allowed, the URL is not for it up to letter case, or
it has no letters. Elsewhere mixed content is not to be blocked, or the page is written in
such a way that the block is passed over and fails on the host of the page instead. -/
def CaseSettled (url : Str) (page : Origin) (config : PolicyEngineConfig) : Prop :=
  ∀ origin, Origin.parse url = .ok origin →
    (OwnOnly config → origin.lower = page.lower → origin.Letterless) ∧
    (¬OwnOnly config → config.enableMixedContentBlocking = true → page.scheme.map toLower = schemeHttps →
      origin.scheme.map toLower = schemeHttp →
        page.scheme ≠ schemeHttps ∧ config.enableCsp = true ∧ ∀ document, Origin.parse page.host ≠ .ok document)

theorem variant_ok (hvariant : CaseVariant url url') (hparse : Origin.parse url = .ok origin) :
    ∃ origin', Origin.parse url' = .ok origin' ∧ origin'.lower = origin.lower := by
  have heq := hvariant.parse_eq
  rw [hparse] at heq
  cases hparse' : Origin.parse url' with
  | error e =>
    rw [hparse'] at heq
    cases heq
  | ok origin' =>
    rw [hparse'] at heq
    exact ⟨origin',rfl,Except.ok.inj heq⟩

theorem variant_error {e : OriginError} (hvariant : CaseVariant url url') (hparse : Origin.parse url = .error e) :
    Origin.parse url' = .error e := by
  have heq := hvariant.parse_eq
  rw [hparse] at heq
  cases hparse' : Origin.parse url' with
  | error e' =>
    rw [hparse'] at heq
    cases heq
    rfl
  | ok origin' =>
    rw [hparse'] at heq
    cases heq

/-- A page and a request with the same scheme are not mixed. -/
theorem not_mixed_own : ¬Mixed config page page := by
  rintro ⟨-,hhttps,hhttp⟩
  rw [hhttps] at hhttp
  revert hhttp
  decide

/-- Mixed content is mixed in lower case. -/
theorem Mixed.lower (h : Mixed config page origin) :
    page.scheme.map toLower = schemeHttps ∧ origin.scheme.map toLower = schemeHttp := by
  rw [h.2.1,h.2.2]
  decide

theorem ownDecision_ne_false : ownDecision config page ≠ .ok false := fun h => by cases ownDecision_ok h

/-- The decision follows from what is common to all variants. -/
theorem decision_variant (hvariant : CaseVariant url url') (hsettled : CaseSettled url page config) :
    decision (validateRequest url' method headers page config) =
      decision (validateRequest url method headers page config) := by
  cases hparse : Origin.parse url with
  | error e => rw [decision_error hparse,decision_error (variant_error hvariant hparse)]
  | ok origin =>
    obtain ⟨origin',hparse',hlower⟩ := variant_ok hvariant hparse
    obtain ⟨hown,hmixed⟩ := hsettled origin hparse
    rw [decision_eq hparse,decision_eq hparse']
    by_cases honly : OwnOnly config
    · by_cases hpage : origin.lower = page.lower
      · rw [(hown honly hpage).eq hlower]
      · have hne : page ≠ origin := by
          rintro rfl
          exact hpage rfl
        have hne' : page ≠ origin' := by
          rintro rfl
          exact hpage hlower.symm
        rw [if_pos (Or.inl ⟨honly,hne'⟩),if_pos (Or.inl ⟨honly,hne⟩)]
    · have hscheme : origin'.scheme.map toLower = origin.scheme.map toLower := congrArg Origin.scheme hlower
      rw [if_neg,if_neg]
      · rintro (⟨honly',-⟩ | h)
        · exact honly honly'
        · exact (hmixed honly h.1 h.lower.1 h.lower.2).1 h.2.1
      · rintro (⟨honly',-⟩ | h)
        · exact honly honly'
        · exact (hmixed honly h.1 h.lower.1 (hscheme.symm.trans h.lower.2)).1 h.2.1

theorem mixed_refused (hsettled : CaseSettled url page config) (hblock : config.enableMixedContentBlocking = true)
    (hhttps : page.scheme.map toLower = schemeHttps) (hparse : Origin.parse url = .ok origin)
    (hhttp : origin.scheme.map toLower = schemeHttp) : ¬Allowed (validateRequest url method headers page config) := by
  intro hallowed
  rw [Allowed,decision_eq hparse] at hallowed
  split at hallowed
  · cases hallowed
  · rename_i hpass
    rw [not_or,not_and] at hpass
    have hne : page ≠ origin := by
      rintro rfl
      rw [hhttps] at hhttp
      revert hhttp
      decide
    have honly : ¬OwnOnly config := fun h => hpass.1 h hne
    obtain ⟨-,hcsp,hhost⟩ := (hsettled origin hparse).2 honly hblock hhttps hhttp
    rw [ownDecision,if_pos hcsp] at hallowed
    cases hdocument : Origin.parse page.host with
    | error e =>
      rw [hdocument] at hallowed
      cases hallowed
    | ok document => exact hhost document hdocument

/-- If the decision is the same for all variants, it is the same for all origins with the
same letters. -/
theorem CaseBlind.origins (h : CaseBlind url method headers page config) (hparse : Origin.parse url = .ok origin)
    {origin₁ origin₂ : Origin} (h₁ : origin₁.lower = origin.lower) (h₂ : origin₂.lower = origin.lower) :
    (if OwnOnly config ∧ page ≠ origin₁ ∨ Mixed config page origin₁ then .ok false else ownDecision config page) =
      if OwnOnly config ∧ page ≠ origin₂ ∨ Mixed config page origin₂ then .ok false else ownDecision config page := by
  obtain ⟨url₁,hvariant₁,hparse₁⟩ := exists_variant hparse h₁
  obtain ⟨url₂,hvariant₂,hparse₂⟩ := exists_variant hparse h₂
  calc
    _ = decision (validateRequest url₁ method headers page config) := (decision_eq hparse₁).symm
    _ = decision (validateRequest url method headers page config) := h.unvaried url₁ hvariant₁
    _ = decision (validateRequest url₂ method headers page config) := (h.unvaried url₂ hvariant₂).symm
    _ = _ := decision_eq hparse₂

/-- Where only the page's own origin is allowed, some variant of its URL is refused. -/
theorem CaseBlind.letterless (h : CaseBlind url method headers page config) (hparse : Origin.parse url = .ok origin)
    (honly : OwnOnly config) (hpage : origin.lower = page.lower) : origin.Letterless := by
  by_contra hletters
  obtain ⟨other,hne,hother⟩ : ∃ other : Origin, other ≠ page ∧ other.lower = page.lower := by
    apply exists_other
    intro hless
    rw [hless.eq hpage] at hletters
    exact hletters hless
  have heq := h.origins hparse hpage.symm (hother.trans hpage.symm)
  rw [if_neg,if_pos (Or.inl ⟨honly,hne.symm⟩)] at heq
  · exact ownDecision_ne_false heq
  · rintro (⟨-,hself⟩ | hmixed)
    · exact hself rfl
    · exact not_mixed_own hmixed

/-- With neither SOP nor CORS, http in upper case passes the block of mixed content. -/
theorem CaseBlind.mixed_settled (h : CaseBlind url method headers page config) (hparse : Origin.parse url = .ok origin)
    (honly : ¬OwnOnly config) (hblock : config.enableMixedContentBlocking = true)
    (hhttps : page.scheme.map toLower = schemeHttps) (hhttp : origin.scheme.map toLower = schemeHttp) :
    page.scheme ≠ schemeHttps ∧ config.enableCsp = true ∧ ∀ document, Origin.parse page.host ≠ .ok document := by
  have hexact : page.scheme ≠ schemeHttps := by
    intro hpage
    have hlower : (⟨schemeHttp,origin.host,origin.port⟩ : Origin).lower = origin.lower := by
      rw [Origin.lower,Origin.lower,hhttp]
      rfl
    have hupper : (⟨text "HTTP",origin.host,origin.port⟩ : Origin).lower = origin.lower := by
      rw [Origin.lower,Origin.lower,hhttp]
      rfl
    have heq := h.origins hparse hlower hupper
    rw [if_pos (Or.inr ⟨hblock,hpage,rfl⟩),if_neg] at heq
    · exact ownDecision_ne_false heq.symm
    · rintro (⟨h,-⟩ | hmixed)
      · exact honly h
      · have hother : text "HTTP" ≠ schemeHttp := by decide
        exact hother hmixed.2.2
  have hrefused := h.mixed hblock hhttps origin hparse hhttp
  rw [Allowed,decision_eq hparse,if_neg] at hrefused
  · rw [ownDecision] at hrefused
    split at hrefused
    · rename_i hcsp
      refine ⟨hexact,hcsp,fun document hdocument => ?_⟩
      rw [hdocument] at hrefused
      exact hrefused rfl
    · exact absurd rfl hrefused
  · rintro (⟨h,-⟩ | hmixed)
    · exact honly h
    · exact hexact hmixed.2.1

variable (url method headers page config)

/-- The decision does not depend on letter case exactly under this condition. -/
theorem case_blind_iff : CaseBlind url method headers page config ↔ CaseSettled url page config := by
  constructor
  · intro h origin hparse
    exact ⟨h.letterless hparse,h.mixed_settled hparse⟩
  · intro h
    exact ⟨fun url' hvariant => decision_variant hvariant h,
      fun hblock hhttps origin hparse hhttp => mixed_refused h hblock hhttps hparse hhttp⟩

end Case

/-- Only mixed content is blocked. -/
def mixedOnly : PolicyEngineConfig where
  enableSop := false
  enableCors := false
  enableCsp := false

def securePage : Origin := ⟨schemeHttps,text "a",443⟩

/-- The page `https://a` may load `HTTP://a/x`. -/
theorem case_not_blind : ¬∀ (url method : Str) (headers : Headers) (page : Origin) (config : PolicyEngineConfig),
    CaseBlind url method headers page config := by
  intro h
  have hparse : Origin.parse (text "HTTP://a/x") = .ok ⟨text "HTTP",text "a",80⟩ := by decide
  apply (h (text "HTTP://a/x") (text "GET") ∅ securePage mixedOnly).mixed rfl (by decide) _ hparse
    (by decide)
  rw [Allowed,decision_eq hparse]
  rfl

end ZNet.Policy
