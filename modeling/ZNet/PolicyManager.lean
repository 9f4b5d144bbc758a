import ZNet.Policy

/-!
# The policy manager

The manager keeps an engine, a handler and a validator that its configuration calls change.
A request is validated with the flags of the configuration alone.
-/

namespace ZNet.Policy
open TextScan Tables Origins Runs

structure PolicyManager where
  config : PolicyEngineConfig
  policyEngine : PolicyEngine
  corsHandler : CORSHangler
  cspValidator : CSPValidator

namespace PolicyManager

def init (config : PolicyEngineConfig) : PolicyManager := ⟨config,.init config,.init,.init⟩

def configureCORS (self : PolicyManager) (origin : Str) (options : CORSOptions) : PolicyManager :=
  { self with corsHandler := self.corsHandler.configure { options with origin := origin } }

def addCSPPolicy (freed : FreedMemory CSPToken) (self : PolicyManager) (origin policyHeader : Str) :
    Except CSPError PolicyManager :=
  match Origin.parse origin with
  | .error e => .error (.origin e)
  | .ok parsedOrigin => do
    let (_,validator) ← self.cspValidator.parseCSPHeader freed policyHeader parsedOrigin
    return { self with cspValidator := validator }

def addWhitelistOrigin (self : PolicyManager) (origin : Str) : Except OriginError PolicyManager := do
  let parsedOrigin ← Origin.parse origin
  return { self with policyEngine := self.policyEngine.addToWhitelist parsedOrigin }

def removeWhitelistOrigin (self : PolicyManager) (origin : Str) : Except OriginError PolicyManager := do
  let parsedOrigin ← Origin.parse origin
  return { self with policyEngine := self.policyEngine.removeFromWhitelist parsedOrigin }

def validateRequest (self : PolicyManager) (requestUrl method : Str) (headers : Headers) (pageOrigin : Origin) :
    Except OriginError ValidationResult :=
  Policy.validateRequest requestUrl method headers pageOrigin self.config

/-- The handler is given what was extracted from the headers. -/
def handlePreflightRequest (self : PolicyManager) (wyhash : Str → UInt64) (methodOrder headerOrder : IterationOrder Str)
    (requestHeaders : Headers) : Except CORSError CORSPreflightResponse×PolicyManager :=
  match extractPreflightRequest requestHeaders with
  | .error _ => (.error .preflightFailed,self)
  | .ok request =>
    let (outcome,handler) := self.corsHandler.handlePreflight wyhash methodOrder headerOrder request
    (outcome,{ self with corsHandler := handler })

def clearCaches (self : PolicyManager) : PolicyManager :=
  { self with corsHandler := self.corsHandler.clearCache, cspValidator := self.cspValidator.clearNonceCache }

end PolicyManager

inductive ConfigCall
  | configureCORS (origin : Str) (options : CORSOptions)
  | addCSPPolicy (freed : FreedMemory CSPToken) (origin policyHeader : Str)
  | addWhitelistOrigin (origin : Str)
  | removeWhitelistOrigin (origin : Str)

/-- A call that fails leaves the manager as it is. -/
def configStep (m : PolicyManager) : ConfigCall → PolicyManager
  | .configureCORS origin options => m.configureCORS origin options
  | .addCSPPolicy freed origin policyHeader => (m.addCSPPolicy freed origin policyHeader).toOption.getD m
  | .addWhitelistOrigin origin => (m.addWhitelistOrigin origin).toOption.getD m
  | .removeWhitelistOrigin origin => (m.removeWhitelistOrigin origin).toOption.getD m

section Effect

variable {freed : FreedMemory CSPToken} {m m' : PolicyManager} {page origin : Origin} {o pageUrl policyHeader url method : Str} {headers : Headers}

theorem addWhitelistOrigin_ok (h : m.addWhitelistOrigin o = .ok m') :
    ∃ target, Origin.parse o = .ok target ∧ m' = { m with policyEngine := m.policyEngine.addToWhitelist target } := by
  rw [PolicyManager.addWhitelistOrigin] at h
  cases hparse : Origin.parse o with
  | error e =>
    rw [hparse] at h
    cases h
  | ok target =>
    rw [hparse] at h
    cases h
    exact ⟨target,rfl,rfl⟩

theorem addCSPPolicy_config (h : m.addCSPPolicy freed pageUrl policyHeader = .ok m') : m'.config = m.config := by
  rw [PolicyManager.addCSPPolicy] at h
  cases hparse : Origin.parse pageUrl with
  | error e =>
    rw [hparse] at h
    cases h
  | ok page =>
    simp only [hparse] at h
    cases hpolicy : m.cspValidator.parseCSPHeader freed policyHeader page with
    | error e =>
      rw [hpolicy] at h
      cases h
    | ok found =>
      rw [hpolicy] at h
      cases h
      rfl

theorem configStep_config (m : PolicyManager) (call : ConfigCall) : (configStep m call).config = m.config := by
  cases call with
  | configureCORS origin options => rfl
  | addCSPPolicy freed origin policyHeader =>
    rw [configStep]
    cases h : m.addCSPPolicy freed origin policyHeader with
    | error e => rfl
    | ok m' => exact addCSPPolicy_config h
  | addWhitelistOrigin origin =>
    rw [configStep]
    cases h : m.addWhitelistOrigin origin with
    | error e => rfl
    | ok m' =>
      obtain ⟨target,-,rfl⟩ := addWhitelistOrigin_ok h
      rfl
  | removeWhitelistOrigin origin =>
    rw [configStep,PolicyManager.removeWhitelistOrigin]
    cases Origin.parse origin with
    | error e => rfl
    | ok target => rfl

/-- No history of configuration calls changes the outcome of a validation. -/
theorem validateRequest_run (m : PolicyManager) (calls : List ConfigCall) (url method : Str) (headers : Headers)
    (page : Origin) :
    (run configStep m calls).validateRequest url method headers page = m.validateRequest url method headers page := by
  have hconfig : (run configStep m calls).config = m.config :=
    run_inv (I:=fun m' => m'.config = m.config) (fun m' call h => (configStep_config m' call).trans h) rfl calls
  rw [PolicyManager.validateRequest,PolicyManager.validateRequest,hconfig]

/-- After the call, the CORS check passes a request to the origin from another one. -/
def WhitelistEffective (m : PolicyManager) (o url method : Str) (headers : Headers) (page : Origin) : Prop :=
  ∀ m' target, m.addWhitelistOrigin o = .ok m' → m.config.enableSop = false → Origin.parse o = .ok target →
    Origin.parse url = .ok target → page ≠ target →
      ∃ passed, corsCheck m'.config page url method headers = .ok (.passed passed)

/-- The policies of the manager forbid that the page fetches from the URL. -/
def Forbidden (m : PolicyManager) (pageUrl url : Str) : Prop :=
  ∃ result, m.cspValidator.validateResource
      { resourceUrl := url, resourceType := text "fetch", documentUrl := pageUrl } = .ok result ∧
    result.allowed = false

/-- After the call, what the policy forbids is refused. -/
def PolicyEffective (freed : FreedMemory CSPToken) (m : PolicyManager) (pageUrl policyHeader url method : Str)
    (headers : Headers) : Prop :=
  ∀ m' page, m.addCSPPolicy freed pageUrl policyHeader = .ok m' → Origin.parse pageUrl = .ok page →
    Forbidden m' pageUrl url → decision (m'.validateRequest url method headers page) = .ok false

/-- If the SOP check does not come first, CORS is not enabled either, or the request is not
one to the origin from another one. -/
def WhitelistUnneeded (m : PolicyManager) (o url : Str) (page : Origin) : Prop :=
  ∀ target, Origin.parse o = .ok target → Origin.parse url = .ok target → page ≠ target →
    m.config.enableSop = false → m.config.enableCors = false

/-- What the policy forbids is of another origin while SOP or CORS is enabled, or is mixed
content. -/
def PolicyUnneeded (freed : FreedMemory CSPToken) (m : PolicyManager) (pageUrl policyHeader url : Str) : Prop :=
  ∀ m' page origin, m.addCSPPolicy freed pageUrl policyHeader = .ok m' → Origin.parse pageUrl = .ok page →
    Forbidden m' pageUrl url → Origin.parse url = .ok origin →
      OwnOnly m.config ∧ page ≠ origin ∨ Mixed m.config page origin

theorem whitelist_iff : WhitelistEffective m o url method headers page ↔ WhitelistUnneeded m o url page := by
  constructor
  · intro h target ho hurl hne hsop
    have hadd : m.addWhitelistOrigin o =
        .ok { m with policyEngine := m.policyEngine.addToWhitelist target } := by
      rw [PolicyManager.addWhitelistOrigin,ho]
      rfl
    obtain ⟨passed,hpassed⟩ := h _ target hadd hsop ho hurl hne
    rw [corsCheck_eq hurl] at hpassed
    by_contra hcors
    rw [if_pos ⟨Bool.of_not_eq_false hcors,hne⟩] at hpassed
    cases hpassed
  · intro h m' target hadd hsop ho hurl hne
    obtain ⟨-,-,rfl⟩ := addWhitelistOrigin_ok hadd
    refine ⟨∅,?_⟩
    rw [corsCheck_eq hurl,if_neg]
    rintro ⟨hcors,-⟩
    cases (h target ho hurl hne hsop).symm.trans hcors

theorem policy_iff : PolicyEffective freed m pageUrl policyHeader url method headers ↔
    PolicyUnneeded freed m pageUrl policyHeader url := by
  constructor
  · intro h m' page origin hadd hpage hforbidden hurl
    have hrefused := h m' page hadd hpage hforbidden
    rw [PolicyManager.validateRequest,addCSPPolicy_config hadd,decision_eq hurl] at hrefused
    by_contra hpass
    rw [if_neg hpass] at hrefused
    cases ownDecision_ok hrefused
  · intro h m' page hadd hpage hforbidden
    obtain ⟨origin,hurl⟩ : ∃ origin, Origin.parse url = .ok origin := by
      obtain ⟨result,hresult,hrefused⟩ := hforbidden
      exact parse_of_refused hresult hrefused
    rw [PolicyManager.validateRequest,addCSPPolicy_config hadd,decision_eq hurl,
      if_pos (h m' page origin hadd hpage hforbidden hurl)]

variable (freed m o pageUrl policyHeader url method headers page)

/-- The configuration calls have an effect exactly where it is not needed. -/
theorem configured_iff :
    (WhitelistEffective m o url method headers page ∧ PolicyEffective freed m pageUrl policyHeader url method headers) ↔
      WhitelistUnneeded m o url page ∧ PolicyUnneeded freed m pageUrl policyHeader url :=
  and_congr whitelist_iff policy_iff

end Effect

/-- CORS is the only check that is enabled. -/
def corsOnly : PolicyEngineConfig where
  enableSop := false
  enableCsp := false
  enableMixedContentBlocking := false

/-- A page of `https://a` is refused what it asks of the whitelisted `https://b`. -/
theorem configured_ineffective : ¬∀ (freed : FreedMemory CSPToken) (m : PolicyManager)
    (o pageUrl policyHeader url method : Str) (headers : Headers) (page : Origin),
    WhitelistEffective m o url method headers page ∧ PolicyEffective freed m pageUrl policyHeader url method headers := by
  intro h
  have hparse : Origin.parse (text "https://b") = .ok ⟨text "https",text "b",443⟩ := by decide
  have heffective := (h .kept (.init corsOnly) (text "https://b") (text "https://a") [] (text "https://b") (text "GET") ∅
    ⟨text "https",text "a",443⟩).1
  cases whitelist_iff.mp heffective _ hparse hparse (by decide) rfl

end ZNet.Policy
