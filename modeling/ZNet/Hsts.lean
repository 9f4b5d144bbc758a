import ZNet.PolicyEngine
import ZNet.Runs
import Mathlib.Algebra.Ring.Int.Defs

/-!
# Strict transport security

Policies are learnt from response headers and kept under the host until they expire. A host
without a policy is looked up in the preload lists.
-/

namespace ZNet.Hsts
open TextScan Tables Runs Policy

inductive HstsError
  | invalidHstsHeader | invalidMaxAge | panic
deriving DecidableEq

structure HstsPolicy where
  domain : Str
  maxAge : ℕ := 0
  includeSubDomains : Bool := false
  preload : Bool := false
  includeSubDomainsFor5Years : Bool := false
  expiresAt : ℤ := 0
deriving DecidableEq

def HstsPolicy.init (domain : Str) : HstsPolicy := { domain := domain }

def HstsPolicy.isExpired (self : HstsPolicy) (now : ℤ) : Bool := decide (self.expiresAt < now)

def HstsPolicy.isHttpsEnforced (self : HstsPolicy) (now : ℤ) : Bool := decide (0 < self.maxAge) && !self.isExpired now

structure HstsPreloadEntry where
  domain : Str
  includeSubDomains : Bool
  preload : Bool
deriving DecidableEq

def knownHstsPreloads : List HstsPreloadEntry :=
  [⟨text "stripe.com",true,true⟩,⟨text "www.paypal.com",true,true⟩,⟨text "twitter.com",false,true⟩,
   ⟨text "github.com",true,true⟩,⟨text "google.com",true,true⟩,⟨text "accounts.google.com",true,true⟩,
   ⟨text "login.yahoo.com",true,true⟩,⟨text "www.dropbox.com",true,true⟩,⟨text "www.ebay.com",true,true⟩,
   ⟨text "bankofamerica.com",true,true⟩]

/-- The cast of the age to a signed number and the sum trap when they overflow. -/
def expiry (now : ℤ) (maxAge : ℕ) : Except HstsError ℤ :=
  if maxAge < 2^63 ∧ now+maxAge < 2^63 then .ok (now+maxAge) else .error .panic

/-- One directive changes the policy; unknown ones do not. -/
def applyDirective (now : ℤ) (policy : HstsPolicy) (directive : Str) : Except HstsError HstsPolicy :=
  if directive = text "preload" then .ok { policy with preload := true }
  else if directive = text "includeSubDomains" then .ok { policy with includeSubDomains := true }
  else if directive = text "includeSubDomainsFor5Years" then
    .ok { policy with includeSubDomainsFor5Years := true, includeSubDomains := true }
  else if (text "max-age=").isPrefixOf directive then
    match parseUnsigned (2^64) (directive.drop 8) with
    | none => .error .invalidMaxAge
    | some maxAge => do
      let expiresAt ← expiry now maxAge
      return { policy with maxAge := maxAge, expiresAt := expiresAt }
  else .ok policy

def hstsDirectives (value : Str) : List Str := (value.splitOnP (· == 0x3b)).map (trim (ascii [' ','\t']))

def parseHstsHeader (value : Str) (now : ℤ) : Except HstsError HstsPolicy :=
  if value = [] then .error .invalidHstsHeader
  else do
    let policy ← (hstsDirectives value).foldlM (applyDirective now) (.init value)
    if policy.maxAge = 0 then .error .invalidMaxAge else return policy

structure HstsPreloadManager where
  preloadCache : Table Str HstsPreloadEntry
  dynamicPreloads : Table Str HstsPreloadEntry

def putEntries (entries : List HstsPreloadEntry) (m : Table Str HstsPreloadEntry) : Table Str HstsPreloadEntry :=
  entries.foldl (fun m entry => m.insert entry.domain entry) m

namespace HstsPreloadManager

def init : HstsPreloadManager := ⟨putEntries knownHstsPreloads ∅,∅⟩

def isPreloaded (self : HstsPreloadManager) (domain : Str) : Bool :=
  (self.preloadCache.lookup domain).isSome || (self.dynamicPreloads.lookup domain).isSome

def getPreloadEntry (self : HstsPreloadManager) (domain : Str) : Option HstsPreloadEntry :=
  (self.preloadCache.lookup domain).or (self.dynamicPreloads.lookup domain)

def addPreload (self : HstsPreloadManager) (entry : HstsPreloadEntry) : HstsPreloadManager :=
  { self with dynamicPreloads := self.dynamicPreloads.insert entry.domain entry }

def removePreload (self : HstsPreloadManager) (domain : Str) : HstsPreloadManager :=
  { self with dynamicPreloads := self.dynamicPreloads.erase domain }

def updatePreloadList (self : HstsPreloadManager) (newEntries : List HstsPreloadEntry) : HstsPreloadManager :=
  { self with dynamicPreloads := putEntries newEntries ∅ }

end HstsPreloadManager

structure HttpHeader where
  name : Str
  value : Str

structure HstsPolicyEnforcer where
  preloadManager : HstsPreloadManager
  policyCache : Table Str HstsPolicy

def hstsName : Str := text "strict-transport-security"

namespace HstsPolicyEnforcer

def init : HstsPolicyEnforcer := ⟨.init,∅⟩

/-- The policy in the cache unless it has expired; without one, an empty policy. -/
def getCachedPolicy (self : HstsPolicyEnforcer) (host : Str) (now : ℤ) : HstsPolicy :=
  match self.policyCache.lookup host with
  | some policy => if policy.isExpired now then .init host else policy
  | none => .init host

/-- A preloaded host without a policy gets one for two years. -/
def applyPreload (self : HstsPolicyEnforcer) (host : Str) (policy : HstsPolicy) (now : ℤ) :
    Except HstsError HstsPolicy :=
  if policy.maxAge = 0 then
    match self.preloadManager.getPreloadEntry host with
    | none => .ok policy
    | some entry => do
      let expiresAt ← expiry now 63072000
      return { domain := host, maxAge := 63072000, includeSubDomains := entry.includeSubDomains,
               preload := entry.preload, expiresAt := expiresAt }
  else .ok policy

/-- The first header with the name is parsed and its policy kept; the others are not read. -/
def processResponseHeaders (self : HstsPolicyEnforcer) (host : Str) (headers : List HttpHeader) (now : ℤ) :
    Except HstsError HstsPolicy×HstsPolicyEnforcer :=
  match headers.find? fun header => header.name == hstsName with
  | none => (self.applyPreload host (self.getCachedPolicy host now) now,self)
  | some header =>
    match parseHstsHeader header.value now with
    | .error e => (.error e,self)
    | .ok policy =>
      let policy := { policy with domain := host }
      (self.applyPreload host policy now,{ self with policyCache := self.policyCache.insert host policy })

def shouldForceHttps (self : HstsPolicyEnforcer) (host : Str) (now : ℤ) : Bool :=
  let policy := self.getCachedPolicy host now
  if policy.maxAge = 0 then self.preloadManager.isPreloaded host else policy.isHttpsEnforced now

def clearPolicyCache (self : HstsPolicyEnforcer) : HstsPolicyEnforcer := { self with policyCache := ∅ }

end HstsPolicyEnforcer

section Parsing

variable {value directive : Str} {now : ℤ} {policy policy' : HstsPolicy}

/-- What a policy that was read says about its expiry. -/
def HstsPolicy.Dated (policy : HstsPolicy) (now : ℤ) : Prop := policy.maxAge ≠ 0 → policy.expiresAt = now+policy.maxAge

theorem applyDirective_dated (hdated : policy.Dated now) (h : applyDirective now policy directive = .ok policy') :
    policy'.Dated now := by
  rw [applyDirective] at h
  split_ifs at h
  · cases h
    exact hdated
  · cases h
    exact hdated
  · cases h
    exact hdated
  · split at h
    · cases h
    · rw [expiry] at h
      split_ifs at h
      · cases h
        exact fun _ => rfl
      · cases h
  · cases h
    exact hdated

theorem foldlM_dated {directives : List Str} (hdated : policy.Dated now)
    (h : directives.foldlM (applyDirective now) policy = .ok policy') : policy'.Dated now := by
  induction directives generalizing policy with
  | nil =>
    cases h
    exact hdated
  | cons directive directives ih =>
    rw [List.foldlM_cons] at h
    cases hfirst : applyDirective now policy directive with
    | error e =>
      rw [hfirst] at h
      cases h
    | ok next =>
      rw [hfirst] at h
      exact ih (applyDirective_dated hdated hfirst) h

/-- A header that is accepted gives a policy with a positive age, which counts from now. -/
theorem parseHstsHeader_ok (h : parseHstsHeader value now = .ok policy) :
    0 < policy.maxAge ∧ policy.expiresAt = now+policy.maxAge := by
  rw [parseHstsHeader] at h
  split_ifs at h
  cases hfold : (hstsDirectives value).foldlM (applyDirective now) (.init value) with
  | error e =>
    rw [hfold] at h
    cases h
  | ok found =>
    rw [hfold] at h
    change (if found.maxAge = 0 then Except.error HstsError.invalidMaxAge else .ok found) = .ok policy at h
    split_ifs at h with hzero
    cases h
    exact ⟨Nat.pos_of_ne_zero hzero,foldlM_dated (fun hne => absurd rfl hne) hfold hzero⟩

end Parsing

structure HeaderCall where
  host : Str
  headers : List HttpHeader
  now : ℤ

def headerStep (s : HstsPolicyEnforcer) (call : HeaderCall) : HstsPolicyEnforcer :=
  (s.processResponseHeaders call.host call.headers call.now).2

/-- The first header with the name. -/
def HeaderCall.header (call : HeaderCall) : Option HttpHeader := call.headers.find? fun header => header.name == hstsName

/-- The policy in the first header with the name, if it is parsed. -/
def HeaderCall.learnt (call : HeaderCall) : Option HstsPolicy :=
  call.header.bind fun header => (parseHstsHeader header.value call.now).toOption

/-- The time and the age of the policy that was learnt last for the host. -/
def latest (host : Str) (calls : List HeaderCall) : Option (ℤ×ℕ) :=
  calls.reverse.findSome? fun call => if call.host = host then call.learnt.map fun policy => (call.now,policy.maxAge) else none

theorem headerStep_eq (s : HstsPolicyEnforcer) (call : HeaderCall) :
    headerStep s call = match call.learnt with
      | some policy => { s with policyCache := s.policyCache.insert call.host { policy with domain := call.host } }
      | none => s := by
  rw [headerStep,HstsPolicyEnforcer.processResponseHeaders,HeaderCall.learnt,HeaderCall.header]
  cases call.headers.find? fun header => header.name == hstsName with
  | none => rfl
  | some header =>
    simp only [Option.bind_some]
    cases parseHstsHeader header.value call.now with
    | error e => rfl
    | ok policy => rfl

/-- A header that is not parsed changes no policy. -/
theorem headerStep_failed {call : HeaderCall} {header : HttpHeader} (hheader : call.header = some header)
    (hfailed : ∀ policy, parseHstsHeader header.value call.now ≠ .ok policy) (s : HstsPolicyEnforcer) :
    headerStep s call = s := by
  have hlearnt : call.learnt = none := by
    rw [HeaderCall.learnt,hheader,Option.bind_some]
    cases hparse : parseHstsHeader header.value call.now with
    | error e => rfl
    | ok policy => exact (hfailed policy hparse).elim
  rw [headerStep_eq,hlearnt]

theorem headerStep_preloads (s : HstsPolicyEnforcer) (call : HeaderCall) :
    (headerStep s call).preloadManager = s.preloadManager := by
  rw [headerStep_eq]
  cases call.learnt with
  | none => rfl
  | some policy => rfl

theorem learnt_dated {call : HeaderCall} {policy : HstsPolicy} (h : call.learnt = some policy) :
    0 < policy.maxAge ∧ policy.expiresAt = call.now+policy.maxAge := by
  rw [HeaderCall.learnt,Option.bind_eq_some_iff] at h
  obtain ⟨header,-,hparse⟩ := h
  cases hok : parseHstsHeader header.value call.now with
  | error e =>
    rw [hok] at hparse
    cases hparse
  | ok found =>
    rw [hok] at hparse
    cases hparse
    exact parseHstsHeader_ok hok

/-- The stored policy has a positive age and expires that long after it was learnt. -/
structure Remembers (policy : HstsPolicy) (learnt : ℤ×ℕ) : Prop where
  maxAge : policy.maxAge = learnt.2
  positive : 0 < learnt.2
  expiresAt : policy.expiresAt = learnt.1+learnt.2

theorem latest_concat (host : Str) (calls : List HeaderCall) (call : HeaderCall) :
    latest host (calls++[call]) = (if call.host = host then call.learnt.map fun policy => (call.now,policy.maxAge)
      else none).or (latest host calls) := by
  rw [latest,List.reverse_append,List.reverse_singleton,List.singleton_append,List.findSome?_cons]
  split
  · rename_i found hfound
    rw [hfound]
    rfl
  · rename_i hnone
    rw [hnone]
    rfl

/-- The cache holds what was learnt last for each host. -/
theorem lookup_run (preloads : HstsPreloadManager) (calls : List HeaderCall) (host : Str) :
    Option.Rel Remembers ((run headerStep ⟨preloads,∅⟩ calls).policyCache.lookup host) (latest host calls) := by
  induction calls using List.reverseRecOn with
  | nil => exact .none
  | append_singleton calls call ih =>
    rw [run_concat,headerStep_eq,latest_concat]
    cases hlearnt : call.learnt with
    | none =>
      rw [Option.map_none,ite_self,Option.none_or]
      exact ih
    | some policy =>
      obtain ⟨hpos,hexpires⟩ := learnt_dated hlearnt
      by_cases hhost : call.host = host
      · rw [if_pos hhost,hhost,lookup_insert_eq,if_pos rfl]
        exact .some ⟨rfl,hpos,hexpires⟩
      · rw [if_neg hhost,Option.none_or,lookup_insert_eq,if_neg (Ne.symm hhost)]
        exact ih

/-- The host has a policy that has not expired. -/
def Unexpired (s : HstsPolicyEnforcer) (host : Str) (now : ℤ) : Prop :=
  ∃ policy, s.policyCache.lookup host = some policy ∧ now ≤ policy.expiresAt

/-- No stored policy has the age zero, which would mean that there is none. -/
def Positive (s : HstsPolicyEnforcer) : Prop := ∀ host policy, s.policyCache.lookup host = some policy → 0 < policy.maxAge

theorem getCachedPolicy_eq {s : HstsPolicyEnforcer} {host : Str} {now : ℤ} {policy : HstsPolicy}
    (hlookup : s.policyCache.lookup host = some policy) (hnow : now ≤ policy.expiresAt) :
    s.getCachedPolicy host now = policy := by
  have hexpired : policy.isExpired now = false := decide_eq_false (by omega)
  rw [HstsPolicyEnforcer.getCachedPolicy,hlookup]
  simp only [hexpired,Bool.false_eq_true,if_false]

theorem getCachedPolicy_empty {s : HstsPolicyEnforcer} {host : Str} {now : ℤ} (h : ¬Unexpired s host now) :
    s.getCachedPolicy host now = .init host := by
  rw [HstsPolicyEnforcer.getCachedPolicy]
  cases hlookup : s.policyCache.lookup host with
  | none => rfl
  | some policy =>
    have hexpired : policy.isExpired now = true := by
      rw [HstsPolicy.isExpired,decide_eq_true_iff]
      by_contra hle
      exact h ⟨policy,hlookup,by omega⟩
    simp only [hexpired,if_true]

/-- HTTPS is forced by an unexpired policy or, without one, by the preload lists. -/
theorem shouldForceHttps_iff {s : HstsPolicyEnforcer} (hpos : Positive s) (host : Str) (now : ℤ) :
    s.shouldForceHttps host now = true ↔
      Unexpired s host now ∨ ¬Unexpired s host now ∧ s.preloadManager.isPreloaded host = true := by
  by_cases h : Unexpired s host now
  · obtain ⟨policy,hlookup,hnow⟩ := h
    have hage := hpos host policy hlookup
    have hforced : s.shouldForceHttps host now = true := by
      rw [HstsPolicyEnforcer.shouldForceHttps,getCachedPolicy_eq hlookup hnow,if_neg (Nat.ne_of_gt hage),
        HstsPolicy.isHttpsEnforced,HstsPolicy.isExpired]
      simp only [hage,decide_true,Bool.true_and,Bool.not_eq_true',decide_eq_false_iff_not]
      omega
    exact iff_of_true hforced (Or.inl ⟨policy,hlookup,hnow⟩)
  · have hzero : (HstsPolicy.init host).maxAge = 0 := rfl
    rw [HstsPolicyEnforcer.shouldForceHttps,getCachedPolicy_empty h,if_pos hzero]
    simp [h]

theorem positive_run (preloads : HstsPreloadManager) (calls : List HeaderCall) :
    Positive (run headerStep ⟨preloads,∅⟩ calls) := by
  intro host policy hlookup
  have hrel := lookup_run preloads calls host
  rw [hlookup] at hrel
  obtain ⟨learnt,-,hremembers⟩ := exists_of_rel_left hrel
  rw [hremembers.maxAge]
  exact hremembers.positive

/-- The policy that was learnt last for the host has not expired. -/
def LearntUnexpired (host : Str) (calls : List HeaderCall) (t : ℤ) : Prop :=
  ∃ s m, latest host calls = some (s,m) ∧ 0 < m ∧ t ≤ s+(m : ℕ)

theorem unexpired_run (preloads : HstsPreloadManager) (calls : List HeaderCall) (host : Str) (t : ℤ) :
    Unexpired (run headerStep ⟨preloads,∅⟩ calls) host t ↔ LearntUnexpired host calls t := by
  have hrel := lookup_run preloads calls host
  constructor
  · rintro ⟨policy,hlookup,hle⟩
    rw [hlookup] at hrel
    obtain ⟨learnt,hlatest,hremembers⟩ := exists_of_rel_left hrel
    rw [hremembers.expiresAt] at hle
    exact ⟨learnt.1,learnt.2,hlatest,hremembers.positive,hle⟩
  · rintro ⟨time,age,hlatest,-,hle⟩
    rw [hlatest] at hrel
    obtain ⟨policy,hlookup,hremembers⟩ := exists_of_rel_right hrel
    exact ⟨policy,hlookup,hremembers.expiresAt ▸ hle⟩

/-- After any calls, HTTPS is forced for a host by the policy that was learnt last, up to its
end, and otherwise by the preload lists. A header that is not parsed changes no policy. -/
theorem hsts_over_time (preloads : HstsPreloadManager) (calls : List HeaderCall) :
    (∀ host t, (run headerStep ⟨preloads,∅⟩ calls).shouldForceHttps host t = true ↔
      LearntUnexpired host calls t ∨ ¬LearntUnexpired host calls t ∧ preloads.isPreloaded host = true) ∧
    ∀ (call : HeaderCall) (header : HttpHeader), call.header = some header →
      (∀ policy, parseHstsHeader header.value call.now ≠ .ok policy) →
        ∀ host, (run headerStep ⟨preloads,∅⟩ (calls++[call])).policyCache.lookup host =
          (run headerStep ⟨preloads,∅⟩ calls).policyCache.lookup host := by
  constructor
  · intro host t
    have hpreloads : (run headerStep ⟨preloads,∅⟩ calls).preloadManager = preloads :=
      run_inv (I:=fun s => s.preloadManager = preloads) (fun s call h => (headerStep_preloads s call).trans h) rfl calls
    rw [shouldForceHttps_iff (positive_run preloads calls),unexpired_run,hpreloads]
  · intro call header hheader hfailed host
    rw [run_concat,headerStep_failed hheader hfailed]

end ZNet.Hsts
