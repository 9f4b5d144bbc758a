import ZNet.Hsts

/-!
# Enforcement of strict transport security

The client takes the host from the URL, changes `http://` to `https://` where the enforcer
says so, and hands the headers of the answer to the enforcer.
-/

namespace ZNet.Hsts
open TextScan Tables Runs Policy Origins

/-- The host up to the first slash or colon. -/
def hostText (afterProtocol : Str) : Str :=
  let slashIndex := (afterProtocol.idxOf? slash).getD afterProtocol.length
  let colonIndex := (afterProtocol.idxOf? colon).getD slashIndex
  afterProtocol.take (min colonIndex slashIndex)

def httpPrefix : Str := text "http://"

def httpsPrefix : Str := text "https://"

def extractHostFromUrl (url : Str) : Str :=
  if httpsPrefix.isPrefixOf url then hostText (url.drop 8)
  else if httpPrefix.isPrefixOf url then hostText (url.drop 7)
  else url

def getHttpsUpgradeUrl (url : Str) : Str := if httpPrefix.isPrefixOf url then httpsPrefix++url.drop 7 else url

/-- What the base client answers to a URL, if it does not fail. -/
abbrev BaseClient := Str → Option (List HttpHeader)

namespace HstsPolicyEnforcer

/-- The URL that is passed to the base client. -/
def sentUrl (self : HstsPolicyEnforcer) (path : Str) (now : ℤ) : Str :=
  if self.shouldForceHttps (extractHostFromUrl path) now && httpPrefix.isPrefixOf path then getHttpsUpgradeUrl path
  else path

/-- The second time is that at which the answer is there. -/
def sendRequest (self : HstsPolicyEnforcer) (baseClient : BaseClient) (path : Str) (now received : ℤ) :
    Option (List HttpHeader)×HstsPolicyEnforcer :=
  match baseClient (self.sentUrl path now) with
  | none => (none,self)
  | some headers => (some headers,(self.processResponseHeaders (extractHostFromUrl path) headers received).2)

end HstsPolicyEnforcer

structure Sending where
  baseClient : BaseClient
  path : Str
  now : ℤ
  received : ℤ

inductive ClientCall
  | sendRequest (a : Sending)
  | addPreload (entry : HstsPreloadEntry)
  | removePreload (domain : Str)
  | updatePreloadList (newEntries : List HstsPreloadEntry)
  | clearPolicyCache

def clientStep (s : HstsPolicyEnforcer) : ClientCall → HstsPolicyEnforcer
  | .sendRequest a => (s.sendRequest a.baseClient a.path a.now a.received).2
  | .addPreload entry => { s with preloadManager := s.preloadManager.addPreload entry }
  | .removePreload domain => { s with preloadManager := s.preloadManager.removePreload domain }
  | .updatePreloadList newEntries => { s with preloadManager := s.preloadManager.updatePreloadList newEntries }
  | .clearPolicyCache => s.clearPolicyCache

/-- The bytes that end a host. -/
def hostEnds : Str := ascii ['/',':','?','#']

/-- The URL is made of the prefix, a host and the rest. -/
structure UrlOf (protocol host rest url : Str) : Prop where
  url : url = protocol++(host++rest)
  host : ∀ b ∈ host, b ∉ hostEnds
  rest : ∀ b ∈ rest.head?, b ∈ hostEnds

def ParentDomain (parent host : Str) : Prop := parent ≠ [] ∧ ∃ label, label ≠ [] ∧ host = label++0x2e::parent

/-- The name itself has an unexpired policy or a preload entry. -/
def Enforced (s : HstsPolicyEnforcer) (name : Str) (now : ℤ) : Prop :=
  Unexpired s name now ∨ s.preloadManager.isPreloaded name = true

/-- The name has an unexpired policy or a preload entry that includes its subdomains. -/
def EnforcedBelow (s : HstsPolicyEnforcer) (name : Str) (now : ℤ) : Prop :=
  (∃ policy, s.policyCache.lookup name = some policy ∧ now ≤ policy.expiresAt ∧ policy.includeSubDomains = true) ∨
  ∃ entry, s.preloadManager.getPreloadEntry name = some entry ∧ entry.includeSubDomains = true

def Covered (s : HstsPolicyEnforcer) (host : Str) (now : ℤ) : Prop :=
  Enforced s host now ∨ ∃ parent, ParentDomain parent host ∧ EnforcedBelow s parent now

/-- The header is read up to its end and leaves the age zero, which it has named. -/
def Removes (header : HttpHeader) (now : ℤ) : Prop :=
  (∃ policy, (hstsDirectives header.value).foldlM (applyDirective now) (.init header.value) = .ok policy ∧
    policy.maxAge = 0) ∧
  ∃ directive ∈ hstsDirectives header.value, (text "max-age=").isPrefixOf directive = true

/-- The answer to the request as it is processed. -/
def answered (s : HstsPolicyEnforcer) (a : Sending) : Option HeaderCall :=
  (a.baseClient (s.sentUrl a.path a.now)).map fun headers => ⟨extractHostFromUrl a.path,headers,a.received⟩

/-- A covered host is not asked over http, the policies change by answers to https requests
only, and the age zero ends the policy of the host. -/
structure SecureSending (s : HstsPolicyEnforcer) (a : Sending) : Prop where
  enforced : ∀ host rest, UrlOf httpPrefix host rest a.path → Covered s host a.now →
    httpPrefix.isPrefixOf (s.sentUrl a.path a.now) = false
  learnt : ∀ host, (clientStep s (.sendRequest a)).policyCache.lookup host ≠ s.policyCache.lookup host →
    httpsPrefix.isPrefixOf (s.sentUrl a.path a.now) = true
  removed : ∀ host rest call header, UrlOf httpsPrefix host rest (s.sentUrl a.path a.now) →
    answered s a = some call → call.header = some header → Removes header a.received →
      ¬Unexpired (clientStep s (.sendRequest a)) host a.received

/-- The text up to the first slash or colon is itself enforced if the host is covered. No
answer to a request that was not sent over https has a policy that is not stored already.
The age zero comes from hosts without an unexpired policy only. -/
structure GuardedSending (s : HstsPolicyEnforcer) (a : Sending) : Prop where
  enforced : ∀ host rest, UrlOf httpPrefix host rest a.path → Covered s host a.now →
    Enforced s (host++rest.takeWhile fun b => b ≠ slash ∧ b ≠ colon) a.now
  learnt : httpsPrefix.isPrefixOf (s.sentUrl a.path a.now) = false → ∀ call policy, answered s a = some call →
    call.learnt = some policy → s.policyCache.lookup call.host = some { policy with domain := call.host }
  removed : ∀ host rest call header, UrlOf httpsPrefix host rest (s.sentUrl a.path a.now) →
    answered s a = some call → call.header = some header → Removes header a.received →
      ¬Unexpired s host a.received

def SecureCall (s : HstsPolicyEnforcer) : ClientCall → Prop
  | .sendRequest a => SecureSending s a
  | _ => True

def GuardedCall (s : HstsPolicyEnforcer) : ClientCall → Prop
  | .sendRequest a => GuardedSending s a
  | _ => True

section Urls

variable {url host rest : Str}

theorem hostText_eq (s : Str) : hostText s = s.takeWhile fun b => b ≠ slash ∧ b ≠ colon := by
  induction s with
  | nil => rfl
  | cons b s ih =>
    simp only [hostText] at ih
    rw [hostText,List.idxOf?_cons,List.idxOf?_cons,List.takeWhile_cons]
    by_cases hslash : b = slash
    · simp [hslash]
    · by_cases hcolon : b = colon
      · simp [hcolon]
      · simp only [beq_iff_eq,hslash,hcolon,if_false,ne_eq,not_false_eq_true,and_self,decide_true,if_true]
        rw [← ih]
        cases s.idxOf? slash with
        | none =>
          cases s.idxOf? colon with
          | none => simp
          | some j => simp [Nat.succ_min_succ]
        | some i =>
          cases s.idxOf? colon with
          | none => simp
          | some j => simp [Nat.succ_min_succ]

theorem not_https_of_http (tail : Str) : httpsPrefix.isPrefixOf (httpPrefix++tail) = false := rfl

theorem not_http_of_https (tail : Str) : httpPrefix.isPrefixOf (httpsPrefix++tail) = false := rfl

theorem isPrefixOf_http (tail : Str) : httpPrefix.isPrefixOf (httpPrefix++tail) = true :=
  List.isPrefixOf_iff_prefix.mpr (List.prefix_append ..)

/-- The query and the fragment are taken into the host where nothing else ends it. -/
theorem extract_http (h : UrlOf httpPrefix host rest url) :
    extractHostFromUrl url = host++rest.takeWhile fun b => b ≠ slash ∧ b ≠ colon := by
  have hdrop : (httpPrefix++(host++rest)).drop 7 = host++rest := List.drop_left' rfl
  rw [extractHostFromUrl,h.url,not_https_of_http,isPrefixOf_http,hdrop,if_neg (by decide),if_pos rfl,hostText_eq]
  apply List.takeWhile_append_of_pos
  intro b hb
  have hend := h.host b hb
  rw [decide_eq_true_iff]
  constructor
  · rintro rfl
    exact hend (by decide)
  · rintro rfl
    exact hend (by decide)

end Urls

section Sending

variable {s : HstsPolicyEnforcer} {a : Sending}

theorem clientStep_send (s : HstsPolicyEnforcer) (a : Sending) :
    clientStep s (.sendRequest a) = match answered s a with
      | some call => headerStep s call
      | none => s := by
  rw [clientStep,HstsPolicyEnforcer.sendRequest,answered]
  cases a.baseClient (s.sentUrl a.path a.now) with
  | none => rfl
  | some headers => rfl

theorem Positive.headerStep (h : Positive s) (call : HeaderCall) : Positive (headerStep s call) := by
  rw [headerStep_eq]
  cases hlearnt : call.learnt with
  | none => exact h
  | some policy =>
    intro host policy' hlookup
    rw [lookup_insert_eq] at hlookup
    split at hlookup
    · cases hlookup
      exact (learnt_dated hlearnt).1
    · exact h host policy' hlookup

theorem Positive.clientStep (h : Positive s) (call : ClientCall) : Positive (clientStep s call) := by
  cases call with
  | sendRequest a =>
    rw [clientStep_send]
    cases answered s a with
    | none => exact h
    | some call => exact h.headerStep call
  | addPreload entry => exact h
  | removePreload domain => exact h
  | updatePreloadList newEntries => exact h
  | clearPolicyCache =>
    intro host policy hlookup
    cases hlookup

theorem shouldForceHttps_enforced (hpos : Positive s) (name : Str) (now : ℤ) :
    s.shouldForceHttps name now = true ↔ Enforced s name now := by
  rw [shouldForceHttps_iff hpos,Enforced]
  tauto

/-- A request over http is sent so exactly if the extracted text is not enforced. -/
theorem sentUrl_http (hpos : Positive s) {host rest : Str} (h : UrlOf httpPrefix host rest a.path) :
    httpPrefix.isPrefixOf (s.sentUrl a.path a.now) = false ↔
      Enforced s (host++rest.takeWhile fun b => b ≠ slash ∧ b ≠ colon) a.now := by
  have hstart : httpPrefix.isPrefixOf a.path = true := h.url ▸ isPrefixOf_http _
  rw [← shouldForceHttps_enforced hpos,← extract_http h,HstsPolicyEnforcer.sentUrl,hstart,Bool.and_true]
  cases hforce : s.shouldForceHttps (extractHostFromUrl a.path) a.now with
  | true =>
    rw [if_pos rfl,getHttpsUpgradeUrl,if_pos hstart]
    exact iff_of_true (not_http_of_https _) rfl
  | false =>
    rw [if_neg (by decide),hstart]
    exact iff_of_false (by decide) (by decide)

/-- The policies stay the same exactly if nothing new is learnt. -/
theorem learnt_iff :
    (∀ host, (clientStep s (.sendRequest a)).policyCache.lookup host = s.policyCache.lookup host) ↔
      ∀ call policy, answered s a = some call → call.learnt = some policy →
        s.policyCache.lookup call.host = some { policy with domain := call.host } := by
  rw [clientStep_send]
  cases hanswer : answered s a with
  | none => simp
  | some call =>
    simp only [headerStep_eq]
    cases hlearnt : call.learnt with
    | none =>
      refine ⟨fun _ _ _ hcall hpolicy => ?_,fun _ _ => rfl⟩
      cases hcall
      cases hlearnt.symm.trans hpolicy
    | some policy =>
      constructor
      · rintro h _ _ hcall hpolicy
        cases hcall
        cases hlearnt.symm.trans hpolicy
        have hsame := h call.host
        rwa [lookup_insert_eq,if_pos rfl,eq_comm] at hsame
      · intro h host
        rw [lookup_insert_eq]
        split
        · rename_i hhost
          rw [hhost,h call policy rfl hlearnt]
        · rfl

theorem parse_removes {header : HttpHeader} {now : ℤ} (h : Removes header now) (policy : HstsPolicy) :
    parseHstsHeader header.value now ≠ .ok policy := by
  obtain ⟨⟨found,hfold,hzero⟩,-⟩ := h
  intro hparse
  rw [parseHstsHeader] at hparse
  split_ifs at hparse
  rw [hfold] at hparse
  change (if found.maxAge = 0 then Except.error HstsError.invalidMaxAge else .ok found) = .ok policy at hparse
  rw [if_pos hzero] at hparse
  cases hparse

/-- The age zero leaves everything as it is. -/
theorem clientStep_removes {call : HeaderCall} {header : HttpHeader} (hanswer : answered s a = some call)
    (hheader : call.header = some header) (hremoves : Removes header a.received) :
    clientStep s (.sendRequest a) = s := by
  have hnow : call.now = a.received := by
    obtain ⟨headers,-,rfl⟩ := Option.map_eq_some_iff.mp hanswer
    rfl
  rw [clientStep_send,hanswer]
  exact headerStep_failed hheader (hnow ▸ parse_removes hremoves) s

theorem secure_iff (hpos : Positive s) (call : ClientCall) : SecureCall s call ↔ GuardedCall s call := by
  cases call with
  | sendRequest a =>
    constructor
    · intro h
      refine ⟨fun host rest hurl hcovered => (sentUrl_http hpos hurl).mp (h.enforced host rest hurl hcovered),?_,?_⟩
      · intro hsent
        apply learnt_iff.mp
        intro host
        by_contra hchange
        cases hsent.symm.trans (h.learnt host hchange)
      · intro host rest call header hurl hanswer hheader hremoves
        have hafter := h.removed host rest call header hurl hanswer hheader hremoves
        rwa [clientStep_removes hanswer hheader hremoves] at hafter
    · intro h
      refine ⟨fun host rest hurl hcovered => (sentUrl_http hpos hurl).mpr (h.enforced host rest hurl hcovered),?_,?_⟩
      · intro host hchange
        cases hsent : httpsPrefix.isPrefixOf (s.sentUrl a.path a.now) with
        | true => rfl
        | false => exact (hchange (learnt_iff.mpr (h.learnt hsent) host)).elim
      · intro host rest call header hurl hanswer hheader hremoves
        rw [clientStep_removes hanswer hheader hremoves]
        exact h.removed host rest call header hurl hanswer hheader hremoves
  | addPreload entry => exact Iff.rfl
  | removePreload domain => exact Iff.rfl
  | updatePreloadList newEntries => exact Iff.rfl
  | clearPolicyCache => exact Iff.rfl

end Sending

/-- A run is secure exactly if all of its requests are guarded. -/
theorem enforcement_iff (preloads : HstsPreloadManager) (calls : List ClientCall) :
    Along clientStep SecureCall ⟨preloads,∅⟩ calls ↔ Along clientStep GuardedCall ⟨preloads,∅⟩ calls :=
  along_iff (I:=Positive) (fun _ call h _ => h.clientStep call) (fun _ call h => secure_iff h call)
    fun _ _ h => nomatch h

/-- A request that is answered without headers. -/
def plainSending (path : Str) : Sending := ⟨fun _ => some [],path,0,0⟩

/-- The subdomains of `github.com` are preloaded, and one of them is asked over http. -/
theorem enforcement_broken : ¬∀ (preloads : HstsPreloadManager) (calls : List ClientCall),
    Along clientStep SecureCall ⟨preloads,∅⟩ calls := by
  intro h
  have hurl : UrlOf httpPrefix (text "a.github.com") [] (text "http://a.github.com") :=
    ⟨by decide +kernel,by decide +kernel,nofun⟩
  have hparent : ParentDomain (text "github.com") (text "a.github.com") :=
    ⟨by decide,text "a",by decide,by decide⟩
  have hbelow : EnforcedBelow .init (text "github.com") 0 :=
    Or.inr ⟨⟨text "github.com",true,true⟩,by decide,rfl⟩
  have hrun := h .init [.sendRequest (plainSending (text "http://a.github.com"))]
  have hsent := hrun.1.enforced _ _ hurl (Or.inr ⟨_,hparent,hbelow⟩)
  revert hsent
  decide

end ZNet.Hsts
