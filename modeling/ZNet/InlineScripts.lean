import ZNet.CspSources
import ZNet.Runs

/-!
# Inline scripts

An inline script is let through for a flag of the directive, for a nonce in the cache or for
its hash. The parser sets no flag and fills no cache.
-/

namespace ZNet.Policy
open TextScan Tables Origins Runs

section Validator

variable (wyhash : Str → UInt64)

def CSPValidator.isNonceValid (self : CSPValidator) (nonce : Str) : Bool := (self.nonceCache.lookup nonce).getD false

/-- The hash in hexadecimal digits. -/
def computeContentHash (content : Str) : Str := ascii (Nat.toDigits 16 (wyhash content).toNat)

/-- The text of the policy is not kept: the source hands over the policy itself. -/
def inlineViolation : CSPValidationResult :=
  { allowed := false, reason := "Inline script blocked by CSP",
    violation := some ⟨text "script-src",text "<inline>",text "script-src",[]⟩ }

/-- The checks of the directive for scripts, one after the other. -/
def checkScriptDirective (self : CSPValidator) (directive : CSPDirectiveRule) (scriptContent : Str)
    (context : CSPValidationContext) : CSPValidationResult :=
  if directive.allowUnsafeInline then { allowed := true, reason := "unsafe-inline allowed" }
  else if context.scriptNonce.any self.isNonceValid then { allowed := true, reason := "Valid nonce" }
  else if context.scriptHash = some (computeContentHash wyhash scriptContent) then
    { allowed := true, reason := "Valid hash" }
  else inlineViolation

def CSPValidator.validateInlineScript (self : CSPValidator) (scriptContent : Str) (context : CSPValidationContext) :
    Except OriginError CSPValidationResult :=
  match Origin.parse context.documentUrl with
  | .error e => .error e
  | .ok origin =>
    match self.policies.lookup origin with
    | none => .ok { allowed := true, reason := "No CSP policy defined" }
    | some policy =>
      match findDirective policy (text "script-src") with
      | some directive => .ok (checkScriptDirective wyhash self directive scriptContent context)
      | none =>
        match findDirective policy (text "default-src") with
        | some directive =>
          if directive.allowUnsafeInline then .ok { allowed := true, reason := "unsafe-inline allowed by default-src" }
          else .ok inlineViolation
        | none => .ok inlineViolation

end Validator

/-- A call that changes the validator. -/
inductive ValidatorCall
  | parse (freed : FreedMemory CSPToken) (header : Str) (origin : Origin)
  | add (origin : Origin) (policy : ContentSecurityPolicy)
  | remove (origin : Origin)
  | clearNonces

/-- A header that is not parsed changes nothing. -/
def validatorStep (self : CSPValidator) : ValidatorCall → CSPValidator
  | .parse freed header origin =>
    match self.parseCSPHeader freed header origin with
    | .ok (_,next) => next
    | .error _ => self
  | .add origin policy => self.addPolicy origin policy
  | .remove origin => self.removePolicy origin
  | .clearNonces => self.clearNonceCache

/-- The script is let through. -/
def AllowsInline (wyhash : Str → UInt64) (self : CSPValidator) (scriptContent : Str) (context : CSPValidationContext) :
    Prop :=
  ∃ result, self.validateInlineScript wyhash scriptContent context = .ok result ∧ result.allowed = true

/-- The directive for scripts lists `'unsafe-inline'` or the nonce. -/
def ListsInline (header : Str) (nonce : Option Str) : Prop :=
  ∃ part, applicablePart header (text "script") = some part ∧
    (text "'unsafe-inline'" ∈ sourceWords part ∨ ∃ n, nonce = some n ∧ noncePrefix++n++[quote] ∈ sourceWords part)

/-- The header is read without a trap, and what is read lets the script through exactly if the
header lists it. -/
structure FollowsHeader (wyhash : Str → UInt64) (freed : FreedMemory CSPToken) (validator : CSPValidator) (header : Str)
    (document : Origin) (scriptContent : Str) (context : CSPValidationContext) : Prop where
  total : validator.parseCSPHeader freed header document ≠ .error .panic
  inline : ∀ policy validator', validator.parseCSPHeader freed header document = .ok (policy,validator') →
    (AllowsInline wyhash validator' scriptContent context ↔ ListsInline header context.scriptNonce)

/-- No nonce breaks off behind the hyphen, and the header lists the script exactly if there is a
directive for scripts and the hash is the one of the script. -/
structure InlineByHash (wyhash : Str → UInt64) (header scriptContent : Str) (context : CSPValidationContext) :
    Prop where
  closed : ∀ part ∈ directiveParts header, noncePrefix ∉ sourceWords part
  hash : ListsInline header context.scriptNonce ↔ (partNamed header (text "script-src")).isSome = true ∧
    context.scriptHash = some (computeContentHash wyhash scriptContent)

section Totality

variable {freed : FreedMemory CSPToken} {self : CSPValidator} {header word part : Str} {origin : Origin} {e : CSPError}

theorem exists_of_mapM_error {α β ε : Type} {f : α → Except ε β} {xs : List α} {e : ε} (h : xs.mapM f = .error e) :
    ∃ x ∈ xs, f x = .error e := by
  induction xs with
  | nil => cases h
  | cons x xs ih =>
    rw [List.mapM_cons] at h
    cases hx : f x with
    | error e' =>
      rw [hx] at h
      cases h
      exact ⟨x,List.mem_cons_self ..,hx⟩
    | ok y =>
      cases hxs : xs.mapM f with
      | error e' =>
        rw [hx,hxs] at h
        cases h
        obtain ⟨x',hmem,hx'⟩ := ih hxs
        exact ⟨x',List.mem_cons_of_mem x hmem,hx'⟩
      | ok ys =>
        rw [hx,hxs] at h
        cases h

/-- Only a nonce without a value and a quote is too short. -/
theorem parseSourceToken_error (h : parseSourceToken word = .error e) : e = .panic ∧ word = noncePrefix := by
  rw [parseSourceToken,← noncePrefix] at h
  split_ifs at h with hself hinline heval hnone hnonce hshort
  cases h
  obtain ⟨rest,rfl⟩ := List.isPrefixOf_iff_prefix.mp hnonce
  have hlen : noncePrefix.length = 7 := rfl
  rw [List.length_append,hlen] at hshort
  rw [List.length_eq_zero_iff.mp (by omega : rest.length = 0),List.append_nil]
  exact ⟨rfl,rfl⟩

theorem parseDirective_error (h : parseDirective part = .error e) : e = .panic ∧ noncePrefix ∈ sourceWords part := by
  rw [parseDirective_eq] at h
  cases hwords : (sourceWords part).mapM parseSourceToken with
  | error e' =>
    rw [hwords] at h
    cases h
    obtain ⟨word,hmem,hword⟩ := exists_of_mapM_error hwords
    obtain ⟨rfl,rfl⟩ := parseSourceToken_error hword
    exact ⟨rfl,hmem⟩
  | ok sources =>
    rw [hwords] at h
    cases h

theorem parseCSPHeader_error (h : self.parseCSPHeader freed header origin = .error e) :
    e = .panic ∧ ∃ part ∈ directiveParts header, noncePrefix ∈ sourceWords part := by
  rw [parseCSPHeader_eq] at h
  cases hparts : (directiveParts header).mapM parseDirective with
  | error e' =>
    rw [hparts] at h
    cases h
    obtain ⟨part,hmem,hpart⟩ := exists_of_mapM_error hparts
    exact ⟨(parseDirective_error hpart).1,part,hmem,(parseDirective_error hpart).2⟩
  | ok directives =>
    rw [hparts] at h
    cases h

/-- A header traps exactly if a nonce in it breaks off behind the hyphen. -/
theorem parseCSPHeader_total (freed : FreedMemory CSPToken) (self : CSPValidator) (header : Str) (origin : Origin) :
    self.parseCSPHeader freed header origin ≠ .error .panic ↔ ∀ part ∈ directiveParts header, noncePrefix ∉ sourceWords part := by
  constructor
  · intro h part hpart hword
    cases hparse : self.parseCSPHeader freed header origin with
    | error e => exact h ((parseCSPHeader_error hparse).1 ▸ hparse)
    | ok result =>
      have hresult : self.parseCSPHeader freed header origin = .ok (result.1,result.2) := hparse
      obtain ⟨hrules,-⟩ := parseCSPHeader_ok hresult
      have hread : ∀ word token, parseSourceToken word = .ok token → (word = noncePrefix ↔ False) := by
        rintro word token htoken
        refine iff_of_false ?_ not_false
        rintro rfl
        have hpanic : parseSourceToken noncePrefix = .error .panic := rfl
        cases hpanic.symm.trans htoken
      have hbroken : ∀ part rule, ReadFrom freed part rule → (noncePrefix ∈ sourceWords part ↔ False) := by
        intro part rule hrule
        obtain ⟨tokens,htokens,-⟩ := hrule.sources
        have hnone := exists_iff_of_forall₂ htokens hread
        simpa using hnone
      have hnone := exists_iff_of_forall₂ hrules hbroken
      simp only [and_false,exists_false,iff_false] at hnone
      exact hnone ⟨part,hpart,hword⟩
  · intro h hpanic
    obtain ⟨-,part,hpart,hword⟩ := parseCSPHeader_error hpanic
    exact h part hpart hword

end Totality

section Inline

variable {wyhash : Str → UInt64} {freed : FreedMemory CSPToken} {self self' : CSPValidator}
  {header scriptContent : Str} {document : Origin} {policy : ContentSecurityPolicy} {context : CSPValidationContext}

theorem nonceCache_step (self : CSPValidator) (call : ValidatorCall) (h : self.nonceCache = ∅) :
    (validatorStep self call).nonceCache = ∅ := by
  cases call with
  | parse freed header origin =>
    rw [validatorStep]
    split
    · rename_i hparse
      rw [(parseCSPHeader_ok hparse).2]
      exact h
    · exact h
  | add origin policy => exact h
  | remove origin => exact h
  | clearNonces => rfl

/-- No call puts a nonce into the cache. -/
theorem nonceCache_run (calls : List ValidatorCall) : (run validatorStep .init calls).nonceCache = ∅ :=
  run_inv nonceCache_step rfl calls

/-- Neither a flag nor a nonce lets a script through, only its hash. -/
theorem allowsInline_iff (hcache : self.nonceCache = ∅) (hdocument : Origin.parse context.documentUrl = .ok document)
    (hheader : self.parseCSPHeader freed header document = .ok (policy,self')) :
    AllowsInline wyhash self' scriptContent context ↔ (partNamed header (text "script-src")).isSome = true ∧
      context.scriptHash = some (computeContentHash wyhash scriptContent) := by
  obtain ⟨hlookup,hkept,hnamed⟩ := parseCSPHeader_stored hheader
  have hscript := hnamed (text "script-src")
  have hdefault := hnamed (text "default-src")
  rw [AllowsInline,CSPValidator.validateInlineScript,hdocument]
  simp only [hlookup]
  cases hpart : partNamed header (text "script-src") with
  | some part =>
    rw [hpart] at hscript
    obtain ⟨rule,hrule,hread⟩ := exists_of_rel_left hscript
    have hnonce : context.scriptNonce.any self'.isNonceValid = false := by
      cases context.scriptNonce with
      | none => rfl
      | some nonce =>
        rw [Option.any_some,CSPValidator.isNonceValid,hkept,hcache]
        rfl
    rw [hrule]
    simp only [checkScriptDirective,hread.allowUnsafeInline,hnonce,Bool.false_eq_true,if_false,Option.isSome_some,true_and]
    split_ifs with hhash
    · exact iff_of_true ⟨_,rfl,rfl⟩ hhash
    · exact iff_of_false (fun ⟨_,hresult,hallowed⟩ => by cases hresult; cases hallowed) hhash
  | none =>
    rw [hpart] at hscript
    rw [none_of_rel_none hscript]
    apply iff_of_false
    · rintro ⟨result,hresult,hallowed⟩
      cases hfound : findDirective policy (text "default-src") with
      | none =>
        rw [hfound] at hresult
        cases hresult
        cases hallowed
      | some rule =>
        rw [hfound] at hdefault hresult
        obtain ⟨part,-,hread⟩ := exists_of_rel_right hdefault
        simp only [hread.allowUnsafeInline,Bool.false_eq_true,if_false] at hresult
        cases hresult
        cases hallowed
    · exact fun h => Bool.false_ne_true h.1

/-- After any calls, a header is followed for a script exactly if it does not trap and the hash
lets through what the header lists. -/
theorem followsHeader_iff (wyhash : Str → UInt64) (freed : FreedMemory CSPToken) (calls : List ValidatorCall)
    (header scriptContent : Str) (context : CSPValidationContext) (hdocument : Origin.parse context.documentUrl = .ok document) :
    FollowsHeader wyhash freed (run validatorStep .init calls) header document scriptContent context ↔
      InlineByHash wyhash header scriptContent context := by
  have hcache := nonceCache_run calls
  have htotal := parseCSPHeader_total freed (run validatorStep .init calls) header document
  constructor
  · intro h
    refine ⟨htotal.mp h.total,?_⟩
    cases hparse : (run validatorStep .init calls).parseCSPHeader freed header document with
    | error e => exact (h.total ((parseCSPHeader_error hparse).1 ▸ hparse)).elim
    | ok result =>
      have hparse' : (run validatorStep .init calls).parseCSPHeader freed header document = .ok (result.1,result.2) := hparse
      rw [← h.inline _ _ hparse',allowsInline_iff hcache hdocument hparse']
  · intro h
    refine ⟨htotal.mpr h.closed,?_⟩
    intro policy self' hparse
    rw [allowsInline_iff hcache hdocument hparse,h.hash]

end Inline

/-- A header that lists no inline script. -/
theorem followsHeader_iff_self : FollowsHeader (fun _ => 0) (.filled noneToken) (run validatorStep .init []) (text "script-src 'self'")
    pageOrigin [] (pageContext (text "<inline>")) := by
  apply (followsHeader_iff (fun _ => 0) _ [] _ _ _ (by decide)).mpr
  have hpart : applicablePart (text "script-src 'self'") (text "script") = some (text "script-src 'self'") := by
    decide
  refine ⟨by decide,iff_of_false ?_ fun h => nomatch h.2⟩
  rintro ⟨part,hfound,hlisted⟩
  cases hpart.symm.trans hfound
  rcases hlisted with hinline | ⟨n,hn,-⟩
  · revert hinline
    decide
  · cases hn

/-- A listed script is blocked. -/
theorem unsafeInline_blocked : ¬∀ (wyhash : Str → UInt64) (freed : FreedMemory CSPToken) (calls : List ValidatorCall)
    (header scriptContent : Str) (document : Origin) (context : CSPValidationContext),
    Origin.parse context.documentUrl = .ok document →
      FollowsHeader wyhash freed (run validatorStep .init calls) header document scriptContent context := by
  intro h
  have hfollows := h (fun _ => 0) (.filled noneToken) [] (text "script-src 'unsafe-inline'") [] pageOrigin
    (pageContext (text "<inline>")) (by decide)
  have hlisted : ListsInline (text "script-src 'unsafe-inline'") none :=
    ⟨text "script-src 'unsafe-inline'",by decide,Or.inl (by decide)⟩
  obtain ⟨result,hresult,hallowed⟩ := (hfollows.inline _ _ rfl).mpr hlisted
  cases hresult
  cases hallowed

end ZNet.Policy
