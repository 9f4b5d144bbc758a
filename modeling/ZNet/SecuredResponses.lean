import ZNet.SecurityHeaders

/-!
# Secured responses

A header for the transport passes the check, the client and the validation of responses of
this program, if the server survives the freeing of its name. Each of the three reads it in a
way of its own.
-/

namespace ZNet.SecurityHeaders
open TextScan Policy Hsts Runs

section Ages

variable {maxAge : ℕ} {sub pre : Bool}

/-- What stands behind the number. -/
def flagText (sub pre : Bool) : Str :=
  (if sub then text "; includeSubDomains" else [])++if pre then text "; preload" else []

theorem hstsValue_eq (maxAge : ℕ) (sub pre : Bool) : hstsValue maxAge sub pre = agePrefix++(decimal maxAge++flagText sub pre) :=
  List.append_assoc ..

theorem semicolon_notMem (n : ℕ) : 0x3b ∉ decimal n := notMem_decimal (by decide) n

/-- The directives are those of the policy with this age and these flags. -/
theorem spells_value (maxAge : ℕ) (sub pre : Bool) :
    Spells (hstsValue maxAge sub pre) (builtDirectives { domain := [], maxAge, includeSubDomains := sub, preload := pre }) := by
  have hself (part : Str) : Padded part part := ⟨[],[],nofun,nofun,(List.append_nil _).symm⟩
  have hblank (part : Str) : Padded (0x20::part) part := by
    refine ⟨[0x20],[],?_,nofun,by rw [List.append_nil]; rfl⟩
    intro b hb
    rw [List.mem_singleton.mp hb]
    exact List.mem_cons_self
  rw [builtDirectives_eq,hstsValue_eq]
  refine ⟨(agePrefix++decimal maxAge)::((if sub then [0x20::subDomainsName] else [])++
    if pre then [0x20::preloadName] else []),?_,?_⟩
  · refine .cons (hself _) ?_
    cases sub <;> cases pre
    · exact .nil
    · exact .cons (hblank _) .nil
    · exact .cons (hblank _) .nil
    · exact .cons (hblank _) (.cons (hblank _) .nil)
  · rw [joinParts,List.append_assoc]
    cases sub <;> cases pre <;> rfl

/-- The check knows every directive that is written. -/
theorem known_value (maxAge : ℕ) (sub pre : Bool) :
    (trimmedDirectives (hstsValue maxAge sub pre)).all knownHstsDirective = true := by
  have hsplit := (spells_value maxAge sub pre).split builtDirectives_plain (by rw [builtDirectives_eq]; exact List.cons_ne_nil _ _)
  change ((hstsDirectives (hstsValue maxAge sub pre)).filter fun directive => !directive.isEmpty).all _ = true
  rw [hsplit,List.all_eq_true]
  intro directive hmem
  rcases mem_builtDirectives.mp (List.mem_filter.mp hmem).1 with rfl | ⟨rfl,-⟩ | ⟨rfl,-⟩
  · rw [knownHstsDirective,Bool.or_eq_true]
    exact .inr (List.isPrefixOf_iff_prefix.mpr (List.prefix_append ..))
  · rfl
  · rfl

theorem flagText_none : flagText false false = [] := rfl

theorem flagText_some (h : (sub || pre) = true) : ∃ tail, flagText sub pre = 0x3b::tail := by
  cases sub with
  | true => exact ⟨_,rfl⟩
  | false =>
    cases pre with
    | true => exact ⟨_,rfl⟩
    | false => cases h

theorem length_flagText (sub pre : Bool) : (flagText sub pre).length ≤ 28 := by
  cases sub <;> cases pre <;> decide

theorem length_decimal_le (hlt : maxAge < 2^64) : (decimal maxAge).length ≤ 20 :=
  (length_decimal_le_iff (by decide)).mpr (hlt.trans (by decide))

/-- The number is looked for in front of the end, from which the length of the prefix is taken away. -/
theorem validateHsts_append {rest : Str} (hlength : rest.length ≤ 1992)
    (hknown : (trimmedDirectives (agePrefix++rest)).all knownHstsDirective = true) : validateHsts (agePrefix++rest) =
      if (rest.idxOf? 0x3b).getD (8+rest.length) < 8 then .error .panic
      else match parseUnsigned (2^64) (rest.take ((rest.idxOf? 0x3b).getD (8+rest.length)-8)) with
      | none => .error .invalidMaxAge
      | some age => if age = 0 then .error .invalidMaxAge else .ok () := by
  have height : agePrefix.length = 8 := rfl
  have hfound : indexOf (text "max-age=") (agePrefix++rest) = some 0 := indexOf_eq_zero_iff.mpr (List.prefix_append ..)
  have hdrop : (agePrefix++rest).drop 8 = rest := List.drop_left' rfl
  have hcut (n : ℕ) : ((agePrefix++rest).take n).drop 8 = rest.take (n-8) := by
    rw [List.drop_take,hdrop]
  rw [validateHsts,if_neg (by rw [List.length_append,height]; omega),hfound]
  simp only [Nat.zero_add,hdrop,hcut,hknown,if_true,List.length_append,height]
  split_ifs with hend hempty
  · rfl
  · rw [hempty]
    rfl
  · rfl

/-- What the check says of a header with this age and these flags. -/
theorem validateHsts_value (hlt : maxAge < 2^64) : validateHsts (hstsValue maxAge sub pre) =
    if sub || pre then
      if maxAge < 10^7 then .error .panic else if maxAge < 10^8 then .error .invalidMaxAge else .ok ()
    else if maxAge = 0 then .error .invalidMaxAge else .ok () := by
  have hknown := known_value maxAge sub pre
  have hdigits := length_decimal_le hlt
  have hlength : (decimal maxAge++flagText sub pre).length ≤ 1992 := by
    rw [List.length_append]
    have := length_flagText sub pre
    omega
  rw [hstsValue_eq] at hknown ⊢
  rw [validateHsts_append hlength hknown]
  by_cases hflags : (sub || pre) = true
  · obtain ⟨tail,htail⟩ := flagText_some hflags
    rw [if_pos hflags,htail,idxOf?_append_cons (semicolon_notMem maxAge),Option.getD_some]
    have hseven : (decimal maxAge).length ≤ 7 ↔ maxAge < 10^7 := length_decimal_le_iff (by decide)
    have height : (decimal maxAge).length ≤ 8 ↔ maxAge < 10^8 := length_decimal_le_iff (by decide)
    by_cases hshort : maxAge < 10^7
    · rw [if_pos hshort,if_pos (Nat.lt_succ_of_le (hseven.mpr hshort))]
    · have hlong : ¬(decimal maxAge).length < 8 := fun h => hshort (hseven.mp (Nat.le_of_lt_succ h))
      rw [if_neg hshort,if_neg hlong,List.take_append_of_le_length (Nat.sub_le ..)]
      by_cases hexact : maxAge < 10^8
      · -- the number that is cut out is empty
        rw [if_pos hexact,Nat.sub_eq_zero_of_le (height.mpr hexact)]
        rfl
      · have hle : 10^8 ≤ maxAge := Nat.le_of_not_lt hexact
        have hpos : maxAge/10^8 ≠ 0 := Nat.ne_of_gt (Nat.div_pos hle (by decide))
        rw [if_neg hexact,take_decimal hle,parseUnsigned_decimal ((Nat.div_le_self ..).trans_lt hlt)]
        exact if_neg hpos
  · obtain ⟨rfl,rfl⟩ := Bool.or_eq_false_iff.mp (eq_false_of_ne_true hflags)
    have hnone : (decimal maxAge).idxOf? 0x3b = none := List.idxOf?_eq_none_iff.mpr (semicolon_notMem maxAge)
    rw [if_neg hflags,flagText_none,List.append_nil,hnone,Option.getD_none,if_neg (by omega),Nat.add_sub_cancel_left,
      List.take_length,parseUnsigned_decimal hlt]

/-- The parser of the client finds the age and the flags. -/
theorem parse_value {now : ℤ} (hpos : 0 < maxAge) (hfits : Fits now maxAge) (sub pre : Bool) :
    (parseHstsHeader (hstsValue maxAge sub pre) now).map nameless =
      .ok { domain := [], maxAge, includeSubDomains := sub, preload := pre, expiresAt := now+maxAge } := by
  have hfirst : agePrefix++decimal maxAge ≠ [] := List.append_ne_nil_of_left_ne_nil (by decide) _
  rw [(spells_value maxAge sub pre).parse builtDirectives_plain]
  · exact outcome_built hpos hfits.1 hfits.2
  · rw [builtDirectives_eq]
    exact List.cons_ne_nil _ _
  · rw [builtDirectives_eq]
    exact fun h => hfirst (List.cons.inj h).1

/-- The check of responses takes everything behind the prefix for the number. -/
theorem isValidHSTSHeader_value (hlt : maxAge < 2^64) :
    isValidHSTSHeader (hstsValue maxAge sub pre) = true ↔ (sub || pre) = false := by
  have hstart : (text "max-age=").isPrefixOf (agePrefix++(decimal maxAge++flagText sub pre)) = true :=
    List.isPrefixOf_iff_prefix.mpr (List.prefix_append ..)
  have hlength : ¬(agePrefix++(decimal maxAge++flagText sub pre)).length ≤ 8 := by
    have hne := List.length_pos_iff.mpr (decimal_ne_nil maxAge)
    have height : agePrefix.length = 8 := rfl
    rw [List.length_append,List.length_append,height]
    omega
  have hdrop : (agePrefix++(decimal maxAge++flagText sub pre)).drop 8 = decimal maxAge++flagText sub pre :=
    List.drop_left' rfl
  have hcomma : (decimal maxAge++flagText sub pre).idxOf? 0x2c = none := by
    rw [List.idxOf?_eq_none_iff,List.mem_append,not_or]
    refine ⟨notMem_decimal (by decide) maxAge,?_⟩
    cases sub <;> cases pre <;> decide
  rw [isValidHSTSHeader,hstsValue_eq,hstart,Bool.not_true,if_neg Bool.false_ne_true,if_neg hlength]
  simp only [hdrop,hcomma,Option.getD_none,List.take_length]
  by_cases hflags : (sub || pre) = true
  · obtain ⟨tail,htail⟩ := flagText_some hflags
    refine iff_of_false ?_ (by simp [hflags])
    intro h
    obtain ⟨n,hn⟩ := Option.isSome_iff_exists.mp h
    -- a semicolon is no byte of a number
    have hbyte := (parseUnsigned_bytes hn).2 0x3b (by rw [htail]; simp)
    revert hbyte
    decide
  · obtain ⟨rfl,rfl⟩ := Bool.or_eq_false_iff.mp (eq_false_of_ne_true hflags)
    rw [flagText_none,List.append_nil,parseUnsigned_decimal hlt]
    exact iff_of_true rfl rfl

end Ages

/-- A response of a server with the middleware. -/
structure Exchange where
  middleware : SecurityHeadersMiddleware
  call : HeaderCall
  freed : FreedMemory UInt8

namespace Exchange

/-- What the client gets. -/
def answer (e : Exchange) : Except SecurityHeaderError HeaderCall :=
  (e.middleware.processResponse e.freed e.call.headers).map fun headers => { e.call with headers }

def answered (e : Exchange) : Bool := e.answer.toBool

/-- The header for the transport has this age and these flags, and the response has no other. -/
structure Sets (e : Exchange) (maxAge : ℕ) (sub pre : Bool) : Prop where
  value : e.middleware.config.strictTransportSecurity = some (hstsValue maxAge sub pre)
  age : maxAge < 2^64
  alone : ∀ header ∈ e.call.headers, header.name ≠ hstsHeader

/-- What becomes of such a header. The client would read it as it is meant. -/
structure Fate (e : Exchange) (maxAge : ℕ) (sub pre : Bool) : Prop where
  trapped : e.answer = .error .panic ↔ e.middleware.foreign = .trapped ∨
    e.middleware.validateOnAdd = true ∧ (sub || pre) = true ∧ maxAge < 10^7
  sent : (∃ call, e.answer = .ok call ∧ ∃ header ∈ call.headers, header.name = hstsHeader) ↔
    e.middleware.foreign = .ignored ∧
      (e.middleware.validateOnAdd = true → if sub || pre then 10^8 ≤ maxAge else 0 < maxAge)
  meant : ∀ now, 0 < maxAge → Fits now maxAge → (parseHstsHeader (hstsValue maxAge sub pre) now).map nameless =
    .ok { domain := [], maxAge, includeSubDomains := sub, preload := pre, expiresAt := now+maxAge }
  checked : ∀ (headers : Headers) (config : PolicyEngineConfig), credentialConflict headers = false →
    headers.lookup hstsHeader = some (hstsValue maxAge sub pre) → config.strictTransportSecurity = true →
      ((checkResponseHeaders headers config).allowed = true ↔ (sub || pre) = false)

end Exchange

/-- A client without an answer learns nothing. -/
def exchangeStep (s : HstsPolicyEnforcer) (e : Exchange) : HstsPolicyEnforcer :=
  match e.answer with
  | .ok call => headerStep s call
  | .error _ => s

section Exchanges

variable {e : Exchange} {maxAge : ℕ} {sub pre : Bool}

/-- The client does not see what the middleware adds. -/
theorem headerStep_added (s : HstsPolicyEnforcer) (call : HeaderCall) (m : SecurityHeadersMiddleware)
    (freed : FreedMemory UInt8) : headerStep s { call with headers := call.headers++m.added freed } = headerStep s call := by
  have hnone : (m.added freed).find? (fun header => header.name == hstsName) = none := by
    rw [List.find?_eq_none]
    intro header hmem
    obtain ⟨generated,hgenerated,rfl⟩ := List.mem_map.mp hmem
    simpa [afterFree_name] using name_ne (List.mem_filter.mp hgenerated).1
  rw [headerStep,headerStep,HstsPolicyEnforcer.processResponseHeaders,HstsPolicyEnforcer.processResponseHeaders,
    List.find?_append,hnone,Option.or_none]

theorem answer_ok_iff {call : HeaderCall} : e.answer = .ok call ↔
    ¬e.middleware.Traps ∧ call = { e.call with headers := e.call.headers++e.middleware.added e.freed } := by
  rw [Exchange.answer]
  constructor
  · intro h
    cases hresponse : e.middleware.processResponse e.freed e.call.headers with
    | error error =>
      rw [hresponse] at h
      cases h
    | ok headers =>
      obtain ⟨htraps,rfl⟩ := processResponse_ok_iff.mp hresponse
      rw [hresponse] at h
      exact ⟨htraps,(Except.ok.inj h).symm⟩
  · rintro ⟨htraps,rfl⟩
    rw [processResponse_ok_iff.mpr ⟨htraps,rfl⟩]
    rfl

theorem answer_error_iff : e.answer = .error .panic ↔ e.middleware.Traps := by
  rw [Exchange.answer]
  cases hresponse : e.middleware.processResponse e.freed e.call.headers with
  | error error =>
    obtain ⟨htraps,rfl⟩ := processResponse_error_iff.mp hresponse
    exact iff_of_true rfl htraps
  | ok headers => exact iff_of_false nofun (processResponse_ok_iff.mp hresponse).1

theorem exchangeStep_eq (s : HstsPolicyEnforcer) (e : Exchange) :
    exchangeStep s e = if e.answered then headerStep s e.call else s := by
  rw [exchangeStep,Exchange.answered]
  cases hanswer : e.answer with
  | error error => rfl
  | ok call =>
    obtain ⟨-,rfl⟩ := answer_ok_iff.mp hanswer
    exact headerStep_added s e.call e.middleware e.freed

theorem survives (h : e.answered = true) :
    e.middleware.foreign = .ignored ∨ generateHeaders e.middleware.config = [] := by
  rw [Exchange.answered] at h
  cases hanswer : e.answer with
  | error error =>
    rw [hanswer] at h
    cases h
  | ok call =>
    obtain ⟨hsafe,-⟩ := answer_ok_iff.mp hanswer
    cases hforeign : e.middleware.foreign with
    | ignored => exact .inl rfl
    | trapped => exact .inr (by_contra fun hgenerated => hsafe (.inr ⟨hforeign,hgenerated⟩))

/-- The client is left as if nobody had a middleware. -/
theorem run_exchanges (s : HstsPolicyEnforcer) (exchanges : List Exchange) : run exchangeStep s exchanges =
    run headerStep s ((exchanges.filter Exchange.answered).map Exchange.call) := by
  induction exchanges generalizing s with
  | nil => rfl
  | cons e exchanges ih =>
    have hcons : run exchangeStep s (e::exchanges) = run exchangeStep (exchangeStep s e) exchanges := rfl
    rw [hcons,ih,exchangeStep_eq,List.filter_cons]
    split_ifs
    · rfl
    · rfl

/-- The number that is cut out decides whether the header is added. -/
theorem accepted_iff (hlt : maxAge < 2^64) : validateHsts (hstsValue maxAge sub pre) = .ok () ↔
    if sub || pre then 10^8 ≤ maxAge else 0 < maxAge := by
  rw [validateHsts_value hlt]
  split_ifs with hflags hshort hexact hzero
  · simp only [false_iff]
    omega
  · simp only [false_iff]
    omega
  · simp only [true_iff]
    omega
  · simp [hzero]
  · simpa using Nat.pos_of_ne_zero hzero

theorem panic_iff (hlt : maxAge < 2^64) : validateHsts (hstsValue maxAge sub pre) = .error .panic ↔
    (sub || pre) = true ∧ maxAge < 10^7 := by
  rw [validateHsts_value hlt]
  split_ifs with hflags hshort hexact hzero
  · exact iff_of_true rfl ⟨hflags,hshort⟩
  · exact iff_of_false (fun h => by cases h) fun h => hshort h.2
  · exact iff_of_false (fun h => by cases h) fun h => hshort h.2
  · exact iff_of_false (fun h => by cases h) fun h => hflags h.1
  · exact iff_of_false (fun h => by cases h) fun h => hflags h.1

theorem Exchange.Sets.fate (h : e.Sets maxAge sub pre) : e.Fate maxAge sub pre := by
  have hcheck : e.middleware.CheckTraps ↔ e.middleware.validateOnAdd = true ∧ (sub || pre) = true ∧ maxAge < 10^7 := by
    rw [checkTraps_iff,h.value,← panic_iff h.age]
    simp
  have hgenerated : generateHeaders e.middleware.config ≠ [] := by
    have hmem : ⟨hstsHeader,hstsValue maxAge sub pre⟩ ∈ generateHeaders e.middleware.config :=
      (mem_generateHeaders_hsts rfl).mpr h.value
    exact List.ne_nil_of_mem hmem
  have htraps : e.middleware.Traps ↔ e.middleware.foreign = .trapped ∨
      e.middleware.validateOnAdd = true ∧ (sub || pre) = true ∧ maxAge < 10^7 := by
    rw [SecurityHeadersMiddleware.Traps,hcheck,and_iff_left hgenerated,or_comm]
  constructor
  · exact answer_error_iff.trans htraps
  · constructor
    · rintro ⟨call,hanswer,header,hmem,hname⟩
      obtain ⟨hsafe,rfl⟩ := answer_ok_iff.mp hanswer
      rcases List.mem_append.mp hmem with hmem | hmem
      · exact (h.alone header hmem hname).elim
      · obtain ⟨hvalue,haccepted⟩ := (mem_added_hsts hname).mp hmem
        rw [h.value,Option.some.injEq] at hvalue
        rw [← hvalue,accepted_iff h.age] at haccepted
        refine ⟨?_,haccepted⟩
        cases hforeign : e.middleware.foreign with
        | ignored => rfl
        | trapped => exact absurd (htraps.mpr (.inl hforeign)) hsafe
    · rintro ⟨hforeign,hsent⟩
      refine ⟨_,answer_ok_iff.mpr ⟨?_,rfl⟩,⟨hstsHeader,hstsValue maxAge sub pre⟩,List.mem_append_right _ ?_,rfl⟩
      · rw [htraps,hforeign]
        rintro (hforeign | ⟨hvalidate,hflags,hshort⟩)
        · cases hforeign
        have hlong := hsent hvalidate
        rw [if_pos hflags] at hlong
        omega
      · rw [mem_added_hsts rfl,accepted_iff h.age]
        exact ⟨h.value,hsent⟩
  · exact fun now hpos hfits => parse_value hpos hfits sub pre
  · intro headers config hconflict hlookup hconfig
    rw [checkResponseHeaders,hconflict,hlookup,hconfig,← isValidHSTSHeader_value h.age]
    simp only [Bool.false_eq_true,and_false,if_false]
    split_ifs with hvalid
    · exact iff_of_true rfl hvalid
    · exact iff_of_false not_false hvalid

/-- Nothing that a middleware adds is learnt by a client in any run, a middleware that generates
a header survives only if the allocator ignores literals, and what becomes of each header for
the transport depends on its age and its flags. -/
theorem secured_responses (s : HstsPolicyEnforcer) (exchanges : List Exchange) :
    run exchangeStep s exchanges = run headerStep s ((exchanges.filter Exchange.answered).map Exchange.call) ∧
    ∀ e ∈ exchanges, (e.answered = true → e.middleware.foreign = .ignored ∨ generateHeaders e.middleware.config = []) ∧
      ∀ maxAge sub pre, e.Sets maxAge sub pre → e.Fate maxAge sub pre :=
  ⟨run_exchanges s exchanges,fun _ _ => ⟨survives,fun _ _ _ h => h.fate⟩⟩

end Exchanges

theorem profile_value (sub pre : Bool) : hstsValue 31536000 sub pre = text "max-age=31536000"++flagText sub pre := by
  have hdecimal : decimal 31536000 = text "31536000" := by decide +kernel
  rw [hstsValue_eq,hdecimal,← List.append_assoc]
  rfl

/-- The age of the profiles has eight digits, so that their header gets lost with any allocator. -/
theorem secured_responses_profiles :
    ∀ config ∈ [SecurityProfiles.minimal,SecurityProfiles.moderate,SecurityProfiles.strict], ∀ foreign,
      ¬∃ call, (Exchange.mk ⟨config,true,foreign⟩ ⟨text "a",[],0⟩ .kept).answer = .ok call ∧
        ∃ header ∈ call.headers, header.name = hstsHeader := by
  intro config hconfig foreign
  obtain ⟨pre,hvalue⟩ : ∃ pre, config.strictTransportSecurity = some (hstsValue 31536000 true pre) := by
    simp only [profile_value]
    simp only [List.mem_cons,List.not_mem_nil,or_false] at hconfig
    rcases hconfig with rfl | rfl | rfl
    · exact ⟨false,rfl⟩
    · exact ⟨true,rfl⟩
    · exact ⟨true,rfl⟩
  have hfate := ((secured_responses .init [⟨⟨config,true,foreign⟩,⟨text "a",[],0⟩,.kept⟩]).2 _ (List.mem_singleton_self _)).2
    31536000 true pre ⟨hvalue,by decide,nofun⟩
  rw [hfate.sent]
  rintro ⟨-,h⟩
  have hlong := h rfl
  rw [if_pos (Bool.true_or pre)] at hlong
  omega

end ZNet.SecurityHeaders
