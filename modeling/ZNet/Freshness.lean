import ZNet.HttpCache
import ZNet.LetterCase
import Mathlib.Data.List.Forall2

/-!
# Freshness of a response

The names and the values of headers are compared byte by byte, and each header that is
recognized overwrites what the earlier ones said. The lifetime is independent of the order
and the spelling only where no header changes it.
-/

namespace ZNet.Caching
open TextScan

/-- What a response is stored with: its lifetime, or nothing if it is not stored. -/
def freshness (config : CacheConfig) (response : HttpResponse) (ttl : Option UInt32) : Option UInt32 :=
  let control := cacheControl config response ttl
  if control.canCache then some control.calculatedTtl else none

/-- The lifetime that the caller asks for. -/
def requestedTtl (config : CacheConfig) (ttl : Option UInt32) : UInt32 := ttl.getD config.defaultTtl

def HttpHeader.IsCacheControl (h : HttpHeader) : Prop := SameLetters h.name headerCacheControl

def HttpHeader.IsExpires (h : HttpHeader) : Prop := SameLetters h.name headerExpires

def noStore : Str := ascii "no-store".toList

def noCache : Str := ascii "no-cache".toList

def maxAge : Str := ascii "max-age=".toList

/-- The word is somewhere in the value, in any letter case. -/
def Mentions (word value : Str) : Prop := word.map toLower <:+: value.map toLower

/-- The value has a `max-age` of so many seconds, in any letter case. -/
def MaxAge (value : Str) (seconds : ℕ) : Prop := ∃ before after, value.map toLower = before++(maxAge++after) ∧
  parseUnsigned u32End (after.takeWhile isDigit) = some seconds

/-- The header is written in another letter case. -/
structure Respelled (h' h : HttpHeader) : Prop where
  name : SameLetters h'.name h.name
  value : h'.value = h.value ∨ h.IsCacheControl ∧ SameLetters h'.value h.value

/-- The headers are in another order and in another letter case. -/
def Rearranged (headers' headers : List HttpHeader) : Prop :=
  ∃ respelled, List.Forall₂ Respelled respelled headers ∧ headers'.Perm respelled

/-- Order and spelling do not matter, `no-store` is obeyed, and a `max-age` wins over `Expires`. -/
structure Orderless (config : CacheConfig) (response : HttpResponse) (ttl : Option UInt32) : Prop where
  invariant : ∀ headers, Rearranged headers response.headers →
    freshness config { response with headers := headers } ttl = freshness config response ttl
  noStore : ∀ h ∈ response.headers, h.IsCacheControl → Mentions noStore h.value → freshness config response ttl = none
  maxAge : ∀ seconds lifetime, (∃ h ∈ response.headers, h.IsCacheControl ∧ MaxAge h.value seconds) →
    (∃ h ∈ response.headers, h.IsExpires) → (∀ h ∈ response.headers, h.IsCacheControl → ¬Mentions noCache h.value) →
    freshness config response ttl = some lifetime →
    ∃ h ∈ response.headers, h.IsCacheControl ∧ MaxAge h.value lifetime.toNat

/-- The header says nothing, in any spelling, that changes the lifetime. -/
structure Idle (config : CacheConfig) (lifetime : UInt32) (h : HttpHeader) : Prop where
  expires : h.IsExpires → config.defaultTtl = lifetime
  noStore : h.IsCacheControl → ¬Mentions noStore h.value
  noCache : h.IsCacheControl → Mentions noCache h.value → lifetime = 0
  maxAge : h.IsCacheControl → ∀ seconds, MaxAge h.value seconds → UInt32.ofNat seconds = lifetime

variable {config : CacheConfig} {response : HttpResponse} {ttl : Option UInt32} {h h' : HttpHeader} {lifetime : UInt32}
  {value value' word : Str} {seconds : ℕ}

/-- A response is stored with this lifetime. -/
theorem putHttpResponse_freshness (P : Platform) (self : HttpCache) (url : Str) (now : ℤ) :
    self.putHttpResponse P config url response ttl now = match freshness config response ttl with
      | none => (.ok (),self)
      | some lifetime => match serializeHttpResponse P response with
        | .error e => (.error e,self)
        | .ok serialized =>
          let (result,cache) :=
            self.cache.put P config (httpKey url) serialized (metadataOf response) (some lifetime) now
          (result,{ self with cache := cache }) := by
  rw [HttpCache.putHttpResponse,freshness]
  cases (cacheControl config response ttl).canCache with
  | true => rfl
  | false => rfl

section Words

theorem Mentions.of_sameLetters (hsame : SameLetters value' value) (h : Mentions word value') :
    Mentions word value := by
  rw [Mentions,← hsame]
  exact h

theorem MaxAge.of_sameLetters (hsame : SameLetters value' value) (h : MaxAge value' seconds) :
    MaxAge value seconds := by
  rw [MaxAge,← hsame]
  exact h

theorem Respelled.sameLetters (hrespelled : Respelled h' h) : SameLetters h'.value h.value := by
  rcases hrespelled.value with hsame | ⟨-,hsame⟩
  · rw [hsame]
    rfl
  · exact hsame

/-- What the search finds is mentioned. -/
theorem mentions_of_indexOf (hfound : (indexOf word value).isSome) : Mentions word value := by
  obtain ⟨before,after,rfl⟩ := indexOf_isSome_iff.mp hfound
  simp only [Mentions,List.map_append]
  exact ⟨_,_,rfl⟩

/-- What is mentioned is found where the value is written in small letters. -/
theorem indexOf_of_mentions (hlower : word.map toLower = word) (h : Mentions word value) :
    (indexOf word (value.map toLower)).isSome := by
  rw [indexOf_isSome_iff,← hlower]
  exact h

theorem maxAge_of_indexOf {idx : ℕ} (hfound : indexOf maxAge value = some idx)
    (hparse : parseUnsigned u32End ((value.drop (idx+8)).takeWhile isDigit) = some seconds) : MaxAge value seconds := by
  obtain ⟨hcut,-,-⟩ := indexOf_some hfound
  refine ⟨(value.take idx).map toLower,(value.drop (idx+8)).map toLower,?_,?_⟩
  · have hword : maxAge.map toLower = maxAge := by decide
    have hlength : maxAge.length = 8 := rfl
    rw [hlength] at hcut
    conv_lhs => rw [hcut]
    simp only [List.map_append,List.append_assoc,hword]
  · rw [(sameLetters_lower _).takeWhile_digits]
    exact hparse

end Words

section Header

theorem apply_cacheControl (config : CacheConfig) (control : CacheControl) (value : Str) :
    control.apply config ⟨headerCacheControl,value⟩ =
      if (indexOf noStore value).isSome then { control with canCache := false }
      else if (indexOf noCache value).isSome then { control with calculatedTtl := 0 }
      else
        match indexOf maxAge value with
        | none => control
        | some idx =>
          match parseUnsigned u32End ((value.drop (idx+8)).takeWhile isDigit) with
          | none => control
          | some ttl => { control with calculatedTtl := .ofNat ttl } := by
  rw [CacheControl.apply,if_pos rfl]
  rfl

theorem apply_expires (control : CacheControl) (value : Str) :
    control.apply config ⟨headerExpires,value⟩ = { control with calculatedTtl := config.defaultTtl } := by
  have hother : headerExpires ≠ headerCacheControl := by decide
  rw [CacheControl.apply,if_neg hother,if_pos rfl]

/-- No spelling of an idle header changes anything. -/
theorem Idle.apply (hidle : Idle config lifetime h) (hrespelled : Respelled h' h) :
    CacheControl.apply config ⟨lifetime,true⟩ h' = ⟨lifetime,true⟩ := by
  rw [CacheControl.apply]
  split
  · rename_i hname
    have hcontrol : h.IsCacheControl := by
      rw [HttpHeader.IsCacheControl,← hname]
      exact hrespelled.name.symm
    split
    · rename_i hfound
      exact absurd ((mentions_of_indexOf hfound).of_sameLetters hrespelled.sameLetters) (hidle.noStore hcontrol)
    · split
      · rename_i hfound
        rw [hidle.noCache hcontrol ((mentions_of_indexOf hfound).of_sameLetters hrespelled.sameLetters)]
      · split
        · rfl
        · rename_i hfound
          split
          · rfl
          · rename_i hparse
            have hage := (maxAge_of_indexOf hfound hparse).of_sameLetters hrespelled.sameLetters
            rw [hidle.maxAge hcontrol _ hage]
  · split
    · rename_i hname
      have hexpires : h.IsExpires := by
        rw [HttpHeader.IsExpires,← hname]
        exact hrespelled.name.symm
      rw [hidle.expires hexpires]
    · rfl

/-- The value written so that the first thing found in it is the given `max-age`. -/
def emphasized (before after : Str) : Str := before.map toUpper++(maxAge++after.map toUpper)

theorem emphasized_plain (before after : Str) (hword : 0x6e ∈ word) :
    (indexOf word (emphasized before after)).isSome = false := by
  rw [Bool.eq_false_iff]
  intro hfound
  have hmem := (indexOf_isSome_iff.mp hfound).subset hword
  have hmax : (0x6e : UInt8) ∉ maxAge := by decide
  simp [emphasized,hmax,not_mem_upper (show 0x61 ≤ (0x6e : UInt8).toNat by decide) (by decide)] at hmem

theorem apply_emphasized {before after : Str}
    (hparse : parseUnsigned u32End (after.takeWhile isDigit) = some seconds) :
    CacheControl.apply config ⟨lifetime,true⟩ ⟨headerCacheControl,emphasized before after⟩ =
      ⟨UInt32.ofNat seconds,true⟩ := by
  have hfound : indexOf maxAge (emphasized before after) = some before.length := by
    have h := indexOf_append_first (not_mem_upper (c:=0x6d) (by decide) (by decide) before) maxAge.tail
      (after.map toUpper)
    rwa [List.length_map] at h
  have hrest : (emphasized before after).drop (before.length+8) = after.map toUpper := by
    rw [emphasized,← List.append_assoc]
    apply List.drop_left'
    rw [List.length_append,List.length_map]
    rfl
  have hstore := emphasized_plain before after (show 0x6e ∈ noStore by decide)
  have hcache := emphasized_plain before after (show 0x6e ∈ noCache by decide)
  rw [apply_cacheControl]
  simp only [hstore,hcache,hfound,hrest,Bool.false_eq_true,if_false,(sameLetters_upper after).takeWhile_digits,hparse]

/-- A header that changes nothing in any spelling is idle. -/
theorem idle_of_apply (hkept : ∀ h', Respelled h' h →
    CacheControl.apply config ⟨lifetime,true⟩ h' = ⟨lifetime,true⟩) : Idle config lifetime h := by
  have hlowered (hcontrol : h.IsCacheControl) : CacheControl.apply config ⟨lifetime,true⟩
      ⟨headerCacheControl,h.value.map toLower⟩ = ⟨lifetime,true⟩ :=
    hkept _ ⟨hcontrol.symm,.inr ⟨hcontrol,sameLetters_lower h.value⟩⟩
  have hstorable (hcontrol : h.IsCacheControl) : ¬Mentions noStore h.value := by
    intro hmentions
    have happly := hlowered hcontrol
    rw [apply_cacheControl,if_pos (indexOf_of_mentions (by decide) hmentions)] at happly
    cases happly
  constructor
  · intro hexpires
    have happly := hkept ⟨headerExpires,h.value⟩ ⟨hexpires.symm,.inl rfl⟩
    rw [apply_expires] at happly
    exact (CacheControl.mk.inj happly).1
  · exact hstorable
  · intro hcontrol hmentions
    have happly := hlowered hcontrol
    have hplain : ¬(indexOf noStore (h.value.map toLower)).isSome = true := fun hfound =>
      hstorable hcontrol ((mentions_of_indexOf hfound).of_sameLetters (sameLetters_lower h.value))
    rw [apply_cacheControl,if_neg hplain,if_pos (indexOf_of_mentions (by decide) hmentions)] at happly
    exact (CacheControl.mk.inj happly).1.symm
  · intro hcontrol seconds ⟨before,after,hvalue,hparse⟩
    have hspelling : SameLetters (emphasized before after) h.value := by
      have hlower : SameLetters (emphasized before after) (h.value.map toLower) := by
        rw [hvalue]
        simp only [SameLetters,emphasized,List.map_append]
        rw [sameLetters_upper before,sameLetters_upper after]
      exact hlower.trans (sameLetters_lower h.value)
    have happly := hkept ⟨headerCacheControl,emphasized before after⟩ ⟨hcontrol.symm,.inr ⟨hcontrol,hspelling⟩⟩
    rw [apply_emphasized hparse] at happly
    exact (CacheControl.mk.inj happly).1

end Header

section Runs

theorem freshness_some :
    freshness config response ttl = some lifetime ↔ cacheControl config response ttl = ⟨lifetime,true⟩ := by
  rw [freshness]
  obtain ⟨calculated,canCache⟩ := cacheControl config response ttl
  cases canCache with
  | true => simp
  | false => simp

theorem foldl_apply_kept {control : CacheControl} {headers : List HttpHeader}
    (hkept : ∀ h ∈ headers, control.apply config h = control) : headers.foldl (·.apply config) control = control := by
  induction headers with
  | nil => rfl
  | cons h headers ih =>
    rw [List.foldl_cons,hkept h (List.mem_cons_self ..)]
    exact ih fun k hk => hkept k (List.mem_cons_of_mem h hk)

theorem exists_of_respelled {respelled headers : List HttpHeader} (hspelling : List.Forall₂ Respelled respelled headers)
    (hmem : h' ∈ respelled) : ∃ h ∈ headers, Respelled h' h := by
  induction hspelling with
  | nil => cases hmem
  | cons hfirst _ ih =>
    rcases List.mem_cons.mp hmem with rfl | hmem
    · exact ⟨_,List.mem_cons_self ..,hfirst⟩
    · obtain ⟨h,hh,hrespelled⟩ := ih hmem
      exact ⟨h,List.mem_cons_of_mem _ hh,hrespelled⟩

/-- Idle headers leave the lifetime that was asked for, in any order and spelling. -/
theorem freshness_idle (hidle : ∀ h ∈ response.headers, Idle config (requestedTtl config ttl) h)
    {headers : List HttpHeader} (hrearranged : Rearranged headers response.headers) :
    freshness config { response with headers := headers } ttl = some (requestedTtl config ttl) := by
  obtain ⟨respelled,hspelling,hperm⟩ := hrearranged
  rw [freshness_some]
  apply foldl_apply_kept
  intro h' hh'
  obtain ⟨h,hh,hrespelled⟩ := exists_of_respelled hspelling (hperm.mem_iff.mp hh')
  exact (hidle h hh).apply hrespelled

/-- The header with a name that is not recognized. -/
def HttpHeader.muted (h : HttpHeader) : HttpHeader := { h with name := h.name.map toLower }

theorem muted_respelled (h : HttpHeader) : Respelled h.muted h := ⟨sameLetters_lower h.name,.inl rfl⟩

theorem apply_muted (control : CacheControl) (h : HttpHeader) : control.apply config h.muted = control := by
  have hname (name : Str) (hupper : name.map toLower ≠ name) : h.muted.name ≠ name := by
    rintro rfl
    apply hupper
    exact sameLetters_lower h.name
  rw [CacheControl.apply,if_neg (hname headerCacheControl (by decide)),if_neg (hname headerExpires (by decide))]

theorem foldl_muted (control : CacheControl) (headers : List HttpHeader) :
    (headers.map HttpHeader.muted).foldl (·.apply config) control = control := by
  apply foldl_apply_kept
  intro h hh
  obtain ⟨k,-,rfl⟩ := List.mem_map.mp hh
  exact apply_muted control k

theorem forall_muted (headers : List HttpHeader) :
    List.Forall₂ Respelled (headers.map HttpHeader.muted) headers := by
  rw [List.forall₂_map_left_iff,List.forall₂_same]
  exact fun h _ => muted_respelled h

/-- Where the spelling does not matter, no spelling of any one header changes anything. -/
theorem Orderless.apply (horderless : Orderless config response ttl) (hmem : h ∈ response.headers)
    (hrespelled : Respelled h' h) :
    CacheControl.apply config ⟨requestedTtl config ttl,true⟩ h' = ⟨requestedTtl config ttl,true⟩ := by
  have hmuted : freshness config response ttl = some (requestedTtl config ttl) := by
    rw [← horderless.invariant _ ⟨_,forall_muted response.headers,List.Perm.refl _⟩,freshness_some]
    exact foldl_muted _ response.headers
  obtain ⟨front,back,hsplit⟩ := List.append_of_mem hmem
  have hforall : List.Forall₂ Respelled (front.map HttpHeader.muted++(h'::back.map HttpHeader.muted))
      response.headers := by
    rw [hsplit]
    exact List.rel_append (forall_muted front) (.cons hrespelled (forall_muted back))
  have halone := horderless.invariant _ ⟨_,hforall,List.Perm.refl _⟩
  rw [hmuted,freshness_some] at halone
  simp only [cacheControl,List.foldl_append,List.foldl_cons,foldl_muted] at halone
  exact halone

end Runs

/-- Freshness does not depend on spelling and order exactly if no header says anything, in
any spelling, that changes the lifetime that was asked for. -/
theorem orderless_iff (config : CacheConfig) (response : HttpResponse) (ttl : Option UInt32) :
    Orderless config response ttl ↔ ∀ h ∈ response.headers, Idle config (requestedTtl config ttl) h := by
  constructor
  · exact fun horderless h hmem => idle_of_apply fun h' hrespelled => horderless.apply hmem hrespelled
  · intro hidle
    have hkept : freshness config response ttl = some (requestedTtl config ttl) :=
      freshness_idle hidle ⟨_,List.forall₂_same.mpr fun h _ => ⟨rfl,.inl rfl⟩,List.Perm.refl _⟩
    constructor
    · intro headers hrearranged
      rw [hkept]
      exact freshness_idle hidle hrearranged
    · intro h hmem hcontrol hmentions
      exact absurd hmentions ((hidle h hmem).noStore hcontrol)
    · intro seconds lifetime ⟨h,hmem,hcontrol,hage⟩ _ _ hlifetime
      obtain rfl := Option.some.inj (hkept.symm.trans hlifetime)
      obtain ⟨before,after,hvalue,hparse⟩ := hage
      have hsmall : seconds < 2^32 := parseUnsigned_lt (Nat.two_pow_pos 32) hparse
      refine ⟨h,hmem,hcontrol,before,after,hvalue,?_⟩
      rw [← (hidle h hmem).maxAge hcontrol seconds ⟨before,after,hvalue,hparse⟩,UInt32.toNat_ofNat',
        Nat.mod_eq_of_lt hsmall]
      exact hparse

/-- In the letter case of HTTP/2 `no-store` is not seen, and `Expires` wins over an earlier
`max-age`. -/
theorem small_letters_stored :
    ¬Orderless {} ⟨200,[⟨ascii "cache-control".toList,noStore⟩],[]⟩ none ∧
    ¬Orderless {} ⟨200,[⟨headerCacheControl,maxAge++decimal 60⟩,⟨headerExpires,decimal 0⟩],[]⟩ none := by
  constructor
  · intro horderless
    have hcontrol : SameLetters (ascii "cache-control".toList) headerCacheControl := by decide
    have hnone := horderless.noStore _ (List.mem_cons_self ..) hcontrol (List.infix_refl _)
    exact absurd hnone (by decide)
  · intro horderless
    have hswapped := horderless.invariant [⟨headerExpires,decimal 0⟩,⟨headerCacheControl,maxAge++decimal 60⟩]
      ⟨_,List.forall₂_same.mpr fun h _ => ⟨rfl,.inl rfl⟩,List.Perm.swap ..⟩
    exact absurd hswapped (by decide)

end ZNet.Caching
