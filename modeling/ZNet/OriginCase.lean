import ZNet.Origin
import ZNet.LetterCase

/-!
# Letter case of origins

A URL with its scheme and host written in other letter case is parsed to the origin in that
case. `Origin.lower` is what all of these have in common.
-/

namespace ZNet.Origins
open TextScan

def Origin.lower (self : Origin) : Origin := ⟨self.scheme.map toLower,self.host.map toLower,self.port⟩

/-- The second URL is the first one with another case of letters in its scheme and host. -/
inductive CaseVariant : List UInt8 → List UInt8 → Prop
  | refl (url : List UInt8) : CaseVariant url url
  | respell {scheme scheme' host host' rest : List UInt8}
      (hfirst : indexOf schemeEnd (scheme++schemeEnd++(host++rest)) = some scheme.length) (hslash : slash ∉ host)
      (hscheme : SameLetters scheme scheme') (hhost : SameLetters host host') :
      CaseVariant (scheme++schemeEnd++(host++rest)) (scheme'++schemeEnd++(host'++rest))

/-- Scheme and host are without letters. -/
def Origin.Letterless (self : Origin) : Prop :=
  (∀ b ∈ self.scheme, isLetter b = false) ∧ ∀ b ∈ self.host, isLetter b = false

instance (origin : Origin) : Decidable origin.Letterless :=
  inferInstanceAs (Decidable ((∀ b ∈ origin.scheme, isLetter b = false) ∧ ∀ b ∈ origin.host, isLetter b = false))

theorem lower_schemeEnd : ∀ c ∈ schemeEnd, ∀ b, toLower b = c ↔ b = c := by
  intro c hc
  have hletter : ∀ c ∈ schemeEnd, isLetter c = false := by decide +kernel
  exact toLower_eq_iff (hletter c hc)

theorem lower_slash (b : UInt8) : toLower b = slash ↔ b = slash := toLower_eq_iff (by decide) b

theorem lower_colon (b : UInt8) : toLower b = colon ↔ b = colon := toLower_eq_iff (by decide) b

theorem hostPort_lower (url : List UInt8) (n : ℕ) : hostPort (url.map toLower) n = (hostPort url n).map toLower := by
  have hsame : (fun b => decide (b ≠ slash))∘toLower = fun b => decide (b ≠ slash) := by
    funext b
    simp [lower_slash]
  rw [hostPort,hostPort,← List.map_drop,List.takeWhile_map,hsame]

theorem parse_lower (url : List UInt8) : Origin.parse (url.map toLower) = (Origin.parse url).map Origin.lower := by
  have htwice : ∀ s : List UInt8, (s.map toLower).map toLower = s.map toLower := sameLetters_lower
  rw [Origin.parse,Origin.parse,indexOf_map lower_schemeEnd]
  cases indexOf schemeEnd url with
  | none => rfl
  | some n =>
    simp only [hostPort_lower,lastIndexOfScalar_map lower_colon,← List.map_take,htwice]
    cases lastIndexOfScalar colon (hostPort url (n+3)) with
    | none =>
      cases defaultPort ((url.take n).map toLower) with
      | none => rfl
      | some port => rfl
    | some i =>
      simp only [← List.map_drop,parseUnsigned_lower]
      cases parseUnsigned 65536 ((hostPort url (n+3)).drop (i+1)) with
      | none => rfl
      | some port => rfl

/-- The parts of a URL that is parsed. -/
theorem parse_shape {url : List UInt8} {origin : Origin} (h : Origin.parse url = .ok origin) :
    indexOf schemeEnd url = some origin.scheme.length ∧ slash ∉ origin.host ∧
    ∃ rest, url = origin.scheme++schemeEnd++(origin.host++rest) := by
  have hslash : ∀ n, slash ∉ hostPort url n := by
    intro n hmem
    simpa using List.mem_takeWhile_imp hmem
  rw [Origin.parse] at h
  cases hindex : indexOf schemeEnd url with
  | none =>
    rw [hindex] at h
    cases h
  | some n =>
    obtain ⟨hcut,hle,-⟩ := indexOf_some hindex
    have hscheme : (url.take n).length = n := by rw [List.length_take,Nat.min_eq_left hle]
    obtain ⟨rest,hrest⟩ : ∃ rest, url.drop (n+3) = hostPort url (n+3)++rest :=
      ⟨_,(List.takeWhile_append_dropWhile ..).symm⟩
    have hlen : schemeEnd.length = 3 := rfl
    rw [hlen,hrest] at hcut
    simp only [hindex] at h
    split at h
    · split at h
      · cases h
        exact ⟨congrArg some hscheme.symm,hslash _,rest,hcut⟩
      · cases h
    · rename_i i _
      split at h
      · cases h
        refine ⟨congrArg some hscheme.symm,fun hmem => hslash _ (List.mem_of_mem_take hmem),
          (hostPort url (n+3)).drop i++rest,?_⟩
        rw [← List.append_assoc ((hostPort url (n+3)).take i),List.take_append_drop]
        exact hcut
      · cases h

/-- The host of an origin is not a URL. -/
theorem parse_host {url : List UInt8} {origin : Origin} (h : Origin.parse url = .ok origin) :
    Origin.parse origin.host = .error .invalidUrl := by
  rw [Origin.parse]
  cases hindex : indexOf schemeEnd origin.host with
  | none => rfl
  | some n =>
    have hmem : slash ∈ origin.host := by
      rw [(indexOf_some hindex).1]
      simp [schemeEnd,slash]
    exact ((parse_shape h).2.1 hmem).elim

theorem CaseVariant.sameLetters {url url' : List UInt8} (h : CaseVariant url url') : SameLetters url url' := by
  cases h with
  | refl => rfl
  | respell hfirst hslash hscheme hhost =>
    simp only [SameLetters,List.map_append]
    rw [show _ = _ from hscheme,show _ = _ from hhost]

/-- Variants of a URL have the same error or origins with the same letters. -/
theorem CaseVariant.parse_eq {url url' : List UInt8} (h : CaseVariant url url') :
    (Origin.parse url').map Origin.lower = (Origin.parse url).map Origin.lower := by
  rw [← parse_lower,← parse_lower,show url.map toLower = _ from h.sameLetters]

/-- Every way to write the scheme and the host is that of a variant. -/
theorem exists_variant {url : List UInt8} {origin : Origin} (h : Origin.parse url = .ok origin)
    {origin' : Origin} (hlower : origin'.lower = origin.lower) :
    ∃ url', CaseVariant url url' ∧ Origin.parse url' = .ok origin' := by
  obtain ⟨hfirst,hslash,rest,hurl⟩ := parse_shape h
  have hscheme : SameLetters origin.scheme origin'.scheme := (congrArg Origin.scheme hlower).symm
  have hhost : SameLetters origin.host origin'.host := (congrArg Origin.host hlower).symm
  have hvariant : CaseVariant url (origin'.scheme++schemeEnd++(origin'.host++rest)) := by
    rw [hurl] at hfirst ⊢
    exact .respell hfirst hslash hscheme hhost
  refine ⟨_,hvariant,?_⟩
  have heq := hvariant.parse_eq
  rw [h] at heq
  cases hparse : Origin.parse (origin'.scheme++schemeEnd++(origin'.host++rest)) with
  | error e =>
    rw [hparse] at heq
    cases heq
  | ok found =>
    rw [hparse] at heq
    have hfound : found.lower = origin.lower := Except.ok.inj heq
    obtain ⟨-,-,rest',hcut⟩ := parse_shape hparse
    have hsame : SameLetters found.scheme origin'.scheme := (congrArg Origin.scheme hfound).trans hscheme
    have hsame' : SameLetters found.host origin'.host := (congrArg Origin.host hfound).trans hhost
    rw [List.append_assoc,List.append_assoc] at hcut
    obtain ⟨hs,hrest⟩ := List.append_inj hcut hsame.length_eq.symm
    obtain ⟨hh,-⟩ := List.append_inj (List.append_cancel_left hrest) hsame'.length_eq.symm
    have hport : found.port = origin'.port := by
      have hp := congrArg Origin.port hfound
      have hp' := congrArg Origin.port hlower
      exact hp.trans hp'.symm
    cases found
    cases origin'
    cases hs
    cases hh
    cases hport
    rfl

/-- An origin without letters is the only one with its letters. -/
theorem Origin.Letterless.eq {origin origin' : Origin} (h : origin.Letterless) (hlower : origin'.lower = origin.lower) :
    origin' = origin := by
  have hscheme := SameLetters.eq_of_letterless h.1 (congrArg Origin.scheme hlower)
  have hhost := SameLetters.eq_of_letterless h.2 (congrArg Origin.host hlower)
  have hport : origin'.lower.port = origin.lower.port := congrArg Origin.port hlower
  cases origin
  cases origin'
  cases hscheme
  cases hhost
  cases hport
  rfl

/-- Any other origin can be written in another way. -/
theorem exists_other {origin : Origin} (h : ¬origin.Letterless) :
    ∃ origin' : Origin, origin' ≠ origin ∧ origin'.lower = origin.lower := by
  by_contra hnone
  have hall : ∀ origin' : Origin, origin'.lower = origin.lower → origin' = origin := by
    intro origin' hlower
    by_contra hne
    exact hnone ⟨origin',hne,hlower⟩
  have hlow : origin.lower = origin := by
    apply hall
    rw [Origin.lower,Origin.lower,sameLetters_lower,sameLetters_lower]
  have hup : (⟨origin.scheme.map toUpper,origin.host.map toUpper,origin.port⟩ : Origin) = origin := by
    apply hall
    rw [Origin.lower,Origin.lower,sameLetters_upper,sameLetters_upper]
  have hsame := hlow.trans hup.symm
  exact h ⟨letterless_of_map (congrArg Origin.scheme hsame),letterless_of_map (congrArg Origin.host hsame)⟩

end ZNet.Origins
