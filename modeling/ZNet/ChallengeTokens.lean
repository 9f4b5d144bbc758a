import ZNet.AuthEngine

/-!
# Challenges with a token

The value of an NTLM or Negotiate challenge is one base64 text. `parse_challenge` first
reads it as a list of parameters, where the padding looks like the equals sign behind a
name.
-/

namespace ZNet.ChallengeTokens
open TextScan Utf8Text AuthEngines

/-- The standard alphabet of base64. -/
def alphabet : Str := "ABCDEFGHIJKLMNOPQRSTUVWXYZabcdefghijklmnopqrstuvwxyz0123456789+/".toList

/-- The character of a number of six bits. -/
def sextet (n : ℕ) : Char := alphabet.getD n 'A'

/-- Base64 with the standard alphabet and padding: four characters for three bytes. -/
def standard : List UInt8 → Str
  | [] => []
  | [a] => [sextet (a.toNat/4),sextet (a.toNat%4*16),'=','=']
  | [a,b] => [sextet (a.toNat/4),sextet (a.toNat%4*16+b.toNat/16),sextet (b.toNat%16*4),'=']
  | a::b::c::rest =>
    sextet (a.toNat/4)::sextet (a.toNat%4*16+b.toNat/16)::sextet (b.toNat%16*4+c.toNat/64)::sextet (c.toNat%64)::
      standard rest

section Shape

theorem mem_alphabet {c : Char} (hc : c ∈ alphabet) : isWhitespace c = false ∧ c ≠ '=' ∧ c ≠ ',' := by
  have hall : ∀ c ∈ alphabet, isWhitespace c = false ∧ c ≠ '=' ∧ c ≠ ',' :=
    List.all_iff_forall_prop.mp (by decide)
  exact hall c hc

theorem sextet_mem (n : ℕ) : sextet n ∈ alphabet := by
  rw [sextet,List.getD_eq_getElem?_getD]
  cases hget : alphabet[n]? with
  | none => decide
  | some c => exact List.mem_of_getElem? hget

/-- Characters of the alphabet, and behind them at most two equals signs that make the
length a multiple of four. -/
theorem standard_shape (x : List UInt8) : ∃ body padding, standard x = body++padding ∧ (∀ c ∈ body, c ∈ alphabet) ∧
    (∀ c ∈ padding, c = '=') ∧ padding.length ≤ 2 ∧ (body++padding).length%4 = 0 := by
  induction x using standard.induct with
  | case1 => exact ⟨[],[],rfl,by simp,by simp,by simp,rfl⟩
  | case2 a =>
    refine ⟨[sextet (a.toNat/4),sextet (a.toNat%4*16)],['=','='],rfl,?_,by simp,by simp,by simp⟩
    simp [sextet_mem]
  | case3 a b =>
    refine ⟨[sextet (a.toNat/4),sextet (a.toNat%4*16+b.toNat/16),sextet (b.toNat%16*4)],['='],rfl,?_,by simp,by simp,
      by simp⟩
    simp [sextet_mem]
  | case4 a b c rest ih =>
    obtain ⟨body,padding,heq,hbody,hpadding,hle,hlength⟩ := ih
    refine ⟨sextet (a.toNat/4)::sextet (a.toNat%4*16+b.toNat/16)::sextet (b.toNat%16*4+c.toNat/64)::
      sextet (c.toNat%64)::body,padding,by rw [standard,heq]; rfl,?_,hpadding,hle,?_⟩
    · simpa [sextet_mem] using hbody
    · simp only [List.cons_append,List.length_cons]
      omega

theorem standard_plain {x : List UInt8} {c : Char} (hc : c ∈ standard x) : isWhitespace c = false ∧ c ≠ ',' := by
  obtain ⟨body,padding,heq,hbody,hpadding,-⟩ := standard_shape x
  rw [heq] at hc
  obtain hc|hc := List.mem_append.mp hc
  · exact ⟨(mem_alphabet (hbody c hc)).1,(mem_alphabet (hbody c hc)).2.2⟩
  · rw [hpadding c hc]
    decide

theorem standard_eq_nil {x : List UInt8} (h : standard x = []) : x = [] := by
  unfold standard at h
  split at h
  · rfl
  · cases h
  · cases h
  · cases h

end Shape

section Value

variable {before token gap after text : Str}

/-- White space has no letter case. -/
theorem toLower_space {c : Char} (hc : isWhitespace c = true) : c.toLower = c := by
  rw [isWhitespace,decide_eq_true_iff] at hc
  have hupper : ¬(c.val ≥ 'A'.val ∧ c.val ≤ 'Z'.val) := by
    intro hupper
    have hletter : 65 ≤ c.toNat ∧ c.toNat ≤ 90 := hupper
    omega
  exact dif_neg hupper

theorem token_plain {word : Str} (htoken : token.map Char.toLower = word) (hword : ∀ c ∈ word, isWhitespace c = false) :
    ∀ c ∈ token, isWhitespace c = false := by
  intro c hc
  by_contra hspace
  have hmem : c.toLower ∈ word := htoken ▸ List.mem_map_of_mem hc
  rw [toLower_space (Bool.not_eq_false _ ▸ hspace)] at hmem
  exact hspace (hword c hmem)

/-- The text is cut behind the scheme. What is left is the token, perhaps after some white
space. -/
theorem split_value (hbefore : ∀ c ∈ before, isWhitespace c = true) (hgap : ∀ c ∈ gap, isWhitespace c = true)
    (hafter : ∀ c ∈ after, isWhitespace c = true) (hne : gap ≠ []) (htoken : ∀ c ∈ token, isWhitespace c = false)
    (hfirst : token ≠ []) (htext : ∀ c ∈ text, isWhitespace c = false) :
    ∃ space, (∀ c ∈ space, isWhitespace c = true) ∧
      splitWhitespaceOnce (Utf8Text.trim (before++(token++gap++text++after))) = (token,space++text) := by
  by_cases hempty : text = []
  · -- the white space between them ends the value and is trimmed
    subst hempty
    have htrim : Utf8Text.trim (before++(token++(gap++after))) = token := by
      apply trim_plain hbefore _ htoken
      exact fun c hc => (List.mem_append.mp hc).elim (hgap c) (hafter c)
    refine ⟨[],List.forall_mem_nil _,?_⟩
    rw [List.append_nil,List.append_assoc token,htrim,splitWhitespaceOnce_word htoken]
    rfl
  · obtain ⟨g,gap,rfl⟩ := List.exists_cons_of_ne_nil hne
    rw [List.forall_mem_cons] at hgap
    have htrim : Utf8Text.trim (before++((token++g::gap++text)++after)) = token++g::gap++text := by
      apply trim_spaces hbefore hafter
      · intro c hc
        rw [List.append_assoc,List.head?_append_of_ne_nil _ hfirst] at hc
        exact htoken c (List.mem_of_mem_head? hc)
      · intro c hc
        rw [List.getLast?_append_of_ne_nil _ hempty] at hc
        exact htext c (List.mem_of_getLast? hc)
      · simp
    refine ⟨gap,hgap.2,?_⟩
    rw [htrim,List.append_assoc,List.cons_append]
    exact splitWhitespaceOnce_append_cons htoken hgap.1 _

/-- The padding is not taken for the value of a realm: what stands before it has another
length than the word. -/
theorem parseRealm_standard {space : Str} (hspace : ∀ c ∈ space, isWhitespace c = true) (x : List UInt8) :
    parseRealm (space++standard x) = none := by
  have hcomma : ',' ∉ space++standard x := by
    intro hmem
    obtain hmem|hmem := List.mem_append.mp hmem
    · exact absurd (hspace _ hmem) (by decide)
    · exact (standard_plain hmem).2 rfl
  have htrim : Utf8Text.trim (space++standard x) = standard x := by
    have h := trim_plain hspace (List.forall_mem_nil _) fun c hc => (standard_plain (x:=x) hc).1
    rwa [List.append_nil] at h
  obtain ⟨body,padding,heq,hbody,hpadding,hle,hlength⟩ := standard_shape x
  have hequals : '=' ∉ body := fun hmem => (mem_alphabet (hbody _ hmem)).2.1 rfl
  rw [parseRealm,List.splitOn_eq_singleton hcomma,List.foldl_cons,List.foldl_nil,htrim,heq]
  cases padding with
  | nil =>
    rw [List.append_nil,splitOnce,if_neg hequals]
  | cons c padding =>
    obtain ⟨rfl,-⟩ := List.forall_mem_cons.mp hpadding
    have hkey : (Utf8Text.trim body).map Char.toLower ≠ "realm".toList := by
      have htrim_body := trim_plain (List.forall_mem_nil _) (List.forall_mem_nil _)
        fun c hc => (mem_alphabet (hbody c hc)).1
      rw [List.append_nil,List.nil_append] at htrim_body
      intro hkey
      have hlen := congrArg List.length hkey
      rw [htrim_body,List.length_map] at hlen
      have hword : "realm".toList.length = 5 := rfl
      simp only [List.length_append,List.length_cons] at hlength hle
      omega
    rw [splitOnce_append_cons hequals]
    exact if_neg hkey

theorem head_tokens {space : Str} (hspace : ∀ c ∈ space, isWhitespace c = true) (x : List UInt8) :
    (tokenizeAny isWhitespace (space++standard x)).head? = if standard x = [] then none else some (standard x) := by
  rw [tokenizeAny_spaces hspace]
  split
  · rename_i hempty
    rw [hempty,tokenizeAny_nil]
    rfl
  · rename_i hne
    rw [tokenizeAny_word (fun c hc => (standard_plain hc).1) hne]
    rfl

end Value

/-- What `parse_challenge` makes of a scheme that it knows and a token, if the library
decodes the text of the token. -/
theorem parseChallenge_standard {base64 : Base64} {x : List UInt8} (hdecode : base64.decode (standard x) = some x)
    (header : AuthHeader) {before token gap after word : Str} {scheme : AuthScheme}
    (hbefore : ∀ c ∈ before, isWhitespace c = true) (hgap : ∀ c ∈ gap, isWhitespace c = true)
    (hafter : ∀ c ∈ after, isWhitespace c = true) (hne : gap ≠ []) (htoken : token.map Char.toLower = word)
    (hword : ∀ c ∈ word, isWhitespace c = false) (hfirst : word ≠ []) (hscheme : AuthScheme.parse token = scheme)
    (hpayload : scheme = .negotiate ∨ scheme = .ntlm) :
    parseChallenge base64 header (before++(token++gap++standard x++after)) = some ⟨scheme,none,x,header⟩ := by
  have htoken_ne : token ≠ [] := by
    rintro rfl
    exact hfirst htoken.symm
  obtain ⟨space,hspace,hsplit⟩ := split_value hbefore hgap hafter hne (token_plain htoken hword) htoken_ne
    fun c hc => (standard_plain (x:=x) hc).1
  rw [parseChallenge,hsplit]
  simp only [hscheme,if_pos hpayload,parseRealm_standard hspace]
  split
  · rename_i text htext
    rw [head_tokens hspace] at htext
    have hsame : standard x = text := Option.some.inj (Option.ite_none_left_eq_some.mp htext).2
    rw [← hsame,hdecode]
    rfl
  · rename_i hnone
    rw [head_tokens hspace] at hnone
    have hempty : standard x = [] := by simpa using hnone
    rw [standard_eq_nil hempty]

/-- Challenges of NTLM and Negotiate come back as they were written: the scheme in any
letter case, with any white space around it and around the token, and the bytes whose
standard base64 the token is. There is no realm, whatever the padding. -/
theorem parseChallenge_token (base64 : Base64) (x : List UInt8) (hdecode : base64.decode (standard x) = some x)
    (header : AuthHeader) (before token gap after : Str)
    (hbefore : ∀ c ∈ before, isWhitespace c = true) (hgap : ∀ c ∈ gap, isWhitespace c = true)
    (hafter : ∀ c ∈ after, isWhitespace c = true) (hne : gap ≠ []) :
    (token.map Char.toLower = "ntlm".toList →
      parseChallenge base64 header (before++(token++gap++standard x++after)) = some ⟨.ntlm,none,x,header⟩) ∧
    (token.map Char.toLower = "negotiate".toList →
      parseChallenge base64 header (before++(token++gap++standard x++after)) = some ⟨.negotiate,none,x,header⟩) := by
  constructor
  · intro htoken
    have hword : ∀ c ∈ "ntlm".toList, isWhitespace c = false := List.all_iff_forall_prop.mp (by decide)
    apply parseChallenge_standard hdecode header hbefore hgap hafter hne htoken hword (by decide) _ (.inr rfl)
    rw [AuthScheme.parse,htoken]
    decide
  · intro htoken
    have hword : ∀ c ∈ "negotiate".toList, isWhitespace c = false := List.all_iff_forall_prop.mp (by decide)
    apply parseChallenge_standard hdecode header hbefore hgap hafter hne htoken hword (by decide) _ (.inl rfl)
    rw [AuthScheme.parse,htoken]
    decide

/-- An engine that decodes the text of the two bytes `hi`. -/
def decodesHi : Base64 := ⟨fun _ => [],fun text => if text = "aGk=".toList then some [104,105] else none⟩

theorem parseChallenge_token_hi :
    parseChallenge decodesHi .proxyAuthorization (" nTlM aGk=\t".toList) =
      some ⟨.ntlm,none,[104,105],.proxyAuthorization⟩ ∧
    parseChallenge decodesHi .authorization ("Negotiate  aGk=".toList) =
      some ⟨.negotiate,none,[104,105],.authorization⟩ := by
  have hblank : ∀ c ∈ [' '], isWhitespace c = true := List.all_iff_forall_prop.mp (by decide)
  have hblanks : ∀ c ∈ [' ',' '], isWhitespace c = true := List.all_iff_forall_prop.mp (by decide)
  have htab : ∀ c ∈ ['\t'], isWhitespace c = true := List.all_iff_forall_prop.mp (by decide)
  constructor
  · exact (parseChallenge_token decodesHi [104,105] (by decide) .proxyAuthorization [' '] "nTlM".toList [' '] ['\t']
      hblank hblank htab (by decide)).1 (by decide)
  · exact (parseChallenge_token decodesHi [104,105] (by decide) .authorization [] "Negotiate".toList [' ',' '] []
      (List.forall_mem_nil _) hblanks (List.forall_mem_nil _) (by decide)).2 (by decide)

end ZNet.ChallengeTokens
