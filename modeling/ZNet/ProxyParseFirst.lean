import ZNet.ProxyRules
import ZNet.Utf8Text

/-!
# The first rule of a PAC result, as the engine reads it

`znet_proxy_parse_first` goes through all parts of a PAC result, and what a part with a
keyword says replaces what was found before it.
-/

namespace ZNet.ProxyParseFirst
open TextScan ProxyConfigs ProxyRules Utf8Text

/-- The text that the bytes of a C string are decoded to. -/
abbrev Str := List Char

structure ProxyRule where
  scheme : Scheme
  host : Str
  port : UInt16
deriving DecidableEq

structure CProxyHop where
  scheme : ℕ
  host : Str
  port : UInt16
  authHeader : Option Str
deriving DecidableEq

def schemeCode : Scheme → ℕ
  | .direct => 0
  | .http => 1
  | .socks5 => 2
  | .socks4 => 3

def ProxyRule.toHop (rule : ProxyRule) : CProxyHop := ⟨schemeCode rule.scheme,rule.host,rule.port,none⟩

/-- The digits of a number below 2^16, and nothing else. -/
def parsePortDigits : ℕ → Str → Option ℕ
  | acc,[] => some acc
  | acc,c::cs =>
    if c.isDigit then
      if acc*10+(c.toNat- '0'.toNat) < 65536 then parsePortDigits (acc*10+(c.toNat- '0'.toNat)) cs else none
    else none

/-- `parse::<u16>`, which allows a plus sign. -/
def parsePort (s : Str) : Option UInt16 :=
  let digits := match s with
    | '+'::rest => rest
    | _ => s
  if digits = [] then none else (parsePortDigits 0 digits).map UInt16.ofNat

def stripPrefix (word s : Str) : Option Str := if word.isPrefixOf s then some (s.drop word.length) else none

def parseHostPort (s : Str) (scheme : Scheme) : Option ProxyRule :=
  let s := Utf8Text.trim s
  match lastIndexOfScalar ':' s with
  | none => none
  | some colon => (parsePort (s.drop (colon+1))).map fun port => ⟨scheme,s.take colon,port⟩

def proxyWord : Str := ['P','R','O','X','Y',' ']
def socks5Word : Str := ['S','O','C','K','S','5',' ']
def socks4Word : Str := ['S','O','C','K','S','4',' ']
def directWord : Str := ['D','I','R','E','C','T']

/-- One turn of the loop: what is found after a part. -/
def turn (found : Option ProxyRule) (part : Str) : Option ProxyRule :=
  let p := Utf8Text.trim part
  match stripPrefix proxyWord p with
  | some rest => parseHostPort rest .http
  | none => match stripPrefix socks5Word p with
    | some rest => parseHostPort rest .socks5
    | none => match stripPrefix socks4Word p with
      | some rest => parseHostPort rest .socks4
      | none => if p = directWord then some ⟨.direct,[],0⟩ else found

/-- The hop that is written to `out`; without one the result is `-1`. The bytes of the C string
are decoded first. -/
def znetProxyParseFirst (rule : List UInt8) : Option CProxyHop :=
  (((fromUtf8Lossy rule).splitOn ';').foldl turn none).map ProxyRule.toHop

/-- A part is stated if it is `DIRECT` or begins with a keyword. -/
def Stated (part : Str) : Prop :=
  proxyWord <+: Utf8Text.trim part ∨ socks5Word <+: Utf8Text.trim part ∨ socks4Word <+: Utf8Text.trim part ∨
    Utf8Text.trim part = directWord

instance (part : Str) : Decidable (Stated part) := inferInstanceAs (Decidable (_ ∨ _ ∨ _ ∨ _))

/-- The rule of a part on its own, if it is a rule. -/
def ruleOf (part : Str) : Option ProxyRule := turn none part

/-- The rule of the first part that is one. -/
def firstParsable (rule : List UInt8) : Option ProxyRule := ((fromUtf8Lossy rule).splitOn ';').findSome? ruleOf

def statedParts (rule : List UInt8) : List Str := ((fromUtf8Lossy rule).splitOn ';').filter (Stated ·)

section Loop

/-- A stated part replaces what was found, another part leaves it. -/
theorem turn_eq (found : Option ProxyRule) (part : Str) : turn found part = if Stated part then ruleOf part else found := by
  simp only [turn,ruleOf,stripPrefix,Stated,List.isPrefixOf_iff_prefix]
  split_ifs <;> simp_all

theorem ruleOf_eq_none {part : Str} (h : ¬Stated part) : ruleOf part = none := by
  rw [ruleOf,turn_eq,if_neg h]

/-- The loop ends with the rule of the last stated part. -/
theorem foldl_turn (parts : List Str) (found : Option ProxyRule) :
    parts.foldl turn found = ((parts.filter (Stated ·)).getLast?.map ruleOf).getD found := by
  induction parts generalizing found with
  | nil => rfl
  | cons part parts ih =>
    rw [List.foldl_cons,ih,turn_eq]
    by_cases h : Stated part
    · rw [if_pos h,List.filter_cons_of_pos (by simpa using h),List.getLast?_cons]
      cases (parts.filter (Stated ·)).getLast? <;> rfl
    · rw [if_neg h,List.filter_cons_of_neg (by simpa using h)]

theorem toHop_injective {r r' : ProxyRule} (h : r.toHop = r'.toHop) : r = r' := by
  obtain ⟨scheme,host,port⟩ := r
  obtain ⟨scheme',host',port'⟩ := r'
  simp only [ProxyRule.toHop,CProxyHop.mk.injEq] at h
  obtain ⟨hscheme,rfl,rfl,-⟩ := h
  have hsame : scheme = scheme' := by
    cases scheme <;> cases scheme' <;> first | rfl | cases hscheme
  rw [hsame]

/-- The hop of the first parsable part is written exactly if the last stated part, where
there is one, has the same rule. -/
theorem parseFirst_eq_iff (rule : List UInt8) :
    znetProxyParseFirst rule = (firstParsable rule).map ProxyRule.toHop ↔
      ∀ last ∈ (statedParts rule).getLast?, ruleOf last = firstParsable rule := by
  rw [znetProxyParseFirst,foldl_turn,Option.map_inj_right (fun _ _ => toHop_injective),statedParts]
  cases hlast : (((fromUtf8Lossy rule).splitOn ';').filter (Stated ·)).getLast? with
  | none =>
    have hnone : firstParsable rule = none := by
      rw [firstParsable,List.findSome?_eq_none_iff]
      intro part hpart
      apply ruleOf_eq_none
      intro hstated
      rw [List.getLast?_eq_none_iff,List.filter_eq_nil_iff] at hlast
      exact hlast part hpart (by simpa using hstated)
    simp [hnone]
  | some last => simp

end Loop

def word : Keyword → Str
  | .proxy => proxyWord
  | .socks5 => socks5Word
  | .socks4 => socks4Word

/-- The address as it is decoded. -/
def addressText (a : Address) : Str := fromUtf8Lossy a.host++ ':'::Nat.toDigits 10 a.port.toNat

/-- The rule as it is decoded, with its keyword in upper case. -/
def ruleText : Rule → Str
  | .direct => directWord
  | .proxy keyword address => word keyword++addressText address

/-- What the engine reads: the host without the white space in front of it. -/
def parsed : Rule → ProxyRule
  | .direct => ⟨.direct,[],0⟩
  | .proxy keyword address => ⟨keyword.scheme,trimStart (fromUtf8Lossy address.host),address.port⟩

/-- The rule in bytes, with its keyword in upper case. -/
def upperCase : Rule → Text
  | .direct => directKeyword
  | .proxy keyword address => keyword.text++address.text

/-- A part of a list of rules in upper case: a rule between blanks. -/
def WrittenUpper (rule : Rule) (part : Text) : Prop :=
  ∃ left right, (∀ b ∈ left, b ∈ blanks) ∧ (∀ b ∈ right, b ∈ blanks) ∧ part = left++(upperCase rule++right)

/-- Two rules with the same scheme, host and port, the second as the engine reads it. -/
def ReadsAs : Rule → Rule → Prop
  | .direct,.direct => True
  | .proxy keyword a,.proxy keyword' a' =>
    keyword = keyword' ∧ a.host = utf8 (trimStart (fromUtf8Lossy a'.host)) ∧ a.port = a'.port
  | _,_ => False

/-- The hop that is written is the one of the other parser, where no hop is `DIRECT`. -/
def SameHop : Option CProxyHop → Option ProxyHop → Prop
  | none,_ => False
  | some c,none => c.scheme = schemeCode .direct
  | some c,some hop => c.scheme = schemeCode hop.scheme ∧ utf8 c.host = hop.host ∧ c.port = hop.port

section Bytes

variable {rule : Rule} {part : Text}

theorem spelled_upperCase (rule : Rule) : rule.Spelled (upperCase rule) := by
  cases rule with
  | direct => exact .direct
  | proxy keyword address => exact .proxy keyword address rfl

theorem WrittenUpper.written (h : WrittenUpper rule part) : rule.Written part := by
  obtain ⟨left,right,hleft,hright,rfl⟩ := h
  exact ⟨left,upperCase rule,right,spelled_upperCase rule,hleft,hright,rfl⟩

/-- ASCII bytes at the front are decoded as they are. -/
theorem fromUtf8Lossy_ascii {s : Str} (hs : ∀ c ∈ s, c.toNat < 128) (bytes : Text) :
    fromUtf8Lossy (ascii s++bytes) = s++fromUtf8Lossy bytes := by
  rw [← utf8_ascii hs,fromUtf8Lossy_append]

theorem blanks_ascii {s : Text} (hs : ∀ b ∈ s, b ∈ blanks) : ∃ t : Str, (∀ c ∈ t, c = ' ' ∨ c = '\t') ∧ s = ascii t := by
  induction s with
  | nil => exact ⟨[],nofun,rfl⟩
  | cons b s ih =>
    obtain ⟨hb,hrest⟩ := List.forall_mem_cons.mp hs
    obtain ⟨t,ht,rfl⟩ := ih hrest
    have hcases : b = 0x20 ∨ b = 0x09 := by simpa [blanks,ascii] using hb
    rcases hcases with rfl|rfl
    · exact ⟨' '::t,List.forall_mem_cons.mpr ⟨.inl rfl,ht⟩,rfl⟩
    · exact ⟨'\t'::t,List.forall_mem_cons.mpr ⟨.inr rfl,ht⟩,rfl⟩

theorem blanks_small {s : Str} (hs : ∀ c ∈ s, c = ' ' ∨ c = '\t') : ∀ c ∈ s, c.toNat < 128 := by
  intro c hc
  rcases hs c hc with rfl|rfl <;> decide

theorem word_small (keyword : Keyword) : ∀ c ∈ word keyword, c.toNat < 128 := by
  cases keyword <;> exact List.all_iff_forall_prop.mp (by decide)

theorem digits_small (n : ℕ) : ∀ c ∈ Nat.toDigits 10 n, c.toNat < 128 := by
  intro c hc
  have hrange := toDigits_range hc
  omega

/-- A rule is decoded to its text, and what follows it to its own. -/
theorem fromUtf8Lossy_upperCase (rule : Rule) (rest : Text) :
    fromUtf8Lossy (upperCase rule++rest) = ruleText rule++fromUtf8Lossy rest := by
  cases rule with
  | direct => exact fromUtf8Lossy_ascii (s:=directWord) (List.all_iff_forall_prop.mp (by decide)) rest
  | proxy keyword address =>
    have hword : keyword.text = ascii (word keyword) := by cases keyword <;> rfl
    have hcolon : fromUtf8Lossy (address.host++(0x3a::(decimal address.port.toNat++rest))) =
        fromUtf8Lossy address.host++ ':'::fromUtf8Lossy (decimal address.port.toNat++rest) :=
      fromUtf8Lossy_append_ascii (c:= ':') (by decide) address.host _
    have hdigits : fromUtf8Lossy (decimal address.port.toNat++rest) =
        Nat.toDigits 10 address.port.toNat++fromUtf8Lossy rest := fromUtf8Lossy_ascii (digits_small _) rest
    rw [upperCase,ruleText,addressText,Address.text,hword,List.append_assoc,List.append_assoc,
      fromUtf8Lossy_ascii (word_small keyword),List.cons_append,hcolon,hdigits]
    simp

/-- A part is decoded to the text of its rule between blanks. -/
theorem WrittenUpper.decoded (h : WrittenUpper rule part) : ∃ left right : Str, (∀ c ∈ left, c = ' ' ∨ c = '\t') ∧
    (∀ c ∈ right, c = ' ' ∨ c = '\t') ∧ fromUtf8Lossy part = left++(ruleText rule++right) := by
  obtain ⟨before,after,hbefore,hafter,rfl⟩ := h
  obtain ⟨left,hleft,rfl⟩ := blanks_ascii hbefore
  obtain ⟨right,hright,rfl⟩ := blanks_ascii hafter
  refine ⟨left,right,hleft,hright,?_⟩
  have hend : fromUtf8Lossy (ascii right) = right := by
    rw [← utf8_ascii (blanks_small hright),fromUtf8Lossy_utf8]
  rw [fromUtf8Lossy_ascii (blanks_small hleft),fromUtf8Lossy_upperCase,hend]

/-- A list of rules is decoded part by part. -/
theorem splitOn_joinRules_decoded {parts : List Text} (hne : parts ≠ []) (hplain : ∀ part ∈ parts, 0x3b ∉ part) :
    (fromUtf8Lossy (joinRules parts)).splitOn ';' = parts.map fromUtf8Lossy := by
  have hjoin : ∀ parts : List Text, fromUtf8Lossy (joinRules parts) = [';'].intercalate (parts.map fromUtf8Lossy) := by
    intro parts
    induction parts with
    | nil => exact fromUtf8Lossy_utf8 []
    | cons part parts ih =>
      cases parts with
      | nil => simp [joinRules]
      | cons part' parts =>
        have hbytes : joinRules (part::part'::parts) = part++0x3b::joinRules (part'::parts) := by
          simp [joinRules,List.intercalate]
        have hcut := fromUtf8Lossy_append_ascii (c:= ';') (by decide) part (joinRules (part'::parts))
        rw [ih] at hcut
        rw [hbytes]
        simpa [List.intercalate] using hcut
  rw [hjoin,List.splitOn_intercalate]
  · intro text htext
    obtain ⟨part,hpart,rfl⟩ := List.mem_map.mp htext
    exact fun hmem => hplain part hpart (mem_of_mem_fromUtf8Lossy (c:= ';') (by decide) hmem)
  · simpa using hne

end Bytes

section Parse

theorem parsePortDigits_digits {cs : Str} (hcs : ∀ c ∈ cs, c.isDigit = true) (acc : ℕ)
    (h : Nat.ofDigitChars 10 cs acc < 65536) : parsePortDigits acc cs = some (Nat.ofDigitChars 10 cs acc) := by
  induction cs generalizing acc with
  | nil => rfl
  | cons c cs ih =>
    obtain ⟨hc,hrest⟩ := List.forall_mem_cons.mp hcs
    have hle := le_ofDigitChars cs (10*acc+(c.toNat- '0'.toNat))
    rw [Nat.ofDigitChars_cons] at h ⊢
    rw [parsePortDigits,if_pos hc,Nat.mul_comm,if_pos (by omega)]
    exact ih hrest _ h

theorem parsePort_toDigits (n : ℕ) :
    parsePort (Nat.toDigits 10 n) = (parsePortDigits 0 (Nat.toDigits 10 n)).map UInt16.ofNat := by
  have hdigit : ∀ c ∈ Nat.toDigits 10 n, c.isDigit = true :=
    fun c => Nat.isDigit_of_mem_toDigits (by decide) (by decide)
  cases hdigits : Nat.toDigits 10 n with
  | nil => exact absurd hdigits Nat.toDigits_ne_nil
  | cons c cs =>
    rw [hdigits] at hdigit
    have hplus : c ≠ '+' := by
      rintro rfl
      exact absurd (hdigit '+' (List.mem_cons_self ..)) (by decide)
    rw [parsePort]
    · simp
    · intro rest h
      exact hplus (List.cons.inj h).1

theorem parsePort_digits (port : UInt16) : parsePort (Nat.toDigits 10 port.toNat) = some port := by
  have hdigit : ∀ c ∈ Nat.toDigits 10 port.toNat, c.isDigit = true :=
    fun c => Nat.isDigit_of_mem_toDigits (by decide) (by decide)
  have hvalue := Nat.ofDigitChars_toDigits (b:=10) (n:=port.toNat) (by decide) (by decide)
  have hread := parsePortDigits_digits hdigit 0 (hvalue.trans_lt port.toNat_lt)
  rw [parsePort_toDigits,hread,hvalue]
  simp

theorem digit_not_space {c : Char} (h : c.isDigit = true) : isWhitespace c = false := by
  rw [Char.isDigit,Bool.and_eq_true,decide_eq_true_iff,decide_eq_true_iff] at h
  have hrange : 0x30 ≤ c.toNat ∧ c.toNat ≤ 0x39 := h
  rw [isWhitespace,decide_eq_false_iff_not]
  omega

/-- A text that ends with a number does not end with white space. -/
theorem digits_last (s : Str) (n : ℕ) : ∀ c ∈ (s++Nat.toDigits 10 n).getLast?, isWhitespace c = false := by
  intro c hc
  rw [List.getLast?_append_of_ne_nil _ Nat.toDigits_ne_nil] at hc
  exact digit_not_space (Nat.isDigit_of_mem_toDigits (by decide) (by decide) (List.mem_of_getLast? hc))

/-- White space in front of an address is in front of its host. -/
theorem trim_addressText (a : Address) :
    Utf8Text.trim (addressText a) = trimStart (fromUtf8Lossy a.host)++ ':'::Nat.toDigits 10 a.port.toNat := by
  have hcolon : (':'::Nat.toDigits 10 a.port.toNat).dropWhile isWhitespace = ':'::Nat.toDigits 10 a.port.toNat :=
    List.dropWhile_cons_of_neg (by decide)
  have hstart : trimStart (addressText a) = trimStart (fromUtf8Lossy a.host)++ ':'::Nat.toDigits 10 a.port.toNat := by
    rw [trimStart,trimStart,addressText,List.dropWhile_append,hcolon]
    split_ifs with hempty
    · rw [List.isEmpty_iff.mp hempty,List.nil_append]
    · rfl
  rw [Utf8Text.trim,hstart,List.rdropWhile_eq_self_iff]
  intro hne
  have hlast := digits_last (trimStart (fromUtf8Lossy a.host)++[':']) a.port.toNat
  rw [List.append_assoc,List.singleton_append,List.getLast?_eq_some_getLast hne] at hlast
  simpa using hlast _ rfl

theorem parseHostPort_address (a : Address) (scheme : Scheme) :
    parseHostPort (addressText a) scheme = some ⟨scheme,trimStart (fromUtf8Lossy a.host),a.port⟩ := by
  have hcolon : ':' ∉ Nat.toDigits 10 a.port.toNat := by
    intro h
    exact absurd (Nat.isDigit_of_mem_toDigits (by decide) (by decide) h) (by decide)
  have hindex := lastIndexOfScalar_append (s:=trimStart (fromUtf8Lossy a.host)) hcolon
  have hdrop : (trimStart (fromUtf8Lossy a.host)++ ':'::Nat.toDigits 10 a.port.toNat).drop
      ((trimStart (fromUtf8Lossy a.host)).length+1) = Nat.toDigits 10 a.port.toNat := by simp [List.drop_append]
  have htake : (trimStart (fromUtf8Lossy a.host)++ ':'::Nat.toDigits 10 a.port.toNat).take
      (trimStart (fromUtf8Lossy a.host)).length = trimStart (fromUtf8Lossy a.host) := List.take_left' rfl
  simp only [parseHostPort,trim_addressText,hindex,hdrop,htake,parsePort_digits,Option.map_some]

variable {rule : Rule} {part : Text}

theorem ruleText_ne_nil (rule : Rule) : ruleText rule ≠ [] := by
  cases rule with
  | direct => decide
  | proxy keyword address => simp [ruleText,addressText]

theorem ruleText_first (rule : Rule) : ∀ c ∈ (ruleText rule).head?, isWhitespace c = false := by
  cases rule with
  | direct =>
    intro c hc
    obtain rfl : 'D' = c := Option.some.inj hc
    decide
  | proxy keyword address =>
    cases keyword <;> simp [ruleText,word,proxyWord,socks5Word,socks4Word] <;> decide

theorem ruleText_last (rule : Rule) : ∀ c ∈ (ruleText rule).getLast?, isWhitespace c = false := by
  cases rule with
  | direct =>
    intro c hc
    obtain rfl : 'T' = c := Option.some.inj hc
    decide
  | proxy keyword address =>
    have hlast := digits_last (word keyword++(fromUtf8Lossy address.host++[':'])) address.port.toNat
    simpa [ruleText,addressText] using hlast

theorem trim_written (h : WrittenUpper rule part) : Utf8Text.trim (fromUtf8Lossy part) = ruleText rule := by
  obtain ⟨left,right,hleft,hright,hpart⟩ := h.decoded
  have hblank : ∀ c, c = ' ' ∨ c = '\t' → isWhitespace c = true := by
    rintro c (rfl|rfl) <;> decide
  rw [hpart]
  exact dropWhile_padded (fun c hc => hblank c (hleft c hc)) (fun c hc => hblank c (hright c hc)) (ruleText_first rule)
    (ruleText_last rule) (ruleText_ne_nil rule)

theorem stated_written (h : WrittenUpper rule part) : Stated (fromUtf8Lossy part) := by
  rw [Stated,trim_written h]
  cases rule with
  | direct => exact .inr (.inr (.inr rfl))
  | proxy keyword address =>
    cases keyword with
    | proxy => exact .inl (List.prefix_append _ _)
    | socks5 => exact .inr (.inl (List.prefix_append _ _))
    | socks4 => exact .inr (.inr (.inl (List.prefix_append _ _)))

theorem ruleOf_written (h : WrittenUpper rule part) : ruleOf (fromUtf8Lossy part) = some (parsed rule) := by
  rw [ruleOf,turn]
  simp only [trim_written h]
  cases rule with
  | direct => rfl
  | proxy keyword address =>
    have hread := parseHostPort_address address keyword.scheme
    cases keyword <;>
      simpa [stripPrefix,ruleText,word,proxyWord,socks5Word,socks4Word,parsed,Keyword.scheme] using hread

end Parse

section Rules

variable {rule : Rule} {rules : List Rule} {parts : List Text}

theorem forall₂_getLast {α β : Type} {R : α → β → Prop} {xs : List α} {ys : List β} (h : List.Forall₂ R xs ys)
    (hne : xs ≠ []) : ∃ y ∈ ys.getLast?, R (xs.getLast hne) y := by
  induction h with
  | nil => exact (hne rfl).elim
  | cons hxy hrest ih =>
    cases hrest with
    | nil => exact ⟨_,rfl,hxy⟩
    | cons hxy' hrest' =>
      obtain ⟨y,hy,hR⟩ := ih (by simp)
      exact ⟨y,by simpa using hy,by simpa using hR⟩

/-- Of a list of written rules the last one is read. -/
theorem znetProxyParseFirst_written (h : List.Forall₂ WrittenUpper (rule::rules) parts) :
    znetProxyParseFirst (joinRules parts) = some (parsed ((rule::rules).getLast (List.cons_ne_nil rule rules))).toHop := by
  have hall : ∀ part ∈ parts, ∃ rule : Rule, WrittenUpper rule part := by
    intro part hpart
    obtain ⟨i,hi,rfl⟩ := List.mem_iff_getElem.mp hpart
    have hlen := h.length_eq
    exact ⟨_,h.get (i:=i) (by omega) hi⟩
  have hne : parts ≠ [] := by
    rintro rfl
    cases h
  have hsplit := splitOn_joinRules_decoded hne fun part hpart => by
    obtain ⟨rule,hrule⟩ := hall part hpart
    exact written_no_semicolon hrule.written
  have hstated : (parts.map fromUtf8Lossy).filter (Stated ·) = parts.map fromUtf8Lossy := by
    rw [List.filter_eq_self]
    intro text htext
    obtain ⟨part,hpart,rfl⟩ := List.mem_map.mp htext
    obtain ⟨rule,hrule⟩ := hall part hpart
    simpa using stated_written hrule
  obtain ⟨part,hpart,hlast⟩ := forall₂_getLast h (List.cons_ne_nil rule rules)
  rw [znetProxyParseFirst,hsplit,foldl_turn,hstated,List.getLast?_map,Option.mem_def.mp hpart]
  simp only [Option.map_some,Option.getD_some,ruleOf_written hlast]

theorem sameHop_iff (rule last : Rule) : SameHop (some (parsed last).toHop) rule.hop ↔ ReadsAs rule last := by
  cases rule with
  | direct =>
    cases last with
    | direct => simp [SameHop,Rule.hop,parsed,ProxyRule.toHop,ReadsAs]
    | proxy keyword address =>
      cases keyword <;> simp [SameHop,Rule.hop,parsed,ProxyRule.toHop,ReadsAs,schemeCode,Keyword.scheme]
  | proxy keyword address =>
    cases last with
    | direct =>
      cases keyword <;>
        simp [SameHop,Rule.hop,parsed,ProxyRule.toHop,ReadsAs,schemeCode,Keyword.scheme,Address.hop]
    | proxy keyword' address' =>
      have hcode : schemeCode keyword'.scheme = schemeCode keyword.scheme ↔ keyword = keyword' := by
        cases keyword <;> cases keyword' <;> decide
      simp only [SameHop,Rule.hop,parsed,ProxyRule.toHop,ReadsAs,Address.hop,hcode]
      rw [eq_comm (a:=address'.port),eq_comm (b:=address.host)]

end Rules

/-- For every C string the first parsable part is the one that is written exactly if the last
stated part has the same rule; and for every list of rules in upper case both parsers
select the same exactly if the last rule, as the engine reads it, is the first one. -/
theorem znetProxyParseFirst_iff (bytes : List UInt8) (rule : Rule) (rules : List Rule) (parts : List Text) :
    (znetProxyParseFirst bytes = (firstParsable bytes).map ProxyRule.toHop ↔
      ∀ last ∈ (statedParts bytes).getLast?, ruleOf last = firstParsable bytes) ∧
    (List.Forall₂ WrittenUpper (rule::rules) parts →
      (SameHop (znetProxyParseFirst (joinRules parts)) (parseFirstProxy (joinRules parts)) ↔
        ReadsAs rule ((rule::rules).getLast (List.cons_ne_nil rule rules)))) := by
  refine ⟨parseFirst_eq_iff bytes,?_⟩
  intro h
  rw [znetProxyParseFirst_written h,parseFirstProxy_written (h.imp fun _ _ => WrittenUpper.written)]
  exact sameHop_iff rule _

/-- The address `a:1`. -/
def addressA : Address := ⟨ascii ['a'],1,⟨by decide,by decide,by decide +kernel,by decide +kernel,by decide⟩⟩

def proxyA : Rule := .proxy .proxy addressA

/-- A rule on its own is selected by both parsers. -/
theorem znetProxyParseFirst_iff_single :
    znetProxyParseFirst (upperCase proxyA) = (firstParsable (upperCase proxyA)).map ProxyRule.toHop ∧
    SameHop (znetProxyParseFirst (joinRules [upperCase proxyA])) (parseFirstProxy (joinRules [upperCase proxyA])) := by
  have hwritten : WrittenUpper proxyA (upperCase proxyA) := ⟨[],[],nofun,nofun,by simp⟩
  have hiff := znetProxyParseFirst_iff (upperCase proxyA) proxyA [] [upperCase proxyA]
  refine ⟨hiff.1.mpr ?_,(hiff.2 (.cons hwritten .nil)).mpr ⟨rfl,?_,rfl⟩⟩
  · have hdecoded : fromUtf8Lossy (upperCase proxyA) = ['P','R','O','X','Y',' ','a',':','1'] :=
      fromUtf8Lossy_utf8 ['P','R','O','X','Y',' ','a',':','1']
    rw [statedParts,firstParsable,hdecoded]
    decide
  · have hhost : fromUtf8Lossy addressA.host = ['a'] := fromUtf8Lossy_utf8 ['a']
    rw [hhost]
    rfl

/-- The text of `PROXY a:1;DIRECT`. -/
def firstProxy : Text := ascii ['P','R','O','X','Y',' ','a',':','1',';','D','I','R','E','C','T']

/-- Of `PROXY a:1;DIRECT` the engine writes the second rule; the other parser selects the
first. -/
theorem znetProxyParseFirst_takes_last :
    znetProxyParseFirst firstProxy = some ⟨0,[],0,none⟩ ∧ firstParsable firstProxy = some ⟨.http,['a'],1⟩ ∧
    parseFirstProxy firstProxy = some ⟨.http,[0x61],1,none⟩ ∧
    ¬((∀ rule, znetProxyParseFirst rule = (firstParsable rule).map ProxyRule.toHop) ∧
      ∀ rule rules parts, List.Forall₂ WrittenUpper (rule::rules) parts →
        SameHop (znetProxyParseFirst (joinRules parts)) (parseFirstProxy (joinRules parts))) := by
  have hdecoded : fromUtf8Lossy firstProxy = ['P','R','O','X','Y',' ','a',':','1',';','D','I','R','E','C','T'] :=
    fromUtf8Lossy_utf8 ['P','R','O','X','Y',' ','a',':','1',';','D','I','R','E','C','T']
  have hlast : znetProxyParseFirst firstProxy = some ⟨0,[],0,none⟩ := by
    rw [znetProxyParseFirst,hdecoded]
    decide
  have hfirst : firstParsable firstProxy = some ⟨.http,['a'],1⟩ := by
    rw [firstParsable,hdecoded]
    decide
  refine ⟨hlast,hfirst,by decide,?_⟩
  rintro ⟨h,-⟩
  have heq := h firstProxy
  rw [hlast,hfirst] at heq
  revert heq
  decide

end ZNet.ProxyParseFirst
