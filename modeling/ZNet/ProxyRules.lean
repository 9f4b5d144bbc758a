import ZNet.LetterCase
import ZNet.ProxyConfig

/-!
# Rules of a PAC result

A rule is `DIRECT`, or a keyword with a host and a port. Written in a list of rules, or
as a URL, it is read back by `parseFirstProxy` and `parseProxy`.
-/

namespace ZNet.ProxyRules
open TextScan ProxyConfigs

section Scan

theorem startsWithIgnoreCase_iff {s needle : Text} :
    startsWithIgnoreCase s needle = true ↔ needle.map toLower <+: s.map toLower := by
  rw [startsWithIgnoreCase,Bool.and_eq_true,decide_eq_true_eq,beq_iff_eq]
  constructor
  · rintro ⟨-,h⟩
    rw [← h,List.map_take]
    exact List.take_prefix _ _
  · intro h
    have hlen := h.length_le
    rw [List.length_map,List.length_map] at hlen
    refine ⟨hlen,?_⟩
    rw [List.prefix_iff_eq_take,List.length_map] at h
    rw [List.map_take,← h]

/-- A needle whose last letter is not in the tail begins before it. -/
theorem startsWithIgnoreCase_append {s tail needle : Text} (h : startsWithIgnoreCase (s++tail) needle = true)
    (hlast : ∀ b ∈ (needle.map toLower).getLast?, b ∉ tail.map toLower) : startsWithIgnoreCase s needle = true := by
  rw [startsWithIgnoreCase_iff,List.map_append] at h
  rw [startsWithIgnoreCase_iff]
  rcases List.prefix_or_prefix_of_prefix h (List.prefix_append _ _) with hfront|⟨rest,hneedle⟩
  · exact hfront
  · rw [← hneedle] at h hlast ⊢
    rw [List.prefix_append_right_inj] at h
    cases rest using List.reverseRecOn with
    | nil => simp
    | append_singleton rest b =>
      refine absurd (h.subset ?_) (hlast b ?_)
      · simp
      · simp

end Scan

/-- The schemes that `parseProxy` takes off. -/
def urlSchemes : List Text := [socks5Scheme,socks4Scheme,httpScheme,httpsScheme]

/-- A host as it may stand in a rule. -/
structure WellFormedHost (host : Text) : Prop where
  ne_nil : host ≠ []
  no_semicolon : 0x3b ∉ host
  first : ∀ b ∈ host.head?, b ∉ blanks
  last : ∀ b ∈ host.getLast?, b ∉ blanks
  no_scheme : ∀ scheme ∈ urlSchemes, startsWithIgnoreCase host scheme = false

structure Address where
  host : Text
  port : UInt16
  wellFormed : WellFormedHost host

/-- `host:port` -/
def Address.text (a : Address) : Text := a.host++0x3a::decimal a.port.toNat

inductive Keyword
  | proxy | socks5 | socks4
deriving DecidableEq

namespace Keyword

/-- With the space after it. -/
def text : Keyword → Text
  | .proxy => proxyKeyword
  | .socks5 => socks5Keyword
  | .socks4 => socks4Keyword

def scheme : Keyword → Scheme
  | .proxy => .http
  | .socks5 => .socks5
  | .socks4 => .socks4

def urlScheme : Keyword → Text
  | .proxy => httpScheme
  | .socks5 => socks5Scheme
  | .socks4 => socks4Scheme

end Keyword

inductive Rule
  | direct
  | proxy (keyword : Keyword) (address : Address)

def Address.hop (a : Address) (scheme : Scheme) : ProxyHop := ⟨scheme,a.host,a.port,none⟩

/-- What a rule stands for. -/
def Rule.hop : Rule → Option ProxyHop
  | .direct => none
  | .proxy keyword address => some (address.hop keyword.scheme)

/-- A rule as it is written: `DIRECT`, or a keyword in any letter case and `host:port`. -/
inductive Rule.Spelled : Rule → Text → Prop
  | direct : Spelled .direct directKeyword
  | proxy (keyword : Keyword) (address : Address) {word : Text} (hword : SameLetters word keyword.text) :
      Spelled (.proxy keyword address) (word++address.text)

/-- A part of a list of rules: a rule between blanks. -/
def Rule.Written (rule : Rule) (part : Text) : Prop :=
  ∃ left text right, rule.Spelled text ∧ (∀ b ∈ left, b ∈ blanks) ∧ (∀ b ∈ right, b ∈ blanks) ∧
    part = left++(text++right)

section Address

variable (a : Address)

theorem decimal_getLast (n : ℕ) : ∃ b ∈ decimal n, ∀ s : Text, (s++decimal n).getLast? = some b := by
  refine ⟨(decimal n).getLast (decimal_ne_nil n),List.getLast_mem _,?_⟩
  intro s
  rw [List.getLast?_append_of_ne_nil _ (decimal_ne_nil n),List.getLast?_eq_some_getLast (decimal_ne_nil n)]

theorem notMem_blanks_of_mem_decimal {n : ℕ} {b : UInt8} (hb : b ∈ decimal n) : b ∉ blanks := by
  intro hblank
  have hcases : b = 0x20 ∨ b = 0x09 := by simpa [blanks,ascii] using hblank
  rcases hcases with rfl|rfl <;> exact notMem_decimal (by decide) n hb

theorem address_ne_nil : a.text ≠ [] := by
  simp [Address.text]

/-- An address ends with a digit. -/
theorem address_last {s : Text} : ∀ b ∈ (s++a.text).getLast?, b ∉ blanks := by
  obtain ⟨digit,hdigit,hlast⟩ := decimal_getLast a.port.toNat
  have happend : s++a.text = s++(a.host++[0x3a])++decimal a.port.toNat := by simp [Address.text]
  rw [happend,hlast]
  rintro b hb
  cases hb
  exact notMem_blanks_of_mem_decimal hdigit

theorem address_first : ∀ b ∈ a.text.head?, b ∉ blanks := by
  rw [Address.text,List.head?_append_of_ne_nil _ a.wellFormed.ne_nil]
  exact a.wellFormed.first

theorem trim_address : trim blanks a.text = a.text := by
  have hlast := address_last a (s:=[])
  rw [List.nil_append] at hlast
  exact trim_ends (address_first a) hlast (address_ne_nil a)

/-- No scheme begins in the host and ends in the port. -/
theorem address_no_scheme {scheme : Text} (hscheme : scheme ∈ urlSchemes) :
    startsWithIgnoreCase a.text scheme = false := by
  rw [Bool.eq_false_iff]
  intro h
  have hslash : ∀ scheme ∈ urlSchemes, ∀ b ∈ (scheme.map toLower).getLast?, b = 0x2f := by decide +kernel
  have hhost := startsWithIgnoreCase_append h (by
    intro b hb
    rw [hslash scheme hscheme b hb]
    intro hmem
    obtain ⟨c,hc,heq⟩ := List.mem_map.mp hmem
    obtain rfl := (toLower_eq_iff (c:=0x2f) (by decide) c).mp heq
    rcases List.mem_cons.mp hc with hcolon|hdigit
    · exact absurd hcolon (by decide)
    · exact notMem_decimal (by decide) _ hdigit)
  rw [a.wellFormed.no_scheme scheme hscheme] at hhost
  cases hhost

/-- The last colon is the one before the port. -/
theorem parse_address (scheme : Scheme) :
    (match lastIndexOfScalar 0x3a a.text with
      | none => (⟨scheme,a.text,defaultPort scheme,none⟩ : ProxyHop)
      | some colon =>
        let port := match parseUnsigned 65536 (a.text.drop (colon+1)) with
          | some port => UInt16.ofNat port
          | none => defaultPort scheme
        ⟨scheme,a.text.take colon,port,none⟩) = a.hop scheme := by
  have hcolon := lastIndexOfScalar_append (s:=a.host) (notMem_decimal (b:=0x3a) (by decide) a.port.toNat)
  have hdrop : a.text.drop (a.host.length+1) = decimal a.port.toNat := by simp [Address.text,List.drop_append]
  have htake : a.text.take a.host.length = a.host := List.take_left' rfl
  have hport : parseUnsigned 65536 (decimal a.port.toNat) = some a.port.toNat := parseUnsigned_decimal a.port.toNat_lt
  rw [← Address.text] at hcolon
  rw [hcolon]
  simp only [hdrop,htake,hport,UInt16.ofNat_toNat]
  rfl

/-- `host:port` has the default scheme. -/
theorem parseProxy_address (defaultScheme : Scheme) : parseProxy a.text defaultScheme = a.hop defaultScheme := by
  have hscheme : splitScheme a.text defaultScheme = (defaultScheme,a.text) := by
    have hno := fun scheme (hs : scheme ∈ urlSchemes) => address_no_scheme a hs
    simp only [urlSchemes,List.forall_mem_cons] at hno
    obtain ⟨h5,h4,hhttp,hhttps,-⟩ := hno
    simp only [splitScheme,h5,h4,hhttp,hhttps]
    rfl
  rw [parseProxy,trim_address,hscheme]
  exact parse_address a defaultScheme

end Address

section Rules

variable {rule : Rule} {word : Text}

/-- What is taken off a spelled keyword. -/
theorem startsWithIgnoreCase_spelled {keyword : Keyword} (hword : SameLetters word keyword.text) (rest needle : Text) :
    startsWithIgnoreCase (word++rest) needle = startsWithIgnoreCase (keyword.text++rest) needle := by
  rw [Bool.eq_iff_iff,startsWithIgnoreCase_iff,startsWithIgnoreCase_iff,List.map_append,List.map_append,hword]

theorem length_spelled {keyword : Keyword} (hword : SameLetters word keyword.text) :
    word.length = keyword.text.length := by
  have h := congrArg List.length hword
  rwa [List.length_map,List.length_map] at h

/-- The keyword of a rule is recognised, and no other one. -/
theorem startsWithIgnoreCase_keyword (keyword other : Keyword) (rest : Text) :
    startsWithIgnoreCase (keyword.text++rest) other.text = decide (other = keyword) := by
  cases keyword <;> cases other <;>
    simp [startsWithIgnoreCase,Keyword.text,proxyKeyword,socks5Keyword,socks4Keyword,ascii,toLower]

theorem firstRule_proxy {keyword : Keyword} {address : Address} (hword : SameLetters word keyword.text) {part : Text}
    (htrim : trim blanks part = word++address.text) (parts : List Text) :
    firstRule (part::parts) = some (address.hop keyword.scheme) := by
  have hstart : ∀ other : Keyword,
      startsWithIgnoreCase (word++address.text) other.text = decide (other = keyword) := by
    intro other
    rw [startsWithIgnoreCase_spelled hword,startsWithIgnoreCase_keyword]
  have hdrop : (word++address.text).drop keyword.text.length = address.text := by
    rw [← length_spelled hword]
    exact List.drop_left' rfl
  have hproxy := hstart .proxy
  have hsocks5 := hstart .socks5
  have hsocks4 := hstart .socks4
  simp only [Keyword.text] at hproxy hsocks5 hsocks4
  rw [firstRule]
  simp only [htrim,hproxy,hsocks5,hsocks4]
  cases keyword <;> simp only [Keyword.text] at hdrop <;> simp [hdrop,parseProxy_address,Keyword.scheme]

theorem firstRule_direct {part : Text} (htrim : trim blanks part = directKeyword) (parts : List Text) :
    firstRule (part::parts) = none := by
  rw [firstRule]
  simp only [htrim]
  rfl

theorem spelled_first (h : rule.Spelled word) : ∀ b ∈ word.head?, b ∉ blanks := by
  cases h with
  | direct => decide +kernel
  | proxy keyword address hword =>
    rename_i word
    intro b hb hblank
    cases word with
    | nil =>
      have hlen := length_spelled hword
      cases keyword <;> cases hlen
    | cons c word =>
      cases hb
      have hletter : some (toLower b) = (keyword.text.map toLower).head? := congrArg List.head? hword
      have hcases : b = 0x20 ∨ b = 0x09 := by simpa [blanks,ascii] using hblank
      rcases hcases with rfl|rfl <;> cases keyword <;> exact absurd hletter (by decide)

theorem spelled_last (h : rule.Spelled word) : ∀ b ∈ word.getLast?, b ∉ blanks := by
  cases h with
  | direct => decide +kernel
  | proxy keyword address hword => exact address_last address

theorem spelled_ne_nil (h : rule.Spelled word) : word ≠ [] := by
  cases h with
  | direct => decide
  | proxy keyword address hword => simp [Address.text]

/-- A written rule is read, whatever follows it. -/
theorem firstRule_written {part : Text} (h : rule.Written part) (parts : List Text) :
    firstRule (part::parts) = rule.hop := by
  obtain ⟨left,word,right,hspelled,hleft,hright,rfl⟩ := h
  have htrim := trim_padded hleft hright (spelled_first hspelled) (spelled_last hspelled) (spelled_ne_nil hspelled)
  cases hspelled with
  | direct => exact firstRule_direct htrim parts
  | proxy keyword address hword => exact firstRule_proxy hword htrim parts

theorem spelled_no_semicolon (h : rule.Spelled word) : 0x3b ∉ word := by
  cases h with
  | direct => decide
  | proxy keyword address hword =>
    rename_i word
    rw [List.mem_append,not_or,Address.text,List.mem_append,not_or,List.mem_cons,not_or]
    refine ⟨?_,address.wellFormed.no_semicolon,by decide,notMem_decimal (by decide) _⟩
    intro hmem
    have hlower := List.mem_map_of_mem (f:=toLower) hmem
    rw [hword] at hlower
    revert hlower
    cases keyword <;> decide

theorem written_no_semicolon {part : Text} (h : rule.Written part) : 0x3b ∉ part := by
  obtain ⟨left,word,right,hspelled,hleft,hright,rfl⟩ := h
  have hblanks : 0x3b ∉ blanks := by decide
  rw [List.mem_append,not_or,List.mem_append,not_or]
  exact ⟨fun hmem => hblanks (hleft _ hmem),spelled_no_semicolon hspelled,fun hmem => hblanks (hright _ hmem)⟩

end Rules

/-- A list of written rules, separated by semicolons. -/
def joinRules (parts : List Text) : Text := [0x3b].intercalate parts

theorem splitOn_joinRules {rules : List Rule} {parts : List Text} (h : List.Forall₂ Rule.Written rules parts)
    (hne : parts ≠ []) : (joinRules parts).splitOn 0x3b = parts := by
  apply List.splitOn_intercalate
  · intro part hpart
    obtain ⟨i,hi,rfl⟩ := List.mem_iff_getElem.mp hpart
    have hlen := h.length_eq
    exact written_no_semicolon (h.get (i:=i) (by omega) hi)
  · exact hne

/-- The first of the written rules is read. -/
theorem parseFirstProxy_written {rule : Rule} {rules : List Rule} {parts : List Text}
    (h : List.Forall₂ Rule.Written (rule::rules) parts) : parseFirstProxy (joinRules parts) = rule.hop := by
  have hsplit := splitOn_joinRules h (by rintro rfl; cases h)
  cases h with
  | cons hpart hparts => rw [parseFirstProxy,hsplit,firstRule_written hpart]

theorem parseProxy_url (keyword : Keyword) (address : Address) (defaultScheme : Scheme) :
    parseProxy (keyword.urlScheme++address.text) defaultScheme = address.hop keyword.scheme := by
  have htrim : trim blanks (keyword.urlScheme++address.text) = keyword.urlScheme++address.text := by
    apply trim_ends
    · cases keyword <;> simp [Keyword.urlScheme,httpScheme,socks5Scheme,socks4Scheme,blanks,ascii]
    · exact address_last address
    · simp [Address.text]
  have hscheme : splitScheme (keyword.urlScheme++address.text) defaultScheme = (keyword.scheme,address.text) := by
    cases keyword <;>
      simp [splitScheme,startsWithIgnoreCase,Keyword.urlScheme,Keyword.scheme,httpScheme,socks5Scheme,socks4Scheme,
        ascii,toLower]
  rw [parseProxy,htrim,hscheme]
  exact parse_address address keyword.scheme

/-- Whatever rules follow and whatever blanks are around them, the first one is read back,
as no proxy if it is `DIRECT`. A URL with a proxy scheme is read back, whatever the default. -/
theorem rules_roundTrip :
    (∀ (rule : Rule) (rules : List Rule) (parts : List Text), List.Forall₂ Rule.Written (rule::rules) parts →
      parseFirstProxy (joinRules parts) = rule.hop ∧ (parseFirstProxy (joinRules parts) = none ↔ rule = .direct)) ∧
    ∀ (keyword : Keyword) (address : Address) (defaultScheme : Scheme),
      parseProxy (keyword.urlScheme++address.text) defaultScheme = address.hop keyword.scheme := by
  refine ⟨?_,parseProxy_url⟩
  intro rule rules parts h
  rw [parseFirstProxy_written h]
  refine ⟨rfl,?_⟩
  cases rule <;> simp [Rule.hop]

/-- An address with colons in its host, port 80. -/
def loopback : Address := ⟨ascii [':',':','1'],80,⟨by decide,by decide,by decide +kernel,by decide +kernel,by decide⟩⟩

/-- ` sOcks5 ::1:80 ;DIRECT` and `socks5://::1:80` -/
theorem rules_roundTrip_loopback :
    (parseFirstProxy (joinRules [ascii [' ','s','O','c','k','s','5',' ',':',':','1',':','8','0',' '],directKeyword]) =
      some (loopback.hop .socks5) ∧
    (parseFirstProxy (joinRules [ascii [' ','s','O','c','k','s','5',' ',':',':','1',':','8','0',' '],directKeyword]) =
      none ↔ Rule.proxy .socks5 loopback = .direct)) ∧
    parseProxy (socks5Scheme++loopback.text) .http = loopback.hop .socks5 := by
  have hword : SameLetters (ascii ['s','O','c','k','s','5',' ']) (Keyword.text .socks5) := by decide
  have hrule : (Rule.proxy .socks5 loopback).Written
      (ascii [' ','s','O','c','k','s','5',' ',':',':','1',':','8','0',' ']) :=
    ⟨ascii [' '],_,ascii [' '],.proxy .socks5 loopback hword,by decide +kernel,by decide +kernel,rfl⟩
  have hdirect : Rule.direct.Written directKeyword := ⟨[],_,[],.direct,by decide +kernel,by decide +kernel,rfl⟩
  exact ⟨rules_roundTrip.1 (.proxy .socks5 loopback) [.direct] _ (.cons hrule (.cons hdirect .nil)),
    rules_roundTrip.2 .socks5 loopback .http⟩

end ZNet.ProxyRules
