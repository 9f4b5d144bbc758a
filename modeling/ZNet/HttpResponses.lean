import ZNet.ProxyParseFirst
import ZNet.Tables

/-!
# Reading HTTP responses

The bytes that arrive are decoded as text, and the text is split into lines everywhere. The
first line is read for the status and is also looked at as a header.
-/

namespace ZNet.HttpResponses
open TextScan Utf8Text Tables ProxyParseFirst

abbrev Str := List Char

structure HttpResponse where
  statusCode : UInt16
  headers : Table Str Str
  body : List UInt8

/-- `split("\\r\\n")` -/
def splitLines : Str → List Str
  | '\r':: '\n'::rest => []::splitLines rest
  | c::rest => (splitLines rest).modifyHead (c::·)
  | [] => [[]]

/-- The key and the value of a line with a colon. -/
def headerOf (line : Str) : Option (Str×Str) :=
  (line.idxOf? ':').map fun colonPos => (Utf8Text.trim (line.take colonPos),Utf8Text.trim (line.drop (colonPos+1)))

def insertLine (headers : Table Str Str) (line : Str) : Table Str Str :=
  match headerOf line with
  | some (key,value) => headers.insert key value
  | none => headers

/-- The loop over the lines from number `i` on, with the number of the line after the blank
one. -/
def headersLoop : ℕ → List Str → Table Str Str → Table Str Str×ℕ
  | _,[],headers => (headers,0)
  | i,line::lines,headers => if line = [] then (headers,i+1) else headersLoop (i+1) lines (insertLine headers line)

def parseHttpResponse (data : Str) : Except String HttpResponse :=
  let lines := splitLines data
  match tokenizeAny isWhitespace (lines.headD []) with
  | _::code::_ =>
    match parsePort code with
    | none => .error "Invalid status code"
    | some statusCode =>
      let (headers,bodyStart) := headersLoop 0 lines ∅
      .ok ⟨statusCode,headers,(lines[bodyStart]?.map utf8).getD []⟩
  | _ => .error "Invalid status line"

/-- The characters of a header name. -/
def isTchar (c : Char) : Bool := c.isAlphanum || "!#$%&'*+-.^_`|~".toList.contains c

def lowered (name : Str) : Str := name.map Char.toLower

def lineEnd : Str := ['\r','\n']

/-- A response of HTTP/1.1 without its body. -/
structure Message where
  code : ℕ
  reason : Str
  headers : List (Str×Str)
  reason_line : ∀ c ∈ reason, c ≠ '\r' ∧ c ≠ '\n'
  names : ∀ h ∈ headers, h.1 ≠ [] ∧ ∀ c ∈ h.1, isTchar c = true
  values : ∀ h ∈ headers, ∀ c ∈ h.2, c ≠ '\r' ∧ c ≠ '\n'
  unpadded : ∀ h ∈ headers, (∀ c ∈ h.2.head?, c ≠ ' ' ∧ c ≠ '\t') ∧ ∀ c ∈ h.2.getLast?, c ≠ ' ' ∧ c ≠ '\t'
  distinct : headers.Pairwise fun h k => lowered h.1 ≠ lowered k.1

namespace Message

def statusLine (m : Message) : Str := "HTTP/1.1 ".toList++(Nat.toDigits 10 m.code++ ' '::m.reason)

def lines (m : Message) : List Str := m.statusLine::m.headers.map fun h => h.1++ ':':: ' '::h.2

def head (m : Message) : Str := (m.lines.flatMap fun line => line++lineEnd)++lineEnd

def render (m : Message) (body : List UInt8) : List UInt8 := utf8 m.head++body

end Message

/-- The response that is read is the one that was rendered, with the names in lower case. -/
def Faithful (m : Message) (body : List UInt8) : Prop :=
  ∃ response, parseHttpResponse (fromUtf8Lossy (m.render body)) = .ok response ∧
    response.statusCode.toNat = m.code ∧
    (∀ h ∈ m.headers, response.headers.lookup (lowered h.1) = some h.2) ∧ response.body = body

section Lines

theorem splitLines_append {s : Str} (hs : ∀ c ∈ s, c ≠ '\r') (t : Str) :
    splitLines (s++(lineEnd++t)) = s::splitLines t := by
  induction s with
  | nil => rfl
  | cons c s ih =>
    obtain ⟨hc,hs⟩ := List.forall_mem_cons.mp hs
    rw [List.cons_append,splitLines,ih hs]
    · rfl
    · intro rest h
      exact absurd h hc

/-- The first piece is what is before the first line end, and everything if there is none. -/
theorem splitLines_head (t : Str) : ∃ first rest, splitLines t = first::rest ∧ first <+: t ∧ ¬lineEnd <:+: first ∧
    (¬lineEnd <:+: t → first = t) := by
  have hempty : ¬lineEnd <:+: [] := by
    rw [List.infix_nil]
    exact List.cons_ne_nil _ _
  induction t using splitLines.induct with
  | case1 rest ih =>
    refine ⟨[],splitLines rest,rfl,List.nil_prefix,hempty,fun h => ?_⟩
    exact absurd (List.prefix_append lineEnd rest).isInfix h
  | case2 c rest hrest ih =>
    obtain ⟨first,more,hsplit,hbegins,hplain,hwhole⟩ := ih
    refine ⟨c::first,more,?_,List.cons_prefix_cons.mpr ⟨rfl,hbegins⟩,?_,fun h => ?_⟩
    · rw [splitLines,hsplit]
      · rfl
      · exact hrest
    · rw [List.infix_cons_iff]
      rintro (hfront|hinside)
      · obtain ⟨rfl,hnext⟩ := List.cons_prefix_cons.mp hfront
        obtain ⟨tail,htail⟩ := hnext.trans hbegins
        exact hrest tail rfl htail.symm
      · exact hplain hinside
    · rw [hwhole fun hinside => h (hinside.trans (List.suffix_cons c rest).isInfix)]
  | case3 => exact ⟨[],[],rfl,List.nil_prefix,hempty,fun _ => rfl⟩

theorem splitLines_lines {lines : List Str} (hlines : ∀ line ∈ lines, ∀ c ∈ line, c ≠ '\r') (t : Str) :
    splitLines ((lines.flatMap fun line => line++lineEnd)++t) = lines++splitLines t := by
  induction lines with
  | nil => rfl
  | cons line lines ih =>
    obtain ⟨hline,hlines⟩ := List.forall_mem_cons.mp hlines
    rw [List.flatMap_cons,List.append_assoc,List.append_assoc,splitLines_append hline,ih hlines,List.cons_append]

end Lines

section Headers

variable {headers : Table Str Str}

theorem headersLoop_lines {lines : List Str} (hlines : ∀ line ∈ lines, line ≠ []) (i : ℕ) (rest : List Str)
    (headers : Table Str Str) :
    headersLoop i (lines++[]::rest) headers = (lines.foldl insertLine headers,i+lines.length+1) := by
  induction lines generalizing i headers with
  | nil => rfl
  | cons line lines ih =>
    obtain ⟨hline,hlines⟩ := List.forall_mem_cons.mp hlines
    rw [List.cons_append,headersLoop,if_neg hline,ih hlines,List.foldl_cons,List.length_cons]
    congr 1
    omega

/-- What holds of letters, digits and the other characters of a name holds of them all. -/
theorem isTchar_cases {P : Char → Prop} [DecidablePred P] (hrange : ∀ c : Char, 0x30 ≤ c.toNat ∧ c.toNat ≤ 0x39 ∨
      0x41 ≤ c.toNat ∧ c.toNat ≤ 0x5a ∨ 0x61 ≤ c.toNat ∧ c.toNat ≤ 0x7a → P c)
    (hother : "!#$%&'*+-.^_`|~".toList.all (fun c => decide (P c)) = true) {c : Char} (hc : isTchar c = true) :
    P c := by
  rw [isTchar,Bool.or_eq_true] at hc
  obtain halnum|hmem := hc
  · apply hrange
    change ((decide (0x41 ≤ c.val ∧ c.val ≤ 0x5a) || (decide (0x61 ≤ c.val) && decide (c.val ≤ 0x7a))) ||
      (decide (0x30 ≤ c.val) && decide (c.val ≤ 0x39))) = true at halnum
    simp only [Bool.or_eq_true,Bool.and_eq_true,decide_eq_true_eq,UInt32.le_iff_toNat_le] at halnum
    obtain (hupper|hlower)|hdigit := halnum
    · exact .inr (.inl hupper)
    · exact .inr (.inr hlower)
    · exact .inl hdigit
  · exact of_decide_eq_true (List.all_eq_true.mp hother c (List.contains_iff_mem.mp hmem))

theorem isTchar_plain {c : Char} (hc : isTchar c = true) : c ≠ ':' ∧ c ≠ '\r' ∧ isWhitespace c = false := by
  refine isTchar_cases (P:=fun c => c ≠ ':' ∧ c ≠ '\r' ∧ isWhitespace c = false) ?_ (by decide) hc
  intro c hrange
  refine ⟨?_,?_,?_⟩
  · rintro rfl
    exact absurd hrange (by decide)
  · rintro rfl
    exact absurd hrange (by decide)
  · rw [isWhitespace,decide_eq_false_iff_not]
    omega

/-- A slash is in no name, whatever the case. -/
theorem isTchar_lower {c : Char} (hc : isTchar c = true) :
    c.toLower ≠ '/' ∧ c.toLower.toLower = c.toLower := by
  refine isTchar_cases (P:=fun c => c.toLower ≠ '/' ∧ c.toLower.toLower = c.toLower) ?_ (by decide) hc
  intro c hrange
  have hranges : ∀ n < 0x7b, 0x30 ≤ n →
      (Char.ofNat n).toLower ≠ '/' ∧ (Char.ofNat n).toLower.toLower = (Char.ofNat n).toLower := by decide
  have h := hranges c.toNat (by omega) (by omega)
  rwa [Char.ofNat_toNat] at h

theorem insertLine_header {name value : Str} (hname : ∀ c ∈ name, isTchar c = true) (headers : Table Str Str) :
    insertLine headers (name++ ':':: ' '::value) = headers.insert name (Utf8Text.trim value) := by
  have hcolon : ':' ∉ name := fun hmem => (isTchar_plain (hname ':' hmem)).1 rfl
  have htrim : Utf8Text.trim name = name := by
    have hplain : ∀ c ∈ name, isWhitespace c = false := fun c hc => (isTchar_plain (hname c hc)).2.2
    have h := @trim_plain [] name [] (List.forall_mem_nil _) (List.forall_mem_nil _) hplain
    rwa [List.nil_append,List.append_nil] at h
  have hvalue : Utf8Text.trim (' '::value) = Utf8Text.trim value := by
    rw [Utf8Text.trim,trimStart,List.dropWhile_cons_of_pos (by decide)]
    rfl
  rw [insertLine,headerOf,idxOf?_append_cons hcolon,Option.map_some]
  have hdrop : (name++ ':':: ' '::value).drop (name.length+1) = ' '::value := by
    rw [← List.drop_drop,List.drop_left]
    rfl
  simp only [List.take_left,hdrop,htrim,hvalue]

/-- The headers of a message, one after the other. -/
theorem foldl_headers {fields : List (Str×Str)} (hnames : ∀ h ∈ fields, ∀ c ∈ h.1, isTchar c = true)
    (headers : Table Str Str) :
    (fields.map fun h => h.1++ ':':: ' '::h.2).foldl insertLine headers =
      fields.foldl (fun headers h => headers.insert h.1 (Utf8Text.trim h.2)) headers := by
  induction fields generalizing headers with
  | nil => rfl
  | cons h fields ih =>
    obtain ⟨hname,hnames⟩ := List.forall_mem_cons.mp hnames
    rw [List.map_cons,List.foldl_cons,insertLine_header hname,ih hnames,List.foldl_cons]

theorem lookup_foldl_ne {fields : List (Str×Str)} {name : Str} (hname : ∀ h ∈ fields, h.1 ≠ name)
    (headers : Table Str Str) :
    (fields.foldl (fun headers h => headers.insert h.1 (Utf8Text.trim h.2)) headers).lookup name =
      headers.lookup name := by
  induction fields generalizing headers with
  | nil => rfl
  | cons h fields ih =>
    obtain ⟨hne,hname⟩ := List.forall_mem_cons.mp hname
    rw [List.foldl_cons,ih hname]
    exact AList.lookup_insert_ne (Ne.symm hne)

theorem lookup_foldl_mem {fields : List (Str×Str)} (hdistinct : fields.Pairwise fun h k => h.1 ≠ k.1) {h : Str×Str}
    (hmem : h ∈ fields) (headers : Table Str Str) :
    (fields.foldl (fun headers h => headers.insert h.1 (Utf8Text.trim h.2)) headers).lookup h.1 =
      some (Utf8Text.trim h.2) := by
  induction fields generalizing headers with
  | nil => cases hmem
  | cons k fields ih =>
    obtain ⟨hfirst,hdistinct⟩ := List.pairwise_cons.mp hdistinct
    rw [List.foldl_cons]
    obtain rfl|hmem := List.mem_cons.mp hmem
    · rw [lookup_foldl_ne fun k hk => (hfirst k hk).symm]
      exact AList.lookup_insert _
    · exact ih hdistinct hmem _

end Headers

section Status

/-- A number of which the digits are read does not pass the bound. -/
theorem parsePortDigits_lt {cs : Str} {acc n : ℕ} (hacc : acc < 65536) (h : parsePortDigits acc cs = some n) :
    n < 65536 ∧ n = Nat.ofDigitChars 10 cs acc := by
  induction cs generalizing acc with
  | nil =>
    obtain rfl := Option.some.inj h
    exact ⟨hacc,rfl⟩
  | cons c cs ih =>
    rw [parsePortDigits] at h
    split_ifs at h with hdigit hlt
    rw [Nat.ofDigitChars_cons,Nat.mul_comm]
    exact ih hlt h

/-- The status of a status line is read exactly if it is a `u16`. -/
theorem parsePort_decimal (n : ℕ) :
    parsePort (Nat.toDigits 10 n) = if n < 65536 then some (UInt16.ofNat n) else none := by
  by_cases hn : n < 65536
  · have hport : (UInt16.ofNat n).toNat = n := by
      rw [UInt16.toNat_ofNat']
      omega
    have hread := parsePort_digits (UInt16.ofNat n)
    rw [hport] at hread
    rw [hread,if_pos hn]
  · rw [if_neg hn,parsePort_toDigits,Option.map_eq_none_iff,Option.eq_none_iff_forall_ne_some]
    intro m hread
    obtain ⟨hlt,hvalue⟩ := parsePortDigits_lt (by decide) hread
    rw [Nat.ofDigitChars_toDigits (by decide) (by decide)] at hvalue
    omega

end Status

namespace Message

variable (m : Message) {body : List UInt8}

theorem digit_plain {c : Char} (hc : c ∈ Nat.toDigits 10 m.code) : c ≠ '\r' ∧ isWhitespace c = false := by
  have hspace := digit_not_space (Nat.isDigit_of_mem_toDigits (by decide) (by decide) hc)
  refine ⟨?_,hspace⟩
  rintro rfl
  exact absurd hspace (by decide)

theorem lines_plain : ∀ line ∈ m.lines, line ≠ [] ∧ ∀ c ∈ line, c ≠ '\r' := by
  intro line hline
  obtain rfl|hheader := List.mem_cons.mp hline
  · refine ⟨fun h => ?_,fun c hc => ?_⟩
    · cases h
    · obtain hversion|hrest := List.mem_append.mp hc
      · have hall : "HTTP/1.1 ".toList.all (· ≠ '\r') = true := by decide
        exact of_decide_eq_true (List.all_eq_true.mp hall c hversion)
      · obtain hdigit|hrest := List.mem_append.mp hrest
        · exact (m.digit_plain hdigit).1
        · obtain rfl|hreason := List.mem_cons.mp hrest
          · decide
          · exact (m.reason_line c hreason).1
  · obtain ⟨h,hmem,rfl⟩ := List.mem_map.mp hheader
    refine ⟨by simp,fun c hc => ?_⟩
    obtain hname|hrest := List.mem_append.mp hc
    · exact (isTchar_plain ((m.names h hmem).2 c hname)).2.1
    · obtain rfl|hrest := List.mem_cons.mp hrest
      · decide
      · obtain rfl|hvalue := List.mem_cons.mp hrest
        · decide
        · exact (m.values h hmem c hvalue).1

theorem splitLines_head_append (text : Str) : splitLines (m.head++text) = m.lines++[]::splitLines text := by
  rw [head,List.append_assoc,splitLines_lines fun line hline => (m.lines_plain line hline).2]
  rfl

/-- The second word of the status line is the code. -/
theorem statusLine_words : tokenizeAny isWhitespace m.statusLine =
    "HTTP/1.1".toList::Nat.toDigits 10 m.code::tokenizeAny isWhitespace m.reason := by
  have hline : m.statusLine = "HTTP/1.1".toList++ ' '::(Nat.toDigits 10 m.code++ ' '::m.reason) := rfl
  have hversion : ∀ c ∈ "HTTP/1.1".toList, isWhitespace c = false := by
    have hall : "HTTP/1.1".toList.all (fun c => !isWhitespace c) = true := by decide
    simpa using List.all_eq_true.mp hall
  rw [hline,tokenizeAny_append_cons _ _ (by decide),tokenizeAny_append_cons _ _ (by decide),
    tokenizeAny_word hversion (List.cons_ne_nil _ _),
    tokenizeAny_word (fun c hc => (m.digit_plain hc).2) Nat.toDigits_ne_nil]
  rfl

/-- A response is read if its code is a `u16`. Its body is the first line after the blank one. -/
theorem parse_eq {text first : Str} {rest : List Str} (hsplit : splitLines text = first::rest) :
    parseHttpResponse (m.head++text) =
      if m.code < 65536 then .ok ⟨UInt16.ofNat m.code,m.lines.foldl insertLine ∅,utf8 first⟩
      else .error "Invalid status code" := by
  have hloop := headersLoop_lines (fun line hline => (m.lines_plain line hline).1) 0 (first::rest) ∅
  have hbody : (m.lines++[]::first::rest)[0+m.lines.length+1]? = some first := by
    have hsub : m.lines.length+1-m.lines.length = 1 := by omega
    rw [Nat.zero_add,List.getElem?_append_right (by omega),hsub]
    rfl
  have hfirst : (m.lines++[]::first::rest).headD [] = m.statusLine := rfl
  simp only [parseHttpResponse,splitLines_head_append,hsplit,hfirst,statusLine_words,parsePort_decimal,hloop,hbody]
  split
  · rename_i hnone
    rw [if_neg fun hcode => by rw [if_pos hcode] at hnone; cases hnone]
  · rename_i code hcode
    split_ifs at hcode with hlt
    obtain rfl := Option.some.inj hcode
    rw [if_pos hlt]
    rfl

/-- The key that the status line may give is no name, as it has a slash in it. -/
theorem lookup_statusLine {name : Str} (hname : '/' ∉ name) : (insertLine ∅ m.statusLine).lookup name = none := by
  rw [insertLine,headerOf]
  cases hcolon : m.statusLine.idxOf? ':' with
  | none => rfl
  | some i =>
    obtain ⟨hlt,hget,-⟩ := List.idxOf?_eq_some_iff.mp hcolon
    have hget : m.statusLine[i]? = some ':' := List.getElem?_eq_some_iff.mpr ⟨hlt,hget⟩
    have hslash : m.statusLine[4]? = some '/' := rfl
    have hi : 4 < i := by
      by_contra hle
      obtain rfl|rfl|rfl|rfl|rfl : i = 0 ∨ i = 1 ∨ i = 2 ∨ i = 3 ∨ i = 4 := by omega
      all_goals exact absurd (Option.some.inj hget) (by decide)
    have hmem : '/' ∈ Utf8Text.trim (m.statusLine.take i) := by
      rw [mem_trim (by decide)]
      apply List.mem_of_getElem? (i:=4)
      rw [List.getElem?_take_of_lt hi,hslash]
    have hne : name ≠ Utf8Text.trim (m.statusLine.take i) := by
      rintro rfl
      exact hname hmem
    exact AList.lookup_insert_ne hne

theorem lowered_plain {h : Str×Str} (hmem : h ∈ m.headers) : '/' ∉ lowered h.1 := by
  intro hslash
  obtain ⟨c,hc,hlower⟩ := List.mem_map.mp hslash
  exact (isTchar_lower ((m.names h hmem).2 c hc)).1 hlower

/-- A header is found under its name in lower case exactly if that is its name, and its value
is found if trimming leaves it. -/
theorem lookup_lines {h : Str×Str} (hmem : h ∈ m.headers) :
    (m.lines.foldl insertLine ∅).lookup (lowered h.1) = some h.2 ↔
      lowered h.1 = h.1 ∧ Utf8Text.trim h.2 = h.2 := by
  have hfold : m.lines.foldl insertLine ∅ =
      m.headers.foldl (fun headers h => headers.insert h.1 (Utf8Text.trim h.2)) (insertLine ∅ m.statusLine) :=
    foldl_headers (fun h hmem => (m.names h hmem).2) _
  have hdistinct : m.headers.Pairwise fun h k => h.1 ≠ k.1 := by
    refine m.distinct.imp fun hne heq => hne ?_
    rw [heq]
  rw [hfold]
  by_cases hlower : lowered h.1 = h.1
  · rw [hlower,lookup_foldl_mem hdistinct hmem,Option.some.injEq]
    exact (and_iff_right rfl).symm
  · have hnone : ∀ k ∈ m.headers, k.1 ≠ lowered h.1 := by
      intro k hk hsame
      have htwice : lowered k.1 = lowered h.1 := by
        rw [hsame,lowered,lowered,List.map_map]
        exact List.map_congr_left fun c hc => (isTchar_lower ((m.names h hmem).2 c hc)).2
      obtain rfl : k = h := by
        by_contra hne
        have hsymm : Std.Symm fun h k : Str×Str => lowered h.1 ≠ lowered k.1 := ⟨fun _ _ => Ne.symm⟩
        exact m.distinct.forall hk hmem hne htwice
      exact hlower hsame.symm
    rw [lookup_foldl_ne hnone,m.lookup_statusLine (m.lowered_plain hmem)]
    exact iff_of_false (fun h => by cases h) fun h => hlower h.1

end Message

/-- A response is read faithfully exactly if its code is a `u16`, its names are in lower case,
its values have no white space around them, and its body is a text of one line. -/
theorem faithful_response_iff (m : Message) (body : List UInt8) : Faithful m body ↔ m.code < 65536 ∧
    (∀ h ∈ m.headers, lowered h.1 = h.1 ∧ Utf8Text.trim h.2 = h.2) ∧ ∃ text, utf8 text = body ∧ ¬lineEnd <:+: text := by
  obtain ⟨first,rest,hsplit,-,hplain,hwhole⟩ := splitLines_head (fromUtf8Lossy body)
  have hparse := m.parse_eq hsplit
  rw [Faithful,Message.render,fromUtf8Lossy_append,hparse]
  constructor
  · rintro ⟨response,hresponse,-,hheaders,hbody⟩
    split_ifs at hresponse with hcode
    obtain rfl := Except.ok.inj hresponse
    exact ⟨hcode,fun h hmem => (m.lookup_lines hmem).mp (hheaders h hmem),first,hbody,hplain⟩
  · rintro ⟨hcode,hheaders,text,rfl,htext⟩
    have hcode' : (UInt16.ofNat m.code).toNat = m.code := by
      rw [UInt16.toNat_ofNat']
      omega
    rw [fromUtf8Lossy_utf8] at hwhole
    rw [if_pos hcode]
    refine ⟨_,rfl,hcode',fun h hmem => (m.lookup_lines hmem).mpr (hheaders h hmem),?_⟩
    rw [hwhole htext]

/-- A redirect with the location under its usual name. -/
def redirect : Message where
  code := 302
  reason := "Found".toList
  headers := [("Location".toList,"/b".toList)]
  reason_line := List.all_iff_forall_prop.mp (by decide)
  names := by
    intro h hmem
    obtain rfl := List.mem_singleton.mp hmem
    exact ⟨List.cons_ne_nil _ _,List.all_eq_true.mp (by decide)⟩
  values := by
    intro h hmem
    obtain rfl := List.mem_singleton.mp hmem
    exact List.all_iff_forall_prop.mp (by decide)
  unpadded := by
    intro h hmem
    obtain rfl := List.mem_singleton.mp hmem
    exact ⟨by rintro c ⟨⟩; decide,by rintro c ⟨⟩; decide⟩
  distinct := List.pairwise_singleton _ _

/-- The redirect is not found: its key is still written with a capital letter. -/
theorem location_missed :
    (∃ response, parseHttpResponse (fromUtf8Lossy (redirect.render [])) = .ok response ∧
      response.headers.lookup "location".toList = none ∧
      response.headers.lookup "Location".toList = some "/b".toList) ∧
    ¬Faithful redirect [] := by
  have htext : fromUtf8Lossy (redirect.render []) = redirect.head++[] := by
    rw [Message.render,fromUtf8Lossy_append,fromUtf8Lossy]
  have hparse : parseHttpResponse (fromUtf8Lossy (redirect.render [])) =
      .ok ⟨302,redirect.lines.foldl insertLine ∅,[]⟩ := by
    rw [htext]
    exact @Message.parse_eq redirect [] [] [] rfl
  have hnone : (redirect.lines.foldl insertLine ∅).lookup "location".toList = none := by decide
  refine ⟨⟨_,hparse,hnone,by decide⟩,?_⟩
  rintro ⟨response,hresponse,-,hheaders,-⟩
  obtain rfl := Except.ok.inj (hparse.symm.trans hresponse)
  have hlocation := hheaders ("Location".toList,"/b".toList) (List.mem_singleton.mpr rfl)
  rw [show lowered "Location".toList = "location".toList from by decide,hnone] at hlocation
  cases hlocation

end ZNet.HttpResponses
