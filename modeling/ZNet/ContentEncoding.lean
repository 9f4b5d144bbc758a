import ZNet.TextScan

/-!
# The content encoding of a response

`detectEncoding` takes the lines of its input one by one. A blank line is skipped like a
line without a colon, so that it does not end the header.
-/

namespace ZNet.ContentEncoding
open TextScan

abbrev Str := List UInt8

inductive Encoding
  | identity | gzip | deflate | br | zstd | unknown
deriving DecidableEq

def blanks : Str := ascii [' ','\t']
def lineBlanks : Str := ascii [' ','\t','\r']
def contentEncoding : Str := ascii ['c','o','n','t','e','n','t','-','e','n','c','o','d','i','n','g']

def gzipName : Str := ascii ['g','z','i','p']
def xGzipName : Str := ascii ['x','-','g','z','i','p']
def deflateName : Str := ascii ['d','e','f','l','a','t','e']
def brName : Str := ascii ['b','r']
def zstdName : Str := ascii ['z','s','t','d']
def identityName : Str := ascii ['i','d','e','n','t','i','t','y']

def eqlIgnoreCase (s t : Str) : Bool := decide (s.map toLower = t.map toLower)

/-- The coding of one element of the list, without its parameters. -/
def codingOf (raw : Str) : Option Encoding :=
  let token := trim blanks raw
  let coding := trim blanks (token.take (token.idxOf 0x3b))
  if eqlIgnoreCase coding gzipName then some .gzip
  else if eqlIgnoreCase coding xGzipName then some .gzip
  else if eqlIgnoreCase coding deflateName then some .deflate
  else if eqlIgnoreCase coding brName then some .br
  else if eqlIgnoreCase coding zstdName then some .zstd
  else if eqlIgnoreCase coding identityName then some .identity
  else none

def Encoding.parse (headerValue : Str) : Encoding :=
  (((trim blanks headerValue).splitOn 0x2c).findSome? codingOf).getD .identity

/-- What the loop returns at a line, if it does. -/
def detectLine (rawLine : Str) : Option Encoding :=
  let line := trim lineBlanks rawLine
  if line.length = 0 then none
  else match line.idxOf? 0x3a with
    | none => none
    | some colon =>
      let name := trim blanks (line.take colon)
      if eqlIgnoreCase name contentEncoding then some (Encoding.parse (line.drop (colon+1))) else none

def detectEncoding (headers : Str) : Encoding := ((headers.splitOn 0x0a).findSome? detectLine).getD .identity

/-- The name and the value of a line, the text before and after its first colon. -/
def field (rawLine : Str) : Option (Str×Str) :=
  ((trim lineBlanks rawLine).idxOf? 0x3a).map fun colon =>
    (trim blanks ((trim lineBlanks rawLine).take colon),(trim lineBlanks rawLine).drop (colon+1))

def IsContentEncoding (rawLine : Str) : Prop :=
  ∃ name value, field rawLine = some (name,value) ∧ name.map toLower = contentEncoding

instance (rawLine : Str) : Decidable (IsContentEncoding rawLine) :=
  decidable_of_iff ((field rawLine).any fun f => decide (f.1.map toLower = contentEncoding)) (by
    rw [IsContentEncoding,Option.any_eq_true]
    constructor
    · rintro ⟨⟨name,value⟩,hfield,hname⟩
      exact ⟨name,value,hfield,of_decide_eq_true hname⟩
    · rintro ⟨name,value,hfield,hname⟩
      exact ⟨(name,value),hfield,decide_eq_true hname⟩)

/-- The value of the first line with this name. -/
def contentEncodingValue (text : Str) : Option Str :=
  (((text.splitOn 0x0a).find? fun line => decide (IsContentEncoding line)).bind field).map Prod.snd

def crlf : Str := ascii ['\r','\n']

/-- The first blank line of the header is at its end. -/
def HeaderBlock (header : Str) : Prop :=
  ∃ front, header = front++(crlf++crlf) ∧ indexOf (crlf++crlf) header = some front.length

/-- The header is read as it stands whatever follows it. -/
def HeadersOnly (header body : Str) : Prop :=
  detectEncoding (header++body) = detectEncoding header ∧
    detectEncoding header = ((contentEncodingValue header).map Encoding.parse).getD .identity

variable {header body : Str}

section Lines

/-- The value of a line with this name. -/
def lineValue (rawLine : Str) : Option Str :=
  if IsContentEncoding rawLine then (field rawLine).map Prod.snd else none

theorem contentEncodingValue_eq (text : Str) : contentEncodingValue text = (text.splitOn 0x0a).findSome? lineValue := by
  rw [contentEncodingValue]
  induction text.splitOn 0x0a with
  | nil => rfl
  | cons line lines ih =>
    by_cases hline : IsContentEncoding line
    · obtain ⟨name,value,hfield,-⟩ := id hline
      have hvalue : lineValue line = some value := by rw [lineValue,if_pos hline,hfield]; rfl
      rw [List.find?_cons_of_pos (by simpa using hline),List.findSome?_cons_of_isSome (by rw [hvalue]; rfl),hvalue,
        Option.bind_some,hfield]
      rfl
    · have hvalue : lineValue line = none := if_neg hline
      rw [List.find?_cons_of_neg (by simpa using hline),List.findSome?_cons_of_isNone (by rw [hvalue]; rfl),ih]

theorem detectLine_eq (rawLine : Str) : detectLine rawLine = (lineValue rawLine).map Encoding.parse := by
  have hname : contentEncoding.map toLower = contentEncoding := by decide
  rw [detectLine,lineValue]
  cases hcolon : (trim lineBlanks rawLine).idxOf? 0x3a with
  | none =>
    have hfield : field rawLine = none := by rw [field,hcolon]; rfl
    have hother : ¬IsContentEncoding rawLine := by
      rintro ⟨name,value,h,-⟩
      rw [hfield] at h
      cases h
    rw [if_neg hother]
    split <;> rfl
  | some colon =>
    have hfield : field rawLine =
        some (trim blanks ((trim lineBlanks rawLine).take colon),(trim lineBlanks rawLine).drop (colon+1)) := by
      rw [field,hcolon]
      rfl
    have hnonempty : (trim lineBlanks rawLine).length ≠ 0 := by
      intro hlength
      rw [List.eq_nil_of_length_eq_zero hlength] at hcolon
      cases hcolon
    have hiff : IsContentEncoding rawLine ↔
        eqlIgnoreCase (trim blanks ((trim lineBlanks rawLine).take colon)) contentEncoding = true := by
      rw [IsContentEncoding,hfield,eqlIgnoreCase,decide_eq_true_eq,hname]
      constructor
      · rintro ⟨name,value,h,hlower⟩
        cases h
        exact hlower
      · intro hlower
        exact ⟨_,_,rfl,hlower⟩
    simp only [if_neg hnonempty,hiff,hfield]
    split <;> rfl

/-- The loop finds the first line with this name. -/
theorem detectEncoding_eq (text : Str) :
    detectEncoding text = ((contentEncodingValue text).map Encoding.parse).getD .identity := by
  rw [detectEncoding,contentEncodingValue_eq,List.map_findSome?]
  congr 2
  funext line
  exact detectLine_eq line

/-- The lines of a text that goes on after a line end. -/
theorem contentEncodingValue_append (front rest : Str) :
    contentEncodingValue (front++0x0a::rest) = (contentEncodingValue front).or (contentEncodingValue rest) := by
  rw [contentEncodingValue_eq,contentEncodingValue_eq,contentEncodingValue_eq,List.splitOn,
    List.splitOnP_append_cons front rest (by rfl),List.findSome?_append]
  rfl

end Lines

/-- A header ends with a line end. -/
theorem HeaderBlock.exists_front (h : HeaderBlock header) : ∃ front, header = front++[0x0a] := by
  obtain ⟨front,hheader,-⟩ := h
  refine ⟨front++crlf++[0x0d],?_⟩
  rw [hheader,List.append_assoc,List.append_assoc]
  rfl

theorem HeaderBlock.value_append (h : HeaderBlock header) (body : Str) :
    contentEncodingValue (header++body) = (contentEncodingValue header).or (contentEncodingValue body) := by
  obtain ⟨front,rfl⟩ := h.exists_front
  have hempty : contentEncodingValue [] = none := by decide
  rw [List.append_assoc,List.singleton_append,contentEncodingValue_append,contentEncodingValue_append,hempty,Option.or_none]

/-- A header is read on its own exactly if it names an encoding, or the body has no line that
does, or the first such line of the body says no more than the missing one. -/
theorem headersOnly_iff (h : HeaderBlock header) (body : Str) :
    HeadersOnly header body ↔
      contentEncodingValue header ≠ none ∨
        ∀ value, contentEncodingValue body = some value → Encoding.parse value = .identity := by
  rw [HeadersOnly,and_iff_left (detectEncoding_eq header),detectEncoding_eq,detectEncoding_eq,h.value_append]
  cases hheader : contentEncodingValue header with
  | some value => exact iff_of_true rfl (Or.inl nofun)
  | none =>
    rw [Option.none_or,or_iff_right fun hne => hne rfl]
    cases contentEncodingValue body with
    | none => exact iff_of_true rfl nofun
    | some value => simp

def statusLine : Str := ascii ['H','T','T','P','/','1','.','1',' ','2','0','0',' ','O','K']

/-- `content-encoding: br` -/
def brLine : Str := contentEncoding++ascii [':',' ']++brName

theorem headersOnly_iff_br :
    HeadersOnly (statusLine++crlf++brLine++(crlf++crlf)) brLine ↔
      contentEncodingValue (statusLine++crlf++brLine++(crlf++crlf)) ≠ none ∨
        ∀ value, contentEncodingValue brLine = some value → Encoding.parse value = .identity :=
  headersOnly_iff ⟨statusLine++crlf++brLine,rfl,by decide⟩ brLine

/-- The first line of the body is taken for a header. -/
theorem body_read : ¬∀ header body, HeaderBlock header → HeadersOnly header body := by
  intro h
  have hsame := (h (statusLine++(crlf++crlf)) brLine ⟨statusLine,rfl,by decide⟩).1
  have hbr : detectEncoding (statusLine++(crlf++crlf)++brLine) = .br := by decide
  have hidentity : detectEncoding (statusLine++(crlf++crlf)) = .identity := by decide
  rw [hbr,hidentity] at hsame
  cases hsame

end ZNet.ContentEncoding
