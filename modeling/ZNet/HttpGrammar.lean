import ZNet.TextLines
import ZNet.LetterCase

/-!
# Requests of HTTP/1.1

The grammar of requests that are not chunked, as a server reads them from a stream of bytes.
What it reads is determined by the stream, and so is where it goes on.
-/

namespace ZNet.HttpGrammar
open TextScan TextLines

abbrev Str := List UInt8

/-- The characters of a name. -/
def isTchar (b : UInt8) : Bool :=
  isDigit b || isLetter b || (ascii "!#$%&'*+-.^_`|~".toList).contains b

/-- The characters of a target. -/
def isVisible (b : UInt8) : Bool := decide (0x21 ≤ b ∧ b ≤ 0x7e)

/-- What a value is made of. -/
def isFieldByte (b : UInt8) : Bool := b == 0x09 || decide (0x20 ≤ b ∧ b ≠ 0x7f)

def blanks : Str := [0x20,0x09]

def IsToken (s : Str) : Prop := s ≠ [] ∧ s.all isTchar

def IsTarget (s : Str) : Prop := s ≠ [] ∧ s.all isVisible

/-- There are no blanks at the ends of a value. -/
structure IsValue (s : Str) : Prop where
  bytes : s.all isFieldByte
  first : ∀ b ∈ s.head?, b ∉ blanks
  last : ∀ b ∈ s.getLast?, b ∉ blanks

/-- The number that a text of digits stands for. -/
def lengthOf (s : Str) : Option ℕ :=
  if s ≠ [] ∧ s.all isDigit then some (s.foldl (fun n b => 10*n+digitValue b) 0) else none

structure Message where
  method : Str
  target : Str
  fields : List (Str×Str)
  body : Str

def host : Str := ascii "host".toList

def contentLength : Str := ascii "content-length".toList

def transferEncoding : Str := ascii "transfer-encoding".toList

/-- The values of the fields with a name, in capitals or not. -/
def named (name : Str) (fields : List (Str×Str)) : List Str :=
  (fields.filter fun f => decide (SameLetters f.1 name)).map Prod.snd

/-- The length of the body that the values announce. -/
def announced : List Str → Option ℕ
  | [] => some 0
  | [value] => lengthOf value
  | _ => none

/-- The parts of the request are words of the grammar. -/
structure Message.WellFormed (m : Message) : Prop where
  method : IsToken m.method
  target : IsTarget m.target
  names : ∀ f ∈ m.fields, IsToken f.1
  values : ∀ f ∈ m.fields, IsValue f.2

/-- A server has to reject a request that does not name one host. -/
structure Message.Framed (m : Message) : Prop where
  host : (named host m.fields).length = 1
  coding : named transferEncoding m.fields = []
  length : announced (named contentLength m.fields) = some m.body.length

def version : Str := ascii "HTTP/1.1".toList

def Message.requestLine (m : Message) : Str := m.method++0x20::(m.target++0x20::version)

/-- There may be blanks around the value. -/
def FieldLine (f : Str×Str) (line : Str) : Prop :=
  ∃ before after, (∀ b ∈ before, b ∈ blanks) ∧ (∀ b ∈ after, b ∈ blanks) ∧ line = f.1++0x3a::(before++(f.2++after))

/-- A stream begins with the request and goes on with the rest. -/
structure Reads (data : Str) (m : Message) (rest : Str) : Prop where
  wellFormed : m.WellFormed
  framed : m.Framed
  lines : ∃ lines, List.Forall₂ FieldLine m.fields lines ∧
    data = joinLines 0x0d 0x0a (m.requestLine::(lines++[[]]))++(m.body++rest)

section Bytes

variable {s : Str} {b : UInt8}

theorem IsToken.notMem (h : IsToken s) (hb : isTchar b = false) : b ∉ s := by
  intro hmem
  have htchar := List.all_eq_true.mp h.2 b hmem
  simp [hb] at htchar

theorem IsTarget.notMem (h : IsTarget s) (hb : isVisible b = false) : b ∉ s := by
  intro hmem
  have hvisible := List.all_eq_true.mp h.2 b hmem
  simp [hb] at hvisible

theorem IsValue.notMem (h : IsValue s) (hb : isFieldByte b = false) : b ∉ s := by
  intro hmem
  have hfield := List.all_eq_true.mp h.bytes b hmem
  simp [hb] at hfield

theorem isFieldByte_of_isTchar (h : isTchar b = true) : isFieldByte b = true := by
  have hrange : 0x20 ≤ b ∧ b ≠ 0x7f := by
    rw [isTchar,Bool.or_eq_true,Bool.or_eq_true] at h
    rcases h with (hdigit | hletter) | hsign
    · simp [isDigit] at hdigit
      grind
    · simp [isLetter] at hletter
      grind
    · have hsigns : ((ascii "!#$%&'*+-.^_`|~".toList).all fun b => decide (0x20 ≤ b ∧ b ≠ 0x7f)) = true := rfl
      exact of_decide_eq_true (List.all_eq_true.mp hsigns b (List.contains_iff_mem.mp hsign))
  rw [isFieldByte,Bool.or_eq_true]
  exact .inr (decide_eq_true hrange)

theorem blank_not_tchar (hb : b ∈ blanks) : isTchar b = false := by
  rcases List.mem_cons.mp hb with rfl | hb
  · rfl
  · rw [List.mem_singleton.mp hb]
    rfl

/-- A token has no blanks at all. -/
theorem IsToken.isValue (h : IsToken s) : IsValue s where
  bytes := by
    apply List.all_eq_true.mpr
    intro b hb
    exact isFieldByte_of_isTchar (List.all_eq_true.mp h.2 b hb)
  first b hb hblank := h.notMem (blank_not_tchar hblank) (List.mem_of_mem_head? hb)
  last b hb hblank := h.notMem (blank_not_tchar hblank) (List.mem_of_mem_getLast? hb)

theorem IsValue.of_ends {a c : UInt8} (hbytes : s.all isFieldByte = true) (hfirst : s.head? = some a)
    (hlast : s.getLast? = some c) (ha : a ∉ blanks) (hc : c ∉ blanks) : IsValue s where
  bytes := hbytes
  first := by
    intro b hb
    rw [hfirst,Option.mem_some] at hb
    exact hb ▸ ha
  last := by
    intro b hb
    rw [hlast,Option.mem_some] at hb
    exact hb ▸ hc

theorem lengthOf_decimal (n : ℕ) : lengthOf (decimal n) = some n := by
  have hdigits : (decimal n).all isDigit = true := by
    rw [List.all_eq_true]
    intro b hb
    by_contra hdigit
    apply notMem_decimal (n:=n) (b:=b) _ hb
    simp only [isDigit,decide_eq_true_eq,not_and,UInt8.not_le] at hdigit
    by_cases hlow : b < 0x30
    · exact .inl hlow
    · exact .inr (hdigit (UInt8.not_lt.mp hlow))
  have hfold (cs : List Char) (hcs : ∀ c ∈ cs, c.toNat < 256) (acc : ℕ) :
      (ascii cs).foldl (fun n b => 10*n+digitValue b) acc = Nat.ofDigitChars 10 cs acc := by
    induction cs generalizing acc with
    | nil => rfl
    | cons c cs ih =>
      obtain ⟨hc,hcs⟩ := List.forall_mem_cons.mp hcs
      rw [Nat.ofDigitChars_cons]
      have hvalue : digitValue (UInt8.ofNat c.toNat) = c.toNat- '0'.toNat := by
        rw [digitValue,UInt8.toNat_ofNat',Nat.mod_eq_of_lt hc]
        rfl
      rw [← ih hcs,← hvalue]
      rfl
  rw [lengthOf,if_pos ⟨decimal_ne_nil n,hdigits⟩,decimal,hfold,Nat.ofDigitChars_toDigits (by decide) (by decide)]
  intro c hc
  have hrange := toDigits_range hc
  omega

end Bytes

section Uniqueness

variable {f g : Str×Str} {line : Str} {m m' : Message} {data rest rest' : Str}

/-- A text is cut at the first place of a byte. -/
theorem cut_inj {s t x y : Str} {c : UInt8} (hs : c ∉ s) (ht : c ∉ t) (h : s++c::x = t++c::y) : s = t ∧ x = y := by
  induction s generalizing t with
  | nil =>
    cases t with
    | nil => simpa using h
    | cons b t => exact absurd (List.cons.inj h).1 fun hc => ht (hc ▸ List.mem_cons_self)
  | cons a s ih =>
    cases t with
    | nil => exact absurd (List.cons.inj h).1 fun hc => hs (hc ▸ List.mem_cons_self)
    | cons b t =>
      simp only [List.cons_append,List.cons.injEq,List.mem_cons,not_or] at h hs ht
      obtain ⟨rfl,rfl⟩ := ih hs.2 ht.2 h.2
      exact ⟨by rw [h.1],rfl⟩

/-- The value is what is left without the blanks around it. -/
theorem trim_value {value before after : Str} (h : IsValue value) (hbefore : ∀ b ∈ before, b ∈ blanks)
    (hafter : ∀ b ∈ after, b ∈ blanks) : trim blanks (before++(value++after)) = value := by
  cases value with
  | nil =>
    have hall : ∀ b ∈ before++after, decide (b ∈ blanks) = true := by
      intro b hb
      rcases List.mem_append.mp hb with hb | hb
      · exact decide_eq_true (hbefore b hb)
      · exact decide_eq_true (hafter b hb)
    rw [List.nil_append,trim,List.dropWhile_eq_nil_iff.mpr hall]
    rfl
  | cons b value => exact trim_padded hbefore hafter h.first h.last (List.cons_ne_nil b value)

theorem FieldLine.unique (hf : FieldLine f line) (hg : FieldLine g line) (hfname : IsToken f.1) (hgname : IsToken g.1)
    (hfvalue : IsValue f.2) (hgvalue : IsValue g.2) : f = g := by
  obtain ⟨before,after,hbefore,hafter,rfl⟩ := hf
  obtain ⟨before',after',hbefore',hafter',hline⟩ := hg
  obtain ⟨hname,hrest⟩ := cut_inj (hfname.notMem (by decide)) (hgname.notMem (by decide)) hline
  have hvalue := congrArg (trim blanks) hrest
  rw [trim_value hfvalue hbefore hafter,trim_value hgvalue hbefore' hafter'] at hvalue
  exact Prod.ext hname hvalue

/-- The lines of a request are neither empty nor broken. -/
theorem FieldLine.whole (h : FieldLine f line) (hname : IsToken f.1) (hvalue : IsValue f.2) :
    line ≠ [] ∧ Unbroken 0x0d 0x0a line := by
  obtain ⟨before,after,hbefore,hafter,rfl⟩ := h
  refine ⟨by simp,unbroken_of_notMem ?_⟩
  have hblank : (0x0d : UInt8) ∉ blanks := by decide
  simp only [List.mem_append,List.mem_cons,not_or]
  exact ⟨hname.notMem (by decide),by decide,fun hmem => hblank (hbefore _ hmem),hvalue.notMem (by decide),
    fun hmem => hblank (hafter _ hmem)⟩

theorem requestLine_whole (h : m.WellFormed) : m.requestLine ≠ [] ∧ Unbroken 0x0d 0x0a m.requestLine := by
  refine ⟨by simp [Message.requestLine],unbroken_of_notMem ?_⟩
  simp only [Message.requestLine,List.mem_append,List.mem_cons,not_or]
  exact ⟨h.method.notMem (by decide),by decide,h.target.notMem (by decide),by decide,by decide⟩

theorem fieldLines_whole {fields : List (Str×Str)} {lines : List Str} (h : List.Forall₂ FieldLine fields lines)
    (hnames : ∀ f ∈ fields, IsToken f.1) (hvalues : ∀ f ∈ fields, IsValue f.2) :
    ∀ line ∈ lines, line ≠ [] ∧ Unbroken 0x0d 0x0a line := by
  induction h with
  | nil => exact nofun
  | cons hline _ ih =>
    rw [List.forall_mem_cons] at hnames hvalues ⊢
    exact ⟨hline.whole hnames.1 hvalues.1,ih hnames.2 hvalues.2⟩

theorem fieldLines_unique {fields fields' : List (Str×Str)} {lines : List Str}
    (h : List.Forall₂ FieldLine fields lines) (h' : List.Forall₂ FieldLine fields' lines)
    (hnames : ∀ f ∈ fields, IsToken f.1) (hvalues : ∀ f ∈ fields, IsValue f.2)
    (hnames' : ∀ f ∈ fields', IsToken f.1) (hvalues' : ∀ f ∈ fields', IsValue f.2) : fields = fields' := by
  induction h generalizing fields' with
  | nil =>
    cases h'
    rfl
  | cons hline _ ih =>
    cases h' with
    | cons hline' hrest' =>
      rw [List.forall_mem_cons] at hnames hvalues hnames' hvalues'
      rw [hline.unique hline' hnames.1 hnames'.1 hvalues.1 hvalues'.1,
        ih hrest' hnames.2 hvalues.2 hnames'.2 hvalues'.2]

theorem requestLine_unique (h : m.WellFormed) (h' : m'.WellFormed) (heq : m.requestLine = m'.requestLine) :
    m.method = m'.method ∧ m.target = m'.target := by
  obtain ⟨hmethod,hrest⟩ := cut_inj (h.method.notMem (by decide)) (h'.method.notMem (by decide)) heq
  exact ⟨hmethod,(cut_inj (h.target.notMem (by decide)) (h'.target.notMem (by decide)) hrest).1⟩

/-- The head of a request is read in one way only. -/
theorem head_unique {lines lines' : List Str} {t t' : Str} (h : m.WellFormed) (h' : m'.WellFormed)
    (hlines : List.Forall₂ FieldLine m.fields lines) (hlines' : List.Forall₂ FieldLine m'.fields lines')
    (heq : joinLines 0x0d 0x0a (m.requestLine::(lines++[[]]))++t =
      joinLines 0x0d 0x0a (m'.requestLine::(lines'++[[]]))++t') :
    m.method = m'.method ∧ m.target = m'.target ∧ m.fields = m'.fields ∧ t = t' := by
  have hwhole : ∀ line ∈ m.requestLine::lines, line ≠ [] ∧ Unbroken 0x0d 0x0a line :=
    List.forall_mem_cons.mpr ⟨requestLine_whole h,fieldLines_whole hlines h.names h.values⟩
  have hwhole' : ∀ line ∈ m'.requestLine::lines', line ≠ [] ∧ Unbroken 0x0d 0x0a line :=
    List.forall_mem_cons.mpr ⟨requestLine_whole h',fieldLines_whole hlines' h'.names h'.values⟩
  obtain ⟨hhead,hrest⟩ := joinLines_inj (by decide) hwhole hwhole' heq
  rw [List.cons.injEq] at hhead
  obtain ⟨hmethod,htarget⟩ := requestLine_unique h h' hhead.1
  rw [← hhead.2] at hlines'
  exact ⟨hmethod,htarget,fieldLines_unique hlines hlines' h.names h.values h'.names h'.values,hrest⟩

/-- A written request is read as it is meant, if it is framed, and not at all otherwise. -/
theorem reads_iff {lines : List Str} (h : m.WellFormed) (hlines : List.Forall₂ FieldLine m.fields lines)
    (hlength : ∀ n, announced (named contentLength m.fields) = some n → n = m.body.length) :
    Reads (joinLines 0x0d 0x0a (m.requestLine::(lines++[[]]))++(m.body++rest)) m' rest' ↔
      m.Framed ∧ m' = m ∧ rest' = rest := by
  constructor
  · rintro ⟨hwell,hframed,lines',hlines',hdata⟩
    obtain ⟨hmethod,htarget,hfields,hbody⟩ := head_unique h hwell hlines hlines' hdata
    have hsize : m'.body.length = m.body.length := hlength _ (hfields ▸ hframed.length)
    obtain ⟨hsame,hrest⟩ := List.append_inj hbody hsize.symm
    have hm : m' = m := by
      cases m
      cases m'
      simp_all
    exact ⟨hm ▸ hframed,hm,hrest.symm⟩
  · rintro ⟨hframed,rfl,rfl⟩
    exact ⟨h,hframed,lines,hlines,rfl⟩

end Uniqueness

end ZNet.HttpGrammar
