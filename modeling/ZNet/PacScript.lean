import ZNet.PacEngine
import ZNet.Utf8Text

/-!
# Scripts of if-statements

Scripts as a list of conditional returns and a final one, their text, and what the
interpreter of the network library returns for them.
-/

namespace ZNet.PacScripts
open TextScan Utf8Text PacEngine

abbrev Str := List Char

/-- The content of a string literal. -/
structure Literal where
  chars : Str
  noQuote : '"' ∉ chars

def spaceChars : Str := [' ','\t','\n','\r']

structure Spaces where
  chars : Str
  space : ∀ c ∈ chars, c ∈ spaceChars

inductive Subject
  | url | host

inductive Condition
  | isPlainHostName
  | dnsDomainIs (suffix : Literal)
  | shExpMatch (subject : Subject) (glob : Literal)

/-- `if (condition) return "value";`, with or without braces around the return and white
space inside them, after some white space. -/
structure IfStatement where
  space : Spaces
  condition : Condition
  braces : Option (Spaces×Spaces)
  value : Literal

/-- If-statements and a final `return "value";` with white space around it. -/
structure Script where
  ifs : List IfStatement
  space : Spaces
  value : Literal
  trail : Spaces

def Condition.name : Condition → Str
  | .isPlainHostName => ['i','s','P','l','a','i','n','H','o','s','t','N','a','m','e']
  | .dnsDomainIs _ => ['d','n','s','D','o','m','a','i','n','I','s']
  | .shExpMatch _ _ => ['s','h','E','x','p','M','a','t','c','h']

def Condition.subject : Condition → Str
  | .shExpMatch .url _ => ['u','r','l']
  | _ => ['h','o','s','t']

/-- The string argument. -/
def Condition.argument : Condition → Option Literal
  | .isPlainHostName => none
  | .dnsDomainIs suffix => some suffix
  | .shExpMatch _ glob => some glob

def Condition.argumentText (c : Condition) : Str :=
  match c.argument with
  | none => []
  | some a => [',',' ','"']++a.chars++['"']

def Condition.text (c : Condition) : Str := c.name++['(']++c.subject++c.argumentText++[')']

def returnText (value : Literal) : Str := ['r','e','t','u','r','n',' ','"']++value.chars++['"',';']

/-- The statement up to its return or its brace. -/
def IfStatement.head (s : IfStatement) : Str := ['i','f',' ','(']++s.condition.text++[')',' ']

def IfStatement.tail (s : IfStatement) : Str :=
  match s.braces with
  | none => returnText s.value
  | some (before,after) => ['{']++before.chars++returnText s.value++after.chars++['}']

def IfStatement.text (s : IfStatement) : Str := s.space.chars++s.head++s.tail

def Script.finalText (s : Script) : Str := s.space.chars++returnText s.value++s.trail.chars

def Script.body (s : Script) : Str := s.ifs.flatMap IfStatement.text++s.finalText

def header : Str :=
  ['f','u','n','c','t','i','o','n',' ','F','i','n','d','P','r','o','x','y','F','o','r','U','R','L',
    '(','u','r','l',',',' ','h','o','s','t',')',' ']

def Script.text (s : Script) : Str := header++ '{'::(s.body++['}'])

/-- A literal without braces. -/
def Literal.Braceless (a : Literal) : Prop := Plain '{' '}' a.chars

instance (a : Literal) : Decidable a.Braceless := inferInstanceAs (Decidable (Plain '{' '}' a.chars))

def isDelimiterChar (c : Char) : Bool :=
  decide (c ∈ [' ','\t','\n','\r','(',')',';',',','!','|','&','=','<','>','+','-','*','/','"','\''])

/-- The delimiters of the interpreter, as characters. -/
theorem delimiters_ascii : AsciiPredicate isDelimiterChar isDelimiter :=
  asciiPredicate_mem (List.all_iff_forall_prop.mp (by decide))

/-- The words of a text. -/
def words (s : Str) : List Str := tokenizeAny isDelimiterChar s

def returnWord : Str := ['r','e','t','u','r','n']
def ifWord : Str := ['i','f']

/-- None of the words is a keyword. -/
def Inert (ws : List Str) : Prop := ∀ w ∈ ws, w ≠ returnWord ∧ w ≠ ifWord

instance (ws : List Str) : Decidable (Inert ws) :=
  inferInstanceAs (Decidable (∀ w ∈ ws, w ≠ returnWord ∧ w ≠ ifWord))

/-- Literals without keywords, and a value of at least one word. -/
structure IfStatement.Worded (s : IfStatement) : Prop where
  argument : ∀ a ∈ s.condition.argument, Inert (words a.chars)
  inert : Inert (words s.value.chars)
  nonempty : words s.value.chars ≠ []

/-- The braces of each literal match. -/
structure IfStatement.Closed (s : IfStatement) : Prop where
  argument : ∀ a ∈ s.condition.argument, Balanced '{' '}' a.chars
  value : Balanced '{' '}' s.value.chars

/-- Literals without braces and keywords, and a value of at least one word. -/
structure IfStatement.Plain (s : IfStatement) : Prop where
  argument : ∀ a ∈ s.condition.argument, a.Braceless ∧ Inert (words a.chars)
  value : s.value.Braceless
  inert : Inert (words s.value.chars)
  nonempty : words s.value.chars ≠ []

structure Script.Plain (s : Script) : Prop where
  ifs : ∀ i ∈ s.ifs, i.Plain
  value : s.value.Braceless

section Braces

theorem Spaces.plain (s : Spaces) : TextScan.Plain '{' '}' s.chars := by
  intro c hc
  have hmem := s.space c hc
  constructor
  · rintro rfl
    exact absurd hmem (by decide)
  · rintro rfl
    exact absurd hmem (by decide)

theorem returnText_plain {value : Literal} (h : value.Braceless) : TextScan.Plain '{' '}' (returnText value) :=
  plain_append (plain_append (by decide) h) (by decide)

theorem returnText_balanced {value : Literal} (h : Balanced '{' '}' value.chars) : Balanced '{' '}' (returnText value) :=
  ((Balanced.plain (by decide)).append h).append (Balanced.plain (by decide))

theorem Condition.name_plain (c : Condition) : TextScan.Plain '{' '}' c.name := by
  cases c <;> simp only [Condition.name] <;> decide

theorem Condition.subject_plain (c : Condition) : TextScan.Plain '{' '}' c.subject := by
  cases c with
  | isPlainHostName => exact (by decide : TextScan.Plain '{' '}' ['h','o','s','t'])
  | dnsDomainIs => exact (by decide : TextScan.Plain '{' '}' ['h','o','s','t'])
  | shExpMatch subject => cases subject <;> simp only [Condition.subject] <;> decide

theorem Condition.text_plain {c : Condition} (h : ∀ a ∈ c.argument, a.Braceless) : TextScan.Plain '{' '}' c.text := by
  have hargument : TextScan.Plain '{' '}' c.argumentText := by
    rw [Condition.argumentText]
    cases harg : c.argument with
    | none => exact nofun
    | some a => exact plain_append (plain_append (by decide) (h a harg)) (by decide)
  exact plain_append (plain_append (plain_append (plain_append c.name_plain (by decide)) c.subject_plain) hargument)
    (by decide)

theorem Condition.text_balanced {c : Condition} (h : ∀ a ∈ c.argument, Balanced '{' '}' a.chars) :
    Balanced '{' '}' c.text := by
  have hargument : Balanced '{' '}' c.argumentText := by
    rw [Condition.argumentText]
    cases harg : c.argument with
    | none => exact Balanced.plain plain_nil
    | some a => exact ((Balanced.plain (by decide)).append (h a harg)).append (Balanced.plain (by decide))
  have hfront := Balanced.plain (plain_append (plain_append c.name_plain (by decide : TextScan.Plain '{' '}' ['(']))
    c.subject_plain)
  exact (hfront.append hargument).append (Balanced.plain (by decide))

variable {i : IfStatement}

theorem IfStatement.Plain.head (h : i.Plain) : TextScan.Plain '{' '}' (i.space.chars++i.head) := by
  refine plain_append i.space.plain (plain_append (plain_append (by decide) ?_) (by decide))
  exact Condition.text_plain fun a ha => (h.argument a ha).1

theorem IfStatement.Plain.flat (h : i.Plain) {t : Str} (ht : Flat '{' '}' t) : Flat '{' '}' (i.text++t) := by
  rw [IfStatement.text,IfStatement.tail]
  cases i.braces with
  | none =>
    rw [List.append_assoc]
    exact Flat.prepend h.head (Flat.prepend (returnText_plain h.value) ht)
  | some p =>
    obtain ⟨before,after⟩ := p
    have hinner := plain_append (plain_append before.plain (returnText_plain h.value)) after.plain
    have htext : i.space.chars++i.head++(['{']++before.chars++returnText i.value++after.chars++['}'])++t =
        i.space.chars++i.head++ '{'::(before.chars++returnText i.value++after.chars++ '}'::t) := by simp
    rw [htext]
    exact Flat.block h.head hinner ht

theorem IfStatement.Plain.closed (h : i.Plain) : i.Closed :=
  ⟨fun a ha => Balanced.plain (h.argument a ha).1,Balanced.plain h.value⟩

theorem IfStatement.Plain.worded (h : i.Plain) : i.Worded := ⟨fun a ha => (h.argument a ha).2,h.inert,h.nonempty⟩

theorem IfStatement.Closed.text (h : i.Closed) : Balanced '{' '}' i.text := by
  have hhead : Balanced '{' '}' i.head :=
    ((Balanced.plain (by decide)).append (Condition.text_balanced h.argument)).append (Balanced.plain (by decide))
  have htail : Balanced '{' '}' i.tail := by
    rw [IfStatement.tail]
    cases i.braces with
    | none => exact returnText_balanced h.value
    | some p =>
      have hinner := ((Balanced.plain p.1.plain).append (returnText_balanced h.value)).append (Balanced.plain p.2.plain)
      have hnil : TextScan.Plain '{' '}' [] := plain_nil
      have hblock := Balanced.block hnil hinner (Balanced.plain hnil)
      simpa using hblock
  exact ((Balanced.plain i.space.plain).append hhead).append htail

theorem Script.body_balanced {s : Script} (h : ∀ i ∈ s.ifs, i.Closed) (hvalue : Balanced '{' '}' s.value.chars) :
    Balanced '{' '}' s.body := by
  have hifs {ifs : List IfStatement} (h : ∀ i ∈ ifs, i.Closed) : Balanced '{' '}' (ifs.flatMap IfStatement.text) := by
    induction ifs with
    | nil => exact Balanced.plain plain_nil
    | cons i ifs ih =>
      obtain ⟨hi,hrest⟩ := List.forall_mem_cons.mp h
      rw [List.flatMap_cons]
      exact hi.text.append (ih hrest)
  have hfinal := ((Balanced.plain s.space.plain).append (returnText_balanced hvalue)).append (Balanced.plain s.trail.plain)
  exact (hifs h).append hfinal

theorem ifs_flat {ifs : List IfStatement} (h : ∀ i ∈ ifs, i.Plain) {t : Str} (ht : Flat '{' '}' t) :
    Flat '{' '}' (ifs.flatMap IfStatement.text++t) := by
  induction ifs with
  | nil => exact ht
  | cons i ifs ih =>
    rw [List.flatMap_cons,List.append_assoc]
    exact (h i (List.mem_cons_self ..)).flat (ih fun j hj => h j (List.mem_cons_of_mem i hj))

theorem finalText_plain {s : Script} (h : s.value.Braceless) : TextScan.Plain '{' '}' s.finalText :=
  plain_append (plain_append s.space.plain (returnText_plain h)) s.trail.plain

theorem Script.Plain.balanced {s : Script} (h : s.Plain) : Balanced '{' '}' s.body :=
  Script.body_balanced (fun i hi => (h.ifs i hi).closed) (Balanced.plain h.value)

end Braces

/-- The body of a script, with its closing brace, is split into tokens. -/
theorem findProxyForURL_text {body : Str} (h : Balanced '{' '}' body) (rest : Str) (url host : List UInt8) :
    findProxyForURL (utf8 (header++ '{'::(body++ '}'::rest))) url host =
      (scan host ((words (body++['}'])).map utf8)).map fun value => value.map ProxyConfigs.PacResult.mk := by
  have htext : utf8 (header++ '{'::(body++ '}'::rest)) = utf8 header++0x7b::(utf8 body++0x7d::utf8 rest) := by
    rw [utf8_append,utf8_cons,utf8_append,utf8_cons]
    rfl
  have hmarker : ∀ t, indexOf PacEngine.marker (utf8 header++t) = some 9 := fun _ => rfl
  have hbrace : ∀ t, ((utf8 header++0x7b::t).drop 9).idxOf? 0x7b = some 27 := fun _ => rfl
  have hdrop : ∀ t, (utf8 header++0x7b::t).drop (9+27) = 0x7b::t := fun _ => rfl
  have hbody : ∀ t, (utf8 header++0x7b::t).drop (9+27+1) = t := fun _ => rfl
  have hend : matchBrace (fun _ => 1) 0x7b 0x7d 0 0 (0x7b::(utf8 body++0x7d::utf8 rest)) =
      some (1+extent (fun _ => 1) (utf8 body)) := matchBrace_block (by decide) (balanced_utf8 h) (utf8 rest)
  rw [findProxyForURL,htext,hmarker]
  simp only [hbrace,hdrop,hend,hbody]
  have htake : (utf8 body++0x7d::utf8 rest).take (1+extent (fun _ => 1) (utf8 body)) = utf8 (body++['}']) := by
    have hsplit : utf8 body++0x7d::utf8 rest = utf8 (body++['}'])++utf8 rest := by
      rw [utf8_append,List.append_assoc]
      rfl
    have hlength : 1+extent (fun _ => 1) (utf8 body) = (utf8 (body++['}'])).length := by
      rw [extent_one,utf8_append,List.length_append,Nat.add_comm]
      rfl
    rw [hsplit,hlength,List.take_left]
  rw [htake,tokenizeAny_utf8 delimiters_ascii]
  rfl

section Words

/-- The brace that closes the block before a statement. -/
def closingBrace (pending : Bool) : Str := if pending then ['}'] else []

/-- The words up to a keyword. A brace directly before it is part of its word. -/
def keywordWords (pending : Bool) (space : Spaces) (keyword : Str) : List Str :=
  if pending then if space.chars = [] then ['}'::keyword] else [['}'],keyword] else [keyword]

def IfStatement.argumentWords (i : IfStatement) : List Str :=
  match i.condition.argument with
  | none => []
  | some a => words a.chars

/-- The words between the condition and the value. -/
def IfStatement.returnWords (i : IfStatement) : List Str :=
  match i.braces with
  | none => [returnWord]
  | some (before,_) => if before.chars = [] then ['{'::returnWord] else [['{'],returnWord]

def IfStatement.braced (i : IfStatement) : Bool := i.braces.isSome

theorem Spaces.delimiter (s : Spaces) : ∀ c ∈ s.chars, isDelimiterChar c = true := by
  have hall : ∀ c ∈ spaceChars, isDelimiterChar c = true := List.all_iff_forall_prop.mp (by decide)
  intro c hc
  exact hall c (s.space c hc)

theorem words_append_cons (s t : Str) {d : Char} (hd : isDelimiterChar d = true) : words (s++d::t) = words s++words t :=
  tokenizeAny_append_cons s t hd

theorem words_word {w : Str} (hw : ∀ c ∈ w, isDelimiterChar c = false) (hne : w ≠ []) : words w = [w] :=
  tokenizeAny_word hw hne

theorem words_spaces (s : Spaces) (t : Str) : words (s.chars++t) = words t := tokenizeAny_spaces s.delimiter t

theorem words_cons {d : Char} (hd : isDelimiterChar d = true) (t : Str) : words (d::t) = words t := tokenizeAny_cons t hd

theorem words_keyword (pending : Bool) (space : Spaces) {keyword : Str} (hk : ∀ c ∈ keyword, isDelimiterChar c = false)
    (hne : keyword ≠ []) : words (closingBrace pending++(space.chars++keyword)) = keywordWords pending space keyword := by
  rw [closingBrace,keywordWords]
  cases pending with
  | false =>
    simp only [Bool.false_eq_true,if_false,List.nil_append]
    rw [words_spaces,words_word hk hne]
  | true =>
    simp only [if_true]
    cases hs : space.chars with
    | nil =>
      rw [if_pos rfl]
      refine words_word ?_ (by simp)
      intro c hc
      rcases List.mem_cons.mp hc with rfl | hc
      · decide
      · exact hk c hc
    | cons d rest =>
      have hd : isDelimiterChar d = true := space.delimiter d (hs ▸ List.mem_cons_self ..)
      have hspaces : words (rest++keyword) = words keyword := by
        refine tokenizeAny_spaces ?_ keyword
        intro c hc
        exact space.delimiter c (hs ▸ List.mem_cons_of_mem d hc)
      have hbrace : words ['}'] = [['}']] := by decide
      have hcons : ['}']++(d::rest++keyword) = ['}']++d::(rest++keyword) := rfl
      rw [if_neg (by simp),hcons,words_append_cons _ _ hd,hspaces,words_word hk hne,hbrace]
      rfl

theorem words_returnText (value : Literal) (t : Str) :
    words (returnText value++t) = returnWord::(words value.chars++words t) := by
  have htext : returnText value++t = returnWord++ ' '::('"'::(value.chars++ '"'::(';'::t))) := by
    simp [returnText,returnWord]
  have hreturn : words returnWord = [returnWord] := by decide
  rw [htext,words_append_cons _ _ (by decide),words_cons (by decide),words_append_cons _ _ (by decide),
    words_cons (by decide),hreturn]
  rfl

theorem words_tail (i : IfStatement) (t : Str) :
    words (i.tail++t) = i.returnWords++(words i.value.chars++words (closingBrace i.braced++t)) := by
  rw [IfStatement.tail,IfStatement.returnWords,IfStatement.braced]
  cases i.braces with
  | none => exact words_returnText i.value t
  | some p =>
    obtain ⟨before,after⟩ := p
    have hafter : words (after.chars++(['}']++t)) = words ('}'::t) := words_spaces after _
    have htext : ['{']++before.chars++returnText i.value++after.chars++['}']++t =
        '{'::(before.chars++(returnText i.value++(after.chars++(['}']++t)))) := by simp
    rw [htext]
    simp only [Option.isSome_some]
    cases hs : before.chars with
    | nil =>
      have hreturn : words ('{'::returnWord) = ['{'::returnWord] := by decide
      have hbrace : '{'::([]++(returnText i.value++(after.chars++(['}']++t)))) =
          ('{'::returnWord)++ ' '::('"'::(i.value.chars++ '"'::(';'::(after.chars++(['}']++t))))) := by
        simp [returnText,returnWord]
      rw [hbrace,words_append_cons ('{'::returnWord) _ (by decide),hreturn,words_cons (by decide),
        words_append_cons _ _ (by decide),words_cons (by decide),hafter,if_pos rfl]
      rfl
    | cons d rest =>
      have hd : isDelimiterChar d = true := before.delimiter d (hs ▸ List.mem_cons_self ..)
      have hspaces : ∀ u, words (rest++u) = words u := by
        refine tokenizeAny_spaces ?_
        intro c hc
        exact before.delimiter c (hs ▸ List.mem_cons_of_mem d hc)
      have hbrace : words ['{'] = [['{']] := by decide
      have hcons : ∀ u, '{'::(d::rest++u) = ['{']++d::(rest++u) := fun _ => rfl
      rw [hcons,words_append_cons _ _ hd,hspaces,words_returnText,hafter,hbrace,if_neg (by simp)]
      rfl

/-- The words of an if-statement and of what follows it. -/
theorem words_if (pending : Bool) (i : IfStatement) (t : Str) :
    words (closingBrace pending++(i.text++t)) = keywordWords pending i.space ifWord++
      (i.condition.name::i.condition.subject::(i.argumentWords++
        (i.returnWords++(words i.value.chars++words (closingBrace i.braced++t))))) := by
  have hname : words i.condition.name = [i.condition.name] := by
    cases i.condition <;> simp only [Condition.name] <;> decide
  have hsubject : words i.condition.subject = [i.condition.subject] := by
    cases i.condition with
    | isPlainHostName => exact (by decide : words ['h','o','s','t'] = [['h','o','s','t']])
    | dnsDomainIs => exact (by decide : words ['h','o','s','t'] = [['h','o','s','t']])
    | shExpMatch subject => cases subject <;> simp only [Condition.subject] <;> decide
  have hargument : ∀ u, words (i.condition.subject++(i.condition.argumentText++ ')'::u)) =
      i.condition.subject::(i.argumentWords++words u) := by
    intro u
    rw [Condition.argumentText,IfStatement.argumentWords]
    cases i.condition.argument with
    | none =>
      dsimp only
      rw [List.nil_append,words_append_cons _ _ (by decide),hsubject]
      rfl
    | some a =>
      have htext : i.condition.subject++([',',' ','"']++a.chars++['"']++ ')'::u) =
          i.condition.subject++ ','::(' '::('"'::(a.chars++ '"'::(')'::u)))) := by simp
      rw [htext,words_append_cons _ _ (by decide),words_cons (by decide),words_cons (by decide),
        words_append_cons _ _ (by decide),words_cons (by decide),hsubject]
      rfl
  have htext : closingBrace pending++(i.text++t) = (closingBrace pending++(i.space.chars++ifWord))++
      ' '::('('::(i.condition.name++ '('::(i.condition.subject++(i.condition.argumentText++
        ')'::(')'::(' '::(i.tail++t))))))) := by
    simp [IfStatement.text,IfStatement.head,Condition.text,ifWord]
  rw [htext,words_append_cons _ _ (by decide),words_cons (by decide),words_append_cons _ _ (by decide),hargument,
    words_cons (by decide),words_cons (by decide),words_tail,hname,
    words_keyword _ _ (List.all_iff_forall_prop.mp (by decide)) (by decide)]
  rfl

theorem words_final (pending : Bool) (s : Script) :
    words (closingBrace pending++(s.finalText++['}'])) =
      keywordWords pending s.space returnWord++(words s.value.chars++[['}']]) := by
  have htext : closingBrace pending++(s.finalText++['}']) = (closingBrace pending++(s.space.chars++returnWord))++
      ' '::('"'::(s.value.chars++ '"'::(';'::(s.trail.chars++['}'])))) := by
    simp [Script.finalText,returnText,returnWord]
  have hbrace : words ['}'] = [['}']] := by decide
  rw [htext,words_append_cons _ _ (by decide),words_cons (by decide),words_append_cons _ _ (by decide),
    words_cons (by decide),words_spaces,hbrace,words_keyword _ _ (List.all_iff_forall_prop.mp (by decide)) (by decide)]

end Words

section Scan

/-- A brace directly before the keyword hides it. -/
def hides (pending : Bool) (space : Spaces) : Bool := pending && decide (space.chars = [])

/-- The `return` of the statement is not consumed with the condition. -/
def IfStatement.exposed (hidden : Bool) (i : IfStatement) : Bool :=
  match i.braces with
  | none => hidden || decide (2 ≤ i.argumentWords.length)
  | some (before,_) => decide (before.chars ≠ []) && (hidden || decide (1 ≤ i.argumentWords.length))

/-- The first word of the first value whose `return` is found. -/
def picked (s : Script) : Bool → List IfStatement → Option Str
  | pending,[] => if hides pending s.space then none else some ((words s.value.chars).headD ['}'])
  | pending,i::ifs =>
    if i.exposed (hides pending i.space) then (words i.value.chars).head? else picked s i.braced ifs

variable {host : List UInt8}

/-- The scan of words. -/
def scanWords (host : List UInt8) (ws : List Str) : Except PacError (Option (List UInt8)) := scan host (ws.map utf8)

theorem trim_word {s w : Str} (hw : w ∈ words s) : trim (ascii ['"',' ']) (utf8 w) = utf8 w := by
  have hbytes := delimiters_ascii.utf8 (mem_tokenizeAny hw).2
  have hall : ∀ b ∈ ascii ['"',' '], isDelimiter b = true := List.all_iff_forall_prop.mp (by decide)
  apply trim_eq_self
  intro b hb hmem
  have hnot := hbytes b hb
  rw [hall b hmem] at hnot
  cases hnot

theorem scanWords_skips {ws : List Str} (h : Inert ws) (rest : List Str) :
    scanWords host (ws++rest) = scanWords host rest := by
  rw [scanWords,List.map_append]
  apply scan_skips
  intro tok htok
  obtain ⟨w,hw,rfl⟩ := List.mem_map.mp htok
  obtain ⟨hret,hif⟩ := h w hw
  exact ⟨fun heq => hret (utf8_injective (t:=returnWord) heq),fun heq => hif (utf8_injective (t:=ifWord) heq)⟩

theorem scanWords_return {s w : Str} (hw : w ∈ words s) (rest : List Str) :
    scanWords host (returnWord::w::rest) = .ok (some (utf8 w)) := by
  refine (scan_return (utf8 w) (rest.map utf8)).trans ?_
  rw [trim_word hw]

theorem scanWords_if (c : Condition) (rest : List Str) :
    scanWords host (ifWord::c.name::rest) = scanWords host (rest.drop 3) := by
  have hknown : Known (utf8 c.name) := by
    cases c with
    | isPlainHostName => exact Or.inl rfl
    | dnsDomainIs => exact Or.inr (Or.inl rfl)
    | shExpMatch => exact Or.inr (Or.inr rfl)
  rw [scanWords,scanWords,List.map_drop]
  exact scan_if hknown _

variable {i : IfStatement}

theorem IfStatement.Worded.inert_argument (h : i.Worded) : Inert i.argumentWords := by
  rw [IfStatement.argumentWords]
  cases harg : i.condition.argument with
  | none => exact nofun
  | some a => exact h.argument a harg

theorem Inert.drop {ws : List Str} (h : Inert ws) (n : ℕ) : Inert (ws.drop n) :=
  fun w hw => h w (List.mem_of_mem_drop hw)

/-- Where the `return` is found, the first word of the value is the result. -/
theorem IfStatement.Worded.scan_value (h : i.Worded) (rest : List Str) :
    scanWords host (returnWord::(words i.value.chars++rest)) = .ok ((words i.value.chars).head?.map utf8) := by
  cases hv : words i.value.chars with
  | nil => exact (h.nonempty hv).elim
  | cons w ws => exact scanWords_return (s:=i.value.chars) (hv ▸ List.mem_cons_self ..) _

/-- The scan of the words behind a condition that is hidden. -/
theorem IfStatement.Worded.scan_hidden (h : i.Worded) (rest : List Str) :
    scanWords host (i.returnWords++(words i.value.chars++rest)) =
      if i.exposed true then .ok ((words i.value.chars).head?.map utf8) else scanWords host rest := by
  rw [IfStatement.returnWords,IfStatement.exposed]
  cases i.braces with
  | none => exact h.scan_value rest
  | some p =>
    obtain ⟨before,after⟩ := p
    dsimp only
    by_cases hb : before.chars = []
    · have hinert : Inert ['{'::returnWord] := by decide
      rw [if_pos hb,scanWords_skips hinert,scanWords_skips h.inert,if_neg (by simp [hb])]
    · have hinert : Inert [['{']] := by decide
      have hcons : [['{'],returnWord]++(words i.value.chars++rest) =
          [['{']]++(returnWord::(words i.value.chars++rest)) := rfl
      rw [if_neg hb,hcons,scanWords_skips hinert,h.scan_value,if_pos (by simp [hb])]

/-- The scan behind a condition that consumes two words of these. -/
theorem IfStatement.Worded.scan_visible (h : i.Worded) (rest : List Str) :
    scanWords host ((i.argumentWords++(i.returnWords++(words i.value.chars++rest))).drop 2) =
      if i.exposed false then .ok ((words i.value.chars).head?.map utf8) else scanWords host rest := by
  match hargs : i.argumentWords with
  | [] =>
    have hexposed : i.exposed false = false := by
      rw [IfStatement.exposed,hargs]
      cases i.braces <;> simp
    rw [hexposed,if_neg Bool.false_ne_true,List.nil_append,IfStatement.returnWords]
    cases hv : words i.value.chars with
    | nil => exact (h.nonempty hv).elim
    | cons w ws =>
      have hvalue : Inert (w::ws) := hv ▸ h.inert
      have hws : Inert ws := hvalue.drop 1
      cases i.braces with
      | none => exact scanWords_skips hws rest
      | some p =>
        dsimp only
        split_ifs
        · exact scanWords_skips hws rest
        · exact scanWords_skips hvalue rest
  | [a] =>
    rw [IfStatement.returnWords,IfStatement.exposed,hargs]
    cases i.braces with
    | none => exact scanWords_skips h.inert rest
    | some p =>
      obtain ⟨before,after⟩ := p
      dsimp only
      by_cases hb : before.chars = []
      · rw [if_pos hb,if_neg (by simp [hb])]
        exact scanWords_skips h.inert rest
      · rw [if_neg hb,if_pos (by simp [hb])]
        exact h.scan_value rest
  | a::b::more =>
    have hmore : Inert more := by
      have hdrop := h.inert_argument.drop 2
      rwa [hargs] at hdrop
    have hexposed : i.exposed false = i.exposed true := by
      rw [IfStatement.exposed,IfStatement.exposed,hargs]
      cases i.braces <;> simp
    rw [hexposed,← h.scan_hidden]
    exact scanWords_skips hmore _

theorem keywordWords_cases (pending : Bool) (space : Spaces) (keyword : Str) :
    hides pending space = true ∧ keywordWords pending space keyword = ['}'::keyword] ∨
    hides pending space = false ∧ ∃ before, Inert before ∧ keywordWords pending space keyword = before++[keyword] := by
  rw [hides,keywordWords]
  cases pending with
  | false => exact Or.inr ⟨rfl,[],nofun,rfl⟩
  | true =>
    by_cases hs : space.chars = []
    · rw [if_pos rfl,if_pos hs]
      exact Or.inl ⟨by simp [hs],rfl⟩
    · rw [if_pos rfl,if_neg hs]
      exact Or.inr ⟨by simp [hs],[['}']],by decide,rfl⟩

theorem Condition.inert (c : Condition) : Inert [c.name,c.subject] := by
  cases c with
  | isPlainHostName => exact (by decide : Inert [Condition.isPlainHostName.name,Condition.isPlainHostName.subject])
  | dnsDomainIs suffix =>
    simp only [Condition.name,Condition.subject]
    decide
  | shExpMatch subject glob =>
    cases subject <;> simp only [Condition.name,Condition.subject] <;> decide

/-- The first word of the final value is found unless a brace hides its `return`. -/
theorem scan_final (s : Script) (pending : Bool) (hvalue : picked s pending [] = none → Inert (words s.value.chars)) :
    scanWords host (words (closingBrace pending++(s.finalText++['}']))) = .ok ((picked s pending []).map utf8) := by
  rw [words_final]
  rw [picked] at hvalue ⊢
  rcases keywordWords_cases pending s.space returnWord with ⟨hhides,hwords⟩ | ⟨hhides,before,hbefore,hwords⟩
  · have hinert : Inert ['}'::returnWord] := by decide
    have hbrace : Inert [['}']] := by decide
    rw [if_pos hhides] at hvalue ⊢
    rw [hwords,scanWords_skips hinert,scanWords_skips (hvalue rfl)]
    refine (scanWords_skips hbrace []).trans ?_
    rw [scanWords,List.map_nil,scan]
    rfl
  · rw [hwords,if_neg (by simp [hhides]),List.append_assoc,scanWords_skips hbefore]
    cases hv : words s.value.chars with
    | nil => exact scanWords_return (s:=['}']) (by decide) []
    | cons w ws => exact scanWords_return (s:=s.value.chars) (hv ▸ List.mem_cons_self ..) _

/-- The interpreter returns the word that is picked. -/
theorem scan_ifs {s : Script} {ifs : List IfStatement} (h : ∀ i ∈ ifs, i.Worded) (pending : Bool)
    (hvalue : picked s pending ifs = none → Inert (words s.value.chars)) :
    scanWords host (words (closingBrace pending++(ifs.flatMap IfStatement.text++(s.finalText++['}'])))) =
      .ok ((picked s pending ifs).map utf8) := by
  induction ifs generalizing pending with
  | nil =>
    rw [List.flatMap_nil,List.nil_append]
    exact scan_final s pending hvalue
  | cons i ifs ih =>
    have hi := h i (List.mem_cons_self ..)
    have hrest := ih (fun j hj => h j (List.mem_cons_of_mem i hj)) i.braced
    rw [List.flatMap_cons,List.append_assoc,words_if]
    rw [picked] at hvalue ⊢
    have hfound : ∀ hidden, hides pending i.space = hidden →
        (if i.exposed hidden then .ok ((words i.value.chars).head?.map utf8)
          else scanWords host (words (closingBrace i.braced++(ifs.flatMap IfStatement.text++(s.finalText++['}']))))) =
        .ok ((if i.exposed (hides pending i.space) then (words i.value.chars).head?
          else picked s i.braced ifs).map utf8) := by
      rintro hidden rfl
      by_cases hexposed : i.exposed (hides pending i.space) = true
      · rw [if_pos hexposed,if_pos hexposed]
      · rw [if_neg hexposed] at hvalue
        rw [if_neg hexposed,if_neg hexposed,hrest hvalue]
    rcases keywordWords_cases pending i.space ifWord with ⟨hhides,hwords⟩ | ⟨hhides,before,hbefore,hwords⟩
    · have hinert : Inert ['}'::ifWord] := by decide
      rw [hwords,scanWords_skips hinert]
      refine (scanWords_skips i.condition.inert _).trans ?_
      refine (scanWords_skips hi.inert_argument _).trans ?_
      refine (hi.scan_hidden _).trans ?_
      exact hfound true hhides
    · rw [hwords,List.append_assoc,scanWords_skips hbefore]
      refine (scanWords_if i.condition _).trans ?_
      refine (hi.scan_visible _).trans ?_
      exact hfound false hhides

/-- The rule of the network library. -/
theorem findProxyForURL_picked {s : Script} (hbody : Balanced '{' '}' s.body) (h : ∀ i ∈ s.ifs, i.Worded)
    (hvalue : picked s false s.ifs = none → Inert (words s.value.chars)) (url : List UInt8) :
    findProxyForURL (utf8 s.text) url host =
      .ok ((picked s false s.ifs).map fun value => ProxyConfigs.PacResult.mk (utf8 value)) := by
  have hscan := @scan_ifs host s s.ifs h false hvalue
  have htext : closingBrace false++(s.ifs.flatMap IfStatement.text++(s.finalText++['}'])) = s.body++['}'] := by
    simp [closingBrace,Script.body]
  rw [htext,scanWords] at hscan
  rw [Script.text,findProxyForURL_text hbody [],hscan]
  cases picked s false s.ifs <;> rfl

/-- A word that the brace behind it belongs to is longer than without the brace. -/
theorem words_brace_head (u : Str) : (words (u++['}'])).head? ≠ some u := by
  intro hhead
  have hword := (mem_tokenizeAny (List.mem_of_head? hhead)).2
  have hbrace : ∀ c ∈ u++['}'], isDelimiterChar c = false := by
    intro c hc
    rcases List.mem_append.mp hc with hc | hc
    · exact hword c hc
    · rw [List.mem_singleton.mp hc]
      decide
  rw [words_word hbrace (by simp)] at hhead
  simp at hhead

/-- A literal of the final return that the end of the script cuts off before a brace. -/
theorem findProxyForURL_cut (space : Spaces) {u : Str} (hu : Balanced '{' '}' u) (rest : Str) (url : List UInt8) :
    findProxyForURL (utf8 (header++ '{'::((space.chars++(['r','e','t','u','r','n',' ','"']++u))++ '}'::rest))) url host =
      .ok ((words (u++['}'])).head?.map fun value => ProxyConfigs.PacResult.mk (utf8 value)) := by
  have hreturn : Balanced '{' '}' (['r','e','t','u','r','n',' ','"']++u) := (Balanced.plain (by decide)).append hu
  have hsplit : (space.chars++(['r','e','t','u','r','n',' ','"']++u))++['}'] =
      space.chars++(returnWord++ ' '::('"'::(u++['}']))) := by simp [returnWord]
  have hword : words returnWord = [returnWord] := by decide
  have hscan : scanWords host (returnWord::words (u++['}'])) = .ok ((words (u++['}'])).head?.map utf8) := by
    cases hw : words (u++['}']) with
    | nil => rw [scanWords,List.map_cons,scan]; rfl
    | cons w ws => exact scanWords_return (s:=u++['}']) (hw ▸ List.mem_cons_self ..) ws
  rw [findProxyForURL_text ((Balanced.plain space.plain).append hreturn),hsplit,words_spaces,words_append_cons _ _ (by decide),
    words_cons (by decide),hword,List.singleton_append]
  rw [scanWords] at hscan
  rw [hscan]
  cases (words (u++['}'])).head? <;> rfl

end Scan

end ZNet.PacScripts
