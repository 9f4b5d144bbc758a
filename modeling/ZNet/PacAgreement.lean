import ZNet.PacScript
import ZNet.PacEvaluator

/-!
# Agreement of the two PAC interpreters

What the interpreter of the engine returns for scripts of if-statements, and when both
return the same rule.
-/

namespace ZNet.PacScripts
open TextScan Utf8Text PacEvaluator

/-- No keyword comes next. -/
def noKeyword (t : Str) : Bool := !startsWith (trimStart t) returnKeyword && !startsWith (trimStart t) ifKeyword

/-- No keyword comes next to a semicolon or to a closing brace. -/
def silent : Str → Bool
  | [] => true
  | c::t => (!(c == ';' || c == '}') || noKeyword t) && silent t

/-- Where the engine is: at the beginning of a statement, behind an `if` whose block it has not
found, or before a closing brace. -/
inductive Reading
  | fresh | searching | behind
deriving DecidableEq

/-- A literal has a brace. -/
def Literal.braced (a : Literal) : Bool := a.chars.contains '{'

def IfStatement.silent (i : IfStatement) : Bool :=
  i.condition.argument.all (fun a => PacScripts.silent a.chars) && PacScripts.silent i.value.chars

/-- Behind the semicolon of the return. -/
def IfStatement.left (i : IfStatement) : Reading := if i.braced then .behind else .fresh

/-- The first brace ends the search. The literals are read as statements when it is theirs. -/
def IfStatement.next (i : IfStatement) : Option Reading :=
  if i.condition.argument.any Literal.braced then if i.silent then some i.left else none
  else if i.braced then some .fresh
  else if i.value.braced then if i.silent then some .fresh else none
  else some .searching

/-- The engine comes to the final return. White space at the beginning of a statement leads it
astray, and before a closing brace it goes on to the next semicolon. -/
def reads : Reading → List IfStatement → Bool
  | r,[] => decide (r = .fresh)
  | .fresh,i::ifs => decide (i.space.chars = []) && i.next.any (reads · ifs)
  | .searching,i::ifs => i.next.any (reads · ifs)
  | .behind,i::ifs => i.silent && reads i.left ifs

def Spaces.none : Spaces := ⟨[],nofun⟩

/-- The beginning of an if-statement, up to its brace. -/
structure Opened (q : Str) : Prop where
  start : ∃ t, q = ['i','f',' ','(']++t
  plain : TextScan.Plain '{' '}' q

section Statements

variable {url host pre space q inner t : Str} {lastReturn : Option Str} {i : IfStatement} {s : Script}

theorem Spaces.whitespace (s : Spaces) : ∀ c ∈ s.chars, isWhitespace c = true := by
  have hall : ∀ c ∈ spaceChars, isWhitespace c = true := List.all_iff_forall_prop.mp (by decide)
  intro c hc
  exact hall c (s.space c hc)

theorem Opened.append (h : Opened q) (ht : TextScan.Plain '{' '}' t) : Opened (q++t) := by
  obtain ⟨u,rfl⟩ := h.start
  exact ⟨⟨u++t,List.append_assoc ..⟩,plain_append h.plain ht⟩

theorem Opened.ne_nil (h : Opened q) : q ≠ [] := by
  obtain ⟨u,rfl⟩ := h.start
  exact List.cons_ne_nil _ _

theorem Opened.scanned (h : Opened q) (t : Str) :
    trimStart (q++t) = q++t ∧ startsWith (q++t) returnKeyword = false ∧ startsWith (q++t) ifKeyword = true := by
  obtain ⟨u,rfl⟩ := h.start
  exact ⟨rfl,rfl,rfl⟩

theorem plain_noBrace (h : TextScan.Plain '{' '}' t) : '{' ∉ t := fun hmem => (h '{' hmem).1 rfl

/-- An `if` without a block after it. -/
theorem statements_unclosed (hspace : ∀ c ∈ space, isWhitespace c = true) (hq : Opened q)
    (ht : TextScan.Plain '{' '}' t) :
    statements url host (pre++(space++(q++t))) (len pre) lastReturn = .ok none := by
  obtain ⟨htrim,hreturn,hif⟩ := hq.scanned t
  refine statements_open hspace htrim ?_ hreturn hif ?_
  · simp [hq.ne_nil]
  · exact findChar_none (plain_noBrace (plain_append hq.plain ht))

/-- The block after an `if` is looked for behind the white space before it, counted again. -/
theorem statements_closed (hspace : ∀ c ∈ space, isWhitespace c = true) (hq : Opened q) :
    statements url host (pre++(space++(q++ '{'::t))) (len pre) lastReturn =
      (sliceFrom (len space) ('{'::t)).bind fun block =>
        match PacEvaluator.matchBrace block with
        | none => .ok none
        | some close => statements url host (pre++(space++(q++ '{'::t)))
            (len pre+len space+(len space+len q)+close+1) lastReturn := by
  obtain ⟨htrim,hreturn,hif⟩ := hq.scanned ('{'::t)
  obtain ⟨u,hu⟩ := hq.start
  have hcond : slice (len ifKeyword) (len q) (q++ '{'::t) = .ok ('('::u) := by
    have hsplit : q = ifKeyword++('('::u) := hu
    rw [hsplit,List.append_assoc]
    exact slice_append ifKeyword ('('::u) ('{'::t)
  have hbody : pre++(space++(q++ '{'::t)) = (pre++(space++q))++ '{'::t := by simp
  have hpos : len pre+len space+(len space+len q) = len (pre++(space++q))+len space := by
    rw [len_append,len_append]
    omega
  rw [statements_skip hspace htrim (by simp) hreturn hif (findChar_append (plain_noBrace hq.plain) t) hcond
    (evalCond_paren u url host)]
  rw [hpos,hbody]
  exact congrArg (Except.bind · _) (sliceFrom_add _ _ _)

/-- The block that an `if` skips is the first one behind the place that it counts to. -/
theorem statements_jump (hspace : ∀ c ∈ space, isWhitespace c = true) (hq : Opened q) {skipped before rest : Str}
    (hcut : '{'::t = skipped++(before++ '{'::(inner++ '}'::rest))) (hlen : len space = len skipped)
    (hbefore : TextScan.Plain '{' '}' before) (hinner : Balanced '{' '}' inner) :
    ∃ done, pre++(space++(q++ '{'::t)) = done++rest ∧
      statements url host (pre++(space++(q++ '{'::t))) (len pre) lastReturn =
        statements url host (done++rest) (len done) lastReturn := by
  have hslice : sliceFrom (len space) ('{'::t) = .ok (before++ '{'::(inner++ '}'::rest)) := by
    rw [hcut,hlen]
    exact sliceFrom_append _ _
  have hmatch : PacEvaluator.matchBrace (before++ '{'::(inner++ '}'::rest)) = some (len before+(1+len inner)) :=
    matchBrace_first (by decide) hbefore hinner rest
  refine ⟨pre++(space++(q++(skipped++(before++ '{'::(inner++['}']))))),by simp [hcut],?_⟩
  have hpos : len pre+len space+(len space+len q)+(len before+(1+len inner))+1 =
      len (pre++(space++(q++(skipped++(before++ '{'::(inner++['}'])))))) := by
    have hopen : '{'.utf8Size = 1 := rfl
    have hclose : len ['}'] = 1 := rfl
    simp only [len_append,len_cons,hopen,hclose]
    omega
  have hbody : pre++(space++(q++ '{'::t)) = (pre++(space++(q++(skipped++(before++ '{'::(inner++['}']))))))++rest := by
    simp [hcut]
  rw [statements_closed hspace hq,hslice]
  simp only [Except.bind,hmatch]
  rw [hpos,hbody]

/-- Directly behind the statement before it, an `if` skips its block. -/
theorem statements_block (hq : Opened q) (hinner : Balanced '{' '}' inner) (t : Str) :
    ∃ done, pre++(q++ '{'::(inner++ '}'::t)) = done++t ∧
      statements url host (pre++(q++ '{'::(inner++ '}'::t))) (len pre) lastReturn =
        statements url host (done++t) (len done) lastReturn := by
  have hspace : ∀ c ∈ ([] : Str), isWhitespace c = true := List.forall_mem_nil _
  have hcut : '{'::(inner++ '}'::t) = []++([]++ '{'::(inner++ '}'::t)) := rfl
  exact statements_jump hspace hq hcut rfl plain_nil hinner

/-- A cut inside a text that is followed by another. -/
theorem append_inside {u w : Str} (h : inner++t = u++w) (hlen : len u ≤ len inner) :
    ∃ m, inner = u++m ∧ w = m++t := by
  rcases List.append_eq_append_iff.mp h with ⟨m,rfl,ht⟩ | ⟨m,hinner,hw⟩
  · have hnil : m = [] := by
      by_contra hne
      have hpos := len_pos hne
      rw [len_append] at hlen
      omega
    rw [hnil,List.nil_append] at ht
    exact ⟨[],by simp [hnil],ht.symm⟩
  · exact ⟨m,hinner,hw⟩

/-- Behind white space that is shorter than its block, an `if` is the end of the evaluation. -/
theorem statements_shifted (hspace : ∀ c ∈ space, isWhitespace c = true) (hne : space ≠ []) (hq : Opened q)
    (hinner : TextScan.Plain '{' '}' inner) (hlen : len space ≤ len inner+1) (ht : Flat '{' '}' t) (v : Str) :
    statements url host (pre++(space++(q++ '{'::(inner++ '}'::t)))) (len pre) lastReturn ≠ .ok (some v) := by
  rw [statements_closed hspace hq]
  cases hslice : sliceFrom (len space) ('{'::(inner++ '}'::t)) with
  | error e => exact nofun
  | ok block =>
    obtain ⟨u,hu,hsize⟩ := sliceFrom_ok hslice
    have hpos := len_pos hne
    cases u with
    | nil =>
      rw [← hsize] at hpos
      exact absurd hpos (Nat.lt_irrefl 0)
    | cons c u =>
      obtain ⟨rfl,hrest⟩ := List.cons_eq_cons.mp hu
      have hopen : '{'.utf8Size = 1 := rfl
      rw [len_cons,hopen] at hsize
      obtain ⟨m,rfl,rfl⟩ := append_inside hrest (by omega)
      have hm : TextScan.Plain '{' '}' m := fun c hc => hinner c (List.mem_append_right u hc)
      have hmatch : PacEvaluator.matchBrace (m++ '}'::t) = none := matchBrace_inside (by decide) hm ht 0
      simp only [Except.bind,hmatch]
      exact nofun

/-- The value of the return statement and the offset of its closing quote. -/
theorem returnStatement_text (value : Literal) (t : Str) :
    returnStatement (returnText value++t) = .ok (value.chars,1+len value.chars) := by
  have hkeyword : returnText value++t = returnKeyword++('"'::(value.chars++('"':: ';'::t))) := by
    simp [returnText,returnKeyword]
  have htail : sliceFrom (len returnKeyword) (returnText value++t) = .ok ('"'::(value.chars++('"':: ';'::t))) := by
    rw [hkeyword]
    exact sliceFrom_append _ _
  have htrim : trimStart ('"'::(value.chars++('"':: ';'::t))) = '"'::(value.chars++('"':: ';'::t)) := rfl
  have hquote : startsWith ('"'::(value.chars++('"':: ';'::t))) ['"'] = true := rfl
  obtain ⟨hquoted,hvalue,hafter⟩ := quoted_slices value.chars (';'::t)
  have hsemi : semiOffset 0 ('"':: ';'::t) = 0 := rfl
  rw [returnStatement,htail]
  simp only [bind,Except.bind,htrim,Nat.sub_self,Nat.add_zero,htail,hquote,if_true,hquoted,
    findChar_append value.noQuote,hvalue,hafter,hsemi,Nat.zero_add]
  rfl

theorem len_returnText (value : Literal) : len (returnText value) = 10+len value.chars := by
  have hkeyword : len returnKeyword = 7 := rfl
  have hopen : len ['"'] = 1 := rfl
  have hclose : len ['"',';'] = 2 := rfl
  have hsplit : returnText value = returnKeyword++(['"']++(value.chars++['"',';'])) := by
    simp [returnText,returnKeyword]
  rw [hsplit,len_append,len_append,len_append,hkeyword,hopen,hclose]
  omega

theorem trimStart_append_cons (s t : Str) {c : Char} (hc : isWhitespace c = false) :
    trimStart (s++c::t) = trimStart s++c::t := by
  induction s with
  | nil => exact List.dropWhile_cons_of_neg (by simp [hc])
  | cons d s ih =>
    rw [trimStart,trimStart,List.cons_append,List.dropWhile_cons,List.dropWhile_cons]
    split_ifs
    · exact ih
    · rfl

/-- A quote is no part of a keyword. -/
theorem noKeyword_quote (s t : Str) : noKeyword (s++ '"'::t) = noKeyword s := by
  have hstarts {keyword : Str} (h : '"' ∉ keyword) (u : Str) : startsWith (u++ '"'::t) keyword = startsWith u keyword := by
    rw [startsWith,startsWith]
    induction u generalizing keyword with
    | nil =>
      cases keyword with
      | nil => rfl
      | cons k keyword =>
        have hne : (k == '"') = false := beq_false_of_ne fun heq => h (heq ▸ List.mem_cons_self ..)
        rw [List.nil_append,List.isPrefixOf_cons_cons,hne]
        rfl
    | cons c u ih =>
      cases keyword with
      | nil => rfl
      | cons k keyword =>
        rw [List.cons_append,List.isPrefixOf_cons_cons,List.isPrefixOf_cons_cons,
          ih fun hmem => h (List.mem_cons_of_mem k hmem)]
  rw [noKeyword,noKeyword,trimStart_append_cons _ _ rfl,hstarts (by decide),hstarts (by decide)]

/-- Behind none of the semicolons there is a keyword. -/
def Passed (g : Str) : Prop := ∀ a b, g = a++ ';'::b → noKeyword b = true

theorem Passed.suffix {g g' : Str} (h : Passed (g++g')) : Passed g' := by
  intro a b hcut
  exact h (g++a) b (by rw [hcut,List.append_assoc])

/-- Anything but a keyword is passed over up to its semicolon. -/
theorem statements_semicolon {g u : Str} (hstart : noKeyword (g++ ';'::u) = true) (hsemi : ';' ∉ g) (pre : Str)
    (lastReturn : Option Str) : statements url host (pre++(g++ ';'::u)) (len pre) lastReturn =
      statements url host ((pre++(g++[';']))++u) (len (pre++(g++[';']))) lastReturn := by
  have hspace : ∀ c ∈ g.takeWhile isWhitespace, isWhitespace c = true := fun c hc => List.mem_takeWhile_imp hc
  have hsplit : g.takeWhile isWhitespace++trimStart g = g := List.takeWhile_append_dropWhile
  generalize g.takeWhile isWhitespace = sp at hspace hsplit
  have hfixed : trimStart (trimStart g++ ';'::u) = trimStart g++ ';'::u := by
    rw [trimStart_append_cons _ _ rfl]
    exact congrArg (·++ ';'::u) (List.dropWhile_idempotent _ _)
  have hfind : findChar ';' (trimStart g++ ';'::u) = some (len (trimStart g)) :=
    findChar_append (fun hmem => hsemi (List.dropWhile_subset _ hmem)) u
  have hbody : pre++(g++ ';'::u) = pre++(sp++(trimStart g++ ';'::u)) := by rw [← List.append_assoc sp,hsplit]
  have hdone : pre++(sp++(trimStart g++ ';'::u)) = (pre++(g++[';']))++u := by simp [← hbody]
  have hpos : len pre+len sp+len (trimStart g)+1 = len (pre++(g++[';'])) := by
    have hone : len [';'] = 1 := rfl
    have hlen : len sp+len (trimStart g) = len g := by rw [← len_append,hsplit]
    rw [len_append,len_append,hone,← hlen]
    omega
  rw [noKeyword,trimStart_append_cons _ _ rfl,Bool.and_eq_true,Bool.not_eq_true',Bool.not_eq_true'] at hstart
  rw [hbody,statements_other hspace hfixed (by simp) hstart.1 hstart.2,hfind]
  dsimp only
  rw [hpos,hdone]

/-- Up to a quote and a semicolon, a text without keywords is passed over. -/
theorem statements_passed {g : Str} (hstart : noKeyword g = true) (h : Passed g) (pre t : Str) (lastReturn : Option Str) :
    statements url host (pre++(g++ '"':: ';'::t)) (len pre) lastReturn =
      statements url host ((pre++(g++['"',';']))++t) (len (pre++(g++['"',';']))) lastReturn := by
  have hnone : noKeyword (g++ '"':: ';'::t) = true := by
    rw [noKeyword_quote]
    exact hstart
  by_cases hmem : ';' ∈ g
  · obtain ⟨a,b,rfl,hfirst⟩ := List.eq_append_cons_of_mem hmem
    have hlength : b.length < (a++ ';'::b).length := by
      rw [List.length_append,List.length_cons]
      omega
    have hrest : Passed b := by
      have hsuffix : Passed ((a++[';'])++b) := by simpa using h
      exact hsuffix.suffix
    rw [List.append_assoc,List.cons_append] at hnone ⊢
    rw [statements_semicolon hnone hfirst,statements_passed (h a b rfl) hrest]
    have hdone : (pre++(a++[';']))++(b++['"',';']) = pre++((a++ ';'::b)++['"',';']) := by simp
    rw [hdone]
  · have hquote : g++ '"':: ';'::t = (g++['"'])++ ';'::t := by simp
    have hnot : ';' ∉ g++['"'] := by simpa using hmem
    rw [hquote] at hnone ⊢
    rw [statements_semicolon hnone hnot]
    have hdone : pre++((g++['"'])++[';']) = pre++(g++['"',';']) := by simp
    rw [hdone]
termination_by g.length

theorem statements_trail {trail : Str} (htrail : ∀ c ∈ trail, isWhitespace c = true) :
    statements url host (pre++trail) (len pre) lastReturn = .ok lastReturn := by
  by_cases hne : trail = []
  · rw [hne,List.append_nil]
    exact statements_end
  · have h := @statements_other url host pre trail [] lastReturn htrail rfl (by simpa using hne) rfl rfl
    rw [List.append_nil] at h
    exact h

/-- The final return gives its value. -/
theorem statements_final (hspace : ∀ c ∈ space, isWhitespace c = true) (value : Literal) {trail : Str}
    (htrail : ∀ c ∈ trail, isWhitespace c = true) :
    statements url host (pre++(space++(returnText value++trail))) (len pre) lastReturn = .ok (some value.chars) := by
  have hreturn : statements url host (pre++(space++(returnText value++trail))) (len pre) lastReturn =
      statements url host (pre++(space++(returnText value++trail))) (len pre+len space+(7+(1+len value.chars)))
        (some value.chars) :=
    statements_return hspace rfl (List.cons_ne_nil _ _) rfl (returnStatement_text _ _)
  obtain ⟨done,hbody,hpos⟩ : ∃ done, pre++(space++(returnText value++trail)) = done++ '"':: ';'::trail ∧
      len pre+len space+(7+(1+len value.chars)) = len done := by
    refine ⟨pre++(space++(returnKeyword++(['"']++value.chars))),by simp [returnText,returnKeyword],?_⟩
    have hkeyword : len returnKeyword = 7 := rfl
    have hopen : len ['"'] = 1 := rfl
    rw [len_append,len_append,len_append,len_append,hkeyword,hopen]
    omega
  have hquote := @statements_passed url host [] rfl (by simp [Passed]) done trail (some value.chars)
  rw [List.nil_append] at hquote
  rw [hreturn,hpos,hbody,hquote]
  exact statements_trail htrail

end Statements

section Engine

variable {url host : Str} {i : IfStatement} {s : Script}

/-- The text of a statement without braces, and the block of one with braces. -/
theorem IfStatement.Plain.layout (h : i.Plain) :
    i.braced = false ∧ (∀ t, i.text++t = (i.space.chars++i.head)++(returnText i.value++t)) ∨
    i.braced = true ∧ ∃ inner, TextScan.Plain '{' '}' inner ∧ 10 ≤ len inner ∧
      ∀ t, i.text++t = (i.space.chars++i.head)++ '{'::(inner++ '}'::t) := by
  rw [IfStatement.braced]
  cases hbraces : i.braces with
  | none =>
    refine Or.inl ⟨rfl,fun t => ?_⟩
    simp [IfStatement.text,IfStatement.tail,hbraces]
  | some p =>
    obtain ⟨before,after⟩ := p
    refine Or.inr ⟨rfl,before.chars++returnText i.value++after.chars,?_,?_,fun t => ?_⟩
    · exact plain_append (plain_append before.plain (returnText_plain h.value)) after.plain
    · rw [len_append,len_append,len_returnText]
      omega
    · simp [IfStatement.text,IfStatement.tail,hbraces]

theorem opened_head (h : ∀ a ∈ i.condition.argument, a.Braceless) : Opened i.head :=
  ⟨⟨i.condition.text++[')',' '],List.append_assoc ..⟩,
    plain_append (plain_append (by decide) (Condition.text_plain h)) (by decide)⟩

theorem IfStatement.Plain.opened (h : i.Plain) : Opened i.head := opened_head fun a ha => (h.argument a ha).1

/-- The statements from `ifs` on. -/
def Script.rest (s : Script) (ifs : List IfStatement) : Str := ifs.flatMap IfStatement.text++s.finalText

theorem Script.rest_cons (s : Script) (i : IfStatement) (ifs : List IfStatement) :
    s.rest (i::ifs) = i.text++s.rest ifs := by
  rw [Script.rest,List.flatMap_cons,List.append_assoc]
  rfl

/-- The condition up to the text of its argument. -/
def IfStatement.front (i : IfStatement) : Str :=
  ['i','f',' ','(']++(i.condition.name++['(']++i.condition.subject++[',',' ','"'])

/-- What stands between the condition and the value. -/
def IfStatement.opening (i : IfStatement) : Str :=
  match i.braces with
  | none => ['r','e','t','u','r','n',' ','"']
  | some (before,_) => '{'::(before.chars++['r','e','t','u','r','n',' ','"'])

/-- What stands behind the semicolon of the return. -/
def IfStatement.closing (i : IfStatement) : Str :=
  match i.braces with
  | none => []
  | some (_,after) => after.chars++['}']

theorem IfStatement.text_append (i : IfStatement) (t : Str) :
    i.text++t = i.space.chars++(i.head++(i.opening++(i.value.chars++ '"':: ';'::(i.closing++t)))) := by
  rw [IfStatement.text,IfStatement.tail,IfStatement.opening,IfStatement.closing]
  cases i.braces <;> simp [returnText]

theorem head_argument {a : Literal} (h : i.condition.argument = some a) :
    i.head = i.front++(a.chars++ '"'::[')',')',' ']) := by
  simp [IfStatement.head,IfStatement.front,Condition.text,Condition.argumentText,h]

theorem opened_front (i : IfStatement) {before : Str} (h : TextScan.Plain '{' '}' before) : Opened (i.front++before) := by
  refine ⟨⟨(i.condition.name++['(']++i.condition.subject++[',',' ','"'])++before,List.append_assoc ..⟩,?_⟩
  exact plain_append (plain_append (by decide) (plain_append (plain_append (plain_append i.condition.name_plain (by decide))
    i.condition.subject_plain) (by decide))) h

section Silence

theorem silent_after {a b : Str} {c : Char} (h : silent (a++c::b) = true) (hc : c = ';' ∨ c = '}') : noKeyword b = true := by
  induction a with
  | nil =>
    rw [List.nil_append,silent,Bool.and_eq_true] at h
    rcases hc with rfl | rfl
    · simpa using h.1
    · simpa using h.1
  | cons d a ih =>
    rw [List.cons_append,silent,Bool.and_eq_true] at h
    exact ih h.2

theorem silent_suffix {a b : Str} (h : silent (a++b) = true) : silent b = true := by
  induction a with
  | nil => exact h
  | cons d a ih =>
    rw [List.cons_append,silent,Bool.and_eq_true] at h
    exact ih h.2

theorem passed_silent {g : Str} (h : silent g = true) : Passed g := by
  rintro a b rfl
  exact silent_after h (.inl rfl)

theorem Passed.prepend {g g' : Str} (hg : ';' ∉ g) (h : Passed g') : Passed (g++g') := by
  intro a b hcut
  rcases List.append_eq_append_iff.mp hcut with ⟨m,-,hm⟩ | ⟨m,rfl,hm⟩
  · exact h m b hm
  · cases m with
    | nil => exact h [] b hm.symm
    | cons c m =>
      rw [List.cons_append,List.cons.injEq] at hm
      rw [← hm.1] at hg
      simp at hg

theorem Passed.quote {g g' : Str} (hg : Passed g) (h : Passed g') : Passed (g++ '"'::g') := by
  intro a b hcut
  rcases List.append_eq_append_iff.mp hcut with ⟨m,rfl,hm⟩ | ⟨m,rfl,hm⟩
  · cases m with
    | nil => cases hm
    | cons c m =>
      rw [List.cons_append,List.cons.injEq] at hm
      exact h m b hm.2
  · cases m with
    | nil => cases hm
    | cons c m =>
      rw [List.cons_append,List.cons.injEq] at hm
      obtain ⟨rfl,rfl⟩ := hm
      rw [noKeyword_quote]
      exact hg a m rfl

theorem Spaces.semicolon_notMem (w : Spaces) : ';' ∉ w.chars := fun hmem => absurd (w.space _ hmem) (by decide)

theorem front_notMem (i : IfStatement) : ';' ∉ i.front := by
  rw [IfStatement.front]
  cases i.condition with
  | isPlainHostName => simp only [Condition.name,Condition.subject]; decide
  | dnsDomainIs => simp only [Condition.name,Condition.subject]; decide
  | shExpMatch subject => cases subject <;> simp only [Condition.name,Condition.subject] <;> decide

theorem opening_notMem (i : IfStatement) : ';' ∉ i.opening := by
  rw [IfStatement.opening]
  cases i.braces with
  | none => exact (by decide : ';' ∉ ['r','e','t','u','r','n',' ','"'])
  | some p => simpa using p.1.semicolon_notMem

theorem passed_value (h : i.silent = true) : Passed (i.opening++i.value.chars) := by
  rw [IfStatement.silent,Bool.and_eq_true] at h
  exact (passed_silent h.2).prepend (opening_notMem i)

/-- A condition and its value without keywords. -/
theorem passed_statement (h : i.silent = true) : Passed (i.head++(i.opening++i.value.chars)) := by
  have hvalue := passed_value h
  cases hargument : i.condition.argument with
  | none =>
    have hhead : ';' ∉ i.head := by
      have hname : ';' ∉ ['i','f',' ','(']++(i.condition.name++['(']++i.condition.subject) := by
        have hfront := front_notMem i
        simp only [IfStatement.front,List.mem_append,not_or] at hfront ⊢
        exact ⟨hfront.1,hfront.2.1⟩
      simpa [IfStatement.head,Condition.text,Condition.argumentText,hargument] using hname
    exact hvalue.prepend hhead
  | some a =>
    rw [IfStatement.silent,Bool.and_eq_true,hargument] at h
    have hbehind : Passed ([')',')',' ']++(i.opening++i.value.chars)) := hvalue.prepend (by decide)
    have hwhole := ((passed_silent h.1).quote hbehind).prepend (front_notMem i)
    rw [head_argument hargument,List.append_assoc,List.append_assoc]
    exact hwhole

end Silence

/-- The text in front of the place where the engine is, as far as it is still to be read. -/
def Reading.Stands : Reading → Str → Prop
  | .fresh,q => q = []
  | .searching,q => Opened q
  | .behind,q => ∃ w : Spaces, q = w.chars++['}']

theorem stands_closing (i : IfStatement) : i.left.Stands i.closing := by
  rw [IfStatement.left,IfStatement.braced,IfStatement.closing]
  cases i.braces with
  | none => rfl
  | some p => exact ⟨p.2,rfl⟩

/-- The engine passes over what is left of a statement. -/
theorem statements_left (i : IfStatement) {g : Str} (hstart : noKeyword g = true) (hg : Passed g) (pre t : Str)
    (lastReturn : Option Str) : ∃ q done, i.left.Stands q ∧
      statements url host (pre++(g++ '"':: ';'::(i.closing++t))) (len pre) lastReturn =
        statements url host (done++(q++t)) (len done) lastReturn :=
  ⟨_,_,stands_closing i,statements_passed hstart hg pre (i.closing++t) lastReturn⟩

/-- A literal whose braces match has none if it has no opening brace. -/
theorem braceless_of_closed {a : Literal} (h : Balanced '{' '}' a.chars) (hb : ¬a.braced = true) : a.Braceless :=
  h.plain_of_notMem fun hmem => hb (List.contains_iff_mem.mpr hmem)

/-- The block of a literal that has braces. -/
theorem braced_block {a : Literal} (h : Balanced '{' '}' a.chars) (hb : a.braced = true) :
    ∃ before inner after, a.chars = before++ '{'::(inner++ '}'::after) ∧ TextScan.Plain '{' '}' before ∧
      Balanced '{' '}' inner :=
  h.first_block (List.contains_iff_mem.mp hb)

/-- Behind a block of a literal without keywords there is none. -/
theorem silent_block {before inner after : Str} (h : silent (before++ '{'::(inner++ '}'::after)) = true) :
    noKeyword after = true ∧ Passed after := by
  have hbrace : (before++ '{'::inner)++ '}'::after = before++ '{'::(inner++ '}'::after) := by simp
  have hsuffix : (before++ '{'::(inner++['}']))++after = before++ '{'::(inner++ '}'::after) := by simp
  exact ⟨silent_after (hbrace ▸ h) (.inr rfl),passed_silent (silent_suffix (hsuffix ▸ h))⟩

/-- From a block on, the engine passes over what is left of the statement. -/
theorem statements_inside (i : IfStatement) {opened inner g : Str} (hopened : Opened opened) (hinner : Balanced '{' '}' inner)
    (hstart : noKeyword g = true) (hg : Passed g) (pre t : Str) (lastReturn : Option Str) :
    ∃ q done, i.left.Stands q ∧
      statements url host (pre++(opened++ '{'::(inner++ '}'::(g++ '"':: ';'::(i.closing++t))))) (len pre) lastReturn =
        statements url host (done++(q++t)) (len done) lastReturn := by
  obtain ⟨done,-,hblock⟩ := @statements_block url host pre _ _ lastReturn hopened hinner (g++ '"':: ';'::(i.closing++t))
  rw [hblock]
  exact statements_left i hstart hg done t lastReturn

/-- The block is one of the argument. -/
theorem statements_argument (hsilent : i.silent = true) {a : Literal} (ha : i.condition.argument = some a)
    (hclosed : Balanced '{' '}' a.chars) (hb : a.braced = true) {q : Str}
    (hq : ∀ u, Opened u → Opened (q++(i.space.chars++u))) (pre t : Str) (lastReturn : Option Str) :
    ∃ q' done, i.left.Stands q' ∧ statements url host (pre++(q++(i.text++t))) (len pre) lastReturn =
      statements url host (done++(q'++t)) (len done) lastReturn := by
  obtain ⟨before,inner,after,hchars,hbefore,hinner⟩ := braced_block hclosed hb
  have hargument : silent a.chars = true := by
    rw [IfStatement.silent,ha,Option.all_some,Bool.and_eq_true] at hsilent
    exact hsilent.1
  obtain ⟨hafter,hpassed⟩ := silent_block (hchars ▸ hargument)
  have hstart : noKeyword (after++ '"'::([')',')',' ']++(i.opening++i.value.chars))) = true := by
    rw [noKeyword_quote]
    exact hafter
  have hrest : Passed (after++ '"'::([')',')',' ']++(i.opening++i.value.chars))) :=
    hpassed.quote ((passed_value hsilent).prepend (by decide))
  have htext : q++(i.text++t) = (q++(i.space.chars++(i.front++before)))++ '{'::(inner++ '}'::
      ((after++ '"'::([')',')',' ']++(i.opening++i.value.chars)))++ '"':: ';'::(i.closing++t))) := by
    rw [i.text_append,head_argument ha,hchars]
    simp
  rw [htext]
  exact statements_inside i (hq _ (opened_front i hbefore)) hinner hstart hrest pre t lastReturn

/-- The block is the one of the statement. -/
theorem statements_own (hvalue : Balanced '{' '}' i.value.chars) (hhead : Opened i.head) {p : Spaces×Spaces}
    (hbraces : i.braces = some p) {q : Str} (hq : ∀ u, Opened u → Opened (q++(i.space.chars++u))) (pre t : Str)
    (lastReturn : Option Str) : ∃ done, statements url host (pre++(q++(i.text++t))) (len pre) lastReturn =
      statements url host (done++t) (len done) lastReturn := by
  obtain ⟨before,after⟩ := p
  have hinner : Balanced '{' '}' (before.chars++(returnText i.value++after.chars)) :=
    (Balanced.plain before.plain).append ((returnText_balanced hvalue).append (Balanced.plain after.plain))
  have htext : q++(i.text++t) = (q++(i.space.chars++i.head))++ '{'::((before.chars++(returnText i.value++after.chars))++
      '}'::t) := by simp [IfStatement.text,IfStatement.tail,hbraces]
  obtain ⟨done,-,hblock⟩ := @statements_block url host pre _ _ lastReturn (hq _ hhead) hinner t
  rw [htext]
  exact ⟨done,hblock⟩

/-- The block is one of the value. -/
theorem statements_value (hsilent : i.silent = true) (hclosed : Balanced '{' '}' i.value.chars)
    (hb : i.value.braced = true) (hhead : Opened i.head) (hbraces : i.braces = none) {q : Str}
    (hq : ∀ u, Opened u → Opened (q++(i.space.chars++u))) (pre t : Str) (lastReturn : Option Str) :
    ∃ q' done, i.left.Stands q' ∧ statements url host (pre++(q++(i.text++t))) (len pre) lastReturn =
      statements url host (done++(q'++t)) (len done) lastReturn := by
  obtain ⟨before,inner,after,hchars,hbefore,hinner⟩ := braced_block hclosed hb
  rw [IfStatement.silent,Bool.and_eq_true,hchars] at hsilent
  obtain ⟨hstart,hpassed⟩ := silent_block hsilent.2
  have hopened : Opened (q++(i.space.chars++(i.head++(['r','e','t','u','r','n',' ','"']++before)))) :=
    hq _ (hhead.append (plain_append (by decide) hbefore))
  have htext : q++(i.text++t) = (q++(i.space.chars++(i.head++(['r','e','t','u','r','n',' ','"']++before))))++ '{'::(inner++
      '}'::(after++ '"':: ';'::(i.closing++t))) := by
    rw [i.text_append,IfStatement.opening,hbraces,hchars]
    simp
  rw [htext]
  exact statements_inside i hopened hinner hstart hpassed pre t lastReturn

/-- The engine looks for the block of a statement. -/
theorem statements_next (hi : i.Closed) {q : Str} (hq : ∀ u, Opened u → Opened (q++(i.space.chars++u))) {r : Reading}
    (hnext : i.next = some r) (pre t : Str) (lastReturn : Option Str) : ∃ q' done, r.Stands q' ∧
      statements url host (pre++(q++(i.text++t))) (len pre) lastReturn =
        statements url host (done++(q'++t)) (len done) lastReturn := by
  rw [IfStatement.next] at hnext
  by_cases hargument : i.condition.argument.any Literal.braced = true
  · rw [if_pos hargument] at hnext
    obtain ⟨hsilent,hr⟩ := Option.ite_none_right_eq_some.mp hnext
    obtain ⟨a,ha,hb⟩ := (Option.any_eq_true ..).mp hargument
    rw [← Option.some.inj hr]
    exact statements_argument hsilent ha (hi.argument a ha) hb hq pre t lastReturn
  have hhead : Opened i.head := by
    refine opened_head fun a ha => braceless_of_closed (hi.argument a ha) fun hb => hargument ?_
    exact (Option.any_eq_true ..).mpr ⟨a,ha,hb⟩
  rw [if_neg hargument] at hnext
  cases hbraces : i.braces with
  | some p =>
    have hbraced : i.braced = true := by rw [IfStatement.braced,hbraces]; rfl
    rw [if_pos hbraced] at hnext
    obtain ⟨done,hstep⟩ := @statements_own url host i hi.value hhead p hbraces q hq pre t lastReturn
    rw [← Option.some.inj hnext]
    exact ⟨[],done,rfl,hstep⟩
  | none =>
    have hbraced : i.braced = false := by rw [IfStatement.braced,hbraces]; rfl
    rw [hbraced,if_neg Bool.false_ne_true] at hnext
    by_cases hvalue : i.value.braced = true
    · rw [if_pos hvalue] at hnext
      obtain ⟨hsilent,hr⟩ := Option.ite_none_right_eq_some.mp hnext
      have hleft : i.left = r := by
        rw [IfStatement.left,hbraced,← Option.some.inj hr]
        rfl
      rw [← hleft]
      exact statements_value hsilent hi.value hvalue hhead hbraces hq pre t lastReturn
    · rw [if_neg hvalue] at hnext
      have hreturned : Opened (q++(i.space.chars++(i.head++returnText i.value))) :=
        hq _ (hhead.append (returnText_plain (braceless_of_closed hi.value hvalue)))
      refine ⟨q++(i.space.chars++(i.head++returnText i.value)),pre,?_,?_⟩
      · rw [← Option.some.inj hnext]
        exact hreturned
      · rw [IfStatement.text,IfStatement.tail,hbraces]
        simp only [List.append_assoc]

/-- A statement leads the engine from one place to the next. -/
theorem statements_step (hi : i.Closed) {ifs : List IfStatement} {r : Reading} {q : Str} (hq : r.Stands q)
    (hreads : reads r (i::ifs) = true) (pre t : Str) (lastReturn : Option Str) : ∃ r' q' done, r'.Stands q' ∧
      reads r' ifs = true ∧ statements url host (pre++(q++(i.text++t))) (len pre) lastReturn =
        statements url host (done++(q'++t)) (len done) lastReturn := by
  cases r with
  | fresh =>
    rw [reads,Bool.and_eq_true,Option.any_eq_true] at hreads
    obtain ⟨hspace,r',hnext,hreads⟩ := hreads
    have hahead : ∀ u, Opened u → Opened (q++(i.space.chars++u)) := by
      intro u hu
      rw [show q = [] from hq,of_decide_eq_true hspace]
      exact hu
    obtain ⟨q',done,hstands,hstep⟩ := @statements_next url host i hi q hahead r' hnext pre t lastReturn
    exact ⟨r',q',done,hstands,hreads,hstep⟩
  | searching =>
    rw [reads,Option.any_eq_true] at hreads
    obtain ⟨r',hnext,hreads⟩ := hreads
    have hahead : ∀ u, Opened u → Opened (q++(i.space.chars++u)) := fun u hu =>
      Opened.append hq (plain_append i.space.plain hu.plain)
    obtain ⟨q',done,hstands,hstep⟩ := @statements_next url host i hi q hahead r' hnext pre t lastReturn
    exact ⟨r',q',done,hstands,hreads,hstep⟩
  | behind =>
    rw [reads,Bool.and_eq_true] at hreads
    obtain ⟨w,rfl⟩ := hq
    have hstart (g : Str) : noKeyword ((w.chars++['}'])++g) = true := by
      have htrim : trimStart ((w.chars++['}'])++g) = '}'::g := by
        rw [List.append_assoc,trimStart,List.dropWhile_append_of_pos w.whitespace]
        rfl
      rw [noKeyword,htrim]
      rfl
    have hfront : ';' ∉ (w.chars++['}'])++i.space.chars := by
      have hw := w.semicolon_notMem
      have hspace := i.space.semicolon_notMem
      simp [hw,hspace]
    have hpassed := (passed_statement hreads.1).prepend hfront
    rw [List.append_assoc] at hpassed
    obtain ⟨q',done,hstands,hstep⟩ := @statements_left url host i _ (hstart _) hpassed pre t lastReturn
    refine ⟨i.left,q',done,hstands,hreads.2,?_⟩
    rw [i.text_append]
    simpa using hstep

/-- The engine comes to the end of a script that it reads. -/
theorem statements_reads {ifs : List IfStatement} (hifs : ∀ i ∈ ifs, i.Closed) {r : Reading} {q : Str} (hq : r.Stands q)
    (hreads : reads r ifs = true) (pre : Str) (lastReturn : Option Str) :
    statements url host (pre++(q++s.rest ifs)) (len pre) lastReturn = .ok (some s.value.chars) := by
  induction ifs generalizing r q pre with
  | nil =>
    have hfresh : r = .fresh := by simpa [reads] using hreads
    subst hfresh
    have htext : s.rest [] = s.space.chars++(returnText s.value++s.trail.chars) := List.append_assoc ..
    rw [show q = [] from hq,htext]
    exact statements_final s.space.whitespace s.value s.trail.whitespace
  | cons i ifs ih =>
    obtain ⟨hi,hrest⟩ := List.forall_mem_cons.mp hifs
    obtain ⟨r',q',done,hstands,hreads',hstep⟩ := @statements_step url host i hi ifs r q hq hreads pre (s.rest ifs) lastReturn
    rw [Script.rest_cons,hstep]
    exact ih hrest hstands hreads' done

theorem rest_flat {ifs : List IfStatement} (hs : s.Plain) (hifs : ∀ i ∈ ifs, i.Plain) : Flat '{' '}' (s.rest ifs) :=
  ifs_flat hifs (Flat.plain (finalText_plain hs.value))

/-- Without braces in the literals, the block is the one of the statement. -/
theorem IfStatement.Plain.next (h : i.Plain) : i.next = some (if i.braced then .fresh else .searching) := by
  have hnone {a : Literal} (ha : a.Braceless) : a.braced = false := by
    rw [Bool.eq_false_iff]
    exact fun hb => plain_noBrace ha (List.contains_iff_mem.mp hb)
  have hargument : i.condition.argument.any Literal.braced = false := by
    rw [Bool.eq_false_iff]
    intro hany
    obtain ⟨a,ha,hb⟩ := (Option.any_eq_true ..).mp hany
    rw [hnone (h.argument a ha).1] at hb
    cases hb
  rw [IfStatement.next,hargument,hnone h.value]
  cases i.braced <;> rfl

theorem reads_cons {ifs : List IfStatement} {r r' : Reading} (hnext : i.next = some r') (hr : r ≠ .behind)
    (hspace : r = .fresh → i.space.chars = []) (hreads : reads r' ifs = true) : reads r (i::ifs) = true := by
  cases r with
  | fresh => simp [reads,hspace rfl,hnext,hreads]
  | searching => simp [reads,hnext,hreads]
  | behind => exact absurd rfl hr

/-- The engine returns no rule unless it reads the script. -/
theorem reads_of_statements {ifs : List IfStatement} (hs : s.Plain) (hifs : ∀ i ∈ ifs, i.Plain)
    (hshort : ∀ i ∈ ifs, len i.space.chars < 12) (pre : Str) {space : Spaces} {q : Str} {r : Reading}
    (hq : r = .fresh ∧ space.chars = [] ∧ q = [] ∨ r = .searching ∧ len space.chars < 12 ∧ Opened q) {v : Str}
    {lastReturn : Option Str}
    (h : statements url host (pre++(space.chars++(q++s.rest ifs))) (len pre) lastReturn = .ok (some v)) :
    space.chars = [] ∧ reads r ifs = true := by
  induction ifs generalizing space q r pre with
  | nil =>
    rcases hq with ⟨rfl,hspace,rfl⟩ | ⟨rfl,-,hq⟩
    · exact ⟨hspace,rfl⟩
    · have hrest : s.rest [] = s.finalText := rfl
      rw [hrest,statements_unclosed space.whitespace hq (finalText_plain hs.value)] at h
      cases h
  | cons i ifs ih =>
    have hi := hifs i (List.mem_cons_self ..)
    have hrest := fun j hj => hifs j (List.mem_cons_of_mem i hj)
    have hafter := fun j hj => hshort j (List.mem_cons_of_mem i hj)
    obtain ⟨ahead,opened,hlen,hopened,hsplit,hback⟩ : ∃ (ahead : Spaces) (opened : Str), len ahead.chars < 12 ∧
        Opened opened ∧ (∀ t, space.chars++(q++((i.space.chars++i.head)++t)) = ahead.chars++(opened++t)) ∧
        ∀ r', i.next = some r' → ahead.chars = [] → reads r' ifs = true →
          space.chars = [] ∧ reads r (i::ifs) = true := by
      rcases hq with ⟨rfl,hspace,rfl⟩ | ⟨rfl,hspace,hq⟩
      · refine ⟨i.space,i.head,hshort i (List.mem_cons_self ..),hi.opened,by simp [hspace],?_⟩
        intro r' hnext hahead hreads
        exact ⟨hspace,reads_cons hnext nofun (fun _ => hahead) hreads⟩
      · refine ⟨space,q++(i.space.chars++i.head),hspace,hq.append hi.head,by simp,?_⟩
        intro r' hnext hahead hreads
        exact ⟨hahead,reads_cons hnext nofun nofun hreads⟩
    rcases hi.layout with ⟨hbraced,htext⟩ | ⟨hbraced,inner,hinner,hsize,htext⟩
    · have hnext : i.next = some .searching := by simp [hi.next,hbraced]
      rw [Script.rest_cons,htext,hsplit,← List.append_assoc opened] at h
      have hreturned := hopened.append (returnText_plain hi.value)
      obtain ⟨hahead,hreads⟩ := ih hrest hafter _ (Or.inr ⟨rfl,hlen,hreturned⟩) h
      exact hback _ hnext hahead hreads
    · have hnext : i.next = some .fresh := by simp [hi.next,hbraced]
      rw [Script.rest_cons,htext,hsplit] at h
      by_cases hahead : ahead.chars = []
      · obtain ⟨done,-,hblock⟩ := @statements_block url host pre _ _ lastReturn hopened (Balanced.plain hinner) (s.rest ifs)
        rw [hahead,List.nil_append,hblock] at h
        have hboundary : Reading.fresh = .fresh ∧ Spaces.none.chars = [] ∧ ([] : Str) = [] ∨
            Reading.fresh = .searching ∧ len Spaces.none.chars < 12 ∧ Opened [] := Or.inl ⟨rfl,rfl,rfl⟩
        obtain ⟨-,hreads⟩ := ih hrest hafter _ hboundary h
        exact hback _ hnext hahead hreads
      · exact (statements_shifted ahead.whitespace hahead hopened hinner (by omega) (rest_flat hs hrest) v h).elim

/-- The engine runs the loop on the first block behind the marker. -/
theorem evaluateMinimal_block {t : Str} :
    evaluateMinimal (header++ '{'::t) url host =
      match PacEvaluator.matchBrace ('{'::t) with
      | none => .ok none
      | some stop => (slice 1 stop ('{'::t)).bind fun body => statements url host body 0 none := by
  have hmarker : find PacEvaluator.marker (header++ '{'::t) = some 9 := by
    have hindex : indexOf PacEvaluator.marker (header++ '{'::t) = some 9 := rfl
    rw [find,hindex]
    rfl
  have hfrom : sliceFrom 9 (header++ '{'::t) = .ok (header.drop 9++ '{'::t) := sliceFrom_append (header.take 9) _
  have hbrace : findChar '{' (header.drop 9++ '{'::t) = some 27 := findChar_append (by decide) _
  have hbody : sliceFrom (9+27) (header++ '{'::t) = .ok ('{'::t) := sliceFrom_append header _
  rw [evaluateMinimal,hmarker]
  simp only [bind,Except.bind,hfrom,hbrace,hbody]
  rfl

theorem evaluateMinimal_text {body : Str} (h : Balanced '{' '}' body) (rest : Str) :
    evaluateMinimal (header++ '{'::(body++ '}'::rest)) url host = statements url host body 0 none := by
  have hmatch : PacEvaluator.matchBrace ('{'::(body++ '}'::rest)) = some (1+len body) := matchBrace_block (by decide) h rest
  have hslice : slice 1 (1+len body) ('{'::(body++ '}'::rest)) = .ok body := slice_append ['{'] body ('}'::rest)
  rw [evaluateMinimal_block,hmatch]
  simp only [hslice,Except.bind]

theorem evaluateMinimal_script (h : Balanced '{' '}' s.body) :
    evaluateMinimal s.text url host = statements url host s.body 0 none := evaluateMinimal_text h []

/-- A literal of the final return that the end of the script cuts off before a brace. -/
theorem evaluateMinimal_cut (space : Spaces) {u : Str} (hu : Balanced '{' '}' u) (hquote : '"' ∉ u) (rest : Str) :
    evaluateMinimal (header++ '{'::((space.chars++(['r','e','t','u','r','n',' ','"']++u))++ '}'::rest)) url host =
      .ok (some u) := by
  have hreturn : Balanced '{' '}' (['r','e','t','u','r','n',' ','"']++u) := (Balanced.plain (by decide)).append hu
  have hstatement : returnStatement (['r','e','t','u','r','n',' ','"']++u) = .ok (u,len ('"'::u)) := by
    have htail : sliceFrom (len returnKeyword) (['r','e','t','u','r','n',' ','"']++u) = .ok ('"'::u) :=
      sliceFrom_append returnKeyword _
    have htrim : trimStart ('"'::u) = '"'::u := rfl
    have hstarts : startsWith ('"'::u) ['"'] = true := rfl
    have hquoted : sliceFrom 1 ('"'::u) = .ok u := sliceFrom_append ['"'] u
    have hvalue : trimMatches '"' ('"'::u) = u := by
      have hdrop : u.dropWhile (· == '"') = u := by
        refine List.dropWhile_eq_self_iff.mpr fun hlength heq => hquote ?_
        exact eq_of_beq heq ▸ List.getElem_mem hlength
      rw [trimMatches,List.dropWhile_cons_of_pos rfl,hdrop]
      refine List.rdropWhile_eq_self_iff.mpr fun hne heq => hquote ?_
      exact eq_of_beq heq ▸ List.getLast_mem hne
    rw [returnStatement,htail]
    simp only [bind,Except.bind,htrim,Nat.sub_self,Nat.add_zero,htail,hstarts,if_true,hquoted,findChar_none hquote,
      hvalue,Nat.zero_add]
    rfl
  rw [evaluateMinimal_text ((Balanced.plain space.plain).append hreturn)]
  have hread := @statements_return url host [] space.chars _ none space.whitespace rfl (List.cons_ne_nil _ _) rfl u _ hstatement
  refine hread.trans ?_
  have hpos : len ([] : Str)+len space.chars+(7+len ('"'::u)) =
      len ([]++(space.chars++(['r','e','t','u','r','n',' ','"']++u))) := by
    have hkeyword : len returnKeyword = 7 := rfl
    have hsplit : ['r','e','t','u','r','n',' ','"']++u = returnKeyword++ '"'::u := rfl
    rw [hsplit,List.nil_append,len_append,len_append,hkeyword]
    exact Nat.zero_add _ ▸ rfl
  rw [hpos]
  exact statements_end

/-- A script whose last literal leaves a block open has no end. -/
theorem evaluateMinimal_open {front value back : Str} (hfront : TextScan.Plain '{' '}' front)
    (hvalue : LeavesOpen Char.utf8Size '{' '}' value) (hback : TextScan.Plain '{' '}' back) :
    evaluateMinimal (header++ '{'::((front++(value++back))++['}'])) url host = .ok none := by
  obtain ⟨n,hn,hvalue⟩ := hvalue
  have hmatch : PacEvaluator.matchBrace ('{'::((front++(value++back))++['}'])) = none := by
    rw [PacEvaluator.matchBrace,matchBrace_open,List.append_assoc,matchBrace_plain hfront,List.append_assoc,
      hvalue _ (by omega),matchBrace_plain hback,matchBrace_close (by decide) (by omega)]
    rfl
  rw [evaluateMinimal_block,hmatch]

theorem rest_plain {ifs : List IfStatement} (hs : s.Plain) (hifs : ∀ i ∈ ifs, i.Plain)
    (hbraced : ∀ i ∈ ifs, i.braced = false) : TextScan.Plain '{' '}' (s.rest ifs) := by
  induction ifs with
  | nil => exact finalText_plain hs.value
  | cons i ifs ih =>
    have hi := hifs i (List.mem_cons_self ..)
    have hrest := ih (fun j hj => hifs j (List.mem_cons_of_mem i hj)) fun j hj => hbraced j (List.mem_cons_of_mem i hj)
    rcases hi.layout with ⟨-,htext⟩ | ⟨htrue,-⟩
    · rw [Script.rest_cons,htext]
      exact plain_append hi.head (plain_append (returnText_plain hi.value) hrest)
    · rw [hbraced i (List.mem_cons_self ..)] at htrue
      cases htrue

/-- The engine returns nothing for a script whose if-statements are all without braces. -/
theorem evaluateMinimal_unbraced (hs : s.Plain) (hne : s.ifs ≠ []) (hbraced : ∀ i ∈ s.ifs, i.braced = false) :
    evaluateMinimal s.text url host = .ok none := by
  obtain ⟨i,ifs,hcons⟩ := List.exists_cons_of_ne_nil hne
  have hmem : i ∈ s.ifs := hcons ▸ List.mem_cons_self ..
  have hi := hs.ifs i hmem
  have hrest : TextScan.Plain '{' '}' (s.rest ifs) := by
    refine rest_plain hs (fun j hj => hs.ifs j ?_) fun j hj => hbraced j ?_
    all_goals exact hcons ▸ List.mem_cons_of_mem i hj
  rw [evaluateMinimal_script hs.balanced]
  rcases hi.layout with ⟨-,htext⟩ | ⟨htrue,-⟩
  · have hbody : s.body = []++(i.space.chars++(i.head++(returnText i.value++s.rest ifs))) := by
      have hsplit : s.body = s.rest (i::ifs) := by rw [← hcons]; rfl
      rw [hsplit,Script.rest_cons,htext,List.append_assoc]
      rfl
    rw [hbody]
    exact statements_unclosed i.space.whitespace hi.opened (plain_append (returnText_plain hi.value) hrest)
  · rw [hbraced i hmem] at htrue
    cases htrue

end Engine

section Agreement

/-- Both interpreters return the same rule. -/
def SameRule (s : Script) (url host : Str) : Prop :=
  ∃ rule, PacEngine.findProxyForURL (utf8 s.text) (utf8 url) (utf8 host) = .ok (some ⟨utf8 rule⟩) ∧
    evaluateMinimal s.text url host = .ok (some rule)

/-- The braces of the literals match, the engine comes to the final return, and the first return
that the network library finds begins with the whole of its value. -/
structure Agreeable (s : Script) : Prop where
  closed : ∀ i ∈ s.ifs, i.Closed
  worded : ∀ i ∈ s.ifs, i.Worded
  value : Balanced '{' '}' s.value.chars
  reads : PacScripts.reads .fresh s.ifs = true
  picked : PacScripts.picked s false s.ifs = some s.value.chars

/-- Literals without braces, white space before an `if` that is shorter than any block, and no
keyword in the last value. -/
structure Ordinary (s : Script) : Prop where
  plain : s.Plain
  short : ∀ i ∈ s.ifs, len i.space.chars < 12
  inert : Inert (words s.value.chars)

variable {s : Script}

theorem Agreeable.sameRule (h : Agreeable s) (url host : Str) : SameRule s url host := by
  have hbody := Script.body_balanced h.closed h.value
  refine ⟨s.value.chars,?_,?_⟩
  · rw [findProxyForURL_picked hbody h.worded (by simp [h.picked]),h.picked]
    rfl
  · rw [evaluateMinimal_script hbody]
    exact statements_reads h.closed (r:=.fresh) (q:=[]) rfl h.reads [] none

/-- The rule that both return for a script that the engine reads is the last value. -/
theorem SameRule.agreeable {url host : Str} (h : SameRule s url host) (hclosed : ∀ i ∈ s.ifs, i.Closed)
    (hworded : ∀ i ∈ s.ifs, i.Worded) (hvalue : Balanced '{' '}' s.value.chars) (hreads : reads .fresh s.ifs = true)
    (hinert : picked s false s.ifs = none → Inert (words s.value.chars)) : Agreeable s := by
  obtain ⟨rule,hpicked,hrule⟩ := h
  have hbody := Script.body_balanced hclosed hvalue
  have hfinal : statements url host s.body 0 none = .ok (some s.value.chars) :=
    statements_reads hclosed (r:=.fresh) (q:=[]) rfl hreads [] none
  rw [evaluateMinimal_script hbody,hfinal] at hrule
  have hlast : rule = s.value.chars := (Option.some.inj (Except.ok.inj hrule)).symm
  refine ⟨hclosed,hworded,hvalue,hreads,?_⟩
  rw [findProxyForURL_picked hbody hworded hinert,hlast] at hpicked
  cases hfound : picked s false s.ifs with
  | none =>
    rw [hfound] at hpicked
    cases hpicked
  | some value =>
    rw [hfound] at hpicked
    have hutf8 : utf8 value = utf8 s.value.chars :=
      congrArg ProxyConfigs.PacResult.proxy (Option.some.inj (Except.ok.inj hpicked))
    rw [utf8_injective hutf8]

theorem SameRule.agreeable_ordinary {url host : Str} (h : SameRule s url host) (hs : Ordinary s) : Agreeable s := by
  have hclosed : ∀ i ∈ s.ifs, i.Closed := fun i hi => (hs.plain.ifs i hi).closed
  have hworded : ∀ i ∈ s.ifs, i.Worded := fun i hi => (hs.plain.ifs i hi).worded
  refine h.agreeable hclosed hworded (Balanced.plain hs.plain.value) ?_ fun _ => hs.inert
  obtain ⟨rule,-,hrule⟩ := h
  rw [evaluateMinimal_script hs.plain.balanced] at hrule
  have hboundary : Reading.fresh = .fresh ∧ Spaces.none.chars = [] ∧ ([] : Str) = [] ∨
      Reading.fresh = .searching ∧ len Spaces.none.chars < 12 ∧ Opened [] := Or.inl ⟨rfl,rfl,rfl⟩
  exact (reads_of_statements hs.plain hs.plain.ifs hs.short [] hboundary hrule).2

/-- Without an if-statement, the braces of the value match, or a brace of the value ends the
script, or nothing does. -/
theorem SameRule.agreeable_unconditional {url host : Str} (h : SameRule s url host) (hs : s.ifs = []) : Agreeable s := by
  have hnone : ∀ i ∈ s.ifs, False := by rw [hs]; exact nofun
  have hbody (t : Str) : s.body++t = s.space.chars++(['r','e','t','u','r','n',' ','"']++
      (s.value.chars++(['"',';']++(s.trail.chars++t)))) := by
    simp [Script.body,hs,Script.finalText,returnText]
  rcases @balanced_or_open Char Char.utf8Size '{' '}' _ (by decide) s.value.chars with
    hvalue | ⟨u,w,hcut,hu⟩ | hopen
  · refine h.agreeable (fun i hi => (hnone i hi).elim) (fun i hi => (hnone i hi).elim) hvalue (by rw [hs]; rfl) ?_
    intro hpicked
    rw [hs] at hpicked
    cases hpicked
  · obtain ⟨rule,hpicked,hrule⟩ := h
    have htext : s.text = header++ '{'::((s.space.chars++(['r','e','t','u','r','n',' ','"']++u))++ '}'::
        (w++(['"',';']++(s.trail.chars++['}'])))) := by
      rw [Script.text,hbody,hcut]
      simp
    have hquote : '"' ∉ u := fun hmem => s.value.noQuote (hcut ▸ List.mem_append_left _ hmem)
    rw [htext,evaluateMinimal_cut s.space hu hquote] at hrule
    rw [htext,findProxyForURL_cut s.space hu,← Option.some.inj (Except.ok.inj hrule)] at hpicked
    exfalso
    cases hhead : (words (u++['}'])).head? with
    | none =>
      rw [hhead] at hpicked
      cases hpicked
    | some v =>
      rw [hhead] at hpicked
      have hutf8 : utf8 v = utf8 u := congrArg ProxyConfigs.PacResult.proxy (Option.some.inj (Except.ok.inj hpicked))
      exact words_brace_head u (hhead.trans (congrArg some (utf8_injective hutf8)))
  · obtain ⟨rule,-,hrule⟩ := h
    have htext : s.text = header++ '{'::(((s.space.chars++['r','e','t','u','r','n',' ','"'])++
        (s.value.chars++(['"',';']++s.trail.chars)))++['}']) := by
      rw [Script.text,hbody]
      simp
    have hfront := plain_append s.space.plain (by decide : TextScan.Plain '{' '}' ['r','e','t','u','r','n',' ','"'])
    have hback := plain_append (by decide : TextScan.Plain '{' '}' ['"',';']) s.trail.plain
    rw [htext,evaluateMinimal_open hfront hopen hback] at hrule
    cases hrule

/-- The interpreters agree for a script that is agreeable, whatever the url and the host,
and only for such a script if it is ordinary or has no if-statement. -/
theorem sameRule_iff (s : Script) (url host : Str) :
    (Agreeable s → SameRule s url host) ∧ (Ordinary s ∨ s.ifs = [] → SameRule s url host → Agreeable s) := by
  constructor
  · intro h
    exact h.sameRule url host
  · rintro (hs | hs) h
    · exact h.agreeable_ordinary hs
    · exact h.agreeable_unconditional hs

example : Agreeable ⟨[],Spaces.none,⟨['a','{','b','}'],by decide⟩,Spaces.none⟩ where
  closed := nofun
  worded := nofun
  value := by
    have hbefore : TextScan.Plain '{' '}' ['a'] := by decide
    have hinner : TextScan.Plain '{' '}' ['b'] := by decide
    exact Balanced.block hbefore (Balanced.plain hinner) (Balanced.plain plain_nil)
  reads := rfl
  picked := by decide

/-- `if (isPlainHostName(host)) {return "PROXY a:1";} return "DIRECT";` -/
def guardedProxy : Script where
  ifs := [⟨Spaces.none,.isPlainHostName,some (Spaces.none,Spaces.none),⟨['P','R','O','X','Y',' ','a',':','1'],by decide⟩⟩]
  space := ⟨[' '],List.all_iff_forall_prop.mp (by decide)⟩
  value := ⟨['D','I','R','E','C','T'],by decide⟩
  trail := Spaces.none

theorem guardedProxy_plain : guardedProxy.Plain where
  ifs i hi := by
    rw [List.mem_singleton.mp hi]
    exact ⟨nofun,by decide,by decide,by decide⟩
  value := by decide

theorem guardedProxy_agreeable : Agreeable guardedProxy where
  closed i hi := (guardedProxy_plain.ifs i hi).closed
  worded i hi := (guardedProxy_plain.ifs i hi).worded
  value := Balanced.plain guardedProxy_plain.value
  reads := by decide
  picked := by decide

theorem sameRule_iff_guardedProxy :
    SameRule guardedProxy ['h','t','t','p',':','/','/','a'] ['a'] ∧ Agreeable guardedProxy := by
  have hordinary : Ordinary guardedProxy := by
    refine ⟨guardedProxy_plain,fun i hi => ?_,by decide⟩
    rw [List.mem_singleton.mp hi]
    decide
  have hsame := (sameRule_iff guardedProxy ['h','t','t','p',':','/','/','a'] ['a']).1 guardedProxy_agreeable
  exact ⟨hsame,(sameRule_iff guardedProxy _ _).2 (.inl hordinary) hsame⟩

def indent : Spaces := ⟨['\n',' ',' '],List.all_iff_forall_prop.mp (by decide)⟩

/-- The script of the unit test of the network library. -/
def commonPredicates : Script where
  ifs := [
    ⟨indent,.isPlainHostName,none,⟨['D','I','R','E','C','T'],by decide⟩⟩,
    ⟨indent,.dnsDomainIs ⟨['.','c','o','r','p','.','e','x','a','m','p','l','e'],by decide⟩,none,
      ⟨['P','R','O','X','Y',' ','p','r','o','x','y','.','c','o','r','p','.','e','x','a','m','p','l','e',':','3','1','2','8'],
        by decide⟩⟩,
    ⟨indent,.shExpMatch .url ⟨['h','t','t','p',':','/','/','*','.','e','x','a','m','p','l','e','/','*'],by decide⟩,none,
      ⟨['S','O','C','K','S','5',' ','s','o','c','k','s','.','l','o','c','a','l',':','1','0','8','0'],by decide⟩⟩]
  space := indent
  value := ⟨['D','I','R','E','C','T'],by decide⟩
  trail := ⟨['\n'],List.all_iff_forall_prop.mp (by decide)⟩

theorem commonPredicates_plain : commonPredicates.Plain where
  ifs i hi := by
    simp only [commonPredicates,List.mem_cons,List.not_mem_nil,or_false] at hi
    rcases hi with rfl | rfl | rfl
    · exact ⟨fun _ ha => (Option.some_ne_none _ ha.symm).elim,by decide,by decide,by decide⟩
    · exact ⟨by decide,by decide,by decide,by decide⟩
    · exact ⟨by decide,by decide,by decide,by decide⟩
  value := by decide

/-- For that script, a plain host name and its url the network library returns `SOCKS5` and
the engine nothing. -/
theorem sameRule_fails :
    PacEngine.findProxyForURL (utf8 commonPredicates.text) (utf8 ['h','t','t','p',':','/','/','i','n','t','r','a'])
      (utf8 ['i','n','t','r','a']) = .ok (some ⟨utf8 ['S','O','C','K','S','5']⟩) ∧
    evaluateMinimal commonPredicates.text ['h','t','t','p',':','/','/','i','n','t','r','a'] ['i','n','t','r','a'] =
      .ok none ∧
    ¬∀ s url host, SameRule s url host := by
  have hzig : ∀ url host, PacEngine.findProxyForURL (utf8 commonPredicates.text) url host =
      .ok (some ⟨utf8 ['S','O','C','K','S','5']⟩) := by
    intro url host
    have hpicked : picked commonPredicates false commonPredicates.ifs = some ['S','O','C','K','S','5'] := by decide
    rw [findProxyForURL_picked commonPredicates_plain.balanced (fun i hi => (commonPredicates_plain.ifs i hi).worded)
      (by simp [hpicked]),hpicked]
    rfl
  have hengine : ∀ url host, evaluateMinimal commonPredicates.text url host = .ok none := by
    intro url host
    refine evaluateMinimal_unbraced commonPredicates_plain (List.cons_ne_nil _ _) fun i hi => ?_
    simp only [commonPredicates,List.mem_cons,List.not_mem_nil,or_false] at hi
    rcases hi with rfl | rfl | rfl <;> rfl
  refine ⟨hzig _ _,hengine _ _,fun h => ?_⟩
  obtain ⟨rule,-,hrule⟩ := h commonPredicates [] []
  rw [hengine] at hrule
  cases hrule

end Agreement

end ZNet.PacScripts
