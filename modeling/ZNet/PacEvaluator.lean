import ZNet.Utf8Text

/-!
# The PAC interpreter of the engine

`evaluateMinimal` works on offsets in the text of the script. A condition includes its
opening parenthesis, and the white space before an `if` is counted twice where the block
is looked for.
-/

namespace ZNet.PacEvaluator
open TextScan Utf8Text

abbrev Str := List Char

def marker : Str := ['F','i','n','d','P','r','o','x','y','F','o','r','U','R','L']
def returnKeyword : Str := ['r','e','t','u','r','n',' ']
def ifKeyword : Str := ['i','f',' ']
def isPlainHostNameCall : Str := ['i','s','P','l','a','i','n','H','o','s','t','N','a','m','e','(']
def dnsDomainIsCall : Str := ['d','n','s','D','o','m','a','i','n','I','s','(']
def shExpMatchCall : Str := ['s','h','E','x','p','M','a','t','c','h','(']

def startsWith (s needle : Str) : Bool := needle.isPrefixOf s

def stripPrefix (s needle : Str) : Option Str := if needle.isPrefixOf s then some (s.drop needle.length) else none

/-- The second of two arguments or more, and the first. -/
def arguments (inside : Str) : Option (Str×Str) :=
  match inside.splitOn ',' with
  | first::second::_ => some (trimMatches '"' (Utf8Text.trim first),trimMatches '"' (Utf8Text.trim second))
  | _ => none

def evalCond (cond _url host : Str) : Bool :=
  let cond := Utf8Text.trim (trimEndMatches '{' (Utf8Text.trim cond))
  match stripPrefix cond isPlainHostNameCall with
  | some rest => decide ('.' ∉ trimMatches '"' (trimEndMatches ')' rest))
  | none =>
    match (stripPrefix cond dnsDomainIsCall).bind fun rest => arguments (trimEndMatches ')' rest) with
    | some (_,second) => second.isSuffixOf host
    | none =>
      match (stripPrefix cond shExpMatchCall).bind fun rest => arguments (trimEndMatches ')' rest) with
      | some (first,second) => globMatch '*' '?' second first
      | none => false

def matchBrace (s : Str) : Option ℕ := TextScan.matchBrace Char.utf8Size '{' '}' 0 0 s

/-- How far the rest of a quoted value goes: behind a `;`, or up to a line end or to
anything that is no white space. -/
def semiOffset : ℕ → Str → ℕ
  | i,[] => i
  | i,c::cs =>
    if c = ';' then i+1
    else if c = '\n' ∨ ¬isWhitespace c ∧ c ≠ '\r' then i
    else semiOffset (i+c.utf8Size) cs

/-- A value without quotes: up to the `;` or the end of its line. -/
def unquoted (afterStart : Str) : Except Panic (Str×ℕ) :=
  match findChar '\n' afterStart with
  | some nlIdx => do
    let line ← sliceTo nlIdx afterStart
    match findChar ';' line with
    | some semiIdx => pure (Utf8Text.trim (← sliceTo semiIdx afterStart),semiIdx+1)
    | none => pure (Utf8Text.trim line,nlIdx+1)
  | none =>
    match findChar ';' afterStart with
    | some semiIdx => do
      let value ← sliceTo semiIdx afterStart
      pure (Utf8Text.trim value,semiIdx+1)
    | none => pure (Utf8Text.trim afterStart,len afterStart)

/-- The value of a `return` statement, and what is consumed after the keyword. -/
def returnStatement (s : Str) : Except Panic (Str×ℕ) := do
  let afterKeyword ← sliceFrom (len returnKeyword) s
  let skipped := len afterKeyword-len (trimStart afterKeyword)
  let afterStart ← sliceFrom (len returnKeyword+skipped) s
  if startsWith afterStart ['"'] then do
    let quoted ← sliceFrom 1 afterStart
    match findChar '"' quoted with
    | some closeQuote => do
      let value ← slice 1 (1+closeQuote) afterStart
      let afterQuote ← sliceFrom (1+closeQuote) afterStart
      pure (value,skipped+1+closeQuote+semiOffset 0 afterQuote)
    | none => pure (trimMatches '"' afterStart,skipped+len afterStart)
  else do
    let (value,semiIdx) ← unquoted afterStart
    pure (value,skipped+semiIdx)

/-- The value that a block returns, if it does. -/
def blockReturn (block : Str) : Except Panic (Option Str) :=
  match find returnKeyword block with
  | none => pure none
  | some retOff => do
    let retStmt ← sliceFrom retOff block
    let retAfter := Utf8Text.trim (← sliceFrom (len returnKeyword) retStmt)
    if startsWith retAfter ['"'] then do
      let quoted ← sliceFrom 1 retAfter
      match findChar '"' quoted with
      | some closeQuote => do
        let value ← slice 1 (1+closeQuote) retAfter
        pure (some value)
      | none => pure (some (trimMatches '"' retAfter))
    else do
      let line := (retAfter.splitOn '\n').headD []
      match findChar ';' line with
      | some semi => do
        let value ← sliceTo semi line
        pure (some (Utf8Text.trim value))
      | none => pure (some (Utf8Text.trim line))

/-- The loop over the statements of the body, from an offset on. -/
def statements (url host body : Str) (pos : ℕ) (lastReturn : Option Str) : Except Panic (Option Str) :=
  if pos < len body then do
    let rest ← sliceFrom pos body
    let s := trimStart rest
    let skipped := len rest-len s
    if startsWith s returnKeyword then do
      let (v,consumed) ← returnStatement s
      statements url host body (pos+skipped+(7+consumed)) (some v)
    else if startsWith s ifKeyword then
      match findChar '{' s with
      | none => pure none
      | some condEnd => do
        let cond ← slice (len ifKeyword) condEnd s
        let matched := evalCond (Utf8Text.trim cond) url host
        let blockPos := pos+skipped+(skipped+condEnd)
        let blockWithBrace ← sliceFrom blockPos body
        match matchBrace blockWithBrace with
        | none => pure none
        | some close => do
          let returned ← if matched then do
              let block ← slice 1 close blockWithBrace
              blockReturn block
            else pure none
          statements url host body (blockPos+close+1) (returned.or lastReturn)
    else do
      let tail ← sliceFrom (pos+skipped) body
      match findChar ';' tail with
      | some semi => statements url host body (pos+skipped+semi+1) lastReturn
      | none => pure lastReturn
  else pure lastReturn
termination_by len body-pos
decreasing_by all_goals omega

def evaluateMinimal (src url host : Str) : Except Panic (Option Str) :=
  match find marker src with
  | none => pure none
  | some idx => do
    let fromMarker ← sliceFrom idx src
    match findChar '{' fromMarker with
    | none => pure none
    | some bodyStart => do
      let bodyWithBrace ← sliceFrom (idx+bodyStart) src
      match matchBrace bodyWithBrace with
      | none => pure none
      | some stop => do
        let body ← slice 1 stop bodyWithBrace
        statements url host body 0 none

section Conditions

theorem rdropWhile_cons {p : Char → Bool} {c : Char} (hc : p c = false) (s : Str) :
    (c::s).rdropWhile p = c::s.rdropWhile p := @rdropWhile_append Char p [c] (by simpa using hc) (by simp) s

theorem trim_paren (s : Str) : Utf8Text.trim ('('::s) = '('::s.rdropWhile isWhitespace := by
  have hstart : trimStart ('('::s) = '('::s := rfl
  rw [Utf8Text.trim,hstart]
  exact rdropWhile_cons (by decide) s

/-- A condition that includes its opening parenthesis does not hold. -/
theorem evalCond_paren (s url host : Str) : evalCond (Utf8Text.trim ('('::s)) url host = false := by
  obtain ⟨t,ht⟩ : ∃ t, Utf8Text.trim (trimEndMatches '{' (Utf8Text.trim (Utf8Text.trim ('('::s)))) = '('::t := by
    rw [trim_paren,trim_paren,trimEndMatches,rdropWhile_cons (by decide),trim_paren]
    exact ⟨_,rfl⟩
  rw [evalCond,ht]
  rfl

end Conditions

/-- The slices of a quoted text up to its second quote. -/
theorem quoted_slices (u t : Str) :
    sliceFrom 1 ('"'::(u++ '"'::t)) = .ok (u++ '"'::t) ∧ slice 1 (1+len u) ('"'::(u++ '"'::t)) = .ok u ∧
      sliceFrom (1+len u) ('"'::(u++ '"'::t)) = .ok ('"'::t) :=
  ⟨sliceFrom_append ['"'] _,slice_append ['"'] u _,sliceFrom_append ('"'::u) _⟩

section Statements

variable {url host pre space s : Str} {lastReturn : Option Str}

theorem len_pos (h : s ≠ []) : 0 < len s := by
  cases s with
  | nil => exact (h rfl).elim
  | cons c s =>
    have hpos := c.utf8Size_pos
    rw [len_cons]
    omega

theorem before_end (hne : s ≠ []) : len pre < len (pre++(space++s)) := by
  have hpos := len_pos hne
  rw [len_append,len_append]
  omega

/-- What the loop finds at a statement that follows white space. -/
theorem ahead (hspace : ∀ c ∈ space, isWhitespace c = true) (hs : trimStart s = s) :
    sliceFrom (len pre) (pre++(space++s)) = .ok (space++s) ∧ trimStart (space++s) = s ∧
      len (space++s)-len s = len space := by
  refine ⟨sliceFrom_append _ _,?_,?_⟩
  · rw [trimStart,List.dropWhile_append_of_pos hspace]
    exact hs
  · rw [len_append,Nat.add_sub_cancel]

theorem statements_end : statements url host pre (len pre) lastReturn = .ok lastReturn := by
  rw [statements,if_neg (Nat.lt_irrefl _)]
  rfl

theorem statements_return (hspace : ∀ c ∈ space, isWhitespace c = true) (hs : trimStart s = s) (hne : s ≠ [])
    (hreturn : startsWith s returnKeyword = true) {v : Str} {consumed : ℕ} (hv : returnStatement s = .ok (v,consumed)) :
    statements url host (pre++(space++s)) (len pre) lastReturn =
      statements url host (pre++(space++s)) (len pre+len space+(7+consumed)) (some v) := by
  obtain ⟨hrest,htrim,hskipped⟩ := @ahead pre space s hspace hs
  rw [statements,if_pos (before_end hne),hrest]
  simp only [bind,Except.bind,htrim,hskipped,hreturn,if_true,hv]

/-- Without a block after it, an `if` ends the evaluation. -/
theorem statements_open (hspace : ∀ c ∈ space, isWhitespace c = true) (hs : trimStart s = s) (hne : s ≠ [])
    (hreturn : startsWith s returnKeyword = false) (hif : startsWith s ifKeyword = true)
    (hbrace : findChar '{' s = none) :
    statements url host (pre++(space++s)) (len pre) lastReturn = .ok none := by
  obtain ⟨hrest,htrim,hskipped⟩ := @ahead pre space s hspace hs
  rw [statements,if_pos (before_end hne),hrest]
  simp only [bind,Except.bind,htrim,hskipped,hreturn,hif,hbrace,Bool.false_eq_true,if_false,if_true]
  rfl

/-- With a condition that does not hold, an `if` skips a block. -/
theorem statements_skip (hspace : ∀ c ∈ space, isWhitespace c = true) (hs : trimStart s = s) (hne : s ≠ [])
    (hreturn : startsWith s returnKeyword = false) (hif : startsWith s ifKeyword = true) {condEnd : ℕ}
    (hbrace : findChar '{' s = some condEnd) {cond : Str} (hcond : slice (len ifKeyword) condEnd s = .ok cond)
    (heval : evalCond (Utf8Text.trim cond) url host = false) :
    statements url host (pre++(space++s)) (len pre) lastReturn =
      (sliceFrom (len pre+len space+(len space+condEnd)) (pre++(space++s))).bind fun block =>
        match matchBrace block with
        | none => .ok none
        | some close => statements url host (pre++(space++s))
            (len pre+len space+(len space+condEnd)+close+1) lastReturn := by
  obtain ⟨hrest,htrim,hskipped⟩ := @ahead pre space s hspace hs
  rw [statements,if_pos (before_end hne),hrest]
  simp only [bind,Except.bind,htrim,hskipped,hreturn,hif,hbrace,hcond,heval,Bool.false_eq_true,if_false,if_true]
  rfl

/-- Anything else is skipped up to its semicolon. -/
theorem statements_other (hspace : ∀ c ∈ space, isWhitespace c = true) (hs : trimStart s = s) (hne : space++s ≠ [])
    (hreturn : startsWith s returnKeyword = false) (hif : startsWith s ifKeyword = false) :
    statements url host (pre++(space++s)) (len pre) lastReturn =
      match findChar ';' s with
      | some semi => statements url host (pre++(space++s)) (len pre+len space+semi+1) lastReturn
      | none => .ok lastReturn := by
  obtain ⟨hrest,htrim,hskipped⟩ := @ahead pre space s hspace hs
  have htail : sliceFrom (len pre+len space) (pre++(space++s)) = .ok s := by
    rw [← len_append,← List.append_assoc]
    exact sliceFrom_append _ _
  have hlt : len pre < len (pre++(space++s)) := by
    have hpos := len_pos hne
    rw [len_append]
    omega
  rw [statements,if_pos hlt,hrest]
  simp only [bind,Except.bind,htrim,hskipped,hreturn,hif,htail,Bool.false_eq_true,if_false]
  rfl

end Statements

end ZNet.PacEvaluator
