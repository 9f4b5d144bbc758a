import ZNet.ProxyConfig

/-!
# The PAC interpreter of the network library

`findProxyForURL` splits the body of the script into tokens and returns the token after
the first `return` that `evalCond` does not consume. The conditions are evaluated, but
their values are not used.
-/

namespace ZNet.PacEngine
open TextScan ProxyConfigs

inductive PacError
  | unsupportedPacFunction | panic
deriving DecidableEq

def marker : Text := ascii ['F','i','n','d','P','r','o','x','y','F','o','r','U','R','L']

def delimiters : Text :=
  ascii [' ','\t','\n','\r','(',')',';',',','!','|','&','=','<','>','+','-','*','/','"','\'']

def isDelimiter (b : UInt8) : Bool := decide (b ∈ delimiters)

def returnToken : Text := ascii ['r','e','t','u','r','n']
def ifToken : Text := ascii ['i','f']
def isPlainHostNameToken : Text := ascii ['i','s','P','l','a','i','n','H','o','s','t','N','a','m','e']
def dnsDomainIsToken : Text := ascii ['d','n','s','D','o','m','a','i','n','I','s']
def isInNetToken : Text := ascii ['i','s','I','n','N','e','t']
def shExpMatchToken : Text := ascii ['s','h','E','x','p','M','a','t','c','h']
def localHostOrDomainIsToken : Text :=
  ascii ['l','o','c','a','l','H','o','s','t','O','r','D','o','m','a','i','n','I','s']

/-- The value of a condition from the tokens after `if`, of which four are consumed. -/
def evalCond (host : Text) : List Text → Except PacError (Option Bool)
  | fnName::_::arg1::arg2::_ =>
    let arg1 := trim (ascii ['"',',']) arg1
    let arg2 := trim (ascii ['"',')']) arg2
    if fnName = isPlainHostNameToken then .ok (some (decide (0x2e ∉ arg1)))
    else if fnName = dnsDomainIsToken then .ok (some (arg1.isSuffixOf host))
    else if fnName = isInNetToken then .error .panic
    else if fnName = shExpMatchToken then .ok (some (globMatch 0x2a 0x3f arg2 arg1))
    else if fnName = localHostOrDomainIsToken then .ok (some (host == arg1))
    else .error .unsupportedPacFunction
  | _ => .ok none

/-- The loop over the tokens. -/
def scan (host : Text) : List Text → Except PacError (Option Text)
  | [] => .ok none
  | tok::rest =>
    if tok = returnToken then .ok (rest.head?.map (trim (ascii ['"',' '])))
    else if tok = ifToken then do
      let _ ← evalCond host rest
      scan host (rest.drop 4)
    else scan host rest
termination_by tokens => tokens.length
decreasing_by
  · simp only [List.length_drop,List.length_cons]
    omega
  · simp only [List.length_cons]
    omega

/-- `matchBrace` is only called on text that starts with a brace, where the depth stays
positive up to the end of the block. The url is not used. -/
def findProxyForURL (source _url host : Text) : Except PacError (Option PacResult) :=
  match indexOf marker source with
  | none => .ok none
  | some idx =>
    match (source.drop idx).idxOf? 0x7b with
    | none => .ok none
    | some bodyStart =>
      match matchBrace (fun _ => 1) 0x7b 0x7d 0 0 (source.drop (idx+bodyStart)) with
      | none => .ok none
      | some stop =>
        let body := (source.drop (idx+bodyStart+1)).take stop
        (scan host (tokenizeAny isDelimiter body)).map fun value => value.map PacResult.mk

theorem evalCond_independent (host host' : Text) (tokens : List Text) :
    (∃ value value', evalCond host tokens = .ok value ∧ evalCond host' tokens = .ok value') ∨
    ∃ e, evalCond host tokens = .error e ∧ evalCond host' tokens = .error e := by
  match tokens with
  | fnName::_::_::_::_ =>
    simp only [evalCond]
    split_ifs
    · exact Or.inl ⟨_,_,rfl,rfl⟩
    · exact Or.inl ⟨_,_,rfl,rfl⟩
    · exact Or.inr ⟨_,rfl,rfl⟩
    · exact Or.inl ⟨_,_,rfl,rfl⟩
    · exact Or.inl ⟨_,_,rfl,rfl⟩
    · exact Or.inr ⟨_,rfl,rfl⟩
  | [] | [_] | [_,_] | [_,_,_] => exact Or.inl ⟨none,none,rfl,rfl⟩

theorem scan_independent (host host' : Text) (tokens : List Text) : scan host tokens = scan host' tokens := by
  fun_induction scan host tokens with
  | case1 => rw [scan]
  | case2 rest => rw [scan,if_pos rfl]
  | case3 rest hne ih =>
    rw [scan,if_neg hne,if_pos rfl]
    rcases evalCond_independent host host' rest with ⟨value,value',hvalue,hvalue'⟩ | ⟨e,he,he'⟩
    · rw [hvalue,hvalue']
      exact ih
    · rw [he,he']
      rfl
  | case4 tok rest hret hif ih =>
    rw [scan,if_neg hret,if_neg hif]
    exact ih

/-- The rule depends on neither the url nor the host, whatever the script. -/
theorem findProxyForURL_independent (source url url' host host' : Text) :
    findProxyForURL source url host = findProxyForURL source url' host' := by
  simp only [findProxyForURL,scan_independent host host']

section Scan

variable {host : Text}

theorem scan_return (value : Text) (rest : List Text) :
    scan host (returnToken::value::rest) = .ok (some (trim (ascii ['"',' ']) value)) := by
  rw [scan,if_pos rfl]
  rfl

theorem scan_skip {tok : Text} (hret : tok ≠ returnToken) (hif : tok ≠ ifToken) (rest : List Text) :
    scan host (tok::rest) = scan host rest := by
  rw [scan,if_neg hret,if_neg hif]

/-- Tokens that are no keywords are passed over. -/
theorem scan_skips {tokens : List Text} (h : ∀ tok ∈ tokens, tok ≠ returnToken ∧ tok ≠ ifToken) (rest : List Text) :
    scan host (tokens++rest) = scan host rest := by
  induction tokens with
  | nil => rfl
  | cons tok tokens ih =>
    obtain ⟨hret,hif⟩ := h tok (List.mem_cons_self ..)
    rw [List.cons_append,scan_skip hret hif]
    exact ih fun t ht => h t (List.mem_cons_of_mem tok ht)

/-- The predicates that the interpreter can evaluate. -/
def Known (fnName : Text) : Prop :=
  fnName = isPlainHostNameToken ∨ fnName = dnsDomainIsToken ∨ fnName = shExpMatchToken

theorem evalCond_known {fnName : Text} (h : Known fnName) (rest : List Text) :
    ∃ value, evalCond host (fnName::rest) = .ok value := by
  match rest with
  | _::_::_::_ =>
    rcases h with rfl | rfl | rfl
    · exact ⟨_,rfl⟩
    · exact ⟨_,rfl⟩
    · exact ⟨_,rfl⟩
  | [] | [_] | [_,_] => exact ⟨none,rfl⟩

/-- A condition over a known predicate consumes four tokens. -/
theorem scan_if {fnName : Text} (h : Known fnName) (rest : List Text) :
    scan host (ifToken::fnName::rest) = scan host (rest.drop 3) := by
  obtain ⟨value,hvalue⟩ : ∃ value, evalCond host (fnName::rest) = .ok value := evalCond_known h rest
  have hne : ifToken ≠ returnToken := by decide
  rw [scan,if_neg hne,if_pos rfl,hvalue]
  rfl

end Scan

end ZNet.PacEngine
