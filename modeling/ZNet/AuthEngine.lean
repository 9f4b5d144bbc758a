import ZNet.Utf8Text
import ZNet.ByteOrder
import ZNet.Runs
import ZNet.Isolation
import Mathlib.Data.List.AList

/-!
# Authentication challenges

`AuthEngine` keeps one state for each connection. `observe` records the challenge of a
401 or 407 response, and `build_retry_header` builds the header of the retry.
-/

namespace ZNet.AuthEngines
open ByteOrder TextScan Utf8Text Runs Isolation

abbrev Str := List Char

inductive AuthScheme
  | basic | digest | ntlm | negotiate | bearer
  | unknown (token : Str)
deriving DecidableEq

def AuthScheme.parse (token : Str) : AuthScheme :=
  let lower := token.map Char.toLower
  if lower = "basic".toList then .basic
  else if lower = "digest".toList then .digest
  else if lower = "ntlm".toList then .ntlm
  else if lower = "negotiate".toList then .negotiate
  else if lower = "bearer".toList then .bearer
  else .unknown lower

inductive AuthPhase
  | idle | challengeReceived | authenticated
deriving DecidableEq

structure AuthState where
  phase : AuthPhase := .idle
  scheme : Option AuthScheme := none
  realm : Option Str := none
  ntlmChallenge : Option (List UInt8) := none
  retried : Bool := false
deriving DecidableEq

inductive AuthHeader
  | authorization | proxyAuthorization
deriving DecidableEq

structure AuthChallenge where
  scheme : AuthScheme
  realm : Option Str
  payload : List UInt8
  header : AuthHeader
deriving DecidableEq

inductive AuthError
  | unsupportedScheme | missingCredentials
  | backend (message : Str)
deriving DecidableEq

/-- The standard engine of the base64 library. -/
structure Base64 where
  encode : List UInt8 → Str
  decode : Str → Option (List UInt8)

/-- `splitn(2, char::is_whitespace)`, where a missing second part is empty. -/
def splitWhitespaceOnce (s : Str) : Str×Str :=
  (s.takeWhile fun c => !isWhitespace c,(s.dropWhile fun c => !isWhitespace c).drop 1)

def splitOnce (c : Char) (s : Str) : Option (Str×Str) :=
  if c ∈ s then some (s.takeWhile (· ≠ c),(s.dropWhile (· ≠ c)).drop 1) else none

theorem splitWhitespaceOnce_word {word : Str} (hword : ∀ c ∈ word, isWhitespace c = false) :
    splitWhitespaceOnce word = (word,[]) := by
  have htake : word.takeWhile (fun c => !isWhitespace c) = word := by
    rw [List.takeWhile_eq_self_iff]
    simpa using hword
  have hdrop : word.dropWhile (fun c => !isWhitespace c) = [] := by
    rw [List.dropWhile_eq_nil_iff]
    simpa using hword
  rw [splitWhitespaceOnce,htake,hdrop]
  rfl

theorem splitWhitespaceOnce_append_cons {word : Str} (hword : ∀ c ∈ word, isWhitespace c = false) {c : Char}
    (hc : isWhitespace c = true) (rest : Str) : splitWhitespaceOnce (word++c::rest) = (word,rest) := by
  have htake : (word++c::rest).takeWhile (fun c => !isWhitespace c) = word := by
    rw [List.takeWhile_append_of_pos (by simpa using hword),List.takeWhile_cons_of_neg (by simp [hc]),List.append_nil]
  have hdrop : (word++c::rest).dropWhile (fun c => !isWhitespace c) = c::rest := by
    rw [List.dropWhile_append_of_pos (by simpa using hword),List.dropWhile_cons_of_neg (by simp [hc])]
  rw [splitWhitespaceOnce,htake,hdrop]
  rfl

theorem splitOnce_append_cons {c : Char} {s : Str} (h : c ∉ s) (t : Str) : splitOnce c (s++c::t) = some (s,t) := by
  have hplain : ∀ d ∈ s, decide (d ≠ c) = true := by
    intro d hd
    exact decide_eq_true fun hdc => h (hdc ▸ hd)
  have htake : (s++c::t).takeWhile (· ≠ c) = s := by
    rw [List.takeWhile_append_of_pos hplain,List.takeWhile_cons_of_neg (by simp),List.append_nil]
  have hdrop : (s++c::t).dropWhile (· ≠ c) = c::t := by
    rw [List.dropWhile_append_of_pos hplain,List.dropWhile_cons_of_neg (by simp)]
  rw [splitOnce,if_pos (by simp),htake,hdrop]
  rfl

/-- The loop of `parse_challenge` over the parts between commas. -/
def parseRealm (rest : Str) : Option Str :=
  (rest.splitOn ',').foldl (fun realm raw =>
    match splitOnce '=' (Utf8Text.trim raw) with
    | some (k,v) =>
      if (Utf8Text.trim k).map Char.toLower = "realm".toList then some (trimMatches '"' (Utf8Text.trim v)) else realm
    | none => realm) none

section Challenges

variable (base64 : Base64)

def parseChallenge (header : AuthHeader) (value : Str) : Option AuthChallenge :=
  let (token,rest) := splitWhitespaceOnce (Utf8Text.trim value)
  let scheme := AuthScheme.parse token
  let payload :=
    if scheme = .negotiate ∨ scheme = .ntlm then
      match (tokenizeAny isWhitespace rest).head? with
      | some token => (base64.decode token).getD []
      | none => []
    else []
  some ⟨scheme,parseRealm rest,payload,header⟩

/-- `NTLMSSP` and a zero byte. -/
def ntlmSignature : List UInt8 := [0x4e,0x54,0x4c,0x4d,0x53,0x53,0x50,0x00]

def ntlmType1Message : Str :=
  base64.encode (ntlmSignature++toBytes .little 4 1++toBytes .little 4 0x82b7++List.replicate 4 0++List.replicate 4 0++
    List.replicate 4 0++List.replicate 4 0++List.replicate 8 0++toBytes .little 4 0)

def ntlmType3Message (challenge : List UInt8) : Except AuthError Str :=
  if challenge.length < 32 then .error (.backend "short NTLM Type-2".toList)
  else .ok (base64.encode (ntlmSignature++toBytes .little 4 3++List.replicate 48 0))

/-- What the credential store of the system says in this call, when the feature
`enterprise-auth` is built in. The token itself is empty. -/
abbrev Ticket := Option (Except Str Unit)

def kerberosApreqToken (_targetHost : Str) : Ticket → Except AuthError Str
  | some (.ok ()) => .ok (base64.encode [])
  | some (.error e) => .error (.backend e)
  | none => .error (.backend ("Kerberos / Negotiate requires the 'enterprise-auth' feature "++
      "(needs sspi on Windows or libgssapi + MIT/Heimdal on POSIX). "++
      "Build with: cargo build --features enterprise-auth").toList)

def basicCredential (_host : Str) : Except AuthError Str := .ok (base64.encode [0x3a])

def buildAuthResponse (scheme : AuthScheme) (challenge : List UInt8) (targetHost : Str) (ticket : Ticket) :
    Except AuthError Str :=
  match scheme with
  | .ntlm =>
    if challenge.isEmpty then .ok ("NTLM ".toList++ntlmType1Message base64)
    else (ntlmType3Message base64 challenge).map ("NTLM ".toList++·)
  | .negotiate => (kerberosApreqToken base64 targetHost ticket).map ("Negotiate ".toList++·)
  | .basic => (basicCredential base64 targetHost).map ("Basic ".toList++·)
  | _ => .error .unsupportedScheme

/-- The branches of `observe` for 401 and 407. -/
def recordChallenge (state : AuthState) (header : AuthHeader) (value : Option Str) : Option AuthChallenge×AuthState :=
  match value.bind (parseChallenge base64 header) with
  | some c =>
    (some c,{ state with
      scheme := some c.scheme
      realm := c.realm
      phase := .challengeReceived
      retried := false })
  | none => (none,state)

/-- The part of `observe` on the state of the connection. -/
def AuthState.observe (state : AuthState) (status : ℕ) (wwwAuth proxyAuth : Option Str) :
    Option AuthChallenge×AuthState :=
  if status = 401 then recordChallenge base64 state .authorization wwwAuth
  else if status = 407 then recordChallenge base64 state .proxyAuthorization proxyAuth
  else if 200 ≤ status ∧ status ≤ 299 then (none,{ state with phase := .authenticated })
  else (none,state)

/-- The part of `build_retry_header` on the state of the connection. -/
def AuthState.buildRetryHeader (state : AuthState) (challenge : AuthChallenge) (targetHost : Str) (ticket : Ticket) :
    Except AuthError (AuthHeader×Str)×AuthState :=
  if state.retried then (.error (.backend "auth already retried once".toList),state)
  else
    match buildAuthResponse base64 challenge.scheme challenge.payload targetHost ticket with
    | .error e => (.error e,state)
    | .ok value => (.ok (challenge.header,value),{ state with retried := true, phase := .authenticated })

structure AuthEngine where
  states : AList fun _ : Str => AuthState

namespace AuthEngine

def new : AuthEngine := ⟨∅⟩

/-- `entry(conn_key).or_default()` -/
def entry (self : AuthEngine) (connKey : Str) : AuthState := (self.states.lookup connKey).getD {}

def observe (self : AuthEngine) (connKey : Str) (status : ℕ) (wwwAuth proxyAuth : Option Str) :
    Option AuthChallenge×AuthEngine :=
  let (result,state) := (self.entry connKey).observe base64 status wwwAuth proxyAuth
  (result,⟨self.states.insert connKey state⟩)

def buildRetryHeader (self : AuthEngine) (connKey : Str) (challenge : AuthChallenge) (targetHost : Str)
    (ticket : Ticket) : Except AuthError (AuthHeader×Str)×AuthEngine :=
  let (result,state) := (self.entry connKey).buildRetryHeader base64 challenge targetHost ticket
  (result,⟨self.states.insert connKey state⟩)

end AuthEngine

/-- What is asked of the engine for one connection. -/
inductive Request
  | observe (status : ℕ) (wwwAuth proxyAuth : Option Str)
  | buildRetryHeader (challenge : AuthChallenge) (targetHost : Str) (ticket : Ticket)

structure Call where
  connKey : Str
  request : Request

inductive Outcome
  | observed (challenge : Option AuthChallenge)
  | built (header : Except AuthError (AuthHeader×Str))

def AuthEngine.perform (self : AuthEngine) (call : Call) : Outcome×AuthEngine :=
  match call.request with
  | .observe status wwwAuth proxyAuth =>
    let (result,engine) := self.observe base64 call.connKey status wwwAuth proxyAuth
    (.observed result,engine)
  | .buildRetryHeader challenge targetHost ticket =>
    let (result,engine) := self.buildRetryHeader base64 call.connKey challenge targetHost ticket
    (.built result,engine)

def step (engine : AuthEngine) (call : Call) : AuthEngine := (engine.perform base64 call).2

/-- The connections and results of the calls of a run. -/
def outcomes : AuthEngine → List Call → List (Str×Outcome)
  | _,[] => []
  | engine,call::calls => (call.connKey,(engine.perform base64 call).1)::outcomes (step base64 engine call) calls

end Challenges

section Isolation

variable {base64 : Base64}

/-- What a request does to the state of its connection. -/
def AuthState.perform (base64 : Base64) (state : AuthState) : Request → Outcome×AuthState
  | .observe status wwwAuth proxyAuth =>
    let (result,state) := state.observe base64 status wwwAuth proxyAuth
    (.observed result,state)
  | .buildRetryHeader challenge targetHost ticket =>
    let (result,state) := state.buildRetryHeader base64 challenge targetHost ticket
    (.built result,state)

variable {engine engine' : AuthEngine} {key : Str} {call : Call}

/-- A call works on the state of its connection alone. -/
theorem perform_eq (engine : AuthEngine) (call : Call) :
    engine.perform base64 call = (((engine.entry call.connKey).perform base64 call.request).1,
      ⟨engine.states.insert call.connKey ((engine.entry call.connKey).perform base64 call.request).2⟩) := by
  obtain ⟨connKey,request⟩ := call
  cases request with
  | observe => rfl
  | buildRetryHeader => rfl

theorem lookup_step_self (engine : AuthEngine) (call : Call) :
    (step base64 engine call).states.lookup call.connKey =
      some ((engine.entry call.connKey).perform base64 call.request).2 := by
  rw [step,perform_eq]
  exact AList.lookup_insert _

theorem lookup_step_ne (hne : key ≠ call.connKey) :
    (step base64 engine call).states.lookup key = engine.states.lookup key := by
  rw [step,perform_eq]
  exact AList.lookup_insert_ne hne

/-- A connection's part of the engine is the state under its key. -/
theorem isolated (base64 : Base64) (key : Str) :
    Isolated (AuthEngine.perform base64) (fun call => call.connKey = key)
      (fun engine => engine.states.lookup key) where
  result {engine engine' call} hkey hview := by
    cases of_decide_eq_true hkey
    rw [perform_eq,perform_eq,AuthEngine.entry,hview,AuthEngine.entry]
  consistent {engine engine' call} hkey hview := by
    cases of_decide_eq_true hkey
    have hentry : engine.entry call.connKey = engine'.entry call.connKey := by
      rw [AuthEngine.entry,hview,AuthEngine.entry]
    exact (lookup_step_self engine call).trans (hentry ▸ (lookup_step_self engine' call).symm)
  respects hkey := lookup_step_ne (Ne.symm (of_decide_eq_false hkey))

theorem outcomes_eq (engine : AuthEngine) (calls : List Call) : outcomes base64 engine calls =
    (trace (AuthEngine.perform base64) engine calls).map fun call =>
      (call.1.connKey,call.2) := by
  induction calls generalizing engine with
  | nil => rfl
  | cons call calls ih => exact congrArg _ (ih _)

/-- Two engines that agree on a connection still do when one of them takes the calls of
other connections too, and its results for the connection are the same. -/
theorem run_filter (h : engine.states.lookup key = engine'.states.lookup key) (calls : List Call) :
    (run (step base64) engine calls).states.lookup key =
      (run (step base64) engine' (calls.filter (·.connKey = key))).states.lookup key ∧
    (outcomes base64 engine calls).filter (·.1 = key) = outcomes base64 engine' (calls.filter (·.connKey = key)) := by
  refine ⟨(isolated base64 key).filter_run h calls,?_⟩
  rw [outcomes_eq,outcomes_eq,List.filter_map]
  exact congrArg _ ((isolated base64 key).filter_trace h calls)

theorem AuthState.buildRetryHeader_error {state : AuthState} {challenge : AuthChallenge} {targetHost : Str}
    {ticket : Ticket} {e : AuthError} (h : (state.buildRetryHeader base64 challenge targetHost ticket).1 = .error e) :
    (state.buildRetryHeader base64 challenge targetHost ticket).2 = state := by
  rw [buildRetryHeader] at h ⊢
  split
  · rfl
  · rename_i hretried
    rw [if_neg hretried] at h
    split at h
    · rfl
    · cases h

end Isolation

/-- In every run the results and the state for a connection are those of its own calls,
and a retry header that cannot be built leaves the state of its connection, or the
default state, and those of all other connections. -/
theorem auth_isolated (base64 : Base64) (key : Str) :
    (∀ calls, (run (step base64) .new calls).states.lookup key =
        (run (step base64) .new (calls.filter (·.connKey = key))).states.lookup key ∧
      (outcomes base64 .new calls).filter (·.1 = key) = outcomes base64 .new (calls.filter (·.connKey = key))) ∧
    ∀ (engine : AuthEngine) challenge targetHost ticket e,
      (engine.buildRetryHeader base64 key challenge targetHost ticket).1 = .error e →
      (engine.buildRetryHeader base64 key challenge targetHost ticket).2.states.lookup key = some (engine.entry key) ∧
      ∀ other ≠ key, (engine.buildRetryHeader base64 key challenge targetHost ticket).2.states.lookup other =
        engine.states.lookup other := by
  refine ⟨run_filter rfl,?_⟩
  intro engine challenge targetHost ticket e herror
  have hstate := AuthState.buildRetryHeader_error herror
  constructor
  · have hlookup : (step base64 engine ⟨key,.buildRetryHeader challenge targetHost ticket⟩).states.lookup key =
        some ((engine.entry key).perform base64 (.buildRetryHeader challenge targetHost ticket)).2 :=
      lookup_step_self engine ⟨key,.buildRetryHeader challenge targetHost ticket⟩
    exact hlookup.trans (congrArg some hstate)
  · intro other hne
    have hcall : (step base64 engine ⟨key,.buildRetryHeader challenge targetHost ticket⟩).states.lookup other =
        engine.states.lookup other := lookup_step_ne hne
    exact hcall

/-- Base64 on the credentials `:`. -/
def sampleBase64 : Base64 := ⟨fun bytes => if bytes = [0x3a] then "Og==".toList else [],fun _ => none⟩

def sampleKey : Str := "example.com:443".toList

/-- A digest challenge cannot be answered, and the state of the connection is the default. -/
theorem auth_isolated_digest :
    (AuthEngine.new.buildRetryHeader sampleBase64 sampleKey ⟨.digest,none,[],.authorization⟩ [] none).2.states.lookup
      sampleKey = some {} :=
  ((auth_isolated sampleBase64 sampleKey).2 .new ⟨.digest,none,[],.authorization⟩ [] none .unsupportedScheme rfl).1

section Retries

/-- A challenge of the connection is observed. -/
def Challenges (key : Str) (call : Call) : Prop :=
  call.connKey = key ∧ ∃ status wwwAuth proxyAuth, call.request = .observe status wwwAuth proxyAuth ∧
    (status = 401 ∧ wwwAuth ≠ none ∨ status = 407 ∧ proxyAuth ≠ none)

/-- A success of the connection is observed. -/
def Accepts (key : Str) (call : Call) : Prop :=
  call.connKey = key ∧ ∃ status wwwAuth proxyAuth, call.request = .observe status wwwAuth proxyAuth ∧
    200 ≤ status ∧ status ≤ 299

/-- A retry header is asked for that can be built for its challenge. -/
def Buildable (base64 : Base64) (key : Str) (call : Call) : Prop :=
  call.connKey = key ∧ ∃ challenge targetHost ticket value,
    call.request = .buildRetryHeader challenge targetHost ticket ∧
    buildAuthResponse base64 challenge.scheme challenge.payload targetHost ticket = .ok value

/-- The call at `i` satisfies `p`. -/
def At (calls : List Call) (i : ℕ) (p : Call → Prop) : Prop := ∃ call, calls[i]? = some call ∧ p call

def Between (calls : List Call) (i j : ℕ) (p : Call → Prop) : Prop := ∃ m, i < m ∧ m < j ∧ At calls m p

/-- The call at `i` builds a retry header. -/
def Retries (base64 : Base64) (calls : List Call) (key : Str) (i : ℕ) : Prop :=
  ∃ challenge targetHost ticket header, calls[i]? = some ⟨key,.buildRetryHeader challenge targetHost ticket⟩ ∧
    ((run (step base64) .new (calls.take i)).buildRetryHeader base64 key challenge targetHost ticket).1 = .ok header

/-- Between two retries of a connection a success is observed. -/
def RetriedOnce (base64 : Base64) (calls : List Call) : Prop :=
  ∀ key i j, i < j → Retries base64 calls key i → Retries base64 calls key j → Between calls i j (Accepts key)

/-- The call at `i` is the first since the last challenge for which a header can be built. -/
def FirstBuildable (base64 : Base64) (calls : List Call) (key : Str) (i : ℕ) : Prop :=
  At calls i (Buildable base64 key) ∧
    ∀ i' < i, At calls i' (Buildable base64 key) → Between calls i' i (Challenges key)

/-- When a retry is met by another challenge, no retry is attempted before a success. -/
def Unchallenged (base64 : Base64) (calls : List Call) : Prop :=
  ∀ key i j, i < j → FirstBuildable base64 calls key i → At calls j (Buildable base64 key) →
    Between calls i j (Challenges key) → Between calls i j (Accepts key)

variable {base64 : Base64} {calls : List Call} {key : Str} {i j : ℕ}

theorem between_succ {p : Call → Prop} :
    Between calls i (j+1) p ↔ Between calls i j p ∨ i < j ∧ At calls j p := by
  constructor
  · rintro ⟨m,him,hmj,hm⟩
    rcases Nat.lt_succ_iff_lt_or_eq.mp hmj with hlt | rfl
    · exact Or.inl ⟨m,him,hlt,hm⟩
    · exact Or.inr ⟨him,hm⟩
  · rintro (⟨m,him,hmj,hm⟩ | ⟨hij,hj⟩)
    · exact ⟨m,him,by omega,hm⟩
    · exact ⟨j,hij,by omega,hj⟩

theorem Between.mono {p : Call → Prop} {i' j' : ℕ} (h : Between calls i j p) (hi : i' ≤ i) (hj : j ≤ j') :
    Between calls i' j' p := by
  obtain ⟨m,him,hmj,hm⟩ := h
  exact ⟨m,by omega,by omega,hm⟩

theorem not_challenges_of_buildable {call : Call} (h : Buildable base64 key call) : ¬Challenges key call := by
  obtain ⟨-,challenge,targetHost,ticket,value,hrequest,-⟩ := h
  rintro ⟨-,status,wwwAuth,proxyAuth,hobserve,-⟩
  rw [hrequest] at hobserve
  cases hobserve

theorem entry_step_self (engine : AuthEngine) (call : Call) :
    (step base64 engine call).entry call.connKey = ((engine.entry call.connKey).perform base64 call.request).2 := by
  rw [AuthEngine.entry,lookup_step_self]
  rfl

theorem entry_step_ne {engine : AuthEngine} {call : Call} (hne : key ≠ call.connKey) :
    (step base64 engine call).entry key = engine.entry key := by
  rw [AuthEngine.entry,lookup_step_ne hne]
  rfl

theorem recordChallenge_retried (state : AuthState) (header : AuthHeader) (value : Option Str) :
    (recordChallenge base64 state header value).2.retried = true ↔ state.retried = true ∧ value = none := by
  cases value with
  | none => simp [recordChallenge]
  | some value => simp [recordChallenge,parseChallenge]

theorem observe_retried (state : AuthState) (status : ℕ) (wwwAuth proxyAuth : Option Str) :
    (state.observe base64 status wwwAuth proxyAuth).2.retried = true ↔
      state.retried = true ∧ ¬(status = 401 ∧ wwwAuth ≠ none ∨ status = 407 ∧ proxyAuth ≠ none) := by
  rw [AuthState.observe]
  split
  · rename_i hstatus
    rw [recordChallenge_retried]
    simp [hstatus]
  · split
    · rename_i hstatus
      rw [recordChallenge_retried]
      simp [hstatus]
    · rename_i h401 h407
      split <;> simp [h401,h407]

theorem buildRetryHeader_retried (state : AuthState) (challenge : AuthChallenge) (targetHost : Str) (ticket : Ticket) :
    (state.buildRetryHeader base64 challenge targetHost ticket).2.retried = true ↔
      (∃ value, buildAuthResponse base64 challenge.scheme challenge.payload targetHost ticket = .ok value) ∨
        state.retried = true := by
  rw [AuthState.buildRetryHeader]
  split
  · rename_i hretried
    simp [hretried]
  · split
    · rename_i e herror
      simp [herror]
    · rename_i value hvalue
      simp [hvalue]

/-- The flag of a connection is set by a header that can be built and cleared by a challenge. -/
theorem retried_step (engine : AuthEngine) (call : Call) :
    ((step base64 engine call).entry key).retried = true ↔
      Buildable base64 key call ∨ (engine.entry key).retried = true ∧ ¬Challenges key call := by
  by_cases hkey : call.connKey = key
  · subst hkey
    rw [entry_step_self]
    obtain ⟨connKey,request⟩ := call
    cases request with
    | observe status wwwAuth proxyAuth =>
      refine (observe_retried _ status wwwAuth proxyAuth).trans ?_
      simp [Buildable,Challenges]
    | buildRetryHeader challenge targetHost ticket =>
      refine (buildRetryHeader_retried _ challenge targetHost ticket).trans ?_
      simp [Buildable,Challenges]
  · rw [entry_step_ne (Ne.symm hkey)]
    simp [Buildable,Challenges,hkey]

/-- The flag is set before the call at `i` exactly if a header could be built since the
last challenge. -/
theorem retried_take (hi : i ≤ calls.length) :
    ((run (step base64) .new (calls.take i)).entry key).retried = true ↔
      ∃ i' < i, At calls i' (Buildable base64 key) ∧ ¬Between calls i' i (Challenges key) := by
  induction i with
  | zero =>
    constructor
    · intro h
      cases h
    · rintro ⟨i',hlt,-⟩
      omega
  | succ i ih =>
    have hget : calls[i]? = some calls[i] := List.getElem?_eq_getElem hi
    have hrun : run (step base64) .new (calls.take (i+1)) =
        step base64 (run (step base64) .new (calls.take i)) calls[i] := by
      rw [run,← List.take_append_getElem hi,List.foldl_append]
      rfl
    have hat (p : Call → Prop) : At calls i p ↔ p calls[i] := by simp [At,hget]
    rw [hrun,retried_step,ih (by omega)]
    constructor
    · rintro (hbuildable | ⟨⟨i',hlt,hi',hbetween⟩,hchallenge⟩)
      · refine ⟨i,Nat.lt_succ_self i,(hat _).mpr hbuildable,?_⟩
        rintro ⟨m,him,hmi,-⟩
        omega
      · refine ⟨i',by omega,hi',?_⟩
        rw [between_succ,hat]
        rintro (h | ⟨-,h⟩)
        · exact hbetween h
        · exact hchallenge h
    · rintro ⟨i',hlt,hi',hbetween⟩
      rw [between_succ,hat,not_or] at hbetween
      rcases Nat.lt_succ_iff_lt_or_eq.mp hlt with hlt | rfl
      · exact Or.inr ⟨⟨i',hlt,hi',hbetween.1⟩,fun h => hbetween.2 ⟨hlt,h⟩⟩
      · exact Or.inl ((hat _).mp hi')

theorem buildRetryHeader_ok {state : AuthState} {challenge : AuthChallenge} {targetHost : Str} {ticket : Ticket} :
    (∃ header, (state.buildRetryHeader base64 challenge targetHost ticket).1 = .ok header) ↔
      state.retried = false ∧
        ∃ value, buildAuthResponse base64 challenge.scheme challenge.payload targetHost ticket = .ok value := by
  rw [AuthState.buildRetryHeader]
  split
  · rename_i hretried
    simp [hretried]
  · rename_i hretried
    split
    · rename_i e herror
      simp [herror]
    · rename_i value hvalue
      simp [hvalue,hretried]

/-- A call builds a header exactly if it is the first that can since the last challenge. -/
theorem retries_iff : Retries base64 calls key i ↔ FirstBuildable base64 calls key i := by
  have hflag (hi : i ≤ calls.length) :
      ((run (step base64) .new (calls.take i)).entry key).retried = false ↔
        ∀ i' < i, At calls i' (Buildable base64 key) → Between calls i' i (Challenges key) := by
    rw [← Bool.not_eq_true,retried_take hi]
    simp only [not_exists,not_and,not_not]
  constructor
  · rintro ⟨challenge,targetHost,ticket,header,hget,hok⟩
    obtain ⟨hfree,value,hvalue⟩ := buildRetryHeader_ok.mp ⟨header,hok⟩
    have hi := (List.getElem?_eq_some_iff.mp hget).1
    exact ⟨⟨_,hget,rfl,challenge,targetHost,ticket,value,rfl,hvalue⟩,(hflag (by omega)).mp hfree⟩
  · rintro ⟨⟨⟨connKey,request⟩,hget,rfl,challenge,targetHost,ticket,value,rfl,hvalue⟩,hfirst⟩
    have hi := (List.getElem?_eq_some_iff.mp hget).1
    obtain ⟨header,hok⟩ := buildRetryHeader_ok.mpr ⟨(hflag (by omega)).mpr hfirst,value,hvalue⟩
    exact ⟨challenge,targetHost,ticket,header,hget,hok⟩

end Retries

/-- A connection is retried at most once before a success exactly if no retry that is met
by another challenge is followed by an attempt at a further one: each challenge clears
the flag that is to prevent it. -/
theorem retriedOnce_iff (base64 : Base64) (calls : List Call) :
    RetriedOnce base64 calls ↔ Unchallenged base64 calls := by
  constructor
  · intro h key i j hij hi hj hchallenge
    obtain ⟨m,him,hmj,call,hm,hcall⟩ := hchallenge
    -- the first header that can be built after the challenge is built
    have hex : ∃ j', m < j' ∧ At calls j' (Buildable base64 key) := ⟨j,hmj,hj⟩
    classical
    obtain ⟨hmj',hj'⟩ := Nat.find_spec hex
    have hle : Nat.find hex ≤ j := Nat.find_min' hex ⟨hmj,hj⟩
    have hfirst : FirstBuildable base64 calls key (Nat.find hex) := by
      refine ⟨hj',fun i' hlt hi' => ⟨m,?_,hmj',call,hm,hcall⟩⟩
      rcases Nat.lt_trichotomy i' m with hlt' | rfl | hgt
      · exact hlt'
      · obtain ⟨call',hget,hbuildable⟩ := hi'
        rw [hm,Option.some.injEq] at hget
        subst hget
        exact (not_challenges_of_buildable hbuildable hcall).elim
      · exact (Nat.find_min hex hlt ⟨hgt,hi'⟩).elim
    exact (h key i _ (by omega) (retries_iff.mpr hi) (retries_iff.mpr hfirst)).mono (Nat.le_refl i) hle
  · intro h key i j hij hi hj
    have hfirst := retries_iff.mp hj
    exact h key i j hij (retries_iff.mp hi) hfirst.1 (hfirst.2 i hij (retries_iff.mp hi).1)

/-- A server that answers every retry with the challenge `Basic`. -/
def challengeLoop : List Call :=
  let challenged : Call := ⟨sampleKey,.observe 401 (some "Basic".toList) none⟩
  let retry : Call := ⟨sampleKey,.buildRetryHeader ⟨.basic,none,[],.authorization⟩ [] none⟩
  [challenged,retry,challenged,retry]

/-- Both retries are built, and no success is observed between them. -/
theorem challengeLoop_retried : Retries sampleBase64 challengeLoop sampleKey 1 ∧
    Retries sampleBase64 challengeLoop sampleKey 3 ∧ ¬RetriedOnce sampleBase64 challengeLoop := by
  have hfirst : Retries sampleBase64 challengeLoop sampleKey 1 :=
    ⟨⟨.basic,none,[],.authorization⟩,[],none,_,rfl,rfl⟩
  have hsecond : Retries sampleBase64 challengeLoop sampleKey 3 :=
    ⟨⟨.basic,none,[],.authorization⟩,[],none,_,rfl,rfl⟩
  refine ⟨hfirst,hsecond,fun h => ?_⟩
  obtain ⟨m,him,hmj,call,hget,-,status,wwwAuth,proxyAuth,hrequest,hlow,hhigh⟩ :=
    h sampleKey 1 3 (by decide) hfirst hsecond
  obtain rfl : m = 2 := by omega
  obtain rfl := Option.some.inj hget
  cases hrequest
  omega

end ZNet.AuthEngines
