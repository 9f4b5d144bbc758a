import ZNet.HttpGrammar
import ZNet.Pipeline
import ZNet.AuthEngine

/-!
# Requests of the pipeline

A request is built from its options and written to a socket. After a challenge it is written
again with one header more. No header that a server needs is added, and the query of the URL
is not a part of the request.
-/

namespace ZNet.HttpRequests
open TextScan TextLines Tables Pipelines AuthEngines HttpGrammar

abbrev Str := List UInt8

/-- The options that are written into a request. -/
structure HeadOptions where
  method : Str
  headers : Table Str Str

structure Cookie where
  name : Str
  value : Str

structure HttpRequest where
  method : Str
  path : Str
  version : Str
  headers : Table Str Str
  body : Str

def userAgent : Str := ascii "User-Agent".toList

def accept : Str := ascii "Accept".toList

/-- The cache has no cookies. -/
def getCookies (_domain _path : Str) : Except String (List Cookie) := .ok []

def cookieHeader (cookies : List Cookie) : Str :=
  (ascii "; ".toList).intercalate (cookies.map fun cookie => cookie.name++0x3d::cookie.value)

def withCookies (cookies : Except String (List Cookie)) (headers : Table Str Str) : Table Str Str :=
  match cookies with
  | .ok cookies => if cookies.isEmpty then headers else headers.insert (ascii "Cookie".toList) (cookieHeader cookies)
  | .error _ => headers

/-- The host and the path are those of the URL. -/
def buildHttpRequest (host path : Str) (options : HeadOptions) : HttpRequest where
  method := options.method
  path := path
  version := HttpGrammar.version
  headers := withCookies (getCookies host path)
    ((options.headers.insert userAgent (ascii "z-net NetStack/1.0".toList)).insert accept (ascii "*/*".toList))
  body := []

/-- The name under which the answer to a challenge is inserted. -/
def headerName : AuthHeader → Str
  | .authorization => ascii "Authorization".toList
  | .proxyAuthorization => ascii "Proxy-Authorization".toList

/-- The request, or the one that is sent after a challenge. -/
def requestOf (host path : Str) (options : HeadOptions) (retry : Option (AuthHeader×Str)) : HttpRequest :=
  let request := buildHttpRequest host path options
  match retry with
  | none => request
  | some (header,value) => { request with headers := request.headers.insert (headerName header) value }

/-- The entries in the order of an iteration. -/
def entriesIn (order : IterationOrder Str) (m : Table Str Str) : List (Str×Str) :=
  (order m.keys).1.filterMap fun name => (m.lookup name).map fun value => (name,value)

def headerLine (header : Str×Str) : Str := header.1++ascii ": ".toList++header.2++ascii "\r\n".toList

def requestData (order : IterationOrder Str) (request : HttpRequest) : Str :=
  request.method++0x20::request.path++ascii " HTTP/1.1\r\n".toList++(entriesIn order request.headers).flatMap headerLine++
    ascii "Content-Length: ".toList++decimal request.body.length++ascii "\r\n\r\n".toList

/-- A call of `send`, which fails unless the socket takes all the bytes. -/
def sendAll (socket : Str → Except String ℕ) (message : String) (data : Str) : Except PipelineError Unit :=
  match socket data with
  | .error e => .error (.networkError e)
  | .ok sent => if sent ≠ data.length then .error (.networkError message) else .ok ()

/-- The bytes that the socket has taken when the response is awaited. -/
def sendHttpRequest (order : IterationOrder Str) (socket : Str → Except String ℕ) (request : HttpRequest) :
    Except PipelineError Str := do
  let data := requestData order request
  sendAll socket "Failed to send complete request" data
  if request.body.isEmpty then pure data
  else
    sendAll socket "Failed to send complete body" request.body
    pure (data++request.body)

def lengthName : Str := ascii "Content-Length".toList

/-- The request as a server should have it. -/
def asked (order : IterationOrder Str) (request : HttpRequest) : Message where
  method := request.method
  target := request.path
  fields := entriesIn order request.headers++[(lengthName,decimal request.body.length)]
  body := request.body

/-- The headers whose values do not come from the options. -/
def replaced (retry : Option (AuthHeader×Str)) : List Str :=
  userAgent::accept::(retry.map fun r => headerName r.1).toList

/-- All that is written into the request is a word of the grammar. -/
structure Clean (path : Str) (options : HeadOptions) (retry : Option (AuthHeader×Str)) : Prop where
  method : IsToken options.method
  path : IsTarget path
  names : ∀ name ∈ options.headers.keys, IsToken name
  values : ∀ name value, options.headers.lookup name = some value → name ∉ replaced retry → IsValue value
  retried : ∀ r ∈ retry, IsValue r.2

/-- The options name the host once, and leave the length of the body alone. -/
structure Framed (options : HeadOptions) : Prop where
  host : (options.headers.keys.filter fun name => decide (SameLetters name host)).length = 1
  length : ∀ name ∈ options.headers.keys, ¬SameLetters name contentLength
  coding : ∀ name ∈ options.headers.keys, ¬SameLetters name transferEncoding

/-- A key that is not selected does not count. -/
theorem filter_keys_insert {α β : Type} [DecidableEq α] (m : Table α β) {a : α} (v : β) {p : α → Bool} (h : p a = false) :
    (m.insert a v).keys.filter p = m.keys.filter p := by
  have hnone : a ∉ m.keys.filter p := by simp [h]
  rw [AList.keys_insert,List.filter_cons_of_neg (by simp [h]),← List.erase_filter,List.erase_of_not_mem hnone]

section Entries

variable {order : IterationOrder Str} {m : Table Str Str} {name value : Str}

theorem mem_entriesIn : (name,value) ∈ entriesIn order m ↔ m.lookup name = some value := by
  simp only [entriesIn,List.mem_filterMap,Option.map_eq_some_iff,Prod.mk.injEq]
  constructor
  · rintro ⟨a,-,v,hlookup,rfl,rfl⟩
    exact hlookup
  · intro hlookup
    exact ⟨name,(order m.keys).2.mem_iff.mpr (mem_keys_of_lookup hlookup),value,hlookup,rfl,rfl⟩

theorem entriesIn_keys (order : IterationOrder Str) (m : Table Str Str) :
    (entriesIn order m).map Prod.fst = (order m.keys).1 := by
  have hkeys (names : List Str) (hnames : ∀ name ∈ names, name ∈ m) :
      (names.filterMap fun name => (m.lookup name).map fun value => (name,value)).map Prod.fst = names := by
    induction names with
    | nil => rfl
    | cons name names ih =>
      obtain ⟨hname,hnames⟩ := List.forall_mem_cons.mp hnames
      obtain ⟨value,hlookup⟩ := exists_lookup hname
      simp [hlookup,ih hnames]
  exact hkeys _ fun name hname => AList.mem_keys.mpr ((order m.keys).2.mem_iff.mp hname)

/-- How often a name is given does not depend on the order. -/
theorem named_entriesIn (order : IterationOrder Str) (m : Table Str Str) (name : Str) :
    (named name (entriesIn order m)).length = (m.keys.filter fun a => decide (SameLetters a name)).length := by
  have hkeys : (entriesIn order m).map Prod.fst = (order m.keys).1 := entriesIn_keys order m
  have hperm := ((order m.keys).2.filter fun a => decide (SameLetters a name)).length_eq
  rw [← hkeys,List.filter_map,List.length_map] at hperm
  rw [named,List.length_map,← hperm]
  rfl

end Entries

section Writing

variable {order : IterationOrder Str} {socket : Str → Except String ℕ} {request : HttpRequest} {data : Str}

/-- A request is written whole, or the call fails. -/
theorem sendHttpRequest_ok (h : sendHttpRequest order socket request = .ok data) :
    data = requestData order request++request.body := by
  rw [sendHttpRequest] at h
  cases hfirst : sendAll socket "Failed to send complete request" (requestData order request) with
  | error e =>
    rw [hfirst] at h
    cases h
  | ok _ =>
    cases hbody : request.body with
    | nil =>
      rw [hfirst,hbody] at h
      cases h
      simp
    | cons b body =>
      rw [hfirst,hbody] at h
      cases hsecond : sendAll socket "Failed to send complete body" (b::body) with
      | error e =>
        rw [hsecond] at h
        cases h
      | ok _ =>
        rw [hsecond] at h
        cases h
        rfl

theorem sendHttpRequest_whole (order : IterationOrder Str) (request : HttpRequest) :
    sendHttpRequest order (fun data => .ok data.length) request = .ok (requestData order request++request.body) := by
  have hall (message : String) (data : Str) : sendAll (fun data => .ok data.length) message data = .ok () := by
    simp [sendAll]
  rw [sendHttpRequest,hall]
  cases hbody : request.body with
  | nil =>
    rw [List.append_nil]
    rfl
  | cons b body =>
    rw [hall]
    rfl

/-- A header as it is written, without the end of the line. -/
def headerText (header : Str×Str) : Str := header.1++0x3a::([0x20]++(header.2++[]))

theorem fieldLines_written (fields : List (Str×Str)) : List.Forall₂ FieldLine fields (fields.map headerText) := by
  induction fields with
  | nil => exact .nil
  | cons f fields ih => exact .cons ⟨[0x20],[],by simp [blanks],nofun,rfl⟩ ih

theorem requestData_eq (order : IterationOrder Str) (request : HttpRequest) :
    requestData order request++request.body =
      TextLines.joinLines 0x0d 0x0a ((asked order request).requestLine::((asked order request).fields.map headerText++[[]]))++
        (request.body++[]) := by
  have hcolon : ascii ": ".toList = [0x3a,0x20] := rfl
  have hend : ascii "\r\n".toList = [0x0d,0x0a] := rfl
  have hstop : ascii "\r\n\r\n".toList = [0x0d,0x0a,0x0d,0x0a] := rfl
  have hversion : ascii " HTTP/1.1\r\n".toList = 0x20::(version++[0x0d,0x0a]) := rfl
  have hlength : ascii "Content-Length: ".toList = lengthName++[0x3a,0x20] := rfl
  have hheader (f : Str×Str) : headerLine f = headerText f++[0x0d,0x0a] := by
    rw [headerLine,hcolon,hend]
    simp [headerText]
  have hheaders (fields : List (Str×Str)) :
      fields.flatMap headerLine = TextLines.joinLines 0x0d 0x0a (fields.map headerText) := by
    induction fields with
    | nil => rfl
    | cons f fields ih =>
      rw [List.flatMap_cons,ih,hheader]
      rfl
  rw [requestData,hheaders,hversion,hlength,hstop]
  simp [TextLines.joinLines,TextLines.lineEnd,asked,Message.requestLine,headerText]

theorem sameLetters_lengthName : SameLetters lengthName contentLength := by decide

theorem named_asked (name : Str) : named name (asked order request).fields = named name (entriesIn order request.headers)++
    if SameLetters lengthName name then [decimal request.body.length] else [] := by
  rw [asked,named,List.filter_append,List.map_append,named]
  split
  · rename_i hname
    simp [hname]
  · rename_i hname
    simp [hname]

/-- A second length would make the request invalid. -/
theorem announced_asked (order : IterationOrder Str) (request : HttpRequest) (n : ℕ)
    (h : announced (named contentLength (asked order request).fields) = some n) :
    n = (asked order request).body.length ∧ named contentLength (entriesIn order request.headers) = [] := by
  rw [named_asked,if_pos sameLetters_lengthName] at h
  cases hnamed : named contentLength (entriesIn order request.headers) with
  | nil =>
    rw [hnamed,List.nil_append,announced,lengthOf_decimal] at h
    exact ⟨(Option.some.inj h).symm,rfl⟩
  | cons value values =>
    rw [hnamed] at h
    cases values <;> cases h

theorem framed_asked (order : IterationOrder Str) (request : HttpRequest) : (asked order request).Framed ↔
    (request.headers.keys.filter fun name => decide (SameLetters name host)).length = 1 ∧
    (request.headers.keys.filter fun name => decide (SameLetters name contentLength)).length = 0 ∧
    (request.headers.keys.filter fun name => decide (SameLetters name transferEncoding)).length = 0 := by
  rw [← named_entriesIn order,← named_entriesIn order,← named_entriesIn order]
  have hhost : named host (asked order request).fields = named host (entriesIn order request.headers) := by
    rw [named_asked,if_neg (by decide),List.append_nil]
  have hcoding : named transferEncoding (asked order request).fields =
      named transferEncoding (entriesIn order request.headers) := by
    rw [named_asked,if_neg (by decide),List.append_nil]
  constructor
  · rintro ⟨hone,hnone,hlength⟩
    rw [hhost] at hone
    rw [hcoding] at hnone
    exact ⟨hone,by rw [(announced_asked order request _ hlength).2]; rfl,by rw [hnone]; rfl⟩
  · rintro ⟨hone,hlength,hnone⟩
    refine ⟨hhost ▸ hone,hcoding ▸ List.eq_nil_of_length_eq_zero hnone,?_⟩
    rw [named_asked,if_pos sameLetters_lengthName,List.eq_nil_of_length_eq_zero hlength,List.nil_append,announced,
      lengthOf_decimal]
    rfl

theorem isToken_lengthName : IsToken lengthName := by
  constructor <;> decide

/-- A number is a value. -/
theorem isValue_decimal (n : ℕ) : IsValue (decimal n) := by
  have hplain : ∀ b ∈ decimal n, isFieldByte b = true ∧ b ∉ blanks := by
    intro b hb
    have hrange : 0x30 ≤ b ∧ b ≤ 0x39 := by
      by_contra hout
      refine notMem_decimal (b:=b) ?_ n hb
      simp only [not_and,UInt8.not_le] at hout
      by_cases hlow : b < 0x30
      · exact .inl hlow
      · exact .inr (hout (UInt8.not_lt.mp hlow))
    have hlow : (0x20 : UInt8) ≤ b := UInt8.le_trans (by decide) hrange.1
    have hblank : ∀ c ∈ blanks, b ≠ c := by
      rintro c hc rfl
      revert hrange
      simp only [blanks,List.mem_cons,List.not_mem_nil,or_false] at hc
      rcases hc with rfl | rfl <;> decide
    refine ⟨?_,fun hmem => hblank b hmem rfl⟩
    have hdelete : b ≠ 0x7f := by
      rintro rfl
      exact absurd hrange.2 (by decide)
    simp [isFieldByte,hlow,hdelete]
  exact ⟨List.all_eq_true.mpr fun b hb => (hplain b hb).1,fun b hb => (hplain b (List.mem_of_mem_head? hb)).2,
    fun b hb => (hplain b (List.mem_of_getLast? hb)).2⟩

theorem wellFormed_asked (order : IterationOrder Str) (request : HttpRequest) : (asked order request).WellFormed ↔
    IsToken request.method ∧ IsTarget request.path ∧ (∀ name ∈ request.headers.keys, IsToken name) ∧
    ∀ name value, request.headers.lookup name = some value → IsValue value := by
  constructor
  · rintro ⟨hmethod,htarget,hnames,hvalues⟩
    refine ⟨hmethod,htarget,fun name hname => ?_,fun name value hlookup => ?_⟩
    · obtain ⟨value,hlookup⟩ := exists_lookup (AList.mem_keys.mpr hname)
      exact hnames _ (List.mem_append_left _ (mem_entriesIn.mpr hlookup))
    · exact hvalues _ (List.mem_append_left _ (mem_entriesIn.mpr hlookup))
  · rintro ⟨hmethod,htarget,hnames,hvalues⟩
    refine ⟨hmethod,htarget,?_,?_⟩
    · rintro ⟨name,value⟩ hf
      rcases List.mem_append.mp hf with hf | hf
      · exact hnames _ (mem_keys_of_lookup (mem_entriesIn.mp hf))
      · rw [List.mem_singleton.mp hf]
        exact isToken_lengthName
    · rintro ⟨name,value⟩ hf
      rcases List.mem_append.mp hf with hf | hf
      · exact hvalues _ _ (mem_entriesIn.mp hf)
      · rw [List.mem_singleton.mp hf]
        exact isValue_decimal _

end Writing

section Building

variable {host path : Str} {options : HeadOptions} {retry : Option (AuthHeader×Str)}

theorem lookup_build (host path : Str) (options : HeadOptions) (name : Str) :
    (buildHttpRequest host path options).headers.lookup name =
      if name = accept then some (ascii "*/*".toList)
      else if name = userAgent then some (ascii "z-net NetStack/1.0".toList) else options.headers.lookup name := by
  change (AList.insert accept _ (AList.insert userAgent _ options.headers)).lookup name = _
  rw [lookup_insert_eq,lookup_insert_eq]

theorem keys_requestOf (name : Str) :
    name ∈ (requestOf host path options retry).headers.keys ↔ name ∈ replaced retry ∨ name ∈ options.headers.keys := by
  have hbuilt : name ∈ (buildHttpRequest host path options).headers.keys ↔
      name = accept ∨ name = userAgent ∨ name ∈ options.headers.keys := by
    change name ∈ (AList.insert accept _ (AList.insert userAgent _ options.headers)).keys ↔ _
    rw [← AList.mem_keys,AList.mem_insert,AList.mem_insert,AList.mem_keys]
  cases retry with
  | none =>
    simp only [replaced,requestOf,hbuilt,Option.map_none,Option.toList_none,List.mem_cons,List.not_mem_nil,or_false]
    tauto
  | some r =>
    have hretried : name ∈ (requestOf host path options (some r)).headers.keys ↔
        name = headerName r.1 ∨ name ∈ (buildHttpRequest host path options).headers.keys := by
      change name ∈ (AList.insert (headerName r.1) _ (buildHttpRequest host path options).headers).keys ↔ _
      rw [← AList.mem_keys,AList.mem_insert,AList.mem_keys]
    rw [hretried,hbuilt]
    simp only [replaced,Option.map_some,Option.toList_some,List.mem_cons,List.not_mem_nil,or_false]
    tauto

theorem lookup_others {name : Str} (h : name ∉ replaced retry) :
    (requestOf host path options retry).headers.lookup name = options.headers.lookup name := by
  simp only [replaced,List.mem_cons,not_or] at h
  have hbuilt : (buildHttpRequest host path options).headers.lookup name = options.headers.lookup name := by
    rw [lookup_build,if_neg h.2.1,if_neg h.1]
  cases retry with
  | none => exact hbuilt
  | some r =>
    have hname : name ≠ headerName r.1 := by simpa using h.2.2
    change (AList.insert (headerName r.1) _ (buildHttpRequest host path options).headers).lookup name = _
    rw [lookup_insert_eq,if_neg hname,hbuilt]

theorem lookup_answer {r : AuthHeader×Str} (h : r ∈ retry) :
    (requestOf host path options retry).headers.lookup (headerName r.1) = some r.2 := by
  rw [Option.mem_def.mp h]
  exact AList.lookup_insert _

theorem lookup_replaced {name value : Str} (h : name ∈ replaced retry)
    (hlookup : (requestOf host path options retry).headers.lookup name = some value) :
    IsValue value ∨ ∃ r ∈ retry, r.2 = value := by
  have haccept : IsValue (ascii "*/*".toList) := .of_ends rfl rfl rfl (by decide) (by decide)
  have hagent : IsValue (ascii "z-net NetStack/1.0".toList) := .of_ends rfl rfl rfl (by decide) (by decide)
  have hbuilt (hname : name = userAgent ∨ name = accept)
      (hbuild : (buildHttpRequest host path options).headers.lookup name = some value) : IsValue value := by
    rw [lookup_build] at hbuild
    split at hbuild
    · exact Option.some.inj hbuild ▸ haccept
    · rename_i hne
      rw [if_pos (hname.resolve_right hne)] at hbuild
      exact Option.some.inj hbuild ▸ hagent
  simp only [replaced,List.mem_cons] at h
  cases retry with
  | none =>
    refine .inl (hbuilt ?_ hlookup)
    simpa using h
  | some r =>
    change (AList.insert (headerName r.1) _ (buildHttpRequest host path options).headers).lookup name = _ at hlookup
    rw [lookup_insert_eq] at hlookup
    split at hlookup
    · exact .inr ⟨r,rfl,Option.some.inj hlookup⟩
    · rename_i hne
      refine .inl (hbuilt ?_ hlookup)
      simpa [hne] using h

/-- The values that come neither from the code nor from the answer to a challenge are those of
the options. -/
theorem values_requestOf : (∀ name value, (requestOf host path options retry).headers.lookup name = some value →
      IsValue value) ↔
    (∀ name value, options.headers.lookup name = some value → name ∉ replaced retry → IsValue value) ∧
    ∀ r ∈ retry, IsValue r.2 := by
  constructor
  · intro h
    exact ⟨fun name value hlookup hother => h name value ((lookup_others hother).trans hlookup),
      fun r hr => h _ _ (lookup_answer hr)⟩
  · rintro ⟨hothers,hanswer⟩ name value hlookup
    by_cases hname : name ∈ replaced retry
    · rcases lookup_replaced hname hlookup with hvalue | ⟨r,hr,rfl⟩
      · exact hvalue
      · exact hanswer r hr
    · exact hothers name value ((lookup_others hname).symm.trans hlookup) hname

theorem filter_requestOf {p : Str → Bool} (hagent : p userAgent = false) (haccept : p accept = false)
    (hheader : ∀ header, p (headerName header) = false) :
    (requestOf host path options retry).headers.keys.filter p = options.headers.keys.filter p := by
  have hbuilt : (buildHttpRequest host path options).headers.keys.filter p = options.headers.keys.filter p :=
    (filter_keys_insert _ _ haccept).trans (filter_keys_insert _ _ hagent)
  cases retry with
  | none => exact hbuilt
  | some r => exact (filter_keys_insert _ _ (hheader r.1)).trans hbuilt

theorem isToken_replaced (retry : Option (AuthHeader×Str)) : ∀ name ∈ replaced retry, IsToken name := by
  have hheader (header : AuthHeader) : IsToken (headerName header) := by
    cases header <;> constructor <;> decide
  have hagent : IsToken userAgent := by constructor <;> decide
  have haccept : IsToken accept := by constructor <;> decide
  cases retry with
  | none => simp [replaced,hagent,haccept]
  | some r => simp [replaced,hagent,haccept,hheader]

theorem wellFormed_requestOf (order : IterationOrder Str) (host path : Str) (options : HeadOptions)
    (retry : Option (AuthHeader×Str)) :
    (asked order (requestOf host path options retry)).WellFormed ↔ Clean path options retry := by
  have hmethod : (requestOf host path options retry).method = options.method := by cases retry <;> rfl
  have hpath : (requestOf host path options retry).path = path := by cases retry <;> rfl
  have hnames : (∀ name ∈ (requestOf host path options retry).headers.keys, IsToken name) ↔
      ∀ name ∈ options.headers.keys, IsToken name := by
    simp only [keys_requestOf,or_imp,forall_and]
    exact and_iff_right (isToken_replaced retry)
  rw [wellFormed_asked,hmethod,hpath,hnames,values_requestOf]
  constructor
  · rintro ⟨hmethod,hpath,hnames,hvalues,hanswer⟩
    exact ⟨hmethod,hpath,hnames,hvalues,hanswer⟩
  · rintro ⟨hmethod,hpath,hnames,hvalues,hanswer⟩
    exact ⟨hmethod,hpath,hnames,hvalues,hanswer⟩

theorem framed_requestOf (order : IterationOrder Str) (host path : Str) (options : HeadOptions)
    (retry : Option (AuthHeader×Str)) :
    (asked order (requestOf host path options retry)).Framed ↔ Framed options := by
  have hheader (name : Str) (hname : ∀ header, ¬SameLetters (headerName header) name) (header : AuthHeader) :
      decide (SameLetters (headerName header) name) = false := decide_eq_false (hname header)
  have hhost : ∀ header, ¬SameLetters (headerName header) HttpGrammar.host := by intro header; cases header <;> decide
  have hlength : ∀ header, ¬SameLetters (headerName header) contentLength := by intro header; cases header <;> decide
  have hcoding : ∀ header, ¬SameLetters (headerName header) transferEncoding := by intro header; cases header <;> decide
  rw [framed_asked,filter_requestOf (by decide) (by decide) (hheader _ hhost),
    filter_requestOf (by decide) (by decide) (hheader _ hlength),
    filter_requestOf (by decide) (by decide) (hheader _ hcoding)]
  simp only [List.length_eq_zero_iff,List.filter_eq_nil_iff,decide_eq_true_eq]
  exact ⟨fun ⟨hone,hnone,hnone'⟩ => ⟨hone,hnone,hnone'⟩,fun ⟨hone,hnone,hnone'⟩ => ⟨hone,hnone,hnone'⟩⟩

end Building

/-- What a server reads of the bytes of a request, or of the one after a challenge. Only a caller
can name the host, so nothing is read of a request for which it does not. -/
theorem request_read {order : IterationOrder Str} {socket : Str → Except String ℕ} {host path : Str} {options : HeadOptions}
    {retry : Option (AuthHeader×Str)} {data : Str}
    (h : sendHttpRequest order socket (requestOf host path options retry) = .ok data) :
    (Clean path options retry → ∀ m rest, Reads data m rest ↔
      Framed options ∧ m = asked order (requestOf host path options retry) ∧ rest = []) ∧
    ∀ rest, Reads data (asked order (requestOf host path options retry)) rest → Clean path options retry := by
  rw [sendHttpRequest_ok h,requestData_eq]
  constructor
  · intro hclean m rest
    rw [← framed_requestOf order host path options retry]
    exact reads_iff ((wellFormed_requestOf order host path options retry).mpr hclean) (fieldLines_written _)
      fun n hn => (announced_asked order _ n hn).1
  · intro rest hreads
    exact (wellFormed_requestOf order host path options retry).mp hreads.wellFormed

/-- A request of `/` that names the host. -/
def rootOptions : HeadOptions := ⟨ascii "GET".toList,AList.insert (ascii "Host".toList) (ascii "a".toList) ∅⟩

def storedOrder : IterationOrder Str := fun names => ⟨names,.refl _⟩

theorem request_read_root : Reads (requestData storedOrder (requestOf [0x61] [0x2f] rootOptions none))
    (asked storedOrder (requestOf [0x61] [0x2f] rootOptions none)) [] := by
  have hclean : Clean [0x2f] rootOptions none := by
    refine ⟨⟨by decide,by decide⟩,⟨by decide,by decide⟩,?_,?_,nofun⟩
    · intro name hname
      rw [List.mem_singleton.mp hname]
      exact ⟨by decide,by decide⟩
    · intro name value hlookup hname
      have hmem := mem_keys_of_lookup hlookup
      rw [List.mem_singleton.mp hmem] at hlookup
      cases hlookup
      exact .of_ends rfl rfl rfl (by decide) (by decide)
  have hframed : Framed rootOptions := ⟨by decide,by decide,by decide⟩
  have hread := (request_read (sendHttpRequest_whole storedOrder (requestOf [0x61] [0x2f] rootOptions none))).1 hclean
  exact (hread _ _).mpr ⟨hframed,rfl,rfl⟩

end ZNet.HttpRequests
