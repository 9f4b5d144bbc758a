import ZNet.Base64
import ZNet.LetterCase
import ZNet.Tables
import ZNet.TextLines

/-!
# The opening handshake of WebSocket connections

The client sends a key and checks the answer to it. The key is made of arbitrary bytes, of
which the header carries those before the first zero, while all of them are hashed.
-/

namespace ZNet.WebSocketHandshake
open Tables TextScan

abbrev Str := List UInt8

abbrev Key := Vector UInt8 24

def splitLines (s : Str) : List Str := TextLines.splitLines 0x0d 0x0a s

def joinLines (lines : List Str) : Str := TextLines.joinLines 0x0d 0x0a lines

def blank : List UInt8 := [0x20,0x09]

def magicString : Str := ascii "258EAFA5-E914-47DA-95CA-C5AB0DC85B11".toList

def acceptName : Str := ascii "sec-websocket-accept".toList

section Response

/-- The answer to a text that is sent as the key. -/
def acceptOf (sha1 : Str → Vector UInt8 20) (key : Str) : Str := Base64.encode (sha1 (key++magicString)).toList

def computeWebSocketAcceptKey (sha1 : Str → Vector UInt8 20) (clientKey : Key) : Str := acceptOf sha1 clientKey.toList

/-- The accept key is undefined until a header gives it. -/
structure WebSocketHandshakeResponse where
  statusCode : ℕ
  statusText : Str
  headers : Table Str Str
  acceptKey : Option Str

inductive ResponseError
  | invalidResponse | invalidStatusCode
  /-- A slice is out of bounds. -/
  | trap
deriving DecidableEq

namespace WebSocketHandshakeResponse

def init : WebSocketHandshakeResponse := ⟨101,ascii "Switching Protocols".toList,∅,none⟩

def setHeader (self : WebSocketHandshakeResponse) (name value : Str) : WebSocketHandshakeResponse :=
  { self with headers := self.headers.insert name value }

/-- The name and the value of a line with a colon. -/
def headerOf (line : Str) : Option (Str×Str) :=
  (line.idxOf? 0x3a).map fun colonPos => (trim blank (line.take colonPos),trim blank (line.drop (colonPos+1)))

def parseHeader (self : WebSocketHandshakeResponse) (line : Str) : Except ResponseError WebSocketHandshakeResponse :=
  match headerOf line with
  | none => .ok self
  | some (name,value) =>
    if name.map toLower = acceptName then
      if 28 ≤ value.length then .ok { self with acceptKey := some (value.take 28) } else .error .trap
    else .ok (self.setHeader name value)

def parseHeaders (self : WebSocketHandshakeResponse) : List Str → Except ResponseError WebSocketHandshakeResponse
  | [] => .ok self
  | line::lines => if line = [] then .ok self else self.parseHeader line >>= (parseHeaders · lines)

def parseHandshakeResponse (self : WebSocketHandshakeResponse) (responseData : Str) :
    Except ResponseError WebSocketHandshakeResponse :=
  let lines := splitLines responseData
  match (lines.headD []).splitOn 0x20 with
  | _::statusCodeStr::_ =>
    match parseUnsigned 65536 statusCodeStr with
    | none => .error .invalidStatusCode
    | some statusCode => parseHeaders { self with statusCode := statusCode } lines.tail
  | _ => .error .invalidResponse

/-- Whether the answer is to the key, unless it is undefined. -/
def verifyAcceptKey (sha1 : Str → Vector UInt8 20) (self : WebSocketHandshakeResponse) (clientKey : Key) : Option Bool :=
  self.acceptKey.map (computeWebSocketAcceptKey sha1 clientKey == ·)

def isSuccessful (self : WebSocketHandshakeResponse) : Bool :=
  self.statusCode == 101 && self.statusText == ascii "Switching Protocols".toList

end WebSocketHandshakeResponse

open WebSocketHandshakeResponse

/-- The value of the line if it is a header of the name. -/
def valueOf (name line : Str) : Option Str :=
  (headerOf line).bind fun h => if h.1.map toLower = name then some h.2 else none

/-- The values of a header in the lines before the first empty one. -/
def valuesOf (name : Str) (lines : List Str) : List Str := (lines.takeWhile (· ≠ [])).filterMap (valueOf name)

/-- The number that the first line gives. -/
def statusOf (data : Str) : Option ℕ :=
  (((splitLines data).headD []).splitOn 0x20)[1]?.bind (parseUnsigned 65536)

/-- The client takes the data for the answer to its key. -/
def Accepts (sha1 : Str → Vector UInt8 20) (key : Key) (data : Str) : Prop :=
  ∃ response, init.parseHandshakeResponse data = .ok response ∧ response.isSuccessful ∧
    response.verifyAcceptKey sha1 key = some true

section Headers

variable {self : WebSocketHandshakeResponse} {line : Str} {lines : List Str}

theorem valuesOf_cons (hline : line ≠ []) (name : Str) (lines : List Str) :
    valuesOf name (line::lines) = (valueOf name line).toList++valuesOf name lines := by
  simp only [valuesOf,List.takeWhile_cons,hline,ne_eq,not_false_eq_true,decide_true,if_true,List.filterMap_cons]
  split <;> simp [*]

/-- A line that is not the accept header changes the other headers at most. -/
theorem parseHeader_other (self : WebSocketHandshakeResponse)
    (h : valueOf acceptName line = none) :
    ∃ headers, self.parseHeader line = .ok { self with headers := headers } := by
  cases hheader : headerOf line with
  | none => exact ⟨self.headers,by simp [parseHeader,hheader]⟩
  | some header =>
    have hname : ¬header.1.map toLower = acceptName := by simpa [valueOf,hheader] using h
    exact ⟨self.headers.insert header.1 header.2,by simp [parseHeader,hheader,hname,setHeader]⟩

theorem parseHeader_accept (self : WebSocketHandshakeResponse) {value : Str}
    (h : valueOf acceptName line = some value) :
    self.parseHeader line =
      if 28 ≤ value.length then .ok { self with acceptKey := some (value.take 28) } else .error .trap := by
  obtain ⟨header,hheader,hvalue⟩ := Option.bind_eq_some_iff.mp h
  split at hvalue
  · rename_i hname
    cases hvalue
    simp [parseHeader,hheader,hname]
  · cases hvalue

/-- The headers are read to the end, and the last accept header stays. -/
theorem parseHeaders_ok (h : ∀ value ∈ valuesOf acceptName lines, 28 ≤ value.length) (self : WebSocketHandshakeResponse) :
    ∃ headers, self.parseHeaders lines = .ok { self with
      headers := headers
      acceptKey := ((valuesOf acceptName lines).getLast?.map (List.take 28)).or self.acceptKey } := by
  induction lines generalizing self with
  | nil => exact ⟨self.headers,by simp [parseHeaders,valuesOf]⟩
  | cons line lines ih =>
    by_cases hline : line = []
    · exact ⟨self.headers,by simp [parseHeaders,hline,valuesOf]⟩
    · rw [valuesOf_cons hline] at h ⊢
      cases hvalue : valueOf acceptName line with
      | none =>
        obtain ⟨headers,hparse⟩ := parseHeader_other self hvalue
        rw [hvalue] at h
        obtain ⟨rest,hrest⟩ := ih (by simpa using h) { self with headers := headers }
        exact ⟨rest,by simp [parseHeaders,hline,hparse,hrest,bind,Except.bind]⟩
      | some value =>
        rw [hvalue] at h
        simp only [Option.toList_some,List.singleton_append,List.forall_mem_cons] at h
        obtain ⟨rest,hrest⟩ := ih h.2 { self with acceptKey := some (value.take 28) }
        refine ⟨rest,?_⟩
        simp only [parseHeaders,hline,if_false,parseHeader_accept self hvalue,if_pos h.1,bind,Except.bind,hrest]
        cases hlast : (valuesOf acceptName lines).getLast? with
        | none => simp [List.getLast?_eq_none_iff.mp hlast]
        | some last => simp [List.getLast?_cons,hlast]

/-- A value that is too short stops the program. -/
theorem parseHeaders_trap (h : ∃ value ∈ valuesOf acceptName lines, value.length < 28) (self : WebSocketHandshakeResponse) :
    self.parseHeaders lines = .error .trap := by
  induction lines generalizing self with
  | nil => simp [valuesOf] at h
  | cons line lines ih =>
    have hline : line ≠ [] := by
      rintro rfl
      simp [valuesOf] at h
    rw [valuesOf_cons hline] at h
    cases hvalue : valueOf acceptName line with
    | none =>
      obtain ⟨headers,hparse⟩ := parseHeader_other self hvalue
      rw [hvalue] at h
      simp [parseHeaders,hline,hparse,ih (by simpa using h),bind,Except.bind]
    | some value =>
      rw [hvalue] at h
      by_cases hlong : 28 ≤ value.length
      · simp only [Option.toList_some,List.singleton_append,List.mem_cons,exists_eq_or_imp] at h
        have hrest := h.resolve_left (by omega)
        simp [parseHeaders,hline,parseHeader_accept self hvalue,hlong,ih hrest,bind,Except.bind]
      · simp [parseHeaders,hline,parseHeader_accept self hvalue,hlong,bind,Except.bind]

end Headers

theorem parse_some {data : Str} {n : ℕ} (h : statusOf data = some n) (self : WebSocketHandshakeResponse) :
    self.parseHandshakeResponse data = { self with statusCode := n }.parseHeaders (splitLines data).tail := by
  rw [statusOf] at h
  rw [parseHandshakeResponse]
  generalize ((splitLines data).headD []).splitOn 0x20 = parts at h
  rcases parts with _ | ⟨first,_ | ⟨statusCodeStr,rest⟩⟩
  · simp at h
  · simp at h
  · have hparse : parseUnsigned 65536 statusCodeStr = some n := by simpa using h
    simp [hparse]

theorem parse_none {data : Str} (h : statusOf data = none) (self : WebSocketHandshakeResponse) :
    self.parseHandshakeResponse data = .error .invalidResponse ∨
    self.parseHandshakeResponse data = .error .invalidStatusCode := by
  rw [statusOf] at h
  rw [parseHandshakeResponse]
  generalize ((splitLines data).headD []).splitOn 0x20 = parts at h
  rcases parts with _ | ⟨first,_ | ⟨statusCodeStr,rest⟩⟩
  · exact .inl rfl
  · exact .inl rfl
  · have hparse : parseUnsigned 65536 statusCodeStr = none := by simpa using h
    exact .inr (by simp [hparse])

theorem length_acceptOf (sha1 : Str → Vector UInt8 20) (key : Str) : (acceptOf sha1 key).length = 28 := by
  simp [acceptOf,Base64.length_encode]

/-- The first bytes of a value are compared with the key. -/
theorem take_eq_iff (sha1 : Str → Vector UInt8 20) (key value : Str) :
    acceptOf sha1 key = value.take 28 ↔ acceptOf sha1 key <+: value := by
  rw [List.prefix_iff_eq_take,length_acceptOf]

/-- For all bytes that a server may send: the program is stopped exactly if the first line has
a number and some accept header is shorter than the key to it; and the answer is accepted
exactly if the number is 101 and the last accept header begins with the right key, where no
accept header is too short. The reason in the first line does not matter. -/
theorem accepts_iff (sha1 : Str → Vector UInt8 20) (key : Key) (data : Str) :
    let values := valuesOf acceptName (splitLines data).tail
    (init.parseHandshakeResponse data = .error .trap ↔ (statusOf data).isSome ∧ ∃ value ∈ values, value.length < 28) ∧
    (Accepts sha1 key data ↔ statusOf data = some 101 ∧ (∀ value ∈ values, 28 ≤ value.length) ∧
      ∃ last, values.getLast? = some last ∧ computeWebSocketAcceptKey sha1 key <+: last) := by
  intro values
  cases hstatus : statusOf data with
  | none =>
    have hnone (response : WebSocketHandshakeResponse) : init.parseHandshakeResponse data ≠ .ok response ∧
        init.parseHandshakeResponse data ≠ .error .trap := by
      rcases parse_none hstatus init with hparse | hparse <;> simp [hparse]
    constructor
    · simp [(hnone init).2]
    · refine iff_of_false ?_ (by simp)
      rintro ⟨response,hresponse,-⟩
      exact (hnone response).1 hresponse
  | some n =>
    by_cases hshort : ∃ value ∈ values, value.length < 28
    · have htrap : init.parseHandshakeResponse data = .error .trap := by
        rw [parse_some hstatus,parseHeaders_trap hshort]
      obtain ⟨value,hmem,hlt⟩ := hshort
      constructor
      · exact iff_of_true htrap ⟨rfl,value,hmem,hlt⟩
      · refine iff_of_false ?_ ?_
        · rintro ⟨response,hresponse,-⟩
          rw [htrap] at hresponse
          cases hresponse
        · rintro ⟨-,hlong,-⟩
          exact absurd (hlong value hmem) (by omega)
    · have hlong : ∀ value ∈ values, 28 ≤ value.length := by
        intro value hmem
        by_contra hlt
        exact hshort ⟨value,hmem,by omega⟩
      obtain ⟨headers,hparse⟩ : ∃ headers, init.parseHandshakeResponse data =
          .ok ⟨n,init.statusText,headers,(values.getLast?.map (List.take 28)).or none⟩ := by
        rw [parse_some hstatus]
        exact parseHeaders_ok hlong _
      constructor
      · rw [hparse]
        simp [hshort]
      · rw [Accepts,hparse]
        simp only [Except.ok.injEq,exists_eq_left',isSuccessful,verifyAcceptKey,init]
        cases hlast : values.getLast? with
        | none => simp
        | some last =>
          simp [computeWebSocketAcceptKey,take_eq_iff]
          exact fun _ _ => hlong

end Response

end ZNet.WebSocketHandshake
