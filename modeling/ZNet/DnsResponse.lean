import ZNet.DnsName

/-!
# DNS responses

`resolveUdp` and `resolveDot` send an encoded query to one server after another and
parse the first datagram that comes back. `parseDnsResponse` reads past the id and
the questions of the datagram and compares neither with the query.
-/

namespace ZNet.DnsResponse
open ByteOrder DnsName

inductive DnsError
  | noResponse | parseError | malformedDnsMessage
deriving DecidableEq

/-- A call ends with an error of the module, or a check of the language traps. -/
inductive Failure
  | error (e : DnsError)
  | trap
deriving DecidableEq

structure DnsAnswer where
  name : List UInt8
  recordType : DnsRecordType
  ttl : ℕ
  data : List UInt8
deriving DecidableEq

/-- `data[offset..offset+len]`, which traps outside of the data. -/
def slice (data : List UInt8) (offset len : ℕ) : Except Failure (List UInt8) :=
  if offset+len ≤ data.length then .ok ((data.drop offset).take len) else .error .trap

/-- `std.mem.readInt` of a slice, in big-endian order. -/
def readInt (data : List UInt8) (offset width : ℕ) : Except Failure ℕ :=
  (slice data offset width).map (ofBytes .big)

def recordTypes : List DnsRecordType := [.a,.aaaa,.cname,.mx,.ns,.txt,.srv,.caa]

/-- `@enumFromInt`, which traps for a number that is no record type. -/
def enumFromInt (n : ℕ) : Except Failure DnsRecordType :=
  match recordTypes.find? (·.toNat = n) with
  | some recordType => .ok recordType
  | none => .error .trap

/-- The inner loop of the question section, up to the zero byte or past a pointer. -/
def skipLabels (data : List UInt8) (offset : ℕ) : Except Failure ℕ :=
  if h : offset < data.length then
    if data[offset] = 0 then .ok offset
    else if data[offset] &&& 0xc0 ≠ 0 then .ok (offset+2)
    else skipLabels data (offset+data[offset].toNat+1)
  else .error .trap
termination_by data.length-offset

def skipQuestions (data : List UInt8) : ℕ → ℕ → Except Failure ℕ
  | 0,offset => .ok offset
  | questions+1,offset => do
    let offset ← skipLabels data offset
    skipQuestions data questions (offset+5)

def parseAnswers (data : List UInt8) : ℕ → ℕ → Except Failure (List DnsAnswer)
  | 0,_ => .ok []
  | answers+1,offset => do
    let (name,offset) ← (parseDomainName data offset).mapError fun _ => .error .malformedDnsMessage
    let answerType ← readInt data offset 2
    let _answerClass ← readInt data (offset+2) 2
    let ttl ← readInt data (offset+4) 4
    let dataLength ← readInt data (offset+8) 2
    let answerData ← slice data (offset+10) dataLength
    let recordType ← enumFromInt answerType
    let rest ← parseAnswers data answers (offset+10+dataLength)
    pure (⟨name,recordType,ttl,answerData⟩::rest)

/-- The query is an argument that the function drops, as it drops the id and the flags. -/
def parseDnsResponse (data : List UInt8) (_query : DnsQuery) : Except Failure (List DnsAnswer) :=
  if data.length < 12 then .error (.error .parseError)
  else do
    let _id ← readInt data 0 2
    let _flags ← readInt data 2 2
    let questions ← readInt data 4 2
    let answers ← readInt data 6 2
    let offset ← skipQuestions data questions 12
    parseAnswers data answers offset

/-- The servers that are asked in turn. -/
inductive Server
  | cloudflare | google | quad9
deriving DecidableEq

def servers : List Server := [.cloudflare,.google,.quad9]

/-- What the network and the random generator do when one server is asked. -/
structure Exchange where
  /-- The socket could be set up, over TLS also the connection. -/
  ready : Bool
  /-- The id drawn for this query. -/
  id : UInt16
  sent : Option ℕ
  /-- What `recv` wrote to its buffer, unless it failed. -/
  received : Option (List UInt8)

def bufferSize : ℕ := 4096

/-- The datagram that is parsed when this server is asked with the given query. -/
def Exchange.datagram (e : Exchange) (dnsQuery : List UInt8) : Option (List UInt8) :=
  if e.sent = some dnsQuery.length then (e.received.map (·.take bufferSize)).filter (·.length > 0) else none

/-- The loop over the servers, which `resolveUdp` and `resolveDot` share: the query that
was sent and the datagram that came back, of the first server that got so far. -/
def exchange (order : Endian) (query : DnsQuery) (network : Server → Exchange) :
    List Server → Except Failure (List UInt8×List UInt8)
  | [] => .error (.error .noResponse)
  | server::rest =>
    if (network server).ready then
      match encodeDnsQuery order (network server).id.toNat query with
      | none => .error .trap
      | some dnsQuery =>
        match (network server).datagram dnsQuery with
        | some data => .ok (dnsQuery,data)
        | none => exchange order query network rest
    else exchange order query network rest

def askServers (order : Endian) (query : DnsQuery) (network : Server → Exchange) :
    Except Failure (List DnsAnswer) := do
  let (_,data) ← exchange order query network servers
  parseDnsResponse data query

def resolveUdp (order : Endian) (query : DnsQuery) (network : Server → Exchange) : Except Failure (List DnsAnswer) :=
  askServers order query network

def resolveDot (order : Endian) (query : DnsQuery) (network : Server → Exchange) : Except Failure (List DnsAnswer) :=
  askServers order query network

/-- `catch`, which sees errors and not traps. -/
def orElse (result next : Except Failure (List DnsAnswer)) : Except Failure (List DnsAnswer) :=
  match result with
  | .error (.error _) => next
  | result => result

/-- The result of `resolve` and what it puts into the cache under the name and type of
the query. `cached` is what the cache has, and `doh` the result of `resolveDoh`. -/
def resolve (order : Endian) (preferDoh : Bool) (query : DnsQuery) (cached : Option (List DnsAnswer))
    (doh : Except Failure (List DnsAnswer)) (dot udp : Server → Exchange) :
    Except Failure (List DnsAnswer)×Option (List DnsAnswer) :=
  match cached with
  | some answers => (.ok answers,none)
  | none =>
    let resolved :=
      if preferDoh then orElse doh (orElse (resolveDot order query dot) (resolveUdp order query udp))
      else orElse (resolveUdp order query udp) (orElse doh (resolveDot order query dot))
    match resolved with
    | .ok answers => (.ok answers,some answers)
    | .error (.error _) => (.error (.error .noResponse),none)
    | .error .trap => (.error .trap,none)

/-- The datagram answers the query of these bytes: it repeats the id, and its one
question is the queried name and type. -/
def Answers (query : DnsQuery) (dnsQuery data : List UInt8) : Prop :=
  data.take 2 = dnsQuery.take 2 ∧ ofBytes .big ((data.drop 4).take 2) = 1 ∧
  ∃ labels next pointers, NameAt data 12 labels next pointers ∧ [dot].intercalate labels = query.name ∧
    ofBytes .big ((data.drop next).take 2) = query.recordType.toNat

/-- The network `resolve` has its answers from when the DNS over HTTPS fails. -/
def answering (order : Endian) (preferDoh : Bool) (query : DnsQuery) (dot udp : Server → Exchange) :
    Server → Exchange :=
  if preferDoh then
    match resolveDot order query dot with
    | .error (.error _) => udp
    | _ => dot
  else
    match resolveUdp order query udp with
    | .error (.error _) => dot
    | _ => udp

/-- Whatever the servers send, answers are returned and put into the cache only if
they come from a datagram that answers the query. -/
structure Tied (order : Endian) (query : DnsQuery) : Prop where
  udp : ∀ network answers dnsQuery data, resolveUdp order query network = .ok answers →
    exchange order query network servers = .ok (dnsQuery,data) → Answers query dnsQuery data
  dot : ∀ network answers dnsQuery data, resolveDot order query network = .ok answers →
    exchange order query network servers = .ok (dnsQuery,data) → Answers query dnsQuery data
  cache : ∀ preferDoh e dot udp answers dnsQuery data,
    (resolve order preferDoh query none (.error (.error e)) dot udp).2 = some answers →
    exchange order query (answering order preferDoh query dot udp) servers = .ok (dnsQuery,data) →
    Answers query dnsQuery data

/-- The reader of the module finds every field of a query as `encodeDnsQuery` meant it. -/
def ReadBack (order : Endian) (query : DnsQuery) : Prop :=
  ∀ (id : UInt16) dnsQuery, encodeDnsQuery order id.toNat query = some dnsQuery →
    readInt dnsQuery 0 2 = .ok id.toNat ∧ readInt dnsQuery 2 2 = .ok 0x0100 ∧ readInt dnsQuery 4 2 = .ok 1 ∧
    readInt dnsQuery 6 2 = .ok 0 ∧ readInt dnsQuery 8 2 = .ok 0 ∧ readInt dnsQuery 10 2 = .ok 0 ∧
    readInt dnsQuery (dnsQuery.length-4) 2 = .ok query.recordType.toNat ∧
    readInt dnsQuery (dnsQuery.length-2) 2 = .ok query.cls

/-- The length of a label does not fit into its byte, and `encodeDnsQuery` traps. -/
def TooLong (query : DnsQuery) : Prop := ∃ label ∈ query.name.splitOn dot, 256 ≤ label.length

theorem encodeLabels_eq_none {labels : List (List UInt8)} :
    encodeLabels labels = none ↔ ∃ label ∈ labels, 256 ≤ label.length := by
  induction labels with
  | nil => simp [encodeLabels]
  | cons label labels ih =>
    rw [encodeLabels]
    split
    · rename_i hlt
      rw [Option.map_eq_none_iff,ih,List.exists_mem_cons_iff]
      constructor
      · exact Or.inr
      · rintro (hle | h)
        · omega
        · exact h
    · rename_i hge
      exact iff_of_true rfl ⟨label,List.mem_cons_self ..,by omega⟩

theorem encodeDnsQuery_eq_none {order : Endian} {id : ℕ} {query : DnsQuery} :
    encodeDnsQuery order id query = none ↔ TooLong query := by
  rw [encodeDnsQuery,Option.map_eq_none_iff,encodeLabels_eq_none]
  rfl

section Trap

variable {order : Endian} {query : DnsQuery}

/-- When the query cannot be encoded no exchange comes about. -/
theorem exchange_tooLong (hlong : TooLong query) (network : Server → Exchange) (asked : List Server)
    (dnsQuery data : List UInt8) : exchange order query network asked ≠ .ok (dnsQuery,data) := by
  induction asked with
  | nil => simp [exchange]
  | cons server rest ih =>
    rw [exchange,encodeDnsQuery_eq_none.mpr hlong]
    split
    · simp
    · exact ih

theorem tied_of_tooLong (hlong : TooLong query) : Tied order query where
  udp network _ dnsQuery data _ h := (exchange_tooLong hlong network servers dnsQuery data h).elim
  dot network _ dnsQuery data _ h := (exchange_tooLong hlong network servers dnsQuery data h).elim
  cache _ _ _ _ _ dnsQuery data _ h := (exchange_tooLong hlong _ servers dnsQuery data h).elim

end Trap

section OffPath

/-- Twelve zero bytes: a header with id 0, no question and no answer. -/
def blank : List UInt8 := List.replicate 12 0

theorem parseDnsResponse_blank (query : DnsQuery) : parseDnsResponse blank query = .ok [] := rfl

/-- Every server is reached and returns the blank datagram, whatever it is asked. -/
def offPath (id : UInt16) (dnsQuery : List UInt8) (_server : Server) : Exchange :=
  ⟨true,id,some dnsQuery.length,some blank⟩

theorem exchange_offPath {order : Endian} {query : DnsQuery} {id : UInt16} {dnsQuery : List UInt8}
    (hquery : encodeDnsQuery order id.toNat query = some dnsQuery) :
    exchange order query (offPath id dnsQuery) servers = .ok (dnsQuery,blank) := by
  have hready : (offPath id dnsQuery .cloudflare).ready = true := rfl
  have hid : (offPath id dnsQuery .cloudflare).id = id := rfl
  have hdatagram : (offPath id dnsQuery .cloudflare).datagram dnsQuery = some blank := by
    have hsent : (offPath id dnsQuery .cloudflare).sent = some dnsQuery.length := rfl
    rw [Exchange.datagram,if_pos hsent]
    rfl
  rw [servers,exchange,if_pos hready,hid,hquery]
  simp only [hdatagram]

theorem resolveUdp_offPath {order : Endian} {query : DnsQuery} {id : UInt16} {dnsQuery : List UInt8}
    (hquery : encodeDnsQuery order id.toNat query = some dnsQuery) :
    resolveUdp order query (offPath id dnsQuery) = .ok [] := by
  rw [resolveUdp,askServers,exchange_offPath hquery]
  exact parseDnsResponse_blank query

/-- The blank datagram is accepted for every query and answers none. -/
theorem not_answers_blank (query : DnsQuery) (dnsQuery : List UInt8) : ¬Answers query dnsQuery blank := by
  rintro ⟨-,hquestions,-⟩
  exact absurd hquestions (by decide)

end OffPath

section Fields

theorem slice_append (front field rest : List UInt8) :
    slice (front++(field++rest)) front.length field.length = .ok field := by
  rw [slice,if_pos (by simp only [List.length_append]; omega),List.drop_left,List.take_left]

/-- An integer of two bytes with `front` before it. -/
theorem readInt_toBytes {order : Endian} {n offset : ℕ} {data : List UInt8} (front rest : List UInt8)
    (hdata : data = front++(toBytes order 2 n++rest)) (hoffset : offset = front.length) :
    readInt data offset 2 = .ok (ofBytes .big (toBytes order 2 n)) := by
  have h := slice_append front (toBytes order 2 n) rest
  rw [length_toBytes] at h
  rw [readInt,hdata,hoffset,h]
  rfl

variable {order : Endian} {query : DnsQuery} {id : ℕ} {dnsQuery : List UInt8}

/-- What the reader of the module finds in the fields of an encoded query. -/
theorem readInt_encoded (hquery : encodeDnsQuery order id query = some dnsQuery) :
    readInt dnsQuery 0 2 = .ok (ofBytes .big (toBytes order 2 id)) ∧
    readInt dnsQuery 2 2 = .ok (ofBytes .big (toBytes order 2 0x0100)) ∧
    readInt dnsQuery 4 2 = .ok (ofBytes .big (toBytes order 2 1)) ∧
    (∀ offset ∈ [6,8,10], readInt dnsQuery offset 2 = .ok (ofBytes .big (toBytes order 2 0))) ∧
    readInt dnsQuery (dnsQuery.length-4) 2 = .ok (ofBytes .big (toBytes order 2 query.recordType.toNat)) ∧
    readInt dnsQuery (dnsQuery.length-2) 2 = .ok (ofBytes .big (toBytes order 2 query.cls)) := by
  obtain ⟨labels,-,rfl⟩ := Option.map_eq_some_iff.mp hquery
  have hzero (offset : ℕ) (hoffset : offset = 6 ∨ offset = 8 ∨ offset = 10) :
      readInt (toBytes order 2 id++toBytes order 2 0x0100++toBytes order 2 1++toBytes order 2 0++toBytes order 2 0++
        toBytes order 2 0++labels++[0]++toBytes order 2 query.recordType.toNat++toBytes order 2 query.cls) offset 2 =
      .ok (ofBytes .big (toBytes order 2 0)) := by
    rcases hoffset with rfl | rfl | rfl
    · exact readInt_toBytes (toBytes order 2 id++toBytes order 2 0x0100++toBytes order 2 1) _
        (by simp only [List.append_assoc]; rfl) (by simp)
    · exact readInt_toBytes (toBytes order 2 id++toBytes order 2 0x0100++toBytes order 2 1++toBytes order 2 0) _
        (by simp only [List.append_assoc]; rfl) (by simp)
    · exact readInt_toBytes (toBytes order 2 id++toBytes order 2 0x0100++toBytes order 2 1++toBytes order 2 0++
        toBytes order 2 0) _ (by simp only [List.append_assoc]; rfl) (by simp)
  refine ⟨?_,?_,?_,fun offset hoffset => hzero offset (by simpa using hoffset),?_,?_⟩
  · exact readInt_toBytes [] _ (by simp only [List.append_assoc,List.nil_append]; rfl) rfl
  · exact readInt_toBytes (toBytes order 2 id) _ (by simp only [List.append_assoc]; rfl) (by simp)
  · exact readInt_toBytes (toBytes order 2 id++toBytes order 2 0x0100) _ (by simp only [List.append_assoc]; rfl)
      (by simp)
  · exact readInt_toBytes (toBytes order 2 id++toBytes order 2 0x0100++toBytes order 2 1++toBytes order 2 0++
      toBytes order 2 0++toBytes order 2 0++labels++[0]) (toBytes order 2 query.cls)
      (by simp only [List.append_assoc]) (by simp only [List.length_append,length_toBytes]; omega)
  · exact readInt_toBytes (toBytes order 2 id++toBytes order 2 0x0100++toBytes order 2 1++toBytes order 2 0++
      toBytes order 2 0++toBytes order 2 0++labels++[0]++toBytes order 2 query.recordType.toNat) []
      (by simp only [List.append_assoc,List.append_nil]) (by simp only [List.length_append,length_toBytes]; omega)

theorem recordType_lt (recordType : DnsRecordType) : recordType.toNat < 256^2 := by
  cases recordType <;> decide

/-- On a big-endian host the fields are read back. -/
theorem readBack_big (hcls : query.cls < 65536) : ReadBack .big query := by
  intro id dnsQuery hquery
  obtain ⟨hid,hflags,hquestions,hzero,htype,hclass⟩ := readInt_encoded hquery
  rw [ofBytes_toBytes .big (by decide)] at hflags hquestions hzero
  rw [ofBytes_toBytes .big id.toNat_lt] at hid
  rw [ofBytes_toBytes .big (recordType_lt _)] at htype
  rw [ofBytes_toBytes .big hcls] at hclass
  exact ⟨hid,hflags,hquestions,hzero 6 (by decide),hzero 8 (by decide),hzero 10 (by decide),htype,hclass⟩

/-- On a little-endian host the flags 0x0100 are read back as 1. -/
theorem not_readBack_little (hfits : ¬TooLong query) : ¬ReadBack .little query := by
  intro h
  have hsome : encodeDnsQuery .little (0 : UInt16).toNat query ≠ none := fun hnone =>
    hfits (encodeDnsQuery_eq_none.mp hnone)
  obtain ⟨dnsQuery,hquery⟩ := Option.ne_none_iff_exists'.mp hsome
  have hflags := (readInt_encoded hquery).2.1
  rw [(h 0 dnsQuery hquery).2.1] at hflags
  exact absurd (Except.ok.inj hflags) (by decide)

end Fields

theorem not_tied {order : Endian} {query : DnsQuery} (hfits : ¬TooLong query) : ¬Tied order query := by
  intro h
  have hsome : encodeDnsQuery order (7 : UInt16).toNat query ≠ none := fun hnone =>
    hfits (encodeDnsQuery_eq_none.mp hnone)
  obtain ⟨dnsQuery,hquery⟩ := Option.ne_none_iff_exists'.mp hsome
  exact not_answers_blank query dnsQuery
    (h.udp (offPath 7 dnsQuery) [] dnsQuery blank (resolveUdp_offPath hquery) (exchange_offPath hquery))

/-- Answers are never tied to the query that is sent: they are only for a name that
`encodeDnsQuery` cannot encode, of which no query is sent at all. What it writes is read
back by the reader of the module on big-endian hosts only. -/
theorem tied_readBack_iff (order : Endian) (query : DnsQuery) (hcls : query.cls < 65536) :
    (Tied order query ∧ ReadBack order query ↔ TooLong query) ∧ (Tied order query ↔ TooLong query) ∧
    (ReadBack order query ↔ order = .big ∨ TooLong query) := by
  have htied : Tied order query ↔ TooLong query := ⟨fun h => by_contra fun hfits => not_tied hfits h,tied_of_tooLong⟩
  have hback : ReadBack order query ↔ order = .big ∨ TooLong query := by
    constructor
    · intro h
      cases order with
      | big => exact .inl rfl
      | little => exact .inr (by_contra fun hfits => not_readBack_little hfits h)
    · rintro (rfl | hlong)
      · exact readBack_big hcls
      · intro id dnsQuery hquery
        rw [encodeDnsQuery_eq_none.mpr hlong] at hquery
        cases hquery
  refine ⟨?_,htied,hback⟩
  rw [htied,hback]
  exact ⟨And.left,fun hlong => ⟨hlong,.inr hlong⟩⟩

/-- A query for the A record of `ab`. -/
def sample : DnsQuery := ⟨[97,98],.a,1⟩

theorem sample_fits : ¬TooLong sample := by
  rintro ⟨label,hmem,hlong⟩
  have hlabels : sample.name.splitOn dot = [[97,98]] := by decide
  rw [hlabels,List.mem_singleton] at hmem
  subst hmem
  exact absurd hlong (by decide)

theorem tied_readBack_iff_sample : (Tied .big sample ↔ TooLong sample) ∧ ¬Tied .big sample :=
  have h := tied_readBack_iff .big sample (by decide)
  ⟨h.2.1,fun htied => sample_fits (h.2.1.mp htied)⟩

/-- The query for `ab` with id 7 goes out of a little-endian host and a blank datagram
comes back. The empty list of its answers is returned and cached. -/
theorem blank_accepted :
    (∃ dnsQuery, encodeDnsQuery .little 7 sample = some dnsQuery ∧
      resolveUdp .little sample (offPath 7 dnsQuery) = .ok [] ∧
      resolve .little false sample none (.error (.error .noResponse)) (offPath 7 dnsQuery) (offPath 7 dnsQuery) =
        (.ok [],some []) ∧ ¬Answers sample dnsQuery blank) ∧
    ¬Tied .little sample ∧ ¬ReadBack .little sample := by
  refine ⟨⟨_,rfl,resolveUdp_offPath rfl,?_,not_answers_blank sample _⟩,not_tied sample_fits,
    not_readBack_little sample_fits⟩
  rw [resolve,resolveUdp_offPath rfl]
  rfl

end ZNet.DnsResponse
