import ZNet.ByteOrder
import ZNet.FreedMemory
import ZNet.Tables
import ZNet.TextScan

/-!
# Cache entries

A cache entry is stored as bytes. Its numbers are written in the byte order of the machine
and read in big-endian order.
-/

namespace ZNet.Caching
open ByteOrder Tables

abbrev Str := List UInt8

structure HttpHeader where
  name : Str
  value : Str
deriving DecidableEq

structure HttpResponse where
  statusCode : ℕ
  headers : List HttpHeader
  body : Str
deriving DecidableEq

inductive CacheError
  | notFound | expired | serializationError | deserializationError | storageError | revalidationRequired
deriving DecidableEq

inductive Failure
  | error (error : CacheError)
  /-- A bound, an addition or a cast is out of range. -/
  | trap
deriving DecidableEq

structure CacheMetadata where
  contentType : Option Str := none
  contentEncoding : Option Str := none
  etag : Option Str := none
  lastModified : Option Str := none
  varyHeaders : Option Str := none
  size : ℕ
  compressed : Bool := false
deriving DecidableEq

/-- The strings of metadata. -/
inductive MetadataField
  | contentType | contentEncoding | etag | lastModified | varyHeaders

namespace CacheMetadata

def string (self : CacheMetadata) : MetadataField → Option Str
  | .contentType => self.contentType
  | .contentEncoding => self.contentEncoding
  | .etag => self.etag
  | .lastModified => self.lastModified
  | .varyHeaders => self.varyHeaders

def mapStrings (self : CacheMetadata) (f : MetadataField → Str → Str) : CacheMetadata where
  contentType := self.contentType.map (f .contentType)
  contentEncoding := self.contentEncoding.map (f .contentEncoding)
  etag := self.etag.map (f .etag)
  lastModified := self.lastModified.map (f .lastModified)
  varyHeaders := self.varyHeaders.map (f .varyHeaders)
  size := self.size
  compressed := self.compressed

end CacheMetadata

structure CacheEntry where
  key : Str
  value : Str
  createdAt : ℤ
  expiresAt : ℤ
  accessCount : ℕ
  lastAccessed : ℤ
  metadata : CacheMetadata
deriving DecidableEq

/-- The machine and its libraries: the byte order, JSON, freed memory, compression, and the
order in which the database lists its entries. -/
structure Platform where
  endian : Endian
  stringifyMetadata : CacheMetadata → Str
  parseMetadata : Str → Option CacheMetadata
  /-- A string with an escape in the text is copied when the text is parsed. -/
  copied : Str → MetadataField → Bool
  freed : FreedMemory UInt8
  stringifyHeaders : List HttpHeader → Str
  parseHeaders : Str → Option (List HttpHeader)
  zlibCompress : Str → Option Str
  order : IterationOrder Str

section Bytes

def i64Bytes (order : Endian) (v : ℤ) : Str := toBytes order 8 (v%2^64).toNat

def readI64 (bytes : Str) : ℤ :=
  if ofBytes .big bytes < 2^63 then ofBytes .big bytes else ofBytes .big bytes-2^64

/-- The cast of a length to 32 bits. -/
def lengthBytes (order : Endian) (s : Str) : Except Failure Str :=
  if s.length < 2^32 then .ok (toBytes order 4 s.length) else .error .trap

def slice (data : Str) (start length : ℕ) : Except Failure Str :=
  if start+length ≤ data.length then .ok ((data.drop start).take length) else .error .trap

/-- What JSON was parsed to. -/
def parsed {α : Type} : Option α → Except Failure α
  | some a => .ok a
  | none => .error (.error .deserializationError)

end Bytes

def serializeCacheEntry (P : Platform) (entry : CacheEntry) : Except Failure Str := do
  let metadataJson := P.stringifyMetadata entry.metadata
  let metadataLength ← lengthBytes P.endian metadataJson
  let valueLength ← lengthBytes P.endian entry.value
  return i64Bytes P.endian entry.createdAt++(i64Bytes P.endian entry.expiresAt++
    (toBytes P.endian 4 entry.accessCount++(i64Bytes P.endian entry.lastAccessed++
    (metadataLength++(metadataJson++(valueLength++entry.value))))))

/-- The metadata of a text after its parser is deinitialized, which frees the copied strings. -/
def afterDeinit (P : Platform) (metadataJson : Str) (metadata : CacheMetadata) : CacheMetadata :=
  metadata.mapStrings fun field s => if P.copied metadataJson field then P.freed.read s else s

/-- The key is left empty. -/
def deserializeCacheEntry (P : Platform) (data : Str) : Except Failure CacheEntry := do
  let createdAt ← slice data 0 8
  let expiresAt ← slice data 8 8
  let accessCount ← slice data 16 4
  let lastAccessed ← slice data 20 8
  let metadataLength ← slice data 28 4
  let metadataJson ← slice data 32 (ofBytes .big metadataLength)
  let metadata ← parsed (P.parseMetadata metadataJson)
  let offset := 32+ofBytes .big metadataLength
  let valueLength ← slice data offset 4
  let value ← slice data (offset+4) (ofBytes .big valueLength)
  return {
    key := []
    value := value
    createdAt := readI64 createdAt
    expiresAt := readI64 expiresAt
    accessCount := ofBytes .big accessCount
    lastAccessed := readI64 lastAccessed
    metadata := afterDeinit P metadataJson metadata }

def serializeHttpResponse (P : Platform) (response : HttpResponse) : Except Failure Str := do
  let headersJson := P.stringifyHeaders response.headers
  let headersLength ← lengthBytes P.endian headersJson
  let bodyLength ← lengthBytes P.endian response.body
  return toBytes P.endian 2 response.statusCode++(headersLength++(headersJson++(bodyLength++response.body)))

def parseHeadersFromEntry (P : Platform) (entry : CacheEntry) : Except Failure (List HttpHeader) := do
  let headersLength ← slice entry.value 2 4
  let headersJson ← slice entry.value 6 (ofBytes .big headersLength)
  parsed (P.parseHeaders headersJson)

variable {P : Platform} {entry : CacheEntry} {data : Str}

theorem bind_ok {α β : Type} {x : Except Failure α} {f : α → Except Failure β} {b : β} (h : x >>= f = .ok b) :
    ∃ a, x = .ok a ∧ f a = .ok b := by
  cases x with
  | error e => cases h
  | ok a => exact ⟨a,rfl,h⟩

theorem lengthBytes_ok {order : Endian} {s bytes : Str} (h : lengthBytes order s = .ok bytes) :
    s.length < 2^32 ∧ bytes = toBytes order 4 s.length := by
  rw [lengthBytes] at h
  split at h
  · rename_i hlength
    cases h
    exact ⟨hlength,rfl⟩
  · cases h

theorem slice_ok {start length : ℕ} {bytes : Str} (h : slice data start length = .ok bytes) :
    bytes = (data.drop start).take length := by
  rw [slice] at h
  split at h
  · cases h
    rfl
  · cases h

/-- A part that was written is read back from its place. -/
theorem slice_here (part after : Str) {length : ℕ} (hlength : length = part.length) :
    slice (part++after) 0 length = .ok part := by
  rw [slice,if_pos,List.drop_zero,hlength,List.take_left]
  rw [List.length_append]
  omega

theorem slice_skip (before after : Str) {start k length : ℕ} (hstart : start = before.length+k) :
    slice (before++after) start length = slice after k length := by
  rw [slice,slice,hstart,List.drop_append,List.drop_of_length_le (by omega),List.nil_append,List.length_append]
  simp only [Nat.add_assoc,Nat.add_le_add_iff_left,Nat.add_sub_cancel_left]

/-- What an entry is stored as. -/
def layout (P : Platform) (entry : CacheEntry) : Str :=
  i64Bytes P.endian entry.createdAt++(i64Bytes P.endian entry.expiresAt++
    (toBytes P.endian 4 entry.accessCount++(i64Bytes P.endian entry.lastAccessed++
    (toBytes P.endian 4 (P.stringifyMetadata entry.metadata).length++(P.stringifyMetadata entry.metadata++
    (toBytes P.endian 4 entry.value.length++entry.value))))))

/-- The lengths of the entry fit into 32 bits. -/
def Fits (P : Platform) (metadata : CacheMetadata) (value : Str) : Prop :=
  (P.stringifyMetadata metadata).length < 2^32 ∧ value.length < 2^32

theorem serializeCacheEntry_of_fits (h : Fits P entry.metadata entry.value) :
    serializeCacheEntry P entry = .ok (layout P entry) := by
  rw [serializeCacheEntry,lengthBytes,lengthBytes,if_pos h.1,if_pos h.2]
  rfl

@[simp] theorem length_i64Bytes (order : Endian) (v : ℤ) : (i64Bytes order v).length = 8 := length_toBytes order 8 _

section Layout

variable (P : Platform) (entry : CacheEntry)

theorem slice_createdAt : slice (layout P entry) 0 8 = .ok (i64Bytes P.endian entry.createdAt) := by
  rw [layout,slice_here _ _ (by simp)]

theorem slice_expiresAt : slice (layout P entry) 8 8 = .ok (i64Bytes P.endian entry.expiresAt) := by
  rw [layout,slice_skip _ _ (k:=0) (by simp),slice_here _ _ (by simp)]

theorem slice_accessCount : slice (layout P entry) 16 4 = .ok (toBytes P.endian 4 entry.accessCount) := by
  rw [layout,slice_skip _ _ (k:=8) (by simp),slice_skip _ _ (k:=0) (by simp),slice_here _ _ (by simp)]

theorem slice_lastAccessed : slice (layout P entry) 20 8 = .ok (i64Bytes P.endian entry.lastAccessed) := by
  rw [layout,slice_skip _ _ (k:=12) (by simp),slice_skip _ _ (k:=4) (by simp),slice_skip _ _ (k:=0) (by simp),
    slice_here _ _ (by simp)]

/-- From the length of the metadata on. -/
theorem slice_tail (k length : ℕ) : slice (layout P entry) (28+k) length =
    slice (toBytes P.endian 4 (P.stringifyMetadata entry.metadata).length++(P.stringifyMetadata entry.metadata++
      (toBytes P.endian 4 entry.value.length++entry.value))) k length := by
  rw [layout,slice_skip _ _ (k:=20+k) (by simp; omega),slice_skip _ _ (k:=12+k) (by simp; omega),
    slice_skip _ _ (k:=8+k) (by simp; omega),slice_skip _ _ (k:=k) (by simp)]

theorem slice_metadataLength : slice (layout P entry) 28 4 =
    .ok (toBytes P.endian 4 (P.stringifyMetadata entry.metadata).length) := by
  rw [slice_tail P entry 0 4,slice_here _ _ (by simp)]

theorem slice_metadataJson : slice (layout P entry) 32 (P.stringifyMetadata entry.metadata).length =
    .ok (P.stringifyMetadata entry.metadata) := by
  rw [slice_tail P entry 4,slice_skip _ _ (k:=0) (by simp),slice_here _ _ rfl]

theorem slice_valueLength : slice (layout P entry) (32+(P.stringifyMetadata entry.metadata).length) 4 =
    .ok (toBytes P.endian 4 entry.value.length) := by
  have hplace : 32+(P.stringifyMetadata entry.metadata).length = 28+(4+(P.stringifyMetadata entry.metadata).length) := by
    omega
  rw [hplace,slice_tail,slice_skip _ _ (k:=(P.stringifyMetadata entry.metadata).length) (by simp),
    slice_skip _ _ (k:=0) (by simp),slice_here _ _ (by simp)]

theorem slice_value : slice (layout P entry) (32+(P.stringifyMetadata entry.metadata).length+4) entry.value.length =
    .ok entry.value := by
  have hplace : 32+(P.stringifyMetadata entry.metadata).length+4 =
      28+(4+((P.stringifyMetadata entry.metadata).length+4)) := by omega
  rw [hplace,slice_tail,slice_skip _ _ (k:=(P.stringifyMetadata entry.metadata).length+4) (by simp),
    slice_skip _ _ (k:=4) rfl,slice_skip _ _ (k:=0) (by simp)]
  simpa using slice_here entry.value [] rfl

end Layout

/-- On a big-endian machine an entry is read back without its key, with what is left of the
metadata that its text stands for. -/
theorem deserializeCacheEntry_layout (hbig : P.endian = .big) (hfits : Fits P entry.metadata entry.value) :
    deserializeCacheEntry P (layout P entry) =
      match P.parseMetadata (P.stringifyMetadata entry.metadata) with
      | none => .error (.error .deserializationError)
      | some metadata => .ok ⟨[],entry.value,readI64 (i64Bytes .big entry.createdAt),
          readI64 (i64Bytes .big entry.expiresAt),ofBytes .big (toBytes .big 4 entry.accessCount),
          readI64 (i64Bytes .big entry.lastAccessed),
          afterDeinit P (P.stringifyMetadata entry.metadata) metadata⟩ := by
  have hmetadata : ofBytes .big (toBytes .big 4 _) = _ := ofBytes_toBytes .big hfits.1
  have hvalue : ofBytes .big (toBytes .big 4 _) = _ := ofBytes_toBytes .big hfits.2
  rw [deserializeCacheEntry,slice_createdAt,slice_expiresAt,slice_accessCount,slice_lastAccessed,slice_metadataLength,hbig]
  simp only [bind,Except.bind,hmetadata,slice_metadataJson]
  cases P.parseMetadata (P.stringifyMetadata entry.metadata) with
  | none => rfl
  | some metadata =>
    simp only [slice_valueLength,hbig,hvalue,slice_value]
    rfl

/-- What is read lies at fixed places, whatever wrote it, and has no key. -/
theorem deserializeCacheEntry_ok (h : deserializeCacheEntry P data = .ok entry) :
    entry.key = [] ∧ entry.expiresAt = readI64 ((data.drop 8).take 8) ∧
      entry.accessCount = ofBytes .big ((data.drop 16).take 4) := by
  obtain ⟨createdAt,-,h⟩ := bind_ok h
  obtain ⟨expiresAt,hexpiresAt,h⟩ := bind_ok h
  obtain ⟨accessCount,haccessCount,h⟩ := bind_ok h
  obtain ⟨lastAccessed,-,h⟩ := bind_ok h
  obtain ⟨metadataLength,-,h⟩ := bind_ok h
  obtain ⟨metadataJson,-,h⟩ := bind_ok h
  obtain ⟨metadata,-,h⟩ := bind_ok h
  obtain ⟨valueLength,-,h⟩ := bind_ok h
  obtain ⟨value,-,h⟩ := bind_ok h
  cases h
  exact ⟨rfl,congrArg readI64 (slice_ok hexpiresAt),congrArg (ofBytes .big) (slice_ok haccessCount)⟩

theorem length_serializeHttpResponse {response : HttpResponse} (h : serializeHttpResponse P response = .ok data) :
    response.body.length < data.length := by
  obtain ⟨headersLength,-,h⟩ := bind_ok h
  obtain ⟨bodyLength,hbody,h⟩ := bind_ok h
  have hdata := Except.ok.inj h
  rw [← hdata,(lengthBytes_ok hbody).2]
  simp only [List.length_append,length_toBytes]
  omega

/-- On a big-endian machine the headers of a response are read from what it is serialized to. -/
theorem parseHeadersFromEntry_serialized (hbig : P.endian = .big) {response : HttpResponse}
    (hvalue : serializeHttpResponse P response = .ok entry.value) :
    parseHeadersFromEntry P entry = parsed (P.parseHeaders (P.stringifyHeaders response.headers)) := by
  obtain ⟨headersLength,hheaders,h⟩ := bind_ok hvalue
  obtain ⟨bodyLength,hbody,h⟩ := bind_ok h
  obtain ⟨hlength,rfl⟩ := lengthBytes_ok hheaders
  have hread : ofBytes .big (toBytes P.endian 4 (P.stringifyHeaders response.headers).length) =
      (P.stringifyHeaders response.headers).length := by
    rw [hbig]
    exact ofBytes_toBytes .big hlength
  have hentry := Except.ok.inj h
  rw [parseHeadersFromEntry,← hentry,slice_skip _ _ (k:=0) (by simp),slice_here _ _ (by simp)]
  simp only [bind,Except.bind,hread]
  rw [slice_skip _ _ (k:=4) (by simp),slice_skip _ _ (k:=0) (by simp),slice_here _ _ rfl]

section PlainJson

/-!
JSON of texts in which nothing is escaped, for a platform that can read the given metadata and
headers.
-/

open TextScan

def quoted (s : Str) : Str := 0x22::s++[0x22]

def jsonField (name : List Char) (value : Str) : Str := quoted (ascii name)++0x3a::value

def jsonObject (fields : List Str) : Str := 0x7b::[0x2c].intercalate fields++[0x7d]

def jsonOption : Option Str → Str
  | none => ascii "null".toList
  | some s => quoted s

def jsonBool (b : Bool) : Str := ascii (if b then "true".toList else "false".toList)

def plainMetadata (metadata : CacheMetadata) : Str := jsonObject [
  jsonField "content_type".toList (jsonOption metadata.contentType),
  jsonField "content_encoding".toList (jsonOption metadata.contentEncoding),
  jsonField "etag".toList (jsonOption metadata.etag),
  jsonField "last_modified".toList (jsonOption metadata.lastModified),
  jsonField "vary_headers".toList (jsonOption metadata.varyHeaders),
  jsonField "size".toList (decimal metadata.size),
  jsonField "compressed".toList (jsonBool metadata.compressed)]

def plainHeaders (headers : List HttpHeader) : Str :=
  0x5b::[0x2c].intercalate (headers.map fun header =>
    jsonObject [jsonField "name".toList (quoted header.name),jsonField "value".toList (quoted header.value)])++[0x5d]

def plainPlatform (endian : Endian) (metadata : CacheMetadata) (headers : List HttpHeader) : Platform where
  endian := endian
  stringifyMetadata := plainMetadata
  parseMetadata text := if text = plainMetadata metadata then some metadata else none
  copied _ _ := false
  freed := .filled 0xaa
  stringifyHeaders := plainHeaders
  parseHeaders text := if text = plainHeaders headers then some headers else none
  zlibCompress _ := none
  order keys := ⟨keys,.refl keys⟩

end PlainJson

end ZNet.Caching
