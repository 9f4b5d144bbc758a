import ZNet.CacheEntries

/-!
# Cache entries on a little-endian machine

The numbers of an entry are read the other way around than they are written. Only numbers
whose bytes are palindromes come back. Strings that JSON has to copy are returned after the
copies were freed.
-/

namespace ZNet.CacheRoundTrip
open Caching ByteOrder

/-- The numbers of an entry are `i64` and `u32`. -/
structure Sized (entry : CacheEntry) : Prop where
  createdAt : -2^63 ≤ entry.createdAt ∧ entry.createdAt < 2^63
  expiresAt : -2^63 ≤ entry.expiresAt ∧ entry.expiresAt < 2^63
  accessCount : entry.accessCount < 2^32
  lastAccessed : -2^63 ≤ entry.lastAccessed ∧ entry.lastAccessed < 2^63

/-- The JSON of the metadata is read back, and no text that breaks off before its end is read. -/
structure JsonWorks (P : Platform) (metadata : CacheMetadata) : Prop where
  roundTrip : P.parseMetadata (P.stringifyMetadata metadata) = some metadata
  complete : ∀ text, text <+: P.stringifyMetadata metadata → text ≠ P.stringifyMetadata metadata →
    P.parseMetadata text = none

/-- An entry is read back from the bytes that it is written to. -/
def RoundTrips (P : Platform) (entry : CacheEntry) : Prop :=
  ∃ data, serializeCacheEntry P entry = .ok data ∧ deserializeCacheEntry P data = .ok entry

def Palindrome (bytes : Str) : Prop := bytes = bytes.reverse

instance (bytes : Str) : Decidable (Palindrome bytes) := inferInstanceAs (Decidable (_ = _))

/-- All numbers that are written are the same in both byte orders. -/
structure Symmetric (P : Platform) (entry : CacheEntry) : Prop where
  createdAt : Palindrome (i64Bytes .little entry.createdAt)
  expiresAt : Palindrome (i64Bytes .little entry.expiresAt)
  accessCount : Palindrome (toBytes .little 4 entry.accessCount)
  lastAccessed : Palindrome (i64Bytes .little entry.lastAccessed)
  metadataLength : Palindrome (toBytes .little 4 (P.stringifyMetadata entry.metadata).length)
  valueLength : Palindrome (toBytes .little 4 entry.value.length)

/-- The strings that were copied and freed are still as they were. -/
def Intact (P : Platform) (metadata : CacheMetadata) : Prop :=
  ∀ field s, metadata.string field = some s → P.copied (P.stringifyMetadata metadata) field = true → P.freed.read s = s

/-- Of the strings at most empty ones are copied. -/
def Uncopied (P : Platform) (metadata : CacheMetadata) : Prop :=
  ∀ field s, metadata.string field = some s → P.copied (P.stringifyMetadata metadata) field = true → s = []

variable {P : Platform} {entry : CacheEntry} {data bytes : Str}

section Strings

variable {metadata : CacheMetadata}

theorem map_eq_self_iff {α : Type} {x : Option α} {f : α → α} : x.map f = x ↔ ∀ a, x = some a → f a = a := by
  cases x <;> simp

theorem mapStrings_eq_self_iff {f : MetadataField → Str → Str} :
    metadata.mapStrings f = metadata ↔ ∀ field s, metadata.string field = some s → f field s = s := by
  constructor
  · intro h field s hs
    have hfield : (metadata.mapStrings f).string field = (metadata.string field).map (f field) := by
      cases field <;> rfl
    rw [h,hs,Option.map_some,Option.some.injEq] at hfield
    exact hfield.symm
  · intro h
    have hmap : ∀ field, (metadata.string field).map (f field) = metadata.string field :=
      fun field => map_eq_self_iff.mpr (h field)
    rw [CacheMetadata.mapStrings,CacheMetadata.mk.injEq]
    exact ⟨hmap .contentType,hmap .contentEncoding,hmap .etag,hmap .lastModified,hmap .varyHeaders,rfl,rfl⟩

theorem afterDeinit_eq_self_iff :
    afterDeinit P (P.stringifyMetadata metadata) metadata = metadata ↔ Intact P metadata := by
  rw [afterDeinit,mapStrings_eq_self_iff]
  refine forall_congr' fun field => forall_congr' fun s => imp_congr_right fun _ => ?_
  by_cases hcopied : P.copied (P.stringifyMetadata metadata) field = true <;> simp [hcopied]

/-- Strings are intact in every memory if none but the empty one is copied. -/
theorem forall_intact_iff : (∀ freed, Intact { P with freed := freed } metadata) ↔ Uncopied P metadata := by
  have hbytes : Nontrivial UInt8 := ⟨0,1,by decide⟩
  constructor
  · intro h field s hs hcopied
    exact FreedMemory.read_eq_iff.mp fun freed => h freed field s hs hcopied
  · intro h freed field s hs hcopied
    rw [h field s hs hcopied,FreedMemory.read_nil]

end Strings

section Numbers

theorem readI64_i64Bytes {v : ℤ} (hv : -2^63 ≤ v ∧ v < 2^63) :
    readI64 (i64Bytes .little v) = v ↔ Palindrome (i64Bytes .little v) := by
  have hbound := ofBytes_lt .big (i64Bytes .little v)
  rw [length_i64Bytes] at hbound
  have hn : (v%2^64).toNat < 256^8 := by omega
  rw [Palindrome,i64Bytes,← ofBytes_big_little hn,← i64Bytes,readI64]
  constructor
  · intro h
    split at h <;> omega
  · intro h
    rw [h]
    split <;> omega

theorem readU32_toBytes {n : ℕ} (hn : n < 2^32) :
    ofBytes .big (toBytes .little 4 n) = n ↔ Palindrome (toBytes .little 4 n) := ofBytes_big_little hn

theorem slice_length {start length : ℕ} (h : slice data start length = .ok bytes) :
    bytes.length = length ∧ start+length ≤ data.length := by
  rw [slice] at h
  split at h
  · rename_i hlength
    obtain rfl := Except.ok.inj h
    rw [List.length_take,List.length_drop]
    omega
  · cases h

theorem parsed_ok {α : Type} {x : Option α} {a : α} (h : parsed x = .ok a) : x = some a := by
  cases x with
  | none => cases h
  | some b =>
    obtain rfl := Except.ok.inj h
    rfl

theorem length_layout (P : Platform) (entry : CacheEntry) :
    (layout P entry).length = 36+(P.stringifyMetadata entry.metadata).length+entry.value.length := by
  simp only [layout,List.length_append,length_i64Bytes,length_toBytes]
  omega

/-- What memory holds when it is freed has no part in the numbers. -/
theorem symmetric_freed (freed : FreedMemory UInt8) : Symmetric { P with freed := freed } entry ↔ Symmetric P entry :=
  ⟨fun h => ⟨h.createdAt,h.expiresAt,h.accessCount,h.lastAccessed,h.metadataLength,h.valueLength⟩,
    fun h => ⟨h.createdAt,h.expiresAt,h.accessCount,h.lastAccessed,h.metadataLength,h.valueLength⟩⟩

theorem serializeCacheEntry_fits (h : serializeCacheEntry P entry = .ok data) : Fits P entry.metadata entry.value := by
  obtain ⟨metadataLength,hmetadata,h⟩ := bind_ok h
  obtain ⟨valueLength,hvalue,-⟩ := bind_ok h
  exact ⟨(lengthBytes_ok hmetadata).1,(lengthBytes_ok hvalue).1⟩

end Numbers

section Reading

/-- What the length of the metadata is read as. -/
def metadataEnd (P : Platform) (entry : CacheEntry) : ℕ :=
  ofBytes .big (toBytes .little 4 (P.stringifyMetadata entry.metadata).length)

/-- The numbers at fixed places are always found. -/
theorem deserializeCacheEntry_little (hlittle : P.endian = .little) (entry : CacheEntry) :
    deserializeCacheEntry P (layout P entry) = (do
      let metadataJson ← slice (layout P entry) 32 (metadataEnd P entry)
      let metadata ← parsed (P.parseMetadata metadataJson)
      let valueLength ← slice (layout P entry) (32+metadataEnd P entry) 4
      let value ← slice (layout P entry) (32+metadataEnd P entry+4) (ofBytes .big valueLength)
      return ⟨[],value,readI64 (i64Bytes .little entry.createdAt),readI64 (i64Bytes .little entry.expiresAt),
        ofBytes .big (toBytes .little 4 entry.accessCount),readI64 (i64Bytes .little entry.lastAccessed),
        afterDeinit P metadataJson metadata⟩) := by
  rw [deserializeCacheEntry,slice_createdAt,slice_expiresAt,slice_accessCount,slice_lastAccessed,slice_metadataLength,
    hlittle]
  simp only [bind,Except.bind,metadataEnd]

/-- A shorter piece of the metadata is a prefix of it. -/
theorem slice_metadata_take {n : ℕ} (hn : n ≤ (P.stringifyMetadata entry.metadata).length) :
    slice (layout P entry) 32 n = .ok ((P.stringifyMetadata entry.metadata).take n) := by
  rw [slice_tail P entry 4,slice_skip _ _ (k:=0) (by simp),slice,if_pos (by simp; omega),List.drop_zero,
    List.take_append_of_le_length hn]

/-- If some metadata is read and the value comes back, the length of the metadata has been read
as it is: a shorter piece is no JSON, and after a longer one there is no room for the value. -/
theorem metadataEnd_eq (hjson : JsonWorks P entry.metadata) {metadataJson : Str} {metadata : CacheMetadata} {n : ℕ}
    (hslice : slice (layout P entry) 32 (metadataEnd P entry) = .ok metadataJson)
    (hmetadata : P.parseMetadata metadataJson = some metadata)
    (hvalue : slice (layout P entry) (32+metadataEnd P entry+4) n = .ok entry.value) :
    metadataEnd P entry = (P.stringifyMetadata entry.metadata).length := by
  obtain hlt|heq|hgt := Nat.lt_trichotomy (metadataEnd P entry) (P.stringifyMetadata entry.metadata).length
  · obtain rfl := Except.ok.inj ((slice_metadata_take (Nat.le_of_lt hlt)).symm.trans hslice)
    have hshort : (P.stringifyMetadata entry.metadata).take (metadataEnd P entry) ≠
        P.stringifyMetadata entry.metadata := by
      intro hwhole
      have hlength := congrArg List.length hwhole
      rw [List.length_take] at hlength
      omega
    rw [hjson.complete _ (List.take_prefix _ _) hshort] at hmetadata
    cases hmetadata
  · exact heq
  · obtain ⟨hlength,hroom⟩ := slice_length hvalue
    rw [length_layout] at hroom
    omega

end Reading

/-- With what freed memory holds, an entry comes back exactly if its key is empty, its lengths
fit into 32 bits, all of its numbers are palindromes of bytes, and its strings are intact. -/
theorem roundTrips_iff_intact (hlittle : P.endian = .little) (hjson : JsonWorks P entry.metadata)
    (hsized : Sized entry) : RoundTrips P entry ↔
      entry.key = [] ∧ Fits P entry.metadata entry.value ∧ Symmetric P entry ∧ Intact P entry.metadata := by
  constructor
  · rintro ⟨data,hserialize,hdeserialize⟩
    have hfits := serializeCacheEntry_fits hserialize
    obtain rfl := Except.ok.inj ((serializeCacheEntry_of_fits hfits).symm.trans hserialize)
    rw [deserializeCacheEntry_little hlittle] at hdeserialize
    obtain ⟨metadataJson,hmetadataJson,h⟩ := bind_ok hdeserialize
    obtain ⟨metadata,hmetadata,h⟩ := bind_ok h
    obtain ⟨valueLength,hvalueLength,h⟩ := bind_ok h
    obtain ⟨value,hvalue,h⟩ := bind_ok h
    have hentry := Except.ok.inj h
    obtain rfl : value = entry.value := congrArg CacheEntry.value hentry
    have hend := metadataEnd_eq hjson hmetadataJson (parsed_ok hmetadata) hvalue
    rw [hend,slice_metadataJson] at hmetadataJson
    obtain rfl := Except.ok.inj hmetadataJson
    obtain rfl := Option.some.inj (hjson.roundTrip.symm.trans (parsed_ok hmetadata))
    have hintact : Intact P entry.metadata := afterDeinit_eq_self_iff.mp (congrArg CacheEntry.metadata hentry)
    rw [hend,slice_valueLength,hlittle] at hvalueLength
    obtain rfl := Except.ok.inj hvalueLength
    refine ⟨(congrArg CacheEntry.key hentry).symm,hfits,⟨?_,?_,?_,?_,?_,?_⟩,hintact⟩
    · apply (readI64_i64Bytes hsized.createdAt).mp
      conv_rhs => rw [← hentry]
    · apply (readI64_i64Bytes hsized.expiresAt).mp
      conv_rhs => rw [← hentry]
    · apply (readU32_toBytes hsized.accessCount).mp
      conv_rhs => rw [← hentry]
    · apply (readI64_i64Bytes hsized.lastAccessed).mp
      conv_rhs => rw [← hentry]
    · exact (readU32_toBytes hfits.1).mp hend
    · exact (readU32_toBytes hfits.2).mp (slice_length hvalue).1.symm
  · rintro ⟨hkey,hfits,hsymmetric,hintact⟩
    have hend : metadataEnd P entry = (P.stringifyMetadata entry.metadata).length :=
      (readU32_toBytes hfits.1).mpr hsymmetric.metadataLength
    have hvalue : ofBytes .big (toBytes .little 4 entry.value.length) = entry.value.length :=
      (readU32_toBytes hfits.2).mpr hsymmetric.valueLength
    refine ⟨layout P entry,serializeCacheEntry_of_fits hfits,?_⟩
    rw [deserializeCacheEntry_little hlittle,hend,slice_metadataJson,slice_valueLength,hlittle,
      (readI64_i64Bytes hsized.createdAt).mpr hsymmetric.createdAt,
      (readI64_i64Bytes hsized.expiresAt).mpr hsymmetric.expiresAt,
      (readU32_toBytes hsized.accessCount).mpr hsymmetric.accessCount,
      (readI64_i64Bytes hsized.lastAccessed).mpr hsymmetric.lastAccessed]
    simp only [bind,Except.bind,hjson.roundTrip,parsed,hvalue,slice_value,← hkey,afterDeinit_eq_self_iff.mpr hintact]
    rfl

/-- On a little-endian machine an entry comes back, whatever freed memory holds, exactly if its
key is empty, its lengths fit into 32 bits, all of its numbers are palindromes of bytes, and
the text of its metadata has no string with an escape. -/
theorem entry_roundTrips_iff (P : Platform) (hlittle : P.endian = .little) (entry : CacheEntry)
    (hjson : JsonWorks P entry.metadata) (hsized : Sized entry) :
    (∀ freed, RoundTrips { P with freed := freed } entry) ↔
      entry.key = [] ∧ Fits P entry.metadata entry.value ∧ Symmetric P entry ∧ Uncopied P entry.metadata := by
  have hiff : ∀ freed, RoundTrips { P with freed := freed } entry ↔ entry.key = [] ∧ Fits P entry.metadata entry.value ∧
      Symmetric P entry ∧ Intact { P with freed := freed } entry.metadata := by
    intro freed
    rw [← symmetric_freed freed]
    exact roundTrips_iff_intact (P:={ P with freed := freed }) hlittle ⟨hjson.roundTrip,hjson.complete⟩ hsized
  constructor
  · intro h
    obtain ⟨hkey,hfits,hsymmetric,-⟩ := (hiff .kept).mp (h .kept)
    exact ⟨hkey,hfits,hsymmetric,forall_intact_iff.mp fun freed => ((hiff freed).mp (h freed)).2.2.2⟩
  · rintro ⟨hkey,hfits,hsymmetric,huncopied⟩ freed
    exact (hiff freed).mpr ⟨hkey,hfits,hsymmetric,forall_intact_iff.mpr huncopied freed⟩

theorem plainPlatform_jsonWorks (metadata : CacheMetadata) :
    JsonWorks (plainPlatform .little metadata []) metadata where
  roundTrip := if_pos rfl
  complete _ _ hne := if_neg hne

/-- Metadata with a content type and nothing else. -/
def typed (contentType : Str) : CacheMetadata where
  contentType := some contentType
  size := 0

theorem length_typed (contentType : Str) : (plainMetadata (typed contentType)).length = contentType.length+124 := by
  have hzero : (TextScan.decimal 0).length = 1 := by decide
  simp [plainMetadata,typed,jsonObject,jsonField,jsonOption,quoted,jsonBool,TextScan.ascii,hzero,List.intercalate]

/-- An empty value from the beginning of time, whose metadata has the length 0x00010100. -/
theorem entry_roundTrips_iff_long :
    let metadata := typed (List.replicate 65668 0x61)
    let P := plainPlatform .little metadata []
    let entry : CacheEntry := ⟨[],[],0,0,0,0,metadata⟩
    (JsonWorks P entry.metadata ∧ Sized entry) ∧ ∀ freed, RoundTrips { P with freed := freed } entry := by
  intro metadata P entry
  have hjson : JsonWorks P entry.metadata := plainPlatform_jsonWorks metadata
  have hsized : Sized entry := ⟨by decide,by decide,by decide,by decide⟩
  have hlength : (P.stringifyMetadata entry.metadata).length = 65792 := by
    refine (length_typed (List.replicate 65668 0x61)).trans ?_
    rw [List.length_replicate]
  refine ⟨⟨hjson,hsized⟩,(entry_roundTrips_iff P rfl entry hjson hsized).mpr ⟨rfl,⟨?_,by decide⟩,?_,?_⟩⟩
  · rw [hlength]
    decide
  · refine ⟨by decide,by decide,by decide,by decide,?_,by decide⟩
    rw [hlength]
    decide
  · intro field s _ hcopied
    cases hcopied

/-- An ordinary entry does not come back: its metadata is read far beyond the end. -/
theorem ordinary_traps :
    let P := plainPlatform .little (typed [0x61]) []
    let entry : CacheEntry := ⟨[0x62],[0x63],1,2,0,1,typed [0x61]⟩
    (JsonWorks P entry.metadata ∧ Sized entry) ∧ deserializeCacheEntry P (layout P entry) = .error .trap ∧
      ¬RoundTrips P entry := by
  intro P entry
  have hlength : (P.stringifyMetadata entry.metadata).length = 125 := length_typed [0x61]
  have hend : metadataEnd P entry = 2097152000 := by
    rw [metadataEnd,hlength]
    decide
  have htrap : deserializeCacheEntry P (layout P entry) = .error .trap := by
    have hshort : ¬32+metadataEnd P entry ≤ (layout P entry).length := by
      rw [hend,length_layout,hlength]
      decide
    rw [deserializeCacheEntry_little rfl,slice,if_neg hshort]
    rfl
  refine ⟨⟨plainPlatform_jsonWorks _,⟨by decide,by decide,by decide,by decide⟩⟩,htrap,?_⟩
  rintro ⟨data,hserialize,hdeserialize⟩
  have hfits := serializeCacheEntry_of_fits (serializeCacheEntry_fits hserialize)
  obtain rfl := Except.ok.inj (hfits.symm.trans hserialize)
  rw [htrap] at hdeserialize
  cases hdeserialize

end ZNet.CacheRoundTrip
