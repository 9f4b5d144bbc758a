import ZNet.Cache
import ZNet.Runs

/-!
# The counts of the cache

The size of an entry is asked for after the entry has been deleted, so that the counts never
go down. They agree with the database as long as nothing is overwritten or removed.
-/

namespace ZNet.Caching
open ByteOrder Tables Runs

inductive CacheCall
  | put (key value : Str) (metadata : CacheMetadata) (ttl : Option UInt32) (now : ℤ)
  | get (key : Str) (now : ℤ)
  | invalidate (keyPattern : Str)
  | cleanup (expiredKeys : List Str)

namespace Cache

def perform (P : Platform) (config : CacheConfig) (self : Cache) : CacheCall → Except Failure Unit×Cache
  | .put key value metadata ttl now => self.put P config key value metadata ttl now
  | .get key now =>
    let (result,self) := self.get P key now
    (result.map fun _ => (),self)
  | .invalidate keyPattern => self.invalidate keyPattern
  | .cleanup expiredKeys => self.cleanup expiredKeys

/-- A trap ends the program and leaves the state as it was. -/
def step (P : Platform) (config : CacheConfig) (self : Cache) (call : CacheCall) : Cache :=
  match self.perform P config call with
  | (.error .trap,_) => self
  | (_,self) => self

end Cache

/-- The length of the value in a stored entry, which follows the fields and the metadata. -/
def storedLength (P : Platform) (data : Str) : ℕ := data.length-(36+ofBytes P.endian ((data.drop 28).take 4))

/-- The counts are those of the database. -/
structure Counted (P : Platform) (s : Cache) : Prop where
  entries : s.stats.totalEntries = s.db.keys.length
  size : s.stats.totalSize = total (storedLength P) s.db

/-- After the call the counts are right, and after a put of a value that is not larger than the
cache they are within the limits. -/
structure Accounted (P : Platform) (config : CacheConfig) (s : Cache) (call : CacheCall) : Prop where
  counted : Counted P (s.step P config call)
  limits : ∀ key value metadata ttl now, call = .put key value metadata ttl now →
    (s.perform P config call).1 = .ok () → value.length ≤ config.maxSize →
      (s.step P config call).stats.totalSize ≤ config.maxSize ∧
      (s.step P config call).stats.totalEntries ≤ config.maxEntries

/-- An accepted put has a new key and room for its value, or a value larger than the cache and
no entry that the eviction would find. A get reads a value of the length that was stored,
and no removal finds an entry. -/
def KeepsCount (P : Platform) (config : CacheConfig) (s : Cache) : CacheCall → Prop
  | .put key value metadata ttl now =>
    let entry := newEntry P config key value metadata ttl now
    Accepts P config s entry now → s.db.lookup key = none ∧ (s.Roomy config entry.value.length ∨
      config.maxSize < value.length ∧ ¬(Over config s ∧ s.db.lookup [] ≠ none))
  | .get key now => ∀ data entry, Renewable P s key now data entry → entry.value.length = storedLength P data
  | .invalidate keyPattern => ∀ key, keyPattern.isPrefixOf key → s.db.lookup key = none
  | .cleanup expiredKeys => ∀ key ∈ expiredKeys, s.db.lookup key = none

variable {P : Platform} {config : CacheConfig} {s : Cache} {key : Str}

section Removals

theorem Counted.removeEntries (h : Counted P s) (keys : List Str) :
    Counted P { s with db := eraseAll s.db keys } ↔ ∀ key ∈ keys, s.db.lookup key = none := by
  constructor
  · intro hafter
    exact keys_length_eraseAll.mp (hafter.entries.symm.trans h.entries)
  · intro hnone
    rw [eraseAll_of_lookup_none hnone]
    exact h

end Removals

section Lengths

/-- The value of a stored entry takes what the other parts leave. -/
theorem storedLength_layout {entry : CacheEntry} (h : Fits P entry.metadata entry.value) :
    storedLength P (layout P entry) = entry.value.length := by
  have hlength := slice_ok (slice_metadataLength P entry)
  have hread : ofBytes P.endian (toBytes P.endian 4 _) = _ := ofBytes_toBytes P.endian h.1
  rw [storedLength,← hlength,hread]
  simp only [layout,List.length_append,length_i64Bytes,length_toBytes]
  omega

/-- On a big-endian machine what was stored is read back with the length of its value. -/
theorem read_length_big (hbig : P.endian = .big) {stored entry : CacheEntry} (hfits : Fits P stored.metadata stored.value)
    (hread : deserializeCacheEntry P (layout P stored) = .ok entry) :
    entry.value.length = storedLength P (layout P stored) := by
  rw [storedLength_layout hfits]
  rw [deserializeCacheEntry_layout hbig hfits] at hread
  split at hread
  · cases hread
  · cases hread
    rfl

theorem total_insert_known {data : Str} (hlookup : s.db.lookup key = some data) (size : Str → ℕ) (data' : Str) :
    total size (s.db.insert key data') = total size s.db ↔ size data' = size data := by
  have htotal := total_insert_old hlookup size data'
  omega

/-- A new entry is counted, and an old one that is written again is counted twice. -/
theorem counted_insert {P : Platform} (h : Counted P s) (key data : Str) :
    Counted P ⟨s.db.insert key data,s.stats.totalSize+storedLength P data,s.stats.totalEntries+1⟩ ↔
      s.db.lookup key = none := by
  constructor
  · intro hafter
    have hentries : s.stats.totalEntries+1 = (s.db.insert key data).keys.length := hafter.entries
    rw [keys_length_insert,Nat.add_right_cancel_iff,h.entries] at hentries
    have hnone : eraseAll s.db [key] = s.db.erase key := rfl
    rw [← hnone,eq_comm,keys_length_eraseAll] at hentries
    exact hentries key (List.mem_singleton_self key)
  · intro hnew
    refine ⟨?_,?_⟩
    · rw [keys_length_insert,erase_of_lookup_none hnew,h.entries]
    · rw [total_insert_new hnew,h.size,Nat.add_comm]

end Lengths

section Steps

variable {value : Str} {metadata : CacheMetadata} {ttl : Option UInt32} {now : ℤ}

/-- What the cache is after it has accepted an entry. -/
def afterPut (P : Platform) (config : CacheConfig) (s : Cache) (entry : CacheEntry) : Cache :=
  ⟨(makeRoom config s entry.value.length).db.insert entry.key (layout P entry),
    s.stats.totalSize+entry.value.length,s.stats.totalEntries+1⟩

theorem makeRoom_eq_self {length : ℕ} (h : ¬s.Roomy config length → ¬(Over config s ∧ s.db.lookup [] ≠ none)) :
    makeRoom config s length = s := by
  rw [makeRoom,if_neg]
  rintro ⟨hfull,hover⟩
  exact h hfull hover

theorem not_over_of_makeRoom {length : ℕ} (hfull : ¬s.Roomy config length) (h : makeRoom config s length = s) :
    ¬(Over config s ∧ s.db.lookup [] ≠ none) := by
  intro hover
  rw [makeRoom,if_pos ⟨hfull,hover⟩] at h
  exact hover.2 ((congrArg (·.db.lookup []) h).symm.trans (AList.lookup_erase [] s.db))

/-- An accepted entry is counted right if its key is new and nothing was evicted for it. -/
theorem counted_afterPut (config : CacheConfig) (h : Counted P s) {entry : CacheEntry} (hfits : Fits P entry.metadata entry.value) :
    Counted P (afterPut P config s entry) ↔
      s.db.lookup entry.key = none ∧ makeRoom config s entry.value.length = s := by
  rw [afterPut,← storedLength_layout hfits]
  constructor
  · intro hcounted
    have hsame : makeRoom config s (storedLength P (layout P entry)) = s := by
      rw [makeRoom] at hcounted ⊢
      split
      · rename_i herased
        rw [if_pos herased] at hcounted
        have hentries : s.stats.totalEntries+1 = ((s.db.erase []).insert entry.key (layout P entry)).keys.length :=
          hcounted.entries
        obtain ⟨found,hfound⟩ := Option.ne_none_iff_exists'.mp herased.2.2
        have hle := keys_length_erase_le (s.db.erase []) entry.key
        have hlost := keys_length_erase hfound
        rw [keys_length_insert,h.entries] at hentries
        omega
      · rfl
    rw [hsame,counted_insert h] at hcounted
    exact ⟨hcounted,hsame⟩
  · rintro ⟨hnew,hsame⟩
    rw [hsame]
    exact (counted_insert h entry.key (layout P entry)).mpr hnew

theorem put_accepted (h : Accepts P config s (newEntry P config key value metadata ttl now) now) :
    s.perform P config (.put key value metadata ttl now) =
        (.ok (),afterPut P config s (newEntry P config key value metadata ttl now)) ∧
      s.step P config (.put key value metadata ttl now) =
        afterPut P config s (newEntry P config key value metadata ttl now) := by
  have hperform : s.perform P config (.put key value metadata ttl now) =
      (.ok (),afterPut P config s (newEntry P config key value metadata ttl now)) := by
    rw [Cache.perform,Cache.put,store_accepted h,afterPut]
  refine ⟨hperform,?_⟩
  rw [Cache.step,hperform]

/-- A put that is refused leaves the cache. -/
theorem put_refused (h : ¬Accepts P config s (newEntry P config key value metadata ttl now) now) :
    s.step P config (.put key value metadata ttl now) = s ∧
      (s.perform P config (.put key value metadata ttl now)).1 ≠ .ok () := by
  rcases store_cases P config s (newEntry P config key value metadata ttl now) now with haccepts | htrap | ⟨e,herror⟩
  · exact absurd haccepts h
  · have hpair : s.perform P config (.put key value metadata ttl now) =
        (.error .trap,(s.put P config key value metadata ttl now).2) := Prod.ext htrap rfl
    rw [Cache.step,hpair]
    exact ⟨rfl,by simp⟩
  · have hpair : s.perform P config (.put key value metadata ttl now) = (.error e,s) := herror
    rw [Cache.step,hpair]
    refine ⟨?_,by simp⟩
    cases e with
    | trap => rfl
    | error e => rfl

theorem Counted.put (h : Counted P s) : Accounted P config s (.put key value metadata ttl now) ↔
    KeepsCount P config s (.put key value metadata ttl now) := by
  rw [KeepsCount]
  by_cases haccepts : Accepts P config s (newEntry P config key value metadata ttl now) now
  · obtain ⟨hperform,hstep⟩ := put_accepted haccepts
    have hiff := counted_afterPut config h haccepts.fits
    constructor
    · intro haccounted _
      have hcounted := haccounted.counted
      rw [hstep] at hcounted
      obtain ⟨hnew,hsame⟩ := hiff.mp hcounted
      refine ⟨hnew,?_⟩
      by_cases hroomy : s.Roomy config (newEntry P config key value metadata ttl now).value.length
      · exact Or.inl hroomy
      · refine Or.inr ⟨?_,not_over_of_makeRoom hroomy hsame⟩
        by_contra hsmall
        have hlimits := haccounted.limits _ _ _ _ _ rfl (congrArg Prod.fst hperform) (Nat.not_lt.mp hsmall)
        rw [hstep] at hlimits
        exact hroomy hlimits
    · intro hkeeps
      obtain ⟨hnew,hroom⟩ := hkeeps haccepts
      have hsame := makeRoom_eq_self fun hfull => (hroom.resolve_left hfull).2
      constructor
      · rw [hstep]
        exact hiff.mpr ⟨hnew,hsame⟩
      · intro key' value' metadata' ttl' now' hcall _ hsmall
        cases hcall
        rw [hstep]
        rcases hroom with hroomy | ⟨hlarge,-⟩
        · exact hroomy
        · omega
  · obtain ⟨hstep,hfailed⟩ := put_refused haccepts
    constructor
    · intro _ haccepted
      exact absurd haccepted haccepts
    · intro _
      constructor
      · rw [hstep]
        exact h
      · intro key' value' metadata' ttl' now' _ hok
        exact absurd hok hfailed

theorem Counted.get (h : Counted P s) : Accounted P config s (.get key now) ↔ KeepsCount P config s (.get key now) := by
  have hlimits : Counted P (s.step P config (.get key now)) → Accounted P config s (.get key now) := by
    intro hcounted
    refine ⟨hcounted,fun key' value metadata ttl now' hcall => ?_⟩
    cases hcall
  rcases get_cases P s key now with ⟨hsame,hkept,-⟩ | ⟨data,entry,hrenewable,hget⟩
  · have hstep : s.step P config (.get key now) = s := by
      rw [Cache.step,Cache.perform]
      split
      · rfl
      · rename_i hpair
        exact (congrArg Prod.snd hpair).symm.trans hsame
    constructor
    · intro _ data entry hrenewable
      exact absurd hrenewable (hkept data entry)
    · intro _
      apply hlimits
      rw [hstep]
      exact h
  · have hstep : s.step P config (.get key now) =
        { s with db := s.db.insert key (layout P (entry.access now)) } := by
      simp only [Cache.step,Cache.perform,hget]
      rfl
    have hlength : storedLength P (layout P (entry.access now)) = entry.value.length := storedLength_layout hrenewable.fits
    have htotal := total_insert_known hrenewable.lookup (storedLength P) (layout P (entry.access now))
    constructor
    · intro haccounted data' entry' hrenewable'
      cases hrenewable.lookup.symm.trans hrenewable'.lookup
      cases hrenewable.read.symm.trans hrenewable'.read
      have hsize := haccounted.counted.size
      rw [hstep] at hsize
      rw [← hlength]
      exact htotal.mp (hsize.symm.trans h.size)
    · intro hkeeps
      apply hlimits
      rw [hstep]
      constructor
      · rw [keys_length_insert,keys_length_erase hrenewable.lookup]
        exact h.entries
      · rw [htotal.mpr (hlength.trans (hkeeps data entry hrenewable))]
        exact h.size

theorem Counted.removal (h : Counted P s) {call : CacheCall} {keys : List Str}
    (hperform : s.perform P config call = s.removeEntries keys)
    (hput : ∀ key value metadata ttl now, call ≠ .put key value metadata ttl now) :
    Accounted P config s call ↔ ∀ key ∈ keys, s.db.lookup key = none := by
  have hstep : s.step P config call = { s with db := eraseAll s.db keys } := by
    rw [Cache.step,hperform,removeEntries_eq]
  rw [← h.removeEntries,← hstep]
  constructor
  · exact Accounted.counted
  · intro hcounted
    exact ⟨hcounted,fun key value metadata ttl now hcall => absurd hcall (hput key value metadata ttl now)⟩

/-- A call keeps the counts right exactly under its condition. -/
theorem Counted.accounted_iff (h : Counted P s) (call : CacheCall) :
    Accounted P config s call ↔ KeepsCount P config s call := by
  cases call with
  | put key value metadata ttl now => exact h.put
  | get key now => exact h.get
  | cleanup expiredKeys => exact h.removal rfl (by simp)
  | invalidate keyPattern =>
    have hperform : s.perform P config (.invalidate keyPattern) =
        s.removeEntries (s.db.keys.filter (keyPattern.isPrefixOf ·)) := rfl
    rw [h.removal hperform (by simp),KeepsCount]
    constructor
    · intro hnone key hstarts
      rw [lookup_none_iff]
      intro hmem
      exact lookup_none_iff.mp (hnone key (List.mem_filter.mpr ⟨hmem,hstarts⟩)) hmem
    · intro hnone key hkey
      exact hnone key (List.mem_filter.mp hkey).2

end Steps

/-- No removal underflows. In every run the counts are right after every call and the limits
kept by every put exactly if every call meets its condition. -/
theorem along_accounted_iff_keepsCount (P : Platform) (config : CacheConfig) :
    (∀ (s : Cache) keys, (s.removeEntries keys).1 = .ok ()) ∧
    ∀ calls, Along (Cache.step P config) (Accounted P config) .init calls ↔
      Along (Cache.step P config) (KeepsCount P config) .init calls := by
  constructor
  · intro s keys
    rw [removeEntries_eq]
  · intro calls
    apply along_iff (I:=Counted P)
    · intro s call h hkeeps
      exact ((h.accounted_iff call).mpr hkeeps).counted
    · intro s call h
      exact h.accounted_iff call
    · exact ⟨rfl,rfl⟩

/-- A little-endian machine that writes the metadata of a value of one byte. -/
def oneByte : Platform := plainPlatform .little { size := 1 } []

/-- A key is put twice, with the default limits. -/
theorem accounted_overwritten :
    ¬Along (Cache.step oneByte {}) (Accounted oneByte {}) .init
      [.put [0x6b] [0x76] { size := 1 } none 0,.put [0x6b] [0x77] { size := 1 } none 1] := by
  intro hrun
  have hentries := hrun.2.1.counted.entries
  revert hentries
  decide +kernel

end ZNet.Caching
