import ZNet.CacheEntries

/-!
# The cache

Entries lie in a database, which is a table of bytes, beside a count of the entries and of
the bytes of their values.
-/

namespace ZNet.Caching
open ByteOrder Tables

structure CacheConfig where
  maxSize : ℕ := 100*1024*1024
  maxEntries : ℕ := 10000
  defaultTtl : UInt32 := 300
  compressionThreshold : ℕ := 1024

structure CacheStats where
  totalSize : ℕ
  totalEntries : ℕ
deriving DecidableEq

structure Cache where
  db : Table Str Str
  stats : CacheStats
deriving DecidableEq

/-- The sizes of `usize`, `u32` and of the positive part of `i64`. -/
def usizeEnd : ℕ := 2^64

def u32End : ℕ := 2^32

def i64End : ℤ := 2^63

/-- Compression is only used where it makes the data smaller. -/
def compress (P : Platform) (data : Str) : Option Str := (P.zlibCompress data).filter fun c => decide (c.length < data.length)

/-- The value that is stored, and if it was compressed. -/
def finalValue (P : Platform) (config : CacheConfig) (value : Str) : Str×Bool :=
  if config.compressionThreshold < value.length then
    match compress P value with
    | some compressed => (compressed,true)
    | none => (value,false)
  else (value,false)

/-- The metadata that is stored with the value. -/
def finalMetadata (P : Platform) (config : CacheConfig) (value : Str) (metadata : CacheMetadata) : CacheMetadata :=
  if (finalValue P config value).2 then { metadata with compressed := true } else metadata

/-- The entry that a put stores. -/
def newEntry (P : Platform) (config : CacheConfig) (key value : Str) (metadata : CacheMetadata) (ttl : Option UInt32)
    (now : ℤ) : CacheEntry where
  key := key
  value := (finalValue P config value).1
  createdAt := now
  expiresAt := now+(ttl.getD config.defaultTtl).toNat
  accessCount := 1
  lastAccessed := now
  metadata := finalMetadata P config value metadata

/-- The access statistics of an entry are updated. -/
def CacheEntry.access (entry : CacheEntry) (now : ℤ) : CacheEntry :=
  { entry with accessCount := entry.accessCount+1, lastAccessed := now }

namespace Cache

def init : Cache := ⟨∅,0,0⟩

/-- The entry is deleted, and its size in the database is taken from the counts. -/
def removeEntry (self : Cache) (key : Str) : Except Failure Unit×Cache :=
  match self.db.lookup key with
  | none => (.ok (),self)
  | some _ =>
    let self := { self with db := self.db.erase key }
    match (self.db.lookup key).map List.length with
    | none => (.ok (),self)
    | some size =>
      if size ≤ self.stats.totalSize ∧ 1 ≤ self.stats.totalEntries then
        (.ok (),{ self with stats := ⟨self.stats.totalSize-size,self.stats.totalEntries-1⟩ })
      else (.error .trap,self)

def removeEntries (self : Cache) : List Str → Except Failure Unit×Cache
  | [] => (.ok (),self)
  | key::keys =>
    match self.removeEntry key with
    | (.ok (),self) => self.removeEntries keys
    | (.error e,self) => (.error e,self)

def invalidate (self : Cache) (keyPattern : Str) : Except Failure Unit×Cache :=
  self.removeEntries (self.db.keys.filter (keyPattern.isPrefixOf ·))

/-- The database says which entries have expired. -/
def cleanup (self : Cache) (expiredKeys : List Str) : Except Failure Unit×Cache := self.removeEntries expiredKeys

/-- The keys of the entries that are ranked, where the age of an entry may overflow. -/
def rankedKeys (P : Platform) (now : ℤ) : List Str → Except Failure (List Str)
  | [] => .ok []
  | data::datas => do
    let entry ← deserializeCacheEntry P data
    if i64End ≤ now-entry.lastAccessed+1 then .error .trap
    else
      let keys ← rankedKeys P now datas
      return entry.key::keys

/-- The limits of the loop are tested again before each entry. -/
def evictLoop (config : CacheConfig) (self : Cache) : List Str → Except Failure Unit×Cache
  | [] => (.ok (),self)
  | key::keys =>
    if usizeEnd ≤ config.maxSize*90 then (.error .trap,self)
    else if self.stats.totalSize ≤ config.maxSize*90/100 ∧ usizeEnd ≤ config.maxEntries*90 then (.error .trap,self)
    else if self.stats.totalSize ≤ config.maxSize*90/100 ∧ self.stats.totalEntries ≤ config.maxEntries*90/100 then
      (.ok (),self)
    else
      match self.removeEntry key with
      | (.ok (),self) => evictLoop config self keys
      | (.error e,self) => (.error e,self)

/-- The entries are ranked by their scores. As all keys are empty the ranking does not matter. -/
def evict (P : Platform) (config : CacheConfig) (self : Cache) (now : ℤ) : Except Failure Unit×Cache :=
  match rankedKeys P now ((P.order self.db.keys).1.filterMap self.db.lookup) with
  | .error e => (.error e,self)
  | .ok keys => evictLoop config self keys

/-- Within the limits with another value of this length. -/
def Roomy (config : CacheConfig) (self : Cache) (length : ℕ) : Prop :=
  self.stats.totalSize+length ≤ config.maxSize ∧ self.stats.totalEntries < config.maxEntries

instance (config : CacheConfig) (self : Cache) (length : ℕ) : Decidable (self.Roomy config length) :=
  inferInstanceAs (Decidable (_ ∧ _))

/-- The part of `put` that stores the new entry. -/
def store (P : Platform) (config : CacheConfig) (self : Cache) (entry : CacheEntry) (now : ℤ) :
    Except Failure Unit×Cache :=
  if i64End ≤ entry.expiresAt then (.error .trap,self)
  else if usizeEnd ≤ self.stats.totalSize+entry.value.length then (.error .trap,self)
  else
    match if self.Roomy config entry.value.length then (.ok (),self) else self.evict P config now with
    | (.error e,self) => (.error e,self)
    | (.ok (),self) =>
      match serializeCacheEntry P entry with
      | .error e => (.error e,self)
      | .ok serialized =>
        let self := { self with db := self.db.insert entry.key serialized }
        if u32End ≤ self.stats.totalEntries+1 then (.error .trap,self)
        else (.ok (),{ self with stats := ⟨self.stats.totalSize+entry.value.length,self.stats.totalEntries+1⟩ })

def put (P : Platform) (config : CacheConfig) (self : Cache) (key value : Str) (metadata : CacheMetadata)
    (ttl : Option UInt32) (now : ℤ) : Except Failure Unit×Cache :=
  self.store P config (newEntry P config key value metadata ttl now) now

/-- A fresh entry is stored again with its new access count; a stale one is kept. -/
def get (P : Platform) (self : Cache) (key : Str) (now : ℤ) : Except Failure (Option CacheEntry)×Cache :=
  match self.db.lookup key with
  | none => (.ok none,self)
  | some data =>
    match deserializeCacheEntry P data with
    | .error e => (.error e,self)
    | .ok entry =>
      if entry.expiresAt ≤ now then (.ok (some entry),self)
      else if u32End ≤ entry.accessCount+1 then (.error .trap,self)
      else
        let entry := entry.access now
        match serializeCacheEntry P entry with
        | .error e => (.error e,self)
        | .ok serialized => (.ok (some entry),{ self with db := self.db.insert key serialized })

end Cache

/-- Above nine tenths of a limit. -/
def Over (config : CacheConfig) (s : Cache) : Prop :=
  ¬(s.stats.totalSize ≤ config.maxSize*90/100 ∧ s.stats.totalEntries ≤ config.maxEntries*90/100)

instance (config : CacheConfig) (s : Cache) : Decidable (Over config s) := inferInstanceAs (Decidable ¬(_ ∧ _))

/-- The entry is not refused. -/
structure Accepts (P : Platform) (config : CacheConfig) (s : Cache) (entry : CacheEntry) (now : ℤ) : Prop where
  expires : entry.expiresAt < i64End
  size : s.stats.totalSize+entry.value.length < usizeEnd
  evicts : s.Roomy config entry.value.length ∨ (s.evict P config now).1 = .ok ()
  fits : Fits P entry.metadata entry.value
  count : s.stats.totalEntries+1 < u32End

variable {P : Platform} {config : CacheConfig} {s : Cache}

section Removals

/-- The size of a deleted entry is not found. -/
theorem removeEntry_eq (s : Cache) (key : Str) : s.removeEntry key = (.ok (),{ s with db := s.db.erase key }) := by
  rw [Cache.removeEntry]
  cases hlookup : s.db.lookup key with
  | none => rw [erase_of_lookup_none hlookup]
  | some data => simp only [AList.lookup_erase,Option.map_none]

theorem removeEntries_eq (s : Cache) (keys : List Str) :
    s.removeEntries keys = (.ok (),{ s with db := eraseAll s.db keys }) := by
  induction keys generalizing s with
  | nil => rfl
  | cons key keys ih =>
    rw [Cache.removeEntries,removeEntry_eq]
    exact ih _

end Removals

section Eviction

theorem evictLoop_error {keys : List Str} {e : Failure} {t : Cache}
    (h : Cache.evictLoop config s keys = (.error e,t)) : e = .trap := by
  induction keys generalizing s with
  | nil => cases h
  | cons key keys ih =>
    rw [Cache.evictLoop,removeEntry_eq] at h
    split at h
    · cases h
      rfl
    · split at h
      · cases h
        rfl
      · split at h
        · cases h
        · exact ih h

/-- The loop finds the empty key at most. -/
theorem evictLoop_ok {n : ℕ} {t : Cache} (h : Cache.evictLoop config s (List.replicate n []) = (.ok (),t)) :
    t = if Over config s ∧ 0 < n then { s with db := s.db.erase [] } else s := by
  induction n generalizing s with
  | zero =>
    cases h
    exact (if_neg fun hboth => Nat.lt_irrefl 0 hboth.2).symm
  | succ n ih =>
    rw [List.replicate_succ,Cache.evictLoop,removeEntry_eq] at h
    split at h
    · cases h
    · split at h
      · cases h
      · split at h
        · rename_i hwithin
          cases h
          exact (if_neg fun hboth => hboth.1 hwithin).symm
        · rename_i hover
          rw [if_pos ⟨hover,Nat.succ_pos n⟩]
          refine (ih h).trans ?_
          split
          · rw [erase_of_lookup_none (AList.lookup_erase [] _)]
          · rfl

theorem rankedKeys_ok {now : ℤ} {datas keys : List Str} (h : Cache.rankedKeys P now datas = .ok keys) :
    keys = List.replicate datas.length [] := by
  induction datas generalizing keys with
  | nil =>
    cases h
    rfl
  | cons data datas ih =>
    obtain ⟨entry,hentry,h⟩ := bind_ok h
    split at h
    · cases h
    · obtain ⟨rest,hrest,h⟩ := bind_ok h
      cases h
      rw [ih hrest,(deserializeCacheEntry_ok hentry).1]
      rfl

/-- An eviction fails before it deletes, or with a trap. -/
theorem evict_error {now : ℤ} {e : Failure} {t : Cache} (h : s.evict P config now = (.error e,t)) : e = .trap ∨ t = s := by
  rw [Cache.evict] at h
  split at h
  · cases h
    exact Or.inr rfl
  · exact Or.inl (evictLoop_error h)

/-- An eviction that does not fail deletes the entry with the empty key above the limits. -/
theorem evict_ok {now : ℤ} {t : Cache} (h : s.evict P config now = (.ok (),t)) :
    t = if Over config s ∧ s.db.lookup [] ≠ none then { s with db := s.db.erase [] } else s := by
  rw [Cache.evict] at h
  split at h
  · cases h
  · rename_i keys hkeys
    rw [rankedKeys_ok hkeys] at h
    rw [evictLoop_ok h]
    by_cases hempty : s.db.lookup [] = none
    · rw [erase_of_lookup_none hempty,ite_self,ite_self]
    · have hlisted : 0 < ((P.order s.db.keys).1.filterMap s.db.lookup).length := by
        obtain ⟨data,hdata⟩ := Option.ne_none_iff_exists'.mp hempty
        have hmem := (P.order s.db.keys).2.mem_iff.mpr (mem_keys_of_lookup hdata)
        exact List.length_pos_of_mem (List.mem_filterMap.mpr ⟨[],hmem,hdata⟩)
      simp only [hlisted,hempty,ne_eq,not_false_eq_true]

end Eviction

section Puts

variable {entry : CacheEntry} {now : ℤ}

/-- What an accepted entry is stored in. -/
def makeRoom (config : CacheConfig) (s : Cache) (length : ℕ) : Cache :=
  if ¬s.Roomy config length ∧ Over config s ∧ s.db.lookup [] ≠ none then { s with db := s.db.erase [] } else s

theorem makeRoom_stats (config : CacheConfig) (s : Cache) (length : ℕ) : (makeRoom config s length).stats = s.stats := by
  rw [makeRoom]
  split
  · rfl
  · rfl

theorem makeRoom_eq {length : ℕ} (h : s.Roomy config length ∨ (s.evict P config now).1 = .ok ()) :
    (if s.Roomy config length then (.ok (),s) else s.evict P config now) = (.ok (),makeRoom config s length) := by
  rw [makeRoom]
  split
  · rename_i hroomy
    rw [if_neg fun hfull => hfull.1 hroomy]
  · rename_i hfull
    have hevicts : (s.evict P config now).1 = .ok () := h.resolve_left hfull
    have hpair : s.evict P config now = (.ok (),(s.evict P config now).2) := Prod.ext hevicts rfl
    rw [hpair,evict_ok hpair]
    simp only [hfull,not_false_eq_true,true_and]

theorem store_accepted (h : Accepts P config s entry now) : s.store P config entry now = (.ok (),
    ⟨(makeRoom config s entry.value.length).db.insert entry.key (layout P entry),
      s.stats.totalSize+entry.value.length,s.stats.totalEntries+1⟩) := by
  simp only [Cache.store,if_neg (Int.not_le.mpr h.expires),if_neg (Nat.not_le.mpr h.size),makeRoom_eq h.evicts,
    serializeCacheEntry_of_fits h.fits,makeRoom_stats,if_neg (Nat.not_le.mpr h.count)]

theorem serializeCacheEntry_error (h : ¬Fits P entry.metadata entry.value) :
    serializeCacheEntry P entry = .error .trap := by
  rw [serializeCacheEntry,lengthBytes,lengthBytes]
  by_cases hmetadata : (P.stringifyMetadata entry.metadata).length < 2^32
  · rw [if_pos hmetadata,if_neg fun hvalue => h ⟨hmetadata,hvalue⟩]
    rfl
  · rw [if_neg hmetadata]
    rfl

/-- An entry that is not accepted ends in a trap, or it leaves the cache. -/
theorem store_cases (P : Platform) (config : CacheConfig) (s : Cache) (entry : CacheEntry) (now : ℤ) :
    Accepts P config s entry now ∨ (s.store P config entry now).1 = .error .trap ∨
      ∃ e, s.store P config entry now = (.error e,s) := by
  by_cases hexpires : i64End ≤ entry.expiresAt
  · right; left
    simp only [Cache.store,if_pos hexpires]
  by_cases hsize : usizeEnd ≤ s.stats.totalSize+entry.value.length
  · right; left
    simp only [Cache.store,if_neg hexpires,if_pos hsize]
  by_cases hevicts : s.Roomy config entry.value.length ∨ (s.evict P config now).1 = .ok ()
  · by_cases hfits : Fits P entry.metadata entry.value
    · by_cases hcount : u32End ≤ s.stats.totalEntries+1
      · right; left
        simp only [Cache.store,if_neg hexpires,if_neg hsize,makeRoom_eq hevicts,serializeCacheEntry_of_fits hfits,
          makeRoom_stats,if_pos hcount]
      · exact Or.inl ⟨Int.not_le.mp hexpires,Nat.not_le.mp hsize,hevicts,hfits,Nat.not_le.mp hcount⟩
    · right; left
      simp only [Cache.store,if_neg hexpires,if_neg hsize,makeRoom_eq hevicts,serializeCacheEntry_error hfits]
  · obtain ⟨hroomy,hevict⟩ := not_or.mp hevicts
    right
    simp only [Cache.store,if_neg hexpires,if_neg hsize,if_neg hroomy]
    generalize hpair : s.evict P config now = evicted at hevict ⊢
    obtain ⟨result,t⟩ := evicted
    cases result with
    | ok done => exact absurd rfl hevict
    | error e =>
      rcases evict_error hpair with rfl | rfl
      · exact Or.inl rfl
      · exact Or.inr ⟨e,rfl⟩

end Puts

section Gets

/-- The bytes are read as a fresh entry, which can be written again. -/
structure Renews (P : Platform) (now : ℤ) (data : Str) (entry : CacheEntry) : Prop where
  read : deserializeCacheEntry P data = .ok entry
  fresh : now < entry.expiresAt
  count : entry.accessCount+1 < u32End
  fits : Fits P entry.metadata entry.value

structure Renewable (P : Platform) (s : Cache) (key : Str) (now : ℤ) (data : Str) (entry : CacheEntry) : Prop extends
    Renews P now data entry where
  lookup : s.db.lookup key = some data

theorem Renewable.get {key : Str} {now : ℤ} {data : Str} {entry : CacheEntry} (h : Renewable P s key now data entry) :
    s.get P key now = (.ok (some (entry.access now)),{ s with db := s.db.insert key (layout P (entry.access now)) }) := by
  have hserialized : serializeCacheEntry P (entry.access now) = .ok (layout P (entry.access now)) :=
    serializeCacheEntry_of_fits h.fits
  rw [Cache.get,h.lookup]
  simp only [h.read,if_neg (Int.not_le.mpr h.fresh),if_neg (Nat.not_le.mpr h.count),hserialized]

/-- A get that stores nothing returns a stale entry or none. -/
theorem get_kept {key : Str} {now : ℤ} (h : ∀ data entry, ¬Renewable P s key now data entry) :
    (s.get P key now).2 = s ∧ ∀ entry, (s.get P key now).1 = .ok (some entry) → entry.expiresAt ≤ now := by
  rw [Cache.get]
  cases hlookup : s.db.lookup key with
  | none => exact ⟨rfl,fun entry hfound => by cases hfound⟩
  | some data =>
    cases hread : deserializeCacheEntry P data with
    | error e =>
      simp only [hread]
      exact ⟨trivial,fun entry hfound => by cases hfound⟩
    | ok entry =>
      simp only [hread]
      by_cases hstale : entry.expiresAt ≤ now
      · rw [if_pos hstale]
        refine ⟨rfl,fun entry' hfound => ?_⟩
        cases hfound
        exact hstale
      · rw [if_neg hstale]
        by_cases hcount : u32End ≤ entry.accessCount+1
        · rw [if_pos hcount]
          exact ⟨rfl,fun entry' hfound => by cases hfound⟩
        · have hfits : ¬Fits P (entry.access now).metadata (entry.access now).value := fun hfits =>
            h data entry ⟨⟨hread,Int.not_le.mp hstale,Nat.not_le.mp hcount,hfits⟩,hlookup⟩
          rw [if_neg hcount,serializeCacheEntry_error hfits]
          exact ⟨rfl,fun entry' hfound => by cases hfound⟩

/-- A get stores the entry again, or it leaves the cache and returns a stale entry or none. -/
theorem get_cases (P : Platform) (s : Cache) (key : Str) (now : ℤ) :
    ((s.get P key now).2 = s ∧ (∀ data entry, ¬Renewable P s key now data entry) ∧
      ∀ entry, (s.get P key now).1 = .ok (some entry) → entry.expiresAt ≤ now) ∨
    ∃ data entry, Renewable P s key now data entry ∧ s.get P key now =
      (.ok (some (entry.access now)),{ s with db := s.db.insert key (layout P (entry.access now)) }) := by
  by_cases h : ∃ data entry, Renewable P s key now data entry
  · obtain ⟨data,entry,hrenewable⟩ := h
    exact Or.inr ⟨data,entry,hrenewable,hrenewable.get⟩
  · have hnone : ∀ data entry, ¬Renewable P s key now data entry := fun data entry hrenewable => h ⟨data,entry,hrenewable⟩
    exact Or.inl ⟨(get_kept hnone).1,hnone,(get_kept hnone).2⟩

end Gets

end ZNet.Caching
