import ZNet.TextScan
import ZNet.Tables
import ZNet.Runs
import Mathlib.Data.Int.Order.Basic

/-!
# The cache of a service worker

Entries are stored under the URLs of their requests. A lookup goes through all entries and
takes the one that was used least recently.
-/

namespace ZNet.WorkerCache
open TextScan Tables

abbrev Str := List UInt8

structure CacheMatchOptions where
  ignoreSearch : Bool
  ignoreMethod : Bool
  ignoreVary : Bool
  cacheName : Option Str
  matchMethod : Str
  matchVary : Table Str Str

def CacheMatchOptions.init : CacheMatchOptions := ⟨false,false,false,none,ascii "GET".toList,∅⟩

structure CacheRequest where
  url : Str
  method : Str
deriving DecidableEq

def CacheRequest.init (url : Str) : CacheRequest := ⟨url,ascii "GET".toList⟩

structure CacheResponse where
  url : Str
  status : ℕ
  headers : Table Str Str
  body : Option (List UInt8)
deriving DecidableEq

def CacheResponse.init (url : Str) : CacheResponse := ⟨url,200,∅,none⟩

def generateCacheKey (request : CacheRequest) : Str := request.url

/-- The lengths of the headers, with four bytes more for each, and of the body. -/
def calculateResponseSize (response : CacheResponse) : ℕ :=
  (response.headers.entries.map fun header => header.1.length+header.2.length+4).sum+
    (response.body.map List.length).getD 0

/-- A day in milliseconds, whatever the headers say. -/
def calculateTTL (_response : CacheResponse) : ℤ := 24*60*60*1000

/-- Times are in milliseconds. The hits, which the source counts in 32 bits, are a natural
number. -/
structure CacheEntry where
  request : CacheRequest
  response : CacheResponse
  key : Str
  size : ℕ
  hitCount : ℕ
  lastAccess : ℤ
  ttl : ℤ
  key_eq : key = generateCacheKey request
  size_eq : size = calculateResponseSize response
deriving DecidableEq

namespace CacheEntry

def init (request : CacheRequest) (response : CacheResponse) (now : ℤ) : CacheEntry :=
  ⟨request,response,generateCacheKey request,calculateResponseSize response,0,now,calculateTTL response,rfl,rfl⟩

def isExpired (self : CacheEntry) (now : ℤ) : Bool := decide (self.lastAccess+self.ttl < now)

def updateAccess (self : CacheEntry) (now : ℤ) : CacheEntry :=
  { self with lastAccess := now, hitCount := self.hitCount+1 }

end CacheEntry

inductive EvictionPolicy
  | lru | lfu | fifo | ttl
deriving DecidableEq

structure Cache where
  name : Str
  entries : Table Str CacheEntry
  maxEntries : ℕ
  maxSize : ℕ
  currentSize : ℕ
  evictionPolicy : EvictionPolicy
  keyed : ∀ key entry, entries.lookup key = some entry → entry.key = key

/-- The stable order in which entries are looked for and evicted. -/
def byLastAccess (entries : List CacheEntry) : List CacheEntry :=
  entries.mergeSort fun a b => decide (a.lastAccess ≤ b.lastAccess)

/-- The larger one of an entry and the largest one before, which comes with its size. -/
def larger (best : Option CacheEntry×ℕ) (entry : CacheEntry) : Option CacheEntry×ℕ :=
  if best.2 < entry.size then (some entry,entry.size) else best

/-- The first of the largest entries, unless all are empty. -/
def largestEntry (entries : List CacheEntry) : Option CacheEntry := (entries.foldl larger (none,0)).1

theorem foldl_larger (entries : List CacheEntry) (best : Option CacheEntry×ℕ) :
    (∀ entry ∈ entries, entry.size ≤ (entries.foldl larger best).2) ∧ best.2 ≤ (entries.foldl larger best).2 ∧
    (entries.foldl larger best = best ∨
      ∃ entry ∈ entries, entries.foldl larger best = (some entry,entry.size) ∧ best.2 < entry.size) := by
  induction entries generalizing best with
  | nil => exact ⟨nofun,le_rfl,Or.inl rfl⟩
  | cons entry entries ih =>
    obtain ⟨hall,hle,hlast⟩ := ih (larger best entry)
    rw [List.foldl_cons,List.forall_mem_cons]
    by_cases hlt : best.2 < entry.size
    · have hlarger : larger best entry = (some entry,entry.size) := if_pos hlt
      rw [hlarger] at hall hle hlast ⊢
      refine ⟨⟨hle,hall⟩,hlt.le.trans hle,Or.inr ?_⟩
      rcases hlast with hsame | ⟨other,hmem,hother,hmore⟩
      · exact ⟨entry,List.mem_cons_self,hsame,hlt⟩
      · exact ⟨other,List.mem_cons_of_mem entry hmem,hother,hlt.trans hmore⟩
    · have hlarger : larger best entry = best := if_neg hlt
      rw [hlarger] at hall hle hlast ⊢
      refine ⟨⟨(Nat.le_of_not_lt hlt).trans hle,hall⟩,hle,?_⟩
      rcases hlast with hsame | ⟨other,hmem,hother⟩
      · exact Or.inl hsame
      · exact Or.inr ⟨other,List.mem_cons_of_mem entry hmem,hother⟩

theorem largestEntry_none {entries : List CacheEntry} (h : largestEntry entries = none) :
    ∀ entry ∈ entries, entry.size = 0 := by
  obtain ⟨hall,-,hlast⟩ := foldl_larger entries (none,0)
  rw [largestEntry] at h
  rcases hlast with hsame | ⟨other,-,hother,-⟩
  · intro entry hmem
    have hle := hall entry hmem
    rw [hsame] at hle
    exact Nat.eq_zero_of_le_zero hle
  · rw [hother] at h
    cases h

theorem largestEntry_some {entries : List CacheEntry} {entry : CacheEntry} (h : largestEntry entries = some entry) :
    entry ∈ entries ∧ 0 < entry.size ∧ ∀ other ∈ entries, other.size ≤ entry.size := by
  obtain ⟨hall,-,hlast⟩ := foldl_larger entries (none,0)
  rw [largestEntry] at h
  rcases hlast with hsame | ⟨other,hmem,hother,hpos⟩
  · rw [hsame] at h
    cases h
  · rw [hother] at h hall
    cases h
    exact ⟨hmem,hpos,hall⟩

namespace Cache

def init (name : Str) (maxEntries maxSize : ℕ) : Cache := ⟨name,∅,maxEntries,maxSize,0,.lru,nofun⟩

/-- An entry under its key. -/
def store (self : Cache) (entry : CacheEntry) : Cache where
  name := self.name
  entries := self.entries.insert entry.key entry
  maxEntries := self.maxEntries
  maxSize := self.maxSize
  currentSize := self.currentSize
  evictionPolicy := self.evictionPolicy
  keyed := by
    intro key entry' h
    rw [lookup_insert_eq] at h
    split at h
    · rename_i hkey
      rw [hkey,← Option.some.inj h]
    · exact self.keyed key entry' h

def remove (self : Cache) (key : Str) : Cache where
  name := self.name
  entries := self.entries.erase key
  maxEntries := self.maxEntries
  maxSize := self.maxSize
  currentSize := self.currentSize
  evictionPolicy := self.evictionPolicy
  keyed key entry h := self.keyed key entry (lookup_of_erase h).2

/-- An entry is taken out. A size that is smaller than the entry's traps. -/
def discard (self : Cache) (entry : CacheEntry) : Option Cache :=
  if entry.size ≤ self.currentSize then
    some ({ self with currentSize := self.currentSize-entry.size }.remove entry.key)
  else none

/-- What remains to be checked of an entry, with a request that is not looked at. -/
def matchesRequest (self : Cache) (_request : CacheRequest) (options : CacheMatchOptions) (now : ℤ)
    (entry : CacheEntry) : Bool :=
  if options.cacheName.isSome && !decide (options.cacheName = some self.name) then false
  else if !options.ignoreMethod && !decide (entry.request.method = options.matchMethod) then false
  else if !options.ignoreVary && options.matchVary.entries.any fun vary =>
      (entry.response.headers.lookup vary.1).any fun cached => !decide (cached = vary.2) then false
  else if entry.isExpired now then false
  else true

def matchesRequestURL (_self : Cache) (entry : CacheEntry) (request : CacheRequest) : Bool :=
  decide (entry.request.url = request.url)

def candidates (self : Cache) (order : IterationOrder Str) (request : CacheRequest) (options : CacheMatchOptions)
    (now : ℤ) : List CacheEntry :=
  byLastAccess ((valuesIn order self.entries).filter (self.matchesRequest request options now))

/-- The function `match`. -/
def matchOne (self : Cache) (order : IterationOrder Str) (request : CacheRequest) (options : CacheMatchOptions)
    (now : ℤ) : Option CacheEntry×Cache :=
  match self.candidates order request options now with
  | [] => (none,self)
  | best::_ => (some (best.updateAccess now),self.store (best.updateAccess now))

def matchAll (self : Cache) (order : IterationOrder Str) (request : CacheRequest) (options : CacheMatchOptions)
    (now : ℤ) : List CacheEntry :=
  self.candidates order request options now

def delete (self : Cache) (order : IterationOrder Str) (request : CacheRequest) (options : CacheMatchOptions)
    (now : ℤ) : Option (Bool×Cache) :=
  match self.matchOne order request options now with
  | (some entry,self) => (self.discard entry).map fun self => (true,self)
  | (none,self) => some (false,self)

def discardAll (self : Cache) : List CacheEntry → Option Cache
  | [] => some self
  | entry::entries => (self.discard entry).bind (discardAll · entries)

def evictEntries (self : Cache) (order : IterationOrder Str) (count : ℕ) : Option Cache :=
  match self.evictionPolicy with
  | .lru => self.discardAll ((byLastAccess (valuesIn order self.entries)).take count)
  | .lfu => some self
  | .fifo => some self
  | .ttl => some self

theorem lookup_of_mem {self : Cache} {order : IterationOrder Str} {entry : CacheEntry}
    (h : entry ∈ valuesIn order self.entries) : self.entries.lookup entry.key = some entry := by
  obtain ⟨key,hkey⟩ := mem_valuesIn.mp h
  rw [self.keyed key entry hkey]
  exact hkey

theorem mem_values {self : Cache} {entry : CacheEntry} (order : IterationOrder Str) :
    entry ∈ valuesIn order self.entries ↔ self.entries.lookup entry.key = some entry :=
  ⟨lookup_of_mem,fun h => mem_valuesIn.mpr ⟨_,h⟩⟩

theorem discard_some {self self' : Cache} {entry : CacheEntry} (h : self.discard entry = some self') :
    entry.size ≤ self.currentSize ∧
      self' = { self with currentSize := self.currentSize-entry.size }.remove entry.key := by
  rw [discard] at h
  split at h
  · exact ⟨by assumption,(Option.some.inj h).symm⟩
  · cases h

/-- The entries that are evicted, the first one first, and the cache afterwards. The number
of bytes that remain to be evicted never becomes zero. -/
def evictBySize (self : Cache) (order : IterationOrder Str) (remaining : ℕ) : Option (List CacheEntry×Cache) :=
  if remaining = 0 then some ([],self)
  else
    match _hlargest : largestEntry (valuesIn order self.entries) with
    | none => some ([],self)
    | some entry =>
      match _hdiscard : self.discard entry with
      | none => none
      | some self' =>
        (self'.evictBySize order (min remaining entry.size)).map fun rest => (entry::rest.1,rest.2)
termination_by self.entries.keys.length
decreasing_by
  rw [(discard_some _hdiscard).2]
  exact Nat.lt_of_succ_le (keys_length_erase (lookup_of_mem (largestEntry_some _hlargest).1)).le

/-- If there are too many entries, the one that was used least recently is evicted. -/
def makeRoom (self : Cache) (order : IterationOrder Str) : Option Cache :=
  if self.maxEntries ≤ self.entries.keys.length then self.evictEntries order 1 else some self

def putEntry (self : Cache) (order : IterationOrder Str) (entry : CacheEntry) : Option Cache :=
  (self.makeRoom order).bind fun self =>
    (if self.maxSize < self.currentSize+entry.size then (self.evictBySize order entry.size).map Prod.snd
      else some self).map fun self => { self.store entry with currentSize := self.currentSize+entry.size }

def put (self : Cache) (order : IterationOrder Str) (request : CacheRequest) (response : CacheResponse) (now : ℤ) :
    Option Cache :=
  self.putEntry order (.init request response now)

end Cache

inductive Call
  | put (request : CacheRequest) (response : CacheResponse)
  | matchOne (request : CacheRequest) (options : CacheMatchOptions)
  | matchAll (request : CacheRequest) (options : CacheMatchOptions)
  | delete (request : CacheRequest) (options : CacheMatchOptions)

/-- A call with the time and the order in which it iterates over the entries. -/
structure TimedCall where
  call : Call
  now : ℤ
  order : IterationOrder Str

/-- The cache after a call, unless a subtraction has trapped. -/
def perform (self : Cache) (c : TimedCall) : Option Cache :=
  match c.call with
  | .put request response => self.put c.order request response c.now
  | .matchOne request options => some (self.matchOne c.order request options c.now).2
  | .matchAll _ _ => some self
  | .delete request options => (self.delete c.order request options c.now).map Prod.snd

def step (s : Option Cache) (c : TimedCall) : Option Cache := s.bind fun self => perform self c

namespace Cache

/-- The sum of the sizes of the stored entries. -/
def storedSize (self : Cache) : ℕ := total CacheEntry.size self.entries

/-- The count of the bytes is not below the bytes that are stored. -/
def Covered (self : Cache) : Prop := self.storedSize ≤ self.currentSize

/-- Some entries are taken out, with their sizes. -/
structure Shrinks (s t : Cache) : Prop where
  name : t.name = s.name
  maxEntries : t.maxEntries = s.maxEntries
  maxSize : t.maxSize = s.maxSize
  evictionPolicy : t.evictionPolicy = s.evictionPolicy
  sub : ∀ key entry, t.entries.lookup key = some entry → s.entries.lookup key = some entry
  count : t.entries.keys.length ≤ s.entries.keys.length
  size : s.storedSize+t.currentSize = t.storedSize+s.currentSize

theorem Shrinks.refl (self : Cache) : Shrinks self self :=
  ⟨rfl,rfl,rfl,rfl,fun _ _ h => h,le_rfl,rfl⟩

theorem Shrinks.trans {self self' self'' : Cache} (h : Shrinks self self') (h' : Shrinks self' self'') :
    Shrinks self self'' where
  name := h'.name.trans h.name
  maxEntries := h'.maxEntries.trans h.maxEntries
  maxSize := h'.maxSize.trans h.maxSize
  evictionPolicy := h'.evictionPolicy.trans h.evictionPolicy
  sub key entry hkey := h.sub key entry (h'.sub key entry hkey)
  count := h'.count.trans h.count
  size := by
    have hsize := h.size
    have hsize' := h'.size
    omega

theorem Shrinks.covered {self self' : Cache} (h : Shrinks self self') (hcovered : Covered self) : Covered self' := by
  have hsize := h.size
  rw [Covered] at hcovered ⊢
  omega

variable {self : Cache} {order : IterationOrder Str} {entry : CacheEntry} {request : CacheRequest}
  {options : CacheMatchOptions} {now : ℤ}

/-- A stored entry is taken out without a trap. -/
theorem discard_spec (hcovered : Covered self) (h : self.entries.lookup entry.key = some entry) :
    ∃ self', self.discard entry = some self' ∧ Shrinks self self' ∧ self'.entries = self.entries.erase entry.key := by
  have htotal := total_erase h CacheEntry.size
  rw [Covered,storedSize] at hcovered
  have hle : entry.size ≤ self.currentSize := by omega
  refine ⟨_,if_pos hle,⟨rfl,rfl,rfl,rfl,?_,keys_length_erase_le _ _,?_⟩,rfl⟩
  · intro key entry' hkey
    exact (lookup_of_erase hkey).2
  · rw [storedSize,storedSize]
    change _+(self.currentSize-entry.size) = total CacheEntry.size (self.entries.erase entry.key)+_
    omega

/-- The least recently used entry is evicted, unless there is none. -/
theorem evictEntries_spec (order : IterationOrder Str) (hcovered : Covered self) (hlru : self.evictionPolicy = .lru) :
    ∃ self', self.evictEntries order 1 = some self' ∧ Shrinks self self' ∧
      self'.entries = match (byLastAccess (valuesIn order self.entries)).head? with
        | some entry => self.entries.erase entry.key
        | none => self.entries := by
  rw [evictEntries,hlru]
  cases hsorted : byLastAccess (valuesIn order self.entries) with
  | nil => exact ⟨self,rfl,.refl self,rfl⟩
  | cons entry entries =>
    have hmem : entry ∈ byLastAccess (valuesIn order self.entries) := by
      rw [hsorted]
      exact List.mem_cons_self
    obtain ⟨self',hdiscard,hshrinks,hentries⟩ := discard_spec hcovered (lookup_of_mem (List.mem_mergeSort.mp hmem))
    refine ⟨self',?_,hshrinks,hentries⟩
    change (self.discard entry).bind (discardAll · (entries.take 0)) = _
    rw [hdiscard,List.take_zero]
    rfl

theorem evictBySize_zero (self : Cache) (order : IterationOrder Str) : self.evictBySize order 0 = some ([],self) := by
  rw [evictBySize,if_pos rfl]

/-- One turn of the loop while bytes remain to be evicted. -/
theorem evictBySize_cases (order : IterationOrder Str) (hcovered : Covered self) {remaining : ℕ}
    (hremaining : 0 < remaining) :
    largestEntry (valuesIn order self.entries) = none ∧ self.evictBySize order remaining = some ([],self) ∨
    ∃ entry self', largestEntry (valuesIn order self.entries) = some entry ∧ Shrinks self self' ∧
      self'.entries = self.entries.erase entry.key ∧
      self.evictBySize order remaining =
        (self'.evictBySize order (min remaining entry.size)).map fun rest => (entry::rest.1,rest.2) := by
  rw [evictBySize,if_neg hremaining.ne']
  split
  · rename_i hnone
    exact Or.inl ⟨hnone,rfl⟩
  · rename_i entry hsome
    obtain ⟨self',hdiscard,hshrinks,hentries⟩ := discard_spec hcovered (lookup_of_mem (largestEntry_some hsome).1)
    refine Or.inr ⟨entry,self',hsome,hshrinks,hentries,?_⟩
    split
    · rename_i htrap
      rw [hdiscard] at htrap
      cases htrap
    · rename_i other hother
      rw [hdiscard,Option.some.injEq] at hother
      rw [hother]

/-- The loop ends without a trap, and what is left is empty. -/
theorem evictBySize_spec (order : IterationOrder Str) (hcovered : Covered self) {remaining : ℕ}
    (hremaining : 0 < remaining) :
    ∃ evicted self', self.evictBySize order remaining = some (evicted,self') ∧ Shrinks self self' ∧
      ∀ key entry, self'.entries.lookup key = some entry → entry.size = 0 := by
  induction hcount : self.entries.keys.length using Nat.strong_induction_on generalizing self remaining with
  | _ count ih =>
    rcases evictBySize_cases order hcovered hremaining with ⟨hnone,hrun⟩ | ⟨entry,next,hsome,hshrinks,hentries,hrun⟩
    · refine ⟨[],self,hrun,.refl self,?_⟩
      intro key entry hkey
      exact largestEntry_none hnone entry (mem_valuesIn.mpr ⟨key,hkey⟩)
    · obtain ⟨hmem,hpos,-⟩ := largestEntry_some hsome
      have hless : next.entries.keys.length < count := by
        rw [hentries,← hcount]
        exact Nat.lt_of_succ_le (keys_length_erase (lookup_of_mem hmem)).le
      obtain ⟨evicted,self',hrest,hshrinks',hempty⟩ :=
        ih _ hless (hshrinks.covered hcovered) (Nat.lt_min.mpr ⟨hremaining,hpos⟩) rfl
      rw [hrun,hrest]
      exact ⟨_,self',rfl,hshrinks.trans hshrinks',hempty⟩

theorem makeRoom_spec (order : IterationOrder Str) (hcovered : Covered self) :
    ∃ self', self.makeRoom order = some self' ∧ Shrinks self self' := by
  rw [makeRoom]
  split
  · cases hpolicy : self.evictionPolicy with
    | lru =>
      obtain ⟨self',hrun,hshrinks,-⟩ := evictEntries_spec order hcovered hpolicy
      exact ⟨self',hrun,hshrinks⟩
    | lfu => exact ⟨self,by rw [evictEntries,hpolicy],.refl self⟩
    | fifo => exact ⟨self,by rw [evictEntries,hpolicy],.refl self⟩
    | ttl => exact ⟨self,by rw [evictEntries,hpolicy],.refl self⟩
  · exact ⟨self,rfl,.refl self⟩

/-- Some entries are evicted, and the new one is stored. -/
theorem putEntry_spec (order : IterationOrder Str) (entry : CacheEntry) (hcovered : Covered self) :
    ∃ self' : Cache, Shrinks self self' ∧
    self.putEntry order entry = some { self'.store entry with currentSize := self'.currentSize+entry.size } := by
  obtain ⟨room,hroom,hshrinks⟩ := makeRoom_spec order hcovered
  rw [putEntry,hroom,Option.bind_some]
  split
  · rcases Nat.eq_zero_or_pos entry.size with hzero | hpos
    · refine ⟨room,hshrinks,?_⟩
      rw [hzero,evictBySize_zero]
      rfl
    · obtain ⟨evicted,self',hrun,hshrinks',-⟩ := evictBySize_spec order (hshrinks.covered hcovered) hpos
      exact ⟨self',hshrinks.trans hshrinks',by rw [hrun]; rfl⟩
  · exact ⟨room,hshrinks,rfl⟩

theorem storedSize_store_le (self : Cache) (entry : CacheEntry) :
    (self.store entry).storedSize ≤ entry.size+self.storedSize := by
  rw [storedSize,store,total_insert]
  exact Nat.add_le_add_left (total_erase_le _ _ _) _

theorem putEntry_covered (order : IterationOrder Str) (entry : CacheEntry) (hcovered : Covered self) :
    ∃ self', self.putEntry order entry = some self' ∧ Covered self' := by
  obtain ⟨left,hshrinks,hput⟩ := putEntry_spec order entry hcovered
  refine ⟨_,hput,?_⟩
  have hle := storedSize_store_le left entry
  have hleft := hshrinks.covered hcovered
  rw [Covered] at hleft ⊢
  change (left.store entry).storedSize ≤ left.currentSize+entry.size
  omega

/-- A use of an entry changes no size. -/
theorem storedSize_updateAccess (h : self.entries.lookup entry.key = some entry) (now : ℤ) :
    (self.store (entry.updateAccess now)).storedSize = self.storedSize := by
  have htotal := total_insert_old h CacheEntry.size (entry.updateAccess now)
  have hsize : (entry.updateAccess now).size = entry.size := rfl
  rw [hsize] at htotal
  rw [storedSize,storedSize]
  exact Nat.add_right_cancel (htotal.trans (Nat.add_comm _ _))

theorem mem_candidates : entry ∈ self.candidates order request options now ↔
    self.entries.lookup entry.key = some entry ∧ self.matchesRequest request options now entry = true := by
  rw [candidates,byLastAccess,List.mem_mergeSort,List.mem_filter,mem_values order]

/-- Nothing is found, or the entry that is found was used. -/
theorem matchOne_cases (self : Cache) (order : IterationOrder Str) (request : CacheRequest) (options : CacheMatchOptions)
    (now : ℤ) :
    self.candidates order request options now = [] ∧ self.matchOne order request options now = (none,self) ∨
    ∃ best rest, self.candidates order request options now = best::rest ∧
      self.entries.lookup best.key = some best ∧
      self.matchOne order request options now = (some (best.updateAccess now),self.store (best.updateAccess now)) := by
  rw [matchOne]
  cases hcandidates : self.candidates order request options now with
  | nil => exact Or.inl ⟨rfl,rfl⟩
  | cons best rest =>
    have hmem : best ∈ self.candidates order request options now := by
      rw [hcandidates]
      exact List.mem_cons_self
    exact Or.inr ⟨best,rest,rfl,(mem_candidates.mp hmem).1,rfl⟩

theorem covered_updateAccess (hcovered : Covered self) (h : self.entries.lookup entry.key = some entry) (now : ℤ) :
    Covered (self.store (entry.updateAccess now)) := by
  rw [Covered,storedSize_updateAccess h]
  exact hcovered

/-- The entry that is found is taken out. -/
theorem delete_cases (hcovered : Covered self) (order : IterationOrder Str) (request : CacheRequest)
    (options : CacheMatchOptions) (now : ℤ) :
    self.candidates order request options now = [] ∧ self.delete order request options now = some (false,self) ∨
    ∃ best rest self', self.candidates order request options now = best::rest ∧
      self.entries.lookup best.key = some best ∧ Shrinks (self.store (best.updateAccess now)) self' ∧
      self'.entries = self.entries.erase best.key ∧ self.delete order request options now = some (true,self') := by
  rw [delete]
  rcases matchOne_cases self order request options now with ⟨hnone,hmatch⟩ | ⟨best,rest,hsome,hlookup,hmatch⟩
  · rw [hmatch]
    exact Or.inl ⟨hnone,rfl⟩
  · rw [hmatch]
    have hstored : (self.store (best.updateAccess now)).entries.lookup (best.updateAccess now).key =
        some (best.updateAccess now) := AList.lookup_insert _
    obtain ⟨self',hdiscard,hshrinks,hentries⟩ := discard_spec (covered_updateAccess hcovered hlookup now) hstored
    refine Or.inr ⟨best,rest,self',hsome,hlookup,hshrinks,?_,by simp only [hdiscard]; rfl⟩
    rw [hentries]
    exact erase_insert best.key (best.updateAccess now) self.entries

/-- No call traps. -/
theorem perform_covered (hcovered : Covered self) (c : TimedCall) : ∃ self', perform self c = some self' ∧ Covered self' := by
  obtain ⟨call,now,order⟩ := c
  cases call with
  | put request response => exact putEntry_covered _ _ hcovered
  | matchOne request options =>
    refine ⟨_,rfl,?_⟩
    rcases matchOne_cases self order request options now with ⟨-,hmatch⟩ | ⟨best,-,-,hlookup,hmatch⟩
    · rw [hmatch]
      exact hcovered
    · rw [hmatch]
      exact covered_updateAccess hcovered hlookup now
  | matchAll request options => exact ⟨self,rfl,hcovered⟩
  | delete request options =>
    simp only [perform]
    rcases delete_cases hcovered order request options now with ⟨-,hdelete⟩ | ⟨best,-,self',-,hlookup,hshrinks,-,hdelete⟩
    · exact ⟨self,by rw [hdelete]; rfl,hcovered⟩
    · exact ⟨self',by rw [hdelete]; rfl,hshrinks.covered (covered_updateAccess hcovered hlookup now)⟩

end Cache

end ZNet.WorkerCache
