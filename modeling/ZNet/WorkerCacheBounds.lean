import ZNet.WorkerCache

/-!
# The bounds of a cache

A put that replaces an entry does not take off its size, and once the eviction by size has
begun it goes on until only empty entries are left.
-/

namespace ZNet.WorkerCache
open TextScan Tables Runs

/-- While each of the entries is evicted, the new one does not fit yet. -/
def InTime (maxSize required : ℕ) : ℕ → List CacheEntry → Prop
  | _,[] => True
  | current,entry::entries => maxSize < current+required ∧ InTime maxSize required (current-entry.size) entries

/-- The call ends without a trap and the count is exact. After a put the cache has room for
what it holds, and no more was evicted than necessary. -/
def Bounded (self : Cache) (c : TimedCall) : Prop :=
  ∃ self', perform self c = some self' ∧ self'.currentSize = self'.storedSize ∧
    match c.call with
    | .put _ response =>
      (calculateResponseSize response ≤ self.maxSize → self'.currentSize ≤ self.maxSize) ∧
      (1 ≤ self.maxEntries → self'.entries.keys.length ≤ self.maxEntries) ∧
      ∀ room, self.makeRoom c.order = some room → room.maxSize < room.currentSize+calculateResponseSize response →
        ∀ evicted rest, room.evictBySize c.order (calculateResponseSize response) = some (evicted,rest) →
          InTime room.maxSize (calculateResponseSize response) room.currentSize evicted
    | _ => True

/-- The entries, without the one that was used least recently if there are too many. -/
def leftBy (self : Cache) (order : IterationOrder Str) : Table Str CacheEntry :=
  if self.maxEntries ≤ self.entries.keys.length then
    match (byLastAccess (valuesIn order self.entries)).head? with
    | some entry => self.entries.erase entry.key
    | none => self.entries
  else self.entries

/-- What a put finds. Only an empty response may come without need for room to a cache that
is too large, an entry that is not empty is replaced only if there is no room for both, and
then there is none beside any other entry. -/
structure Fitting (s : Cache) (left : Table Str CacheEntry) (url : Str) (size : ℕ) : Prop where
  empty : size = 0 → total CacheEntry.size left ≤ s.maxSize
  replaced : ∀ entry, left.lookup url = some entry → 0 < entry.size → s.maxSize < total CacheEntry.size left+size
  crowded : s.maxSize < total CacheEntry.size left+size →
    ∀ key entry, left.lookup key = some entry → 0 < entry.size → s.maxSize < entry.size+size

def Fits (self : Cache) (c : TimedCall) : Prop :=
  match c.call with
  | .put request response => Fitting self (leftBy self c.order) request.url (calculateResponseSize response)
  | _ => True

/-- The invariant of the runs that keep to the bounds. -/
structure Exact (s : Cache) : Prop where
  size : s.currentSize = s.storedSize
  policy : s.evictionPolicy = .lru
  count : 1 ≤ s.maxEntries → s.entries.keys.length ≤ s.maxEntries

variable {self : Cache} {order : IterationOrder Str} {request : CacheRequest} {response : CacheResponse}
  {options : CacheMatchOptions} {now : ℤ} {entry : CacheEntry}

theorem Exact.covered (h : Exact self) : self.Covered := h.size.ge

theorem exact_size_of_shrinks {s t : Cache} (h : s.Shrinks t) (hs : s.currentSize = s.storedSize) :
    t.currentSize = t.storedSize := by
  have hsize := h.size
  omega

/-- Empty entries take no room. -/
theorem total_eq_zero {m : Table Str CacheEntry} (h : ∀ key entry, m.lookup key = some entry → entry.size = 0) :
    total CacheEntry.size m = 0 := by
  rw [total,List.sum_eq_zero_iff_forall_eq_nat]
  intro size hsize
  obtain ⟨⟨key,entry⟩,hmem,rfl⟩ := List.mem_map.mp hsize
  exact h key entry (AList.mem_lookup_iff.mpr hmem)

theorem makeRoom_left (order : IterationOrder Str) (hexact : Exact self) :
    ∃ room, self.makeRoom order = some room ∧ self.Shrinks room ∧ room.entries = leftBy self order := by
  rw [Cache.makeRoom,leftBy]
  split
  · exact Cache.evictEntries_spec order hexact.covered hexact.policy
  · exact ⟨self,rfl,.refl self,rfl⟩

/-- There is room for one more entry. -/
theorem leftBy_count (order : IterationOrder Str) (hexact : Exact self) (hentries : 1 ≤ self.maxEntries) :
    (leftBy self order).keys.length+1 ≤ self.maxEntries := by
  have hcount := hexact.count hentries
  rw [leftBy]
  split
  · rename_i hfull
    cases hsorted : byLastAccess (valuesIn order self.entries) with
    | nil =>
      have hempty : valuesIn order self.entries = [] := by
        rw [← List.length_eq_zero_iff,← @List.length_mergeSort _ fun a b => decide (a.lastAccess ≤ b.lastAccess),
          ← byLastAccess,hsorted]
        rfl
      have hkeys : self.entries.keys = [] := by
        apply List.eq_nil_iff_forall_not_mem.mpr
        intro key hkey
        obtain ⟨entry,hentry⟩ := exists_lookup (AList.mem_keys.mpr hkey)
        have hmem : entry ∈ valuesIn order self.entries := mem_valuesIn.mpr ⟨key,hentry⟩
        rw [hempty] at hmem
        cases hmem
      rw [hkeys] at hfull
      exact absurd (hentries.trans hfull) (by decide)
    | cons entry entries =>
      have hmem : entry ∈ byLastAccess (valuesIn order self.entries) := by
        rw [hsorted]
        exact List.mem_cons_self
      have herase := keys_length_erase (Cache.lookup_of_mem (List.mem_mergeSort.mp hmem))
      change (self.entries.erase entry.key).keys.length+1 ≤ _
      omega
  · omega

/-- With an exact count, the eviction stops in time exactly if the new entry fits beside none
of the others. -/
theorem inTime_iff (required : ℕ) {remaining : ℕ} (hsize : self.currentSize = self.storedSize) (hremaining : 0 < remaining)
    {evicted : List CacheEntry} {rest : Cache} (hrun : self.evictBySize order remaining = some (evicted,rest)) :
    InTime self.maxSize required self.currentSize evicted ↔
      ∀ key entry, self.entries.lookup key = some entry → 0 < entry.size → self.maxSize < entry.size+required := by
  induction evicted generalizing self remaining with
  | nil =>
    rcases Cache.evictBySize_cases order (Nat.le_of_eq hsize.symm) hremaining with
      ⟨hnone,-⟩ | ⟨entry,next,-,-,-,hnext⟩
    · refine iff_of_true trivial ?_
      intro key entry hkey hpos
      exact absurd (largestEntry_none hnone entry (mem_valuesIn.mpr ⟨key,hkey⟩)) hpos.ne'
    · rw [hrun] at hnext
      obtain ⟨_,-,hcons⟩ := Option.map_eq_some_iff.mp hnext.symm
      cases hcons
  | cons entry evicted ih =>
    rcases Cache.evictBySize_cases order (Nat.le_of_eq hsize.symm) hremaining with
      ⟨-,hnil⟩ | ⟨largest,next,hlargest,hshrinks,hentries,hnext⟩
    · rw [hrun] at hnil
      cases hnil
    · rw [hrun] at hnext
      obtain ⟨⟨evicted',rest'⟩,hloop,hcons⟩ := Option.map_eq_some_iff.mp hnext.symm
      cases hcons
      obtain ⟨hmem,hpos,hall⟩ := largestEntry_some hlargest
      have hstored := Cache.lookup_of_mem hmem
      have htotal := total_erase hstored CacheEntry.size
      have hnextSize := exact_size_of_shrinks hshrinks hsize
      have hcurrent : self.currentSize-entry.size = next.currentSize := by
        rw [hnextSize,hsize,Cache.storedSize,Cache.storedSize,hentries]
        omega
      have hrest := ih hnextSize (Nat.lt_min.mpr ⟨hremaining,hpos⟩) hloop
      rw [InTime,hcurrent,← hshrinks.maxSize,hrest,hentries]
      rw [hsize,Cache.storedSize,← htotal]
      constructor
      · rintro ⟨hfull,hothers⟩ key other hkey hother
        by_cases hsame : key = entry.key
        · rw [hsame,hstored,Option.some.injEq] at hkey
          rw [← hkey]
          by_cases hlast : ∃ key other, (self.entries.erase entry.key).lookup key = some other ∧ 0 < other.size
          · obtain ⟨key',other',hkey',hother'⟩ := hlast
            have hless := hall other' (mem_valuesIn.mpr ⟨key',(lookup_of_erase hkey').2⟩)
            have hmore := hothers key' other' hkey' hother'
            omega
          · have hzero : total CacheEntry.size (self.entries.erase entry.key) = 0 := by
              apply total_eq_zero
              intro key' other' hkey'
              by_contra hne
              exact hlast ⟨key',other',hkey',Nat.pos_of_ne_zero hne⟩
            omega
        · exact hothers key other (by rw [lookup_erase_eq,if_neg hsame,hkey]) hother
      · intro hothers
        have hfirst := hothers entry.key entry hstored hpos
        exact ⟨by omega,fun key other hkey hother => hothers key other (lookup_of_erase hkey).2 hother⟩

/-- The count is exact after a put under a URL that had no entry or an empty one. -/
theorem storedSize_store (self : Cache) (entry : CacheEntry) :
    (self.store entry).storedSize = entry.size+self.storedSize ↔
      ∀ old, self.entries.lookup entry.key = some old → old.size = 0 := by
  rw [Cache.storedSize,Cache.storedSize,Cache.store]
  cases hold : self.entries.lookup entry.key with
  | none =>
    refine iff_of_true (total_insert_new hold _ _) ?_
    intro old h
    cases h
  | some old =>
    have htotal := total_insert_old hold CacheEntry.size entry
    simp only [Option.some.injEq,forall_eq']
    omega

/-- The new entry in a cache that has room. -/
def Cache.filled (self : Cache) (entry : CacheEntry) : Cache :=
  { self.store entry with currentSize := self.currentSize+entry.size }

theorem put_eq {room : Cache} (request : CacheRequest) (response : CacheResponse) (now : ℤ)
    (hroom : self.makeRoom order = some room) :
    self.put order request response now =
      (if room.maxSize < room.currentSize+calculateResponseSize response then
        (room.evictBySize order (calculateResponseSize response)).map Prod.snd
      else some room).map (·.filled (.init request response now)) := by
  rw [Cache.put,Cache.putEntry,hroom,Option.bind_some]
  rfl

theorem filled_exact_iff (hsize : self.currentSize = self.storedSize) (entry : CacheEntry) :
    (self.filled entry).currentSize = (self.filled entry).storedSize ↔
      ∀ old, self.entries.lookup entry.key = some old → old.size = 0 := by
  rw [← storedSize_store]
  change self.currentSize+entry.size = (self.store entry).storedSize ↔ _
  rw [hsize,Nat.add_comm]
  exact eq_comm

theorem filled_count (self : Cache) (entry : CacheEntry) :
    (self.filled entry).entries.keys.length ≤ self.entries.keys.length+1 := by
  change (self.entries.insert entry.key entry).keys.length ≤ _
  rw [keys_length_insert]
  exact Nat.add_le_add_right (keys_length_erase_le _ _) 1

theorem fitting_congr {s t : Cache} {left : Table Str CacheEntry} {url : Str} {size : ℕ} (h : s.maxSize = t.maxSize) :
    Fitting s left url size ↔ Fitting t left url size := by
  constructor
  · intro hfitting
    exact ⟨h ▸ hfitting.empty,h ▸ hfitting.replaced,h ▸ hfitting.crowded⟩
  · intro hfitting
    exact ⟨h ▸ hfitting.empty,h ▸ hfitting.replaced,h ▸ hfitting.crowded⟩

section Room

variable {room : Cache}

/-- A new entry that fits in keeps the bounds exactly if it replaces none but an empty one. -/
theorem filled_bounded_iff (hsize : room.currentSize = room.storedSize)
    (hcount : 1 ≤ room.maxEntries → room.entries.keys.length+1 ≤ room.maxEntries) (entry : CacheEntry)
    (hfits : room.currentSize+entry.size ≤ room.maxSize) :
    (room.filled entry).currentSize = (room.filled entry).storedSize ∧
      (entry.size ≤ room.maxSize → (room.filled entry).currentSize ≤ room.maxSize) ∧
      (1 ≤ room.maxEntries → (room.filled entry).entries.keys.length ≤ room.maxEntries) ↔
    Fitting room room.entries entry.key entry.size := by
  have htotal : total CacheEntry.size room.entries = room.currentSize := hsize.symm
  rw [filled_exact_iff hsize]
  constructor
  · rintro ⟨hempty,-⟩
    refine ⟨fun _ => by omega,?_,fun hfull => by omega⟩
    intro old hold hpos
    exact absurd (hempty old hold) hpos.ne'
  · intro hfitting
    refine ⟨?_,fun _ => hfits,fun hentries => (filled_count room entry).trans (hcount hentries)⟩
    intro old hold
    by_contra hne
    have hfull := hfitting.replaced old hold (Nat.pos_of_ne_zero hne)
    omega

/-- After an eviction by size the new entry is alone with empty ones. That keeps the bounds
exactly if it fits beside none of those that were evicted. -/
theorem evicted_bounded_iff (order : IterationOrder Str) (hsize : room.currentSize = room.storedSize)
    (hcount : 1 ≤ room.maxEntries → room.entries.keys.length+1 ≤ room.maxEntries) (entry : CacheEntry)
    (hpos : 0 < entry.size) (hcrowded : room.maxSize < room.currentSize+entry.size) :
    ∃ evicted rest, room.evictBySize order entry.size = some (evicted,rest) ∧
      ((rest.filled entry).currentSize = (rest.filled entry).storedSize ∧
        (entry.size ≤ room.maxSize → (rest.filled entry).currentSize ≤ room.maxSize) ∧
        (1 ≤ room.maxEntries → (rest.filled entry).entries.keys.length ≤ room.maxEntries) ∧
        InTime room.maxSize entry.size room.currentSize evicted ↔
      Fitting room room.entries entry.key entry.size) := by
  have htotal : total CacheEntry.size room.entries = room.currentSize := hsize.symm
  obtain ⟨evicted,rest,hrun,hshrinks,hempty⟩ := Cache.evictBySize_spec order (Nat.le_of_eq hsize.symm) hpos
  have hrestSize := exact_size_of_shrinks hshrinks hsize
  have hrest : rest.currentSize = 0 := hrestSize.trans (total_eq_zero hempty)
  refine ⟨evicted,rest,hrun,?_⟩
  rw [inTime_iff entry.size hsize hpos hrun]
  constructor
  · rintro ⟨-,-,-,hstops⟩
    refine ⟨fun hzero => absurd hzero hpos.ne',?_,fun _ => hstops⟩
    rw [htotal]
    exact fun _ _ _ => hcrowded
  · intro hfitting
    refine ⟨(filled_exact_iff hrestSize entry).mpr fun old hold => hempty _ old hold,?_,?_,?_⟩
    · intro hle
      change rest.currentSize+entry.size ≤ room.maxSize
      rw [hrest,Nat.zero_add]
      exact hle
    · intro hentries
      exact (filled_count rest entry).trans ((Nat.add_le_add_right hshrinks.count 1).trans (hcount hentries))
    · apply hfitting.crowded
      rw [htotal]
      exact hcrowded

end Room

/-- A put into an exact cache keeps the bounds exactly if it is fitting. -/
theorem put_bounded_iff (hexact : Exact self) : Bounded self ⟨.put request response,now,order⟩ ↔
    Fitting self (leftBy self order) request.url (calculateResponseSize response) := by
  obtain ⟨room,hroom,hshrinks,hleft⟩ := makeRoom_left order hexact
  have hsize := exact_size_of_shrinks hshrinks hexact.size
  have hcount := leftBy_count order hexact
  have hput := put_eq request response now hroom
  rw [← hleft,← hshrinks.maxEntries] at hcount
  rw [← hleft,← fitting_congr hshrinks.maxSize,Bounded]
  simp only [perform,hput,hroom,Option.some.injEq,forall_eq',← hshrinks.maxSize,← hshrinks.maxEntries]
  -- From here on the new entry is any entry.
  obtain ⟨entry,hnew⟩ : ∃ entry, entry = CacheEntry.init request response now := ⟨_,rfl⟩
  have hkey : request.url = entry.key := hnew ▸ rfl
  have hentry : calculateResponseSize response = entry.size := hnew ▸ rfl
  rw [hkey,hentry,← hnew]
  by_cases hcrowded : room.maxSize < room.currentSize+entry.size
  · rw [if_pos hcrowded]
    rcases Nat.eq_zero_or_pos entry.size with hzero | hpos
    · -- Nothing is evicted for an empty response.
      refine iff_of_false ?_ ?_
      · rw [hzero,Cache.evictBySize_zero]
        rintro ⟨self',hself',-,hfull,-⟩
        rw [← Option.some.inj hself'] at hfull
        have hle : room.currentSize+entry.size ≤ room.maxSize := hfull (Nat.zero_le _)
        omega
      · intro hfitting
        have hle := hfitting.empty hzero
        have htotal : total CacheEntry.size room.entries = room.currentSize := hsize.symm
        omega
    · -- All entries that are not empty are evicted.
      obtain ⟨evicted,rest,hrun,hiff⟩ := evicted_bounded_iff order hsize hcount entry hpos hcrowded
      rw [hrun]
      simp only [Option.map_some,Option.some.injEq,exists_eq_left',Prod.mk.injEq,and_imp]
      rw [← hiff]
      refine and_congr_right fun _ => and_congr_right fun _ => and_congr_right fun _ => ?_
      constructor
      · intro hstops
        exact hstops hcrowded evicted rest rfl rfl
      · rintro hstops - _ _ rfl rfl
        exact hstops
  · rw [if_neg hcrowded]
    simp only [Option.map_some,Option.some.injEq,exists_eq_left',hcrowded,false_implies,and_true]
    exact filled_bounded_iff hsize hcount entry (Nat.le_of_not_lt hcrowded)

theorem bounded_iff (hexact : Exact self) (c : TimedCall) : Bounded self c ↔ Fits self c := by
  obtain ⟨call,now,order⟩ := c
  cases call with
  | put request response => exact put_bounded_iff hexact
  | matchOne request options =>
    refine iff_of_true ⟨_,rfl,?_,trivial⟩ trivial
    change (self.matchOne order request options now).2.currentSize = (self.matchOne order request options now).2.storedSize
    rcases Cache.matchOne_cases self order request options now with ⟨-,hmatch⟩ | ⟨best,-,-,hlookup,hmatch⟩
    · rw [hmatch]
      exact hexact.size
    · rw [hmatch]
      exact hexact.size.trans (Cache.storedSize_updateAccess hlookup now).symm
  | matchAll request options => exact iff_of_true ⟨self,rfl,hexact.size,trivial⟩ trivial
  | delete request options =>
    refine iff_of_true ?_ trivial
    rw [Bounded]
    simp only [perform]
    rcases Cache.delete_cases hexact.covered order request options now with
      ⟨-,hdelete⟩ | ⟨best,-,self',-,hlookup,hshrinks,-,hdelete⟩
    · exact ⟨self,by rw [hdelete]; rfl,hexact.size,trivial⟩
    · refine ⟨self',by rw [hdelete]; rfl,exact_size_of_shrinks hshrinks ?_,trivial⟩
      exact hexact.size.trans (Cache.storedSize_updateAccess hlookup now).symm

theorem storedCount_updateAccess (h : self.entries.lookup entry.key = some entry) (now : ℤ) :
    (self.store (entry.updateAccess now)).entries.keys.length = self.entries.keys.length := by
  change (self.entries.insert entry.key (entry.updateAccess now)).keys.length = _
  rw [keys_length_insert]
  exact keys_length_erase h

/-- A call that keeps the bounds keeps the invariant. -/
theorem perform_exact (hexact : Exact self) {c : TimedCall} (hbounded : Bounded self c) :
    ∃ self', perform self c = some self' ∧ Exact self' := by
  obtain ⟨self',hperform,hsize,hcall⟩ := hbounded
  suffices hrest : self'.evictionPolicy = .lru ∧ (1 ≤ self'.maxEntries → self'.entries.keys.length ≤ self'.maxEntries) from
    ⟨self',hperform,hsize,hrest.1,hrest.2⟩
  obtain ⟨call,now,order⟩ := c
  cases call with
  | put request response =>
    obtain ⟨left,hshrinks,hput⟩ := Cache.putEntry_spec order (.init request response now) hexact.covered
    have hself : self' = left.filled (.init request response now) := Option.some.inj (hperform.symm.trans hput)
    rw [hself] at hcall ⊢
    have hmax : (left.filled (.init request response now)).maxEntries = self.maxEntries := hshrinks.maxEntries
    exact ⟨hshrinks.evictionPolicy.trans hexact.policy,hmax ▸ hcall.2.1⟩
  | matchOne request options =>
    have hself : self' = (self.matchOne order request options now).2 := (Option.some.inj hperform).symm
    rw [hself]
    rcases Cache.matchOne_cases self order request options now with ⟨-,hmatch⟩ | ⟨best,-,-,hlookup,hmatch⟩
    · rw [hmatch]
      exact ⟨hexact.policy,hexact.count⟩
    · rw [hmatch]
      exact ⟨hexact.policy,fun h => (storedCount_updateAccess hlookup now).le.trans (hexact.count h)⟩
  | matchAll request options => exact Option.some.inj hperform ▸ ⟨hexact.policy,hexact.count⟩
  | delete request options =>
    simp only [perform] at hperform
    rcases Cache.delete_cases hexact.covered order request options now with
      ⟨-,hdelete⟩ | ⟨best,-,next,-,hlookup,hshrinks,-,hdelete⟩
    · rw [hdelete] at hperform
      exact Option.some.inj hperform ▸ ⟨hexact.policy,hexact.count⟩
    · rw [hdelete] at hperform
      have hself : self' = next := (Option.some.inj hperform).symm
      rw [hself]
      refine ⟨hshrinks.evictionPolicy.trans hexact.policy,?_⟩
      rw [hshrinks.maxEntries]
      intro hentries
      exact hshrinks.count.trans ((storedCount_updateAccess hlookup now).le.trans (hexact.count hentries))

/-- Every call of a run keeps the bounds exactly if every put is fitting. -/
theorem bounds_iff (name : Str) (maxEntries maxSize : ℕ) (calls : List TimedCall) :
    Along step (fun s c => ∃ self, s = some self ∧ Bounded self c) (some (.init name maxEntries maxSize)) calls ↔
    Along step (fun s c => ∃ self, s = some self ∧ Fits self c) (some (.init name maxEntries maxSize)) calls := by
  refine along_iff (I:=fun s => ∃ self : Cache, s = some self ∧ Exact self) ?_ ?_ ⟨_,rfl,rfl,rfl,fun _ => Nat.zero_le _⟩
  · rintro _ c ⟨self,rfl,hexact⟩ ⟨_,hself,hfits⟩
    rw [← Option.some.inj hself] at hfits
    exact perform_exact hexact ((bounded_iff hexact c).mpr hfits)
  · rintro _ c ⟨self,rfl,hexact⟩
    simp only [Option.some.injEq,exists_eq_left']
    exact bounded_iff hexact c

/-- A page of one byte. -/
def putByte (now : ℤ) : TimedCall :=
  let order : IterationOrder Str := fun keys => ⟨keys,.refl keys⟩
  ⟨.put (.init (ascii "/a".toList)) { CacheResponse.init (ascii "/a".toList) with body := some [0] },now,order⟩

/-- The second put of a page counts its bytes a second time. -/
theorem size_leaks : ¬Along step (fun s c => ∃ self, s = some self ∧ Bounded self c) (some (.init [] 100 1000))
    [putByte 0,putByte 1] := by
  intro h
  obtain ⟨self,hself,self',hperform,hsize,-⟩ := h.2.1
  cases hself
  cases hperform
  exact absurd hsize (by decide)

end ZNet.WorkerCache
