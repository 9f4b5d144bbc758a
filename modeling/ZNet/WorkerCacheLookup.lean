import ZNet.WorkerCache

/-!
# Lookups by URL

A lookup compares everything but the URL. It is right exactly where the entries that pass
its checks have the URL.
-/

namespace ZNet.WorkerCache
open TextScan Tables Runs

/-- An entry is stored and passes the checks of a lookup. -/
def Admitted (self : Cache) (request : CacheRequest) (options : CacheMatchOptions) (now : ℤ) (entry : CacheEntry) : Prop :=
  self.entries.lookup entry.key = some entry ∧ self.matchesRequest request options now entry = true

/-- An entry is stored for the URL of the request and has not expired. -/
def Wanted (self : Cache) (request : CacheRequest) (now : ℤ) (entry : CacheEntry) : Prop :=
  self.entries.lookup entry.key = some entry ∧ entry.request.url = request.url ∧ entry.isExpired now = false

/-- In whatever order the entries are iterated over: a put stores the entry, what is found is
wanted, an entry of the URL that the options admit is found, and only an entry of the URL is
removed. -/
def RespectsUrl (self : Cache) (call : Call) (now : ℤ) : Prop :=
  match call with
  | .put request response => ∀ order self', self.put order request response now = some self' →
    self'.entries.lookup request.url = some (.init request response now)
  | .matchOne request options => ∀ order,
    (∀ found, (self.matchOne order request options now).1 = some found →
      ∃ entry, found = entry.updateAccess now ∧ Wanted self request now entry) ∧
    ∀ entry, Admitted self request options now entry → entry.request.url = request.url →
      (self.matchOne order request options now).1 = some (entry.updateAccess now)
  | .matchAll request options => ∀ order, ∀ entry ∈ self.matchAll order request options now, Wanted self request now entry
  | .delete request options => ∀ order found self', self.delete order request options now = some (found,self') →
    ∀ key, self'.entries.lookup key ≠ self.entries.lookup key → key = request.url

/-- The entries that are looked through have the URL, for a lookup of one entry those that
were used least recently. -/
def SameUrl (self : Cache) (call : Call) (now : ℤ) : Prop :=
  match call with
  | .put _ _ => True
  | .matchOne request options | .delete request options => ∀ entry, Admitted self request options now entry →
    (∀ other, Admitted self request options now other → entry.lastAccess ≤ other.lastAccess) →
      entry.request.url = request.url
  | .matchAll request options => ∀ entry, Admitted self request options now entry → entry.request.url = request.url

variable {self : Cache} {order : IterationOrder Str} {request : CacheRequest} {options : CacheMatchOptions} {now : ℤ}
  {entry best : CacheEntry} {rest : List CacheEntry}

theorem Admitted.unexpired (h : Admitted self request options now entry) : entry.isExpired now = false := by
  have hmatches := h.2
  rw [Cache.matchesRequest] at hmatches
  split_ifs at hmatches with _ _ _ hexpired
  exact Bool.eq_false_iff.mpr hexpired

/-- The order of the last accesses is an order. -/
theorem access_trans (a b c : CacheEntry) (hab : decide (a.lastAccess ≤ b.lastAccess) = true)
    (hbc : decide (b.lastAccess ≤ c.lastAccess) = true) : decide (a.lastAccess ≤ c.lastAccess) = true :=
  decide_eq_true ((of_decide_eq_true hab).trans (of_decide_eq_true hbc))

theorem access_total (a b : CacheEntry) :
    (decide (a.lastAccess ≤ b.lastAccess) || decide (b.lastAccess ≤ a.lastAccess)) = true := by
  rw [Bool.or_eq_true,decide_eq_true_iff,decide_eq_true_iff]
  exact le_total a.lastAccess b.lastAccess

theorem sorted_le {entries : List CacheEntry} (h : byLastAccess entries = best::rest) :
    ∀ entry ∈ entries, best.lastAccess ≤ entry.lastAccess := by
  have hpairwise := List.pairwise_mergeSort access_trans access_total entries
  rw [← byLastAccess,h,List.pairwise_cons] at hpairwise
  intro entry hentry
  have hmem : entry ∈ byLastAccess entries := List.mem_mergeSort.mpr hentry
  rw [h] at hmem
  rcases List.mem_cons.mp hmem with rfl | hrest
  · exact le_rfl
  · exact of_decide_eq_true (hpairwise.1 entry hrest)

/-- The first entry stays the first if none was used before it. -/
theorem sorted_first {entries : List CacheEntry} (h : ∀ other ∈ entries, entry.lastAccess ≤ other.lastAccess) :
    ∃ rest, byLastAccess (entry::entries) = entry::rest := by
  obtain ⟨front,rest,hsorted,hrest,hfront⟩ := List.mergeSort_cons access_trans access_total entry entries
  have hnone : front = [] := by
    apply List.eq_nil_iff_forall_not_mem.mpr
    intro other hmem
    have hother : other ∈ entries := by
      have hin : other ∈ byLastAccess entries := by
        rw [byLastAccess,hrest]
        exact List.mem_append_left rest hmem
      exact List.mem_mergeSort.mp hin
    have hlater := hfront other hmem
    simp [h other hother] at hlater
  exact ⟨rest,by rw [byLastAccess,hsorted,hnone]; rfl⟩

theorem candidates_best (h : self.candidates order request options now = best::rest) :
    Admitted self request options now best ∧
      ∀ other, Admitted self request options now other → best.lastAccess ≤ other.lastAccess := by
  have hmem : best ∈ self.candidates order request options now := by
    rw [h]
    exact List.mem_cons_self
  refine ⟨Cache.mem_candidates.mp hmem,?_⟩
  intro other hother
  apply sorted_le h
  exact List.mem_filter.mpr ⟨(Cache.mem_values _).mpr hother.1,hother.2⟩

/-- An admitted entry comes first in some iteration, and is found there if it was used least
recently. -/
theorem candidates_foremost (hadmitted : Admitted self request options now entry)
    (hleast : ∀ other, Admitted self request options now other → entry.lastAccess ≤ other.lastAccess) :
    ∃ rest, self.candidates (foremost entry.key) request options now = entry::rest := by
  obtain ⟨rest,hvalues⟩ := valuesIn_foremost hadmitted.1
  rw [Cache.candidates,hvalues,List.filter_cons_of_pos hadmitted.2]
  apply sorted_first
  intro other hother
  obtain ⟨hmem,hmatches⟩ := List.mem_filter.mp hother
  refine hleast other ⟨(Cache.mem_values (foremost entry.key)).mp ?_,hmatches⟩
  rw [hvalues]
  exact List.mem_cons_of_mem entry hmem

theorem matchOne_found (h : self.candidates order request options now = best::rest) :
    self.matchOne order request options now = (some (best.updateAccess now),self.store (best.updateAccess now)) := by
  rw [Cache.matchOne,h]

/-- Two entries of one URL are one. -/
theorem eq_of_url {other : CacheEntry} (h : self.entries.lookup entry.key = some entry)
    (hother : self.entries.lookup other.key = some other) (hurl : entry.request.url = other.request.url) :
    entry = other := by
  have hkey : entry.key = other.key := by rw [entry.key_eq,other.key_eq,generateCacheKey,generateCacheKey,hurl]
  rw [hkey,hother] at h
  exact (Option.some.inj h).symm

theorem matchOne_respectsUrl_iff :
    RespectsUrl self (.matchOne request options) now ↔ SameUrl self (.matchOne request options) now := by
  constructor
  · intro hrespects entry hadmitted hleast
    obtain ⟨rest,hcandidates⟩ := candidates_foremost hadmitted hleast
    obtain ⟨stored,hstored,-,hurl,-⟩ := (hrespects (foremost entry.key)).1 _ (by rw [matchOne_found hcandidates])
    have hrequest := congrArg CacheEntry.request hstored
    exact (congrArg CacheRequest.url hrequest).trans hurl
  · intro hsame order
    rcases Cache.matchOne_cases self order request options now with ⟨hnone,hmatch⟩ | ⟨best,rest,hsome,hlookup,hmatch⟩
    · rw [hmatch]
      refine ⟨nofun,?_⟩
      intro entry hadmitted
      have hmem : entry ∈ self.candidates order request options now := Cache.mem_candidates.mpr hadmitted
      rw [hnone] at hmem
      cases hmem
    · obtain ⟨hadmitted,hleast⟩ := candidates_best hsome
      have hurl := hsame best hadmitted hleast
      rw [hmatch]
      constructor
      · intro found hfound
        exact ⟨best,(Option.some.inj hfound).symm,hlookup,hurl,hadmitted.unexpired⟩
      · intro entry hentry hwanted
        rw [eq_of_url hentry.1 hlookup (hwanted.trans hurl.symm)]

theorem matchAll_respectsUrl_iff :
    RespectsUrl self (.matchAll request options) now ↔ SameUrl self (.matchAll request options) now := by
  constructor
  · intro hrespects entry hadmitted
    exact (hrespects (foremost entry.key) entry (Cache.mem_candidates.mpr hadmitted)).2.1
  · intro hsame order entry hmem
    have hadmitted : Admitted self request options now entry := Cache.mem_candidates.mp hmem
    exact ⟨hadmitted.1,hsame entry hadmitted,hadmitted.unexpired⟩

theorem delete_respectsUrl_iff (hcovered : self.Covered) :
    RespectsUrl self (.delete request options) now ↔ SameUrl self (.delete request options) now := by
  constructor
  · intro hrespects entry hadmitted hleast
    obtain ⟨rest,hcandidates⟩ := candidates_foremost hadmitted hleast
    rcases Cache.delete_cases hcovered (foremost entry.key) request options now with
      ⟨hnone,-⟩ | ⟨best,_,self',hsome,hlookup,-,hentries,hdelete⟩
    · rw [hnone] at hcandidates
      cases hcandidates
    · rw [hcandidates,List.cons.injEq] at hsome
      have hurl := hrespects (foremost entry.key) true self' hdelete entry.key (by
        rw [hentries,← hsome.1,AList.lookup_erase,hadmitted.1]
        exact nofun)
      rw [← hurl,entry.key_eq]
      rfl
  · intro hsame order found self' hdelete key hchanged
    rcases Cache.delete_cases hcovered order request options now with
      ⟨-,hnone⟩ | ⟨best,rest,self'',hsome,-,-,hentries,hfound⟩
    · rw [hdelete,Option.some.injEq,Prod.mk.injEq] at hnone
      rw [hnone.2] at hchanged
      exact absurd rfl hchanged
    · rw [hdelete,Option.some.injEq,Prod.mk.injEq] at hfound
      rw [hfound.2,hentries,lookup_erase_eq] at hchanged
      obtain ⟨hadmitted,hleast⟩ := candidates_best hsome
      split at hchanged
      · rename_i hkey
        rw [hkey,best.key_eq]
        exact hsame best hadmitted hleast
      · exact absurd rfl hchanged

theorem put_respectsUrl (hcovered : self.Covered) (response : CacheResponse) :
    RespectsUrl self (.put request response) now := by
  intro order self' hput
  obtain ⟨left,-,hrun⟩ := Cache.putEntry_spec order (.init request response now) hcovered
  rw [Cache.put,hrun,Option.some.injEq] at hput
  rw [← hput]
  exact AList.lookup_insert _

/-- A call is right exactly if what it takes has the URL. -/
theorem respectsUrl_iff (hcovered : self.Covered) (call : Call) : RespectsUrl self call now ↔ SameUrl self call now := by
  cases call with
  | put request response => exact iff_of_true (put_respectsUrl hcovered response) trivial
  | matchOne request options => exact matchOne_respectsUrl_iff
  | matchAll request options => exact matchAll_respectsUrl_iff
  | delete request options => exact delete_respectsUrl_iff hcovered

/-- An empty cache with one of the policies. -/
def empty (name : Str) (maxEntries maxSize : ℕ) (policy : EvictionPolicy) : Cache :=
  { Cache.init name maxEntries maxSize with evictionPolicy := policy }

theorem empty_covered (name : Str) (maxEntries maxSize : ℕ) (policy : EvictionPolicy) :
    (empty name maxEntries maxSize policy).Covered := Nat.zero_le _

/-- The lookups of a run respect the URLs exactly if what each of them takes has the URL. -/
theorem lookups_iff (name : Str) (maxEntries maxSize : ℕ) (policy : EvictionPolicy) (calls : List TimedCall) :
    Along step (fun s c => ∀ self, s = some self → RespectsUrl self c.call c.now)
      (some (empty name maxEntries maxSize policy)) calls ↔
    Along step (fun s c => ∀ self, s = some self → SameUrl self c.call c.now)
      (some (empty name maxEntries maxSize policy)) calls := by
  refine along_iff (I:=fun s => ∃ self : Cache, s = some self ∧ self.Covered) ?_ ?_
    ⟨_,rfl,empty_covered name maxEntries maxSize policy⟩
  · rintro _ c ⟨self,rfl,hcovered⟩ -
    exact Cache.perform_covered hcovered c
  · rintro _ c ⟨self,rfl,hcovered⟩
    refine forall_congr' fun self' => forall_congr' fun hself => ?_
    rw [← Option.some.inj hself]
    exact respectsUrl_iff hcovered c.call

def page : Str := ascii "https://example.com/a".toList

def otherPage : Str := ascii "https://example.com/b".toList

def pageEntry : CacheEntry := .init (.init page) (.init page) 0

/-- One page is stored, another one is asked for. -/
def askOther : List TimedCall :=
  let order : IterationOrder Str := fun keys => ⟨keys,.refl keys⟩
  [⟨.put (.init page) (.init page),0,order⟩,⟨.matchOne (.init otherPage) .init,1,order⟩]

theorem other_found : ¬Along step (fun s c => ∀ self, s = some self → RespectsUrl self c.call c.now)
    (some (empty [] 100 1048576 .lru)) askOther := by
  intro h
  have hsame := matchOne_respectsUrl_iff.mp (h.2.1 _ rfl)
  have hurl := hsame pageEntry ⟨rfl,rfl⟩ (by
    rintro other ⟨hother,-⟩
    change ((∅ : Table Str CacheEntry).insert page pageEntry).lookup other.key = some other at hother
    rw [lookup_insert_eq] at hother
    split at hother
    · rw [← Option.some.inj hother]
    · cases hother)
  exact absurd hurl (by decide)

end ZNet.WorkerCache
