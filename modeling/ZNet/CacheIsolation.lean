import ZNet.StorageBridge
import ZNet.Runs
import Mathlib.Data.Set.Function

/-!
# Isolation of caches

A cache is found by its name alone; the origin is written into the cache when it is made.
Each entry is traced to the origin that put it.
-/

namespace ZNet.Storage
open Origins Tables Runs

/-- The object through which an origin reaches the caches. -/
structure CacheAPI where
  origin : Origin

namespace CacheAPI

def open_ (self : CacheAPI) (bridge : StorageBridge) (cacheName : Str) : CacheAPICache×StorageBridge :=
  bridge.cacheOpen cacheName self.origin

def delete (_ : CacheAPI) (bridge : StorageBridge) (cacheName : Str) : Bool×StorageBridge :=
  match bridge.cacheApiCaches.lookup cacheName with
  | some _ => (true,{ bridge with cacheApiCaches := bridge.cacheApiCaches.erase cacheName })
  | none => (false,bridge)

def getCacheNames (_ : CacheAPI) (bridge : StorageBridge) : List Str := bridge.cacheApiCaches.keys

end CacheAPI

/-- What is done with a cache that has been opened. -/
inductive CacheOp
  | nothing
  | put (requestUrl responseData : Str)
  | match_ (requestUrl : Str)
  | delete (requestUrl : Str)
  | keys

inductive CacheRequest
  | open_ (cacheName : Str) (op : CacheOp)
  | delete (cacheName : Str)
  | getCacheNames

inductive CacheAnswer
  | done
  | entry (entry : Option CacheAPIEntry)
  | urls (urls : List Str)
  | removed (removed : Bool)
  | names (names : List Str)

structure CacheCall where
  origin : Origin
  request : CacheRequest
  now : ℕ

def CacheAPICache.perform (self : CacheAPICache) (op : CacheOp) (now : ℕ) : CacheAnswer×CacheAPICache :=
  match op with
  | .nothing => (.done,self)
  | .put requestUrl responseData => (.done,self.put requestUrl responseData now)
  | .match_ requestUrl => (.entry (self.match_ requestUrl),self)
  | .delete requestUrl => (.done,self.delete requestUrl)
  | .keys => (.urls self.keys,self)

/-- The operation works on the cache in its place. -/
def StorageBridge.cachePerform (self : StorageBridge) (call : CacheCall) : CacheAnswer×StorageBridge :=
  let api : CacheAPI := ⟨call.origin⟩
  match call.request with
  | .open_ cacheName op =>
    let (cache,self) := api.open_ self cacheName
    let (answer,cache) := cache.perform op call.now
    (answer,{ self with cacheApiCaches := self.cacheApiCaches.insert cacheName cache })
  | .delete cacheName =>
    let (removed,self) := api.delete self cacheName
    (.removed removed,self)
  | .getCacheNames => (.names (api.getCacheNames self),self)

/-- A bridge with the origin that put the entry in each place last. -/
structure TracedCaches where
  bridge : StorageBridge
  putBy : Str → Str → Option Origin

def TracedCaches.init : TracedCaches := ⟨.init,fun _ _ => none⟩

def cacheStep (s : TracedCaches) (call : CacheCall) : TracedCaches where
  bridge := (s.bridge.cachePerform call).2
  putBy name url :=
    match call.request with
    | .open_ cacheName (.put requestUrl _) =>
      if name = cacheName ∧ url = requestUrl then some call.origin else s.putBy name url
    | _ => s.putBy name url

def cacheAt (s : TracedCaches) (name : Str) : Option CacheAPICache := s.bridge.cacheApiCaches.lookup name

/-- The call obtains, lists and deletes nothing that a different origin has made. -/
structure Separate (s : TracedCaches) (call : CacheCall) : Prop where
  obtains : ∀ name op, call.request = .open_ name op → (s.bridge.cacheOpen name call.origin).1.origin = call.origin
  matches_ : ∀ name url entry, call.request = .open_ name (.match_ url) →
    (s.bridge.cachePerform call).1 = .entry (some entry) → s.putBy name url = some call.origin
  listsUrls : ∀ name urls, call.request = .open_ name .keys → (s.bridge.cachePerform call).1 = .urls urls →
    ∀ url ∈ urls, s.putBy name url = some call.origin
  listsNames : ∀ names, (s.bridge.cachePerform call).1 = .names names → ∀ name ∈ names, ∀ cache,
    cacheAt s name = some cache → cache.origin = call.origin
  keepsCaches : ∀ name cache, cacheAt s name = some cache → cache.origin ≠ call.origin →
    ∃ cache', cacheAt (cacheStep s call) name = some cache' ∧ cache'.origin = cache.origin
  keepsEntries : ∀ name cache url entry origin, cacheAt s name = some cache →
    cache.entries.lookup url = some entry → s.putBy name url = some origin → origin ≠ call.origin →
      (∃ cache', cacheAt (cacheStep s call) name = some cache' ∧ cache'.entries.lookup url = some entry) ∧
      (cacheStep s call).putBy name url = some origin

/-- Names are used as given by `uses`, and the origins of `listing` ask for all names. -/
structure CacheKind (uses : Set (Origin×Str)) (listing : Set Origin) (call : CacheCall) : Prop where
  opened : ∀ name op, call.request = .open_ name op → (call.origin,name) ∈ uses
  deleted : ∀ name, call.request = .delete name → (call.origin,name) ∈ uses
  listed : call.request = .getCacheNames → call.origin ∈ listing

variable {s : TracedCaches} {call : CacheCall} {uses : Set (Origin×Str)} {listing : Set Origin} {name : Str}

section Steps

/-- The cache under the name, or the one that is made. -/
def opened (s : TracedCaches) (name : Str) (origin : Origin) : CacheAPICache :=
  (cacheAt s name).getD (.init name origin)

theorem cacheOpen_fst (s : TracedCaches) (name : Str) (origin : Origin) :
    (s.bridge.cacheOpen name origin).1 = opened s name origin := by
  rw [StorageBridge.cacheOpen,opened,cacheAt]
  cases s.bridge.cacheApiCaches.lookup name with
  | none => rfl
  | some cache => rfl

theorem cacheOpen_other {name' : Str} (s : TracedCaches) (origin : Origin) (hne : name' ≠ name) :
    (s.bridge.cacheOpen name origin).2.cacheApiCaches.lookup name' = cacheAt s name' := by
  rw [StorageBridge.cacheOpen]
  split
  · rfl
  · exact AList.lookup_insert_ne hne

theorem cacheAt_open (s : TracedCaches) (origin : Origin) (name : Str) (op : CacheOp) (now : ℕ) (name' : Str) :
    cacheAt (cacheStep s ⟨origin,.open_ name op,now⟩) name' =
      if name' = name then some ((opened s name origin).perform op now).2 else cacheAt s name' := by
  rw [← cacheOpen_fst]
  have hlookup : cacheAt (cacheStep s ⟨origin,.open_ name op,now⟩) name' =
      if name' = name then some ((s.bridge.cacheOpen name origin).1.perform op now).2
      else (s.bridge.cacheOpen name origin).2.cacheApiCaches.lookup name' := lookup_insert_eq ..
  rw [hlookup]
  split
  · rfl
  · rename_i hne
    exact cacheOpen_other s origin hne

theorem CacheAPI.delete_snd (self : CacheAPI) (bridge : StorageBridge) (name : Str) :
    (self.delete bridge name).2 = bridge.cacheDelete name := by
  rw [CacheAPI.delete,StorageBridge.cacheDelete]
  cases hname : bridge.cacheApiCaches.lookup name with
  | some cache => rfl
  | none => rw [erase_of_lookup_none hname]

theorem cacheAt_delete (s : TracedCaches) (origin : Origin) (name : Str) (now : ℕ) (name' : Str) :
    cacheAt (cacheStep s ⟨origin,.delete name,now⟩) name' = if name' = name then none else cacheAt s name' := by
  have hlookup : cacheAt (cacheStep s ⟨origin,.delete name,now⟩) name' =
      (CacheAPI.delete ⟨origin⟩ s.bridge name).2.cacheApiCaches.lookup name' := rfl
  rw [hlookup,CacheAPI.delete_snd]
  exact lookup_erase_eq ..

/-- A call leaves the caches alone that it does not name. -/
theorem step_other (hopen : ∀ op, call.request ≠ .open_ name op) (hdelete : call.request ≠ .delete name) :
    cacheAt (cacheStep s call) name = cacheAt s name ∧ (cacheStep s call).putBy name = s.putBy name := by
  obtain ⟨origin,request,now⟩ := call
  cases request with
  | getCacheNames => exact ⟨rfl,rfl⟩
  | delete name' =>
    have hne : name ≠ name' := fun h => hdelete (h ▸ rfl)
    rw [cacheAt_delete,if_neg hne]
    exact ⟨rfl,rfl⟩
  | open_ name' op =>
    have hne : name ≠ name' := fun h => hopen op (h ▸ rfl)
    rw [cacheAt_open,if_neg hne]
    refine ⟨rfl,?_⟩
    funext url
    cases op with
    | put requestUrl responseData => exact if_neg fun h => hne h.1
    | nothing => rfl
    | match_ requestUrl => rfl
    | delete requestUrl => rfl
    | keys => rfl

theorem perform_origin (cache : CacheAPICache) (op : CacheOp) (now : ℕ) : (cache.perform op now).2.origin = cache.origin := by
  cases op <;> rfl

end Steps

section Kinds

/-- What is stored under a name was made by an origin that uses the name. -/
def CachesTraced (uses : Set (Origin×Str)) (s : TracedCaches) : Prop :=
  ∀ name cache, cacheAt s name = some cache → (cache.origin,name) ∈ uses ∧
    ∀ url entry, cache.entries.lookup url = some entry → s.putBy name url = some cache.origin

theorem cachesTraced_init : CachesTraced uses .init := by
  intro name cache hcache
  cases hcache

/-- A name that belongs to one origin opens a cache of this origin with its entries only. -/
theorem CachesTraced.opened_own (h : CachesTraced uses s) (hnames : Set.InjOn Prod.snd uses) {origin : Origin}
    (huse : (origin,name) ∈ uses) : (opened s name origin).origin = origin ∧
      ∀ url entry, (opened s name origin).entries.lookup url = some entry → s.putBy name url = some origin := by
  rw [Storage.opened]
  cases hcache : cacheAt s name with
  | none =>
    refine ⟨rfl,fun url entry hentry => ?_⟩
    cases hentry
  | some cache =>
    obtain ⟨hused,hentries⟩ := h name cache hcache
    have horigin : cache.origin = origin := congrArg Prod.fst (hnames hused huse rfl)
    exact ⟨horigin,fun url entry hentry => horigin ▸ hentries url entry hentry⟩

/-- What an operation enters into a cache was put by its origin. -/
theorem putBy_perform {cache : CacheAPICache} {origin : Origin}
    (h : ∀ url entry, cache.entries.lookup url = some entry → s.putBy name url = some origin) (op : CacheOp) (now : ℕ)
    (url : Str) (entry : CacheAPIEntry) (hentry : (cache.perform op now).2.entries.lookup url = some entry) :
    (cacheStep s ⟨origin,.open_ name op,now⟩).putBy name url = some origin := by
  cases op with
  | put requestUrl responseData =>
    have hlookup : (cache.entries.insert requestUrl ⟨requestUrl,responseData,now⟩).lookup url = some entry := hentry
    rw [lookup_insert_eq] at hlookup
    simp only [cacheStep]
    split
    · rfl
    · rename_i hurl
      rw [if_neg fun hsame => hurl ⟨trivial,hsame⟩] at hlookup
      exact h url entry hlookup
  | delete requestUrl => exact h url entry (lookup_of_erase (a:=requestUrl) hentry).2
  | nothing => exact h url entry hentry
  | match_ requestUrl => exact h url entry hentry
  | keys => exact h url entry hentry

theorem CachesTraced.step (h : CachesTraced uses s) (hnames : Set.InjOn Prod.snd uses)
    (hcall : CacheKind uses listing call) : CachesTraced uses (cacheStep s call) := by
  obtain ⟨origin,request,now⟩ := call
  intro name' cache hcache
  cases request with
  | getCacheNames => exact h name' cache hcache
  | delete name =>
    rw [cacheAt_delete] at hcache
    split at hcache
    · cases hcache
    · exact h name' cache hcache
  | open_ name op =>
    by_cases hname : name' = name
    · subst hname
      rw [cacheAt_open,if_pos rfl] at hcache
      cases hcache
      have huse := hcall.opened name' op rfl
      obtain ⟨horigin,hentries⟩ := h.opened_own hnames huse
      rw [perform_origin,horigin]
      exact ⟨huse,putBy_perform hentries op now⟩
    · have hother : cacheAt (cacheStep s ⟨origin,.open_ name op,now⟩) name' = cacheAt s name' ∧
          (cacheStep s ⟨origin,.open_ name op,now⟩).putBy name' = s.putBy name' :=
        step_other (fun op' hrequest => hname (by cases hrequest; rfl)) (fun hrequest => by cases hrequest)
      obtain ⟨hcacheAt,hput⟩ := hother
      rw [hcacheAt] at hcache
      rw [hput]
      exact h name' cache hcache

/-- An origin reaches nothing of another one when each name belongs to one origin and the
origins that list the names are alone. -/
theorem CachesTraced.separate (h : CachesTraced uses s) (hnames : Set.InjOn Prod.snd uses)
    (hlisting : ∀ origin ∈ listing, ∀ use ∈ uses, use.1 = origin) (hcall : CacheKind uses listing call) :
    Separate s call := by
  have hother : ∀ name cache, cacheAt s name = some cache → cache.origin ≠ call.origin →
      cacheAt (cacheStep s call) name = cacheAt s name ∧ (cacheStep s call).putBy name = s.putBy name := by
    intro name cache hcache hne
    have hused := (h name cache hcache).1
    apply step_other
    · intro op hrequest
      exact hne (congrArg Prod.fst (hnames hused (hcall.opened name op hrequest) rfl))
    · intro hrequest
      exact hne (congrArg Prod.fst (hnames hused (hcall.deleted name hrequest) rfl))
  constructor
  · intro name op hrequest
    rw [cacheOpen_fst]
    exact (h.opened_own hnames (hcall.opened name op hrequest)).1
  · intro name url entry hrequest hanswer
    have hopened := h.opened_own hnames (hcall.opened name _ hrequest)
    rw [StorageBridge.cachePerform,hrequest] at hanswer
    have hentry : (s.bridge.cacheOpen name call.origin).1.entries.lookup url = some entry :=
      CacheAnswer.entry.inj hanswer
    rw [cacheOpen_fst] at hentry
    exact hopened.2 url entry hentry
  · intro name urls hrequest hanswer url hurl
    have hopened := h.opened_own hnames (hcall.opened name _ hrequest)
    rw [StorageBridge.cachePerform,hrequest] at hanswer
    have hurls : (s.bridge.cacheOpen name call.origin).1.entries.keys = urls := CacheAnswer.urls.inj hanswer
    rw [cacheOpen_fst] at hurls
    rw [← hurls,← AList.mem_keys,← AList.lookup_isSome,Option.isSome_iff_exists] at hurl
    obtain ⟨entry,hentry⟩ := hurl
    exact hopened.2 url entry hentry
  · intro names hanswer name _ cache hcache
    have hrequest : call.request = .getCacheNames := by
      obtain ⟨origin,request,now⟩ := call
      cases request with
      | getCacheNames => rfl
      | delete name => cases hanswer
      | open_ name op => cases op <;> cases hanswer
    exact hlisting _ (hcall.listed hrequest) _ (h name cache hcache).1
  · intro name cache hcache hne
    exact ⟨cache,(hother name cache hcache hne).1.trans hcache,rfl⟩
  · intro name cache url entry origin hcache hentry hput hne
    have horigin : cache.origin = origin := Option.some.inj (((h name cache hcache).2 url entry hentry).symm.trans hput)
    obtain ⟨hcacheAt,hputBy⟩ := hother name cache hcache (horigin ▸ hne)
    exact ⟨⟨cache,hcacheAt.trans hcache,hentry⟩,(congrFun hputBy url).trans hput⟩

/-- A cache that one origin has made is obtained by another one under the same name. -/
theorem notSeparate_open {origin other : Origin} (hne : origin ≠ other) (name : Str) (op op' : CacheOp) :
    ¬Along cacheStep Separate .init [⟨origin,.open_ name op,0⟩,⟨other,.open_ name op',0⟩] := by
  intro hrun
  have hobtained := hrun.2.1.obtains name op' rfl
  have hmade : cacheAt (cacheStep .init ⟨origin,.open_ name op,0⟩) name =
      some ((CacheAPICache.init name origin).perform op 0).2 := (cacheAt_open ..).trans (if_pos rfl)
  rw [cacheOpen_fst,opened,hmade,Option.getD_some,perform_origin] at hobtained
  exact hne hobtained

theorem notSeparate_getCacheNames {origin other : Origin} (hne : origin ≠ other) (name : Str) :
    ¬Along cacheStep Separate .init [⟨origin,.open_ name .nothing,0⟩,⟨other,.getCacheNames,0⟩] := by
  intro hrun
  have hmade : cacheAt (cacheStep .init ⟨origin,.open_ name .nothing,0⟩) name = some (.init name origin) :=
    (cacheAt_open ..).trans (if_pos rfl)
  exact hne (hrun.2.1.listsNames _ rfl name (mem_keys_of_lookup hmade) _ hmade)

theorem cacheKind_open {origin : Origin} (huse : (origin,name) ∈ uses) (op : CacheOp) (now : ℕ) :
    CacheKind uses listing ⟨origin,.open_ name op,now⟩ where
  opened name' op' hrequest := by
    cases hrequest
    exact huse
  deleted name' hrequest := by cases hrequest
  listed hrequest := by cases hrequest

theorem cacheKind_getCacheNames {origin : Origin} (horigin : origin ∈ listing) (now : ℕ) :
    CacheKind uses listing ⟨origin,.getCacheNames,now⟩ where
  opened name' op' hrequest := by cases hrequest
  deleted name' hrequest := by cases hrequest
  listed _ := horigin

end Kinds

/-- No origin reaches a cache or an entry that a different one has made, in any run, exactly if
no name is used by two origins and an origin that lists the names is the only one to use any. -/
theorem separate_iff (uses : Set (Origin×Str)) (listing : Set Origin) :
    (∀ calls, (∀ call ∈ calls, CacheKind uses listing call) → Along cacheStep Separate .init calls) ↔
      Set.InjOn Prod.snd uses ∧ ∀ origin ∈ listing, ∀ use ∈ uses, use.1 = origin := by
  constructor
  · intro h
    constructor
    · rintro ⟨origin,name⟩ huse ⟨other,_⟩ huse' rfl
      by_contra hne
      apply notSeparate_open (fun hsame => hne (Prod.ext hsame rfl)) name .nothing .nothing
      apply h
      intro call hcall
      rcases List.mem_pair.mp hcall with rfl | rfl
      · exact cacheKind_open huse .nothing 0
      · exact cacheKind_open huse' .nothing 0
    · rintro other hother ⟨origin,name⟩ huse
      by_contra hne
      apply notSeparate_getCacheNames hne name
      apply h
      intro call hcall
      rcases List.mem_pair.mp hcall with rfl | rfl
      · exact cacheKind_open huse .nothing 0
      · exact cacheKind_getCacheNames hother 0
  · rintro ⟨hnames,hlisting⟩ calls hcalls
    exact along_of_inv (fun s call h hcall => ⟨h.separate hnames hlisting hcall,h.step hnames hcall⟩)
      cachesTraced_init hcalls

/-- The origin of `https://a`. -/
def originA : Origin := ⟨[0x68,0x74,0x74,0x70,0x73],[0x61],443⟩

/-- The origin of `https://b`. -/
def originB : Origin := ⟨[0x68,0x74,0x74,0x70,0x73],[0x62],443⟩

theorem originA_ne : originA ≠ originB := by decide

/-- The entry that one origin puts into a cache `v1` is found by another one in its `v1`. -/
theorem separate_broken : originA ≠ originB ∧
    Origin.parse (originA.scheme++schemeEnd++originA.host) = .ok originA ∧
    Origin.parse (originB.scheme++schemeEnd++originB.host) = .ok originB ∧
    ¬Along cacheStep Separate .init [⟨originA,.open_ [0x76,0x31] (.put [0x75] [0x64]),0⟩,
      ⟨originB,.open_ [0x76,0x31] (.match_ [0x75]),0⟩] :=
  ⟨originA_ne,by decide,by decide,notSeparate_open originA_ne _ _ _⟩

end ZNet.Storage
