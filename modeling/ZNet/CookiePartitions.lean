import ZNet.StorageBridge
import ZNet.Runs
import Mathlib.Data.Set.Function

/-!
# Cookie partitions

The site and the origin of a partition are written into one text with a bar between them,
and a bar may occur in either. Each cookie of the jar is traced to the pair that set it.
-/

namespace ZNet.Storage
open Tables Runs

structure SitePair where
  topLevelSite : Str
  origin : Str
deriving DecidableEq

def partitionKey (pair : SitePair) : Str := StorageBridge.getPartitionKey pair.topLevelSite pair.origin

inductive CookieRequest
  | setCookie (cookie : Cookie)
  | getCookie (name : Str)
  | getCookiesForUrl (url : Str)
  | deleteCookie (name : Str)

structure CookieCall where
  pair : SitePair
  request : CookieRequest
  now : ℕ

/-- The cookies that the call returns, and the bridge after it. -/
def StorageBridge.cookiePerform (self : StorageBridge) (call : CookieCall) : List Cookie×StorageBridge :=
  let ⟨topLevelSite,origin⟩ := call.pair
  match call.request with
  | .setCookie cookie => ([],self.setCookie cookie topLevelSite origin call.now)
  | .getCookie name =>
    let (cookie,self) := self.getCookie name topLevelSite origin call.now
    (cookie.toList,self)
  | .getCookiesForUrl url => (self.getCookiesForUrl url topLevelSite origin call.now,self)
  | .deleteCookie name => ([],self.deleteCookie name topLevelSite origin)

def cookieAt (s : StorageBridge) (key name : Str) : Option Cookie :=
  (s.cookieJar.lookup key).bind (·.cookies.lookup name)

/-- A bridge with the pair under which the cookie in each place was set last. -/
structure TracedJar where
  bridge : StorageBridge
  setUnder : Str → Str → Option SitePair

def TracedJar.init : TracedJar := ⟨.init,fun _ _ => none⟩

def jarStep (s : TracedJar) (call : CookieCall) : TracedJar where
  bridge := (s.bridge.cookiePerform call).2
  setUnder key name :=
    match call.request with
    | .setCookie cookie =>
      if key = partitionKey call.pair ∧ name = cookie.name then some call.pair else s.setUnder key name
    | _ => s.setUnder key name

/-- The call returns only cookies that were set under its own pair, and leaves those that
were set under a different pair as they are, as far as they count. -/
structure Apart (counts : Cookie → ℕ → Bool) (s : TracedJar) (call : CookieCall) : Prop where
  reads : ∀ cookie ∈ (s.bridge.cookiePerform call).1,
    s.setUnder (partitionKey call.pair) cookie.name = some call.pair
  keeps : ∀ key name cookie pair, cookieAt s.bridge key name = some cookie → counts cookie call.now = true →
    s.setUnder key name = some pair → pair ≠ call.pair →
      cookieAt (jarStep s call).bridge key name = some cookie ∧ (jarStep s call).setUnder key name = some pair

/-- Every stored cookie counts. -/
def stored (_ : Cookie) (_ : ℕ) : Bool := true

/-- A cookie counts until it has expired. -/
def live (cookie : Cookie) (now : ℕ) : Bool := !cookie.isExpired now

/-- The clock is a signed number of 64 bits. -/
def clockEnd : ℕ := 2^63

/-- A call under one of the pairs, and with one of the cookies if it sets one. -/
structure OfKind (pairs : Set SitePair) (cookies : Set Cookie) (call : CookieCall) : Prop where
  pair : call.pair ∈ pairs
  cookie : ∀ cookie, call.request = .setCookie cookie → cookie ∈ cookies
  now : call.now < clockEnd

variable {s : StorageBridge} {key name : Str} {call : CookieCall}

section Places

theorem cookieAt_cleanup (s : StorageBridge) (now : ℕ) (key name : Str) :
    cookieAt (s.cleanupExpiredCookies now) key name = (cookieAt s key name).filter (!·.isExpired now) := by
  have hlookup : (s.cleanupExpiredCookies now).cookieJar.lookup key =
      (s.cookieJar.lookup key).map (·.removeExpired now) := lookup_mapValues ..
  rw [cookieAt,cookieAt,hlookup]
  cases s.cookieJar.lookup key with
  | none => rfl
  | some partition => exact lookup_select (fun _ cookie => !cookie.isExpired now) partition.cookies name

theorem cookieAt_erase {partition : CookiePartition} (hlookup : s.cookieJar.lookup key = some partition)
    (name key' name' : Str) :
    cookieAt { s with cookieJar :=
        s.cookieJar.insert key { partition with cookies := partition.cookies.erase name } } key' name' =
      if key' = key ∧ name' = name then none else cookieAt s key' name' := by
  rw [cookieAt,lookup_insert_eq]
  by_cases hkey : key' = key
  · rw [if_pos hkey,Option.bind_some,lookup_erase_eq]
    by_cases hname : name' = name
    · rw [if_pos hname,if_pos ⟨hkey,hname⟩]
    · rw [if_neg hname,if_neg fun h => hname h.2,cookieAt,hkey,hlookup]
      rfl
  · rw [if_neg hkey,if_neg fun h => hkey h.1]
    rfl

theorem cookieAt_setCookie (s : StorageBridge) (cookie : Cookie) (pair : SitePair) (now : ℕ) (key name : Str) :
    cookieAt (s.setCookie cookie pair.topLevelSite pair.origin now) key name =
      if key = partitionKey pair ∧ name = cookie.name then some cookie
      else (cookieAt s key name).filter (!·.isExpired now) := by
  rw [← cookieAt_cleanup,StorageBridge.setCookie,cookieAt,lookup_insert_eq]
  by_cases hkey : key = partitionKey pair
  · rw [if_pos (show key = StorageBridge.getPartitionKey _ _ from hkey),Option.bind_some,lookup_insert_eq]
    by_cases hname : name = cookie.name
    · rw [if_pos hname,if_pos ⟨hkey,hname⟩]
    · rw [if_neg hname,if_neg fun h => hname h.2,cookieAt,hkey]
      cases hlookup : (s.cleanupExpiredCookies now).cookieJar.lookup (partitionKey pair) with
      | none =>
        rw [partitionKey] at hlookup
        rw [hlookup]
        rfl
      | some partition =>
        rw [partitionKey] at hlookup
        rw [hlookup]
        rfl
  · rw [if_neg (show ¬key = StorageBridge.getPartitionKey _ _ from hkey),if_neg fun h => hkey h.1]
    rfl

theorem cookieAt_deleteCookie (s : StorageBridge) (name : Str) (pair : SitePair) (key' name' : Str) :
    cookieAt (s.deleteCookie name pair.topLevelSite pair.origin) key' name' =
      if key' = partitionKey pair ∧ name' = name then none else cookieAt s key' name' := by
  rw [StorageBridge.deleteCookie]
  cases hlookup : s.cookieJar.lookup (partitionKey pair) with
  | some partition =>
    rw [partitionKey] at hlookup
    simp only [hlookup]
    exact cookieAt_erase hlookup name key' name'
  | none =>
    rw [partitionKey] at hlookup
    simp only [hlookup]
    split
    · rename_i hplace
      obtain ⟨rfl,-⟩ := hplace
      rw [cookieAt,partitionKey,hlookup]
      rfl
    · rfl

/-- An expired cookie that is asked for is deleted. -/
theorem getCookie_eq (s : StorageBridge) (name : Str) (pair : SitePair) (now : ℕ) :
    s.getCookie name pair.topLevelSite pair.origin now =
      if (cookieAt s (partitionKey pair) name).any (·.isExpired now) then
        (none,s.deleteCookie name pair.topLevelSite pair.origin)
      else (cookieAt s (partitionKey pair) name,s) := by
  rw [StorageBridge.getCookie,StorageBridge.deleteCookie,cookieAt]
  cases hlookup : s.cookieJar.lookup (partitionKey pair) with
  | none =>
    rw [partitionKey] at hlookup
    simp only [hlookup]
    rfl
  | some partition =>
    rw [partitionKey] at hlookup
    simp only [hlookup,Option.bind_some]
    cases partition.cookies.lookup name with
    | none => rfl
    | some cookie => rfl

theorem getCookiesForUrl_mem {url : Str} {pair : SitePair} {now : ℕ} {cookie : Cookie}
    (h : cookie ∈ s.getCookiesForUrl url pair.topLevelSite pair.origin now) :
    ∃ name, cookieAt s (partitionKey pair) name = some cookie := by
  rw [StorageBridge.getCookiesForUrl] at h
  cases hlookup : s.cookieJar.lookup (partitionKey pair) with
  | none =>
    rw [partitionKey] at hlookup
    rw [hlookup] at h
    cases h
  | some partition =>
    rw [partitionKey] at hlookup
    rw [hlookup] at h
    obtain ⟨⟨name,_⟩,hmem,rfl⟩ := List.mem_map.mp (List.mem_of_mem_filter h)
    refine ⟨name,?_⟩
    rw [cookieAt,partitionKey,hlookup]
    exact AList.mem_lookup_iff.mpr hmem

end Places

section Steps

/-- A cookie that a call returns lies in the partition of its pair. -/
theorem returned_stored {cookie : Cookie} (h : cookie ∈ (s.cookiePerform call).1) :
    ∃ name, cookieAt s (partitionKey call.pair) name = some cookie := by
  obtain ⟨pair,request,now⟩ := call
  cases request with
  | setCookie cookie => cases h
  | deleteCookie name => cases h
  | getCookiesForUrl url => exact getCookiesForUrl_mem h
  | getCookie name =>
    rw [StorageBridge.cookiePerform] at h
    simp only [getCookie_eq] at h
    split at h
    · cases h
    · exact ⟨name,Option.mem_toList.mp h⟩

/-- In the other partitions a call deletes at most cookies that have expired. -/
theorem cookieAt_other (s : StorageBridge) (name : Str) (hkey : key ≠ partitionKey call.pair) :
    cookieAt (s.cookiePerform call).2 key name = cookieAt s key name ∨
    cookieAt (s.cookiePerform call).2 key name = (cookieAt s key name).filter (!·.isExpired call.now) := by
  obtain ⟨pair,request,now⟩ := call
  have hdelete : ∀ name', cookieAt (s.deleteCookie name' pair.topLevelSite pair.origin) key name = cookieAt s key name := by
    intro name'
    rw [cookieAt_deleteCookie,if_neg fun h => hkey h.1]
  cases request with
  | setCookie cookie =>
    right
    rw [StorageBridge.cookiePerform,cookieAt_setCookie,if_neg fun h => hkey h.1]
  | deleteCookie name' => exact Or.inl (hdelete name')
  | getCookiesForUrl url => exact Or.inl rfl
  | getCookie name' =>
    left
    rw [StorageBridge.cookiePerform]
    simp only [getCookie_eq]
    split
    · exact hdelete name'
    · rfl

/-- A cookie is stored after a call if it was there before or the call has set it. -/
theorem stored_cases {cookie : Cookie} (h : cookieAt (s.cookiePerform call).2 key name = some cookie) :
    (call.request = .setCookie cookie ∧ key = partitionKey call.pair ∧ name = cookie.name) ∨
    (cookieAt s key name = some cookie ∧
      ∀ cookie', call.request = .setCookie cookie' → ¬(key = partitionKey call.pair ∧ name = cookie'.name)) := by
  obtain ⟨pair,request,now⟩ := call
  have hdelete : ∀ name', cookieAt (s.deleteCookie name' pair.topLevelSite pair.origin) key name = some cookie →
      cookieAt s key name = some cookie := by
    intro name' hdeleted
    rw [cookieAt_deleteCookie] at hdeleted
    split at hdeleted
    · cases hdeleted
    · exact hdeleted
  cases request with
  | setCookie cookie' =>
    rw [StorageBridge.cookiePerform,cookieAt_setCookie] at h
    split at h
    · rename_i hplace
      cases h
      exact Or.inl ⟨rfl,hplace⟩
    · rename_i hplace
      refine Or.inr ⟨(Option.filter_eq_some_iff.mp h).1,?_⟩
      intro cookie'' hrequest
      cases hrequest
      exact hplace
  | deleteCookie name' => exact Or.inr ⟨hdelete name' h,fun cookie' hrequest => by cases hrequest⟩
  | getCookiesForUrl url => exact Or.inr ⟨h,fun cookie' hrequest => by cases hrequest⟩
  | getCookie name' =>
    refine Or.inr ⟨?_,fun cookie' hrequest => by cases hrequest⟩
    rw [StorageBridge.cookiePerform] at h
    simp only [getCookie_eq] at h
    split at h
    · exact hdelete name' h
    · exact h

end Steps

section Kinds

variable {pairs : Set SitePair} {cookies : Set Cookie} {counts : Cookie → ℕ → Bool} {s : TracedJar}

/-- Each cookie of the jar lies under its name in the partition of the pair that set it. -/
def Traced (pairs : Set SitePair) (cookies : Set Cookie) (s : TracedJar) : Prop :=
  ∀ key name cookie, cookieAt s.bridge key name = some cookie →
    cookie.name = name ∧ cookie ∈ cookies ∧
      ∃ pair ∈ pairs, partitionKey pair = key ∧ s.setUnder key name = some pair

theorem traced_init : Traced pairs cookies .init := by
  intro key name cookie hstored
  cases hstored

theorem Traced.step (h : Traced pairs cookies s) (hcall : OfKind pairs cookies call) :
    Traced pairs cookies (jarStep s call) := by
  intro key name cookie hstored
  rcases stored_cases hstored with ⟨hrequest,hkey,hname⟩ | ⟨hbefore,hother⟩
  · refine ⟨hname.symm,hcall.cookie cookie hrequest,call.pair,hcall.pair,hkey.symm,?_⟩
    simp only [jarStep,hrequest]
    exact if_pos ⟨hkey,hname⟩
  · obtain ⟨hname,hcookie,pair,hpair,hkey,hset⟩ := h key name cookie hbefore
    refine ⟨hname,hcookie,pair,hpair,hkey,?_⟩
    simp only [jarStep]
    split
    · rename_i cookie' hrequest
      rw [if_neg (hother cookie' hrequest)]
      exact hset
    · exact hset

/-- A call keeps apart from the other pairs when the partitions of the pairs are different
and the cookies of others that count do not expire. -/
theorem Traced.apart (h : Traced pairs cookies s) (hcall : OfKind pairs cookies call)
    (hkeys : Set.InjOn partitionKey pairs)
    (hcounts : pairs.Subsingleton ∨ ∀ cookie ∈ cookies, counts cookie call.now = true → cookie.isExpired call.now = false) :
    Apart counts s call := by
  constructor
  · intro cookie hreturned
    obtain ⟨name,hstored⟩ := returned_stored hreturned
    obtain ⟨rfl,-,pair,hpair,hkey,hset⟩ := h _ _ _ hstored
    rw [hset,hkeys hpair hcall.pair hkey]
  · intro key name cookie owner hstored hcount hset howner
    obtain ⟨-,hcookie,pair,hpair,hkey,hsetUnder⟩ := h _ _ _ hstored
    rw [hsetUnder,Option.some.injEq] at hset
    subst hset
    rcases hcounts with hone | hcounts
    · exact absurd (hone hpair hcall.pair) howner
    · have hkey' : key ≠ partitionKey call.pair := by
        intro hsame
        exact howner (hkeys hpair hcall.pair (hkey.trans hsame))
      have hkept : cookieAt (jarStep s call).bridge key name = some cookie := by
        rcases cookieAt_other s.bridge name hkey' with hsame | hfilter
        · exact hsame.trans hstored
        · refine hfilter.trans ?_
          rw [hstored,Option.filter_some,hcounts cookie hcookie hcount]
          rfl
      refine ⟨hkept,?_⟩
      simp only [jarStep]
      split
      · rw [if_neg fun hplace => hkey' hplace.1]
        exact hsetUnder
      · exact hsetUnder

/-- A cookie that is set under a pair is deleted under another one with the same partition. -/
theorem notApart_deleteCookie {pair other : SitePair} (hne : pair ≠ other) (hkey : partitionKey pair = partitionKey other)
    (cookie : Cookie) (hcounts : counts cookie 0 = true) :
    ¬Along jarStep (Apart counts) .init [⟨pair,.setCookie cookie,0⟩,⟨other,.deleteCookie cookie.name,0⟩] := by
  intro hrun
  have hset : cookieAt (jarStep .init ⟨pair,.setCookie cookie,0⟩).bridge (partitionKey pair) cookie.name = some cookie :=
    (cookieAt_setCookie ..).trans (if_pos ⟨rfl,rfl⟩)
  obtain ⟨hkept,-⟩ := hrun.2.1.keeps _ _ _ pair hset hcounts (if_pos ⟨rfl,rfl⟩) hne
  have hdeleted := (cookieAt_deleteCookie (jarStep .init ⟨pair,.setCookie cookie,0⟩).bridge cookie.name other
    (partitionKey pair) cookie.name).trans (if_pos ⟨hkey,rfl⟩)
  cases hkept.symm.trans hdeleted

/-- A cookie that has expired is deleted when a cookie is set under another pair. -/
theorem notApart_setCookie {pair other : SitePair} (hne : pair ≠ other) (hkey : partitionKey pair ≠ partitionKey other)
    {cookie : Cookie} {now : ℕ} (hexpired : cookie.isExpired now = true) :
    ¬Along jarStep (Apart stored) .init [⟨pair,.setCookie cookie,0⟩,⟨other,.setCookie cookie,now⟩] := by
  intro hrun
  have hset : cookieAt (jarStep .init ⟨pair,.setCookie cookie,0⟩).bridge (partitionKey pair) cookie.name = some cookie :=
    (cookieAt_setCookie ..).trans (if_pos ⟨rfl,rfl⟩)
  obtain ⟨hkept,-⟩ := hrun.2.1.keeps _ _ _ pair hset rfl (if_pos ⟨rfl,rfl⟩) hne
  have hswept := (cookieAt_setCookie (jarStep .init ⟨pair,.setCookie cookie,0⟩).bridge cookie other now
    (partitionKey pair) cookie.name).trans (if_neg fun hplace => hkey hplace.1)
  rw [hset,Option.filter_some,hexpired] at hswept
  cases hkept.symm.trans hswept

/-- In a run of the kind the pairs are apart if each step keeps them apart. -/
theorem along_apart (happart : ∀ s call, Traced pairs cookies s → OfKind pairs cookies call → Apart counts s call)
    (calls : List CookieCall) (hcalls : ∀ call ∈ calls, OfKind pairs cookies call) :
    Along jarStep (Apart counts) .init calls :=
  along_of_inv (fun s call h hcall => ⟨happart s call h hcall,h.step hcall⟩) traced_init hcalls

theorem apart_of_noCookie (h : Traced pairs ∅ s) (call : CookieCall) : Apart counts s call where
  reads cookie hreturned := by
    obtain ⟨name,hstored⟩ := returned_stored hreturned
    exact absurd (h _ _ _ hstored).2.1 (Set.notMem_empty cookie)
  keeps key name cookie _ hstored := absurd (h key name cookie hstored).2.1 (Set.notMem_empty cookie)

theorem ofKind_setCookie {pair : SitePair} {cookie : Cookie} {now : ℕ} (hpair : pair ∈ pairs) (hcookie : cookie ∈ cookies)
    (hnow : now < clockEnd) : OfKind pairs cookies ⟨pair,.setCookie cookie,now⟩ where
  pair := hpair
  cookie cookie' hrequest := by
    cases hrequest
    exact hcookie
  now := hnow

theorem ofKind_deleteCookie {pair : SitePair} {name : Str} {now : ℕ} (hpair : pair ∈ pairs) (hnow : now < clockEnd) :
    OfKind pairs cookies ⟨pair,.deleteCookie name,now⟩ where
  pair := hpair
  cookie cookie' hrequest := by cases hrequest
  now := hnow

theorem clockEnd_pos : 0 < clockEnd := Nat.two_pow_pos 63

/-- Where the runs of a kind keep the pairs apart, their partitions are different. -/
theorem injOn_of_apart {cookie : Cookie} (hcookie : cookie ∈ cookies) (hcounts : counts cookie 0 = true)
    (h : ∀ calls, (∀ call ∈ calls, OfKind pairs cookies call) → Along jarStep (Apart counts) .init calls) :
    Set.InjOn partitionKey pairs := by
  intro pair hpair other hother hkey
  by_contra hne
  apply notApart_deleteCookie hne hkey cookie hcounts
  apply h
  intro call hcall
  rcases List.mem_pair.mp hcall with rfl | rfl
  · exact ofKind_setCookie hpair hcookie clockEnd_pos
  · exact ofKind_deleteCookie hother clockEnd_pos

theorem unexpired_of_apart {pair other : SitePair} (hpair : pair ∈ pairs) (hother : other ∈ pairs) (hne : pair ≠ other)
    (h : ∀ calls, (∀ call ∈ calls, OfKind pairs cookies call) → Along jarStep (Apart stored) .init calls)
    {cookie : Cookie} (hcookie : cookie ∈ cookies) {now : ℕ} (hnow : now < clockEnd) : cookie.isExpired now = false := by
  rw [← Bool.not_eq_true]
  intro hexpired
  apply notApart_setCookie hne _ hexpired
  · apply h
    intro call hcall
    rcases List.mem_pair.mp hcall with rfl | rfl
    · exact ofKind_setCookie hpair hcookie clockEnd_pos
    · exact ofKind_setCookie hother hcookie hnow
  · intro hkey
    exact hne (injOn_of_apart hcookie rfl h hpair hother hkey)

theorem live_zero (cookie : Cookie) : live cookie 0 = true := by
  rw [live,Cookie.isExpired]
  cases cookie.expires with
  | none => rfl
  | some expires => rfl

end Kinds

/-- All runs under the given pairs and with the given cookies keep the live cookies of the
pairs apart exactly if no cookie is set or no two of the pairs give the same text. Where the
deletion of expired cookies counts too, either only one pair is used or no cookie expires. -/
theorem apart_iff (pairs : Set SitePair) (cookies : Set Cookie) :
    ((∀ calls, (∀ call ∈ calls, OfKind pairs cookies call) → Along jarStep (Apart live) .init calls) ↔
      cookies = ∅ ∨ Set.InjOn partitionKey pairs) ∧
    ((∀ calls, (∀ call ∈ calls, OfKind pairs cookies call) → Along jarStep (Apart stored) .init calls) ↔
      cookies = ∅ ∨ Set.InjOn partitionKey pairs ∧
        (pairs.Subsingleton ∨ ∀ cookie ∈ cookies, ∀ now < clockEnd, cookie.isExpired now = false)) := by
  rcases Set.eq_empty_or_nonempty cookies with rfl | ⟨cookie,hcookie⟩
  · have hnone : ∀ counts calls, (∀ call ∈ calls, OfKind pairs ∅ call) → Along jarStep (Apart counts) .init calls :=
      fun counts => along_apart fun s call h _ => apart_of_noCookie h call
    exact ⟨iff_of_true (hnone live) (Or.inl rfl),iff_of_true (hnone stored) (Or.inl rfl)⟩
  rw [or_iff_right (Set.nonempty_iff_ne_empty.mp ⟨cookie,hcookie⟩),
    or_iff_right (Set.nonempty_iff_ne_empty.mp ⟨cookie,hcookie⟩)]
  constructor
  · constructor
    · exact injOn_of_apart hcookie (live_zero cookie)
    · intro hkeys
      apply along_apart
      intro s call h hcall
      exact h.apart hcall hkeys (Or.inr fun cookie _ hcount => (Bool.not_eq_true' _).mp hcount)
  · constructor
    · intro h
      refine ⟨injOn_of_apart hcookie rfl h,or_iff_not_imp_left.mpr fun hmany => ?_⟩
      obtain ⟨pair,hpair,other,hother,hne⟩ := Set.not_subsingleton_iff.mp hmany
      intro cookie hcookie now hnow
      exact unexpired_of_apart hpair hother hne h hcookie hnow
    · rintro ⟨hkeys,hcounts⟩
      apply along_apart
      intro s call h hcall
      exact h.apart hcall hkeys (hcounts.imp_right fun hnever cookie hcookie _ => hnever cookie hcookie _ hcall.now)

/-- The bar stands in the site of the first pair and in the origin of the second, and both
give the text `a|b|c`. -/
def barInSite : SitePair := ⟨[0x61,StorageBridge.bar,0x62],[0x63]⟩

def barInOrigin : SitePair := ⟨[0x61],[0x62,StorageBridge.bar,0x63]⟩

theorem barInSite_ne : barInSite ≠ barInOrigin := by decide

/-- A live cookie is deleted under a pair that gives the same text. -/
theorem apart_broken : barInSite ≠ barInOrigin ∧
    ¬Along jarStep (Apart live) .init [⟨barInSite,.setCookie (.init [0x6e] []),0⟩,⟨barInOrigin,.deleteCookie [0x6e],0⟩] :=
  ⟨barInSite_ne,notApart_deleteCookie barInSite_ne rfl (.init [0x6e] []) rfl⟩

end ZNet.Storage
