import ZNet.Origin
import ZNet.Tables

/-!
# The storage bridge

Web storage, cookies and caches behind one object. Each origin has a local and a session
storage with a quota each; cookies lie in partitions, and caches under their names.
-/

namespace ZNet.Storage
open TextScan Origins Tables

/-- Names, values and other texts. -/
abbrev Str := List UInt8

inductive StorageFailure
  | quotaExceeded
  /-- A subtraction of the language underflows. -/
  | trap
deriving DecidableEq

section Items

structure StorageQuota where
  maxSizeBytes : ℕ
  usedSizeBytes : ℕ
  remainingBytes : ℕ
deriving DecidableEq

def StorageQuota.init (maxSize : ℕ) : StorageQuota := ⟨maxSize,0,maxSize⟩

def StorageQuota.updateUsage (self : StorageQuota) (newUsed : ℕ) : StorageQuota :=
  { self with
    usedSizeBytes := newUsed
    remainingBytes := if newUsed > self.maxSizeBytes then 0 else self.maxSizeBytes-newUsed }

def StorageQuota.canStore (self : StorageQuota) (sizeBytes : ℕ) : Bool :=
  decide (self.usedSizeBytes+sizeBytes ≤ self.maxSizeBytes)

structure StorageItem where
  key : Str
  value : Str
  sizeBytes : ℕ
  createdTimestamp : ℕ
  lastAccessedTimestamp : ℕ
  expiresTimestamp : Option ℕ := none
  metadata : Table Str Str := ∅
deriving DecidableEq

def StorageItem.init (key value : Str) (now : ℕ) : StorageItem where
  key := key
  value := value
  sizeBytes := key.length+value.length
  createdTimestamp := now
  lastAccessedTimestamp := now

def StorageItem.setExpiration (self : StorageItem) (expiresInMs now : ℕ) : StorageItem :=
  { self with expiresTimestamp := some (now+expiresInMs) }

def StorageItem.isExpired (self : StorageItem) (now : ℕ) : Bool := self.expiresTimestamp.any (decide <| · < now)

def StorageItem.calculateSize (self : StorageItem) : StorageItem :=
  { self with sizeBytes := self.key.length+self.value.length+
      (self.metadata.entries.map fun e => e.1.length+e.2.length).sum }

/-- The items of one storage of an origin, and its quota. -/
structure StorageArea where
  items : Table Str StorageItem
  quota : StorageQuota
deriving DecidableEq

namespace StorageArea

/-- An item that has expired is removed, and the usage stays. The access time is updated in
a copy. -/
def get (self : StorageArea) (key : Str) (now : ℕ) : Option Str×StorageArea :=
  match self.items.lookup key with
  | none => (none,self)
  | some item =>
    if item.isExpired now then (none,{ self with items := self.items.erase key }) else (some item.value,self)

def set (self : StorageArea) (key value : Str) (now : ℕ) : Except StorageFailure Unit×StorageArea :=
  let itemSize := key.length+value.length
  if self.quota.canStore itemSize then
    (.ok (),⟨self.items.insert key (StorageItem.init key value now).calculateSize,
      self.quota.updateUsage (self.quota.usedSizeBytes+itemSize)⟩)
  else (.error .quotaExceeded,self)

def remove (self : StorageArea) (key : Str) : Except StorageFailure Unit×StorageArea :=
  match self.items.lookup key with
  | none => (.ok (),self)
  | some item =>
    let self := { self with items := self.items.erase key }
    if item.sizeBytes ≤ self.quota.usedSizeBytes then
      (.ok (),{ self with quota := self.quota.updateUsage (self.quota.usedSizeBytes-item.sizeBytes) })
    else (.error .trap,self)

def clear (self : StorageArea) : StorageArea := ⟨∅,self.quota.updateUsage 0⟩

/-- The removal of the collected keys in `cleanupExpiredData`. -/
def removeAll (self : StorageArea) : List Str → Except StorageFailure Unit×StorageArea
  | [] => (.ok (),self)
  | key::toRemove =>
    match self.remove key with
    | (.ok (),self) => self.removeAll toRemove
    | (.error e,self) => (.error e,self)

def cleanup (self : StorageArea) (now : ℕ) (order : IterationOrder Str) : Except StorageFailure Unit×StorageArea :=
  self.removeAll ((order self.items.keys).1.filter fun key => (self.items.lookup key).any (·.isExpired now))

/-- The holder of an item lets it expire. -/
def setExpiration (self : StorageArea) (key : Str) (expiresInMs now : ℕ) : StorageArea :=
  match self.items.lookup key with
  | none => self
  | some item => { self with items := self.items.insert key (item.setExpiration expiresInMs now) }

end StorageArea

inductive StorageKind
  | localStorage | sessionStorage
deriving DecidableEq

/-- 10 MB for local and 5 MB for session storage. -/
def StorageKind.maxSize : StorageKind → ℕ
  | .localStorage => 10*1024*1024
  | .sessionStorage => 5*1024*1024

def StorageArea.init (kind : StorageKind) : StorageArea := ⟨∅,.init kind.maxSize⟩

structure OriginStorage where
  origin : Origin
  localStorage : Table Str StorageItem
  sessionStorage : Table Str StorageItem
  quotaLocal : StorageQuota
  quotaSession : StorageQuota
deriving DecidableEq

namespace OriginStorage

def init (origin : Origin) : OriginStorage where
  origin := origin
  localStorage := ∅
  sessionStorage := ∅
  quotaLocal := .init (StorageKind.maxSize .localStorage)
  quotaSession := .init (StorageKind.maxSize .sessionStorage)

def area (self : OriginStorage) : StorageKind → StorageArea
  | .localStorage => ⟨self.localStorage,self.quotaLocal⟩
  | .sessionStorage => ⟨self.sessionStorage,self.quotaSession⟩

def setArea (self : OriginStorage) : StorageKind → StorageArea → OriginStorage
  | .localStorage,area => { self with localStorage := area.items, quotaLocal := area.quota }
  | .sessionStorage,area => { self with sessionStorage := area.items, quotaSession := area.quota }

def cleanup (self : OriginStorage) (now : ℕ) (order : IterationOrder Str) : Except StorageFailure Unit×OriginStorage :=
  match (self.area .localStorage).cleanup now order with
  | (.error e,area) => (.error e,self.setArea .localStorage area)
  | (.ok (),area) =>
    let self := self.setArea .localStorage area
    let (result,area) := (self.area .sessionStorage).cleanup now order
    (result,self.setArea .sessionStorage area)

end OriginStorage

end Items

section Cookies

inductive SameSitePolicy
  | strict | lax | none
deriving DecidableEq

structure Cookie where
  name : Str
  value : Str
  domain : Str := []
  path : Str := [slash]
  expires : Option ℕ := none
  secure : Bool := false
  httpOnly : Bool := false
  sameSite : SameSitePolicy := .lax
  sizeBytes : ℕ
  topLevelSite : Str := []
deriving DecidableEq

def Cookie.init (name value : Str) : Cookie where
  name := name
  value := value
  sizeBytes := name.length+value.length

def Cookie.isExpired (self : Cookie) (now : ℕ) : Bool := self.expires.any (decide <| · < now)

def Cookie.matchesUrl (self : Cookie) (url : Str) : Bool :=
  match Origin.parse url with
  | .error _ => false
  | .ok urlOrigin =>
    if 0 < self.domain.length ∧ ¬self.domain.isSuffixOf urlOrigin.host ∧ urlOrigin.host ≠ self.domain then false
    else self.path.isPrefixOf url

structure CookiePartition where
  topLevelSite : Str
  origin : Str
  cookies : Table Str Cookie
deriving DecidableEq

def CookiePartition.init (topLevelSite origin : Str) : CookiePartition := ⟨topLevelSite,origin,∅⟩

/-- The names of the expired cookies are collected and then removed. -/
def CookiePartition.removeExpired (self : CookiePartition) (now : ℕ) : CookiePartition :=
  { self with cookies := select (fun _ cookie => !cookie.isExpired now) self.cookies }

end Cookies

section Caches

structure CacheAPIEntry where
  requestUrl : Str
  responseData : Str
  createdTimestamp : ℕ
deriving DecidableEq

structure CacheAPICache where
  name : Str
  origin : Origin
  entries : Table Str CacheAPIEntry
deriving DecidableEq

namespace CacheAPICache

def init (name : Str) (origin : Origin) : CacheAPICache := ⟨name,origin,∅⟩

def put (self : CacheAPICache) (requestUrl responseData : Str) (now : ℕ) : CacheAPICache :=
  { self with entries := self.entries.insert requestUrl ⟨requestUrl,responseData,now⟩ }

def match_ (self : CacheAPICache) (requestUrl : Str) : Option CacheAPIEntry := self.entries.lookup requestUrl

def delete (self : CacheAPICache) (requestUrl : Str) : CacheAPICache :=
  { self with entries := self.entries.erase requestUrl }

def keys (self : CacheAPICache) : List Str := self.entries.keys

end CacheAPICache

end Caches

structure StorageBridge where
  originStorages : Table Str OriginStorage
  cookieJar : Table Str CookiePartition
  cacheApiCaches : Table Str CacheAPICache
deriving DecidableEq

namespace StorageBridge

def init : StorageBridge := ⟨∅,∅,∅⟩

section WebStorage

/-- The storage under the key of the origin, which is made if there is none. -/
def getOriginStorage (self : StorageBridge) (origin : Origin) : OriginStorage×StorageBridge :=
  match self.originStorages.lookup origin.format with
  | some existing => (existing,self)
  | none => (.init origin,{ self with originStorages := self.originStorages.insert origin.format (.init origin) })

/-- An operation on one storage of an origin. -/
def withArea {β : Type} (self : StorageBridge) (origin : Origin) (kind : StorageKind) (f : StorageArea → β×StorageArea) :
    β×StorageBridge :=
  let (storage,self) := self.getOriginStorage origin
  let (result,area) := f (storage.area kind)
  (result,{ self with originStorages := self.originStorages.insert origin.format (storage.setArea kind area) })

def localStorageGet (self : StorageBridge) (origin : Origin) (key : Str) (now : ℕ) : Option Str×StorageBridge :=
  self.withArea origin .localStorage (·.get key now)

def localStorageSet (self : StorageBridge) (origin : Origin) (key value : Str) (now : ℕ) :
    Except StorageFailure Unit×StorageBridge :=
  self.withArea origin .localStorage (·.set key value now)

def localStorageRemove (self : StorageBridge) (origin : Origin) (key : Str) : Except StorageFailure Unit×StorageBridge :=
  self.withArea origin .localStorage (·.remove key)

def localStorageClear (self : StorageBridge) (origin : Origin) : Unit×StorageBridge :=
  self.withArea origin .localStorage fun area => ((),area.clear)

def sessionStorageGet (self : StorageBridge) (origin : Origin) (key : Str) (now : ℕ) : Option Str×StorageBridge :=
  self.withArea origin .sessionStorage (·.get key now)

def sessionStorageSet (self : StorageBridge) (origin : Origin) (key value : Str) (now : ℕ) :
    Except StorageFailure Unit×StorageBridge :=
  self.withArea origin .sessionStorage (·.set key value now)

def sessionStorageRemove (self : StorageBridge) (origin : Origin) (key : Str) :
    Except StorageFailure Unit×StorageBridge :=
  self.withArea origin .sessionStorage (·.remove key)

def sessionStorageClear (self : StorageBridge) (origin : Origin) : Unit×StorageBridge :=
  self.withArea origin .sessionStorage fun area => ((),area.clear)

/-- The holder of an item lets it expire. -/
def setExpiration (self : StorageBridge) (origin : Origin) (kind : StorageKind) (key : Str) (expiresInMs now : ℕ) :
    Unit×StorageBridge :=
  self.withArea origin kind fun area => ((),area.setExpiration key expiresInMs now)

end WebStorage

section CookieJar

def bar : UInt8 := 0x7c

/-- The text `{s}|{s}` of the site and the origin. -/
def getPartitionKey (topLevelSite origin : Str) : Str := topLevelSite++bar::origin

def cleanupExpiredCookies (self : StorageBridge) (now : ℕ) : StorageBridge :=
  { self with cookieJar := mapValues (·.removeExpired now) self.cookieJar }

def setCookie (self : StorageBridge) (cookie : Cookie) (topLevelSite origin : Str) (now : ℕ) : StorageBridge :=
  let self := self.cleanupExpiredCookies now
  let partitionKey := getPartitionKey topLevelSite origin
  let partition := (self.cookieJar.lookup partitionKey).getD (.init topLevelSite origin)
  let partition := { partition with cookies := partition.cookies.insert cookie.name cookie }
  { self with cookieJar := self.cookieJar.insert partitionKey partition }

/-- An expired cookie is removed. -/
def getCookie (self : StorageBridge) (name topLevelSite origin : Str) (now : ℕ) : Option Cookie×StorageBridge :=
  let partitionKey := getPartitionKey topLevelSite origin
  match self.cookieJar.lookup partitionKey with
  | none => (none,self)
  | some partition =>
    match partition.cookies.lookup name with
    | none => (none,self)
    | some cookie =>
      if cookie.isExpired now then
        let partition := { partition with cookies := partition.cookies.erase name }
        (none,{ self with cookieJar := self.cookieJar.insert partitionKey partition })
      else (some cookie,self)

def getCookiesForUrl (self : StorageBridge) (url topLevelSite originReq : Str) (now : ℕ) : List Cookie :=
  match self.cookieJar.lookup (getPartitionKey topLevelSite originReq) with
  | none => []
  | some partition =>
    (partition.cookies.entries.map (·.2)).filter fun cookie => !cookie.isExpired now && cookie.matchesUrl url

def deleteCookie (self : StorageBridge) (name topLevelSite origin : Str) : StorageBridge :=
  let partitionKey := getPartitionKey topLevelSite origin
  match self.cookieJar.lookup partitionKey with
  | none => self
  | some partition =>
    let partition := { partition with cookies := partition.cookies.erase name }
    { self with cookieJar := self.cookieJar.insert partitionKey partition }

end CookieJar

section CacheApi

def cacheOpen (self : StorageBridge) (name : Str) (origin : Origin) : CacheAPICache×StorageBridge :=
  match self.cacheApiCaches.lookup name with
  | some existing => (existing,self)
  | none => (.init name origin,{ self with cacheApiCaches := self.cacheApiCaches.insert name (.init name origin) })

def cacheDelete (self : StorageBridge) (name : Str) : StorageBridge :=
  { self with cacheApiCaches := self.cacheApiCaches.erase name }

end CacheApi

/-- The loop of `cleanupExpiredData` over the storages. -/
def cleanupStorages (self : StorageBridge) (now : ℕ) (order : IterationOrder Str) :
    List Str → Except StorageFailure Unit×StorageBridge
  | [] => (.ok (),self)
  | key::keys =>
    match self.originStorages.lookup key with
    | none => self.cleanupStorages now order keys
    | some storage =>
      match storage.cleanup now order with
      | (.ok (),storage) =>
        { self with originStorages := self.originStorages.insert key storage }.cleanupStorages now order keys
      | (.error e,storage) => (.error e,{ self with originStorages := self.originStorages.insert key storage })

def cleanupExpiredData (self : StorageBridge) (now : ℕ) (order : IterationOrder Str) :
    Except StorageFailure Unit×StorageBridge :=
  let self := self.cleanupExpiredCookies now
  self.cleanupStorages now order (order self.originStorages.keys).1

end StorageBridge

end ZNet.Storage
