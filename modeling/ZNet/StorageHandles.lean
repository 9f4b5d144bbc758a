import ZNet.StorageBackup
import ZNet.Answers

/-!
# Handles of web storage

The manager has one API object for each kind of storage. Asking for the storage of an origin
writes the origin into that object and returns a pointer to it, so that every pointer of the
kind works for the origin that was asked for last. The objects point to a bridge of their own,
which is the local variable of `init`; the manager has a copy of it.
-/

namespace ZNet.Storage
open TextScan Origins Tables Runs Answers

section Api

structure LocalStorageAPI where
  origin : Origin

structure SessionStorageAPI where
  origin : Origin

inductive ItemRequest
  | setItem (key value : Str)
  | getItem (key : Str)
  | removeItem (key : Str)
  | clear
  | length
  | key (index : ℕ)
  | hasKey (key : Str)

inductive Answer
  | value (value : Option Str)
  | done (result : Except StorageFailure Unit)
  | count (length : ℕ)
  | flag (found : Bool)
  /-- The bridge that is used is gone. -/
  | gone

namespace LocalStorageAPI

variable (self : LocalStorageAPI) (storageBridge : StorageBridge)

def setItem (key value : Str) (now : ℕ) : Except StorageFailure Unit×StorageBridge :=
  storageBridge.localStorageSet self.origin key value now

def getItem (key : Str) (now : ℕ) : Option Str×StorageBridge := storageBridge.localStorageGet self.origin key now

def removeItem (key : Str) : Except StorageFailure Unit×StorageBridge :=
  storageBridge.localStorageRemove self.origin key

def clear : Unit×StorageBridge := storageBridge.localStorageClear self.origin

def length (order : IterationOrder Str) : ℕ×StorageBridge :=
  let (keys,storageBridge) := storageBridge.localStorageKeys self.origin order
  (keys.length,storageBridge)

def key (index : ℕ) (order : IterationOrder Str) : Option Str×StorageBridge :=
  let (keys,storageBridge) := storageBridge.localStorageKeys self.origin order
  (if keys.length ≤ index then none else keys[index]?,storageBridge)

def hasKey (key : Str) (now : ℕ) : Bool×StorageBridge :=
  let (value,storageBridge) := storageBridge.localStorageGet self.origin key now
  (value.isSome,storageBridge)

def perform (now : ℕ) (order : IterationOrder Str) : ItemRequest → Answer×StorageBridge
  | .setItem key value => (self.setItem storageBridge key value now).map .done id
  | .getItem key => (self.getItem storageBridge key now).map .value id
  | .removeItem key => (self.removeItem storageBridge key).map .done id
  | .clear => (self.clear storageBridge).map (fun _ => .done (.ok ())) id
  | .length => (self.length storageBridge order).map .count id
  | .key index => (self.key storageBridge index order).map .value id
  | .hasKey key => (self.hasKey storageBridge key now).map .flag id

end LocalStorageAPI

namespace SessionStorageAPI

variable (self : SessionStorageAPI) (storageBridge : StorageBridge)

def setItem (key value : Str) (now : ℕ) : Except StorageFailure Unit×StorageBridge :=
  storageBridge.sessionStorageSet self.origin key value now

def getItem (key : Str) (now : ℕ) : Option Str×StorageBridge := storageBridge.sessionStorageGet self.origin key now

def removeItem (key : Str) : Except StorageFailure Unit×StorageBridge :=
  storageBridge.sessionStorageRemove self.origin key

def clear : Unit×StorageBridge := storageBridge.sessionStorageClear self.origin

def length : ℕ×StorageBridge :=
  let (storage,storageBridge) := storageBridge.getOriginStorage self.origin
  (storage.sessionStorage.keys.length,storageBridge)

/-- The loop counts the keys up to the index. -/
def key (index : ℕ) (order : IterationOrder Str) : Option Str×StorageBridge :=
  let (storage,storageBridge) := storageBridge.getOriginStorage self.origin
  ((order storage.sessionStorage.keys).1[index]?,storageBridge)

def hasKey (key : Str) (now : ℕ) : Bool×StorageBridge :=
  let (value,storageBridge) := storageBridge.sessionStorageGet self.origin key now
  (value.isSome,storageBridge)

def perform (now : ℕ) (order : IterationOrder Str) : ItemRequest → Answer×StorageBridge
  | .setItem key value => (self.setItem storageBridge key value now).map .done id
  | .getItem key => (self.getItem storageBridge key now).map .value id
  | .removeItem key => (self.removeItem storageBridge key).map .done id
  | .clear => (self.clear storageBridge).map (fun _ => .done (.ok ())) id
  | .length => (self.length storageBridge).map .count id
  | .key index => (self.key storageBridge index order).map .value id
  | .hasKey key => (self.hasKey storageBridge key now).map .flag id

end SessionStorageAPI

/-- Both API objects point to one bridge, which may be gone. -/
structure StorageManager where
  storageBridge : StorageBridge
  localStorageApi : LocalStorageAPI
  sessionStorageApi : SessionStorageAPI
  apiBridge : Option StorageBridge

/-- What the holder of a handle knows: the origin that it was obtained for is not part of the
pointer. -/
structure Handle where
  kind : StorageKind
  obtainedFor : Origin

inductive HandleCall
  | getStorage (kind : StorageKind) (origin : Origin)
  | use (handle : Handle) (now : ℕ) (order : IterationOrder Str) (request : ItemRequest)
  | clearOriginStorage (origin : Origin)
  | cleanupExpired (now : ℕ) (order : IterationOrder Str)

def contextUrl : Str := ascii "https://browser-context.com".toList

namespace StorageManager

/-- The objects point to a local variable, and the manager has a copy of it. -/
def init : Except OriginError StorageManager :=
  match Origin.parse contextUrl with
  | .ok origin => .ok ⟨.init,⟨origin⟩,⟨origin⟩,none⟩
  | .error e => .error e

def getLocalStorage (self : StorageManager) (origin : Origin) : StorageManager := { self with localStorageApi := ⟨origin⟩ }

def getSessionStorage (self : StorageManager) (origin : Origin) : StorageManager :=
  { self with sessionStorageApi := ⟨origin⟩ }

def clearOriginStorage (self : StorageManager) (origin : Origin) : StorageManager :=
  { self with storageBridge := self.storageBridge.clearOriginStorage origin }

def cleanupExpired (self : StorageManager) (now : ℕ) (order : IterationOrder Str) :
    Except StorageFailure Unit×StorageManager :=
  let (result,storageBridge) := self.storageBridge.cleanupExpiredData now order
  (result,{ self with storageBridge := storageBridge })

def perform (self : StorageManager) : HandleCall → Answer×StorageManager
  | .getStorage .localStorage origin => (.done (.ok ()),self.getLocalStorage origin)
  | .getStorage .sessionStorage origin => (.done (.ok ()),self.getSessionStorage origin)
  | .use handle now order request =>
    match self.apiBridge with
    | none => (.gone,self)
    | some apiBridge =>
      let (answer,apiBridge) := match handle.kind with
        | .localStorage => self.localStorageApi.perform apiBridge now order request
        | .sessionStorage => self.sessionStorageApi.perform apiBridge now order request
      (answer,{ self with apiBridge := some apiBridge })
  | .clearOriginStorage origin => (.done (.ok ()),self.clearOriginStorage origin)
  | .cleanupExpired now order => (self.cleanupExpired now order).map .done id

end StorageManager

end Api

section WebStorage

/-- Web storage of one kind for one origin, with what was charged for the items. -/
structure Shelf where
  items : Table Str Str
  charged : ℕ

/-- An overwritten item stays charged. -/
def Shelf.perform (shelf : Shelf) (limit : ℕ) (order : IterationOrder Str) : ItemRequest → Answer×Shelf
  | .setItem key value =>
    let charged := shelf.charged+(key.length+value.length)
    if charged ≤ limit then (.done (.ok ()),⟨shelf.items.insert key value,charged⟩)
    else (.done (.error .quotaExceeded),shelf)
  | .getItem key => (.value (shelf.items.lookup key),shelf)
  | .removeItem key =>
    let refund := (shelf.items.lookup key).elim 0 fun value => key.length+value.length
    (.done (.ok ()),⟨shelf.items.erase key,shelf.charged-refund⟩)
  | .clear => (.done (.ok ()),⟨∅,0⟩)
  | .length => (.count shelf.items.keys.length,shelf)
  | .key index => (.value (order shelf.items.keys).1[index]?,shelf)
  | .hasKey key => (.flag (shelf.items.lookup key).isSome,shelf)

/-- The shelves of the origins, under their texts. -/
abbrev Shelves := Str → StorageKind → Shelf

/-- Each handle works for the origin that it was obtained for. The calls of the manager work on
its copy. -/
def Shelves.perform (shelves : Shelves) : HandleCall → Answer×Shelves
  | .getStorage _ _ => (.done (.ok ()),shelves)
  | .use handle _ order request =>
    let (answer,shelf) := (shelves handle.obtainedFor.format handle.kind).perform handle.kind.maxSize order request
    (answer,fun key kind => if key = handle.obtainedFor.format ∧ kind = handle.kind then shelf else shelves key kind)
  | .clearOriginStorage _ => (.done (.ok ()),shelves)
  | .cleanupExpired _ _ => (.done (.ok ()),shelves)

/-- The answers where the bridge of the objects is gone. -/
def HandleCall.lost : HandleCall → Answer
  | .use _ _ _ _ => .gone
  | _ => .done (.ok ())

/-- The calls are sent to the origin that was asked for last. -/
def readdress (latest : StorageKind → Origin) : HandleCall → HandleCall×(StorageKind → Origin)
  | .getStorage kind origin => (.getStorage kind origin,Function.update latest kind origin)
  | .use handle now order request => (.use ⟨handle.kind,latest handle.kind⟩ now order request,latest)
  | call => (call,latest)

/-- The handle that is used was obtained for the origin that was asked for last. -/
def Fresh (latest : StorageKind → Origin) : HandleCall → Prop
  | .use handle _ _ _ => handle.obtainedFor = latest handle.kind
  | _ => True

end WebStorage

variable {area : StorageArea} {kind : StorageKind} {shelf : Shelf} {now : ℕ} {order : IterationOrder Str}

section Areas

/-- What a request does to the storage it works on. -/
def StorageArea.answer (area : StorageArea) (now : ℕ) (order : IterationOrder Str) : ItemRequest → Answer×StorageArea
  | .setItem key value => (area.set key value now).map .done id
  | .getItem key => (area.get key now).map .value id
  | .removeItem key => (area.remove key).map .done id
  | .clear => (.done (.ok ()),area.clear)
  | .length => (.count area.items.keys.length,area)
  | .key index => (.value (order area.items.keys).1[index]?,area)
  | .hasKey key => (area.get key now).map (.flag ∘ Option.isSome) id

/-- The answer comes from one storage, and no other one is changed. -/
structure OnArea (s s' : StorageBridge) (answer : Answer) (origin : Origin) (kind : StorageKind)
    (f : StorageArea → Answer×StorageArea) : Prop where
  answer : answer = (f (s.areaOf origin.format kind)).1
  areas : ∀ key kind', s'.areaOf key kind' =
    if key = origin.format ∧ kind' = kind then (f (s.areaOf key kind')).2 else s.areaOf key kind'

theorem OnArea.withArea {β : Type} (s : StorageBridge) (origin : Origin) (kind : StorageKind) (g : β → Answer)
    (f : StorageArea → β×StorageArea) :
    OnArea s (s.withArea origin kind f).2 (g (s.withArea origin kind f).1) origin kind
      fun area => (g (f area).1,(f area).2) :=
  ⟨congrArg g (withArea_fst s origin kind f),areaOf_withArea s origin f⟩

/-- A storage that is only read is made first if there is none. -/
theorem OnArea.read (s : StorageBridge) (origin : Origin) (kind : StorageKind) (g : StorageArea → Answer) :
    OnArea s (s.getOriginStorage origin).2 (g ((s.getOriginStorage origin).1.area kind)) origin kind
      fun area => (g area,area) := by
  constructor
  · rw [getOriginStorage_area]
  · intro key kind'
    rw [areaOf_getOriginStorage,ite_self]

theorem getElem?_of_bound (keys : List Str) (index : ℕ) :
    (if keys.length ≤ index then none else keys[index]?) = keys[index]? := by
  split
  · rename_i hlong
    exact (List.getElem?_eq_none hlong).symm
  · rfl

theorem localStorage_onArea (self : LocalStorageAPI) (s : StorageBridge) (now : ℕ) (order : IterationOrder Str)
    (request : ItemRequest) :
    OnArea s (self.perform s now order request).2 (self.perform s now order request).1 self.origin .localStorage
      (·.answer now order request) := by
  cases request with
  | setItem key value => exact .withArea s self.origin .localStorage .done (·.set key value now)
  | getItem key => exact .withArea s self.origin .localStorage .value (·.get key now)
  | removeItem key => exact .withArea s self.origin .localStorage .done (·.remove key)
  | clear => exact .withArea s self.origin .localStorage (fun _ => .done (.ok ())) fun area => ((),area.clear)
  | length =>
    have hread := OnArea.read s self.origin .localStorage fun area => .count area.items.keys.length
    exact ⟨(congrArg Answer.count (order _).2.length_eq).trans hread.answer,hread.areas⟩
  | key index =>
    have hread := OnArea.read s self.origin .localStorage fun area => .value (order area.items.keys).1[index]?
    refine ⟨Eq.trans ?_ hread.answer,hread.areas⟩
    exact congrArg Answer.value (getElem?_of_bound _ index)
  | hasKey key => exact .withArea s self.origin .localStorage (.flag ∘ Option.isSome) (·.get key now)

theorem sessionStorage_onArea (self : SessionStorageAPI) (s : StorageBridge) (now : ℕ) (order : IterationOrder Str)
    (request : ItemRequest) :
    OnArea s (self.perform s now order request).2 (self.perform s now order request).1 self.origin .sessionStorage
      (·.answer now order request) := by
  cases request with
  | setItem key value => exact .withArea s self.origin .sessionStorage .done (·.set key value now)
  | getItem key => exact .withArea s self.origin .sessionStorage .value (·.get key now)
  | removeItem key => exact .withArea s self.origin .sessionStorage .done (·.remove key)
  | clear => exact .withArea s self.origin .sessionStorage (fun _ => .done (.ok ())) fun area => ((),area.clear)
  | length => exact .read s self.origin .sessionStorage fun area => .count area.items.keys.length
  | key index => exact .read s self.origin .sessionStorage fun area => .value (order area.items.keys).1[index]?
  | hasKey key => exact .withArea s self.origin .sessionStorage (.flag ∘ Option.isSome) (·.get key now)

end Areas

section Shelves

/-- The storage has the items of the shelf, which do not expire, and is charged the same. -/
structure Shelved (kind : StorageKind) (area : StorageArea) (shelf : Shelf) : Prop extends Measured kind area where
  lasting : ∀ key item, area.items.lookup key = some item → item.expiresTimestamp = none
  items : mapValues (·.value) area.items = shelf.items
  charged : area.quota.usedSizeBytes = shelf.charged

theorem Shelved.init (kind : StorageKind) : Shelved kind (.init kind) ⟨∅,0⟩ :=
  ⟨measured_kept.init kind,nofun,rfl,rfl⟩

theorem Shelved.keys (h : Shelved kind area shelf) : area.items.keys = shelf.items.keys := by
  rw [← h.items,keys_mapValues]

theorem Shelved.lookup (h : Shelved kind area shelf) (key : Str) :
    shelf.items.lookup key = (area.items.lookup key).map (·.value) := by
  rw [← h.items,lookup_mapValues]

/-- Nothing has expired, so that `get` only reads. -/
theorem Shelved.get (h : Shelved kind area shelf) (key : Str) (now : ℕ) :
    area.get key now = (shelf.items.lookup key,area) := by
  rw [h.lookup,StorageArea.get]
  cases hlookup : area.items.lookup key with
  | none => rfl
  | some item =>
    have hexpired : item.isExpired now = false := by rw [StorageItem.isExpired,h.lasting key item hlookup,Option.any_none]
    simp [hexpired]

theorem Shelved.setItem (h : Shelved kind area shelf) (key value : Str) :
    ((area.set key value now).map Answer.done id).1 = (shelf.perform kind.maxSize order (.setItem key value)).1 ∧
      Shelved kind (area.set key value now).2 (shelf.perform kind.maxSize order (.setItem key value)).2 := by
  have hmeasured := h.toMeasured.perform (.set key value) now
  change Measured kind (area.set key value now).2 at hmeasured
  rw [StorageArea.set,StorageQuota.canStore,h.limit,h.charged] at hmeasured ⊢
  rw [Shelf.perform]
  by_cases hfits : shelf.charged+(key.length+value.length) ≤ kind.maxSize
  · simp only [hfits,decide_true,if_true] at hmeasured ⊢
    refine ⟨rfl,hmeasured,?_,?_,rfl⟩
    · intro key' item hlookup
      rw [lookup_insert_eq] at hlookup
      split at hlookup
      · cases hlookup
        rfl
      · exact h.lasting key' item hlookup
    · rw [mapValues_insert,h.items]
      rfl
  · simp only [hfits,decide_false,Bool.false_eq_true,if_false]
    exact ⟨rfl,h⟩

/-- What is taken off the charge is what the item was charged when it was set. -/
theorem Shelved.removeItem (h : Shelved kind area shelf) (key : Str) :
    ((area.remove key).map Answer.done id).1 = (shelf.perform kind.maxSize order (.removeItem key)).1 ∧
      Shelved kind (area.remove key).2 (shelf.perform kind.maxSize order (.removeItem key)).2 := by
  have hmeasured := h.toMeasured.perform (.remove key) 0
  change Measured kind (area.remove key).2 at hmeasured
  have hshelf := h.lookup key
  rw [StorageArea.remove] at hmeasured ⊢
  rw [Shelf.perform]
  cases hlookup : area.items.lookup key with
  | none =>
    rw [hlookup] at hshelf
    rw [hshelf,erase_of_lookup_none hshelf]
    exact ⟨rfl,h⟩
  | some item =>
    have hitem := total_erase hlookup (·.sizeBytes)
    have htotal := h.safe.sizes
    have hfits : item.sizeBytes ≤ area.quota.usedSizeBytes := by omega
    rw [hlookup] at hshelf hmeasured
    simp only [if_pos hfits,hshelf,Option.map_some,Option.elim_some] at hmeasured ⊢
    refine ⟨rfl,hmeasured,?_,?_,?_⟩
    · intro key' item' hlookup'
      exact h.lasting key' item' (lookup_of_erase hlookup').2
    · rw [mapValues_erase,h.items]
    · rw [← h.charged,← h.sizes key item hlookup]
      rfl

theorem Shelved.answer (h : Shelved kind area shelf) (now : ℕ) (order : IterationOrder Str) (request : ItemRequest) :
    (area.answer now order request).1 = (shelf.perform kind.maxSize order request).1 ∧
      Shelved kind (area.answer now order request).2 (shelf.perform kind.maxSize order request).2 := by
  cases request with
  | setItem key value => exact h.setItem key value
  | getItem key =>
    rw [StorageArea.answer,h.get]
    exact ⟨rfl,h⟩
  | removeItem key => exact h.removeItem key
  | clear => exact ⟨rfl,h.toMeasured.perform .clear 0,nofun,rfl,rfl⟩
  | length =>
    rw [StorageArea.answer,h.keys]
    exact ⟨rfl,h⟩
  | key index =>
    rw [StorageArea.answer,h.keys]
    exact ⟨rfl,h⟩
  | hasKey key =>
    rw [StorageArea.answer,h.get]
    exact ⟨rfl,h⟩

end Shelves

section Cleanup

variable {s : StorageBridge}

def Lasting (area : StorageArea) : Prop := ∀ key item, area.items.lookup key = some item → item.expiresTimestamp = none

theorem Lasting.cleanup (h : Lasting area) (now : ℕ) (order : IterationOrder Str) :
    area.cleanup now order = (.ok (),area) := by
  have hnone : ((order area.items.keys).1.filter fun key => (area.items.lookup key).any (·.isExpired now)) = [] := by
    apply List.filter_eq_nil_iff.mpr
    intro key _
    cases hlookup : area.items.lookup key with
    | none => simp
    | some item => simp [StorageItem.isExpired,h key item hlookup]
  rw [StorageArea.cleanup,hnone,StorageArea.removeAll]

theorem cleanup_lasting {storage : OriginStorage} (h : ∀ kind, Lasting (storage.area kind)) (now : ℕ)
    (order : IterationOrder Str) : storage.cleanup now order = (.ok (),storage) := by
  rw [OriginStorage.cleanup,(h .localStorage).cleanup]
  simp only [setArea_area,(h .sessionStorage).cleanup]

/-- Each storage is put back as it was. -/
theorem cleanupStorages_lasting (h : ∀ key kind, Lasting (s.areaOf key kind)) (now : ℕ) (order : IterationOrder Str)
    (keys : List Str) : (s.cleanupStorages now order keys).1 = .ok () ∧
      (s.cleanupStorages now order keys).2.areaOf = s.areaOf := by
  induction keys generalizing s with
  | nil => exact ⟨rfl,rfl⟩
  | cons key keys ih =>
    rw [StorageBridge.cleanupStorages]
    cases hlookup : s.originStorages.lookup key with
    | none => exact ih h
    | some storage =>
      have hstorage (kind : StorageKind) : s.areaOf key kind = storage.area kind := by
        rw [StorageBridge.areaOf,hlookup]
        rfl
      have hareas : StorageBridge.areaOf { s with originStorages := s.originStorages.insert key storage } = s.areaOf := by
        funext key' kind
        rw [areaOf_insert]
        split
        · rename_i hkey
          rw [hkey,hstorage]
        · rfl
      have hcleanup := cleanup_lasting (fun kind => hstorage kind ▸ h key kind) now order
      simp only [hcleanup]
      rw [← hareas] at h
      obtain ⟨hok,hsame⟩ := ih h
      exact ⟨hok,hsame.trans hareas⟩

end Cleanup

section Handles

/-- Nothing in the copy of the manager expires. -/
def Unexpiring (s : StorageManager) : Prop := ∀ key kind, Lasting (s.storageBridge.areaOf key kind)

/-- The objects have the origins that were asked for last, and what their bridge stores for an
origin is on its shelf. -/
structure Stocked (s : StorageManager) (latest : StorageKind → Origin) (shelves : Shelves) : Prop where
  localStorage : s.localStorageApi.origin = latest .localStorage
  sessionStorage : s.sessionStorageApi.origin = latest .sessionStorage
  unexpiring : Unexpiring s
  shelved : ∃ apiBridge, s.apiBridge = some apiBridge ∧ ∀ key kind, Shelved kind (apiBridge.areaOf key kind) (shelves key kind)

variable {s : StorageManager} {latest : StorageKind → Origin} {shelves : Shelves}

/-- A request to one storage is one to the shelf in its place. -/
theorem shelved_use {b b' : StorageBridge} {answer : Answer} {origin : Origin} {request : ItemRequest}
    (h : ∀ key kind, Shelved kind (b.areaOf key kind) (shelves key kind))
    (hon : OnArea b b' answer origin kind (·.answer now order request)) :
    answer = (shelves.perform (.use ⟨kind,origin⟩ now order request)).1 ∧ ∀ key kind',
      Shelved kind' (b'.areaOf key kind') ((shelves.perform (.use ⟨kind,origin⟩ now order request)).2 key kind') := by
  have hanswer := (h origin.format kind).answer now order request
  refine ⟨hon.answer.trans hanswer.1,fun key kind' => ?_⟩
  rw [hon.areas,Shelves.perform]
  dsimp only
  split
  · rename_i hsame
    obtain ⟨rfl,rfl⟩ := hsame
    exact hanswer.2
  · exact h key kind'

theorem Unexpiring.clear (h : Unexpiring s) (origin : Origin) : Unexpiring (s.clearOriginStorage origin) := by
  have hclear {b : StorageBridge} (hb : ∀ key kind, Lasting (b.areaOf key kind)) (kind' : StorageKind) (key : Str)
      (kind : StorageKind) : Lasting ((b.withArea origin kind' fun area => ((),area.clear)).2.areaOf key kind) := by
    rw [areaOf_withArea]
    split
    · exact nofun
    · exact hb key kind
  exact hclear (hclear h .localStorage) .sessionStorage

/-- There is nothing to clean up. -/
theorem Unexpiring.cleanup (h : Unexpiring s) (now : ℕ) (order : IterationOrder Str) :
    (s.cleanupExpired now order).1 = .ok () ∧ Unexpiring (s.cleanupExpired now order).2 := by
  have hlasting (key : Str) (kind : StorageKind) :
      Lasting ((s.storageBridge.cleanupExpiredCookies now).areaOf key kind) := h key kind
  obtain ⟨hok,hareas⟩ := cleanupStorages_lasting hlasting now order
    (order (s.storageBridge.cleanupExpiredCookies now).originStorages.keys).1
  refine ⟨hok,fun key kind => ?_⟩
  have hkept : (s.storageBridge.cleanupExpiredData now order).2.areaOf key kind = s.storageBridge.areaOf key kind :=
    congrFun (congrFun hareas key) kind
  exact (congrArg Lasting hkept).mpr (h key kind)

theorem readdress_simulates : Simulates StorageManager.perform readdress Shelves.perform Stocked := by
  have hstep {s : StorageManager} {latest : StorageKind → Origin} {shelves : Shelves} (h : Stocked s latest shelves)
      (call : HandleCall) : (s.perform call).1 = (shelves.perform (readdress latest call).1).1 ∧
        Stocked (s.perform call).2 (readdress latest call).2 (shelves.perform (readdress latest call).1).2 := by
    obtain ⟨hlocal,hsession,hcopy,apiBridge,hbridge,hshelved⟩ := h
    cases call with
    | getStorage kind origin =>
      cases kind with
      | localStorage => exact ⟨rfl,rfl,hsession,hcopy,apiBridge,hbridge,hshelved⟩
      | sessionStorage => exact ⟨rfl,hlocal,rfl,hcopy,apiBridge,hbridge,hshelved⟩
    | use handle now order request =>
      obtain ⟨kind,obtainedFor⟩ := handle
      rw [StorageManager.perform,hbridge]
      cases kind with
      | localStorage =>
        have hon := localStorage_onArea s.localStorageApi apiBridge now order request
        rw [hlocal] at hon
        exact ⟨(shelved_use hshelved hon).1,hlocal,hsession,hcopy,_,rfl,(shelved_use hshelved hon).2⟩
      | sessionStorage =>
        have hon := sessionStorage_onArea s.sessionStorageApi apiBridge now order request
        rw [hsession] at hon
        exact ⟨(shelved_use hshelved hon).1,hlocal,hsession,hcopy,_,rfl,(shelved_use hshelved hon).2⟩
    | clearOriginStorage origin => exact ⟨rfl,hlocal,hsession,hcopy.clear origin,apiBridge,hbridge,hshelved⟩
    | cleanupExpired now order =>
      obtain ⟨hok,hunexpiring⟩ := hcopy.cleanup now order
      exact ⟨congrArg Answer.done hok,hlocal,hsession,hunexpiring,apiBridge,hbridge,hshelved⟩
  exact ⟨fun h call => (hstep h call).1,fun h call => (hstep h call).2⟩

/-- Without a bridge, the calls through handles have no answer. -/
theorem answers_lost (hunexpiring : Unexpiring s) (hgone : s.apiBridge = none) (calls : List HandleCall) :
    answers StorageManager.perform s calls = calls.map HandleCall.lost := by
  induction calls generalizing s with
  | nil => rfl
  | cons call calls ih =>
    have hstep : (s.perform call).1 = call.lost ∧ Unexpiring (s.perform call).2 ∧ (s.perform call).2.apiBridge = none := by
      cases call with
      | getStorage kind origin =>
        cases kind with
        | localStorage => exact ⟨rfl,hunexpiring,hgone⟩
        | sessionStorage => exact ⟨rfl,hunexpiring,hgone⟩
      | use handle now order request =>
        rw [StorageManager.perform,hgone]
        exact ⟨rfl,hunexpiring,hgone⟩
      | clearOriginStorage origin => exact ⟨rfl,hunexpiring.clear origin,hgone⟩
      | cleanupExpired now order =>
        obtain ⟨hok,hcleaned⟩ := hunexpiring.cleanup now order
        exact ⟨congrArg Answer.done hok,hcleaned,hgone⟩
    obtain ⟨hanswer,hunexpiring,hgone⟩ := hstep
    rw [answers,hanswer,ih hunexpiring hgone,List.map_cons]

def contextOrigin : Origin := ⟨ascii "https".toList,ascii "browser-context.com".toList,443⟩

theorem init_eq : StorageManager.init = .ok ⟨.init,⟨contextOrigin⟩,⟨contextOrigin⟩,none⟩ := by
  have hparse : Origin.parse contextUrl = .ok contextOrigin := by rfl
  rw [StorageManager.init,hparse]

def emptyShelves : Shelves := fun _ _ => ⟨∅,0⟩

theorem unexpiring_init (origin : Origin) (apiBridge : Option StorageBridge) :
    Unexpiring ⟨.init,⟨origin⟩,⟨origin⟩,apiBridge⟩ := fun _ kind => (Shelved.init kind).lasting

theorem stocked_init (origin : Origin) :
    Stocked ⟨.init,⟨origin⟩,⟨origin⟩,some .init⟩ (fun _ => origin) emptyShelves :=
  ⟨rfl,rfl,unexpiring_init origin _,.init,rfl,fun _ kind => .init kind⟩

/-- The bridge that the handles of a new manager work on is gone. Were it in place, a call
through a handle would be one to the storage of the origin that was asked for last, also where
the handle was obtained for another one, whatever the manager clears; and the handles would
work each for its own origin when they are only used while that is the one that was asked for
last. -/
theorem handles_shared (calls : List HandleCall) : ∃ manager, StorageManager.init = .ok manager ∧
    answers StorageManager.perform manager calls = calls.map HandleCall.lost ∧
    answers StorageManager.perform { manager with apiBridge := some .init } calls =
      answers Shelves.perform emptyShelves (answers readdress (fun _ => contextOrigin) calls) ∧
    (Along (fun latest call => (readdress latest call).2) Fresh (fun _ => contextOrigin) calls →
      answers StorageManager.perform { manager with apiBridge := some .init } calls =
        answers Shelves.perform emptyShelves calls) := by
  have hanswers := readdress_simulates.answers_eq (stocked_init contextOrigin) calls
  refine ⟨_,init_eq,answers_lost (unexpiring_init contextOrigin none) rfl calls,hanswers,fun hfresh => hanswers.trans ?_⟩
  have hself (latest : StorageKind → Origin) (call : HandleCall) (h : Fresh latest call) :
      (readdress latest call).1 = call := by
    cases call with
    | use handle now order request =>
      obtain ⟨kind,obtainedFor⟩ := handle
      change obtainedFor = latest kind at h
      rw [h]
      rfl
    | getStorage kind origin => rfl
    | clearOriginStorage origin => rfl
    | cleanupExpired now order => rfl
  have halong := Along.of_inv (I:=fun _ => True) (fun latest call _ h => ⟨hself latest call h,trivial⟩) trivial hfresh
  rw [answers_self halong]

end Handles

end ZNet.Storage
