import ZNet.StorageQuotas
import ZNet.CookiePartitions

/-!
# The storage manager

The manager's data is that of its bridge. The data of an origin can be exported and
imported: the items of both storages, and the cookies that match the text of the origin.
-/

namespace ZNet.Storage
open Origins Tables Runs

structure StorageExport where
  localStorage : Table Str Str
  sessionStorage : Table Str Str
  cookies : List Cookie

/-- The keys and values in the order of an iteration. -/
def pairsIn (order : IterationOrder Str) (m : Table Str Str) : List (Str×Str) :=
  (order m.keys).1.filterMap fun key => (m.lookup key).map fun value => (key,value)

namespace StorageBridge

def localStorageKeys (self : StorageBridge) (origin : Origin) (order : IterationOrder Str) : List Str×StorageBridge :=
  let (storage,self) := self.getOriginStorage origin
  ((order storage.localStorage.keys).1,self)

/-- An item that has expired is left out, and removed. -/
def exportItem (origin : Origin) (now : ℕ) (exported : Table Str Str×StorageBridge) (key : Str) :
    Table Str Str×StorageBridge :=
  match exported.2.localStorageGet origin key now with
  | (some value,self) => (exported.1.insert key value,self)
  | (none,self) => (exported.1,self)

/-- The cookies of all partitions that match the text of the origin. -/
def exportCookies (self : StorageBridge) (origin : Origin) (order : IterationOrder Str) : List Cookie :=
  (valuesIn order self.cookieJar).flatMap fun partition =>
    (valuesIn order partition.cookies).filter fun cookie => cookie.matchesUrl origin.format

/-- The items of the session storage are exported whether they have expired or not. -/
def exportOriginData (self : StorageBridge) (origin : Origin) (now : ℕ) (order : IterationOrder Str) :
    StorageExport×StorageBridge :=
  let (keys,self) := self.localStorageKeys origin order
  let (localItems,self) := keys.foldl (exportItem origin now) (∅,self)
  let (storage,self) := self.getOriginStorage origin
  (⟨localItems,mapValues (·.value) storage.sessionStorage,self.exportCookies origin order⟩,self)

/-- The loop over the items, which ends at the first that is refused. -/
def importItems (set : StorageBridge → Str → Str → Except StorageFailure Unit×StorageBridge) (self : StorageBridge) :
    List (Str×Str) → Except StorageFailure Unit×StorageBridge
  | [] => (.ok (),self)
  | (key,value)::items =>
    match set self key value with
    | (.ok (),self) => importItems set self items
    | (.error e,self) => (.error e,self)

/-- The origin is taken for the top-level site too. -/
def importCookies (self : StorageBridge) (origin : Origin) (now : ℕ) (cookies : List Cookie) : StorageBridge :=
  cookies.foldl (fun self cookie => self.setCookie cookie origin.format origin.format now) self

def importOriginData (self : StorageBridge) (origin : Origin) (exported : StorageExport) (now : ℕ)
    (order : IterationOrder Str) : Except StorageFailure Unit×StorageBridge :=
  match self.importItems (fun self key value => self.localStorageSet origin key value now)
      (pairsIn order exported.localStorage) with
  | (.error e,self) => (.error e,self)
  | (.ok (),self) =>
    match self.importItems (fun self key value => self.sessionStorageSet origin key value now)
        (pairsIn order exported.sessionStorage) with
    | (.error e,self) => (.error e,self)
    | (.ok (),self) => (.ok (),self.importCookies origin now exported.cookies)

def clearOriginStorage (self : StorageBridge) (origin : Origin) : StorageBridge :=
  ((self.localStorageClear origin).2.sessionStorageClear origin).2

end StorageBridge

inductive ManagerCall
  | storage (call : StorageCall)
  | cookie (call : CookieCall)
  | cleanupExpired (now : ℕ) (order : IterationOrder Str)
  | clearOriginStorage (origin : Origin)
  | exportOriginData (origin : Origin) (now : ℕ) (order : IterationOrder Str)
  | importOriginData (origin : Origin) (exported : StorageExport) (now : ℕ) (order : IterationOrder Str)

def managerStep (s : StorageBridge) : ManagerCall → StorageBridge
  | .storage call => (s.perform call).2
  | .cookie call => (s.cookiePerform call).2
  | .cleanupExpired now order => (s.cleanupExpiredData now order).2
  | .clearOriginStorage origin => s.clearOriginStorage origin
  | .exportOriginData origin now order => (s.exportOriginData origin now order).2
  | .importOriginData origin exported now order => (s.importOriginData origin exported now order).2

variable {s : StorageBridge} {P : StorageKind → StorageArea → Prop}

/-- A property of the storages that every request keeps. -/
structure Kept (P : StorageKind → StorageArea → Prop) : Prop where
  init : ∀ kind, P kind (.init kind)
  perform : ∀ kind area request now, P kind area → P kind (area.perform request now).2

/-- All storages have the property, and the cookies lie under their names. -/
structure Sound (P : StorageKind → StorageArea → Prop) (s : StorageBridge) : Prop where
  areas : ∀ key kind, P kind (s.areaOf key kind)
  named : ∀ key name cookie, cookieAt s key name = some cookie → cookie.name = name

section Frames

theorem cookieJar_getOriginStorage (s : StorageBridge) (origin : Origin) :
    (s.getOriginStorage origin).2.cookieJar = s.cookieJar := by
  rw [StorageBridge.getOriginStorage]
  split <;> rfl

theorem areaOf_getOriginStorage (s : StorageBridge) (origin : Origin) (key : Str) (kind : StorageKind) :
    (s.getOriginStorage origin).2.areaOf key kind = s.areaOf key kind := by
  rw [StorageBridge.getOriginStorage]
  cases hlookup : s.originStorages.lookup origin.format with
  | some storage => rfl
  | none =>
    dsimp only
    rw [areaOf_insert]
    split
    · rename_i hkey
      rw [StorageBridge.areaOf,hkey,hlookup,area_init]
      rfl
    · rfl

theorem cookieJar_withArea {β : Type} (s : StorageBridge) (origin : Origin) (kind : StorageKind)
    (f : StorageArea → β×StorageArea) : (s.withArea origin kind f).2.cookieJar = s.cookieJar :=
  cookieJar_getOriginStorage s origin

/-- An operation on one storage keeps everything sound if it keeps that storage so. -/
theorem Sound.withArea {β : Type} (h : Sound P s) (origin : Origin) {kind : StorageKind}
    {f : StorageArea → β×StorageArea} (hf : ∀ area, P kind area → P kind (f area).2) : Sound P (s.withArea origin kind f).2 := by
  constructor
  · intro key kind'
    rw [areaOf_withArea]
    split
    · rename_i hplace
      obtain ⟨-,rfl⟩ := hplace
      exact hf _ (h.areas key kind')
    · exact h.areas key kind'
  · intro key name cookie hstored
    rw [cookieAt,cookieJar_withArea] at hstored
    exact h.named key name cookie hstored

theorem Sound.getOriginStorage (h : Sound P s) (origin : Origin) : Sound P (s.getOriginStorage origin).2 := by
  constructor
  · intro key kind
    rw [areaOf_getOriginStorage]
    exact h.areas key kind
  · intro key name cookie hstored
    rw [cookieAt,cookieJar_getOriginStorage] at hstored
    exact h.named key name cookie hstored

theorem originStorages_cookiePerform (s : StorageBridge) (call : CookieCall) :
    (s.cookiePerform call).2.originStorages = s.originStorages := by
  obtain ⟨pair,request,now⟩ := call
  have hdelete : ∀ name, (s.deleteCookie name pair.topLevelSite pair.origin).originStorages = s.originStorages := by
    intro name
    rw [StorageBridge.deleteCookie]
    split <;> rfl
  cases request with
  | setCookie cookie => rfl
  | getCookiesForUrl url => rfl
  | deleteCookie name => exact hdelete name
  | getCookie name =>
    rw [StorageBridge.cookiePerform]
    simp only [getCookie_eq]
    split
    · exact hdelete name
    · rfl

theorem Sound.cookiePerform (h : Sound P s) (call : CookieCall) : Sound P (s.cookiePerform call).2 := by
  constructor
  · intro key kind
    rw [StorageBridge.areaOf,originStorages_cookiePerform]
    exact h.areas key kind
  · intro key name cookie hstored
    rcases stored_cases hstored with ⟨-,-,hname⟩ | ⟨hbefore,-⟩
    · exact hname.symm
    · exact h.named key name cookie hbefore

theorem Sound.cleanupExpiredCookies (h : Sound P s) (now : ℕ) : Sound P (s.cleanupExpiredCookies now) := by
  refine ⟨h.areas,fun key name cookie hstored => ?_⟩
  rw [cookieAt_cleanup] at hstored
  exact h.named key name cookie (Option.filter_eq_some_iff.mp hstored).1

end Frames

section Cleanup

theorem cookieJar_cleanupStorages (s : StorageBridge) (now : ℕ) (order : IterationOrder Str) (keys : List Str) :
    (s.cleanupStorages now order keys).2.cookieJar = s.cookieJar := by
  induction keys generalizing s with
  | nil => rfl
  | cons key keys ih =>
    rw [StorageBridge.cleanupStorages]
    cases s.originStorages.lookup key with
    | none => exact ih s
    | some storage =>
      dsimp only
      split
      · exact ih _
      · rfl

theorem Kept.removable (hP : Kept P) : Removable (fun _ => True) P :=
  ⟨trivial,fun kind area key h => ⟨trivial,hP.perform kind area (.remove key) 0 h⟩⟩

theorem Kept.cleanupStorages (hP : Kept P) (h : Sound P s) (now : ℕ) (order : IterationOrder Str) (keys : List Str) :
    Sound P (s.cleanupStorages now order keys).2 := by
  refine ⟨(hP.removable.cleanupStorages h.areas now order keys).2,fun key name cookie hstored => ?_⟩
  rw [cookieAt,cookieJar_cleanupStorages] at hstored
  exact h.named key name cookie hstored

end Cleanup

section Transfer

theorem Kept.exportItems (hP : Kept P) {exported : Table Str Str×StorageBridge} (h : Sound P exported.2)
    (origin : Origin) (now : ℕ) (keys : List Str) : Sound P (keys.foldl (StorageBridge.exportItem origin now) exported).2 := by
  induction keys generalizing exported with
  | nil => exact h
  | cons key keys ih =>
    have hget : Sound P (exported.2.localStorageGet origin key now).2 :=
      h.withArea origin fun area => hP.perform .localStorage area (.get key) now
    apply ih
    rw [StorageBridge.exportItem]
    split
    · rename_i hvalue
      rw [hvalue] at hget
      exact hget
    · rename_i hvalue
      rw [hvalue] at hget
      exact hget

theorem Sound.importItems {f : StorageBridge → Str → Str → Except StorageFailure Unit×StorageBridge}
    (hset : ∀ s key value, Sound P s → Sound P (f s key value).2) (h : Sound P s) (items : List (Str×Str)) :
    Sound P (s.importItems f items).2 := by
  induction items generalizing s with
  | nil => exact h
  | cons item items ih =>
    have hafter := hset s item.1 item.2 h
    rw [StorageBridge.importItems]
    split
    · rename_i hresult
      rw [hresult] at hafter
      exact ih hafter
    · rename_i hresult
      rw [hresult] at hafter
      exact hafter

theorem Sound.importCookies (h : Sound P s) (origin : Origin) (now : ℕ) (cookies : List Cookie) :
    Sound P (s.importCookies origin now cookies) := by
  induction cookies generalizing s with
  | nil => exact h
  | cons cookie cookies ih => exact ih (h.cookiePerform ⟨⟨origin.format,origin.format⟩,.setCookie cookie,now⟩)

theorem Kept.importOriginData (hP : Kept P) (h : Sound P s) (origin : Origin) (exported : StorageExport) (now : ℕ)
    (order : IterationOrder Str) : Sound P (s.importOriginData origin exported now order).2 := by
  have hlocal := h.importItems (f:=fun self key value => self.localStorageSet origin key value now)
    (fun s key value h => h.withArea origin fun area => hP.perform .localStorage area (.set key value) now)
    (pairsIn order exported.localStorage)
  rw [StorageBridge.importOriginData]
  split
  · rename_i hresult
    rw [hresult] at hlocal
    exact hlocal
  · rename_i hresult
    rw [hresult] at hlocal
    have hsession := hlocal.importItems (f:=fun self key value => self.sessionStorageSet origin key value now)
      (fun s key value h => h.withArea origin fun area => hP.perform .sessionStorage area (.set key value) now)
      (pairsIn order exported.sessionStorage)
    split
    · rename_i hresult
      rw [hresult] at hsession
      exact hsession
    · rename_i hresult
      rw [hresult] at hsession
      exact hsession.importCookies origin now exported.cookies

end Transfer

theorem Kept.step (hP : Kept P) (h : Sound P s) (call : ManagerCall) : Sound P (managerStep s call) := by
  cases call with
  | storage call =>
    rw [managerStep,perform_eq]
    exact h.withArea call.origin fun area => hP.perform call.kind area call.request call.now
  | cookie call => exact h.cookiePerform call
  | cleanupExpired now order => exact hP.cleanupStorages (h.cleanupExpiredCookies now) now order _
  | clearOriginStorage origin =>
    have hlocal : Sound P (s.localStorageClear origin).2 :=
      h.withArea origin fun area => hP.perform .localStorage area .clear 0
    exact hlocal.withArea origin fun area => hP.perform .sessionStorage area .clear 0
  | exportOriginData origin now order =>
    exact (hP.exportItems (h.getOriginStorage origin) origin now _).getOriginStorage origin
  | importOriginData origin exported now order => exact hP.importOriginData h origin exported now order

/-- What every request keeps holds of the storages in every run, and the cookies lie under
their names. -/
theorem Kept.run (hP : Kept P) (calls : List ManagerCall) : Sound P (run managerStep .init calls) := by
  apply run_inv (I:=Sound P) (fun s call h => hP.step h call)
  exact ⟨fun _ kind => hP.init kind,nofun⟩

end ZNet.Storage
