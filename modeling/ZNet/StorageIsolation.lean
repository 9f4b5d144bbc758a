import ZNet.StorageBridge
import ZNet.Isolation
import ZNet.Runs

/-!
# Isolation of web storage

A call on the web storage of an origin works on what is stored under the text of the
origin. The texts of different parsed origins differ, so that each origin is isolated.
-/

namespace ZNet.Storage
open TextScan Origins Tables Isolation Runs

inductive Request
  | get (key : Str)
  | set (key value : Str)
  | remove (key : Str)
  | clear
  | setExpiration (key : Str) (expiresInMs : ℕ)

inductive Outcome
  | value (value : Option Str)
  | done (result : Except StorageFailure Unit)

structure StorageCall where
  kind : StorageKind
  origin : Origin
  request : Request
  now : ℕ

namespace StorageBridge

def perform (self : StorageBridge) (call : StorageCall) : Outcome×StorageBridge :=
  match call.kind,call.request with
  | .localStorage,.get key =>
    let (value,self) := self.localStorageGet call.origin key call.now
    (.value value,self)
  | .localStorage,.set key value =>
    let (result,self) := self.localStorageSet call.origin key value call.now
    (.done result,self)
  | .localStorage,.remove key =>
    let (result,self) := self.localStorageRemove call.origin key
    (.done result,self)
  | .localStorage,.clear => (.done (.ok ()),(self.localStorageClear call.origin).2)
  | .sessionStorage,.get key =>
    let (value,self) := self.sessionStorageGet call.origin key call.now
    (.value value,self)
  | .sessionStorage,.set key value =>
    let (result,self) := self.sessionStorageSet call.origin key value call.now
    (.done result,self)
  | .sessionStorage,.remove key =>
    let (result,self) := self.sessionStorageRemove call.origin key
    (.done result,self)
  | .sessionStorage,.clear => (.done (.ok ()),(self.sessionStorageClear call.origin).2)
  | kind,.setExpiration key expiresInMs =>
    (.done (.ok ()),(self.setExpiration call.origin kind key expiresInMs call.now).2)

/-- What is stored under a key, or would be stored there first. -/
def areaOf (self : StorageBridge) (key : Str) (kind : StorageKind) : StorageArea :=
  ((self.originStorages.lookup key).map (·.area kind)).getD (.init kind)

end StorageBridge

/-- The part of a call that works on one storage. -/
def StorageArea.perform (area : StorageArea) (request : Request) (now : ℕ) : Outcome×StorageArea :=
  match request with
  | .get key =>
    let (value,area) := area.get key now
    (.value value,area)
  | .set key value =>
    let (result,area) := area.set key value now
    (.done result,area)
  | .remove key =>
    let (result,area) := area.remove key
    (.done result,area)
  | .clear => (.done (.ok ()),area.clear)
  | .setExpiration key expiresInMs => (.done (.ok ()),area.setExpiration key expiresInMs now)

variable {s : StorageBridge} {kind kind' : StorageKind}

section Areas

theorem area_setArea (storage : OriginStorage) (area : StorageArea) :
    (storage.setArea kind area).area kind' = if kind' = kind then area else storage.area kind' := by
  cases kind with
  | localStorage => cases kind' <;> rfl
  | sessionStorage => cases kind' <;> rfl

theorem setArea_area (storage : OriginStorage) (kind : StorageKind) :
    storage.setArea kind (storage.area kind) = storage := by
  cases kind with
  | localStorage => rfl
  | sessionStorage => rfl

theorem origin_setArea (storage : OriginStorage) (area : StorageArea) :
    (storage.setArea kind area).origin = storage.origin := by
  cases kind with
  | localStorage => rfl
  | sessionStorage => rfl

theorem area_init (origin : Origin) (kind : StorageKind) : (OriginStorage.init origin).area kind = .init kind := by
  cases kind with
  | localStorage => rfl
  | sessionStorage => rfl

theorem getOriginStorage_area (s : StorageBridge) (origin : Origin) (kind : StorageKind) :
    (s.getOriginStorage origin).1.area kind = s.areaOf origin.format kind := by
  rw [StorageBridge.getOriginStorage,StorageBridge.areaOf]
  cases s.originStorages.lookup origin.format with
  | none => exact area_init origin kind
  | some storage => rfl

theorem lookup_getOriginStorage {key : Str} (s : StorageBridge) (origin : Origin) (hne : key ≠ origin.format) :
    (s.getOriginStorage origin).2.originStorages.lookup key = s.originStorages.lookup key := by
  rw [StorageBridge.getOriginStorage]
  split
  · rfl
  · exact AList.lookup_insert_ne hne

/-- The result of an operation depends on the storage it works on. -/
theorem withArea_fst {β : Type} (s : StorageBridge) (origin : Origin) (kind : StorageKind)
    (f : StorageArea → β×StorageArea) : (s.withArea origin kind f).1 = (f (s.areaOf origin.format kind)).1 := by
  rw [← getOriginStorage_area]
  rfl

/-- An operation changes the storage it works on and no other. -/
theorem areaOf_withArea {β : Type} (s : StorageBridge) (origin : Origin) (f : StorageArea → β×StorageArea)
    (key : Str) (kind' : StorageKind) : (s.withArea origin kind f).2.areaOf key kind' =
      if key = origin.format ∧ kind' = kind then (f (s.areaOf key kind')).2 else s.areaOf key kind' := by
  have hlookup : (s.withArea origin kind f).2.originStorages.lookup key =
      if key = origin.format then some ((s.getOriginStorage origin).1.setArea kind
        (f ((s.getOriginStorage origin).1.area kind)).2)
      else (s.getOriginStorage origin).2.originStorages.lookup key := lookup_insert_eq ..
  rw [StorageBridge.areaOf,hlookup]
  by_cases hkey : key = origin.format
  · subst hkey
    rw [if_pos rfl,Option.map_some,Option.getD_some,area_setArea,getOriginStorage_area,getOriginStorage_area]
    by_cases hkind : kind' = kind
    · rw [if_pos hkind,if_pos ⟨rfl,hkind⟩,hkind]
    · rw [if_neg hkind,if_neg fun h => hkind h.2]
  · rw [if_neg hkey,if_neg fun h => hkey h.1,lookup_getOriginStorage s origin hkey]
    rfl

/-- A call is the part that works on one storage, in its place. -/
theorem perform_eq (s : StorageBridge) (call : StorageCall) :
    s.perform call = s.withArea call.origin call.kind (·.perform call.request call.now) := by
  obtain ⟨kind,origin,request,now⟩ := call
  cases kind with
  | localStorage => cases request <;> rfl
  | sessionStorage => cases request <;> rfl

end Areas

section Keys

/-- What is stored under a key is the storage of the origin whose text the key is. -/
def Keyed (s : StorageBridge) : Prop :=
  ∀ key storage, s.originStorages.lookup key = some storage → key = storage.origin.format

theorem Keyed.withArea {β : Type} (h : Keyed s) (origin : Origin) (kind : StorageKind)
    (f : StorageArea → β×StorageArea) : Keyed (s.withArea origin kind f).2 := by
  intro key storage hlookup
  by_cases hkey : key = origin.format
  · subst hkey
    have hinsert : (s.withArea origin kind f).2.originStorages.lookup origin.format =
        some ((s.getOriginStorage origin).1.setArea kind (f ((s.getOriginStorage origin).1.area kind)).2) :=
      AList.lookup_insert _
    rw [hinsert,Option.some.injEq] at hlookup
    rw [← hlookup,origin_setArea,StorageBridge.getOriginStorage]
    split
    · rename_i existing hexisting
      exact h _ existing hexisting
    · rfl
  · have hother : (s.withArea origin kind f).2.originStorages.lookup key = s.originStorages.lookup key :=
      (AList.lookup_insert_ne hkey).trans (lookup_getOriginStorage s origin hkey)
    exact h key storage (hother ▸ hlookup)

theorem Keyed.perform (h : Keyed s) (call : StorageCall) : Keyed (s.perform call).2 := by
  rw [perform_eq]
  exact h.withArea call.origin call.kind _

end Keys

/-- A call by an origin that was parsed. -/
structure ParsedCall extends StorageCall where
  parsed : ∃ url, Origin.parse url = .ok origin

def ParsedCall.by (call : ParsedCall) : ParsedOrigin := ⟨call.origin,call.parsed⟩

def parsedPerform (s : StorageBridge) (call : ParsedCall) : Outcome×StorageBridge := s.perform call.toStorageCall

/-- The calls of one origin to one kind of storage. -/
def ownCall (o : ParsedOrigin) (kind : StorageKind) (call : ParsedCall) : Bool :=
  decide (call.by = o ∧ call.kind = kind)

theorem isolated (o : ParsedOrigin) (kind : StorageKind) :
    Isolated parsedPerform (ownCall o kind) (·.areaOf o.origin.format kind) := by
  constructor
  · intro s s' call hown hview
    obtain ⟨rfl,rfl⟩ := of_decide_eq_true hown
    rw [parsedPerform,parsedPerform,perform_eq,perform_eq,withArea_fst,withArea_fst]
    exact congrArg (fun area : StorageArea => (area.perform call.request call.now).1) hview
  · intro s s' call hown hview
    obtain ⟨rfl,rfl⟩ := of_decide_eq_true hown
    rw [parsedPerform,parsedPerform,perform_eq,perform_eq,areaOf_withArea,areaOf_withArea,hview]
  · intro s call hother
    rw [parsedPerform,perform_eq,areaOf_withArea,if_neg]
    rintro ⟨hkey,hkind⟩
    exact of_decide_eq_false hother ⟨(format_injective hkey).symm,hkind.symm⟩

/-- What the calls of an origin to one kind of storage return in a run is what they return
without the calls of others and to the other kind, and the keys of the storages tell the
origins apart. -/
theorem storage_isolated :
    (∀ (calls : List ParsedCall) (o : ParsedOrigin) (kind : StorageKind),
      (trace parsedPerform .init calls).filter (fun call => ownCall o kind call.1) =
        trace parsedPerform .init (calls.filter (ownCall o kind))) ∧
    (∀ o o' : ParsedOrigin, o ≠ o' → o.origin.format ≠ o'.origin.format) ∧
    ∀ (calls : List ParsedCall) key storage,
      (calls.foldl (fun s call => (parsedPerform s call).2) .init).originStorages.lookup key = some storage →
        key = storage.origin.format := by
  refine ⟨fun calls o kind => (isolated o kind).filter_trace rfl calls,?_,?_⟩
  · intro o o' hne hkey
    exact hne (format_injective hkey)
  · intro calls
    have hinit : Keyed .init := fun key storage hlookup => by cases hlookup
    have hstep : ∀ (s : StorageBridge) (call : ParsedCall), Keyed s → Keyed (parsedPerform s call).2 :=
      fun s call h => h.perform call.toStorageCall
    exact run_inv hstep hinit calls

/-- The origin of `http://a`, and below the one of `http://a:8080`. -/
def hostOrigin : ParsedOrigin := ⟨⟨ascii "http".toList,ascii "a".toList,80⟩,ascii "http://a".toList,by decide⟩

def portOrigin : ParsedOrigin := ⟨⟨ascii "http".toList,ascii "a".toList,8080⟩,ascii "http://a:8080".toList,by decide⟩

def localCall (o : ParsedOrigin) (request : Request) : ParsedCall := ⟨⟨.localStorage,o.origin,request,0⟩,o.parsed⟩

/-- Both set the same key, and each gets its own value. -/
theorem storage_isolated_ports :
    (trace parsedPerform .init [localCall hostOrigin (.set [0x6b] [0x31]),localCall portOrigin (.set [0x6b] [0x32]),
        localCall hostOrigin (.get [0x6b])]).filter (fun call => ownCall hostOrigin .localStorage call.1) =
      trace parsedPerform .init [localCall hostOrigin (.set [0x6b] [0x31]),localCall hostOrigin (.get [0x6b])] ∧
    hostOrigin.origin.format ≠ portOrigin.origin.format :=
  ⟨storage_isolated.1 [localCall hostOrigin (.set [0x6b] [0x31]),localCall portOrigin (.set [0x6b] [0x32]),
    localCall hostOrigin (.get [0x6b])] hostOrigin .localStorage,storage_isolated.2.1 hostOrigin portOrigin (by decide)⟩

end ZNet.Storage
