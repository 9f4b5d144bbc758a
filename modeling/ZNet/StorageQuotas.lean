import ZNet.StorageIsolation
import ZNet.Runs

/-!
# Quotas of web storage

The usage of a storage is an upper bound of what its items take: an overwritten item and an
item that is found expired are still counted.
-/

namespace ZNet.Storage
open Origins Tables Runs

/-- The usage bounds the sizes of the items and is within the quota. -/
structure QuotaSafe (area : StorageArea) : Prop where
  sizes : total (·.sizeBytes) area.items ≤ area.quota.usedSizeBytes
  limit : area.quota.usedSizeBytes ≤ area.quota.maxSizeBytes
  remaining : area.quota.remainingBytes = area.quota.maxSizeBytes-area.quota.usedSizeBytes

inductive BridgeCall
  | storage (call : StorageCall)
  | cleanupExpiredData (now : ℕ) (order : IterationOrder Str)

/-- What a call returns, where `cleanupExpiredData` returns nothing. -/
def bridgePerform (s : StorageBridge) : BridgeCall → Outcome×StorageBridge
  | .storage call => s.perform call
  | .cleanupExpiredData now order =>
    let (result,s) := s.cleanupExpiredData now order
    (.done result,s)

def bridgeStep (s : StorageBridge) (call : BridgeCall) : StorageBridge := (bridgePerform s call).2

/-- The origin has a storage, an empty one if it had none, and nothing else is changed. -/
structure OnlyCreates (s s' : StorageBridge) (origin : Origin) : Prop where
  rest : { s' with originStorages := s.originStorages } = s
  storages : ∀ key, s'.originStorages.lookup key = if key = origin.format then
    some ((s.originStorages.lookup key).getD (.init origin)) else s.originStorages.lookup key

/-- After the call every storage keeps to its quota; no subtraction has underflowed, and a
refusal has changed no item and no quota: at most it has created the storage of the origin. -/
structure Safe (s : StorageBridge) (call : BridgeCall) : Prop where
  quota : ∀ key kind, QuotaSafe ((bridgeStep s call).areaOf key kind)
  noUnderflow : (bridgePerform s call).1 ≠ .done (.error .trap)
  refused : (bridgePerform s call).1 = .done (.error .quotaExceeded) →
    ∀ key kind, (bridgeStep s call).areaOf key kind = s.areaOf key kind
  creates : (bridgePerform s call).1 = .done (.error .quotaExceeded) →
    ∃ storageCall, call = .storage storageCall ∧ OnlyCreates s (bridgeStep s call) storageCall.origin

variable {area : StorageArea} {s : StorageBridge} {key : Str}

section Areas

theorem quotaSafe_init (kind : StorageKind) : QuotaSafe (.init kind) := ⟨le_rfl,Nat.zero_le _,rfl⟩

/-- An update of the usage that stays within the quota. -/
theorem QuotaSafe.of_update {items : Table Str StorageItem} {quota : StorageQuota} {used : ℕ}
    (hsizes : total (·.sizeBytes) items ≤ used) (hlimit : used ≤ quota.maxSizeBytes) :
    QuotaSafe ⟨items,quota.updateUsage used⟩ where
  sizes := hsizes
  limit := hlimit
  remaining := if_neg (Nat.not_lt.mpr hlimit)

theorem QuotaSafe.erase (h : QuotaSafe area) (key : Str) : QuotaSafe { area with items := area.items.erase key } :=
  ⟨(total_erase_le _ _ key).trans h.sizes,h.limit,h.remaining⟩

theorem QuotaSafe.get (h : QuotaSafe area) (key : Str) (now : ℕ) : QuotaSafe (area.get key now).2 := by
  rw [StorageArea.get]
  split
  · exact h
  · split
    · exact h.erase key
    · exact h

theorem sizeBytes_init (key value : Str) (now : ℕ) :
    (StorageItem.init key value now).calculateSize.sizeBytes = key.length+value.length := Nat.add_zero _

/-- The new item replaces an old one, which stays in the usage. -/
theorem QuotaSafe.set (h : QuotaSafe area) (key value : Str) (now : ℕ) : QuotaSafe (area.set key value now).2 := by
  rw [StorageArea.set]
  split
  · rename_i hroom
    apply QuotaSafe.of_update
    · rw [total_insert,sizeBytes_init]
      have hold := (total_erase_le (·.sizeBytes) area.items key).trans h.sizes
      omega
    · exact of_decide_eq_true hroom
  · exact h

theorem set_noTrap (area : StorageArea) (key value : Str) (now : ℕ) : (area.set key value now).1 ≠ .error .trap := by
  rw [StorageArea.set]
  split
  · simp
  · simp

theorem set_refused {value : Str} {now : ℕ} (h : (area.set key value now).1 = .error .quotaExceeded) :
    (area.set key value now).2 = area := by
  rw [StorageArea.set] at h ⊢
  split
  · rename_i hroom
    rw [if_pos hroom] at h
    cases h
  · rfl

/-- A removed item is part of the usage, so that the subtraction does not underflow. -/
theorem QuotaSafe.remove (h : QuotaSafe area) (key : Str) :
    (area.remove key).1 = .ok () ∧ QuotaSafe (area.remove key).2 := by
  rw [StorageArea.remove]
  cases hlookup : area.items.lookup key with
  | none => exact ⟨rfl,h⟩
  | some item =>
    have hsum : total (·.sizeBytes) (area.items.erase key)+item.sizeBytes ≤ area.quota.usedSizeBytes :=
      (total_erase hlookup _).le.trans h.sizes
    have hlimit := h.limit
    have hfits : item.sizeBytes ≤ area.quota.usedSizeBytes := by omega
    simp only [if_pos hfits]
    refine ⟨trivial,QuotaSafe.of_update ?_ ?_⟩
    · omega
    · omega

theorem QuotaSafe.clear (h : QuotaSafe area) : QuotaSafe area.clear :=
  QuotaSafe.of_update le_rfl ((Nat.zero_le _).trans h.limit)

theorem QuotaSafe.setExpiration (h : QuotaSafe area) (key : Str) (expiresInMs now : ℕ) :
    QuotaSafe (area.setExpiration key expiresInMs now) := by
  rw [StorageArea.setExpiration]
  split
  · exact h
  · rename_i item hlookup
    refine ⟨?_,h.limit,h.remaining⟩
    have hsum := total_erase hlookup (·.sizeBytes)
    have hsizes := h.sizes
    rw [total_insert]
    simp only [StorageItem.setExpiration]
    omega

/-- What the requests to one storage keep. -/
theorem QuotaSafe.perform (h : QuotaSafe area) (request : Request) (now : ℕ) :
    QuotaSafe (area.perform request now).2 ∧ (area.perform request now).1 ≠ .done (.error .trap) ∧
    ((area.perform request now).1 = .done (.error .quotaExceeded) → (area.perform request now).2 = area) := by
  cases request with
  | get key =>
    refine ⟨h.get key now,?_,?_⟩
    · simp [StorageArea.perform]
    · simp [StorageArea.perform]
  | set key value =>
    refine ⟨h.set key value now,?_,?_⟩
    · intro htrap
      injection htrap with htrap
      exact set_noTrap area key value now htrap
    · intro hrefused
      injection hrefused with hrefused
      exact set_refused hrefused
  | remove key =>
    obtain ⟨hok,hsafe⟩ := h.remove key
    have houtcome : (area.perform (.remove key) now).1 = .done (.ok ()) := congrArg Outcome.done hok
    refine ⟨hsafe,?_,?_⟩
    · rw [houtcome]
      simp
    · rw [houtcome]
      simp
  | clear => exact ⟨h.clear,by simp [StorageArea.perform],by simp [StorageArea.perform]⟩
  | setExpiration key expiresInMs =>
    exact ⟨h.setExpiration key expiresInMs now,by simp [StorageArea.perform],by simp [StorageArea.perform]⟩

end Areas

section Cleanup

theorem setArea_forall {P : StorageKind → StorageArea → Prop} {storage : OriginStorage} {kind : StorageKind}
    (h : ∀ kind, P kind (storage.area kind)) (harea : P kind area) (kind' : StorageKind) :
    P kind' ((storage.setArea kind area).area kind') := by
  rw [area_setArea]
  split
  · rename_i hkind
    rw [hkind]
    exact harea
  · exact h kind'

/-- Removing an item keeps a property of the storages, and its outcome is as expected. -/
structure Removable (E : Except StorageFailure Unit → Prop) (P : StorageKind → StorageArea → Prop) : Prop where
  ok : E (.ok ())
  remove : ∀ kind area key, P kind area → E (area.remove key).1 ∧ P kind (area.remove key).2

variable {E : Except StorageFailure Unit → Prop} {P : StorageKind → StorageArea → Prop}

theorem Removable.removeAll (hP : Removable E P) {kind : StorageKind} (h : P kind area) (keys : List Str) :
    E (area.removeAll keys).1 ∧ P kind (area.removeAll keys).2 := by
  induction keys generalizing area with
  | nil => exact ⟨hP.ok,h⟩
  | cons key keys ih =>
    obtain ⟨hexpected,hremoved⟩ := hP.remove kind area key h
    rw [StorageArea.removeAll]
    split
    · rename_i hremove
      rw [hremove] at hremoved
      exact ih hremoved
    · rename_i hremove
      rw [hremove] at hexpected hremoved
      exact ⟨hexpected,hremoved⟩

theorem Removable.cleanup (hP : Removable E P) {storage : OriginStorage} (h : ∀ kind, P kind (storage.area kind))
    (now : ℕ) (order : IterationOrder Str) :
    E (storage.cleanup now order).1 ∧ ∀ kind, P kind ((storage.cleanup now order).2.area kind) := by
  have harea : ∀ (storage : OriginStorage) (kind : StorageKind), (∀ kind, P kind (storage.area kind)) →
      E ((storage.area kind).cleanup now order).1 ∧ P kind ((storage.area kind).cleanup now order).2 :=
    fun storage kind h => hP.removeAll (h kind) _
  obtain ⟨hexpected,hkept⟩ := harea storage .localStorage h
  rw [OriginStorage.cleanup]
  split
  · rename_i hcleanup
    rw [hcleanup] at hexpected hkept
    exact ⟨hexpected,setArea_forall h hkept⟩
  · rename_i hcleanup
    rw [hcleanup] at hkept
    have hlocal := setArea_forall h hkept
    obtain ⟨hexpected,hkept⟩ := harea _ .sessionStorage hlocal
    exact ⟨hexpected,setArea_forall hlocal hkept⟩

theorem areaOf_insert (s : StorageBridge) (key key' : Str) (storage : OriginStorage) (kind : StorageKind) :
    { s with originStorages := s.originStorages.insert key storage }.areaOf key' kind =
      if key' = key then storage.area kind else s.areaOf key' kind := by
  rw [StorageBridge.areaOf,lookup_insert_eq]
  split
  · rfl
  · rfl

theorem Removable.cleanupStorages (hP : Removable E P) (h : ∀ key kind, P kind (s.areaOf key kind)) (now : ℕ)
    (order : IterationOrder Str) (keys : List Str) : E (s.cleanupStorages now order keys).1 ∧
      ∀ key kind, P kind ((s.cleanupStorages now order keys).2.areaOf key kind) := by
  induction keys generalizing s with
  | nil => exact ⟨hP.ok,h⟩
  | cons key keys ih =>
    rw [StorageBridge.cleanupStorages]
    cases hlookup : s.originStorages.lookup key with
    | none => exact ih h
    | some storage =>
      have hstorage : ∀ kind, P kind (storage.area kind) := by
        intro kind
        have hkept := h key kind
        rw [StorageBridge.areaOf,hlookup] at hkept
        exact hkept
      obtain ⟨hexpected,hcleaned⟩ := hP.cleanup hstorage now order
      have hareas : ∀ key' kind, P kind (StorageBridge.areaOf
          { s with originStorages := s.originStorages.insert key (storage.cleanup now order).2 } key' kind) := by
        intro key' kind
        rw [areaOf_insert]
        split
        · exact hcleaned kind
        · exact h key' kind
      dsimp only
      split
      · rename_i hcleanup
        rw [hcleanup] at hareas
        exact ih hareas
      · rename_i hcleanup
        rw [hcleanup] at hexpected hareas
        exact ⟨hexpected,hareas⟩

theorem quotaSafe_removable : Removable (· = .ok ()) fun _ => QuotaSafe := ⟨rfl,fun _ _ key h => h.remove key⟩

end Cleanup

theorem bridgePerform_fst (s : StorageBridge) (call : StorageCall) : (bridgePerform s (.storage call)).1 =
    ((s.areaOf call.origin.format call.kind).perform call.request call.now).1 := by
  rw [bridgePerform,perform_eq,withArea_fst]

theorem areaOf_bridgeStep (s : StorageBridge) (call : StorageCall) (key : Str) (kind : StorageKind) :
    (bridgeStep s (.storage call)).areaOf key kind = if key = call.origin.format ∧ kind = call.kind then
      ((s.areaOf key kind).perform call.request call.now).2 else s.areaOf key kind := by
  rw [bridgeStep,bridgePerform,perform_eq,areaOf_withArea]

/-- An operation that leaves its storage as it is at most creates it. -/
theorem onlyCreates_withArea {β : Type} {origin : Origin} {kind : StorageKind} {f : StorageArea → β×StorageArea}
    (hsame : (f (s.areaOf origin.format kind)).2 = s.areaOf origin.format kind) :
    OnlyCreates s (s.withArea origin kind f).2 origin := by
  have hstorage : (s.getOriginStorage origin).1 = (s.originStorages.lookup origin.format).getD (.init origin) ∧
      { (s.getOriginStorage origin).2 with originStorages := s.originStorages } = s := by
    rw [StorageBridge.getOriginStorage]
    cases s.originStorages.lookup origin.format with
    | none => exact ⟨rfl,rfl⟩
    | some existing => exact ⟨rfl,rfl⟩
  refine ⟨hstorage.2,fun key => ?_⟩
  have hlookup : (s.withArea origin kind f).2.originStorages.lookup key =
      if key = origin.format then some ((s.getOriginStorage origin).1.setArea kind
        (f ((s.getOriginStorage origin).1.area kind)).2)
      else (s.getOriginStorage origin).2.originStorages.lookup key := lookup_insert_eq ..
  rw [hlookup]
  by_cases hkey : key = origin.format
  · rw [if_pos hkey,if_pos hkey,hkey,← hstorage.1,getOriginStorage_area,hsame,← getOriginStorage_area,setArea_area]
  · rw [if_neg hkey,if_neg hkey,lookup_getOriginStorage s origin hkey]

/-- Every call keeps the storages to their quotas. -/
theorem safe_step (h : ∀ key kind, QuotaSafe (s.areaOf key kind)) (call : BridgeCall) : Safe s call := by
  cases call with
  | storage call =>
    obtain ⟨hsafe,htrap,hrefused⟩ := (h call.origin.format call.kind).perform call.request call.now
    constructor
    · intro key kind
      rw [areaOf_bridgeStep]
      split
      · exact ((h key kind).perform call.request call.now).1
      · exact h key kind
    · rw [bridgePerform_fst]
      exact htrap
    · intro hexceeded key kind
      rw [bridgePerform_fst] at hexceeded
      rw [areaOf_bridgeStep]
      split
      · rename_i hsame
        obtain ⟨rfl,rfl⟩ := hsame
        exact hrefused hexceeded
      · rfl
    · intro hexceeded
      rw [bridgePerform_fst] at hexceeded
      refine ⟨call,rfl,?_⟩
      rw [bridgeStep,bridgePerform,perform_eq]
      exact onlyCreates_withArea (hrefused hexceeded)
  | cleanupExpiredData now order =>
    obtain ⟨hok,hsafe⟩ := quotaSafe_removable.cleanupStorages (s:=s.cleanupExpiredCookies now) h now order
      (order s.originStorages.keys).1
    have hresult : (bridgePerform s (.cleanupExpiredData now order)).1 = .done (.ok ()) := congrArg Outcome.done hok
    constructor
    · exact hsafe
    · rw [hresult]
      simp
    · rw [hresult]
      simp
    · rw [hresult]
      simp

/-- In every run, after every call and for every origin, the items of a storage take no
more than its usage, which is within its quota; no subtraction underflows, and a set that
exceeds the quota changes no item and no quota and at most leaves an empty storage. -/
theorem quota_safe (calls : List BridgeCall) : Along bridgeStep Safe .init calls := by
  apply along_of_step (I:=fun s => ∀ key kind, QuotaSafe (s.areaOf key kind))
  · intro s call h
    have hstep := safe_step h call
    exact ⟨hstep,hstep.quota⟩
  · intro key kind
    exact quotaSafe_init kind

/-- The origin `a://b:1`. -/
def smallOrigin : Origin := ⟨[0x61],[0x62],1⟩

theorem set_tooLarge {value : Str} (hlength : value.length = 10*1024*1024+1) (now : ℕ) :
    (StorageArea.init .localStorage).set [] value now = (.error .quotaExceeded,.init .localStorage) := by
  have hfull : ¬0+(([] : Str).length+value.length) ≤ StorageKind.maxSize .localStorage := by
    rw [hlength,StorageKind.maxSize,List.length_nil]
    omega
  exact if_neg fun hroom => hfull (of_decide_eq_true hroom)

/-- The first set of an origin leaves an empty storage when it exceeds the quota. -/
theorem localStorageSet_tooLarge {value : Str} (hlength : value.length = 10*1024*1024+1) (now : ℕ) :
    (StorageBridge.init.localStorageSet smallOrigin [] value now).1 = .error .quotaExceeded ∧
    (StorageBridge.init.localStorageSet smallOrigin [] value now).2.originStorages.lookup smallOrigin.format =
      some (.init smallOrigin) := by
  have hset := set_tooLarge hlength now
  constructor
  · rw [StorageBridge.localStorageSet,withArea_fst]
    exact congrArg Prod.fst hset
  · have hlookup : (StorageBridge.init.localStorageSet smallOrigin [] value now).2.originStorages.lookup
        smallOrigin.format = some ((OriginStorage.init smallOrigin).setArea .localStorage
          ((StorageArea.init .localStorage).set [] value now).2) := AList.lookup_insert _
    rw [hlookup,hset]
    rfl

/-- A value of one byte more than the quota. -/
def tooLarge : Str := List.replicate (10*1024*1024+1) 0

/-- A refused set can change the table of the storages: it leaves an empty storage. -/
theorem refused_changes :
    Origin.parse smallOrigin.format = .ok smallOrigin ∧
    (StorageBridge.init.localStorageSet smallOrigin [] tooLarge 0).1 = .error .quotaExceeded ∧
    (StorageBridge.init.localStorageSet smallOrigin [] tooLarge 0).2 ≠ .init := by
  obtain ⟨hrefused,hlookup⟩ := localStorageSet_tooLarge (show tooLarge.length = _ from List.length_replicate) 0
  refine ⟨by decide,hrefused,fun hsame => ?_⟩
  rw [hsame] at hlookup
  cases hlookup

end ZNet.Storage
