import ZNet.StorageBackup

/-!
# Setting and removing items again

The usage of a storage grows with every set, and only `remove`, `clear` and the cleanup take
anything off it. What an overwritten item took, and an item that `get` finds expired, stays
in the usage of a storage that no longer has it.
-/

namespace ZNet.Storage
open Origins Tables Runs

/-- To set a key that is present to a value of the same length succeeds and costs nothing, and
a storage whose keys are all removed has no usage, whatever was removed before. -/
structure Economical (s : StorageBridge) (call : BridgeCall) : Prop where
  reset : ∀ kind origin key value now item, call = .storage ⟨kind,origin,.set key value,now⟩ →
    (s.areaOf origin.format kind).items.lookup key = some item → item.value.length = value.length →
      (bridgePerform s call).1 = .done (.ok ()) ∧ ((bridgeStep s call).areaOf origin.format kind).quota.usedSizeBytes =
        (s.areaOf origin.format kind).quota.usedSizeBytes
  emptied : ∀ key kind keys, (((bridgeStep s call).areaOf key kind).removeAll keys).2.items = ∅ →
    (((bridgeStep s call).areaOf key kind).removeAll keys).2.quota.usedSizeBytes = 0

/-- The request neither overwrites nor finds expired an item that takes anything. A set that
is refused may be for a value of another length. -/
def Sparing (area : StorageArea) (now : ℕ) : Request → Prop
  | .get key => ∀ item, area.items.lookup key = some item → item.isExpired now = true → item.sizeBytes = 0
  | .set key value => ∀ item, area.items.lookup key = some item → item.sizeBytes = 0 ∨
      area.quota.canStore (key.length+value.length) = false ∧ item.value.length ≠ value.length
  | _ => True

def SparingCall (s : StorageBridge) : BridgeCall → Prop
  | .storage call => Sparing (s.areaOf call.origin.format call.kind) call.now call.request
  | .cleanupExpiredData _ _ => True

/-- The usage is more than what the items take by so much. -/
structure Excess (excess : ℕ) (kind : StorageKind) (area : StorageArea) : Prop extends Measured kind area where
  used : area.quota.usedSizeBytes = total (·.sizeBytes) area.items+excess

/-- What a request adds to the excess. -/
def leak (area : StorageArea) (now : ℕ) : Request → ℕ
  | .get key => ((area.items.lookup key).filter (·.isExpired now)).elim 0 (·.sizeBytes)
  | .set key value =>
    if area.quota.canStore (key.length+value.length) then (area.items.lookup key).elim 0 (·.sizeBytes) else 0
  | _ => 0

variable {area : StorageArea} {kind : StorageKind} {s : StorageBridge} {excess : ℕ}

section Areas

theorem used_get (h : Excess excess kind area) (key : Str) (now : ℕ) :
    (area.get key now).2.quota.usedSizeBytes =
      total (·.sizeBytes) (area.get key now).2.items+(excess+leak area now (.get key)) := by
  have hused := h.used
  rw [StorageArea.get,leak]
  cases hlookup : area.items.lookup key with
  | none => exact hused
  | some item =>
    have herase := total_erase hlookup (·.sizeBytes)
    cases hexpired : item.isExpired now with
    | true =>
      simp only [hexpired,if_true,Option.filter_some,Option.elim_some]
      omega
    | false =>
      simp only [hexpired,Bool.false_eq_true,if_false,Option.filter_some,Option.elim_none]
      exact hused

theorem used_set (h : Excess excess kind area) (key value : Str) (now : ℕ) :
    (area.set key value now).2.quota.usedSizeBytes =
      total (·.sizeBytes) (area.set key value now).2.items+(excess+leak area now (.set key value)) := by
  have hused := h.used
  rw [StorageArea.set,leak]
  cases hroom : area.quota.canStore (key.length+value.length) with
  | false => exact hused
  | true =>
    simp only [if_true,StorageQuota.updateUsage,total_insert,sizeBytes_init]
    cases hlookup : area.items.lookup key with
    | none =>
      rw [erase_of_lookup_none hlookup,Option.elim_none]
      omega
    | some item =>
      have herase := total_erase hlookup (·.sizeBytes)
      rw [Option.elim_some]
      omega

theorem used_remove (h : Excess excess kind area) (key : Str) :
    (area.remove key).2.quota.usedSizeBytes = total (·.sizeBytes) (area.remove key).2.items+excess := by
  have hused := h.used
  rw [StorageArea.remove]
  cases hlookup : area.items.lookup key with
  | none => exact hused
  | some item =>
    have herase := total_erase hlookup (·.sizeBytes)
    have hfits : item.sizeBytes ≤ area.quota.usedSizeBytes := by omega
    simp only [if_pos hfits,StorageQuota.updateUsage]
    omega

theorem total_setExpiration (area : StorageArea) (key : Str) (expiresInMs now : ℕ) :
    total (·.sizeBytes) (area.setExpiration key expiresInMs now).items = total (·.sizeBytes) area.items ∧
      (area.setExpiration key expiresInMs now).quota = area.quota := by
  rw [StorageArea.setExpiration]
  cases hlookup : area.items.lookup key with
  | none => exact ⟨rfl,rfl⟩
  | some item =>
    have hinsert := total_insert_old hlookup (·.sizeBytes) (item.setExpiration expiresInMs now)
    have hsize : (item.setExpiration expiresInMs now).sizeBytes = item.sizeBytes := rfl
    refine ⟨?_,rfl⟩
    change total (·.sizeBytes) (area.items.insert key (item.setExpiration expiresInMs now)) = _
    omega

/-- Removing leaves the excess as it is. -/
theorem excess_removable (excess : ℕ) : Removable (· = .ok ()) (Excess excess) where
  ok := rfl
  remove _ _ key h := ⟨(h.safe.remove key).1,h.toMeasured.perform (.remove key) 0,used_remove h key⟩

/-- What a request leaves of a storage without excess. -/
theorem Excess.perform (h : Excess 0 kind area) (request : Request) (now : ℕ) :
    Excess (leak area now request) kind (area.perform request now).2 := by
  refine ⟨h.toMeasured.perform request now,?_⟩
  cases request with
  | get key => exact (used_get h key now).trans (congrArg _ (Nat.zero_add _))
  | set key value => exact (used_set h key value now).trans (congrArg _ (Nat.zero_add _))
  | remove key => exact used_remove h key
  | clear => rfl
  | setExpiration key expiresInMs =>
    obtain ⟨htotal,hquota⟩ := total_setExpiration area key expiresInMs now
    have hused := h.used
    change (area.setExpiration key expiresInMs now).quota.usedSizeBytes =
      total (·.sizeBytes) (area.setExpiration key expiresInMs now).items+0
    rw [htotal,hquota,hused]

theorem items_removeAll (h : QuotaSafe area) (keys : List Str) :
    (area.removeAll keys).2.items = eraseAll area.items keys := by
  induction keys generalizing area with
  | nil => rfl
  | cons key keys ih =>
    obtain ⟨hok,hsafe⟩ := h.remove key
    have hpair : area.remove key = (.ok (),(area.remove key).2) := Prod.ext hok rfl
    have hitems : (area.remove key).2.items = area.items.erase key := by
      rw [StorageArea.remove]
      cases hlookup : area.items.lookup key with
      | none => exact (erase_of_lookup_none hlookup).symm
      | some item =>
        dsimp only
        split
        · rfl
        · rfl
    rw [StorageArea.removeAll,hpair]
    exact (ih hsafe).trans (congrArg (eraseAll · keys) hitems)

/-- Removing every key brings the usage to the excess. -/
theorem Excess.emptied_iff (h : Excess excess kind area) :
    (∀ keys, (area.removeAll keys).2.items = ∅ → (area.removeAll keys).2.quota.usedSizeBytes = 0) ↔ excess = 0 := by
  have hleft (keys : List Str) (hempty : (area.removeAll keys).2.items = ∅) :
      (area.removeAll keys).2.quota.usedSizeBytes = excess := by
    have hused := ((excess_removable excess).removeAll h keys).2.used
    rw [hempty] at hused
    exact hused.trans (Nat.zero_add excess)
  constructor
  · intro hemptied
    have hempty : (area.removeAll area.items.keys).2.items = ∅ := by
      rw [items_removeAll h.safe]
      exact eraseAll_of_subset fun key hmem => AList.mem_keys.mp hmem
    rw [← hleft _ hempty]
    exact hemptied _ hempty
  · intro hexcess keys hempty
    rw [hleft keys hempty,hexcess]

theorem leak_get_iff (now : ℕ) (key : Str) : leak area now (.get key) = 0 ↔ Sparing area now (.get key) := by
  rw [leak,Sparing]
  cases area.items.lookup key with
  | none => simp
  | some item =>
    cases hexpired : item.isExpired now with
    | true => simp [Option.filter_some,hexpired]
    | false => simp [Option.filter_some,hexpired]

/-- A set is sparing exactly if it leaks nothing and is not refused for a value of the same length. -/
theorem leak_set_iff (h : Measured kind area) (now : ℕ) (key value : Str) :
    Sparing area now (.set key value) ↔ leak area now (.set key value) = 0 ∧
      ∀ item, area.items.lookup key = some item → item.value.length = value.length →
        area.quota.canStore (key.length+value.length) = true := by
  rw [leak,Sparing]
  cases hlookup : area.items.lookup key with
  | none => simp
  | some item =>
    have hsize := h.sizes key item hlookup
    have hlimit := h.safe.limit
    cases hroom : area.quota.canStore (key.length+value.length) with
    | true => simp
    | false =>
      have hfull : ¬area.quota.usedSizeBytes+(key.length+value.length) ≤ area.quota.maxSizeBytes :=
        of_decide_eq_false hroom
      have hpositive : item.sizeBytes = 0 → item.value.length ≠ value.length := by omega
      simp only [Option.some.injEq,forall_eq',Bool.false_eq_true,if_false,true_and,imp_false]
      tauto

end Areas

theorem excess_cleanup (h : ∀ key kind, Excess 0 kind (s.areaOf key kind)) (now : ℕ) (order : IterationOrder Str)
    (key : Str) (kind : StorageKind) : Excess 0 kind ((bridgeStep s (.cleanupExpiredData now order)).areaOf key kind) :=
  ((excess_removable 0).cleanupStorages (s:=s.cleanupExpiredCookies now) h now order
    (order s.originStorages.keys).1).2 key kind

/-- A sparing call leaves no excess. -/
theorem excess_step (h : ∀ key kind, Excess 0 kind (s.areaOf key kind)) {call : BridgeCall}
    (hsparing : SparingCall s call) (key : Str) (kind : StorageKind) :
    Excess 0 kind ((bridgeStep s call).areaOf key kind) := by
  cases call with
  | cleanupExpiredData now order => exact excess_cleanup h now order key kind
  | storage call =>
    rw [areaOf_bridgeStep]
    split
    · rename_i hplace
      obtain ⟨rfl,rfl⟩ := hplace
      have hleak : leak (s.areaOf call.origin.format call.kind) call.now call.request = 0 := by
        obtain ⟨kind,origin,request,now⟩ := call
        cases request with
        | get key => exact (leak_get_iff now key).mpr hsparing
        | set key value => exact ((leak_set_iff (h origin.format kind).toMeasured now key value).mp hsparing).1
        | remove key => rfl
        | clear => rfl
        | setExpiration key expiresInMs => rfl
      rw [← hleak]
      exact (h _ _).perform call.request call.now
    · exact h key kind

theorem sparing_of_economical (h : ∀ key kind, Excess 0 kind (s.areaOf key kind)) {call : BridgeCall}
    (heconomical : Economical s call) : SparingCall s call := by
  cases call with
  | cleanupExpiredData now order => trivial
  | storage call =>
    obtain ⟨kind,origin,request,now⟩ := call
    have hleak : leak (s.areaOf origin.format kind) now request = 0 := by
      apply ((h origin.format kind).perform request now).emptied_iff.mp
      have hemptied := heconomical.emptied origin.format kind
      rwa [areaOf_bridgeStep,if_pos ⟨rfl,rfl⟩] at hemptied
    cases request with
    | get key => exact (leak_get_iff now key).mp hleak
    | set key value =>
      refine (leak_set_iff (h origin.format kind).toMeasured now key value).mpr ⟨hleak,fun item hlookup hlength => ?_⟩
      have hok := (heconomical.reset kind origin key value now item rfl hlookup hlength).1
      rw [bridgePerform_fst] at hok
      cases hroom : (s.areaOf origin.format kind).quota.canStore (key.length+value.length) with
      | true => rfl
      | false => simp [StorageArea.perform,StorageArea.set,hroom] at hok
    | remove key => trivial
    | clear => trivial
    | setExpiration key expiresInMs => trivial

theorem economical_of_sparing (h : ∀ key kind, Excess 0 kind (s.areaOf key kind)) {call : BridgeCall}
    (hsparing : SparingCall s call) : Economical s call := by
  constructor
  · rintro kind origin key value now item rfl hlookup hlength
    have hexact := h origin.format kind
    obtain ⟨hleak,hroom⟩ := (leak_set_iff hexact.toMeasured now key value).mp hsparing
    have hroom := hroom item hlookup hlength
    -- an item that is overwritten without a leak takes nothing, and nor does the new one
    have hsize : item.sizeBytes = 0 := by simpa [leak,hroom,hlookup] using hleak
    have hitem := hexact.sizes key item hlookup
    rw [bridgePerform_fst,areaOf_bridgeStep,if_pos ⟨rfl,rfl⟩]
    simp only [StorageArea.perform,StorageArea.set,hroom,if_true,StorageQuota.updateUsage]
    exact ⟨trivial,by omega⟩
  · intro key kind
    exact (excess_step h hsparing key kind).emptied_iff.mpr rfl

/-- In a run every set is economical and every storage that is emptied has no usage exactly
if the run never overwrites, and never finds expired by `get`, an item that takes anything. -/
theorem economical_run_iff (calls : List BridgeCall) :
    Along bridgeStep Economical .init calls ↔ Along bridgeStep SparingCall .init calls := by
  apply along_iff (I:=fun s => ∀ key kind, Excess 0 kind (s.areaOf key kind))
  · intro s call h hsparing
    exact excess_step h hsparing
  · intro s call h
    exact ⟨sparing_of_economical h,economical_of_sparing h⟩
  · intro key kind
    exact ⟨measured_kept.init kind,rfl⟩

/-- A call for the key `k` of the local storage. -/
def smallCall (request : Request) (now : ℕ) : BridgeCall := .storage ⟨.localStorage,smallOrigin,request,now⟩

/-- The same item set twice counts twice, and an expired one is counted after `get` has
removed it. -/
theorem reset_counts_twice :
    ¬Along bridgeStep Economical .init [smallCall (.set [0x6b] [0x76]) 0,smallCall (.set [0x6b] [0x76]) 1] ∧
    ¬Along bridgeStep Economical .init [smallCall (.set [0x6b] [0x76]) 0,smallCall (.setExpiration [0x6b] 0) 0,
      smallCall (.get [0x6b]) 1] := by
  constructor
  · intro halong
    have hreset := halong.2.1.reset .localStorage smallOrigin [0x6b] [0x76] 1
      (StorageItem.init [0x6b] [0x76] 0).calculateSize rfl rfl rfl
    exact absurd hreset.2 (by decide)
  · intro halong
    exact absurd (halong.2.2.1.emptied smallOrigin.format .localStorage [] rfl) (by decide)

end ZNet.Storage
