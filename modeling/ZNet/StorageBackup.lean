import ZNet.StorageManager

/-!
# Backup and restore

The items of an origin fit into a fresh manager and come back with their values. Of the
cookies only those come back that match the text of the origin and lie under it as their
top-level site too.
-/

namespace ZNet.Storage
open Origins Tables Runs

/-- The value of an item that has not expired. -/
def liveValue (area : StorageArea) (key : Str) (now : ℕ) : Option Str :=
  ((area.items.lookup key).filter (!·.isExpired now)).map (·.value)

/-- What was exported is imported into a fresh manager some time later. -/
def restore (s : StorageBridge) (origin : Origin) (now delay : ℕ) (exportOrder importOrder : IterationOrder Str) :
    Except StorageFailure Unit×StorageBridge :=
  StorageBridge.init.importOriginData origin (s.exportOriginData origin now exportOrder).1 (now+delay) importOrder

/-- The fresh manager has every unexpired item of the origin with its value, and under each
top-level site every unexpired cookie of the origin. -/
structure Restored (s : StorageBridge) (origin : Origin) (now delay : ℕ)
    (exportOrder importOrder : IterationOrder Str) : Prop where
  completed : (restore s origin now delay exportOrder importOrder).1 = .ok ()
  items : ∀ kind key value, liveValue (s.areaOf origin.format kind) key (now+delay) = some value →
    liveValue ((restore s origin now delay exportOrder importOrder).2.areaOf origin.format kind) key (now+delay) =
      some value
  cookies : ∀ site text name cookie, Origin.parse text = .ok origin →
    cookieAt s (partitionKey ⟨site,text⟩) name = some cookie → cookie.isExpired (now+delay) = false →
      cookieAt (restore s origin now delay exportOrder importOrder).2 (partitionKey ⟨site,text⟩) name = some cookie

/-- The partition into which cookies are imported. -/
def ownPartition (origin : Origin) : Str := partitionKey ⟨origin.format,origin.format⟩

/-- Each unexpired cookie of the origin lies in the partition into which cookies are imported
and matches the text of the origin, and no other cookie of its name does. -/
def Portable (s : StorageBridge) (origin : Origin) (time : ℕ) : Prop :=
  ∀ site text name cookie, Origin.parse text = .ok origin →
    cookieAt s (partitionKey ⟨site,text⟩) name = some cookie → cookie.isExpired time = false →
      partitionKey ⟨site,text⟩ = ownPartition origin ∧ cookie.matchesUrl origin.format = true ∧
      ∀ key other, cookieAt s key name = some other → other.matchesUrl origin.format = true → other = cookie

/-- An item takes what its key and value take, and the storage has the quota of its kind. -/
structure Measured (kind : StorageKind) (area : StorageArea) : Prop where
  safe : QuotaSafe area
  limit : area.quota.maxSizeBytes = kind.maxSize
  sizes : ∀ key item, area.items.lookup key = some item → item.sizeBytes = key.length+item.value.length

variable {s : StorageBridge} {area : StorageArea} {kind : StorageKind} {origin : Origin} {key : Str} {now time : ℕ}

section Areas

theorem limit_perform (area : StorageArea) (request : Request) (now : ℕ) :
    (area.perform request now).2.quota.maxSizeBytes = area.quota.maxSizeBytes := by
  cases request with
  | get key =>
    change (area.get key now).2.quota.maxSizeBytes = _
    rw [StorageArea.get]
    split
    · rfl
    · split <;> rfl
  | set key value =>
    change (area.set key value now).2.quota.maxSizeBytes = _
    rw [StorageArea.set]
    split <;> rfl
  | remove key =>
    change (area.remove key).2.quota.maxSizeBytes = _
    rw [StorageArea.remove]
    split
    · rfl
    · dsimp only
      split <;> rfl
  | clear => rfl
  | setExpiration key expiresInMs =>
    change (area.setExpiration key expiresInMs now).quota.maxSizeBytes = _
    rw [StorageArea.setExpiration]
    split <;> rfl

/-- What an item takes and its value are those of an earlier item or of one that was set. -/
theorem items_perform {request : Request} {item : StorageItem}
    (h : (area.perform request now).2.items.lookup key = some item) :
    (∃ old, area.items.lookup key = some old ∧ item.sizeBytes = old.sizeBytes ∧ item.value = old.value) ∨
      item.sizeBytes = key.length+item.value.length := by
  have hold : area.items.lookup key = some item →
      ∃ old, area.items.lookup key = some old ∧ item.sizeBytes = old.sizeBytes ∧ item.value = old.value :=
    fun hlookup => ⟨item,hlookup,rfl,rfl⟩
  cases request with
  | get key' =>
    change (area.get key' now).2.items.lookup key = some item at h
    rw [StorageArea.get] at h
    split at h
    · exact .inl (hold h)
    · split at h
      · exact .inl (hold (lookup_of_erase h).2)
      · exact .inl (hold h)
  | set key' value =>
    change (area.set key' value now).2.items.lookup key = some item at h
    rw [StorageArea.set] at h
    split at h
    · rw [lookup_insert_eq] at h
      split at h
      · rename_i hkey
        cases h
        exact .inr (hkey ▸ sizeBytes_init key' value now)
      · exact .inl (hold h)
    · exact .inl (hold h)
  | remove key' =>
    change (area.remove key').2.items.lookup key = some item at h
    rw [StorageArea.remove] at h
    split at h
    · exact .inl (hold h)
    · dsimp only at h
      split at h
      · exact .inl (hold (lookup_of_erase h).2)
      · exact .inl (hold (lookup_of_erase h).2)
  | clear => cases h
  | setExpiration key' expiresInMs =>
    change (area.setExpiration key' expiresInMs now).items.lookup key = some item at h
    rw [StorageArea.setExpiration] at h
    split at h
    · exact .inl (hold h)
    · rename_i old hlookup
      rw [lookup_insert_eq] at h
      split at h
      · rename_i hkey
        cases h
        exact .inl ⟨old,hkey ▸ hlookup,rfl,rfl⟩
      · exact .inl (hold h)

theorem Measured.perform (h : Measured kind area) (request : Request) (now : ℕ) :
    Measured kind (area.perform request now).2 := by
  refine ⟨(h.safe.perform request now).1,(limit_perform area request now).trans h.limit,fun key item hlookup => ?_⟩
  rcases items_perform hlookup with ⟨old,hold,hsize,hvalue⟩ | hsize
  · rw [hsize,hvalue]
    exact h.sizes key old hold
  · exact hsize

theorem measured_kept : Kept Measured where
  init kind := ⟨quotaSafe_init kind,rfl,nofun⟩
  perform _ _ request now h := h.perform request now

theorem get_fst (area : StorageArea) (key : Str) (now : ℕ) : (area.get key now).1 = liveValue area key now := by
  rw [StorageArea.get,liveValue]
  cases area.items.lookup key with
  | none => rfl
  | some item =>
    dsimp only
    cases hexpired : item.isExpired now with
    | false => simp [hexpired]
    | true => simp [hexpired]

/-- Only an item that has expired is removed. -/
theorem liveValue_get (area : StorageArea) (key key' : Str) (now : ℕ) :
    liveValue (area.get key' now).2 key now = liveValue area key now := by
  rw [StorageArea.get]
  cases hlookup : area.items.lookup key' with
  | none => rfl
  | some item =>
    dsimp only
    split
    · rename_i hexpired
      rw [liveValue,liveValue,lookup_erase_eq]
      split
      · rename_i hkey
        rw [hkey,hlookup,Option.filter_some,hexpired]
        rfl
      · rfl
    · rfl

/-- An item that is still live later is live now. -/
theorem liveValue_earlier {value : Str} {delay : ℕ} (h : liveValue area key (now+delay) = some value) :
    liveValue area key now = some value := by
  rw [liveValue,Option.map_eq_some_iff] at h ⊢
  obtain ⟨item,hitem,hvalue⟩ := h
  obtain ⟨hlookup,hlive⟩ := Option.filter_eq_some_iff.mp hitem
  refine ⟨item,Option.filter_eq_some_iff.mpr ⟨hlookup,?_⟩,hvalue⟩
  rw [StorageItem.isExpired] at hlive ⊢
  cases hexpires : item.expiresTimestamp with
  | none => rfl
  | some expires =>
    rw [hexpires] at hlive
    simp at hlive ⊢
    omega

end Areas

section Export

/-- Getting an item changes no live value and nothing else. -/
structure Unchanged (s s' : StorageBridge) (origin : Origin) (now : ℕ) : Prop where
  live : ∀ key, liveValue (s'.areaOf origin.format .localStorage) key now =
    liveValue (s.areaOf origin.format .localStorage) key now
  session : s'.areaOf origin.format .sessionStorage = s.areaOf origin.format .sessionStorage
  jar : s'.cookieJar = s.cookieJar

theorem unchanged_get (s : StorageBridge) (origin : Origin) (key : Str) (now : ℕ) :
    Unchanged s (s.localStorageGet origin key now).2 origin now := by
  refine ⟨fun key' => ?_,?_,cookieJar_withArea ..⟩
  · rw [StorageBridge.localStorageGet,areaOf_withArea,if_pos ⟨rfl,rfl⟩]
    exact liveValue_get _ key' key now
  · rw [StorageBridge.localStorageGet,areaOf_withArea,if_neg (by simp)]

theorem Unchanged.trans {s s' s'' : StorageBridge} (h : Unchanged s s' origin now) (h' : Unchanged s' s'' origin now) :
    Unchanged s s'' origin now :=
  ⟨fun key => (h'.live key).trans (h.live key),h'.session.trans h.session,h'.jar.trans h.jar⟩

theorem unchanged_getOriginStorage (s : StorageBridge) (origin : Origin) (now : ℕ) :
    Unchanged s (s.getOriginStorage origin).2 origin now :=
  ⟨fun key => by rw [areaOf_getOriginStorage],areaOf_getOriginStorage ..,cookieJar_getOriginStorage ..⟩

theorem exportItem_spec (origin : Origin) (now : ℕ) (exported : Table Str Str×StorageBridge) (key : Str) :
    (StorageBridge.exportItem origin now exported key).2 = (exported.2.localStorageGet origin key now).2 ∧
    ∀ key', (StorageBridge.exportItem origin now exported key).1.lookup key' =
      if key' = key then
        (liveValue (exported.2.areaOf origin.format .localStorage) key' now).or (exported.1.lookup key')
      else exported.1.lookup key' := by
  have hvalue : (exported.2.localStorageGet origin key now).1 =
      liveValue (exported.2.areaOf origin.format .localStorage) key now := by
    rw [StorageBridge.localStorageGet,withArea_fst,get_fst]
  rw [StorageBridge.exportItem]
  split
  · rename_i value self hget
    rw [hget] at hvalue ⊢
    refine ⟨rfl,fun key' => ?_⟩
    rw [lookup_insert_eq]
    split
    · rename_i hkey
      rw [hkey,← hvalue,Option.some_or]
    · rfl
  · rename_i self hget
    rw [hget] at hvalue ⊢
    refine ⟨rfl,fun key' => ?_⟩
    split
    · rename_i hkey
      rw [hkey,← hvalue,Option.none_or]
    · rfl

/-- The loop puts the live values of the keys into the table. -/
theorem exportItems_spec (origin : Origin) (now : ℕ) (keys : List Str) (exported : Table Str Str×StorageBridge) :
    Unchanged exported.2 (keys.foldl (StorageBridge.exportItem origin now) exported).2 origin now ∧
    ∀ key, (keys.foldl (StorageBridge.exportItem origin now) exported).1.lookup key =
      if key ∈ keys then (liveValue (exported.2.areaOf origin.format .localStorage) key now).or (exported.1.lookup key)
      else exported.1.lookup key := by
  induction keys generalizing exported with
  | nil => exact ⟨⟨fun _ => rfl,rfl,rfl⟩,fun _ => (if_neg List.not_mem_nil).symm⟩
  | cons key keys ih =>
    obtain ⟨hnext,hlookup⟩ := exportItem_spec origin now exported key
    obtain ⟨hrest,hrestLookup⟩ := ih (StorageBridge.exportItem origin now exported key)
    have hget := unchanged_get exported.2 origin key now
    rw [← hnext] at hget
    refine ⟨hget.trans hrest,fun key' => ?_⟩
    rw [List.foldl_cons,hrestLookup,hlookup,hget.live]
    by_cases hkey : key' = key
    · simp [hkey,← Option.or_assoc]
    · simp [hkey]

/-- What is exported: the live items of the local storage, all items of the session storage,
and the matching cookies. -/
theorem exportOriginData_fst (s : StorageBridge) (origin : Origin) (now : ℕ) (order : IterationOrder Str) :
    (∀ key, (s.exportOriginData origin now order).1.localStorage.lookup key =
      liveValue (s.areaOf origin.format .localStorage) key now) ∧
    (∀ key, (s.exportOriginData origin now order).1.sessionStorage.lookup key =
      ((s.areaOf origin.format .sessionStorage).items.lookup key).map (·.value)) ∧
    (s.exportOriginData origin now order).1.cookies = s.exportCookies origin order := by
  let keys := (order (s.getOriginStorage origin).1.localStorage.keys).1
  obtain ⟨hitems,hlookup⟩ := exportItems_spec origin now keys (∅,(s.getOriginStorage origin).2)
  have hbefore := (unchanged_getOriginStorage s origin now).trans hitems
  refine ⟨fun key => (hlookup key).trans ?_,fun key => ?_,?_⟩
  · have hstored : (s.getOriginStorage origin).1.localStorage = (s.areaOf origin.format .localStorage).items :=
      congrArg StorageArea.items (getOriginStorage_area s origin .localStorage)
    rw [areaOf_getOriginStorage,AList.lookup_empty,Option.or_none]
    split
    · rfl
    · rename_i hkey
      have hnone : (s.areaOf origin.format .localStorage).items.lookup key = none := by
        rw [lookup_none_iff,← hstored]
        exact fun hmem => hkey ((order _).2.mem_iff.mpr hmem)
      rw [liveValue,hnone]
      rfl
  · refine (lookup_mapValues ..).trans ?_
    rw [← hbefore.session]
    exact congrArg (fun area : StorageArea => (area.items.lookup key).map (·.value))
      (getOriginStorage_area _ origin .sessionStorage)
  · have hjar := (hbefore.trans (unchanged_getOriginStorage _ origin now)).jar
    exact congrArg (fun jar => ({ s with cookieJar := jar } : StorageBridge).exportCookies origin order) hjar

end Export

section Import

/-- The set of an item in one of the storages of the origin. -/
def setItem (origin : Origin) (kind : StorageKind) (now : ℕ) (s : StorageBridge) (key value : Str) :
    Except StorageFailure Unit×StorageBridge :=
  s.withArea origin kind (·.set key value now)

theorem areaOf_setItem (origin : Origin) (kind : StorageKind) (now : ℕ) (s : StorageBridge) (key value : Str)
    (kind' : StorageKind) :
    (setItem origin kind now s key value).2.areaOf origin.format kind' =
      if kind' = kind then ((s.areaOf origin.format kind').set key value now).2 else s.areaOf origin.format kind' := by
  rw [setItem,areaOf_withArea]
  split
  · rename_i hplace
    rw [if_pos hplace.2]
  · rename_i hplace
    rw [if_neg fun hkind => hplace ⟨rfl,hkind⟩]

theorem importItems_cons (s : StorageBridge) (item : Str×Str) (items : List (Str×Str)) :
    s.importItems (setItem origin kind now) (item::items) =
      match (setItem origin kind now s item.1 item.2).1 with
      | .ok () => (setItem origin kind now s item.1 item.2).2.importItems (setItem origin kind now) items
      | .error e => (.error e,(setItem origin kind now s item.1 item.2).2) := by
  rw [StorageBridge.importItems]
  split
  · rename_i hset
    rw [hset]
  · rename_i hset
    rw [hset]

/-- The import of items changes only these, in one storage of the origin. -/
structure Frame (s s' : StorageBridge) (origin : Origin) (kind : StorageKind) (keys : List Str) : Prop where
  other : ∀ kind', kind' ≠ kind → s'.areaOf origin.format kind' = s.areaOf origin.format kind'
  own : ∀ key, key ∉ keys →
    (s'.areaOf origin.format kind).items.lookup key = (s.areaOf origin.format kind).items.lookup key
  jar : s'.cookieJar = s.cookieJar

theorem frame_setItem (origin : Origin) (kind : StorageKind) (now : ℕ) (s : StorageBridge) (key value : Str)
    (keys : List Str) :
    Frame s (setItem origin kind now s key value).2 origin kind (key::keys) := by
  refine ⟨fun kind' hkind => ?_,fun key' hkey => ?_,cookieJar_withArea ..⟩
  · rw [areaOf_setItem,if_neg hkind]
  · rw [areaOf_setItem,if_pos rfl,StorageArea.set]
    split
    · exact AList.lookup_insert_ne fun hsame => hkey (List.mem_cons.mpr (.inl hsame))
    · rfl

theorem importItems_frame (origin : Origin) (kind : StorageKind) (now : ℕ) (s : StorageBridge) (items : List (Str×Str)) :
    Frame s (s.importItems (setItem origin kind now) items).2 origin kind (items.map (·.1)) := by
  induction items generalizing s with
  | nil => exact ⟨fun _ _ => rfl,fun _ _ => rfl,rfl⟩
  | cons item items ih =>
    have hset := frame_setItem origin kind now s item.1 item.2 (items.map (·.1))
    rw [importItems_cons]
    split
    · obtain ⟨hother,hown,hjar⟩ := ih (setItem origin kind now s item.1 item.2).2
      refine ⟨fun kind' hkind => (hother kind' hkind).trans (hset.other kind' hkind),fun key hkey => ?_,
        hjar.trans hset.jar⟩
      exact (hown key fun hmem => hkey (List.mem_cons_of_mem _ hmem)).trans (hset.own key hkey)
    · exact hset

/-- Items that fit into the quota are all imported. -/
theorem importItems_spec (now time : ℕ) {m : Table Str StorageItem} {items : List (Str×Str)} (hnodup : (items.map (·.1)).Nodup)
    (hitems : ∀ item ∈ items, ∃ old, m.lookup item.1 = some old ∧ old.sizeBytes = item.1.length+item.2.length)
    (hroom : (s.areaOf origin.format kind).quota.usedSizeBytes+total (·.sizeBytes) m ≤
      (s.areaOf origin.format kind).quota.maxSizeBytes) :
    (s.importItems (setItem origin kind now) items).1 = .ok () ∧
    ∀ item ∈ items, liveValue ((s.importItems (setItem origin kind now) items).2.areaOf origin.format kind) item.1 time =
      some item.2 := by
  induction items generalizing s m with
  | nil => exact ⟨rfl,nofun⟩
  | cons item items ih =>
    obtain ⟨old,hold,hsize⟩ := hitems item List.mem_cons_self
    rw [List.map_cons,List.nodup_cons] at hnodup
    have htotal := total_erase hold (·.sizeBytes)
    have hset : (s.areaOf origin.format kind).set item.1 item.2 now =
        (.ok (),⟨(s.areaOf origin.format kind).items.insert item.1 (StorageItem.init item.1 item.2 now).calculateSize,
          (s.areaOf origin.format kind).quota.updateUsage
            ((s.areaOf origin.format kind).quota.usedSizeBytes+(item.1.length+item.2.length))⟩) := by
      exact if_pos (decide_eq_true (by omega))
    have hresult : (setItem origin kind now s item.1 item.2).1 = .ok () := by
      rw [setItem,withArea_fst,hset]
    have harea := areaOf_setItem origin kind now s item.1 item.2 kind
    rw [if_pos rfl,hset] at harea
    rw [importItems_cons,hresult]
    obtain ⟨hok,hall⟩ := ih (s:=(setItem origin kind now s item.1 item.2).2) (m:=m.erase item.1) hnodup.2
      (fun item' hmem => by
        have hne : item'.1 ≠ item.1 := fun hsame => hnodup.1 (hsame ▸ List.mem_map_of_mem hmem)
        rw [AList.lookup_erase_ne hne]
        exact hitems item' (List.mem_cons_of_mem _ hmem))
      (by
        rw [harea]
        change _+(item.1.length+item.2.length)+_ ≤ (s.areaOf origin.format kind).quota.maxSizeBytes
        omega)
    refine ⟨hok,fun item' hmem => ?_⟩
    rcases List.mem_cons.mp hmem with rfl | hmem
    · rw [liveValue,(importItems_frame origin kind now _ items).own _ hnodup.1,harea,AList.lookup_insert]
      rfl
    · exact hall item' hmem

theorem mem_pairsIn {order : IterationOrder Str} {m : Table Str Str} {item : Str×Str} :
    item ∈ pairsIn order m ↔ m.lookup item.1 = some item.2 := by
  rw [pairsIn,List.mem_filterMap]
  constructor
  · rintro ⟨key,-,hitem⟩
    obtain ⟨value,hlookup,rfl⟩ := Option.map_eq_some_iff.mp hitem
    exact hlookup
  · intro hlookup
    refine ⟨item.1,(order m.keys).2.mem_iff.mpr (mem_keys_of_lookup hlookup),?_⟩
    rw [hlookup]
    rfl

theorem pairsIn_nodup (order : IterationOrder Str) (m : Table Str Str) : ((pairsIn order m).map (·.1)).Nodup := by
  have hkeys : (order m.keys).1.Nodup := (order m.keys).2.nodup_iff.mpr m.nodupKeys
  rw [pairsIn,List.map_filterMap]
  refine hkeys.filterMap fun key key' found hfound hfound' => ?_
  simp only [Option.map_map,Option.mem_def,Option.map_eq_some_iff] at hfound hfound'
  obtain ⟨_,-,rfl⟩ := hfound
  obtain ⟨_,-,hsame⟩ := hfound'
  exact hsame.symm

/-- What was exported from a storage fits into an empty one. -/
theorem importItems_empty (now time : ℕ) (h : Measured kind area) {table : Table Str Str}
    (htable : ∀ key value, table.lookup key = some value → ∃ old, area.items.lookup key = some old ∧ old.value = value)
    (hempty : s.areaOf origin.format kind = .init kind) (order : IterationOrder Str) :
    (s.importItems (setItem origin kind now) (pairsIn order table)).1 = .ok () ∧
    ∀ key value, table.lookup key = some value →
      liveValue ((s.importItems (setItem origin kind now) (pairsIn order table)).2.areaOf origin.format kind) key time =
        some value := by
  have hitems : ∀ item ∈ pairsIn order table, ∃ old, area.items.lookup item.1 = some old ∧
      old.sizeBytes = item.1.length+item.2.length := by
    intro item hmem
    obtain ⟨old,hold,hvalue⟩ := htable _ _ (mem_pairsIn.mp hmem)
    exact ⟨old,hold,hvalue ▸ h.sizes _ old hold⟩
  have hroom : (s.areaOf origin.format kind).quota.usedSizeBytes+total (·.sizeBytes) area.items ≤
      (s.areaOf origin.format kind).quota.maxSizeBytes := by
    rw [hempty]
    change 0+_ ≤ kind.maxSize
    rw [Nat.zero_add,← h.limit]
    exact h.safe.sizes.trans h.safe.limit
  obtain ⟨hok,hall⟩ := importItems_spec now time (pairsIn_nodup order table) hitems hroom
  exact ⟨hok,fun key value hlookup => hall (key,value) (mem_pairsIn.mpr hlookup)⟩

end Import

section Cookies

/-- The last cookie of the name in a list. -/
def lastNamed (name : Str) (cookies : List Cookie) : Option Cookie :=
  cookies.reverse.find? fun cookie => decide (cookie.name = name)

theorem lastNamed_concat (name : Str) (cookies : List Cookie) (cookie : Cookie) :
    lastNamed name (cookies++[cookie]) = if cookie.name = name then some cookie else lastNamed name cookies := by
  rw [lastNamed,List.reverse_concat,List.find?_cons]
  by_cases hname : cookie.name = name
  · rw [decide_eq_true hname,if_pos hname]
  · rw [decide_eq_false hname,if_neg hname]
    rfl

theorem areaOf_importCookies (s : StorageBridge) (origin : Origin) (now : ℕ) (cookies : List Cookie) (key : Str)
    (kind : StorageKind) : (s.importCookies origin now cookies).areaOf key kind = s.areaOf key kind := by
  induction cookies generalizing s with
  | nil => rfl
  | cons cookie cookies ih => exact ih _

/-- Of the imported cookies the last of each name is there, unless it has expired. -/
theorem cookieAt_importCookies (s : StorageBridge) (origin : Origin) (now : ℕ) (cookies : List Cookie) (key name : Str) :
    (cookieAt (s.importCookies origin now cookies) key name).filter (!·.isExpired now) =
      ((if key = ownPartition origin then lastNamed name cookies else none).or (cookieAt s key name)).filter
        (!·.isExpired now) := by
  induction cookies using List.reverseRecOn with
  | nil =>
    rw [lastNamed,List.reverse_nil,List.find?_nil,ite_self,Option.none_or]
    rfl
  | append_singleton cookies cookie ih =>
    have hlast : s.importCookies origin now (cookies++[cookie]) =
        (s.importCookies origin now cookies).setCookie cookie origin.format origin.format now := List.foldl_concat ..
    rw [hlast,cookieAt_setCookie _ cookie ⟨origin.format,origin.format⟩,lastNamed_concat]
    by_cases hplace : key = ownPartition origin ∧ name = cookie.name
    · rw [if_pos (show key = partitionKey _ ∧ _ from hplace),if_pos hplace.1,if_pos hplace.2.symm,Option.some_or]
    · rw [if_neg (show ¬(key = partitionKey _ ∧ _) from hplace),Option.filter_filter]
      simp only [Bool.and_self]
      rw [ih]
      by_cases hkey : key = ownPartition origin
      · rw [if_pos hkey,if_pos hkey,if_neg fun hname => hplace ⟨hkey,hname.symm⟩]
      · rw [if_neg hkey,if_neg hkey]

/-- The cookies that are exported from one partition. -/
def matching (origin : Origin) (order : IterationOrder Str) (partition : CookiePartition) : List Cookie :=
  (valuesIn order partition.cookies).filter fun cookie => cookie.matchesUrl origin.format

theorem mem_matching {order : IterationOrder Str} {partition : CookiePartition} {cookie : Cookie} :
    cookie ∈ matching origin order partition ↔
      (∃ name, partition.cookies.lookup name = some cookie) ∧ cookie.matchesUrl origin.format = true := by
  rw [matching,List.mem_filter,mem_valuesIn]

theorem cookieAt_iff {name : Str} {cookie : Cookie} :
    cookieAt s key name = some cookie ↔
      ∃ partition, s.cookieJar.lookup key = some partition ∧ partition.cookies.lookup name = some cookie :=
  Option.bind_eq_some_iff

theorem mem_exportCookies {order : IterationOrder Str} {cookie : Cookie} :
    cookie ∈ s.exportCookies origin order ↔
      (∃ key name, cookieAt s key name = some cookie) ∧ cookie.matchesUrl origin.format = true := by
  rw [StorageBridge.exportCookies,List.mem_flatMap]
  constructor
  · rintro ⟨partition,hmem,hcookie⟩
    obtain ⟨key,hlookup⟩ := mem_valuesIn.mp hmem
    obtain ⟨⟨name,hname⟩,hmatch⟩ := mem_matching.mp hcookie
    exact ⟨⟨key,name,cookieAt_iff.mpr ⟨partition,hlookup,hname⟩⟩,hmatch⟩
  · rintro ⟨⟨key,name,hstored⟩,hmatch⟩
    obtain ⟨partition,hlookup,hname⟩ := cookieAt_iff.mp hstored
    exact ⟨partition,mem_valuesIn.mpr ⟨key,hlookup⟩,mem_matching.mpr ⟨⟨name,hname⟩,hmatch⟩⟩

theorem lastNamed_mem {name : Str} {cookies : List Cookie} {cookie : Cookie} (h : lastNamed name cookies = some cookie) :
    cookie ∈ cookies ∧ cookie.name = name := by
  refine ⟨List.mem_reverse.mp (List.mem_of_find?_eq_some h),?_⟩
  simpa using List.find?_some h

theorem lastNamed_of_unique {name : Str} {cookies : List Cookie} {cookie : Cookie} (hmem : cookie ∈ cookies)
    (hname : cookie.name = name) (honly : ∀ other ∈ cookies, other.name = name → other = cookie) :
    lastNamed name cookies = some cookie := by
  cases hlast : lastNamed name cookies with
  | none =>
    have hnone := List.find?_eq_none.mp hlast cookie (List.mem_reverse.mpr hmem)
    simp [hname] at hnone
  | some other =>
    obtain ⟨hother,hsame⟩ := lastNamed_mem hlast
    rw [honly other hother hsame]

theorem lastNamed_append (name : Str) (front back : List Cookie) :
    lastNamed name (front++back) = (lastNamed name back).or (lastNamed name front) := by
  rw [lastNamed,List.reverse_append,List.find?_append]
  rfl

/-- When the partition of a matching cookie is exported last, the cookie is the last of its name. -/
theorem lastNamed_hindmost (hnamed : ∀ key name cookie, cookieAt s key name = some cookie → cookie.name = name)
    {name : Str} {cookie : Cookie} (hstored : cookieAt s key name = some cookie)
    (hmatch : cookie.matchesUrl origin.format = true) :
    lastNamed name (s.exportCookies origin (hindmost key)) = some cookie := by
  obtain ⟨partition,hlookup,hname⟩ := cookieAt_iff.mp hstored
  obtain ⟨rest,hrest⟩ := valuesIn_hindmost hlookup
  have hback : lastNamed name (matching origin (hindmost key) partition) = some cookie := by
    apply lastNamed_of_unique (mem_matching.mpr ⟨⟨name,hname⟩,hmatch⟩) (hnamed key name cookie hstored)
    intro other hmem hsame
    obtain ⟨⟨name',hname'⟩,-⟩ := mem_matching.mp hmem
    have hother := hnamed key name' other (cookieAt_iff.mpr ⟨partition,hlookup,hname'⟩)
    rw [← hother,hsame,hname,Option.some.injEq] at hname'
    exact hname'.symm
  have hsplit : s.exportCookies origin (hindmost key) =
      rest.flatMap (matching origin (hindmost key))++matching origin (hindmost key) partition := by
    rw [StorageBridge.exportCookies,hrest]
    exact List.flatMap_append.trans (congrArg (_++·) (List.flatMap_singleton _ _))
  rw [hsplit,lastNamed_append,hback,Option.some_or]

end Cookies

section Restore

variable {delay : ℕ} {importOrder : IterationOrder Str}

theorem importOriginData_eq {s₁ s₂ : StorageBridge} {exported : StorageExport}
    (hlocal : s.importItems (setItem origin .localStorage now) (pairsIn importOrder exported.localStorage) = (.ok (),s₁))
    (hsession : s₁.importItems (setItem origin .sessionStorage now) (pairsIn importOrder exported.sessionStorage) =
      (.ok (),s₂)) :
    s.importOriginData origin exported now importOrder = (.ok (),s₂.importCookies origin now exported.cookies) := by
  have hfirst : s.importItems (fun self key value => self.localStorageSet origin key value now)
      (pairsIn importOrder exported.localStorage) = (.ok (),s₁) := hlocal
  have hsecond : s₁.importItems (fun self key value => self.sessionStorageSet origin key value now)
      (pairsIn importOrder exported.sessionStorage) = (.ok (),s₂) := hsession
  rw [StorageBridge.importOriginData,hfirst]
  dsimp only
  rw [hsecond]

theorem stored_of_live {value : Str} (h : liveValue area key now = some value) :
    ∃ item, area.items.lookup key = some item ∧ item.value = value := by
  obtain ⟨item,hitem,hvalue⟩ := Option.map_eq_some_iff.mp h
  exact ⟨item,(Option.filter_eq_some_iff.mp hitem).1,hvalue⟩

/-- Of the cookies that are imported into an empty jar the last of each name is there. -/
theorem imported_iff (hjar : s.cookieJar = ∅) (cookies : List Cookie) {name : Str} {cookie : Cookie}
    (hlive : cookie.isExpired now = false) :
    cookieAt (s.importCookies origin now cookies) key name = some cookie ↔
      key = ownPartition origin ∧ lastNamed name cookies = some cookie := by
  have hlast := cookieAt_importCookies s origin now cookies key name
  have hnone : cookieAt s key name = none := by
    rw [cookieAt,hjar]
    rfl
  rw [hnone,Option.or_none] at hlast
  have hfilter : ∀ found : Option Cookie, found.filter (!·.isExpired now) = some cookie ↔ found = some cookie := by
    intro found
    rw [Option.filter_eq_some_iff,hlive]
    exact and_iff_left rfl
  rw [← hfilter,hlast,hfilter,Option.ite_none_right_eq_some]

/-- The items come back in any case, and of the cookies that are exported the last of each name. -/
theorem restore_spec (h : Sound Measured s) (origin : Origin) (now delay : ℕ) (exportOrder importOrder : IterationOrder Str) :
    (restore s origin now delay exportOrder importOrder).1 = .ok () ∧
    (∀ kind key value, liveValue (s.areaOf origin.format kind) key (now+delay) = some value →
      liveValue ((restore s origin now delay exportOrder importOrder).2.areaOf origin.format kind) key (now+delay) =
        some value) ∧
    ∀ key name cookie, cookie.isExpired (now+delay) = false →
      (cookieAt (restore s origin now delay exportOrder importOrder).2 key name = some cookie ↔
        key = ownPartition origin ∧ lastNamed name (s.exportCookies origin exportOrder) = some cookie) := by
  obtain ⟨hlocal,hsession,hcookies⟩ := exportOriginData_fst s origin now exportOrder
  rw [restore]
  generalize (s.exportOriginData origin now exportOrder).1 = exported at hlocal hsession hcookies ⊢
  obtain ⟨hok,hlocalItems⟩ := importItems_empty (s:=.init) (now+delay) (now+delay)
    (h.areas origin.format .localStorage)
    (fun key value hlookup => stored_of_live ((hlocal key).symm.trans hlookup)) rfl importOrder
  have hframe := importItems_frame origin .localStorage (now+delay) .init
    (pairsIn importOrder exported.localStorage)
  generalize hs₁ : StorageBridge.init.importItems (setItem origin .localStorage (now+delay))
    (pairsIn importOrder exported.localStorage) = r₁ at hok hlocalItems hframe
  obtain ⟨result₁,s₁⟩ := r₁
  subst hok
  obtain ⟨hok,hsessionItems⟩ := importItems_empty (now+delay) (now+delay)
    (h.areas origin.format .sessionStorage)
    (fun key value hlookup => Option.map_eq_some_iff.mp ((hsession key).symm.trans hlookup))
    (hframe.other .sessionStorage nofun) importOrder
  have hframe₂ := importItems_frame origin .sessionStorage (now+delay) s₁
    (pairsIn importOrder exported.sessionStorage)
  generalize hs₂ : s₁.importItems (setItem origin .sessionStorage (now+delay))
    (pairsIn importOrder exported.sessionStorage) = r₂ at hok hsessionItems hframe₂
  obtain ⟨result₂,s₂⟩ := r₂
  subst hok
  rw [importOriginData_eq hs₁ hs₂,hcookies]
  refine ⟨rfl,fun kind key value hlive => ?_,fun key name cookie hlive => ?_⟩
  · rw [areaOf_importCookies]
    cases kind with
    | localStorage =>
      rw [hframe₂.other .localStorage nofun]
      exact hlocalItems key value ((hlocal key).trans (liveValue_earlier hlive))
    | sessionStorage =>
      obtain ⟨item,hlookup,hvalue⟩ := stored_of_live hlive
      exact hsessionItems key value ((hsession key).trans (by rw [hlookup,Option.map_some,hvalue]))
  · exact imported_iff (hframe₂.jar.trans hframe.jar) _ hlive

/-- In every order the data come back exactly if the cookies are portable. -/
theorem restored_iff_portable (h : Sound Measured s) :
    (∀ exportOrder importOrder, Restored s origin now delay exportOrder importOrder) ↔ Portable s origin (now+delay) := by
  constructor
  · intro hrestored site text name cookie hparse hstored hlive
    have hall : ∀ order, partitionKey ⟨site,text⟩ = ownPartition origin ∧
        lastNamed name (s.exportCookies origin order) = some cookie := by
      intro order
      obtain ⟨-,-,hcookies⟩ := restore_spec h origin now delay order order
      exact (hcookies _ name cookie hlive).mp ((hrestored order order).cookies site text name cookie hparse hstored hlive)
    have hmem := (lastNamed_mem (hall (hindmost [])).2).1
    refine ⟨(hall (hindmost [])).1,(mem_exportCookies.mp hmem).2,fun key other hother hmatch => ?_⟩
    have hlast := lastNamed_hindmost h.named hother hmatch
    rw [(hall (hindmost key)).2,Option.some.injEq] at hlast
    exact hlast.symm
  · intro hportable exportOrder importOrder
    obtain ⟨hok,hitems,hcookies⟩ := restore_spec h origin now delay exportOrder importOrder
    refine ⟨hok,hitems,fun site text name cookie hparse hstored hlive => ?_⟩
    obtain ⟨hown,hmatch,honly⟩ := hportable site text name cookie hparse hstored hlive
    refine (hcookies _ name cookie hlive).mpr ⟨hown,?_⟩
    apply lastNamed_of_unique (mem_exportCookies.mpr ⟨⟨_,name,hstored⟩,hmatch⟩) (h.named _ name cookie hstored)
    intro other hmem hname
    obtain ⟨⟨key,name',hother⟩,hmatch'⟩ := mem_exportCookies.mp hmem
    have hsame : name' = name := (h.named key name' other hother).symm.trans hname
    exact honly key other (hsame ▸ hother) hmatch'

end Restore

/-- In every reachable state the data of an origin come back, in whatever order the tables are
read, exactly if the unexpired cookies of the origin are portable. -/
theorem restored_iff (calls : List ManagerCall) (origin : Origin) (now delay : ℕ) :
    (∀ exportOrder importOrder, Restored (run managerStep .init calls) origin now delay exportOrder importOrder) ↔
      Portable (run managerStep .init calls) origin (now+delay) :=
  restored_iff_portable (measured_kept.run calls)

def siteCookie : Cookie := .init [0x6e] [0x76]

def plainOrigin : Origin := ⟨[0x68,0x74,0x74,0x70],[0x61],80⟩

/-- A cookie that was set for an origin under the site `b` is lost. -/
theorem restored_broken : ¬∀ (calls : List ManagerCall) (origin : Origin) (now delay : ℕ)
    (exportOrder importOrder : IterationOrder Str),
    Restored (run managerStep .init calls) origin now delay exportOrder importOrder := by
  intro h
  have hrestored := h [.cookie ⟨⟨[0x62],plainOrigin.format⟩,.setCookie siteCookie,0⟩] plainOrigin 0 0
    (foremost []) (foremost [])
  have hcookie := hrestored.cookies [0x62] plainOrigin.format siteCookie.name siteCookie (by decide) (by decide) (by decide)
  revert hcookie
  decide

end ZNet.Storage
