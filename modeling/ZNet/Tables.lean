import Mathlib.Data.List.AList
import Mathlib.Algebra.Ring.Nat

/-!
# Tables

Finite maps with values of one type: selecting entries, changing all values, and the
number of keys and the total size of the values through insertions and removals.
-/

namespace ZNet.Tables

abbrev Table (α β : Type) := AList fun _ : α => β

/-- The order in which a table iterates over its keys. -/
abbrev IterationOrder (α : Type) := (keys : List α) → { order : List α // order.Perm keys }

variable {α β γ : Type}

/-- The entries with a key and a value of the given kind. -/
def select (p : α → β → Bool) (m : Table α β) : Table α β :=
  ⟨m.entries.filter fun e => p e.1 e.2,m.nodupKeys.sublist List.filter_sublist⟩

def mapValues (f : β → γ) (m : Table α β) : Table α γ where
  entries := m.entries.map fun e => ⟨e.1,f e.2⟩
  nodupKeys := by
    have hkeys : (m.entries.map fun e => (⟨e.1,f e.2⟩ : Σ _ : α, γ)).keys = m.entries.keys := by
      simp [List.keys,Function.comp_def]
    rw [List.NodupKeys,hkeys]
    exact m.nodupKeys

/-- The sum of the sizes of the values. -/
def total (size : β → ℕ) (m : Table α β) : ℕ := (m.entries.map fun e => size e.2).sum

variable [DecidableEq α] {m : Table α β} {a b : α} {v w : β} {size : β → ℕ}

theorem lookup_insert_eq (a b : α) (v : β) (m : Table α β) :
    (m.insert a v).lookup b = if b = a then some v else m.lookup b := by
  by_cases h : b = a
  · rw [h,AList.lookup_insert,if_pos rfl]
  · rw [AList.lookup_insert_ne h,if_neg h]

theorem lookup_erase_eq (a b : α) (m : Table α β) : (m.erase a).lookup b = if b = a then none else m.lookup b := by
  by_cases h : b = a
  · rw [h,AList.lookup_erase,if_pos rfl]
  · rw [AList.lookup_erase_ne h,if_neg h]

/-- A removal undoes an insertion under its key. -/
theorem erase_insert (a : α) (v : β) (m : Table α β) : (m.insert a v).erase a = m.erase a := by
  apply AList.ext
  exact List.kerase_cons_eq (s:=⟨a,v⟩) (l:=m.entries.kerase a) rfl

/-- What is left after a removal was there before, under another key. -/
theorem lookup_of_erase (h : (m.erase a).lookup b = some v) : b ≠ a ∧ m.lookup b = some v := by
  rw [lookup_erase_eq] at h
  split at h
  · cases h
  · rename_i hne
    exact ⟨hne,h⟩

theorem lookup_select (p : α → β → Bool) (m : Table α β) (a : α) :
    (select p m).lookup a = (m.lookup a).filter (p a) := by
  apply Option.ext
  intro v
  rw [Option.filter_eq_some_iff,← Option.mem_def,← Option.mem_def,AList.mem_lookup_iff,AList.mem_lookup_iff]
  exact List.mem_filter

theorem lookup_mapValues (f : β → γ) (m : Table α β) (a : α) : (mapValues f m).lookup a = (m.lookup a).map f := by
  apply Option.ext
  intro w
  rw [← Option.mem_def,AList.mem_lookup_iff,Option.map_eq_some_iff]
  constructor
  · intro h
    obtain ⟨⟨b,v⟩,hmem,heq⟩ := List.mem_map.mp h
    cases heq
    exact ⟨v,AList.mem_lookup_iff.mpr hmem,rfl⟩
  · rintro ⟨v,hlookup,rfl⟩
    exact List.mem_map.mpr ⟨⟨a,v⟩,AList.mem_lookup_iff.mp hlookup,rfl⟩

omit [DecidableEq α] in
theorem entries_mapValues (f : β → γ) (m : Table α β) :
    (mapValues f m).entries = m.entries.map fun e => ⟨e.1,f e.2⟩ := rfl

omit [DecidableEq α] in
theorem keys_mapValues (f : β → γ) (m : Table α β) : (mapValues f m).keys = m.keys := by
  simp [mapValues,AList.keys,List.keys]

theorem mapValues_erase (f : β → γ) (m : Table α β) (a : α) : mapValues f (m.erase a) = (mapValues f m).erase a := by
  apply AList.ext
  change (m.entries.kerase a).map _ = (m.entries.map _).kerase a
  rw [List.kerase,List.kerase,List.eraseP_map]
  rfl

theorem mapValues_insert (f : β → γ) (m : Table α β) (a : α) (v : β) :
    mapValues f (m.insert a v) = (mapValues f m).insert a (f v) := by
  apply AList.ext
  have herase := congrArg AList.entries (mapValues_erase f m a)
  have hinsert : (m.insert a v).entries = ⟨a,v⟩::(m.erase a).entries := AList.entries_insert
  rw [AList.entries_insert,entries_mapValues,hinsert,List.map_cons]
  exact congrArg _ herase

theorem lookup_none_iff : m.lookup a = none ↔ a ∉ m.keys := by
  rw [AList.lookup_eq_none,AList.mem_keys]

theorem mem_of_lookup (h : m.lookup a = some v) : a ∈ m := by
  rw [← AList.lookup_isSome,h]
  rfl

theorem exists_lookup (h : a ∈ m) : ∃ v, m.lookup a = some v := Option.isSome_iff_exists.mp (AList.lookup_isSome.mpr h)

theorem mem_keys_of_lookup (h : m.lookup a = some v) : a ∈ m.keys := AList.mem_keys.mp (mem_of_lookup h)

/-- An entry splits the table. -/
theorem entries_split (h : m.lookup a = some v) :
    ∃ l₁ l₂, m.entries = l₁++⟨a,v⟩::l₂ ∧ (m.erase a).entries = l₁++l₂ := by
  obtain ⟨w,l₁,l₂,-,hentries,herase⟩ := List.exists_of_kerase (mem_keys_of_lookup h)
  have hw : m.lookup a = some w := AList.mem_lookup_iff.mpr (by rw [hentries]; simp)
  rw [h,Option.some.injEq] at hw
  exact ⟨l₁,l₂,hw ▸ hentries,herase⟩

theorem total_erase (h : m.lookup a = some v) (size : β → ℕ) : total size (m.erase a)+size v = total size m := by
  obtain ⟨l₁,l₂,hentries,herase⟩ := entries_split h
  rw [total,total,hentries,herase]
  simp only [List.map_append,List.map_cons,List.sum_append,List.sum_cons]
  omega

theorem total_erase_le (size : β → ℕ) (m : Table α β) (a : α) : total size (m.erase a) ≤ total size m := by
  cases h : m.lookup a with
  | some v => exact Nat.le.intro (total_erase h size)
  | none =>
    have hsame : (m.erase a).entries = m.entries := List.kerase_of_notMem_keys (lookup_none_iff.mp h)
    rw [total,total,hsame]

theorem total_insert (size : β → ℕ) (m : Table α β) (a : α) (v : β) :
    total size (m.insert a v) = size v+total size (m.erase a) := by
  rw [total,AList.entries_insert,List.map_cons,List.sum_cons]
  rfl

theorem total_insert_new (h : m.lookup a = none) (size : β → ℕ) (v : β) :
    total size (m.insert a v) = size v+total size m := by
  have hsame : (m.erase a).entries = m.entries := List.kerase_of_notMem_keys (lookup_none_iff.mp h)
  rw [total_insert,total,hsame]
  rfl

/-- A value takes the place of another one. -/
theorem total_insert_old (h : m.lookup a = some v) (size : β → ℕ) (w : β) :
    total size (m.insert a w)+size v = size w+total size m := by
  rw [total_insert,Nat.add_assoc,total_erase h]

theorem keys_length_erase (h : m.lookup a = some v) : (m.erase a).keys.length+1 = m.keys.length := by
  have hmem := mem_keys_of_lookup h
  rw [AList.keys_erase,List.length_erase_of_mem hmem]
  exact Nat.succ_pred_eq_of_pos (List.length_pos_of_mem hmem)

theorem erase_of_lookup_none (h : m.lookup a = none) : m.erase a = m :=
  AList.ext (List.kerase_of_notMem_keys (lookup_none_iff.mp h))

theorem keys_length_erase_le (m : Table α β) (a : α) : (m.erase a).keys.length ≤ m.keys.length := by
  cases h : m.lookup a with
  | none => rw [erase_of_lookup_none h]
  | some v => exact Nat.le.intro (keys_length_erase h)

theorem keys_length_insert (m : Table α β) (a : α) (v : β) :
    (m.insert a v).keys.length = (m.erase a).keys.length+1 := by
  rw [AList.keys_insert,List.length_cons,AList.keys_erase]

/-- Several keys are removed. -/
def eraseAll (m : Table α β) (as : List α) : Table α β := as.foldl (·.erase ·) m

theorem keys_length_eraseAll_le (m : Table α β) (as : List α) : (eraseAll m as).keys.length ≤ m.keys.length := by
  induction as generalizing m with
  | nil => exact le_rfl
  | cons a as ih => exact Nat.le_trans (ih (m.erase a)) (keys_length_erase_le m a)

/-- As many keys are left exactly if none was stored. -/
theorem keys_length_eraseAll {as : List α} :
    (eraseAll m as).keys.length = m.keys.length ↔ ∀ a ∈ as, m.lookup a = none := by
  induction as generalizing m with
  | nil => simp [eraseAll]
  | cons a as ih =>
    rw [List.forall_mem_cons]
    cases h : m.lookup a with
    | some v =>
      have hle := keys_length_eraseAll_le (m.erase a) as
      have herase := keys_length_erase h
      constructor
      · intro hsame
        change (eraseAll (m.erase a) as).keys.length = m.keys.length at hsame
        omega
      · intro hnone
        cases hnone.1
    | none =>
      have hsame : eraseAll m (a::as) = eraseAll m as := congrArg (eraseAll · as) (erase_of_lookup_none h)
      rw [hsame,ih]
      simp

theorem eraseAll_of_lookup_none {as : List α} (h : ∀ a ∈ as, m.lookup a = none) : eraseAll m as = m := by
  induction as generalizing m with
  | nil => rfl
  | cons a as ih =>
    have hfirst := erase_of_lookup_none (h a List.mem_cons_self)
    have hsame : eraseAll m (a::as) = eraseAll m as := congrArg (eraseAll · as) hfirst
    rw [hsame]
    exact ih fun b hb => h b (List.mem_cons_of_mem a hb)

/-- Nothing is left of a table whose keys are all removed. -/
theorem eraseAll_of_subset {as : List α} (h : ∀ a ∈ m, a ∈ as) : eraseAll m as = ∅ := by
  induction as generalizing m with
  | nil =>
    have hkeys : m.keys = [] := List.eq_nil_iff_forall_not_mem.mpr fun a ha => by cases h a (AList.mem_keys.mpr ha)
    exact AList.ext (List.map_eq_nil_iff.mp hkeys)
  | cons a as ih =>
    apply ih
    intro b hb
    obtain ⟨hne,hmem⟩ := AList.mem_erase.mp hb
    exact (List.mem_cons.mp (h b hmem)).resolve_left hne

section Related

variable {R S : β → γ → Prop} {v : β} {w : γ}

omit [DecidableEq α] in
/-- What is related to an entry is an entry. -/
theorem exists_of_rel_left {o : Option γ} (h : Option.Rel R (some v) o) : ∃ w, o = some w ∧ R v w := by
  cases h with
  | some hrel => exact ⟨_,rfl,hrel⟩

omit [DecidableEq α] in
theorem exists_of_rel_right {o : Option β} (h : Option.Rel R o (some w)) : ∃ v, o = some v ∧ R v w := by
  cases h with
  | some hrel => exact ⟨_,rfl,hrel⟩

omit [DecidableEq α] in
theorem none_of_rel_none {o : Option γ} (h : Option.Rel R none o) : o = none := by
  cases h
  rfl

omit [DecidableEq α] in
theorem rel_imp {o : Option β} {o' : Option γ} (himp : ∀ v w, R v w → S v w) (h : Option.Rel R o o') :
    Option.Rel S o o' := by
  cases h with
  | some hrel => exact .some (himp _ _ hrel)
  | none => exact .none

omit [DecidableEq α] in
/-- The values on the left change. -/
theorem rel_map_left {f : β → β} {o : Option β} {o' : Option γ}
    (himp : ∀ v w, o = some v → R v w → S (f v) w) (h : Option.Rel R o o') : Option.Rel S (o.map f) o' := by
  cases h with
  | some hrel => exact .some (himp _ _ rfl hrel)
  | none => exact .none

end Related

section Iteration

/-- The values in the order of an iteration. -/
def valuesIn (order : IterationOrder α) (m : Table α β) : List β := (order m.keys).1.filterMap m.lookup

/-- The iteration that comes to one key first. -/
def foremost (a : α) : IterationOrder α := fun keys =>
  if h : a ∈ keys then ⟨a::keys.erase a,(List.perm_cons_erase h).symm⟩ else ⟨keys,List.Perm.refl _⟩

/-- The iteration that comes to one key last. -/
def hindmost (a : α) : IterationOrder α := fun keys =>
  ⟨(foremost a keys).1.reverse,(List.reverse_perm _).trans (foremost a keys).2⟩

theorem mem_valuesIn {order : IterationOrder α} : v ∈ valuesIn order m ↔ ∃ a, m.lookup a = some v := by
  rw [valuesIn,List.mem_filterMap]
  constructor
  · rintro ⟨a,-,ha⟩
    exact ⟨a,ha⟩
  · rintro ⟨a,ha⟩
    exact ⟨a,(order m.keys).2.mem_iff.mpr (mem_keys_of_lookup ha),ha⟩

theorem valuesIn_foremost (h : m.lookup a = some v) : ∃ rest, valuesIn (foremost a) m = v::rest := by
  rw [valuesIn,foremost,dif_pos (mem_keys_of_lookup h),List.filterMap_cons,h]
  exact ⟨_,rfl⟩

theorem valuesIn_hindmost (h : m.lookup a = some v) : ∃ rest, valuesIn (hindmost a) m = rest++[v] := by
  obtain ⟨rest,hrest⟩ := valuesIn_foremost h
  refine ⟨rest.reverse,?_⟩
  rw [valuesIn,hindmost,List.filterMap_reverse,← valuesIn,hrest,List.reverse_cons]

end Iteration

end ZNet.Tables
