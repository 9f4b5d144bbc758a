import ZNet.DnsCache
import ZNet.TextScan
import Mathlib.Data.List.Nodup
import Mathlib.Data.List.Perm.Basic

/-!
# The DNS cache as a map

With keys that keep their text, the table of `DnsCache` is a map from names and types to
the entries of the latest `put`. The name and the type go into one text, from which both
can be read back.
-/

namespace ZNet.DnsCacheMap
open DnsName DnsResponse DnsCaches Runs TextScan

/-- The entry that a call puts under a name and a type, if it is a `put` that succeeds. -/
def entryOf (name : List UInt8) (recordType : DnsRecordType) : Call → Option CacheEntry
  | .put name' recordType' answers now _ (some _) true =>
    if (name',recordType') = (name,recordType) ∧ now+maxTtl answers < 9223372036854775808 then
      some ⟨answers,now+maxTtl answers,now⟩
    else none
  | _ => none

/-- The entry of the latest `put` with this name and type. -/
def latest (name : List UInt8) (recordType : DnsRecordType) (calls : List Call) : Option CacheEntry :=
  calls.reverse.findSome? (entryOf name recordType)

/-- The calls after that `put`, or all calls if there is none. -/
def since (name : List UInt8) (recordType : DnsRecordType) (calls : List Call) : List Call :=
  calls.reverse.takeWhile fun call => (entryOf name recordType call).isNone

/-- After the latest `put` with this name and type, no clean-up comes at its expiry or later. -/
def Unswept (name : List UInt8) (recordType : DnsRecordType) (calls : List Call) (entry : CacheEntry) : Prop :=
  ∀ t appended memories, .cleanup t appended memories ∈ since name recordType calls → t < entry.expiresAt

/-- The call finds every key with its text: the memory is the same at all times, and a key
is stored at an address where the memory has its text. -/
def KeepsText (memory : Memory) : Call → Prop
  | .get _ _ _ seen _ => seen = memory
  | .put name recordType _ _ seen address _ => seen = memory ∧ ∀ a ∈ address, memory a = keyText name recordType
  | .cleanup _ _ seen => ∀ i, seen i = memory

section KeyText

theorem colon_not_mem_digits (recordType : DnsRecordType) :
    colon ∉ (Nat.toDigits 10 recordType.toNat).map fun c => UInt8.ofNat c.toNat := by
  cases recordType <;> decide

/-- The name and the type can be read back from the text, whatever bytes the name has: no
digit is a colon, so the last colon is the one between the two. -/
theorem keyText_inj {name name' : List UInt8} {recordType recordType' : DnsRecordType}
    (h : keyText name recordType = keyText name' recordType') : name = name' ∧ recordType = recordType' := by
  have hreverse := congrArg List.reverse h
  simp only [keyText,List.reverse_append,List.reverse_cons,List.append_assoc,List.singleton_append] at hreverse
  have hcolon (recordType : DnsRecordType) := mt List.mem_reverse.mp (colon_not_mem_digits recordType)
  obtain ⟨hdigits,hname⟩ := append_first_inj (hcolon recordType) (hcolon recordType') hreverse
  refine ⟨List.reverse_injective hname,?_⟩
  have hdigits' := List.reverse_injective hdigits
  revert hdigits'
  cases recordType <;> cases recordType' <;> decide

end KeyText

/-- The last element takes the place of the one at `i`, which is then gone. -/
theorem perm_swapRemove {α : Type} (init : List α) (last : α) {i : ℕ} (hi : i < (init++[last]).length) :
    (init++[last]).Perm ((init++[last])[i]::((init++[last]).set i last).dropLast) := by
  induction init generalizing i with
  | nil =>
    obtain rfl : i = 0 := by simpa using hi
    rfl
  | cons a init ih =>
    cases i with
    | zero =>
      have hdrop : ((a::init++[last]).set 0 last).dropLast = last::init := by
        rw [List.cons_append,List.set_cons_zero,← List.cons_append,List.dropLast_concat]
      rw [hdrop]
      exact (List.perm_append_singleton last init).cons a
    | succ i =>
      have hlt : i < (init++[last]).length := by simpa using hi
      have hset : ((a::init++[last]).set (i+1) last).dropLast = a::((init++[last]).set i last).dropLast := by
        rw [List.cons_append,List.set_cons_succ,List.dropLast_cons_of_ne_nil]
        apply List.ne_nil_of_length_pos
        simp
      rw [hset]
      exact ((ih hlt).cons a).trans (List.Perm.swap _ _ _)

/-- To change an element is to put another one beside the rest. -/
theorem perm_modify {α : Type} {xs : List α} {i : ℕ} (hi : i < xs.length) (f : α → α) :
    ∃ rest, xs.Perm (xs[i]::rest) ∧ (xs.modify i f).Perm (f xs[i]::rest) := by
  induction xs generalizing i with
  | nil => exact absurd hi (Nat.not_lt_zero _)
  | cons a xs ih =>
    cases i with
    | zero => exact ⟨xs,.rfl,.rfl⟩
    | succ i =>
      obtain ⟨rest,hperm,hmodify⟩ := ih (Nat.lt_of_succ_lt_succ hi)
      exact ⟨a::rest,(hperm.cons a).trans (.swap _ _ _),(hmodify.cons a).trans (.swap _ _ _)⟩

/-- The keys in the table have different texts and the hashes of these. -/
structure Keyed (hash : List UInt8 → ℕ) (memory : Memory) (cache : DnsCache) : Prop where
  nodup : (cache.entries.map fun e => memory e.1.address).Nodup
  hash_eq : ∀ e ∈ cache.entries, e.1.hash = hash (memory e.1.address)

/-- The table has the entry under a key of this text. -/
def Holds (memory : Memory) (cache : DnsCache) (text : List UInt8) (entry : CacheEntry) : Prop :=
  ∃ key, (key,entry) ∈ cache.entries ∧ memory key.address = text

section Table

variable {hash : List UInt8 → ℕ} {memory : Memory} {cache : DnsCache} {text key : List UInt8} {entry : CacheEntry}

theorem Keyed.unique (h : Keyed hash memory cache) {e e' : StoredKey×CacheEntry} (he : e ∈ cache.entries)
    (he' : e' ∈ cache.entries) (htext : memory e.1.address = memory e'.1.address) : e = e' :=
  List.inj_on_of_nodup_map h.nodup he he' htext

/-- Under a text the table finds the entry that it has there. -/
theorem index_some {i : ℕ} (h : cache.index hash memory text = some i) :
    ∃ hlt : i < cache.entries.length, memory cache.entries[i].1.address = text := by
  obtain ⟨hlt,hmatch,-⟩ := List.findIdx?_eq_some_iff_getElem.mp h
  exact ⟨hlt,(of_decide_eq_true hmatch).2⟩

theorem index_none (hkeyed : Keyed hash memory cache) (h : cache.index hash memory text = none) :
    ∀ e ∈ cache.entries, memory e.1.address ≠ text := by
  intro e he htext
  have hmatch := of_decide_eq_false (List.findIdx?_eq_none_iff.mp h e he)
  exact hmatch ⟨by rw [hkeyed.hash_eq e he,htext],htext⟩

/-- With one entry taken out, no other has its text. -/
theorem Keyed.of_cons {x : StoredKey×CacheEntry} {rest : DnsCache} (h : Keyed hash memory cache)
    (hperm : cache.entries.Perm (x::rest.entries)) :
    Keyed hash memory rest ∧ ∀ e ∈ rest.entries, memory e.1.address ≠ memory x.1.address := by
  have hnodup := ((hperm.map fun e => memory e.1.address).nodup_iff).mp h.nodup
  rw [List.map_cons,List.nodup_cons] at hnodup
  obtain ⟨hx,hrest⟩ := hnodup
  refine ⟨⟨hrest,fun e he => h.hash_eq e (hperm.mem_iff.mpr (List.mem_cons_of_mem _ he))⟩,?_⟩
  intro e he htext
  exact hx (htext ▸ List.mem_map_of_mem he)

theorem Keyed.cons {x : StoredKey×CacheEntry} {rest : DnsCache} (h : Keyed hash memory rest)
    (hx : ∀ e ∈ rest.entries, memory e.1.address ≠ memory x.1.address) (hhash : x.1.hash = hash (memory x.1.address))
    (hperm : cache.entries.Perm (x::rest.entries)) : Keyed hash memory cache where
  nodup := by
    rw [(hperm.map fun e => memory e.1.address).nodup_iff,List.map_cons,List.nodup_cons]
    refine ⟨?_,h.nodup⟩
    intro hmem
    obtain ⟨e,he,htext⟩ := List.mem_map.mp hmem
    exact hx e he htext
  hash_eq := by
    intro e he
    obtain rfl|he := List.mem_cons.mp (hperm.mem_iff.mp he)
    · exact hhash
    · exact h.hash_eq e he

theorem holds_cons {x : StoredKey×CacheEntry} {rest : DnsCache} (hperm : cache.entries.Perm (x::rest.entries)) :
    Holds memory cache text entry ↔ (memory x.1.address = text ∧ entry = x.2) ∨ Holds memory rest text entry := by
  simp only [Holds,hperm.mem_iff,List.mem_cons,or_and_right,exists_or]
  apply or_congr_left
  constructor
  · rintro ⟨key,rfl,htext⟩
    exact ⟨htext,rfl⟩
  · rintro ⟨htext,rfl⟩
    exact ⟨x.1,rfl,htext⟩

/-- What `swapRemove` takes out, if the key is there. -/
theorem swapRemove_cases (hkeyed : Keyed hash memory cache) (key : List UInt8) :
    (∃ x, cache.entries.Perm (x::(cache.swapRemove hash memory key).entries) ∧ memory x.1.address = key) ∨
    cache.swapRemove hash memory key = cache ∧ ∀ e ∈ cache.entries, memory e.1.address ≠ key := by
  rw [DnsCache.swapRemove]
  cases hindex : cache.index hash memory key with
  | none => exact .inr ⟨rfl,index_none hkeyed hindex⟩
  | some i =>
    obtain ⟨hlt,htext⟩ := index_some hindex
    obtain ⟨entries⟩ := cache
    obtain rfl|⟨init,last,rfl⟩ := List.eq_nil_or_concat' entries
    · exact absurd hlt (Nat.not_lt_zero _)
    · simp only [List.getLast?_concat]
      exact .inl ⟨_,perm_swapRemove init last hlt,htext⟩

theorem keyed_swapRemove (hkeyed : Keyed hash memory cache) (key : List UInt8) :
    Keyed hash memory (cache.swapRemove hash memory key) ∧
    ∀ text entry, Holds memory (cache.swapRemove hash memory key) text entry ↔
      text ≠ key ∧ Holds memory cache text entry := by
  obtain ⟨x,hperm,rfl⟩|⟨hsame,hnone⟩ := swapRemove_cases hkeyed key
  · obtain ⟨hrest,hx⟩ := hkeyed.of_cons hperm
    refine ⟨hrest,fun text entry => ?_⟩
    rw [holds_cons hperm]
    constructor
    · rintro ⟨key,he,rfl⟩
      exact ⟨hx _ he,.inr ⟨key,he,rfl⟩⟩
    · rintro ⟨hne,⟨htext,-⟩|h⟩
      · exact (hne htext.symm).elim
      · exact h
  · rw [hsame]
    refine ⟨hkeyed,fun text entry => (and_iff_right_of_imp ?_).symm⟩
    rintro ⟨key,he,rfl⟩
    exact hnone _ he

/-- To store an entry is to take out the one with its key, if there is one, and to add it. -/
theorem store_perm (hkeyed : Keyed hash memory cache) {address : ℕ} (haddress : memory address = key)
    (entry : CacheEntry) :
    ∃ k, (cache.store hash memory key address entry).entries.Perm
      ((k,entry)::(cache.swapRemove hash memory key).entries) ∧ memory k.address = key ∧ k.hash = hash key := by
  obtain ⟨x,hperm,htext⟩|⟨hsame,hnone⟩ := swapRemove_cases hkeyed key
  · rw [DnsCache.store]
    cases hindex : cache.index hash memory key with
    | none => exact (index_none hkeyed hindex x (hperm.mem_iff.mpr List.mem_cons_self) htext).elim
    | some i =>
      obtain ⟨hlt,htext'⟩ := index_some hindex
      obtain ⟨rest,hrest,hmodify⟩ := perm_modify hlt fun e => (e.1,entry)
      have hx : cache.entries[i] = x :=
        hkeyed.unique (List.getElem_mem hlt) (hperm.mem_iff.mpr List.mem_cons_self) (htext'.trans htext.symm)
      rw [hx] at hrest hmodify
      refine ⟨x.1,hmodify.trans ((hrest.symm.trans hperm).cons_inv.cons _),htext,?_⟩
      rw [hkeyed.hash_eq x (hperm.mem_iff.mpr List.mem_cons_self),htext]
  · rw [hsame,DnsCache.store]
    cases hindex : cache.index hash memory key with
    | none => exact ⟨⟨address,hash key⟩,List.perm_append_singleton _ _,haddress,rfl⟩
    | some i =>
      obtain ⟨hlt,htext⟩ := index_some hindex
      exact (hnone _ (List.getElem_mem hlt) htext).elim

theorem keyed_store (hkeyed : Keyed hash memory cache) {address : ℕ} (haddress : memory address = key)
    (entry : CacheEntry) :
    Keyed hash memory (cache.store hash memory key address entry) ∧
    ∀ text e, Holds memory (cache.store hash memory key address entry) text e ↔
      if text = key then e = entry else Holds memory cache text e := by
  obtain ⟨k,hperm,htext,hhash⟩ := store_perm hkeyed haddress entry
  obtain ⟨hrest,hholds⟩ := keyed_swapRemove hkeyed key
  have hne : ∀ e ∈ (cache.swapRemove hash memory key).entries, memory e.1.address ≠ memory k.address := by
    intro e he
    rw [htext]
    exact ((hholds _ e.2).mp ⟨e.1,he,rfl⟩).1
  refine ⟨hrest.cons hne (by rw [hhash,htext]) hperm,fun text e => ?_⟩
  rw [holds_cons hperm,hholds,htext]
  by_cases h : text = key
  · simp [h]
  · simp [h,Ne.symm h]

theorem keyed_removeKeys (hkeyed : Keyed hash memory cache) (addresses : List ℕ) :
    Keyed hash memory (cache.removeKeys hash addresses (List.replicate addresses.length memory)) ∧
    ∀ text entry, Holds memory (cache.removeKeys hash addresses (List.replicate addresses.length memory)) text entry ↔
      (∀ a ∈ addresses, text ≠ memory a) ∧ Holds memory cache text entry := by
  induction addresses generalizing cache with
  | nil => exact ⟨hkeyed,fun text entry => by simp [DnsCache.removeKeys]⟩
  | cons a addresses ih =>
    obtain ⟨hremove,hholds⟩ := keyed_swapRemove hkeyed (memory a)
    obtain ⟨hrest,hholds'⟩ := ih hremove
    refine ⟨hrest,fun text entry => ?_⟩
    rw [List.forall_mem_cons,and_comm (a:=text ≠ memory a),and_assoc,← hholds]
    exact hholds' text entry

/-- The list of expired keys is taken first, and they are removed then. An entry that has
not expired has a text that is none of theirs. -/
theorem keyed_cleanup (hkeyed : Keyed hash memory cache) (now : ℤ) (appended : StoredKey → Bool)
    {memories : ℕ → Memory} (hmemories : ∀ i, memories i = memory) :
    Keyed hash memory (cache.cleanup hash now appended memories) ∧
    (∀ text entry, Holds memory (cache.cleanup hash now appended memories) text entry →
      Holds memory cache text entry) ∧
    ∀ text entry, Holds memory cache text entry → now < entry.expiresAt →
      Holds memory (cache.cleanup hash now appended memories) text entry := by
  have hreplicate (n : ℕ) : (List.range n).map memories = List.replicate n memory := by
    rw [List.eq_replicate_iff,List.length_map,List.length_range]
    refine ⟨rfl,?_⟩
    intro m hm
    obtain ⟨i,-,rfl⟩ := List.mem_map.mp hm
    exact hmemories i
  rw [DnsCache.cleanup,hreplicate]
  obtain ⟨hrest,hholds⟩ := keyed_removeKeys hkeyed
    ((cache.entries.filter fun e => decide (e.2.expiresAt ≤ now) && appended e.1).map (·.1.address))
  refine ⟨hrest,fun text entry h => ((hholds text entry).mp h).2,?_⟩
  intro text entry h hnow
  refine (hholds text entry).mpr ⟨?_,h⟩
  rintro a hmem rfl
  obtain ⟨e,he,rfl⟩ := List.mem_map.mp hmem
  obtain ⟨hentry,hexpired⟩ := List.mem_filter.mp he
  obtain ⟨key,hkey,htext⟩ := h
  cases hkeyed.unique hentry hkey htext.symm
  simp only [Bool.and_eq_true,decide_eq_true_eq] at hexpired
  omega

/-- What `get` finds under a name and a type. -/
theorem hit_iff (hkeyed : Keyed hash memory cache) {name : List UInt8} {recordType : DnsRecordType} {now : ℤ} :
    cache.hit hash name recordType now memory = some entry ↔
      Holds memory cache (keyText name recordType) entry ∧ now < entry.expiresAt := by
  rw [DnsCache.hit]
  cases hindex : cache.index hash memory (keyText name recordType) with
  | none =>
    refine iff_of_false (by simp) ?_
    rintro ⟨⟨key,he,htext⟩,-⟩
    exact index_none hkeyed hindex _ he htext
  | some i =>
    obtain ⟨hlt,htext⟩ := index_some hindex
    have hget : cache.entries[i]? = some cache.entries[i] := List.getElem?_eq_getElem hlt
    simp only [Option.bind_eq_bind,Option.bind_some,hget,Option.ite_none_right_eq_some,Option.some.injEq]
    constructor
    · rintro ⟨hnow,rfl⟩
      exact ⟨⟨_,List.getElem_mem hlt,htext⟩,hnow⟩
    · rintro ⟨⟨key,he,htext'⟩,hnow⟩
      have hsame := hkeyed.unique (List.getElem_mem hlt) he (htext.trans htext'.symm)
      rw [hsame]
      exact ⟨hnow,rfl⟩

end Table

section Run

variable {hash : List UInt8 → ℕ} {memory : Memory} {cache : DnsCache}

theorem latest_concat (name : List UInt8) (recordType : DnsRecordType) (calls : List Call) (call : Call) :
    latest name recordType (calls++[call]) = (entryOf name recordType call).or (latest name recordType calls) := by
  rw [latest,List.reverse_append,List.reverse_singleton,List.singleton_append,List.findSome?_cons]
  cases entryOf name recordType call <;> rfl

theorem since_concat (name : List UInt8) (recordType : DnsRecordType) (calls : List Call) (call : Call) :
    since name recordType (calls++[call]) =
      if (entryOf name recordType call).isNone then call::since name recordType calls else [] := by
  rw [since,List.reverse_append,List.reverse_singleton,List.singleton_append,List.takeWhile_cons]
  rfl

/-- The table against the list of calls: an entry is that of the latest `put`, and this one
is there unless a clean-up found it expired. -/
structure Mirrors (hash : List UInt8 → ℕ) (memory : Memory) (calls : List Call) (cache : DnsCache) : Prop where
  keyed : Keyed hash memory cache
  entry : ∀ name recordType e, Holds memory cache (keyText name recordType) e → latest name recordType calls = some e
  kept : ∀ name recordType e, latest name recordType calls = some e → Unswept name recordType calls e →
    Holds memory cache (keyText name recordType) e

/-- A call that puts nothing leaves the latest entries as they are. -/
theorem latest_concat_of_none {calls : List Call} {call : Call}
    (hnone : ∀ name recordType, entryOf name recordType call = none) (name : List UInt8) (recordType : DnsRecordType) :
    latest name recordType (calls++[call]) = latest name recordType calls := by
  rw [latest_concat,hnone,Option.none_or]

/-- Behind a call that puts nothing under the name and the type, nothing more was swept
before. -/
theorem Unswept.of_concat {calls : List Call} {call : Call} {name : List UInt8} {recordType : DnsRecordType}
    {e : CacheEntry} (h : Unswept name recordType (calls++[call]) e) (hnone : entryOf name recordType call = none) :
    Unswept name recordType calls e := by
  intro t appended memories hmem
  apply h t appended memories
  rw [since_concat,hnone]
  exact List.mem_cons_of_mem _ hmem

theorem Mirrors.concat_of_none {calls : List Call} {call : Call} (h : Mirrors hash memory calls cache)
    (hnone : ∀ name recordType, entryOf name recordType call = none) :
    Mirrors hash memory (calls++[call]) cache where
  keyed := h.keyed
  entry name recordType e he := by
    rw [latest_concat_of_none hnone]
    exact h.entry name recordType e he
  kept name recordType e he hkept := by
    rw [latest_concat_of_none hnone] at he
    exact h.kept name recordType e he (hkept.of_concat (hnone name recordType))

/-- A `put` that succeeds puts its entry under the text of its key. -/
theorem entryOf_put (name : List UInt8) (recordType : DnsRecordType) {answers : List DnsAnswer} {t : ℤ}
    (hfits : t+maxTtl answers < 9223372036854775808) (address : ℕ) (name' : List UInt8) (recordType' : DnsRecordType) :
    entryOf name' recordType' (.put name recordType answers t memory (some address) true) =
      if keyText name' recordType' = keyText name recordType then some ⟨answers,t+maxTtl answers,t⟩ else none := by
  rw [entryOf]
  by_cases hkey : keyText name' recordType' = keyText name recordType
  · obtain ⟨rfl,rfl⟩ := keyText_inj hkey
    simp [hfits]
  · have hpair : (name,recordType) ≠ (name',recordType') := by
      rintro hpair
      cases hpair
      exact hkey rfl
    simp [hkey,hpair]

theorem mirrors_put {calls : List Call} (h : Mirrors hash memory calls cache) {name : List UInt8}
    {recordType : DnsRecordType} {answers : List DnsAnswer} {t : ℤ} {address : ℕ}
    (haddress : memory address = keyText name recordType) (hfits : t+maxTtl answers < 9223372036854775808) :
    Mirrors hash memory (calls++[.put name recordType answers t memory (some address) true])
      (cache.store hash memory (keyText name recordType) address ⟨answers,t+maxTtl answers,t⟩) := by
  obtain ⟨hkeyed,hholds⟩ := keyed_store h.keyed haddress ⟨answers,t+maxTtl answers,t⟩
  refine ⟨hkeyed,?_,?_⟩
  · intro name' recordType' e he
    rw [hholds] at he
    rw [latest_concat,entryOf_put name recordType hfits]
    split at he
    · rename_i hkey
      rw [if_pos hkey,he]
      rfl
    · rename_i hkey
      rw [if_neg hkey,Option.none_or]
      exact h.entry name' recordType' e he
  · intro name' recordType' e he hkept
    have hentry : entryOf name' recordType' (.put name recordType answers t memory (some address) true) = _ :=
      entryOf_put name recordType hfits address name' recordType'
    rw [latest_concat,hentry] at he
    rw [hholds]
    split at he
    · rename_i hkey
      rw [if_pos hkey]
      exact (Option.some.inj he).symm
    · rename_i hkey
      rw [if_neg hkey] at hentry
      rw [if_neg hkey]
      exact h.kept name' recordType' e he (hkept.of_concat hentry)

theorem mirrors_step {calls : List Call} {call : Call} (h : Mirrors hash memory calls cache)
    (htext : KeepsText memory call) : Mirrors hash memory (calls++[call]) (step hash cache call) := by
  cases call with
  | get => exact h.concat_of_none fun _ _ => rfl
  | put name recordType answers t seen address stored =>
    obtain ⟨rfl,haddress⟩ := htext
    rw [step]
    cases address with
    | none => exact h.concat_of_none fun _ _ => rfl
    | some address =>
      cases stored with
      | false =>
        have hsame : (cache.put hash name recordType answers t seen (some address) false).2 = cache := by
          simp only [DnsCache.put]
          split <;> rfl
        rw [hsame]
        exact h.concat_of_none fun _ _ => rfl
      | true =>
        by_cases hfits : t+maxTtl answers < 9223372036854775808
        · simp only [DnsCache.put,if_pos hfits]
          exact mirrors_put h (haddress address rfl) hfits
        · simp only [DnsCache.put,if_neg hfits]
          exact h.concat_of_none fun _ _ => by simp [entryOf,hfits]
  | cleanup t appended memories =>
    obtain ⟨hkeyed,hentry,hrest⟩ := keyed_cleanup h.keyed t appended htext
    have hcalls : Mirrors hash memory (calls++[.cleanup t appended memories]) cache :=
      h.concat_of_none fun _ _ => rfl
    refine ⟨hkeyed,fun name recordType e he => hcalls.entry name recordType e (hentry _ e he),?_⟩
    intro name recordType e he hkept
    have hunexpired : t < e.expiresAt := by
      apply hkept t appended memories
      rw [since_concat]
      exact List.mem_cons_self
    exact hrest _ e (hcalls.kept name recordType e he hkept) hunexpired

theorem mirrors_run {calls : List Call} (htext : ∀ call ∈ calls, KeepsText memory call) :
    Mirrors hash memory calls (run (step hash) .init calls) := by
  induction calls using List.reverseRecOn with
  | nil =>
    refine ⟨⟨List.nodup_nil,List.forall_mem_nil _⟩,?_,?_⟩
    · rintro name recordType e ⟨key,he,-⟩
      cases he
    · intro name recordType e he
      cases he
  | append_singleton calls call ih =>
    rw [run_concat]
    apply mirrors_step
    · exact ih fun c hc => htext c (List.mem_append_left _ hc)
    · exact htext call (by simp)

end Run

/-- What `get` returns at the end of a run. -/
theorem get_run {hash : List UInt8 → ℕ} {memory : Memory} {calls : List Call} {now : ℤ}
    {name : List UInt8} {recordType : DnsRecordType} (htext : ∀ call ∈ calls, KeepsText memory call)
    (hunswept : ∀ e ∈ latest name recordType calls, now < e.expiresAt → Unswept name recordType calls e) :
    (run (step hash) .init calls).get hash name recordType now memory true =
      ((latest name recordType calls).filter (now < ·.expiresAt)).map (·.answers) := by
  have h : Mirrors hash memory calls _ := mirrors_run htext
  rw [DnsCache.get,if_pos rfl]
  refine congrArg (Option.map _) (Option.ext fun e => ?_)
  rw [hit_iff h.keyed,Option.filter_eq_some_iff,decide_eq_true_eq]
  constructor
  · rintro ⟨he,hnow⟩
    exact ⟨h.entry _ _ e he,hnow⟩
  · rintro ⟨he,hnow⟩
    exact ⟨h.kept _ _ e he (hunswept e he hnow),hnow⟩

/-- After every run whose keys keep their texts, `get` returns the answers of the latest
`put` with the name and the type that it is asked for, unless they are expired, and a
`put` for another name or type changes nothing. For answers that are not expired at `now`
the clean-ups behind the `put` come before the expiry too. -/
theorem get_eq_latest (hash : List UInt8 → ℕ) (memory : Memory) (calls : List Call) (name : List UInt8)
    (recordType : DnsRecordType) (now : ℤ) (htext : ∀ call ∈ calls, KeepsText memory call)
    (hunswept : ∀ e ∈ latest name recordType calls, now < e.expiresAt → Unswept name recordType calls e) :
    (run (step hash) .init calls).get hash name recordType now memory true =
      ((latest name recordType calls).filter (now < ·.expiresAt)).map (·.answers) ∧
    ∀ name' recordType' answers t address stored, (name',recordType') ≠ (name,recordType) →
      KeepsText memory (.put name' recordType' answers t memory address stored) →
      (run (step hash) .init (calls++[.put name' recordType' answers t memory address stored])).get hash name
        recordType now memory true = (run (step hash) .init calls).get hash name recordType now memory true := by
  refine ⟨get_run htext hunswept,?_⟩
  intro name' recordType' answers t address stored hne hput
  have hnone : entryOf name recordType (.put name' recordType' answers t memory address stored) = none := by
    unfold entryOf
    split <;> simp_all
  have hlatest := latest_concat name recordType calls (.put name' recordType' answers t memory address stored)
  rw [hnone,Option.none_or] at hlatest
  rw [get_run htext hunswept,get_run,hlatest]
  · intro call hcall
    obtain hcall|hcall := List.mem_append.mp hcall
    · exact htext call hcall
    · rw [List.mem_singleton.mp hcall]
      exact hput
  · intro e he hnow t' appended memories hmem
    rw [hlatest] at he
    rw [since_concat,hnone] at hmem
    apply hunswept e he hnow t' appended memories
    simpa using hmem

/-- The name `a:1`, whose key for A records starts with the key of the name `a`. -/
def likeKey : List UInt8 := keyText [97] .a

def likeKeyAnswers : List DnsAnswer := [⟨likeKey,.a,60,[10,0,0,1]⟩]

/-- At address 0 is the key of that name, and everywhere else the key of `a`. -/
def twoKeys : Memory
  | 0 => keyText likeKey .a
  | _ => keyText [97] .a

def twoPuts : List Call :=
  [.put likeKey .a likeKeyAnswers 0 twoKeys (some 0) true,.put [97] .a [] 10 twoKeys (some 1) true,
    .cleanup 100 (fun _ => true) fun _ => twoKeys]

/-- The names of the two keys are kept apart. -/
theorem get_eq_latest_likeKey :
    (run (step List.length) .init twoPuts).get List.length likeKey .a 200 twoKeys true = some likeKeyAnswers ∧
    (run (step List.length) .init (twoPuts++[.put [97] .a [] 150 twoKeys (some 1) true])).get List.length likeKey .a
      200 twoKeys true = some likeKeyAnswers := by
  have htext : ∀ call ∈ twoPuts, KeepsText twoKeys call := by
    simp [twoPuts,KeepsText,twoKeys]
  have hlatest : latest likeKey .a twoPuts = some ⟨likeKeyAnswers,300,0⟩ := rfl
  have hsince : since likeKey .a twoPuts =
      [.cleanup 100 (fun _ => true) fun _ => twoKeys,.put [97] .a [] 10 twoKeys (some 1) true] := rfl
  have hunswept : ∀ e ∈ latest likeKey .a twoPuts, 200 < e.expiresAt → Unswept likeKey .a twoPuts e := by
    rw [hlatest]
    intro e he hnow t appended memories hmem
    simp only [hsince,List.mem_cons,reduceCtorEq,Call.cleanup.injEq,List.not_mem_nil,or_false] at hmem
    omega
  obtain ⟨hget,hother⟩ := get_eq_latest List.length twoKeys twoPuts likeKey .a 200 htext hunswept
  rw [hlatest] at hget
  refine ⟨hget,?_⟩
  rw [hother [97] .a [] 150 (some 1) true (by decide) (by simp [KeepsText,twoKeys])]
  exact hget

end ZNet.DnsCacheMap
