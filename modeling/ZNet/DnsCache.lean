import ZNet.DnsResponse
import ZNet.Runs

/-!
# The DNS cache

`DnsCache` keeps one expiry for a whole list of answers. `put` frees the memory of the
key it stores, so what a stored key reads as is an input of every later call.
-/

namespace ZNet.DnsCaches
open DnsName DnsResponse Runs

structure CacheEntry where
  answers : List DnsAnswer
  expiresAt : ℤ
  /-- The time of the `put`. No call reads it; freshness is stated with it. -/
  storedAt : ℤ

/-- A key in the table: its address, where the text was, and the hash of the text. -/
structure StoredKey where
  address : ℕ
  hash : ℕ

/-- What the memory at the address of a key holds. -/
abbrev Memory := ℕ → List UInt8

structure DnsCache where
  entries : List (StoredKey×CacheEntry)

def colon : UInt8 := 0x3a

/-- The text `{s}:{d}` of a name and a type. -/
def keyText (name : List UInt8) (recordType : DnsRecordType) : List UInt8 :=
  name++colon::(Nat.toDigits 10 recordType.toNat).map fun c => UInt8.ofNat c.toNat

/-- The default of five minutes. -/
def defaultTtl : ℕ := 300

/-- The loop of `put` over the answers. -/
def maxTtl (answers : List DnsAnswer) : ℕ := answers.foldl (fun ttl answer => max ttl answer.ttl) defaultTtl

inductive PutFailure
  | outOfMemory | trap
deriving DecidableEq

namespace DnsCache

variable (hash : List UInt8 → ℕ)

def init : DnsCache := ⟨[]⟩

/-- The entry whose key has the hash of the text and reads as the text. -/
def index (self : DnsCache) (memory : Memory) (key : List UInt8) : Option ℕ :=
  self.entries.findIdx? fun e => e.1.hash = hash key ∧ memory e.1.address = key

/-- The entry that `get` finds and that has not expired. -/
def hit (self : DnsCache) (name : List UInt8) (recordType : DnsRecordType) (now : ℤ) (memory : Memory) :
    Option CacheEntry := do
  let i ← self.index hash memory (keyText name recordType)
  let e ← self.entries[i]?
  if now < e.2.expiresAt then some e.2 else none

/-- `allocated` tells whether there is memory for the key. -/
def get (self : DnsCache) (name : List UInt8) (recordType : DnsRecordType) (now : ℤ) (memory : Memory)
    (allocated : Bool) : Option (List DnsAnswer) :=
  if allocated then (self.hit hash name recordType now memory).map (·.answers) else none

/-- `entries.put`, which keeps the stored key of an entry it finds. -/
def store (self : DnsCache) (memory : Memory) (key : List UInt8) (address : ℕ) (entry : CacheEntry) : DnsCache :=
  match self.index hash memory key with
  | some i => ⟨self.entries.modify i fun e => (e.1,entry)⟩
  | none => ⟨self.entries++[(⟨address,hash key⟩,entry)]⟩

/-- The key is allocated at `address`; `stored` tells whether the table finds memory. -/
def put (self : DnsCache) (name : List UInt8) (recordType : DnsRecordType) (answers : List DnsAnswer) (now : ℤ)
    (memory : Memory) (address : Option ℕ) (stored : Bool) : Except PutFailure Unit×DnsCache :=
  match address with
  | none => (.error .outOfMemory,self)
  | some address =>
    if now+maxTtl answers < 9223372036854775808 then
      if stored then
        (.ok (),self.store hash memory (keyText name recordType) address ⟨answers,now+maxTtl answers,now⟩)
      else (.error .outOfMemory,self)
    else (.error .trap,self)

/-- `swapRemove` of the array map: the last entry takes the place of the removed one. -/
def swapRemove (self : DnsCache) (memory : Memory) (key : List UInt8) : DnsCache :=
  match self.index hash memory key, self.entries.getLast? with
  | some i,some last => ⟨(self.entries.set i last).dropLast⟩
  | _,_ => self

/-- The keys of `cleanup` are removed one by one; the memory may change in between. -/
def removeKeys (self : DnsCache) : List ℕ → List Memory → DnsCache
  | address::addresses,memory::memories =>
    (self.swapRemove hash memory (memory address)).removeKeys addresses memories
  | _,_ => self

/-- `appended` tells for which of the expired keys the list has memory, and `memories` what
the keys read as, at each removal. -/
def cleanup (self : DnsCache) (now : ℤ) (appended : StoredKey → Bool) (memories : ℕ → Memory) : DnsCache :=
  let keysToRemove := (self.entries.filter fun e => decide (e.2.expiresAt ≤ now) && appended e.1).map (·.1.address)
  self.removeKeys hash keysToRemove ((List.range keysToRemove.length).map memories)

end DnsCache

inductive Call
  | get (name : List UInt8) (recordType : DnsRecordType) (now : ℤ) (memory : Memory) (allocated : Bool)
  | put (name : List UInt8) (recordType : DnsRecordType) (answers : List DnsAnswer) (now : ℤ) (memory : Memory)
      (address : Option ℕ) (stored : Bool)
  | cleanup (now : ℤ) (appended : StoredKey → Bool) (memories : ℕ → Memory)

def Call.now : Call → ℤ
  | .get _ _ now _ _ => now
  | .put _ _ _ now _ _ _ => now
  | .cleanup now _ _ => now

def step (hash : List UInt8 → ℕ) (cache : DnsCache) : Call → DnsCache
  | .get .. => cache
  | .put name recordType answers now memory address stored =>
    (cache.put hash name recordType answers now memory address stored).2
  | .cleanup now appended memories => cache.cleanup hash now appended memories

/-- Every answer that the call returns is younger than its time to live. -/
def Fresh (hash : List UInt8 → ℕ) (cache : DnsCache) : Call → Prop
  | .get name recordType now memory allocated =>
    allocated → ∀ entry, cache.hit hash name recordType now memory = some entry →
      ∀ answer ∈ entry.answers, now < entry.storedAt+answer.ttl
  | _ => True

/-- The calls come in the order of their times and put only lists that satisfy `P`. -/
structure Admissible (P : List DnsAnswer → Prop) (calls : List Call) : Prop where
  ordered : calls.Pairwise (·.now ≤ ·.now)
  puts : ∀ name recordType answers now memory address stored,
    .put name recordType answers now memory address stored ∈ calls → P answers

/-- All answers have one time to live, of five minutes or more. -/
def Uniform (answers : List DnsAnswer) : Prop :=
  ∀ answer ∈ answers, defaultTtl ≤ answer.ttl ∧ ∀ other ∈ answers, other.ttl ≤ answer.ttl

section Expiry

theorem foldl_ttl_le {answers : List DnsAnswer} {ttl n : ℕ} :
    answers.foldl (fun ttl answer => max ttl answer.ttl) ttl ≤ n ↔ ttl ≤ n ∧ ∀ answer ∈ answers, answer.ttl ≤ n := by
  induction answers generalizing ttl with
  | nil => simp
  | cons answer answers ih => rw [List.foldl_cons,ih,List.forall_mem_cons,max_le_iff,and_assoc]

theorem maxTtl_le {answers : List DnsAnswer} {n : ℕ} :
    maxTtl answers ≤ n ↔ defaultTtl ≤ n ∧ ∀ answer ∈ answers, answer.ttl ≤ n := foldl_ttl_le

/-- The expiry suits every answer exactly if the list is uniform. -/
theorem uniform_iff {answers : List DnsAnswer} :
    Uniform answers ↔ ∀ answer ∈ answers, maxTtl answers ≤ answer.ttl := by
  simp only [Uniform,maxTtl_le]

theorem maxTtl_lt {answers : List DnsAnswer} (hbound : ∀ answer ∈ answers, answer.ttl < 4294967296) :
    maxTtl answers < 4294967296 := by
  have hle : maxTtl answers ≤ 4294967295 :=
    maxTtl_le.mpr ⟨by decide,fun answer hmem => Nat.le_of_lt_succ (hbound answer hmem)⟩
  omega

end Expiry

section Invariant

variable {hash : List UInt8 → ℕ} {P : List DnsAnswer → Prop} {cache : DnsCache}

/-- Every entry was put with a list that satisfies `P`, and expires as `put` computed. -/
def Stored (P : List DnsAnswer → Prop) (cache : DnsCache) : Prop :=
  ∀ e ∈ cache.entries, P e.2.answers ∧ e.2.expiresAt = e.2.storedAt+maxTtl e.2.answers

theorem stored_store {memory : Memory} {key : List UInt8} {address : ℕ} {entry : CacheEntry} (h : Stored P cache)
    (hentry : P entry.answers ∧ entry.expiresAt = entry.storedAt+maxTtl entry.answers) :
    Stored P (cache.store hash memory key address entry) := by
  intro e he
  rw [DnsCache.store] at he
  split at he
  · rename_i i hi
    obtain ⟨j,hlt,hj⟩ := List.mem_iff_getElem.mp he
    rw [List.getElem_modify] at hj
    split at hj
    · rw [← hj]
      exact hentry
    · rw [← hj]
      exact h _ (List.getElem_mem _)
  · rcases List.mem_append.mp he with he | he
    · exact h e he
    · rw [List.mem_singleton.mp he]
      exact hentry

theorem mem_swapRemove {memory : Memory} {key : List UInt8} {e : StoredKey×CacheEntry}
    (he : e ∈ (cache.swapRemove hash memory key).entries) : e ∈ cache.entries := by
  rw [DnsCache.swapRemove] at he
  split at he
  · rename_i i last hi hlast
    rcases List.mem_or_eq_of_mem_set (List.dropLast_subset _ he) with he | he
    · exact he
    · rw [he]
      exact List.mem_of_getLast? hlast
  · exact he

theorem mem_removeKeys {addresses : List ℕ} {memories : List Memory} {e : StoredKey×CacheEntry}
    (he : e ∈ (cache.removeKeys hash addresses memories).entries) : e ∈ cache.entries := by
  induction addresses generalizing cache memories with
  | nil => exact he
  | cons address addresses ih =>
    cases memories with
    | nil => exact he
    | cons memory memories => exact mem_swapRemove (ih he)

theorem stored_step {call : Call} (h : Stored P cache)
    (hput : ∀ name recordType answers now memory address stored,
      call = .put name recordType answers now memory address stored → P answers) :
    Stored P (step hash cache call) := by
  cases call with
  | get => exact h
  | put name recordType answers now memory address stored =>
    have hanswers := hput name recordType answers now memory address stored rfl
    simp only [step,DnsCache.put]
    split
    · exact h
    · split
      · split
        · exact stored_store h ⟨hanswers,rfl⟩
        · exact h
      · exact h
  | cleanup now appended memories => exact fun e he => h e (mem_removeKeys he)

/-- An entry is served only before it expires, and it is one of the table. -/
theorem hit_some {name : List UInt8} {recordType : DnsRecordType} {now : ℤ} {memory : Memory} {entry : CacheEntry}
    (h : cache.hit hash name recordType now memory = some entry) :
    (∃ key, (key,entry) ∈ cache.entries) ∧ now < entry.expiresAt := by
  obtain ⟨i,-,h⟩ := Option.bind_eq_some_iff.mp h
  obtain ⟨e,he,h⟩ := Option.bind_eq_some_iff.mp h
  rw [Option.ite_none_right_eq_some,Option.some.injEq] at h
  obtain ⟨hlt,rfl⟩ := h
  exact ⟨⟨e.1,List.mem_of_getElem? he⟩,hlt⟩

theorem fresh_of_stored (h : Stored Uniform cache) (call : Call) : Fresh hash cache call := by
  cases call with
  | get name recordType now memory allocated =>
    intro _ entry hhit answer hmem
    obtain ⟨⟨key,hentry⟩,hlt⟩ := hit_some hhit
    obtain ⟨huniform,hexpires⟩ : Uniform entry.answers ∧ entry.expiresAt = entry.storedAt+maxTtl entry.answers :=
      h _ hentry
    have hle := uniform_iff.mp huniform answer hmem
    omega
  | put => trivial
  | cleanup => trivial

theorem along_fresh {calls : List Call} (h : Stored Uniform cache) (hcalls : Admissible Uniform calls) :
    Along (step hash) (Fresh hash) cache calls := by
  induction calls generalizing cache with
  | nil => trivial
  | cons call calls ih =>
    refine ⟨fresh_of_stored h call,ih (stored_step h ?_) ⟨hcalls.ordered.of_cons,?_⟩⟩
    · rintro name recordType answers now memory address stored rfl
      exact hcalls.puts name recordType answers now memory address stored (List.mem_cons_self ..)
    · intro name recordType answers now memory address stored hmem
      exact hcalls.puts name recordType answers now memory address stored (List.mem_cons_of_mem _ hmem)

end Invariant

section Stale

variable {hash : List UInt8 → ℕ} {answers : List DnsAnswer}

/-- Memory in which the freed key is still the text of the root's A record. -/
def intact : Memory := fun _ => keyText [] .a

/-- A list is put at time 0, and asked for when an answer with the given time to live is
past it. -/
def staleCalls (answers : List DnsAnswer) (ttl : ℕ) : List Call :=
  [.put [] .a answers 0 intact (some 0) true,.get [] .a ttl intact true]

theorem put_init (hbound : maxTtl answers < 4294967296) :
    DnsCache.init.put hash [] .a answers 0 intact (some 0) true =
      (.ok (),⟨[(⟨0,hash (keyText [] .a)⟩,⟨answers,maxTtl answers,0⟩)]⟩) := by
  have hfits : (0 : ℤ)+maxTtl answers < 9223372036854775808 := by omega
  have hstore : DnsCache.init.put hash [] .a answers 0 intact (some 0) true =
      (.ok (),⟨[(⟨0,hash (keyText [] .a)⟩,⟨answers,0+maxTtl answers,0⟩)]⟩) := by
    rw [DnsCache.put]
    simp only [if_pos hfits]
    rfl
  rw [hstore,zero_add]

theorem not_fresh (answer : DnsAnswer) (hbound : maxTtl answers < 4294967296) (hmem : answer ∈ answers)
    (hlt : answer.ttl < maxTtl answers) :
    ¬Along (step hash) (Fresh hash) .init (staleCalls answers answer.ttl) := by
  rintro ⟨-,hget,-⟩
  rw [step,put_init hbound] at hget
  have hhit : DnsCache.hit hash ⟨[(⟨0,hash (keyText [] .a)⟩,⟨answers,maxTtl answers,0⟩)]⟩ [] .a answer.ttl intact =
      some ⟨answers,maxTtl answers,0⟩ := by
    have hnow : (answer.ttl : ℤ) < maxTtl answers := by omega
    simp [DnsCache.hit,DnsCache.index,intact,hnow]
  have hfresh := hget rfl _ hhit answer hmem
  simp only at hfresh
  omega

theorem admissible_staleCalls {P : List DnsAnswer → Prop} (hanswers : P answers) (ttl : ℕ) :
    Admissible P (staleCalls answers ttl) where
  ordered := by simp [staleCalls,Call.now]
  puts := by
    intro name recordType answers' now memory address stored hmem
    rcases List.mem_cons.mp hmem with heq | hmem
    · injection heq with _ _ heq
      rw [heq]
      exact hanswers
    · rcases List.mem_singleton.mp hmem

end Stale

/-- The cache is fresh in every run that puts only lists of a given kind exactly if the
lists of this kind are uniform: the expiry is that of the longest time to live, and at
least five minutes. -/
theorem fresh_iff_uniform (hash : List UInt8 → ℕ) (P : List DnsAnswer → Prop)
    (hbound : ∀ answers, P answers → ∀ answer ∈ answers, answer.ttl < 4294967296) :
    (∀ calls, Admissible P calls → Along (step hash) (Fresh hash) .init calls) ↔
      ∀ answers, P answers → Uniform answers := by
  constructor
  · intro h answers hanswers
    rw [uniform_iff]
    intro answer hmem
    by_contra hlt
    exact not_fresh answer (maxTtl_lt (hbound answers hanswers)) hmem (by omega)
      (h _ (admissible_staleCalls hanswers answer.ttl))
  · intro h calls hcalls
    refine along_fresh (List.forall_mem_nil _) ⟨hcalls.ordered,?_⟩
    intro name recordType answers now memory address stored hmem
    exact h answers (hcalls.puts name recordType answers now memory address stored hmem)

/-- Answers for one minute and for one hour. -/
def mixed : List DnsAnswer := [⟨[97],.a,60,[10,0,0,1]⟩,⟨[97],.a,3600,[10,0,0,2]⟩]

theorem fresh_iff_uniform_mixed :
    (∀ calls, Admissible (· = mixed) calls → Along (step List.length) (Fresh List.length) .init calls) ↔
      ∀ answers, answers = mixed → Uniform answers :=
  fresh_iff_uniform List.length (· = mixed) (by rintro answers rfl; decide)

/-- After one minute the first answer is past its time to live, and it is served. -/
theorem mixed_stale : Admissible (· = mixed) (staleCalls mixed 60) ∧
    ¬Along (step List.length) (Fresh List.length) .init (staleCalls mixed 60) :=
  ⟨admissible_staleCalls (P:=(· = mixed)) rfl 60,
    not_fresh ⟨[97],.a,60,[10,0,0,1]⟩ (by decide) (by decide) (by decide)⟩

end ZNet.DnsCaches
