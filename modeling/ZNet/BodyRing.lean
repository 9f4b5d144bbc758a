import ZNet.CircularWindow

/-!
# The shared body ring

The descriptor of `z_body_ring.zig`, which the Rust engine mirrors with the same
layout. `head` and `tail` are 64-bit counters that only grow. Zig subtracts them
with overflow checks, the engine with `wrapping_sub`. Every function is given on
the counter values it loaded, so that a concurrent reader can load them apart.
-/

namespace ZNet.BodyRing
open CircularWindow

structure BodyRingDescriptor where
  buffer : ℕ → UInt8
  capacity : ℕ
  head : ℕ
  tail : ℕ
  isClosed : Bool

def BodyRingDescriptor.init (ptr : ℕ → UInt8) (capacity : ℕ) : BodyRingDescriptor :=
  ⟨ptr,capacity,0,0,false⟩

/-- Zig's checked unsigned subtraction; `none` is the overflow trap. -/
def checkedSub (a b : ℕ) : Option ℕ := if b ≤ a then some (a-b) else none

/-- Zig's checked multiplication of `usize` values. -/
def checkedMul (a b : ℕ) : Option ℕ := if a*b < 2^64 then some (a*b) else none

/-- Rust's `u64::wrapping_sub`. -/
def wrappingSub (a b : ℕ) : ℕ := (a+2^64-b)%2^64

@[simp] theorem checkedSub_of_le {a b : ℕ} (h : b ≤ a) : checkedSub a b = some (a-b) := if_pos h

theorem wrappingSub_of_le {a b : ℕ} (h : b ≤ a) (ha : a < 2^64) : wrappingSub a b = a-b := by
  simp only [wrappingSub]
  omega

/-- A contiguous part of the ring's memory: a Zig slice or a Rust `IoSliceMut`. -/
structure IndexRange where
  start : ℕ
  len : ℕ
deriving DecidableEq

def IndexRange.empty : IndexRange := ⟨0,0⟩

def IndexRange.indices (r : IndexRange) : List ℕ := List.range' r.start r.len

@[simp] theorem IndexRange.length_indices (r : IndexRange) : r.indices.length = r.len := by simp [indices]

@[simp] theorem IndexRange.indices_empty : IndexRange.empty.indices = [] := rfl

theorem IndexRange.sum_len (bufs : List IndexRange) :
    (bufs.map IndexRange.len).sum = (bufs.flatMap IndexRange.indices).length := by
  simp [List.length_flatMap]

def availableReadAt (head tail : ℕ) : Option ℕ := checkedSub head tail

def availableWriteAt (capacity head tail : ℕ) : Option ℕ := do
  let unread ← checkedSub head tail
  checkedSub capacity unread

def writeBuffersAt (capacity head tail : ℕ) : Option (IndexRange×IndexRange) := do
  let headIdx := head%capacity
  let tailIdx := tail%capacity
  let unread ← checkedSub head tail
  if unread = capacity then return (.empty,.empty)
  if headIdx ≥ tailIdx then return (⟨headIdx,capacity-headIdx⟩,⟨0,tailIdx⟩)
  return (⟨headIdx,tailIdx-headIdx⟩,.empty)

/-- The `bufs[..n_bufs]` that the ring branch of `net_read` hands to
`read_vectored`; `none` is its early failure on a full ring. -/
def readIovecsAt (capacity head tail : ℕ) : Option (List IndexRange) :=
  if wrappingSub head tail ≥ capacity then none
  else
    let headIdx := head%capacity
    let tailIdx := tail%capacity
    if headIdx ≥ tailIdx then some [⟨headIdx,capacity-headIdx⟩,⟨0,tailIdx⟩]
    else some [⟨headIdx,tailIdx-headIdx⟩]

namespace BodyRingDescriptor

def getAvailableRead (r : BodyRingDescriptor) : Option ℕ := availableReadAt r.head r.tail

def getAvailableWrite (r : BodyRingDescriptor) : Option ℕ := availableWriteAt r.capacity r.head r.tail

def getWriteBuffers (r : BodyRingDescriptor) : Option (IndexRange×IndexRange) :=
  writeBuffersAt r.capacity r.head r.tail

def isFull (r : BodyRingDescriptor) : Option Bool := r.getAvailableWrite.map (· == 0)

/-- High watermark: 95%. -/
def shouldStopReading (r : BodyRingDescriptor) : Option Bool := do
  let unread ← r.getAvailableRead
  let scaled ← checkedMul r.capacity 95
  return decide (unread > scaled/100)

/-- Low watermark: 50%. -/
def shouldResumeReading (r : BodyRingDescriptor) : Option Bool := do
  let unread ← r.getAvailableRead
  let scaled ← checkedMul r.capacity 50
  return decide (unread < scaled/100)

/-- `head.fetchAdd(bytes)`, modulo the width of the counter. -/
def commitWrite (r : BodyRingDescriptor) (bytes : ℕ) : BodyRingDescriptor :=
  { r with head := (r.head+bytes)%2^64 }

/-- The consumer's `tail.fetchAdd(bytes)`. -/
def release (r : BodyRingDescriptor) (bytes : ℕ) : BodyRingDescriptor :=
  { r with tail := (r.tail+bytes)%2^64 }

/-- One byte copied into the shared memory. -/
def put (r : BodyRingDescriptor) (i : ℕ) (b : UInt8) : BodyRingDescriptor :=
  { r with buffer := Function.update r.buffer i b }

@[simp] theorem put_capacity (r : BodyRingDescriptor) (i : ℕ) (b : UInt8) : (r.put i b).capacity = r.capacity := rfl

@[simp] theorem put_head (r : BodyRingDescriptor) (i : ℕ) (b : UInt8) : (r.put i b).head = r.head := rfl

@[simp] theorem put_tail (r : BodyRingDescriptor) (i : ℕ) (b : UInt8) : (r.put i b).tail = r.tail := rfl

/-- A list of byte copies, first element first. -/
def putAll (r : BodyRingDescriptor) (ws : List (ℕ×UInt8)) : BodyRingDescriptor :=
  { r with buffer := store r.buffer ws }

/-- The bytes between `tail` and `head`, oldest first. -/
def unread (r : BodyRingDescriptor) : List UInt8 :=
  contents r.capacity r.buffer r.tail (r.head-r.tail)

/-- The counters bound a window of at most `capacity` unread bytes. -/
structure Valid (r : BodyRingDescriptor) : Prop where
  capacity_pos : 0 < r.capacity
  tail_le : r.tail ≤ r.head
  unread_le : r.head-r.tail ≤ r.capacity
  head_lt : r.head < 2^64

/-- Number of free slots. -/
def room (r : BodyRingDescriptor) : ℕ := r.capacity-(r.head-r.tail)

/-- `xs` copied to the free slots in order of position and committed. -/
def append (r : BodyRingDescriptor) (xs : List UInt8) : BodyRingDescriptor :=
  (r.putAll ((slots r.capacity r.head r.room).zip xs)).commitWrite xs.length

@[simp] theorem append_capacity (r : BodyRingDescriptor) (xs : List UInt8) :
    (r.append xs).capacity = r.capacity := rfl

@[simp] theorem append_tail (r : BodyRingDescriptor) (xs : List UInt8) : (r.append xs).tail = r.tail := rfl

theorem append_head {r : BodyRingDescriptor} {xs : List UInt8} (h : r.head+xs.length < 2^64) :
    (r.append xs).head = r.head+xs.length := Nat.mod_eq_of_lt h

@[simp] theorem Valid.length_unread {r : BodyRingDescriptor} (_hr : r.Valid) :
    r.unread.length = r.head-r.tail := by simp [unread]

/-- What one producer pass and any releases by the consumer do to a ring: `sent`
was appended, and the bytes that left the unread window left it from the front. -/
structure Wrote (r r' : BodyRingDescriptor) (sent : List UInt8) : Prop where
  valid : r'.Valid
  capacity_eq : r'.capacity = r.capacity
  tail_le : r.tail ≤ r'.tail
  head_eq : r'.head = r.head+sent.length
  unread_eq : r'.unread = (r.unread++sent).drop (r'.tail-r.tail)

theorem Wrote.refl {r : BodyRingDescriptor} (hr : r.Valid) : Wrote r r [] :=
  ⟨hr,rfl,le_rfl,rfl,by simp⟩

theorem Wrote.trans {r r' r'' : BodyRingDescriptor} {xs ys : List UInt8} (hr : r.Valid)
    (h : Wrote r r' xs) (h' : Wrote r' r'' ys) : Wrote r r'' (xs++ys) := by
  have hlen : r'.tail-r.tail ≤ (r.unread++xs).length := by
    have hle := h.valid.tail_le
    have hhead := h.head_eq
    have htail := hr.tail_le
    rw [List.length_append,hr.length_unread]
    omega
  refine ⟨h'.valid,h'.capacity_eq.trans h.capacity_eq,h.tail_le.trans h'.tail_le,?_,?_⟩
  · rw [h'.head_eq,h.head_eq,List.length_append,Nat.add_assoc]
  · have htail : r''.tail-r.tail = r'.tail-r.tail+(r''.tail-r'.tail) := by
      have h₁ := h.tail_le
      have h₂ := h'.tail_le
      omega
    rw [h'.unread_eq,h.unread_eq,htail,← List.drop_drop,← List.append_assoc,
      List.drop_append_of_le_length hlen]

theorem append_wrote {r : BodyRingDescriptor} (hr : r.Valid) {xs : List UInt8}
    (hroom : xs.length ≤ r.room) (hlt : r.head+xs.length < 2^64) :
    Wrote r (r.append xs) xs := by
  have hhead := append_head hlt
  have hle := hr.tail_le
  have hd := hr.unread_le
  have hfit : r.head-r.tail+xs.length ≤ r.capacity := by
    rw [room] at hroom
    omega
  refine ⟨⟨hr.capacity_pos,?_,?_,?_⟩,rfl,le_rfl,hhead,?_⟩
  · rw [hhead,append_tail]
    omega
  · rw [hhead,append_tail,append_capacity]
    omega
  · rwa [hhead]
  · have hpos : r.tail+(r.head-r.tail) = r.head := by omega
    have hn : r.head+xs.length-r.tail = r.head-r.tail+xs.length := by omega
    have hstore := contents_store r.buffer r.tail xs hroom hfit
    rw [hpos] at hstore
    simp only [unread,append_tail,Nat.sub_self,List.drop_zero,hhead,hn]
    exact hstore

end BodyRingDescriptor

section WriteRegion

variable {capacity head tail : ℕ}

theorem availableWriteAt_eq (hle : tail ≤ head) (hd : head-tail ≤ capacity) :
    availableWriteAt capacity head tail = some (capacity-(head-tail)) := by
  simp [availableWriteAt,hle,hd]

theorem writeBuffersAt_full (hle : tail ≤ head) (hd : head-tail = capacity) :
    writeBuffersAt capacity head tail = some (.empty,.empty) := by
  simp [writeBuffersAt,hle,hd]

theorem writeBuffersAt_of_lt (hle : tail ≤ head) (hd : head-tail < capacity) :
    writeBuffersAt capacity head tail =
      if tail%capacity ≤ head%capacity then
        some (⟨head%capacity,capacity-head%capacity⟩,⟨0,tail%capacity⟩)
      else some (⟨head%capacity,tail%capacity-head%capacity⟩,.empty) := by
  simp only [writeBuffersAt,checkedSub_of_le hle,Option.bind_eq_bind,Option.bind_some,ge_iff_le]
  rw [if_neg (by omega)]
  split <;> rfl

/-- Positions and slots of the unread window: either it does not pass the end of
the memory, or it passes it exactly once. -/
theorem unread_mod (hcap : 0 < capacity) (hle : tail ≤ head) (hd : head-tail < capacity) :
    if tail%capacity ≤ head%capacity then head-tail = head%capacity-tail%capacity
    else head-tail+tail%capacity = capacity+head%capacity := by
  have hh := Nat.div_add_mod head capacity
  have ht := Nat.div_add_mod tail capacity
  have hhl := Nat.mod_lt head hcap
  have htl := Nat.mod_lt tail hcap
  have hmono : tail/capacity ≤ head/capacity := Nat.div_le_div_right hle
  have hmax : head/capacity ≤ tail/capacity+1 := by
    have h := Nat.div_le_div_right (c:=capacity) (show head ≤ tail+capacity by omega)
    rwa [Nat.add_div_right _ hcap] at h
  have hq : head/capacity = tail/capacity ∨ head/capacity = tail/capacity+1 := by omega
  rcases hq with hq | hq
  · rw [hq] at hh
    split <;> omega
  · rw [hq,Nat.mul_add,Nat.mul_one] at hh
    split <;> omega

/-- The slices of `getWriteBuffers` list, in order, the slots of the free
positions from `head` up to one full turn after `tail`. -/
theorem writeBuffersAt_indices (hcap : 0 < capacity) (hle : tail ≤ head) (hd : head-tail ≤ capacity) :
    ∃ b₀ b₁, writeBuffersAt capacity head tail = some (b₀,b₁) ∧
      b₀.indices++b₁.indices = slots capacity head (capacity-(head-tail)) := by
  rcases Nat.eq_or_lt_of_le hd with he | hlt
  · exact ⟨_,_,writeBuffersAt_full hle he,by simp [he]⟩
  · have hw := writeBuffersAt_of_lt hle hlt
    have hm := unread_mod hcap hle hlt
    have hhl := Nat.mod_lt head hcap
    have htl := Nat.mod_lt tail hcap
    by_cases hidx : tail%capacity ≤ head%capacity
    · rw [if_pos hidx] at hw hm
      refine ⟨_,_,hw,?_⟩
      have hn : capacity-(head-tail) = capacity-head%capacity+tail%capacity := by omega
      rw [hn,slots_of_wraps hcap htl.le]
      rfl
    · rw [if_neg hidx] at hw hm
      refine ⟨_,_,hw,?_⟩
      have hn : capacity-(head-tail) = tail%capacity-head%capacity := by omega
      rw [hn,slots_of_fits (by omega)]
      simp [IndexRange.indices,IndexRange.empty]

theorem BodyRingDescriptor.Valid.getWriteBuffers_indices {r : BodyRingDescriptor} (hr : r.Valid) :
    ∃ b₀ b₁, writeBuffersAt r.capacity r.head r.tail = some (b₀,b₁) ∧
      b₀.indices++b₁.indices = slots r.capacity r.head r.room :=
  writeBuffersAt_indices hr.capacity_pos hr.tail_le hr.unread_le

/-- Outside the full ring the engine's iovecs are the slices of `getWriteBuffers`,
except that an empty second slice of a wrapped ring is not passed on. -/
theorem readIovecsAt_eq (hle : tail ≤ head) (hh : head < 2^64) (hd : head-tail ≤ capacity) {b₀ b₁ : IndexRange}
    (hb : writeBuffersAt capacity head tail = some (b₀,b₁)) :
    readIovecsAt capacity head tail =
      if head-tail = capacity then none
      else if tail%capacity ≤ head%capacity then some [b₀,b₁] else some [b₀] := by
  rcases Nat.eq_or_lt_of_le hd with he | hlt
  · simp [readIovecsAt,wrappingSub_of_le hle hh,he]
  · rw [writeBuffersAt_of_lt hle hlt] at hb
    have hfull : ¬capacity ≤ head-tail := by omega
    simp only [readIovecsAt,wrappingSub_of_le hle hh,ge_iff_le,if_neg hfull,if_neg hlt.ne]
    by_cases hidx : tail%capacity ≤ head%capacity
    · rw [if_pos hidx] at hb
      cases hb
      simp only [if_pos hidx]
    · rw [if_neg hidx] at hb
      cases hb
      simp only [if_neg hidx]

theorem writeBuffersAt_second_empty (hle : tail ≤ head) (hd : head-tail < capacity)
    (hidx : ¬tail%capacity ≤ head%capacity) {b₀ b₁ : IndexRange}
    (hb : writeBuffersAt capacity head tail = some (b₀,b₁)) : b₁ = .empty := by
  rw [writeBuffersAt_of_lt hle hd,if_neg hidx] at hb
  cases hb
  rfl

/-- Where the engine reads at all, its iovecs cover the free positions in order. -/
theorem BodyRingDescriptor.Valid.readIovecsAt_indices {r : BodyRingDescriptor} (hr : r.Valid)
    {bufs : List IndexRange} (h : readIovecsAt r.capacity r.head r.tail = some bufs) :
    bufs.flatMap IndexRange.indices = slots r.capacity r.head r.room := by
  obtain ⟨b₀,b₁,hb,hidx⟩ := hr.getWriteBuffers_indices
  rw [readIovecsAt_eq hr.tail_le hr.head_lt hr.unread_le hb] at h
  split_ifs at h with hfull hwrap
  · cases h
    simpa using hidx
  · have hd := hr.unread_le
    have hz := writeBuffersAt_second_empty hr.tail_le (by omega) hwrap hb
    cases h
    simpa [hz] using hidx

end WriteRegion

/-- Both producers of the ring see the same free region. The engine fails exactly
where Zig returns two empty slices; otherwise it passes on the same ranges in the
same order. Together they are the `getAvailableWrite` slots that hold no unread byte. -/
theorem netRead_getWriteBuffers_agree (r : BodyRingDescriptor) (hr : r.Valid) :
    ∃ b₀ b₁ available, r.getWriteBuffers = some (b₀,b₁) ∧ r.getAvailableWrite = some available ∧
      (readIovecsAt r.capacity r.head r.tail = none ↔ b₀.len = 0 ∧ b₁.len = 0) ∧
      (∀ iovecs, readIovecsAt r.capacity r.head r.tail = some iovecs →
        ∃ nBufs, iovecs = [b₀,b₁].take nBufs ∧ ∀ b ∈ [b₀,b₁].drop nBufs, b.len = 0) ∧
      b₀.len+b₁.len = available ∧
      Disjoint (b₀.indices++b₁.indices).toFinset ((Finset.Ico r.tail r.head).image (· % r.capacity)) ∧
      (b₀.indices++b₁.indices).toFinset ∪ (Finset.Ico r.tail r.head).image (· % r.capacity) =
        Finset.range r.capacity := by
  obtain ⟨hcap,hle,hd,hh⟩ := hr
  obtain ⟨b₀,b₁,hb,hidx⟩ := writeBuffersAt_indices hcap hle hd
  have hlen : b₀.len+b₁.len = r.capacity-(r.head-r.tail) := by
    simpa using congrArg List.length hidx
  have hio := readIovecsAt_eq hle hh hd hb
  have hfree : (b₀.indices++b₁.indices).toFinset =
      (Finset.Ico r.head (r.tail+r.capacity)).image (· % r.capacity) := by
    have hn : r.capacity-(r.head-r.tail) = r.tail+r.capacity-r.head := by omega
    rw [hidx,hn,slots_toFinset]
  refine ⟨b₀,b₁,_,hb,availableWriteAt_eq hle hd,?_,?_,hlen,?_,?_⟩
  · rw [hio]
    split_ifs with he ht
    · simp only [true_iff]
      omega
    · simp only [false_iff]
      omega
    · simp only [false_iff]
      omega
  · intro iovecs hs
    rw [hio] at hs
    split_ifs at hs with he ht
    · exact ⟨2,(Option.some.inj hs).symm,by simp⟩
    · have hz := writeBuffersAt_second_empty hle (by omega) ht hb
      exact ⟨1,(Option.some.inj hs).symm,by simp [hz,IndexRange.empty]⟩
  · rw [hfree]
    exact (slots_disjoint r.capacity r.tail r.head).symm
  · rw [hfree,Finset.union_comm]
    exact slots_union hle (by omega)

/-- A ring of five bytes whose three unread bytes pass the end of the memory. -/
theorem netRead_getWriteBuffers_agree_wrapped :
    (⟨fun _ => 0,5,6,3,false⟩ : BodyRingDescriptor).getWriteBuffers = some (⟨1,2⟩,.empty) ∧
    readIovecsAt 5 6 3 = some [⟨1,2⟩] ∧
    ∃ b₀ b₁ available, (⟨fun _ => 0,5,6,3,false⟩ : BodyRingDescriptor).getWriteBuffers = some (b₀,b₁) ∧
      b₀.len+b₁.len = available ∧
      (b₀.indices++b₁.indices).toFinset ∪ (Finset.Ico 3 6).image (· % 5) = Finset.range 5 := by
  obtain ⟨b₀,b₁,available,hb,_,_,_,hlen,_,hunion⟩ :=
    netRead_getWriteBuffers_agree ⟨fun _ => 0,5,6,3,false⟩ ⟨by decide,by decide,by decide,by decide⟩
  exact ⟨rfl,rfl,b₀,b₁,available,hb,hlen,hunion⟩

end ZNet.BodyRing
