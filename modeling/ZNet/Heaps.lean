import ZNet.Tables

/-!
# Heaps

Objects that are allocated, read, changed and freed. No address is handed out twice, and an
access to an object that has been freed is none.
-/

namespace ZNet.Heaps
open Tables

structure Heap (β : Type) where
  cells : Table ℕ β
  next : ℕ
  lt_next : ∀ p ∈ cells.keys, p < next

variable {β : Type}

namespace Heap

def empty : Heap β := ⟨∅,0,fun _ h => absurd h List.not_mem_nil⟩

def load (heap : Heap β) (p : ℕ) : Option β := heap.cells.lookup p

/-- The address of the new object, and the heap with it. -/
def alloc (heap : Heap β) (v : β) : ℕ×Heap β where
  fst := heap.next
  snd := {
    cells := heap.cells.insert heap.next v
    next := heap.next+1
    lt_next := by
      intro p hp
      rw [AList.keys_insert,List.mem_cons] at hp
      rcases hp with rfl|hp
      · exact Nat.lt_succ_self _
      · exact Nat.lt_succ_of_lt (heap.lt_next p (List.mem_of_mem_erase hp)) }

/-- The object is read, changed and written back. -/
def modify (heap : Heap β) (p : ℕ) (f : β → β) : Option (Heap β) :=
  match h : heap.load p with
  | none => none
  | some v => some {
      cells := heap.cells.insert p (f v)
      next := heap.next
      lt_next := by
        intro q hq
        rw [AList.keys_insert,List.mem_cons] at hq
        rcases hq with rfl|hq
        · exact heap.lt_next q (mem_keys_of_lookup h)
        · exact heap.lt_next q (List.mem_of_mem_erase hq) }

def free (heap : Heap β) (p : ℕ) : Option (Heap β) :=
  match heap.load p with
  | none => none
  | some _ => some {
      cells := heap.cells.erase p
      next := heap.next
      lt_next := by
        intro q hq
        rw [AList.keys_erase] at hq
        exact heap.lt_next q (List.mem_of_mem_erase hq) }

/-- The object at the address has been freed. -/
def Dangling (heap : Heap β) (p : ℕ) : Prop := p < heap.next ∧ heap.load p = none

variable {heap heap' : Heap β} {p q : ℕ} {v : β} {f : β → β}

@[simp] theorem load_empty (p : ℕ) : (empty : Heap β).load p = none := AList.lookup_empty p

theorem lt_of_load (h : heap.load p = some v) : p < heap.next := heap.lt_next p (mem_keys_of_lookup h)

@[simp] theorem load_next (heap : Heap β) : heap.load heap.next = none := by
  cases h : heap.load heap.next with
  | none => rfl
  | some v => exact absurd (lt_of_load h) (Nat.lt_irrefl _)

@[simp] theorem alloc_fst (heap : Heap β) (v : β) : (heap.alloc v).1 = heap.next := rfl

@[simp] theorem next_alloc (heap : Heap β) (v : β) : (heap.alloc v).2.next = heap.next+1 := rfl

theorem load_alloc (heap : Heap β) (v : β) (p : ℕ) :
    (heap.alloc v).2.load p = if p = heap.next then some v else heap.load p :=
  lookup_insert_eq heap.next p v heap.cells

@[simp] theorem load_alloc_self (heap : Heap β) (v : β) : (heap.alloc v).2.load heap.next = some v := by
  simp [load_alloc]

/-- The other objects are as they were. -/
theorem load_alloc_of_load {w : β} (h : heap.load p = some w) (v : β) : (heap.alloc v).2.load p = some w := by
  rw [load_alloc,if_neg (Nat.ne_of_lt (lt_of_load h)),h]

/-- The objects of the second heap are those of the first one, each changed. -/
structure Changed (heap heap' : Heap β) (f : ℕ → β → β) : Prop where
  next : heap'.next = heap.next
  load : ∀ q, heap'.load q = (heap.load q).map (f q)

theorem Changed.refl (heap : Heap β) : Changed heap heap fun _ v => v :=
  ⟨rfl,fun q => by simp⟩

theorem Changed.trans {heap'' : Heap β} {f g : ℕ → β → β} (h : Changed heap heap' f) (h' : Changed heap' heap'' g) :
    Changed heap heap'' fun q v => g q (f q v) where
  next := h'.next.trans h.next
  load q := by rw [h'.load,h.load,Option.map_map]; rfl

theorem Changed.congr {f g : ℕ → β → β} (h : Changed heap heap' f) (hfg : ∀ q v, heap.load q = some v → f q v = g q v) :
    Changed heap heap' g where
  next := h.next
  load q := by
    rw [h.load]
    cases hq : heap.load q with
    | none => rfl
    | some v => simp [hfg q v hq]

/-- What was freed stays freed. -/
theorem Changed.dangling_iff {f : ℕ → β → β} (h : Changed heap heap' f) : heap'.Dangling p ↔ heap.Dangling p := by
  simp [Dangling,h.next,h.load]

/-- A change needs the object, and changes no other one. -/
theorem modify_changed (h : heap.modify p f = some heap') :
    (∃ v, heap.load p = some v) ∧ Changed heap heap' fun q v => if q = p then f v else v := by
  rw [modify] at h
  split at h
  · cases h
  · rename_i v hload
    cases h
    refine ⟨⟨v,hload⟩,rfl,fun q => ?_⟩
    rw [load] at hload
    by_cases hq : q = p
    · subst hq
      simp [load,hload]
    · simp [load,hq]

theorem modify_of_load (h : heap.load p = some v) (f : β → β) :
    ∃ heap', heap.modify p f = some heap' ∧ Changed heap heap' fun q v => if q = p then f v else v := by
  cases hmodify : heap.modify p f with
  | none =>
    rw [modify] at hmodify
    split at hmodify
    · rename_i hnone
      rw [h] at hnone
      cases hnone
    · cases hmodify
  | some heap' => exact ⟨heap',rfl,(modify_changed hmodify).2⟩

theorem modify_of_load_none (h : heap.load p = none) (f : β → β) : heap.modify p f = none := by
  cases hmodify : heap.modify p f with
  | none => rfl
  | some heap' =>
    obtain ⟨⟨v,hload⟩,-⟩ := modify_changed hmodify
    rw [h] at hload
    cases hload

/-- What freeing an object does. -/
theorem free_eq_some (h : heap.free p = some heap') :
    heap'.next = heap.next ∧ ∀ q, heap'.load q = if q = p then none else heap.load q := by
  rw [free] at h
  split at h
  · cases h
  · cases h
    exact ⟨rfl,fun q => lookup_erase_eq p q heap.cells⟩

theorem free_of_load (h : heap.load p = some v) : ∃ heap', heap.free p = some heap' := by
  simp [free,h]

end Heap

end ZNet.Heaps
