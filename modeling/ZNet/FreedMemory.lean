import Mathlib.Logic.Nontrivial.Basic
import Mathlib.Data.List.Basic

/-!
# Freed memory

A program that keeps the address of a list after its memory was freed reads as many values as
before, and nothing is known of them. A result about such a program holds for every content of
the memory, so that only an empty list is read back for certain.
-/

namespace ZNet

/-- What a read of memory yields that held the given values and was freed since. -/
structure FreedMemory (α : Type*) where
  read : List α → List α
  length_read : ∀ values, (read values).length = values.length

namespace FreedMemory

variable {α : Type*}

/-- Memory that keeps its content after it was freed. -/
def kept : FreedMemory α := ⟨fun values => values,fun _ => rfl⟩

/-- Memory that is overwritten with one value when it is freed. -/
def filled (value : α) : FreedMemory α := ⟨fun values => .replicate values.length value,fun _ => List.length_replicate⟩

@[simp] theorem read_kept (values : List α) : kept.read values = values := rfl

@[simp] theorem read_nil (freed : FreedMemory α) : freed.read [] = [] := List.length_eq_zero_iff.mp (freed.length_read [])

theorem read_filled (value : α) (values : List α) : (filled value).read values = .replicate values.length value := rfl

/-- Only an empty list is read back for certain. -/
theorem read_eq_iff [Nontrivial α] {values : List α} : (∀ freed : FreedMemory α, freed.read values = values) ↔ values = [] := by
  constructor
  · intro h
    cases values with
    | nil => rfl
    | cons value rest =>
      obtain ⟨other,hne⟩ := exists_ne value
      have hread := h (filled other)
      rw [read_filled,List.length_cons,List.replicate_succ,List.cons.injEq] at hread
      exact absurd hread.1 hne
  · rintro rfl freed
    exact read_nil freed

end FreedMemory

end ZNet
