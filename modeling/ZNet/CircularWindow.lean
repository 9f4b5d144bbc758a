import Mathlib.Data.Finset.Basic
import Mathlib.Data.List.Nodup
import Mathlib.Data.List.Range
import Mathlib.Data.Nat.ModEq
import Mathlib.Data.Nat.Periodic
import Mathlib.Order.Interval.Finset.Nat

/-!
# Windows of a circular memory

Monotone positions are mapped into `cap` slots by reduction modulo `cap`. A
window is a run of consecutive positions; as long as it is no longer than `cap`
its slots are distinct, and its slots are one or two plain intervals.
-/

namespace ZNet.CircularWindow

/-- Two different positions less than a full turn apart occupy different slots. -/
theorem mod_ne_mod_of_lt {cap i j : ℕ} (hij : i < j) (hj : j < i+cap) : i%cap ≠ j%cap := by
  intro he
  have hdvd : cap ∣ j-i := (Nat.modEq_iff_dvd' hij.le).mp he
  have hle := Nat.le_of_dvd (by omega) hdvd
  omega

theorem add_mod_of_fits {cap lo i : ℕ} (h : lo%cap+i < cap) : (lo+i)%cap = lo%cap+i := by
  rw [Nat.add_mod,Nat.mod_eq_of_lt (a:=i) (by omega),Nat.mod_eq_of_lt h]

theorem add_sub_mod_self {cap : ℕ} (hcap : 0 < cap) (lo : ℕ) : (lo+(cap-lo%cap))%cap = 0 := by
  have hlt := Nat.mod_lt lo hcap
  have hdiv := Nat.div_add_mod lo cap
  have he : lo+(cap-lo%cap) = cap*(lo/cap+1) := by
    rw [Nat.mul_add,Nat.mul_one]
    omega
  rw [he,Nat.mul_mod_right]

/-- Slots of the `n` consecutive positions that start at `lo`. -/
def slots (cap lo n : ℕ) : List ℕ := (List.range' lo n).map (· % cap)

@[simp] theorem length_slots (cap lo n : ℕ) : (slots cap lo n).length = n := by simp [slots]

@[simp] theorem slots_zero (cap lo : ℕ) : slots cap lo 0 = [] := rfl

theorem slots_succ (cap lo n : ℕ) : slots cap lo (n+1) = lo%cap :: slots cap (lo+1) n := by
  simp [slots,List.range'_succ]

theorem slots_add (cap lo m n : ℕ) : slots cap lo (m+n) = slots cap lo m ++ slots cap (lo+m) n := by
  simp [slots,← List.range'_append_1]

theorem mem_slots {cap lo n i : ℕ} : i ∈ slots cap lo n ↔ ∃ k, lo ≤ k ∧ k < lo+n ∧ k%cap = i := by
  simp [slots,and_assoc]

theorem slots_toFinset (cap lo hi : ℕ) :
    (slots cap lo (hi-lo)).toFinset = (Finset.Ico lo hi).image (· % cap) := by
  ext i
  simp only [List.mem_toFinset,mem_slots,Finset.mem_image,Finset.mem_Ico]
  constructor
  · rintro ⟨k,hlo,hhi,rfl⟩
    exact ⟨k,⟨hlo,by omega⟩,rfl⟩
  · rintro ⟨k,⟨hlo,hhi⟩,rfl⟩
    exact ⟨k,hlo,by omega,rfl⟩

/-- A window that stays below the end of the memory is one plain interval. -/
theorem slots_of_fits {cap lo n : ℕ} (h : lo%cap+n ≤ cap) :
    slots cap lo n = List.range' (lo%cap) n := by
  apply List.ext_getElem
  · simp
  · intro i hi _
    simp only [length_slots] at hi
    simp only [slots,List.getElem_map,List.getElem_range',Nat.one_mul]
    exact add_mod_of_fits (by omega)

/-- A window that passes the end of the memory is the rest of the memory followed
by an interval that starts at slot zero. -/
theorem slots_of_wraps {cap lo b : ℕ} (hcap : 0 < cap) (hb : b ≤ cap) :
    slots cap lo (cap-lo%cap+b) = List.range' (lo%cap) (cap-lo%cap) ++ List.range' 0 b := by
  have hlt := Nat.mod_lt lo hcap
  have hz := add_sub_mod_self hcap lo
  rw [slots_add,slots_of_fits (by omega),slots_of_fits (by omega),hz]

/-- The window from `lo` to `mid` and the window from `mid` to one full turn after
`lo` share no slot. -/
theorem slots_disjoint (cap lo mid : ℕ) :
    Disjoint ((Finset.Ico lo mid).image (· % cap)) ((Finset.Ico mid (lo+cap)).image (· % cap)) := by
  rw [Finset.disjoint_left]
  intro i hi hj
  obtain ⟨k,hk,rfl⟩ := Finset.mem_image.mp hi
  obtain ⟨l,hl,he⟩ := Finset.mem_image.mp hj
  rw [Finset.mem_Ico] at hk hl
  exact mod_ne_mod_of_lt (by omega : k < l) (by omega) he.symm

/-- Together the two windows of a full turn use every slot. -/
theorem slots_union {cap lo mid : ℕ} (hle : lo ≤ mid) (hmid : mid ≤ lo+cap) :
    (Finset.Ico lo mid).image (· % cap) ∪ (Finset.Ico mid (lo+cap)).image (· % cap) = Finset.range cap := by
  rw [← Finset.image_union,Finset.Ico_union_Ico_eq_Ico hle hmid,Nat.image_Ico_mod]

section Memory

variable {α : Type*}

/-- Values held by a window, in order of position. -/
def contents (cap : ℕ) (mem : ℕ → α) (lo n : ℕ) : List α := (slots cap lo n).map mem

@[simp] theorem length_contents (cap : ℕ) (mem : ℕ → α) (lo n : ℕ) :
    (contents cap mem lo n).length = n := by simp [contents]

theorem contents_add (cap : ℕ) (mem : ℕ → α) (lo m n : ℕ) :
    contents cap mem lo (m+n) = contents cap mem lo m ++ contents cap mem (lo+m) n := by
  simp [contents,slots_add]

/-- Releasing the first `k` positions of a window drops their values. -/
theorem contents_drop (cap : ℕ) (mem : ℕ → α) (lo : ℕ) {k n : ℕ} (hk : k ≤ n) :
    contents cap mem (lo+k) (n-k) = (contents cap mem lo n).drop k := by
  obtain ⟨m,rfl⟩ := Nat.exists_eq_add_of_le hk
  rw [contents_add,List.drop_append_of_le_length (by simp),List.drop_of_length_le (by simp)]
  simp

theorem contents_getElem? (cap : ℕ) (mem : ℕ → α) (lo : ℕ) {i n : ℕ} (hi : i < n) :
    (contents cap mem lo n)[i]? = some (mem ((lo+i)%cap)) := by
  simp [contents,slots,hi]

/-- A value stored just past a window that is shorter than a full turn extends it. -/
theorem contents_update {cap n : ℕ} (mem : ℕ → α) (lo : ℕ) (x : α) (hn : n < cap) :
    contents cap (Function.update mem ((lo+n)%cap) x) lo (n+1) = contents cap mem lo n ++ [x] := by
  have hold : contents cap (Function.update mem ((lo+n)%cap) x) lo n = contents cap mem lo n := by
    apply List.map_congr_left
    intro i hi
    obtain ⟨k,hlo,hhi,rfl⟩ := mem_slots.mp hi
    exact Function.update_of_ne (mod_ne_mod_of_lt hhi (by omega)) _ _
  rw [contents_add,hold]
  simp [contents,slots]

/-- Perform a list of stores, first element first. -/
def store (mem : ℕ → α) (ws : List (ℕ×α)) : ℕ → α :=
  ws.foldl (fun m w => Function.update m w.1 w.2) mem

/-- Storing consecutive values just past a window appends them to its contents. -/
theorem contents_store {cap n k : ℕ} (mem : ℕ → α) (lo : ℕ) (xs : List α) (hk : xs.length ≤ k)
    (hn : n+xs.length ≤ cap) :
    contents cap (store mem ((slots cap (lo+n) k).zip xs)) lo (n+xs.length) = contents cap mem lo n ++ xs := by
  induction xs generalizing mem n k with
  | nil => simp [store]
  | cons x xs ih =>
    obtain ⟨m,rfl⟩ : ∃ m, k = m+1 := ⟨k-1,by simp only [List.length_cons] at hk; omega⟩
    simp only [List.length_cons] at hk hn ⊢
    have h := ih (Function.update mem ((lo+n)%cap) x) (n:=n+1) (k:=m) (by omega) (by omega)
    rw [contents_update mem lo x (by omega)] at h
    rw [slots_succ,List.zip_cons_cons]
    simpa [store,Nat.add_assoc,Nat.add_comm 1] using h

end Memory

end ZNet.CircularWindow
