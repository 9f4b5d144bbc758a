import Mathlib.Data.List.Basic
import Mathlib.Tactic.Common

/-!
# Lines that end with two values

A text is split at every occurrence of the pair that ends a line. Texts that are joined by
the pair are split one after the other, whatever they contain.
-/

namespace ZNet.TextLines

variable {α : Type} {cr lf : α}

def lineEnd (cr lf : α) : List α := [cr,lf]

/-- Each line with its end. -/
def joinLines (cr lf : α) (lines : List (List α)) : List α := lines.flatMap (·++lineEnd cr lf)

/-- The line has no end inside. -/
def Unbroken (cr lf : α) (line : List α) : Prop := ¬lineEnd cr lf <:+: line

/-- What ends no line in the rest ends none behind a front without the first value. -/
theorem unbroken_append {front s : List α} (hfront : cr ∉ front) (h : Unbroken cr lf s) : Unbroken cr lf (front++s) := by
  induction front with
  | nil => exact h
  | cons c front ih =>
    simp only [List.mem_cons,not_or] at hfront
    rw [Unbroken,List.cons_append,List.infix_cons_iff]
    rintro (hend|hinside)
    · exact hfront.1 (List.cons_prefix_cons.mp hend).1
    · exact ih hfront.2 hinside

theorem Unbroken.append {s t : List α} (h : Unbroken cr lf s) (ht : lf ∉ t) : Unbroken cr lf (s++t) := by
  induction s with
  | nil => exact fun hend => ht (hend.subset (by simp [lineEnd]))
  | cons c s ih =>
    have hrest : Unbroken cr lf s := fun hinside => h (hinside.trans (List.suffix_cons c s).isInfix)
    rw [Unbroken,List.cons_append,List.infix_cons_iff]
    rintro (hend|hinside)
    · obtain ⟨rfl,hnext⟩ := List.cons_prefix_cons.mp hend
      cases s with
      | nil => exact ht (hnext.subset List.mem_cons_self)
      | cons d s =>
        obtain ⟨rfl,-⟩ := List.cons_prefix_cons.mp hnext
        exact h ⟨[],s,rfl⟩
    · exact ih hrest hinside

theorem Unbroken.of_infix {s t : List α} (h : Unbroken cr lf t) (hwithin : s <:+: t) : Unbroken cr lf s :=
  fun hend => h (hend.trans hwithin)

theorem unbroken_of_notMem {s : List α} (h : cr ∉ s) : Unbroken cr lf s :=
  fun hend => h (hend.subset (by simp [lineEnd]))

section Splitting

variable [DecidableEq α]

def splitLines (cr lf : α) : List α → List (List α)
  | [] => [[]]
  | [c] => [[c]]
  | c::d::rest =>
    if c = cr ∧ d = lf then []::splitLines cr lf rest else (splitLines cr lf (d::rest)).modifyHead (c::·)

theorem splitLines_ne_nil (cr lf : α) (s : List α) : splitLines cr lf s ≠ [] := by
  induction s using splitLines.induct cr lf with
  | case1 => simp [splitLines]
  | case2 c => simp [splitLines]
  | case3 c d rest hend ih => simp [splitLines,hend]
  | case4 c d rest hend ih => simpa [splitLines,hend] using ih

/-- The end of a line separates, even after the first value of an end. -/
theorem splitLines_append (hne : cr ≠ lf) (s t : List α) :
    splitLines cr lf (s++(cr::lf::t)) = splitLines cr lf s++splitLines cr lf t := by
  induction s using splitLines.induct cr lf with
  | case1 => simp [splitLines]
  | case2 c => simp [splitLines,hne]
  | case3 c d rest hend ih => simp [splitLines,hend,ih]
  | case4 c d rest hend ih =>
    rw [List.cons_append] at ih
    obtain ⟨first,more,hsplit⟩ := List.exists_cons_of_ne_nil (splitLines_ne_nil cr lf (d::rest))
    simp [splitLines,hend,ih,hsplit]

/-- A front without the first value of an end belongs to the first line. -/
theorem splitLines_front {front : List α} (hfront : cr ∉ front) (s : List α) :
    splitLines cr lf (front++s) = (splitLines cr lf s).modifyHead (front++·) := by
  induction front with
  | nil =>
    obtain ⟨first,more,hsplit⟩ := List.exists_cons_of_ne_nil (splitLines_ne_nil cr lf s)
    simp [hsplit]
  | cons c front ih =>
    simp only [List.mem_cons,not_or] at hfront
    obtain ⟨first,more,hsplit⟩ := List.exists_cons_of_ne_nil (splitLines_ne_nil cr lf s)
    have hrest := ih hfront.2
    rw [List.cons_append]
    cases htext : front++s with
    | nil =>
      obtain ⟨rfl,rfl⟩ := List.append_eq_nil_iff.mp htext
      simp [splitLines]
    | cons d rest =>
      rw [htext,hsplit] at hrest
      simp [splitLines,Ne.symm hfront.1,hrest,hsplit]

theorem splitLines_unbroken {line : List α} (h : Unbroken cr lf line) : splitLines cr lf line = [line] := by
  induction line using splitLines.induct cr lf with
  | case1 => rfl
  | case2 c => rfl
  | case3 c d rest hend ih => exact absurd ⟨[],rest,by simp [lineEnd,hend]⟩ h
  | case4 c d rest hend ih =>
    have hrest : Unbroken cr lf (d::rest) := fun hinside => h (hinside.trans (List.suffix_cons c _).isInfix)
    simp [splitLines,hend,ih hrest]

theorem splitLines_joinLines (hne : cr ≠ lf) (lines : List (List α)) (t : List α) :
    splitLines cr lf (joinLines cr lf lines++t) = lines.flatMap (splitLines cr lf)++splitLines cr lf t := by
  induction lines with
  | nil => rfl
  | cons line lines ih =>
    have htext : joinLines cr lf (line::lines)++t = line++cr::lf::(joinLines cr lf lines++t) := by
      simp [joinLines,lineEnd]
    rw [htext,splitLines_append hne,ih,List.flatMap_cons,List.append_assoc]

theorem flatMap_splitLines {lines : List (List α)} (hlines : ∀ line ∈ lines, Unbroken cr lf line) :
    lines.flatMap (splitLines cr lf) = lines := by
  induction lines with
  | nil => rfl
  | cons line lines ih =>
    obtain ⟨hline,hrest⟩ := List.forall_mem_cons.mp hlines
    rw [List.flatMap_cons,splitLines_unbroken hline,ih hrest]
    rfl

/-- The first line of a text is determined, and what comes after it. -/
theorem append_lineEnd_inj (hne : cr ≠ lf) {line line' t t' : List α} (h : Unbroken cr lf line) (h' : Unbroken cr lf line')
    (heq : line++cr::lf::t = line'++cr::lf::t') : line = line' ∧ t = t' := by
  have hsplit := congrArg (splitLines cr lf) heq
  rw [splitLines_append hne,splitLines_append hne,splitLines_unbroken h,splitLines_unbroken h'] at hsplit
  obtain rfl := (List.cons.inj hsplit).1
  exact ⟨rfl,by simpa using heq⟩

/-- The lines up to the first empty one are determined, and what comes after it. -/
theorem joinLines_inj (hne : cr ≠ lf) {lines lines' : List (List α)} {t t' : List α}
    (h : ∀ line ∈ lines, line ≠ [] ∧ Unbroken cr lf line) (h' : ∀ line ∈ lines', line ≠ [] ∧ Unbroken cr lf line)
    (heq : joinLines cr lf (lines++[[]])++t = joinLines cr lf (lines'++[[]])++t') : lines = lines' ∧ t = t' := by
  have hcons (line : List α) (more : List (List α)) (u : List α) :
      joinLines cr lf (line::more)++u = line++cr::lf::(joinLines cr lf more++u) := by simp [joinLines,lineEnd]
  have hempty : Unbroken cr lf ([] : List α) := by simp [Unbroken,lineEnd]
  induction lines generalizing lines' with
  | nil =>
    cases lines' with
    | nil => simpa [joinLines] using heq
    | cons line' lines' =>
      obtain ⟨hline',-⟩ := List.forall_mem_cons.mp h'
      rw [List.nil_append,List.cons_append,hcons,hcons] at heq
      exact absurd (append_lineEnd_inj hne hempty hline'.2 heq).1.symm hline'.1
  | cons line lines ih =>
    obtain ⟨hline,hlines⟩ := List.forall_mem_cons.mp h
    cases lines' with
    | nil =>
      rw [List.nil_append,List.cons_append,hcons,hcons] at heq
      exact absurd (append_lineEnd_inj hne hline.2 hempty heq).1 hline.1
    | cons line' lines' =>
      obtain ⟨hline',hlines'⟩ := List.forall_mem_cons.mp h'
      rw [List.cons_append,List.cons_append,hcons,hcons] at heq
      obtain ⟨rfl,hrest⟩ := append_lineEnd_inj hne hline.2 hline'.2 heq
      obtain ⟨rfl,rfl⟩ := ih hlines hlines' hrest
      exact ⟨rfl,rfl⟩

end Splitting

end ZNet.TextLines
