import Mathlib.Data.Bool.AllAny
import Mathlib.Data.List.DropRight
import Mathlib.Tactic.Common

/-!
# Scanning text

Searching, splitting, trimming and matching of sequences, and decimal numbers and letter
case in ASCII bytes.
-/

namespace ZNet.TextScan

section Sequences

variable {α : Type} [DecidableEq α]

/-- The position of the first occurrence of `needle`. -/
def indexOf (needle : List α) : List α → Option ℕ
  | [] => if needle = [] then some 0 else none
  | c::cs => if needle.isPrefixOf (c::cs) then some 0 else (indexOf needle cs).map (·+1)

def lastIndexOfScalar (c : α) (s : List α) : Option ℕ := (s.reverse.idxOf? c).map fun i => s.length-1-i

/-- Without the given values at either end. -/
def trim (values s : List α) : List α := (s.dropWhile (· ∈ values)).rdropWhile (· ∈ values)

/-- The maximal parts without delimiters that are not empty. -/
def tokenizeAny (p : α → Bool) (s : List α) : List (List α) := (s.splitOnP p).filter fun w => !w.isEmpty

/-- The offset of the closing character at which the depth returns to zero, where each
character takes `size` of the offset. -/
def matchBrace (size : α → ℕ) (opening closing : α) : ℤ → ℕ → List α → Option ℕ
  | _,_,[] => none
  | depth,i,c::cs =>
    if c = opening then matchBrace size opening closing (depth+1) (i+size c) cs
    else if c = closing then
      if depth-1 = 0 then some i else matchBrace size opening closing (depth-1) (i+size c) cs
    else matchBrace size opening closing depth (i+size c) cs

/-- Wildcard matching with one position to return to: `star` matches any run and `one`
any character. -/
def globLoop (star one : α) (pattern s : List α) (p si : ℕ) (starAt : Option ℕ) (matchPos : ℕ) (h : matchPos ≤ si) :
    Bool :=
  if _hs : si < s.length then
    if hp : pattern[p]? = some star then globLoop star one pattern s (p+1) si (some p) si (Nat.le_refl si)
    else if _hc : pattern[p]? = some one ∨ pattern[p]? = s[si]? then
      globLoop star one pattern s (p+1) (si+1) starAt matchPos (Nat.le_succ_of_le h)
    else match starAt with
      | some sp => globLoop star one pattern s (sp+1) (matchPos+1) starAt (matchPos+1) (Nat.le_refl _)
      | none => false
  else ((pattern.drop p).dropWhile (· == star)).isEmpty
termination_by (s.length-matchPos,pattern.length-p)
decreasing_by
  · have hlt : p < pattern.length := (List.getElem?_eq_some_iff.mp hp).1
    rcases Nat.lt_or_eq_of_le h with hlt' | rfl
    · exact Prod.Lex.left _ _ (by omega)
    · exact Prod.Lex.right _ (by omega)
  · have hlt : p < pattern.length := by
      by_contra hge
      rw [List.getElem?_eq_none (by omega),List.getElem?_eq_getElem _hs] at _hc
      rcases _hc with hone | hchar
      · cases hone
      · cases hchar
    exact Prod.Lex.right _ (by omega)
  · exact Prod.Lex.left _ _ (by omega)

def globMatch (star one : α) (pattern s : List α) : Bool := globLoop star one pattern s 0 0 none 0 (Nat.le_refl 0)

theorem trim_eq_self {values s : List α} (h : ∀ c ∈ s, c ∉ values) : trim values s = s := by
  have hstart : s.dropWhile (· ∈ values) = s := by
    cases s with
    | nil => rfl
    | cons c s => exact List.dropWhile_cons_of_neg (by simpa using h c (List.mem_cons_self ..))
  rw [trim,hstart,List.rdropWhile_eq_self_iff]
  intro hne
  simpa using h _ (List.getLast_mem hne)

theorem take_idxOf (c : α) (s : List α) : s.take ((s.idxOf? c).getD s.length) = s.takeWhile (· ≠ c) := by
  induction s with
  | nil => rfl
  | cons b s ih =>
    rw [List.idxOf?_cons,List.takeWhile_cons]
    by_cases hb : b = c
    · simp [hb]
    · simp only [beq_iff_eq,hb,if_false,ne_eq,not_false_eq_true,decide_true,if_true]
      rw [← ih]
      cases s.idxOf? c with
      | none => simp
      | some i => simp

theorem idxOf?_append_cons {c : α} {s : List α} (h : c ∉ s) (t : List α) : (s++c::t).idxOf? c = some s.length := by
  induction s with
  | nil => simp [List.idxOf?_cons]
  | cons d s ih =>
    rw [List.mem_cons,not_or] at h
    rw [List.cons_append,List.idxOf?_cons,if_neg (by simpa using Ne.symm h.1),ih h.2]
    rfl

/-- Two texts that are cut at the first occurrence of a value. -/
theorem append_first_inj {c : α} {s s' t t' : List α} (hs : c ∉ s) (hs' : c ∉ s') (h : s++c::t = s'++c::t') :
    s = s' ∧ t = t' := by
  have hindex := congrArg (List.idxOf? c) h
  rw [idxOf?_append_cons hs,idxOf?_append_cons hs'] at hindex
  obtain ⟨hfront,hback⟩ := List.append_inj h (Option.some.inj hindex)
  exact ⟨hfront,(List.cons.inj hback).2⟩

/-- What is dropped from the right does not reach into a front that ends with something else. -/
theorem rdropWhile_append {α : Type} {p : α → Bool} {front : List α} (hlast : ∀ c ∈ front.getLast?, p c = false)
    (hne : front ≠ []) (s : List α) : (front++s).rdropWhile p = front++s.rdropWhile p := by
  have hend : front.rdropWhile p = front := by
    rw [List.rdropWhile_eq_self_iff]
    intro _
    simpa using hlast _ (List.getLast?_eq_some_getLast hne)
  rw [List.rdropWhile,List.reverse_append,List.dropWhile_append,List.rdropWhile]
  split
  · rename_i hall
    rw [List.isEmpty_iff] at hall
    rw [hall,List.reverse_nil,List.append_nil]
    exact hend
  · rw [List.reverse_append,List.reverse_reverse]

/-- A front that neither begins nor ends with one of the values stays. -/
theorem trim_append {values front : List α} (hfirst : ∀ c ∈ front.head?, c ∉ values)
    (hlast : ∀ c ∈ front.getLast?, c ∉ values) (hne : front ≠ []) (s : List α) :
    trim values (front++s) = front++s.rdropWhile (· ∈ values) := by
  have hstart : (front++s).dropWhile (· ∈ values) = front++s := by
    cases front with
    | nil => exact (hne rfl).elim
    | cons c front => exact List.dropWhile_cons_of_neg (by simpa using hfirst c rfl)
  rw [trim,hstart]
  exact rdropWhile_append (by simpa using hlast) hne s

/-- What surrounds a text whose ends do not satisfy the predicate is cut away. -/
theorem dropWhile_padded {α : Type} {p : α → Bool} {left s right : List α} (hleft : ∀ b ∈ left, p b = true)
    (hright : ∀ b ∈ right, p b = true) (hfirst : ∀ b ∈ s.head?, p b = false) (hlast : ∀ b ∈ s.getLast?, p b = false)
    (hne : s ≠ []) : ((left++(s++right)).dropWhile p).rdropWhile p = s := by
  have hstart : (s++right).dropWhile p = s++right := by
    cases s with
    | nil => exact (hne rfl).elim
    | cons c s => exact List.dropWhile_cons_of_neg (by simpa using hfirst c rfl)
  have hend : s.rdropWhile p = s := by
    rw [List.rdropWhile_eq_self_iff]
    intro _
    simpa using hlast _ (List.getLast?_eq_some_getLast hne)
  rw [List.dropWhile_append_of_pos hleft,hstart,List.rdropWhile,List.reverse_append,
    List.dropWhile_append_of_pos (by simpa using hright)]
  exact hend

theorem trim_padded {values left s right : List α} (hleft : ∀ b ∈ left, b ∈ values) (hright : ∀ b ∈ right, b ∈ values)
    (hfirst : ∀ b ∈ s.head?, b ∉ values) (hlast : ∀ b ∈ s.getLast?, b ∉ values) (hne : s ≠ []) :
    trim values (left++(s++right)) = s :=
  dropWhile_padded (by simpa using hleft) (by simpa using hright) (by simpa using hfirst) (by simpa using hlast) hne

theorem trim_ends {values s : List α} (hfirst : ∀ b ∈ s.head?, b ∉ values) (hlast : ∀ b ∈ s.getLast?, b ∉ values)
    (hne : s ≠ []) : trim values s = s := by
  have h : trim values ([]++(s++[])) = s := trim_padded (by simp) (by simp) hfirst hlast hne
  rwa [List.append_nil,List.nil_append] at h

/-- What is left of a text has nothing to trim at its ends. -/
theorem trim_first (values s : List α) : ∀ b ∈ (trim values s).head?, b ∉ values := by
  intro b hb hmem
  obtain ⟨rest,hrest⟩ := List.rdropWhile_prefix (fun c => decide (c ∈ values)) (l:=s.dropWhile (· ∈ values))
  have hhead := List.head?_dropWhile_not (fun c => decide (c ∈ values)) s
  change trim values s++rest = _ at hrest
  rw [← hrest,List.head?_append_of_ne_nil _ (List.ne_nil_of_mem (List.mem_of_mem_head? hb)),hb] at hhead
  simp [hmem] at hhead

theorem trim_last (values s : List α) : ∀ b ∈ (trim values s).getLast?, b ∉ values := by
  intro b hb
  have hne : trim values s ≠ [] := List.ne_nil_of_mem (List.mem_of_getLast? hb)
  have hlast := List.rdropWhile_last_not (fun c => decide (c ∈ values)) (s.dropWhile (· ∈ values)) hne
  rw [List.getLast?_eq_getLast_of_ne_nil hne] at hb
  cases hb
  exact fun hmem => hlast (decide_eq_true hmem)

/-- The text is cut at the first occurrence, and whatever follows the occurrence, it is
still the first one. -/
theorem indexOf_some {needle s : List α} {i : ℕ} (h : indexOf needle s = some i) :
    s = s.take i++needle++s.drop (i+needle.length) ∧ i ≤ s.length ∧
    ∀ rest, indexOf needle (s.take i++needle++rest) = some i := by
  induction s generalizing i with
  | nil =>
    rw [indexOf,Option.ite_none_right_eq_some,Option.some.injEq] at h
    obtain ⟨rfl,rfl⟩ := h
    refine ⟨rfl,le_rfl,fun rest => ?_⟩
    cases rest with
    | nil => rfl
    | cons c rest => rfl
  | cons c s ih =>
    rw [indexOf] at h
    split at h
    · rename_i hprefix
      rw [Option.some.injEq] at h
      obtain ⟨rest,hrest⟩ := List.isPrefixOf_iff_prefix.mp hprefix
      rw [← h,← hrest]
      refine ⟨by simp,Nat.zero_le _,fun rest' => ?_⟩
      rw [List.take_zero,List.nil_append]
      cases needle with
      | nil =>
        cases rest' with
        | nil => rfl
        | cons c rest' => rfl
      | cons d needle =>
        rw [List.cons_append,indexOf]
        exact if_pos (List.isPrefixOf_iff_prefix.mpr (List.prefix_append (d::needle) rest'))
    · rename_i hprefix
      obtain ⟨j,hj,rfl⟩ := Option.map_eq_some_iff.mp h
      obtain ⟨hcut,hle,hfirst⟩ := ih hj
      refine ⟨?_,Nat.succ_le_succ hle,fun rest => ?_⟩
      · rw [List.take_succ_cons,Nat.succ_add,List.drop_succ_cons,List.cons_append,List.cons_append,← hcut]
      · rw [List.take_succ_cons,List.cons_append,List.cons_append,indexOf,hfirst rest,if_neg]
        · rfl
        · intro hearlier
          -- an occurrence at the front would lie in the part that is left as it was
          have hlong : needle <+: c::(s.take j++needle) := by
            apply List.prefix_of_prefix_length_le (List.isPrefixOf_iff_prefix.mp hearlier)
            · rw [← List.cons_append]
              exact List.prefix_append _ _
            · rw [List.length_cons,List.length_append]
              omega
          have hwhole : c::(s.take j++needle) <+: c::s := by
            rw [List.prefix_cons_inj]
            exact ⟨_,hcut.symm⟩
          exact hprefix (List.isPrefixOf_iff_prefix.mpr (hlong.trans hwhole))

theorem indexOf_eq_zero_iff {needle s : List α} : indexOf needle s = some 0 ↔ needle <+: s := by
  constructor
  · intro h
    obtain ⟨hcut,-,-⟩ := indexOf_some h
    rw [List.take_zero,List.nil_append] at hcut
    exact ⟨_,hcut.symm⟩
  · intro h
    cases s with
    | nil => rw [indexOf,if_pos (List.prefix_nil.mp h)]
    | cons c s => rw [indexOf,if_pos (List.isPrefixOf_iff_prefix.mpr h)]

theorem indexOf_isSome_iff {needle s : List α} : (indexOf needle s).isSome ↔ needle <:+: s := by
  induction s with
  | nil =>
    rw [indexOf,List.infix_nil]
    split <;> simp [*]
  | cons c s ih =>
    rw [indexOf,List.infix_cons_iff,← ih]
    split
    · rename_i hprefix
      exact ⟨fun _ => .inl (List.isPrefixOf_iff_prefix.mp hprefix),fun _ => rfl⟩
    · rename_i hprefix
      rw [Option.isSome_map]
      exact ⟨.inr,fun h => h.resolve_left fun hstart => hprefix (List.isPrefixOf_iff_prefix.mpr hstart)⟩

/-- An occurrence is the first one if nothing before it begins like it. -/
theorem indexOf_append_first {c : α} {s : List α} (h : c ∉ s) (needle rest : List α) :
    indexOf (c::needle) (s++((c::needle)++rest)) = some s.length := by
  induction s with
  | nil => exact indexOf_eq_zero_iff.mpr (List.prefix_append _ rest)
  | cons d s ih =>
    rw [List.mem_cons,not_or] at h
    have hfront : ¬(c::needle).isPrefixOf (d::(s++((c::needle)++rest))) = true := by
      rw [List.isPrefixOf_iff_prefix,List.cons_prefix_cons]
      exact fun hprefix => h.1 hprefix.1
    rw [List.cons_append,indexOf,if_neg hfront,ih h.2]
    rfl

/-- Two texts that are cut at the first occurrence. -/
theorem append_needle_inj {needle s s' t t' : List α} (hs : ∀ rest, indexOf needle (s++needle++rest) = some s.length)
    (hs' : ∀ rest, indexOf needle (s'++needle++rest) = some s'.length) (h : s++needle++t = s'++needle++t') :
    s = s' ∧ t = t' := by
  have hlen : s.length = s'.length := by
    have hfirst := hs t
    rw [h,hs' t',Option.some.injEq] at hfirst
    exact hfirst.symm
  rw [List.append_assoc,List.append_assoc] at h
  obtain ⟨hfront,hback⟩ := List.append_inj h hlen
  exact ⟨hfront,List.append_cancel_left hback⟩

omit [DecidableEq α] in
/-- Two texts that are cut before the first value of a kind, or at their ends. -/
theorem append_cut_inj {p : α → Bool} {s s' t t' : List α} (hs : ∀ c ∈ s, p c = false)
    (hs' : ∀ c ∈ s', p c = false) (ht : ∀ c ∈ t.head?, p c = true) (ht' : ∀ c ∈ t'.head?, p c = true)
    (h : s++t = s'++t') : s = s' ∧ t = t' := by
  have hfront (s t : List α) (hs : ∀ c ∈ s, p c = false) (ht : ∀ c ∈ t.head?, p c = true) :
      (s++t).takeWhile (fun c => !p c) = s := by
    rw [List.takeWhile_append_of_pos (by simpa using hs)]
    cases t with
    | nil => exact List.append_nil s
    | cons c t => rw [List.takeWhile_cons_of_neg (by simp [ht c rfl]),List.append_nil]
  have hsame : s = s' := by rw [← hfront s t hs ht,h,hfront s' t' hs' ht']
  subst hsame
  exact ⟨rfl,List.append_cancel_left h⟩

theorem lastIndexOfScalar_append {c : α} {s t : List α} (h : c ∉ t) :
    lastIndexOfScalar c (s++c::t) = some s.length := by
  have hreverse : (s++c::t).reverse.idxOf? c = some t.length := by
    rw [List.reverse_append,List.reverse_cons,List.append_assoc,List.singleton_append,
      idxOf?_append_cons (by simpa using h),List.length_reverse]
  rw [lastIndexOfScalar,hreverse]
  simp

theorem lastIndexOfScalar_some {c : α} {s : List α} {i : ℕ} (h : lastIndexOfScalar c s = some i) : s[i]? = some c := by
  rw [lastIndexOfScalar,Option.map_eq_some_iff] at h
  obtain ⟨j,hj,rfl⟩ := h
  obtain ⟨hlt,hget,-⟩ := List.idxOf?_eq_some_iff.mp hj
  rw [List.getElem_reverse] at hget
  exact List.getElem?_eq_some_iff.mpr ⟨_,hget⟩

omit [DecidableEq α] in
/-- Two texts that are cut at the last occurrence. -/
theorem append_last_inj {c : α} {s s' t t' : List α} (ht : c ∉ t) (ht' : c ∉ t') (h : s++c::t = s'++c::t') :
    s = s' ∧ t = t' := by
  rcases List.append_eq_append_iff.mp h with ⟨mid,hs,hrest⟩ | ⟨mid,hs,hrest⟩
  · cases mid with
    | nil =>
      rw [List.append_nil] at hs
      rw [List.nil_append,List.cons.injEq] at hrest
      exact ⟨hs.symm,hrest.2⟩
    | cons d mid =>
      rw [List.cons_append,List.cons.injEq] at hrest
      exact (ht (by simp [hrest.2])).elim
  · cases mid with
    | nil =>
      rw [List.append_nil] at hs
      rw [List.nil_append,List.cons.injEq] at hrest
      exact ⟨hs,hrest.2.symm⟩
    | cons d mid =>
      rw [List.cons_append,List.cons.injEq] at hrest
      exact (ht' (by simp [hrest.2])).elim

end Sequences

section Repetitions

variable {α : Type}

/-- A text that goes on as another one repeats. -/
def Repeats (unit text : List α) : Prop := ∀ i < text.length, text[i]? = unit[i%unit.length]?

/-- What stands before a text does not show exactly if it is empty or if the text repeats it. -/
theorem take_append_eq_iff {front text : List α} :
    (front++text).take text.length = text ↔ front = [] ∨ Repeats front text := by
  by_cases hfront : front = []
  · subst hfront
    exact iff_of_true (List.take_length ..) (Or.inl rfl)
  have hpos : 0 < front.length := List.length_pos_of_ne_nil hfront
  rw [or_iff_right hfront]
  constructor
  · intro h i
    induction i using Nat.strong_induction_on with
    | _ i ih =>
      intro hi
      have hshift : text[i]? = (front++text)[i]? := by
        have hget := congrArg (·[i]?) h
        rw [List.getElem?_take_of_lt hi] at hget
        exact hget.symm
      rcases Nat.lt_or_ge i front.length with hlt | hge
      · rw [hshift,List.getElem?_append_left hlt,Nat.mod_eq_of_lt hlt]
      · rw [hshift,List.getElem?_append_right hge,ih (i-front.length) (by omega) (by omega),Nat.mod_eq_sub_mod hge]
  · intro h
    apply List.ext_getElem?
    intro i
    rcases Nat.lt_or_ge i text.length with hi | hi
    · rw [List.getElem?_take_of_lt hi]
      rcases Nat.lt_or_ge i front.length with hlt | hge
      · rw [List.getElem?_append_left hlt,h i hi,Nat.mod_eq_of_lt hlt]
      · rw [List.getElem?_append_right hge,h (i-front.length) (by omega),h i hi,Nat.mod_eq_sub_mod hge]
    · rw [List.getElem?_eq_none hi,List.getElem?_eq_none]
      rw [List.length_take]
      omega

end Repetitions

section Tokens

variable {α : Type} {p : α → Bool}

theorem tokenizeAny_nil : tokenizeAny p [] = [] := by
  rw [tokenizeAny,List.splitOnP_nil]
  rfl

theorem tokenizeAny_append_cons (s t : List α) {d : α} (hd : p d = true) :
    tokenizeAny p (s++d::t) = tokenizeAny p s++tokenizeAny p t := by
  rw [tokenizeAny,List.splitOnP_append_cons s t hd,List.filter_append]
  rfl

theorem tokenizeAny_cons (t : List α) {d : α} (hd : p d = true) : tokenizeAny p (d::t) = tokenizeAny p t := by
  have h := tokenizeAny_append_cons [] t hd
  rwa [tokenizeAny_nil] at h

theorem tokenizeAny_word {w : List α} (hw : ∀ c ∈ w, p c = false) (hne : w ≠ []) : tokenizeAny p w = [w] := by
  rw [tokenizeAny,List.splitOnP_eq_singleton hw]
  exact List.filter_eq_self.mpr (by simpa using hne)

/-- Delimiters around a text do not matter. -/
theorem tokenizeAny_spaces {w : List α} (hw : ∀ c ∈ w, p c = true) (t : List α) :
    tokenizeAny p (w++t) = tokenizeAny p t := by
  induction w with
  | nil => rfl
  | cons c w ih =>
    rw [List.cons_append,tokenizeAny_cons _ (hw c (List.mem_cons_self ..))]
    exact ih fun d hd => hw d (List.mem_cons_of_mem c hd)

/-- No part of a split text has a delimiter. -/
theorem mem_splitOnP {s w : List α} (hw : w ∈ s.splitOnP p) : ∀ c ∈ w, p c = false := by
  induction s generalizing w with
  | nil => simp_all [List.splitOnP_nil]
  | cons d s ih =>
    rw [List.splitOnP_cons_eq_if_modifyHead] at hw
    split_ifs at hw with hd
    · rcases List.mem_cons.mp hw with rfl | hw
      · simp
      · exact ih hw
    · cases hs : s.splitOnP p with
      | nil =>
        rw [hs] at hw
        cases hw
      | cons first rest =>
        rw [hs] at hw ih
        rcases List.mem_cons.mp hw with rfl | hw
        · intro c hc
          rcases List.mem_cons.mp hc with rfl | hc
          · simpa using hd
          · exact ih (List.mem_cons_self ..) c hc
        · exact ih (List.mem_cons_of_mem first hw)

theorem mem_tokenizeAny {s w : List α} (hw : w ∈ tokenizeAny p s) : w ≠ [] ∧ ∀ c ∈ w, p c = false := by
  rw [tokenizeAny,List.mem_filter] at hw
  exact ⟨by simpa using hw.2,mem_splitOnP hw.1⟩

/-- Parts behind delimiters are split off again. -/
theorem splitOnP_flatMap [DecidableEq α] {d : α} {first : List α} {rest : List (List α)} (hfirst : d ∉ first)
    (hrest : ∀ part ∈ rest, d ∉ part) : (first++rest.flatMap (d::·)).splitOnP (· == d) = first::rest := by
  have hplain {part : List α} (hpart : d ∉ part) : ∀ c ∈ part, (c == d) = false := by
    intro c hc
    rw [beq_eq_false_iff_ne]
    rintro rfl
    exact hpart hc
  induction rest generalizing first with
  | nil =>
    rw [List.flatMap_nil,List.append_nil]
    exact List.splitOnP_eq_singleton (hplain hfirst)
  | cons part rest ih =>
    obtain ⟨hpart,hrest⟩ := List.forall_mem_cons.mp hrest
    rw [List.flatMap_cons,List.cons_append,List.splitOnP_append_cons_of_forall_mem (hplain hfirst) _ (beq_self_eq_true d),
      ih hpart hrest]

end Tokens

section Braces

variable {α : Type} {size : α → ℕ} {opening closing : α}

/-- A text without braces. -/
def Plain (opening closing : α) (s : List α) : Prop := ∀ c ∈ s, c ≠ opening ∧ c ≠ closing

/-- A text whose blocks are not nested. -/
inductive Flat (opening closing : α) : List α → Prop
  | plain {s : List α} (h : Plain opening closing s) : Flat opening closing s
  | block {before inner after : List α} (hbefore : Plain opening closing before) (hinner : Plain opening closing inner)
      (hafter : Flat opening closing after) : Flat opening closing (before++opening::(inner++closing::after))

/-- A text whose braces match. -/
inductive Balanced (opening closing : α) : List α → Prop
  | plain {s : List α} (h : Plain opening closing s) : Balanced opening closing s
  | block {before inner after : List α} (hbefore : Plain opening closing before)
      (hinner : Balanced opening closing inner) (hafter : Balanced opening closing after) :
      Balanced opening closing (before++opening::(inner++closing::after))

theorem plain_nil : Plain opening closing ([] : List α) := List.forall_mem_nil _

/-- The first block of a text whose braces match. -/
theorem Balanced.first_block {s : List α} (h : Balanced opening closing s) (hmem : opening ∈ s) :
    ∃ before inner after, s = before++opening::(inner++closing::after) ∧ Plain opening closing before ∧
      Balanced opening closing inner := by
  cases h with
  | plain h => exact absurd rfl (h opening hmem).1
  | block hbefore hinner hafter => exact ⟨_,_,_,rfl,hbefore,hinner⟩

theorem Balanced.plain_of_notMem {s : List α} (h : Balanced opening closing s) (hmem : opening ∉ s) :
    Plain opening closing s := by
  cases h with
  | plain h => exact h
  | block hbefore hinner hafter => exact absurd (by simp) hmem

/-- What a text takes of the offset. -/
def extent (size : α → ℕ) (s : List α) : ℕ := s.foldr (fun c n => size c+n) 0

theorem extent_append (s t : List α) : extent size (s++t) = extent size s+extent size t := by
  induction s with
  | nil => exact (Nat.zero_add _).symm
  | cons c s ih =>
    change size c+extent size (s++t) = size c+extent size s+extent size t
    rw [ih,Nat.add_assoc]

theorem extent_nil : extent size [] = 0 := rfl

theorem extent_cons (c : α) (s : List α) : extent size (c::s) = size c+extent size s := rfl

theorem extent_one (s : List α) : extent (fun _ => 1) s = s.length := by
  induction s with
  | nil => rfl
  | cons c s ih => rw [extent_cons,ih,List.length_cons,Nat.add_comm]

theorem plain_append {s t : List α} (hs : Plain opening closing s) (ht : Plain opening closing t) :
    Plain opening closing (s++t) := by
  intro c hc
  rcases List.mem_append.mp hc with hc | hc
  · exact hs c hc
  · exact ht c hc

theorem Flat.prepend {s t : List α} (hs : Plain opening closing s) (ht : Flat opening closing t) :
    Flat opening closing (s++t) := by
  cases ht with
  | plain h => exact Flat.plain (plain_append hs h)
  | block hbefore hinner hafter =>
    rw [← List.append_assoc]
    exact Flat.block (plain_append hs hbefore) hinner hafter

theorem Balanced.append {s t : List α} (hs : Balanced opening closing s) (ht : Balanced opening closing t) :
    Balanced opening closing (s++t) := by
  induction hs with
  | plain hs =>
    cases ht with
    | plain ht => exact Balanced.plain (plain_append hs ht)
    | block hbefore hinner hafter =>
      rw [← List.append_assoc]
      exact Balanced.block (plain_append hs hbefore) hinner hafter
  | block hbefore hinner _ _ ih =>
    rw [List.append_assoc,List.cons_append,List.append_assoc,List.cons_append]
    exact Balanced.block hbefore hinner ih

variable [DecidableEq α]

instance (s : List α) : Decidable (Plain opening closing s) :=
  inferInstanceAs (Decidable (∀ c ∈ s, c ≠ opening ∧ c ≠ closing))

theorem matchBrace_plain {s : List α} (hs : Plain opening closing s) (depth : ℤ) (i : ℕ) (t : List α) :
    matchBrace size opening closing depth i (s++t) = matchBrace size opening closing depth (i+extent size s) t := by
  induction s generalizing i with
  | nil => rfl
  | cons c s ih =>
    obtain ⟨hopen,hclose⟩ := hs c (List.mem_cons_self ..)
    rw [List.cons_append,matchBrace,if_neg hopen,if_neg hclose,ih (fun d hd => hs d (List.mem_cons_of_mem c hd)),
      extent_cons,Nat.add_assoc]

theorem matchBrace_open (depth : ℤ) (i : ℕ) (t : List α) :
    matchBrace size opening closing depth i (opening::t) =
      matchBrace size opening closing (depth+1) (i+size opening) t := by
  rw [matchBrace,if_pos rfl]

theorem matchBrace_close (hne : closing ≠ opening) {depth : ℤ} (hd : depth-1 ≠ 0) (i : ℕ) (t : List α) :
    matchBrace size opening closing depth i (closing::t) =
      matchBrace size opening closing (depth-1) (i+size closing) t := by
  rw [matchBrace,if_neg hne,if_pos rfl,if_neg hd]

/-- Unless the depth is zero, blocks that are not nested are passed over. -/
theorem matchBrace_flat (hne : closing ≠ opening) {s : List α} (hs : Flat opening closing s) {depth : ℤ}
    (hd : depth ≠ 0) (i : ℕ) (t : List α) :
    matchBrace size opening closing depth i (s++t) = matchBrace size opening closing depth (i+extent size s) t := by
  induction hs generalizing i with
  | plain h => exact matchBrace_plain h depth i t
  | @block before inner after hbefore hinner hafter ih =>
    have hdepth : depth+1-1 = depth := by omega
    rw [List.append_assoc,matchBrace_plain hbefore,List.cons_append,matchBrace_open,List.append_assoc,
      matchBrace_plain hinner,List.cons_append,matchBrace_close hne (by omega),hdepth,ih]
    simp only [extent_append,extent_cons]
    congr 1
    omega

/-- Inside a block, a text whose braces match is passed over. -/
theorem matchBrace_balanced (hne : closing ≠ opening) {s : List α} (hs : Balanced opening closing s) {depth : ℤ}
    (hd : 0 < depth) (i : ℕ) (t : List α) :
    matchBrace size opening closing depth i (s++t) = matchBrace size opening closing depth (i+extent size s) t := by
  induction hs generalizing depth i t with
  | plain h => exact matchBrace_plain h depth i t
  | @block before inner after hbefore hinner hafter ihinner ihafter =>
    have hdepth : depth+1-1 = depth := by omega
    rw [List.append_assoc,matchBrace_plain hbefore,List.cons_append,matchBrace_open,List.append_assoc,
      ihinner (by omega),List.cons_append,matchBrace_close hne (by omega),hdepth,ihafter hd]
    simp only [extent_append,extent_cons]
    congr 1
    omega

/-- Inside a block, the text leaves more blocks open than there were. -/
def LeavesOpen (size : α → ℕ) (opening closing : α) (s : List α) : Prop :=
  ∃ n : ℤ, 0 < n ∧ ∀ depth : ℤ, 0 < depth → ∀ i t, matchBrace size opening closing depth i (s++t) =
    matchBrace size opening closing (depth+n) (i+extent size s) t

theorem Balanced.leavesOpen_cons (hne : closing ≠ opening) {s : List α} (hs : Balanced opening closing s) :
    LeavesOpen size opening closing (opening::s) := by
  refine ⟨1,by decide,fun depth hdepth i t => ?_⟩
  rw [List.cons_append,matchBrace_open,matchBrace_balanced hne hs (by omega),extent_cons,Nat.add_assoc]

theorem LeavesOpen.cons {s : List α} (hs : LeavesOpen size opening closing s) :
    LeavesOpen size opening closing (opening::s) := by
  obtain ⟨n,hn,hs⟩ := hs
  refine ⟨1+n,by omega,fun depth hdepth i t => ?_⟩
  rw [List.cons_append,matchBrace_open,hs _ (by omega),extent_cons,Nat.add_assoc,Int.add_assoc]

theorem LeavesOpen.prepend (hne : closing ≠ opening) {u w : List α} (hu : Balanced opening closing u)
    (hw : LeavesOpen size opening closing w) : LeavesOpen size opening closing (u++w) := by
  obtain ⟨n,hn,hw⟩ := hw
  refine ⟨n,hn,fun depth hdepth i t => ?_⟩
  rw [List.append_assoc,matchBrace_balanced hne hu hdepth,hw depth hdepth,extent_append,Nat.add_assoc]

/-- The braces of a text match, or they do up to a closing one of its own, or the text leaves
blocks open. -/
theorem balanced_or_open (hne : closing ≠ opening) (s : List α) : Balanced opening closing s ∨
    (∃ u w, s = u++closing::w ∧ Balanced opening closing u) ∨ LeavesOpen size opening closing s := by
  match s with
  | [] => exact .inl (.plain plain_nil)
  | c::s =>
    by_cases hclose : c = closing
    · exact .inr (.inl ⟨[],s,by rw [hclose]; rfl,.plain plain_nil⟩)
    by_cases hopen : opening = c
    · subst hopen
      rcases balanced_or_open hne s with hs | ⟨u,w,hcut,hu⟩ | hs
      · exact .inr (.inr (hs.leavesOpen_cons hne))
      · -- a block, and what follows it
        have hlength : w.length < s.length := by
          rw [hcut,List.length_append,List.length_cons]
          omega
        have hblock {after : List α} (hafter : Balanced opening closing after) :
            Balanced opening closing (opening::(u++closing::after)) := Balanced.block plain_nil hu hafter
        rcases balanced_or_open hne w with hw | ⟨u',w',hcut',hu'⟩ | hw
        · exact .inl (hcut ▸ hblock hw)
        · exact .inr (.inl ⟨opening::(u++closing::u'),w',by simp [hcut,hcut'],hblock hu'⟩)
        · have hsplit : opening::s = (opening::(u++[closing]))++w := by simp [hcut]
          rw [hsplit]
          exact .inr (.inr (.prepend hne (hblock (.plain plain_nil)) hw))
      · exact .inr (.inr hs.cons)
    · have hplain : Balanced opening closing [c] := by
        refine .plain fun d hd => ?_
        rw [List.mem_singleton.mp hd]
        exact ⟨fun heq => hopen heq.symm,hclose⟩
      rcases balanced_or_open hne s with hs | ⟨u,w,rfl,hu⟩ | hs
      · exact .inl (hplain.append hs)
      · exact .inr (.inl ⟨c::u,w,rfl,hplain.append hu⟩)
      · exact .inr (.inr (.prepend hne hplain hs))
termination_by s.length
decreasing_by
  · exact Nat.lt_succ_self _
  · exact Nat.lt_succ_of_lt hlength
  · exact Nat.lt_succ_self _

/-- The first block of a text. -/
theorem matchBrace_first (hne : closing ≠ opening) {before inner : List α} (hbefore : Plain opening closing before)
    (hinner : Balanced opening closing inner) (t : List α) :
    matchBrace size opening closing 0 0 (before++opening::(inner++closing::t)) =
      some (extent size before+(size opening+extent size inner)) := by
  have hdepth : (0 : ℤ) < 0+1 := by decide
  rw [matchBrace_plain hbefore,matchBrace_open,matchBrace_balanced hne hinner hdepth,matchBrace,if_neg hne,if_pos rfl,
    if_pos (by decide)]
  simp only [Nat.zero_add,Nat.add_assoc]

/-- The block at the beginning of a text. -/
theorem matchBrace_block (hne : closing ≠ opening) {inner : List α} (hinner : Balanced opening closing inner)
    (t : List α) :
    matchBrace size opening closing 0 0 (opening::(inner++closing::t)) = some (size opening+extent size inner) := by
  have hfirst : matchBrace size opening closing 0 0 ([]++opening::(inner++closing::t)) = _ :=
    matchBrace_first hne plain_nil hinner t
  rwa [extent_nil,Nat.zero_add] at hfirst

/-- The closing character that is found is not the first one. -/
theorem matchBrace_some {s : List α} {depth : ℤ} {i close : ℕ}
    (h : matchBrace size opening closing depth i s = some close) :
    ∃ u t, s = u++closing::t ∧ close = i+extent size u ∧ (depth ≤ 0 → u ≠ []) := by
  induction s generalizing depth i with
  | nil => cases h
  | cons c s ih =>
    rw [matchBrace] at h
    split_ifs at h with hopen hclose hdepth
    · obtain ⟨u,t,rfl,hend,-⟩ := ih h
      exact ⟨c::u,t,rfl,by rw [hend,extent_cons]; omega,fun _ => List.cons_ne_nil c u⟩
    · cases h
      exact ⟨[],s,by rw [hclose]; rfl,rfl,fun hle => by omega⟩
    · obtain ⟨u,t,rfl,hend,-⟩ := ih h
      exact ⟨c::u,t,rfl,by rw [hend,extent_cons]; omega,fun _ => List.cons_ne_nil c u⟩
    · obtain ⟨u,t,rfl,hend,-⟩ := ih h
      exact ⟨c::u,t,rfl,by rw [hend,extent_cons]; omega,fun _ => List.cons_ne_nil c u⟩

/-- From the inside of a block no end is found. -/
theorem matchBrace_inside (hne : closing ≠ opening) {inner rest : List α} (hinner : Plain opening closing inner)
    (hrest : Flat opening closing rest) (i : ℕ) :
    matchBrace size opening closing 0 i (inner++closing::rest) = none := by
  rw [matchBrace_plain hinner,matchBrace_close hne (by decide)]
  have hdepth : (0-1 : ℤ) ≠ 0 := by decide
  have hend : matchBrace size opening closing (0-1) (i+extent size inner+size closing) (rest++[]) =
      matchBrace size opening closing (0-1) (i+extent size inner+size closing+extent size rest) [] :=
    matchBrace_flat hne hrest hdepth _ []
  rw [List.append_nil] at hend
  exact hend

end Braces

/-- The bytes of ASCII characters. -/
def ascii (cs : List Char) : List UInt8 := cs.map fun c => UInt8.ofNat c.toNat

/-- A number in decimal. -/
def decimal (n : ℕ) : List UInt8 := ascii (Nat.toDigits 10 n)

theorem ascii_inj {cs ds : List Char} (hc : ∀ c ∈ cs, c.toNat < 256) (hd : ∀ d ∈ ds, d.toNat < 256)
    (h : ascii cs = ascii ds) : cs = ds := by
  induction cs generalizing ds with
  | nil => exact (List.map_eq_nil_iff.mp h.symm).symm
  | cons c cs ih =>
    cases ds with
    | nil => cases h
    | cons d ds =>
      rw [List.forall_mem_cons] at hc hd
      rw [ascii,List.map_cons,ascii,List.map_cons,List.cons.injEq] at h
      have hchar := congrArg UInt8.toNat h.1
      rw [UInt8.toNat_ofNat',UInt8.toNat_ofNat',Nat.mod_eq_of_lt hc.1,Nat.mod_eq_of_lt hd.1] at hchar
      rw [Char.toNat_inj.mp hchar,ih hc.2 hd.2 h.2]

theorem toDigits_range {n : ℕ} {c : Char} (hc : c ∈ Nat.toDigits 10 n) : 0x30 ≤ c.toNat ∧ c.toNat ≤ 0x39 := by
  have hdigit := Nat.isDigit_of_mem_toDigits (by decide) (by decide) hc
  rw [Char.isDigit,Bool.and_eq_true,decide_eq_true_iff,decide_eq_true_iff] at hdigit
  exact hdigit

theorem decimal_injective {m n : ℕ} (h : decimal m = decimal n) : m = n := by
  have hsmall : ∀ k, ∀ c ∈ Nat.toDigits 10 k, c.toNat < 256 := by
    intro k c hc
    have hrange := toDigits_range hc
    omega
  have hdigits := ascii_inj (hsmall m) (hsmall n) h
  rw [← Nat.ofDigitChars_toDigits (b:=10) (n:=m) (by decide) (by decide),hdigits,
    Nat.ofDigitChars_toDigits (by decide) (by decide)]

/-- Digits only: no other character is in a decimal number. -/
theorem notMem_decimal {b : UInt8} (hb : b < 0x30 ∨ 0x39 < b) (n : ℕ) : b ∉ decimal n := by
  intro hmem
  obtain ⟨c,hc,rfl⟩ := List.mem_map.mp hmem
  have hrange := toDigits_range hc
  have hval : (UInt8.ofNat c.toNat).toNat = c.toNat := by
    rw [UInt8.toNat_ofNat']
    omega
  rw [UInt8.lt_iff_toNat_lt,UInt8.lt_iff_toNat_lt,hval] at hb
  have hlow : (0x30 : UInt8).toNat = 0x30 := rfl
  have hhigh : (0x39 : UInt8).toNat = 0x39 := rfl
  omega

def toLower (b : UInt8) : UInt8 := if 0x41 ≤ b ∧ b ≤ 0x5a then b+0x20 else b

def startsWithIgnoreCase (s needle : List UInt8) : Bool :=
  decide (needle.length ≤ s.length) && (s.take needle.length).map toLower == needle.map toLower

def isDigit (b : UInt8) : Bool := decide (0x30 ≤ b ∧ b ≤ 0x39)

def digitValue (b : UInt8) : ℕ := b.toNat-0x30

/-- The digits of a decimal number below `bound`; underscores are skipped. -/
def parseDigits (bound : ℕ) : ℕ → List UInt8 → Option ℕ
  | acc,[] => some acc
  | acc,b::bs =>
    if b = 0x5f then parseDigits bound acc bs
    else if isDigit b then
      if acc*10+digitValue b < bound then parseDigits bound (acc*10+digitValue b) bs else none
    else none

/-- A decimal number below `bound` with an optional sign; with a minus sign only zero.
Underscores may stand between digits. -/
def parseUnsigned (bound : ℕ) (s : List UInt8) : Option ℕ :=
  let (bound,digits) := match s with
    | 0x2b::rest => (bound,rest)
    | 0x2d::rest => (1,rest)
    | _ => (bound,s)
  if digits = [] ∨ digits.head? = some 0x5f ∨ digits.getLast? = some 0x5f then none
  else parseDigits bound 0 digits

end ZNet.TextScan
