import ZNet.TextScan
import Mathlib.Data.List.Forall2

/-!
# The language of a wildcard pattern

The matcher of `TextScan` returns to the last star only. That is enough because the text
between two stars may as well be found as early as possible.
-/

namespace ZNet.GlobLanguage
open TextScan

variable {α : Type} [DecidableEq α] {star one : α}

/-- The texts of a pattern. -/
def Matches (star one : α) : List α → List α → Prop
  | [],s => s = []
  | c::pattern,s =>
    if c = star then ∃ front rest, s = front++rest ∧ Matches star one pattern rest
    else if c = one then ∃ d rest, s = d::rest ∧ Matches star one pattern rest
    else ∃ rest, s = c::rest ∧ Matches star one pattern rest

/-- A part of a pattern without stars, and a text of it. -/
structure Fits (star one : α) (part text : List α) : Prop where
  noStar : star ∉ part
  chars : List.Forall₂ (fun c d => c = one ∨ c = d) part text

theorem matches_star (pattern s : List α) :
    Matches star one (star::pattern) s ↔ ∃ front rest, s = front++rest ∧ Matches star one pattern rest := by
  rw [Matches,if_pos rfl]

theorem matches_cons {c : α} (hc : c ≠ star) (pattern s : List α) :
    Matches star one (c::pattern) s ↔ ∃ d rest, s = d::rest ∧ (c = one ∨ c = d) ∧ Matches star one pattern rest := by
  rw [Matches,if_neg hc]
  by_cases hone : c = one
  · rw [if_pos hone]
    simp only [hone,true_or,true_and]
  · rw [if_neg hone]
    simp only [hone,false_or]
    constructor
    · rintro ⟨rest,hs,hrest⟩
      exact ⟨c,rest,hs,rfl,hrest⟩
    · rintro ⟨d,rest,hs,rfl,hrest⟩
      exact ⟨rest,hs,hrest⟩

theorem matches_star_nil (pattern : List α) :
    Matches star one (star::pattern) [] ↔ Matches star one pattern [] := by
  rw [matches_star]
  constructor
  · rintro ⟨front,rest,hs,hrest⟩
    rw [(List.append_eq_nil_iff.mp hs.symm).2] at hrest
    exact hrest
  · intro h
    exact ⟨[],[],rfl,h⟩

/-- The star matches nothing, or it takes another character. -/
theorem matches_star_cons (pattern s : List α) (d : α) :
    Matches star one (star::pattern) (d::s) ↔
      Matches star one pattern (d::s) ∨ Matches star one (star::pattern) s := by
  rw [matches_star,matches_star]
  constructor
  · rintro ⟨front,rest,hs,hrest⟩
    cases front with
    | nil =>
      rw [List.nil_append] at hs
      exact Or.inl (hs ▸ hrest)
    | cons e front =>
      rw [List.cons_append,List.cons.injEq] at hs
      exact Or.inr ⟨front,rest,hs.2,hrest⟩
  · rintro (h | ⟨front,rest,hs,hrest⟩)
    · exact ⟨[],d::s,rfl,h⟩
    · exact ⟨d::front,rest,by rw [hs,List.cons_append],hrest⟩

omit [DecidableEq α] in
theorem Fits.nil : Fits star one [] [] := ⟨List.not_mem_nil,.nil⟩

omit [DecidableEq α] in
theorem Fits.concat {part text : List α} {c d : α} (h : Fits star one part text) (hc : c ≠ star) (hd : c = one ∨ c = d) :
    Fits star one (part++[c]) (text++[d]) := by
  constructor
  · simp only [List.mem_append,List.mem_singleton,not_or]
    exact ⟨h.noStar,hc.symm⟩
  · exact List.rel_append h.chars (.cons hd .nil)

/-- A text of a pattern begins with one of each part without stars at its start. -/
theorem matches_append {part : List α} (hpart : star ∉ part) (pattern s : List α) :
    Matches star one (part++pattern) s ↔
      ∃ text rest, s = text++rest ∧ Fits star one part text ∧ Matches star one pattern rest := by
  induction part generalizing s with
  | nil =>
    constructor
    · intro h
      exact ⟨[],s,rfl,.nil,h⟩
    · rintro ⟨text,rest,rfl,hfits,hrest⟩
      cases hfits.chars
      exact hrest
  | cons c part ih =>
    rw [List.mem_cons,not_or] at hpart
    rw [List.cons_append,matches_cons (Ne.symm hpart.1)]
    constructor
    · rintro ⟨d,rest,rfl,hd,hrest⟩
      obtain ⟨text,rest,rfl,hfits,hrest⟩ := (ih hpart.2 rest).mp hrest
      refine ⟨d::text,rest,rfl,⟨?_,.cons hd hfits.chars⟩,hrest⟩
      rw [List.mem_cons,not_or]
      exact hpart
    · rintro ⟨text,rest,rfl,hfits,hrest⟩
      cases hfits.chars with
      | @cons _ d _ text hd hchars =>
        exact ⟨d,text++rest,rfl,hd,(ih hpart.2 _).mpr ⟨text,rest,rfl,⟨hpart.2,hchars⟩,hrest⟩⟩

omit [DecidableEq α] in
theorem Fits.length_eq {part text : List α} (h : Fits star one part text) : part.length = text.length :=
  h.chars.length_eq

/-- What fits is read off both sides. -/
theorem Fits.matches_append {part text : List α} (h : Fits star one part text) (pattern rest : List α) :
    Matches star one (part++pattern) (text++rest) ↔ Matches star one pattern rest := by
  rw [GlobLanguage.matches_append h.noStar]
  constructor
  · rintro ⟨text',rest',hs,hfits,hrest⟩
    obtain ⟨-,rfl⟩ := List.append_inj hs (h.length_eq.symm.trans hfits.length_eq)
    exact hrest
  · intro hrest
    exact ⟨text,rest,rfl,h,hrest⟩

/-- The first star need not be tried again once the part up to the next one was found. -/
theorem Fits.matches_star_star {part text : List α} (h : Fits star one part text) (pattern rest : List α) :
    Matches star one (star::(part++star::pattern)) (text++rest) ↔ Matches star one (star::pattern) rest := by
  constructor
  · intro hmatch
    obtain ⟨front,back,hs,hback⟩ := (matches_star _ _).mp hmatch
    obtain ⟨text',middle,rfl,hfits,hmiddle⟩ := (GlobLanguage.matches_append h.noStar _ _).mp hback
    obtain ⟨skipped,last,rfl,hlast⟩ := (matches_star _ _).mp hmiddle
    -- The part was found at the latest here, so what follows lies in what follows the first find.
    have hlength := hfits.length_eq.symm.trans h.length_eq
    have hprefix : text.length ≤ (front++text').length := by
      rw [List.length_append]
      omega
    have hdrop := congrArg (List.drop text.length) hs
    rw [List.drop_left,← List.append_assoc,← List.append_assoc,List.append_assoc,
      List.drop_append_of_le_length hprefix] at hdrop
    rw [matches_star]
    exact ⟨(front++text').drop text.length++skipped,last,by rw [hdrop,List.append_assoc],hlast⟩
  · intro hmatch
    rw [matches_star]
    exact ⟨[],text++rest,rfl,(h.matches_append _ _).mpr hmatch⟩

/-- At the end of the text nothing can be found later. -/
theorem Fits.matches_star_end {part text : List α} (h : Fits star one part text) (pattern : List α) :
    Matches star one (star::(part++pattern)) text ↔ Matches star one pattern [] := by
  rw [matches_star]
  constructor
  · rintro ⟨front,back,hs,hback⟩
    obtain ⟨text',rest,rfl,hfits,hrest⟩ := (GlobLanguage.matches_append h.noStar _ _).mp hback
    have hlength := congrArg List.length hs
    have hsame := hfits.length_eq.symm.trans h.length_eq
    rw [List.length_append,List.length_append] at hlength
    have hrest' : rest = [] := List.eq_nil_of_length_eq_zero (by omega)
    exact hrest' ▸ hrest
  · intro hrest
    refine ⟨[],text,rfl,?_⟩
    have hfits := (h.matches_append pattern []).mpr hrest
    rw [List.append_nil] at hfits
    exact hfits

/-- Only stars match the empty text. -/
theorem matches_nil (pattern : List α) :
    Matches star one pattern [] ↔ (pattern.dropWhile (· == star)).isEmpty = true := by
  induction pattern with
  | nil => simp [Matches]
  | cons c pattern ih =>
    by_cases hc : c = star
    · rw [hc,matches_star_nil,ih,List.dropWhile_cons_of_pos (by simp)]
    · rw [matches_cons hc,List.dropWhile_cons_of_neg (by simpa using hc)]
      exact iff_of_false (by rintro ⟨d,rest,hs,-⟩; cases hs) (by simp)

section Loop

variable {pattern s : List α} {p si q matchPos : ℕ} {starAt : Option ℕ}

/-- From position `q` of the pattern and `m` of the text on, the loop has found a part
without stars. -/
def Since (star one : α) (pattern s : List α) (q m p si : ℕ) : Prop :=
  ∃ part text, pattern.drop q = part++pattern.drop p ∧ s.drop m = text++s.drop si ∧ Fits star one part text

/-- What the loop has found since the last star. -/
def Aligned (star one : α) (pattern s : List α) (p si : ℕ) : Option ℕ → ℕ → Prop
  | none,_ => True
  | some sp,matchPos => Since star one pattern s (sp+1) matchPos p si

/-- What the loop still looks for. -/
def Sought (star one : α) (pattern s : List α) (p si : ℕ) : Option ℕ → ℕ → Prop
  | none,_ => Matches star one (pattern.drop p) (s.drop si)
  | some sp,matchPos => Matches star one (star::pattern.drop (sp+1)) (s.drop matchPos)

omit [DecidableEq α] in
theorem since_self (pattern s : List α) (p si : ℕ) : Since star one pattern s p si p si := ⟨[],[],rfl,rfl,.nil⟩

omit [DecidableEq α] in
theorem drop_of_getElem? {c : α} (h : pattern[p]? = some c) : pattern.drop p = c::pattern.drop (p+1) := by
  obtain ⟨hp,hc⟩ := List.getElem?_eq_some_iff.mp h
  rw [List.drop_eq_getElem_cons hp,hc]

omit [DecidableEq α] in
/-- One character of the pattern takes one of the text. -/
theorem chars_of_step (hs : si < s.length) (hstar : ¬pattern[p]? = some star)
    (hchar : pattern[p]? = some one ∨ pattern[p]? = s[si]?) :
    ∃ c d, pattern.drop p = c::pattern.drop (p+1) ∧ s.drop si = d::s.drop (si+1) ∧ c ≠ star ∧ (c = one ∨ c = d) := by
  have htext := List.getElem?_eq_getElem hs
  have hpattern : ∃ c, pattern[p]? = some c ∧ (c = one ∨ c = s[si]) := by
    rcases hchar with hone | hsame
    · exact ⟨one,hone,Or.inl rfl⟩
    · exact ⟨s[si],hsame.trans htext,Or.inr rfl⟩
  obtain ⟨c,hc,hd⟩ := hpattern
  exact ⟨c,s[si],drop_of_getElem? hc,drop_of_getElem? htext,fun hsame => hstar (hsame ▸ hc),hd⟩

/-- Where the loop returns to the star, the rest of the pattern does not match. -/
theorem not_matches_of_step (hs : si < s.length) (hstar : ¬pattern[p]? = some star)
    (hchar : ¬(pattern[p]? = some one ∨ pattern[p]? = s[si]?)) :
    ¬Matches star one (pattern.drop p) (s.drop si) := by
  have htext := List.getElem?_eq_getElem hs
  rw [drop_of_getElem? htext]
  cases hpattern : pattern[p]? with
  | none =>
    rw [List.drop_eq_nil_of_le (List.getElem?_eq_none_iff.mp hpattern)]
    exact nofun
  | some c =>
    rw [hpattern] at hstar hchar
    rw [drop_of_getElem? hpattern,matches_cons fun hc => hstar (congrArg some hc)]
    rintro ⟨d,rest,hrest,hd,-⟩
    rw [List.cons.injEq] at hrest
    refine hchar (hd.imp (congrArg some) fun hsame => ?_)
    rw [htext,hsame,hrest.1]

theorem globLoop_iff (h : matchPos ≤ si) (hs : si ≤ s.length) (haligned : Aligned star one pattern s p si starAt matchPos) :
    globLoop star one pattern s p si starAt matchPos h = true ↔ Sought star one pattern s p si starAt matchPos := by
  induction p,si,starAt,matchPos,h using globLoop.induct star one pattern s with
  | case1 p si starAt matchPos h hlt hstar ih =>
    rw [globLoop.eq_def,dif_pos hlt,dif_pos hstar,ih hs (since_self ..),Sought]
    cases starAt with
    | none => rw [Sought,drop_of_getElem? hstar]
    | some sp =>
      obtain ⟨part,text,hpart,htext,hfits⟩ := haligned
      rw [Sought,hpart,htext,drop_of_getElem? hstar,hfits.matches_star_star]
  | case2 p si starAt matchPos h hlt hstar hchar ih =>
    obtain ⟨c,d,hc,hd,hne,hsame⟩ := chars_of_step hlt hstar hchar
    rw [globLoop.eq_def,dif_pos hlt,dif_neg hstar,dif_pos hchar]
    cases starAt with
    | none =>
      rw [ih hlt trivial,Sought,Sought,hc,hd]
      exact ((Fits.nil.concat hne hsame).matches_append _ _).symm
    | some sp =>
      obtain ⟨part,text,hpart,htext,hfits⟩ := haligned
      refine ih hlt ⟨part++[c],text++[d],?_,?_,hfits.concat hne hsame⟩
      · rw [hpart,hc,List.append_assoc]
        rfl
      · rw [htext,hd,List.append_assoc]
        rfl
  | case3 p si matchPos h hlt hstar hchar sp ih =>
    obtain ⟨part,text,hpart,htext,hfits⟩ := haligned
    have hfail := not_matches_of_step hlt hstar hchar
    rw [← hfits.matches_append,← hpart,← htext] at hfail
    have hpos := List.getElem?_eq_getElem (Nat.lt_of_le_of_lt h hlt)
    rw [globLoop.eq_def,dif_pos hlt,dif_neg hstar,dif_neg hchar,ih (by omega) (since_self ..),Sought,Sought]
    rw [drop_of_getElem? hpos] at hfail ⊢
    rw [matches_star_cons,or_iff_right hfail]
  | case4 p si matchPos h hlt hstar hchar =>
    rw [globLoop.eq_def,dif_pos hlt,dif_neg hstar,dif_neg hchar]
    exact iff_of_false (by simp) (not_matches_of_step hlt hstar hchar)
  | case5 p si starAt matchPos h hge =>
    have hend : s.drop si = [] := List.drop_eq_nil_of_le (by omega)
    rw [globLoop.eq_def,dif_neg hge,← matches_nil]
    cases starAt with
    | none => rw [Sought,hend]
    | some sp =>
      obtain ⟨part,text,hpart,htext,hfits⟩ := haligned
      rw [hend,List.append_nil] at htext
      rw [Sought,hpart,htext,hfits.matches_star_end]

end Loop

/-- The matcher decides the language of the pattern. -/
theorem globMatch_iff (star one : α) (pattern s : List α) :
    globMatch star one pattern s = true ↔ Matches star one pattern s :=
  globLoop_iff (Nat.le_refl 0) (Nat.zero_le _) trivial

end ZNet.GlobLanguage
