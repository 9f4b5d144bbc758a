import ZNet.Decimals

/-!
# Letter case

A search for something without letters does not see the case of a text, and neither does
the reading of a number.
-/

namespace ZNet.TextScan

section Maps

variable {α : Type} [DecidableEq α] {f : α → α} {needle : List α}

theorem isPrefixOf_map (hf : ∀ c ∈ needle, ∀ b, f b = c ↔ b = c) (s : List α) :
    needle.isPrefixOf (s.map f) = needle.isPrefixOf s := by
  induction needle generalizing s with
  | nil => rfl
  | cons c needle ih =>
    cases s with
    | nil => rfl
    | cons b s =>
      have hhead : (c == f b) = (c == b) := by
        rw [Bool.eq_iff_iff,beq_iff_eq,beq_iff_eq,eq_comm,hf c (List.mem_cons_self ..) b,eq_comm]
      rw [List.map_cons,List.isPrefixOf_cons_cons,List.isPrefixOf_cons_cons,hhead,
        ih (fun d hd => hf d (List.mem_cons_of_mem c hd))]

theorem indexOf_map (hf : ∀ c ∈ needle, ∀ b, f b = c ↔ b = c) (s : List α) :
    indexOf needle (s.map f) = indexOf needle s := by
  induction s with
  | nil => rfl
  | cons b s ih =>
    have hfirst := isPrefixOf_map hf (b::s)
    rw [List.map_cons] at hfirst ⊢
    rw [indexOf,indexOf,hfirst,ih]

theorem lastIndexOfScalar_map {c : α} (hf : ∀ b, f b = c ↔ b = c) (s : List α) :
    lastIndexOfScalar c (s.map f) = lastIndexOfScalar c s := by
  have hsame : (fun b => b == c)∘f = fun b => b == c := by
    funext b
    rw [Function.comp,Bool.eq_iff_iff,beq_iff_eq,beq_iff_eq,hf]
  have hfind : (s.reverse.map f).idxOf? c = s.reverse.idxOf? c := by
    change (s.reverse.map f).findIdx? (fun b => b == c) = s.reverse.findIdx? (fun b => b == c)
    rw [List.findIdx?_map,hsame]
  rw [lastIndexOfScalar,lastIndexOfScalar,← List.map_reverse,hfind,List.length_map]

end Maps

def toUpper (b : UInt8) : UInt8 := if 0x61 ≤ b ∧ b ≤ 0x7a then b-0x20 else b

def isLetter (b : UInt8) : Bool := decide (0x41 ≤ b ∧ b ≤ 0x5a ∨ 0x61 ≤ b ∧ b ≤ 0x7a)

/-- Two texts that differ in the case of their letters only. -/
def SameLetters (s t : List UInt8) : Prop := s.map toLower = t.map toLower

instance (s t : List UInt8) : Decidable (SameLetters s t) :=
  inferInstanceAs (Decidable (s.map toLower = t.map toLower))

theorem toLower_cases (b : UInt8) :
    0x41 ≤ b.toNat ∧ b.toNat ≤ 0x5a ∧ (toLower b).toNat = b.toNat+0x20 ∨
    ¬(0x41 ≤ b.toNat ∧ b.toNat ≤ 0x5a) ∧ toLower b = b := by
  rw [toLower]
  split
  · rename_i h
    rw [UInt8.le_iff_toNat_le,UInt8.le_iff_toNat_le] at h
    have hlow : (0x41 : UInt8).toNat = 0x41 := rfl
    have hhigh : (0x5a : UInt8).toNat = 0x5a := rfl
    have hstep : (0x20 : UInt8).toNat = 0x20 := rfl
    refine Or.inl ⟨h.1,h.2,?_⟩
    rw [UInt8.toNat_add,hstep]
    omega
  · rename_i h
    rw [UInt8.le_iff_toNat_le,UInt8.le_iff_toNat_le] at h
    exact Or.inr ⟨h,rfl⟩

theorem toLower_eq_iff {c : UInt8} (hc : isLetter c = false) (b : UInt8) : toLower b = c ↔ b = c := by
  have hc : ¬(0x41 ≤ c.toNat ∧ c.toNat ≤ 0x5a ∨ 0x61 ≤ c.toNat ∧ c.toNat ≤ 0x7a) := of_decide_eq_false hc
  rcases toLower_cases b with ⟨hlow,hhigh,hb⟩ | ⟨-,hb⟩
  · constructor
    · rintro rfl
      omega
    · rintro rfl
      omega
  · rw [hb]

theorem isDigit_lower (b : UInt8) : isDigit (toLower b) = isDigit b ∧ (isDigit b = true → toLower b = b) := by
  rcases toLower_cases b with ⟨hlow,hhigh,hb⟩ | ⟨-,hb⟩
  · have hzero : (0x30 : UInt8).toNat = 0x30 := rfl
    have hnine : (0x39 : UInt8).toNat = 0x39 := rfl
    have hdigit : isDigit b = false := by
      rw [isDigit,decide_eq_false_iff_not,UInt8.le_iff_toNat_le,UInt8.le_iff_toNat_le]
      omega
    have hdigit' : isDigit (toLower b) = false := by
      rw [isDigit,decide_eq_false_iff_not,UInt8.le_iff_toNat_le,UInt8.le_iff_toNat_le]
      omega
    rw [hdigit,hdigit']
    exact ⟨rfl,fun h => by cases h⟩
  · rw [hb]
    exact ⟨rfl,fun _ => rfl⟩

theorem parseDigits_lower (bound acc : ℕ) (s : List UInt8) :
    parseDigits bound acc (s.map toLower) = parseDigits bound acc s := by
  induction s generalizing acc with
  | nil => rfl
  | cons b s ih =>
    obtain ⟨hsame,hdigit⟩ := isDigit_lower b
    rw [List.map_cons,parseDigits,parseDigits,hsame,ih]
    simp only [toLower_eq_iff (c:=0x5f) (by decide)]
    cases hb : isDigit b with
    | false => rfl
    | true => rw [hdigit hb,ih]

theorem parseUnsignedDigits_lower (bound : ℕ) (s : List UInt8) :
    parseUnsignedDigits bound (s.map toLower) = parseUnsignedDigits bound s := by
  have hhead : (s.map toLower).head? = some 0x5f ↔ s.head? = some 0x5f := by
    rw [List.head?_map]
    cases s.head? with
    | none => simp
    | some b => simp [toLower_eq_iff (c:=0x5f) (by decide)]
  have hlast : (s.map toLower).getLast? = some 0x5f ↔ s.getLast? = some 0x5f := by
    rw [List.getLast?_map]
    cases s.getLast? with
    | none => simp
    | some b => simp [toLower_eq_iff (c:=0x5f) (by decide)]
  rw [parseUnsignedDigits,parseUnsignedDigits,parseDigits_lower]
  simp only [List.map_eq_nil_iff,hhead,hlast]

theorem parseUnsigned_lower (bound : ℕ) (s : List UInt8) :
    parseUnsigned bound (s.map toLower) = parseUnsigned bound s := by
  cases s with
  | nil => rfl
  | cons b s =>
    have hwhole := parseUnsignedDigits_lower bound (b::s)
    rw [List.map_cons] at hwhole ⊢
    rw [parseUnsigned_cons,parseUnsigned_cons,parseUnsignedDigits_lower,parseUnsignedDigits_lower,hwhole]
    simp only [toLower_eq_iff (c:=0x2b) (by decide),toLower_eq_iff (c:=0x2d) (by decide)]

theorem toUpper_cases (b : UInt8) :
    0x61 ≤ b.toNat ∧ b.toNat ≤ 0x7a ∧ (toUpper b).toNat = b.toNat-0x20 ∨
    ¬(0x61 ≤ b.toNat ∧ b.toNat ≤ 0x7a) ∧ toUpper b = b := by
  rw [toUpper]
  split
  · rename_i h
    rw [UInt8.le_iff_toNat_le,UInt8.le_iff_toNat_le] at h
    have hlow : (0x61 : UInt8).toNat = 0x61 := rfl
    have hhigh : (0x7a : UInt8).toNat = 0x7a := rfl
    have hstep : (0x20 : UInt8).toNat = 0x20 := rfl
    refine Or.inl ⟨h.1,h.2,?_⟩
    rw [UInt8.toNat_sub_of_le,hstep]
    rw [UInt8.le_iff_toNat_le]
    omega
  · rename_i h
    rw [UInt8.le_iff_toNat_le,UInt8.le_iff_toNat_le] at h
    exact Or.inr ⟨h,rfl⟩

theorem isLetter_iff (b : UInt8) :
    isLetter b = true ↔ 0x41 ≤ b.toNat ∧ b.toNat ≤ 0x5a ∨ 0x61 ≤ b.toNat ∧ b.toNat ≤ 0x7a := by
  rw [isLetter,decide_eq_true_iff]
  exact Iff.rfl

theorem toLower_toUpper (b : UInt8) : toLower (toUpper b) = toLower b := by
  rw [← UInt8.toNat_inj]
  rcases toUpper_cases b with ⟨hlow,hhigh,hup⟩ | ⟨-,hup⟩
  · rcases toLower_cases (toUpper b) with ⟨-,-,hdown⟩ | ⟨hrange,-⟩
    · rcases toLower_cases b with ⟨-,hbound,-⟩ | ⟨-,hsame⟩
      · omega
      · rw [hsame]
        omega
    · omega
  · rw [hup]

theorem toLower_toLower (b : UInt8) : toLower (toLower b) = toLower b := by
  rcases toLower_cases b with ⟨hlow,hhigh,hb⟩ | ⟨-,hb⟩
  · rcases toLower_cases (toLower b) with ⟨-,hbound,-⟩ | ⟨-,hsame⟩
    · omega
    · exact hsame
  · rw [hb,hb]

theorem toUpper_toLower (b : UInt8) : toUpper (toLower b) = toUpper b := by
  rw [← UInt8.toNat_inj]
  rcases toLower_cases b with ⟨hlow,hhigh,hdown⟩ | ⟨-,hdown⟩
  · rcases toUpper_cases (toLower b) with ⟨-,-,hup⟩ | ⟨hrange,-⟩
    · rcases toUpper_cases b with ⟨hbound,-,-⟩ | ⟨-,hsame⟩
      · omega
      · rw [hsame]
        omega
    · omega
  · rw [hdown]

/-- Only a letter has two cases. -/
theorem letterless_iff (b : UInt8) : isLetter b = false ↔ toLower b = toUpper b := by
  rw [← Bool.not_eq_true,isLetter_iff,← UInt8.toNat_inj]
  rcases toLower_cases b with ⟨hlow,hhigh,hb⟩ | ⟨hrange,hb⟩
  · rcases toUpper_cases b with ⟨hlow',-,-⟩ | ⟨-,hup⟩
    · omega
    · rw [hup]
      omega
  · rcases toUpper_cases b with ⟨hlow',hhigh',hup⟩ | ⟨hrange',hup⟩
    · rw [hb]
      omega
    · rw [hb,hup]
      tauto

theorem SameLetters.symm {s t : List UInt8} (h : SameLetters s t) : SameLetters t s := Eq.symm h

theorem SameLetters.length_eq {s t : List UInt8} (h : SameLetters s t) : s.length = t.length := by
  rw [← List.length_map (f:=toLower),h,List.length_map]

theorem sameLetters_lower (s : List UInt8) : SameLetters (s.map toLower) s := by
  rw [SameLetters,List.map_map]
  exact List.map_congr_left fun b _ => toLower_toLower b

theorem sameLetters_upper (s : List UInt8) : SameLetters (s.map toUpper) s := by
  rw [SameLetters,List.map_map]
  exact List.map_congr_left fun b _ => toLower_toUpper b

/-- Texts with the same letters are the same in capitals. -/
theorem SameLetters.upper_eq {s t : List UInt8} (h : SameLetters s t) : s.map toUpper = t.map toUpper := by
  have hupper (s : List UInt8) : (s.map toLower).map toUpper = s.map toUpper := by
    rw [List.map_map]
    exact List.map_congr_left fun b _ => toUpper_toLower b
  rw [← hupper s,← hupper t,show s.map toLower = t.map toLower from h]

/-- Without letters there is one way to write a text. -/
theorem SameLetters.eq_of_letterless {s t : List UInt8} (ht : ∀ b ∈ t, isLetter b = false) (h : SameLetters s t) :
    s = t := by
  induction s generalizing t with
  | nil => exact (List.map_eq_nil_iff.mp h.symm).symm
  | cons b s ih =>
    cases t with
    | nil => cases h
    | cons c t =>
      obtain ⟨hhead,htail⟩ := List.cons.inj h
      have hc := ht c (List.mem_cons_self ..)
      rw [(toLower_eq_iff hc c).mpr rfl,toLower_eq_iff hc] at hhead
      rw [hhead,ih (fun d hd => ht d (List.mem_cons_of_mem c hd)) htail]

theorem letterless_of_map {s : List UInt8} (h : s.map toLower = s.map toUpper) : ∀ b ∈ s, isLetter b = false :=
  fun b hb => (letterless_iff b).mpr (List.map_inj_left.mp h b hb)

theorem not_mem_upper {c : UInt8} (hlow : 0x61 ≤ c.toNat) (hhigh : c.toNat ≤ 0x7a) (s : List UInt8) :
    c ∉ s.map toUpper := by
  intro hc
  obtain ⟨b,-,hb⟩ := List.mem_map.mp hc
  rcases toUpper_cases b with ⟨hlow',hhigh',hup⟩ | ⟨hrange,hup⟩
  · rw [hb] at hup
    omega
  · rw [hb] at hup
    rw [← hup] at hrange
    exact hrange ⟨hlow,hhigh⟩

/-- The digits in front of a text do not depend on its letters. -/
theorem SameLetters.takeWhile_digits {s t : List UInt8} (h : SameLetters s t) :
    s.takeWhile isDigit = t.takeWhile isDigit := by
  induction s generalizing t with
  | nil => rw [List.map_eq_nil_iff.mp (Eq.symm h)]
  | cons b s ih =>
    cases t with
    | nil => cases h
    | cons c t =>
      obtain ⟨hhead,htail⟩ := List.cons.inj h
      obtain ⟨hb,hbsame⟩ := isDigit_lower b
      obtain ⟨hc,hcsame⟩ := isDigit_lower c
      rw [List.takeWhile_cons,List.takeWhile_cons,← hb,← hc,hhead]
      split
      · rename_i hdigit
        have hbdigit : isDigit b = true := by rw [← hb,hhead,hdigit]
        rw [← hbsame hbdigit,← hcsame (hc.symm.trans hdigit),hhead,ih htail]
      · rfl

end ZNet.TextScan
