import ZNet.TextScan
import Mathlib.Algebra.Ring.Nat

/-!
# Decimal numbers

What is read as a number is below the bound and made of digits, underscores and signs. A
number that is written in decimal is read back.
-/

namespace ZNet.TextScan

/-- The digits after the sign. -/
def parseUnsignedDigits (bound : ℕ) (digits : List UInt8) : Option ℕ :=
  if digits = [] ∨ digits.head? = some 0x5f ∨ digits.getLast? = some 0x5f then none else parseDigits bound 0 digits

theorem parseUnsigned_cons (bound : ℕ) (b : UInt8) (s : List UInt8) : parseUnsigned bound (b::s) =
    if b = 0x2b then parseUnsignedDigits bound s
    else if b = 0x2d then parseUnsignedDigits 1 s else parseUnsignedDigits bound (b::s) := by
  split_ifs with hplus hminus
  · rw [hplus]
    rfl
  · rw [hminus]
    rfl
  · rw [parseUnsigned,parseUnsignedDigits]
    · intro rest h
      exact hplus (List.cons.inj h).1
    · intro rest h
      exact hminus (List.cons.inj h).1

section Reading

variable {bound n : ℕ} {s : List UInt8}

theorem parseDigits_lt {acc : ℕ} (hacc : acc < bound) (h : parseDigits bound acc s = some n) :
    n < bound := by
  induction s generalizing acc with
  | nil =>
    obtain rfl := Option.some.inj h
    exact hacc
  | cons b s ih =>
    rw [parseDigits] at h
    split_ifs at h with hskip hdigit hbound
    · exact ih hacc h
    · exact ih hbound h

theorem parseUnsignedDigits_lt (hpos : 0 < bound)
    (h : parseUnsignedDigits bound s = some n) : n < bound := by
  rw [parseUnsignedDigits] at h
  split_ifs at h
  exact parseDigits_lt hpos h

theorem parseUnsigned_lt (hpos : 0 < bound) (h : parseUnsigned bound s = some n) :
    n < bound := by
  cases s with
  | nil => cases h
  | cons b s =>
    rw [parseUnsigned_cons] at h
    split_ifs at h
    · exact parseUnsignedDigits_lt hpos h
    · exact Nat.lt_of_lt_of_le (parseUnsignedDigits_lt Nat.one_pos h) hpos
    · exact parseUnsignedDigits_lt hpos h

/-- The bytes of a number: digits, underscores and signs. -/
def NumberByte (b : UInt8) : Prop := isDigit b = true ∨ b = 0x5f ∨ b = 0x2b ∨ b = 0x2d

instance (b : UInt8) : Decidable (NumberByte b) := inferInstanceAs (Decidable (_ ∨ _ ∨ _ ∨ _))

theorem parseDigits_bytes {acc : ℕ} (h : parseDigits bound acc s = some n) : ∀ b ∈ s, NumberByte b := by
  induction s generalizing acc with
  | nil => exact fun b hb => nomatch hb
  | cons b s ih =>
    rw [parseDigits] at h
    rw [List.forall_mem_cons]
    split_ifs at h with hscore hdigit
    · exact ⟨Or.inr (Or.inl hscore),ih h⟩
    · exact ⟨Or.inl hdigit,ih h⟩

theorem parseUnsignedDigits_bytes (h : parseUnsignedDigits bound s = some n) : ∀ b ∈ s, NumberByte b := by
  rw [parseUnsignedDigits] at h
  split_ifs at h
  exact parseDigits_bytes h

theorem parseUnsigned_bytes (h : parseUnsigned bound s = some n) : s ≠ [] ∧ ∀ b ∈ s, NumberByte b := by
  cases s with
  | nil => cases h
  | cons b s =>
    refine ⟨List.cons_ne_nil b s,?_⟩
    rw [parseUnsigned_cons] at h
    split_ifs at h with hplus hminus
    · exact List.forall_mem_cons.mpr ⟨Or.inr (Or.inr (Or.inl hplus)),parseUnsignedDigits_bytes h⟩
    · exact List.forall_mem_cons.mpr ⟨Or.inr (Or.inr (Or.inr hminus)),parseUnsignedDigits_bytes h⟩
    · exact parseUnsignedDigits_bytes h

end Reading

section Writing

theorem le_ofDigitChars (cs : List Char) (acc : ℕ) : acc ≤ Nat.ofDigitChars 10 cs acc := by
  rw [Nat.ofDigitChars_eq_ofDigitChars_zero]
  exact (Nat.le_mul_of_pos_left _ (Nat.pow_pos (by decide))).trans (Nat.le_add_right _ _)

/-- Digits are read from the left, on top of what was read before. -/
theorem parseDigits_ascii {bound : ℕ} {cs : List Char} (hcs : ∀ c ∈ cs, 0x30 ≤ c.toNat ∧ c.toNat ≤ 0x39) (acc : ℕ)
    (h : Nat.ofDigitChars 10 cs acc < bound) :
    parseDigits bound acc (ascii cs) = some (Nat.ofDigitChars 10 cs acc) := by
  induction cs generalizing acc with
  | nil => rfl
  | cons c cs ih =>
    obtain ⟨hc,hrest⟩ := List.forall_mem_cons.mp hcs
    have hval : (UInt8.ofNat c.toNat).toNat = c.toNat := by
      rw [UInt8.toNat_ofNat']
      omega
    have hunderscore : UInt8.ofNat c.toNat ≠ 0x5f := by
      intro heq
      rw [heq] at hval
      have hcode : (0x5f : UInt8).toNat = 0x5f := rfl
      omega
    have hdigit : isDigit (UInt8.ofNat c.toNat) = true := by
      rw [isDigit,decide_eq_true_eq,UInt8.le_iff_toNat_le,UInt8.le_iff_toNat_le,hval]
      exact hc
    have hstep : acc*10+digitValue (UInt8.ofNat c.toNat) = 10*acc+(c.toNat- '0'.toNat) := by
      rw [digitValue,hval,Nat.mul_comm]
      rfl
    rw [Nat.ofDigitChars_cons] at h ⊢
    have hle := le_ofDigitChars cs (10*acc+(c.toNat- '0'.toNat))
    change parseDigits bound acc (UInt8.ofNat c.toNat::ascii cs) = _
    rw [parseDigits,if_neg hunderscore,if_pos hdigit,hstep,if_pos (by omega)]
    exact ih hrest _ h

theorem decimal_ne_nil (n : ℕ) : decimal n ≠ [] := by
  rw [decimal,ascii,ne_eq,List.map_eq_nil_iff]
  exact Nat.toDigits_ne_nil

theorem length_decimal_le_iff {n k : ℕ} (hk : 0 < k) : (decimal n).length ≤ k ↔ n < 10^k := by
  rw [decimal,ascii,List.length_map]
  exact Nat.length_toDigits_le_iff (by decide) hk

/-- All but the last digit belong to the tenth part. -/
theorem decimal_of_le {n : ℕ} (h : 10 ≤ n) : ∃ digit, decimal n = decimal (n/10)++[digit] := by
  refine ⟨UInt8.ofNat (Nat.digitChar (n%10)).toNat,?_⟩
  rw [decimal,Nat.toDigits_of_base_le (by decide) h,ascii,List.map_append]
  rfl

/-- To leave out digits at the end is to divide by a power of ten. -/
theorem take_decimal {n k : ℕ} (h : 10^k ≤ n) : (decimal n).take ((decimal n).length-k) = decimal (n/10^k) := by
  induction k generalizing n with
  | zero => simp
  | succ k ih =>
    have hten : 10 ≤ n := (Nat.le_self_pow (Nat.succ_ne_zero k) 10).trans h
    obtain ⟨digit,hdigit⟩ := decimal_of_le hten
    have hrest : 10^k ≤ n/10 := by
      rw [Nat.le_div_iff_mul_le (by decide)]
      exact h
    rw [hdigit,List.length_append,List.length_singleton,Nat.add_sub_add_right,
      List.take_append_of_le_length (Nat.sub_le ..),ih hrest,Nat.div_div_eq_div_mul,Nat.pow_succ']

/-- A decimal number below the bound is read back. -/
theorem parseUnsigned_decimal {bound n : ℕ} (h : n < bound) : parseUnsigned bound (decimal n) = some n := by
  have hfirst : ∀ b ∈ decimal n, b ≠ 0x2b ∧ b ≠ 0x2d ∧ b ≠ 0x5f := by
    intro b hb
    refine ⟨?_,?_,?_⟩
    all_goals
      rintro rfl
      exact notMem_decimal (by decide) n hb
  have hdigits : parseDigits bound 0 (decimal n) = some n := by
    have hvalue := Nat.ofDigitChars_toDigits (b:=10) (n:=n) (by decide) (by decide)
    have hread := parseDigits_ascii (fun c => toDigits_range) 0 (hvalue.trans_lt h)
    rwa [hvalue] at hread
  cases hdecimal : decimal n with
  | nil => exact absurd hdecimal (decimal_ne_nil n)
  | cons b bs =>
    rw [hdecimal] at hfirst hdigits
    obtain ⟨hplus,hminus,hunderscore⟩ := hfirst b (List.mem_cons_self ..)
    rw [parseUnsigned_cons,if_neg hplus,if_neg hminus,parseUnsignedDigits,if_neg,hdigits]
    rintro (hnil|hhead|hlast)
    · cases hnil
    · exact hunderscore (Option.some.inj hhead)
    · exact (hfirst 0x5f (List.mem_of_getLast? hlast)).2.2 rfl

end Writing

end ZNet.TextScan
