import Mathlib.Data.Nat.Digits.Defs

/-!
# Integers in memory

The bytes of an unsigned integer of a given width, in little-endian or big-endian order.
-/

namespace ZNet.ByteOrder

inductive Endian
  | little | big
deriving DecidableEq

/-- The `width` low bytes of `n`, least significant first. -/
def littleBytes : ℕ → ℕ → List UInt8
  | 0,_ => []
  | width+1,n => UInt8.ofNat n::littleBytes width (n/256)

def toBytes : Endian → ℕ → ℕ → List UInt8
  | .little,width,n => littleBytes width n
  | .big,width,n => (littleBytes width n).reverse

def ofLittleBytes (bytes : List UInt8) : ℕ := Nat.ofDigits 256 (bytes.map UInt8.toNat)

def ofBytes : Endian → List UInt8 → ℕ
  | .little,bytes => ofLittleBytes bytes
  | .big,bytes => ofLittleBytes bytes.reverse

/-- The number in so many bytes of a message, in big-endian order. -/
def numberAt (data : List UInt8) (offset width : ℕ) : ℕ := ofBytes .big ((data.drop offset).take width)

@[simp] theorem length_littleBytes (width n : ℕ) : (littleBytes width n).length = width := by
  induction width generalizing n with
  | zero => rfl
  | succ width ih => rw [littleBytes,List.length_cons,ih]

@[simp] theorem length_toBytes (order : Endian) (width n : ℕ) : (toBytes order width n).length = width := by
  cases order <;> simp [toBytes]

theorem ofLittleBytes_littleBytes {width n : ℕ} (hn : n < 256^width) : ofLittleBytes (littleBytes width n) = n := by
  induction width generalizing n with
  | zero =>
    have hzero : n = 0 := by simpa using hn
    rw [hzero]
    rfl
  | succ width ih =>
    have hrest := ih (n:=n/256) (Nat.div_lt_of_lt_mul (by rw [Nat.pow_succ'] at hn; exact hn))
    rw [ofLittleBytes] at hrest ⊢
    rw [littleBytes,List.map_cons,Nat.ofDigits_cons,hrest,UInt8.toNat_ofNat']
    omega

/-- Memory written in one order and read in the same order. -/
theorem ofBytes_toBytes (order : Endian) {width n : ℕ} (hn : n < 256^width) :
    ofBytes order (toBytes order width n) = n := by
  cases order with
  | little => exact ofLittleBytes_littleBytes hn
  | big =>
    rw [ofBytes,toBytes,List.reverse_reverse]
    exact ofLittleBytes_littleBytes hn

theorem ofLittleBytes_lt (bytes : List UInt8) : ofLittleBytes bytes < 256^bytes.length := by
  have hdigit : ∀ d ∈ bytes.map UInt8.toNat, d < 256 := by
    intro d hd
    obtain ⟨b,-,rfl⟩ := List.mem_map.mp hd
    exact b.toNat_lt
  have hlt := Nat.ofDigits_lt_base_pow_length (by decide) hdigit
  rwa [List.length_map] at hlt

theorem ofBytes_lt (order : Endian) (bytes : List UInt8) : ofBytes order bytes < 256^bytes.length := by
  cases order with
  | little => exact ofLittleBytes_lt bytes
  | big =>
    rw [← List.length_reverse]
    exact ofLittleBytes_lt bytes.reverse

theorem ofLittleBytes_inj {xs ys : List UInt8} (hlen : xs.length = ys.length)
    (h : ofLittleBytes xs = ofLittleBytes ys) : xs = ys := by
  have hdigit : ∀ (bytes : List UInt8), ∀ d ∈ bytes.map UInt8.toNat, d < 256 := by
    intro bytes d hd
    obtain ⟨b,-,rfl⟩ := List.mem_map.mp hd
    exact b.toNat_lt
  have hmap := Nat.ofDigits_inj_of_len_eq (by decide) (by simpa using hlen) (hdigit xs) (hdigit ys) h
  exact (List.map_inj_right fun _ _ => UInt8.toNat_inj.mp).mp hmap

/-- The two orders read the same number exactly if the bytes are a palindrome. -/
theorem ofBytes_little_eq_big (bytes : List UInt8) :
    ofBytes .little bytes = ofBytes .big bytes ↔ bytes = bytes.reverse := by
  constructor
  · intro h
    exact ofLittleBytes_inj (List.length_reverse).symm h
  · intro h
    rw [ofBytes,ofBytes,← h]

/-- A number that is written in little-endian order is read in the other one exactly if its
bytes are a palindrome. -/
theorem ofBytes_big_little {width n : ℕ} (hn : n < 256^width) :
    ofBytes .big (toBytes .little width n) = n ↔ toBytes .little width n = (toBytes .little width n).reverse := by
  have hread := ofBytes_toBytes .little hn
  rw [← ofBytes_little_eq_big,hread]
  exact eq_comm

end ZNet.ByteOrder
