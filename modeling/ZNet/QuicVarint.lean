import ZNet.ByteOrder
import Mathlib.Data.Nat.Bitwise
import Mathlib.Tactic.Linarith

/-!
# Variable-length integers of QUIC

`appendVarint` writes an integer in one, two, four or eight bytes, which the two high bits
of the first byte announce. The loop of the long form starts with the byte that the first
one has already, and ends before the lowest.
-/

namespace ZNet.QuicVarint
open ByteOrder

/-- `@intCast` to a byte, which traps when the number is larger. -/
def intCast (n : ℕ) : Option UInt8 := if n < 256 then some (UInt8.ofNat n) else none

/-- Numbers cast to bytes and appended one after another. -/
def append (out : List UInt8) (numbers : List ℕ) : Option (List UInt8) := (numbers.mapM intCast).map (out++·)

def appendVarint (out : List UInt8) (value : ℕ) : Option (List UInt8) :=
  if value < 64 then append out [value]
  else if value < 16384 then append out [0x40 ||| value >>> 8,value &&& 0xff]
  else if value < 1073741824 then
    append out [0x80 ||| value >>> 24,value >>> 16 &&& 0xff,value >>> 8 &&& 0xff,value &&& 0xff]
  else append out ((0xc0 ||| (value >>> 56 &&& 0x3f))::(List.range 7).map fun i => value >>> ((7-i)*8) &&& 0xff)

/-- The length that the two high bits of the first byte announce. -/
def announced (b : UInt8) : ℕ := 2^(b.toNat/64)

/-- RFC 9000 §16: as many bytes as announced, in network order and without the two bits. -/
def decodeVarint : List UInt8 → Option (ℕ×List UInt8)
  | [] => none
  | b::bytes =>
    if announced b ≤ bytes.length+1 then
      some (ofBytes .big ((b::bytes).take (announced b))%2^(8*announced b-2),(b::bytes).drop (announced b))
    else none

/-- The bytes appended for `value` are as many as they announce and are decoded to `w`,
whatever follows them. -/
def EncodedAs (value w : ℕ) : Prop :=
  ∃ bytes, (∀ out, appendVarint out value = some (out++bytes)) ∧ bytes.length ∈ [1,2,4,8] ∧
    bytes.head?.map announced = some bytes.length ∧ ∀ rest, decodeVarint (bytes++rest) = some (w,rest)

/-- A value below 2^62 is decoded again from its bytes. One above is not encoded, or at
least not as another value. -/
structure Faithful (value : ℕ) : Prop where
  small : value < 2^62 → EncodedAs value value
  large : 2^62 ≤ value → ∀ out bytes, appendVarint out value = some (out++bytes) →
    ∀ rest v rest', decodeVarint (bytes++rest) = some (v,rest') → v = value

/-- The value that the bytes stand for. -/
def written (value : ℕ) : ℕ := if value < 1073741824 then value else value/2^56%64*2^56+value/256

section Bytes

theorem append_eq {numbers : List ℕ} (h : ∀ n ∈ numbers, n < 256) (out : List UInt8) :
    append out numbers = some (out++numbers.map UInt8.ofNat) := by
  have hcast : numbers.mapM intCast = some (numbers.map UInt8.ofNat) := by
    induction numbers with
    | nil => rfl
    | cons n numbers ih =>
      rw [List.forall_mem_cons] at h
      rw [List.mapM_cons,ih h.2,intCast,if_pos h.1]
      rfl
  rw [append,hcast]
  rfl

theorem and_byte (n : ℕ) : n &&& 0xff = n%256 := Nat.and_two_pow_sub_one_eq_mod n 8

/-- The two high bits are added to a number of six. -/
theorem or_high {n : ℕ} (hn : n < 64) : 0x40 ||| n = 64+n ∧ 0x80 ||| n = 128+n ∧ 0xc0 ||| n = 192+n := by
  have h (k : ℕ) : 2^6*k ||| n = 2^6*k+n := (Nat.two_pow_add_eq_or_of_lt (i:=6) hn k).symm
  exact ⟨h 1,h 2,h 3⟩

/-- Bytes of the length they announce are decoded, and what follows them is left. -/
theorem decodeVarint_append {bytes : List UInt8} (h : bytes.head?.map announced = some bytes.length)
    (rest : List UInt8) :
    decodeVarint (bytes++rest) = some (ofBytes .big bytes%2^(8*bytes.length-2),rest) := by
  cases bytes with
  | nil => cases h
  | cons b bytes =>
    have hlen : announced b = bytes.length+1 := Option.some.inj h
    have hfits : announced b ≤ (bytes++rest).length+1 := by
      rw [hlen,List.length_append]
      omega
    have hcut : bytes.length+1 = (b::bytes).length := rfl
    rw [List.cons_append,decodeVarint,if_pos hfits,hlen,hcut,← List.cons_append,List.take_left,List.drop_left]

theorem ofBytes_numbers {numbers : List ℕ} (h : ∀ n ∈ numbers, n < 256) :
    ofBytes .big (numbers.map UInt8.ofNat) = Nat.ofDigits 256 numbers.reverse := by
  rw [ofBytes,ofLittleBytes,← List.map_reverse,List.map_map]
  have hcast : numbers.reverse.map (UInt8.toNat ∘ UInt8.ofNat) = numbers.reverse.map id := by
    refine List.map_congr_left fun n hn => ?_
    rw [Function.comp_apply,UInt8.toNat_ofNat']
    exact Nat.mod_eq_of_lt (h n (List.mem_reverse.mp hn))
  rw [hcast,List.map_id]

end Bytes

section Forms

variable {value : ℕ}

/-- What is to be checked of the numbers that a branch appends. -/
theorem encodedAs_of_numbers {numbers : List ℕ} {w : ℕ} (happend : ∀ out, appendVarint out value = append out numbers)
    (hbyte : ∀ n ∈ numbers, n < 256) (hlength : numbers.length ∈ [1,2,4,8])
    (hannounced : numbers.head?.map (fun n => 2^(n/64)) = some numbers.length)
    (hw : Nat.ofDigits 256 numbers.reverse%2^(8*numbers.length-2) = w) : EncodedAs value w := by
  have hfirst : (numbers.map UInt8.ofNat).head?.map announced = some (numbers.map UInt8.ofNat).length := by
    rw [List.length_map,← hannounced,List.head?_map,Option.map_map]
    cases numbers with
    | nil => rfl
    | cons n numbers =>
      have hn : (UInt8.ofNat n).toNat = n := by
        rw [UInt8.toNat_ofNat']
        exact Nat.mod_eq_of_lt (hbyte n List.mem_cons_self)
      simp [announced,hn]
  refine ⟨numbers.map UInt8.ofNat,fun out => (happend out).trans (append_eq hbyte out),by simpa using hlength,hfirst,?_⟩
  intro rest
  rw [decodeVarint_append hfirst,ofBytes_numbers hbyte,List.length_map,hw]

theorem encodedAs_one (h : value < 64) : EncodedAs value value := by
  apply @encodedAs_of_numbers value [value]
  · intro out
    rw [appendVarint,if_pos h]
  · simp
    omega
  · simp
  · simp [Nat.div_eq_of_lt h]
  · simp
    omega

theorem encodedAs_two (h : 64 ≤ value) (h' : value < 16384) : EncodedAs value value := by
  have hhigh : value/256 < 64 := by omega
  apply @encodedAs_of_numbers value [64+value/256,value%256]
  · intro out
    rw [appendVarint,if_neg (by omega),if_pos h',and_byte,Nat.shiftRight_eq_div_pow,(or_high hhigh).1]
  · simp
    omega
  · simp
  · have hbits : (64+value/256)/64 = 1 := by omega
    simp [hbits]
  · simp [Nat.ofDigits]
    omega

theorem encodedAs_four (h : 16384 ≤ value) (h' : value < 1073741824) : EncodedAs value value := by
  have hhigh : value/16777216 < 64 := by omega
  apply @encodedAs_of_numbers value [128+value/16777216,value/65536%256,value/256%256,value%256]
  · intro out
    rw [appendVarint,if_neg (by omega),if_neg (by omega),if_pos h']
    simp only [and_byte,Nat.shiftRight_eq_div_pow]
    rw [(or_high hhigh).2.1]
  · simp
    omega
  · simp
  · have hbits : (128+value/16777216)/64 = 2 := by omega
    simp [hbits]
  · simp [Nat.ofDigits]
    omega

/-- The digits of `value/256` below any other. -/
theorem ofDigits_quotients {top : ℕ} (h : value < 2^64) :
    Nat.ofDigits 256 [value/2^8%256,value/2^16%256,value/2^24%256,value/2^32%256,value/2^40%256,value/2^48%256,
      value/2^56%256,top] = top*2^56+value/256 := by
  -- each division by 256 leaves the digits above
  have hstep (k : ℕ) : value/2^k%256+256*(value/2^(k+8)) = value/2^k := by
    rw [Nat.pow_add,← Nat.div_div_eq_div_mul]
    exact Nat.mod_add_div _ 256
  have h8 := hstep 8
  have h16 := hstep 16
  have h24 := hstep 24
  have h32 := hstep 32
  have h40 := hstep 40
  have h48 := hstep 48
  have h56 : value/2^56%256 = value/2^56 := Nat.mod_eq_of_lt (by omega)
  have hfirst : value/256 = value/2^8 := rfl
  simp only [Nat.ofDigits_cons,Nat.ofDigits_nil,h56,hfirst]
  linarith

theorem encodedAs_eight (h : 1073741824 ≤ value) (h' : value < 2^64) :
    EncodedAs value (value/2^56%64*2^56+value/256) := by
  have hhigh : value/72057594037927936%64 < 64 := by omega
  apply @encodedAs_of_numbers value ((192+value/72057594037927936%64)::[value/2^56%256,value/2^48%256,value/2^40%256,
    value/2^32%256,value/2^24%256,value/2^16%256,value/2^8%256])
  · intro out
    have hsix (n : ℕ) : n &&& 0x3f = n%64 := Nat.and_two_pow_sub_one_eq_mod n 6
    rw [appendVarint,if_neg (by omega),if_neg (by omega),if_neg (by omega)]
    simp only [and_byte,hsix,Nat.shiftRight_eq_div_pow]
    rw [(or_high hhigh).2.2]
    rfl
  · simp
    omega
  · simp
  · have hbits : (192+value/72057594037927936%64)/64 = 3 := by omega
    simp [hbits]
  · have hsum := @ofDigits_quotients value (192+value/72057594037927936%64) h'
    simp only [List.reverse_cons,List.reverse_nil,List.nil_append,List.cons_append,List.length_cons,List.length_nil]
    rw [hsum]
    omega

end Forms

theorem encodedAs_written {value : ℕ} (hvalue : value < 2^64) : EncodedAs value (written value) := by
  rw [written]
  split
  · by_cases hone : value < 64
    · exact encodedAs_one hone
    · by_cases htwo : value < 16384
      · exact encodedAs_two (by omega) htwo
      · exact encodedAs_four (by omega) (by assumption)
  · exact encodedAs_eight (by omega) hvalue

/-- The long form keeps a value whose eight bytes are all the same, and no other. -/
theorem written_eq_iff {value : ℕ} (hvalue : value < 2^62) :
    written value = value ↔ value < 2^30 ∨ ∃ k, 1 ≤ k ∧ k ≤ 63 ∧ value = k*0x0101010101010101 := by
  rw [written]
  split
  · exact iff_of_true rfl (.inl (by omega))
  · constructor
    · intro h
      exact .inr ⟨value/2^56,by omega,by omega,by omega⟩
    · rintro (h|⟨k,hpos,hle,rfl⟩)
      · omega
      · have htop : k*0x0101010101010101/2^56 = k := by omega
        have hrest : k*0x0101010101010101/256 = k*0x01010101010101 := by omega
        omega

/-- Exactly the values below 2^30 and those whose eight bytes are all the same number from
1 to 63 are encoded as they should be. -/
theorem faithful_iff (value : UInt64) : Faithful value.toNat ↔
    value.toNat < 2^30 ∨ ∃ k, 1 ≤ k ∧ k ≤ 63 ∧ value.toNat = k*0x0101010101010101 := by
  have hvalue : value.toNat < 2^64 := value.toNat_lt
  generalize value.toNat = n at hvalue ⊢
  obtain ⟨bytes,happend,hlength,hannounced,hdecode⟩ := encodedAs_written hvalue
  constructor
  · intro h
    by_cases hsmall : n < 2^62
    · obtain ⟨bytes',happend',-,-,hdecode'⟩ := h.small hsmall
      obtain rfl : bytes = bytes' := by simpa using (happend []).symm.trans (happend' [])
      have hsame := (hdecode []).symm.trans (hdecode' [])
      exact (written_eq_iff hsmall).mp (Prod.mk.inj (Option.some.inj hsame)).1
    · have hsame := h.large (by omega) [] bytes (happend []) [] (written n) [] (hdecode [])
      rw [written] at hsame
      split at hsame <;> omega
  · intro h
    have hsmall : n < 2^62 := by
      obtain h|⟨k,hpos,hle,rfl⟩ := h <;> omega
    rw [(written_eq_iff hsmall).mpr h] at hdecode
    exact ⟨fun _ => ⟨bytes,happend,hlength,hannounced,hdecode⟩,fun hlarge => by omega⟩

/-- The bytes of 2^30, the first value of the long form, stand for 2^22. -/
theorem long_form_shifted : appendVarint [] (2^30) = some [0xc0,0,0,0,0,0x40,0,0] ∧
    decodeVarint [0xc0,0,0,0,0,0x40,0,0] = some (2^22,[]) ∧ ¬Faithful (2^30) := by
  have happend : appendVarint [] (2^30) = some [0xc0,0,0,0,0,0x40,0,0] := by decide
  have hdecode : decodeVarint [0xc0,0,0,0,0,0x40,0,0] = some (2^22,[]) := by decide
  refine ⟨happend,hdecode,fun h => ?_⟩
  obtain ⟨bytes,happend',-,-,hdecode'⟩ := h.small (by decide)
  obtain rfl : [0xc0,0,0,0,0,0x40,0,0] = bytes := by simpa using happend.symm.trans (happend' [])
  exact absurd (hdecode.symm.trans (hdecode' [])) (by decide)

end ZNet.QuicVarint
