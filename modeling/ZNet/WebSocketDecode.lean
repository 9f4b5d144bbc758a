import ZNet.WebSocketFrames

/-!
# Decoding a receive buffer again, and traps of `decode`

What `decode` returns for a buffer stays when more bytes arrive, unless it asked for more.
With every index, slice and addition checked, two kinds of headers trap.
-/

namespace ZNet.WebSocketDecode
open ByteOrder WebSocketFrames

abbrev insufficient : Failure := .error .insufficientData

section Append

variable {data : List UInt8}

theorem slice_append {start stop : ℕ} (rest : List UInt8) (hstop : stop ≤ data.length) :
    slice (data++rest) start stop = slice data start stop := by
  rw [slice,slice,List.drop_append,List.take_append_of_le_length]
  · simp
    omega

theorem getD_append {i : ℕ} (rest : List UInt8) (hi : i < data.length) :
    (data++rest).getD i 0 = data.getD i 0 := by
  simp [List.getElem?_append_left hi]

/-- Of two computations one after the other neither asks for more, so that both are the
same with more bytes. -/
theorem bind_settled {α β : Type} {x x' : Except Failure α} {f f' : α → Except Failure β}
    (h : (x >>= f) ≠ .error insufficient) (hx : x ≠ .error insufficient → x' = x)
    (hf : ∀ a, x = .ok a → f a ≠ .error insufficient → f' a = f a) : (x' >>= f') = (x >>= f) := by
  have hsettled : x ≠ .error insufficient := by
    intro hinsufficient
    rw [hinsufficient] at h
    exact h rfl
  rw [hx hsettled]
  cases x with
  | error e => rfl
  | ok a => exact hf a rfl h

/-- A guard that does not ask for more. -/
theorem guard_settled {α : Type} {n : ℕ} {x x' : Except Failure α} (rest : List UInt8)
    (h : (if data.length < n then .error insufficient else x) ≠ .error insufficient)
    (hx : n ≤ data.length → x ≠ .error insufficient → x' = x) :
    (if (data++rest).length < n then .error insufficient else x') =
      if data.length < n then .error insufficient else x := by
  by_cases hshort : data.length < n
  · rw [if_pos hshort] at h
    exact absurd rfl h
  · rw [if_neg hshort] at h
    rw [if_neg hshort,if_neg (by rw [List.length_append]; omega),hx (by omega) h]

theorem decodeLength_append {order : Endian} {field : UInt8} (rest : List UInt8)
    (h : decodeLength order data field ≠ .error insufficient) :
    decodeLength order (data++rest) field = decodeLength order data field := by
  rw [decodeLength] at h
  rw [decodeLength,decodeLength]
  by_cases hsmall : field < 126
  · rw [if_pos hsmall,if_pos hsmall]
  · rw [if_neg hsmall] at h
    rw [if_neg hsmall,if_neg hsmall]
    by_cases hmid : field = 126
    · rw [if_pos hmid] at h
      rw [if_pos hmid,if_pos hmid]
      apply guard_settled rest h
      intro hlen _
      rw [slice_append rest hlen]
    · rw [if_neg hmid] at h
      rw [if_neg hmid,if_neg hmid]
      apply guard_settled rest h
      intro hlen _
      rw [slice_append rest hlen]

theorem decodeKey_append {self : WebSocketFrame} {masked : Bool} {offset : ℕ} (rest : List UInt8)
    (h : decodeKey self data masked offset ≠ .error insufficient) :
    decodeKey self (data++rest) masked offset = decodeKey self data masked offset := by
  cases masked with
  | false => rfl
  | true =>
    apply guard_settled rest h
    intro hlen _
    rw [slice_append rest hlen]

/-- A result other than a request for more bytes does not depend on what follows. -/
theorem decode_append {order : Endian} {self : WebSocketFrame} (rest : List UInt8)
    (h : decode order self data ≠ .error insufficient) :
    decode order self (data++rest) = decode order self data := by
  apply guard_settled rest h
  intro hlen h
  rw [getD_append rest (by omega),getD_append rest (by omega)]
  cases hopcode : WebSocketFrameType.enumFromInt (data.getD 0 0 &&& 0x0f) with
  | none => rfl
  | some opcode =>
    rw [hopcode] at h
    apply bind_settled h (decodeLength_append rest)
    intro ⟨payloadLength,offset⟩ _ h
    apply bind_settled h (decodeKey_append rest)
    intro ⟨maskingKey,offset⟩ _ h
    simp only at h ⊢
    by_cases htrap : 2^64 ≤ offset+payloadLength
    · rw [if_pos htrap,if_pos htrap]
    · rw [if_neg htrap] at h
      rw [if_neg htrap,if_neg htrap]
      apply guard_settled rest h
      intro hlen _
      rw [slice_append rest hlen]

end Append

theorem le_length_of_decode {order : Endian} {self frame : WebSocketFrame} {data : List UInt8} {n : ℕ}
    (h : decode order self data = .ok (frame,n)) : n ≤ data.length := by
  rw [decode] at h
  split_ifs at h
  cases hopcode : WebSocketFrameType.enumFromInt (data.getD 0 0 &&& 0x0f) with
  | none =>
    rw [hopcode] at h
    cases h
  | some opcode =>
    rw [hopcode] at h
    obtain ⟨⟨payloadLength,offset⟩,-,h⟩ := except_bind_ok h
    obtain ⟨⟨maskingKey,offset⟩,-,h⟩ := except_bind_ok h
    simp only at h
    split_ifs at h
    all_goals
      cases h
      omega

theorem two_le_of_decode {order : Endian} {self frame : WebSocketFrame} {data : List UInt8} {n : ℕ}
    (h : decode order self data = .ok (frame,n)) : 2 ≤ n := by
  obtain ⟨offset,hlength,rfl⟩ := decode_ok_length h
  have hoffset := two_le_of_decodeLength hlength
  omega

/-- `decode` is a prefix code. A frame and its count stay whatever follows, and while a
buffer is too short, so was every prefix of it. -/
theorem decode_prefix (order : Endian) (self : WebSocketFrame) :
    (∀ d e frame n, decode order self d = .ok (frame,n) →
      2 ≤ n ∧ n ≤ d.length ∧ decode order self (d++e) = .ok (frame,n)) ∧
    ∀ d, decode order self d = .error (.error .insufficientData) →
      ∀ p, p <+: d → decode order self p = .error (.error .insufficientData) := by
  constructor
  · intro d e frame n h
    refine ⟨two_le_of_decode h,le_length_of_decode h,?_⟩
    rw [decode_append e (by rw [h]; simp),h]
  · rintro d h p ⟨rest,rfl⟩
    by_contra hp
    rw [decode_append rest hp] at h
    exact hp h

/-- The unmasked text frame `Hi` with one byte after it, and all but its last byte. -/
theorem decode_prefix_hi :
    (2 ≤ 4 ∧ 4 ≤ [0x81,2,72,105].length ∧ decode .little (.init .text []) ([0x81,2,72,105]++[0x81]) =
      .ok (⟨true,.text,false,2,fun _ => 0,[72,105]⟩,4)) ∧
    decode .little (.init .text []) [0x81,2] = .error (.error .insufficientData) :=
  ⟨( decode_prefix .little (.init .text [])).1 [0x81,2,72,105] [0x81] ⟨true,.text,false,2,fun _ => 0,[72,105]⟩ 4 rfl,
    ( decode_prefix .little (.init .text [])).2 [0x81,2,72] rfl [0x81,2] ⟨[72],rfl⟩⟩

/-- `data[i]` -/
def byteAt (data : List UInt8) (i : ℕ) : Except Failure UInt8 :=
  match data[i]? with
  | some byte => .ok byte
  | none => .error .trap

/-- `data[start..stop]` -/
def checkedSlice (data : List UInt8) (start stop : ℕ) : Except Failure (List UInt8) :=
  if start ≤ stop ∧ stop ≤ data.length then .ok (slice data start stop) else .error .trap

/-- An addition of 64 bits. -/
def checkedAdd (m n : ℕ) : Except Failure ℕ := if m+n < 2^64 then .ok (m+n) else .error .trap

def checkedOpcode (n : UInt8) : Except Failure WebSocketFrameType :=
  match WebSocketFrameType.enumFromInt n with
  | some opcode => .ok opcode
  | none => .error .trap

def checkedLength (order : Endian) (data : List UInt8) (field : UInt8) : Except Failure (ℕ×ℕ) :=
  if field < 126 then .ok (field.toNat,2)
  else if field = 126 then
    if data.length < 4 then .error insufficient
    else do
      let bytes ← checkedSlice data 2 4
      .ok (ofBytes order bytes,4)
  else if data.length < 10 then .error insufficient
  else do
    let bytes ← checkedSlice data 2 10
    .ok (ofBytes order bytes,10)

def checkedKey (self : WebSocketFrame) (data : List UInt8) (masked : Bool) (offset : ℕ) :
    Except Failure (MaskingKey×ℕ) :=
  if masked then do
    let stop ← checkedAdd offset 4
    if data.length < stop then .error insufficient
    else
      let bytes ← checkedSlice data offset stop
      .ok (fun i => bytes.getD i 0,stop)
  else .ok (self.maskingKey,offset)

/-- `decode` with every conversion, index, slice and addition checked. -/
def decodeChecked (order : Endian) (self : WebSocketFrame) (data : List UInt8) :
    Except Failure (WebSocketFrame×ℕ) :=
  if data.length < 2 then .error insufficient
  else do
    let firstByte ← byteAt data 0
    let opcode ← checkedOpcode (firstByte &&& 0x0f)
    let secondByte ← byteAt data 1
    let masked := decide (secondByte &&& 0x80 ≠ 0)
    let (payloadLength,offset) ← checkedLength order data (secondByte &&& 0x7f)
    let (maskingKey,offset) ← checkedKey self data masked offset
    let stop ← checkedAdd offset payloadLength
    if data.length < stop then .error insufficient
    else
      let payloadEnd ← checkedAdd offset payloadLength
      let payload ← checkedSlice data offset payloadEnd
      .ok (⟨decide (firstByte &&& 0x80 ≠ 0),opcode,masked,payloadLength,maskingKey,
        if masked then applyMask maskingKey payload else payload⟩,payloadEnd)

section Checked

variable {order : Endian} {self : WebSocketFrame} {data : List UInt8}

theorem byteAt_of_lt {i : ℕ} (hi : i < data.length) : byteAt data i = .ok (data.getD i 0) := by
  simp [byteAt,hi]

theorem checkedSlice_of_le {start stop : ℕ} (hstart : start ≤ stop) (hstop : stop ≤ data.length) :
    checkedSlice data start stop = .ok (slice data start stop) := by
  rw [checkedSlice,if_pos ⟨hstart,hstop⟩]

theorem checkedLength_eq (order : Endian) (data : List UInt8) (field : UInt8) :
    checkedLength order data field = decodeLength order data field := by
  rw [checkedLength,decodeLength]
  split_ifs with hsmall hmid hshort hshort
  · rfl
  · rfl
  · rw [checkedSlice_of_le (by omega) (by omega)]
    rfl
  · rfl
  · rw [checkedSlice_of_le (by omega) (by omega)]
    rfl

theorem decodeLength_offset {field : UInt8} {n offset : ℕ} (h : decodeLength order data field = .ok (n,offset)) :
    offset ≤ 10 := by
  rw [decodeLength] at h
  split_ifs at h
  all_goals
    cases h
    omega

theorem checkedKey_eq {masked : Bool} {offset : ℕ} (hoffset : offset ≤ 10) :
    checkedKey self data masked offset = decodeKey self data masked offset := by
  cases masked with
  | false => rfl
  | true =>
    have hadd : checkedAdd offset 4 = .ok (offset+4) := if_pos (by omega)
    simp only [checkedKey,decodeKey,if_true,hadd,Bind.bind,Except.bind]
    split_ifs with hshort
    · rfl
    · rw [checkedSlice_of_le (by omega) (by omega)]

/-- Only the opcode and the addition of the payload length can trap; no index and no slice
is ever out of bounds. -/
theorem decodeChecked_eq (order : Endian) (self : WebSocketFrame) (data : List UInt8) :
    decodeChecked order self data = decode order self data := by
  rw [decodeChecked,decode]
  by_cases hlen : data.length < 2
  · rw [if_pos hlen,if_pos hlen]
  · rw [if_neg hlen,if_neg hlen,byteAt_of_lt (by omega),byteAt_of_lt (by omega)]
    simp only [Bind.bind,Except.bind,checkedOpcode]
    cases WebSocketFrameType.enumFromInt (data.getD 0 0 &&& 0x0f) with
    | none => rfl
    | some opcode =>
      simp only [checkedLength_eq]
      cases hlength : decodeLength order data (data.getD 1 0 &&& 0x7f) with
      | error e => rfl
      | ok r =>
        simp only [checkedKey_eq (decodeLength_offset (n:=r.1) hlength)]
        cases decodeKey self data (decide (data.getD 1 0 &&& 0x80 ≠ 0)) r.2 with
        | error e => rfl
        | ok r' =>
          by_cases htrap : 2^64 ≤ r'.2+r.1
          · simp only [checkedAdd,if_neg (Nat.not_lt.mpr htrap),if_pos htrap]
          · simp only [checkedAdd,if_pos (Nat.not_le.mp htrap),if_neg htrap]
            split_ifs with hshort
            · rfl
            · rw [checkedSlice_of_le (by omega) (by omega)]
            · rw [checkedSlice_of_le (by omega) (by omega)]

theorem enumFromInt_isSome {n : UInt8} :
    (WebSocketFrameType.enumFromInt n).isSome ↔ n.toNat ≤ 2 ∨ 8 ≤ n.toNat ∧ n.toNat ≤ 10 := by
  have hall : ∀ i : Fin 256, (WebSocketFrameType.enumFromInt (UInt8.ofNat i.val)).isSome ↔
      i.val ≤ 2 ∨ 8 ≤ i.val ∧ i.val ≤ 10 := by decide +kernel
  have hn := hall ⟨n.toNat,n.toNat_lt⟩
  rwa [UInt8.ofNat_toNat] at hn

theorem ofBytes_lt (order : Endian) (bytes : List UInt8) : ofBytes order bytes < 256^bytes.length := by
  have hlittle : ∀ bytes : List UInt8, ofLittleBytes bytes < 256^bytes.length := by
    intro bytes
    have hlt := Nat.ofDigits_lt_base_pow_length (b:=256) (l:=bytes.map UInt8.toNat) (by decide) (by
      intro n hn
      obtain ⟨byte,-,rfl⟩ := List.mem_map.mp hn
      exact byte.toNat_lt)
    rwa [List.length_map] at hlt
  cases order with
  | little => exact hlittle bytes
  | big => simpa [ofBytes] using hlittle bytes.reverse

end Checked

/-- The opcode bits of the first byte are those of a frame type. -/
def KnownOpcode (data : List UInt8) : Prop :=
  (data.getD 0 0).toNat%16 ≤ 2 ∨ 8 ≤ (data.getD 0 0).toNat%16 ∧ (data.getD 0 0).toNat%16 ≤ 10

/-- The length of the header of a frame with a length of eight bytes. -/
def longHeader (data : List UInt8) : ℕ := if 128 ≤ (data.getD 1 0).toNat then 14 else 10

/-- A length of eight bytes, once its header is complete, stays below 2^64 with the header. -/
def LengthFits (order : Endian) (data : List UInt8) : Prop :=
  (data.getD 1 0).toNat%128 = 127 → longHeader data ≤ data.length →
    longHeader data+ofBytes order (slice data 2 10) < 2^64

section Traps

variable {order : Endian} {self : WebSocketFrame} {data : List UInt8}

theorem slice_length_le (data : List UInt8) (start stop : ℕ) : (slice data start stop).length ≤ stop-start :=
  List.length_take_le ..

theorem decodeLength_ne_trap {field : UInt8} : decodeLength order data field ≠ .error .trap := by
  rw [decodeLength]
  split_ifs <;> simp

theorem decodeKey_ne_trap {masked : Bool} {offset : ℕ} : decodeKey self data masked offset ≠ .error .trap := by
  rw [decodeKey]
  split_ifs <;> simp

/-- Once the opcode is known only the addition traps. -/
theorem decode_trap_iff_add {opcode : WebSocketFrameType} (hlen : ¬data.length < 2)
    (hopcode : WebSocketFrameType.enumFromInt (data.getD 0 0 &&& 0x0f) = some opcode) :
    decode order self data = .error .trap ↔
      ∃ n offset key stop, decodeLength order data (data.getD 1 0 &&& 0x7f) = .ok (n,offset) ∧
        decodeKey self data (decide (data.getD 1 0 &&& 0x80 ≠ 0)) offset = .ok (key,stop) ∧ 2^64 ≤ stop+n := by
  rw [decode,if_neg hlen,hopcode]
  simp only [Bind.bind,Except.bind]
  cases hlength : decodeLength order data (data.getD 1 0 &&& 0x7f) with
  | error e =>
    have hne : e ≠ .trap := fun he => decodeLength_ne_trap (he ▸ hlength)
    simp [hne]
  | ok r =>
    obtain ⟨n,offset⟩ := r
    simp only
    cases hkey : decodeKey self data (decide (data.getD 1 0 &&& 0x80 ≠ 0)) offset with
    | error e =>
      have hne : e ≠ .trap := fun he => decodeKey_ne_trap (he ▸ hkey)
      simp only [Except.error.injEq,hne,false_iff]
      rintro ⟨n',offset',key,stop,heq,hkey',-⟩
      cases heq
      rw [hkey] at hkey'
      cases hkey'
    | ok r' =>
      obtain ⟨key,stop⟩ := r'
      simp only
      constructor
      · intro h
        split_ifs at h with htrap hshort
        · exact ⟨n,offset,key,stop,rfl,hkey,htrap⟩
        · cases h
      · rintro ⟨n',offset',key',stop',heq,hkey',htrap⟩
        cases heq
        cases hkey.symm.trans hkey'
        rw [if_pos htrap]

/-- A length of at most two bytes is small. -/
theorem decodeLength_small {field : UInt8} (hfield : field.toNat < 127) {n offset : ℕ}
    (h : decodeLength order data field = .ok (n,offset)) : n < 65536 := by
  rw [decodeLength] at h
  have hlt : field < 126 ∨ field = 126 := by
    have hcode : (126 : UInt8).toNat = 126 := rfl
    rw [UInt8.lt_iff_toNat_lt,← UInt8.toNat_inj]
    omega
  split_ifs at h with hsmall hmid
  · cases h
    omega
  · cases h
    have hbytes := ofBytes_lt order (slice data 2 4)
    have hpow := Nat.pow_le_pow_right (n:=256) (by decide) (slice_length_le data 2 4)
    omega
  · exact absurd hlt (by tauto)

/-- A length of eight bytes is read once there are ten. -/
theorem decodeLength_long {field : UInt8} (hfield : field.toNat = 127) {n offset : ℕ} :
    decodeLength order data field = .ok (n,offset) ↔
      10 ≤ data.length ∧ n = ofBytes order (slice data 2 10) ∧ offset = 10 := by
  obtain rfl : field = 127 := UInt8.toNat_inj.mp hfield
  rw [decodeLength,if_neg (by decide),if_neg (by decide)]
  split_ifs with hshort
  · simp
    omega
  · simp only [Except.ok.injEq,Prod.mk.injEq]
    constructor
    · rintro ⟨rfl,rfl⟩
      exact ⟨by omega,rfl,rfl⟩
    · rintro ⟨-,rfl,rfl⟩
      exact ⟨rfl,rfl⟩

theorem decodeKey_stop {masked : Bool} {key : MaskingKey} {offset stop : ℕ}
    (h : decodeKey self data masked offset = .ok (key,stop)) :
    stop = offset+(if masked then 4 else 0) ∧ (masked = true → offset+4 ≤ data.length) := by
  rw [decodeKey] at h
  split_ifs at h with hmasked hshort
  · cases h
    exact ⟨by rw [if_pos hmasked],fun _ => by omega⟩
  · cases h
    exact ⟨by rw [if_neg hmasked]; rfl,fun hm => absurd hm hmasked⟩

theorem exists_decodeKey (self : WebSocketFrame) {masked : Bool} {offset : ℕ}
    (h : masked = true → offset+4 ≤ data.length) :
    ∃ key, decodeKey self data masked offset = .ok (key,offset+(if masked then 4 else 0)) := by
  cases masked with
  | false => exact ⟨_,rfl⟩
  | true =>
    have hshort : ¬data.length < offset+4 := Nat.not_lt.mpr (h rfl)
    exact ⟨_,by rw [decodeKey,if_pos rfl,if_neg hshort]; rfl⟩

theorem longHeader_eq (data : List UInt8) :
    longHeader data = 10+(if decide (data.getD 1 0 &&& 0x80 ≠ 0) then 4 else 0) := by
  simp only [longHeader,decide_eq_true_eq,and_top_ne_zero]
  split_ifs <;> rfl

theorem decode_trap_iff_length {opcode : WebSocketFrameType} (hlen : ¬data.length < 2)
    (hopcode : WebSocketFrameType.enumFromInt (data.getD 0 0 &&& 0x0f) = some opcode) :
    decode order self data = .error .trap ↔ ¬LengthFits order data := by
  have hfield := and_low_toNat (data.getD 1 0)
  rw [decode_trap_iff_add hlen hopcode,LengthFits,longHeader_eq]
  constructor
  · rintro ⟨n,offset,key,stop,hlength,hkey,htrap⟩ hfits
    obtain ⟨hstop,hcomplete⟩ := decodeKey_stop hkey
    by_cases hlong : (data.getD 1 0).toNat%128 = 127
    · obtain ⟨hten,rfl,rfl⟩ := (decodeLength_long (hfield.trans hlong)).mp hlength
      have hlt := hfits hlong (by split_ifs at hstop ⊢ with hm <;> [exact hcomplete hm; exact hten])
      omega
    · have hsmall := decodeLength_small (by omega) hlength
      have hoffset := decodeLength_offset hlength
      split_ifs at hstop <;> omega
  · intro hfits
    simp only [Classical.not_imp,Nat.not_lt] at hfits
    obtain ⟨hlong,hheader,htrap⟩ := hfits
    have hten : 10 ≤ data.length := by omega
    have hcomplete : decide (data.getD 1 0 &&& 0x80 ≠ 0) = true → 10+4 ≤ data.length := by
      intro hm
      rwa [if_pos hm] at hheader
    obtain ⟨key,hkey⟩ := exists_decodeKey self hcomplete
    exact ⟨_,10,key,_,(decodeLength_long (hfield.trans hlong)).mpr ⟨hten,rfl,rfl⟩,hkey,htrap⟩

end Traps

/-- Decoding ends with a frame or an error exactly for the buffers whose first byte has a
known opcode and whose length of eight bytes, if there is one, fits. -/
theorem decodeChecked_safe_iff (order : Endian) (self : WebSocketFrame) (data : List UInt8) :
    decodeChecked order self data ≠ .error .trap ↔ (2 ≤ data.length → KnownOpcode data ∧ LengthFits order data) := by
  rw [decodeChecked_eq]
  by_cases hlen : data.length < 2
  · rw [decode,if_pos hlen]
    simp
    omega
  · have hknown : KnownOpcode data ↔ (WebSocketFrameType.enumFromInt (data.getD 0 0 &&& 0x0f)).isSome := by
      rw [enumFromInt_isSome,and_opcode_toNat,KnownOpcode]
    rw [hknown]
    cases hopcode : WebSocketFrameType.enumFromInt (data.getD 0 0 &&& 0x0f) with
    | none =>
      rw [decode,if_neg hlen,hopcode]
      simp
      omega
    | some opcode =>
      rw [ne_eq,decode_trap_iff_length hlen hopcode]
      simp
      omega

/-- A buffer with the opcode 3, and one with the length 2^64-1. -/
theorem decodeChecked_traps :
    decodeChecked .little (.init .text []) [0x83,0] = .error .trap ∧
    decodeChecked .little (.init .text []) [0x82,0x7f,0xff,0xff,0xff,0xff,0xff,0xff,0xff,0xff] = .error .trap ∧
    ¬∀ order self data, decodeChecked order self data ≠ .error .trap := by
  have hopcode : decodeChecked .little (.init .text []) [0x83,0] = .error .trap := rfl
  exact ⟨hopcode,rfl,fun h => h _ _ _ hopcode⟩

end ZNet.WebSocketDecode
