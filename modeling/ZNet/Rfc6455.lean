import ZNet.WebSocketFrames

/-!
# Frames of RFC 6455

A reference decoder for the base framing: the reserved bits are zero, the extended
length is in network byte order and as short as possible, and the payload is unmasked
if the frame has a key. `decode` of `WebSocketFrame` is compared with it.
-/

namespace ZNet.Rfc6455
open ByteOrder WebSocketFrames

structure Frame where
  fin : Bool
  opcode : WebSocketFrameType
  key : Option MaskingKey
  payload : List UInt8

def opcodeOf : ℕ → Option WebSocketFrameType
  | 0 => some .continuation
  | 1 => some .text
  | 2 => some .binary
  | 8 => some .close
  | 9 => some .ping
  | 10 => some .pong
  | _ => none

/-- The number of bytes of the extended length. -/
def width (field : ℕ) : ℕ := if field < 126 then 0 else if field = 126 then 2 else 8

/-- The payload length. -/
def lengthOf (field : ℕ) (extended : List UInt8) : ℕ := if field < 126 then field else ofBytes .big extended

/-- The length has 63 bits and is written in the shortest form. -/
def Minimal (field length : ℕ) : Prop :=
  length < 2^63 ∧ (field = 126 → 126 ≤ length) ∧ (field = 127 → 65536 ≤ length)

instance (field length : ℕ) : Decidable (Minimal field length) := inferInstanceAs (Decidable (_ ∧ _ ∧ _))

/-- The frame of which the parts are given. -/
def frameOf (first : UInt8) (opcode : WebSocketFrameType) (masked : Bool) (key : List UInt8) (body : List UInt8) :
    Frame :=
  if masked then ⟨decide (128 ≤ first.toNat),opcode,some (fun i => key.getD i 0),applyMask (fun i => key.getD i 0) body⟩
  else ⟨decide (128 ≤ first.toNat),opcode,none,body⟩

def keyLength (second : UInt8) : ℕ := if 128 ≤ second.toNat then 4 else 0

/-- The parts of the frame that two header bytes announce. -/
def layoutOf (first second : UInt8) (rest : List UInt8) : Layout where
  first := first
  second := second
  extended := rest.take (width (second.toNat%128))
  key := (rest.drop (width (second.toNat%128))).take (keyLength second)
  body := (rest.drop (width (second.toNat%128)+keyLength second)).take
    (lengthOf (second.toNat%128) (rest.take (width (second.toNat%128))))

/-- The frame at the start of the bytes, and its length. -/
def decode : List UInt8 → Option (Frame×ℕ)
  | first::second::rest =>
    let length := lengthOf (second.toNat%128) (rest.take (width (second.toNat%128)))
    match opcodeOf (first.toNat%16) with
    | none => none
    | some opcode =>
      if first.toNat/16%8 = 0 ∧ Minimal (second.toNat%128) length ∧
          width (second.toNat%128)+keyLength second+length ≤ rest.length then
        some (frameOf first opcode (decide (128 ≤ second.toNat)) (layoutOf first second rest).key
          (layoutOf first second rest).body,2+width (second.toNat%128)+keyLength second+length)
      else none
  | _ => none

/-- The decoded frame is the reference frame. -/
structure Represents (decoded : WebSocketFrame) (frame : Frame) : Prop where
  fin : decoded.fin = frame.fin
  opcode : decoded.opcode = frame.opcode
  masked : decoded.masked = frame.key.isSome
  key : ∀ k ∈ frame.key, decoded.maskingKey = k
  payloadLength : decoded.payloadLength = frame.payload.length
  payload : decoded.payload = frame.payload

theorem opcodeOf_eq (b : UInt8) : opcodeOf (b.toNat%16) = WebSocketFrameType.enumFromInt (b &&& 0x0f) := by
  have hall : ∀ i : Fin 16, opcodeOf i.val = WebSocketFrameType.enumFromInt (UInt8.ofNat i.val) := by decide
  have hbyte : b &&& 0x0f = UInt8.ofNat (b.toNat%16) := by
    rw [← and_opcode_toNat,UInt8.ofNat_toNat]
  rw [hbyte]
  exact hall ⟨b.toNat%16,Nat.mod_lt _ (by decide)⟩

theorem field_lt_iff (b : UInt8) : b &&& 0x7f < 126 ↔ b.toNat%128 < 126 := by
  rw [UInt8.lt_iff_toNat_lt,and_low_toNat]
  rfl

theorem field_eq_iff (b : UInt8) : b &&& 0x7f = 126 ↔ b.toNat%128 = 126 := by
  rw [← UInt8.toNat_inj,and_low_toNat]
  rfl

theorem masked_eq (b : UInt8) : decide (b &&& 0x80 ≠ 0) = decide (128 ≤ b.toNat) := by
  rw [decide_eq_decide,and_top_ne_zero]

section Parts

variable {first second : UInt8} {rest : List UInt8}

theorem width_eq (second : UInt8) :
    width (second.toNat%128) = if second &&& 0x7f < 126 then 0 else if second &&& 0x7f = 126 then 2 else 8 := by
  simp only [width,field_lt_iff,field_eq_iff]

theorem layoutOf_length (first second : UInt8) (rest : List UInt8) :
    (layoutOf first second rest).length .big =
      lengthOf (second.toNat%128) (rest.take (width (second.toNat%128))) := by
  simp only [Layout.length,Layout.field,layoutOf,lengthOf,field_lt_iff,and_low_toNat]

theorem layoutOf_append (first second : UInt8) (rest : List UInt8) :
    first::second::rest = (layoutOf first second rest).bytes++
      rest.drop (width (second.toNat%128)+keyLength second+(layoutOf first second rest).length .big) := by
  simp only [Layout.bytes,layoutOf_length]
  simp only [layoutOf,List.cons_append,List.append_assoc,← List.drop_drop,List.take_append_drop]

variable (hle : width (second.toNat%128)+keyLength second+(layoutOf first second rest).length .big ≤ rest.length)
include hle

theorem length_layoutOf_bytes : (layoutOf first second rest).bytes.length =
    2+width (second.toNat%128)+keyLength second+(layoutOf first second rest).length .big := by
  rw [layoutOf_length] at hle ⊢
  simp only [Layout.length_bytes,layoutOf,List.length_take,List.length_drop]
  omega

theorem layoutOf_fits (hsmall : (layoutOf first second rest).length .big < 2^63) :
    (layoutOf first second rest).Fits .big where
  extended := by
    have hfield : (layoutOf first second rest).field = second &&& 0x7f := rfl
    have hextended : (layoutOf first second rest).extended = rest.take (width (second.toNat%128)) := rfl
    rw [hfield,← width_eq,hextended,List.length_take]
    omega
  key := by
    have hmasked : (layoutOf first second rest).masked = decide (128 ≤ second.toNat) := masked_eq second
    rw [hmasked]
    simp only [layoutOf,List.length_take,List.length_drop,keyLength] at hle ⊢
    split_ifs at hle ⊢ <;> simp_all <;> omega
  body := by
    rw [layoutOf_length] at hle ⊢
    simp only [layoutOf,List.length_take,List.length_drop]
    omega
  small := by
    have hwidth : width (second.toNat%128) ≤ 8 := by
      rw [width]
      split_ifs <;> omega
    have hkey : keyLength second ≤ 4 := by
      rw [keyLength]
      split_ifs <;> omega
    rw [length_layoutOf_bytes hle]
    omega

end Parts

/-- The reference decoder finds the parts of a frame that fit in network byte order. -/
theorem decode_layout {data : List UInt8} {frame : Frame} {n : ℕ} (h : decode data = some (frame,n)) :
    ∃ (l : Layout) (rest : List UInt8), data = l.bytes++rest ∧ l.Fits .big ∧
      WebSocketFrameType.enumFromInt (l.first &&& 0x0f) = some frame.opcode ∧ n = l.bytes.length ∧
      frame = frameOf l.first frame.opcode l.masked l.key l.body := by
  match data,h with
  | first::second::rest,h =>
    simp only [decode,opcodeOf_eq] at h
    cases hop : WebSocketFrameType.enumFromInt (first &&& 0x0f) with
    | none =>
      rw [hop] at h
      cases h
    | some opcode =>
      rw [hop] at h
      simp only at h
      split_ifs at h with hcond
      obtain ⟨-,hmin,hle⟩ := hcond
      rw [← layoutOf_length first second rest] at hmin hle h
      have hmasked : (layoutOf first second rest).masked = decide (128 ≤ second.toNat) := masked_eq second
      have hopcode : (frameOf first opcode (layoutOf first second rest).masked (layoutOf first second rest).key
          (layoutOf first second rest).body).opcode = opcode := by
        rw [frameOf]
        split_ifs <;> rfl
      rw [← hmasked,← length_layoutOf_bytes hle] at h
      cases h
      refine ⟨layoutOf first second rest,_,layoutOf_append first second rest,layoutOf_fits hle hmin.1,?_,rfl,?_⟩
      · rw [hopcode]
        exact hop
      · rw [hopcode]
        rfl

/-- `decode` on a little-endian host returns the reference frame and its length. -/
def Conforms (self : WebSocketFrame) (data : List UInt8) (frame : Frame) (n : ℕ) : Prop :=
  ∃ decoded, WebSocketFrames.decode .little self data = .ok (decoded,n) ∧ Represents decoded frame

theorem represents_frameOf (self : WebSocketFrame) (l : Layout) (opcode : WebSocketFrameType) :
    Represents (l.frame self opcode) (frameOf l.first opcode l.masked l.key l.body) := by
  have hfin : decide (l.first &&& 0x80 ≠ 0) = decide (128 ≤ l.first.toNat) := masked_eq l.first
  rw [Layout.frame,frameOf]
  split_ifs with hmasked
  · exact ⟨hfin,rfl,hmasked,by simp,by simp,rfl⟩
  · exact ⟨hfin,rfl,by simpa using hmasked,by simp,rfl,rfl⟩

theorem length_frameOf_payload (first : UInt8) (opcode : WebSocketFrameType) (masked : Bool) (key body : List UInt8) :
    (frameOf first opcode masked key body).payload.length = body.length := by
  rw [frameOf]
  split_ifs
  · simp
  · rfl

/-- A well-formed frame, followed by anything, is decoded as the reference decoder does
exactly if its extended length reads the same in both byte orders. -/
theorem decode_conforms_iff (self : WebSocketFrame) (data : List UInt8) (frame : Frame) (n : ℕ)
    (hdata : decode data = some (frame,n)) :
    Conforms self data frame n ↔ extendedLength data = (extendedLength data).reverse := by
  obtain ⟨l,rest,rfl,hfits,hop,rfl,hframe⟩ := decode_layout hdata
  rw [extendedLength_layout hfits.extended]
  constructor
  · rintro ⟨decoded,hok,hrep⟩
    obtain ⟨offset,hlength,-⟩ := decode_ok_length hok
    have hlittle := decodeLength_layout .little hfits.extended rest
    have hpayload : decoded.payloadLength = l.length .big := by
      rw [hrep.payloadLength,hframe,length_frameOf_payload,hfits.body]
    have heq : l.length .little = l.length .big := by
      rw [← hpayload]
      have hsame := hlittle.symm.trans hlength
      exact congrArg Prod.fst (Except.ok.inj hsame)
    rw [Layout.length,Layout.length] at heq
    have hext := hfits.extended
    split_ifs at heq hext
    · rw [List.length_eq_zero_iff.mp hext]
      rfl
    · exact (ofBytes_little_eq_big _).mp heq
    · exact (ofBytes_little_eq_big _).mp heq
  · intro hpal
    have heq : l.length .little = l.length .big := by
      rw [Layout.length,Layout.length,(ofBytes_little_eq_big _).mpr hpal]
    have hlittle : l.Fits .little := ⟨hfits.extended,hfits.key,hfits.body.trans heq.symm,hfits.small⟩
    refine ⟨_,WebSocketFrames.decode_layout hlittle self hop rest,?_⟩
    have hrep := represents_frameOf self l frame.opcode
    rw [← hframe] at hrep
    exact hrep

/-- A frame with one letter has no extended length. -/
theorem decode_conforms_iff_short : Conforms (.init .text []) [0x81,1,97] ⟨true,.text,none,[97]⟩ 3 :=
  (decode_conforms_iff (.init .text []) [0x81,1,97] ⟨true,.text,none,[97]⟩ 3 rfl).mpr rfl

/-- A text frame of 126 bytes: the length is read as `126*256`. -/
theorem decode_conforms_fails :
    decode (0x81::126::0::126::List.replicate 126 0) = some (⟨true,.text,none,List.replicate 126 0⟩,130) ∧
    ¬Conforms (.init .text []) (0x81::126::0::126::List.replicate 126 0) ⟨true,.text,none,List.replicate 126 0⟩ 130 := by
  have hlen : ofBytes .big [0,126] = 126 := rfl
  have hminimal : Minimal 126 126 := by decide
  refine ⟨?_,?_⟩
  · simp [decode,opcodeOf,width,lengthOf,keyLength,layoutOf,frameOf,hlen,hminimal]
  · rintro ⟨decoded,hok,hrep⟩
    obtain ⟨offset,hlength,-⟩ := decode_ok_length hok
    have hlittle : decodeLength .little (0x81::126::0::126::List.replicate 126 0) 126 = .ok (126*256,4) := by
      rw [decodeLength,if_neg (by decide),if_pos rfl,if_neg (by simp)]
      rfl
    have hsame := congrArg Prod.fst (Except.ok.inj (hlittle.symm.trans hlength))
    rw [hrep.payloadLength,List.length_replicate] at hsame
    cases hsame

end ZNet.Rfc6455
