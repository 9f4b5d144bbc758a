import ZNet.FreedMemory
import ZNet.ByteOrder
import Mathlib.Data.List.Basic
import Mathlib.Tactic.Common

/-!
# WebSocket frames

`encode` and `decode` of `WebSocketFrame`, with the length fields in the byte order of
the host, and a reference decoder for frames as RFC 6455 defines them.
-/

namespace ZNet.WebSocketFrames
open ByteOrder

inductive WebSocketFrameType
  | continuation | text | binary | close | ping | pong
deriving DecidableEq

def WebSocketFrameType.intFromEnum : WebSocketFrameType → UInt8
  | .continuation => 0x0
  | .text => 0x1
  | .binary => 0x2
  | .close => 0x8
  | .ping => 0x9
  | .pong => 0xa

/-- `@enumFromInt`; a value that is no member is an illegal conversion. -/
def WebSocketFrameType.enumFromInt (n : UInt8) : Option WebSocketFrameType :=
  if n = 0x0 then some .continuation
  else if n = 0x1 then some .text
  else if n = 0x2 then some .binary
  else if n = 0x8 then some .close
  else if n = 0x9 then some .ping
  else if n = 0xa then some .pong
  else none

inductive WebSocketError
  | invalidOpcode | insufficientData | messageTooLarge | connectionNotOpen | unexpectedContinuation
  | invalidFrame | protocolError | extensionError
deriving DecidableEq

/-- How a call can fail: with an error, or by illegal behaviour such as an overflow. -/
inductive Failure
  | error (e : WebSocketError)
  | trap
deriving DecidableEq

abbrev MaskingKey := Fin 4 → UInt8

structure WebSocketFrame where
  fin : Bool
  opcode : WebSocketFrameType
  masked : Bool
  payloadLength : ℕ
  maskingKey : MaskingKey
  payload : List UInt8

def WebSocketFrame.init (opcode : WebSocketFrameType) (payload : List UInt8) : WebSocketFrame :=
  ⟨true,opcode,false,payload.length,fun _ => 0,payload⟩

/-- Every byte is combined with one byte of the key, in turn. -/
def applyMask (key : MaskingKey) (bytes : List UInt8) : List UInt8 :=
  bytes.mapIdx fun i byte => byte ^^^ key (Fin.ofNat 4 i)

def firstByte (fin : Bool) (opcode : WebSocketFrameType) : UInt8 := (if fin then 0x80 else 0) ||| opcode.intFromEnum

def maskBit (masked : Bool) : UInt8 := if masked then 0x80 else 0

/-- The second byte and the extended length. For a short payload `encode` computes the
second byte and does not append it. -/
def encodeLength (order : Endian) (masked : Bool) (payloadLength : ℕ) : List UInt8 :=
  if payloadLength < 126 then []
  else if payloadLength < 65536 then (maskBit masked ||| 126)::toBytes order 2 payloadLength
  else (maskBit masked ||| 127)::toBytes order 8 payloadLength

/-- The masked payload is appended after its buffer was freed. -/
def encode (order : Endian) (freed : FreedMemory UInt8) (self : WebSocketFrame) : List UInt8 :=
  firstByte self.fin self.opcode::(encodeLength order self.masked self.payloadLength++
    ((if self.masked then List.ofFn self.maskingKey else [])++
      (if self.masked then freed.read (applyMask self.maskingKey self.payload) else self.payload)))

/-- The bytes `data[start..stop]`. -/
def slice (data : List UInt8) (start stop : ℕ) : List UInt8 := (data.drop start).take (stop-start)

/-- The payload length and the offset after it, for the low bits of the second byte. -/
def decodeLength (order : Endian) (data : List UInt8) (field : UInt8) : Except Failure (ℕ×ℕ) :=
  if field < 126 then .ok (field.toNat,2)
  else if field = 126 then
    if data.length < 4 then .error (.error .insufficientData) else .ok (ofBytes order (slice data 2 4),4)
  else if data.length < 10 then .error (.error .insufficientData) else .ok (ofBytes order (slice data 2 10),10)

/-- The masking key and the offset after it. A frame that is not masked keeps its key. -/
def decodeKey (self : WebSocketFrame) (data : List UInt8) (masked : Bool) (offset : ℕ) :
    Except Failure (MaskingKey×ℕ) :=
  if masked then
    if data.length < offset+4 then .error (.error .insufficientData)
    else .ok (fun i => (slice data offset (offset+4)).getD i 0,offset+4)
  else .ok (self.maskingKey,offset)

def decode (order : Endian) (self : WebSocketFrame) (data : List UInt8) : Except Failure (WebSocketFrame×ℕ) :=
  if data.length < 2 then .error (.error .insufficientData)
  else match WebSocketFrameType.enumFromInt (data.getD 0 0 &&& 0x0f) with
    | none => .error .trap
    | some opcode => do
      let masked := decide (data.getD 1 0 &&& 0x80 ≠ 0)
      let (payloadLength,offset) ← decodeLength order data (data.getD 1 0 &&& 0x7f)
      let (maskingKey,offset) ← decodeKey self data masked offset
      if 2^64 ≤ offset+payloadLength then .error .trap
      else if data.length < offset+payloadLength then .error (.error .insufficientData)
      else
        let payload := slice data offset (offset+payloadLength)
        .ok (⟨decide (data.getD 0 0 &&& 0x80 ≠ 0),opcode,masked,payloadLength,maskingKey,
          if masked then applyMask maskingKey payload else payload⟩,offset+payloadLength)

section Bytes

theorem and_top_ne_zero {b : UInt8} : b &&& 0x80 ≠ 0 ↔ 128 ≤ b.toNat := by
  have hall : ∀ i : Fin 256, i.val &&& 128 = i.val/128*128 := by decide +kernel
  have htop : (b &&& 0x80).toNat = b.toNat/128*128 := by
    rw [UInt8.toNat_and]
    exact hall ⟨b.toNat,b.toNat_lt⟩
  have hzero : (0 : UInt8).toNat = 0 := rfl
  rw [ne_eq,← UInt8.toNat_inj,htop]
  omega

theorem and_low_toNat (b : UInt8) : (b &&& 0x7f).toNat = b.toNat%128 := by
  rw [UInt8.toNat_and]
  exact Nat.and_two_pow_sub_one_eq_mod _ 7

theorem and_opcode_toNat (b : UInt8) : (b &&& 0x0f).toNat = b.toNat%16 := by
  rw [UInt8.toNat_and]
  exact Nat.and_two_pow_sub_one_eq_mod _ 4

@[simp] theorem enumFromInt_firstByte (fin : Bool) (opcode : WebSocketFrameType) :
    WebSocketFrameType.enumFromInt (firstByte fin opcode &&& 0x0f) = some opcode := by
  cases fin <;> cases opcode <;> decide

@[simp] theorem firstByte_fin (fin : Bool) (opcode : WebSocketFrameType) :
    decide (firstByte fin opcode &&& 0x80 ≠ 0) = fin := by
  cases fin <;> cases opcode <;> decide

theorem maskBit_masked (masked : Bool) {code : UInt8} (hcode : code = 126 ∨ code = 127) :
    decide ((maskBit masked ||| code) &&& 0x80 ≠ 0) = masked := by
  rcases hcode with rfl | rfl <;> cases masked <;> decide

theorem maskBit_field (masked : Bool) {code : UInt8} (hcode : code = 126 ∨ code = 127) :
    (maskBit masked ||| code) &&& 0x7f = code := by
  rcases hcode with rfl | rfl <;> cases masked <;> decide

@[simp] theorem length_applyMask (key : MaskingKey) (bytes : List UInt8) : (applyMask key bytes).length = bytes.length :=
  List.length_mapIdx

/-- Masking twice with the same key gives the bytes back. -/
@[simp] theorem applyMask_applyMask (key : MaskingKey) (bytes : List UInt8) :
    applyMask key (applyMask key bytes) = bytes := by
  apply List.ext_getElem
  · simp
  · intro i h₁ h₂
    simp only [applyMask,List.getElem_mapIdx,UInt8.xor_assoc,UInt8.xor_self,UInt8.xor_zero]

theorem applyMask_inj (key : MaskingKey) {xs ys : List UInt8} : applyMask key xs = applyMask key ys ↔ xs = ys := by
  constructor
  · intro h
    rw [← applyMask_applyMask key xs,h,applyMask_applyMask]
  · exact congrArg _

end Bytes

/-- The parts of a frame on the wire. -/
structure Layout where
  first : UInt8
  second : UInt8
  extended : List UInt8
  key : List UInt8
  body : List UInt8

namespace Layout

def bytes (l : Layout) : List UInt8 := l.first::l.second::(l.extended++(l.key++l.body))

def masked (l : Layout) : Bool := decide (l.second &&& 0x80 ≠ 0)

def field (l : Layout) : UInt8 := l.second &&& 0x7f

/-- The payload length in the header. -/
def length (order : Endian) (l : Layout) : ℕ := if l.field < 126 then l.field.toNat else ofBytes order l.extended

/-- The parts have the lengths that the header announces. -/
structure Fits (order : Endian) (l : Layout) : Prop where
  extended : l.extended.length = if l.field < 126 then 0 else if l.field = 126 then 2 else 8
  key : l.key.length = if l.masked then 4 else 0
  body : l.body.length = l.length order
  small : l.bytes.length < 2^64

def frame (self : WebSocketFrame) (l : Layout) (opcode : WebSocketFrameType) : WebSocketFrame :=
  ⟨decide (l.first &&& 0x80 ≠ 0),opcode,l.masked,l.body.length,
    if l.masked then fun i => l.key.getD i 0 else self.maskingKey,
    if l.masked then applyMask (fun i => l.key.getD i 0) l.body else l.body⟩

theorem length_bytes (l : Layout) : l.bytes.length = 2+l.extended.length+l.key.length+l.body.length := by
  simp [bytes]
  omega

end Layout

theorem slice_middle {xs ys zs : List UInt8} {start stop : ℕ} (hstart : start = xs.length)
    (hstop : stop = xs.length+ys.length) : slice (xs++(ys++zs)) start stop = ys := by
  simp [slice,hstart,hstop]

/-- The extended length of a frame, as its header announces it. -/
def extendedLength (data : List UInt8) : List UInt8 :=
  if data.getD 1 0 &&& 0x7f < 126 then []
  else if data.getD 1 0 &&& 0x7f = 126 then slice data 2 4
  else slice data 2 10

section Decode

variable {order : Endian} {l : Layout}

theorem slice_extended (l : Layout) (rest : List UInt8) {stop : ℕ} (hstop : stop = 2+l.extended.length) :
    slice (l.bytes++rest) 2 stop = l.extended := by
  have hassoc : l.bytes++rest = [l.first,l.second]++(l.extended++(l.key++(l.body++rest))) := by simp [Layout.bytes]
  rw [hassoc]
  exact slice_middle rfl hstop

theorem decodeLength_layout (order : Endian)
    (hext : l.extended.length = if l.field < 126 then 0 else if l.field = 126 then 2 else 8) (rest : List UInt8) :
    decodeLength order (l.bytes++rest) l.field = .ok (l.length order,2+l.extended.length) := by
  have hlen : (l.bytes++rest).length = 2+l.extended.length+l.key.length+l.body.length+rest.length := by
    rw [List.length_append,l.length_bytes]
  rw [decodeLength,Layout.length]
  split_ifs at hext ⊢ with hshort hmid
  · rw [hext]
  · omega
  · rw [slice_extended l rest (by omega),hext]
  · omega
  · rw [slice_extended l rest (by omega),hext]

theorem extendedLength_layout (hext : l.extended.length = if l.field < 126 then 0 else if l.field = 126 then 2 else 8)
    (rest : List UInt8) : extendedLength (l.bytes++rest) = l.extended := by
  have hfield : (l.bytes++rest).getD 1 0 &&& 0x7f = l.field := rfl
  rw [extendedLength,hfield]
  split_ifs at hext ⊢ with hshort hmid
  · exact (List.length_eq_zero_iff.mp hext).symm
  · exact slice_extended l rest (by omega)
  · exact slice_extended l rest (by omega)

variable (h : l.Fits order)
include h

theorem decodeKey_layout (self : WebSocketFrame) (rest : List UInt8) :
    decodeKey self (l.bytes++rest) l.masked (2+l.extended.length) =
      .ok (if l.masked then fun i => l.key.getD i 0 else self.maskingKey,2+l.extended.length+l.key.length) := by
  have hkey := h.key
  have hlen : (l.bytes++rest).length = 2+l.extended.length+l.key.length+l.body.length+rest.length := by
    rw [List.length_append,l.length_bytes]
  rw [decodeKey]
  split_ifs at hkey ⊢ with hmasked
  · omega
  · have hslice : slice (l.bytes++rest) (2+l.extended.length) (2+l.extended.length+4) = l.key := by
      have hassoc : l.bytes++rest = (l.first::l.second::l.extended)++(l.key++(l.body++rest)) := by simp [Layout.bytes]
      rw [hassoc]
      apply slice_middle <;> simp <;> omega
    rw [hslice,hkey]
  · rw [hkey,Nat.add_zero]

/-- A frame whose parts fit is decoded, whatever follows it. -/
theorem decode_layout (self : WebSocketFrame) {opcode : WebSocketFrameType}
    (hopcode : WebSocketFrameType.enumFromInt (l.first &&& 0x0f) = some opcode) (rest : List UInt8) :
    decode order self (l.bytes++rest) = .ok (l.frame self opcode,l.bytes.length) := by
  have hsmall := h.small
  have hbody := h.body
  have hlen : (l.bytes++rest).length = 2+l.extended.length+l.key.length+l.body.length+rest.length := by
    rw [List.length_append,l.length_bytes]
  have hslice : slice (l.bytes++rest) (2+l.extended.length+l.key.length)
      (2+l.extended.length+l.key.length+l.body.length) = l.body := by
    have hassoc : l.bytes++rest = (l.first::l.second::(l.extended++l.key))++(l.body++rest) := by simp [Layout.bytes]
    rw [hassoc]
    apply slice_middle <;> simp <;> omega
  have hfirst : (l.bytes++rest).getD 0 0 = l.first := rfl
  have hsecond : (l.bytes++rest).getD 1 0 = l.second := rfl
  rw [l.length_bytes] at hsmall
  have hlength := decodeLength_layout order h.extended rest
  have hkey := decodeKey_layout h self rest
  rw [Layout.field] at hlength
  rw [Layout.masked] at hkey
  rw [decode,if_neg (by omega),hfirst,hsecond,hopcode]
  simp only [hlength,hkey,Bind.bind,Except.bind,← hbody]
  rw [if_neg (by omega),if_neg (by omega),hslice,l.length_bytes,Layout.frame,Layout.masked]
  split_ifs <;> rfl

end Decode

theorem except_bind_ok {ε α β : Type} {x : Except ε α} {f : α → Except ε β} {b : β} (h : (x >>= f) = .ok b) :
    ∃ a, x = .ok a ∧ f a = .ok b := by
  cases x with
  | error e => cases h
  | ok a => exact ⟨a,rfl,h⟩

theorem two_le_of_decodeLength {order : Endian} {data : List UInt8} {field : UInt8} {n offset : ℕ}
    (h : decodeLength order data field = .ok (n,offset)) : 2 ≤ offset := by
  rw [decodeLength] at h
  split_ifs at h
  all_goals
    simp only [Except.ok.injEq,Prod.mk.injEq] at h
    omega

/-- What a decoded frame says about its length. -/
theorem decode_ok_length {order : Endian} {self frame : WebSocketFrame} {data : List UInt8} {n : ℕ}
    (h : decode order self data = .ok (frame,n)) :
    ∃ offset, decodeLength order data (data.getD 1 0 &&& 0x7f) = .ok (frame.payloadLength,offset) ∧
      n = offset+(if frame.masked then 4 else 0)+frame.payloadLength := by
  rw [decode] at h
  split_ifs at h with hshort
  cases hop : WebSocketFrameType.enumFromInt (data.getD 0 0 &&& 0x0f) with
  | none =>
    rw [hop] at h
    cases h
  | some opcode =>
    rw [hop] at h
    obtain ⟨⟨payloadLength,offset⟩,hlen,h⟩ := except_bind_ok h
    obtain ⟨⟨maskingKey,offset'⟩,hkey,h⟩ := except_bind_ok h
    simp only at h
    split at h
    · cases h
    · split at h
      · cases h
      · cases h
        refine ⟨offset,hlen,?_⟩
        rw [decodeKey] at hkey
        split_ifs at hkey with hmasked
        · cases hkey
          rw [if_pos hmasked]
        · cases hkey
          rw [if_neg hmasked,Nat.add_zero]

/-- The same frame. The key counts if the frame is masked. -/
structure SameFrame (decoded frame : WebSocketFrame) : Prop where
  fin : decoded.fin = frame.fin
  opcode : decoded.opcode = frame.opcode
  masked : decoded.masked = frame.masked
  maskingKey : frame.masked = true → decoded.maskingKey = frame.maskingKey
  payloadLength : decoded.payloadLength = frame.payloadLength
  payload : decoded.payload = frame.payload

/-- Whatever follows the encoded frame, `decode` returns the frame and the number of its bytes. -/
def RoundTrips (order : Endian) (freed : FreedMemory UInt8) (frame : WebSocketFrame) : Prop :=
  ∀ self rest, ∃ decoded,
    decode order self (encode order freed frame++rest) = .ok (decoded,(encode order freed frame).length) ∧
      SameFrame decoded frame

section RoundTrip

variable (order : Endian) (freed : FreedMemory UInt8) (frame : WebSocketFrame)

/-- The parts of an encoded frame with an extended length. -/
def encodedLayout : Layout where
  first := firstByte frame.fin frame.opcode
  second := maskBit frame.masked ||| if frame.payloadLength < 65536 then 126 else 127
  extended := toBytes order (if frame.payloadLength < 65536 then 2 else 8) frame.payloadLength
  key := if frame.masked then List.ofFn frame.maskingKey else []
  body := if frame.masked then freed.read (applyMask frame.maskingKey frame.payload) else frame.payload

theorem encodedLayout_masked : (encodedLayout order freed frame).masked = frame.masked := by
  apply maskBit_masked
  split_ifs <;> simp

theorem encodedLayout_field :
    (encodedLayout order freed frame).field = if frame.payloadLength < 65536 then 126 else 127 := by
  apply maskBit_field
  split_ifs <;> simp

theorem length_encodedLayout_body : (encodedLayout order freed frame).body.length = frame.payload.length := by
  cases hm : frame.masked <;> simp [encodedLayout,hm,freed.length_read]

theorem encodedLayout_frame (self : WebSocketFrame) :
    (encodedLayout order freed frame).frame self frame.opcode =
      ⟨frame.fin,frame.opcode,frame.masked,frame.payload.length,
        if frame.masked then frame.maskingKey else self.maskingKey,
        if frame.masked then applyMask frame.maskingKey (freed.read (applyMask frame.maskingKey frame.payload))
        else frame.payload⟩ := by
  have hfin : decide ((encodedLayout order freed frame).first &&& 0x80 ≠ 0) = frame.fin :=
    firstByte_fin frame.fin frame.opcode
  rw [Layout.frame,hfin,length_encodedLayout_body,encodedLayout_masked]
  cases hm : frame.masked with
  | false => simp [encodedLayout,hm]
  | true => simp [encodedLayout,hm,-List.ofFn_succ]

variable {order freed frame}

theorem encode_eq_layout (hlong : 126 ≤ frame.payloadLength) :
    encode order freed frame = (encodedLayout order freed frame).bytes := by
  rw [encode,encodeLength,if_neg (by omega),Layout.bytes,encodedLayout]
  split_ifs <;> rfl

theorem encodedLayout_fits (order : Endian) (freed : FreedMemory UInt8) (hlen : frame.payloadLength = frame.payload.length)
    (hsmall : frame.payload.length < 2^63) : (encodedLayout order freed frame).Fits order := by
  have hbody := length_encodedLayout_body order freed frame
  have hfield := encodedLayout_field order freed frame
  have hmasked := encodedLayout_masked order freed frame
  have hkey : (encodedLayout order freed frame).key.length = if frame.masked then 4 else 0 := by
    rw [encodedLayout]
    split_ifs <;> simp
  have hextended : (encodedLayout order freed frame).extended.length = if frame.payloadLength < 65536 then 2 else 8 := by
    rw [encodedLayout,length_toBytes]
  refine ⟨?_,?_,?_,?_⟩
  · rw [hextended,hfield]
    split_ifs <;> simp_all
  · rw [hkey,hmasked]
  · have hshort : ¬(encodedLayout order freed frame).field < 126 := by
      rw [hfield]
      split_ifs <;> decide
    rw [hbody,Layout.length,if_neg hshort,encodedLayout,ofBytes_toBytes,hlen]
    split_ifs with hmid
    · omega
    · omega
  · rw [Layout.length_bytes,hbody,hkey,hextended]
    split_ifs <;> omega

/-- A frame with a short payload lacks its second byte, and is never read back. -/
theorem not_roundTrips_of_short (hlen : frame.payloadLength = frame.payload.length)
    (hshort : frame.payload.length < 126) : ¬RoundTrips order freed frame := by
  intro h
  obtain ⟨decoded,hdecode,hsame⟩ := h frame []
  obtain ⟨offset,hlength,hn⟩ := decode_ok_length hdecode
  have hoffset := two_le_of_decodeLength hlength
  have hbytes : (encode order freed frame).length = 1+(if frame.masked then 4 else 0)+frame.payload.length := by
    rw [encode,encodeLength,if_pos (by omega)]
    split_ifs
    · simp [freed.length_read]
      omega
    · simp
      omega
  rw [hbytes,hsame.masked,hsame.payloadLength,hlen] at hn
  omega

/-- A frame with an extended length is read back exactly if the masked payload is still
in its buffer when `encode` appends it. -/
theorem roundTrips_of_long (hlen : frame.payloadLength = frame.payload.length) (hsmall : frame.payload.length < 2^63)
    (hlong : 126 ≤ frame.payload.length) :
    RoundTrips order freed frame ↔
      (frame.masked = true → freed.read (applyMask frame.maskingKey frame.payload) =
        applyMask frame.maskingKey frame.payload) := by
  have hdecode := fun self => decode_layout (encodedLayout_fits order freed hlen hsmall) self
    (enumFromInt_firstByte frame.fin frame.opcode)
  simp only [encodedLayout_frame] at hdecode
  rw [RoundTrips,encode_eq_layout (by omega)]
  constructor
  · intro h hm
    obtain ⟨decoded,hok,hsame⟩ := h frame []
    rw [hdecode frame []] at hok
    cases hok
    have heq := hsame.payload
    simp only [if_pos hm] at heq
    rw [← applyMask_inj frame.maskingKey,heq,applyMask_applyMask]
  · intro h self rest
    refine ⟨_,hdecode self rest,rfl,rfl,rfl,fun hm => if_pos hm,hlen.symm,?_⟩
    by_cases hm : frame.masked = true
    · simp only [if_pos hm,h hm,applyMask_applyMask]
    · simp only [if_neg hm]

end RoundTrip

/-- Exactly the frames with a payload of at least 126 bytes round-trip, if they are not
masked or the masked payload survives in its freed buffer. -/
theorem roundTrips_iff (order : Endian) (freed : FreedMemory UInt8) (frame : WebSocketFrame)
    (hlen : frame.payloadLength = frame.payload.length) (hsmall : frame.payload.length < 2^63) :
    RoundTrips order freed frame ↔ 126 ≤ frame.payload.length ∧
      (frame.masked = true → freed.read (applyMask frame.maskingKey frame.payload) =
        applyMask frame.maskingKey frame.payload) := by
  by_cases hlong : 126 ≤ frame.payload.length
  · rw [roundTrips_of_long hlen hsmall hlong,and_iff_right hlong]
  · exact iff_of_false (not_roundTrips_of_short hlen (by omega)) fun h => hlong h.1

/-- The shortest payload with an extended length. -/
theorem roundTrips_iff_126 : RoundTrips .little .kept (.init .binary (List.replicate 126 0)) := by
  apply (roundTrips_iff .little .kept (.init .binary (List.replicate 126 0)) ?_ ?_).mpr
  · refine ⟨?_,nofun⟩
    simp [WebSocketFrame.init]
  · simp [WebSocketFrame.init]
  · simp [WebSocketFrame.init]

/-- The text frame `Hello` is not read back: its first letter is taken for the second byte. -/
theorem roundTrips_fails :
    decode .little (.init .text []) (encode .little .kept (.init .text [72,101,108,108,111])) =
      .error (.error .insufficientData) ∧
    ¬RoundTrips .little .kept (.init .text [72,101,108,108,111]) := by
  have hdecode : decode .little (.init .text []) (encode .little .kept (.init .text [72,101,108,108,111])) =
      .error (.error .insufficientData) := rfl
  refine ⟨hdecode,?_⟩
  intro h
  obtain ⟨decoded,hok,-⟩ := h (.init .text []) []
  rw [List.append_nil,hdecode] at hok
  cases hok

end ZNet.WebSocketFrames
