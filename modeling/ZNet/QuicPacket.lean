import ZNet.ByteOrder

/-!
# Parsing QUIC packets

`parsePacket` reads the header of a datagram and cuts the rest into frames. The length of
the connection id is a byte of the datagram, and the array for the id has 16 places.
-/

namespace ZNet.QuicPacket
open ByteOrder

inductive Failure
  | packetTooShort
  /-- An access outside the data or the array. -/
  | trap
deriving DecidableEq

structure Frame where
  frameType : UInt8
  data : List UInt8
deriving DecidableEq

structure Packet where
  packetType : UInt8
  packetNumber : ℕ
  version : ℕ
  /-- The places that are not written are undefined. -/
  connId : List (Option UInt8)
  frames : List Frame

def connectionIdLength : ℕ := 16

def typePadding : UInt8 := 0x00
def typePing : UInt8 := 0x01
def typeAck : UInt8 := 0x02
def typeStreamBase : UInt8 := 0x08

/-- `data[offset]` -/
def index (data : List UInt8) (offset : ℕ) : Except Failure UInt8 :=
  match data[offset]? with
  | some b => .ok b
  | none => .error .trap

/-- `data[start..stop]` -/
def slice (data : List UInt8) (start stop : ℕ) : Except Failure (List UInt8) :=
  if start ≤ stop ∧ stop ≤ data.length then .ok ((data.drop start).take (stop-start)) else .error .trap

/-- `@memcpy` to the front of the undefined array. -/
def copyToId (bytes : List UInt8) : Except Failure (List (Option UInt8)) :=
  if bytes.length ≤ connectionIdLength then
    .ok (bytes.map some++List.replicate (connectionIdLength-bytes.length) none)
  else .error .trap

/-- `Frame.parse` of data that is not empty. -/
def Frame.parse (data : List UInt8) : Except Failure Frame :=
  (index data 0).map fun frameType => ⟨frameType,data⟩

/-- How far a frame of the given type goes. -/
def frameLength (frameType : UInt8) : ℕ :=
  if frameType = typePing then 1
  else if frameType = typeAck then 5
  else if frameType = typeStreamBase then 10
  else 1

theorem frameLength_pos (frameType : UInt8) : 0 < frameLength frameType := by
  unfold frameLength
  split_ifs <;> decide

def parseFrames (data : List UInt8) (offset : ℕ) : Except Failure (List Frame) :=
  if h : offset < data.length then
    if data[offset] = typePadding then parseFrames data (offset+1)
    else
      let frameEnd := offset+frameLength data[offset]
      if frameEnd > data.length then .ok []
      else do
        let frame ← (slice data offset frameEnd).bind Frame.parse
        let frames ← parseFrames data frameEnd
        pure (frame::frames)
  else .ok []
termination_by data.length-offset
decreasing_by
  · omega
  · have hpos := frameLength_pos data[offset]
    omega

/-- The version, the connection id, and where the packet number is. -/
def parseHeader (flags : UInt8) (data : List UInt8) : Except Failure (ℕ×List (Option UInt8)×ℕ) :=
  if flags &&& 0x80 ≠ 0 then
    if data.length < 7 then .error .packetTooShort
    else do
      let version ← slice data 1 5
      let connIdLen ← index data 5
      if data.length < 6+connIdLen.toNat then .error .packetTooShort
      else
        let connId ← (slice data 6 (6+connIdLen.toNat)).bind copyToId
        pure (ofBytes .big version,connId,6+connIdLen.toNat)
  else .ok (0,List.replicate connectionIdLength none,1)

/-- `width` is how many bytes `readInt` takes for the packet number: it is given a slice of
four and the type `u64`. -/
def parsePacket (width : ℕ) (data : List UInt8) : Except Failure Packet :=
  match data with
  | [] => .error .packetTooShort
  | flags::_ => do
    let (version,connId,offset) ← parseHeader flags data
    if data.length < offset+4 then .error .packetTooShort
    else
      let packetNumber ← slice data offset (offset+width)
      let frames ← parseFrames data (offset+4)
      pure ⟨flags &&& 0xf0,ofBytes .little packetNumber,version,connId,frames⟩

/-- The frames are slices of the data, one behind the other with nothing but padding
between them, up to the end of the data or a frame that is cut off. -/
inductive Consecutive (data : List UInt8) : ℕ → List Frame → Prop
  | ended {offset : ℕ} (hend : data.length ≤ offset) : Consecutive data offset []
  | cutOff {offset : ℕ} {frameType : UInt8} (htype : data[offset]? = some frameType)
      (hend : data.length < offset+frameLength frameType) : Consecutive data offset []
  | padding {offset : ℕ} {frames : List Frame} (htype : data[offset]? = some typePadding)
      (rest : Consecutive data (offset+1) frames) : Consecutive data offset frames
  | frame {offset : ℕ} {frame : Frame} {frames : List Frame} (htype : data[offset]? = some frame.frameType)
      (hinside : offset+frame.data.length ≤ data.length) (hpos : 0 < frame.data.length)
      (hdata : (data.drop offset).take frame.data.length = frame.data)
      (rest : Consecutive data (offset+frame.data.length) frames) : Consecutive data offset (frame::frames)

/-- The packet has a long header. -/
def Long (data : List UInt8) : Prop := ∃ flags ∈ data.head?, flags &&& 0x80 ≠ 0

/-- The byte with the length of the connection id, if there is one. -/
def idLength (data : List UInt8) : ℕ := (data.getD 5 0).toNat

instance (data : List UInt8) : Decidable (Long data) := by
  unfold Long
  infer_instance

/-- Where the packet number is. -/
def numberOffset (data : List UInt8) : ℕ := if Long data then 6+idLength data else 1

/-- The datagram is refused as too short, or read as a packet with frames in order. -/
def Safe (width : ℕ) (data : List UInt8) : Prop :=
  parsePacket width data = .error .packetTooShort ∨
    ∃ packet, parsePacket width data = .ok packet ∧ Consecutive data (numberOffset data+4) packet.frames

section Reads
variable {data : List UInt8}

theorem index_inside {offset : ℕ} (h : offset < data.length) : index data offset = .ok data[offset] := by
  rw [index,List.getElem?_eq_getElem h]

theorem slice_inside {start stop : ℕ} (hle : start ≤ stop) (hstop : stop ≤ data.length) :
    slice data start stop = .ok ((data.drop start).take (stop-start)) := if_pos ⟨hle,hstop⟩

theorem slice_outside {start stop : ℕ} (hstop : data.length < stop) : slice data start stop = .error .trap :=
  if_neg fun h => by omega

theorem copyToId_inside (h : data.length ≤ connectionIdLength) : ∃ connId, copyToId data = .ok connId :=
  ⟨_,if_pos h⟩

theorem copyToId_outside (h : connectionIdLength < data.length) : copyToId data = .error .trap :=
  if_neg (by omega)

theorem idLength_eq (h : 5 < data.length) : idLength data = data[5].toNat := by
  simp [idLength,List.getD_eq_getElem?_getD,List.getElem?_eq_getElem h]

end Reads

/-- A frame that ends inside the data is cut out and keeps its type. -/
theorem sliceFrame_spec {data : List UInt8} {offset stop : ℕ} (hoffset : offset < data.length) (hlt : offset < stop)
    (hstop : stop ≤ data.length) :
    (slice data offset stop).bind Frame.parse = .ok ⟨data[offset],(data.drop offset).take (stop-offset)⟩ := by
  have hfirst : 0 < ((data.drop offset).take (stop-offset)).length := by
    simp only [List.length_take,List.length_drop]
    omega
  rw [slice_inside (by omega) hstop]
  simp [Except.bind,Frame.parse,index_inside hfirst,Except.map]

/-- The loop never leaves the data, and its frames are slices in order. -/
theorem parseFrames_spec (data : List UInt8) (offset : ℕ) :
    ∃ frames, parseFrames data offset = .ok frames ∧ Consecutive data offset frames := by
  induction offset using parseFrames.induct data with
  | case1 offset hin hpadding ih =>
    obtain ⟨frames,hparse,hframes⟩ := ih
    refine ⟨frames,?_,.padding (by rw [List.getElem?_eq_getElem hin,hpadding]) hframes⟩
    rw [parseFrames,dif_pos hin,if_pos hpadding,hparse]
  | case2 offset hin hpadding frameEnd hcut =>
    refine ⟨[],?_,.cutOff (List.getElem?_eq_getElem hin) hcut⟩
    rw [parseFrames,dif_pos hin,if_neg hpadding]
    exact if_pos hcut
  | case3 offset hin hpadding frameEnd hinside ih =>
    obtain ⟨frames,hparse,hframes⟩ := ih
    have hpos := frameLength_pos data[offset]
    have hend : frameEnd ≤ data.length := Nat.le_of_not_lt hinside
    have hlength : ((data.drop offset).take (frameEnd-offset)).length = frameEnd-offset := by
      simp only [List.length_take,List.length_drop]
      omega
    have hnext : offset+((data.drop offset).take (frameEnd-offset)).length = frameEnd := by omega
    refine ⟨⟨data[offset],(data.drop offset).take (frameEnd-offset)⟩::frames,?_,?_⟩
    · rw [parseFrames,dif_pos hin,if_neg hpadding]
      simp only [frameEnd] at hinside hparse hend ⊢
      rw [if_neg hinside,sliceFrame_spec hin (by omega) hend,hparse]
      rfl
    · apply Consecutive.frame (List.getElem?_eq_getElem hin)
      · simpa only [hnext] using hend
      · simp only [hlength]
        omega
      · simp only [hlength]
      · simpa only [hnext] using hframes
  | case4 offset hout =>
    refine ⟨[],?_,.ended (by omega)⟩
    rw [parseFrames,dif_neg hout]

section Header
variable {flags : UInt8} {data : List UInt8}

theorem long_iff (hhead : data.head? = some flags) : Long data ↔ flags &&& 0x80 ≠ 0 := by
  simp [Long,hhead]

theorem parseHeader_brief (hflags : ¬flags &&& 0x80 ≠ 0) :
    parseHeader flags data = .ok (0,List.replicate connectionIdLength none,1) := if_neg hflags

theorem parseHeader_short (hflags : flags &&& 0x80 ≠ 0) (h : data.length < 7 ∨ data.length < 6+idLength data) :
    parseHeader flags data = .error .packetTooShort := by
  rw [parseHeader,if_pos hflags]
  split
  · rfl
  · rename_i hseven
    rw [idLength_eq (by omega)] at h
    rw [slice_inside (by omega) (by omega),index_inside (by omega)]
    exact if_pos (by omega)

/-- A long header with all its bytes comes to the copy of the connection id. -/
theorem parseHeader_long (hflags : flags &&& 0x80 ≠ 0) (hseven : 7 ≤ data.length)
    (hlen : 6+idLength data ≤ data.length) : parseHeader flags data =
      (copyToId ((data.drop 6).take (idLength data))).map fun connId =>
        (ofBytes .big ((data.drop 1).take 4),connId,6+idLength data) := by
  rw [idLength_eq (by omega)] at hlen ⊢
  rw [parseHeader,if_pos hflags,if_neg (by omega),slice_inside (by omega) (by omega),index_inside (by omega)]
  refine (if_neg (by omega)).trans ?_
  rw [slice_inside (by omega) hlen,Nat.add_sub_cancel_left]
  rfl

end Header

/-- The packet number and the frames behind it are read if the header is. -/
theorem parsePacket_behind {width : ℕ} {flags : UInt8} {tail : List UInt8} {version : ℕ} {connId : List (Option UInt8)}
    {offset : ℕ} (hheader : parseHeader flags (flags::tail) = .ok (version,connId,offset))
    (hlen : offset+4 ≤ (flags::tail).length) (hwidth : offset+width ≤ (flags::tail).length) :
    ∃ packet, parsePacket width (flags::tail) = .ok packet ∧ Consecutive (flags::tail) (offset+4) packet.frames := by
  obtain ⟨frames,hparse,hframes⟩ := parseFrames_spec (flags::tail) (offset+4)
  let packetNumber := ofBytes .little (((flags::tail).drop offset).take width)
  refine ⟨⟨flags &&& 0xf0,packetNumber,version,connId,frames⟩,?_,hframes⟩
  rw [parsePacket,hheader]
  refine (if_neg (by omega)).trans ?_
  rw [slice_inside (by omega) hwidth,hparse,Nat.add_sub_cancel_left]
  rfl

section Safety
variable {width : ℕ} {flags : UInt8} {tail : List UInt8}

theorem safe_of_short (hheader : parseHeader flags (flags::tail) = .error .packetTooShort) :
    Safe width (flags::tail) := by
  refine .inl ?_
  rw [parsePacket,hheader]
  rfl

theorem not_safe_of_trap (h : parsePacket width (flags::tail) = .error .trap) : ¬Safe width (flags::tail) := by
  rintro (hshort|⟨packet,hok,-⟩)
  · simp [h] at hshort
  · simp [h] at hok

theorem not_safe_of_header (hheader : parseHeader flags (flags::tail) = .error .trap) : ¬Safe width (flags::tail) := by
  apply not_safe_of_trap
  rw [parsePacket,hheader]
  rfl

/-- Behind a header that is read, only a packet number that is too wide goes wrong. -/
theorem safe_behind {version : ℕ} {connId : List (Option UInt8)}
    (hheader : parseHeader flags (flags::tail) = .ok (version,connId,numberOffset (flags::tail))) :
    Safe width (flags::tail) ↔ (numberOffset (flags::tail)+4 ≤ (flags::tail).length →
      numberOffset (flags::tail)+width ≤ (flags::tail).length) := by
  by_cases hlen : numberOffset (flags::tail)+4 ≤ (flags::tail).length
  · by_cases hwidth : numberOffset (flags::tail)+width ≤ (flags::tail).length
    · exact iff_of_true (.inr (parsePacket_behind hheader hlen hwidth)) fun _ => hwidth
    · refine iff_of_false (not_safe_of_trap ?_) fun h => hwidth (h hlen)
      rw [parsePacket,hheader]
      refine (if_neg (by omega)).trans ?_
      rw [slice_outside (by omega)]
      rfl
  · refine iff_of_true (.inl ?_) fun h => absurd h hlen
    rw [parsePacket,hheader]
    exact if_pos (by omega)

end Safety

/-- The parser is safe exactly on the datagrams in which an id that is there fits its array,
and a packet number that is read is there. -/
theorem safe_iff (width : ℕ) (data : List UInt8) : Safe width data ↔
    (Long data → 6+idLength data ≤ data.length → idLength data ≤ connectionIdLength) ∧
      (numberOffset data+4 ≤ data.length → numberOffset data+width ≤ data.length) := by
  cases data with
  | nil => exact iff_of_true (.inl rfl) ⟨fun hlong => absurd hlong (by decide),fun h => absurd h (by decide)⟩
  | cons flags tail =>
    by_cases hlong : Long (flags::tail)
    · have hflags := (long_iff rfl).mp hlong
      have hoffset : numberOffset (flags::tail) = 6+idLength (flags::tail) := if_pos hlong
      by_cases hshort : (flags::tail).length < 7 ∨ (flags::tail).length < 6+idLength (flags::tail)
      · refine iff_of_true (safe_of_short (parseHeader_short hflags hshort)) ⟨fun _ hlen => ?_,fun hlen => ?_⟩
        · rw [connectionIdLength]
          omega
        · omega
      · have hheader : parseHeader flags (flags::tail) = _ := parseHeader_long hflags (by omega) (by omega)
        have hid : (((flags::tail).drop 6).take (idLength (flags::tail))).length = idLength (flags::tail) := by
          rw [List.length_take,List.length_drop]
          omega
        by_cases hfits : idLength (flags::tail) ≤ connectionIdLength
        · obtain ⟨connId,hcopy⟩ := copyToId_inside (hid.trans_le hfits)
          rw [hcopy] at hheader
          rw [safe_behind (by rw [hheader,hoffset]; rfl)]
          exact ⟨fun h => ⟨fun _ _ => hfits,h⟩,And.right⟩
        · rw [copyToId_outside (by omega)] at hheader
          exact iff_of_false (not_safe_of_header hheader) fun h => hfits (h.1 hlong (by omega))
    · have hoffset : numberOffset (flags::tail) = 1 := if_neg hlong
      have hheader : parseHeader flags (flags::tail) = _ := parseHeader_brief (mt (long_iff rfl).mpr hlong)
      rw [safe_behind (by rw [hheader,hoffset])]
      exact ⟨fun h => ⟨fun hl => absurd hl hlong,h⟩,And.right⟩

/-- A long header that announces an id of 17 bytes and has them, whichever width is read. -/
theorem id_overruns : ¬Safe 4 ([0xc0,0,0,0,1,17]++List.replicate 17 0) ∧
    ¬Safe 8 ([0xc0,0,0,0,1,17]++List.replicate 17 0) := by
  have htrap : parseHeader 0xc0 ([0xc0,0,0,0,1,17]++List.replicate 17 0) = .error .trap := by decide
  exact ⟨not_safe_of_header htrap,not_safe_of_header htrap⟩

end ZNet.QuicPacket
