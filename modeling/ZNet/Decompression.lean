import ZNet.CompressionSink

/-!
# Brotli and Zstd bodies fed in chunks

The Zig decoders call the Rust shim once per iteration, write what it produced to
the ring and advance their input offset by the number of bytes it produced. The
shim builds a fresh decoder of the `brotli` or `zstd` crate for each call and
reads from it once. The crates are a parameter.
-/

namespace ZNet.Decompression
open BodyRing BodyRingDescriptor CompressionSink

/-- The calls made on the two crates: a decoder is built over the input slice and
read once into a buffer of the given size. `none` is an error. -/
structure Crates where
  brotliRead : List UInt8 → ℕ → Option (List UInt8)
  zstdNew : List UInt8 → Bool
  zstdRead : List UInt8 → ℕ → Option (List UInt8)

/-- The opaque handle of the shim carries no decoder state. -/
structure DecoderState where
  placeholder : UInt8

/-- Return code and produced bytes; `none` is the null handle. -/
def znetBrotliDecoderFeed (crates : Crates) (handle : Option DecoderState) (input : List UInt8) (outCap : ℕ) :
    ℤ×List UInt8 :=
  match handle with
  | none => (-1,[])
  | some _ => match crates.brotliRead input outCap with
    | some out => (0,out)
    | none => (-2,[])

def znetZstdDecoderFeed (crates : Crates) (handle : Option DecoderState) (input : List UInt8) (outCap : ℕ) :
    ℤ×List UInt8 :=
  match handle with
  | none => (-1,[])
  | some _ =>
    if crates.zstdNew input then
      match crates.zstdRead input outCap with
      | some out => (0,out)
      | none => (-3,[])
    else (-2,[])

def znetBrotliDecoderFinish (_handle : Option DecoderState) : ℤ := 0

def znetZstdDecoderFinish (_handle : Option DecoderState) : ℤ := 0

inductive FeedError | decompressionFailed | decompressionStalled | full | trapped deriving DecidableEq

/-- `try self.sink.write(out)` with no consumer in between. -/
def sinkWrite (r : BodyRingDescriptor) (out : List UInt8) : BodyRingDescriptor×Except FeedError Unit :=
  match Sink.write [] r out with
  | (r',.done) => (r',.ok ())
  | (r',.full) => (r',.error .full)
  | (r',.trapped) => (r',.error .trapped)

/-- `out_buf` of both decoders. -/
def outBufLen : ℕ := 64*1024

/-- The loop that `BrotliDecoder.feedImpl` and `ZstdDecoder.feedImpl` share, on the
input that starts at `in_offset`. -/
def feedLoop (ffiFeed : List UInt8 → ℤ×List UInt8) (r : BodyRingDescriptor) (rest : List UInt8) :
    BodyRingDescriptor×Except FeedError Unit :=
  if rest = [] then (r,.ok ())
  else
    let out := (ffiFeed rest).2
    if (ffiFeed rest).1 ≠ 0 then (r,.error .decompressionFailed)
    else if out.length = 0 then (r,.error .decompressionStalled)
    else match sinkWrite r out with
      | (r',.error e) => (r',.error e)
      | (r',.ok ()) => feedLoop ffiFeed r' (rest.drop out.length)
termination_by rest.length
decreasing_by
  have hpos : 0 < rest.length := List.length_pos_of_ne_nil ‹_›
  change (rest.drop out.length).length < rest.length
  rw [List.length_drop]
  omega

inductive Decoder
  | identity
  | brotli (handle : Option DecoderState)
  | zstd (handle : Option DecoderState)

def Decoder.feed (crates : Crates) (r : BodyRingDescriptor) (input : List UInt8) :
    Decoder → BodyRingDescriptor×Except FeedError Unit
  | .identity => sinkWrite r input
  | .brotli h => feedLoop (fun rest => znetBrotliDecoderFeed crates h rest outBufLen) r input
  | .zstd h => feedLoop (fun rest => znetZstdDecoderFeed crates h rest outBufLen) r input

def Decoder.finish : Decoder → Except FeedError Unit
  | .identity => .ok ()
  | .brotli h => if znetBrotliDecoderFinish h ≠ 0 then .error .decompressionFailed else .ok ()
  | .zstd h => if znetZstdDecoderFinish h ≠ 0 then .error .decompressionFailed else .ok ()

structure DecompressingStream where
  decoder : Decoder
  ring : BodyRingDescriptor

inductive Codec | br | zstd deriving DecidableEq

/-- `decoderFor` on the two codings backed by the shim. -/
def decoderFor : Codec → Decoder
  | .br => .brotli (some ⟨0⟩)
  | .zstd => .zstd (some ⟨0⟩)

def DecompressingStream.init (codec : Codec) (ring : BodyRingDescriptor) : DecompressingStream :=
  ⟨decoderFor codec,ring⟩

def DecompressingStream.feed (crates : Crates) (s : DecompressingStream) (chunk : List UInt8) :
    DecompressingStream×Except FeedError Unit :=
  let (r,e) := s.decoder.feed crates s.ring chunk
  ({ s with ring := r },e)

def DecompressingStream.finish (s : DecompressingStream) : DecompressingStream×Except FeedError Unit :=
  match s.decoder.finish with
  | .error e => (s,.error e)
  | .ok () => ({ s with ring := { s.ring with isClosed := true } },.ok ())

/-- Feed the chunks in order and finish; the first error ends the body. -/
def DecompressingStream.feedAll (crates : Crates) (s : DecompressingStream) :
    List (List UInt8) → DecompressingStream×Except FeedError Unit
  | [] => s.finish
  | chunk::chunks => match s.feed crates chunk with
    | (s',.error e) => (s',.error e)
    | (s',.ok ()) => s'.feedAll crates chunks

/-- The first read of a fresh decoder over the input, if it succeeds. -/
def freshRead (crates : Crates) : Codec → List UInt8 → Option (List UInt8)
  | .br,input => crates.brotliRead input outBufLen
  | .zstd,input => if crates.zstdNew input then crates.zstdRead input outBufLen else none

/-- A chunk read as encodings that begin at distances counted in decompressed
bytes: a fresh decoder returns a non-empty piece, and what is left of the chunk
after as many bytes as the piece is long is again of this kind. -/
inductive Paced (read : List UInt8 → Option (List UInt8)) : List UInt8 → List UInt8 → Prop
  | nil : Paced read [] []
  | cons {rest piece out : List UInt8} (hrest : rest ≠ []) (hread : read rest = some piece)
      (hpiece : piece ≠ []) (htail : Paced read (rest.drop piece.length) out) : Paced read rest (piece++out)

/-- The whole body: feeding succeeds and the ring holds its old content followed by
exactly the payload, marked as closed. -/
def Delivers (crates : Crates) (codec : Codec) (r : BodyRingDescriptor) (payload : List UInt8)
    (chunks : List (List UInt8)) : Prop :=
  ((DecompressingStream.init codec r).feedAll crates chunks).2 = .ok () ∧
  ((DecompressingStream.init codec r).feedAll crates chunks).1.ring.unread = r.unread++payload ∧
  ((DecompressingStream.init codec r).feedAll crates chunks).1.ring.isClosed = true

/-- The shim reports success exactly with what a fresh decoder reads first. -/
def Shim (ffiFeed : List UInt8 → ℤ×List UInt8) (read : List UInt8 → Option (List UInt8)) : Prop :=
  ∀ input, match read input with
    | some out => ffiFeed input = (0,out)
    | none => (ffiFeed input).1 ≠ 0

theorem shim_brotli (crates : Crates) (d : DecoderState) :
    Shim (fun rest => znetBrotliDecoderFeed crates (some d) rest outBufLen) (freshRead crates .br) := by
  intro input
  simp only [freshRead,znetBrotliDecoderFeed]
  cases crates.brotliRead input outBufLen with
  | none => simp
  | some out => rfl

theorem shim_zstd (crates : Crates) (d : DecoderState) :
    Shim (fun rest => znetZstdDecoderFeed crates (some d) rest outBufLen) (freshRead crates .zstd) := by
  intro input
  simp only [freshRead,znetZstdDecoderFeed]
  cases crates.zstdNew input with
  | false => simp
  | true => cases crates.zstdRead input outBufLen with
    | none => simp
    | some out => rfl

/-- A ring whose counter cannot wrap before the ring is full. -/
structure Steady (r : BodyRingDescriptor) : Prop where
  valid : r.Valid
  below : r.tail+r.capacity < 2^64

/-- `out` was appended and nothing was released. -/
structure Appended (r r' : BodyRingDescriptor) (out : List UInt8) : Prop where
  steady : Steady r'
  tail_eq : r'.tail = r.tail
  room_eq : r'.room+out.length = r.room
  unread_eq : r'.unread = r.unread++out

theorem Appended.trans {r r' r'' : BodyRingDescriptor} {xs ys : List UInt8} (h : Appended r r' xs)
    (h' : Appended r' r'' ys) : Appended r r'' (xs++ys) := by
  have hroom := h.room_eq
  have hroom' := h'.room_eq
  refine ⟨h'.steady,h'.tail_eq.trans h.tail_eq,?_,?_⟩
  · rw [List.length_append]
    omega
  · rw [h'.unread_eq,h.unread_eq,List.append_assoc]

theorem append_appended {r : BodyRingDescriptor} (hr : Steady r) {out : List UInt8}
    (hfit : out.length ≤ r.room) : Appended r (r.append out) out := by
  have hle := hr.valid.tail_le
  have hd := hr.valid.unread_le
  have hbelow := hr.below
  have hroom : r.room = r.capacity-(r.head-r.tail) := rfl
  have hlt : r.head+out.length < 2^64 := by omega
  have hw := append_wrote hr.valid hfit hlt
  refine ⟨⟨hw.valid,hbelow⟩,rfl,?_,?_⟩
  · rw [room,append_head hlt,append_tail,append_capacity]
    omega
  · simpa using hw.unread_eq

theorem sinkWrite_eq {r : BodyRingDescriptor} (hr : Steady r) (out : List UInt8) :
    sinkWrite r out =
      if out.length ≤ r.room then (r.append out,.ok ()) else (r.append (out.take r.room),.error .full) := by
  rw [sinkWrite,write_alone hr.valid hr.below]
  by_cases hfit : out.length ≤ r.room
  · simp only [if_pos hfit,List.take_of_length_le hfit]
  · simp only [if_neg hfit]

section Loop

variable {ffiFeed : List UInt8 → ℤ×List UInt8} {read : List UInt8 → Option (List UInt8)}

/-- One iteration of the loop, in terms of the fresh decoder. -/
theorem feedLoop_pass (hshim : Shim ffiFeed read) (r : BodyRingDescriptor) {rest : List UInt8} (hrest : rest ≠ []) :
    feedLoop ffiFeed r rest = match read rest with
      | none => (r,.error .decompressionFailed)
      | some piece =>
        if piece = [] then (r,.error .decompressionStalled)
        else match sinkWrite r piece with
          | (r',.error e) => (r',.error e)
          | (r',.ok ()) => feedLoop ffiFeed r' (rest.drop piece.length) := by
  have hs := hshim rest
  rw [feedLoop,if_neg hrest]
  cases hread : read rest with
  | none =>
    rw [hread] at hs
    simp only [ne_eq] at hs
    simp only [ne_eq,hs,not_false_eq_true,if_true]
  | some piece =>
    rw [hread] at hs
    simp only [hs,ne_eq,not_true_eq_false,if_false,List.length_eq_zero_iff]

theorem feedLoop_of_paced (hshim : Shim ffiFeed read) {rest out : List UInt8} (h : Paced read rest out)
    {r : BodyRingDescriptor} (hr : Steady r) (hroom : out.length ≤ r.room) :
    ∃ r', feedLoop ffiFeed r rest = (r',.ok ()) ∧ Appended r r' out := by
  induction h generalizing r with
  | nil =>
    refine ⟨r,by rw [feedLoop,if_pos rfl],hr,rfl,rfl,?_⟩
    rw [List.append_nil]
  | @cons rest piece out hrest hread hpiece htail ih =>
    rw [List.length_append] at hroom
    have hfit : piece.length ≤ r.room := by omega
    have ha := append_appended hr hfit
    have hleft := ha.room_eq
    obtain ⟨r',hr',happ⟩ := ih ha.steady (by omega)
    refine ⟨r',?_,ha.trans happ⟩
    rw [feedLoop_pass hshim r hrest,hread]
    simp only [if_neg hpiece,sinkWrite_eq hr,if_pos hfit]
    exact hr'

theorem paced_of_feedLoop (hshim : Shim ffiFeed read) {r r' : BodyRingDescriptor} (hr : Steady r)
    {rest : List UInt8} (h : feedLoop ffiFeed r rest = (r',.ok ())) :
    ∃ out, Paced read rest out ∧ Appended r r' out := by
  induction hn : rest.length using Nat.strong_induction_on generalizing r rest with
  | _ n ih =>
    by_cases hrest : rest = []
    · subst hrest
      rw [feedLoop,if_pos rfl] at h
      obtain ⟨rfl,-⟩ := Prod.mk.inj h
      refine ⟨[],.nil,hr,rfl,rfl,?_⟩
      rw [List.append_nil]
    · rw [feedLoop_pass hshim r hrest] at h
      cases hread : read rest with
      | none => simp [hread] at h
      | some piece =>
        simp only [hread] at h
        split_ifs at h with hpiece
        · simp at h
        · rw [sinkWrite_eq hr] at h
          split_ifs at h with hfit
          · have hpos := List.length_pos_of_ne_nil hrest
            have hlen := List.length_pos_of_ne_nil hpiece
            have ha := append_appended hr hfit
            obtain ⟨out,hp,happ⟩ := ih (rest.drop piece.length).length
              (by rw [List.length_drop]; omega) ha.steady h rfl
            exact ⟨piece++out,.cons hrest hread hpiece hp,ha.trans happ⟩
          · simp at h

end Loop

theorem decoderFor_feed (crates : Crates) (codec : Codec) : ∃ ffiFeed, Shim ffiFeed (freshRead crates codec) ∧
    ∀ r input, (decoderFor codec).feed crates r input = feedLoop ffiFeed r input := by
  cases codec with
  | br => exact ⟨_,shim_brotli crates ⟨0⟩,fun _ _ => rfl⟩
  | zstd => exact ⟨_,shim_zstd crates ⟨0⟩,fun _ _ => rfl⟩

theorem decoderFor_finish (codec : Codec) : (decoderFor codec).finish = .ok () := by
  cases codec <;> rfl

theorem feedAll_nil (crates : Crates) (codec : Codec) (r : BodyRingDescriptor) :
    (DecompressingStream.init codec r).feedAll crates [] =
      (DecompressingStream.init codec { r with isClosed := true },.ok ()) := by
  simp only [DecompressingStream.feedAll,DecompressingStream.finish,DecompressingStream.init,decoderFor_finish]

theorem feedAll_cons (crates : Crates) (codec : Codec) (r : BodyRingDescriptor) (chunk : List UInt8)
    (chunks : List (List UInt8)) :
    (DecompressingStream.init codec r).feedAll crates (chunk::chunks) =
      match (decoderFor codec).feed crates r chunk with
      | (r',.error e) => (DecompressingStream.init codec r',.error e)
      | (r',.ok ()) => (DecompressingStream.init codec r').feedAll crates chunks := by
  rw [DecompressingStream.feedAll,DecompressingStream.feed]
  simp only [DecompressingStream.init]
  rcases (decoderFor codec).feed crates r chunk with ⟨r',e | u⟩ <;> rfl

theorem feedAll_of_paced (crates : Crates) (codec : Codec) {chunks outs : List (List UInt8)}
    (h : List.Forall₂ (Paced (freshRead crates codec)) chunks outs) {r : BodyRingDescriptor} (hr : Steady r)
    (hroom : outs.flatten.length ≤ r.room) : Delivers crates codec r outs.flatten chunks := by
  induction h generalizing r with
  | nil =>
    rw [Delivers,feedAll_nil]
    exact ⟨rfl,by simp [DecompressingStream.init,unread],rfl⟩
  | @cons chunk out chunks outs hchunk hchunks ih =>
    obtain ⟨ffiFeed,hshim,hfeed⟩ := decoderFor_feed crates codec
    rw [List.flatten_cons,List.length_append] at hroom
    obtain ⟨r',hr',happ⟩ := feedLoop_of_paced hshim hchunk hr (by omega)
    have hleft := happ.room_eq
    obtain ⟨hok,hunread,hclosed⟩ := ih happ.steady (by omega)
    rw [Delivers,feedAll_cons,hfeed,hr']
    refine ⟨hok,?_,hclosed⟩
    rw [List.flatten_cons,← List.append_assoc,← happ.unread_eq]
    exact hunread

theorem paced_of_feedAll (crates : Crates) (codec : Codec) {chunks : List (List UInt8)}
    {r : BodyRingDescriptor} (hr : Steady r)
    (hok : ((DecompressingStream.init codec r).feedAll crates chunks).2 = .ok ()) :
    ∃ outs, List.Forall₂ (Paced (freshRead crates codec)) chunks outs ∧
      ((DecompressingStream.init codec r).feedAll crates chunks).1.ring.unread = r.unread++outs.flatten := by
  induction chunks generalizing r with
  | nil =>
    rw [feedAll_nil]
    exact ⟨[],.nil,by simp [DecompressingStream.init,unread]⟩
  | cons chunk chunks ih =>
    obtain ⟨ffiFeed,hshim,hfeed⟩ := decoderFor_feed crates codec
    rw [feedAll_cons,hfeed] at hok ⊢
    rcases hloop : feedLoop ffiFeed r chunk with ⟨r',e | u⟩
    · simp [hloop] at hok
    · simp only [hloop] at hok ⊢
      obtain ⟨out,hpaced,happ⟩ := paced_of_feedLoop hshim hr hloop
      obtain ⟨outs,houts,hunread⟩ := ih happ.steady hok
      refine ⟨out::outs,.cons hpaced houts,?_⟩
      rw [hunread,happ.unread_eq,List.flatten_cons,List.append_assoc]

theorem Paced.nil_of_out_nil {read : List UInt8 → Option (List UInt8)} {rest : List UInt8}
    (h : Paced read rest []) : rest = [] := by
  generalize hout : ([] : List UInt8) = out at h
  cases h with
  | nil => rfl
  | cons hrest hread hpiece htail => exact absurd (List.append_eq_nil_iff.mp hout.symm).1 hpiece

/-- A chunk whose first read already returns the payload: the offset then stands
after as many bytes as the payload is long, which has to be the end of the chunk. -/
theorem paced_whole_iff {read : List UInt8 → Option (List UInt8)} {encoded payload : List UInt8}
    (hne : encoded ≠ []) (hread : read encoded = some payload) :
    Paced read encoded payload ↔ payload ≠ [] ∧ encoded.length ≤ payload.length := by
  constructor
  · intro h
    generalize hout : payload = out at h
    cases h with
    | nil => exact absurd rfl hne
    | @cons _ piece more _ hpread hpiece htail =>
      have hp : piece = payload := Option.some.inj (hpread.symm.trans hread)
      have hmore : more = [] := by
        rw [hp] at hout
        exact List.self_eq_append_right.mp hout
      subst hmore
      have hend := List.drop_eq_nil_iff.mp htail.nil_of_out_nil
      rw [List.append_nil]
      exact ⟨hpiece,hend⟩
  · rintro ⟨hpayload,hlen⟩
    have htail : Paced read (encoded.drop payload.length) [] := by
      rw [List.drop_of_length_le hlen]
      exact .nil
    simpa using Paced.cons hne hread hpayload htail

theorem delivers_iff_paced (crates : Crates) (codec : Codec) {r : BodyRingDescriptor} (hr : Steady r)
    {payload : List UInt8} (chunks : List (List UInt8)) (hroom : payload.length ≤ r.room) :
    Delivers crates codec r payload chunks ↔
      ∃ outs, List.Forall₂ (Paced (freshRead crates codec)) chunks outs ∧ outs.flatten = payload := by
  constructor
  · rintro ⟨hok,hunread,-⟩
    obtain ⟨outs,houts,hout⟩ := paced_of_feedAll crates codec hr hok
    exact ⟨outs,houts,List.append_cancel_left (hout.symm.trans hunread)⟩
  · rintro ⟨outs,houts,rfl⟩
    exact feedAll_of_paced crates codec houts hr hroom

/-- A body is delivered exactly when the payload falls into pieces that fresh
decoders return: inside a chunk each decoder starts as many bytes further on as the
one before it produced, it returns a non-empty piece, and the last one of a chunk
reaches its end. For an encoding that arrives as one chunk and is decoded by one
read this says that the payload is not empty and no shorter than its encoding. -/
theorem delivers_iff (crates : Crates) (codec : Codec) (r : BodyRingDescriptor) (hr : Steady r)
    (payload : List UInt8) (chunks : List (List UInt8)) (hroom : payload.length ≤ r.room) :
    (Delivers crates codec r payload chunks ↔
      ∃ outs, List.Forall₂ (Paced (freshRead crates codec)) chunks outs ∧ outs.flatten = payload) ∧
    ∀ encoded, chunks = [encoded] → encoded ≠ [] → freshRead crates codec encoded = some payload →
      (Delivers crates codec r payload chunks ↔ payload ≠ [] ∧ encoded.length ≤ payload.length) := by
  refine ⟨delivers_iff_paced crates codec hr chunks hroom,?_⟩
  intro encoded hchunks hne hread
  rw [delivers_iff_paced crates codec hr chunks hroom,← paced_whole_iff hne hread,hchunks]
  constructor
  · rintro ⟨outs,houts,hout⟩
    cases houts with
    | cons hpaced hnil =>
      cases hnil
      rw [List.flatten_singleton] at hout
      exact hout ▸ hpaced
  · intro hpaced
    exact ⟨[payload],.cons hpaced .nil,List.flatten_singleton⟩

/-- A `zstd` crate that knows one frame. -/
def frameCrates (frame payload : List UInt8) : Crates where
  brotliRead _ _ := none
  zstdNew _ := true
  zstdRead input outCap := if input = frame then some (payload.take outCap) else none

/-- The ten-byte frame of one hundred letters `a`, a single run-length block. -/
theorem delivers_iff_runLength :
    Delivers (frameCrates [0x28,0xb5,0x2f,0xfd,0x20,0x64,0x23,0x03,0x00,0x61] (List.replicate 100 0x61)) .zstd
      (.init (fun _ => 0) 128) (List.replicate 100 0x61)
      [[0x28,0xb5,0x2f,0xfd,0x20,0x64,0x23,0x03,0x00,0x61]] :=
  ((delivers_iff _ .zstd (.init (fun _ => 0) 128)
    ⟨⟨by decide,by decide,by decide,by decide⟩,by decide⟩ (List.replicate 100 0x61) _ (by decide)).2
    [0x28,0xb5,0x2f,0xfd,0x20,0x64,0x23,0x03,0x00,0x61] rfl (by simp) (by decide)).mpr (by decide)

/-- The frame of `abc`, a raw block, split after its first byte: the first chunk
alone is no frame, and the feed fails. -/
theorem delivers_fails_on_split :
    [[0x28],[0xb5,0x2f,0xfd,0x20,0x03,0x19,0x00,0x00,0x61,0x62,0x63]].flatten =
      ([0x28,0xb5,0x2f,0xfd,0x20,0x03,0x19,0x00,0x00,0x61,0x62,0x63] : List UInt8) ∧
    freshRead (frameCrates [0x28,0xb5,0x2f,0xfd,0x20,0x03,0x19,0x00,0x00,0x61,0x62,0x63] [0x61,0x62,0x63]) .zstd
      [0x28,0xb5,0x2f,0xfd,0x20,0x03,0x19,0x00,0x00,0x61,0x62,0x63] = some [0x61,0x62,0x63] ∧
    ¬Delivers (frameCrates [0x28,0xb5,0x2f,0xfd,0x20,0x03,0x19,0x00,0x00,0x61,0x62,0x63] [0x61,0x62,0x63]) .zstd
      (.init (fun _ => 0) 128) [0x61,0x62,0x63]
      [[0x28],[0xb5,0x2f,0xfd,0x20,0x03,0x19,0x00,0x00,0x61,0x62,0x63]] := by
  refine ⟨rfl,rfl,?_⟩
  rintro ⟨hok,-,-⟩
  obtain ⟨outs,houts,-⟩ := paced_of_feedAll _ .zstd
    ⟨⟨by decide,by decide,by decide,by decide⟩,by decide⟩ hok
  cases houts with
  | cons hpaced _ =>
    cases hpaced with
    | cons _ hread _ _ => cases hread

end ZNet.Decompression
