import ZNet.BodyRing

/-!
# `Sink.write` under backpressure

`Sink.write` appends a slice to the ring in passes. Each pass tests `isFull`,
takes the free slices, copies and commits. The consumer may release bytes at any
time; the writer observes this only at its two loads of `tail` in every pass, so
a run is determined by what was released before each of them.
-/

namespace ZNet.CompressionSink
open CircularWindow BodyRing BodyRingDescriptor

/-- Bytes the consumer releases before the `tail` load of `isFull` and before the
`tail` load of `getWriteBuffers` in one pass. -/
structure Released where
  beforeIsFull : ℕ
  beforeBuffers : ℕ

/-- The consumer releases `k` bytes, or all unread bytes if there are fewer. -/
def drain (r : BodyRingDescriptor) (k : ℕ) : BodyRingDescriptor := r.release (min k (r.head-r.tail))

/-- The ring as the `tail` load of `isFull` sees it. -/
def atIsFull (ds : List Released) (r : BodyRingDescriptor) : BodyRingDescriptor :=
  drain r (ds.headD ⟨0,0⟩).beforeIsFull

/-- The ring as the `tail` load of `getWriteBuffers` sees it. -/
def atBuffers (ds : List Released) (r : BodyRingDescriptor) : BodyRingDescriptor :=
  drain (atIsFull ds r) (ds.headD ⟨0,0⟩).beforeBuffers

inductive WriteStatus | done | full | trapped deriving DecidableEq

/-- The `for (buffers)` loop: the byte copies it performs, in order, for the part
of `data` that is not yet written. -/
def copies : List IndexRange → List UInt8 → List (ℕ×UInt8)
  | [],_ => []
  | buf::bufs,rest =>
    if buf.len = 0 then copies bufs rest
    else
      let take := min buf.len rest.length
      let copied := (buf.indices.take take).zip (rest.take take)
      if take = rest.length then copied else copied++copies bufs (rest.drop take)

def Sink.write (ds : List Released) (r : BodyRingDescriptor) (data : List UInt8) :
    BodyRingDescriptor×WriteStatus :=
  if data = [] then (r,.done)
  else match (atIsFull ds r).isFull with
    | none => (atIsFull ds r,.trapped)
    | some true => (atIsFull ds r,.full)
    | some false => match (atBuffers ds r).getWriteBuffers with
      | none => (atBuffers ds r,.trapped)
      | some (b₀,b₁) =>
        let ws := copies [b₀,b₁] data
        if ws.length = 0 then (atBuffers ds r,.full)
        else Sink.write ds.tail (((atBuffers ds r).putAll ws).commitWrite ws.length) (data.drop ws.length)
termination_by data.length
decreasing_by
  have hpos : 0 < data.length := List.length_pos_of_ne_nil ‹_›
  change (data.drop ws.length).length < data.length
  rw [List.length_drop]
  omega

private theorem zip_append_left {α β : Type} (xs ys : List α) (zs : List β) :
    (xs++ys).zip zs = xs.zip (zs.take xs.length)++ys.zip (zs.drop xs.length) := by
  induction xs generalizing zs with
  | nil => simp
  | cons x xs ih => cases zs <;> simp [ih]

theorem copies_eq_zip (bufs : List IndexRange) (rest : List UInt8) :
    copies bufs rest = (bufs.flatMap IndexRange.indices).zip rest := by
  induction bufs generalizing rest with
  | nil => simp [copies]
  | cons buf bufs ih =>
    simp only [copies,ih,List.flatMap_cons,zip_append_left,IndexRange.length_indices]
    split_ifs with hz ht
    · have hnil : buf.indices = [] := List.length_eq_zero_iff.mp (by simpa using hz)
      simp [hnil,hz]
    · have hle : rest.length ≤ buf.len := by omega
      rw [ht,List.take_length,List.take_of_length_le hle,List.drop_of_length_le hle]
      have htake : buf.indices.zip rest = (buf.indices.take rest.length).zip rest := by
        rw [List.zip_eq_zip_take_min]
        simp [Nat.min_eq_right hle]
      simp [htake]
    · have hmin : min buf.len rest.length = buf.len := by omega
      rw [hmin,List.take_of_length_le (by simp)]

@[simp] theorem drain_head (r : BodyRingDescriptor) (k : ℕ) : (drain r k).head = r.head := rfl

@[simp] theorem drain_capacity (r : BodyRingDescriptor) (k : ℕ) : (drain r k).capacity = r.capacity := rfl

@[simp] theorem drain_buffer (r : BodyRingDescriptor) (k : ℕ) : (drain r k).buffer = r.buffer := rfl

theorem drain_tail {r : BodyRingDescriptor} (hr : r.Valid) (k : ℕ) :
    (drain r k).tail = r.tail+min k (r.head-r.tail) := by
  have hle := hr.tail_le
  have hlt := hr.head_lt
  exact Nat.mod_eq_of_lt (by omega)

theorem drain_used {r : BodyRingDescriptor} (hr : r.Valid) (k : ℕ) :
    (drain r k).head-(drain r k).tail = r.head-r.tail-k := by
  rw [drain_head,drain_tail hr]
  omega

theorem drain_wrote {r : BodyRingDescriptor} (hr : r.Valid) (k : ℕ) : Wrote r (drain r k) [] := by
  have htail := drain_tail hr k
  have hle := hr.tail_le
  have hd := hr.unread_le
  refine ⟨⟨hr.capacity_pos,?_,?_,hr.head_lt⟩,rfl,by omega,rfl,?_⟩
  · rw [drain_head]
    omega
  · rw [drain_head,drain_capacity]
    omega
  · have hk : (drain r k).tail-r.tail ≤ r.head-r.tail := by omega
    have hpos : r.tail+((drain r k).tail-r.tail) = (drain r k).tail := by omega
    have hn : r.head-(drain r k).tail = r.head-r.tail-((drain r k).tail-r.tail) := by omega
    have hdrop := contents_drop r.capacity r.buffer r.tail hk
    rw [hpos,← hn] at hdrop
    simpa [unread] using hdrop

theorem isFull_eq {r : BodyRingDescriptor} (hr : r.Valid) : r.isFull = some (decide (r.room = 0)) := by
  rw [isFull,getAvailableWrite,availableWriteAt_eq hr.tail_le hr.unread_le,Option.map_some]
  rfl

/-- The copies of one pass go to the free slots in order of position. -/
theorem copies_getWriteBuffers {r : BodyRingDescriptor} (hr : r.Valid) (data : List UInt8) :
    ∃ b₀ b₁, r.getWriteBuffers = some (b₀,b₁) ∧
      copies [b₀,b₁] data = (slots r.capacity r.head r.room).zip (data.take r.room) := by
  obtain ⟨b₀,b₁,hb,hidx⟩ := hr.getWriteBuffers_indices
  refine ⟨b₀,b₁,hb,?_⟩
  rw [copies_eq_zip]
  simp only [List.flatMap_cons,List.flatMap_nil,List.append_nil,hidx]
  simpa using zip_append_left (slots r.capacity r.head r.room) [] data

/-- Committed, they append the longest part of the data that fits. -/
theorem copies_commit {r : BodyRingDescriptor} (hr : r.Valid) (data : List UInt8) :
    ∃ b₀ b₁, r.getWriteBuffers = some (b₀,b₁) ∧
      (copies [b₀,b₁] data).length = min r.room data.length ∧
      (r.putAll (copies [b₀,b₁] data)).commitWrite (copies [b₀,b₁] data).length =
        r.append (data.take r.room) := by
  obtain ⟨b₀,b₁,hb,hz⟩ := copies_getWriteBuffers hr data
  refine ⟨b₀,b₁,hb,?_,?_⟩
  · simp [hz]
  · rw [hz,append]
    simp

theorem atIsFull_wrote {r : BodyRingDescriptor} (hr : r.Valid) (ds : List Released) :
    Wrote r (atIsFull ds r) [] := drain_wrote hr _

theorem atBuffers_wrote {r : BodyRingDescriptor} (hr : r.Valid) (ds : List Released) :
    Wrote r (atBuffers ds r) [] :=
  (atIsFull_wrote hr ds).trans hr (drain_wrote (atIsFull_wrote hr ds).valid _)

theorem atIsFull_room {r : BodyRingDescriptor} (hr : r.Valid) (ds : List Released) :
    (atIsFull ds r).room = r.capacity-(r.head-r.tail-(ds.headD ⟨0,0⟩).beforeIsFull) := by
  rw [room,atIsFull,drain_used hr,drain_capacity]

theorem atBuffers_room {r : BodyRingDescriptor} (hr : r.Valid) (ds : List Released) :
    (atBuffers ds r).room =
      r.capacity-(r.head-r.tail-((ds.headD ⟨0,0⟩).beforeIsFull+(ds.headD ⟨0,0⟩).beforeBuffers)) := by
  have hused := drain_used (atIsFull_wrote hr ds).valid (ds.headD ⟨0,0⟩).beforeBuffers
  rw [atIsFull,drain_used hr,Nat.sub_sub] at hused
  rw [room,atBuffers,drain_capacity,atIsFull,drain_capacity,hused]

theorem atIsFull_room_le {r : BodyRingDescriptor} (hr : r.Valid) (ds : List Released) :
    (atIsFull ds r).room ≤ (atBuffers ds r).room := by
  rw [atIsFull_room hr,atBuffers_room hr]
  omega

theorem drop_min_length (data : List UInt8) (n : ℕ) : data.drop (min n data.length) = data.drop n := by
  rcases Nat.le_total data.length n with h | h
  · rw [Nat.min_eq_right h,List.drop_length,List.drop_of_length_le h]
  · rw [Nat.min_eq_left h]

/-- One pass of `Sink.write` over a ring in a valid state. -/
theorem write_pass {r : BodyRingDescriptor} (hr : r.Valid) (ds : List Released) {data : List UInt8}
    (hdata : data ≠ []) :
    Sink.write ds r data =
      if (atIsFull ds r).room = 0 then (atIsFull ds r,.full)
      else Sink.write ds.tail ((atBuffers ds r).append (data.take (atBuffers ds r).room))
        (data.drop (atBuffers ds r).room) := by
  have hr₂ := (atBuffers_wrote hr ds).valid
  obtain ⟨b₀,b₁,hb,hlen,hcommit⟩ := copies_commit hr₂ data
  have hpos := List.length_pos_of_ne_nil hdata
  have hmore := atIsFull_room_le hr ds
  have hfull := isFull_eq (atIsFull_wrote hr ds).valid
  rw [Sink.write,if_neg hdata]
  by_cases hz : (atIsFull ds r).room = 0
  · simp only [hfull,hz,decide_true,if_true]
  · have hws : (copies [b₀,b₁] data).length ≠ 0 := by omega
    simp only [hfull,hz,decide_false,if_false,hb,hws,hcommit]
    rw [hlen,drop_min_length]

/-- The effect of a pass that copies, and that the rest of the data still keeps
the counter below its width. -/
theorem pass_wrote {r : BodyRingDescriptor} (hr : r.Valid) (ds : List Released) {data : List UInt8}
    (hlt : r.head+data.length < 2^64) :
    Wrote r ((atBuffers ds r).append (data.take (atBuffers ds r).room)) (data.take (atBuffers ds r).room) ∧
      ((atBuffers ds r).append (data.take (atBuffers ds r).room)).head+
        (data.drop (atBuffers ds r).room).length < 2^64 := by
  have hb := atBuffers_wrote hr ds
  have hhead := hb.head_eq
  simp only [List.length_nil,Nat.add_zero] at hhead
  have htake := List.length_take_le' (atBuffers ds r).room data
  have hw := hb.trans hr
    (append_wrote hb.valid (List.length_take_le (atBuffers ds r).room data) (by omega))
  rw [List.nil_append] at hw
  refine ⟨hw,?_⟩
  rw [hw.head_eq,List.length_take,List.length_drop]
  omega

/-- What a whole call leaves behind: a front part of the data was appended, and
the call reports `Full` exactly when it was a proper part. -/
theorem write_spec {r : BodyRingDescriptor} (hr : r.Valid) (ds : List Released) {data : List UInt8}
    (hlt : r.head+data.length < 2^64) :
    ∃ sent rest, data = sent++rest ∧ Wrote r (Sink.write ds r data).1 sent ∧
      (rest = [] ∧ (Sink.write ds r data).2 = .done ∨ rest ≠ [] ∧ (Sink.write ds r data).2 = .full) := by
  induction hn : data.length using Nat.strong_induction_on generalizing r ds data with
  | _ n ih =>
    by_cases hdata : data = []
    · refine ⟨[],[],hdata,?_,Or.inl ⟨rfl,?_⟩⟩ <;> rw [Sink.write,if_pos hdata]
      exact Wrote.refl hr
    · rw [write_pass hr ds hdata]
      split_ifs with hz
      · exact ⟨[],data,rfl,atIsFull_wrote hr ds,Or.inr ⟨hdata,rfl⟩⟩
      · have hpos := List.length_pos_of_ne_nil hdata
        have hmore := atIsFull_room_le hr ds
        obtain ⟨hw,hlt'⟩ := pass_wrote hr ds hlt
        obtain ⟨sent,rest,hd,hs,hstatus⟩ := ih (data.drop (atBuffers ds r).room).length
          (by rw [List.length_drop]; omega) hw.valid ds.tail hlt' rfl
        refine ⟨data.take (atBuffers ds r).room++sent,rest,?_,hw.trans hr hs,hstatus⟩
        rw [List.append_assoc,← hd,List.take_append_drop]

theorem drain_zero {r : BodyRingDescriptor} (hr : r.Valid) : drain r 0 = r := by
  have hle := hr.tail_le
  have hlt := hr.head_lt
  have htail : (r.tail+0)%2^64 = r.tail := Nat.mod_eq_of_lt (by omega)
  simp only [drain,release,Nat.zero_min,htail]

theorem append_nil {r : BodyRingDescriptor} (hr : r.Valid) : r.append [] = r := by
  have hlt := hr.head_lt
  have hhead : (r.head+0)%2^64 = r.head := Nat.mod_eq_of_lt (by omega)
  simp only [append,putAll,commitWrite,List.zip_nil_right,List.length_nil,hhead,store,List.foldl_nil]

/-- After a pass that did not finish the data the ring is full. -/
theorem append_take_room {r : BodyRingDescriptor} (hr : r.Valid) {data : List UInt8}
    (hlt : r.head+(data.take r.room).length < 2^64) (hrest : data.drop r.room ≠ []) :
    (r.append (data.take r.room)).head-(r.append (data.take r.room)).tail = r.capacity := by
  have hlen : r.room < data.length := by
    by_contra hge
    exact hrest (List.drop_of_length_le (by omega))
  have hle := hr.tail_le
  have hd := hr.unread_le
  rw [append_head hlt,append_tail,List.length_take_of_le hlen.le,room]
  omega

/-- Without a consumer a call places what fits and reports whether that was all. -/
theorem write_alone {r : BodyRingDescriptor} (hr : r.Valid) (hlt : r.tail+r.capacity < 2^64) (data : List UInt8) :
    Sink.write [] r data =
      (r.append (data.take r.room),if data.length ≤ r.room then .done else .full) := by
  by_cases hdata : data = []
  · rw [Sink.write,if_pos hdata,hdata]
    simp [append_nil hr]
  · have h₁ : atIsFull [] r = r := drain_zero hr
    have h₂ : atBuffers [] r = r := by
      rw [atBuffers,h₁]
      exact drain_zero hr
    have hpos := List.length_pos_of_ne_nil hdata
    rw [write_pass hr [] hdata,h₁,h₂]
    split_ifs with hz hfit hfit
    · omega
    · simp [hz,append_nil hr]
    · rw [List.drop_of_length_le hfit,List.tail_nil,Sink.write,if_pos rfl]
    · have hle := hr.tail_le
      have hd := hr.unread_le
      have hrest : data.drop r.room ≠ [] := by simpa [List.drop_eq_nil_iff] using hfit
      have hlen : (data.take r.room).length ≤ r.room := List.length_take_le _ _
      have hlt' : r.head+(data.take r.room).length < 2^64 := by
        rw [room] at hlen ⊢
        omega
      have hw := append_wrote hr hlen hlt'
      have hfull : (r.append (data.take r.room)).room = 0 := by
        rw [room,append_take_room hr hlt' hrest,append_capacity,Nat.sub_self]
      rw [List.tail_nil,write_pass hw.valid [] hrest,if_pos]
      · rw [atIsFull,List.headD_nil,drain_zero hw.valid]
      · rw [atIsFull,List.headD_nil,drain_zero hw.valid,hfull]

/-- Over a ring that the producer has just filled, `m` more bytes find space: before
each further `isFull` the consumer releases something, until the releases add up. -/
def SpaceArrives (capacity : ℕ) (ds : List Released) (m : ℕ) : Prop :=
  ∃ k, (∀ d ∈ ds.take k, 0 < d.beforeIsFull) ∧
    m ≤ ((ds.take k).map fun d => min (d.beforeIsFull+d.beforeBuffers) capacity).sum

theorem spaceArrives_zero (capacity : ℕ) (ds : List Released) : SpaceArrives capacity ds 0 :=
  ⟨0,by simp,Nat.zero_le _⟩

theorem spaceArrives_nil (capacity m : ℕ) : SpaceArrives capacity [] m ↔ m = 0 := by
  simp [SpaceArrives]

theorem spaceArrives_cons (capacity m : ℕ) (d : Released) (ds : List Released) :
    SpaceArrives capacity (d::ds) m ↔ m = 0 ∨
      0 < d.beforeIsFull ∧ SpaceArrives capacity ds (m-min (d.beforeIsFull+d.beforeBuffers) capacity) := by
  constructor
  · rintro ⟨k,hpos,hsum⟩
    cases k with
    | zero => exact Or.inl (by simpa using hsum)
    | succ k =>
      simp only [List.take_succ_cons,List.map_cons,List.sum_cons] at hpos hsum
      refine Or.inr ⟨hpos d (by simp),k,fun e he => hpos e (by simp [he]),?_⟩
      omega
  · rintro (rfl | ⟨hd,k,hpos,hsum⟩)
    · exact spaceArrives_zero _ _
    · refine ⟨k+1,?_,?_⟩
      · intro e he
        rw [List.take_succ_cons] at he
        rcases List.mem_cons.mp he with rfl | he
        · exact hd
        · exact hpos e he
      · simp only [List.take_succ_cons,List.map_cons,List.sum_cons]
        omega

theorem write_done_of_full {r : BodyRingDescriptor} (hr : r.Valid) (ds : List Released) (data : List UInt8)
    (hlt : r.head+data.length < 2^64) (hfull : data ≠ [] → r.head-r.tail = r.capacity) :
    (Sink.write ds r data).2 = .done ↔ SpaceArrives r.capacity ds data.length := by
  induction ds generalizing r data with
  | nil =>
    rw [spaceArrives_nil,List.length_eq_zero_iff]
    by_cases hdata : data = []
    · rw [Sink.write]
      simp [hdata]
    · have hz : (atIsFull [] r).room = 0 := by
        rw [atIsFull_room hr]
        simp [hfull hdata]
      rw [write_pass hr [] hdata,if_pos hz]
      simp [hdata]
  | cons d ds ih =>
    by_cases hdata : data = []
    · rw [Sink.write]
      simp [hdata,spaceArrives_zero]
    · have hlen := List.length_pos_of_ne_nil hdata
      have hcap := hr.capacity_pos
      have hroom₁ : (atIsFull (d::ds) r).room = min d.beforeIsFull r.capacity := by
        rw [atIsFull_room hr,hfull hdata,List.headD_cons]
        omega
      have hroom₂ : (atBuffers (d::ds) r).room = min (d.beforeIsFull+d.beforeBuffers) r.capacity := by
        rw [atBuffers_room hr,hfull hdata,List.headD_cons]
        omega
      rw [write_pass hr _ hdata,spaceArrives_cons,hroom₁]
      split_ifs with hz
      · have hnone : d.beforeIsFull = 0 := by omega
        simp only [hnone,Nat.lt_irrefl,false_and,or_false]
        simp [hdata]
      · have hb := atBuffers_wrote hr (d::ds)
        have hhead := hb.head_eq
        simp only [List.length_nil,Nat.add_zero] at hhead
        obtain ⟨hw,hlt'⟩ := pass_wrote hr (d::ds) hlt
        have hstep := ih hw.valid (data.drop (atBuffers (d::ds) r).room) hlt'
          (fun hrest => append_take_room hb.valid (by rw [List.length_take]; omega) hrest)
        rw [List.tail_cons,hstep,append_capacity,hb.capacity_eq,List.length_drop,hroom₂]
        have hsome : 0 < d.beforeIsFull := by omega
        have hne : data.length ≠ 0 := by omega
        simp [hsome,hne]

/-- The contract of a retryable append. `done`: the ring holds its old content
followed by exactly `data`, less what the consumer released meanwhile. `full`: no
byte was committed, so that waiting for the consumer and writing `data` again
delivers it once. -/
def AllOrNothing (ds : List Released) (r : BodyRingDescriptor) (data : List UInt8) : Prop :=
  match Sink.write ds r data with
  | (r',.done) => r'.unread = (r.unread++data).drop (r'.tail-r.tail)
  | (r',.full) => r'.head = r.head ∧ r'.unread = r.unread.drop (r'.tail-r.tail) ∧
      ∀ wait ds' r'',Sink.write ds' (drain r' wait) data = (r'',.done) →
        r''.unread = (r.unread++data).drop (r''.tail-r.tail)
  | (_,.trapped) => False

theorem write_done_iff {r : BodyRingDescriptor} (hr : r.Valid) (ds : List Released) {data : List UInt8}
    (hlt : r.head+data.length < 2^64) (hdata : data ≠ []) :
    (Sink.write ds r data).2 = .done ↔ (atIsFull ds r).room ≠ 0 ∧
      SpaceArrives r.capacity ds.tail (data.length-(atBuffers ds r).room) := by
  rw [write_pass hr ds hdata]
  split_ifs with hz
  · simp [hz]
  · have hb := atBuffers_wrote hr ds
    have hhead := hb.head_eq
    simp only [List.length_nil,Nat.add_zero] at hhead
    obtain ⟨hw,hlt'⟩ := pass_wrote hr ds hlt
    rw [write_done_of_full hw.valid ds.tail _ hlt'
      (fun hrest => append_take_room hb.valid (by rw [List.length_take]; omega) hrest),
      append_capacity,hb.capacity_eq,List.length_drop]
    simp [hz]

/-- A call that finds room on its first pass commits at least one byte. -/
theorem write_moves_head {r : BodyRingDescriptor} (hr : r.Valid) (ds : List Released) {data : List UInt8}
    (hlt : r.head+data.length < 2^64) (hdata : data ≠ []) (hroom : (atIsFull ds r).room ≠ 0) :
    r.head < (Sink.write ds r data).1.head := by
  have hpos := List.length_pos_of_ne_nil hdata
  have hmore := atIsFull_room_le hr ds
  obtain ⟨hw,hlt'⟩ := pass_wrote hr ds hlt
  obtain ⟨sent,rest,-,hs,-⟩ := write_spec hw.valid ds.tail hlt'
  rw [write_pass hr ds hdata,if_neg hroom,hs.head_eq,hw.head_eq,List.length_take]
  omega

/-- A refused write that committed nothing may be repeated. -/
theorem write_retry {r r' r'' : BodyRingDescriptor} (hr : r.Valid) {data : List UInt8}
    (hlt : r.head+data.length < 2^64) (h : Wrote r r' []) (wait : ℕ) (ds : List Released)
    (hw : Sink.write ds (drain r' wait) data = (r'',.done)) :
    r''.unread = (r.unread++data).drop (r''.tail-r.tail) := by
  have hd := h.trans hr (drain_wrote h.valid wait)
  have hhead := hd.head_eq
  simp only [List.append_nil,List.length_nil,Nat.add_zero] at hhead
  have hlt' : (drain r' wait).head+data.length < 2^64 := by omega
  obtain ⟨sent,rest,hsplit,hs,hstatus⟩ := write_spec hd.valid ds hlt'
  rw [hw] at hs hstatus
  rcases hstatus with ⟨rfl,-⟩ | ⟨-,hbad⟩
  · have hall := hd.trans hr hs
    simpa [hsplit] using hall.unread_eq
  · cases hbad

/-- `Sink.write` keeps the contract exactly when its first look at the ring already
finds it full, or the room it finds on the first pass together with what the
consumer releases before every later pass takes all of the data. -/
theorem write_allOrNothing_iff (r : BodyRingDescriptor) (hr : r.Valid) (ds : List Released)
    (data : List UInt8) (hlt : r.head+data.length < 2^64) :
    AllOrNothing ds r data ↔ (atIsFull ds r).room = 0 ∨
      SpaceArrives r.capacity ds.tail (data.length-(atBuffers ds r).room) := by
  by_cases hdata : data = []
  · subst hdata
    have hdone : Sink.write ds r [] = (r,.done) := by rw [Sink.write,if_pos rfl]
    simp [AllOrNothing,hdone,spaceArrives_zero]
  · have hdone := write_done_iff hr ds hlt hdata
    obtain ⟨sent,rest,hsplit,hs,hstatus⟩ := write_spec hr ds hlt
    rcases hw : Sink.write ds r data with ⟨r',status⟩
    rw [hw] at hdone hs hstatus
    simp only [AllOrNothing,hw]
    rcases hstatus with ⟨rfl,hst⟩ | ⟨hrest,hst⟩
    · simp only at hst
      subst hst
      have hsent : data = sent := by simpa using hsplit
      simp only [true_iff] at hdone
      simp only [hdone.2,or_true,iff_true]
      rw [hsent]
      exact hs.unread_eq
    · simp only at hst
      subst hst
      by_cases hz : (atIsFull ds r).room = 0
      · rw [write_pass hr ds hdata,if_pos hz] at hw
        obtain ⟨rfl,-⟩ := Prod.mk.inj hw
        have hnone := atIsFull_wrote hr ds
        simp only [hz,true_or,iff_true]
        refine ⟨hnone.head_eq,?_,fun wait ds' r'' => write_retry hr hlt hnone wait ds'⟩
        simpa using hnone.unread_eq
      · have hmoved := write_moves_head hr ds hlt hdata hz
        rw [hw] at hmoved
        have hnot : ¬SpaceArrives r.capacity ds.tail (data.length-(atBuffers ds r).room) :=
          fun hspace => WriteStatus.noConfusion (hdone.mpr ⟨hz,hspace⟩)
        simp only [hz,hnot,or_self,iff_false]
        intro hkeep
        exact hmoved.ne' hkeep.1

/-- Two bytes into an empty ring of four. -/
theorem write_allOrNothing_iff_fits :
    AllOrNothing [] (.init (fun _ => 0) 4) [7,8] :=
  (write_allOrNothing_iff (.init (fun _ => 0) 4) ⟨by decide,by decide,by decide,by decide⟩ [] [7,8]
    (by decide)).mpr (Or.inr (spaceArrives_zero 4 []))

/-- Six bytes into an empty ring of four, with no release by the consumer: the call
reports `Full` after it committed four bytes. -/
theorem write_allOrNothing_fails : ¬AllOrNothing [] (.init (fun _ => 0) 4) [1,2,3,4,5,6] := by
  have hstatus : (Sink.write [] (.init (fun _ => 0) 4) [1,2,3,4,5,6]).2 = .full := by decide +kernel
  have hhead : (Sink.write [] (.init (fun _ => 0) 4) [1,2,3,4,5,6]).1.head = 4 := by decide +kernel
  rw [AllOrNothing]
  rcases hw : Sink.write [] (.init (fun _ => 0) 4) [1,2,3,4,5,6] with ⟨r',status⟩
  rw [hw] at hstatus hhead
  simp only at hstatus hhead
  subst hstatus
  intro hkeep
  rw [hkeep.1] at hhead
  exact absurd hhead (by decide)

end ZNet.CompressionSink
