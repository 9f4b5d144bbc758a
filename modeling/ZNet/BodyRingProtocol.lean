import ZNet.CompressionSink
import Mathlib.Logic.Relation

/-!
# One producer and one consumer on the body ring

Every load of a counter, every byte copied and every `fetchAdd` is a step of its
own, and the steps of the two sides interleave freely. The producer runs
`Sink.write` and the ring branch of `net_read` in any order. The consumer reads
bytes behind the `head` it loaded last and releases what it has read.
`committed` and `consumed` record the bytes that passed each end.
-/

namespace ZNet.BodyRingProtocol
open CircularWindow BodyRing BodyRingDescriptor CompressionSink

/-- The call that a copy belongs to; `rest` is the data the pass started with. -/
inductive Call
  | sinkWrite (rest : List UInt8)
  | netRead

/-- Control points of the producer. A point named after a load is just before it
and carries what the same function loaded earlier. -/
inductive Producer
  | idle
  | isFullHead (rest : List UInt8)
  | isFullTail (rest : List UInt8) (head : ℕ)
  | buffersHead (rest : List UInt8)
  | buffersTail (rest : List UInt8) (head : ℕ)
  | readHead
  | readTail (head : ℕ)
  | readVectored (bufs : List IndexRange)
  | copying (call : Call) (copied : List UInt8) (todo : List (ℕ×UInt8))
  | watermarkHead
  | watermarkTail (head : ℕ)
  | trapped

structure System where
  ring : BodyRingDescriptor
  producer : Producer
  seen : ℕ
  got : List UInt8
  committed : List UInt8
  consumed : List UInt8

def System.start (ptr : ℕ → UInt8) (capacity : ℕ) : System :=
  ⟨.init ptr capacity,.idle,0,[],[],[]⟩

/-- `Sink.write` between `isFull` and `getWriteBuffers`. -/
def afterIsFull (capacity head tail : ℕ) (rest : List UInt8) : Producer :=
  match availableWriteAt capacity head tail with
  | none => .trapped
  | some 0 => .idle
  | some _ => .buffersHead rest

/-- `Sink.write` between `getWriteBuffers` and its first copy. -/
def afterBuffers (capacity head tail : ℕ) (rest : List UInt8) : Producer :=
  match writeBuffersAt capacity head tail with
  | none => .trapped
  | some (b₀,b₁) =>
    if (copies [b₀,b₁] rest).length = 0 then .idle
    else .copying (.sinkWrite rest) [] (copies [b₀,b₁] rest)

/-- `net_read` between its loads and `read_vectored`. -/
def afterReadTail (capacity head tail : ℕ) : Producer :=
  match readIovecsAt capacity head tail with
  | none => .idle
  | some bufs => .readVectored bufs

/-- Control after `n` bytes were committed. -/
def Call.afterCommit (n : ℕ) : Call → Producer
  | .sinkWrite rest => if rest.drop n = [] then .idle else .isFullHead (rest.drop n)
  | .netRead => .watermarkHead

inductive Step : System → System → Prop
  | startWrite {s} (data : List UInt8) (hp : s.producer = .idle) (hdata : data ≠ []) :
      Step s { s with producer := .isFullHead data }
  | startRead {s} (hp : s.producer = .idle) : Step s { s with producer := .readHead }
  | isFullHead {s rest} (hp : s.producer = .isFullHead rest) :
      Step s { s with producer := .isFullTail rest s.ring.head }
  | isFullTail {s rest head} (hp : s.producer = .isFullTail rest head) :
      Step s { s with producer := afterIsFull s.ring.capacity head s.ring.tail rest }
  | buffersHead {s rest} (hp : s.producer = .buffersHead rest) :
      Step s { s with producer := .buffersTail rest s.ring.head }
  | buffersTail {s rest head} (hp : s.producer = .buffersTail rest head) :
      Step s { s with producer := afterBuffers s.ring.capacity head s.ring.tail rest }
  | readHead {s} (hp : s.producer = .readHead) : Step s { s with producer := .readTail s.ring.head }
  | readTail {s head} (hp : s.producer = .readTail head) :
      Step s { s with producer := afterReadTail s.ring.capacity head s.ring.tail }
  | readVectored {s bufs} (received : List UInt8) (hp : s.producer = .readVectored bufs)
      (hpos : received ≠ []) (hlen : received.length ≤ (bufs.map IndexRange.len).sum) :
      Step s { s with producer := .copying .netRead [] ((bufs.flatMap IndexRange.indices).zip received) }
  | readFails {s bufs} (hp : s.producer = .readVectored bufs) : Step s { s with producer := .idle }
  | copy {s call copied i b todo} (hp : s.producer = .copying call copied ((i,b)::todo)) :
      Step s { s with ring := s.ring.put i b, producer := .copying call (copied++[b]) todo }
  | commit {s call copied} (hp : s.producer = .copying call copied []) :
      Step s { s with
        ring := s.ring.commitWrite copied.length
        producer := call.afterCommit copied.length
        committed := s.committed++copied }
  | watermarkHead {s} (hp : s.producer = .watermarkHead) :
      Step s { s with producer := .watermarkTail s.ring.head }
  | watermarkTail {s head} (hp : s.producer = .watermarkTail head) : Step s { s with producer := .idle }
  | loadHead {s} : Step s { s with seen := s.ring.head }
  | readByte {s} (hs : s.ring.tail+s.got.length < s.seen) :
      Step s { s with got := s.got++[s.ring.buffer ((s.ring.tail+s.got.length)%s.ring.capacity)] }
  | release {s} (k : ℕ) (hk : k ≤ s.got.length) :
      Step s { s with
        ring := s.ring.release k
        got := s.got.drop k
        consumed := s.consumed++s.got.take k }

/-- States of any interleaving that starts from a fresh descriptor. -/
def Reachable (ptr : ℕ → UInt8) (capacity : ℕ) : System → Prop :=
  Relation.ReflTransGen Step (System.start ptr capacity)

/-- What each control point knows about the ring. -/
def Producer.Ok (r : BodyRingDescriptor) : Producer → Prop
  | .isFullTail _ head => head = r.head
  | .buffersTail _ head => head = r.head
  | .readTail head => head = r.head
  | .readVectored bufs => ∃ n, bufs.flatMap IndexRange.indices = slots r.capacity r.head n ∧ n ≤ r.room
  | .copying call copied todo => ∃ n left,
      todo = (slots r.capacity (r.head+copied.length) n).zip left ∧ left.length ≤ n ∧
      copied.length+left.length ≤ r.room ∧ contents r.capacity r.buffer r.head copied.length = copied ∧
      ∀ rest, call = .sinkWrite rest → copied++left <+: rest
  | .trapped => False
  | _ => True

structure Inv (s : System) : Prop where
  valid : s.ring.Valid
  head_eq : s.ring.head = s.committed.length
  tail_eq : s.ring.tail = s.consumed.length
  history : s.committed = s.consumed++s.ring.unread
  got_prefix : s.got <+: s.ring.unread
  seen_le : s.seen ≤ s.ring.head
  producer_ok : s.producer.Ok s.ring

theorem inv_start (ptr : ℕ → UInt8) {capacity : ℕ} (hcap : 0 < capacity) :
    Inv (System.start ptr capacity) :=
  ⟨⟨hcap,le_rfl,Nat.zero_le _,Nat.two_pow_pos 64⟩,rfl,rfl,rfl,List.nil_prefix,le_rfl,trivial⟩

theorem Inv.committed_lt {s : System} (h : Inv s) : s.committed.length < 2^64 := h.head_eq ▸ h.valid.head_lt

theorem Inv.with_producer {s : System} (h : Inv s) {p : Producer} (hp : p.Ok s.ring) :
    Inv { s with producer := p } :=
  ⟨h.valid,h.head_eq,h.tail_eq,h.history,h.got_prefix,h.seen_le,hp⟩

theorem afterIsFull_ok {r : BodyRingDescriptor} (hr : r.Valid) (rest : List UInt8) :
    (afterIsFull r.capacity r.head r.tail rest).Ok r := by
  rw [afterIsFull,availableWriteAt_eq hr.tail_le hr.unread_le]
  cases r.capacity-(r.head-r.tail) <;> trivial

theorem afterBuffers_ok {r : BodyRingDescriptor} (hr : r.Valid) (rest : List UInt8) :
    (afterBuffers r.capacity r.head r.tail rest).Ok r := by
  obtain ⟨b₀,b₁,hb,hz⟩ := copies_getWriteBuffers hr rest
  rw [getWriteBuffers] at hb
  simp only [afterBuffers,hb]
  split_ifs
  · trivial
  · refine ⟨r.room,rest.take r.room,hz,List.length_take_le _ _,?_,rfl,?_⟩
    · simp
    · intro rest' hrest
      cases hrest
      exact List.take_prefix _ _

theorem afterReadTail_ok {r : BodyRingDescriptor} (hr : r.Valid) :
    (afterReadTail r.capacity r.head r.tail).Ok r := by
  rw [afterReadTail]
  cases hio : readIovecsAt r.capacity r.head r.tail with
  | none => trivial
  | some bufs => exact ⟨r.room,hr.readIovecsAt_indices hio,le_rfl⟩

theorem readVectored_ok {r : BodyRingDescriptor} {bufs : List IndexRange}
    (h : (Producer.readVectored bufs).Ok r) {received : List UInt8}
    (hlen : received.length ≤ (bufs.map IndexRange.len).sum) :
    (Producer.copying .netRead [] ((bufs.flatMap IndexRange.indices).zip received)).Ok r := by
  obtain ⟨n,hidx,hn⟩ := h
  have hsum : (bufs.map IndexRange.len).sum = n := by
    rw [IndexRange.sum_len,hidx,length_slots]
  refine ⟨n,received,?_,by omega,?_,rfl,?_⟩
  · rw [hidx]
    rfl
  · simp only [List.length_nil]
    omega
  · intro rest hrest
    cases hrest

/-- The bytes copied so far follow the unread ones in memory. -/
theorem contents_copied {r : BodyRingDescriptor} (hr : r.Valid) {copied : List UInt8}
    (h : contents r.capacity r.buffer r.head copied.length = copied) :
    contents r.capacity r.buffer r.tail (r.head-r.tail+copied.length) = r.unread++copied := by
  have hpos : r.tail+(r.head-r.tail) = r.head := Nat.add_sub_of_le hr.tail_le
  rw [contents_add,hpos,h]
  rfl

/-- A copied byte extends the copied part and leaves the unread bytes alone. -/
theorem put_copied {r : BodyRingDescriptor} (hr : r.Valid) {copied : List UInt8} (b : UInt8)
    (hroom : copied.length < r.room) (h : contents r.capacity r.buffer r.head copied.length = copied) :
    (r.put ((r.head+copied.length)%r.capacity) b).unread = r.unread ∧
      contents r.capacity (r.put ((r.head+copied.length)%r.capacity) b).buffer r.head (copied.length+1) =
        copied++[b] := by
  have hle := hr.tail_le
  have hpos : r.tail+(r.head-r.tail) = r.head := Nat.add_sub_of_le hle
  have hfit : r.head-r.tail+copied.length < r.capacity := by
    rw [room] at hroom
    omega
  have hu := contents_update r.buffer r.tail b hfit
  rw [contents_copied hr h,← Nat.add_assoc r.tail,hpos,Nat.add_assoc,contents_add,hpos,
    List.append_assoc] at hu
  exact List.append_inj hu (by simp [unread])

/-- The next byte of a copy goes to the first free slot after the copied ones. -/
theorem Producer.Ok.pending {r : BodyRingDescriptor} {call : Call} {copied : List UInt8} {i : ℕ} {b : UInt8}
    {todo : List (ℕ×UInt8)} (h : (Producer.copying call copied ((i,b)::todo)).Ok r) :
    i = (r.head+copied.length)%r.capacity ∧ contents r.capacity r.buffer r.head copied.length = copied ∧
      ∃ n left, todo = (slots r.capacity (r.head+copied.length+1) n).zip left ∧ left.length ≤ n ∧
        copied.length+1+left.length ≤ r.room ∧ ∀ rest, call = .sinkWrite rest → copied++b::left <+: rest := by
  obtain ⟨n,left,htodo,hn,hroom,hcopied,hdata⟩ := h
  cases n with
  | zero => simp at htodo
  | succ n =>
    cases left with
    | nil => simp at htodo
    | cons c left =>
      rw [slots_succ,List.zip_cons_cons] at htodo
      obtain ⟨hib,rfl⟩ := List.cons.inj htodo
      obtain ⟨rfl,rfl⟩ := Prod.mk.inj hib
      simp only [List.length_cons] at hn hroom
      exact ⟨rfl,hcopied,n,left,rfl,by omega,by omega,hdata⟩

theorem Inv.copy {s : System} (h : Inv s) {call : Call} {copied : List UInt8} {i : ℕ} {b : UInt8}
    {todo : List (ℕ×UInt8)} (hp : s.producer = .copying call copied ((i,b)::todo)) :
    Inv { s with ring := s.ring.put i b, producer := .copying call (copied++[b]) todo } := by
  have hok := h.producer_ok
  rw [hp] at hok
  obtain ⟨rfl,hcopied,n,left,htodo,hn,hroom,hdata⟩ := hok.pending
  obtain ⟨hunread,hnext⟩ := put_copied h.valid b (by omega) hcopied
  have hv := h.valid
  refine ⟨⟨hv.capacity_pos,hv.tail_le,hv.unread_le,hv.head_lt⟩,h.head_eq,h.tail_eq,?_,?_,h.seen_le,?_⟩
  · rw [hunread]
    exact h.history
  · rw [hunread]
    exact h.got_prefix
  · refine ⟨n,left,?_,hn,?_,?_,?_⟩
    · simpa [Nat.add_assoc] using htodo
    · rw [List.length_append,List.length_singleton]
      exact hroom
    · simpa using hnext
    · intro rest hrest
      simpa using hdata rest hrest

theorem Inv.commit {s : System} (h : Inv s) {call : Call} {copied : List UInt8}
    (hp : s.producer = .copying call copied []) (hlt : (s.committed++copied).length < 2^64) :
    Inv { s with
      ring := s.ring.commitWrite copied.length
      producer := call.afterCommit copied.length
      committed := s.committed++copied } := by
  have hok := h.producer_ok
  rw [hp] at hok
  obtain ⟨n,left,-,-,hroom,hcopied,-⟩ := hok
  have hv := h.valid
  have hle := hv.tail_le
  have hd := hv.unread_le
  have hhead := h.head_eq
  have hseen := h.seen_le
  rw [room] at hroom
  rw [List.length_append] at hlt
  have hnew : (s.ring.commitWrite copied.length).head = s.ring.head+copied.length :=
    Nat.mod_eq_of_lt (by omega)
  have hunread : (s.ring.commitWrite copied.length).unread = s.ring.unread++copied := by
    have hn : s.ring.head+copied.length-s.ring.tail = s.ring.head-s.ring.tail+copied.length := by omega
    rw [← contents_copied hv hcopied,← hn,← hnew]
    rfl
  refine ⟨⟨hv.capacity_pos,?_,?_,?_⟩,?_,h.tail_eq,?_,?_,?_,?_⟩
  · rw [hnew]
    change s.ring.tail ≤ _
    omega
  · rw [hnew]
    change s.ring.head+copied.length-s.ring.tail ≤ s.ring.capacity
    omega
  · rw [hnew]
    omega
  · simp only [hnew,List.length_append,hhead]
  · simp only [hunread]
    rw [h.history,List.append_assoc]
  · simp only [hunread]
    exact h.got_prefix.trans (List.prefix_append _ _)
  · simp only [hnew]
    omega
  · cases call with
    | sinkWrite rest =>
      simp only [Call.afterCommit]
      split_ifs <;> trivial
    | netRead => trivial

theorem Producer.Ok.release {r : BodyRingDescriptor} {p : Producer} (h : p.Ok r) {k : ℕ}
    (htail : (r.release k).tail = r.tail+k) : p.Ok (r.release k) := by
  have hroom : r.room ≤ (r.release k).room := by
    rw [room,room,htail]
    change r.capacity-(r.head-r.tail) ≤ r.capacity-(r.head-(r.tail+k))
    omega
  cases p with
  | readVectored bufs =>
    obtain ⟨n,hidx,hn⟩ := h
    exact ⟨n,hidx,hn.trans hroom⟩
  | copying call copied todo =>
    obtain ⟨n,left,htodo,hn,hfit,hcopied,hdata⟩ := h
    exact ⟨n,left,htodo,hn,hfit.trans hroom,hcopied,hdata⟩
  | _ => exact h

theorem Inv.release {s : System} (h : Inv s) {k : ℕ} (hk : k ≤ s.got.length) :
    Inv { s with
      ring := s.ring.release k
      got := s.got.drop k
      consumed := s.consumed++s.got.take k } := by
  have hv := h.valid
  have hle := hv.tail_le
  have hd := hv.unread_le
  have hlt := hv.head_lt
  have hgot := h.got_prefix.length_le
  rw [hv.length_unread] at hgot
  have htail : (s.ring.release k).tail = s.ring.tail+k := Nat.mod_eq_of_lt (by omega)
  have hunread : (s.ring.release k).unread = s.ring.unread.drop k := by
    have hdrop := contents_drop s.ring.capacity s.ring.buffer s.ring.tail (show k ≤ s.ring.head-s.ring.tail by omega)
    rw [Nat.sub_sub,← htail] at hdrop
    exact hdrop
  have htake : s.got.take k = s.ring.unread.take k := by
    obtain ⟨more,hmore⟩ := h.got_prefix
    rw [← hmore,List.take_append_of_le_length hk]
  refine ⟨⟨hv.capacity_pos,?_,?_,hlt⟩,h.head_eq,?_,?_,?_,h.seen_le,h.producer_ok.release htail⟩
  · rw [htail]
    change _ ≤ s.ring.head
    omega
  · rw [htail]
    change s.ring.head-(s.ring.tail+k) ≤ s.ring.capacity
    omega
  · simp only [htail,List.length_append,List.length_take,h.tail_eq]
    omega
  · simp only [hunread,htake]
    rw [List.append_assoc,List.take_append_drop]
    exact h.history
  · simp only [hunread]
    exact h.got_prefix.drop k

theorem Inv.readByte {s : System} (h : Inv s) (hs : s.ring.tail+s.got.length < s.seen) :
    Inv { s with got := s.got++[s.ring.buffer ((s.ring.tail+s.got.length)%s.ring.capacity)] } := by
  refine ⟨h.valid,h.head_eq,h.tail_eq,h.history,?_,h.seen_le,h.producer_ok⟩
  have hseen := h.seen_le
  obtain ⟨more,hmore⟩ := h.got_prefix
  have hbyte := contents_getElem? s.ring.capacity s.ring.buffer s.ring.tail
    (show s.got.length < s.ring.head-s.ring.tail by omega)
  change s.ring.unread[s.got.length]? = _ at hbyte
  rw [← hmore,List.getElem?_append_right le_rfl,Nat.sub_self] at hbyte
  cases more with
  | nil => simp at hbyte
  | cons c rest =>
    rw [List.getElem?_cons_zero,Option.some.injEq] at hbyte
    exact ⟨rest,by simp [← hmore,← hbyte]⟩

theorem Step.committed_le {s t : System} (h : Step s t) : s.committed.length ≤ t.committed.length := by
  cases h <;> simp

/-- One step of either side keeps the invariant, as long as the counter has not wrapped. -/
theorem inv_step {s t : System} (h : Inv s) (hst : Step s t) (hlt : t.committed.length < 2^64) : Inv t := by
  have hok := h.producer_ok
  cases hst with
  | startWrite data hp hdata => exact h.with_producer trivial
  | startRead hp => exact h.with_producer trivial
  | isFullHead hp => exact h.with_producer rfl
  | isFullTail hp =>
    rw [hp] at hok
    cases hok
    exact h.with_producer (afterIsFull_ok h.valid _)
  | buffersHead hp => exact h.with_producer rfl
  | buffersTail hp =>
    rw [hp] at hok
    cases hok
    exact h.with_producer (afterBuffers_ok h.valid _)
  | readHead hp => exact h.with_producer rfl
  | readTail hp =>
    rw [hp] at hok
    cases hok
    exact h.with_producer (afterReadTail_ok h.valid)
  | readVectored received hp hpos hlen =>
    rw [hp] at hok
    exact h.with_producer (readVectored_ok hok hlen)
  | readFails hp => exact h.with_producer trivial
  | copy hp => exact h.copy hp
  | commit hp => exact h.commit hp hlt
  | watermarkHead hp => exact h.with_producer trivial
  | watermarkTail hp => exact h.with_producer trivial
  | loadHead => exact ⟨h.valid,h.head_eq,h.tail_eq,h.history,h.got_prefix,le_rfl,h.producer_ok⟩
  | readByte hs => exact h.readByte hs
  | release k hk => exact h.release hk

theorem inv_run {s t : System} (h : Inv s) (hrun : Relation.ReflTransGen Step s t)
    (hlt : t.committed.length < 2^64) : Inv t := by
  induction hrun with
  | refl => exact h
  | tail _ hst ih => exact inv_step (ih (hst.committed_le.trans_lt hlt)) hst hlt

theorem inv_reachable {ptr : ℕ → UInt8} {capacity : ℕ} (hcap : 0 < capacity) {s : System}
    (hs : Reachable ptr capacity s) (hlt : s.committed.length < 2^64) : Inv s :=
  inv_run (inv_start ptr hcap) hs hlt

theorem Step.capacity_eq {s t : System} (h : Step s t) : t.ring.capacity = s.ring.capacity := by
  cases h <;> rfl

theorem capacity_reachable {ptr : ℕ → UInt8} {capacity : ℕ} {s : System} (hs : Reachable ptr capacity s) :
    s.ring.capacity = capacity := by
  induction hs with
  | refl => rfl
  | tail _ hst ih => rw [hst.capacity_eq,ih]

/-- The slot of a pending copy lies in the memory and holds no unread byte. -/
theorem Inv.copy_slot {s : System} (h : Inv s) {call : Call} {copied : List UInt8} {i : ℕ} {b : UInt8}
    {todo : List (ℕ×UInt8)} (hp : s.producer = .copying call copied ((i,b)::todo)) :
    i < s.ring.capacity ∧ ∀ k, s.ring.tail ≤ k → k < s.ring.head → k%s.ring.capacity ≠ i := by
  have hok := h.producer_ok
  rw [hp] at hok
  obtain ⟨rfl,-,n,left,-,-,hroom,-⟩ := hok.pending
  have hd := h.valid.unread_le
  rw [room] at hroom
  refine ⟨Nat.mod_lt _ h.valid.capacity_pos,fun k htail hhead => ?_⟩
  exact mod_ne_mod_of_lt (by omega) (by omega)

/-- The body ring is a lossless FIFO between one producer and one consumer. In
every reachable state the counters bound at most `capacity` unread bytes, no
pending copy touches an unread byte, a commit of `Sink.write` carries the next
bytes of its data, and what the consumer has read is the beginning of what the
producer has committed, the rest of which is still in the memory. -/
theorem ring_fifo (ptr : ℕ → UInt8) (capacity : ℕ) (hcap : 0 < capacity) (s : System)
    (hs : Reachable ptr capacity s) (hbytes : s.committed.length < 2^64) :
    s.ring.tail ≤ s.ring.head ∧ s.ring.head-s.ring.tail ≤ capacity ∧ s.producer ≠ .trapped ∧
    (∀ call copied i b todo, s.producer = .copying call copied ((i,b)::todo) →
      i < capacity ∧ ∀ k, s.ring.tail ≤ k → k < s.ring.head → k%capacity ≠ i) ∧
    (∀ rest copied, s.producer = .copying (.sinkWrite rest) copied [] → copied <+: rest) ∧
    s.ring.head = s.committed.length ∧ s.consumed = s.committed.take s.ring.tail ∧
    s.consumed++s.got <+: s.committed ∧
    ∀ k, s.ring.tail ≤ k → k < s.ring.head → s.committed[k]? = some (s.ring.buffer (k%capacity)) := by
  have h := inv_reachable hcap hs hbytes
  have hc := capacity_reachable hs
  have hok := h.producer_ok
  refine ⟨h.valid.tail_le,hc ▸ h.valid.unread_le,?_,?_,?_,h.head_eq,?_,?_,?_⟩
  · intro hp
    rw [hp] at hok
    exact hok
  · intro call copied i b todo hp
    rw [← hc]
    exact h.copy_slot hp
  · intro rest copied hp
    rw [hp] at hok
    obtain ⟨n,left,-,-,-,-,hdata⟩ := hok
    exact (List.prefix_append copied left).trans (hdata rest rfl)
  · rw [h.history,h.tail_eq,List.take_left]
  · rw [h.history]
    exact (List.prefix_append_right_inj _).mpr h.got_prefix
  · intro k htail hhead
    have hbyte := contents_getElem? s.ring.capacity s.ring.buffer s.ring.tail
      (show k-s.ring.tail < s.ring.head-s.ring.tail by omega)
    rw [h.history,List.getElem?_append_right (h.tail_eq ▸ htail),← h.tail_eq]
    rw [Nat.add_sub_of_le htail,hc] at hbyte
    rw [← hbyte,← hc]
    rfl

/-- One byte written, read and released through a ring of two bytes. -/
theorem ring_fifo_oneByte : ∃ s, Reachable (fun _ => 0) 2 s ∧ s.consumed = [7] ∧ s.ring.tail = 1 ∧
    s.consumed = s.committed.take s.ring.tail := by
  have h₀ : Reachable (fun _ => 0) 2 (System.start (fun _ => 0) 2) := .refl
  have h₁ := h₀.tail (.startWrite [7] rfl (by simp))
  have h₂ := h₁.tail (.isFullHead rfl)
  have h₃ := h₂.tail (.isFullTail rfl)
  have h₄ := h₃.tail (.buffersHead rfl)
  have h₅ := h₄.tail (.buffersTail rfl)
  have h₆ := h₅.tail (.copy rfl)
  have h₇ := h₆.tail (.commit rfl)
  have h₈ := h₇.tail .loadHead
  have h₉ := h₈.tail (.readByte (by decide))
  have h := h₉.tail (.release 1 (by decide))
  exact ⟨_,h,rfl,rfl,(ring_fifo _ 2 (by decide) _ h (by decide)).2.2.2.2.2.2.1⟩

end ZNet.BodyRingProtocol
