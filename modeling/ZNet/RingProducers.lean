import ZNet.BodyRingProtocol
import ZNet.ZeroCopy

/-!
# The producers as runs of the protocol

`Sink.write` and the ring branch of `net_read` are functions of the ring in their own
modules, and sequences of loads, copies and `fetchAdd`s in the protocol. Every call of
the functions is a run of the protocol with the same effect on the ring, so that the
properties of all interleavings cover them.
-/

namespace ZNet.RingProducers
open CircularWindow BodyRing BodyRingDescriptor CompressionSink BodyRingProtocol Engine ZeroCopy Relation

variable {s : System}

/-- The consumer reads `n` more bytes. -/
theorem readBytes_run {n : ℕ} (hseen : s.seen = s.ring.head)
    (hn : s.ring.tail+s.got.length+n ≤ s.ring.head) :
    ∃ got, got.length = s.got.length+n ∧ ReflTransGen Step s { s with got := got } := by
  induction n with
  | zero => exact ⟨s.got,rfl,.refl⟩
  | succ n ih =>
    obtain ⟨got,hlen,hrun⟩ := ih (by omega)
    refine ⟨got++[s.ring.buffer ((s.ring.tail+got.length)%s.ring.capacity)],?_,?_⟩
    · rw [List.length_append,hlen,List.length_singleton,Nat.add_assoc]
    · apply hrun.tail
      have hlt : s.ring.tail+got.length < s.seen := by omega
      exact Step.readByte (s:={ s with got := got }) hlt

/-- The consumer loads `head`, reads what it is going to release, and releases it. -/
theorem drain_run (h : Inv s) (k : ℕ) :
    ∃ t, ReflTransGen Step s t ∧ t.ring = drain s.ring k ∧ t.producer = s.producer ∧ t.committed = s.committed := by
  have hle := h.valid.tail_le
  have hgot := h.got_prefix.length_le
  rw [h.valid.length_unread] at hgot
  obtain ⟨got,hlen,hrun⟩ := readBytes_run (s:={ s with seen := s.ring.head })
    (n:=min k (s.ring.head-s.ring.tail)-s.got.length) rfl (by simp only; omega)
  have hk : min k (s.ring.head-s.ring.tail) ≤ got.length := by
    simp only at hlen
    omega
  exact ⟨_,((ReflTransGen.single Step.loadHead).trans hrun).tail (Step.release _ hk),rfl,rfl,rfl⟩

theorem copy_run {call : BodyRingProtocol.Call} {copied : List UInt8} {todo : List (ℕ×UInt8)}
    (hp : s.producer = .copying call copied todo) :
    ReflTransGen Step s { s with
      ring := s.ring.putAll todo
      producer := .copying call (copied++todo.map Prod.snd) [] } := by
  induction todo generalizing s copied with
  | nil =>
    have hs : s = { s with ring := s.ring.putAll [], producer := .copying call (copied++[]) [] } := by
      rw [List.append_nil,← hp]
      rfl
    rw [List.map_nil,← hs]
  | cons w todo ih =>
    obtain ⟨i,b⟩ := w
    have hrest := ih (s:={ s with ring := s.ring.put i b, producer := .copying call (copied++[b]) todo }) rfl
    rw [List.append_assoc] at hrest
    exact (ReflTransGen.single (Step.copy hp)).trans hrest

/-- The copies of one call, and their commit. -/
theorem commit_run {call : BodyRingProtocol.Call} {todo : List (ℕ×UInt8)}
    (hp : s.producer = .copying call [] todo) :
    ReflTransGen Step s { s with
      ring := (s.ring.putAll todo).commitWrite todo.length
      producer := call.afterCommit todo.length
      committed := s.committed++todo.map Prod.snd } := by
  have hcommit := Step.commit (s:={ s with
      ring := s.ring.putAll todo
      producer := .copying call ([]++todo.map Prod.snd) [] }) rfl
  rw [List.nil_append,List.length_map] at hcommit
  exact (copy_run hp).tail hcommit

section SinkWrite

theorem afterIsFull_eq {r : BodyRingDescriptor} (hr : r.Valid) (rest : List UInt8) :
    afterIsFull r.capacity r.head r.tail rest = if r.room = 0 then .idle else .buffersHead rest := by
  rw [afterIsFull,availableWriteAt_eq hr.tail_le hr.unread_le,← room]
  cases r.room <;> rfl

theorem afterBuffers_eq {r : BodyRingDescriptor} (hr : r.Valid) {rest : List UInt8} (hroom : r.room ≠ 0)
    (hrest : rest ≠ []) :
    ∃ ws, afterBuffers r.capacity r.head r.tail rest = .copying (.sinkWrite rest) [] ws ∧
      ws.length = min r.room rest.length ∧ (r.putAll ws).commitWrite ws.length = r.append (rest.take r.room) := by
  obtain ⟨b₀,b₁,hb,hlen,hcommit⟩ := copies_commit hr rest
  refine ⟨_,?_,hlen,hcommit⟩
  have hpos := List.length_pos_of_ne_nil hrest
  rw [getWriteBuffers] at hb
  rw [afterBuffers,hb]
  simp only
  rw [if_neg (by omega)]

/-- The consumer releases `k` bytes between two loads of the producer. -/
theorem release_run {p : Producer} (h : Inv s) (hst : Step s { s with producer := p }) (k : ℕ) :
    ∃ t, ReflTransGen Step s t ∧ Inv t ∧ t.ring = drain s.ring k ∧ t.producer = p ∧ t.committed = s.committed := by
  obtain ⟨t,hrun,hring,hp,hcommitted⟩ := drain_run (inv_step h hst h.committed_lt) k
  have hall := (ReflTransGen.single hst).trans hrun
  refine ⟨t,hall,inv_run h hall ?_,hring,hp,hcommitted⟩
  rw [hcommitted]
  exact h.committed_lt

/-- One pass of `Sink.write`. -/
theorem pass_run (h : Inv s) (ds : List Released) {data : List UInt8} (hp : s.producer = .isFullHead data)
    (hdata : data ≠ []) (hlt : s.ring.head+data.length < 2^64) :
    ∃ t, ReflTransGen Step s t ∧ Inv t ∧
      if (atIsFull ds s.ring).room = 0 then t.producer = .idle ∧ t.ring = atIsFull ds s.ring
      else t.ring = (atBuffers ds s.ring).append (data.take (atBuffers ds s.ring).room) ∧
        t.producer = if data.drop (atBuffers ds s.ring).room = [] then .idle
          else .isFullHead (data.drop (atBuffers ds s.ring).room) := by
  obtain ⟨t₁,hrun₁,hinv₁,hring₁,hp₁,-⟩ := release_run h (Step.isFullHead hp) (ds.headD ⟨0,0⟩).beforeIsFull
  have hfull := Step.isFullTail hp₁
  have hhead₁ : s.ring.head = t₁.ring.head := by rw [hring₁,drain_head]
  rw [hhead₁,afterIsFull_eq hinv₁.valid] at hfull
  have hroom₁ : t₁.ring.room = (atIsFull ds s.ring).room := by rw [hring₁,atIsFull]
  by_cases hz : (atIsFull ds s.ring).room = 0
  · rw [if_pos (hroom₁.trans hz)] at hfull
    simp only [if_pos hz]
    exact ⟨_,hrun₁.tail hfull,inv_step hinv₁ hfull hinv₁.committed_lt,rfl,hring₁⟩
  · rw [if_neg (hroom₁ ▸ hz)] at hfull
    simp only [if_neg hz]
    have hinv₂ := inv_step hinv₁ hfull hinv₁.committed_lt
    obtain ⟨t₂,hrun₂,hinv₃,hring₂,hp₂,-⟩ := release_run hinv₂ (Step.buffersHead rfl) (ds.headD ⟨0,0⟩).beforeBuffers
    have hring : t₂.ring = atBuffers ds s.ring := by rw [hring₂,hring₁,atBuffers,atIsFull]
    have hbuffers := Step.buffersTail hp₂
    have hhead₂ : t₁.ring.head = t₂.ring.head := by rw [hring₂,drain_head]
    have hmore := atIsFull_room_le h.valid ds
    obtain ⟨ws,hws,hlen,hcommit⟩ := afterBuffers_eq hinv₃.valid (by rw [hring]; omega) hdata
    rw [hhead₂,hws] at hbuffers
    have hlast := commit_run (s:={ t₂ with producer := .copying (.sinkWrite data) [] ws }) rfl
    have hall := ((hrun₁.tail hfull).trans (hrun₂.tail hbuffers)).trans hlast
    have hdrop : data.drop ws.length = data.drop (atBuffers ds s.ring).room := by
      rw [hlen,hring,drop_min_length]
    refine ⟨_,hall,inv_run h hall ?_,?_,?_⟩
    · have htotal : t₂.committed.length = s.ring.head := by
        rw [← hinv₃.head_eq,← hhead₂,← hhead₁]
      simp only [List.length_append,List.length_map]
      omega
    · rw [← hring]
      exact hcommit
    · rw [← hdrop]
      rfl

/-- A call of `Sink.write`, with any releases by the consumer, is a run of the protocol
that leaves the ring as the function says. -/
theorem sinkWrite_run (h : Inv s) (ds : List Released) {data : List UInt8} (hp : s.producer = .isFullHead data)
    (hdata : data ≠ []) (hlt : s.ring.head+data.length < 2^64) :
    ∃ t, ReflTransGen Step s t ∧ Inv t ∧ t.producer = .idle ∧ t.ring = (Sink.write ds s.ring data).1 := by
  induction hn : data.length using Nat.strong_induction_on generalizing s ds data with
  | _ n ih =>
    rw [write_pass h.valid ds hdata]
    obtain ⟨t,hrun,hinv,hpass⟩ := pass_run h ds hp hdata hlt
    split_ifs at hpass ⊢ with hz hrest
    · exact ⟨t,hrun,hinv,hpass⟩
    · refine ⟨t,hrun,hinv,hpass.2,?_⟩
      rw [hpass.1,hrest,Sink.write,if_pos rfl]
    · have hpos := List.length_pos_of_ne_nil hdata
      have hmore := atIsFull_room_le h.valid ds
      have hlt' := (pass_wrote h.valid ds hlt).2
      rw [← hpass.1] at hlt'
      obtain ⟨t',hrun',hinv',hidle,hring⟩ := ih (data.drop (atBuffers ds s.ring).room).length
        (by rw [List.length_drop]; omega) hinv ds.tail hpass.2 hrest hlt' rfl
      refine ⟨t',hrun.trans hrun',hinv',hidle,?_⟩
      rw [hring,hpass.1]

end SinkWrite

section NetRead

/-- The loads of `net_read` up to `read_vectored`. -/
theorem readLoads_run (hp : s.producer = .idle) :
    ReflTransGen Step s { s with producer := afterReadTail s.ring.capacity s.ring.head s.ring.tail } :=
  ((ReflTransGen.single (Step.startRead hp)).tail (Step.readHead rfl)).tail (Step.readTail rfl)

theorem readFails_run {bufs : List IndexRange} (hp : s.producer = .readVectored bufs) :
    ReflTransGen Step s { s with producer := .idle } := ReflTransGen.single (Step.readFails hp)

/-- A successful `read_vectored`, the commit, and the loads of the watermark check. -/
theorem readVectored_run {bufs : List IndexRange} {received : List UInt8}
    (hp : s.producer = .readVectored bufs) (hpos : received ≠ [])
    (hlen : received.length ≤ (bufs.map IndexRange.len).sum) :
    ReflTransGen Step s { s with
      ring := fill s.ring bufs received
      producer := .idle
      committed := s.committed++received } := by
  have hslots := IndexRange.sum_len bufs
  have hzip : ((bufs.flatMap IndexRange.indices).zip received).length = received.length := by
    rw [List.length_zip]
    omega
  have hbytes : ((bufs.flatMap IndexRange.indices).zip received).map Prod.snd = received :=
    List.map_snd_zip (by omega)
  have hcommit := commit_run
    (s:={ s with producer := .copying .netRead [] ((bufs.flatMap IndexRange.indices).zip received) }) rfl
  rw [hzip,hbytes] at hcommit
  exact (((ReflTransGen.single (Step.readVectored received hp hpos hlen)).trans hcommit).tail
    (Step.watermarkHead rfl)).tail (Step.watermarkTail rfl)

/-- The ring branch of `net_read` is a run of the protocol that leaves the ring as the
function says and commits the bytes it delivers. -/
theorem readRing_run (hp : s.producer = .idle) (stream : TcpStream) (io : Io) :
    ∃ t, ReflTransGen Step s t ∧ t.producer = .idle ∧ t.ring = (readRing s.ring stream io).2.1 ∧
      t.committed = s.committed++(readRing s.ring stream io).1.data := by
  have hloads := readLoads_run hp
  rw [afterReadTail] at hloads
  rw [readRing]
  cases hio : readIovecsAt s.ring.capacity s.ring.head s.ring.tail with
  | none =>
    rw [hio] at hloads
    exact ⟨_,hloads,rfl,rfl,(List.append_nil _).symm⟩
  | some bufs =>
    rw [hio] at hloads
    have hfails := hloads.trans (readFails_run rfl)
    cases io with
    | error e => exact ⟨_,hfails,rfl,rfl,(List.append_nil _).symm⟩
    | ready n =>
      simp only [TcpStream.read]
      split_ifs with hz
      · exact ⟨_,hfails,rfl,rfl,(List.append_nil _).symm⟩
      · have hne : stream.incoming.take (min (max 1 n) (bufs.map IndexRange.len).sum) ≠ [] := by
          intro hnil
          rw [hnil] at hz
          exact hz rfl
        have hread := readVectored_run (s:={ s with producer := .readVectored bufs }) rfl hne
          (by rw [List.length_take]; omega)
        exact ⟨_,hloads.trans hread,rfl,rfl,rfl⟩

end NetRead

/-- A call of one of the two producers, or the consumer taking bytes between calls. -/
inductive RingCall
  | sinkWrite (ds : List Released) (data : List UInt8)
  | netRead (stream : TcpStream) (io : Io)
  | drain (k : ℕ)

def RingCall.apply (r : BodyRingDescriptor) : RingCall → BodyRingDescriptor
  | .sinkWrite ds data => (Sink.write ds r data).1
  | .netRead stream io => (readRing r stream io).2.1
  | .drain k => CompressionSink.drain r k

/-- The bytes a call may commit at most. -/
def RingCall.offered : RingCall → ℕ
  | .sinkWrite _ data => data.length
  | .netRead stream _ => stream.incoming.length
  | .drain _ => 0

theorem call_run (h : Inv s) (hp : s.producer = .idle) (call : RingCall) (hlt : s.ring.head+call.offered < 2^64) :
    ∃ t, ReflTransGen Step s t ∧ Inv t ∧ t.producer = .idle ∧ t.ring = call.apply s.ring ∧
      t.ring.head ≤ s.ring.head+call.offered := by
  cases call with
  | sinkWrite ds data =>
    by_cases hdata : data = []
    · refine ⟨s,.refl,h,hp,?_,Nat.le_add_right _ _⟩
      rw [RingCall.apply,Sink.write,if_pos hdata]
    · have hstart := Step.startWrite data hp hdata
      obtain ⟨t,hrun,hinv,hidle,hring⟩ :=
        sinkWrite_run (inv_step h hstart h.committed_lt) ds rfl hdata hlt
      obtain ⟨sent,rest,hsplit,hwrote,-⟩ := write_spec h.valid ds hlt
      refine ⟨t,(ReflTransGen.single hstart).trans hrun,hinv,hidle,hring,?_⟩
      rw [hring,hwrote.head_eq,RingCall.offered,hsplit,List.length_append]
      omega
  | netRead stream io =>
    obtain ⟨t,hrun,hidle,hring,hcommitted⟩ := readRing_run hp stream io
    have hdata := congrArg List.length (readRing_incoming s.ring stream io)
    have hhead := h.head_eq
    rw [List.length_append] at hdata
    rw [RingCall.offered] at hlt ⊢
    have htotal : t.committed.length < 2^64 := by
      rw [hcommitted,List.length_append]
      omega
    have hinv := inv_run h hrun htotal
    refine ⟨t,hrun,hinv,hidle,hring,?_⟩
    rw [hinv.head_eq,hcommitted,List.length_append]
    omega
  | drain k =>
    obtain ⟨t,hrun,hring,hidle,hcommitted⟩ := drain_run h k
    refine ⟨t,hrun,inv_run h hrun (hcommitted ▸ h.committed_lt),hidle.trans hp,hring,?_⟩
    rw [hring,drain_head]
    exact Nat.le_add_right _ _

/-- Any sequence of calls on a fresh ring, with fewer than `2^64` bytes offered, is a
run of the protocol that ends with the ring the functions compute. -/
theorem calls_reachable (ptr : ℕ → UInt8) {capacity : ℕ} (hcap : 0 < capacity) (calls : List RingCall)
    (hlt : (calls.map RingCall.offered).sum < 2^64) :
    ∃ t, Reachable ptr capacity t ∧ Inv t ∧ t.ring = calls.foldl RingCall.apply (.init ptr capacity) := by
  have hgeneral : ∀ s : System, Inv s → s.producer = .idle → s.ring.head+(calls.map RingCall.offered).sum < 2^64 →
      ∃ t, ReflTransGen Step s t ∧ Inv t ∧ t.ring = calls.foldl RingCall.apply s.ring := by
    clear hlt
    induction calls with
    | nil => exact fun s h _ _ => ⟨s,.refl,h,rfl⟩
    | cons call calls ih =>
      intro s h hp hlt
      rw [List.map_cons,List.sum_cons] at hlt
      obtain ⟨t,hrun,hinv,hidle,hring,hhead⟩ := call_run h hp call (by omega)
      obtain ⟨t',hrun',hinv',hring'⟩ := ih t hinv hidle (by omega)
      refine ⟨t',hrun.trans hrun',hinv',?_⟩
      rw [hring',hring,List.foldl_cons]
  obtain ⟨t,hrun,hinv,hring⟩ := hgeneral (System.start ptr capacity) (inv_start ptr hcap) rfl
    (by simpa [System.start,BodyRingDescriptor.init] using hlt)
  exact ⟨t,hrun,hinv,hring⟩

end ZNet.RingProducers
