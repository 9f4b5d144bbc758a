import ZNet.FifoRuns

/-!
# Streams of a QUIC connection

`write` appends to the buffer of a stream as far as its flow control window allows, and
`read` takes from the front. The buffer is cleared when it has been read completely.
-/

namespace ZNet.QuicStreams
open Runs FifoRuns

structure Stream where
  data : List UInt8
  sendOffset : ℕ
  recvOffset : ℕ
  isFinishedSending : Bool
  isFinishedReceiving : Bool
  isReset : Bool
  flowControlWindow : ℕ := 65536

inductive StreamError
  | streamClosed | outOfMemory
  /-- A subtraction underflows. -/
  | trap
deriving DecidableEq

namespace Stream

def init : Stream where
  data := []
  sendOffset := 0
  recvOffset := 0
  isFinishedSending := false
  isFinishedReceiving := false
  isReset := false

/-- `memory` tells whether the buffer can grow. -/
def write (self : Stream) (data : List UInt8) (memory : Bool) : Except StreamError ℕ×Stream :=
  if self.isReset || self.isFinishedSending then (.error .streamClosed,self)
  else if self.sendOffset ≤ self.flowControlWindow then
    let availableSpace := self.flowControlWindow-self.sendOffset
    let writeLen := min data.length availableSpace
    if writeLen = 0 then (.ok 0,self)
    else if memory then
      (.ok writeLen,{ self with
        data := self.data++data.take writeLen
        sendOffset := self.sendOffset+writeLen })
    else (.error .outOfMemory,self)
  else (.error .trap,self)

/-- What `read` copies to a buffer of the given length. -/
def read (self : Stream) (bufLen : ℕ) : Except StreamError (List UInt8)×Stream :=
  if self.isReset || self.isFinishedReceiving then (.ok [],self)
  else if self.recvOffset ≤ self.data.length then
    let availableData := self.data.length-self.recvOffset
    let readLen := min bufLen availableData
    if readLen = 0 then (.ok [],self)
    else
      let bytes := (self.data.drop self.recvOffset).take readLen
      let recvOffset := self.recvOffset+readLen
      if recvOffset = self.data.length then (.ok bytes,{ self with data := [], recvOffset := 0 })
      else (.ok bytes,{ self with recvOffset := recvOffset })
  else (.error .trap,self)

end Stream

inductive Call
  | write (data : List UInt8) (memory : Bool)
  | read (bufLen : ℕ)

def step (s : Stream) : Call → Stream
  | .write data memory => (s.write data memory).2
  | .read bufLen => (s.read bufLen).2

/-- The bytes that a call puts into the stream. -/
def accepted (s : Stream) : Call → List UInt8
  | .write data memory =>
    match (s.write data memory).1 with
    | .ok n => data.take n
    | .error _ => []
  | .read _ => []

/-- The bytes that a call returns. -/
def returned (s : Stream) : Call → List UInt8
  | .write .. => []
  | .read bufLen =>
    match (s.read bufLen).1 with
    | .ok bytes => bytes
    | .error _ => []

/-- The bytes that have not been read. -/
def pending (s : Stream) : List UInt8 := s.data.drop s.recvOffset

/-- The two offsets are in range, each for its own origin. -/
structure InRange (s : Stream) : Prop where
  open_ : s.isReset = false ∧ s.isFinishedSending = false ∧ s.isFinishedReceiving = false
  send : s.sendOffset ≤ s.flowControlWindow
  recv : s.recvOffset ≤ s.data.length

section Operations

variable {s : Stream}

theorem write_spec (h : InRange s) (data : List UInt8) (memory : Bool) :
    InRange (s.write data memory).2 ∧ (s.write data memory).1 ≠ .error .trap ∧
    pending (s.write data memory).2 = pending s++accepted s (.write data memory) ∧
    (s.write data memory).2.sendOffset = s.sendOffset+(accepted s (.write data memory)).length := by
  obtain ⟨⟨hreset,hsending,hreceiving⟩,hsend,hrecv⟩ := h
  have hinRange : InRange s := ⟨⟨hreset,hsending,hreceiving⟩,hsend,hrecv⟩
  have hopen : ¬(s.isReset || s.isFinishedSending) = true := by simp [hreset,hsending]
  rw [accepted,Stream.write,if_neg hopen,if_pos hsend]
  simp only
  split
  · simp [hinRange]
  · split
    · refine ⟨⟨⟨hreset,hsending,hreceiving⟩,?_,?_⟩,?_,?_,?_⟩
      · simp only
        omega
      · simp only [List.length_append]
        omega
      · simp
      · simp only [pending]
        exact List.drop_append_of_le_length hrecv
      · simp only [List.length_take]
        omega
    · simp [hinRange]

/-- A read returns as much of the pending bytes as its buffer holds. -/
theorem read_spec (h : InRange s) (bufLen : ℕ) :
    InRange (s.read bufLen).2 ∧ (s.read bufLen).1 = .ok ((pending s).take bufLen) ∧
    pending (s.read bufLen).2 = (pending s).drop bufLen ∧ (s.read bufLen).2.sendOffset = s.sendOffset := by
  obtain ⟨⟨hreset,hsending,hreceiving⟩,hsend,hrecv⟩ := h
  have hinRange : InRange s := ⟨⟨hreset,hsending,hreceiving⟩,hsend,hrecv⟩
  have hlength : (pending s).length = s.data.length-s.recvOffset := List.length_drop
  have htake : (pending s).take (min bufLen (s.data.length-s.recvOffset)) = (pending s).take bufLen := by
    rw [← hlength,List.take_eq_take_min (l:=pending s) (i:=bufLen)]
  have hopen : ¬(s.isReset || s.isFinishedReceiving) = true := by simp [hreset,hreceiving]
  rw [Stream.read,if_neg hopen,if_pos hrecv]
  simp only
  split
  · rename_i hzero
    rcases Nat.min_eq_zero_iff.mp hzero with rfl | hempty
    · exact ⟨hinRange,by rw [List.take_zero],by rw [List.drop_zero],rfl⟩
    · have hnil : pending s = [] := List.length_eq_zero_iff.mp (hlength.trans hempty)
      exact ⟨hinRange,by rw [hnil,List.take_nil],by rw [hnil,List.drop_nil],rfl⟩
  · split
    · rename_i hdrained
      refine ⟨⟨⟨hreset,hsending,hreceiving⟩,hsend,Nat.zero_le _⟩,congrArg Except.ok htake,?_,rfl⟩
      have hall : (pending s).length ≤ bufLen := by omega
      rw [List.drop_eq_nil_of_le hall]
      rfl
    · rename_i hremains
      refine ⟨⟨⟨hreset,hsending,hreceiving⟩,hsend,?_⟩,congrArg Except.ok htake,?_,rfl⟩
      · simp only
        omega
      · have hmin : min bufLen (s.data.length-s.recvOffset) = bufLen := by omega
        simp only [pending,hmin,List.drop_drop]

end Operations

section Runs

variable {s : Stream}

theorem inRange_step (h : InRange s) (call : Call) : InRange (step s call) := by
  cases call with
  | write data memory => exact (write_spec h data memory).1
  | read bufLen => exact (read_spec h bufLen).1

theorem conserves_step (h : InRange s) (call : Call) : Conserves step pending accepted returned s call := by
  cases call with
  | write data memory => exact (write_spec h data memory).2.2.1.symm
  | read bufLen =>
    obtain ⟨-,hread,hpending,-⟩ := read_spec h bufLen
    have hreturned : returned s (.read bufLen) = (pending s).take bufLen := by rw [returned,hread]
    rw [Conserves,hreturned,step,hpending,List.take_append_drop]
    exact List.append_nil _

theorem sendOffset_step (h : InRange s) (call : Call) :
    (step s call).sendOffset = s.sendOffset+(accepted s call).length := by
  cases call with
  | write data memory => exact (write_spec h data memory).2.2.2
  | read bufLen => exact (read_spec h bufLen).2.2.2

theorem flowControlWindow_step (s : Stream) (call : Call) : (step s call).flowControlWindow = s.flowControlWindow := by
  cases call with
  | write data memory =>
    simp only [step,Stream.write]
    repeat' split
    all_goals rfl
  | read bufLen =>
    simp only [step,Stream.read]
    repeat' split
    all_goals rfl

theorem along_conserves (h : InRange s) (calls : List Call) :
    Along step (Conserves step pending accepted returned) s calls := by
  exact along_of_step (I:=InRange) (fun s call h => ⟨conserves_step h call,inRange_step h call⟩) h calls

theorem sendOffset_run (h : InRange s) (calls : List Call) :
    (run step s calls).sendOffset = s.sendOffset+(total step accepted s calls).length := by
  induction calls generalizing s with
  | nil => rfl
  | cons call calls ih =>
    have hrest := ih (inRange_step h call)
    rw [sendOffset_step h] at hrest
    rw [total,List.length_append,← Nat.add_assoc,← hrest]
    rfl

end Runs

/-- Whatever is written to a fresh stream and read from it, the bytes that come out are
the first of those that went in, and a read has the next ones. The offsets stay in their
ranges and no subtraction underflows. -/
theorem stream_fifo (window : ℕ) (calls : List Call) :
    let fresh := { Stream.init with flowControlWindow := window }
    let s := run step fresh calls
    total step returned fresh calls <+: total step accepted fresh calls ∧
    (∀ bufLen, (s.read bufLen).1 =
      .ok (((total step accepted fresh calls).drop (total step returned fresh calls).length).take bufLen)) ∧
    s.sendOffset = (total step accepted fresh calls).length ∧ s.sendOffset ≤ window ∧
    s.recvOffset ≤ s.data.length ∧ ∀ data memory, (s.write data memory).1 ≠ .error .trap := by
  intro fresh s
  have hfresh : InRange fresh := ⟨⟨rfl,rfl,rfl⟩,Nat.zero_le _,Nat.zero_le _⟩
  have hs : InRange s := run_inv (I:=InRange) (fun _ call h => inRange_step h call) hfresh calls
  have hwindow : s.flowControlWindow = window :=
    run_inv (I:=fun s => s.flowControlWindow = window) (fun s call h => (flowControlWindow_step s call).trans h) rfl calls
  have hfifo : total step accepted fresh calls = total step returned fresh calls++pending s :=
    conserves_run (along_conserves hfresh calls)
  have hoffset : s.sendOffset = (total step accepted fresh calls).length :=
    (sendOffset_run hfresh calls).trans (Nat.zero_add _)
  refine ⟨⟨pending s,hfifo.symm⟩,?_,hoffset,hwindow ▸ hs.send,hs.recv,fun data memory => (write_spec hs data memory).2.1⟩
  intro bufLen
  rw [hfifo,List.drop_left]
  exact (read_spec hs bufLen).2.1

end ZNet.QuicStreams
