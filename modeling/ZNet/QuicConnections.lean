import ZNet.QuicStreamIds
import ZNet.Tables

/-!
# The streams of a QUIC connection

A connection keeps its streams in a table. Calls that name a stream act on it alone, and
closing the connection finishes the streams that it has.
-/

namespace ZNet.QuicConnections
open QuicStreams QuicStreamIds Runs FifoRuns
open Tables hiding total

abbrev ConnId := Vector UInt8 16

inductive ConnectionState
  | handshakeInProgress | handshakeComplete | connectionActive | connectionClosing | connectionClosed
deriving DecidableEq

inductive ConnectionError
  | streamNotFound
  | stream (e : StreamError)
deriving DecidableEq

/-- The secrets are undefined until the handshake. -/
structure Connection where
  state : ConnectionState
  connId : ConnId
  table : QuicStreamIds.Connection
  handshakeSecret : Option (List UInt8)
  applicationSecret : Option (List UInt8)

namespace Connection

def init (connId : ConnId) : Connection := ⟨.handshakeInProgress,connId,.init,none,none⟩

/-- The secrets are counted up from fixed numbers. -/
def processHandshake (self : Connection) : Connection :=
  match self.state with
  | .handshakeInProgress =>
    { self with
      state := .handshakeComplete
      handshakeSecret := some ((List.range 32).map UInt8.ofNat)
      applicationSecret := some ((List.range 32).map fun i => UInt8.ofNat (i+16)) }
  | .handshakeComplete => { self with state := .connectionActive }
  | _ => self

def setStream (self : Connection) (streamId : ℕ) (stream : OpenStream) : Connection :=
  { self with table := { self.table with streams := self.table.streams.insert streamId stream } }

def createStream (self : Connection) (streamType : StreamType) (memory : Bool) :
    Except StreamError OpenStream×Connection :=
  let (result,table) := self.table.createStream streamType memory
  (result,{ self with table := table })

def write (self : Connection) (streamId : ℕ) (data : List UInt8) (memory : Bool) :
    Except ConnectionError ℕ×Connection :=
  match self.table.streams.lookup streamId with
  | none => (.error .streamNotFound,self)
  | some open_ =>
    let (result,stream) := open_.stream.write data memory
    (result.mapError .stream,self.setStream streamId { open_ with stream := stream })

def read (self : Connection) (streamId bufLen : ℕ) : Except ConnectionError (List UInt8)×Connection :=
  match self.table.streams.lookup streamId with
  | none => (.error .streamNotFound,self)
  | some open_ =>
    let (result,stream) := open_.stream.read bufLen
    (result.mapError .stream,self.setStream streamId { open_ with stream := stream })

def finish (stream : Stream) : Stream := { stream with isFinishedSending := true, isFinishedReceiving := true }

def close (self : Connection) : Connection :=
  { self with
    state := .connectionClosing
    table := { self.table with streams := mapValues (fun open_ => { open_ with stream := finish open_.stream }) self.table.streams } }

end Connection

inductive Call
  | processHandshake
  | openUniStream (memory : Bool)
  | openBidiStream (memory : Bool)
  | write (streamId : ℕ) (data : List UInt8) (memory : Bool)
  | read (streamId bufLen : ℕ)
  | close

def step (s : Connection) : Call → Connection
  | .processHandshake => s.processHandshake
  | .openUniStream memory => (s.createStream .uni memory).2
  | .openBidiStream memory => (s.createStream .bidiClient memory).2
  | .write streamId data memory => (s.write streamId data memory).2
  | .read streamId bufLen => (s.read streamId bufLen).2
  | .close => s.close

/-- The call as one of the stream. -/
def own (id : ℕ) : Call → Option QuicStreams.Call
  | .write streamId data memory => if streamId = id then some (.write data memory) else none
  | .read streamId bufLen => if streamId = id then some (.read bufLen) else none
  | _ => none

/-- What a call does to the stream. -/
def effect (id : ℕ) (stream : Stream) (call : Call) : Stream :=
  match call with
  | .close => Connection.finish stream
  | call => ((own id call).map (QuicStreams.step stream)).getD stream

def streamOf (s : Connection) (id : ℕ) : Option Stream := (s.table.streams.lookup id).map OpenStream.stream

/-- The bytes that a call puts into the stream. -/
def accepted (id : ℕ) (s : Connection) : Call → List UInt8
  | .write streamId data memory =>
    if streamId = id then
      match (s.write streamId data memory).1 with
      | .ok n => data.take n
      | .error _ => []
    else []
  | _ => []

/-- The bytes that a call returns from the stream. -/
def returned (id : ℕ) (s : Connection) : Call → List UInt8
  | .read streamId bufLen =>
    if streamId = id then
      match (s.read streamId bufLen).1 with
      | .ok bytes => bytes
      | .error _ => []
    else []
  | _ => []

/-- The bytes of the stream that have not been read. -/
def contents (id : ℕ) (s : Connection) : List UInt8 := ((streamOf s id).map pending).getD []

/-- The bytes that the stream has taken in. -/
def offset (id : ℕ) (s : Connection) : ℕ := ((streamOf s id).map Stream.sendOffset).getD 0

/-- Closing finishes both directions of a stream. Its offsets stay in range. -/
structure Kept (stream : Stream) : Prop where
  window : stream.flowControlWindow = 65536
  reset : stream.isReset = false
  finished : stream.isFinishedSending = stream.isFinishedReceiving
  send : stream.sendOffset ≤ stream.flowControlWindow
  recv : stream.recvOffset ≤ stream.data.length

/-- No stream has an id that is yet to be given out. -/
structure Sound (s : Connection) : Prop where
  ids : ∀ id stream, streamOf s id = some stream → id < s.table.nextStreamId
  kept : ∀ id stream, streamOf s id = some stream → Kept stream

section Streams

variable {s : Connection} {id : ℕ} {stream : Stream}

theorem streamOf_setStream (s : Connection) (streamId : ℕ) (open_ : OpenStream) (id : ℕ) :
    streamOf (s.setStream streamId open_) id = if id = streamId then some open_.stream else streamOf s id := by
  simp only [streamOf,Connection.setStream,lookup_insert_eq]
  split <;> rfl

theorem streamOf_write (s : Connection) (streamId : ℕ) (data : List UInt8) (memory : Bool) (id : ℕ) :
    streamOf (s.write streamId data memory).2 id = (streamOf s id).map (effect id · (.write streamId data memory)) := by
  cases hlookup : s.table.streams.lookup streamId with
  | none =>
    by_cases hid : streamId = id
    · subst hid
      simp [Connection.write,streamOf,hlookup]
    · simp [Connection.write,hlookup,effect,own,hid]
  | some open_ =>
    by_cases hid : streamId = id
    · subst hid
      simp only [Connection.write,hlookup,streamOf_setStream,if_true]
      simp [streamOf,hlookup,effect,own,QuicStreams.step]
    · simp [Connection.write,hlookup,streamOf_setStream,effect,own,hid,Ne.symm hid]

theorem streamOf_read (s : Connection) (streamId bufLen id : ℕ) :
    streamOf (s.read streamId bufLen).2 id = (streamOf s id).map (effect id · (.read streamId bufLen)) := by
  cases hlookup : s.table.streams.lookup streamId with
  | none =>
    by_cases hid : streamId = id
    · subst hid
      simp [Connection.read,streamOf,hlookup]
    · simp [Connection.read,hlookup,effect,own,hid]
  | some open_ =>
    by_cases hid : streamId = id
    · subst hid
      simp only [Connection.read,hlookup,streamOf_setStream,if_true]
      simp [streamOf,hlookup,effect,own,QuicStreams.step]
    · simp [Connection.read,hlookup,streamOf_setStream,effect,own,hid,Ne.symm hid]

theorem streamOf_close (s : Connection) (id : ℕ) : streamOf s.close id = (streamOf s id).map Connection.finish := by
  simp [streamOf,Connection.close,lookup_mapValues,Function.comp_def]

theorem streamOf_processHandshake (s : Connection) (id : ℕ) : streamOf s.processHandshake id = streamOf s id := by
  rw [Connection.processHandshake]
  split <;> rfl

/-- A stream comes with the next id, where there was none. -/
theorem streamOf_createStream (h : Sound s) (streamType : StreamType) (memory : Bool) (id : ℕ) :
    streamOf (s.createStream streamType memory).2 id = streamOf s id ∨
    id = s.table.nextStreamId ∧ streamOf s id = none ∧
      streamOf (s.createStream streamType memory).2 id = some .init ∧
      id < (s.createStream streamType memory).2.table.nextStreamId := by
  simp only [Connection.createStream,QuicStreamIds.Connection.createStream]
  by_cases hfits : s.table.nextStreamId+4 < 18446744073709551616
  · cases memory with
    | false => exact .inl (by simp [hfits,streamOf])
    | true =>
      by_cases hid : id = s.table.nextStreamId
      · subst hid
        refine .inr ⟨rfl,?_,by simp [hfits,streamOf],by simp [hfits]⟩
        apply Option.eq_none_iff_forall_ne_some.mpr
        intro stream hstream
        have hlt := h.ids _ stream hstream
        omega
      · exact .inl (by simp [hfits,streamOf,hid])
  · exact .inl (by simp [hfits])

theorem nextStreamId_step (s : Connection) (call : Call) : s.table.nextStreamId ≤ (step s call).table.nextStreamId := by
  have hcreate : ∀ streamType memory,
      s.table.nextStreamId ≤ (s.createStream streamType memory).2.table.nextStreamId := by
    intro streamType memory
    simp only [Connection.createStream,QuicStreamIds.Connection.createStream]
    split
    · split <;> simp
    · simp
  cases call with
  | processHandshake =>
    simp only [step,Connection.processHandshake]
    split <;> simp
  | openUniStream memory => exact hcreate .uni memory
  | openBidiStream memory => exact hcreate .bidiClient memory
  | write streamId data memory =>
    simp only [step,Connection.write]
    split <;> simp [Connection.setStream]
  | read streamId bufLen =>
    simp only [step,Connection.read]
    split <;> simp [Connection.setStream]
  | close => simp [step,Connection.close]

/-- A call does to each stream what it does to it alone, and one stream may be new. -/
theorem streamOf_step (h : Sound s) (call : Call) (id : ℕ) :
    streamOf (step s call) id = (streamOf s id).map (effect id · call) ∨
    streamOf s id = none ∧ streamOf (step s call) id = some .init ∧ id < (step s call).table.nextStreamId := by
  have hsame : ∀ call : Call, own id call = none → call ≠ .close → (effect id · call) = fun stream => stream := by
    intro call hown hclose
    funext stream
    cases call <;> simp_all [effect]
  cases call with
  | processHandshake =>
    left
    rw [hsame _ rfl (by simp)]
    simp [step,streamOf_processHandshake]
  | openUniStream memory =>
    rw [hsame _ rfl (by simp),Option.map_id_fun']
    rcases streamOf_createStream h .uni memory id with hold | ⟨-,hnone,hnew,hlt⟩
    · exact .inl hold
    · exact .inr ⟨hnone,hnew,hlt⟩
  | openBidiStream memory =>
    rw [hsame _ rfl (by simp),Option.map_id_fun']
    rcases streamOf_createStream h .bidiClient memory id with hold | ⟨-,hnone,hnew,hlt⟩
    · exact .inl hold
    · exact .inr ⟨hnone,hnew,hlt⟩
  | write streamId data memory => exact .inl (streamOf_write s streamId data memory id)
  | read streamId bufLen => exact .inl (streamOf_read s streamId bufLen id)
  | close => exact .inl (streamOf_close s id)

end Streams

section Kept

variable {s : Connection} {id : ℕ} {stream : Stream}

theorem kept_init : Kept .init := ⟨rfl,rfl,rfl,by simp [Stream.init],by simp [Stream.init]⟩

/-- A stream is in range until it is finished. -/
theorem Kept.inRange (h : Kept stream) (hopen : stream.isFinishedSending = false) : InRange stream :=
  ⟨⟨h.reset,hopen,h.finished.symm.trans hopen⟩,h.send,h.recv⟩

/-- A finished stream neither takes nor gives anything. -/
theorem Kept.step_finished (h : Kept stream) (hfinished : stream.isFinishedSending = true) (call : QuicStreams.Call) :
    QuicStreams.step stream call = stream ∧ QuicStreams.accepted stream call = [] ∧
    QuicStreams.returned stream call = [] := by
  have hreceiving : stream.isFinishedReceiving = true := h.finished.symm.trans hfinished
  cases call with
  | write data memory => simp [QuicStreams.step,QuicStreams.accepted,QuicStreams.returned,Stream.write,hfinished]
  | read bufLen => simp [QuicStreams.step,QuicStreams.accepted,QuicStreams.returned,Stream.read,hreceiving]

theorem Kept.step (h : Kept stream) (call : QuicStreams.Call) : Kept (QuicStreams.step stream call) := by
  by_cases hopen : stream.isFinishedSending = false
  · obtain ⟨⟨hreset,hsending,hreceiving⟩,hsend,hrecv⟩ := inRange_step (h.inRange hopen) call
    exact ⟨(flowControlWindow_step stream call).trans h.window,hreset,hsending.trans hreceiving.symm,hsend,hrecv⟩
  · rw [(h.step_finished (Bool.not_eq_false _ ▸ hopen) call).1]
    exact h

theorem Kept.finish (h : Kept stream) : Kept (Connection.finish stream) := ⟨h.window,h.reset,rfl,h.send,h.recv⟩

theorem Kept.effect (h : Kept stream) (id : ℕ) (call : Call) : Kept (effect id stream call) := by
  cases call with
  | close => exact h.finish
  | write streamId data memory =>
    by_cases hid : streamId = id
    · simpa [QuicConnections.effect,own,hid] using h.step (.write data memory)
    · simpa [QuicConnections.effect,own,hid] using h
  | read streamId bufLen =>
    by_cases hid : streamId = id
    · simpa [QuicConnections.effect,own,hid] using h.step (.read bufLen)
    · simpa [QuicConnections.effect,own,hid] using h
  | _ => exact h

theorem sound_init (connId : ConnId) : Sound (.init connId) := by
  constructor <;> intro id stream hstream <;> simp [streamOf,Connection.init,QuicStreamIds.Connection.init] at hstream

theorem sound_step (h : Sound s) (call : Call) : Sound (step s call) := by
  constructor
  · intro id stream hstream
    rcases streamOf_step h call id with hold | ⟨-,-,hlt⟩
    · rw [hold] at hstream
      obtain ⟨old,hlookup,-⟩ := Option.map_eq_some_iff.mp hstream
      exact Nat.lt_of_lt_of_le (h.ids id old hlookup) (nextStreamId_step s call)
    · exact hlt
  · intro id stream hstream
    rcases streamOf_step h call id with hold | ⟨-,hnew,-⟩
    · rw [hold] at hstream
      obtain ⟨old,hlookup,rfl⟩ := Option.map_eq_some_iff.mp hstream
      exact (h.kept id old hlookup).effect id call
    · rw [hnew] at hstream
      cases hstream
      exact kept_init

end Kept

section Bytes

variable {s : Connection} {id : ℕ} {stream : Stream}

/-- What a call puts into a stream is what it puts into it alone. -/
theorem accepted_eq (s : Connection) (id : ℕ) (call : Call) : accepted id s call =
    ((streamOf s id).bind fun stream => (own id call).map (QuicStreams.accepted stream)).getD [] := by
  cases call with
  | write streamId data memory =>
    by_cases hid : streamId = id
    · subst hid
      cases hlookup : s.table.streams.lookup streamId with
      | none => simp [accepted,Connection.write,streamOf,hlookup]
      | some open_ =>
        cases hwrite : (open_.stream.write data memory).1 with
        | ok n => simp [accepted,Connection.write,streamOf,hlookup,own,QuicStreams.accepted,hwrite,Except.mapError]
        | error e => simp [accepted,Connection.write,streamOf,hlookup,own,QuicStreams.accepted,hwrite,Except.mapError]
    · simp [accepted,own,hid]
  | read streamId bufLen =>
    by_cases hid : streamId = id
    · cases hstream : streamOf s id <;> simp [accepted,own,hid,QuicStreams.accepted]
    · simp [accepted,own,hid]
  | _ => simp [accepted,own]

theorem returned_eq (s : Connection) (id : ℕ) (call : Call) : returned id s call =
    ((streamOf s id).bind fun stream => (own id call).map (QuicStreams.returned stream)).getD [] := by
  cases call with
  | read streamId bufLen =>
    by_cases hid : streamId = id
    · subst hid
      cases hlookup : s.table.streams.lookup streamId with
      | none => simp [returned,Connection.read,streamOf,hlookup]
      | some open_ =>
        cases hread : (open_.stream.read bufLen).1 with
        | ok bytes => simp [returned,Connection.read,streamOf,hlookup,own,QuicStreams.returned,hread,Except.mapError]
        | error e => simp [returned,Connection.read,streamOf,hlookup,own,QuicStreams.returned,hread,Except.mapError]
    · simp [returned,own,hid]
  | write streamId data memory =>
    by_cases hid : streamId = id
    · cases hstream : streamOf s id <;> simp [returned,own,hid,QuicStreams.returned]
    · simp [returned,own,hid]
  | _ => simp [returned,own]

theorem Kept.bytes (h : Kept stream) (call : QuicStreams.Call) :
    Conserves QuicStreams.step pending QuicStreams.accepted QuicStreams.returned stream call ∧
    (QuicStreams.step stream call).sendOffset = stream.sendOffset+(QuicStreams.accepted stream call).length := by
  by_cases hopen : stream.isFinishedSending = false
  · exact ⟨conserves_step (h.inRange hopen) call,sendOffset_step (h.inRange hopen) call⟩
  · obtain ⟨hstep,haccepted,hreturned⟩ := h.step_finished (Bool.not_eq_false _ ▸ hopen) call
    simp [Conserves,hstep,haccepted,hreturned]

/-- What does not name a stream leaves its bytes alone. -/
theorem effect_bytes {call : Call} (hown : own id call = none) :
    pending (effect id stream call) = pending stream ∧ (effect id stream call).sendOffset = stream.sendOffset := by
  cases call <;> simp_all [effect,Connection.finish,pending]

theorem bytes_step (h : Sound s) (id : ℕ) (call : Call) :
    Conserves step (contents id) (accepted id) (returned id) s call ∧
    offset id (step s call) = offset id s+(accepted id s call).length := by
  rw [Conserves,accepted_eq,returned_eq]
  cases hstream : streamOf s id with
  | none =>
    rcases streamOf_step h call id with hold | ⟨-,hnew,-⟩
    · simp [contents,offset,hold,hstream]
    · simp [contents,offset,hnew,hstream,pending,Stream.init]
  | some stream =>
    have hnext : streamOf (step s call) id = some (effect id stream call) := by
      rcases streamOf_step h call id with hold | ⟨hnone,-⟩
      · simp [hold,hstream]
      · simp [hnone] at hstream
    cases hown : own id call with
    | none =>
      obtain ⟨hpending,hoffset⟩ : pending (effect id stream call) = pending stream ∧
          (effect id stream call).sendOffset = stream.sendOffset := effect_bytes hown
      simp [contents,offset,hstream,hnext,hpending,hoffset]
    | some c =>
      have heffect : effect id stream call = QuicStreams.step stream c := by
        cases call <;> simp_all [effect,own]
      obtain ⟨hconserves,hoffset⟩ := (h.kept id stream hstream).bytes c
      simp only [contents,offset,hstream,hnext,heffect,Option.map_some,Option.getD_some,Option.bind_some]
      exact ⟨hconserves,hoffset⟩

theorem offset_run (h : Sound s) (id : ℕ) (calls : List Call) :
    offset id (run step s calls) = offset id s+(total step (accepted id) s calls).length := by
  induction calls generalizing s with
  | nil => simp [run,total]
  | cons call calls ih =>
    have hrest := ih (sound_step h call)
    rw [(bytes_step h id call).2] at hrest
    simpa [run,total,Nat.add_assoc] using hrest

theorem offset_le (h : Sound s) (id : ℕ) : offset id s ≤ 65536 := by
  cases hstream : streamOf s id with
  | none => simp [offset,hstream]
  | some stream =>
    have hkept := h.kept id stream hstream
    have hle := hkept.send
    rw [hkept.window] at hle
    simpa [offset,hstream] using hle

end Bytes

section Runs

variable {s : Connection} {id : ℕ} {stream : Stream}

theorem sound_run (h : Sound s) (calls : List Call) : Sound (run step s calls) :=
  run_inv (I:=Sound) (fun _ call h => sound_step h call) h calls

theorem streamOf_run (h : Sound s) (hstream : streamOf s id = some stream) (calls : List Call) :
    streamOf (run step s calls) id = some (calls.foldl (effect id) stream) := by
  induction calls generalizing s stream with
  | nil => exact hstream
  | cons call calls ih =>
    apply ih (sound_step h call)
    rcases streamOf_step h call id with hold | ⟨hnone,-⟩
    · simp [hold,hstream]
    · simp [hnone] at hstream

/-- As long as the connection is not closed, a stream runs on its own. -/
theorem foldl_effect {calls : List Call} (hopen : .close ∉ calls) :
    calls.foldl (effect id) stream = run QuicStreams.step stream (calls.filterMap (own id)) := by
  induction calls generalizing stream with
  | nil => rfl
  | cons call calls ih =>
    simp only [List.mem_cons,not_or] at hopen
    have heffect : effect id stream call = ((own id call).map (QuicStreams.step stream)).getD stream := by
      cases call <;> simp_all [effect]
    rw [List.foldl_cons,ih hopen.2,List.filterMap_cons,heffect]
    cases own id call <;> rfl

/-- A finished stream stays as it is. -/
theorem finished_step (h : Sound s) (hstream : streamOf s id = some stream)
    (hfinished : stream.isFinishedSending = true) (call : Call) :
    streamOf (step s call) id = some stream ∧ accepted id s call = [] ∧ returned id s call = [] := by
  have hkept := h.kept id stream hstream
  have heffect : effect id stream call = stream := by
    have hreceiving : stream.isFinishedReceiving = true := hkept.finished.symm.trans hfinished
    cases call with
    | close =>
      obtain ⟨data,sendOffset,recvOffset,sending,receiving,reset,window⟩ := stream
      simp_all [effect,Connection.finish]
    | write streamId data memory =>
      by_cases hid : streamId = id <;> simp [effect,own,hid,(hkept.step_finished hfinished _).1]
    | read streamId bufLen =>
      by_cases hid : streamId = id <;> simp [effect,own,hid,(hkept.step_finished hfinished _).1]
    | _ => rfl
  have hnext := streamOf_run h hstream [call]
  rw [accepted_eq,returned_eq,hstream]
  refine ⟨by simpa [run,heffect] using hnext,?_,?_⟩
  · cases hown : own id call <;> simp [(hkept.step_finished hfinished _).2.1]
  · cases hown : own id call <;> simp [(hkept.step_finished hfinished _).2.2]

theorem finished_run (h : Sound s) (hstream : streamOf s id = some stream)
    (hfinished : stream.isFinishedSending = true) (calls : List Call) :
    total step (accepted id) s calls = [] ∧ total step (returned id) s calls = [] := by
  induction calls generalizing s with
  | nil => exact ⟨rfl,rfl⟩
  | cons call calls ih =>
    obtain ⟨hnext,haccepted,hreturned⟩ := finished_step h hstream hfinished call
    obtain ⟨haccepteds,hreturneds⟩ := ih (sound_step h call) hnext
    simp [total,haccepted,hreturned,haccepteds,hreturneds]

end Runs

/-- On every connection each stream is a queue of its own: until the connection is closed it
does what it would do alone, it returns the bytes that it has taken in order, and all its
life it takes at most 65536 of them, since its window never opens again. What is unread when
the connection is closed is lost, and the stream takes and gives nothing more. -/
theorem connection_streams (connId : ConnId) (calls : List Call) (id : ℕ) :
    let s := run step (.init connId) calls
    InOrder step (contents id) (accepted id) (returned id) (.init connId) calls ∧
    (total step (accepted id) (.init connId) calls).length ≤ 65536 ∧
    ∀ stream, streamOf s id = some stream →
      (∀ more, .close ∉ more →
        streamOf (run step s more) id = some (run QuicStreams.step stream (more.filterMap (own id)))) ∧
      ∀ more, total step (accepted id) s.close more = [] ∧ total step (returned id) s.close more = [] := by
  intro s
  have hinit := sound_init connId
  have hs : Sound s := sound_run hinit calls
  refine ⟨?_,?_,?_⟩
  · apply inOrder_iff.mpr
    exact along_of_step (I:=Sound) (fun s call h => ⟨(bytes_step h id call).1,sound_step h call⟩) hinit calls
  · have hoffset := offset_run hinit id calls
    have hle : offset id s ≤ 65536 := offset_le hs id
    have hzero : offset id (.init connId) = 0 := rfl
    change offset id s = _ at hoffset
    omega
  · intro stream hstream
    constructor
    · intro more hopen
      rw [streamOf_run hs hstream,foldl_effect hopen]
    · intro more
      have hclosed : streamOf s.close id = some (Connection.finish stream) := by rw [streamOf_close,hstream,Option.map_some]
      exact finished_run (sound_step hs .close) hclosed rfl more

end ZNet.QuicConnections
