import ZNet.WebSocketFrames
import Mathlib.Data.List.Forall2

/-!
# WebSocket connections

`processFrame` decodes one frame and puts messages together from their fragments. A
message in progress is `currentMessage`; complete messages wait in `messageQueue`.
-/

namespace ZNet.WebSocketConnections
open ByteOrder WebSocketFrames

/-- A message, which can span several frames. `frameCount` is a `u32`. -/
structure WebSocketMessage where
  messageType : WebSocketFrameType
  completeData : List UInt8
  isComplete : Bool
  frameCount : ℕ
deriving DecidableEq

def WebSocketMessage.init (messageType : WebSocketFrameType) : WebSocketMessage := ⟨messageType,[],false,0⟩

def WebSocketMessage.appendFrame (self : WebSocketMessage) (frame : WebSocketFrame) :
    Except Failure WebSocketMessage :=
  if self.frameCount+1 < 2^32 then
    .ok { self with
      frameCount := self.frameCount+1
      completeData := self.completeData++frame.payload
      isComplete := self.isComplete || frame.fin }
  else .error .trap

inductive WebSocketState
  | connecting | opened | closing | closed
deriving DecidableEq

structure WebSocketConnection where
  connectionId : ℕ
  url : List UInt8
  protocols : List (List UInt8)
  state : WebSocketState
  lastActivityTimestamp : ℕ
  currentMessage : Option WebSocketMessage
  messageQueue : List WebSocketMessage
  pingQueue : List ℕ
  maxMessageSize : ℕ
deriving DecidableEq

namespace WebSocketConnection

def init (connectionId : ℕ) (url : List UInt8) (now : ℕ) : WebSocketConnection :=
  ⟨connectionId,url,[],.connecting,now,none,[],[],16*1024*1024⟩

def addProtocol (self : WebSocketConnection) (protocol : List UInt8) : WebSocketConnection :=
  { self with protocols := self.protocols++[protocol] }

def updateActivity (self : WebSocketConnection) (now : ℕ) : WebSocketConnection :=
  { self with lastActivityTimestamp := now }

/-- The encoded frame of `sendPong` is not sent. -/
def sendPong (self : WebSocketConnection) : Except Failure Unit :=
  if self.state ≠ .opened then .error (.error .connectionNotOpen) else .ok ()

/-- The message in progress with one more frame; a complete one moves to the queue. -/
def appendCurrent (self : WebSocketConnection) (message : WebSocketMessage) (frame : WebSocketFrame) :
    Except Failure WebSocketConnection := do
  let message ← message.appendFrame frame
  if message.isComplete then
    pure { self with messageQueue := self.messageQueue++[message], currentMessage := none }
  else pure { self with currentMessage := some message }

def processDataFrame (self : WebSocketConnection) (frame : WebSocketFrame) : Except Failure WebSocketConnection :=
  if frame.payload.length > self.maxMessageSize then .error (.error .messageTooLarge)
  else self.appendCurrent (self.currentMessage.getD (.init frame.opcode)) frame

def processContinuationFrame (self : WebSocketConnection) (frame : WebSocketFrame) :
    Except Failure WebSocketConnection :=
  match self.currentMessage with
  | none => .error (.error .unexpectedContinuation)
  | some message => self.appendCurrent message frame

def processPingFrame (self : WebSocketConnection) : Except Failure WebSocketConnection := do
  self.sendPong
  pure self

def processPongFrame (self : WebSocketConnection) : Except Failure WebSocketConnection :=
  .ok { self with pingQueue := self.pingQueue.tail }

def processCloseFrame (self : WebSocketConnection) : Except Failure WebSocketConnection :=
  .ok { self with state := .closing }

/-- The `switch` of `processFrame`. -/
def dispatch (self : WebSocketConnection) (frame : WebSocketFrame) : Except Failure WebSocketConnection :=
  match frame.opcode with
  | .text | .binary => self.processDataFrame frame
  | .continuation => self.processContinuationFrame frame
  | .ping => self.processPingFrame
  | .pong => self.processPongFrame
  | .close => self.processCloseFrame

/-- One received frame: the result of the call and the connection after it. -/
def processFrame (order : Endian) (now : ℕ) (self : WebSocketConnection) (frameData : List UInt8) :
    Except Failure Unit×WebSocketConnection :=
  match decode order (.init .text []) frameData with
  | .error e => (.error e,self)
  | .ok (frame,_) =>
    match (self.updateActivity now).dispatch frame with
    | .error e => (.error e,self.updateActivity now)
    | .ok self' => (.ok (),self')

end WebSocketConnection

/-- A call of `processFrame`: the time and the bytes. -/
structure Receipt where
  now : ℕ
  frameData : List UInt8

/-- The bytes hold this frame. -/
def Receipt.Holds (order : Endian) (r : Receipt) (frame : WebSocketFrame) : Prop :=
  ∃ n, decode order (.init .text []) r.frameData = .ok (frame,n)

/-- Frames one by one, up to the first failure. -/
def feed (order : Endian) : WebSocketConnection → List Receipt → Except Failure WebSocketConnection
  | c,[] => .ok c
  | c,r::rs =>
    match c.processFrame order r.now r.frameData with
    | (.error e,_) => .error e
    | (.ok _,c') => feed order c' rs

/-- A text or binary frame, which starts a message. -/
def IsData (frame : WebSocketFrame) : Prop := frame.opcode = .text ∨ frame.opcode = .binary

instance (frame : WebSocketFrame) : Decidable (IsData frame) := inferInstanceAs (Decidable (_ ∨ _))

/-- A frame that carries a part of a message. -/
def IsFragment (frame : WebSocketFrame) : Prop := IsData frame ∨ frame.opcode = .continuation

instance (frame : WebSocketFrame) : Decidable (IsFragment frame) := inferInstanceAs (Decidable (_ ∨ _))

/-- The last of the frames has the FIN bit, and no other. -/
def OnlyLastFin : List WebSocketFrame → Prop
  | [] => False
  | [frame] => frame.fin = true
  | frame::next::frames => frame.fin = false ∧ OnlyLastFin (next::frames)

/-- A message as its sender split it. -/
structure Fragmented (maxMessageSize : ℕ) where
  first : WebSocketFrame
  rest : List WebSocketFrame
  data : IsData first
  fits : first.payload.length ≤ maxMessageSize
  continues : ∀ frame ∈ rest, frame.opcode = .continuation
  onlyLastFin : OnlyLastFin (first::rest)

def Fragmented.frames {size : ℕ} (m : Fragmented size) : List WebSocketFrame := m.first::m.rest

/-- The message that the receiver should queue. -/
def Fragmented.message {size : ℕ} (m : Fragmented size) : WebSocketMessage :=
  ⟨m.first.opcode,m.frames.flatMap (·.payload),true,m.frames.length⟩

section Steps

variable {order : Endian} {c : WebSocketConnection} {frame : WebSocketFrame} {message : WebSocketMessage}

/-- A message with one more frame. -/
def WebSocketMessage.extend (message : WebSocketMessage) (frame : WebSocketFrame) : WebSocketMessage :=
  { message with
    frameCount := message.frameCount+1
    completeData := message.completeData++frame.payload
    isComplete := message.isComplete || frame.fin }

/-- The connection with a new state of the message in progress. -/
def WebSocketConnection.settle (c : WebSocketConnection) (message : WebSocketMessage) : WebSocketConnection :=
  if message.isComplete then { c with messageQueue := c.messageQueue++[message], currentMessage := none }
  else { c with currentMessage := some message }

theorem appendCurrent_eq (c : WebSocketConnection) (message : WebSocketMessage) (frame : WebSocketFrame) :
    c.appendCurrent message frame =
      if message.frameCount+1 < 2^32 then .ok (c.settle (message.extend frame)) else .error .trap := by
  rw [WebSocketConnection.appendCurrent,WebSocketMessage.appendFrame]
  split_ifs with hcount
  · rw [WebSocketConnection.settle,apply_ite Except.ok]
    rfl
  · rfl

theorem dispatch_data (h : IsData frame) : c.dispatch frame = c.processDataFrame frame := by
  rcases h with h | h <;> rw [WebSocketConnection.dispatch,h]

theorem dispatch_continuation (h : frame.opcode = .continuation) :
    c.dispatch frame = c.processContinuationFrame frame := by
  rw [WebSocketConnection.dispatch,h]

/-- A data frame of a permitted size starts a message. -/
theorem dispatch_first (h : IsData frame) (hfits : frame.payload.length ≤ c.maxMessageSize)
    (hcurrent : c.currentMessage = none) : c.dispatch frame = c.appendCurrent (.init frame.opcode) frame := by
  rw [dispatch_data h,WebSocketConnection.processDataFrame,if_neg (Nat.not_lt.mpr hfits),hcurrent,Option.getD_none]

theorem dispatch_next (h : frame.opcode = .continuation) (hcurrent : c.currentMessage = some message) :
    c.dispatch frame = c.appendCurrent message frame := by
  rw [dispatch_continuation h,WebSocketConnection.processContinuationFrame,hcurrent]

/-- In an open connection `PING` and `PONG` touch neither the messages nor the state. -/
theorem dispatch_control (hopen : c.state = .opened) (h : frame.opcode = .ping ∨ frame.opcode = .pong) :
    ∃ pingQueue, c.dispatch frame = .ok { c with pingQueue := pingQueue } := by
  rcases h with h | h
  · refine ⟨c.pingQueue,?_⟩
    rw [WebSocketConnection.dispatch,h]
    simp only [WebSocketConnection.processPingFrame,WebSocketConnection.sendPong]
    rw [if_neg (not_not.mpr hopen)]
    rfl
  · refine ⟨c.pingQueue.tail,?_⟩
    rw [WebSocketConnection.dispatch,h]
    rfl

theorem feed_ok {r : Receipt} {rs : List Receipt} {c' : WebSocketConnection} (hr : r.Holds order frame)
    (h : (c.updateActivity r.now).dispatch frame = .ok c') : feed order c (r::rs) = feed order c' rs := by
  obtain ⟨n,hdecode⟩ := hr
  simp only [feed,WebSocketConnection.processFrame,hdecode,h]

theorem feed_error {r : Receipt} {rs : List Receipt} {e : Failure} (hr : r.Holds order frame)
    (h : (c.updateActivity r.now).dispatch frame = .error e) : feed order c (r::rs) = .error e := by
  obtain ⟨n,hdecode⟩ := hr
  simp only [feed,WebSocketConnection.processFrame,hdecode,h]

end Steps

section Reassembly

/-- The frames that the message in progress still waits for. -/
def Awaits (current : Option WebSocketMessage) (frames : List WebSocketFrame) : Prop :=
  match current with
  | none => frames = []
  | some message => message.isComplete = false ∧ (∀ f ∈ frames, f.opcode = .continuation) ∧ OnlyLastFin frames

/-- The message in progress once these frames have been appended. -/
def completed (current : Option WebSocketMessage) (frames : List WebSocketFrame) : List WebSocketMessage :=
  match current with
  | none => []
  | some message =>
    [⟨message.messageType,message.completeData++frames.flatMap (·.payload),true,message.frameCount+frames.length⟩]

/-- The frame count of the message in progress stays within a `u32`. -/
def Countable (current : Option WebSocketMessage) (frames : List WebSocketFrame) : Prop :=
  ∀ message ∈ current, message.frameCount+frames.length < 2^32

theorem settle_state {c : WebSocketConnection} {message : WebSocketMessage} : (c.settle message).state = c.state := by
  rw [WebSocketConnection.settle]
  split_ifs <;> rfl

theorem settle_maxMessageSize {c : WebSocketConnection} {message : WebSocketMessage} :
    (c.settle message).maxMessageSize = c.maxMessageSize := by
  rw [WebSocketConnection.settle]
  split_ifs <;> rfl

/-- Appending the next frame of a message leaves the same final messages to be expected. -/
theorem settle_awaits (c : WebSocketConnection) {message : WebSocketMessage} {frame : WebSocketFrame}
    {frames : List WebSocketFrame} (hm : message.isComplete = false) (hcont : ∀ f ∈ frames, f.opcode = .continuation)
    (hfin : OnlyLastFin (frame::frames)) (hcount : message.frameCount+1 < 2^32) :
    Awaits (c.settle (message.extend frame)).currentMessage frames ∧
    (c.settle (message.extend frame)).messageQueue++
      completed (c.settle (message.extend frame)).currentMessage frames =
        c.messageQueue++completed (some message) (frame::frames) ∧
    (Countable (c.settle (message.extend frame)).currentMessage frames ↔
      Countable (some message) (frame::frames)) := by
  cases frames with
  | nil =>
    have hend : (message.extend frame).isComplete = true := by
      rw [WebSocketMessage.extend,hm]
      exact hfin
    rw [WebSocketConnection.settle,if_pos hend]
    refine ⟨rfl,?_,?_⟩
    · simp only [completed,WebSocketMessage.extend,List.append_nil,List.flatMap_singleton,List.length_singleton] at hend ⊢
      rw [hend]
    · simpa [Countable] using hcount
  | cons next frames =>
    have hmore : (message.extend frame).isComplete = false := by
      rw [WebSocketMessage.extend,hm]
      exact hfin.1
    rw [WebSocketConnection.settle,if_neg (by simp [hmore])]
    refine ⟨⟨hmore,hcont,hfin.2⟩,?_,?_⟩
    · simp [completed,WebSocketMessage.extend]
      omega
    · simp only [Countable,Option.mem_some_iff,forall_eq',WebSocketMessage.extend,List.length_cons]
      omega

/-- The receipts leave no message in progress, and in the queue the message in progress
with its frames and the messages after it. -/
def Delivers (order : Endian) (c : WebSocketConnection) (receipts : List Receipt) (current : Option WebSocketMessage)
    (pending : List WebSocketFrame) {size : ℕ} (messages : List (Fragmented size)) : Prop :=
  ∃ c', feed order c receipts = .ok c' ∧ c'.currentMessage = none ∧
    c'.messageQueue = c.messageQueue++completed current pending++messages.map Fragmented.message

section Pieces

variable {order : Endian} {c : WebSocketConnection} {size : ℕ}

theorem completed_start (m : Fragmented size) :
    completed (some (.init m.first.opcode)) (m.first::m.rest) = [m.message] := by
  simp [completed,Fragmented.message,Fragmented.frames,WebSocketMessage.init]

theorem countable_start (m : Fragmented size) :
    Countable (some (.init m.first.opcode)) (m.first::m.rest) ↔ m.frames.length < 2^32 := by
  simp [Countable,Fragmented.frames,WebSocketMessage.init]

/-- Without frames there are no messages left. -/
theorem delivers_nil {pending : List WebSocketFrame} (hawaits : Awaits c.currentMessage pending)
    {messages : List (Fragmented size)} (hfragments : [] = pending++messages.flatMap Fragmented.frames) :
    Delivers order c [] c.currentMessage pending messages ↔
      Countable c.currentMessage pending ∧ ∀ m ∈ messages, m.frames.length < 2^32 := by
  obtain ⟨hpending,hmessages⟩ := List.append_eq_nil_iff.mp hfragments.symm
  have hnone : messages = [] := by
    cases messages with
    | nil => rfl
    | cons m messages => simp [Fragmented.frames] at hmessages
  cases hcurrent : c.currentMessage with
  | none => simp [Delivers,feed,hcurrent,hnone,completed,Countable]
  | some message =>
    rw [hcurrent,hpending] at hawaits
    exact hawaits.2.2.elim

/-- A frame is appended to a message, unless this overflows its frame count. -/
theorem delivers_append {r : Receipt} {rs : List Receipt} {frame : WebSocketFrame} (hr : r.Holds order frame)
    {message : WebSocketMessage} {rest : List WebSocketFrame} {later : List (Fragmented size)}
    (hdispatch : (c.updateActivity r.now).dispatch frame = (c.updateActivity r.now).appendCurrent message frame)
    (hmore : message.isComplete = false) (hcont : ∀ f ∈ rest, f.opcode = .continuation)
    (hfin : OnlyLastFin (frame::rest))
    (ih : ∀ c', c' = (c.updateActivity r.now).settle (message.extend frame) → Awaits c'.currentMessage rest →
      (Delivers order c' rs c'.currentMessage rest later ↔
        Countable c'.currentMessage rest ∧ ∀ m ∈ later, m.frames.length < 2^32)) :
    Delivers order c (r::rs) (some message) (frame::rest) later ↔
      Countable (some message) (frame::rest) ∧ ∀ m ∈ later, m.frames.length < 2^32 := by
  rw [appendCurrent_eq] at hdispatch
  by_cases hcount : message.frameCount+1 < 2^32
  · obtain ⟨hnext,hqueue,hiff⟩ := settle_awaits (c.updateActivity r.now) hmore hcont hfin hcount
    have hsettled := ih _ rfl hnext
    rw [Delivers,hqueue,hiff] at hsettled
    rw [if_pos hcount] at hdispatch
    rw [Delivers,feed_ok hr hdispatch]
    exact hsettled
  · rw [if_neg hcount] at hdispatch
    rw [Delivers,feed_error hr hdispatch]
    refine iff_of_false ?_ ?_
    · rintro ⟨c',hok,-⟩
      cases hok
    · rintro ⟨hcountable,-⟩
      have hlt := hcountable message rfl
      rw [List.length_cons] at hlt
      omega

end Pieces

/-- The frames of the messages, with `PING` and `PONG` in between, leave exactly the
messages in the queue if no frame count overflows, and the call fails otherwise. -/
theorem feed_iff {order : Endian} {receipts : List Receipt} {frames : List WebSocketFrame}
    (hreceipts : List.Forall₂ (Receipt.Holds order) receipts frames) {size : ℕ} {c : WebSocketConnection}
    (hopen : c.state = .opened) (hsize : c.maxMessageSize = size) {pending : List WebSocketFrame}
    (hawaits : Awaits c.currentMessage pending) (messages : List (Fragmented size))
    (hfragments : frames.filter (fun f => decide (IsFragment f)) = pending++messages.flatMap Fragmented.frames)
    (hcontrol : ∀ f ∈ frames, ¬IsFragment f → f.opcode = .ping ∨ f.opcode = .pong) :
    Delivers order c receipts c.currentMessage pending messages ↔
      Countable c.currentMessage pending ∧ ∀ m ∈ messages, m.frames.length < 2^32 := by
  induction hreceipts generalizing c pending messages with
  | nil => exact delivers_nil hawaits hfragments
  | @cons r frame rs frames hr hrs ih =>
    obtain ⟨hhead,htail⟩ := List.forall_mem_cons.mp hcontrol
    by_cases hfrag : IsFragment frame
    · rw [List.filter_cons_of_pos (by simpa using hfrag)] at hfragments
      cases hcurrent : c.currentMessage with
      | none =>
        rw [hcurrent] at hawaits
        obtain rfl : pending = [] := hawaits
        cases messages with
        | nil => cases hfragments
        | cons m messages =>
          obtain ⟨rfl,hlater⟩ := List.cons.inj hfragments
          have hdispatch := dispatch_first (c:=c.updateActivity r.now) m.data (hsize ▸ m.fits) hcurrent
          have hm : Delivers order c (r::rs) (some (.init m.first.opcode)) (m.first::m.rest) messages ↔
              Countable (some (.init m.first.opcode)) (m.first::m.rest) ∧ ∀ m ∈ messages, m.frames.length < 2^32 := by
            refine delivers_append hr hdispatch rfl m.continues m.onlyLastFin ?_
            rintro c' rfl hnext
            exact ih (c:=(c.updateActivity r.now).settle _) (settle_state.trans hopen)
              (settle_maxMessageSize.trans hsize) hnext messages hlater htail
          rw [Delivers,completed_start,countable_start] at hm
          simpa [Delivers,completed,Countable] using hm
      | some message =>
        rw [hcurrent] at hawaits
        obtain ⟨hmore,hcont,hfin⟩ := hawaits
        cases pending with
        | nil => exact hfin.elim
        | cons next pending =>
          obtain ⟨rfl,hlater⟩ := List.cons.inj hfragments
          obtain ⟨hnext,hcont⟩ := List.forall_mem_cons.mp hcont
          have hdispatch := dispatch_next (c:=c.updateActivity r.now) hnext hcurrent
          refine delivers_append hr hdispatch hmore hcont hfin ?_
          rintro c' rfl hawaits
          exact ih (c:=(c.updateActivity r.now).settle _) (settle_state.trans hopen)
            (settle_maxMessageSize.trans hsize) hawaits messages hlater htail
    · rw [List.filter_cons_of_neg (by simpa using hfrag)] at hfragments
      obtain ⟨pingQueue,hdispatch⟩ := dispatch_control (c:=c.updateActivity r.now) hopen (hhead hfrag)
      rw [Delivers,feed_ok hr hdispatch]
      exact ih (c:={ c.updateActivity r.now with pingQueue := pingQueue }) hopen hsize hawaits messages hfragments
        htail

end Reassembly

/-- The receipts hold the frames of the messages in order, and otherwise `PING` and `PONG`. -/
def Carries (order : Endian) {size : ℕ} (messages : List (Fragmented size)) (receipts : List Receipt) : Prop :=
  ∃ frames, List.Forall₂ (Receipt.Holds order) receipts frames ∧
    frames.filter (fun f => decide (IsFragment f)) = messages.flatMap Fragmented.frames ∧
    ∀ f ∈ frames, ¬IsFragment f → f.opcode = .ping ∨ f.opcode = .pong

/-- Every frame is accepted, the queue grows by exactly these messages, and no message
is in progress at the end. -/
def Reassembles (order : Endian) (c : WebSocketConnection) {size : ℕ} (messages : List (Fragmented size))
    (receipts : List Receipt) : Prop :=
  ∃ c', feed order c receipts = .ok c' ∧ c'.currentMessage = none ∧
    c'.messageQueue = c.messageQueue++messages.map Fragmented.message

/-- An open connection reassembles any sequence of messages, whatever `PING` and `PONG`
frames come in between, exactly if every message has fewer than `2^32` frames. -/
theorem reassembles_iff (order : Endian) (c : WebSocketConnection) (hopen : c.state = .opened)
    (hcurrent : c.currentMessage = none) (messages : List (Fragmented c.maxMessageSize)) (receipts : List Receipt)
    (h : Carries order messages receipts) :
    Reassembles order c messages receipts ↔ ∀ m ∈ messages, m.frames.length < 2^32 := by
  obtain ⟨frames,hreceipts,hfragments,hcontrol⟩ := h
  have hawaits : Awaits c.currentMessage [] := by
    rw [hcurrent]
    rfl
  have hfeed := feed_iff hreceipts hopen rfl hawaits messages hfragments hcontrol
  rw [hcurrent] at hfeed
  rw [Reassembles]
  simpa [Delivers,completed,Countable] using hfeed

section Split

/-- A frame without payload. -/
def emptyFrame (fin : Bool) (opcode : WebSocketFrameType) : WebSocketFrame := ⟨fin,opcode,false,0,fun _ => 0,[]⟩

def emptyReceipt (frame : WebSocketFrame) : Receipt := ⟨0,[firstByte frame.fin frame.opcode,0]⟩

theorem emptyReceipt_holds (order : Endian) (fin : Bool) (opcode : WebSocketFrameType) :
    (emptyReceipt (emptyFrame fin opcode)).Holds order (emptyFrame fin opcode) := by
  cases fin <;> cases opcode <;> exact ⟨2,rfl⟩

/-- An empty text, split into `n+2` frames. -/
def splitMessage (size n : ℕ) : Fragmented size where
  first := emptyFrame false .text
  rest := List.replicate n (emptyFrame false .continuation)++[emptyFrame true .continuation]
  data := Or.inl rfl
  fits := Nat.zero_le _
  continues := by
    intro frame hframe
    rcases List.mem_append.mp hframe with h | h
    · rw [(List.mem_replicate.mp h).2]
      rfl
    · rw [List.mem_singleton.mp h]
      rfl
  onlyLastFin := by
    have hrest : ∀ n, OnlyLastFin (List.replicate n (emptyFrame false .continuation)++[emptyFrame true .continuation]) := by
      intro n
      induction n with
      | zero => rfl
      | succ n ih =>
        cases n with
        | zero => exact ⟨rfl,ih⟩
        | succ n => exact ⟨rfl,ih⟩
    cases n with
    | zero => exact ⟨rfl,hrest 0⟩
    | succ n => exact ⟨rfl,hrest (n+1)⟩

theorem splitMessage_carries (order : Endian) (size n : ℕ) :
    Carries order [splitMessage size n] ((splitMessage size n).frames.map emptyReceipt) := by
  have hframes : ∀ f ∈ (splitMessage size n).frames, IsFragment f ∧ (emptyReceipt f).Holds order f := by
    intro f hf
    rcases List.mem_cons.mp hf with rfl | hf
    · exact ⟨Or.inl (Or.inl rfl),emptyReceipt_holds order false .text⟩
    · rcases List.mem_append.mp hf with h | h
      · rw [(List.mem_replicate.mp h).2]
        exact ⟨Or.inr rfl,emptyReceipt_holds order false .continuation⟩
      · rw [List.mem_singleton.mp h]
        exact ⟨Or.inr rfl,emptyReceipt_holds order true .continuation⟩
  refine ⟨(splitMessage size n).frames,?_,?_,?_⟩
  · rw [List.forall₂_map_left_iff,List.forall₂_same]
    exact fun f hf => (hframes f hf).2
  · rw [List.flatMap_singleton,List.filter_eq_self]
    exact fun f hf => decide_eq_true (hframes f hf).1
  · exact fun f hf hnot => (hnot (hframes f hf).1).elim

/-- A new connection once it is open. -/
def openConnection : WebSocketConnection := { WebSocketConnection.init 1 [] 0 with state := .opened }

theorem splitMessage_overflows (n : ℕ) (hn : 2^32 ≤ n+2) :
    ¬Reassembles .little openConnection [splitMessage openConnection.maxMessageSize n]
      ((splitMessage openConnection.maxMessageSize n).frames.map emptyReceipt) := by
  obtain ⟨frames,hreceipts,hfragments,hcontrol⟩ := splitMessage_carries .little openConnection.maxMessageSize n
  have hfeed := feed_iff hreceipts (c:=openConnection) rfl rfl rfl
    [splitMessage openConnection.maxMessageSize n] hfragments hcontrol
  rintro ⟨c',hok,hcurrent,hqueue⟩
  obtain ⟨-,hcounts⟩ := hfeed.mp ⟨c',hok,hcurrent,hqueue⟩
  have hlt := hcounts _ (List.mem_singleton.mpr rfl)
  simp only [Fragmented.frames,splitMessage,List.length_cons,List.length_append,List.length_replicate,List.length_nil]
    at hlt
  omega

end Split

/-- A text in three frames. -/
theorem reassembles_iff_three :
    Reassembles .little openConnection [splitMessage openConnection.maxMessageSize 1]
      ((splitMessage openConnection.maxMessageSize 1).frames.map emptyReceipt) := by
  apply (reassembles_iff .little openConnection rfl rfl [splitMessage openConnection.maxMessageSize 1] _
    (splitMessage_carries .little _ 1)).mpr
  intro m hm
  rw [List.mem_singleton.mp hm]
  decide

/-- A text in `2^32` frames overflows the frame count. -/
theorem reassembles_fails :
    Carries .little [splitMessage openConnection.maxMessageSize (2^32-2)]
      ((splitMessage openConnection.maxMessageSize (2^32-2)).frames.map emptyReceipt) ∧
    ¬Reassembles .little openConnection [splitMessage openConnection.maxMessageSize (2^32-2)]
      ((splitMessage openConnection.maxMessageSize (2^32-2)).frames.map emptyReceipt) :=
  ⟨splitMessage_carries .little openConnection.maxMessageSize (2^32-2),splitMessage_overflows (2^32-2) (by decide)⟩

end ZNet.WebSocketConnections
