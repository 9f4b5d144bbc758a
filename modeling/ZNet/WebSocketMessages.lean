import ZNet.WebSocketConnection
import ZNet.Runs

/-!
# Messages over runs of a connection

Any sequence of `processFrame` calls, failed ones included. Fragments that continue a
message are appended without a look at its size, and a text or binary frame in the
middle of a message is appended to it.
-/

namespace ZNet.WebSocketMessages
open ByteOrder WebSocketFrames WebSocketConnections Runs

/-- The connection after a call. -/
def receive (order : Endian) (c : WebSocketConnection) (r : Receipt) : WebSocketConnection :=
  (c.processFrame order r.now r.frameData).2

/-- The message that a frame is appended to. -/
def target (c : WebSocketConnection) (frame : WebSocketFrame) : Option WebSocketMessage :=
  if IsData frame then
    if frame.payload.length > c.maxMessageSize then none else some (c.currentMessage.getD (.init frame.opcode))
  else if frame.opcode = .continuation then c.currentMessage
  else none

/-- The call appends this frame to this message. -/
structure Appends (order : Endian) (c : WebSocketConnection) (r : Receipt) (frame : WebSocketFrame)
    (message : WebSocketMessage) : Prop where
  holds : r.Holds order frame
  target : target c frame = some message
  count : message.frameCount+1 < 2^32

section Steps

variable {order : Endian} {c : WebSocketConnection} {r : Receipt} {frame : WebSocketFrame} {message : WebSocketMessage}

theorem holds_unique {frame' : WebSocketFrame} (h : r.Holds order frame) (h' : r.Holds order frame') : frame = frame' := by
  obtain ⟨n,hn⟩ := h
  obtain ⟨n',hn'⟩ := h'
  rw [hn] at hn'
  cases hn'
  rfl

theorem dispatch_target (h : target c frame = some message) : c.dispatch frame = c.appendCurrent message frame := by
  rw [target] at h
  split_ifs at h with hdata hlarge hcont
  · cases h
    rw [dispatch_data hdata,WebSocketConnection.processDataFrame,if_neg hlarge]
  · rw [dispatch_continuation hcont,WebSocketConnection.processContinuationFrame,h]

/-- A frame that is appended to no message leaves the messages as they are, and a
fragment among them is refused with an error. -/
theorem dispatch_no_target (h : target c frame = none) :
    (∃ e, c.dispatch frame = .error (.error e)) ∨
    ¬IsFragment frame ∧ ∃ c', c.dispatch frame = .ok c' ∧ c'.currentMessage = c.currentMessage ∧
      c'.messageQueue = c.messageQueue ∧ c'.maxMessageSize = c.maxMessageSize := by
  rw [target] at h
  split_ifs at h with hdata hlarge hcont
  · left
    rw [dispatch_data hdata,WebSocketConnection.processDataFrame,if_pos hlarge]
    exact ⟨_,rfl⟩
  · left
    rw [dispatch_continuation hcont,WebSocketConnection.processContinuationFrame,h]
    exact ⟨_,rfl⟩
  · rw [WebSocketConnection.dispatch]
    have hfrag : ¬IsFragment frame := fun hfrag => hfrag.elim hdata hcont
    cases hop : frame.opcode with
    | continuation => exact (hcont hop).elim
    | text => exact (hdata (Or.inl hop)).elim
    | binary => exact (hdata (Or.inr hop)).elim
    | ping =>
      simp only [WebSocketConnection.processPingFrame,WebSocketConnection.sendPong]
      split_ifs
      · exact Or.inl ⟨_,rfl⟩
      · exact Or.inr ⟨hfrag,c,rfl,rfl,rfl,rfl⟩
    | pong => exact Or.inr ⟨hfrag,_,rfl,rfl,rfl,rfl⟩
    | close => exact Or.inr ⟨hfrag,_,rfl,rfl,rfl,rfl⟩

theorem processFrame_appends (h : Appends order c r frame message) :
    c.processFrame order r.now r.frameData = (.ok (),(c.updateActivity r.now).settle (message.extend frame)) := by
  obtain ⟨n,hdecode⟩ := h.holds
  have htarget : target (c.updateActivity r.now) frame = some message := h.target
  rw [WebSocketConnection.processFrame,hdecode]
  simp only [dispatch_target htarget,appendCurrent_eq,if_pos h.count]

/-- The messages of a connection and its limit are unchanged. -/
structure SameMessages (c c' : WebSocketConnection) : Prop where
  currentMessage : c'.currentMessage = c.currentMessage
  messageQueue : c'.messageQueue = c.messageQueue
  maxMessageSize : c'.maxMessageSize = c.maxMessageSize

/-- A call that appends no frame leaves the messages as they are, and accepts no fragment. -/
theorem processFrame_not_appends (h : ¬∃ frame message, Appends order c r frame message) :
    SameMessages c (receive order c r) ∧ (∀ frame, r.Holds order frame → IsFragment frame →
      ∃ e, (c.processFrame order r.now r.frameData).1 = .error e) := by
  rw [receive,WebSocketConnection.processFrame]
  cases hdecode : decode order (.init .text []) r.frameData with
  | error e => exact ⟨⟨rfl,rfl,rfl⟩,fun _ _ _ => ⟨e,rfl⟩⟩
  | ok p =>
    obtain ⟨frame,n⟩ := p
    have hframe : ∀ frame', r.Holds order frame' → frame' = frame := fun _ h => holds_unique h ⟨n,hdecode⟩
    cases htarget : target (c.updateActivity r.now) frame with
    | some message =>
      have hcount : ¬message.frameCount+1 < 2^32 := fun hcount => h ⟨frame,message,⟨n,hdecode⟩,htarget,hcount⟩
      simp only [dispatch_target htarget,appendCurrent_eq,if_neg hcount]
      exact ⟨⟨rfl,rfl,rfl⟩,fun _ _ _ => ⟨_,rfl⟩⟩
    | none =>
      rcases dispatch_no_target htarget with ⟨e,he⟩ | ⟨hfrag,c',hc',hcurrent,hqueue,hmax⟩
      · simp only [he]
        exact ⟨⟨rfl,rfl,rfl⟩,fun _ _ _ => ⟨_,rfl⟩⟩
      · simp only [hc']
        refine ⟨⟨hcurrent,hqueue,hmax⟩,?_⟩
        intro frame' hholds hfrag'
        rw [hframe frame' hholds] at hfrag'
        exact (hfrag hfrag').elim

end Steps

section Size

variable {order : Endian} {c : WebSocketConnection} {r : Receipt} {message : WebSocketMessage}

/-- No message is larger than the limit. -/
structure Bounded (c : WebSocketConnection) : Prop where
  current : ∀ message ∈ c.currentMessage, message.completeData.length ≤ c.maxMessageSize
  queue : ∀ message ∈ c.messageQueue, message.completeData.length ≤ c.maxMessageSize

/-- A frame that is appended to the message in progress leaves it within the limit. -/
def Fits (order : Endian) (c : WebSocketConnection) (r : Receipt) : Prop :=
  ∀ frame message, Appends order c r frame message → c.currentMessage = some message →
    message.completeData.length+frame.payload.length ≤ c.maxMessageSize

theorem Bounded.same {c' : WebSocketConnection} (h : Bounded c) (hsame : SameMessages c c') : Bounded c' where
  current := by
    rw [hsame.currentMessage,hsame.maxMessageSize]
    exact h.current
  queue := by
    rw [hsame.messageQueue,hsame.maxMessageSize]
    exact h.queue

theorem settle_bounded_iff (h : Bounded c) :
    Bounded (c.settle message) ↔ message.completeData.length ≤ c.maxMessageSize := by
  rw [WebSocketConnection.settle]
  split_ifs with hend
  · constructor
    · intro hb
      exact hb.queue message (by simp)
    · intro hle
      refine ⟨by simp,?_⟩
      intro m hm
      rcases List.mem_append.mp hm with hm | hm
      · exact h.queue m hm
      · rw [List.mem_singleton.mp hm]
        exact hle
  · constructor
    · intro hb
      exact hb.current message rfl
    · intro hle
      refine ⟨?_,h.queue⟩
      rintro m ⟨⟩
      exact hle

/-- A frame that starts a message has been checked against the limit. -/
theorem Appends.start_le {frame : WebSocketFrame} (h : Appends order c r frame message)
    (hcurrent : c.currentMessage = none) : (message.extend frame).completeData.length ≤ c.maxMessageSize := by
  have htarget := h.target
  rw [WebSocketMessages.target,hcurrent] at htarget
  split_ifs at htarget with hdata hlarge hcont
  · cases htarget
    rw [WebSocketMessage.extend]
    exact Nat.not_lt.mp hlarge

theorem bounded_receive_iff (h : Bounded c) : Bounded (receive order c r) ↔ Fits order c r := by
  by_cases happ : ∃ frame message, Appends order c r frame message
  · obtain ⟨frame,message,happ⟩ := happ
    have hactive : Bounded (c.updateActivity r.now) := ⟨h.current,h.queue⟩
    rw [receive,processFrame_appends happ,settle_bounded_iff hactive]
    cases hcurrent : c.currentMessage with
    | none =>
      refine iff_of_true (happ.start_le hcurrent) ?_
      intro _ _ _ hsome
      rw [hcurrent] at hsome
      cases hsome
    | some current =>
      have hlength : (message.extend frame).completeData.length = message.completeData.length+frame.payload.length := by
        rw [WebSocketMessage.extend,List.length_append]
      rw [hlength]
      constructor
      · intro hle frame' message' happ' _
        obtain rfl := holds_unique happ.holds happ'.holds
        obtain rfl := Option.some.inj (happ.target.symm.trans happ'.target)
        exact hle
      · intro hfits
        have htarget := happ.target
        have hmessage : c.currentMessage = some message := by
          rw [target,hcurrent] at htarget
          split_ifs at htarget
          · rw [hcurrent,← htarget,Option.getD_some]
          · rw [hcurrent,← htarget]
        exact hfits frame message happ hmessage
  · obtain ⟨hsame,-⟩ := processFrame_not_appends happ
    refine iff_of_true (h.same hsame) ?_
    intro frame message happ'
    exact (happ ⟨frame,message,happ'⟩).elim

/-- Over any sequence of calls on a connection without messages, every message stays
within the limit exactly if no frame is appended to the message in progress that takes
it beyond the limit. -/
theorem message_size_iff (order : Endian) (c : WebSocketConnection) (hcurrent : c.currentMessage = none)
    (hqueue : c.messageQueue = []) (rs : List Receipt) :
    Along (receive order) (fun c r => Bounded (receive order c r)) c rs ↔ Along (receive order) (Fits order) c rs := by
  apply along_iff (I:=Bounded)
  · intro c r h hfits
    exact (bounded_receive_iff h).mpr hfits
  · intro c r h
    exact bounded_receive_iff h
  · constructor
    · rw [hcurrent]
      nofun
    · rw [hqueue]
      nofun

/-- An open connection that takes messages of two bytes. -/
def twoByteConnection : WebSocketConnection := { openConnection with maxMessageSize := 2 }

/-- A message of two bytes in two fragments. -/
theorem message_size_iff_twoBytes :
    Along (receive .little) (fun c r => Bounded (receive .little c r)) twoByteConnection
      [⟨0,[0x01,1,97]⟩,⟨0,[0x80,1,98]⟩] := by
  apply (message_size_iff .little twoByteConnection rfl rfl [⟨0,[0x01,1,97]⟩,⟨0,[0x80,1,98]⟩]).mpr
  refine ⟨?_,?_,trivial⟩
  · intro frame message _ hsome
    cases hsome
  · rintro frame message ⟨⟨n,hdecode⟩,-,-⟩ hsome
    cases hdecode
    cases hsome
    decide

/-- An open connection that takes messages of one byte. -/
def oneByteConnection : WebSocketConnection := { openConnection with maxMessageSize := 1 }

/-- Two fragments of one byte make a message of two bytes. -/
theorem message_size_fails :
    ¬Along (receive .little) (fun c r => Bounded (receive .little c r)) oneByteConnection
      [⟨0,[0x01,1,97]⟩,⟨0,[0x80,1,98]⟩] := by
  rintro ⟨-,h,-⟩
  exact absurd (h.queue ⟨.text,[97,98],true,2⟩ (List.mem_singleton.mpr rfl)) (by decide)

end Size

section Merging

/-- A connection and the fragments it has accepted, in order. -/
structure History where
  connection : WebSocketConnection
  accepted : List WebSocketFrame

/-- The fragment that a call accepts, if it does. -/
def acceptedFragment (order : Endian) (c : WebSocketConnection) (r : Receipt) : List WebSocketFrame :=
  match (c.processFrame order r.now r.frameData).1,decode order (.init .text []) r.frameData with
  | .ok _,.ok (frame,_) => if IsFragment frame then [frame] else []
  | _,_ => []

def History.step (order : Endian) (h : History) (r : Receipt) : History :=
  ⟨receive order h.connection r,h.accepted++acceptedFragment order h.connection r⟩

/-- One text or binary frame followed by continuation frames. -/
def IsMessage : List WebSocketFrame → Prop
  | [] => False
  | first::rest => IsData first ∧ ∀ frame ∈ rest, frame.opcode = .continuation

/-- The concatenation of the frames. -/
def concatenation (isComplete : Bool) (frames : List WebSocketFrame) : WebSocketMessage :=
  ⟨(frames.head?.map (·.opcode)).getD .text,frames.flatMap (·.payload),isComplete,frames.length⟩

/-- The accepted fragments fall into consecutive messages, each up to its FIN bit, and
these are the queue. -/
def Unmerged (h : History) : Prop :=
  ∃ (groups : List (List WebSocketFrame)) (rest : List WebSocketFrame), h.accepted = groups.flatten++rest ∧
    (∀ frames ∈ groups, IsMessage frames ∧ OnlyLastFin frames) ∧
    h.connection.messageQueue = groups.map (concatenation true)

/-- A text or binary frame in the middle of a message is refused with an error and
leaves the messages as they are. -/
def Refuses (order : Endian) (c : WebSocketConnection) (r : Receipt) : Prop :=
  ∀ frame, r.Holds order frame → IsData frame → c.currentMessage ≠ none →
    (∃ e, (c.processFrame order r.now r.frameData).1 = .error (.error e)) ∧
      (receive order c r).currentMessage = c.currentMessage ∧ (receive order c r).messageQueue = c.messageQueue

/-- A text or binary frame in the middle of a message is too large for any message. -/
def Uninterrupted (order : Endian) (c : WebSocketConnection) (r : Receipt) : Prop :=
  ∀ frame, r.Holds order frame → IsData frame → c.currentMessage ≠ none → frame.payload.length > c.maxMessageSize

/-- As `Unmerged`, with the message in progress. -/
def Segmented (h : History) : Prop :=
  ∃ (groups : List (List WebSocketFrame)) (rest : List WebSocketFrame), h.accepted = groups.flatten++rest ∧
    (∀ frames ∈ groups, IsMessage frames ∧ OnlyLastFin frames) ∧
    h.connection.messageQueue = groups.map (concatenation true) ∧ (∀ frame ∈ rest, frame.fin = false) ∧
    (h.connection.currentMessage = none ∧ rest = [] ∨
      IsMessage rest ∧ h.connection.currentMessage = some (concatenation false rest))

variable {order : Endian} {c : WebSocketConnection} {r : Receipt} {frame : WebSocketFrame} {message : WebSocketMessage}

theorem Segmented.unmerged {h : History} (hs : Segmented h) : Unmerged h := by
  obtain ⟨groups,rest,haccepted,hgroups,hqueue,-⟩ := hs
  exact ⟨groups,rest,haccepted,hgroups,hqueue⟩

theorem Appends.isFragment (h : Appends order c r frame message) : IsFragment frame := by
  have htarget := h.target
  rw [WebSocketMessages.target] at htarget
  split_ifs at htarget with hdata hlarge hcont
  · exact Or.inl hdata
  · exact Or.inr hcont

theorem acceptedFragment_appends (h : Appends order c r frame message) : acceptedFragment order c r = [frame] := by
  obtain ⟨n,hdecode⟩ := h.holds
  rw [acceptedFragment,processFrame_appends h,hdecode]
  exact if_pos h.isFragment

theorem acceptedFragment_not_appends (h : ¬∃ frame message, Appends order c r frame message) :
    acceptedFragment order c r = [] := by
  obtain ⟨-,hfails⟩ := processFrame_not_appends h
  rw [acceptedFragment]
  split
  · next hok hdecode =>
    split_ifs with hfrag
    · obtain ⟨e,he⟩ := hfails _ ⟨_,hdecode⟩ hfrag
      rw [he] at hok
      cases hok
    · rfl
  · rfl

/-- In a run without interruptions a frame is appended to the message it belongs to. -/
theorem Appends.cases (h : Appends order c r frame message) (hun : Uninterrupted order c r) :
    IsData frame ∧ c.currentMessage = none ∧ message = .init frame.opcode ∨
    frame.opcode = .continuation ∧ c.currentMessage = some message := by
  have htarget := h.target
  rw [WebSocketMessages.target] at htarget
  split_ifs at htarget with hdata hlarge hcont
  · cases hcurrent : c.currentMessage with
    | none =>
      rw [hcurrent] at htarget
      exact Or.inl ⟨hdata,rfl,(Option.some.inj htarget).symm⟩
    | some current => exact (hlarge (hun frame h.holds hdata (by simp [hcurrent]))).elim
  · exact Or.inr ⟨hcont,htarget⟩

/-- The message in progress with one more frame is again a concatenation. -/
theorem extend_concatenation {frames : List WebSocketFrame} (hne : frames ≠ []) (frame : WebSocketFrame) :
    (concatenation false frames).extend frame = concatenation frame.fin (frames++[frame]) := by
  cases frames with
  | nil => exact (hne rfl).elim
  | cons first rest => simp [concatenation,WebSocketMessage.extend]

theorem IsMessage.ne_nil {frames : List WebSocketFrame} (h : IsMessage frames) : frames ≠ [] := by
  rintro rfl
  exact h

theorem IsMessage.append {frames : List WebSocketFrame} (h : IsMessage frames) (hcont : frame.opcode = .continuation) :
    IsMessage (frames++[frame]) := by
  cases frames with
  | nil => exact h.elim
  | cons first rest =>
    refine ⟨h.1,?_⟩
    intro f hf
    rcases List.mem_append.mp hf with hf | hf
    · exact h.2 f hf
    · rw [List.mem_singleton.mp hf]
      exact hcont

theorem onlyLastFin_append {frames : List WebSocketFrame} (h : ∀ f ∈ frames, f.fin = false) (hfin : frame.fin = true) :
    OnlyLastFin (frames++[frame]) := by
  induction frames with
  | nil => exact hfin
  | cons first rest ih =>
    have hrest := ih fun f hf => h f (List.mem_cons_of_mem _ hf)
    cases rest with
    | nil => exact ⟨h first (List.mem_cons_self ..),hrest⟩
    | cons next rest => exact ⟨h first (List.mem_cons_self ..),hrest⟩

/-- A message that was extended is in progress, or complete and last in the queue. -/
theorem settle_segmented {groups : List (List WebSocketFrame)} {frames : List WebSocketFrame}
    (hgroups : ∀ g ∈ groups, IsMessage g ∧ OnlyLastFin g)
    (hqueue : c.messageQueue = groups.map (concatenation true)) (hfin : ∀ f ∈ frames, f.fin = false)
    (hframes : IsMessage (frames++[frame])) :
    Segmented ⟨c.settle (concatenation frame.fin (frames++[frame])),groups.flatten++(frames++[frame])⟩ := by
  rw [WebSocketConnection.settle]
  cases hlast : frame.fin with
  | true =>
    refine ⟨groups++[frames++[frame]],[],by simp,?_,?_,by simp,Or.inl ⟨rfl,rfl⟩⟩
    · intro g hg
      rcases List.mem_append.mp hg with hg | hg
      · exact hgroups g hg
      · rw [List.mem_singleton.mp hg]
        exact ⟨hframes,onlyLastFin_append hfin hlast⟩
    · simp [concatenation,hqueue]
  | false =>
    refine ⟨groups,frames++[frame],rfl,hgroups,hqueue,?_,Or.inr ⟨hframes,rfl⟩⟩
    intro f hf
    rcases List.mem_append.mp hf with hf | hf
    · exact hfin f hf
    · rw [List.mem_singleton.mp hf]
      exact hlast

theorem segmented_step {h : History} (hs : Segmented h) (hun : Uninterrupted order h.connection r) :
    Segmented (h.step order r) := by
  obtain ⟨groups,rest,haccepted,hgroups,hqueue,hfin,hcurrent⟩ := hs
  by_cases happ : ∃ frame message, Appends order h.connection r frame message
  · obtain ⟨frame,message,happ⟩ := happ
    have hactive : (h.connection.updateActivity r.now).messageQueue = groups.map (concatenation true) := hqueue
    rw [History.step,receive,processFrame_appends happ,acceptedFragment_appends happ,haccepted,List.append_assoc]
    rcases happ.cases hun with ⟨hdata,hnone,rfl⟩ | ⟨hcont,hsome⟩
    · have hrest : rest = [] := by
        rcases hcurrent with ⟨-,hrest⟩ | ⟨-,hsome⟩
        · exact hrest
        · rw [hnone] at hsome
          cases hsome
      have hstart : (WebSocketMessage.init frame.opcode).extend frame = concatenation frame.fin ([]++[frame]) := by
        simp [concatenation,WebSocketMessage.extend,WebSocketMessage.init]
      rw [hrest,hstart]
      exact settle_segmented hgroups hactive (List.forall_mem_nil _) ⟨hdata,List.forall_mem_nil _⟩
    · obtain ⟨hmessage,heq⟩ : IsMessage rest ∧ message = concatenation false rest := by
        rcases hcurrent with ⟨hnone,-⟩ | ⟨hmessage,hsome'⟩
        · rw [hsome] at hnone
          cases hnone
        · exact ⟨hmessage,Option.some.inj (hsome.symm.trans hsome')⟩
      rw [heq,extend_concatenation hmessage.ne_nil]
      exact settle_segmented hgroups hactive hfin (hmessage.append hcont)
  · obtain ⟨hsame,-⟩ := processFrame_not_appends happ
    rw [History.step,acceptedFragment_not_appends happ,List.append_nil]
    refine ⟨groups,rest,haccepted,hgroups,hsame.messageQueue.trans hqueue,hfin,?_⟩
    rw [hsame.currentMessage]
    exact hcurrent

/-- A text or binary frame in the middle of a message is refused only for its size. -/
theorem refuses_iff : Refuses order c r ↔ Uninterrupted order c r := by
  constructor
  · intro hrefuses frame hholds hdata hcurrent
    obtain ⟨⟨e,he⟩,-⟩ := hrefuses frame hholds hdata hcurrent
    by_contra hle
    have htarget : target c frame = some (c.currentMessage.getD (.init frame.opcode)) := by
      rw [target,if_pos hdata,if_neg hle]
    by_cases hcount : (c.currentMessage.getD (.init frame.opcode)).frameCount+1 < 2^32
    · rw [processFrame_appends ⟨hholds,htarget,hcount⟩] at he
      cases he
    · obtain ⟨n,hdecode⟩ := hholds
      have hactive : target (c.updateActivity r.now) frame = some (c.currentMessage.getD (.init frame.opcode)) := htarget
      rw [WebSocketConnection.processFrame,hdecode] at he
      simp only [dispatch_target hactive,appendCurrent_eq,if_neg hcount] at he
      cases he
  · intro hun frame hholds hdata hcurrent
    have htarget : target c frame = none := by
      rw [target,if_pos hdata,if_pos (hun frame hholds hdata hcurrent)]
    have happ : ¬∃ frame message, Appends order c r frame message := by
      rintro ⟨frame',message,happ⟩
      have hsome := happ.target
      rw [holds_unique happ.holds hholds,htarget] at hsome
      cases hsome
    obtain ⟨hsame,-⟩ := processFrame_not_appends happ
    refine ⟨?_,hsame.currentMessage,hsame.messageQueue⟩
    obtain ⟨n,hdecode⟩ := hholds
    have hactive : target (c.updateActivity r.now) frame = none := htarget
    rcases dispatch_no_target hactive with ⟨e,he⟩ | ⟨hfrag,-⟩
    · rw [WebSocketConnection.processFrame,hdecode]
      simp only [he]
      exact ⟨e,rfl⟩
    · exact (hfrag (Or.inl hdata)).elim

/-- Over any sequence of calls on a connection without messages, messages stay apart and
every text or binary frame in the middle of a message is refused exactly if each such
frame is larger than a message may be. -/
theorem messages_unmerged_iff (order : Endian) (c : WebSocketConnection) (hcurrent : c.currentMessage = none)
    (hqueue : c.messageQueue = []) (rs : List Receipt) :
    Along (History.step order) (fun h r => Refuses order h.connection r ∧ Unmerged (h.step order r)) ⟨c,[]⟩ rs ↔
    Along (History.step order) (fun h r => Uninterrupted order h.connection r) ⟨c,[]⟩ rs := by
  apply along_iff (I:=Segmented)
  · intro h r hs hun
    exact segmented_step hs hun
  · intro h r hs
    constructor
    · intro hp
      exact refuses_iff.mp hp.1
    · intro hun
      exact ⟨refuses_iff.mpr hun,(segmented_step hs hun).unmerged⟩
  · exact ⟨[],[],rfl,nofun,hqueue,nofun,Or.inl ⟨hcurrent,rfl⟩⟩

theorem messages_unmerged_iff_two :
    Along (History.step .little) (fun h r => Refuses .little h.connection r ∧ Unmerged (h.step .little r))
      ⟨openConnection,[]⟩ [⟨0,[0x01,1,97]⟩,⟨0,[0x80,1,98]⟩] := by
  apply (messages_unmerged_iff .little openConnection rfl rfl [⟨0,[0x01,1,97]⟩,⟨0,[0x80,1,98]⟩]).mpr
  refine ⟨?_,?_,trivial⟩
  · intro frame _ _ hcurrent
    exact (hcurrent rfl).elim
  · rintro frame ⟨n,hdecode⟩ hdata
    cases hdecode
    exact absurd hdata (by decide)

/-- The text frame after the first fragment of another text is appended to it. -/
theorem messages_unmerged_fails :
    ¬Along (History.step .little) (fun h r => Refuses .little h.connection r ∧ Unmerged (h.step .little r))
      ⟨openConnection,[]⟩ [⟨0,[0x01,1,97]⟩,⟨0,[0x81,1,98]⟩] := by
  rintro ⟨-,⟨hrefuses,-⟩,-⟩
  obtain ⟨-,-,hqueue⟩ := hrefuses { WebSocketFrame.init .text [98] with fin := true } ⟨3,rfl⟩ (Or.inl rfl) nofun
  cases hqueue

end Merging

end ZNet.WebSocketMessages
