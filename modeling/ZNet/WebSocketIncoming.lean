import ZNet.WebSocketConnection
import ZNet.WebSocketDecode
import ZNet.Tables

/-!
# Incoming data of a connection

`processIncomingData` processes the first frame of the data and nothing after it, and
hands the completed messages on. What a frame does to a connection is said once, so that
the data of several frames can be compared with the frames one by one.
-/

namespace ZNet.WebSocketIncoming
open ByteOrder WebSocketFrames WebSocketConnections WebSocketDecode

inductive IncomingError
  | connectionNotFound
  | frame (e : Failure)

/-- The connections, and the calls of `handleCompletedMessage` so far. -/
structure WebSocketManager where
  connections : AList fun _ : ℕ => WebSocketConnection
  handled : List (ℕ×WebSocketMessage)

namespace WebSocketManager

def handleCompletedMessage (self : WebSocketManager) (connectionId : ℕ) (message : WebSocketMessage) :
    WebSocketManager :=
  { self with handled := self.handled++[(connectionId,message)] }

/-- The loop over the queued messages. -/
def handleQueued (self : WebSocketManager) (connection : WebSocketConnection) : WebSocketManager×WebSocketConnection :=
  match _h : connection.messageQueue with
  | [] => (self,connection)
  | message::queue =>
    handleQueued (self.handleCompletedMessage connection.connectionId message) { connection with messageQueue := queue }
termination_by connection.messageQueue.length
decreasing_by simp [_h]

def store (self : WebSocketManager) (connectionId : ℕ) (connection : WebSocketConnection) : WebSocketManager :=
  { self with connections := self.connections.insert connectionId connection }

/-- `now` is the clock. The loop over the data ends after its first round. -/
def processIncomingData (order : Endian) (now : ℕ) (self : WebSocketManager) (connectionId : ℕ) (data : List UInt8) :
    Except IncomingError Unit×WebSocketManager :=
  match self.connections.lookup connectionId with
  | none => (.error .connectionNotFound,self)
  | some connection =>
    match (if 0 < data.length then connection.processFrame order now data else (.ok (),connection)) with
    | (.error e,connection) => (.error (.frame e),self.store connectionId connection)
    | (.ok _,connection) =>
      let (self,connection) := self.handleQueued connection
      (.ok (),self.store connectionId connection)

end WebSocketManager

/-- The bytes of one frame. -/
structure EncodedFrame (order : Endian) where
  frame : WebSocketFrame
  bytes : List UInt8
  decodes : decode order (.init .text []) bytes = .ok (frame,bytes.length)

section Effects

/-- The message that a frame is appended to, with the frame. -/
def extended (c : WebSocketConnection) (f : WebSocketFrame) : WebSocketMessage :=
  (c.currentMessage.getD (.init f.opcode)).extend f

/-- A frame that `processFrame` fails for; with 2^32 frames in a message it does not even
return. -/
def Rejected (c : WebSocketConnection) (f : WebSocketFrame) : Prop :=
  IsData f ∧ (c.maxMessageSize < f.payload.length ∨ 2^32 ≤ (extended c f).frameCount) ∨
    f.opcode = .continuation ∧ (c.currentMessage = none ∨ 2^32 ≤ (extended c f).frameCount) ∨
    f.opcode = .ping ∧ c.state ≠ .opened

instance (c : WebSocketConnection) (f : WebSocketFrame) : Decidable (Rejected c f) :=
  inferInstanceAs (Decidable (_ ∨ _ ∨ _))

/-- The queue once an accepted frame is processed. -/
def released (c : WebSocketConnection) (f : WebSocketFrame) : List WebSocketMessage :=
  c.messageQueue++if IsFragment f ∧ (extended c f).isComplete = true then [extended c f] else []

/-- The connection after a call with an accepted frame, but for the time. -/
def accepted (c : WebSocketConnection) (f : WebSocketFrame) : WebSocketConnection :=
  { c with
    state := if f.opcode = .close then .closing else c.state
    currentMessage :=
      if IsFragment f then if (extended c f).isComplete then none else some (extended c f) else c.currentMessage
    messageQueue := []
    pingQueue := if f.opcode = .pong then c.pingQueue.tail else c.pingQueue }

variable {c : WebSocketConnection} {f : WebSocketFrame}

theorem settle_extended (hfragment : IsFragment f) :
    c.settle (extended c f) = { accepted c f with messageQueue := released c f } := by
  have hclose : f.opcode ≠ .close := by
    rintro h
    rcases hfragment with (h'|h')|h' <;> rw [h] at h' <;> cases h'
  have hpong : f.opcode ≠ .pong := by
    rintro h
    rcases hfragment with (h'|h')|h' <;> rw [h] at h' <;> cases h'
  rw [WebSocketConnection.settle,accepted,released,if_neg hclose,if_neg hpong,if_pos hfragment]
  by_cases hdone : (extended c f).isComplete = true
  · rw [if_pos hdone,if_pos hdone,if_pos ⟨hfragment,hdone⟩]
  · rw [if_neg hdone,if_neg hdone,if_neg (fun h => hdone h.2),List.append_nil]

/-- A fragment is appended, or the frame count overflows. -/
theorem appendCurrent_cases (hfragment : IsFragment f) :
    2^32 ≤ (extended c f).frameCount ∧
        c.appendCurrent (c.currentMessage.getD (.init f.opcode)) f = .error .trap ∨
      ¬2^32 ≤ (extended c f).frameCount ∧ c.appendCurrent (c.currentMessage.getD (.init f.opcode)) f =
        .ok { accepted c f with messageQueue := released c f } := by
  rw [appendCurrent_eq]
  by_cases hcount : 2^32 ≤ (extended c f).frameCount
  · exact .inl ⟨hcount,if_neg (Nat.not_lt.mpr hcount)⟩
  · refine .inr ⟨hcount,(if_pos (Nat.not_le.mp hcount)).trans ?_⟩
    rw [← settle_extended hfragment]
    rfl

theorem dispatch_data_cases (hdata : IsData f) :
    (c.maxMessageSize < f.payload.length ∨ 2^32 ≤ (extended c f).frameCount) ∧ (∃ e, c.dispatch f = .error e) ∨
      ¬(c.maxMessageSize < f.payload.length ∨ 2^32 ≤ (extended c f).frameCount) ∧
        c.dispatch f = .ok { accepted c f with messageQueue := released c f } := by
  rw [dispatch_data hdata,WebSocketConnection.processDataFrame]
  by_cases hlarge : c.maxMessageSize < f.payload.length
  · exact .inl ⟨.inl hlarge,_,if_pos hlarge⟩
  · rw [if_neg hlarge]
    rcases appendCurrent_cases (c:=c) (.inl hdata) with ⟨hcount,happend⟩|⟨hcount,happend⟩
    · exact .inl ⟨.inr hcount,_,happend⟩
    · exact .inr ⟨not_or.mpr ⟨hlarge,hcount⟩,happend⟩

/-- What a frame does to a connection, in all cases. -/
theorem dispatch_cases (c : WebSocketConnection) (f : WebSocketFrame) :
    Rejected c f ∧ (∃ e, c.dispatch f = .error e) ∨
      ¬Rejected c f ∧ c.dispatch f = .ok { accepted c f with messageQueue := released c f } := by
  cases hop : f.opcode with
  | text =>
    have hcases := dispatch_data_cases (c:=c) (.inl hop)
    simpa [Rejected,IsData,hop] using hcases
  | binary =>
    have hcases := dispatch_data_cases (c:=c) (.inr hop)
    simpa [Rejected,IsData,hop] using hcases
  | continuation =>
    simp only [Rejected,IsData,hop,dispatch_continuation hop,WebSocketConnection.processContinuationFrame]
    have hcases := appendCurrent_cases (c:=c) (f:=f) (.inr hop)
    cases hcurrent : c.currentMessage with
    | none => exact .inl ⟨by simp,_,rfl⟩
    | some message =>
      rw [hcurrent,Option.getD_some] at hcases
      rcases hcases with ⟨hcount,happend⟩|⟨hcount,happend⟩
      · exact .inl ⟨by simpa using hcount,_,happend⟩
      · exact .inr ⟨by simpa using hcount,happend⟩
  | ping =>
    simp only [Rejected,IsData,hop,WebSocketConnection.dispatch,WebSocketConnection.processPingFrame,
      WebSocketConnection.sendPong]
    by_cases hopen : c.state = .opened
    · refine .inr ⟨by simp [hopen],?_⟩
      rw [if_neg (not_not.mpr hopen)]
      simp [accepted,released,hop,IsFragment,IsData,bind,Except.bind,pure,Except.pure]
    · refine .inl ⟨by simp [hopen],.error .connectionNotOpen,?_⟩
      rw [if_pos hopen]
      rfl
  | pong =>
    refine .inr ⟨by simp [Rejected,IsData,hop],?_⟩
    simp [WebSocketConnection.dispatch,hop,WebSocketConnection.processPongFrame,accepted,released,IsFragment,IsData]
  | close =>
    refine .inr ⟨by simp [Rejected,IsData,hop],?_⟩
    simp [WebSocketConnection.dispatch,hop,WebSocketConnection.processCloseFrame,accepted,released,IsFragment,IsData]

/-- The connection after a call with a frame, but for the time. -/
def after (c : WebSocketConnection) (f : WebSocketFrame) : WebSocketConnection :=
  if Rejected c f then c else accepted c f

/-- The messages that a call with a frame hands on. -/
def handed (c : WebSocketConnection) (f : WebSocketFrame) : List WebSocketMessage :=
  if Rejected c f then [] else released c f

end Effects

section Calls

variable {order : Endian} {m : WebSocketManager} {id : ℕ} {c : WebSocketConnection}

theorem handleQueued_eq (m : WebSocketManager) (c : WebSocketConnection) :
    m.handleQueued c = ({ m with handled := m.handled++c.messageQueue.map fun message => (c.connectionId,message) },
      { c with messageQueue := [] }) := by
  induction hqueue : c.messageQueue generalizing m c with
  | nil =>
    rw [WebSocketManager.handleQueued]
    split
    · cases c
      cases hqueue
      simp
    · rename_i heq
      rw [hqueue] at heq
      cases heq
  | cons message queue ih =>
    rw [WebSocketManager.handleQueued]
    split
    · rename_i heq
      rw [hqueue] at heq
      cases heq
    · rename_i heq
      rw [hqueue] at heq
      cases heq
      rw [ih _ _ rfl]
      simp [WebSocketManager.handleCompletedMessage]

/-- A call processes the first frame of its data, whatever follows it. -/
theorem processIncomingData_frame (hlookup : m.connections.lookup id = some c) (now : ℕ) (f : EncodedFrame order)
    (rest : List UInt8) :
    (m.processIncomingData order now id (f.bytes++rest)).2 =
      ⟨m.connections.insert id ((after c f.frame).updateActivity now),
        m.handled++(handed c f.frame).map fun message => (c.connectionId,message)⟩ := by
  have hpos : 0 < (f.bytes++rest).length := by
    have htwo := two_le_of_decode f.decodes
    rw [List.length_append]
    omega
  have hdecode : decode order (.init .text []) (f.bytes++rest) = .ok (f.frame,f.bytes.length) := by
    rw [decode_append rest (by rw [f.decodes]; simp),f.decodes]
  simp only [WebSocketManager.processIncomingData,hlookup,if_pos hpos,WebSocketConnection.processFrame,hdecode]
  rcases dispatch_cases (c.updateActivity now) f.frame with ⟨hrejected,e,hdispatch⟩|⟨haccepted,hdispatch⟩
  · have hsame : Rejected c f.frame := hrejected
    simp only [hdispatch,after,handed,if_pos hsame]
    simp [WebSocketManager.store]
  · have hsame : ¬Rejected c f.frame := haccepted
    simp only [hdispatch,after,handed,if_neg hsame,handleQueued_eq]
    rfl

end Calls

/-- What the comparison looks at in a connection. -/
structure Progress where
  currentMessage : Option WebSocketMessage
  pingQueue : List ℕ
  state : WebSocketState
deriving DecidableEq

def progress (c : WebSocketConnection) : Progress := ⟨c.currentMessage,c.pingQueue,c.state⟩

/-- A frame that neither hands messages on nor changes the progress of the connection. -/
def Idle (c : WebSocketConnection) (f : WebSocketFrame) : Prop :=
  Rejected c f ∨ c.messageQueue = [] ∧
    (f.opcode = .ping ∨ f.opcode = .pong ∧ c.pingQueue = [] ∨ f.opcode = .close ∧ c.state = .closing)

section Progress

variable {c d e : WebSocketConnection} {f : WebSocketFrame}

theorem not_isFragment_iff : ¬IsFragment f ↔ f.opcode = .ping ∨ f.opcode = .pong ∨ f.opcode = .close := by
  rw [IsFragment,IsData]
  cases f.opcode <;> simp

/-- An idle frame leaves the connection as it was. -/
theorem after_of_idle (h : Idle c f) : after c f = c ∧ handed c f = [] := by
  rw [after,handed]
  by_cases hrejected : Rejected c f
  · rw [if_pos hrejected,if_pos hrejected]
    exact ⟨rfl,rfl⟩
  · obtain ⟨hqueue,hcontrol⟩ := h.resolve_left hrejected
    have hfragment : ¬IsFragment f := by
      rw [not_isFragment_iff]
      tauto
    have hnone : ¬(IsFragment f ∧ (extended c f).isComplete = true) := fun h => hfragment h.1
    rw [if_neg hrejected,if_neg hrejected,released,accepted,if_neg hfragment,if_neg hnone,hqueue]
    refine ⟨?_,rfl⟩
    obtain ⟨connectionId,url,protocols,state,activity,current,queue,pings,size⟩ := c
    simp only at hqueue hcontrol ⊢
    rcases hcontrol with hop|⟨hop,rfl⟩|⟨hop,rfl⟩ <;> simp [hop,hqueue]

/-- The message in progress grows while nothing is handed on. -/
def weight (current : Option WebSocketMessage) : ℕ := current.elim 0 (·.frameCount+1)

/-- What a connection can become without handing messages on: messages grow, pings are
answered, and a connection that is closing stays so. -/
structure Later (c d : WebSocketConnection) : Prop where
  current : d.currentMessage = c.currentMessage ∨ weight c.currentMessage < weight d.currentMessage
  pings : d.pingQueue <:+ c.pingQueue
  state : d.state = c.state ∨ d.state = .closing

theorem Later.refl (c : WebSocketConnection) : Later c c := ⟨.inl rfl,List.suffix_refl _,.inl rfl⟩

theorem Later.trans (h : Later c d) (h' : Later d e) : Later c e := by
  refine ⟨?_,h'.pings.trans h.pings,?_⟩
  · rcases h.current with hcd|hcd <;> rcases h'.current with hde|hde
    · exact .inl (hde.trans hcd)
    · exact .inr (hcd ▸ hde)
    · exact .inr (hde ▸ hcd)
    · exact .inr (hcd.trans hde)
  · rcases h'.state with hde|hde
    · rw [hde]
      exact h.state
    · exact .inr hde

/-- A change is never undone. -/
theorem Later.progress_eq (h : Later c d) (h' : Later d e) (heq : progress e = progress c) : progress d = progress c := by
  simp only [progress,Progress.mk.injEq] at heq ⊢
  obtain ⟨hcurrent,hpings,hstate⟩ := heq
  refine ⟨?_,?_,?_⟩
  · rcases h.current with hcd|hcd
    · exact hcd
    · rcases h'.current with hde|hde
      · rw [← hcurrent,hde] at hcd
        exact absurd hcd (lt_irrefl _)
      · rw [hcurrent] at hde
        exact absurd (hcd.trans hde) (lt_irrefl _)
  · have hback := h'.pings
    rw [hpings] at hback
    exact h.pings.eq_of_length_le hback.length_le
  · rcases h.state with hcd|hcd
    · exact hcd
    · rcases h'.state with hde|hde
      · rw [← hde,hstate]
      · rw [hcd,← hstate,hde]

theorem weight_extended : weight c.currentMessage < (extended c f).frameCount+1 := by
  cases hcurrent : c.currentMessage <;> simp [weight,extended,hcurrent,WebSocketMessage.extend]

/-- A frame that hands nothing on keeps the order, and is idle if it changes nothing. -/
theorem later_after (h : handed c f = []) : Later c (after c f) ∧ (progress (after c f) = progress c → Idle c f) := by
  rw [handed] at h
  rw [after]
  by_cases hrejected : Rejected c f
  · rw [if_pos hrejected]
    exact ⟨.refl c,fun _ => .inl hrejected⟩
  · rw [if_neg hrejected,released,List.append_eq_nil_iff] at h
    obtain ⟨hqueue,hmore⟩ := h
    rw [if_neg hrejected]
    by_cases hfragment : IsFragment f
    · have hdone : ¬(extended c f).isComplete = true := by
        intro hdone
        rw [if_pos ⟨hfragment,hdone⟩] at hmore
        cases hmore
      have hgrows : weight c.currentMessage < weight (accepted c f).currentMessage := by
        rw [accepted]
        simp only [if_pos hfragment,if_neg hdone]
        exact weight_extended
      have hother : f.opcode ≠ .close ∧ f.opcode ≠ .pong := by
        rcases hfragment with (hop|hop)|hop <;> simp [hop]
      refine ⟨⟨.inr hgrows,?_,?_⟩,?_⟩
      · simp [accepted,hother.2]
      · simp [accepted,hother.1]
      · intro heq
        rw [progress,progress,Progress.mk.injEq] at heq
        rw [heq.1] at hgrows
        exact absurd hgrows (lt_irrefl _)
    · rw [not_isFragment_iff] at hfragment
      rcases hfragment with hop|hop|hop
      · exact ⟨⟨by simp [accepted,hop,IsFragment,IsData],by simp [accepted,hop],by simp [accepted,hop]⟩,
          fun _ => .inr ⟨hqueue,.inl hop⟩⟩
      · refine ⟨⟨by simp [accepted,hop,IsFragment,IsData],?_,by simp [accepted,hop]⟩,?_⟩
        · simpa [accepted,hop] using List.tail_suffix c.pingQueue
        · intro heq
          have hpings := congrArg (fun p => p.pingQueue.length) heq
          simp only [progress,accepted,hop,if_true,List.length_tail] at hpings
          exact .inr ⟨hqueue,.inr (.inl ⟨hop,List.length_eq_zero_iff.mp (by omega)⟩)⟩
      · refine ⟨⟨by simp [accepted,hop,IsFragment,IsData],by simp [accepted,hop],by simp [accepted,hop]⟩,?_⟩
        intro heq
        have hstate := congrArg Progress.state heq
        simp only [progress,accepted,hop,if_true] at hstate
        exact .inr ⟨hqueue,.inr (.inr ⟨hop,hstate.symm⟩)⟩

end Progress

/-- One call for each frame, each with its time. -/
def oneByOne (order : Endian) (id : ℕ) (m : WebSocketManager) (calls : List (ℕ×EncodedFrame order)) :
    WebSocketManager :=
  calls.foldl (fun m call => (m.processIncomingData order call.1 id call.2.bytes).2) m

/-- The same messages were handed on in the same order, and the connection has the same
message in progress, pings and state. -/
def SameOutcome (id : ℕ) (m m' : WebSocketManager) : Prop :=
  m.handled = m'.handled ∧ (m.connections.lookup id).map progress = (m'.connections.lookup id).map progress

/-- The frames after the first one do nothing, or there is no frame and nothing to hand on. -/
def OnlyFirstCounts (c : WebSocketConnection) : List WebSocketFrame → Prop
  | [] => c.messageQueue = []
  | f::rest => ∀ g ∈ rest, Idle (after c f) g

section Runs

variable {order : Endian} {m : WebSocketManager} {id : ℕ} {c : WebSocketConnection}

theorem lookup_call (hlookup : m.connections.lookup id = some c) (now : ℕ) (f : EncodedFrame order) :
    (m.processIncomingData order now id f.bytes).2.connections.lookup id =
      some ((after c f.frame).updateActivity now) := by
  have h := processIncomingData_frame hlookup now f []
  rw [List.append_nil] at h
  rw [h]
  exact AList.lookup_insert _

theorem handled_call (hlookup : m.connections.lookup id = some c) (now : ℕ) (f : EncodedFrame order) :
    (m.processIncomingData order now id f.bytes).2.handled =
      m.handled++(handed c f.frame).map fun message => (c.connectionId,message) := by
  have h := processIncomingData_frame hlookup now f []
  rw [List.append_nil] at h
  rw [h]

/-- Whatever the calls, what they hand on is added to what was handed on before. -/
theorem oneByOne_later (hlookup : m.connections.lookup id = some c) (calls : List (ℕ×EncodedFrame order)) :
    ∃ d log, (oneByOne order id m calls).connections.lookup id = some d ∧
      (oneByOne order id m calls).handled = m.handled++log ∧ (log = [] → Later c d) := by
  induction calls generalizing m c with
  | nil => exact ⟨c,[],hlookup,(List.append_nil _).symm,fun _ => .refl c⟩
  | cons call calls ih =>
    obtain ⟨now,f⟩ := call
    obtain ⟨d,log,hd,hlog,hlater⟩ := ih (lookup_call hlookup now f)
    rw [handled_call hlookup,List.append_assoc] at hlog
    refine ⟨d,_,hd,hlog,?_⟩
    intro hnone
    obtain ⟨hhanded,hrest⟩ := List.append_eq_nil_iff.mp hnone
    have hfirst := (later_after (List.map_eq_nil_iff.mp hhanded)).1
    have hnext := hlater hrest
    exact hfirst.trans ⟨hnext.current,hnext.pings,hnext.state⟩

/-- Calls hand nothing on and change nothing exactly if all their frames are idle. -/
theorem oneByOne_idle_iff (hlookup : m.connections.lookup id = some c) (calls : List (ℕ×EncodedFrame order)) :
    (oneByOne order id m calls).handled = m.handled ∧
        ((oneByOne order id m calls).connections.lookup id).map progress = some (progress c) ↔
      ∀ call ∈ calls, Idle c call.2.frame := by
  induction calls generalizing m c with
  | nil => simp [oneByOne,hlookup]
  | cons call calls ih =>
    obtain ⟨now,f⟩ := call
    have hnext := lookup_call hlookup now f
    have hhandled := handled_call hlookup now f
    rw [List.forall_mem_cons]
    change (oneByOne order id (m.processIncomingData order now id f.bytes).2 calls).handled = m.handled ∧
      ((oneByOne order id (m.processIncomingData order now id f.bytes).2 calls).connections.lookup id).map progress =
        some (progress c) ↔ _
    by_cases hidle : Idle c f.frame
    · -- the call leaves all but the time as it was
      obtain ⟨hafter,hnone⟩ := after_of_idle hidle
      rw [hafter] at hnext
      rw [hnone,List.map_nil,List.append_nil] at hhandled
      have hrest := ih hnext
      rw [hhandled] at hrest
      rw [and_iff_right hidle]
      exact hrest
    · -- the change stays
      rw [iff_false_right (fun h => hidle h.1)]
      rintro ⟨hsame,hprogress⟩
      obtain ⟨d,log,hd,hlog,hlater⟩ := oneByOne_later hnext calls
      rw [hlog,hhandled,List.append_assoc,List.append_right_eq_self,List.append_eq_nil_iff,List.map_eq_nil_iff] at hsame
      rw [hd,Option.map_some,Option.some.injEq] at hprogress
      obtain ⟨hfirst,hback⟩ := later_after hsame.1
      have hrest := hlater hsame.2
      exact hidle (hback (hfirst.progress_eq ⟨hrest.current,hrest.pings,hrest.state⟩ hprogress))

theorem oneByOne_unknown (hlookup : m.connections.lookup id = none) (calls : List (ℕ×EncodedFrame order)) :
    oneByOne order id m calls = m := by
  have hcall : ∀ now data, (m.processIncomingData order now id data).2 = m := by
    intro now data
    simp only [WebSocketManager.processIncomingData,hlookup]
  induction calls with
  | nil => rfl
  | cons call calls ih =>
    rw [oneByOne,List.foldl_cons,hcall]
    exact ih

end Runs

/-- The frames of a buffer in one call, and one call for each of them, hand the same
messages on and leave the connection alike exactly if only the first frame counts, or
there is no such connection. -/
theorem processIncomingData_batch_iff (order : Endian) (m : WebSocketManager) (id now : ℕ)
    (calls : List (ℕ×EncodedFrame order)) :
    SameOutcome id (m.processIncomingData order now id (calls.flatMap (·.2.bytes))).2 (oneByOne order id m calls) ↔
      ∀ c, m.connections.lookup id = some c → OnlyFirstCounts c (calls.map (·.2.frame)) := by
  cases hlookup : m.connections.lookup id with
  | none =>
    have hbatch : (m.processIncomingData order now id (calls.flatMap (·.2.bytes))).2 = m := by
      simp only [WebSocketManager.processIncomingData,hlookup]
    rw [hbatch,oneByOne_unknown hlookup]
    simp [SameOutcome]
  | some c =>
    simp only [Option.some.injEq,forall_eq']
    cases calls with
    | nil =>
      have hbatch : (m.processIncomingData order now id []).2 =
          ⟨m.connections.insert id { c with messageQueue := [] },
            m.handled++c.messageQueue.map fun message => (c.connectionId,message)⟩ := by
        simp [WebSocketManager.processIncomingData,hlookup,handleQueued_eq,WebSocketManager.store]
      rw [List.flatMap_nil,hbatch]
      simp [SameOutcome,oneByOne,OnlyFirstCounts,hlookup,progress]
    | cons call calls =>
      obtain ⟨now',f⟩ := call
      have hfirst := lookup_call hlookup now' f
      have hrest := oneByOne_idle_iff hfirst calls
      have hbatch := processIncomingData_frame hlookup now f (calls.flatMap (·.2.bytes))
      have hcounts : OnlyFirstCounts c (((now',f)::calls).map (·.2.frame)) ↔
          ∀ call ∈ calls, Idle ((after c f.frame).updateActivity now') call.2.frame := List.forall_mem_map
      have hone : oneByOne order id m ((now',f)::calls) =
          oneByOne order id (m.processIncomingData order now' id f.bytes).2 calls := rfl
      rw [List.flatMap_cons,hbatch,hcounts,← hrest,hone,SameOutcome,handled_call hlookup now' f]
      simp only [AList.lookup_insert,Option.map_some]
      exact and_congr eq_comm eq_comm

/-- An empty text in one frame. -/
def emptyText (order : Endian) : EncodedFrame order := ⟨emptyFrame true .text,[0x81,0],rfl⟩

def openManager : WebSocketManager := ⟨(∅ : AList fun _ : ℕ => WebSocketConnection).insert 1 openConnection,[]⟩

/-- Of two texts in one buffer the second one is lost. -/
theorem processIncomingData_drops_frame :
    (openManager.processIncomingData .little 0 1 [0x81,0,0x81,0]).2.handled = [(1,⟨.text,[],true,1⟩)] ∧
    (oneByOne .little 1 openManager [(0,emptyText .little),(0,emptyText .little)]).handled =
      [(1,⟨.text,[],true,1⟩),(1,⟨.text,[],true,1⟩)] ∧
    ¬∀ order m id now calls,
      SameOutcome id (m.processIncomingData order now id (calls.flatMap (·.2.bytes))).2 (oneByOne order id m calls) := by
  have hlookup : openManager.connections.lookup 1 = some openConnection := AList.lookup_insert _
  have hhanded : handed openConnection (emptyFrame true .text) = [⟨.text,[],true,1⟩] := by decide
  have hafter : after openConnection (emptyFrame true .text) = openConnection := by decide
  have hbatch := processIncomingData_frame hlookup 0 (emptyText .little) [0x81,0]
  have hfirst := lookup_call hlookup 0 (emptyText .little)
  have hone : (oneByOne .little 1 openManager [(0,emptyText .little),(0,emptyText .little)]).handled =
      [(1,⟨.text,[],true,1⟩),(1,⟨.text,[],true,1⟩)] := by
    have hsecond := handled_call hfirst 0 (emptyText .little)
    rw [handled_call hlookup 0 (emptyText .little)] at hsecond
    rw [oneByOne]
    refine hsecond.trans ?_
    simp only [emptyText,hafter]
    rfl
  have hbatch : (openManager.processIncomingData .little 0 1 [0x81,0,0x81,0]).2.handled = [(1,⟨.text,[],true,1⟩)] := by
    refine (congrArg WebSocketManager.handled hbatch).trans ?_
    simp only [emptyText,hhanded]
    rfl
  refine ⟨hbatch,hone,?_⟩
  intro h
  have hsame := (h .little openManager 1 0 [(0,emptyText .little),(0,emptyText .little)]).1
  rw [hone] at hsame
  have hcons := hbatch.symm.trans hsame
  cases hcons

end ZNet.WebSocketIncoming
