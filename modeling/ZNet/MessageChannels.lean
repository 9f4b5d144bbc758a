import ZNet.MessagePorts

/-!
# Message channels

Both ends of a channel hold the same messages. The one that is closed second has lost its
peer, and closing it writes to what was freed.
-/

namespace ZNet.MessagePorts
open Tables Heaps Runs

variable {δ : Type}

/-- A port is connected once, and before anything is posted. -/
def Paired (s : World δ) : Call δ → Prop
  | .connectPorts p q =>
    peer s.history p = none ∧ peer s.history q = none ∧ inbox s.history p = [] ∧ inbox s.history q = []
  | _ => True

instance [DecidableEq δ] (s : World δ) : (call : Call δ) → Decidable (Paired s call)
  | .connectPorts p q => inferInstanceAs (Decidable
    (peer s.history p = none ∧ peer s.history q = none ∧ inbox s.history p = [] ∧ inbox s.history q = []))
  | .createPort _ _ _ => .isTrue trivial
  | .postMessageToPort _ _ _ => .isTrue trivial
  | .pingPort _ _ => .isTrue trivial
  | .closePort _ => .isTrue trivial
  | .broadcastToWorker _ _ _ => .isTrue trivial
  | .addEventListener _ _ _ => .isTrue trivial
  | .removeEventListener _ _ => .isTrue trivial

/-- What was posted, the pings left out. -/
def posts (messages : List (Message δ)) : List (Message δ) := messages.filter (·.type = .message)

/-- Two ports that were connected have both been closed. -/
def BothClosed (history : List (Event δ)) : Prop :=
  ∃ p q, .connected p q ∈ history ∧ .closed p ∈ history ∧ .closed q ∈ history

namespace MessageChannel

def init (m : MessageManager δ) (worker : WorkerId) (id1 id2 : PortId) (now1 now2 : ℤ) :
    Option ((Ptr×Ptr)×MessageManager δ) :=
  let (port1,m) := m.createPort worker id1 now1
  let (port2,m) := m.createPort worker id2 now2
  (m.connectPorts port1 port2).map ((port1,port2),·)

/-- Errors are ignored. -/
def deinit (m : MessageManager δ) (port1 port2 : Ptr) : Option (MessageManager δ) :=
  match m.heap.load port1 with
  | none => none
  | some first =>
    match m.closePort first.id with
    | none => none
    | some (_,m) =>
      match m.heap.load port2 with
      | none => none
      | some second => (m.closePort second.id).map Prod.snd

end MessageChannel

/-- In a history, ports are connected in pairs. -/
structure Channels (history : List (Event δ)) : Prop where
  symm : ∀ p q, peer history p = some q → peer history q = some p
  of_connected : ∀ p q, .connected p q ∈ history → peer history p = some q
  connected : ∀ p q, peer history p = some q → .connected p q ∈ history ∨ .connected q p ∈ history
  agree : ∀ p q, peer history p = some q → posts (inbox history p) = posts (inbox history q)
  shut_of_closed : ∀ p q, peer history p = some q → .closed q ∈ history → shut history p = true

variable {history : List (Event δ)} {m m' : MessageManager δ} {p q : ℕ}

@[simp] theorem posts_concat (messages : List (Message δ)) (message : Message δ) :
    posts (messages++[message]) = posts messages++if message.type = .message then [message] else [] := by
  by_cases h : message.type = .message <;> simp [posts,h]

theorem Channels.nil : Channels ([] : List (Event δ)) where
  symm p q h := by cases h
  of_connected p q h := by cases h
  connected p q h := by cases h
  agree p q h := by cases h
  shut_of_closed p q h := by cases h

theorem Channels.bothClosed_iff (h : Channels history) :
    BothClosed history ↔ ∃ p q, peer history p = some q ∧ .closed p ∈ history ∧ .closed q ∈ history := by
  constructor
  · rintro ⟨p,q,hc,hp,hq⟩
    exact ⟨p,q,h.of_connected p q hc,hp,hq⟩
  · rintro ⟨p,q,hpeer,hp,hq⟩
    rcases h.connected p q hpeer with hc|hc
    · exact ⟨p,q,hc,hp,hq⟩
    · exact ⟨q,p,hc,hq,hp⟩

/-- Whatever reaches one end of a channel reaches the other one. -/
theorem Channels.end_iff (h : Channels history) {a b : ℕ} (hpeer : peer history a = some b) (p : ℕ) :
    (a = p ∨ peer history p = some a) ↔ (b = p ∨ peer history p = some b) := by
  constructor
  · rintro (rfl|ha)
    · exact Or.inr hpeer
    · have hp := h.symm p a ha
      rw [hpeer] at hp
      exact Or.inl (Option.some.inj hp)
  · rintro (rfl|hb)
    · exact Or.inr (h.symm a b hpeer)
    · have hp := h.symm p b hb
      rw [h.symm a b hpeer] at hp
      exact Or.inl (Option.some.inj hp)

section Events

theorem Channels.posted (h : Channels history) (p : ℕ) (message : Message δ) (called : List MessageHandler) :
    Channels (.posted p message called::history) where
  symm := h.symm
  of_connected a b hc := h.of_connected a b (by simpa using hc)
  connected a b hpeer := by simpa using h.connected a b hpeer
  agree a b hpeer := by
    have hagree := h.agree a b hpeer
    simp only [inbox,h.end_iff hpeer p]
    split
    · simp [hagree]
    · exact hagree
  shut_of_closed a b hpeer hclosed := h.shut_of_closed a b hpeer (by simpa using hclosed)

theorem Channels.pinged (h : Channels history) (p : ℕ) {message : Message δ} (htype : message.type = .ping)
    (called : List MessageHandler) : Channels (.pinged p message called::history) where
  symm := h.symm
  of_connected a b hc := h.of_connected a b (by simpa using hc)
  connected a b hpeer := by simpa using h.connected a b hpeer
  agree a b hpeer := by
    have hposts : ∀ c, posts (inbox (.pinged p message called::history) c) = posts (inbox history c) := by
      intro c
      rw [inbox]
      split
      · simp [htype]
      · rfl
    rw [hposts,hposts]
    exact h.agree a b hpeer
  shut_of_closed a b hpeer hclosed := h.shut_of_closed a b hpeer (by simpa using hclosed)

theorem Channels.closed (h : Channels history) (p : ℕ) : Channels (.closed p::history) where
  symm := h.symm
  of_connected a b hc := h.of_connected a b (by simpa using hc)
  connected a b hpeer := by simpa using h.connected a b hpeer
  agree a b hpeer := by
    have hagree := h.agree a b hpeer
    simp only [inbox,h.end_iff hpeer p]
    split
    · rfl
    · exact hagree
  shut_of_closed a b hpeer hclosed := by
    rcases List.mem_cons.mp hclosed with hb|hb
    · cases hb
      have hsymm := h.symm a p hpeer
      simp [shut,hsymm]
    · simp [shut,h.shut_of_closed a b hpeer hb]

/-- Two ports that are new to each other, and of which nothing was told, are connected. -/
theorem Channels.met (h : Channels history) (hne : p ≠ q) (hp : peer history p = none) (hq : peer history q = none)
    (hpin : inbox history p = []) (hqin : inbox history q = []) (hpc : .closed p ∉ history)
    (hqc : .closed q ∉ history) : Channels (.connected p q::history) := by
  have hpeer : ∀ a b, peer (.connected p q::history) a = some b ↔
      a = q ∧ b = p ∨ a = p ∧ b = q ∨ peer history a = some b := by
    intro a b
    by_cases haq : a = q
    · subst haq
      simp [peer,hq,hne.symm,eq_comm]
    · by_cases hap : a = p
      · subst hap
        simp [peer,hp,hne,eq_comm]
      · simp [peer,haq,hap]
  refine ⟨?_,?_,?_,?_,?_⟩
  · intro a b hab
    rw [hpeer] at hab ⊢
    rcases hab with ⟨rfl,rfl⟩|⟨rfl,rfl⟩|hab
    · exact Or.inr (Or.inl ⟨rfl,rfl⟩)
    · exact Or.inl ⟨rfl,rfl⟩
    · exact Or.inr (Or.inr (h.symm a b hab))
  · intro a b hc
    rw [hpeer]
    rcases List.mem_cons.mp hc with hc|hc
    · cases hc
      exact Or.inr (Or.inl ⟨rfl,rfl⟩)
    · exact Or.inr (Or.inr (h.of_connected a b hc))
  · intro a b hab
    rw [hpeer] at hab
    rcases hab with ⟨rfl,rfl⟩|⟨rfl,rfl⟩|hab
    · simp
    · simp
    · rcases h.connected a b hab with hc|hc
      · exact Or.inl (List.mem_cons_of_mem _ hc)
      · exact Or.inr (List.mem_cons_of_mem _ hc)
  · intro a b hab
    rw [hpeer] at hab
    rcases hab with ⟨rfl,rfl⟩|⟨rfl,rfl⟩|hab
    · simp [inbox,hpin,hqin]
    · simp [inbox,hpin,hqin]
    · exact h.agree a b hab
  · intro a b hab hclosed
    have hb : .closed b ∈ history := by simpa using hclosed
    rw [hpeer] at hab
    rcases hab with ⟨rfl,rfl⟩|⟨rfl,rfl⟩|hab
    · exact absurd hb hpc
    · exact absurd hb hqc
    · exact h.shut_of_closed a b hab hb

theorem Channels.events (h : Channels history) {call : Call δ} (hcall : ∀ p q, call ≠ .connectPorts p q)
    {events : List (Event δ)} (hevents : ∀ e ∈ events, e.Regular call) : Channels (events.reverse++history) := by
  induction events generalizing history with
  | nil => exact h
  | cons e events ih =>
    have hrest := fun e he => hevents e (List.mem_cons_of_mem _ he)
    have he := hevents e List.mem_cons_self
    rw [List.reverse_cons,List.append_assoc]
    cases e with
    | connected p q => exact absurd he (hcall p q)
    | posted p message called => exact ih (h.posted p message called) hrest
    | pinged p message called => exact ih (h.pinged p he.1 called) hrest
    | closed p => exact ih (h.closed p) hrest

end Events

section Safety

/-- The peer of a port that is open has not been freed. -/
theorem live_peer (hr : Reflects m history) (hc : Channels history) {port : MessagePort δ}
    (hload : m.heap.load p = some port) (hopen : port.isClosed = false) (hq : port.peerPort = some q) :
    ∃ w, m.heap.load q = some w := by
  have hd := hr.described p port hload
  rw [hd.peerPort] at hq
  rw [hd.isClosed] at hopen
  cases hw : m.heap.load q with
  | some w => exact ⟨w,rfl⟩
  | none =>
    have hclosed := (hr.freed q).mpr ⟨hr.lt_next hq,hw⟩
    rw [hc.shut_of_closed p q hq hclosed] at hopen
    cases hopen

theorem post_isSome (hr : Reflects m history) (hc : Channels history) (id : PortId) (data : δ) (now : ℤ) :
    (m.postMessageToPort id data now).isSome := by
  cases hlookup : m.ports.lookup id with
  | none => simp [MessageManager.postMessageToPort,hlookup]
  | some p =>
    obtain ⟨port,hload,-⟩ := hr.registered id p hlookup
    have hd := hr.described p port hload
    cases hclosed : port.isClosed with
    | true => simp [MessageManager.postMessageToPort,hlookup,postMessage_closed hload hclosed]
    | false =>
      obtain ⟨heap',heq,-⟩ := postMessage_open hload hclosed (hd.peerPort ▸ hr.distinct p)
        (fun q hq => live_peer hr hc hload hclosed hq) (fun q w hw => (hr.described q w hw).listener) data now
      simp [MessageManager.postMessageToPort,hlookup,heq]

theorem broadcast_isSome (hr : Reflects m history) (hc : Channels history) (data : δ) (now : PortId → ℤ)
    (ids : List PortId) : (m.broadcastTo data now ids).isSome := by
  induction ids generalizing m history with
  | nil => rfl
  | cons id ids ih =>
    cases hlookup : m.ports.lookup id with
    | none => simpa [MessageManager.broadcastTo,hlookup] using ih hr hc
    | some p =>
      obtain ⟨⟨result,m₁⟩,hpost⟩ := Option.isSome_iff_exists.mp (post_isSome hr hc id data (now id))
      rcases hr.post hpost with ⟨e,rfl,rfl⟩|⟨p,message,rfl,-,hr₁⟩
      · simp [MessageManager.broadcastTo,hlookup,hpost]
      · simpa [MessageManager.broadcastTo,hlookup,hpost] using ih hr₁ (hc.posted p message [])

/-- A port is closed without harm unless its peer was closed before. -/
theorem closePort_eq_none_iff (hr : Reflects m history) (id : PortId) : m.closePort id = none ↔
    ∃ p q, m.ports.lookup id = some p ∧ peer history p = some q ∧ .closed q ∈ history := by
  cases hlookup : m.ports.lookup id with
  | none => simp [MessageManager.closePort,hlookup]
  | some p =>
    obtain ⟨port,hload,-⟩ := hr.registered id p hlookup
    have hd := hr.described p port hload
    constructor
    · intro hnone
      by_contra hall
      have hpeer : ∀ q, port.peerPort = some q → ∃ w, m.heap.load q = some w := by
        intro q hq
        rw [hd.peerPort] at hq
        cases hw : m.heap.load q with
        | some w => exact ⟨w,rfl⟩
        | none => exact absurd ⟨p,q,rfl,hq,(hr.freed q).mpr ⟨hr.lt_next hq,hw⟩⟩ hall
      obtain ⟨heap₁,heq,hchanged⟩ := close_changed hload (hd.peerPort ▸ hr.distinct p) hpeer
      have hp₁ : heap₁.load p = some port.shut := by simp [hchanged.load,hload]
      obtain ⟨heap₂,hfree⟩ := Heap.free_of_load hp₁
      simp [MessageManager.closePort,hlookup,heq,hp₁,hfree] at hnone
    · rintro ⟨p',q,hp',hq,hclosed⟩
      cases hp'
      have hnone := ((hr.freed q).mp hclosed).2
      simp [MessageManager.closePort,hlookup,close_dangling hload (hd.peerPort.trans hq) hnone]

/-- Only a call that closes a port can touch one that has been freed. -/
theorem perform_eq_none_iff (hr : Reflects m history) (hc : Channels history) (call : Call δ) (hlegal : m.Legal call) :
    (perform m call).2 = none ↔ ∃ id, call = .closePort id ∧ m.closePort id = none := by
  cases call with
  | createPort worker id now => simp [perform]
  | connectPorts p q =>
    obtain ⟨hne,hp,hq⟩ := hlegal
    obtain ⟨heap',hstart,-⟩ := start_changed hp hq hne
    simp [perform,MessageManager.connectPorts,hstart]
  | postMessageToPort id data now =>
    obtain ⟨out,hout⟩ := Option.isSome_iff_exists.mp (post_isSome hr hc id data now)
    simp [perform,hout]
  | pingPort id now =>
    cases hlookup : m.ports.lookup id with
    | none => simp [perform,MessageManager.pingPort,hlookup]
    | some p =>
      obtain ⟨port,hload,-⟩ := hr.registered id p hlookup
      obtain ⟨heap',heq,-⟩ := enqueueMessage_changed hload ⟨none,port.id,now,.ping⟩
      simp [perform,MessageManager.pingPort,hlookup,hload,heq]
  | closePort id => simp [perform]
  | broadcastToWorker worker data now =>
    cases hworker : m.workerPorts.lookup worker with
    | none => simp [perform,MessageManager.broadcastToWorker,hworker]
    | some ids =>
      obtain ⟨out,hout⟩ := Option.isSome_iff_exists.mp (broadcast_isSome hr hc data now ids)
      simp [perform,MessageManager.broadcastToWorker,hworker,hout]
  | addEventListener p event handler =>
    obtain ⟨v,hv⟩ := Option.isSome_iff_exists.mp hlegal
    obtain ⟨heap',hmodify,-⟩ := Heap.modify_of_load hv fun port : MessagePort δ =>
      { port with eventHandlers := port.eventHandlers.insert event.tagName handler }
    simp [perform,addEventListener,hmodify]
  | removeEventListener p event =>
    obtain ⟨v,hv⟩ := Option.isSome_iff_exists.mp hlegal
    obtain ⟨heap',hmodify,-⟩ := Heap.modify_of_load hv fun port : MessagePort δ =>
      { port with eventHandlers := port.eventHandlers.erase event.tagName }
    simp [perform,removeEventListener,hmodify]

/-- A call that is not refused closes no second end of a channel. -/
theorem not_bothClosed_perform (hr : Reflects m history) (hc : Channels history) {call : Call δ}
    (hlegal : m.Legal call) (hnot : ¬ BothClosed history) (hsome : (perform m call).2 ≠ none) :
    ¬ BothClosed ((perform m call).1.reverse++history) := by
  have hregular := (reflects_perform hr call hlegal).2
  by_cases hconnect : ∃ p q, call = .connectPorts p q
  · obtain ⟨p,q,rfl⟩ := hconnect
    obtain ⟨v,hv⟩ := Option.isSome_iff_exists.mp hlegal.2.1
    rintro ⟨a,b,hab,ha,hb⟩
    simp only [perform,List.reverse_singleton,List.singleton_append,List.mem_cons,reduceCtorEq,false_or,
      Event.connected.injEq] at hab ha hb
    rcases hab with ⟨rfl,rfl⟩|hab
    · have hnone := ((hr.freed a).mp ha).2
      rw [hv] at hnone
      cases hnone
    · exact hnot ⟨a,b,hab,ha,hb⟩
  · by_cases hclose : ∃ id, call = .closePort id
    · obtain ⟨id,rfl⟩ := hclose
      cases hlookup : m.ports.lookup id with
      | none => simpa [perform,hlookup] using hnot
      | some p =>
        have hharm : ∀ q, peer history p = some q → .closed q ∉ history := by
          intro q hq hclosed
          have hnone := (closePort_eq_none_iff hr id).mpr ⟨p,q,hlookup,hq,hclosed⟩
          simp [perform,hnone] at hsome
        have hevents : (perform m (.closePort id)).1.reverse++history = .closed p::history := by
          simp [perform,hlookup]
        rw [hevents,(hc.closed p).bothClosed_iff]
        rintro ⟨a,b,hab,ha,hb⟩
        change peer history a = some b at hab
        simp only [List.mem_cons,Event.closed.injEq] at ha hb
        rcases ha with rfl|ha
        · rcases hb with rfl|hb
          · exact hr.distinct _ hab
          · exact hharm b hab hb
        · rcases hb with rfl|hb
          · exact hharm a (hc.symm a _ hab) ha
          · exact hnot (hc.bothClosed_iff.mpr ⟨a,b,hab,ha,hb⟩)
    · rintro ⟨a,b,hab,ha,hb⟩
      refine hnot ⟨a,b,?_,?_,?_⟩
      · rcases List.mem_append.mp hab with he|he
        · exact absurd ⟨a,b,hregular _ (List.mem_reverse.mp he)⟩ hconnect
        · exact he
      · rcases List.mem_append.mp ha with he|he
        · exact absurd (hregular _ (List.mem_reverse.mp he)) hclose
        · exact he
      · rcases List.mem_append.mp hb with he|he
        · exact absurd (hregular _ (List.mem_reverse.mp he)) hclose
        · exact he

theorem channels_perform (hr : Reflects m history) (hc : Channels history) {call : Call δ} (hlegal : m.Legal call)
    (hpaired : Paired ⟨some m,history⟩ call) : Channels ((perform m call).1.reverse++history) := by
  by_cases hconnect : ∃ p q, call = .connectPorts p q
  · obtain ⟨p,q,rfl⟩ := hconnect
    obtain ⟨hne,hp,hq⟩ := hlegal
    obtain ⟨v,hv⟩ := Option.isSome_iff_exists.mp hp
    obtain ⟨w,hw⟩ := Option.isSome_iff_exists.mp hq
    obtain ⟨hp,hq,hpin,hqin⟩ := hpaired
    apply hc.met hne hp hq hpin hqin
    · intro hclosed
      have hnone := ((hr.freed p).mp hclosed).2
      rw [hv] at hnone
      cases hnone
    · intro hclosed
      have hnone := ((hr.freed q).mp hclosed).2
      rw [hw] at hnone
      cases hnone
  · apply hc.events _ (reflects_perform hr call hlegal).2
    intro p q h
    exact hconnect ⟨p,q,h⟩

/-- A freed port is touched exactly when both ends of a channel have been closed. -/
structure World.Sound (s : World δ) : Prop where
  reflected : s.Reflected
  channels : Channels s.history
  safe_iff : s.manager = none ↔ BothClosed s.history

theorem World.Sound.init : (World.init : World δ).Sound where
  reflected := .init
  channels := .nil
  safe_iff := by simp [World.init,BothClosed]

theorem bothClosed_of_none (hr : Reflects m history) (hc : Channels history) {call : Call δ} (hlegal : m.Legal call)
    (hnone : (perform m call).2 = none) : BothClosed ((perform m call).1.reverse++history) := by
  obtain ⟨id,rfl,hclose⟩ := (perform_eq_none_iff hr hc call hlegal).mp hnone
  obtain ⟨p,q,hlookup,hpeer,hclosed⟩ := (closePort_eq_none_iff hr id).mp hclose
  have hevents : (perform m (.closePort id)).1.reverse++history = .closed p::history := by simp [perform,hlookup]
  rw [hevents,(hc.closed p).bothClosed_iff]
  exact ⟨p,q,hpeer,List.mem_cons_self,List.mem_cons_of_mem _ hclosed⟩

theorem step_sound (s : World δ) (call : Call δ) (h : s.Sound) (hgood : Legal s call ∧ Paired s call) :
    (step s call).Sound := by
  refine ⟨step_reflected s call h.reflected hgood.1,?_,?_⟩
  · cases hm : s.manager with
    | none => simpa [step,hm] using h.channels
    | some m =>
      rw [step_some hm]
      exact channels_perform (h.reflected.reflects m hm) h.channels (hgood.1 m hm) hgood.2
  · cases hm : s.manager with
    | none => simpa [step,hm] using h.safe_iff
    | some m =>
      have hr := h.reflected.reflects m hm
      have hnot : ¬ BothClosed s.history := fun hboth => by simpa [hm] using h.safe_iff.mpr hboth
      rw [step_some hm]
      constructor
      · exact bothClosed_of_none hr h.channels (hgood.1 m hm)
      · intro hboth
        by_contra hsome
        exact not_bothClosed_perform hr h.channels (hgood.1 m hm) hnot hsome hboth

theorem run_sound {calls : List (Call δ)} (hlegal : Along step Legal .init calls)
    (hpaired : Along step Paired .init calls) : (run step .init calls).Sound :=
  Along.inv (Q:=fun s call => Legal s call ∧ Paired s call) step_sound .init (along_and.mpr ⟨hlegal,hpaired⟩)

/-- The end that is closed second has lost its peer. -/
theorem deinit_eq_none (hr : Reflects m history) (hc : Channels history) (hconnected : .connected p q ∈ history)
    {v w : MessagePort δ} (hp : m.heap.load p = some v) (hq : m.heap.load q = some w) :
    MessageChannel.deinit m p q = none := by
  have hpeer := hc.of_connected p q hconnected
  have hclosed : .closed q ∉ history := by
    intro h
    have hnone := ((hr.freed q).mp h).2
    rw [hq] at hnone
    cases hnone
  have hlookup := hr.known p v hp
  cases hclose : m.closePort v.id with
  | none =>
    obtain ⟨p',q',hp',hq',hclosed'⟩ := (closePort_eq_none_iff hr v.id).mp hclose
    rw [hlookup] at hp'
    cases hp'
    rw [hpeer] at hq'
    cases hq'
    exact absurd hclosed' hclosed
  | some out =>
    obtain ⟨result,m₁⟩ := out
    have hr₁ := hr.closed hlookup hclose
    cases hq₁ : m₁.heap.load q with
    | none => simp [MessageChannel.deinit,hp,hclose,hq₁]
    | some w₁ =>
      have hnone := (closePort_eq_none_iff hr₁ w₁.id).mpr
        ⟨q,p,hr₁.known q w₁ hq₁,hc.symm p q hpeer,List.mem_cons_self⟩
      simp [MessageChannel.deinit,hp,hclose,hq₁,hnone]

/-- In a run that connects each port once, before anything is posted to it, a freed port is
touched exactly when both ends of a channel have been closed. Until then both ends hold the
same posts in the same order, and to end a channel both of whose ends are open touches a
freed port. -/
theorem run_channels {calls : List (Call δ)} (hlegal : Along step Legal .init calls)
    (hpaired : Along step Paired .init calls) :
    ((run step .init calls).manager = none ↔ BothClosed (run step .init calls).history) ∧
      ∀ m ∈ (run step .init calls).manager, ∀ p q v w, m.heap.load p = some v → m.heap.load q = some w →
        (v.peerPort = some q → posts v.messageQueue = posts w.messageQueue) ∧
          (.connected p q ∈ (run step .init calls).history → MessageChannel.deinit m p q = none) := by
  have hsound := run_sound hlegal hpaired
  refine ⟨hsound.safe_iff,?_⟩
  intro m hm p q v w hp hq
  have hr := hsound.reflected.reflects m hm
  constructor
  · intro hpeer
    have hv := hr.described p v hp
    have hw := hr.described q w hq
    rw [hv.messageQueue,hw.messageQueue]
    exact hsound.channels.agree p q (hv.peerPort.symm.trans hpeer)
  · intro hconnected
    exact deinit_eq_none hr hsound.channels hconnected hp hq

def channelRun : List (Call ℕ) :=
  [.createPort (.replicate 16 0) (.replicate 16 1) 5,.createPort (.replicate 16 0) (.replicate 16 2) 6,
    .connectPorts 0 1,.postMessageToPort (.replicate 16 2) 8 9,.closePort (.replicate 16 1),
    .closePort (.replicate 16 2)]

/-- Both ends of a channel are closed. -/
theorem run_channels_closed : (run step .init channelRun).manager = none := by
  refine (run_channels ?_ ?_).1.mpr ?_
  · exact ⟨by decide,by decide,by decide,by decide,by decide,by decide,trivial⟩
  · exact ⟨by decide,by decide,by decide,by decide,by decide,by decide,trivial⟩
  · exact ⟨0,1,by decide,by decide,by decide⟩

end Safety

end ZNet.MessagePorts
