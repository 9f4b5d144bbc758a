import ZNet.EventTokens
import ZNet.Tables

/-!
# Backpressure

`net_read` takes a connection out of the `Poll` when its ring passes the high
watermark, and `net_poll` puts it back below the low one. `Op` is every call on the
engine together with the consumer's side of the rings, in any order.
-/

namespace ZNet.Backpressure
open BodyRing Engine EventTokens Runs
open Tables (mem_of_lookup lookup_of_erase)

variable {σ : Type} {R : Rustls σ} {w : World σ}

inductive Op
  | call (c : Call)
  | registerRing (engineNull : Bool) (id ptr : ℕ)
  | unregisterRing (engineNull : Bool) (id : ℕ)
  | bind (engineNull : Bool) (connHandle id : ℕ)
  | read (c : ReadCall)
  | write (c : WriteCall)
  | advanceTail (ptr bytes : ℕ)
  | poll (engineNull : Bool) (order : List ℕ) (ok : ℕ → Bool) (events : Option ℕ)

def Op.step (R : Rustls σ) (w : World σ) : Op → World σ
  | .call c => { w with engine := c.step R w.engine }
  | .registerRing engineNull id ptr => { w with engine := (netBodyRingRegister w.engine engineNull id ptr).2 }
  | .unregisterRing engineNull id => { w with engine := (netBodyRingUnregister w.engine engineNull id).2 }
  | .bind engineNull connHandle id =>
    { w with engine := (netConnBindBodyRing w.engine engineNull connHandle id).2 }
  | .read c => (netRead R w c).2
  | .write c => (netWrite R w c).2
  | .advanceTail ptr bytes => Engine.advanceTail w ptr bytes
  | .poll engineNull order ok events => (netPoll w engineNull order ok events).2

/-- A live connection is registered in the `Poll` exactly while it is not paused. -/
def Watched (e : NetEngine σ) : Prop :=
  ∀ id conn, e.connections.lookup id = some conn → (.tcp id ∈ e.registry.sources ↔ conn.isPaused = false)

/-- No connection that is bound to a registered and drained ring is paused. -/
def Resumed (w : World σ) : Prop :=
  ∀ id conn ptr, w.engine.connections.lookup id = some conn → w.engine.boundRing id = some ptr →
    (w.rings ptr).head = (w.rings ptr).tail → conn.isPaused = false

def Op.isPoll : Op → Bool
  | .poll engineNull _ _ _ => !engineNull
  | _ => false

/-- What is required of one step: the flags agree with the registry after it, and a
poll leaves no connection paused on a drained ring. -/
def Good (R : Rustls σ) (w : World σ) (op : Op) : Prop :=
  Watched (op.step R w).engine ∧ (op.isPoll → Resumed (op.step R w))

/-- The environment: the system grants registrations and deregistrations, and a
hash map yields each of its keys once. -/
def Legal (w : World σ) : Op → Prop
  | .read c => c.deregisters = true
  | .poll _ order ok _ => order.Perm w.engine.connBodyRings.keys ∧ ∀ id, ok id = true
  | _ => True

/-- At a poll, a drained ring that a paused connection waits for has a low watermark
above zero. -/
def Resumable (w : World σ) (op : Op) : Prop :=
  op.isPoll → ∀ id conn ptr, w.engine.connections.lookup id = some conn → conn.isPaused = true →
    w.engine.boundRing id = some ptr → (w.rings ptr).head = (w.rings ptr).tail →
      0 < lowWatermark (w.rings ptr).capacity

structure Inv (e : NetEngine σ) : Prop extends WellRegistered e where
  watched : Watched e

theorem deregister_granted (reg : Registry) (source : Source) :
    (reg.deregister true source).getD reg = reg.drop source := by
  by_cases h : source ∈ reg.sources
  · simp [Registry.deregister,h]
  · simp [Registry.deregister,h,drop_of_notMem h]

section Updates

variable {e : NetEngine σ} {id : ℕ} {conn conn' : Connection σ}

theorem mem_setConnection (h : e.connections.lookup id = some conn) {i : ℕ} :
    i ∈ (setConnection e id conn').connections ↔ i ∈ e.connections := by
  rw [setConnection,AList.mem_insert]
  constructor
  · rintro (rfl | hi)
    · exact mem_of_lookup h
    · exact hi
  · exact Or.inr

theorem lookup_setConnection {i : ℕ} {c : Connection σ}
    (h : (setConnection e id conn').connections.lookup i = some c) :
    i = id ∧ c = conn' ∨ i ≠ id ∧ e.connections.lookup i = some c := by
  by_cases heq : i = id
  · subst heq
    rw [setConnection,AList.lookup_insert] at h
    exact Or.inl ⟨rfl,(Option.some.inj h).symm⟩
  · rw [setConnection,AList.lookup_insert_ne heq] at h
    exact Or.inr ⟨heq,h⟩

/-- A live connection is replaced by one with the same flag. -/
theorem Inv.setConnection (h : Inv e) (hl : e.connections.lookup id = some conn)
    (hp : conn'.isPaused = conn.isPaused) : Inv (setConnection e id conn') where
  token_eq := h.token_eq
  nodup := h.nodup
  tcp_live i hi := (mem_setConnection hl).mpr (h.tcp_live i hi)
  udp_live := h.udp_live
  conn_lt i hi := h.conn_lt i ((mem_setConnection hl).mp hi)
  quic_lt := h.quic_lt
  watched i c hi := by
    rcases lookup_setConnection hi with ⟨rfl,rfl⟩ | ⟨-,hi⟩
    · rw [hp]
      exact h.watched i conn hl
    · exact h.watched i c hi

/-- A live connection is paused and leaves the registry. -/
theorem Inv.pause (h : Inv e) (hl : e.connections.lookup id = some conn) (hp : conn'.isPaused = true) :
    Inv (Engine.setConnection { e with registry := e.registry.drop (.tcp id) } id conn') where
  token_eq r hr := h.token_eq r (List.mem_of_mem_filter hr)
  nodup := Registry.nodup_sources_drop h.nodup _
  tcp_live i hi := (mem_setConnection hl).mpr (h.tcp_live i (Registry.mem_sources_drop.mp hi).2)
  udp_live i := by
    refine Iff.trans ?_ (h.udp_live i)
    simp [Engine.setConnection,Registry.mem_sources_drop]
  conn_lt i hi := h.conn_lt i ((mem_setConnection hl).mp hi)
  quic_lt := h.quic_lt
  watched i c hi := by
    rcases lookup_setConnection hi with ⟨rfl,rfl⟩ | ⟨hne,hi⟩
    · rw [hp]
      simp [Engine.setConnection,Registry.mem_sources_drop]
    · refine Iff.trans ?_ (h.watched i c hi)
      simp [Engine.setConnection,Registry.mem_sources_drop,hne]

/-- A paused connection is resumed and registered again. -/
theorem Inv.resume (h : Inv e) (hl : e.connections.lookup id = some conn) (hpaused : conn.isPaused = true)
    (hp : conn'.isPaused = false) :
    Inv (Engine.setConnection { e with registry := ⟨id,.tcp id⟩::e.registry } id conn') where
  token_eq := List.forall_mem_cons.mpr ⟨rfl,h.token_eq⟩
  nodup := by
    refine List.nodup_cons.mpr ⟨?_,h.nodup⟩
    intro hmem
    exact absurd ((h.watched id conn hl).mp hmem) (by simp [hpaused])
  tcp_live i hi := by
    rcases List.mem_cons.mp hi with heq | hi
    · rw [Source.tcp.inj heq]
      exact (mem_setConnection hl).mpr (mem_of_lookup hl)
    · exact (mem_setConnection hl).mpr (h.tcp_live i hi)
  udp_live i := by
    refine Iff.trans ?_ (h.udp_live i)
    simp [Engine.setConnection,Registry.sources]
  conn_lt i hi := h.conn_lt i ((mem_setConnection hl).mp hi)
  quic_lt := h.quic_lt
  watched i c hi := by
    rcases lookup_setConnection hi with ⟨rfl,rfl⟩ | ⟨hne,hi⟩
    · rw [hp]
      simp [Engine.setConnection,Registry.sources]
    · refine Iff.trans ?_ (h.watched i c hi)
      simp [Engine.setConnection,Registry.sources,hne]

/-- A step that touches neither the registry nor the connections keeps the invariant. -/
theorem Inv.frame {e' : NetEngine σ} (h : Inv e) (hreg : e'.registry = e.registry)
    (hconn : e'.connections = e.connections) (hquic : e'.quicEndpoints = e.quicEndpoints)
    (hnextConn : e'.nextConnId = e.nextConnId) (hnextQuic : e'.nextQuicId = e.nextQuicId) : Inv e' where
  token_eq := hreg ▸ h.token_eq
  nodup := hreg ▸ h.nodup
  tcp_live := hreg ▸ hconn ▸ h.tcp_live
  udp_live := hreg ▸ hquic ▸ h.udp_live
  conn_lt := hconn ▸ hnextConn ▸ h.conn_lt
  quic_lt := hquic ▸ hnextQuic ▸ h.quic_lt
  watched i conn hi := hreg ▸ h.watched i conn (hconn ▸ hi)

theorem Inv.opened (h : Inv e) (c : ConnectCall) : Inv (EventTokens.opened R e c) := by
  refine ⟨opened_wellRegistered h.toWellRegistered c,?_⟩
  intro i conn hi
  by_cases heq : i = e.nextConnId
  · subst heq
    rw [EventTokens.opened,AList.lookup_insert] at hi
    rw [← Option.some.inj hi,initTls]
    simp only [EventTokens.opened,Registry.sources,List.map_cons,List.mem_cons,true_or,true_iff]
    split <;> rfl
  · rw [EventTokens.opened,AList.lookup_insert_ne heq] at hi
    refine Iff.trans ?_ (h.watched i conn hi)
    simp [EventTokens.opened,Registry.sources,heq]

theorem Inv.closed (h : Inv e) (connId : ℕ) : Inv (EventTokens.closed e connId) := by
  refine ⟨closed_wellRegistered h.toWellRegistered connId,?_⟩
  intro i conn hi
  obtain ⟨hne,hbefore⟩ := lookup_of_erase hi
  refine Iff.trans ?_ (h.watched i conn hbefore)
  simp [EventTokens.closed,Registry.mem_sources_drop,hne]

theorem Inv.call (h : Inv e) (c : Call) : Inv (c.step R e) := by
  have hw := h.toWellRegistered
  cases c with
  | connect c =>
    rcases netConnect_cases (R:=R) hw c with ⟨-,heq⟩ | ⟨-,n,hn,heq⟩ <;> simp only [Call.step,heq]
    · exact h.opened c
    · exact ⟨nextConnId_wellRegistered hw hn,h.watched⟩
  | http3Connect c =>
    rcases netHttp3Connect_cases hw c with ⟨-,serverAddr,localAddr,heq⟩ | ⟨-,n,hn,heq⟩ <;>
      simp only [Call.step,heq]
    · refine ⟨http3Opened_wellRegistered hw serverAddr localAddr,?_⟩
      intro i conn hi
      refine Iff.trans ?_ (h.watched i conn hi)
      simp [http3Opened,Registry.sources]
    · exact ⟨nextQuicId_wellRegistered hw hn,h.watched⟩
  | close engineNull connHandle =>
    rcases netClose_cases e engineNull connHandle with heq | heq <;> simp only [Call.step,heq]
    · exact h
    · exact h.closed connHandle
  | http3Close engineNull connHandle =>
    rcases netHttp3Close_cases hw engineNull connHandle with heq | heq <;> simp only [Call.step,heq]
    · exact h
    · refine ⟨http3Closed_wellRegistered hw connHandle,?_⟩
      intro i conn hi
      refine Iff.trans ?_ (h.watched i conn hi)
      simp [http3Closed,Registry.mem_sources_drop]

end Updates

theorem readCopy_isPaused (R : Rustls σ) (conn : Connection σ) (io : Io) (bufferLen : ℕ) :
    (readCopy R conn io bufferLen).2.isPaused = conn.isPaused := by
  simp only [readCopy,readTlsconn,readPlaintext]
  repeat' split
  all_goals rfl

theorem writeConnection_isPaused (R : Rustls σ) (conn : Connection σ) (data : List UInt8) (ios : List Io) :
    (writeConnection R conn data ios).2.isPaused = conn.isPaused := by
  simp only [writeConnection]
  repeat' split
  all_goals rfl

theorem netRead_inv (h : Inv w.engine) {c : ReadCall} (hd : c.deregisters = true) :
    Inv (netRead R w c).2.engine := by
  rw [netRead]
  split_ifs with hnull
  · exact h
  · cases hl : w.engine.connections.lookup c.connHandle with
    | none => cases w.engine.boundRing c.connHandle <;> exact h
    | some conn =>
      cases hb : w.engine.boundRing c.connHandle with
      | none => exact h.setConnection hl (readCopy_isPaused R conn c.io c.bufferLen)
      | some ptr =>
        simp only
        split_ifs with ho
        · rw [hd,deregister_granted]
          exact h.pause hl (by simp [ho])
        · exact h.setConnection hl (by simp [ho])

theorem netWrite_inv (h : Inv w.engine) (c : WriteCall) : Inv (netWrite R w c).2.engine := by
  rw [netWrite]
  split_ifs with hnull
  · exact h
  · cases hl : w.engine.connections.lookup c.connHandle with
    | none => exact h
    | some conn => exact h.setConnection hl (writeConnection_isPaused R conn c.data c.ios)

/-- The resume check finds the low watermark of a ring it looks at passed. -/
def Below (w : World σ) (connId : ℕ) : Prop :=
  ∃ conn ptr, w.engine.connections.lookup connId = some conn ∧ w.engine.boundRing connId = some ptr ∧
    conn.isPaused = true ∧ availableRead (w.rings ptr) < lowWatermark (w.rings ptr).capacity

theorem resume_cases (ok : ℕ → Bool) (w : World σ) (connId : ℕ) :
    ¬Below w connId ∧ resume ok w connId = w ∨
    Below w connId ∧ ∃ conn, w.engine.connections.lookup connId = some conn ∧ conn.isPaused = true ∧
      resume ok w connId = ⟨setConnection
        { w.engine with registry :=
            (w.engine.registry.register (ok connId) (.tcp connId) connId).getD w.engine.registry }
        connId { conn with isPaused := false },w.rings⟩ := by
  cases hl : w.engine.connections.lookup connId with
  | none =>
    refine Or.inl ⟨?_,?_⟩
    · rintro ⟨conn,ptr,hconn,-⟩
      rw [hl] at hconn
      cases hconn
    · simp only [resume,hl]
  | some conn =>
    cases hb : w.engine.boundRing connId with
    | none =>
      refine Or.inl ⟨?_,?_⟩
      · rintro ⟨_,ptr,-,hptr,-⟩
        rw [hb] at hptr
        cases hptr
      · simp only [resume,hl,hb]
    | some ptr =>
      by_cases hlow : conn.isPaused = true ∧ availableRead (w.rings ptr) < lowWatermark (w.rings ptr).capacity
      · refine Or.inr ⟨⟨conn,ptr,hl,hb,hlow⟩,conn,rfl,hlow.1,?_⟩
        simp only [resume,hl,hb,if_pos hlow]
      · refine Or.inl ⟨?_,?_⟩
        · rintro ⟨conn',ptr',hconn,hptr,hp,hlt⟩
          rw [hl] at hconn
          rw [hb] at hptr
          cases hconn
          cases hptr
          exact hlow ⟨hp,hlt⟩
        · simp only [resume,hl,hb,if_neg hlow]

theorem resume_inv (h : Inv w.engine) {ok : ℕ → Bool} {connId : ℕ} (hok : ok connId = true) :
    Inv (resume ok w connId).engine := by
  rcases resume_cases ok w connId with ⟨-,heq⟩ | ⟨-,conn,hl,hp,heq⟩ <;> rw [heq]
  · exact h
  · have hout : .tcp connId ∉ w.engine.registry.sources := by
      intro hmem
      exact absurd ((h.watched connId conn hl).mp hmem) (by simp [hp])
    rw [hok,register_some hout]
    exact h.resume hl hp rfl

theorem resume_rings (ok : ℕ → Bool) (w : World σ) (connId : ℕ) : (resume ok w connId).rings = w.rings := by
  rcases resume_cases ok w connId with ⟨-,heq⟩ | ⟨-,conn,-,-,heq⟩ <;> rw [heq]

theorem resume_boundRing (ok : ℕ → Bool) (w : World σ) (connId i : ℕ) :
    (resume ok w connId).engine.boundRing i = w.engine.boundRing i := by
  rcases resume_cases ok w connId with ⟨-,heq⟩ | ⟨-,conn,-,-,heq⟩ <;> rw [heq]
  rfl

/-- The check of one connection leaves the others as they are. -/
theorem resume_lookup_ne (ok : ℕ → Bool) (w : World σ) {connId i : ℕ} (hne : i ≠ connId) :
    (resume ok w connId).engine.connections.lookup i = w.engine.connections.lookup i := by
  rcases resume_cases ok w connId with ⟨-,heq⟩ | ⟨-,conn,-,-,heq⟩ <;> rw [heq]
  exact AList.lookup_insert_ne hne

theorem resume_of_not_below (ok : ℕ → Bool) {w : World σ} {i : ℕ} (h : ¬Below w i) (connId : ℕ) :
    (resume ok w connId).engine.connections.lookup i = w.engine.connections.lookup i := by
  by_cases heq : i = connId
  · subst heq
    rcases resume_cases ok w i with ⟨-,heq⟩ | ⟨hbelow,-⟩
    · rw [heq]
    · exact (h hbelow).elim
  · exact resume_lookup_ne ok w heq

theorem resume_paused {ok : ℕ → Bool} {w : World σ} {connId i : ℕ} {conn : Connection σ}
    (h : (resume ok w connId).engine.connections.lookup i = some conn) (hp : conn.isPaused = true) :
    w.engine.connections.lookup i = some conn ∧ (i = connId → ¬Below w i) := by
  by_cases heq : i = connId
  · subst heq
    rcases resume_cases ok w i with ⟨hn,heq⟩ | ⟨-,conn',-,-,heq⟩ <;> rw [heq] at h
    · exact ⟨h,fun _ => hn⟩
    · rw [setConnection,AList.lookup_insert] at h
      cases h
      cases hp
  · rw [resume_lookup_ne ok w heq] at h
    exact ⟨h,fun hi => (heq hi).elim⟩

theorem below_resume_iff {ok : ℕ → Bool} {w : World σ} {connId i : ℕ}
    (h : (resume ok w connId).engine.connections.lookup i = w.engine.connections.lookup i) :
    Below (resume ok w connId) i ↔ Below w i := by
  simp only [Below,h,resume_boundRing,resume_rings]

section Loop

variable {ok : ℕ → Bool}

theorem resumeAll_inv {order : List ℕ} (hok : ∀ id, ok id = true) (h : Inv w.engine) :
    Inv (order.foldl (resume ok) w).engine := by
  induction order generalizing w with
  | nil => exact h
  | cons connId order ih => exact ih (resume_inv h (hok connId))

theorem resumeAll_rings {order : List ℕ} : (order.foldl (resume ok) w).rings = w.rings := by
  induction order generalizing w with
  | nil => rfl
  | cons connId order ih => exact ih.trans (resume_rings ok w connId)

theorem resumeAll_boundRing {order : List ℕ} (i : ℕ) :
    (order.foldl (resume ok) w).engine.boundRing i = w.engine.boundRing i := by
  induction order generalizing w with
  | nil => rfl
  | cons connId order ih => exact ih.trans (resume_boundRing ok w connId i)

/-- A connection that is still paused after the loop was paused before it, and its
check did not find the low watermark passed. -/
theorem resumeAll_paused {order : List ℕ} {i : ℕ} {conn : Connection σ}
    (h : (order.foldl (resume ok) w).engine.connections.lookup i = some conn) (hp : conn.isPaused = true) :
    w.engine.connections.lookup i = some conn ∧ (i ∈ order → ¬Below w i) := by
  induction order generalizing w with
  | nil => exact ⟨h,nofun⟩
  | cons connId order ih =>
    obtain ⟨hi,hrest⟩ := ih h
    obtain ⟨hw,hself⟩ := resume_paused hi hp
    refine ⟨hw,?_⟩
    intro hmem
    rcases List.mem_cons.mp hmem with heq | hmem
    · exact hself heq
    · rw [← below_resume_iff (hi.trans hw.symm)]
      exact hrest hmem

theorem resumeAll_of_not_below {order : List ℕ} {i : ℕ} (h : ¬Below w i) :
    (order.foldl (resume ok) w).engine.connections.lookup i = w.engine.connections.lookup i := by
  induction order generalizing w with
  | nil => rfl
  | cons connId order ih =>
    have hkeep := resume_of_not_below ok h connId
    exact (ih (fun hb => h ((below_resume_iff hkeep).mp hb))).trans hkeep

end Loop

theorem availableRead_drained {ring : BodyRingDescriptor} (h : ring.head = ring.tail) : availableRead ring = 0 := by
  rw [availableRead,wrappingSub,h]
  omega

theorem mem_keys_of_boundRing {e : NetEngine σ} {id ptr : ℕ} (h : e.boundRing id = some ptr) :
    id ∈ e.connBodyRings.keys := by
  rw [← AList.mem_keys,← AList.lookup_isSome]
  cases hl : e.connBodyRings.lookup id with
  | none => simp [NetEngine.boundRing,hl] at h
  | some ringId => rfl

theorem poll_resumed_iff {order : List ℕ} {ok : ℕ → Bool} (hperm : order.Perm w.engine.connBodyRings.keys) :
    Resumed (order.foldl (resume ok) w) ↔
      ∀ id conn ptr, w.engine.connections.lookup id = some conn → conn.isPaused = true →
        w.engine.boundRing id = some ptr → (w.rings ptr).head = (w.rings ptr).tail →
          0 < lowWatermark (w.rings ptr).capacity := by
  constructor
  · intro hres id conn ptr hl hp hb hd
    by_contra hlow
    have hnb : ¬Below w id := by
      rintro ⟨conn',ptr',-,hb',-,hlt⟩
      rw [hb] at hb'
      cases hb'
      omega
    have hfalse := hres id conn ptr ((resumeAll_of_not_below hnb).trans hl) ((resumeAll_boundRing id).trans hb)
      (by rw [resumeAll_rings]; exact hd)
    rw [hp] at hfalse
    cases hfalse
  · intro hlow id conn ptr hl hb hd
    rw [resumeAll_boundRing] at hb
    rw [resumeAll_rings] at hd
    by_contra hp
    rw [Bool.not_eq_false] at hp
    obtain ⟨hw,hnb⟩ := resumeAll_paused hl hp
    refine hnb (hperm.mem_iff.mpr (mem_keys_of_boundRing hb)) ⟨conn,ptr,hw,hb,hp,?_⟩
    rw [availableRead_drained hd]
    exact hlow id conn ptr hw hp hb hd

theorem step_inv (h : Inv w.engine) {op : Op} (hl : Legal w op) : Inv (op.step R w).engine := by
  cases op with
  | call c => exact h.call c
  | registerRing engineNull id ptr => cases engineNull <;> exact h.frame rfl rfl rfl rfl rfl
  | unregisterRing engineNull id => cases engineNull <;> exact h.frame rfl rfl rfl rfl rfl
  | bind engineNull connHandle id =>
    simp only [Op.step,netConnBindBodyRing]
    split_ifs
    · exact h
    · exact h.frame rfl rfl rfl rfl rfl
  | read c => exact netRead_inv h hl
  | write c => exact netWrite_inv h c
  | advanceTail ptr bytes => exact h
  | poll engineNull order ok events =>
    cases engineNull with
    | true => exact h
    | false => exact resumeAll_inv hl.2 h

theorem step_good_iff (h : Inv w.engine) {op : Op} (hl : Legal w op) : Good R w op ↔ Resumable w op := by
  have hwatched := (step_inv (R:=R) h hl).watched
  rw [Good,and_iff_right hwatched,Resumable]
  apply forall_congr'
  intro hpoll
  cases op with
  | poll engineNull order ok events =>
    cases engineNull with
    | true => cases hpoll
    | false => exact poll_resumed_iff hl.1
  | _ => cases hpoll

theorem new_inv : Inv (NetEngine.new σ) :=
  ⟨new_wellRegistered,fun id conn h => by simp [NetEngine.new] at h⟩

/-- Where Zig's arithmetic does not trap, its watermark checks of a valid ring are the
engine's. -/
theorem watermarks_agree {r : BodyRingDescriptor} (hr : r.Valid) (hcap : r.capacity*95 < 2^64) :
    r.shouldStopReading = some (decide (availableRead r > highWatermark r.capacity)) ∧
      r.shouldResumeReading = some (decide (availableRead r < lowWatermark r.capacity)) := by
  have hlow : r.capacity*50 < 2^64 := by omega
  rw [availableRead,highWatermark,lowWatermark,wrappingSub_of_le hr.tail_le hr.head_lt,Nat.mod_eq_of_lt hcap,
    Nat.mod_eq_of_lt hlow]
  constructor
  · simp only [BodyRingDescriptor.shouldStopReading,BodyRingDescriptor.getAvailableRead,availableReadAt,
      checkedSub_of_le hr.tail_le,checkedMul,if_pos hcap]
    rfl
  · simp only [BodyRingDescriptor.shouldResumeReading,BodyRingDescriptor.getAvailableRead,availableReadAt,
      checkedSub_of_le hr.tail_le,checkedMul,if_pos hlow]
    rfl

/-- The registry half needs no condition on the rings: in every state that a run
reaches, a live connection is registered exactly while it is not paused. -/
theorem watched_run (R : Rustls σ) (rings : ℕ → BodyRingDescriptor) (ops : List Op)
    (hlegal : Along (Op.step R) Legal ⟨NetEngine.new σ,rings⟩ ops) :
    Watched (run (Op.step R) ⟨NetEngine.new σ,rings⟩ ops).engine := by
  have hinv : Inv (run (Op.step R) ⟨NetEngine.new σ,rings⟩ ops).engine := by
    apply Along.inv (I:=fun w => Inv w.engine) _ new_inv hlegal
    intro w op h hl
    exact step_inv h hl
  exact hinv.watched

/-- The low watermark of a ring is above zero exactly from capacity two on. -/
theorem lowWatermark_pos_iff {capacity : ℕ} (h : capacity*50 < 2^64) : 0 < lowWatermark capacity ↔ 2 ≤ capacity := by
  rw [lowWatermark,Nat.mod_eq_of_lt h]
  omega

theorem readRing_capacity (ring : BodyRingDescriptor) (stream : TcpStream) (io : Io) :
    (readRing ring stream io).2.1.capacity = ring.capacity := by
  simp only [readRing]
  repeat' split
  all_goals rfl

/-- No call and no consumer changes the capacity of a ring. -/
theorem step_capacity (R : Rustls σ) (w : World σ) (op : Op) (ptr : ℕ) :
    ((op.step R w).rings ptr).capacity = (w.rings ptr).capacity := by
  cases op with
  | read c =>
    simp only [Op.step,netRead]
    split_ifs with hnull
    · rfl
    · cases w.engine.connections.lookup c.connHandle with
      | none => cases w.engine.boundRing c.connHandle <;> rfl
      | some conn =>
        cases w.engine.boundRing c.connHandle with
        | none => rfl
        | some p =>
          by_cases hp : ptr = p
          · subst hp
            simp [readRing_capacity]
          · simp [hp]
  | write c =>
    simp only [Op.step,netWrite]
    split_ifs with hnull
    · rfl
    · cases w.engine.connections.lookup c.connHandle <;> rfl
  | advanceTail p bytes =>
    by_cases hp : ptr = p
    · subst hp
      simp [Op.step,Engine.advanceTail,BodyRingDescriptor.release]
    · simp [Op.step,Engine.advanceTail,hp]
  | poll engineNull order ok events =>
    cases engineNull with
    | true => rfl
    | false => exact congrArg (fun rings => (rings ptr).capacity) resumeAll_rings
  | _ => rfl

/-- Rings whose low watermark is above zero keep every run resumable. -/
theorem along_resumable (R : Rustls σ) {w : World σ} (h : ∀ ptr, 0 < lowWatermark (w.rings ptr).capacity)
    (ops : List Op) : Along (Op.step R) Resumable w ops := by
  have hstep : ∀ (w : World σ) op, (∀ ptr, 0 < lowWatermark (w.rings ptr).capacity) →
      Resumable w op ∧ ∀ ptr, 0 < lowWatermark ((Op.step R w op).rings ptr).capacity := by
    intro w op h
    refine ⟨fun _ _ _ ptr _ _ _ _ => h ptr,fun ptr => ?_⟩
    rw [step_capacity]
    exact h ptr
  exact along_of_step hstep h ops

/-- Along every run of a new engine, with rings of any capacity, flags and registry
agree after each step and no poll leaves a connection paused on a drained ring,
exactly if the drained rings that paused connections wait for at a poll have a low
watermark above zero. -/
theorem backpressure_iff (R : Rustls σ) (rings : ℕ → BodyRingDescriptor) (ops : List Op)
    (hlegal : Along (Op.step R) Legal ⟨NetEngine.new σ,rings⟩ ops) :
    Along (Op.step R) (Good R) ⟨NetEngine.new σ,rings⟩ ops ↔
      Along (Op.step R) Resumable ⟨NetEngine.new σ,rings⟩ ops := by
  apply along_iff_of_along (I:=fun w => Inv w.engine) _ _ new_inv hlegal
  · intro w op h hl _
    exact step_inv h hl
  · intro w op h hl
    exact step_good_iff h hl

/-- A connection is bound to ring 7, reads `n` bytes that fill it, the consumer takes
them all, and the engine is polled. -/
def fillAndDrain (n : ℕ) : List Op :=
  [.call (.connect ⟨false,"example.com",80,some [true],true,List.replicate n 0⟩),.registerRing false 7 0,
    .bind false 1 7,.read ⟨false,1,false,0,.ready n,true⟩,.advanceTail 0 n,.poll false [1] (fun _ => true) (some 0)]

/-- On a ring of two bytes the connection is registered again. -/
theorem backpressure_iff_twoBytes :
    Along (Op.step noClient) (Good noClient) ⟨NetEngine.new Unit,fun _ => .init (fun _ => 0) 2⟩ (fillAndDrain 2) := by
  refine (backpressure_iff noClient _ _ ?_).mpr (along_resumable _ ?_ _)
  · exact ⟨trivial,trivial,trivial,rfl,trivial,⟨by decide,fun _ => rfl⟩,trivial⟩
  · intro ptr
    exact show 0 < lowWatermark 2 by decide

/-- On a ring of one byte the low watermark is zero, and the connection stays paused
on the drained ring. -/
theorem backpressure_fails :
    Along (Op.step noClient) Legal ⟨NetEngine.new Unit,fun _ => .init (fun _ => 0) 1⟩ (fillAndDrain 1) ∧
    ¬Along (Op.step noClient) (Good noClient) ⟨NetEngine.new Unit,fun _ => .init (fun _ => 0) 1⟩ (fillAndDrain 1) := by
  refine ⟨⟨trivial,trivial,trivial,rfl,trivial,⟨by decide,fun _ => rfl⟩,trivial⟩,?_⟩
  rintro ⟨-,-,-,-,-,⟨-,h⟩,-⟩
  cases h rfl 1 _ 0 rfl rfl rfl

end ZNet.Backpressure
