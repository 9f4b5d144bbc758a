import ZNet.Engine
import ZNet.Runs
import Mathlib.Data.List.Nodup

/-!
# Event tokens

TCP connections and QUIC endpoints take their tokens from two counters that both
start at one, and register in the same `Poll`. `Call` is one of the four entry
points that open and close them.
-/

namespace ZNet.EventTokens
open Engine Runs

variable {σ : Type} {R : Rustls σ} {e : NetEngine σ}

inductive Call
  | connect (c : ConnectCall)
  | http3Connect (c : Http3Call)
  | close (engineNull : Bool) (connHandle : ℕ)
  | http3Close (engineNull : Bool) (connHandle : ℕ)

def Call.step (R : Rustls σ) (e : NetEngine σ) : Call → NetEngine σ
  | .connect c => (netConnect R e c).2
  | .http3Connect c => (netHttp3Connect e c).2
  | .close engineNull connHandle => (netClose e engineNull connHandle).2
  | .http3Close engineNull connHandle => (netHttp3Close e engineNull connHandle).2

/-- The registry holds live sources, each once and under the id of its connection,
and no id is reused. -/
structure WellRegistered (e : NetEngine σ) : Prop where
  token_eq : ∀ r ∈ e.registry, r.token = r.source.connId
  nodup : e.registry.sources.Nodup
  tcp_live : ∀ id, .tcp id ∈ e.registry.sources → id ∈ e.connections
  udp_live : ∀ id, .udp id ∈ e.registry.sources ↔ id ∈ e.quicEndpoints
  conn_lt : ∀ id ∈ e.connections, id < e.nextConnId
  quic_lt : ∀ id ∈ e.quicEndpoints, id < e.nextQuicId

theorem new_wellRegistered : WellRegistered (NetEngine.new σ) where
  token_eq := by simp [NetEngine.new]
  nodup := List.nodup_nil
  tcp_live id h := by simp [NetEngine.new,Registry.sources] at h
  udp_live id := by simp [NetEngine.new,Registry.sources]
  conn_lt id h := by simp [NetEngine.new] at h
  quic_lt id h := by simp [NetEngine.new] at h

theorem register_some {reg : Registry} {source : Source} {token : ℕ} (h : source ∉ reg.sources) :
    reg.register true source token = some (⟨token,source⟩::reg) := by
  simp [Registry.register,h]

theorem register_refused (reg : Registry) (source : Source) (token : ℕ) :
    reg.register false source token = none := by
  simp [Registry.register]

/-- The engine after a `net_connect` that opened a connection. -/
def opened (R : Rustls σ) (e : NetEngine σ) (c : ConnectCall) : NetEngine σ :=
  { e with
    nextConnId := e.nextConnId+1
    registry := ⟨e.nextConnId,.tcp e.nextConnId⟩::e.registry
    connections := e.connections.insert e.nextConnId (initTls R (.new ⟨c.incoming,[]⟩ c.host c.port)) }

theorem tcp_next_notMem (h : WellRegistered e) : .tcp e.nextConnId ∉ e.registry.sources := by
  intro hmem
  exact Nat.lt_irrefl _ (h.conn_lt _ (h.tcp_live _ hmem))

theorem udp_next_notMem (h : WellRegistered e) : .udp e.nextQuicId ∉ e.registry.sources := by
  intro hmem
  exact Nat.lt_irrefl _ (h.quic_lt _ ((h.udp_live _).mp hmem))

/-- A `net_connect` opens a connection under the next id, or at most uses the id up. -/
theorem netConnect_cases (h : WellRegistered e) (c : ConnectCall) :
    c.opens = true ∧ netConnect R e c = (e.nextConnId,opened R e c) ∨
    c.opens = false ∧ ∃ n, e.nextConnId ≤ n ∧ netConnect R e c = (0,{ e with nextConnId := n }) := by
  have hfresh := tcp_next_notMem h
  obtain ⟨engineNull,host,port,addrs,registers,incoming⟩ := c
  cases engineNull with
  | true => exact Or.inr ⟨rfl,_,le_rfl,rfl⟩
  | false =>
    cases addrs with
    | none => exact Or.inr ⟨rfl,_,le_rfl,rfl⟩
    | some addrs =>
      cases hany : addrs.any id with
      | false => exact Or.inr ⟨by simp [ConnectCall.opens,hany],_,le_rfl,by simp [netConnect,hany]⟩
      | true =>
        cases registers with
        | false =>
          refine Or.inr ⟨by simp [ConnectCall.opens],_,Nat.le_succ _,?_⟩
          simp [netConnect,hany,register_refused]
        | true =>
          refine Or.inl ⟨by simp [ConnectCall.opens,hany],?_⟩
          simp [netConnect,hany,register_some hfresh,opened]

/-- The engine after a `net_http3_connect` that succeeded. -/
def http3Opened (e : NetEngine σ) (serverAddr localAddr : ℕ) : NetEngine σ :=
  { e with
    nextQuicId := e.nextQuicId+1
    registry := ⟨e.nextQuicId,.udp e.nextQuicId⟩::e.registry
    quicEndpoints := e.quicEndpoints.insert e.nextQuicId ⟨serverAddr,localAddr⟩
    quicConns := e.quicConns.insert e.nextQuicId ⟨serverAddr⟩ }

theorem drop_of_notMem {reg : Registry} {source : Source} (h : source ∉ reg.sources) :
    reg.drop source = reg := by
  apply List.filter_eq_self.mpr
  intro r hr
  have hne : r.source ≠ source := by
    rintro rfl
    exact h (List.mem_map_of_mem hr)
  simpa using hne

theorem drop_cons_self {reg : Registry} {source : Source} {token : ℕ} (h : source ∉ reg.sources) :
    Registry.drop (⟨token,source⟩::reg) source = reg := by
  rw [Registry.drop,List.filter_cons_of_neg (by simp)]
  exact drop_of_notMem h

theorem netHttp3Connect_cases (h : WellRegistered e) (c : Http3Call) :
    c.opens = true ∧ (∃ serverAddr localAddr,
      netHttp3Connect e c = (e.nextQuicId,http3Opened e serverAddr localAddr)) ∨
    c.opens = false ∧ ∃ n, e.nextQuicId ≤ n ∧ netHttp3Connect e c = (0,{ e with nextQuicId := n }) := by
  have hfresh := udp_next_notMem h
  cases hb : c.binding with
  | none => exact Or.inr ⟨by simp [Http3Call.opens,hb],_,le_rfl,by simp [netHttp3Connect,hb]⟩
  | some addrs =>
    cases hr : c.registers with
    | false =>
      refine Or.inr ⟨by simp [Http3Call.opens,hr],_,Nat.le_succ _,?_⟩
      simp [netHttp3Connect,hb,hr,register_refused]
    | true =>
      cases hc : c.crypto && c.connects with
      | true =>
        refine Or.inl ⟨by simp [Http3Call.opens,hb,hr,hc],addrs.1,addrs.2,?_⟩
        simp [netHttp3Connect,hb,hr,hc,register_some hfresh,http3Opened]
      | false =>
        refine Or.inr ⟨by simp [Http3Call.opens,hb,hr,hc],_,Nat.le_succ _,?_⟩
        simp [netHttp3Connect,hb,hr,hc,register_some hfresh,drop_cons_self hfresh]

theorem opened_wellRegistered (h : WellRegistered e) (c : ConnectCall) : WellRegistered (opened R e c) where
  token_eq := List.forall_mem_cons.mpr ⟨rfl,h.token_eq⟩
  nodup := List.nodup_cons.mpr ⟨tcp_next_notMem h,h.nodup⟩
  tcp_live id hid := by
    apply (AList.mem_insert _).mpr
    rcases List.mem_cons.mp hid with heq | hid
    · exact Or.inl (Source.tcp.inj heq)
    · exact Or.inr (h.tcp_live id hid)
  udp_live id := by
    refine Iff.trans ?_ (h.udp_live id)
    simp [opened,Registry.sources]
  conn_lt id hid := by
    rcases (AList.mem_insert _).mp hid with rfl | hid
    · exact Nat.lt_succ_self _
    · exact Nat.lt_succ_of_lt (h.conn_lt id hid)
  quic_lt := h.quic_lt

theorem http3Opened_wellRegistered (h : WellRegistered e) (serverAddr localAddr : ℕ) :
    WellRegistered (http3Opened e serverAddr localAddr) where
  token_eq := List.forall_mem_cons.mpr ⟨rfl,h.token_eq⟩
  nodup := List.nodup_cons.mpr ⟨udp_next_notMem h,h.nodup⟩
  tcp_live id hid := by
    rcases List.mem_cons.mp hid with heq | hid
    · cases heq
    · exact h.tcp_live id hid
  udp_live id := by
    refine Iff.trans ?_ (AList.mem_insert _).symm
    rw [← h.udp_live id]
    simp [http3Opened,Registry.sources]
  conn_lt := h.conn_lt
  quic_lt id hid := by
    rcases (AList.mem_insert _).mp hid with rfl | hid
    · exact Nat.lt_succ_self _
    · exact Nat.lt_succ_of_lt (h.quic_lt id hid)

theorem nextConnId_wellRegistered (h : WellRegistered e) {n : ℕ} (hn : e.nextConnId ≤ n) :
    WellRegistered { e with nextConnId := n } :=
  ⟨h.token_eq,h.nodup,h.tcp_live,h.udp_live,fun id hid => (h.conn_lt id hid).trans_le hn,h.quic_lt⟩

theorem nextQuicId_wellRegistered (h : WellRegistered e) {n : ℕ} (hn : e.nextQuicId ≤ n) :
    WellRegistered { e with nextQuicId := n } :=
  ⟨h.token_eq,h.nodup,h.tcp_live,h.udp_live,h.conn_lt,fun id hid => (h.quic_lt id hid).trans_le hn⟩

/-- The engine after a connection was removed and its stream dropped. -/
def closed (e : NetEngine σ) (connId : ℕ) : NetEngine σ :=
  { e with
    connections := e.connections.erase connId
    registry := e.registry.drop (.tcp connId) }

theorem netClose_cases (e : NetEngine σ) (engineNull : Bool) (connHandle : ℕ) :
    (netClose e engineNull connHandle).2 = e ∨ (netClose e engineNull connHandle).2 = closed e connHandle := by
  rw [netClose]
  split_ifs
  · exact Or.inl rfl
  · exact Or.inr rfl
  · exact Or.inl rfl

theorem closed_wellRegistered (h : WellRegistered e) (connId : ℕ) : WellRegistered (closed e connId) where
  token_eq r hr := h.token_eq r (List.mem_of_mem_filter hr)
  nodup := Registry.nodup_sources_drop h.nodup _
  tcp_live id hid := by
    obtain ⟨hne,hmem⟩ := Registry.mem_sources_drop.mp hid
    exact AList.mem_erase.mpr ⟨fun heq => hne (congrArg Source.tcp heq),h.tcp_live id hmem⟩
  udp_live id := by
    rw [closed,Registry.mem_sources_drop,h.udp_live]
    simp
  conn_lt id hid := h.conn_lt id (AList.mem_erase.mp hid).2
  quic_lt := h.quic_lt

/-- The engine after a QUIC endpoint was removed and its socket dropped. -/
def http3Closed (e : NetEngine σ) (connId : ℕ) : NetEngine σ :=
  { e with
    quicConns := e.quicConns.erase connId
    quicEndpoints := e.quicEndpoints.erase connId
    registry := e.registry.drop (.udp connId) }

theorem netHttp3Close_cases (h : WellRegistered e) (engineNull : Bool) (connHandle : ℕ) :
    (netHttp3Close e engineNull connHandle).2 = e ∨
      (netHttp3Close e engineNull connHandle).2 = http3Closed e connHandle := by
  rw [netHttp3Close]
  split_ifs with hnull hmem
  · exact Or.inl rfl
  · exact Or.inr rfl
  · right
    rw [http3Closed,drop_of_notMem (fun hreg => hmem ((h.udp_live _).mp hreg))]

theorem http3Closed_wellRegistered (h : WellRegistered e) (connId : ℕ) :
    WellRegistered (http3Closed e connId) where
  token_eq r hr := h.token_eq r (List.mem_of_mem_filter hr)
  nodup := Registry.nodup_sources_drop h.nodup _
  tcp_live id hid := h.tcp_live id (Registry.mem_sources_drop.mp hid).2
  udp_live id := by
    rw [http3Closed,Registry.mem_sources_drop,h.udp_live,AList.mem_erase]
    simp
  conn_lt := h.conn_lt
  quic_lt id hid := h.quic_lt id (AList.mem_erase.mp hid).2

theorem step_wellRegistered (h : WellRegistered e) (call : Call) : WellRegistered (call.step R e) := by
  cases call with
  | connect c =>
    rcases netConnect_cases (R:=R) h c with ⟨-,heq⟩ | ⟨-,n,hn,heq⟩ <;> simp only [Call.step,heq]
    · exact opened_wellRegistered h c
    · exact nextConnId_wellRegistered h hn
  | http3Connect c =>
    rcases netHttp3Connect_cases h c with ⟨-,serverAddr,localAddr,heq⟩ | ⟨-,n,hn,heq⟩ <;>
      simp only [Call.step,heq]
    · exact http3Opened_wellRegistered h serverAddr localAddr
    · exact nextQuicId_wellRegistered h hn
  | close engineNull connHandle =>
    rcases netClose_cases e engineNull connHandle with heq | heq <;> simp only [Call.step,heq]
    · exact h
    · exact closed_wellRegistered h connHandle
  | http3Close engineNull connHandle =>
    rcases netHttp3Close_cases h engineNull connHandle with heq | heq <;> simp only [Call.step,heq]
    · exact h
    · exact http3Closed_wellRegistered h connHandle

/-- Two sources clash exactly if a TCP connection and a QUIC endpoint have the same id. -/
theorem tokens_nodup_iff (h : WellRegistered e) :
    e.registry.tokens.Nodup ↔ ∀ id, .tcp id ∈ e.registry.sources → id ∉ e.quicEndpoints := by
  have htokens : e.registry.tokens = e.registry.sources.map Source.connId := by
    rw [Registry.tokens,Registry.sources,List.map_map]
    exact List.map_congr_left h.token_eq
  rw [htokens,List.nodup_map_iff_inj_on h.nodup]
  constructor
  · intro hinj id htcp hquic
    cases hinj _ htcp _ ((h.udp_live id).mpr hquic) rfl
  · intro hdisj x hx y hy hxy
    cases x with
    | tcp i =>
      cases y with
      | tcp j => exact congrArg Source.tcp hxy
      | udp j =>
        obtain rfl : i = j := hxy
        exact (hdisj i hx ((h.udp_live i).mp hy)).elim
    | udp i =>
      cases y with
      | tcp j =>
        obtain rfl : i = j := hxy
        exact (hdisj i hy ((h.udp_live i).mp hx)).elim
      | udp j => exact congrArg Source.udp hxy

/-- Between the four calls every live connection is registered. -/
structure AllRegistered (e : NetEngine σ) : Prop extends WellRegistered e where
  registered : ∀ id ∈ e.connections, .tcp id ∈ e.registry.sources

theorem step_allRegistered (h : AllRegistered e) (call : Call) : AllRegistered (call.step R e) := by
  refine ⟨step_wellRegistered h.toWellRegistered call,?_⟩
  intro id hid
  cases call with
  | connect c =>
    rcases netConnect_cases (R:=R) h.toWellRegistered c with ⟨-,heq⟩ | ⟨-,n,hn,heq⟩ <;>
      simp only [Call.step,heq] at hid ⊢
    · rcases (AList.mem_insert _).mp hid with rfl | hid
      · exact List.mem_cons_self
      · exact List.mem_cons_of_mem _ (h.registered id hid)
    · exact h.registered id hid
  | http3Connect c =>
    rcases netHttp3Connect_cases h.toWellRegistered c with ⟨-,serverAddr,localAddr,heq⟩ | ⟨-,n,hn,heq⟩ <;>
      simp only [Call.step,heq] at hid ⊢
    · exact List.mem_cons_of_mem _ (h.registered id hid)
    · exact h.registered id hid
  | close engineNull connHandle =>
    rcases netClose_cases e engineNull connHandle with heq | heq <;> simp only [Call.step,heq] at hid ⊢
    · exact h.registered id hid
    · obtain ⟨hne,hid⟩ := AList.mem_erase.mp hid
      exact Registry.mem_sources_drop.mpr ⟨fun heq => hne (Source.tcp.inj heq),h.registered id hid⟩
  | http3Close engineNull connHandle =>
    rcases netHttp3Close_cases h.toWellRegistered engineNull connHandle with heq | heq <;>
      simp only [Call.step,heq] at hid ⊢
    · exact h.registered id hid
    · exact Registry.mem_sources_drop.mpr ⟨nofun,h.registered id hid⟩

/-- No TCP connection and QUIC endpoint share an id. -/
def Apart (e : NetEngine σ) : Prop := ∀ id ∈ e.connections, id ∉ e.quicEndpoints

theorem AllRegistered.tokens_nodup_iff (h : AllRegistered e) : e.registry.tokens.Nodup ↔ Apart e := by
  rw [EventTokens.tokens_nodup_iff h.toWellRegistered]
  constructor
  · intro hdisj id hid
    exact hdisj id (h.registered id hid)
  · intro hdisj id hid
    exact hdisj id (h.tcp_live id hid)

/-- The id a successful connect takes from its own counter is not in use on the
other side. -/
def Fresh (e : NetEngine σ) : Call → Prop
  | .connect c => c.opens → e.nextConnId ∉ e.quicEndpoints
  | .http3Connect c => c.opens → e.nextQuicId ∉ e.connections
  | .close _ _ => True
  | .http3Close _ _ => True

theorem step_apart_iff (h : AllRegistered e) (hap : Apart e) (call : Call) :
    Apart (call.step R e) ↔ Fresh e call := by
  cases call with
  | connect c =>
    rcases netConnect_cases (R:=R) h.toWellRegistered c with ⟨ho,heq⟩ | ⟨ho,n,hn,heq⟩ <;>
      simp only [Call.step,heq,Fresh,ho]
    · constructor
      · intro hdisj _
        exact hdisj e.nextConnId ((AList.mem_insert _).mpr (Or.inl rfl))
      · intro hfresh id hid
        rcases (AList.mem_insert _).mp hid with rfl | hid
        · exact hfresh trivial
        · exact hap id hid
    · exact iff_of_true hap nofun
  | http3Connect c =>
    rcases netHttp3Connect_cases h.toWellRegistered c with ⟨ho,serverAddr,localAddr,heq⟩ | ⟨ho,n,hn,heq⟩ <;>
      simp only [Call.step,heq,Fresh,ho]
    · constructor
      · intro hdisj _ hmem
        exact hdisj e.nextQuicId hmem ((AList.mem_insert _).mpr (Or.inl rfl))
      · intro hfresh id hid hquic
        rcases (AList.mem_insert _).mp hquic with rfl | hquic
        · exact hfresh trivial hid
        · exact hap id hid hquic
    · exact iff_of_true hap nofun
  | close engineNull connHandle =>
    refine iff_of_true ?_ trivial
    rcases netClose_cases e engineNull connHandle with heq | heq <;> simp only [Call.step,heq]
    · exact hap
    · exact fun id hid => hap id (AList.mem_erase.mp hid).2
  | http3Close engineNull connHandle =>
    refine iff_of_true ?_ trivial
    rcases netHttp3Close_cases h.toWellRegistered engineNull connHandle with heq | heq <;>
      simp only [Call.step,heq]
    · exact hap
    · exact fun id hid hquic => hap id hid (AList.mem_erase.mp hquic).2

/-- Along every sequence of calls on a new engine, the tokens in use are pairwise
distinct after each call exactly if each connect that succeeds finds its next id
unused by the other kind of connection. -/
theorem tokens_distinct_iff (R : Rustls σ) (calls : List Call) :
    Along (Call.step R) (fun e call => (call.step R e).registry.tokens.Nodup) (NetEngine.new σ) calls ↔
      Along (Call.step R) Fresh (NetEngine.new σ) calls := by
  refine along_iff (I:=fun e => AllRegistered e ∧ Apart e) ?_ ?_ ⟨⟨new_wellRegistered,?_⟩,?_⟩
  · intro e call h hfresh
    exact ⟨step_allRegistered h.1 call,(step_apart_iff h.1 h.2 call).mpr hfresh⟩
  · intro e call h
    rw [(step_allRegistered h.1 call).tokens_nodup_iff]
    exact step_apart_iff h.1 h.2 call
  · intro id hid
    exact (AList.notMem_empty id hid).elim
  · intro id hid
    exact (AList.notMem_empty id hid).elim

def quicConnect : Http3Call := ⟨false,"example.com",4433,some [1],true,true,some 2,true,true,true⟩

/-- One TCP and one QUIC connection on a new engine are both registered under token 1. -/
theorem tokens_distinct_fails :
    ([Call.connect plainConnect,Call.http3Connect quicConnect].foldl
      (Call.step noClient) (NetEngine.new Unit)).registry =
        [⟨1,.udp 1⟩,⟨1,.tcp 1⟩] ∧
    ¬Along (Call.step noClient) (fun e call => (call.step noClient e).registry.tokens.Nodup) (NetEngine.new Unit)
      [Call.connect plainConnect,Call.http3Connect quicConnect] := by
  refine ⟨rfl,?_⟩
  rintro ⟨-,h,-⟩
  exact absurd h (by decide)

end ZNet.EventTokens
