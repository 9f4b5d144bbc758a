import ZNet.WebSocketPool
import Mathlib.Data.List.Find

/-!
# The index of the connection pool

Whether `getConnection` finds the newest connection of a URL, over any sequence of
calls. It does not once an older connection of the URL is removed before the newest.
-/

namespace ZNet.WebSocketPools
open WebSocketConnections Runs
open Tables (mem_of_lookup exists_lookup)

/-- A pool and the connections that were ever put into it, the newest first. -/
structure History where
  pool : WebSocketPool
  created : List (Url×ℕ)

/-- The connection that a call puts into the pool. -/
def History.creates (h : History) (call : Call) : List (Url×ℕ) :=
  match call with
  | .createConnection url _ _ _ =>
    if h.pool.nextConnectionId ∈ (h.pool.call call).connections then [(url,h.pool.nextConnectionId)] else []
  | _ => []

def History.step (h : History) (call : Call) : History := ⟨h.pool.call call,h.creates call++h.created⟩

/-- The most recently created connection of this URL that has not been removed. -/
def History.newest (h : History) (url : Url) : Option ℕ :=
  (h.created.find? fun p => p.1 = url ∧ p.2 ∈ h.pool.connections).map (·.2)

/-- The index leads to the newest connection of each URL, and to nothing else. -/
structure Consistent (h : History) : Prop where
  newest : ∀ url, h.pool.getConnection url = (h.newest url).bind h.pool.connections.lookup
  entries : ∀ url id, h.pool.urlToConnection.lookup url = some id →
    ∃ connection, h.pool.connections.lookup id = some connection ∧ connection.url = url

/-- A connection that is removed leaves no other connection of its URL behind. -/
def Isolated (p : WebSocketPool) (removed : ℕ → Prop) : Prop :=
  ∀ id connection, removed id → p.connections.lookup id = some connection →
    ∀ id' connection', p.connections.lookup id' = some connection' → connection'.url = connection.url → removed id'

/-- What the index relies on besides being consistent. -/
structure Indexed (h : History) : Prop where
  index : ∀ url, h.pool.urlToConnection.lookup url = h.newest url
  created_lt : ∀ p ∈ h.created, p.2 < h.pool.nextConnectionId
  created_url : ∀ p ∈ h.created, ∀ connection, h.pool.connections.lookup p.2 = some connection → connection.url = p.1
  created : ∀ id connection, h.pool.connections.lookup id = some connection → (connection.url,id) ∈ h.created
  connectionId : ∀ id connection, h.pool.connections.lookup id = some connection → connection.connectionId = id

section Newest

variable {h : History}

theorem newest_eq_none {url : Url} :
    h.newest url = none ↔ ∀ p ∈ h.created, p.1 = url → p.2 ∉ h.pool.connections := by
  rw [History.newest,Option.map_eq_none_iff,List.find?_eq_none]
  simp

theorem mem_of_newest {url : Url} {id : ℕ} (hnewest : h.newest url = some id) :
    (url,id) ∈ h.created ∧ id ∈ h.pool.connections := by
  rw [History.newest,Option.map_eq_some_iff] at hnewest
  obtain ⟨p,hfind,rfl⟩ := hnewest
  have hp := List.find?_some hfind
  rw [decide_eq_true_eq] at hp
  obtain ⟨rfl,hmem⟩ := hp
  exact ⟨List.mem_of_find?_eq_some hfind,hmem⟩

theorem Indexed.consistent (hi : Indexed h) : Consistent h where
  newest url := by
    rw [WebSocketPool.getConnection,hi.index]
    cases h.newest url with
    | none => rfl
    | some id => rfl
  entries url id hlookup := by
    rw [hi.index] at hlookup
    obtain ⟨hcreated,hmem⟩ := mem_of_newest hlookup
    obtain ⟨connection,hconnection⟩ := exists_lookup hmem
    exact ⟨connection,hconnection,hi.created_url _ hcreated _ hconnection⟩

/-- The newest connections depend only on which ids are in the pool. -/
theorem newest_congr {p p' : WebSocketPool} {created : List (Url×ℕ)} {url : Url}
    (hmem : ∀ q ∈ created, q.1 = url → (q.2 ∈ p'.connections ↔ q.2 ∈ p.connections)) :
    History.newest ⟨p',created⟩ url = History.newest ⟨p,created⟩ url := by
  rw [History.newest,History.newest]
  congr 1
  apply List.find?_congr
  intro q hq
  rw [decide_eq_decide]
  constructor
  · rintro ⟨hurl,hq'⟩
    exact ⟨hurl,(hmem q hq hurl).mp hq'⟩
  · rintro ⟨hurl,hq'⟩
    exact ⟨hurl,(hmem q hq hurl).mpr hq'⟩

end Newest

section Steps

variable {h : History} {ids : List ℕ}

theorem removeAll_indexed (hi : Indexed h) (hisolated : Isolated h.pool (· ∈ ids)) :
    Indexed ⟨h.pool.removeAll ids,h.created⟩ where
  index url := by
    rw [index_removeAll]
    split_ifs with hhits
    · symm
      apply newest_eq_none.mpr
      intro q hq hurl hmem
      obtain ⟨hnot,hmem⟩ := (mem_removeAll q.2).mp hmem
      obtain ⟨connection',hlookup'⟩ := exists_lookup hmem
      obtain ⟨id,hid,connection,hlookup,hurl'⟩ := hhits
      refine hnot (hisolated id connection hid hlookup q.2 connection' hlookup' ?_)
      rw [hi.created_url q hq connection' hlookup',hurl,hurl']
    · rw [hi.index]
      symm
      apply newest_congr (p:=h.pool)
      intro q hq hurl
      refine (mem_removeAll q.2).trans (and_iff_right_of_imp ?_)
      intro hmem hid
      obtain ⟨connection,hlookup⟩ := exists_lookup hmem
      exact hhits ⟨q.2,hid,connection,hlookup,(hi.created_url q hq connection hlookup).trans hurl⟩
  created_lt q hq := (nextConnectionId_removeAll h.pool ids).symm ▸ hi.created_lt q hq
  created_url q hq connection hlookup := hi.created_url q hq connection (lookup_of_removeAll hlookup).2
  created id connection hlookup := hi.created id connection (lookup_of_removeAll hlookup).2
  connectionId id connection hlookup := hi.connectionId id connection (lookup_of_removeAll hlookup).2

theorem removeAll_not_consistent (hi : Indexed h) (hisolated : ¬Isolated h.pool (· ∈ ids)) :
    ¬Consistent ⟨h.pool.removeAll ids,h.created⟩ := by
  intro hc
  apply hisolated
  intro id connection hid hlookup id' connection' hlookup' hurl
  by_contra hnot
  have hmem : id' ∈ (h.pool.removeAll ids).connections := (mem_removeAll id').mpr ⟨hnot,mem_of_lookup hlookup'⟩
  have hget : (h.pool.removeAll ids).getConnection connection.url = none := by
    rw [WebSocketPool.getConnection,index_removeAll,if_pos ⟨id,hid,connection,hlookup,rfl⟩]
  have hnewest := hc.newest connection.url
  rw [hget] at hnewest
  cases hfind : History.newest ⟨h.pool.removeAll ids,h.created⟩ connection.url with
  | none => exact newest_eq_none.mp hfind _ (hi.created id' connection' hlookup') hurl hmem
  | some id'' =>
    obtain ⟨connection'',hlookup''⟩ := exists_lookup (mem_of_newest hfind).2
    rw [hfind,Option.bind_some,hlookup''] at hnewest
    cases hnewest

/-- A connection that keeps its identity can be replaced in place. -/
theorem insert_indexed (hi : Indexed h) {id : ℕ} {connection connection' : WebSocketConnection}
    (hlookup : h.pool.connections.lookup id = some connection) (hid : connection'.connectionId = connection.connectionId)
    (hurl : connection'.url = connection.url) :
    Indexed ⟨{ h.pool with connections := h.pool.connections.insert id connection' },h.created⟩ := by
  have hcases : ∀ i c, (h.pool.connections.insert id connection').lookup i = some c →
      ∃ c', h.pool.connections.lookup i = some c' ∧ c.connectionId = c'.connectionId ∧ c.url = c'.url := by
    intro i c hc
    by_cases heq : i = id
    · subst heq
      rw [AList.lookup_insert] at hc
      cases hc
      exact ⟨connection,hlookup,hid,hurl⟩
    · rw [AList.lookup_insert_ne heq] at hc
      exact ⟨c,hc,rfl,rfl⟩
  constructor
  · intro url
    refine (hi.index url).trans (newest_congr (p:=h.pool) ?_).symm
    intro q _ _
    refine (AList.mem_insert _).trans (or_iff_right_of_imp ?_)
    rintro rfl
    exact mem_of_lookup hlookup
  · exact hi.created_lt
  · intro q hq c hc
    obtain ⟨c',hc',-,hurl'⟩ := hcases q.2 c hc
    exact hurl'.trans (hi.created_url q hq c' hc')
  · intro i c hc
    obtain ⟨c',hc',-,hurl'⟩ := hcases i c hc
    rw [hurl']
    exact hi.created i c' hc'
  · intro i c hc
    obtain ⟨c',hc',hid',-⟩ := hcases i c hc
    exact hid'.trans (hi.connectionId i c' hc')

theorem Indexed.next_notMem (hi : Indexed h) : h.pool.nextConnectionId ∉ h.pool.connections := by
  intro hmem
  obtain ⟨connection,hlookup⟩ := exists_lookup hmem
  exact Nat.lt_irrefl _ (hi.created_lt _ (hi.created _ connection hlookup))

/-- The ids of earlier connections are in the pool as before. -/
theorem mem_withConnection (hi : Indexed h) {connection : WebSocketConnection} {q : Url×ℕ} (hq : q ∈ h.created) :
    q.2 ∈ (withConnection h.pool connection).connections ↔ q.2 ∈ h.pool.connections := by
  refine (AList.mem_insert _).trans (or_iff_right ?_)
  exact Nat.ne_of_lt (hi.created_lt q hq)

theorem newest_withConnection (hi : Indexed h) {p : WebSocketPool} {connection : WebSocketConnection}
    (hp : p.connections = (withConnection h.pool connection).connections) (url url' : Url) :
    History.newest ⟨p,(url,h.pool.nextConnectionId)::h.created⟩ url' =
      if url' = url then some h.pool.nextConnectionId else h.newest url' := by
  have hmem : h.pool.nextConnectionId ∈ p.connections := by
    rw [hp]
    exact next_mem_withConnection h.pool connection
  rw [History.newest]
  split_ifs with hurl
  · rw [List.find?_cons_of_pos]
    · rfl
    · exact decide_eq_true ⟨hurl.symm,hmem⟩
  · rw [List.find?_cons_of_neg]
    · change History.newest ⟨p,h.created⟩ url' = History.newest ⟨h.pool,h.created⟩ url'
      apply newest_congr
      intro q hq _
      rw [hp]
      exact mem_withConnection hi hq
    · intro hpos
      exact hurl (of_decide_eq_true hpos).1.symm

theorem withEntry_indexed (hi : Indexed h) {connection : WebSocketConnection} {url : Url}
    (hid : connection.connectionId = h.pool.nextConnectionId) (hurl : connection.url = url) :
    Indexed ⟨withEntry h.pool connection url,(url,h.pool.nextConnectionId)::h.created⟩ where
  index url' := by
    rw [newest_withConnection hi (p:=withEntry h.pool connection url) rfl]
    split_ifs with heq
    · rw [heq]
      exact AList.lookup_insert _
    · rw [← hi.index]
      exact AList.lookup_insert_ne heq
  created_lt q hq := by
    rcases List.mem_cons.mp hq with rfl | hq
    · exact Nat.lt_succ_self _
    · exact Nat.lt_succ_of_lt (hi.created_lt q hq)
  created_url q hq c hc := by
    rcases lookup_withEntry hc with ⟨heq,rfl⟩ | ⟨hne,hc⟩
    · rcases List.mem_cons.mp hq with rfl | hq
      · exact hurl
      · exact absurd heq (Nat.ne_of_lt (hi.created_lt q hq))
    · rcases List.mem_cons.mp hq with rfl | hq
      · exact absurd rfl hne
      · exact hi.created_url q hq c hc
  created id c hc := by
    rcases lookup_withEntry hc with ⟨rfl,rfl⟩ | ⟨-,hc⟩
    · rw [hurl]
      exact List.mem_cons_self ..
    · exact List.mem_cons_of_mem _ (hi.created id c hc)
  connectionId id c hc := by
    rcases lookup_withEntry hc with ⟨rfl,rfl⟩ | ⟨-,hc⟩
    · exact hid
    · exact hi.connectionId id c hc

/-- Without an entry the new connection is not found. -/
theorem withConnection_not_consistent (hi : Indexed h) {connection : WebSocketConnection} {url : Url}
    (hid : connection.connectionId = h.pool.nextConnectionId) :
    ¬Consistent ⟨withConnection h.pool connection,(url,h.pool.nextConnectionId)::h.created⟩ := by
  intro hc
  have hnewest := hc.newest url
  rw [newest_withConnection hi rfl,if_pos rfl,Option.bind_some,lookup_withConnection,if_pos rfl,
    WebSocketPool.getConnection] at hnewest
  have hindex : (withConnection h.pool connection).urlToConnection.lookup url = h.newest url := hi.index url
  rw [hindex] at hnewest
  cases hfind : h.newest url with
  | none =>
    rw [hfind] at hnewest
    cases hnewest
  | some id =>
    obtain ⟨hcreated,-⟩ := mem_of_newest hfind
    have hne : id ≠ h.pool.nextConnectionId := Nat.ne_of_lt (hi.created_lt _ hcreated)
    rw [hfind] at hnewest
    simp only [lookup_withConnection,if_neg hne] at hnewest
    exact hne ((hi.connectionId id connection hnewest).symm.trans hid)

/-- The counter may skip ids. -/
theorem skip_indexed (hi : Indexed h) {n : ℕ} (hn : h.pool.nextConnectionId ≤ n) :
    Indexed ⟨{ h.pool with nextConnectionId := n },h.created⟩ :=
  ⟨hi.index,fun q hq => Nat.lt_of_lt_of_le (hi.created_lt q hq) hn,hi.created_url,hi.created,hi.connectionId⟩

/-- The calls that keep the index consistent. -/
def Admissible (p : WebSocketPool) (call : Call) : Prop := Isolated p (Removes p call) ∧ ¬Unindexed p call

theorem isolated_congr {p : WebSocketPool} {removed removed' : ℕ → Prop} (hiff : ∀ id, removed id ↔ removed' id) :
    Isolated p removed ↔ Isolated p removed' := by
  have heq : removed = removed' := funext fun id => propext (hiff id)
  rw [heq]

theorem isolated_of_none {p : WebSocketPool} {removed : ℕ → Prop} (hnone : ∀ id, ¬removed id) : Isolated p removed :=
  fun id _ hid => (hnone id hid).elim

/-- A consistent index stays so exactly if the call is admissible, and then the rest of
the invariant is kept as well. -/
def Decides (h : History) (call : Call) : Prop :=
  Admissible h.pool call ∧ Indexed (h.step call) ∨ ¬Admissible h.pool call ∧ ¬Consistent (h.step call)

theorem decides_removeAll (hi : Indexed h) {call : Call} {ids : List ℕ} (hids : ∀ id, id ∈ ids ↔ Removes h.pool call id)
    (hindexed : ¬Unindexed h.pool call) (hstep : h.step call = ⟨h.pool.removeAll ids,h.created⟩) : Decides h call := by
  rw [Decides,hstep,Admissible,← isolated_congr hids,and_iff_left hindexed]
  by_cases hisolated : Isolated h.pool (· ∈ ids)
  · exact Or.inl ⟨hisolated,removeAll_indexed hi hisolated⟩
  · exact Or.inr ⟨hisolated,removeAll_not_consistent hi hisolated⟩

theorem decides_createConnection (hi : Indexed h) (url : Url) (protocols : Option (List (List UInt8))) (now : ℕ)
    (memory : Memory) : Decides h (.createConnection url protocols now memory) := by
  have hisolated : Isolated h.pool (Removes h.pool (.createConnection url protocols now memory)) :=
    isolated_of_none fun _ => id
  have hstep : h.step (.createConnection url protocols now memory) =
      ⟨(h.pool.createConnection url protocols now memory).2,
        (if h.pool.nextConnectionId ∈ (h.pool.createConnection url protocols now memory).2.connections
          then [(url,h.pool.nextConnectionId)] else [])++h.created⟩ := rfl
  rw [Decides,hstep]
  rcases createConnection_cases h.pool url protocols now memory with
    ⟨hindexed,n,hn,heq⟩ | ⟨connection,hid,hurl,⟨hunindexed,heq⟩ | ⟨hindexed,heq⟩⟩
  · rw [heq,if_neg hi.next_notMem]
    exact Or.inl ⟨⟨hisolated,hindexed⟩,skip_indexed hi hn⟩
  · rw [heq,if_pos (next_mem_withConnection h.pool connection)]
    exact Or.inr ⟨fun hadmissible => hadmissible.2 hunindexed,withConnection_not_consistent hi hid⟩
  · have hmem : h.pool.nextConnectionId ∈ (withEntry h.pool connection url).connections :=
      next_mem_withConnection h.pool connection
    rw [heq,if_pos hmem]
    exact Or.inl ⟨⟨hisolated,hindexed⟩,withEntry_indexed hi hid hurl⟩

theorem decides (hi : Indexed h) (call : Call) : Decides h call := by
  cases call with
  | createConnection url protocols now memory => exact decides_createConnection hi url protocols now memory
  | closeConnection connectionId frameData =>
    refine Or.inl ⟨⟨isolated_of_none fun _ => id,id⟩,?_⟩
    rw [History.step,WebSocketPool.call,WebSocketPool.closeConnection]
    cases hlookup : h.pool.connections.lookup connectionId with
    | none => exact hi
    | some connection =>
      cases frameData with
      | error e => exact hi
      | ok data => exact insert_indexed hi hlookup rfl rfl
  | removeConnection connectionId =>
    have hids : ∀ id, id ∈ [connectionId] ↔ Removes h.pool (.removeConnection connectionId) id :=
      fun _ => List.mem_singleton
    exact decides_removeAll hi hids id rfl
  | cleanupInactive now appended =>
    obtain ⟨ids,heq,hids⟩ := cleanupInactive_cases h.pool now appended
    refine decides_removeAll hi hids id ?_
    rw [History.step,WebSocketPool.call,heq]
    rfl
  | change connectionId change =>
    refine Or.inl ⟨⟨isolated_of_none fun _ => id,id⟩,?_⟩
    rw [History.step,WebSocketPool.call]
    cases hlookup : h.pool.connections.lookup connectionId with
    | none => exact hi
    | some connection => exact insert_indexed hi hlookup (change.connectionId connection) (change.url connection)

end Steps

/-- A pool without connections. -/
def initial (maxPerOrigin : ℕ) : History := ⟨.init maxPerOrigin,[]⟩

theorem initial_indexed (maxPerOrigin : ℕ) : Indexed (initial maxPerOrigin) where
  index _ := rfl
  created_lt := nofun
  created_url := nofun
  created := nofun
  connectionId := nofun

/-- Over any sequence of calls the index is consistent after every call exactly if no
call removes a connection and leaves another one of its URL behind, and none puts a
connection into the pool without an entry. -/
theorem pool_consistent_iff (maxPerOrigin : ℕ) (calls : List Call) :
    Along History.step (fun h call => Consistent (h.step call)) (initial maxPerOrigin) calls ↔
    Along History.step (fun h call => Admissible h.pool call) (initial maxPerOrigin) calls := by
  apply along_iff (I:=Indexed)
  · intro h call hi hadmissible
    rcases decides hi call with ⟨-,hindexed⟩ | ⟨hnot,-⟩
    · exact hindexed
    · exact (hnot hadmissible).elim
  · intro h call hi
    rcases decides hi call with ⟨hadmissible,hindexed⟩ | ⟨hnot,hinconsistent⟩
    · exact iff_of_true hindexed.consistent hadmissible
    · exact iff_of_false hinconsistent hnot
  · exact initial_indexed maxPerOrigin

/-- A connection is opened and closed, the next one of its URL created, and the old one
removed. -/
theorem pool_consistent_fails :
    ¬Along History.step (fun h call => Consistent (h.step call)) (initial 6)
      [.createConnection [97] none 0 ⟨true,true⟩,.change 1 (.setState .opened),.closeConnection 1 (.ok []),
        .createConnection [97] none 0 ⟨true,true⟩,.removeConnection 1] := by
  rintro ⟨-,-,-,-,hc,-⟩
  have hnewest := hc.newest [97]
  cases hnewest

end ZNet.WebSocketPools
