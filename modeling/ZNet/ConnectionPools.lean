import ZNet.Pipeline
import ZNet.Runs

/-!
# The lock of the connection pools

Calls of `execute_request` take their steps in any order. Each locks the pools and keeps its
guard to the end, and in between it locks them again to find a connection.
-/

namespace ZNet.ConnectionPools
open Pipelines TextScan Tables Runs

structure ConnectionHandle where
  host : Str
  /-- In nanoseconds. -/
  lastUsed : ℕ
  inUse : Bool

structure ConnectionPool where
  connections : List ConnectionHandle
  inUse : Bool
  lastUsed : ℕ

def ConnectionPool.init (now : ℕ) : ConnectionPool := ⟨[],false,now⟩

/-- Five minutes. -/
def timeoutDuration : ℕ := 300*10^9

def cleanupConnectionPool (pool : ConnectionPool) (now : ℕ) : ConnectionPool :=
  { pool with connections := pool.connections.filter fun c => !(!c.inUse && decide (timeoutDuration < now-c.lastUsed)) }

/-- The first connection to the host that is not in use is taken. -/
def takeConnection (host : Str) (now : ℕ) : List ConnectionHandle → Option (List ConnectionHandle)
  | [] => none
  | connection::connections =>
    if !connection.inUse && connection.host == host then
      some ({ connection with inUse := true, lastUsed := now }::connections)
    else (takeConnection host now connections).map (connection::·)

/-- The text `{}:{}:{}` of the host, the port and the scheme. -/
def poolKey (host : Str) (port : ℕ) (scheme : Str) : Str :=
  host++Origins.colon::decimal port++Origins.colon::scheme

def https : Str := ascii "https".toList

/-- The places of a call, through `execute_request` and `get_or_create_connection`. -/
inductive Point
  | lockPools
  | preparePool
  /-- The lock around the search for a connection. -/
  | lockSearch
  | search
  | createSocketConnection
  | createTlsConnection
  /-- The lock around the insertion of the new connection. -/
  | lockInsert
  | insertConnection
  | resolveDns
  | establishConnection
  | performTlsHandshake
  | sendHttpRequest
  | observe
  | resendHttpRequest
  | cacheResponse
  | done (result : Except PipelineError Unit)
  | panicked

structure Call where
  poolKey : Str
  host : Str
  useTls : Bool
  connection : Option ConnectionHandle := none
  point : Point

/-- The pools behind their lock, which the guard of a call holds. -/
structure Pipeline where
  lock : Option ℕ
  poisoned : Bool
  connectionPools : Table Str ConnectionPool
  calls : Table ℕ Call

def Pipeline.init : Pipeline := ⟨none,false,∅,∅⟩

namespace Pipeline

def goto (self : Pipeline) (id : ℕ) (call : Call) (point : Point) : Pipeline :=
  { self with calls := self.calls.insert id { call with point := point } }

/-- The guard of the call is dropped. -/
def unlock (self : Pipeline) (id : ℕ) : Pipeline :=
  { self with lock := if self.lock = some id then none else self.lock }

/-- A panic drops the guard, too, and poisons the lock if it was held. -/
def panic (self : Pipeline) (id : ℕ) (call : Call) : Pipeline :=
  { self.unlock id with poisoned := self.poisoned || self.lock == some id }.goto id call .panicked

/-- A lock that is held is waited for, by its holder as well. -/
def lockThen (self : Pipeline) (id : ℕ) (call : Call) (next : Point) : Pipeline :=
  match self.lock with
  | some _ => self
  | none => if self.poisoned then self.panic id call else { self with lock := some id }.goto id call next

def finish (self : Pipeline) (id : ℕ) (call : Call) (result : Except PipelineError Unit) : Pipeline :=
  (self.unlock id).goto id call (.done result)

/-- An operation of the network is over; its error ends the call. -/
def awaited (self : Pipeline) (id : ℕ) (call : Call) (failure : Option PipelineError) (next : Point) : Pipeline :=
  match failure with
  | some e => self.finish id call (.error e)
  | none => self.goto id call next

end Pipeline

/-- What a step takes from outside: the clock, the error of the operation that is awaited,
and if there is a header to answer a challenge with. -/
structure Event where
  now : ℕ
  failure : Option PipelineError
  retry : Bool

inductive Step
  | executeRequest (id : ℕ) (url : Str)
  | advance (id : ℕ) (event : Event)

def step (urls : UrlCrate) (s : Pipeline) : Step → Pipeline
  | .executeRequest id url =>
    match s.calls.lookup id with
    | some _ => s
    | none =>
      match urls.parse url with
      | none => s.goto id ⟨[],[],false,none,.lockPools⟩ (.done (.error .invalidRedirect))
      | some ⟨_,none,_⟩ =>
        s.goto id ⟨[],[],false,none,.lockPools⟩ (.done (.error (.dnsResolutionFailed "No host in URL")))
      | some ⟨scheme,some host,port⟩ =>
        let port := port.getD (if scheme = https then 443 else 80)
        s.goto id ⟨poolKey host port scheme,host,decide (scheme = https),none,.lockPools⟩ .lockPools
  | .advance id event =>
    match s.calls.lookup id with
    | none => s
    | some call =>
      match call.point with
      | .lockPools => s.lockThen id call .preparePool
      | .preparePool =>
        let pool := (s.connectionPools.lookup call.poolKey).getD (.init event.now)
        { s with connectionPools :=
          s.connectionPools.insert call.poolKey (cleanupConnectionPool pool event.now) }.goto id call .lockSearch
      | .lockSearch => s.lockThen id call .search
      | .search =>
        match s.connectionPools.lookup call.poolKey with
        | none => (s.unlock id).goto id call .createSocketConnection
        | some pool =>
          match takeConnection call.host event.now pool.connections with
          | none => (s.unlock id).goto id call .createSocketConnection
          | some connections =>
            -- the socket of the connection cannot be cloned
            { s with connectionPools :=
              s.connectionPools.insert call.poolKey { pool with connections := connections } }.panic id call
      | .createSocketConnection =>
        let call := { call with connection := some ⟨call.host,event.now,true⟩ }
        s.awaited id call event.failure (if call.useTls then .createTlsConnection else .lockInsert)
      | .createTlsConnection => s.awaited id call event.failure .lockInsert
      | .lockInsert => s.lockThen id call .insertConnection
      | .insertConnection =>
        match s.connectionPools.lookup call.poolKey with
        | none => (s.unlock id).goto id call .resolveDns
        -- nor can the socket of the new connection
        | some _ => s.panic id call
      | .resolveDns => s.awaited id call event.failure .establishConnection
      | .establishConnection =>
        s.awaited id call event.failure (if call.useTls then .performTlsHandshake else .sendHttpRequest)
      | .performTlsHandshake => s.awaited id call event.failure .sendHttpRequest
      | .sendHttpRequest => s.awaited id call event.failure .observe
      | .observe => s.goto id call (if event.retry then .resendHttpRequest else .cacheResponse)
      | .resendHttpRequest => s.awaited id call event.failure .cacheResponse
      | .cacheResponse =>
        match event.failure with
        | some e => s.finish id call (.error e)
        | none => s.finish id call (.ok ())
      | .done _ => s
      | .panicked => s

/-- The places where a call tries to lock the pools. -/
def Point.locks : Point → Bool
  | .lockPools | .lockSearch | .lockInsert => true
  | _ => false

def Relocks (s : Pipeline) : Step → Prop
  | .executeRequest .. => False
  | .advance id _ => ∃ call, s.calls.lookup id = some call ∧ call.point.locks = true ∧ s.lock = some id

/-- When every call is done no connection of a pool is in use. -/
def Returned (s : Pipeline) : Prop :=
  (∀ id call, s.calls.lookup id = some call → ∃ result, call.point = .done result) →
    ∀ key pool, s.connectionPools.lookup key = some pool → ∀ c ∈ pool.connections, c.inUse = false

/-- No call tries to lock the pools that it holds, and connections are given back. -/
structure Disciplined (urls : UrlCrate) (s : Pipeline) (a : Step) : Prop where
  noRelock : ¬Relocks s a
  returned : Returned (step urls s a)

variable {urls : UrlCrate} {s : Pipeline}

/-- Where a call can be, that holds the lock or does not. -/
inductive Reached (lock : Option ℕ) (id : ℕ) : Point → Prop
  | lockPools (h : lock ≠ some id) : Reached lock id .lockPools
  | preparePool (h : lock = some id) : Reached lock id .preparePool
  | lockSearch (h : lock = some id) : Reached lock id .lockSearch
  | refused (h : lock ≠ some id) (e : PipelineError) : Reached lock id (.done (.error e))

/-- No call gets beyond its second lock, so that the pools stay empty. -/
structure Sound (s : Pipeline) : Prop where
  empty : ∀ key pool, s.connectionPools.lookup key = some pool → pool.connections = []
  unpoisoned : s.poisoned = false
  calls : ∀ id call, s.calls.lookup id = some call → Reached s.lock id call.point
  holder : ∀ id, s.lock = some id → s.calls.lookup id ≠ none

theorem sound_init : Sound .init where
  empty key pool h := by cases h
  unpoisoned := rfl
  calls id call h := by cases h
  holder id h := by cases h

theorem executeRequest_cases (urls : UrlCrate) (s : Pipeline) (id : ℕ) (url : Str) :
    step urls s (.executeRequest id url) = s ∨
    ∃ call, s.calls.lookup id = none ∧
      (call.point = .lockPools ∧ (∃ parsed, urls.parse url = some parsed ∧ parsed.host ≠ none) ∨
        ∃ e, call.point = .done (.error e)) ∧
      step urls s (.executeRequest id url) = { s with calls := s.calls.insert id call } := by
  rw [step]
  split
  · exact Or.inl rfl
  · rename_i hnew
    right
    split
    · exact ⟨_,hnew,Or.inr ⟨_,rfl⟩,rfl⟩
    · exact ⟨_,hnew,Or.inr ⟨_,rfl⟩,rfl⟩
    · rename_i hparse
      exact ⟨_,hnew,Or.inl ⟨rfl,_,hparse,by simp⟩,rfl⟩

/-- A call takes the lock when it is free and prepares its pool, and otherwise it waits. -/
theorem Sound.advance_cases (h : Sound s) (urls : UrlCrate) (id : ℕ) (event : Event) :
    step urls s (.advance id event) = s ∨
    (∃ call : Call, s.lock = none ∧ step urls s (.advance id event) =
      { s with lock := some id, calls := s.calls.insert id { call with point := .preparePool } }) ∨
    ∃ (call : Call) (key : Str) (pool : ConnectionPool), s.lock = some id ∧ pool.connections = [] ∧ step urls s (.advance id event) =
      { s with
        connectionPools := s.connectionPools.insert key pool
        calls := s.calls.insert id { call with point := .lockSearch } } := by
  rw [step]
  cases hlookup : s.calls.lookup id with
  | none => exact Or.inl rfl
  | some call =>
    have hreached := h.calls id call hlookup
    obtain ⟨poolKey,host,useTls,connection,point⟩ := call
    cases hreached with
    | lockPools hlock =>
      simp only [Pipeline.lockThen]
      cases hheld : s.lock with
      | some holder => exact Or.inl rfl
      | none =>
        simp only [h.unpoisoned,Bool.false_eq_true,if_false]
        exact Or.inr (Or.inl ⟨_,trivial,rfl⟩)
    | preparePool hlock =>
      refine Or.inr (Or.inr ⟨_,_,_,hlock,?_,rfl⟩)
      cases hpool : s.connectionPools.lookup poolKey with
      | none => rfl
      | some pool =>
        rw [Option.getD_some,cleanupConnectionPool,h.empty poolKey pool hpool]
        rfl
    | lockSearch hlock =>
      simp only [Pipeline.lockThen,hlock]
      exact Or.inl trivial
    | refused hlock e => exact Or.inl rfl

theorem Sound.executeRequest (h : Sound s) (id : ℕ) (url : Str) : Sound (step urls s (.executeRequest id url)) := by
  rcases executeRequest_cases urls s id url with hsame | ⟨call,hnew,hpoint,hstep⟩
  · rw [hsame]
    exact h
  · rw [hstep]
    have hlock : s.lock ≠ some id := fun hheld => h.holder id hheld hnew
    refine ⟨h.empty,h.unpoisoned,fun id' call' hlookup => ?_,fun id' hheld => ?_⟩
    · rw [lookup_insert_eq] at hlookup
      split at hlookup
      · rename_i hsame
        cases hlookup
        rw [hsame]
        rcases hpoint with ⟨hpoint,-⟩ | ⟨e,hpoint⟩
        · rw [hpoint]
          exact .lockPools hlock
        · rw [hpoint]
          exact .refused hlock e
      · exact h.calls id' call' hlookup
    · have hne : id' ≠ id := by
        rintro rfl
        exact hlock hheld
      rw [AList.lookup_insert_ne hne]
      exact h.holder id' hheld

theorem Sound.advance (h : Sound s) (id : ℕ) (event : Event) : Sound (step urls s (.advance id event)) := by
  rcases h.advance_cases urls id event with hsame | ⟨call,hfree,hstep⟩ | ⟨call,key,pool,hheld,hempty,hstep⟩
  · rw [hsame]
    exact h
  · rw [hstep]
    refine ⟨h.empty,h.unpoisoned,fun id' call' hlookup => ?_,fun id' hheld => ?_⟩
    · rw [lookup_insert_eq] at hlookup
      split at hlookup
      · rename_i hsame
        cases hlookup
        exact .preparePool (congrArg some hsame.symm)
      · rename_i hne
        have hother : some id ≠ some id' := fun hsame => hne (Option.some.inj hsame).symm
        -- nobody else has held the lock
        cases hpoint : call'.point with
        | lockPools => exact .lockPools hother
        | done result =>
          have hreached := h.calls id' call' hlookup
          rw [hpoint] at hreached
          cases hreached with
          | refused _ e => exact .refused hother e
        | _ =>
          have hreached := h.calls id' call' hlookup
          rw [hpoint,hfree] at hreached
          cases hreached <;> contradiction
    · cases hheld
      rw [AList.lookup_insert]
      simp
  · rw [hstep]
    refine ⟨fun key' pool' hpool => ?_,h.unpoisoned,fun id' call' hlookup => ?_,fun id' hheld' => ?_⟩
    · rw [lookup_insert_eq] at hpool
      split at hpool
      · cases hpool
        exact hempty
      · exact h.empty key' pool' hpool
    · rw [lookup_insert_eq] at hlookup
      split at hlookup
      · rename_i hsame
        cases hlookup
        rw [hsame]
        exact .lockSearch hheld
      · exact h.calls id' call' hlookup
    · cases hheld.symm.trans hheld'
      rw [AList.lookup_insert]
      simp

theorem Sound.step (h : Sound s) (a : Step) : Sound (ConnectionPools.step urls s a) := by
  cases a with
  | executeRequest id url => exact h.executeRequest id url
  | advance id event => exact h.advance id event

theorem Sound.returned (h : Sound s) : Returned s := by
  intro _ key pool hpool c hc
  rw [h.empty key pool hpool] at hc
  cases hc

/-- A call that waits for the lock it holds waits for ever, and keeps the lock. -/
theorem stuck_run (h : Sound s) {id : ℕ} (hheld : s.lock = some id) (hcall : ∃ call, s.calls.lookup id = some call ∧
    call.point = .lockSearch) (steps : List Step) : (run (step urls) s steps).lock = some id ∧
      ∃ call, (run (step urls) s steps).calls.lookup id = some call ∧ call.point = .lockSearch := by
  suffices hstuck : Sound (run (step urls) s steps) ∧ (run (step urls) s steps).lock = some id ∧
      ∃ call, (run (step urls) s steps).calls.lookup id = some call ∧ call.point = .lockSearch from hstuck.2
  apply run_inv (I:=fun s => Sound s ∧ s.lock = some id ∧ ∃ call, s.calls.lookup id = some call ∧ call.point = .lockSearch)
  · rintro s a ⟨h,hheld,call,hlookup,hpoint⟩
    refine ⟨h.step a,?_⟩
    cases a with
    | executeRequest id' url =>
      rcases executeRequest_cases urls s id' url with hsame | ⟨call',hnew,-,hstep⟩
      · rw [hsame]
        exact ⟨hheld,call,hlookup,hpoint⟩
      · rw [hstep]
        have hne : id ≠ id' := by
          rintro rfl
          rw [hlookup] at hnew
          cases hnew
        exact ⟨hheld,call,(AList.lookup_insert_ne hne).trans hlookup,hpoint⟩
    | advance id' event =>
      rcases h.advance_cases urls id' event with hsame | ⟨call',hfree,-⟩ | ⟨call',key,pool,hheld',-,hstep⟩
      · rw [hsame]
        exact ⟨hheld,call,hlookup,hpoint⟩
      · rw [hfree] at hheld
        cases hheld
      · cases hheld.symm.trans hheld'
        rw [hstep]
        exact ⟨hheld,_,AList.lookup_insert _,rfl⟩
  · exact ⟨h,hheld,hcall⟩

section Kinds

/-- The calls are made with the given URLs. -/
def Within (allowed : Set Str) (a : Step) : Prop := ∀ id url, a = .executeRequest id url → url ∈ allowed

/-- A call that has returned has been refused. -/
def Refused (s : Pipeline) : Prop := ∀ id call, s.calls.lookup id = some call → ∃ e, call.point = .done (.error e)

/-- Without a host every call is refused at once. -/
theorem Refused.step (h : Refused s) {allowed : Set Str}
    (hhosts : ∀ url ∈ allowed, ∀ parsed, urls.parse url = some parsed → parsed.host = none) {a : Step}
    (ha : Within allowed a) : ¬Relocks s a ∧ Refused (ConnectionPools.step urls s a) := by
  cases a with
  | executeRequest id url =>
    refine ⟨not_false,?_⟩
    rcases executeRequest_cases urls s id url with hsame | ⟨call,-,hpoint,hstep⟩
    · rw [hsame]
      exact h
    · rw [hstep]
      intro id' call' hlookup
      rw [lookup_insert_eq] at hlookup
      split at hlookup
      · cases hlookup
        rcases hpoint with ⟨-,parsed,hparse,hhost⟩ | hpoint
        · exact absurd (hhosts url (ha id url rfl) parsed hparse) hhost
        · exact hpoint
      · exact h id' call' hlookup
  | advance id event =>
    constructor
    · rintro ⟨call,hlookup,hlocks,-⟩
      obtain ⟨e,hpoint⟩ := h id call hlookup
      rw [hpoint] at hlocks
      cases hlocks
    · have hsame : ConnectionPools.step urls s (.advance id event) = s := by
        rw [ConnectionPools.step]
        cases hlookup : s.calls.lookup id with
        | none => rfl
        | some call =>
          obtain ⟨e,hpoint⟩ := h id call hlookup
          simp only [hpoint]
      rw [hsame]
      exact h

/-- The steps of one call up to its second lock. -/
def relocking (url : Str) : List Step :=
  [.executeRequest 0 url,.advance 0 ⟨0,none,false⟩,.advance 0 ⟨0,none,false⟩,.advance 0 ⟨0,none,false⟩]

/-- A call with a host locks the pools that it holds. -/
theorem notDisciplined {url : Str} {parsed : ParsedUrl} (hparse : urls.parse url = some parsed) (hhost : parsed.host ≠ none) :
    ¬Along (step urls) (Disciplined urls) .init (relocking url) := by
  obtain ⟨scheme,host,port⟩ := parsed
  cases host with
  | none => exact absurd rfl hhost
  | some host =>
    intro hrun
    apply hrun.2.2.2.1.noRelock
    have hstart : step urls .init (.executeRequest 0 url) = Pipeline.init.goto 0
        ⟨poolKey host (port.getD (if scheme = https then 443 else 80)) scheme,host,decide (scheme = https),none,.lockPools⟩
        .lockPools := by
      simp only [step,hparse]
      rfl
    rw [hstart]
    exact ⟨_,rfl,rfl,rfl⟩

end Kinds

/-- In every run connections are given back. No call locks the pools while it holds them, in any
run over the given URLs, exactly if none of these has a host. -/
theorem disciplined_iff (urls : UrlCrate) :
    (∀ steps, Along (step urls) (fun s a => Returned (step urls s a)) .init steps) ∧
    ∀ allowed : Set Str,
      (∀ steps, (∀ a ∈ steps, Within allowed a) → Along (step urls) (Disciplined urls) .init steps) ↔
        ∀ url ∈ allowed, ∀ parsed, urls.parse url = some parsed → parsed.host = none := by
  constructor
  · intro steps
    exact along_of_step (fun s a h => ⟨(h.step a).returned,h.step a⟩) sound_init steps
  · intro allowed
    constructor
    · intro h url hurl parsed hparse
      by_contra hhost
      apply notDisciplined hparse hhost
      apply h
      intro a ha id url' hrequest
      subst hrequest
      simp only [relocking,List.mem_cons,Step.executeRequest.injEq,reduceCtorEq,List.not_mem_nil,or_false] at ha
      rw [ha.2]
      exact hurl
    · intro hhosts steps hsteps
      apply along_of_inv (I:=fun s => Sound s ∧ Refused s) _ _ hsteps
      · intro s a h ha
        obtain ⟨hrelock,hrefused⟩ := h.2.step hhosts ha
        exact ⟨⟨hrelock,(h.1.step a).returned⟩,h.1.step a,hrefused⟩
      · exact ⟨sound_init,fun id call h => by cases h⟩

/-- One call with the URL `http://a/`. -/
theorem disciplined_broken :
    ¬Along (step originUrls) (Disciplined originUrls) .init (relocking urlA) := by
  have hparse : originUrls.parse urlA = some ⟨[0x68,0x74,0x74,0x70],some [0x61],none⟩ := by decide
  exact notDisciplined hparse (by simp)

end ZNet.ConnectionPools
