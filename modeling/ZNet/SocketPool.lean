import ZNet.Origin
import ZNet.IpAddress
import ZNet.Tables
import ZNet.Runs

/-!
# The pool of sockets

The pool has one entry for a host and a port. A connection is asked for and released under
these, so the entry can be replaced while its socket is in use.
-/

namespace ZNet.SocketPool
open TextScan IpAddresses Tables Runs

abbrev Str := List UInt8

inductive SocketError
  | socketCreationFailed | setNonBlockingFailed | connectFailed | connectionRefused | networkUnreachable
  | hostUnreachable | permissionDenied
deriving DecidableEq

/-- Sockets are numbered in the order in which they are created. -/
structure ConnectionEntry where
  socket : ℕ
  lastUsed : ℤ
  inUse : Bool
deriving DecidableEq

structure ConnectionPool where
  connections : Table Str ConnectionEntry

/-- What the operating system says to the calls that make a connection. -/
structure Io where
  create : Bool
  setOptions : Bool
  connect : Option SocketError

/-- The text `{s}:{d}` of the host and the port. -/
def connectionKey (host : Str) (port : UInt16) : Str := host++Origins.colon::decimal port.toNat

/-- A new socket, if the host is an address and all calls succeed, and the number of sockets
afterwards. -/
def connectSocket (io : Io) (host : Str) (port : UInt16) (created : ℕ) : Except SocketError ℕ×ℕ :=
  if (parseIp4 host port).isNone then (.error .socketCreationFailed,created)
  else if !io.create then (.error .socketCreationFailed,created)
  else if !io.setOptions then (.error .setNonBlockingFailed,created+1)
  else match io.connect with
    | some e => (.error e,created+1)
    | none => (.ok created,created+1)

namespace ConnectionPool

def init : ConnectionPool := ⟨∅⟩

def store (self : ConnectionPool) (key : Str) (entry : ConnectionEntry) : ConnectionPool :=
  ⟨self.connections.insert key entry⟩

def getConnection (self : ConnectionPool) (io : Io) (created : ℕ) (host : Str) (port : UInt16) (now : ℤ) :
    Except SocketError ℕ×ConnectionPool×ℕ :=
  let key := connectionKey host port
  match (self.connections.lookup key).filter (!·.inUse) with
  | some entry => (.ok entry.socket,self.store key { entry with inUse := true, lastUsed := now },created)
  | none =>
    match connectSocket io host port created with
    | (.error e,created) => (.error e,self,created)
    | (.ok socket,created) => (.ok socket,self.store key ⟨socket,now,true⟩,created)

def releaseConnection (self : ConnectionPool) (host : Str) (port : UInt16) (now : ℤ) : ConnectionPool :=
  let key := connectionKey host port
  match self.connections.lookup key with
  | some entry => self.store key { entry with inUse := false, lastUsed := now }
  | none => self

/-- An idle entry that was last used more than five minutes ago. -/
def stale (entry : ConnectionEntry) (now : ℤ) : Bool := !entry.inUse && decide (300 < now-entry.lastUsed)

def cleanup (self : ConnectionPool) (now : ℤ) : ConnectionPool :=
  ⟨select (fun _ entry => !stale entry now) self.connections⟩

end ConnectionPool

/-- A client has got the socket for the host and the port, and has not released it. -/
structure Lease where
  client : ℕ
  socket : ℕ
  host : Str
  port : UInt16
deriving DecidableEq

/-- The pool with its clients. -/
structure Clients where
  pool : ConnectionPool
  created : ℕ
  closed : List ℕ
  leases : List Lease

def Clients.init : Clients := ⟨.init,0,[],[]⟩

inductive ClientCall
  | getConnection (client : ℕ) (host : Str) (port : UInt16) (io : Io) (now : ℤ)
  | releaseConnection (lease : Lease) (now : ℤ)
  | close (lease : Lease)
  | cleanup (now : ℤ)

def step (s : Clients) : ClientCall → Clients
  | .getConnection client host port io now =>
    match s.pool.getConnection io s.created host port now with
    | (.ok socket,pool,created) => ⟨pool,created,s.closed,⟨client,socket,host,port⟩::s.leases⟩
    | (.error _,pool,created) => ⟨pool,created,s.closed,s.leases⟩
  | .releaseConnection lease now =>
    { s with pool := s.pool.releaseConnection lease.host lease.port now, leases := s.leases.erase lease }
  | .close lease => { s with closed := lease.socket::s.closed }
  | .cleanup now => { s with pool := s.pool.cleanup now }

def entryAt (s : Clients) (key : Str) : Option ConnectionEntry := s.pool.connections.lookup key

/-- Clients release and close only what they have got. -/
def Lawful (s : Clients) : ClientCall → Prop
  | .releaseConnection lease _ => lease ∈ s.leases
  | .close lease => lease ∈ s.leases
  | _ => True

/-- The socket that is handed out is not held by another client. -/
def Exclusive (s : Clients) : ClientCall → Prop
  | .getConnection client host port io now =>
    ∀ socket, (s.pool.getConnection io s.created host port now).1 = .ok socket →
      ∀ lease ∈ s.leases, lease.client ≠ client → lease.socket = socket → socket ∈ s.closed
  | _ => True

/-- A socket that is no longer in the pool is closed. -/
def Kept (s : Clients) (a : ClientCall) : Prop :=
  ∀ key entry, entryAt s key = some entry →
    (∃ key' entry', entryAt (step s a) key' = some entry' ∧ entry'.socket = entry.socket) ∨
      entry.socket ∈ (step s a).closed

/-- No new socket takes the place of an open one that is in use, and no open one is idle for
five minutes when the pool is cleaned up. -/
def NoneDropped (s : Clients) : ClientCall → Prop
  | .getConnection _ host port io _ =>
    ∀ entry, entryAt s (connectionKey host port) = some entry → entry.inUse = true →
      (∃ socket, (connectSocket io host port s.created).1 = .ok socket) → entry.socket ∈ s.closed
  | .cleanup now => ∀ key entry, entryAt s key = some entry → ConnectionPool.stale entry now = true →
    entry.socket ∈ s.closed
  | _ => True

/-- A release does not meet an entry in which another socket is in use. -/
def OwnRelease (s : Clients) : ClientCall → Prop
  | .releaseConnection lease _ =>
    ∀ entry, entryAt s (connectionKey lease.host lease.port) = some entry → entry.inUse = true →
      entry.socket = lease.socket
  | _ => True

/-- The numbers of sockets are below the number of those created, and no socket has two
entries or two leases. -/
structure Numbered (s : Clients) : Prop where
  entries : ∀ key entry, entryAt s key = some entry → entry.socket < s.created
  leases : ∀ lease ∈ s.leases, lease.socket < s.created
  entryOf : ∀ key key' entry entry', entryAt s key = some entry → entryAt s key' = some entry' →
    entry.socket = entry'.socket → key = key'

/-- The entry of a socket that is held is in use, and a socket has one holder. -/
structure Held (s : Clients) : Prop where
  numbered : Numbered s
  inUse : ∀ lease ∈ s.leases, ∀ key entry, entryAt s key = some entry → entry.socket = lease.socket →
    entry.inUse = true
  holder : s.leases.Pairwise (fun lease lease' => lease.socket ≠ lease'.socket)

theorem Numbered.init : Numbered .init where
  entries _ _ h := nomatch h
  leases _ h := nomatch h
  entryOf _ _ _ _ h := nomatch h

theorem Held.init : Held .init where
  numbered := .init
  inUse _ h := nomatch h
  holder := .nil

section Steps

variable {s : Clients} {client : ℕ} {host : Str} {port : UInt16} {io : Io} {now : ℤ}

/-- A socket was made, or nothing but the number of sockets is different. -/
theorem connectSocket_cases (io : Io) (host : Str) (port : UInt16) (created : ℕ) :
    connectSocket io host port created = (.ok created,created+1) ∨
    ∃ e created', created ≤ created' ∧ connectSocket io host port created = (.error e,created') := by
  rw [connectSocket]
  split_ifs
  · exact Or.inr ⟨_,_,le_rfl,rfl⟩
  · exact Or.inr ⟨_,_,le_rfl,rfl⟩
  · exact Or.inr ⟨_,_,Nat.le_succ _,rfl⟩
  · cases io.connect with
    | none => exact Or.inl rfl
    | some e => exact Or.inr ⟨_,_,Nat.le_succ _,rfl⟩

/-- The socket of an idle entry is handed out, or no socket could be made, or a new one takes
the entry. -/
theorem getConnection_cases (s : Clients) (client : ℕ) (host : Str) (port : UInt16) (io : Io) (now : ℤ) :
    (∃ entry, entryAt s (connectionKey host port) = some entry ∧ entry.inUse = false ∧
      (s.pool.getConnection io s.created host port now).1 = .ok entry.socket ∧
      step s (.getConnection client host port io now) =
        ⟨s.pool.store (connectionKey host port) { entry with inUse := true, lastUsed := now },s.created,s.closed,
          ⟨client,entry.socket,host,port⟩::s.leases⟩) ∨
    (∃ e created', s.created ≤ created' ∧ (connectSocket io host port s.created).1 = .error e ∧
      (s.pool.getConnection io s.created host port now).1 = .error e ∧
      step s (.getConnection client host port io now) = { s with created := created' }) ∨
    (∀ entry, entryAt s (connectionKey host port) = some entry → entry.inUse = true) ∧
      (connectSocket io host port s.created).1 = .ok s.created ∧
      (s.pool.getConnection io s.created host port now).1 = .ok s.created ∧
      step s (.getConnection client host port io now) =
        ⟨s.pool.store (connectionKey host port) ⟨s.created,now,true⟩,s.created+1,s.closed,
          ⟨client,s.created,host,port⟩::s.leases⟩ := by
  rw [step,ConnectionPool.getConnection]
  cases hidle : (s.pool.connections.lookup (connectionKey host port)).filter (!·.inUse) with
  | some entry =>
    obtain ⟨hlookup,hfree⟩ := Option.filter_eq_some_iff.mp hidle
    exact Or.inl ⟨entry,hlookup,by simpa using hfree,rfl,rfl⟩
  | none =>
    rcases connectSocket_cases io host port s.created with hmade | ⟨e,created',hle,hfailed⟩
    · refine Or.inr (Or.inr ⟨?_,by rw [hmade],by simp only [hmade],by simp only [hmade]⟩)
      intro entry hlookup
      have hnone := Option.filter_eq_none_iff.mp hidle entry hlookup
      simpa using hnone
    · exact Or.inr (Or.inl ⟨e,created',hle,by rw [hfailed],by simp only [hfailed],by simp only [hfailed]⟩)

theorem lookup_store (pool : ConnectionPool) (key key' : Str) (entry : ConnectionEntry) :
    (pool.store key entry).connections.lookup key' = if key' = key then some entry else pool.connections.lookup key' :=
  lookup_insert_eq ..

/-- A release keeps the socket of every entry. -/
theorem releaseConnection_cases (pool : ConnectionPool) (host : Str) (port : UInt16) (now : ℤ) (key : Str) :
    (pool.releaseConnection host port now).connections.lookup key = pool.connections.lookup key ∧
      (key = connectionKey host port → pool.connections.lookup key = none) ∨
    ∃ entry, key = connectionKey host port ∧ pool.connections.lookup key = some entry ∧
      (pool.releaseConnection host port now).connections.lookup key =
        some { entry with inUse := false, lastUsed := now } := by
  rw [ConnectionPool.releaseConnection]
  by_cases hkey : key = connectionKey host port
  · cases hlookup : pool.connections.lookup (connectionKey host port) with
    | none => exact Or.inl ⟨rfl,fun _ => hkey ▸ hlookup⟩
    | some entry =>
      refine Or.inr ⟨entry,hkey,hkey ▸ hlookup,?_⟩
      rw [lookup_store,if_pos hkey]
  · refine Or.inl ⟨?_,fun h => (hkey h).elim⟩
    cases hlookup : pool.connections.lookup (connectionKey host port) with
    | none => rfl
    | some entry => rw [lookup_store,if_neg hkey]

theorem lookup_cleanup (pool : ConnectionPool) (now : ℤ) (key : Str) :
    (pool.cleanup now).connections.lookup key =
      (pool.connections.lookup key).filter (!ConnectionPool.stale · now) := lookup_select ..

/-- What a step says about an entry that it leaves: it was there with the same socket, or its
socket is new. -/
theorem entry_step (s : Clients) (a : ClientCall) {key : Str} {entry : ConnectionEntry}
    (h : entryAt (step s a) key = some entry) :
    (∃ entry', entryAt s key = some entry' ∧ entry'.socket = entry.socket) ∨
      entry.socket = s.created ∧ s.created < (step s a).created ∧
        ∀ key' entry', entryAt (step s a) key' = some entry' → key' ≠ key → entryAt s key' = some entry' := by
  cases a with
  | getConnection client host port io now =>
    rcases getConnection_cases s client host port io now with
      ⟨old,hold,-,-,hstep⟩ | ⟨e,created',-,-,-,hstep⟩ | ⟨-,-,-,hstep⟩
    · rw [hstep,entryAt,lookup_store] at h
      split at h
      · rename_i hkey
        cases h
        exact Or.inl ⟨old,hkey ▸ hold,rfl⟩
      · exact Or.inl ⟨entry,h,rfl⟩
    · rw [hstep] at h
      exact Or.inl ⟨entry,h,rfl⟩
    · rw [hstep] at h ⊢
      rw [entryAt,lookup_store] at h
      split at h
      · rename_i hkey
        cases h
        refine Or.inr ⟨rfl,Nat.lt_succ_self _,fun key' entry' h' hne => ?_⟩
        rwa [entryAt,lookup_store,if_neg (hkey ▸ hne)] at h'
      · exact Or.inl ⟨entry,h,rfl⟩
  | releaseConnection lease now =>
    rcases releaseConnection_cases s.pool lease.host lease.port now key with ⟨hsame,-⟩ | ⟨old,-,hold,hnew⟩
    · exact Or.inl ⟨entry,hsame.symm.trans h,rfl⟩
    · cases hnew.symm.trans h
      exact Or.inl ⟨old,hold,rfl⟩
  | close lease => exact Or.inl ⟨entry,h,rfl⟩
  | cleanup now =>
    have hlookup := (lookup_cleanup s.pool now key).symm.trans h
    exact Or.inl ⟨entry,(Option.filter_eq_some_iff.mp hlookup).1,rfl⟩

theorem created_le (s : Clients) (a : ClientCall) : s.created ≤ (step s a).created := by
  cases a with
  | getConnection client host port io now =>
    rcases getConnection_cases s client host port io now with
      ⟨_,-,-,-,hstep⟩ | ⟨_,_,hle,-,-,hstep⟩ | ⟨-,-,-,hstep⟩
    · rw [hstep]
    · rw [hstep]
      exact hle
    · rw [hstep]
      exact Nat.le_succ _
  | releaseConnection lease now => exact le_rfl
  | close lease => exact le_rfl
  | cleanup now => exact le_rfl

/-- A lease was there before, or it is for the socket of an entry or for a new one. -/
theorem lease_step (s : Clients) (a : ClientCall) {lease : Lease} (h : lease ∈ (step s a).leases) :
    lease ∈ s.leases ∨ (∃ key entry, entryAt s key = some entry ∧ entry.socket = lease.socket) ∨
      lease.socket = s.created ∧ s.created < (step s a).created := by
  cases a with
  | getConnection client host port io now =>
    rcases getConnection_cases s client host port io now with
      ⟨old,hold,-,-,hstep⟩ | ⟨_,_,-,-,-,hstep⟩ | ⟨-,-,-,hstep⟩
    · rw [hstep] at h
      rcases List.mem_cons.mp h with rfl | h
      · exact Or.inr (Or.inl ⟨_,old,hold,rfl⟩)
      · exact Or.inl h
    · rw [hstep] at h
      exact Or.inl h
    · rw [hstep] at h ⊢
      rcases List.mem_cons.mp h with rfl | h
      · exact Or.inr (Or.inr ⟨rfl,Nat.lt_succ_self _⟩)
      · exact Or.inl h
  | releaseConnection lease' now => exact Or.inl (List.mem_of_mem_erase h)
  | close lease' => exact Or.inl h
  | cleanup now => exact Or.inl h

theorem Numbered.step (h : Numbered s) (a : ClientCall) : Numbered (step s a) := by
  have hle := created_le s a
  refine ⟨fun key entry hentry => ?_,fun lease hlease => ?_,fun key key' entry entry' hentry hentry' hsame => ?_⟩
  · rcases entry_step s a hentry with ⟨old,hold,hsocket⟩ | ⟨hnew,hlt,-⟩
    · exact hsocket ▸ Nat.lt_of_lt_of_le (h.entries key old hold) hle
    · exact hnew ▸ hlt
  · rcases lease_step s a hlease with hold | ⟨key,entry,hentry,hsocket⟩ | ⟨hnew,hlt⟩
    · exact Nat.lt_of_lt_of_le (h.leases lease hold) hle
    · exact hsocket ▸ Nat.lt_of_lt_of_le (h.entries key entry hentry) hle
    · exact hnew ▸ hlt
  · by_contra hne
    rcases entry_step s a hentry with ⟨old,hold,hsocket⟩ | ⟨hnew,-,hothers⟩
    · rcases entry_step s a hentry' with ⟨old',hold',hsocket'⟩ | ⟨hnew',-,-⟩
      · exact hne (h.entryOf key key' old old' hold hold' (hsocket.trans (hsame.trans hsocket'.symm)))
      · have hlt := h.entries key old hold
        omega
    · have hlt := h.entries key' entry' (hothers key' entry' hentry' (Ne.symm hne))
      omega

/-- An open entry that is in use loses its socket when a new connection takes its place. -/
theorem Numbered.kept_getConnection (h : Numbered s) (client : ℕ) (host : Str) (port : UInt16) (io : Io) (now : ℤ) :
    Kept s (.getConnection client host port io now) ↔ NoneDropped s (.getConnection client host port io now) := by
  rcases getConnection_cases s client host port io now with
    ⟨old,hold,hfree,-,hstep⟩ | ⟨e,_,-,herror,-,hstep⟩ | ⟨huse,hmade,-,hstep⟩
  · refine iff_of_true (fun key entry hentry => Or.inl ?_) fun entry hentry hused => ?_
    · rw [hstep]
      by_cases hkey : key = connectionKey host port
      · rw [hkey] at hentry
        cases hold.symm.trans hentry
        exact ⟨connectionKey host port,{ old with inUse := true, lastUsed := now },
          by rw [entryAt,lookup_store,if_pos rfl],rfl⟩
      · exact ⟨key,entry,by rw [entryAt,lookup_store,if_neg hkey]; exact hentry,rfl⟩
    · cases hold.symm.trans hentry
      cases hfree.symm.trans hused
  · refine iff_of_true (fun key entry hentry => Or.inl ⟨key,entry,by rw [hstep]; exact hentry,rfl⟩) ?_
    rintro entry - - ⟨socket,hok⟩
    cases herror.symm.trans hok
  · constructor
    · intro hkept entry hentry _ _
      rcases hkept _ entry hentry with ⟨key',entry',hentry',hsame⟩ | hclosed
      · rw [hstep,entryAt,lookup_store] at hentry'
        have hlt := h.entries _ entry hentry
        split at hentry'
        · cases hentry'
          change s.created = entry.socket at hsame
          omega
        · rename_i hne
          exact (hne (h.entryOf key' _ entry' entry hentry' hentry hsame)).elim
      · rw [hstep] at hclosed
        exact hclosed
    · intro hclosed key entry hentry
      rw [hstep]
      by_cases hkey : key = connectionKey host port
      · subst hkey
        exact Or.inr (hclosed entry hentry (huse entry hentry) ⟨_,hmade⟩)
      · exact Or.inl ⟨key,entry,by rw [entryAt,lookup_store,if_neg hkey]; exact hentry,rfl⟩

/-- The cleanup drops the sockets of the stale entries. -/
theorem Numbered.kept_cleanup (h : Numbered s) (now : ℤ) : Kept s (.cleanup now) ↔ NoneDropped s (.cleanup now) := by
  constructor
  · intro hkept key entry hentry hstale
    rcases hkept key entry hentry with ⟨key',entry',hentry',hsame⟩ | hclosed
    · obtain ⟨hold,hfresh⟩ := Option.filter_eq_some_iff.mp ((lookup_cleanup s.pool now key').symm.trans hentry')
      have hkey := h.entryOf key' key entry' entry hold hentry hsame
      rw [hkey] at hold
      cases hentry.symm.trans hold
      rw [hstale] at hfresh
      cases hfresh
    · exact hclosed
  · intro hclosed key entry hentry
    cases hstale : ConnectionPool.stale entry now with
    | true => exact Or.inr (hclosed key entry hentry hstale)
    | false =>
      refine Or.inl ⟨key,entry,(lookup_cleanup s.pool now key).trans ?_,rfl⟩
      exact Option.filter_eq_some_iff.mpr ⟨hentry,by rw [hstale]; rfl⟩

/-- The sockets of the entries are kept exactly if no open one is dropped. -/
theorem Numbered.kept_iff (h : Numbered s) (a : ClientCall) : Kept s a ↔ NoneDropped s a := by
  cases a with
  | getConnection client host port io now => exact h.kept_getConnection client host port io now
  | releaseConnection lease now =>
    refine iff_of_true (fun key entry hentry => Or.inl ?_) trivial
    rcases releaseConnection_cases s.pool lease.host lease.port now key with ⟨hsame,-⟩ | ⟨old,-,hold,hnew⟩
    · exact ⟨key,entry,hsame.trans hentry,rfl⟩
    · cases hold.symm.trans hentry
      exact ⟨key,_,hnew,rfl⟩
  | close lease => exact iff_of_true (fun key entry hentry => Or.inl ⟨key,entry,hentry,rfl⟩) trivial
  | cleanup now => exact h.kept_cleanup now

/-- An idle entry has no holder, so that its socket can be handed out. -/
theorem Held.exclusive (h : Held s) (a : ClientCall) : Exclusive s a := by
  cases a with
  | getConnection client host port io now =>
    intro socket hok lease hlease _ hsocket
    rcases getConnection_cases s client host port io now with
      ⟨old,hold,hfree,hresult,-⟩ | ⟨e,_,-,-,hresult,-⟩ | ⟨-,-,hresult,-⟩
    · cases hresult.symm.trans hok
      cases hfree.symm.trans (h.inUse lease hlease _ old hold hsocket.symm)
    · cases hresult.symm.trans hok
    · cases hresult.symm.trans hok
      have hlt := h.numbered.leases lease hlease
      omega
  | releaseConnection lease now => trivial
  | close lease => trivial
  | cleanup now => trivial

/-- The other leases are for other sockets. -/
theorem Held.erase_ne (h : Held s) {lease lease' : Lease} (hmem : lease ∈ s.leases) (hother : lease' ∈ s.leases.erase lease) :
    lease'.socket ≠ lease.socket := by
  have hpairs := (List.perm_cons_erase hmem).pairwise_iff (R:=fun l l' => l.socket ≠ l'.socket) Ne.symm |>.mp h.holder
  exact Ne.symm (List.rel_of_pairwise_cons hpairs hother)

/-- What is released or handed out stays with its holder. -/
theorem Held.inUse_step (h : Held s) {a : ClientCall} (hlawful : Lawful s a) (hown : OwnRelease s a) :
    ∀ lease ∈ (step s a).leases, ∀ key entry, entryAt (step s a) key = some entry → entry.socket = lease.socket →
      entry.inUse = true := by
  intro lease hlease key entry hentry hsocket
  cases a with
  | getConnection client host port io now =>
    rcases getConnection_cases s client host port io now with
      ⟨old,hold,-,-,hstep⟩ | ⟨_,_,-,-,-,hstep⟩ | ⟨-,-,-,hstep⟩
    · rw [hstep] at hlease hentry
      rw [entryAt,lookup_store] at hentry
      split at hentry
      · cases hentry
        rfl
      · rename_i hne
        rcases List.mem_cons.mp hlease with rfl | hlease
        · exact (hne (h.numbered.entryOf _ _ _ _ hentry hold hsocket)).elim
        · exact h.inUse lease hlease key entry hentry hsocket
    · rw [hstep] at hlease hentry
      exact h.inUse lease hlease key entry hentry hsocket
    · rw [hstep] at hlease hentry
      rw [entryAt,lookup_store] at hentry
      split at hentry
      · cases hentry
        rfl
      · rcases List.mem_cons.mp hlease with rfl | hlease
        · have hlt := h.numbered.entries key entry hentry
          change entry.socket = s.created at hsocket
          omega
        · exact h.inUse lease hlease key entry hentry hsocket
  | releaseConnection released now =>
    have hmem := List.mem_of_mem_erase hlease
    rcases releaseConnection_cases s.pool released.host released.port now key with ⟨hsame,-⟩ | ⟨old,hkey,hold,hnew⟩
    · exact h.inUse lease hmem key entry (hsame.symm.trans hentry) hsocket
    · cases hnew.symm.trans hentry
      have hused := h.inUse lease hmem key old hold hsocket
      have hsocket' := hown old (hkey ▸ hold) hused
      exact (h.erase_ne hlawful hlease (hsocket.symm.trans hsocket')).elim
  | close closed => exact h.inUse lease hlease key entry hentry hsocket
  | cleanup now =>
    have hold := (Option.filter_eq_some_iff.mp ((lookup_cleanup s.pool now key).symm.trans hentry)).1
    exact h.inUse lease hlease key entry hold hsocket

theorem Held.holder_step (h : Held s) (a : ClientCall) :
    (step s a).leases.Pairwise fun lease lease' => lease.socket ≠ lease'.socket := by
  cases a with
  | getConnection client host port io now =>
    rcases getConnection_cases s client host port io now with
      ⟨old,hold,hfree,-,hstep⟩ | ⟨_,_,-,-,-,hstep⟩ | ⟨-,-,-,hstep⟩
    · rw [hstep]
      refine List.pairwise_cons.mpr ⟨fun lease hlease hsame => ?_,h.holder⟩
      cases hfree.symm.trans (h.inUse lease hlease _ old hold hsame)
    · rw [hstep]
      exact h.holder
    · rw [hstep]
      refine List.pairwise_cons.mpr ⟨fun lease hlease hsame => ?_,h.holder⟩
      have hlt := h.numbered.leases lease hlease
      change s.created = lease.socket at hsame
      omega
  | releaseConnection released now => exact h.holder.sublist List.erase_sublist
  | close closed => exact h.holder
  | cleanup now => exact h.holder

theorem Held.step (h : Held s) {a : ClientCall} (hlawful : Lawful s a) (hown : OwnRelease s a) : Held (step s a) :=
  ⟨h.numbered.step a,h.inUse_step hlawful hown,h.holder_step a⟩

end Steps

/-- In every run in which clients release and close only what they have got, open sockets stay
in the pool exactly if none is dropped. If no release meets the socket of somebody else,
sockets are handed out exclusively. -/
theorem pool_exclusive (calls : List ClientCall) (hlawful : Along step Lawful .init calls) :
    (Along step Kept .init calls ↔ Along step NoneDropped .init calls) ∧
    (Along step OwnRelease .init calls → Along step Exclusive .init calls) := by
  constructor
  · exact along_iff (I:=Numbered) (fun s a h _ => h.step a) (fun s a h => h.kept_iff a) .init
  · intro hown
    have hboth := along_and.mpr ⟨hlawful,hown⟩
    exact hboth.of_inv (I:=Held) (fun s a h hgood => ⟨h.exclusive a,h.step hgood.1 hgood.2⟩) .init

/-- Every call to the operating system succeeds. -/
def readyIo : Io := ⟨true,true,none⟩

def localhost : Str := ascii ['1','2','7','.','0','.','0','.','1']

/-- The client asks for a connection to port 80. -/
def getCall (client : ℕ) : ClientCall := .getConnection client localhost 80 readyIo 0

def releaseCall (client socket : ℕ) : ClientCall := .releaseConnection ⟨client,socket,localhost,80⟩ 0

/-- Two clients use the same socket one after the other. -/
theorem pool_exclusive_pair : Along step Exclusive .init [getCall 0,releaseCall 0 0,getCall 1] := by
  apply (pool_exclusive [getCall 0,releaseCall 0 0,getCall 1] ⟨trivial,List.mem_cons_self ..,trivial,trivial⟩).2
  refine ⟨trivial,?_,trivial,trivial⟩
  intro entry hentry _
  cases hentry
  rfl

/-- The release of the first client frees the entry of the second one, whose socket is then
handed to the third. -/
theorem pool_shared : ¬∀ calls : List ClientCall, Along step Lawful .init calls →
    Along step (fun s a => Exclusive s a ∧ Kept s a) .init calls := by
  intro h
  have hrun := h [getCall 0,getCall 1,releaseCall 0 0,getCall 2]
    ⟨trivial,trivial,List.mem_cons_of_mem _ (List.mem_cons_self ..),trivial,trivial⟩
  have hclosed : 1 ∈ ([] : List ℕ) :=
    hrun.2.2.2.1.1 1 rfl ⟨1,1,localhost,80⟩ (List.mem_cons_self ..) (by decide) rfl
  cases hclosed

end ZNet.SocketPool
