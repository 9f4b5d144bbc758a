import ZNet.QuicStream
import Mathlib.Algebra.Ring.Nat
import Mathlib.Data.List.AList

/-!
# Ids of QUIC streams

`createStream` gives out every fourth number as an id, from zero on and for both kinds of
streams. In the two low bits that are to tell the kinds apart all ids have zeros.
-/

namespace ZNet.QuicStreamIds
open QuicStreams Runs

inductive StreamType
  | uni | bidiClient | bidiServer
deriving DecidableEq

/-- A stream with its id and its type. -/
structure OpenStream where
  id : ℕ
  streamType : StreamType
  stream : Stream

structure Connection where
  nextStreamId : ℕ
  streams : AList fun _ : ℕ => OpenStream

namespace Connection

def init : Connection := ⟨0,∅⟩

/-- `memory` tells whether there is memory for the stream and its place in the table. The
id is taken before that is known. -/
def createStream (self : Connection) (streamType : StreamType) (memory : Bool) :
    Except StreamError OpenStream×Connection :=
  let streamId := self.nextStreamId
  if streamId+4 < 18446744073709551616 then
    let stream : OpenStream := ⟨streamId,streamType,.init⟩
    if memory then (.ok stream,⟨streamId+4,self.streams.insert streamId stream⟩)
    else (.error .outOfMemory,⟨streamId+4,self.streams⟩)
  else (.error .trap,self)

def openUniStream (self : Connection) (memory : Bool) : Except StreamError OpenStream×Connection :=
  self.createStream .uni memory

def openBidiStream (self : Connection) (memory : Bool) : Except StreamError OpenStream×Connection :=
  self.createStream .bidiClient memory

end Connection

/-- The kinds of streams that a client opens. -/
inductive Kind
  | uni | bidi
deriving DecidableEq

/-- The two low bits of a client's id, as RFC 9000 §2.1 assigns them. -/
def Kind.lowBits : Kind → ℕ
  | .uni => 0b10
  | .bidi => 0b00

structure Call where
  kind : Kind
  memory : Bool

def perform (connection : Connection) (call : Call) : Except StreamError OpenStream×Connection :=
  match call.kind with
  | .uni => connection.openUniStream call.memory
  | .bidi => connection.openBidiStream call.memory

/-- The ids that the calls return, each with the kind that was asked for. -/
def opened : Connection → List Call → List (Kind×ℕ)
  | _,[] => []
  | connection,call::calls =>
    match perform connection call with
    | (.ok stream,connection) => (call.kind,stream.id)::opened connection calls
    | (.error _,connection) => opened connection calls

/-- The ids are distinct, and their low bits tell the kinds of the streams. -/
structure Identified (calls : List Call) : Prop where
  distinct : (opened .init calls).Pairwise (·.2 ≠ ·.2)
  lowBits : ∀ e ∈ opened .init calls, e.2%4 = e.1.lowBits

section Runs

variable {connection : Connection}

theorem perform_eq (connection : Connection) (call : Call) : perform connection call =
    connection.createStream (match call.kind with | .uni => .uni | .bidi => .bidiClient) call.memory := by
  obtain ⟨kind,memory⟩ := call
  cases kind <;> rfl

/-- Whatever the kind of a call is, the next id is a multiple of four. -/
theorem opened_cons {j : ℕ} (hnext : connection.nextStreamId = 4*j) (hj : j+1 < 2^62) (call : Call)
    (calls : List Call) : opened connection (call::calls) =
      (if call.memory then [(call.kind,4*j)] else [])++opened (perform connection call).2 calls ∧
    (perform connection call).2.nextStreamId = 4*(j+1) := by
  have hfits : connection.nextStreamId+4 < 18446744073709551616 := by omega
  rw [opened,perform_eq,Connection.createStream]
  simp only [if_pos hfits]
  cases hmemory : call.memory with
  | false =>
    refine ⟨rfl,?_⟩
    simp only [Bool.false_eq_true,if_false]
    omega
  | true =>
    simp only [if_true,hnext]
    exact ⟨rfl,by omega⟩

/-- Once the addition overflows, every call traps. -/
theorem opened_trap {j : ℕ} (hnext : connection.nextStreamId = 4*j) (hj : 2^62 ≤ j+1) (calls : List Call) :
    opened connection calls = [] := by
  have hfits : ¬connection.nextStreamId+4 < 18446744073709551616 := by omega
  induction calls with
  | nil => rfl
  | cons call calls ih =>
    rw [opened,perform_eq,Connection.createStream]
    simp only [if_neg hfits]
    exact ih

/-- The call at `i` returns four times its number, if it returns an id. -/
theorem mem_opened {j : ℕ} (hnext : connection.nextStreamId = 4*j) (calls : List Call) (e : Kind×ℕ) :
    e ∈ opened connection calls ↔ ∃ i call, calls[i]? = some call ∧ call.memory = true ∧ i+j+1 < 2^62 ∧
      e = (call.kind,4*(i+j)) := by
  induction calls generalizing connection j with
  | nil => simp [opened]
  | cons call calls ih =>
    by_cases hj : j+1 < 2^62
    · obtain ⟨hopened,hnext'⟩ := opened_cons hnext hj call calls
      rw [hopened,List.mem_append,ih hnext']
      constructor
      · rintro (hfirst|⟨i,call',hget,hmemory,hlt,rfl⟩)
        · split at hfirst
          · rename_i hmemory
            exact ⟨0,call,rfl,hmemory,by omega,by rw [List.mem_singleton.mp hfirst,Nat.zero_add]⟩
          · cases hfirst
        · exact ⟨i+1,call',hget,hmemory,by omega,by rw [Nat.add_right_comm]; rfl⟩
      · rintro ⟨i,call',hget,hmemory,hlt,rfl⟩
        cases i with
        | zero =>
          obtain rfl : call = call' := Option.some.inj hget
          rw [if_pos hmemory,Nat.zero_add]
          exact .inl (List.mem_singleton.mpr rfl)
        | succ i => exact .inr ⟨i,call',hget,hmemory,by omega,by rw [Nat.add_right_comm]; rfl⟩
    · rw [opened_trap hnext (Nat.not_lt.mp hj)]
      refine iff_of_false List.not_mem_nil ?_
      rintro ⟨i,call',-,-,hlt,-⟩
      omega

theorem pairwise_opened {j : ℕ} (hnext : connection.nextStreamId = 4*j) (calls : List Call) :
    (opened connection calls).Pairwise (·.2 ≠ ·.2) := by
  induction calls generalizing connection j with
  | nil => exact .nil
  | cons call calls ih =>
    by_cases hj : j+1 < 2^62
    · obtain ⟨hopened,hnext'⟩ := opened_cons hnext hj call calls
      rw [hopened,List.pairwise_append]
      refine ⟨?_,ih hnext',?_⟩
      · split <;> simp
      · intro e he e' he'
        obtain ⟨i,call',-,-,-,rfl⟩ := (mem_opened hnext' calls e').mp he'
        split at he
        · rw [List.mem_singleton.mp he]
          simp only
          omega
        · cases he
    · rw [opened_trap hnext (Nat.not_lt.mp hj)]
      exact .nil

end Runs

/-- The ids of a run are always distinct. They tell the kinds of the streams exactly if no
call for a unidirectional stream gets one: each either finds no memory or comes when the
ids are used up. -/
theorem identified_iff (calls : List Call) : Identified calls ↔
    ∀ i call, calls[i]? = some call → call.kind = .uni → call.memory = false ∨ 2^62 ≤ i+1 := by
  have hnext : Connection.init.nextStreamId = 4*0 := rfl
  constructor
  · intro h i call hget huni
    by_contra hopen
    rw [not_or,Bool.not_eq_false] at hopen
    have hmem : (call.kind,4*i) ∈ opened .init calls :=
      (mem_opened hnext calls _).mpr ⟨i,call,hget,hopen.1,by omega,rfl⟩
    have hbits := h.lowBits _ hmem
    rw [huni,Kind.lowBits] at hbits
    omega
  · intro h
    refine ⟨pairwise_opened hnext calls,fun e he => ?_⟩
    obtain ⟨i,call,hget,hmemory,hlt,rfl⟩ := (mem_opened hnext calls e).mp he
    cases hkind : call.kind with
    | uni =>
      obtain hnone|hused := h i call hget hkind
      · simp [hmemory] at hnone
      · omega
    | bidi =>
      simp only [Kind.lowBits]
      omega

/-- A unidirectional stream, with the id 0 of a bidirectional one. -/
theorem uni_zero : opened .init [⟨.uni,true⟩] = [(.uni,0)] ∧ ¬Identified [⟨.uni,true⟩] := by
  have hopened : opened .init [⟨.uni,true⟩] = [(.uni,0)] := rfl
  refine ⟨hopened,fun h => ?_⟩
  have hbits := h.lowBits (.uni,0) (by rw [hopened]; exact List.mem_cons_self)
  exact absurd hbits (by decide)

end ZNet.QuicStreamIds
