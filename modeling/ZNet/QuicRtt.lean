import ZNet.Runs
import Mathlib.Algebra.Ring.Nat

/-!
# The round trip estimator of QUIC

`onAck` smooths the samples and `getRTO` reads a timeout off the result. Durations are
numbers of nanoseconds below a bound that the clock's own type has.
-/

namespace ZNet.QuicRtt
open Runs

def nsPerMs : ℕ := 1000000
def nsPerS : ℕ := 1000000000
def nsPerMinute : ℕ := 60*nsPerS

structure LossRecovery where
  highestAcked : ℕ
  rttSamples : List ℕ
  smoothedRtt : ℕ
  rttvar : ℕ

/-- An acknowledgement. `memory` tells whether there is memory to keep its sample. -/
structure Ack where
  packetNum : ℕ
  ackDelay : ℕ
  memory : Bool

/-- A number of nanoseconds that a duration can hold. All else traps. -/
def checkedNs (limit ns : ℕ) : Option ℕ := if ns < limit then some ns else none

namespace LossRecovery

/-- The source begins with the number 0. No time depends on it. -/
def init (highestAcked : ℕ) : LossRecovery := ⟨highestAcked,[],100*nsPerMs,25*nsPerMs⟩

/-- The new variation takes three quarters of the deviation, too. -/
def onAck (limit : ℕ) (self : LossRecovery) (ack : Ack) : Option LossRecovery :=
  let highestAcked := max self.highestAcked ack.packetNum
  let rttSamples := if ack.memory then self.rttSamples++[ack.ackDelay] else self.rttSamples
  if rttSamples.length > 0 then do
    let scaled ← checkedNs limit (self.smoothedRtt*7+ack.ackDelay)
    let deviation := ((self.smoothedRtt : ℤ)-ack.ackDelay).natAbs
    let varied ← checkedNs limit (deviation*3+self.rttvar*3)
    some ⟨highestAcked,rttSamples,scaled/8,varied/4⟩
  else some ⟨highestAcked,rttSamples,self.smoothedRtt,self.rttvar⟩

/-- The cap is sixty minutes, which the source calls 60s. -/
def getRTO (limit : ℕ) (self : LossRecovery) : Option ℕ := do
  let rto ← checkedNs limit (self.smoothedRtt+max (nsPerMs*100) (4*self.rttvar))
  some (if rto > nsPerMinute*60 then nsPerMinute*60 else rto)

end LossRecovery

/-- The estimator of RFC 6298 on a smoothed time, a variation and a sample. -/
def srtt (smoothed sample : ℕ) : ℕ := (7*smoothed+sample)/8
def rttvar (smoothed variation sample : ℕ) : ℕ := (3*variation+((smoothed : ℤ)-sample).natAbs)/4

/-- The timeout is there and is at most the documented cap. -/
def Capped (limit : ℕ) (self : LossRecovery) : Prop := ∃ rto, self.getRTO limit = some rto ∧ rto ≤ 60*nsPerS

/-- The acknowledgement moves the estimator as RFC 6298 says. -/
def Follows (limit : ℕ) (self : LossRecovery) (ack : Ack) : Prop :=
  ∃ next, self.onAck limit ack = some next ∧ next.smoothedRtt = srtt self.smoothedRtt ack.ackDelay ∧
    next.rttvar = rttvar self.smoothedRtt self.rttvar ack.ackDelay ∧ Capped limit next

/-- A trap ends the program, and the estimator stays as it was. -/
def step (limit : ℕ) (self : LossRecovery) (ack : Ack) : LossRecovery := (self.onAck limit ack).getD self

/-- Every acknowledgement of the list follows RFC 6298, from a new estimator on. -/
structure FollowsRfc (limit highestAcked : ℕ) (acks : List Ack) : Prop where
  initial : Capped limit (.init highestAcked)
  along : Along (step limit) (Follows limit) (.init highestAcked) acks

/-- The sample is off by at most a nanosecond, and three quarters of that nanosecond vanish
in the rounding. The very first sample is kept. -/
def Steady (self : LossRecovery) (ack : Ack) : Prop :=
  (self.rttSamples = [] → ack.memory = true) ∧
    (ack.ackDelay = self.smoothedRtt ∨
      ((self.smoothedRtt : ℤ)-ack.ackDelay).natAbs = 1 ∧ (3*self.rttvar+1)%4 < 2)

/-- Nothing has grown since the beginning. -/
structure Small (recovery : LossRecovery) : Prop where
  smoothed : recovery.smoothedRtt ≤ 100*nsPerMs
  variation : recovery.rttvar ≤ 25*nsPerMs
  first : recovery.rttSamples = [] → recovery.smoothedRtt = 100*nsPerMs ∧ recovery.rttvar = 25*nsPerMs

section Estimator

variable {limit : ℕ} {self next : LossRecovery} {ack : Ack}

/-- Three quarters of a deviation are a quarter of it only where the rounding hides them. -/
theorem quarters_eq (d v : ℕ) : (d*3+v*3)/4 = (3*v+d)/4 ↔ d = 0 ∨ d = 1 ∧ (3*v+1)%4 < 2 := by
  constructor
  · intro h
    obtain rfl|rfl|hd : d = 0 ∨ d = 1 ∨ 2 ≤ d := by omega
    · exact .inl rfl
    · exact .inr ⟨rfl,by omega⟩
    · omega
  · rintro (rfl|⟨rfl,hrest⟩) <;> omega

theorem checkedNs_eq_some {ns m : ℕ} : checkedNs limit ns = some m ↔ ns < limit ∧ ns = m := by
  simp [checkedNs]

/-- What an acknowledgement does once some sample is kept. -/
theorem onAck_eq_some (hkept : self.rttSamples = [] → ack.memory = true) :
    self.onAck limit ack = some next ↔
      self.smoothedRtt*7+ack.ackDelay < limit ∧
      ((self.smoothedRtt : ℤ)-ack.ackDelay).natAbs*3+self.rttvar*3 < limit ∧
      next = ⟨max self.highestAcked ack.packetNum,
        if ack.memory then self.rttSamples++[ack.ackDelay] else self.rttSamples,
        (self.smoothedRtt*7+ack.ackDelay)/8,
        (((self.smoothedRtt : ℤ)-ack.ackDelay).natAbs*3+self.rttvar*3)/4⟩ := by
  have hlength : (if ack.memory then self.rttSamples++[ack.ackDelay] else self.rttSamples).length > 0 := by
    split
    · simp
    · rename_i hmemory
      exact List.length_pos_iff.mpr fun h => hmemory (hkept h)
  simp only [LossRecovery.onAck,if_pos hlength,Option.bind_eq_bind,Option.bind_eq_some_iff,checkedNs_eq_some,
    Option.some.injEq]
  constructor
  · rintro ⟨scaled,⟨hscaled,rfl⟩,varied,⟨hvaried,rfl⟩,rfl⟩
    exact ⟨hscaled,hvaried,rfl⟩
  · rintro ⟨hscaled,hvaried,rfl⟩
    exact ⟨_,⟨hscaled,rfl⟩,_,⟨hvaried,rfl⟩,rfl⟩

/-- Without memory for the first sample the estimator does not move. -/
theorem onAck_of_unkept (hsamples : self.rttSamples = []) (hmemory : ack.memory = false) :
    self.onAck limit ack = some {self with highestAcked := max self.highestAcked ack.packetNum} := by
  simp [LossRecovery.onAck,hsamples,hmemory]

theorem Small.capped (hlimit : 2^32 ≤ limit) (h : Small self) : Capped limit self := by
  have hsmoothed := h.smoothed
  have hvariation := h.variation
  simp only [nsPerMs] at hsmoothed hvariation
  have hrto : self.smoothedRtt+max (nsPerMs*100) (4*self.rttvar) ≤ 200*nsPerMs := by
    simp only [nsPerMs]
    omega
  have hchecked : checkedNs limit (self.smoothedRtt+max (nsPerMs*100) (4*self.rttvar)) =
      some (self.smoothedRtt+max (nsPerMs*100) (4*self.rttvar)) := by
    simp only [nsPerMs] at hrto ⊢
    exact checkedNs_eq_some.mpr ⟨by omega,rfl⟩
  have hcap : ¬self.smoothedRtt+max (nsPerMs*100) (4*self.rttvar) > nsPerMinute*60 := by
    simp only [nsPerMs,nsPerMinute,nsPerS] at hrto ⊢
    omega
  refine ⟨self.smoothedRtt+max (nsPerMs*100) (4*self.rttvar),?_,?_⟩
  · rw [LossRecovery.getRTO,hchecked,Option.bind_eq_bind,Option.bind_some,if_neg hcap]
  · simp only [nsPerS,nsPerMs] at hrto ⊢
    omega

/-- A steady sample does not raise the smoothed time or the variation. -/
theorem Small.onAck (hlimit : 2^32 ≤ limit) (h : Small self) (hsteady : Steady self ack) :
    ∃ next, self.onAck limit ack = some next ∧ Small next := by
  have hsmoothed := h.smoothed
  have hvariation := h.variation
  obtain ⟨hkept,hsample⟩ := hsteady
  simp only [nsPerMs] at hsmoothed hvariation
  refine ⟨_,(onAck_eq_some hkept).mpr ⟨by omega,by omega,rfl⟩,?_,?_,?_⟩
  · simp only [nsPerMs]
    omega
  · simp only [nsPerMs]
    omega
  · intro hnil
    simp only at hnil
    split at hnil
    · simp at hnil
    · rename_i hmemory
      exact absurd (hkept hnil) hmemory

theorem Small.step (hlimit : 2^32 ≤ limit) (h : Small self) (hsteady : Steady self ack) :
    Small (step limit self ack) := by
  obtain ⟨next,hnext,hsmall⟩ := h.onAck hlimit hsteady
  rw [QuicRtt.step,hnext]
  exact hsmall

/-- One acknowledgement follows RFC 6298 exactly if its sample is steady. -/
theorem steady_of_follows_iff (hlimit : 2^32 ≤ limit) (h : Small self) : Follows limit self ack ↔ Steady self ack := by
  constructor
  · rintro ⟨next,hnext,hsmoothed,hvariation,-⟩
    by_cases hkept : self.rttSamples = [] → ack.memory = true
    · obtain ⟨-,-,rfl⟩ := (onAck_eq_some hkept).mp hnext
      obtain hzero|hone := (quarters_eq _ _).mp hvariation
      · exact ⟨hkept,.inl (by omega)⟩
      · exact ⟨hkept,.inr hone⟩
    · -- the variation of a new estimator is too large to be kept by a sample near its time
      rw [Classical.not_imp,Bool.not_eq_true] at hkept
      obtain ⟨hfirst,hfirst'⟩ := h.first hkept.1
      rw [onAck_of_unkept hkept.1 hkept.2] at hnext
      obtain rfl := Option.some.inj hnext
      simp only [srtt,rttvar,hfirst,hfirst',nsPerMs] at hsmoothed hvariation
      omega
  · intro hsteady
    obtain ⟨next,hnext,hsmall⟩ := h.onAck hlimit hsteady
    refine ⟨next,hnext,?_,?_,hsmall.capped hlimit⟩
    · obtain ⟨-,-,rfl⟩ := (onAck_eq_some hsteady.1).mp hnext
      rw [srtt,Nat.mul_comm]
    · obtain ⟨-,-,rfl⟩ := (onAck_eq_some hsteady.1).mp hnext
      refine (quarters_eq _ _).mpr ?_
      obtain hsame|hnext := hsteady.2
      · exact .inl (by rw [hsame,Int.sub_self]; rfl)
      · exact .inr hnext

theorem small_init (highestAcked : ℕ) : Small (.init highestAcked) :=
  ⟨Nat.le_refl _,Nat.le_refl _,fun _ => ⟨rfl,rfl⟩⟩

end Estimator

/-- A run follows RFC 6298 exactly if every sample is the smoothed time itself, or next to
it where the rounding hides the difference. Each further deviation counts three times. -/
theorem followsRfc_iff (limit : ℕ) (hlimit : 2^32 ≤ limit) (highestAcked : ℕ) (acks : List Ack) :
    FollowsRfc limit highestAcked acks ↔ Along (step limit) Steady (.init highestAcked) acks := by
  have hiff : Along (step limit) (Follows limit) (.init highestAcked) acks ↔
      Along (step limit) Steady (.init highestAcked) acks :=
    along_iff (I:=Small) (fun _ _ hsmall => hsmall.step hlimit) (fun _ _ hsmall => steady_of_follows_iff hlimit hsmall)
      (small_init highestAcked)
  constructor
  · intro h
    exact hiff.mp h.along
  · intro h
    exact ⟨(small_init highestAcked).capped hlimit,hiff.mpr h⟩

/-- A sample that repeats the smoothed time, and then one that is next to it. -/
theorem followsRfc_two : 2^32 ≤ 2^64 ∧
    FollowsRfc (2^64) 0 [⟨0,100000000,true⟩,⟨1,100000001,true⟩] := by
  have hlimit : 2^32 ≤ 2^64 := by decide
  refine ⟨hlimit,(followsRfc_iff _ hlimit _ _).mpr ?_⟩
  simp [Along,Steady,step,LossRecovery.onAck,LossRecovery.init,checkedNs,nsPerMs]

/-- A sample of 20ms after the initial 100ms should leave a variation of 38.75ms. It leaves
78.75ms, and a sample of an hour and a half a timeout above the minute. -/
theorem deviation_thrice :
    (((LossRecovery.init 0).onAck (2^64) ⟨0,20000000,true⟩).map LossRecovery.rttvar = some 78750000 ∧
      rttvar 100000000 25000000 20000000 = 38750000) ∧
    (((LossRecovery.init 0).onAck (2^64) ⟨0,5400000000000,true⟩).bind (LossRecovery.getRTO (2^64)) =
      some 3600000000000) ∧
    ¬FollowsRfc (2^64) 0 [⟨0,20000000,true⟩] := by
  refine ⟨by decide,by decide,?_⟩
  rintro ⟨-,⟨next,hnext,-,hvariation,-⟩,-⟩
  obtain ⟨-,-,rfl⟩ := (onAck_eq_some fun _ => rfl).mp hnext
  revert hvariation
  decide

end ZNet.QuicRtt
