import ZNet.StreamManager
import Mathlib.Data.Int.Notation

/-!
# Flow control windows

Windows are kept as `u32`, two of the updates compute with `i32` and the third with `u32`.
A window of HTTP/2 has at most 2³¹ − 1 bytes.
-/

namespace ZNet.FlowWindows
open Prioritization Runs

inductive WindowError
  | streamNotFound | flowControlError
  /-- A cast or an addition overflows, or memory is read that has been freed. -/
  | trap
deriving DecidableEq

structure WindowManager extends HTTP2StreamManager where
  connectionWindow : ℕ
  lastWindowUpdate : ℕ

def castI32 (n : ℕ) : Except WindowError ℤ := if n < 2147483648 then .ok n else .error .trap

def addI32 (a b : ℤ) : Except WindowError ℤ :=
  if -2147483648 ≤ a+b ∧ a+b < 2147483648 then .ok (a+b) else .error .trap

def addU32 (a b : ℕ) : Except WindowError ℕ := if a+b < 4294967296 then .ok (a+b) else .error .trap

/-- The new value of a window, as the two updates by a delta compute it. -/
def newWindow (window : ℕ) (delta : Int32) : Except WindowError ℕ := do
  let window ← castI32 window
  let newWindow ← addI32 window delta.toInt
  if newWindow < 0 then .error .flowControlError else .ok newWindow.toNat

namespace WindowManager

/-- The priority of a stream, with its address. -/
def priorityFor (self : WindowManager) (streamId : ℕ) : Except WindowError (ℕ×HTTP2StreamPriority) :=
  match self.streams.lookup streamId with
  | none => .error .streamNotFound
  | some addr =>
    match self.priorities addr with
    | none => .error .trap
    | some priority => .ok (addr,priority)

def setReceiveWindow (self : WindowManager) (addr window now : ℕ) : WindowManager :=
  { self with priorities := Function.update self.priorities addr ((self.priorities addr).map fun p =>
      { p with receiveWindow := window, lastActivity := now }) }

def updateWindow (self : WindowManager) (streamId : ℕ) (delta : Int32) (now : ℕ) :
    Except WindowError WindowManager := do
  let (addr,priority) ← self.priorityFor streamId
  let window ← newWindow priority.receiveWindow delta
  .ok (self.setReceiveWindow addr window now)

def updateConnectionWindow (self : WindowManager) (delta : Int32) (now : ℕ) : Except WindowError WindowManager := do
  let window ← newWindow self.connectionWindow delta
  .ok { self with connectionWindow := window, lastWindowUpdate := now }

/-- The frame and the manager. The increment is what the window has, up to a megabyte. -/
def sendWindowUpdate (self : WindowManager) (streamId now : ℕ) : Except WindowError (List UInt8×WindowManager) := do
  let (addr,priority) ← self.priorityFor streamId
  let increment := min (1024*1024) priority.receiveWindow
  let frameData := [UInt8.ofNat (streamId>>>24),UInt8.ofNat (streamId>>>16),UInt8.ofNat (streamId>>>8),
    UInt8.ofNat streamId,UInt8.ofNat (increment>>>24),UInt8.ofNat (increment>>>16),UInt8.ofNat (increment>>>8),
    UInt8.ofNat increment]
  let window ← addU32 priority.receiveWindow increment
  .ok (frameData,self.setReceiveWindow addr window now)

/-- The receive window of a stream. -/
def windowOf (self : WindowManager) (streamId : ℕ) : Option ℕ :=
  ((self.streams.lookup streamId).bind self.priorities).map HTTP2StreamPriority.receiveWindow

end WindowManager

inductive Call
  | updateWindow (streamId : ℕ) (delta : Int32) (now : ℕ)
  | updateConnectionWindow (delta : Int32) (now : ℕ)
  | sendWindowUpdate (streamId now : ℕ)

def perform (s : WindowManager) : Call → Except WindowError WindowManager
  | .updateWindow streamId delta now => s.updateWindow streamId delta now
  | .updateConnectionWindow delta now => s.updateConnectionWindow delta now
  | .sendWindowUpdate streamId now => (s.sendWindowUpdate streamId now).map Prod.snd

/-- A call that fails leaves the manager as it is. -/
def step (s : WindowManager) (call : Call) : WindowManager :=
  match perform s call with
  | .ok s => s
  | .error _ => s

def maxWindow : ℕ := 2147483647

/-- All windows are windows of HTTP/2. -/
structure Legal (s : WindowManager) : Prop where
  connection : s.connectionWindow ≤ maxWindow
  streams : ∀ id addr, s.streams.lookup id = some addr →
    ∃ p, s.priorities addr = some p ∧ p.receiveWindow ≤ maxWindow

/-- The window that a call asks for, if it finds the stream. -/
def target (s : WindowManager) : Call → Option ℤ
  | .updateWindow streamId delta _ => (s.windowOf streamId).map fun window : ℕ => (window : ℤ)+delta.toInt
  | .updateConnectionWindow delta _ => some (s.connectionWindow+delta.toInt)
  | .sendWindowUpdate streamId _ =>
    (s.windowOf streamId).map fun window : ℕ => (window : ℤ)+min (1024*1024) (window : ℤ)

/-- The call does not trap, it leaves all windows legal, and one that asks for an illegal
window is refused and changes nothing. -/
structure Sound (s : WindowManager) (call : Call) : Prop where
  returns : perform s call ≠ .error .trap
  legal : Legal (step s call)
  refused : ∀ sum, target s call = some sum → ¬(0 ≤ sum ∧ sum ≤ maxWindow) →
    perform s call = .error .flowControlError ∧ step s call = s

/-- The call does not ask for more than a window may have. -/
def InRange (s : WindowManager) (call : Call) : Prop := ∀ sum, target s call = some sum → sum ≤ maxWindow

section Windows

variable {s : WindowManager} {window addr now : ℕ} {delta : Int32}

theorem newWindow_negative (hwindow : window ≤ maxWindow) (hsum : (window : ℤ)+delta.toInt < 0) :
    newWindow window delta = .error .flowControlError := by
  have hcast : window < 2147483648 := by simp only [maxWindow] at hwindow; omega
  have hlow := delta.le_toInt
  have hadd : -2147483648 ≤ (window : ℤ)+delta.toInt ∧ (window : ℤ)+delta.toInt < 2147483648 := by omega
  simp only [newWindow,castI32,addI32,if_pos hcast,if_pos hadd,if_pos hsum,bind,Except.bind]

theorem newWindow_legal (hwindow : window ≤ maxWindow) (hneg : 0 ≤ (window : ℤ)+delta.toInt)
    (hsum : (window : ℤ)+delta.toInt ≤ maxWindow) : newWindow window delta = .ok ((window : ℤ)+delta.toInt).toNat := by
  simp only [maxWindow] at hwindow hsum
  have hcast : window < 2147483648 := by omega
  have hadd : -2147483648 ≤ (window : ℤ)+delta.toInt ∧ (window : ℤ)+delta.toInt < 2147483648 := by omega
  simp only [newWindow,castI32,addI32,if_pos hcast,if_pos hadd,if_neg (Int.not_lt.mpr hneg),bind,Except.bind]

theorem newWindow_above (hwindow : window ≤ maxWindow) (hsum : (maxWindow : ℤ) < window+delta.toInt) :
    newWindow window delta = .error .trap := by
  simp only [maxWindow] at hwindow hsum
  have hcast : window < 2147483648 := by omega
  have hadd : ¬(-2147483648 ≤ (window : ℤ)+delta.toInt ∧ (window : ℤ)+delta.toInt < 2147483648) := by omega
  simp only [newWindow,castI32,addI32,if_pos hcast,if_neg hadd,bind,Except.bind]

theorem Legal.priorityFor_cases (h : Legal s) (id : ℕ) :
    (s.priorityFor id = .error .streamNotFound ∧ s.windowOf id = none) ∨
    ∃ addr p, s.priorityFor id = .ok (addr,p) ∧ s.windowOf id = some p.receiveWindow ∧ p.receiveWindow ≤ maxWindow := by
  rw [WindowManager.priorityFor,WindowManager.windowOf]
  cases hlookup : s.streams.lookup id with
  | none => exact .inl ⟨rfl,rfl⟩
  | some addr =>
    obtain ⟨p,hp,hwindow⟩ := h.streams id addr hlookup
    simp only [hp,Option.bind_some]
    exact .inr ⟨addr,p,rfl,rfl,hwindow⟩

theorem Legal.setReceiveWindow (h : Legal s) (hwindow : window ≤ maxWindow) :
    Legal (s.setReceiveWindow addr window now) where
  connection := h.connection
  streams id addr' hlookup := by
    obtain ⟨p,hp,hle⟩ := h.streams id addr' hlookup
    by_cases haddr : addr' = addr
    · subst haddr
      exact ⟨_,by simp only [WindowManager.setReceiveWindow,Function.update_self,hp]; rfl,hwindow⟩
    · exact ⟨p,by simp only [WindowManager.setReceiveWindow,Function.update_of_ne haddr,hp],hle⟩

/-- A call with a target beyond the bound is not sound if it is not refused. -/
theorem Sound.inRange_of {call : Call} (h : Sound s call)
    (hcall : ∀ sum, target s call = some sum → maxWindow < sum → perform s call ≠ .error .flowControlError) :
    InRange s call := by
  intro sum hsum
  by_contra hgt
  exact hcall sum hsum (Int.not_le.mp hgt) (h.refused sum hsum fun hrange => hgt hrange.2).1

theorem sound_of_ok {s' : WindowManager} {call : Call} (hperform : perform s call = .ok s') (hs' : Legal s')
    (htarget : ∀ sum, target s call = some sum → 0 ≤ sum ∧ sum ≤ maxWindow) : Sound s call := by
  refine ⟨?_,?_,fun sum hsum hrange => absurd (htarget sum hsum) hrange⟩
  · rw [hperform]
    intro htrap
    cases htrap
  · rw [step,hperform]
    exact hs'

theorem sound_of_error {e : WindowError} {call : Call} (h : Legal s) (hperform : perform s call = .error e)
    (hreturns : e ≠ .trap) (htarget : e = .flowControlError ∨ target s call = none) : Sound s call := by
  have hstep : step s call = s := by rw [step,hperform]
  refine ⟨?_,?_,fun sum hsum _ => ?_⟩
  · rw [hperform,Ne,Except.error.injEq]
    exact hreturns
  · rw [hstep]
    exact h
  · obtain rfl|hnone := htarget
    · exact ⟨hperform,hstep⟩
    · rw [hnone] at hsum
      cases hsum

/-- A call for a stream that is not there is refused, and it has no target. -/
theorem sound_iff_of_unknown {call : Call} (h : Legal s) (hperform : perform s call = .error .streamNotFound)
    (htarget : target s call = none) : Sound s call ↔ InRange s call := by
  refine iff_of_true (sound_of_error h hperform ?_ (.inr htarget)) fun sum hsum => ?_
  · intro htrap
    cases htrap
  · rw [htarget] at hsum
    cases hsum

/-- A call that adds a delta to a window. -/
theorem sound_iff_of_delta (delta : Int32) {call : Call} {f : ℕ → WindowManager} (h : Legal s)
    (hwindow : window ≤ maxWindow) (hf : ∀ window ≤ maxWindow, Legal (f window))
    (hperform : perform s call = (newWindow window delta).map f)
    (htarget : target s call = some (window+delta.toInt)) : Sound s call ↔ InRange s call := by
  constructor
  · intro hsound
    apply hsound.inRange_of
    intro sum hsum hgt
    obtain rfl : (window : ℤ)+delta.toInt = sum := Option.some.inj (htarget.symm.trans hsum)
    rw [hperform,newWindow_above hwindow hgt]
    intro herror
    cases herror
  · intro hrange
    have hle := hrange _ htarget
    by_cases hneg : (window : ℤ)+delta.toInt < 0
    · rw [newWindow_negative hwindow hneg] at hperform
      refine sound_of_error h hperform ?_ (.inl rfl)
      intro htrap
      cases htrap
    · have hpos := Int.not_lt.mp hneg
      rw [newWindow_legal hwindow hpos hle] at hperform
      refine sound_of_ok hperform (hf _ (Int.toNat_le.mpr hle)) fun sum hsum => ?_
      obtain rfl : (window : ℤ)+delta.toInt = sum := Option.some.inj (htarget.symm.trans hsum)
      exact ⟨hpos,hle⟩

/-- A single call is sound exactly if it does not ask for more than a window may have. -/
theorem sound_iff (h : Legal s) (call : Call) : Sound s call ↔ InRange s call := by
  cases call with
  | updateWindow id delta now =>
    obtain ⟨hfind,hwindow⟩|⟨addr,p,hfind,hwindow,hle⟩ := h.priorityFor_cases id
    · refine sound_iff_of_unknown h ?_ ?_
      · simp only [perform,WindowManager.updateWindow,hfind,bind,Except.bind]
      · simp only [target,hwindow,Option.map_none]
    · refine sound_iff_of_delta delta (f:=fun window => s.setReceiveWindow addr window now) h hle
        (fun _ hle => h.setReceiveWindow hle) ?_ ?_
      · simp only [perform,WindowManager.updateWindow,hfind,bind,Except.bind]
        cases newWindow p.receiveWindow delta <;> rfl
      · simp only [target,hwindow,Option.map_some]
  | updateConnectionWindow delta now =>
    refine sound_iff_of_delta delta (f:=fun window => { s with connectionWindow := window, lastWindowUpdate := now }) h
      h.connection (fun _ hle => ⟨hle,h.streams⟩) ?_ rfl
    simp only [perform,WindowManager.updateConnectionWindow,bind,Except.bind]
    cases newWindow s.connectionWindow delta <;> rfl
  | sendWindowUpdate id now =>
    obtain ⟨hfind,hwindow⟩|⟨addr,p,hfind,hwindow,hle⟩ := h.priorityFor_cases id
    · refine sound_iff_of_unknown h ?_ ?_
      · simp only [perform,WindowManager.sendWindowUpdate,hfind,bind,Except.bind,Except.map]
      · simp only [target,hwindow,Option.map_none]
    · have htarget : target s (.sendWindowUpdate id now) =
          some ((p.receiveWindow : ℤ)+min (1024*1024) (p.receiveWindow : ℤ)) := by
        simp only [target,hwindow,Option.map_some]
      have hfits : p.receiveWindow+min (1024*1024) p.receiveWindow < 4294967296 := by
        simp only [maxWindow] at hle
        omega
      have hperform : perform s (.sendWindowUpdate id now) =
          .ok (s.setReceiveWindow addr (p.receiveWindow+min (1024*1024) p.receiveWindow) now) := by
        simp only [perform,WindowManager.sendWindowUpdate,hfind,bind,Except.bind,addU32,if_pos hfits,Except.map]
      constructor
      · intro hsound
        apply hsound.inRange_of
        intro sum hsum hgt herror
        rw [hperform] at herror
        cases herror
      · intro hrange
        have hsum := hrange _ htarget
        refine sound_of_ok hperform (h.setReceiveWindow (by omega)) fun sum hsum' => ?_
        obtain rfl := Option.some.inj (htarget.symm.trans hsum')
        exact ⟨by omega,hsum⟩

end Windows

/-- From legal windows on, a run is sound exactly if no call in it asks for a window beyond
2³¹ − 1. The addition of a delta traps there, and a window update passes the bound. -/
theorem sound_run_iff (s : WindowManager) (hs : Legal s) (calls : List Call) :
    Along step Sound s calls ↔ Along step InRange s calls := by
  refine along_iff (I:=Legal) ?_ (fun s call h => sound_iff h call) hs
  intro s call h hrange
  exact ((sound_iff h call).mpr hrange).legal

/-- A connection with one stream, of which the windows are given. -/
def oneStream (connectionWindow receiveWindow : ℕ) : WindowManager where
  toHTTP2StreamManager := (HTTP2StreamManager.init 8 0).register 1
    { HTTP2StreamPriority.init 1 16 none false 0 with receiveWindow := receiveWindow }
  connectionWindow := connectionWindow
  lastWindowUpdate := 0

theorem oneStream_legal {connectionWindow receiveWindow : ℕ} (hconnection : connectionWindow ≤ maxWindow)
    (hreceive : receiveWindow ≤ maxWindow) : Legal (oneStream connectionWindow receiveWindow) := by
  refine ⟨hconnection,fun id addr hlookup => ?_⟩
  by_cases hid : id = 1
  · subst hid
    obtain rfl : 1 = addr := Option.some.inj hlookup
    exact ⟨_,rfl,hreceive⟩
  · rw [oneStream,HTTP2StreamManager.register,AList.lookup_insert_ne hid] at hlookup
    cases hlookup

/-- The default windows, to which all three kinds of updates are applied. -/
theorem sound_run_iff_default :
    Legal (oneStream 65535 65535) ∧
    Along step Sound (oneStream 65535 65535)
      [.updateWindow 1 1000 0,.updateConnectionWindow (-70000) 0,.sendWindowUpdate 1 0] := by
  have hlegal : Legal (oneStream 65535 65535) := oneStream_legal (by decide) (by decide)
  refine ⟨hlegal,(sound_run_iff _ hlegal _).mpr ⟨?_,?_,?_,trivial⟩⟩
  · intro sum hsum
    obtain rfl := Option.some.inj hsum
    decide
  · intro sum hsum
    obtain rfl := Option.some.inj hsum
    decide
  · intro sum hsum
    obtain rfl := Option.some.inj hsum
    decide

/-- A delta that asks for 2³¹ bytes and more traps, and a window update leaves a window of
2³¹ + 65534 bytes. -/
theorem window_overflow :
    perform (oneStream 65535 65535) (.updateConnectionWindow 2147483647 0) = .error .trap ∧
    (step (oneStream 65535 2147483647) (.sendWindowUpdate 1 0)).windowOf 1 = some 2148532223 ∧
    ¬Sound (oneStream 65535 65535) (.updateConnectionWindow 2147483647 0) ∧
    ¬Sound (oneStream 65535 2147483647) (.sendWindowUpdate 1 0) := by
  have htrap : perform (oneStream 65535 65535) (.updateConnectionWindow 2147483647 0) = .error .trap := rfl
  have hwindow : (step (oneStream 65535 2147483647) (.sendWindowUpdate 1 0)).windowOf 1 = some 2148532223 := rfl
  refine ⟨htrap,hwindow,fun h => h.returns htrap,fun h => ?_⟩
  obtain ⟨p,hp,hle⟩ := h.legal.streams 1 1 rfl
  obtain rfl := Option.some.inj hp
  exact absurd hle (by decide)

end ZNet.FlowWindows
