import ZNet.StreamManager
import ZNet.Tables

/-!
# The number of streams and failed calls

The counter of streams is the size of their table, as long as no stream is created twice.
A call that fails leaves the state as it was, as long as its parent is in the tree.
-/

namespace ZNet.Prioritization
open LinkedForest Runs
open Tables (exists_lookup keys_length_erase keys_length_insert erase_of_lookup_none)

/-- The parent that the call names is not in the tree. -/
def UnknownParent (s : HTTP2StreamManager) : Call → Prop
  | .createStream _ _ parent _ _ => s.parentNode parent = none
  | .updateStreamPriority _ _ newParent _ => s.parentNode newParent = none
  | _ => False

/-- The call ends with an error, or should have because of its parent. -/
def Fails (s : HTTP2StreamManager) (call : Call) : Prop :=
  (∃ e, (perform s call).1 = .error e) ∨ UnknownParent s call

/-- The streams are counted right and within the limit, and a failure changes nothing. -/
structure Accounted (s : HTTP2StreamManager) (call : Call) : Prop where
  counter : (step s call).concurrentStreams = (step s call).streams.keys.length
  limit : (step s call).concurrentStreams ≤ (step s call).maxConcurrentStreams
  unchanged : Fails s call → step s call = s
  noTrap : (perform s call).1 ≠ .error .trap

/-- A stream is created when it is new and its parent is in the tree, unless the limit is
reached; an update has a parent that is in the tree, or repeats what the stream has. No
node is put deeper than a `u16` can tell. -/
def Accountable (s : HTTP2StreamManager) : Call → Prop
  | .createStream streamId _ parent _ _ =>
    s.maxConcurrentStreams ≤ s.concurrentStreams ∨
      s.streams.lookup streamId = none ∧ ∃ a, s.parentNode parent = some a ∧ s.dependencyDepth (some a) < 65536
  | .updateStreamPriority streamId newWeight newParent exclusive =>
    ∀ addr p, s.streams.lookup streamId = some addr → s.priorities addr = some p →
      if s.parentNode newParent = none then
        p.weight = newWeight ∧ p.parentStreamId = newParent ∧ p.exclusive = exclusive
      else ∀ a, (s.removeFrom p.parentStreamId streamId).parentNode newParent = some a →
        (s.removeFrom p.parentStreamId streamId).dependencyDepth (some a) < 65536
  | _ => True

structure Counted (s : HTTP2StreamManager) : Prop where
  wellFormed : WellFormed s
  counter : s.concurrentStreams = s.streams.keys.length
  limit : s.concurrentStreams ≤ s.maxConcurrentStreams

variable {s : HTTP2StreamManager} {id addr : ℕ}

section Close

/-- Closing succeeds for a stream that there is. It takes only this stream out of the table. -/
theorem Counted.closeStream (h : Counted s) (hlookup : s.streams.lookup id = some addr) :
    (s.closeStream id).1 = .ok () ∧ Counted (s.closeStream id).2 ∧
    (s.closeStream id).2.streams = s.streams.erase id := by
  have hwell := h.wellFormed.closeStream id
  obtain ⟨-,p,hp,-⟩ := h.wellFormed.owned id addr hlookup
  obtain ⟨hstreams,-,hconcurrent,hmax,-⟩ := h.wellFormed.removeFrom_frame p.parentStreamId id
  rw [closeStream_eq hlookup hp] at hwell ⊢
  have hkeys := keys_length_erase hlookup
  have hcounter := h.counter
  have hlimit := h.limit
  refine ⟨rfl,⟨hwell,?_,?_⟩,?_⟩
  · simp only [HTTP2StreamManager.release,hstreams,hconcurrent]
    omega
  · simp only [HTTP2StreamManager.release,hconcurrent,hmax]
    omega
  · simp only [HTTP2StreamManager.release,hstreams]

theorem Counted.closeAll (h : Counted s) {ids : List ℕ} (hnodup : ids.Nodup)
    (hids : ∀ id ∈ ids, id ∈ s.streams) : (s.closeAll ids).1 = .ok () ∧ Counted (s.closeAll ids).2 := by
  induction ids generalizing s with
  | nil => exact ⟨rfl,h⟩
  | cons id ids ih =>
    obtain ⟨hid,hrest⟩ := List.forall_mem_cons.mp hids
    obtain ⟨hnew,hnodup⟩ := List.nodup_cons.mp hnodup
    obtain ⟨addr,hlookup⟩ := exists_lookup hid
    obtain ⟨hok,hcounted,hstreams⟩ := h.closeStream hlookup
    have hpair : s.closeStream id = (.ok (),(s.closeStream id).2) := Prod.ext hok rfl
    rw [HTTP2StreamManager.closeAll,hpair]
    refine ih hcounted hnodup fun other hother => ?_
    rw [hstreams,AList.mem_erase]
    exact ⟨fun heq => hnew (heq ▸ hother),hrest other hother⟩

/-- The streams that `cleanup` closes are streams that there are. -/
theorem WellFormed.idleStreams (h : WellFormed s) (now : ℕ) {keys : List ℕ} (hkeys : ∀ id ∈ keys, id ∈ s.streams) :
    ∃ toClose, s.idleStreams now keys = .ok toClose ∧ toClose.Sublist keys := by
  induction keys with
  | nil => exact ⟨[],rfl,.slnil⟩
  | cons key keys ih =>
    obtain ⟨hkey,hrest⟩ := List.forall_mem_cons.mp hkeys
    obtain ⟨toClose,htoClose,hsub⟩ := ih hrest
    obtain ⟨addr,hlookup⟩ := exists_lookup hkey
    obtain ⟨-,p,hp,hid⟩ := h.owned key addr hlookup
    refine ⟨if HTTP2StreamManager.isIdle now p then key::toClose else toClose,?_,?_⟩
    · rw [HTTP2StreamManager.idleStreams,hlookup,Option.bind_some,hp,htoClose,← hid]
      rfl
    · split
      · exact hsub.cons_cons key
      · exact hsub.cons key

theorem Counted.cleanup (h : Counted s) (now : ℕ) (order : IterationOrder) :
    (s.cleanup now order).1 = .ok () ∧ Counted (s.cleanup now order).2 := by
  have hperm := (order s.streams.keys).2
  have hkeys : ∀ id ∈ (order s.streams.keys).1, id ∈ s.streams := fun id hid =>
    AList.mem_keys.mpr (hperm.mem_iff.mp hid)
  obtain ⟨toClose,htoClose,hsub⟩ := h.wellFormed.idleStreams now hkeys
  rw [HTTP2StreamManager.cleanup,htoClose]
  refine h.closeAll (hsub.nodup (hperm.nodup_iff.mpr s.streams.keys_nodup)) fun id hid => ?_
  exact AList.mem_keys.mpr (hperm.mem_iff.mp (hsub.subset hid))

end Close

section Calls

theorem accounted_of_ok {call : Call} (hok : (perform s call).1 = .ok ()) (hknown : ¬UnknownParent s call)
    (hcounter : (step s call).concurrentStreams = (step s call).streams.keys.length)
    (hlimit : (step s call).concurrentStreams ≤ (step s call).maxConcurrentStreams) : Accounted s call where
  counter := hcounter
  limit := hlimit
  unchanged hfails := by
    rcases hfails with ⟨e,herror⟩ | hunknown
    · rw [hok] at herror
      cases herror
    · exact (hknown hunknown).elim
  noTrap := by
    rw [hok]
    simp

theorem accounted_of_unchanged {call : Call} (h : Counted s) (hstep : step s call = s)
    (htrap : (perform s call).1 ≠ .error .trap) : Accounted s call := by
  constructor
  · rw [hstep]
    exact h.counter
  · rw [hstep]
    exact h.limit
  · exact fun _ => hstep
  · exact htrap

variable (id weight now : ℕ) (parent : Option ℕ) (exclusive : Bool)

theorem Counted.createStream (h : Counted s) :
    Accounted s (.createStream id weight parent exclusive now) ↔
      Accountable s (.createStream id weight parent exclusive now) := by
  rcases h.wellFormed.createStream_cases id weight parent exclusive now with
    ⟨hlimit,hcreate⟩ | ⟨hroom,hdeep,s',hcreate⟩ | ⟨hroom,a,hparent,hdepth,hcreate⟩
  · have hperform : perform s (.createStream id weight parent exclusive now) = (.error .maxStreamsExceeded,s) := by
      rw [perform,hcreate]
      rfl
    have hstep : step s (.createStream id weight parent exclusive now) = s := congrArg Prod.snd hperform
    refine iff_of_true (accounted_of_unchanged h hstep ?_) (Or.inl hlimit)
    rw [hperform]
    simp
  · have hperform : (perform s (.createStream id weight parent exclusive now)).1 = .error .trap := by
      rw [perform,hcreate]
      rfl
    have hbad : ¬Accountable s (.createStream id weight parent exclusive now) := by
      rintro (hfull | ⟨-,a,ha,hdepth⟩)
      · omega
      · have hge := hdeep a ha
        omega
    exact iff_of_false (fun hacc => hacc.noTrap hperform) hbad
  · have hstep : step s (.createStream id weight parent exclusive now) =
        attached (s.register id (.init id weight parent exclusive now)) id s.nextPriority a := by
      rw [step,perform,hcreate]
    have hok : (perform s (.createStream id weight parent exclusive now)).1 = .ok () := by
      rw [perform,hcreate]
      rfl
    have hkeys : (step s (.createStream id weight parent exclusive now)).streams.keys.length =
        (s.streams.erase id).keys.length+1 := by
      rw [hstep]
      exact keys_length_insert ..
    have hconcurrent : (step s (.createStream id weight parent exclusive now)).concurrentStreams =
        s.concurrentStreams+1 := by rw [hstep]; rfl
    have hmax : (step s (.createStream id weight parent exclusive now)).maxConcurrentStreams =
        s.maxConcurrentStreams := by rw [hstep]; rfl
    have hcounter := h.counter
    cases hlookup : s.streams.lookup id with
    | none =>
      refine iff_of_true (accounted_of_ok hok (by rw [UnknownParent,hparent]; simp) ?_ ?_)
        (Or.inr ⟨hlookup,a,hparent,hdepth⟩)
      · rw [hkeys,hconcurrent,erase_of_lookup_none hlookup,hcounter]
      · rw [hconcurrent,hmax]
        omega
    | some addr =>
      -- the entry is replaced and counted again
      have hlength := keys_length_erase hlookup
      refine iff_of_false (fun hacc => ?_) ?_
      · have hcounted := hacc.counter
        rw [hkeys,hconcurrent] at hcounted
        omega
      · rintro (hfull | ⟨hnone,-⟩)
        · omega
        · rw [hlookup] at hnone
          cases hnone

/-- An update with an unknown parent changes nothing exactly if it repeats the stream's
weight, parent and flag. -/
theorem replaced_eq_self_iff (h : WellFormed s) {p : HTTP2StreamPriority} (hp : s.priorities addr = some p)
    (hunknown : s.parentNode parent = none) :
    replaced s p addr id weight parent exclusive = s ↔
      p.weight = weight ∧ p.parentStreamId = parent ∧ p.exclusive = exclusive := by
  have hpriorities : (replaced s p addr id weight parent exclusive).priorities =
      Function.update s.priorities addr
        (some { p with weight := weight, parentStreamId := parent, exclusive := exclusive }) := by
    rw [replaced,HTTP2StreamManager.modifyPriority]
    simp only [(h.removeFrom_frame p.parentStreamId id).2.1,hp,Option.map_some]
  constructor
  · intro heq
    have hsame := congrFun hpriorities addr
    rw [heq,hp,Function.update_self,Option.some.injEq] at hsame
    rw [hsame]
    exact ⟨rfl,rfl,rfl⟩
  · rintro ⟨rfl,rfl,rfl⟩
    obtain ⟨q,hq,-,hfind⟩ := parentNode_none hunknown
    have hremove : s.removeFrom p.parentStreamId id = s := by
      rw [HTTP2StreamManager.removeFrom,hq,Option.bind_some,hfind]
    have hupdate : Function.update s.priorities addr (some p) = s.priorities := by
      rw [← hp]
      exact Function.update_eq_self addr s.priorities
    rw [replaced,hremove,HTTP2StreamManager.modifyPriority,hp,Option.map_some,hupdate]

theorem Counted.of_replaced (h : Counted s) (p : HTTP2StreamPriority) (addr : ℕ) :
    Counted (replaced s p addr id weight parent exclusive) := by
  obtain ⟨hstreams,-,hconcurrent,hmax,-⟩ := h.wellFormed.removeFrom_frame p.parentStreamId id
  refine ⟨h.wellFormed.of_replaced p addr id weight parent exclusive,?_,?_⟩
  · exact hconcurrent.trans (h.counter.trans (by rw [← hstreams]; rfl))
  · have hlimit := h.limit
    rw [← hconcurrent,← hmax] at hlimit
    exact hlimit

/-- A parent that is found after the removal was in the tree before. -/
theorem WellFormed.known_of_removeFrom (h : WellFormed s) {id a : ℕ} {parent old : Option ℕ}
    (ha : (s.removeFrom old id).parentNode parent = some a) : s.parentNode parent ≠ none := by
  intro hunknown
  rw [h.parentNode_removeFrom hunknown] at ha
  cases ha

theorem Counted.updateStreamPriority (h : Counted s) :
    Accounted s (.updateStreamPriority id weight parent exclusive) ↔
      Accountable s (.updateStreamPriority id weight parent exclusive) := by
  cases hlookup : s.streams.lookup id with
  | none =>
    have hperform : perform s (.updateStreamPriority id weight parent exclusive) = (.error .streamNotFound,s) :=
      updateStreamPriority_unknown hlookup weight parent exclusive
    have hstep : step s (.updateStreamPriority id weight parent exclusive) = s := congrArg Prod.snd hperform
    refine iff_of_true (accounted_of_unchanged h hstep ?_) (forall_priority_unknown hlookup)
    rw [hperform]
    simp
  | some addr =>
    obtain ⟨-,p,hp,-⟩ := h.wellFormed.owned id addr hlookup
    have hcounted := h.of_replaced id weight parent exclusive p addr
    have hcondition : Accountable s (.updateStreamPriority id weight parent exclusive) ↔
        if s.parentNode parent = none then p.weight = weight ∧ p.parentStreamId = parent ∧ p.exclusive = exclusive
        else ∀ a, (s.removeFrom p.parentStreamId id).parentNode parent = some a →
          (s.removeFrom p.parentStreamId id).dependencyDepth (some a) < 65536 :=
      forall_priority hlookup hp
    rcases h.wellFormed.updateStreamPriority_cases hlookup hp weight parent exclusive with
      ⟨hnone,hupdate⟩ | ⟨a,ha,hdepth,hupdate⟩ | ⟨a,ha,hdepth,hupdate⟩
    · have hperform : (perform s (.updateStreamPriority id weight parent exclusive)).1 = .ok () := by
        rw [perform,hupdate]
      have hstep : step s (.updateStreamPriority id weight parent exclusive) =
          replaced s p addr id weight parent exclusive := by rw [step,perform,hupdate]
      rw [hcondition]
      split
      · rename_i hunknown
        rw [← replaced_eq_self_iff id weight parent exclusive h.wellFormed hp hunknown]
        constructor
        · exact fun hacc => hstep ▸ hacc.unchanged (Or.inr hunknown)
        · intro hsame
          exact accounted_of_unchanged h (hstep.trans hsame) (by rw [hperform]; simp)
      · rename_i hknown
        refine iff_of_true (accounted_of_ok hperform hknown (hstep ▸ hcounted.counter) (hstep ▸ hcounted.limit)) ?_
        intro a ha
        rw [hnone] at ha
        cases ha
    · have hperform : (perform s (.updateStreamPriority id weight parent exclusive)).1 = .error .trap := by
        rw [perform,hupdate]
      have hbad : ¬Accountable s (.updateStreamPriority id weight parent exclusive) := by
        rw [hcondition,if_neg (h.wellFormed.known_of_removeFrom ha)]
        intro hgood
        have hlt := hgood a ha
        omega
      exact iff_of_false (fun hacc => hacc.noTrap hperform) hbad
    · have hperform : (perform s (.updateStreamPriority id weight parent exclusive)).1 = .ok () := by
        rw [perform,hupdate]
      have hstep : step s (.updateStreamPriority id weight parent exclusive) =
          attached (replaced s p addr id weight parent exclusive) id addr a := by
        rw [step,perform,hupdate]
      have hknown := h.wellFormed.known_of_removeFrom ha
      rw [hcondition,if_neg hknown]
      refine iff_of_true (accounted_of_ok hperform hknown (hstep ▸ hcounted.counter) (hstep ▸ hcounted.limit)) ?_
      intro a' ha'
      rw [ha,Option.some.injEq] at ha'
      rw [← ha']
      exact hdepth

end Calls

theorem Counted.change (h : Counted s) (id : ℕ) (c : Change) : Counted (s.change id c) := by
  refine ⟨h.wellFormed.change id c,?_,?_⟩
  · rw [HTTP2StreamManager.change]
    split
    · exact h.counter
    · exact h.counter
  · rw [HTTP2StreamManager.change]
    split
    · exact h.limit
    · exact h.limit

/-- The calls that are accounted for, one by one. -/
theorem accounted_iff (h : Counted s) (call : Call) : Accounted s call ↔ Accountable s call := by
  cases call with
  | createStream streamId weight parent exclusive now => exact h.createStream streamId weight now parent exclusive
  | updateStreamPriority streamId newWeight newParent exclusive =>
    exact h.updateStreamPriority streamId newWeight newParent exclusive
  | closeStream streamId =>
    refine iff_of_true ?_ trivial
    cases hlookup : s.streams.lookup streamId with
    | none =>
      have hclose := closeStream_unknown hlookup
      have htrap : (s.closeStream streamId).1 ≠ .error .trap := by
        rw [hclose]
        simp
      exact accounted_of_unchanged h (congrArg Prod.snd hclose) htrap
    | some addr =>
      obtain ⟨hok,hcounted,-⟩ := h.closeStream hlookup
      exact accounted_of_ok hok not_false hcounted.counter hcounted.limit
  | cleanup now order =>
    obtain ⟨hok,hcounted⟩ := h.cleanup now order
    exact iff_of_true (accounted_of_ok hok not_false hcounted.counter hcounted.limit) trivial
  | change streamId c =>
    have hcounted := h.change streamId c
    exact iff_of_true (accounted_of_ok rfl not_false hcounted.counter hcounted.limit) trivial

theorem counted_init (maxConcurrentStreams now : ℕ) : Counted (.init maxConcurrentStreams now) :=
  ⟨wellFormed_init maxConcurrentStreams now,rfl,Nat.zero_le _⟩

/-- In a run every call keeps the count of the streams, and leaves the state as it was if
it fails, exactly if no stream is created twice or under a parent that is not in the tree,
an update to such a parent repeats what the stream has, and no depth overflows. -/
theorem along_accounted_iff (maxConcurrentStreams now : ℕ) (calls : List Call) :
    Along step Accounted (.init maxConcurrentStreams now) calls ↔
      Along step Accountable (.init maxConcurrentStreams now) calls := by
  have hstep : ∀ s call, Counted s → Accountable s call → Counted (step s call) := by
    intro s call h hgood
    have hacc := (accounted_iff h call).mpr hgood
    exact ⟨h.wellFormed.step call hacc.noTrap,hacc.counter,hacc.limit⟩
  exact along_iff hstep (fun s call h => accounted_iff h call) (counted_init maxConcurrentStreams now)

/-- A stream that is created twice is counted twice, a parent that is not in the tree makes
`createStream` trap after it has changed the table, and an update to such a parent drops
the stream from the tree and succeeds. -/
theorem accounted_broken :
    ¬Along step Accounted (.init 8 0) [.createStream 1 16 none false 0,.createStream 1 16 none false 0] ∧
    ¬Along step Accounted (.init 8 0) [.createStream 3 16 (some 5) false 0] ∧
    ¬Along step Accounted (.init 8 0)
      [.createStream 1 16 (some 0) false 0,.updateStreamPriority 1 16 (some 9) false] := by
  refine ⟨?_,?_,?_⟩
  · rintro ⟨-,h,-⟩
    exact absurd h.counter (by decide)
  · rintro ⟨h,-⟩
    exact h.noTrap rfl
  · rintro ⟨-,h,-⟩
    have hsame := congrArg (fun s => (s.nodes 0).children) (h.unchanged (Or.inr rfl))
    exact absurd hsame (by decide)

end ZNet.Prioritization
