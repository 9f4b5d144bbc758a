import ZNet.DnsName

/-!
# Reading a name never leaves the message

The loop of `parseDomainName` round by round, with every index checked against the
message and the offset variable of the caller beside the result.
-/

namespace ZNet.DnsNameSafety
open DnsName

/-- `data[start..stop]` where the two bounds are in order and inside. -/
def slice (data : List UInt8) (start stop : ℕ) : Option (List UInt8) :=
  if start ≤ stop ∧ stop ≤ data.length then some ((data.drop start).take (stop-start)) else none

/-- What one round of the loop comes to. `outOfBounds` is an index outside the message. -/
inductive Round
  | next (s : NameState)
  | stop (s : NameState)
  | fail (err : NameError)
  | outOfBounds

def round (data : List UInt8) (s : NameState) : Round :=
  if s.currentOffset < data.length then
    match data[s.currentOffset]? with
    | none => .outOfBounds
    | some lenByte =>
      if lenByte = 0 then .stop { s with currentOffset := s.currentOffset+1 }
      else if lenByte &&& 0xc0 = 0xc0 then
        if s.currentOffset+1 ≥ data.length then .fail .malformedDnsMessage
        else if s.jumpsLeft = 0 then .fail .malformedDnsMessage
        else match data[s.currentOffset+1]? with
          | none => .outOfBounds
          | some lo =>
            let ptr := pointerTarget lenByte lo
            if ptr ≥ s.currentOffset then .fail .malformedDnsMessage
            else .next { s with
              currentOffset := ptr
              jumped := true
              returnOffset := if s.jumped then s.returnOffset else s.currentOffset+2
              jumpsLeft := s.jumpsLeft-1 }
      else if lenByte &&& 0xc0 ≠ 0 then .fail .malformedDnsMessage
      else
        let labelLength := lenByte.toNat
        if s.currentOffset+1+labelLength > data.length then .fail .malformedDnsMessage
        else match slice data (s.currentOffset+1) (s.currentOffset+1+labelLength) with
          | none => .outOfBounds
          | some label => .next { s with
              currentOffset := s.currentOffset+1+labelLength
              labels := appendLabel s.labels label }
  else .stop s

/-- How a call ends: it returns, with the offset variable as it leaves it, it indexes
outside the message, or its rounds are used up. -/
inductive Outcome
  | returned (result : Except NameError (List UInt8)) (offset : ℕ)
  | outOfBounds
  | outOfRounds

/-- At most so many rounds from a state. `offset` is the variable of the caller, which is
written only when the loop has stopped. -/
def rounds (data : List UInt8) (offset : ℕ) : ℕ → NameState → Outcome
  | 0,_ => .outOfRounds
  | n+1,s =>
    match round data s with
    | .next s' => rounds data offset n s'
    | .stop s' => .returned (.ok s'.labels) s'.nextOffset
    | .fail err => .returned (.error err) offset
    | .outOfBounds => .outOfBounds

/-- A call of `parseDomainName` of at most `n` rounds. -/
def call (data : List UInt8) (n offset : ℕ) : Outcome := rounds data offset n ⟨offset,false,offset,16,[]⟩

/-- Where the two cursors may be. The one that moves is inside the message, and the place
where the record continues is between the start and the end. -/
structure Inside (data : List UInt8) (offset : ℕ) (s : NameState) : Prop where
  current : s.currentOffset ≤ data.length
  next : offset ≤ s.nextOffset
  next_le : s.nextOffset ≤ data.length

/-- Jumps left, then bytes left. -/
def measure (data : List UInt8) (s : NameState) : ℕ :=
  s.jumpsLeft*(data.length+1)+(data.length-s.currentOffset)

section Round

variable {data : List UInt8} {offset : ℕ} {s : NameState}

theorem slice_label {n : ℕ} (h : s.currentOffset+1+n ≤ data.length) :
    slice data (s.currentOffset+1) (s.currentOffset+1+n) = some ((data.drop (s.currentOffset+1)).take n) := by
  rw [slice,if_pos ⟨Nat.le_add_right _ _,h⟩,Nat.add_sub_cancel_left]

/-- A jump takes one from the jumps, whatever the place it leads to. -/
theorem measure_jump {s' : NameState} (hjumps : s.jumpsLeft ≠ 0) (h : s'.jumpsLeft = s.jumpsLeft-1) :
    measure data s' < measure data s := by
  obtain ⟨n,hn⟩ := Nat.exists_eq_succ_of_ne_zero hjumps
  rw [measure,measure,h,hn,Nat.succ_sub_one,Nat.succ_mul]
  omega

/-- A round stops inside the message, fails, or goes on inside the message with a smaller
measure. -/
theorem round_cases (hs : Inside data offset s) :
    (∃ s', round data s = .next s' ∧ Inside data offset s' ∧ measure data s' < measure data s ∧
      parseLoop data s = parseLoop data s') ∨
    (∃ s', round data s = .stop s' ∧ Inside data offset s' ∧ parseLoop data s = .ok s') ∨
    ∃ err, round data s = .fail err ∧ parseLoop data s = .error err := by
  obtain ⟨hcurrent,hnext,hnext_le⟩ := hs
  rw [round,parseLoop]
  by_cases hlt : s.currentOffset < data.length
  · rw [if_pos hlt,dif_pos hlt,List.getElem?_eq_getElem hlt]
    generalize data[s.currentOffset] = lenByte
    simp only
    by_cases hzero : lenByte = 0
    · -- the zero byte ends the name
      rw [if_pos hzero,if_pos hzero]
      refine .inr (.inl ⟨_,rfl,⟨hlt,?_,?_⟩,rfl⟩)
      · unfold NameState.nextOffset at hnext ⊢
        grind
      · unfold NameState.nextOffset at hnext_le ⊢
        grind
    · rw [if_neg hzero,if_neg hzero]
      by_cases hhigh : lenByte &&& 0xc0 = 0xc0
      · -- a pointer, where the second byte has to be there and a jump left
        rw [if_pos hhigh,if_pos hhigh]
        by_cases hlo : s.currentOffset+1 < data.length
        · rw [if_neg (by omega),dif_pos hlo]
          by_cases hjumps : s.jumpsLeft = 0
          · rw [if_pos hjumps,dif_pos hjumps]
            exact .inr (.inr ⟨_,rfl,rfl⟩)
          · rw [if_neg hjumps,dif_neg hjumps,List.getElem?_eq_getElem hlo]
            simp only
            by_cases hptr : pointerTarget lenByte data[s.currentOffset+1] ≥ s.currentOffset
            · rw [if_pos hptr,if_pos hptr]
              exact .inr (.inr ⟨_,rfl,rfl⟩)
            · rw [if_neg hptr,if_neg hptr]
              refine .inl ⟨_,rfl,⟨by simp only; omega,?_,?_⟩,measure_jump hjumps rfl,rfl⟩
              · unfold NameState.nextOffset at hnext ⊢
                grind
              · unfold NameState.nextOffset at hnext_le ⊢
                grind
        · rw [if_pos (by omega),dif_neg hlo]
          exact .inr (.inr ⟨_,rfl,rfl⟩)
      · rw [if_neg hhigh,if_neg hhigh]
        by_cases hlow : lenByte &&& 0xc0 ≠ 0
        · rw [if_pos hlow,if_pos hlow]
          exact .inr (.inr ⟨_,rfl,rfl⟩)
        · -- a label, whose bytes have to be there
          rw [if_neg hlow,if_neg hlow]
          by_cases hlabel : s.currentOffset+1+lenByte.toNat > data.length
          · rw [if_pos hlabel,if_pos hlabel]
            exact .inr (.inr ⟨_,rfl,rfl⟩)
          · rw [if_neg hlabel,if_neg hlabel,slice_label (Nat.not_lt.mp hlabel)]
            refine .inl ⟨_,rfl,⟨Nat.not_lt.mp hlabel,?_,?_⟩,?_,rfl⟩
            · unfold NameState.nextOffset at hnext ⊢
              grind
            · unfold NameState.nextOffset at hnext_le ⊢
              grind
            · simp only [measure]
              omega
  · rw [if_neg hlt,dif_neg hlt]
    exact .inr (.inl ⟨s,rfl,⟨hcurrent,hnext,hnext_le⟩,rfl⟩)

end Round

/-- From a state inside the message, more rounds than the measure are enough. They end as
the loop does, and never with an index outside. -/
theorem rounds_returned {data : List UInt8} {offset n : ℕ} {s : NameState} (hs : Inside data offset s)
    (hn : measure data s < n) :
    (∃ s', parseLoop data s = .ok s' ∧ Inside data offset s' ∧
      rounds data offset n s = .returned (.ok s'.labels) s'.nextOffset) ∨
    ∃ err, parseLoop data s = .error err ∧ rounds data offset n s = .returned (.error err) offset := by
  induction n generalizing s with
  | zero => exact absurd hn (Nat.not_lt_zero _)
  | succ n ih =>
    rw [rounds]
    obtain ⟨s',hround,hs',hmeasure,hloop⟩|⟨s',hround,hs',hloop⟩|⟨err,hround,hloop⟩ := round_cases hs
    · rw [hround,hloop]
      exact ih hs' (by omega)
    · rw [hround]
      exact .inl ⟨s',hloop,hs',rfl⟩
    · rw [hround]
      exact .inr ⟨err,hloop,rfl⟩

/-- For every message and every offset in it, a call returns after at most 17 rounds for
each byte and 17 more, whatever pointers there are, and no index is outside the message.
On success the offset is not before the old one and not after the end of the message, and
on an error it is the old one. -/
theorem parseDomainName_safe (data : List UInt8) (offset : ℕ) (hoffset : offset ≤ data.length) :
    ∃ result offset', (∀ n ≥ 17*(data.length+1), call data n offset = .returned result offset') ∧
      (∀ name, result = .ok name → offset ≤ offset' ∧ offset' ≤ data.length ∧
        parseDomainName data offset = .ok (name,offset')) ∧
      (∀ err, result = .error err → offset' = offset ∧ parseDomainName data offset = .error err) := by
  have hinside : Inside data offset ⟨offset,false,offset,16,[]⟩ := ⟨hoffset,le_rfl,hoffset⟩
  have hmeasure : ∀ n ≥ 17*(data.length+1), measure data ⟨offset,false,offset,16,[]⟩ < n := by
    intro n hn
    simp only [measure]
    omega
  obtain ⟨s',hloop,hs',-⟩|⟨err,hloop,-⟩ := rounds_returned hinside (hmeasure _ le_rfl)
  · refine ⟨.ok s'.labels,s'.nextOffset,?_,?_,?_⟩
    · intro n hn
      obtain ⟨t,ht,-,hrounds⟩|⟨err,herr,-⟩ := rounds_returned hinside (hmeasure n hn)
      · cases hloop.symm.trans ht
        exact hrounds
      · cases hloop.symm.trans herr
    · intro name hname
      cases hname
      refine ⟨hs'.next,hs'.next_le,?_⟩
      rw [parseDomainName,hloop]
      rfl
    · intro err herr
      cases herr
  · refine ⟨.error err,offset,?_,?_,?_⟩
    · intro n hn
      obtain ⟨t,ht,-⟩|⟨err',herr',hrounds⟩ := rounds_returned hinside (hmeasure n hn)
      · cases hloop.symm.trans ht
      · cases hloop.symm.trans herr'
        exact hrounds
    · intro name hname
      cases hname
    · intro err' herr'
      cases herr'
      refine ⟨rfl,?_⟩
      rw [parseDomainName,hloop]
      rfl

/-- Two pointers, each of which leads to the other. -/
def circular : List UInt8 := [0xc0,2,0xc0,0]

/-- Reading the second one ends with an error after two rounds, and the compressed name is
read to the end of its pointer. -/
theorem parseDomainName_safe_circular :
    (∃ result offset', (∀ n ≥ 85, call circular n 2 = .returned result offset') ∧
      (∀ name, result = .ok name → 2 ≤ offset' ∧ offset' ≤ 4 ∧ parseDomainName circular 2 = .ok (name,offset')) ∧
      (∀ err, result = .error err → offset' = 2 ∧ parseDomainName circular 2 = .error err)) ∧
    call circular 2 2 = .returned (.error .malformedDnsMessage) 2 ∧
    call compressed 4 3 = .returned (.ok [98,dot,97]) 7 :=
  ⟨parseDomainName_safe circular 2 (by decide),rfl,rfl⟩

end ZNet.DnsNameSafety
