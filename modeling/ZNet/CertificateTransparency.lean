import ZNet.SignedTimestamps

/-!
# Certificate transparency

The validator stops at the first timestamp that is valid or an error. The report counts the
valid ones and takes an error for an invalid timestamp.
-/

namespace ZNet.Transparency

/-- The first timestamp that is valid or an error decides. -/
def CtValidator.validateCertificate (self : CtValidator) (now : ℤ) (certificateDer : List UInt8) :
    List (List UInt8) → Except CtError Bool
  | [] => .ok false
  | sctData::scts => do
    if ← self.validateSingleSct now certificateDer sctData then return true
    else self.validateCertificate now certificateDer scts

structure CtStatus where
  inValidLogs : Bool := false
  validationPassed : Bool := false
  totalScts : ℕ
  validScts : ℕ := 0
  warnings : List (List UInt8) := []

/-- An error is no valid timestamp; a trap is no error. -/
def countSct (validator : CtValidator) (now : ℤ) (certificateDer : List UInt8) (status : CtStatus)
    (sctData : List UInt8) : Except CtError CtStatus :=
  match validator.validateSingleSct now certificateDer sctData with
  | .error .panic => .error .panic
  | .ok true =>
    .ok { status with validScts := status.validScts+1, inValidLogs := true, validationPassed := true }
  | _ => .ok status

def getCertificateTransparencyStatus (validator : CtValidator) (now : ℤ) (certificateDer : List UInt8)
    (scts : List (List UInt8)) : Except CtError CtStatus :=
  scts.foldlM (countSct validator now certificateDer) { totalScts := scts.length }

/-- The verdict does not depend on the order, and it is that of the report. -/
structure OrderFree (validator : CtValidator) (now : ℤ) (certificateDer : List UInt8) (scts : List (List UInt8)) :
    Prop where
  permutation : ∀ scts', scts'.Perm scts → validator.validateCertificate now certificateDer scts' =
    validator.validateCertificate now certificateDer scts
  agreement : validator.validateCertificate now certificateDer scts = .ok true ↔
    ∃ status, getCertificateTransparencyStatus validator now certificateDer scts = .ok status ∧ 0 < status.validScts

/-- The kinds of timestamps that end the search. -/
inductive SctKind
  | valid | malformed | trapping
deriving DecidableEq

/-- The kind is seen from the bytes: the header, the lengths, the log and the age. -/
def SctKind.Of (validator : CtValidator) (now : ℤ) (sctData : List UInt8) : SctKind → Prop
  | .malformed => ¬HasHeader sctData
  | .trapping => HasHeader sctData ∧ (sctData.length < extensionsLength sctData+signatureLength sctData ∨
      validator.Trusts (logIdField sctData) ∧ 2^64 ≤ timestampField sctData+maxAge)
  | .valid => HasHeader sctData ∧ extensionsLength sctData+signatureLength sctData ≤ sctData.length ∧
      validator.Trusts (logIdField sctData) ∧ timestampField sctData+maxAge < 2^64 ∧
      now ≤ (timestampField sctData+maxAge : ℕ)

/-- At most one of the kinds is there. -/
def OneKind (validator : CtValidator) (now : ℤ) (scts : List (List UInt8)) : Prop :=
  ∀ x ∈ scts, ∀ y ∈ scts, ∀ k l : SctKind, k.Of validator now x → l.Of validator now y → k = l

def SctKind.verdict : SctKind → Except CtError Bool
  | .valid => .ok true
  | .malformed => .error .invalidSctFormat
  | .trapping => .error .panic

section Kinds

variable {validator : CtValidator} {now : ℤ} {certificateDer sctData : List UInt8}

theorem SctKind.verdict_injective {k l : SctKind} (h : k.verdict = l.verdict) : k = l := by
  cases k <;> cases l <;> first | rfl | cases h

theorem SctKind.verdict_ne (k : SctKind) : k.verdict ≠ .ok false := by
  cases k <;> exact fun h => nomatch h

theorem SctKind.Of.validateSingleSct {k : SctKind} (h : k.Of validator now sctData) :
    validator.validateSingleSct now certificateDer sctData = k.verdict := by
  cases k with
  | malformed => exact validateSingleSct_header h
  | trapping => exact validateSingleSct_panic.mpr h
  | valid =>
    obtain ⟨hheader,hlengths,hlog,hsum,hnow⟩ := h
    rw [validateSingleSct_trusted hheader hlengths hlog,tooOld,if_pos hsum,decide_eq_false (Int.not_lt.mpr hnow)]
    rfl

/-- Without a kind, the timestamp is one of those that are passed over. -/
theorem validateSingleSct_neutral (h : ∀ k : SctKind, ¬k.Of validator now sctData) :
    validator.validateSingleSct now certificateDer sctData = .ok false := by
  have hheader : HasHeader sctData := not_not.mp (h .malformed)
  have htrap : ¬(_ ∧ _) := h .trapping
  rw [not_and,not_or,Nat.not_lt] at htrap
  obtain ⟨hlengths,hage⟩ := htrap hheader
  by_cases hlog : validator.Trusts (logIdField sctData)
  · have hsum : timestampField sctData+maxAge < 2^64 := Nat.lt_of_not_le fun hle => hage ⟨hlog,hle⟩
    have hold : ((timestampField sctData+maxAge : ℕ) : ℤ) < now :=
      Int.lt_of_not_ge fun hnow => h .valid ⟨hheader,hlengths,hlog,hsum,hnow⟩
    rw [validateSingleSct_trusted hheader hlengths hlog,tooOld,if_pos hsum,decide_eq_true hold]
    rfl
  · exact validateSingleSct_untrusted hheader hlengths hlog

end Kinds

section Verdicts

variable {validator : CtValidator} {now : ℤ} {certificateDer : List UInt8} {scts scts' : List (List UInt8)}

theorem validateCertificate_cons (sctData : List UInt8) (scts : List (List UInt8)) :
    validator.validateCertificate now certificateDer (sctData::scts) =
      if validator.validateSingleSct now certificateDer sctData = .ok false then
        validator.validateCertificate now certificateDer scts
      else validator.validateSingleSct now certificateDer sctData := by
  rw [CtValidator.validateCertificate]
  cases validator.validateSingleSct now certificateDer sctData with
  | error e => rfl
  | ok valid => cases valid <;> rfl

/-- A timestamp of some kind in front decides. -/
theorem validateCertificate_kind {sctData : List UInt8} {k : SctKind} (h : k.Of validator now sctData)
    (scts : List (List UInt8)) : validator.validateCertificate now certificateDer (sctData::scts) = k.verdict := by
  rw [validateCertificate_cons,h.validateSingleSct,if_neg k.verdict_ne]

/-- With one kind at most, the verdict is that of the kind wherever it stands. -/
theorem validateCertificate_eq (certificateDer : List UInt8) {k : SctKind} (h : ∀ x ∈ scts, ∀ l : SctKind, l.Of validator now x → l = k) :
    (∃ x ∈ scts, k.Of validator now x) ∧ validator.validateCertificate now certificateDer scts = k.verdict ∨
    (∀ x ∈ scts, ¬k.Of validator now x) ∧ validator.validateCertificate now certificateDer scts = .ok false := by
  induction scts with
  | nil => exact Or.inr ⟨List.forall_mem_nil _,rfl⟩
  | cons sctData scts ih =>
    obtain ⟨hfirst,hrest⟩ := List.forall_mem_cons.mp h
    by_cases hk : k.Of validator now sctData
    · exact Or.inl ⟨⟨sctData,List.mem_cons_self ..,hk⟩,validateCertificate_kind hk scts⟩
    · have hneutral : validator.validateSingleSct now certificateDer sctData = .ok false :=
        validateSingleSct_neutral fun l hl => hk (hfirst l hl ▸ hl)
      rw [validateCertificate_cons,if_pos hneutral,List.exists_mem_cons_iff,List.forall_mem_cons]
      rcases ih hrest with ⟨hsome,hverdict⟩ | ⟨hnone,hverdict⟩
      · exact Or.inl ⟨Or.inr hsome,hverdict⟩
      · exact Or.inr ⟨⟨hk,hnone⟩,hverdict⟩

/-- The kind that is there, or any if there is none. -/
theorem OneKind.exists_kind (h : OneKind validator now scts) :
    ∃ k : SctKind, ∀ x ∈ scts, ∀ l : SctKind, l.Of validator now x → l = k := by
  by_cases hsome : ∃ y ∈ scts, ∃ k : SctKind, k.Of validator now y
  · obtain ⟨y,hy,k,hk⟩ := hsome
    exact ⟨k,fun x hx l hl => h x hx y hy l k hl hk⟩
  · exact ⟨.valid,fun x hx l hl => (hsome ⟨x,hx,l,hl⟩).elim⟩

theorem OneKind.perm (h : OneKind validator now scts) (hperm : scts'.Perm scts) :
    validator.validateCertificate now certificateDer scts' = validator.validateCertificate now certificateDer scts := by
  obtain ⟨k,hk⟩ := h.exists_kind
  have hk' : ∀ x ∈ scts', ∀ l : SctKind, l.Of validator now x → l = k := fun x hx => hk x (hperm.mem_iff.mp hx)
  rcases validateCertificate_eq certificateDer hk with ⟨⟨x,hx,hkind⟩,hverdict⟩ | ⟨hnone,hverdict⟩
  · rcases validateCertificate_eq certificateDer hk' with ⟨-,hverdict'⟩ | ⟨hnone',-⟩
    · rw [hverdict,hverdict']
    · exact (hnone' x (hperm.mem_iff.mpr hx) hkind).elim
  · rcases validateCertificate_eq certificateDer hk' with ⟨⟨x,hx,hkind⟩,-⟩ | ⟨-,hverdict'⟩
    · exact (hnone x (hperm.mem_iff.mp hx) hkind).elim
    · rw [hverdict,hverdict']

/-- Two kinds give two verdicts when they are put first. -/
theorem oneKind_of_perm (h : ∀ scts', scts'.Perm scts → validator.validateCertificate now certificateDer scts' =
    validator.validateCertificate now certificateDer scts) : OneKind validator now scts := by
  intro x hx y hy k l hk hl
  have hfirst := h _ (List.perm_cons_erase hx).symm
  have hsecond := h _ (List.perm_cons_erase hy).symm
  rw [validateCertificate_kind hk] at hfirst
  rw [validateCertificate_kind hl] at hsecond
  exact SctKind.verdict_injective (hfirst.trans hsecond.symm)

end Verdicts

section Report

variable {validator : CtValidator} {now : ℤ} {certificateDer : List UInt8} {scts : List (List UInt8)}

theorem countSct_trapping {sctData : List UInt8} (h : SctKind.Of validator now sctData .trapping) (status : CtStatus) :
    countSct validator now certificateDer status sctData = .error .panic := by
  rw [countSct,h.validateSingleSct]
  rfl

theorem countSct_ok (certificateDer : List UInt8) {sctData : List UInt8}
    (h : ¬SctKind.Of validator now sctData .trapping) (status : CtStatus) :
    ∃ next, countSct validator now certificateDer status sctData = .ok next ∧
      (0 < next.validScts ↔ 0 < status.validScts ∨ SctKind.Of validator now sctData .valid) := by
  rw [countSct]
  by_cases hvalid : SctKind.Of validator now sctData .valid
  · rw [hvalid.validateSingleSct]
    exact ⟨_,rfl,iff_of_true (Nat.succ_pos _) (Or.inr hvalid)⟩
  · refine ⟨status,?_,(or_iff_left hvalid).symm⟩
    by_cases hmalformed : SctKind.Of validator now sctData .malformed
    · rw [hmalformed.validateSingleSct]
      rfl
    · have hneutral : ∀ k : SctKind, ¬k.Of validator now sctData := by
        intro k
        cases k with
        | valid => exact hvalid
        | malformed => exact hmalformed
        | trapping => exact h
      rw [validateSingleSct_neutral hneutral]

/-- Unless a timestamp traps, the valid ones are counted. -/
theorem report_valid (certificateDer : List UInt8) (hnone : ∀ x ∈ scts, ¬SctKind.Of validator now x .trapping) (status : CtStatus) :
    ∃ last, scts.foldlM (countSct validator now certificateDer) status = .ok last ∧
      (0 < last.validScts ↔ 0 < status.validScts ∨ ∃ x ∈ scts, SctKind.Of validator now x .valid) := by
  induction scts generalizing status with
  | nil => exact ⟨status,rfl,by simp⟩
  | cons sctData scts ih =>
    obtain ⟨hfirst,hrest⟩ := List.forall_mem_cons.mp hnone
    obtain ⟨next,hnext,hcount⟩ := countSct_ok certificateDer hfirst status
    obtain ⟨last,hlast,hvalid⟩ := ih hrest next
    refine ⟨last,?_,?_⟩
    · rw [List.foldlM_cons,hnext]
      exact hlast
    · rw [hvalid,hcount,List.exists_mem_cons_iff,or_assoc]

theorem report_traps (h : ∃ x ∈ scts, SctKind.Of validator now x .trapping) (status : CtStatus) :
    scts.foldlM (countSct validator now certificateDer) status = .error .panic := by
  induction scts generalizing status with
  | nil =>
    obtain ⟨x,hx,-⟩ := h
    cases hx
  | cons sctData scts ih =>
    rw [List.foldlM_cons]
    by_cases hfirst : SctKind.Of validator now sctData .trapping
    · rw [countSct_trapping hfirst]
      rfl
    · obtain ⟨next,hnext,-⟩ := countSct_ok certificateDer hfirst status
      rw [hnext]
      exact ih ((List.exists_mem_cons_iff ..).mp h |>.resolve_left hfirst) next

theorem report_iff (certificateDer : List UInt8) (scts : List (List UInt8)) :
    (∃ status, getCertificateTransparencyStatus validator now certificateDer scts = .ok status ∧ 0 < status.validScts) ↔
      (∀ x ∈ scts, ¬SctKind.Of validator now x .trapping) ∧ ∃ x ∈ scts, SctKind.Of validator now x .valid := by
  rw [getCertificateTransparencyStatus]
  by_cases hnone : ∀ x ∈ scts, ¬SctKind.Of validator now x .trapping
  · obtain ⟨last,hlast,hvalid⟩ := report_valid certificateDer hnone { totalScts := scts.length }
    rw [hlast,and_iff_right hnone]
    have hcount := hvalid.trans (or_iff_right (Nat.lt_irrefl 0))
    exact ⟨fun ⟨_,hstatus,hpos⟩ => hcount.mp (Except.ok.inj hstatus ▸ hpos),fun hsome => ⟨last,rfl,hcount.mpr hsome⟩⟩
  · push Not at hnone
    rw [report_traps hnone]
    exact iff_of_false (fun ⟨_,hstatus,_⟩ => nomatch hstatus) fun ⟨hno,_⟩ => hnone.elim fun x hx => hno x hx.1 hx.2

end Report

/-- Exactly then the verdict does not depend on the order and is that of the report. -/
theorem orderFree_iff (validator : CtValidator) (now : ℤ) (certificateDer : List UInt8) (scts : List (List UInt8)) :
    OrderFree validator now certificateDer scts ↔ OneKind validator now scts := by
  constructor
  · exact fun h => oneKind_of_perm h.permutation
  · intro h
    refine ⟨fun scts' hperm => h.perm hperm,?_⟩
    rw [report_iff]
    obtain ⟨k,hk⟩ := h.exists_kind
    rcases validateCertificate_eq certificateDer hk with ⟨⟨x,hx,hkind⟩,hverdict⟩ | ⟨hnone,hverdict⟩
    · rw [hverdict]
      cases k with
      | valid =>
        refine iff_of_true rfl ⟨fun y hy htrap => ?_,x,hx,hkind⟩
        cases hk y hy .trapping htrap
      | malformed =>
        refine iff_of_false (fun heq => nomatch heq) ?_
        rintro ⟨-,y,hy,hvalid⟩
        cases hk y hy .valid hvalid
      | trapping =>
        exact iff_of_false (fun heq => nomatch heq) fun hreport => hreport.1 x hx hkind
    · rw [hverdict]
      refine iff_of_false (fun heq => nomatch heq) ?_
      rintro ⟨-,y,hy,hvalid⟩
      obtain rfl := hk y hy .valid hvalid
      exact hnone y hy hvalid

/-- A timestamp of a known log, of the time zero. -/
def firstTimestamp : List UInt8 :=
  [1,0,0,0,0,0]++List.replicate 8 0++
  [0xa4,0xb9,0x09,0x90,0xb4,0x18,0xc4,0xd0,0x4a,0xa0,0xbd,0x94,0x14,0x8c,0x54,0x5d,
   0x43,0x65,0x0c,0x7d,0xbf,0x36,0xb3,0x08,0x85,0x93,0x47,0x47,0x93,0x9c,0xab,0x2d]++[0,0]

/-- A malformed timestamp hides the valid one behind it. -/
theorem malformed_hides : ¬∀ (validator : CtValidator) (now : ℤ) (certificateDer : List UInt8)
    (scts : List (List UInt8)), OrderFree validator now certificateDer scts := by
  intro h
  have hsame := (h .init 0 [] [[],firstTimestamp]).permutation [firstTimestamp,[]] (List.Perm.swap ..)
  revert hsame
  decide +kernel

end ZNet.Transparency
