import ZNet.DnsName

/-!
# Names without an end

The loop of `parseDomainName` stops at a zero byte and also at the end of the message.
Both exits return the labels read so far, so a name that is cut off between two labels
is accepted.
-/

namespace ZNet.DnsNameComplete
open DnsName

/-- Labels and pointers that lead from `offset` to the end of the message, with the
arguments of `NameAt`. -/
inductive CutAt (data : List UInt8) : ℕ → List (List UInt8) → ℕ → ℕ → Prop
  | ended {offset : ℕ} (hend : data.length ≤ offset) : CutAt data offset [] offset 0
  | pointer {offset ptr next pointers : ℕ} {labels : List (List UInt8)} {hi lo : UInt8}
      (hhi : data[offset]? = some hi) (hlo : data[offset+1]? = some lo) (hhi_eq : hi.toNat = 0xc0+ptr/256)
      (hlo_eq : lo.toNat = ptr%256) (hlt : ptr < offset) (name : CutAt data ptr labels next pointers) :
      CutAt data offset labels (offset+2) (pointers+1)
  | label {offset next pointers : ℕ} {n : UInt8} {label : List UInt8} {labels : List (List UInt8)}
      (hlen : data[offset]? = some n) (hpos : 0 < n.toNat) (hle : n.toNat ≤ 63)
      (hlabel : (data.drop (offset+1)).take n.toNat = label) (hlength : label.length = n.toNat)
      (rest : CutAt data (offset+1+n.toNat) labels next pointers) :
      CutAt data offset (label::labels) next pointers

/-- The name at `offset` runs off the end of the message: before a length byte, within a
pointer or within a label. -/
inductive RunsOff (data : List UInt8) : ℕ → Prop
  | ended {offset : ℕ} (hend : data.length ≤ offset) : RunsOff data offset
  | halfPointer {offset : ℕ} {hi : UInt8} (hhi : data[offset]? = some hi) (hhigh : 0xc0 ≤ hi.toNat)
      (hend : data[offset+1]? = none) : RunsOff data offset
  | shortLabel {offset : ℕ} {n : UInt8} (hlen : data[offset]? = some n) (hpos : 0 < n.toNat) (hle : n.toNat ≤ 63)
      (hend : data.length < offset+1+n.toNat) : RunsOff data offset
  | pointer {offset ptr : ℕ} {hi lo : UInt8} (hhi : data[offset]? = some hi) (hlo : data[offset+1]? = some lo)
      (hhi_eq : hi.toNat = 0xc0+ptr/256) (hlo_eq : lo.toNat = ptr%256) (name : RunsOff data ptr) :
      RunsOff data offset
  | label {offset : ℕ} {n : UInt8} (hlen : data[offset]? = some n) (hpos : 0 < n.toNat) (hle : n.toNat ≤ 63)
      (rest : RunsOff data (offset+1+n.toNat)) : RunsOff data offset

/-- Only complete names are accepted, and one that runs off the end is an error. -/
structure Complete (data : List UInt8) (offset : ℕ) : Prop where
  accepted : ∀ name next, parseDomainName data offset = .ok (name,next) →
    ∃ labels pointers, NameAt data offset labels next pointers
  refused : RunsOff data offset → parseDomainName data offset = .error .malformedDnsMessage

variable {data : List UInt8}

theorem CutAt.runsOff {offset next pointers : ℕ} {labels : List (List UInt8)}
    (h : CutAt data offset labels next pointers) : RunsOff data offset := by
  induction h with
  | ended hend => exact .ended hend
  | pointer hhi hlo hhi_eq hlo_eq hlt name ih => exact .pointer hhi hlo hhi_eq hlo_eq ih
  | label hlen hpos hle hlabel hlength rest ih => exact .label hlen hpos hle ih

section FirstByte

variable {offset next pointers : ℕ} {labels : List (List UInt8)} {b : UInt8}

theorem nameAt_of_zero (h : NameAt data offset labels next pointers) (hbyte : data[offset]? = some 0) :
    labels = [] ∧ next = offset+1 ∧ pointers = 0 := by
  cases h with
  | root => exact ⟨rfl,rfl,rfl⟩
  | pointer hhi _ hhi_eq =>
    cases hbyte.symm.trans hhi
    exact absurd hhi_eq (by simp; omega)
  | label hlen hpos =>
    cases hbyte.symm.trans hlen
    exact absurd hpos (by decide)

theorem nameAt_of_pointer (h : NameAt data offset labels next pointers) (hbyte : data[offset]? = some b)
    (hhigh : 0xc0 ≤ b.toNat) :
    ∃ lo ptr next' rest, data[offset+1]? = some lo ∧ b.toNat = 0xc0+ptr/256 ∧ lo.toNat = ptr%256 ∧
      next = offset+2 ∧ pointers = rest+1 ∧ NameAt data ptr labels next' rest := by
  cases h with
  | root hzero =>
    cases hbyte.symm.trans hzero
    exact absurd hhigh (by decide)
  | pointer hhi hlo hhi_eq hlo_eq _ name =>
    cases hbyte.symm.trans hhi
    exact ⟨_,_,_,_,hlo,hhi_eq,hlo_eq,rfl,rfl,name⟩
  | label hlen _ hle =>
    cases hbyte.symm.trans hlen
    omega

theorem nameAt_of_label (h : NameAt data offset labels next pointers) (hbyte : data[offset]? = some b)
    (hpos : 0 < b.toNat) (hle : b.toNat ≤ 63) :
    ∃ rest, labels = (data.drop (offset+1)).take b.toNat::rest ∧
      ((data.drop (offset+1)).take b.toNat).length = b.toNat ∧ NameAt data (offset+1+b.toNat) rest next pointers := by
  cases h with
  | root hzero =>
    cases hbyte.symm.trans hzero
    exact absurd hpos (by decide)
  | pointer hhi _ hhi_eq =>
    cases hbyte.symm.trans hhi
    omega
  | label hlen _ _ hlabel hlength rest =>
    cases hbyte.symm.trans hlen
    subst hlabel
    exact ⟨_,rfl,hlength,rest⟩

end FirstByte

theorem pointer_target_unique {ptr ptr' : ℕ} {hi lo : UInt8} (hhi : hi.toNat = 0xc0+ptr/256)
    (hlo : lo.toNat = ptr%256) (hhi' : hi.toNat = 0xc0+ptr'/256) (hlo' : lo.toNat = ptr'%256) : ptr = ptr' := by
  omega

/-- The bytes of a message leave no choice between a name that ends and one that does not. -/
theorem RunsOff.not_nameAt {offset : ℕ} (h : RunsOff data offset) {labels : List (List UInt8)} {next pointers : ℕ} :
    ¬NameAt data offset labels next pointers := by
  induction h generalizing labels next pointers with
  | ended hend =>
    have hnone := List.getElem?_eq_none hend
    intro hname
    cases hname <;> simp_all
  | halfPointer hhi hhigh hend =>
    intro hname
    obtain ⟨lo,ptr,next',rest,hlo,-⟩ := nameAt_of_pointer hname hhi hhigh
    simp [hend] at hlo
  | shortLabel hlen hpos hle hend =>
    intro hname
    obtain ⟨rest,-,hlength,-⟩ := nameAt_of_label hname hlen hpos hle
    rw [List.length_take,List.length_drop] at hlength
    omega
  | pointer hhi hlo hhi_eq hlo_eq name ih =>
    intro hname
    obtain ⟨lo',ptr',next',rest,hlo',hhi_eq',hlo_eq',-,-,hname'⟩ := nameAt_of_pointer hname hhi (by omega)
    cases hlo.symm.trans hlo'
    cases pointer_target_unique hhi_eq hlo_eq hhi_eq' hlo_eq'
    exact ih hname'
  | label hlen hpos hle rest ih =>
    intro hname
    obtain ⟨rest,-,-,hname'⟩ := nameAt_of_label hname hlen hpos hle
    exact ih hname'

/-- There is one way to read the name at an offset. -/
theorem nameAt_unique {offset next pointers next' pointers' : ℕ} {labels labels' : List (List UInt8)}
    (h : NameAt data offset labels next pointers) (h' : NameAt data offset labels' next' pointers') :
    labels' = labels ∧ next' = next ∧ pointers' = pointers := by
  induction h generalizing labels' next' pointers' with
  | root hzero => exact nameAt_of_zero h' hzero
  | pointer hhi hlo hhi_eq hlo_eq hlt name ih =>
    obtain ⟨lo',ptr',stop,rest,hlo',hhi_eq',hlo_eq',hnext,hpointers,hname⟩ := nameAt_of_pointer h' hhi (by omega)
    cases hlo.symm.trans hlo'
    cases pointer_target_unique hhi_eq hlo_eq hhi_eq' hlo_eq'
    obtain ⟨hlabels,-,hrest⟩ := ih hname
    exact ⟨hlabels,hnext,by rw [hpointers,hrest]⟩
  | label hlen hpos hle hlabel hlength rest ih =>
    obtain ⟨rest',hlabels,-,hname⟩ := nameAt_of_label h' hlen hpos hle
    obtain ⟨hrest,hnext,hpointers⟩ := ih hname
    exact ⟨by rw [hlabels,hlabel,hrest],hnext,hpointers⟩

section Loop

/-- From a state whose offset leads to the end of the message, the loop appends the labels
up to there and returns. -/
theorem parseLoop_cut {offset next pointers : ℕ} {labels : List (List UInt8)}
    (h : CutAt data offset labels next pointers) {s : NameState} (hs : s.currentOffset = offset)
    (hjumps : pointers ≤ s.jumpsLeft) : Reads data s labels next := by
  induction h generalizing s with
  | ended hend =>
    subst hs
    refine ⟨s,?_,rfl,rfl⟩
    rw [parseLoop,dif_neg (by omega)]
  | pointer hhi hlo hhi_eq hlo_eq hlt name ih =>
    subst hs
    apply Reads.pointer hhi hlo hhi_eq hlo_eq hlt (by omega)
    apply ih rfl
    simp only
    omega
  | label hlen hpos hle hlabel hlength rest ih =>
    subst hs
    exact .label hlen hpos hle hlabel hlength (ih rfl hjumps)

/-- The two bytes of a pointer are those of its target. -/
theorem pointer_bytes {hi lo : UInt8} (hhigh : hi &&& 0xc0 = 0xc0) :
    hi.toNat = 0xc0+pointerTarget hi lo/256 ∧ lo.toNat = pointerTarget hi lo%256 := by
  have hlo := lo.toNat_lt
  have hhi := hi.toNat_lt
  have hle := and_high_eq_high.mp hhigh
  have htarget : pointerTarget hi lo = (hi.toNat-0xc0)*256+lo.toNat := by
    refine pointerTarget_eq ?_ ?_
    · omega
    · omega
  omega

/-- When the loop returns it has read a name, or it has come to the end of the message. -/
theorem parseLoop_ok {s s' : NameState} (h : parseLoop data s = .ok s') :
    ∃ labels next pointers, pointers ≤ s.jumpsLeft ∧
      (NameAt data s.currentOffset labels next pointers ∨ CutAt data s.currentOffset labels next pointers) := by
  induction s using parseLoop.induct data with
  | case1 s hlt lenByte hzero =>
    exact ⟨[],_,0,Nat.zero_le _,.inl (.root (List.getElem?_eq_some_iff.mpr ⟨hlt,hzero⟩))⟩
  | case2 s hlt lenByte hzero hhigh hlo hj =>
    rw [parseLoop,dif_pos hlt] at h
    simp [lenByte,hzero,hhigh,hlo,hj] at h
  | case3 s hlt lenByte hzero hhigh hlo hj ptr hptr =>
    rw [parseLoop,dif_pos hlt] at h
    simp [lenByte,hzero,hhigh,hlo,hj,ptr,hptr] at h
  | case4 s hlt lenByte hzero hhigh hlo hj ptr hptr ih =>
    -- a jump back, after which there is one pointer less to take
    have hhi_byte : data[s.currentOffset]? = some lenByte := List.getElem?_eq_getElem hlt
    have hlo_byte : data[s.currentOffset+1]? = some data[s.currentOffset+1] := List.getElem?_eq_getElem hlo
    obtain ⟨hhi_eq,hlo_eq⟩ := @pointer_bytes lenByte data[s.currentOffset+1] hhigh
    have hlt_ptr : ptr < s.currentOffset := Nat.not_le.mp hptr
    rw [parseLoop_pointer hhi_byte hlo_byte hhi_eq hlo_eq hlt_ptr (Nat.pos_of_ne_zero hj)] at h
    obtain ⟨labels,next,pointers,hle,hname|hcut⟩ := ih h
    · exact ⟨labels,_,pointers+1,by simp only at hle; omega,
        .inl (.pointer hhi_byte hlo_byte hhi_eq hlo_eq hlt_ptr hname)⟩
    · exact ⟨labels,_,pointers+1,by simp only at hle; omega,
        .inr (.pointer hhi_byte hlo_byte hhi_eq hlo_eq hlt_ptr hcut)⟩
  | case5 s hlt lenByte hzero hhigh hlo =>
    rw [parseLoop,dif_pos hlt] at h
    simp [lenByte,hzero,hhigh,hlo] at h
  | case6 s hlt lenByte hzero hhigh hlow =>
    rw [parseLoop,dif_pos hlt] at h
    simp [lenByte,hzero,hhigh,hlow] at h
  | case7 s hlt lenByte hzero hhigh hlow labelLength hlong =>
    rw [parseLoop,dif_pos hlt] at h
    simp [lenByte,hzero,hhigh,hlow,labelLength,hlong] at h
  | case8 s hlt lenByte hzero hhigh hlow labelLength hlong ih =>
    have hlen : data[s.currentOffset]? = some lenByte := List.getElem?_eq_getElem hlt
    have hle : lenByte.toNat ≤ 63 := and_high_eq_zero.mp (not_not.mp hlow)
    have hpos : 0 < lenByte.toNat := Nat.pos_of_ne_zero fun hn => hzero (UInt8.toNat_inj.mp hn)
    have hlength : ((data.drop (s.currentOffset+1)).take lenByte.toNat).length = lenByte.toNat := by
      simp only [List.length_take,List.length_drop]
      omega
    rw [parseLoop_label hlen hpos hle rfl hlength] at h
    obtain ⟨labels,next,pointers,hjumps,hname|hcut⟩ := ih h
    · exact ⟨_,next,pointers,hjumps,.inl (.label hlen hpos hle rfl hlength hname)⟩
    · exact ⟨_,next,pointers,hjumps,.inr (.label hlen hpos hle rfl hlength hcut)⟩
  | case9 s hend => exact ⟨[],_,0,Nat.zero_le _,.inr (.ended (Nat.not_lt.mp hend))⟩

end Loop

section Name

variable {offset next pointers : ℕ} {labels : List (List UInt8)}

theorem CutAt.labels_ne_nil (h : CutAt data offset labels next pointers) : ∀ label ∈ labels, label ≠ [] := by
  induction h with
  | ended hend => simp
  | pointer hhi hlo hhi_eq hlo_eq hlt name ih => exact ih
  | label hlen hpos hle hlabel hlength rest ih =>
    refine List.forall_mem_cons.mpr ⟨?_,ih⟩
    apply List.ne_nil_of_length_pos
    omega

/-- A name that is cut off is accepted with the labels there are. -/
theorem parseDomainName_cut (h : CutAt data offset labels next pointers) (hpointers : pointers ≤ 16) :
    parseDomainName data offset = .ok ([dot].intercalate labels,next) := by
  obtain ⟨s',hloop,hlabels,hnext⟩ := parseLoop_cut h (s:=⟨offset,false,offset,16,[]⟩) rfl hpointers
  rw [parseDomainName,hloop]
  simp only [Bind.bind,Except.bind,pure,Except.pure,hlabels,hnext,foldl_appendLabel_nil h.labels_ne_nil]
  rfl

/-- Exactly what is accepted: a name or one that is cut off, with at most 16 pointers. -/
theorem parseDomainName_eq_ok {name : List UInt8} :
    parseDomainName data offset = .ok (name,next) ↔ ∃ labels pointers, pointers ≤ 16 ∧
      [dot].intercalate labels = name ∧ (NameAt data offset labels next pointers ∨
        CutAt data offset labels next pointers) := by
  constructor
  · intro h
    cases hloop : parseLoop data ⟨offset,false,offset,16,[]⟩ with
    | error err => simp [parseDomainName,hloop,Bind.bind,Except.bind] at h
    | ok s' =>
      obtain ⟨labels,next',pointers,hpointers,hname|hcut⟩ := parseLoop_ok hloop
      · obtain ⟨hlabels,rfl⟩ := Prod.mk.inj (Except.ok.inj ((parseDomainName_name hname hpointers).symm.trans h))
        exact ⟨labels,pointers,hpointers,hlabels,.inl hname⟩
      · obtain ⟨hlabels,rfl⟩ := Prod.mk.inj (Except.ok.inj ((parseDomainName_cut hcut hpointers).symm.trans h))
        exact ⟨labels,pointers,hpointers,hlabels,.inr hcut⟩
  · rintro ⟨labels,pointers,hpointers,rfl,hname|hcut⟩
    · exact parseDomainName_name hname hpointers
    · exact parseDomainName_cut hcut hpointers

end Name

/-- Reading the name at an offset meets its purpose except where at most 16 pointers and
whole labels lead to the end of the message. -/
theorem complete_iff_not_cut (data : List UInt8) (offset : ℕ) :
    Complete data offset ↔ ¬∃ labels next pointers, CutAt data offset labels next pointers ∧ pointers ≤ 16 := by
  constructor
  · rintro h ⟨labels,next,pointers,hcut,hpointers⟩
    obtain ⟨labels',pointers',hname⟩ := h.accepted _ _ (parseDomainName_cut hcut hpointers)
    exact hcut.runsOff.not_nameAt hname
  · intro h
    have haccepted : ∀ name next, parseDomainName data offset = .ok (name,next) →
        ∃ labels pointers, NameAt data offset labels next pointers := by
      intro name next hparse
      obtain ⟨labels,pointers,hpointers,-,hname|hcut⟩ := parseDomainName_eq_ok.mp hparse
      · exact ⟨labels,pointers,hname⟩
      · exact (h ⟨labels,next,pointers,hcut,hpointers⟩).elim
    refine ⟨haccepted,fun hoff => ?_⟩
    cases hparse : parseDomainName data offset with
    | error err => cases err; rfl
    | ok result =>
      obtain ⟨labels,pointers,hname⟩ := haccepted _ _ hparse
      exact (hoff.not_nameAt hname).elim

/-- The label `a` and nothing after it. -/
def unended : List UInt8 := [1,97]

/-- No zero byte ends the name, and it is accepted as `a`. -/
theorem unended_accepted : parseDomainName unended 0 = .ok ([97],2) ∧ RunsOff unended 0 ∧ ¬Complete unended 0 := by
  have hcut : CutAt unended 0 [[97]] 2 0 := .label (n:=1) rfl (by decide) (by decide) rfl rfl (.ended (by decide))
  have haccepted := parseDomainName_cut hcut (by decide)
  refine ⟨haccepted,hcut.runsOff,fun h => ?_⟩
  cases haccepted.symm.trans (h.refused hcut.runsOff)

end ZNet.DnsNameComplete
