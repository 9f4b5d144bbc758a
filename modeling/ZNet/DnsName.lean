import ZNet.ByteOrder
import Mathlib.Data.List.Basic
import Mathlib.Data.Nat.Bitwise

/-!
# Domain names in DNS messages

`encodeDnsQuery` writes the labels of a name one after another. `parseDomainName`
reads labels and follows compression pointers, which go backwards and are counted.
-/

namespace ZNet.DnsName
open ByteOrder

inductive NameError
  | malformedDnsMessage
deriving DecidableEq

inductive DnsRecordType
  | a | aaaa | cname | mx | ns | txt | srv | caa
deriving DecidableEq

def DnsRecordType.toNat : DnsRecordType → ℕ
  | .a => 1
  | .aaaa => 28
  | .cname => 5
  | .mx => 15
  | .ns => 2
  | .txt => 16
  | .srv => 33
  | .caa => 257

structure DnsQuery where
  name : List UInt8
  recordType : DnsRecordType
  cls : ℕ

/-- The byte between two labels of a name in text form. -/
def dot : UInt8 := 0x2e

/-- The labels of a name, each after its length. `@intCast` needs the length to be a byte. -/
def encodeLabels : List (List UInt8) → Option (List UInt8)
  | [] => some []
  | label::labels =>
    if label.length < 256 then (encodeLabels labels).map (UInt8.ofNat label.length::label++·) else none

/-- `id` is the random transaction id, and `order` the byte order of the host. -/
def encodeDnsQuery (order : Endian) (id : ℕ) (query : DnsQuery) : Option (List UInt8) :=
  (encodeLabels (query.name.splitOn dot)).map fun labels =>
    toBytes order 2 id++toBytes order 2 0x0100++toBytes order 2 1++toBytes order 2 0++toBytes order 2 0++
      toBytes order 2 0++labels++[0]++toBytes order 2 query.recordType.toNat++toBytes order 2 query.cls

/-- The variables of the loop of `parseDomainName`. -/
structure NameState where
  currentOffset : ℕ
  jumped : Bool
  returnOffset : ℕ
  jumpsLeft : ℕ
  labels : List UInt8

/-- The text so far with one more label. -/
def appendLabel (labels label : List UInt8) : List UInt8 :=
  (if labels.length > 0 then labels++[dot] else labels)++label

/-- The offset a pointer of two bytes leads to. -/
def pointerTarget (hi lo : UInt8) : ℕ := (hi &&& 0x3f).toNat <<< 8 ||| lo.toNat

def parseLoop (data : List UInt8) (s : NameState) : Except NameError NameState :=
  if h : s.currentOffset < data.length then
    let lenByte := data[s.currentOffset]
    if lenByte = 0 then .ok { s with currentOffset := s.currentOffset+1 }
    else if lenByte &&& 0xc0 = 0xc0 then
      if h' : s.currentOffset+1 < data.length then
        if hj : s.jumpsLeft = 0 then .error .malformedDnsMessage
        else
          let ptr := pointerTarget lenByte data[s.currentOffset+1]
          if ptr ≥ s.currentOffset then .error .malformedDnsMessage
          else parseLoop data { s with
            currentOffset := ptr
            jumped := true
            returnOffset := if s.jumped then s.returnOffset else s.currentOffset+2
            jumpsLeft := s.jumpsLeft-1 }
      else .error .malformedDnsMessage
    else if lenByte &&& 0xc0 ≠ 0 then .error .malformedDnsMessage
    else
      let labelLength := lenByte.toNat
      if s.currentOffset+1+labelLength > data.length then .error .malformedDnsMessage
      else parseLoop data { s with
        currentOffset := s.currentOffset+1+labelLength
        labels := appendLabel s.labels ((data.drop (s.currentOffset+1)).take labelLength) }
  else .ok s
termination_by (s.jumpsLeft,data.length-s.currentOffset)
decreasing_by
  · exact Prod.Lex.left _ _ (by omega)
  · exact Prod.Lex.right _ (by omega)

/-- Where the record continues once the loop has stopped. -/
def NameState.nextOffset (s : NameState) : ℕ := if s.jumped then s.returnOffset else s.currentOffset

/-- The name at an offset and the new offset. An error leaves the offset as it was. -/
def parseDomainName (data : List UInt8) (offset : ℕ) : Except NameError (List UInt8×ℕ) := do
  let s ← parseLoop data ⟨offset,false,offset,16,[]⟩
  pure (s.labels,s.nextOffset)

/-- A well-formed name with the given labels starts at `offset`. It takes `pointers`
compression pointers to read it, and the record continues at `next`. -/
inductive NameAt (data : List UInt8) : ℕ → List (List UInt8) → ℕ → ℕ → Prop
  | root {offset : ℕ} (hzero : data[offset]? = some 0) : NameAt data offset [] (offset+1) 0
  | pointer {offset ptr next pointers : ℕ} {labels : List (List UInt8)} {hi lo : UInt8}
      (hhi : data[offset]? = some hi) (hlo : data[offset+1]? = some lo) (hhi_eq : hi.toNat = 0xc0+ptr/256)
      (hlo_eq : lo.toNat = ptr%256) (hlt : ptr < offset) (name : NameAt data ptr labels next pointers) :
      NameAt data offset labels (offset+2) (pointers+1)
  | label {offset next pointers : ℕ} {n : UInt8} {label : List UInt8} {labels : List (List UInt8)}
      (hlen : data[offset]? = some n) (hpos : 0 < n.toNat) (hle : n.toNat ≤ 63)
      (hlabel : (data.drop (offset+1)).take n.toNat = label) (hlength : label.length = n.toNat)
      (rest : NameAt data (offset+1+n.toNat) labels next pointers) :
      NameAt data offset (label::labels) next pointers

section Bytes

theorem and_high_toNat (b : UInt8) : (b &&& 0xc0).toNat = b.toNat/64*64 := by
  have hall : ∀ i : Fin 256, i.val &&& 192 = i.val/64*64 := by decide +kernel
  rw [UInt8.toNat_and]
  exact hall ⟨b.toNat,b.toNat_lt⟩

theorem and_high_eq_high {b : UInt8} : b &&& 0xc0 = 0xc0 ↔ 0xc0 ≤ b.toNat := by
  have hlt := b.toNat_lt
  have hhigh : (0xc0 : UInt8).toNat = 192 := rfl
  rw [← UInt8.toNat_inj,and_high_toNat]
  omega

theorem and_high_eq_zero {b : UInt8} : b &&& 0xc0 = 0 ↔ b.toNat ≤ 63 := by
  have hzero : (0 : UInt8).toNat = 0 := rfl
  rw [← UInt8.toNat_inj,and_high_toNat]
  omega

theorem pointerTarget_eq {ptr : ℕ} {hi lo : UInt8} (hhi : hi.toNat = 0xc0+ptr/256) (hlo : lo.toNat = ptr%256) :
    pointerTarget hi lo = ptr := by
  have hlt := hi.toNat_lt
  have hand : (hi &&& 0x3f).toNat = hi.toNat%64 := by
    rw [UInt8.toNat_and]
    exact Nat.and_two_pow_sub_one_eq_mod _ 6
  rw [pointerTarget,← Nat.shiftLeft_add_eq_or_of_lt (i:=8) lo.toNat_lt,hand,hhi,hlo,Nat.shiftLeft_eq]
  omega

end Bytes

section Loop

variable {data : List UInt8} {s : NameState}

theorem parseLoop_zero (hbyte : data[s.currentOffset]? = some 0) :
    parseLoop data s = .ok { s with currentOffset := s.currentOffset+1 } := by
  obtain ⟨hlt,hget⟩ := List.getElem?_eq_some_iff.mp hbyte
  rw [parseLoop,dif_pos hlt]
  simp only [hget,if_true]

theorem parseLoop_pointer {ptr : ℕ} {hi lo : UInt8} (hhi : data[s.currentOffset]? = some hi)
    (hlo : data[s.currentOffset+1]? = some lo) (hhi_eq : hi.toNat = 0xc0+ptr/256) (hlo_eq : lo.toNat = ptr%256)
    (hptr : ptr < s.currentOffset) (hjumps : 0 < s.jumpsLeft) :
    parseLoop data s = parseLoop data { s with
      currentOffset := ptr
      jumped := true
      returnOffset := if s.jumped then s.returnOffset else s.currentOffset+2
      jumpsLeft := s.jumpsLeft-1 } := by
  obtain ⟨hlt,hget⟩ := List.getElem?_eq_some_iff.mp hhi
  obtain ⟨hlt',hget'⟩ := List.getElem?_eq_some_iff.mp hlo
  have hhigh : hi &&& 0xc0 = 0xc0 := and_high_eq_high.mpr (by omega)
  have hne : hi ≠ 0 := by
    rintro rfl
    exact absurd hhi_eq (by simp; omega)
  rw [parseLoop,dif_pos hlt]
  simp only [hget,hget',if_neg hne,if_pos hhigh,dif_pos hlt',pointerTarget_eq hhi_eq hlo_eq]
  rw [dif_neg (by omega),if_neg (by omega)]

theorem parseLoop_label {len : UInt8} {label : List UInt8} (hlen : data[s.currentOffset]? = some len)
    (hpos : 0 < len.toNat) (hle : len.toNat ≤ 63) (hlabel : (data.drop (s.currentOffset+1)).take len.toNat = label)
    (hlength : label.length = len.toNat) :
    parseLoop data s = parseLoop data { s with
      currentOffset := s.currentOffset+1+len.toNat
      labels := appendLabel s.labels label } := by
  obtain ⟨hlt,hget⟩ := List.getElem?_eq_some_iff.mp hlen
  have hne : len ≠ 0 := by
    rintro rfl
    exact absurd hpos (by decide)
  have hhigh : ¬len &&& 0xc0 = 0xc0 := by
    rw [and_high_eq_high]
    omega
  have hlow : ¬len &&& 0xc0 ≠ 0 := not_not.mpr (and_high_eq_zero.mpr hle)
  have hfits : ¬s.currentOffset+1+len.toNat > data.length := by
    rw [← hlabel,List.length_take,List.length_drop] at hlength
    omega
  rw [parseLoop,dif_pos hlt]
  simp only [hget,if_neg hne,if_neg hhigh,if_neg hlow,if_neg hfits,hlabel]

/-- The loop reads these labels, and the record goes on at `next` unless a pointer was
taken before. -/
def Reads (data : List UInt8) (s : NameState) (labels : List (List UInt8)) (next : ℕ) : Prop :=
  ∃ s', parseLoop data s = .ok s' ∧ s'.labels = labels.foldl appendLabel s.labels ∧
    s'.nextOffset = if s.jumped then s.returnOffset else next

/-- Where the record continues is fixed by the first pointer. -/
theorem Reads.pointer {ptr next : ℕ} {hi lo : UInt8} {labels : List (List UInt8)}
    (hhi : data[s.currentOffset]? = some hi) (hlo : data[s.currentOffset+1]? = some lo)
    (hhi_eq : hi.toNat = 0xc0+ptr/256) (hlo_eq : lo.toNat = ptr%256) (hptr : ptr < s.currentOffset)
    (hjumps : 0 < s.jumpsLeft)
    (h : Reads data { s with
      currentOffset := ptr
      jumped := true
      returnOffset := if s.jumped then s.returnOffset else s.currentOffset+2
      jumpsLeft := s.jumpsLeft-1 } labels next) : Reads data s labels (s.currentOffset+2) := by
  obtain ⟨s',hloop,hlabels,hnext⟩ := h
  exact ⟨s',(parseLoop_pointer hhi hlo hhi_eq hlo_eq hptr hjumps).trans hloop,hlabels,hnext⟩

theorem Reads.label {len : UInt8} {label : List UInt8} {labels : List (List UInt8)} {next : ℕ}
    (hlen : data[s.currentOffset]? = some len) (hpos : 0 < len.toNat) (hle : len.toNat ≤ 63)
    (hlabel : (data.drop (s.currentOffset+1)).take len.toNat = label) (hlength : label.length = len.toNat)
    (h : Reads data { s with
      currentOffset := s.currentOffset+1+len.toNat
      labels := appendLabel s.labels label } labels next) : Reads data s (label::labels) next := by
  obtain ⟨s',hloop,hlabels,hnext⟩ := h
  exact ⟨s',(parseLoop_label hlen hpos hle hlabel hlength).trans hloop,hlabels,hnext⟩

/-- From any state whose offset is at a well-formed name, the loop appends the labels
of the name. -/
theorem parseLoop_name {offset next pointers : ℕ} {labels : List (List UInt8)}
    (h : NameAt data offset labels next pointers) {s : NameState} (hs : s.currentOffset = offset)
    (hjumps : pointers ≤ s.jumpsLeft) : Reads data s labels next := by
  induction h generalizing s with
  | root hzero =>
    subst hs
    exact ⟨_,parseLoop_zero hzero,rfl,rfl⟩
  | pointer hhi hlo hhi_eq hlo_eq hlt name ih =>
    subst hs
    apply Reads.pointer hhi hlo hhi_eq hlo_eq hlt (by omega)
    apply ih rfl
    simp only
    omega
  | label hlen hpos hle hlabel hlength rest ih =>
    subst hs
    exact .label hlen hpos hle hlabel hlength (ih rfl hjumps)

end Loop

/-- Labels with at least one byte are joined by dots. -/
theorem foldl_appendLabel {labels : List (List UInt8)} (hne : ∀ label ∈ labels, label ≠ []) {text : List UInt8}
    (htext : text ≠ []) : labels.foldl appendLabel text = [dot].intercalate (text::labels) := by
  induction labels generalizing text with
  | nil => simp
  | cons label labels ih =>
    have hlabel := hne label (List.mem_cons_self ..)
    have happend : appendLabel text label = text++[dot]++label := by
      rw [appendLabel,if_pos (List.length_pos_iff.mpr htext)]
    rw [List.foldl_cons,ih (fun l hl => hne l (List.mem_cons_of_mem _ hl)) (by simp [happend,htext]),happend]
    cases labels <;> simp [List.intercalate]

/-- Into an empty text the first label goes without a dot. -/
theorem foldl_appendLabel_nil {labels : List (List UInt8)} (hne : ∀ label ∈ labels, label ≠ []) :
    labels.foldl appendLabel [] = [dot].intercalate labels := by
  cases labels with
  | nil => rfl
  | cons label labels =>
    obtain ⟨hlabel,hrest⟩ := List.forall_mem_cons.mp hne
    have hfirst : appendLabel [] label = label := rfl
    rw [List.foldl_cons,hfirst,foldl_appendLabel hrest hlabel]

theorem NameAt.labels_ne_nil {data : List UInt8} {offset next pointers : ℕ} {labels : List (List UInt8)}
    (h : NameAt data offset labels next pointers) : ∀ label ∈ labels, label ≠ [] := by
  induction h with
  | root hzero => simp
  | pointer hhi hlo hhi_eq hlo_eq hlt name ih => exact ih
  | label hlen hpos hle hlabel hlength rest ih =>
    refine List.forall_mem_cons.mpr ⟨?_,ih⟩
    rintro rfl
    rw [List.length_nil] at hlength
    omega

theorem parseDomainName_name {data : List UInt8} {offset next pointers : ℕ} {labels : List (List UInt8)}
    (h : NameAt data offset labels next pointers) (hpointers : pointers ≤ 16) :
    parseDomainName data offset = .ok ([dot].intercalate labels,next) := by
  obtain ⟨s',hloop,hlabels,hnext⟩ := parseLoop_name h (s:=⟨offset,false,offset,16,[]⟩) rfl hpointers
  rw [parseDomainName,hloop]
  simp only [Bind.bind,Except.bind,pure,Except.pure,hlabels,hnext,foldl_appendLabel_nil h.labels_ne_nil]
  rfl

section Encoding

/-- The labels as `encodeDnsQuery` writes them, followed by a zero byte, are a name. -/
theorem encodeLabels_name {labels : List (List UInt8)} (hlabels : ∀ l ∈ labels, 0 < l.length ∧ l.length ≤ 63) :
    ∃ bytes, encodeLabels labels = some bytes ∧ bytes.length = (labels.map (·.length+1)).sum ∧
      ∀ front rest, NameAt (front++(bytes++0::rest)) front.length labels (front.length+bytes.length+1) 0 := by
  induction labels with
  | nil => exact ⟨[],rfl,rfl,fun front rest => .root (by simp)⟩
  | cons label labels ih =>
    obtain ⟨hlabel,hrest⟩ := List.forall_mem_cons.mp hlabels
    obtain ⟨bytes,hbytes,hlen,hname⟩ := ih hrest
    have hcast : (UInt8.ofNat label.length).toNat = label.length := by
      rw [UInt8.toNat_ofNat']
      omega
    refine ⟨UInt8.ofNat label.length::label++bytes,?_,?_,?_⟩
    · rw [encodeLabels,if_pos (by omega),hbytes,Option.map_some]
    · rw [List.length_append,List.length_cons,hlen,List.map_cons,List.sum_cons]
    · intro front rest
      have hrest' := hname (front++UInt8.ofNat label.length::label) rest
      refine .label (n:=UInt8.ofNat label.length) ?_ (by omega) (by omega) ?_ hcast.symm ?_
      · simp
      · rw [hcast]
        simp
      · simpa [hcast,Nat.add_assoc,Nat.add_comm,Nat.add_left_comm] using hrest'

theorem length_intercalate_dot {labels : List (List UInt8)} (hne : labels ≠ []) :
    ([dot].intercalate labels).length+1 = (labels.map (·.length+1)).sum := by
  induction labels with
  | nil => exact (hne rfl).elim
  | cons label labels ih =>
    cases labels with
    | nil => simp
    | cons label' labels =>
      have hrest := ih (by simp)
      rw [List.map_cons,List.sum_cons,← hrest]
      simp [List.intercalate]
      omega

end Encoding

/-- Every well-formed name with at most 16 pointers is read as its labels joined by
dots, and the offset moves to just after its zero byte or its first pointer. In
particular the name of a query is read back as it was given. -/
theorem parseDomainName_correct :
    (∀ data offset labels next pointers, NameAt data offset labels next pointers → pointers ≤ 16 →
      parseDomainName data offset = .ok ([dot].intercalate labels,next)) ∧
    (∀ order id query, (∀ label ∈ query.name.splitOn dot, 1 ≤ label.length ∧ label.length ≤ 63) →
      ∃ data, encodeDnsQuery order id query = some data ∧
        parseDomainName data 12 = .ok (query.name,12+query.name.length+2)) := by
  refine ⟨fun _ _ _ _ _ h hpointers => parseDomainName_name h hpointers,?_⟩
  intro order id query hlabels
  obtain ⟨bytes,hbytes,hlen,hname⟩ := encodeLabels_name hlabels
  have hsplit : [dot].intercalate (query.name.splitOn dot) = query.name := List.intercalate_splitOn dot
  have hlength := length_intercalate_dot (List.splitOn_ne_nil dot query.name)
  rw [hsplit,← hlen] at hlength
  rw [encodeDnsQuery,hbytes,Option.map_some]
  refine ⟨_,rfl,?_⟩
  have hat := hname (toBytes order 2 id++toBytes order 2 0x0100++toBytes order 2 1++toBytes order 2 0++
    toBytes order 2 0++toBytes order 2 0) (toBytes order 2 query.recordType.toNat++toBytes order 2 query.cls)
  have hparse := parseDomainName_name hat (Nat.zero_le _)
  rw [hsplit] at hparse
  simp only [List.length_append,length_toBytes] at hparse
  have hnext : 12+query.name.length+2 = 2+2+2+2+2+2+bytes.length+1 := by omega
  rw [hnext]
  simpa [List.append_assoc] using hparse

/-- A message with the name `a` at offset 0, and at offset 3 the label `b` followed by
a pointer to it. -/
def compressed : List UInt8 := [1,97,0,1,98,0xc0,0]

/-- The pointer is followed and the offset moves to just after it; the name of a query
for `ab` is read back. -/
theorem parseDomainName_correct_compressed :
    parseDomainName compressed 3 = .ok ([98,dot,97],7) ∧
    ∃ data, encodeDnsQuery .little 7 ⟨[97,98],.a,1⟩ = some data ∧ parseDomainName data 12 = .ok ([97,98],16) := by
  have hroot : NameAt compressed 0 [[97]] 3 0 :=
    .label (n:=1) rfl (by decide) (by decide) rfl rfl (.root rfl)
  have hname : NameAt compressed 3 [[98],[97]] 7 1 :=
    .label (n:=1) rfl (by decide) (by decide) rfl rfl (.pointer rfl rfl rfl rfl (by decide) hroot)
  exact ⟨parseDomainName_correct.1 compressed 3 [[98],[97]] 7 1 hname (by decide),
    parseDomainName_correct.2 .little 7 ⟨[97,98],.a,1⟩ (by decide)⟩

end ZNet.DnsName
