import ZNet.DnsNameComplete
import ZNet.DnsResponse

/-!
# The sections of a DNS message

`parseDnsResponse` takes the numbers of questions and answers from the header and every
length from the bytes it has come to. Beside its two loops stand the shapes of bytes they
read, and no read traps exactly on a message of that shape.
-/

namespace ZNet.DnsSections
open ByteOrder DnsName DnsNameComplete DnsResponse

/-- Labels from `offset` on lead to a zero byte at `stop`, or to a byte of 64 or more, of
which two bytes are taken. -/
inductive LabelsTo (data : List UInt8) : ℕ → ℕ → Prop
  | zero {offset : ℕ} (hzero : data[offset]? = some 0) : LabelsTo data offset offset
  | high {offset : ℕ} {b : UInt8} (hbyte : data[offset]? = some b) (hhigh : 64 ≤ b.toNat) :
      LabelsTo data offset (offset+2)
  | label {offset stop : ℕ} {n : UInt8} (hlen : data[offset]? = some n) (hpos : 0 < n.toNat) (hle : n.toNat ≤ 63)
      (rest : LabelsTo data (offset+n.toNat+1) stop) : LabelsTo data offset stop

/-- The loop over so many questions leads from `offset` to `stop`. -/
inductive QuestionsTo (data : List UInt8) : ℕ → ℕ → ℕ → Prop
  | none {offset : ℕ} : QuestionsTo data 0 offset offset
  | question {questions offset next stop : ℕ} (labels : LabelsTo data offset next)
      (rest : QuestionsTo data questions (next+5) stop) : QuestionsTo data (questions+1) offset stop

/-- The fields of an answer that follow its name. -/
structure FieldsAt (data : List UInt8) (offset : ℕ) (recordType : DnsRecordType) (ttl : ℕ)
    (answerData : List UInt8) : Prop where
  inside : offset+10+answerData.length ≤ data.length
  recordType_eq : numberAt data offset 2 = recordType.toNat
  ttl_eq : numberAt data (offset+4) 4 = ttl
  length_eq : numberAt data (offset+8) 2 = answerData.length
  data_eq : (data.drop (offset+10)).take answerData.length = answerData

/-- A name that `parseDomainName` accepts, which need not be complete. -/
def Accepted (data : List UInt8) (offset : ℕ) (labels : List (List UInt8)) (next : ℕ) : Prop :=
  ∃ pointers ≤ 16, NameAt data offset labels next pointers ∨ CutAt data offset labels next pointers

/-- So many answers from `offset` on can be read. Unless `whole` is true the reading ends
at a name that is not accepted. -/
inductive AnswersRead (data : List UInt8) : Bool → ℕ → ℕ → Prop
  | none {offset : ℕ} : AnswersRead data true 0 offset
  | malformed {answers offset : ℕ} (hname : ¬∃ labels next, Accepted data offset labels next) :
      AnswersRead data false (answers+1) offset
  | answer {whole : Bool} {answers offset next ttl : ℕ} {labels : List (List UInt8)} {recordType : DnsRecordType}
      {answerData : List UInt8} (name : Accepted data offset labels next)
      (fields : FieldsAt data next recordType ttl answerData)
      (rest : AnswersRead data whole answers (next+10+answerData.length)) :
      AnswersRead data whole (answers+1) offset

/-- The message has a header, and behind the questions it announces so many answers as it
announces can be read. -/
def Readable (data : List UInt8) (whole : Bool) : Prop :=
  ∃ offset, QuestionsTo data (numberAt data 4 2) 12 offset ∧ AnswersRead data whole (numberAt data 6 2) offset

variable {data : List UInt8}

section Questions

theorem skipLabels_eq {offset stop : ℕ} (h : LabelsTo data offset stop) : skipLabels data offset = .ok stop := by
  induction h with
  | zero hzero =>
    obtain ⟨hlt,hget⟩ := List.getElem?_eq_some_iff.mp hzero
    rw [skipLabels,dif_pos hlt,if_pos hget]
  | high hbyte hhigh =>
    obtain ⟨hlt,hget⟩ := List.getElem?_eq_some_iff.mp hbyte
    rw [skipLabels,dif_pos hlt,hget,if_neg,if_pos]
    · rw [Ne,and_high_eq_zero]
      omega
    · rintro rfl
      exact absurd hhigh (by decide)
  | label hlen hpos hle rest ih =>
    obtain ⟨hlt,hget⟩ := List.getElem?_eq_some_iff.mp hlen
    rw [skipLabels,dif_pos hlt,hget,if_neg,if_neg,ih]
    · exact not_not.mpr (and_high_eq_zero.mpr hle)
    · rintro rfl
      exact absurd hpos (by decide)

/-- The inner loop reads past the end unless labels lead to one of its two exits. -/
theorem skipLabels_cases (data : List UInt8) (offset : ℕ) :
    (∃ stop, LabelsTo data offset stop) ∨ skipLabels data offset = .error .trap := by
  induction offset using skipLabels.induct data with
  | case1 offset hlt hzero => exact .inl ⟨offset,.zero (List.getElem?_eq_some_iff.mpr ⟨hlt,hzero⟩)⟩
  | case2 offset hlt hzero hhigh =>
    refine .inl ⟨offset+2,.high (List.getElem?_eq_getElem hlt) ?_⟩
    rw [Ne,and_high_eq_zero] at hhigh
    omega
  | case3 offset hlt hzero hhigh ih =>
    have hle := and_high_eq_zero.mp (not_not.mp hhigh)
    have hpos : 0 < data[offset].toNat := Nat.pos_of_ne_zero fun hn => hzero (UInt8.toNat_inj.mp hn)
    obtain ⟨stop,hstop⟩|htrap := ih
    · exact .inl ⟨stop,.label (List.getElem?_eq_getElem hlt) hpos hle hstop⟩
    · rw [skipLabels,dif_pos hlt,if_neg hzero,if_neg hhigh,htrap]
      exact .inr rfl
  | case4 offset hend =>
    rw [skipLabels,dif_neg hend]
    exact .inr rfl

theorem skipQuestions_eq {questions offset stop : ℕ} (h : QuestionsTo data questions offset stop) :
    skipQuestions data questions offset = .ok stop := by
  induction h with
  | none => rfl
  | question labels rest ih =>
    rw [skipQuestions,skipLabels_eq labels]
    exact ih

theorem skipQuestions_cases (data : List UInt8) (questions offset : ℕ) :
    (∃ stop, QuestionsTo data questions offset stop) ∨ skipQuestions data questions offset = .error .trap := by
  induction questions generalizing offset with
  | zero => exact .inl ⟨offset,.none⟩
  | succ questions ih =>
    obtain ⟨next,hnext⟩|htrap := skipLabels_cases data offset
    · obtain ⟨stop,hstop⟩|htrap := ih (next+5)
      · exact .inl ⟨stop,.question hnext hstop⟩
      · rw [skipQuestions,skipLabels_eq hnext]
        exact .inr htrap
    · rw [skipQuestions,htrap]
      exact .inr rfl

end Questions

section Answers

theorem readInt_inside {offset width : ℕ} (h : offset+width ≤ data.length) :
    readInt data offset width = .ok (numberAt data offset width) := by
  rw [readInt,slice,if_pos h]
  rfl

theorem readInt_outside {offset width : ℕ} (h : ¬offset+width ≤ data.length) :
    readInt data offset width = .error .trap := by
  rw [readInt,slice,if_neg h]
  rfl

theorem readInt_cases (data : List UInt8) (offset width : ℕ) :
    readInt data offset width = .ok (numberAt data offset width) ∨ readInt data offset width = .error .trap := by
  by_cases h : offset+width ≤ data.length
  · exact .inl (readInt_inside h)
  · exact .inr (readInt_outside h)

theorem enumFromInt_toNat (recordType : DnsRecordType) : enumFromInt recordType.toNat = .ok recordType := by
  cases recordType <;> rfl

theorem enumFromInt_cases (n : ℕ) : (∃ recordType : DnsRecordType, n = recordType.toNat) ∨
    enumFromInt n = .error .trap := by
  rw [enumFromInt]
  cases hfind : recordTypes.find? (·.toNat = n) with
  | none => exact .inr rfl
  | some recordType => exact .inl ⟨recordType,(of_decide_eq_true (List.find?_some hfind :)).symm⟩

variable {offset next : ℕ} {name : List UInt8}

theorem Accepted.parse {labels : List (List UInt8)} (h : Accepted data offset labels next) :
    parseDomainName data offset = .ok ([dot].intercalate labels,next) := by
  obtain ⟨pointers,hpointers,hname⟩ := h
  exact parseDomainName_eq_ok.mpr ⟨labels,pointers,hpointers,rfl,hname⟩

/-- One round of the answer loop over an answer that is all there. -/
theorem parseAnswers_fields {recordType : DnsRecordType} {ttl : ℕ} {answerData : List UInt8}
    (hname : parseDomainName data offset = .ok (name,next)) (h : FieldsAt data next recordType ttl answerData)
    (answers : ℕ) : parseAnswers data (answers+1) offset =
      (parseAnswers data answers (next+10+answerData.length)).map (⟨name,recordType,ttl,answerData⟩::·) := by
  have hinside := h.inside
  have hdata : slice data (next+10) answerData.length = .ok answerData := by
    rw [DnsResponse.slice,if_pos hinside,h.data_eq]
  rw [parseAnswers,hname]
  simp only [Except.mapError,Bind.bind,Except.bind]
  rw [readInt_inside (by omega),readInt_inside (by omega),readInt_inside (by omega),readInt_inside (by omega)]
  simp only [h.recordType_eq,h.ttl_eq,h.length_eq,hdata,enumFromInt_toNat]
  cases parseAnswers data answers (next+10+answerData.length) <;> rfl

/-- A round traps when the fields behind the name are not all there or the type is none. -/
theorem parseAnswers_trap (hname : parseDomainName data offset = .ok (name,next))
    (h : ¬∃ recordType ttl answerData, FieldsAt data next recordType ttl answerData) (answers : ℕ) :
    parseAnswers data (answers+1) offset = .error .trap := by
  rw [parseAnswers,hname]
  simp only [Except.mapError,Bind.bind,Except.bind]
  by_cases hfixed : next+10 ≤ data.length
  · rw [readInt_inside (by omega),readInt_inside (by omega),readInt_inside (by omega),readInt_inside (by omega)]
    simp only
    by_cases hinside : next+10+numberAt data (next+8) 2 ≤ data.length
    · rw [DnsResponse.slice,if_pos hinside]
      obtain ⟨recordType,htype⟩|htrap := enumFromInt_cases (numberAt data next 2)
      · have hlength : ((data.drop (next+10)).take (numberAt data (next+8) 2)).length = numberAt data (next+8) 2 := by
          rw [List.length_take,List.length_drop]
          omega
        exact (h ⟨recordType,_,_,⟨by rwa [hlength],htype,rfl,hlength.symm,by rw [hlength]⟩⟩).elim
      · simp only [htrap]
    · rw [DnsResponse.slice,if_neg hinside]
  · -- the length is not inside, and a read before it may trap already
    rw [@readInt_outside data (next+8) 2 (by omega)]
    obtain htype|htype := readInt_cases data next 2
    · obtain hclass|hclass := readInt_cases data (next+2) 2
      · obtain httl|httl := readInt_cases data (next+4) 4 <;> simp only [htype,hclass,httl]
      · simp only [htype,hclass]
    · simp only [htype]

theorem parseAnswers_malformed (hname : ¬∃ labels next, Accepted data offset labels next) (answers : ℕ) :
    parseAnswers data (answers+1) offset = .error (.error .malformedDnsMessage) := by
  cases hparse : parseDomainName data offset with
  | error err =>
    rw [parseAnswers,hparse]
    rfl
  | ok result =>
    obtain ⟨labels,pointers,hpointers,-,h⟩ := parseDomainName_eq_ok.mp hparse
    exact (hname ⟨labels,result.2,pointers,hpointers,h⟩).elim

/-- What the answer loop returns where its reads are all inside. -/
theorem parseAnswers_read {whole : Bool} {answers : ℕ} (h : AnswersRead data whole answers offset) :
    (whole = true ∧ ∃ list, parseAnswers data answers offset = .ok list) ∨
    (whole = false ∧ parseAnswers data answers offset = .error (.error .malformedDnsMessage)) := by
  induction h with
  | none => exact .inl ⟨rfl,[],rfl⟩
  | malformed hname => exact .inr ⟨rfl,parseAnswers_malformed hname _⟩
  | answer name fields rest ih =>
    rw [parseAnswers_fields name.parse fields]
    obtain ⟨hwhole,list,hlist⟩|⟨hwhole,hmalformed⟩ := ih
    · exact .inl ⟨hwhole,_,by rw [hlist]; rfl⟩
    · exact .inr ⟨hwhole,by rw [hmalformed]; rfl⟩

theorem parseAnswers_cases (data : List UInt8) (answers offset : ℕ) :
    (∃ whole, AnswersRead data whole answers offset) ∨ parseAnswers data answers offset = .error .trap := by
  induction answers generalizing offset with
  | zero => exact .inl ⟨true,.none⟩
  | succ answers ih =>
    by_cases hname : ∃ labels next, Accepted data offset labels next
    · obtain ⟨labels,next,hname⟩ := hname
      by_cases hfields : ∃ recordType ttl answerData, FieldsAt data next recordType ttl answerData
      · obtain ⟨recordType,ttl,answerData,hfields⟩ := hfields
        obtain ⟨whole,hread⟩|htrap := ih (next+10+answerData.length)
        · exact .inl ⟨whole,.answer hname hfields hread⟩
        · rw [parseAnswers_fields hname.parse hfields,htrap]
          exact .inr rfl
      · exact .inr (parseAnswers_trap hname.parse hfields _)
    · exact .inl ⟨false,.malformed hname⟩

end Answers

section Response

/-- From the end of the header on, the two loops are all there is. -/
theorem parseDnsResponse_eq (query : DnsQuery) (hheader : 12 ≤ data.length) : parseDnsResponse data query =
    (skipQuestions data (numberAt data 4 2) 12).bind (parseAnswers data (numberAt data 6 2)) := by
  rw [parseDnsResponse,if_neg (by omega),readInt_inside (by omega),readInt_inside (by omega),
    readInt_inside (by omega),readInt_inside (by omega)]
  rfl

theorem parseDnsResponse_short (query : DnsQuery) (hshort : data.length < 12) :
    parseDnsResponse data query = .error (.error .parseError) := by
  rw [parseDnsResponse,if_pos hshort]

theorem parseDnsResponse_readable (query : DnsQuery) (hheader : 12 ≤ data.length) {whole : Bool}
    (h : Readable data whole) :
    (whole = true ∧ ∃ list, parseDnsResponse data query = .ok list) ∨
    (whole = false ∧ parseDnsResponse data query = .error (.error .malformedDnsMessage)) := by
  obtain ⟨offset,hquestions,hanswers⟩ := h
  rw [parseDnsResponse_eq query hheader,skipQuestions_eq hquestions]
  exact parseAnswers_read hanswers

theorem parseDnsResponse_cases (data : List UInt8) (query : DnsQuery) (hheader : 12 ≤ data.length) :
    (∃ whole, Readable data whole) ∨ parseDnsResponse data query = .error .trap := by
  rw [parseDnsResponse_eq query hheader]
  obtain ⟨offset,hquestions⟩|htrap := skipQuestions_cases data (numberAt data 4 2) 12
  · obtain ⟨whole,hread⟩|htrap := parseAnswers_cases data (numberAt data 6 2) offset
    · exact .inl ⟨whole,offset,hquestions,hread⟩
    · rw [skipQuestions_eq hquestions]
      exact .inr htrap
  · rw [htrap]
    exact .inr rfl

end Response

/-- The call returns a list of answers or `ParseError`. -/
def ListOrParseError (data : List UInt8) (query : DnsQuery) : Prop :=
  (∃ answers, parseDnsResponse data query = .ok answers) ∨
    parseDnsResponse data query = .error (.error .parseError)

/-- Exactly the datagrams that are too short for a header, and those whose sections can be
read as announced, come to a list or `ParseError`. There is no trap on these and on
those where the reading ends at a malformed name, and on no other. -/
theorem listOrParseError_iff (data : List UInt8) (query : DnsQuery) :
    (ListOrParseError data query ↔ data.length < 12 ∨ Readable data true) ∧
    (parseDnsResponse data query ≠ .error .trap ↔ data.length < 12 ∨ ∃ whole, Readable data whole) := by
  by_cases hshort : data.length < 12
  · have hparse := parseDnsResponse_short query hshort
    refine ⟨iff_of_true (.inr hparse) (.inl hshort),iff_of_true ?_ (.inl hshort)⟩
    simp [hparse]
  · have hheader : 12 ≤ data.length := Nat.not_lt.mp hshort
    simp only [hshort,false_or]
    constructor
    · constructor
      · intro h
        obtain ⟨whole,hread⟩|htrap := parseDnsResponse_cases data query hheader
        · obtain ⟨rfl,-⟩|⟨-,hmalformed⟩ := parseDnsResponse_readable query hheader hread
          · exact hread
          · simp [ListOrParseError,hmalformed] at h
        · simp [ListOrParseError,htrap] at h
      · intro hread
        obtain ⟨-,hlist⟩|⟨hwhole,-⟩ := parseDnsResponse_readable query hheader hread
        · exact .inl hlist
        · cases hwhole
    · constructor
      · intro h
        obtain hread|htrap := parseDnsResponse_cases data query hheader
        · exact hread
        · exact (h htrap).elim
      · rintro ⟨whole,hread⟩
        obtain ⟨-,list,hlist⟩|⟨-,hmalformed⟩ := parseDnsResponse_readable query hheader hread
        · simp [hlist]
        · simp [hmalformed]

/-- A header that announces one question, of which nothing follows. -/
def headerOnly : List UInt8 := [0,0,0,0,0,1,0,0,0,0,0,0]

/-- The first length byte of the question is read behind the end of the datagram. -/
theorem headerOnly_trap : parseDnsResponse headerOnly sample = .error .trap ∧
    ¬ListOrParseError headerOnly sample := by
  have htrap : parseDnsResponse headerOnly sample = .error .trap := by
    have hskip : skipLabels headerOnly 12 = .error .trap := by
      rw [skipLabels,dif_neg (by decide)]
    have hquestions : numberAt headerOnly 4 2 = 1 := by decide
    rw [parseDnsResponse_eq sample (by decide),hquestions,skipQuestions,hskip]
    rfl
  refine ⟨htrap,?_⟩
  simp [ListOrParseError,htrap]

end ZNet.DnsSections
