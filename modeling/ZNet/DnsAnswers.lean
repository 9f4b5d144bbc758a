import ZNet.DnsSections

/-!
# The answers of a well-formed response

After the pointer at the end of a compressed name in the question section,
`parseDnsResponse` goes on as it does after a zero byte that it has not taken yet. Each
such name moves the place where it looks for the next section by one byte.
-/

namespace ZNet.DnsAnswers
open ByteOrder DnsName DnsNameComplete DnsResponse DnsSections

/-- The question section from the first offset to the second, given by the numbers of
pointers in its names. Behind each name are two bytes of the type and two of the class. -/
inductive QuestionsAt (data : List UInt8) : List ℕ → ℕ → ℕ → Prop
  | none {offset : ℕ} : QuestionsAt data [] offset offset
  | question {offset next stop pointers : ℕ} {questions : List ℕ} {labels : List (List UInt8)}
      (name : NameAt data offset labels next pointers) (hinside : next+4 ≤ data.length)
      (rest : QuestionsAt data questions (next+4) stop) : QuestionsAt data (pointers::questions) offset stop

/-- The answer section at an offset, given by the numbers of pointers in its names and by
the answers. -/
inductive AnswersAt (data : List UInt8) : List ℕ → List DnsAnswer → ℕ → Prop
  | none {offset : ℕ} : AnswersAt data [] [] offset
  | answer {offset next pointers ttl : ℕ} {labels : List (List UInt8)} {recordType : DnsRecordType}
      {answerData : List UInt8} {names : List ℕ} {answers : List DnsAnswer}
      (name : NameAt data offset labels next pointers) (fields : FieldsAt data next recordType ttl answerData)
      (rest : AnswersAt data names answers (next+10+answerData.length)) :
      AnswersAt data (pointers::names) (⟨[dot].intercalate labels,recordType,ttl,answerData⟩::answers) offset

/-- A well-formed response. Its answers start at `start`, and what comes behind them is
not looked at. -/
structure WellFormed (data : List UInt8) (questions names : List ℕ) (start : ℕ) (answers : List DnsAnswer) :
    Prop where
  header : 12 ≤ data.length
  questions_eq : numberAt data 4 2 = questions.length
  answers_eq : numberAt data 6 2 = answers.length
  questionSection : QuestionsAt data questions 12 start
  answerSection : AnswersAt data names answers start

section Questions

variable {data : List UInt8} {offset next pointers : ℕ} {labels : List (List UInt8)}

/-- Without pointers the inner loop stops before the zero byte, and else after the first
pointer. -/
theorem labelsTo_name (h : NameAt data offset labels next pointers) :
    LabelsTo data offset (if pointers = 0 then next-1 else next) := by
  induction h with
  | root hzero => exact .zero hzero
  | pointer hhi hlo hhi_eq hlo_eq hlt name ih => exact .high hhi (by omega)
  | label hlen hpos hle hlabel hlength rest ih =>
    rw [Nat.add_right_comm] at ih
    exact .label hlen hpos hle ih

theorem offset_lt_next (h : NameAt data offset labels next pointers) : offset < next := by
  induction h with
  | root hzero => omega
  | pointer hhi hlo hhi_eq hlo_eq hlt name ih => omega
  | label hlen hpos hle hlabel hlength rest ih => omega

/-- The loop steps over a question whose name has no pointer, and one byte further over
one whose name has. -/
theorem labelsTo_question (h : NameAt data offset labels next pointers) :
    ∃ stop, LabelsTo data offset stop ∧ stop+5 = next+4+(if pointers = 0 then 0 else 1) := by
  have hlt := offset_lt_next h
  refine ⟨_,labelsTo_name h,?_⟩
  split <;> omega

theorem questionsTo_uncompressed {questions : List ℕ} {start : ℕ} (h : QuestionsAt data questions offset start)
    (hzero : ∀ pointers ∈ questions, pointers = 0) : QuestionsTo data questions.length offset start := by
  induction h with
  | none => exact .none
  | question name hinside rest ih =>
    obtain ⟨rfl,hrest⟩ := List.forall_mem_cons.mp hzero
    obtain ⟨stop,hlabels,hstop⟩ := labelsTo_question name
    refine .question hlabels ?_
    rw [hstop]
    exact ih hrest

/-- When the last question is the one with a compressed name, its end is missed by one. -/
theorem questionsTo_compressed {questions : List ℕ} {start : ℕ}
    (h : QuestionsAt data (questions++[pointers+1]) offset start) (hzero : ∀ pointers ∈ questions, pointers = 0) :
    QuestionsTo data (questions.length+1) offset (start+1) := by
  induction questions generalizing offset with
  | nil =>
    cases h with
    | question name hinside rest =>
      cases rest with
      | none =>
        obtain ⟨stop,hlabels,hstop⟩ := labelsTo_question name
        refine .question hlabels ?_
        rw [hstop]
        exact .none
  | cons first questions ih =>
    obtain ⟨rfl,hrest⟩ := List.forall_mem_cons.mp hzero
    cases h with
    | question name hinside rest =>
      obtain ⟨stop,hlabels,hstop⟩ := labelsTo_question name
      refine .question hlabels ?_
      rw [hstop]
      exact ih rest hrest

end Questions

section Answers

variable {data : List UInt8} {names : List ℕ} {answers : List DnsAnswer} {offset : ℕ}

/-- The answers are read one after another, until a name has too many pointers. -/
theorem parseAnswers_iff (h : AnswersAt data names answers offset) :
    parseAnswers data answers.length offset = .ok answers ↔ ∀ pointers ∈ names, pointers ≤ 16 := by
  induction h with
  | none => exact iff_of_true rfl (List.forall_mem_nil _)
  | @answer offset next pointers ttl labels recordType answerData names answers name fields rest ih =>
    rw [List.forall_mem_cons,List.length_cons]
    by_cases hpointers : pointers ≤ 16
    · rw [parseAnswers_fields (parseDomainName_name name hpointers) fields,← ih]
      cases parseAnswers data answers.length (next+10+answerData.length) <;> simp [Except.map,hpointers]
    · refine iff_of_false ?_ fun hall => hpointers hall.1
      have hname : ¬∃ labels next, Accepted data offset labels next := by
        rintro ⟨labels',next',pointers',hle,hname'|hcut⟩
        · exact hpointers ((nameAt_unique name hname').2.2 ▸ hle)
        · exact hcut.runsOff.not_nameAt name
      simp [parseAnswers_malformed hname]

end Answers

section Continuation

variable {data : List UInt8} {offset : ℕ}

theorem getElem?_append {b : UInt8} (h : data[offset]? = some b) (tail : List UInt8) :
    (data++tail)[offset]? = some b := by
  rw [List.getElem?_append_left (List.getElem?_eq_some_iff.mp h).1,h]

/-- What is read within some bytes is also read when more bytes follow. -/
theorem take_drop_append {n : ℕ} (h : offset+n ≤ data.length) (tail : List UInt8) :
    ((data++tail).drop offset).take n = (data.drop offset).take n := by
  rw [List.drop_append_of_le_length (by omega),List.take_append_of_le_length]
  rw [List.length_drop]
  omega

theorem nameAt_append {next pointers : ℕ} {labels : List (List UInt8)}
    (h : NameAt data offset labels next pointers) (tail : List UInt8) :
    NameAt (data++tail) offset labels next pointers := by
  induction h with
  | root hzero => exact .root (getElem?_append hzero tail)
  | pointer hhi hlo hhi_eq hlo_eq hlt name ih =>
    exact .pointer (getElem?_append hhi tail) (getElem?_append hlo tail) hhi_eq hlo_eq hlt ih
  | @label offset next pointers n label labels hlen hpos hle hlabel hlength rest ih =>
    refine .label (getElem?_append hlen tail) hpos hle ?_ hlength ih
    rw [take_drop_append,hlabel]
    rw [← hlabel,List.length_take,List.length_drop] at hlength
    omega

theorem questionsAt_append {questions : List ℕ} {stop : ℕ} (h : QuestionsAt data questions offset stop)
    (tail : List UInt8) : QuestionsAt (data++tail) questions offset stop := by
  induction h with
  | none => exact .none
  | question name hinside rest ih =>
    refine .question (nameAt_append name tail) ?_ ih
    rw [List.length_append]
    omega

/-- A record of the root: type A, class IN, and neither a time to live nor data. -/
def rootRecord : List UInt8 := [0,0,1,0,1,0,0,0,0,0,0]

/-- The root record as an answer. -/
def rootAnswer : DnsAnswer := ⟨[],.a,0,[]⟩

theorem fieldsAt_rootRecord (front rest : List UInt8) :
    FieldsAt (front++(rootRecord++rest)) (front.length+1) .a 0 [] where
  inside := by simp [rootRecord]; omega
  recordType_eq := by simp [numberAt,rootRecord]; rfl
  ttl_eq := by simp [numberAt,rootRecord,Nat.add_assoc]; rfl
  length_eq := by simp [numberAt,rootRecord,Nat.add_assoc]; rfl
  data_eq := rfl

theorem answersAt_rootRecords (front : List UInt8) (n : ℕ) :
    AnswersAt (front++(List.replicate n rootRecord).flatten) (List.replicate n 0) (List.replicate n rootAnswer)
      front.length := by
  induction n generalizing front with
  | zero => exact .none
  | succ n ih =>
    have hrest := ih (front++rootRecord)
    rw [List.append_assoc,List.length_append] at hrest
    have hname :
        NameAt (front++(rootRecord++(List.replicate n rootRecord).flatten)) front.length [] (front.length+1) 0 :=
      .root (by simp [rootRecord])
    exact .answer hname (fieldsAt_rootRecord front _) hrest

/-- One byte into the root record there is a zero byte too, and then 256 where the type is
looked for. -/
theorem parseAnswers_rootRecord (front rest : List UInt8) (n : ℕ) :
    parseAnswers (front++(rootRecord++rest)) (n+1) (front.length+1) = .error .trap := by
  have hname : NameAt (front++(rootRecord++rest)) (front.length+1) [] (front.length+1+1) 0 :=
    .root (by simp [rootRecord])
  apply parseAnswers_trap (parseDomainName_name hname (by decide))
  rintro ⟨recordType,ttl,answerData,hfields⟩
  have htype : numberAt (front++(rootRecord++rest)) (front.length+1+1) 2 = 256 := by
    simp [numberAt,rootRecord,Nat.add_assoc]
    rfl
  rw [hfields.recordType_eq] at htype
  cases recordType <;> exact absurd htype (by decide)

end Continuation

/-- Where no question has a compressed name, the answers are recovered exactly when each
of their names takes at most 16 pointers. Where the last question is the one with a
compressed name and there are answers to come, some answers of the same header and
questions are not. -/
theorem parseDnsResponse_answers (query : DnsQuery) :
    (∀ data questions names start answers, WellFormed data questions names start answers →
      (∀ pointers ∈ questions, pointers = 0) →
      (parseDnsResponse data query = .ok answers ↔ ∀ pointers ∈ names, pointers ≤ 16)) ∧
    (∀ front questions pointers, 12 ≤ front.length → numberAt front 4 2 = questions.length+1 →
      0 < numberAt front 6 2 → QuestionsAt front (questions++[pointers+1]) 12 front.length →
      (∀ pointers ∈ questions, pointers = 0) →
      ∃ tail names answers, WellFormed (front++tail) (questions++[pointers+1]) names front.length answers ∧
        (∀ pointers ∈ names, pointers ≤ 16) ∧ parseDnsResponse (front++tail) query = .error .trap) := by
  constructor
  · intro data questions names start answers h hzero
    have hquestions := questionsTo_uncompressed h.questionSection hzero
    rw [parseDnsResponse_eq query h.header,h.questions_eq,h.answers_eq,skipQuestions_eq hquestions]
    exact parseAnswers_iff h.answerSection
  · intro front questions pointers hheader hquestions hanswers hsection hzero
    obtain ⟨n,hn⟩ := Nat.exists_eq_add_one_of_ne_zero hanswers.ne'
    have hnumber (tail : List UInt8) (offset : ℕ) (hoffset : offset+2 ≤ 12) :
        numberAt (front++tail) offset 2 = numberAt front offset 2 := by
      rw [numberAt,take_drop_append (by omega)]
      rfl
    refine ⟨(List.replicate (n+1) rootRecord).flatten,List.replicate (n+1) 0,List.replicate (n+1) rootAnswer,
      ⟨?_,?_,?_,questionsAt_append hsection _,answersAt_rootRecords front (n+1)⟩,?_,?_⟩
    · rw [List.length_append]
      omega
    · rw [hnumber _ 4 (by decide),hquestions,List.length_append,List.length_singleton]
    · rw [hnumber _ 6 (by decide),hn,List.length_replicate]
    · intro pointers hmem
      rw [List.eq_of_mem_replicate hmem]
      exact Nat.zero_le _
    · have hskip := skipQuestions_eq (questionsTo_compressed (questionsAt_append hsection
        (List.replicate (n+1) rootRecord).flatten) hzero)
      rw [parseDnsResponse_eq query (by rw [List.length_append]; omega),hnumber _ 4 (by decide),
        hnumber _ 6 (by decide),hquestions,hn,hskip]
      exact parseAnswers_rootRecord front _ n

/-- A response with the questions `a` for A and, compressed, `a` for AAAA, and one answer. -/
def twoQuestions : List UInt8 :=
  [0,0,0x81,0x80,0,2,0,1,0,0,0,0,1,97,0,0,1,0,1,0xc0,12,0,28,0,1,0xc0,12,0,1,0,1,0,0,0,60,0,4,127,0,0,1]

def twoQuestionsAnswer : DnsAnswer := ⟨[97],.a,60,[127,0,0,1]⟩

theorem twoQuestions_wellFormed : WellFormed twoQuestions [0,1] [1] 25 [twoQuestionsAnswer] := by
  have hname : NameAt twoQuestions 12 [[97]] 15 0 := .label (n:=1) rfl (by decide) (by decide) rfl rfl (.root rfl)
  have hquestion : NameAt twoQuestions 19 [[97]] 21 1 := .pointer rfl rfl rfl rfl (by decide) hname
  have hanswer : NameAt twoQuestions 25 [[97]] 27 1 := .pointer rfl rfl rfl rfl (by decide) hname
  have hfields : FieldsAt twoQuestions 27 .a 60 [127,0,0,1] := ⟨by decide,by decide,by decide,by decide,rfl⟩
  exact ⟨by decide,by decide,by decide,.question hname (by decide) (.question hquestion (by decide) .none),
    .answer hanswer hfields .none⟩

/-- The answer is looked for at 26 instead of 25, where the second byte of its pointer is
taken for the length of a label. -/
theorem twoQuestions_garbled : WellFormed twoQuestions [0,1] [1] 25 [twoQuestionsAnswer] ∧
    parseDnsResponse twoQuestions sample = .error .trap := by
  refine ⟨twoQuestions_wellFormed,?_⟩
  have hsection : QuestionsAt twoQuestions ([0]++[0+1]) 12 25 := twoQuestions_wellFormed.questionSection
  have hskip := skipQuestions_eq (questionsTo_compressed hsection (by decide))
  have hname : NameAt twoQuestions 26 [[0,1,0,1,0,0,0,60,0,4,127,0]] 40 0 :=
    .label (n:=12) rfl (by decide) (by decide) rfl rfl (.root rfl)
  rw [parseDnsResponse_eq sample (by decide),twoQuestions_wellFormed.questions_eq,twoQuestions_wellFormed.answers_eq]
  refine (congrArg (Except.bind · _) hskip).trans ?_
  apply parseAnswers_trap (parseDomainName_name hname (by decide))
  rintro ⟨recordType,ttl,answerData,hfields⟩
  have hinside := hfields.inside
  have hlength : twoQuestions.length = 41 := rfl
  omega

/-- A response with the question `a` and one compressed answer. -/
def oneQuestion : List UInt8 :=
  [0,0,0x81,0x80,0,1,0,1,0,0,0,0,1,97,0,0,1,0,1,0xc0,12,0,1,0,1,0,0,0,60,0,4,127,0,0,1]

/-- It is read as it should be. The header and the questions of the response before can be
continued so that they are not. -/
theorem parseDnsResponse_answers_samples :
    parseDnsResponse oneQuestion sample = .ok [twoQuestionsAnswer] ∧
    ∃ tail names answers, WellFormed (twoQuestions.take 25++tail) [0,1] names 25 answers ∧
      (∀ pointers ∈ names, pointers ≤ 16) ∧ parseDnsResponse (twoQuestions.take 25++tail) sample = .error .trap := by
  have hname : NameAt oneQuestion 12 [[97]] 15 0 := .label (n:=1) rfl (by decide) (by decide) rfl rfl (.root rfl)
  have hanswer : NameAt oneQuestion 19 [[97]] 21 1 := .pointer rfl rfl rfl rfl (by decide) hname
  have hfields : FieldsAt oneQuestion 21 .a 60 [127,0,0,1] := ⟨by decide,by decide,by decide,by decide,rfl⟩
  have hwell : WellFormed oneQuestion [0] [1] 19 [twoQuestionsAnswer] :=
    ⟨by decide,by decide,by decide,.question hname (by decide) .none,.answer hanswer hfields .none⟩
  have hname' : NameAt (twoQuestions.take 25) 12 [[97]] 15 0 :=
    .label (n:=1) rfl (by decide) (by decide) rfl rfl (.root rfl)
  have hquestion : NameAt (twoQuestions.take 25) 19 [[97]] 21 1 := .pointer rfl rfl rfl rfl (by decide) hname'
  exact ⟨((parseDnsResponse_answers sample).1 oneQuestion [0] [1] 19 [twoQuestionsAnswer] hwell (by decide)).mpr
      (by decide),
    (parseDnsResponse_answers sample).2 (twoQuestions.take 25) [0] 0 (by decide) (by decide) (by decide)
      (.question hname' (by decide) (.question hquestion (by decide) .none)) (by decide)⟩

end ZNet.DnsAnswers
