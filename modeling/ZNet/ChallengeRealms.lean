import ZNet.AuthEngine

/-!
# Realms in challenges

`parse_challenge` cuts the parameters of a challenge at every comma and takes the quotes
off the values afterwards. A comma within quotes ends a parameter, and what follows it is
read as one of its own.
-/

namespace ZNet.ChallengeRealms
open TextScan Utf8Text AuthEngines

/-- A parameter of a challenge other than the realm: its name, the text between its quotes,
and the white space in front of it. -/
structure Param where
  gap : Str
  name : Str
  value : Str
  gap_space : ∀ c ∈ gap, isWhitespace c = true
  name_plain : ∀ c ∈ name, isWhitespace c = false ∧ c ≠ '=' ∧ c ≠ ','
  name_ne : name.map Char.toLower ≠ "realm".toList

def Param.text (p : Param) : Str := p.gap++(p.name++ '=':: '"'::(p.value++['"']))

/-- The challenge with the given realm and the parameters behind it. -/
def challengeText (realm : Str) (params : List Param) : Str :=
  "Basic realm=\"".toList++(realm++ '"'::params.flatMap fun p => ','::p.text)

/-- The realm that a part between commas stands for. -/
def realmOf (part : Str) : Option Str :=
  match splitOnce '=' (Utf8Text.trim part) with
  | some (k,v) =>
    if (Utf8Text.trim k).map Char.toLower = "realm".toList then some (trimMatches '"' (Utf8Text.trim v)) else none
  | none => none

/-- What the commas in the quoted value of a parameter cut off from it. -/
def Param.strayParts (p : Param) : List Str := ((p.value++['"']).splitOn ',').tail

section Loop

/-- A loop that keeps the last result there is. -/
theorem foldl_or {α β : Type} (f : α → Option β) (xs : List α) (found : Option β) :
    xs.foldl (fun found x => (f x).or found) found = (xs.filterMap f).getLast?.or found := by
  induction xs generalizing found with
  | nil => rfl
  | cons x xs ih =>
    rw [List.foldl_cons,ih]
    cases hx : f x with
    | none => rw [List.filterMap_cons_none hx,Option.none_or]
    | some y =>
      rw [List.filterMap_cons_some hx,List.getLast?_cons]
      cases (xs.filterMap f).getLast? <;> rfl

/-- The realm is that of the last part that stands for one. -/
theorem parseRealm_eq (rest : Str) : parseRealm rest = ((rest.splitOn ',').filterMap realmOf).getLast? := by
  have hloop := foldl_or realmOf (rest.splitOn ',') none
  rw [Option.or_none] at hloop
  rw [← hloop,parseRealm]
  congr 1
  funext realm raw
  rw [realmOf]
  cases splitOnce '=' (Utf8Text.trim raw) with
  | none => rfl
  | some kv =>
    simp only
    split <;> rfl

end Loop

section Parts

/-- A parameter is cut behind its name, whatever follows the equals sign. -/
theorem splitOnce_trim {gap name : Str} (hgap : ∀ c ∈ gap, isWhitespace c = true)
    (hname : ∀ c ∈ name, isWhitespace c = false ∧ c ≠ '=') (t : Str) :
    splitOnce '=' (Utf8Text.trim (gap++(name++ '='::t))) = some (name,t.rdropWhile isWhitespace) := by
  have hstart : trimStart (gap++(name++ '='::t)) = (name++['='])++t := by
    rw [trimStart,List.dropWhile_append_of_pos hgap]
    cases name with
    | nil => exact List.dropWhile_cons_of_neg (by decide)
    | cons c name =>
      rw [List.forall_mem_cons] at hname
      rw [List.cons_append,List.dropWhile_cons_of_neg (by simp [hname.1.1])]
      simp
  have htrim : Utf8Text.trim (gap++(name++ '='::t)) = name++ '='::t.rdropWhile isWhitespace := by
    rw [Utf8Text.trim,hstart,rdropWhile_append _ (by simp)]
    · simp
    · simp only [List.getLast?_concat,Option.mem_some_iff]
      rintro c rfl
      decide
  rw [htrim]
  exact splitOnce_append_cons (fun hmem => (hname _ hmem).2 rfl) _

theorem trimMatches_quoted {quote : Char} {text : Str} (h : quote ∉ text) :
    trimMatches quote (quote::(text++[quote])) = text := by
  have hplain : ∀ c ∈ text, (c == quote) = false := by
    intro c hc
    rw [beq_eq_false_iff_ne]
    rintro rfl
    exact h hc
  rw [trimMatches,List.dropWhile_cons_of_pos (by simp)]
  cases text with
  | nil => simp
  | cons c text =>
    rw [List.cons_append,List.dropWhile_cons_of_neg (by simpa using hplain c (by simp)),← List.cons_append,
      List.rdropWhile_concat_pos _ _ _ (by simp),List.rdropWhile_eq_self_iff]
    intro hne
    simpa using hplain _ (List.getLast_mem hne)

/-- The value of a realm parameter that is all in one part. -/
theorem realmOf_realm {realm : Str} (hquote : '"' ∉ realm) :
    realmOf ("realm=\"".toList++(realm++['"'])) = some realm := by
  have hcut : splitOnce '=' (Utf8Text.trim ("realm=\"".toList++(realm++['"']))) =
      some ("realm".toList,('"'::(realm++['"'])).rdropWhile isWhitespace) :=
    @splitOnce_trim [] "realm".toList (List.forall_mem_nil _)
      (List.all_iff_forall_prop.mp (by decide)) ('"'::(realm++['"']))
  have hlast : ∀ c ∈ ('"'::(realm++['"'])).getLast?, isWhitespace c = false := by
    rw [← List.cons_append,List.getLast?_concat]
    rintro c hc
    rw [← Option.some.inj hc]
    decide
  have hvalue : ('"'::(realm++['"'])).rdropWhile isWhitespace = '"'::(realm++['"']) := by
    rw [List.rdropWhile_eq_self_iff]
    intro hne
    simpa using hlast _ (List.getLast?_eq_some_getLast hne)
  have htrim : Utf8Text.trim ('"'::(realm++['"'])) = '"'::(realm++['"']) := by
    have hstart : trimStart ('"'::(realm++['"'])) = '"'::(realm++['"']) := List.dropWhile_cons_of_neg (by decide)
    rw [Utf8Text.trim,hstart,hvalue]
  rw [realmOf,hcut,hvalue]
  simp only [htrim,trimMatches_quoted hquote]
  rfl

/-- A parameter of another name stands for no realm. -/
theorem realmOf_param (p : Param) (t : Str) : realmOf (p.gap++(p.name++ '='::t)) = none := by
  have hname : Utf8Text.trim p.name = p.name := by
    have h := trim_plain (List.forall_mem_nil _) (List.forall_mem_nil _) fun c hc => (p.name_plain c hc).1
    rwa [List.append_nil,List.nil_append] at h
  rw [realmOf,splitOnce_trim p.gap_space fun c hc => ⟨(p.name_plain c hc).1,(p.name_plain c hc).2.1⟩]
  simp only [hname,if_neg p.name_ne]

theorem mem_of_mem_ends {p : Char → Bool} {s : Str} {c : Char} (hc : c ∈ (s.dropWhile p).rdropWhile p) : c ∈ s :=
  (List.dropWhile_suffix p).subset ((List.rdropWhile_prefix p _).subset hc)

/-- A realm has only characters of its part. -/
theorem mem_of_realmOf {part realm : Str} (h : realmOf part = some realm) : ∀ c ∈ realm, c ∈ part := by
  rw [realmOf] at h
  split at h
  · rename_i k v hcut
    rw [Option.ite_none_right_eq_some,Option.some.injEq] at h
    rw [splitOnce,Option.ite_none_right_eq_some,Option.some.injEq,Prod.mk.injEq] at hcut
    obtain ⟨-,rfl⟩ := h
    obtain ⟨-,-,rfl⟩ := hcut
    intro c hc
    have hvalue := mem_of_mem_ends (mem_of_mem_ends hc)
    exact mem_of_mem_ends ((List.dropWhile_suffix _).subset (List.mem_of_mem_drop hvalue))
  · cases h

theorem splitOn_append {c : Char} {front : Str} (h : c ∉ front) (t : Str) :
    (front++t).splitOn c = (t.splitOn c).modifyHead (front++·) := by
  induction front with
  | nil =>
    rw [List.nil_append]
    cases t.splitOn c <;> rfl
  | cons d front ih =>
    rw [List.mem_cons,not_or] at h
    rw [List.cons_append,List.splitOn_cons_eq_if_modifyHead,if_neg (by simpa using Ne.symm h.1),ih h.2]
    cases t.splitOn c <;> rfl

/-- Of the parts of a parameter only those can stand for a realm that a comma in its value
cuts off. -/
theorem filterMap_param (p : Param) :
    (p.text.splitOn ',').filterMap realmOf = p.strayParts.filterMap realmOf := by
  have hcomma : ',' ∉ p.gap++(p.name++['=','"']) := by
    simp only [List.mem_append,not_or]
    refine ⟨fun hmem => ?_,fun hmem => (p.name_plain _ hmem).2.2 rfl,by decide⟩
    exact absurd (p.gap_space _ hmem) (by decide)
  have htext : p.text = p.gap++(p.name++['=','"'])++(p.value++['"']) := by simp [Param.text]
  rw [htext,splitOn_append hcomma,Param.strayParts]
  cases hparts : (p.value++['"']).splitOn ',' with
  | nil => rfl
  | cons first parts =>
    have hfirst := realmOf_param p ('"'::first)
    rw [List.modifyHead_cons,List.filterMap_cons_none,List.tail_cons]
    simpa using hfirst

theorem filterMap_params (s : Str) (params : List Param) :
    ((s++params.flatMap fun p => ','::p.text).splitOn ',').filterMap realmOf =
      (s.splitOn ',').filterMap realmOf++(params.flatMap Param.strayParts).filterMap realmOf := by
  induction params generalizing s with
  | nil => simp
  | cons p params ih =>
    rw [List.flatMap_cons,List.cons_append,List.splitOn_append_cons_self,List.filterMap_append,ih,filterMap_param,
      List.flatMap_cons,List.filterMap_append]

end Parts

/-- No realm that is found has a comma. -/
theorem comma_not_mem {rest realm : Str} (h : parseRealm rest = some realm) : ',' ∉ realm := by
  rw [parseRealm_eq] at h
  obtain ⟨part,hpart,hrealm⟩ := List.mem_filterMap.mp (List.mem_of_getLast? h)
  intro hcomma
  exact absurd (mem_splitOnP hpart _ (mem_of_realmOf hrealm _ hcomma)) (by decide)

section Challenge

/-- What follows the scheme. -/
def paramsText (realm : Str) (params : List Param) : Str :=
  "realm=\"".toList++(realm++['"'])++params.flatMap fun p => ','::p.text

theorem paramsText_eq (realm : Str) (params : List Param) : paramsText realm params =
    "realm=\"".toList++(realm++['"'])++params.flatMap fun p => ','::p.text := rfl

theorem challengeText_eq (realm : Str) (params : List Param) :
    challengeText realm params = "Basic".toList++ ' '::paramsText realm params := by
  have hscheme : "Basic realm=\"".toList = "Basic".toList++ ' '::"realm=\"".toList := by decide
  have htext : challengeText realm params =
      "Basic realm=\"".toList++(realm++ '"'::params.flatMap fun p => ','::p.text) := rfl
  rw [htext,hscheme,paramsText_eq]
  simp only [List.append_assoc,List.cons_append,List.nil_append]

theorem paramsText_last (realm : Str) (params : List Param) :
    ∃ front, paramsText realm params = front++['"'] := by
  induction params using List.reverseRecOn with
  | nil =>
    refine ⟨"realm=\"".toList++realm,?_⟩
    rw [paramsText_eq,List.flatMap_nil,List.append_nil,List.append_assoc]
  | append_singleton params p _ =>
    refine ⟨"realm=\"".toList++(realm++['"'])++(params.flatMap fun p => ','::p.text)++
      ','::(p.gap++(p.name++ '=':: '"'::p.value)),?_⟩
    rw [paramsText_eq]
    simp only [Param.text,List.flatMap_append,List.flatMap_singleton,List.append_assoc,List.cons_append]

theorem parseChallenge_realm (base64 : Base64) (header : AuthHeader) (realm : Str) (params : List Param) :
    (parseChallenge base64 header (challengeText realm params)).bind (·.realm) =
      parseRealm (paramsText realm params) := by
  have htrim : Utf8Text.trim (challengeText realm params) = challengeText realm params := by
    obtain ⟨front,hfront⟩ := paramsText_last realm params
    have h := trim_spaces (s:=challengeText realm params) (List.forall_mem_nil _) (List.forall_mem_nil _)
    rw [List.append_nil,List.nil_append] at h
    apply h
    · have hhead : (challengeText realm params).head? = some 'B' := by
        rw [challengeText_eq,List.head?_append_of_ne_nil _ (by decide)]
        decide
      rw [hhead]
      intro c hc
      obtain rfl : 'B' = c := Option.some.inj hc
      decide
    · rw [challengeText_eq,hfront,← List.cons_append,← List.append_assoc,List.getLast?_concat]
      intro c hc
      obtain rfl : '"' = c := Option.some.inj hc
      decide
    · rw [challengeText_eq]
      simp
  have hword : ∀ c ∈ "Basic".toList, isWhitespace c = false := List.all_iff_forall_prop.mp (by decide)
  have hsplit : splitWhitespaceOnce (challengeText realm params) = ("Basic".toList,paramsText realm params) := by
    rw [challengeText_eq]
    exact splitWhitespaceOnce_append_cons hword (by decide) _
  rw [parseChallenge,htrim,hsplit]
  rfl

end Challenge

/-- The realm of a challenge is returned as it was written exactly if there is no comma in
it, and no comma in the value of another parameter is followed by what reads as another
realm. Of several such pieces the last one counts. -/
theorem parseChallenge_realm_iff (base64 : Base64) (header : AuthHeader) (realm : Str) (params : List Param)
    (hquote : '"' ∉ realm) :
    (parseChallenge base64 header (challengeText realm params)).bind (·.realm) = some realm ↔
      ',' ∉ realm ∧ ∀ stray ∈ ((params.flatMap Param.strayParts).filterMap realmOf).getLast?, stray = realm := by
  rw [parseChallenge_realm]
  by_cases hcomma : ',' ∈ realm
  · exact iff_of_false (fun h => comma_not_mem h hcomma) fun h => h.1 hcomma
  · have hparts : ("realm=\"".toList++(realm++['"'])).splitOn ',' = ["realm=\"".toList++(realm++['"'])] := by
      apply List.splitOn_eq_singleton
      simp only [List.mem_append,not_or]
      exact ⟨by decide,hcomma,by decide⟩
    rw [parseRealm_eq,paramsText_eq,filterMap_params,hparts,List.filterMap_cons_some (realmOf_realm hquote),
      List.filterMap_nil,List.singleton_append,List.getLast?_cons]
    cases ((params.flatMap Param.strayParts).filterMap realmOf).getLast? <;> simp [hcomma]

/-- A library that decodes nothing. -/
def noBase64 : Base64 := ⟨fun _ => [],fun _ => none⟩

/-- `charset="UTF-8"` after a comma and two spaces. -/
def charset : Param :=
  ⟨[' ',' '],"charset".toList,"UTF-8".toList,List.all_iff_forall_prop.mp (by decide),
    List.all_iff_forall_prop.mp (by decide),by decide⟩

theorem parseChallenge_realm_iff_wally :
    (parseChallenge noBase64 .authorization (challengeText "Wally World".toList [charset])).bind (·.realm) =
      some "Wally World".toList :=
  (parseChallenge_realm_iff noBase64 .authorization "Wally World".toList [charset] (by decide)).mpr (by decide)

/-- The realm `a,b` is cut at its comma. -/
theorem realm_cut :
    (parseChallenge noBase64 .authorization (challengeText "a,b".toList [])).bind (·.realm) = some "a".toList ∧
    (parseChallenge noBase64 .authorization (challengeText "a,b".toList [])).bind (·.realm) ≠ some "a,b".toList := by
  have hcut : parseRealm (paramsText "a,b".toList []) = some "a".toList := by decide
  rw [parseChallenge_realm,hcut]
  exact ⟨rfl,by decide⟩

end ZNet.ChallengeRealms
