import ZNet.SecurityHeaders
import ZNet.InlineScripts

/-!
# Generated policies

A policy is written under the names of the tags, which have underscores where the names of
directives have hyphens. The validator of this program finds in the header everything that
was given, and nothing of it under the names that it looks for.
-/

namespace ZNet.SecurityHeaders
open TextScan Tables Policy Hsts Runs Origins

structure DirectiveCall where
  directive : CspDirective
  sources : List Str

def policyStep (csp : ContentSecurityPolicy) (call : DirectiveCall) : ContentSecurityPolicy :=
  csp.addDirective call.directive call.sources

/-- The sources that were given last. -/
def given (calls : List DirectiveCall) (directive : CspDirective) : Option (List Str) :=
  (calls.reverse.find? fun call => call.directive = directive).map DirectiveCall.sources

/-- What the validator cuts off from a directive. -/
def margins : Str := ascii [' ','\t','\r','\n']

/-- A word has nothing in it at which a header is cut. -/
def Bare (word : Str) : Prop := ∀ b ∈ word, b ≠ 0x3b ∧ b ∉ margins

section Directives

variable {directives : List (Str×List CspSource)} {name other : Str} {sources : List CspSource}

def sourcesOf (name : Str) (directives : List (Str×List CspSource)) : Option (List CspSource) :=
  (directives.find? fun directive => directive.1 == name).map Prod.snd

theorem sourcesOf_put (name other : Str) (sources : List CspSource) (directives : List (Str×List CspSource)) :
    sourcesOf other (putDirective name sources directives) =
      if other = name then some sources else sourcesOf other directives := by
  induction directives with
  | nil =>
    rw [putDirective,sourcesOf]
    split_ifs with h
    · simp [h]
    · simp [sourcesOf,Ne.symm h]
  | cons directive directives ih =>
    rw [putDirective]
    simp only [sourcesOf] at ih ⊢
    split_ifs with hfirst h h
    · simp [h]
    · simp [hfirst,Ne.symm h]
    · subst h
      simpa [hfirst] using ih
    · by_cases hother : directive.1 = other
      · simp [hother]
      · simpa [hother,h] using ih

theorem mem_putDirective {directive : Str×List CspSource} (h : directive ∈ putDirective name sources directives) :
    directive = (name,sources) ∨ directive ∈ directives := by
  induction directives with
  | nil => exact .inl (List.mem_singleton.mp h)
  | cons first directives ih =>
    rw [putDirective] at h
    split_ifs at h
    · exact (List.mem_cons.mp h).imp_right (List.mem_cons_of_mem _)
    · rcases List.mem_cons.mp h with rfl | h
      · exact .inr List.mem_cons_self
      · exact (ih h).imp_right (List.mem_cons_of_mem _)

theorem sourcesOf_isSome : (sourcesOf name directives).isSome = true ↔ name ∈ directives.map Prod.fst := by
  simp [sourcesOf]

/-- A name is added at the end unless it is there. -/
theorem putDirective_names (name : Str) (sources : List CspSource) (directives : List (Str×List CspSource)) :
    (putDirective name sources directives).map Prod.fst =
      if name ∈ directives.map Prod.fst then directives.map Prod.fst else directives.map Prod.fst++[name] := by
  induction directives with
  | nil => rfl
  | cons directive directives ih =>
    rw [putDirective]
    by_cases hfirst : directive.1 = name
    · simp [hfirst]
    · rw [if_neg hfirst,List.map_cons,ih]
      by_cases hmem : name ∈ directives.map Prod.fst
      · simp only [hmem,List.map_cons,List.mem_cons,or_true,if_true]
      · simp only [hmem,List.map_cons,List.mem_cons,Ne.symm hfirst,or_self,if_false,List.cons_append]

theorem putDirective_nodup (h : (directives.map Prod.fst).Nodup) :
    ((putDirective name sources directives).map Prod.fst).Nodup := by
  rw [putDirective_names]
  split_ifs with hmem
  · exact h
  · rw [← List.concat_eq_append]
    exact h.concat hmem

theorem putDirective_ne_nil : putDirective name sources directives ≠ [] := by
  cases directives with
  | nil => exact List.cons_ne_nil _ _
  | cons first directives =>
    rw [putDirective]
    split_ifs
    · exact List.cons_ne_nil _ _
    · exact List.cons_ne_nil _ _

end Directives

section Texts

variable {name : Str} {cut : Str} {words : List Str}

/-- A name in front of a blank is found again, whatever is cut off at the end. -/
theorem name_found (hname : ∀ b ∈ name, b ≠ 0x20 ∧ b ∉ cut) (hne : name ≠ []) (rest : Str) :
    (trim cut (name++0x20::rest)).take (((trim cut (name++0x20::rest)).idxOf? 0x20).getD
      (trim cut (name++0x20::rest)).length) = name ∧
    (trim cut (name++0x20::rest)).drop (((trim cut (name++0x20::rest)).idxOf? 0x20).getD
      (trim cut (name++0x20::rest)).length+1) = ((0x20::rest).rdropWhile (· ∈ cut)).drop 1 := by
  have hnone : (0x20 : UInt8) ∉ name := fun h => (hname _ h).1 rfl
  have htrim : trim cut (name++0x20::rest) = name++(0x20::rest).rdropWhile (· ∈ cut) := by
    apply trim_append
    · exact fun b hb => (hname b (List.mem_of_mem_head? hb)).2
    · exact fun b hb => (hname b (List.mem_of_getLast? hb)).2
    · exact hne
  rw [htrim]
  cases hend : (0x20::rest).rdropWhile (· ∈ cut) with
  | nil =>
    have hindex : name.idxOf? 0x20 = none := List.idxOf?_eq_none_iff.mpr hnone
    rw [List.append_nil,hindex,Option.getD_none,List.take_length]
    exact ⟨rfl,by simp⟩
  | cons b z =>
    have hb : b = 0x20 := by
      have hstart := List.rdropWhile_prefix (p:=fun b => decide (b ∈ cut)) (l:=0x20::rest)
      rw [hend] at hstart
      exact (List.cons_prefix_cons.mp hstart).1
    rw [hb,idxOf?_append_cons hnone,Option.getD_some]
    simp

theorem words_join (h : ∀ word ∈ words, ∀ b ∈ word, b ≠ 0x20) :
    tokenizeAny isBlank ((text " ").intercalate words) = words.filter fun word => !word.isEmpty := by
  have hword {word : Str} (hbytes : ∀ b ∈ word, b ≠ 0x20) :
      tokenizeAny isBlank word = [word].filter fun word => !word.isEmpty := by
    cases word with
    | nil => exact tokenizeAny_nil
    | cons b word => exact tokenizeAny_word (by simpa [isBlank] using hbytes) (List.cons_ne_nil b word)
  induction words with
  | nil => exact tokenizeAny_nil
  | cons word words ih =>
    obtain ⟨hfirst,hrest⟩ := List.forall_mem_cons.mp h
    cases words with
    | nil =>
      rw [List.intercalate_singleton]
      exact hword hfirst
    | cons next words =>
      have hsep : word++text " "++(text " ").intercalate (next::words) =
          word++0x20::(text " ").intercalate (next::words) := List.append_assoc ..
      rw [List.intercalate_cons_cons,hsep,tokenizeAny_append_cons _ _ rfl,hword hfirst,ih hrest]
      exact (List.filter_append [word] (next::words)).symm

/-- Blanks that are cut off at the end are of no importance. -/
theorem tokens_rdropWhile {s : Str} (h : ∀ b ∈ s, b ∈ cut → b = 0x20) :
    tokenizeAny isBlank (s.rdropWhile (· ∈ cut)) = tokenizeAny isBlank s := by
  induction s using List.reverseRecOn with
  | nil => rfl
  | append_singleton s b ih =>
    rw [List.rdropWhile_concat]
    split_ifs with hb
    · have hblank : b = 0x20 := h b (by simp) (by simpa using hb)
      rw [ih fun c hc => h c (List.mem_append_left _ hc),hblank,tokenizeAny_append_cons s [] rfl,tokenizeAny_nil,
        List.append_nil]
    · rfl

theorem filter_map_trim (cut : Str) (pieces : List Str) : (pieces.map (trim cut)).filter (fun word => !word.isEmpty) =
    ((pieces.filter fun word => !word.isEmpty).map (trim cut)).filter fun word => !word.isEmpty := by
  induction pieces with
  | nil => rfl
  | cons piece pieces ih =>
    cases piece with
    | nil => simpa [trim] using ih
    | cons b piece => simp [List.filter_cons,ih]

theorem margins_blank {b : UInt8} (h : b ≠ 0x3b ∧ b ∉ margins) : b ≠ 0x20 := by
  rintro rfl
  exact h.2 List.mem_cons_self

theorem mem_join {b : UInt8} (h : b ∈ (text " ").intercalate words) : b = 0x20 ∨ ∃ word ∈ words, b ∈ word := by
  induction words with
  | nil => cases h
  | cons word words ih =>
    cases words with
    | nil =>
      rw [List.intercalate_singleton] at h
      exact .inr ⟨word,List.mem_cons_self,h⟩
    | cons next words =>
      rw [List.intercalate_cons_cons,List.mem_append,List.mem_append] at h
      rcases h with (h | h) | h
      · exact .inr ⟨word,List.mem_cons_self,h⟩
      · exact .inl (List.mem_singleton.mp h)
      · exact (ih h).imp_right fun ⟨other,hother,hb⟩ => ⟨other,List.mem_cons_of_mem _ hother,hb⟩

theorem blanks_margins {b : UInt8} (h : b ∈ blanks) : b ∈ margins := List.mem_append_left (ascii ['\r','\n']) h

theorem Bare.trim {word : Str} (h : Bare word) : TextScan.trim blanks word = word := by
  apply trim_eq_self
  exact fun b hb hmem => (h b hb).2 (blanks_margins hmem)

/-- A directive is read with its name and its words. -/
theorem part_read (hname : ∀ b ∈ name, b ≠ 0x20 ∧ b ∉ margins) (hne : name ≠ []) (hbare : ∀ word ∈ words, Bare word) :
    directiveName (trim margins (name++0x20::(text " ").intercalate words)) = name ∧
    sourceWords (trim margins (name++0x20::(text " ").intercalate words)) = words.filter fun word => !word.isEmpty := by
  obtain ⟨hfound,hrest⟩ := name_found hname hne ((text " ").intercalate words)
  refine ⟨hfound,?_⟩
  have hbytes : ∀ b ∈ 0x20::(text " ").intercalate words, b ∈ margins → b = 0x20 := by
    intro b hb hmargin
    rcases List.mem_cons.mp hb with rfl | hb
    · rfl
    · rcases mem_join hb with hblank | ⟨word,hword,hmem⟩
      · exact hblank
      · exact ((hbare word hword b hmem).2 hmargin).elim
  have htokens : tokenizeAny isBlank (((0x20::(text " ").intercalate words).rdropWhile (· ∈ margins)).drop 1) =
      words.filter fun word => !word.isEmpty := by
    have hall := tokens_rdropWhile hbytes
    rw [tokenizeAny_cons _ rfl,words_join fun word hword b hb => margins_blank (hbare word hword b hb)] at hall
    rw [← hall]
    cases hend : (0x20::(text " ").intercalate words).rdropWhile (· ∈ margins) with
    | nil => rfl
    | cons b z =>
      have hstart := List.rdropWhile_prefix (p:=fun b => decide (b ∈ margins)) (l:=0x20::(text " ").intercalate words)
      rw [hend] at hstart
      rw [(List.cons_prefix_cons.mp hstart).1,tokenizeAny_cons z rfl]
      rfl
  rw [sourceWords,hrest,filter_map_trim]
  change ((tokenizeAny isBlank _).map _).filter _ = _
  have htrim : (words.filter fun word => !word.isEmpty).map (trim blanks) =
      words.filter fun word => !word.isEmpty := by
    refine (List.map_congr_left fun word hword => ?_).trans (List.map_id _)
    exact (hbare word (List.mem_filter.mp hword).1).trim
  have hkept : (words.filter fun word => !word.isEmpty).filter (fun word => !word.isEmpty) =
      words.filter fun word => !word.isEmpty :=
    List.filter_eq_self.mpr fun word hword => (List.mem_filter.mp hword).2
  rw [htokens]
  exact (congrArg _ htrim).trans hkept

end Texts

section Runs

variable {csp : ContentSecurityPolicy} {calls : List DirectiveCall} {tag other : CspDirective}

def CspDirective.all : List CspDirective :=
  [.defaultSrc,.scriptSrc,.styleSrc,.imgSrc,.connectSrc,.fontSrc,.objectSrc,.mediaSrc,.frameSrc,.workerSrc,.childSrc,
   .manifestSrc,.baseUri,.formAction,.frameAncestors,.upgradeInsecureRequests,.blockAllMixedContent,
   .requireTrustedTypesFor]

theorem find_tagName (tag : CspDirective) : (CspDirective.all.find? fun other => other.tagName == tag.tagName) = some tag := by
  cases tag <;> rfl

theorem tagName_inj : tag.tagName = other.tagName ↔ tag = other := by
  refine ⟨fun h => ?_,congrArg _⟩
  have htag := find_tagName tag
  rw [h,find_tagName] at htag
  exact (Option.some.inj htag).symm

/-- A tag has small letters and underscores. -/
theorem tagName_bytes (tag : CspDirective) : tag.tagName ≠ [] ∧ ∀ b ∈ tag.tagName, 0x5f ≤ b := by
  have hall : (!tag.tagName.isEmpty && tag.tagName.all fun b => decide (0x5f ≤ b)) = true := by
    cases tag <;> rfl
  rw [Bool.and_eq_true,List.all_eq_true] at hall
  exact ⟨by simpa using hall.1,fun b hb => by simpa using hall.2 b hb⟩

theorem hyphen_le (tag : CspDirective) : ∀ b ∈ tag.tagName, 0x2d ≤ b := by
  have hhyphen : (0x2d : UInt8) ≤ 0x5f := by decide
  exact fun b hb => UInt8.le_trans hhyphen ((tagName_bytes tag).2 b hb)

/-- No semicolon and no hyphen is in a tag. -/
theorem tagName_notMem (tag : CspDirective) : 0x3b ∉ tag.tagName ∧ 0x2d ∉ tag.tagName :=
  ⟨fun h => absurd ((tagName_bytes tag).2 _ h) (by decide),fun h => absurd ((tagName_bytes tag).2 _ h) (by decide)⟩

/-- The directives are those that were given, each with the sources that were given last. -/
structure Written (csp : ContentSecurityPolicy) (calls : List DirectiveCall) : Prop where
  tags : ∀ directive ∈ csp.directives, ∃ tag : CspDirective, directive.1 = tag.tagName
  words : ∀ directive ∈ csp.directives, ∃ call ∈ calls, directive.2.map CspSource.value = call.sources
  last : ∀ tag : CspDirective,
    (sourcesOf tag.tagName csp.directives).map (List.map CspSource.value) = given calls tag
  empty : csp.directives = [] ↔ calls = []
  nodup : (csp.directives.map Prod.fst).Nodup

theorem parse_value_map (sources : List Str) : (sources.map CspSource.parse).map CspSource.value = sources := by
  have hvalue (source : Str) : (CspSource.parse source).value = source := by
    rw [CspSource.parse]
    split_ifs <;> rfl
  rw [List.map_map]
  exact (List.map_congr_left fun source _ => hvalue source).trans (List.map_id _)

theorem given_concat (calls : List DirectiveCall) (call : DirectiveCall) (tag : CspDirective) :
    given (calls++[call]) tag = if tag = call.directive then some call.sources else given calls tag := by
  rw [given,List.reverse_append,List.reverse_singleton,List.singleton_append,List.find?_cons]
  by_cases h : tag = call.directive
  · simp [h]
  · simp [h,Ne.symm h,given]

theorem Written.step (h : Written csp calls) (call : DirectiveCall) : Written (policyStep csp call) (calls++[call]) := by
  constructor
  · intro directive hmem
    rcases mem_putDirective hmem with rfl | hmem
    · exact ⟨call.directive,rfl⟩
    · exact h.tags directive hmem
  · intro directive hmem
    rcases mem_putDirective hmem with rfl | hmem
    · exact ⟨call,List.mem_append_right _ (List.mem_singleton_self _),parse_value_map _⟩
    · obtain ⟨before,hbefore,hwords⟩ := h.words directive hmem
      exact ⟨before,List.mem_append_left _ hbefore,hwords⟩
  · intro tag
    rw [given_concat,← h.last tag]
    change (sourcesOf tag.tagName (putDirective _ _ _)).map _ = _
    rw [sourcesOf_put]
    simp only [tagName_inj]
    split_ifs
    · rw [Option.map_some,parse_value_map]
    · rfl
  · exact iff_of_false putDirective_ne_nil (by simp)
  · exact putDirective_nodup h.nodup

theorem CspDirective.mem_all (tag : CspDirective) : tag ∈ CspDirective.all :=
  List.mem_of_find?_eq_some (find_tagName tag)

/-- There is one directive for each tag that was given. -/
theorem Written.names (h : Written csp calls) : (csp.directives.map Prod.fst).Perm
    ((CspDirective.all.filter fun tag => (given calls tag).isSome).map CspDirective.tagName) := by
  have hall : CspDirective.all.Nodup := by decide
  have htags : ((CspDirective.all.filter fun tag => (given calls tag).isSome).map CspDirective.tagName).Nodup :=
    (hall.filter _).map fun _ _ => tagName_inj.mp
  refine (List.perm_ext_iff_of_nodup h.nodup htags).mpr fun name => ?_
  have hgiven : ∀ tag : CspDirective, (given calls tag).isSome = true ↔ tag.tagName ∈ csp.directives.map Prod.fst := by
    intro tag
    rw [← h.last tag,Option.isSome_map,sourcesOf_isSome]
  constructor
  · intro hname
    obtain ⟨directive,hdirective,rfl⟩ := List.mem_map.mp hname
    obtain ⟨tag,htag⟩ := h.tags directive hdirective
    rw [htag] at hname ⊢
    exact List.mem_map_of_mem (List.mem_filter.mpr ⟨tag.mem_all,(hgiven tag).mpr hname⟩)
  · intro hname
    obtain ⟨tag,htag,rfl⟩ := List.mem_map.mp hname
    exact (hgiven tag).mp (List.mem_filter.mp htag).2

theorem written_run (reportOnly : Bool) (reportUri : Option Str) (calls : List DirectiveCall) :
    Written (run policyStep ⟨[],reportOnly,reportUri⟩ calls) calls := by
  induction calls using List.reverseRecOn with
  | nil =>
    exact ⟨fun _ h => (List.not_mem_nil h).elim,fun _ h => (List.not_mem_nil h).elim,fun _ => rfl,iff_of_true rfl rfl,
      List.nodup_nil⟩
  | append_singleton calls call ih =>
    rw [run_concat]
    exact ih.step call

theorem reportUri_run (reportOnly : Bool) (reportUri : Option Str) (calls : List DirectiveCall) :
    (run policyStep ⟨[],reportOnly,reportUri⟩ calls).reportUri = reportUri := by
  have hstep : ∀ csp call, csp.reportUri = reportUri → (policyStep csp call).reportUri = reportUri := fun _ _ h => h
  exact run_inv hstep rfl calls

end Runs

def reportName : Str := text "report-uri"

/-- The names and the words behind them that the header is made of. -/
def ContentSecurityPolicy.entries (csp : ContentSecurityPolicy) : List (Str×List Str) :=
  csp.directives.map (fun directive => (directive.1,directive.2.map CspSource.value))++
    csp.reportUri.toList.map fun uri => (reportName,[uri])

def entryText (entry : Str×List Str) : Str := entry.1++0x20::(text " ").intercalate entry.2

/-- What the header is joined of. There is a blank in front of the last name. -/
def ContentSecurityPolicy.texts (csp : ContentSecurityPolicy) : List Str :=
  csp.directives.map directiveText++csp.reportUri.toList.map fun uri => 0x20::entryText (reportName,[uri])

section Headers

variable {csp : ContentSecurityPolicy} {calls : List DirectiveCall} {parts : List Str} {entry : Str×List Str}
  {l : List (Str×List Str)} {tag : CspDirective} {name : Str}

/-- An entry that is found in the header again. -/
structure Readable (entry : Str×List Str) : Prop where
  name : ∀ b ∈ entry.1, b ≠ 0x20 ∧ b ∉ margins
  plain : 0x3b ∉ entry.1
  ne_nil : entry.1 ≠ []
  words : ∀ word ∈ entry.2, Bare word

theorem Readable.semicolon (h : Readable entry) : 0x3b ∉ entryText entry := by
  rw [entryText,List.mem_append,List.mem_cons,not_or,not_or]
  refine ⟨h.plain,by decide,fun hmem => ?_⟩
  rcases mem_join hmem with hblank | ⟨word,hword,hb⟩
  · exact absurd hblank (by decide)
  · exact (h.words word hword 0x3b hb).1 rfl

theorem Readable.read (h : Readable entry) : directiveName (trim margins (entryText entry)) = entry.1 ∧
    sourceWords (trim margins (entryText entry)) = entry.2.filter fun word => !word.isEmpty :=
  part_read h.name h.ne_nil h.words

/-- A header is cut into the parts that it was joined of. -/
theorem directiveParts_join (h : ∀ part ∈ parts, 0x3b ∉ part) : directiveParts (joinParts parts) =
    (parts.map (trim margins)).filter fun part => !part.isEmpty := by
  cases parts with
  | nil => rfl
  | cons part parts =>
    obtain ⟨hfirst,hrest⟩ := List.forall_mem_cons.mp h
    rw [directiveParts,joinParts,splitOnP_flatMap hfirst hrest]
    rfl

theorem generateHeaderValue_eq (csp : ContentSecurityPolicy) :
    csp.generateHeaderValue = joinParts csp.texts ∨ csp.generateHeaderValue = joinParts ([]::csp.texts) := by
  rw [ContentSecurityPolicy.generateHeaderValue,ContentSecurityPolicy.texts]
  cases csp.reportUri with
  | none =>
    left
    simp
  | some uri =>
    have hreport : text "; report-uri "++uri = 0x3b::0x20::entryText (reportName,[uri]) := by
      rw [entryText,List.intercalate_singleton]
      rfl
    simp only [Option.elim_some,Option.toList_some,List.map_cons,List.map_nil,hreport]
    cases csp.directives with
    | nil =>
      right
      simp [joinParts]
    | cons directive directives =>
      left
      simp [joinParts,List.flatMap_append]

theorem texts_trim (csp : ContentSecurityPolicy) :
    csp.texts.map (trim margins) = csp.entries.map fun entry => trim margins (entryText entry) := by
  rw [ContentSecurityPolicy.texts,ContentSecurityPolicy.entries,List.map_append,List.map_append,List.map_map,
    List.map_map,List.map_map,List.map_map]
  congr 1

theorem directiveParts_value (h : ∀ entry ∈ csp.entries, Readable entry) :
    directiveParts csp.generateHeaderValue = csp.entries.map fun entry => trim margins (entryText entry) := by
  have hsemi : ∀ part ∈ csp.texts, 0x3b ∉ part := by
    intro part hpart
    rcases List.mem_append.mp hpart with hpart | hpart
    · obtain ⟨directive,hdirective,rfl⟩ := List.mem_map.mp hpart
      exact (h _ (List.mem_append_left _ (List.mem_map_of_mem hdirective))).semicolon
    · obtain ⟨uri,huri,rfl⟩ := List.mem_map.mp hpart
      rw [List.mem_cons,not_or]
      exact ⟨by decide,(h _ (List.mem_append_right _ (List.mem_map_of_mem huri))).semicolon⟩
  have hkept : ((csp.texts.map (trim margins)).filter fun part => !part.isEmpty) =
      csp.entries.map fun entry => trim margins (entryText entry) := by
    rw [texts_trim,List.filter_eq_self]
    intro part hpart
    obtain ⟨entry,hentry,rfl⟩ := List.mem_map.mp hpart
    have hread := (h entry hentry).read.1
    cases htrim : trim margins (entryText entry) with
    | nil =>
      rw [htrim] at hread
      exact ((h entry hentry).ne_nil hread.symm).elim
    | cons b part => rfl
  rcases generateHeaderValue_eq csp with hvalue | hvalue
  · rw [hvalue,directiveParts_join hsemi,hkept]
  · rw [hvalue,directiveParts_join (List.forall_mem_cons.mpr ⟨List.not_mem_nil,hsemi⟩)]
    exact hkept

/-- What is found under a name. -/
theorem find_parts (h : ∀ entry ∈ l, Readable entry) (name : Str) :
    ((l.map fun entry => trim margins (entryText entry)).find? fun part => directiveName part == name).map sourceWords =
      (l.find? fun entry => entry.1 == name).map fun entry => entry.2.filter fun word => !word.isEmpty := by
  induction l with
  | nil => rfl
  | cons entry l ih =>
    obtain ⟨hfirst,hrest⟩ := List.forall_mem_cons.mp h
    rw [List.map_cons,List.find?_cons,List.find?_cons,hfirst.read.1]
    cases entry.1 == name with
    | true => exact congrArg some hfirst.read.2
    | false => exact ih hrest

/-- What is cut off comes before the hyphen. -/
theorem above_margins {b : UInt8} (h : 0x2d ≤ b) : b ≠ 0x20 ∧ b ∉ margins := by
  have hall : (margins.all fun c => !decide (0x2d ≤ c)) = true := rfl
  have hmargin : b ∉ margins := fun hmem => by simpa [h] using List.all_eq_true.mp hall b hmem
  refine ⟨?_,hmargin⟩
  rintro rfl
  exact hmargin List.mem_cons_self

theorem readable_tag {words : List Str} (tag : CspDirective) (h : ∀ word ∈ words, Bare word) :
    Readable (tag.tagName,words) :=
  ⟨fun b hb => above_margins (hyphen_le tag b hb),(tagName_notMem tag).1,(tagName_bytes tag).1,h⟩

theorem reportName_bytes : reportName ≠ [] ∧ (0x3b ∉ reportName) ∧ ∀ b ∈ reportName, 0x2d ≤ b := by
  decide +kernel

theorem readable_report {uri : Str} (h : Bare uri) : Readable (reportName,[uri]) := by
  obtain ⟨hne,hplain,hbytes⟩ := reportName_bytes
  refine ⟨fun b hb => above_margins (hbytes b hb),hplain,hne,fun word hword => ?_⟩
  rwa [List.mem_singleton.mp hword]

theorem hyphen_mem : 0x2d ∈ reportName := by decide

/-- A policy whose sources and address have nothing at which a header is cut. -/
structure BarePolicy (calls : List DirectiveCall) (reportUri : Option Str) : Prop where
  sources : ∀ call ∈ calls, ∀ source ∈ call.sources, Bare source
  uri : ∀ uri ∈ reportUri, Bare uri

theorem Written.readable (h : Written csp calls) (hbare : BarePolicy calls csp.reportUri) :
    ∀ entry ∈ csp.entries, Readable entry := by
  intro entry hentry
  rcases List.mem_append.mp hentry with hentry | hentry
  · obtain ⟨directive,hdirective,rfl⟩ := List.mem_map.mp hentry
    obtain ⟨tag,htag⟩ := h.tags directive hdirective
    obtain ⟨call,hcall,hwords⟩ := h.words directive hdirective
    rw [htag,hwords]
    exact readable_tag tag (hbare.sources call hcall)
  · obtain ⟨uri,huri,rfl⟩ := List.mem_map.mp hentry
    exact readable_report (hbare.uri uri (by simpa using huri))

/-- No directive has a hyphen in its name, apart from the address for reports. -/
theorem Written.entry_name (h : Written csp calls) {entry : Str×List Str} (hentry : entry ∈ csp.entries) :
    0x2d ∉ entry.1 ∨ entry.1 = reportName := by
  rcases List.mem_append.mp hentry with hentry | hentry
  · obtain ⟨directive,hdirective,rfl⟩ := List.mem_map.mp hentry
    obtain ⟨tag,htag⟩ := h.tags directive hdirective
    left
    rw [htag]
    exact (tagName_notMem tag).2
  · obtain ⟨uri,-,rfl⟩ := List.mem_map.mp hentry
    exact .inr rfl

/-- Under the name of its tag a directive is found with the sources that were given last. -/
theorem Written.found (h : Written csp calls) (hbare : BarePolicy calls csp.reportUri) (tag : CspDirective) :
    (partNamed csp.generateHeaderValue tag.tagName).map sourceWords =
      (given calls tag).map fun sources => sources.filter fun source => !source.isEmpty := by
  have hreport : (csp.reportUri.toList.map fun uri => (reportName,[uri])).find?
      (fun entry => entry.1 == tag.tagName) = none := by
    rw [List.find?_eq_none]
    intro entry hentry
    obtain ⟨uri,-,rfl⟩ := List.mem_map.mp hentry
    rw [beq_iff_eq]
    exact fun heq => (tagName_notMem tag).2 (heq ▸ hyphen_mem)
  rw [partNamed,directiveParts_value (h.readable hbare),find_parts (h.readable hbare),ContentSecurityPolicy.entries,
    List.find?_append,hreport,Option.or_none,List.find?_map,← h.last tag,sourcesOf]
  simp only [Option.map_map]
  rfl

/-- There is one part for each tag that was given, and one for the address for reports. -/
theorem Written.part_names (h : Written csp calls) (hbare : BarePolicy calls csp.reportUri) :
    ((directiveParts csp.generateHeaderValue).map directiveName).Perm
      ((CspDirective.all.filter fun tag => (given calls tag).isSome).map CspDirective.tagName++
        csp.reportUri.toList.map fun _ => reportName) := by
  have hnames : (directiveParts csp.generateHeaderValue).map directiveName = csp.entries.map Prod.fst := by
    rw [directiveParts_value (h.readable hbare),List.map_map]
    exact List.map_congr_left fun entry hentry => (h.readable hbare entry hentry).read.1
  rw [hnames,ContentSecurityPolicy.entries,List.map_append,List.map_map,List.map_map]
  exact h.names.append_right _

/-- Under a name with a hyphen nothing is found but the address for reports. -/
theorem Written.unfound (h : Written csp calls) (hbare : BarePolicy calls csp.reportUri) (hhyphen : 0x2d ∈ name)
    (hname : name ≠ reportName) : partNamed csp.generateHeaderValue name = none := by
  have hnone : csp.entries.find? (fun entry => entry.1 == name) = none := by
    rw [List.find?_eq_none]
    intro entry hentry
    rw [beq_iff_eq]
    rintro rfl
    rcases h.entry_name hentry with hplain | hreport
    · exact hplain hhyphen
    · exact hname hreport
  have hmap := find_parts (h.readable hbare) name
  rw [hnone,Option.map_none,Option.map_eq_none_iff] at hmap
  rw [partNamed,directiveParts_value (h.readable hbare)]
  exact hmap

end Headers

section Enforcement

variable {csp : ContentSecurityPolicy} {calls : List DirectiveCall} {freed : FreedMemory CSPToken}
  {self self' : CSPValidator} {document : Origin} {policy : Policy.ContentSecurityPolicy} {context : CSPValidationContext}

/-- The names that the validator looks for have hyphens. -/
theorem getDirective_hyphen (resourceType : Str) : 0x2d ∈ getDirectiveForResourceType resourceType ∧
    getDirectiveForResourceType resourceType ≠ reportName := by
  have hmap : ∀ pair ∈ directiveMap, 0x2d ∈ pair.2 ∧ pair.2 ≠ reportName := by decide
  rw [getDirectiveForResourceType]
  cases hlookup : directiveMap.lookup resourceType with
  | none => decide
  | some name =>
    obtain ⟨before,after,hpairs,-⟩ := List.lookup_eq_some_iff.mp hlookup
    exact hmap (resourceType,name) (hpairs ▸ by simp)

/-- The validator finds no directive. -/
theorem Written.findDirective (h : Written csp calls) (hbare : BarePolicy calls csp.reportUri)
    (hparse : self.parseCSPHeader freed csp.generateHeaderValue document = .ok (policy,self')) (name : Str)
    (hhyphen : 0x2d ∈ name) (hname : name ≠ reportName) : findDirective policy name = none := by
  obtain ⟨-,-,hnamed⟩ := parseCSPHeader_stored hparse
  have hrule := hnamed name
  rw [h.unfound hbare hhyphen hname] at hrule
  exact none_of_rel_none hrule

theorem Written.unrestricted (h : Written csp calls) (hbare : BarePolicy calls csp.reportUri)
    (hparse : self.parseCSPHeader freed csp.generateHeaderValue document = .ok (policy,self'))
    (hdocument : Origin.parse context.documentUrl = .ok document) :
    self'.validateResource context = .ok { allowed := true, reason := "No CSP restrictions" } := by
  obtain ⟨hlookup,-,-⟩ := parseCSPHeader_stored hparse
  obtain ⟨hhyphen,hname⟩ := getDirective_hyphen context.resourceType
  rw [CSPValidator.validateResource,hdocument]
  simp only [hlookup,h.findDirective hbare hparse _ hhyphen hname,
    h.findDirective hbare hparse (text "default-src") (by decide) (by decide)]

theorem Written.inline_blocked (h : Written csp calls) (hbare : BarePolicy calls csp.reportUri)
    (hparse : self.parseCSPHeader freed csp.generateHeaderValue document = .ok (policy,self'))
    (hdocument : Origin.parse context.documentUrl = .ok document) (wyhash : Str → UInt64) (scriptContent : Str) :
    self'.validateInlineScript wyhash scriptContent context = .ok inlineViolation := by
  obtain ⟨hlookup,-,-⟩ := parseCSPHeader_stored hparse
  rw [CSPValidator.validateInlineScript,hdocument]
  simp only [hlookup,h.findDirective hbare hparse (text "script-src") (by decide) (by decide),
    h.findDirective hbare hparse (text "default-src") (by decide) (by decide)]

end Enforcement

section Checking

variable {csp : ContentSecurityPolicy} {name value : Str}

/-- A header with a directive of an unknown name is refused. -/
theorem validateCsp_refused (rest : Str) (hname : ∀ b ∈ name, 0x2d ≤ b) (hne : name ≠ [])
    (hinvalid : name ∉ validDirectives) (h : trim blanks (name++0x20::rest) ∈ hstsDirectives value) :
    validateCsp value ≠ .ok () := by
  have hbytes : ∀ b ∈ name, b ≠ 0x20 ∧ b ∉ blanks := fun b hb =>
    (above_margins (hname b hb)).imp_right fun hmargin hblank => hmargin (blanks_margins hblank)
  have hfound := (name_found hbytes hne rest).1
  have hmem : trim blanks (name++0x20::rest) ∈ trimmedDirectives value := by
    refine List.mem_filter.mpr ⟨h,?_⟩
    cases hpart : trim blanks (name++0x20::rest) with
    | nil =>
      rw [hpart] at hfound
      exact (hne hfound.symm).elim
    | cons b part => rfl
  intro hok
  rw [validateCsp] at hok
  split_ifs at hok with hall
  have hvalid := List.all_eq_true.mp hall _ hmem
  rw [hfound,List.contains_iff_mem] at hvalid
  exact hinvalid hvalid

/-- The first directive is the text up to the first semicolon. -/
theorem first_directive (front : Str) (hfront : 0x3b ∉ front) (rest : Str) :
    ∃ more, trim blanks (front++0x20::more) ∈ hstsDirectives (front++0x20::rest) := by
  refine ⟨rest.takeWhile (· ≠ 0x3b),?_⟩
  have hcut : front++0x20::rest = (front++0x20::rest.takeWhile (· ≠ 0x3b))++rest.dropWhile (· ≠ 0x3b) := by
    rw [List.append_assoc,List.cons_append,List.takeWhile_append_dropWhile]
  have hplain : 0x3b ∉ front++0x20::rest.takeWhile (· ≠ 0x3b) := by
    rw [List.mem_append,List.mem_cons,not_or,not_or]
    exact ⟨hfront,by decide,fun h => by simpa using List.mem_takeWhile_imp h⟩
  have htail : ∀ b ∈ (rest.dropWhile (· ≠ 0x3b)).head?, b = 0x3b := by
    intro b hb
    have hfirst := List.head?_dropWhile_not (fun c => decide (c ≠ 0x3b)) rest
    rw [Option.mem_def.mp hb] at hfirst
    simpa using hfirst
  obtain ⟨others,hsplit⟩ := hstsDirectives_split hplain htail
  rw [hcut,hsplit]
  exact List.mem_cons_self

theorem valid_hyphen : ∀ name ∈ validDirectives, 0x2d ∈ name ∧ name ≠ reportName := by decide

theorem joinParts_cons (part : Str) (parts : List Str) : joinParts (part::parts) = part++parts.flatMap (0x3b::·) := rfl

/-- A semicolon in front only adds an empty directive. -/
theorem hstsDirectives_semicolon (value : Str) : hstsDirectives (0x3b::value) = []::hstsDirectives value := by
  have hcut : (0x3b::value).splitOnP (· == 0x3b) = []::value.splitOnP (· == 0x3b) :=
    List.splitOnP_append_cons [] value rfl
  rw [hstsDirectives,hcut]
  rfl

theorem trim_blank_cons (s : Str) : trim blanks (0x20::s) = trim blanks s := by
  have hblank : (0x20 : UInt8) ∈ blanks := List.mem_cons_self
  rw [trim,List.dropWhile_cons_of_pos (by simpa using hblank)]
  rfl

theorem generateHeaderValue_report {uri : Str} (h : csp.directives = []) (huri : csp.reportUri = some uri) :
    csp.generateHeaderValue = 0x3b::(0x20::reportName++0x20::uri) := by
  rw [ContentSecurityPolicy.generateHeaderValue,h,huri]
  rfl

theorem validateCsp_report (uri : Str) : validateCsp (0x3b::(0x20::reportName++0x20::uri)) ≠ .ok () := by
  obtain ⟨hne,hplain,hbytes⟩ := reportName_bytes
  have hfront : 0x3b ∉ 0x20::reportName := by
    rw [List.mem_cons,not_or]
    exact ⟨by decide,hplain⟩
  obtain ⟨more,hmem⟩ := first_directive (0x20::reportName) hfront uri
  have hblank : trim blanks (0x20::reportName++0x20::more) = trim blanks (reportName++0x20::more) := trim_blank_cons _
  rw [hblank] at hmem
  refine validateCsp_refused more hbytes hne (fun hvalid => (valid_hyphen reportName hvalid).2 rfl) ?_
  rw [hstsDirectives_semicolon]
  exact List.mem_cons_of_mem _ hmem

/-- The check refuses every policy that says something. -/
theorem Written.validate_iff {calls : List DirectiveCall} (h : Written csp calls) :
    validateCsp csp.generateHeaderValue = .ok () ↔ calls = [] ∧ csp.reportUri = none := by
  rw [← h.empty]
  cases hdirectives : csp.directives with
  | nil =>
    cases huri : csp.reportUri with
    | none =>
      rw [ContentSecurityPolicy.generateHeaderValue,hdirectives,huri]
      exact iff_of_true rfl ⟨rfl,rfl⟩
    | some uri =>
      rw [generateHeaderValue_report hdirectives huri]
      exact iff_of_false (validateCsp_report uri) fun h => by cases h.2
  | cons directive directives =>
    refine iff_of_false ?_ fun h => by cases h.1
    rw [ContentSecurityPolicy.generateHeaderValue,hdirectives]
    obtain ⟨tag,htag⟩ := h.tags directive (hdirectives ▸ List.mem_cons_self)
    obtain ⟨hplain,hhyphen⟩ := tagName_notMem tag
    rw [List.map_cons,joinParts_cons,directiveText,htag,List.append_assoc,List.append_assoc]
    obtain ⟨more,hmem⟩ := first_directive tag.tagName hplain ((text " ").intercalate (directive.2.map CspSource.value)++
      ((directives.map directiveText).flatMap (0x3b::·)++csp.reportUri.elim [] fun uri => text "; report-uri "++uri))
    exact validateCsp_refused more (hyphen_le tag) (tagName_bytes tag).1
      (fun hvalid => hhyphen (valid_hyphen _ hvalid).1) hmem

end Checking

/-- The header of a policy after the given calls. -/
def generated (calls : List DirectiveCall) (reportOnly : Bool) (reportUri : Option Str) : Str :=
  (run policyStep ⟨[],reportOnly,reportUri⟩ calls).generateHeaderValue

/-- What the validator of this program does with a document that has this header. -/
structure Unenforced (header : Str) (document : Origin) (validator : CSPValidator) : Prop where
  resource : ∀ freed policy self' context, validator.parseCSPHeader freed header document = .ok (policy,self') →
    Origin.parse context.documentUrl = .ok document →
      self'.validateResource context = .ok { allowed := true, reason := "No CSP restrictions" }
  inline : ∀ freed policy self' context, validator.parseCSPHeader freed header document = .ok (policy,self') →
    Origin.parse context.documentUrl = .ok document → ∀ wyhash scriptContent,
      self'.validateInlineScript wyhash scriptContent context = .ok inlineViolation

/-- All that was given is in the header, and none of it is enforced or passes the check. -/
theorem generated_policy (calls : List DirectiveCall) (reportOnly : Bool) (reportUri : Option Str)
    (hbare : BarePolicy calls reportUri) :
    ((directiveParts (generated calls reportOnly reportUri)).map directiveName).Perm
      ((CspDirective.all.filter fun tag => (given calls tag).isSome).map CspDirective.tagName++
        reportUri.toList.map fun _ => reportName) ∧
    (∀ tag : CspDirective, (partNamed (generated calls reportOnly reportUri) tag.tagName).map sourceWords =
      (given calls tag).map fun sources => sources.filter fun source => !source.isEmpty) ∧
    (∀ document self, Unenforced (generated calls reportOnly reportUri) document self) ∧
    (validateCsp (generated calls reportOnly reportUri) = .ok () ↔ calls = [] ∧ reportUri = none) := by
  have hwritten := written_run reportOnly reportUri calls
  have huri := reportUri_run reportOnly reportUri calls
  have hcsp : BarePolicy calls (run policyStep ⟨[],reportOnly,reportUri⟩ calls).reportUri := by rwa [huri]
  refine ⟨?_,hwritten.found hcsp,fun document self => ⟨?_,?_⟩,?_⟩
  · have hparts := hwritten.part_names hcsp
    rw [huri] at hparts
    exact hparts
  · exact fun _ _ _ _ hparse hdocument => hwritten.unrestricted hcsp hparse hdocument
  · exact fun _ _ _ _ hparse hdocument => hwritten.inline_blocked hcsp hparse hdocument
  · rw [generated,hwritten.validate_iff,huri]

/-- A policy that forbids every script. -/
theorem generated_policy_none : ∃ policy self',
    CSPValidator.init.parseCSPHeader (.filled noneToken) (generated [⟨.scriptSrc,[text "'none'"]⟩] false none) pageOrigin = .ok (policy,self') ∧
      self'.validateResource (pageContext (text "https://b/x")) = .ok { allowed := true, reason := "No CSP restrictions" } := by
  have hbare : BarePolicy [⟨.scriptSrc,[text "'none'"]⟩] none := by
    have hword : ∀ b ∈ text "'none'", b ≠ 0x3b ∧ b ∉ margins := by decide +kernel
    refine ⟨?_,nofun⟩
    simpa [Bare] using hword
  have hdocument : Origin.parse (pageContext (text "https://b/x")).documentUrl = .ok pageOrigin := by decide
  exact ⟨_,_,rfl,((generated_policy _ false none hbare).2.2.1 pageOrigin .init).resource _ _ _ _ rfl hdocument⟩

end ZNet.SecurityHeaders
