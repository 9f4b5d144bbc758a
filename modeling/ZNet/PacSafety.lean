import ZNet.PacEvaluator
import Mathlib.Logic.Relation

/-!
# Where the interpreter slices

Every offset that `evaluateMinimal` computes is at the boundary of a character of the
text it is used on, except behind the white space of an `if`, which is counted twice.
-/

namespace ZNet.PacSafety
open TextScan Utf8Text PacEvaluator

/-- An offset where a slice of the text may begin or end. -/
def AtBoundary (s : Str) (n : ℕ) : Prop := ∃ u t, s = u++t ∧ len u = n

section Offsets

variable {s t needle : Str} {n : ℕ}

theorem atBoundary_zero (s : Str) : AtBoundary s 0 := ⟨[],s,rfl,rfl⟩

theorem atBoundary_len (s : Str) : AtBoundary s (len s) := ⟨s,[],(List.append_nil s).symm,rfl⟩

theorem AtBoundary.append (h : AtBoundary t n) (s : Str) : AtBoundary (s++t) (len s+n) := by
  obtain ⟨u,v,rfl,rfl⟩ := h
  exact ⟨s++u,v,(List.append_assoc _ _ _).symm,len_append _ _⟩

theorem AtBoundary.le (h : AtBoundary s n) : n ≤ len s := by
  obtain ⟨u,t,rfl,rfl⟩ := h
  rw [len_append]
  exact Nat.le_add_right _ _

theorem startsWith_iff : startsWith s needle = true ↔ ∃ t, s = needle++t := by
  rw [startsWith,List.isPrefixOf_iff_prefix]
  exact ⟨fun ⟨t,ht⟩ => ⟨t,ht.symm⟩,fun ⟨t,ht⟩ => ⟨t,ht.symm⟩⟩

/-- Behind an ASCII character that was found. -/
theorem atBoundary_behind (u t : Str) {c : Char} (hc : c.utf8Size = 1) : AtBoundary (u++c::t) (len u+1) := by
  refine ⟨u++[c],t,by simp,?_⟩
  rw [len_append,len_cons,hc]
  rfl

end Offsets

section Values

theorem semiOffset_boundary (i : ℕ) (s : Str) : ∃ n, semiOffset i s = i+n ∧ AtBoundary s n := by
  induction s generalizing i with
  | nil => exact ⟨0,rfl,atBoundary_zero _⟩
  | cons c s ih =>
    rw [semiOffset]
    split_ifs with hsemi hstop
    · refine ⟨1,rfl,?_⟩
      rw [hsemi]
      exact atBoundary_behind [] s rfl
    · exact ⟨0,rfl,atBoundary_zero _⟩
    · obtain ⟨n,hn,hboundary⟩ := ih (i+c.utf8Size)
      refine ⟨c.utf8Size+n,by rw [hn,Nat.add_assoc],?_⟩
      exact hboundary.append [c]

theorem unquoted_ok (s : Str) : ∃ v n, unquoted s = .ok (v,n) ∧ AtBoundary s n := by
  rw [unquoted]
  cases hline : findChar '\n' s with
  | some nlIdx =>
    obtain ⟨line,rest,rfl,rfl,-⟩ := findChar_some hline
    simp only [sliceTo_append,bind,Except.bind]
    cases hsemi : findChar ';' line with
    | some semiIdx =>
      obtain ⟨u,v,rfl,rfl,-⟩ := findChar_some hsemi
      rw [List.append_assoc]
      simp only [sliceTo_append]
      exact ⟨_,_,rfl,atBoundary_behind u _ rfl⟩
    | none => exact ⟨_,_,rfl,atBoundary_behind line rest rfl⟩
  | none =>
    simp only
    cases hsemi : findChar ';' s with
    | some semiIdx =>
      obtain ⟨u,v,rfl,rfl,-⟩ := findChar_some hsemi
      simp only [sliceTo_append,bind,Except.bind]
      exact ⟨_,_,rfl,atBoundary_behind u v rfl⟩
    | none => exact ⟨_,_,rfl,atBoundary_len s⟩

/-- A return statement is read without a panic, and what is consumed of it ends at a
boundary. -/
theorem returnStatement_ok (after : Str) :
    ∃ v n, returnStatement (returnKeyword++after) = .ok (v,n) ∧ AtBoundary after n := by
  obtain ⟨space,hsplit,hskipped⟩ := trimStart_split after
  have hafter := sliceFrom_append returnKeyword after
  have hstart : sliceFrom (len returnKeyword+len space) (returnKeyword++after) = .ok (trimStart after) := by
    rw [sliceFrom_add]
    nth_rewrite 1 [hsplit]
    exact sliceFrom_append _ _
  simp only [returnStatement,hafter,bind,Except.bind,hskipped,hstart]
  have hboundary : ∀ {n}, AtBoundary (trimStart after) n → AtBoundary after (len space+n) := by
    intro n hn
    rw [hsplit]
    exact hn.append space
  cases hquote : startsWith (trimStart after) ['"'] with
  | false =>
    simp only [Bool.false_eq_true,if_false]
    obtain ⟨v,n,hv,hn⟩ := unquoted_ok (trimStart after)
    simp only [hv]
    exact ⟨v,_,rfl,hboundary hn⟩
  | true =>
    obtain ⟨q,hq⟩ := startsWith_iff.mp hquote
    have hone : sliceFrom 1 (trimStart after) = .ok q := by
      rw [hq]
      exact sliceFrom_append ['"'] q
    simp only [if_true,hone]
    cases hclose : findChar '"' q with
    | none => exact ⟨_,_,rfl,hboundary (atBoundary_len _)⟩
    | some closeQuote =>
      obtain ⟨u,t,rfl,rfl,-⟩ := findChar_some hclose
      obtain ⟨-,hvalue,hrest⟩ := quoted_slices u t
      obtain ⟨n,hn,hsemi⟩ := semiOffset_boundary 0 ('"'::t)
      have hsame : trimStart after = '"'::(u++ '"'::t) := hq
      rw [hsame] at hboundary ⊢
      simp only [hvalue,hrest]
      refine ⟨u,_,rfl,?_⟩
      have hend := hboundary (hsemi.append ('"'::u))
      rw [hn,Nat.zero_add]
      have hlen : len ('"'::u) = 1+len u := rfl
      rw [hlen] at hend
      have hsum : len space+1+len u+n = len space+(1+len u+n) := by omega
      rw [hsum]
      exact hend

theorem blockReturn_ok (block : Str) : ∃ r, blockReturn block = .ok r := by
  rw [blockReturn]
  cases hfind : find returnKeyword block with
  | none => exact ⟨_,rfl⟩
  | some retOff =>
    obtain ⟨u,t,rfl,rfl⟩ := find_some hfind
    simp only [sliceFrom_append,bind,Except.bind]
    cases hquote : startsWith (Utf8Text.trim t) ['"'] with
    | false =>
      simp only [Bool.false_eq_true,if_false]
      cases hsemi : findChar ';' (((Utf8Text.trim t).splitOn '\n').headD []) with
      | none => exact ⟨_,rfl⟩
      | some semi =>
        obtain ⟨v,w,hline,rfl,-⟩ := findChar_some hsemi
        simp only [hline,sliceTo_append]
        exact ⟨_,rfl⟩
    | true =>
      obtain ⟨q,hq⟩ := startsWith_iff.mp hquote
      have hone : sliceFrom 1 (Utf8Text.trim t) = .ok q := by
        rw [hq]
        exact sliceFrom_append ['"'] q
      simp only [if_true,hone]
      cases hclose : findChar '"' q with
      | none => exact ⟨_,rfl⟩
      | some closeQuote =>
        obtain ⟨v,w,rfl,rfl,-⟩ := findChar_some hclose
        have hsame : Utf8Text.trim t = '"'::(v++ '"'::w) := hq
        simp only [hsame,(quoted_slices v w).2.1]
        exact ⟨_,rfl⟩

end Values

/-- What one round of the loop comes to: the function returns nothing, the loop ends, or
it goes on behind a statement, which may have given a value. -/
inductive Turn
  | giveUp
  | stop
  | next (pos : ℕ) (returned : Option Str)

def turn (url host body : Str) (pos : ℕ) : Except Panic Turn :=
  if pos < len body then do
    let rest ← sliceFrom pos body
    let s := trimStart rest
    let skipped := len rest-len s
    if startsWith s returnKeyword then do
      let (v,consumed) ← returnStatement s
      pure (.next (pos+skipped+(7+consumed)) (some v))
    else if startsWith s ifKeyword then
      match findChar '{' s with
      | none => pure .giveUp
      | some condEnd => do
        let cond ← slice (len ifKeyword) condEnd s
        let matched := evalCond (Utf8Text.trim cond) url host
        let blockPos := pos+skipped+(skipped+condEnd)
        let blockWithBrace ← sliceFrom blockPos body
        match PacEvaluator.matchBrace blockWithBrace with
        | none => pure .giveUp
        | some close => do
          let returned ← if matched then do
              let block ← slice 1 close blockWithBrace
              blockReturn block
            else pure none
          pure (.next (blockPos+close+1) returned)
    else do
      let tail ← sliceFrom (pos+skipped) body
      match findChar ';' tail with
      | some semi => pure (.next (pos+skipped+semi+1) none)
      | none => pure .stop
  else pure .stop

section Rounds

variable {url host body : Str} {pos : ℕ}

/-- The loop is its rounds one after the other. -/
theorem statements_turn (lastReturn : Option Str) :
    statements url host body pos lastReturn = (turn url host body pos).bind fun t =>
      match t with
      | .giveUp => .ok none
      | .stop => .ok lastReturn
      | .next pos' returned => statements url host body pos' (returned.or lastReturn) := by
  rw [statements,turn]
  by_cases hlt : pos < len body
  · rw [if_pos hlt,if_pos hlt]
    simp only [bind,Except.bind,pure,Except.pure]
    cases sliceFrom pos body with
    | error e => rfl
    | ok rest =>
      simp only
      by_cases hreturn : startsWith (trimStart rest) returnKeyword = true
      · rw [if_pos hreturn,if_pos hreturn]
        cases returnStatement (trimStart rest) <;> rfl
      · rw [if_neg hreturn,if_neg hreturn]
        by_cases hif : startsWith (trimStart rest) ifKeyword = true
        · rw [if_pos hif,if_pos hif]
          cases findChar '{' (trimStart rest) with
          | none => rfl
          | some condEnd =>
            simp only
            cases slice (len ifKeyword) condEnd (trimStart rest) with
            | error e => rfl
            | ok cond =>
              simp only
              cases sliceFrom (pos+(len rest-len (trimStart rest))+(len rest-len (trimStart rest)+condEnd)) body with
              | error e => rfl
              | ok block =>
                simp only
                cases PacEvaluator.matchBrace block with
                | none => rfl
                | some close =>
                  simp only
                  cases evalCond (Utf8Text.trim cond) url host with
                  | false => simp only [Bool.false_eq_true,if_false]
                  | true =>
                    simp only [if_true]
                    cases slice 1 close block with
                    | error e => rfl
                    | ok inner =>
                      simp only
                      cases blockReturn inner <;> rfl
        · rw [if_neg hif,if_neg hif]
          cases sliceFrom (pos+(len rest-len (trimStart rest))) body with
          | error e => rfl
          | ok tail =>
            simp only
            cases findChar ';' tail <;> rfl
  · rw [if_neg hlt,if_neg hlt]
    rfl

/-- Where the round goes on, it is at a boundary further on. -/
def Onward (body : Str) (pos : ℕ) : Turn → Prop
  | .next p _ => AtBoundary body p ∧ pos < p
  | _ => True

/-- At an `if`, the place that lies behind the brace by the white space before it is at a
boundary; where the condition holds and the braces match from there, it is before a
one-byte character. -/
def Steady (url host body : Str) (pos : ℕ) : Prop :=
  ∀ rest cond block, sliceFrom pos body = .ok rest → trimStart rest = ifKeyword++(cond++ '{'::block) → '{' ∉ cond →
    ∃ tail, sliceFrom (len (rest.takeWhile isWhitespace)) ('{'::block) = .ok tail ∧
      (evalCond (Utf8Text.trim cond) url host = true → (PacEvaluator.matchBrace tail).isSome →
        ∀ c ∈ tail.head?, c.utf8Size = 1)

variable {pre rest cond block : Str}

/-- What stands at an offset. -/
structure Ahead (body : Str) (pos : ℕ) (pre rest : Str) : Prop where
  split : body = pre++rest
  offset : len pre = pos
  nonempty : rest ≠ []

theorem Ahead.slice (h : Ahead body pos pre rest) : sliceFrom pos body = .ok rest := by
  rw [h.split,← h.offset]
  exact sliceFrom_append _ _

theorem Ahead.lt (h : Ahead body pos pre rest) : pos < len body := by
  have hpos := len_pos h.nonempty
  rw [h.split,len_append,h.offset]
  omega

theorem Ahead.onward (h : Ahead body pos pre rest) {n : ℕ} (hn : AtBoundary rest n) (hpos : 0 < n) (r : Option Str) :
    Onward body pos (.next (pos+n) r) := by
  refine ⟨?_,by omega⟩
  rw [h.split,← h.offset]
  exact hn.append pre

theorem turn_return (h : Ahead body pos pre rest) (hreturn : startsWith (trimStart rest) returnKeyword = true) :
    ∃ t, turn url host body pos = .ok t ∧ Onward body pos t := by
  obtain ⟨after,hafter⟩ := startsWith_iff.mp hreturn
  obtain ⟨v,n,hv,hn⟩ := returnStatement_ok after
  rw [← hafter] at hv
  obtain ⟨space,hsplit,hskipped⟩ := trimStart_split rest
  refine ⟨.next (pos+len space+(7+n)) (some v),?_,?_⟩
  · rw [turn,if_pos h.lt,h.slice]
    simp only [bind,Except.bind,hreturn,if_true,hskipped,hv]
    rfl
  · have hkeyword : len returnKeyword = 7 := rfl
    have hboundary := (hn.append returnKeyword).append space
    rw [← hafter,← hsplit,hkeyword] at hboundary
    have hsum : pos+len space+(7+n) = pos+(len space+(7+n)) := Nat.add_assoc _ _ _
    rw [hsum]
    exact h.onward hboundary (by omega) _

theorem turn_other (h : Ahead body pos pre rest) (hreturn : startsWith (trimStart rest) returnKeyword = false)
    (hif : startsWith (trimStart rest) ifKeyword = false) :
    ∃ t, turn url host body pos = .ok t ∧ Onward body pos t := by
  obtain ⟨space,hsplit,hskipped⟩ := trimStart_split rest
  have htail : sliceFrom (pos+len space) body = .ok (trimStart rest) := by
    rw [h.split,← h.offset,sliceFrom_add]
    nth_rewrite 1 [hsplit]
    exact sliceFrom_append _ _
  rw [turn,if_pos h.lt,h.slice]
  simp only [bind,Except.bind,hreturn,hif,Bool.false_eq_true,if_false,hskipped,htail]
  cases hsemi : findChar ';' (trimStart rest) with
  | none => exact ⟨.stop,rfl,trivial⟩
  | some semi =>
    obtain ⟨u,v,huv,rfl,-⟩ := findChar_some hsemi
    refine ⟨_,rfl,?_⟩
    have hboundary := (atBoundary_behind u v (c:= ';') rfl).append space
    rw [← huv,← hsplit] at hboundary
    have hsum : pos+len space+len u+1 = pos+(len space+(len u+1)) := by omega
    rw [hsum]
    exact h.onward hboundary (by omega) _

theorem turn_open (h : Ahead body pos pre rest) (hif : startsWith (trimStart rest) ifKeyword = true)
    (hreturn : startsWith (trimStart rest) returnKeyword = false) (hbrace : findChar '{' (trimStart rest) = none) :
    turn url host body pos = .ok .giveUp := by
  rw [turn,if_pos h.lt,h.slice]
  simp only [bind,Except.bind,hreturn,hif,hbrace,Bool.false_eq_true,if_false,if_true]
  rfl

/-- The white space before an `if` counts twice. -/
theorem turn_if (h : Ahead body pos pre rest) (htrim : trimStart rest = ifKeyword++(cond++ '{'::block))
    (hcond : '{' ∉ cond) :
    turn url host body pos =
      (sliceFrom (len (rest.takeWhile isWhitespace)) ('{'::block)).bind fun tail =>
        match PacEvaluator.matchBrace tail with
        | none => .ok .giveUp
        | some close =>
          (if evalCond (Utf8Text.trim cond) url host then (slice 1 close tail).bind blockReturn else .ok none).map
            (.next (pos+(len (rest.takeWhile isWhitespace)+(len (rest.takeWhile isWhitespace)+
              (len (ifKeyword++cond)+(close+1)))))) := by
  have hsplit : rest = rest.takeWhile isWhitespace++trimStart rest := (List.takeWhile_append_dropWhile).symm
  generalize rest.takeWhile isWhitespace = space at hsplit ⊢
  have hskipped : len rest-len (trimStart rest) = len space := by
    rw [congrArg len hsplit,len_append,Nat.add_sub_cancel]
  have hbrace : findChar '{' (trimStart rest) = some (len (ifKeyword++cond)) := by
    have hnot : '{' ∉ ifKeyword++cond := by
      rw [List.mem_append,not_or]
      exact ⟨by decide,hcond⟩
    rw [htrim,← List.append_assoc]
    exact findChar_append hnot block
  have hslice : slice (len ifKeyword) (len (ifKeyword++cond)) (trimStart rest) = .ok cond := by
    rw [htrim]
    exact slice_append _ _ _
  have hreturn : startsWith (trimStart rest) returnKeyword = false := by
    rw [htrim]
    rfl
  have hif : startsWith (trimStart rest) ifKeyword = true := startsWith_iff.mpr ⟨_,htrim⟩
  have hblock : sliceFrom (pos+len space+(len space+len (ifKeyword++cond))) body =
      sliceFrom (len space) ('{'::block) := by
    have hbody : body = (pre++(space++(ifKeyword++cond)))++ '{'::block := by
      rw [h.split,hsplit,htrim]
      simp
    have hpos : pos+len space+(len space+len (ifKeyword++cond)) = len (pre++(space++(ifKeyword++cond)))+len space := by
      simp only [len_append,h.offset]
      omega
    rw [hbody,hpos]
    exact sliceFrom_add _ _ _
  rw [turn,if_pos h.lt,h.slice]
  simp only [bind,Except.bind,hreturn,hif,hbrace,hslice,hskipped,hblock,Bool.false_eq_true,if_false,if_true]
  cases sliceFrom (len space) ('{'::block) with
  | error e => rfl
  | ok tail =>
    simp only
    cases PacEvaluator.matchBrace tail with
    | none => rfl
    | some close =>
      have hsum : ∀ n, pos+len space+(len space+n)+close+1 = pos+(len space+(len space+(n+(close+1)))) := by
        intro n
        omega
      simp only [hsum]
      cases evalCond (Utf8Text.trim cond) url host with
      | false => rfl
      | true =>
        simp only [if_true]
        cases slice 1 close tail with
        | error e => rfl
        | ok inner =>
          simp only
          cases blockReturn inner <;> rfl

theorem slice_one_iff {tail : Str} {close : ℕ} (h : PacEvaluator.matchBrace tail = some close) :
    (∃ r, slice 1 close tail = .ok r) ↔ ∀ c ∈ tail.head?, c.utf8Size = 1 := by
  obtain ⟨u,t,rfl,hclose,hne⟩ := matchBrace_some h
  obtain ⟨c,v,rfl⟩ := List.exists_cons_of_ne_nil (hne (Int.le_refl 0))
  have hend : close = len (c::v) := by
    rw [hclose,Nat.zero_add]
    rfl
  have hpos := c.utf8Size_pos
  constructor
  · rintro ⟨r,hr⟩ d hd
    obtain rfl : c = d := Option.some.inj hd
    rw [slice,hend,if_pos (by rw [len_cons]; omega)] at hr
    cases hfrom : sliceFrom 1 (c::v++ '}'::t) with
    | error e =>
      rw [hfrom] at hr
      cases hr
    | ok w =>
      obtain ⟨x,hx,hlen⟩ := sliceFrom_ok hfrom
      cases x with
      | nil => cases hlen
      | cons b x =>
        obtain rfl : c = b := (List.cons.inj hx).1
        rw [len_cons] at hlen
        omega
  · intro hone
    have hc : len [c] = 1 := hone c rfl
    refine ⟨v,?_⟩
    rw [hend,← hc]
    exact slice_append [c] v ('}'::t)

theorem turn_block (h : Ahead body pos pre rest) (htrim : trimStart rest = ifKeyword++(cond++ '{'::block))
    (hcond : '{' ∉ cond) :
    (Steady url host body pos ∧ ∃ t, turn url host body pos = .ok t ∧ Onward body pos t) ∨
    (¬Steady url host body pos ∧ turn url host body pos = .error .panic) := by
  have hsplit : rest = rest.takeWhile isWhitespace++trimStart rest := (List.takeWhile_append_dropWhile).symm
  have hsteady : Steady url host body pos ↔
      ∃ tail, sliceFrom (len (rest.takeWhile isWhitespace)) ('{'::block) = .ok tail ∧
        (evalCond (Utf8Text.trim cond) url host = true → (PacEvaluator.matchBrace tail).isSome →
          ∀ c ∈ tail.head?, c.utf8Size = 1) := by
    constructor
    · intro hs
      exact hs rest cond block h.slice htrim hcond
    · intro hs rest' cond' block' hrest htrim' hcond'
      obtain rfl : rest = rest' := Except.ok.inj (h.slice.symm.trans hrest)
      obtain ⟨rfl,rfl⟩ := append_first_inj hcond hcond' (List.append_cancel_left (htrim.symm.trans htrim'))
      exact hs
  rw [hsteady,turn_if h htrim hcond]
  cases hslice : sliceFrom (len (rest.takeWhile isWhitespace)) ('{'::block) with
  | error e =>
    refine Or.inr ⟨?_,rfl⟩
    rintro ⟨tail,htail,-⟩
    cases htail
  | ok tail =>
    have hiff : ∀ P : Str → Prop, (∃ tail', (Except.ok tail : Except Panic Str) = .ok tail' ∧ P tail') ↔ P tail := by
      intro P
      constructor
      · rintro ⟨tail',htail,hP⟩
        rwa [Except.ok.inj htail]
      · intro hP
        exact ⟨tail,rfl,hP⟩
    rw [hiff]
    simp only [Except.bind]
    cases hmatch : PacEvaluator.matchBrace tail with
    | none => exact Or.inl ⟨by simp,.giveUp,rfl,trivial⟩
    | some close =>
      have honward : ∀ r, Onward body pos (.next (pos+(len (rest.takeWhile isWhitespace)+
          (len (rest.takeWhile isWhitespace)+(len (ifKeyword++cond)+(close+1))))) r) := by
        generalize rest.takeWhile isWhitespace = space at hsplit hslice ⊢
        intro r
        obtain ⟨u,t,rfl,hclose,-⟩ := matchBrace_some hmatch
        obtain ⟨w,hw,hlen⟩ := sliceFrom_ok hslice
        have hend : close = len u := hclose.trans (Nat.zero_add _)
        have hboundary := ((((atBoundary_behind u t (c:= '}') rfl).append w).append (ifKeyword++cond)).append space)
        have hrest : rest = space++((ifKeyword++cond)++(w++(u++ '}'::t))) := by
          rw [← hw,List.append_assoc,← htrim]
          exact hsplit
        rw [hlen,← hrest] at hboundary
        have hsum : len space+(len space+(len (ifKeyword++cond)+(close+1))) =
            len space+(len (ifKeyword++cond)+(len space+(len u+1))) := by
          omega
        rw [hsum]
        exact h.onward hboundary (by omega) r
      cases evalCond (Utf8Text.trim cond) url host with
      | false => exact Or.inl ⟨by simp,_,rfl,honward none⟩
      | true =>
        simp only [if_true,Option.isSome_some,forall_const]
        rw [← slice_one_iff hmatch]
        cases slice 1 close tail with
        | error e =>
          refine Or.inr ⟨?_,rfl⟩
          rintro ⟨r,hr⟩
          cases hr
        | ok inner =>
          obtain ⟨r,hr⟩ := blockReturn_ok inner
          simp only [hr]
          exact Or.inl ⟨⟨inner,rfl⟩,_,rfl,honward r⟩

/-- A round fails exactly where it is not steady, and else it ends the loop or goes on. -/
theorem turn_cases (h : AtBoundary body pos) :
    (Steady url host body pos ∧ ∃ t, turn url host body pos = .ok t ∧ Onward body pos t) ∨
    (¬Steady url host body pos ∧ turn url host body pos = .error .panic) := by
  obtain ⟨pre,rest,hbody,hpos⟩ := h
  have hslice : sliceFrom pos body = .ok rest := by
    rw [hbody,← hpos]
    exact sliceFrom_append _ _
  have hother : (∀ cond block, '{' ∉ cond → trimStart rest ≠ ifKeyword++(cond++ '{'::block)) →
      Steady url host body pos := by
    intro hif rest' cond block hrest htrim hcond
    obtain rfl : rest' = rest := Except.ok.inj (hrest.symm.trans hslice)
    exact (hif cond block hcond htrim).elim
  by_cases hne : rest = []
  · refine Or.inl ⟨hother ?_,.stop,?_,trivial⟩
    · intro cond block _ htrim
      rw [hne] at htrim
      cases htrim
    · rw [turn,if_neg]
      · rfl
      · rw [hbody,hne,len_append,hpos]
        exact Nat.lt_irrefl _
  have hahead : Ahead body pos pre rest := ⟨hbody,hpos,hne⟩
  cases hif : startsWith (trimStart rest) ifKeyword with
  | false =>
    have hsteady : Steady url host body pos := by
      refine hother fun cond block _ htrim => ?_
      rw [startsWith_iff.mpr ⟨_,htrim⟩] at hif
      cases hif
    cases hreturn : startsWith (trimStart rest) returnKeyword with
    | false => exact Or.inl ⟨hsteady,turn_other hahead hreturn hif⟩
    | true => exact Or.inl ⟨hsteady,turn_return hahead hreturn⟩
  | true =>
    obtain ⟨t,ht⟩ := startsWith_iff.mp hif
    have hreturn : startsWith (trimStart rest) returnKeyword = false := by
      rw [ht]
      rfl
    by_cases hbrace : '{' ∈ t
    · obtain ⟨cond,block,rfl,hcond⟩ := List.eq_append_cons_of_mem hbrace
      exact turn_block hahead ht hcond
    · have hnone : '{' ∉ trimStart rest := by
        rw [ht,List.mem_append,not_or]
        exact ⟨by decide,hbrace⟩
      refine Or.inl ⟨hother ?_,.giveUp,turn_open hahead hif hreturn (findChar_none hnone),trivial⟩
      intro cond block _ htrim
      exact hnone (htrim ▸ by simp)

end Rounds

section Runs

variable {url host body : Str} {pos : ℕ}

/-- A round that goes on. -/
def Continues (url host body : Str) (p q : ℕ) : Prop := ∃ r, turn url host body p = .ok (.next q r)

/-- The offsets at which the loop starts a round. -/
def Visited (url host body : Str) (pos : ℕ) : ℕ → Prop := Relation.ReflTransGen (Continues url host body) pos

/-- The loop runs without a panic if and only if it starts every round at a steady place. -/
theorem statements_safe_iff (h : AtBoundary body pos) (lastReturn : Option Str) :
    (∃ r, statements url host body pos lastReturn = .ok r) ↔
      ∀ p, Visited url host body pos p → Steady url host body p := by
  induction hn : len body-pos using Nat.strong_induction_on generalizing pos lastReturn with
  | _ n ih =>
    rw [statements_turn]
    rcases @turn_cases url host body pos h with ⟨hsteady,t,ht,honward⟩ | ⟨hsteady,herror⟩
    · have hhere : (∀ p q, Continues url host body p q → p ≠ pos) → ∀ p, Visited url host body pos p →
          Steady url host body p := by
        intro hlast p hp
        rcases Relation.ReflTransGen.cases_head hp with rfl | ⟨q,hq,-⟩
        · exact hsteady
        · exact (hlast pos q hq rfl).elim
      have hlast : (∀ q r, t ≠ .next q r) → ∀ p q, Continues url host body p q → p ≠ pos := by
        rintro hne p q ⟨r,hr⟩ rfl
        exact hne q r (Except.ok.inj (ht.symm.trans hr))
      rw [ht]
      cases t with
      | giveUp => exact iff_of_true ⟨none,rfl⟩ (hhere (hlast fun _ _ heq => by cases heq))
      | stop => exact iff_of_true ⟨lastReturn,rfl⟩ (hhere (hlast fun _ _ heq => by cases heq))
      | next q r =>
        obtain ⟨hq,hlt⟩ := honward
        have hle := hq.le
        refine (ih (len body-q) (by omega) hq (r.or lastReturn) rfl).trans ?_
        constructor
        · intro hrest p hp
          rcases Relation.ReflTransGen.cases_head hp with rfl | ⟨q',⟨r',hr'⟩,hp⟩
          · exact hsteady
          · obtain ⟨rfl,-⟩ := Turn.next.inj (Except.ok.inj (ht.symm.trans hr'))
            exact hrest p hp
        · intro hall p hp
          exact hall p (Relation.ReflTransGen.head ⟨r,ht⟩ hp)
    · rw [herror]
      refine iff_of_false ?_ fun hall => hsteady (hall pos Relation.ReflTransGen.refl)
      rintro ⟨r,hr⟩
      cases hr

/-- The text between the braces that follow the name of the function. -/
def scriptBody (src : Str) : Except Panic (Option Str) :=
  match find marker src with
  | none => pure none
  | some idx => do
    let fromMarker ← sliceFrom idx src
    match findChar '{' fromMarker with
    | none => pure none
    | some bodyStart => do
      let bodyWithBrace ← sliceFrom (idx+bodyStart) src
      match PacEvaluator.matchBrace bodyWithBrace with
      | none => pure none
      | some stop => do
        let body ← slice 1 stop bodyWithBrace
        pure (some body)

/-- The body is always found without a panic, and the loop runs on it. -/
theorem evaluateMinimal_body (src url host : Str) :
    scriptBody src = .ok none ∧ evaluateMinimal src url host = .ok none ∨
      ∃ body, scriptBody src = .ok (some body) ∧ evaluateMinimal src url host = statements url host body 0 none := by
  rw [scriptBody,evaluateMinimal]
  cases hmarker : find marker src with
  | none => exact Or.inl ⟨rfl,rfl⟩
  | some idx =>
    obtain ⟨u,t,hsrc,rfl⟩ := find_some hmarker
    have hfrom : sliceFrom (len u) src = .ok (marker++t) := by
      rw [hsrc]
      exact sliceFrom_append _ _
    simp only [bind,Except.bind,hfrom]
    cases hbrace : findChar '{' (marker++t) with
    | none => exact Or.inl ⟨rfl,rfl⟩
    | some bodyStart =>
      obtain ⟨v,w,hvw,rfl,-⟩ := findChar_some hbrace
      have hblock : sliceFrom (len u+len v) src = .ok ('{'::w) := by
        rw [hsrc,hvw,sliceFrom_add]
        exact sliceFrom_append _ _
      simp only [hblock]
      cases hmatch : PacEvaluator.matchBrace ('{'::w) with
      | none => exact Or.inl ⟨rfl,rfl⟩
      | some stop =>
        obtain ⟨body,hbody⟩ := (slice_one_iff hmatch).mpr fun c hc => by
          obtain rfl : '{' = c := Option.some.inj hc
          rfl
        simp only [hbody]
        exact Or.inr ⟨body,rfl,rfl⟩

/-- The evaluation runs without a panic if and only if every round of the loop is steady. -/
theorem evaluateMinimal_safe_iff (src url host : Str) :
    (∃ r, evaluateMinimal src url host = .ok r) ↔
      ∀ body, scriptBody src = .ok (some body) → ∀ p, Visited url host body 0 p → Steady url host body p := by
  rcases evaluateMinimal_body src url host with ⟨hbody,hresult⟩ | ⟨body,hbody,hresult⟩
  · rw [hresult]
    refine iff_of_true ⟨none,rfl⟩ fun body hbody' => ?_
    cases hbody.symm.trans hbody'
  · rw [hresult,statements_safe_iff (atBoundary_zero body) none]
    constructor
    · intro hall body' hbody'
      obtain rfl : body = body' := Option.some.inj (Except.ok.inj (hbody.symm.trans hbody'))
      exact hall
    · intro hall
      exact hall body hbody

/-- The script `FindProxyForURL{   if {}}` -/
def indentedIf : Str := marker++['{',' ',' ',' ','i','f',' ','{','}','}']

/-- With three spaces before an `if`, its brace is looked for behind the end of the body. -/
theorem evaluateMinimal_panics :
    evaluateMinimal indentedIf [] [] = .error .panic ∧
      ¬∀ src url host, ∃ r, evaluateMinimal src url host = .ok r := by
  have hbody : evaluateMinimal indentedIf [] [] = statements [] [] [' ',' ',' ','i','f',' ','{','}'] 0 none := rfl
  have hturn : turn [] [] [' ',' ',' ','i','f',' ','{','}'] 0 = .error .panic := rfl
  have hpanic : evaluateMinimal indentedIf [] [] = .error .panic := by
    rw [hbody,statements_turn,hturn]
    rfl
  refine ⟨hpanic,fun hall => ?_⟩
  obtain ⟨r,hr⟩ := hall indentedIf [] []
  rw [hpanic] at hr
  cases hr

end Runs

end ZNet.PacSafety
