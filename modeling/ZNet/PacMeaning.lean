import ZNet.GlobLanguage
import ZNet.PacAgreement

/-!
# When the engine follows a PAC script

The rule that a script of conditional blocks means, and when `evaluateMinimal` returns it:
no block is ever entered, and the white space before an `if` moves the place where its
block is looked for.
-/

namespace ZNet.PacMeaning
open TextScan Utf8Text PacEvaluator PacScripts

abbrev Str := List Char

structure WhiteSpace where
  chars : Str
  space : ∀ c ∈ chars, isWhitespace c = true

/-- `if (condition) { return "value"; }` after some white space. -/
structure Block where
  space : WhiteSpace
  condition : Condition
  value : Literal

/-- Blocks and a final `return "value";` with white space around it. -/
structure Script where
  blocks : List Block
  space : WhiteSpace
  value : Literal
  trail : WhiteSpace

def Block.head (b : Block) : Str := ['i','f',' ','(']++(b.condition.text++[')',' '])

def Block.inner (b : Block) : Str := [' ']++(returnText b.value++[' '])

def Block.text (b : Block) : Str := b.space.chars++(b.head++ '{'::(b.inner++['}']))

/-- The statements from `blocks` on. -/
def Script.rest (s : Script) (blocks : List Block) : Str :=
  blocks.flatMap Block.text++(s.space.chars++(returnText s.value++s.trail.chars))

def Script.body (s : Script) : Str := s.rest s.blocks

def Script.text (s : Script) : Str := header++ '{'::(s.body++['}'])

/-- The meaning of a condition. -/
def Holds (url host : Str) : Condition → Prop
  | .isPlainHostName => '.' ∉ host
  | .dnsDomainIs suffix => suffix.chars <:+ host
  | .shExpMatch .url glob => GlobLanguage.Matches '*' '?' glob.chars url
  | .shExpMatch .host glob => GlobLanguage.Matches '*' '?' glob.chars host

instance (url host : Str) (c : Condition) : Decidable (Holds url host c) :=
  match c with
  | .isPlainHostName => inferInstanceAs (Decidable ('.' ∉ host))
  | .dnsDomainIs suffix => inferInstanceAs (Decidable (suffix.chars <:+ host))
  | .shExpMatch .url glob => decidable_of_iff _ (GlobLanguage.globMatch_iff '*' '?' glob.chars url)
  | .shExpMatch .host glob => decidable_of_iff _ (GlobLanguage.globMatch_iff '*' '?' glob.chars host)

/-- The value of the first block whose condition holds, or the final one. -/
def Script.rule (s : Script) (url host : Str) : Str :=
  match s.blocks.find? fun b => decide (Holds url host b.condition) with
  | some b => b.value.chars
  | none => s.value.chars

def Follows (s : Script) (url host : Str) : Prop :=
  evaluateMinimal s.text url host = .ok (some (s.rule url host))

/-- The white space before an `if` is counted from its brace on. It is empty, or it takes
as many bytes as the block, some blocks behind it and a part `u` of what stands before
the brace of a later block `c`, which then is skipped instead. -/
inductive Layout : List Block → Prop
  | final : Layout []
  | direct {b : Block} {bs : List Block} (hspace : b.space.chars = []) (h : Layout bs) : Layout (b::bs)
  | shifted {b c : Block} {skipped bs : List Block} {u t : Str} (hcut : c.space.chars++c.head = u++t)
      (hlen : len b.space.chars = len ('{'::(b.inner++['}']))+(len (skipped.flatMap Block.text)+len u))
      (h : Layout bs) : Layout (b::(skipped++c::bs))

/-- Arguments without braces, and values whose braces match. -/
structure Block.Closed (b : Block) : Prop where
  argument : ∀ a ∈ b.condition.argument, a.Braceless
  value : Balanced '{' '}' b.value.chars

/-- The rule is the final value, and the engine comes to the end of the script. -/
structure Followed (s : Script) (url host : Str) : Prop where
  blocks : ∀ b ∈ s.blocks, b.Closed
  value : Balanced '{' '}' s.value.chars
  rule : s.rule url host = s.value.chars
  layout : Layout s.blocks

structure Block.Braceless (b : Block) : Prop where
  argument : ∀ a ∈ b.condition.argument, a.Braceless
  value : b.value.Braceless

/-- No literal has a brace. -/
structure Script.Braceless (s : Script) : Prop where
  blocks : ∀ b ∈ s.blocks, b.Braceless
  value : s.value.Braceless

section Texts

variable {s : Script} {b : Block} {bs : List Block}

theorem Script.rest_nil (s : Script) : s.rest [] = s.space.chars++(returnText s.value++s.trail.chars) := rfl

theorem Script.rest_cons (s : Script) (b : Block) (bs : List Block) :
    s.rest (b::bs) = b.space.chars++(b.head++ '{'::(b.inner++ '}'::s.rest bs)) := by
  simp [Script.rest,Block.text]

theorem Script.rest_append (s : Script) (skipped bs : List Block) :
    s.rest (skipped++bs) = skipped.flatMap Block.text++s.rest bs := by
  rw [Script.rest,List.flatMap_append,List.append_assoc]
  rfl

theorem WhiteSpace.plain (w : WhiteSpace) : Plain '{' '}' w.chars := by
  intro c hc
  have hspace := w.space c hc
  constructor
  · rintro rfl
    exact absurd hspace (by decide)
  · rintro rfl
    exact absurd hspace (by decide)

theorem Block.opened (h : ∀ a ∈ b.condition.argument, a.Braceless) : Opened b.head where
  start := ⟨_,rfl⟩
  plain := plain_append (by decide) (plain_append (Condition.text_plain h) (by decide))

theorem Block.Closed.inner (h : b.Closed) : Balanced '{' '}' b.inner :=
  (Balanced.plain (by decide)).append ((returnText_balanced h.value).append (Balanced.plain (by decide)))

theorem rest_balanced (hbs : ∀ b ∈ bs, b.Closed) (hvalue : Balanced '{' '}' s.value.chars) :
    Balanced '{' '}' (s.rest bs) := by
  induction bs with
  | nil =>
    exact (Balanced.plain s.space.plain).append ((returnText_balanced hvalue).append (Balanced.plain s.trail.plain))
  | cons b bs ih =>
    have hb := hbs b (List.mem_cons_self ..)
    rw [Script.rest_cons,← List.append_assoc]
    exact Balanced.block (plain_append b.space.plain (Block.opened hb.argument).plain) hb.inner
      (ih fun c hc => hbs c (List.mem_cons_of_mem b hc))

theorem Block.Braceless.closed (h : b.Braceless) : b.Closed := ⟨h.argument,Balanced.plain h.value⟩

theorem Block.Braceless.inner (h : b.Braceless) : Plain '{' '}' b.inner :=
  plain_append (by decide) (plain_append (returnText_plain h.value) (by decide))

theorem final_plain (hvalue : s.value.Braceless) : Plain '{' '}' (s.rest []) := by
  rw [Script.rest_nil]
  exact plain_append s.space.plain (plain_append (returnText_plain hvalue) s.trail.plain)

theorem rest_flat (hbs : ∀ b ∈ bs, b.Braceless) (hvalue : s.value.Braceless) : Flat '{' '}' (s.rest bs) := by
  induction bs with
  | nil => exact Flat.plain (final_plain hvalue)
  | cons b bs ih =>
    have hb := hbs b (List.mem_cons_self ..)
    rw [Script.rest_cons,← List.append_assoc]
    exact Flat.block (plain_append b.space.plain (Block.opened hb.argument).plain) hb.inner
      (ih fun c hc => hbs c (List.mem_cons_of_mem b hc))

end Texts

section Steps

variable {s : Script} {url host pre : Str} {lastReturn : Option Str} {b c : Block} {skipped bs : List Block}

/-- Without white space before it, an `if` skips its own block. -/
theorem statements_direct (hb : b.Closed) (hspace : b.space.chars = []) :
    ∃ done, statements url host (pre++s.rest (b::bs)) (len pre) lastReturn =
      statements url host (done++s.rest bs) (len done) lastReturn := by
  have hnil : Plain '{' '}' [] := List.forall_mem_nil _
  have hcut : '{'::(b.inner++ '}'::s.rest bs) = []++([]++ '{'::(b.inner++ '}'::s.rest bs)) := rfl
  have hlen : len b.space.chars = len [] := congrArg len hspace
  rw [Script.rest_cons]
  obtain ⟨done,-,hstep⟩ := @statements_jump url host pre _ _ _ _ lastReturn b.space.space (Block.opened hb.argument)
    _ _ _ hcut hlen hnil hb.inner
  exact ⟨done,hstep⟩

/-- With white space that reaches a place before the brace of a later block, it skips that. -/
theorem statements_skipped (hb : b.Closed) (hc : c.Closed) {u t : Str} (hcut : c.space.chars++c.head = u++t)
    (hlen : len b.space.chars = len ('{'::(b.inner++['}']))+(len (skipped.flatMap Block.text)+len u)) :
    ∃ done, statements url host (pre++s.rest (b::(skipped++c::bs))) (len pre) lastReturn =
      statements url host (done++s.rest bs) (len done) lastReturn := by
  have hplain : Plain '{' '}' t := by
    have hboth := plain_append c.space.plain (Block.opened hc.argument).plain
    rw [hcut] at hboth
    exact fun d hd => hboth d (List.mem_append_right u hd)
  have hsplit : '{'::(b.inner++ '}'::s.rest (skipped++c::bs)) =
      ('{'::(b.inner++['}'])++(skipped.flatMap Block.text++u))++(t++ '{'::(c.inner++ '}'::s.rest bs)) := by
    have hrest : s.rest (c::bs) = u++(t++ '{'::(c.inner++ '}'::s.rest bs)) := by
      rw [Script.rest_cons,← List.append_assoc,hcut,List.append_assoc]
    rw [Script.rest_append,hrest]
    simp
  have hsize : len b.space.chars = len ('{'::(b.inner++['}'])++(skipped.flatMap Block.text++u)) := by
    rw [hlen,len_append,len_append]
  rw [Script.rest_cons]
  obtain ⟨done,-,hstep⟩ := @statements_jump url host pre _ _ _ _ lastReturn b.space.space (Block.opened hb.argument)
    _ _ _ hsplit hsize hplain hc.inner
  exact ⟨done,hstep⟩

/-- The engine comes to the end of a script that is laid out so. -/
theorem statements_layout (h : Layout bs) (hbs : ∀ b ∈ bs, b.Closed) (pre : Str) (lastReturn : Option Str) :
    statements url host (pre++s.rest bs) (len pre) lastReturn = .ok (some s.value.chars) := by
  induction h generalizing pre with
  | final => exact statements_final s.space.space s.value s.trail.space
  | @direct b bs hspace _ ih =>
    obtain ⟨done,hstep⟩ := statements_direct (hbs b (List.mem_cons_self ..)) hspace
    rw [hstep]
    exact ih (fun c hc => hbs c (List.mem_cons_of_mem b hc)) done
  | @shifted b c skipped bs u t hcut hlen _ ih =>
    obtain ⟨done,hstep⟩ := statements_skipped (hbs b (List.mem_cons_self ..)) (hbs c (by simp)) hcut hlen
    rw [hstep]
    exact ih (fun d hd => hbs d (by simp [hd])) done

end Steps

section Places

variable {s : Script} {url host w tail : Str} {b : Block} {bs : List Block}

theorem matchBrace_none {t : Str} (ht : Plain '{' '}' t) : PacEvaluator.matchBrace t = none := by
  have h : TextScan.matchBrace Char.utf8Size '{' '}' 0 0 (t++[]) = none := matchBrace_plain ht 0 0 []
  rwa [List.append_nil] at h

/-- A place inside a block, from which no brace matches, or behind it. -/
theorem cut_block {inner t : Str} (hinner : Plain '{' '}' inner) (ht : Flat '{' '}' t) (h : inner++ '}'::t = w++tail) :
    PacEvaluator.matchBrace tail = none ∨ ∃ y, w = inner++ '}'::y ∧ t = y++tail := by
  have hinside : ∀ m, Plain '{' '}' m → PacEvaluator.matchBrace (m++ '}'::t) = none := by
    intro m hm
    exact matchBrace_inside (by decide) hm ht 0
  rcases List.append_eq_append_iff.mp h with ⟨m,rfl,hm⟩ | ⟨m,rfl,rfl⟩
  · cases m with
    | nil =>
      left
      rw [List.nil_append] at hm
      rw [← hm]
      exact hinside [] (List.forall_mem_nil _)
    | cons c m =>
      obtain ⟨rfl,rfl⟩ := List.cons.inj hm
      exact Or.inr ⟨m,rfl,rfl⟩
  · left
    exact hinside m fun c hc => hinner c (List.mem_append_right w hc)

/-- A place from which a brace matches is outside all blocks and before the brace of one. -/
theorem cut_rest (hbs : ∀ b ∈ bs, b.Braceless) (hvalue : s.value.Braceless) (h : s.rest bs = w++tail) :
    PacEvaluator.matchBrace tail = none ∨ ∃ skipped c cs u t, bs = skipped++c::cs ∧
      w = skipped.flatMap Block.text++u ∧ c.space.chars++c.head = u++t := by
  induction bs generalizing w with
  | nil =>
    left
    apply matchBrace_none
    have hfinal := final_plain hvalue
    rw [h] at hfinal
    exact fun c hc => hfinal c (List.mem_append_right w hc)
  | cons b bs ih =>
    have hrest := fun c hc => hbs c (List.mem_cons_of_mem b hc)
    rw [Script.rest_cons,← List.append_assoc] at h
    rcases List.append_eq_append_iff.mp h with ⟨m,rfl,hm⟩ | ⟨m,hfront,-⟩
    · cases m with
      | nil => exact Or.inr ⟨[],b,bs,_,[],rfl,rfl,by simp⟩
      | cons c m =>
        obtain ⟨rfl,hbehind⟩ := List.cons.inj hm
        rcases cut_block (hbs b (List.mem_cons_self ..)).inner (rest_flat hrest hvalue) hbehind with hnone | ⟨y,rfl,hy⟩
        · exact Or.inl hnone
        · rcases ih hrest hy with hnone | ⟨skipped,c,cs,u,t,rfl,rfl,hcut⟩
          · exact Or.inl hnone
          · refine Or.inr ⟨b::skipped,c,cs,u,t,rfl,?_,hcut⟩
            simp [Block.text]
    · exact Or.inr ⟨[],b,bs,w,m,rfl,rfl,hfront⟩

/-- The engine returns no rule unless the script is laid out so. -/
theorem layout_of_statements (hbs : ∀ b ∈ bs, b.Braceless) (hvalue : s.value.Braceless) (pre : Str) {v : Str}
    {lastReturn : Option Str} (h : statements url host (pre++s.rest bs) (len pre) lastReturn = .ok (some v)) :
    Layout bs := by
  induction hn : bs.length using Nat.strong_induction_on generalizing bs pre with
  | _ n ih =>
    cases bs with
    | nil => exact Layout.final
    | cons b bs =>
      have hb := hbs b (List.mem_cons_self ..)
      have hrest := fun c hc => hbs c (List.mem_cons_of_mem b hc)
      rw [List.length_cons] at hn
      by_cases hspace : b.space.chars = []
      · obtain ⟨done,hstep⟩ := @statements_direct s url host pre lastReturn b bs hb.closed hspace
        rw [hstep] at h
        exact Layout.direct hspace (ih bs.length (by omega) hrest done h rfl)
      · have hclosed := h
        rw [Script.rest_cons,statements_closed b.space.space (Block.opened hb.argument)] at hclosed
        cases hslice : sliceFrom (len b.space.chars) ('{'::(b.inner++ '}'::s.rest bs)) with
        | error e =>
          rw [hslice] at hclosed
          cases hclosed
        | ok tail =>
          have hmatch : PacEvaluator.matchBrace tail ≠ none := by
            intro hnone
            rw [hslice] at hclosed
            simp only [Except.bind,hnone] at hclosed
            cases hclosed
          obtain ⟨w,hw,hlen⟩ := sliceFrom_ok hslice
          cases w with
          | nil =>
            have hpos := len_pos hspace
            rw [← hlen] at hpos
            exact absurd hpos (Nat.lt_irrefl 0)
          | cons d w =>
            obtain ⟨rfl,hbehind⟩ := List.cons.inj hw
            obtain ⟨y,rfl,hy⟩ := (cut_block hb.inner (rest_flat hrest hvalue) hbehind).resolve_left hmatch
            obtain ⟨skipped,c,cs,u,t,rfl,rfl,hcut⟩ := (cut_rest hrest hvalue hy).resolve_left hmatch
            have hsize : len b.space.chars =
                len ('{'::(b.inner++['}']))+(len (skipped.flatMap Block.text)+len u) := by
              rw [← hlen,← len_append,← len_append]
              simp
            obtain ⟨done,hstep⟩ := @statements_skipped s url host pre lastReturn b c skipped cs hb.closed
              (hrest c (by simp)).closed _ _ hcut hsize
            rw [hstep] at h
            refine Layout.shifted hcut hsize (ih cs.length ?_ (fun d hd => hrest d (by simp [hd])) done h rfl)
            rw [← hn,List.length_append,List.length_cons]
            omega

end Places

section Meaning

variable {s : Script} {url host : Str}

theorem evaluateMinimal_layout (hblocks : ∀ b ∈ s.blocks, b.Closed) (hvalue : Balanced '{' '}' s.value.chars)
    (h : Layout s.blocks) : evaluateMinimal s.text url host = .ok (some s.value.chars) :=
  (evaluateMinimal_text (rest_balanced hblocks hvalue) []).trans (statements_layout h hblocks [] none)

theorem Followed.follows (h : Followed s url host) : Follows s url host := by
  rw [Follows,h.rule]
  exact evaluateMinimal_layout h.blocks h.value h.layout

theorem Follows.followed (hs : s.Braceless) (h : Follows s url host) : Followed s url host := by
  have hblocks : ∀ b ∈ s.blocks, b.Closed := fun b hb => (hs.blocks b hb).closed
  have hvalue : Balanced '{' '}' s.value.chars := Balanced.plain hs.value
  have hbody : statements url host ([]++s.rest s.blocks) (len []) none = .ok (some (s.rule url host)) :=
    (evaluateMinimal_text (rest_balanced hblocks hvalue) []).symm.trans h
  have hlayout := layout_of_statements hs.blocks hs.value [] hbody
  refine ⟨hblocks,hvalue,?_,hlayout⟩
  exact Option.some.inj (Except.ok.inj (h.symm.trans (evaluateMinimal_layout hblocks hvalue hlayout)))

/-- The engine returns the rule of a script that is followed, and where no literal has a
brace of no other. -/
theorem follows_iff (s : Script) (url host : Str) :
    (Followed s url host → Follows s url host) ∧ (s.Braceless → Follows s url host → Followed s url host) := by
  constructor
  · intro h
    exact h.follows
  · intro hs h
    exact h.followed hs

def noSpace : WhiteSpace := ⟨[],List.forall_mem_nil _⟩

def oneSpace : WhiteSpace := ⟨[' '],List.forall_mem_singleton.mpr rfl⟩

/-- `if (isPlainHostName(host)) { return "SOCKS5 a:1"; } return "PROXY b:2";` -/
def plainSocks : Script where
  blocks := [⟨noSpace,.isPlainHostName,⟨['S','O','C','K','S','5',' ','a',':','1'],by decide⟩⟩]
  space := oneSpace
  value := ⟨['P','R','O','X','Y',' ','b',':','2'],by decide⟩
  trail := oneSpace

theorem plainSocks_braceless : plainSocks.Braceless where
  blocks b hb := by
    rw [List.mem_singleton.mp hb]
    exact ⟨fun _ ha => (Option.some_ne_none _ ha.symm).elim,by decide⟩
  value := by decide

theorem plainSocks_layout : Layout plainSocks.blocks := Layout.direct rfl Layout.final

theorem follows_iff_plainSocks :
    Follows plainSocks ['a','.','b'] ['a','.','b'] ∧ Followed plainSocks ['a','.','b'] ['a','.','b'] := by
  have hfollowed : Followed plainSocks ['a','.','b'] ['a','.','b'] :=
    ⟨fun b hb => (plainSocks_braceless.blocks b hb).closed,Balanced.plain plainSocks_braceless.value,by decide,
      plainSocks_layout⟩
  have hfollows := (follows_iff plainSocks ['a','.','b'] ['a','.','b']).1 hfollowed
  exact ⟨hfollows,(follows_iff plainSocks _ _).2 plainSocks_braceless hfollows⟩

/-- The same script with a space before its first statement. -/
def spacedSocks : Script := { plainSocks with blocks := plainSocks.blocks.map fun b => { b with space := oneSpace } }

/-- With that space the block is looked for inside it, and nothing is returned. -/
theorem evaluateMinimal_spacedSocks (url host : Str) : evaluateMinimal spacedSocks.text url host = .ok none := by
  have hblocks : ∀ b ∈ spacedSocks.blocks, b.Closed := by
    intro b hb
    obtain ⟨c,hc,rfl⟩ := List.mem_map.mp hb
    have hclosed := (plainSocks_braceless.blocks c hc).closed
    exact ⟨hclosed.argument,hclosed.value⟩
  refine (evaluateMinimal_text (rest_balanced hblocks (Balanced.plain plainSocks_braceless.value)) []).trans ?_
  have hblock := hblocks _ (List.mem_cons_self ..)
  -- the text behind the first byte of the block has no matching brace
  exact @statements_closed url host [] _ _ _ none oneSpace.space (Block.opened hblock.argument)

/-- For a plain host name, the first script means `SOCKS5 a:1`, and the engine returns
`PROXY b:2`; for the second it returns nothing. -/
theorem follows_fails :
    plainSocks.rule ['i','n','t','r','a'] ['i','n','t','r','a'] = ['S','O','C','K','S','5',' ','a',':','1'] ∧
    evaluateMinimal plainSocks.text ['i','n','t','r','a'] ['i','n','t','r','a'] =
      .ok (some ['P','R','O','X','Y',' ','b',':','2']) ∧
    evaluateMinimal spacedSocks.text ['i','n','t','r','a'] ['i','n','t','r','a'] = .ok none ∧
    ¬∀ s url host, Follows s url host := by
  have hblocks : ∀ b ∈ plainSocks.blocks, b.Closed := fun b hb => (plainSocks_braceless.blocks b hb).closed
  refine ⟨by decide,?_,evaluateMinimal_spacedSocks _ _,fun h => ?_⟩
  · exact evaluateMinimal_layout hblocks (Balanced.plain plainSocks_braceless.value) plainSocks_layout
  · have hfollows := h spacedSocks [] []
    rw [Follows,evaluateMinimal_spacedSocks] at hfollows
    cases hfollows

end Meaning

end ZNet.PacMeaning
