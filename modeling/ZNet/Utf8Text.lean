import ZNet.TextScan

/-!
# Text and its bytes

A text is a list of characters. Its bytes are its UTF-8 encoding, and its offsets count
bytes: a slice at an offset inside a character panics.
-/

namespace ZNet.Utf8Text
open TextScan

def utf8 (s : List Char) : List UInt8 := s.flatMap String.utf8EncodeChar

/-- Slicing out of bounds or inside a character. -/
inductive Panic
  | panic
deriving DecidableEq

/-- The length in bytes. -/
def len (s : List Char) : ℕ := extent Char.utf8Size s

/-- `&s[n..]` -/
def sliceFrom : ℕ → List Char → Except Panic (List Char)
  | 0,s => .ok s
  | _+1,[] => .error .panic
  | n+1,c::cs => if c.utf8Size ≤ n+1 then sliceFrom (n+1-c.utf8Size) cs else .error .panic

/-- `&s[..n]` -/
def sliceTo : ℕ → List Char → Except Panic (List Char)
  | 0,_ => .ok []
  | _+1,[] => .error .panic
  | n+1,c::cs =>
    if c.utf8Size ≤ n+1 then (sliceTo (n+1-c.utf8Size) cs).map (c::·) else .error .panic

/-- `&s[m..n]` -/
def slice (m n : ℕ) (s : List Char) : Except Panic (List Char) :=
  if m ≤ n then (sliceFrom m s).bind (sliceTo (n-m)) else .error .panic

/-- The offset of the first occurrence. -/
def find (needle s : List Char) : Option ℕ := (indexOf needle s).map fun i => len (s.take i)

def findChar (c : Char) (s : List Char) : Option ℕ := (s.idxOf? c).map fun i => len (s.take i)

/-- White space as Unicode defines it. -/
def isWhitespace (c : Char) : Bool :=
  decide (0x09 ≤ c.toNat ∧ c.toNat ≤ 0x0d ∨ c.toNat = 0x20 ∨ c.toNat = 0x85 ∨ c.toNat = 0xa0 ∨ c.toNat = 0x1680 ∨
    0x2000 ≤ c.toNat ∧ c.toNat ≤ 0x200a ∨ c.toNat = 0x2028 ∨ c.toNat = 0x2029 ∨ c.toNat = 0x202f ∨
    c.toNat = 0x205f ∨ c.toNat = 0x3000)

def trimStart (s : List Char) : List Char := s.dropWhile isWhitespace

def trim (s : List Char) : List Char := (trimStart s).rdropWhile isWhitespace

def trimMatches (c : Char) (s : List Char) : List Char := (s.dropWhile (· == c)).rdropWhile (· == c)

def trimEndMatches (c : Char) (s : List Char) : List Char := s.rdropWhile (· == c)

theorem utf8_append (s t : List Char) : utf8 (s++t) = utf8 s++utf8 t := List.flatMap_append

theorem utf8_cons (c : Char) (s : List Char) : utf8 (c::s) = String.utf8EncodeChar c++utf8 s := rfl

theorem utf8_injective {s t : List Char} (h : utf8 s = utf8 t) : s = t := by
  have hencode : s.utf8Encode = t.utf8Encode := congrArg List.toByteArray h
  have hdecode := congrArg ByteArray.utf8Decode? hencode
  rw [List.utf8Decode?_utf8Encode,List.utf8Decode?_utf8Encode] at hdecode
  exact congrArg Array.toList (Option.some.inj hdecode)

theorem utf8_eq_nil {s : List Char} : utf8 s = [] ↔ s = [] := by
  constructor
  · intro h
    exact utf8_injective (t:=[]) h
  · rintro rfl
    rfl

/-- A character is one byte below 128, or bytes from 128 on. -/
theorem utf8EncodeChar_cases (c : Char) :
    c.toNat < 128 ∧ String.utf8EncodeChar c = [UInt8.ofNat c.toNat] ∨
    128 ≤ c.toNat ∧ ∀ b ∈ String.utf8EncodeChar c, 128 ≤ b.toNat := by
  have hval : c.val.toNat = c.toNat := rfl
  rw [String.utf8EncodeChar]
  simp only [hval]
  by_cases hascii : c.toNat ≤ 127
  · rw [if_pos hascii]
    exact Or.inl ⟨by omega,rfl⟩
  · refine Or.inr ⟨by omega,?_⟩
    rw [if_neg hascii]
    split_ifs
    all_goals
      intro b hb
      simp only [List.mem_cons,List.not_mem_nil,or_false] at hb
      rcases hb with rfl | rfl | rfl | rfl
      all_goals
        rw [UInt8.toNat_ofNat']
        omega

section Offsets

theorem len_append (s t : List Char) : len (s++t) = len s+len t := extent_append s t

theorem len_cons (c : Char) (s : List Char) : len (c::s) = c.utf8Size+len s := rfl

theorem sliceFrom_add (s : List Char) (n : ℕ) (t : List Char) : sliceFrom (len s+n) (s++t) = sliceFrom n t := by
  induction s with
  | nil => exact congrArg (sliceFrom · t) (Nat.zero_add n)
  | cons c s ih =>
    have hpos := c.utf8Size_pos
    obtain ⟨m,hm⟩ : ∃ m, len (c::s)+n = m+1 := ⟨len (c::s)+n-1,by rw [len_cons]; omega⟩
    have hrest : m+1-c.utf8Size = len s+n := by
      rw [← hm,len_cons]
      omega
    rw [hm,List.cons_append,sliceFrom,hrest,ih,if_pos]
    rw [← hm,len_cons]
    omega

theorem sliceFrom_append (s t : List Char) : sliceFrom (len s) (s++t) = .ok t := by
  have hzero : sliceFrom 0 t = .ok t := by rw [sliceFrom]
  exact (sliceFrom_add s 0 t).trans hzero

theorem sliceTo_append (s t : List Char) : sliceTo (len s) (s++t) = .ok s := by
  induction s with
  | nil =>
    change sliceTo 0 t = .ok []
    rw [sliceTo]
  | cons c s ih =>
    have hpos := c.utf8Size_pos
    obtain ⟨n,hn⟩ : ∃ n, len (c::s) = n+1 := ⟨len (c::s)-1,by rw [len_cons]; omega⟩
    rw [hn,List.cons_append,sliceTo]
    rw [len_cons] at hn
    rw [if_pos (by omega),← hn,Nat.add_sub_cancel_left,ih]
    rfl

/-- A slice that does not panic cuts at a character. -/
theorem sliceFrom_ok {n : ℕ} {s t : List Char} (h : sliceFrom n s = .ok t) : ∃ u, s = u++t ∧ len u = n := by
  induction s generalizing n with
  | nil =>
    cases n with
    | zero =>
      cases h
      exact ⟨[],rfl,rfl⟩
    | succ n => cases h
  | cons c s ih =>
    cases n with
    | zero =>
      cases h
      exact ⟨[],rfl,rfl⟩
    | succ n =>
      rw [sliceFrom] at h
      split_ifs at h with hc
      obtain ⟨u,rfl,hu⟩ := ih h
      refine ⟨c::u,rfl,?_⟩
      rw [len_cons,hu]
      omega

theorem slice_append (s t u : List Char) : slice (len s) (len (s++t)) (s++(t++u)) = .ok t := by
  rw [slice,if_pos (by rw [len_append]; omega),sliceFrom_append,len_append,Nat.add_sub_cancel_left]
  exact sliceTo_append t u

theorem findChar_none {c : Char} {s : List Char} (h : c ∉ s) : findChar c s = none := by
  rw [findChar,List.idxOf?_eq_none_iff.mpr h]
  rfl

theorem findChar_append {c : Char} {s : List Char} (h : c ∉ s) (t : List Char) :
    findChar c (s++c::t) = some (len s) := by
  rw [findChar,idxOf?_append_cons h,Option.map_some,List.take_left]

theorem findChar_some {c : Char} {s : List Char} {n : ℕ} (h : findChar c s = some n) :
    ∃ u t, s = u++c::t ∧ len u = n ∧ c ∉ u := by
  rw [findChar,Option.map_eq_some_iff] at h
  obtain ⟨i,hi,hn⟩ := h
  rw [List.idxOf?_eq_some_iff] at hi
  obtain ⟨hlt,hget,hbefore⟩ := hi
  refine ⟨s.take i,s.drop (i+1),?_,hn,?_⟩
  · rw [← hget,List.getElem_cons_drop,List.take_append_drop]
  · intro hmem
    obtain ⟨j,hj,hjc⟩ := List.mem_take_iff_getElem.mp hmem
    exact hbefore j (by omega) hjc

theorem find_some {needle s : List Char} {n : ℕ} (h : find needle s = some n) :
    ∃ u t, s = u++(needle++t) ∧ len u = n := by
  rw [find,Option.map_eq_some_iff] at h
  obtain ⟨i,hi,hn⟩ := h
  obtain ⟨hcut,-,-⟩ := indexOf_some hi
  exact ⟨s.take i,s.drop (i+needle.length),by rw [← List.append_assoc]; exact hcut,hn⟩

/-- White space and what follows it. -/
theorem trimStart_split (s : List Char) :
    ∃ space, s = space++trimStart s ∧ len s-len (trimStart s) = len space := by
  have hsplit : s = s.takeWhile isWhitespace++trimStart s := (List.takeWhile_append_dropWhile).symm
  refine ⟨s.takeWhile isWhitespace,hsplit,?_⟩
  have hlen := congrArg len hsplit
  rw [len_append] at hlen
  omega

end Offsets

section Trimming

/-- White space around a text whose ends are none is cut away. -/
theorem trim_spaces {left s right : List Char} (hleft : ∀ c ∈ left, isWhitespace c = true)
    (hright : ∀ c ∈ right, isWhitespace c = true) (hfirst : ∀ c ∈ s.head?, isWhitespace c = false)
    (hlast : ∀ c ∈ s.getLast?, isWhitespace c = false) (hne : s ≠ []) : trim (left++(s++right)) = s :=
  dropWhile_padded hleft hright hfirst hlast hne

theorem trim_blank {s : List Char} (hs : ∀ c ∈ s, isWhitespace c = true) : trim s = [] := by
  have hstart : s.dropWhile isWhitespace = [] := List.dropWhile_eq_nil_iff.mpr hs
  rw [trim,trimStart,hstart]
  rfl

/-- Around a text without white space, all there is goes. -/
theorem trim_plain {left s right : List Char} (hleft : ∀ c ∈ left, isWhitespace c = true)
    (hright : ∀ c ∈ right, isWhitespace c = true) (hs : ∀ c ∈ s, isWhitespace c = false) :
    trim (left++(s++right)) = s := by
  cases s with
  | nil =>
    apply trim_blank
    intro c hc
    obtain hc|hc := List.mem_append.mp hc
    · exact hleft c hc
    · exact hright c hc
  | cons d s =>
    apply trim_spaces hleft hright
    · exact fun c hc => hs c (List.mem_of_mem_head? hc)
    · exact fun c hc => hs c (List.mem_of_getLast? hc)
    · exact List.cons_ne_nil d s

/-- Trimming takes away white space only. -/
theorem mem_trim {s : List Char} {c : Char} (hc : isWhitespace c = false) : c ∈ trim s ↔ c ∈ s := by
  have hdrop (t : List Char) : c ∈ t.dropWhile isWhitespace ↔ c ∈ t := by
    refine ⟨fun h => (List.dropWhile_suffix _).subset h,fun h => ?_⟩
    rw [← List.takeWhile_append_dropWhile (p:=isWhitespace) (l:=t),List.mem_append] at h
    exact h.resolve_left fun htake => by simp [List.mem_takeWhile_imp htake] at hc
  rw [trim,trimStart,List.rdropWhile,List.mem_reverse,hdrop,List.mem_reverse,hdrop]

end Trimming

section Transfer

/-- A predicate of ASCII characters, on characters and on bytes. -/
structure AsciiPredicate (p : Char → Bool) (q : UInt8 → Bool) : Prop where
  char : ∀ c, 128 ≤ c.toNat → p c = false
  byte : ∀ b, 128 ≤ b.toNat → q b = false
  agree : ∀ c, c.toNat < 128 → q (UInt8.ofNat c.toNat) = p c

variable {p : Char → Bool} {q : UInt8 → Bool}

theorem AsciiPredicate.delimiter (h : AsciiPredicate p q) {c : Char} (hc : p c = true) :
    String.utf8EncodeChar c = [UInt8.ofNat c.toNat] ∧ q (UInt8.ofNat c.toNat) = true := by
  rcases utf8EncodeChar_cases c with ⟨hascii,hencode⟩ | ⟨hlarge,-⟩
  · exact ⟨hencode,(h.agree c hascii).trans hc⟩
  · rw [h.char c hlarge] at hc
    cases hc

theorem AsciiPredicate.other (h : AsciiPredicate p q) {c : Char} (hc : p c = false) :
    ∀ b ∈ String.utf8EncodeChar c, q b = false := by
  rcases utf8EncodeChar_cases c with ⟨hascii,hencode⟩ | ⟨-,hbytes⟩
  · rw [hencode]
    intro b hb
    rw [List.mem_singleton.mp hb]
    exact (h.agree c hascii).trans hc
  · intro b hb
    exact h.byte b (hbytes b hb)

theorem AsciiPredicate.utf8 (h : AsciiPredicate p q) {s : List Char} (hs : ∀ c ∈ s, p c = false) :
    ∀ b ∈ utf8 s, q b = false := by
  intro b hb
  obtain ⟨c,hc,hb⟩ := List.mem_flatMap.mp hb
  exact h.other (hs c hc) b hb

/-- Membership in a list of ASCII characters, decided on the first 128. -/
theorem asciiPredicate_mem {cs : List Char} (hcs : ∀ c ∈ cs, c.toNat < 128) :
    AsciiPredicate (fun c => decide (c ∈ cs)) fun b => decide (b ∈ ascii cs) where
  char c hc := by
    apply decide_eq_false
    intro hmem
    exact absurd (hcs c hmem) (by omega)
  byte b hb := by
    apply decide_eq_false
    intro hmem
    obtain ⟨c,hc,rfl⟩ := List.mem_map.mp hmem
    have hlt := hcs c hc
    rw [UInt8.toNat_ofNat'] at hb
    omega
  agree c hc := by
    rw [decide_eq_decide]
    constructor
    · intro hmem
      obtain ⟨d,hd,heq⟩ := List.mem_map.mp hmem
      have hlt := hcs d hd
      have hnat := congrArg UInt8.toNat heq
      rw [UInt8.toNat_ofNat',UInt8.toNat_ofNat',Nat.mod_eq_of_lt (by omega),Nat.mod_eq_of_lt (by omega)] at hnat
      rwa [← Char.toNat_inj.mp hnat]
    · intro hmem
      exact List.mem_map_of_mem hmem

/-- A text without delimiters, or its part up to the first one. -/
theorem delimiter_cases (p : Char → Bool) (s : List Char) :
    (∀ c ∈ s, p c = false) ∨ ∃ w d t, s = w++d::t ∧ (∀ c ∈ w, p c = false) ∧ p d = true := by
  induction s with
  | nil => exact Or.inl nofun
  | cons c s ih =>
    by_cases hc : p c = true
    · exact Or.inr ⟨[],c,s,rfl,nofun,hc⟩
    · have hc' : p c = false := by simpa using hc
      rcases ih with hs | ⟨w,d,t,rfl,hw,hd⟩
      · refine Or.inl ?_
        intro d hd
        rcases List.mem_cons.mp hd with rfl | hd
        · exact hc'
        · exact hs d hd
      · refine Or.inr ⟨c::w,d,t,rfl,?_,hd⟩
        intro d hd
        rcases List.mem_cons.mp hd with rfl | hd
        · exact hc'
        · exact hw d hd

/-- The tokens of the bytes are the bytes of the tokens. -/
theorem tokenizeAny_utf8 (h : AsciiPredicate p q) (s : List Char) :
    tokenizeAny q (utf8 s) = (tokenizeAny p s).map utf8 := by
  have hword : ∀ w : List Char, (∀ c ∈ w, p c = false) → tokenizeAny q (utf8 w) = (tokenizeAny p w).map utf8 := by
    intro w hw
    by_cases hne : w = []
    · rw [hne]
      exact tokenizeAny_nil
    · rw [tokenizeAny_word hw hne,tokenizeAny_word (h.utf8 hw) (mt utf8_eq_nil.mp hne)]
      rfl
  induction hn : s.length using Nat.strong_induction_on generalizing s with
  | _ n ih =>
    rcases delimiter_cases p s with hs | ⟨w,d,t,rfl,hw,hd⟩
    · exact hword s hs
    · obtain ⟨hencode,hq⟩ := h.delimiter hd
      have hlength : t.length < n := by
        rw [← hn,List.length_append,List.length_cons]
        omega
      rw [utf8_append,utf8_cons,hencode,List.singleton_append,tokenizeAny_append_cons _ _ hq,
        tokenizeAny_append_cons _ _ hd,List.map_append,hword w hw,ih t.length hlength t rfl]

theorem plain_utf8 {s : List Char} (hs : Plain '{' '}' s) : Plain 0x7b 0x7d (utf8 s) := by
  have hbrace := asciiPredicate_mem (show ∀ c ∈ ['{','}'], c.toNat < 128 from List.all_iff_forall_prop.mp (by decide))
  have hne : ∀ c ∈ s, decide (c ∈ ['{','}']) = false := by
    intro c hc
    obtain ⟨hopen,hclose⟩ := hs c hc
    simp [hopen,hclose]
  intro b hb
  have hfalse := of_decide_eq_false (hbrace.utf8 hne b hb)
  constructor
  · rintro rfl
    exact hfalse (by decide)
  · rintro rfl
    exact hfalse (by decide)

theorem balanced_utf8 {s : List Char} (hs : Balanced '{' '}' s) : Balanced 0x7b 0x7d (utf8 s) := by
  induction hs with
  | plain h => exact Balanced.plain (plain_utf8 h)
  | @block before inner after hbefore _ _ hinner hafter =>
    have htext : utf8 (before++ '{'::(inner++ '}'::after)) = utf8 before++0x7b::(utf8 inner++0x7d::utf8 after) := by
      rw [utf8_append,utf8_cons,utf8_append,utf8_cons]
      rfl
    rw [htext]
    exact Balanced.block (plain_utf8 hbefore) hinner hafter

end Transfer

section Lossy

def isContinuation (b : UInt8) : Bool := decide (0x80 ≤ b ∧ b ≤ 0xbf)

/-- The number of bytes, at least one, that begin a character that is not there. -/
def invalidLength : List UInt8 → ℕ
  | b::c::rest =>
    if b = 0xe0 ∧ 0xa0 ≤ c ∧ c ≤ 0xbf ∨ 0xe1 ≤ b ∧ b ≤ 0xef ∧ b ≠ 0xed ∧ isContinuation c = true ∨
        b = 0xed ∧ 0x80 ≤ c ∧ c ≤ 0x9f then 2
    else if b = 0xf0 ∧ 0x90 ≤ c ∧ c ≤ 0xbf ∨ 0xf1 ≤ b ∧ b ≤ 0xf3 ∧ isContinuation c = true ∨
        b = 0xf4 ∧ 0x80 ≤ c ∧ c ≤ 0x8f then
      if rest.head?.any isContinuation then 3 else 2
    else 1
  | _ => 1

theorem invalidLength_pos (bytes : List UInt8) : 0 < invalidLength bytes := by
  rw [invalidLength.eq_def]
  split
  · split_ifs <;> decide
  · decide

/-- `String::from_utf8_lossy`: bytes that are no character become the replacement character. -/
def fromUtf8Lossy : List UInt8 → List Char
  | [] => []
  | b::bytes =>
    match (b::bytes).toByteArray.utf8DecodeChar? 0 with
    | some c => c::fromUtf8Lossy ((b::bytes).drop c.utf8Size)
    | none => Char.ofNat 0xfffd::fromUtf8Lossy ((b::bytes).drop (invalidLength (b::bytes)))
termination_by bytes => bytes.length
decreasing_by
  · have hpos := c.utf8Size_pos
    rw [List.length_drop,List.length_cons]
    omega
  · have hpos := invalidLength_pos (b::bytes)
    rw [List.length_drop,List.length_cons]
    omega

/-- Characters at the front are decoded as they are. -/
theorem fromUtf8Lossy_append (s : List Char) (bytes : List UInt8) :
    fromUtf8Lossy (utf8 s++bytes) = s++fromUtf8Lossy bytes := by
  induction s with
  | nil => rfl
  | cons c s ih =>
    have hpos := c.utf8Size_pos
    have hlength := String.length_utf8EncodeChar c
    have hdecode : (String.utf8EncodeChar c++(utf8 s++bytes)).toByteArray.utf8DecodeChar? 0 = some c := by
      rw [List.toByteArray_append]
      exact ByteArray.utf8DecodeChar?_utf8EncodeChar_append
    have hdrop : (String.utf8EncodeChar c++(utf8 s++bytes)).drop c.utf8Size = utf8 s++bytes := by
      rw [← hlength,List.drop_left]
    rw [utf8_cons,List.append_assoc,List.cons_append,← ih]
    cases hfront : String.utf8EncodeChar c++(utf8 s++bytes) with
    | nil =>
      have hnil := (List.append_eq_nil_iff.mp hfront).1
      rw [hnil,List.length_nil] at hlength
      omega
    | cons b rest =>
      rw [hfront] at hdecode hdrop
      rw [fromUtf8Lossy,hdecode]
      simp only [hdrop]

/-- A text is decoded to itself. -/
theorem fromUtf8Lossy_utf8 (s : List Char) : fromUtf8Lossy (utf8 s) = s := by
  have happend := fromUtf8Lossy_append s []
  rw [List.append_nil,fromUtf8Lossy,List.append_nil] at happend
  exact happend

theorem fromUtf8Lossy_cons (c : Char) (bytes : List UInt8) :
    fromUtf8Lossy (String.utf8EncodeChar c++bytes) = c::fromUtf8Lossy bytes := by
  have happend := fromUtf8Lossy_append [c] bytes
  rwa [utf8_cons,List.append_assoc] at happend

theorem utf8_ascii {s : List Char} (hs : ∀ c ∈ s, c.toNat < 128) : utf8 s = ascii s := by
  induction s with
  | nil => rfl
  | cons c s ih =>
    obtain ⟨hc,hrest⟩ := List.forall_mem_cons.mp hs
    rcases utf8EncodeChar_cases c with ⟨-,hencode⟩|⟨hlarge,-⟩
    · rw [utf8_cons,hencode,ih hrest]
      rfl
    · omega

variable {bytes : List UInt8} {c : Char}

/-- The bytes of the character that is decoded stand at the front. -/
theorem decoded_prefix (h : bytes.toByteArray.utf8DecodeChar? 0 = some c) :
    String.utf8EncodeChar c++bytes.drop c.utf8Size = bytes := by
  have hbytes := ByteArray.eq_of_utf8DecodeChar?_eq_some h
  have hlist := congrArg (fun b => b.data.toList) hbytes
  have hfront : bytes = String.utf8EncodeChar c++bytes.drop c.utf8Size := by
    simpa [List.take_of_length_le] using hlist
  exact hfront.symm

theorem invalidLength_le (hne : bytes ≠ []) : invalidLength bytes ≤ bytes.length := by
  rw [invalidLength.eq_def]
  split
  · next b d rest =>
    split_ifs with _ _ hrest
    · simp
    · cases rest with
      | nil => cases hrest
      | cons e rest => simp
    · simp
    · simp
  · exact List.length_pos_iff.mpr hne

/-- An ASCII byte is no part of a character that was begun before it. -/
theorem invalidLength_append_ascii {b : UInt8} (hb : b.toNat < 128) (hne : bytes ≠ []) (rest : List UInt8) :
    invalidLength (bytes++b::rest) = invalidLength bytes := by
  have hsmall : b < 0x80 := hb
  have hcontinuation : isContinuation b = false := by
    rw [isContinuation,decide_eq_false_iff_not]
    exact fun h => absurd h.1 (UInt8.not_le.mpr hsmall)
  match bytes,hne with
  | [d],_ =>
    have hlow : ∀ e : UInt8, 0x80 ≤ e → ¬e ≤ b := fun e he hle => absurd (UInt8.le_trans he hle) (UInt8.not_le.mpr hsmall)
    have ha0 := hlow 0xa0 (by decide)
    have h80 := hlow 0x80 (by decide)
    have h90 := hlow 0x90 (by decide)
    simp [invalidLength,hcontinuation,ha0,h80,h90]
  | [d,e],_ => simp [invalidLength,hcontinuation]
  | d::e::f::more,_ => rfl

/-- A byte below 128 is a character of its own, whatever stands before it. -/
theorem decode_append_ascii {b : UInt8} (hb : b.toNat < 128) (hne : bytes ≠ []) (rest : List UInt8)
    (hnone : bytes.toByteArray.utf8DecodeChar? 0 = none) :
    (bytes++b::rest).toByteArray.utf8DecodeChar? 0 = none := by
  cases hdecode : (bytes++b::rest).toByteArray.utf8DecodeChar? 0 with
  | none => rfl
  | some c =>
    have hfront := decoded_prefix hdecode
    have hlength := String.length_utf8EncodeChar c
    rcases Nat.lt_or_ge bytes.length c.utf8Size with hlong | hshort
    · -- the byte is inside the character
      have hmem : b ∈ String.utf8EncodeChar c := by
        have hget : (String.utf8EncodeChar c++(bytes++b::rest).drop c.utf8Size)[bytes.length]? = some b := by
          rw [hfront,List.getElem?_append_right (Nat.le_refl _),Nat.sub_self]
          rfl
        rw [List.getElem?_append_left (by omega)] at hget
        exact List.mem_of_getElem? hget
      have hpos := List.length_pos_iff.mpr hne
      rcases utf8EncodeChar_cases c with ⟨-,hencode⟩ | ⟨-,hlarge⟩
      · rw [hencode,List.length_singleton] at hlength
        omega
      · have hbyte := hlarge b hmem
        omega
    · -- the character is there without the byte
      have htake : (String.utf8EncodeChar c)++bytes.drop c.utf8Size = bytes := by
        have hcut := congrArg (List.take bytes.length) hfront
        rw [List.take_left' rfl,List.take_append,List.take_of_length_le (by omega),hlength,
          List.drop_append_of_le_length hshort,List.take_left' (by rw [List.length_drop])] at hcut
        exact hcut
      have hsome : (String.utf8EncodeChar c++bytes.drop c.utf8Size).toByteArray.utf8DecodeChar? 0 = some c := by
        rw [List.toByteArray_append]
        exact ByteArray.utf8DecodeChar?_utf8EncodeChar_append
      rw [htake,hnone] at hsome
      cases hsome

/-- Decoding cuts at an ASCII byte. -/
theorem fromUtf8Lossy_append_ascii {c : Char} (hc : c.toNat < 128) (bytes rest : List UInt8) :
    fromUtf8Lossy (bytes++UInt8.ofNat c.toNat::rest) = fromUtf8Lossy bytes++c::fromUtf8Lossy rest := by
  have hb : (UInt8.ofNat c.toNat).toNat < 128 := by
    rw [UInt8.toNat_ofNat']
    omega
  induction hn : bytes.length using Nat.strong_induction_on generalizing bytes with
  | _ n ih =>
    cases bytes with
    | nil =>
      rcases utf8EncodeChar_cases c with ⟨-,hencode⟩ | ⟨hlarge,-⟩
      · have hcons := fromUtf8Lossy_cons c rest
        rw [hencode] at hcons
        rw [List.nil_append,fromUtf8Lossy,List.nil_append]
        exact hcons
      · omega
    | cons d more =>
      have hne : d::more ≠ [] := List.cons_ne_nil d more
      cases hdecode : (d::more).toByteArray.utf8DecodeChar? 0 with
      | some e =>
        have hfront := decoded_prefix hdecode
        have hlength := congrArg List.length hfront
        rw [List.length_append,String.length_utf8EncodeChar,List.length_drop] at hlength
        have hpos := e.utf8Size_pos
        have hrest := ih ((d::more).drop e.utf8Size).length (by rw [List.length_drop]; omega) _ rfl
        rw [← hfront,List.append_assoc,fromUtf8Lossy_cons,fromUtf8Lossy_cons,hrest]
        rfl
      | none =>
        have hlonger := decode_append_ascii hb hne rest hdecode
        have hle := invalidLength_le hne
        have hpos := invalidLength_pos (d::more)
        have hrest := ih ((d::more).drop (invalidLength (d::more))).length (by rw [List.length_drop]; omega) _ rfl
        have hinvalid := invalidLength_append_ascii hb hne rest
        rw [List.cons_append] at hlonger hinvalid ⊢
        rw [fromUtf8Lossy,fromUtf8Lossy,hdecode,hlonger]
        simp only [hinvalid]
        rw [← List.cons_append,List.drop_append_of_le_length hle,hrest]
        rfl

/-- An ASCII character comes from its byte. -/
theorem mem_of_mem_fromUtf8Lossy (hc : c.toNat < 128) (h : c ∈ fromUtf8Lossy bytes) : UInt8.ofNat c.toNat ∈ bytes := by
  induction hn : bytes.length using Nat.strong_induction_on generalizing bytes with
  | _ n ih =>
    cases bytes with
    | nil =>
      rw [fromUtf8Lossy] at h
      cases h
    | cons d more =>
      have hlength : 0 < (d::more).length := List.length_pos_iff.mpr (List.cons_ne_nil d more)
      rw [fromUtf8Lossy] at h
      split at h
      · next e hdecode =>
        have hpos := e.utf8Size_pos
        rcases List.mem_cons.mp h with rfl | hrest
        · rcases utf8EncodeChar_cases c with ⟨-,hencode⟩ | ⟨hlarge,-⟩
          · rw [← decoded_prefix hdecode,hencode]
            exact List.mem_append_left _ (List.mem_singleton_self _)
          · omega
        · exact List.mem_of_mem_drop (ih _ (by rw [List.length_drop]; omega) hrest rfl)
      · have hpos := invalidLength_pos (d::more)
        rcases List.mem_cons.mp h with rfl | hrest
        · exact absurd hc (by decide)
        · exact List.mem_of_mem_drop (ih _ (by rw [List.length_drop]; omega) hrest rfl)

end Lossy

end ZNet.Utf8Text
