import ZNet.HttpGrammar
import Mathlib.Data.List.Dedup

/-!
# The checks of a browser

A response may be shared with an origin if its headers say so, and a request with an unusual
method or unusual headers is sent only after the answer to another request has listed them.
That request names the headers in small letters, each once and in order. A list is tokens with
commas between, and blanks around them.
-/

namespace ZNet.CorsProtocol
open TextScan HttpGrammar

def comma : UInt8 := 0x2c

def wildcard : Str := [0x2a]

/-- The headers of a response that the checks read. -/
structure CorsHeaders where
  allowOrigin : Option Str
  allowCredentials : Option Str
  allowMethods : Option Str
  allowHeaders : Option Str

/-- A request that needs to be allowed first, with the names of its unusual headers. -/
structure CorsRequest where
  origin : Str
  method : Str
  names : List Str
  credentials : Bool
  token_method : IsToken method
  token_names : ∀ name ∈ names, IsToken name

/-- The tokens of a list. Empty elements are left out, and anything else makes it no list. -/
def listed (value : Str) : Option (List Str) :=
  let elements := ((value.splitOn comma).map (trim blanks)).filter fun element => !element.isEmpty
  if elements.all fun element => element.all isTchar then some elements else none

/-- The names of the unusual headers as they are asked for. -/
def CorsRequest.asked (request : CorsRequest) : List Str :=
  (request.names.map (·.map toLower)).dedup.mergeSort fun name name' => decide (name ≤ name')

/-- The methods that need not be listed. -/
def safelistedMethods : List Str := [ascii "GET".toList,ascii "HEAD".toList,ascii "POST".toList]

/-- The one header that the wildcard does not stand for. -/
def authorization : Str := ascii "authorization".toList

/-- The response may be shared with the origin. -/
def CorsHeaders.Shared (headers : CorsHeaders) (origin : Str) (credentials : Bool) : Prop :=
  ∃ allowed, headers.allowOrigin = some allowed ∧
    (credentials = false ∧ allowed = wildcard ∨
      allowed = origin ∧ (credentials = true → headers.allowCredentials = some (ascii "true".toList)))

def CorsRequest.MethodListed (request : CorsRequest) (methods : List Str) : Prop :=
  request.method ∈ methods ∨ request.method ∈ safelistedMethods ∨ request.credentials = false ∧ wildcard ∈ methods

def CorsRequest.NameListed (request : CorsRequest) (names : List Str) (name : Str) : Prop :=
  (∃ listedName ∈ names, SameLetters listedName name) ∨
    request.credentials = false ∧ wildcard ∈ names ∧ ¬SameLetters authorization name

/-- After the answer the request itself may be sent. A header that is not there is an empty
list. -/
structure CorsHeaders.Permits (headers : CorsHeaders) (request : CorsRequest) : Prop where
  shared : headers.Shared request.origin request.credentials
  methods : ∃ methods, headers.allowMethods.elim (some []) listed = some methods ∧ request.MethodListed methods
  names : ∃ names, headers.allowHeaders.elim (some []) listed = some names ∧
    ∀ name ∈ request.names, request.NameListed names name

section Asked

theorem isTchar_toLower {b : UInt8} (h : isTchar b = true) : isTchar (toLower b) = true := by
  rcases toLower_cases b with ⟨hlow,hhigh,hb⟩ | ⟨-,hb⟩
  · have hletter : isLetter (toLower b) = true := by
      rw [isLetter,decide_eq_true_eq]
      right
      rw [UInt8.le_iff_toNat_le,UInt8.le_iff_toNat_le,hb]
      exact ⟨Nat.add_le_add_right hlow 0x20,Nat.add_le_add_right hhigh 0x20⟩
    simp [isTchar,hletter]
  · rw [hb]
    exact h

theorem CorsRequest.mem_asked (request : CorsRequest) (name : Str) :
    name ∈ request.asked ↔ ∃ written ∈ request.names, written.map toLower = name := by
  rw [asked,List.mem_mergeSort,List.mem_dedup,List.mem_map]

/-- In small letters a name is a token as before. -/
theorem CorsRequest.token_asked (request : CorsRequest) : ∀ name ∈ request.asked, IsToken name := by
  intro name hname
  obtain ⟨written,hwritten,rfl⟩ := (request.mem_asked name).mp hname
  obtain ⟨hne,htoken⟩ := request.token_names written hwritten
  refine ⟨by simpa using hne,?_⟩
  rw [List.all_map]
  exact List.all_eq_true.mpr fun b hb => isTchar_toLower (List.all_eq_true.mp htoken b hb)

end Asked

section Lists

variable {names : List Str} {name : Str}

theorem comma_notMem (h : IsToken name) : comma ∉ name := h.notMem rfl

/-- The elements of a list with a comma and a blank between them. -/
theorem splitOn_join (h : ∀ name ∈ names, comma ∉ name) (first : Str) (hfirst : comma ∉ first) :
    ([comma,0x20].intercalate (first::names)).splitOn comma = first::names.map (0x20::·) := by
  induction names generalizing first with
  | nil => rw [List.intercalate_singleton,List.splitOn_eq_singleton hfirst,List.map_nil]
  | cons second names ih =>
    have hsecond := h second List.mem_cons_self
    have hrest := ih (fun name hname => h name (List.mem_cons_of_mem _ hname)) second hsecond
    have hne : ((0x20 : UInt8) == comma) = false := rfl
    rw [List.intercalate_cons_cons]
    simp only [List.append_assoc,List.cons_append,List.nil_append]
    rw [List.splitOn_append_cons_self_of_not_mem hfirst,List.splitOn_cons_eq_if_modifyHead,hne,hrest]
    rfl

theorem trim_token (h : IsToken name) : trim blanks name = name ∧ trim blanks (0x20::name) = name := by
  have hblank : ∀ b ∈ [(0x20 : UInt8)], b ∈ blanks := by simp [blanks]
  have hplain := trim_value (IsToken.isValue h) (List.forall_mem_nil _) (List.forall_mem_nil (· ∈ blanks))
  have hpadded := trim_value (IsToken.isValue h) hblank (List.forall_mem_nil (· ∈ blanks))
  rw [List.append_nil] at hplain hpadded
  exact ⟨hplain,hpadded⟩

/-- What is joined is listed. -/
theorem listed_join (h : ∀ name ∈ names, IsToken name) : listed ([comma,0x20].intercalate names) = some names := by
  have helements : (([comma,0x20].intercalate names).splitOn comma).map (trim blanks) =
      if names = [] then [[]] else names := by
    cases names with
    | nil => rfl
    | cons first names =>
      have hfirst := h first List.mem_cons_self
      have hnames : ∀ name ∈ names, IsToken name := fun name hname => h name (List.mem_cons_of_mem _ hname)
      have hpadded : (names.map (0x20::·)).map (trim blanks) = names := by
        rw [List.map_map]
        exact (List.map_congr_left fun name hname => (trim_token (hnames name hname)).2).trans (List.map_id names)
      rw [splitOn_join (fun name hname => comma_notMem (hnames name hname)) first (comma_notMem hfirst),List.map_cons,
        (trim_token hfirst).1,hpadded,if_neg (List.cons_ne_nil _ _)]
  have hnonempty : names.filter (fun element => !element.isEmpty) = names := by
    apply List.filter_eq_self.mpr
    intro name hname
    simpa using (h name hname).1
  have htokens : (names.all fun element => element.all isTchar) = true := by
    apply List.all_eq_true.mpr
    intro name hname
    exact (h name hname).2
  rw [listed,helements]
  split
  · rename_i hnil
    rw [hnil]
    rfl
  · rw [hnonempty,if_pos htokens]

end Lists

end ZNet.CorsProtocol
