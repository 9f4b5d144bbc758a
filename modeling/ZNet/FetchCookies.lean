import ZNet.Utf8Text

/-!
# Storing cookies of the fetch layer

`store_cookie` cuts a `Set-Cookie` text at semicolons and its first part at every equals
sign, and passes the first two pieces of it to the cookie store as C strings.
-/

namespace ZNet.FetchCookies
open TextScan Utf8Text

abbrev Str := List Char

/-- A call of `Zawra_Cookie_Put`. -/
structure CookiePut where
  hash : UInt64×UInt64
  name : List UInt8
  value : List UInt8
  expiry : UInt64
  flags : UInt8
deriving DecidableEq

/-- `CString::new(s).unwrap()` -/
def cString (s : Str) : Except Panic (List UInt8) := if '\x00' ∈ s then .error .panic else .ok (utf8 s)

/-- The call that is made, if any. `hash` is `Zawra_Hash_String`, and `host` that of the URL. -/
def storeCookie (hash : List UInt8 → UInt64×UInt64) (host : Option Str) (cookieStr : Str) :
    Except Panic (Option CookiePut) :=
  match host with
  | none => .ok none
  | some host => do
    let hostC ← cString host
    match (cookieStr.splitOn ';').head? with
    | none => pure none
    | some part =>
      match part.splitOn '=' with
      | name::value::_ => do
        let name ← cString (Utf8Text.trim name)
        let value ← cString (Utf8Text.trim value)
        pure (some ⟨hash hostC,name,value,0,0⟩)
      | _ => pure none

/-- `name=value`, perhaps with a semicolon and attributes behind it. -/
def setCookie (name value : Str) (attributes : Option Str) : Str :=
  name++ '='::(value++(attributes.map (';'::·)).getD [])

/-- The cookie store is called with this name and this value, without the white space
around them. -/
def Stores (hash : List UInt8 → UInt64×UInt64) (host : Option Str) (cookieStr name value : Str) : Prop :=
  ∃ put, storeCookie hash host cookieStr = .ok (some put) ∧ put.name = utf8 (Utf8Text.trim name) ∧
    put.value = utf8 (Utf8Text.trim value)

section Parts

variable {name value : Str}

/-- The first part has the name and the value, whatever the attributes are. -/
theorem head_part (hname : ';' ∉ name) (hvalue : ';' ∉ value) (attributes : Option Str) :
    ((setCookie name value attributes).splitOn ';').head? = some (name++ '='::value) := by
  have hpart : ';' ∉ name++ '='::value := by
    simp [hname,hvalue]
  cases attributes with
  | none =>
    rw [setCookie,Option.map_none,Option.getD_none,List.append_nil,List.splitOn_eq_singleton hpart]
    rfl
  | some attributes =>
    have htext : setCookie name value (some attributes) = (name++ '='::value)++ ';'::attributes := by
      simp [setCookie]
    rw [htext,List.splitOn_append_cons_self_of_not_mem hpart]
    rfl

/-- The piece behind the name ends at the first equals sign of the value. -/
theorem name_value_pieces (hname : '=' ∉ name) :
    ∃ first rest, (name++ '='::value).splitOn '=' = name::first::rest ∧ '=' ∉ first ∧
      ('=' ∉ value → first = value) := by
  rw [List.splitOn_append_cons_self_of_not_mem hname]
  cases hparts : value.splitOn '=' with
  | nil => exact (List.splitOn_ne_nil _ _ hparts).elim
  | cons first rest =>
    refine ⟨first,rest,rfl,?_,?_⟩
    · intro hmem
      have hpiece := mem_splitOnP (hparts ▸ List.mem_cons_self : first ∈ value.splitOn '=')
      exact absurd (hpiece _ hmem) (by decide)
    · intro hvalue
      rw [List.splitOn_eq_singleton hvalue] at hparts
      exact (List.cons.inj hparts).1.symm

/-- What is stored, piece by piece: the host, the name and the piece behind it. -/
theorem storeCookie_eq (hash : List UInt8 → UInt64×UInt64) {host : Option Str} {first : Str} {rest : List Str}
    {attributes : Option Str} {put : CookiePut} (hname : ';' ∉ name) (hvalue : ';' ∉ value)
    (hpieces : (name++ '='::value).splitOn '=' = name::first::rest) :
    storeCookie hash host (setCookie name value attributes) = .ok (some put) ↔
      ∃ h, host = some h ∧ '\x00' ∉ h ∧ '\x00' ∉ name ∧ '\x00' ∉ first ∧
        put = ⟨hash (utf8 h),utf8 (Utf8Text.trim name),utf8 (Utf8Text.trim first),0,0⟩ := by
  cases host with
  | none => simp [storeCookie]
  | some h =>
    rw [storeCookie]
    simp only [head_part hname hvalue attributes,hpieces,Option.some.injEq,exists_eq_left',cString,
      mem_trim (by decide : isWhitespace '\x00' = false)]
    split_ifs <;> simp_all [Bind.bind,Except.bind,pure,Except.pure,eq_comm]

end Parts

/-- Name and value are stored as they were sent exactly if the URL has a host, no equals
sign is in the value, and there is no zero character to end a C string before its time. -/
theorem stores_iff (hash : List UInt8 → UInt64×UInt64) (host : Option Str) (name value : Str)
    (attributes : Option Str) (hname : '=' ∉ name ∧ ';' ∉ name) (hvalue : ';' ∉ value) :
    Stores hash host (setCookie name value attributes) name value ↔
      (∃ h, host = some h ∧ '\x00' ∉ h) ∧ '=' ∉ value ∧ '\x00' ∉ name ∧ '\x00' ∉ value := by
  obtain ⟨first,rest,hpieces,hfirst,hwhole⟩ := @name_value_pieces name value hname.1
  constructor
  · rintro ⟨put,hput,-,hstored⟩
    obtain ⟨h,hhost,hhost_zero,hname_zero,hfirst_zero,rfl⟩ := (storeCookie_eq hash hname.2 hvalue hpieces).mp hput
    have hsame : Utf8Text.trim first = Utf8Text.trim value := utf8_injective hstored
    -- the stored piece has no equals sign, and trimming takes none away
    have hequals : '=' ∉ value := by
      rwa [← mem_trim (by decide),← hsame,mem_trim (by decide)]
    rw [hwhole hequals] at hfirst_zero
    exact ⟨⟨h,hhost,hhost_zero⟩,hequals,hname_zero,hfirst_zero⟩
  · rintro ⟨⟨h,hhost,hhost_zero⟩,hequals,hname_zero,hvalue_zero⟩
    obtain rfl := hwhole hequals
    exact ⟨_,(storeCookie_eq hash hname.2 hvalue hpieces).mpr ⟨h,hhost,hhost_zero,hname_zero,hvalue_zero,rfl⟩,rfl,rfl⟩

/-- The length of the host as its hash. -/
def lengthHash (bytes : List UInt8) : UInt64×UInt64 := (bytes.length.toUInt64,0)

theorem stores_iff_session : Stores lengthHash (some "example.com".toList)
    (setCookie "session_id".toList " 12345".toList (some " Path=/".toList)) "session_id".toList " 12345".toList :=
  (stores_iff lengthHash (some "example.com".toList) "session_id".toList " 12345".toList (some " Path=/".toList)
    (by decide) (by decide)).mpr ⟨⟨"example.com".toList,rfl,by decide⟩,by decide,by decide,by decide⟩

/-- Of the value `b=` only the part before its padding is stored. -/
theorem padded_value_cut :
    storeCookie lengthHash (some "a.b".toList) (setCookie "t".toList "b=".toList none) =
      .ok (some ⟨(3,0),[116],[98],0,0⟩) ∧
    ¬Stores lengthHash (some "a.b".toList) (setCookie "t".toList "b=".toList none) "t".toList "b=".toList := by
  have hstored : storeCookie lengthHash (some "a.b".toList) (setCookie "t".toList "b=".toList none) =
      .ok (some ⟨(3,0),[116],[98],0,0⟩) := by decide
  refine ⟨hstored,?_⟩
  rintro ⟨put,hput,-,hvalue⟩
  rw [hstored] at hput
  obtain rfl := Option.some.inj (Except.ok.inj hput)
  exact absurd hvalue (by decide)

end ZNet.FetchCookies
