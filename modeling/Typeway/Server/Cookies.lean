import Typeway.Base.IndexMap
import Typeway.Base.Text
import Typeway.Base.Utf8
import Typeway.Server.Typed

/-!
# Cookies

The two extractors of `extract.rs` that read cookies. `Cookie` takes the first one of its name, and
`CookieJar` keeps the last one of each.
-/

namespace Typeway.Server

open Typeway.Core Segments Text

variable {X T : Type}

/-- The text of the `Cookie` header, empty without one. -/
def Parts.cookies (parts : Parts X) : Str :=
  ((parts.headers.find? fun h => h.1 = "cookie".toList).bind fun h => headerToStr h.2).getD []

/-- `str::strip_prefix` -/
def strStripPrefix (pat text : Str) : Option Str :=
  if pat.isPrefixOf text then some (text.drop pat.length) else none

structure NamedCookie (T : Type) where
  cookieName : Str
  fromValue : Str → Except Str T

namespace NamedCookie

/-- The value that a pair has for a name. -/
def valueOf (name pair : Str) : Option Str :=
  (strStripPrefix name (trim pair)).bind (strStripPrefix ['='])

/-- The value that is handed to `from_value`. -/
def value (name : Str) (parts : Parts X) : Option Str :=
  (parts.cookies.splitOn ';').findSome? (valueOf name)

/-- `Cookie::from_request_parts` -/
def fromRequestParts (C : NamedCookie T) (parts : Parts X) : Except (Nat × Str) T :=
  match value C.cookieName parts with
  | some value => (C.fromValue value).mapError fun e => (400, e)
  | none => .error (400, "missing cookie: ".toList ++ C.cookieName)

end NamedCookie

/-- A `HashMap`, of which only lookups are seen. -/
abbrev CookieJar := List (Str × Str)

namespace CookieJar

def get (jar : CookieJar) (name : Str) : Option Str :=
  IndexMap.lookup name jar

/-- The pairs that have a `=`. -/
def pairs (cookies : Str) : List (Str × Str) :=
  (cookies.splitOn ';').filterMap fun pair => splitOnce '=' (trim pair)

def fromRequestParts (parts : Parts X) : CookieJar :=
  (pairs parts.cookies).foldl (fun map e => IndexMap.insert e.1 e.2 map) []

end CookieJar

/-! ## The values of a name -/

/-- All values of a name, in the order of the header. -/
def Parts.cookieValues (parts : Parts X) (name : Str) : List Str :=
  ((CookieJar.pairs parts.cookies).filter fun e => e.1 = name).map Prod.snd

theorem strStripPrefix_eq_some_iff {pat text rest : Str} :
    strStripPrefix pat text = some rest ↔ text = pat ++ rest := by
  unfold strStripPrefix
  rw [Option.ite_none_right_eq_some, List.isPrefixOf_iff_prefix]
  constructor
  · intro h
    obtain ⟨⟨behind, rfl⟩, same⟩ := h
    rw [List.drop_left] at same
    cases same
    rfl
  · rintro rfl
    exact ⟨List.prefix_append pat rest, by rw [List.drop_left]⟩

theorem splitOnce_eq_some_iff {text name value : Str} :
    splitOnce '=' text = some (name, value) ↔ text = name ++ '=' :: value ∧ '=' ∉ name := by
  constructor
  · intro found
    rcases cut '=' text with clean | ⟨piece, rest, rfl, clean⟩
    · rw [splitOnce_eq_none clean] at found
      cases found
    · rw [splitOnce_append clean] at found
      cases found
      exact ⟨rfl, clean⟩
  · intro h
    obtain ⟨rfl, clean⟩ := h
    exact splitOnce_append clean value

/-- Both see the same value in a pair. -/
theorem valueOf_eq {name : Str} (token : '=' ∉ name) (pair : Str) :
    NamedCookie.valueOf name pair =
      (splitOnce '=' (trim pair)).bind fun e => if e.1 = name then some e.2 else none := by
  apply Option.ext
  intro value
  unfold NamedCookie.valueOf
  rw [Option.bind_eq_some_iff, Option.bind_eq_some_iff]
  constructor
  · intro h
    obtain ⟨rest, found, behind⟩ := h
    rw [strStripPrefix_eq_some_iff] at found behind
    subst behind
    exact ⟨(name, value), splitOnce_eq_some_iff.2 ⟨found, token⟩, if_pos rfl⟩
  · intro h
    obtain ⟨e, found, named⟩ := h
    obtain ⟨same, read⟩ := Option.ite_none_right_eq_some.1 named
    cases read
    obtain ⟨whole, _⟩ := splitOnce_eq_some_iff.1 found
    exact ⟨'=' :: e.2, strStripPrefix_eq_some_iff.2 (same ▸ whole), strStripPrefix_eq_some_iff.2 rfl⟩

/-- The first value is extracted. -/
theorem value_eq {name : Str} (token : '=' ∉ name) (parts : Parts X) :
    NamedCookie.value name parts = (parts.cookieValues name).head? := by
  unfold NamedCookie.value Parts.cookieValues CookieJar.pairs
  rw [← List.head?_filterMap, List.filter_filterMap, List.map_filterMap]
  apply congrArg
  apply List.filterMap_congr
  intro pair _
  rw [valueOf_eq token]
  cases splitOnce '=' (trim pair) with
  | none => rfl
  | some e =>
    by_cases named : e.1 = name
    · simp [Option.filter, named]
    · simp [Option.filter, named]

/-- The last value is in the jar. -/
theorem get_eq (name : Str) (parts : Parts X) :
    (CookieJar.fromRequestParts parts).get name = (parts.cookieValues name).getLast? := by
  unfold CookieJar.get CookieJar.fromRequestParts Parts.cookieValues
  rw [IndexMap.lookup_foldl_insert, List.getLast?_map]
  exact Option.or_none

/-- The handler of a `Cookie` and the owner of a jar see the same. -/
def CookiesAgree (parts : Parts X) (name : Str) : Prop :=
  NamedCookie.value name parts = (CookieJar.fromRequestParts parts).get name

/-- **The extractors agree** when the first and the last cookie of the name have one value. -/
theorem cookiesAgree_iff {name : Str} (token : '=' ∉ name) (parts : Parts X) :
    CookiesAgree parts name ↔
      (parts.cookieValues name).head? = (parts.cookieValues name).getLast? := by
  unfold CookiesAgree
  rw [value_eq token, get_eq]

/-- The headers with one `Cookie` header. -/
def withCookies (text : String) : Parts Unit where
  headers := [("cookie".toList, Utf8.bytes text.toList)]
  rest := ()

theorem cookiesAgree_once : CookiesAgree (withCookies "b=0; a=1") ['a'] :=
  (cookiesAgree_iff (by decide) _).2 (by decide)

/-- Of two session cookies, each extractor has another. -/
theorem not_cookiesAgree_twice :
    ¬ ∀ (name : Str) (parts : Parts Unit), '=' ∉ name → CookiesAgree parts name := by
  intro all
  have agree := (cookiesAgree_iff (by decide) _).1 (all ['a'] (withCookies "a=1; a=2") (by decide))
  exact absurd agree (by decide)

end Typeway.Server
