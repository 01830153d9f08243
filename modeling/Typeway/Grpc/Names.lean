import Typeway.Grpc.ProtoGen

/-!
# When two methods get the same name

The name of a method is a verb, which depends on the HTTP method and on whether the path ends
in a capture, and the last static segment of the path without its underscores, the letters
behind them in upper case, and without a final `s`. `name_eq_iff` reads this backwards.
-/

namespace Typeway.Grpc

open Typeway.Core Lines Server

/-! ## The verb -/

inductive Verb where
  | get | list | create | update | delete | head | options | call
  deriving DecidableEq

namespace Verb

def text : Verb → Str
  | get => "Get".toList
  | list => "List".toList
  | create => "Create".toList
  | update => "Update".toList
  | delete => "Delete".toList
  | head => "Head".toList
  | options => "Options".toList
  | call => "Call".toList

/-- No verb begins with another one. -/
theorem eq_of_starts {v v' : Verb} (h : v.text <+: v'.text) : v = v' := by
  cases v <;> cases v' <;> first | rfl | exact absurd h (by decide)

theorem text_append_inj {v v' : Verb} {s s' : Str} :
    v.text ++ s = v'.text ++ s' ↔ v = v' ∧ s = s' := by
  constructor
  · intro same
    have verbs : v = v' := by
      have shared : v'.text <+: v.text ++ s := same ▸ List.prefix_append _ _
      rcases List.prefix_or_prefix_of_prefix (List.prefix_append _ _) shared with h | h
      · exact eq_of_starts h
      · exact (eq_of_starts h).symm
    subst verbs
    exact ⟨rfl, List.append_cancel_left same⟩
  · intro h
    rw [h.1, h.2]

end Verb

/-- PUT and PATCH share a verb, and so do all methods beyond the seven. -/
def verb : Method → Bool → Verb
  | .get, true => .get
  | .get, false => .list
  | .post, _ => .create
  | .put, _ => .update
  | .patch, _ => .update
  | .delete, _ => .delete
  | .head, _ => .head
  | .options, _ => .options
  | .other _, _ => .call

theorem rpcPrefix_eq {method : Method} (named : parseMethod (methodStr method) = method)
    (single : Bool) : rpcPrefix (methodStr method) single = (verb method single).text := by
  cases method with
  | other name =>
    -- a further method has none of the seven names
    have apart : ∀ text, parseMethod text ≠ .other text → name ≠ text := by
      intro text known same
      subst same
      exact known named
    have get := apart "GET".toList (by decide)
    have post := apart "POST".toList (by decide)
    have put := apart "PUT".toList (by decide)
    have patch := apart "PATCH".toList (by decide)
    have delete := apart "DELETE".toList (by decide)
    have head := apart "HEAD".toList (by decide)
    have options := apart "OPTIONS".toList (by decide)
    exact (if_neg get).trans <| (if_neg post).trans <| (if_neg put).trans <|
      (if_neg patch).trans <| (if_neg delete).trans <| (if_neg head).trans (if_neg options)
  | get => cases single <;> rfl
  | _ => rfl

/-! ## The word -/

/-- The letters without underscores, those that begin a word in upper case. -/
def camel (toUppercase : Char → Str) : Bool → Str → Str
  | _, [] => []
  | start, c :: rest =>
    if c = '_' then camel toUppercase true rest
    else if start then toUppercase c ++ camel toUppercase false rest
    else c :: camel toUppercase false rest

/-- `w` is `v` with one `s` more, and `v` is not shortened itself. -/
structure PluralOf (w v : Str) : Prop where
  eq : w = v ++ ['s']
  some : v ≠ []
  stays : v.getLast? = .some 's' → v = ['s']

/-- The words agree up to one final `s`. -/
def SameWord (w v : Str) : Prop :=
  w = v ∨ PluralOf w v ∨ PluralOf v w

def singular (w : Str) : Str :=
  if w.getLast? = some 's' ∧ byteLen w > 1 then w.dropLast else w

theorem byteLen_append (v w : Str) : byteLen (v ++ w) = byteLen v + byteLen w := by
  rw [byteLen, List.map_append, List.sum_append]
  rfl

theorem byteLen_pos {v : Str} (some : v ≠ []) : 0 < byteLen v := by
  obtain ⟨c, rest, rfl⟩ := List.exists_cons_of_ne_nil some
  have := Char.utf8Size_pos c
  rw [byteLen, List.map_cons, List.sum_cons]
  omega

theorem singular_append {v : Str} (some : v ≠ []) : singular (v ++ ['s']) = v := by
  have long : byteLen (v ++ ['s']) > 1 := by
    have := byteLen_pos some
    have : byteLen ['s'] = 1 := by decide
    rw [byteLen_append]
    omega
  rw [singular, if_pos ⟨by simp, long⟩, List.dropLast_concat]

theorem singular_stays {v : Str} (stays : v.getLast? = some 's' → v = ['s']) : singular v = v := by
  rw [singular, if_neg]
  intro h
  rw [stays h.1] at h
  exact absurd h.2 (by decide)

/-- A word either ends in an `s` that is dropped or stays. -/
theorem plural_or_stays (w : Str) :
    (∃ v, v ≠ [] ∧ w = v ++ ['s']) ∨ (w.getLast? = some 's' → w = ['s']) := by
  by_cases last : w.getLast? = some 's'
  · obtain ⟨v, rfl⟩ := List.getLast?_eq_some_iff.1 last
    by_cases empty : v = []
    · right
      intro _
      rw [empty]
      rfl
    · exact .inl ⟨v, empty, rfl⟩
  · exact .inr fun h => absurd h last

theorem singular_eq_iff {w v : Str} : singular w = singular v ↔ SameWord w v := by
  constructor
  · intro same
    rcases plural_or_stays w with ⟨a, someA, rfl⟩ | staysW
    · rw [singular_append someA] at same
      rcases plural_or_stays v with ⟨b, someB, rfl⟩ | staysV
      · rw [singular_append someB] at same
        exact .inl (congrArg (· ++ ['s']) same)
      · rw [singular_stays staysV] at same
        subst same
        exact .inr (.inl ⟨rfl, someA, staysV⟩)
    · rw [singular_stays staysW] at same
      rcases plural_or_stays v with ⟨b, someB, rfl⟩ | staysV
      · rw [singular_append someB] at same
        subst same
        exact .inr (.inr ⟨rfl, someB, staysW⟩)
      · rw [singular_stays staysV] at same
        exact .inl same
  · intro same
    rcases same with rfl | h | h
    · rfl
    · rw [h.eq, singular_append h.some, singular_stays h.stays]
    · rw [h.eq, singular_append h.some, singular_stays h.stays]

section Case

variable (toUppercase : Char → Str)

theorem camel_splitOn (s : Str) :
    ∃ word words, s.splitOn '_' = word :: words ∧
      camel toUppercase true s =
        capitalize toUppercase word ++ words.flatMap (capitalize toUppercase) ∧
      camel toUppercase false s = word ++ words.flatMap (capitalize toUppercase) := by
  induction s with
  | nil => exact ⟨[], [], rfl, rfl, rfl⟩
  | cons c s ih =>
    obtain ⟨word, words, split, upper, lower⟩ := ih
    rw [List.splitOn_cons_eq_if_modifyHead, split, camel, camel, upper, lower]
    by_cases sep : c = '_'
    · refine ⟨[], word :: words, ?_, ?_, ?_⟩
      · rw [if_pos (beq_iff_eq.2 sep)]
      · rw [if_pos sep]
        rfl
      · rw [if_pos sep]
        rfl
    · refine ⟨c :: word, words, ?_, ?_, ?_⟩
      · rw [if_neg (mt beq_iff_eq.1 sep)]
        rfl
      · rw [if_neg sep, if_pos rfl, capitalize, List.append_assoc]
      · rw [if_neg sep, if_neg Bool.false_ne_true]
        rfl

theorem toPascalCaseSingular_eq (s : Str) :
    toPascalCaseSingular toUppercase s = singular (camel toUppercase true s) := by
  obtain ⟨word, words, split, upper, -⟩ := camel_splitOn toUppercase s
  rw [toPascalCaseSingular, split, List.flatMap_cons, ← upper]
  rfl

/-- The word a path is named after. -/
def resourceWord (path : Str) : Str :=
  match lastStatic path with
  | some seg => camel toUppercase true seg
  | none => "Resource".toList

theorem pathToRpcName_eq {method : Method} (named : parseMethod (methodStr method) = method)
    (path : Str) :
    pathToRpcName toUppercase (methodStr method) path =
      (verb method (lastIsCapture path)).text ++ singular (resourceWord toUppercase path) := by
  rw [pathToRpcName, rpcPrefix_eq named, resourceWord]
  cases lastStatic path with
  | none => rfl
  | some seg => exact congrArg _ (toPascalCaseSingular_eq toUppercase seg)

/-- The verbs agree, and the words up to a final `s`. -/
def Endpoint.Clash (e e' : Endpoint) : Prop :=
  verb e.method (lastIsCapture e.path.pattern) = verb e'.method (lastIsCapture e'.path.pattern) ∧
    SameWord (resourceWord toUppercase e.path.pattern) (resourceWord toUppercase e'.path.pattern)

theorem name_eq_iff (e e' : Endpoint) :
    (e.toRpc toUppercase).name = (e'.toRpc toUppercase).name ↔ e.Clash toUppercase e' := by
  rw [Endpoint.Clash, ← singular_eq_iff, ← Verb.text_append_inj, ← pathToRpcName_eq _ e.named,
    ← pathToRpcName_eq _ e'.named]
  rfl

end Case

end Typeway.Grpc
