import Mathlib.Algebra.GroupWithZero.Nat
import Mathlib.Algebra.Order.BigOperators.Group.List
import Mathlib.Algebra.Order.Group.Nat
import Mathlib.Data.List.Forall2

/-!
# The texts of JSON values

`Reads text v` is the grammar of JSON: `text` is `v`, with white space wherever it may stand. A
string can be spelled in many ways, but none is shorter than its characters and a backslash for
each of them that needs one.
-/

namespace JsonText

/-- A value, with a number by its literal and the members of an object in their order. -/
inductive Tree where
  | null
  | bool (b : Bool)
  | num (literal : List Char)
  | str (s : List Char)
  | arr (items : List Tree)
  | obj (members : List (List Char × Tree))

namespace Tree

/-- A member of an object, the last of its name. -/
def get (key : List Char) : Tree → Option Tree
  | obj members => (members.reverse.find? fun member => member.1 = key).map Prod.snd
  | _ => none

def asArr : Tree → Option (List Tree)
  | arr items => some items
  | _ => none

def asStr : Tree → Option (List Char)
  | str s => some s
  | _ => none

theorem get_single (key : List Char) (v : Tree) : (Tree.obj [(key, v)]).get key = some v := by
  simp [JsonText.Tree.get]

theorem mem_of_get {key : List Char} {tree v : Tree} (found : tree.get key = some v) :
    ∃ members, tree = obj members ∧ (key, v) ∈ members := by
  cases tree with
  | obj members =>
    obtain ⟨⟨name, v'⟩, first, rfl⟩ := Option.map_eq_some_iff.1 found
    have same : name = key := by simpa using List.find?_some first
    have mem := List.mem_reverse.1 (List.mem_of_find?_eq_some first)
    exact ⟨members, rfl, same ▸ mem⟩
  | _ => cases found

theorem eq_arr {tree : Tree} {items : List Tree} (h : tree.asArr = some items) : tree = arr items := by
  cases tree with
  | arr items' => exact congrArg arr (Option.some.inj h)
  | _ => cases h

theorem eq_str {tree : Tree} {s : List Char} (h : tree.asStr = some s) : tree = str s := by
  cases tree with
  | str s' => exact congrArg str (Option.some.inj h)
  | _ => cases h

end Tree

/-! ## Grammar -/

/-- White space between tokens. -/
def Space (text : List Char) : Prop :=
  ∀ c ∈ text, c = ' ' ∨ c = '\t' ∨ c = '\n' ∨ c = '\r'

/-- A character that a string has as it is. -/
def isPlain (c : Char) : Bool :=
  c ≠ '"' && c ≠ '\\' && 0x20 ≤ c.toNat

/-- The escapes of one letter. -/
def shortEscape : Char → Option Char
  | '"' => some '"'
  | '\\' => some '\\'
  | '/' => some '/'
  | 'b' => some '\x08'
  | 'f' => some '\x0c'
  | 'n' => some '\n'
  | 'r' => some '\r'
  | 't' => some '\t'
  | _ => none

def hexDigit (c : Char) : Option Nat :=
  let n := c.toNat
  if 48 ≤ n ∧ n ≤ 57 then some (n - 48)
  else if 65 ≤ n ∧ n ≤ 70 then some (n - 55)
  else if 97 ≤ n ∧ n ≤ 102 then some (n - 87)
  else none

/-- The code unit of four hexadecimal digits. -/
def codeUnit (a b c d : Char) : Option Nat := do
  let a ← hexDigit a
  let b ← hexDigit b
  let c ← hexDigit c
  let d ← hexDigit d
  some (((a * 16 + b) * 16 + c) * 16 + d)

/-- What stands between the quotes of a string. -/
inductive Chars : List Char → List Char → Prop
  | nil : Chars [] []
  | plain {c : Char} {raw s : List Char} (plain : isPlain c = true) (rest : Chars raw s) :
    Chars (c :: raw) (c :: s)
  | short {e c : Char} {raw s : List Char} (escape : shortEscape e = some c) (rest : Chars raw s) :
    Chars ('\\' :: e :: raw) (c :: s)
  | unit {a b c d : Char} {n : Nat} {raw s : List Char} (unit : codeUnit a b c d = some n)
    (valid : n.isValidChar) (rest : Chars raw s) :
    Chars ('\\' :: 'u' :: a :: b :: c :: d :: raw) (Char.ofNat n :: s)
  | pair {a b c d a' b' c' d' : Char} {n n' : Nat} {raw s : List Char}
    (high : codeUnit a b c d = some n) (low : codeUnit a' b' c' d' = some n')
    (first : 0xD800 ≤ n ∧ n < 0xDC00) (second : 0xDC00 ≤ n' ∧ n' < 0xE000) (rest : Chars raw s) :
    Chars ('\\' :: 'u' :: a :: b :: c :: d :: '\\' :: 'u' :: a' :: b' :: c' :: d' :: raw)
      (Char.ofNat (0x10000 + (n - 0xD800) * 0x400 + (n' - 0xDC00)) :: s)

def AllDigits (text : List Char) : Prop :=
  text ≠ [] ∧ ∀ c ∈ text, c.isDigit = true

/-- The literals of numbers. -/
def IsNumber (text : List Char) : Prop :=
  ∃ minus whole fraction exponent, text = minus ++ whole ++ fraction ++ exponent ∧
    (minus = [] ∨ minus = ['-']) ∧
    AllDigits whole ∧ (whole.head? = some '0' → whole = ['0']) ∧
    (fraction = [] ∨ ∃ digits, fraction = '.' :: digits ∧ AllDigits digits) ∧
    (exponent = [] ∨ ∃ e sign digits, exponent = e :: (sign ++ digits) ∧ (e = 'e' ∨ e = 'E') ∧
      (sign = [] ∨ sign = ['+'] ∨ sign = ['-']) ∧ AllDigits digits)

/-- The name of a member, as it is spelled. -/
structure KeyText where
  before : List Char
  raw : List Char
  after : List Char
  key : List Char
  spaceBefore : Space before
  spaceAfter : Space after
  chars : Chars raw key

def KeyText.text (key : KeyText) : List Char :=
  key.before ++ '"' :: (key.raw ++ '"' :: key.after)

/-- A text is a value. -/
inductive Reads : List Char → Tree → Prop
  | padded {before text after : List Char} {v : Tree} (spaceBefore : Space before)
    (spaceAfter : Space after) (inner : Reads text v) : Reads (before ++ text ++ after) v
  | null : Reads "null".toList .null
  | yes : Reads "true".toList (.bool true)
  | no : Reads "false".toList (.bool false)
  | num {literal : List Char} (number : IsNumber literal) : Reads literal (.num literal)
  | str {raw s : List Char} (chars : Chars raw s) : Reads ('"' :: (raw ++ ['"'])) (.str s)
  | emptyArr {space : List Char} (blank : Space space) : Reads ('[' :: (space ++ [']'])) (.arr [])
  | arr (items : List (List Char × Tree)) (some : items ≠ [])
    (parts : ∀ item ∈ items, Reads item.1 item.2) :
    Reads ('[' :: (List.intercalate [','] (items.map Prod.fst) ++ [']'])) (.arr (items.map Prod.snd))
  | emptyObj {space : List Char} (blank : Space space) :
    Reads ('\x7b' :: (space ++ ['\x7d'])) (.obj [])
  | obj (members : List (KeyText × List Char × Tree)) (some : members ≠ [])
    (parts : ∀ member ∈ members, Reads member.2.1 member.2.2) :
    Reads ('\x7b' :: (List.intercalate [',']
        (members.map fun member => member.1.text ++ ':' :: member.2.1) ++ ['\x7d']))
      (.obj (members.map fun member => (member.1.key, member.2.2)))

/-- A list of items without white space. -/
theorem Reads.list (items : List (List Char × Tree)) (parts : ∀ item ∈ items, Reads item.1 item.2) :
    Reads ('[' :: (List.intercalate [','] (items.map Prod.fst) ++ [']'])) (.arr (items.map Prod.snd)) := by
  by_cases some : items = []
  · subst some
    exact .emptyArr (List.forall_mem_nil _)
  · exact .arr items some parts

/-! ## How short a text can be -/

/-- The characters that need a backslash. -/
def escapes (s : List Char) : Nat :=
  s.countP fun c => !isPlain c

theorem escapes_cons (c : Char) (s : List Char) :
    escapes (c :: s) = escapes s + if isPlain c then 0 else 1 := by
  rw [escapes, List.countP_cons]
  cases isPlain c <;> rfl

theorem escapes_cons_le (c : Char) (s : List Char) : escapes (c :: s) ≤ escapes s + 1 := by
  rw [escapes_cons]
  split <;> omega

theorem escapes_eq_zero {s : List Char} : escapes s = 0 ↔ ∀ c ∈ s, isPlain c = true := by
  rw [escapes, List.countP_eq_zero]
  simp

theorem Chars.length_le {raw s : List Char} (chars : Chars raw s) :
    s.length + escapes s ≤ raw.length := by
  induction chars with
  | nil => exact Nat.le_refl _
  | @plain c raw s plain _ ih =>
    rw [escapes_cons, plain]
    simp only [List.length_cons, ↓reduceIte]
    omega
  | @short e c raw s _ _ ih =>
    have := escapes_cons_le c s
    simp only [List.length_cons]
    omega
  | @unit _ _ _ _ n raw s _ _ _ ih =>
    have := escapes_cons_le (Char.ofNat n) s
    simp only [List.length_cons]
    omega
  | @pair _ _ _ _ _ _ _ _ n n' raw s _ _ _ _ _ ih =>
    have := escapes_cons_le (Char.ofNat (0x10000 + (n - 0xD800) * 0x400 + (n' - 0xDC00))) s
    simp only [List.length_cons]
    omega

/-- A string as its characters, when they are all plain. -/
theorem Chars.self {s : List Char} (plain : ∀ c ∈ s, isPlain c = true) : Chars s s := by
  induction s with
  | nil => exact .nil
  | cons c s ih =>
    rw [List.forall_mem_cons] at plain
    exact .plain plain.1 (ih plain.2)

/-- An object with one member, whose name is plain. -/
theorem Reads.single {key text : List Char} {v : Tree} (plain : ∀ c ∈ key, isPlain c = true)
    (inner : Reads text v) :
    Reads ('\x7b' :: '"' :: (key ++ '"' :: ':' :: (text ++ ['\x7d']))) (.obj [(key, v)]) := by
  let name : KeyText := ⟨[], key, [], key, List.forall_mem_nil _, List.forall_mem_nil _, .self plain⟩
  have single := Reads.obj [(name, text, v)] (List.cons_ne_nil _ _) (List.forall_mem_singleton.2 inner)
  rw [List.map_singleton, List.intercalate_singleton] at single
  simpa [name, KeyText.text] using single

theorem length_intercalate (texts : List (List Char)) (some : texts ≠ []) :
    (List.intercalate [','] texts).length + 1 = (texts.map fun text => text.length + 1).sum := by
  induction texts with
  | nil => exact absurd rfl some
  | cons text texts ih =>
    cases texts with
    | nil => rw [List.intercalate_singleton, List.map_singleton, List.sum_singleton]
    | cons next texts =>
      have rest := ih (List.cons_ne_nil _ _)
      rw [List.intercalate_cons_of_ne_nil (List.cons_ne_nil _ _), List.map_cons, List.sum_cons, ← rest]
      simp only [List.length_append, List.length_singleton]
      omega

theorem Reads.str_length {text s : List Char} (h : Reads text (.str s)) :
    s.length + escapes s + 2 ≤ text.length := by
  generalize tree : Tree.str s = v at h
  induction h with
  | padded _ _ _ ih =>
    have := ih tree
    simp only [List.length_append]
    omega
  | str chars =>
    cases tree
    have := chars.length_le
    simp only [List.length_cons, List.length_append]
    omega
  | _ => cases tree

/-- The texts of the items of an array, which it is longer than. -/
theorem Reads.items {text : List Char} {items : List Tree} (h : Reads text (.arr items)) :
    ∃ texts, List.Forall₂ Reads texts items ∧
      (texts.map fun part => part.length + 1).sum + 1 ≤ text.length := by
  generalize tree : Tree.arr items = v at h
  induction h with
  | padded _ _ _ ih =>
    obtain ⟨texts, parts, longer⟩ := ih tree
    refine ⟨texts, parts, ?_⟩
    simp only [List.length_append]
    omega
  | emptyArr _ =>
    cases tree
    refine ⟨[], .nil, ?_⟩
    simp only [List.map_nil, List.sum_nil, List.length_cons]
    omega
  | arr pieces some parts _ =>
    cases tree
    refine ⟨pieces.map Prod.fst, ?_, ?_⟩
    · rw [List.forall₂_map_left_iff, List.forall₂_map_right_iff, List.forall₂_same]
      exact parts
    · have exact_length := length_intercalate (pieces.map Prod.fst) (by simpa using some)
      simp only [List.length_cons, List.length_append]
      omega
  | _ => cases tree

/-- The text of a member of an object, which is longer by the name and the punctuation. -/
theorem Reads.member {text key : List Char} {members : List (List Char × Tree)} {v : Tree}
    (h : Reads text (.obj members)) (mem : (key, v) ∈ members) :
    ∃ part, Reads part v ∧ key.length + part.length + 5 ≤ text.length := by
  generalize tree : Tree.obj members = w at h
  induction h with
  | padded _ _ _ ih =>
    obtain ⟨part, reads, longer⟩ := ih tree
    refine ⟨part, reads, ?_⟩
    simp only [List.length_append]
    omega
  | emptyObj _ =>
    cases tree
    cases mem
  | obj pieces some parts _ =>
    cases tree
    obtain ⟨⟨name, part, v'⟩, inPieces, same⟩ := List.mem_map.1 mem
    cases same
    refine ⟨part, parts _ inPieces, ?_⟩
    have spelled := name.chars.length_le
    have exact_length := length_intercalate
      (pieces.map fun member => member.1.text ++ ':' :: member.2.1) (by simpa using some)
    have inside := List.single_le_sum (fun n _ => Nat.zero_le n) _ (List.mem_map_of_mem (f := fun text => text.length + 1)
      (List.mem_map_of_mem (f := fun member => member.1.text ++ ':' :: member.2.1) inPieces))
    simp only [KeyText.text, List.length_cons, List.length_append] at *
    omega
  | _ => cases tree

end JsonText
