import Mathlib.Data.List.Basic

/-!
# Identifiers

The characters that `rustc` takes in identifiers are a table of Unicode. What is said of it here
holds of every version.
-/

namespace RustIdent

structure Chars where
  start : Char → Bool
  continues : Char → Bool
  /-- `char::to_uppercase` -/
  toUppercase : Char → List Char
  alpha : ∀ c, c.isAlpha = true → start c = true ∧ continues c = true
  onward : ∀ c, start c = true → continues c = true
  underscore : start '_' = true ∧ continues '_' = true
  quote : continues '"' = false
  backslash : continues '\\' = false
  brace : continues '{' = false
  capital : ∀ c, toUppercase c ≠ []
  upper : ∀ c, c.isLower = true → toUppercase c = [c.toUpper]

variable (chars : Chars)

/-- Keywords apart. -/
def isIdent : List Char → Bool
  | [] => false
  | c :: rest => chars.start c && rest.all chars.continues

/-- The keywords of the 2021 edition, those reserved for later among them. -/
def keywords : List (List Char) :=
  ["as", "break", "const", "continue", "crate", "else", "enum", "extern", "false", "fn", "for",
    "if", "impl", "in", "let", "loop", "match", "mod", "move", "mut", "pub", "ref", "return",
    "self", "Self", "static", "struct", "super", "trait", "true", "type", "unsafe", "use", "where",
    "while", "async", "await", "dyn", "abstract", "become", "box", "do", "final", "macro",
    "override", "priv", "typeof", "unsized", "virtual", "yield", "try", "_"].map String.toList

/-- What can be declared without `r#`. -/
def isName (name : List Char) : Bool :=
  isIdent chars name && !keywords.contains name

/-- The characters of ASCII. -/
def ascii : Chars where
  start c := c.isAlpha || c = '_'
  continues c := c.isAlphanum || c = '_'
  toUppercase c := [c.toUpper]
  alpha c alpha := by simp [alpha, Char.isAlphanum]
  onward c start := by
    rcases Bool.or_eq_true_iff.1 start with alpha | underscore
    · simp [Char.isAlphanum, alpha]
    · simp [underscore]
  underscore := ⟨rfl, rfl⟩
  quote := rfl
  backslash := rfl
  brace := rfl
  capital _ := List.cons_ne_nil _ _
  upper _ _ := rfl

variable {chars}

theorem isIdent_cons {c : Char} {rest : List Char} :
    isIdent chars (c :: rest) = true ↔
      chars.start c = true ∧ rest.all chars.continues = true := by
  rw [isIdent, Bool.and_eq_true]

/-- What is put behind an identifier only has to continue it. -/
theorem isIdent_append {text rest : List Char} (some : text ≠ []) :
    isIdent chars (text ++ rest) = true ↔
      isIdent chars text = true ∧ rest.all chars.continues = true := by
  obtain ⟨c, text, rfl⟩ := List.exists_cons_of_ne_nil some
  rw [List.cons_append, isIdent_cons, isIdent_cons, List.all_append, Bool.and_eq_true, and_assoc]

end RustIdent
