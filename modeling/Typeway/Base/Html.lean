import Mathlib.Data.List.Basic

/-!
# Texts in HTML pages

The tokenizer of the HTML standard on what generated pages are made of: tags in lower case with
quoted attributes, text, and the references of the four characters that are escaped. It stops at
anything else. A page is made of pieces, and an escaped piece is read as the text it was made of,
wherever text or an attribute value may stand.
-/

namespace Html

abbrev Name := List Char

inductive Token where
  | doctype
  | opening (tag : Name) (attributes : List (Name × List Char))
  | closing (tag : Name)
  | char (c : Char)
  deriving DecidableEq

/-- Where texts stand: between tags, in a `title`, and in the value of an attribute. -/
inductive Place where
  | text
  | title
  | value (tag : Name) (attributes : List (Name × List Char)) (key : Name) (value : List Char)
  deriving DecidableEq

inductive Mode where
  | place (place : Place)
  /-- Behind an ampersand. -/
  | reference (place : Place) (name : Name)
  | style
  /-- Within `style` and `title`, behind `<` and behind the slash. -/
  | less (tag : Name)
  | lessSlash (tag : Name) (name : Name)
  | tagOpen
  | endTagOpen
  | declaration
  | tagName (tag : Name)
  | endTagName (tag : Name)
  | beforeAttribute (tag : Name) (attributes : List (Name × List Char))
  | attributeName (tag : Name) (attributes : List (Name × List Char)) (key : Name)
  | beforeValue (tag : Name) (attributes : List (Name × List Char)) (key : Name)
  | afterValue (tag : Name) (attributes : List (Name × List Char))
  deriving DecidableEq

/-- A tokenizer with the tokens behind it, the last one first. -/
structure State where
  mode : Mode
  tokens : List Token
  deriving DecidableEq

def isNameChar (c : Char) : Bool :=
  c.isLower || c.isDigit || c = '-'

def isBlank (c : Char) : Bool :=
  c = ' ' || c = '\n'

/-- Characters of a title or of an attribute value; a null is replaced. -/
def nonNull (c : Char) : Char :=
  if c = .ofNat 0 then .ofNat 0xfffd else c

/-- A character of a text. -/
def put (place : Place) (c : Char) (tokens : List Token) : State :=
  match place with
  | .text => ⟨.place .text, .char c :: tokens⟩
  | .title => ⟨.place .title, .char (nonNull c) :: tokens⟩
  | .value tag attributes key value =>
    ⟨.place (.value tag attributes key (value ++ [nonNull c])), tokens⟩

/-- A start tag decides how its content is read. -/
def opened (tag : Name) (attributes : List (Name × List Char)) (tokens : List Token) : State where
  mode :=
    if tag = "style".toList then .style
    else if tag = "title".toList then .place .title
    else .place .text
  tokens := .opening tag attributes :: tokens

def references : List (Name × Char) :=
  [("amp".toList, '&'), ("lt".toList, '<'), ("gt".toList, '>'), ("quot".toList, '"')]

def step (s : State) (c : Char) : Option State :=
  match s.mode with
  | .place .text =>
    if c = '<' then some { s with mode := .tagOpen }
    else if c = '&' then some { s with mode := .reference .text [] }
    else some (put .text c s.tokens)
  | .place .title =>
    if c = '<' then some { s with mode := .less "title".toList }
    else if c = '&' then some { s with mode := .reference .title [] }
    else some (put .title c s.tokens)
  | .place (.value tag attributes key value) =>
    if c = '"' then some { s with mode := .afterValue tag (attributes ++ [(key, value)]) }
    else if c = '&' then
      some { s with mode := .reference (.value tag attributes key value) [] }
    else some (put (.value tag attributes key value) c s.tokens)
  | .reference place name =>
    if c = ';' then (references.lookup name).map fun c => put place c s.tokens
    else if isNameChar c then some { s with mode := .reference place (name ++ [c]) }
    else none
  | .style =>
    if c = '<' then some { s with mode := .less "style".toList }
    else some { s with tokens := .char c :: s.tokens }
  | .less tag => if c = '/' then some { s with mode := .lessSlash tag [] } else none
  | .lessSlash tag name =>
    if c = '>' then
      if name = tag then some ⟨.place .text, .closing tag :: s.tokens⟩ else none
    else if isNameChar c then some { s with mode := .lessSlash tag (name ++ [c]) }
    else none
  | .tagOpen =>
    if c = '/' then some { s with mode := .endTagOpen }
    else if c = '!' then some { s with mode := .declaration }
    else if isNameChar c then some { s with mode := .tagName [c] }
    else none
  | .endTagOpen => if isNameChar c then some { s with mode := .endTagName [c] } else none
  | .declaration =>
    if c = '>' then some ⟨.place .text, .doctype :: s.tokens⟩
    else if c = '-' then none
    else some s
  | .tagName tag =>
    if c = '>' then some (opened tag [] s.tokens)
    else if isBlank c then some { s with mode := .beforeAttribute tag [] }
    else if isNameChar c then some { s with mode := .tagName (tag ++ [c]) }
    else none
  | .endTagName tag =>
    if c = '>' then some ⟨.place .text, .closing tag :: s.tokens⟩
    else if isNameChar c then some { s with mode := .endTagName (tag ++ [c]) }
    else none
  | .beforeAttribute tag attributes =>
    if c = '>' then some (opened tag attributes s.tokens)
    else if isBlank c then some s
    else if isNameChar c then some { s with mode := .attributeName tag attributes [c] }
    else none
  | .attributeName tag attributes key =>
    if c = '=' then some { s with mode := .beforeValue tag attributes key }
    else if isNameChar c then
      some { s with mode := .attributeName tag attributes (key ++ [c]) }
    else none
  | .beforeValue tag attributes key =>
    if c = '"' then some { s with mode := .place (.value tag attributes key []) } else none
  | .afterValue tag attributes =>
    if c = '>' then some (opened tag attributes s.tokens)
    else if isBlank c then some { s with mode := .beforeAttribute tag attributes }
    else none

def read : State → List Char → Option State
  | s, [] => some s
  | s, c :: text => (step s c).bind fun s' => read s' text

/-! ## Pieces -/

/-- `str::replace` of a character. -/
def replaceChar (c : Char) (replacement text : List Char) : List Char :=
  text.flatMap fun d => if d = c then replacement else [d]

/-- `escape_html` -/
def escape (text : List Char) : List Char :=
  replaceChar '"' "&quot;".toList <| replaceChar '>' "&gt;".toList <|
    replaceChar '<' "&lt;".toList <| replaceChar '&' "&amp;".toList text

inductive Piece where
  | lit (markup : String)
  | escaped (text : List Char)
  /-- A text that is not escaped. -/
  | raw (text : List Char)

def Piece.render : Piece → List Char
  | lit markup => markup.toList
  | escaped text => escape text
  | raw text => text

def render (pieces : List Piece) : List Char :=
  pieces.flatMap Piece.render

/-- A text as it is, where a text may stand. -/
def puts (s : State) (text : List Char) : Option State :=
  match s.mode with
  | .place .text => some { s with tokens := (text.map Token.char).reverse ++ s.tokens }
  | .place .title =>
    some { s with tokens := (text.map fun c => Token.char (nonNull c)).reverse ++ s.tokens }
  | .place (.value tag attributes key value) =>
    some { s with mode := .place (.value tag attributes key (value ++ text.map nonNull)) }
  | _ => if text = [] then some s else none

/-- The tokenizer on markup, with all texts as they are. -/
def fill : State → List Piece → Option State
  | s, [] => some s
  | s, .lit markup :: pieces => (read s markup.toList).bind fun s' => fill s' pieces
  | s, .escaped text :: pieces | s, .raw text :: pieces =>
    (puts s text).bind fun s' => fill s' pieces

/-- Nothing in the text is taken for markup. -/
def Plain (text : List Char) : Prop :=
  ∀ c ∈ text, c ≠ '<' ∧ c ≠ '&' ∧ c ≠ '"'

theorem read_append (s : State) (text text' : List Char) :
    read s (text ++ text') = (read s text).bind fun s' => read s' text' := by
  induction text generalizing s with
  | nil => rfl
  | cons c text ih =>
    rw [List.cons_append, read, read, Option.bind_assoc]
    exact congrArg _ (funext fun s' => ih s')

/-! ## Escaped texts -/

def escapeChar (c : Char) : List Char :=
  if c = '&' then "&amp;".toList
  else if c = '<' then "&lt;".toList
  else if c = '>' then "&gt;".toList
  else if c = '"' then "&quot;".toList
  else [c]

/-- The four replacements do not meet each other's results. -/
theorem escape_eq (text : List Char) : escape text = text.flatMap escapeChar := by
  simp only [escape, replaceChar, List.flatMap_assoc]
  apply List.flatMap_congr
  intro c _
  unfold escapeChar
  by_cases amp : c = '&'
  · subst amp
    decide
  · by_cases lt : c = '<'
    · subst lt
      decide
    · by_cases gt : c = '>'
      · subst gt
        decide
      · simp only [if_neg amp, if_neg lt, if_neg gt, List.flatMap_cons, List.flatMap_nil,
          List.append_nil]

/-- A character that is no markup is a character of the text. -/
theorem step_plain (place : Place) (tokens : List Token) {c : Char} (lt : c ≠ '<') (amp : c ≠ '&')
    (quot : c ≠ '"') : step ⟨.place place, tokens⟩ c = some (put place c tokens) := by
  cases place with
  | text | title => exact (if_neg lt).trans (if_neg amp)
  | value tag attributes key value => exact (if_neg quot).trans (if_neg amp)

theorem read_escapeChar (place : Place) (tokens : List Token) (c : Char) :
    read ⟨.place place, tokens⟩ (escapeChar c) = some (put place c tokens) := by
  unfold escapeChar
  by_cases amp : c = '&'
  · subst amp
    cases place <;> rfl
  · by_cases lt : c = '<'
    · subst lt
      cases place <;> rfl
    · by_cases gt : c = '>'
      · subst gt
        cases place <;> rfl
      · by_cases quot : c = '"'
        · subst quot
          cases place <;> rfl
        · rw [if_neg amp, if_neg lt, if_neg gt, if_neg quot, read, step_plain place tokens lt amp quot]
          rfl

theorem puts_nil (place : Place) (tokens : List Token) :
    puts ⟨.place place, tokens⟩ [] = some ⟨.place place, tokens⟩ := by
  cases place with
  | text => rfl
  | title => rfl
  | value tag attributes key value => simp [puts]

theorem puts_cons (place : Place) (tokens : List Token) (c : Char) (text : List Char) :
    puts ⟨.place place, tokens⟩ (c :: text) = puts (put place c tokens) text := by
  cases place <;> simp [puts, put]

/-- Texts go on where they are put. -/
theorem put_place (place : Place) (c : Char) (tokens : List Token) :
    ∃ place' tokens', put place c tokens = ⟨.place place', tokens'⟩ := by
  cases place <;> exact ⟨_, _, rfl⟩

/-- **An escaped text is read as it is.** -/
theorem read_escape (place : Place) (tokens : List Token) (text : List Char) :
    read ⟨.place place, tokens⟩ (escape text) = puts ⟨.place place, tokens⟩ text := by
  rw [escape_eq]
  induction text generalizing place tokens with
  | nil => exact (puts_nil place tokens).symm
  | cons c text ih =>
    obtain ⟨place', tokens', there⟩ := put_place place c tokens
    rw [List.flatMap_cons, read_append, read_escapeChar, puts_cons, there]
    exact ih place' tokens'

theorem read_plain (place : Place) (tokens : List Token) {text : List Char} (plain : Plain text) :
    read ⟨.place place, tokens⟩ text = puts ⟨.place place, tokens⟩ text := by
  induction text generalizing place tokens with
  | nil => exact (puts_nil place tokens).symm
  | cons c text ih =>
    obtain ⟨place', tokens', there⟩ := put_place place c tokens
    obtain ⟨lt, amp, quot⟩ := plain c List.mem_cons_self
    rw [read, step_plain place tokens lt amp quot, puts_cons, there]
    exact ih place' tokens' fun d mem => plain d (List.mem_cons_of_mem _ mem)

/-- Behind an empty text everything is as it was. -/
theorem puts_some {s s' : State} {text : List Char} (filled : puts s text = some s') :
    (text = [] ∧ s' = s) ∨ ∃ place tokens, s = ⟨.place place, tokens⟩ := by
  obtain ⟨mode, tokens⟩ := s
  cases mode with
  | place place => exact .inr ⟨place, tokens, rfl⟩
  | _ =>
    by_cases none : text = []
    · rw [puts, if_pos none] at filled
      exact .inl ⟨none, (Option.some.inj filled).symm⟩
    · rw [puts, if_neg none] at filled
      cases filled

/-! ## Parts of a page -/

/-- The texts that are not escaped are plain. -/
def AllPlain : List Piece → Prop
  | [] => True
  | .raw text :: pieces => Plain text ∧ AllPlain pieces
  | _ :: pieces => AllPlain pieces

/-- Pieces that begin and end between tags. -/
structure Part (pieces : List Piece) : Prop where
  closed : ∀ tokens, ∃ tokens', fill ⟨.place .text, tokens⟩ pieces = some ⟨.place .text, tokens'⟩
  plain : AllPlain pieces

theorem fill_append (s : State) (pieces pieces' : List Piece) :
    fill s (pieces ++ pieces') = (fill s pieces).bind fun s' => fill s' pieces' := by
  induction pieces generalizing s with
  | nil => rfl
  | cons piece pieces ih =>
    cases piece <;>
    · rw [List.cons_append, fill, fill, Option.bind_assoc]
      exact congrArg _ (funext fun s' => ih s')

theorem AllPlain.append {pieces pieces' : List Piece} (plain : AllPlain pieces)
    (plain' : AllPlain pieces') : AllPlain (pieces ++ pieces') := by
  induction pieces with
  | nil => exact plain'
  | cons piece pieces ih =>
    cases piece with
    | raw text => exact ⟨plain.1, ih plain.2⟩
    | lit | escaped => exact ih plain

namespace Part

theorem nil : Part [] where
  closed tokens := ⟨tokens, rfl⟩
  plain := trivial

theorem append {pieces pieces' : List Piece} (part : Part pieces) (part' : Part pieces') :
    Part (pieces ++ pieces') where
  closed tokens := by
    obtain ⟨middle, first⟩ := part.closed tokens
    obtain ⟨last, second⟩ := part'.closed middle
    exact ⟨last, by rw [fill_append, first, Option.bind_some, second]⟩
  plain := part.plain.append part'.plain

theorem flatMap {α : Type} {f : α → List Piece} {l : List α} (parts : ∀ a ∈ l, Part (f a)) :
    Part (l.flatMap f) := by
  induction l with
  | nil => exact nil
  | cons a l ih =>
    rw [List.flatMap_cons]
    exact (parts a List.mem_cons_self).append (ih fun b mem => parts b (List.mem_cons_of_mem _ mem))

theorem ite {p : Prop} [Decidable p] {pieces pieces' : List Piece} (part : Part pieces)
    (part' : Part pieces') : Part (if p then pieces else pieces') := by
  split
  · exact part
  · exact part'

end Part

/-- **Nothing that is put into a page is taken for markup**, whenever the page as it is meant can be
read and the texts that are not escaped are plain. -/
theorem read_render {pieces : List Piece} {s s' : State}
    (plain : AllPlain pieces) (filled : fill s pieces = some s') :
    read s (render pieces) = some s' := by
  induction pieces generalizing s with
  | nil => exact filled
  | cons piece pieces ih =>
    have go {text : List Char} (later : AllPlain pieces) (same : read s piece.render = puts s text)
        (rest : (puts s text).bind (fun s' => fill s' pieces) = some s') :
        read s (render (piece :: pieces)) = some s' := by
      obtain ⟨next, put, others⟩ := Option.bind_eq_some_iff.1 rest
      rw [render, List.flatMap_cons, read_append, same, put, Option.bind_some]
      exact ih later others
    cases piece with
    | lit markup =>
      obtain ⟨next, first, others⟩ := Option.bind_eq_some_iff.1 filled
      rw [render, List.flatMap_cons, Piece.render, read_append, first, Option.bind_some]
      exact ih plain others
    | escaped text =>
      refine go plain ?_ filled
      obtain ⟨next, put, -⟩ := Option.bind_eq_some_iff.1 filled
      rcases puts_some put with ⟨rfl, rfl⟩ | ⟨place, tokens, rfl⟩
      · exact put.symm
      · exact read_escape place tokens text
    | raw text =>
      refine go plain.2 ?_ filled
      obtain ⟨next, put, -⟩ := Option.bind_eq_some_iff.1 filled
      rcases puts_some put with ⟨rfl, rfl⟩ | ⟨place, tokens, rfl⟩
      · exact put.symm
      · exact read_plain place tokens plain.1

/-- A style sheet is text. -/
theorem read_style {sheet : List Char} (none : '<' ∉ sheet) (tokens : List Token) :
    ∃ tokens', read ⟨.style, tokens⟩ sheet = some ⟨.style, tokens'⟩ := by
  induction sheet generalizing tokens with
  | nil => exact ⟨tokens, rfl⟩
  | cons c sheet ih =>
    have other : c ≠ '<' := fun same => none (same ▸ List.mem_cons_self)
    have stays : step ⟨.style, tokens⟩ c = some ⟨.style, .char c :: tokens⟩ := if_neg other
    rw [read, stays]
    exact ih (fun mem => none (List.mem_cons_of_mem _ mem)) _

/-! ## Tags -/

/-- Attributes without their values. -/
def blankAttributes (attributes : List (Name × List Char)) : List (Name × List Char) :=
  attributes.map fun a => (a.1, [])

def Place.blank : Place → Place
  | text => text
  | title => title
  | value tag attributes key _ => value tag (blankAttributes attributes) key []

def Mode.blank : Mode → Mode
  | place p => place p.blank
  | reference p name => reference p.blank name
  | beforeAttribute tag attributes => beforeAttribute tag (blankAttributes attributes)
  | attributeName tag attributes key => attributeName tag (blankAttributes attributes) key
  | beforeValue tag attributes key => beforeValue tag (blankAttributes attributes) key
  | afterValue tag attributes => afterValue tag (blankAttributes attributes)
  | mode => mode

/-- The tags, without the texts between them and in their attributes. -/
def tags (tokens : List Token) : List Token :=
  tokens.filterMap fun token =>
    match token with
    | .char _ => none
    | .opening tag attributes => some (.opening tag (blankAttributes attributes))
    | token => some token

def State.blank (s : State) : State :=
  ⟨s.mode.blank, tags s.tokens⟩

/-- A page without its texts. -/
def Piece.blank : Piece → Piece
  | lit markup => lit markup
  | escaped _ => escaped []
  | raw _ => raw []

@[simp] theorem blankAttributes_blank (attributes : List (Name × List Char)) :
    blankAttributes (blankAttributes attributes) = blankAttributes attributes := by
  simp [blankAttributes]

@[simp] theorem blankAttributes_append (attributes attributes' : List (Name × List Char)) :
    blankAttributes (attributes ++ attributes') =
      blankAttributes attributes ++ blankAttributes attributes' := by
  simp [blankAttributes]

@[simp] theorem Place.blank_blank (place : Place) : place.blank.blank = place.blank := by
  cases place <;> simp [blank]

theorem tags_cons (token : Token) (tokens : List Token) :
    tags (token :: tokens) = tags [token] ++ tags tokens := by
  rw [tags, ← List.singleton_append, List.filterMap_append]
  rfl

@[simp] theorem tags_tags (tokens : List Token) : tags (tags tokens) = tags tokens := by
  induction tokens with
  | nil => rfl
  | cons token tokens ih =>
    cases token with
    | char c => exact ih
    | doctype => exact congrArg (Token.doctype :: ·) ih
    | closing tag => exact congrArg (Token.closing tag :: ·) ih
    | opening tag attributes =>
      show Token.opening tag _ :: tags (tags tokens) = Token.opening tag _ :: tags tokens
      rw [ih, blankAttributes_blank]

theorem Mode.eq_text_of_blank {mode : Mode} (ends : mode.blank = .place .text) :
    mode = .place .text := by
  cases mode with
  | place place =>
    cases place with
    | text => rfl
    | title | value => cases ends
  | _ => cases ends

theorem blank_eq {mode mode' : Mode} (same : mode.blank = mode'.blank) (tokens : List Token) :
    State.blank ⟨mode, tags tokens⟩ = State.blank ⟨mode', tokens⟩ := by
  rw [State.blank, State.blank, same, tags_tags]

/-- A character of a text changes no tag. -/
theorem blank_put (place : Place) (c : Char) (tokens : List Token) :
    (put place c tokens).blank = State.blank ⟨.place place, tokens⟩ := by
  cases place <;> rfl

theorem blank_put_blank (place : Place) (c : Char) (tokens : List Token) :
    (put place.blank c (tags tokens)).blank = (put place c tokens).blank := by
  have same : (Mode.place place.blank).blank = (Mode.place place).blank :=
    congrArg Mode.place place.blank_blank
  rw [blank_put, blank_put]
  exact blank_eq same tokens

theorem blank_opened (tag : Name) (attributes : List (Name × List Char)) (tokens : List Token) :
    (opened tag (blankAttributes attributes) (tags tokens)).blank =
      (opened tag attributes tokens).blank := by
  have same : tags (.opening tag (blankAttributes attributes) :: tags tokens) =
      tags (.opening tag attributes :: tokens) := by
    show Token.opening tag _ :: tags (tags tokens) = Token.opening tag _ :: tags tokens
    rw [tags_tags, blankAttributes_blank]
  rw [State.blank, State.blank]
  exact congrArg _ same

/-- Texts decide nothing. -/
theorem blank_step (s : State) (c : Char) :
    (step s.blank c).map State.blank = (step s c).map State.blank := by
  obtain ⟨mode, tokens⟩ := s
  have same {mode mode' : Mode} (h : mode.blank = mode'.blank) :
      some (State.blank ⟨mode, tags tokens⟩) = some (State.blank ⟨mode', tokens⟩) :=
    congrArg some (blank_eq h tokens)
  have put_same (place : Place) (c : Char) :
      some (put place.blank c (tags tokens)).blank = some (put place c tokens).blank :=
    congrArg some (blank_put_blank place c tokens)
  have push_same (mode : Mode) (token : Token) :
      some (State.blank ⟨mode, token :: tags tokens⟩) = some (State.blank ⟨mode, token :: tokens⟩) := by
    rw [State.blank, State.blank, tags_cons token (tags tokens), tags_tags, ← tags_cons]
  have opened_same (tag : Name) (attributes : List (Name × List Char)) :
      some (opened tag (blankAttributes attributes) (tags tokens)).blank =
        some (opened tag attributes tokens).blank :=
    congrArg some (blank_opened tag attributes tokens)
  cases mode with
  | place place =>
    cases place with
    | text =>
      dsimp only [State.blank, Mode.blank, Place.blank, step]
      split_ifs
      · exact same rfl
      · exact same rfl
      · exact put_same .text c
    | title =>
      dsimp only [State.blank, Mode.blank, Place.blank, step]
      split_ifs
      · exact same rfl
      · exact same rfl
      · exact put_same .title c
    | value tag attributes key value =>
      dsimp only [State.blank, Mode.blank, Place.blank, step]
      split_ifs
      · exact same (by simp [Mode.blank, blankAttributes])
      · exact same (by simp [Mode.blank, Place.blank])
      · exact put_same (.value tag attributes key value) c
  | reference place name =>
    dsimp only [State.blank, Mode.blank, step]
    split_ifs
    · cases references.lookup name with
      | none => rfl
      | some c => exact put_same place c
    · exact same (by simp [Mode.blank])
    · rfl
  | tagName tag =>
    dsimp only [State.blank, Mode.blank, step]
    split_ifs
    · exact opened_same tag []
    · exact same rfl
    · exact same rfl
    · rfl
  | beforeAttribute tag attributes =>
    dsimp only [State.blank, Mode.blank, step]
    split_ifs
    · exact opened_same tag attributes
    · exact same (by simp [Mode.blank])
    · exact same (by simp [Mode.blank])
    · rfl
  | attributeName tag attributes key =>
    dsimp only [State.blank, Mode.blank, step]
    split_ifs
    · exact same (by simp [Mode.blank])
    · exact same (by simp [Mode.blank])
    · rfl
  | beforeValue tag attributes key =>
    dsimp only [State.blank, Mode.blank, step]
    split_ifs
    · exact same (by simp [Mode.blank, Place.blank])
    · rfl
  | afterValue tag attributes =>
    dsimp only [State.blank, Mode.blank, step]
    split_ifs
    · exact opened_same tag attributes
    · exact same (by simp [Mode.blank])
    · rfl
  | style =>
    dsimp only [State.blank, Mode.blank, step]
    split_ifs
    · exact same rfl
    · exact push_same .style (.char c)
  | lessSlash tag name =>
    dsimp only [State.blank, Mode.blank, step]
    split_ifs
    · exact push_same (.place .text) (.closing tag)
    · rfl
    · exact same rfl
    · rfl
  | declaration =>
    dsimp only [State.blank, Mode.blank, step]
    split_ifs
    · exact push_same (.place .text) .doctype
    · rfl
    · exact same rfl
  | endTagName tag =>
    dsimp only [State.blank, Mode.blank, step]
    split_ifs
    · exact push_same (.place .text) (.closing tag)
    · exact same rfl
    · rfl
  | less | tagOpen | endTagOpen =>
    dsimp only [State.blank, Mode.blank, step]
    split_ifs
    all_goals first | exact same rfl | rfl

theorem blank_read {s t : State} (alike : t.blank = s.blank) (text : List Char) :
    (read t text).map State.blank = (read s text).map State.blank := by
  induction text generalizing s t with
  | nil => exact congrArg some alike
  | cons c text ih =>
    have next : (step t c).map State.blank = (step s c).map State.blank := by
      rw [← blank_step t, alike, blank_step s]
    rw [read, read]
    cases first : step s c with
    | none =>
      rw [first, Option.map_none, Option.map_eq_none_iff] at next
      rw [next]
    | some s' =>
      rw [first, Option.map_some, Option.map_eq_some_iff] at next
      obtain ⟨t', first', alike'⟩ := next
      rw [first']
      exact ih alike'

theorem puts_empty (s : State) : puts s [] = some s := by
  obtain ⟨mode, tokens⟩ := s
  cases mode with
  | place place => exact puts_nil place tokens
  | _ => rfl

theorem tags_chars (text : List Char) (shown : Char → Char) (tokens : List Token) :
    tags ((text.map fun c => Token.char (shown c)).reverse ++ tokens) = tags tokens := by
  rw [tags, List.filterMap_append, ← List.map_reverse, List.filterMap_map]
  have none : text.reverse.filterMap ((fun token : Token => match token with
      | .char _ => Option.none
      | .opening tag attributes => some (.opening tag (blankAttributes attributes))
      | token => some token) ∘ fun c => Token.char (shown c)) = [] :=
    List.filterMap_eq_nil_iff.2 fun _ _ => rfl
  rw [none]
  rfl

/-- A text changes no tag. -/
theorem blank_puts {s s' : State} {text : List Char} (filled : puts s text = some s') :
    s'.blank = s.blank := by
  rcases puts_some filled with ⟨-, rfl⟩ | ⟨place, tokens, rfl⟩
  · rfl
  · cases place with
    | text =>
      cases filled
      exact congrArg (State.mk _) (tags_chars text id tokens)
    | title =>
      cases filled
      exact congrArg (State.mk _) (tags_chars text nonNull tokens)
    | value tag attributes key value =>
      cases filled
      rfl

/-- **The tags of a page are those of the page without its texts.** -/
theorem blank_fill {pieces : List Piece} {s s' t : State} (alike : t.blank = s.blank)
    (filled : fill s pieces = some s') :
    ∃ t', fill t (pieces.map Piece.blank) = some t' ∧ t'.blank = s'.blank := by
  induction pieces generalizing s t with
  | nil =>
    cases filled
    exact ⟨t, rfl, alike⟩
  | cons piece pieces ih =>
    have hole {text : List Char} (rest : (puts s text).bind (fun s' => fill s' pieces) = some s') :
        ∃ t', (puts t []).bind (fun t' => fill t' (pieces.map Piece.blank)) = some t' ∧
          t'.blank = s'.blank := by
      obtain ⟨next, put, others⟩ := Option.bind_eq_some_iff.1 rest
      rw [puts_empty, Option.bind_some]
      exact ih (alike.trans (blank_puts put).symm) others
    cases piece with
    | lit markup =>
      obtain ⟨next, first, others⟩ := Option.bind_eq_some_iff.1 filled
      have same := blank_read alike markup.toList
      rw [first, Option.map_some, Option.map_eq_some_iff] at same
      obtain ⟨next', first', alike'⟩ := same
      obtain ⟨t', later, last⟩ := ih alike' others
      refine ⟨t', ?_, last⟩
      rw [List.map_cons, Piece.blank, fill, first', Option.bind_some, later]
    | escaped text => exact hole filled
    | raw text => exact hole filled

end Html
