import Typeway.Grpc.Described
import Typeway.Grpc.ProtoBlocks

/-!
# Field lines

What the parser of files and the parser of definitions make of the line of a field. Both look for
a label before the type, and the parser of definitions takes off every label that it finds.
-/

namespace Typeway.Grpc

open Checked Typeway.Core Lines Segments Text

/-! ## Numbers and headers -/

theorem parseU32_decimal {n : Nat} (small : n < 2 ^ 32) :
    parseU32 (decimal n) = some (UInt32.ofNat n) := by
  have digits : ∀ c ∈ decimal n, c.isDigit = true := fun c mem =>
    Nat.isDigit_of_mem_toDigits (by decide) (by decide) mem
  have plain : (decimal n).head? ≠ some '+' := by
    intro head
    exact absurd (digits '+' (List.mem_of_mem_head? head)) (by decide)
  have same : (decimal n).foldl (fun n c => 10 * n + (c.toNat - '0'.toNat)) 0 = n :=
    Nat.ofDigitChars_ten_toDigits
  simp only [parseU32, Typeway.Core.CaptureType.u32, if_neg plain, same, if_pos small]
  rw [if_pos]
  exact ⟨Nat.toDigits_ne_nil, List.all_eq_true.2 digits⟩

theorem word_decimal (n : Nat) : Word (decimal n) :=
  ⟨Nat.toDigits_ne_nil, fun c mem => not_whitespace_of_isNameChar (by
    simp [isNameChar, Char.isAlphanum, Nat.isDigit_of_mem_toDigits (by decide) (by decide) mem])⟩

theorem word_equals : Word ['='] :=
  .of_all rfl rfl

theorem extractBlockName_header {keyword name : Str} (word : Word keyword) (named : Name name) :
    extractBlockName (keyword ++ ' ' :: (name ++ [' ', '\x7b'])) keyword = .ok name := by
  have apart : ¬ keyword <+: ' ' :: (name ++ [' ', '\x7b']) := by
    intro here
    obtain ⟨c, rest, rfl⟩ := List.exists_cons_of_ne_nil word.1
    rw [List.cons_prefix_cons] at here
    exact absurd (word.2 c List.mem_cons_self) (by rw [here.1]; decide)
  have brace : Word ['\x7b'] := .of_all rfl rfl
  have inner : trim (' ' :: (name ++ [' ', '\x7b'])) = name ++ [' ', '\x7b'] := by
    rw [trim_cons rfl]
    exact (Spaced.space named.word (.one brace)).trim_eq
  have cut : trimEndMatches "\x7b".toList (name ++ [' ', '\x7b']) = name ++ [' '] := by
    rw [List.append_cons]
    apply trimEndMatches_char
    rw [List.getLast?_concat]
    decide
  rw [extractBlockName, trimStartMatches_append word.1 apart, inner, cut, trim_append rfl,
    trim_word named.word]
  rw [if_neg]
  simpa using named.solid

theorem splitn_piece {piece rest : Str} {sep : Char} (clean : sep ∉ piece) (n : Nat) :
    splitn sep (n + 2) (piece ++ sep :: rest) = piece :: splitn sep (n + 1) rest := by
  rw [splitn, splitOnce_append clean]

/-! ## Fields as words -/

/-- The word before the type of a field. -/
inductive FieldLabel where
  | implicit
  | repeated
  | optional
  deriving DecidableEq

def FieldLabel.words : FieldLabel → List Str
  | implicit => []
  | repeated => ["repeated".toList]
  | optional => ["optional".toList]

theorem FieldLabel.name_of_mem {label : FieldLabel} {w : Str} (mem : w ∈ label.words) : Name w := by
  cases label with
  | implicit => cases mem
  | repeated =>
    rw [List.mem_singleton.1 mem]
    exact .of_ident rfl
  | optional =>
    rw [List.mem_singleton.1 mem]
    exact .of_ident rfl

/-- A line whose words are those of a field. -/
theorem parseField_words {line text protoType name number : Str} (label : FieldLabel)
    (stripped : trim (trimEndMatches ";".toList (trim (before "//".toList line))) = text)
    (noMap : '<' ∉ text)
    (words : splitWhitespace text = label.words ++ [protoType, name, ['='], number])
    (free : label = .implicit → protoType ≠ "repeated".toList ∧ protoType ≠ "optional".toList) :
    parseField line = (parseU32 number).map fun tag =>
      { name
        protoType
        tag
        repeated := label = .repeated
        optional := label = .optional
        isMap := false
        mapKeyType := none
        mapValueType := none } := by
  have noMap : ¬ ("map<".toList.isPrefixOf text || "map <".toList.isPrefixOf text) = true := by
    rw [Bool.or_eq_true, List.isPrefixOf_iff_prefix, List.isPrefixOf_iff_prefix, not_or]
    exact ⟨fun here => noMap (here.subset (by decide)), fun here => noMap (here.subset (by decide))⟩
  rw [parseField, stripped]
  dsimp only
  rw [if_neg noMap, words]
  cases label with
  | implicit =>
    have free := free rfl
    simp only [FieldLabel.words, List.nil_append, List.length_cons, List.length_nil, List.head?_cons,
      Option.some.injEq, free.1, free.2]
    rfl
  | repeated => rfl
  | optional => rfl

/-- A map line, `front` being `map` with or without a blank behind it. -/
theorem parseMapField_words {front key value rest name number : Str} (noOpen : '<' ∉ front)
    (noClose : '>' ∉ key ++ ',' :: value) (noComma : ',' ∉ key)
    (words : splitWhitespace rest = [name, ['='], number]) :
    parseMapField (front ++ '<' :: (key ++ ',' :: (value ++ '>' :: rest))) =
      (parseU32 number).map fun tag =>
        { name
          protoType := "map<".toList ++ trim key ++ ", ".toList ++ trim value ++ ">".toList
          tag
          repeated := false
          optional := false
          isMap := true
          mapKeyType := some (trim key)
          mapValueType := some (trim value) } := by
  have inner : key ++ ',' :: (value ++ '>' :: rest) = (key ++ ',' :: value) ++ '>' :: rest := by
    rw [List.append_assoc, List.cons_append]
  have solid : (key ++ ',' :: value).isEmpty = false := by simp
  rw [parseMapField, splitOnce_append noOpen, Option.bind_eq_bind, Option.bind_some, inner]
  dsimp only
  rw [splitOnce_append noClose, Option.bind_some]
  dsimp only
  rw [solid, if_neg Bool.false_ne_true, splitOnce_append noComma, Option.bind_some]
  dsimp only
  have equals : ¬ (['='] : Str) ≠ "=".toList := not_not_intro rfl
  rw [words]
  dsimp only
  rw [if_neg equals]
  cases parseU32 number <;> rfl

/-! ## Field lines -/

namespace ProtoField

/-- The name and the number of a field. -/
def assigned (f : ProtoField) : Str :=
  f.name ++ ' ' :: '=' :: ' ' :: decimal f.tag

def labelText (f : ProtoField) : Str :=
  if f.repeated then "repeated ".toList
  else if f.optional then "optional ".toList
  else []

def keyText (f : ProtoField) : Str :=
  f.mapKeyType.getD "string".toList

def valueText (f : ProtoField) : Str :=
  f.mapValueType.getD "string".toList

/-- A field line without the blanks at its front and the semicolon. -/
def body (f : ProtoField) : Str :=
  if f.isMap then
    "map".toList ++ '<' :: (f.keyText ++ ',' :: ' ' :: (f.valueText ++ '>' :: ' ' :: f.assigned))
  else f.labelText ++ (f.protoType ++ ' ' :: f.assigned)

variable {f : ProtoField}

theorem fieldLine_eq (f : ProtoField) : f.fieldLine = ' ' :: ' ' :: (f.body ++ [';']) := by
  obtain ⟨name, protoType, tag, repeated, optional, isMap, key, value, doc⟩ := f
  have open' : "  map<".toList = ' ' :: ' ' :: ("map".toList ++ ['<']) := rfl
  have equals : " = ".toList = [' ', '=', ' '] := rfl
  have blanks : "  ".toList = [' ', ' '] := rfl
  have comma : ", ".toList = [',', ' '] := rfl
  have close : "> ".toList = ['>', ' '] := rfl
  have blank : " ".toList = [' '] := rfl
  have semicolon : ";".toList = [';'] := rfl
  cases isMap with
  | true =>
    change "  map<".toList ++ key.getD "string".toList ++ ", ".toList ++ value.getD "string".toList ++
      "> ".toList ++ name ++ " = ".toList ++ decimal tag ++ ";".toList = ' ' :: ' ' ::
        (("map".toList ++ '<' :: (key.getD "string".toList ++ ',' :: ' ' ::
          (value.getD "string".toList ++ '>' :: ' ' :: (name ++ ' ' :: '=' :: ' ' :: decimal tag)))) ++
            [';'])
    rw [open', equals, comma, close, semicolon]
    simp only [List.append_assoc, List.cons_append, List.nil_append]
  | false =>
    change "  ".toList ++ (if repeated then "repeated ".toList else if optional then
      "optional ".toList else []) ++ protoType ++ " ".toList ++ name ++ " = ".toList ++ decimal tag ++
        ";".toList = ' ' :: ' ' :: (((if repeated then "repeated ".toList else if optional then
          "optional ".toList else []) ++ (protoType ++ ' ' :: (name ++ ' ' :: '=' :: ' ' ::
            decimal tag))) ++ [';'])
    rw [blanks, equals, blank, semicolon]
    simp only [List.append_assoc, List.cons_append, List.nil_append]

theorem spaced_assigned (named : f.Named) : Spaced [f.name, ['='], decimal f.tag] f.assigned :=
  .space (Name.of_ident named.name).word (.space word_equals (.one (word_decimal f.tag)))

theorem name_key (named : f.Named) : Name f.keyText :=
  .getD named.mapKeyType name_string

theorem name_value (named : f.Named) : Name f.valueText :=
  .getD named.mapValueType name_string

def label (f : ProtoField) : FieldLabel :=
  if f.repeated then .repeated
  else if f.optional then .optional
  else .implicit

theorem spaced_body (named : f.Named) (plain : f.isMap = false) :
    Spaced (f.label.words ++ [f.protoType, f.name, ['='], decimal f.tag]) f.body := by
  have typed : Spaced [f.protoType, f.name, ['='], decimal f.tag] (f.protoType ++ ' ' :: f.assigned) :=
    .space (Name.of_fullIdent named.protoType).word (spaced_assigned named)
  rw [body, plain, if_neg Bool.false_ne_true, label, labelText]
  split
  · exact .space (Name.of_ident rfl).word typed
  · split
    · exact .space (Name.of_ident rfl).word typed
    · exact typed

theorem spaced_mapBody (named : f.Named) (map : f.isMap = true) :
    Spaced ["map".toList ++ '<' :: (f.keyText ++ [',']), f.valueText ++ ['>'], f.name, ['='],
      decimal f.tag] f.body := by
  have key : Word ("map".toList ++ '<' :: (f.keyText ++ [','])) := by
    refine ⟨List.append_ne_nil_of_left_ne_nil (by decide) _, ?_⟩
    have own := (name_key named).word.2
    have mark : isWhitespace '<' = false ∧ isWhitespace ',' = false := ⟨rfl, rfl⟩
    have front := (Name.of_ident (rfl : isIdent "map".toList = true)).word.2
    simp only [List.mem_append, List.mem_cons, List.not_mem_nil, or_false]
    rintro c (h | rfl | h | rfl)
    · exact front c h
    · exact mark.1
    · exact own c h
    · exact mark.2
  have value : Word (f.valueText ++ ['>']) := by
    refine ⟨List.append_ne_nil_of_left_ne_nil (name_value named).solid _, ?_⟩
    have own := (name_value named).word.2
    have mark : isWhitespace '>' = false := rfl
    simp only [List.mem_append, List.mem_singleton]
    rintro c (h | rfl)
    · exact own c h
    · exact mark
  have spaced := Spaced.space key (.space value (spaced_assigned named))
  rw [body, map, if_pos rfl]
  simpa only [List.append_assoc, List.cons_append, List.nil_append] using spaced

theorem exists_spaced (named : f.Named) : ∃ ws, Spaced ws f.body := by
  cases map : f.isMap with
  | true => exact ⟨_, spaced_mapBody named map⟩
  | false => exact ⟨_, spaced_body named map⟩

/-- The number ends the line. -/
theorem getLast?_body (f : ProtoField) : f.body.getLast? = (decimal f.tag).getLast? := by
  have assigned (front : Str) : (front ++ f.assigned).getLast? = (decimal f.tag).getLast? := by
    have same : front ++ f.assigned = front ++ f.name ++ [' ', '=', ' '] ++ decimal f.tag := by
      simp [ProtoField.assigned]
    rw [same, List.getLast?_append_of_ne_nil _ (word_decimal f.tag).1]
  rw [body]
  split
  · have behind := assigned ("map".toList ++ '<' :: (f.keyText ++ ',' :: ' ' :: (f.valueText ++ ['>', ' '])))
    simpa only [List.append_assoc, List.cons_append, List.nil_append] using behind
  · have behind := assigned (f.labelText ++ (f.protoType ++ [' ']))
    simpa only [List.append_assoc, List.cons_append, List.nil_append] using behind

theorem trim_body (named : f.Named) : trim (f.body ++ [';']) = f.body ++ [';'] := by
  obtain ⟨ws, spaced⟩ := exists_spaced named
  apply trim_of_ends
  · intro c head
    rw [List.head?_append_of_ne_nil _ spaced.ne_nil] at head
    exact spaced.first c head
  · intro c last
    rw [List.getLast?_concat] at last
    cases last
    rfl

theorem trim_fieldLine (named : f.Named) : trim f.fieldLine = f.body ++ [';'] := by
  rw [fieldLine_eq, trim_cons rfl, trim_cons rfl, trim_body named]

/-- What both parsers make of a field line. -/
theorem trim_semicolon (named : f.Named) :
    trim (trimEndMatches ";".toList (f.body ++ [';'])) = f.body := by
  obtain ⟨ws, spaced⟩ := exists_spaced named
  have cut : trimEndMatches ";".toList (f.body ++ [';']) = f.body := by
    apply trimEndMatches_char
    rw [getLast?_body]
    intro last
    exact absurd (List.mem_of_getLast? last) (notMem_decimal rfl f.tag)
  rw [cut, spaced.trim_eq]

theorem before_comment (named : f.Named) :
    before "//".toList (f.body ++ [';']) = f.body ++ [';'] := by
  apply before_of_notMem
  have clean : '/' ∉ f.fieldLine := notMem_fieldLine named rfl rfl
  rw [fieldLine_eq] at clean
  exact fun mem => clean (List.mem_cons_of_mem _ (List.mem_cons_of_mem _ mem))

theorem notMem_body (named : f.Named) (plain : f.isMap = false) {c : Char}
    (other : isNameChar c = false) (solid : isWhitespace c = false) (apart : c ≠ '=') :
    c ∉ f.body := by
  intro mem
  rcases (spaced_body named plain).mem mem with space | ⟨w, found, own⟩
  · rw [solid] at space
    cases space
  rcases List.mem_append.1 found with label | found
  · exact (FieldLabel.name_of_mem label).notMem other own
  · simp only [List.mem_cons, List.not_mem_nil, or_false] at found
    obtain rfl | rfl | rfl | rfl := found
    · exact (Name.of_fullIdent named.protoType).notMem other own
    · exact (Name.of_ident named.name).notMem other own
    · exact apart (List.mem_singleton.1 own)
    · exact notMem_decimal_of_isNameChar other f.tag own

/-! ### The parser of files -/

theorem parseField_body (named : f.Named) (plain : f.isMap = false)
    (free : f.label = .implicit →
      f.protoType ≠ "repeated".toList ∧ f.protoType ≠ "optional".toList) :
    parseField (f.body ++ [';']) = some
      { name := f.name
        protoType := f.protoType
        tag := UInt32.ofNat f.tag
        repeated := f.label = .repeated
        optional := f.label = .optional
        isMap := false
        mapKeyType := none
        mapValueType := none } := by
  have stripped :
      trim (trimEndMatches ";".toList (trim (before "//".toList (f.body ++ [';'])))) = f.body := by
    rw [before_comment named, trim_body named, trim_semicolon named]
  rw [parseField_words f.label stripped (notMem_body named plain rfl rfl (by decide))
    (spaced_body named plain).splitWhitespace_eq free, parseU32_decimal named.small]
  rfl

theorem body_map (map : f.isMap = true) :
    f.body = "map".toList ++
      '<' :: (f.keyText ++ ',' :: ((' ' :: f.valueText) ++ '>' :: ' ' :: f.assigned)) := by
  rw [body, map, if_pos rfl, List.cons_append]

theorem close_notMem_types (named : f.Named) : '>' ∉ f.keyText ++ ',' :: (' ' :: f.valueText) := by
  simp only [List.mem_append, List.mem_cons, not_or]
  exact ⟨(name_key named).notMem rfl, by decide, by decide, (name_value named).notMem rfl⟩

theorem parseField_mapBody (named : f.Named) (map : f.isMap = true) :
    parseField (f.body ++ [';']) = some
      { name := f.name
        protoType := "map<".toList ++ f.keyText ++ ", ".toList ++ f.valueText ++ ">".toList
        tag := UInt32.ofNat f.tag
        repeated := false
        optional := false
        isMap := true
        mapKeyType := some f.keyText
        mapValueType := some f.valueText } := by
  have words : splitWhitespace (' ' :: f.assigned) = [f.name, ['='], decimal f.tag] := by
    have spaced := splitWhitespace_blank_append Blank.space f.assigned
    rw [(spaced_assigned named).splitWhitespace_eq] at spaced
    exact spaced
  have isMap : ("map<".toList.isPrefixOf f.body || "map <".toList.isPrefixOf f.body) = true := by
    rw [Bool.or_eq_true, List.isPrefixOf_iff_prefix, body_map map]
    left
    exact ⟨f.keyText ++ ',' :: ((' ' :: f.valueText) ++ '>' :: ' ' :: f.assigned), rfl⟩
  rw [parseField, before_comment named, trim_body named, trim_semicolon named]
  dsimp only
  rw [if_pos isMap, body_map map, parseMapField_words (by decide) (close_notMem_types named)
    ((name_key named).notMem rfl) words, parseU32_decimal named.small, trim_cons rfl,
    trim_word (name_key named).word, trim_word (name_value named).word]
  rfl

/-! ### The parser of definitions -/

theorem parseFieldSpec_mapBody (named : f.Named) (map : f.isMap = true) :
    parseFieldSpec (f.body ++ [';']) = some
      { name := f.name
        protoType := "map".toList
        tag := UInt32.ofNat f.tag
        repeated := false
        optional := false
        isMap := true
        mapKeyType := some f.keyText
        mapValueType := some f.valueText
        description := none } := by
  have isMap : "map<".toList.isPrefixOf f.body = true := by
    rw [List.isPrefixOf_iff_prefix, body_map map]
    exact ⟨f.keyText ++ ',' :: ((' ' :: f.valueText) ++ '>' :: ' ' :: f.assigned), rfl⟩
  have inner : f.keyText ++ ',' :: ((' ' :: f.valueText) ++ '>' :: ' ' :: f.assigned) =
      (f.keyText ++ ',' :: ' ' :: f.valueText) ++ '>' :: ' ' :: f.assigned := by
    simp only [List.append_assoc, List.cons_append]
  have clean : ' ' ∉ f.name := (Name.of_ident named.name).notMem rfl
  have equals : ' ' ∉ (['='] : Str) := by decide
  have cut : splitn ' ' 3 f.assigned = [f.name, ['='], decimal f.tag] := by
    have parted : f.assigned = f.name ++ ' ' :: (['='] ++ ' ' :: decimal f.tag) := rfl
    rw [parted, splitn_piece clean, splitn_piece equals]
    rfl
  have solid : f.body.isEmpty = false := by
    rw [body_map map]
    rfl
  rw [parseFieldSpec, trim_body named, trim_semicolon named]
  dsimp only
  rw [solid, if_neg Bool.false_ne_true, if_pos isMap, body_map map, parseMapFieldSpec,
    splitOnce_append (by decide), Option.bind_eq_bind, Option.bind_some, inner]
  dsimp only
  rw [splitOnce_append (close_notMem_types named), Option.bind_some]
  dsimp only
  rw [splitOnce_append ((name_key named).notMem rfl), Option.bind_some]
  dsimp only
  rw [trim_cons rfl, (spaced_assigned named).trim_eq, cut]
  dsimp only
  rw [trim_word (word_decimal f.tag), parseU32_decimal named.small, trim_cons rfl,
    trim_word (name_key named).word, trim_word (name_value named).word]
  rfl

/-- A line without a type behind the label is no field. -/
theorem splitn_few {text : Str} (few : text.count ' ' ≤ 2) :
    ∀ protoType name equals number, splitn ' ' 4 text ≠ [protoType, name, equals, number] := by
  intro protoType name equals number same
  have short := length_splitn_le ' ' 4 text
  rw [same, List.length_cons, List.length_cons, List.length_cons, List.length_singleton] at short
  omega

theorem count_assigned (named : f.Named) : f.assigned.count ' ' = 2 := by
  have name : f.name.count ' ' = 0 :=
    List.count_eq_zero.2 ((Name.of_ident named.name).notMem rfl)
  have number : (decimal f.tag).count ' ' = 0 := List.count_eq_zero.2 (notMem_decimal rfl _)
  rw [assigned, List.count_append, List.count_cons_self,
    List.count_cons_of_ne (by decide), List.count_cons_self, name, number]

theorem count_trim_le (c : Char) (text : Str) : (trim text).count c ≤ text.count c := by
  have sublist : (trim text).Sublist text :=
    (List.rdropWhile_prefix isWhitespace _).sublist.trans (List.dropWhile_suffix _).sublist
  exact sublist.count_le c

/-- A word that is a label, as the parser of definitions looks for it. -/
theorem label_prefix_iff {keyword word rest : Str} (clean : ' ' ∉ keyword) (clean' : ' ' ∉ word) :
    keyword ++ [' '] <+: word ++ ' ' :: rest ↔ word = keyword := by
  constructor
  · rintro ⟨more, same⟩
    rw [List.append_assoc, List.singleton_append] at same
    have cut := splitOnce_append clean more
    rw [same, splitOnce_append clean'] at cut
    cases cut
    rfl
  · rintro rfl
    exact ⟨rest, by rw [List.append_assoc, List.singleton_append]⟩

/-- The type with what stands behind it. -/
def typed (f : ProtoField) : Str :=
  f.protoType ++ ' ' :: f.assigned

theorem trim_typed (named : f.Named) : trim f.typed = f.typed :=
  (Spaced.space (Name.of_fullIdent named.protoType).word (spaced_assigned named)).trim_eq

/-- The label is taken off, and the type is none. -/
theorem strip_label {keyword : Str} (clean : ' ' ∉ keyword) (named : f.Named)
    (apart : f.protoType ≠ keyword) :
    trim (trimStartMatches (keyword ++ [' ']) (keyword ++ [' '] ++ f.typed)) = f.typed := by
  have other : ¬ keyword ++ [' '] <+: f.typed := by
    rw [typed, label_prefix_iff clean ((Name.of_fullIdent named.protoType).notMem rfl)]
    exact apart
  rw [trimStartMatches_append (List.append_ne_nil_of_right_ne_nil _ (List.cons_ne_nil _ _)) other,
    trim_typed named]

/-- A type that is taken for a label. -/
theorem strip_type {keyword : Str} (named : f.Named) (same : f.protoType = keyword) :
    (trim (trimStartMatches (keyword ++ [' ']) f.typed)).count ' ' ≤ 2 := by
  have front : f.typed = keyword ++ [' '] ++ f.assigned := by
    rw [typed, same, List.append_assoc, List.singleton_append]
  have behind := (stripLoop_suffix (keyword ++ [' ']) f.assigned.length f.assigned).sublist.count_le ' '
  rw [front, trimStartMatches_twice (List.append_ne_nil_of_right_ne_nil _ (List.cons_ne_nil _ _))]
  refine (count_trim_le _ _).trans (behind.trans ?_)
  rw [count_assigned named]

/-- The label is taken off, and the type with it. -/
theorem strip_both {keyword : Str} (named : f.Named) (same : f.protoType = keyword) :
    (trim (trimStartMatches (keyword ++ [' ']) (keyword ++ [' '] ++ f.typed))).count ' ' ≤ 2 := by
  rw [trimStartMatches_twice (List.append_ne_nil_of_right_ne_nil _ (List.cons_ne_nil _ _))]
  exact strip_type named same

/-- The parser of definitions does not take the type for a label. -/
def TypeRead (f : ProtoField) : Prop :=
  match f.label with
  | .implicit => f.protoType ≠ "repeated".toList ∧ f.protoType ≠ "optional".toList
  | .repeated => f.protoType ≠ "repeated".toList
  | .optional => f.protoType ≠ "optional".toList

/-- The rest of a line behind its label. -/
theorem parseFieldSpec_rest (named : f.Named) (plain : f.isMap = false) {repeated optional : Bool}
    {rest : Str} (repeats : ("repeated".toList ++ [' ']).isPrefixOf f.body = repeated)
    (opts : (!repeated && ("optional".toList ++ [' ']).isPrefixOf f.body) = optional)
    (behind : (if repeated then trim (trimStartMatches ("repeated".toList ++ [' ']) f.body)
      else if optional then trim (trimStartMatches ("optional".toList ++ [' ']) f.body) else f.body) = rest) :
    parseFieldSpec (f.body ++ [';']) =
      match splitn ' ' 4 rest with
      | [protoType, name, _, number] => (parseU32 (trim number)).map fun tag =>
        { name
          protoType
          tag
          repeated
          optional
          isMap := false
          mapKeyType := none
          mapValueType := none
          description := none }
      | _ => none := by
  obtain ⟨ws, spaced⟩ := exists_spaced named
  have solid : f.body.isEmpty = false := List.isEmpty_eq_false_iff.2 spaced.ne_nil
  have noMap : ¬ "map<".toList.isPrefixOf f.body = true := by
    rw [List.isPrefixOf_iff_prefix]
    exact fun here => notMem_body named plain rfl rfl (by decide) (here.subset (by decide : '<' ∈ _))
  have repeatedLabel : "repeated ".toList = "repeated".toList ++ [' '] := rfl
  have optionalLabel : "optional ".toList = "optional".toList ++ [' '] := rfl
  rw [parseFieldSpec, trim_body named, trim_semicolon named]
  dsimp only
  rw [solid, if_neg Bool.false_ne_true, if_neg noMap, repeatedLabel, optionalLabel, repeats, opts,
    behind]
  generalize splitn ' ' 4 rest = parts
  match parts with
  | [protoType, name, equals, number] =>
    dsimp only
    cases parseU32 (trim number) <;> rfl
  | [] | [_] | [_, _] | [_, _, _] | _ :: _ :: _ :: _ :: _ :: _ => rfl

theorem parseFieldSpec_typed (named : f.Named) (plain : f.isMap = false) {repeated optional : Bool}
    (repeats : ("repeated".toList ++ [' ']).isPrefixOf f.body = repeated)
    (opts : (!repeated && ("optional".toList ++ [' ']).isPrefixOf f.body) = optional)
    (behind : (if repeated then trim (trimStartMatches ("repeated".toList ++ [' ']) f.body)
      else if optional then trim (trimStartMatches ("optional".toList ++ [' ']) f.body) else f.body) =
        f.typed) :
    parseFieldSpec (f.body ++ [';']) = some
      { name := f.name
        protoType := f.protoType
        tag := UInt32.ofNat f.tag
        repeated
        optional
        isMap := false
        mapKeyType := none
        mapValueType := none
        description := none } := by
  have cut : splitn ' ' 4 f.typed = [f.protoType, f.name, ['='], decimal f.tag] := by
    have parted : f.typed = f.protoType ++ ' ' :: (f.name ++ ' ' :: (['='] ++ ' ' :: decimal f.tag)) :=
      rfl
    rw [parted, splitn_piece ((Name.of_fullIdent named.protoType).notMem rfl),
      splitn_piece ((Name.of_ident named.name).notMem rfl), splitn_piece (by decide)]
    rfl
  rw [parseFieldSpec_rest named plain repeats opts behind, cut]
  dsimp only
  rw [trim_word (word_decimal f.tag), parseU32_decimal named.small]
  rfl

theorem parseFieldSpec_few (named : f.Named) (plain : f.isMap = false) {repeated optional : Bool}
    {rest : Str} (repeats : ("repeated".toList ++ [' ']).isPrefixOf f.body = repeated)
    (opts : (!repeated && ("optional".toList ++ [' ']).isPrefixOf f.body) = optional)
    (behind : (if repeated then trim (trimStartMatches ("repeated".toList ++ [' ']) f.body)
      else if optional then trim (trimStartMatches ("optional".toList ++ [' ']) f.body) else f.body) = rest)
    (few : rest.count ' ' ≤ 2) : parseFieldSpec (f.body ++ [';']) = none := by
  rw [parseFieldSpec_rest named plain repeats opts behind]
  split
  · rename_i cut
    exact absurd cut (splitn_few few _ _ _ _)
  · rfl

theorem body_plain (plain : f.isMap = false) :
    f.body = match f.label with
      | .implicit => f.typed
      | .repeated => "repeated".toList ++ [' '] ++ f.typed
      | .optional => "optional".toList ++ [' '] ++ f.typed := by
  rw [body, plain, if_neg Bool.false_ne_true, labelText, label]
  split
  · rfl
  · split <;> rfl

theorem repeated_apart (f : ProtoField) :
    ¬ "repeated".toList ++ [' '] <+: "optional".toList ++ [' '] ++ f.typed := by
  have optional : "optional".toList <+: "optional".toList ++ [' '] ++ f.typed := by
    rw [List.append_assoc]
    exact List.prefix_append _ _
  intro here
  have repeated := (List.prefix_append "repeated".toList [' ']).trans here
  exact prefixes_apart optional (by decide) (by decide) repeated

/-- The parser of definitions reads a field whose type it does not take for a label. -/
theorem parseFieldSpec_body (named : f.Named) (plain : f.isMap = false) (read : f.TypeRead) :
    parseFieldSpec (f.body ++ [';']) = some
      { name := f.name
        protoType := f.protoType
        tag := UInt32.ofNat f.tag
        repeated := f.label = .repeated
        optional := f.label = .optional
        isMap := false
        mapKeyType := none
        mapValueType := none
        description := none } := by
  have whole := body_plain plain
  have clean : ' ' ∉ f.protoType := (Name.of_fullIdent named.protoType).notMem rfl
  rw [TypeRead] at read
  cases label : f.label with
  | implicit =>
    rw [label] at whole read
    have noRepeated : ("repeated".toList ++ [' ']).isPrefixOf f.body = false := by
      rw [Bool.eq_false_iff, ne_eq, List.isPrefixOf_iff_prefix, whole]
      exact fun here => read.1 ((label_prefix_iff (by decide) clean).1 here)
    have noOptional : ("optional".toList ++ [' ']).isPrefixOf f.body = false := by
      rw [Bool.eq_false_iff, ne_eq, List.isPrefixOf_iff_prefix, whole]
      exact fun here => read.2 ((label_prefix_iff (by decide) clean).1 here)
    exact parseFieldSpec_typed named plain noRepeated noOptional whole
  | repeated =>
    rw [label] at whole read
    have repeats : ("repeated".toList ++ [' ']).isPrefixOf f.body = true := by
      rw [List.isPrefixOf_iff_prefix, whole]
      exact List.prefix_append _ _
    apply parseFieldSpec_typed named plain repeats rfl
    rw [if_pos rfl, whole]
    exact strip_label (by decide) named read
  | optional =>
    rw [label] at whole read
    have noRepeated : ("repeated".toList ++ [' ']).isPrefixOf f.body = false := by
      rw [Bool.eq_false_iff, ne_eq, List.isPrefixOf_iff_prefix, whole]
      exact repeated_apart f
    have opts : (!false && ("optional".toList ++ [' ']).isPrefixOf f.body) = true := by
      rw [Bool.not_false, Bool.true_and, List.isPrefixOf_iff_prefix, whole]
      exact List.prefix_append _ _
    apply parseFieldSpec_typed named plain noRepeated opts
    rw [if_neg Bool.false_ne_true, if_pos rfl, whole]
    exact strip_label (by decide) named read

/-- It reads no other. -/
theorem parseFieldSpec_none (named : f.Named) (plain : f.isMap = false) (taken : ¬ f.TypeRead) :
    parseFieldSpec (f.body ++ [';']) = none := by
  have whole := body_plain plain
  have clean : ' ' ∉ f.protoType := (Name.of_fullIdent named.protoType).notMem rfl
  have typed_prefix {keyword : Str} (spaceless : ' ' ∉ keyword) (same : f.protoType = keyword) :
      keyword ++ [' '] <+: f.typed := by
    rw [typed, label_prefix_iff spaceless clean]
    exact same
  rw [TypeRead] at taken
  cases label : f.label with
  | implicit =>
    rw [label] at whole taken
    dsimp only at whole taken
    by_cases repeated : f.protoType = "repeated".toList
    · have repeats : ("repeated".toList ++ [' ']).isPrefixOf f.body = true := by
        rw [List.isPrefixOf_iff_prefix, whole]
        exact typed_prefix (by decide) repeated
      apply parseFieldSpec_few named plain repeats rfl (if_pos rfl)
      rw [whole]
      exact strip_type named repeated
    · have optional : f.protoType = "optional".toList := by
        by_contra other
        exact taken ⟨repeated, other⟩
      have noRepeated : ("repeated".toList ++ [' ']).isPrefixOf f.body = false := by
        rw [Bool.eq_false_iff, ne_eq, List.isPrefixOf_iff_prefix, whole]
        exact fun here => repeated ((label_prefix_iff (by decide) clean).1 here)
      have opts : (!false && ("optional".toList ++ [' ']).isPrefixOf f.body) = true := by
        rw [Bool.not_false, Bool.true_and, List.isPrefixOf_iff_prefix, whole]
        exact typed_prefix (by decide) optional
      apply parseFieldSpec_few named plain noRepeated opts (by
        rw [if_neg Bool.false_ne_true, if_pos rfl])
      rw [whole]
      exact strip_type named optional
  | repeated =>
    rw [label] at whole taken
    have repeats : ("repeated".toList ++ [' ']).isPrefixOf f.body = true := by
      rw [List.isPrefixOf_iff_prefix, whole]
      exact List.prefix_append _ _
    apply parseFieldSpec_few named plain repeats rfl (if_pos rfl)
    rw [whole]
    exact strip_both named (not_not.1 taken)
  | optional =>
    rw [label] at whole taken
    have noRepeated : ("repeated".toList ++ [' ']).isPrefixOf f.body = false := by
      rw [Bool.eq_false_iff, ne_eq, List.isPrefixOf_iff_prefix, whole]
      exact repeated_apart f
    have opts : (!false && ("optional".toList ++ [' ']).isPrefixOf f.body) = true := by
      rw [Bool.not_false, Bool.true_and, List.isPrefixOf_iff_prefix, whole]
      exact List.prefix_append _ _
    apply parseFieldSpec_few named plain noRepeated opts (by
      rw [if_neg Bool.false_ne_true, if_pos rfl])
    rw [whole]
    exact strip_both named (not_not.1 taken)

end ProtoField

end Typeway.Grpc
