import Mathlib.Algebra.Group.Int.Defs
import Typeway.Base.Percent
import Typeway.Base.Utf8
import Typeway.Server.Typed

/-!
# gRPC statuses

`status.rs`: the codes, and the text of a message as a header value. A client reads the code and the
message from the headers of a response.
-/

namespace Typeway.Grpc

open Typeway.Core Server

inductive GrpcCode where
  | ok | cancelled | unknown | invalidArgument | deadlineExceeded | notFound | alreadyExists
  | permissionDenied | resourceExhausted | failedPrecondition | aborted | outOfRange
  | unimplemented | internal | unavailable | dataLoss | unauthenticated
  deriving DecidableEq, Repr

namespace GrpcCode

def asI32 : GrpcCode → Int
  | ok => 0
  | cancelled => 1
  | unknown => 2
  | invalidArgument => 3
  | deadlineExceeded => 4
  | notFound => 5
  | alreadyExists => 6
  | permissionDenied => 7
  | resourceExhausted => 8
  | failedPrecondition => 9
  | aborted => 10
  | outOfRange => 11
  | unimplemented => 12
  | internal => 13
  | unavailable => 14
  | dataLoss => 15
  | unauthenticated => 16

def fromI32 (code : Int) : GrpcCode :=
  match code with
  | 0 => ok
  | 1 => cancelled
  | 2 => unknown
  | 3 => invalidArgument
  | 4 => deadlineExceeded
  | 5 => notFound
  | 6 => alreadyExists
  | 7 => permissionDenied
  | 8 => resourceExhausted
  | 9 => failedPrecondition
  | 10 => aborted
  | 11 => outOfRange
  | 12 => unimplemented
  | 13 => internal
  | 14 => unavailable
  | 15 => dataLoss
  | 16 => unauthenticated
  | _ => unknown

@[simp] theorem fromI32_asI32 (code : GrpcCode) : fromI32 code.asI32 = code := by
  cases code <;> rfl

theorem asI32_eq_zero {code : GrpcCode} : code.asI32 = 0 ↔ code = ok := by
  cases code <;> decide

/-- `code.as_i32().to_string()` -/
def text (code : GrpcCode) : Str :=
  (toString code.asI32).toList

end GrpcCode

structure GrpcStatus where
  code : GrpcCode
  message : Str
  deriving DecidableEq

def httpToGrpcCode (httpStatus : Nat) : GrpcCode :=
  if 200 ≤ httpStatus ∧ httpStatus ≤ 299 then .ok
  else
    match httpStatus with
    | 400 => .invalidArgument
    | 401 => .unauthenticated
    | 403 => .permissionDenied
    | 404 => .notFound
    | 409 => .alreadyExists
    | 429 => .resourceExhausted
    | 499 => .cancelled
    | 500 => .internal
    | 501 => .unimplemented
    | 503 => .unavailable
    | 504 => .deadlineExceeded
    | _ => .unknown

/-! ## Messages -/

/-- The bytes that `encode_grpc_message` leaves as they are. -/
def isPlain (b : UInt8) : Bool :=
  0x20 ≤ b && b ≤ 0x7E && b ≠ Percent.percent

def encodeGrpcMessage (message : Str) : Str :=
  (Percent.escape isPlain (Utf8.bytes message)).map fun b => Char.ofNat b.toNat

def decodeGrpcMessage (message : Str) : Str :=
  (Utf8.chars? (Percent.unescape (Utf8.bytes message))).getD message

/-- Every character is visible ASCII or a space. -/
def Visible (text : Str) : Prop :=
  ∀ c ∈ text, 32 ≤ c.toNat ∧ c.toNat < 127

instance (text : Str) : Decidable (Visible text) :=
  inferInstanceAs (Decidable (∀ c ∈ text, _))

theorem escaped_visible {b : UInt8} {bytes : List UInt8} (mem : b ∈ Percent.escape isPlain bytes) :
    32 ≤ b.toNat ∧ b.toNat < 127 := by
  obtain plain | rfl | ⟨n, small, rfl⟩ := Percent.mem_escape mem
  · simp only [isPlain, Bool.and_eq_true, decide_eq_true_eq, UInt8.le_iff_toNat_le] at plain
    obtain ⟨⟨low, high⟩, -⟩ := plain
    have low : 32 ≤ b.toNat := low
    have high : b.toNat ≤ 126 := high
    omega
  · decide
  · have all : ∀ n < 16, 32 ≤ (Percent.hexUpper n).toNat ∧ (Percent.hexUpper n).toNat < 127 := by
      decide
    exact all n small

theorem encodeGrpcMessage_visible (message : Str) : Visible (encodeGrpcMessage message) := by
  intro c mem
  obtain ⟨b, escaped, rfl⟩ := List.mem_map.1 mem
  have visible := escaped_visible escaped
  rw [Utf8.toNat_ofByte (by omega)]
  exact visible

theorem bytes_encodeGrpcMessage (message : Str) :
    Utf8.bytes (encodeGrpcMessage message) = Percent.escape isPlain (Utf8.bytes message) := by
  apply Utf8.bytes_ofBytes
  intro b mem
  have := escaped_visible mem
  omega

/-- A message survives the encoding, whatever its characters. -/
theorem decode_encodeGrpcMessage (message : Str) :
    decodeGrpcMessage (encodeGrpcMessage message) = message := by
  have special : isPlain Percent.percent = false := by decide
  have back := Percent.unescape_escape special (Utf8.bytes message) []
  rw [List.append_nil, Percent.unescape, List.append_nil] at back
  rw [decodeGrpcMessage, bytes_encodeGrpcMessage, back, Utf8.chars?_bytes]
  rfl

/-- The message reads as itself though nobody has encoded it: it has no escape, or its escapes make
no text. -/
def Unescaped (message : Str) : Prop :=
  ¬ Percent.HasEscape (Utf8.bytes message) ∨
    Utf8.chars? (Percent.unescape (Utf8.bytes message)) = none

theorem decodeGrpcMessage_eq_self_iff {message : Str} :
    decodeGrpcMessage message = message ↔ Unescaped message := by
  rw [decodeGrpcMessage, Unescaped, ← Percent.unescape_eq_self_iff]
  cases text : Utf8.chars? (Percent.unescape (Utf8.bytes message)) with
  | none => simp
  | some text' =>
    have bytes := Utf8.bytes_of_chars? text
    simp only [Option.getD_some, reduceCtorEq, or_false]
    constructor
    · rintro rfl
      exact bytes.symm
    · intro same
      rw [same, Utf8.chars?_bytes] at text
      exact (Option.some.inj text).symm

/-! ## Headers -/

abbrev HeaderMap := List (Str × List UInt8)

/-- `headers.get(name).and_then(|v| v.to_str().ok())` -/
def HeaderMap.text? (headers : HeaderMap) (name : Str) : Option Str :=
  (headers.find? fun h => h.1 = name).bind fun h => headerToStr h.2

/-- The bytes of visible text. -/
theorem bytes_visible {text : Str} (visible : Visible text) :
    ∀ b ∈ Utf8.bytes text, 32 ≤ b.toNat ∧ b.toNat < 127 := by
  rw [Utf8.bytes_ascii fun c mem => by have := visible c mem; omega]
  intro b mem
  obtain ⟨c, inside, rfl⟩ := List.mem_map.1 mem
  have := visible c inside
  have value : (UInt8.ofNat c.toNat).toNat = c.toNat := Nat.mod_eq_of_lt (by omega)
  omega

/-- `HeaderValue::from_str` of the `http` crate. By its documentation it takes every text of visible
ASCII characters; what else it takes is left open. -/
structure HeaderParse where
  fromStr : Str → Option (List UInt8)
  visible : ∀ text, Visible text → fromStr text = some (Utf8.bytes text)
  same : ∀ {text value}, fromStr text = some value → value = Utf8.bytes text

/-- The bytes that no control character has, and the tab. -/
def isHeaderByte (b : UInt8) : Bool :=
  (32 ≤ b && b ≠ 127) || b == 9

theorem all_isHeaderByte {text : Str} (visible : Visible text) :
    (Utf8.bytes text).all isHeaderByte = true := by
  rw [List.all_eq_true]
  intro b mem
  have := bytes_visible visible b mem
  have low : 32 ≤ b := this.1
  have other : b ≠ 127 := by
    rintro rfl
    exact absurd this.2 (by decide)
  simp [isHeaderByte, low, other]

/-- What the crate does take: whatever has no control characters. -/
def HeaderParse.opaqueOctets : HeaderParse where
  fromStr text := if (Utf8.bytes text).all isHeaderByte then some (Utf8.bytes text) else none
  visible _ visible := if_pos (all_isHeaderByte visible)
  same h := (Option.some.inj (Option.ite_none_right_eq_some.1 h).2).symm

def grpcStatusName : Str :=
  "grpc-status".toList

def grpcMessageName : Str :=
  "grpc-message".toList

/-- A text of digits as a number. -/
def digits? (text : Str) : Option Nat :=
  if text ≠ [] ∧ text.all Char.isDigit = true then
    some (text.foldl (fun n c => 10 * n + (c.toNat - '0'.toNat)) 0)
  else none

/-- `parse::<i32>()` -/
def parseI32 (text : Str) : Option Int := do
  let value : Int ←
    match text with
    | '-' :: digits => (digits? digits).map fun n => -(n : Int)
    | '+' :: digits => (digits? digits).map Int.ofNat
    | digits => (digits? digits).map Int.ofNat
  if -(2 ^ 31) ≤ value ∧ value < 2 ^ 31 then some value else none

/-- What the client takes for the status of a response. -/
def readStatus (headers : HeaderMap) : Int :=
  ((headers.text? grpcStatusName).bind parseI32).getD 0

def readMessage (headers : HeaderMap) : Str :=
  ((headers.text? grpcMessageName).map decodeGrpcMessage).getD []

def GrpcStatus.toHeaders (status : GrpcStatus) : List (Str × Str) :=
  (grpcStatusName, status.code.text) ::
    if status.message.isEmpty then []
    else [(grpcMessageName, encodeGrpcMessage status.message)]

/-! ### A value on its way -/

theorem headerToStr_visible {text : Str} (visible : Visible text) :
    headerToStr (Utf8.bytes text) = some text := by
  have all : (Utf8.bytes text).all (fun b => (32 ≤ b && b < 127) || b == 9) = true := by
    rw [List.all_eq_true]
    intro b mem
    have := bytes_visible visible b mem
    have low : 32 ≤ b := this.1
    have high : b < 127 := this.2
    simp [low, high]
  rw [headerToStr, if_pos all]
  congr 1
  apply Utf8.bytes_injective
  apply Utf8.bytes_ofBytes
  intro b mem
  have := bytes_visible visible b mem
  omega

/-- A value that can be read is its text. -/
theorem bytes_of_headerToStr {value : List UInt8} {text : Str} (h : headerToStr value = some text) :
    Utf8.bytes text = value := by
  rw [headerToStr] at h
  obtain ⟨all, h⟩ := Option.ite_none_right_eq_some.1 h
  cases h
  apply Utf8.bytes_ofBytes
  intro b mem
  have := List.all_eq_true.1 all b mem
  simp only [Bool.or_eq_true, Bool.and_eq_true, decide_eq_true_eq, beq_iff_eq,
    UInt8.lt_iff_toNat_lt] at this
  obtain ⟨-, high⟩ | rfl := this
  · have high : b.toNat < 127 := high
    omega
  · decide

/-- And it has no line breaks. -/
theorem headerToStr_clean {value : List UInt8} {text : Str} (h : headerToStr value = some text) :
    ∀ b ∈ value, b ≠ 13 ∧ b ≠ 10 := by
  rw [headerToStr] at h
  obtain ⟨all, -⟩ := Option.ite_none_right_eq_some.1 h
  intro b mem
  have := List.all_eq_true.1 all b mem
  constructor
  · rintro rfl
    exact absurd this (by decide)
  · rintro rfl
    exact absurd this (by decide)

theorem parseI32_text (code : GrpcCode) : parseI32 code.text = some code.asI32 := by
  cases code <;> decide

theorem text_visible (code : GrpcCode) : Visible code.text := by
  have all : code.text.all (fun c => decide (32 ≤ c.toNat ∧ c.toNat < 127)) = true := by
    cases code <;> rfl
  intro c mem
  exact of_decide_eq_true (List.all_eq_true.1 all c mem)

end Typeway.Grpc
