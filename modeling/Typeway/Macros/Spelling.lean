import Typeway.Core.Path
import Typeway.Macros.Schema

/-!
# How the derive macro sorts types

`classify_type` sees a field's type as it is spelled. An `Option` or a `Vec` is known by its name,
a scalar by its whole text, and any other type is taken for a message. What it finds is the kind of
the `RustTy` that the spelling stands for.
-/

namespace Typeway.Macros

open Typeway.Core

/-- A `syn::Type` as the code generator prints them: `()`, a name, or a name with one argument. -/
inductive SynType where
  | unit
  | path (ident : Str)
  | generic (ident : Str) (arg : SynType)
  deriving DecidableEq

namespace SynType

/-- `quote!(#ty).to_string().replace(' ', "")`. -/
def text : SynType → Str
  | unit => "()".toList
  | path ident => ident
  | generic ident arg => ident ++ '<' :: (arg.text ++ ['>'])

/-- `is_vec_u8`. -/
def isVecU8 : SynType → Bool
  | generic ident arg => ident = "Vec".toList && arg = path "u8".toList
  | _ => false

end SynType

/-- The arms of `classify_scalar` for scalars. -/
def scalarKinds : List (Str × RustTy Str) :=
  [("u32".toList, .int .u32), ("u64".toList, .int .u64), ("i32".toList, .int .i32),
    ("i64".toList, .int .i64), ("bool".toList, .bool), ("f32".toList, .f32), ("f64".toList, .f64),
    ("String".toList, .string), ("BytesStr".toList, .bytesStr),
    ("typeway_protobuf::BytesStr".toList, .bytesStr)]

/-- What a scalar's text stands for. A type that is no scalar is named by its text. -/
def SynType.scalar (ty : SynType) : RustTy Str :=
  (scalarKinds.lookup ty.text).getD (.struct ty.text)

/-- The type that a spelling stands for. -/
def SynType.rustTy : SynType → RustTy Str
  | .generic ident arg =>
    if ident = "Option".toList then .option arg.rustTy
    else if (SynType.generic ident arg).isVecU8 then .vecU8
    else if ident = "Vec".toList then .vec arg.rustTy
    else (SynType.generic ident arg).scalar
  | ty => ty.scalar

namespace SynType

/-- The names are made of other characters than the brackets. -/
def Plain : SynType → Prop
  | unit => True
  | path ident => ∀ c ∈ ident, c ≠ '<' ∧ c ≠ '('
  | generic ident arg => (∀ c ∈ ident, c ≠ '<' ∧ c ≠ '(') ∧ arg.Plain

end SynType

end Typeway.Macros
