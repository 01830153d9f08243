import Typeway.Base.Observed
import Mathlib.Logic.Function.Basic

/-!
# Repeated fields that keep their buffer

A `RepeatedField` counts the elements that are there apart from those that its buffer holds, so that
clearing it drops none. From outside it is a vector: a program over fields and the same program over
vectors show the same things.
-/

namespace Typeway.Protobuf

/-- `RepeatedField<T>`. -/
structure RepeatedField (T : Type) where
  buf : List T
  len : Nat
  inside : len ≤ buf.length

/-- What a program does through `&mut [T]`: it sees the elements, and leaves as many. -/
structure SliceWrite (T ω : Type) where
  run : List T → List T × ω
  keeps : ∀ xs, (run xs).1.length = xs.length

/-- `PartialEq` of slices. -/
def sliceEq {T : Type} (eq : T → T → Bool) (xs ys : List T) : Bool :=
  xs.length == ys.length && (xs.zip ys).all fun p => eq p.1 p.2

namespace RepeatedField

variable {T ω : Type}

def new : RepeatedField T where
  buf := []
  len := 0
  inside := Nat.le_refl _

theorem reused_length {field : RepeatedField T} (room : field.len < field.buf.length) (val : T) :
    field.len + 1 ≤ (field.buf.set field.len val).length := by
  rw [List.length_set]
  exact room

theorem grown_length (field : RepeatedField T) (val : T) :
    field.len + 1 ≤ (field.buf ++ [val]).length := by
  rw [List.length_append]
  exact Nat.succ_le_succ field.inside

def push (field : RepeatedField T) (val : T) : RepeatedField T :=
  if room : field.len < field.buf.length then
    { buf := field.buf.set field.len val
      len := field.len + 1
      inside := reused_length room val }
  else
    { buf := field.buf ++ [val]
      len := field.len + 1
      inside := field.grown_length val }

/-- The elements stay in the buffer. -/
def clear (field : RepeatedField T) : RepeatedField T where
  buf := field.buf
  len := 0
  inside := Nat.zero_le _

def isEmpty (field : RepeatedField T) : Bool :=
  field.len == 0

/-- `self.buf.truncate(self.len)`. -/
def intoVec (field : RepeatedField T) : List T :=
  field.buf.take field.len

/-- `self.buf[..self.len].iter()`. -/
def iter (field : RepeatedField T) : List T :=
  field.buf.take field.len

/-- `&self.buf[..self.len]`. -/
def deref (field : RepeatedField T) : List T :=
  field.buf.take field.len

theorem deref_length (field : RepeatedField T) : field.deref.length = field.len := by
  rw [deref, List.length_take, Nat.min_eq_left field.inside]

theorem written_length (field : RepeatedField T) (write : SliceWrite T ω) :
    field.len ≤ ((write.run field.deref).1 ++ field.buf.drop field.len).length := by
  rw [List.length_append, write.keeps, deref_length]
  exact Nat.le_add_right _ _

/-- `&mut self.buf[..self.len]`, in the hands of a program. -/
def derefMut (field : RepeatedField T) (write : SliceWrite T ω) : RepeatedField T × ω :=
  ({ buf := (write.run field.deref).1 ++ field.buf.drop field.len
     len := field.len
     inside := field.written_length write },
   (write.run field.deref).2)

theorem cloned_length (field : RepeatedField T) (clone : T → T) :
    field.len ≤ (field.deref.map clone).length :=
  Nat.le_of_eq (by rw [List.length_map, deref_length])

/-- `Clone`, with the `clone` of the elements. -/
def clone (clone : T → T) (field : RepeatedField T) : RepeatedField T where
  buf := field.deref.map clone
  len := field.len
  inside := field.cloned_length clone

/-- `PartialEq`, with the `eq` of the elements. -/
def eq (eq : T → T → Bool) (field other : RepeatedField T) : Bool :=
  sliceEq eq field.deref other.deref

/-- `From<Vec<T>>`. -/
def fromVec (vec : List T) : RepeatedField T where
  buf := vec
  len := vec.length
  inside := Nat.le_refl _

theorem copied_length (clone : T → T) (slice : List T) :
    slice.length ≤ (slice.map clone).length :=
  Nat.le_of_eq (List.length_map clone).symm

/-- `From<&[T]>`. -/
def fromSlice (clone : T → T) (slice : List T) : RepeatedField T where
  buf := slice.map clone
  len := slice.length
  inside := copied_length clone slice

/-- `Serialize`: the length that is announced, and the elements. -/
def serialize (field : RepeatedField T) : Nat × List T :=
  (field.len, field.iter)

/-! ## What is there after each operation -/

@[simp] theorem deref_new : (new : RepeatedField T).deref = [] := rfl

@[simp] theorem deref_push (field : RepeatedField T) (val : T) :
    (field.push val).deref = field.deref ++ [val] := by
  have inside := field.inside
  unfold push
  split
  · rename_i room
    -- the slot behind the live elements is overwritten
    rw [deref, deref, List.take_add_one, List.take_set_of_le (Nat.le_refl _),
      List.getElem?_set_self room]
    rfl
  · rename_i full
    have all : field.len = field.buf.length := by omega
    have whole : field.deref = field.buf := List.take_of_length_le (by omega)
    rw [whole]
    apply List.take_of_length_le
    rw [List.length_append, List.length_singleton]
    show _ ≤ field.len + 1
    omega

@[simp] theorem deref_clear (field : RepeatedField T) : field.clear.deref = [] := List.take_zero

@[simp] theorem deref_derefMut (field : RepeatedField T) (write : SliceWrite T ω) :
    (field.derefMut write).1.deref = (write.run field.deref).1 := by
  have same : (write.run field.deref).1.length = field.len := by
    rw [write.keeps, deref_length]
  rw [derefMut, deref]
  exact List.take_left' same

@[simp] theorem deref_clone (cl : T → T) (field : RepeatedField T) :
    (field.clone cl).deref = field.deref.map cl := by
  apply List.take_of_length_le
  exact Nat.le_of_eq (by rw [clone, List.length_map, deref_length])

@[simp] theorem deref_fromVec (vec : List T) : (fromVec vec).deref = vec := List.take_length

@[simp] theorem deref_fromSlice (cl : T → T) (slice : List T) :
    (fromSlice cl slice).deref = slice.map cl := by
  apply List.take_of_length_le
  exact Nat.le_of_eq (List.length_map cl)

theorem isEmpty_eq (field : RepeatedField T) : field.isEmpty = field.deref.isEmpty := by
  rw [isEmpty, ← deref_length]
  cases field.deref with
  | nil => rfl
  | cons x xs => rfl

end RepeatedField

/-! ## Programs over fields and over vectors -/

/-- The operations of a list of `T`. -/
structure ListOps (F T ω : Type) where
  new : F
  fromVec : List T → F
  fromSlice : List T → F
  push : F → T → F
  clear : F → F
  clone : F → F
  derefMut : F → SliceWrite T ω → F × ω
  deref : F → List T
  iter : F → List T
  len : F → Nat
  isEmpty : F → Bool
  eq : F → F → Bool
  serialize : F → Nat × List T
  intoVec : F → List T

section

variable {T ω : Type} (clone : T → T) (eq : T → T → Bool)

def RepeatedField.ops : ListOps (RepeatedField T) T ω where
  new := RepeatedField.new
  fromVec := RepeatedField.fromVec
  fromSlice := RepeatedField.fromSlice clone
  push := RepeatedField.push
  clear := RepeatedField.clear
  clone := RepeatedField.clone clone
  derefMut := RepeatedField.derefMut
  deref := RepeatedField.deref
  iter := RepeatedField.iter
  len := RepeatedField.len
  isEmpty := RepeatedField.isEmpty
  eq := RepeatedField.eq eq
  serialize := RepeatedField.serialize
  intoVec := RepeatedField.intoVec

/-- A plain `Vec<T>`. -/
def vecOps : ListOps (List T) T ω where
  new := []
  fromVec vec := vec
  fromSlice slice := slice.map clone
  push vec val := vec ++ [val]
  clear _ := []
  clone vec := vec.map clone
  derefMut vec write := write.run vec
  deref vec := vec
  iter vec := vec
  len vec := vec.length
  isEmpty vec := vec.isEmpty
  eq := sliceEq eq
  serialize vec := (vec.length, vec)
  intoVec vec := vec

end

/-- A statement of a program over lists that stand in variables. -/
inductive Statement (Var T ω : Type) where
  | new (x : Var)
  | fromVec (x : Var) (vec : List T)
  | fromSlice (x : Var) (slice : List T)
  | push (x : Var) (val : T)
  | clear (x : Var)
  | clone (x y : Var)
  | mutate (x : Var) (write : SliceWrite T ω)
  | read (x : Var)
  | iterate (x : Var)
  | len (x : Var)
  | isEmpty (x : Var)
  | eq (x y : Var)
  | serialize (x : Var)
  | intoVec (x : Var)

/-- What a statement shows. -/
inductive Shown (T ω : Type) where
  | nothing
  | elements (xs : List T)
  | count (n : Nat)
  | flag (b : Bool)
  | announced (seq : Nat × List T)
  | returned (o : ω)
  deriving DecidableEq

namespace ListOps

variable {Var F G T ω : Type} [DecidableEq Var]

/-- A variable holds a list unless it was not set yet or was moved out of. -/
def step (ops : ListOps F T ω) (vars : Var → Option F) :
    Statement Var T ω → Option ((Var → Option F) × Shown T ω)
  | .new x => some (Function.update vars x (some ops.new), .nothing)
  | .fromVec x vec => some (Function.update vars x (some (ops.fromVec vec)), .nothing)
  | .fromSlice x slice => some (Function.update vars x (some (ops.fromSlice slice)), .nothing)
  | .push x val =>
    (vars x).map fun f => (Function.update vars x (some (ops.push f val)), .nothing)
  | .clear x => (vars x).map fun f => (Function.update vars x (some (ops.clear f)), .nothing)
  | .clone x y => (vars y).map fun f => (Function.update vars x (some (ops.clone f)), .nothing)
  | .mutate x write =>
    (vars x).map fun f =>
      (Function.update vars x (some (ops.derefMut f write).1), .returned (ops.derefMut f write).2)
  | .read x => (vars x).map fun f => (vars, .elements (ops.deref f))
  | .iterate x => (vars x).map fun f => (vars, .elements (ops.iter f))
  | .len x => (vars x).map fun f => (vars, .count (ops.len f))
  | .isEmpty x => (vars x).map fun f => (vars, .flag (ops.isEmpty f))
  | .eq x y => (vars x).bind fun f => (vars y).map fun g => (vars, .flag (ops.eq f g))
  | .serialize x => (vars x).map fun f => (vars, .announced (ops.serialize f))
  | .intoVec x => (vars x).map fun f => (Function.update vars x none, .elements (ops.intoVec f))

/-- A view under which the operations of one list are those of another. -/
structure SeenAs (ops : ListOps F T ω) (ops' : ListOps G T ω) (view : F → G) : Prop where
  new : view ops.new = ops'.new
  fromVec : ∀ vec, view (ops.fromVec vec) = ops'.fromVec vec
  fromSlice : ∀ slice, view (ops.fromSlice slice) = ops'.fromSlice slice
  push : ∀ f val, view (ops.push f val) = ops'.push (view f) val
  clear : ∀ f, view (ops.clear f) = ops'.clear (view f)
  clone : ∀ f, view (ops.clone f) = ops'.clone (view f)
  written : ∀ f write, view (ops.derefMut f write).1 = (ops'.derefMut (view f) write).1
  returned : ∀ f write, (ops.derefMut f write).2 = (ops'.derefMut (view f) write).2
  deref : ∀ f, ops.deref f = ops'.deref (view f)
  iter : ∀ f, ops.iter f = ops'.iter (view f)
  len : ∀ f, ops.len f = ops'.len (view f)
  isEmpty : ∀ f, ops.isEmpty f = ops'.isEmpty (view f)
  eq : ∀ f g, ops.eq f g = ops'.eq (view f) (view g)
  serialize : ∀ f, ops.serialize f = ops'.serialize (view f)
  intoVec : ∀ f, ops.intoVec f = ops'.intoVec (view f)

/-- The variables, each seen through a view. -/
def viewed (view : F → G) (vars : Var → Option F) (x : Var) : Option G :=
  (vars x).map view

theorem viewed_update (view : F → G) (vars : Var → Option F) (x : Var) (f : Option F) :
    viewed view (Function.update vars x f) = Function.update (viewed view vars) x (f.map view) := by
  funext y
  by_cases h : y = x
  · subst h
    rw [viewed, Function.update_self, Function.update_self]
  · rw [viewed, Function.update_of_ne h, Function.update_of_ne h, viewed]

/-- A statement does the same on both sides of a view. -/
theorem SeenAs.step {ops : ListOps F T ω} {ops' : ListOps G T ω} {view : F → G}
    (same : SeenAs ops ops' view) (vars : Var → Option F) (statement : Statement Var T ω) :
    (ops.step vars statement).map (Observed.through (viewed view)) =
      ops'.step (viewed view vars) statement := by
  cases statement with
  | new x => simp [ListOps.step, Observed.through, viewed_update, same.new]
  | fromVec x vec => simp [ListOps.step, Observed.through, viewed_update, same.fromVec]
  | fromSlice x slice => simp [ListOps.step, Observed.through, viewed_update, same.fromSlice]
  | push x val =>
    cases h : vars x <;> simp [ListOps.step, Observed.through, viewed_update, viewed, same.push, h]
  | clear x =>
    cases h : vars x <;> simp [ListOps.step, Observed.through, viewed_update, viewed, same.clear, h]
  | clone x y =>
    cases h : vars y <;> simp [ListOps.step, Observed.through, viewed_update, viewed, same.clone, h]
  | mutate x write =>
    cases h : vars x <;>
      simp [ListOps.step, Observed.through, viewed_update, viewed, same.written, same.returned, h]
  | read x => cases h : vars x <;> simp [ListOps.step, Observed.through, viewed, same.deref, h]
  | iterate x => cases h : vars x <;> simp [ListOps.step, Observed.through, viewed, same.iter, h]
  | len x => cases h : vars x <;> simp [ListOps.step, Observed.through, viewed, same.len, h]
  | isEmpty x => cases h : vars x <;> simp [ListOps.step, Observed.through, viewed, same.isEmpty, h]
  | eq x y =>
    cases h : vars x <;> cases h' : vars y <;>
      simp [ListOps.step, Observed.through, viewed, same.eq, h, h']
  | serialize x =>
    cases h : vars x <;> simp [ListOps.step, Observed.through, viewed, same.serialize, h]
  | intoVec x =>
    cases h : vars x <;>
      simp [ListOps.step, Observed.through, viewed_update, viewed, same.intoVec, h]

end ListOps

section

variable {Var T ω : Type} [DecidableEq Var] (clone : T → T) (eq : T → T → Bool)

/-- A repeated field is the vector of the elements that are there. -/
theorem RepeatedField.seenAs :
    ListOps.SeenAs (RepeatedField.ops clone eq : ListOps (RepeatedField T) T ω) (vecOps clone eq)
      RepeatedField.deref where
  new := deref_new
  fromVec := deref_fromVec
  fromSlice := deref_fromSlice clone
  push := deref_push
  clear := deref_clear
  clone := deref_clone clone
  written := deref_derefMut
  returned _ _ := rfl
  deref _ := rfl
  iter _ := rfl
  len f := (deref_length f).symm
  isEmpty := isEmpty_eq
  eq _ _ := rfl
  serialize f := Prod.ext (deref_length f).symm rfl
  intoVec _ := rfl

/-- A program over repeated fields, whatever their buffers hold behind the elements that are there,
shows what the program over vectors shows, and leaves the same elements. -/
theorem RepeatedField.run_as_vec (program : List (Statement Var T ω))
    (vars : Var → Option (RepeatedField T)) :
    (Observed.run (RepeatedField.ops clone eq).step vars program).map
        (Observed.through (ListOps.viewed RepeatedField.deref)) =
      Observed.run (vecOps clone eq).step (ListOps.viewed RepeatedField.deref vars) program :=
  Observed.run_through (fun vars statement =>
    (RepeatedField.seenAs clone eq).step vars statement) vars program

end

end Typeway.Protobuf
