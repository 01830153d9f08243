import Typeway.Base.Checked

/-!
# What stands at an offset

Readers that walk over a list of bytes are specified by what stands ahead of them, wherever that
is in the whole input.
-/

namespace Checked

variable {ε : Type}

/-- The input goes on with `l` at `offset`. -/
structure At (bytes : List UInt8) (offset : Nat) (l : List UInt8) : Prop where
  bound : offset + l.length ≤ bytes.length
  here : (bytes.drop offset).take l.length = l

namespace At

variable {bytes l l' : List UInt8} {offset : Nat}

theorem whole (bytes : List UInt8) : At bytes 0 bytes :=
  ⟨by simp, by simp⟩

theorem middle (l l' l'' : List UInt8) : At (l ++ l' ++ l'') l.length l' :=
  ⟨by simp only [List.length_append]; omega, by simp⟩

theorem drop (h : At bytes offset l) : ∃ rest, bytes.drop offset = l ++ rest :=
  ⟨(bytes.drop offset).drop l.length, by
    rw [← h.here, List.length_take, List.length_drop]
    have := h.bound
    rw [Nat.min_eq_left (by omega), List.take_append_drop]⟩

theorem left (h : At bytes offset (l ++ l')) : At bytes offset l := by
  have bound := h.bound
  rw [List.length_append] at bound
  refine ⟨by omega, ?_⟩
  have := congrArg (List.take l.length) h.here
  rwa [List.take_take, List.length_append, Nat.min_eq_left (by omega), List.take_left] at this

theorem right (h : At bytes offset (l ++ l')) : At bytes (offset + l.length) l' := by
  have bound := h.bound
  rw [List.length_append] at bound
  refine ⟨by omega, ?_⟩
  have := congrArg (List.drop l.length) h.here
  rwa [List.drop_take, List.length_append, Nat.add_sub_cancel_left, List.drop_drop,
    List.drop_left] at this

theorem append (h : At bytes offset l) (h' : At bytes (offset + l.length) l') :
    At bytes offset (l ++ l') := by
  have bound := h'.bound
  obtain ⟨rest, tail⟩ := h.drop
  have second := h'.here
  rw [← List.drop_drop, tail, List.drop_left] at second
  refine ⟨by rw [List.length_append]; omega, ?_⟩
  rw [tail, List.length_append, List.take_append, List.take_of_length_le (Nat.le_add_right _ _),
    Nat.add_sub_cancel_left, second]

/-- What is cut out of the input stands there. -/
theorem of_slice {lo hi : Nat} (order : lo ≤ hi) (fits : hi ≤ bytes.length) :
    At bytes lo ((bytes.drop lo).take (hi - lo)) := by
  have length : ((bytes.drop lo).take (hi - lo)).length = hi - lo := by
    rw [List.length_take, List.length_drop]
    omega
  exact ⟨by omega, by rw [length]⟩

theorem of_drop {rest : List UInt8} (low : offset ≤ bytes.length)
    (h : bytes.drop offset = l ++ rest) : At bytes offset l := by
  have length := congrArg List.length h
  rw [List.length_drop, List.length_append] at length
  exact ⟨by omega, by rw [h, List.take_left]⟩

/-- A loop goes on in front of something. -/
theorem goes_on (h : At bytes offset (l ++ l')) (pos : 0 < l.length) :
    decide (offset < bytes.length) = true := by
  have bound := h.left.bound
  simp only [decide_eq_true_eq]
  omega

theorem slice (h : At bytes offset l) :
    (Checked.slice bytes offset (offset + l.length) : Run ε _) = .ok l := by
  rw [slice_eq_ok (by omega) h.bound, Nat.add_sub_cancel_left, h.here]

end At

end Checked
