import Typeway.Grpc.ProtoParse

/-!
# The parser of `.proto` files ends

Every loop of the parser takes a line at each turn, so the bounds on the turns are never met.
-/

namespace Typeway.Grpc

open Checked Typeway.Core

/-- `Returns` as a fact of its own, so that nothing tries to compute the parser. -/
structure Finishes {α : Type} (x : Run Str α) (post : α → Prop) : Prop where
  returns : Returns x post

namespace Finishes

variable {α β : Type} {x y : Run Str α} {post : α → Prop}

theorem ok {a : α} (h : post a) : Finishes (.ok a) post := ⟨h⟩

theorem fail (message : Str) : Finishes (Checked.fail message) post := ⟨trivial⟩

theorem bind {f : α → Run Str β} {post' : β → Prop} (h : Finishes x post)
    (k : ∀ a, post a → Finishes (f a) post') : Finishes (x >>= f) post' :=
  ⟨h.returns.bind fun a ha => (k a ha).returns⟩

theorem mono {post' : α → Prop} (h : Finishes x post) (k : ∀ a, post a → post' a) :
    Finishes x post' :=
  ⟨h.returns.mono k⟩

theorem ite {c : Prop} {dec : Decidable c} (yes : Finishes x post) (no : Finishes y post) :
    Finishes (if c then x else y) post := by
  split
  · exact yes
  · exact no

theorem any {post : α → Prop} (h : Finishes x post) : Finishes x fun _ => True :=
  h.mono fun _ _ => trivial

end Finishes

theorem nonempty_finishes (message text : Str) :
    Finishes (if text.isEmpty then fail message else .ok text) fun _ => True :=
  .ite (.fail _) (.ok trivial)

theorem cutAt_finishes (c : Char) (text message line : Str) :
    Finishes (cutAt c text message line) fun _ => True := by
  unfold cutAt
  split
  · exact .ok trivial
  · exact .fail _

theorem extractBlockName_finishes (header keyword : Str) :
    Finishes (extractBlockName header keyword) fun _ => True := by
  unfold extractBlockName
  exact nonempty_finishes _ _

theorem parseRpc_finishes (line : Str) : Finishes (parseRpc line) fun _ => True := by
  unfold parseRpc
  refine .bind (cutAt_finishes _ _ _ _) ?_
  rintro ⟨name, afterOpen⟩ -
  refine .bind (cutAt_finishes _ _ _ _) ?_
  rintro ⟨inputType, afterInput⟩ -
  dsimp only
  generalize Text.after _ afterInput = found
  cases found with
  | none =>
    have fails (message : Str) : Finishes (fail message) (fun _ : Str => False) := .fail message
    exact .bind (fails _) fun _ => False.elim
  | some text =>
    have found : Finishes (.ok text) (fun _ : Str => True) := .ok trivial
    refine .bind found fun afterReturns _ => ?_
    refine .bind (cutAt_finishes _ _ _ _) fun opened _ => ?_
    exact .bind (cutAt_finishes _ _ _ _) fun _ _ => .ok trivial

theorem enumLoop_finishes (name : Str) (lines : List Str) :
    ∀ variants, Finishes (enumLoop name variants lines) fun r => r.2.length ≤ lines.length := by
  induction lines with
  | nil => exact fun _ => .fail _
  | cons line rest ih =>
    intro variants
    have later (more : List ParsedEnumVariant) : Finishes (enumLoop name more rest) fun r =>
        r.2.length ≤ (line :: rest).length :=
      (ih more).mono fun r fewer => Nat.le_succ_of_le fewer
    unfold enumLoop
    exact .ite (.ok (Nat.le_succ _)) (.ite (later _) (later _))

theorem serviceLoop_finishes (name : Str) (lines : List Str) : ∀ methods pendingComment,
    Finishes (serviceLoop name methods pendingComment lines) fun r => r.2.length ≤ lines.length := by
  induction lines with
  | nil => exact fun _ _ => .fail _
  | cons line rest ih =>
    intro methods pendingComment
    have later (methods : List ProtoRpcMethod) (pendingComment : Option Str) :
        Finishes (serviceLoop name methods pendingComment rest) fun r =>
          r.2.length ≤ (line :: rest).length :=
      (ih methods pendingComment).mono fun r fewer => Nat.le_succ_of_le fewer
    unfold serviceLoop
    refine .ite (.ok (Nat.le_succ _)) (.ite (later _ _) (.ite ?_ (.ite (later _ _) (later _ _))))
    exact .bind (parseRpc_finishes _) fun method _ => later _ _

/-- Each turn takes a line, so that as many turns as lines are enough, those of nested blocks
included. -/
theorem messageLoop_finishes (turns : Nat) : ∀ fullName rawName fields nested (lines : List Str),
    lines.length ≤ turns →
      Finishes (messageLoop turns fullName rawName fields nested lines) fun r =>
        r.2.length ≤ lines.length := by
  induction turns with
  | zero =>
    intro fullName rawName fields nested lines few
    obtain rfl := List.length_eq_zero_iff.1 (Nat.le_zero.1 few)
    exact .fail _
  | succ turns ih =>
    intro fullName rawName fields nested lines few
    cases lines with
    | nil => exact .fail _
    | cons line rest =>
      have few := Nat.le_of_succ_le_succ few
      have later (fields : List ParsedField) (nested : List ParsedMessage) {next : List Str}
          (fewer : next.length ≤ rest.length) :
          Finishes (messageLoop turns fullName rawName fields nested next) fun r =>
            r.2.length ≤ (line :: rest).length :=
        (ih fullName rawName fields nested next (Nat.le_trans fewer few)).mono fun r less =>
          Nat.le_succ_of_le (Nat.le_trans less fewer)
      unfold messageLoop
      refine .ite (.ok (Nat.le_succ _)) (.ite ?_ (.ite ?_ ?_))
      · refine .bind (extractBlockName_finishes _ _) fun innerName _ => ?_
        exact .bind (ih _ _ _ _ _ few) fun inner fewer => later _ _ fewer
      · exact later _ _ (Nat.le_refl _)
      · exact later _ _ (Nat.le_refl _)

theorem parseSyntax_finishes (line : Str) : Finishes (parseSyntax line) fun _ => True := by
  unfold parseSyntax
  dsimp only
  generalize Text.trimMatches _ _ = rest
  exact nonempty_finishes _ rest

theorem parsePackage_finishes (line : Str) : Finishes (parsePackage line) fun _ => True := by
  unfold parsePackage
  exact nonempty_finishes _ _

theorem parseImport_finishes (line : Str) : Finishes (parseImport line) fun _ => True := by
  unfold parseImport
  dsimp only
  generalize Text.trimMatches _ _ = rest
  exact nonempty_finishes _ rest

theorem fileLoop_finishes (turns : Nat) : ∀ file (lines : List Str), lines.length ≤ turns →
    Finishes (fileLoop turns file lines) fun _ => True := by
  induction turns with
  | zero =>
    intro file lines few
    obtain rfl := List.length_eq_zero_iff.1 (Nat.le_zero.1 few)
    exact .ok trivial
  | succ turns ih =>
    intro file lines few
    cases lines with
    | nil => exact .ok trivial
    | cons line rest =>
      have few := Nat.le_of_succ_le_succ few
      have later (file : ProtoFile) {next : List Str} (fewer : next.length ≤ rest.length) :
          Finishes (fileLoop turns file next) fun _ => True :=
        ih file next (Nat.le_trans fewer few)
      have here (file : ProtoFile) := later file (Nat.le_refl rest.length)
      unfold fileLoop
      dsimp only
      generalize Text.trim line = trimmed
      refine .ite (here file) (.ite ?_ (.ite ?_ (.ite ?_ (.ite ?_ (.ite ?_ (.ite ?_ (here file)))))))
      · exact .bind (parseSyntax_finishes trimmed) fun _ _ => here _
      · exact .bind (parsePackage_finishes trimmed) fun _ _ => here _
      · exact .bind (parseImport_finishes trimmed) fun _ _ => here _
      · refine .bind (.bind (extractBlockName_finishes _ _) fun name _ =>
          serviceLoop_finishes name rest [] none) fun svc fewer => later _ fewer
      · refine .bind (.bind (extractBlockName_finishes _ _) fun name _ =>
          messageLoop_finishes rest.length name name [] [] rest (Nat.le_refl _)) fun msgs fewer =>
            later _ fewer
      · refine .bind (.bind (extractBlockName_finishes _ _) fun name _ =>
          enumLoop_finishes name rest []) fun parsed fewer => later _ fewer

theorem parseProto_finishes (source : Str) : Finishes (parseProto source) fun _ => True :=
  fileLoop_finishes _ _ _ (Nat.le_refl _)

end Typeway.Grpc
