import Mathlib.Data.List.Basic

/-!
# Binary session types over asynchronous channels

The protocol of one peer, its dual, and the messages that one peer has sent and the other has not
read yet. Two peers are in balance when the one behind, once it has read what is on its way to it,
stands where the one ahead has its dual. Recursion is anonymous: a variable stands for the loop
entered last, so that a point of a protocol is a type with the body of that loop.
-/

namespace Session

/-- Protocols over the message types `τ`. -/
inductive SessionType (τ : Type) where
  | send (T : τ) (next : SessionType τ)
  | recv (T : τ) (next : SessionType τ)
  | offer (left right : SessionType τ)
  | select (left right : SessionType τ)
  | done
  | loop (body : SessionType τ)
  | var
  deriving DecidableEq

variable {τ : Type} {V : τ → Type}

/-- The protocol from the other side. -/
def SessionType.dual : SessionType τ → SessionType τ
  | .send T next => .recv T next.dual
  | .recv T next => .send T next.dual
  | .offer left right => .select left.dual right.dual
  | .select left right => .offer left.dual right.dual
  | .done => .done
  | .loop body => .loop body.dual
  | .var => .var

@[simp] theorem SessionType.dual_dual (S : SessionType τ) : S.dual.dual = S := by
  induction S with
  | send T next ih => rw [dual, dual, ih]
  | recv T next ih => rw [dual, dual, ih]
  | offer left right ihl ihr => rw [dual, dual, ihl, ihr]
  | select left right ihl ihr => rw [dual, dual, ihl, ihr]
  | done => rfl
  | loop body ih => rw [dual, dual, ih]
  | var => rfl

/-- Every variable stands in a loop. -/
def SessionType.Closed (inLoop : Bool) : SessionType τ → Prop
  | .send _ next | .recv _ next => next.Closed inLoop
  | .offer left right | .select left right => left.Closed inLoop ∧ right.Closed inLoop
  | .done => True
  | .loop body => body.Closed true
  | .var => inLoop = true

inductive Branch where
  | left
  | right
  deriving DecidableEq

def Branch.pick {α : Type} (left right : α) : Branch → α
  | .left => left
  | .right => right

theorem Branch.pick_map {α β : Type} (f : α → β) (left right : α) (b : Branch) :
    b.pick (f left) (f right) = f (b.pick left right) := by
  cases b <;> rfl

/-- What is sent: a value of a message type, or a choice. -/
inductive Item (V : τ → Type) where
  | value (T : τ) (v : V T)
  | branch (b : Branch)

/-- A place in a protocol, with the body of the loop entered last. -/
structure Point (τ : Type) where
  type : SessionType τ
  enclosing : Option (SessionType τ)
  deriving DecidableEq

namespace Point

def dual (x : Point τ) : Point τ where
  type := x.type.dual
  enclosing := x.enclosing.map SessionType.dual

@[simp] theorem dual_dual (x : Point τ) : x.dual.dual = x := by
  obtain ⟨type, enclosing⟩ := x
  cases enclosing <;> simp [dual]

/-- Entering a loop, and going back to its beginning. -/
inductive Silent : Point τ → Point τ → Prop
  | enter (body : SessionType τ) (enclosing : Option (SessionType τ)) :
      Silent ⟨.loop body, enclosing⟩ ⟨body, some body⟩
  | recurse (body : SessionType τ) : Silent ⟨.var, some body⟩ ⟨.loop body, some body⟩

theorem Silent.dual {x x' : Point τ} (silent : x.Silent x') : x.dual.Silent x'.dual := by
  cases silent with
  | enter body enclosing => exact .enter body.dual _
  | recurse body => exact .recurse body.dual

theorem Silent.unique {x x' x'' : Point τ} (silent : x.Silent x') (other : x.Silent x'') :
    x' = x'' := by
  cases silent <;> cases other <;> rfl

/-- Nothing but messages lead on from a type that is no loop and no variable. -/
def Visible (x : Point τ) : Prop :=
  ∀ x', ¬ x.Silent x'

/-- Where a peer stands after the items, with any number of silent steps in between. -/
inductive Reads : Point τ → List (Item V) → Point τ → Prop
  | stop (x : Point τ) : Reads x [] x
  | silent {x x' y : Point τ} {items : List (Item V)} (step : x.Silent x')
      (rest : Reads x' items y) : Reads x items y
  | recv {T : τ} {next : SessionType τ} {enclosing : Option (SessionType τ)} {y : Point τ}
      {items : List (Item V)} (v : V T) (rest : Reads ⟨next, enclosing⟩ items y) :
      Reads ⟨.recv T next, enclosing⟩ (.value T v :: items) y
  | offer {left right : SessionType τ} {enclosing : Option (SessionType τ)} {y : Point τ}
      {items : List (Item V)} (b : Branch) (rest : Reads ⟨b.pick left right, enclosing⟩ items y) :
      Reads ⟨.offer left right, enclosing⟩ (.branch b :: items) y

theorem Reads.trans {x y z : Point τ} {items items' : List (Item V)} (reads : Reads x items y)
    (more : Reads y items' z) : Reads x (items ++ items') z := by
  induction reads with
  | stop => exact more
  | silent step rest ih => exact .silent step (ih more)
  | recv v rest ih => exact .recv v (ih more)
  | offer b rest ih => exact .offer b (ih more)

/-- What holds of a point, and is kept by every step, holds wherever a peer can stand. -/
theorem Reads.preserves {P : Point τ → Prop} {x y : Point τ} {items : List (Item V)}
    (silent : ∀ x x', P x → x.Silent x' → P x')
    (recv : ∀ T next enclosing, P ⟨.recv T next, enclosing⟩ → P ⟨next, enclosing⟩)
    (offer : ∀ left right enclosing (b : Branch), P ⟨.offer left right, enclosing⟩ →
      P ⟨b.pick left right, enclosing⟩)
    (reads : Reads x items y) (start : P x) : P y := by
  induction reads with
  | stop => exact start
  | silent step rest ih => exact ih (silent _ _ start step)
  | recv v rest ih => exact ih (recv _ _ _ start)
  | offer b rest ih => exact ih (offer _ _ _ b start)

/-- A peer that takes a silent step leaves what it will read as it is. -/
theorem Reads.of_silent {x x' y : Point τ} {items : List (Item V)} (reads : Reads x items y)
    (step : x.Silent x') : Reads x' items y ∨ items = [] ∧ y = x := by
  cases reads with
  | stop => exact .inr ⟨rfl, rfl⟩
  | silent other rest =>
    left
    rwa [step.unique other]
  | recv v rest => cases step
  | offer b rest => cases step

/-- A peer at a point without silent steps that does not read has read everything. -/
theorem Reads.sender {x y : Point τ} {items : List (Item V)} (reads : Reads x items y)
    (visible : x.Visible) (recv : ∀ T next, x.type ≠ .recv T next)
    (offer : ∀ left right, x.type ≠ .offer left right) : items = [] ∧ y = x := by
  cases reads with
  | stop => exact ⟨rfl, rfl⟩
  | silent step rest => exact absurd step (visible _)
  | recv v rest => exact absurd rfl (recv _ _)
  | offer b rest => exact absurd rfl (offer _ _)

/-- Only silent steps are taken. -/
abbrev Silents (V : τ → Type) (x z : Point τ) : Prop :=
  Reads (V := V) x [] z

/-- The first peer has sent the items, and the second stands at its dual once it has read them. -/
def Ahead (x y : Point τ) (items : List (Item V)) : Prop :=
  ∃ z, Silents V x z ∧ Reads y items z.dual

/-- Items are on their way in one direction at most, and reading them makes the peers dual. -/
def Balanced (x y : Point τ) (toRight toLeft : List (Item V)) : Prop :=
  (toLeft = [] ∧ Ahead x y toRight) ∨ (toRight = [] ∧ Ahead y x toLeft)

theorem Balanced.symm {x y : Point τ} {toRight toLeft : List (Item V)}
    (balanced : Balanced x y toRight toLeft) : Balanced y x toLeft toRight :=
  Or.symm balanced

theorem Balanced.start (x : Point τ) : Balanced x x.dual ([] : List (Item V)) [] :=
  .inl ⟨rfl, x, .stop x, .stop x.dual⟩

/-- Peers stay in balance when one of them takes a silent step. -/
theorem Balanced.silent {x x' y : Point τ} {toRight toLeft : List (Item V)}
    (balanced : Balanced x y toRight toLeft) (step : x.Silent x') :
    Balanced x' y toRight toLeft := by
  rcases balanced with ⟨empty, z, here, there⟩ | ⟨empty, z, there, here⟩
  · left
    rcases here.of_silent step with here | ⟨-, rfl⟩
    · exact ⟨empty, z, here, there⟩
    · refine ⟨empty, x', .stop x', ?_⟩
      have more := there.trans (.silent step.dual (.stop x'.dual))
      rwa [List.append_nil] at more
  · right
    rcases here.of_silent step with here | ⟨rfl, same⟩
    · exact ⟨empty, z, there, here⟩
    · have back : z = x.dual := by rw [← same, dual_dual]
      subst back
      refine ⟨empty, x'.dual, there.trans (.silent step.dual (.stop _)), ?_⟩
      rw [dual_dual]
      exact .stop x'

/-- A peer that is about to send is ahead, and nothing is on its way to it. -/
theorem Balanced.sending {x y : Point τ} {toRight toLeft : List (Item V)}
    (balanced : Balanced x y toRight toLeft) (visible : x.Visible)
    (recv : ∀ T next, x.type ≠ .recv T next) (offer : ∀ left right, x.type ≠ .offer left right) :
    toLeft = [] ∧ Reads y toRight x.dual := by
  rcases balanced with ⟨empty, z, here, there⟩ | ⟨empty, z, there, here⟩
  · obtain ⟨-, rfl⟩ := here.sender visible recv offer
    exact ⟨empty, there⟩
  · obtain ⟨rfl, same⟩ := here.sender visible recv offer
    have back : z = x.dual := by rw [← same, dual_dual]
    subst back empty
    exact ⟨rfl, there⟩

theorem Balanced.send {T : τ} {next : SessionType τ} {enclosing : Option (SessionType τ)}
    {y : Point τ} {toRight toLeft : List (Item V)}
    (balanced : Balanced ⟨.send T next, enclosing⟩ y toRight toLeft) (v : V T) :
    Balanced ⟨next, enclosing⟩ y (toRight ++ [.value T v]) toLeft := by
  obtain ⟨empty, reads⟩ := balanced.sending (by rintro x' ⟨⟩) (by simp) (by simp)
  exact .inl ⟨empty, ⟨next, enclosing⟩, .stop _, reads.trans (.recv v (.stop _))⟩

theorem Balanced.select {left right : SessionType τ} {enclosing : Option (SessionType τ)}
    {y : Point τ} {toRight toLeft : List (Item V)}
    (balanced : Balanced ⟨.select left right, enclosing⟩ y toRight toLeft) (b : Branch) :
    Balanced ⟨b.pick left right, enclosing⟩ y (toRight ++ [.branch b]) toLeft := by
  obtain ⟨empty, reads⟩ := balanced.sending (by rintro x' ⟨⟩) (by simp) (by simp)
  refine .inl ⟨empty, ⟨b.pick left right, enclosing⟩, .stop _, reads.trans (.offer b ?_)⟩
  rw [Branch.pick_map SessionType.dual]
  exact .stop _

/-- What is on its way to a peer that receives is a value of the type it waits for. -/
theorem Balanced.recv {T : τ} {next : SessionType τ} {enclosing : Option (SessionType τ)}
    {y : Point τ} {item : Item V} {toRight toLeft : List (Item V)}
    (balanced : Balanced ⟨.recv T next, enclosing⟩ y toRight (item :: toLeft)) :
    ∃ v, item = .value T v ∧ Balanced ⟨next, enclosing⟩ y toRight toLeft := by
  rcases balanced with ⟨empty, -⟩ | ⟨empty, z, there, here⟩
  · cases empty
  · cases here with
    | silent step rest => cases step
    | recv v rest => exact ⟨v, rfl, .inr ⟨empty, z, there, rest⟩⟩

/-- What is on its way to a peer that offers a choice is a choice. -/
theorem Balanced.offer {left right : SessionType τ} {enclosing : Option (SessionType τ)}
    {y : Point τ} {item : Item V} {toRight toLeft : List (Item V)}
    (balanced : Balanced ⟨.offer left right, enclosing⟩ y toRight (item :: toLeft)) :
    ∃ b, item = .branch b ∧ Balanced ⟨b.pick left right, enclosing⟩ y toRight toLeft := by
  rcases balanced with ⟨empty, -⟩ | ⟨empty, z, there, here⟩
  · cases empty
  · cases here with
    | silent step rest => cases step
    | offer b rest => exact ⟨b, rfl, .inr ⟨empty, z, there, rest⟩⟩

/-- Nothing is on its way to a peer that is done. -/
theorem Balanced.done {enclosing : Option (SessionType τ)} {y : Point τ}
    {toRight toLeft : List (Item V)} (balanced : Balanced ⟨.done, enclosing⟩ y toRight toLeft) :
    toLeft = [] :=
  (balanced.sending (by rintro x' ⟨⟩) (by simp) (by simp)).1

end Point

end Session
