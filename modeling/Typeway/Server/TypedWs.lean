import Typeway.Base.Session
import Typeway.Base.Substring
import Typeway.Core.Path

/-!
# Typed WebSocket channels

`typed_ws.rs`: a channel whose type is the protocol that is left, over a stream of text frames. A
value is sent as JSON text, and a choice as an object that `offer` looks for in the text. `recurse`
does not know the loop it goes back to: the caller names a body, and any will do.
-/

namespace Typeway.Server

open Typeway.Core Session

variable {τ : Type} {V : τ → Type}

/-- `serde_json` for the message types: what is written is read back. -/
structure Serde (V : τ → Type) where
  toText : (T : τ) → V T → Option Str
  fromText : (T : τ) → Str → Option (V T)
  reads : ∀ T v text, toText T v = some text → fromText T text = some v

/-- `tungstenite::Message`. Pings, pongs and binary frames are alike to a typed channel. -/
inductive Frame where
  | text (text : Str)
  | other
  | close

inductive WebSocketError where
  | serialize
  | deserialize
  | closed
  deriving DecidableEq

/-- How a channel comes out of use. -/
inductive Ending where
  | closed
  | dropped
  | failed (error : WebSocketError)
  deriving DecidableEq

/-- A channel at the type of its point, with what has been sent and received over it. -/
structure TypedWebSocket (V : τ → Type) where
  point : Point τ
  sent : List (Item V)
  received : List (Item V)
  ending : Option Ending

def TypedWebSocket.new (S : SessionType τ) : TypedWebSocket V where
  point := ⟨S, none⟩
  sent := []
  received := []
  ending := none

/-- Two peers and the frames on their way. -/
structure Connection (V : τ → Type) where
  left : TypedWebSocket V
  right : TypedWebSocket V
  toRight : List Frame
  toLeft : List Frame

def Connection.swap (c : Connection V) : Connection V where
  left := c.right
  right := c.left
  toRight := c.toLeft
  toLeft := c.toRight

/-- The peers start at a protocol and its dual. -/
def Connection.start (S : SessionType τ) : Connection V where
  left := .new S
  right := .new S.dual
  toRight := []
  toLeft := []

def selectText : Branch → Str
  | .left => "\x7b\"branch\":\"L\"\x7d".toList
  | .right => "\x7b\"branch\":\"R\"\x7d".toList

/-- The branch that `offer` takes for a text. -/
def offeredBranch (text : Str) : Branch :=
  if Substring.contains "\"branch\":\"L\"".toList text ||
      Substring.contains "\"branch\":\"left\"".toList text then .left
  else .right

/-- The types that wait for a frame. -/
def Waits (S : SessionType τ) : Prop :=
  (∃ T next, S = .recv T next) ∨ ∃ left right, S = .offer left right

/-- An operation of the left peer, or a frame of the transport on the way to the right one.
`allowed` says which bodies may be named in `recurse`. -/
inductive Acts (serde : Serde V) (allowed : Point τ → SessionType τ → Prop) :
    Connection V → Connection V → Prop
  | send {c : Connection V} {T : τ} {next : SessionType τ} {e : Option (SessionType τ)} (v : V T)
      {text : Str} (running : c.left.ending = none) (type : c.left.point = ⟨.send T next, e⟩)
      (json : serde.toText T v = some text) :
      Acts serde allowed c
        { c with
          left := { c.left with point := ⟨next, e⟩, sent := c.left.sent ++ [.value T v] }
          toRight := c.toRight ++ [.text text] }
  | serializeFails {c : Connection V} {T : τ} {next : SessionType τ} {e : Option (SessionType τ)}
      (v : V T) (running : c.left.ending = none) (type : c.left.point = ⟨.send T next, e⟩)
      (fails : serde.toText T v = none) :
      Acts serde allowed c { c with left := { c.left with ending := some (.failed .serialize) } }
  | skip {c : Connection V} {frames : List Frame} (running : c.left.ending = none)
      (waits : Waits c.left.point.type) (arrived : c.toLeft = .other :: frames) :
      Acts serde allowed c { c with toLeft := frames }
  | recv {c : Connection V} {T : τ} {next : SessionType τ} {e : Option (SessionType τ)} {text : Str}
      {frames : List Frame} {v : V T} (running : c.left.ending = none)
      (type : c.left.point = ⟨.recv T next, e⟩) (arrived : c.toLeft = .text text :: frames)
      (json : serde.fromText T text = some v) :
      Acts serde allowed c
        { c with
          left := { c.left with point := ⟨next, e⟩, received := c.left.received ++ [.value T v] }
          toLeft := frames }
  | deserializeFails {c : Connection V} {T : τ} {next : SessionType τ}
      {e : Option (SessionType τ)} {text : Str} {frames : List Frame}
      (running : c.left.ending = none) (type : c.left.point = ⟨.recv T next, e⟩)
      (arrived : c.toLeft = .text text :: frames) (fails : serde.fromText T text = none) :
      Acts serde allowed c
        { c with
          left := { c.left with ending := some (.failed .deserialize) }
          toLeft := frames }
  | offer {c : Connection V} {left right : SessionType τ} {e : Option (SessionType τ)} {text : Str}
      {frames : List Frame} (running : c.left.ending = none)
      (type : c.left.point = ⟨.offer left right, e⟩) (arrived : c.toLeft = .text text :: frames) :
      Acts serde allowed c
        { c with
          left :=
            { c.left with
              point := ⟨(offeredBranch text).pick left right, e⟩
              received := c.left.received ++ [.branch (offeredBranch text)] }
          toLeft := frames }
  | peerClosed {c : Connection V} {frames : List Frame} (running : c.left.ending = none)
      (waits : Waits c.left.point.type) (arrived : c.toLeft = .close :: frames) :
      Acts serde allowed c
        { c with
          left := { c.left with ending := some (.failed .closed) }
          toLeft := frames }
  | peerGone {c : Connection V} (running : c.left.ending = none)
      (waits : Waits c.left.point.type) (arrived : c.toLeft = []) (gone : c.right.ending ≠ none) :
      Acts serde allowed c { c with left := { c.left with ending := some (.failed .closed) } }
  | select {c : Connection V} {left right : SessionType τ} {e : Option (SessionType τ)} (b : Branch)
      (running : c.left.ending = none) (type : c.left.point = ⟨.select left right, e⟩) :
      Acts serde allowed c
        { c with
          left :=
            { c.left with point := ⟨b.pick left right, e⟩, sent := c.left.sent ++ [.branch b] }
          toRight := c.toRight ++ [.text (selectText b)] }
  | enter {c : Connection V} {body : SessionType τ} {e : Option (SessionType τ)}
      (running : c.left.ending = none) (type : c.left.point = ⟨.loop body, e⟩) :
      Acts serde allowed c { c with left := { c.left with point := ⟨body, some body⟩ } }
  | recurse {c : Connection V} {e : Option (SessionType τ)} (body : SessionType τ)
      (running : c.left.ending = none) (type : c.left.point = ⟨.var, e⟩)
      (named : allowed c.left.point body) :
      Acts serde allowed c { c with left := { c.left with point := ⟨.loop body, e⟩ } }
  | close {c : Connection V} {e : Option (SessionType τ)} (running : c.left.ending = none)
      (type : c.left.point = ⟨.done, e⟩) :
      Acts serde allowed c
        { c with
          left := { c.left with ending := some .closed }
          toRight := c.toRight ++ [.close] }
  | drop {c : Connection V} (running : c.left.ending = none) :
      Acts serde allowed c { c with left := { c.left with ending := some .dropped } }
  | ping {c : Connection V} : Acts serde allowed c { c with toRight := c.toRight ++ [.other] }

/-- Either peer takes a step. -/
inductive Step (serde : Serde V) (allowed : Point τ → SessionType τ → Prop) :
    Connection V → Connection V → Prop
  | left {c c' : Connection V} (acts : Acts serde allowed c c') : Step serde allowed c c'
  | right {c c' : Connection V} (acts : Acts serde allowed c.swap c'.swap) :
      Step serde allowed c c'

/-- The connections that two peers can reach from a protocol and its dual. -/
inductive Reachable (serde : Serde V) (allowed : Point τ → SessionType τ → Prop)
    (S : SessionType τ) : Connection V → Prop
  | start : Reachable serde allowed S (.start S)
  | step {c c' : Connection V} (reached : Reachable serde allowed S c)
      (step : Step serde allowed c c') : Reachable serde allowed S c'

/-- Any body may be named, as `recurse` has it. -/
def anyBody (_ : Point τ) (_ : SessionType τ) : Prop :=
  True

/-- The body of the enclosing `Rec` is named. -/
def enclosingBody (x : Point τ) (body : SessionType τ) : Prop :=
  x.enclosing = some body

/-- The frames carry the items, in order. -/
inductive Carries (serde : Serde V) : List Frame → List (Item V) → Prop
  | nil : Carries serde [] []
  | other {frames : List Frame} {items : List (Item V)} (rest : Carries serde frames items) :
      Carries serde (.other :: frames) items
  | close {frames : List Frame} {items : List (Item V)} (rest : Carries serde frames items) :
      Carries serde (.close :: frames) items
  | value {T : τ} {v : V T} {text : Str} {frames : List Frame} {items : List (Item V)}
      (json : serde.toText T v = some text) (rest : Carries serde frames items) :
      Carries serde (.text text :: frames) (.value T v :: items)
  | branch {frames : List Frame} {items : List (Item V)} (b : Branch)
      (rest : Carries serde frames items) :
      Carries serde (.text (selectText b) :: frames) (.branch b :: items)

/-- One direction of a connection: what has been received and what is on its way is what has been
sent, as values of the same types and the same choices. -/
structure Delivers (serde : Serde V) (sender receiver : TypedWebSocket V) (frames : List Frame)
    (items : List (Item V)) : Prop where
  carries : Carries serde frames items
  order : receiver.received ++ items = sender.sent
  /-- No text was refused as a value of the type waited for. -/
  fits : receiver.ending ≠ some (.failed .deserialize)

/-- The types and the messages in flight are dual, and what is received is what was sent. -/
def Connection.Faithful (serde : Serde V) (c : Connection V) : Prop :=
  ∃ toRight toLeft, Point.Balanced c.left.point c.right.point toRight toLeft ∧
    Delivers serde c.left c.right c.toRight toRight ∧ Delivers serde c.right c.left c.toLeft toLeft

theorem offeredBranch_selectText (b : Branch) : offeredBranch (selectText b) = b := by
  cases b <;> decide

theorem Carries.append {serde : Serde V} {frames frames' : List Frame} {items items' : List (Item V)}
    (carries : Carries serde frames items) (more : Carries serde frames' items') :
    Carries serde (frames ++ frames') (items ++ items') := by
  induction carries with
  | nil => exact more
  | other rest ih => exact .other ih
  | close rest ih => exact .close ih
  | value json rest ih => exact .value json ih
  | branch b rest ih => exact .branch b ih

/-- A text carries one item, which is the value or the choice it was written for. -/
theorem Carries.text {serde : Serde V} {text : Str} {frames : List Frame} {items : List (Item V)}
    (carries : Carries serde (.text text :: frames) items) :
    ∃ item rest, items = item :: rest ∧ Carries serde frames rest ∧
      (∀ T v, item = .value T v → serde.toText T v = some text) ∧
      ∀ b, item = .branch b → text = selectText b := by
  cases carries with
  | @value T v _ _ items json rest =>
    refine ⟨.value T v, items, rfl, rest, ?_, fun b same => nomatch same⟩
    intro T' v' same
    cases same
    exact json
  | @branch _ items b rest =>
    refine ⟨.branch b, items, rfl, rest, (fun T v same => nomatch same), ?_⟩
    intro b' same
    cases same
    rfl

theorem Carries.tail {serde : Serde V} {frame : Frame} {frames : List Frame}
    {items : List (Item V)} (carries : Carries serde (frame :: frames) items)
    (noText : ∀ text, frame ≠ .text text) : Carries serde frames items := by
  cases carries with
  | other rest => exact rest
  | close rest => exact rest
  | value json rest => exact absurd rfl (noText _)
  | branch b rest => exact absurd rfl (noText _)

namespace Delivers

variable {serde : Serde V} {sender receiver : TypedWebSocket V} {frames : List Frame}
  {items : List (Item V)}

/-- What is sent comes after what is on its way. -/
theorem sent (delivers : Delivers serde sender receiver frames items) {text : Str} {item : Item V}
    (carries : Carries serde [.text text] [item]) (point : Point τ) :
    Delivers serde { sender with point, sent := sender.sent ++ [item] } receiver
      (frames ++ [.text text]) (items ++ [item]) where
  carries := delivers.carries.append carries
  order := by rw [← List.append_assoc, delivers.order]
  fits := delivers.fits

theorem received {item : Item V} {text : Str}
    (delivers : Delivers serde sender receiver (.text text :: frames) (item :: items))
    (rest : Carries serde frames items) (point : Point τ) :
    Delivers serde sender { receiver with point, received := receiver.received ++ [item] }
      frames items where
  carries := rest
  order := by
    rw [List.append_assoc]
    exact delivers.order
  fits := delivers.fits

end Delivers

/-- A step of the left peer that names the enclosing body keeps a connection faithful. -/
theorem Acts.keeps {serde : Serde V} {c c' : Connection V}
    (acts : Acts serde enclosingBody c c') (faithful : Connection.Faithful serde c) :
    Connection.Faithful serde c' := by
  obtain ⟨toRight, toLeft, balanced, right, left⟩ := faithful
  cases acts with
  | send v running type json =>
    rw [type] at balanced
    exact ⟨_, _, balanced.send v, right.sent (.value json .nil) _, { left with }⟩
  | select b running type =>
    rw [type] at balanced
    exact ⟨_, _, balanced.select b, right.sent (.branch b .nil) _, { left with }⟩
  | enter running type =>
    rw [type] at balanced
    exact ⟨_, _, balanced.silent (.enter _ _), { right with }, { left with }⟩
  | @recurse e body running type named =>
    have here : c.left.point = ⟨.var, some body⟩ := by
      rw [enclosingBody, type] at named
      rw [type, ← named]
    obtain rfl : e = some body := congrArg Point.enclosing (type.symm.trans here)
    rw [here] at balanced
    exact ⟨_, _, balanced.silent (.recurse body), { right with }, { left with }⟩
  | serializeFails v running type fails =>
    exact ⟨_, _, balanced, { right with }, ⟨left.carries, left.order, by simp⟩⟩
  | skip running waits arrived =>
    have carries := left.carries
    rw [arrived] at carries
    exact ⟨_, _, balanced, right, ⟨carries.tail (by simp), left.order, left.fits⟩⟩
  | recv running type arrived json =>
    rw [arrived] at left
    obtain ⟨item, items, rfl, rest, value, -⟩ := left.carries.text
    rw [type] at balanced
    obtain ⟨v', rfl, after⟩ := balanced.recv
    -- What is decoded is what was encoded.
    obtain rfl := Option.some.inj (json.symm.trans (serde.reads _ _ _ (value _ _ rfl)))
    exact ⟨_, _, after, { right with }, left.received rest _⟩
  | deserializeFails running type arrived fails =>
    rw [arrived] at left
    obtain ⟨item, items, rfl, rest, value, -⟩ := left.carries.text
    rw [type] at balanced
    obtain ⟨v', rfl, -⟩ := balanced.recv
    have json := serde.reads _ _ _ (value _ _ rfl)
    rw [fails] at json
    cases json
  | offer running type arrived =>
    rw [arrived] at left
    obtain ⟨item, items, rfl, rest, -, branch⟩ := left.carries.text
    rw [type] at balanced
    obtain ⟨b, rfl, after⟩ := balanced.offer
    obtain rfl := branch b rfl
    rw [offeredBranch_selectText]
    exact ⟨_, _, after, { right with }, left.received rest _⟩
  | peerClosed running waits arrived =>
    have carries := left.carries
    rw [arrived] at carries
    exact ⟨_, _, balanced, { right with }, ⟨carries.tail (by simp), left.order, by simp⟩⟩
  | peerGone running waits arrived gone =>
    exact ⟨_, _, balanced, { right with }, ⟨left.carries, left.order, by simp⟩⟩
  | close running type =>
    have carries := right.carries.append (.close .nil)
    rw [List.append_nil] at carries
    exact ⟨_, _, balanced, ⟨carries, right.order, right.fits⟩, ⟨left.carries, left.order, by simp⟩⟩
  | drop running => exact ⟨_, _, balanced, { right with }, ⟨left.carries, left.order, by simp⟩⟩
  | ping =>
    have carries := right.carries.append (.other .nil)
    rw [List.append_nil] at carries
    exact ⟨_, _, balanced, ⟨carries, right.order, right.fits⟩, left⟩

theorem Connection.Faithful.swap {serde : Serde V} {c : Connection V}
    (faithful : Connection.Faithful serde c) :
    Connection.Faithful serde c.swap := by
  obtain ⟨toRight, toLeft, balanced, right, left⟩ := faithful
  exact ⟨toLeft, toRight, balanced.symm, left, right⟩

theorem Step.keeps {serde : Serde V} {c c' : Connection V}
    (step : Step serde enclosingBody c c') (faithful : Connection.Faithful serde c) :
    Connection.Faithful serde c' := by
  cases step with
  | left acts => exact acts.keeps faithful
  | right acts => exact (acts.keeps faithful.swap).swap

theorem Connection.start_faithful (serde : Serde V) (S : SessionType τ) :
    Connection.Faithful serde (.start S) :=
  ⟨[], [], Point.Balanced.start ⟨S, none⟩, ⟨.nil, rfl, by simp [start, TypedWebSocket.new]⟩,
    ⟨.nil, rfl, by simp [start, TypedWebSocket.new]⟩⟩

/-- **Two peers of dual protocols that go back to their enclosing loops only** stay dual, up to
the messages in flight, and receive what was sent to them, at the type it was sent. -/
theorem Reachable.faithful (serde : Serde V) (S : SessionType τ) (c : Connection V)
    (reached : Reachable serde enclosingBody S c) : Connection.Faithful serde c := by
  induction reached with
  | start => exact Connection.start_faithful serde S
  | step reached step ih => exact step.keeps ih

/-- `Rec<Send<(), Var>>` -/
def ticks : SessionType Unit :=
  .loop (.send () .var)

def nullSerde : Serde fun _ : Unit => Unit where
  toText _ _ := some "null".toList
  fromText _ _ := some ()
  reads _ _ _ _ := rfl

/-- One value has been sent, and the sender has gone on with the given protocol. -/
def ticked (point : Point Unit) : Connection fun _ : Unit => Unit where
  left := { point, sent := [.value () ()], received := [], ending := none }
  right := .new ticks.dual
  toRight := [.text "null".toList]
  toLeft := []

theorem ticked_reachable (allowed : Point Unit → SessionType Unit → Prop) :
    Reachable nullSerde allowed ticks (ticked ⟨.var, some (.send () .var)⟩) := by
  have entered : Reachable nullSerde allowed ticks
      { left := { TypedWebSocket.new ticks with point := ⟨.send () .var, some (.send () .var)⟩ }
        right := .new ticks.dual
        toRight := []
        toLeft := [] } := .step .start (.left (.enter rfl rfl))
  exact .step entered (.left (@Acts.send Unit _ nullSerde allowed _ () .var _ () _ rfl rfl rfl))

/-- Back at the loop, with the first value still on its way. -/
theorem ticked_faithful : Connection.Faithful nullSerde (ticked ⟨ticks, some (.send () .var)⟩) :=
  Reachable.faithful nullSerde ticks _
    (.step (ticked_reachable enclosingBody) (.left (.recurse (.send () .var) rfl rfl rfl)))

/-- The sender goes back to another loop, in which it is done, and the receiver waits for more. -/
theorem not_faithful_ticked : ticks.Closed false ∧
    ∃ c, Reachable nullSerde anyBody ticks c ∧ ¬ Connection.Faithful nullSerde c := by
  refine ⟨rfl, ticked ⟨.loop .done, some (.send () .var)⟩,
    .step (ticked_reachable anyBody) (.left (.recurse .done rfl rfl trivial)), ?_⟩
  have sender : ∀ (items : List (Item fun _ : Unit => Unit)) (z : Point Unit),
      Point.Reads ⟨.loop .done, some (.send () .var)⟩ items z →
      z.type = .loop .done ∨ z.type = .done := by
    intro items z reads
    refine Point.Reads.preserves (P := fun z => z.type = .loop .done ∨ z.type = .done) ?_ ?_ ?_
      reads (.inl rfl)
    · intro x x' there step
      cases step with
      | enter body enclosing => exact .inr (by simpa using there)
      | recurse body => simp at there
    · simp
    · simp
  have receiver : ∀ (items : List (Item fun _ : Unit => Unit)) (z : Point Unit),
      Point.Reads ⟨ticks.dual, none⟩ items z →
      z = ⟨.loop (.recv () .var), none⟩ ∨ z.enclosing = some (.recv () .var) ∧
        (z.type = .loop (.recv () .var) ∨ z.type = .recv () .var ∨ z.type = .var) := by
    intro items z reads
    refine Point.Reads.preserves (P := fun z => z = ⟨.loop (.recv () .var), none⟩ ∨
      z.enclosing = some (.recv () .var) ∧
        (z.type = .loop (.recv () .var) ∨ z.type = .recv () .var ∨ z.type = .var)) ?_ ?_ ?_
      reads (.inl rfl)
    · intro x x' there step
      cases step with
      | enter body enclosing =>
        have body : body = .recv () .var := by
          rcases there with same | ⟨-, same | same | same⟩ <;> simp_all
        subst body
        exact .inr ⟨rfl, .inr (.inl rfl)⟩
      | recurse body =>
        have body : body = .recv () .var := by simpa using there
        subst body
        exact .inr ⟨rfl, .inl rfl⟩
    · intro T next enclosing there
      obtain ⟨kept, same⟩ := there.resolve_left (by simp)
      exact .inr ⟨kept, .inr (.inr (by simpa using same))⟩
    · simp
  rintro ⟨toRight, toLeft, balanced, -⟩
  rcases balanced with ⟨-, z, here, there⟩ | ⟨-, z, here, there⟩
  · have right := receiver toRight z.dual there
    rcases sender [] z here with left | left <;>
      simp [Point.dual, left, SessionType.dual] at right
  · have left := sender toLeft z.dual there
    rcases receiver [] z here with rfl | ⟨-, right | right | right⟩
    · simp [Point.dual, SessionType.dual] at left
    all_goals simp [Point.dual, right, SessionType.dual] at left

end Typeway.Server
