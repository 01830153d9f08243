import Typeway.Base.Pool

/-!
# Buffers that are used again

`EncodeBuf` keeps one buffer from message to message, and a `BufPool` lends buffers to guards, which
threads hold and drop in any order. What is written never shows what was in a buffer before.
-/

namespace Typeway.Protobuf

/-- `TypewayEncode::encode_to` of a message of any type, which may look at the buffer. -/
abbrev EncodeTo :=
  List UInt8 → List UInt8

/-- `encode_to_vec` -/
def EncodeTo.toVec (msg : EncodeTo) : List UInt8 :=
  msg []

/-- `Vec::clear` -/
def clear (_ : List UInt8) : List UInt8 :=
  []

/-- `encode` of either kind of buffer, and `encode_to_bytes`: what is returned, and what stays. -/
def encodeInto (msg : EncodeTo) (buf : List UInt8) : List UInt8 × List UInt8 :=
  let buf := msg (clear buf)
  (buf, buf)

structure EncodeBuf where
  inner : List UInt8

namespace EncodeBuf

def new : EncodeBuf where
  inner := []

def encode (msg : EncodeTo) (buf : EncodeBuf) : List UInt8 × EncodeBuf :=
  ((encodeInto msg buf.inner).1, ⟨(encodeInto msg buf.inner).2⟩)

end EncodeBuf

/-! ## The pool -/

/-- The idle buffers behind the lock, and those that guards hold. -/
abbrev BufPool :=
  Pool.State (List UInt8)

namespace BufPool

/-- `BufPool::new` -/
def new (count : Nat) : BufPool :=
  .start [] count

inductive Call where
  | get
  | encode (guard : Nat) (msg : EncodeTo)
  | encodeToBytes (guard : Nat) (msg : EncodeTo)
  /-- `return_buf`, when the guard is dropped. -/
  | drop (guard : Nat)

namespace Call

def onPool : Call → Pool.Call (List UInt8) (List UInt8)
  | get => .borrow
  | encode guard msg | encodeToBytes guard msg => .use guard (encodeInto msg)
  | drop guard => .giveBack guard

def message : Call → Option EncodeTo
  | encode _ msg | encodeToBytes _ msg => some msg
  | get | drop _ => none

end Call

def run (pool : BufPool) (calls : List Call) : Option (List (List UInt8) × BufPool) :=
  Pool.State.run [] clear pool (calls.map Call.onPool)

/-- The most guards that are alive at once. -/
def peak (pool : BufPool) (calls : List Call) : Nat :=
  Pool.State.peak [] clear pool (calls.map Call.onPool)

/-- What a call returns. -/
theorem step_out {pool pool' : BufPool} {call : Call} {out : Option (List UInt8)}
    (called : Pool.State.step [] clear pool call.onPool = some (out, pool')) :
    out = call.message.map EncodeTo.toVec := by
  cases call with
  | get =>
    cases called
    rfl
  | encode guard msg | encodeToBytes guard msg =>
    obtain ⟨item, -, same⟩ := Option.map_eq_some_iff.1 called
    cases same
    rfl
  | drop guard =>
    obtain ⟨item, -, same⟩ := Option.map_eq_some_iff.1 called
    cases same
    rfl

theorem run_outs {calls : List Call} {pool pool' : BufPool} {outs : List (List UInt8)}
    (called : pool.run calls = some (outs, pool')) :
    outs = (calls.filterMap Call.message).map EncodeTo.toVec := by
  unfold run at called
  induction calls generalizing pool outs with
  | nil =>
    cases called
    rfl
  | cons call calls ih =>
    obtain ⟨⟨out, next⟩, first, others⟩ := Option.bind_eq_some_iff.1 called
    obtain ⟨⟨outs', last⟩, ran, same⟩ := Option.map_eq_some_iff.1 others
    cases same
    rw [ih ran, step_out first, List.filterMap_cons]
    cases call.message with
    | none => rfl
    | some msg => rfl

/-- **Any calls on a pool, in any order**: every message is written as `encode_to_vec` writes it,
idle buffers are empty, no buffer is in two places, and there are no more than there were at first
or guards at once. -/
theorem pool_calls {count : Nat} {calls : List Call} {outs : List (List UInt8)} {pool : BufPool}
    (called : (new count).run calls = some (outs, pool)) :
    outs = (calls.filterMap Call.message).map EncodeTo.toVec ∧
      (∀ buf ∈ pool.idle, buf.value = []) ∧ pool.numbers.Nodup ∧
      pool.idle.length + pool.live = max count ((new count).peak calls) := by
  have started : Pool.Sound (fun buf => buf = []) (new count) := by
    apply Pool.sound_start
    rfl
  obtain ⟨sound, made⟩ := started.run (fun _ => rfl) called
  refine ⟨run_outs called, sound.idle, sound.apart, ?_⟩
  rw [sound.live_le, made]
  rfl

/-- A message whose encoder writes these bytes. -/
def writes (bytes : List UInt8) : EncodeTo := fun buf =>
  buf ++ bytes

/-- Two guards at once from a pool of one buffer, and then two more. -/
def fourGuards : List Call :=
  [.get, .encode 0 (writes [8, 1]), .get, .encodeToBytes 1 (writes [8, 2, 16, 3]), .drop 0, .get,
    .encode 2 (writes [8, 4]), .encode 2 (writes [8]), .drop 1, .drop 2, .get]

theorem pool_calls_fourGuards :
    ∃ outs pool, (new 1).run fourGuards = some (outs, pool) ∧
      outs = [[8, 1], [8, 2, 16, 3], [8, 4], [8]] ∧ pool.idle.length + pool.live = 2 := by
  have ran : ((new 1).run fourGuards).isSome = true := by decide
  obtain ⟨⟨outs, pool⟩, called⟩ := Option.isSome_iff_exists.1 ran
  obtain ⟨written, -, -, total⟩ := pool_calls called
  refine ⟨outs, pool, called, written, total.trans ?_⟩
  decide

end BufPool

end Typeway.Protobuf
