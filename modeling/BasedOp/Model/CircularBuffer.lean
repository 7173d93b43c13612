import Mathlib.Algebra.Group.Nat.Defs
import Mathlib.Data.Nat.Log

/-!
# The ring buffer of the timekeeper

`CircularBuffer` (bin/timekeeper/src/circular_buffer.rs) keeps the last values of a stream. It
reads and writes its vector without a check of the bounds; where the place is not in the vector,
or where the source panics, the functions here return `none`. The size is one for which there
is a power of two that fits in a `usize`.
-/

set_option autoImplicit false

namespace BasedOp.Model.Timekeeper

/-- The least power of two that is not below a number. -/
def nextPowerOfTwo (size : ℕ) : ℕ := 2 ^ Nat.clog 2 size

/-- SRCLINE: circular_buffer.rs:1-10 -/
structure CircularBuffer (α : Type) where
  data : List α
  mask : ℕ
  filled : Bool
  pos : ℕ
deriving DecidableEq

namespace CircularBuffer

variable {α : Type}

/-- SRCLINE: circular_buffer.rs:13-16 -/
def new [Inhabited α] (size : ℕ) : CircularBuffer α where
  data := List.replicate size default
  mask := nextPowerOfTwo size - 1
  filled := false
  pos := 0

/-- The value that is discarded, if any, and the buffer.
SRCLINE: circular_buffer.rs:19-31 -/
def push (b : CircularBuffer α) (v : α) : Option (Option α × CircularBuffer α) :=
  match b.data[b.pos]? with
  | none => none
  | some old =>
    let pos := (b.pos + 1) &&& b.mask
    some (if b.filled then some old else none,
      { b with data := b.data.set b.pos v, pos, filled := b.filled || pos == 0 })

/-- SRCLINE: circular_buffer.rs:43-50 -/
def len (b : CircularBuffer α) : ℕ := if b.filled then b.data.length else b.pos

/-- SRCLINE: circular_buffer.rs:58-61 -/
def isEmpty (b : CircularBuffer α) : Bool := b.len == 0

/-- SRCLINE: circular_buffer.rs:63-69 -/
def last (b : CircularBuffer α) : Option (Option α) :=
  if b.isEmpty then some none
  else
    let pos := if b.pos > 0 then b.pos - 1 else b.mask
    b.data[pos]?.map some

/-- SRCLINE: circular_buffer.rs:95-101 -/
def firstPos (b : CircularBuffer α) : ℕ := if b.filled then b.pos else 0

/-- SRCLINE: circular_buffer.rs:103-115 -/
def nthBack (b : CircularBuffer α) (id : ℕ) : Option α :=
  if id = 0 then b.last.join
  else if id ≥ b.len then none
  else
    let lastFilledId := if b.pos = 0 then b.mask else b.pos - 1
    if lastFilledId < id then b.data[b.len - (id - lastFilledId)]?
    else b.data[lastFilledId - id]?

end CircularBuffer

/-- SRCLINE: circular_buffer.rs:131-138 -/
structure Iter where
  pos : ℕ
  count : ℕ

namespace Iter

variable {α : Type}

/-- SRCLINE: circular_buffer.rs:140-144 -/
def new (buffer : CircularBuffer α) : Iter where
  pos := buffer.firstPos
  count := 0

/-- The next value, or `some none` at the end.
SRCLINE: circular_buffer.rs:177-188 -/
def next (buffer : CircularBuffer α) (it : Iter) : Option (Option α × Iter) :=
  if it.count = buffer.len then some (none, it)
  else
    match buffer.data[it.pos &&& buffer.mask]? with
    | none => none
    | some out => some (some out, { pos := (it.pos + 1) &&& buffer.mask, count := it.count + 1 })

/-- The values that are still to come, if the end is reached with that many calls of `next`. -/
def collect (buffer : CircularBuffer α) : ℕ → Iter → Option (List α)
  | 0, _ => none
  | calls + 1, it =>
    match it.next buffer with
    | none => none
    | some (none, _) => some []
    | some (some out, it) => (collect buffer calls it).map (out :: ·)

end Iter

/-- The values of the iterator, which ends after one call for each of them and one more.
SRCLINE: circular_buffer.rs:33-36 -/
def CircularBuffer.iter {α : Type} (b : CircularBuffer α) : Option (List α) :=
  Iter.collect b (b.len + 1) (.new b)

end BasedOp.Model.Timekeeper
