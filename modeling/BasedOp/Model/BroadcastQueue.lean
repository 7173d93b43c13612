import Mathlib.Algebra.Group.Nat.Defs
import Mathlib.Data.Nat.Notation
import Mathlib.Tactic.Common

/-!
# The broadcast queue

The threads of the gateway send one another messages through queues in shared memory
(crates/common/src/communication/queue.rs): a ring of slots, each under a lock with a version
(seqlock.rs), that producers write in turn and that any number of consumers read, each at its own
pace. A producer does not wait for the consumers, and one that is overtaken misses messages.

Each function is one step here, in which no other party takes part. A slot that was never
written holds no value. Where the source panics, or would read outside of the ring, the functions
return `none`; integers wrap, as in a release build.
-/

set_option autoImplicit false

namespace BasedOp.Model.Communication

inductive ReadError where
  | spedPast
  | empty
deriving DecidableEq

/-! ## The lock of a slot -/

/-- SRCLINE: seqlock.rs:13-16 -/
structure Seqlock (α : Type) where
  data : Option α
  version : UInt32
deriving DecidableEq

namespace Seqlock

variable {α : Type}

def zeroed : Seqlock α where
  data := none
  version := 0

/-- SRCLINE: seqlock.rs:56-71 -/
def readWithVersionClone (lock : Seqlock α) (expectedVersion : UInt32) :
    Except ReadError (Option α) :=
  if lock.version < expectedVersion then .error .empty
  else if lock.version = expectedVersion then .ok lock.data
  else .error .spedPast

/-- SRCLINE: seqlock.rs:100-117 -/
def write (lock : Seqlock α) (val : α) : Seqlock α where
  data := some val
  version := lock.version + 2

/-- SRCLINE: seqlock.rs:120-141 -/
def writeUnpoison (lock : Seqlock α) (val : α) : Seqlock α where
  data := some val
  version := lock.version + 1

end Seqlock

/-! ## The queue -/

inductive QueueType where
  | unknown
  | mpmc
  | spmc
deriving DecidableEq

/-- SRCLINE: communication/queue.rs:25-32,69-72 -/
structure InnerQueue (α : Type) where
  queueType : QueueType
  mask : UInt64
  count : UInt64
  buffer : List (Seqlock α)

def isPowerOfTwo (n : UInt64) : Bool := 2 ^ n.toNat.log2 == n.toNat

namespace InnerQueue

variable {α : Type}

/-- A new queue, unless the length is not a power of two.
SRCLINE: communication/queue.rs:90-110 -/
def fromUninitializedPtr (len : UInt64) (queueType : QueueType) : Option (InnerQueue α) :=
  if isPowerOfTwo len then
    some { queueType, mask := len - 1, count := 0, buffer := List.replicate len.toNat .zeroed }
  else none

/-- SRCLINE: communication/queue.rs:174-184 -/
def nextCount (q : InnerQueue α) : Option (UInt64 × InnerQueue α) :=
  match q.queueType with
  | .unknown => none
  | .mpmc | .spmc => some (q.count, { q with count := q.count + 1 })

/-- SRCLINE: communication/queue.rs:186-188 -/
def load (q : InnerQueue α) (pos : UInt64) : Option (Seqlock α) := q.buffer[pos.toNat]?

/-- SRCLINE: communication/queue.rs:190-192 -/
def curPos (q : InnerQueue α) : UInt64 := q.count &&& q.mask

/-- SRCLINE: communication/queue.rs:194-196 -/
def version (q : InnerQueue α) : UInt32 := (((q.count / (q.mask + 1)) <<< 1) + 2).toUInt32

/-- The count before, and the queue.
SRCLINE: communication/queue.rs:204-209 -/
def produce (q : InnerQueue α) (item : α) : Option (UInt64 × InnerQueue α) :=
  match q.nextCount with
  | none => none
  | some (p, q) =>
    let pos := p &&& q.mask
    match q.load pos with
    | none => none
    | some lock => some (p, { q with buffer := q.buffer.set pos.toNat (lock.write item) })

/-- The first call of a producer, which may find that a write was not finished.
SRCLINE: communication/queue.rs:228-245 -/
def produceFirst (q : InnerQueue α) (item : α) : Option (UInt64 × InnerQueue α) :=
  match q.queueType with
  | .unknown => none
  | .mpmc => q.produce item
  | .spmc =>
    let p := q.count &&& q.mask
    match q.load p with
    | none => none
    | some lock =>
      if lock.version &&& 1 = 1 then
        some (p, { q with buffer := q.buffer.set p.toNat (lock.writeUnpoison item) })
      else q.produce item

/-- SRCLINE: communication/queue.rs:215-217 -/
def consumeClone (q : InnerQueue α) (ri : UInt64) (riVer : UInt32) :
    Option (Except ReadError (Option α)) :=
  (q.load ri).map fun lock => lock.readWithVersionClone riVer

end InnerQueue

/-! ## Consumers -/

/-- SRCLINE: communication/queue.rs:338-345 -/
structure ConsumerBare where
  pos : UInt64
  mask : UInt64
  expectedVersion : UInt32
deriving DecidableEq

namespace ConsumerBare

variable {α : Type}

/-- SRCLINE: communication/queue.rs:418-424 -/
def fromQueue (q : InnerQueue α) : ConsumerBare where
  pos := q.curPos
  mask := q.mask
  expectedVersion := q.version

/-- SRCLINE: communication/queue.rs:349-351 -/
def recoverAfterError (c : ConsumerBare) : ConsumerBare :=
  { c with expectedVersion := c.expectedVersion + 2 }

/-- SRCLINE: communication/queue.rs:354-357 -/
def updatePos (c : ConsumerBare) : ConsumerBare :=
  let pos := (c.pos + 1) &&& c.mask
  { c with pos, expectedVersion := c.expectedVersion + if pos = 0 then 2 else 0 }

/-- The consumer moves on with every element it reads.
SRCLINE: communication/queue.rs:368-372 -/
def tryConsumeClone (q : InnerQueue α) (c : ConsumerBare) :
    Option (Except ReadError (Option α) × ConsumerBare) :=
  match q.consumeClone c.pos c.expectedVersion with
  | none => none
  | some (.ok t) => some (.ok t, c.updatePos)
  | some (.error e) => some (.error e, c)

/-- What a consumer gets, if it has returned after at most that many calls of itself.
SRCLINE: communication/queue.rs:434-455 -/
def tryConsume (q : InnerQueue α) : ℕ → ConsumerBare → Option (Option (Option α) × ConsumerBare)
  | 0, _ => none
  | calls + 1, c =>
    match c.tryConsumeClone q with
    | none => none
    | some (.ok t, c) => some (some t, c)
    | some (.error .spedPast, c) => tryConsume q calls c.recoverAfterError
    | some (.error .empty, c) => some (none, c)

end ConsumerBare

end BasedOp.Model.Communication
