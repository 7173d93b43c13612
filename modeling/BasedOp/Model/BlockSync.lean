import BasedOp.Model.FragState
import BasedOp.Model.TxPool

/-!
# The database and its chain

The table of canonical headers of `SequencerDB` (crates/db/src/lib.rs) over tables of
accounts and storage that the crates keep, and `BlockSync`, which commits blocks to it,
rolls it back when a block does not fit, and keeps the blocks that came too early
(crates/sequencer/src/block_sync/mod.rs). Reads from and writes to the database succeed;
`none` is a panic.
-/

set_option autoImplicit false

namespace BasedOp.Model.Gateway

/-! ## The database -/

/-- The database. The headers are listed from the highest number down.
SRCLINE: crates/db/src/lib.rs:45-50 -/
structure SequencerDB (S : Type) where
  canonicalHeaders : List (UInt64 × Hash)
  tables : S

/-- Write a row of the table of headers. -/
def putHeader (number : UInt64) (hash : Hash) : List (UInt64 × Hash) → List (UInt64 × Hash)
  | [] => [(number, hash)]
  | (n, h) :: rest =>
    if n < number then (number, hash) :: (n, h) :: rest
    else if n = number then (number, hash) :: rest
    else (n, h) :: putHeader number hash rest

inductive BlockSyncError where
  | execution (err : String)
  | stateRoot (got expected : Hash)
deriving DecidableEq

namespace SequencerDB

variable {S : Type}

/-- SRCLINE: crates/db/src/lib.rs:111-114 -/
def headBlockNumber (db : SequencerDB S) : UInt64 :=
  match db.canonicalHeaders with
  | [] => 0
  | (number, _) :: _ => number

/-- SRCLINE: crates/db/src/lib.rs:116-119 -/
def headBlockHash (db : SequencerDB S) : Hash :=
  match db.canonicalHeaders with
  | [] => 0
  | (_, hash) :: _ => hash

/-- SRCLINE: crates/db/src/lib.rs:251-255 -/
def blockHashRef (db : SequencerDB S) (number : UInt64) : Option Hash :=
  (db.canonicalHeaders.find? fun row => row.1 == number).map (·.2)

variable (crates : Crates S)

/-- What the database answers. The source reads accounts and storage through its read caches,
which are left out here: every read goes to the tables.
SRCLINE: crates/db/src/lib.rs:235-256 -/
def view (db : SequencerDB S) : DbView where
  basic := crates.basicRef db.tables
  codeByHash := crates.codeByHashRef db.tables
  storage := crates.storageRef db.tables
  blockHash := db.blockHashRef

/-- SRCLINE: crates/db/src/lib.rs:123-168 -/
def commitBlockUnchecked (db : SequencerDB S) (block : BlockWithSenders) (state : BundleState) :
    SequencerDB S where
  canonicalHeaders :=
    putHeader block.header.number (crates.hashSlow block.header) db.canonicalHeaders
  tables := crates.writeState db.tables block.header.number state

/-- SRCLINE: crates/db/src/lib.rs:170-232 -/
def rollBackHead (db : SequencerDB S) : SequencerDB S where
  canonicalHeaders := db.canonicalHeaders.tail
  tables := crates.unwindState db.tables db.headBlockNumber

/-- Roll back while the head is not below a number, which is not zero.
SRCLINE: block_sync/mod.rs:79-81 -/
def rollBackTo (number : UInt64) : List (UInt64 × Hash) → S → SequencerDB S
  | [], tables => { canonicalHeaders := [], tables }
  | (n, h) :: rest, tables =>
    if n ≥ number then rollBackTo number rest (crates.unwindState tables n)
    else { canonicalHeaders := (n, h) :: rest, tables }

/-! ## Committing blocks -/

/-- SRCLINE: block_sync/mod.rs:166-212 -/
def execute (db : SequencerDB S) (block : BlockWithSenders) : Except BlockSyncError BundleState :=
  match crates.executeBlock (db.view crates) block with
  | .error err => .error (.execution err)
  | .ok state =>
    let stateRoot := crates.calculateStateRoot db.tables state
    if stateRoot ≠ block.header.stateRoot then .error (.stateRoot stateRoot block.header.stateRoot)
    else .ok state

/-- SRCLINE: block_sync/mod.rs:146-164 -/
def executeAndMaybeCommit (db : SequencerDB S) (block : BlockWithSenders) (commit : Bool) :
    Except BlockSyncError (SequencerDB S) :=
  match db.execute crates block with
  | .error err => .error err
  | .ok state => .ok (if commit then db.commitBlockUnchecked crates block state else db)

end SequencerDB

/-- The blocks that wait for an earlier one, from the highest number down.
SRCLINE: block_sync/mod.rs:28-36 -/
structure BlockSync where
  pendingBlocks : List BlockWithSenders

namespace BlockSync

def new : BlockSync where
  pendingBlocks := []

/-- SRCLINE: block_sync/mod.rs:214-220 -/
def insertPendingBlock (sync : BlockSync) (block : BlockWithSenders) : BlockSync :=
  let index := match binarySearchBy
      (fun pending => (compare pending.header.number block.header.number).swap)
      sync.pendingBlocks with
    | .ok i => i
    | .error i => i
  { pendingBlocks := sync.pendingBlocks.insertIdx index block }

/-- What committing a block comes to: the numbers of blocks to fetch or an error, and
the pending blocks and the database after it. -/
abbrev Outcome (S : Type) :=
  Except BlockSyncError (Option (UInt64 × UInt64)) × BlockSync × SequencerDB S

section

variable {S : Type} (crates : Crates S)

/-- The loop over the pending blocks, the lowest of which comes first here.
SRCLINE: block_sync/mod.rs:103-127 -/
def drainPending (commit : Bool) (db : SequencerDB S) : List BlockWithSenders → Outcome S
  | [] => (.ok none, ⟨[]⟩, db)
  | pending :: rest =>
    if pending.header.number ≠ db.headBlockNumber + 1 then
      (.ok none, ⟨(pending :: rest).reverse⟩, db)
    else if pending.header.parentHash ≠ db.headBlockHash then
      (.ok (some (pending.header.number - 1, pending.header.number)), ⟨rest.reverse⟩,
        db.rollBackHead crates)
    else
      match db.executeAndMaybeCommit crates pending commit with
      | .error err => (.error err, ⟨rest.reverse⟩, db)
      | .ok db => drainPending commit db rest

/-- Commit a block on the head that it fits, and the pending ones after it. -/
def commitOnHead (sync : BlockSync) (db : SequencerDB S) (block : BlockWithSenders)
    (commit : Bool) : Outcome S :=
  if block.header.number ≠ 0 ∧ db.headBlockHash ≠ block.header.parentHash then
    let db := db.rollBackHead crates
    (.ok (some (db.headBlockNumber, block.header.number)), sync.insertPendingBlock block, db)
  else
    match db.executeAndMaybeCommit crates block commit with
    | .error err => (.error err, sync, db)
    | .ok db => drainPending crates commit db sync.pendingBlocks.reverse

/-- SRCLINE: block_sync/mod.rs:45-144 -/
def commitBlock (sync : BlockSync) (block : BlockWithSenders) (db : SequencerDB S)
    (commit : Bool) : Option (Outcome S) :=
  let dbHead := db.headBlockNumber
  let number := block.header.number
  if number > dbHead + 1 then
    some (.ok (some (dbHead + 1, number - 1)), sync.insertPendingBlock block, db)
  else if number ≠ 0 ∧ number ≤ dbHead then
    match db.blockHashRef number with
    | none => none
    | some hash =>
      if hash = crates.hashSlow block.header then some (.ok none, sync, db)
      else
        let db := SequencerDB.rollBackTo crates number db.canonicalHeaders db.tables
        some (commitOnHead crates sync db block commit)
  else some (commitOnHead crates sync db block commit)

end

end BlockSync

end BasedOp.Model.Gateway
