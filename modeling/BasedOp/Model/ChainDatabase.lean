import BasedOp.Model.BlockSync

/-!
# Committing blocks to any database

`BlockSync::commit_block` is generic in the database: it uses the operations of the traits
`DatabaseRead` and `DatabaseWrite` (crates/common/src/db/mod.rs), each of which may fail.
Here it is over an arbitrary implementation of them. `none` is a panic, or that the loop
that rolls back was not done in the given number of rounds. The database of the gateway,
whose operations do not fail, is one such implementation.
-/

set_option autoImplicit false

namespace BasedOp.Model.Gateway

/-- What is used of a database. A read that is expected to succeed gives an option; a write
says whether it has succeeded, and what the database is then.
SRCLINE: common/src/db/mod.rs:30-59 -/
structure ChainDatabase (σ ε : Type) where
  headBlockNumber : σ → Except ε UInt64
  headBlockHash : σ → Option Hash
  blockHashRef : σ → UInt64 → Option Hash
  rollBackHead : σ → Except ε Unit × σ
  execute : σ → BlockWithSenders → Except ε BundleState
  commitBlockUnchecked : σ → BlockWithSenders → BundleState → Except ε Unit × σ

/-- What a call returns, and the pending blocks and the database after it. -/
abbrev CallOutcome (σ ε : Type) := Except ε (Option (UInt64 × UInt64)) × BlockSync × σ

/-- A binary search in the pending blocks. -/
abbrev PendingSearch := (BlockWithSenders → Ordering) → List BlockWithSenders → Except ℕ ℕ

namespace ChainDatabase

variable {σ ε : Type} (search : PendingSearch) (hashSlow : Header → Hash) (db : ChainDatabase σ ε)

/-- SRCLINE: block_sync/mod.rs:214-220 -/
def insertPendingBlock (sync : BlockSync) (block : BlockWithSenders) : BlockSync :=
  let index := match search
      (fun pending => (compare pending.header.number block.header.number).swap)
      sync.pendingBlocks with
    | .ok i => i
    | .error i => i
  { pendingBlocks := sync.pendingBlocks.insertIdx index block }

/-- SRCLINE: block_sync/mod.rs:146-164 -/
def executeAndMaybeCommit (s : σ) (block : BlockWithSenders) (commit : Bool) :
    Except ε Unit × σ :=
  match db.execute s block with
  | .error err => (.error err, s)
  | .ok state => if commit then db.commitBlockUnchecked s block state else (.ok (), s)

/-- SRCLINE: block_sync/mod.rs:79-81 -/
def rollBackTo (number : UInt64) : ℕ → σ → Option (Except ε Unit × σ)
  | 0, _ => none
  | rounds + 1, s =>
    match db.headBlockNumber s with
    | .error err => some (.error err, s)
    | .ok head =>
      if head ≥ number then
        match db.rollBackHead s with
        | (.error err, s) => some (.error err, s)
        | (.ok _, s) => rollBackTo number rounds s
      else some (.ok (), s)

/-- The loop over the pending blocks, the lowest of which comes first here.
SRCLINE: block_sync/mod.rs:103-127 -/
def drainPending (commit : Bool) : σ → List BlockWithSenders → Option (CallOutcome σ ε)
  | s, [] => some (.ok none, ⟨[]⟩, s)
  | s, pending :: rest =>
    match db.headBlockNumber s with
    | .error err => some (.error err, ⟨(pending :: rest).reverse⟩, s)
    | .ok head =>
      if pending.header.number ≠ head + 1 then some (.ok none, ⟨(pending :: rest).reverse⟩, s)
      else
        match db.headBlockHash s with
        | none => none
        | some headHash =>
          if pending.header.parentHash ≠ headHash then
            match db.rollBackHead s with
            | (.error err, s) => some (.error err, ⟨rest.reverse⟩, s)
            | (.ok _, s) =>
              some (.ok (some (pending.header.number - 1, pending.header.number)),
                ⟨rest.reverse⟩, s)
          else
            match db.executeAndMaybeCommit s pending commit with
            | (.error err, s) => some (.error err, ⟨rest.reverse⟩, s)
            | (.ok _, s) => drainPending commit s rest

/-- Commit a block on the head that it fits, and the pending ones after it.
SRCLINE: block_sync/mod.rs:83-144 -/
def commitOnHead (sync : BlockSync) (s : σ) (block : BlockWithSenders) (commit : Bool) :
    Option (CallOutcome σ ε) :=
  match db.headBlockHash s with
  | none => none
  | some headHash =>
    if block.header.number ≠ 0 ∧ headHash ≠ block.header.parentHash then
      match db.rollBackHead s with
      | (.error err, s) => some (.error err, sync, s)
      | (.ok _, s) =>
        match db.headBlockNumber s with
        | .error _ => none
        | .ok head =>
          some (.ok (some (head, block.header.number)), insertPendingBlock search sync block, s)
    else
      match db.executeAndMaybeCommit s block commit with
      | (.error err, s) => some (.error err, sync, s)
      | (.ok _, s) => db.drainPending commit s sync.pendingBlocks.reverse

/-- SRCLINE: block_sync/mod.rs:45-144 -/
def commitBlock (rounds : ℕ) (sync : BlockSync) (block : BlockWithSenders) (s : σ)
    (commit : Bool) : Option (CallOutcome σ ε) :=
  let number := block.header.number
  match db.headBlockNumber s with
  | .error err => some (.error err, sync, s)
  | .ok dbHead =>
    if number > dbHead + 1 then
      some (.ok (some (dbHead + 1, number - 1)), insertPendingBlock search sync block, s)
    else if number ≠ 0 ∧ number ≤ dbHead then
      match db.blockHashRef s number with
      | none => none
      | some hash =>
        if hash = hashSlow block.header then some (.ok none, sync, s)
        else
          match db.rollBackTo number rounds s with
          | none => none
          | some (.error err, s) => some (.error err, sync, s)
          | some (.ok _, s) => db.commitOnHead search sync s block commit
    else db.commitOnHead search sync s block commit

end ChainDatabase

/-- The database of the gateway. -/
def SequencerDB.chainDatabase {S : Type} (crates : Crates S) :
    ChainDatabase (SequencerDB S) BlockSyncError where
  headBlockNumber := fun db => .ok db.headBlockNumber
  headBlockHash := fun db => some db.headBlockHash
  blockHashRef := SequencerDB.blockHashRef
  rollBackHead := fun db => (.ok (), db.rollBackHead crates)
  execute := fun db block => db.execute crates block
  commitBlockUnchecked := fun db block state => (.ok (), db.commitBlockUnchecked crates block state)

end BasedOp.Model.Gateway
