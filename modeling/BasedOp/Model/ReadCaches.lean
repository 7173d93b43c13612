import BasedOp.Computation.ReadThrough
import BasedOp.Model.BlockSync

/-!
# The read caches of the database

The database of the gateway keeps the accounts and storage slots that were read or written
last in two caches (crates/db/src/cache.rs). Reads go through them, a commit puts what it
writes into them before it writes, and rolling back does not touch them. Any entry may be
dropped at any time. An operation of the database may fail, which its event says here.
-/

set_option autoImplicit false

namespace BasedOp.Model.Gateway

open BasedOp.Computation

/-- `revm::db::AccountStatus::was_destroyed`. -/
def AccountStatus.wasDestroyed : AccountStatus → Bool
  | .destroyed | .destroyedChanged | .destroyedAgain => true
  | _ => false

def BundleAccount.wasDestroyed (account : BundleAccount) : Bool :=
  account.status.wasDestroyed

/-- `revm::primitives::AccountInfo::copy_without_code`. -/
def AccountInfo.copyWithoutCode (info : AccountInfo) : AccountInfo :=
  { info with code := none }

/-- SRCLINE: db/src/cache.rs:17-21 -/
structure ReadCaches where
  accountInfo : HashMap Address (Option AccountInfo)
  storage : HashMap (Address × U256) U256

namespace ReadCaches

/-- SRCLINE: db/src/cache.rs:24-28 -/
def new : ReadCaches where
  accountInfo := ∅
  storage := ∅

/-- Put the slots of an account into the cache. -/
def insertSlots (storage : HashMap (Address × U256) U256) (address : Address)
    (slots : ChangedStorage) : HashMap (Address × U256) U256 :=
  slots.foldl (fun storage slot => storage.insert (address, slot.1) slot.2.presentValue) storage

/-- SRCLINE: db/src/cache.rs:59-68 -/
def updateAccount (caches : ReadCaches) (address : Address) (account : BundleAccount) :
    ReadCaches :=
  if account.wasDestroyed then
    { caches with accountInfo := caches.accountInfo.erase address }
  else
    { accountInfo := caches.accountInfo.insert address account.info
      storage := insertSlots caches.storage address account.storage }

/-- SRCLINE: db/src/cache.rs:58-71 -/
def update (caches : ReadCaches) (changes : BundleState) : ReadCaches :=
  changes.state.foldl updateAccount caches

end ReadCaches

/-- The database with its caches.
SRCLINE: crates/db/src/lib.rs:45-50 -/
structure CachedDB (S : Type) where
  db : SequencerDB S
  caches : ReadCaches

/-- How a commit ends: without a provider it does nothing, and writing may fail. -/
inductive CommitEnd where
  | noProvider
  | writeFails
  | committed
deriving DecidableEq

/-- An operation of the database, or an entry that a cache drops. A read needs the tables
only for what is not cached. -/
inductive DbOp where
  | basicRef (address : Address) (readable : Bool)
  | storageRef (address : Address) (index : U256) (readable : Bool)
  | commitBlockUnchecked (block : BlockWithSenders) (state : BundleState) (ending : CommitEnd)
  | rollBackHead (succeeds : Bool)
  | dropAccount (address : Address)
  | dropSlot (address : Address) (index : U256)

namespace CachedDB

variable {S : Type} (crates : Crates S)

/-- SRCLINE: crates/db/src/lib.rs:238-240, db/src/cache.rs:30-40 -/
def basicRef (s : CachedDB S) (address : Address) (readable : Bool) :
    Option (Option AccountInfo) × CachedDB S :=
  let row := if readable then some (crates.basicRef s.db.tables address) else none
  let (value, accountInfo) := readThrough s.caches.accountInfo address row
  (value, { s with caches := { s.caches with accountInfo } })

/-- SRCLINE: crates/db/src/lib.rs:247-249, db/src/cache.rs:42-56 -/
def storageRef (s : CachedDB S) (address : Address) (index : U256) (readable : Bool) :
    Option U256 × CachedDB S :=
  let row := if readable then some (crates.storageRef s.db.tables address index) else none
  let (value, storage) := readThrough s.caches.storage (address, index) row
  (value, { s with caches := { s.caches with storage } })

/-- SRCLINE: crates/db/src/lib.rs:125-168 -/
def commitBlockUnchecked (s : CachedDB S) (block : BlockWithSenders) (state : BundleState) :
    CommitEnd → CachedDB S
  | .noProvider => s
  | .writeFails => { s with caches := s.caches.update state }
  | .committed =>
    { db := s.db.commitBlockUnchecked crates block state, caches := s.caches.update state }

/-- SRCLINE: crates/db/src/lib.rs:170-232 -/
def rollBackHead (s : CachedDB S) (succeeds : Bool) : CachedDB S :=
  if succeeds then { s with db := s.db.rollBackHead crates } else s

/-- The database after an operation. -/
def step (s : CachedDB S) : DbOp → CachedDB S
  | .basicRef address readable => (s.basicRef crates address readable).2
  | .storageRef address index readable => (s.storageRef crates address index readable).2
  | .commitBlockUnchecked block state ending => s.commitBlockUnchecked crates block state ending
  | .rollBackHead succeeds => s.rollBackHead crates succeeds
  | .dropAccount address =>
    { s with caches := { s.caches with accountInfo := s.caches.accountInfo.erase address } }
  | .dropSlot address index =>
    { s with caches := { s.caches with storage := s.caches.storage.erase (address, index) } }

end CachedDB

end BasedOp.Model.Gateway
