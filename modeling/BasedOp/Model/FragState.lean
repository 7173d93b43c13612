import BasedOp.Model.Crates

/-!
# The states that frags are built on

`State` caches what was read from a database and what executions have changed
(crates/common/src/db/state.rs). Two of them lie over the committed database: the one
of `DBFrag`, with the frags sealed so far, which is shared with the rpc server, and over
it the one of `DBSorting`, with the transactions of the frag that is being sorted.

A state does not hold the database under it: what that one answers is handed to each
function. The option to read from a preloaded bundle is never turned on by the gateway
and is left out. A `stateId` is a random number; the functions that draw one are given
it.
-/

set_option autoImplicit false

namespace BasedOp.Model.Gateway

/-- SRCLINE: db/state.rs:24-58,484-499 -/
structure State where
  accounts : HashMap Address CacheAccount
  contracts : HashMap Hash Bytes
  hasStateClear : Bool
  transitionState : Option (HashMap Address TransitionAccount)
  bundleState : BundleState
  blockHashes : HashMap UInt64 Hash

namespace State

/-- An empty state that collects transitions.
SRCLINE: db/state.rs:60-62,466-481 -/
def build (withStateClear : Bool) : State where
  accounts := ∅
  contracts := ∅
  hasStateClear := withStateClear
  transitionState := some ∅
  bundleState := .empty
  blockHashes := ∅

def new : State := build true

/-- SRCLINE: db/state.rs:76-92 -/
def reset (s : State) : State where
  accounts := ∅
  contracts := ∅
  hasStateClear := s.hasStateClear
  transitionState := s.transitionState.map fun _ => ∅
  bundleState := .empty
  blockHashes := ∅

/-- What is read through a state over a database.
SRCLINE: db/state.rs:311-344 -/
def view (s : State) (database : DbView) : DbView where
  basic address :=
    match s.accounts.lookup address with
    | some acc => acc.accountInfo
    | none => database.basic address
  codeByHash codeHash :=
    match s.contracts.lookup codeHash with
    | some code => code
    | none => database.codeByHash codeHash
  storage address index :=
    match s.accounts.lookup address with
    | some acc =>
      match acc.storageSlot index with
      | some value => value
      | none => database.storage address index
    | none => database.storage address index
  blockHash number :=
    match s.blockHashes.lookup number with
    | some hash => some hash
    | none => database.blockHash number

/-- SRCLINE: db/state.rs:155-158 -/
def setStateClearFlag (s : State) (hasStateClear : Bool) : State := { s with hasStateClear }

section

variable {S : Type} (crates : Crates S)

/-- SRCLINE: db/state.rs:182-205 -/
def loadCacheAccount (database : DbView) (s : State) (address : Address) : State :=
  match s.accounts.lookup address with
  | some _ => s
  | none =>
    let account := match database.basic address with
      | none => crates.newLoadedNotExisting
      | some acc =>
        if crates.isEmpty acc then crates.newLoadedEmptyEip161 else crates.newLoaded acc
    { s with accounts := s.accounts.insert address account }

/-- The info of an account that is loaded if it is not in the cache. What this leaves in the
cache is said by `load`.
SRCLINE: db/state.rs:233-235 -/
def basic (database : DbView) (s : State) (address : Address) : Option AccountInfo :=
  ((loadCacheAccount crates database s address).accounts.lookup address).bind
    CacheAccount.accountInfo

/-- A slot of an account in the cache; the source is unreachable for another one. What this
leaves in the cache is said by `load`.
SRCLINE: db/state.rs:256-281 -/
def storage (database : DbView) (s : State) (address : Address) (index : U256) : Option U256 :=
  match s.accounts.lookup address with
  | none => none
  | some acc =>
    match acc.account with
    | none => some 0
    | some plain =>
      match plain.storage.lookup index with
      | some value => some value
      | none =>
        some (if crates.isStorageKnown acc.status then 0 else database.storage address index)

/-- How many block hashes are kept. -/
def blockHashHistory : UInt64 := 256

/-- A read that may fill the cache. The account of a slot has been loaded before it.
SRCLINE: db/state.rs:230-303 -/
def load (database : DbView) (s : State) : Load → State
  | .basic address => loadCacheAccount crates database s address
  | .codeByHash codeHash =>
    match s.contracts.lookup codeHash with
    | some _ => s
    | none => { s with contracts := s.contracts.insert codeHash (database.codeByHash codeHash) }
  | .storage address index =>
    match s.accounts.lookup address with
    | none => s
    | some acc =>
      match acc.account with
      | none => s
      | some plain =>
        match plain.storage.lookup index with
        | some _ => s
        | none =>
          let value := if crates.isStorageKnown acc.status then 0 else database.storage address index
          let plain := { plain with storage := plain.storage.insert index value }
          { s with accounts := s.accounts.insert address { acc with account := some plain } }
  | .blockHash number =>
    match s.blockHashes.lookup number with
    | some _ => s
    | none =>
      match database.blockHash number with
      | none => s
      | some hash =>
        let lastBlock := if number < blockHashHistory then 0 else number - blockHashHistory
        let stale := (s.blockHashes.insert number hash).keys.filter (· < lastBlock)
        { s with blockHashes := stale.foldl (fun m k => m.erase k) (s.blockHashes.insert number hash) }

/-- Changed slots of an account that an execution has left. -/
def changedStorage (account : EvmAccount) : ChangedStorage :=
  account.storage.filter fun slot => slot.2.isChanged

/-- SRCLINE: db/state.rs:563-618 -/
def applyAccountState (s : State) (address : Address) (account : EvmAccount) :
    State × Option TransitionAccount :=
  if !account.isTouched then (s, none)
  else
    match s.accounts.lookup address with
    -- every account of an execution has been loaded into the cache before
    | none => (s, none)
    | some thisAccount =>
      let put (acc : CacheAccount) : State :=
        { s with accounts := s.accounts.insert address acc }
      if account.isSelfdestructed then
        let (acc, transition) := crates.selfdestruct thisAccount
        (put acc, transition)
      else if account.isCreated then
        let (acc, transition) := crates.newlyCreated thisAccount account.info (changedStorage account)
        (put acc, some transition)
      else if crates.isEmpty account.info then
        if s.hasStateClear then
          let (acc, transition) := crates.touchEmptyEip161 thisAccount
          (put acc, transition)
        else
          let (acc, transition) := crates.touchCreatePreEip161 thisAccount (changedStorage account)
          (put acc, transition)
      else
        let (acc, transition) := crates.change thisAccount account.info (changedStorage account)
        (put acc, some transition)

/-- SRCLINE: db/state.rs:552-561 -/
def applyEvmState (s : State) : EvmState → State × List (Address × TransitionAccount)
  | [] => (s, [])
  | (address, account) :: rest =>
    let (s, transition) := applyAccountState crates s address account
    let (s, transitions) := applyEvmState s rest
    match transition with
    | none => (s, transitions)
    | some t => (s, (address, t) :: transitions)

/-- `TransitionState::add_transitions`. -/
def addTransitions (transitions : HashMap Address TransitionAccount)
    (new : List (Address × TransitionAccount)) : HashMap Address TransitionAccount :=
  new.foldl (fun ts t => match ts.lookup t.1 with
    | some old => ts.insert t.1 (crates.updateTransition old t.2)
    | none => ts.insert t.1 t.2) transitions

/-- SRCLINE: db/state.rs:68-74 -/
def applyTransition (s : State) (new : List (Address × TransitionAccount)) : State :=
  { s with transitionState := s.transitionState.map fun ts => addTransitions crates ts new }

/-- Take the outcome of an execution in.
SRCLINE: db/state.rs:221-227 -/
def commitRef (database : DbView) (s : State) (evmState : EvmState) : State :=
  let s := (evmState.map (·.1)).foldl (loadCacheAccount crates database) s
  let (s, transitions) := applyEvmState crates s evmState
  applyTransition crates s transitions

/-- SRCLINE: db/state.rs:172-180 -/
def mergeTransitions (s : State) : State :=
  match s.transitionState with
  | none => s
  | some ts =>
    { s with
      transitionState := some ∅
      bundleState := crates.applyTransitionsAndCreateReverts s.bundleState ts }

/-- SRCLINE: db/state.rs:208-219 -/
def takeBundle (s : State) : BundleState × State :=
  (s.bundleState, { s with bundleState := .empty })

/-- SRCLINE: db/state.rs:620 -/
def create2DeployerAddr : Address := 0x13b0D85CcB8bf860b6b79AF3029fCA081AE9beF2#160

/-- SRCLINE: db/state.rs:627-661 -/
def ensureCreate2Deployer (timestamp : UInt64) (database : DbView) (s : State) : State :=
  let before := if timestamp < 2 then 0 else timestamp - 2
  if crates.isCanyonActive timestamp && !crates.isCanyonActive before then
    let s := loadCacheAccount crates database s create2DeployerAddr
    let info := ((s.accounts.lookup create2DeployerAddr).bind CacheAccount.accountInfo).getD
      crates.defaultAccountInfo
    let info := { info with
      codeHash := crates.create2DeployerCodehash
      code := some crates.create2DeployerBytecode }
    commitRef crates database s [(create2DeployerAddr,
      { info, storage := [], isTouched := true, isCreated := false, isSelfdestructed := false })]
  else s

end

end State

/-! ## The state of the sealed frags -/

/-- SRCLINE: frag.rs:16-30 -/
structure DBFrag where
  db : State
  stateId : UInt64

namespace DBFrag

/-- SRCLINE: frag.rs:145-150 -/
def fromDb (stateId : UInt64) : DBFrag where
  db := State.build false
  stateId := stateId

/-- SRCLINE: frag.rs:33-37 -/
def reset (f : DBFrag) (stateId : UInt64) : DBFrag where
  db := f.db.reset
  stateId := stateId

/-- SRCLINE: frag.rs:43-45 -/
def isValid (f : DBFrag) (simResState : UInt64) : Bool := simResState == f.stateId

/-- What a transaction is without the state that it has been executed to. -/
def takeState (t : SimulatedTx) : SimulatedTx :=
  { t with resultAndState := { t.resultAndState with state := [] } }

section

variable {S : Type} (crates : Crates S) (database : DbView)

/-- The outcomes of transactions, taken in one after the other and out of the transactions.
SRCLINE: frag.rs:49-64 -/
def commitTxs (f : DBFrag) (txs : List SimulatedTx) (stateId : UInt64) :
    DBFrag × List SimulatedTx :=
  ({ db := txs.foldl (fun s t => s.commitRef crates database t.resultAndState.state) f.db, stateId },
    txs.map takeState)

/-- SRCLINE: frag.rs:66-70 -/
def getNonce (f : DBFrag) (address : Address) : UInt64 :=
  match (f.db.view database).basic address with
  | none => 0
  | some acc => acc.nonce

/-- SRCLINE: frag.rs:78-81 -/
def takeStateChanges (f : DBFrag) : BundleState × DBFrag :=
  let (bundle, db) := (f.db.mergeTransitions crates).takeBundle
  (bundle, { f with db })

/-- SRCLINE: frag.rs:125-127 -/
def commit (f : DBFrag) (changes : EvmState) : DBFrag :=
  { f with db := f.db.commitRef crates database changes }

end

end DBFrag

/-! ## The state of the frag that is being sorted -/

/-- A handle of the state that simulations run on. The state is shared by all handles
that are cloned from one; `arc` says which one it is.
SRCLINE: sorting.rs:12-18 -/
structure DBSorting where
  arc : ℕ
  db : State
  stateId : UInt64

namespace DBSorting

/-- SRCLINE: sorting.rs:21-23 -/
def new (arc : ℕ) (stateId : UInt64) : DBSorting where
  arc := arc
  db := State.new
  stateId := stateId

/-- SRCLINE: sorting.rs:30-33 -/
def commitRef {S : Type} (crates : Crates S) (frag : DbView) (d : DBSorting) (state : EvmState)
    (stateId : UInt64) : DBSorting :=
  { d with db := d.db.commitRef crates frag state, stateId }

end DBSorting

/-! ## What the rpc server shares -/

/-- SRCLINE: shared.rs:10-17 -/
structure SharedState where
  db : DBFrag
  receipts : HashMap Hash OpTransactionReceipt

namespace SharedState

/-- SRCLINE: shared.rs:20-22 -/
def new (db : DBFrag) : SharedState where
  db := db
  receipts := ∅

/-- SRCLINE: shared.rs:24-29 -/
def reset (s : SharedState) (stateId : UInt64) : SharedState where
  db := s.db.reset stateId
  receipts := ∅

/-- SRCLINE: shared.rs:31-33 -/
def insertConfirmedTx {S : Type} (crates : Crates S) (s : SharedState) (tx : OpTxEnvelope)
    (receipt : OpTransactionReceipt) : SharedState :=
  { s with receipts := s.receipts.insert (crates.txHash tx) receipt }

end SharedState

end BasedOp.Model.Gateway
