import BasedOp.Model.GatewayTypes

/-!
# What the gateway is linked with

The crates that the gateway calls and whose source is not part of the repository, or
is only a store behind an interface: the virtual machine with its cached accounts, the
chain specification, the codecs, the hashes and roots, the execution of whole blocks,
the tables of the database, and the random numbers. They are the fields of one record,
`Crates`; what is assumed about them is assumed where it is used.
-/

set_option autoImplicit false

namespace BasedOp.Model.Gateway

/-! ## Cached accounts -/

/-- `revm::db::AccountStatus`. -/
inductive AccountStatus where
  | loadedNotExisting
  | loaded
  | loadedEmptyEip161
  | inMemoryChange
  | changed
  | destroyed
  | destroyedChanged
  | destroyedAgain
deriving DecidableEq

structure PlainAccount where
  info : AccountInfo
  storage : HashMap U256 U256

/-- `revm::db::CacheAccount`. -/
structure CacheAccount where
  account : Option PlainAccount
  status : AccountStatus

def CacheAccount.accountInfo (a : CacheAccount) : Option AccountInfo := a.account.map (·.info)

def CacheAccount.storageSlot (a : CacheAccount) (slot : U256) : Option U256 :=
  a.account.bind fun p => p.storage.lookup slot

/-- Changed slots, with the value they had and the value they have. -/
abbrev ChangedStorage := List (U256 × EvmStorageSlot)

structure TransitionAccount where
  info : Option AccountInfo
  status : AccountStatus
  previousInfo : Option AccountInfo
  previousStatus : AccountStatus
  storage : ChangedStorage
  storageWasDestroyed : Bool

structure BundleAccount where
  info : Option AccountInfo
  originalInfo : Option AccountInfo
  storage : ChangedStorage
  status : AccountStatus

/-- What takes one account back. -/
structure AccountRevert where
  info : Option AccountInfo
  storage : List (U256 × U256)
  wipeStorage : Bool

/-- `revm::db::BundleState`. Its two size counters are left out. -/
structure BundleState where
  state : HashMap Address BundleAccount
  contracts : HashMap Hash Bytes
  reverts : List (List (Address × AccountRevert))

def BundleState.empty : BundleState where
  state := ∅
  contracts := ∅
  reverts := []

/-! ## Reading a database -/

/-- What a database answers. -/
structure DbView where
  basic : Address → Option AccountInfo
  codeByHash : Hash → Bytes
  storage : Address → U256 → U256
  blockHash : UInt64 → Option Hash

/-- A read that an execution makes. -/
inductive Load where
  | basic (address : Address)
  | codeByHash (codeHash : Hash)
  | storage (address : Address) (index : U256)
  | blockHash (number : UInt64)
deriving DecidableEq

/-- An execution, with the reads it has made. -/
structure Transacted (α : Type) where
  result : Except String α
  loads : List Load

/-! ## The crates -/

/-- The crates, over tables of the database of a type `S`. -/
structure Crates (S : Type) where
  /-- `revm`: the accounts of a cache. -/
  newLoadedNotExisting : CacheAccount
  newLoadedEmptyEip161 : CacheAccount
  newLoaded : AccountInfo → CacheAccount
  isEmpty : AccountInfo → Bool
  isStorageKnown : AccountStatus → Bool
  selfdestruct : CacheAccount → CacheAccount × Option TransitionAccount
  newlyCreated : CacheAccount → AccountInfo → ChangedStorage → CacheAccount × TransitionAccount
  touchEmptyEip161 : CacheAccount → CacheAccount × Option TransitionAccount
  touchCreatePreEip161 : CacheAccount → ChangedStorage → CacheAccount × Option TransitionAccount
  change : CacheAccount → AccountInfo → ChangedStorage → CacheAccount × TransitionAccount
  updateTransition : TransitionAccount → TransitionAccount → TransitionAccount
  applyTransitionsAndCreateReverts : BundleState → HashMap Address TransitionAccount → BundleState
  /-- `revm`: the execution of a transaction, and of the system call with the beacon root. -/
  transact : EvmBlockParams → DbView → Transaction → Transacted ResultAndState
  transactBeaconRoot : EvmBlockParams → DbView → Hash → Transacted EvmState
  /-- The chain specification. -/
  isSpuriousDragonActive : UInt64 → Bool
  isRegolithActive : UInt64 → Bool
  isCanyonActive : UInt64 → Bool
  isCancunActive : UInt64 → Bool
  isHoloceneActive : UInt64 → Bool
  specId : UInt64 → UInt8
  specEnablesCancun : UInt8 → Bool
  nextBlockBaseFee : Header → UInt64 → Option UInt64
  nextBlockExcessBlobGas : Header → Option UInt64
  getHoloceneExtraData : Option (BitVec 64) → UInt64 → Option Bytes
  create2DeployerCodehash : Hash
  create2DeployerBytecode : Bytes
  defaultAccountInfo : AccountInfo
  /-- `alloy`: codecs, hashes and roots. -/
  decode2718 : Bytes → Except String OpTxEnvelope
  recoverSigner : OpTxEnvelope → Option Address
  recoverSignerUnchecked : OpTxEnvelope → Option Address
  tryIntoBlockWithSidecar : ExecutionPayload → List Hash → Hash → Option (Header × List OpTxEnvelope)
  hashSlow : Header → Hash
  txHash : OpTxEnvelope → Hash
  logsBloom : List Log → Bloom
  orderedTrieRootReceipts : List ReceiptWithBloom → Hash
  orderedTrieRootTransactions : List Bytes → Hash
  /-- The execution of a whole block, up to the checks of its receipts. -/
  executeBlock : DbView → BlockWithSenders → Except String BundleState
  /-- The tables of the database. -/
  basicRef : S → Address → Option AccountInfo
  codeByHashRef : S → Hash → Bytes
  storageRef : S → Address → U256 → U256
  calculateStateRoot : S → BundleState → Hash
  writeState : S → UInt64 → BundleState → S
  unwindState : S → UInt64 → S
  /-- `sort_unstable_by_key`: the places of the elements, in the order of their keys. -/
  sortUnstable : List U256 → List ℕ
  /-- The random numbers, in the order in which they are drawn. -/
  rand : ℕ → UInt64

/-! ## Crates to run the definitions with

Every fork but Canyon and Holocene is active. A byte string that begins with `0x7e` is a
deposit, another one a legacy transaction whose nonce is its first byte. An execution
raises the nonce of the sender and uses 21000 gas. The tables of the database only count
the blocks that were written. -/

/-- A change of an account. -/
def plainChange (acc : CacheAccount) (info : AccountInfo) (storage : ChangedStorage) :
    CacheAccount × TransitionAccount :=
  ({ account := some { info, storage := ∅ }, status := .changed },
    { info := some info
      status := .changed
      previousInfo := acc.accountInfo
      previousStatus := acc.status
      storage := storage
      storageWasDestroyed := false })

def plainDecode : Bytes → Except String OpTxEnvelope
  | [] => .error "empty"
  | first :: rest =>
    if first = 0x7e then .ok (.deposit { sender := 9, gasLimit := 50000, body := rest })
    else .ok (.legacy
      { nonce := UInt64.ofNat first.toNat, gasLimit := 50000, gasPrice := 2, body := rest })

/-- The header that a payload stands for. -/
def plainBlockHeader (payload : ExecutionPayload) (root : Hash) : Header where
  parentHash := payload.parentHash
  ommersHash := 0
  beneficiary := payload.feeRecipient
  stateRoot := payload.stateRoot
  transactionsRoot := 0
  receiptsRoot := payload.receiptsRoot
  withdrawalsRoot := none
  logsBloom := payload.logsBloom
  difficulty := 0
  number := payload.blockNumber
  gasLimit := payload.gasLimit
  gasUsed := payload.gasUsed
  timestamp := payload.timestamp
  mixHash := payload.prevRandao
  nonce := 0
  baseFeePerGas := some 1
  blobGasUsed := none
  excessBlobGas := none
  parentBeaconBlockRoot := some root
  requestsHash := none
  extraData := payload.extraData

def plainHashSlow (header : Header) : Hash :=
  BitVec.ofNat 256 (1 + header.number.toNat + 2 ^ 64 * header.timestamp.toNat)

def plainCrates : Crates ℕ where
  newLoadedNotExisting := { account := none, status := .loadedNotExisting }
  newLoadedEmptyEip161 :=
    { account := some { info := ⟨0, 0, 0, none⟩, storage := ∅ }, status := .loadedEmptyEip161 }
  newLoaded := fun info => { account := some { info, storage := ∅ }, status := .loaded }
  isEmpty := fun info => info.balance == 0 && info.nonce == 0
  isStorageKnown := fun status => status != .loaded && status != .changed
  selfdestruct := fun acc => (acc, none)
  newlyCreated := plainChange
  touchEmptyEip161 := fun acc => (acc, none)
  touchCreatePreEip161 := fun acc _ => (acc, none)
  change := plainChange
  updateTransition := fun _ new => new
  applyTransitionsAndCreateReverts := fun bundle _ => bundle
  transact := fun _ database tx =>
    let nonce := ((database.basic tx.sender).map (·.nonce)).getD 0
    { result := .ok
        { result := .success 21000 []
          state := [(tx.sender,
            { info := { balance := 0, nonce := nonce + 1, codeHash := 0, code := none }
              storage := []
              isTouched := true
              isCreated := false
              isSelfdestructed := false })] }
      loads := [.basic tx.sender] }
  transactBeaconRoot := fun _ _ _ => { result := .ok [], loads := [] }
  isSpuriousDragonActive := fun _ => true
  isRegolithActive := fun _ => true
  isCanyonActive := fun _ => false
  isCancunActive := fun _ => true
  isHoloceneActive := fun _ => false
  specId := fun _ => 0
  specEnablesCancun := fun _ => true
  nextBlockBaseFee := fun _ _ => some 1
  nextBlockExcessBlobGas := fun _ => none
  getHoloceneExtraData := fun _ _ => none
  create2DeployerCodehash := 0
  create2DeployerBytecode := []
  defaultAccountInfo := ⟨0, 0, 0, none⟩
  decode2718 := plainDecode
  recoverSigner := fun _ => some 7
  recoverSignerUnchecked := fun _ => some 7
  tryIntoBlockWithSidecar := fun payload _ root =>
    (payload.transactions.mapM fun bytes => (plainDecode bytes).toOption).map fun txs =>
      (plainBlockHeader payload root, txs)
  hashSlow := plainHashSlow
  txHash := fun tx => BitVec.ofNat 256 tx.nonce.toNat
  logsBloom := fun _ => 0
  orderedTrieRootReceipts := fun _ => 0
  orderedTrieRootTransactions := fun _ => 0
  executeBlock := fun _ _ => .ok .empty
  basicRef := fun _ _ => none
  codeByHashRef := fun _ _ => []
  storageRef := fun _ _ _ => 0
  calculateStateRoot := fun _ _ => 0
  writeState := fun blocks _ _ => blocks + 1
  unwindState := fun blocks _ => blocks - 1
  sortUnstable := fun keys => List.range keys.length
  rand := fun i => UInt64.ofNat (i + 1)

end BasedOp.Model.Gateway
