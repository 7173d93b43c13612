import BasedOp.Model.Primitives

/-!
# The data of the gateway

Transactions and their simulations, headers, payloads, and the messages that the
sequencer, the simulators, the rpc server and the peers exchange
(crates/common/src/transaction, crates/common/src/communication/messages.rs,
crates/common/src/p2p.rs).

The build that is deployed has overflow checks and debug assertions turned off: words
wrap around, and a `debug_assert` is not there. Times are natural numbers. What only
telemetry and timers read is left out.
-/

set_option autoImplicit false

namespace BasedOp.Model.Gateway

abbrev U256 := BitVec 256

abbrev U128 := BitVec 128

/-- A hash map; it is iterated over in the order of its entries. -/
abbrev HashMap (κ α : Type) := AList fun _ : κ => α

/-! ## Transactions -/

/-- A legacy or an access list transaction. `body` is what the gateway only passes on
to the virtual machine. -/
structure TxGasPrice where
  nonce : UInt64
  gasLimit : UInt64
  gasPrice : U128
  body : Bytes
deriving DecidableEq

/-- A transaction with a fee cap and a tip. -/
structure TxDynamicFee where
  nonce : UInt64
  gasLimit : UInt64
  maxFeePerGas : U128
  maxPriorityFeePerGas : U128
  body : Bytes
deriving DecidableEq

structure TxDeposit where
  sender : Address
  gasLimit : UInt64
  body : Bytes
deriving DecidableEq

inductive OpTxEnvelope where
  | legacy (tx : TxGasPrice)
  | eip2930 (tx : TxGasPrice)
  | eip1559 (tx : TxDynamicFee)
  | eip7702 (tx : TxDynamicFee)
  | deposit (tx : TxDeposit)
deriving DecidableEq

namespace OpTxEnvelope

def isDeposit : OpTxEnvelope → Bool
  | deposit _ => true
  | _ => false

/-- A deposit has the nonce zero.
SRCLINE: common/src/transaction/mod.rs:42-52 -/
def nonce : OpTxEnvelope → UInt64
  | legacy tx | eip2930 tx => tx.nonce
  | eip1559 tx | eip7702 tx => tx.nonce
  | deposit _ => 0

def gasLimit : OpTxEnvelope → UInt64
  | legacy tx | eip2930 tx => tx.gasLimit
  | eip1559 tx | eip7702 tx => tx.gasLimit
  | deposit tx => tx.gasLimit

def maxFeePerGas : OpTxEnvelope → U128
  | legacy tx | eip2930 tx => tx.gasPrice
  | eip1559 tx | eip7702 tx => tx.maxFeePerGas
  | deposit _ => 0

def priorityFeeOrPrice : OpTxEnvelope → U128
  | legacy tx | eip2930 tx => tx.gasPrice
  | eip1559 tx | eip7702 tx => tx.maxPriorityFeePerGas
  | deposit _ => 0

/-- What a transaction pays for a unit of gas in a block of the given base fee. -/
def effectiveGasPrice (baseFee : UInt64) : OpTxEnvelope → U128
  | legacy tx | eip2930 tx => tx.gasPrice
  | eip1559 tx | eip7702 tx =>
    let baseFee := BitVec.ofNat 128 baseFee.toNat
    let tip := if tx.maxFeePerGas < baseFee then 0 else tx.maxFeePerGas - baseFee
    if tip > tx.maxPriorityFeePerGas then tx.maxPriorityFeePerGas + baseFee else tx.maxFeePerGas
  | deposit _ => 0

end OpTxEnvelope

/-- A transaction with its sender and the bytes it came in.
SRCLINE: common/src/transaction/mod.rs:18-25 -/
structure Transaction where
  tx : OpTxEnvelope
  sender : Address
  envelope : Bytes
deriving DecidableEq

namespace Transaction

def nonce (t : Transaction) : UInt64 := t.tx.nonce

def gasLimit (t : Transaction) : UInt64 := t.tx.gasLimit

def isDeposit (t : Transaction) : Bool := t.tx.isDeposit

/-- SRCLINE: common/src/transaction/mod.rs:54-67 -/
def gasPriceOrMaxFee (t : Transaction) : Option U128 :=
  match t.tx with
  | .legacy tx | .eip2930 tx => some tx.gasPrice
  | .eip1559 tx | .eip7702 tx => some tx.maxFeePerGas
  | .deposit _ => none

/-- SRCLINE: common/src/transaction/mod.rs:69-73 -/
def validForBlock (t : Transaction) (baseFee : UInt64) : Bool :=
  match t.gasPriceOrMaxFee with
  | none => true
  | some price => price > BitVec.ofNat 128 baseFee.toNat

/-- SRCLINE: common/src/transaction/mod.rs:213-216 -/
def encode (t : Transaction) : Bytes := t.envelope

end Transaction

/-! ## The results of the virtual machine -/

structure Log where
  address : Address
  topics : List Hash
  data : Bytes
deriving DecidableEq

inductive ExecutionResult where
  | success (gasUsed : UInt64) (logs : List Log)
  | revert (gasUsed : UInt64)
  | halt (gasUsed : UInt64)
deriving DecidableEq

namespace ExecutionResult

def gasUsed : ExecutionResult → UInt64
  | success gas _ => gas
  | revert gas => gas
  | halt gas => gas

def logs : ExecutionResult → List Log
  | success _ logs => logs
  | _ => []

def isSuccess : ExecutionResult → Bool
  | success _ _ => true
  | _ => false

end ExecutionResult

structure AccountInfo where
  balance : U256
  nonce : UInt64
  codeHash : Hash
  code : Option Bytes
deriving DecidableEq

structure EvmStorageSlot where
  originalValue : U256
  presentValue : U256
deriving DecidableEq

def EvmStorageSlot.isChanged (s : EvmStorageSlot) : Bool := s.originalValue != s.presentValue

/-- An account as the virtual machine leaves it, with the flags it has set. -/
structure EvmAccount where
  info : AccountInfo
  storage : List (U256 × EvmStorageSlot)
  isTouched : Bool
  isCreated : Bool
  isSelfdestructed : Bool
deriving DecidableEq

abbrev EvmState := List (Address × EvmAccount)

structure ResultAndState where
  result : ExecutionResult
  state : EvmState
deriving DecidableEq

/-- A simulated transaction.
SRCLINE: simulated/transaction.rs:14-25 -/
structure SimulatedTx where
  tx : Transaction
  resultAndState : ResultAndState
  payment : U256
  depositNonce : Option UInt64
deriving DecidableEq

namespace SimulatedTx

def sender (t : SimulatedTx) : Address := t.tx.sender

def nonce (t : SimulatedTx) : UInt64 := t.tx.nonce

/-- SRCLINE: simulated/transaction.rs:139-141 -/
def gasUsed (t : SimulatedTx) : UInt64 := t.resultAndState.result.gasUsed

end SimulatedTx

/-! ## Receipts -/

inductive OpTxType where
  | legacy
  | eip2930
  | eip1559
  | eip7702
  | deposit
deriving DecidableEq

def OpTxEnvelope.txType : OpTxEnvelope → OpTxType
  | legacy _ => .legacy
  | eip2930 _ => .eip2930
  | eip1559 _ => .eip1559
  | eip7702 _ => .eip7702
  | deposit _ => .deposit

/-- A receipt of the block; the last two fields are those of a deposit. -/
structure OpReceipt where
  txType : OpTxType
  status : Bool
  cumulativeGasUsed : UInt64
  logs : List Log
  depositNonce : Option UInt64
  depositReceiptVersion : Option UInt64
deriving DecidableEq

structure ReceiptWithBloom where
  receipt : OpReceipt
  logsBloom : Bloom
deriving DecidableEq

/-- A log of a receipt that the rpc server shows. -/
structure RpcLog where
  inner : Log
  blockNumber : UInt64
  blockTimestamp : UInt64
  transactionHash : Hash
  transactionIndex : UInt64
  logIndex : UInt64
deriving DecidableEq

/-- A receipt that the rpc server shows. -/
structure OpTransactionReceipt where
  txType : OpTxType
  status : Bool
  cumulativeGasUsed : UInt64
  logs : List RpcLog
  logsBloom : Bloom
  depositNonce : Option UInt64
  depositReceiptVersion : Option UInt64
  transactionHash : Hash
  transactionIndex : UInt64
  blockNumber : UInt64
  gasUsed : UInt64
  effectiveGasPrice : U128
  sender : Address
deriving DecidableEq

/-! ## Blocks, payloads and attributes -/

/-- The header of a block; the numbers are words here. -/
structure Header where
  parentHash : Hash
  ommersHash : Hash
  beneficiary : Address
  stateRoot : Hash
  transactionsRoot : Hash
  receiptsRoot : Hash
  withdrawalsRoot : Option Hash
  logsBloom : Bloom
  difficulty : U256
  number : UInt64
  gasLimit : UInt64
  gasUsed : UInt64
  timestamp : UInt64
  mixHash : Hash
  nonce : BitVec 64
  baseFeePerGas : Option UInt64
  blobGasUsed : Option UInt64
  excessBlobGas : Option UInt64
  parentBeaconBlockRoot : Option Hash
  requestsHash : Option Hash
  extraData : Bytes
deriving DecidableEq

/-- `BlockSyncMessage`, a block with the senders of its transactions.
SRCLINE: messages.rs:382 -/
structure BlockWithSenders where
  header : Header
  transactions : List OpTxEnvelope
  senders : List Address
deriving DecidableEq

/-- The payload of a block. It has no withdrawals and no blob gas. -/
structure ExecutionPayload where
  parentHash : Hash
  feeRecipient : Address
  stateRoot : Hash
  receiptsRoot : Hash
  logsBloom : Bloom
  prevRandao : Hash
  blockNumber : UInt64
  gasLimit : UInt64
  gasUsed : UInt64
  timestamp : UInt64
  extraData : Bytes
  baseFeePerGas : U256
  blockHash : Hash
  transactions : List Bytes
deriving DecidableEq

/-- What `GetPayload` returns; its blobs are empty and it does not override the builder. -/
structure OpExecutionPayloadEnvelope where
  executionPayload : ExecutionPayload
  blockValue : U256
  parentBeaconBlockRoot : Hash
deriving DecidableEq

structure OpPayloadAttributes where
  timestamp : UInt64
  prevRandao : Hash
  suggestedFeeRecipient : Address
  parentBeaconBlockRoot : Option Hash
  transactions : Option (List Bytes)
  noTxPool : Option Bool
  gasLimit : Option UInt64
  eip1559Params : Option (BitVec 64)
deriving DecidableEq

/-- The block that an execution takes place in. The numbers come from words, so that
reading them as words does not fail. -/
structure BlockEnv where
  number : UInt64
  coinbase : Address
  timestamp : UInt64
  gasLimit : UInt64
  basefee : UInt64
  difficulty : U256
  prevrandao : Option Hash
  blobExcessGas : Option UInt64
deriving DecidableEq

/-- SRCLINE: messages.rs:397-402 -/
structure EvmBlockParams where
  specId : UInt8
  env : BlockEnv
deriving DecidableEq

/-- SRCLINE: messages.rs:162-168 -/
inductive EngineApi where
  | forkChoiceUpdatedV3 (headBlockHash : Hash) (payloadAttributes : Option OpPayloadAttributes)
  | newPayloadV3 (payload : ExecutionPayload) (versionedHashes : List Hash)
      (parentBeaconBlockRoot : Hash)
  | getPayloadV3
deriving DecidableEq

/-! ## The messages to the peers -/

/-- `VariableList::from`: what is over the limit is cut off. -/
def variableList {α : Type} (limit : ℕ) (xs : List α) : List α := xs.take limit

/-- SRCLINE: src/p2p.rs:39 -/
def maxExtraDataSize : ℕ := 256

/-- SRCLINE: src/p2p.rs:76 -/
def maxBytesPerTransaction : ℕ := 1073741824

/-- SRCLINE: src/p2p.rs:77 -/
def maxTransactionsPerPayload : ℕ := 1048576

/-- SRCLINE: src/p2p.rs:42-57 -/
structure EnvV0 where
  number : UInt64
  parentHash : Hash
  beneficiary : Address
  timestamp : UInt64
  gasLimit : UInt64
  basefee : UInt64
  difficulty : U256
  prevrandao : Hash
  extraData : Bytes
  parentBeaconBlockRoot : Hash
deriving DecidableEq

/-- SRCLINE: src/p2p.rs:60-73 -/
def EnvV0.new (env : BlockEnv) (parentHash : Hash) (extraData : Bytes)
    (parentBeaconBlockRoot : Hash) : EnvV0 where
  number := env.number
  parentHash := parentHash
  beneficiary := env.coinbase
  timestamp := env.timestamp
  gasLimit := env.gasLimit
  basefee := env.basefee
  difficulty := env.difficulty
  prevrandao := env.prevrandao.getD 0
  extraData := variableList maxExtraDataSize extraData
  parentBeaconBlockRoot := parentBeaconBlockRoot

/-- SRCLINE: src/p2p.rs:81-95 -/
structure FragV0 where
  blockNumber : UInt64
  seq : UInt64
  isLast : Bool
  txs : List Bytes
deriving DecidableEq

/-- SRCLINE: src/p2p.rs:98-106 -/
def FragV0.new (blockNumber seq : UInt64) (builderTxs : List Transaction) (isLast : Bool) :
    FragV0 where
  blockNumber := blockNumber
  seq := seq
  isLast := isLast
  txs := variableList maxTransactionsPerPayload
    (builderTxs.map fun tx => variableList maxBytesPerTransaction tx.encode)

/-- SRCLINE: src/p2p.rs:109-125 -/
structure SealV0 where
  totalFrags : UInt64
  blockNumber : UInt64
  gasUsed : UInt64
  gasLimit : UInt64
  parentHash : Hash
  transactionsRoot : Hash
  receiptsRoot : Hash
  stateRoot : Hash
  blockHash : Hash
deriving DecidableEq

/-- SRCLINE: src/p2p.rs:11-19 -/
inductive VersionedMessage where
  | fragV0 (frag : FragV0)
  | sealV0 (sl : SealV0)
  | envV0 (env : EnvV0)
deriving DecidableEq

/-! ## Simulations -/

/-- SRCLINE: messages.rs:354-363 -/
inductive SimulationError where
  | evmError (err : String)
  | zeroPayment
  | revertWithDisallowedRevert
deriving DecidableEq

/-- SRCLINE: messages.rs:345-352 -/
inductive SimulatorToSequencerMsg where
  | tx (result : Except SimulationError SimulatedTx)
  | txPoolTopOfFrag (result : Except SimulationError SimulatedTx)
deriving DecidableEq

/-- The result of a simulation, for the sender and the nonce it was requested for and
the id of the state it was requested on.
SRCLINE: messages.rs:320-327 -/
structure SimulatorToSequencer where
  senderInfo : Address × UInt64
  stateId : UInt64
  msg : SimulatorToSequencerMsg
deriving DecidableEq

end BasedOp.Model.Gateway
