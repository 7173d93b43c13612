import BasedOp.Model.Primitives

/-!
# The block types of op-geth

Transactions, logs, receipts, headers and blocks (core/types), the messages of the
preconfirmation api, and the unsealed block (core/types/unsealed_block.go).

`*big.Int` fields are natural numbers, pointers are options. Two fields of a log
are left out, the number and the hash of its block: `GetLogs` writes them through
pointers that earlier receipts share, and nothing modelled here reads them.
-/

set_option autoImplicit false

namespace BasedOp.Model.OpGeth

abbrev U256 := BitVec 256

/-- The type byte of a deposit transaction.
SRCLINE: deposit_tx.go:27 -/
def depositTxType : UInt8 := 0x7E

/-- The type byte of a blob transaction.
SRCLINE: types/transaction.go:52 -/
def blobTxType : UInt8 := 0x03

/-- SRCLINE: protocol_params.go:183 -/
def blobTxBlobGasPerBlob : ℕ := 131072

/-- A transaction, as its accessors show it. `inner` is what no accessor used here
shows: signature values, chain id, source hash.
SRCLINE: types/transaction.go:269-515 -/
structure Transaction where
  type : UInt8
  nonce : UInt64
  gas : UInt64
  gasPrice : ℕ
  gasFeeCap : ℕ
  gasTipCap : ℕ
  recipient : Option Address
  value : ℕ
  data : Bytes
  accessList : List (Address × List Hash)
  blobHashes : Option (List Hash)
  blobGasFeeCap : Option ℕ
  isSystemTx : Bool
  mint : Option ℕ
  inner : Bytes
deriving DecidableEq

/-- SRCLINE: types/transaction.go:365-367 -/
def Transaction.isDepositTx (tx : Transaction) : Bool := tx.type == depositTxType

/-- What a contract says when it logs. -/
structure LogData where
  address : Address
  topics : List Hash
  data : Bytes
deriving DecidableEq

/-- `types.Log`.
SRCLINE: types/log.go:29-56 -/
structure Log extends LogData where
  txHash : Hash
  txIndex : ℕ
  index : ℕ
deriving DecidableEq

/-- `types.Receipt`, up to the fields that processing sets.
SRCLINE: receipt.go:55-87 -/
structure Receipt where
  type : UInt8
  postState : Option Hash
  status : UInt64
  cumulativeGasUsed : UInt64
  bloom : Bloom
  logs : List Log
  txHash : Hash
  contractAddress : Address
  gasUsed : UInt64
  blobGasUsed : UInt64
  blobGasPrice : Option ℕ
  depositNonce : Option UInt64
  depositReceiptVersion : Option UInt64
  blockHash : Hash
  blockNumber : ℕ
  transactionIndex : ℕ
deriving DecidableEq

structure Request where
  content : Bytes
deriving DecidableEq

/-- `types.Header`.
SRCLINE: types/block.go:74-108 -/
structure Header where
  parentHash : Hash
  uncleHash : Hash
  coinbase : Address
  root : Hash
  txHash : Hash
  receiptHash : Hash
  bloom : Bloom
  difficulty : ℕ
  number : ℕ
  gasLimit : UInt64
  gasUsed : UInt64
  time : UInt64
  extra : Bytes
  mixDigest : Hash
  nonce : UInt64
  baseFee : Option ℕ
  withdrawalsHash : Option Hash
  blobGasUsed : Option UInt64
  excessBlobGas : Option UInt64
  parentBeaconRoot : Option Hash
  requestsHash : Option Hash
deriving DecidableEq

/-- `Block.NumberU64`: the low 64 bits of the number. -/
def Header.numberU64 (h : Header) : UInt64 := UInt64.ofNat h.number

/-- SRCLINE: hashes.go:30 -/
def emptyUncleHash : Hash := 0x1dcc4de8dec75d7aab85b567b6ccd41ad312451b948a7413f0a142fd40d49347#256

/-- SRCLINE: hashes.go:42 -/
def emptyWithdrawalsHash : Hash :=
  0x56e81f171bcc55a6ff8345e692c0f86e5b48e01b996cadc001622fb5e363b421#256

structure Withdrawal where
  index : UInt64
  validator : UInt64
  address : Address
  amount : UInt64
deriving DecidableEq

/-- `types.Body`.
SRCLINE: types/block.go:200-205 -/
structure Body where
  transactions : List Transaction
  uncles : List Header
  withdrawals : Option (List Withdrawal)
  requests : List Request
deriving DecidableEq

structure Block where
  header : Header
  body : Body
deriving DecidableEq

/-! ## Messages of the preconfirmation api -/

/-- `types.Env`.
SRCLINE: unsealed_block.go:156-167 -/
structure Env where
  number : UInt64
  parentHash : Hash
  beneficiary : Address
  timestamp : UInt64
  gasLimit : UInt64
  basefee : UInt64
  difficulty : Option U256
  prevrandao : Hash
  extraData : Bytes
  parentBeaconBlockRoot : Hash
deriving DecidableEq

/-- `types.Frag`.
SRCLINE: unsealed_block.go:91-96 -/
structure Frag where
  blockNumber : UInt64
  seq : UInt64
  isLast : Bool
  txs : List Transaction
deriving DecidableEq

/-- SRCLINE: unsealed_block.go:98-100 -/
def Frag.isFirst (f : Frag) : Bool := f.seq == 0

/-- `engine.Seal`.
SRCLINE: engine/types.go:501-512 -/
structure Seal where
  totalFrags : UInt64
  blockNumber : UInt64
  gasUsed : UInt64
  gasLimit : UInt64
  parentHash : Hash
  transactionsRoot : Hash
  receiptsRoot : Hash
  stateRoot : Hash
  blockHash : Hash
deriving DecidableEq

structure SignedEnv where
  signature : Bytes65
  env : Env
deriving DecidableEq

structure SignedNewFrag where
  signature : Bytes65
  frag : Frag
deriving DecidableEq

structure SignedSeal where
  signature : Bytes65
  sealData : Seal
deriving DecidableEq

/-! ## The unsealed block -/

/-- `types.UnsealedBlock`. Its `Hash` is never written after the zero hash.
SRCLINE: unsealed_block.go:13-24 -/
structure UnsealedBlock where
  env : Env
  frags : List Frag
  lastSequenceNumber : Option UInt64
  hash : Hash
  receipts : List Receipt
  logs : List Log
  requests : List Request
  cumulativeGasUsed : UInt64
  cumulativeBlobGasUsed : UInt64
deriving DecidableEq

/-- SRCLINE: unsealed_block.go:26-38 -/
def newUnsealedBlock (e : Env) : UnsealedBlock where
  env := e
  frags := []
  lastSequenceNumber := none
  hash := 0
  receipts := []
  logs := []
  requests := []
  cumulativeGasUsed := 0
  cumulativeBlobGasUsed := 0

/-- Whether a frag is the next one; `none` is the panic of an index out of range.
SRCLINE: unsealed_block.go:48-60 -/
def UnsealedBlock.isNextFrag (ub : UnsealedBlock) (f : Frag) : Option Bool :=
  match ub.lastSequenceNumber with
  | none => some f.isFirst
  | some last =>
    match ub.frags[last.toNat]? with
    | none => none
    | some lastKnownFrag =>
      if lastKnownFrag.isLast then some false
      else some (lastKnownFrag.seq + 1 == f.seq)

/-- SRCLINE: unsealed_block.go:62-68 -/
def UnsealedBlock.transactions (ub : UnsealedBlock) : List Transaction :=
  ub.frags.flatMap Frag.txs

/-! ## Values to run the definitions with -/

/-- A legacy transaction of the given nonce and gas limit. -/
def plainTx (nonce gas : UInt64) : Transaction where
  type := 0
  nonce := nonce
  gas := gas
  gasPrice := 0
  gasFeeCap := 0
  gasTipCap := 0
  recipient := some 8
  value := 0
  data := []
  accessList := []
  blobHashes := none
  blobGasFeeCap := none
  isSystemTx := false
  mint := none
  inner := []

def plainHeader (number : ℕ) (parentHash : Hash) (time : UInt64) : Header where
  parentHash := parentHash
  uncleHash := emptyUncleHash
  coinbase := 0
  root := 0
  txHash := 0
  receiptHash := 0
  bloom := 0
  difficulty := 0
  number := number
  gasLimit := 30000000
  gasUsed := 0
  time := time
  extra := []
  mixDigest := 0
  nonce := 0
  baseFee := some 0
  withdrawalsHash := some emptyWithdrawalsHash
  blobGasUsed := some 0
  excessBlobGas := some 0
  parentBeaconRoot := some 0
  requestsHash := none

def plainEnv (number : UInt64) (parentHash : Hash) (timestamp : UInt64) : SignedEnv where
  signature := 0
  env :=
    { number := number
      parentHash := parentHash
      beneficiary := 0
      timestamp := timestamp
      gasLimit := 30000000
      basefee := 0
      difficulty := some 0
      prevrandao := 0
      extraData := []
      parentBeaconBlockRoot := 0 }

def plainFrag (number seq : UInt64) (isLast : Bool) (txs : List Transaction) : SignedNewFrag where
  signature := 0
  frag := { blockNumber := number, seq := seq, isLast := isLast, txs := txs }

end BasedOp.Model.OpGeth
