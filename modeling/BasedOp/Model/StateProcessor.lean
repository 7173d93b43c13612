import BasedOp.Model.StateTransition

/-!
# The state processor of op-geth

Processing a block, or one frag of an unsealed block, transaction by transaction
(core/state_processor.go). The gas used so far comes in and goes out, as the
source passes it by pointer; it and the state are as the failing transaction left
them when an error is returned.
-/

set_option autoImplicit false

namespace BasedOp.Model.OpGeth

/-- `ReceiptStatusFailed`.
SRCLINE: receipt.go:45-48 -/
def statusFailed : UInt64 := 0

def statusSuccessful : UInt64 := 1

/-- SRCLINE: receipt.go:50 -/
def canyonDepositReceiptVersion : UInt64 := 1

/-- SRCLINE: misc/create2deployer.go:19 -/
def create2DeployerAddress : Address := 0x13b0D85CcB8bf860b6b79AF3029fCA081AE9beF2#160

/-- Why a block could not be processed. -/
inductive ProcessError where
  | applyTx (i : ℕ) (txHash : Hash) (err : TxError)
  | depositData (err : String)
deriving DecidableEq

structure ProcessResult where
  receipts : List Receipt
  requests : List Request
  logs : List Log
  gasUsed : UInt64

/-- What the loop over the transactions carries along: the state, the gas pool and
the gas used so far. -/
structure Processing where
  statedb : StateDB
  gp : UInt64
  usedGas : UInt64

section

variable (vm : VM) (config : ChainConfig)

/-- SRCLINE: core/evm.go:42-82 -/
def newEVMBlockContext (header : Header) : BlockContext where
  parentHash := header.parentHash
  coinbase := header.coinbase
  blockNumber := header.number
  time := header.time
  difficulty := header.difficulty
  baseFee := header.baseFee
  blobBaseFee := header.excessBlobGas.map vm.calcBlobFee
  gasLimit := header.gasLimit
  random := if header.difficulty = 0 then some header.mixDigest else none

/-- SRCLINE: state_transition.go:164-196 -/
def transactionToMessage (header : Header) (tx : Transaction) : Except String Message :=
  match vm.sender header.number header.time tx with
  | .error err => .error err
  | .ok sender => .ok
    { recipient := tx.recipient
      sender := sender
      nonce := tx.nonce
      value := tx.value
      gasLimit := tx.gas
      gasPrice := match header.baseFee with
        | none => tx.gasPrice
        | some baseFee => min (tx.gasTipCap + baseFee) tx.gasFeeCap
      gasFeeCap := tx.gasFeeCap
      gasTipCap := tx.gasTipCap
      data := tx.data
      accessList := tx.accessList
      blobGasFeeCap := tx.blobGasFeeCap
      blobHashes := tx.blobHashes
      skipNonceChecks := false
      skipFromEOACheck := false
      isSystemTx := tx.isSystemTx
      isDepositTx := tx.isDepositTx
      mint := tx.mint
      rollupCostData := vm.rollupCostData tx }

/-- The bloom of the logs of receipts.
SRCLINE: bloom9.go:104-116 -/
def createBloom (receipts : List Receipt) : Bloom :=
  (receipts.flatMap Receipt.logs).foldl
    (fun bin log => log.topics.foldl vm.bloomAddTopic (vm.bloomAddAddress bin log.address)) 0

/-- SRCLINE: state_processor.go:164-210 -/
def makeReceipt (ctx : BlockContext) (origin : Address) (result : ExecutionResult)
    (statedb : StateDB) (blockNumber : ℕ) (blockHash : Hash) (tx : Transaction) (usedGas : UInt64)
    (root : Option Hash) (nonce : UInt64) : Receipt :=
  let regolithDeposit := tx.isDepositTx && config.isOptimismRegolith ctx.time
  let receipt : Receipt :=
    { type := tx.type
      postState := root
      status := if result.failed then statusFailed else statusSuccessful
      cumulativeGasUsed := usedGas
      bloom := 0
      logs := statedb.getLogs (vm.txHash tx)
      txHash := vm.txHash tx
      contractAddress := match tx.recipient with
        | none => vm.createAddress origin nonce
        | some _ => 0
      gasUsed := result.usedGas
      blobGasUsed := if tx.type == blobTxType then
          UInt64.ofNat ((tx.blobHashes.getD []).length * blobTxBlobGasPerBlob) else 0
      blobGasPrice := if tx.type == blobTxType then ctx.blobBaseFee else none
      depositNonce := if regolithDeposit then some nonce else none
      depositReceiptVersion := if regolithDeposit && config.isOptimismCanyon ctx.time then
          some canyonDepositReceiptVersion else none
      blockHash := blockHash
      blockNumber := blockNumber
      transactionIndex := statedb.txIndex }
  { receipt with bloom := createBloom vm [receipt] }

/-- SRCLINE: state_processor.go:127-161 -/
def applyTransactionWithEVM (ctx : BlockContext) (msg : Message) (blockNumber : ℕ)
    (blockHash : Hash) (tx : Transaction) (p : Processing) :
    Option (Except TxError Receipt × Processing) :=
  let nonce := if msg.isDepositTx && config.isOptimismRegolith ctx.time then
      (p.statedb.accounts msg.sender).nonce else tx.nonce
  match applyMessage vm config ctx p.statedb msg p.gp with
  | none => none
  | some (.error err, statedb, gp) => some (.error err, { p with statedb, gp })
  | some (.ok result, statedb, gp) =>
    let root := if config.isByzantium blockNumber then none
      else some (vm.intermediateRoot (config.isEIP158 blockNumber) statedb.accounts)
    let usedGas := p.usedGas + result.usedGas
    some (.ok (makeReceipt vm config ctx msg.sender result statedb blockNumber blockHash tx usedGas
      root nonce), { statedb, gp, usedGas })

/-- The loop over the transactions, from index `i` on.
SRCLINE: state_processor.go:88-103 -/
def processTransactions (header : Header) (blockHash : Hash) :
    ℕ → List Transaction → Processing → Option (Except ProcessError (List Receipt) × Processing)
  | _, [], p => some (.ok [], p)
  | i, tx :: txs, p =>
    match transactionToMessage vm header tx with
    | .error err => some (.error (.applyTx i (vm.txHash tx) (.core err)), p)
    | .ok msg =>
      let p := { p with statedb := p.statedb.setTxContext (vm.txHash tx) i }
      match applyTransactionWithEVM vm config (newEVMBlockContext vm header) msg header.number
        blockHash tx p with
      | none => none
      | some (.error err, p) => some (.error (.applyTx i (vm.txHash tx) err), p)
      | some (.ok receipt, p) =>
        match processTransactions header blockHash (i + 1) txs p with
        | none => none
        | some (.error err, p) => some (.error err, p)
        | some (.ok receipts, p) => some (.ok (receipt :: receipts), p)

/-- SRCLINE: misc/create2deployer.go:31-37 -/
def ensureCreate2Deployer (timestamp : UInt64) (A : Accounts) : Accounts :=
  if config.isOptimism ∧ config.canyonTime = some timestamp then
    A.setCode create2DeployerAddress vm.create2DeployerCode
  else A

/-- What is done to the accounts before the transactions.
SRCLINE: state_processor.go:71-87 -/
def preExecution (header : Header) (A : Accounts) : Accounts :=
  let ctx := newEVMBlockContext vm header
  let A := if config.daoForkSupport ∧ config.daoForkBlock = some header.number then
      vm.applyDAOHardFork A else A
  let A := ensureCreate2Deployer vm config header.time A
  let A := match header.parentBeaconRoot with
    | none => A
    | some beaconRoot => vm.processBeaconBlockRoot ctx beaconRoot A
  if config.isPrague header.number header.time then
    vm.processParentBlockHash ctx header.parentHash A else A

/-- SRCLINE: state_processor.go:297-309 -/
def parseDepositLogs : List Log → Except String (List Request)
  | [] => .ok []
  | log :: logs =>
    if log.address = config.depositContractAddress then
      match vm.unpackIntoDeposit log.data with
      | .error err => .error err
      | .ok d => (parseDepositLogs logs).map (d :: ·)
    else parseDepositLogs logs

/-- Process the transactions of a block on a state, counting on from the gas used so far.
SRCLINE: state_processor.go:60-122 -/
def processWithCumulativeGas (block : Block) (statedb : StateDB) (cumulativeGas : UInt64) :
    Option (Except ProcessError ProcessResult × StateDB × UInt64) :=
  let header := block.header
  let statedb := { statedb with accounts := preExecution vm config header statedb.accounts }
  match processTransactions vm config header (vm.headerHash header) 0 block.body.transactions
    { statedb, gp := header.gasLimit, usedGas := cumulativeGas } with
  | none => none
  | some (.error err, p) => some (.error err, p.statedb, p.usedGas)
  | some (.ok receipts, p) =>
    let allLogs := receipts.flatMap Receipt.logs
    let requests := if config.isPrague header.number header.time then
        parseDepositLogs vm config allLogs else .ok []
    match requests with
    | .error err => some (.error (.depositData err), p.statedb, p.usedGas)
    | .ok requests =>
      let statedb := { p.statedb with
        accounts := vm.finalize header block.body p.statedb.accounts }
      some (.ok { receipts, requests, logs := allLogs, gasUsed := p.usedGas }, statedb, p.usedGas)

/-- SRCLINE: state_processor.go:56-58 -/
def process (block : Block) (statedb : StateDB) :
    Option (Except ProcessError ProcessResult × StateDB × UInt64) :=
  processWithCumulativeGas vm config block statedb 0

end

end BasedOp.Model.OpGeth
