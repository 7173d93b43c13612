import BasedOp.Computation.Runs
import BasedOp.Model.BlockChain

/-!
# The preconfirmation api of op-geth

`EnvV0`, `NewFragV0` and `SealFragV0` (eth/catalyst/api.go) and the sealing of an
unsealed block (beacon/engine/types.go). Each call holds the lock of the unsealed
block from beginning to end, and on an error the unsealed block is discarded. A
call that panics does not give the lock back, so no call comes after it.

A chain also takes blocks and head changes from the ordinary engine api, and its
caches change by themselves (`ChainEvent`).
-/

set_option autoImplicit false

namespace BasedOp.Model.OpGeth

/-- Why a call is answered with `INVALID`. -/
inductive ApiError where
  | noUnsealedBlockOpened
  | noUnsealedBlock
  | blockNumberMismatch (expected received : UInt64)
  | notNextFrag (expected received : UInt64)
  | insertFrag (err : FragError)
  | sealStateNotSet
  | sealBlock (err : InsertError)
  | preSealedNotFound (number : UInt64)
  | blockHashMismatch (expected received : Hash)
  | parentHashMismatch (expected received : Hash)
  | stateRootMismatch (expected received : Hash)
  | transactionsRootMismatch (expected received : Hash)
  | receiptsRootMismatch (expected received : Hash)
  | gasUsedMismatch (expected received : UInt64)
  | gasLimitMismatch (expected received : UInt64)
  | totalFragsMismatch (expected : ℕ) (received : UInt64)
  | cannotUpdateCanonical
  | noParent
  | alreadyInProgress
  | envNumberMismatch (expected received : UInt64)
  | timestampTooLow (parent received : UInt64)
  | openBlock (err : BlockChain.OpenError)
deriving DecidableEq

/-- The answer to a call: `VALID` with no error, or `INVALID` with one. -/
abbrev Response := Except ApiError Unit

/-- `int(x)`: a 64-bit word as a signed integer. -/
def toInt (x : UInt64) : ℤ := x.toBitVec.toInt

section

variable (vm : VM) (config : ChainConfig)

/-- The block that an unsealed block with its state is sealed into.
SRCLINE: engine/types.go:428-455 -/
def sealedBlock (ub : UnsealedBlock) (statedb : StateDB) : Block where
  header :=
    { parentHash := ub.env.parentHash
      uncleHash := emptyUncleHash
      coinbase := ub.env.beneficiary
      root := vm.intermediateRoot (config.isEIP158 ub.env.number.toNat) statedb.accounts
      txHash := vm.deriveShaTxs ub.transactions
      receiptHash := vm.deriveShaReceipts ub.receipts
      bloom := createBloom vm ub.receipts
      difficulty := (ub.env.difficulty.map BitVec.toNat).getD 0
      number := ub.env.number.toNat
      gasLimit := ub.env.gasLimit
      gasUsed := ub.cumulativeGasUsed
      time := ub.env.timestamp
      extra := ub.env.extraData
      mixDigest := ub.env.prevrandao
      nonce := 0
      baseFee := some ub.env.basefee.toNat
      withdrawalsHash := some emptyWithdrawalsHash
      blobGasUsed := some 0
      excessBlobGas := some 0
      parentBeaconRoot := some ub.env.parentBeaconBlockRoot
      requestsHash := none }
  body :=
    { transactions := ub.transactions
      uncles := []
      withdrawals := some []
      requests := ub.requests }

variable (node : Node)

/-- SRCLINE: engine/types.go:423-463 -/
def sealBlock (bc : BlockChain) (ub : UnsealedBlock) : Option (BlockChain × Except ApiError Block) :=
  match bc.unsealedBlockDbState with
  | none => some (bc, .error .sealStateNotSet)
  | some statedb =>
    let block := sealedBlock vm config ub statedb
    match insertBlockWithoutSetHead vm config node bc block with
    | none => none
    | some (bc, some err) => some (bc, .error (.sealBlock err))
    | some (bc, none) => some (bc, .ok block)

/-- SRCLINE: catalyst/api.go:1392-1416 -/
def validateNewFragV0 (frag : SignedNewFrag) (currentUnsealedBlock : Option UnsealedBlock) :
    Option (Option ApiError) :=
  match currentUnsealedBlock with
  | none => some (some .noUnsealedBlockOpened)
  | some ub =>
    if frag.frag.blockNumber ≠ ub.env.number then
      some (some (.blockNumberMismatch ub.env.number frag.frag.blockNumber))
    else match ub.isNextFrag frag.frag with
    | none => none
    | some true => some none
    | some false =>
      let expected := match ub.lastSequenceNumber with
        | none => 0
        | some last => last + 1
      some (some (.notNextFrag expected frag.frag.seq))

/-- SRCLINE: catalyst/api.go:1357-1390 -/
def newFragV0Body (bc : BlockChain) (f : SignedNewFrag) : Option (BlockChain × Response) :=
  match validateNewFragV0 f bc.currentUnsealedBlock with
  | none => none
  | some (some err) => some (bc, .error err)
  | some none =>
    match insertNewFrag vm config bc f.frag with
    | none => none
    | some (bc, some err) => some (bc, .error (.insertFrag err))
    | some (bc, none) =>
      if f.frag.isLast then
        match bc.currentUnsealedBlock with
        | none => none
        | some ub =>
          match sealBlock vm config node bc ub with
          | none => none
          | some (bc, .error err) => some (bc, .error err)
          | some (bc, .ok _) => some (bc, .ok ())
      else some (bc, .ok ())

/-- SRCLINE: catalyst/api.go:1454-1492 -/
def validateSealFragV0 (bc : BlockChain) (preSealedBlock : Block) (s : SignedSeal) :
    Option ApiError :=
  let header := preSealedBlock.header
  let sl := s.sealData
  match bc.currentUnsealedBlock with
  | none => some .noUnsealedBlock
  | some ub =>
    if vm.headerHash header ≠ sl.blockHash then
      some (.blockHashMismatch (vm.headerHash header) sl.blockHash)
    else if header.parentHash ≠ sl.parentHash then
      some (.parentHashMismatch header.parentHash sl.parentHash)
    else if header.root ≠ sl.stateRoot then some (.stateRootMismatch header.root sl.stateRoot)
    else if header.txHash ≠ sl.transactionsRoot then
      some (.transactionsRootMismatch header.txHash sl.transactionsRoot)
    else if header.receiptHash ≠ sl.receiptsRoot then
      some (.receiptsRootMismatch header.receiptHash sl.receiptsRoot)
    else if header.gasUsed ≠ sl.gasUsed then some (.gasUsedMismatch header.gasUsed sl.gasUsed)
    else if header.gasLimit ≠ sl.gasLimit then
      some (.gasLimitMismatch header.gasLimit sl.gasLimit)
    else if (ub.frags.length : ℤ) ≠ toInt sl.totalFrags then
      some (.totalFragsMismatch ub.frags.length sl.totalFrags)
    else none

/-- SRCLINE: catalyst/api.go:1432-1452 -/
def sealFragV0Body (bc : BlockChain) (s : SignedSeal) : BlockChain × Response :=
  match bc.getBlock s.sealData.blockHash s.sealData.blockNumber with
  | none => (bc, .error (.preSealedNotFound s.sealData.blockNumber))
  | some preSealedBlock =>
    match validateSealFragV0 vm bc preSealedBlock s with
    | some err => (bc, .error err)
    | none =>
      match setCanonical vm node bc preSealedBlock with
      | (bc, some _) => (bc, .error .cannotUpdateCanonical)
      | (bc, none) => (bc.resetCurrentUnsealedBlock, .ok ())

/-- SRCLINE: catalyst/api.go:1534-1559 -/
def validateEnvV0 (bc : BlockChain) (e : SignedEnv) : Option ApiError :=
  match bc.getBlockByHash e.env.parentHash with
  | none => some .noParent
  | some parent =>
    let expectedBlockNumber := parent.header.numberU64 + 1
    if bc.currentUnsealedBlock.isSome then some .alreadyInProgress
    else if e.env.number ≠ expectedBlockNumber then
      some (.envNumberMismatch expectedBlockNumber e.env.number)
    else if e.env.timestamp < parent.header.time then
      some (.timestampTooLow parent.header.time e.env.timestamp)
    else none

/-- SRCLINE: catalyst/api.go:1511-1532 -/
def envV0Body (bc : BlockChain) (e : SignedEnv) : BlockChain × Response :=
  match validateEnvV0 bc e with
  | some err => (bc, .error err)
  | none =>
    match bc.setCurrentUnsealedBlock (newUnsealedBlock e.env) with
    | (bc, some err) => (bc, .error (.openBlock err))
    | (bc, none) => (bc, .ok ())

/-- On an error the unsealed block is discarded.
SRCLINE: catalyst/api.go:1346-1349,1423-1426,1499-1503 -/
def discardOnError (r : BlockChain × Response) : BlockChain × Response :=
  match r with
  | (bc, .error err) => (bc.resetCurrentUnsealedBlock, .error err)
  | (bc, .ok ()) => (bc, .ok ())

/-- SRCLINE: catalyst/api.go:1494-1509 -/
def envV0 (bc : BlockChain) (e : SignedEnv) : BlockChain × Response :=
  discardOnError (envV0Body bc e)

/-- SRCLINE: catalyst/api.go:1341-1355 -/
def newFragV0 (bc : BlockChain) (f : SignedNewFrag) : Option (BlockChain × Response) :=
  (newFragV0Body vm config node bc f).map discardOnError

/-- SRCLINE: catalyst/api.go:1418-1430 -/
def sealFragV0 (bc : BlockChain) (s : SignedSeal) : BlockChain × Response :=
  discardOnError (sealFragV0Body vm node bc s)

inductive Call where
  | env (e : SignedEnv)
  | newFrag (f : SignedNewFrag)
  | sealFrag (s : SignedSeal)
deriving DecidableEq

def serve (bc : BlockChain) : Call → Option (BlockChain × Response)
  | .env e => some (envV0 bc e)
  | .newFrag f => newFragV0 vm config node bc f
  | .sealFrag s => some (sealFragV0 vm node bc s)

/-- What happens to the chain of a node: a call of the preconfirmation api; a block or a head from
the ordinary engine api; a block read into the block cache or evicted from it; and the states that
can be opened changing, by pruning or otherwise. -/
inductive ChainEvent where
  | call (c : Call)
  | newPayload (header : Header) (body : Body)
  | forkchoiceUpdated (headBlockHash : Hash)
  | cacheBlock (hash : Hash) (number : UInt64)
  | evictBlock (hash : Hash)
  | statesChange (states : GoMap Hash Accounts)

/-- The block of a payload, whose transactions root is derived from its transactions.
SRCLINE: engine/types.go:249-332 -/
def executableDataToBlock (header : Header) (body : Body) : Block where
  header := { header with txHash := vm.deriveShaTxs body.transactions }
  body := body

/-- The head change in `forkchoiceUpdated`.
SRCLINE: catalyst/api.go:322-409 -/
def forkchoiceUpdated (bc : BlockChain) (headBlockHash : Hash) : BlockChain :=
  match bc.getBlockByHash headBlockHash with
  | none => bc
  | some block =>
    if node.refusesHead bc block then bc
    else if node.canonicalHash bc block.header.numberU64 ≠ headBlockHash then
      (setCanonical vm node bc block).1
    else bc

def chainStep (bc : BlockChain) : ChainEvent → Option BlockChain
  | .call c => (serve vm config node bc c).map Prod.fst
  | .newPayload header body =>
    (insertBlockWithoutSetHead vm config node bc (executableDataToBlock vm header body)).map Prod.fst
  | .forkchoiceUpdated headBlockHash => some (forkchoiceUpdated vm node bc headBlockHash)
  | .cacheBlock hash number =>
    match bc.blocks.lookup (hash, number) with
    | none => some bc
    | some block => some { bc with blockCache := bc.blockCache.insert hash block }
  | .evictBlock hash => some { bc with blockCache := bc.blockCache.erase hash }
  | .statesChange states => some { bc with states := states }

end

end BasedOp.Model.OpGeth
