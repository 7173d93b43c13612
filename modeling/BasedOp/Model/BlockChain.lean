import BasedOp.Model.StateProcessor

/-!
# The chain of op-geth

The blocks a node knows, the head of the canonical chain, and the unsealed block
with its state (core/blockchain.go, core/blockchain_insert.go). What a node decides
by means that are not modelled (locks, header verification, snapshots, pruning,
failing writes) are answers of `Node`, arbitrary functions of the chain.

The block cache is part of the chain because `GetBlock` looks a block up there by
its hash alone. That a lookup fills it is not modelled as an effect of the lookup:
the cache may change at any time between two calls.
-/

set_option autoImplicit false

namespace BasedOp.Model.OpGeth

/-- `core.BlockChain`. `states` are the states that can be opened, by their root.
SRCLINE: blockchain.go:209-275 -/
structure BlockChain where
  headerNumbers : GoMap Hash UInt64
  blocks : GoMap (Hash × UInt64) Block
  blockCache : GoMap Hash Block
  states : GoMap Hash Accounts
  currentBlock : Header
  currentUnsealedBlock : Option UnsealedBlock
  unsealedBlockDbState : Option StateDB

namespace BlockChain

/-- SRCLINE: blockchain_reader.go:168-180 -/
def getBlock (bc : BlockChain) (hash : Hash) (number : UInt64) : Option Block :=
  match bc.blockCache.lookup hash with
  | some block => some block
  | none => bc.blocks.lookup (hash, number)

/-- SRCLINE: blockchain_reader.go:183-189 -/
def getBlockByHash (bc : BlockChain) (hash : Hash) : Option Block :=
  match bc.headerNumbers.lookup hash with
  | none => none
  | some number => bc.getBlock hash number

/-- `HasBlock`. Headers and bodies are stored together here.
SRCLINE: blockchain_reader.go:145-153 -/
def hasBlock (bc : BlockChain) (hash : Hash) (number : UInt64) : Bool :=
  (bc.blockCache.lookup hash).isSome || (bc.blocks.lookup (hash, number)).isSome

def hasState (bc : BlockChain) (root : Hash) : Bool := (bc.states.lookup root).isSome

/-- SRCLINE: blockchain_reader.go:325-332 -/
def hasBlockAndState (bc : BlockChain) (hash : Hash) (number : UInt64) : Bool :=
  match bc.getBlock hash number with
  | none => false
  | some block => bc.hasState block.header.root

/-- `StateAt`: a fresh state over the accounts stored under a root. -/
def stateAt (bc : BlockChain) (root : Hash) : Option StateDB :=
  (bc.states.lookup root).map StateDB.new

/-- Why an unsealed block could not be opened. -/
inductive OpenError where
  | parentNotFound (hash : Hash)
  | stateNotFound (root : Hash)
deriving DecidableEq

/-- SRCLINE: blockchain.go:639-653 -/
def setCurrentUnsealedBlock (bc : BlockChain) (block : UnsealedBlock) :
    BlockChain × Option OpenError :=
  match bc.getBlockByHash block.env.parentHash with
  | none => (bc, some (.parentNotFound block.env.parentHash))
  | some parentBlock =>
    match bc.stateAt parentBlock.header.root with
    | none => (bc, some (.stateNotFound parentBlock.header.root))
    | some newState =>
      ({ bc with
          unsealedBlockDbState := some newState
          currentUnsealedBlock := some block }, none)

/-- SRCLINE: blockchain.go:655-658 -/
def resetCurrentUnsealedBlock (bc : BlockChain) : BlockChain :=
  { bc with currentUnsealedBlock := none, unsealedBlockDbState := none }

/-- `writeHeadBlock`: the block becomes the head of the canonical chain.
SRCLINE: blockchain.go:1082-1103 -/
def writeHeadBlock (bc : BlockChain) (block : Block) : BlockChain :=
  { bc with currentBlock := block.header }

end BlockChain

/-- The answers of a node that are not modelled. -/
structure Node where
  /-- `chainmu.TryLock` -/
  tryLock : BlockChain → Bool
  /-- `insertStopped` -/
  insertStopped : BlockChain → Bool
  /-- `engine.VerifyHeaders` -/
  verifyHeader : BlockChain → Header → Option String
  /-- the uncles of a body against its header -/
  verifyUncles : BlockChain → Block → Option String
  /-- the withdrawals of a body against its header, and that no blob sidecar is attached -/
  verifyWithdrawals : Block → Option String
  /-- the withdrawals root against the state, from Isthmus on -/
  verifyWithdrawalsRoot : Block → Accounts → Option String
  /-- whether a known block needs no execution to build its snapshot -/
  skipBlock : BlockChain → Block → Bool
  /-- `GetCanonicalHash` -/
  canonicalHash : BlockChain → UInt64 → Hash
  /-- the head of a fork choice lies before the merge -/
  refusesHead : BlockChain → Block → Bool
  /-- `recoverAncestors`, up to the block itself: the states that can be opened then -/
  recoverAncestors : BlockChain → Block → Except String (GoMap Hash Accounts)
  /-- `reorg` -/
  reorg : BlockChain → Block → Option String
  /-- the total difficulty of the parent is missing -/
  tdMissing : BlockChain → Block → Bool
  /-- `statedb.Commit` after the block has been written -/
  commitError : BlockChain → Block → Option String

/-- Why a block could not be inserted or made canonical. -/
inductive InsertError where
  | chainStopped
  | header (err : String)
  | body (err : String)
  | txRootMismatch
  | blobGasMismatch
  | unknownAncestor
  | recover (err : String)
  | stateNotFound (root : Hash)
  | process (err : ProcessError)
  | gasUsedMismatch
  | bloomMismatch
  | receiptRootMismatch
  | requestsRootMismatch
  | stateRootMismatch
  | withdrawalsRoot (err : String)
  | reorg (err : String)
  | commit (err : String)
deriving DecidableEq

/-- Why a frag could not be inserted. -/
inductive FragError where
  | stateNotSet
  | process (err : ProcessError)
deriving DecidableEq

/-- The verdict of `ValidateBody`. -/
inductive BodyVerdict where
  | ok
  | knownBlock
  | prunedAncestor
  | refused (err : InsertError)

/-- The length of a slice fits in an `int`. -/
def maxInt : ℕ := 2 ^ 63 - 1

/-- `append` on slices; `none` is the panic of a slice that would get too long. -/
def goAppend {α : Type} (xs ys : List α) : Option (List α) :=
  if xs.length + ys.length ≤ maxInt then some (xs ++ ys) else none

section

variable (vm : VM) (config : ChainConfig)

/-- The header under which a frag is processed. `CopyHeader` replaces a missing difficulty by zero.
SRCLINE: blockchain_insert.go:187-208 -/
def fragHeader (ub : UnsealedBlock) (frag : Frag) : Header where
  parentHash := ub.env.parentHash
  uncleHash := emptyUncleHash
  coinbase := ub.env.beneficiary
  root := 0
  txHash := 0
  receiptHash := 0
  bloom := 0
  difficulty := (ub.env.difficulty.map BitVec.toNat).getD 0
  number := frag.blockNumber.toNat
  gasLimit := ub.env.gasLimit
  gasUsed := ub.cumulativeGasUsed
  time := ub.env.timestamp
  extra := ub.env.extraData
  mixDigest := ub.env.prevrandao
  nonce := 0
  baseFee := some ub.env.basefee.toNat
  withdrawalsHash := some emptyWithdrawalsHash
  blobGasUsed := some 0
  excessBlobGas := some 0
  parentBeaconRoot := some ub.env.parentBeaconBlockRoot
  requestsHash := none

/-- SRCLINE: blockchain_insert.go:187-213 -/
def fragBlock (ub : UnsealedBlock) (frag : Frag) : Block where
  header := fragHeader ub frag
  body := { transactions := frag.txs, uncles := [], withdrawals := some [], requests := [] }

/-- Take the result of a frag into the unsealed block. The slices that grow with the transactions
are taken to fit; the one of the frags is checked, because the sequence numbers count along with it.
SRCLINE: blockchain_insert.go:221-230 -/
def UnsealedBlock.extend (ub : UnsealedBlock) (frag : Frag) (res : ProcessResult) :
    Option UnsealedBlock :=
  match goAppend ub.frags [frag] with
  | none => none
  | some frags => some { ub with
    cumulativeBlobGasUsed :=
      res.receipts.foldl (fun gas receipt => gas + receipt.blobGasUsed) ub.cumulativeBlobGasUsed
    frags := frags
    lastSequenceNumber := some frag.seq
    receipts := ub.receipts ++ res.receipts
    logs := ub.logs ++ res.logs
    requests := ub.requests ++ res.requests
    cumulativeGasUsed := res.gasUsed }

/-- Process a frag on the state of the unsealed block. On an error the state and
the gas used so far stay as the failing transaction left them; without an unsealed
block the source dereferences a nil pointer.
SRCLINE: blockchain_insert.go:180-233 -/
def insertNewFrag (bc : BlockChain) (frag : Frag) : Option (BlockChain × Option FragError) :=
  match bc.unsealedBlockDbState, bc.currentUnsealedBlock with
  | none, _ => some (bc, some .stateNotSet)
  | some _, none => none
  | some statedb, some ub =>
    match processWithCumulativeGas vm config (fragBlock ub frag) statedb ub.cumulativeGasUsed with
    | none => none
    | some (.error err, statedb, gas) =>
      some ({ bc with
        unsealedBlockDbState := some statedb
        currentUnsealedBlock := some { ub with cumulativeGasUsed := gas } }, some (.process err))
    | some (.ok res, statedb, _) =>
      match ub.extend frag res with
      | none => none
      | some ub =>
        some ({ bc with
          unsealedBlockDbState := some statedb
          currentUnsealedBlock := some ub }, none)

variable (node : Node)

/-- SRCLINE: block_validator.go:51-117 -/
def validateBody (bc : BlockChain) (block : Block) : BodyVerdict :=
  let header := block.header
  let blobs := (block.body.transactions.map fun tx => (tx.blobHashes.getD []).length).sum
  if bc.hasBlockAndState (vm.headerHash header) header.numberU64 then .knownBlock
  else match node.verifyUncles bc block with
  | some err => .refused (.body err)
  | none =>
    if vm.deriveShaTxs block.body.transactions ≠ header.txHash then .refused .txRootMismatch
    else match node.verifyWithdrawals block with
    | some err => .refused (.body err)
    | none =>
      if blobs ≠ (header.blobGasUsed.getD 0).toNat / blobTxBlobGasPerBlob then
        .refused .blobGasMismatch
      else if bc.hasBlockAndState header.parentHash (header.numberU64 - 1) then .ok
      else if bc.hasBlock header.parentHash (header.numberU64 - 1) then .prunedAncestor
      else .refused .unknownAncestor

/-- SRCLINE: block_validator.go:121-171 -/
def validateState (block : Block) (statedb : StateDB) (res : ProcessResult) :
    Option InsertError :=
  let header := block.header
  if header.gasUsed ≠ res.gasUsed then some .gasUsedMismatch
  else if createBloom vm res.receipts ≠ header.bloom then some .bloomMismatch
  else if vm.deriveShaReceipts res.receipts ≠ header.receiptHash then some .receiptRootMismatch
  else if header.requestsHash.isSome ∧
      header.requestsHash ≠ some (vm.deriveShaRequests res.requests) then
    some .requestsRootMismatch
  else if header.root ≠ vm.intermediateRoot (config.isEIP158 header.number) statedb.accounts then
    some .stateRootMismatch
  else (node.verifyWithdrawalsRoot block statedb.accounts).map .withdrawalsRoot

/-- Store a block with its state.
SRCLINE: blockchain.go:1481-1506 -/
def writeBlockWithState (bc : BlockChain) (block : Block) (statedb : StateDB) :
    BlockChain × Option InsertError :=
  if node.tdMissing bc block then (bc, some .unknownAncestor)
  else
    let hash := vm.headerHash block.header
    let number := block.header.numberU64
    let written := { bc with
      blocks := bc.blocks.insert (hash, number) block
      headerNumbers := bc.headerNumbers.insert hash number }
    match node.commitError bc block with
    | some err => (written, some (.commit err))
    | none =>
      ({ written with states := written.states.insert block.header.root statedb.accounts }, none)

/-- Execute a block on the state of its parent, validate the result, store it.
SRCLINE: blockchain.go:1784-1841,1893-2010 -/
def processBlock (bc : BlockChain) (block : Block) : Option (BlockChain × Option InsertError) :=
  match bc.getBlock block.header.parentHash (block.header.numberU64 - 1) with
  | none => none
  | some parent =>
    match bc.stateAt parent.header.root with
    | none => some (bc, some (.stateNotFound parent.header.root))
    | some statedb =>
      match process vm config block statedb with
      | none => none
      | some (.error err, _, _) => some (bc, some (.process err))
      | some (.ok res, statedb, _) =>
        match validateState vm config node block statedb res with
        | some err => some (bc, some err)
        | none => some (writeBlockWithState vm node bc block statedb)

/-- SRCLINE: blockchain.go:1468-1477 -/
def writeKnownBlock (bc : BlockChain) (block : Block) : BlockChain × Option InsertError :=
  if block.header.parentHash ≠ vm.headerHash bc.currentBlock then
    match node.reorg bc block with
    | some err => (bc, some (.reorg err))
    | none => (bc.writeHeadBlock block, none)
  else (bc.writeHeadBlock block, none)

/-- `insertChain` on a single block, without setting the head. A known block whose
state is known is nevertheless made the head, unless it is canonical and not above
the head; when the chain is stopping, nothing happens and no error is returned.
SRCLINE: blockchain.go:1645-1841,2399-2407 -/
def insertBlockWithoutSetHead (bc : BlockChain) (block : Block) :
    Option (BlockChain × Option InsertError) :=
  if ¬ node.tryLock bc then some (bc, some .chainStopped)
  else if node.insertStopped bc then some (bc, none)
  else match node.verifyHeader bc block.header with
  | some err => some (bc, some (.header err))
  | none =>
    match validateBody vm node bc block with
    | .refused err => some (bc, some err)
    | .prunedAncestor =>
      -- with the state of the block itself at hand there is nothing to recover
      if bc.hasState block.header.root then some (bc, none)
      else match node.recoverAncestors bc block with
      | .error err => some (bc, some (.recover err))
      | .ok states => processBlock vm config node { bc with states } block
    | .ok => processBlock vm config node bc block
    | .knownBlock =>
      if node.skipBlock bc block then
        if bc.currentBlock.numberU64 < block.header.numberU64 ∨
            node.canonicalHash bc block.header.numberU64 ≠ vm.headerHash block.header then
          some (writeKnownBlock vm node bc block)
        else some (bc, none)
      else processBlock vm config node bc block

/-- SRCLINE: blockchain.go:2412-2450 -/
def setCanonical (bc : BlockChain) (head : Block) : BlockChain × Option InsertError :=
  if ¬ node.tryLock bc then (bc, some .chainStopped)
  else
    let recovered : Except String (GoMap Hash Accounts) :=
      if bc.hasState head.header.root then .ok bc.states else node.recoverAncestors bc head
    match recovered with
    | .error err => (bc, some (.recover err))
    | .ok states => writeKnownBlock vm node { bc with states } head

end

/-! ## A chain to run the definitions with -/

/-- A node on which nothing is refused and nothing goes wrong. -/
def plainNode : Node where
  tryLock _ := true
  insertStopped _ := false
  verifyHeader _ _ := none
  verifyUncles _ _ := none
  verifyWithdrawals _ := none
  verifyWithdrawalsRoot _ _ := none
  skipBlock _ _ := true
  canonicalHash _ _ := 0
  refusesHead _ _ := false
  recoverAncestors _ _ := .error "missing state"
  reorg _ _ := none
  tdMissing _ _ := false
  commitError _ _ := none

def genesisBlock : Block where
  header := plainHeader 0 0 0
  body := { transactions := [], uncles := [], withdrawals := some [], requests := [] }

/-- A chain of the first block alone, with empty accounts. -/
def genesisChain (vm : VM) : BlockChain where
  headerNumbers := AList.insert (vm.headerHash genesisBlock.header) 0 ∅
  blocks := AList.insert (vm.headerHash genesisBlock.header, 0) genesisBlock ∅
  blockCache := ∅
  states := AList.insert genesisBlock.header.root (fun _ => emptyAccount) ∅
  currentBlock := genesisBlock.header
  currentUnsealedBlock := none
  unsealedBlockDbState := none

end BasedOp.Model.OpGeth
