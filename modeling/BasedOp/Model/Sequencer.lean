import BasedOp.Model.Sorting

/-!
# The context of the sequencer

What the sequencer does to start, cut and seal a block, to take a transaction in and to
commit a block from outside (crates/sequencer/src/context.rs). `none` is a panic.
-/

set_option autoImplicit false

namespace BasedOp.Model.Gateway

/-- `EMPTY_OMMER_ROOT_HASH`, the hash of an empty list. -/
def emptyOmmerRootHash : Hash :=
  0x1dcc4de8dec75d7aab85b567b6ccd41ad312451b948a7413f0a142fd40d49347#256

/-- SRCLINE: sequencer/src/context.rs:251 -/
def withdrawalsRoot : Hash :=
  0x56e81f171bcc55a6ff8345e692c0f86e5b48e01b996cadc001622fb5e363b421#256

/-- The address that system calls come from. -/
def systemAddress : Address := 0xfffffffffffffffffffffffffffffffffffffffe#160

section

variable {S : Type} (crates : Crates S)

/-- The sender of a deposit is part of it, that of another transaction is recovered. -/
def recoverSigner (tx : OpTxEnvelope) : Option Address :=
  match tx with
  | .deposit d => some d.sender
  | tx => crates.recoverSigner tx

/-- SRCLINE: common/src/transaction/mod.rs:198-211 -/
def Transaction.decode (bytes : Bytes) : Option (Except String Transaction) :=
  match crates.decode2718 bytes with
  | .error err => some (.error err)
  | .ok tx =>
    match recoverSigner crates tx with
    | none => none
    | some sender => some (.ok { tx, sender, envelope := bytes })

/-- What the caller gets, and what is sent to the sequencer.
SRCLINE: crates/rpc/src/lib.rs:82-90 -/
def sendRawTransaction (bytes : Bytes) : Option (Except String (Hash × Transaction)) :=
  match Transaction.decode crates bytes with
  | none => none
  | some (.error err) => some (.error err)
  | some (.ok tx) => some (.ok (crates.txHash tx.tx, tx))

/-- SRCLINE: sequencer/src/lib.rs:44-57 -/
def payloadToBlock (payload : ExecutionPayload) (versionedHashes : List Hash)
    (parentBeaconBlockRoot : Hash) : Option BlockWithSenders :=
  match crates.tryIntoBlockWithSidecar payload versionedHashes parentBeaconBlockRoot with
  | none => none
  | some (header, transactions) =>
    (transactions.mapM crates.recoverSignerUnchecked).map fun senders =>
      { header, transactions, senders }

/-- The environment of the block after a parent.
SRCLINE: optimism/evm/src/lib.rs:125-165 -/
def nextCfgAndBlockEnv (parent : Header) (attributes : OpPayloadAttributes) (gasLimit : UInt64) :
    Option EvmBlockParams :=
  (crates.nextBlockBaseFee parent attributes.timestamp).map fun basefee =>
    { specId := crates.specId attributes.timestamp
      env :=
        { number := parent.number + 1
          coinbase := attributes.suggestedFeeRecipient
          timestamp := attributes.timestamp
          gasLimit := gasLimit
          basefee := basefee
          difficulty := 0
          prevrandao := some attributes.prevRandao
          blobExcessGas := match crates.nextBlockExcessBlobGas parent with
            | some gas => some gas
            | none =>
              if crates.specEnablesCancun (crates.specId attributes.timestamp) then some 0 else none } }

namespace SequencerContext

/-! ## Starting a block -/

/-- SRCLINE: sequencer/src/context.rs:105-114 -/
def extraData (ctx : SequencerContext S) : Option Bytes :=
  let attributes := ctx.payloadAttributes
  if crates.isHoloceneActive attributes.timestamp then
    crates.getHoloceneExtraData attributes.eip1559Params attributes.timestamp
  else some []

/-- SRCLINE: sequencer/src/context.rs:201-221 -/
def newBlockParams (ctx : SequencerContext S) : Option EvmBlockParams :=
  match ctx.gasLimit with
  | none => none
  | some gasLimit => nextCfgAndBlockEnv crates ctx.parentHeader ctx.payloadAttributes gasLimit

/-- Clear the shared state.
SRCLINE: shared.rs:24-29 -/
def resetSharedState (ctx : SequencerContext S) : SequencerContext S :=
  { ctx with
    sharedState := ctx.sharedState.reset (ctx.nextRand crates)
    draws := ctx.draws + 1 }

/-- What an execution on the shared state itself reads goes into its cache. -/
def loadAll (ctx : SequencerContext S) (loads : List Load) : SequencerContext S :=
  let frag := ctx.sharedState.db
  let state := loads.foldl (State.load crates (ctx.db.view crates)) frag.db
  { ctx with sharedState := { ctx.sharedState with db := { frag with db := state } } }

/-- Change the state of the sealed frags without a new id. -/
def modifyFragState (ctx : SequencerContext S) (f : State → State) : SequencerContext S :=
  let frag := ctx.sharedState.db
  { ctx with sharedState := { ctx.sharedState with db := { frag with db := f frag.db } } }

/-- Commit outcomes to the shared state, which gets a new id.
SRCLINE: frag.rs:49-64 -/
def commitTxs (ctx : SequencerContext S) (txs : List SimulatedTx) :
    SequencerContext S × List SimulatedTx :=
  let (frag, txs) := ctx.sharedState.db.commitTxs crates (ctx.db.view crates) txs
    (ctx.nextRand crates)
  ({ ctx with sharedState := { ctx.sharedState with db := frag }, draws := ctx.draws + 1 }, txs)

/-- The call that stores the beacon root.
SRCLINE: system_calls/mod.rs:228-255, eip4788.rs:22-90 -/
def applyBeaconRootContractCall (ctx : SequencerContext S) (params : EvmBlockParams) :
    Option (SequencerContext S) :=
  if !crates.isCancunActive params.env.timestamp then some ctx
  else
    match ctx.payloadAttributes.parentBeaconBlockRoot with
    | none => none
    | some root =>
      if params.env.number == 0 then
        if root ≠ 0 then none else some ctx
      else
        let t := crates.transactBeaconRoot params (ctx.fragView crates) root
        match t.result with
        | .error _ => none
        | .ok state =>
          let state := state.filter fun a => a.1 ≠ systemAddress ∧ a.1 ≠ params.env.coinbase
          some ((ctx.loadAll crates t.loads).modifyFragState fun s =>
            s.commitRef crates (ctx.db.view crates) state)

/-- Execute the transactions that the block must include, one after the other.
SRCLINE: sorting_data.rs:327-341 -/
def applyForcedTxs (params : EvmBlockParams) (regolithActive : Bool) :
    List Bytes → SortingData → SequencerContext S → Option (SortingData × SequencerContext S)
  | [], data, ctx => some (data, ctx)
  | bytes :: rest, data, ctx =>
    match Transaction.decode crates bytes with
    | none => none
    | some (.error _) => none
    | some (.ok tx) =>
      match simulateTxInner crates params (ctx.fragView crates) tx regolithActive true true with
      | (.error _, _) => none
      | (.ok simulatedTx, loads) =>
        let (ctx, txs) := (ctx.loadAll crates loads).commitTxs crates [simulatedTx]
        applyForcedTxs params regolithActive rest
          { data with
            gasRemaining := data.gasRemaining - simulatedTx.gasUsed
            payment := data.payment + simulatedTx.payment
            txs := data.txs ++ txs } ctx

/-- SRCLINE: sorting_data.rs:284-344 -/
def applyBlockStartToState (ctx : SequencerContext S) (data : SortingData)
    (params : EvmBlockParams) : Option (SortingData × SequencerContext S) :=
  let timestamp := params.env.timestamp
  let ctx := ctx.modifyFragState fun s =>
    s.setStateClearFlag (crates.isSpuriousDragonActive params.env.number)
  match ctx.applyBeaconRootContractCall crates params with
  | none => none
  | some ctx =>
    let ctx := ctx.modifyFragState fun s =>
      s.ensureCreate2Deployer crates timestamp (ctx.db.view crates)
    applyForcedTxs crates params (crates.isRegolithActive timestamp)
      (ctx.payloadAttributes.transactions.getD []) data ctx

/-- The senders and nonces of transactions that the pool is told to be mined. -/
def mined (txs : List SimulatedTx) : List (Address × UInt64) :=
  txs.map fun t => (t.sender, t.nonce)

def removeMinedTxs (ctx : SequencerContext S) (txs : List SimulatedTx) :
    Option (SequencerContext S) :=
  (ctx.txPool.removeMinedTxs (mined txs)).map fun pool => { ctx with txPool := pool }

/-- Start a block, once its parameters are known and have been sent to the simulators.
SRCLINE: sequencer/src/context.rs:183-198 -/
def startWith (ctx : SequencerContext S) (params : EvmBlockParams) (now : ℕ) :
    Option (FragSequence × SortingData × SequencerContext S) :=
  let ctx := { ctx with blockEnv := params.env, baseFee := params.env.basefee }
  let seq := FragSequence.new params.env.gasLimit params.env.number params.env.timestamp
  let (data, ctx) := SortingData.new crates seq ctx now
  match ctx.applyBlockStartToState crates data params with
  | none => none
  | some (data, ctx) =>
    (ctx.removeMinedTxs data.txs).map fun ctx => (seq, data, ctx)

/-! ## Cutting frags and sealing the block -/

/-- SRCLINE: sequencer/src/context.rs:142-156 -/
def sealFrag (ctx : SequencerContext S) (data : SortingData) (seq : FragSequence) (now : ℕ) :
    Option (FragV0 × SortingData × FragSequence × SequencerContext S) :=
  let (ctx, txs) := ctx.commitTxs crates data.txs
  match ctx.removeMinedTxs txs with
  | none => none
  | some ctx =>
    let (msg, seq, ctx) := seq.applySortedFrag crates { data with txs := txs } ctx
    let (data, ctx) := SortingData.new crates seq ctx now
    some (msg, data, seq, ctx)

/-- SRCLINE: sequencer/src/context.rs:223-227 -/
def sealLastFrag (ctx : SequencerContext S) (data : SortingData) (seq : FragSequence) (now : ℕ) :
    Option (FragV0 × FragSequence × SequencerContext S) :=
  (ctx.sealFrag crates data seq now).map fun (msg, _, seq, ctx) =>
    ({ msg with isLast := true }, seq, ctx)

/-- The header of the block that is sealed.
SRCLINE: sequencer/src/context.rs:244-266 -/
def sealedHeader (ctx : SequencerContext S) (stateRoot transactionsRoot receiptsRoot : Hash)
    (logsBloom : Bloom) (gasUsed : UInt64) (extraData : Bytes) : Header where
  parentHash := ctx.parentHash
  ommersHash := emptyOmmerRootHash
  beneficiary := ctx.blockEnv.coinbase
  stateRoot := stateRoot
  transactionsRoot := transactionsRoot
  receiptsRoot := receiptsRoot
  withdrawalsRoot := some withdrawalsRoot
  logsBloom := logsBloom
  timestamp := ctx.blockEnv.timestamp
  mixHash := ctx.blockEnv.prevrandao.getD 0
  nonce := 0
  baseFeePerGas := some ctx.blockEnv.basefee
  number := ctx.blockEnv.number
  gasLimit := ctx.blockEnv.gasLimit
  difficulty := 0
  gasUsed := gasUsed
  extraData := extraData
  parentBeaconBlockRoot := ctx.payloadAttributes.parentBeaconBlockRoot
  blobGasUsed := some 0
  excessBlobGas := some 0
  requestsHash := none

/-- SRCLINE: sequencer/src/context.rs:229-313 -/
def sealBlock (ctx : SequencerContext S) (seq : FragSequence) :
    Option (SealV0 × OpExecutionPayloadEnvelope × SequencerContext S) :=
  let gasUsed := seq.gasUsed
  let canyonActive := crates.isCanyonActive ctx.blockEnv.timestamp
  let (transactions, transactionsRoot, receiptsRoot, logsBloom) :=
    seq.encodedTxsRootsBloom crates canyonActive
  let (stateChanges, frag) := ctx.sharedState.db.takeStateChanges crates
  let ctx := { ctx with sharedState := { ctx.sharedState with db := frag } }
  let stateRoot := crates.calculateStateRoot ctx.db.tables stateChanges
  match ctx.extraData crates, ctx.payloadAttributes.parentBeaconBlockRoot with
  | some extraData, some parentBeaconBlockRoot =>
    let header := ctx.sealedHeader stateRoot transactionsRoot receiptsRoot logsBloom gasUsed
      extraData
    let blockHash := crates.hashSlow header
    some
      ({ totalFrags := seq.nextSeq
         blockNumber := ctx.blockEnv.number
         gasUsed := gasUsed
         gasLimit := ctx.blockEnv.gasLimit
         parentHash := ctx.parentHash
         transactionsRoot := transactionsRoot
         receiptsRoot := receiptsRoot
         stateRoot := stateRoot
         blockHash := blockHash },
       { executionPayload :=
           { parentHash := ctx.parentHash
             feeRecipient := ctx.blockEnv.coinbase
             stateRoot := stateRoot
             receiptsRoot := receiptsRoot
             logsBloom := logsBloom
             prevRandao := ctx.blockEnv.prevrandao.getD 0
             blockNumber := ctx.blockEnv.number
             gasLimit := ctx.blockEnv.gasLimit
             gasUsed := gasUsed
             timestamp := ctx.blockEnv.timestamp
             extraData := extraData
             baseFeePerGas := BitVec.ofNat 256 ctx.blockEnv.basefee.toNat
             blockHash := blockHash
             transactions := transactions }
         blockValue := seq.payment
         parentBeaconBlockRoot := parentBeaconBlockRoot },
       ctx)
  | _, _ => none

/-! ## Transactions and blocks from outside -/

/-- SRCLINE: sequencer/src/context.rs:160-172 -/
def handleTx (ctx : SequencerContext S) (tx : Transaction) :
    Option (SequencerContext S × List SequencerToSimulator) :=
  if tx.isDeposit then some ({ ctx with deposits := ctx.deposits ++ [tx] }, [])
  else
    (ctx.txPool.handleNewTx tx (ctx.getNonce crates) ctx.blockEnv.basefee false
      ctx.config.simulateTofInPools).map fun (pool, txs) =>
        ({ ctx with txPool := pool },
          txs.map fun tx => .simulateTxTof tx ctx.sharedState.db.stateId)

/-- SRCLINE: sequencer/src/context.rs:316-339 -/
def commitBlock (ctx : SequencerContext S) (block : BlockWithSenders) :
    Option (SequencerContext S × Option (UInt64 × UInt64)) :=
  match ctx.blockExecutor.commitBlock crates block ctx.db true with
  | none => none
  | some (.error _, _, _) => none
  | some (.ok blocksToFetch, blockExecutor, db) =>
    let ctx := { ctx with
      blockExecutor := blockExecutor
      db := db
      parentHeader := block.header
      parentHash := crates.hashSlow block.header }
    match block.header.baseFeePerGas with
    | none => some (ctx, blocksToFetch)
    | some baseFee =>
      let ctx := { ctx with baseFee := baseFee }
      match block.transactions.mapM fun tx => (recoverSigner crates tx).map (·, tx.nonce) with
      | none => none
      | some mined =>
        (ctx.txPool.handleNewBlock mined baseFee (ctx.getNonce crates) false false).map
          fun (pool, _) => ({ ctx with txPool := pool }, blocksToFetch)

end SequencerContext

end

end BasedOp.Model.Gateway
