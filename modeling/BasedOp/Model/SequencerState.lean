import BasedOp.Model.Sequencer

/-!
# The state machine of the sequencer

The states of the sequencer and the handlers of its five inputs
(crates/sequencer/src/lib.rs). One event is one call of a handler. A panic ends the
process, and what was sent before it stays sent. While it handles deposits the sequencer
waits for the result of each one and takes no other event: that is a state of its own
here, `waiting`.
-/

set_option autoImplicit false

namespace BasedOp.Model.Gateway

/-- SRCLINE: sequencer/src/lib.rs:119-140 -/
inductive SequencerState where
  | syncing (lastBlockNumber : UInt64)
  | waitingForNewPayload
  | waitingForForkChoiceWithAttributes
  | sorting (seq : FragSequence) (data : SortingData)

/-- What the sequencer sends, in the order in which it does. -/
inductive Output where
  | gossip (msg : VersionedMessage)
  | payload (envelope : OpExecutionPayloadEnvelope)
  | blockFetch (start stop : UInt64)
  | evmBlockParams (params : EvmBlockParams)
  | simulate (request : SequencerToSimulator)

/-- The sequencer; `waiting` says that it is waiting for the result of a deposit.
SRCLINE: sequencer/src/lib.rs:59-63 -/
structure Sequencer (S : Type) where
  state : SequencerState
  ctx : SequencerContext S
  waiting : Bool

/-- An input; the clock is read where a frag is started or cut. -/
inductive Event where
  | blockSync (block : BlockWithSenders)
  | newTx (tx : Transaction)
  | simResult (result : SimulatorToSequencer)
  | engineApi (msg : EngineApi) (now : ℕ)
  | tick (now : ℕ)

/-- What handling an event comes to: what was sent, and the sequencer after it, unless
it has panicked. -/
structure Handled (S : Type) where
  sent : List Output
  next : Option (Sequencer S)

namespace Sequencer

variable {S : Type}

/-- Go to a state with a context. -/
def goto (state : SequencerState) (ctx : SequencerContext S) (sent : List Output) : Handled S where
  sent := sent
  next := some { state, ctx, waiting := false }

/-- A panic after some messages. -/
def panicked (sent : List Output) : Handled S where
  sent := sent
  next := none

/-- SRCLINE: sequencer/src/lib.rs:143-148 -/
def syncUntil (start stop : UInt64) (ctx : SequencerContext S) : Handled S :=
  goto (.syncing stop) ctx [.blockFetch start stop]

variable (crates : Crates S)

/-! ## The engine api -/

/-- Commit the block of a payload that comes in while a new block is waited for.
SRCLINE: sequencer/src/lib.rs:210-237 -/
def applyPayload (ctx : SequencerContext S) (payload : ExecutionPayload)
    (versionedHashes : List Hash) (parentBeaconBlockRoot : Hash) : Handled S :=
  let ctx := ctx.resetSharedState crates
  if payload.blockHash = ctx.db.headBlockHash then goto .waitingForForkChoiceWithAttributes ctx []
  else
    match payloadToBlock crates payload versionedHashes parentBeaconBlockRoot with
    | none => panicked []
    | some block =>
      let ctx := { ctx with parentHeader := block.header, parentHash := payload.blockHash }
      match ctx.commitBlock crates block with
      | none => panicked []
      | some (ctx, some (start, stop)) => syncUntil start stop ctx
      | some (ctx, none) => goto .waitingForForkChoiceWithAttributes ctx []

/-- SRCLINE: sequencer/src/lib.rs:183-240 -/
def handleNewPayloadEngineApi (s : Sequencer S) (payload : ExecutionPayload)
    (versionedHashes : List Hash) (parentBeaconBlockRoot : Hash) : Handled S :=
  let headBn := s.ctx.db.headBlockNumber
  match s.state with
  | .sorting seq data => goto (.sorting seq data) s.ctx []
  | .syncing last =>
    if payload.blockNumber > headBn + 1 then syncUntil (headBn + 1) payload.blockNumber s.ctx
    else goto (.syncing last) s.ctx []
  | .waitingForNewPayload | .waitingForForkChoiceWithAttributes =>
    if payload.blockNumber > headBn + 1 then syncUntil (headBn + 1) payload.blockNumber s.ctx
    else applyPayload crates s.ctx payload versionedHashes parentBeaconBlockRoot

/-- Start a block: the parameters go to the simulators, then the environment to the peers.
SRCLINE: sequencer/src/lib.rs:271-284, sequencer/src/context.rs:174-199 -/
def startSequencing (ctx : SequencerContext S) (attributes : OpPayloadAttributes) (now : ℕ) :
    Handled S :=
  let ctx := { ctx with payloadAttributes := attributes }
  match ctx.newBlockParams crates with
  | none => panicked []
  | some params =>
    match ctx.startWith crates params now with
    | none => panicked [.evmBlockParams params]
    | some (seq, data, ctx) =>
      match ctx.extraData crates, ctx.payloadAttributes.parentBeaconBlockRoot with
      | some extraData, some root =>
        goto (.sorting seq data) ctx [.evmBlockParams params,
          .gossip (.envV0 (.new ctx.blockEnv ctx.parentHash extraData root))]
      | _, _ => panicked [.evmBlockParams params]

/-- Give the transactions of an abandoned block back to the pools.
SRCLINE: sequencer/src/lib.rs:308-310 -/
def handBack : List SimulatedTx → SequencerContext S →
    Option (SequencerContext S × List SequencerToSimulator)
  | [], ctx => some (ctx, [])
  | t :: ts, ctx =>
    match ctx.handleTx crates t.tx with
    | none => none
    | some (ctx, requests) =>
      (handBack ts ctx).map fun (ctx, more) => (ctx, requests ++ more)

/-- SRCLINE: sequencer/src/lib.rs:242-317 -/
def handleForkChoiceUpdatedEngineApi (s : Sequencer S) (headBlockHash : Hash)
    (payloadAttributes : Option OpPayloadAttributes) (now : ℕ) : Handled S :=
  let ctx := s.ctx
  if ctx.db.headBlockHash ≠ headBlockHash then goto s.state ctx []
  else
    match s.state with
    | .waitingForForkChoiceWithAttributes | .waitingForNewPayload =>
      match payloadAttributes with
      | some attributes =>
        if ctx.parentHeader.parentHash = 0 then goto s.state ctx []
        else startSequencing crates ctx attributes now
      | none =>
        if headBlockHash ≠ ctx.db.headBlockHash then
          let number := ctx.db.headBlockNumber
          syncUntil number number (ctx.resetSharedState crates)
        else goto .waitingForForkChoiceWithAttributes ctx []
    | .sorting seq data =>
      if headBlockHash = ctx.db.headBlockHash then goto (.sorting seq data) ctx []
      else
        match handBack crates seq.txs ctx with
        | none => panicked []
        | some (ctx, requests) =>
          let start := ctx.db.headBlockNumber
          goto (.syncing (start + 1)) ctx
            (requests.map .simulate ++ [.blockFetch start (start + 1)])
    | .syncing last => goto (.syncing last) ctx []

/-- Commit the block that was just sealed, if the configuration says so.
SRCLINE: sequencer/src/lib.rs:355-366 -/
def commitSealed (ctx : SequencerContext S) (envelope : OpExecutionPayloadEnvelope)
    (sent : List Output) : Handled S :=
  if ctx.config.commitSealedFragsToDb then
    match payloadToBlock crates envelope.executionPayload [] envelope.parentBeaconBlockRoot with
    | none => panicked sent
    | some block =>
      match ctx.commitBlock crates block with
      | none => panicked sent
      | some (ctx, _) =>
        goto .waitingForForkChoiceWithAttributes (ctx.resetSharedState crates) sent
  else goto .waitingForNewPayload ctx sent

/-- SRCLINE: sequencer/src/lib.rs:319-370 -/
def handleGetPayloadEngineApi (s : Sequencer S) (now : ℕ) : Handled S :=
  match s.state with
  | .sorting seq data =>
    match s.ctx.sealLastFrag crates data seq now with
    | none => panicked []
    | some (frag, seq, ctx) =>
      match ctx.sealBlock crates seq with
      | none => panicked [.gossip (.fragV0 frag)]
      | some (sl, envelope, ctx) =>
        commitSealed crates ctx envelope
          [.gossip (.fragV0 frag), .gossip (.sealV0 sl), .payload envelope]
  | state => goto state s.ctx []

/-- SRCLINE: sequencer/src/lib.rs:155-181 -/
def handleEngineApi (s : Sequencer S) (now : ℕ) : EngineApi → Handled S
  | .newPayloadV3 payload versionedHashes root =>
    s.handleNewPayloadEngineApi crates payload versionedHashes root
  | .forkChoiceUpdatedV3 headBlockHash attributes =>
    s.handleForkChoiceUpdatedEngineApi crates headBlockHash attributes now
  | .getPayloadV3 => s.handleGetPayloadEngineApi crates now

/-! ## Blocks and transactions -/

/-- SRCLINE: sequencer/src/lib.rs:372-408 -/
def handleBlockSync (s : Sequencer S) (block : BlockWithSenders) : Handled S :=
  match s.state with
  | .syncing last =>
    match s.ctx.commitBlock crates block with
    | none => panicked []
    | some (ctx, some (start, stop)) => syncUntil start (max last stop) ctx
    | some (ctx, none) =>
      if block.header.number ≠ last then goto (.syncing last) ctx []
      else goto .waitingForNewPayload ctx []
  | .waitingForNewPayload | .waitingForForkChoiceWithAttributes =>
    match s.ctx.commitBlock crates block with
    | none => panicked []
    | some (ctx, _) => goto .waitingForNewPayload ctx []
  | .sorting seq data => goto (.sorting seq data) s.ctx []

/-- SRCLINE: sequencer/src/lib.rs:410-419 -/
def handleNewTx (s : Sequencer S) (tx : Transaction) : Handled S :=
  let state := match s.state with
    | .sorting seq data => .sorting seq { data with
        tofSnapshot := { current := none, pending := .fromTx tx } :: data.tofSnapshot }
    | state => state
  match s.ctx.handleTx crates tx with
  | none => panicked []
  | some (ctx, requests) => goto state ctx (requests.map .simulate)

/-! ## Simulations -/

/-- SRCLINE: sequencer/src/lib.rs:421-457 -/
def handleSimResult (s : Sequencer S) (result : SimulatorToSequencer) : Handled S :=
  match result.msg with
  | .tx simulatedTx =>
    match s.state with
    | .sorting seq data =>
      if !data.isValid result.stateId then goto s.state s.ctx []
      else
        match data.handleSim simulatedTx result.senderInfo.1 s.ctx.blockEnv.basefee with
        | none => panicked []
        | some data => goto (.sorting seq data) s.ctx []
    | state => goto state s.ctx []
  | .txPoolTopOfFrag simulatedTx =>
    let pool := match simulatedTx with
      | .ok res =>
        if s.ctx.sharedState.db.isValid result.stateId then s.ctx.txPool.handleSimulated res
        else some s.ctx.txPool
      | .error _ => s.ctx.txPool.remove result.senderInfo.1 result.senderInfo.2
    match pool with
    | none => panicked []
    | some pool => goto s.state { s.ctx with txPool := pool } []

/-- The head of the loop over the deposits: the next one is sent to be simulated, and when there is
none the next orders are.
SRCLINE: sequencer/src/lib.rs:486-497, sorting_data.rs:201-202 -/
def depositsOrOrders (seq : FragSequence) (data : SortingData) (ctx : SequencerContext S) :
    Handled S :=
  match ctx.deposits with
  | deposit :: rest =>
    { sent := [.simulate (data.request deposit)]
      next := some
        { state := .sorting seq data, ctx := { ctx with deposits := rest }, waiting := true } }
  | [] =>
    match data.sendNext ctx.config.nPerLoop with
    | none => panicked []
    | some (data, requests) => goto (.sorting seq data) ctx (requests.map .simulate)

/-- A message that comes while the result of a deposit is waited for.
SRCLINE: sorting_data.rs:205-227 -/
def receiveDeposit (s : Sequencer S) (result : SimulatorToSequencer) : Handled S :=
  match s.state with
  | .sorting seq data =>
    if !data.isValid result.stateId then { sent := [], next := some s }
    else
      match result.msg with
      | .tx (.ok res) =>
        let (data, ctx) := data.applyTx crates res s.ctx
        depositsOrOrders seq data ctx
      | _ => { sent := [], next := some s }
  | _ => { sent := [], next := some s }

/-- SRCLINE: sequencer/src/lib.rs:460-502 -/
def tick (s : Sequencer S) (now : ℕ) : Handled S :=
  match s.state with
  | .sorting seq data =>
    if data.shouldSealFrag now then
      match s.ctx.removeMinedTxs data.txs with
      | none => panicked []
      | some ctx =>
        match ctx.sealFrag crates data seq now with
        | none => panicked []
        | some (msg, data, seq, ctx) => goto (.sorting seq data) ctx [.gossip (.fragV0 msg)]
    else if data.shouldSendNextSims then
      match data.maybeApply crates s.ctx.blockEnv.basefee s.ctx with
      | none => panicked []
      | some (data, ctx) => depositsOrOrders seq data ctx
    else goto s.state s.ctx []
  | state => goto state s.ctx []

/-! ## Runs -/

/-- While the result of a deposit is waited for, nothing but results is received. -/
def takes (s : Sequencer S) : Event → Bool
  | .simResult _ => true
  | _ => !s.waiting

/-- SRCLINE: sequencer/src/lib.rs:79-116 -/
def handle (s : Sequencer S) : Event → Handled S
  | .blockSync block => s.handleBlockSync crates block
  | .newTx tx => s.handleNewTx crates tx
  | .simResult result =>
    if s.waiting then s.receiveDeposit crates result else s.handleSimResult result
  | .engineApi msg now => s.handleEngineApi crates now msg
  | .tick now => s.tick crates now

/-- A context that nothing has happened to; the shared state has drawn its id. The defaults of the
parent, the block and the attributes are replaced before a block is started.
SRCLINE: sequencer/src/context.rs:79-98 -/
def newContext (config : SequencerConfig) (db : SequencerDB S) : SequencerContext S where
  config := config
  db := db
  sharedState := .new (.fromDb (crates.rand 0))
  txPool := .empty
  deposits := []
  blockEnv :=
    { number := 0, coinbase := 0, timestamp := 1, gasLimit := UInt64.ofNat (2 ^ 64 - 1)
      basefee := 0, difficulty := 0, prevrandao := some 0, blobExcessGas := some 0 }
  baseFee := 0
  blockExecutor := .new
  parentHash := 0
  parentHeader :=
    { parentHash := 0, ommersHash := emptyOmmerRootHash, beneficiary := 0, stateRoot := 0
      transactionsRoot := 0, receiptsRoot := 0, withdrawalsRoot := none, logsBloom := 0
      difficulty := 0, number := 0, gasLimit := 0, gasUsed := 0, timestamp := 0, mixHash := 0
      nonce := 0, baseFeePerGas := none, blobGasUsed := none, excessBlobGas := none
      parentBeaconBlockRoot := none, requestsHash := none, extraData := [] }
  payloadAttributes :=
    { timestamp := 0, prevRandao := 0, suggestedFeeRecipient := 0, parentBeaconBlockRoot := none
      transactions := none, noTxPool := none, gasLimit := none, eip1559Params := none }
  draws := 1
  arcs := 0

/-- SRCLINE: sequencer/src/lib.rs:66-72 -/
def new (config : SequencerConfig) (db : SequencerDB S) : Sequencer S where
  state := .waitingForNewPayload
  ctx := newContext crates config db
  waiting := false

end Sequencer

/-- The process of the gateway: its sequencer, unless that has panicked, and all that
it has sent. -/
structure Process (S : Type) where
  sequencer : Option (Sequencer S)
  sent : List Output

/-- One event. -/
def processStep {S : Type} (crates : Crates S) (p : Process S) (e : Event) : Option (Process S) :=
  match p.sequencer with
  | none => none
  | some s =>
    if s.takes e then
      let h := s.handle crates e
      some { sequencer := h.next, sent := p.sent ++ h.sent }
    else none

/-! ## A gateway to run the definitions with -/

def plainSequencerConfig (commitSealedFragsToDb : Bool) : SequencerConfig where
  fragDuration := 10
  nPerLoop := 10
  simulateTofInPools := false
  commitSealedFragsToDb := commitSealedFragsToDb

/-- A payload with the hash of its header. -/
def plainPayload (number : UInt64) (parentHash : Hash) (timestamp : UInt64)
    (transactions : List Bytes) : ExecutionPayload :=
  let payload : ExecutionPayload :=
    { parentHash := parentHash
      feeRecipient := 0
      stateRoot := 0
      receiptsRoot := 0
      logsBloom := 0
      prevRandao := 0
      blockNumber := number
      gasLimit := 30000000
      gasUsed := 0
      timestamp := timestamp
      extraData := []
      baseFeePerGas := 1
      blockHash := 0
      transactions := transactions }
  { payload with blockHash := plainHashSlow (plainBlockHeader payload 0) }

def plainAttributes (timestamp : UInt64) (transactions : List Bytes) (noTxPool : Bool) :
    OpPayloadAttributes where
  timestamp := timestamp
  prevRandao := 0
  suggestedFeeRecipient := 0
  parentBeaconBlockRoot := some 0
  transactions := some transactions
  noTxPool := some noTxPool
  gasLimit := some 30000000
  eip1559Params := none

def plainPayload0 : ExecutionPayload := plainPayload 0 0 100 []

/-- A block that follows the genesis block. -/
def plainPayload1 : ExecutionPayload := plainPayload 1 plainPayload0.blockHash 101 []

/-- The block after it. -/
def plainPayload2 : ExecutionPayload := plainPayload 2 plainPayload1.blockHash 102 []

def plainPayload3 : ExecutionPayload := plainPayload 3 plainPayload2.blockHash 103 []

/-- The block of a payload without transactions. -/
def plainBlock (payload : ExecutionPayload) : BlockWithSenders where
  header := plainBlockHeader payload 0
  transactions := []
  senders := []

/-- A database that holds the genesis block. -/
def plainDB : SequencerDB ℕ where
  canonicalHeaders := [(0, plainPayload0.blockHash)]
  tables := 0

/-- A gateway over it that has not done anything yet. -/
def plainProcess (commitSealedFragsToDb : Bool) : Process ℕ where
  sequencer := some (.new plainCrates (plainSequencerConfig commitSealedFragsToDb) plainDB)
  sent := []

def newPayloadEvent (payload : ExecutionPayload) : Event :=
  .engineApi (.newPayloadV3 payload [] 0) 0

/-- A block is to be built on a head. -/
def startEvent (head : Hash) (attributes : OpPayloadAttributes) : Event :=
  .engineApi (.forkChoiceUpdatedV3 head (some attributes)) 0

/-- What a raw transaction is decoded to. -/
def plainRawTx (bytes : Bytes) : Transaction where
  tx := (plainDecode bytes).toOption.getD (.deposit ⟨0, 0, []⟩)
  sender := if bytes.head? = some 0x7e then 9 else 7
  envelope := bytes

/-- The result of a simulation that has gone well. -/
def plainResult (tx : Transaction) (stateId : UInt64) : SimulatorToSequencer where
  senderInfo := (tx.sender, tx.nonce)
  stateId := stateId
  msg := .tx (.ok
    { tx := tx
      resultAndState := { result := .success 21000 [], state := [] }
      payment := 1
      depositNonce := none })

end BasedOp.Model.Gateway
