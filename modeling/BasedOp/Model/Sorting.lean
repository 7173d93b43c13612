import BasedOp.Model.BlockSync

/-!
# Sorting transactions into frags

The orders that are left to be sorted, the frag that is being sorted, and the sequence of
the frags of a block (crates/sequencer/src/sorting), with the simulation of one
transaction (crates/sequencer/src/simulator.rs). `none` is a panic; what is sent to the
simulators is returned.
-/

set_option autoImplicit false

namespace BasedOp.Model.Gateway

/-! ## The context of the sequencer -/

/-- SRCLINE: sequencer/src/config.rs:5-15 -/
structure SequencerConfig where
  fragDuration : ℕ
  nPerLoop : UInt64
  simulateTofInPools : Bool
  commitSealedFragsToDb : Bool

/-- What the sequencer keeps across its states; `draws` counts the random numbers that
were drawn and `arcs` the states for sorting that were made.
SRCLINE: sequencer/src/context.rs:61-76 -/
structure SequencerContext (S : Type) where
  config : SequencerConfig
  db : SequencerDB S
  sharedState : SharedState
  txPool : TxPool
  deposits : List Transaction
  blockEnv : BlockEnv
  baseFee : UInt64
  blockExecutor : BlockSync
  parentHash : Hash
  parentHeader : Header
  payloadAttributes : OpPayloadAttributes
  draws : ℕ
  arcs : ℕ

namespace SequencerContext

variable {S : Type} (crates : Crates S)

/-- What is read through the shared state.
SRCLINE: frag.rs:84-102 -/
def fragView (ctx : SequencerContext S) : DbView :=
  ctx.sharedState.db.db.view (ctx.db.view crates)

/-- The next random number. -/
def nextRand (ctx : SequencerContext S) : UInt64 := crates.rand ctx.draws

/-- SRCLINE: sequencer/src/context.rs:124-126 -/
def gasLimit (ctx : SequencerContext S) : Option UInt64 := ctx.payloadAttributes.gasLimit

def getNonce (ctx : SequencerContext S) : Address → UInt64 :=
  ctx.sharedState.db.getNonce (ctx.db.view crates)

end SequencerContext

/-! ## The orders that are left -/

/-- The last place at which something holds. -/
def lastIdx? {α : Type} (p : α → Bool) (xs : List α) : Option ℕ :=
  (xs.reverse.findIdx? p).map fun j => xs.length - 1 - j

/-- `ActiveOrders`.
SRCLINE: sorting/mod.rs:15-18 -/
abbrev ActiveOrders := List SimulatedTxList

namespace ActiveOrders

/-- SRCLINE: sorting/mod.rs:21-27 -/
def new {S : Type} (crates : Crates S) (orders : List SimulatedTxList) : ActiveOrders :=
  (crates.sortUnstable (orders.map SimulatedTxList.weight)).filterMap fun i => orders[i]?

/-- SRCLINE: sorting/mod.rs:37-55 -/
def removeFromSender (orders : ActiveOrders) (sender : Address) (baseFee : UInt64) :
    Option ActiveOrders :=
  if orders.isEmpty then some orders
  else
    match lastIdx? (fun order => order.sender == sender) orders with
    | none => none
    | some i =>
      match orders[i]? with
      | none => none
      | some order =>
        match order.pop baseFee with
        | (true, order) => some (swapRemove (orders.set i order) i)
        | (false, order) => some (orders.set i order)

/-- SRCLINE: sorting/mod.rs:57-72 -/
def put (orders : ActiveOrders) (tx : SimulatedTx) : ActiveOrders :=
  match lastIdx? (fun order => order.sender == tx.sender) orders with
  | some i => orders.modify i fun order => order.put tx
  | none =>
    let id := (orders.findIdx? fun order => tx.payment < order.payment).getD orders.length
    orders.insertIdx id (.fromSimulated tx)

/-- SRCLINE: sorting/mod.rs:74-77 -/
def notEnoughGas (order : SimulatedTxList) (gasRemaining : UInt64) : Bool :=
  match order.gasLimit with
  | none => true
  | some gas => gasRemaining < gas

end ActiveOrders

/-! ## One simulation -/

/-- SRCLINE: messages.rs:302-317 -/
inductive SequencerToSimulator where
  | simulateTx (tx : Transaction) (arc : ℕ) (stateId : UInt64)
  | simulateTxTof (tx : Transaction) (stateId : UInt64)
deriving DecidableEq

namespace SequencerToSimulator

def tx : SequencerToSimulator → Transaction
  | simulateTx tx _ _ => tx
  | simulateTxTof tx _ => tx

def stateId : SequencerToSimulator → UInt64
  | simulateTx _ _ id => id
  | simulateTxTof _ id => id

end SequencerToSimulator

section

variable {S : Type} (crates : Crates S)

/-- SRCLINE: simulator.rs:83-118 -/
def simulateTxInner (params : EvmBlockParams) (database : DbView) (tx : Transaction)
    (regolithActive allowZeroPayment allowRevert : Bool) :
    Except SimulationError SimulatedTx × List Load :=
  let coinbase := params.env.coinbase
  let startBalance := ((database.basic coinbase).map (·.balance)).getD 0
  let readsNonce := tx.isDeposit && regolithActive
  let depositNonce := if readsNonce then
      some (((database.basic tx.sender).map (·.nonce)).getD 0) else none
  let t := crates.transact params database tx
  let loads := .basic coinbase :: ((if readsNonce then [.basic tx.sender] else []) ++ t.loads)
  match t.result with
  | .error err => (.error (.evmError err), loads)
  | .ok resultAndState =>
    if !allowRevert && !resultAndState.result.isSuccess then
      (.error .revertWithDisallowedRevert, loads)
    else
      let endBalance := match resultAndState.state.find? fun a => a.1 == coinbase with
        | some (_, account) => account.info.balance
        | none => 0
      let payment := if endBalance < startBalance then 0 else endBalance - startBalance
      if !allowZeroPayment && payment == 0 then (.error .zeroPayment, loads)
      else (.ok { tx, resultAndState, payment, depositNonce }, loads)

namespace SimulatedTx

/-- SRCLINE: simulated/transaction.rs:49-71 -/
def receipt (t : SimulatedTx) (cumulativeGasUsed : UInt64) (canyonActive : Bool) :
    ReceiptWithBloom :=
  let logs := t.resultAndState.result.logs
  { receipt :=
      { txType := t.tx.tx.txType
        status := t.resultAndState.result.isSuccess
        cumulativeGasUsed := cumulativeGasUsed
        logs := logs
        depositNonce := if t.tx.isDeposit then t.depositNonce else none
        depositReceiptVersion := if t.tx.isDeposit && canyonActive then some 1 else none }
    logsBloom := crates.logsBloom logs }

/-- SRCLINE: simulated/transaction.rs:73-137 -/
def opTxReceipt (t : SimulatedTx) (cumulativeGasUsed blockNumber blockTimestamp baseFee txId : UInt64) :
    OpTransactionReceipt :=
  let logs := t.resultAndState.result.logs
  { txType := t.tx.tx.txType
    status := true
    cumulativeGasUsed := cumulativeGasUsed
    logs := logs.mapIdx fun i log =>
      { inner := log
        blockNumber := blockNumber
        blockTimestamp := blockTimestamp
        transactionHash := crates.txHash t.tx.tx
        transactionIndex := txId
        logIndex := UInt64.ofNat i }
    logsBloom := crates.logsBloom logs
    depositNonce := if t.tx.isDeposit then t.depositNonce else none
    depositReceiptVersion := none
    transactionHash := crates.txHash t.tx.tx
    transactionIndex := txId
    blockNumber := blockNumber
    gasUsed := t.gasUsed
    effectiveGasPrice := t.tx.tx.effectiveGasPrice baseFee
    sender := t.sender }

end SimulatedTx

/-! ## The sequence of frags -/

/-- SRCLINE: frag_sequence.rs:10-25 -/
structure FragSequence where
  gasRemaining : UInt64
  gasUsed : UInt64
  payment : U256
  txs : List SimulatedTx
  nextSeq : UInt64
  blockNumber : UInt64
  blockTimestamp : UInt64

/-- SRCLINE: frag_sequence.rs:27-39 -/
def FragSequence.new (gasRemaining blockNumber blockTimestamp : UInt64) : FragSequence where
  gasRemaining := gasRemaining
  gasUsed := 0
  payment := 0
  txs := []
  nextSeq := 0
  blockNumber := blockNumber
  blockTimestamp := blockTimestamp

/-- The frag that is being sorted.
SRCLINE: sorting_data.rs:74-102 -/
structure SortingData where
  db : DBSorting
  gasRemaining : UInt64
  payment : U256
  txs : List SimulatedTx
  untilTime : ℕ
  inFlightSims : UInt64
  tofSnapshot : ActiveOrders
  nextToBeApplied : Option SimulatedTx

/-- The gas that transactions have used, added up as words. -/
def sumGasUsed (txs : List SimulatedTx) : UInt64 := (txs.map SimulatedTx.gasUsed).sum

namespace FragSequence

/-- Take one transaction of a sorted frag in, with its receipt.
SRCLINE: frag_sequence.rs:51-62 -/
def push (baseFee : UInt64) (acc : FragSequence × SharedState) (tx : SimulatedTx) :
    FragSequence × SharedState :=
  let (seq, shared) := acc
  let gasUsed := seq.gasUsed + tx.gasUsed
  let receipt := tx.opTxReceipt crates gasUsed seq.blockNumber seq.blockTimestamp baseFee
    (UInt64.ofNat seq.txs.length)
  ({ seq with gasUsed, txs := seq.txs ++ [tx] }, shared.insertConfirmedTx crates tx.tx.tx receipt)

/-- SRCLINE: frag_sequence.rs:45-67 -/
def applySortedFrag (seq : FragSequence) (inSort : SortingData) (ctx : SequencerContext S) :
    FragV0 × FragSequence × SequencerContext S :=
  let msg := FragV0.new seq.blockNumber seq.nextSeq (inSort.txs.map (·.tx)) false
  let seq := { seq with
    gasRemaining := seq.gasRemaining - sumGasUsed inSort.txs
    payment := seq.payment + inSort.payment }
  let (seq, shared) := inSort.txs.foldl (push crates ctx.blockEnv.basefee) (seq, ctx.sharedState)
  (msg, { seq with nextSeq := seq.nextSeq + 1 }, { ctx with sharedState := shared })

/-- The receipts of transactions, after the gas used before them. -/
def receiptsFrom (canyonActive : Bool) : UInt64 → List SimulatedTx → List ReceiptWithBloom
  | _, [] => []
  | gasUsed, t :: ts =>
    let gasUsed := gasUsed + t.gasUsed
    t.receipt crates gasUsed canyonActive :: receiptsFrom canyonActive gasUsed ts

/-- SRCLINE: frag_sequence.rs:69-93 -/
def encodedTxsRootsBloom (seq : FragSequence) (canyonActive : Bool) :
    List Bytes × Hash × Hash × Bloom :=
  let receipts := receiptsFrom crates canyonActive 0 seq.txs
  let transactions := seq.txs.map fun t => t.tx.encode
  let logsBloom := receipts.foldl (fun bloom r => bloom ||| r.logsBloom) 0
  (transactions, crates.orderedTrieRootTransactions transactions,
    crates.orderedTrieRootReceipts receipts, logsBloom)

end FragSequence

/-! ## The frag that is being sorted -/

namespace SortingData

/-- SRCLINE: sorting_data.rs:105-129 -/
def new (seq : FragSequence) (ctx : SequencerContext S) (now : ℕ) :
    SortingData × SequencerContext S :=
  let tofSnapshot := if ctx.payloadAttributes.noTxPool.getD false then []
    else ActiveOrders.new crates ctx.txPool.activeTxs.txs
  let db := DBSorting.new ctx.arcs (ctx.nextRand crates)
  let state := db.db.ensureCreate2Deployer crates ctx.blockEnv.timestamp (ctx.fragView crates)
  ({ db := { db with db := state }
     gasRemaining := seq.gasRemaining
     payment := 0
     txs := []
     untilTime := now + ctx.config.fragDuration
     inFlightSims := 0
     tofSnapshot := tofSnapshot
     nextToBeApplied := none },
    { ctx with draws := ctx.draws + 1, arcs := ctx.arcs + 1 })

/-- SRCLINE: sorting_data.rs:143-145 -/
def isValid (data : SortingData) (stateId : UInt64) : Bool := stateId == data.db.stateId

/-- SRCLINE: sorting_data.rs:147-183 -/
def handleSim (data : SortingData) (simulatedTx : Except SimulationError SimulatedTx)
    (sender : Address) (baseFee : UInt64) : Option SortingData :=
  let data := { data with inFlightSims := data.inFlightSims - 1 }
  let drop := (data.tofSnapshot.removeFromSender sender baseFee).map fun orders =>
    { data with tofSnapshot := orders }
  match simulatedTx with
  | .error _ => drop
  | .ok tx =>
    if data.gasRemaining < tx.gasUsed then drop
    else if tx.gasUsed < data.gasRemaining &&
        data.nextToBeApplied.all (fun t => t.payment < tx.payment) then
      let data := { data with
        nextToBeApplied := some tx
        tofSnapshot := match data.nextToBeApplied with
          | none => data.tofSnapshot
          | some old => data.tofSnapshot.put old }
      some data
    else some { data with tofSnapshot := data.tofSnapshot.put tx }

/-- SRCLINE: sorting_data.rs:185-187 -/
def shouldSealFrag (data : SortingData) (now : ℕ) : Bool := !data.txs.isEmpty && data.untilTime < now

/-- SRCLINE: sorting_data.rs:189-191 -/
def shouldSendNextSims (data : SortingData) : Bool := data.inFlightSims == 0

/-- SRCLINE: sorting_data.rs:264-273 -/
def applyTx (data : SortingData) (tx : SimulatedTx) (ctx : SequencerContext S) :
    SortingData × SequencerContext S :=
  ({ data with
     db := data.db.commitRef crates (ctx.fragView crates) tx.resultAndState.state
       (ctx.nextRand crates)
     gasRemaining := data.gasRemaining - tx.gasUsed
     txs := data.txs ++ [tx] },
    { ctx with draws := ctx.draws + 1 })

/-- SRCLINE: sorting_data.rs:275-280 -/
def maybeApply (data : SortingData) (baseFee : UInt64) (ctx : SequencerContext S) :
    Option (SortingData × SequencerContext S) :=
  match data.nextToBeApplied with
  | none => some (data, ctx)
  | some tx =>
    match data.tofSnapshot.removeFromSender tx.sender baseFee with
    | none => none
    | some orders => some (applyTx crates
        { data with nextToBeApplied := none, tofSnapshot := orders } tx ctx)

/-- A request for a simulation on the frag that is being sorted. -/
def request (data : SortingData) (tx : Transaction) : SequencerToSimulator :=
  .simulateTx tx data.db.arc data.db.stateId

/-- The loop of `sendNext`, from the order at a place down to the first.
SRCLINE: sorting_data.rs:236-256 -/
def sendNextFrom (nSimsPerLoop : UInt64) :
    ℕ → SortingData → Option (SortingData × List SequencerToSimulator)
  | i, data =>
    if data.inFlightSims < nSimsPerLoop then
      match data.tofSnapshot[i]? with
      | none => none
      | some order =>
        if ActiveOrders.notEnoughGas order data.gasRemaining then
          let data := { data with tofSnapshot := swapRemove data.tofSnapshot i }
          match i with
          | 0 => some (data, [])
          | i + 1 => sendNextFrom nSimsPerLoop i data
        else
          match order.nextToSim with
          | (none, _) => none
          | (some tx, order) =>
            let request := data.request tx
            let data := { data with
              tofSnapshot := data.tofSnapshot.set i order
              inFlightSims := data.inFlightSims + 1 }
            match i with
            | 0 => some (data, [request])
            | i + 1 => (sendNextFrom nSimsPerLoop i data).map fun (data, requests) =>
                (data, request :: requests)
    else some (data, [])

/-- SRCLINE: sorting_data.rs:231-257 -/
def sendNext (data : SortingData) (nSimsPerLoop : UInt64) :
    Option (SortingData × List SequencerToSimulator) :=
  if data.tofSnapshot.length = 0 then some (data, [])
  else sendNextFrom nSimsPerLoop (data.tofSnapshot.length - 1) data

end SortingData

end

end BasedOp.Model.Gateway
