import BasedOp.Analysis.BlockContents
import BasedOp.Analysis.FragReset
import Mathlib.Data.BitVec

/-!
# What a block adds up to

The gas that is left, the payment and the transactions of a block, in the frags that are
cut and in the one that is sorted. A block starts with its forced transactions, and while
it is built one transaction is added at a time or a frag is cut (`adds_of_step`). Only the
payments of the forced transactions are counted, so that the value of a sealed block is
that of all its transactions just when the others have paid nothing.
-/

set_option autoImplicit false

namespace BasedOp.Analysis.BlockTotals

open BasedOp.Computation Model Model.Gateway
open SequencerSteps SequencerFrames
open StateIds BlockContents
open GossipStream (blockTxs payloads)

variable {S : Type} {crates : Crates S} {s s' : Sequencer S}

/-! ## The forced transactions and the others -/

/-- How many transactions the attributes of the block force. -/
def forcedCount (s : Sequencer S) : ℕ := (s.ctx.payloadAttributes.transactions.getD []).length

/-- The transactions of the block that its attributes force. -/
def forced (s : Sequencer S) : List SimulatedTx := (blockTxs s).take (forcedCount s)

/-- The transactions of the block that came after them, from the pool or as deposits. -/
def added (s : Sequencer S) : List SimulatedTx := (blockTxs s).drop (forcedCount s)

/-- Forced transactions come first. -/
theorem forced_append_added (s : Sequencer S) : forced s ++ added s = blockTxs s :=
  List.take_append_drop _ _

variable {seq seq' : FragSequence} {data data' : SortingData} {e : Event} {ctx : SequencerContext S}
  {sent : List Output}

/-- While sorting, the frags and what is applied. -/
theorem blockTxs_eq (hstate : s.state = .sorting seq data) : blockTxs s = seq.txs ++ data.txs := by
  rw [blockTxs, hstate]

/-! ## What a step adds -/

/-- The totals of a frag that is sorted, and what is to be applied to it next. -/
structure SameTotals (data data' : SortingData) : Prop where
  gasRemaining : data'.gasRemaining = data.gasRemaining
  payment : data'.payment = data.payment
  txs : data'.txs = data.txs
  nextToBeApplied : data'.nextToBeApplied = data.nextToBeApplied

variable {requests : List SequencerToSimulator} {params : EvmBlockParams}
  {ctx' : SequencerContext S}

/-- Sending orders counts them and changes the list of orders, and nothing else. -/
theorem sameTotals_of_sendNextFrom {limit : UInt64} {i : ℕ}
    (h : data.sendNextFrom limit i = some (data', requests)) : SameTotals data data' := by
  induction i generalizing data requests with
  | zero =>
    rw [SortingData.sendNextFrom] at h
    split at h
    · split at h
      · cases h
      · split at h
        · obtain ⟨rfl, rfl⟩ := Prod.mk.inj (Option.some.inj h)
          exact ⟨rfl, rfl, rfl, rfl⟩
        · split at h
          · cases h
          · obtain ⟨rfl, rfl⟩ := Prod.mk.inj (Option.some.inj h)
            exact ⟨rfl, rfl, rfl, rfl⟩
    · obtain ⟨rfl, rfl⟩ := Prod.mk.inj (Option.some.inj h)
      exact ⟨rfl, rfl, rfl, rfl⟩
  | succ i ih =>
    rw [SortingData.sendNextFrom] at h
    split at h
    · split at h
      · cases h
      · split at h
        · have hrest := ih h
          exact ⟨hrest.gasRemaining, hrest.payment, hrest.txs, hrest.nextToBeApplied⟩
        · split at h
          · cases h
          · obtain ⟨⟨data₁, requests₁⟩, hrest, heq⟩ := Option.map_eq_some_iff.mp h
            obtain ⟨rfl, rfl⟩ := Prod.mk.inj heq
            have htotals := ih hrest
            exact ⟨htotals.gasRemaining, htotals.payment, htotals.txs, htotals.nextToBeApplied⟩
    · obtain ⟨rfl, rfl⟩ := Prod.mk.inj (Option.some.inj h)
      exact ⟨rfl, rfl, rfl, rfl⟩

/-- Sending orders changes no total. -/
theorem sameTotals_of_sendNext {limit : UInt64} (h : data.sendNext limit = some (data', requests)) :
    SameTotals data data' := by
  unfold SortingData.sendNext at h
  split at h
  · obtain ⟨rfl, rfl⟩ := Prod.mk.inj (Option.some.inj h)
    exact ⟨rfl, rfl, rfl, rfl⟩
  · exact sameTotals_of_sendNextFrom h

/-- A result that is taken in may be the next to be applied if there is gas left
for it, and more. -/
theorem totals_of_handleSim {simulatedTx : Except SimulationError SimulatedTx} {sender : Address}
    {baseFee : UInt64} (h : data.handleSim simulatedTx sender baseFee = some data') :
    data'.gasRemaining = data.gasRemaining ∧ data'.payment = data.payment ∧
      data'.txs = data.txs ∧ (data'.nextToBeApplied = data.nextToBeApplied ∨
        ∃ tx, data'.nextToBeApplied = some tx ∧ tx.gasUsed < data.gasRemaining) := by
  obtain ⟨orders, rfl | ⟨tx, -, hgas, rfl⟩⟩ := handleSim_cases h
  · exact ⟨rfl, rfl, rfl, .inl rfl⟩
  · exact ⟨rfl, rfl, rfl, .inr ⟨tx, rfl, hgas⟩⟩

/-- Why a transaction is added: it is the best result of a round, or that of the deposit
that is waited for. -/
def Chosen (s : Sequencer S) (data : SortingData) (e : Event) (tx : SimulatedTx) : Prop :=
  (s.waiting = false ∧ data.nextToBeApplied = some tx) ∨
    (s.waiting = true ∧ ∃ result, e = .simResult result ∧
      data.isValid result.stateId = true ∧ result.msg = .tx (.ok tx))

/-- What an event does to the totals of a block that is built: nothing, but that a result
may become the best of its round, a frag is cut, or a transaction is added. The payment of
a transaction that is added is not counted.
SRCLINE: sorting_data.rs:264-273 -/
inductive Adds (s : Sequencer S) (seq : FragSequence) (data : SortingData) (seq' : FragSequence)
    (data' : SortingData) (e : Event) : Prop
  | nothing (hseq : seq' = seq) (hgas : data'.gasRemaining = data.gasRemaining)
      (hpayment : data'.payment = data.payment) (htxs : data'.txs = data.txs)
      (hbest : data'.nextToBeApplied = data.nextToBeApplied ∨
        ∃ tx, data'.nextToBeApplied = some tx ∧ tx.gasUsed < data.gasRemaining)
  | frag (hseq : seq' = cutSeq seq data) (hgas : data'.gasRemaining = seq'.gasRemaining)
      (hpayment : data'.payment = 0) (htxs : data'.txs = []) (hbest : data'.nextToBeApplied = none)
  | tx (tx : SimulatedTx) (hchosen : Chosen s data e tx) (hseq : seq' = seq)
      (hgas : data'.gasRemaining = data.gasRemaining - tx.gasUsed)
      (hpayment : data'.payment = data.payment) (htxs : data'.txs = data.txs ++ [tx])
      (hbest : data'.nextToBeApplied = none ∨
        (s.waiting = true ∧ data'.nextToBeApplied = data.nextToBeApplied))

/-- An applied transaction is added. -/
theorem adds_of_applies {data₁ : SortingData} (h : Applies crates s e seq' data₁ ctx)
    (hstate : s.state = .sorting seq data) (htotals : SameTotals data₁ data') :
    Adds s seq data seq' data' e := by
  obtain ⟨hgas, hpayment, htxs, hnext⟩ := htotals
  cases h with
  | best now hstate' hwaiting hseal hflight happly =>
    rw [hstate] at hstate'
    cases hstate'
    unfold SortingData.maybeApply at happly
    split at happly
    · obtain ⟨rfl, rfl⟩ := Prod.mk.inj (Option.some.inj happly)
      exact .nothing rfl hgas hpayment htxs (.inl hnext)
    · rename_i tx hbest
      split at happly
      · cases happly
      · obtain ⟨rfl, rfl⟩ := Prod.mk.inj (Option.some.inj happly)
        exact .tx tx (.inl ⟨hwaiting, hbest⟩) rfl hgas hpayment htxs (.inl hnext)
  | deposit result tx hstate' hwaiting hvalid hmsg =>
    rw [hstate] at hstate'
    cases hstate'
    exact .tx tx (.inr ⟨hwaiting, result, rfl, hvalid, hmsg⟩) rfl hgas hpayment htxs
      (.inr ⟨hwaiting, hnext⟩)

/-- A block that is built changes in no other way. -/
theorem adds_of_step (h : Step crates s e sent s') (hstate : s.state = .sorting seq data)
    (hstate' : s'.state = .sorting seq' data') : Adds s seq data seq' data' e := by
  cases fragStep_of_step h with
  | leaves hleaves => exact absurd hstate' (hleaves _ _)
  | starts attributes now hawaits =>
    exact absurd hstate (ne_sorting_of_awaits hawaits _ _)
  | cuts now hcut hwaiting hmined hcuts =>
    cases hstate'
    rw [hstate] at hcut
    cases hcut
    obtain ⟨ctx₁, ctx₂, -, -, -, -, -, -, -, hnew⟩ := hcuts.sorted
    obtain ⟨rfl, -⟩ := Prod.mk.inj hnew
    exact .frag hcuts.seq_eq rfl rfl rfl rfl
  | keeps hkeeps hdata =>
    cases hstate'
    rw [hstate] at hkeeps
    cases hkeeps
    obtain rfl | ⟨tx, -, rfl⟩ := hdata <;> exact .nothing rfl rfl rfl rfl (.inl rfl)
  | takes result htakes hwaiting hvalid hmsg hsim =>
    cases hstate'
    rw [hstate] at htakes
    cases htakes
    obtain ⟨hgas, hpayment, htxs, hbest⟩ := totals_of_handleSim hsim
    exact .nothing rfl hgas hpayment htxs hbest
  | orders happlies hdeposits hsend =>
    cases hstate'
    exact adds_of_applies happlies hstate (sameTotals_of_sendNext hsend)
  | deposit happlies =>
    cases hstate'
    exact adds_of_applies happlies hstate ⟨rfl, rfl, rfl, rfl⟩

/-- The transactions of a block that is built stay, but for the states that they
were executed to, and others come after them. -/
theorem blockTxs_of_step (h : Step crates s e sent s') (hstate : s.state = .sorting seq data)
    (hstate' : s'.state = .sorting seq' data') :
    ∃ txs : List SimulatedTx, (blockTxs s').map DBFrag.takeState =
      (blockTxs s).map DBFrag.takeState ++ txs.map DBFrag.takeState := by
  rw [blockTxs_eq hstate, blockTxs_eq hstate']
  cases adds_of_step h hstate hstate' with
  | nothing hseq hgas hpayment htxs => exact ⟨[], by rw [hseq, htxs]; simp⟩
  | frag hseq hgas hpayment htxs =>
    refine ⟨[], ?_⟩
    rw [hseq, htxs]
    simp [cutSeq, DBFrag.takeState, Function.comp_def]
  | tx tx hchosen hseq hgas hpayment htxs =>
    exact ⟨[tx], by rw [hseq, htxs]; simp⟩

/-- A block that is built stays one on the same parent, with the same attributes
and in the same environment. -/
theorem sameBlock_of_step (h : Step crates s e sent s') (hstate : s.state = .sorting seq data)
    (hstate' : s'.state = .sorting seq' data') : SameBlock s.ctx s'.ctx := by
  obtain ⟨-, hsame, -⟩ | ⟨attributes, now, params, -, hawaits, -⟩ :=
    (fragStep_of_step h).block hstate'
  · exact hsame
  · exact absurd hstate (ne_sorting_of_awaits hawaits _ _)

/-- The forced transactions stay the first ones of the block. -/
theorem forced_of_step (h : Step crates s e sent s') (hstate : s.state = .sorting seq data)
    (hstate' : s'.state = .sorting seq' data') (hcount : forcedCount s ≤ (blockTxs s).length) :
    forcedCount s' ≤ (blockTxs s').length ∧
      (forced s').map DBFrag.takeState = (forced s).map DBFrag.takeState := by
  obtain ⟨txs, htxs⟩ := blockTxs_of_step h hstate hstate'
  have hforced : forcedCount s' = forcedCount s := by
    rw [forcedCount, (sameBlock_of_step h hstate hstate').payloadAttributes, forcedCount]
  have hlength : (blockTxs s').length = (blockTxs s).length + txs.length := by
    simpa using congrArg List.length htxs
  refine ⟨by omega, ?_⟩
  rw [forced, forced, List.map_take, List.map_take, htxs, hforced,
    List.take_append_of_le_length (by simpa using hcount)]

/-! ## How a block starts -/

/-- The loop over the forced transactions takes their gas from what is left, and
counts their payments. -/
theorem totals_of_applyForcedTxs {regolithActive : Bool} {bytes : List Bytes}
    (h : SequencerContext.applyForcedTxs crates params regolithActive bytes data ctx =
      some (data', ctx')) :
    ∃ txs, txs.length = bytes.length ∧ data'.txs = data.txs ++ txs ∧
      data'.gasRemaining = data.gasRemaining - sumGasUsed txs ∧
      data'.payment = data.payment + (txs.map SimulatedTx.payment).sum ∧
      data'.nextToBeApplied = data.nextToBeApplied := by
  induction bytes generalizing data ctx with
  | nil =>
    obtain ⟨rfl, -⟩ := Prod.mk.inj (Option.some.inj h)
    exact ⟨[], rfl, by simp, by simp [sumGasUsed], by simp, rfl⟩
  | cons first rest ih =>
    obtain ⟨tx, t, loads, -, -, hrest⟩ := applyForcedTxs_cons h
    obtain ⟨txs, hlength, htxs, hgas, hpayment, hnext⟩ := ih hrest
    refine ⟨DBFrag.takeState t :: txs, by simp [hlength], by simp [htxs], ?_, ?_, hnext⟩
    · rw [hgas]
      show data.gasRemaining - t.gasUsed - sumGasUsed txs =
        data.gasRemaining - (t.gasUsed + sumGasUsed txs)
      grind
    · rw [hpayment]
      show data.payment + t.payment + (txs.map SimulatedTx.payment).sum =
        data.payment + (t.payment + (txs.map SimulatedTx.payment).sum)
      rw [add_assoc]

/-- The totals of a block that was just started, all of whose transactions are forced. -/
structure StartTotals (gasLimit : UInt64) (forcedCount : ℕ) (seq : FragSequence)
    (data : SortingData) : Prop where
  seqGas : seq.gasRemaining = gasLimit
  seqUsed : seq.gasUsed = 0
  seqPayment : seq.payment = 0
  seqTxs : seq.txs = []
  count : data.txs.length = forcedCount
  gas : data.gasRemaining = gasLimit - sumGasUsed data.txs
  payment : data.payment = (data.txs.map SimulatedTx.payment).sum
  nextToBeApplied : data.nextToBeApplied = none

/-- The totals at the start of a block. -/
theorem startTotals_of_startWith {now : ℕ}
    (h : ctx.startWith crates params now = some (seq, data, ctx')) :
    StartTotals ctx'.blockEnv.gasLimit (ctx'.payloadAttributes.transactions.getD []).length
      seq data := by
  have hstarts := starts_of_startWith h
  obtain ⟨ctx₁, ctx₂, -, hforced, -⟩ := hstarts.forced
  obtain ⟨txs, hlength, htxs, hgas, hpayment, hnext⟩ := totals_of_applyForcedTxs hforced
  have hdata : data.txs = txs := by simpa [SortingData.new] using htxs
  rw [hstarts.same.blockEnv, hstarts.same.payloadAttributes]
  subst hdata
  have hseq := hstarts.seq_eq
  exact
    { seqGas := by rw [hseq]; rfl
      seqUsed := by rw [hseq]; rfl
      seqPayment := by rw [hseq]; rfl
      seqTxs := by rw [hseq]; rfl
      count := hlength
      gas := by rw [hgas, hseq]; rfl
      payment := by rw [hpayment]; simp [SortingData.new]
      nextToBeApplied := hnext }

/-- A block that is sorted after a step was so before, or was just started. -/
theorem startTotals_of_step (h : Step crates s e sent s')
    (hstate' : s'.state = .sorting seq' data') :
    (∃ seq data, s.state = .sorting seq data) ∨
      StartTotals s'.ctx.blockEnv.gasLimit (forcedCount s') seq' data' := by
  obtain ⟨hstate, -, -⟩ | ⟨attributes, now, params, -, -, -, -, hstart, -⟩ :=
    (fragStep_of_step h).block hstate'
  · exact .inl hstate
  · exact .inr (startTotals_of_startWith hstart)

/-- All transactions of a block that was just started are forced. -/
theorem StartTotals.forced_eq {gasLimit : UInt64}
    (h : StartTotals gasLimit (forcedCount s) seq data) (hstate : s.state = .sorting seq data) :
    forcedCount s ≤ (blockTxs s).length ∧ forced s = data.txs := by
  have htxs : blockTxs s = data.txs := by
    rw [blockTxs_eq hstate, h.seqTxs, List.nil_append]
  refine ⟨by rw [htxs, h.count], ?_⟩
  rw [forced, htxs, ← h.count, List.take_length]

/-! ## The value of a block -/

/-- What transactions have paid, added up as words. -/
def paymentTotal (txs : List SimulatedTx) : U256 := (txs.map SimulatedTx.payment).sum

/-- Payments add up. -/
theorem paymentTotal_append (xs ys : List SimulatedTx) :
    paymentTotal (xs ++ ys) = paymentTotal xs + paymentTotal ys := by
  rw [paymentTotal, List.map_append, List.sum_append]
  rfl

/-- Taking the state keeps the payments. -/
theorem paymentTotal_map_takeState (txs : List SimulatedTx) :
    paymentTotal (txs.map DBFrag.takeState) = paymentTotal txs := by
  simp only [paymentTotal, List.map_map]
  rfl

/-- What is counted as the payment of the block is that of its forced transactions. -/
def CountsForced (s : Sequencer S) : Prop :=
  ∀ seq data, s.state = .sorting seq data →
    forcedCount s ≤ (blockTxs s).length ∧ seq.payment + data.payment = paymentTotal (forced s)

/-- The forced transactions stay counted. -/
theorem countsForced_step (h : Step crates s e sent s') (hcounts : CountsForced s) :
    CountsForced s' := by
  intro seq' data' hstate'
  obtain ⟨seq, data, hstate⟩ | hstarts := startTotals_of_step h hstate'
  · obtain ⟨hcount, hpaid⟩ := hcounts seq data hstate
    obtain ⟨hcount', hforced⟩ := forced_of_step h hstate hstate' hcount
    refine ⟨hcount', ?_⟩
    rw [← paymentTotal_map_takeState (forced s'), hforced, paymentTotal_map_takeState, ← hpaid]
    cases adds_of_step h hstate hstate' with
    | nothing hseq hgas hpayment => rw [hseq, hpayment]
    | frag hseq hgas hpayment =>
      rw [hseq, hpayment, add_zero]
      rfl
    | tx tx hchosen hseq hgas hpayment => rw [hseq, hpayment]
  · obtain ⟨hcount, hforced⟩ := hstarts.forced_eq hstate'
    refine ⟨hcount, ?_⟩
    rw [hforced, hstarts.seqPayment, hstarts.payment, zero_add]
    rfl

/-- What a payload says of the totals of its block. -/
theorem totals_of_payload {envelope : OpExecutionPayloadEnvelope} (htakes : s.takes e = true)
    (hpayload : .payload envelope ∈ (s.handle crates e).sent) :
    ∃ seq data, s.state = .sorting seq data ∧
      envelope.blockValue = seq.payment + data.payment ∧
      envelope.executionPayload.gasUsed = seq.gasUsed + sumGasUsed data.txs ∧
      envelope.executionPayload.gasLimit = s.ctx.blockEnv.gasLimit ∧
      envelope.executionPayload.receiptsRoot = crates.orderedTrieRootReceipts
        (FragSequence.receiptsFrom crates (crates.isCanyonActive s.ctx.blockEnv.timestamp) 0
          (seq.txs ++ data.txs.map DBFrag.takeState)) := by
  obtain ⟨now, seq, data, frag, sl, ctx', -, hseals⟩ := seals_of_payload htakes hpayload
  obtain ⟨seq', ctx, hlast, hsealed⟩ := hseals.hsealed
  obtain ⟨msg, data', -, hcuts⟩ := cuts_of_sealLastFrag hlast
  refine ⟨seq, data, hseals.hstate, ?_⟩
  unfold SequencerContext.sealBlock at hsealed
  dsimp only at hsealed
  split at hsealed
  · simp only [Option.some.injEq, Prod.mk.injEq] at hsealed
    obtain ⟨-, rfl, -⟩ := hsealed
    rw [hcuts.seq_eq, ← hcuts.same.blockEnv]
    exact ⟨rfl, rfl, rfl, rfl⟩
  · cases hsealed

/-- The value of a block is what all its transactions have paid if and only if
those that were not forced have paid nothing.
SRCLINE: sequencer/src/context.rs:294-312, sorting_data.rs:264-273,336-339,
frag_sequence.rs:45-49 -/
theorem blockValue_eq_iff {config : SequencerConfig} {db : SequencerDB S} {events : List Event}
    {p : Process S} {e : Event} {envelope : OpExecutionPayloadEnvelope}
    (hrun : runSteps (processStep crates) ⟨some (.new crates config db), []⟩ events = some p)
    (hs : p.sequencer = some s) (htakes : s.takes e = true)
    (hpayload : .payload envelope ∈ (s.handle crates e).sent) :
    envelope.blockValue = paymentTotal (blockTxs s) ↔ paymentTotal (added s) = 0 := by
  have hinv : ∀ s ∈ p.sequencer, CountsForced s := by
    refine runSteps_induction (I := fun p => ∀ s ∈ p.sequencer, CountsForced s) ?_ ?_ hrun
    · intro p e p' hinv hstep s' hs'
      obtain ⟨s, sent, hs, hcase⟩ := step_of_processStep hstep hs'
      exact countsForced_step hcase (hinv s hs)
    · rintro _ ⟨⟩ seq data hstate
      cases hstate
  obtain ⟨seq, data, hstate, hvalue, -⟩ := totals_of_payload htakes hpayload
  obtain ⟨-, hpaid⟩ := hinv s hs seq data hstate
  rw [hvalue, hpaid, ← forced_append_added s, paymentTotal_append, left_eq_add]

/-- What is to be known of a sequencer that is asked for its block. -/
structure ValueView where
  taken : Bool
  values : List U256
  paid : List U256
  paidAdded : U256
  deriving DecidableEq

def valueView (crates : Crates ℕ) (s : Sequencer ℕ) : ValueView where
  taken := s.takes (.engineApi .getPayloadV3 14)
  values := (payloads (s.handle crates (.engineApi .getPayloadV3 14)).sent).map (·.blockValue)
  paid := (blockTxs s).map SimulatedTx.payment
  paidAdded := paymentTotal (added s)

/-- Every transaction pays five to the coinbase. -/
def payingCrates : Crates ℕ :=
  { plainCrates with
    transact := fun params database tx =>
      let coinbase := params.env.coinbase
      let balance := ((database.basic coinbase).map (·.balance)).getD 0
      let t := plainCrates.transact params database tx
      { t with
        result := t.result.map fun r =>
          { r with
            state := (coinbase,
              { info := ⟨balance + 5, 0, 0, none⟩
                storage := []
                isTouched := true
                isCreated := false
                isSelfdestructed := false }) :: r.state } } }

/-- A block of one transaction that pays. -/
theorem blockValue_eq_forcedOnly :
    ∃ p s envelope, runSteps (processStep payingCrates)
        ⟨some (.new payingCrates (plainSequencerConfig false) plainDB), []⟩
        FragReset.builtBlock.dropLast = some p ∧
      p.sequencer = some s ∧
      .payload envelope ∈ (s.handle payingCrates (.engineApi .getPayloadV3 14)).sent ∧
      (blockTxs s).map SimulatedTx.payment = [5] ∧
      envelope.blockValue = paymentTotal (blockTxs s) := by
  have hview : ((runSteps (processStep payingCrates)
      ⟨some (.new payingCrates (plainSequencerConfig false) plainDB), []⟩
      FragReset.builtBlock.dropLast).bind (·.sequencer.map (valueView payingCrates))) =
        some ⟨true, [5], [5], 0⟩ := by
    decide +kernel
  obtain ⟨p, hrun, hp⟩ := Option.bind_eq_some_iff.mp hview
  obtain ⟨s, hs, heq⟩ := Option.map_eq_some_iff.mp hp
  obtain ⟨htakes, hvalues, hpaid, hadded⟩ := ValueView.mk.inj heq
  obtain ⟨envelope, hpayload, -⟩ := GossipStream.exists_payload_of_map hvalues
  refine ⟨p, s, envelope, hrun, hs, hpayload, hpaid, ?_⟩
  exact (blockValue_eq_iff hrun hs htakes hpayload).mpr hadded

/-- A transaction of a user that has paid one is in the block, and the value of the block
is nothing.
SRCLINE: sorting_data.rs:264-273 -/
theorem blockValue_ne_userTx :
    ∃ p s envelope, runSteps (processStep plainCrates) (plainProcess false)
        GossipStream.oneBlock.dropLast = some p ∧
      p.sequencer = some s ∧ s.takes (.engineApi .getPayloadV3 14) = true ∧
      .payload envelope ∈ (s.handle plainCrates (.engineApi .getPayloadV3 14)).sent ∧
      envelope.blockValue = 0 ∧ (blockTxs s).map SimulatedTx.payment = [0, 1] ∧
      envelope.blockValue ≠ paymentTotal (blockTxs s) := by
  have hview : ((runSteps (processStep plainCrates) (plainProcess false)
      GossipStream.oneBlock.dropLast).bind (·.sequencer.map (valueView plainCrates))) =
        some ⟨true, [0], [0, 1], 1⟩ := by
    decide +kernel
  obtain ⟨p, hrun, hp⟩ := Option.bind_eq_some_iff.mp hview
  obtain ⟨s, hs, heq⟩ := Option.map_eq_some_iff.mp hp
  obtain ⟨htakes, hvalues, hpaid, -⟩ := ValueView.mk.inj heq
  obtain ⟨envelope, hpayload, hvalue⟩ := GossipStream.exists_payload_of_map hvalues
  refine ⟨p, s, envelope, hrun, hs, htakes, hpayload, hvalue, hpaid, ?_⟩
  rw [hvalue, paymentTotal, hpaid]
  decide

end BasedOp.Analysis.BlockTotals
