import BasedOp.Model.SequencerState

/-!
# What one event does to the sequencer

`Step` lists what the sequencer can do on an event, with the guards of each case, and
`handles_of_takes` says that the handlers do nothing else. What is proved of every run of
the sequencer goes through the cases of this relation. A step that panics has no state
after it, but may have sent something: `Panics`.
-/

set_option autoImplicit false

namespace BasedOp.Analysis.SequencerSteps

open Model Model.Gateway

/-- The states in which a block may be started. -/
def awaits : SequencerState → Bool
  | .waitingForNewPayload | .waitingForForkChoiceWithAttributes => true
  | _ => false

variable {state : SequencerState} {e : Event} {sent : List Output}

/-- A waiting sequencer does not sort. -/
theorem ne_sorting_of_awaits (h : awaits state = true) (seq : FragSequence) (data : SortingData) :
    state ≠ .sorting seq data := by
  rintro rfl
  cases h

/-- A transaction that arrives while a frag is sorted joins the orders that are left.
SRCLINE: sequencer/src/lib.rs:412-418 -/
def addOrder (tx : Transaction) : SequencerState → SequencerState
  | .sorting seq data => .sorting seq { data with
      tofSnapshot := { current := none, pending := .fromTx tx } :: data.tofSnapshot }
  | state => state

/-- Where the sequencer goes after a block of the sync.
SRCLINE: sequencer/src/lib.rs:379-396 -/
def afterSync (last number : UInt64) : Option (UInt64 × UInt64) → SequencerState
  | some (_, stop) => .syncing (max last stop)
  | none => if number ≠ last then .syncing last else .waitingForNewPayload

/-- Nor does one after a payload. -/
theorem state_fetch_ne_sorting (fetch : Option (UInt64 × UInt64)) (seq : FragSequence)
    (data : SortingData) :
    (fetch.elim .waitingForForkChoiceWithAttributes fun r => .syncing r.2 : SequencerState) ≠
      .sorting seq data := by
  cases fetch <;> simp

/-- Nor one after a synced block. -/
theorem afterSync_ne_sorting (last number : UInt64) (fetch : Option (UInt64 × UInt64))
    (seq : FragSequence) (data : SortingData) : afterSync last number fetch ≠ .sorting seq data := by
  unfold afterSync
  split
  · simp
  · split <;> simp

section

variable {S : Type} (crates : Crates S)

/-- The events that change nothing: blocks while a block is built; results that the sequencer does
not wait for, or no longer; payloads and fork choices that come at the wrong time; a request for a
payload when there is none; and ticks when there is nothing to do. -/
def Ignores (s : Sequencer S) : Event → Prop
  | .blockSync _ => ∃ seq data, s.state = .sorting seq data
  | .newTx _ => False
  | .simResult result =>
    (∀ seq data, s.state = .sorting seq data → data.isValid result.stateId = true →
      ∀ tx, result.msg ≠ .tx (.ok tx)) ∧
    (s.waiting = false →
      (∀ seq data, s.state = .sorting seq data → data.isValid result.stateId = true →
        ∀ tx, result.msg ≠ .tx tx) ∧
      (s.ctx.sharedState.db.isValid result.stateId = true →
        ∀ tx, result.msg ≠ .txPoolTopOfFrag (.ok tx)) ∧
      ∀ err, result.msg ≠ .txPoolTopOfFrag (.error err))
  | .engineApi (.newPayloadV3 _ _ _) _ => awaits s.state = false
  | .engineApi (.forkChoiceUpdatedV3 head _) _ =>
    s.ctx.db.headBlockHash ≠ head ∨ awaits s.state = false ∨ s.ctx.parentHeader.parentHash = 0
  | .engineApi .getPayloadV3 _ => ∀ seq data, s.state ≠ .sorting seq data
  | .tick now => ∀ seq data, s.state = .sorting seq data →
    data.shouldSealFrag now = false ∧ data.shouldSendNextSims = false

/-- The frag that is being sorted, once the best result was applied to it: that of the
round on a tick, or that of the deposit that was waited for. -/
inductive Applies (s : Sequencer S) :
    Event → FragSequence → SortingData → SequencerContext S → Prop
  | best {seq : FragSequence} {data data' : SortingData} {ctx : SequencerContext S} (now : ℕ)
      (hstate : s.state = .sorting seq data) (hwaiting : s.waiting = false)
      (hseal : data.shouldSealFrag now = false) (hflight : data.shouldSendNextSims = true)
      (happly : data.maybeApply crates s.ctx.blockEnv.basefee s.ctx = some (data', ctx)) :
      Applies s (.tick now) seq data' ctx
  | deposit {seq : FragSequence} {data : SortingData} (result : SimulatorToSequencer)
      (tx : SimulatedTx) (hstate : s.state = .sorting seq data) (hwaiting : s.waiting = true)
      (hvalid : data.isValid result.stateId = true) (hmsg : result.msg = .tx (.ok tx)) :
      Applies s (.simResult result) seq (data.applyTx crates tx s.ctx).1
        (data.applyTx crates tx s.ctx).2

/-- A block was sealed: its last frag, its seal and its payload. -/
structure Seals (s : Sequencer S) (now : ℕ) (seq : FragSequence) (data : SortingData)
    (frag : FragV0) (sl : SealV0) (envelope : OpExecutionPayloadEnvelope)
    (ctx' : SequencerContext S) : Prop where
  hstate : s.state = .sorting seq data
  hsealed : ∃ seq' ctx, s.ctx.sealLastFrag crates data seq now = some (frag, seq', ctx) ∧
    ctx.sealBlock crates seq' = some (sl, envelope, ctx')

/-- What the sequencer can do on an event, what it sends then, and what it becomes. -/
inductive Step (s : Sequencer S) : Event → List Output → Sequencer S → Prop
  | ignored (e : Event) (hignores : Ignores s e) : Step s e [] s
  | fetch (payload : ExecutionPayload) (hashes : List Hash) (root : Hash) (now : ℕ)
      (hstate : ∀ seq data, s.state ≠ .sorting seq data)
      (hahead : payload.blockNumber > s.ctx.db.headBlockNumber + 1) :
      Step s (.engineApi (.newPayloadV3 payload hashes root) now)
        [.blockFetch (s.ctx.db.headBlockNumber + 1) payload.blockNumber]
        ⟨.syncing payload.blockNumber, s.ctx, false⟩
  | known (payload : ExecutionPayload) (hashes : List Hash) (root : Hash) (now : ℕ)
      (hstate : awaits s.state = true)
      (hahead : ¬ payload.blockNumber > s.ctx.db.headBlockNumber + 1)
      (hhead : payload.blockHash = s.ctx.db.headBlockHash) :
      Step s (.engineApi (.newPayloadV3 payload hashes root) now) []
        ⟨.waitingForForkChoiceWithAttributes, s.ctx.resetSharedState crates, false⟩
  | newPayload (payload : ExecutionPayload) (hashes : List Hash) (root : Hash) (now : ℕ)
      {block : BlockWithSenders} {ctx : SequencerContext S} {fetch : Option (UInt64 × UInt64)}
      (hstate : awaits s.state = true)
      (hahead : ¬ payload.blockNumber > s.ctx.db.headBlockNumber + 1)
      (hhead : payload.blockHash ≠ s.ctx.db.headBlockHash)
      (hblock : payloadToBlock crates payload hashes root = some block)
      (hcommit : { s.ctx.resetSharedState crates with
          parentHeader := block.header, parentHash := payload.blockHash }.commitBlock crates block =
        some (ctx, fetch)) :
      Step s (.engineApi (.newPayloadV3 payload hashes root) now)
        (fetch.toList.map fun r => .blockFetch r.1 r.2)
        ⟨fetch.elim .waitingForForkChoiceWithAttributes fun r => .syncing r.2, ctx, false⟩
  | noAttributes (now : ℕ) (hstate : awaits s.state = true) :
      Step s (.engineApi (.forkChoiceUpdatedV3 s.ctx.db.headBlockHash none) now) []
        ⟨.waitingForForkChoiceWithAttributes, s.ctx, false⟩
  | start (attributes : OpPayloadAttributes) (now : ℕ) {params : EvmBlockParams}
      {seq : FragSequence} {data : SortingData} {ctx : SequencerContext S} {extraData : Bytes}
      {root : Hash} (hstate : awaits s.state = true)
      (hparent : s.ctx.parentHeader.parentHash ≠ 0)
      (hparams : { s.ctx with payloadAttributes := attributes }.newBlockParams crates = some params)
      (hstart : { s.ctx with payloadAttributes := attributes }.startWith crates params now =
        some (seq, data, ctx))
      (hextra : ctx.extraData crates = some extraData)
      (hroot : ctx.payloadAttributes.parentBeaconBlockRoot = some root) :
      Step s (.engineApi (.forkChoiceUpdatedV3 s.ctx.db.headBlockHash (some attributes)) now)
        [.evmBlockParams params,
          .gossip (.envV0 (.new ctx.blockEnv ctx.parentHash extraData root))]
        ⟨.sorting seq data, ctx, false⟩
  | sealed (now : ℕ) {seq : FragSequence} {data : SortingData} {frag : FragV0} {sl : SealV0}
      {envelope : OpExecutionPayloadEnvelope} {ctx : SequencerContext S}
      (hseals : Seals crates s now seq data frag sl envelope ctx)
      (hkeep : ctx.config.commitSealedFragsToDb = false) :
      Step s (.engineApi .getPayloadV3 now)
        [.gossip (.fragV0 frag), .gossip (.sealV0 sl), .payload envelope]
        ⟨.waitingForNewPayload, ctx, false⟩
  | committed (now : ℕ) {seq : FragSequence} {data : SortingData} {frag : FragV0} {sl : SealV0}
      {envelope : OpExecutionPayloadEnvelope} {ctx ctx' : SequencerContext S}
      {block : BlockWithSenders} {fetch : Option (UInt64 × UInt64)}
      (hseals : Seals crates s now seq data frag sl envelope ctx)
      (hconfig : ctx.config.commitSealedFragsToDb = true)
      (hblock : payloadToBlock crates envelope.executionPayload []
        envelope.parentBeaconBlockRoot = some block)
      (hcommit : ctx.commitBlock crates block = some (ctx', fetch)) :
      Step s (.engineApi .getPayloadV3 now)
        [.gossip (.fragV0 frag), .gossip (.sealV0 sl), .payload envelope]
        ⟨.waitingForForkChoiceWithAttributes, ctx'.resetSharedState crates, false⟩
  | synced (block : BlockWithSenders) {last : UInt64} {ctx : SequencerContext S}
      {fetch : Option (UInt64 × UInt64)} (hstate : s.state = .syncing last)
      (hcommit : s.ctx.commitBlock crates block = some (ctx, fetch)) :
      Step s (.blockSync block) (fetch.toList.map fun r => .blockFetch r.1 (max last r.2))
        ⟨afterSync last block.header.number fetch, ctx, false⟩
  | imported (block : BlockWithSenders) {ctx : SequencerContext S}
      {fetch : Option (UInt64 × UInt64)} (hstate : awaits s.state = true)
      (hcommit : s.ctx.commitBlock crates block = some (ctx, fetch)) :
      Step s (.blockSync block) [] ⟨.waitingForNewPayload, ctx, false⟩
  | newTx (tx : Transaction) {ctx : SequencerContext S} {requests : List SequencerToSimulator}
      (hwaiting : s.waiting = false)
      (htx : s.ctx.handleTx crates tx = some (ctx, requests)) :
      Step s (.newTx tx) (requests.map .simulate) ⟨addOrder tx s.state, ctx, false⟩
  | simulated (result : SimulatorToSequencer) {simulatedTx : Except SimulationError SimulatedTx}
      {seq : FragSequence} {data data' : SortingData} (hstate : s.state = .sorting seq data)
      (hwaiting : s.waiting = false) (hvalid : data.isValid result.stateId = true)
      (hmsg : result.msg = .tx simulatedTx)
      (hsim : data.handleSim simulatedTx result.senderInfo.1 s.ctx.blockEnv.basefee = some data') :
      Step s (.simResult result) [] ⟨.sorting seq data', s.ctx, false⟩
  | topOfFrag (result : SimulatorToSequencer) {simulatedTx : SimulatedTx} {pool : TxPool}
      (hwaiting : s.waiting = false) (hmsg : result.msg = .txPoolTopOfFrag (.ok simulatedTx))
      (hvalid : s.ctx.sharedState.db.isValid result.stateId = true)
      (hpool : s.ctx.txPool.handleSimulated simulatedTx = some pool) :
      Step s (.simResult result) [] ⟨s.state, { s.ctx with txPool := pool }, false⟩
  | topOfFragFailed (result : SimulatorToSequencer) {err : SimulationError} {pool : TxPool}
      (hwaiting : s.waiting = false) (hmsg : result.msg = .txPoolTopOfFrag (.error err))
      (hpool : s.ctx.txPool.remove result.senderInfo.1 result.senderInfo.2 = some pool) :
      Step s (.simResult result) [] ⟨s.state, { s.ctx with txPool := pool }, false⟩
  | cut (now : ℕ) {seq seq' : FragSequence} {data data' : SortingData} {frag : FragV0}
      {ctx ctx' : SequencerContext S} (hstate : s.state = .sorting seq data)
      (hwaiting : s.waiting = false) (hseal : data.shouldSealFrag now = true)
      (hmined : s.ctx.removeMinedTxs data.txs = some ctx)
      (hfrag : ctx.sealFrag crates data seq now = some (frag, data', seq', ctx')) :
      Step s (.tick now) [.gossip (.fragV0 frag)] ⟨.sorting seq' data', ctx', false⟩
  | orders {e : Event} {seq : FragSequence} {data data' : SortingData} {ctx : SequencerContext S}
      {requests : List SequencerToSimulator} (happlies : Applies crates s e seq data ctx)
      (hdeposits : ctx.deposits = [])
      (hsend : data.sendNext ctx.config.nPerLoop = some (data', requests)) :
      Step s e (requests.map .simulate) ⟨.sorting seq data', ctx, false⟩
  | deposit {e : Event} {seq : FragSequence} {data : SortingData} {ctx : SequencerContext S}
      {deposit : Transaction} {rest : List Transaction} (happlies : Applies crates s e seq data ctx)
      (hdeposits : ctx.deposits = deposit :: rest) :
      Step s e [.simulate (data.request deposit)]
        ⟨.sorting seq data, { ctx with deposits := rest }, true⟩

/-- What the sequencer can have sent on an event on which it panics. -/
inductive Panics (s : Sequencer S) : Event → List Output → Prop
  | silent (e : Event) : Panics s e []
  | starting (head : Hash) (attributes : OpPayloadAttributes) (now : ℕ) (params : EvmBlockParams)
      (hstate : awaits s.state = true) :
      Panics s (.engineApi (.forkChoiceUpdatedV3 head (some attributes)) now)
        [.evmBlockParams params]
  | sealing (now : ℕ) {seq seq' : FragSequence} {data : SortingData} {frag : FragV0}
      {ctx : SequencerContext S} (hstate : s.state = .sorting seq data)
      (hlast : s.ctx.sealLastFrag crates data seq now = some (frag, seq', ctx))
      (hnone : ctx.sealBlock crates seq' = none) :
      Panics s (.engineApi .getPayloadV3 now) [.gossip (.fragV0 frag)]
  | committing (now : ℕ) {seq : FragSequence} {data : SortingData} {frag : FragV0} {sl : SealV0}
      {envelope : OpExecutionPayloadEnvelope} {ctx : SequencerContext S}
      (hseals : Seals crates s now seq data frag sl envelope ctx) :
      Panics s (.engineApi .getPayloadV3 now)
        [.gossip (.fragV0 frag), .gossip (.sealV0 sl), .payload envelope]

/-- The event makes the sequencer start a block.
SRCLINE: sequencer/src/lib.rs:252-284 -/
def StartsBlock (s : Sequencer S) (e : Event) : Prop :=
  ∃ attributes now,
    e = .engineApi (.forkChoiceUpdatedV3 s.ctx.db.headBlockHash (some attributes)) now ∧
      awaits s.state = true ∧ s.ctx.parentHeader.parentHash ≠ 0

/-! ## The handlers do nothing else -/

/-- What was sent and reached on an event is one of the cases. -/
structure Handles (s : Sequencer S) (e : Event) (h : Handled S) : Prop where
  step : ∀ s', h.next = some s' → Step crates s e h.sent s'
  panics : h.next = none → Panics crates s e h.sent

variable {crates} {s : Sequencer S}

/-- A panic is an outcome of handling. -/
theorem handles_panicked (hpanics : Panics crates s e sent) :
    Handles crates s e (Sequencer.panicked sent) where
  step := fun _ hnext => nomatch hnext
  panics := fun _ => hpanics

/-- So is a step. -/
theorem handles_some {s' : Sequencer S} (hstep : Step crates s e sent s') :
    Handles crates s e { sent := sent, next := some s' } where
  step := fun _ hnext => Option.some.inj hnext ▸ hstep
  panics := fun hnext => nomatch hnext

variable {ctx : SequencerContext S}

/-- So is a step to the given state. -/
theorem handles_goto (hstep : Step crates s e sent ⟨state, ctx, false⟩) :
    Handles crates s e (Sequencer.goto state ctx sent) :=
  handles_some hstep

/-- An event that is ignored. -/
theorem handles_keep (hignores : Ignores s e) (hwaiting : s.waiting = false)
    (hstate : s.state = state) :
    Handles crates s e (Sequencer.goto state s.ctx []) := by
  apply handles_goto
  rw [← hstate, ← hwaiting]
  exact .ignored e hignores

/-- A payload that comes in while a new block is waited for. -/
theorem handles_applyPayload {payload : ExecutionPayload} {hashes : List Hash} {root : Hash}
    (now : ℕ) (hstate : awaits s.state = true)
    (hahead : ¬ payload.blockNumber > s.ctx.db.headBlockNumber + 1) :
    Handles crates s (.engineApi (.newPayloadV3 payload hashes root) now)
      (Sequencer.applyPayload crates s.ctx payload hashes root) := by
  unfold Sequencer.applyPayload
  dsimp only
  split
  · rename_i hhead
    exact handles_goto (.known payload hashes root now hstate hahead hhead)
  · rename_i hhead
    split
    · exact handles_panicked (.silent _)
    · rename_i block hblock
      split
      · exact handles_panicked (.silent _)
      all_goals
        rename_i hcommit
        exact handles_goto (.newPayload payload hashes root now hstate hahead hhead hblock hcommit)

/-- A new payload. -/
theorem handles_newPayload (payload : ExecutionPayload) (hashes : List Hash) (root : Hash)
    (now : ℕ) (hwaiting : s.waiting = false) :
    Handles crates s (.engineApi (.newPayloadV3 payload hashes root) now)
      (s.handleNewPayloadEngineApi crates payload hashes root) := by
  unfold Sequencer.handleNewPayloadEngineApi
  dsimp only
  split
  · rename_i hstate
    exact handles_keep (by simp [Ignores, hstate, awaits]) hwaiting hstate
  · rename_i hstate
    split
    · rename_i hahead
      exact handles_goto (.fetch payload hashes root now (by simp [hstate]) hahead)
    · exact handles_keep (by simp [Ignores, hstate, awaits]) hwaiting hstate
  all_goals
    rename_i hstate
    split
    · rename_i hahead
      exact handles_goto (.fetch payload hashes root now (by simp [hstate]) hahead)
    · rename_i hahead
      exact handles_applyPayload now (by simp [hstate, awaits]) hahead

/-- The start of a block. -/
theorem handles_startSequencing (attributes : OpPayloadAttributes) (now : ℕ)
    (hstate : awaits s.state = true) (hparent : s.ctx.parentHeader.parentHash ≠ 0) :
    Handles crates s
      (.engineApi (.forkChoiceUpdatedV3 s.ctx.db.headBlockHash (some attributes)) now)
      (Sequencer.startSequencing crates s.ctx attributes now) := by
  unfold Sequencer.startSequencing
  dsimp only
  split
  · exact handles_panicked (.silent _)
  · rename_i params hparams
    have hstarting : Panics crates s
        (.engineApi (.forkChoiceUpdatedV3 s.ctx.db.headBlockHash (some attributes)) now)
        [.evmBlockParams params] := .starting s.ctx.db.headBlockHash attributes now params hstate
    have hpanics := handles_panicked hstarting
    split
    · exact hpanics
    · rename_i hstart
      split
      · rename_i hextra hroot
        exact handles_goto (.start attributes now hstate hparent hparams hstart hextra hroot)
      · exact hpanics

/-- A fork choice. The head that it names is that of the database or it is
ignored, so that the branches for another head are never taken. -/
theorem handles_forkChoiceUpdated (head : Hash) (attributes : Option OpPayloadAttributes)
    (now : ℕ) (hwaiting : s.waiting = false) :
    Handles crates s (.engineApi (.forkChoiceUpdatedV3 head attributes) now)
      (s.handleForkChoiceUpdatedEngineApi crates head attributes now) := by
  unfold Sequencer.handleForkChoiceUpdatedEngineApi
  dsimp only
  by_cases hhead : s.ctx.db.headBlockHash = head
  · subst hhead
    simp only [ne_eq, not_true_eq_false, if_false, if_true]
    split
    case h_3 seq data hstate =>
      refine handles_keep ?_ hwaiting hstate
      exact .inr (.inl (by simp [hstate, awaits]))
    case h_4 last hstate =>
      refine handles_keep ?_ hwaiting hstate
      exact .inr (.inl (by simp [hstate, awaits]))
    all_goals
      rename_i hstate
      split
      · rename_i attributes
        split
        · rename_i hparent
          refine handles_keep ?_ hwaiting rfl
          exact .inr (.inr hparent)
        · rename_i hparent
          exact handles_startSequencing attributes now (by simp [hstate, awaits]) hparent
      · exact handles_goto (.noAttributes now (by simp [hstate, awaits]))
  · rw [if_pos hhead]
    refine handles_keep ?_ hwaiting rfl
    exact .inl hhead

/-- A request for the payload. -/
theorem handles_getPayload (now : ℕ) (hwaiting : s.waiting = false) :
    Handles crates s (.engineApi .getPayloadV3 now) (s.handleGetPayloadEngineApi crates now) := by
  unfold Sequencer.handleGetPayloadEngineApi
  split
  · rename_i seq data hstate
    split
    · exact handles_panicked (.silent _)
    · rename_i frag seq' ctx hlast
      split
      · rename_i hnone
        exact handles_panicked (.sealing now hstate hlast hnone)
      · rename_i sl envelope ctx' hsealed
        have hseals : Seals crates s now seq data frag sl envelope ctx' :=
          ⟨hstate, seq', ctx, hlast, hsealed⟩
        unfold Sequencer.commitSealed
        split
        · rename_i hconfig
          split
          · exact handles_panicked (.committing now hseals)
          · rename_i block hblock
            split
            · exact handles_panicked (.committing now hseals)
            · rename_i hcommit
              exact handles_goto (.committed now hseals hconfig hblock hcommit)
        · rename_i hconfig
          exact handles_goto (.sealed now hseals (by simpa using hconfig))
  · rename_i hstate
    refine handles_keep ?_ hwaiting rfl
    exact hstate

/-- A block from the sync. -/
theorem handles_blockSync (block : BlockWithSenders) (hwaiting : s.waiting = false) :
    Handles crates s (.blockSync block) (s.handleBlockSync crates block) := by
  unfold Sequencer.handleBlockSync
  split
  case h_1 last hstate =>
    split
    · exact handles_panicked (.silent _)
    · rename_i hcommit
      exact handles_goto (.synced block hstate hcommit)
    · rename_i ctx hcommit
      have hstep := Step.synced block hstate hcommit
      unfold afterSync at hstep
      split <;> rename_i hnumber
      · rw [if_pos hnumber] at hstep
        exact handles_goto hstep
      · rw [if_neg hnumber] at hstep
        exact handles_goto hstep
  case h_4 seq data hstate =>
    refine handles_keep ?_ hwaiting hstate
    exact ⟨seq, data, hstate⟩
  all_goals
    rename_i hstate
    split
    · exact handles_panicked (.silent _)
    · rename_i hcommit
      exact handles_goto (.imported block (by simp [hstate, awaits]) hcommit)

/-- A transaction. -/
theorem handles_newTx (tx : Transaction) (hwaiting : s.waiting = false) :
    Handles crates s (.newTx tx) (s.handleNewTx crates tx) := by
  unfold Sequencer.handleNewTx
  dsimp only
  split
  · exact handles_panicked (.silent _)
  · rename_i htx
    have hstep := Step.newTx tx hwaiting htx
    unfold addOrder at hstep
    exact handles_goto hstep

/-- The result of a simulation. -/
theorem handles_simResult (result : SimulatorToSequencer) (hwaiting : s.waiting = false) :
    Handles crates s (.simResult result) (s.handleSimResult result) := by
  unfold Sequencer.handleSimResult
  split
  · rename_i simulatedTx hmsg
    have hkeep (hstate : ∀ seq data, s.state = .sorting seq data →
        data.isValid result.stateId = false) : Ignores s (.simResult result) := by
      refine ⟨fun seq data hs hvalid => ?_, fun _ => ⟨fun seq data hs hvalid => ?_, ?_, ?_⟩⟩
      · simp [hstate seq data hs] at hvalid
      · simp [hstate seq data hs] at hvalid
      · simp [hmsg]
      · simp [hmsg]
    split
    · rename_i seq data hstate
      split
      · rename_i hinvalid
        refine handles_keep (hkeep ?_) hwaiting rfl
        intro seq' data' hs
        obtain ⟨rfl, rfl⟩ := SequencerState.sorting.inj (hstate.symm.trans hs)
        simpa using hinvalid
      · rename_i hvalid
        split
        · exact handles_panicked (.silent _)
        · rename_i data' hsim
          exact handles_goto (.simulated result hstate hwaiting (by simpa using hvalid) hmsg hsim)
    · rename_i hstate
      exact handles_keep (hkeep fun seq data hs => absurd hs (hstate seq data)) hwaiting rfl
  · rename_i simulatedTx hmsg
    dsimp only
    split
    · exact handles_panicked (.silent _)
    · rename_i pool hpool
      split at hpool
      · rename_i res
        split at hpool
        · rename_i hvalid
          exact handles_goto (.topOfFrag result hwaiting hmsg hvalid hpool)
        · rename_i hvalid
          obtain rfl := Option.some.inj hpool
          refine handles_keep ?_ hwaiting rfl
          refine ⟨?_, fun _ => ⟨?_, ?_, ?_⟩⟩
          · simp [hmsg]
          · simp [hmsg]
          · exact fun hv => absurd hv hvalid
          · simp [hmsg]
      · exact handles_goto (.topOfFragFailed result hwaiting hmsg hpool)

/-- The head of the loop over the deposits. -/
theorem handles_depositsOrOrders {seq : FragSequence} {data : SortingData}
    (happlies : Applies crates s e seq data ctx) :
    Handles crates s e (Sequencer.depositsOrOrders seq data ctx) := by
  unfold Sequencer.depositsOrOrders
  split
  · rename_i deposit rest hdeposits
    exact handles_some (.deposit happlies hdeposits)
  · rename_i hdeposits
    split
    · exact handles_panicked (.silent _)
    · rename_i hsend
      exact handles_goto (.orders happlies hdeposits hsend)

/-- A result while a deposit is waited for. -/
theorem handles_receiveDeposit (result : SimulatorToSequencer) (hwaiting : s.waiting = true) :
    Handles crates s (.simResult result) (s.receiveDeposit crates result) := by
  have hkeep (h : ∀ seq data, s.state = .sorting seq data → data.isValid result.stateId = true →
      ∀ tx, result.msg ≠ .tx (.ok tx)) :
      Handles crates s (.simResult result) { sent := [], next := some s } :=
    handles_some (.ignored _ ⟨h, fun hw => by simp [hwaiting] at hw⟩)
  unfold Sequencer.receiveDeposit
  split
  · rename_i seq data hstate
    split
    · rename_i hinvalid
      apply hkeep
      intro seq' data' hs hvalid
      obtain ⟨rfl, rfl⟩ := SequencerState.sorting.inj (hstate.symm.trans hs)
      simp [hvalid] at hinvalid
    · rename_i hvalid
      split
      · rename_i res hmsg
        exact handles_depositsOrOrders
          (.deposit result res hstate hwaiting (by simpa using hvalid) hmsg)
      · rename_i hmsg
        exact hkeep fun _ _ _ _ => hmsg
  · rename_i hstate
    exact hkeep fun seq data hs => absurd hs (hstate seq data)

/-- A tick. -/
theorem handles_tick (now : ℕ) (hwaiting : s.waiting = false) :
    Handles crates s (.tick now) (s.tick crates now) := by
  unfold Sequencer.tick
  split
  · rename_i seq data hstate
    split
    · rename_i hseal
      split
      · exact handles_panicked (.silent _)
      · rename_i hmined
        split
        · exact handles_panicked (.silent _)
        · rename_i hfrag
          exact handles_goto (.cut now hstate hwaiting hseal hmined hfrag)
    · rename_i hseal
      split
      · rename_i hflight
        split
        · exact handles_panicked (.silent _)
        · rename_i happly
          exact handles_depositsOrOrders
            (.best now hstate hwaiting (by simpa using hseal) hflight happly)
      · rename_i hflight
        refine handles_keep ?_ hwaiting rfl
        intro seq' data' hs
        obtain ⟨rfl, rfl⟩ := SequencerState.sorting.inj (hstate.symm.trans hs)
        exact ⟨by simpa using hseal, by simpa using hflight⟩
  · rename_i hstate
    refine handles_keep ?_ hwaiting rfl
    exact fun seq data hs => absurd hs (hstate seq data)

/-- What an event that is taken does is one of the cases. -/
theorem handles_of_takes (htakes : s.takes e = true) : Handles crates s e (s.handle crates e) := by
  cases e with
  | blockSync block => exact handles_blockSync block (by simpa [Sequencer.takes] using htakes)
  | newTx tx => exact handles_newTx tx (by simpa [Sequencer.takes] using htakes)
  | simResult result =>
    unfold Sequencer.handle
    dsimp only
    split
    · rename_i hwaiting
      exact handles_receiveDeposit result hwaiting
    · rename_i hwaiting
      exact handles_simResult result (by simpa using hwaiting)
  | engineApi msg now =>
    have hwaiting : s.waiting = false := by simpa [Sequencer.takes] using htakes
    cases msg with
    | newPayloadV3 payload hashes root => exact handles_newPayload payload hashes root now hwaiting
    | forkChoiceUpdatedV3 head attributes =>
      exact handles_forkChoiceUpdated head attributes now hwaiting
    | getPayloadV3 => exact handles_getPayload now hwaiting
  | tick now => exact handles_tick now (by simpa [Sequencer.takes] using htakes)

/-- A step of the process handles the event. -/
theorem processStep_eq_some {p p' : Process S} :
    processStep crates p e = some p' ↔ ∃ s, p.sequencer = some s ∧ s.takes e = true ∧
      p' = { sequencer := (s.handle crates e).next, sent := p.sent ++ (s.handle crates e).sent } := by
  unfold processStep
  cases hs : p.sequencer with
  | none => simp
  | some s =>
    cases htakes : s.takes e with
    | false => simp [htakes]
    | true => simp only [if_true, Option.some.injEq, exists_eq_left', htakes, true_and, eq_comm]

/-- A step of a process that has not panicked in it. -/
theorem step_of_processStep {p p' : Process S} {s' : Sequencer S}
    (h : processStep crates p e = some p') (hs' : p'.sequencer = some s') :
    ∃ s sent, p.sequencer = some s ∧ Step crates s e sent s' := by
  obtain ⟨s, hs, htakes, rfl⟩ := processStep_eq_some.mp h
  exact ⟨s, _, hs, (handles_of_takes htakes).step s' hs'⟩

end

end BasedOp.Analysis.SequencerSteps
