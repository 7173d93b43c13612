import BasedOp.Analysis.SequencerSteps

/-!
# What starting and cutting leave alone

A block that is being built keeps its environment, its parent and its attributes
(`SameBlock`) while frags are sorted, cut and sealed. Each function of the context has
one lemma here that says what it keeps and what it adds to the sequence of frags.
-/

set_option autoImplicit false

namespace BasedOp.Analysis.SequencerFrames

open Model Model.Gateway SequencerSteps

variable {S : Type} {crates : Crates S}

/-- Two contexts of one block over one database. -/
structure SameBlock (ctx ctx' : SequencerContext S) : Prop where
  config : ctx'.config = ctx.config
  db : ctx'.db = ctx.db
  blockEnv : ctx'.blockEnv = ctx.blockEnv
  blockExecutor : ctx'.blockExecutor = ctx.blockExecutor
  parentHash : ctx'.parentHash = ctx.parentHash
  parentHeader : ctx'.parentHeader = ctx.parentHeader
  payloadAttributes : ctx'.payloadAttributes = ctx.payloadAttributes

/-- A context has the same block as itself. -/
theorem SameBlock.refl (ctx : SequencerContext S) : SameBlock ctx ctx :=
  ⟨rfl, rfl, rfl, rfl, rfl, rfl, rfl⟩

/-- Two changes that keep the block. -/
theorem SameBlock.trans {a b c : SequencerContext S} (hab : SameBlock a b) (hbc : SameBlock b c) :
    SameBlock a c where
  config := hbc.config.trans hab.config
  db := hbc.db.trans hab.db
  blockEnv := hbc.blockEnv.trans hab.blockEnv
  blockExecutor := hbc.blockExecutor.trans hab.blockExecutor
  parentHash := hbc.parentHash.trans hab.parentHash
  parentHeader := hbc.parentHeader.trans hab.parentHeader
  payloadAttributes := hbc.payloadAttributes.trans hab.payloadAttributes

variable {ctx ctx' : SequencerContext S} {params : EvmBlockParams} {regolithActive : Bool}
  {data data' : SortingData} {now : ℕ} {seq seq' : FragSequence} {sl : SealV0}
  {envelope : OpExecutionPayloadEnvelope}

/-- Deposits do not matter. -/
theorem SameBlock.setDeposits (h : SameBlock ctx ctx') {deposits : List Transaction} :
    SameBlock ctx { ctx' with deposits := deposits } :=
  ⟨h.config, h.db, h.blockEnv, h.blockExecutor, h.parentHash, h.parentHeader, h.payloadAttributes⟩

/-- The extra data is the same. -/
theorem SameBlock.extraData_eq (h : SameBlock ctx ctx') :
    ctx'.extraData crates = ctx.extraData crates := by
  unfold SequencerContext.extraData
  rw [h.payloadAttributes]

/-! ## The start of a block -/

/-- A reset of the shared state keeps the block. -/
theorem sameBlock_resetSharedState (ctx : SequencerContext S) :
    SameBlock ctx (ctx.resetSharedState crates) :=
  ⟨rfl, rfl, rfl, rfl, rfl, rfl, rfl⟩

/-- A change of the frag's state does. -/
theorem sameBlock_modifyFragState (ctx : SequencerContext S) (f : State → State) :
    SameBlock ctx (ctx.modifyFragState f) :=
  ⟨rfl, rfl, rfl, rfl, rfl, rfl, rfl⟩

/-- Loading accounts does. -/
theorem sameBlock_loadAll (ctx : SequencerContext S) (loads : List Load) :
    SameBlock ctx (ctx.loadAll crates loads) :=
  ⟨rfl, rfl, rfl, rfl, rfl, rfl, rfl⟩

/-- Committing transactions does. -/
theorem sameBlock_commitTxs (ctx : SequencerContext S) (txs : List SimulatedTx) :
    SameBlock ctx (ctx.commitTxs crates txs).1 :=
  ⟨rfl, rfl, rfl, rfl, rfl, rfl, rfl⟩

/-- Starting to sort does. -/
theorem sameBlock_sortingDataNew (seq : FragSequence) (ctx : SequencerContext S) (now : ℕ) :
    SameBlock ctx (SortingData.new crates seq ctx now).2 :=
  ⟨rfl, rfl, rfl, rfl, rfl, rfl, rfl⟩

/-- Removing what was mined does. -/
theorem sameBlock_removeMinedTxs {txs : List SimulatedTx} (h : ctx.removeMinedTxs txs = some ctx') :
    SameBlock ctx ctx' := by
  obtain ⟨pool, -, rfl⟩ := Option.map_eq_some_iff.mp h
  exact ⟨rfl, rfl, rfl, rfl, rfl, rfl, rfl⟩

/-- A relation between contexts that is kept by whatever is executed on the shared state
when a block starts. -/
structure IsFrame (crates : Crates S) (R : SequencerContext S → SequencerContext S → Prop) :
    Prop where
  refl : ∀ ctx, R ctx ctx
  trans : ∀ {a b c}, R a b → R b c → R a c
  modifyFragState : ∀ ctx f, R ctx (ctx.modifyFragState f)
  loadAll : ∀ ctx loads, R ctx (ctx.loadAll crates loads)
  commitTxs : ∀ ctx txs, R ctx (ctx.commitTxs crates txs).1

/-- The block as a frame. -/
theorem isFrame_sameBlock : IsFrame crates SameBlock where
  refl := .refl
  trans := .trans
  modifyFragState := sameBlock_modifyFragState
  loadAll := sameBlock_loadAll
  commitTxs := sameBlock_commitTxs

/-- What is left to be included stays the same, and random numbers are only drawn. -/
structure Grows (ctx ctx' : SequencerContext S) : Prop where
  deposits : ctx'.deposits = ctx.deposits
  txPool : ctx'.txPool = ctx.txPool
  draws : ctx.draws ≤ ctx'.draws

/-- The draws as a frame. -/
theorem isFrame_grows : IsFrame crates Grows where
  refl := fun _ => ⟨rfl, rfl, le_rfl⟩
  trans := fun hab hbc => ⟨hbc.deposits.trans hab.deposits, hbc.txPool.trans hab.txPool,
    Nat.le_trans hab.draws hbc.draws⟩
  modifyFragState := fun _ _ => ⟨rfl, rfl, le_rfl⟩
  loadAll := fun _ _ => ⟨rfl, rfl, le_rfl⟩
  commitTxs := fun _ _ => ⟨rfl, rfl, Nat.le_succ _⟩

variable {R : SequencerContext S → SequencerContext S → Prop}

/-- The call of the beacon root keeps a frame. -/
theorem IsFrame.applyBeaconRootContractCall (hR : IsFrame crates R)
    (h : ctx.applyBeaconRootContractCall crates params = some ctx') :
    R ctx ctx' := by
  unfold SequencerContext.applyBeaconRootContractCall at h
  dsimp only at h
  split at h
  · obtain rfl := Option.some.inj h
    exact hR.refl ctx
  · split at h
    · cases h
    · split at h
      · split at h
        · cases h
        · obtain rfl := Option.some.inj h
          exact hR.refl ctx
      · split at h
        · cases h
        · obtain rfl := Option.some.inj h
          exact hR.trans (hR.loadAll ctx _) (hR.modifyFragState _ _)

/-- The simulation of a transaction that must be included, when it does not fail. -/
theorem applyForcedTxs_cons {bytes : Bytes} {rest : List Bytes}
    (h : SequencerContext.applyForcedTxs crates params regolithActive (bytes :: rest) data ctx =
      some (data', ctx')) :
    ∃ tx t loads, Transaction.decode crates bytes = some (.ok tx) ∧
      simulateTxInner crates params (ctx.fragView crates) tx regolithActive true true =
        (.ok t, loads) ∧
      SequencerContext.applyForcedTxs crates params regolithActive rest
        { data with
          gasRemaining := data.gasRemaining - t.gasUsed
          payment := data.payment + t.payment
          txs := data.txs ++ [DBFrag.takeState t] }
        ((ctx.loadAll crates loads).commitTxs crates [t]).1 = some (data', ctx') := by
  rw [SequencerContext.applyForcedTxs] at h
  split at h
  · cases h
  · cases h
  · rename_i tx hdecode
    split at h
    · cases h
    · rename_i t loads hsim
      exact ⟨tx, t, loads, hdecode, hsim, h⟩

variable {forced : List Bytes}

/-- The forced transactions keep a frame. -/
theorem IsFrame.applyForcedTxs (hR : IsFrame crates R)
    (h : SequencerContext.applyForcedTxs crates params regolithActive forced data ctx =
      some (data', ctx')) : R ctx ctx' := by
  induction forced generalizing data ctx with
  | nil =>
    obtain ⟨rfl, rfl⟩ := Prod.mk.inj (Option.some.inj h)
    exact hR.refl ctx
  | cons bytes rest ih =>
    obtain ⟨tx, t, loads, -, -, hrest⟩ := applyForcedTxs_cons h
    exact hR.trans (hR.trans (hR.loadAll ctx loads) (hR.commitTxs _ [t])) (ih hrest)

/-- What is left of the frag that is being sorted when transactions are only added. -/
structure SameSorting (data data' : SortingData) : Prop where
  db : data'.db = data.db
  inFlightSims : data'.inFlightSims = data.inFlightSims
  tofSnapshot : data'.tofSnapshot = data.tofSnapshot
  nextToBeApplied : data'.nextToBeApplied = data.nextToBeApplied

/-- They leave the orders. -/
theorem sameSorting_applyForcedTxs
    (h : SequencerContext.applyForcedTxs crates params regolithActive forced data ctx =
      some (data', ctx')) : SameSorting data data' := by
  induction forced generalizing data ctx with
  | nil =>
    obtain ⟨rfl, rfl⟩ := Prod.mk.inj (Option.some.inj h)
    exact ⟨rfl, rfl, rfl, rfl⟩
  | cons bytes rest ih =>
    obtain ⟨tx, t, loads, -, -, hrest⟩ := applyForcedTxs_cons h
    obtain ⟨hdb, hflight, horders, hnext⟩ := ih hrest
    exact ⟨hdb, hflight, horders, hnext⟩

/-- The steps of the start of a block. -/
theorem exists_of_applyBlockStartToState
    (h : ctx.applyBlockStartToState crates data params = some (data', ctx')) :
    ∃ ctx₁, (∀ R, IsFrame crates R → R ctx ctx₁) ∧
      SequencerContext.applyForcedTxs crates params (crates.isRegolithActive params.env.timestamp)
        (ctx.payloadAttributes.transactions.getD []) data ctx₁ = some (data', ctx') := by
  unfold SequencerContext.applyBlockStartToState at h
  dsimp only at h
  split at h
  · cases h
  · rename_i ctx₁ hbeacon
    have hframe : ∀ R, IsFrame crates R → R ctx ctx₁ := fun R hR =>
      hR.trans (hR.modifyFragState ctx _) (hR.applyBeaconRootContractCall hbeacon)
    have hattributes : ctx₁.payloadAttributes = ctx.payloadAttributes :=
      (hframe SameBlock isFrame_sameBlock).payloadAttributes
    exact ⟨_, fun R hR => hR.trans (hframe R hR) (hR.modifyFragState ctx₁ _), hattributes ▸ h⟩

/-- A block starts with an empty sequence of frags, in the environment that was sent to
the simulators; what is sorted first are the transactions that it must include.
SRCLINE: sequencer/src/context.rs:183-198 -/
structure Starts (crates : Crates S) (ctx : SequencerContext S) (params : EvmBlockParams) (now : ℕ)
    (seq : FragSequence) (data : SortingData) (ctx' : SequencerContext S) : Prop where
  seq_eq : seq = FragSequence.new params.env.gasLimit params.env.number params.env.timestamp
  same : SameBlock { ctx with blockEnv := params.env, baseFee := params.env.basefee } ctx'
  forced : ∃ ctx₁ ctx₂, SameBlock { ctx with blockEnv := params.env } ctx₁ ∧
    SequencerContext.applyForcedTxs crates params (crates.isRegolithActive params.env.timestamp)
      (ctx.payloadAttributes.transactions.getD [])
      (SortingData.new crates seq { ctx with blockEnv := params.env, baseFee := params.env.basefee }
        now).1 ctx₁ = some (data, ctx₂) ∧
    ctx₂.removeMinedTxs data.txs = some ctx'

/-- What starting a block does. -/
theorem starts_of_startWith (h : ctx.startWith crates params now = some (seq, data, ctx')) :
    Starts crates ctx params now seq data ctx' := by
  unfold SequencerContext.startWith at h
  dsimp only at h
  split at h
  · cases h
  · rename_i data₁ ctx₂ hblock
    obtain ⟨ctx₃, hmined, heq⟩ := Option.map_eq_some_iff.mp h
    obtain ⟨rfl, rfl, rfl⟩ : _ = seq ∧ data₁ = data ∧ ctx₃ = ctx' := by simpa using heq
    obtain ⟨ctx₁, hframe, hforced⟩ := exists_of_applyBlockStartToState hblock
    have hsame₁ : SameBlock { ctx with blockEnv := params.env, baseFee := params.env.basefee } ctx₁ :=
      (sameBlock_sortingDataNew _ _ now).trans (hframe SameBlock isFrame_sameBlock)
    exact
      { seq_eq := rfl
        same := hsame₁.trans ((isFrame_sameBlock.applyForcedTxs hforced).trans
          (sameBlock_removeMinedTxs hmined))
        forced := ⟨ctx₁, ctx₂, ⟨hsame₁.config, hsame₁.db, hsame₁.blockEnv, hsame₁.blockExecutor,
          hsame₁.parentHash, hsame₁.parentHeader, hsame₁.payloadAttributes⟩, hforced, hmined⟩ }

/-- The first frag of a block has an id that was not drawn before, and nothing is under way for it.
What must be included is in no pool, and leaves the queue of deposits alone. -/
theorem grows_of_startWith (h : ctx.startWith crates params now = some (seq, data, ctx')) :
    data.db.stateId = crates.rand ctx.draws ∧ ctx.draws < ctx'.draws ∧
      data.inFlightSims = 0 ∧ data.nextToBeApplied = none ∧
      data.tofSnapshot = (if ctx.payloadAttributes.noTxPool.getD false then []
        else ActiveOrders.new crates ctx.txPool.activeTxs.txs) ∧
      ctx'.deposits = ctx.deposits ∧
      ∃ ctx₁ : SequencerContext S,
        ctx₁.txPool = ctx.txPool ∧ ctx₁.removeMinedTxs data.txs = some ctx' := by
  unfold SequencerContext.startWith at h
  dsimp only at h
  split at h
  · cases h
  · rename_i data₁ ctx₂ hblock
    obtain ⟨ctx₃, hmined, heq⟩ := Option.map_eq_some_iff.mp h
    obtain ⟨-, rfl, rfl⟩ : _ = seq ∧ data₁ = data ∧ ctx₃ = ctx' := by simpa using heq
    obtain ⟨ctx₁, hframe, hforced⟩ := exists_of_applyBlockStartToState hblock
    have hframe' : IsFrame crates Grows := isFrame_grows
    have hgrows := hframe'.trans (hframe Grows hframe') (hframe'.applyForcedTxs hforced)
    have hsorting := sameSorting_applyForcedTxs hforced
    have hlt : ctx.draws < ctx₂.draws := hgrows.draws
    obtain ⟨pool, -, rfl⟩ := Option.map_eq_some_iff.mp hmined
    exact ⟨by rw [hsorting.db]; rfl, hlt, hsorting.inFlightSims, hsorting.nextToBeApplied,
      hsorting.tofSnapshot, hgrows.deposits, ctx₂, hgrows.txPool, hmined⟩

/-- A block is numbered after its parent. -/
theorem number_of_newBlockParams (h : ctx.newBlockParams crates = some params) :
    params.env.number = ctx.parentHeader.number + 1 := by
  unfold SequencerContext.newBlockParams at h
  split at h
  · cases h
  · obtain ⟨basefee, -, rfl⟩ := Option.map_eq_some_iff.mp h
    rfl

/-- A block has no difficulty. -/
theorem difficulty_of_newBlockParams (h : ctx.newBlockParams crates = some params) :
    params.env.difficulty = 0 := by
  unfold SequencerContext.newBlockParams at h
  split at h
  · cases h
  · obtain ⟨basefee, -, rfl⟩ := Option.map_eq_some_iff.mp h
    rfl

/-! ## Frags -/

/-- Taking the state keeps the gas. -/
theorem sumGasUsed_map_takeState (txs : List SimulatedTx) :
    sumGasUsed (txs.map DBFrag.takeState) = sumGasUsed txs := by
  simp only [sumGasUsed, List.map_map]
  rfl

/-- It keeps the transactions. -/
theorem map_tx_map_takeState (txs : List SimulatedTx) :
    (txs.map DBFrag.takeState).map SimulatedTx.tx = txs.map SimulatedTx.tx := by
  simp only [List.map_map]
  rfl

/-- Gas adds up. -/
theorem sumGasUsed_append (xs ys : List SimulatedTx) :
    sumGasUsed (xs ++ ys) = sumGasUsed xs + sumGasUsed ys := by
  simp only [sumGasUsed, List.map_append, List.sum_append]

/-- The loop of a cut frag adds its transactions and their gas to the sequence. -/
theorem foldl_push (baseFee : UInt64) (txs : List SimulatedTx) (seq : FragSequence)
    (shared : SharedState) :
    (txs.foldl (FragSequence.push crates baseFee) (seq, shared)).1 =
      { seq with gasUsed := seq.gasUsed + sumGasUsed txs, txs := seq.txs ++ txs } := by
  induction txs generalizing seq shared with
  | nil => simp [sumGasUsed]
  | cons t txs ih =>
    rw [List.foldl_cons]
    simp only [FragSequence.push]
    rw [ih]
    simp [sumGasUsed, UInt64.add_assoc]

/-- The sequence of frags after a cut.
SRCLINE: frag_sequence.rs:45-67 -/
def cutSeq (seq : FragSequence) (data : SortingData) : FragSequence :=
  { seq with
    gasRemaining := seq.gasRemaining - sumGasUsed data.txs
    payment := seq.payment + data.payment
    gasUsed := seq.gasUsed + sumGasUsed data.txs
    txs := seq.txs ++ data.txs.map DBFrag.takeState
    nextSeq := seq.nextSeq + 1 }

/-- A frag was cut: its message, the sequence after it, and the next frag to be sorted.
SRCLINE: sequencer/src/context.rs:142-156 -/
structure Cuts (crates : Crates S) (ctx : SequencerContext S) (data : SortingData)
    (seq : FragSequence) (now : ℕ) (msg : FragV0) (data' : SortingData) (seq' : FragSequence)
    (ctx' : SequencerContext S) : Prop where
  msg_eq : msg = FragV0.new seq.blockNumber seq.nextSeq (data.txs.map SimulatedTx.tx) false
  seq_eq : seq' = cutSeq seq data
  same : SameBlock ctx ctx'
  sorted : ∃ ctx₁ ctx₂, (ctx.commitTxs crates data.txs).1.removeMinedTxs
      (data.txs.map DBFrag.takeState) = some ctx₁ ∧
    SameBlock ctx₁ ctx₂ ∧ ctx₂.txPool = ctx₁.txPool ∧ ctx₂.deposits = ctx₁.deposits ∧
    ctx₂.draws = ctx₁.draws ∧ ctx₂.arcs = ctx₁.arcs ∧ ctx₂.sharedState.db = ctx₁.sharedState.db ∧
    SortingData.new crates seq' ctx₂ now = (data', ctx')

/-- Pushing does not touch the database. -/
theorem push_sharedState_db (baseFee : UInt64) (txs : List SimulatedTx) (seq : FragSequence)
    (shared : SharedState) :
    (txs.foldl (FragSequence.push crates baseFee) (seq, shared)).2.db = shared.db := by
  induction txs generalizing seq shared with
  | nil => rfl
  | cons t txs ih =>
    rw [List.foldl_cons]
    simp only [FragSequence.push]
    rw [ih]
    rfl

/-- What cutting a frag does. -/
theorem cuts_of_sealFrag {msg : FragV0}
    (h : ctx.sealFrag crates data seq now = some (msg, data', seq', ctx')) :
    Cuts crates ctx data seq now msg data' seq' ctx' := by
  unfold SequencerContext.sealFrag at h
  dsimp only at h
  split at h
  · cases h
  · rename_i ctx₁ hmined
    simp only [Option.some.injEq, Prod.mk.injEq] at h
    obtain ⟨rfl, hdata, rfl, hctx⟩ := h
    have hseq : (seq.applySortedFrag crates { data with txs := data.txs.map DBFrag.takeState }
        ctx₁).2.1 = cutSeq seq data := by
      simp only [FragSequence.applySortedFrag, foldl_push, sumGasUsed_map_takeState, cutSeq]
    have hsame : SameBlock ctx ctx₁ :=
      (sameBlock_commitTxs ctx data.txs).trans (sameBlock_removeMinedTxs hmined)
    let ctx₂ := (seq.applySortedFrag crates { data with txs := data.txs.map DBFrag.takeState }
      ctx₁).2.2
    have hcut : SameBlock ctx₁ ctx₂ := ⟨rfl, rfl, rfl, rfl, rfl, rfl, rfl⟩
    refine ⟨?_, hseq, ?_, ctx₁, ctx₂, hmined, hcut, rfl, rfl, rfl, rfl,
      push_sharedState_db _ _ _ _, Prod.ext hdata hctx⟩
    · simp only [FragSequence.applySortedFrag, SequencerContext.commitTxs, DBFrag.commitTxs,
        map_tx_map_takeState]
    · rw [← hctx]
      exact (hsame.trans hcut).trans (sameBlock_sortingDataNew _ _ now)

/-- The frag after a cut has an id that was not drawn before, and nothing is under way for it. -/
theorem grows_of_cuts {msg : FragV0} (h : Cuts crates ctx data seq now msg data' seq' ctx') :
    data'.db.stateId = crates.rand (ctx.draws + 1) ∧ ctx'.draws = ctx.draws + 2 ∧
      data'.inFlightSims = 0 ∧ data'.nextToBeApplied = none ∧ data'.txs = [] ∧
      data'.tofSnapshot = (if ctx'.payloadAttributes.noTxPool.getD false then []
        else ActiveOrders.new crates ctx'.txPool.activeTxs.txs) ∧
      ctx'.deposits = ctx.deposits ∧
      ctx.txPool.removeMinedTxs (SequencerContext.mined (data.txs.map DBFrag.takeState)) =
        some ctx'.txPool := by
  obtain ⟨ctx₁, ctx₂, hmined, hsame, hpool, hdeposits, hdraws, -, -, hnew⟩ := h.sorted
  obtain ⟨pool, hremoved, rfl⟩ := Option.map_eq_some_iff.mp hmined
  obtain ⟨rfl, rfl⟩ := Prod.mk.inj hnew
  refine ⟨?_, ?_, rfl, rfl, rfl, rfl, hdeposits, ?_⟩
  · show crates.rand ctx₂.draws = _
    rw [hdraws]
    rfl
  · show ctx₂.draws + 1 = _
    rw [hdraws]
    rfl
  · show _ = some ctx₂.txPool
    rw [hpool]
    exact hremoved

/-- The last frag is a cut one, with its mark. -/
theorem cuts_of_sealLastFrag {frag : FragV0}
    (h : ctx.sealLastFrag crates data seq now = some (frag, seq', ctx')) :
    ∃ msg data', frag = { msg with isLast := true } ∧
      Cuts crates ctx data seq now msg data' seq' ctx' := by
  obtain ⟨⟨msg, data', seq₁, ctx₁⟩, hcut, heq⟩ := Option.map_eq_some_iff.mp h
  obtain ⟨rfl, rfl, rfl⟩ : _ = frag ∧ seq₁ = seq' ∧ ctx₁ = ctx' := by simpa using heq
  exact ⟨msg, data', rfl, cuts_of_sealFrag hcut⟩

/-- The header of a block that is sealed from a sequence of frags.
SRCLINE: sequencer/src/context.rs:229-268 -/
def headerOf (crates : Crates S) (ctx : SequencerContext S) (seq : FragSequence)
    (extraData : Bytes) : Header :=
  let (_, transactionsRoot, receiptsRoot, logsBloom) :=
    seq.encodedTxsRootsBloom crates (crates.isCanyonActive ctx.blockEnv.timestamp)
  ctx.sealedHeader
    (crates.calculateStateRoot ctx.db.tables (ctx.sharedState.db.takeStateChanges crates).1)
    transactionsRoot receiptsRoot logsBloom seq.gasUsed extraData

/-- A block was sealed: what its seal and its payload say.
SRCLINE: sequencer/src/context.rs:229-313 -/
structure SealedFrom (crates : Crates S) (ctx : SequencerContext S) (seq : FragSequence)
    (sl : SealV0) (envelope : OpExecutionPayloadEnvelope) (ctx' : SequencerContext S) : Prop where
  totalFrags : sl.totalFrags = seq.nextSeq
  blockNumber : sl.blockNumber = ctx.blockEnv.number
  gasUsed : sl.gasUsed = seq.gasUsed
  gasLimit : sl.gasLimit = ctx.blockEnv.gasLimit
  parentHash : sl.parentHash = ctx.parentHash
  payloadNumber : envelope.executionPayload.blockNumber = ctx.blockEnv.number
  payloadParent : envelope.executionPayload.parentHash = ctx.parentHash
  transactions : envelope.executionPayload.transactions = seq.txs.map fun t => t.tx.encode
  header : ∃ extraData root, ctx.extraData crates = some extraData ∧
    ctx.payloadAttributes.parentBeaconBlockRoot = some root ∧
    sl.transactionsRoot = (headerOf crates ctx seq extraData).transactionsRoot ∧
    sl.receiptsRoot = (headerOf crates ctx seq extraData).receiptsRoot ∧
    sl.stateRoot = (headerOf crates ctx seq extraData).stateRoot ∧
    sl.blockHash = crates.hashSlow (headerOf crates ctx seq extraData)
  ctx_eq : ctx' = { ctx with sharedState := { ctx.sharedState with
    db := (ctx.sharedState.db.takeStateChanges crates).2 } }

/-- What sealing a block does. -/
theorem sealedFrom_of_sealBlock (h : ctx.sealBlock crates seq = some (sl, envelope, ctx')) :
    SealedFrom crates ctx seq sl envelope ctx' := by
  unfold SequencerContext.sealBlock at h
  dsimp only at h
  split at h
  · rename_i extraData root hextra hroot
    simp only [Option.some.injEq, Prod.mk.injEq] at h
    obtain ⟨rfl, rfl, rfl⟩ := h
    exact
      { totalFrags := rfl
        blockNumber := rfl
        gasUsed := rfl
        gasLimit := rfl
        parentHash := rfl
        payloadNumber := rfl
        payloadParent := rfl
        transactions := rfl
        header := ⟨extraData, root, hextra, hroot, rfl, rfl, rfl, rfl⟩
        ctx_eq := rfl }
  · cases h

/-- Sealing keeps the block. -/
theorem SealedFrom.same (h : SealedFrom crates ctx seq sl envelope ctx') : SameBlock ctx ctx' := by
  rw [h.ctx_eq]
  exact ⟨rfl, rfl, rfl, rfl, rfl, rfl, rfl⟩

/-- A block that is sealed after its last frag was cut. -/
theorem sealedFrom_of_seals {s : Sequencer S} {frag : FragV0}
    (h : Seals crates s now seq data frag sl envelope ctx') :
    ∃ msg data' seq' ctx, frag = { msg with isLast := true } ∧
      Cuts crates s.ctx data seq now msg data' seq' ctx ∧
      SealedFrom crates ctx seq' sl envelope ctx' := by
  obtain ⟨seq', ctx, hlast, hsealed⟩ := h.hsealed
  obtain ⟨msg, data', hfrag, hcut⟩ := cuts_of_sealLastFrag hlast
  exact ⟨msg, data', seq', ctx, hfrag, hcut, sealedFrom_of_sealBlock hsealed⟩

/-- A block that has told its environment can be sealed. -/
theorem sealBlock_isSome (seq : FragSequence) {extraData : Bytes} {root : Hash}
    (hextra : ctx.extraData crates = some extraData)
    (hroot : ctx.payloadAttributes.parentBeaconBlockRoot = some root) :
    (ctx.sealBlock crates seq).isSome = true := by
  have hextra' : SequencerContext.extraData crates { ctx with sharedState := { ctx.sharedState with
      db := (ctx.sharedState.db.takeStateChanges crates).2 } } = some extraData := hextra
  unfold SequencerContext.sealBlock
  dsimp only
  rw [hextra', hroot]
  rfl

/-! ## Blocks from outside -/

/-- A block was committed: what became of the database, and what the context keeps.
SRCLINE: sequencer/src/context.rs:316-339 -/
structure Commits (crates : Crates S) (ctx : SequencerContext S) (block : BlockWithSenders)
    (ctx' : SequencerContext S) (fetch : Option (UInt64 × UInt64)) : Prop where
  outcome : ctx.blockExecutor.commitBlock crates block ctx.db true =
    some (.ok fetch, ctx'.blockExecutor, ctx'.db)
  parentHeader : ctx'.parentHeader = block.header
  parentHash : ctx'.parentHash = crates.hashSlow block.header
  config : ctx'.config = ctx.config
  sharedState : ctx'.sharedState = ctx.sharedState
  deposits : ctx'.deposits = ctx.deposits
  payloadAttributes : ctx'.payloadAttributes = ctx.payloadAttributes
  draws : ctx'.draws = ctx.draws
  arcs : ctx'.arcs = ctx.arcs

/-- What committing a block does. -/
theorem commits_of_commitBlock {block : BlockWithSenders} {fetch : Option (UInt64 × UInt64)}
    (h : ctx.commitBlock crates block = some (ctx', fetch)) :
    Commits crates ctx block ctx' fetch := by
  unfold SequencerContext.commitBlock at h
  split at h
  · cases h
  · cases h
  · rename_i blocksToFetch blockExecutor db hcommit
    dsimp only at h
    split at h
    · obtain ⟨rfl, rfl⟩ := Prod.mk.inj (Option.some.inj h)
      exact ⟨hcommit, rfl, rfl, rfl, rfl, rfl, rfl, rfl, rfl⟩
    · split at h
      · cases h
      · obtain ⟨⟨pool, sims⟩, -, heq⟩ := Option.map_eq_some_iff.mp h
        obtain ⟨rfl, rfl⟩ := Prod.mk.inj heq
        exact ⟨hcommit, rfl, rfl, rfl, rfl, rfl, rfl, rfl, rfl⟩

/-! ## Transactions and results -/

/-- A transaction was taken: a deposit joins the queue, another one goes to the pools, and
simulations are asked for on the state of the sealed frags only.
SRCLINE: sequencer/src/context.rs:160-172 -/
structure TakesTx (crates : Crates S) (ctx : SequencerContext S) (tx : Transaction)
    (ctx' : SequencerContext S) (requests : List SequencerToSimulator) : Prop where
  same : SameBlock ctx ctx'
  sharedState : ctx'.sharedState = ctx.sharedState
  draws : ctx'.draws = ctx.draws
  pooling : ∀ request ∈ requests, ∃ tx id, request = .simulateTxTof tx id
  queues : (tx.isDeposit = true ∧ ctx'.deposits = ctx.deposits ++ [tx] ∧ ctx'.txPool = ctx.txPool ∧
      requests = []) ∨
    (tx.isDeposit = false ∧ ctx'.deposits = ctx.deposits ∧
      ∃ txs, ctx.txPool.handleNewTx tx (ctx.getNonce crates) ctx.blockEnv.basefee false
          ctx.config.simulateTofInPools = some (ctx'.txPool, txs) ∧
        requests = txs.map fun tx => .simulateTxTof tx ctx.sharedState.db.stateId)

/-- What taking a transaction does. -/
theorem takesTx_of_handleTx {tx : Transaction} {requests : List SequencerToSimulator}
    (h : ctx.handleTx crates tx = some (ctx', requests)) :
    TakesTx crates ctx tx ctx' requests := by
  unfold SequencerContext.handleTx at h
  split at h
  · rename_i hdeposit
    obtain ⟨rfl, rfl⟩ := Prod.mk.inj (Option.some.inj h)
    exact ⟨⟨rfl, rfl, rfl, rfl, rfl, rfl, rfl⟩, rfl, rfl, by simp, .inl ⟨hdeposit, rfl, rfl, rfl⟩⟩
  · rename_i hdeposit
    obtain ⟨⟨pool, txs⟩, hpool, heq⟩ := Option.map_eq_some_iff.mp h
    obtain ⟨rfl, rfl⟩ := Prod.mk.inj heq
    refine ⟨⟨rfl, rfl, rfl, rfl, rfl, rfl, rfl⟩, rfl, rfl, ?_, .inr ⟨?_, rfl, txs, hpool, rfl⟩⟩
    · intro request hrequest
      obtain ⟨tx, -, rfl⟩ := List.mem_map.mp hrequest
      exact ⟨tx, _, rfl⟩
    · simpa using hdeposit

/-- Applying the best simulation keeps the block. -/
theorem sameBlock_maybeApply {baseFee : UInt64}
    (h : data.maybeApply crates baseFee ctx = some (data', ctx')) :
    SameBlock ctx ctx' := by
  unfold SortingData.maybeApply at h
  split at h
  · obtain ⟨-, rfl⟩ := Prod.mk.inj (Option.some.inj h)
    exact .refl ctx
  · split at h
    · cases h
    · obtain ⟨-, rfl⟩ := Prod.mk.inj (Option.some.inj h)
      exact ⟨rfl, rfl, rfl, rfl, rfl, rfl, rfl⟩

/-- A transaction is applied while sorting. -/
theorem sameBlock_applies {s : Sequencer S} {e : Event} (h : Applies crates s e seq data ctx) :
    (∃ data₀, s.state = .sorting seq data₀) ∧ SameBlock s.ctx ctx := by
  cases h with
  | best now hstate hwaiting hseal hflight happly =>
    exact ⟨⟨_, hstate⟩, sameBlock_maybeApply happly⟩
  | deposit result tx hstate =>
    exact ⟨⟨_, hstate⟩, ⟨rfl, rfl, rfl, rfl, rfl, rfl, rfl⟩⟩

end BasedOp.Analysis.SequencerFrames
