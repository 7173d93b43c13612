import BasedOp.Analysis.PoolContents
import BasedOp.Analysis.PoolRetention
import BasedOp.Analysis.SequencerFrames

/-!
# The pool and the committed chain

`SequencerContext::commit_block` takes the transactions of the block that it is called with out
of the pool, whatever has become of that block: it may only be kept for later, or be known
already. Blocks that were kept and are committed along with it are not looked at. Which blocks a
call adds follows from its block, the known headers and the pending blocks before it, and the
pool follows the chain if the blocks that are added mine no more of its transactions than the
block of the call, and that block no other senders.
-/

set_option autoImplicit false

namespace BasedOp.Analysis.PoolAndChain

open BasedOp.Computation Model Model.Gateway
open SequencerSteps SequencerFrames
open PoolContents PoolRetention

variable {pool pool' : TxPool} {mined : List (Address × UInt64)} {sender : Address}
  {t : Transaction} {baseFee : UInt64} {getNonce : Address → UInt64} {syncing simSender : Bool}
  {requests : List Transaction} {data : SortingData} {seq : FragSequence} {now : ℕ}
  {block : BlockWithSenders} {fetch : Option (UInt64 × UInt64)} {e : Event} {sync : BlockSync}

/-! ## What mined transactions take out of the pool -/

/-- Removing what was mined adds nothing. -/
theorem senderTxs_removeMinedTxs_sublist (h : pool.removeMinedTxs mined = some pool')
    (sender : Address) :
    (senderTxs pool' sender).Sublist (senderTxs pool sender) := by
  refine TxPool.removeMinedTxs_induction
    (I := fun p => (senderTxs p sender).Sublist (senderTxs pool sender)) ?_ (.refl _) h
  intro p sender₁ nonce p' _ hp hremove
  refine List.Sublist.trans ?_ hp
  rw [updates_remove hremove sender]
  split
  · rename_i heq
    rw [heq]
    exact forward_sublist _ _
  · exact .refl _

/-- What is left of the transactions of a sender has higher nonces than what was mined. -/
theorem lt_of_removeMinedTxs (hpool : OrderedPool pool)
    (h : pool.removeMinedTxs mined = some pool') {nonce : UInt64}
    (hmined : (sender, nonce) ∈ mined) (ht : t ∈ senderTxs pool' sender) : nonce < t.nonce := by
  induction mined generalizing pool with
  | nil => cases hmined
  | cons first rest ih =>
    rw [TxPool.removeMinedTxs] at h
    split at h
    · cases h
    · rename_i pool₁ hremove
      rcases List.mem_cons.mp hmined with rfl | hrest
      · have ht₁ := (senderTxs_removeMinedTxs_sublist h sender).subset ht
        rw [updates_remove hremove sender, if_pos rfl] at ht₁
        exact lt_of_mem_forward (hpool sender) ht₁
      · exact ih (orderedPool_remove hpool hremove) h hrest

/-- A sender of whom nothing was mined keeps all transactions. -/
theorem senderTxs_of_notMined (h : pool.removeMinedTxs mined = some pool')
    (hnone : ∀ nonce, (sender, nonce) ∉ mined) :
    senderTxs pool' sender = senderTxs pool sender := by
  refine TxPool.removeMinedTxs_induction
    (I := fun p => senderTxs p sender = senderTxs pool sender) ?_ rfl h
  intro p sender₁ nonce p' hmem hp hremove
  have hne : sender ≠ sender₁ := by
    rintro rfl
    exact hnone nonce hmem
  rw [updates_remove hremove sender, if_neg hne, hp]

/-- An empty active list stays empty. -/
theorem activeTxs_removeMinedTxs (hempty : pool.activeTxs = .empty)
    (h : pool.removeMinedTxs mined = some pool') :
    pool'.activeTxs = .empty := by
  refine TxPool.removeMinedTxs_induction (I := fun p => p.activeTxs = .empty) ?_ hempty h
  intro p sender nonce p' _ hp hremove
  unfold TxPool.remove at hremove
  rw [hp] at hremove
  obtain ⟨active, hactive, rfl⟩ := Option.map_eq_some_iff.mp hremove
  exact (Option.some.inj hactive).symm

variable {p : Transaction → Prop} {events : List Event} {sync' : BlockSync}

/-- After a new block the active transactions are some of the lists. -/
theorem ofPool_of_poolData
    (h : pool.handleNewBlock mined baseFee getNonce syncing simSender = some (pool', requests))
    (hdata : ∀ e ∈ pool'.poolData.entries, OfList p e.2) : OfPool p pool' := by
  unfold TxPool.handleNewBlock at h
  split at h
  · cases h
  · rename_i pool₁ hmined
    have hempty : OfOrders p pool₁.activeTxs.txs := by
      rw [activeTxs_removeMinedTxs rfl hmined]
      exact fun _ h => (nomatch h)
    split at h
    · obtain ⟨rfl, -⟩ := Prod.mk.inj (Option.some.inj h)
      exact ⟨hdata, hempty⟩
    · obtain ⟨⟨active, requests₁⟩, hfill, heq⟩ := Option.map_eq_some_iff.mp h
      obtain ⟨rfl, -⟩ := Prod.mk.inj heq
      refine ⟨hdata, ofOrders_fillActive ?_ hempty hfill⟩
      intro e he
      obtain ⟨e', he', rfl⟩ := List.mem_map.mp he
      exact hdata e' he'

/-- What holds of the pool holds of its transactions. -/
theorem of_pooled (hpool : OfPool p pool) (ht : Pooled pool t) : p t := by
  unfold Pooled senderTxs at ht
  split at ht
  · rename_i l hl
    exact ofList_of_lookup hpool hl t ht
  · cases ht

/-! ## The lists of a pool -/

/-- The lists of a pool are in order, and each holds transactions of its own sender. -/
structure Sound (pool : TxPool) : Prop where
  ordered : OrderedPool pool
  bySender : ∀ sender, ∀ t ∈ senderTxs pool sender, t.sender = sender

/-- The empty pool is sound. -/
theorem sound_empty : Sound .empty where
  ordered := fun _ => List.Pairwise.nil
  bySender := fun _ _ h => (nomatch h)

/-- Removing keeps the lists with their senders. -/
theorem sender_of_sublist (hpool : Sound pool)
    (h : ∀ sender, (senderTxs pool' sender).Sublist (senderTxs pool sender)) :
    ∀ sender, ∀ t ∈ senderTxs pool' sender, t.sender = sender :=
  fun sender t ht => hpool.bySender sender t ((h sender).subset ht)

/-- Every operation keeps the pool sound. -/
theorem sound_step {op : PoolOp} (hpool : Sound pool) (h : poolStep pool op = some pool') :
    Sound pool' := by
  refine ⟨orderedPool_step hpool.ordered h, ?_⟩
  cases op with
  | handleNewTx tx =>
    obtain ⟨⟨pool₁, requests⟩, hnew, rfl⟩ := Option.map_eq_some_iff.mp h
    cases takesNew_of_handleNewTx hpool.ordered hnew with
    | rejected hsame =>
      refine sender_of_sublist hpool fun sender => ?_
      rw [hsame sender]
    | accepted hprice hupdates =>
      intro sender t ht
      rw [hupdates sender] at ht
      split at ht
      · rename_i heq
        rw [heq]
        have hlist : OfList (fun t => t.sender = tx.sender)
            { sender := tx.sender, txs := senderTxs pool tx.sender } :=
          hpool.bySender tx.sender
        exact ofList_put hlist rfl t ht
      · exact hpool.bySender sender t ht
  | handleSimulated =>
    refine sender_of_sublist hpool fun sender => ?_
    rw [senderTxs_congr (poolData_handleSimulated h)]
  | remove sender nonce =>
    refine sender_of_sublist hpool fun other => ?_
    have hmined : pool.removeMinedTxs [(sender, nonce)] = some pool' := by
      have hremove : pool.remove sender nonce = some pool' := h
      rw [TxPool.removeMinedTxs, hremove]
      rfl
    exact senderTxs_removeMinedTxs_sublist hmined other
  | removeMinedTxs =>
    exact sender_of_sublist hpool (senderTxs_removeMinedTxs_sublist h)
  | handleNewBlock =>
    obtain ⟨⟨pool₁, requests⟩, hblock, rfl⟩ := Option.map_eq_some_iff.mp h
    obtain ⟨pool₂, hmined, hdata⟩ := removals_of_handleNewBlock hblock
    refine sender_of_sublist hpool fun sender => ?_
    rw [senderTxs_congr hdata]
    exact senderTxs_removeMinedTxs_sublist hmined sender

/-! ## The pool of a sequencer -/

/-- One pool comes of another by operations of the pool. -/
def Reaches (pool pool' : TxPool) : Prop := ∃ ops, runSteps poolStep pool ops = some pool'

/-- A pool is reached by no operation. -/
theorem Reaches.refl (pool : TxPool) : Reaches pool pool := ⟨[], rfl⟩

/-- Operations follow each other. -/
theorem Reaches.trans {pool₁ pool₂ pool₃ : TxPool} (h₁₂ : Reaches pool₁ pool₂)
    (h₂₃ : Reaches pool₂ pool₃) : Reaches pool₁ pool₃ := by
  obtain ⟨ops, hops⟩ := h₁₂
  obtain ⟨ops', hops'⟩ := h₂₃
  refine ⟨ops ++ ops', ?_⟩
  rw [runSteps_append, hops, Option.bind_some, hops']

/-- One operation reaches the next pool. -/
theorem reaches_of_poolStep (op : PoolOp) (h : poolStep pool op = some pool') :
    Reaches pool pool' := by
  refine ⟨[op], ?_⟩
  rw [runSteps, h, Option.bind_some]
  rfl

/-- Sound pools stay sound. -/
theorem Reaches.sound (h : Reaches pool pool') (hpool : Sound pool) : Sound pool' := by
  obtain ⟨ops, hops⟩ := h
  exact runSteps_induction (fun _ _ _ hpool hstep => sound_step hpool hstep) hpool hops

variable {S : Type} {crates : Crates S} {ctx ctx' : SequencerContext S} {s : Sequencer S}
  {db db' : SequencerDB S}

/-- Removing what was mined is an operation. -/
theorem reaches_removeMinedTxs {txs : List SimulatedTx} (h : ctx.removeMinedTxs txs = some ctx') :
    Reaches ctx.txPool ctx'.txPool := by
  obtain ⟨pool, hpool, rfl⟩ := Option.map_eq_some_iff.mp h
  exact reaches_of_poolStep (.removeMinedTxs _) hpool

/-- Cutting a frag takes operations of the pool. -/
theorem reaches_cuts {data' : SortingData} {seq' : FragSequence} {msg : FragV0}
    (h : Cuts crates ctx data seq now msg data' seq' ctx') : Reaches ctx.txPool ctx'.txPool := by
  obtain ⟨-, -, -, -, -, -, -, hmined⟩ := grows_of_cuts h
  exact reaches_of_poolStep (.removeMinedTxs _) hmined

/-- So does starting a block. -/
theorem reaches_startWith {params : EvmBlockParams}
    (h : ctx.startWith crates params now = some (seq, data, ctx')) :
    Reaches ctx.txPool ctx'.txPool := by
  obtain ⟨-, -, -, -, -, -, ctx₁, hpool, hmined⟩ := grows_of_startWith h
  rw [← hpool]
  exact reaches_removeMinedTxs hmined

/-- So does sealing a block. -/
theorem reaches_seals {frag : FragV0} {sl : SealV0} {envelope : OpExecutionPayloadEnvelope}
    (h : Seals crates s now seq data frag sl envelope ctx) :
    Reaches s.ctx.txPool ctx.txPool := by
  obtain ⟨msg, data', seq', ctx₁, -, hcuts, hfrom⟩ := sealedFrom_of_seals h
  have hpool := reaches_cuts hcuts
  rw [hfrom.ctx_eq]
  exact hpool

/-- The transactions of a block, by their senders and nonces. -/
def minedIn (crates : Crates S) (block : BlockWithSenders) : Option (List (Address × UInt64)) :=
  block.transactions.mapM fun tx => (recoverSigner crates tx).map (·, tx.nonce)

/-- A call changes the pool for its own block, if that has a base fee, and not otherwise. -/
theorem pool_of_commitBlock (h : ctx.commitBlock crates block = some (ctx', fetch)) :
    (block.header.baseFeePerGas = none ∧ ctx'.txPool = ctx.txPool) ∨
      ∃ baseFee mined getNonce requests, block.header.baseFeePerGas = some baseFee ∧
        minedIn crates block = some mined ∧
        ctx.txPool.handleNewBlock mined baseFee getNonce false false =
          some (ctx'.txPool, requests) := by
  unfold SequencerContext.commitBlock at h
  split at h
  · cases h
  · cases h
  · dsimp only at h
    split at h
    · rename_i hfee
      obtain ⟨rfl, -⟩ := Prod.mk.inj (Option.some.inj h)
      exact .inl ⟨hfee, rfl⟩
    · rename_i baseFee hfee
      split at h
      · cases h
      · rename_i mined hmined
        obtain ⟨⟨pool, requests⟩, hpool, heq⟩ := Option.map_eq_some_iff.mp h
        obtain ⟨rfl, -⟩ := Prod.mk.inj heq
        exact .inr ⟨baseFee, mined, _, requests, hfee, hmined, hpool⟩

/-- So does committing a block. -/
theorem reaches_commitBlock (h : ctx.commitBlock crates block = some (ctx', fetch)) :
    Reaches ctx.txPool ctx'.txPool := by
  obtain ⟨-, hsame⟩ | ⟨baseFee, mined, getNonce, requests, -, -, hpool⟩ := pool_of_commitBlock h
  · rw [hsame]
    exact .refl _
  · exact reaches_of_poolStep (.handleNewBlock mined baseFee getNonce false false)
      (by rw [poolStep, hpool]; rfl)

/-- So does taking a transaction. -/
theorem reaches_handleTx {tx : Transaction} {requests : List SequencerToSimulator}
    (h : ctx.handleTx crates tx = some (ctx', requests)) :
    Reaches ctx.txPool ctx'.txPool := by
  obtain ⟨-, -, hpool, -⟩ | ⟨-, -, txs, hpool, -⟩ := (takesTx_of_handleTx h).queues
  · rw [hpool]
    exact .refl _
  · exact reaches_of_poolStep (.handleNewTx tx _ _ _ _) (by rw [poolStep, hpool]; rfl)

/-- Applying does not touch the pool. -/
theorem txPool_of_applies (h : Applies crates s e seq data ctx) : ctx.txPool = s.ctx.txPool := by
  cases h with
  | best now hstate hwaiting hseal hflight happly =>
    unfold SortingData.maybeApply at happly
    split at happly
    · obtain ⟨-, rfl⟩ := Prod.mk.inj (Option.some.inj happly)
      rfl
    · split at happly
      · cases happly
      · obtain ⟨-, rfl⟩ := Prod.mk.inj (Option.some.inj happly)
        rfl
  | deposit => rfl

/-- Every step of the sequencer changes its pool by operations of the pool. -/
theorem reaches_step {s' : Sequencer S} {sent : List Output} (h : Step crates s e sent s') :
    Reaches s.ctx.txPool s'.ctx.txPool := by
  cases h with
  | ignored => exact .refl _
  | fetch => exact .refl _
  | known => exact .refl _
  | newPayload payload hashes root now hstate hahead hhead hblock hcommit =>
    have hpool := reaches_commitBlock hcommit
    exact hpool
  | noAttributes => exact .refl _
  | start attributes now hstate hparent hparams hstart =>
    have hpool := reaches_startWith hstart
    exact hpool
  | sealed now hseals => exact reaches_seals hseals
  | committed now hseals hconfig hblock hcommit =>
    have hpool := (reaches_seals hseals).trans (reaches_commitBlock hcommit)
    exact hpool
  | synced block hstate hcommit => exact reaches_commitBlock hcommit
  | imported block hstate hcommit => exact reaches_commitBlock hcommit
  | newTx tx hwaiting htx => exact reaches_handleTx htx
  | simulated => exact .refl _
  | topOfFrag result hwaiting hmsg hvalid hpool =>
    exact reaches_of_poolStep (.handleSimulated _) hpool
  | topOfFragFailed result hwaiting hmsg hpool => exact reaches_of_poolStep (.remove _ _) hpool
  | cut now hstate hwaiting hseal hmined hfrag =>
    exact (reaches_removeMinedTxs hmined).trans (reaches_cuts (cuts_of_sealFrag hfrag))
  | orders happlies =>
    rw [← txPool_of_applies happlies]
    exact .refl _
  | deposit happlies =>
    rw [← txPool_of_applies happlies]
    exact .refl _

/-- The lists are in order in every state that a run reaches. -/
theorem sound_of_run {config : SequencerConfig} {p : Process S}
    (hrun : runSteps (processStep crates) ⟨some (.new crates config db), []⟩ events = some p)
    (hs : p.sequencer = some s) : Sound s.ctx.txPool := by
  have hinv : ∀ s ∈ p.sequencer, Sound s.ctx.txPool := by
    refine runSteps_induction (I := fun p => ∀ s ∈ p.sequencer, Sound s.ctx.txPool) ?_ ?_ hrun
    · intro p e p' hinv hstep s' hs'
      obtain ⟨s, sent, hs, hcase⟩ := step_of_processStep hstep hs'
      exact (reaches_step hcase).sound (hinv s hs)
    · rintro _ ⟨⟩
      exact sound_empty
  exact hinv s hs

/-! ## A call of `commit_block` -/

/-- The calls of `commit_block` that an event comes to, each with the context that it is
called on and its block. -/
inductive Calls (crates : Crates S) (s : Sequencer S) :
    Event → SequencerContext S → BlockWithSenders → Prop
  | newPayload (payload : ExecutionPayload) (hashes : List Hash) (root : Hash) (now : ℕ)
      {block : BlockWithSenders} (hstate : awaits s.state = true)
      (hahead : ¬ payload.blockNumber > s.ctx.db.headBlockNumber + 1)
      (hhead : payload.blockHash ≠ s.ctx.db.headBlockHash)
      (hblock : payloadToBlock crates payload hashes root = some block) :
      Calls crates s (.engineApi (.newPayloadV3 payload hashes root) now)
        { s.ctx.resetSharedState crates with
          parentHeader := block.header, parentHash := payload.blockHash } block
  | sealed (now : ℕ) {seq : FragSequence} {data : SortingData} {frag : FragV0} {sl : SealV0}
      {envelope : OpExecutionPayloadEnvelope} {ctx : SequencerContext S}
      {block : BlockWithSenders} (hseals : Seals crates s now seq data frag sl envelope ctx)
      (hconfig : ctx.config.commitSealedFragsToDb = true)
      (hblock : payloadToBlock crates envelope.executionPayload []
        envelope.parentBeaconBlockRoot = some block) :
      Calls crates s (.engineApi .getPayloadV3 now) ctx block
  | blockSync (block : BlockWithSenders) (hstate : ∀ seq data, s.state ≠ .sorting seq data) :
      Calls crates s (.blockSync block) s.ctx block

/-- The pool is sound when a block is committed. -/
theorem sound_of_calls (h : Calls crates s e ctx block) (hpool : Sound s.ctx.txPool) :
    Sound ctx.txPool := by
  cases h with
  | newPayload => exact hpool
  | sealed now hseals => exact (reaches_seals hseals).sound hpool
  | blockSync => exact hpool

/-- A block is in a database and was not in it before. -/
def Added (crates : Crates S) (db db' : SequencerDB S) (block : BlockWithSenders) : Prop :=
  (block.header.number, crates.hashSlow block.header) ∈ db'.canonicalHeaders ∧
    (block.header.number, crates.hashSlow block.header) ∉ db.canonicalHeaders

instance (db db' : SequencerDB S) (block : BlockWithSenders) :
    Decidable (Added crates db db' block) :=
  inferInstanceAs (Decidable (_ ∧ _))

/-- A block holds a transaction of this sender and nonce. -/
def Mined (crates : Crates S) (block : BlockWithSenders) (sender : Address) (nonce : UInt64) :
    Prop :=
  ∃ tx ∈ block.transactions, recoverSigner crates tx = some sender ∧ tx.nonce = nonce

/-- A call takes the transactions of the blocks that it adds out of the pool, and no others:
the blocks are its own and those that were kept for later. -/
structure FollowsChain (crates : Crates S) (ctx : SequencerContext S) (block : BlockWithSenders)
    (ctx' : SequencerContext S) : Prop where
  removed : ∀ b ∈ block :: ctx.blockExecutor.pendingBlocks, Added crates ctx.db ctx'.db b →
    ∀ sender nonce, Mined crates b sender nonce →
      OfPool (fun t => ¬ (t.sender = sender ∧ t.nonce = nonce)) ctx'.txPool
  kept : ∀ t, Pooled ctx.txPool t → Pooled ctx'.txPool t ∨
    ∃ b ∈ block :: ctx.blockExecutor.pendingBlocks, Added crates ctx.db ctx'.db b ∧
      ∃ nonce, Mined crates b t.sender nonce

/-! ## What a call adds to the chain -/

/-- The headers after the loop over the pending blocks, the lowest of which comes first here, if
every block that is executed passes.
SRCLINE: block_sync/mod.rs:103-127 -/
def headersDrained (crates : Crates S) :
    List (UInt64 × Hash) → List BlockWithSenders → List (UInt64 × Hash)
  | headers, [] => headers
  | headers, pending :: rest =>
    let db : SequencerDB Unit := ⟨headers, ()⟩
    if pending.header.number ≠ db.headBlockNumber + 1 then headers
    else if pending.header.parentHash ≠ db.headBlockHash then headers.tail
    else
      headersDrained crates
        (putHeader pending.header.number (crates.hashSlow pending.header) headers) rest

/-- The headers after a block is committed on the head or the head is rolled back for it. -/
def headersOnHead (crates : Crates S) (headers : List (UInt64 × Hash))
    (pending : List BlockWithSenders) (block : BlockWithSenders) : List (UInt64 × Hash) :=
  let db : SequencerDB Unit := ⟨headers, ()⟩
  if block.header.number ≠ 0 ∧ db.headBlockHash ≠ block.header.parentHash then headers.tail
  else
    headersDrained crates
      (putHeader block.header.number (crates.hashSlow block.header) headers) pending.reverse

/-- The headers that a call of `commit_block` leaves, if every block that it executes passes: said
of the headers and the pending blocks before the call.
SRCLINE: block_sync/mod.rs:45-144 -/
def headersCommitted (crates : Crates S) (headers : List (UInt64 × Hash))
    (pending : List BlockWithSenders) (block : BlockWithSenders) : List (UInt64 × Hash) :=
  let db : SequencerDB Unit := ⟨headers, ()⟩
  let number := block.header.number
  if number > db.headBlockNumber + 1 then headers
  else if number ≠ 0 ∧ number ≤ db.headBlockNumber then
    if db.blockHashRef number = some (crates.hashSlow block.header) then headers
    else headersOnHead crates (headers.dropWhile (·.1 ≥ number)) pending block
  else headersOnHead crates headers pending block

/-- What a rollback leaves of the headers does not depend on the tables. -/
theorem canonicalHeaders_rollBackTo (number : UInt64) (headers : List (UInt64 × Hash))
    (tables : S) :
    (SequencerDB.rollBackTo crates number headers tables).canonicalHeaders =
      headers.dropWhile (·.1 ≥ number) := by
  induction headers generalizing tables with
  | nil => rfl
  | cons row rest ih =>
    rw [SequencerDB.rollBackTo]
    rw [List.dropWhile_cons]
    split
    · rename_i hge
      rw [ih, if_pos (decide_eq_true hge)]
    · rename_i hlt
      rw [if_neg (by simpa using hlt)]

/-- A block that passes is written to the headers, whatever its execution changes. -/
theorem canonicalHeaders_of_execute (h : db.executeAndMaybeCommit crates block true = .ok db') :
    db'.canonicalHeaders =
      putHeader block.header.number (crates.hashSlow block.header) db.canonicalHeaders := by
  unfold SequencerDB.executeAndMaybeCommit at h
  split at h
  · cases h
  · obtain rfl := Except.ok.inj h
    rfl

/-- The loop over the pending blocks leaves the headers that they determine. -/
theorem canonicalHeaders_drainPending {pending : List BlockWithSenders}
    (h : BlockSync.drainPending crates true db pending = (.ok fetch, sync, db')) :
    db'.canonicalHeaders = headersDrained crates db.canonicalHeaders pending := by
  induction pending generalizing db with
  | nil =>
    obtain ⟨-, -, rfl⟩ : _ ∧ _ ∧ db = db' := by simpa [BlockSync.drainPending] using h
    rfl
  | cons first rest ih =>
    rw [BlockSync.drainPending] at h
    rw [headersDrained]
    -- The head is read off the headers, so the tests of the loop are those of the definition.
    change _ = if first.header.number ≠ db.headBlockNumber + 1 then _ else
      if first.header.parentHash ≠ db.headBlockHash then _ else _
    split at h
    · rename_i hnumber
      rw [if_pos hnumber, ← (Prod.mk.inj (Prod.mk.inj h).2).2]
    · rename_i hnumber
      rw [if_neg hnumber]
      split at h
      · rename_i hparent
        rw [if_pos hparent, ← (Prod.mk.inj (Prod.mk.inj h).2).2]
        rfl
      · rename_i hparent
        rw [if_neg hparent]
        split at h
        · cases h
        · rename_i hexecute
          rw [ih h, canonicalHeaders_of_execute hexecute]

/-- The headers after a commit on the head. -/
theorem canonicalHeaders_commitOnHead
    (h : BlockSync.commitOnHead crates sync db block true = (.ok fetch, sync', db')) :
    db'.canonicalHeaders = headersOnHead crates db.canonicalHeaders sync.pendingBlocks block := by
  unfold BlockSync.commitOnHead at h
  unfold headersOnHead
  change _ = if block.header.number ≠ 0 ∧ db.headBlockHash ≠ block.header.parentHash then _ else _
  split at h
  · rename_i hparent
    rw [if_pos hparent, ← (Prod.mk.inj (Prod.mk.inj h).2).2]
    rfl
  · rename_i hparent
    rw [if_neg hparent]
    split at h
    · cases h
    · rename_i hexecute
      rw [canonicalHeaders_drainPending h, canonicalHeaders_of_execute hexecute]

/-- A call that returns leaves the headers that its block, the headers and the pending
blocks before it determine. -/
theorem canonicalHeaders_commitBlock
    (h : sync.commitBlock crates block db true = some (.ok fetch, sync', db')) :
    db'.canonicalHeaders =
      headersCommitted crates db.canonicalHeaders sync.pendingBlocks block := by
  unfold BlockSync.commitBlock at h
  unfold headersCommitted
  change _ = if block.header.number > db.headBlockNumber + 1 then _ else
    if block.header.number ≠ 0 ∧ block.header.number ≤ db.headBlockNumber then _ else _
  dsimp only at h
  split at h
  · rename_i hahead
    rw [if_pos hahead, ← (Prod.mk.inj (Prod.mk.inj (Option.some.inj h)).2).2]
  · rename_i hahead
    rw [if_neg hahead]
    split at h
    · rename_i hbelow
      rw [if_pos hbelow]
      split at h
      · cases h
      · rename_i hash hhash
        have hread : SequencerDB.blockHashRef ⟨db.canonicalHeaders, ()⟩ block.header.number =
            some hash := hhash
        split at h
        · rename_i hknown
          rw [if_pos (hread.trans (congrArg some hknown)),
            ← (Prod.mk.inj (Prod.mk.inj (Option.some.inj h)).2).2]
        · rename_i hknown
          rw [if_neg fun heq => hknown (Option.some.inj (hread.symm.trans heq)),
            canonicalHeaders_commitOnHead (Option.some.inj h), canonicalHeaders_rollBackTo]
    · rename_i hbelow
      rw [if_neg hbelow, canonicalHeaders_commitOnHead (Option.some.inj h)]

/-- A call with one block adds a block, its own or a pending one: said of the headers and the
pending blocks before the call. -/
def Adds (crates : Crates S) (ctx : SequencerContext S) (block b : BlockWithSenders) : Prop :=
  (b.header.number, crates.hashSlow b.header) ∈ headersCommitted crates ctx.db.canonicalHeaders
      ctx.blockExecutor.pendingBlocks block ∧
    (b.header.number, crates.hashSlow b.header) ∉ ctx.db.canonicalHeaders

instance (ctx : SequencerContext S) (block b : BlockWithSenders) :
    Decidable (Adds crates ctx block b) :=
  inferInstanceAs (Decidable (_ ∧ _))

/-- The blocks that a call adds are those that the state before it says. -/
theorem added_iff_adds (h : ctx.commitBlock crates block = some (ctx', fetch))
    (b : BlockWithSenders) : Added crates ctx.db ctx'.db b ↔ Adds crates ctx block b := by
  have hheaders : ctx'.db.canonicalHeaders = headersCommitted crates ctx.db.canonicalHeaders
      ctx.blockExecutor.pendingBlocks block := by
    unfold SequencerContext.commitBlock at h
    split at h
    · cases h
    · cases h
    · rename_i fetch₁ sync db hsync
      rw [← canonicalHeaders_commitBlock hsync]
      dsimp only at h
      split at h
      · rw [← (Prod.mk.inj (Option.some.inj h)).1]
      · split at h
        · cases h
        · obtain ⟨_, -, heq⟩ := Option.map_eq_some_iff.mp h
          rw [← (Prod.mk.inj heq).1]
  rw [Added, Adds, hheaders]

/-- The pool is told what it has to know of a call, said of the state before it. What the blocks
that the call adds have mined is not above a nonce that its own block has of the sender, of which
the pool is told if it has a base fee, or is not in the pool. The senders of its own block who
have transactions in the pool are senders of a block that it adds. -/
structure Tells (crates : Crates S) (ctx : SequencerContext S) (block : BlockWithSenders) :
    Prop where
  removes : ∀ b ∈ block :: ctx.blockExecutor.pendingBlocks, Adds crates ctx block b →
    ∀ sender nonce, Mined crates b sender nonce →
      (block.header.baseFeePerGas.isSome = true ∧
        ∃ upTo, nonce ≤ upTo ∧ Mined crates block sender upTo) ∨
      OfPool (fun t => ¬ (t.sender = sender ∧ t.nonce = nonce)) ctx.txPool
  keeps : block.header.baseFeePerGas.isSome = true → ∀ t, Pooled ctx.txPool t →
    (∃ nonce, Mined crates block t.sender nonce) →
    ∃ b ∈ block :: ctx.blockExecutor.pendingBlocks, Adds crates ctx block b ∧
      ∃ nonce, Mined crates b t.sender nonce

/-! ## The pool after a call -/

/-- The list has what was mined. -/
theorem mem_minedIn (h : minedIn crates block = some mined) (sender : Address) (nonce : UInt64) :
    (sender, nonce) ∈ mined ↔ Mined crates block sender nonce := by
  unfold minedIn at h
  unfold Mined
  generalize block.transactions = txs at h
  induction txs generalizing mined with
  | nil =>
    obtain rfl := Option.some.inj h
    simp
  | cons tx rest ih =>
    rw [List.mapM_cons] at h
    obtain ⟨first, hfirst, h⟩ := Option.bind_eq_some_iff.mp h
    obtain ⟨later, hlater, h⟩ := Option.bind_eq_some_iff.mp h
    obtain rfl := Option.some.inj h
    obtain ⟨signer, hsigner, rfl⟩ := Option.map_eq_some_iff.mp hfirst
    rw [List.mem_cons, ih hlater, Prod.mk.injEq, List.exists_mem_cons_iff, hsigner,
      Option.some.injEq, eq_comm, @eq_comm _ nonce]

/-- What is left in the pool is above what was mined in the block of the call. -/
theorem ofPool_of_handleNewBlock (hpool : Sound pool)
    (h : pool.handleNewBlock mined baseFee getNonce syncing simSender = some (pool', requests))
    {nonce upTo : UInt64} (hle : nonce ≤ upTo) (hmined : (sender, upTo) ∈ mined) :
    OfPool (fun t => ¬ (t.sender = sender ∧ t.nonce = nonce)) pool' := by
  have hstep : poolStep pool (.handleNewBlock mined baseFee getNonce syncing simSender) =
      some pool' := by
    rw [poolStep, h]
    rfl
  have hpool' := sound_step hpool hstep
  obtain ⟨pool₁, hremoved, hdata⟩ := removals_of_handleNewBlock h
  have hcleared : OrderedPool { pool with activeTxs := .empty } := hpool.ordered
  refine ofPool_of_poolData h fun e he t ht => ?_
  rintro ⟨hsender, hnonce⟩
  have htxs : senderTxs pool' e.1 = e.2.txs := senderTxs_of_lookup (AList.mem_lookup_iff.mpr he)
  rw [← htxs] at ht
  rw [← hpool'.bySender e.1 t ht, hsender, senderTxs_congr hdata] at ht
  have hlt := lt_of_removeMinedTxs hcleared hremoved hmined ht
  rw [hnonce] at hlt
  exact absurd hle (UInt64.not_le.mpr hlt)

/-- A transaction leaves the pool only if one of its sender was mined. -/
theorem pooled_of_handleNewBlock
    (h : pool.handleNewBlock mined baseFee getNonce syncing simSender = some (pool', requests))
    (ht : Pooled pool t) :
    Pooled pool' t ∨ ∃ nonce, (t.sender, nonce) ∈ mined := by
  by_cases hmined : ∃ nonce, (t.sender, nonce) ∈ mined
  · exact .inr hmined
  · obtain ⟨pool₁, hremoved, hdata⟩ := removals_of_handleNewBlock h
    refine .inl ?_
    rw [Pooled, senderTxs_congr hdata, senderTxs_of_notMined hremoved (not_exists.mp hmined)]
    exact ht

/-- If the pool is told what it has to know of a call, it follows the chain. What leaves it then has
no higher nonce than one of the block, if the nonces of the block are those that its senders are at.
SRCLINE: sequencer/src/context.rs:316-339, block_sync/mod.rs:45-144, transaction/pool.rs:120-161 -/
theorem followsChain_of_tells {config : SequencerConfig} {db : SequencerDB S}
    {events : List Event} {p : Process S} {s : Sequencer S} {e : Event}
    {ctx ctx' : SequencerContext S} {block : BlockWithSenders} {fetch : Option (UInt64 × UInt64)}
    (hrun : runSteps (processStep crates) ⟨some (.new crates config db), []⟩ events = some p)
    (hs : p.sequencer = some s) (hcalls : Calls crates s e ctx block)
    (htells : Tells crates ctx block)
    (hcommit : ctx.commitBlock crates block = some (ctx', fetch)) :
    FollowsChain crates ctx block ctx' ∧
      ((∀ sender nonce, Mined crates block sender nonce →
          Exact (senderTxs ctx.txPool sender) nonce) →
        ∀ t, Pooled ctx.txPool t → Pooled ctx'.txPool t ∨
          ∃ nonce, Mined crates block t.sender nonce ∧ t.nonce ≤ nonce) := by
  have hpool := sound_of_calls hcalls (sound_of_run hrun hs)
  have hadds := added_iff_adds hcommit
  obtain ⟨hfee, hsame⟩ | ⟨baseFee, mined, getNonce, requests, hfee, hmined, hnew⟩ :=
    pool_of_commitBlock hcommit
  -- The pool is not told of the block, so what is added must not be in the pool.
  · rw [hsame]
    refine ⟨⟨fun b hb hadded sender nonce hmined => ?_, fun t ht => ?_⟩, fun _ t ht => .inl ht⟩
    · rw [hsame]
      obtain ⟨hsome, -⟩ | hnone := htells.removes b hb ((hadds b).mp hadded) sender nonce hmined
      · rw [hfee] at hsome
        cases hsome
      · exact hnone
    · rw [hsame]
      exact .inl ht
  · have hsome : block.header.baseFeePerGas.isSome = true := by
      rw [hfee]
      rfl
    refine ⟨⟨fun b hb hadded sender nonce hmined' => ?_, fun t ht => ?_⟩, fun hexact t ht => ?_⟩
    · obtain ⟨-, upTo, hle, hown⟩ | hnone :=
        htells.removes b hb ((hadds b).mp hadded) sender nonce hmined'
      · exact ofPool_of_handleNewBlock hpool hnew hle ((mem_minedIn hmined sender upTo).mpr hown)
      · exact ofPool_handleNewBlock hnone hnew
    · obtain hstays | ⟨nonce, hmem⟩ := pooled_of_handleNewBlock hnew ht
      · exact .inl hstays
      · obtain ⟨b, hb, hb', hmined'⟩ :=
          htells.keeps hsome t ht ⟨nonce, (mem_minedIn hmined _ _).mp hmem⟩
        exact .inr ⟨b, hb, (hadds b).mpr hb', hmined'⟩
    · have hcleared : OrderedPool { ctx.txPool with activeTxs := .empty } := hpool.ordered
      have hmined' := along_exactIn hcleared
        fun r hr => hexact r.1 r.2 ((mem_minedIn hmined r.1 r.2).mp hr)
      obtain hstays | ⟨nonce, hmem, hle⟩ :=
        stays_of_handleNewBlock hpool.ordered hmined' hnew ht
      · exact .inl hstays
      · exact .inr ⟨nonce, (mem_minedIn hmined _ _).mp hmem, hle⟩

/-- A block with the one transaction of `plainRawTx [0]`. -/
def minedBlock (payload : ExecutionPayload) : BlockWithSenders :=
  { plainBlock payload with transactions := [(plainRawTx [0]).tx], senders := [7] }

/-- A block comes in after some events: the sequencer then, and the context after the call. -/
def BlockComesIn (events : List Event) (block : BlockWithSenders) (s : Sequencer ℕ)
    (ctx' : SequencerContext ℕ) : Prop :=
  ∃ p fetch, runSteps (processStep plainCrates) (plainProcess false) events = some p ∧
    p.sequencer = some s ∧ Calls plainCrates s (.blockSync block) s.ctx block ∧
    s.ctx.commitBlock plainCrates block = some (ctx', fetch)

/-- What such a call comes to: the blocks that were pending, and the headers and whether the
transaction is in the pool, before the call and after it. -/
structure CallView where
  pendingBlocks : List BlockWithSenders
  headersBefore : List (UInt64 × Hash)
  pooledBefore : Bool
  headersAfter : List (UInt64 × Hash)
  pooledAfter : Bool
deriving DecidableEq

def callView (events : List Event) (block : BlockWithSenders) : Option CallView :=
  (runSteps (processStep plainCrates) (plainProcess false) events).bind fun p =>
    p.sequencer.bind fun s =>
      match s.state with
      | .sorting _ _ => none
      | _ => (s.ctx.commitBlock plainCrates block).map fun (ctx', _) =>
        { pendingBlocks := s.ctx.blockExecutor.pendingBlocks
          headersBefore := s.ctx.db.canonicalHeaders
          pooledBefore := decide (Pooled s.ctx.txPool (plainRawTx [0]))
          headersAfter := ctx'.db.canonicalHeaders
          pooledAfter := decide (Pooled ctx'.txPool (plainRawTx [0])) }

/-- What the computed view says. -/
theorem blockComesIn_of_callView {v : CallView} (h : callView events block = some v) :
    ∃ s ctx', BlockComesIn events block s ctx' ∧
      s.ctx.blockExecutor.pendingBlocks = v.pendingBlocks ∧
      s.ctx.db.canonicalHeaders = v.headersBefore ∧ ctx'.db.canonicalHeaders = v.headersAfter ∧
      (Pooled s.ctx.txPool (plainRawTx [0]) ↔ v.pooledBefore = true) ∧
      (Pooled ctx'.txPool (plainRawTx [0]) ↔ v.pooledAfter = true) := by
  obtain ⟨p, hrun, h⟩ := Option.bind_eq_some_iff.mp h
  obtain ⟨s, hs, h⟩ := Option.bind_eq_some_iff.mp h
  split at h
  · cases h
  · rename_i hstate
    obtain ⟨⟨ctx', fetch⟩, hcommit, rfl⟩ := Option.map_eq_some_iff.mp h
    exact ⟨s, ctx', ⟨p, fetch, hrun, hs, .blockSync block hstate, hcommit⟩, rfl, rfl, rfl,
      decide_eq_true_iff.symm, decide_eq_true_iff.symm⟩

/-- The example block mines the transaction. -/
theorem mined_minedBlock (payload : ExecutionPayload) :
    Mined plainCrates (minedBlock payload) 7 0 :=
  ⟨_, List.mem_cons_self, rfl, rfl⟩

/-- A block that is committed takes its transaction out of the pool, and one without transactions
that is kept for later takes nothing. -/
theorem followsChain_of_tells_plain :
    (∃ s ctx', BlockComesIn [.newTx (plainRawTx [0])] (minedBlock plainPayload1) s ctx' ∧
      Added plainCrates s.ctx.db ctx'.db (minedBlock plainPayload1) ∧
      Pooled s.ctx.txPool (plainRawTx [0]) ∧ ¬ Pooled ctx'.txPool (plainRawTx [0]) ∧
      FollowsChain plainCrates s.ctx (minedBlock plainPayload1) ctx') ∧
    ∃ s ctx', BlockComesIn [.newTx (plainRawTx [0])] (plainBlock plainPayload2) s ctx' ∧
      ¬ Added plainCrates s.ctx.db ctx'.db (plainBlock plainPayload2) ∧
      Pooled ctx'.txPool (plainRawTx [0]) ∧
      FollowsChain plainCrates s.ctx (plainBlock plainPayload2) ctx' := by
  constructor
  · have hview : callView [.newTx (plainRawTx [0])] (minedBlock plainPayload1) =
        some ⟨[], [(0, plainPayload0.blockHash)], true,
          [(1, plainPayload1.blockHash), (0, plainPayload0.blockHash)], false⟩ := by
      decide +kernel
    obtain ⟨s, ctx', hcall, hpending, hheaders, hheaders', hbefore, hafter⟩ :=
      blockComesIn_of_callView hview
    obtain ⟨p, fetch, hrun, hs, hcalls, hcommit⟩ := id hcall
    have hadds : Adds plainCrates s.ctx (minedBlock plainPayload1) (minedBlock plainPayload1) := by
      unfold Adds
      rw [hheaders, hpending]
      decide +kernel
    have htells : Tells plainCrates s.ctx (minedBlock plainPayload1) := by
      refine ⟨fun b hb _ sender nonce hmined => ?_, fun _ t _ hmined => ?_⟩
      · rw [hpending, List.mem_singleton] at hb
        exact .inl ⟨rfl, nonce, UInt64.le_refl _, hb ▸ hmined⟩
      · exact ⟨_, List.mem_cons_self, hadds, hmined⟩
    exact ⟨s, ctx', hcall, (added_iff_adds hcommit _).mpr hadds, hbefore.mpr rfl,
      fun h => (nomatch hafter.mp h), (followsChain_of_tells hrun hs hcalls htells hcommit).1⟩
  · have hview : callView [.newTx (plainRawTx [0])] (plainBlock plainPayload2) =
        some ⟨[], [(0, plainPayload0.blockHash)], true, [(0, plainPayload0.blockHash)],
          true⟩ := by
      decide +kernel
    obtain ⟨s, ctx', hcall, hpending, hheaders, hheaders', hbefore, hafter⟩ :=
      blockComesIn_of_callView hview
    obtain ⟨p, fetch, hrun, hs, hcalls, hcommit⟩ := id hcall
    have hempty : ∀ sender nonce, ¬ Mined plainCrates (plainBlock plainPayload2) sender nonce :=
      fun _ _ ⟨_, hmem, _⟩ => (nomatch hmem)
    have htells : Tells plainCrates s.ctx (plainBlock plainPayload2) := by
      refine ⟨fun b hb _ sender nonce hmined => ?_, fun _ t _ ⟨nonce, hmined⟩ => ?_⟩
      · rw [hpending, List.mem_singleton] at hb
        exact absurd (hb ▸ hmined) (hempty sender nonce)
      · exact absurd hmined (hempty _ nonce)
    have hsame := hheaders'.trans hheaders.symm
    exact ⟨s, ctx', hcall, fun hadded => hadded.2 (hsame ▸ hadded.1), hafter.mpr rfl,
      (followsChain_of_tells hrun hs hcalls htells hcommit).1⟩

/-- A block that is only kept for later takes its transaction out of the pool, and one that was
kept and is committed with another leaves its transaction there. -/
theorem not_followsChain_plain :
    (∃ s ctx', BlockComesIn [.newTx (plainRawTx [0])] (minedBlock plainPayload2) s ctx' ∧
      ctx'.db.canonicalHeaders = s.ctx.db.canonicalHeaders ∧
      Pooled s.ctx.txPool (plainRawTx [0]) ∧ ¬ Pooled ctx'.txPool (plainRawTx [0]) ∧
      ¬ FollowsChain plainCrates s.ctx (minedBlock plainPayload2) ctx') ∧
    ∃ s ctx', BlockComesIn [.blockSync (minedBlock plainPayload2), .newTx (plainRawTx [0])]
        (plainBlock plainPayload1) s ctx' ∧
      Added plainCrates s.ctx.db ctx'.db (minedBlock plainPayload2) ∧
      Mined plainCrates (minedBlock plainPayload2) 7 0 ∧ Pooled ctx'.txPool (plainRawTx [0]) ∧
      ¬ FollowsChain plainCrates s.ctx (plainBlock plainPayload1) ctx' := by
  constructor
  · have hview : callView [.newTx (plainRawTx [0])] (minedBlock plainPayload2) =
        some ⟨[], [(0, plainPayload0.blockHash)], true, [(0, plainPayload0.blockHash)],
          false⟩ := by
      decide +kernel
    obtain ⟨s, ctx', hcall, hpending, hheaders, hheaders', hbefore, hafter⟩ :=
      blockComesIn_of_callView hview
    have hgone : ¬ Pooled ctx'.txPool (plainRawTx [0]) := fun h => nomatch hafter.mp h
    have hsame := hheaders'.trans hheaders.symm
    refine ⟨s, ctx', hcall, hsame, hbefore.mpr rfl, hgone, fun hfollows => ?_⟩
    obtain hstays | ⟨b, -, ⟨hin, hout⟩, -⟩ := hfollows.kept (plainRawTx [0]) (hbefore.mpr rfl)
    · exact hgone hstays
    · exact hout (hsame ▸ hin)
  · have hview : callView [.blockSync (minedBlock plainPayload2), .newTx (plainRawTx [0])]
        (plainBlock plainPayload1) =
        some ⟨[minedBlock plainPayload2], [(0, plainPayload0.blockHash)], true,
          [(2, plainPayload2.blockHash), (1, plainPayload1.blockHash),
            (0, plainPayload0.blockHash)], true⟩ := by
      decide +kernel
    obtain ⟨s, ctx', hcall, hpending, hheaders, hheaders', hbefore, hafter⟩ :=
      blockComesIn_of_callView hview
    have hadded : Added plainCrates s.ctx.db ctx'.db (minedBlock plainPayload2) := by
      unfold Added
      rw [hheaders, hheaders']
      decide +kernel
    have hpooled := hafter.mpr rfl
    refine ⟨s, ctx', hcall, hadded, mined_minedBlock _, hpooled, fun hfollows => ?_⟩
    have hmem : minedBlock plainPayload2 ∈
        plainBlock plainPayload1 :: s.ctx.blockExecutor.pendingBlocks := by
      rw [hpending]
      exact List.mem_cons_of_mem _ List.mem_cons_self
    have hnone := hfollows.removed _ hmem hadded 7 0 (mined_minedBlock _)
    exact of_pooled hnone hpooled ⟨rfl, rfl⟩

end BasedOp.Analysis.PoolAndChain
