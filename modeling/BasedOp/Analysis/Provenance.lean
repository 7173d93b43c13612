import BasedOp.Analysis.BlockContents
import BasedOp.Analysis.PoolContents

/-!
# Where the transactions of a block come from

Whatever is in a block is forced by its attributes or was submitted: what holds of every
transaction that was submitted holds of all transactions in the pool, in the queue of
deposits, among the orders and in the requests under way (`Holds`, `SubmittedInv`), and so
of all that a block has after the forced transactions. If no deposit is submitted, and the
attributes have their deposits first and once, a block has these deposits and no others.
-/

set_option autoImplicit false

namespace BasedOp.Analysis.Provenance

open BasedOp.Computation Model Model.Gateway
open SequencerSteps SequencerFrames
open WorldSteps StateIds
open BlockContents PoolContents

variable {S : Type} {crates : Crates S} {p : Transaction → Prop} {q : OpPayloadAttributes → Prop}

/-! ## What waits to be included -/

/-- What waits in the pool and in the queue of deposits. -/
structure OfContext (p : Transaction → Prop) (ctx : SequencerContext S) : Prop where
  txPool : OfPool p ctx.txPool
  deposits : ∀ tx ∈ ctx.deposits, p tx

variable {ctx ctx' : SequencerContext S} {now : ℕ} {seq seq' : FragSequence}
  {data data' : SortingData} {e : Event} {sent : List Output}

/-- Removing what was mined adds nothing. -/
theorem ofContext_removeMinedTxs {txs : List SimulatedTx} (h : OfContext p ctx)
    (hmined : ctx.removeMinedTxs txs = some ctx') : OfContext p ctx' := by
  obtain ⟨pool, hpool, rfl⟩ := Option.map_eq_some_iff.mp hmined
  exact ⟨ofPool_removeMinedTxs h.txPool hpool, h.deposits⟩

/-- Starting a block adds nothing to the pool. -/
theorem ofContext_startWith {params : EvmBlockParams} (h : OfContext p ctx)
    (hstart : ctx.startWith crates params now = some (seq, data, ctx')) : OfContext p ctx' := by
  obtain ⟨-, -, -, -, -, hdeposits, ctx₁, hpool, hmined⟩ := grows_of_startWith hstart
  obtain ⟨pool, hremoved, rfl⟩ := Option.map_eq_some_iff.mp hmined
  rw [hpool] at hremoved
  refine ⟨ofPool_removeMinedTxs h.txPool hremoved, ?_⟩
  rw [hdeposits]
  exact h.deposits

/-- Cutting a frag adds nothing to it. -/
theorem ofContext_cuts {msg : FragV0} (h : OfContext p ctx)
    (hcuts : Cuts crates ctx data seq now msg data' seq' ctx') : OfContext p ctx' := by
  obtain ⟨-, -, -, -, -, -, hdeposits, hmined⟩ := grows_of_cuts hcuts
  refine ⟨ofPool_removeMinedTxs h.txPool hmined, ?_⟩
  rw [hdeposits]
  exact h.deposits

/-- Sealing a block adds nothing to it. -/
theorem ofContext_seals {s : Sequencer S} {frag : FragV0} {sl : SealV0}
    {envelope : OpExecutionPayloadEnvelope} (h : OfContext p s.ctx)
    (hseals : Seals crates s now seq data frag sl envelope ctx) : OfContext p ctx := by
  obtain ⟨msg, data', seq', ctx₁, -, hcuts, hfrom⟩ := sealedFrom_of_seals hseals
  obtain ⟨hpool, hdeposits⟩ := ofContext_cuts h hcuts
  rw [hfrom.ctx_eq]
  exact ⟨hpool, hdeposits⟩

/-- A block from outside only takes transactions out of the pool. -/
theorem ofContext_commitBlock {block : BlockWithSenders} {fetch : Option (UInt64 × UInt64)}
    (h : OfContext p ctx) (hcommit : ctx.commitBlock crates block = some (ctx', fetch)) :
    OfContext p ctx' := by
  unfold SequencerContext.commitBlock at hcommit
  split at hcommit
  · cases hcommit
  · cases hcommit
  · dsimp only at hcommit
    split at hcommit
    · obtain ⟨rfl, -⟩ := Prod.mk.inj (Option.some.inj hcommit)
      exact ⟨h.txPool, h.deposits⟩
    · split at hcommit
      · cases hcommit
      · obtain ⟨⟨pool, txs⟩, hpool, heq⟩ := Option.map_eq_some_iff.mp hcommit
        obtain ⟨rfl, -⟩ := Prod.mk.inj heq
        exact ⟨ofPool_handleNewBlock h.txPool hpool, h.deposits⟩

/-- A transaction that arrives is queued, or goes into the pool. -/
theorem ofContext_handleTx {tx : Transaction} {requests : List SequencerToSimulator}
    (h : OfContext p ctx) (htx : p tx) (htakes : ctx.handleTx crates tx = some (ctx', requests)) :
    OfContext p ctx' ∧ ∀ request ∈ requests, p request.tx := by
  obtain ⟨-, hdeposits, hpool, rfl⟩ | ⟨-, hdeposits, txs, hpool, rfl⟩ :=
    (takesTx_of_handleTx htakes).queues
  · refine ⟨⟨by rw [hpool]; exact h.txPool, ?_⟩, fun _ h => (nomatch h)⟩
    rw [hdeposits]
    intro t ht
    obtain hold | hnew := List.mem_append.mp ht
    · exact h.deposits t hold
    · rw [List.mem_singleton.mp hnew]
      exact htx
  · obtain ⟨hpool', htxs⟩ := ofPool_handleNewTx h.txPool htx hpool
    refine ⟨⟨hpool', by rw [hdeposits]; exact h.deposits⟩, fun request hrequest => ?_⟩
    obtain ⟨t, ht, rfl⟩ := List.mem_map.mp hrequest
    exact htxs t ht

/-- Applying a transaction leaves what waits, and adds no order. -/
theorem of_applies {s : Sequencer S} (hctx : OfContext p s.ctx)
    (hdata : ∀ seq data, s.state = .sorting seq data → OfSorting p data)
    (h : Applies crates s e seq data' ctx) : OfContext p ctx ∧ OfSorting p data' := by
  cases h with
  | best now hstate hwaiting hseal hflight happly =>
    have hold := hdata _ _ hstate
    unfold SortingData.maybeApply at happly
    split at happly
    · obtain ⟨rfl, rfl⟩ := Prod.mk.inj (Option.some.inj happly)
      exact ⟨hctx, hold⟩
    · split at happly
      · cases happly
      · rename_i tx hnext orders hremove
        obtain ⟨rfl, rfl⟩ := Prod.mk.inj (Option.some.inj happly)
        exact ⟨⟨hctx.txPool, hctx.deposits⟩,
          ofOrders_removeFromSender hold.tofSnapshot hremove, fun _ h => (nomatch h)⟩
  | deposit result tx hstate =>
    have hold := hdata _ _ hstate
    exact ⟨⟨hctx.txPool, hctx.deposits⟩, hold.tofSnapshot, hold.nextToBeApplied⟩

/-! ## What a step does -/

/-- What comes in with an event meets the conditions on transactions and attributes. -/
def Admits (p : Transaction → Prop) (q : OpPayloadAttributes → Prop) : Event → Prop
  | .newTx tx => p tx
  | .simResult result =>
    match result.msg with
    | .tx (.ok t) => p t.tx
    | .txPoolTopOfFrag (.ok t) => p t.tx
    | _ => True
  | .engineApi (.forkChoiceUpdatedV3 _ (some attributes)) _ => q attributes
  | _ => True

instance [DecidablePred p] [DecidablePred q] (e : Event) : Decidable (Admits p q e) := by
  rcases e with _ | _ | result | ⟨⟨_, _ | _⟩ | _ | _, _⟩ | _
  case simResult =>
    dsimp only [Admits]
    rcases result.msg with (_ | _) | (_ | _) <;> infer_instance
  all_goals
    unfold Admits
    infer_instance

variable {result : SimulatorToSequencer} {txs rest : List Transaction}

/-- Results are of admitted transactions. -/
theorem admits_tx {t : SimulatedTx} (h : Admits p q (.simResult result))
    (hmsg : result.msg = .tx (.ok t)) : p t.tx := by
  simpa only [Admits, hmsg] using h

/-- So are those for the pool. -/
theorem admits_topOfFrag {t : SimulatedTx} (h : Admits p q (.simResult result))
    (hmsg : result.msg = .txPoolTopOfFrag (.ok t)) :
    p t.tx := by
  simpa only [Admits, hmsg] using h

/-- What was submitted meets the condition wherever it is, and the block that is built has
nothing else after the forced transactions. -/
structure Holds (crates : Crates S) (p : Transaction → Prop) (q : OpPayloadAttributes → Prop)
    (s : Sequencer S) : Prop where
  ctx : OfContext p s.ctx
  sorting : ∀ seq data, s.state = .sorting seq data → OfSorting p data
  attributes : ∀ seq data, s.state = .sorting seq data → q s.ctx.payloadAttributes ∧
    (forcedTxs crates s.ctx.payloadAttributes).map Transaction.encode =
      s.ctx.payloadAttributes.transactions.getD []
  block : ∀ seq data, s.state = .sorting seq data →
    ∃ rest, included s = forcedTxs crates s.ctx.payloadAttributes ++ rest ∧ ∀ tx ∈ rest, p tx

variable {s s' : Sequencer S}

/-- A step keeps what the pool holds. -/
theorem ofContext_step (hinv : Holds crates p q s) (hadmits : Admits p q e)
    (h : Step crates s e sent s') : OfContext p s'.ctx := by
  have hctx := hinv.ctx
  cases h with
  | ignored => exact hctx
  | fetch => exact hctx
  | known => exact ⟨hctx.txPool, hctx.deposits⟩
  | newPayload payload hashes root now hstate hahead hhead hblock hcommit =>
    refine ofContext_commitBlock ?_ hcommit
    exact ⟨hctx.txPool, hctx.deposits⟩
  | noAttributes => exact hctx
  | start attributes now hstate hparent hparams hstart =>
    refine ofContext_startWith ?_ hstart
    exact ⟨hctx.txPool, hctx.deposits⟩
  | sealed now hseals => exact ofContext_seals hctx hseals
  | committed now hseals hconfig hblock hcommit =>
    obtain ⟨hpool, hdeposits⟩ := ofContext_commitBlock (ofContext_seals hctx hseals) hcommit
    exact ⟨hpool, hdeposits⟩
  | synced block hstate hcommit => exact ofContext_commitBlock hctx hcommit
  | imported block hstate hcommit => exact ofContext_commitBlock hctx hcommit
  | newTx tx hwaiting htx => exact (ofContext_handleTx hctx hadmits htx).1
  | simulated => exact hctx
  | topOfFrag result hwaiting hmsg hvalid hpool =>
    exact ⟨ofPool_handleSimulated hctx.txPool (admits_topOfFrag hadmits hmsg) hpool, hctx.deposits⟩
  | topOfFragFailed result hwaiting hmsg hpool =>
    exact ⟨ofPool_remove hctx.txPool hpool, hctx.deposits⟩
  | cut now hstate hwaiting hseal hmined hfrag =>
    exact ofContext_cuts (ofContext_removeMinedTxs hctx hmined) (cuts_of_sealFrag hfrag)
  | orders happlies => exact (of_applies hctx hinv.sorting happlies).1
  | deposit happlies hdeposits =>
    obtain ⟨hpool, hqueue⟩ := (of_applies hctx hinv.sorting happlies).1
    rw [hdeposits] at hqueue
    exact ⟨hpool, fun tx htx => hqueue tx (List.mem_cons_of_mem _ htx)⟩

/-- The orders that a new frag begins with are those of the pool, or none. -/
theorem ofOrders_snapshot (hctx : OfContext p ctx) (noTxPool : Bool) :
    OfOrders p (if noTxPool then [] else ActiveOrders.new crates ctx.txPool.activeTxs.txs) := by
  by_cases hflag : noTxPool = true
  · rw [if_pos hflag]
    exact fun _ h => (nomatch h)
  · rw [if_neg hflag]
    exact ofOrders_new crates hctx.txPool.activeTxs

/-- A step keeps what is sorted. -/
theorem ofSorting_step (hinv : Holds crates p q s) (hadmits : Admits p q e)
    (h : Step crates s e sent s') (hstate' : s'.state = .sorting seq' data') :
    OfSorting p data' := by
  have hctx' := ofContext_step hinv hadmits h
  cases fragStep_of_step h with
  | leaves hleaves => exact absurd hstate' (hleaves _ _)
  | starts attributes now hawaits hparent hparams hstart =>
    cases hstate'
    obtain ⟨-, -, -, hnext, horders, -⟩ := grows_of_startWith hstart
    refine ⟨?_, by rw [hnext]; exact fun _ h => (nomatch h)⟩
    rw [horders]
    have hctx : OfContext p { s.ctx with payloadAttributes := attributes } :=
      ⟨hinv.ctx.txPool, hinv.ctx.deposits⟩
    exact ofOrders_snapshot hctx _
  | cuts now hstate hwaiting hmined hcuts =>
    cases hstate'
    obtain ⟨-, -, -, hnext, -, horders, -⟩ := grows_of_cuts hcuts
    refine ⟨?_, by rw [hnext]; exact fun _ h => (nomatch h)⟩
    rw [horders]
    exact ofOrders_snapshot hctx' _
  | keeps hstate hdata =>
    cases hstate'
    have hold := hinv.sorting _ _ hstate
    obtain rfl | ⟨tx, rfl, rfl⟩ := hdata
    · exact hold
    · refine ⟨fun l hl => ?_, hold.nextToBeApplied⟩
      obtain rfl | hrest := List.mem_cons.mp hl
      · exact ⟨fun _ h => (nomatch h), ofList_fromTx hadmits⟩
      · exact hold.tofSnapshot l hrest
  | takes result hstate hwaiting hvalid hmsg hsim =>
    cases hstate'
    refine ofSorting_handleSim (hinv.sorting _ _ hstate) ?_ hsim
    rintro t rfl
    exact admits_tx hadmits hmsg
  | orders happlies hdeposits hsend =>
    cases hstate'
    have hold := (of_applies hinv.ctx hinv.sorting happlies).2
    refine ⟨(ofOrders_sendNext hold.tofSnapshot hsend).1, ?_⟩
    rw [(sends_of_sendNext hsend).nextToBeApplied]
    exact hold.nextToBeApplied
  | deposit happlies =>
    cases hstate'
    exact (of_applies hinv.ctx hinv.sorting happlies).2

/-- Only what waits is sent to the simulators. -/
theorem requests_step (hinv : Holds crates p q s) (hadmits : Admits p q e)
    (h : Step crates s e sent s') :
    ∀ request ∈ World.sentRequests sent, p request.tx := by
  cases h with
  | newTx tx hwaiting htx =>
    rw [sentRequests_simulate]
    exact (ofContext_handleTx hinv.ctx hadmits htx).2
  | orders happlies hdeposits hsend =>
    rw [sentRequests_simulate]
    exact (ofOrders_sendNext (of_applies hinv.ctx hinv.sorting happlies).2.tofSnapshot hsend).2
  | deposit happlies hdeposits =>
    intro request hrequest
    rw [List.mem_singleton.mp hrequest]
    refine (of_applies hinv.ctx hinv.sorting happlies).1.deposits _ ?_
    rw [hdeposits]
    exact List.mem_cons_self
  | _ => simp [World.sentRequests]

/-- A step keeps what the block holds. -/
theorem block_step (hinv : Holds crates p q s) (hadmits : Admits p q e)
    (h : Step crates s e sent s') (hstate' : s'.state = .sorting seq' data') :
    (q s'.ctx.payloadAttributes ∧
      (forcedTxs crates s'.ctx.payloadAttributes).map Transaction.encode =
        s'.ctx.payloadAttributes.transactions.getD []) ∧
      ∃ rest, included s' = forcedTxs crates s'.ctx.payloadAttributes ++ rest ∧
        ∀ tx ∈ rest, p tx := by
  obtain ⟨⟨seq, data, hstate⟩, hsame, -⟩ | ⟨attributes, now, params, rfl, -, -, -, hstart, -⟩ :=
    (fragStep_of_step h).block hstate'
  · rw [hsame.payloadAttributes]
    refine ⟨hinv.attributes _ _ hstate, ?_⟩
    obtain ⟨rest, hrest, hp⟩ := hinv.block _ _ hstate
    obtain hkept | ⟨tx, hadded, hfrom⟩ := included_of_step h hstate hstate'
    · exact ⟨rest, hkept.trans hrest, hp⟩
    · have htx : p tx.tx := by
        obtain ⟨-, hnext⟩ | ⟨-, result, rfl, -, hmsg⟩ := hfrom
        · exact (hinv.sorting _ _ hstate).nextToBeApplied tx hnext
        · exact admits_tx hadmits hmsg
      refine ⟨rest ++ [tx.tx], by rw [hadded, hrest, List.append_assoc], fun t ht => ?_⟩
      obtain hold | hnew := List.mem_append.mp ht
      · exact hp t hold
      · rw [List.mem_singleton.mp hnew]
        exact htx
  · obtain ⟨htxs, hforced⟩ := txs_of_startWith hstart
    have hattributes : s'.ctx.payloadAttributes = attributes :=
      (starts_of_startWith hstart).same.payloadAttributes
    rw [hattributes, included_eq hstate']
    exact ⟨⟨hadmits, hforced⟩, [], by rw [List.append_nil]; exact htxs, fun _ h => (nomatch h)⟩

/-- What one step of the sequencer preserves. -/
theorem holds_step (hinv : Holds crates p q s) (hadmits : Admits p q e)
    (h : Step crates s e sent s') : Holds crates p q s' where
  ctx := ofContext_step hinv hadmits h
  sorting := fun _ _ hstate' => ofSorting_step hinv hadmits h hstate'
  attributes := fun _ _ hstate' => (block_step hinv hadmits h hstate').1
  block := fun _ _ hstate' => (block_step hinv hadmits h hstate').2

/-! ## What a run does -/

/-- What comes in from outside meets the conditions. -/
def Inputs (p : Transaction → Prop) (q : OpPayloadAttributes → Prop) : WorldEvent → Prop
  | .sequencer e => Admits p q e
  | _ => True

instance [DecidablePred p] [DecidablePred q] (e : WorldEvent) : Decidable (Inputs p q e) := by
  unfold Inputs
  split <;> infer_instance

variable {w w' : World S}

structure SubmittedInv (crates : Crates S) (p : Transaction → Prop) (q : OpPayloadAttributes → Prop)
    (w : World S) : Prop where
  holds : Holds crates p q w.sequencer
  requests : ∀ request ∈ outstanding w, p request.tx
  answered : Answered w

/-- A result is that of a transaction that was sent. -/
theorem admits_result {r : SimResult}
    (hanswered : ∃ outcome, r.result = resultMessage r.request outcome)
    (hrequest : p r.request.tx) : Admits p q (.simResult r.result) := by
  obtain ⟨outcome, houtcome⟩ := hanswered
  unfold Admits
  dsimp only
  split
  · rename_i t hmsg
    obtain ⟨tx, arc, heq, htx⟩ := request_of_tx houtcome hmsg
    rw [heq] at hrequest
    rw [htx t rfl]
    exact hrequest
  · rename_i t hmsg
    obtain ⟨tx, heq, htx⟩ := request_of_tof houtcome hmsg
    rw [heq] at hrequest
    rw [htx t rfl]
    exact hrequest
  · trivial

/-- Requests are old or sent by the step. -/
theorem requests_moved {s' : Sequencer S} (hold : ∀ request ∈ outstanding w, p request.tx)
    (hsent : ∀ request ∈ World.sentRequests sent, p request.tx) :
    ∀ request ∈ outstanding (moved crates w sent s'), p request.tx := by
  intro request hrequest
  obtain hmem | hnew := List.mem_append.mp ((outstanding_moved w sent s').mem_iff.mp hrequest)
  · exact hold request hmem
  · exact hsent request hnew

/-- What one event preserves. -/
theorem submittedInv_worldStep {e : WorldEvent} (hinputs : Inputs p q e)
    (hinv : SubmittedInv crates p q w) (h : WorldStep crates w e w') :
    SubmittedInv crates p q w' := by
  have hanswered := answered_worldStep hinv.answered h
  cases h with
  | sequencer hexternal hstep =>
    exact ⟨holds_step hinv.holds hinputs hstep,
      requests_moved hinv.requests (requests_step hinv.holds hinputs hstep), hanswered⟩
  | @deliver i r sent s' hr hstep =>
    have hmem := List.mem_of_getElem? hr
    have hadmits : Admits p q (.simResult r.result) :=
      admits_result (hinv.answered r hmem) (hinv.requests _ (mem_outstanding_of_result hmem))
    have hleft : ∀ request ∈ outstanding (taken w i r), p request.tx := fun request hrequest =>
      hinv.requests request ((outstanding_taken hr).mem_iff.mp (List.mem_cons_of_mem _ hrequest))
    exact ⟨holds_step hinv.holds hadmits hstep,
      requests_moved hleft (requests_step hinv.holds hadmits hstep), hanswered⟩
  | simulator hsim =>
    obtain ⟨hsequencer, -, -, -, hperm⟩ := hsim.quiet
    refine ⟨by rw [hsequencer]; exact hinv.holds, fun request hrequest => ?_, hanswered⟩
    exact hinv.requests request (hperm.mem_iff.mp hrequest)

/-- It holds in every state that a run reaches. -/
theorem submittedInv_run {config : SequencerConfig} {db : SequencerDB S} {n : ℕ}
    {events : List WorldEvent}
    (hinputs : Along (World.step crates) (fun _ e => Inputs p q e)
      (World.start (.new crates config db) n) events)
    (hrun : runSteps (World.step crates) (World.start (.new crates config db) n) events = some w) :
    SubmittedInv crates p q w := by
  have hstart : SubmittedInv crates p q (World.start (.new crates config db) n) :=
    { holds :=
        { ctx := ⟨ofPool_empty, fun _ h => (nomatch h)⟩
          sorting := fun _ _ h => (nomatch h)
          attributes := fun _ _ h => (nomatch h)
          block := fun _ _ h => (nomatch h) }
      requests := by
        rw [outstanding_start]
        exact fun _ h => (nomatch h)
      answered := fun _ h => (nomatch h) }
  refine hinputs.induction (I := SubmittedInv crates p q) ?_ hstart hrun
  intro w e w' hinputs hinv hstep
  exact submittedInv_worldStep hinputs hinv (worldStep_of_step hstep)

/-! ## Deposits -/

def IsPlain (tx : Transaction) : Prop := tx.isDeposit = false

instance : DecidablePred IsPlain := fun tx => inferInstanceAs (Decidable (tx.isDeposit = false))

/-- The deposits come first, and none of them twice. -/
def DepositsFirst (txs : List Transaction) : Prop :=
  txs.takeWhile Transaction.isDeposit = txs.filter Transaction.isDeposit ∧
    (txs.filter Transaction.isDeposit).Nodup

instance (txs : List Transaction) : Decidable (DepositsFirst txs) := by
  unfold DepositsFirst
  infer_instance

/-- Plain transactions are no deposits. -/
theorem filter_append_plain (hrest : ∀ tx ∈ rest, IsPlain tx) :
    (txs ++ rest).filter Transaction.isDeposit = txs.filter Transaction.isDeposit := by
  have hnone : rest.filter Transaction.isDeposit = [] := by
    rw [List.filter_eq_nil_iff]
    intro tx htx
    rw [hrest tx htx]
    exact Bool.false_ne_true
  rw [List.filter_append, hnone, List.append_nil]

/-- Plain transactions may follow. -/
theorem depositsFirst_append (htxs : DepositsFirst txs) (hrest : ∀ tx ∈ rest, IsPlain tx) :
    DepositsFirst (txs ++ rest) := by
  have hnone : rest.takeWhile Transaction.isDeposit = [] := by
    cases rest with
    | nil => rfl
    | cons tx =>
      have htx : tx.isDeposit = false := hrest tx List.mem_cons_self
      simp [htx]
  unfold DepositsFirst
  rw [filter_append_plain hrest]
  refine ⟨?_, htxs.2⟩
  rw [List.takeWhile_append, hnone, List.append_nil, ← htxs.1]
  split
  · rename_i hlength
    exact ((List.takeWhile_sublist _).eq_of_length hlength).symm
  · rfl

/-- The attributes have their deposits first, and none of them twice. -/
def OrderedAttributes (crates : Crates S) (attributes : OpPayloadAttributes) : Prop :=
  DepositsFirst (forcedTxs crates attributes)

instance : DecidablePred (OrderedAttributes crates) := fun attributes =>
  inferInstanceAs (Decidable (DepositsFirst (forcedTxs crates attributes)))

/-- The deposits of a block are those of its attributes, in order, and come first and once, in every
run in which no deposit is submitted and all attributes are ordered.
SRCLINE: sequencer/src/context.rs:160-199, sequencer/src/lib.rs:410-502, sorting_data.rs:323-341 -/
theorem sealed_depositsFirst {config : SequencerConfig} {db : SequencerDB S} {n : ℕ}
    {events : List WorldEvent} {e : Event} {envelope : OpExecutionPayloadEnvelope}
    (hinputs : Along (World.step crates) (fun _ e => Inputs IsPlain (OrderedAttributes crates) e)
      (World.start (.new crates config db) n) events)
    (hrun : runSteps (World.step crates) (World.start (.new crates config db) n) events = some w)
    (htakes : w.sequencer.takes e = true)
    (hpayload : .payload envelope ∈ (w.sequencer.handle crates e).sent) :
    envelope.executionPayload.transactions = (included w.sequencer).map Transaction.encode ∧
      DepositsFirst (included w.sequencer) ∧
      (included w.sequencer).filter Transaction.isDeposit =
        (forcedTxs crates w.sequencer.ctx.payloadAttributes).filter Transaction.isDeposit ∧
      (forcedTxs crates w.sequencer.ctx.payloadAttributes).map Transaction.encode =
        w.sequencer.ctx.payloadAttributes.transactions.getD [] := by
  have hinv := submittedInv_run hinputs hrun
  obtain ⟨⟨seq, data, hstate⟩, htransactions⟩ := transactions_of_payload htakes hpayload
  obtain ⟨hordered, hforced⟩ := hinv.holds.attributes seq data hstate
  obtain ⟨rest, hincluded, hplain⟩ := hinv.holds.block seq data hstate
  refine ⟨htransactions, ?_, ?_, hforced⟩
  · rw [hincluded]
    exact depositsFirst_append hordered hplain
  · rw [hincluded]
    exact filter_append_plain hplain

/-- A block with a deposit and a transaction that was submitted. -/
def oneSubmitted : List WorldEvent :=
  oneForced [] [.sequencer (.newTx (plainRawTx [0]))] ++ plainSimulation ++ [.sequencer (.tick 2)]

/-- A deposit and a submitted transaction. -/
theorem sealed_depositsFirst_oneSubmitted :
    ∃ w envelope, runSteps (World.step plainCrates) (plainWorld false) oneSubmitted = some w ∧
      .payload envelope ∈ (w.sequencer.handle plainCrates (.engineApi .getPayloadV3 9)).sent ∧
      envelope.executionPayload.transactions = [[0x7e, 1], [0]] ∧
      DepositsFirst (included w.sequencer) := by
  have hview : (runSteps (World.step plainCrates) (plainWorld false) oneSubmitted).map
      (sealedView ·.sequencer) =
        some ⟨true, [[[0x7e, 1], [0]]], some true, some [[0x7e, 1]], true⟩ := by
    decide +kernel
  obtain ⟨w, hrun, hw⟩ := Option.map_eq_some_iff.mp hview
  obtain ⟨htakes, ⟨envelope, hpayload, htransactions⟩, -⟩ := sealed_of_view hw
  obtain ⟨-, hfirst, -⟩ := sealed_depositsFirst (by decide +kernel) hrun htakes hpayload
  exact ⟨w, envelope, hrun, hpayload, htransactions, hfirst⟩

/-- A deposit that is submitted is queued and put into the block, also one that the block
has already.
SRCLINE: sequencer/src/context.rs:160-172, sequencer/src/lib.rs:460-502 -/
theorem sealed_depositTwice :
    ∃ w envelope, runSteps (World.step plainCrates) (plainWorld false)
        (oneForced [.sequencer (.newTx (plainRawTx [0x7e, 1]))] [] ++ plainSimulation) = some w ∧
      w.sequencer.ctx.payloadAttributes.transactions = some [[0x7e, 1]] ∧
      w.sequencer.takes (.engineApi .getPayloadV3 9) = true ∧
      .payload envelope ∈ (w.sequencer.handle plainCrates (.engineApi .getPayloadV3 9)).sent ∧
      envelope.executionPayload.transactions = [[0x7e, 1], [0x7e, 1]] ∧
      ¬ DepositsFirst (included w.sequencer) ∧
      (included w.sequencer).filter Transaction.isDeposit ≠
        (forcedTxs plainCrates w.sequencer.ctx.payloadAttributes).filter Transaction.isDeposit := by
  have hview : (runSteps (World.step plainCrates) (plainWorld false)
      (oneForced [.sequencer (.newTx (plainRawTx [0x7e, 1]))] [] ++ plainSimulation)).map
      (fun w => (sealedView w.sequencer, decide (DepositsFirst (included w.sequencer)),
        decide ((included w.sequencer).filter Transaction.isDeposit =
          (forcedTxs plainCrates w.sequencer.ctx.payloadAttributes).filter
            Transaction.isDeposit))) =
        some (⟨true, [[[0x7e, 1], [0x7e, 1]]], some true, some [[0x7e, 1]], true⟩, false, false) := by
    decide +kernel
  obtain ⟨w, hrun, hw⟩ := Option.map_eq_some_iff.mp hview
  obtain ⟨hsealed, hfirst, hsame⟩ : sealedView w.sequencer = _ ∧ _ ∧ _ := by
    simpa only [Prod.mk.injEq] using hw
  obtain ⟨htakes, ⟨envelope, hpayload, htransactions⟩, -, hforced, -⟩ := sealed_of_view hsealed
  exact ⟨w, envelope, hrun, hforced, htakes, hpayload, htransactions,
    of_decide_eq_false hfirst, of_decide_eq_false hsame⟩

end BasedOp.Analysis.Provenance
