import BasedOp.Analysis.GossipStream
import BasedOp.Analysis.StateIds

/-!
# What a block contains

A block begins with the transactions that its attributes force, and one transaction is
added whenever one is applied (`included_of_step`); the payload has the transactions that
the block had when it was asked for. A block that is to be built without the pool has
nothing but the forced transactions, if no transaction arrives while it is built and no
deposit is left in the queue when it is started.
-/

set_option autoImplicit false

namespace BasedOp.Analysis.BlockContents

open BasedOp.Computation Model Model.Gateway
open SequencerSteps SequencerFrames
open WorldSteps StateIds

variable {S : Type} {crates : Crates S}

/-! ## The transactions of a block -/

/-- The transactions of the block that is being built. -/
def included (s : Sequencer S) : List Transaction :=
  (GossipStream.blockTxs s).map SimulatedTx.tx

/-- What a forced transaction is decoded to. -/
def decoded (crates : Crates S) (bytes : Bytes) : Option Transaction :=
  match Transaction.decode crates bytes with
  | some (.ok tx) => some tx
  | _ => none

/-- The transactions that the attributes of a block force.
SRCLINE: sorting_data.rs:323-329 -/
def forcedTxs (crates : Crates S) (attributes : OpPayloadAttributes) : List Transaction :=
  (attributes.transactions.getD []).filterMap (decoded crates)

variable {loads : List Load} {regolithActive : Bool} {data' : SortingData}
  {ctx' : SequencerContext S} {transactions : List Bytes}

/-- Of two outcomes the success is the second. -/
theorem eq_of_ite_ok {c : Prop} [Decidable c] {err : SimulationError} {x t : SimulatedTx}
    {loads' : List Load}
    (h : (if c then (.error err, loads) else (.ok x, loads)) = (Except.ok t, loads')) : x = t := by
  split at h
  · cases h
  · cases h
    rfl

variable {params : EvmBlockParams} {data data₀ : SortingData} {ctx : SequencerContext S}
  {seq seq₀ : FragSequence} {s : Sequencer S} {e : Event} {sent : List Output}
  {envelope : OpExecutionPayloadEnvelope}

/-- A simulation returns its transaction. -/
theorem tx_of_simulateTxInner {database : DbView} {tx : Transaction}
    {allowZeroPayment allowRevert : Bool} {t : SimulatedTx}
    (h : simulateTxInner crates params database tx regolithActive allowZeroPayment allowRevert =
      (.ok t, loads)) : t.tx = tx := by
  unfold simulateTxInner at h
  dsimp only at h
  split at h
  · cases h
  · split at h
    · cases h
    · rw [← eq_of_ite_ok h]

/-- Decoding keeps the bytes. -/
theorem envelope_of_decode {bytes : Bytes} {tx : Transaction}
    (h : Transaction.decode crates bytes = some (.ok tx)) : tx.encode = bytes := by
  unfold Transaction.decode at h
  split at h
  · cases h
  · split at h
    · cases h
    · cases h
      rfl

/-- The loop over the forced transactions takes them in, in order, and all of
them can be decoded. -/
theorem txs_of_applyForcedTxs {forced : List Bytes}
    (h : SequencerContext.applyForcedTxs crates params regolithActive forced data ctx =
      some (data', ctx')) :
    data'.txs.map SimulatedTx.tx =
        data.txs.map SimulatedTx.tx ++ forced.filterMap (decoded crates) ∧
      (forced.filterMap (decoded crates)).map Transaction.encode = forced := by
  induction forced generalizing data ctx with
  | nil =>
    obtain ⟨rfl, -⟩ := Prod.mk.inj (Option.some.inj h)
    simp
  | cons bytes rest ih =>
    obtain ⟨tx, t, loads, hdecode, hsim, hrest⟩ := applyForcedTxs_cons h
    obtain ⟨htxs, hrestBytes⟩ := ih hrest
    have hdecoded : decoded crates bytes = some tx := by simp [decoded, hdecode]
    rw [List.filterMap_cons_some hdecoded, List.map_cons, hrestBytes, envelope_of_decode hdecode,
      htxs]
    refine ⟨?_, rfl⟩
    have htx : t.tx = tx := tx_of_simulateTxInner hsim
    simp [DBFrag.takeState, htx]

/-- A block begins with the forced transactions. -/
theorem txs_of_startWith {now : ℕ} (h : ctx.startWith crates params now = some (seq, data, ctx')) :
    (seq.txs ++ data.txs).map SimulatedTx.tx = forcedTxs crates ctx.payloadAttributes ∧
      (forcedTxs crates ctx.payloadAttributes).map Transaction.encode =
        ctx.payloadAttributes.transactions.getD [] := by
  have hstarts := starts_of_startWith h
  obtain ⟨ctx₁, ctx₂, -, hforced, -⟩ := hstarts.forced
  obtain ⟨htxs, hbytes⟩ := txs_of_applyForcedTxs hforced
  refine ⟨?_, hbytes⟩
  rw [hstarts.seq_eq]
  exact htxs

/-- While sorting, the frags and what is applied. -/
theorem included_eq (hstate : s.state = .sorting seq data) :
    included s = (seq.txs ++ data.txs).map SimulatedTx.tx := by
  rw [included, GossipStream.blockTxs, hstate]

/-- A block that is built keeps its transactions, and at most one is added: the
best result of a round, or that of the deposit that is waited for. -/
theorem included_of_step {s' : Sequencer S} (h : Step crates s e sent s') {seq' : FragSequence}
    (hstate : s.state = .sorting seq data) (hstate' : s'.state = .sorting seq' data') :
    included s' = included s ∨ ∃ tx, included s' = included s ++ [tx.tx] ∧
      ((s.waiting = false ∧ data.nextToBeApplied = some tx) ∨
        (s.waiting = true ∧ ∃ result, e = .simResult result ∧
          data.isValid result.stateId = true ∧ result.msg = .tx (.ok tx))) := by
  rw [included_eq hstate, included_eq hstate']
  cases changes_of_step h hstate hstate' with
  | kept hseq htxs => exact .inl (by rw [hseq, htxs])
  | cut hseq htxs =>
    refine .inl ?_
    rw [hseq, htxs, List.append_nil, List.map_append, List.map_append, map_tx_map_takeState]
  | best hseq hwaiting hseal hflight hnext hgains =>
    refine .inr ⟨_, ?_, .inl ⟨hwaiting, hnext⟩⟩
    rw [hseq, hgains.1]
    simp
  | deposit hseq hwaiting hvalid hmsg hgains =>
    refine .inr ⟨_, ?_, .inr ⟨hwaiting, _, rfl, hvalid, hmsg⟩⟩
    rw [hseq, hgains.1]
    simp

/-! ## The payload -/

/-- A payload is only handed out when it is asked for, with the last frag and the seal. -/
theorem sent_of_payload (htakes : s.takes e = true)
    (hpayload : .payload envelope ∈ (s.handle crates e).sent) :
    ∃ now seq data frag sl ctx, e = .engineApi .getPayloadV3 now ∧
      (s.handle crates e).sent = [.gossip (.fragV0 frag), .gossip (.sealV0 sl), .payload envelope] ∧
      Seals crates s now seq data frag sl envelope ctx := by
  have hhandles : Handles crates s e (s.handle crates e) := handles_of_takes htakes
  have hof : ∀ {now seq data frag sl envelope' ctx},
      Seals crates s now seq data frag sl envelope' ctx →
      .payload envelope ∈ [Output.gossip (.fragV0 frag), .gossip (.sealV0 sl), .payload envelope'] →
      ∃ now' seq data frag' sl' ctx,
        Event.engineApi .getPayloadV3 now = .engineApi .getPayloadV3 now' ∧
        [Output.gossip (.fragV0 frag), .gossip (.sealV0 sl), .payload envelope'] =
          [.gossip (.fragV0 frag'), .gossip (.sealV0 sl'), .payload envelope] ∧
        Seals crates s now' seq data frag' sl' envelope ctx := by
    intro now seq data frag sl envelope' ctx hseals hmem
    obtain rfl : envelope = envelope' := by simpa using hmem
    exact ⟨now, seq, data, frag, sl, ctx, rfl, rfl, hseals⟩
  generalize s.handle crates e = handled at hhandles hpayload
  obtain ⟨sent, next⟩ := handled
  cases next with
  | none =>
    cases hhandles.panics rfl with
    | silent => cases hpayload
    | starting => simp at hpayload
    | sealing => simp at hpayload
    | committing now hseals => exact hof hseals hpayload
  | some s' =>
    cases hhandles.step s' rfl with
    | sealed now hseals => exact hof hseals hpayload
    | committed now hseals => exact hof hseals hpayload
    | _ => simp at hpayload

/-- A payload comes out of sealing. -/
theorem seals_of_payload (htakes : s.takes e = true)
    (hpayload : .payload envelope ∈ (s.handle crates e).sent) :
    ∃ now seq data frag sl ctx, e = .engineApi .getPayloadV3 now ∧
      Seals crates s now seq data frag sl envelope ctx := by
  obtain ⟨now, seq, data, frag, sl, ctx, he, -, hseals⟩ := sent_of_payload htakes hpayload
  exact ⟨now, seq, data, frag, sl, ctx, he, hseals⟩

/-- The payload has the transactions of the block that was being built. -/
theorem transactions_of_payload (htakes : s.takes e = true)
    (hpayload : .payload envelope ∈ (s.handle crates e).sent) :
    (∃ seq data, s.state = .sorting seq data) ∧
      envelope.executionPayload.transactions = (included s).map Transaction.encode := by
  obtain ⟨now, seq, data, frag, sl, ctx, -, hseals⟩ := seals_of_payload htakes hpayload
  obtain ⟨msg, data', seq', ctx₁, -, hcuts, hfrom⟩ := sealedFrom_of_seals hseals
  refine ⟨⟨seq, data, hseals.hstate⟩, ?_⟩
  rw [hfrom.transactions, hcuts.seq_eq, included_eq hseals.hstate, List.map_map]
  show (seq.txs ++ data.txs.map DBFrag.takeState).map _ = _
  rw [List.map_append, List.map_append, List.map_map]
  rfl

/-! ## Blocks without the pool -/

/-- The block is to be built without the pool. -/
def noTxPool (ctx : SequencerContext S) : Bool := ctx.payloadAttributes.noTxPool.getD false

/-- No transaction arrives while a block is built without the pool, and no deposit is
queued when one is started. -/
def Undisturbed (w : World S) : WorldEvent → Prop
  | .sequencer (.newTx _) =>
    match w.sequencer.state with
    | .sorting _ _ => noTxPool w.sequencer.ctx = false
    | _ => True
  | .sequencer (.engineApi (.forkChoiceUpdatedV3 head (some attributes)) _) =>
    attributes.noTxPool.getD false = true → head = w.sequencer.ctx.db.headBlockHash →
      awaits w.sequencer.state = true → w.sequencer.ctx.parentHeader.parentHash ≠ 0 →
      w.sequencer.ctx.deposits = []
  | _ => True

instance (w : World S) (e : WorldEvent) : Decidable (Undisturbed w e) := by
  unfold Undisturbed
  split
  · split <;> infer_instance
  · infer_instance
  · infer_instance

variable {w w' : World S}

/-- Nothing is left that could be added to the block. -/
structure Bare (crates : Crates S) (w : World S) (data : SortingData) : Prop where
  waiting : w.sequencer.waiting = false
  deposits : w.sequencer.ctx.deposits = []
  tofSnapshot : data.tofSnapshot = []
  nextToBeApplied : data.nextToBeApplied = none
  untagged : ∀ request ∈ outstanding w, tagged data.db.stateId request = false
  included : included w.sequencer = forcedTxs crates w.sequencer.ctx.payloadAttributes
  forced : (forcedTxs crates w.sequencer.ctx.payloadAttributes).map Transaction.encode =
    w.sequencer.ctx.payloadAttributes.transactions.getD []

def BareInv (crates : Crates S) (w : World S) : Prop :=
  ∀ seq data, w.sequencer.state = .sorting seq data → noTxPool w.sequencer.ctx = true →
    Bare crates w data

/-- No request under way has the id of the frag after a step that sends none. -/
theorem untagged_moved (hids : IdInv crates w) (hfresh : Fresh crates s.ctx)
    (hstep : Step crates w.sequencer e sent s) (hstate : s.state = .sorting seq data)
    (hold : ∀ seq₀ data₀, w.sequencer.state = .sorting seq₀ data₀ →
      ∀ request ∈ outstanding w, tagged data₀.db.stateId request = false)
    (hsent : ∀ request ∈ World.sentRequests sent, tagged data.db.stateId request = false) :
    ∀ request ∈ outstanding (moved crates w sent s), tagged data.db.stateId request = false := by
  intro request hrequest
  obtain hmem | hnew := List.mem_append.mp ((outstanding_moved w sent s).mem_iff.mp hrequest)
  · obtain ⟨seq₀, data₀, hstate₀, hid⟩ | ⟨i, hle, hlt, hid⟩ := (fragStep_of_step hstep).id hstate
    · rw [hid]
      exact hold seq₀ data₀ hstate₀ request hmem
    · rw [← hid]
      exact hids.fresh hfresh hle hlt request hmem
  · exact hsent request hnew

/-- When nothing is left that could be added, nothing is applied. -/
theorem data_of_applies {data₁ : SortingData}
    (happlies : Applies crates w.sequencer e seq data₁ ctx)
    (hstate₀ : w.sequencer.state = .sorting seq₀ data₀) (hbare : Bare crates w data₀) :
    data₁ = data₀ := by
  cases happlies with
  | best now hstate hwaiting hseal hflight happly =>
    rw [hstate₀] at hstate
    cases hstate
    rw [SortingData.maybeApply, hbare.nextToBeApplied] at happly
    exact (Prod.mk.inj (Option.some.inj happly)).1.symm
  | deposit result tx hstate hwaiting =>
    rw [hbare.waiting] at hwaiting
    cases hwaiting

/-- When nothing is left that could be added, no step adds anything to what is
left, but for a transaction that arrives or a result that comes. -/
theorem settled_of_step (hstep : Step crates w.sequencer e sent s)
    (hstate₀ : w.sequencer.state = .sorting seq₀ data₀) (hstate : s.state = .sorting seq data)
    (hbare : Bare crates w data₀) (hflag : noTxPool s.ctx = true) (hnewTx : ∀ tx, e ≠ .newTx tx)
    (hresult : ∀ result simulatedTx, e = .simResult result →
      data₀.isValid result.stateId = true → result.msg ≠ .tx simulatedTx) :
    s.waiting = false ∧ s.ctx.deposits = [] ∧ data.tofSnapshot = [] ∧
      data.nextToBeApplied = none ∧
      ∀ request ∈ World.sentRequests sent, tagged data.db.stateId request = false := by
  cases fragStep_of_step hstep with
  | leaves hleaves => exact absurd hstate (hleaves _ _)
  | starts attributes now hawaits =>
    exact absurd hstate₀ (ne_sorting_of_awaits hawaits _ _)
  | cuts now hcut hwaiting hmined hcuts =>
    cases hstate
    obtain ⟨-, -, -, hnext, -, horders, hdeposits, -⟩ := grows_of_cuts hcuts
    obtain ⟨pool, -, rfl⟩ := Option.map_eq_some_iff.mp hmined
    refine ⟨rfl, hdeposits.trans hbare.deposits, ?_, hnext, by simp [World.sentRequests]⟩
    rw [horders]
    exact if_pos hflag
  | keeps hkeeps hdata hsame hshared hdraws hdeposits hignored hpooling =>
    cases hstate
    rw [hstate₀] at hkeeps
    cases hkeeps
    obtain rfl | ⟨tx, rfl, -⟩ := hdata
    · obtain hdeposits | ⟨tx, rfl⟩ := hdeposits
      · exact ⟨hbare.waiting, hdeposits.trans hbare.deposits, hbare.tofSnapshot,
          hbare.nextToBeApplied, untagged_pooling hpooling _⟩
      · exact absurd rfl (hnewTx tx)
    · exact absurd rfl (hnewTx tx)
  | takes result htakes hwaiting hvalid hmsg =>
    rw [hstate₀] at htakes
    cases htakes
    exact absurd hmsg (hresult _ _ rfl hvalid)
  | @orders _ _ data₁ _ ctx requests happlies hdeposits hsend =>
    cases hstate
    obtain rfl := data_of_applies happlies hstate₀ hbare
    rw [SortingData.sendNext, hbare.tofSnapshot] at hsend
    obtain ⟨rfl, rfl⟩ := Prod.mk.inj (Option.some.inj hsend)
    exact ⟨rfl, hdeposits, hbare.tofSnapshot, hbare.nextToBeApplied, by simp [World.sentRequests]⟩
  | deposit happlies hdeposits =>
    obtain ⟨data₂, hstate₂, happlied⟩ := applied_of_applies happlies
    rw [happlied.deposits, hbare.deposits] at hdeposits
    cases hdeposits

/-- A block that is built without the pool stays what it is. -/
theorem bare_kept (hids : IdInv crates w) (hfresh : Fresh crates s.ctx)
    (hstep : Step crates w.sequencer e sent s) (hstate₀ : w.sequencer.state = .sorting seq₀ data₀)
    (hstate : s.state = .sorting seq data)
    (hattributes : s.ctx.payloadAttributes = w.sequencer.ctx.payloadAttributes)
    (hbare : Bare crates w data₀) (hflag : noTxPool s.ctx = true) (hnewTx : ∀ tx, e ≠ .newTx tx)
    (hresult : ∀ result simulatedTx, e = .simResult result →
      data₀.isValid result.stateId = true → result.msg ≠ .tx simulatedTx) :
    Bare crates (moved crates w sent s) data := by
  obtain ⟨hwaiting, hdeposits, horders, hnext, hsent⟩ :=
    settled_of_step hstep hstate₀ hstate hbare hflag hnewTx hresult
  refine ⟨hwaiting, hdeposits, horders, hnext, ?_, ?_, ?_⟩
  · refine untagged_moved hids hfresh hstep hstate (fun seq₁ data₁ hstate₁ => ?_) hsent
    rw [hstate₀] at hstate₁
    cases hstate₁
    exact hbare.untagged
  · show included s = forcedTxs crates s.ctx.payloadAttributes
    rw [hattributes, ← hbare.included]
    obtain hsame | ⟨tx, -, ⟨-, hbest⟩ | ⟨hwaits, -⟩⟩ := included_of_step hstep hstate₀ hstate
    · exact hsame
    · rw [hbare.nextToBeApplied] at hbest
      cases hbest
    · rw [hbare.waiting] at hwaits
      cases hwaits
  · show (forcedTxs crates s.ctx.payloadAttributes).map _ =
      s.ctx.payloadAttributes.transactions.getD []
    rw [hattributes]
    exact hbare.forced

/-- A block that is built without the pool begins with the forced transactions,
and nothing else is left. -/
theorem bare_started (hids : IdInv crates w) (hfresh : Fresh crates s.ctx)
    {attributes : OpPayloadAttributes} {now : ℕ}
    (hstep : Step crates w.sequencer (.engineApi (.forkChoiceUpdatedV3
      w.sequencer.ctx.db.headBlockHash (some attributes)) now) sent s)
    (hstate : s.state = .sorting seq data) (hawaits : awaits w.sequencer.state = true)
    (hstart : { w.sequencer.ctx with payloadAttributes := attributes }.startWith crates params now =
      some (seq, data, s.ctx)) (hflag : attributes.noTxPool.getD false = true)
    (hempty : w.sequencer.ctx.deposits = []) :
    Bare crates (moved crates w sent s) data := by
  have hattributes : s.ctx.payloadAttributes = attributes :=
    (starts_of_startWith hstart).same.payloadAttributes
  obtain ⟨hid, hlt, -, hnext, horders, hdeposits, -⟩ := grows_of_startWith hstart
  obtain ⟨htxs, hforced⟩ := txs_of_startWith hstart
  obtain ⟨hwaiting, hsent⟩ : s.waiting = false ∧ World.sentRequests sent = [] := by
    cases fragStep_of_step hstep with
    | leaves hleaves => exact absurd hstate (hleaves _ _)
    | starts => exact ⟨rfl, rfl⟩
    | keeps hkeeps =>
      exact absurd hkeeps (ne_sorting_of_awaits hawaits _ _)
    | orders happlies => cases happlies
    | deposit happlies => cases happlies
  refine ⟨hwaiting, hdeposits.trans hempty, ?_, hnext, ?_, ?_, ?_⟩
  · rw [horders]
    exact if_pos hflag
  · refine untagged_moved hids hfresh hstep hstate (fun seq₁ data₁ hstate₁ => ?_) ?_
    · exact absurd hstate₁ (ne_sorting_of_awaits hawaits _ _)
    · rw [hsent]
      exact fun _ h => (nomatch h)
  · show included s = forcedTxs crates s.ctx.payloadAttributes
    rw [included_eq hstate, hattributes]
    exact htxs
  · show (forcedTxs crates s.ctx.payloadAttributes).map _ =
      s.ctx.payloadAttributes.transactions.getD []
    rw [hattributes]
    exact hforced

/-- What a step of the sequencer does to a block that is built without the pool.
A result for the frag that is sorted cannot come, as none was asked for. -/
theorem bareInv_moved (hids : IdInv crates w) (hfresh : Fresh crates s.ctx)
    (hundisturbed : Undisturbed w (.sequencer e)) (hinv : BareInv crates w)
    (hresult : ∀ seq data result simulatedTx, w.sequencer.state = .sorting seq data →
      noTxPool w.sequencer.ctx = true → e = .simResult result →
      data.isValid result.stateId = true → result.msg ≠ .tx simulatedTx)
    (hstep : Step crates w.sequencer e sent s) : BareInv crates (moved crates w sent s) := by
  intro seq data hstate hflag
  have hflag : noTxPool s.ctx = true := hflag
  obtain ⟨⟨seq₀, data₀, hstate₀⟩, hsame, -⟩ |
    ⟨attributes, now, params, rfl, hawaits, hparent, -, hstart, -⟩ :=
      (fragStep_of_step hstep).block hstate
  · have hflag₀ : noTxPool w.sequencer.ctx = true := by
      rw [noTxPool, ← hsame.payloadAttributes]
      exact hflag
    refine bare_kept hids hfresh hstep hstate₀ hstate hsame.payloadAttributes
      (hinv seq₀ data₀ hstate₀ hflag₀) hflag ?_ fun result simulatedTx =>
        hresult seq₀ data₀ result simulatedTx hstate₀ hflag₀
    rintro tx rfl
    unfold Undisturbed at hundisturbed
    rw [hstate₀, hflag₀] at hundisturbed
    cases hundisturbed
  · have hflag' : attributes.noTxPool.getD false = true := by
      rw [noTxPool, (starts_of_startWith hstart).same.payloadAttributes] at hflag
      exact hflag
    exact bare_started hids hfresh hstep hstate hawaits hstart hflag'
      (hundisturbed hflag' rfl hawaits hparent)

structure PoolInv (crates : Crates S) (w : World S) : Prop where
  ids : IdInv crates w
  answered : Answered w
  bare : BareInv crates w

/-- What one event does to the invariant. -/
theorem poolInv_worldStep {e : WorldEvent} (hfresh : Fresh crates w'.sequencer.ctx)
    (hundisturbed : Undisturbed w e) (hinv : PoolInv crates w) (h : WorldStep crates w e w') :
    PoolInv crates w' := by
  have hids := idInv_worldStep hinv.ids h
  have hanswered := answered_worldStep hinv.answered h
  refine ⟨hids, hanswered, ?_⟩
  cases h with
  | sequencer hexternal hstep =>
    refine bareInv_moved hinv.ids hfresh hundisturbed hinv.bare ?_ hstep
    rintro seq data result simulatedTx - - rfl
    cases hexternal
  | @deliver i r sent s hr hstep =>
    have htaken : BareInv crates (taken w i r) := by
      intro seq data hstate hflag
      obtain ⟨hwaiting, hdeposits, horders, hnext, huntagged, htxs, hforced⟩ :=
        hinv.bare seq data hstate hflag
      refine ⟨hwaiting, hdeposits, horders, hnext, fun request hrequest => ?_, htxs, hforced⟩
      exact huntagged request ((outstanding_taken hr).mem_iff.mp (List.mem_cons_of_mem _ hrequest))
    have hquiet : Undisturbed (taken w i r) (.sequencer (.simResult r.result)) := trivial
    refine bareInv_moved (idInv_taken hinv.ids hr) hfresh hquiet htaken ?_ hstep
    rintro seq data result simulatedTx hstate hflag ⟨⟩ hvalid hmsg
    have hmem := List.mem_of_getElem? hr
    have huntagged := (hinv.bare seq data hstate hflag).untagged r.request
      (mem_outstanding_of_result hmem)
    rw [tagged_of_valid hinv.answered hmem hvalid hmsg] at huntagged
    cases huntagged
  | simulator hsim =>
    obtain ⟨hsequencer, -, -, -, hperm⟩ := hsim.quiet
    intro seq data hstate hflag
    rw [hsequencer] at hstate hflag
    obtain ⟨hwaiting, hdeposits, horders, hnext, huntagged, htxs, hforced⟩ :=
      hinv.bare seq data hstate hflag
    rw [← hsequencer] at hwaiting hdeposits htxs hforced
    exact ⟨hwaiting, hdeposits, horders, hnext,
      fun request hrequest => huntagged request (hperm.mem_iff.mp hrequest), htxs, hforced⟩

/-- Nothing is in the pool at the start. -/
theorem poolInv_start (config : SequencerConfig) (db : SequencerDB S) (n : ℕ) :
    PoolInv crates (World.start (.new crates config db) n) where
  ids := idInv_start config db n
  answered := fun _ hr => (nomatch hr)
  bare := fun _ _ h => (nomatch h)

/-- A block that was started without the pool has exactly the forced
transactions, in order, in every run with fresh ids in which no transaction arrives while
such a block is built and no deposit is queued when one is started.
SRCLINE: sorting_data.rs:105-129,
sequencer/src/lib.rs:410-419,460-502, sequencer/src/context.rs:160-199 -/
theorem sealed_forcedOnly {config : SequencerConfig} {db : SequencerDB S} {n : ℕ}
    {events : List WorldEvent} {e : Event} {envelope : OpExecutionPayloadEnvelope}
    (hundisturbed : Along (World.step crates) Undisturbed (World.start (.new crates config db) n)
      events)
    (hrun : runSteps (World.step crates) (World.start (.new crates config db) n) events = some w)
    (hfresh : Fresh crates w.sequencer.ctx) (htakes : w.sequencer.takes e = true)
    (hpayload : .payload envelope ∈ (w.sequencer.handle crates e).sent)
    (hflag : w.sequencer.ctx.payloadAttributes.noTxPool = some true) :
    envelope.executionPayload.transactions =
      w.sequencer.ctx.payloadAttributes.transactions.getD [] := by
  have hinv : PoolInv crates w :=
    world_induction (fun w e w' hfresh hun hinv hstep => poolInv_worldStep hfresh hun hinv hstep)
      hundisturbed (poolInv_start config db n) hrun hfresh
  obtain ⟨⟨seq, data, hstate⟩, htransactions⟩ := transactions_of_payload htakes hpayload
  have hbare := hinv.bare seq data hstate (by rw [noTxPool, hflag]; rfl)
  rw [htransactions, hbare.included, hbare.forced]

/-- A transaction before or after a block is started that is to have one forced transaction. -/
def oneForced (before after : List WorldEvent) : List WorldEvent :=
  [.sequencer (newPayloadEvent plainPayload1)] ++ before ++
  [.sequencer (startEvent plainPayload1.blockHash (plainAttributes 102 [[0x7e, 1]] true))] ++
  after ++ [.sequencer (.tick 1)]

def envelopes (sent : List Output) : List OpExecutionPayloadEnvelope :=
  sent.filterMap fun
    | .payload envelope => some envelope
    | _ => none

/-- What is to be known of a sequencer that is asked for its block. -/
structure SealedView where
  taken : Bool
  payloads : List (List Bytes)
  noTxPool : Option Bool
  forced : Option (List Bytes)
  fresh : Bool
  deriving DecidableEq

def sealedView (s : Sequencer ℕ) : SealedView where
  taken := s.takes (.engineApi .getPayloadV3 9)
  payloads := (envelopes (s.handle plainCrates (.engineApi .getPayloadV3 9)).sent).map
    (·.executionPayload.transactions)
  noTxPool := s.ctx.payloadAttributes.noTxPool
  forced := s.ctx.payloadAttributes.transactions
  fresh := decide (Fresh plainCrates s.ctx)

/-- The one payload that was sent. -/
theorem payload_of_envelopes
    (h : (envelopes sent).map (·.executionPayload.transactions) = [transactions]) :
    ∃ envelope, .payload envelope ∈ sent ∧
      envelope.executionPayload.transactions = transactions :=
  GossipStream.exists_payload_of_map h

/-- What the computed view says of the state. -/
theorem sealed_of_view {s : Sequencer ℕ} {noTxPool : Option Bool} {forced : Option (List Bytes)}
    {fresh : Bool} (h : sealedView s = ⟨true, [transactions], noTxPool, forced, fresh⟩) :
    s.takes (.engineApi .getPayloadV3 9) = true ∧
      (∃ envelope, .payload envelope ∈ (s.handle plainCrates (.engineApi .getPayloadV3 9)).sent ∧
        envelope.executionPayload.transactions = transactions) ∧
      s.ctx.payloadAttributes.noTxPool = noTxPool ∧
      s.ctx.payloadAttributes.transactions = forced ∧
      decide (Fresh plainCrates s.ctx) = fresh := by
  obtain ⟨htakes, hsent, hflag, hforced, hfresh⟩ := SealedView.mk.inj h
  exact ⟨htakes, payload_of_envelopes hsent, hflag, hforced, hfresh⟩

/-- A pool transaction stays out of a forced-only block. -/
theorem sealed_forcedOnly_poolTx :
    ∃ w envelope, runSteps (World.step plainCrates) (plainWorld false)
        (oneForced [.sequencer (.newTx (plainRawTx [0]))] []) = some w ∧
      .payload envelope ∈ (w.sequencer.handle plainCrates (.engineApi .getPayloadV3 9)).sent ∧
      envelope.executionPayload.transactions = [[0x7e, 1]] := by
  have hview : (runSteps (World.step plainCrates) (plainWorld false)
      (oneForced [.sequencer (.newTx (plainRawTx [0]))] [])).map (sealedView ·.sequencer) =
        some ⟨true, [[[0x7e, 1]]], some true, some [[0x7e, 1]], true⟩ := by
    decide +kernel
  obtain ⟨w, hrun, hw⟩ := Option.map_eq_some_iff.mp hview
  obtain ⟨htakes, ⟨envelope, hpayload, -⟩, hflag, hforced, hfresh⟩ := sealed_of_view hw
  refine ⟨w, envelope, hrun, hpayload, ?_⟩
  rw [sealed_forcedOnly (by decide +kernel) hrun (of_decide_eq_true hfresh) htakes hpayload hflag,
    hforced]
  rfl

/-- A transaction that arrives while the block is built is put into it: it is pushed to the
orders of the frag whatever the attributes say.
SRCLINE: sequencer/src/lib.rs:410-419 -/
theorem sealed_notForcedOnly :
    ∃ w envelope, runSteps (World.step plainCrates) (plainWorld false)
        (oneForced [] [.sequencer (.newTx (plainRawTx [0]))] ++ plainSimulation ++
          [.sequencer (.tick 2)]) = some w ∧
      w.sequencer.ctx.payloadAttributes.noTxPool = some true ∧
      w.sequencer.ctx.payloadAttributes.transactions = some [[0x7e, 1]] ∧
      w.sequencer.takes (.engineApi .getPayloadV3 9) = true ∧
      .payload envelope ∈ (w.sequencer.handle plainCrates (.engineApi .getPayloadV3 9)).sent ∧
      envelope.executionPayload.transactions = [[0x7e, 1], [0]] := by
  have hview : (runSteps (World.step plainCrates) (plainWorld false)
      (oneForced [] [.sequencer (.newTx (plainRawTx [0]))] ++ plainSimulation ++
        [.sequencer (.tick 2)])).map (sealedView ·.sequencer) =
        some ⟨true, [[[0x7e, 1], [0]]], some true, some [[0x7e, 1]], true⟩ := by
    decide +kernel
  obtain ⟨w, hrun, hw⟩ := Option.map_eq_some_iff.mp hview
  obtain ⟨htakes, ⟨envelope, hpayload, htransactions⟩, hflag, hforced, -⟩ := sealed_of_view hw
  exact ⟨w, envelope, hrun, hflag, hforced, htakes, hpayload, htransactions⟩

end BasedOp.Analysis.BlockContents
