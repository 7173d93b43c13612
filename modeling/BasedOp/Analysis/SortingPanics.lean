import BasedOp.Analysis.ReadySenders
import BasedOp.Analysis.SimulatedState
import BasedOp.Analysis.SortingRounds

/-!
# Sorting does not panic

A result for the frag that is sorted is handled by the order of its sender, and a sender that
has none is a panic, as it is when the best result of a round is applied. The requests that
are under way for the frag have their orders, as many of a sender as it has requests, and
one more for the best result so far (`Orderly`). Orders are only removed for a result that
comes back or is applied, or before a request is sent for them when nothing is under way, and
transactions that arrive only add orders. Ids keep the results for earlier frags apart, so
this rests on ids that are fresh.
-/

set_option autoImplicit false

namespace BasedOp.Analysis.SortingPanics

open BasedOp.Computation Model Model.Gateway
open SequencerSteps SequencerFrames
open WorldSteps StateIds SimulatedState
open PoolContents PoolRetention PoolAndChain
open ReadySenders SortingOrders SortingRounds

variable {S : Type} {crates : Crates S} {w w' : World S}

/-! ## The orders of the pool -/

/-- Orders of the pool are their senders'. -/
theorem own_of_orderOf {l : SimulatedTxList} (h : OrderOf l) : Own l :=
  ⟨h.current, h.pending.own⟩

variable {pool : TxPool} {data : SortingData} {e : Event} {sent : List Output} {s : Sequencer S}

/-- So are those of a block. -/
theorem owns_new (crates : Crates S) (h : WellFormed pool) :
    Owns (ActiveOrders.new crates pool.activeTxs.txs) := by
  intro order horder
  obtain ⟨i, -, hi⟩ := List.mem_filterMap.mp horder
  exact own_of_orderOf (h.orders order (List.mem_of_getElem? hi))

/-- The orders that a frag begins with. -/
theorem owns_begun (crates : Crates S) (h : WellFormed pool) (noTxPool : Bool) :
    Owns (if noTxPool then [] else ActiveOrders.new crates pool.activeTxs.txs) := by
  cases noTxPool with
  | true => exact fun _ horder => nomatch horder
  | false => exact owns_new crates h

/-- The pool stays well formed. -/
theorem wellFormed_of_reaches {pool' : TxPool} (h : Reaches pool pool') (hpool : WellFormed pool) :
    WellFormed pool' := by
  obtain ⟨ops, hops⟩ := h
  exact runSteps_induction (fun _ _ _ => wellFormed_step) hpool hops

/-! ## The senders that are waited for -/

/-- The senders of the requests under way that are tagged with the id of the frag. -/
def waitingOf (w : World S) (data : SortingData) : List Address :=
  ((outstanding w).filter (tagged data.db.stateId)).map fun request => request.tx.sender

/-- The sender of a result for the frag that an event brings. -/
def owed (data : SortingData) (e : Event) : List Address :=
  match e with
  | .simResult result => if answers data e then [result.senderInfo.1] else []
  | _ => []

/-- The orders are of their senders, and cover those that are waited for and are owed. -/
structure Orderly (w : World S) (data : SortingData) (owed : List Address) : Prop where
  owns : Owns data.tofSnapshot
  covers : w.sequencer.waiting = false →
    Covers data.tofSnapshot data.nextToBeApplied (owed ++ waitingOf w data)

/-- Other events owe nothing. -/
theorem owed_of_not_answers (h : answers data e = false) : owed data e = [] := by
  cases e with
  | simResult =>
    unfold owed
    rw [h]
    rfl
  | _ => rfl

/-- Who waits after a step. -/
theorem waitingOf_moved (w : World S) (sent : List Output) (s : Sequencer S) (data : SortingData) :
    (waitingOf (moved crates w sent s) data).Perm (waitingOf w data ++
      ((World.sentRequests sent).filter (tagged data.db.stateId)).map
        fun request => request.tx.sender) := by
  unfold waitingOf
  rw [← List.map_append, ← List.filter_append]
  exact ((outstanding_moved w sent s).filter _).map _

/-- Pool requests make nobody wait. -/
theorem waitingOf_moved_pooling (h : Pooling sent) (w : World S) (s : Sequencer S)
    (data : SortingData) :
    (waitingOf (moved crates w sent s) data).Perm (waitingOf w data) := by
  have hnone : (World.sentRequests sent).filter (tagged data.db.stateId) = [] := by
    rw [List.filter_eq_nil_iff]
    intro request hrequest
    rw [untagged_pooling h data.db.stateId request hrequest]
    exact Bool.false_ne_true
  refine (waitingOf_moved w sent s data).trans ?_
  rw [hnone, List.map_nil, List.append_nil]

/-- Without requests nobody waits. -/
theorem waitingOf_eq_nil (h : taggedCount w data = 0) : waitingOf w data = [] := by
  unfold waitingOf
  rw [List.map_eq_nil_iff, ← List.length_eq_zero_iff, ← List.countP_eq_length_filter]
  exact h

variable {waiting : List Address} {data' : SortingData}

/-- Fewer wait, more have orders. -/
theorem covers_of_subperm {orders orders' : List SimulatedTxList} {best : Option SimulatedTx}
    {waiting' : List Address} (h : Covers orders best waiting)
    (hwaiting : waiting'.Subperm waiting) (horders : (senders orders).Subperm (senders orders')) :
    Covers orders' best waiting' :=
  (((List.subperm_append_left _).mpr hwaiting).trans h).trans horders

/-- Nothing is under way between two rounds, and nothing needs to be covered. -/
theorem orderly_of_settled (h : Settled data) (hcounted : Counted w data 0) :
    Orderly w data [] := by
  refine ⟨h.owns, fun hwaiting => ?_⟩
  have hcount := hcounted.count hwaiting
  rw [h.inFlightSims] at hcount
  have hnone : waitingOf w data = [] := waitingOf_eq_nil hcount.symm
  rw [hnone, h.nextToBeApplied]
  exact List.nil_subperm

/-! ## What a step does -/

/-- The transaction of a result is of the sender that the result names. -/
def Named (e : Event) : Prop :=
  ∀ result, e = .simResult result → ∀ tx, result.msg = .tx (.ok tx) →
    tx.sender = result.senderInfo.1

/-- The best result so far has an order of its sender, if there is a best one. -/
theorem maybeApply_of_orderly (h : Orderly w data waiting)
    (hwaiting : w.sequencer.waiting = false) :
    ∃ data' ctx, data.maybeApply crates w.sequencer.ctx.blockEnv.basefee w.sequencer.ctx =
      some (data', ctx) ∧ Owns data'.tofSnapshot := by
  cases hnext : data.nextToBeApplied with
  | none =>
    exact ⟨data, w.sequencer.ctx, maybeApply_of_none crates _ _ hnext, h.owns⟩
  | some =>
    obtain ⟨orders, happly, hpops, -⟩ := maybeApply_spec crates
      w.sequencer.ctx.blockEnv.basefee w.sequencer.ctx (List.nil_append _).symm (h.covers hwaiting)
      hnext
    exact ⟨_, _, happly, hpops.owns h.owns⟩

/-- Applying leaves the orders of their senders. -/
theorem owns_of_applies {seq : FragSequence} {data₁ : SortingData} {ctx : SequencerContext S}
    (hinv : ∀ seq data, w.sequencer.state = .sorting seq data → Orderly w data (owed data e))
    (happlies : Applies crates w.sequencer e seq data₁ ctx) : Owns data₁.tofSnapshot := by
  cases happlies with
  | @best _ data _ _ now hstate hwaiting hseal hflight happly =>
    obtain ⟨data', ctx', happly', howns⟩ := maybeApply_of_orderly (hinv _ _ hstate) hwaiting
    rw [happly] at happly'
    cases happly'
    exact howns
  | deposit result tx hstate => exact (hinv _ _ hstate).owns

/-- The orders that are sent are those that are waited for then. -/
theorem orderly_of_sendNext {limit : UInt64} {requests : List SequencerToSimulator}
    (howns : Owns data.tofSnapshot) (hnext : data.nextToBeApplied = none)
    (hsend : data.sendNext limit = some (data', requests)) (hnone : taggedCount w data' = 0) :
    Orderly (moved crates w (requests.map .simulate) s) data' [] := by
  obtain ⟨_, _, hsend', ⟨asking⟩⟩ := sendNext_spec data limit
  rw [hsend] at hsend'
  cases hsend'
  obtain ⟨hfront, hasked⟩ := asking.owns howns
  refine ⟨?_, fun _ => ?_⟩
  · rw [asking.tofSnapshot_eq]
    exact owns_append hfront hasked
  · have hsent : (waitingOf (moved crates w (requests.map .simulate) s) data').Subperm
        (requests.map fun request => request.tx.sender) := by
      refine (waitingOf_moved w _ s data').subperm.trans ?_
      rw [waitingOf_eq_nil hnone, sentRequests_simulate, List.nil_append]
      exact (List.filter_sublist.map _).subperm
    have hcovered : (senders asking.asked).Subperm (senders (asking.front ++ asking.asked)) :=
      ((List.sublist_append_right _ _).map _).subperm
    unfold Covers
    rw [asking.nextToBeApplied_eq, hnext, asking.tofSnapshot_eq]
    exact (hsent.trans (asking.senders_perm howns).subperm).trans hcovered

/-- A result for the frag that is sorted has an order of its sender. -/
theorem handleSim_of_orderly {result : SimulatorToSequencer}
    {simulatedTx : Except SimulationError SimulatedTx}
    (h : Orderly w data (owed data (.simResult result))) (hwaiting : w.sequencer.waiting = false)
    (hvalid : data.isValid result.stateId = true) (hmsg : result.msg = .tx simulatedTx)
    (hnamed : Named (.simResult result)) (baseFee : UInt64) :
    ∃ orders best, data.handleSim simulatedTx result.senderInfo.1 baseFee = some { data with
        inFlightSims := data.inFlightSims - 1
        tofSnapshot := orders
        nextToBeApplied := best } ∧
      Owns orders ∧ Covers orders best (waitingOf w data) := by
  have hanswers : answers data (.simResult result) = true := by
    unfold answers
    dsimp only
    rw [hmsg]
    exact hvalid
  have howed : owed data (.simResult result) = [result.senderInfo.1] := if_pos hanswers
  have hcovers := h.covers hwaiting
  rw [howed] at hcovers
  have hresult : ∀ tx, simulatedTx = .ok tx → tx.sender = result.senderInfo.1 := by
    rintro tx rfl
    exact hnamed result rfl tx hmsg
  obtain ⟨orders, best, hsim, hstep⟩ :=
    handleSim_spec baseFee (List.nil_append _).symm hcovers hresult
  exact ⟨orders, best, hsim, hstep.owns h.owns, hstep.covers hresult hcovers⟩

/-- What arrives only adds orders. -/
theorem orderly_of_keeps (h : Orderly w data (owed data e))
    (hwaiting : s.waiting = w.sequencer.waiting)
    (howed : w.sequencer.waiting = false → answers data e = false)
    (hdata : data' = data ∨ ∃ tx, e = .newTx tx ∧ data' = { data with
      tofSnapshot := { current := none, pending := .fromTx tx } :: data.tofSnapshot })
    (hpooling : Pooling sent) : Orderly (moved crates w sent s) data' [] := by
  have hcovers : s.waiting = false →
      Covers data.tofSnapshot data.nextToBeApplied (waitingOf (moved crates w sent s) data) := by
    intro hfalse
    rw [hwaiting] at hfalse
    have hold := h.covers hfalse
    rw [owed_of_not_answers (howed hfalse)] at hold
    exact covers_of_subperm hold (waitingOf_moved_pooling hpooling w s data).subperm
      (List.Subperm.refl _)
  obtain rfl | ⟨tx, -, rfl⟩ := hdata
  · exact ⟨h.owns, hcovers⟩
  · refine ⟨fun order horder => ?_, fun hfalse => ?_⟩
    · obtain rfl | hold := List.mem_cons.mp horder
      · exact own_fromTx tx
      · exact h.owns order hold
    · exact covers_of_subperm (hcovers hfalse) (List.Subperm.refl _)
        (List.sublist_cons_self _ _).subperm

def OrderlyInv (w : World S) : Prop :=
  ∀ seq data, w.sequencer.state = .sorting seq data → Orderly w data []

/-- What a step of the sequencer does to the orders. -/
theorem orderlyInv_moved (hids : IdInv crates w) (hfresh : Fresh crates s.ctx)
    (hpool : WellFormed w.sequencer.ctx.txPool)
    (hcounts : ∀ seq data, w.sequencer.state = .sorting seq data →
      Counted w data (answers data e).toNat) (hnamed : Named e)
    (hinv : ∀ seq data, w.sequencer.state = .sorting seq data → Orderly w data (owed data e))
    (hstep : Step crates w.sequencer e sent s) : OrderlyInv (moved crates w sent s) := by
  have hcounts' := countInv_moved hids hfresh hcounts hstep
  have hpool' : WellFormed s.ctx.txPool := wellFormed_of_reaches (reaches_step hstep) hpool
  intro seq' data' hstate'
  cases fragStep_of_step hstep with
  | leaves hstate => exact absurd hstate' (hstate _ _)
  | starts attributes now hstate hparent hparams hstart =>
    cases hstate'
    obtain ⟨-, -, hflight, hnext, horders, -⟩ := grows_of_startWith hstart
    refine orderly_of_settled ⟨hflight, hnext, ?_⟩ (hcounts' _ _ rfl)
    rw [horders]
    exact owns_begun crates hpool _
  | cuts now hstate hwaiting hmined hcuts =>
    cases hstate'
    obtain ⟨-, -, hflight, hnext, -, horders, -⟩ := grows_of_cuts hcuts
    refine orderly_of_settled ⟨hflight, hnext, ?_⟩ (hcounts' _ _ rfl)
    rw [horders]
    exact owns_begun crates hpool' _
  | keeps hstate hdata hsame hshared hdraws hdeposits hresult hpooling =>
    cases hstate'
    exact orderly_of_keeps (hinv _ _ hstate) rfl
      (fun hwaiting => answers_of_keeps hwaiting hresult) hdata hpooling
  | takes result hstate hwaiting hvalid hmsg hsim =>
    cases hstate'
    obtain ⟨orders, best, hsim', howns, hcovers⟩ := handleSim_of_orderly (hinv _ _ hstate) hwaiting
      hvalid hmsg hnamed w.sequencer.ctx.blockEnv.basefee
    rw [hsim] at hsim'
    cases hsim'
    exact ⟨howns, fun _ => covers_of_subperm hcovers
      (waitingOf_moved_pooling pooling_nil w _ _).subperm (List.Subperm.refl _)⟩
  | orders happlies hdeposits hsend =>
    cases hstate'
    obtain ⟨hnone, -, hnext⟩ :=
      counted_of_applied hids hfresh hcounts happlies rfl (sends_of_sendNext hsend).db
    exact orderly_of_sendNext (owns_of_applies hinv happlies) hnext hsend hnone
  | deposit happlies =>
    cases hstate'
    exact ⟨owns_of_applies hinv happlies, by rintro ⟨⟩⟩

/-! ## Results that are delivered -/

/-- A result that is taken out is owed if it is for the frag, and is waited for no more. -/
theorem orderly_taken (hanswered : Answered w) {i : ℕ} {r : SimResult}
    (hr : w.results[i]? = some r) (h : Orderly w data []) :
    Orderly (taken w i r) data (owed data (.simResult r.result)) := by
  refine ⟨h.owns, fun hwaiting => ?_⟩
  obtain ⟨outcome, houtcome⟩ := hanswered r (List.mem_of_getElem? hr)
  have hperm : (((r.request :: outstanding (taken w i r)).filter (tagged data.db.stateId)).map
      fun request => request.tx.sender).Perm (waitingOf w data) :=
    ((outstanding_taken hr).filter _).map _
  have howed : owed data (.simResult r.result) =
      if tagged data.db.stateId r.request then [r.request.tx.sender] else [] := by
    unfold owed
    rw [answers_eq_tagged houtcome, houtcome]
    rfl
  refine covers_of_subperm (h.covers hwaiting) ?_ (List.Subperm.refl _)
  rw [howed]
  rw [List.filter_cons] at hperm
  split at hperm
  · rename_i htagged
    rw [if_pos htagged]
    exact hperm.subperm
  · rename_i htagged
    rw [if_neg htagged]
    exact hperm.subperm

/-- An answer names its sender. -/
theorem named_of_answered (hanswered : Answered w) {r : SimResult} (hr : r ∈ w.results) :
    Named (.simResult r.result) := by
  rintro _ ⟨⟩ tx hmsg
  obtain ⟨outcome, houtcome⟩ := hanswered r hr
  obtain ⟨tx', arc, hrequest, htx⟩ := request_of_tx houtcome hmsg
  have hsender : r.result.senderInfo.1 = r.request.tx.sender := by rw [houtcome]; rfl
  rw [hsender, hrequest]
  exact congrArg Transaction.sender (htx tx rfl)

/-! ## The invariant -/

structure SortingInv (crates : Crates S) (w : World S) : Prop where
  ids : IdInv crates w
  answered : Answered w
  counts : CountInv w
  pool : WellFormed w.sequencer.ctx.txPool
  orders : OrderlyInv w

/-- What one event does to the invariant. -/
theorem sortingInv_worldStep {e : WorldEvent} (hfresh : Fresh crates w'.sequencer.ctx)
    (hinv : SortingInv crates w) (h : WorldStep crates w e w') : SortingInv crates w' := by
  have hids := idInv_worldStep hinv.ids h
  have hanswered := answered_worldStep hinv.answered h
  cases h with
  | @sequencer e sent s hexternal hstep =>
    have hcounts : ∀ seq data, w.sequencer.state = .sorting seq data →
        Counted w data (answers data e).toNat := by
      intro seq data hstate
      rw [answers_of_external hexternal]
      exact hinv.counts seq data hstate
    have hnamed : Named e := by
      rintro result rfl
      cases hexternal
    refine ⟨hids, hanswered, countInv_moved hinv.ids hfresh hcounts hstep,
      wellFormed_of_reaches (reaches_step hstep) hinv.pool,
      orderlyInv_moved hinv.ids hfresh hinv.pool hcounts hnamed (fun seq data hstate => ?_) hstep⟩
    rw [owed_of_not_answers (answers_of_external hexternal data)]
    exact hinv.orders seq data hstate
  | @deliver i r sent s hr hstep =>
    have hids' := idInv_taken hinv.ids hr
    have hcounts : ∀ seq data, (taken w i r).sequencer.state = .sorting seq data →
        Counted (taken w i r) data (answers data (.simResult r.result)).toNat :=
      fun seq data hstate => counted_taken hinv.answered hinv.counts hr hstate
    have hnamed := named_of_answered hinv.answered (List.mem_of_getElem? hr)
    exact ⟨hids, hanswered, countInv_moved hids' hfresh hcounts hstep,
      wellFormed_of_reaches (reaches_step hstep) hinv.pool,
      orderlyInv_moved hids' hfresh hinv.pool hcounts hnamed
        (fun seq data hstate => orderly_taken hinv.answered hr (hinv.orders seq data hstate)) hstep⟩
  | simulator hsim =>
    obtain ⟨hsequencer, -, -, -, hperm⟩ := hsim.quiet
    refine ⟨hids, hanswered, countInv_simStep hinv.counts hsim, hsequencer ▸ hinv.pool, ?_⟩
    intro seq data hstate
    rw [hsequencer] at hstate
    obtain ⟨howns, hcovers⟩ := hinv.orders seq data hstate
    refine ⟨howns, fun hwaiting => ?_⟩
    rw [hsequencer] at hwaiting
    exact covers_of_subperm (hcovers hwaiting) ((hperm.filter _).map _).subperm
      (List.Subperm.refl _)

/-! ## Runs -/

/-- A sequencer from which a run may begin: a frag that is sorted has any orders, and no
simulation is under way. -/
structure Begins (crates : Crates S) (s : Sequencer S) : Prop where
  pool : WellFormed s.ctx.txPool
  settled : ∀ seq data, s.state = .sorting seq data → Settled data
  drawn : ∀ seq data, s.state = .sorting seq data → Drawn crates s.ctx data.db.stateId

/-- The invariant at the start. -/
theorem sortingInv_start (h : Begins crates s) (n : ℕ) : SortingInv crates (World.start s n) := by
  have hnone : ∀ data, taggedCount (World.start s n) data = 0 := by
    intro data
    unfold taggedCount
    rw [outstanding_start]
    rfl
  have hcounts : CountInv (World.start s n) := by
    intro seq data hstate
    have hsettled := h.settled seq data hstate
    refine ⟨fun _ => ⟨hsettled.inFlightSims, hsettled.nextToBeApplied⟩, fun _ => ?_⟩
    rw [hsettled.inFlightSims, hnone]
    rfl
  refine ⟨⟨h.drawn, fun tx arc id hmem => ?_⟩, fun _ hr => (nomatch hr), hcounts, h.pool, ?_⟩
  · rw [outstanding_start] at hmem
    cases hmem
  · exact fun seq data hstate =>
      orderly_of_settled (h.settled seq data hstate) (hcounts seq data hstate)

/-- What sorting may panic on is not reached: handling a result for the frag that is sorted,
applying the best one, and sending the next orders after that.
SRCLINE: sorting/mod.rs:37-55, sorting_data.rs:147-183,231-257,275-280 -/
structure NoPanics (crates : Crates S) (w : World S) (data : SortingData) : Prop where
  handles : w.sequencer.waiting = false → ∀ r ∈ w.results,
    data.isValid r.result.stateId = true → ∀ simulatedTx, r.result.msg = .tx simulatedTx →
      ∃ data', data.handleSim simulatedTx r.result.senderInfo.1 w.sequencer.ctx.blockEnv.basefee =
        some data'
  applies : w.sequencer.waiting = false → ∃ data' ctx,
    data.maybeApply crates w.sequencer.ctx.blockEnv.basefee w.sequencer.ctx = some (data', ctx)
  sends : ∀ e seq data₁ ctx, Applies crates w.sequencer e seq data₁ ctx →
    ∃ data' requests, data₁.sendNext ctx.config.nPerLoop = some (data', requests)

/-- Sorting does not panic. In every state of the sequencer among any number of simulators that can
be reached with fresh ids, from any orders that hold transactions of their senders, whatever arrives
and in whatever order results come.
SRCLINE: sorting/mod.rs:37-77, sorting_data.rs:147-280, sequencer/src/lib.rs:410-457 -/
theorem sorting_not_panics {s : Sequencer S} {n : ℕ} {events : List WorldEvent}
    {seq : FragSequence} {data : SortingData} (hbegins : Begins crates s)
    (hrun : runSteps (World.step crates) (World.start s n) events = some w)
    (hfresh : Fresh crates w.sequencer.ctx) (hstate : w.sequencer.state = .sorting seq data) :
    NoPanics crates w data := by
  have hinv : SortingInv crates w :=
    world_induction (P := fun _ _ => True)
      (fun w e w' hfresh _ hinv hstep => sortingInv_worldStep hfresh hinv hstep)
      (along_of_forall (fun _ _ => trivial) _ _) (sortingInv_start hbegins n) hrun hfresh
  have horderly := hinv.orders seq data hstate
  refine ⟨fun hwaiting r hr hvalid simulatedTx hmsg => ?_, fun hwaiting => ?_, ?_⟩
  · obtain ⟨i, hi⟩ := List.mem_iff_getElem?.mp hr
    obtain ⟨orders, best, hsim, -⟩ := handleSim_of_orderly
      (orderly_taken hinv.answered hi horderly) hwaiting hvalid hmsg
      (named_of_answered hinv.answered hr) w.sequencer.ctx.blockEnv.basefee
    exact ⟨_, hsim⟩
  · obtain ⟨data', ctx, happly, -⟩ := maybeApply_of_orderly horderly hwaiting
    exact ⟨data', ctx, happly⟩
  · intro e seq₁ data₁ ctx _
    obtain ⟨data', requests, hsend, -⟩ := sendNext_spec data₁ ctx.config.nPerLoop
    exact ⟨data', requests, hsend⟩

/-- A sequencer that is sorting, with two orders of one sender. -/
def plainSortingSequencer : Sequencer ℕ where
  state := .sorting (.new 50000 1 1)
    { plainSorting 50000 [plainRawTx [1], plainRawTx [2]] with db := .new 0 2 }
  ctx := { (Sequencer.new plainCrates (plainSequencerConfig false) plainDB).ctx with draws := 2 }
  waiting := false

/-- The example begins well. -/
theorem begins_plainSortingSequencer : Begins plainCrates plainSortingSequencer where
  pool := wellFormed_empty
  settled := by
    rintro seq data ⟨⟩
    exact ⟨rfl, rfl, owns_plainSorting 50000 [plainRawTx [1], plainRawTx [2]]⟩
  drawn := by
    rintro seq data ⟨⟩
    exact ⟨1, by decide, rfl⟩

/-- A third order of that sender arrives, the orders are asked, and one of the three results
is under way. -/
def oneResult : List WorldEvent :=
  [.sequencer (.newTx (plainRawTx [3])), .sequencer (.tick 1), .pollParams 0, .pollRequest 0 0,
    .finish 0 plainOutcome]

/-- The simulations in flight at the end of that run, and whether a result for the frag is
under way. -/
def resultView (w : World ℕ) : Option (UInt64 × Bool) :=
  match w.sequencer.state with
  | .sorting _ data =>
    some (data.inFlightSims, w.results.any fun r => data.isValid r.result.stateId)
  | _ => none

/-- Three requests and one result. -/
theorem sorting_not_panics_oneResult :
    ∃ w seq data,
      runSteps (World.step plainCrates) (World.start plainSortingSequencer 1) oneResult = some w ∧
      w.sequencer.state = .sorting seq data ∧ data.inFlightSims = 3 ∧
      (w.results.any fun r => data.isValid r.result.stateId) = true ∧
      NoPanics plainCrates w data := by
  have hview : (runSteps (World.step plainCrates) (World.start plainSortingSequencer 1)
      oneResult).bind (fun w =>
        (resultView w).map (·, decide (Fresh plainCrates w.sequencer.ctx))) =
      some ((3, true), true) := by
    decide +kernel
  obtain ⟨w, hrun, hw⟩ := Option.bind_eq_some_iff.mp hview
  obtain ⟨view, hresult, heq⟩ := Option.map_eq_some_iff.mp hw
  obtain ⟨rfl, hfresh⟩ := Prod.mk.inj heq
  unfold resultView at hresult
  split at hresult
  · rename_i seq data hstate
    obtain ⟨hflight, hany⟩ := Prod.mk.inj (Option.some.inj hresult)
    exact ⟨w, seq, data, hrun, hstate, hflight, hany,
      sorting_not_panics begins_plainSortingSequencer hrun (of_decide_eq_true hfresh) hstate⟩
  · cases hresult

end BasedOp.Analysis.SortingPanics
