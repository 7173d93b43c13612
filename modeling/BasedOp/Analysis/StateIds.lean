import BasedOp.Analysis.SequencerFrames
import BasedOp.Analysis.WorldSteps
import BasedOp.Computation.Runs

/-!
# The ids of the frags that are sorted

A frag that is being sorted gets a new random id when it is begun and whenever a
transaction is applied to it, and requests and results are tagged with it. `FragStep` says
what a step of the sequencer does to the frag that is sorted, and `Changes` what it does to
the transactions in it. As long as the numbers that are drawn are fresh, a new id is that
of no request under way (`IdInv.fresh`).
-/

set_option autoImplicit false

namespace BasedOp.Analysis.StateIds

open BasedOp.Computation Model Model.Gateway
open SequencerSteps SequencerFrames WorldSteps

variable {S : Type}

/-! ## What a step does to the frag that is sorted -/

/-- A request for a simulation on the frag that has an id. -/
def tagged (id : UInt64) : SequencerToSimulator → Bool
  | .simulateTx _ _ stateId => stateId == id
  | .simulateTxTof _ _ => false

/-- No simulation is asked for but on the sealed frags, and no block is started. -/
structure Pooling (sent : List Output) : Prop where
  requests : ∀ request ∈ World.sentRequests sent, ∃ tx id, request = .simulateTxTof tx id
  params : World.sentParams sent = []

/-- What a step does to the frag that is sorted: there is none after it, a block is started
or a frag is cut, the frag stays what it is but for an order that arrives, a result is
taken, or the next orders or the next deposit are sent. -/
inductive FragStep (crates : Crates S) (s : Sequencer S) :
    Event → List Output → Sequencer S → Prop
  | leaves {e : Event} {sent : List Output} {s' : Sequencer S}
      (hstate : ∀ seq data, s'.state ≠ .sorting seq data) (hpooling : Pooling sent) :
      FragStep crates s e sent s'
  | starts (attributes : OpPayloadAttributes) (now : ℕ) {params : EvmBlockParams}
      {seq : FragSequence} {data : SortingData} {ctx : SequencerContext S} {msg : VersionedMessage}
      (hstate : awaits s.state = true) (hparent : s.ctx.parentHeader.parentHash ≠ 0)
      (hparams : { s.ctx with payloadAttributes := attributes }.newBlockParams crates = some params)
      (hstart : { s.ctx with payloadAttributes := attributes }.startWith crates params now =
        some (seq, data, ctx)) :
      FragStep crates s
        (.engineApi (.forkChoiceUpdatedV3 s.ctx.db.headBlockHash (some attributes)) now)
        [.evmBlockParams params, .gossip msg] ⟨.sorting seq data, ctx, false⟩
  | cuts (now : ℕ) {seq seq' : FragSequence} {data data' : SortingData} {frag : FragV0}
      {ctx ctx' : SequencerContext S} (hstate : s.state = .sorting seq data)
      (hwaiting : s.waiting = false) (hmined : s.ctx.removeMinedTxs data.txs = some ctx)
      (hcuts : Cuts crates ctx data seq now frag data' seq' ctx') :
      FragStep crates s (.tick now) [.gossip (.fragV0 frag)] ⟨.sorting seq' data', ctx', false⟩
  | keeps {e : Event} {sent : List Output} {seq : FragSequence} {data data' : SortingData}
      {ctx : SequencerContext S} (hstate : s.state = .sorting seq data)
      (hdata : data' = data ∨ ∃ tx, e = .newTx tx ∧ data' = { data with
        tofSnapshot := { current := none, pending := .fromTx tx } :: data.tofSnapshot })
      (hsame : SameBlock s.ctx ctx) (hshared : ctx.sharedState = s.ctx.sharedState)
      (hdraws : ctx.draws = s.ctx.draws)
      (hdeposits : ctx.deposits = s.ctx.deposits ∨ ∃ tx, e = .newTx tx)
      (hresult : ∀ result, e = .simResult result → data.isValid result.stateId = true →
        (∀ tx, result.msg ≠ .tx (.ok tx)) ∧ (s.waiting = false → ∀ tx, result.msg ≠ .tx tx))
      (hpooling : Pooling sent) :
      FragStep crates s e sent ⟨.sorting seq data', ctx, s.waiting⟩
  | takes (result : SimulatorToSequencer) {simulatedTx : Except SimulationError SimulatedTx}
      {seq : FragSequence} {data data' : SortingData} (hstate : s.state = .sorting seq data)
      (hwaiting : s.waiting = false) (hvalid : data.isValid result.stateId = true)
      (hmsg : result.msg = .tx simulatedTx)
      (hsim : data.handleSim simulatedTx result.senderInfo.1 s.ctx.blockEnv.basefee = some data') :
      FragStep crates s (.simResult result) [] ⟨.sorting seq data', s.ctx, false⟩
  | orders {e : Event} {seq : FragSequence} {data data' : SortingData} {ctx : SequencerContext S}
      {requests : List SequencerToSimulator} (happlies : Applies crates s e seq data ctx)
      (hdeposits : ctx.deposits = [])
      (hsend : data.sendNext ctx.config.nPerLoop = some (data', requests)) :
      FragStep crates s e (requests.map .simulate) ⟨.sorting seq data', ctx, false⟩
  | deposit {e : Event} {seq : FragSequence} {data : SortingData} {ctx : SequencerContext S}
      {deposit : Transaction} {rest : List Transaction} (happlies : Applies crates s e seq data ctx)
      (hdeposits : ctx.deposits = deposit :: rest) :
      FragStep crates s e [.simulate (data.request deposit)]
        ⟨.sorting seq data, { ctx with deposits := rest }, true⟩

/-- Simulations are requests. -/
theorem sentRequests_simulate (requests : List SequencerToSimulator) :
    World.sentRequests (requests.map .simulate) = requests := by
  simp [World.sentRequests, List.filterMap_map]

/-- They are no parameters. -/
theorem sentParams_simulate (requests : List SequencerToSimulator) :
    World.sentParams (requests.map .simulate) = [] := by
  simp [World.sentParams, List.filterMap_map]

/-- What is asked for on the sealed frags has no id of a frag that is sorted. -/
theorem untagged_pooling {sent : List Output} (h : Pooling sent) (id : UInt64) :
    ∀ request ∈ World.sentRequests sent, tagged id request = false := by
  intro request hrequest
  obtain ⟨tx, stateId, rfl⟩ := h.requests request hrequest
  rfl

/-- Sending nothing is pooling. -/
theorem pooling_nil : Pooling [] := ⟨by simp [World.sentRequests], rfl⟩

/-- Fetching blocks is pooling. -/
theorem pooling_fetch (fetch : Option (UInt64 × UInt64)) (f : UInt64 × UInt64 → UInt64 × UInt64) :
    Pooling (fetch.toList.map fun r => .blockFetch (f r).1 (f r).2) := by
  cases fetch with
  | none => exact pooling_nil
  | some => exact ⟨by simp [World.sentRequests], rfl⟩

variable {requests : List SequencerToSimulator} {simulatedTx : Except SimulationError SimulatedTx}
  {e : Event} {ctx ctx' : SequencerContext S} {seq seq' : FragSequence}
  {data₁ data data' : SortingData} {limit : UInt64}

/-- The pool asks for simulations. -/
theorem pooling_simulate (h : ∀ request ∈ requests, ∃ tx id, request = .simulateTxTof tx id) :
    Pooling (requests.map .simulate) where
  requests := by rwa [sentRequests_simulate]
  params := sentParams_simulate requests

variable {crates : Crates S} {s s' : Sequencer S}

/-- What only touches the pools. -/
theorem fragStep_of_pool {result : SimulatorToSequencer} {pool : TxPool}
    (hwaiting : s.waiting = false) (hmsg : result.msg = .txPoolTopOfFrag simulatedTx) :
    FragStep crates s (.simResult result) [] ⟨s.state, { s.ctx with txPool := pool }, false⟩ := by
  cases hstate : s.state with
  | sorting =>
    rw [← hwaiting]
    refine .keeps hstate (.inl rfl) ⟨rfl, rfl, rfl, rfl, rfl, rfl, rfl⟩ rfl rfl (.inl rfl) ?_
      pooling_nil
    intro result' heq _
    cases heq
    rw [hmsg]
    exact ⟨fun _ h => (nomatch h), fun _ _ h => (nomatch h)⟩
  | _ => exact .leaves (by simp) pooling_nil

/-- An event is ignored. -/
theorem fragStep_of_ignores (hignores : Ignores s e) : FragStep crates s e [] s := by
  cases hstate : s.state with
  | sorting seq data =>
    obtain ⟨state, ctx, waiting⟩ := s
    cases hstate
    refine .keeps rfl (.inl rfl) (.refl _) rfl rfl (.inl rfl) ?_ pooling_nil
    rintro result rfl hvalid
    obtain ⟨hok, hfalse⟩ := hignores
    exact ⟨hok seq data rfl hvalid, fun hwaiting => (hfalse hwaiting).1 seq data rfl hvalid⟩
  | _ => exact .leaves (by simp [hstate]) pooling_nil

/-- A transaction arrives. -/
theorem fragStep_of_newTx {tx : Transaction} (hwaiting : s.waiting = false)
    (htx : s.ctx.handleTx crates tx = some (ctx, requests)) :
    FragStep crates s (.newTx tx) (requests.map .simulate) ⟨addOrder tx s.state, ctx, false⟩ := by
  have htakes := takesTx_of_handleTx htx
  cases hstate : s.state with
  | sorting =>
    rw [← hwaiting]
    exact .keeps hstate (.inr ⟨tx, rfl, rfl⟩) htakes.same htakes.sharedState htakes.draws
      (.inr ⟨tx, rfl⟩) (fun _ h => (nomatch h)) (pooling_simulate htakes.pooling)
  | _ => exact .leaves (by simp [addOrder]) (pooling_simulate htakes.pooling)

/-- Nothing else is done to the frag that is sorted. -/
theorem fragStep_of_step {sent : List Output} (h : Step crates s e sent s') :
    FragStep crates s e sent s' := by
  cases h with
  | ignored e hignores => exact fragStep_of_ignores hignores
  | fetch =>
    exact .leaves (by simp) ⟨by simp [World.sentRequests], rfl⟩
  | known => exact .leaves (by simp) pooling_nil
  | @newPayload payload hashes root now block ctx fetch hstate hahead hhead hblock hcommit =>
    exact .leaves (state_fetch_ne_sorting fetch) (pooling_fetch fetch fun r => r)
  | noAttributes => exact .leaves (by simp) pooling_nil
  | start attributes now hstate hparent hparams hstart =>
    exact .starts attributes now hstate hparent hparams hstart
  | sealed => exact .leaves (by simp) ⟨by simp [World.sentRequests], rfl⟩
  | committed =>
    exact .leaves (by simp) ⟨by simp [World.sentRequests], rfl⟩
  | @synced block last ctx fetch hstate hcommit =>
    exact .leaves (afterSync_ne_sorting last _ fetch)
      (pooling_fetch fetch fun r => (r.1, max last r.2))
  | imported => exact .leaves (by simp) pooling_nil
  | newTx tx hwaiting htx => exact fragStep_of_newTx hwaiting htx
  | simulated result hstate hwaiting hvalid hmsg hsim =>
    exact .takes result hstate hwaiting hvalid hmsg hsim
  | topOfFrag result hwaiting hmsg => exact fragStep_of_pool hwaiting hmsg
  | topOfFragFailed result hwaiting hmsg => exact fragStep_of_pool hwaiting hmsg
  | cut now hstate hwaiting hseal hmined hfrag =>
    exact .cuts now hstate hwaiting hmined (cuts_of_sealFrag hfrag)
  | orders happlies hdeposits hsend => exact .orders happlies hdeposits hsend
  | deposit happlies hdeposits => exact .deposit happlies hdeposits

/-! ## Applying and sending -/

/-- What a frag that something may have been applied to has to do with the frag before:
its contents and their id are those of before, or the id was just drawn. -/
structure Applied (crates : Crates S) (s : Sequencer S) (data data₁ : SortingData)
    (ctx₁ : SequencerContext S) : Prop where
  inFlightSims : data₁.inFlightSims = data.inFlightSims
  same : SameBlock s.ctx ctx₁
  sharedState : ctx₁.sharedState = s.ctx.sharedState
  deposits : ctx₁.deposits = s.ctx.deposits
  arc : data₁.db.arc = data.db.arc
  settled : s.waiting = false → data.inFlightSims = 0 ∧ data₁.nextToBeApplied = none
  unsettled : s.waiting = true → data₁.nextToBeApplied = data.nextToBeApplied
  id : (s.waiting = false ∧ data₁.db = data.db ∧ ctx₁.draws = s.ctx.draws) ∨
    (data₁.db.stateId = crates.rand s.ctx.draws ∧ ctx₁.draws = s.ctx.draws + 1)

variable {ctx₁ : SequencerContext S} {i : ℕ}

/-- What applying does. -/
theorem applied_of_applies (h : Applies crates s e seq data₁ ctx₁) :
    ∃ data, s.state = .sorting seq data ∧ Applied crates s data data₁ ctx₁ := by
  cases h with
  | @best _ data _ _ now hstate hwaiting hseal hflight happly =>
    refine ⟨data, hstate, ?_⟩
    have hzero : data.inFlightSims = 0 := by simpa [SortingData.shouldSendNextSims] using hflight
    have hwaiting' : ¬ s.waiting = true := by simp [hwaiting]
    unfold SortingData.maybeApply at happly
    split at happly
    · rename_i hnext
      obtain ⟨rfl, rfl⟩ := Prod.mk.inj (Option.some.inj happly)
      exact ⟨rfl, .refl _, rfl, rfl, rfl, fun _ => ⟨hzero, hnext⟩, fun h => absurd h hwaiting',
        .inl ⟨hwaiting, rfl, rfl⟩⟩
    · split at happly
      · cases happly
      · obtain ⟨rfl, rfl⟩ := Prod.mk.inj (Option.some.inj happly)
        exact ⟨rfl, ⟨rfl, rfl, rfl, rfl, rfl, rfl, rfl⟩, rfl, rfl, rfl, fun _ => ⟨hzero, rfl⟩,
          fun h => absurd h hwaiting', .inr ⟨rfl, rfl⟩⟩
  | @deposit _ data result tx hstate hwaiting hvalid hmsg =>
    refine ⟨data, hstate, ?_⟩
    exact ⟨rfl, ⟨rfl, rfl, rfl, rfl, rfl, rfl, rfl⟩, rfl, rfl, rfl, fun h => by simp [hwaiting] at h,
      fun _ => rfl, .inr ⟨rfl, rfl⟩⟩

/-- Nothing is left to be applied after applying, also when it is a deposit that was applied. -/
theorem Applied.best_eq_none (h : Applied crates s data data₁ ctx₁)
    (hsettled : s.waiting = true → data.nextToBeApplied = none) :
    data₁.nextToBeApplied = none := by
  by_cases hwaiting : s.waiting = true
  · rw [h.unsettled hwaiting]
    exact hsettled hwaiting
  · exact (h.settled (by simpa using hwaiting)).2

/-- The orders that were sent: they are for the frag as it is, and are counted. -/
structure Sends (data data' : SortingData) (requests : List SequencerToSimulator) : Prop where
  db : data'.db = data.db
  nextToBeApplied : data'.nextToBeApplied = data.nextToBeApplied
  txs : data'.txs = data.txs
  ofFrag : ∀ request ∈ requests, ∃ tx, request = data.request tx
  inFlightSims : data'.inFlightSims.toNat = data.inFlightSims.toNat + requests.length

/-- Nothing is asked for. -/
theorem Sends.refl (data : SortingData) (orders : ActiveOrders) :
    Sends data { data with tofSnapshot := orders } [] :=
  ⟨rfl, rfl, rfl, by simp, rfl⟩

/-- One more request; the count of them does not wrap, since it stays within the
number of simulations that are sent at once. -/
theorem Sends.cons (hlimit : data.inFlightSims < limit) (orders : ActiveOrders) (tx : Transaction)
    (h : Sends { data with tofSnapshot := orders, inFlightSims := data.inFlightSims + 1 } data'
      requests) : Sends data data' (data.request tx :: requests) := by
  refine ⟨h.db, h.nextToBeApplied, h.txs, ?_, ?_⟩
  · intro request hrequest
    obtain rfl | hrest := List.mem_cons.mp hrequest
    · exact ⟨tx, rfl⟩
    · exact h.ofFrag request hrest
  · have hsucc : (data.inFlightSims + 1).toNat = data.inFlightSims.toNat + 1 := by
      have hlt := UInt64.lt_iff_toNat_lt.mp hlimit
      have hmax := limit.toNat_lt
      rw [UInt64.toNat_add]
      simp only [UInt64.toNat_one]
      omega
    have hcount := h.inFlightSims
    dsimp only at hcount
    rw [hcount, hsucc, List.length_cons]
    omega

/-- The loop that sends orders. -/
theorem sends_of_sendNextFrom (h : data.sendNextFrom limit i = some (data', requests)) :
    Sends data data' requests := by
  induction i generalizing data requests with
  | zero =>
    rw [SortingData.sendNextFrom] at h
    split at h
    · rename_i hlimit
      split at h
      · cases h
      · split at h
        · obtain ⟨rfl, rfl⟩ := Prod.mk.inj (Option.some.inj h)
          exact .refl data _
        · split at h
          · cases h
          · rename_i tx order hnext
            obtain ⟨rfl, rfl⟩ := Prod.mk.inj (Option.some.inj h)
            exact .cons hlimit (data.tofSnapshot.set 0 order) tx
              (.refl _ (data.tofSnapshot.set 0 order))
    · obtain ⟨rfl, rfl⟩ := Prod.mk.inj (Option.some.inj h)
      exact .refl data _
  | succ i ih =>
    rw [SortingData.sendNextFrom] at h
    split at h
    · rename_i hlimit
      split at h
      · cases h
      · split at h
        · have hrest := ih h
          exact ⟨hrest.db, hrest.nextToBeApplied, hrest.txs, hrest.ofFrag, hrest.inFlightSims⟩
        · split at h
          · cases h
          · rename_i tx order hnext
            obtain ⟨⟨data₁, requests₁⟩, hrest, heq⟩ := Option.map_eq_some_iff.mp h
            obtain ⟨rfl, rfl⟩ := Prod.mk.inj heq
            exact .cons hlimit _ tx (ih hrest)
    · obtain ⟨rfl, rfl⟩ := Prod.mk.inj (Option.some.inj h)
      exact .refl data _

/-- What asking does to the frag. -/
theorem sends_of_sendNext (h : data.sendNext limit = some (data', requests)) :
    Sends data data' requests := by
  unfold SortingData.sendNext at h
  split at h
  · obtain ⟨rfl, rfl⟩ := Prod.mk.inj (Option.some.inj h)
    exact .refl data _
  · exact sends_of_sendNextFrom h

/-- A result that is taken in is counted, and changes the orders; it becomes the next
to be applied only if there is gas left for it, and more. -/
theorem handleSim_cases {sender : Address} {baseFee : UInt64}
    (h : data.handleSim simulatedTx sender baseFee = some data') :
    ∃ orders,
      data' = { data with inFlightSims := data.inFlightSims - 1, tofSnapshot := orders } ∨
      ∃ tx, simulatedTx = .ok tx ∧ tx.gasUsed < data.gasRemaining ∧
        data' = { data with
          inFlightSims := data.inFlightSims - 1
          nextToBeApplied := some tx
          tofSnapshot := orders } := by
  unfold SortingData.handleSim at h
  dsimp only at h
  split at h
  · obtain ⟨orders, -, rfl⟩ := Option.map_eq_some_iff.mp h
    exact ⟨orders, .inl rfl⟩
  · rename_i tx
    split at h
    · obtain ⟨orders, -, rfl⟩ := Option.map_eq_some_iff.mp h
      exact ⟨orders, .inl rfl⟩
    · split at h
      · rename_i hbest
        obtain rfl := Option.some.inj h
        have hgas : tx.gasUsed < data.gasRemaining := by
          simp only [Bool.and_eq_true, decide_eq_true_eq] at hbest
          exact hbest.1
        exact ⟨_, .inr ⟨tx, rfl, hgas, rfl⟩⟩
      · obtain rfl := Option.some.inj h
        exact ⟨_, .inl rfl⟩

/-- A result that was taken: it is counted, and may be the best of its round so far. -/
structure TakesSim (data : SortingData) (simulatedTx : Except SimulationError SimulatedTx)
    (data' : SortingData) : Prop where
  db : data'.db = data.db
  txs : data'.txs = data.txs
  inFlightSims : data'.inFlightSims = data.inFlightSims - 1
  best : data'.nextToBeApplied = data.nextToBeApplied ∨
    ∃ tx, simulatedTx = .ok tx ∧ data'.nextToBeApplied = some tx

/-- What a result does to it. -/
theorem takesSim_of_handleSim {sender : Address} {baseFee : UInt64}
    (h : data.handleSim simulatedTx sender baseFee = some data') :
    TakesSim data simulatedTx data' := by
  obtain ⟨orders, rfl | ⟨tx, htx, -, rfl⟩⟩ := handleSim_cases h
  · exact ⟨rfl, rfl, rfl, .inl rfl⟩
  · exact ⟨rfl, rfl, rfl, .inr ⟨tx, htx, rfl⟩⟩

/-! ## Transactions -/

/-- The frag that is sorted once a transaction was committed to it. -/
def Gains (crates : Crates S) (s : Sequencer S) (data data' : SortingData) (tx : SimulatedTx) :
    Prop :=
  data'.txs = data.txs ++ [tx] ∧
    data'.db = data.db.commitRef crates (s.ctx.fragView crates) tx.resultAndState.state
      (s.ctx.nextRand crates)

/-- What an event does to the transactions and the contents of a block that is built. -/
inductive Changes (crates : Crates S) (s : Sequencer S) (seq : FragSequence) (data : SortingData)
    (seq' : FragSequence) (data' : SortingData) : Event → Prop
  | kept {e : Event} (hseq : seq' = seq) (htxs : data'.txs = data.txs) (hdb : data'.db = data.db) :
      Changes crates s seq data seq' data' e
  | cut {e : Event} (hseq : seq'.txs = seq.txs ++ data.txs.map DBFrag.takeState)
      (htxs : data'.txs = []) : Changes crates s seq data seq' data' e
  | best {now : ℕ} {tx : SimulatedTx} (hseq : seq' = seq) (hwaiting : s.waiting = false)
      (hseal : data.shouldSealFrag now = false) (hflight : data.shouldSendNextSims = true)
      (hnext : data.nextToBeApplied = some tx) (hgains : Gains crates s data data' tx) :
      Changes crates s seq data seq' data' (.tick now)
  | deposit {result : SimulatorToSequencer} {tx : SimulatedTx} (hseq : seq' = seq)
      (hwaiting : s.waiting = true) (hvalid : data.isValid result.stateId = true)
      (hmsg : result.msg = .tx (.ok tx)) (hgains : Gains crates s data data' tx) :
      Changes crates s seq data seq' data' (.simResult result)

/-- What applying adds to the frag. -/
theorem changes_of_applies (h : Applies crates s e seq' data₁ ctx)
    (hstate : s.state = .sorting seq data) (htxs : data'.txs = data₁.txs)
    (hdb : data'.db = data₁.db) : Changes crates s seq data seq' data' e := by
  cases h with
  | best now hstate' hwaiting hseal hflight happly =>
    rw [hstate] at hstate'
    cases hstate'
    unfold SortingData.maybeApply at happly
    split at happly
    · obtain ⟨rfl, rfl⟩ := Prod.mk.inj (Option.some.inj happly)
      exact .kept rfl htxs hdb
    · rename_i tx hnext
      split at happly
      · cases happly
      · obtain ⟨rfl, rfl⟩ := Prod.mk.inj (Option.some.inj happly)
        exact .best rfl hwaiting hseal hflight hnext ⟨htxs, hdb⟩
  | deposit result tx hstate' hwaiting hvalid hmsg =>
    rw [hstate] at hstate'
    cases hstate'
    exact .deposit rfl hwaiting hvalid hmsg ⟨htxs, hdb⟩

/-- A block that is built changes in no other way. -/
theorem changes_of_step {sent : List Output} (h : Step crates s e sent s')
    (hstate : s.state = .sorting seq data) (hstate' : s'.state = .sorting seq' data') :
    Changes crates s seq data seq' data' e := by
  cases fragStep_of_step h with
  | leaves hleaves => exact absurd hstate' (hleaves _ _)
  | starts attributes now hawaits =>
    exact absurd hstate (ne_sorting_of_awaits hawaits _ _)
  | cuts now hcut hwaiting hmined hcuts =>
    cases hstate'
    rw [hstate] at hcut
    cases hcut
    exact .cut (by rw [hcuts.seq_eq]; rfl) (grows_of_cuts hcuts).2.2.2.2.1
  | keeps hkeeps hdata =>
    cases hstate'
    rw [hstate] at hkeeps
    cases hkeeps
    obtain rfl | ⟨tx, -, rfl⟩ := hdata <;> exact .kept rfl rfl rfl
  | takes result htakes hwaiting hvalid hmsg hsim =>
    cases hstate'
    rw [hstate] at htakes
    cases htakes
    exact .kept rfl (takesSim_of_handleSim hsim).txs (takesSim_of_handleSim hsim).db
  | orders happlies hdeposits hsend =>
    cases hstate'
    have hsends := sends_of_sendNext hsend
    exact changes_of_applies happlies hstate hsends.txs hsends.db
  | deposit happlies =>
    cases hstate'
    exact changes_of_applies happlies hstate rfl rfl

/-! ## Draws -/

/-- Numbers are only drawn, never given back. -/
theorem draws_le_of_step {sent : List Output} (h : Step crates s e sent s') :
    s.ctx.draws ≤ s'.ctx.draws := by
  have happlied : ∀ {e seq data ctx}, Applies crates s e seq data ctx → s.ctx.draws ≤ ctx.draws := by
    intro e seq data ctx happlies
    obtain ⟨data₀, -, happlied⟩ := applied_of_applies happlies
    obtain ⟨-, -, hdraws⟩ | ⟨-, hdraws⟩ := happlied.id <;> omega
  have hsealed : ∀ {now seq data frag sl envelope ctx},
      Seals crates s now seq data frag sl envelope ctx → s.ctx.draws ≤ ctx.draws := by
    intro now seq data frag sl envelope ctx hseals
    obtain ⟨msg, data', seq', ctx₁, -, hcuts, hfrom⟩ := sealedFrom_of_seals hseals
    have hdraws := (grows_of_cuts hcuts).2.1
    rw [hfrom.ctx_eq]
    show s.ctx.draws ≤ ctx₁.draws
    omega
  cases h with
  | ignored => exact le_rfl
  | fetch => exact le_rfl
  | known => exact Nat.le_succ _
  | newPayload payload hashes root now hstate hahead hhead hblock hcommit =>
    show _ ≤ SequencerContext.draws _
    rw [(commits_of_commitBlock hcommit).draws]
    exact Nat.le_succ _
  | noAttributes => exact le_rfl
  | start attributes now hstate hparent hparams hstart =>
    exact Nat.le_of_lt (grows_of_startWith hstart).2.1
  | sealed now hseals => exact hsealed hseals
  | @committed now seq data frag sl envelope ctx ctx' block fetch hseals hconfig hblock hcommit =>
    have hle := hsealed hseals
    have hdraws := (commits_of_commitBlock hcommit).draws
    show _ ≤ ctx'.draws + 1
    omega
  | synced block hstate hcommit => exact Nat.le_of_eq (commits_of_commitBlock hcommit).draws.symm
  | imported block hstate hcommit => exact Nat.le_of_eq (commits_of_commitBlock hcommit).draws.symm
  | newTx tx hwaiting htx => exact Nat.le_of_eq (takesTx_of_handleTx htx).draws.symm
  | simulated => exact le_rfl
  | topOfFrag => exact le_rfl
  | topOfFragFailed => exact le_rfl
  | cut now hstate hwaiting hseal hmined hfrag =>
    have hdraws := (grows_of_cuts (cuts_of_sealFrag hfrag)).2.1
    obtain ⟨pool, -, rfl⟩ := Option.map_eq_some_iff.mp hmined
    dsimp only at hdraws ⊢
    omega
  | orders happlies => exact happlied happlies
  | deposit happlies =>
    have hle := happlied happlies
    exact hle

/-- The id of the frag that is sorted after a step is that of before, or was drawn in the step. -/
theorem FragStep.id {sent : List Output} (h : FragStep crates s e sent s')
    (hstate' : s'.state = .sorting seq' data') :
    (∃ seq data, s.state = .sorting seq data ∧ data'.db.stateId = data.db.stateId) ∨
      ∃ i, s.ctx.draws ≤ i ∧ i < s'.ctx.draws ∧ crates.rand i = data'.db.stateId := by
  have happlied : ∀ {e seq data ctx}, Applies crates s e seq data ctx →
      (∃ seq₀ data₀, s.state = .sorting seq₀ data₀ ∧ data.db.stateId = data₀.db.stateId) ∨
        ∃ i, s.ctx.draws ≤ i ∧ i < ctx.draws ∧ crates.rand i = data.db.stateId := by
    intro e seq data ctx happlies
    obtain ⟨data₀, hstate, happlied⟩ := applied_of_applies happlies
    obtain ⟨-, hdb, -⟩ | ⟨hid, hdraws⟩ := happlied.id
    · exact .inl ⟨seq, data₀, hstate, by rw [hdb]⟩
    · exact .inr ⟨s.ctx.draws, le_rfl, by omega, hid.symm⟩
  cases h with
  | leaves hstate => exact absurd hstate' (hstate _ _)
  | starts attributes now hstate hparent hparams hstart =>
    cases hstate'
    obtain ⟨hid, hlt, -⟩ := grows_of_startWith hstart
    exact .inr ⟨s.ctx.draws, le_rfl, hlt, hid.symm⟩
  | cuts now hstate hwaiting hmined hcuts =>
    cases hstate'
    obtain ⟨hid, hdraws, -⟩ := grows_of_cuts hcuts
    obtain ⟨pool, -, rfl⟩ := Option.map_eq_some_iff.mp hmined
    exact .inr ⟨s.ctx.draws + 1, by omega, by dsimp only at hdraws ⊢; omega, hid.symm⟩
  | keeps hstate hdata =>
    cases hstate'
    refine .inl ⟨_, _, hstate, ?_⟩
    obtain rfl | ⟨tx, -, rfl⟩ := hdata <;> rfl
  | takes result hstate hwaiting hvalid hmsg hsim =>
    cases hstate'
    exact .inl ⟨_, _, hstate, by rw [(takesSim_of_handleSim hsim).db]⟩
  | orders happlies hdeposits hsend =>
    cases hstate'
    rw [(sends_of_sendNext hsend).db]
    exact happlied happlies
  | deposit happlies =>
    cases hstate'
    have hid := happlied happlies
    exact hid

/-- What is asked for on the frag that is sorted is tagged with its id. -/
theorem FragStep.sent {sent : List Output} (h : FragStep crates s e sent s') {tx : Transaction}
    {arc : ℕ} {id : UInt64} (hsent : .simulateTx tx arc id ∈ World.sentRequests sent) :
    ∃ seq' data', s'.state = .sorting seq' data' ∧ arc = data'.db.arc ∧ id = data'.db.stateId := by
  have hpooled : ∀ {sent : List Output}, Pooling sent →
      .simulateTx tx arc id ∉ World.sentRequests sent := by
    intro sent hpooling hmem
    obtain ⟨tx', id', heq⟩ := hpooling.requests _ hmem
    cases heq
  cases h with
  | leaves hstate hpooling => exact absurd hsent (hpooled hpooling)
  | starts => simp [World.sentRequests] at hsent
  | cuts => simp [World.sentRequests] at hsent
  | keeps hstate hdata hsame hshared hdraws hdeposits hresult hpooling =>
    exact absurd hsent (hpooled hpooling)
  | takes => simp [World.sentRequests] at hsent
  | orders happlies hdeposits hsend =>
    have hsends := sends_of_sendNext hsend
    rw [sentRequests_simulate] at hsent
    obtain ⟨tx', heq⟩ := hsends.ofFrag _ hsent
    cases heq
    exact ⟨_, _, rfl, by rw [hsends.db], by rw [hsends.db]⟩
  | deposit =>
    obtain ⟨rfl, rfl, rfl⟩ : tx = _ ∧ arc = _ ∧ id = _ := by
      simpa [World.sentRequests, SortingData.request] using hsent
    exact ⟨_, _, rfl, rfl, rfl⟩

/-- A frag that is sorted after a step belongs to the block of before, or to one that is started. -/
theorem FragStep.block {sent : List Output} (h : FragStep crates s e sent s')
    (hstate' : s'.state = .sorting seq' data') :
    ((∃ seq data, s.state = .sorting seq data) ∧ SameBlock s.ctx s'.ctx ∧
      World.sentParams sent = []) ∨
    ∃ attributes now params,
      e = .engineApi (.forkChoiceUpdatedV3 s.ctx.db.headBlockHash (some attributes)) now ∧
      awaits s.state = true ∧ s.ctx.parentHeader.parentHash ≠ 0 ∧
      { s.ctx with payloadAttributes := attributes }.newBlockParams crates = some params ∧
      { s.ctx with payloadAttributes := attributes }.startWith crates params now =
        some (seq', data', s'.ctx) ∧ World.sentParams sent = [params] := by
  cases h with
  | leaves hstate => exact absurd hstate' (hstate _ _)
  | starts attributes now hstate hparent hparams hstart =>
    cases hstate'
    exact .inr ⟨attributes, now, _, rfl, hstate, hparent, hparams, hstart, rfl⟩
  | cuts now hstate hwaiting hmined hcuts =>
    exact .inl ⟨⟨_, _, hstate⟩, (sameBlock_removeMinedTxs hmined).trans hcuts.same, rfl⟩
  | keeps hstate hdata hsame hshared hdraws hdeposits hresult hpooling =>
    exact .inl ⟨⟨_, _, hstate⟩, hsame, hpooling.params⟩
  | takes result hstate => exact .inl ⟨⟨_, _, hstate⟩, .refl _, rfl⟩
  | orders happlies =>
    obtain ⟨⟨data₀, hstate⟩, hsame⟩ := sameBlock_applies happlies
    exact .inl ⟨⟨_, _, hstate⟩, hsame, sentParams_simulate _⟩
  | deposit happlies =>
    obtain ⟨⟨data₀, hstate⟩, hsame⟩ := sameBlock_applies happlies
    exact .inl ⟨⟨_, _, hstate⟩, hsame.setDeposits, rfl⟩

/-! ## Fresh ids -/

/-- The id was drawn before. -/
def Drawn (crates : Crates S) (ctx : SequencerContext S) (id : UInt64) : Prop :=
  ∃ i < ctx.draws, crates.rand i = id

/-- The numbers that were drawn are all different. -/
def Fresh (crates : Crates S) (ctx : SequencerContext S) : Prop :=
  ∀ i < ctx.draws, ∀ j < ctx.draws, crates.rand i = crates.rand j → i = j

instance (ctx : SequencerContext S) : Decidable (Fresh crates ctx) :=
  inferInstanceAs (Decidable (∀ i < ctx.draws, ∀ j < ctx.draws, _ → _))

/-- Ids stay drawn. -/
theorem Drawn.mono {id : UInt64} (h : Drawn crates ctx id) (hle : ctx.draws ≤ ctx'.draws) :
    Drawn crates ctx' id := by
  obtain ⟨i, hi, hid⟩ := h
  exact ⟨i, by omega, hid⟩

/-- Fewer draws are fresh, too. -/
theorem Fresh.mono (h : Fresh crates ctx') (hle : ctx.draws ≤ ctx'.draws) : Fresh crates ctx :=
  fun i hi j hj => h i (by omega) j (by omega)

/-- The ids that are in use were drawn. -/
structure IdInv (crates : Crates S) (w : World S) : Prop where
  ofSorting : ∀ seq data, w.sequencer.state = .sorting seq data →
    Drawn crates w.sequencer.ctx data.db.stateId
  ofRequests : ∀ tx arc id, .simulateTx tx arc id ∈ outstanding w → Drawn crates w.sequencer.ctx id

variable {w w' : World S}

/-- An id that is drawn now is that of no request under way. -/
theorem IdInv.fresh (hinv : IdInv crates w) (hfresh : Fresh crates ctx')
    (hle : w.sequencer.ctx.draws ≤ i) (hlt : i < ctx'.draws) :
    ∀ request ∈ outstanding w, tagged (crates.rand i) request = false := by
  intro request hrequest
  cases request with
  | simulateTxTof => rfl
  | simulateTx tx arc id =>
    obtain ⟨j, hj, rfl⟩ := hinv.ofRequests tx arc id hrequest
    have hne : crates.rand j ≠ crates.rand i := by
      intro heq
      have := hfresh j (by omega) i hlt heq
      omega
    simpa [tagged] using hne

/-- Taking a result keeps the ids. -/
theorem idInv_taken (hinv : IdInv crates w) {r : SimResult} (hr : w.results[i]? = some r) :
    IdInv crates (taken w i r) where
  ofSorting := hinv.ofSorting
  ofRequests := fun tx arc id hmem => hinv.ofRequests tx arc id
    ((outstanding_taken hr).mem_iff.mp (List.mem_cons_of_mem _ hmem))

/-- So does a step of the sequencer. -/
theorem idInv_moved (hinv : IdInv crates w) {sent : List Output} {s : Sequencer S}
    (hstep : Step crates w.sequencer e sent s) : IdInv crates (moved crates w sent s) := by
  have hle := draws_le_of_step hstep
  have hfrag := fragStep_of_step hstep
  have hsorting : ∀ seq data, s.state = .sorting seq data → Drawn crates s.ctx data.db.stateId := by
    intro seq data hstate
    obtain ⟨seq₀, data₀, hstate₀, hid⟩ | ⟨i, -, hlt, hid⟩ := hfrag.id hstate
    · rw [hid]
      exact (hinv.ofSorting seq₀ data₀ hstate₀).mono hle
    · exact ⟨i, hlt, hid⟩
  refine ⟨hsorting, fun tx arc id hmem => ?_⟩
  obtain hold | hnew := List.mem_append.mp ((outstanding_moved w sent s).mem_iff.mp hmem)
  · exact (hinv.ofRequests tx arc id hold).mono hle
  · obtain ⟨seq, data, hstate, -, rfl⟩ := hfrag.sent hnew
    exact hsorting seq data hstate

/-- Every step keeps the ids. -/
theorem idInv_worldStep {e : WorldEvent} (hinv : IdInv crates w) (h : WorldStep crates w e w') :
    IdInv crates w' := by
  cases h with
  | sequencer hexternal hstep => exact idInv_moved hinv hstep
  | deliver hr hstep => exact idInv_moved (idInv_taken hinv hr) hstep
  | simulator hsim =>
    obtain ⟨hsequencer, -, -, -, hperm⟩ := hsim.quiet
    refine ⟨?_, fun tx arc id hmem => ?_⟩
    · rw [hsequencer]
      exact hinv.ofSorting
    · rw [hsequencer]
      exact hinv.ofRequests tx arc id (hperm.mem_iff.mp hmem)

/-- Ids are never given back. -/
theorem draws_le_of_worldStep {e : WorldEvent} (h : WorldStep crates w e w') :
    w.sequencer.ctx.draws ≤ w'.sequencer.ctx.draws := by
  cases h with
  | sequencer hexternal hstep => exact draws_le_of_step hstep
  | deliver hr hstep => exact draws_le_of_step hstep
  | simulator hsim =>
    rw [hsim.quiet.sequencer]

/-- The run rule for the world, as long as ids are fresh. -/
theorem world_induction {P : World S → WorldEvent → Prop} {I : World S → Prop}
    (hstep : ∀ w e w', Fresh crates w'.sequencer.ctx → P w e → I w → WorldStep crates w e w' → I w')
    {events : List WorldEvent} (halong : Along (World.step crates) P w events) (hI : I w)
    (hrun : runSteps (World.step crates) w events = some w')
    (hfresh : Fresh crates w'.sequencer.ctx) : I w' := by
  have hinv : Fresh crates w'.sequencer.ctx → I w' := by
    refine halong.induction (I := fun w => Fresh crates w.sequencer.ctx → I w) ?_ (fun _ => hI) hrun
    intro w e w' hP hinv hw hfresh
    have hcase := worldStep_of_step hw
    exact hstep w e w' hfresh hP (hinv (hfresh.mono (draws_le_of_worldStep hcase))) hcase
  exact hinv hfresh

/-- A valid result for a frag is that of a request with the id of the frag. -/
theorem tagged_of_valid (hanswered : Answered w) {r : SimResult} (hr : r ∈ w.results)
    (hvalid : data.isValid r.result.stateId = true) (hmsg : r.result.msg = .tx simulatedTx) :
    tagged data.db.stateId r.request = true := by
  obtain ⟨outcome, houtcome⟩ := hanswered r hr
  obtain ⟨tx, arc, hrequest, -⟩ := request_of_tx houtcome hmsg
  rw [hrequest]
  exact hvalid

/-- Nothing runs at the start. -/
theorem running_start (s : Sequencer S) (n : ℕ) : running (World.start s n) = [] := by
  unfold running World.start
  rw [List.filterMap_eq_nil_iff]
  intro sim hsim
  rw [List.eq_of_mem_replicate hsim]
  rfl

/-- Nothing is outstanding. -/
theorem outstanding_start (s : Sequencer S) (n : ℕ) : outstanding (World.start s n) = [] := by
  unfold outstanding
  rw [running_start]
  rfl

/-- The invariant at the start. -/
theorem idInv_start (config : SequencerConfig) (db : SequencerDB S) (n : ℕ) :
    IdInv crates (World.start (.new crates config db) n) where
  ofSorting := fun _ _ h => nomatch h
  ofRequests := fun tx arc id hmem => by simp [outstanding_start] at hmem

end BasedOp.Analysis.StateIds
