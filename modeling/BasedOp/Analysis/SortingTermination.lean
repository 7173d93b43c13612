import BasedOp.Analysis.SortingRounds

/-!
# Rounds of sorting come to an end

An order that is asked gives a transaction away and has room to get one back, so what is left
to do before a round bounds the room of the orders that were asked (`loads_of_asking`). Putting
a transaction back uses that room, and popping an order gives some of it up. The last thing
that a round does is a pop, so that it leaves less to do, unless it ends with nothing selected
although a success has used exactly the gas that remains: such a transaction is neither
applied nor dropped (`sorted_of_noStuck`, `never_sorted`).
-/

set_option autoImplicit false

namespace BasedOp.Analysis.SortingTermination

open BasedOp.Computation Model Model.Gateway
open PoolContents SortingOrders SortingRounds

/-! ## What is left to do -/

/-- What an order has left to do: its transactions, and to be removed. -/
def load (order : SimulatedTxList) : ℕ :=
  1 + order.pending.txs.length + order.current.toList.length

/-- What an order can have left to do once a transaction is put into it. -/
def room (order : SimulatedTxList) : ℕ := 2 + order.pending.txs.length

def loads (orders : List SimulatedTxList) : ℕ := (orders.map load).sum

def rooms (orders : List SimulatedTxList) : ℕ := (orders.map room).sum

/-- The room exceeds the load. -/
theorem load_le_room (order : SimulatedTxList) : load order ≤ room order := by
  unfold load room
  cases order.current with
  | none =>
    rw [Option.toList_none, List.length_nil]
    omega
  | some =>
    rw [Option.toList_some, List.length_singleton]
    omega

/-- Loads add up. -/
@[simp] theorem loads_append (xs ys : List SimulatedTxList) :
    loads (xs ++ ys) = loads xs + loads ys := by
  unfold loads
  rw [List.map_append, List.sum_append]

/-- Rooms add up. -/
@[simp] theorem rooms_append (xs ys : List SimulatedTxList) :
    rooms (xs ++ ys) = rooms xs + rooms ys := by
  unfold rooms
  rw [List.map_append, List.sum_append]

/-- The load of one more order. -/
@[simp] theorem loads_cons (order : SimulatedTxList) (orders : List SimulatedTxList) :
    loads (order :: orders) = load order + loads orders := List.sum_cons

/-- The room of one more order. -/
@[simp] theorem rooms_cons (order : SimulatedTxList) (orders : List SimulatedTxList) :
    rooms (order :: orders) = room order + rooms orders := List.sum_cons

/-- So for lists. -/
theorem loads_le_rooms (orders : List SimulatedTxList) : loads orders ≤ rooms orders := by
  induction orders with
  | nil => exact Nat.le_refl _
  | cons order =>
    have hle := load_le_room order
    rw [loads_cons, rooms_cons]
    omega

variable {xs ys : List SimulatedTxList}

/-- The order does not matter to loads. -/
theorem loads_of_perm (h : xs.Perm ys) : loads xs = loads ys :=
  (h.map load).sum_nat

/-- Nor to rooms. -/
theorem rooms_of_perm (h : xs.Perm ys) : rooms xs = rooms ys :=
  (h.map room).sum_nat

variable {orders orders' : List SimulatedTxList} {baseFee limit : UInt64} {data sent : SortingData}
  {requests : List SequencerToSimulator}

/-- Without room there are no orders. -/
theorem eq_nil_of_rooms (h : rooms orders = 0) : orders = [] := by
  cases orders with
  | nil => rfl
  | cons =>
    rw [rooms_cons] at h
    unfold room at h
    omega

/-- An order that is asked gives its transaction away, and has room to get it back. -/
theorem room_of_nextToSim {before after : SimulatedTxList} {tx : Transaction}
    (h : before.nextToSim = (some tx, after)) : room after = load before := by
  unfold SimulatedTxList.nextToSim at h
  split at h
  · rename_i t hcurrent
    obtain ⟨-, rfl⟩ := Prod.mk.inj h
    unfold room load
    rw [hcurrent, Option.toList_some, List.length_singleton]
    omega
  · rename_i hcurrent
    obtain ⟨hhead, rfl⟩ := Prod.mk.inj h
    unfold room load TxList.popFront
    unfold TxList.popFront at hhead
    rw [hcurrent, Option.toList_none, List.length_nil]
    cases htxs : before.pending.txs with
    | nil =>
      rw [htxs] at hhead
      cases hhead
    | cons =>
      rw [List.tail_cons, List.length_cons]
      dsimp only
      omega

/-- A turn takes the room of the simulated one. -/
theorem rooms_after (turns : List Turn) :
    rooms (turns.map Turn.after) = loads (turns.map Turn.before) := by
  unfold rooms loads
  rw [List.map_map, List.map_map]
  exact congrArg List.sum (List.map_congr_left fun turn _ => room_of_nextToSim turn.asks)

/-- An order that is kept when it is popped has nothing simulated. -/
theorem pop_of_kept {order : SimulatedTxList} (h : (order.pop baseFee).1 = false) :
    (order.pop baseFee).2 = { order with current := none } := by
  unfold SimulatedTxList.pop at h ⊢
  split
  · rename_i hempty
    rw [if_pos hempty] at h
    cases h
  · cases hcurrent : order.current with
    | some => rfl
    | none =>
      dsimp only
      rw [← hcurrent]

/-- Putting back keeps the room. -/
theorem rooms_of_puts {tx : SimulatedTx} (h : Puts tx orders orders') :
    rooms orders' = rooms orders := by
  cases h with
  | intro =>
    rw [rooms_append, rooms_append, rooms_cons, rooms_cons]
    rfl

/-- A pop leaves no more room than before, and less to do than there was room. -/
theorem rooms_of_pops {sender : Address} (h : Pops sender baseFee orders orders') :
    rooms orders' ≤ rooms orders ∧ loads orders' < rooms orders := by
  cases h with
  | @kept front back order hsender hpop =>
    have hroom : room { order with current := none } = room order := rfl
    have hload : load { order with current := none } + 1 = room order := by
      show 1 + order.pending.txs.length + 0 + 1 = 2 + order.pending.txs.length
      omega
    have hfront := loads_le_rooms front
    have hback := loads_le_rooms back
    rw [pop_of_kept hpop, rooms_append, rooms_append, rooms_cons, rooms_cons, loads_append,
      loads_cons, hroom]
    omega
  | @removed front back back' order hsender hperm =>
    have hroom : 2 ≤ room order := Nat.le_add_right _ _
    have hfront := loads_le_rooms front
    have hback := loads_le_rooms back
    rw [rooms_append, rooms_append, rooms_cons, loads_append, loads_of_perm hperm,
      rooms_of_perm hperm]
    omega

/-! ## Rounds -/

/-- What the simulators give back in each round: every request is answered once. -/
structure Simulators where
  answer : ℕ → List SequencerToSimulator → List Answer
  answersAll : ∀ k requests, ((answer k requests).map Answer.request).Perm requests

section

variable {S : Type} (crates : Crates S) (limit baseFee : UInt64)

/-- The orders are asked, all results come back, and the best one is applied.
SRCLINE: sequencer/src/lib.rs:483-496 -/
def round (answer : List SequencerToSimulator → List Answer)
    (state : SortingData × SequencerContext S) : Option (SortingData × SequencerContext S) :=
  (state.1.sendNext limit).bind fun sent =>
    (runSteps (handle baseFee) sent.1 (answer sent.2)).bind fun data =>
      data.maybeApply crates baseFee state.2

/-- A number of rounds without new orders. -/
def rounds (sims : Simulators) :
    ℕ → SortingData × SequencerContext S → Option (SortingData × SequencerContext S)
  | 0, state => some state
  | k + 1, state => (rounds sims k state).bind (round crates limit baseFee (sims.answer k))

end

/-- If a success has used exactly the gas that remains, another one has used less. -/
def NoStuck (gasRemaining : UInt64) (answers : List Answer) : Prop :=
  (∃ answer ∈ answers, ∃ tx, answer.result = .ok tx ∧ tx.gasUsed = gasRemaining) →
    ∃ answer ∈ answers, ∃ tx, answer.result = .ok tx ∧ tx.gasUsed < gasRemaining

/-- What results do to what is left to do: the orders that were asked have no more room than
before, and a result that does not select or put back anything leaves less to do. -/
structure Lightens (gasRemaining : UInt64) (before : ℕ) (done : List Answer)
    (orders : List SimulatedTxList) (best : Option SimulatedTx) : Prop where
  rooms_le : rooms orders ≤ before
  owns : Owns orders
  selects : ∀ answer ∈ done, ∀ tx, answer.result = .ok tx → tx.gasUsed < gasRemaining →
    best ≠ none
  loads_lt : best = none → done ≠ [] →
    (∀ answer ∈ done, ∀ tx, answer.result = .ok tx → tx.gasUsed ≠ gasRemaining) →
      loads orders < before

/-- A result lightens the orders. -/
theorem lightens_step {gasRemaining : UInt64} {before : ℕ} {done : List Answer} {answer : Answer}
    {best best' : Option SimulatedTx} (h : Lightens gasRemaining before done orders best)
    (hstep : ResultStep gasRemaining baseFee answer.sender orders best answer.result orders'
      best') :
    Lightens gasRemaining before (done ++ [answer]) orders' best' := by
  have howns := hstep.owns h.owns
  have hrooms := h.rooms_le
  have hlast : answer ∈ done ++ [answer] := List.mem_append_right _ List.mem_cons_self
  generalize hresult : answer.result = result at hstep
  cases hstep with
  | dropped hgas hpops =>
    obtain ⟨hle, hlt⟩ := rooms_of_pops hpops
    refine ⟨by omega, howns, forall_concat h.selects ?_, fun _ _ _ => by omega⟩
    intro tx htx hbelow
    exact absurd (UInt64.lt_trans hbelow (hgas tx (hresult.symm.trans htx))) (UInt64.lt_irrefl _)
  | first =>
    exact ⟨hrooms, howns, fun _ _ _ _ _ hnone => (nomatch hnone), fun hnone => (nomatch hnone)⟩
  | better hbest hgas hpays hputs =>
    have hsame := rooms_of_puts hputs
    exact ⟨by omega, howns, fun _ _ _ _ _ hnone => (nomatch hnone), fun hnone => (nomatch hnone)⟩
  | @putBack tx _ hgas hpays hputs =>
    have hsame := rooms_of_puts hputs
    refine ⟨by omega, howns, forall_concat h.selects ?_, ?_⟩
    · intro tx' htx' hbelow hnone
      obtain rfl := Except.ok.inj (hresult.symm.trans htx')
      obtain ⟨old, hold, -⟩ := hpays hbelow
      rw [hnone] at hold
      cases hold
    · -- it uses less gas, and something is selected, or exactly what remains
      intro hnone _ hexact
      obtain hlt | heq := UInt64.lt_or_eq_of_le hgas
      · obtain ⟨old, hold, -⟩ := hpays hlt
        rw [hnone] at hold
        cases hold
      · exact absurd heq (hexact answer hlast tx hresult)

/-- What is left to do before a round is what is in front, what is dropped, and the
room of the orders that were asked. -/
theorem loads_of_asking (asking : Asking data limit [] sent requests) :
    loads data.tofSnapshot = loads asking.front + loads asking.dropped + rooms asking.asked := by
  have hrest := loads_of_perm asking.rest_perm
  have hasked := rooms_of_perm asking.asked_perm
  rw [List.append_nil, rooms_after] at hasked
  rw [loads_append] at hrest
  rw [asking.before, List.append_nil, loads_append]
  omega

/-- If nothing was asked although there was room, no orders are left. -/
theorem asked_nothing (asking : Asking data limit [] sent requests)
    (hroom : data.inFlightSims < limit) (hnil : requests = []) :
    asking.front = [] ∧ rooms asking.asked = 0 := by
  have hturns : asking.turns = [] :=
    List.map_eq_nil_iff.mp (asking.requests_eq.symm.trans hnil)
  refine ⟨asking.finished hturns hroom, ?_⟩
  rw [rooms_of_perm asking.asked_perm, hturns]
  rfl

/-- All results of a round are taken in, and nothing is in flight then. -/
theorem lightens_of_round (asking : Asking data limit [] sent requests) (h : Settled data)
    (baseFee : UInt64) {answers : List Answer}
    (hanswers : (answers.map Answer.request).Perm requests) :
    ∃ data' orders, runSteps (handle baseFee) sent answers = some data' ∧
      data'.inFlightSims = 0 ∧ data'.tofSnapshot = asking.front ++ orders ∧
      Covers orders data'.nextToBeApplied [] ∧
      Lightens data.gasRemaining (rooms asking.asked) answers orders data'.nextToBeApplied := by
  have howns := (asking.owns h.owns).2
  obtain ⟨orders, best, hrun, hcovers, hlightens⟩ := handle_induction
    (I := Lightens data.gasRemaining (rooms asking.asked)) baseFee
    (fun _ _ _ _ _ _ _ _ hlightens hstep => lightens_step hlightens hstep)
    (List.nil_append answers) asking.gasRemaining_eq asking.tofSnapshot_eq
    (covers_of_asking asking h.owns h.nextToBeApplied hanswers)
    ⟨Nat.le_refl _, howns, fun _ hmem => (nomatch hmem), fun _ hne => absurd rfl hne⟩
  refine ⟨_, orders, hrun, ?_, rfl, hcovers, hlightens⟩
  have hlength : answers.length = requests.length := by
    rw [← hanswers.length_eq, List.length_map]
  show sent.inFlightSims - UInt64.ofNat answers.length = 0
  rw [asking.inFlightSims_eq, h.inFlightSims, hlength, UInt64.zero_add, UInt64.sub_self]

/-- A round never panics, nothing is under way after it, and if no transaction is
stuck it leaves less to do, or no orders. -/
theorem round_spec {S : Type} (crates : Crates S) (baseFee : UInt64)
    {answer : List SequencerToSimulator → List Answer} (ctx : SequencerContext S)
    (hlimit : 1 ≤ limit) (h : Settled data)
    (hanswers : ∀ requests, ((answer requests).map Answer.request).Perm requests)
    (hstuck : ∀ sent requests, data.sendNext limit = some (sent, requests) →
      NoStuck data.gasRemaining (answer requests)) :
    ∃ data' ctx', round crates limit baseFee answer (data, ctx) = some (data', ctx') ∧
      Settled data' ∧
      (data'.tofSnapshot = [] ∨ loads data'.tofSnapshot < loads data.tofSnapshot) := by
  obtain ⟨sent, requests, hsend, ⟨asking⟩⟩ := sendNext_spec data limit
  obtain ⟨data₁, orders, hrun, hflight, horders, hcovers, hlightens⟩ :=
    lightens_of_round asking h baseFee (hanswers requests)
  have hfront := (asking.owns h.owns).1
  have hloads := loads_of_asking asking
  have hrooms := hlightens.rooms_le
  have hround : round crates limit baseFee answer (data, ctx) =
      data₁.maybeApply crates baseFee ctx := by
    unfold round
    rw [hsend, Option.bind_some, hrun, Option.bind_some]
  rw [hround]
  cases hbest : data₁.nextToBeApplied with
  | some =>
    obtain ⟨orders', happly, hpops, -⟩ :=
      maybeApply_spec crates baseFee ctx horders hcovers hbest
    refine ⟨_, _, happly, ⟨hflight, rfl, owns_append hfront (hpops.owns hlightens.owns)⟩, .inr ?_⟩
    have hlt := (rooms_of_pops hpops).2
    show loads (asking.front ++ orders') < loads data.tofSnapshot
    rw [loads_append]
    omega
  | none =>
    have happly := maybeApply_of_none crates baseFee ctx hbest
    have howns : Owns data₁.tofSnapshot := horders ▸ owns_append hfront hlightens.owns
    refine ⟨data₁, ctx, happly, ⟨hflight, hbest, howns⟩, ?_⟩
    rw [horders]
    by_cases hnil : answer requests = []
    · have hrequests : requests = [] := by
        have hperm := hanswers requests
        rw [hnil] at hperm
        exact hperm.nil_eq.symm
      have hroom : data.inFlightSims < limit := by
        rw [h.inFlightSims]
        exact UInt64.lt_of_lt_of_le (by decide) hlimit
      obtain ⟨hnofront, hnorooms⟩ := asked_nothing asking hroom hrequests
      refine .inl ?_
      rw [hnofront, List.nil_append]
      exact eq_nil_of_rooms (by omega)
    · have hexact : ∀ a ∈ answer requests, ∀ tx, a.result = .ok tx →
          tx.gasUsed ≠ data.gasRemaining := by
        intro a ha tx htx heq
        obtain ⟨b, hb, tx', htx', hbelow⟩ := hstuck sent requests hsend ⟨a, ha, tx, htx, heq⟩
        exact hlightens.selects b hb tx' htx' hbelow hbest
      have hlt := hlightens.loads_lt hbest hnil hexact
      refine .inr ?_
      rw [loads_append]
      omega

/-- Sorting comes to an end: from every set of orders, whatever gas remains and whatever the
simulators answer, some round leaves no orders, and none panics, as long as in every round
in which a success has used exactly the gas that remains another one has used less. Such a
success is neither applied, for which it must use less, nor dropped, for which it must use
more, but put back to be simulated again.
SRCLINE: sorting_data.rs:147-280 -/
theorem sorted_of_noStuck {S : Type} (crates : Crates S) {limit : UInt64} (baseFee : UInt64)
    (sims : Simulators) {data : SortingData} (ctx : SequencerContext S) (hlimit : 1 ≤ limit)
    (hsettled : Settled data)
    (hstuck : ∀ k data₁ ctx₁ sent requests,
      rounds crates limit baseFee sims k (data, ctx) = some (data₁, ctx₁) →
      data₁.sendNext limit = some (sent, requests) →
        NoStuck data₁.gasRemaining (sims.answer k requests)) :
    ∃ k data' ctx', rounds crates limit baseFee sims k (data, ctx) = some (data', ctx') ∧
      data'.tofSnapshot = [] := by
  -- by induction on what is left to do after some rounds
  have hend : ∀ todo k data₁ ctx₁,
      rounds crates limit baseFee sims k (data, ctx) = some (data₁, ctx₁) → Settled data₁ →
      loads data₁.tofSnapshot < todo → ∃ k data' ctx',
        rounds crates limit baseFee sims k (data, ctx) = some (data', ctx') ∧
          data'.tofSnapshot = [] := by
    intro todo
    induction todo with
    | zero =>
      intro k data₁ ctx₁ _ _ hlt
      exact absurd hlt (Nat.not_lt_zero _)
    | succ todo ih =>
      intro k data₁ ctx₁ hrounds hsettled₁ hlt
      obtain ⟨data₂, ctx₂, hround, hsettled₂, hless⟩ := round_spec crates baseFee ctx₁ hlimit
        hsettled₁ (sims.answersAll k) fun sent requests => hstuck k data₁ ctx₁ sent requests hrounds
      have hrounds₂ : rounds crates limit baseFee sims (k + 1) (data, ctx) =
          some (data₂, ctx₂) := by
        rw [rounds, hrounds, Option.bind_some]
        exact hround
      obtain hnil | hless := hless
      · exact ⟨k + 1, data₂, ctx₂, hrounds₂, hnil⟩
      · exact ih (k + 1) data₂ ctx₂ hrounds₂ hsettled₂ (by omega)
  exact hend (loads data.tofSnapshot + 1) 0 data ctx rfl hsettled (Nat.lt_succ_self _)

/-- Simulators that give the same result for a transaction in every round. -/
def Simulators.ofResult (result : Transaction → Except SimulationError SimulatedTx)
    (hresult : ∀ tx simulated, result tx = .ok simulated → simulated.tx = tx) : Simulators where
  answer := fun _ requests => requests.map fun request =>
    { request := request, result := result request.tx, ofRequest := hresult request.tx }
  answersAll := by
    intro k requests
    rw [List.map_map]
    exact List.Perm.of_eq (List.map_id requests)

/-- Simulators under which every transaction fails. -/
def failing : Simulators := .ofResult (fun _ => .error .zeroPayment) fun _ _ h => nomatch h

/-- The context of a sequencer that has not done anything yet. -/
def plainContext : SequencerContext ℕ :=
  (Sequencer.new plainCrates (plainSequencerConfig false) plainDB).ctx

/-- All simulations fail. -/
theorem sorted_of_noStuck_failing :
    ∃ k data' ctx', rounds plainCrates 1 1 failing k
        (plainSorting 50000 [plainRawTx [1], plainRawTx [2]], plainContext) = some (data', ctx') ∧
      data'.tofSnapshot = [] := by
  refine sorted_of_noStuck plainCrates 1 failing plainContext (by decide)
    ⟨rfl, rfl, owns_plainSorting _ _⟩ ?_
  rintro k data₁ ctx₁ sent requests - - ⟨answer, hanswer, tx, htx, -⟩
  obtain ⟨request, -, rfl⟩ := List.mem_map.mp hanswer
  cases htx

/-- The simulation of a transaction that uses all the gas it may. -/
def usesLimit (tx : Transaction) : SimulatedTx where
  tx := tx
  resultAndState := { result := .success tx.gasLimit [], state := [] }
  payment := 1
  depositNonce := none

/-- Simulators under which every transaction uses all the gas it may. -/
def exhausting : Simulators := .ofResult (fun tx => .ok (usesLimit tx)) (by
  rintro tx _ ⟨⟩
  rfl)

/-- The frag once the transaction was put back. -/
def stuckSorting : SortingData :=
  { plainSorting 50000 [] with tofSnapshot := [.fromSimulated (usesLimit (plainRawTx [1]))] }

/-- One transaction that uses all the gas it may, which is all the gas that remains, is simulated
again in every round, and its order is never gone.
SRCLINE: sorting_data.rs:167-182 -/
theorem never_sorted :
    (∀ tx, (usesLimit tx).gasUsed ≤ tx.gasLimit) ∧
    ∀ k, ∃ data' ctx', rounds plainCrates 1 1 exhausting k
        (plainSorting 50000 [plainRawTx [1]], plainContext) = some (data', ctx') ∧
      data'.tofSnapshot ≠ [] := by
  refine ⟨fun tx => UInt64.le_refl _, fun k => ?_⟩
  have hfirst : round plainCrates 1 1 (exhausting.answer 0)
      (plainSorting 50000 [plainRawTx [1]], plainContext) = some (stuckSorting, plainContext) := rfl
  have hagain : ∀ k, round plainCrates 1 1 (exhausting.answer k) (stuckSorting, plainContext) =
      some (stuckSorting, plainContext) := fun _ => rfl
  have hstuck : ∀ k, rounds plainCrates 1 1 exhausting (k + 1)
      (plainSorting 50000 [plainRawTx [1]], plainContext) = some (stuckSorting, plainContext) := by
    intro k
    induction k with
    | zero => exact hfirst
    | succ k ih =>
      rw [rounds, ih, Option.bind_some]
      exact hagain (k + 1)
  cases k with
  | zero => exact ⟨_, _, rfl, List.cons_ne_nil _ _⟩
  | succ k => exact ⟨_, _, hstuck k, List.cons_ne_nil _ _⟩

end BasedOp.Analysis.SortingTermination
